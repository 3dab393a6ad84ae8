import Mathlib.Data.Finset.Union
import Mathlib.Data.Finset.Lattice.Basic
import Mathlib.Data.Finset.Image
import Opentxs.Library.Program
import Opentxs.Library.SortedList
import Opentxs.Wallet.Types

/-! The tables of the wallet, the copy of them in memory, and a write transaction that is
open over the tables. -/

namespace Opentxs.Wallet.Storage
open Library HeaderOracle BlockHeader Types

/-- A table with several values under one key, or the map of sets that mirrors it. -/
abbrev Index (κ : Type) := Finset (κ × Outpoint)

def Index.rows {κ : Type} [DecidableEq κ] (index : Index κ) (key : κ) : Finset Outpoint :=
  (index.filter fun row => row.1 = key).image Prod.snd

@[simp] theorem Index.mem_rows {κ : Type} [DecidableEq κ] (index : Index κ) (key : κ) (outpoint : Outpoint) :
    outpoint ∈ Index.rows index key ↔ (key, outpoint) ∈ index := by
  unfold Index.rows
  constructor
  · intro member
    obtain ⟨row, inRows, same⟩ := Finset.mem_image.mp member
    obtain ⟨inIndex, sameKey⟩ := Finset.mem_filter.mp inRows
    rwa [← same, ← sameKey]
  · intro member
    exact Finset.mem_image.mpr ⟨(key, outpoint), Finset.mem_filter.mpr ⟨member, rfl⟩, rfl⟩

/-- Under which keys an output is found. -/
structure Indexes where
  accounts : Index AccountID := ∅
  keys : Index Key := ∅
  nyms : Index Nym := ∅
  positions : Index Position := ∅
  states : Index TxoState := ∅
  subchains : Index SubchainID := ∅

/-- The table from outputs to proposals holds one row for each output, unlike the others. -/
structure Tables where
  outputs : Outpoint → Option Output := fun _ => none
  indexes : Indexes := {}
  generation : Index Int := ∅
  outputProposal : Outpoint → Option ProposalID := fun _ => none
  proposalCreated : Index ProposalID := ∅
  proposalSpent : Index ProposalID := ∅
  position : Option Position := none
  proposals : ProposalID → Option Content := fun _ => none

/-- The copy in memory. Here an output can have several proposals, in the order in which they
were associated, and a generation output can stand more than once. -/
structure OutputCache where
  position : Option Position := none
  outputs : Outpoint → Option Output := fun _ => none
  indexes : Indexes := {}
  generationOutputs : List (Int × Outpoint) := []
  outputToProposal : Outpoint → List ProposalID := fun _ => []
  createdByProposal : Index ProposalID := ∅
  consumedByProposal : Index ProposalID := ∅
  populated : Bool := false

/-- What is known of proposals beside their table; it is not undone with a transaction. -/
structure ProposalData where
  finished : Finset ProposalID := ∅
  cancelled : Finset ProposalID := ∅

structure Database where
  tables : Tables := {}
  cache : OutputCache := {}
  proposalData : ProposalData := {}

/-- A write transaction: the tables as they were last committed, and as the transaction leaves
them. `writes` says of the next writes whether they go through; later ones do. -/
structure Session where
  committed : Tables
  tables : Tables
  cache : OutputCache
  proposalData : ProposalData
  writes : List Bool

abbrev Writing := Program Session Fault

def exception {α : Type} : Writing α := Program.throw .exception

def require (condition : Bool) : Writing Unit := Program.require condition .exception

def assertTrue (condition : Bool) : Writing Unit := Program.require condition .terminate

def readCache : Writing OutputCache := fun session => (.ok session.cache, session)

def changeCache (change : OutputCache → OutputCache) : Writing Unit :=
  Program.modify fun session => { session with cache := change session.cache }

def changeIndexes (change : Indexes → Indexes) : Writing Unit :=
  changeCache fun cache => { cache with indexes := change cache.indexes }

def changeTables (change : Tables → Tables) : Writing Unit :=
  Program.modify fun session => { session with tables := change session.tables }

/-- Whether the next write goes through. -/
def nextWrite : Writing Bool := fun session =>
  (.ok (session.writes.headD true), { session with writes := session.writes.tail })

def store (change : Tables → Tables) : Writing Bool := do
  let rc ← nextWrite
  Program.onlyIf rc (changeTables change)
  pure rc

def storeIndex (change : Indexes → Indexes) : Writing Bool :=
  store fun tables => { tables with indexes := change tables.indexes }

/-- Deleting a row fails when the row is not there. -/
def delete (present : Tables → Bool) (change : Tables → Tables) : Writing Bool := do
  let session ← Program.get
  if present session.tables then
    changeTables change
    pure true
  else pure false

end Opentxs.Wallet.Storage
