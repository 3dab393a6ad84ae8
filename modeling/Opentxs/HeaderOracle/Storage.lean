import Opentxs.Library.SortedList
import Opentxs.HeaderOracle.BlockHeader

/-! The header database: header metadata, one row for each height of the best chain, the
sibling and disconnected sets, the checkpoint, and the last reorg that was published. -/

namespace Opentxs.HeaderOracle.Storage
open Library BlockHeader

variable {Work : Type}

/-- A disconnected block under the hash of the parent it waits for. -/
structure ChainSegment where
  parent : Hash
  child : Hash
  deriving DecidableEq, Repr

instance : LinearOrder ChainSegment :=
  LinearOrder.lift' (fun segment => toLex (segment.parent, segment.child)) (by
    intro first second same
    cases first
    cases second
    simpa using same)

inductive Message
  | tip (tip : Position)
  | reorg (parent tip : Position)
  deriving DecidableEq, Repr

inductive LastUpdate
  | none
  | tip (tip : Position)
  | reorg (parent tip : Position)
  deriving DecidableEq, Repr

/-- A row that does not exist reads as the null hash. -/
structure Database (Work : Type) where
  headers : Hash → Option (Header Work)
  rows : Int → Hash
  tipHeight : Int
  checkpoint : Position
  disconnected : List ChainSegment
  siblings : List Hash
  lastUpdate : LastUpdate

def initial [Zero Work] (genesis : Genesis Work) : Database Work where
  headers := fun hash => if hash = genesis.hash then some genesis.header else none
  rows := fun height => if height = 0 then genesis.hash else nullHash
  tipHeight := 0
  checkpoint := {}
  disconnected := []
  siblings := []
  lastUpdate := .none

def Database.bestBlock (db : Database Work) (position : Int) : Hash :=
  if position < 0 then nullHash else db.rows position

def Database.best (db : Database Work) : Position :=
  if db.rows db.tipHeight = nullHash then {} else ⟨db.tipHeight, db.rows db.tipHeight⟩

def Database.haveCheckpoint (db : Database Work) : Bool := 0 < db.checkpoint.height

def Database.headerExists (db : Database Work) (hash : Hash) : Bool := (db.headers hash).isSome

def Database.loadHeader (db : Database Work) (hash : Hash) : Except Fault (Header Work) :=
  match db.headers hash with
  | some header => .ok header
  | none => .error .exception

/-- A best header that cannot be loaded aborts. -/
def Database.currentBest (db : Database Work) : Except Fault (Header Work) :=
  noexcept (db.loadHeader db.best.hash)

def setRow (rows : Int → Hash) (height : Int) (hash : Hash) : Int → Hash :=
  fun other => if other = height then hash else rows other

/-- Deleting a row that does not exist fails. -/
def popBest (rows : Int → Hash) (height : Int) : Option (Int → Hash) :=
  if rows height = nullHash then none else some (setRow rows height nullHash)

def popBestFrom : (count : Nat) → (height : Int) → (Int → Hash) → Option (Int → Hash)
  | 0, _, rows => some rows
  | count + 1, height, rows => (popBest rows height).bind (popBestFrom count (height - 1))

end Opentxs.HeaderOracle.Storage
