import Mathlib.Data.Finset.Max
import Opentxs.HeaderOracle.Storage
import Opentxs.Wallet.Types

/-! Positions of blocks, and what the header oracle says about them: the block of the best
chain at a height, whether a block is in the best chain, and which blocks a reorg has
taken out of it. -/

namespace Opentxs.Subchain.Positions
open HeaderOracle BlockHeader Storage
open Wallet.Types

variable {Work : Type}

theorem position_ext {first second : Position} (height : first.height = second.height) (hash : first.hash = second.hash) :
    first = second := by
  cases first
  cases second
  cases height
  cases hash
  rfl

theorem lt_of_height {first second : Position} (less : first.height < second.height) : first < second := by
  show toLex (first.height, first.hash) < toLex (second.height, second.hash)
  exact Prod.Lex.lt_iff.mpr (.inl less)

/-- The least element of a set, as its first iterator reads it. -/
def lowest {α : Type} [LinearOrder α] (set : Finset α) : Option α := set.min

/-- The greatest element of a set. -/
def highest {α : Type} [LinearOrder α] (set : Finset α) : Option α := set.max

def nullPosition : Position := {}

def isReplacedBy (position other : Position) : Bool :=
  if other.height < position.height then true
  else if position.height < other.height then false
  else position.hash ≠ other.hash

def reorgTarget (reorg current : Position) : Position := min current reorg

/-- A height without a block reads as the position before the genesis block. -/
def getPosition (oracle : Database Work) (height : Int) : Position :=
  if oracle.bestBlock height = nullHash then nullPosition else ⟨height, oracle.bestBlock height⟩

def isInBestChain (oracle : Database Work) (position : Position) : Bool :=
  position.hash = oracle.bestBlock position.height

def bestHashesFrom (oracle : Database Work) : (count : Nat) → (current : Int) → List Hash
  | 0, _ => []
  | count + 1, current =>
    if oracle.best.height < current ∨ oracle.bestBlock current = nullHash then []
    else oracle.bestBlock current :: bestHashesFrom oracle count (current + 1)

def bestHashes (oracle : Database Work) (start : Int) (limit : Nat) : List Hash :=
  bestHashesFrom oracle limit start

/-- From a block that is not in the best chain down to the last one before the chain, while
the heights fit and no header is missing. -/
def orphaned (oracle : Database Work) : (height : Nat) → (hash : Hash) → Option (List Position)
  | 0, _ => none
  | height + 1, hash => do
    let header ← oracle.headers hash
    if header.height ≠ height + 1 then none
    else if isInBestChain oracle ⟨height, header.parentHash⟩ then some [⟨height + 1, hash⟩]
    else (⟨height + 1, hash⟩ :: ·) <$> orphaned oracle height header.parentHash

/-- The blocks that are no longer in the best chain, the tip first. -/
def calculateReorg (oracle : Database Work) (tip : Position) : Option (List Position) :=
  if isInBestChain oracle tip then some []
  else if tip.height < 0 then some [tip]
  else orphaned oracle tip.height.toNat tip.hash

end Opentxs.Subchain.Positions
