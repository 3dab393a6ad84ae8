import Opentxs.Subchain.Messages
import Opentxs.Subchain.Positions

/-! One run of a scan or a rescan over the filters of a few blocks, and the state that the
jobs of a subchain share. -/

namespace Opentxs.Subchain.Scanning
open HeaderOracle BlockHeader
open HeaderOracle.Storage (Database)
open Wallet.Types Messages Positions

variable {Work : Type}

def scanThreshold : Int := 1000

def maximumScan : Nat := 2000

def finishRescan : Int := scanThreshold + maximumScan

/-- The greatest height. -/
def maxHeight : Int := 2 ^ 63 - 1

/-- What the jobs share. The position in the database is the one from which a later run of the
program goes on, and the cache holds the blocks whose matches have not been written yet. -/
structure SubchainData where
  saved : Position := {}
  scanDirty : Bool := false
  needReorg : Bool := false
  rescanPending : Bool := false
  progressPosition : Option Position := none
  cache : Finset Position := ∅

/-- The request for a full rescan that goes to Scan, unless there is one already. -/
def triggerRescan (parent : SubchainData) : SubchainData × List Message :=
  ({ parent with rescanPending := true }, if parent.rescanPending then [] else [.doRescan])

/-- What a scan finds outside: how many filters it takes on at once, and of each filter that could
be loaded, in the order of the blocks, whether it matches an element. -/
structure Batch where
  size : Nat
  matched : List Bool
  deriving DecidableEq, Repr

/-- The blocks tested and whether their filters match, with ascending heights. -/
abbrev Tested := List (Position × Bool)

def cleanBlocks (tested : Tested) : List Position := (tested.filter fun block => !block.2).map Prod.fst

def dirtyBlocks (tested : Tested) : List Position := (tested.filter fun block => block.2).map Prod.fst

structure Scanned where
  tested : Position
  highestClean : Option Position
  dirty : List Position
  deriving DecidableEq, Repr

def highestClean (clean dirty : List Position) : Option Position :=
  match clean.getLast?, dirty with
  | none, _ => none
  | some last, [] => some last
  | some _, lowestDirty :: _ => (clean.filter (· ≤ lowestDirty)).getLast?

/-- The highest position tested stays where it was if no filter could be loaded. -/
def highestTested (clean dirty : List Position) (start : Position) : Position :=
  match clean.getLast?, dirty.getLast? with
  | none, none => start
  | none, some dirty => dirty
  | some clean, none => clean
  | some clean, some dirty => max clean dirty

/-- The blocks from a height on, with the heights that they have. -/
def positionsFrom (height : Int) : List Hash → List Position
  | [] => []
  | hash :: hashes => ⟨height, hash⟩ :: positionsFrom (height + 1) hashes

def stopHeight (batch : Batch) (best : Position) (stop start : Int) : Int :=
  min (min (start + min maximumScan batch.size - 1) best.height) stop

/-- The blocks that a scan from a height takes on. -/
def targets (oracle : Database Work) (batch : Batch) (best : Position) (stop start : Int) : List Position :=
  if stopHeight batch best stop start < start then []
  else positionsFrom start (bestHashes oracle start (stopHeight batch best stop start - start + 1).toNat)

def tested (oracle : Database Work) (batch : Batch) (best : Position) (stop start : Int) : Tested :=
  (targets oracle batch best stop start).zip batch.matched

/-- Where there is nothing to scan the source leaves by an exception, with nothing found. -/
def scan (oracle : Database Work) (batch : Batch) (best : Position) (stop : Int) (start : Position) : Scanned :=
  let tested := tested oracle batch best stop (start.height + 1)
  { tested := highestTested (cleanBlocks tested) (dirtyBlocks tested) start
    highestClean := highestClean (cleanBlocks tested) (dirtyBlocks tested)
    dirty := dirtyBlocks tested }

end Opentxs.Subchain.Scanning
