import Opentxs.Bitcoin.BitcoinScript
import Opentxs.Wallet.Types

/-! What the jobs of a subchain send each other: reports about the blocks they have
scanned or processed, and the filter tips that they pass on. -/

namespace Opentxs.Subchain.Messages
open HeaderOracle BlockHeader
open Bitcoin.BitcoinScript (FilterType)

/-- The number of a reorg. -/
abbrev StateSequence := Nat

inductive ScanState
  | dirty
  | scanClean
  | processed
  | rescanClean
  deriving DecidableEq, Repr

def ScanState.rank : ScanState → Nat
  | dirty => 0
  | scanClean => 1
  | processed => 2
  | rescanClean => 3

structure ScanStatus where
  state : ScanState
  position : Position
  deriving DecidableEq, Repr

inductive Work
  | filter
  | update
  | reprocess
  | process
  | doRescan
  deriving DecidableEq, Repr

/-- One frame of the body of a message. -/
inductive Frame
  | work (work : Work)
  | type (type : FilterType)
  | height (height : Int)
  | hash (hash : Hash)
  | sequence (number : StateSequence)
  | status (status : ScanStatus)
  | empty
  deriving DecidableEq, Repr

/-- The number of the last reorg that a job has acknowledged goes with an update as a frame
that may be empty, and with a filter tip as a frame that may be missing. -/
inductive Message
  | filter (type : FilterType) (tip : Position) (extra : List StateSequence)
  | update (epoch : Option StateSequence) (statuses : List ScanStatus)
  | reprocess (epoch : Option StateSequence) (statuses : List ScanStatus)
  | process (position : Position)
  | doRescan
  deriving DecidableEq, Repr

def epochFrame (epoch : Option StateSequence) : Frame := epoch.elim .empty .sequence

/-- The frames of the body, in the order in which they are read by position. -/
def Message.payload : Message → List Frame
  | .filter type tip extra => [.work .filter, .type type, .height tip.height, .hash tip.hash] ++ extra.map .sequence
  | .update epoch statuses => [.work .update, epochFrame epoch] ++ statuses.map .status
  | .reprocess epoch statuses => [.work .reprocess, epochFrame epoch] ++ statuses.map .status
  | .process position => [.work .process, .height position.height, .hash position.hash]
  | .doRescan => [.work .doRescan]

def Frame.asSequence : Frame → Option StateSequence
  | .sequence number => some number
  | _ => none

/-- All that a report says except about dirty blocks. -/
def cleanOf (statuses : List ScanStatus) : List ScanStatus := statuses.filter (·.state ≠ .dirty)

def dirtyOf (statuses : List ScanStatus) : List Position :=
  (statuses.filter (·.state = .dirty)).map (·.position)

def processedOf (statuses : List ScanStatus) : List Position :=
  (statuses.filter (·.state = .processed)).map (·.position)

end Opentxs.Subchain.Messages
