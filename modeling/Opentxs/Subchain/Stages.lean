import Opentxs.Subchain.Scanning

/-! The jobs of a subchain. Scan goes over the filters of new blocks, Process downloads the
blocks that match and works through them, Index adds new elements, Rescan goes over
filters again with the elements found since, and Progress saves how far they all are. -/

namespace Opentxs.Subchain.Stages
open Library Library.SortedList HeaderOracle BlockHeader
open HeaderOracle.Storage (Database)
open Wallet.Types Messages Positions Scanning
open Bitcoin.BitcoinScript (FilterType)

variable {Work : Type}

inductive JobType
  | scan
  | process
  | index
  | rescan
  | progress
  deriving DecidableEq, Repr

inductive JobState
  | normal
  | reorg
  deriving DecidableEq, Repr

/-- The reorgs that a job has acknowledged, in the order of their numbers. -/
structure Job where
  reorgs : List StateSequence := []
  state : JobState := .normal
  deriving DecidableEq, Repr

def Job.lastReorg (job : Job) : Option StateSequence := job.reorgs.getLast?

/-- A reorg that the job has handled before aborts. -/
def Job.transitionStateReorg (id : StateSequence) (job : Job) : Option Job :=
  if id = 0 ∨ id ∈ job.reorgs then none
  else some { reorgs := insertSorted id job.reorgs, state := .reorg }

def Job.transitionStateNormal (job : Job) : Job := { job with state := .normal }

/-- Whether the second frame names the reorg that the job has acknowledged last. -/
def Job.expects (job : Job) (message : Message) : Bool :=
  match (message.payload[1]? : Option Frame) with
  | some .empty => job.lastReorg = none
  | some (.sequence number) => job.lastReorg = some number
  | _ => false

/-! ## Scan -/

/-- The filter tip is there from the start of the job on. -/
structure Scan where
  lastScanned : Option Position := none
  filterTip : Position := {}
  indexReady : Bool := false
  deriving DecidableEq, Repr

namespace Scan

def current (scan : Scan) : Position := scan.lastScanned.getD nullPosition

def caughtUp (scan : Scan) : Bool := scan.current = scan.filterTip

def doStartup (saved tip : Position) : Scan where
  lastScanned := some (if isReplacedBy saved tip then tip else saved)
  filterTip := tip

/-- The report that Scan makes when it starts. -/
def startupReport (scan : Scan) : Message := .update none [⟨.scanClean, scan.current⟩]

/-- The number of the last reorg becomes a frame of its own. -/
def processFilter (job : Job) (type : FilterType) (tip : Position) (scan : Scan) : Scan × List Message :=
  if tip < scan.filterTip then (scan, [])
  else ({ scan with filterTip := tip }, [.filter type tip job.lastReorg.toList])

def dirtyReport (job : Job) (dirty : List Position) : List Message :=
  if dirty = [] then [] else [.update job.lastReorg (dirty.map (⟨.dirty, ·⟩))]

def cleanReport (job : Job) : Option Position → List Message
  | none => []
  | some clean => [.update job.lastReorg [⟨.scanClean, clean⟩]]

/-- Scan waits for Rescan when it is too far ahead of the position saved last. -/
def mayScan (parent : SubchainData) (scan : Scan) : Bool :=
  scan.indexReady && !scan.caughtUp &&
    !(parent.scanDirty && scanThreshold < scan.current.height - parent.progressPosition.elim (-1) Position.height)

def work (oracle : Database Work) (batch : Batch) (job : Job) (parent : SubchainData) (scan : Scan) : Scan × List Message :=
  if scan.mayScan parent then
    let found := Scanning.scan oracle batch scan.filterTip maxHeight scan.current
    ({ scan with lastScanned := some found.tested }, dirtyReport job found.dirty ++ cleanReport job found.highestClean)
  else (scan, [])

def processDoRescan (scan : Scan) : Scan := { scan with lastScanned := none }

def doReorg (parent : SubchainData) (position : Position) (scan : Scan) : Scan :=
  if parent.needReorg then
    { scan with
      lastScanned := scan.lastScanned.map (reorgTarget position)
      filterTip := if isReplacedBy scan.filterTip position then position else scan.filterTip }
  else scan

end Scan

/-! ## Process -/

/-- The blocks that are ready are known by their positions. Those that run are in the hands of a
thread that reports back when the matches are in the cache. -/
structure Process where
  downloadLimit : Nat := 0
  waiting : List Position := []
  downloading : Finset Position := ∅
  downloadingIndex : Hash → Option Position := fun _ => none
  ready : Finset Position := ∅
  processing : Finset Position := ∅
  running : List Position := []

namespace Process

def doProcessUpdate (statuses : List ScanStatus) (process : Process) : Process :=
  { process with waiting := process.waiting ++ dirtyOf statuses }

def emplaceDownload (process : Process) (position : Position) : Process :=
  { process with
    downloading := insert position process.downloading
    downloadingIndex := fun hash =>
      if hash = position.hash then some ((process.downloadingIndex hash).getD position) else process.downloadingIndex hash }

def download (positions : List Position) (process : Process) : Process := positions.foldl emplaceDownload process

def processReprocess (statuses : List ScanStatus) (process : Process) : Process := process.download (dirtyOf statuses)

def processBlock (process : Process) (id : Hash) : Process :=
  match process.downloadingIndex id with
  | none => process
  | some position =>
    { process with
      ready := insert position process.ready
      downloading := process.downloading.erase position
      downloadingIndex := fun hash => if hash = id then none else process.downloadingIndex hash }

def processBlocks (blocks : List Hash) (process : Process) : Process := blocks.foldl processBlock process

def queueDownloads (process : Process) : Process :=
  let count := max process.downloadLimit process.downloading.card - process.downloading.card
  { process with waiting := process.waiting.drop count }.download (process.waiting.take count)

/-- At most one block is processed at a time. -/
def queueProcess (allowed : Bool) (process : Process) : Process :=
  match lowest process.ready with
  | none => process
  | some position =>
    if allowed ∧ process.processing = ∅ then
      { process with
        ready := process.ready.erase position
        processing := insert position process.processing
        running := process.running ++ [position] }
    else process

/-- The thread is done with a block. -/
def finishBlock (position : Position) (process : Process) : Process :=
  { process with running := process.running.erase position }

def processProcess (position : Position) (process : Process) : Process :=
  { process with processing := process.processing.erase position }

/-- The blocks that are still on their way. -/
def outstanding (process : Process) : Nat :=
  process.waiting.length + process.downloading.card + process.ready.card

/-- The blocks whose matches are written now, all of them or none. -/
def flushed (late : Bool) (parent : SubchainData) (process : Process) : Finset Position :=
  if process.outstanding = 0 ∨ late then parent.cache else ∅

def flushReport (job : Job) (flushed : Finset Position) : List Message :=
  if flushed = ∅ then [] else [.update job.lastReorg ((ordered flushed).map (⟨.processed, ·⟩))]

def processDoRescan (process : Process) : Process :=
  { process with waiting := [], downloading := ∅, downloadingIndex := fun _ => none, ready := ∅, processing := ∅ }

/-- From the first block that is replaced on, a set in the order of its blocks. -/
def replacedFrom (target : Position) (blocks : Finset Position) : Finset Position :=
  ((ordered blocks).dropWhile fun block => !isReplacedBy block target).toFinset

def doReorg (parent : SubchainData) (target : Position) (process : Process) : Process :=
  if parent.needReorg then
    { process with
      waiting := process.waiting.filter fun block => !isReplacedBy block target
      ready := process.ready \ replacedFrom target process.ready
      processing := process.processing \ replacedFrom target process.processing
      downloading := process.downloading \ replacedFrom target process.downloading
      downloadingIndex := fun hash =>
        if hash ∈ (replacedFrom target process.downloading).image Position.hash then none else process.downloadingIndex hash }
  else process

end Process

/-! ## Rescan -/

structure Rescan where
  lastScanned : Option Position := none
  filterTip : Position := {}
  highestDirty : Position := {}
  dirty : Finset Position := ∅
  deriving DecidableEq

namespace Rescan

def current (rescan : Rescan) : Position := rescan.lastScanned.getD nullPosition

def caughtUp (rescan : Rescan) : Bool := rescan.current = rescan.filterTip

def doStartup (saved tip : Position) : Rescan where
  lastScanned := some (if isReplacedBy saved tip then tip else saved)
  filterTip := tip

def before (oracle : Database Work) (position : Position) : Position :=
  getPosition oracle (max (position.height - 1) 0)

/-- The last block said to be clean that is below all blocks known to be dirty. -/
def highestClean (rescan : Rescan) (clean : Finset Position) : Option Position :=
  match lowest rescan.dirty with
  | none => highest clean
  | some lowestDirty => highest (clean.filter (· < lowestDirty))

def adjustLastScanned (parent : SubchainData) (highestClean : Option Position) (rescan : Rescan) : Rescan :=
  if parent.scanDirty then rescan
  else { rescan with lastScanned := highestClean.orElse fun _ => rescan.lastScanned }

def enableRescan (dirty : List Position) (parent : SubchainData) : SubchainData :=
  { parent with scanDirty := parent.scanDirty || dirty ≠ [] }

/-- Rescan goes back to before the lowest dirty block when it has got there already. -/
def followDirty (oracle : Database Work) (rescan : Rescan) : Rescan :=
  match lowest rescan.dirty, highest rescan.dirty with
  | some lowestDirty, some highestDirty =>
    { rescan with
      lastScanned := if isReplacedBy rescan.current (before oracle lowestDirty) then some (before oracle lowestDirty)
        else rescan.lastScanned
      highestDirty := max rescan.highestDirty highestDirty }
  | _, _ => rescan

def processDirty (oracle : Database Work) (dirty : List Position) (rescan : Rescan) : Rescan :=
  followDirty oracle { rescan with dirty := rescan.dirty ∪ dirty.toFinset }

def processClean (processed : List Position) (rescan : Rescan) : Rescan :=
  { rescan with dirty := rescan.dirty \ processed.toFinset }

/-- The clean positions are read off before the dirty blocks of the report are taken in. -/
def doProcessUpdate (oracle : Database Work) (statuses : List ScanStatus) (parent : SubchainData) (rescan : Rescan) : Rescan :=
  let clean := ((cleanOf statuses).map (·.position)).toFinset
  ((rescan.adjustLastScanned parent (rescan.highestClean clean)).processDirty oracle (dirtyOf statuses)).processClean
    (processedOf statuses)

/-- A tip that names a reorg counts as stale when the frame after the tip's own is missing, or
when its number is older. A frame that is no number aborts. -/
def acceptsTip (job : Job) (message : Message) : Option Bool :=
  match job.lastReorg with
  | none => some true
  | some last =>
    if message.payload.length ≤ 5 then some false
    else (message.payload[5]?.bind Frame.asSequence).map fun incoming => !(incoming < last)

def isFinished (position target : Position) : Bool :=
  if position.height < target.height then true
  else if target.height < position.height then false
  else position.hash = target.hash

def prune (target : Position) (rescan : Rescan) : Rescan :=
  { rescan with dirty := ((ordered rescan.dirty).dropWhile fun position => isFinished position target).toFinset }

def rescanFinished (rescan : Rescan) : Bool :=
  match rescan.lastScanned with
  | none => true
  | some lastScanned =>
    if rescan.caughtUp then true
    else if rescan.dirty.Nonempty then false
    else finishRescan < lastScanned.height - rescan.highestDirty.height

def stop (rescan : Rescan) : Int :=
  match lowest rescan.dirty with
  | none => maxHeight
  | some lowestDirty => max 0 (lowestDirty.height - 1)

/-- The jobs after Rescan has worked, and what it has sent. -/
structure Worked where
  parent : SubchainData
  rescan : Rescan
  toScan : List Message := []
  toProcess : List Message := []
  toProgress : List Message := []

/-- However the work ends, the position that Rescan has reached goes to Progress. -/
def report (job : Job) (worked : Worked) : Worked :=
  { worked with toProgress := worked.rescan.lastScanned.toList.map fun position => .update job.lastReorg [⟨.rescanClean, position⟩] }

def advance (highestClean : Option Position) (rescan : Rescan) : Rescan :=
  match highestClean with
  | none => rescan
  | some position => { rescan with lastScanned := some position }.prune position

def rescanBlocks (oracle : Database Work) (batch : Batch) (job : Job) (parent : SubchainData) (rescan : Rescan) : Worked :=
  let found := Scanning.scan oracle batch rescan.filterTip rescan.stop rescan.current
  let advanced := rescan.advance found.highestClean
  if advanced.lastScanned = none then
    { parent := (triggerRescan parent).1, rescan := advanced, toScan := (triggerRescan parent).2 }
  else
    { parent := parent
      rescan := { advanced with dirty := advanced.dirty ∪ found.dirty.toFinset }
      toProcess := if found.dirty = [] then [] else [.reprocess job.lastReorg (found.dirty.map (⟨.dirty, ·⟩))] }

/-- A rescan without a position to go on from is a reason for a full rescan. -/
def finish (parent : SubchainData) (rescan : Rescan) : Worked :=
  match rescan.lastScanned with
  | none => { parent := { (triggerRescan parent).1 with scanDirty := false }, rescan := rescan, toScan := (triggerRescan parent).2 }
  | some _ => { parent := { parent with scanDirty := false }, rescan := rescan }

def work (oracle : Database Work) (batch : Batch) (job : Job) (parent : SubchainData) (rescan : Rescan) : Worked :=
  report job
    (if !parent.scanDirty then { parent := parent, rescan := rescan }
    else if rescan.rescanFinished then rescan.finish parent
    else if rescan.stop ≤ rescan.current.height then { parent := parent, rescan := rescan }
    else rescanBlocks oracle batch job parent rescan)

def processDoRescan (rescan : Rescan) : Rescan :=
  { rescan with lastScanned := none, highestDirty := nullPosition, dirty := ∅ }

def doReorg (parent : SubchainData) (position : Position) (rescan : Rescan) : Rescan :=
  if parent.needReorg then
    { rescan with
      lastScanned := rescan.lastScanned.map (reorgTarget position)
      filterTip := if isReplacedBy rescan.filterTip position then position else rescan.filterTip
      dirty := rescan.dirty.filter (· ≤ position) }
  else rescan

end Rescan

/-! ## Progress -/

namespace Progress

/-- The last of the positions reported, with those of a later kind of report after the others. -/
def bestOf (statuses : List ScanStatus) : Option Position :=
  (highest (((cleanOf statuses).map fun status => toLex (status.state.rank, status.position)).toFinset)).map
    fun status => (ofLex status).2

/-- The position that an update makes Progress save. Without a position, or with a dirty block, it
aborts, and a position that is saved already is not saved again. -/
def saves (statuses : List ScanStatus) (parent : SubchainData) : Option (Option Position) :=
  if dirtyOf statuses ≠ [] then none
  else (bestOf statuses).map fun best => if parent.progressPosition = some best then none else some best

def save (position : Option Position) (parent : SubchainData) : SubchainData :=
  match position with
  | none => parent
  | some best => { parent with saved := best, progressPosition := some best }

def processDoRescan (parent : SubchainData) : SubchainData :=
  { parent with saved := nullPosition, progressPosition := none, rescanPending := false }

def doReorg (position : Position) (parent : SubchainData) : SubchainData :=
  if parent.needReorg then { parent with progressPosition := parent.progressPosition.map (reorgTarget position) } else parent

end Progress

end Opentxs.Subchain.Stages
