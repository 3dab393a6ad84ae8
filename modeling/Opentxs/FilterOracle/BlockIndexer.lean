import Opentxs.FilterOracle.Downloader
import Opentxs.Library.Machine

/-! The block indexer: every block above the tip is a job, which waits, is downloaded, gets its
filter, and is finished when the filter headers below it are known. -/

namespace Opentxs.FilterOracle
open Library Library.Ordered HeaderOracle BlockHeader
open HeaderOracle.Storage (Database)
open Ancestors

inductive Stage
  | queued
  | downloading
  | processing
  | finished
  deriving DecidableEq, Repr

inductive JobState
  | waiting
  | downloaded
  | running
  | finished
  | redownload
  deriving DecidableEq, Repr

/-- A filter header that will be known later, as the number of its promise. -/
abbrev Future := Nat

/-- What is fixed when a job is made. -/
structure Link where
  position : Position
  previousCfheader : Future
  future : Future
  deriving DecidableEq, Repr

structure Job (Location Filter : Type) extends Link where
  state : JobState := .waiting
  block : Option Location := none
  cfilter : Option Filter := none

/-- How blocks are read and filters made of them, and the known filter headers of the chain. A
block that cannot be read, a filter that is not valid and a header that is null are `none`. -/
structure Chain (Location Block Filter Cfheader : Type) where
  genesis : Hash
  maxJobs : Nat
  construct : Hash → Location → Option Block
  processBlock : Block → Option Filter
  header : Filter → Cfheader → Option Cfheader
  size : Filter → Nat
  cfheaderAfter : Int → Option Int
  cfheaderAt : Int → Option Cfheader

def calculationBatch : Nat := 1000

def maxBlocks : Nat := 1000

def maxCachedCfilters : Nat := 256 * 1024 ^ 2

abbrev WorkMap (Location Filter : Type) := OrderedMap Int (Job Location Filter)

structure BlockIndexer (Location Filter Cfheader : Type) where
  tip : Position := {}
  cfheader : Future := 0
  downloader : Downloader Location
  index : OrderedMap Hash Int := .empty
  work : Stage → WorkMap Location Filter := fun _ => .empty
  cachedCfilterBytes : UInt64 := 0
  nextCheckpoint : Option Int
  /-- The promises that are kept, and the number of the next one. -/
  values : Future → Option Cfheader := fun _ => none
  nextFuture : Future := 1
  /-- The filter headers in the database. -/
  cfheaders : Hash → Option Cfheader
  /-- All blocks that the block oracle was asked for. -/
  requested : List Hash := []

namespace BlockIndexer

variable {Location Block Filter Cfheader Work : Type} [DecidableEq Cfheader]
variable (chain : Chain Location Block Filter Cfheader) (indexer : BlockIndexer Location Filter Cfheader)

/-! ## The tip -/

def loadTip (value : Position) : Option (BlockIndexer Location Filter Cfheader) :=
  match indexer.cfheaders value.hash with
  | none => none
  | some header => some { indexer with
      tip := value
      cfheader := indexer.nextFuture
      values := Function.update indexer.values indexer.nextFuture (some header)
      nextFuture := indexer.nextFuture + 1 }

def cfilterBytes (job : Job Location Filter) : UInt64 := UInt64.ofNat ((job.cfilter.map chain.size).getD 0)

def adjustTip (ancestor : Position) (indexer : BlockIndexer Location Filter Cfheader) :
    Option (BlockIndexer Location Filter Cfheader) :=
  if isReset ancestor indexer.tip then
    (indexer.loadTip ancestor).map fun loaded => { loaded with
      work := fun _ => .empty
      cachedCfilterBytes := 0
      nextCheckpoint := chain.cfheaderAfter ancestor.height }
  else
    let stale := (indexer.work .finished).stale ancestor.height fun job => job.position = ancestor
    some { indexer with
      work := fun stage => (indexer.work stage).clean ancestor.height fun job => job.position = ancestor
      cachedCfilterBytes := stale.foldl (fun bytes entry => bytes - cfilterBytes chain entry.2) indexer.cachedCfilterBytes }

/-! ## Queueing -/

def stages : List Stage := [.queued, .downloading, .processing, .finished]

/-- The last job of each map. The same block must never appear in several of them. -/
def lastJobs : Option (WorkMap Location Filter) :=
  stages.foldlM (fun cache stage =>
    match (indexer.work stage).last? with
    | none => some cache
    | some (height, job) => if cache.find? height = none then some (cache.emplace height job) else none) .empty

def previousCfheader : Option (Int × Future) :=
  indexer.lastJobs.map fun cache =>
    match cache.last? with
    | none => (indexer.tip.height, indexer.cfheader)
    | some (height, job) => (height, job.future)

def queueJob (hash : Hash) (height : Int) (cfheader : Future) : BlockIndexer Location Filter Cfheader :=
  { indexer with
    index := indexer.index.assign hash height
    work := Function.update indexer.work .queued
      ((indexer.work .queued).emplace height { position := ⟨height, hash⟩, previousCfheader := cfheader, future := indexer.nextFuture })
    nextFuture := indexer.nextFuture + 1 }

/-- Every job gets the future of the one before it. -/
def queueEach : List Hash → (height prior : Int) → (cfheader : Future) → BlockIndexer Location Filter Cfheader →
    Option (BlockIndexer Location Filter Cfheader)
  | [], _, _, _, indexer => some indexer
  | hash :: hashes, height, prior, cfheader, indexer =>
    if prior + 1 = height ∧ (indexer.work .queued).find? height = none then
      queueEach hashes (height + 1) height indexer.nextFuture (indexer.queueJob hash height cfheader)
    else none

def queueHashes (added : Added) : Option (BlockIndexer Location Filter Cfheader) :=
  if added.hashes = [] then some indexer
  else indexer.previousCfheader.bind fun previous => queueEach added.hashes added.height previous.1 previous.2 indexer

def queueBlocks (oracle : Database Work) : Option (BlockIndexer Location Filter Cfheader) := do
  let (added, downloader, indexer) ←
    indexer.downloader.addBlocks chain.genesis (addLimit chain.maxJobs) (adjustTip chain) oracle indexer
  queueHashes { indexer with downloader } added

/-! ## Moving the jobs along -/

/-- A job goes from one map to another, or is changed where it is. -/
def move (start finish : Stage) (height : Int) (job : Job Location Filter) (work : Stage → WorkMap Location Filter) :
    Stage → WorkMap Location Filter :=
  let taken := Function.update work start ((work start).erase height)
  Function.update taken finish ((taken finish).emplace height job)

def moveJob (start finish : Stage) (height : Int) (job : Job Location Filter) : BlockIndexer Location Filter Cfheader :=
  { indexer with work := move start finish height job indexer.work }

def openBlocks : Nat :=
  (indexer.work .downloading).entries.length + (indexer.work .processing).entries.length + (indexer.work .finished).entries.length

/-- Each round takes one job out of the queue. -/
def fetchEach : (rounds : Nat) → BlockIndexer Location Filter Cfheader → BlockIndexer Location Filter Cfheader
  | 0, indexer => indexer
  | rounds + 1, indexer =>
    match (indexer.work .queued).first? with
    | none => indexer
    | some (height, job) =>
      if indexer.openBlocks < maxBlocks then
        fetchEach rounds { indexer.moveJob .queued .downloading height job with requested := indexer.requested ++ [job.position.hash] }
      else indexer

def fetchBlocks : BlockIndexer Location Filter Cfheader := fetchEach (indexer.work .queued).entries.length indexer

def keys (stage : Stage) : List Int := (indexer.work stage).entries.map Prod.fst

def startEach : List Int → (slots : Nat) → BlockIndexer Location Filter Cfheader → BlockIndexer Location Filter Cfheader
  | [], _, indexer => indexer
  | _ :: _, 0, indexer => indexer
  | height :: heights, slots + 1, indexer =>
    match (indexer.work .processing).find? height with
    | none => startEach heights (slots + 1) indexer
    | some job =>
      if job.state = .downloaded then
        startEach heights slots (indexer.moveJob .processing .processing height { job with state := .running })
      else startEach heights (slots + 1) indexer

/-- Jobs are started until the number that may run at once is reached. -/
def calculateCfilters (slots : Nat) : BlockIndexer Location Filter Cfheader := startEach (indexer.keys .processing) slots indexer

/-- What a running job makes of its block. -/
def background (job : Job Location Filter) : Option (Job Location Filter) :=
  match job.block.bind (chain.construct job.position.hash) with
  | none => some { job with state := .redownload }
  | some block => (chain.processBlock block).map fun cfilter => { job with state := .finished, cfilter := some cfilter }

/-- The result of a job that is in no map any more goes nowhere. -/
def jobEnds (height : Int) : Option (BlockIndexer Location Filter Cfheader) :=
  match (indexer.work .processing).find? height with
  | none => some indexer
  | some job =>
    if job.state = .running then (background chain job).map (indexer.moveJob .processing .processing height)
    else some indexer

/-- A block that was not valid is asked for again. -/
def settle (height : Int) (job : Job Location Filter) : Option (BlockIndexer Location Filter Cfheader) :=
  match job.state with
  | .waiting => none
  | .downloaded => some indexer
  | .running => some indexer
  | .finished => some { indexer.moveJob .processing .finished height job with
      cachedCfilterBytes := indexer.cachedCfilterBytes + cfilterBytes chain job }
  | .redownload => some { indexer.moveJob .processing .downloading height { job with state := .waiting } with
      index := indexer.index.assign job.position.hash job.position.height
      requested := indexer.requested ++ [job.position.hash] }

def settleEach : List Int → BlockIndexer Location Filter Cfheader → Option (BlockIndexer Location Filter Cfheader)
  | [], indexer => some indexer
  | height :: heights, indexer =>
    match (indexer.work .processing).find? height with
    | none => settleEach heights indexer
    | some job => (indexer.settle chain height job).bind (settleEach heights)

def findFinished : Option (BlockIndexer Location Filter Cfheader) := settleEach chain (indexer.keys .processing) indexer

/-! ## Blocks that come -/

/-- The job at the height under which the block is listed gets it. With the result goes the block
that this job is for. -/
def giveBlock (hash : Hash) (block : Location) : Option (Hash × BlockIndexer Location Filter Cfheader) :=
  match indexer.index.find? hash with
  | none => none
  | some height =>
    match (indexer.work .downloading).find? height with
    | none => none
    | some job => some (job.position.hash,
        { indexer.moveJob .downloading .processing height { job with block := some block, state := .downloaded } with
          index := indexer.index.erase hash })

def giveEach : List (Hash × Location) → BlockIndexer Location Filter Cfheader →
    Option (List (Hash × Hash) × BlockIndexer Location Filter Cfheader)
  | [], indexer => some ([], indexer)
  | (hash, block) :: blocks, indexer => do
    let (asked, indexer) ← indexer.giveBlock hash block
    let (_, downloader) ← indexer.downloader.receiveBlock hash block
    let (given, indexer) ← giveEach blocks { indexer with downloader }
    some ((asked, hash) :: given, indexer)

/-- The result names for each block the one that its job is for. -/
def processBlockReady (blocks : List (Hash × Location)) : Option (List (Hash × Hash) × BlockIndexer Location Filter Cfheader) :=
  if blocks = [] then none else giveEach blocks indexer

/-! ## Filter headers -/

def ready : Bool :=
  if (indexer.work .finished).isEmpty then false
  else if UInt64.ofNat maxCachedCfilters ≤ indexer.cachedCfilterBytes then true
  else if (indexer.work .downloading).isEmpty && (indexer.work .processing).isEmpty then true
  else calculationBatch ≤ (indexer.work .finished).entries.length

structure Row (Filter Cfheader : Type) where
  hash : Hash
  cfheader : Cfheader
  cfilter : Filter

/-- What one call stores, and the tip and its filter header afterwards. -/
structure Batch (Filter Cfheader : Type) where
  tip : Position
  next : Future
  rows : List (Row Filter Cfheader) := []

/-- A header at a checkpoint has to be the known one. -/
def compareToCheckpoint (height : Int) (cfheader : Cfheader) (next : Option Int) : Option (Option Int) :=
  if next = some height then
    match chain.cfheaderAt height with
    | none => none
    | some required => if required = cfheader then some (chain.cfheaderAfter height) else none
  else some next

def finishJob (height : Int) (job : Job Location Filter) (batch : Batch Filter Cfheader) :
    Option (Batch Filter Cfheader × BlockIndexer Location Filter Cfheader) := do
  if job.state ≠ .finished ∨ indexer.values job.future ≠ none then none
  else
    let previous ← indexer.values job.previousCfheader
    let cfilter ← job.cfilter
    let cfheader ← chain.header cfilter previous
    let nextCheckpoint ← compareToCheckpoint chain height cfheader indexer.nextCheckpoint
    some (⟨job.position, job.future, batch.rows ++ [⟨job.position.hash, cfheader, cfilter⟩]⟩, { indexer with
      values := Function.update indexer.values job.future (some cfheader)
      cachedCfilterBytes := indexer.cachedCfilterBytes - cfilterBytes chain job
      nextCheckpoint
      work := Function.update indexer.work .finished ((indexer.work .finished).erase height) })

/-- The next block is still on its way. -/
def isOnItsWay (target : Int) : Bool :=
  ((indexer.work .queued).find? target).isSome || ((indexer.work .downloading).find? target).isSome ||
    ((indexer.work .processing).find? target).isSome

def finishEach : List (Int × Job Location Filter) → Batch Filter Cfheader → BlockIndexer Location Filter Cfheader →
    Option (Batch Filter Cfheader × BlockIndexer Location Filter Cfheader)
  | [], batch, indexer => some (batch, indexer)
  | (height, job) :: jobs, batch, indexer =>
    if height < batch.tip.height + 1 then none
    else if batch.tip.height + 1 < height then if indexer.isOnItsWay (batch.tip.height + 1) then some (batch, indexer) else none
    else (indexer.finishJob chain height job batch).bind fun (batch, indexer) =>
      if calculationBatch ≤ batch.rows.length then some (batch, indexer) else finishEach jobs batch indexer

/-- What the call to the database passes. -/
def storeCfilters : Option (Batch Filter Cfheader × BlockIndexer Location Filter Cfheader) :=
  finishEach chain (indexer.work .finished).entries ⟨indexer.tip, indexer.cfheader, []⟩ indexer

def storeRows (rows : List (Row Filter Cfheader)) (cfheaders : Hash → Option Cfheader) : Hash → Option Cfheader :=
  rows.foldl (fun stored row => Function.update stored row.hash (some row.cfheader)) cfheaders

def setTips (batch : Batch Filter Cfheader) : BlockIndexer Location Filter Cfheader :=
  { indexer with
    cfheaders := storeRows batch.rows indexer.cfheaders
    tip := batch.tip
    cfheader := batch.next }

def calculateCfheaders (saved : Bool) : Option (BlockIndexer Location Filter Cfheader) :=
  (indexer.storeCfilters chain).bind fun (batch, indexer) => if saved then some (indexer.setTips batch) else none

/-! ## Runs -/

/-- The tips of the database are where a run begins. -/
def startup (cfheaders : Hash → Option Cfheader) (cfheaderTip cfilterTip : Position) : Option (BlockIndexer Location Filter Cfheader) :=
  loadTip {
    downloader := { tip := cfilterTip }
    nextCheckpoint := chain.cfheaderAfter (if cfilterTip.height < cfheaderTip.height then cfilterTip.height else cfheaderTip.height)
    cfheaders } cfilterTip

/-- One call of the state machine queues, fetches, starts, settles, stores and updates in this
order. Jobs end and blocks come at any time in between. -/
inductive Event (Work Location : Type)
  | queueBlocks (oracle : Database Work)
  | fetchBlocks
  | calculateCfilters (slots : Nat)
  | jobEnds (height : Int)
  | findFinished
  | calculateCfheaders (saved : Bool)
  | update
  | blockReady (blocks : List (Hash × Location))

def step : Event Work Location → BlockIndexer Location Filter Cfheader → Option (BlockIndexer Location Filter Cfheader)
  | .queueBlocks oracle, indexer => indexer.queueBlocks chain oracle
  | .fetchBlocks, indexer => some indexer.fetchBlocks
  | .calculateCfilters slots, indexer => some (indexer.calculateCfilters slots)
  | .jobEnds height, indexer => indexer.jobEnds chain height
  | .findFinished, indexer => indexer.findFinished chain
  | .calculateCfheaders saved, indexer => if indexer.ready then indexer.calculateCfheaders chain saved else some indexer
  | .update, indexer => indexer.downloader.update.map fun downloader => { indexer with downloader }
  | .blockReady blocks, indexer => (indexer.processBlockReady blocks).map Prod.snd

/-- Without a next state the process aborts. -/
def machine : Machine (BlockIndexer Location Filter Cfheader) (Event Work Location) where
  step := step chain

end BlockIndexer

end Opentxs.FilterOracle
