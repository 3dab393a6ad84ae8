import Opentxs.Library.Machine
import Opentxs.Subchain.Stages

/-! The jobs of a subchain with the messages between them. Each channel keeps its order, and
any job can go on at any time. -/

namespace Opentxs.Subchain.Pipeline
open Library HeaderOracle BlockHeader
open HeaderOracle.Storage (Database)
open Wallet.Types Messages Positions Scanning Stages
open Bitcoin.BitcoinScript (FilterType)

variable {Work : Type}

/-- A message on its way, with the reorg that the job it comes from had acknowledged when it was
written. No job reads that. -/
structure Envelope where
  message : Message
  sent : Option StateSequence
  deriving DecidableEq, Repr

def wrap (job : Job) (messages : List Message) : List Envelope := messages.map (⟨·, job.lastReorg⟩)

inductive Channel
  | toScan
  | scanToProcess
  | rescanToProcess
  | processToProcess
  | processToIndex
  | indexToRescan
  | rescanToProgress
  deriving DecidableEq, Repr

def Channel.receiver : Channel → JobType
  | toScan => .scan
  | scanToProcess => .process
  | rescanToProcess => .process
  | processToProcess => .process
  | processToIndex => .index
  | indexToRescan => .rescan
  | rescanToProgress => .progress

/-- What the master of the reorgs tells a job. -/
inductive Control
  | prepareReorg (id : StateSequence)
  | finishReorg
  deriving DecidableEq, Repr

structure System where
  defaultType : FilterType
  parent : SubchainData
  job : JobType → Job
  scan : Scan
  process : Process
  rescan : Rescan
  channel : Channel → List Envelope
  deferred : JobType → List Envelope := fun _ => []
  preparing : Bool := false
  control : JobType → List Control := fun _ => []

/-- What a job does with a message before it looks at what the message says. -/
inductive Reception
  | handled
  | ignored
  | deferred
  deriving DecidableEq, Repr

def receive (defaultType : FilterType) (job : Job) (message : Message) : Reception :=
  match job.state, message with
  | .reorg, .filter .. => .ignored
  | .reorg, .update .. => .ignored
  | .reorg, _ => .deferred
  | .normal, .update .. => if job.expects message then .handled else .ignored
  | .normal, .filter type .. => if type = defaultType then .handled else .ignored
  | .normal, _ => .handled

/-! ## Reorgs -/

/-- The matches of the blocks that are taken out of the best chain are rolled back one by one. The
position saved goes back to before the block that is taken for the oldest of them, which is
the tip. -/
def reorgTo (oracle : Database Work) (startReorg : Position → Bool) (reorg : List Position) (parent : SubchainData) :
    SubchainData × Bool :=
  match reorg with
  | [] => (parent, true)
  | oldest :: _ =>
    let lastGoodHeight := oldest.height - 1
    if parent.saved.height < lastGoodHeight then (parent, true)
    else
      let target := if lastGoodHeight < parent.saved.height then lastGoodHeight else max (lastGoodHeight - 1) 0
      ({ parent with saved := getPosition oracle target }, reorg.all startReorg)

/-- Whether there is anything to do is read off from the position saved in the database. -/
def doReorg (oracle : Database Work) (startReorg : Position → Bool) (parent : SubchainData) : Option SubchainData :=
  (calculateReorg oracle parent.saved).bind fun reorg =>
    if reorg = [] then some { parent with needReorg := false }
    else
      let reorged := reorgTo oracle startReorg reorg { parent with needReorg := true }
      if reorged.2 then some reorged.1 else none

/-! ## Messages -/

namespace System

variable (system : System)

def send (channel : Channel) (envelopes : List Envelope) : System :=
  { system with channel := fun other => if other = channel then system.channel other ++ envelopes else system.channel other }

/-- The job writes messages of its own. -/
def write (type : JobType) (channel : Channel) (messages : List Message) : System :=
  system.send channel (wrap (system.job type) messages)

def handleScan (envelope : Envelope) : Option System :=
  match envelope.message with
  | .doRescan => some ({ system with scan := system.scan.processDoRescan }.send .scanToProcess [envelope])
  | _ => none

def handleProcess (envelope : Envelope) : Option System :=
  match envelope.message with
  | .filter .. => some (system.send .processToIndex [envelope])
  | .update _ statuses =>
    some ({ system with process := system.process.doProcessUpdate statuses }.send .processToIndex [envelope])
  | .reprocess _ statuses => some { system with process := system.process.processReprocess statuses }
  | .process position => some { system with process := system.process.processProcess position }
  | .doRescan => some ({ system with process := system.process.processDoRescan }.send .processToIndex [envelope])

def handleIndex (envelope : Envelope) : Option System :=
  match envelope.message with
  | .reprocess .. | .process .. => none
  | _ => some (system.send .indexToRescan [envelope])

/-- A clean report goes on to Progress unless a rescan is going on. -/
def forwarded (envelope : Envelope) (statuses : List ScanStatus) : List Envelope :=
  if (Rescan.enableRescan (dirtyOf statuses) system.parent).scanDirty ∨ cleanOf statuses = [] then [] else [envelope]

def handleRescan (oracle : Database Work) (envelope : Envelope) : Option System :=
  match envelope.message with
  | .filter _ tip _ => (Rescan.acceptsTip (system.job .rescan) envelope.message).map fun accepted =>
      if accepted then { system with rescan := { system.rescan with filterTip := tip } } else system
  | .update _ statuses =>
    some ({ system with
      parent := Rescan.enableRescan (dirtyOf statuses) system.parent
      rescan := system.rescan.doProcessUpdate oracle statuses system.parent }.send .rescanToProgress
        (system.forwarded envelope statuses))
  | .doRescan => some ({ system with rescan := system.rescan.processDoRescan }.send .rescanToProgress [envelope])
  | _ => none

def handleProgress (envelope : Envelope) : Option System :=
  match envelope.message with
  | .update _ statuses => (Progress.saves statuses system.parent).map fun position =>
      { system with parent := Progress.save position system.parent }
  | .doRescan => some { system with parent := Progress.processDoRescan system.parent }
  | _ => none

def handle (oracle : Database Work) : JobType → Envelope → Option System
  | .scan => system.handleScan
  | .process => system.handleProcess
  | .index => system.handleIndex
  | .rescan => system.handleRescan oracle
  | .progress => system.handleProgress

/-- A message is given to its job, thrown away or kept for later. -/
def dispatch (oracle : Database Work) (type : JobType) (envelope : Envelope) : Option System :=
  match receive system.defaultType (system.job type) envelope.message with
  | .handled => system.handle oracle type envelope
  | .ignored => some system
  | .deferred => some { system with
      deferred := fun other => if other = type then system.deferred other ++ [envelope] else system.deferred other }

/-- The oldest message of a channel leaves it. -/
def take (channel : Channel) : Option (Envelope × System) :=
  match system.channel channel with
  | [] => none
  | envelope :: rest =>
    some (envelope, { system with channel := fun other => if other = channel then rest else system.channel other })

def takeDeferred (type : JobType) : Option (Envelope × System) :=
  match system.deferred type with
  | [] => none
  | envelope :: rest =>
    some (envelope, { system with deferred := fun other => if other = type then rest else system.deferred other })

/-! ## What the jobs do by themselves -/

/-- The filter oracle has a new tip. -/
def newTip (type : FilterType) (tip : Position) : System :=
  match receive system.defaultType (system.job .scan) (.filter type tip []) with
  | .handled =>
    let told := system.scan.processFilter (system.job .scan) type tip
    { system with scan := told.1 }.write .scan .scanToProcess told.2
  | _ => system

def scanWork (oracle : Database Work) (batch : Batch) : System :=
  let worked := system.scan.work oracle batch (system.job .scan) system.parent
  { system with scan := worked.1 }.write .scan .scanToProcess worked.2

def processWork (late allowed : Bool) : System :=
  let flushed := system.process.flushed late system.parent
  { system with
    parent := { system.parent with cache := system.parent.cache \ flushed }
    process := system.process.queueDownloads.queueProcess allowed }.write .process .processToIndex
      (Process.flushReport (system.job .process) flushed)

def finishBlock (position : Position) : System :=
  { system with
    parent := { system.parent with cache := insert position system.parent.cache }
    process := system.process.finishBlock position }.write .process .processToProcess [.process position]

def rescanWork (oracle : Database Work) (batch : Batch) : System :=
  let worked := system.rescan.work oracle batch (system.job .rescan) system.parent
  (({ system with parent := worked.parent, rescan := worked.rescan }.write .rescan .toScan worked.toScan).write .rescan
    .rescanToProcess worked.toProcess).write .rescan .rescanToProgress worked.toProgress

/-! ## The master of the reorgs -/

def setJob (type : JobType) (job : Job) : System :=
  { system with job := fun other => if other = type then job else system.job other }

def isNormal (type : JobType) : Bool := (system.job type).state = .normal

def jobTypes : List JobType := [.progress, .rescan, .index, .process, .scan]

def acknowledged : Bool := jobTypes.all fun type => !system.isNormal type && (system.control type).isEmpty

def prepareReorg (id : StateSequence) : System :=
  { system with preparing := true, control := fun type => system.control type ++ [.prepareReorg id] }

def finishReorg : System :=
  { system with preparing := false, control := fun type => system.control type ++ [.finishReorg] }

/-- The subchain first, and then all its jobs. -/
def performReorg (oracle : Database Work) (ancestor : Position) (startReorg : Position → Bool) : Option System :=
  (doReorg oracle startReorg system.parent).map fun parent =>
    { system with
      parent := Progress.doReorg ancestor parent
      rescan := system.rescan.doReorg parent ancestor
      process := system.process.doReorg parent ancestor
      scan := system.scan.doReorg parent ancestor }

/-- A reorg is prepared and finished by turns. -/
def handleControl (type : JobType) : Option System :=
  match system.control type with
  | [] => none
  | control :: rest =>
    let taken := { system with control := fun other => if other = type then rest else system.control other }
    match control, (system.job type).state with
    | .prepareReorg id, .normal => ((system.job type).transitionStateReorg id).map (taken.setJob type)
    | .finishReorg, .reorg => some (taken.setJob type (system.job type).transitionStateNormal)
    | _, _ => none

end System

/-! ## Runs -/

/-- The subchain after its start, with the position saved in the database and the filter tips
that Rescan and Scan have found. -/
def start (defaultType : FilterType) (downloadLimit : Nat) (saved rescanTip scanTip : Position) : System where
  defaultType := defaultType
  parent := { saved := saved }
  job := fun _ => {}
  scan := Scan.doStartup saved scanTip
  process := { downloadLimit := downloadLimit }
  rescan := Rescan.doStartup saved rescanTip
  channel
    | .scanToProcess => [⟨(Scan.doStartup saved scanTip).startupReport, none⟩]
    | _ => []

/-- What can happen. A job may do its own work whenever it is not held up by a reorg. -/
inductive Event (Work : Type)
  | newTip (type : FilterType) (tip : Position)
  | startScan
  | scanWork (oracle : Database Work) (batch : Batch)
  | processWork (late allowed : Bool)
  | blocks (hashes : List Hash)
  | finishBlock (position : Position)
  | rescanWork (oracle : Database Work) (batch : Batch)
  | rescan
  | deliver (channel : Channel) (oracle : Database Work)
  | resume (type : JobType) (oracle : Database Work)
  | prepareReorg (id : StateSequence)
  | control (type : JobType)
  | reorg (oracle : Database Work) (ancestor : Position) (startReorg : Position → Bool)

def step : Event Work → System → Option System
  | .newTip type tip, system => some (system.newTip type tip)
  | .startScan, system => if system.isNormal .scan then some { system with scan := { system.scan with indexReady := true } } else none
  | .scanWork oracle batch, system => if system.isNormal .scan then some (system.scanWork oracle batch) else none
  | .processWork late allowed, system => if system.isNormal .process then some (system.processWork late allowed) else none
  | .blocks hashes, system =>
    if system.isNormal .process then some { system with process := system.process.processBlocks hashes } else none
  | .finishBlock position, system =>
    if position ∈ system.process.running then some (system.finishBlock position) else none
  | .rescanWork oracle batch, system => if system.isNormal .rescan then some (system.rescanWork oracle batch) else none
  | .rescan, system => some (system.send .toScan [⟨.doRescan, none⟩])
  | .deliver channel oracle, system => do
    let (envelope, taken) ← system.take channel
    taken.dispatch oracle channel.receiver envelope
  | .resume type oracle, system => do
    let (envelope, taken) ← system.takeDeferred type
    taken.dispatch oracle type envelope
  | .prepareReorg id, system => if system.preparing then none else some (system.prepareReorg id)
  | .control type, system => system.handleControl type
  | .reorg oracle ancestor startReorg, system =>
    if system.preparing ∧ system.acknowledged then (system.performReorg oracle ancestor startReorg).map System.finishReorg
    else none

def machine (Work : Type) : Machine System (Event Work) := ⟨step⟩

end Opentxs.Subchain.Pipeline
