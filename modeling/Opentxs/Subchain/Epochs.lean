import Opentxs.Subchain.Pipeline

/-! Which updates and filter tips a job takes. An update names the reorg of the job that wrote
it in a frame of its own, and is taken by a job that has acknowledged the same one last.
Rescan looks for the number of a filter tip one frame too far. -/

namespace Opentxs.Subchain.Epochs
open Library HeaderOracle BlockHeader
open HeaderOracle.Storage (Database)
open Wallet.Types Messages Positions Scanning Stages Pipeline
open Bitcoin.BitcoinScript (FilterType)

variable {Work : Type} {system after : System} {envelope : Envelope} {type : JobType} {channel : Channel}

/-! ## What the messages say about their origin -/

/-- The frames of a message tell the reorg that its writer had acknowledged. -/
def Faithful (defaultType : FilterType) (envelope : Envelope) : Prop :=
  match envelope.message with
  | .filter type _ extra => type = defaultType ∧ extra = envelope.sent.toList
  | .update epoch _ => epoch = envelope.sent
  | _ => True

structure Told (system : System) : Prop where
  channels : ∀ channel, ∀ envelope ∈ system.channel channel, Faithful system.defaultType envelope
  deferred : ∀ type, ∀ envelope ∈ system.deferred type, Faithful system.defaultType envelope

theorem Told.send {envelopes : List Envelope} (told : Told system)
    (news : ∀ envelope ∈ envelopes, Faithful system.defaultType envelope) : Told (system.send channel envelopes) := by
  refine ⟨fun other envelope member => ?_, told.deferred⟩
  change envelope ∈ (if other = channel then system.channel other ++ envelopes else system.channel other) at member
  split at member
  · exact (List.mem_append.mp member).elim (told.channels other envelope) (news envelope)
  · exact told.channels other envelope member

theorem Told.write {messages : List Message} (told : Told system)
    (news : ∀ message ∈ messages, Faithful system.defaultType ⟨message, (system.job type).lastReorg⟩) :
    Told (system.write type channel messages) := by
  apply told.send
  intro envelope member
  obtain ⟨message, among, rfl⟩ := List.mem_map.mp member
  exact news message among

/-- A message that is passed on says what it has said before. -/
theorem Told.handle {oracle : Database Work} (told : Told system) (faithful : Faithful system.defaultType envelope)
    (handled : system.handle oracle type envelope = some after) : Told after := by
  have forward : ∀ channel, Told (system.send channel [envelope]) := fun channel =>
    told.send fun other member => by rwa [List.mem_singleton.mp member]
  cases type with
  | scan =>
    change system.handleScan envelope = some after at handled
    unfold System.handleScan at handled
    split at handled
    · cases handled
      exact ⟨(forward .scanToProcess).channels, told.deferred⟩
    · cases handled
  | process =>
    change system.handleProcess envelope = some after at handled
    unfold System.handleProcess at handled
    split at handled <;> cases handled
    · exact forward .processToIndex
    · exact ⟨(forward .processToIndex).channels, told.deferred⟩
    · exact ⟨told.channels, told.deferred⟩
    · exact ⟨told.channels, told.deferred⟩
    · exact ⟨(forward .processToIndex).channels, told.deferred⟩
  | index =>
    change system.handleIndex envelope = some after at handled
    unfold System.handleIndex at handled
    split at handled <;> cases handled
    exact forward .indexToRescan
  | rescan =>
    change system.handleRescan oracle envelope = some after at handled
    unfold System.handleRescan at handled
    split at handled
    · obtain ⟨accepted, _, rfl⟩ := Option.map_eq_some_iff.mp handled
      cases accepted with
      | false => exact told
      | true => exact ⟨told.channels, told.deferred⟩
    · next epoch statuses _ =>
      cases handled
      have news : Told (system.send .rescanToProgress (system.forwarded envelope statuses)) := by
        apply told.send
        intro other member
        unfold System.forwarded at member
        split at member
        · cases member
        · rwa [List.mem_singleton.mp member]
      exact ⟨news.channels, told.deferred⟩
    · cases handled
      exact ⟨(forward .rescanToProgress).channels, told.deferred⟩
    · cases handled
  | progress =>
    change system.handleProgress envelope = some after at handled
    unfold System.handleProgress at handled
    split at handled
    · obtain ⟨position, _, rfl⟩ := Option.map_eq_some_iff.mp handled
      exact ⟨told.channels, told.deferred⟩
    · cases handled
      exact ⟨told.channels, told.deferred⟩
    · cases handled

theorem Told.dispatch {oracle : Database Work} (told : Told system) (faithful : Faithful system.defaultType envelope)
    (dispatched : system.dispatch oracle type envelope = some after) : Told after := by
  unfold System.dispatch at dispatched
  split at dispatched
  · exact told.handle faithful dispatched
  · cases dispatched
    exact told
  · cases dispatched
    refine ⟨told.channels, fun other kept member => ?_⟩
    change kept ∈ (if other = type then system.deferred other ++ [envelope] else system.deferred other) at member
    split at member
    · rcases List.mem_append.mp member with before | new
      · exact told.deferred other kept before
      · rwa [List.mem_singleton.mp new]
    · exact told.deferred other kept member

theorem take_some (taken : system.take channel = some (envelope, after)) : ∃ rest, system.channel channel = envelope :: rest ∧
    after = { system with channel := fun other => if other = channel then rest else system.channel other } := by
  unfold System.take at taken
  split at taken
  · cases taken
  · next first rest queue =>
    cases taken
    exact ⟨rest, queue, rfl⟩

theorem take_cons {rest : List Envelope} (queue : system.channel channel = envelope :: rest) :
    system.take channel =
      some (envelope, { system with channel := fun other => if other = channel then rest else system.channel other }) := by
  unfold System.take
  rw [queue]

theorem takeDeferred_some (taken : system.takeDeferred type = some (envelope, after)) :
    ∃ rest, system.deferred type = envelope :: rest ∧
      after = { system with deferred := fun other => if other = type then rest else system.deferred other } := by
  unfold System.takeDeferred at taken
  split at taken
  · cases taken
  · next first rest queue =>
    cases taken
    exact ⟨rest, queue, rfl⟩

theorem Told.take (told : Told system) (taken : system.take channel = some (envelope, after)) :
    Faithful after.defaultType envelope ∧ Told after := by
  obtain ⟨rest, queue, rfl⟩ := take_some taken
  have all := told.channels channel
  rw [queue] at all
  refine ⟨all envelope List.mem_cons_self, fun other kept member => ?_, told.deferred⟩
  change kept ∈ (if other = channel then rest else system.channel other) at member
  split at member
  · exact all kept (List.mem_cons_of_mem _ member)
  · exact told.channels other kept member

theorem Told.takeDeferred (told : Told system) (taken : system.takeDeferred type = some (envelope, after)) :
    Faithful after.defaultType envelope ∧ Told after := by
  obtain ⟨rest, queue, rfl⟩ := takeDeferred_some taken
  have all := told.deferred type
  rw [queue] at all
  refine ⟨all envelope List.mem_cons_self, told.channels, fun other kept member => ?_⟩
  change kept ∈ (if other = type then rest else system.deferred other) at member
  split at member
  · exact all kept (List.mem_cons_of_mem _ member)
  · exact told.deferred other kept member

/-! ## What the jobs write -/

theorem dirtyReport_faithful {defaultType : FilterType} (job : Job) (dirty : List Position) :
    ∀ message ∈ Scan.dirtyReport job dirty, Faithful defaultType ⟨message, job.lastReorg⟩ := by
  intro message member
  unfold Scan.dirtyReport at member
  split at member
  · cases member
  · rw [List.mem_singleton.mp member]
    rfl

theorem cleanReport_faithful {defaultType : FilterType} (job : Job) (clean : Option Position) :
    ∀ message ∈ Scan.cleanReport job clean, Faithful defaultType ⟨message, job.lastReorg⟩ := by
  intro message member
  cases clean with
  | none => cases member
  | some clean =>
    rw [List.mem_singleton.mp member]
    rfl

theorem scanWork_faithful {defaultType : FilterType} (oracle : Database Work) (batch : Batch) (job : Job)
    (parent : SubchainData) (scan : Scan) :
    ∀ message ∈ (scan.work oracle batch job parent).2, Faithful defaultType ⟨message, job.lastReorg⟩ := by
  intro message member
  unfold Scan.work at member
  split at member
  · exact (List.mem_append.mp member).elim (dirtyReport_faithful job _ message) (cleanReport_faithful job _ message)
  · cases member

theorem processFilter_faithful {job : Job} {tip : Position} {filter : FilterType} (scan : Scan) :
    ∀ message ∈ (scan.processFilter job filter tip).2, Faithful filter ⟨message, job.lastReorg⟩ := by
  intro message member
  unfold Scan.processFilter at member
  split at member
  · cases member
  · rw [List.mem_singleton.mp member]
    exact ⟨rfl, rfl⟩

theorem flushReport_faithful {defaultType : FilterType} (job : Job) (flushed : Finset Position) :
    ∀ message ∈ Process.flushReport job flushed, Faithful defaultType ⟨message, job.lastReorg⟩ := by
  intro message member
  unfold Process.flushReport at member
  split at member
  · cases member
  · rw [List.mem_singleton.mp member]
    rfl

theorem report_faithful {defaultType : FilterType} (job : Job) (worked : Rescan.Worked) :
    ∀ message ∈ (Rescan.report job worked).toProgress, Faithful defaultType ⟨message, job.lastReorg⟩ := by
  intro message member
  obtain ⟨position, _, rfl⟩ := List.mem_map.mp member
  rfl

/-- Requests for a rescan or for reprocessing carry no number that is checked. -/
theorem rescan_requests {defaultType : FilterType} (oracle : Database Work) (batch : Batch) (job : Job)
    (parent : SubchainData) (rescan : Rescan) :
    ∀ message ∈ (rescan.work oracle batch job parent).toScan ++ (rescan.work oracle batch job parent).toProcess,
      Faithful defaultType ⟨message, job.lastReorg⟩ := by
  have trigger : ∀ message ∈ (triggerRescan parent).2, Faithful defaultType ⟨message, job.lastReorg⟩ := by
    intro message member
    unfold triggerRescan at member
    split at member
    · cases member
    · rw [List.mem_singleton.mp member]
      trivial
  intro message member
  unfold Rescan.work Rescan.report at member
  split at member
  · cases member
  · split at member
    · unfold Rescan.finish at member
      split at member
      · exact (List.mem_append.mp member).elim (trigger message) (fun none => nomatch none)
      · cases member
    · split at member
      · cases member
      · unfold Rescan.rescanBlocks at member
        dsimp only at member
        split at member
        · exact (List.mem_append.mp member).elim (trigger message) (fun none => nomatch none)
        · rw [List.nil_append] at member
          dsimp only at member
          split at member
          · cases member
          · rw [List.mem_singleton.mp member]
            trivial

theorem receive_filter {defaultType filter : FilterType} {job : Job} {tip : Position} {extra : List StateSequence} :
    receive defaultType job (.filter filter tip extra) = .handled ↔ job.state = .normal ∧ filter = defaultType := by
  unfold receive
  cases job.state with
  | reorg => exact ⟨fun handled => (nomatch handled), fun both => (nomatch both.1)⟩
  | normal =>
    dsimp only
    by_cases same : filter = defaultType
    · rw [if_pos same]
      exact ⟨fun _ => ⟨rfl, same⟩, fun _ => rfl⟩
    · rw [if_neg same]
      exact ⟨fun handled => (nomatch handled), fun both => absurd both.2 same⟩

theorem receive_update {defaultType : FilterType} {job : Job} {epoch : Option StateSequence} {statuses : List ScanStatus} :
    receive defaultType job (.update epoch statuses) = .handled ↔ job.state = .normal ∧ job.expects (.update epoch statuses) := by
  unfold receive
  cases job.state with
  | reorg => exact ⟨fun handled => (nomatch handled), fun both => (nomatch both.1)⟩
  | normal =>
    dsimp only
    by_cases same : job.expects (.update epoch statuses) = true
    · rw [if_pos same]
      exact ⟨fun _ => ⟨rfl, same⟩, fun _ => rfl⟩
    · rw [if_neg same]
      exact ⟨fun handled => (nomatch handled), fun both => absurd both.2 same⟩

theorem Told.newTip {filter : FilterType} {tip : Position} (told : Told system) : Told (system.newTip filter tip) := by
  unfold System.newTip
  split
  · next handled =>
    obtain ⟨_, same⟩ := receive_filter.mp handled
    have news := @processFilter_faithful (system.job .scan) tip filter system.scan
    rw [same] at news ⊢
    exact Told.write ⟨told.channels, told.deferred⟩ news
  · exact told

/-! ## Whole runs -/

theorem Told.step {event : Event Work} (told : Told system) (stepped : step event system = some after) : Told after := by
  cases event with
  | newTip filter tip =>
    cases stepped
    exact told.newTip
  | startScan =>
    cases (Option.ite_none_right_eq_some.mp stepped).2
    exact ⟨told.channels, told.deferred⟩
  | scanWork oracle batch =>
    cases (Option.ite_none_right_eq_some.mp stepped).2
    exact Told.write ⟨told.channels, told.deferred⟩ (scanWork_faithful oracle batch _ _ _)
  | processWork late allowed =>
    cases (Option.ite_none_right_eq_some.mp stepped).2
    exact Told.write ⟨told.channels, told.deferred⟩ (flushReport_faithful _ _)
  | blocks hashes =>
    cases (Option.ite_none_right_eq_some.mp stepped).2
    exact ⟨told.channels, told.deferred⟩
  | finishBlock position =>
    cases (Option.ite_none_right_eq_some.mp stepped).2
    exact Told.write ⟨told.channels, told.deferred⟩ fun message member => by
      rw [List.mem_singleton.mp member]
      trivial
  | rescanWork oracle batch =>
    cases (Option.ite_none_right_eq_some.mp stepped).2
    have requests := fun message (member : _ ∨ _) =>
      @rescan_requests Work system.defaultType oracle batch (system.job .rescan) system.parent system.rescan message
        (List.mem_append.mpr member)
    have first : Told ({ system with
        parent := (system.rescan.work oracle batch (system.job .rescan) system.parent).parent
        rescan := (system.rescan.work oracle batch (system.job .rescan) system.parent).rescan } : System) :=
      ⟨told.channels, told.deferred⟩
    exact ((first.write fun message member => requests message (.inl member)).write
      fun message member => requests message (.inr member)).write (report_faithful _ _)
  | rescan =>
    cases stepped
    apply told.send
    intro envelope member
    rw [List.mem_singleton.mp member]
    trivial
  | deliver channel oracle =>
    obtain ⟨⟨envelope, taken⟩, took, dispatched⟩ := Option.bind_eq_some_iff.mp stepped
    obtain ⟨faithful, rest⟩ := told.take took
    exact rest.dispatch faithful dispatched
  | resume type oracle =>
    obtain ⟨⟨envelope, taken⟩, took, dispatched⟩ := Option.bind_eq_some_iff.mp stepped
    obtain ⟨faithful, rest⟩ := told.takeDeferred took
    exact rest.dispatch faithful dispatched
  | prepareReorg id =>
    cases (Option.ite_none_left_eq_some.mp stepped).2
    exact ⟨told.channels, told.deferred⟩
  | control type =>
    change system.handleControl type = some after at stepped
    unfold System.handleControl at stepped
    split at stepped
    · cases stepped
    · dsimp only at stepped
      split at stepped
      · obtain ⟨_, _, rfl⟩ := Option.map_eq_some_iff.mp stepped
        exact ⟨told.channels, told.deferred⟩
      · cases stepped
        exact ⟨told.channels, told.deferred⟩
      · cases stepped
  | reorg oracle ancestor startReorg =>
    obtain ⟨_, performed⟩ := Option.ite_none_right_eq_some.mp stepped
    obtain ⟨_, reorged, rfl⟩ := Option.map_eq_some_iff.mp performed
    obtain ⟨_, _, rfl⟩ := Option.map_eq_some_iff.mp reorged
    exact ⟨told.channels, told.deferred⟩

theorem told_start (defaultType : FilterType) (downloadLimit : Nat) (saved rescanTip scanTip : Position) :
    Told (start defaultType downloadLimit saved rescanTip scanTip) := by
  refine ⟨fun channel envelope member => ?_, fun _ _ member => nomatch member⟩
  cases channel with
  | scanToProcess =>
    rw [List.mem_singleton.mp member]
    rfl
  | _ => cases member

/-! ## What is taken -/

def IsReport : Message → Prop
  | .filter .. | .update .. => True
  | _ => False

/-- The job takes the message as it arrives. -/
def Applies (system : System) (type : JobType) (envelope : Envelope) : Prop :=
  receive system.defaultType (system.job type) envelope.message = .handled ∧
    match envelope.message, type with
    | .filter .., .rescan => Rescan.acceptsTip (system.job .rescan) envelope.message = some true
    | _, _ => True

/-- An update, and a filter tip that has come to Rescan, is taken if and only if it comes from a job
that had acknowledged the same reorg. A filter tip on its way to Rescan is passed on then. -/
def Right (system : System) (type : JobType) (envelope : Envelope) : Prop :=
  match envelope.message, type with
  | .filter .., .rescan => Applies system type envelope ↔ envelope.sent = (system.job type).lastReorg
  | .filter .., _ => envelope.sent = (system.job type).lastReorg → Applies system type envelope
  | _, _ => Applies system type envelope ↔ envelope.sent = (system.job type).lastReorg

/-- A job that is sent a message of its own reorg has gone back to work, and a filter tip comes to
Rescan without a number when Rescan has none, and with another number when it has one. -/
def Meets (system : System) (type : JobType) (envelope : Envelope) : Prop :=
  (envelope.sent = (system.job type).lastReorg → (system.job type).state = .normal) ∧
    match envelope.message, type, (system.job type).lastReorg with
    | .filter .., .rescan, none => (system.job type).state = .normal → envelope.sent = none
    | .filter .., .rescan, some number => envelope.sent ≠ some number
    | _, _, _ => True

theorem expects_update {job : Job} {epoch : Option StateSequence} {statuses : List ScanStatus} :
    job.expects (.update epoch statuses) = true ↔ epoch = job.lastReorg := by
  cases epoch with
  | none =>
    show decide (job.lastReorg = none) = true ↔ _
    rw [decide_eq_true_iff]
    exact eq_comm
  | some number =>
    show decide (job.lastReorg = some number) = true ↔ _
    rw [decide_eq_true_iff]
    exact eq_comm

/-- The number of a tip is the fifth frame, and Rescan asks for a sixth. -/
theorem acceptsTip_eq {job : Job} {filter : FilterType} {tip : Position} {sent : Option StateSequence} :
    Rescan.acceptsTip job (.filter filter tip sent.toList) = some (decide (job.lastReorg = none)) := by
  unfold Rescan.acceptsTip
  cases job.lastReorg with
  | none => rfl
  | some last =>
    have short : (Message.filter filter tip sent.toList).payload.length ≤ 5 := by
      cases sent with
      | none => exact Nat.le_succ 4
      | some number => exact Nat.le_refl 5
    exact if_pos short

theorem applies_update {epoch sent : Option StateSequence} {statuses : List ScanStatus} :
    Applies system type ⟨.update epoch statuses, sent⟩ ↔
      (system.job type).state = .normal ∧ epoch = (system.job type).lastReorg := by
  unfold Applies
  rw [receive_update, expects_update]
  exact and_iff_left trivial

theorem applies_tip {filter : FilterType} {tip : Position} {sent : Option StateSequence} :
    Applies system .rescan ⟨.filter filter tip sent.toList, sent⟩ ↔
      ((system.job .rescan).state = .normal ∧ filter = system.defaultType) ∧ (system.job .rescan).lastReorg = none := by
  unfold Applies
  rw [receive_filter]
  show _ ∧ Rescan.acceptsTip _ _ = some true ↔ _
  rw [acceptsTip_eq, Option.some.injEq, decide_eq_true_iff]

theorem applies_passed {filter : FilterType} {tip : Position} {extra : List StateSequence} {sent : Option StateSequence}
    (other : type ≠ .rescan) : Applies system type ⟨.filter filter tip extra, sent⟩ ↔
      (system.job type).state = .normal ∧ filter = system.defaultType := by
  unfold Applies
  rw [receive_filter]
  cases type with
  | rescan => exact absurd rfl other
  | _ => exact and_iff_left trivial

theorem right_iff (report : IsReport envelope.message) (faithful : Faithful system.defaultType envelope) :
    Right system type envelope ↔ Meets system type envelope := by
  obtain ⟨message, sent⟩ := envelope
  cases message with
  | update epoch statuses =>
    obtain rfl : epoch = sent := faithful
    show (Applies system type ⟨.update epoch statuses, epoch⟩ ↔ epoch = (system.job type).lastReorg) ↔
      (epoch = (system.job type).lastReorg → _) ∧ True
    rw [applies_update, and_true, and_iff_right_iff_imp]
  | filter filter tip extra =>
    obtain ⟨rfl, rfl⟩ : filter = system.defaultType ∧ extra = sent.toList := faithful
    by_cases rescan : type = .rescan
    · cases rescan
      show (Applies system .rescan ⟨.filter system.defaultType tip sent.toList, sent⟩ ↔ sent = _) ↔ _
      rw [applies_tip]
      unfold Meets
      cases last : (system.job .rescan).lastReorg with
      | none =>
        dsimp only
        rw [and_iff_left rfl, and_iff_left rfl]
        exact ⟨fun same => ⟨same.mpr, same.mp⟩, fun both => ⟨both.2, both.1⟩⟩
      | some number =>
        dsimp only
        constructor
        · intro same
          have other : sent ≠ some number := fun equal => nomatch (same.mpr equal).2
          exact ⟨fun equal => absurd equal other, other⟩
        · intro both
          exact ⟨fun applied => (nomatch applied.2), fun equal => absurd equal both.2⟩
    · have right : Right system type ⟨.filter system.defaultType tip sent.toList, sent⟩ ↔
          (sent = (system.job type).lastReorg → Applies system type ⟨.filter system.defaultType tip sent.toList, sent⟩) := by
        cases type with
        | rescan => exact absurd rfl rescan
        | _ => exact Iff.rfl
      have meets : Meets system type ⟨.filter system.defaultType tip sent.toList, sent⟩ ↔
          (sent = (system.job type).lastReorg → (system.job type).state = .normal) := by
        cases type with
        | rescan => exact absurd rfl rescan
        | _ => exact and_iff_left trivial
      rw [right, meets, applies_passed rescan, and_iff_left rfl]
  | _ => exact report.elim

/-- Once Rescan has acknowledged a reorg, it takes no tip at all. -/
theorem tip_dropped {filter : FilterType} {tip : Position} {sent : Option StateSequence} {number : StateSequence}
    (last : (system.job .rescan).lastReorg = some number) :
    ¬ Applies system .rescan ⟨.filter filter tip sent.toList, sent⟩ := by
  rw [applies_tip, last]
  exact fun applied => nomatch applied.2

/-- In every run a job that is given a message does what it should exactly when the numbers agree
with what it can read and it has gone back to work. -/
theorem deliveries_right_iff {defaultType : FilterType} {downloadLimit : Nat} {saved rescanTip scanTip : Position}
    (run : Machine.Run (machine Work) (fun _ _ => True) (start defaultType downloadLimit saved rescanTip scanTip) system)
    (taken : system.take channel = some (envelope, after)) (report : IsReport envelope.message) :
    Right after channel.receiver envelope ↔ Meets after channel.receiver envelope := by
  have told : Told system := run.keeps (told_start _ _ _ _ _) fun _ _ _ told _ stepped => told.step stepped
  exact right_iff report (told.take taken).1

/-! ## A tip after a reorg -/

def genesis : Database Nat := HeaderOracle.Storage.initial ⟨1, 1, one_ne_null⟩

/-- All jobs acknowledge a reorg and go back to work, and the filter oracle has a new tip. -/
def reorgAndTip : List (Event Nat) :=
  [.prepareReorg 1, .control .progress, .control .rescan, .control .index, .control .process, .control .scan,
    .reorg genesis ⟨0, 1⟩ fun _ => true,
    .control .progress, .control .rescan, .control .index, .control .process, .control .scan,
    .newTip .es ⟨1, 2⟩, .deliver .scanToProcess genesis, .deliver .scanToProcess genesis, .deliver .processToIndex genesis]

def afterReorg : Option System := (machine Nat).runs reorgAndTip (start .es 0 {} {} {})

theorem tip_is_lost : ¬ ∀ system after envelope channel,
    Machine.Run (machine Nat) (fun _ _ => True) (start .es 0 {} {} {}) system →
    system.take channel = some (envelope, after) → IsReport envelope.message → Right after channel.receiver envelope := by
  intro claim
  obtain ⟨system, ran⟩ := Option.isSome_iff_exists.mp (by decide +kernel : afterReorg.isSome = true)
  have waits : afterReorg.map (fun system => system.channel .indexToRescan) = some [⟨.filter .es ⟨1, 2⟩ [1], some 1⟩] := by
    decide +kernel
  have acknowledged : afterReorg.map (fun system => (system.job .rescan).lastReorg) = some (some 1) := by decide +kernel
  rw [ran] at waits acknowledged
  have run : Machine.Run (machine Nat) (fun _ _ => True) (start .es 0 {} {} {}) system :=
    Machine.run_of_runs (Machine.allows_of_always (fun _ _ => trivial) _ _) ran
  have taken := take_cons (Option.some.inj waits)
  have right : Right _ .rescan ⟨.filter .es ⟨1, 2⟩ [1], some 1⟩ := claim system _ _ .indexToRescan run taken trivial
  have number : (system.job .rescan).lastReorg = some 1 := Option.some.inj acknowledged
  exact @tip_dropped _ .es ⟨1, 2⟩ (some 1) 1 number (right.mpr number.symm)

/-- The report with which Scan starts reaches Process. -/
theorem startup_report_right : ∃ system after envelope,
    Machine.Run (machine Nat) (fun _ _ => True) (start .es 0 {} {} {}) system ∧
      system.take .scanToProcess = some (envelope, after) ∧ IsReport envelope.message ∧
      (Right after .process envelope ↔ Meets after .process envelope) :=
  ⟨_, _, _, .start, rfl, trivial, 
    @deliveries_right_iff Nat _ _ _ .scanToProcess _ _ _ _ _ .start rfl trivial⟩

end Opentxs.Subchain.Epochs
