import Opentxs.Consensus.Delivery

/-! The promise of a request is fulfilled once, as long as no nymbox tells the outcome of the
request while it is being worked through. -/

namespace Opentxs.Consensus.Resolving
open Library Delivery

/-! ## What should hold -/

structure Right (session : Session) : Prop where
  once : session.data.results.length ≤ 1
  sends : session.data.state = .pendingSend → session.data.pendingMessage ≠ none
  runs : session.data.aborted = false
  ends : session.phase = .stopped → session.started = true → session.data.results ≠ [] ∨ session.shutdown = true

def StaysRight (events : List Event) (session : Session) : Prop :=
  ∀ first, first <+: events → ∀ after, machine.runs first session = some after → Right after

/-- The nymbox that is processed has an unseen notice of the reply to the pending message. -/
def answers (data : Data) (nymbox : Nymbox) : Bool :=
  nymbox.loaded && nymbox.verified && match data.pendingMessage with
    | none => false
    | some pending => (acceptEntireNymbox nymbox).2.outcomes.any fun outcome => outcome.1 = pending.requestNum

def Unanswered : Event → Session → Prop
  | .round outside, session => session.data.state = .needProcessNymbox → answers session.data outside.nymbox = false
  | _, _ => True

instance (event : Event) (session : Session) : Decidable (Unanswered event session) :=
  match event with
  | .round outside => inferInstanceAs (Decidable (session.data.state = .needProcessNymbox → answers session.data outside.nymbox = false))
  | .queue _ | .refreshNymbox | .check | .stop => isTrue trivial

/-! ## A request that waits -/

structure Waiting (data : Data) : Prop where
  runs : data.aborted = false
  none_yet : data.results = []
  busy : data.state ≠ .idle ∧ data.state ≠ .error
  pending : data.processNymbox = false → data.pendingMessage ≠ none
  sends : data.state = .pendingSend → data.processNymbox = false

structure Resolved (data : Data) : Prop where
  runs : data.aborted = false
  once : ∃ result, data.results = [result]
  idle : data.state = .idle

variable {data : Data}

theorem attemptDelivery_data (data : Data) (message : Message) (answer : Answer) :
    ∃ count, (attemptDelivery data message answer).1 = fail data count := by
  unfold attemptDelivery
  split
  · split
    · exact ⟨0, rfl⟩
    · split
      · exact ⟨1, rfl⟩
      · split
        · exact ⟨0, rfl⟩
        · dsimp only
          split
          · exact ⟨1, rfl⟩
          · split
            · exact ⟨0, rfl⟩
            · exact ⟨1, rfl⟩
  all_goals exact ⟨2, rfl⟩

theorem Waiting.fail (waiting : Waiting data) (count : Nat) : Waiting (fail data count) :=
  ⟨waiting.runs, waiting.none_yet, waiting.busy, waiting.pending, waiting.sends⟩

theorem Waiting.attempt (waiting : Waiting data) (message : Message) (answer : Answer) :
    Waiting (attemptDelivery data message answer).1 := by
  obtain ⟨count, same⟩ := attemptDelivery_data data message answer
  rw [same]
  exact waiting.fail count

theorem Waiting.update (waiting : Waiting data) {state : DeliveryState} (busy : state ≠ .idle ∧ state ≠ .error)
    (sends : state = .pendingSend → data.processNymbox = false) (status : LastReplyStatus) : Waiting (updateState data state status) :=
  ⟨waiting.runs, waiting.none_yet, busy, waiting.pending, sends⟩

theorem Waiting.resolve (waiting : Waiting data) (result : DeliveryResult) : Resolved (resolveQueue data result .idle) :=
  ⟨waiting.runs, ⟨result, congrArg (result :: ·) waiting.none_yet⟩, rfl⟩

/-- One round leaves the request waiting or resolves it. -/
def Goes (data : Data) : Prop := Waiting data ∨ Resolved data

theorem Waiting.pendingSend (waiting : Waiting data) (state : data.state = .pendingSend) (answer : Answer) : Goes (pendingSend data answer) := by
  unfold Delivery.pendingSend
  split
  · next absent => exact absurd absent (waiting.pending (waiting.sends state))
  · next message present =>
    have attempted := waiting.attempt message answer
    have kept : Waiting { (attemptDelivery data message answer).1 with pendingMessage := some (attemptDelivery data message answer).2.1 } :=
      ⟨attempted.runs, attempted.none_yet, attempted.busy, fun _ => Option.some_ne_none _, attempted.sends⟩
    dsimp only
    split
    · exact .inr (kept.resolve _)
    · split
      · exact .inl (kept.update ⟨by decide, by decide⟩ (fun same => DeliveryState.noConfusion same) _)
      · exact .inl kept
    · split
      · exact .inl (kept.update ⟨by decide, by decide⟩ (fun same => DeliveryState.noConfusion same) _)
      · exact .inl kept
    all_goals exact .inl kept

theorem Waiting.needNymbox (waiting : Waiting data) (answer : Answer) : Goes (needNymbox data answer) := by
  have kept := waiting.attempt (serverCommand .getNymbox) answer
  unfold Delivery.needNymbox
  dsimp only
  split
  · split
    · refine .inl (Waiting.update ?_ ⟨by decide, by decide⟩ (fun same => DeliveryState.noConfusion same) _)
      split
      · exact ⟨kept.runs, kept.none_yet, kept.busy, fun _ => Option.some_ne_none _, kept.sends⟩
      · exact kept
    · exact .inl kept
  all_goals exact .inl kept

theorem Waiting.downloadItems (items : List BoxItem) : ∀ {data : Data} (count : Nat), Waiting data →
    Waiting (downloadItems data count items).1 := by
  induction items with
  | nil => exact fun _ waiting => waiting
  | cons item items ih =>
    intro data count waiting
    have kept := waiting.attempt (serverCommand .getBoxReceipt) item.answer
    unfold Delivery.downloadItems
    split
    · exact ih count waiting
    · split
      · exact ih count waiting
      · split
        · exact ih (count + 1) waiting
        · dsimp only
          split
          · split
            · exact ih (count + 1) kept
            · exact kept.update ⟨by decide, by decide⟩ (fun same => DeliveryState.noConfusion same) _
          all_goals exact kept

theorem Waiting.needBoxItems (waiting : Waiting data) (nymbox : BoxItems) : Goes (needBoxItems data nymbox) := by
  have kept := Waiting.downloadItems nymbox.items 0 waiting
  unfold Delivery.needBoxItems
  split
  · exact .inl waiting
  · split
    · exact .inl waiting
    · dsimp only
      split
      · exact .inl kept
      · split
        · exact .inl (kept.update ⟨by decide, by decide⟩ (fun same => DeliveryState.noConfusion same) _)
        · exact .inl kept

theorem Waiting.nothingLeft (waiting : Waiting data) : Goes (nothingLeft data) := by
  unfold Delivery.nothingLeft
  split
  · exact .inr (waiting.resolve _)
  · next normal => exact .inl (waiting.update ⟨by decide, by decide⟩ (fun _ => Bool.eq_false_iff.mpr normal) _)

/-- Outcomes of other requests change nothing. -/
theorem resolveOutcomes_of_unanswered {nymbox : Nymbox} (loaded : nymbox.loaded = true) (verified : nymbox.verified = true)
    (unanswered : answers data nymbox = false) : resolveOutcomes data (acceptEntireNymbox nymbox).2.outcomes = data := by
  unfold answers at unanswered
  rw [loaded, verified, Bool.true_and, Bool.true_and] at unanswered
  unfold resolveOutcomes
  split
  · rfl
  · next pending present =>
    rw [present] at unanswered
    have other := List.any_eq_false.mp unanswered
    have skips (outcomes : List (Int × DeliveryResult)) : (∀ outcome ∈ outcomes, ¬decide (outcome.1 = pending.requestNum) = true) →
        outcomes.foldl (fun data outcome => if outcome.1 = pending.requestNum then resolveQueue data outcome.2 .error else data) data = data := by
      induction outcomes with
      | nil => exact fun _ => rfl
      | cons outcome outcomes ih =>
        intro absent
        obtain ⟨here, later⟩ := List.forall_mem_cons.mp absent
        rw [List.foldl_cons, if_neg fun same => here (decide_eq_true same)]
        exact ih later
    exact skips _ other

theorem Waiting.needProcessNymbox (waiting : Waiting data) {nymbox : Nymbox} (unanswered : answers data nymbox = false) :
    Goes (needProcessNymbox data nymbox) := by
  unfold Delivery.needProcessNymbox
  split
  · exact .inl waiting
  · next loaded =>
    split
    · exact .inl waiting
    · next verified =>
      split
      · exact waiting.nothingLeft
      · have kept := waiting.attempt (serverCommand .processNymbox) nymbox.answer
        dsimp only
        rw [resolveOutcomes_of_unanswered (not_not.mp loaded) (not_not.mp verified) unanswered]
        split
        · split
          · exact waiting.nothingLeft
          · exact .inl (waiting.update ⟨by decide, by decide⟩ (fun same => DeliveryState.noConfusion same) _)
        · split
          · exact .inl waiting
          · split
            · exact .inl kept
            · split
              · exact (kept.attempt (serverCommand .getNymbox) nymbox.again).nothingLeft
              · exact .inl (kept.update ⟨by decide, by decide⟩ (fun same => DeliveryState.noConfusion same) _)
            all_goals exact .inl (kept.update ⟨by decide, by decide⟩ (fun same => DeliveryState.noConfusion same) _)

theorem Waiting.work (waiting : Waiting data) {outside : Outside}
    (unanswered : data.state = .needProcessNymbox → answers data outside.nymbox = false) : Goes (work data outside) := by
  unfold Delivery.work
  split
  · next state => exact waiting.pendingSend state outside.answer
  · exact waiting.needNymbox outside.answer
  · exact waiting.needBoxItems outside.items
  · next state => exact waiting.needProcessNymbox (unanswered state)
  · next state => exact absurd state waiting.busy.1
  · next state => exact absurd state waiting.busy.2

/-- The thread goes on exactly while the request waits. -/
theorem Waiting.stateMachine (waiting : Waiting data) {outside : Outside} (shutdown : Bool)
    (unanswered : data.state = .needProcessNymbox → answers data outside.nymbox = false) :
    (stateMachine data outside shutdown).2 = true ∧ Waiting (stateMachine data outside shutdown).1 ∨
      (stateMachine data outside shutdown).2 = false ∧ Resolved (stateMachine data outside shutdown).1 := by
  have goes := waiting.work unanswered
  unfold Delivery.stateMachine
  dsimp only
  rcases goes with waits | resolved
  · rw [if_neg (not_not.mpr waits.busy.1)]
    split
    · exact .inr ⟨rfl, waits.resolve _⟩
    · split
      · exact .inr ⟨rfl, waits.resolve _⟩
      · exact .inl ⟨rfl, waits⟩
  · rw [if_pos (not_not.mpr resolved.idle)]
    exact .inr ⟨rfl, resolved⟩

section
variable {session after : Session}

/-! ## Steps -/

theorem queue_eq {message : Message} (stepped : machine.step (.queue message) session = some after) :
    session.phase ≠ .stopped ∧ after = session ∨ session.phase = .stopped ∧ after = start session (some message) .pendingSend false := by
  by_cases stopped : session.phase = .stopped
  · exact .inr ⟨stopped, (Option.some.inj ((if_neg (not_not.mpr stopped)).symm.trans stepped)).symm⟩
  · exact .inl ⟨stopped, (Option.some.inj ((if_pos stopped).symm.trans stepped)).symm⟩

theorem refreshNymbox_eq (stepped : machine.step .refreshNymbox session = some after) :
    session.phase ≠ .stopped ∧ after = session ∨ session.phase = .stopped ∧ after = start session none .needNymbox true := by
  by_cases stopped : session.phase = .stopped
  · exact .inr ⟨stopped, (Option.some.inj ((if_neg (not_not.mpr stopped)).symm.trans stepped)).symm⟩
  · exact .inl ⟨stopped, (Option.some.inj ((if_pos stopped).symm.trans stepped)).symm⟩

theorem round_eq {outside : Outside} (stepped : machine.step (.round outside) session = some after) : session.phase = .ready ∧
    after = { session with
      data := (stateMachine session.data outside session.shutdown).1
      phase := .returned (stateMachine session.data outside session.shutdown).2 } := by
  cases phase : session.phase with
  | ready =>
    simp only [machine, step, phase, Option.some.injEq] at stepped
    exact ⟨rfl, stepped.symm⟩
  | stopped | returned _ => simp [machine, step, phase] at stepped

theorem check_eq (stepped : machine.step .check session = some after) : ∃ again, session.phase = .returned again ∧
    after = { session with phase := if session.shutdown then .stopped else if again then .ready else .stopped } := by
  cases phase : session.phase with
  | returned again =>
    simp only [machine, step, phase, Option.some.injEq] at stepped
    exact ⟨again, rfl, stepped.symm⟩
  | stopped | ready => simp [machine, step, phase] at stepped

end

/-! ## Runs -/

/-- While the thread runs the request waits. It ends with the request resolved, or by a shutdown. -/
structure Sound (session : Session) : Prop where
  going : session.phase = .ready ∨ session.phase = .returned true → Waiting session.data
  refused : session.phase = .returned false → Resolved session.data
  ended : session.phase = .stopped → session.started = true → Resolved session.data ∨ session.shutdown = true ∧ Waiting session.data
  fresh : session.started = false → session.data = {}

variable {session after : Session} {event : Event} {events : List Event}

theorem Waiting.right (waiting : Waiting session.data) (ends : session.phase = .stopped → session.started = true → session.shutdown = true) :
    Right session where
  once := by
    rw [waiting.none_yet]
    exact Nat.zero_le 1
  sends := fun state => waiting.pending (waiting.sends state)
  runs := waiting.runs
  ends := fun stopped started => .inr (ends stopped started)

theorem Resolved.right (resolved : Resolved session.data) : Right session := by
  obtain ⟨result, once⟩ := resolved.once
  refine ⟨?_, ?_, resolved.runs, fun _ _ => .inl ?_⟩
  · rw [once]
    exact Nat.le_refl 1
  · intro state
    rw [resolved.idle] at state
    cases state
  · rw [once]
    exact List.cons_ne_nil _ _

theorem Sound.right (sound : Sound session) : Right session := by
  cases phase : session.phase with
  | ready => exact (sound.going (.inl phase)).right fun stopped => by rw [phase] at stopped; cases stopped
  | returned again =>
    cases again with
    | true => exact (sound.going (.inr phase)).right fun stopped => by rw [phase] at stopped; cases stopped
    | false => exact (sound.refused phase).right
  | stopped =>
    cases started : session.started with
    | true =>
      rcases sound.ended phase started with resolved | ⟨shutdown, waiting⟩
      · exact resolved.right
      · exact waiting.right fun _ _ => shutdown
    | false =>
      have same := sound.fresh started
      refine ⟨?_, ?_, ?_, fun _ did => ?_⟩
      · rw [same]
        exact Nat.zero_le 1
      · rw [same]
        exact fun state => DeliveryState.noConfusion state
      · rw [same]
      · rw [started] at did
        cases did

theorem sound_begin : Sound {} :=
  ⟨fun phase => phase.elim (nomatch ·) (nomatch ·), (nomatch ·), fun _ started => absurd started Bool.false_ne_true, fun _ => rfl⟩

theorem sound_start (session : Session) (message : Option Message) (state : DeliveryState) (processNymbox : Bool)
    (pending : processNymbox = false → message ≠ none) (busy : state ≠ .idle ∧ state ≠ .error)
    (sends : state = .pendingSend → processNymbox = false) (runs : session.data.aborted = false) :
    Sound (start session message state processNymbox) := by
  have waiting : Waiting (start session message state processNymbox).data := ⟨runs, rfl, busy, pending, sends⟩
  have phase : (start session message state processNymbox).phase = if session.shutdown then .stopped else .ready := rfl
  refine ⟨fun _ => waiting, fun returned => ?_, fun stopped _ => .inr ⟨?_, waiting⟩, (fun never => Bool.noConfusion never)⟩
  · rw [phase] at returned
    split at returned
    · cases returned
    · cases returned
  · by_contra running
    change ¬session.shutdown = true at running
    rw [phase, if_neg running] at stopped
    cases stopped

theorem Sound.stepped (sound : Sound session) (unanswered : Unanswered event session) (stepped : machine.step event session = some after) :
    Sound after := by
  have runs := sound.right.runs
  cases event with
  | queue message =>
    rcases queue_eq stepped with ⟨_, rfl⟩ | ⟨_, rfl⟩
    · exact sound
    · exact sound_start session _ _ _ (fun _ => Option.some_ne_none _) ⟨by decide, by decide⟩ (fun _ => rfl) runs
  | refreshNymbox =>
    rcases refreshNymbox_eq stepped with ⟨_, rfl⟩ | ⟨_, rfl⟩
    · exact sound
    · exact sound_start session _ _ _ (fun normal => Bool.noConfusion normal) ⟨by decide, by decide⟩ (nomatch ·) runs
  | round outside =>
    obtain ⟨phase, rfl⟩ := round_eq stepped
    have waiting := sound.going (.inl phase)
    have started : session.started = true := by
      by_contra never
      have idle := waiting.busy.1
      rw [sound.fresh (Bool.eq_false_iff.mpr never)] at idle
      exact idle rfl
    have fresh : session.started = false → (stateMachine session.data outside session.shutdown).1 = {} := by
      rw [started]
      exact fun never => Bool.noConfusion never
    rcases waiting.stateMachine session.shutdown unanswered with ⟨again, goes⟩ | ⟨done, resolved⟩
    · rw [again]
      exact ⟨fun _ => goes, (nomatch ·), (nomatch ·), fresh⟩
    · rw [done]
      exact ⟨fun phase => phase.elim (nomatch ·) (nomatch ·), fun _ => resolved, (nomatch ·), fresh⟩
  | check =>
    obtain ⟨again, phase, rfl⟩ := check_eq stepped
    cases again with
    | true =>
      have waiting := sound.going (.inr phase)
      cases session.shutdown
      · exact ⟨fun _ => waiting, (nomatch ·), (nomatch ·), sound.fresh⟩
      · exact ⟨fun _ => waiting, (nomatch ·), fun _ _ => .inr ⟨rfl, waiting⟩, sound.fresh⟩
    | false =>
      have resolved := sound.refused phase
      cases session.shutdown
      · exact ⟨fun phase => phase.elim (nomatch ·) (nomatch ·), fun _ => resolved, fun _ _ => .inl resolved, sound.fresh⟩
      · exact ⟨fun phase => phase.elim (nomatch ·) (nomatch ·), fun _ => resolved, fun _ _ => .inl resolved, sound.fresh⟩
  | stop =>
    cases stepped
    exact ⟨sound.going, sound.refused, fun phase started => (sound.ended phase started).imp_right fun both => ⟨rfl, both.2⟩, sound.fresh⟩

theorem Sound.runs (sound : Sound session) (unanswered : machine.Allows Unanswered events session)
    (ran : machine.runs events session = some after) : Sound after :=
  (Machine.run_of_runs unanswered ran).keeps sound fun _ _ _ kept unanswered stepped => kept.stepped unanswered stepped

theorem staysRight_of_unanswered (unanswered : machine.Allows Unanswered events {}) : StaysRight events {} :=
  fun _ first _ ran => (sound_begin.runs (Machine.allows_prefix first unanswered) ran).right

/-! ## A request that was answered midway -/

/-- The promise has been fulfilled and the work goes on, without a message. -/
structure Adrift (data : Data) : Prop where
  once : data.results ≠ []
  none_left : data.pendingMessage = none ∧ data.processNymbox = false
  busy : data.state = .needNymbox ∨ data.state = .needBoxItems ∨ data.state = .needProcessNymbox

/-- The promise has been fulfilled twice, or there is nothing to send. -/
def Wrong (data : Data) : Prop :=
  2 ≤ data.results.length ∨ data.results ≠ [] ∧ data.state = .pendingSend ∧ data.pendingMessage = none

theorem Adrift.attempt (adrift : Adrift data) (message : Message) (answer : Answer) :
    Adrift (attemptDelivery data message answer).1 := by
  obtain ⟨count, same⟩ := attemptDelivery_data data message answer
  rw [same]
  exact ⟨adrift.once, adrift.none_left, adrift.busy⟩

theorem Adrift.update (adrift : Adrift data) {state : DeliveryState}
    (busy : state = .needNymbox ∨ state = .needBoxItems ∨ state = .needProcessNymbox) (status : LastReplyStatus) :
    Adrift (updateState data state status) := ⟨adrift.once, adrift.none_left, busy⟩

theorem Adrift.nothingLeft (adrift : Adrift data) : Wrong (nothingLeft data) := by
  unfold Delivery.nothingLeft
  rw [adrift.none_left.2]
  exact .inr ⟨adrift.once, rfl, adrift.none_left.1⟩

theorem Adrift.downloadItems (items : List BoxItem) : ∀ {data : Data} (count : Nat), Adrift data →
    Adrift (downloadItems data count items).1 := by
  induction items with
  | nil => exact fun _ adrift => adrift
  | cons item items ih =>
    intro data count adrift
    have kept := adrift.attempt (serverCommand .getBoxReceipt) item.answer
    unfold Delivery.downloadItems
    split
    · exact ih count adrift
    · split
      · exact ih count adrift
      · split
        · exact ih (count + 1) adrift
        · dsimp only
          split
          · split
            · exact ih (count + 1) kept
            · exact kept.update (.inl rfl) _
          all_goals exact kept

/-- From the outcomes on, the work on the nymbox leaves such a request as it is or goes wrong. -/
theorem needProcessNymbox_adrift {nymbox : Nymbox} (loaded : nymbox.loaded = true) (verified : nymbox.verified = true)
    (adrift : Adrift (resolveOutcomes data (acceptEntireNymbox nymbox).2.outcomes)) (filled : ¬nymbox.transactions.length < 1) :
    Adrift (needProcessNymbox data nymbox) ∨ Wrong (needProcessNymbox data nymbox) := by
  have kept := adrift.attempt (serverCommand .processNymbox) nymbox.answer
  unfold Delivery.needProcessNymbox
  rw [if_neg (not_not.mpr loaded), if_neg (not_not.mpr verified), if_neg filled]
  dsimp only
  split
  · split
    · exact .inr adrift.nothingLeft
    · exact .inl (adrift.update (.inl rfl) _)
  · split
    · exact .inl adrift
    · split
      · exact .inl kept
      · split
        · exact .inr (kept.attempt (serverCommand .getNymbox) nymbox.again).nothingLeft
        · exact .inl (kept.update (.inl rfl) _)
      all_goals exact .inl (kept.update (.inl rfl) _)

theorem Adrift.work (adrift : Adrift data) (outside : Outside) : Adrift (work data outside) ∨ Wrong (work data outside) := by
  have absent := adrift.none_left.1
  have apart (state : DeliveryState) (here : data.state = state) : state = .needNymbox ∨ state = .needBoxItems ∨ state = .needProcessNymbox :=
    here ▸ adrift.busy
  unfold Delivery.work
  split
  · next state => exact absurd (apart _ state) (by decide)
  · have kept := adrift.attempt (serverCommand .getNymbox) outside.answer
    refine .inl ?_
    unfold Delivery.needNymbox
    dsimp only
    split
    · split
      · rw [if_neg fun both => absurd (both.1.symm.trans kept.none_left.2) (by decide)]
        exact kept.update (.inr (.inl rfl)) _
      · exact kept
    all_goals exact kept
  · have kept := Adrift.downloadItems outside.items.items 0 adrift
    refine .inl ?_
    unfold Delivery.needBoxItems
    split
    · exact adrift
    · split
      · exact adrift
      · dsimp only
        split
        · exact kept
        · split
          · exact kept.update (.inr (.inr rfl)) _
          · exact kept
  · have none_resolved : resolveOutcomes data (acceptEntireNymbox outside.nymbox).2.outcomes = data := by
      unfold resolveOutcomes
      rw [absent]
    by_cases loaded : outside.nymbox.loaded = true
    · by_cases verified : outside.nymbox.verified = true
      · by_cases filled : outside.nymbox.transactions.length < 1
        · refine .inr ?_
          unfold Delivery.needProcessNymbox
          rw [if_neg (not_not.mpr loaded), if_neg (not_not.mpr verified), if_pos filled]
          exact adrift.nothingLeft
        · exact needProcessNymbox_adrift loaded verified (none_resolved.symm ▸ adrift) filled
      · unfold Delivery.needProcessNymbox
        rw [if_neg (not_not.mpr loaded), if_pos verified]
        exact .inl adrift
    · unfold Delivery.needProcessNymbox
      rw [if_pos loaded]
      exact .inl adrift
  · next state => exact absurd (apart _ state) (by decide)
  · next state => exact absurd (apart _ state) (by decide)

/-- An outcome of the pending message sets the request adrift. -/
theorem resolveOutcomes_adrift {nymbox : Nymbox} (state : data.state = .needProcessNymbox) (answered : answers data nymbox = true) :
    nymbox.loaded = true ∧ nymbox.verified = true ∧ ¬nymbox.transactions.length < 1 ∧
      Adrift (resolveOutcomes data (acceptEntireNymbox nymbox).2.outcomes) := by
  unfold answers at answered
  rw [Bool.and_eq_true, Bool.and_eq_true] at answered
  obtain ⟨⟨loaded, verified⟩, answered⟩ := answered
  unfold resolveOutcomes
  cases present : data.pendingMessage with
  | none =>
    rw [present] at answered
    cases answered
  | some pending =>
    rw [present] at answered
    have filled : ¬nymbox.transactions.length < 1 := by
      intro empty
      unfold acceptEntireNymbox at answered
      rw [if_pos empty] at answered
      cases answered
    have stays (outcomes : List (Int × DeliveryResult)) : ∀ data : Data, Adrift data → Adrift (outcomes.foldl
        (fun data outcome => if outcome.1 = pending.requestNum then resolveQueue data outcome.2 .error else data) data) := by
      induction outcomes with
      | nil => exact fun _ adrift => adrift
      | cons outcome outcomes ih =>
        intro data adrift
        rw [List.foldl_cons]
        split
        · exact ih _ ⟨List.cons_ne_nil _ _, ⟨rfl, rfl⟩, adrift.busy⟩
        · exact ih data adrift
    have reaches (outcomes : List (Int × DeliveryResult)) : (outcomes.any fun outcome => outcome.1 = pending.requestNum) = true →
        Adrift (outcomes.foldl
          (fun data outcome => if outcome.1 = pending.requestNum then resolveQueue data outcome.2 .error else data) data) := by
      induction outcomes with
      | nil => exact fun found => Bool.noConfusion found
      | cons outcome outcomes ih =>
        intro found
        rw [List.foldl_cons]
        split
        · exact stays outcomes _ ⟨List.cons_ne_nil _ _, ⟨rfl, rfl⟩, .inr (.inr state)⟩
        · next other =>
          rw [List.any_cons, decide_eq_false other, Bool.false_or] at found
          exact ih found
    exact ⟨loaded, verified, filled, reaches _ answered⟩

/-- One round on such a request goes wrong, or the thread goes on with it. -/
theorem stateMachine_adrift {outside : Outside} {shutdown : Bool} (either : Adrift (work data outside) ∨ Wrong (work data outside)) :
    Wrong (stateMachine data outside shutdown).1 ∨
      Adrift (stateMachine data outside shutdown).1 ∧ (stateMachine data outside shutdown).2 = true := by
  have again (result : DeliveryResult) (once : (work data outside).results ≠ []) : Wrong (resolveQueue (work data outside) result .idle) :=
    .inl (Nat.succ_le_succ (List.length_pos_of_ne_nil once))
  unfold stateMachine
  dsimp only
  rcases either with adrift | wrong
  · have busy : (work data outside).state ≠ .idle := by
      rcases adrift.busy with state | state | state
      all_goals
        rw [state]
        decide
    rw [if_neg (not_not.mpr busy)]
    split
    · exact .inl (again _ adrift.once)
    · split
      · exact .inl (again _ adrift.once)
      · exact .inr ⟨adrift, rfl⟩
  · have once : (work data outside).results ≠ [] := by
      rcases wrong with twice | ⟨once, _⟩
      · exact List.length_pos_iff.mp (by omega)
      · exact once
    left
    split
    · exact wrong
    · split
      · exact again _ once
      · split
        · exact again _ once
        · exact wrong

theorem Wrong.not_right (wrong : Wrong session.data) : ¬Right session := by
  intro right
  rcases wrong with twice | ⟨_, state, absent⟩
  · have once := right.once
    omega
  · exact right.sends state absent

structure Astray (session : Session) : Prop where
  phase : session.phase = .ready ∨ session.phase = .returned true
  adrift : Adrift session.data

theorem shutdown_stays (stepped : machine.step event session = some after) (before : session.shutdown = true) : after.shutdown = true := by
  cases event with
  | queue message =>
    rcases queue_eq stepped with ⟨_, rfl⟩ | ⟨_, rfl⟩
    · exact before
    · exact before
  | refreshNymbox =>
    rcases refreshNymbox_eq stepped with ⟨_, rfl⟩ | ⟨_, rfl⟩
    · exact before
    · exact before
  | round outside =>
    obtain ⟨_, rfl⟩ := round_eq stepped
    exact before
  | check =>
    obtain ⟨_, _, rfl⟩ := check_eq stepped
    exact before
  | stop =>
    cases stepped
    rfl

theorem shutdown_runs (ran : machine.runs events session = some after) (open_ : after.shutdown = false) : session.shutdown = false := by
  by_contra before
  have closed : after.shutdown = true := Machine.runs_keeps (fun _ _ _ before stepped => shutdown_stays stepped before)
    (Bool.not_eq_false _ ▸ before) ran
  rw [open_] at closed
  cases closed

/-- Nothing but a shutdown stops it. -/
theorem Astray.stepped (astray : Astray session) (stepped : machine.step event session = some after) (running : after.shutdown = false) :
    Wrong after.data ∨ Astray after := by
  have busy : session.phase ≠ .stopped := by
    rcases astray.phase with phase | phase
    all_goals
      rw [phase]
      exact Phase.noConfusion
  cases event with
  | queue message =>
    rcases queue_eq stepped with ⟨_, rfl⟩ | ⟨stopped, _⟩
    · exact .inr astray
    · exact absurd stopped busy
  | refreshNymbox =>
    rcases refreshNymbox_eq stepped with ⟨_, rfl⟩ | ⟨stopped, _⟩
    · exact .inr astray
    · exact absurd stopped busy
  | round outside =>
    obtain ⟨_, rfl⟩ := round_eq stepped
    exact (stateMachine_adrift (astray.adrift.work outside)).imp_right fun both => ⟨.inr (congrArg Phase.returned both.2), both.1⟩
  | check =>
    obtain ⟨again, phase, rfl⟩ := check_eq stepped
    have more : again = true := by
      rcases astray.phase with ready | returned
      · rw [phase] at ready
        cases ready
      · rw [phase] at returned
        exact Phase.returned.inj returned
    change session.shutdown = false at running
    refine .inr ⟨.inl ?_, astray.adrift⟩
    show (if session.shutdown then _ else if again then _ else _) = Phase.ready
    rw [running, more]
    rfl
  | stop =>
    cases stepped
    cases running

theorem StaysRight.tail (stays : StaysRight (event :: events) session) (stepped : machine.step event session = some after) :
    Right after ∧ StaysRight events after := by
  have one (later : List Event) : machine.runs (event :: later) session = machine.runs later after := by
    show (machine.step event session).bind (machine.runs later) = machine.runs later after
    rw [stepped]
    rfl
  constructor
  · exact stays [event] (List.prefix_append [event] events) after (one [])
  · exact fun first shorter last ran => stays (event :: first) ((List.prefix_cons_inj event).mpr shorter) last ((one first).trans ran)

/-- Without a shutdown such a request never comes to a right end. -/
theorem Astray.runs (events : List Event) : ∀ {session last : Session}, Astray session → StaysRight events session →
    machine.runs events session = some last → last.shutdown = false → Astray last := by
  induction events with
  | nil =>
    intro session last astray _ ran _
    cases ran
    exact astray
  | cons event events ih =>
    intro session last astray stays ran running
    obtain ⟨next, stepped, rest⟩ := Option.bind_eq_some_iff.mp ran
    obtain ⟨right, later⟩ := stays.tail stepped
    rcases astray.stepped stepped (shutdown_runs rest running) with wrong | again
    · exact absurd right wrong.not_right
    · exact ih again later rest running

/-- A round that brings the answer leaves the request astray. -/
theorem astray_of_answered (answered : ¬Unanswered event session)
    (stepped : machine.step event session = some after) : Wrong after.data ∨ Astray after := by
  cases event with
  | round outside =>
    obtain ⟨state, answers⟩ := Classical.not_imp.mp answered
    obtain ⟨phase, rfl⟩ := round_eq stepped
    obtain ⟨loaded, verified, filled, adrift⟩ := resolveOutcomes_adrift state (Bool.not_eq_false _ ▸ answers)
    have worked : work session.data outside = needProcessNymbox session.data outside.nymbox := by
      unfold work
      rw [state]
    have either := needProcessNymbox_adrift loaded verified adrift filled
    rw [← worked] at either
    exact (stateMachine_adrift either).imp_right fun both => ⟨.inr (congrArg Phase.returned both.2), both.1⟩
  | queue _ | refreshNymbox | check | stop => exact absurd trivial answered

theorem unanswered_of_staysRight (events : List Event) : ∀ {session last : Session}, Sound session → StaysRight events session →
    machine.runs events session = some last → last.phase = .stopped → last.shutdown = false →
      machine.Allows Unanswered events session := by
  induction events with
  | nil => exact fun _ _ _ _ _ => trivial
  | cons event events ih =>
    intro session last sound stays ran stopped running
    obtain ⟨next, stepped, rest⟩ := Option.bind_eq_some_iff.mp ran
    obtain ⟨right, later⟩ := stays.tail stepped
    by_cases unanswered : Unanswered event session
    · refine ⟨unanswered, fun other same => ?_⟩
      cases stepped.symm.trans same
      exact ih (sound.stepped unanswered stepped) later rest stopped running
    · exfalso
      rcases astray_of_answered unanswered stepped with wrong | astray
      · exact wrong.not_right right
      · rcases (astray.runs events later rest running).phase with phase | phase
        · rw [stopped] at phase
          cases phase
        · rw [stopped] at phase
          cases phase

/-- A run in which no nymbox brings the answer to the pending message is right all along, and a run
that ends without a shutdown is right only then. -/
theorem staysRight_of_run (events : List Event) : (machine.Allows Unanswered events {} → StaysRight events {}) ∧
    ∀ last, machine.runs events {} = some last → last.phase = .stopped → last.shutdown = false →
      StaysRight events {} → machine.Allows Unanswered events {} :=
  ⟨staysRight_of_unanswered, fun _ ran stopped running stays => unanswered_of_staysRight events sound_begin stays ran stopped running⟩

def transfer : Message := ⟨.other, 7, false⟩

def reply (status : SendResult) (success : Bool) : Answer := { first := ⟨status, ⟨.other, 7, success⟩⟩ }

/-- One thing comes back for whatever is sent, and the nymbox has these items. -/
def outside (answer : Answer) (transactions : List Transaction) : Outside :=
  ⟨answer, { items := transactions.map fun _ => ⟨5, true, true, answer⟩ }, { transactions, answer, again := answer }⟩

/-- The notice of the reply to the message. -/
def notice : Transaction := { type := .replyNotice, reply := some ⟨.other, 7, true⟩ }

/-- The reply to the message is lost, and found in the nymbox as a notice. -/
def foundInNymbox : List Event :=
  [.queue transfer, .round (outside (reply .timeout false) [notice]), .check, .round (outside (reply .validReply true) [notice]), .check,
    .round (outside (reply .validReply true) [notice]), .check, .round (outside (reply .validReply true) [notice])]

/-- The promise is fulfilled, and the machine goes on to send a message that is not there. -/
theorem found_in_nymbox_wrong : ¬StaysRight foundInNymbox {} ∧ ∃ last ∈ machine.runs foundInNymbox {},
    last.data.state = .pendingSend ∧ last.data.pendingMessage = none ∧ last.phase = .returned true := by
  have reached : ∃ last ∈ machine.runs foundInNymbox {},
      last.data.state = .pendingSend ∧ last.data.pendingMessage = none ∧ last.phase = .returned true := by
    decide +kernel
  refine ⟨fun stays => ?_, reached⟩
  obtain ⟨last, ran, state, absent, _⟩ := reached
  exact (stays foundInNymbox List.prefix_rfl last ran).sends state absent

/-- The message did not arrive, and is sent again. -/
def sentAgain : List Event :=
  [.queue transfer, .round (outside (reply .timeout false) []), .check, .round (outside (reply .validReply true) []), .check,
    .round (outside (reply .validReply true) []), .check, .round (outside (reply .validReply true) []), .check,
    .round (outside (reply .validReply true) []), .check]

theorem sent_again_right : StaysRight sentAgain {} := (staysRight_of_run sentAgain).1 (by decide +kernel)

end Opentxs.Consensus.Resolving
