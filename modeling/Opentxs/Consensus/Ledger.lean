import Mathlib.Data.Finset.Lattice.Lemmas
import Opentxs.Consensus.Numbers
import Opentxs.Library.Machine

/-! The numbers of a client over whole runs: notices and statements in any order, some of them
replayed, and the numbers that are taken, given back and used up. -/

namespace Opentxs.Consensus.Ledger
open Library Numbers

/-- The numbers that managed numbers hold go along, and those that were issued and used up. -/
structure Session where
  data : Data := {}
  live : List Int := []
  consumed : Finset Int := ∅
  deriving DecidableEq

inductive Event
  | blankNotice (numbers : Finset Int)
  | successNotice (numbers : Finset Int)
  | acceptIssuedNumbers (issued : Finset Int)
  | nextTransactionNumber (processInbox : Bool)
  | destroy (number : Int) (success : Bool)
  | consumeAvailable (number : Int)
  | consumeIssued (number : Int)

/-- A number of zero is not managed. -/
def manage (session : Session) (next : Data × Int) : Session :=
  { session with data := next.1, live := if next.2 = 0 then session.live else next.2 :: session.live }

/-- What the destructor of a managed number does with it. -/
def release (data : Data) (number : Int) (success : Bool) : Data :=
  if success then data else (recoverAvailableNumber data number).1

/-- Only a number that is held can be destroyed. -/
def step : Event → Session → Option Session
  | .blankNotice numbers, session => some { session with data := blankNotice session.data numbers }
  | .successNotice numbers, session => some { session with data := successNotice session.data numbers }
  | .acceptIssuedNumbers issued, session => some { session with data := (acceptIssuedNumbers session.data issued).1 }
  | .nextTransactionNumber processInbox, session => some (manage session (nextTransactionNumber session.data processInbox))
  | .destroy number success, session =>
    if number ∈ session.live then
      some { session with data := release session.data number success, live := session.live.erase number }
    else none
  | .consumeAvailable number, session => some { session with data := (consumeAvailable session.data number).1 }
  | .consumeIssued number, session =>
    some { session with
      data := (consumeIssued session.data number).1
      consumed := if (consumeIssued session.data number).2 then insert number session.consumed else session.consumed }

def machine : Machine Session Event := ⟨step⟩

/-! ## What should hold -/

structure Right (session : Session) : Prop where
  liable : session.data.availableTransactionNumbers ⊆ session.data.issuedTransactionNumbers
  apart : Disjoint session.data.availableTransactionNumbers session.data.tentativeTransactionNumbers
  once : session.live.Nodup
  gone : ∀ number ∈ session.consumed, number ∉ session.data.tentativeTransactionNumbers ∧
    number ∉ session.data.issuedTransactionNumbers ∧ number ∉ session.data.availableTransactionNumbers

/-- All along a run the sets are right, and the highest number never decreases. -/
def StaysRight (events : List Event) (session : Session) : Prop :=
  ∀ first second, first <+: second → second <+: events → ∀ early late,
    machine.runs first session = some early → machine.runs second session = some late →
      Right late ∧ early.data.highestTransactionNumber ≤ late.data.highestTransactionNumber

/-- A blank notice lists no number that has been used up, unless the highest number tells. -/
def Fresh : Event → Session → Prop
  | .blankNotice numbers, session => ∀ number ∈ numbers, number ∈ session.consumed → number ≤ session.data.highestTransactionNumber
  | _, _ => True

/-! ## The invariant -/

/-- A number that is held was issued, and is not available while it is held. -/
structure Sound (session : Session) : Prop where
  liable : ∀ number ∈ session.data.availableTransactionNumbers, number ∈ session.data.issuedTransactionNumbers
  promised : ∀ number ∈ session.data.tentativeTransactionNumbers, number ∉ session.data.issuedTransactionNumbers
  once : session.live.Nodup
  held : ∀ number ∈ session.live, number ∉ session.data.availableTransactionNumbers ∧
    (number ∈ session.data.issuedTransactionNumbers ∨ number ∈ session.consumed)
  gone : ∀ number ∈ session.consumed, number ∉ session.data.tentativeTransactionNumbers ∧
    number ∉ session.data.issuedTransactionNumbers

variable {session after : Session} {event : Event} {events : List Event}

theorem Sound.right (sound : Sound session) : Right session where
  liable := sound.liable
  apart := by
    rw [Finset.disjoint_left]
    exact fun number available tentative => sound.promised number tentative (sound.liable number available)
  once := sound.once
  gone := fun number consumed => ⟨(sound.gone number consumed).1, (sound.gone number consumed).2,
    fun available => (sound.gone number consumed).2 (sound.liable number available)⟩

theorem sound_begin : Sound {} where
  liable := fun _ inside => absurd inside (Finset.notMem_empty _)
  promised := fun _ inside => absurd inside (Finset.notMem_empty _)
  once := List.nodup_nil
  held := fun _ inside => absurd inside List.not_mem_nil
  gone := fun _ inside => absurd inside (Finset.notMem_empty _)

/-- Promised numbers that are issued are neither held nor used up. -/
theorem Sound.issues (sound : Sound session) {accepted : Int → Prop} {data : Data} (issues : Issues accepted session.data data)
    (promised : ∀ number, accepted number → number ∈ session.data.tentativeTransactionNumbers) : Sound { session with data } where
  liable := by
    intro number available
    rw [issues.issued]
    exact ((issues.available number).mp available).imp_left (sound.liable number)
  promised := by
    intro number tentative issued
    obtain ⟨before, fresh⟩ := (issues.tentative number).mp tentative
    exact ((issues.issued number).mp issued).elim (sound.promised number before) fresh
  once := sound.once
  held := by
    intro number live
    obtain ⟨taken, known⟩ := sound.held number live
    refine ⟨fun available => ?_, known.imp_left fun issued => (issues.issued number).mpr (.inl issued)⟩
    rcases (issues.available number).mp available with before | accepted
    · exact taken before
    · have tentative := promised number accepted
      exact known.elim (sound.promised number tentative) fun consumed => (sound.gone number consumed).1 tentative
  gone := by
    intro number consumed
    obtain ⟨tentative, issued⟩ := sound.gone number consumed
    refine ⟨fun inside => tentative ((issues.tentative number).mp inside).1, fun inside => ?_⟩
    exact ((issues.issued number).mp inside).elim issued fun accepted => tentative (promised number accepted)

theorem Sound.blankNotice (sound : Sound session) {numbers : Finset Int} (fresh : Fresh (.blankNotice numbers) session) :
    Sound { session with data := Numbers.blankNotice session.data numbers } := by
  rw [blankNotice_tentative]
  refine ⟨sound.liable, fun number tentative => ?_, sound.once, sound.held, fun number consumed => ?_⟩
  · exact (Finset.mem_union.mp tentative).elim (sound.promised number) fun added => (mem_verifyBlank.mp added).2.1
  · obtain ⟨tentative, issued⟩ := sound.gone number consumed
    refine ⟨fun inside => ?_, issued⟩
    rcases Finset.mem_union.mp inside with before | added
    · exact tentative before
    · obtain ⟨listed, _, _, above⟩ := mem_verifyBlank.mp added
      exact absurd (fresh number listed consumed) (not_le.mpr above)

/-- A number is taken only from the available ones. -/
theorem nextTransactionNumber_cases (data : Data) (processInbox : Bool) :
    nextTransactionNumber data processInbox = (data, 0) ∨ ∃ number ∈ data.availableTransactionNumbers,
      nextTransactionNumber data processInbox =
        ({ data with availableTransactionNumbers := data.availableTransactionNumbers.erase number }, number) := by
  by_cases few : data.availableTransactionNumbers.card ≤ (if processInbox then 0 else 1)
  · exact .inl (if_pos few)
  · have filled : data.availableTransactionNumbers.Nonempty := Finset.card_pos.mp (by omega)
    have first : data.availableTransactionNumbers.min.untopD 0 = data.availableTransactionNumbers.min' filled := by
      rw [← Finset.coe_min' filled]
      rfl
    refine .inr ⟨_, Finset.min'_mem _ filled, ?_⟩
    rw [← first]
    exact if_neg few

theorem Sound.nextTransactionNumber (sound : Sound session) (processInbox : Bool) :
    Sound (manage session (Numbers.nextTransactionNumber session.data processInbox)) := by
  rcases nextTransactionNumber_cases session.data processInbox with none | ⟨number, available, taken⟩
  · rw [none]
    exact sound
  · rw [taken]
    have issued := sound.liable number available
    have free : number ∉ session.live := fun live => (sound.held number live).1 available
    refine ⟨fun other inside => sound.liable other (Finset.mem_of_mem_erase inside), sound.promised, ?_, ?_, sound.gone⟩
    · unfold manage
      dsimp only
      split
      · exact sound.once
      · exact List.nodup_cons.mpr ⟨free, sound.once⟩
    · have before : ∀ other ∈ session.live, other ∉ session.data.availableTransactionNumbers.erase number ∧
          (other ∈ session.data.issuedTransactionNumbers ∨ other ∈ session.consumed) :=
        fun other live => ⟨fun inside => (sound.held other live).1 (Finset.mem_of_mem_erase inside), (sound.held other live).2⟩
      unfold manage
      dsimp only
      split
      · exact before
      · exact List.forall_mem_cons.mpr ⟨⟨Finset.notMem_erase number _, .inl issued⟩, before⟩

theorem Sound.destroy (sound : Sound session) (number : Int) (success : Bool) :
    Sound { session with data := release session.data number success, live := session.live.erase number } := by
  have rest : ∀ other ∈ session.live.erase number, other ∈ session.live ∧ other ≠ number :=
    fun other inside => ⟨List.mem_of_mem_erase inside, (sound.once.mem_erase_iff.mp inside).1⟩
  have kept : Sound { session with live := session.live.erase number } :=
    ⟨sound.liable, sound.promised, sound.once.erase number, fun other inside => sound.held other (rest other inside).1, sound.gone⟩
  unfold release
  cases success with
  | true => exact kept
  | false =>
    rw [if_neg Bool.false_ne_true]
    unfold recoverAvailableNumber
    split
    · exact kept
    · split
      · exact kept
      · next issued =>
        refine ⟨fun other inside => ?_, sound.promised, kept.once, fun other inside => ?_, sound.gone⟩
        · exact (Finset.mem_insert.mp inside).elim (fun same => by rw [same]; exact not_not.mp issued) (sound.liable other)
        · obtain ⟨before, other_one⟩ := rest other inside
          obtain ⟨taken, known⟩ := sound.held other before
          exact ⟨fun available => (Finset.mem_insert.mp available).elim other_one taken, known⟩

theorem Sound.consumeAvailable (sound : Sound session) (number : Int) :
    Sound { session with data := (Numbers.consumeAvailable session.data number).1 } where
  liable := fun other inside => sound.liable other (Finset.mem_of_mem_erase inside)
  promised := sound.promised
  once := sound.once
  held := fun other live => ⟨fun inside => (sound.held other live).1 (Finset.mem_of_mem_erase inside), (sound.held other live).2⟩
  gone := sound.gone

theorem Sound.consumeIssued (sound : Sound session) (number : Int) :
    Sound { session with
      data := (Numbers.consumeIssued session.data number).1
      consumed := if (Numbers.consumeIssued session.data number).2 then insert number session.consumed else session.consumed } := by
  have known (other : Int) : other ∈ (if (Numbers.consumeIssued session.data number).2 then insert number session.consumed else session.consumed) ↔
      other ∈ session.consumed ∨ other = number ∧ number ∈ session.data.issuedTransactionNumbers := by
    unfold Numbers.consumeIssued
    dsimp only
    split
    · next issued => rw [Finset.mem_insert, or_comm, and_iff_left (of_decide_eq_true issued)]
    · next absent => rw [or_iff_left fun both => absent (decide_eq_true both.2)]
  refine ⟨?_, ?_, sound.once, ?_, ?_⟩
  · intro other available
    obtain ⟨different, before⟩ := Finset.mem_erase.mp available
    exact Finset.mem_erase.mpr ⟨different, sound.liable other before⟩
  · exact fun other tentative issued => sound.promised other tentative (Finset.mem_of_mem_erase issued)
  · intro other live
    obtain ⟨taken, before⟩ := sound.held other live
    refine ⟨fun available => taken (Finset.mem_of_mem_erase available), ?_⟩
    rw [known]
    by_cases same : other = number
    · subst same
      exact .inr (before.elim (fun issued => .inr ⟨rfl, issued⟩) .inl)
    · exact before.imp (fun issued => Finset.mem_erase.mpr ⟨same, issued⟩) .inl
  · intro other consumed
    rcases (known other).mp consumed with before | ⟨rfl, issued⟩
    · obtain ⟨tentative, absent⟩ := sound.gone other before
      exact ⟨tentative, fun inside => absent (Finset.mem_of_mem_erase inside)⟩
    · exact ⟨fun tentative => sound.promised other tentative issued, Finset.notMem_erase other _⟩

/-- One step keeps the invariant, unless a notice brings back a number that was used up. -/
theorem Sound.stepped (sound : Sound session) (fresh : Fresh event session) (stepped : machine.step event session = some after) :
    Sound after := by
  cases event with
  | blankNotice numbers =>
    cases stepped
    exact sound.blankNotice fresh
  | successNotice numbers =>
    cases stepped
    exact sound.issues (successNotice_issues session.data numbers) fun _ => And.right
  | acceptIssuedNumbers issued =>
    cases stepped
    exact sound.issues (acceptIssuedNumbers_issues session.data issued).1 fun _ brings => brings.2.1
  | nextTransactionNumber processInbox =>
    cases stepped
    exact sound.nextTransactionNumber processInbox
  | destroy number success =>
    obtain ⟨_, same⟩ := Option.ite_none_right_eq_some.mp stepped
    cases same
    exact sound.destroy number success
  | consumeAvailable number =>
    cases stepped
    exact sound.consumeAvailable number
  | consumeIssued number =>
    cases stepped
    exact sound.consumeIssued number

theorem release_highest (data : Data) (number : Int) (success : Bool) :
    (release data number success).highestTransactionNumber = data.highestTransactionNumber := by
  unfold release recoverAvailableNumber
  split
  · rfl
  · split
    · rfl
    · split
      · rfl
      · rfl

/-- No step lowers the highest number. -/
theorem highest_le (stepped : machine.step event session = some after) :
    session.data.highestTransactionNumber ≤ after.data.highestTransactionNumber := by
  cases event with
  | blankNotice numbers =>
    cases stepped
    rw [blankNotice_tentative]
  | successNotice numbers =>
    cases stepped
    exact (successNotice_highest session.data numbers).ge
  | acceptIssuedNumbers issued =>
    cases stepped
    exact acceptIssuedNumbers_ge session.data issued
  | nextTransactionNumber processInbox =>
    cases stepped
    rcases nextTransactionNumber_cases session.data processInbox with none | ⟨_, _, taken⟩
    · exact (congrArg (fun next : Data × Int => next.1.highestTransactionNumber) none).ge
    · exact (congrArg (fun next : Data × Int => next.1.highestTransactionNumber) taken).ge
  | destroy number success =>
    obtain ⟨_, same⟩ := Option.ite_none_right_eq_some.mp stepped
    cases same
    exact (release_highest session.data number success).ge
  | consumeAvailable number =>
    cases stepped
    rfl
  | consumeIssued number =>
    cases stepped
    rfl

/-! ## Runs -/

theorem Sound.runs (sound : Sound session) (fresh : machine.Allows Fresh events session) (ran : machine.runs events session = some after) :
    Sound after :=
  (Machine.run_of_runs fresh ran).keeps sound fun _ _ _ kept fresh stepped => kept.stepped fresh stepped

theorem highest_le_runs (ran : machine.runs events session = some after) :
    session.data.highestTransactionNumber ≤ after.data.highestTransactionNumber :=
  @Machine.runs_keeps _ _ _ (fun state : Session => session.data.highestTransactionNumber ≤ state.data.highestTransactionNumber)
    (fun _ _ _ before stepped => before.trans (highest_le stepped)) _ _ _ le_rfl ran

/-- A notice that brings back a number that was used up makes it a promised one. -/
theorem fresh_of_right (sound : Sound session) (right : ∀ after, machine.step event session = some after → Right after) :
    Fresh event session := by
  cases event with
  | blankNotice numbers =>
    intro number listed consumed
    by_contra above
    obtain ⟨tentative, issued⟩ := sound.gone number consumed
    obtain ⟨absent, _⟩ := (right _ rfl).gone number consumed
    apply absent
    show number ∈ (blankNotice session.data numbers).tentativeTransactionNumbers
    rw [blankNotice_tentative]
    exact Finset.mem_union_right _ (mem_verifyBlank.mpr ⟨listed, issued, tentative, not_le.mp above⟩)
  | successNotice _ | acceptIssuedNumbers _ | nextTransactionNumber _ | destroy _ _ | consumeAvailable _ | consumeIssued _ => trivial

theorem allows_of_staysRight (events : List Event) : ∀ {session : Session}, Sound session → StaysRight events session →
    machine.Allows Fresh events session := by
  induction events with
  | nil => exact fun _ _ => trivial
  | cons event events ih =>
    intro session sound stays
    have fresh : Fresh event session := by
      apply fresh_of_right sound
      intro after stepped
      have ran : machine.runs [event] session = some after := by
        show (machine.step event session).bind (machine.runs []) = some after
        rw [stepped]
        rfl
      exact (stays [] [event] List.nil_prefix (List.prefix_append [event] events) session after rfl ran).1
    refine ⟨fresh, fun next stepped => ih (sound.stepped fresh stepped) ?_⟩
    intro first second shorter short early late ran longer
    have one (events : List Event) : machine.runs (event :: events) session = machine.runs events next := by
      show (machine.step event session).bind (machine.runs events) = machine.runs events next
      rw [show machine.step event session = some next from stepped]
      rfl
    exact stays (event :: first) (event :: second) ((List.prefix_cons_inj event).mpr shorter) ((List.prefix_cons_inj event).mpr short)
      early late ((one first).trans ran) ((one second).trans longer)

/-- The ledger of a client stays right along a run exactly if no blank notice brings back a number
that has been used up and that the highest number does not rule out. -/
theorem staysRight_iff (events : List Event) : StaysRight events {} ↔ machine.Allows Fresh events {} := by
  constructor
  · exact allows_of_staysRight events sound_begin
  · intro fresh first second shorter short early late ran longer
    refine ⟨(sound_begin.runs (Machine.allows_prefix short fresh) longer).right, ?_⟩
    obtain ⟨rest, rfl⟩ := shorter
    rw [Machine.runs_append, ran] at longer
    exact highest_le_runs longer

/-- Numbers 5 and 6 are promised and issued by notices, which leave the highest number at zero. -/
def replayed : List Event :=
  [.blankNotice {5, 6}, .successNotice {5, 6}, .nextTransactionNumber true, .consumeIssued 5, .blankNotice {5, 6}, .successNotice {5, 6},
    .nextTransactionNumber true]

/-- After number 5 was used up the same notices bring it back, and two managed numbers hold it. -/
theorem replayed_number_returns : ¬StaysRight replayed {} ∧ ∃ last ∈ machine.runs replayed {},
    last.live = [5, 5] ∧ 5 ∈ last.consumed ∧ 5 ∈ last.data.issuedTransactionNumbers ∧ last.data.highestTransactionNumber = 0 := by
  have reached : ∃ last ∈ machine.runs replayed {},
      last.live = [5, 5] ∧ 5 ∈ last.consumed ∧ 5 ∈ last.data.issuedTransactionNumbers ∧ last.data.highestTransactionNumber = 0 := by
    decide +kernel
  refine ⟨fun stays => ?_, reached⟩
  obtain ⟨last, ran, live, _⟩ := reached
  have once := (stays [] replayed List.nil_prefix List.prefix_rfl {} last rfl ran).1.once
  rw [live] at once
  exact absurd once (by decide)

end Opentxs.Consensus.Ledger
