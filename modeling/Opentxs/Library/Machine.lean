import Mathlib.Data.List.Basic

/-! Systems that go from state to state, one event at a time, and what holds in every
state that a run can reach. -/

namespace Opentxs.Library

/-- In a state where an event cannot happen it has no next state. -/
structure Machine (σ ε : Type) where
  step : ε → σ → Option σ

namespace Machine

variable {σ ε : Type} {machine : Machine σ ε} {may stricter : ε → σ → Prop} {start state : σ}

/-- A run in which every event meets a condition in the state where it happens. -/
inductive Run (machine : Machine σ ε) (may : ε → σ → Prop) (start : σ) : σ → Prop
  | start : Run machine may start start
  | step {before after : σ} (event : ε) (run : Run machine may start before) (allowed : may event before)
      (stepped : machine.step event before = some after) : Run machine may start after

/-- What holds at the start and is kept by each step holds all along. -/
theorem Run.keeps {holds : σ → Prop} (run : Run machine may start state) (first : holds start)
    (each : ∀ event before after, holds before → may event before → machine.step event before = some after → holds after) :
    holds state := by
  induction run with
  | start => exact first
  | step event _ allowed stepped ih => exact each event _ _ ih allowed stepped

/-- The state after a list of events, if each of them can happen. -/
def runs (machine : Machine σ ε) (events : List ε) (start : σ) : Option σ :=
  events.foldlM (fun state event => machine.step event state) start

/-- Every event of a list can happen in its turn and meets the condition there. -/
def Allows (machine : Machine σ ε) (may : ε → σ → Prop) : List ε → σ → Prop
  | [], _ => True
  | event :: events, state => may event state ∧ ∀ next ∈ machine.step event state, machine.Allows may events next

instance decidableAllows [∀ event state, Decidable (may event state)] (events : List ε) :
    ∀ start, Decidable (machine.Allows may events start) := by
  induction events with
  | nil => exact fun _ => isTrue trivial
  | cons event events ih => exact fun start => instDecidableAnd

theorem allows_of_each (events : List ε) : ∀ start, (∀ event ∈ events, ∀ state, may event state) → machine.Allows may events start := by
  induction events with
  | nil => exact fun _ _ => trivial
  | cons event events ih =>
    exact fun start each => ⟨each event List.mem_cons_self start,
      fun next _ => ih next fun later member => each later (List.mem_cons_of_mem event member)⟩

theorem allows_of_always (always : ∀ event state, may event state) (events : List ε) (start : σ) : machine.Allows may events start :=
  allows_of_each events start fun event _ => always event

theorem allows_and {first second : ε → σ → Prop} {events : List ε} : ∀ {start : σ}, machine.Allows first events start →
    machine.Allows second events start → machine.Allows (fun event state => first event state ∧ second event state) events start := by
  induction events with
  | nil => exact fun _ _ => trivial
  | cons event events ih =>
    exact fun left right => ⟨⟨left.1, right.1⟩, fun next stepped => ih (left.2 next stepped) (right.2 next stepped)⟩

/-- Two conditions that agree in every state that a run can reach allow the same runs. -/
theorem allows_iff {first second : ε → σ → Prop} {holds : σ → Prop}
    (agree : ∀ event state, holds state → may event state → (first event state ↔ second event state))
    (keeps : ∀ event before after, holds before → may event before → machine.step event before = some after → holds after)
    (events : List ε) : ∀ start, holds start → machine.Allows may events start →
      (machine.Allows first events start ↔ machine.Allows second events start) := by
  induction events with
  | nil => exact fun _ _ _ => Iff.rfl
  | cons event events ih =>
    intro start now allowed
    refine and_congr (agree event start now allowed.1) ?_
    refine forall_congr' fun next => forall_congr' fun stepped => ?_
    exact ih next (keeps event start next now allowed.1 stepped) (allowed.2 next stepped)

theorem run_of_runs {events : List ε} : ∀ {start state : σ}, machine.Allows may events start →
    machine.runs events start = some state → Run machine may start state := by
  have extend : ∀ (events : List ε) (first start state : σ), Run machine may first start → machine.Allows may events start →
      machine.runs events start = some state → Run machine may first state := by
    intro events
    induction events with
    | nil =>
      intro first start state run _ ran
      cases ran
      exact run
    | cons event events ih =>
      intro first start state run allowed ran
      obtain ⟨next, stepped, rest⟩ := Option.bind_eq_some_iff.mp ran
      exact ih first next state (.step event run allowed.1 stepped) (allowed.2 next stepped) rest
  intro start state
  exact extend events start start state .start

theorem runs_append (first second : List ε) (start : σ) :
    machine.runs (first ++ second) start = (machine.runs first start).bind (machine.runs second) := List.foldlM_append

theorem allows_prefix {first second : List ε} (shorter : first <+: second) :
    ∀ {start : σ}, machine.Allows may second start → machine.Allows may first start := by
  induction first generalizing second with
  | nil => exact fun _ => trivial
  | cons event first ih =>
    intro start allowed
    obtain ⟨rest, rfl⟩ := shorter
    exact ⟨allowed.1, fun next stepped => ih (List.prefix_append first rest) (allowed.2 next stepped)⟩

/-- What every step keeps holds after any list of events. -/
theorem runs_keeps {holds : σ → Prop} (each : ∀ event before after, holds before → machine.step event before = some after → holds after)
    {events : List ε} {start state : σ} (first : holds start) (ran : machine.runs events start = some state) : holds state :=
  have run : Run machine (fun _ _ => True) start state := run_of_runs (allows_of_always (fun _ _ => trivial) events start) ran
  run.keeps first fun event before after kept _ => each event before after kept

/-- A condition that an event meets wherever a run can come to it. -/
theorem allows_of_reached (events : List ε) : ∀ start, (∀ before event rest state, events = before ++ event :: rest →
    machine.runs before start = some state → may event state) → machine.Allows may events start := by
  induction events with
  | nil => exact fun _ _ => trivial
  | cons event events ih =>
    intro start each
    refine ⟨each [] event events start rfl rfl, fun next stepped => ih next ?_⟩
    intro before later rest state split ran
    refine each (event :: before) later rest state (split ▸ rfl) ?_
    show (machine.step event start).bind (machine.runs before) = some state
    rw [stepped]
    exact ran

/-- Where every event that meets the condition can happen and keeps what holds, the runs that meet it go
through. A record of the events goes along. -/
theorem runs_recorded {γ : Type} {record : γ → ε → γ} {holds : γ → σ → Prop}
    (each : ∀ event past state, holds past state → may event state →
      ∃ next, machine.step event state = some next ∧ holds (record past event) next) (events : List ε) :
    ∀ past start, holds past start → machine.Allows may events start →
      ∃ state, machine.runs events start = some state ∧ holds (events.foldl record past) state := by
  induction events with
  | nil => exact fun past start first _ => ⟨start, rfl, first⟩
  | cons event events ih =>
    intro past start first allowed
    obtain ⟨next, stepped, kept⟩ := each event past start first allowed.1
    obtain ⟨state, ran, last⟩ := ih (record past event) next kept (allowed.2 next stepped)
    refine ⟨state, ?_, last⟩
    show (machine.step event start).bind (machine.runs events) = some state
    rw [stepped]
    exact ran

theorem runs_allowed {holds : σ → Prop}
    (each : ∀ event state, holds state → may event state → ∃ next, machine.step event state = some next ∧ holds next) (events : List ε)
    (start : σ) (first : holds start) (allowed : machine.Allows may events start) :
    ∃ state, machine.runs events start = some state ∧ holds state :=
  @runs_recorded σ ε machine may Unit (fun _ _ => ()) (fun _ => holds) (fun event _ => each event) events () start first allowed

/-- Where every event can happen and keeps what holds, every list of events runs through. -/
theorem runs_total {γ : Type} {record : γ → ε → γ} {holds : γ → σ → Prop}
    (each : ∀ event past state, holds past state →
      ∃ next, machine.step event state = some next ∧ holds (record past event) next) (events : List ε) (past : γ) (start : σ)
    (first : holds past start) : ∃ state, machine.runs events start = some state ∧ holds (events.foldl record past) state :=
  runs_recorded (fun event past state now _ => each event past state now) events past start first
    (allows_of_always (fun _ _ => trivial) events start)

/-- Where each event can happen and leads from a state that is right to one that is right exactly if it meets
the condition, a run goes through and stays right exactly if all its events do. -/
theorem goes_along_iff {ordered : ε → σ → Prop} {sound right : σ → Prop}
    (keeps : ∀ event before after, sound before → ordered event before → machine.step event before = some after → sound after)
    (each : ∀ event before, sound before → right before → ordered event before →
      ((∃ after, machine.step event before = some after ∧ right after) ↔ may event before)) (events : List ε) :
    ∀ start, sound start → right start → machine.Allows ordered events start →
      ((∀ before, before <+: events → ∃ state, machine.runs before start = some state ∧ right state) ↔ machine.Allows may events start) := by
  induction events with
  | nil =>
    intro start _ first _
    refine iff_of_true (fun before shorter => ?_) trivial
    obtain rfl := List.prefix_nil.mp shorter
    exact ⟨start, rfl, first⟩
  | cons event events ih =>
    intro start now first inOrder
    have on {next : σ} (stepped : machine.step event start = some next) (later : List ε) :
        machine.runs (event :: later) start = machine.runs later next := by
      show (machine.step event start).bind (machine.runs later) = _
      rw [stepped]
      rfl
    have step := each event start now first inOrder.1
    constructor
    · intro all
      obtain ⟨next, ran, after⟩ := all [event] ⟨events, rfl⟩
      have stepped : machine.step event start = some next := by
        cases one : machine.step event start with
        | none =>
          change (machine.step event start).bind (machine.runs []) = _ at ran
          rw [one] at ran
          cases ran
        | some other => exact (on one []).symm.trans ran
      refine ⟨step.mp ⟨next, stepped, after⟩, fun other same => ?_⟩
      obtain rfl : next = other := Option.some.inj (stepped.symm.trans same)
      refine (ih next (keeps event start next now inOrder.1 stepped) after (inOrder.2 next stepped)).mp fun before shorter => ?_
      obtain ⟨state, ran, last⟩ := all (event :: before) (List.cons_prefix_cons.mpr ⟨rfl, shorter⟩)
      exact ⟨state, (on stepped before).symm.trans ran, last⟩
    · rintro ⟨meets, allowed⟩ before shorter
      obtain ⟨next, stepped, after⟩ := step.mpr meets
      cases before with
      | nil => exact ⟨start, rfl, first⟩
      | cons other before =>
        obtain ⟨rfl, less⟩ := List.cons_prefix_cons.mp shorter
        obtain ⟨state, ran, last⟩ :=
          (ih next (keeps other start next now inOrder.1 stepped) after (inOrder.2 next stepped)).mpr (allowed next stepped) before less
        exact ⟨state, (on stepped before).trans ran, last⟩

/-- Where every event can happen, only what is right is to be kept. -/
theorem right_along_iff {ordered : ε → σ → Prop} {sound right : σ → Prop}
    (total : ∀ event state, ∃ next, machine.step event state = some next)
    (keeps : ∀ event before after, sound before → ordered event before → machine.step event before = some after → sound after)
    (each : ∀ event before after, sound before → right before → ordered event before → machine.step event before = some after →
      (right after ↔ may event before)) :
    ∀ events start, sound start → right start → machine.Allows ordered events start →
      ((∀ before, before <+: events → ∃ state, machine.runs before start = some state ∧ right state) ↔ machine.Allows may events start) := by
  apply goes_along_iff keeps
  intro event before now first inOrder
  obtain ⟨next, stepped⟩ := total event before
  constructor
  · rintro ⟨after, stepped, last⟩
    exact (each event before after now first inOrder stepped).mp last
  · exact fun meets => ⟨next, stepped, (each event before next now first inOrder stepped).mpr meets⟩

end Machine

end Opentxs.Library
