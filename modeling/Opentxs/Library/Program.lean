import Mathlib.Data.List.Basic

/-! Programs on a state that may stop with a fault and then leave the state as it is, with
the rules for what holds after them. -/

namespace Opentxs.Library

/-- From a state, a result or a fault, and the state that is left. -/
def Program (σ ε α : Type) : Type := σ → Except ε α × σ

namespace Program

variable {σ ε α β : Type}

def bind (first : Program σ ε α) (rest : α → Program σ ε β) : Program σ ε β := fun start =>
  match first start with
  | (.ok value, next) => rest value next
  | (.error fault, next) => (.error fault, next)

instance : Monad (Program σ ε) where
  pure value := fun start => (.ok value, start)
  bind := bind

def throw (fault : ε) : Program σ ε α := fun start => (.error fault, start)

def get : Program σ ε σ := fun start => (.ok start, start)

def modify (change : σ → σ) : Program σ ε Unit := fun start => (.ok (), change start)

/-- A value that was computed without the state. -/
def lift (value : Except ε α) : Program σ ε α := fun start => (value, start)

def require (condition : Bool) (fault : ε) : Program σ ε Unit := if condition then pure () else throw fault

def onlyIf (condition : Prop) [Decidable condition] (program : Program σ ε Unit) : Program σ ε Unit :=
  if condition then program else pure ()

def forEach (step : α → Program σ ε Unit) : List α → Program σ ε Unit
  | [] => pure ()
  | item :: items => do
    step item
    forEach step items

/-- The handler goes on from the state that the fault has left. -/
def catching (program : Program σ ε α) (handler : ε → Program σ ε α) : Program σ ε α := fun start =>
  match program start with
  | (.ok value, next) => (.ok value, next)
  | (.error fault, next) => handler fault next

/-! ## What a program may change -/

/-- The program takes every state to one that is related to it, also when it stops with a fault. -/
def Relates (related : σ → σ → Prop) (program : Program σ ε α) : Prop := ∀ start, related start (program start).2

section Relates

variable {related : σ → σ → Prop}

theorem Relates.pure (refl : ∀ state, related state state) (value : α) :
    Relates related (Pure.pure value : Program σ ε α) := refl

theorem Relates.throw (refl : ∀ state, related state state) (fault : ε) :
    Relates related (Program.throw fault : Program σ ε α) := refl

theorem Relates.get (refl : ∀ state, related state state) : Relates related (Program.get : Program σ ε σ) := refl

theorem Relates.lift (refl : ∀ state, related state state) (value : Except ε α) :
    Relates related (Program.lift value : Program σ ε α) := refl

theorem Relates.modify {change : σ → σ} (changes : ∀ state, related state (change state)) :
    Relates related (Program.modify change : Program σ ε Unit) := changes

theorem Relates.require (refl : ∀ state, related state state) (condition : Bool) (fault : ε) :
    Relates related (Program.require condition fault : Program σ ε Unit) := by
  unfold Program.require
  split
  · exact Relates.pure refl ()
  · exact Relates.throw refl fault

theorem Relates.onlyIf (refl : ∀ state, related state state) {condition : Prop} [Decidable condition]
    {program : Program σ ε Unit} (inside : condition → Relates related program) :
    Relates related (Program.onlyIf condition program) := by
  unfold Program.onlyIf
  split
  · rename_i holds
    exact inside holds
  · exact Relates.pure refl ()

theorem Relates.bind (trans : ∀ first second third, related first second → related second third → related first third)
    {first : Program σ ε α} {rest : α → Program σ ε β} (before : Relates related first)
    (after : ∀ value, Relates related (rest value)) : Relates related (first >>= rest) := by
  intro start
  have next := before start
  show related start (Program.bind first rest start).2
  unfold Program.bind
  split
  · rename_i value state ran
    rw [ran] at next
    exact trans start state _ next (after value state)
  · rename_i fault state ran
    rw [ran] at next
    exact next

theorem Relates.forEach (refl : ∀ state, related state state)
    (trans : ∀ first second third, related first second → related second third → related first third)
    {step : α → Program σ ε Unit} (items : List α) (each : ∀ item ∈ items, Relates related (step item)) :
    Relates related (Program.forEach step items) := by
  induction items with
  | nil => exact Relates.pure refl ()
  | cons item items ih =>
    apply Relates.bind trans (each item List.mem_cons_self)
    exact fun _ => ih fun later member => each later (List.mem_cons_of_mem item member)

theorem Relates.catching (trans : ∀ first second third, related first second → related second third → related first third)
    {program : Program σ ε α} {handler : ε → Program σ ε α} (before : Relates related program)
    (after : ∀ fault, Relates related (handler fault)) : Relates related (Program.catching program handler) := by
  intro start
  have next := before start
  unfold Program.catching
  split
  · rename_i value state ran
    rw [ran] at next
    exact next
  · rename_i fault state ran
    rw [ran] at next
    exact trans start state _ next (after fault state)

end Relates

/-! ## What a program that returns has done -/

theorem bind_ok {first : Program σ ε α} {rest : α → Program σ ε β} {start final : σ} {value : β}
    (ran : (first >>= rest) start = (.ok value, final)) :
    ∃ early middle, first start = (.ok early, middle) ∧ rest early middle = (.ok value, final) := by
  replace ran : Program.bind first rest start = (.ok value, final) := ran
  unfold Program.bind at ran
  split at ran
  · rename_i early middle was
    exact ⟨early, middle, was, ran⟩
  · cases ran

theorem bind_error {first : Program σ ε α} {rest : α → Program σ ε β} {start final : σ} {fault : ε}
    (ran : (first >>= rest) start = (.error fault, final)) :
    first start = (.error fault, final) ∨
      ∃ early middle, first start = (.ok early, middle) ∧ rest early middle = (.error fault, final) := by
  replace ran : Program.bind first rest start = (.error fault, final) := ran
  unfold Program.bind at ran
  split at ran
  · rename_i early middle was
    exact Or.inr ⟨early, middle, was, ran⟩
  · rename_i stopped middle was
    cases ran
    exact Or.inl was

theorem bind_of_ok {first : Program σ ε α} {rest : α → Program σ ε β} {start middle : σ} {early : α}
    (ran : first start = (.ok early, middle)) : (first >>= rest) start = rest early middle := by
  show Program.bind first rest start = _
  unfold Program.bind
  rw [ran]

theorem bind_of_error {first : Program σ ε α} {rest : α → Program σ ε β} {start middle : σ} {fault : ε}
    (ran : first start = (.error fault, middle)) : (first >>= rest) start = (.error fault, middle) := by
  show Program.bind first rest start = _
  unfold Program.bind
  rw [ran]

theorem pure_ok {start final : σ} {value result : α} (ran : (Pure.pure value : Program σ ε α) start = (.ok result, final)) :
    result = value ∧ final = start := by
  cases ran
  exact ⟨rfl, rfl⟩

theorem lift_ok {start final : σ} {value : Except ε α} {result : α}
    (ran : (Program.lift value : Program σ ε α) start = (.ok result, final)) : value = .ok result ∧ final = start := by
  cases ran
  exact ⟨rfl, rfl⟩

theorem get_ok {start final result : σ} (ran : (Program.get : Program σ ε σ) start = (.ok result, final)) :
    result = start ∧ final = start := by
  cases ran
  exact ⟨rfl, rfl⟩

theorem modify_ok {change : σ → σ} {start final : σ} {result : Unit}
    (ran : (Program.modify change : Program σ ε Unit) start = (.ok result, final)) : final = change start := by
  cases ran
  rfl

theorem require_ok {condition : Bool} {fault : ε} {start final : σ} {result : Unit}
    (ran : Program.require condition fault start = (.ok result, final)) : condition = true ∧ final = start := by
  unfold Program.require at ran
  split at ran
  · rename_i holds
    exact ⟨holds, (pure_ok ran).2⟩
  · cases ran

theorem onlyIf_ok {condition : Prop} [Decidable condition] {program : Program σ ε Unit} {start final : σ} {result : Unit}
    (ran : Program.onlyIf condition program start = (.ok result, final)) :
    (condition ∧ program start = (.ok result, final)) ∨ (¬ condition ∧ final = start) := by
  unfold Program.onlyIf at ran
  split at ran
  · rename_i holds
    exact Or.inl ⟨holds, ran⟩
  · rename_i fails
    exact Or.inr ⟨fails, (pure_ok ran).2⟩

theorem not_throw_ok {fault : ε} {start final : σ} {result : α}
    (ran : (Program.throw fault : Program σ ε α) start = (.ok result, final)) : False := by
  cases ran

/-- What a preorder relates step by step, it relates over a loop. -/
theorem forEach_relates {step : α → Program σ ε Unit} {related : σ → σ → Prop} (refl : ∀ state, related state state)
    (trans : ∀ first second third, related first second → related second third → related first third) (items : List α)
    (each : ∀ item ∈ items, ∀ start final, step item start = (.ok (), final) → related start final) :
    ∀ start final, forEach step items start = (.ok (), final) → related start final := by
  induction items with
  | nil =>
    intro start final ran
    rw [(pure_ok ran).2]
    exact refl start
  | cons item items ih =>
    intro start final ran
    obtain ⟨_, middle, first, rest⟩ := bind_ok ran
    exact trans start middle final (each item List.mem_cons_self start middle first)
      (ih (fun later member => each later (List.mem_cons_of_mem item member)) middle final rest)

/-! ## What a program does in the end

The condition that a program needs for an outcome is worked out from its text, backwards. -/

/-- From this state the program returns as the one condition says, or stops as the other does. -/
def Meets (program : Program σ ε α) (returns : α → σ → Prop) (stops : ε → σ → Prop) (start : σ) : Prop :=
  match program start with
  | (.ok value, next) => returns value next
  | (.error fault, next) => stops fault next

section Meets

variable {returns : α → σ → Prop} {stops : ε → σ → Prop} {start : σ}

theorem meets_of_ok {program : Program σ ε α} {value : α} {next : σ} (ran : program start = (.ok value, next)) :
    Meets program returns stops start ↔ returns value next := by
  unfold Meets
  rw [ran]

theorem meets_of_error {program : Program σ ε α} {fault : ε} {next : σ} (ran : program start = (.error fault, next)) :
    Meets program returns stops start ↔ stops fault next := by
  unfold Meets
  rw [ran]

theorem meets_pure (value : α) : Meets (Pure.pure value) returns stops start ↔ returns value start := Iff.rfl

theorem meets_throw (fault : ε) : Meets (Program.throw fault : Program σ ε α) returns stops start ↔ stops fault start :=
  Iff.rfl

theorem meets_get {returns : σ → σ → Prop} : Meets Program.get returns stops start ↔ returns start start := Iff.rfl

theorem meets_modify {change : σ → σ} {returns : Unit → σ → Prop} :
    Meets (Program.modify change) returns stops start ↔ returns () (change start) := Iff.rfl

theorem meets_lift_ok (value : α) : Meets (Program.lift (.ok value)) returns stops start ↔ returns value start := Iff.rfl

theorem meets_lift_error (fault : ε) :
    Meets (Program.lift (.error fault) : Program σ ε α) returns stops start ↔ stops fault start := Iff.rfl

theorem meets_bind {first : Program σ ε α} {rest : α → Program σ ε β} {returns : β → σ → Prop} :
    Meets (first >>= rest) returns stops start ↔
      Meets first (fun value => Meets (rest value) returns stops) stops start := by
  show Meets (Program.bind first rest) returns stops start ↔ _
  unfold Meets Program.bind
  cases first start with
  | mk result next => cases result <;> rfl

theorem meets_catching {program : Program σ ε α} {handler : ε → Program σ ε α} :
    Meets (catching program handler) returns stops start ↔
      Meets program returns (fun fault => Meets (handler fault) returns stops) start := by
  unfold Meets catching
  cases program start with
  | mk result next => cases result <;> rfl

theorem meets_require {condition : Bool} {fault : ε} {returns : Unit → σ → Prop} :
    Meets (Program.require condition fault) returns stops start ↔
      if condition then returns () start else stops fault start := by
  cases condition <;> rfl

theorem meets_onlyIf {condition : Prop} [Decidable condition] {program : Program σ ε Unit} {returns : Unit → σ → Prop} :
    Meets (Program.onlyIf condition program) returns stops start ↔
      if condition then Meets program returns stops start else returns () start := by
  unfold Program.onlyIf
  split
  · rfl
  · rfl

theorem meets_forEach_nil {step : α → Program σ ε Unit} {returns : Unit → σ → Prop} :
    Meets (Program.forEach step []) returns stops start ↔ returns () start := Iff.rfl

theorem meets_forEach_cons {step : α → Program σ ε Unit} {item : α} {items : List α} {returns : Unit → σ → Prop} :
    Meets (Program.forEach step (item :: items)) returns stops start ↔
      Meets (step item) (fun _ => Meets (Program.forEach step items) returns stops) stops start := meets_bind

theorem Meets.mono {program : Program σ ε α} {weaker : α → σ → Prop} {lighter : ε → σ → Prop}
    (meets : Meets program returns stops start) (implied : ∀ value next, returns value next → weaker value next)
    (allowed : ∀ fault next, stops fault next → lighter fault next) : Meets program weaker lighter start := by
  unfold Meets at meets ⊢
  split
  · rename_i value next ran
    rw [ran] at meets
    exact implied value next meets
  · rename_i fault next ran
    rw [ran] at meets
    exact allowed fault next meets

theorem Meets.congr {program : Program σ ε α} {other : α → σ → Prop} {otherStops : ε → σ → Prop}
    (same : ∀ value next, returns value next ↔ other value next) (sameStops : ∀ fault next, stops fault next ↔ otherStops fault next) :
    Meets program returns stops start ↔ Meets program other otherStops start := by
  have returnsEq : returns = other := by
    funext value next
    exact propext (same value next)
  have stopsEq : stops = otherStops := by
    funext fault next
    exact propext (sameStops fault next)
  rw [returnsEq, stopsEq]

theorem Meets.and_ok {program : Program σ ε α} {ensures : α → σ → Prop} :
    Meets program ensures stops start ↔
      Meets program (fun _ _ => True) stops start ∧ ∀ value final, program start = (.ok value, final) → ensures value final := by
  unfold Meets
  cases program start with
  | mk result next =>
    cases result with
    | ok value =>
      constructor
      · intro ensured
        refine ⟨trivial, ?_⟩
        rintro _ _ ⟨⟩
        exact ensured
      · exact fun both => both.2 value next rfl
    | error fault =>
      constructor
      · intro stopped
        refine ⟨stopped, ?_⟩
        rintro _ _ ⟨⟩
      · exact And.left

/-- What a program that returned has to have met. -/
theorem Meets.of_ok {program : Program σ ε α} (meets : Meets program returns stops start) {value : α} {final : σ}
    (ran : program start = (.ok value, final)) : returns value final := by
  unfold Meets at meets
  rw [ran] at meets
  exact meets

theorem Meets.forEach {step : α → Program σ ε Unit} {invariant : List α → σ → Prop}
    (each : ∀ item items state, invariant (item :: items) state →
      Meets (step item) (fun _ => invariant items) stops state) (items : List α) :
    ∀ state, invariant items state → Meets (Program.forEach step items) (fun _ => invariant []) stops state := by
  induction items with
  | nil => exact fun _ holds => holds
  | cons item items ih =>
    intro state holds
    apply meets_bind.mpr
    exact (each item items state holds).mono (fun _ next kept => ih next kept) fun _ _ stopped => stopped

end Meets

/-! ## Conditions along a loop -/

/-- The condition holds before every step of the loop, as far as the loop goes. -/
def Throughout (condition : α → σ → Prop) (step : α → Program σ ε Unit) : List α → σ → Prop
  | [], _ => True
  | item :: items, state =>
    condition item state ∧
      match step item state with
      | (.ok _, next) => Throughout condition step items next
      | (.error _, _) => True

instance Throughout.decidable (condition : α → σ → Prop) [∀ item state, Decidable (condition item state)]
    (step : α → Program σ ε Unit) : ∀ items state, Decidable (Throughout condition step items state)
  | [], _ => .isTrue trivial
  | item :: items, state => by
    unfold Throughout
    exact match step item state with
      | (.ok _, next) => @instDecidableAnd _ _ _ (Throughout.decidable condition step items next)
      | (.error _, _) => inferInstance

theorem throughout_mono {condition other : α → σ → Prop} {step : α → Program σ ε Unit} (items : List α)
    (implies : ∀ item ∈ items, ∀ state, condition item state → other item state) :
    ∀ state, Throughout condition step items state → Throughout other step items state := by
  induction items with
  | nil =>
    intro _ _
    trivial
  | cons item items ih =>
    intro state along
    obtain ⟨here, later⟩ := along
    refine ⟨implies item List.mem_cons_self state here, ?_⟩
    cases ran : step item state with
    | mk result next =>
      rw [ran] at later
      cases result with
      | ok _ => exact ih (fun item member => implies item (List.mem_cons_of_mem _ member)) next later
      | error _ => trivial

/-- A loop goes through, or stops as it may, when each step does as far as the loop goes. -/
theorem meets_forEach_iff {condition : α → σ → Prop} {step : α → Program σ ε Unit} {stops : ε → σ → Prop}
    (each : ∀ item state, Meets (step item) (fun _ _ => True) stops state ↔ condition item state) (items : List α) :
    ∀ state, Meets (forEach step items) (fun _ _ => True) stops state ↔ Throughout condition step items state := by
  induction items with
  | nil => exact fun _ => Iff.rfl
  | cons item items ih =>
    intro state
    rw [meets_forEach_cons, Meets.and_ok, each item state]
    apply and_congr Iff.rfl
    cases ran : step item state with
    | mk result next =>
      cases result with
      | ok _ =>
        constructor
        · exact fun rest => (ih next).mp (rest () next rfl)
        · rintro along _ _ ⟨⟩
          exact (ih next).mpr along
      | error fault =>
        constructor
        · exact fun _ => trivial
        · rintro _ _ _ ⟨⟩

/-- Under the condition each item of the loop is handled as one item of a list is by itself. -/
theorem throughout_keeps {condition : α → σ → Prop} {step : α → Program σ ε Unit} {β : Type} {invariant : β → σ → Prop}
    {follow : β → α → β}
    (each : ∀ ghost item state next, invariant ghost state → condition item state → step item state = (.ok (), next) →
      invariant (follow ghost item) next) (items : List α) :
    ∀ ghost state final, invariant ghost state → Throughout condition step items state →
      forEach step items state = (.ok (), final) → invariant (items.foldl follow ghost) final := by
  induction items with
  | nil =>
    intro ghost state final holds _ ran
    rw [(pure_ok ran).2]
    exact holds
  | cons item items ih =>
    intro ghost state final holds along ran
    obtain ⟨_, middle, first, rest⟩ := bind_ok ran
    obtain ⟨here, later⟩ := along
    rw [first] at later
    exact ih _ middle final (each ghost item state middle holds here first) later rest

end Program

end Opentxs.Library
