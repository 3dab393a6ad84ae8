import Opentxs.Library.Program

/-! Programs that take items from the front of what is left to read: what a reader makes of items that stand
there as it expects them, and that whatever it returns it has taken a prefix. -/

namespace Opentxs.Library

/-- A loop of so many rounds, which are counted from the index, and what they give. -/
def Program.times {σ ε α : Type} (step : Nat → Program σ ε α) (index : Nat) : Nat → Program σ ε (List α)
  | 0 => pure []
  | count + 1 => do
    let first ← step index
    let rest ← times step (index + 1) count
    pure (first :: rest)

/-- A state with items that are left to read, and what becomes of it when some of them are taken. -/
structure Tape (σ τ : Type) where
  left : σ → List τ
  advance : σ → List τ → List τ → σ
  left_advance (state : σ) (taken rest : List τ) : left (advance state taken rest) = rest
  advance_nil (state : σ) : advance state [] (left state) = state
  advance_advance (state : σ) (first middle second rest : List τ) :
    advance (advance state first middle) second rest = advance state (first ++ second) rest

namespace Tape

variable {σ τ ε α β γ : Type} {tape : Tape σ τ}

/-- The program comes to the outcome, in the state that is given for when it returns. -/
def Ends (program : Program σ ε α) (start returned : σ) : Except ε α → Prop
  | .ok value => program start = (.ok value, returned)
  | .error fault => ∃ final, program start = (.error fault, final)

/-- From these items, with something behind them, the program comes to the outcome; where it returns it has
taken them and nothing else. -/
def Reads (tape : Tape σ τ) (program : Program σ ε α) (items : List τ) (outcome : Except ε α) : Prop :=
  ∀ start rest, rest ≠ [] → tape.left start = items ++ rest → Ends program start (tape.advance start items rest) outcome

/-- Where the program returns it has taken a prefix of what was left. -/
def Consumes (tape : Tape σ τ) (program : Program σ ε α) : Prop :=
  ∀ start value final, program start = (.ok value, final) →
    ∃ taken, tape.left start = taken ++ tape.left final ∧ final = tape.advance start taken (tape.left final)

/-! ## Readers of known items -/

theorem Reads.pure (value : α) : tape.Reads (pure value : Program σ ε α) [] (.ok value) := by
  intro start rest _ left
  have whole : tape.advance start [] rest = start := by
    rw [show rest = tape.left start from left.symm, tape.advance_nil]
  show (Except.ok value, start) = _
  rw [whole]

theorem Reads.bind {first : Program σ ε α} {second : α → Program σ ε β} {items later : List τ} {outcome : Except ε α}
    {next : α → Except ε β} (before : tape.Reads first items outcome)
    (after : ∀ value, outcome = .ok value → tape.Reads (second value) later (next value)) :
    tape.Reads (first >>= second) (items ++ later) (outcome >>= next) := by
  intro start rest some left
  rw [List.append_assoc] at left
  have ran := before start (later ++ rest) (List.append_ne_nil_of_right_ne_nil later some) left
  cases outcome with
  | error fault =>
    obtain ⟨final, ran⟩ := ran
    exact ⟨final, Program.bind_of_error ran⟩
  | ok value =>
    have more := after value rfl (tape.advance start items (later ++ rest)) rest some (tape.left_advance _ _ _)
    rw [tape.advance_advance] at more
    show Ends (first >>= second) start (tape.advance start (items ++ later) rest) (next value)
    generalize next value = final at more
    cases final with
    | ok result => exact (Program.bind_of_ok ran).trans more
    | error fault =>
      obtain ⟨stopped, more⟩ := more
      exact ⟨stopped, (Program.bind_of_ok ran).trans more⟩

/-- A reader of known items that goes on with its value. -/
theorem Reads.step {first : Program σ ε α} {second : α → Program σ ε β} {items later : List τ} {value : α} {outcome : Except ε β}
    (before : tape.Reads first items (.ok value)) (after : tape.Reads (second value) later outcome) :
    tape.Reads (first >>= second) (items ++ later) outcome := by
  show tape.Reads (first >>= second) (items ++ later) (Except.ok value >>= fun _ => outcome)
  apply before.bind
  intro other same
  cases same
  exact after

/-- A value that is made of what was read. -/
theorem Reads.map {first : Program σ ε α} {items : List τ} {outcome : Except ε α} (before : tape.Reads first items outcome)
    (change : α → β) : tape.Reads (first >>= fun value => Pure.pure (change value)) items (outcome >>= fun value => .ok (change value)) := by
  have both : tape.Reads (first >>= fun value => Pure.pure (change value)) (items ++ []) (outcome >>= fun value => .ok (change value)) :=
    before.bind fun value _ => Reads.pure (change value)
  rwa [List.append_nil] at both

theorem Reads.returns {first : Program σ ε α} {items : List τ} {value : α} (before : tape.Reads first items (.ok value))
    (change : α → β) : tape.Reads (first >>= fun value => Pure.pure (change value)) items (.ok (change value)) := before.map change

theorem Reads.of_ok {program : Program σ ε α} {items rest : List τ} {outcome : Except ε α} (reads : tape.Reads program items outcome)
    {start final : σ} {value : α} (some : rest ≠ []) (left : tape.left start = items ++ rest)
    (ran : program start = (.ok value, final)) : outcome = .ok value ∧ final = tape.advance start items rest := by
  have known := reads start rest some left
  cases outcome with
  | error fault =>
    obtain ⟨other, known⟩ := known
    rw [ran] at known
    cases known
  | ok expected =>
    have same : (Except.ok value, final) = (Except.ok expected, tape.advance start items rest) := ran.symm.trans known
    cases same
    exact ⟨rfl, rfl⟩

/-- A loop reads one item after the other. -/
theorem Reads.times {step : Nat → Program σ ε α} {write : γ → List τ} {read : γ → Except ε α} (list : List γ)
    (each : ∀ index, ∀ item ∈ list, tape.Reads (step index) (write item) (read item)) (index : Nat) :
    tape.Reads (Program.times step index list.length) (list.flatMap write) (list.mapM read) := by
  induction list generalizing index with
  | nil => exact Reads.pure []
  | cons item list ih =>
    rw [List.flatMap_cons, List.mapM_cons]
    apply Reads.bind (each index item List.mem_cons_self)
    intro first _
    exact (ih (fun index item member => each index item (List.mem_cons_of_mem _ member)) (index + 1)).map (first :: ·)

theorem Reads.times_ok {step : Nat → Program σ ε α} {write : γ → List τ} {value : γ → α} (list : List γ)
    (each : ∀ index, ∀ item ∈ list, tape.Reads (step index) (write item) (.ok (value item))) (index : Nat) :
    tape.Reads (Program.times step index list.length) (list.flatMap write) (.ok (list.map value)) := by
  have all : list.mapM (fun item => (Except.ok (value item) : Except ε α)) = .ok (list.map value) := List.mapM_pure
  rw [← all]
  exact Reads.times list each index

/-! ## What is taken -/

theorem Consumes.pure (value : α) : tape.Consumes (pure value : Program σ ε α) := by
  intro start result final ran
  obtain ⟨_, rfl⟩ := Program.pure_ok ran
  exact ⟨[], rfl, (tape.advance_nil final).symm⟩

theorem Consumes.bind {first : Program σ ε α} {second : α → Program σ ε β} (before : tape.Consumes first)
    (after : ∀ value, tape.Consumes (second value)) : tape.Consumes (first >>= second) := by
  intro start result final ran
  obtain ⟨value, middle, one, two⟩ := Program.bind_ok ran
  obtain ⟨taken, left, moved⟩ := before start value middle one
  obtain ⟨more, behind, again⟩ := after value middle result final two
  refine ⟨taken ++ more, by rw [left, behind, List.append_assoc], ?_⟩
  calc final
    _ = tape.advance middle more (tape.left final) := again
    _ = tape.advance (tape.advance start taken (tape.left middle)) more (tape.left final) := by rw [← moved]
    _ = tape.advance start (taken ++ more) (tape.left final) := tape.advance_advance _ _ _ _ _

theorem Consumes.times {step : Nat → Program σ ε α} (each : ∀ index, tape.Consumes (step index)) (count : Nat) :
    ∀ index, tape.Consumes (Program.times step index count) := by
  induction count with
  | zero => exact fun _ => Consumes.pure []
  | succ count ih =>
    intro index
    apply Consumes.bind (each index)
    intro first
    exact Consumes.bind (ih (index + 1)) fun rest => Consumes.pure (first :: rest)

end Tape

/-! ## Loops that return -/

/-- Where a loop returns, each of its rounds has taken what is written of something, and these lie one behind the other. -/
theorem Program.times_ok {σ τ ε α ρ : Type} {moved : σ → List τ → σ → Prop} {write : ρ → List τ} {reads : ρ → α → Prop}
    (none : ∀ state, moved state [] state)
    (append : ∀ {start middle final first second}, moved start first middle → moved middle second final → moved start (first ++ second) final)
    {step : Nat → Program σ ε α}
    (each : ∀ index start value final, step index start = (.ok value, final) → ∃ source, reads source value ∧ moved start (write source) final)
    (count : Nat) : ∀ index start values final, Program.times step index count start = (.ok values, final) →
      ∃ sources : List ρ, sources.length = count ∧ List.Forall₂ reads sources values ∧ moved start (sources.flatMap write) final := by
  induction count with
  | zero =>
    intro index start values final ran
    obtain ⟨rfl, rfl⟩ := Program.pure_ok ran
    exact ⟨[], rfl, .nil, none final⟩
  | succ count ih =>
    intro index start values final ran
    obtain ⟨value, middle, one, ran⟩ := Program.bind_ok ran
    obtain ⟨more, last, two, ran⟩ := Program.bind_ok ran
    obtain ⟨rfl, rfl⟩ := Program.pure_ok ran
    obtain ⟨source, read, first⟩ := each index start value middle one
    obtain ⟨sources, length, all, second⟩ := ih (index + 1) middle more final two
    exact ⟨source :: sources, congrArg (· + 1) length, .cons read all, append first second⟩

/-! ## Programs that do the same to the state -/

/-- Where the one program returns, the other returns from the same state to the same state. -/
def Program.Follows {σ ε α β : Type} (related : α → β → Prop) (program : Program σ ε α) (other : Program σ ε β) : Prop :=
  ∀ start value final, program start = (.ok value, final) → ∃ result, other start = (.ok result, final) ∧ related value result

namespace Program.Follows

variable {σ ε α β γ δ : Type} {r : α → β → Prop} {s : γ → δ → Prop}

theorem pure {value : α} {result : β} (holds : r value result) :
    Follows r (pure value : Program σ ε α) (pure result : Program σ ε β) := by
  intro start same final ran
  obtain ⟨rfl, rfl⟩ := pure_ok ran
  exact ⟨result, rfl, holds⟩

theorem bind {first : Program σ ε α} {second : Program σ ε β} {rest : α → Program σ ε γ} {other : β → Program σ ε δ}
    (before : Follows r first second) (after : ∀ value result, r value result → Follows s (rest value) (other result)) :
    Follows s (first >>= rest) (second >>= other) := by
  intro start value final ran
  obtain ⟨early, middle, one, two⟩ := bind_ok ran
  obtain ⟨result, ran, holds⟩ := before start early middle one
  obtain ⟨last, behind, kept⟩ := after early result holds middle value final two
  exact ⟨last, (bind_of_ok ran).trans behind, kept⟩

/-- Both begin with the same program. -/
theorem same {first : Program σ ε α} {rest : α → Program σ ε γ} {other : α → Program σ ε δ}
    (after : ∀ value, Follows s (rest value) (other value)) : Follows s (first >>= rest) (first >>= other) := by
  apply bind (fun start value final ran => ⟨value, ran, rfl⟩)
  rintro value _ rfl
  exact after value

theorem times {step : Nat → Program σ ε α} {other : Nat → Program σ ε β} (each : ∀ index, Follows r (step index) (other index))
    (count : Nat) : ∀ index, Follows (List.Forall₂ r) (Program.times step index count) (Program.times other index count) := by
  induction count with
  | zero => exact fun _ => pure .nil
  | succ count ih => exact fun index => bind (each index) fun _ _ one => bind (ih (index + 1)) fun _ _ rest => pure (.cons one rest)

end Program.Follows

/-! ## Writings -/

/-- A value is known from what is written of it, whatever follows. -/
def SelfDelimiting {α τ : Type} (write : α → List τ) : Prop :=
  ∀ first second rest other, write first ++ rest = write second ++ other → first = second ∧ rest = other

namespace SelfDelimiting

variable {α τ : Type} {write : α → List τ}

theorem of_length {size : Nat} (length : ∀ value, (write value).length = size) (injective : Function.Injective write) :
    SelfDelimiting write := by
  intro first second rest other same
  obtain ⟨written, rest⟩ := List.append_inj same ((length first).trans (length second).symm)
  exact ⟨injective written, rest⟩

/-- As many values as are known to be there. -/
theorem flatMap (each : SelfDelimiting write) (first : List α) : ∀ (second : List α) (rest other : List τ),
    first.length = second.length → first.flatMap write ++ rest = second.flatMap write ++ other → first = second ∧ rest = other := by
  induction first with
  | nil =>
    intro second rest other length same
    obtain rfl := List.eq_nil_of_length_eq_zero length.symm
    exact ⟨rfl, same⟩
  | cons value first ih =>
    intro second rest other length same
    cases second with
    | nil => cases length
    | cons next second =>
      rw [List.flatMap_cons, List.flatMap_cons, List.append_assoc, List.append_assoc] at same
      obtain ⟨here, later⟩ := each value next _ _ same
      subst here
      obtain ⟨rfl, rfl⟩ := ih second _ _ (Nat.succ.inj length) later
      exact ⟨rfl, rfl⟩

end SelfDelimiting

end Opentxs.Library
