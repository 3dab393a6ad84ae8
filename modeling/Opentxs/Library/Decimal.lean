import Mathlib.Data.Nat.Digits.Defs
import Mathlib.Tactic.Ring

/-! Numbers as decimal text: without a leading zero, and in a fixed number of places as behind
a decimal point. -/

namespace Opentxs.Library.Decimal

/-- What a text of digits stands for. -/
def value (digits : List Char) : Nat := Nat.ofDigitChars 10 digits 0

/-- The last digits of a number. -/
def places : (width number : Nat) → List Char
  | 0, _ => []
  | width + 1, number => places width (number / 10) ++ [Nat.digitChar (number % 10)]

def AllDigits (text : List Char) : Prop := ∀ digit ∈ text, digit.isDigit = true

@[simp] theorem value_toDigits (number : Nat) : value (Nat.toDigits 10 number) = number := Nat.ofDigitChars_ten_toDigits

theorem value_append (front back : List Char) : value (front ++ back) = value front * 10 ^ back.length + value back := by
  unfold value
  rw [Nat.ofDigitChars_append, Nat.ofDigitChars_eq_ofDigitChars_zero, Nat.mul_comm]

theorem allDigits_toDigits (number : Nat) : AllDigits (Nat.toDigits 10 number) :=
  fun _ member => Nat.isDigit_of_mem_toDigits (by decide) (by decide) member

theorem isDigit_digitChar (number : Nat) : (Nat.digitChar (number % 10)).isDigit = true := by
  have member : Nat.digitChar (number % 10) ∈ Nat.toDigits 10 (number % 10) := by
    rw [Nat.toDigits_of_lt_base (Nat.mod_lt _ (by decide))]
    exact List.mem_singleton_self _
  exact allDigits_toDigits _ _ member

theorem allDigits_append {front back : List Char} : AllDigits (front ++ back) ↔ AllDigits front ∧ AllDigits back :=
  List.forall_mem_append

/-- Only zero begins with a zero. -/
theorem toDigits_zero_cons (number : Nat) : ∀ rest, Nat.toDigits 10 number = '0' :: rest → rest = [] := by
  have head : ∀ number, 0 < number → (Nat.toDigits 10 number).head? ≠ some '0' := by
    intro number
    induction number using Nat.strong_induction_on with
    | _ number ih =>
      intro positive
      rw [Nat.toDigits_eq_if (by decide)]
      split
      · next small =>
        rw [List.head?_cons, ne_eq, Option.some.injEq, Nat.digitChar_eq_zero]
        exact positive.ne'
      · next large =>
        obtain ⟨digit, digits, written⟩ := List.exists_cons_of_ne_nil (@Nat.toDigits_ne_nil (number / 10) 10)
        have above := ih (number / 10) (by omega) (by omega)
        rw [written] at above ⊢
        exact above
  intro rest written
  cases number with
  | zero =>
    rw [Nat.toDigits_zero] at written
    exact (List.cons.inj written).2.symm
  | succ number =>
    refine absurd ?_ (head (number + 1) (Nat.succ_pos _))
    rw [written]
    rfl

@[simp] theorem length_places (width : Nat) : ∀ number, (places width number).length = width := by
  induction width with
  | zero => exact fun _ => rfl
  | succ width ih =>
    intro number
    unfold places
    rw [List.length_append, ih]
    rfl

theorem allDigits_places (width : Nat) : ∀ number, AllDigits (places width number) := by
  induction width with
  | zero => exact fun _ _ member => absurd member List.not_mem_nil
  | succ width ih =>
    intro number
    exact allDigits_append.mpr ⟨ih (number / 10), List.forall_mem_singleton.mpr (isDigit_digitChar number)⟩

theorem value_digitChar (number : Nat) : value [Nat.digitChar (number % 10)] = number % 10 := by
  rw [← Nat.toDigits_of_lt_base (Nat.mod_lt number (by decide)), value_toDigits]

@[simp] theorem value_places (width : Nat) : ∀ number, value (places width number) = number % 10 ^ width := by
  induction width with
  | zero =>
    intro number
    rw [Nat.pow_zero, Nat.mod_one]
    rfl
  | succ width ih =>
    intro number
    unfold places
    rw [value_append, ih, value_digitChar, List.length_singleton, Nat.pow_one, Nat.pow_succ, Nat.mul_comm (10 ^ width), Nat.mod_mul]
    ring

end Opentxs.Library.Decimal
