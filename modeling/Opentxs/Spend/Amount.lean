import Opentxs.Library.Program
import Mathlib.Algebra.Order.Ring.Int
import Mathlib.Tactic.Common

/-! Amounts: whole units with 64 binary places in an integer of 320 bits, which refuses what
does not fit. -/

namespace Opentxs.Spend
open Library

/-- Counted in parts of which 2^64 make a unit. -/
abbrev Amount := Int

namespace Amount

def unit : Int := 18446744073709551616

def ofUnsigned (units : Nat) : Amount := Int.ofNat units * unit

/-- There are 256 bits before the binary point and 64 behind it. -/
@[irreducible] def magnitude : Nat := 2 ^ 320

def fits (amount : Amount) : Bool := amount.natAbs < magnitude

def shiftRight (amount : Amount) : Int := amount.tdiv unit

def shiftLeft (units : Int) : Amount := units * unit

def times (first second : Amount) : Amount := shiftRight (first * second)

/-- The quotient is a number of whole units. -/
def dividedBy (first second : Amount) : Amount := shiftLeft (first.tdiv second)

def remainder (first second : Amount) : Amount := first.tmod second

/-- The conversion of a number that is negative or has more than 64 bits is caught and gives zero. -/
def extractUInt64 (amount : Amount) : Nat :=
  let units := shiftRight amount
  if 0 ≤ units ∧ units < 2 ^ 64 then units.toNat else 0

def checked {ε : Type} (overflow : ε) (amount : Amount) : Except ε Amount :=
  if fits amount then .ok amount else .error overflow

theorem unit_pos : (0 : Int) < unit := by decide

/-- A price for each whole unit. -/
theorem times_shiftLeft (units : Int) (price : Amount) : times (shiftLeft units) price = units * price := by
  show (units * unit * price).tdiv unit = units * price
  rw [Int.mul_right_comm, Int.mul_tdiv_cancel _ unit_pos.ne']

theorem ofUnsigned_add (first second : Nat) : ofUnsigned (first + second) = ofUnsigned first + ofUnsigned second := by
  show (Int.ofNat first + Int.ofNat second) * unit = _
  exact Int.add_mul _ _ _

theorem ofUnsigned_le {first second : Nat} : ofUnsigned first ≤ ofUnsigned second ↔ first ≤ second := by
  unfold ofUnsigned
  rw [Int.mul_le_mul_iff_of_pos_right unit_pos]
  exact Int.ofNat_le

theorem ofUnsigned_nonneg (units : Nat) : 0 ≤ ofUnsigned units := Int.mul_nonneg (Int.natCast_nonneg units) unit_pos.le

theorem bind_ok {ε α β : Type} {first : Except ε α} {rest : α → Except ε β} {result : β}
    (ran : first >>= rest = .ok result) : ∃ value, first = .ok value ∧ rest value = .ok result := by
  cases first with
  | error fault => cases ran
  | ok value => exact ⟨value, rfl, ran⟩

/-- A computation gives a value or a fault as the conditions say. -/
def Gives {ε α : Type} (result : Except ε α) (returns : α → Prop) (stops : ε → Prop) : Prop :=
  match result with
  | .ok value => returns value
  | .error fault => stops fault

section Gives

variable {ε α β : Type} {stops : ε → Prop}

theorem gives_ok {value : α} {returns : α → Prop} : Gives (.ok value) returns stops ↔ returns value := Iff.rfl

theorem gives_bind {first : Except ε α} {rest : α → Except ε β} {returns : β → Prop} :
    Gives (first >>= rest) returns stops ↔ Gives first (fun value => Gives (rest value) returns stops) stops := by
  cases first <;> rfl

theorem gives_checked {overflow : ε} {amount : Amount} {returns : Amount → Prop} :
    Gives (checked overflow amount) returns stops ↔ if fits amount then returns amount else stops overflow := by
  unfold checked
  split <;> rfl

end Gives

theorem checked_ok {ε : Type} {overflow : ε} {amount result : Amount} (ran : checked overflow amount = .ok result) :
    fits amount = true ∧ result = amount := by
  unfold checked at ran
  split at ran
  · rename_i fit
    cases ran
    exact ⟨fit, rfl⟩
  · cases ran

theorem checked_fits {ε : Type} {overflow : ε} {amount : Amount} (fit : fits amount = true) :
    checked overflow amount = .ok amount := by
  unfold checked
  rw [if_pos fit]

/-- An amount that is not negative and has a whole part of at most 64 bits keeps that part. -/
theorem extractUInt64_eq {amount : Amount} (positive : 0 ≤ amount) (small : amount < 2 ^ 64 * unit) :
    (extractUInt64 amount : Int) = amount / unit := by
  have quotient : amount.tdiv unit = amount / unit := Int.tdiv_eq_ediv_of_nonneg positive
  have below : amount / unit < 2 ^ 64 := Int.ediv_lt_of_lt_mul unit_pos small
  have above : 0 ≤ amount / unit := Int.ediv_nonneg positive unit_pos.le
  unfold extractUInt64 shiftRight
  rw [quotient, if_pos ⟨above, below⟩, Int.toNat_of_nonneg above]

theorem extractUInt64_large {amount : Amount} (large : 2 ^ 64 * unit ≤ amount) : extractUInt64 amount = 0 := by
  have positive : 0 ≤ amount := le_trans (by decide) large
  have quotient : amount.tdiv unit = amount / unit := Int.tdiv_eq_ediv_of_nonneg positive
  have above : 2 ^ 64 ≤ amount / unit := Int.le_ediv_of_mul_le unit_pos large
  unfold extractUInt64 shiftRight
  rw [quotient, if_neg fun within => absurd within.2 (not_lt.mpr above)]

theorem extractUInt64_nonpos {amount : Amount} (below : amount ≤ 0) : extractUInt64 amount = 0 := by
  have flipped : amount.tdiv unit = -((-amount).tdiv unit) := by rw [Int.neg_tdiv, Int.neg_neg]
  have above : 0 ≤ (-amount).tdiv unit := Int.tdiv_nonneg (Int.neg_nonneg.mpr below) unit_pos.le
  unfold extractUInt64 shiftRight
  dsimp only
  split
  · omega
  · rfl

theorem extractUInt64_lt (amount : Amount) : extractUInt64 amount < 2 ^ 64 := by
  unfold extractUInt64
  dsimp only
  split
  · omega
  · decide

/-- What is extracted is at most one unit short of the amount. -/
theorem extractUInt64_le {amount : Amount} (positive : 0 ≤ amount) : ofUnsigned (extractUInt64 amount) ≤ amount := by
  by_cases small : amount < 2 ^ 64 * unit
  · have whole := extractUInt64_eq positive small
    show (extractUInt64 amount : Int) * unit ≤ amount
    rw [whole]
    exact Int.ediv_mul_le amount (by decide)
  · rw [extractUInt64_large (not_lt.mp small)]
    exact positive

theorem lt_extractUInt64 {amount : Amount} (positive : 0 ≤ amount) (small : amount < 2 ^ 64 * unit) :
    amount < ofUnsigned (extractUInt64 amount) + unit := by
  have whole := extractUInt64_eq positive small
  calc
    amount < (amount / unit + 1) * unit := Int.lt_ediv_add_one_mul_self amount unit_pos
    _ = amount / unit * unit + unit := by rw [Int.add_mul, Int.one_mul]
    _ = ofUnsigned (extractUInt64 amount) + unit := by rw [← whole]; rfl

end Amount

end Opentxs.Spend
