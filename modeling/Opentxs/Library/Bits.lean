import Mathlib.Data.Nat.Bitwise
import Mathlib.Data.List.Basic
import Mathlib.Tactic.Ring

/-! Big-endian bit strings of fixed width. A codec that packs fields into bytes is
proved against these lists, where a field is a segment and packing is append. -/

namespace Opentxs.Library.Bits

/-- The low `width` bits of `value`, most significant first. -/
def ofNat : (width value : Nat) → List Bool
  | 0, _ => []
  | width + 1, value => value.testBit width :: ofNat width value

def toNat (bits : List Bool) : Nat :=
  bits.foldl (fun value bit => 2 * value + bit.toNat) 0

@[simp] theorem ofNat_length (width value : Nat) : (ofNat width value).length = width := by
  induction width with
  | zero => rfl
  | succ width ih => simp only [ofNat, List.length_cons, ih]

theorem ofNat_congr {width x y : Nat} (same : ∀ i < width, x.testBit i = y.testBit i) :
    ofNat width x = ofNat width y := by
  induction width with
  | zero => rfl
  | succ width ih =>
    rw [ofNat, ofNat, same width (Nat.lt_succ_self width),
      ih (fun i bound => same i (Nat.lt_succ_of_lt bound))]

theorem ofNat_mod (width value : Nat) : ofNat width (value % 2 ^ width) = ofNat width value := by
  apply ofNat_congr
  intro i bound
  simp only [Nat.testBit_mod_two_pow, bound, decide_true, Bool.true_and]

theorem ofNat_zero (width : Nat) : ofNat width 0 = List.replicate width false := by
  induction width with
  | zero => rfl
  | succ width ih => simp only [ofNat, Nat.zero_testBit, ih, List.replicate_succ]

/-- Splitting a field: the high part keeps the quotient, the low part the remainder. -/
theorem ofNat_add (high low value : Nat) :
    ofNat (high + low) value = ofNat high (value / 2 ^ low) ++ ofNat low value := by
  induction high with
  | zero => simp only [Nat.zero_add, ofNat, List.nil_append]
  | succ high ih =>
    rw [Nat.succ_add, ofNat, ofNat, ih, List.cons_append, Nat.testBit_div_two_pow,
      Nat.add_comm high low]

/-- Joining two fields into one word. -/
theorem ofNat_append (high low upper lower : Nat) (bound : lower < 2 ^ low) :
    ofNat high upper ++ ofNat low lower = ofNat (high + low) (upper * 2 ^ low + lower) := by
  rw [ofNat_add]
  congr 1
  · rw [Nat.mul_comm, Nat.mul_add_div (Nat.two_pow_pos low), Nat.div_eq_of_lt bound, Nat.add_zero]
  · rw [← ofNat_mod low (upper * 2 ^ low + lower), Nat.mul_comm, Nat.mul_add_mod,
      Nat.mod_eq_of_lt bound]

@[simp] theorem toNat_nil : toNat [] = 0 := rfl

theorem toNat_foldl (bits : List Bool) (value : Nat) :
    bits.foldl (fun value bit => 2 * value + bit.toNat) value =
      value * 2 ^ bits.length + toNat bits := by
  induction bits generalizing value with
  | nil => simp only [List.foldl_nil, List.length_nil, pow_zero, Nat.mul_one, toNat_nil, Nat.add_zero]
  | cons bit bits ih =>
    have tail : toNat (bit :: bits) = bit.toNat * 2 ^ bits.length + toNat bits := by
      rw [toNat, List.foldl_cons, ih, Nat.mul_zero, Nat.zero_add]
    rw [List.foldl_cons, ih, tail, List.length_cons, pow_succ]
    ring

theorem toNat_append (front back : List Bool) :
    toNat (front ++ back) = toNat front * 2 ^ back.length + toNat back := by
  rw [toNat, List.foldl_append, toNat_foldl]
  rfl

theorem toNat_lt (bits : List Bool) : toNat bits < 2 ^ bits.length := by
  induction bits with
  | nil => decide
  | cons bit bits ih =>
    have split := toNat_append [bit] bits
    have small : toNat [bit] ≤ 1 := by cases bit <;> decide
    rw [List.singleton_append] at split
    rw [split, List.length_cons, pow_succ]
    have scaled := Nat.mul_le_mul_right (2 ^ bits.length) small
    omega

theorem toNat_replicate_false (width : Nat) : toNat (List.replicate width false) = 0 := by
  induction width with
  | zero => rfl
  | succ width ih =>
    have split := toNat_append [false] (List.replicate width false)
    rw [List.singleton_append] at split
    rw [List.replicate_succ, split, ih, show toNat [false] = 0 from rfl, Nat.zero_mul]

theorem toNat_ofNat (width value : Nat) : toNat (ofNat width value) = value % 2 ^ width := by
  induction width with
  | zero => simp only [ofNat, toNat_nil, pow_zero, Nat.mod_one]
  | succ width ih =>
    have split := toNat_append [value.testBit width] (ofNat width value)
    rw [List.singleton_append] at split
    rw [ofNat, split, ih, ofNat_length, Nat.testBit_eq_decide_div_mod_eq, pow_succ,
      Nat.mod_mul, Nat.add_comm]
    congr 1
    have parity := Nat.mod_two_eq_zero_or_one (value / 2 ^ width)
    rcases parity with even | odd
    · simp [even, toNat]
    · simp [odd, toNat]

/-- Reading the front of a bit string held as one number. -/
theorem toNat_take (front total value : Nat) (bound : front ≤ total) (small : value < 2 ^ total) :
    toNat ((ofNat total value).take front) = value / 2 ^ (total - front) := by
  obtain ⟨rest, rfl⟩ := Nat.exists_eq_add_of_le bound
  have low : value / 2 ^ rest < 2 ^ front := by
    rw [Nat.div_lt_iff_lt_mul (Nat.two_pow_pos rest), ← pow_add]
    exact small
  rw [ofNat_add, List.take_left' (ofNat_length _ _), toNat_ofNat, Nat.add_sub_cancel_left,
    Nat.mod_eq_of_lt low]

theorem drop_ofNat (front total value : Nat) (bound : front ≤ total) :
    (ofNat total value).drop front = ofNat (total - front) value := by
  obtain ⟨rest, rfl⟩ := Nat.exists_eq_add_of_le bound
  rw [ofNat_add, List.drop_left' (ofNat_length _ _), Nat.add_sub_cancel_left]

/-- The bits of a byte string. -/
def ofBytes (bytes : List UInt8) : List Bool :=
  bytes.flatMap fun byte => ofNat 8 byte.toNat

@[simp] theorem ofBytes_nil : ofBytes [] = [] := rfl

@[simp] theorem ofBytes_cons (byte : UInt8) (bytes : List UInt8) :
    ofBytes (byte :: bytes) = ofNat 8 byte.toNat ++ ofBytes bytes := rfl

theorem ofBytes_append (front back : List UInt8) :
    ofBytes (front ++ back) = ofBytes front ++ ofBytes back := List.flatMap_append

@[simp] theorem ofBytes_length (bytes : List UInt8) : (ofBytes bytes).length = 8 * bytes.length := by
  induction bytes with
  | nil => rfl
  | cons byte bytes ih =>
    rw [ofBytes_cons, List.length_append, ofNat_length, ih, List.length_cons]
    omega

end Opentxs.Library.Bits
