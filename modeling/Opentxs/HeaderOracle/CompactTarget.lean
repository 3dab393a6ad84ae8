import Opentxs.HeaderOracle.Work

/-! The proof of work of a header: its hash read as a number, and the target that its compact bits stand
for. -/

namespace Opentxs.HeaderOracle.CompactTarget
open Library.Endian PersistedWork

structure Header where
  pow : Bytes
  nbits : UInt32

def isNull (data : Bytes) : Bool := data.all (· == 0)

/-- The number of a hash. -/
def ofData (data : Bytes) : Nat := if isNull data then 0 else ofLittle data

def Header.numericHash (header : Header) : Nat := ofData header.pow

def Header.target (header : Header) : Nat := PersistedWork.numericHash header.nbits

def Header.checkPow (header : Header) : Bool := header.numericHash < header.target

def Header.valid (header : Header) : Bool := header.numericHash < header.target

theorem ofLittle_isNull {data : Bytes} (null : isNull data = true) : ofLittle data = 0 := by
  induction data with
  | nil => rfl
  | cons byte rest ih =>
    rw [isNull, List.all_cons, Bool.and_eq_true, beq_iff_eq] at null
    obtain ⟨rfl, others⟩ := null
    show 0 + 256 * ofLittle rest = 0
    rw [ih others]

@[simp] theorem ofData_eq (data : Bytes) : ofData data = ofLittle data := by
  unfold ofData
  split
  · next null => exact (ofLittle_isNull null).symm
  · rfl

/-! ## The encoding

The first byte is the exponent, the next bit the sign, and the rest the mantissa. -/

def mantissa (bits : UInt32) : Nat := bits.toNat % 2 ^ 23

def exponent (bits : UInt32) : Nat := bits.toNat / 2 ^ 24

def signed (bits : UInt32) : Prop := bits.toNat / 2 ^ 23 % 2 = 1

instance (bits : UInt32) : Decidable (signed bits) := inferInstanceAs (Decidable (_ = _))

def expansion (bits : UInt32) : Nat :=
  if 3 ≤ exponent bits then mantissa bits * 2 ^ (8 * (exponent bits - 3))
  else mantissa bits / 2 ^ (8 * (3 - exponent bits))

/-- Some number, but no target: it is below zero, or does not fit into 256 bits. -/
def Outside (bits : UInt32) : Prop := expansion bits ≠ 0 ∧ signed bits ∨ 2 ^ 256 ≤ expansion bits

instance (bits : UInt32) : Decidable (Outside bits) := inferInstanceAs (Decidable (_ ∨ _))

/-- The target that an encoding stands for. -/
def reference (bits : UInt32) : Option Nat :=
  if expansion bits = 0 ∨ Outside bits then none else some (expansion bits)

/-- The work is enough: there is a target, and the hash is not above it. -/
def Sufficient (header : Header) : Prop := ∃ target ∈ reference header.nbits, ofLittle header.pow ≤ target

/-- The number of the bits is what they stand for, and so is the judgement on the work. -/
def Decodes (header : Header) : Prop :=
  PersistedWork.numericHash header.nbits = expansion header.nbits ∧
    (header.checkPow = true ↔ Sufficient header) ∧ (header.valid = true ↔ Sufficient header)

/-- The exponents that shift to the left, and the mantissa that no shift changes. -/
def ShiftsLeft (bits : UInt32) : Prop := 3 ≤ exponent bits ∨ mantissa bits = 0

/-- The hash is not on the side where the order of the numbers and the judgement differ. -/
def Apart (header : Header) : Prop :=
  if Outside header.nbits then expansion header.nbits ≤ ofLittle header.pow
  else expansion header.nbits = 0 ∨ ofLittle header.pow ≠ expansion header.nbits

theorem numericHash_eq (bits : UInt32) : PersistedWork.numericHash bits =
    if exponent bits > 3 then mantissa bits * 2 ^ (8 * (exponent bits - 3))
    else mantissa bits * 2 ^ (8 * (3 - exponent bits)) := rfl

theorem scaled_eq_iff (number : Nat) {factor : Nat} (more : 1 < factor) : number * factor = number / factor ↔ number = 0 := by
  constructor
  · intro same
    have less : number / factor ≤ number := Nat.div_le_self number factor
    by_contra some_number
    have greater : number * 1 < number * factor := Nat.mul_lt_mul_of_pos_left more (Nat.pos_of_ne_zero some_number)
    omega
  · rintro rfl
    rw [Nat.zero_mul, Nat.zero_div]

theorem numericHash_expansion_iff (bits : UInt32) : PersistedWork.numericHash bits = expansion bits ↔ ShiftsLeft bits := by
  rw [numericHash_eq, expansion, ShiftsLeft]
  rcases lt_trichotomy (exponent bits) 3 with below | exact_ | above
  · rw [if_neg (by omega), if_neg (by omega), or_iff_right (by omega)]
    have more : 1 < 2 ^ (8 * (3 - exponent bits)) := Nat.one_lt_two_pow (by omega)
    exact scaled_eq_iff (mantissa bits) more
  · rw [if_neg (by omega), if_pos (by omega), exact_]
    exact iff_of_true rfl (.inl le_rfl)
  · rw [if_pos above, if_pos (by omega)]
    exact iff_of_true rfl (.inl (by omega))

theorem sufficient_iff (header : Header) : Sufficient header ↔
    expansion header.nbits ≠ 0 ∧ ¬ Outside header.nbits ∧ ofLittle header.pow ≤ expansion header.nbits := by
  unfold Sufficient reference
  split
  · next rejected => simp only [Option.mem_def, reduceCtorEq, false_and, exists_false, false_iff]; tauto
  · next taken =>
    rw [not_or] at taken
    simp [taken]

theorem judged_iff (header : Header) :
    (ofLittle header.pow < expansion header.nbits ↔ Sufficient header) ↔ Apart header := by
  rw [sufficient_iff, Apart]
  split
  · next outside =>
    have no : ¬ (expansion header.nbits ≠ 0 ∧ ¬ Outside header.nbits ∧ ofLittle header.pow ≤ expansion header.nbits) :=
      fun enough => enough.2.1 outside
    rw [iff_false_right no, not_lt]
  · next inside =>
    simp only [inside, not_false_eq_true, true_and]
    omega

/-- Bits and hash are decoded and judged as they should be except for the exponents that shift to the
right, the encodings of no target, and the hash that is the target itself. -/
theorem targets_decode_iff (header : Header) : Decodes header ↔ ShiftsLeft header.nbits ∧ Apart header := by
  unfold Decodes Header.checkPow Header.valid Header.numericHash Header.target
  rw [numericHash_expansion_iff, ofData_eq, and_self_iff]
  refine and_congr_right fun left => ?_
  rw [(numericHash_expansion_iff header.nbits).mpr left, decide_eq_true_iff]
  exact judged_iff header

/-- An exponent of one shifts to the right. -/
theorem small_exponent_grows :
    ¬ Decodes { pow := List.replicate 32 0, nbits := 0x01003456 } := by
  rintro ⟨same, _⟩
  revert same
  decide

end Opentxs.HeaderOracle.CompactTarget
