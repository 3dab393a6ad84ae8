import Mathlib.Data.List.Basic
import Mathlib.Data.UInt

/-! Little-endian integers of a fixed number of bytes. -/

namespace Opentxs.Library.Endian

abbrev Bytes := List UInt8

def toLittle : (size value : Nat) → Bytes
  | 0, _ => []
  | size + 1, value => UInt8.ofNat value :: toLittle size (value / 256)

def ofLittle (bytes : Bytes) : Nat :=
  bytes.foldr (fun byte rest => byte.toNat + 256 * rest) 0

@[simp] theorem toLittle_length (size value : Nat) : (toLittle size value).length = size := by
  induction size generalizing value with
  | zero => rfl
  | succ size ih => rw [toLittle, List.length_cons, ih]

theorem ofLittle_toLittle (size value : Nat) (fits : value < 256 ^ size) :
    ofLittle (toLittle size value) = value := by
  induction size generalizing value with
  | zero =>
    rw [pow_zero, Nat.lt_one_iff] at fits
    rw [fits]
    rfl
  | succ size ih =>
    have smaller : value / 256 < 256 ^ size := by
      rw [Nat.div_lt_iff_lt_mul (by decide), ← pow_succ]
      exact fits
    have tail := ih (value / 256) smaller
    simp only [ofLittle] at tail
    rw [toLittle, ofLittle, List.foldr_cons, tail, UInt8.toNat_ofNat']
    omega

theorem toLittle_ofLittle (bytes : Bytes) : toLittle bytes.length (ofLittle bytes) = bytes := by
  induction bytes with
  | nil => rfl
  | cons byte rest ih =>
    have value : ofLittle (byte :: rest) = byte.toNat + 256 * ofLittle rest := rfl
    have small := byte.toNat_lt
    have quotient : ofLittle (byte :: rest) / 256 = ofLittle rest := by omega
    have first : UInt8.ofNat (ofLittle (byte :: rest)) = byte := by
      apply UInt8.toNat_inj.mp
      rw [UInt8.toNat_ofNat']
      omega
    rw [List.length_cons, toLittle, quotient, first, ih]

theorem ofLittle_lt (bytes : Bytes) : ofLittle bytes < 256 ^ bytes.length := by
  induction bytes with
  | nil => decide
  | cons byte rest ih =>
    have value : ofLittle (byte :: rest) = byte.toNat + 256 * ofLittle rest := rfl
    have small := byte.toNat_lt
    rw [List.length_cons, pow_succ]
    omega

end Opentxs.Library.Endian
