import Mathlib.Data.Nat.Digits.Defs
import Opentxs.Library.Endian

/-! Numbers as big-endian bytes and bytes as hexadecimal text, and how both are read back. -/

namespace Opentxs.Library.Hex
open Endian

/-! ## Numbers as bytes -/

/-- Zero takes one byte. -/
def exportBits (value : Nat) : Bytes :=
  if value = 0 then [0] else ((Nat.digits 256 value).map UInt8.ofNat).reverse

def importBits (bytes : Bytes) : Nat := bytes.foldl (fun value byte => value * 256 + byte.toNat) 0

theorem importBits_reverse (digits : List Nat) (small : ∀ digit ∈ digits, digit < 256) :
    importBits (digits.map UInt8.ofNat).reverse = Nat.ofDigits 256 digits := by
  rw [importBits, List.foldl_reverse]
  induction digits with
  | nil => rfl
  | cons digit digits ih =>
    obtain ⟨here, later⟩ := List.forall_mem_cons.mp small
    have same : (UInt8.ofNat digit).toNat = digit := by rw [UInt8.toNat_ofNat', Nat.mod_eq_of_lt here]
    rw [List.map_cons, List.foldr_cons, ih later, same, Nat.ofDigits_cons]
    omega

theorem importBits_exportBits (value : Nat) : importBits (exportBits value) = value := by
  unfold exportBits
  split
  · next zero =>
    rw [zero]
    rfl
  · rw [importBits_reverse _ fun digit member => Nat.digits_lt_base (by decide) member, Nat.ofDigits_digits]

theorem exportBits_ne_nil (value : Nat) : exportBits value ≠ [] := by
  unfold exportBits
  split
  · exact List.cons_ne_nil _ _
  · next positive =>
    intro empty
    exact positive (Nat.digits_eq_nil_iff_eq_zero.mp (List.map_eq_nil_iff.mp (List.reverse_eq_nil_iff.mp empty)))

/-! ## Bytes as text -/

def hexPair (byte : UInt8) : List Char := [Nat.digitChar (byte.toNat / 16), Nat.digitChar (byte.toNat % 16)]

def toHex (bytes : Bytes) : List Char := bytes.flatMap hexPair

def hexValue (digit : Char) : Option Nat :=
  if digit.isDigit then some (digit.toNat - '0'.toNat)
  else if 'a' ≤ digit ∧ digit ≤ 'f' then some (digit.toNat - 'a'.toNat + 10)
  else if 'A' ≤ digit ∧ digit ≤ 'F' then some (digit.toNat - 'A'.toNat + 10)
  else none

/-- The digits up to the first other character. -/
def magnitude (value : Nat) : List Char → Nat
  | [] => value
  | digit :: digits =>
    match hexValue digit with
    | some next => magnitude (value * 16 + next) digits
    | none => value

def strtol (text : List Char) : Int :=
  match text.dropWhile Char.isWhitespace with
  | '-' :: digits => -(magnitude 0 digits : Int)
  | '+' :: digits => magnitude 0 digits
  | digits => magnitude 0 digits

def decodePairs : List Char → Bytes
  | first :: second :: rest => UInt8.ofNat (strtol [first, second] % 256).toNat :: decodePairs rest
  | _ => []

def strip : List Char → List Char
  | '0' :: 'x' :: rest => rest
  | '0' :: 'X' :: rest => rest
  | text => text

def pad (text : List Char) : List Char := if text.length % 2 = 0 then text else '0' :: text

def decodeHex : List Char → Option Bytes
  | [] => some []
  | [_] => none
  | text => some (decodePairs (pad (strip text)))

theorem toHex_length (bytes : Bytes) : (toHex bytes).length = 2 * bytes.length := by
  induction bytes with
  | nil => rfl
  | cons byte bytes ih =>
    show (hexPair byte ++ toHex bytes).length = _
    rw [List.length_append, ih, List.length_cons]
    show 2 + _ = _
    omega

theorem strtol_hexPair (byte : UInt8) : UInt8.ofNat (strtol (hexPair byte) % 256).toNat = byte := by
  have each : ∀ value : Fin 256, (strtol [Nat.digitChar (value.val / 16), Nat.digitChar (value.val % 16)] % 256).toNat = value.val := by
    decide +kernel
  have here := each ⟨byte.toNat, byte.toNat_lt⟩
  rw [hexPair, here, UInt8.ofNat_toNat]

theorem decodePairs_toHex (bytes : Bytes) : decodePairs (toHex bytes) = bytes := by
  induction bytes with
  | nil => rfl
  | cons byte bytes ih =>
    show UInt8.ofNat (strtol (hexPair byte) % 256).toNat :: decodePairs (toHex bytes) = byte :: bytes
    rw [strtol_hexPair, ih]

/-- A digit is no part of a prefix. -/
theorem strip_toHex (bytes : Bytes) : strip (toHex bytes) = toHex bytes := by
  have each : ∀ value : Fin 16, Nat.digitChar value.val ≠ 'x' ∧ Nat.digitChar value.val ≠ 'X' := by decide
  cases bytes with
  | nil => rfl
  | cons byte bytes =>
    obtain ⟨small, large⟩ := each ⟨byte.toNat % 16, Nat.mod_lt _ (by decide)⟩
    show strip (Nat.digitChar _ :: Nat.digitChar _ :: toHex bytes) = _
    unfold strip
    split
    · next same =>
      rw [List.cons.injEq, List.cons.injEq] at same
      exact absurd same.2.1 small
    · next same =>
      rw [List.cons.injEq, List.cons.injEq] at same
      exact absurd same.2.1 large
    · rfl

theorem decodeHex_toHex (bytes : Bytes) : decodeHex (toHex bytes) = some bytes := by
  cases bytes with
  | nil => rfl
  | cons byte bytes =>
    show some (decodePairs (pad (strip (toHex (byte :: bytes))))) = _
    rw [strip_toHex, pad, if_pos (by rw [toHex_length]; omega), decodePairs_toHex]

end Opentxs.Library.Hex
