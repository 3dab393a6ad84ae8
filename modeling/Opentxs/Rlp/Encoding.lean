import Mathlib.Data.Nat.Digits.Lemmas
import Opentxs.Rlp.Wire

/-! What is encoded: as many bytes as were calculated, and bytes that stand for the node. -/

namespace Opentxs.Rlp
open Library.Endian Library.Hex

/-! ## Lengths in base sixteen -/

theorem pad_append (text : List Char) (first second : Char) : pad (text ++ [first, second]) = pad text ++ [first, second] := by
  have parity : (text ++ [first, second]).length % 2 = text.length % 2 := by
    rw [List.length_append]
    show (text.length + 2) % 2 = _
    omega
  unfold pad
  rw [parity]
  split <;> rfl

theorem exportBits_step {value : Nat} (large : 256 ≤ value) :
    exportBits value = exportBits (value / 256) ++ [UInt8.ofNat (value % 256)] := by
  have some : value ≠ 0 := by omega
  have quotient : value / 256 ≠ 0 := by omega
  unfold exportBits
  rw [if_neg some, if_neg quotient, Nat.digits_def' (by decide) (Nat.pos_of_ne_zero some), List.map_cons, List.reverse_cons]

theorem hexDigits_step {value : Nat} (large : 16 ≤ value) :
    hexDigits value = hexDigits (value / 16) ++ [Nat.digitChar (value % 16)] := by
  have some : value ≠ 0 := by omega
  have quotient : value / 16 ≠ 0 := by omega
  unfold hexDigits
  rw [if_neg some, if_neg quotient, Nat.digits_def' (by decide) (Nat.pos_of_ne_zero some), List.reverse_cons, List.map_append]
  rfl

/-- The text of a number is the text of its bytes, but for a zero in front. -/
theorem pad_hexDigits (value : Nat) : pad (hexDigits value) = toHex (exportBits value) := by
  induction value using Nat.strongRecOn with
  | ind value ih =>
    by_cases small : value < 256
    · have each : ∀ n < 256, pad (hexDigits n) = toHex (exportBits n) := by decide +kernel
      exact each value small
    · have byte : (UInt8.ofNat (value % 256)).toNat = value % 256 := by
        rw [UInt8.toNat_ofNat']
        omega
      have pair : hexPair (UInt8.ofNat (value % 256)) = [Nat.digitChar (value / 16 % 16), Nat.digitChar (value % 16)] := by
        have high : value % 256 / 16 = value / 16 % 16 := by omega
        have low : value % 256 % 16 = value % 16 := by omega
        rw [hexPair, byte, high, low]
      calc pad (hexDigits value)
        _ = pad (hexDigits (value / 256) ++ [Nat.digitChar (value / 16 % 16), Nat.digitChar (value % 16)]) := by
          rw [hexDigits_step (by omega), hexDigits_step (by omega), Nat.div_div_eq_div_mul, List.append_assoc]
          rfl
        _ = pad (hexDigits (value / 256)) ++ [Nat.digitChar (value / 16 % 16), Nat.digitChar (value % 16)] := pad_append _ _ _
        _ = toHex (exportBits (value / 256)) ++ hexPair (UInt8.ofNat (value % 256)) := by rw [ih _ (by omega), pair]
        _ = toHex (exportBits (value / 256) ++ [UInt8.ofNat (value % 256)]) := by
          unfold toHex
          rw [List.flatMap_append, List.flatMap_singleton]
        _ = toHex (exportBits value) := by rw [exportBits_step (Nat.le_of_not_lt small)]

theorem dataFromHex_hexDigits (value : Nat) : dataFromHex ('0' :: 'x' :: hexDigits value) = exportBits value := by
  show decodePairs (pad (hexDigits value)) = _
  rw [pad_hexDigits, decodePairs_toHex]

theorem exportBits_length {value : Nat} (size : Nat) (large : 256 ^ size ≤ value) (small : value < 256 ^ (size + 1)) :
    (exportBits value).length = size + 1 := by
  have some : value ≠ 0 := Nat.ne_of_gt (Nat.lt_of_lt_of_le (Nat.pow_pos (by decide)) large)
  unfold exportBits
  rw [if_neg some, List.length_reverse, List.length_map]
  exact Nat.le_antisymm ((Nat.digits_length_le_iff (by decide) value).mpr small) ((Nat.lt_digits_length_iff (by decide) value).mpr large)

/-- The bytes of a length are counted by comparing it with the powers of two. -/
theorem exportBits_size {value : Nat} (large : 1 ≤ value) (small : value < 2 ^ 64) :
    (exportBits value).length = calculateEncodedSize value := by
  unfold calculateEncodedSize
  split
  · exact exportBits_length 0 (by omega) (by omega)
  · split
    · exact exportBits_length 1 (by omega) (by omega)
    · split
      · exact exportBits_length 2 (by omega) (by omega)
      · split
        · exact exportBits_length 3 (by omega) (by omega)
        · split
          · exact exportBits_length 4 (by omega) (by omega)
          · split
            · exact exportBits_length 5 (by omega) (by omega)
            · split
              · exact exportBits_length 6 (by omega) (by omega)
              · exact exportBits_length 7 (by omega) (by omega)

theorem calculateEncodedSize_bounds (value : Nat) : 1 ≤ calculateEncodedSize value ∧ calculateEncodedSize value ≤ 8 := by
  unfold calculateEncodedSize
  split
  · decide
  · split
    · decide
    · split
      · decide
      · split
        · decide
        · split
          · decide
          · split
            · decide
            · split <;> decide

/-! ## Headers -/

def headerSize (length : Nat) : Nat := if length < Const.long then 1 else 1 + calculateEncodedSize length

theorem makePrefix_header (shortVal longVal : UInt8) {length : Nat} (small : length < 2 ^ 64) :
    ∃ header, makePrefix shortVal longVal length = some header ∧ Header shortVal longVal header length ∧
      header.length = headerSize length := by
  unfold makePrefix headerSize
  split
  · next short => exact ⟨_, rfl, .short length short, rfl⟩
  · next long =>
    have large : 56 ≤ length := Nat.le_of_not_lt long
    have size := exportBits_size (by omega) small
    obtain ⟨some, few⟩ := calculateEncodedSize_bounds length
    have fits : (exportBits length).length < 9 := by omega
    refine ⟨(longVal + UInt8.ofNat (exportBits length).length) :: exportBits length, ?_, ?_, ?_⟩
    · unfold encodeSize
      rw [dataFromHex_hexDigits, if_pos fits]
    · have header : Header shortVal longVal _ _ := .long (exportBits length) (by omega) (by omega)
      rw [importBits_exportBits] at header
      exact header
    · rw [List.length_cons, size, Nat.add_comm]

/-! ## Nodes -/

mutual

/-- The node with every empty string replaced by null. -/
def Node.nullify : Node → Node
  | .null => .null
  | .string [] => .null
  | .string bytes => .string bytes
  | .sequence items => .sequence (nullifyAll items)

def nullifyAll : List Node → List Node
  | [] => []
  | node :: nodes => node.nullify :: nullifyAll nodes

end

theorem encodeString_wire (bytes : Bytes) (small : stringSize bytes < 2 ^ 64) :
    ∃ out, encodeString bytes = some out ∧ Wire (Node.string bytes).nullify out ∧ out.length = stringSize bytes := by
  match bytes with
  | [] => exact ⟨_, rfl, .null, rfl⟩
  | [byte] =>
    by_cases direct : byte ≤ Const.directEncode
    · refine ⟨[byte], ?_, .byte byte direct, ?_⟩
      · have can : canDirectEncode [byte] = true := decide_eq_true direct
        unfold encodeString
        rw [if_pos can]
        rfl
      · show 1 = byteSize byte
        rw [byteSize, if_neg (UInt8.not_lt.mpr direct)]
    · refine ⟨[Const.null + UInt8.ofNat 1, byte], ?_, .string _ [byte] (List.cons_ne_nil _ _) (.short 1 (by decide)), ?_⟩
      · have cannot : ¬ canDirectEncode [byte] = true := fun can => direct (of_decide_eq_true can)
        unfold encodeString
        rw [if_neg cannot]
        rfl
      · show 2 = byteSize byte
        rw [byteSize, if_pos (UInt8.not_le.mp direct)]
  | first :: second :: rest =>
    have size : stringSize (first :: second :: rest) = headerSize (first :: second :: rest).length + (first :: second :: rest).length := by
      unfold stringSize headerSize
      rw [if_neg (by rw [List.length_cons]; omega), if_neg (by rw [List.length_cons, List.length_cons]; omega)]
      split <;> rfl
    have fits : (first :: second :: rest).length < 2 ^ 64 := by omega
    obtain ⟨header, prefixed, header_of, length⟩ := makePrefix_header Const.null Const.shortString fits
    refine ⟨header ++ (first :: second :: rest), ?_, .string header _ (List.cons_ne_nil _ _) header_of, ?_⟩
    · unfold encodeString
      rw [if_neg (by simp [canDirectEncode]), prefixed]
      rfl
    · rw [List.length_append, length, size]

theorem sequenceSize_eq (payload : Nat) : sequenceSize payload = headerSize payload + payload := by
  unfold sequenceSize headerSize
  split
  · next zero =>
    rw [zero]
    rfl
  · split <;> rfl

mutual

/-- What is encoded has the size that was calculated and stands for the node without empty strings. -/
theorem Node.encode_wire (node : Node) (small : node.encodedSize < 2 ^ 64) :
    ∃ out, node.encode = some out ∧ Wire node.nullify out ∧ out.length = node.encodedSize := by
  match node with
  | .null => exact ⟨_, rfl, .null, rfl⟩
  | .string bytes => exact encodeString_wire bytes small
  | .sequence items =>
    have size : (Node.sequence items).encodedSize = headerSize (payload items) + payload items := by
      rw [Node.encodedSize, sequenceSize_eq]
    obtain ⟨body, encoded, wires, length⟩ := encodeAll_wires items (by omega)
    have fits : payload items < 2 ^ 64 := by omega
    obtain ⟨header, prefixed, header_of, long⟩ := makePrefix_header Const.shortList Const.longList fits
    refine ⟨header ++ body, ?_, ?_, ?_⟩
    · rw [Node.encode, prefixed, encoded]
      rfl
    · rw [Node.nullify]
      exact .sequence _ header body (length ▸ header_of) wires
    · rw [List.length_append, long, length, size]

theorem encodeAll_wires (nodes : List Node) (small : payload nodes < 2 ^ 64) :
    ∃ out, encodeAll nodes = some out ∧ Wires (nullifyAll nodes) out ∧ out.length = payload nodes := by
  match nodes with
  | [] => exact ⟨[], rfl, .nil, rfl⟩
  | node :: nodes =>
    rw [payload] at small
    obtain ⟨first, encoded, wire, length⟩ := Node.encode_wire node (by omega)
    obtain ⟨rest, others, wires, longer⟩ := encodeAll_wires nodes (by omega)
    refine ⟨first ++ rest, ?_, .cons _ _ _ _ wire wires, ?_⟩
    · rw [encodeAll, encoded, others]
      rfl
    · rw [List.length_append, length, longer, payload]

end

end Opentxs.Rlp
