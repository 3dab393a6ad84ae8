import Opentxs.Rlp.Decoder

/-! What may stand for a node, apart from how it is decoded, and what the decoder makes of the front of its input. -/

namespace Opentxs.Rlp
open Library.Endian Library.Hex

/-! ## The grammar -/

/-- A length of less than fifty-six in one byte, or any length in one to eight bytes of its own. -/
inductive Header (shortVal longVal : UInt8) : Bytes → Nat → Prop
  | short (length : Nat) (small : length < Const.long) : Header shortVal longVal [shortVal + UInt8.ofNat length] length
  | long (size : Bytes) (some : 1 ≤ size.length) (few : size.length ≤ 8) :
    Header shortVal longVal ((longVal + UInt8.ofNat size.length) :: size) (importBits size)

mutual

/-- Every list has exactly as many bytes of items as its header says. -/
inductive Wire : Node → Bytes → Prop
  | null : Wire .null [Const.null]
  | byte (byte : UInt8) (direct : byte ≤ Const.directEncode) : Wire (.string [byte]) [byte]
  | string (header bytes : Bytes) (some : bytes ≠ []) (length : Header Const.null Const.shortString header bytes.length) :
    Wire (.string bytes) (header ++ bytes)
  | sequence (items : List Node) (header bytes : Bytes) (length : Header Const.shortList Const.longList header bytes.length)
      (all : Wires items bytes) : Wire (.sequence items) (header ++ bytes)

inductive Wires : List Node → Bytes → Prop
  | nil : Wires [] []
  | cons (item : Node) (items : List Node) (first rest : Bytes) (here : Wire item first) (later : Wires items rest) :
    Wires (item :: items) (first ++ rest)

end

theorem importBits_lt (bytes : Bytes) : importBits bytes < 256 ^ bytes.length := by
  induction bytes using List.reverseRecOn with
  | nil => decide
  | append_singleton bytes byte ih =>
    have value : importBits (bytes ++ [byte]) = importBits bytes * 256 + byte.toNat := List.foldl_concat ..
    have small := byte.toNat_lt
    rw [List.length_append, List.length_singleton, pow_succ, value]
    omega

theorem Header.lt {shortVal longVal : UInt8} {header : Bytes} {length : Nat} (header_of : Header shortVal longVal header length) :
    length < 2 ^ 64 := by
  cases header_of with
  | short length small => exact Nat.lt_trans small (by decide)
  | long size some few =>
    calc importBits size
      _ < 256 ^ size.length := importBits_lt size
      _ ≤ 256 ^ 8 := Nat.pow_le_pow_right (by decide) few
      _ = 2 ^ 64 := by decide

theorem Header.positive {shortVal longVal : UInt8} {header : Bytes} {length : Nat} (header_of : Header shortVal longVal header length) :
    1 ≤ header.length := by
  cases header_of with
  | short length small => exact Nat.le_refl 1
  | long size some few => exact Nat.le_add_left 1 _

theorem Wire.positive {node : Node} {used : Bytes} (wire : Wire node used) : 1 ≤ used.length := by
  cases wire with
  | null => exact Nat.le_refl 1
  | byte byte direct => exact Nat.le_refl 1
  | string header bytes some length =>
    rw [List.length_append]
    exact Nat.le_add_right_of_le length.positive
  | sequence items header bytes length all =>
    rw [List.length_append]
    exact Nat.le_add_right_of_le length.positive

/-! ## Reads -/

namespace Decoder

variable {decoder next last : Decoder} {used more : Bytes}

theorem checkRead_iff {expected : Nat} : decoder.checkRead expected = true ↔
    expected ≤ decoder.input.length ∧ ∀ back ∈ decoder.substring.head?, expected ≤ back.toNat := by
  unfold checkRead remaining
  split
  · next short => exact iff_of_false Bool.false_ne_true fun both => absurd both.1 (Nat.not_le.mpr short)
  · next enough =>
    have fits := Nat.le_of_not_lt enough
    cases decoder.substring with
    | nil => exact iff_of_true rfl ⟨fits, fun _ none => nomatch none⟩
    | cons back rest =>
      rw [decide_eq_true_iff, List.head?_cons]
      exact ⟨fun le => ⟨fits, fun _ same => Option.some.inj same ▸ le⟩, fun both => both.2 back rfl⟩

theorem sub_toNat {counter : UInt64} {bytes : Nat} (fits : bytes ≤ counter.toNat) :
    (counter - UInt64.ofNat bytes).toNat = counter.toNat - bytes := by
  have small := counter.toNat_lt
  have same : (UInt64.ofNat bytes).toNat = bytes := by
    rw [UInt64.toNat_ofNat', Nat.mod_eq_of_lt (Nat.lt_of_le_of_lt fits small)]
  rw [UInt64.toNat_sub_of_le _ _ (UInt64.le_iff_toNat_le.mpr (same.le.trans fits)), same]

theorem sub_sub (counter : UInt64) (a b : Nat) :
    counter - UInt64.ofNat a - UInt64.ofNat b = counter - UInt64.ofNat (a + b) := by
  rw [UInt64.ofNat_add]
  grind

/-- The decoder has read what was used. Every read on the way took place at an offset of it, and left the counters
of the lists that were entered since above zero. -/
structure Advances (decoder next : Decoder) (used : Bytes) : Prop where
  input : decoder.input = used ++ next.input
  substring : next.substring = decoder.substring.map (· - UInt64.ofNat used.length)
  reads : ∃ new, next.reads = decoder.reads ++ new ∧ ∀ read ∈ new, ∃ inner offset,
    read.2 = inner ++ decoder.substring.map (· - UInt64.ofNat offset) ∧ (∀ counter ∈ inner, read.1 ≤ counter.toNat) ∧
      offset + read.1 ≤ used.length

theorem map_sub (counters : List UInt64) (a b : Nat) :
    (counters.map (· - UInt64.ofNat a)).map (· - UInt64.ofNat b) = counters.map (· - UInt64.ofNat (a + b)) := by
  rw [List.map_map]
  exact List.map_congr_left fun counter _ => sub_sub counter a b

theorem map_sub_zero (counters : List UInt64) : counters.map (· - UInt64.ofNat 0) = counters := by
  have same : (fun counter : UInt64 => counter - UInt64.ofNat 0) = id := by
    funext counter
    exact UInt64.sub_zero counter
  rw [same, List.map_id]

theorem advances_finishRead {bytes : Nat} (fits : bytes ≤ decoder.input.length) :
    Advances decoder (decoder.finishRead bytes) (decoder.input.take bytes) := by
  have length : (decoder.input.take bytes).length = bytes := List.length_take_of_le fits
  refine ⟨(List.take_append_drop bytes decoder.input).symm, by rw [length]; rfl, [(bytes, decoder.substring)], rfl, ?_⟩
  intro read member
  obtain rfl := List.mem_singleton.mp member
  refine ⟨[], 0, ?_, fun counter none => absurd none List.not_mem_nil, by rw [length]; omega⟩
  rw [map_sub_zero]
  rfl

theorem Advances.trans (first : Advances decoder next used) (second : Advances next last more) :
    Advances decoder last (used ++ more) := by
  obtain ⟨new, log, all⟩ := first.reads
  obtain ⟨newer, later, others⟩ := second.reads
  refine ⟨?_, ?_, new ++ newer, ?_, ?_⟩
  · rw [first.input, second.input, List.append_assoc]
  · rw [second.substring, first.substring, map_sub, List.length_append]
  · rw [later, log, List.append_assoc]
  · intro read member
    rcases List.mem_append.mp member with early | late
    · obtain ⟨inner, offset, counters, positive, within⟩ := all read early
      exact ⟨inner, offset, counters, positive, by rw [List.length_append]; omega⟩
    · obtain ⟨inner, offset, counters, positive, within⟩ := others read late
      refine ⟨inner, used.length + offset, ?_, positive, by rw [List.length_append]; omega⟩
      rw [counters, first.substring, map_sub]

theorem Advances.length (advances : Advances decoder next used) : decoder.input.length = used.length + next.input.length := by
  rw [advances.input, List.length_append]

/-- Two reads in a row are allowed when one read of both is. -/
theorem Advances.checkRead (advances : Advances decoder next used) (first : decoder.checkRead used.length = true) (bytes : Nat) :
    next.checkRead bytes = decoder.checkRead (used.length + bytes) := by
  rw [Bool.eq_iff_iff, checkRead_iff, checkRead_iff, advances.substring]
  have room := (checkRead_iff.mp first).2
  have length := advances.length
  have counter : (∀ back ∈ (decoder.substring.map (· - UInt64.ofNat used.length)).head?, bytes ≤ back.toNat) ↔
      ∀ back ∈ decoder.substring.head?, used.length + bytes ≤ back.toNat := by
    cases kept : decoder.substring with
    | nil => exact iff_of_true (fun _ none => nomatch none) (fun _ none => nomatch none)
    | cons back rest =>
      have enough := room back (kept ▸ rfl)
      have value := sub_toNat enough
      constructor
      · intro all other same
        obtain rfl := Option.some.inj same
        have bound : bytes ≤ (back - UInt64.ofNat used.length).toNat := all _ rfl
        omega
      · intro all other same
        obtain rfl := Option.some.inj same
        have bound := all back rfl
        show bytes ≤ (back - UInt64.ofNat used.length).toNat
        omega
  rw [counter]
  constructor
  · rintro ⟨enough, all⟩
    exact ⟨by omega, all⟩
  · rintro ⟨enough, all⟩
    exact ⟨by omega, all⟩

theorem checkRead_finishRead {a b : Nat} (first : decoder.checkRead a = true) :
    (decoder.finishRead a).checkRead b = decoder.checkRead (a + b) := by
  have long := (checkRead_iff.mp first).1
  have length : (decoder.input.take a).length = a := List.length_take_of_le long
  have both := (advances_finishRead long).checkRead (length.symm ▸ first) b
  rw [length] at both
  exact both

/-- A list is left when its counter is zero, which it is only after exactly its length was read. -/
theorem Advances.leave {length : Nat} (advances : Advances (decoder.enter length) next used) (small : length < 2 ^ 64)
    (fits : used.length < 2 ^ 64) (zero : next.substring.headD 0 = 0) : Advances decoder next.leave used ∧ used.length = length := by
  have counter : UInt64.ofNat length - UInt64.ofNat used.length = 0 := by
    have head := zero
    rw [advances.substring] at head
    exact head
  have exact_length : used.length = length := by
    have same : UInt64.ofNat length = UInt64.ofNat used.length := by
      rw [sub_eq_zero] at counter
      exact counter
    have values := congrArg UInt64.toNat same
    rw [UInt64.toNat_ofNat', UInt64.toNat_ofNat', Nat.mod_eq_of_lt small, Nat.mod_eq_of_lt fits] at values
    exact values.symm
  refine ⟨⟨advances.input, ?_, ?_⟩, exact_length⟩
  · show next.substring.tail = _
    rw [advances.substring]
    rfl
  · obtain ⟨new, log, all⟩ := advances.reads
    refine ⟨new, log, fun read member => ?_⟩
    obtain ⟨inner, offset, counters, positive, within⟩ := all read member
    refine ⟨inner ++ [UInt64.ofNat length - UInt64.ofNat offset], offset, ?_, ?_, within⟩
    · rw [counters, List.append_assoc]
      rfl
    · intro counter member
      rcases List.mem_append.mp member with deep | here
      · exact positive counter deep
      · obtain rfl := List.mem_singleton.mp here
        have same : (UInt64.ofNat length).toNat = length := by rw [UInt64.toNat_ofNat', Nat.mod_eq_of_lt small]
        rw [sub_toNat (by omega), same]
        omega

end Decoder

end Opentxs.Rlp
