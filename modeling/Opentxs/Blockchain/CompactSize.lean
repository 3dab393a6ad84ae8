import Mathlib.Tactic.SplitIfs
import Opentxs.Library.Endian

/-! The variable-length count that precedes an encoded filter: one byte for small values,
otherwise a marker and two, four or eight little-endian bytes. -/

namespace Opentxs.Blockchain.CompactSize
open Library.Endian

def calculateSize (first : UInt8) : Nat :=
  if first = 0xff then 8
  else if first = 0xfe then 4
  else if first = 0xfd then 2
  else 0

def encode (value : Nat) : Bytes :=
  if value ≤ 252 then toLittle 1 value
  else if value ≤ 65535 then 0xfd :: toLittle 2 value
  else if value ≤ 4294967295 then 0xfe :: toLittle 4 value
  else 0xff :: toLittle 8 value

def size (value : Nat) : Nat := (encode value).length

theorem size_eq (value : Nat) :
    size value = if value ≤ 252 then 1 else if value ≤ 65535 then 3 else if value ≤ 4294967295 then 5 else 9 := by
  unfold size encode
  split
  · exact toLittle_length 1 value
  · split
    · rw [List.length_cons, toLittle_length]
    · split
      · rw [List.length_cons, toLittle_length]
      · rw [List.length_cons, toLittle_length]

theorem size_mono {small large : Nat} (below : small ≤ large) : size small ≤ size large := by
  rw [size_eq, size_eq]
  split_ifs <;> omega

/-- The count together with the bytes it counts. -/
def total (value : Nat) : Nat := size value + value

/-- The view is advanced past the marker and its bytes also when they are cut short. -/
def decodeCompactSize (view : Bytes) : Option Nat × Bytes :=
  match view with
  | [] => (none, [])
  | first :: rest =>
    let extra := calculateSize first
    if first = 0 then (some 0, rest)
    else if extra = 0 then (some first.toNat, rest)
    else if extra ≤ rest.length then (some (ofLittle (rest.take extra)), rest.drop extra)
    else (none, rest.drop extra)

theorem decode_marker (first : UInt8) (size value : Nat) (rest : Bytes) (marker : first ≠ 0)
    (extra : calculateSize first = size) (wide : size ≠ 0) (fits : value < 256 ^ size) :
    decodeCompactSize (first :: (toLittle size value ++ rest)) = (some value, rest) := by
  have taken : (toLittle size value ++ rest).take size = toLittle size value :=
    List.take_left' (toLittle_length size value)
  have dropped : (toLittle size value ++ rest).drop size = rest :=
    List.drop_left' (toLittle_length size value)
  simp only [decodeCompactSize, marker, if_false, extra, wide, List.length_append, toLittle_length,
    Nat.le_add_right, if_true, taken, dropped, ofLittle_toLittle size value fits]

/-- An encoded value decodes to itself and leaves what follows it. -/
theorem decode_encode (value : Nat) (rest : Bytes) (fits : value < 2 ^ 64) :
    decodeCompactSize (encode value ++ rest) = (some value, rest) := by
  rw [encode]
  by_cases one : value ≤ 252
  · rw [if_pos one]
    have byte : (UInt8.ofNat value).toNat = value := by
      rw [UInt8.toNat_ofNat']
      omega
    have small : calculateSize (UInt8.ofNat value) = 0 := by
      have below : ∀ marker : UInt8, 252 < marker.toNat → UInt8.ofNat value ≠ marker := by
        intro marker large same
        rw [← same, byte] at large
        omega
      simp only [calculateSize, below 0xff (by decide), below 0xfe (by decide), below 0xfd (by decide), if_false]
    by_cases zero : UInt8.ofNat value = 0
    · have none : value = 0 := by rw [← byte, zero]; rfl
      simp [toLittle, decodeCompactSize, none]
    · simp [toLittle, decodeCompactSize, zero, small, byte]
  · rw [if_neg one]
    by_cases two : value ≤ 65535
    · rw [if_pos two]
      exact decode_marker 0xfd 2 value rest (by decide) rfl (by decide) (by omega)
    · rw [if_neg two]
      by_cases four : value ≤ 4294967295
      · rw [if_pos four]
        exact decode_marker 0xfe 4 value rest (by decide) rfl (by decide) (by omega)
      · rw [if_neg four]
        exact decode_marker 0xff 8 value rest (by decide) rfl (by decide) (by omega)

/-! ## The shortest form -/

/-- The least value that needs the marker. -/
def least (first : UInt8) : Nat :=
  if first = 0xff then 4294967296
  else if first = 0xfe then 65536
  else if first = 0xfd then 253
  else 0

def Minimal (view : Bytes) : Prop :=
  ∀ first ∈ view.head?, least first ≤ ofLittle (view.tail.take (calculateSize first))

instance (view : Bytes) : Decidable (Minimal view) :=
  match view with
  | [] => .isTrue (fun _ none => nomatch none)
  | first :: rest =>
    decidable_of_iff (least first ≤ ofLittle (rest.take (calculateSize first)))
      ⟨fun enough _ same => Option.some.inj same ▸ enough, fun minimal => minimal first rfl⟩

theorem calculateSize_cases (first : UInt8) : (calculateSize first = 0 ∧ least first = 0 ∧ first.toNat ≤ 252) ∨
    (first = 0xfd ∧ calculateSize first = 2) ∨ (first = 0xfe ∧ calculateSize first = 4) ∨ first = 0xff ∧ calculateSize first = 8 := by
  unfold calculateSize least
  split
  · next eight => exact .inr (.inr (.inr ⟨eight, rfl⟩))
  · next notEight =>
    split
    · next four => exact .inr (.inr (.inl ⟨four, rfl⟩))
    · next notFour =>
      split
      · next two => exact .inr (.inl ⟨two, rfl⟩)
      · next notTwo =>
        have small := first.toNat_lt
        have apart : ∀ marker : UInt8, first ≠ marker → first.toNat ≠ marker.toNat := fun marker differs same =>
          differs (UInt8.toNat_inj.mp same)
        have not255 : first.toNat ≠ 255 := apart 0xff notEight
        have not254 : first.toNat ≠ 254 := apart 0xfe notFour
        have not253 : first.toNat ≠ 253 := apart 0xfd notTwo
        exact .inl ⟨rfl, rfl, by omega⟩

/-- What is decoded fits in eight bytes. -/
theorem decode_lt {view rest : Bytes} {value : Nat} (decoded : decodeCompactSize view = (some value, rest)) :
    value < 2 ^ 64 := by
  cases view with
  | nil => cases decoded
  | cons first tail =>
    simp only [decodeCompactSize] at decoded
    split at decoded
    · cases decoded
      decide
    · split at decoded
      · cases decoded
        exact Nat.lt_trans first.toNat_lt (by decide)
      · split at decoded
        · cases decoded
          have wide : (tail.take (calculateSize first)).length ≤ 8 := by
            rw [List.length_take]
            rcases calculateSize_cases first with ⟨size, _⟩ | ⟨_, size⟩ | ⟨_, size⟩ | ⟨_, size⟩ <;> omega
          calc ofLittle (tail.take (calculateSize first))
            _ < 256 ^ (tail.take (calculateSize first)).length := ofLittle_lt _
            _ ≤ 256 ^ 8 := Nat.pow_le_pow_right (by decide) wide
            _ = 2 ^ 64 := by decide
        · cases decoded

theorem encode_small {value : Nat} (small : value ≤ 252) : encode value = [UInt8.ofNat value] := by
  rw [encode, if_pos small]
  rfl

/-- The value under a marker is written as it was exactly when it needs the marker. -/
theorem encode_marker {first : UInt8} {taken : Bytes} (marked : calculateSize first ≠ 0) (length : taken.length = calculateSize first) :
    encode (ofLittle taken) = first :: taken ↔ least first ≤ ofLittle taken := by
  have below := ofLittle_lt taken
  have back := toLittle_ofLittle taken
  have byte (value : Nat) (small : value ≤ 252) (tail : Bytes) (long : tail ≠ []) : encode value ≠ first :: tail := by
    rw [encode_small small]
    exact fun same => long (List.cons.inj same).2.symm
  have differ {a b : UInt8} {s t : Bytes} (other : a ≠ b) : a :: s ≠ b :: t := fun same => other (List.cons.inj same).1
  have some : taken ≠ [] := by
    rintro rfl
    exact marked length.symm
  rcases calculateSize_cases first with ⟨size, _⟩ | ⟨rfl, size⟩ | ⟨rfl, size⟩ | ⟨rfl, size⟩
  · exact absurd size marked
  · rw [size] at length
    rw [length] at below back
    have bound : ofLittle taken ≤ 65535 := by omega
    by_cases small : ofLittle taken ≤ 252
    · exact iff_of_false (byte _ small _ some) (show ¬ 253 ≤ _ by omega)
    · refine iff_of_true ?_ (show 253 ≤ _ by omega)
      rw [encode, if_neg small, if_pos bound, back]
  · rw [size] at length
    rw [length] at below back
    have bound : ofLittle taken ≤ 4294967295 := by omega
    by_cases small : ofLittle taken ≤ 252
    · exact iff_of_false (byte _ small _ some) (show ¬ 65536 ≤ _ by omega)
    · rw [encode, if_neg small]
      by_cases two : ofLittle taken ≤ 65535
      · rw [if_pos two]
        exact iff_of_false (differ (by decide)) (show ¬ 65536 ≤ _ by omega)
      · rw [if_neg two, if_pos bound, back]
        exact iff_of_true rfl (show 65536 ≤ _ by omega)
  · rw [size] at length
    rw [length] at back
    by_cases small : ofLittle taken ≤ 252
    · exact iff_of_false (byte _ small _ some) (show ¬ 4294967296 ≤ _ by omega)
    · rw [encode, if_neg small]
      by_cases two : ofLittle taken ≤ 65535
      · rw [if_pos two]
        exact iff_of_false (differ (by decide)) (show ¬ 4294967296 ≤ _ by omega)
      · rw [if_neg two]
        by_cases four : ofLittle taken ≤ 4294967295
        · rw [if_pos four]
          exact iff_of_false (differ (by decide)) (show ¬ 4294967296 ≤ _ by omega)
        · rw [if_neg four, back]
          exact iff_of_true rfl (show 4294967296 ≤ _ by omega)

/-- No form of a value needs fewer bytes. -/
theorem size_le {view rest : Bytes} {value : Nat} (decoded : decodeCompactSize view = (some value, rest)) :
    size value + rest.length ≤ view.length := by
  cases view with
  | nil => cases decoded
  | cons first tail =>
    rw [List.length_cons, size_eq]
    simp only [decodeCompactSize] at decoded
    split at decoded
    · cases decoded
      rw [if_pos (by decide)]
      omega
    · split at decoded
      · next plain =>
        cases decoded
        have small : first.toNat ≤ 252 := by
          rcases calculateSize_cases first with ⟨_, _, small⟩ | ⟨_, size⟩ | ⟨_, size⟩ | ⟨_, size⟩
          · exact small
          all_goals exact absurd (size.symm.trans plain) (by decide)
        rw [if_pos small]
        omega
      · next marked =>
        split at decoded
        · next enough =>
          cases decoded
          have below := ofLittle_lt (tail.take (calculateSize first))
          rw [List.length_take_of_le enough] at below
          rw [List.length_drop]
          rcases calculateSize_cases first with ⟨size, _⟩ | ⟨_, size⟩ | ⟨_, size⟩ | ⟨_, size⟩
          · exact absurd size marked
          · rw [size] at below enough ⊢
            split_ifs <;> omega
          · rw [size] at below enough ⊢
            split_ifs <;> omega
          · rw [size] at below enough ⊢
            split_ifs <;> omega
        · cases decoded

/-- What was decoded is encoded as it was exactly when it was in its shortest form. -/
theorem encode_decode {view rest : Bytes} {value : Nat} (decoded : decodeCompactSize view = (some value, rest)) :
    encode value ++ rest = view ↔ Minimal view := by
  cases view with
  | nil => cases decoded
  | cons first tail =>
    have minimal : Minimal (first :: tail) ↔ least first ≤ ofLittle (tail.take (calculateSize first)) :=
      ⟨fun all => all first rfl, fun enough _ same => Option.some.inj same ▸ enough⟩
    rw [minimal]
    simp only [decodeCompactSize] at decoded
    split at decoded
    · next zero =>
      cases decoded
      subst zero
      exact iff_of_true rfl (Nat.zero_le _)
    · split at decoded
      · next plain =>
        cases decoded
        have small : least first = 0 ∧ first.toNat ≤ 252 := by
          rcases calculateSize_cases first with ⟨_, rest⟩ | ⟨_, size⟩ | ⟨_, size⟩ | ⟨_, size⟩
          · exact rest
          all_goals exact absurd (size.symm.trans plain) (by decide)
        refine iff_of_true ?_ (small.1 ▸ Nat.zero_le _)
        rw [encode_small small.2, UInt8.ofNat_toNat]
        rfl
      · next marked =>
        split at decoded
        · next enough =>
          cases decoded
          have split : first :: tail = (first :: tail.take (calculateSize first)) ++ tail.drop (calculateSize first) := by
            rw [List.cons_append, List.take_append_drop]
          rw [split, List.append_left_inj]
          exact encode_marker marked (List.length_take_of_le enough)
        · cases decoded

/-- The encoded value followed by anything is what was decoded exactly when it was in its shortest form and is
followed by what was left. -/
theorem encode_append_iff {view rest other : Bytes} {value : Nat} (decoded : decodeCompactSize view = (some value, rest)) :
    encode value ++ other = view ↔ Minimal view ∧ other = rest := by
  constructor
  · rintro same
    have again := decode_encode value other (decode_lt decoded)
    rw [same, decoded] at again
    have left : rest = other := congrArg Prod.snd again
    exact ⟨(encode_decode decoded).mp (left ▸ same), left.symm⟩
  · rintro ⟨minimal, rfl⟩
    exact (encode_decode decoded).mpr minimal

end Opentxs.Blockchain.CompactSize
