import Opentxs.Rlp.Wire

/-! The decoder's next step, by what stands at the front of its input: a whole item without items of its own, the
header of a list, or something that it does not accept. -/

namespace Opentxs.Rlp
open Library.Endian Library.Hex

inductive Front
  | refused
  | zero
  | leaf (node : Node) (bytes : Nat)
  | list (bytes length : Nat)
deriving Repr

/-- A read is allowed by the input and by the innermost counter. -/
def fits (counters : List UInt64) (input : Bytes) (bytes : Nat) : Bool :=
  Decoder.checkRead { input, substring := counters, reads := [] } bytes

def stringFront (counters : List UInt64) (input : Bytes) (header length : Nat) : Front :=
  if length = 0 then .zero
  else if fits counters input (header + length) then .leaf (.string ((input.drop header).take length)) (header + length)
  else .refused

def front (counters : List UInt64) (input : Bytes) : Front :=
  match input with
  | [] => .refused
  | marker :: rest =>
    match Decoder.classify marker with
    | .null => .leaf .null 1
    | .byte => .leaf (.string [marker]) 1
    | .shortString => stringFront counters input 1 (marker.toNat - Const.null.toNat)
    | .longString =>
      let bytes := marker.toNat - Const.shortString.toNat
      if fits counters input (1 + bytes) then stringFront counters input (1 + bytes) (importBits (rest.take bytes))
      else .refused
    | .shortList => .list 1 (marker.toNat - Const.shortList.toNat)
    | .longList =>
      let bytes := marker.toNat - Const.longList.toNat
      if fits counters input (1 + bytes) then .list (1 + bytes) (importBits (rest.take bytes))
      else .refused

namespace Decoder

/-! ## Markers -/

/-- The markers of each kind. -/
def Marks (marker : UInt8) : Kind → Prop
  | .null => marker.toNat = 128
  | .byte => marker.toNat ≤ 127
  | .shortString => 128 < marker.toNat ∧ marker.toNat < 128 + Const.long
  | .longString => 183 < marker.toNat ∧ marker.toNat ≤ 183 + 8
  | .shortList => 192 ≤ marker.toNat ∧ marker.toNat < 192 + Const.long
  | .longList => 247 < marker.toNat ∧ marker.toNat ≤ 247 + 8

theorem marks_classify (marker : UInt8) : Marks marker (classify marker) := by
  have small := marker.toNat_lt
  unfold classify
  split
  · next direct => exact UInt8.le_iff_toNat_le.mp direct
  · next indirect =>
    have above : 127 < marker.toNat := UInt8.lt_iff_toNat_lt.mp (UInt8.not_le.mp indirect)
    split
    · next null => exact congrArg UInt8.toNat null
    · next other =>
      have differs : marker.toNat ≠ 128 := fun same => other (UInt8.toNat_inj.mp same)
      split
      · next short =>
        have below : marker.toNat < 184 := UInt8.lt_iff_toNat_lt.mp short
        exact ⟨by omega, below⟩
      · next notShort =>
        have least : 184 ≤ marker.toNat := UInt8.le_iff_toNat_le.mp (UInt8.not_lt.mp notShort)
        split
        · next long =>
          have below : marker.toNat < 192 := UInt8.lt_iff_toNat_lt.mp long
          exact ⟨by omega, by omega⟩
        · next notLong =>
          have list : 192 ≤ marker.toNat := UInt8.le_iff_toNat_le.mp (UInt8.not_lt.mp notLong)
          split
          · next short =>
            have below : marker.toNat ≤ 247 := UInt8.le_iff_toNat_le.mp short
            exact ⟨list, show marker.toNat < 248 by omega⟩
          · next long =>
            have beyond : 247 < marker.toNat := UInt8.lt_iff_toNat_lt.mp (UInt8.not_le.mp long)
            exact ⟨beyond, by omega⟩

theorem classify_of_marks {marker : UInt8} {kind : Kind} (marks : Marks marker kind) : classify marker = kind := by
  have own := marks_classify marker
  generalize classify marker = other at own ⊢
  cases kind <;> cases other <;> first
    | rfl
    | simp only [Marks, Const.long] at marks own
      omega

theorem marker_eq {marker base : UInt8} (above : base.toNat ≤ marker.toNat) :
    base + UInt8.ofNat (marker.toNat - base.toNat) = marker := by
  have small := marker.toNat_lt
  apply UInt8.toNat_inj.mp
  rw [UInt8.toNat_add, UInt8.toNat_ofNat']
  omega

theorem header_short {shortVal longVal marker : UInt8} (above : shortVal.toNat ≤ marker.toNat)
    (below : marker.toNat < shortVal.toNat + Const.long) :
    Header shortVal longVal [marker] (marker.toNat - shortVal.toNat) := by
  have header : Header shortVal longVal [shortVal + UInt8.ofNat (marker.toNat - shortVal.toNat)] (marker.toNat - shortVal.toNat) :=
    .short _ (by omega)
  rw [marker_eq above] at header
  exact header

theorem header_long {shortVal longVal marker : UInt8} {size : Bytes} (above : longVal.toNat < marker.toNat)
    (below : marker.toNat ≤ longVal.toNat + 8) (length : size.length = marker.toNat - longVal.toNat) :
    Header shortVal longVal (marker :: size) (importBits size) := by
  have header : Header shortVal longVal ((longVal + UInt8.ofNat size.length) :: size) (importBits size) :=
    .long size (by omega) (by omega)
  rw [length, marker_eq (by omega)] at header
  exact header

/-! ## The pieces -/

variable {decoder : Decoder} {marker base : UInt8} {rest : Bytes}

theorem assertTrue_of {condition : Bool} (holds : condition = true) : assertTrue condition = .ok () := by
  rw [holds]
  rfl

theorem extract_eq (above : base.toNat ≤ marker.toNat) : extract marker base = .ok (marker.toNat - base.toNat) := by
  unfold extract
  rw [assertTrue_of (decide_eq_true (UInt8.le_iff_toNat_le.mpr above))]
  rfl

theorem shortLength_eq (ready : decoder.checkRead 1 = true) (above : base.toNat ≤ marker.toNat) :
    decoder.shortLength marker base = .ok (marker.toNat - base.toNat, decoder.finishRead 1) := by
  unfold shortLength
  rw [assertTrue_of ready, extract_eq above]
  rfl

theorem longLength_eq (input : decoder.input = marker :: rest) (ready : decoder.checkRead 1 = true) (above : base.toNat < marker.toNat)
    (below : marker.toNat ≤ base.toNat + 8) :
    decoder.longLength marker base =
      if decoder.checkRead (1 + (marker.toNat - base.toNat)) then
        .ok (importBits (rest.take (marker.toNat - base.toNat)), (decoder.finishRead 1).finishRead (marker.toNat - base.toNat))
      else .error (.invalidArgument (.insufficientForLength (marker.toNat - base.toNat) (decoder.finishRead 1).remaining)) := by
  have few : 1 ≤ marker.toNat - base.toNat ∧ marker.toNat - base.toNat ≤ 8 := by omega
  have tail : (decoder.finishRead 1).input = rest := by
    show decoder.input.drop 1 = rest
    rw [input]
    rfl
  unfold longLength
  rw [assertTrue_of ready, extract_eq (Nat.le_of_lt above)]
  show (decoder.finishRead 1).decodeLength _ = _
  unfold decodeLength decodeBigEndian
  rw [if_pos few, checkRead_finishRead ready, tail]

theorem decodeString_eq (length : Nat) : decoder.decodeString length =
    if length = 0 then .error .assertion
    else if decoder.checkRead length then .ok (.string (decoder.input.take length), decoder.finishRead length)
    else .error (.invalidArgument (.insufficientForString length decoder.remaining)) := by
  unfold decodeString
  by_cases zero : length = 0
  · rw [if_pos zero, zero]
    rfl
  · rw [if_neg zero, assertTrue_of (decide_eq_true (Nat.pos_of_ne_zero zero))]
    rfl

/-! ## The step -/

def Behaves (fuel : Nat) (decoder : Decoder) (marker : UInt8) : Front → Prop
  | .refused => ∃ message, decode (fuel + 1) decoder marker = .error (.invalidArgument message)
  | .zero => decode (fuel + 1) decoder marker = .error .assertion
  | .leaf node bytes => bytes ≤ decoder.input.length ∧ ∃ next, decode (fuel + 1) decoder marker = .ok (node, next) ∧
      Advances decoder next (decoder.input.take bytes) ∧ Wire node (decoder.input.take bytes)
  | .list bytes length => bytes ≤ decoder.input.length ∧ ∃ next, decode (fuel + 1) decoder marker = decodeList fuel (next.enter length) ∧
      Advances decoder next (decoder.input.take bytes) ∧ Header Const.shortList Const.longList (decoder.input.take bytes) length

theorem fits_checkRead (bytes : Nat) : fits decoder.substring decoder.input bytes = decoder.checkRead bytes := rfl

/-- Reading a header and then a string is reading both at once. -/
theorem advances_two {a b : Nat} (ready : decoder.checkRead (a + b) = true) :
    Advances decoder ((decoder.finishRead a).finishRead b) (decoder.input.take (a + b)) := by
  have long := (checkRead_iff.mp ready).1
  have rest : (decoder.finishRead a).input = decoder.input.drop a := rfl
  have second : b ≤ (decoder.finishRead a).input.length := by
    rw [rest, List.length_drop]
    omega
  have both := (advances_finishRead (by omega : a ≤ decoder.input.length)).trans (advances_finishRead second)
  rw [rest, ← List.take_add] at both
  exact both

/-- A string behind its header. -/
theorem string_behaves {fuel header length : Nat} {next : Decoder} (ready : decoder.checkRead header = true)
    (decoded : decode (fuel + 1) decoder marker = next.decodeString length)
    (advances : Advances decoder next (decoder.input.take header))
    (header_of : Header Const.null Const.shortString (decoder.input.take header) length) :
    Behaves fuel decoder marker (stringFront decoder.substring decoder.input header length) := by
  have long := (checkRead_iff.mp ready).1
  have size : (decoder.input.take header).length = header := List.length_take_of_le long
  rw [decodeString_eq] at decoded
  unfold stringFront
  split
  · next zero =>
    rw [if_pos zero] at decoded
    exact decoded
  · next positive =>
    have check := advances.checkRead (size.symm ▸ ready) length
    rw [size] at check
    rw [if_neg positive, check] at decoded
    rw [fits_checkRead]
    split
    · next enough =>
      rw [if_pos enough] at decoded
      have rest : next.input = decoder.input.drop header :=
        List.append_cancel_left (advances.input.symm.trans (List.take_append_drop header decoder.input).symm)
      have within : length ≤ next.input.length := (checkRead_iff.mp (check.trans enough)).1
      have both := advances.trans (advances_finishRead within)
      rw [rest, ← List.take_add] at both
      rw [← rest]
      refine ⟨(checkRead_iff.mp enough).1, _, decoded, both, ?_⟩
      have taken : (next.input.take length).length = length := List.length_take_of_le within
      have wire := Wire.string (decoder.input.take header) (next.input.take length)
        (fun empty => positive (by rw [← taken, empty]; rfl)) (by rw [taken]; exact header_of)
      rw [rest, ← List.take_add, ← rest] at wire
      exact wire
    · next short =>
      rw [if_neg short] at decoded
      exact ⟨_, decoded⟩

/-- What one call does is decided by the front of the input. -/
theorem decode_front (fuel : Nat) (input : decoder.input = marker :: rest) (ready : decoder.checkRead 1 = true) :
    Behaves fuel decoder marker (front decoder.substring decoder.input) := by
  have first : decoder.input.take 1 = [marker] := by
    rw [input]
    rfl
  have long : 1 ≤ decoder.input.length := (checkRead_iff.mp ready).1
  have one : Advances decoder (decoder.finishRead 1) (decoder.input.take 1) := advances_finishRead long
  have behind (bytes : Nat) : decoder.input.take (1 + bytes) = marker :: rest.take bytes := by
    rw [input, Nat.add_comm]
    rfl
  have marks := marks_classify marker
  have unfolded : front decoder.substring decoder.input = front decoder.substring (marker :: rest) := by rw [input]
  rw [unfolded]
  unfold front
  dsimp only
  rw [← input]
  cases kind : classify marker with
  | null =>
    rw [kind] at marks
    obtain rfl : marker = Const.null := UInt8.toNat_inj.mp marks
    have decoded : decode (fuel + 1) decoder Const.null = .ok (.null, decoder.finishRead 1) := by
      unfold decode
      rw [kind]
      dsimp only
      unfold decodeNull
      rw [assertTrue_of ready]
      rfl
    exact ⟨long, _, decoded, one, first ▸ .null⟩
  | byte =>
    rw [kind] at marks
    have decoded : decode (fuel + 1) decoder marker = .ok (.string (decoder.input.take 1), decoder.finishRead 1) := by
      unfold decode
      rw [kind]
      dsimp only
      unfold decodeByte
      rw [assertTrue_of ready]
      rfl
    rw [first] at decoded
    exact ⟨long, _, decoded, one, first ▸ .byte marker (UInt8.le_iff_toNat_le.mpr marks)⟩
  | shortString =>
    rw [kind] at marks
    have above : Const.null.toNat < marker.toNat := marks.1
    have below : marker.toNat < Const.null.toNat + Const.long := marks.2
    have header : Header Const.null Const.shortString (decoder.input.take 1) (marker.toNat - Const.null.toNat) :=
      first ▸ header_short (Nat.le_of_lt above) below
    have length : decoder.shortLength marker Const.null = .ok (marker.toNat - Const.null.toNat, decoder.finishRead 1) :=
      shortLength_eq ready (Nat.le_of_lt above)
    dsimp only
    generalize marker.toNat - Const.null.toNat = bytes at header length ⊢
    refine string_behaves ready ?_ one header
    unfold decode
    rw [kind]
    dsimp only
    unfold decodeShortString
    rw [length]
    rfl
  | longString =>
    rw [kind] at marks
    have above : Const.shortString.toNat < marker.toNat := marks.1
    have below : marker.toNat ≤ Const.shortString.toNat + 8 := marks.2
    have length := longLength_eq input ready above below
    have header {size : Bytes} : size.length = marker.toNat - Const.shortString.toNat →
        Header Const.null Const.shortString (marker :: size) (importBits size) := header_long above below
    dsimp only
    generalize marker.toNat - Const.shortString.toNat = bytes at header length ⊢
    have decoded : decode (fuel + 1) decoder marker = decoder.decodeLongString marker := by
      unfold decode
      rw [kind]
    unfold decodeLongString at decoded
    rw [length] at decoded
    rw [fits_checkRead]
    by_cases enough : decoder.checkRead (1 + bytes) = true
    · rw [if_pos enough] at decoded ⊢
      refine string_behaves enough decoded (advances_two enough) ?_
      rw [behind]
      have inside := (checkRead_iff.mp enough).1
      rw [input, List.length_cons] at inside
      exact header (List.length_take_of_le (by omega))
    · rw [if_neg enough] at decoded ⊢
      exact ⟨_, decoded⟩
  | shortList =>
    rw [kind] at marks
    have above : Const.shortList.toNat ≤ marker.toNat := marks.1
    have below : marker.toNat < Const.shortList.toNat + Const.long := marks.2
    refine ⟨long, decoder.finishRead 1, ?_, one, first ▸ header_short above below⟩
    unfold decode
    rw [kind]
    dsimp only
    rw [shortLength_eq ready above]
    rfl
  | longList =>
    rw [kind] at marks
    have above : Const.longList.toNat < marker.toNat := marks.1
    have below : marker.toNat ≤ Const.longList.toNat + 8 := marks.2
    have length := longLength_eq input ready above below
    have header {size : Bytes} : size.length = marker.toNat - Const.longList.toNat →
        Header Const.shortList Const.longList (marker :: size) (importBits size) := header_long above below
    have decoded : decode (fuel + 1) decoder marker =
        (decoder.longLength marker Const.longList).bind fun read => decodeList fuel (read.2.enter read.1) := by
      unfold decode
      rw [kind]
      rfl
    dsimp only
    generalize marker.toNat - Const.longList.toNat = bytes at header length ⊢
    rw [length] at decoded
    rw [fits_checkRead]
    by_cases enough : decoder.checkRead (1 + bytes) = true
    · rw [if_pos enough] at decoded ⊢
      refine ⟨(checkRead_iff.mp enough).1, _, decoded, advances_two enough, ?_⟩
      rw [behind]
      have inside := (checkRead_iff.mp enough).1
      rw [input, List.length_cons] at inside
      exact header (List.length_take_of_le (by omega))
    · rw [if_neg enough] at decoded ⊢
      exact ⟨_, decoded⟩

end Decoder

end Opentxs.Rlp
