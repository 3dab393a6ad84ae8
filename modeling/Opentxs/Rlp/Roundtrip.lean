import Opentxs.Rlp.Encoding
import Opentxs.Rlp.Reading

/-! Whatever stands for a node is decoded to it, and so is what a node was encoded as. -/

namespace Opentxs.Rlp
open Library.Endian Library.Hex Decoder

/-! ## The front of what stands for a node -/

variable {counters : List UInt64} {header bytes rest : Bytes} {length : Nat}

theorem marker_toNat {base : UInt8} {value : Nat} (fits : base.toNat + value < 256) : (base + UInt8.ofNat value).toNat = base.toNat + value := by
  rw [UInt8.toNat_add, UInt8.toNat_ofNat']
  omega

theorem fits_le {few many : Nat} {input : Bytes} (fit : fits counters input many = true) (fewer : few ≤ many) :
    fits counters input few = true := by
  obtain ⟨long, room⟩ := checkRead_iff.mp fit
  exact checkRead_iff.mpr ⟨Nat.le_trans fewer long, fun back here => Nat.le_trans fewer (room back here)⟩

theorem front_string (header_of : Header Const.null Const.shortString header bytes.length) (some : bytes ≠ [])
    (fit : fits counters (header ++ (bytes ++ rest)) (header.length + bytes.length) = true) :
    front counters (header ++ (bytes ++ rest)) = .leaf (.string bytes) (header.length + bytes.length) := by
  have positive : bytes.length ≠ 0 := fun zero => some (List.eq_nil_of_length_eq_zero zero)
  have whole : stringFront counters (header ++ (bytes ++ rest)) header.length bytes.length =
      .leaf (.string bytes) (header.length + bytes.length) := by
    unfold stringFront
    rw [if_neg positive, if_pos fit, List.drop_left, List.take_left]
  generalize count : bytes.length = length at *
  cases header_of with
  | short _ small =>
    have below : length < 56 := small
    have marker : (Const.null + UInt8.ofNat length).toNat = Const.null.toNat + length :=
      marker_toNat (show 128 + length < 256 by omega)
    have kind : classify (Const.null + UInt8.ofNat length) = .shortString := by
      refine classify_of_marks ⟨?_, ?_⟩
      · rw [marker]
        show 128 < 128 + length
        omega
      · rw [marker]
        show 128 + length < 128 + 56
        omega
    unfold front
    simp only [List.cons_append, List.nil_append, kind, marker, Nat.add_sub_cancel_left]
    exact whole
  | long size one few =>
    have marker : (Const.shortString + UInt8.ofNat size.length).toNat = Const.shortString.toNat + size.length :=
      marker_toNat (show 183 + size.length < 256 by omega)
    have kind : classify (Const.shortString + UInt8.ofNat size.length) = .longString := by
      refine classify_of_marks ⟨?_, ?_⟩
      · rw [marker]
        show 183 < 183 + size.length
        omega
      · rw [marker]
        show 183 + size.length ≤ 183 + 8
        omega
    have read : fits counters ((Const.shortString + UInt8.ofNat size.length) :: (size ++ (bytes ++ rest))) (1 + size.length) = true :=
      fits_le fit (by rw [List.length_cons]; omega)
    have order : 1 + size.length = ((Const.shortString + UInt8.ofNat size.length) :: size).length := by
      rw [List.length_cons]
      omega
    unfold front
    simp only [List.cons_append, kind, marker, Nat.add_sub_cancel_left, read, if_true, List.take_left]
    rw [order]
    exact whole

theorem front_list (header_of : Header Const.shortList Const.longList header length)
    (fit : fits counters (header ++ rest) header.length = true) : front counters (header ++ rest) = .list header.length length := by
  cases header_of with
  | short _ small =>
    have below : length < 56 := small
    have marker : (Const.shortList + UInt8.ofNat length).toNat = Const.shortList.toNat + length :=
      marker_toNat (show 192 + length < 256 by omega)
    have kind : classify (Const.shortList + UInt8.ofNat length) = .shortList := by
      refine classify_of_marks ⟨?_, ?_⟩
      · rw [marker]
        show 192 ≤ 192 + length
        omega
      · rw [marker]
        show 192 + length < 192 + 56
        omega
    unfold front
    simp only [List.cons_append, List.nil_append, kind, marker, Nat.add_sub_cancel_left, List.length_singleton]
  | long size one few =>
    have marker : (Const.longList + UInt8.ofNat size.length).toNat = Const.longList.toNat + size.length :=
      marker_toNat (show 247 + size.length < 256 by omega)
    have kind : classify (Const.longList + UInt8.ofNat size.length) = .longList := by
      refine classify_of_marks ⟨?_, ?_⟩
      · rw [marker]
        show 247 < 247 + size.length
        omega
      · rw [marker]
        show 247 + size.length ≤ 247 + 8
        omega
    have order : 1 + size.length = ((Const.longList + UInt8.ofNat size.length) :: size).length := by
      rw [List.length_cons]
      omega
    unfold front
    simp only [List.cons_append, kind, marker, Nat.add_sub_cancel_left, List.take_left]
    rw [order]
    rw [List.cons_append] at fit
    simp only [fit, if_true]

/-! ## Decoding it -/

namespace Decoder

variable {decoder : Decoder} {fuel : Nat} {node : Node} {items : List Node} {used rest : Bytes}

theorem Advances.behind {next : Decoder} (advances : Advances decoder next used) (input : decoder.input = used ++ rest) : next.input = rest :=
  List.append_cancel_left (advances.input.symm.trans input)

/-- The statements about the four functions that call each other. -/
structure Completes (fuel : Nat) : Prop where
  call : ∀ (decoder : Decoder) (node : Node) (used rest : Bytes), Wire node used → decoder.input = used ++ rest →
    decoder.checkRead used.length = true → (decoder.substring = [] → rest = []) → 4 * used.length + 1 ≤ fuel →
    ∃ next, call fuel decoder = .ok (node, next) ∧ Advances decoder next used
  decode : ∀ (decoder : Decoder) (marker : UInt8) (tail : Bytes) (node : Node) (used rest : Bytes), decoder.input = marker :: tail →
    Wire node used → decoder.input = used ++ rest → decoder.checkRead used.length = true → 4 * used.length ≤ fuel →
    ∃ next, decode fuel decoder marker = .ok (node, next) ∧ Advances decoder next used
  list : ∀ (decoder : Decoder) (items : List Node) (used rest : Bytes), Wires items used → decoder.input = used ++ rest →
    used.length < 2 ^ 64 → 4 * used.length + 3 ≤ fuel →
    ∃ next, decodeList fuel (decoder.enter used.length) = .ok (.sequence items, next) ∧ Advances decoder next used
  items : ∀ (decoder : Decoder) (items : List Node) (used rest : Bytes) (counter : UInt64) (outer : List UInt64), Wires items used →
    decoder.input = used ++ rest → decoder.substring = counter :: outer → counter.toNat = used.length → 4 * used.length + 2 ≤ fuel →
    ∃ next, decodeItems fuel decoder = .ok (items, next) ∧ Advances decoder next used ∧ next.substring.headD 0 = 0

theorem call_completes (completes : Completes fuel) (wire : Wire node used) (input : decoder.input = used ++ rest)
    (fit : decoder.checkRead used.length = true) (alone : decoder.substring = [] → rest = []) (enough : 4 * used.length + 1 ≤ fuel + 1) :
    ∃ next, call (fuel + 1) decoder = .ok (node, next) ∧ Advances decoder next used := by
  have some : 1 ≤ decoder.input.length := Nat.le_trans wire.positive (checkRead_iff.mp fit).1
  unfold call
  cases front_of : decoder.input with
  | nil =>
    rw [front_of] at some
    exact absurd some (by decide)
  | cons marker tail =>
    obtain ⟨next, decoded, advances⟩ := completes.decode decoder marker tail node used rest front_of wire input fit (by omega)
    refine ⟨next, ?_, advances⟩
    dsimp only
    rw [decoded]
    dsimp only [bind, Except.bind]
    rw [if_neg]
    rintro ⟨level, excess⟩
    have top : decoder.substring = [] := by
      rw [advances.substring, List.length_map] at level
      exact List.eq_nil_of_length_eq_zero level
    have none : next.input = [] := (advances.behind input).trans (alone top)
    unfold remaining at excess
    rw [none] at excess
    exact absurd excess (by decide)

theorem decode_completes (completes : Completes fuel) {marker : UInt8} {tail : Bytes} (front_of : decoder.input = marker :: tail)
    (wire : Wire node used) (input : decoder.input = used ++ rest) (fit : decoder.checkRead used.length = true)
    (enough : 4 * used.length ≤ fuel + 1) :
    ∃ next, decode (fuel + 1) decoder marker = .ok (node, next) ∧ Advances decoder next used := by
  have ready : decoder.checkRead 1 = true := fits_le fit wire.positive
  have behaves := decode_front fuel front_of ready
  have leaf (here : front decoder.substring decoder.input = .leaf node used.length) :
      ∃ next, decode (fuel + 1) decoder marker = .ok (node, next) ∧ Advances decoder next used := by
    rw [here] at behaves
    obtain ⟨_, next, decoded, advances, _⟩ := behaves
    rw [input, List.take_left] at advances
    exact ⟨next, decoded, advances⟩
  have fit_used : fits decoder.substring (used ++ rest) used.length = true := by
    rw [← input]
    exact fit
  cases wire with
  | null =>
    refine leaf ?_
    rw [input]
    rfl
  | byte byte direct =>
    refine leaf ?_
    have kind : classify byte = .byte := classify_of_marks (UInt8.le_iff_toNat_le.mp direct)
    rw [input]
    unfold front
    simp only [List.cons_append, List.nil_append, kind, List.length_singleton]
  | string header bytes some length =>
    refine leaf ?_
    rw [input, List.append_assoc, List.length_append]
    rw [List.append_assoc, List.length_append] at fit_used
    exact front_string length some fit_used
  | sequence items header bytes length all =>
    have long : (header ++ bytes).length = header.length + bytes.length := List.length_append
    have here : front decoder.substring decoder.input = .list header.length bytes.length := by
      rw [input, List.append_assoc]
      rw [List.append_assoc] at fit_used
      exact front_list length (fits_le fit_used (long ▸ Nat.le_add_right _ _))
    rw [here] at behaves
    obtain ⟨_, next, decoded, advances, _⟩ := behaves
    have taken : decoder.input.take header.length = header := by
      rw [input, List.append_assoc, List.take_left]
    rw [taken] at advances
    have progress := length.positive
    obtain ⟨last, read, inside⟩ := completes.list next items bytes rest all
      (advances.behind (input.trans (List.append_assoc header bytes rest))) length.lt (by omega)
    exact ⟨last, decoded.trans read, advances.trans inside⟩

theorem list_completes (completes : Completes fuel) (wires : Wires items used) (input : decoder.input = used ++ rest)
    (small : used.length < 2 ^ 64) (enough : 4 * used.length + 3 ≤ fuel + 1) :
    ∃ next, decodeList (fuel + 1) (decoder.enter used.length) = .ok (.sequence items, next) ∧ Advances decoder next used := by
  have counter : (UInt64.ofNat used.length).toNat = used.length := by
    rw [UInt64.toNat_ofNat', Nat.mod_eq_of_lt small]
  obtain ⟨next, decoded, advances, zero⟩ :=
    completes.items (decoder.enter used.length) items used rest _ _ wires input rfl counter (by omega)
  refine ⟨next.leave, ?_, (advances.leave small small zero).1⟩
  unfold decodeList
  rw [decoded]
  rfl

theorem items_completes (completes : Completes fuel) {counter : UInt64} {outer : List UInt64} (wires : Wires items used)
    (input : decoder.input = used ++ rest) (counters : decoder.substring = counter :: outer) (exactly : counter.toNat = used.length)
    (enough : 4 * used.length + 2 ≤ fuel + 1) :
    ∃ next, decodeItems (fuel + 1) decoder = .ok (items, next) ∧ Advances decoder next used ∧ next.substring.headD 0 = 0 := by
  unfold decodeItems
  rw [counters]
  cases wires with
  | nil =>
    have zero : counter = 0 := UInt64.toNat_inj.mp exactly
    refine ⟨decoder, ?_, advances_refl, ?_⟩
    · rw [zero]
      rfl
    · rw [counters, zero]
      rfl
  | cons item items first later wire wires =>
    have progress := wire.positive
    have long : (first ++ later).length = first.length + later.length := List.length_append
    have positive : 0 < counter := UInt64.lt_iff_toNat_lt.mpr (show 0 < counter.toNat by omega)
    have split : decoder.input = first ++ (later ++ rest) := input.trans (List.append_assoc _ _ _)
    have fit : decoder.checkRead first.length = true := by
      refine checkRead_iff.mpr ⟨?_, fun back here => ?_⟩
      · rw [split, List.length_append]
        exact Nat.le_add_right _ _
      · rw [counters] at here
        obtain rfl := Option.some.inj here
        omega
    obtain ⟨next, decoded, advances⟩ := completes.call decoder item first (later ++ rest) wire split fit
      (fun top => absurd (counters.symm.trans top) (List.cons_ne_nil _ _)) (by omega)
    have lowered : next.substring = (counter - UInt64.ofNat first.length) :: outer.map (· - UInt64.ofNat first.length) := by
      rw [advances.substring, counters]
      rfl
    have remains : (counter - UInt64.ofNat first.length).toNat = later.length := by
      rw [sub_toNat (by omega)]
      omega
    obtain ⟨last, others, onward, zero⟩ :=
      completes.items next items later rest _ _ wires (advances.behind split) lowered remains (by omega)
    refine ⟨last, ?_, advances.trans onward, zero⟩
    rw [List.headD_cons, if_pos positive, decoded]
    dsimp only [bind, Except.bind]
    rw [others]

theorem completes_all (fuel : Nat) : Completes fuel := by
  induction fuel with
  | zero =>
    refine ⟨fun _ _ _ _ _ _ _ _ enough => absurd enough (by omega), fun _ _ _ _ _ _ _ wire _ _ enough => ?_,
      fun _ _ _ _ _ _ _ enough => absurd enough (by omega), fun _ _ _ _ _ _ _ _ _ _ enough => absurd enough (by omega)⟩
    have progress := wire.positive
    omega
  | succ fuel ih =>
    exact ⟨fun _ _ _ _ wire input fit alone enough => call_completes ih wire input fit alone enough,
      fun _ _ _ _ _ _ front_of wire input fit enough => decode_completes ih front_of wire input fit enough,
      fun _ _ _ _ wires input small enough => list_completes ih wires input small enough,
      fun _ _ _ _ _ _ wires input counters exactly enough => items_completes ih wires input counters exactly enough⟩

end Decoder

/-- What stands for a node is decoded to it. -/
theorem decode_wire {node : Node} {bytes : Bytes} (wire : Wire node bytes) : ∃ decoder, Node.decode bytes = .ok (node, decoder) := by
  have fit : ({ input := bytes, substring := [], reads := [] } : Decoder).checkRead bytes.length = true :=
    checkRead_iff.mpr ⟨Nat.le_refl _, fun _ none => nomatch none⟩
  obtain ⟨next, decoded, _⟩ := (completes_all (enoughFuel bytes)).call { input := bytes, substring := [], reads := [] } node bytes []
    wire (List.append_nil bytes).symm fit (fun _ => rfl) (Nat.le_add_right _ 3)
  exact ⟨next, decoded⟩

/-- As many bytes are written as were calculated, and they are decoded to the node with every empty string replaced
by null. -/
theorem rlp_round_trip (node : Node) (small : node.encodedSize < 2 ^ 64) :
    ∃ bytes decoder, node.encode = some bytes ∧ bytes.length = node.encodedSize ∧ Node.decode bytes = .ok (node.nullify, decoder) := by
  obtain ⟨bytes, encoded, wire, length⟩ := node.encode_wire small
  obtain ⟨decoder, decoded⟩ := decode_wire wire
  exact ⟨bytes, decoder, encoded, length, decoded⟩

/-- A list of an empty string, a list and a string of sixty bytes. -/
theorem nested_list_encoded : ∃ bytes decoder,
    (Node.sequence [.string [], .sequence [.string [200]], .string (List.replicate 60 1)]).encode = some bytes ∧
      bytes.length = 68 ∧ Node.decode bytes = .ok (.sequence [.null, .sequence [.string [200]], .string (List.replicate 60 1)], decoder) :=
  rlp_round_trip (.sequence [.string [], .sequence [.string [200]], .string (List.replicate 60 1)]) (by decide +kernel)

/-- Bytes are decoded to a node where they stand for it, and nowhere else. -/
theorem decode_ok_iff {bytes : Bytes} (small : bytes.length < 2 ^ 64) (node : Node) :
    (∃ decoder, Node.decode bytes = .ok (node, decoder)) ↔ Wire node bytes := by
  refine ⟨?_, decode_wire⟩
  rintro ⟨decoder, decoded⟩
  have outcome := (ends_all (enoughFuel bytes)).call { input := bytes, substring := [], reads := [] } small (by rintro _ ⟨⟩)
    (Nat.le_add_right _ 3)
  rw [Node.decode] at decoded
  rw [decoded] at outcome
  obtain ⟨⟨used, advances, wire, _⟩, finished⟩ := outcome
  have whole : bytes = used := advances.input.trans (by rw [finished rfl, List.append_nil])
  rw [whole]
  exact wire

/-- A length that needs no byte of its own. -/
theorem long_form_decoded : Wire (.string [1, 2]) [0xb8, 2, 1, 2] := (decode_ok_iff (by decide) _).mp ⟨_, rfl⟩

end Opentxs.Rlp
