import Opentxs.Rlp.Front

/-! Every decode ends, in a node that the whole input stands for, in an exception or in the assertion that a string is
not empty; and whatever stands for a node is decoded to it. -/

namespace Opentxs.Rlp
open Library.Endian Library.Hex

/-- The lists whose counters are zero are left before the next item. -/
def settle (counters : List UInt64) : List UInt64 := counters.dropWhile (· == 0)

def lower (counters : List UInt64) (bytes : Nat) : List UInt64 := counters.map (· - UInt64.ofNat bytes)

/-- The items are read one after the other until a string of length zero with a length of its own comes up. No list is
left before its counter is zero, also when the counter has passed it. -/
inductive Hits : List UInt64 → Bytes → Prop
  | zero (counters : List UInt64) (input : Bytes) (here : front counters input = .zero) : Hits counters input
  | leaf (counters : List UInt64) (input : Bytes) (node : Node) (bytes : Nat) (here : front counters input = .leaf node bytes)
      (inside : settle (lower counters bytes) ≠ []) (later : Hits (settle (lower counters bytes)) (input.drop bytes)) :
    Hits counters input
  | list (counters : List UInt64) (input : Bytes) (bytes length : Nat) (here : front counters input = .list bytes length)
      (inside : settle (UInt64.ofNat length :: lower counters bytes) ≠ [])
      (later : Hits (settle (UInt64.ofNat length :: lower counters bytes)) (input.drop bytes)) : Hits counters input

/-- The rest of the lists is read. -/
def After (counters : List UInt64) (input : Bytes) : Prop := settle counters ≠ [] ∧ Hits (settle counters) input

section Hits

variable {counters : List UInt64} {input : Bytes} {node : Node} {bytes length : Nat}

theorem hits_refused (here : front counters input = .refused) : ¬ Hits counters input := by
  intro hits
  cases hits with
  | zero _ _ other => cases here.symm.trans other
  | leaf _ _ _ _ other _ _ => cases here.symm.trans other
  | list _ _ _ _ other _ _ => cases here.symm.trans other

theorem hits_leaf (here : front counters input = .leaf node bytes) :
    Hits counters input ↔ After (lower counters bytes) (input.drop bytes) := by
  constructor
  · intro hits
    cases hits with
    | zero _ _ other => cases here.symm.trans other
    | leaf _ _ _ _ other inside later =>
      cases here.symm.trans other
      exact ⟨inside, later⟩
    | list _ _ _ _ other _ _ => cases here.symm.trans other
  · rintro ⟨inside, later⟩
    exact .leaf _ _ _ _ here inside later

theorem hits_list (here : front counters input = .list bytes length) :
    Hits counters input ↔ After (UInt64.ofNat length :: lower counters bytes) (input.drop bytes) := by
  constructor
  · intro hits
    cases hits with
    | zero _ _ other => cases here.symm.trans other
    | leaf _ _ _ _ other _ _ => cases here.symm.trans other
    | list _ _ _ _ other inside later =>
      cases here.symm.trans other
      exact ⟨inside, later⟩
  · rintro ⟨inside, later⟩
    exact .list _ _ _ _ here inside later

theorem not_after_nil : ¬ After [] input := fun after => after.1 rfl

theorem after_zero : After (0 :: counters) input ↔ After counters input := Iff.rfl

theorem after_positive {counter : UInt64} (positive : counter ≠ 0) : After (counter :: counters) input ↔ Hits (counter :: counters) input := by
  have settled : settle (counter :: counters) = counter :: counters :=
    List.dropWhile_cons_of_neg fun zero => positive (eq_of_beq zero)
  unfold After
  rw [settled]
  exact and_iff_right (List.cons_ne_nil _ _)

end Hits

/-! ## What a decode ends in -/

/-- The fuel is enough, an exception comes up where no string of length zero does, and the assertion fails where one
does. -/
def Outcome {α : Type} (hits : Prop) (read : α → Decoder → Prop) : Except Failure (α × Decoder) → Prop
  | .ok (value, next) => read value next
  | .error (.invalidArgument _) => ¬ hits
  | .error .assertion => hits
  | .error .fuel => False

theorem Outcome.bind {α β : Type} {hits : Prop} {read : α → Decoder → Prop} {more : β → Decoder → Prop}
    {result : Except Failure (α × Decoder)} {next : α × Decoder → Except Failure (β × Decoder)} (first : Outcome hits read result)
    (second : ∀ pair : α × Decoder, read pair.1 pair.2 → Outcome hits more (next pair)) : Outcome hits more (result >>= next) := by
  cases result with
  | error failure =>
    cases failure with
    | invalidArgument message => exact first
    | assertion => exact first
    | fuel => exact first.elim
  | ok pair => exact second pair first

theorem Outcome.mono {α : Type} {hits : Prop} {read more : α → Decoder → Prop} {result : Except Failure (α × Decoder)}
    (first : Outcome hits read result) (weaker : ∀ value next, read value next → more value next) : Outcome hits more result := by
  cases result with
  | error failure =>
    cases failure with
    | invalidArgument message => exact first
    | assertion => exact first
    | fuel => exact first
  | ok pair => exact weaker pair.1 pair.2 first

namespace Decoder

variable {decoder next : Decoder} {fuel : Nat}

def ReadsNode (decoder : Decoder) (node : Node) (next : Decoder) : Prop :=
  ∃ used, Advances decoder next used ∧ Wire node used ∧
    (Hits decoder.substring decoder.input ↔ After next.substring next.input)

def ReadsItems (decoder : Decoder) (items : List Node) (next : Decoder) : Prop :=
  ∃ used, Advances decoder next used ∧ Wires items used ∧ next.substring.headD 0 = 0 ∧
    (After decoder.substring decoder.input ↔ After next.substring next.input)

def ReadsList (decoder : Decoder) (length : Nat) (node : Node) (next : Decoder) : Prop :=
  ∃ items used, node = .sequence items ∧ Wires items used ∧ used.length = length ∧ Advances decoder next used ∧
    (After (UInt64.ofNat length :: decoder.substring) decoder.input ↔ After next.substring next.input)

/-- The counter of the innermost list is positive. -/
def Open (decoder : Decoder) : Prop := ∀ back ∈ decoder.substring.head?, back ≠ 0

theorem ready_of_open {marker : UInt8} {rest : Bytes} (positive : Open decoder) (input : decoder.input = marker :: rest) :
    decoder.checkRead 1 = true := by
  refine checkRead_iff.mpr ⟨by rw [input]; exact Nat.le_add_left 1 _, fun back here => ?_⟩
  have some : back.toNat ≠ 0 := fun zero => positive back here (UInt64.toNat_inj.mp zero)
  omega

/-- The statements about the four functions that call each other, for as much fuel as each needs. -/
structure Ends (fuel : Nat) : Prop where
  call : ∀ decoder : Decoder, decoder.input.length < 2 ^ 64 → Open decoder → 4 * decoder.input.length + 1 ≤ fuel →
    Outcome (Hits decoder.substring decoder.input)
      (fun node next => ReadsNode decoder node next ∧ (decoder.substring = [] → next.input = [])) (call fuel decoder)
  decode : ∀ (decoder : Decoder) (marker : UInt8) (rest : Bytes), decoder.input = marker :: rest →
    decoder.input.length < 2 ^ 64 → Open decoder → 4 * decoder.input.length ≤ fuel →
    Outcome (Hits decoder.substring decoder.input) (ReadsNode decoder) (decode fuel decoder marker)
  list : ∀ (decoder : Decoder) (length : Nat), decoder.input.length < 2 ^ 64 → length < 2 ^ 64 →
    4 * decoder.input.length + 3 ≤ fuel →
    Outcome (After (UInt64.ofNat length :: decoder.substring) decoder.input) (ReadsList decoder length)
      (decodeList fuel (decoder.enter length))
  items : ∀ decoder : Decoder, decoder.input.length < 2 ^ 64 → 4 * decoder.input.length + 2 ≤ fuel →
    Outcome (After decoder.substring decoder.input) (ReadsItems decoder) (decodeItems fuel decoder)

theorem advances_refl : Advances decoder decoder [] := by
  refine ⟨rfl, (map_sub_zero _).symm, [], (List.append_nil _).symm, fun read none => absurd none List.not_mem_nil⟩

theorem call_ends (ends : Ends fuel) (small : decoder.input.length < 2 ^ 64) (positive : Open decoder)
    (enough : 4 * decoder.input.length + 1 ≤ fuel + 1) :
    Outcome (Hits decoder.substring decoder.input)
      (fun node next => ReadsNode decoder node next ∧ (decoder.substring = [] → next.input = [])) (call (fuel + 1) decoder) := by
  unfold call
  cases input : decoder.input with
  | nil => exact hits_refused rfl
  | cons marker rest =>
    dsimp only
    rw [← input]
    refine (ends.decode decoder marker rest input small positive (by omega)).bind fun pair reads => ?_
    obtain ⟨used, advances, wire, later⟩ := reads
    have levels : pair.2.substring.length = decoder.substring.length := by
      rw [advances.substring, List.length_map]
    split
    · next excess =>
      have top : pair.2.substring = [] := List.eq_nil_of_length_eq_zero excess.1
      show ¬ Hits _ _
      rw [later, top]
      exact not_after_nil
    · next finished =>
      refine ⟨⟨used, advances, wire, later⟩, fun top => ?_⟩
      have none : pair.2.substring.length = 0 := by
        rw [levels, top]
        rfl
      exact List.eq_nil_of_length_eq_zero (Nat.eq_zero_of_not_pos fun some => finished ⟨none, some⟩)

theorem decode_ends (ends : Ends fuel) {marker : UInt8} {rest : Bytes} (input : decoder.input = marker :: rest)
    (small : decoder.input.length < 2 ^ 64) (positive : Open decoder) (enough : 4 * decoder.input.length ≤ fuel + 1) :
    Outcome (Hits decoder.substring decoder.input) (ReadsNode decoder) (decode (fuel + 1) decoder marker) := by
  have behaves := decode_front fuel input (ready_of_open positive input)
  have after {next : Decoder} {bytes : Nat} (advances : Advances decoder next (decoder.input.take bytes))
      (within : bytes ≤ decoder.input.length) :
      next.input = decoder.input.drop bytes ∧ next.substring = lower decoder.substring bytes := by
    have length : (decoder.input.take bytes).length = bytes := List.length_take_of_le within
    refine ⟨List.append_cancel_left (advances.input.symm.trans (List.take_append_drop bytes _).symm), ?_⟩
    rw [advances.substring, length]
    rfl
  cases here : front decoder.substring decoder.input with
  | refused =>
    rw [here] at behaves
    obtain ⟨message, decoded⟩ := behaves
    rw [decoded]
    exact hits_refused here
  | zero =>
    rw [here] at behaves
    have decoded : decode (fuel + 1) decoder marker = .error .assertion := behaves
    rw [decoded]
    exact Hits.zero _ _ here
  | leaf node bytes =>
    rw [here] at behaves
    obtain ⟨within, next, decoded, advances, wire⟩ := behaves
    obtain ⟨rest, counters⟩ := after advances within
    rw [decoded]
    refine ⟨_, advances, wire, ?_⟩
    rw [hits_leaf here, rest, counters]
  | list bytes length =>
    rw [here] at behaves
    obtain ⟨within, next, decoded, advances, header⟩ := behaves
    obtain ⟨rest, counters⟩ := after advances within
    have progress := header.positive
    have shorter := advances.length
    rw [decoded, hits_list here, ← rest, ← counters]
    refine (ends.list next length (by omega) header.lt (by omega)).mono fun value last read => ?_
    obtain ⟨items, used, same, wires, exactly, inside, later⟩ := read
    refine ⟨_, advances.trans inside, ?_, ?_⟩
    · rw [same]
      exact .sequence items _ used (exactly.symm ▸ header) wires
    · rw [hits_list here, ← rest, ← counters]
      exact later

theorem list_ends (ends : Ends fuel) {length : Nat} (small : decoder.input.length < 2 ^ 64) (fits : length < 2 ^ 64)
    (enough : 4 * decoder.input.length + 3 ≤ fuel + 1) :
    Outcome (After (UInt64.ofNat length :: decoder.substring) decoder.input) (ReadsList decoder length)
      (decodeList (fuel + 1) (decoder.enter length)) := by
  unfold decodeList
  refine (ends.items (decoder.enter length) small (by show 4 * decoder.input.length + 2 ≤ fuel; omega)).bind fun pair reads => ?_
  obtain ⟨used, advances, wires, zero, later⟩ := reads
  have shorter : used.length ≤ decoder.input.length := by
    have total : decoder.input.length = used.length + pair.2.input.length := advances.length
    omega
  obtain ⟨outside, exactly⟩ := advances.leave fits (Nat.lt_of_le_of_lt shorter small) zero
  refine ⟨pair.1, used, rfl, wires, exactly, outside, later.trans ?_⟩
  have counters : pair.2.substring = 0 :: pair.2.leave.substring := by
    have some := advances.substring
    show pair.2.substring = 0 :: pair.2.substring.tail
    rw [some] at zero ⊢
    exact congrArg (· :: _) zero
  rw [counters]
  exact after_zero

theorem items_ends (ends : Ends fuel) (small : decoder.input.length < 2 ^ 64) (enough : 4 * decoder.input.length + 2 ≤ fuel + 1) :
    Outcome (After decoder.substring decoder.input) (ReadsItems decoder) (decodeItems (fuel + 1) decoder) := by
  unfold decodeItems
  split
  · next positive =>
    cases counters : decoder.substring with
    | nil =>
      rw [counters] at positive
      exact absurd positive (by decide)
    | cons back lists =>
      rw [counters] at positive
      have some : back ≠ 0 := fun zero => absurd (zero ▸ positive : (0 : UInt64) < 0) (by decide)
      have opened : Open decoder := by
        intro first same
        rw [counters] at same
        exact Option.some.inj same ▸ some
      rw [after_positive some, ← counters]
      refine (ends.call decoder small opened (by omega)).bind fun pair reads => ?_
      obtain ⟨⟨used, advances, wire, later⟩, _⟩ := reads
      have progress := wire.positive
      have shorter := advances.length
      rw [later]
      refine (ends.items pair.2 (by omega) (by omega)).bind fun last others => ?_
      obtain ⟨more, onward, wires, zero, final⟩ := others
      refine ⟨_, advances.trans onward, .cons _ _ _ _ wire wires, zero, ?_⟩
      rw [counters, after_positive some, ← counters, later]
      exact final
  · next zero =>
    refine ⟨[], advances_refl, .nil, ?_, Iff.rfl⟩
    exact UInt64.toNat_inj.mp (Nat.eq_zero_of_not_pos fun some => zero (UInt64.lt_iff_toNat_lt.mpr some))

theorem ends_all (fuel : Nat) : Ends fuel := by
  induction fuel with
  | zero =>
    refine ⟨fun _ _ _ enough => absurd enough (by omega), fun decoder marker rest input _ _ enough => ?_,
      fun _ _ _ _ enough => absurd enough (by omega), fun _ _ enough => absurd enough (by omega)⟩
    rw [input, List.length_cons] at enough
    omega
  | succ fuel ih =>
    exact ⟨fun _ small positive enough => call_ends ih small positive enough,
      fun _ _ _ input small positive enough => decode_ends ih input small positive enough,
      fun _ _ small fits enough => list_ends ih small fits enough, fun _ small enough => items_ends ih small enough⟩

end Decoder

end Opentxs.Rlp
