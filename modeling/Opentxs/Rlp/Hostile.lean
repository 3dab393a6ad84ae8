import Opentxs.Rlp.Reading

/-! Decoding of input from anyone. -/

namespace Opentxs.Rlp
open Library.Endian

/-- The whole input stands for a node, its lists having exactly as many bytes as they say, and every counter of every
list was at least as large as each read; or the exception is thrown that callers expect. -/
def Settles (input : Bytes) : Prop :=
  (∃ node decoder, Node.decode input = .ok (node, decoder) ∧ decoder.input = [] ∧ Wire node input ∧
    ∀ read ∈ decoder.reads, ∀ counter ∈ read.2, read.1 ≤ counter.toNat) ∨
  ∃ message, Node.decode input = .error (.invalidArgument message)

/-- Every input settles except those where a string of length zero with a length of its own is read. -/
theorem decode_settles_iff (input : Bytes) (small : input.length < 2 ^ 64) : Settles input ↔ ¬ Hits [] input := by
  have outcome := (Decoder.ends_all (enoughFuel input)).call { input, substring := [], reads := [] } small
    (fun _ none => nomatch none) (Nat.le_add_right _ 3)
  unfold Settles Node.decode
  cases result : Decoder.call (enoughFuel input) { input, substring := [], reads := [] } with
  | error failure =>
    rw [result] at outcome
    cases failure with
    | invalidArgument message => exact iff_of_true (.inr ⟨message, rfl⟩) outcome
    | assertion =>
      refine iff_of_false ?_ (not_not.mpr outcome)
      rintro (⟨node, decoder, ok, _⟩ | ⟨message, thrown⟩)
      · cases ok
      · cases thrown
    | fuel => exact outcome.elim
  | ok pair =>
    rw [result] at outcome
    obtain ⟨⟨used, advances, wire, later⟩, finished⟩ := outcome
    have rest : pair.2.input = [] := finished rfl
    have whole : input = used := advances.input.trans (rest ▸ List.append_nil used)
    have top : pair.2.substring = [] := advances.substring
    refine iff_of_true (.inl ⟨pair.1, pair.2, rfl, rest, whole ▸ wire, ?_⟩) ?_
    · intro read member counter inside
      obtain ⟨new, log, all⟩ := advances.reads
      have since : pair.2.reads = new := log
      rw [since] at member
      obtain ⟨inner, offset, counters, positive, _⟩ := all read member
      have same : read.2 = inner := counters.trans (List.append_nil inner)
      exact positive counter (same ▸ inside)
    · rw [later, top]
      exact not_after_nil

/-- A list in a list, read to the end. -/
theorem nested_list_settles : ¬ Hits [] [0xc3, 0xc1, 0x80, 0x05] := by
  let decoder : Decoder := { input := [], substring := [], reads := [(1, []), (1, [3]), (1, [1, 2]), (1, [1])] }
  refine (decode_settles_iff [0xc3, 0xc1, 0x80, 0x05] (by decide)).mp (.inl ⟨_, decoder, rfl, rfl, ?_, ?_⟩)
  · exact .sequence _ [0xc3] _ (.short 3 (by decide))
      (.cons _ _ _ _ (.sequence _ [0xc1] _ (.short 1 (by decide)) (.cons _ _ _ _ .null .nil))
        (.cons _ _ _ _ (.byte 5 (by decide)) .nil))
  · simp [decoder]

/-- A string of length zero with one byte of length. -/
theorem empty_long_string_aborts : Node.decode [0xb8, 0x00] = .error .assertion ∧ ¬ Settles [0xb8, 0x00] := by
  have aborts : Node.decode [0xb8, 0x00] = .error .assertion := rfl
  refine ⟨aborts, ?_⟩
  rintro (⟨node, decoder, ok, _⟩ | ⟨message, thrown⟩)
  · cases aborts.symm.trans ok
  · cases aborts.symm.trans thrown

end Opentxs.Rlp
