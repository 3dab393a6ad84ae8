import Opentxs.Bitcoin.BitcoinScript

/-! Scripts are written as they were read, and read as they were written as long as nothing hangs on an
opcode that pushes nothing: the check of the elements does not look there. -/

namespace Opentxs.Bitcoin.BitcoinScript
open Library.Endian

variable {allow : Bool} {element : ScriptElement} {elements : List ScriptElement} {bytes rest : Bytes} {role : Position}

/-! ## Sizes -/

/-- A script that was read keeps the number of its bytes. -/
structure Sized where
  script : Script
  size : Option Nat

def ScriptElement.size (element : ScriptElement) : Nat :=
  1 + (element.bytes.map List.length).getD 0 + (element.data.map List.length).getD 0

def Sized.calculateSize (sized : Sized) : Nat := sized.size.getD (sized.script.elements.map ScriptElement.size).sum

/-- What is written has to fill the space. -/
def Sized.serialize (sized : Sized) : Option Bytes :=
  if sized.calculateSize = 0 then some []
  else if sized.script.serialize.length = sized.calculateSize then some sized.script.serialize else none

def readScript (bytes : Bytes) (role : Position) (allowInvalidOpcodes : Bool) : Option Sized :=
  if bytes = [] ∨ role = .coinbase then some { script := { role, elements := [] }, size := some 0 }
  else (bitcoinScript bytes role allowInvalidOpcodes).map fun script => { script, size := some bytes.length }

theorem serialize_length (element : ScriptElement) : element.serialize.length = element.size := by
  have bytes (option : Option Bytes) : (option.getD []).length = (option.map List.length).getD 0 := by
    cases option <;> rfl
  unfold ScriptElement.serialize ScriptElement.size
  rw [List.length_cons, List.length_append, bytes, bytes]
  omega

theorem script_length (script : Script) : script.serialize.length = (script.elements.map ScriptElement.size).sum := by
  unfold Script.serialize
  rw [List.length_flatMap]
  exact congrArg List.sum (List.map_congr_left fun element _ => serialize_length element)

/-- Every script that is read is written as it was, in the size that its elements add up to. -/
theorem readScript_serialize (bytes : Bytes) (kept : role ≠ .coinbase) : ∃ sized, readScript bytes role true = some sized ∧
    sized.serialize = some bytes ∧ sized.calculateSize = bytes.length ∧
      (sized.script.elements.map ScriptElement.size).sum = bytes.length := by
  unfold readScript
  split
  · next none =>
    obtain rfl := none.resolve_right kept
    exact ⟨_, rfl, rfl, rfl, rfl⟩
  · next some =>
    obtain ⟨script, parsed⟩ := bitcoinScript_total bytes role
    have same := bitcoinScript_serialize bytes role true script kept parsed
    rw [parsed]
    refine ⟨_, rfl, ?_, rfl, ?_⟩
    · have long : bytes.length ≠ 0 := fun zero => some (.inl (List.eq_nil_of_length_eq_zero zero))
      unfold Sized.serialize Sized.calculateSize
      rw [Option.getD_some, if_neg long, same, if_pos rfl]
    · rw [← script_length, same]

/-! ## Elements that are written and read -/

/-- Nothing hangs on an opcode that pushes nothing. -/
def ScriptElement.Bare (element : ScriptElement) : Prop :=
  isDirectPush element.opcode = none → isPush element.opcode = none → element.bytes = none ∧ element.data = none

/-- The opcode is one that there is. -/
def ScriptElement.Known (element : ScriptElement) : Prop := element.invalid = none ∧ decode element.opcode.value ≠ none

instance (element : ScriptElement) : Decidable element.Bare := inferInstanceAs (Decidable (_ → _ → _))

instance (element : ScriptElement) : Decidable element.Known := instDecidableAnd

theorem parseOpcode_known (known : element.Known) : parseOpcode allow element.opcode.value = some (element.opcode, none) := by
  obtain ⟨opcode, found⟩ := Option.ne_none_iff_exists'.mp known.2
  have same : opcode = element.opcode := by
    unfold decode at found
    split at found
    · exact (Option.some.inj found).symm
    · cases found
  unfold parseOpcode
  rw [found, same]

theorem takePush_exact (data rest : Bytes) : takePush allow data.length (data ++ rest) = some (data, rest) := by
  have long : data.length ≤ (data ++ rest).length := List.length_append ▸ Nat.le_add_right _ _
  have size : (if allow then min data.length (data ++ rest).length else data.length) = data.length := by
    split
    · exact Nat.min_eq_left long
    · rfl
  unfold takePush
  dsimp only
  rw [size, if_neg (Nat.not_lt.mpr long), List.take_left, List.drop_left]

theorem isPush_pos {opcode : OP} {size : Nat} (push : isPush opcode = some size) : 0 < size := by
  unfold isPush at push
  dsimp only at push
  split at push
  · obtain rfl := Option.some.inj push
    rw [Nat.one_shiftLeft]
    exact Nat.two_pow_pos _
  · cases push

/-- What the check accepts is read as it was written, with or without invalid opcodes. -/
theorem parseElement_written (valid : element.validate false = true) (known : element.Known) (bare : element.Bare) (rest : Bytes) :
    parseElement allow element.opcode.value (element.bytes.getD [] ++ element.data.getD [] ++ rest) = some (element, rest) := by
  obtain ⟨opcode, invalid, arg, data⟩ := element
  have first : parseOpcode allow opcode.value = some (opcode, none) := parseOpcode_known known
  obtain rfl : invalid = none := known.1
  simp only [parseElement, first, Option.bind_eq_bind, Option.bind_some]
  unfold ScriptElement.validate at valid
  dsimp only at valid
  cases direct : isDirectPush opcode with
  | some size =>
    rw [direct] at valid
    cases arg with
    | some arg => cases valid
    | none =>
      cases data with
      | none => cases valid
      | some data =>
        obtain rfl : size = data.length := of_decide_eq_true valid
        dsimp only [Option.getD]
        rw [List.nil_append, takePush_exact]
        rfl
  | none =>
    rw [direct] at valid
    cases push : isPush opcode with
    | some size =>
      rw [push] at valid
      cases arg with
      | none => cases valid
      | some arg =>
        cases data with
        | none => cases valid
        | some data =>
          obtain ⟨rfl, long⟩ := of_decide_eq_true valid
          have some : arg ≠ [] := List.ne_nil_of_length_pos (isPush_pos push)
          dsimp only [Option.getD]
          rw [List.append_assoc, takePush_exact, Option.bind_some]
          dsimp only
          rw [long, takePush_exact, Option.bind_some, if_neg some]
    | none =>
      obtain ⟨rfl, rfl⟩ := bare direct push
      rfl

theorem parseElements_written (elements : List ScriptElement) (valid : ∀ element ∈ elements, element.validate false = true)
    (known : ∀ element ∈ elements, element.Known) (bare : ∀ element ∈ elements, element.Bare) :
    ∀ rounds, (elements.flatMap ScriptElement.serialize).length ≤ rounds →
      parseElements allow rounds (elements.flatMap ScriptElement.serialize) = some elements := by
  induction elements with
  | nil => exact fun rounds _ => by cases rounds <;> rfl
  | cons element elements ih =>
    obtain ⟨valid, valids⟩ := List.forall_mem_cons.mp valid
    obtain ⟨known, knowns⟩ := List.forall_mem_cons.mp known
    obtain ⟨bare, bares⟩ := List.forall_mem_cons.mp bare
    have opened : (element :: elements).flatMap ScriptElement.serialize =
        element.opcode.value :: (element.bytes.getD [] ++ element.data.getD [] ++ elements.flatMap ScriptElement.serialize) := by
      rw [List.flatMap_cons]
      unfold ScriptElement.serialize
      rw [known.1]
      rfl
    intro rounds enough
    rw [opened] at enough ⊢
    cases rounds with
    | zero => cases enough
    | succ rounds =>
      have fewer : (elements.flatMap ScriptElement.serialize).length ≤ rounds := by
        rw [List.length_cons, List.length_append] at enough
        omega
      unfold parseElements
      rw [parseElement_written valid known bare]
      exact congrArg (Option.bind · fun elements => some (element :: elements)) (ih valids knowns bares rounds fewer)

theorem bitcoinScript_written (kept : role ≠ .coinbase) (valid : ∀ element ∈ elements, element.validate false = true)
    (known : ∀ element ∈ elements, element.Known) (bare : ∀ element ∈ elements, element.Bare) :
    bitcoinScript (elements.flatMap ScriptElement.serialize) role allow = some { role, elements } := by
  unfold bitcoinScript
  split
  · next none =>
    have none := none.resolve_right kept
    cases elements with
    | nil => rfl
    | cons element elements =>
      rw [List.flatMap_cons] at none
      cases (List.append_eq_nil_iff.mp none).1
  · rw [parseElements_written elements valid known bare _ (Nat.le_refl _)]
    rfl

theorem parseElement_bare {byte : UInt8} (parsed : parseElement allow byte bytes = some (element, rest)) : element.Bare := by
  intro direct push
  simp only [parseElement, Option.bind_eq_bind, Option.bind_eq_some_iff] at parsed
  obtain ⟨⟨opcode, invalid⟩, _, parsed⟩ := parsed
  cases isDirect : isDirectPush opcode with
  | some size =>
    simp only [isDirect, Option.bind_eq_some_iff, Option.some.injEq, Prod.mk.injEq] at parsed
    obtain ⟨_, _, rfl, _⟩ := parsed
    exact absurd (isDirect.symm.trans direct) (Option.some_ne_none size)
  | none =>
    cases pushes : isPush opcode with
    | some size =>
      simp only [isDirect, pushes, Option.bind_eq_some_iff, Option.some.injEq, Prod.mk.injEq] at parsed
      obtain ⟨_, _, _, _, rfl, _⟩ := parsed
      exact absurd (pushes.symm.trans push) (Option.some_ne_none size)
    | none =>
      simp only [isDirect, pushes, Option.some.injEq, Prod.mk.injEq] at parsed
      obtain ⟨rfl, _⟩ := parsed
      exact ⟨rfl, rfl⟩

/-- Every script is written as it was read. One that the check accepts is read as it was written if and
only if nothing hangs on an opcode that pushes nothing. -/
theorem scripts_survive_iff (bytes : Bytes) (elements : List ScriptElement) (role : Position) (kept : role ≠ Position.coinbase) :
    (∃ sized, readScript bytes role true = some sized ∧ sized.serialize = some bytes ∧ sized.calculateSize = bytes.length) ∧
    ((∀ element ∈ elements, element.validate false = true) → (∀ element ∈ elements, element.Known) →
      ((bitcoinScript (elements.flatMap ScriptElement.serialize) role false).map Script.elements = some elements ↔
        ∀ element ∈ elements, element.Bare)) := by
  constructor
  · obtain ⟨sized, read, same, size, _⟩ := readScript_serialize bytes kept
    exact ⟨sized, read, same, size⟩
  · intro valid known
    constructor
    · intro read
      obtain ⟨script, parsed, rfl⟩ := Option.map_eq_some_iff.mp read
      exact bitcoinScript_each (fun _ _ _ _ => parseElement_bare) parsed
    · intro bare
      rw [bitcoinScript_written kept valid known bare]
      rfl

/-- An opcode, a direct push and a push with a length. -/
theorem pushes_survive : (bitcoinScript ([opcode OP.DUP, pushData [1, 2], pushData (List.replicate 80 7)].flatMap ScriptElement.serialize)
    .output false).map Script.elements = some [opcode OP.DUP, pushData [1, 2], pushData (List.replicate 80 7)] :=
  ((scripts_survive_iff [] _ .output (by decide)).2 (by decide +kernel) (by decide +kernel)).mpr (by decide +kernel)

/-- A byte hangs on an opcode, and is read as an opcode of its own. -/
def hanging : List ScriptElement := [{ opcode := OP.DUP, data := some [172] }]

theorem hanging_data_lost : (∀ element ∈ hanging, element.validate false = true) ∧ (∀ element ∈ hanging, element.Known) ∧
    (bitcoinScript (hanging.flatMap ScriptElement.serialize) .output false).map Script.elements = some [opcode OP.DUP, opcode OP.CHECKSIG] ∧
      [opcode OP.DUP, opcode OP.CHECKSIG] ≠ hanging := by
  decide

end Opentxs.Bitcoin.BitcoinScript
