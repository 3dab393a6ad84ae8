import Opentxs.Bitcoin.Patterns
import Opentxs.Bitcoin.Roundtrip

/-! Which bytes are taken for one of the standard scripts. A script hash has to be pushed as it should
be. Of a witness program only the length counts, however it is pushed and even if it is cut off. -/

namespace Opentxs.Bitcoin.BitcoinScript
open Library.Endian

variable {allow : Bool} {element : ScriptElement} {elements : List ScriptElement} {bytes rest header program : Bytes} {version : UInt8}
  {size : Nat}

/-! ## The templates -/

def IsScriptHash (bytes : Bytes) : Prop :=
  ∃ hash : Bytes, hash.length = 20 ∧ bytes = OP.HASH160.value :: OP.PUSHDATA_20.value :: (hash ++ [OP.EQUAL.value])

def IsWitness (version : UInt8) (size : Nat) (bytes : Bytes) : Prop :=
  ∃ program : Bytes, program.length = size ∧ bytes = version :: UInt8.ofNat size :: program

/-- An opcode, and the length that goes with it, that asks for so many bytes or more. -/
def Covers (header : Bytes) (size : Nat) : Prop :=
  match header with
  | [] => False
  | opcode :: arg =>
    match isDirectPush ⟨opcode⟩ with
    | some push => arg = [] ∧ size ≤ push
    | none => isPush ⟨opcode⟩ = some arg.length ∧ size ≤ littleUint32 arg

/-- A witness program at the end of the bytes that is not pushed as it should be. -/
def Imitates (version : UInt8) (size : Nat) (bytes : Bytes) : Prop :=
  ∃ header program : Bytes, program.length = size ∧ bytes = version :: (header ++ program) ∧ Covers header size ∧
    header ≠ [UInt8.ofNat size]

def outputType (bytes : Bytes) : Option Pattern := (bitcoinScript bytes .output true).map Script.type

/-- The four templates are told from everything else. -/
structure Recognised (bytes : Bytes) : Prop where
  scriptHash : outputType bytes = some .payToScriptHash ↔ IsScriptHash bytes
  witnessPubkeyHash : outputType bytes = some .payToWitnessPubkeyHash ↔ IsWitness OP.ZERO.value 20 bytes
  witnessScriptHash : outputType bytes = some .payToWitnessScriptHash ↔ IsWitness OP.ZERO.value 32 bytes
  taproot : outputType bytes = some .payToTaproot ↔ IsWitness OP.ONE.value 32 bytes

/-! ## From the type to the elements -/

variable {script : List ScriptElement} {pattern : Pattern} {opcode : OP}

theorem getType_scriptHash : getType .output script = .payToScriptHash ↔ ∃ first hash last, script = [first, hash, last] ∧
    first.opcode = OP.HASH160 ∧ isHash160 hash = true ∧ hash.opcode = OP.PUSHDATA_20 ∧ last.opcode = OP.EQUAL := by
  constructor
  · intro is
    obtain ⟨evaluated, potential⟩ : Evaluates script .payToScriptHash := is ▸ getType_evaluates .output script
    obtain ⟨_, ends, three⟩ := of_decide_eq_true potential
    obtain ⟨first, hash, last, rfl⟩ := List.length_eq_three.mp three
    unfold evaluateScriptHash at evaluated
    dsimp only at evaluated
    split at evaluated
    · cases evaluated
    · next begins =>
      split at evaluated
      · cases evaluated
      · next hashed =>
        split at evaluated
        · cases evaluated
        · next pushed =>
          exact ⟨first, hash, last, rfl, not_not.mp begins, by simpa using hashed, not_not.mp pushed, Option.some.inj ends⟩
  · rintro ⟨first, hash, last, rfl, begins, hashed, pushed, ends⟩
    have never : potentialPubkeyHash [first, hash, last] = false := decide_eq_false fun both => absurd both.2 (show ¬ 3 = 5 by decide)
    have potential : potentialScriptHash [first, hash, last] = true :=
      decide_eq_true ⟨congrArg some begins, congrArg some ends, rfl⟩
    have evaluated : evaluateScriptHash [first, hash, last] = .payToScriptHash := by
      unfold evaluateScriptHash
      dsimp only
      rw [if_neg (not_not.mpr begins), hashed, if_neg (by decide), if_neg (not_not.mpr pushed)]
    unfold getType
    dsimp only
    rw [if_neg (List.cons_ne_nil _ _), never, if_neg Bool.false_ne_true, potential, if_pos rfl, evaluated]

/-- The witness programs: the kind, the version and the size. -/
inductive Witness : Pattern → OP → Nat → Prop
  | pubkeyHash : Witness .payToWitnessPubkeyHash OP.ZERO 20
  | scriptHash : Witness .payToWitnessScriptHash OP.ZERO 32
  | taproot : Witness .payToTaproot OP.ONE 32

theorem toNumber_eq_one : toNumber opcode = 1 ↔ opcode = OP.ONE := by
  constructor
  · intro one
    unfold toNumber at one
    split at one
    · next bounds =>
      have least : 81 ≤ opcode.value.toNat := UInt8.le_iff_toNat_le.mp bounds.1
      have most : opcode.value.toNat - 81 + 1 = 1 := one
      have same : opcode.value = 81 := UInt8.toNat_inj.mp (show opcode.value.toNat = 81 by omega)
      cases opcode
      exact congrArg OP.mk same
    · cases one
  · rintro rfl
    decide

theorem evaluateSegwit_witness (witness : Witness pattern opcode size) {version : ScriptElement} (is : isVersion version.opcode = true) :
    evaluateSegwit [version, element] = pattern ↔ version.opcode = opcode ∧ element.data.map List.length = some size := by
  have zero : toNumber version.opcode = 0 ↔ version.opcode = OP.ZERO :=
    ⟨fun none => (of_decide_eq_true is).resolve_right (by omega), fun none => by rw [none]; decide⟩
  unfold evaluateSegwit
  dsimp only
  generalize element.data.map List.length = length
  cases witness with
  | pubkeyHash =>
    rw [← zero]
    split <;> simp_all
  | scriptHash =>
    rw [← zero]
    split <;> simp_all
  | taproot =>
    rw [← toNumber_eq_one]
    split <;> simp_all

theorem getType_witness (witness : Witness pattern opcode size) : getType .output script = pattern ↔
    ∃ version element, script = [version, element] ∧ version.opcode = opcode ∧ element.data.map List.length = some size := by
  constructor
  · intro is
    have said : evaluateSegwit script = pattern ∧ potentialSegwit script = true := by
      have evaluates : Evaluates script pattern := is ▸ getType_evaluates .output script
      cases witness <;> exact evaluates
    obtain ⟨evaluated, potential⟩ := said
    unfold potentialSegwit at potential
    split at potential
    · next version element =>
      split at potential
      · cases potential
      · next versioned =>
        obtain ⟨begins, long⟩ := (evaluateSegwit_witness witness (by simpa using versioned)).mp evaluated
        exact ⟨version, element, rfl, begins, long⟩
    · cases potential
  · rintro ⟨version, element, rfl, rfl, long⟩
    obtain ⟨program, found, sized⟩ := Option.map_eq_some_iff.mp long
    have versioned : isVersion version.opcode = true := by
      generalize version.opcode = opcode at witness
      cases witness <;> decide
    have within : 1 < program.length ∧ program.length < 41 := by
      rw [sized]
      generalize version.opcode = opcode at witness
      cases witness <;> decide
    have different : version.opcode ≠ OP.RETURN := by
      generalize version.opcode = opcode at witness
      cases witness <;> decide
    have five : potentialPubkeyHash [version, element] = false := decide_eq_false fun both => absurd both.2 (show ¬ 2 = 5 by decide)
    have three : potentialScriptHash [version, element] = false :=
      decide_eq_false fun all => absurd all.2.2 (show ¬ 2 = 3 by decide)
    have data : potentialData [version, element] = false := decide_eq_false fun both => different (Option.some.inj both.1)
    have segwit : potentialSegwit [version, element] = true := by
      unfold potentialSegwit
      dsimp only
      rw [versioned, found]
      exact decide_eq_true within
    unfold getType
    dsimp only
    rw [if_neg (List.cons_ne_nil _ _), five, if_neg Bool.false_ne_true, three, if_neg Bool.false_ne_true, data,
      if_neg Bool.false_ne_true, segwit, if_pos rfl]
    exact (evaluateSegwit_witness witness versioned).mpr ⟨rfl, long⟩

/-! ## From the elements to the bytes -/

/-- At the end of the script a push is what is left. -/
theorem takePush_cut (enough : bytes.length ≤ size) : takePush true size bytes = some (bytes, []) := by
  unfold takePush
  dsimp only
  rw [if_pos rfl, Nat.min_eq_right enough, if_neg (Nat.lt_irrefl _), List.take_length, List.drop_length]

theorem takePush_data {push : Nat} {data : Bytes} (taken : takePush allow push bytes = some (data, rest)) :
    data.length ≤ push := by
  obtain ⟨size, bound, whole, rfl, rfl⟩ := takePush_eq allow push bytes data rest taken
  cases allow with
  | false => exact (List.length_take_le _ _).trans (whole rfl).le
  | true =>
    unfold takePush at taken
    dsimp only at taken
    rw [if_pos rfl] at taken
    split at taken
    · cases taken
    · obtain ⟨same, _⟩ := Prod.mk.inj (Option.some.inj taken)
      rw [← same]
      exact (List.length_take_le _ _).trans (Nat.min_le_left _ _)

/-- The opcode of an invalid element is none of the others. -/
theorem parseElement_invalid {byte : UInt8} (parsed : parseElement allow byte bytes = some (element, rest)) :
    element.opcode ≠ OP.INVALIDOPCODE → element.invalid = none := by
  simp only [parseElement, Option.bind_eq_bind, Option.bind_eq_some_iff] at parsed
  obtain ⟨⟨opcode, invalid⟩, found, parsed⟩ := parsed
  have kind : opcode ≠ OP.INVALIDOPCODE → invalid = none := by
    intro other
    unfold parseOpcode at found
    split at found
    · exact (Prod.mk.inj (Option.some.inj found)).2.symm
    · split at found
      · exact absurd (Prod.mk.inj (Option.some.inj found)).1.symm other
      · cases found
  cases direct : isDirectPush opcode with
  | some size =>
    simp only [direct, Option.bind_eq_some_iff, Option.some.injEq, Prod.mk.injEq] at parsed
    obtain ⟨_, _, rfl, _⟩ := parsed
    exact kind
  | none =>
    cases push : isPush opcode with
    | some size =>
      simp only [direct, push, Option.bind_eq_some_iff, Option.some.injEq, Prod.mk.injEq] at parsed
      obtain ⟨_, _, _, _, rfl, _⟩ := parsed
      exact kind
    | none =>
      simp only [direct, push, Option.some.injEq, Prod.mk.injEq] at parsed
      obtain ⟨rfl, _⟩ := parsed
      exact kind

/-- Data that is there was pushed by an opcode that asked for it. -/
theorem parseElement_covers {byte : UInt8} (parsed : parseElement true byte bytes = some (element, rest)) :
    element.data = some program → program ≠ [] → Covers (element.opcode.value :: element.bytes.getD []) program.length := by
  simp only [parseElement, Option.bind_eq_bind, Option.bind_eq_some_iff] at parsed
  obtain ⟨⟨opcode, invalid⟩, _, parsed⟩ := parsed
  unfold Covers
  cases direct : isDirectPush opcode with
  | some push =>
    simp only [direct, Option.bind_eq_some_iff, Option.some.injEq, Prod.mk.injEq] at parsed
    obtain ⟨⟨data, left⟩, taken, rfl, rfl⟩ := parsed
    intro found _
    obtain rfl := Option.some.inj found
    simp only [direct]
    exact ⟨rfl, takePush_data taken⟩
  | none =>
    cases pushes : isPush opcode with
    | some sizeBytes =>
      simp only [direct, pushes, Option.bind_eq_some_iff, Option.some.injEq, Prod.mk.injEq] at parsed
      obtain ⟨⟨arg, afterArg⟩, takenArg, ⟨data, left⟩, taken, rfl, rfl⟩ := parsed
      intro found some
      obtain rfl := Option.some.inj found
      have short := takePush_data taken
      obtain ⟨size, bound, _, rfl, rfl⟩ := takePush_eq true sizeBytes bytes arg afterArg takenArg
      -- the length is whole, or nothing would be left for the data
      have whole : size = sizeBytes := by
        unfold takePush at takenArg
        dsimp only at takenArg
        rw [if_pos rfl] at takenArg
        split at takenArg
        · cases takenArg
        · obtain ⟨_, left⟩ := Prod.mk.inj (Option.some.inj takenArg)
          have counted := congrArg List.length left
          rw [List.length_drop, List.length_drop] at counted
          have data := List.length_pos_iff.mpr some
          have within := congrArg List.length (takePush_append true _ _ _ _ taken)
          rw [List.length_append, List.length_drop] at within
          dsimp only at data within
          omega
      have arg : (bytes.take size).length = sizeBytes := by rw [List.length_take, Nat.min_eq_left bound, whole]
      have present : bytes.take size ≠ [] := List.ne_nil_of_length_pos (arg ▸ isPush_pos pushes)
      simp only [direct, pushes, if_neg present, Option.getD_some, arg]
      exact ⟨trivial, short⟩
    | none =>
      simp only [direct, pushes, Option.some.injEq, Prod.mk.injEq] at parsed
      obtain ⟨rfl, _⟩ := parsed
      intro found
      cases found

/-- A header that asks for what is left gets it. -/
theorem parseElement_covered {opcode : UInt8} {arg : Bytes} (covers : Covers (opcode :: arg) program.length) :
    ∃ element, parseElement true opcode (arg ++ program) = some (element, []) ∧ element.data = some program := by
  have pushed : opcode < 79 := by
    unfold Covers at covers
    dsimp only at covers
    refine UInt8.lt_iff_toNat_lt.mpr (show opcode.toNat < 79 from ?_)
    split at covers
    · next direct =>
      unfold isDirectPush at direct
      dsimp only at direct
      split at direct
      · omega
      · cases direct
    · obtain ⟨push, _⟩ := covers
      unfold isPush at push
      dsimp only at push
      split at push
      · omega
      · cases push
  have known : decode opcode = some ⟨opcode⟩ := by
    unfold decode
    exact if_pos (.inl (UInt8.le_of_lt (UInt8.lt_of_lt_of_le pushed (by decide))))
  have parsed : parseOpcode true opcode = some (⟨opcode⟩, none) := by
    unfold parseOpcode
    rw [known]
  simp only [parseElement, parsed, Option.bind_eq_bind, Option.bind_some]
  unfold Covers at covers
  dsimp only at covers
  split at covers
  · next direct =>
    obtain ⟨rfl, enough⟩ := covers
    refine ⟨{ opcode := ⟨opcode⟩, data := some program }, ?_, rfl⟩
    simp only [direct, List.nil_append, takePush_cut enough, Option.bind_some]
  · next direct =>
    obtain ⟨push, enough⟩ := covers
    refine ⟨{ opcode := ⟨opcode⟩, bytes := if arg = [] then none else some arg, data := some program }, ?_, rfl⟩
    simp only [direct, push, takePush_exact, Option.bind_some, takePush_cut enough]

theorem outputType_eq_some : outputType bytes = some pattern ↔
    ∃ script, bitcoinScript bytes .output true = some script ∧ getType .output script.elements = pattern := by
  unfold outputType
  rw [Option.map_eq_some_iff]
  constructor
  · rintro ⟨script, parsed, is⟩
    have role := bitcoinScript_role bytes .output true script parsed
    unfold Script.type at is
    exact ⟨script, parsed, role ▸ is⟩
  · rintro ⟨script, parsed, is⟩
    have role := bitcoinScript_role bytes .output true script parsed
    refine ⟨script, parsed, ?_⟩
    unfold Script.type
    rw [role]
    exact is

/-- What an element that only has its opcode is written as. -/
theorem serialize_bare {script : Script} (parsed : bitcoinScript bytes .output true = some script) (member : element ∈ script.elements)
    (direct : isDirectPush element.opcode = none) (push : isPush element.opcode = none) (other : element.opcode ≠ OP.INVALIDOPCODE) :
    element.serialize = [element.opcode.value] := by
  obtain ⟨noBytes, noData⟩ := bitcoinScript_each (fun _ _ _ _ => parseElement_bare) parsed element member direct push
  unfold ScriptElement.serialize
  rw [bitcoinScript_each (fun _ _ _ _ => parseElement_invalid) parsed element member other, noBytes, noData]
  rfl

theorem outputType_witness (witness : Witness pattern opcode size) : outputType bytes = some pattern ↔
    ∃ header program, program.length = size ∧ bytes = opcode.value :: (header ++ program) ∧ Covers header size := by
  have version : isDirectPush opcode = none ∧ isPush opcode = none ∧ opcode ≠ OP.INVALIDOPCODE ∧ decode opcode.value ≠ none := by
    cases witness <;> decide
  obtain ⟨direct, push, other, known⟩ := version
  have long : 0 < size := by cases witness <;> decide
  rw [outputType_eq_some]
  constructor
  · rintro ⟨script, parsed, is⟩
    have same := bitcoinScript_serialize bytes .output true script (by decide) parsed
    obtain ⟨version, element, elements, rfl, sized⟩ := (getType_witness witness).mp is
    obtain ⟨program, found, rfl⟩ := Option.map_eq_some_iff.mp sized
    have first : version ∈ script.elements := elements ▸ List.mem_cons_self
    have second : element ∈ script.elements := elements ▸ List.mem_cons_of_mem _ List.mem_cons_self
    have some := List.ne_nil_of_length_pos long
    have covers := bitcoinScript_each (fun _ _ _ _ => parseElement_covers) parsed element second found some
    have valid : element.invalid = none := by
      refine bitcoinScript_each (fun _ _ _ _ => parseElement_invalid) parsed element second fun invalid => ?_
      have bare := bitcoinScript_each (fun _ _ _ _ => parseElement_bare) parsed element second
      have none := (bare (invalid ▸ by decide) (invalid ▸ by decide)).2
      exact absurd (found.symm.trans none) (Option.some_ne_none program)
    refine ⟨element.opcode.value :: element.bytes.getD [], program, rfl, ?_, covers⟩
    rw [← same]
    unfold Script.serialize
    rw [elements, List.flatMap_cons, List.flatMap_cons, List.flatMap_nil, serialize_bare parsed first direct push other]
    unfold ScriptElement.serialize
    rw [valid, found, List.append_nil]
    rfl
  · rintro ⟨header, program, rfl, rfl, covers⟩
    cases header with
    | nil => exact covers.elim
    | cons byte arg =>
      obtain ⟨element, parsed, found⟩ := parseElement_covered covers
      have first : parseElement true opcode.value (byte :: (arg ++ program)) = some ({ opcode }, byte :: (arg ++ program)) := by
        have valid : ({ opcode } : ScriptElement).validate false = true := by
          unfold ScriptElement.validate
          dsimp only
          rw [direct, push]
          rfl
        exact parseElement_written valid ⟨rfl, known⟩ (fun _ _ => ⟨rfl, rfl⟩) _
      refine ⟨{ role := .output, elements := [{ opcode }, element] }, ?_, ?_⟩
      · unfold bitcoinScript
        rw [if_neg (not_or.mpr ⟨List.cons_ne_nil _ _, by decide⟩)]
        rw [List.length_cons, List.cons_append, List.length_cons]
        unfold parseElements
        rw [first]
        dsimp only [Option.bind_eq_bind, Option.bind_some]
        unfold parseElements
        rw [parsed]
        dsimp only [Option.bind_eq_bind, Option.bind_some]
        unfold parseElements
        rfl
      · exact (getType_witness witness).mpr ⟨_, element, rfl, rfl, congrArg (Option.map List.length) found⟩

theorem outputType_scriptHash : outputType bytes = some .payToScriptHash ↔ IsScriptHash bytes := by
  rw [outputType_eq_some]
  constructor
  · rintro ⟨script, parsed, is⟩
    have same := bitcoinScript_serialize bytes .output true script (by decide) parsed
    obtain ⟨first, hash, last, elements, begins, hashed, pushed, ends⟩ := getType_scriptHash.mp is
    have one : first ∈ script.elements := elements ▸ List.mem_cons_self
    have two : hash ∈ script.elements := elements ▸ List.mem_cons_of_mem _ List.mem_cons_self
    have three : last ∈ script.elements := elements ▸ List.mem_cons_of_mem _ (List.mem_cons_of_mem _ List.mem_cons_self)
    obtain ⟨isData, sized⟩ := of_decide_eq_true hashed
    obtain ⟨data, found, long⟩ := Option.map_eq_some_iff.mp sized
    have valid := bitcoinScript_each (fun _ _ _ _ => parseElement_invalid) parsed hash two (pushed ▸ by decide)
    have alone : hash.bytes = none := by
      unfold ScriptElement.isDataPush ScriptElement.validate at isData
      have direct : isDirectPush hash.opcode = some 20 := pushed ▸ by decide
      rw [valid] at isData
      dsimp only at isData
      rw [direct] at isData
      dsimp only at isData
      split at isData
      · assumption
      · cases isData
    refine ⟨data, long, ?_⟩
    rw [← same]
    unfold Script.serialize
    rw [elements, List.flatMap_cons, List.flatMap_cons, List.flatMap_cons, List.flatMap_nil,
      serialize_bare parsed one (begins ▸ by decide) (begins ▸ by decide) (begins ▸ by decide),
      serialize_bare parsed three (ends ▸ by decide) (ends ▸ by decide) (ends ▸ by decide), begins, ends]
    unfold ScriptElement.serialize
    rw [valid, alone, found, pushed]
    rfl
  · rintro ⟨hash, long, rfl⟩
    have elements : OP.HASH160.value :: OP.PUSHDATA_20.value :: (hash ++ [OP.EQUAL.value]) =
        [opcode OP.HASH160, { opcode := OP.PUSHDATA_20, data := some hash }, opcode OP.EQUAL].flatMap ScriptElement.serialize := rfl
    have pushed : ({ opcode := OP.PUSHDATA_20, data := some hash } : ScriptElement).validate false = true := decide_eq_true long.symm
    have isData : ({ opcode := OP.PUSHDATA_20, data := some hash } : ScriptElement).isDataPush = true := decide_eq_true long.symm
    have parsed : bitcoinScript ([opcode OP.HASH160, { opcode := OP.PUSHDATA_20, data := some hash }, opcode OP.EQUAL].flatMap
        ScriptElement.serialize) .output true =
          some { role := .output, elements := [opcode OP.HASH160, { opcode := OP.PUSHDATA_20, data := some hash }, opcode OP.EQUAL] } := by
      refine bitcoinScript_written (by decide) ?_ ?_ ?_
      · exact List.forall_mem_cons.mpr ⟨rfl, List.forall_mem_cons.mpr ⟨pushed, List.forall_mem_singleton.mpr rfl⟩⟩
      · exact List.forall_mem_cons.mpr ⟨by decide, List.forall_mem_cons.mpr ⟨⟨rfl, (nomatch ·)⟩, List.forall_mem_singleton.mpr (by decide)⟩⟩
      · exact List.forall_mem_cons.mpr ⟨by decide,
          List.forall_mem_cons.mpr ⟨fun direct _ => (nomatch direct), List.forall_mem_singleton.mpr (by decide)⟩⟩
    rw [elements]
    exact ⟨_, parsed, getType_scriptHash.mpr ⟨_, _, _, rfl, rfl, decide_eq_true ⟨isData, congrArg some long⟩, rfl, rfl⟩⟩

/-! ## Every output script -/

/-- A kind of witness program is recognised as it should be unless the bytes imitate it. -/
theorem recognised_iff (witness : Witness pattern opcode size) :
    (outputType bytes = some pattern ↔ IsWitness opcode.value size bytes) ↔ ¬ Imitates opcode.value size bytes := by
  have short : isDirectPush ⟨UInt8.ofNat size⟩ = some size := by cases witness <;> rfl
  rw [outputType_witness witness]
  constructor
  · rintro exactly ⟨header, program, long, same, covers, different⟩
    obtain ⟨program', long', same'⟩ := exactly.mp ⟨header, program, long, same, covers⟩
    have tails : header ++ program = [UInt8.ofNat size] ++ program' := (List.cons.inj (same.symm.trans same')).2
    have headers := List.append_inj_left' tails (long.trans long'.symm)
    exact different headers
  · intro honest
    constructor
    · rintro ⟨header, program, long, same, covers⟩
      have header' : header = [UInt8.ofNat size] := by
        by_contra different
        exact honest ⟨header, program, long, same, covers, different⟩
      rw [header'] at same
      exact ⟨program, long, same⟩
    · rintro ⟨program, long, same⟩
      refine ⟨[UInt8.ofNat size], program, long, same, ?_⟩
      unfold Covers
      dsimp only
      rw [short]
      exact ⟨rfl, Nat.le_refl size⟩

/-- An output script is recognised for what it is if and only if it does not end in a witness program
that is pushed in another way. -/
theorem templates_recognised_iff (bytes : Bytes) : Recognised bytes ↔
    ¬ (Imitates OP.ZERO.value 20 bytes ∨ Imitates OP.ZERO.value 32 bytes ∨ Imitates OP.ONE.value 32 bytes) := by
  rw [not_or, not_or, ← recognised_iff .pubkeyHash, ← recognised_iff .scriptHash, ← recognised_iff .taproot]
  exact ⟨fun ⟨_, pubkeyHash, scriptHash, taproot⟩ => ⟨pubkeyHash, scriptHash, taproot⟩,
    fun ⟨pubkeyHash, scriptHash, taproot⟩ => ⟨outputType_scriptHash, pubkeyHash, scriptHash, taproot⟩⟩

/-- Twenty bytes after an opcode that asks for thirty. -/
theorem cut_program_recognised : ¬ Recognised (0 :: 30 :: List.replicate 20 7) := by
  intro recognised
  obtain ⟨program, _, same⟩ := recognised.witnessPubkeyHash.mp (by decide +kernel)
  exact absurd (List.cons.inj (List.cons.inj same).2).1 (by decide)

end Opentxs.Bitcoin.BitcoinScript
