import Opentxs.Bitcoin.Accessors
import Opentxs.Bitcoin.Roundtrip

/-! Scripts that are built on purpose, and what is read from them again. An empty push is built in a form
that the check of the elements does not take. -/

namespace Opentxs.Bitcoin.BitcoinScript
open Library.Endian

variable {data : Bytes} {elements : List ScriptElement}

/-! ## Pushes -/

/-- The parser and the check agree on these. -/
structure Sound (element : ScriptElement) : Prop where
  valid : element.validate false = true
  known : element.Known
  bare : element.Bare

/-- Every length has its own form. -/
theorem pushData_cases (some : data ≠ []) (small : data.length < 2 ^ 32) : (pushData data).data = .some data ∧ (pushData data).invalid = none ∧
    ((pushData data).bytes = none ∧ isDirectPush (pushData data).opcode = .some data.length ∨
      ∃ size, (pushData data).bytes = .some (toLittle size data.length) ∧ isDirectPush (pushData data).opcode = none ∧
        isPush (pushData data).opcode = .some size ∧ data.length < 256 ^ size) ∧ (pushData data).opcode.value < 79 := by
  have long : 0 < data.length := List.length_pos_iff.mpr some
  unfold pushData
  rw [if_neg some]
  split
  · next direct =>
    have value : (UInt8.ofNat data.length).toNat = data.length := by
      rw [UInt8.toNat_ofNat']
      omega
    refine ⟨rfl, rfl, .inl ⟨rfl, ?_⟩, UInt8.lt_iff_toNat_lt.mpr ?_⟩
    · unfold isDirectPush
      dsimp only
      rw [value, if_pos ⟨long, by omega⟩]
    · show (UInt8.ofNat data.length).toNat < 79
      rw [value]
      omega
  · split
    · next one => exact ⟨rfl, rfl, .inr ⟨1, rfl, rfl, rfl, by omega⟩, show OP.PUSHDATA1.value < 79 by decide⟩
    · split
      · next two => exact ⟨rfl, rfl, .inr ⟨2, rfl, rfl, rfl, by omega⟩, show OP.PUSHDATA2.value < 79 by decide⟩
      · exact ⟨rfl, rfl, .inr ⟨4, rfl, rfl, rfl, by omega⟩, show OP.PUSHDATA4.value < 79 by decide⟩

theorem pushData_isDataPush (some : data ≠ []) (small : data.length < 2 ^ 32) (checkForData : Bool) :
    (pushData data).validate checkForData = true := by
  obtain ⟨held, valid, form, _⟩ := pushData_cases some small
  unfold ScriptElement.validate
  rw [valid, held]
  rcases form with ⟨alone, direct⟩ | ⟨size, arg, direct, push, fits⟩
  · rw [direct, alone]
    exact decide_eq_true rfl
  · rw [direct, push, arg]
    refine decide_eq_true ⟨(toLittle_length size _).symm, ofLittle_toLittle size _ fits⟩

theorem pushData_sound (some : data ≠ []) (small : data.length < 2 ^ 32) : Sound (pushData data) := by
  obtain ⟨_, valid, form, low⟩ := pushData_cases some small
  refine ⟨pushData_isDataPush some small false, ⟨valid, ?_⟩, fun direct push => ?_⟩
  · unfold decode
    rw [if_pos (.inl (UInt8.le_of_lt (UInt8.lt_of_lt_of_le low (by decide))))]
    exact Option.some_ne_none _
  · rcases form with ⟨_, is⟩ | ⟨size, _, _, is, _⟩
    · exact absurd (is.symm.trans direct) (Option.some_ne_none _)
    · exact absurd (is.symm.trans push) (Option.some_ne_none _)

/-- What is built of sound elements is read as it was built. -/
theorem scriptOf_sound (allow : Bool) (sound : ∀ element ∈ elements, Sound element) (some : elements ≠ []) :
    scriptOf elements .output = .some { role := .output, elements } ∧
      bitcoinScript ({ role := .output, elements } : Script).serialize .output allow = .some { role := .output, elements } := by
  constructor
  · unfold scriptOf
    exact if_pos ⟨List.all_eq_true.mpr fun element member => (sound element member).valid, fun both => some both.1⟩
  · exact bitcoinScript_written (by decide) (fun element member => (sound element member).valid)
      (fun element member => (sound element member).known) fun element member => (sound element member).bare

/-- An empty push among the elements lets nothing be built. -/
theorem scriptOf_empty (member : pushData [] ∈ elements) : scriptOf elements .output = none := by
  unfold scriptOf
  refine if_neg fun both => ?_
  exact absurd (List.all_eq_true.mp both.1 _ member) (by decide)

/-! ## Data -/

/-- The strings are read from the script as they were given. -/
def BuildsData (data : List Bytes) : Prop :=
  ∃ script parsed, bitcoinScriptNullData data = some script ∧ bitcoinScript script.serialize .output true = some parsed ∧
    ∀ i (inside : i < data.length), parsed.value i = .ok (some data[i])

/-- Whatever is pushed after it. -/
theorem getType_nullData {pushes : List ScriptElement} (some : pushes ≠ []) (all : ∀ push ∈ pushes, push.isDataPush = true)
    (low : ∀ push ∈ pushes, push.opcode.value < 79) : getType .output (opcode OP.RETURN :: pushes) = .nullData := by
  obtain ⟨last, ends⟩ : ∃ last, (opcode OP.RETURN :: pushes).getLast? = .some last ∧ last ∈ pushes := by
    obtain ⟨before, last, rfl⟩ := (List.eq_nil_or_concat pushes).resolve_left some
    rw [List.concat_eq_append, ← List.cons_append]
    exact ⟨last, List.getLast?_concat, List.mem_concat_self⟩
  have five : potentialPubkeyHash (opcode OP.RETURN :: pushes) = false := by
    refine decide_eq_false fun both => ?_
    have checks := both.1
    unfold lastOpcode at checks
    rw [ends.1] at checks
    have value := low last ends.2
    rw [Option.some.inj checks] at value
    exact absurd value (by decide)
  have three : potentialScriptHash (opcode OP.RETURN :: pushes) = false := decide_eq_false fun all => nomatch all.1
  have potential : potentialData (opcode OP.RETURN :: pushes) = true := by
    refine decide_eq_true ⟨rfl, ?_⟩
    have long := List.length_pos_iff.mpr some
    rw [List.length_cons]
    omega
  have evaluated : evaluateData (opcode OP.RETURN :: pushes) = .nullData := if_pos (List.all_eq_true.mpr all)
  unfold getType
  dsimp only
  rw [if_neg (List.cons_ne_nil _ _), five, if_neg Bool.false_ne_true, three, if_neg Bool.false_ne_true, potential, if_pos rfl, evaluated]

theorem buildsData_iff {data : List Bytes} (small : ∀ push ∈ data, push.length < 2 ^ 32) : BuildsData data ↔ ∀ push ∈ data, push ≠ [] := by
  constructor
  · rintro ⟨script, parsed, built, _⟩ push member rfl
    have member : pushData [] ∈ opcode OP.RETURN :: data.map pushData := List.mem_cons_of_mem _ (List.mem_map_of_mem member)
    exact absurd (built.symm.trans (scriptOf_empty member)) (Option.some_ne_none script)
  · intro full
    have sound : ∀ element ∈ opcode OP.RETURN :: data.map pushData, Sound element := by
      refine List.forall_mem_cons.mpr ⟨⟨rfl, by decide, by decide⟩, List.forall_mem_map.mpr fun push member => ?_⟩
      exact pushData_sound (full push member) (small push member)
    obtain ⟨built, parsed⟩ := scriptOf_sound true sound (List.cons_ne_nil _ _)
    refine ⟨_, _, built, parsed, fun i inside => ?_⟩
    have some : data.map pushData ≠ [] := List.ne_nil_of_length_pos (by rw [List.length_map]; omega)
    have is : Script.type { role := .output, elements := opcode OP.RETURN :: data.map pushData } = .nullData := by
      refine getType_nullData some (List.forall_mem_map.mpr fun push member => ?_) (List.forall_mem_map.mpr fun push member => ?_)
      · exact pushData_isDataPush (full push member) (small push member) true
      · exact (pushData_cases (full push member) (small push member)).2.2.2
    have held : (opcode OP.RETURN :: data.map pushData)[i + 1]? = .some (pushData data[i]) := by
      rw [List.getElem?_cons_succ, List.getElem?_map, List.getElem?_eq_getElem inside]
      rfl
    have member := List.getElem_mem inside
    have found := (pushData_cases (full _ member) (small _ member)).1
    unfold Script.value
    rw [if_neg (not_not.mpr is)]
    dsimp only
    rw [if_neg (by rw [List.length_cons, List.length_map]; omega), getData_ok held found]
    rfl

/-! ## Multisignatures -/

/-- The numbers and the keys are read from the script as they were given. -/
def BuildsMultisig (m n : UInt8) (keys : List Bytes) : Prop :=
  ∃ script parsed, bitcoinScriptP2MS m n (keys.map some) = some script ∧ bitcoinScript script.serialize .output true = some parsed ∧
    parsed.type = .payToMultisig ∧ parsed.m = .ok (some m.toNat) ∧ parsed.n = .ok (some n.toNat) ∧
      ∀ i (inside : i < keys.length), parsed.multisigPubkey i = .ok (some keys[i])

def multisigElements (m n : UInt8) (keys : List Bytes) : List ScriptElement :=
  opcode ⟨m + 80⟩ :: (keys.map pushData ++ [opcode ⟨n + 80⟩, opcode OP.CHECKMULTISIG])

theorem mapM_some (keys : List Bytes) : (keys.map some).mapM id = some keys := by
  induction keys with
  | nil => rfl
  | cons key keys ih =>
    rw [List.map_cons, List.mapM_cons, ih]
    rfl

theorem bitcoinScriptP2MS_eq {m n : UInt8} (keys : List Bytes) (ms : m ≠ 0 ∧ m ≤ 16) (ns : n ≠ 0 ∧ n ≤ 16) :
    bitcoinScriptP2MS m n (keys.map some) = scriptOf (multisigElements m n keys) .output := by
  unfold bitcoinScriptP2MS
  rw [if_neg (not_or.mpr ⟨ms.1, UInt8.not_lt.mpr ms.2⟩), if_neg (not_or.mpr ⟨ns.1, UInt8.not_lt.mpr ns.2⟩), mapM_some]
  rfl

theorem toNumber_add {n : UInt8} (some : n ≠ 0 ∧ n ≤ 16) : toNumber ⟨n + 80⟩ = n.toNat := by
  have most : n.toNat ≤ 16 := UInt8.le_iff_toNat_le.mp some.2
  have least : n.toNat ≠ 0 := fun zero => some.1 (UInt8.toNat_inj.mp zero)
  have value : (n + 80).toNat = n.toNat + 80 := by
    rw [UInt8.toNat_add]
    exact Nat.mod_eq_of_lt (show n.toNat + 80 < 256 by omega)
  have bounds : OP.ONE.value ≤ n + 80 ∧ n + 80 ≤ OP.SIXTEEN.value := by
    refine ⟨UInt8.le_iff_toNat_le.mpr ?_, UInt8.le_iff_toNat_le.mpr ?_⟩ <;> rw [value]
    · show 81 ≤ n.toNat + 80
      omega
    · show n.toNat + 80 ≤ 96
      omega
  unfold toNumber
  dsimp only
  rw [if_pos bounds, value]
  show n.toNat + 80 - 81 + 1 = n.toNat
  omega

theorem opcode_sound {n : UInt8} (some : n ≠ 0 ∧ n ≤ 16) : Sound (opcode ⟨n + 80⟩) := by
  have least : n.toNat ≠ 0 := fun zero => some.1 (UInt8.toNat_inj.mp zero)
  have most : n.toNat ≤ 16 := UInt8.le_iff_toNat_le.mp some.2
  have value : (n + 80).toNat = n.toNat + 80 := by
    rw [UInt8.toNat_add]
    exact Nat.mod_eq_of_lt (show n.toNat + 80 < 256 by omega)
  have direct : isDirectPush ⟨n + 80⟩ = none := by
    unfold isDirectPush
    dsimp only
    rw [value, if_neg (by omega)]
  have push : isPush ⟨n + 80⟩ = none := by
    unfold isPush
    dsimp only
    rw [value, if_neg (by omega)]
  refine ⟨?_, ⟨rfl, ?_⟩, fun _ _ => ⟨rfl, rfl⟩⟩
  · unfold ScriptElement.validate opcode
    dsimp only
    rw [direct, push]
    rfl
  · have low : n + 80 ≤ 185 := UInt8.le_iff_toNat_le.mpr (by rw [value]; show n.toNat + 80 ≤ 185; omega)
    show decode (n + 80) ≠ none
    unfold decode
    rw [if_pos (.inl low)]
    exact Option.some_ne_none _

theorem multisigElements_sound {m n : UInt8} {keys : List Bytes} (ms : m ≠ 0 ∧ m ≤ 16) (ns : n ≠ 0 ∧ n ≤ 16)
    (full : ∀ key ∈ keys, key ≠ []) (small : ∀ key ∈ keys, key.length < 2 ^ 32) : ∀ element ∈ multisigElements m n keys, Sound element := by
  refine List.forall_mem_cons.mpr ⟨opcode_sound ms, List.forall_mem_append.mpr ⟨List.forall_mem_map.mpr fun key member => ?_, ?_⟩⟩
  · exact pushData_sound (full key member) (small key member)
  · exact List.forall_mem_cons.mpr ⟨opcode_sound ns, List.forall_mem_singleton.mpr ⟨rfl, by decide, by decide⟩⟩

theorem isPublicKey_pushData (some : data ≠ []) (small : data.length < 2 ^ 32) :
    isPublicKey (pushData data) = true ↔ data.length = 33 ∨ data.length = 65 := by
  unfold isPublicKey
  rw [decide_eq_true_iff, (pushData_cases some small).1]
  constructor
  · exact fun key => key.2.imp Option.some.inj Option.some.inj
  · exact fun long => ⟨pushData_isDataPush some small true, long.imp (congrArg Option.some) (congrArg Option.some)⟩

theorem evaluateMultisig_elements {m n : UInt8} {keys : List Bytes} (ms : m ≠ 0 ∧ m ≤ n) (ns : n ≠ 0 ∧ n ≤ 16) (count : keys.length = n.toNat)
    (all : ∀ key ∈ keys, isPublicKey (pushData key) = true) : evaluateMultisig (multisigElements m n keys) = .payToMultisig := by
  have backwards : (multisigElements m n keys).reverse =
      opcode OP.CHECKMULTISIG :: opcode ⟨n + 80⟩ :: ((keys.map pushData).reverse ++ [opcode ⟨m + 80⟩]) := by
    unfold multisigElements
    simp
  have length : (multisigElements m n keys).length = 3 + n.toNat := by
    unfold multisigElements
    rw [List.length_cons, List.length_append, List.length_map, count]
    show n.toNat + 2 + 1 = _
    omega
  have number : toNumber (opcode ⟨n + 80⟩).opcode = n.toNat := toNumber_add ns
  have first : toNumber (opcode ⟨m + 80⟩).opcode = m.toNat := toNumber_add ⟨ms.1, UInt8.le_trans ms.2 ns.2⟩
  have keysLength : (keys.map pushData).reverse.length = n.toNat := by rw [List.length_reverse, List.length_map, count]
  have positive : n.toNat ≠ 0 := fun zero => ns.1 (UInt8.toNat_inj.mp zero)
  have least : m.toNat ≠ 0 := fun zero => ms.1 (UInt8.toNat_inj.mp zero)
  have most : m.toNat ≤ n.toNat := UInt8.le_iff_toNat_le.mp ms.2
  have taken : ((keys.map pushData).reverse ++ [opcode ⟨m + 80⟩]).take n.toNat = (keys.map pushData).reverse := by
    rw [← keysLength, List.take_left]
  have dropped : ((keys.map pushData).reverse ++ [opcode ⟨m + 80⟩]).drop n.toNat = [opcode ⟨m + 80⟩] := by
    rw [← keysLength, List.drop_left]
  have public_keys : ((keys.map pushData).reverse).all isPublicKey = true := by
    refine List.all_eq_true.mpr fun key member => ?_
    obtain ⟨key, inside, rfl⟩ := List.mem_map.mp (List.mem_reverse.mp member)
    exact all key inside
  unfold evaluateMultisig
  rw [backwards]
  dsimp only
  rw [number, length, if_neg positive, if_neg (Nat.lt_irrefl _), taken, public_keys, if_neg (by decide), dropped]
  dsimp only
  rw [first, if_neg (by omega), if_neg (Nat.lt_irrefl _)]

theorem getType_multisigElements {m n : UInt8} {keys : List Bytes} (ms : m ≠ 0 ∧ m ≤ n) (ns : n ≠ 0 ∧ n ≤ 16) (count : keys.length = n.toNat)
    (all : ∀ key ∈ keys, isPublicKey (pushData key) = true) : getType .output (multisigElements m n keys) = .payToMultisig := by
  have positive : n.toNat ≠ 0 := fun zero => ns.1 (UInt8.toNat_inj.mp zero)
  have length : (multisigElements m n keys).length = 3 + n.toNat := by
    unfold multisigElements
    rw [List.length_cons, List.length_append, List.length_map, count]
    show n.toNat + 2 + 1 = _
    omega
  have ends : lastOpcode (multisigElements m n keys) = some OP.CHECKMULTISIG := by
    have shape : multisigElements m n keys =
        opcode ⟨m + 80⟩ :: (keys.map pushData ++ [opcode ⟨n + 80⟩]) ++ [opcode OP.CHECKMULTISIG] := by simp [multisigElements]
    unfold lastOpcode
    rw [shape, List.getLast?_concat]
    rfl
  have begins : ∀ other, toNumber other = 0 → firstOpcode (multisigElements m n keys) ≠ some other := by
    rintro other zero same
    obtain rfl : OP.mk (m + 80) = other := Option.some.inj same
    have number := toNumber_add ⟨ms.1, UInt8.le_trans ms.2 ns.2⟩
    exact ms.1 (UInt8.toNat_inj.mp (number.symm.trans zero))
  have five : potentialPubkeyHash (multisigElements m n keys) = false :=
    decide_eq_false fun both => absurd (Option.some.inj (ends.symm.trans both.1)) (by decide)
  have three : potentialScriptHash (multisigElements m n keys) = false := decide_eq_false fun all => begins OP.HASH160 (by decide) all.1
  have returns : potentialData (multisigElements m n keys) = false := decide_eq_false fun both => begins OP.RETURN (by decide) both.1
  have segwit : potentialSegwit (multisigElements m n keys) = false := by
    unfold potentialSegwit
    split
    · next version element same =>
      rw [same] at length
      have two : 2 = 3 + n.toNat := length
      omega
    · rfl
  have pubkey : potentialPubkey (multisigElements m n keys) = false :=
    decide_eq_false fun both => absurd (Option.some.inj (ends.symm.trans both.1)) (by decide)
  have multisig : potentialMultisig (multisigElements m n keys) = true := decide_eq_true ⟨ends, by rw [length]; omega⟩
  unfold getType
  dsimp only
  rw [if_neg (show multisigElements m n keys ≠ [] from List.cons_ne_nil _ _), five, if_neg Bool.false_ne_true, three,
    if_neg Bool.false_ne_true, returns, if_neg Bool.false_ne_true, segwit, if_neg Bool.false_ne_true, pubkey, if_neg Bool.false_ne_true, multisig, if_pos rfl]
  exact evaluateMultisig_elements ms ns count all

/-- The keys that are read are the keys that were pushed. -/
theorem multisig_reads {m n : UInt8} {keys : List Bytes} (ms : m ≠ 0 ∧ m ≤ n) (ns : n ≠ 0 ∧ n ≤ 16) (count : keys.length = n.toNat)
    (held : ∀ key ∈ keys, (pushData key).data = some key)
    (is : Script.type { role := .output, elements := multisigElements m n keys } = .payToMultisig) :
    Script.m { role := .output, elements := multisigElements m n keys } = .ok (some m.toNat) ∧
      Script.n { role := .output, elements := multisigElements m n keys } = .ok (some n.toNat) ∧
        ∀ i (inside : i < keys.length), Script.multisigPubkey { role := .output, elements := multisigElements m n keys } i = .ok (some keys[i]) := by
  have length : (multisigElements m n keys).length - 2 = keys.length + 1 := by
    unfold multisigElements
    rw [List.length_cons, List.length_append, List.length_map]
    rfl
  have first : Script.getOpcode { role := .output, elements := multisigElements m n keys } 0 = .ok ⟨m + 80⟩ := getOpcode_ok rfl
  have last : Script.getOpcode { role := .output, elements := multisigElements m n keys } ((multisigElements m n keys).length - 2) = .ok ⟨n + 80⟩ := by
    refine getOpcode_ok ?_
    unfold multisigElements at length ⊢
    dsimp only
    rw [length, List.getElem?_cons_succ, List.getElem?_append_right (by rw [List.length_map]), List.length_map, Nat.sub_self]
    rfl
  have number : Script.n { role := .output, elements := multisigElements m n keys } = .ok (some n.toNat) := by
    unfold Script.n
    rw [if_neg (not_not.mpr is), last]
    exact congrArg (Except.ok ∘ some) (toNumber_add ns)
  refine ⟨?_, number, fun i inside => ?_⟩
  · unfold Script.m
    rw [if_neg (not_not.mpr is), first]
    exact congrArg (Except.ok ∘ some) (toNumber_add ⟨ms.1, UInt8.le_trans ms.2 ns.2⟩)
  · have at_key : (multisigElements m n keys)[i + 1]? = some (pushData keys[i]) := by
      unfold multisigElements
      rw [List.getElem?_cons_succ, List.getElem?_append_left (by rw [List.length_map]; exact inside), List.getElem?_map,
        List.getElem?_eq_getElem inside]
      rfl
    unfold Script.multisigPubkey
    rw [if_neg (not_not.mpr is), number]
    dsimp only [bind, Except.bind]
    rw [if_neg (by omega), getData_ok at_key (held _ (List.getElem_mem inside))]
    rfl

theorem buildsMultisig_iff {m n : UInt8} {keys : List Bytes} (ms : m ≠ 0 ∧ m ≤ n) (ns : n ≠ 0 ∧ n ≤ 16) (count : keys.length = n.toNat)
    (small : ∀ key ∈ keys, key.length < 2 ^ 32) : BuildsMultisig m n keys ↔ ∀ key ∈ keys, key.length = 33 ∨ key.length = 65 := by
  have build := bitcoinScriptP2MS_eq keys ⟨ms.1, UInt8.le_trans ms.2 ns.2⟩ ns
  constructor
  · rintro ⟨script, parsed, built, read, is, _⟩
    have full : ∀ key ∈ keys, key ≠ [] := by
      rintro key member rfl
      have inside : pushData [] ∈ multisigElements m n keys :=
        List.mem_cons_of_mem _ (List.mem_append_left _ (List.mem_map_of_mem member))
      exact absurd ((build.symm.trans built).symm.trans (scriptOf_empty inside)) (Option.some_ne_none script)
    have sound := multisigElements_sound ⟨ms.1, UInt8.le_trans ms.2 ns.2⟩ ns full small
    obtain ⟨made, again⟩ := scriptOf_sound true sound (List.cons_ne_nil _ _)
    obtain rfl := Option.some.inj (built.symm.trans (build.trans made))
    obtain rfl := Option.some.inj (read.symm.trans again)
    obtain ⟨first, keys', last, check, elements, _, all⟩ := type_multisig is
    have tails := (List.cons.inj elements).2
    have pushes : keys.map pushData = keys' := List.append_inj_left' tails rfl
    intro key member
    exact (isPublicKey_pushData (full key member) (small key member)).mp (all _ (pushes ▸ List.mem_map_of_mem member))
  · intro long
    have full : ∀ key ∈ keys, key ≠ [] := by
      rintro key member rfl
      exact (long [] member).elim (nomatch ·) (nomatch ·)
    have sound := multisigElements_sound ⟨ms.1, UInt8.le_trans ms.2 ns.2⟩ ns full small
    obtain ⟨made, again⟩ := scriptOf_sound true sound (List.cons_ne_nil _ _)
    have all : ∀ key ∈ keys, isPublicKey (pushData key) = true := fun key member =>
      (isPublicKey_pushData (full key member) (small key member)).mpr (long key member)
    have is : Script.type { role := .output, elements := multisigElements m n keys } = .payToMultisig :=
      getType_multisigElements ms ns count all
    have reads := multisig_reads ms ns count (fun key member => (pushData_cases (full key member) (small key member)).1) is
    exact ⟨_, _, build.trans made, again, is, reads⟩

/-- Data is read as it was given if and only if no string is empty. Keys are, if and only if each is as long
as a public key is. -/
theorem built_scripts_read_iff (data : List Bytes) (m n : UInt8) (keys : List Bytes) :
    ((∀ push ∈ data, push.length < 2 ^ 32) → (BuildsData data ↔ ∀ push ∈ data, push ≠ [])) ∧
    (1 ≤ m → m ≤ n → n ≤ 16 → keys.length = n.toNat → (∀ key ∈ keys, key.length < 2 ^ 32) →
      (BuildsMultisig m n keys ↔ ∀ key ∈ keys, key.length = 33 ∨ key.length = 65)) := by
  refine ⟨fun small => buildsData_iff small, fun positive most least count small => ?_⟩
  have ms : m ≠ 0 := by
    rintro rfl
    exact absurd positive (by decide)
  have ns : n ≠ 0 := by
    rintro rfl
    exact absurd (UInt8.le_trans positive most) (by decide)
  exact buildsMultisig_iff ⟨ms, most⟩ ⟨ns, least⟩ count small

theorem data_and_keys_read : BuildsData [[1], List.replicate 76 2, List.replicate 256 3] ∧
    BuildsMultisig 1 2 [List.replicate 33 2, List.replicate 65 4] :=
  ⟨((built_scripts_read_iff _ 1 1 []).1 (by decide +kernel)).mpr (by decide +kernel),
    ((built_scripts_read_iff [] 1 2 _).2 (by decide) (by decide) (by decide) rfl (by decide +kernel)).mpr (by decide +kernel)⟩

/-- No script is built of an empty string. -/
theorem empty_string_not_built : bitcoinScriptNullData [[]] = none ∧ ¬ BuildsData [[]] := by
  have nothing : bitcoinScriptNullData [[]] = none := by decide
  refine ⟨nothing, ?_⟩
  rintro ⟨script, _, built, _⟩
  cases nothing.symm.trans built

end Opentxs.Bitcoin.BitcoinScript
