import Opentxs.Bitcoin.Patterns

/-! What can be asked of a script without ending the process. The kind of a script vouches for every
position that an accessor reads, but for the one after the last push of a script that only holds data. -/

namespace Opentxs.Bitcoin.BitcoinScript
open Library.Endian

variable {script : Script} {elements : List ScriptElement} {element : ScriptElement} {role : Position} {pattern : Pattern} {position : Nat}

/-! ## What the kinds vouch for -/

theorem isDataPush_data (push : element.isDataPush = true) : ∃ data, element.data = some data := by
  unfold ScriptElement.isDataPush ScriptElement.validate at push
  split at push
  · cases push
  · split at push
    · split at push
      · exact ⟨_, by assumption⟩
      · cases push
    · split at push
      · split at push
        · exact ⟨_, by assumption⟩
        · cases push
      · cases push

theorem isPublicKey_data (key : isPublicKey element = true) : ∃ data, element.data = some data :=
  isDataPush_data (of_decide_eq_true key).1

theorem isHash160_data (hash : isHash160 element = true) : ∃ data, element.data = some data :=
  isDataPush_data (of_decide_eq_true hash).1

theorem type_evaluates (is : script.type = pattern) : Evaluates script.elements pattern :=
  is ▸ getType_evaluates script.role script.elements

theorem type_segwit (is : evaluateSegwit elements = pattern ∧ potentialSegwit elements = true) :
    ∃ version element data, elements = [version, element] ∧ element.data = some data := by
  have potential := is.2
  unfold potentialSegwit at potential
  split at potential
  · next version element =>
    split at potential
    · cases potential
    · split at potential
      · cases potential
      · next data found => exact ⟨version, element, data, rfl, found⟩
  · cases potential

theorem type_scriptHash (is : script.type = .payToScriptHash) :
    ∃ first hash rest data, script.elements = first :: hash :: rest ∧ hash.data = some data := by
  have evaluated := (type_evaluates is).1
  unfold evaluateScriptHash at evaluated
  split at evaluated
  · next first hash rest elements =>
    split at evaluated
    · cases evaluated
    · split at evaluated
      · cases evaluated
      · next hashed =>
        obtain ⟨data, found⟩ := isHash160_data (by simpa using hashed)
        exact ⟨first, hash, rest, data, elements, found⟩
  · cases evaluated

theorem type_pubkeyHash (is : script.type = .payToPubkeyHash) :
    ∃ first second hash rest data, script.elements = first :: second :: hash :: rest ∧ hash.data = some data := by
  have evaluated := (type_evaluates is).1
  unfold evaluatePubkeyHash at evaluated
  split at evaluated
  · next first second hash third rest elements =>
    split at evaluated
    · cases evaluated
    · split at evaluated
      · cases evaluated
      · split at evaluated
        · cases evaluated
        · next hashed =>
          obtain ⟨data, found⟩ := isHash160_data (by simpa using hashed)
          exact ⟨first, second, hash, _, data, elements, found⟩
  · cases evaluated

theorem type_pubkey (is : script.type = .payToPubkey) : ∃ key rest data, script.elements = key :: rest ∧ key.data = some data := by
  have evaluated := (type_evaluates is).1
  unfold evaluatePubkey at evaluated
  split at evaluated
  · next key rest elements =>
    split at evaluated
    · next public_key =>
      obtain ⟨data, found⟩ := isPublicKey_data public_key
      exact ⟨key, rest, data, elements, found⟩
    · cases evaluated
  · cases evaluated

/-- Only pushes come after the first element. -/
theorem type_nullData (is : script.type = .nullData) :
    2 ≤ script.elements.length ∧ ∀ element ∈ script.elements.tail, element.isDataPush = true := by
  obtain ⟨evaluated, potential⟩ := type_evaluates is
  unfold evaluateData at evaluated
  split at evaluated
  · next pushes => exact ⟨(of_decide_eq_true potential).2, List.all_eq_true.mp pushes⟩
  · cases evaluated

/-- The keys stand between two numbers, and the second number is how many there are. -/
theorem type_multisig (is : script.type = .payToMultisig) : ∃ first keys last check, script.elements = first :: (keys ++ [last, check]) ∧
    keys.length = toNumber last.opcode ∧ ∀ key ∈ keys, isPublicKey key = true := by
  have evaluated := (type_evaluates is).1
  unfold evaluateMultisig at evaluated
  split at evaluated
  · next check last before backwards =>
    have forwards : script.elements = (check :: last :: before).reverse := by rw [← backwards, List.reverse_reverse]
    have count : script.elements.length = before.length + 2 := by rw [forwards, List.length_reverse, List.length_cons, List.length_cons]
    dsimp only at evaluated
    split at evaluated
    · cases evaluated
    · split at evaluated
      · cases evaluated
      · next enough =>
        split at evaluated
        · cases evaluated
        · next keys =>
          split at evaluated
          · next first rest dropped =>
            split at evaluated
            · cases evaluated
            · split at evaluated
              · cases evaluated
              · next exactly =>
                have one := congrArg List.length dropped
                rw [List.length_drop, List.length_cons] at one
                obtain rfl : rest = [] := List.eq_nil_of_length_eq_zero (by omega)
                refine ⟨first, (before.take (toNumber last.opcode)).reverse, last, check, ?_, ?_, ?_⟩
                · calc script.elements = (check :: last :: (before.take (toNumber last.opcode) ++ [first])).reverse := by
                        rw [forwards, ← dropped, List.take_append_drop]
                    _ = first :: ((before.take (toNumber last.opcode)).reverse ++ [last, check]) := by simp
                · rw [List.length_reverse, List.length_take]
                  omega
                · have all : (before.take (toNumber last.opcode)).all isPublicKey = true := by simpa using keys
                  exact fun key member => List.all_eq_true.mp all key (List.mem_reverse.mp member)
          · cases evaluated
  · cases evaluated

/-! ## Reading at a position -/

theorem getOpcode_ok {opcode : OP} (found : script.elements[position]?.map ScriptElement.opcode = some opcode) :
    script.getOpcode position = .ok opcode := by
  obtain ⟨element, held, rfl⟩ := Option.map_eq_some_iff.mp found
  unfold Script.getOpcode
  rw [held]

theorem getData_ok {data : Bytes} (held : script.elements[position]? = some element) (found : element.data = some data) :
    script.getData position = .ok data := by
  unfold Script.getData
  rw [held]
  dsimp only
  rw [found]

theorem value_ok {data : Bytes} (found : element.data = some data) : element.value = .ok data := by
  unfold ScriptElement.value
  rw [found]

theorem readPushes_eq (elements : List ScriptElement) : Script.readPushes elements =
    .ok (elements.flatMap fun element => if element.isDataPush then pushElements (element.data.getD []) else []) := by
  induction elements with
  | nil => rfl
  | cons element elements ih =>
    unfold Script.readPushes
    rw [List.flatMap_cons]
    split
    · next push =>
      obtain ⟨data, found⟩ := isDataPush_data push
      rw [value_ok found, ih, found]
      rfl
    · rw [ih]
      rfl

theorem readRedeemScript_eq (script : Script) : script.readRedeemScript = .ok script.redeemScript := by
  unfold Script.readRedeemScript Script.redeemScript
  split
  · rfl
  · cases script.elements.getLast? with
    | none => rfl
    | some element =>
      dsimp only
      split
      · next push =>
        obtain ⟨data, found⟩ := isDataPush_data push
        rw [value_ok found, found]
        rfl
      · rfl

theorem readOwn_eq (style : FilterType) (script : Script) : script.readOwn style = .ok (script.extractOwn style) := by
  unfold Script.readOwn Script.extractOwn
  split
  · rfl
  · next some =>
    obtain ⟨element, elements, same⟩ := List.exists_cons_of_ne_nil some
    have first : script.getOpcode 0 = .ok element.opcode := getOpcode_ok (by rw [same]; rfl)
    have head : script.elements.head?.map ScriptElement.opcode = .some element.opcode := by rw [same]; rfl
    have serialized : (do
        let opcode ← script.getOpcode 0
        if opcode = OP.RETURN then .ok [] else .ok [script.serialize]) =
          (Except.ok (if script.elements.head?.map ScriptElement.opcode = .some OP.RETURN then [] else [script.serialize]) :
            Except Exception (List Bytes)) := by
      rw [first, head]
      dsimp only [bind, Except.bind]
      by_cases returns : element.opcode = OP.RETURN
      · rw [if_pos returns, if_pos (congrArg Option.some returns)]
      · rw [if_neg returns, if_neg fun same => returns (Option.some.inj same)]
    cases style with
    | es => exact readPushes_eq script.elements
    | unknownCfilter => exact serialized
    | basicBip158 => exact serialized
    | basicBchVariant => exact serialized

/-- Reading the elements for a filter always comes to an end, and with what it should. -/
theorem readElements_eq (style : FilterType) (script : Script) : script.readElements style = .ok (script.extractElements style) := by
  unfold Script.readElements Script.extractElements
  rw [readOwn_eq]
  dsimp only [bind, Except.bind]
  cases style with
  | es =>
    cases elements : script.elements with
    | nil =>
      have nothing : script.redeemScript = none := by
        unfold Script.redeemScript
        rw [elements]
        exact ite_self none
      rw [nothing]
      exact congrArg Except.ok (List.append_nil _).symm
    | cons element rest =>
      dsimp only
      rw [readRedeemScript_eq]
      cases script.redeemScript with
      | none => exact congrArg Except.ok (List.append_nil _).symm
      | some subscript =>
        dsimp only
        rw [readOwn_eq]
  | unknownCfilter => cases script.elements <;> exact congrArg Except.ok (List.append_nil _).symm
  | basicBip158 => cases script.elements <;> exact congrArg Except.ok (List.append_nil _).symm
  | basicBchVariant => cases script.elements <;> exact congrArg Except.ok (List.append_nil _).symm

/-! ## The accessors -/

theorem multisig_numbers (is : script.type = .payToMultisig) : ∃ (first : Nat) (keys : List ScriptElement), (∀ key ∈ keys, isPublicKey key = true) ∧
    script.m = .ok (some first) ∧ script.n = .ok (some keys.length) ∧
      ∀ position, script.elements[position + 1]? = if position < keys.length then keys[position]? else script.elements[position + 1]? := by
  obtain ⟨first, keys, last, check, elements, count, all⟩ := type_multisig is
  have length : script.elements.length - 2 = keys.length + 1 := by
    rw [elements, List.length_cons, List.length_append]
    rfl
  refine ⟨toNumber first.opcode, keys, all, ?_, ?_, fun position => ?_⟩
  · have opcode : script.getOpcode 0 = .ok first.opcode := getOpcode_ok (by rw [elements]; rfl)
    unfold Script.m
    rw [if_neg (not_not.mpr is), opcode]
    rfl
  · have opcode : script.getOpcode (script.elements.length - 2) = .ok last.opcode := by
      refine getOpcode_ok ?_
      rw [length, elements, List.getElem?_cons_succ, List.getElem?_append_right (Nat.le_refl _), Nat.sub_self]
      rfl
    unfold Script.n
    rw [if_neg (not_not.mpr is), opcode, count]
    rfl
  · split
    · next inside => rw [elements, List.getElem?_cons_succ, List.getElem?_append_left inside]
    · rfl

/-- The key at a position is there as long as the position is below the number of keys. -/
theorem multisigPubkey_eq (script : Script) (position : Nat) :
    ∃ result, script.multisigPubkey position = .ok result ∧
      (result ≠ none ↔ ∃ n, script.n = .ok (some n) ∧ position < n) := by
  unfold Script.multisigPubkey
  by_cases is : script.type = .payToMultisig
  · obtain ⟨first, keys, all, _, n, held⟩ := multisig_numbers is
    rw [if_neg (not_not.mpr is), n]
    dsimp only [bind, Except.bind]
    by_cases inside : position < keys.length
    · obtain ⟨data, found⟩ := isPublicKey_data (all _ (List.getElem_mem inside))
      have at_key : script.elements[position + 1]? = some keys[position] := by
        rw [held, if_pos inside, List.getElem?_eq_getElem inside]
      rw [if_neg (by omega), getData_ok at_key found]
      exact ⟨some data, rfl, fun _ => ⟨_, rfl, inside⟩, fun _ => Option.some_ne_none data⟩
    · rw [if_pos (by omega)]
      refine ⟨none, rfl, fun some => absurd rfl some, ?_⟩
      rintro ⟨n, same, below⟩
      obtain rfl := Option.some.inj (Except.ok.inj same)
      exact absurd below inside
  · rw [if_pos is]
    refine ⟨none, rfl, fun some => absurd rfl some, ?_⟩
    rintro ⟨n, same, _⟩
    unfold Script.n at same
    rw [if_pos is] at same
    cases same

theorem m_ok (script : Script) : ∃ result, script.m = .ok result := by
  by_cases is : script.type = .payToMultisig
  · obtain ⟨first, _, _, m, _⟩ := multisig_numbers is
    exact ⟨_, m⟩
  · exact ⟨none, if_pos is⟩

theorem n_ok (script : Script) : ∃ result, script.n = .ok result := by
  by_cases is : script.type = .payToMultisig
  · obtain ⟨_, _, _, _, n, _⟩ := multisig_numbers is
    exact ⟨_, n⟩
  · exact ⟨none, if_pos is⟩

theorem pubkey_ok (script : Script) : ∃ result, script.pubkey = .ok result := by
  unfold Script.pubkey
  split
  · next is =>
    obtain ⟨key, rest, data, elements, found⟩ := type_pubkey is
    have held : script.elements[0]? = some key := elements ▸ rfl
    exact ⟨some data, by rw [getData_ok held found]; rfl⟩
  · next is =>
    obtain ⟨version, element, data, elements, found⟩ := type_segwit (type_evaluates is)
    have held : script.elements[1]? = some element := elements ▸ rfl
    exact ⟨some data, by rw [getData_ok held found]; rfl⟩
  · exact ⟨none, rfl⟩

theorem pubkeyHash_ok (script : Script) : ∃ result, script.pubkeyHash = .ok result := by
  unfold Script.pubkeyHash
  split
  · next is =>
    obtain ⟨first, second, hash, rest, data, elements, found⟩ := type_pubkeyHash is
    have held : script.elements[2]? = some hash := elements ▸ rfl
    exact ⟨some data, by rw [getData_ok held found]; rfl⟩
  · next is =>
    obtain ⟨version, element, data, elements, found⟩ := type_segwit (type_evaluates is)
    have held : script.elements[1]? = some element := elements ▸ rfl
    exact ⟨some data, by rw [getData_ok held found]; rfl⟩
  · exact ⟨none, rfl⟩

theorem scriptHash_ok (script : Script) : ∃ result, script.scriptHash = .ok result := by
  unfold Script.scriptHash
  split
  · next is =>
    obtain ⟨first, hash, rest, data, elements, found⟩ := type_scriptHash is
    have held : script.elements[1]? = some hash := elements ▸ rfl
    exact ⟨some data, by rw [getData_ok held found]; rfl⟩
  · next is =>
    obtain ⟨version, element, data, elements, found⟩ := type_segwit (type_evaluates is)
    have held : script.elements[1]? = some element := elements ▸ rfl
    exact ⟨some data, by rw [getData_ok held found]; rfl⟩
  · exact ⟨none, rfl⟩

/-- Past the last push there is nothing, and right after it nothing can be read. -/
theorem value_eq (script : Script) (position : Nat) : script.value position =
    if script.type = .nullData ∧ position + 1 = script.elements.length then .error .outOfRange
    else .ok (if script.type = .nullData then (script.elements[position + 1]?).bind ScriptElement.data else none) := by
  unfold Script.value
  by_cases is : script.type = .nullData
  · rw [if_neg (not_not.mpr is), if_pos is]
    dsimp only
    rcases Nat.lt_trichotomy (position + 1) script.elements.length with inside | last | outside
    · obtain ⟨_, pushes⟩ := type_nullData is
      have member : script.elements[position + 1] ∈ script.elements.tail := by
        have tail : script.elements.tail[position]? = some script.elements[position + 1] := by
          rw [List.getElem?_tail, List.getElem?_eq_getElem inside]
        exact List.mem_of_getElem? tail
      obtain ⟨data, found⟩ := isDataPush_data (pushes _ member)
      have held := List.getElem?_eq_getElem inside
      rw [if_neg (by omega), if_neg fun both => absurd both.2 inside.ne, getData_ok held found, held]
      exact congrArg Except.ok found.symm
    · rw [if_neg (by omega), if_pos ⟨is, last⟩]
      unfold Script.getData
      rw [List.getElem?_eq_none last.ge]
      rfl
    · rw [if_pos outside, if_neg fun both => absurd both.2 outside.ne', List.getElem?_eq_none outside.le]
      rfl
  · rw [if_pos is, if_neg fun both => is both.1, if_neg is]

/-- Every accessor returns, and a key or a value is there for as many positions as there should be. -/
structure Safe (script : Script) (position : Nat) : Prop where
  m : ∃ result, script.m = .ok result
  n : ∃ result, script.n = .ok result
  multisigPubkey : ∃ result, script.multisigPubkey position = .ok result
  pubkey : ∃ result, script.pubkey = .ok result
  pubkeyHash : ∃ result, script.pubkeyHash = .ok result
  scriptHash : ∃ result, script.scriptHash = .ok result
  value : ∃ result, script.value position = .ok result
  redeemScript : ∃ result, script.readRedeemScript = .ok result
  elements : ∀ style, ∃ result, script.readElements style = .ok result
  keys : (∃ key, script.multisigPubkey position = .ok (some key)) ↔ ∃ n, script.n = .ok (some n) ∧ position < n
  values : (∃ data, script.value position = .ok (some data)) ↔ script.type = .nullData ∧ position < script.elements.length - 1

/-- The accessors of a script are safe if and only if no value is asked for at the number of the pushes. -/
theorem accessors_safe_iff (script : Script) (i : UInt32) :
    Safe script i.toNat ↔ ¬ (script.type = .nullData ∧ i.toNat = script.elements.length - 1) := by
  have pushes (is : script.type = .nullData) := (type_nullData is).1
  have last : script.type = .nullData ∧ i.toNat = script.elements.length - 1 ↔ script.type = .nullData ∧ i.toNat + 1 = script.elements.length := by
    refine and_congr_right fun is => ?_
    have two := pushes is
    omega
  constructor
  · intro safe at_end
    obtain ⟨result, returned⟩ := safe.value
    rw [value_eq, if_pos (last.mp at_end)] at returned
    cases returned
  · intro inside
    obtain ⟨key, multisigPubkey, present⟩ := multisigPubkey_eq script i.toNat
    have value := value_eq script i.toNat
    rw [if_neg (last.not.mp inside)] at value
    refine ⟨m_ok script, n_ok script, ⟨key, multisigPubkey⟩, pubkey_ok script, pubkeyHash_ok script, scriptHash_ok script, ⟨_, value⟩,
      ⟨_, readRedeemScript_eq script⟩, fun style => ⟨_, readElements_eq style script⟩, ?_, ?_⟩
    · rw [← present, multisigPubkey]
      constructor
      · rintro ⟨key', same⟩
        rw [Except.ok.inj same]
        exact Option.some_ne_none key'
      · intro some
        obtain ⟨key', rfl⟩ := Option.ne_none_iff_exists'.mp some
        exact ⟨key', rfl⟩
    · rw [value]
      constructor
      · rintro ⟨data, same⟩
        have same := Except.ok.inj same
        split at same
        · next is =>
          obtain ⟨element, held, _⟩ := Option.bind_eq_some_iff.mp same
          obtain ⟨bound, _⟩ := List.getElem?_eq_some_iff.mp held
          exact ⟨is, by omega⟩
        · cases same
      · rintro ⟨is, below⟩
        have bound : i.toNat + 1 < script.elements.length := by omega
        have tail : script.elements.tail[i.toNat]? = some script.elements[i.toNat + 1] := by
          rw [List.getElem?_tail, List.getElem?_eq_getElem bound]
        obtain ⟨data, found⟩ := isDataPush_data ((type_nullData is).2 _ (List.mem_of_getElem? tail))
        refine ⟨data, ?_⟩
        rw [if_pos is, List.getElem?_eq_getElem bound]
        exact congrArg Except.ok found

def onePush : Script := { role := .output, elements := [opcode OP.RETURN, pushData [7]] }

/-- One push of one byte, asked for its second value. -/
theorem second_value_throws : bitcoinScript [106, 1, 7] .output true = some onePush ∧ onePush.value 1 = .error .outOfRange ∧
    ¬ Safe onePush 1 := by
  have thrown : onePush.value 1 = .error .outOfRange := by decide
  refine ⟨by decide, thrown, fun safe => ?_⟩
  obtain ⟨result, returned⟩ := safe.value
  cases thrown.symm.trans returned

end Opentxs.Bitcoin.BitcoinScript
