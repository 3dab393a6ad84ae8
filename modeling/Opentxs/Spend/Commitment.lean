import Opentxs.Bitcoin.Accessors
import Opentxs.Bitcoin.Identity
import Opentxs.Spend.Signing
import Opentxs.Spend.Weight

/-! What the inputs are signed over, compared with what the transaction that is built in the end says has to
be signed. -/

namespace Opentxs.Spend.Signing
open Library Library.Endian Bitcoin BitcoinScript Transactions Transactions.Parser Blockchain

variable {Hash : Type}

/-! ## What has to be signed -/

/-- The script that an input is signed for: the payment to the key hash at the end of a witness program, or
what is spent itself. -/
def scriptCode (script : Script) : Bytes :=
  if script.type = .payToWitnessPubkeyHash then
    [0x76, 0xa9, 0x14] ++ script.serialize.drop (script.serialize.length - 20) ++ [0x88, 0xac]
  else script.serialize

def counted (bytes : Bytes) : Bytes := CompactSize.encode bytes.length ++ bytes

def hashType (chain : Category) : Bytes := if chain = .bitcoinCash then [0x41, 0, 0, 0] else [0x01, 0, 0, 0]

def bip143Preimage (digest : Bytes → Option Bytes) (transaction : Transactions.Transaction Hash) (index : Nat) (spent : Previous)
    (hashType : Bytes) : Option Bytes := do
  let input ← transaction.inputs[index]?
  let outpoints ← digest (transaction.inputs.flatMap fun input => input.previous.serialize)
  let sequences ← digest (transaction.inputs.flatMap fun input => little32 input.sequence)
  let outputs ← transaction.outputs.mapM Output.serialize
  let outputs ← digest outputs.flatten
  some (little32 transaction.version ++ (outpoints ++ (sequences ++ (input.previous.serialize ++
    (counted (scriptCode spent.script) ++ (little64 spent.value ++ (little32 input.sequence ++ (outputs ++
    (little32 transaction.lockTime ++ hashType)))))))))

/-- Only the input that is signed has a script. -/
def originalPreimage (transaction : Transactions.Transaction Hash) (index : Nat) (spent : Previous) (hashType : Bytes) :
    Option Bytes := do
  let outputs ← transaction.outputs.mapM Output.serialize
  let inputs := transaction.inputs.mapIdx fun position input => input.previous.serialize ++
    (counted (if position = index then scriptCode spent.script else []) ++ little32 input.sequence)
  some (little32 transaction.version ++ (CompactSize.encode transaction.inputs.length ++ (inputs.flatten ++
    (CompactSize.encode transaction.outputs.length ++ (outputs.flatten ++ (little32 transaction.lockTime ++ hashType))))))

def UsesBip143 (chain : Category) (input : SigningInput) : Prop := chain = .bitcoinCash ∨ isSegwit input = true

instance (chain : Category) (input : SigningInput) : Decidable (UsesBip143 chain input) := instDecidableOr

def referencePreimage (digest : Bytes → Option Bytes) (chain : Category) (transaction : Transactions.Transaction Hash) (index : Nat)
    (input : SigningInput) : Option Bytes :=
  if UsesBip143 chain input then bip143Preimage digest transaction index input.spends (hashType chain)
  else originalPreimage transaction index input.spends (hashType chain)

/-- Each input was signed over what the transaction says has to be signed for it. -/
def Commits (hashing : Hashing Hash) (digest : Bytes → Option Bytes) (signed : Progress Hash) : Prop :=
  signed.preimages.map some = signed.signer.inputs.mapIdx fun index input =>
    referencePreimage digest signed.signer.chain (finalizeTransaction hashing signed.signer) index input.1

instance (hashing : Hashing Hash) (digest : Bytes → Option Bytes) (signed : Progress Hash) : Decidable (Commits hashing digest signed) :=
  inferInstanceAs (Decidable (_ = _))

/-- A signed integer holds the values that are hashed, and the outputs can be written where that is not checked. -/
structure Signable (signer : Signer) : Prop where
  values : ∀ input ∈ signer.inputs, UsesBip143 signer.chain input.1 → input.1.spends.value.toNat < 2 ^ 63
  outputs : ∀ input ∈ signer.inputs, ¬ UsesBip143 signer.chain input.1 → ∀ output ∈ signer.outputs, Writable output

/-! ## The parts of a preimage -/

theorem serialize_pushData {hash : Bytes} (length : hash.length = 20) : (pushData hash).serialize = 0x14 :: hash := by
  have nonempty : hash ≠ [] := List.ne_nil_of_length_pos (by omega)
  unfold pushData
  rw [if_neg nonempty, if_pos (by omega), length]
  rfl

/-- A witness program ends with its key hash. -/
theorem pubkeyHash_eq {script : Script} (is : script.type = .payToWitnessPubkeyHash) :
    ∃ hash, hash.length = 20 ∧ script.pubkeyHash = .ok (some hash) ∧
      script.serialize.drop (script.serialize.length - 20) = hash := by
  obtain ⟨evaluated, potential⟩ := type_evaluates is
  obtain ⟨version, element, hash, elements, data⟩ := type_segwit ⟨evaluated, potential⟩
  have length : hash.length = 20 := by
    rw [elements] at evaluated
    unfold evaluateSegwit at evaluated
    dsimp only at evaluated
    rw [data, Option.map_some] at evaluated
    split at evaluated
    · next twenty => exact Option.some.inj twenty
    all_goals cases evaluated
  refine ⟨hash, length, ?_, ?_⟩
  · unfold Script.pubkeyHash Script.getData
    rw [is, elements]
    dsimp only [List.getElem?_cons_succ, List.getElem?_cons_zero]
    rw [data]
    rfl
  · have bytes : script.serialize = (version.serialize ++ (element.invalid.getD element.opcode.value :: element.bytes.getD [])) ++ hash := by
      unfold Script.serialize
      rw [elements]
      simp [ScriptElement.serialize, data]
    rw [bytes, @List.length_append _ _ hash, length, Nat.add_sub_cancel, List.drop_left]

theorem signingSubscript_serialize {script subscript : Script} (found : signingSubscript script = some subscript) :
    subscript.serialize = scriptCode script := by
  unfold signingSubscript at found
  unfold scriptCode
  split at found
  · next is =>
    obtain ⟨hash, length, held, last⟩ := pubkeyHash_eq is
    rw [held] at found
    rw [if_pos is, last, ← Option.some.inj found]
    show [0x76] ++ ([0xa9] ++ ((pushData hash).serialize ++ ([0x88] ++ ([0xac] ++ [])))) = _
    rw [serialize_pushData length]
    rfl
  · next other => rw [if_neg other, Option.some.inj found]

theorem extractInt64_ofUnsigned (units : Nat) :
    (extractInt64 (Amount.ofUnsigned units) % 2 ^ 64).toNat = if units < 2 ^ 63 then units else 0 := by
  have whole : Amount.shiftRight (Amount.ofUnsigned units) = units := Int.mul_tdiv_cancel _ Amount.unit_pos.ne'
  unfold extractInt64
  rw [whole]
  dsimp only
  split_ifs <;> omega

/-- A value is kept when a signed integer holds it. -/
theorem value_kept_iff (value : UInt64) :
    toLittle 8 (extractInt64 (Amount.ofUnsigned value.toNat) % 2 ^ 64).toNat = little64 value ↔ value.toNat < 2 ^ 63 := by
  have bound := value.toNat_lt
  rw [extractInt64_ofUnsigned]
  constructor
  · intro same
    by_contra large
    rw [if_neg large] at same
    have zero : ofLittle (toLittle 8 0) = ofLittle (toLittle 8 value.toNat) := congrArg ofLittle same
    rw [ofLittle_toLittle 8 0 (by decide), ofLittle_toLittle 8 _ (by omega)] at zero
    omega
  · intro small
    rw [if_pos small]
    rfl

/-! ## What does not change -/

/-- Without its signatures. -/
def SigningInput.unsigned (input : SigningInput) : SigningInput := { input with script := emptyScript, witness := [] }

/-- What signing changes of the builder is left out. -/
def blanked (signer : Signer) : Signer := { signer with
  segwit := false
  inputs := signer.inputs.map fun input => (input.1.unsigned, 0) }

section

variable {first final : Signer}

theorem map_same {β : Type} (same : blanked first = blanked final) (view : SigningInput → β)
    (free : ∀ input, view input.unsigned = view input) :
    (first.inputs.map fun input => view input.1) = final.inputs.map fun input => view input.1 := by
  have inputs := congrArg (fun signer => signer.inputs.map fun input => view input.1) same
  unfold blanked at inputs
  simp only [List.map_map, Function.comp_def, free] at inputs
  exact inputs

theorem getElem?_same {β : Type} (same : blanked first = blanked final) (view : SigningInput → β)
    (free : ∀ input, view input.unsigned = view input) (index : Nat) :
    (first.inputs[index]?.map fun input => view input.1) = final.inputs[index]?.map fun input => view input.1 := by
  rw [← List.getElem?_map, ← List.getElem?_map, map_same same view free]

theorem mapIdx_same {β : Type} (same : blanked first = blanked final) (view : Nat → SigningInput → β)
    (free : ∀ index input, view index input.unsigned = view index input) :
    (first.inputs.mapIdx fun index input => view index input.1) = final.inputs.mapIdx fun index input => view index input.1 := by
  apply List.ext_getElem?
  intro index
  rw [List.getElem?_mapIdx, List.getElem?_mapIdx]
  exact getElem?_same same (view index) (free index) index

theorem flatMap_same (same : blanked first = blanked final) (view : SigningInput → Bytes)
    (free : ∀ input, view input.unsigned = view input) :
    (first.inputs.flatMap fun input => view input.1) = final.inputs.flatMap fun input => view input.1 := by
  rw [List.flatMap_def, List.flatMap_def, map_same same view free]

end

/-! ## Hashes -/

variable {hashing : Hashing Hash} {digest : Bytes → Option Bytes} {start signer final : Signer} {index : Nat} {input : SigningInput}
  {value : Amount} {preimage : Bytes}

/-- The bytes that were counted are those of the outputs. -/
def Counted (signer : Signer) : Prop := (signer.outputs.mapM Output.calculateSize).map List.sum = some signer.outputTotal

theorem finalized_fields (same : blanked signer = blanked final) : (finalizeTransaction hashing final).version = signer.version ∧
    (finalizeTransaction hashing final).lockTime = signer.lockTime ∧ (finalizeTransaction hashing final).outputs = signer.outputs := by
  obtain ⟨_, version, lockTime, _, _, outputs, _⟩ := Signer.mk.inj same
  unfold finalizeTransaction
  rw [buildTransaction_eq]
  exact ⟨version.symm, lockTime.symm, outputs.symm⟩

theorem finalized_outpoints : ((finalizeTransaction hashing final).inputs.flatMap fun input => input.previous.serialize) =
    final.inputs.flatMap fun input => input.1.previous.serialize := by
  unfold finalizeTransaction
  rw [buildTransaction_eq]
  exact List.flatMap_map ..

theorem finalized_sequences : ((finalizeTransaction hashing final).inputs.flatMap fun input => little32 input.sequence) =
    final.inputs.flatMap fun input => little32 input.1.sequence := by
  unfold finalizeTransaction
  rw [buildTransaction_eq]
  exact List.flatMap_map ..

theorem length_outputs (outputs : List Output) (written : List Bytes) (ran : outputs.mapM Output.serialize = some written)
    (total : Nat) (counted : (outputs.mapM Output.calculateSize).map List.sum = some total) : written.flatten.length = total := by
  have writable : ∀ output ∈ outputs, Writable output := by
    intro output member
    by_contra refused
    rw [mapM_stops member (output_refused refused)] at ran
    cases ran
  rw [mapM_all fun output member => (output_written (writable output member)).2] at ran
  rw [mapM_all fun output member => (output_written (writable output member)).1] at counted
  rw [← Option.some.inj ran, ← Option.some.inj counted, List.length_flatten, List.map_map]
  rfl

/-- Nothing trails the outputs that are hashed. -/
theorem initBip143_some (counts : Counted signer) {hashes : Bip143Hashes} (made : initBip143 digest signer none = some hashes) :
    ∃ written, signer.outputs.mapM Output.serialize = some written ∧ digest written.flatten = some hashes.outputs ∧
      digest (signer.inputs.flatMap fun input => input.1.previous.serialize) = some hashes.outpoints ∧
      digest (signer.inputs.flatMap fun input => little32 input.1.sequence) = some hashes.sequences := by
  unfold initBip143 at made
  obtain ⟨outpoints, first, made⟩ := Option.bind_eq_some_iff.mp made
  obtain ⟨sequences, second, made⟩ := Option.bind_eq_some_iff.mp made
  obtain ⟨written, third, made⟩ := Option.bind_eq_some_iff.mp made
  obtain ⟨preimage, fourth, made⟩ := Option.bind_eq_some_iff.mp made
  obtain ⟨outputs, fifth, made⟩ := Option.bind_eq_some_iff.mp made
  rw [← length_outputs _ _ third _ counts, fill_exact] at fourth
  rw [← Option.some.inj fourth] at fifth
  rw [← Option.some.inj made]
  exact ⟨written, third, fifth, first, second⟩

theorem new_all (chain : Category) : (SigHash.new chain).type = .all ∧ (SigHash.new chain).anyoneCanPay = false ∧
    (SigHash.new chain).bytes = hashType chain := by
  cases chain <;> exact ⟨rfl, rfl, rfl⟩

/-- The hashes that were kept are those of the transaction; of the rest only the value can differ. -/
theorem bip143_agrees (same : blanked signer = blanked final) (counts : Counted signer) (here : signer.inputs[index]? = some (input, value))
    {hashes : Bip143Hashes} (kept : initBip143 digest signer none = some hashes)
    (signed : hashes.preimage (SigHash.new signer.chain) signer.version signer.lockTime input = some preimage) :
    bip143Preimage digest (finalizeTransaction hashing final) index input.spends (hashType signer.chain) = some preimage ↔
      input.spends.value.toNat < 2 ^ 63 := by
  obtain ⟨written, outputs, third, first, second⟩ := initBip143_some counts kept
  obtain ⟨type, anyone, bytes⟩ := new_all signer.chain
  obtain ⟨script, found, signed⟩ := Option.bind_eq_some_iff.mp signed
  have spent : (finalizeTransaction hashing final).inputs[index]?.map (fun input => (input.previous, input.sequence)) =
      some (input.previous, input.sequence) := by
    have there := getElem?_same same (fun input => (input.previous, input.sequence)) (fun _ => rfl) index
    rw [here, Option.map_some] at there
    unfold finalizeTransaction
    rw [buildTransaction_eq]
    dsimp only
    rw [List.getElem?_map, Option.map_map]
    exact there.symm
  obtain ⟨last, is, parts⟩ := Option.map_eq_some_iff.mp spent
  have reference : bip143Preimage digest (finalizeTransaction hashing final) index input.spends (hashType signer.chain) =
      some (little32 signer.version ++ (hashes.outpoints ++ (hashes.sequences ++ (input.previous.serialize ++
        (counted (scriptCode input.spends.script) ++ (little64 input.spends.value ++ (little32 input.sequence ++ (hashes.outputs ++
        (little32 signer.lockTime ++ hashType signer.chain))))))))) := by
    obtain ⟨versionSame, lockTimeSame, outputsSame⟩ := @finalized_fields _ hashing _ _ same
    unfold bip143Preimage
    rw [is, finalized_outpoints, finalized_sequences, ← flatMap_same same (fun input => input.previous.serialize) fun _ => rfl,
      ← flatMap_same same (fun input => little32 input.sequence) fun _ => rfl, first, second, outputsSame, versionSame, lockTimeSame, outputs]
    show (digest written.flatten).bind _ = _
    rw [third, ← (Prod.mk.inj parts).1, ← (Prod.mk.inj parts).2]
    rfl
  have made : preimage = little32 signer.version ++ (hashes.outpoints ++ (hashes.sequences ++ (input.previous.serialize ++
      (counted (scriptCode input.spends.script) ++ (toLittle 8 (extractInt64 (Amount.ofUnsigned input.spends.value.toNat) % 2 ^ 64).toNat ++
      (little32 input.sequence ++ (hashes.outputs ++ (little32 signer.lockTime ++ hashType signer.chain)))))))) := by
    unfold Bip143Hashes.outpointsFor Bip143Hashes.sequencesFor Bip143Hashes.outputsFor at signed
    rw [type, anyone, bytes, if_neg Bool.false_ne_true, if_neg (by simp), if_pos rfl] at signed
    rw [← Option.some.inj signed, ← signingSubscript_serialize found]
    unfold counted
    rw [List.append_assoc (CompactSize.encode _)]
    rfl
  rw [reference, Option.some.injEq, made, ← value_kept_iff]
  constructor
  · intro equal
    have values := List.append_cancel_left (List.append_cancel_left (List.append_cancel_left (List.append_cancel_left
      (List.append_cancel_left equal))))
    exact (List.append_inj_left values (by rw [little64_length, toLittle_length])).symm
  · intro equal
    rw [equal]

/-! ## The copy -/

/-- The input that is signed, with its script in the copy. -/
def scripted (input : SigningInput) (script : Script) : Input :=
  { previous := input.previous, script, witness := input.witness, sequence := input.sequence, exclusive := plain_exclusive script }

theorem serialize_scripted (input : SigningInput) (script : Script) : (encodeInput (scripted input script)).serialize =
    input.previous.serialize ++ (counted script.serialize ++ little32 input.sequence) := by
  show input.previous.serialize ++ (CompactSize.encode script.serialize.length ++ (script.serialize ++ little32 input.sequence)) = _
  rw [← List.append_assoc (CompactSize.encode _)]
  rfl

theorem serialize_replaced (here : signer.inputs[index]? = some (input, value)) (script : Script) :
    (((signer.inputs.map fun input => input.1.signatureVersion).set index (scripted input script)).map fun input =>
      (encodeInput input).serialize) = signer.inputs.mapIdx fun position input => input.1.previous.serialize ++
        (counted (if position = index then script.serialize else []) ++ little32 input.1.sequence) := by
  apply List.ext_getElem?
  intro position
  rw [List.getElem?_map, List.getElem?_set, List.getElem?_mapIdx, List.length_map]
  by_cases at_ : index = position
  · obtain ⟨inside, _⟩ := List.getElem?_eq_some_iff.mp here
    rw [if_pos at_, if_pos inside, ← at_, here, Option.map_some, Option.map_some, if_pos rfl, serialize_scripted]
  · rw [if_neg at_, List.getElem?_map, Option.map_map, if_neg (Ne.symm at_)]
    exact congrArg (Option.map · signer.inputs[position]?) (funext fun other => serialize_scripted other.1 SigningInput.emptyScript)

theorem serialize_inputs (version lockTime : UInt32) (inputs replaced : List Input) (outputs : List Output) :
    ({ buildTransaction hashing version lockTime false inputs outputs with inputs := replaced } : Transactions.Transaction Hash).serialize false =
      (buildTransaction hashing version lockTime false replaced outputs).serialize false := by
  rw [buildTransaction_eq, buildTransaction_eq]
  rfl

theorem getPreimageBTC_eq (here : signer.inputs[index]? = some (input, value)) :
    getPreimageBTC (initTxcopy hashing signer none) index (SigHash.new signer.chain) =
      (signingSubscript input.spends.script).bind fun script => buffer { buildTransaction hashing signer.version signer.lockTime false
        (signer.inputs.map fun input => input.1.signatureVersion) signer.outputs with
          inputs := (signer.inputs.map fun input => input.1.signatureVersion).set index (scripted input script) } := by
  obtain ⟨type, anyone, _⟩ := new_all signer.chain
  unfold getPreimageBTC initTxcopy
  rw [if_neg (not_not.mpr type), anyone, buildTransaction_eq]
  dsimp only
  rw [List.getElem?_map, List.getElem?_map, here]
  rfl

/-- The copy has the bytes of the transaction, but for the scripts. -/
theorem original_agrees (same : blanked signer = blanked final) (here : signer.inputs[index]? = some (input, value))
    (signed : getPreimageBTC (initTxcopy hashing signer none) index (SigHash.new signer.chain) = some preimage) :
    originalPreimage (finalizeTransaction hashing final) index input.spends (hashType signer.chain) =
      some (preimage ++ (SigHash.new signer.chain).bytes) ↔ ∀ output ∈ signer.outputs, Writable output := by
  obtain ⟨versionSame, lockTimeSame, outputsSame⟩ := @finalized_fields _ hashing _ _ same
  constructor
  · intro equal output member
    by_contra refused
    unfold originalPreimage at equal
    rw [outputsSame, mapM_stops member (output_refused refused)] at equal
    cases equal
  · intro writable
    rw [getPreimageBTC_eq here] at signed
    obtain ⟨script, found, signed⟩ := Option.bind_eq_some_iff.mp signed
    unfold buffer at signed
    rw [serialize_inputs, buildTransaction_written writable] at signed
    dsimp only at signed
    have code : script.serialize = scriptCode input.spends.script := signingSubscript_serialize found
    have inputs : ((finalizeTransaction hashing final).inputs.mapIdx fun position other => other.previous.serialize ++
        (counted (if position = index then scriptCode input.spends.script else []) ++ little32 other.sequence)) =
        ((signer.inputs.map fun input => input.1.signatureVersion).set index (scripted input script)).map fun input =>
          (encodeInput input).serialize := by
      rw [serialize_replaced here, code, mapIdx_same same (fun position other => other.previous.serialize ++
        (counted (if position = index then scriptCode input.spends.script else []) ++ little32 other.sequence)) fun _ _ => rfl]
      unfold finalizeTransaction
      rw [buildTransaction_eq]
      apply List.ext_getElem?
      intro position
      dsimp only
      rw [List.getElem?_mapIdx, List.getElem?_map, List.getElem?_mapIdx, Option.map_map]
      rfl
    have count : (finalizeTransaction hashing final).inputs.length = signer.inputs.length := by
      have lengths := congrArg List.length (map_same same (fun _ => ()) fun _ => rfl)
      rw [List.length_map, List.length_map] at lengths
      unfold finalizeTransaction
      rw [buildTransaction_eq]
      exact (List.length_map _).trans lengths.symm
    unfold originalPreimage
    rw [outputsSame, versionSame, lockTimeSame, inputs, count, mapM_all fun output member => (output_written (writable output member)).2,
      ← Option.some.inj signed, (new_all signer.chain).2.2]
    simp [builtBytes, flagOf, wireBytes, marker, writeInputs, writeOutputs, writeWitnesses, List.flatMap_def,
      Function.comp_def]

/-! ## One input after the other -/

theorem sign_blanked {keys : Keys} {signed : SigningInput} (ran : sign keys preimage input = some signed) : signed.unsigned = input.unsigned := by
  have plain : ∀ signatures, addSignatures input signatures = some signed → signed.unsigned = input.unsigned := by
    intro signatures ran
    unfold addSignatures at ran
    split at ran
    · cases ran
    · split at ran
      · obtain ⟨script, _, rfl⟩ := Option.map_eq_some_iff.mp ran
        rfl
      · split at ran
        · cases ran
        · cases ran
          rfl
  have multisig : ∀ signatures, addMultisigSignatures input signatures = some signed → signed.unsigned = input.unsigned := by
    intro signatures ran
    unfold addMultisigSignatures at ran
    split at ran
    · cases ran
    · obtain ⟨script, _, rfl⟩ := Option.map_eq_some_iff.mp ran
      rfl
  unfold sign at ran
  dsimp only at ran
  split at ran
  · cases ran
  · cases ran
  · split at ran
    · exact plain _ ran
    · exact plain _ ran
    · exact plain _ ran
    · split at ran
      · exact multisig _ ran
      · cases ran
    · cases ran

/-- The hashes do not depend on what is signed. -/
theorem initBip143_same {first second : Signer} (same : blanked first = blanked second) :
    initBip143 digest first none = initBip143 digest second none := by
  obtain ⟨_, _, _, _, _, outputs, total⟩ := Signer.mk.inj same
  unfold initBip143
  rw [flatMap_same same (fun input => input.previous.serialize) fun _ => rfl,
    flatMap_same same (fun input => little32 input.sequence) fun _ => rfl]
  show _ = (digest _).bind fun _ => (digest _).bind fun _ => (second.outputs.mapM Output.serialize).bind fun written =>
    (fill second.outputTotal written.flatten).bind _
  rw [← show first.outputs = second.outputs from outputs, ← show first.outputTotal = second.outputTotal from total]
  rfl

/-- What is signed for an input, in a state that differs from the first in what is signed only. -/
inductive SignedOver (hashing : Hashing Hash) (digest : Bytes → Option Bytes) (start : Signer) (index : Nat) : Bytes → Prop
  | bip143 {signer : Signer} {input : SigningInput} {value : Amount} {hashes : Bip143Hashes} {preimage : Bytes}
      (same : blanked signer = blanked start) (here : signer.inputs[index]? = some (input, value))
      (uses : UsesBip143 signer.chain input) (kept : initBip143 digest signer none = some hashes)
      (written : hashes.preimage (SigHash.new signer.chain) signer.version signer.lockTime input = some preimage) :
      SignedOver hashing digest start index preimage
  | original {signer : Signer} {input : SigningInput} {value : Amount} {preimage : Bytes} (same : blanked signer = blanked start)
      (here : signer.inputs[index]? = some (input, value)) (uses : ¬ UsesBip143 signer.chain input)
      (written : getPreimageBTC (initTxcopy hashing signer none) index (SigHash.new signer.chain) = some preimage) :
      SignedOver hashing digest start index (preimage ++ (SigHash.new signer.chain).bytes)

/-- What is kept was made from a state that differs from the first in what is signed only. -/
structure Kept (hashing : Hashing Hash) (digest : Bytes → Option Bytes) (start : Signer) (count : Nat) (signing : Progress Hash) :
    Prop where
  same : blanked signing.signer = blanked start
  bip143 : ∀ hashes ∈ signing.bip143, initBip143 digest start none = some hashes
  txcopy : ∀ copy ∈ signing.txcopy, ∃ signer, blanked signer = blanked start ∧ copy = initTxcopy hashing signer none
  length : signing.preimages.length = count
  preimages : ∀ index preimage, signing.preimages[index]? = some preimage → SignedOver hashing digest start index preimage

theorem kept_start (start : Signer) : Kept hashing digest start 0 { signer := start } where
  same := rfl
  bip143 := fun _ member => absurd member (Option.not_mem_none _)
  txcopy := fun _ member => absurd member (Option.not_mem_none _)
  length := rfl
  preimages := fun _ _ found => by cases found

section

variable {signing next : Progress Hash} {keys : Keys}

theorem finishInput_kept (kept : Kept hashing digest start index signing) (here : signing.signer.inputs[index]? = some (input, value))
    (is : SignedOver hashing digest start index preimage) (ran : finishInput keys index input value preimage signing = some next) :
    Kept hashing digest start (index + 1) next := by
  obtain ⟨signed, made, rfl⟩ := Option.map_eq_some_iff.mp ran
  constructor
  case same =>
    rw [← kept.same]
    unfold blanked
    congr 1
    apply List.ext_getElem?
    intro position
    dsimp only
    rw [List.getElem?_map, List.getElem?_map, List.getElem?_set]
    by_cases at_ : index = position
    · obtain ⟨inside, _⟩ := List.getElem?_eq_some_iff.mp here
      rw [if_pos at_, if_pos inside, ← at_, here, Option.map_some, Option.map_some, sign_blanked made]
    · rw [if_neg at_]
  case bip143 => exact kept.bip143
  case txcopy => exact kept.txcopy
  case length =>
    show (signing.preimages ++ [preimage]).length = index + 1
    rw [List.length_append, kept.length]
    rfl
  case preimages =>
    intro position other found
    rw [show (signing.preimages ++ [preimage])[position]? = _ from List.getElem?_append] at found
    split at found
    · exact kept.preimages position other found
    · next past =>
      rw [kept.length] at past found
      have last : position - index = 0 := by
        by_contra more
        rw [List.getElem?_eq_none (by rw [List.length_singleton]; omega)] at found
        cases found
      rw [last] at found
      cases found
      rwa [show position = index by omega]

theorem signInputBip143_kept (kept : Kept hashing digest start index signing)
    (here : signing.signer.inputs[index]? = some (input, value)) (uses : UsesBip143 signing.signer.chain input)
    (ran : signInputBip143 digest keys index input value signing = some next) : Kept hashing digest start (index + 1) next := by
  unfold signInputBip143 at ran
  obtain ⟨hashes, made, ran⟩ := Option.bind_eq_some_iff.mp ran
  obtain ⟨preimage, written, ran⟩ := Option.bind_eq_some_iff.mp ran
  have first : initBip143 digest start none = some hashes := by
    cases was : signing.bip143 with
    | none =>
      rw [was, initBip143_same kept.same] at made
      exact made
    | some earlier =>
      rw [was] at made
      rw [kept.bip143 earlier was, ← show some earlier = some hashes from made]
  have again : Kept hashing digest start index { signing with bip143 := some hashes } :=
    { kept with bip143 := fun _ member => Option.some.inj member ▸ first }
  apply finishInput_kept again here _ ran
  exact .bip143 kept.same here uses ((initBip143_same kept.same).trans first) written

theorem signInputBtc_kept (kept : Kept hashing digest start index signing)
    (here : signing.signer.inputs[index]? = some (input, value)) (uses : ¬ UsesBip143 signing.signer.chain input)
    (ran : signInputBtc hashing keys index input value signing = some next) : Kept hashing digest start (index + 1) next := by
  unfold signInputBtc at ran
  obtain ⟨preimage, written, ran⟩ := Option.bind_eq_some_iff.mp ran
  have copied : ∃ signer, blanked signer = blanked start ∧ initTxcopy hashing signing.signer signing.txcopy = initTxcopy hashing signer none := by
    cases was : signing.txcopy with
    | none => exact ⟨signing.signer, kept.same, rfl⟩
    | some copy => exact kept.txcopy copy was
  obtain ⟨signer, same, copy⟩ := copied
  have equal : blanked signing.signer = blanked signer := kept.same.trans same.symm
  have chain : signing.signer.chain = signer.chain := (Signer.mk.inj equal).1
  -- the input of the state that was copied has another script at most
  have there := getElem?_same equal (fun input => (input.previous, input.sequence, input.spends)) (fun _ => rfl) index
  rw [here, Option.map_some] at there
  obtain ⟨⟨earlier, amount⟩, found, parts⟩ := Option.map_eq_some_iff.mp there.symm
  have unused : ¬ UsesBip143 signer.chain earlier := by
    unfold UsesBip143 isSegwit
    rw [← chain, (Prod.mk.inj (Prod.mk.inj parts).2).2]
    exact uses
  rw [copy, chain] at written
  split at ran
  · cases ran
  · rw [chain] at ran
    have again : Kept hashing digest start index { signing with txcopy := some (initTxcopy hashing signing.signer signing.txcopy) } :=
      { kept with txcopy := fun _ member => ⟨signer, same, (Option.some.inj member).symm.trans copy⟩ }
    apply finishInput_kept again here _ ran
    exact .original same found unused written

theorem signInput_kept (kept : Kept hashing digest start index signing)
    (ran : signInput hashing digest keys index signing = some next) : Kept hashing digest start (index + 1) next := by
  unfold signInput at ran
  obtain ⟨⟨input, value⟩, here, ran⟩ := Option.bind_eq_some_iff.mp ran
  dsimp only at ran
  split at ran
  · next cash => exact signInputBip143_kept kept here (.inl cash) ran
  · next plain =>
    split at ran
    · next segwit =>
      have again : Kept hashing digest start index { signing with signer := { signing.signer with segwit := true } } :=
        { kept with same := kept.same }
      exact signInputBip143_kept again here (.inr segwit) ran
    · next legacy =>
      apply signInputBtc_kept kept here _ ran
      rintro (cash | segwit)
      · rw [plain] at cash
        cases cash
      · exact legacy segwit
  · cases ran

theorem signInputsFrom_kept (count : Nat) : ∀ {first : Nat} {signing : Progress Hash}, Kept hashing digest start first signing →
    signInputsFrom hashing digest keys (List.range' first count) signing = some next → Kept hashing digest start (first + count) next := by
  induction count with
  | zero =>
    intro first signing kept ran
    cases ran
    exact kept
  | succ count ih =>
    intro first signing kept ran
    obtain ⟨middle, step, ran⟩ := Option.bind_eq_some_iff.mp ran
    rw [Nat.add_comm count, ← Nat.add_assoc]
    exact ih (signInput_kept kept step) ran

theorem signInputs_kept (ran : signInputs hashing digest keys start = some next) :
    Kept hashing digest start start.inputs.length next := by
  unfold signInputs at ran
  rw [List.range_eq_range'] at ran
  have kept := signInputsFrom_kept _ (kept_start start) ran
  rwa [Nat.zero_add] at kept

end

/-! ## What was signed -/

theorem counted_same {first second : Signer} (same : blanked first = blanked second) (counts : Counted second) : Counted first := by
  obtain ⟨_, _, _, _, _, outputs, total⟩ := Signer.mk.inj same
  unfold Counted
  rw [show first.outputs = second.outputs from outputs, show first.outputTotal = second.outputTotal from total]
  exact counts

theorem length_same {first second : Signer} (same : blanked first = blanked second) : first.inputs.length = second.inputs.length := by
  have lengths := congrArg List.length (map_same same (fun _ => ()) fun _ => rfl)
  rwa [List.length_map, List.length_map] at lengths

theorem spends_same {first second : Signer} (same : blanked first = blanked second) {earlier : SigningInput} {amount : Amount}
    (here : first.inputs[index]? = some (earlier, amount)) (there : second.inputs[index]? = some (input, value)) :
    earlier.spends = input.spends := by
  have both := getElem?_same same (fun input => input.spends) (fun _ => rfl) index
  rw [here, there, Option.map_some, Option.map_some] at both
  exact Option.some.inj both

theorem uses_same {first second : Signer} (same : blanked first = blanked second) {earlier : SigningInput} {amount : Amount}
    (here : first.inputs[index]? = some (earlier, amount)) (there : second.inputs[index]? = some (input, value)) :
    UsesBip143 first.chain earlier ↔ UsesBip143 second.chain input := by
  unfold UsesBip143 isSegwit
  rw [spends_same same here there, show first.chain = second.chain from (Signer.mk.inj same).1]

/-- What is asked of one input. -/
def SignableAt (signer : Signer) (input : SigningInput) : Prop :=
  (UsesBip143 signer.chain input → input.spends.value.toNat < 2 ^ 63) ∧
    (¬ UsesBip143 signer.chain input → ∀ output ∈ signer.outputs, Writable output)

theorem SignedOver.agrees (counts : Counted start) (signed : SignedOver hashing digest start index preimage)
    (same : blanked final = blanked start) (there : final.inputs[index]? = some (input, value)) :
    referencePreimage digest final.chain (finalizeTransaction hashing final) index input = some preimage ↔ SignableAt final input := by
  unfold referencePreimage SignableAt
  cases signed with
  | @bip143 signer earlier amount hashes preimage was here uses kept written =>
    have equal : blanked signer = blanked final := was.trans same.symm
    have agrees := @bip143_agrees _ hashing _ _ _ _ _ _ _ equal (counted_same was counts) here _ kept written
    have used := (uses_same equal here there).mp uses
    rw [spends_same equal here there, show signer.chain = final.chain from (Signer.mk.inj equal).1] at agrees
    rw [if_pos used, agrees]
    exact ⟨fun small => ⟨fun _ => small, fun unused => absurd used unused⟩, fun able => able.1 used⟩
  | @original signer earlier amount preimage was here uses written =>
    have equal : blanked signer = blanked final := was.trans same.symm
    have agrees := original_agrees equal here written
    have unused := fun used => uses ((uses_same equal here there).mpr used)
    have outputs : signer.outputs = final.outputs := (Signer.mk.inj equal).2.2.2.2.2.1
    rw [spends_same equal here there, show signer.chain = final.chain from (Signer.mk.inj equal).1, outputs] at agrees
    rw [if_neg unused, show signer.chain = final.chain from (Signer.mk.inj equal).1, agrees]
    exact ⟨fun writable => ⟨fun used => absurd used unused, fun _ => writable⟩, fun able => able.2 unused⟩

theorem signable_iff (signer : Signer) : Signable signer ↔ ∀ input ∈ signer.inputs, SignableAt signer input.1 :=
  ⟨fun able input member => ⟨able.values input member, able.outputs input member⟩,
    fun all => ⟨fun input member => (all input member).1, fun input member => (all input member).2⟩⟩

theorem signable_same {first second : Signer} (same : blanked first = blanked second) : Signable first ↔ Signable second := by
  have able : ∀ {first second : Signer}, blanked first = blanked second → Signable second → Signable first := by
    intro first second same able
    rw [signable_iff] at able ⊢
    rintro ⟨input, value⟩ member
    obtain ⟨index, here⟩ := List.mem_iff_getElem?.mp member
    obtain ⟨inside, _⟩ := List.getElem?_eq_some_iff.mp here
    rw [length_same same] at inside
    have there := List.getElem?_eq_getElem inside
    have other := able _ (List.mem_of_getElem? there)
    unfold SignableAt at other ⊢
    rw [uses_same same here there, spends_same same here there, show first.outputs = second.outputs from (Signer.mk.inj same).2.2.2.2.2.1]
    exact other
  exact ⟨able same.symm, able same⟩

section

variable {keys : Keys} {signed : Progress Hash}

theorem signed_at (counts : Counted start) (ran : signInputs hashing digest keys start = some signed)
    (here : signed.signer.inputs[index]? = some (input, value)) :
    ∃ preimage, signed.preimages[index]? = some preimage ∧
      (referencePreimage digest signed.signer.chain (finalizeTransaction hashing signed.signer) index input = some preimage ↔
        SignableAt signed.signer input) := by
  have kept := signInputs_kept ran
  obtain ⟨inside, _⟩ := List.getElem?_eq_some_iff.mp here
  rw [length_same kept.same, ← kept.length] at inside
  have found := List.getElem?_eq_getElem inside
  exact ⟨_, found, (kept.preimages index _ found).agrees counts kept.same here⟩

/-- The inputs commit to the transaction exactly when no value is lost. -/
theorem commits_iff (counts : Counted start) (ran : signInputs hashing digest keys start = some signed) :
    Commits hashing digest signed ↔ Signable start := by
  have kept := signInputs_kept ran
  rw [← signable_same kept.same, signable_iff]
  constructor
  · rintro commits ⟨input, value⟩ member
    obtain ⟨index, here⟩ := List.mem_iff_getElem?.mp member
    obtain ⟨preimage, found, agrees⟩ := signed_at counts ran here
    have equal := congrArg (fun preimages => preimages[index]?) commits
    rw [List.getElem?_map, List.getElem?_mapIdx, found, here] at equal
    exact agrees.mp (Option.some.inj equal).symm
  · intro able
    apply List.ext_getElem?
    intro index
    rw [List.getElem?_map, List.getElem?_mapIdx]
    cases here : signed.signer.inputs[index]? with
    | none =>
      rw [List.getElem?_eq_none_iff, length_same kept.same, ← kept.length, ← List.getElem?_eq_none_iff] at here
      rw [here]
      rfl
    | some entry =>
      obtain ⟨preimage, found, agrees⟩ := signed_at counts ran here
      rw [found, Option.map_some, Option.map_some, agrees.mpr (able entry (List.mem_of_getElem? here))]

end

end Opentxs.Spend.Signing
