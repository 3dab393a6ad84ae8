import Opentxs.Bitcoin.Parsed
import Opentxs.Library.PartialMap

/-! The hashes of a transaction that was built, and those of the same transaction after it was written and parsed. -/

namespace Opentxs.Bitcoin.Transactions
open Library Library.Endian Blockchain Opentxs.Bitcoin.Transactions.Parser
open Spend (Amount)

variable {Hash : Type} {hashing : Hashing Hash} {chain : ChainParameters} {version lockTime : UInt32} {segwit : Bool}
  {inputs : List Input} {outputs : List Output}

/-! ## What is hashed when it is built -/

/-- What is encoded of an output, and what is written. -/
def plainOutput (output : Output) : UInt64 × Bytes := ((encodeOutput output).value, output.script.serialize)

def fullOutput (output : Output) : UInt64 × Bytes :=
  ((encodeOutput output).value, (tokenBytes output.cashtoken).getD [] ++ output.script.serialize)

theorem encodeInput_counted (input : Input) : (encodeInput input).cs = (encodeInput input).script.length := rfl

theorem encodeOutput_serialize (output : Output) : (encodeOutput output).serialize = some (writeOutput (plainOutput output)) := rfl

theorem encodeOutput_size (output : Output) : (encodeOutput output).size = (writeOutput (plainOutput output)).length := by
  simp only [EncodedOutput.size, encodeOutput, writeOutput, plainOutput, CompactSize.total, CompactSize.size, List.length_append,
    little64_length]

theorem mapM_all {α β : Type} {items : List α} {step : α → Option β} {value : α → β} (each : ∀ item ∈ items, step item = some (value item)) :
    items.mapM step = some (items.map value) := by
  apply (PartialMap.mapM_eq_some_iff step items _).mpr
  rw [List.map_map]
  exact List.map_congr_left each

theorem mapM_stops {α β : Type} {items : List α} {step : α → Option β} {item : α} (member : item ∈ items) (stops : step item = none) :
    items.mapM step = none := by
  cases ran : items.mapM step with
  | none => rfl
  | some values =>
    have same := (PartialMap.mapM_eq_some_iff step items values).mp ran
    have found : none ∈ values.map some := same ▸ List.mem_map.mpr ⟨item, member, stops⟩
    obtain ⟨value, _, other⟩ := List.mem_map.mp found
    cases other

/-- What is hashed for the txid is what would be written without witnesses and tokens. -/
theorem encodeTransaction_preimages : (encodeTransaction hashing version lockTime segwit inputs outputs).preimages =
    some { legacy := wireBytes version lockTime none (inputs.map encodeInput) (outputs.map plainOutput) [], segwit := [] } := by
  have written : (outputs.map encodeOutput).mapM EncodedOutput.serialize = some (outputs.map fun output => writeOutput (plainOutput output)) := by
    rw [List.mapM_map]
    exact mapM_all fun output _ => encodeOutput_serialize output
  have first : ((inputs.map encodeInput).map EncodedInput.size).sum = ((inputs.map encodeInput).flatMap EncodedInput.serialize).length := by
    rw [List.length_flatMap]
    apply congrArg List.sum
    apply List.map_congr_left
    intro input member
    obtain ⟨source, _, rfl⟩ := List.mem_map.mp member
    exact (EncodedInput.serialize_length (encodeInput_counted source)).symm
  have second : ((outputs.map encodeOutput).map EncodedOutput.size).sum = ((outputs.map plainOutput).flatMap writeOutput).length := by
    rw [List.length_flatMap, List.map_map, List.map_map]
    exact congrArg List.sum (List.map_congr_left fun output _ => encodeOutput_size output)
  have legacy : (encodeTransaction hashing version lockTime segwit inputs outputs).preimage
      (encodeTransaction hashing version lockTime segwit inputs outputs).legacySize none =
        some (wireBytes version lockTime none (inputs.map encodeInput) (outputs.map plainOutput) []) := by
    have bytes : little32 version ++ ([] ++ (CompactSize.encode inputs.length ++ ((inputs.map encodeInput).flatMap EncodedInput.serialize ++
        (CompactSize.encode outputs.length ++ ((outputs.map fun output => writeOutput (plainOutput output)).flatten ++
          ([] ++ (little32 lockTime ++ []))))))) =
        wireBytes version lockTime none (inputs.map encodeInput) (outputs.map plainOutput) [] := by
      simp [wireBytes, marker, writeInputs, writeOutputs, writeWitnesses, List.flatMap_def, Function.comp_def]
    have size : (encodeTransaction hashing version lockTime segwit inputs outputs).legacySize =
        (wireBytes version lockTime none (inputs.map encodeInput) (outputs.map plainOutput) []).length := by
      unfold EncodedTransaction.legacySize
      show 4 + (CompactSize.encode inputs.length).length + ((inputs.map encodeInput).map EncodedInput.size).sum +
        (CompactSize.encode outputs.length).length + ((outputs.map encodeOutput).map EncodedOutput.size).sum + 4 + 0 = _
      rw [first, second]
      simp only [wireBytes, marker, writeInputs, writeOutputs, writeWitnesses, List.length_append, little32_length, List.length_map,
        List.length_nil, Option.isSome_none, Bool.false_eq_true, if_false]
      omega
    show ((outputs.map encodeOutput).mapM EncodedOutput.serialize).bind _ = _
    rw [written, Option.bind_some]
    show fill _ (little32 version ++ ([] ++ (CompactSize.encode inputs.length ++ ((inputs.map encodeInput).flatMap EncodedInput.serialize ++
        (CompactSize.encode outputs.length ++ ((outputs.map fun output => writeOutput (plainOutput output)).flatten ++
          ([] ++ (little32 lockTime ++ [])))))))) = _
    rw [bytes, size, fill_exact]
  unfold EncodedTransaction.preimages
  rw [legacy]
  rfl

/-- What stands in for the hash of a generation transaction is found by its inputs. -/
def generates (inputs : List Input) : Bool := inputs.any (0 < ·.coinbase.length)

theorem buildTransaction_eq : buildTransaction hashing version lockTime segwit inputs outputs =
    { isGeneration := false, version, segwitFlag := if segwit then 1 else 0, lockTime,
      id := hashing.transactionHash (wireBytes version lockTime none (inputs.map encodeInput) (outputs.map plainOutput) []),
      hash := if generates inputs then hashing.blank
        else hashing.transactionHash (wireBytes version lockTime none (inputs.map encodeInput) (outputs.map plainOutput) []),
      inputs, outputs, dip2 := none, position := none } := by
  unfold buildTransaction EncodedTransaction.calculateIDs
  rw [encodeTransaction_preimages]
  rfl

theorem built_id : (buildTransaction hashing version lockTime segwit inputs outputs).id =
    hashing.transactionHash (wireBytes version lockTime none (inputs.map encodeInput) (outputs.map plainOutput) []) := by
  rw [buildTransaction_eq]

theorem built_hash : (buildTransaction hashing version lockTime segwit inputs outputs).hash =
    if generates inputs then hashing.blank
    else hashing.transactionHash (wireBytes version lockTime none (inputs.map encodeInput) (outputs.map plainOutput) []) := by
  rw [buildTransaction_eq]

/-! ## What is written -/

/-- The value has a place in the format, and so has the amount of the token. -/
def Writable (output : Output) : Prop :=
  (0 ≤ Spend.Amount.shiftRight output.value ∧ Spend.Amount.shiftRight output.value ≤ 2 ^ 63 - 1) ∧
    ∀ token ∈ output.cashtoken, Cashtoken.Fits token.amount

theorem serializeBitcoin_eq {output : Output}
    (range : 0 ≤ Spend.Amount.shiftRight output.value ∧ Spend.Amount.shiftRight output.value ≤ 2 ^ 63 - 1) :
    serializeBitcoin output.value = some (little64 (encodeOutput output).value) := by
  have bytes : serializeBitcoin output.value = some (toLittle 8 (Spend.Amount.shiftRight output.value).toNat) := by
    unfold serializeBitcoin
    rw [if_neg (by omega)]
  have small : (Spend.Amount.shiftRight output.value).toNat < 256 ^ 8 := by omega
  have value : (encodeOutput output).value = UInt64.ofNat (Spend.Amount.shiftRight output.value).toNat := by
    unfold encodeOutput
    rw [bytes]
    exact congrArg UInt64.ofNat (ofLittle_toLittle 8 _ small)
  have back : (UInt64.ofNat (Spend.Amount.shiftRight output.value).toNat).toNat = (Spend.Amount.shiftRight output.value).toNat := by
    rw [UInt64.toNat_ofNat']
    exact Nat.mod_eq_of_lt (by omega)
  rw [bytes, value, little64, back]

theorem finished_length (written : Bytes) : finished written.length written = some written := if_pos rfl

/-- A token that can be written takes the space it says. -/
theorem token_written {cashtoken : Option Cashtoken.Value} (fits : ∀ token ∈ cashtoken, Cashtoken.Fits token.amount) :
    ∃ bytes, tokenBytes cashtoken = some bytes ∧ tokenSize cashtoken = some bytes.length := by
  cases cashtoken with
  | none => exact ⟨[], rfl, rfl⟩
  | some token =>
    obtain ⟨written, _⟩ := Cashtoken.serialize_fits token (fits token rfl)
    exact ⟨_, written, Cashtoken.serialize_bytes (fits token rfl) written⟩

theorem token_refused {cashtoken : Option Cashtoken.Value} (large : ¬ ∀ token ∈ cashtoken, Cashtoken.Fits token.amount) :
    tokenSize cashtoken = none := by
  cases cashtoken with
  | none => exact absurd (fun _ none => nomatch none) large
  | some token =>
    have unfit : ¬ Cashtoken.Fits token.amount := fun fits => large fun other same => Option.some.inj same ▸ fits
    show Option.map _ (Cashtoken.amountSize token.amount) = none
    cases kept : token.amount with
    | none => exact absurd (fun _ none => nomatch kept.symm.trans none) unfit
    | some amount =>
      have refused : ¬ (0 ≤ amount ∧ amount < 2 ^ 64) := fun range => unfit fun other same => by
        obtain rfl := Option.some.inj (kept.symm.trans same)
        exact range
      unfold Cashtoken.amountSize Cashtoken.extractUInt64
      dsimp only
      rw [if_neg refused]
      rfl

theorem output_written {output : Output} (writable : Writable output) :
    output.calculateSize = some (writeOutput (fullOutput output)).length ∧ output.serialize = some (writeOutput (fullOutput output)) := by
  obtain ⟨token, written, sized⟩ := token_written writable.2
  have amount := serializeBitcoin_eq writable.1
  have full : fullOutput output = ((encodeOutput output).value, token ++ output.script.serialize) := by
    rw [fullOutput, written, Option.getD_some]
  have count : output.script.calculateSize + token.length = (token ++ output.script.serialize).length := by
    rw [List.length_append, Nat.add_comm]
    rfl
  have size : output.calculateSize = some (writeOutput (fullOutput output)).length := by
    unfold Output.calculateSize
    rw [sized, full]
    show some (8 + CompactSize.total (output.script.calculateSize + token.length)) = _
    rw [count]
    simp only [writeOutput, CompactSize.total, CompactSize.size, List.length_append, little64_length]
  refine ⟨size, ?_⟩
  unfold Output.serialize
  rw [size, amount, sized, written]
  show finished _ (little64 (encodeOutput output).value ++ (CompactSize.encode (output.script.calculateSize + token.length) ++
    (token ++ output.script.serialize))) = _
  rw [count, full]
  exact finished_length _

theorem output_refused {output : Output} (refused : ¬ Writable output) : output.serialize = none := by
  unfold Output.serialize
  by_cases range : 0 ≤ Spend.Amount.shiftRight output.value ∧ Spend.Amount.shiftRight output.value ≤ 2 ^ 63 - 1
  · have size : output.calculateSize = none := by
      unfold Output.calculateSize
      rw [token_refused fun fits => refused ⟨range, fits⟩]
      rfl
    rw [size]
    rfl
  · have amount : serializeBitcoin output.value = none := by
      unfold serializeBitcoin
      rw [if_pos (by omega)]
    rw [amount]
    cases output.calculateSize <;> rfl

theorem input_written (input : Input) : input.serialize false = some (encodeInput input).serialize := by
  have size : input.calculateSize false = (encodeInput input).serialize.length := by
    rw [EncodedInput.serialize_length (encodeInput_counted input)]
    rfl
  show finished (input.calculateSize false) (encodeInput input).serialize = _
  rw [size, finished_length]

theorem witness_size (witness : List Bytes) :
    CompactSize.size witness.length + (witness.map fun push => CompactSize.total push.length).sum = (writeWitness witness).length := by
  rw [writeWitness, List.length_append, List.length_flatMap]
  simp only [CompactSize.total, CompactSize.size, List.length_append]

def payloadBytes (payload : Option Bytes) : Bytes :=
  match payload with
  | some payload => CompactSize.encode payload.length ++ payload
  | none => []

namespace Transaction

variable {transaction : Transaction Hash}

/-- The flag that is written. -/
def flag (transaction : Transaction Hash) : Option UInt8 :=
  if transaction.segwitFlag = 0 then none else some transaction.segwitFlag

theorem isSegwit_eq : transaction.isSegwit false = transaction.flag.isSome := by
  unfold isSegwit flag
  by_cases zero : transaction.segwitFlag = 0
  · rw [if_pos zero, zero]
    rfl
  · rw [if_neg zero, Bool.not_false, Bool.true_and]
    exact bne_iff_ne.mpr zero

/-- The bytes of a transaction. -/
def bytes (transaction : Transaction Hash) : Bytes :=
  wireBytes transaction.version transaction.lockTime transaction.flag (transaction.inputs.map encodeInput)
    (transaction.outputs.map fullOutput) (transaction.inputs.map (·.witness)) ++ payloadBytes transaction.dip2

theorem calculateSize_eq (writable : ∀ output ∈ transaction.outputs, Writable output) :
    transaction.calculateSize false = some transaction.bytes.length := by
  have sizes : transaction.outputs.mapM Output.calculateSize =
      some (transaction.outputs.map fun output => (writeOutput (fullOutput output)).length) :=
    mapM_all fun output member => (output_written (writable output member)).1
  have first : (transaction.inputs.map (Input.calculateSize false)).sum =
      ((transaction.inputs.map encodeInput).flatMap EncodedInput.serialize).length := by
    rw [List.length_flatMap, List.map_map]
    exact congrArg List.sum (List.map_congr_left fun input _ => (EncodedInput.serialize_length (encodeInput_counted input)).symm)
  have second : (transaction.outputs.map fun output => (writeOutput (fullOutput output)).length).sum =
      ((transaction.outputs.map fullOutput).flatMap writeOutput).length := by
    rw [List.length_flatMap, List.map_map]
    rfl
  have third : (transaction.inputs.map fun input => CompactSize.size input.witness.length +
      (input.witness.map fun push => CompactSize.total push.length).sum).sum =
      ((transaction.inputs.map (·.witness)).flatMap writeWitness).length := by
    rw [List.length_flatMap, List.map_map]
    exact congrArg List.sum (List.map_congr_left fun input _ => witness_size input.witness)
  unfold calculateSize
  rw [sizes]
  show some (4 + ((CompactSize.encode transaction.inputs.length).length + (transaction.inputs.map (Input.calculateSize false)).sum) +
    ((CompactSize.encode transaction.outputs.length).length +
      (transaction.outputs.map fun output => (writeOutput (fullOutput output)).length).sum) +
    (if transaction.isSegwit false then 2 + (transaction.inputs.map fun input => CompactSize.size input.witness.length +
      (input.witness.map fun push => CompactSize.total push.length).sum).sum else 0) + 4 + _) = _
  rw [first, second, third, isSegwit_eq]
  unfold bytes payloadBytes
  cases transaction.flag with
  | none =>
    cases transaction.dip2 with
    | none =>
      simp [wireBytes, marker, writeInputs, writeOutputs, writeWitnesses]
      omega
    | some payload =>
      simp [wireBytes, marker, writeInputs, writeOutputs, writeWitnesses, CompactSize.total, CompactSize.size]
      omega
  | some flag =>
    cases transaction.dip2 with
    | none =>
      simp [wireBytes, marker, writeInputs, writeOutputs, writeWitnesses]
      omega
    | some payload =>
      simp [wireBytes, marker, writeInputs, writeOutputs, writeWitnesses, CompactSize.total, CompactSize.size]
      omega

theorem inputs_written : transaction.inputs.mapM (Input.serialize false) =
    some (transaction.inputs.map fun input => (encodeInput input).serialize) := mapM_all fun input _ => input_written input

theorem serialize_eq (writable : ∀ output ∈ transaction.outputs, Writable output) :
    transaction.serialize false = some transaction.bytes := by
  have second : transaction.outputs.mapM Output.serialize = some (transaction.outputs.map fun output => writeOutput (fullOutput output)) :=
    mapM_all fun output member => (output_written (writable output member)).2
  unfold serialize
  rw [calculateSize_eq writable, inputs_written]
  show (transaction.outputs.mapM Output.serialize).bind _ = _
  rw [second, Option.bind_some, isSegwit_eq]
  have bytes : little32 transaction.version ++ ((if transaction.flag.isSome then [0, transaction.segwitFlag] else []) ++
      (CompactSize.encode transaction.inputs.length ++ ((transaction.inputs.map fun input => (encodeInput input).serialize).flatten ++
      (CompactSize.encode transaction.outputs.length ++ ((transaction.outputs.map fun output => writeOutput (fullOutput output)).flatten ++
      ((if transaction.flag.isSome then transaction.inputs.flatMap fun input => writeWitness input.witness else []) ++
      (little32 transaction.lockTime ++ payloadBytes transaction.dip2))))))) = transaction.bytes := by
    have marked : (if transaction.flag.isSome then [0, transaction.segwitFlag] else []) = marker transaction.flag := by
      unfold flag
      split
      · rfl
      · rfl
    rw [marked]
    simp [Transaction.bytes, wireBytes, writeInputs, writeOutputs, writeWitnesses, List.flatMap_def, Function.comp_def]
  show finished _ (little32 transaction.version ++ _) = _
  rw [← bytes]
  exact finished_length _

theorem serialize_refused (refused : ¬ ∀ output ∈ transaction.outputs, Writable output) : transaction.serialize false = none := by
  obtain ⟨output, member, unwritable⟩ : ∃ output ∈ transaction.outputs, ¬ Writable output := by
    by_contra none
    exact refused fun output member => by_contra fun unwritable => none ⟨output, member, unwritable⟩
  have stops : transaction.outputs.mapM Output.serialize = none := mapM_stops member (output_refused unwritable)
  unfold serialize
  cases transaction.calculateSize false with
  | none => rfl
  | some size =>
    show (transaction.inputs.mapM (Input.serialize false)).bind _ = _
    rw [inputs_written, Option.bind_some]
    show (transaction.outputs.mapM Output.serialize).bind _ = _
    rw [stops]
    rfl

end Transaction

/-- The flag that is written of a transaction that was built. -/
def flagOf (segwit : Bool) : Option UInt8 := if segwit then some 1 else none

/-- The bytes of a transaction that was built. -/
def builtBytes (version lockTime : UInt32) (segwit : Bool) (inputs : List Input) (outputs : List Output) : Bytes :=
  wireBytes version lockTime (flagOf segwit) (inputs.map encodeInput) (outputs.map fullOutput) (inputs.map (·.witness))

theorem buildTransaction_bytes :
    (buildTransaction hashing version lockTime segwit inputs outputs).bytes = builtBytes version lockTime segwit inputs outputs := by
  rw [buildTransaction_eq]
  cases segwit with
  | false => exact List.append_nil _
  | true => exact List.append_nil _

theorem buildTransaction_written (writable : ∀ output ∈ outputs, Writable output) :
    (buildTransaction hashing version lockTime segwit inputs outputs).serialize false =
      some (builtBytes version lockTime segwit inputs outputs) := by
  rw [← @buildTransaction_bytes Hash hashing]
  apply Transaction.serialize_eq
  rw [buildTransaction_eq]
  exact writable

theorem buildTransaction_refused (refused : ¬ ∀ output ∈ outputs, Writable output) :
    (buildTransaction hashing version lockTime segwit inputs outputs).serialize false = none := by
  apply Transaction.serialize_refused
  rw [buildTransaction_eq]
  exact refused

/-! ## What is parsed -/

theorem parsedInputs_total (position : Nat) (witnesses : List EncodedInputWitness) (encoded : List EncodedInput) (index : Nat)
    (enough : witnesses = [] ∨ index + encoded.length ≤ witnesses.length) :
    ∃ made, parsedInputs position witnesses index encoded = some made := by
  induction encoded generalizing index with
  | nil => exact ⟨[], rfl⟩
  | cons input encoded ih =>
    have witness : ∃ witness, witnessAt witnesses index = some witness := by
      unfold witnessAt
      split
      · next some =>
        rw [List.length_cons] at enough
        have inside : index < witnesses.length := by
          rcases enough with none | enough
          · rw [none] at some
            exact absurd some (Nat.lt_irrefl 0)
          · omega
        exact ⟨_, by rw [List.getElem?_eq_getElem inside]; rfl⟩
      · exact ⟨[], rfl⟩
    obtain ⟨items, found⟩ := witness
    obtain ⟨rest, more⟩ := ih (index + 1) (enough.imp_right fun fits => by rw [List.length_cons] at fits; omega)
    refine ⟨bitcoinTransactionInput input.outpoint input.script input.sequence (position = 0 ∧ index = 0) items :: rest, ?_⟩
    rw [parsedInputs, found, Option.bind_eq_bind, Option.bind_some, more]
    rfl

/-- Every output has a script behind its token, if it has one. -/
def Readable (chain : ChainParameters) (outputs : List (UInt64 × Bytes)) : Prop :=
  ∀ output ∈ outputs, ∃ script, splitToken chain output.2 = .ok script

theorem mapM_readable {outputs : List (UInt64 × Bytes)} : (∃ read, outputs.mapM (readOutput chain) = .ok read) ↔ Readable chain outputs := by
  induction outputs with
  | nil => exact iff_of_true ⟨[], rfl⟩ (List.forall_mem_nil _)
  | cons output outputs ih =>
    unfold Readable at ih ⊢
    rw [List.forall_mem_cons, ← ih, List.mapM_cons]
    unfold readOutput
    cases splitToken chain output.2 with
    | error fault =>
      constructor
      · rintro ⟨_, same⟩
        cases same
      · rintro ⟨⟨_, same⟩, _⟩
        cases same
    | ok script =>
      constructor
      · rintro ⟨read, same⟩
        obtain ⟨_, _, same⟩ := Spend.Amount.bind_ok same
        obtain ⟨rest, more, _⟩ := Spend.Amount.bind_ok same
        exact ⟨⟨script, rfl⟩, rest, more⟩
      · rintro ⟨_, rest, more⟩
        refine ⟨{ value := output.1, cs := output.2.length, cashtoken := script.1, script := script.2 } :: rest, ?_⟩
        rw [more]
        rfl

/-- Bytes that begin with a whole transaction are parsed exactly when its outputs can be read, and then its hashes are those of
the fields. -/
theorem parseTransaction_iff {position : Nat} {flag : Option UInt8} {encoded : List EncodedInput} {wired : List (UInt64 × Bytes)}
    {witnesses : List (List Bytes)} {rest : Bytes} (later : position ≠ 0) (based : chain.outputBased = true)
    (counts : Counts encoded wired witnesses) (paired : witnesses.length = encoded.length) (normal : isDip2 chain version = false)
    (marked : flag = none → encoded ≠ []) (holds : Hash → Hash → Prop) :
    (∃ parsed, parseTransaction hashing chain position (wireBytes version lockTime flag encoded wired witnesses ++ rest) = some parsed ∧
      holds parsed.id parsed.hash) ↔
    Readable chain wired ∧ holds (fieldsOf hashing version lockTime flag encoded wired witnesses []).txid
      (fieldsOf hashing version lockTime flag encoded wired witnesses []).wtxid := by
  have left : ({ data := wireBytes version lockTime flag encoded wired witnesses ++ rest } : ParserState).data = _ := rfl
  have run : ∃ final, Tape.Ends (parseNextTransaction hashing chain false) _ final _ := parseNextTransaction_reads counts paired normal marked left
  obtain ⟨final, ends⟩ := run
  have never : decide (position = 0) = false := decide_eq_false later
  unfold parseTransaction
  rw [if_pos based, never, ← mapM_readable]
  cases split : wired.mapM (readOutput chain) with
  | error fault =>
    rw [split] at ends
    obtain ⟨stopped, ends⟩ := ends
    rw [ends]
    constructor
    · rintro ⟨_, same, _⟩
      cases same
    · rintro ⟨⟨_, same⟩, _⟩
      cases same
  | ok read =>
    rw [split] at ends
    replace ends : parseNextTransaction hashing chain false { data := wireBytes version lockTime flag encoded wired witnesses ++ rest } =
      (.ok (fieldsOf hashing version lockTime flag encoded wired witnesses read), final) := ends
    rw [ends]
    have enough : (fieldsOf hashing version lockTime flag encoded wired witnesses read).witnesses = [] ∨
        0 + encoded.length ≤ (fieldsOf hashing version lockTime flag encoded wired witnesses read).witnesses.length := by
      show (if flag.isSome then witnesses.map encodeWitness else []) = [] ∨ _ ≤ (if flag.isSome then witnesses.map encodeWitness else []).length
      cases flag with
      | none => exact .inl rfl
      | some flag =>
        refine .inr ?_
        rw [Option.isSome_some, if_pos rfl, List.length_map, paired]
        omega
    obtain ⟨made, parsed⟩ := parsedInputs_total position _ encoded 0 enough
    have known : ∃ transaction, parsedTransaction position (fieldsOf hashing version lockTime flag encoded wired witnesses read) = some transaction ∧
        transaction.id = (fieldsOf hashing version lockTime flag encoded wired witnesses []).txid ∧
        transaction.hash = (fieldsOf hashing version lockTime flag encoded wired witnesses []).wtxid := by
      unfold parsedTransaction
      rw [show (fieldsOf hashing version lockTime flag encoded wired witnesses read).inputs = encoded from rfl, parsed]
      exact ⟨_, rfl, rfl, rfl⟩
    obtain ⟨transaction, made, id, hash⟩ := known
    dsimp only
    rw [made, ← id, ← hash]
    constructor
    · rintro ⟨_, same, good⟩
      cases same
      exact ⟨⟨read, rfl⟩, good⟩
    · rintro ⟨_, good⟩
      exact ⟨transaction, rfl, good⟩

/-! ## Both ways -/

/-- `size_t` holds the number of the inputs, of the outputs, and of what each of them carries. -/
structure Addressable (inputs : List Input) (outputs : List Output) : Prop where
  inputCount : inputs.length < 2 ^ 64
  payloads : ∀ input ∈ inputs, input.payload.length < 2 ^ 64
  witnesses : ∀ input ∈ inputs, CountsWitness input.witness
  outputCount : outputs.length < 2 ^ 64
  scripts : ∀ output ∈ outputs, (fullOutput output).2.length < 2 ^ 64

theorem Addressable.full (fits : Addressable inputs outputs) :
    Counts (inputs.map encodeInput) (outputs.map fullOutput) (inputs.map (·.witness)) := by
  refine ⟨by rw [List.length_map]; exact fits.inputCount, ?_, by rw [List.length_map]; exact fits.outputCount, ?_, ?_⟩
  · exact List.forall_mem_map.mpr fun input member => ⟨encodeInput_counted input, fits.payloads input member⟩
  · exact List.forall_mem_map.mpr fits.scripts
  · exact List.forall_mem_map.mpr fits.witnesses

theorem Addressable.plain (fits : Addressable inputs outputs) : Counts (inputs.map encodeInput) (outputs.map plainOutput) [] := by
  refine ⟨fits.full.inputCount, fits.full.scripts, by rw [List.length_map]; exact fits.outputCount, ?_, List.forall_mem_nil _⟩
  have plain : ∀ output ∈ outputs, (plainOutput output).2.length < 2 ^ 64 := by
    intro output member
    have full := fits.scripts output member
    rw [fullOutput, List.length_append] at full
    show output.script.serialize.length < 2 ^ 64
    omega
  exact List.forall_mem_map.mpr plain

/-- The transaction that was built, and what is parsed of its bytes, have the same txid and the same wtxid. -/
def SameIds (hashing : Hashing Hash) (chain : ChainParameters) (position : Nat) (version lockTime : UInt32) (segwit : Bool)
    (inputs : List Input) (outputs : List Output) : Prop :=
  ∃ bytes, (buildTransaction hashing version lockTime segwit inputs outputs).serialize false = some bytes ∧
    ∃ parsed, parseTransaction hashing chain position bytes = some parsed ∧
      parsed.id = (buildTransaction hashing version lockTime segwit inputs outputs).id ∧
      parsed.hash = (buildTransaction hashing version lockTime segwit inputs outputs).hash

def Witnessed (segwit : Bool) (inputs : List Input) : Prop := segwit = true ∧ ∃ input ∈ inputs, input.witness ≠ []

instance (segwit : Bool) (inputs : List Input) : Decidable (Witnessed segwit inputs) := instDecidableAnd

/-- The bytes of a transaction without inputs are also those of one behind a marker and a flag whose outputs have no tokens. -/
def Echoes (version lockTime : UInt32) (outputs : List Output) : Prop :=
  ∃ flag, wireBytes version lockTime (some flag) [] (outputs.map plainOutput) [] <+:
    wireBytes version lockTime none [] (outputs.map fullOutput) []

/-- No token is left out of what is hashed, and no witness; what is blank for a generation transaction is hashed by the parser. -/
def Whole (hashing : Hashing Hash) (version lockTime : UInt32) (segwit : Bool) (inputs : List Input) (outputs : List Output) : Prop :=
  (∀ output ∈ outputs, output.cashtoken = none) ∧
    if generates inputs then
      hashing.transactionHash (if Witnessed segwit inputs then builtBytes version lockTime segwit inputs outputs
        else wireBytes version lockTime none (inputs.map encodeInput) (outputs.map plainOutput) []) = hashing.blank
    else ¬ Witnessed segwit inputs

/-- The chain has such transactions, this one has no extra payload, everything in it can be written and read, and it is whole. -/
def Agrees (hashing : Hashing Hash) (chain : ChainParameters) (version lockTime : UInt32) (segwit : Bool) (inputs : List Input)
    (outputs : List Output) : Prop :=
  chain.outputBased = true ∧ isDip2 chain version = false ∧ (∀ output ∈ outputs, Writable output) ∧
    Readable chain (outputs.map plainOutput) ∧
    if segwit = false ∧ inputs = [] then Echoes version lockTime outputs else Whole hashing version lockTime segwit inputs outputs

theorem token_nonempty {output : Output} (writable : Writable output) :
    (writeOutput (plainOutput output)).length ≤ (writeOutput (fullOutput output)).length ∧
      ((writeOutput (plainOutput output)).length = (writeOutput (fullOutput output)).length → output.cashtoken = none) := by
  have size (output : UInt64 × Bytes) : (writeOutput output).length = 8 + CompactSize.total output.2.length := by
    simp only [writeOutput, CompactSize.total, CompactSize.size, List.length_append, little64_length]
  have wider : (plainOutput output).2.length ≤ (fullOutput output).2.length := by
    show output.script.serialize.length ≤ ((tokenBytes output.cashtoken).getD [] ++ output.script.serialize).length
    rw [List.length_append]
    exact Nat.le_add_left _ _
  have mono := CompactSize.size_mono wider
  rw [size, size]
  unfold CompactSize.total
  refine ⟨by omega, fun same => ?_⟩
  cases kept : output.cashtoken with
  | none => rfl
  | some token =>
    have written := (Cashtoken.serialize_fits token (writable.2 token kept)).1
    have longer : (plainOutput output).2.length < (fullOutput output).2.length := by
      show output.script.serialize.length < ((tokenBytes output.cashtoken).getD [] ++ output.script.serialize).length
      rw [kept, show tokenBytes (some token) = token.serialize from rfl, written, Option.getD_some, List.length_append, List.length_cons]
      omega
    omega

/-- Only without tokens what is hashed is what is written. -/
theorem full_length (writable : ∀ output ∈ outputs, Writable output) :
    ((outputs.map plainOutput).flatMap writeOutput).length ≤ ((outputs.map fullOutput).flatMap writeOutput).length ∧
      (((outputs.map plainOutput).flatMap writeOutput).length = ((outputs.map fullOutput).flatMap writeOutput).length →
        ∀ output ∈ outputs, output.cashtoken = none) := by
  induction outputs with
  | nil => exact ⟨Nat.le_refl _, fun _ => List.forall_mem_nil _⟩
  | cons output outputs ih =>
    obtain ⟨first, strict⟩ := token_nonempty (writable output List.mem_cons_self)
    obtain ⟨rest, all⟩ := ih fun later member => writable later (List.mem_cons_of_mem output member)
    simp only [List.map_cons, List.flatMap_cons, List.length_append]
    refine ⟨Nat.add_le_add first rest, fun same => List.forall_mem_cons.mpr ⟨strict (by omega), all (by omega)⟩⟩

theorem full_eq_plain (none : ∀ output ∈ outputs, output.cashtoken = none) : outputs.map fullOutput = outputs.map plainOutput := by
  apply List.map_congr_left
  intro output member
  rw [fullOutput, none output member]
  rfl

theorem hashed_iff (writable : ∀ output ∈ outputs, Writable output) :
    wireBytes version lockTime none (inputs.map encodeInput) (outputs.map fullOutput) [] =
        wireBytes version lockTime none (inputs.map encodeInput) (outputs.map plainOutput) [] ↔
      ∀ output ∈ outputs, output.cashtoken = none := by
  constructor
  · intro same
    apply (full_length writable).2
    have length := congrArg List.length same
    simp only [wireBytes, marker, writeInputs, writeOutputs, writeWitnesses, List.length_append, little32_length, List.length_map] at length
    omega
  · intro none
    rw [full_eq_plain none]

/-- Marker and flag are not hashed for the txid. -/
theorem built_differs {wired : List (UInt64 × Bytes)} {encoded : List EncodedInput} {flag : UInt8} {witnesses : List (List Bytes)} :
    wireBytes version lockTime (some flag) encoded wired witnesses ≠ wireBytes version lockTime none encoded wired [] := by
  intro same
  have length := congrArg List.length same
  simp only [wireBytes, marker, writeWitnesses, List.length_append, little32_length, List.length_cons, List.length_nil,
    Option.isSome_some, Option.isSome_none, if_true, Bool.false_eq_true, if_false] at length
  omega

theorem witnessed_eq : ((flagOf segwit).isSome && (inputs.map (·.witness)).any (0 < ·.length)) = decide (Witnessed segwit inputs) := by
  have flag : (flagOf segwit).isSome = segwit := by cases segwit <;> rfl
  rw [flag, Bool.eq_iff_iff, decide_eq_true_eq, Bool.and_eq_true, List.any_map, List.any_eq_true]
  apply and_congr Iff.rfl
  apply exists_congr
  intro input
  rw [Function.comp_apply, decide_eq_true_eq, List.length_pos_iff]

/-- A special transaction is hashed with its payload. -/
theorem special_ids {position : Nat} (injective : Function.Injective hashing.transactionHash) (later : position ≠ 0)
    (fits : Addressable inputs outputs) (special : isDip2 chain version = true) (parsed : Transaction Hash)
    (ran : parseTransaction hashing chain position (builtBytes version lockTime segwit inputs outputs) = some parsed) :
    parsed.id ≠ (buildTransaction hashing version lockTime segwit inputs outputs).id := by
  rw [buildTransaction_eq]
  unfold parseTransaction at ran
  rw [decide_eq_false later] at ran
  split at ran
  · split at ran
    · next encoded final parsing =>
      unfold parsedTransaction at ran
      obtain ⟨made, _, same⟩ := Option.bind_eq_some_iff.mp ran
      cases same
      exact special_differs fits.plain special injective rfl parsing
    · cases ran
  · cases ran

/-- Without inputs and without the flag, something else is parsed. -/
theorem bare_ids {position : Nat} (injective : Function.Injective hashing.transactionHash) (later : position ≠ 0)
    (fits : Addressable [] outputs) (based : chain.outputBased = true) (normal : isDip2 chain version = false) :
    (∃ parsed, parseTransaction hashing chain position (builtBytes version lockTime false [] outputs) = some parsed ∧
      parsed.id = (buildTransaction hashing version lockTime false [] outputs).id ∧
      parsed.hash = (buildTransaction hashing version lockTime false [] outputs).hash) ↔
    Readable chain (outputs.map plainOutput) ∧ Echoes version lockTime outputs := by
  have bytes : builtBytes version lockTime false [] outputs = wireBytes version lockTime none [] (outputs.map fullOutput) [] := rfl
  have hash : (buildTransaction hashing version lockTime false [] outputs).hash =
      hashing.transactionHash (wireBytes version lockTime none [] (outputs.map plainOutput) []) := built_hash
  have id : (buildTransaction hashing version lockTime false [] outputs).id =
      hashing.transactionHash (wireBytes version lockTime none [] (outputs.map plainOutput) []) := built_id
  rw [bytes, id, hash]
  have echoed (flag : UInt8) (echo : wireBytes version lockTime (some flag) [] (outputs.map plainOutput) [] <+:
      wireBytes version lockTime none [] (outputs.map fullOutput) []) :
      (∃ parsed, parseTransaction hashing chain position (wireBytes version lockTime none [] (outputs.map fullOutput) []) = some parsed ∧
        parsed.id = hashing.transactionHash (wireBytes version lockTime none [] (outputs.map plainOutput) []) ∧
        parsed.hash = hashing.transactionHash (wireBytes version lockTime none [] (outputs.map plainOutput) [])) ↔
      Readable chain (outputs.map plainOutput) := by
    obtain ⟨rest, whole⟩ := echo
    rw [← whole]
    refine (parseTransaction_iff later based fits.plain rfl normal (fun no => absurd no (Option.some_ne_none flag))
      fun id hash => id = hashing.transactionHash (wireBytes version lockTime none [] (outputs.map plainOutput) []) ∧
        hash = hashing.transactionHash (wireBytes version lockTime none [] (outputs.map plainOutput) [])).trans ?_
    exact ⟨And.left, fun readable => ⟨readable, rfl, rfl⟩⟩
  constructor
  · rintro ⟨parsed, ran, id, hash⟩
    have echo : Echoes version lockTime outputs := by
      unfold parseTransaction at ran
      rw [if_pos based, decide_eq_false later] at ran
      split at ran
      · next encoded final parsing =>
        unfold parsedTransaction at ran
        obtain ⟨made, _, same⟩ := Option.bind_eq_some_iff.mp ran
        cases same
        exact bare_prefix normal injective rfl parsing id
      · cases ran
    obtain ⟨flag, echo⟩ := echo
    exact ⟨(echoed flag echo).mp ⟨parsed, ran, id, hash⟩, flag, echo⟩
  · rintro ⟨readable, flag, echo⟩
    exact (echoed flag echo).mpr readable

/-- With inputs, or behind a flag, the fields are found again. -/
theorem usual_ids {position : Nat} (injective : Function.Injective hashing.transactionHash) (later : position ≠ 0)
    (fits : Addressable inputs outputs) (writable : ∀ output ∈ outputs, Writable output) (based : chain.outputBased = true)
    (normal : isDip2 chain version = false) (usual : ¬ (segwit = false ∧ inputs = [])) :
    (∃ parsed, parseTransaction hashing chain position (builtBytes version lockTime segwit inputs outputs) = some parsed ∧
      parsed.id = (buildTransaction hashing version lockTime segwit inputs outputs).id ∧
      parsed.hash = (buildTransaction hashing version lockTime segwit inputs outputs).hash) ↔
    Readable chain (outputs.map plainOutput) ∧ Whole hashing version lockTime segwit inputs outputs := by
  have marked : flagOf segwit = none → inputs.map encodeInput ≠ [] := by
    intro none empty
    apply usual
    cases segwit with
    | true => cases none
    | false => exact ⟨rfl, List.map_eq_nil_iff.mp empty⟩
  have paired : (inputs.map (·.witness)).length = (inputs.map encodeInput).length := by rw [List.length_map, List.length_map]
  rw [← List.append_nil (builtBytes version lockTime segwit inputs outputs)]
  refine (parseTransaction_iff later based fits.full paired normal marked fun id hash =>
    id = (buildTransaction hashing version lockTime segwit inputs outputs).id ∧
      hash = (buildTransaction hashing version lockTime segwit inputs outputs).hash).trans ?_
  rw [built_id, built_hash]
  show _ ∧ hashing.transactionHash (wireBytes version lockTime none (inputs.map encodeInput) (outputs.map fullOutput) []) = _ ∧
    (if (flagOf segwit).isSome && (inputs.map (·.witness)).any (0 < ·.length) then
      hashing.transactionHash (builtBytes version lockTime segwit inputs outputs)
    else hashing.transactionHash (wireBytes version lockTime none (inputs.map encodeInput) (outputs.map fullOutput) [])) = _ ↔ _
  rw [witnessed_eq, injective.eq_iff, hashed_iff writable]
  unfold Whole
  by_cases none : ∀ output ∈ outputs, output.cashtoken = none
  · rw [full_eq_plain none]
    apply and_congr Iff.rfl
    apply and_congr Iff.rfl
    by_cases witnessed : Witnessed segwit inputs
    · have differs : builtBytes version lockTime segwit inputs outputs ≠
          wireBytes version lockTime Option.none (inputs.map encodeInput) (outputs.map plainOutput) [] := by
        rw [builtBytes, full_eq_plain none, witnessed.1]
        exact built_differs
      rw [if_pos (decide_eq_true witnessed), if_pos witnessed]
      cases generates inputs with
      | false => exact iff_of_false (fun same => differs (injective same)) fun absent => absent witnessed
      | true => exact Iff.rfl
    · rw [if_neg (fun yes => witnessed (of_decide_eq_true yes)), if_neg witnessed]
      cases generates inputs with
      | false => exact iff_of_true rfl witnessed
      | true => exact Iff.rfl
  · exact iff_of_false (fun both => none both.2.1) fun both => none both.2.1

/-- A transaction keeps its hashes if and only if it agrees with what is hashed when it is built. -/
theorem ids_survive_iff {position : Nat} (injective : Function.Injective hashing.transactionHash) (later : position ≠ 0)
    (fits : Addressable inputs outputs) :
    SameIds hashing chain position version lockTime segwit inputs outputs ↔
      Agrees hashing chain version lockTime segwit inputs outputs := by
  unfold SameIds Agrees
  by_cases writable : ∀ output ∈ outputs, Writable output
  · rw [buildTransaction_written writable]
    simp only [Option.some.injEq, exists_eq_left']
    by_cases based : chain.outputBased = true
    · cases special : isDip2 chain version with
      | true =>
        refine iff_of_false ?_ fun agrees => nomatch agrees.2.1
        rintro ⟨parsed, ran, id, _⟩
        exact special_ids injective later fits special parsed ran id
      | false =>
        split
        · next bare =>
          obtain ⟨rfl, rfl⟩ := bare
          rw [bare_ids injective later fits based special]
          exact ⟨fun both => ⟨based, rfl, writable, both⟩, fun all => all.2.2.2⟩
        · next usual =>
          rw [usual_ids injective later fits writable based special usual]
          exact ⟨fun both => ⟨based, rfl, writable, both⟩, fun all => all.2.2.2⟩
    · refine iff_of_false ?_ fun agrees => based agrees.1
      rintro ⟨parsed, ran, _⟩
      unfold parseTransaction at ran
      rw [if_neg based] at ran
      cases ran
  · rw [buildTransaction_refused writable]
    refine iff_of_false ?_ fun agrees => writable agrees.2.2.1
    rintro ⟨_, none, _⟩
    cases none

/-- A hash that keeps the bytes. -/
def plainly : Hashing (Option Bytes) := { blank := none, transactionHash := some }

def mainnet : ChainParameters := { outputBased := true, cashtoken := false, isDash := false }

def spending (witness : List Bytes) : Input :=
  { previous := ⟨⟨List.replicate 32 7, Cashtoken.length_sevens⟩, ⟨List.replicate 4 0, length_zeros⟩⟩,
    script := { role := .input, elements := [BitcoinScript.opcode BitcoinScript.OP.ONE] }, witness, sequence := 4294967295 }

def paying : Output :=
  { index := 0, value := Spend.Amount.ofUnsigned 5000, script := { role := .output, elements := [BitcoinScript.opcode BitcoinScript.OP.ONE] } }

theorem payment_survives : SameIds plainly mainnet 1 2 0 true [spending []] [paying] := by
  refine (ids_survive_iff (Option.some_injective Bytes) (by decide) ⟨by decide, ?_, ?_, by decide, ?_⟩).mpr ⟨rfl, rfl, ?_, ?_, ?_⟩
  · exact List.forall_mem_singleton.mpr (by decide)
  · exact List.forall_mem_singleton.mpr ⟨by decide, List.forall_mem_nil _⟩
  · exact List.forall_mem_singleton.mpr (by decide)
  · exact List.forall_mem_singleton.mpr ⟨by decide, fun _ none => nomatch none⟩
  · exact List.forall_mem_singleton.mpr ⟨_, rfl⟩
  · rw [if_neg (by decide)]
    exact ⟨List.forall_mem_singleton.mpr rfl, show ¬ _ by decide⟩

/-- The witnesses of a segwit transaction are not looked at when it is built, and its wtxid is the txid. -/
theorem witness_is_not_hashed : Function.Injective plainly.transactionHash ∧ ¬ SameIds plainly mainnet 1 2 0 true [spending [[9]]] [paying] := by
  refine ⟨Option.some_injective Bytes, ?_⟩
  rintro ⟨bytes, serialized, parsed, ran, _, hash⟩
  have differs : ((buildTransaction plainly 2 0 true [spending [[9]]] [paying]).serialize false).bind (fun bytes =>
      (parseTransaction plainly mainnet 1 bytes).map fun parsed =>
        decide (parsed.hash = (buildTransaction plainly 2 0 true [spending [[9]]] [paying]).hash)) = some false := by decide +kernel
  rw [serialized, Option.bind_some, ran, Option.map_some, decide_eq_true hash] at differs
  cases differs

end Opentxs.Bitcoin.Transactions
