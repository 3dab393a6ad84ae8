import Opentxs.Bitcoin.BitcoinScript
import Opentxs.Bitcoin.Encoded
import Opentxs.Spend.Amount

/-! Transactions as they are held: how one is built from its inputs and outputs, how it is written, and how it
is made of the fields that were parsed. -/

namespace Opentxs.Bitcoin.Transactions
open Library.Endian Blockchain BitcoinScript
open Spend (Amount)

/-- An input has a script or what a generation transaction has in its place, and not both. -/
structure Input where
  previous : Outpoint
  script : Script
  coinbase : Bytes := []
  witness : List Bytes
  sequence : UInt32
  exclusive : coinbase = [] ∨ script.elements = [] := by exact .inl rfl
deriving DecidableEq

structure Output where
  index : UInt32
  value : Amount
  script : Script
  cashtoken : Option Cashtoken.Value := none
deriving DecidableEq

structure Transaction (Hash : Type) where
  isGeneration : Bool
  version : UInt32
  segwitFlag : UInt8
  lockTime : UInt32
  id : Hash
  hash : Hash
  inputs : List Input
  outputs : List Output
  dip2 : Option Bytes
  position : Option Nat
deriving DecidableEq

/-! ## Writing -/

/-- What was written has to fill the space that was reserved. -/
def finished (size : Nat) (written : Bytes) : Option Bytes := if written.length = size then some written else none

/-- Only the whole units are written, and a number that a signed integer cannot hold is refused. -/
def serializeBitcoin (amount : Amount) : Option Bytes :=
  let backend := Spend.Amount.shiftRight amount
  if backend < 0 ∨ 2 ^ 63 - 1 < backend then none else some (toLittle 8 backend.toNat)

def Input.payload (input : Input) : Bytes := if 0 < input.coinbase.length then input.coinbase else input.script.serialize

def Input.calculateSize (normalized : Bool) (input : Input) : Nat :=
  36 + (if normalized then 1 else CompactSize.total input.payload.length) + 4

def Input.serialize (normalized : Bool) (input : Input) : Option Bytes :=
  let payload := if normalized then [] else input.payload
  finished (input.calculateSize normalized)
    (input.previous.serialize ++ (CompactSize.encode payload.length ++ (payload ++ little32 input.sequence)))

/-- The size of a token that cannot be written ends the program. -/
def Output.calculateSize (output : Output) : Option Nat := do
  let cashtoken ← tokenSize output.cashtoken
  some (8 + CompactSize.total (output.script.calculateSize + cashtoken))

def Output.serialize (output : Output) : Option Bytes := do
  let size ← output.calculateSize
  let amount ← serializeBitcoin output.value
  let cashtoken ← tokenSize output.cashtoken
  let token ← tokenBytes output.cashtoken
  finished size (amount ++ (CompactSize.encode (output.script.calculateSize + cashtoken) ++ (token ++ output.script.serialize)))

def writeWitness (witness : List Bytes) : Bytes :=
  CompactSize.encode witness.length ++ witness.flatMap fun push => CompactSize.encode push.length ++ push

namespace Transaction

variable {Hash : Type}

def isSegwit (normalize : Bool) (transaction : Transaction Hash) : Bool := !normalize && transaction.segwitFlag != 0

def calculateWitnessSize (transaction : Transaction Hash) : Nat :=
  2 + (transaction.inputs.map fun input =>
    CompactSize.size input.witness.length + (input.witness.map fun push => CompactSize.total push.length).sum).sum

def calculateSize (normalize : Bool) (transaction : Transaction Hash) : Option Nat := do
  let outputs ← transaction.outputs.mapM Output.calculateSize
  some (4 + (CompactSize.size transaction.inputs.length + (transaction.inputs.map (Input.calculateSize normalize)).sum) +
    (CompactSize.size transaction.outputs.length + outputs.sum) +
    (if transaction.isSegwit normalize then transaction.calculateWitnessSize else 0) + 4 +
    match transaction.dip2 with | some payload => CompactSize.total payload.length | none => 0)

def serialize (normalize : Bool) (transaction : Transaction Hash) : Option Bytes := do
  let size ← transaction.calculateSize normalize
  let inputs ← transaction.inputs.mapM (Input.serialize normalize)
  let outputs ← transaction.outputs.mapM Output.serialize
  finished size (little32 transaction.version ++
    ((if transaction.isSegwit normalize then [0, transaction.segwitFlag] else []) ++
    (CompactSize.encode transaction.inputs.length ++ (inputs.flatten ++
    (CompactSize.encode transaction.outputs.length ++ (outputs.flatten ++
    ((if transaction.isSegwit normalize then transaction.inputs.flatMap fun input => writeWitness input.witness else []) ++
    (little32 transaction.lockTime ++
    match transaction.dip2 with | some payload => CompactSize.encode payload.length ++ payload | none => []))))))))

end Transaction

/-! ## Building -/

def encodeInput (input : Input) : EncodedInput :=
  { outpoint := input.previous, cs := input.payload.length, script := input.payload, sequence := input.sequence }

/-- A value that is refused is left at zero, and the token is not looked at. -/
def encodeOutput (output : Output) : EncodedOutput :=
  { value := UInt64.ofNat (ofLittle ((serializeBitcoin output.value).getD [])), cs := output.script.serialize.length,
    script := output.script.serialize }

def encodeTransaction {Hash : Type} (hashing : Hashing Hash) (version lockTime : UInt32) (segwit : Bool) (inputs : List Input)
    (outputs : List Output) : EncodedTransaction Hash :=
  { version, segwitFlag := some (if segwit then 1 else 0), inputCount := inputs.length, inputs := inputs.map encodeInput,
    outputCount := outputs.length, outputs := outputs.map encodeOutput, lockTime, wtxid := hashing.blank, txid := hashing.blank }

/-- `factory::BitcoinTransaction` from inputs and outputs: whether the hashes could be calculated is not looked at. -/
def buildTransaction {Hash : Type} (hashing : Hashing Hash) (version lockTime : UInt32) (segwit : Bool) (inputs : List Input)
    (outputs : List Output) : Transaction Hash :=
  let isGeneration := inputs.any (0 < ·.coinbase.length)
  let raw := ((encodeTransaction hashing version lockTime segwit inputs outputs).calculateIDs hashing isGeneration).1
  { isGeneration := false, version := raw.version, segwitFlag := raw.segwitFlag.getD 0, lockTime := raw.lockTime,
    id := raw.txid, hash := raw.wtxid, inputs, outputs, dip2 := raw.dip2, position := none }

/-! ## From parsed fields -/

theorem length_zeros : (List.replicate 4 (0 : UInt8)).length = 4 := rfl

def blankOutpoint : Outpoint := ⟨⟨List.replicate 32 0, rfl⟩, ⟨List.replicate 4 0, length_zeros⟩⟩

def blankInput : Input :=
  { previous := blankOutpoint, script := { role := .input, elements := [] }, witness := [], sequence := 0 }

def bitcoinTransactionInput (outpoint : Outpoint) (script : Bytes) (sequence : UInt32) (coinbase : Bool) (witness : List Bytes) : Input :=
  if coinbase then
    { previous := outpoint, script := { role := .coinbase, elements := [] }, coinbase := script, witness, sequence,
      exclusive := .inr rfl }
  else
    match bitcoinScript script .input true with
    | some script => { previous := outpoint, script, witness, sequence }
    | none => blankInput

def blankOutput : Output := { index := 0, value := 0, script := { role := .output, elements := [] } }

def bitcoinTransactionOutput (index : UInt32) (value : UInt64) (script : Bytes) (cashtoken : Option Cashtoken.Value) : Output :=
  match bitcoinScript script .output true with
  | some script => { index, value := Spend.Amount.ofUnsigned value.toNat, script, cashtoken }
  | none => blankOutput

/-- Without any witnesses the inputs have none; otherwise each input needs its own. -/
def witnessAt (witnesses : List EncodedInputWitness) (index : Nat) : Option (List Bytes) :=
  if 0 < witnesses.length then witnesses[index]?.map fun witness => witness.items.map (·.item) else some []

def parsedInputs (position : Nat) (witnesses : List EncodedInputWitness) : (index : Nat) → List EncodedInput → Option (List Input)
  | _, [] => some []
  | index, input :: inputs => do
    let witness ← witnessAt witnesses index
    let rest ← parsedInputs position witnesses (index + 1) inputs
    some (bitcoinTransactionInput input.outpoint input.script input.sequence (position = 0 ∧ index = 0) witness :: rest)

def parsedOutputs (outputs : List EncodedOutput) : List Output :=
  outputs.mapIdx fun index output => bitcoinTransactionOutput (UInt32.ofNat index) output.value output.script output.cashtoken

/-- `factory::BitcoinTransaction` from what was parsed; the largest position is none. -/
def parsedTransaction {Hash : Type} (position : Nat) (parsed : EncodedTransaction Hash) : Option (Transaction Hash) := do
  let inputs ← parsedInputs position parsed.witnesses 0 parsed.inputs
  some { isGeneration := position = 0, version := parsed.version, segwitFlag := parsed.segwitFlag.getD 0,
         lockTime := parsed.lockTime, id := parsed.txid, hash := parsed.wtxid, inputs, outputs := parsedOutputs parsed.outputs,
         dip2 := parsed.dip2, position := if position = 2 ^ 64 - 1 then none else some position }

end Opentxs.Bitcoin.Transactions
