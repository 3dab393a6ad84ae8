import Opentxs.Bitcoin.Patterns
import Opentxs.Bitcoin.Transactions
import Opentxs.Spend.Building

/-! How the inputs of a transaction are signed: what is hashed for the first input of a kind is kept for the
others, while the signatures are put into the inputs one after the other. -/

namespace Opentxs.Spend.Signing
open Library.Endian Bitcoin BitcoinScript Transactions Blockchain

inductive Category
  | bitcoinCash
  | outputBased
  | balanceBased
deriving DecidableEq

/-! ## Signature hashes -/

inductive SigOption
  | all
  | none
  | single
deriving DecidableEq

structure SigHash where
  flags : UInt8
  forkid : Bytes

namespace SigHash

def All : UInt8 := 0x01
def None : UInt8 := 0x02
def Single : UInt8 := 0x03
def ForkID : UInt8 := 0x40
def AnyoneCanPay : UInt8 := 0x08

/-- Without any option, which is how the builder asks for it. -/
def new (chain : Category) : SigHash where
  flags := if chain = .bitcoinCash then All ||| ForkID else All
  forkid := [0, 0, 0]

def anyoneCanPay (sigHash : SigHash) : Bool := sigHash.flags &&& AnyoneCanPay = AnyoneCanPay

def type (sigHash : SigHash) : SigOption :=
  if sigHash.flags &&& Single = Single then .single else if sigHash.flags &&& Single = None then .none else .all

def bytes (sigHash : SigHash) : Bytes := sigHash.flags :: sigHash.forkid

end SigHash

/-! ## Inputs -/

/-- An output that is spent stands in a transaction, where its value has eight bytes. -/
structure Previous where
  value : UInt64
  script : Script
deriving DecidableEq

structure SigningInput where
  previous : Transactions.Outpoint
  sequence : UInt32
  spends : Previous
  script : Script
  witness : List Bytes
deriving DecidableEq

namespace SigningInput

def emptyScript : Script := { role := .input, elements := [] }

def toInput (input : SigningInput) : Input :=
  { previous := input.previous, script := input.script, witness := input.witness, sequence := input.sequence }

def signatureVersion (input : SigningInput) : Input :=
  { previous := input.previous, script := emptyScript, witness := input.witness, sequence := input.sequence }

end SigningInput

/-- No script where the program ends. -/
def signingSubscript (script : Script) : Option Script :=
  match script.type with
  | .payToWitnessPubkeyHash =>
    match script.pubkeyHash with
    | .ok (some hash) => some { role := .output, elements :=
        [opcode OP.DUP, opcode OP.HASH160, pushData hash, opcode OP.EQUALVERIFY, opcode OP.CHECKSIG] }
    | _ => none
  | _ => some script

/-- The conversion of a number that has more than 63 bits is caught and gives zero. -/
def extractInt64 (amount : Amount) : Int :=
  let units := Amount.shiftRight amount
  if -2 ^ 63 ≤ units ∧ units < 2 ^ 63 then units else 0

/-! ## The hashes that are kept -/

structure Bip143Hashes where
  outpoints : Bytes
  sequences : Bytes
  outputs : Bytes

namespace Bip143Hashes

variable (hashes : Bip143Hashes) (sigHash : SigHash)

def blank : Bytes := List.replicate 32 0

def outpointsFor : Bytes := if sigHash.anyoneCanPay then blank else hashes.outpoints

def sequencesFor : Bytes := if sigHash.anyoneCanPay ∨ sigHash.type ≠ .all then blank else hashes.sequences

/-- The hash of a single output is never there. -/
def outputsFor : Bytes := if sigHash.type = .all then hashes.outputs else blank

def preimage (version lockTime : UInt32) (input : SigningInput) : Option Bytes := do
  let script ← signingSubscript input.spends.script
  let value := extractInt64 (Amount.ofUnsigned input.spends.value.toNat)
  some (little32 version ++ (hashes.outpointsFor sigHash ++ (hashes.sequencesFor sigHash ++ (input.previous.serialize ++
    (CompactSize.encode script.calculateSize ++ (script.serialize ++ (toLittle 8 (value % 2 ^ 64).toNat ++
    (little32 input.sequence ++ (hashes.outputsFor sigHash ++ (little32 lockTime ++ sigHash.bytes))))))))))

end Bip143Hashes

/-- What the builder holds when it signs. -/
structure Signer where
  chain : Category
  version : UInt32
  lockTime : UInt32
  segwit : Bool
  inputs : List (SigningInput × Amount)
  outputs : List Output
  outputTotal : Nat

/-- The outputs are written into as many bytes as were counted, and may not need more. -/
def initBip143 (digest : Bytes → Option Bytes) (signer : Signer) : Option Bip143Hashes → Option Bip143Hashes
  | some hashes => some hashes
  | none => do
    let outpoints ← digest (signer.inputs.flatMap fun input => input.1.previous.serialize)
    let sequences ← digest (signer.inputs.flatMap fun input => little32 input.1.sequence)
    let written ← signer.outputs.mapM Output.serialize
    let preimage ← fill signer.outputTotal written.flatten
    let outputs ← digest preimage
    some { outpoints, sequences, outputs }

/-! ## The copy that is kept -/

/-- With the outputs that its inputs spend. -/
structure TxCopy (Hash : Type) where
  transaction : Transactions.Transaction Hash
  spends : List Previous

variable {Hash : Type} (hashing : Hashing Hash)

def initTxcopy (signer : Signer) : Option (TxCopy Hash) → TxCopy Hash
  | some copy => copy
  | none =>
    { transaction := buildTransaction hashing signer.version signer.lockTime false
        (signer.inputs.map fun input => input.1.signatureVersion) signer.outputs
      spends := signer.inputs.map fun input => input.1.spends }

/-- What is in the buffer when the result is not looked at: behind an output that cannot be written it
stays zero. -/
def buffer (transaction : Transactions.Transaction Hash) : Option Bytes :=
  match transaction.serialize false with
  | some bytes => some bytes
  | none => do
    let size ← transaction.calculateSize false
    let inputs ← transaction.inputs.mapM (Input.serialize false)
    let outputs := ((transaction.outputs.map Output.serialize).takeWhile Option.isSome).reduceOption
    fill size (little32 transaction.version ++ (CompactSize.encode transaction.inputs.length ++ (inputs.flatten ++
      (CompactSize.encode transaction.outputs.length ++ outputs.flatten))))

theorem plain_exclusive (script : Script) : ([] : Bytes) = [] ∨ script.elements = [] := .inl rfl

def getPreimageBTC (copy : TxCopy Hash) (index : Nat) (sigHash : SigHash) : Option Bytes :=
  if sigHash.type ≠ .all then none
  else do
    let input ← copy.transaction.inputs[index]?
    let spent ← copy.spends[index]?
    let script ← signingSubscript spent.script
    let base : Input :=
      { previous := input.previous, script, witness := input.witness, sequence := input.sequence, exclusive := plain_exclusive script }
    let inputs := if sigHash.anyoneCanPay then [base] else copy.transaction.inputs.set index base
    buffer { copy.transaction with inputs }

/-! ## Signatures -/

def addSignatures (input : SigningInput) (signatures : List (Bytes × Bytes)) : Option SigningInput :=
  if signatures.any fun (signature, _) => signature = [] then none
  else if input.witness = [] then
    (scriptOf (signatures.flatMap fun (signature, key) =>
      pushData signature :: if key = [] then [] else [pushData key]) .input).map fun script => { input with script }
  else if signatures.any fun (_, key) => key = [] then none
  else some { input with witness := signatures.flatMap fun (signature, key) => [signature, key] }

def addMultisigSignatures (input : SigningInput) (signatures : List (Bytes × Bytes)) : Option SigningInput :=
  if signatures.any fun (signature, _) => signature = [] then none
  else (scriptOf (opcode OP.ZERO :: signatures.map fun (signature, _) => pushData signature) .input).map fun script =>
    { input with script }

/-- What the keys of an input sign its preimage with, and the keys themselves. -/
abbrev Keys := Bytes → SigningInput → Option (List (Bytes × Bytes))

def sign (keys : Keys) (preimage : Bytes) (input : SigningInput) : Option SigningInput :=
  let script := input.spends.script
  match keys preimage input with
  | none | some [] => none
  | some signatures =>
    match script.type with
    | .payToWitnessPubkeyHash | .payToPubkeyHash => addSignatures input signatures
    | .payToPubkey => addSignatures input (signatures.map fun (signature, _) => (signature, []))
    | .payToMultisig =>
      match script.m, script.n with
      | .ok (some 1), .ok (some 3) => addMultisigSignatures input signatures
      | _, _ => none
    | _ => none

/-! ## Signing -/

def isSegwit (input : SigningInput) : Bool :=
  match input.spends.script.type with
  | .payToWitnessPubkeyHash | .payToWitnessScriptHash | .payToTaproot => true
  | _ => false

/-- With what was signed for each input so far. -/
structure Progress (Hash : Type) where
  signer : Signer
  txcopy : Option (TxCopy Hash) := none
  bip143 : Option Bip143Hashes := none
  preimages : List Bytes := []

variable (digest : Bytes → Option Bytes) (keys : Keys)

/-- The signatures are put into the input. -/
def finishInput (index : Nat) (input : SigningInput) (value : Amount) (preimage : Bytes) (signing : Progress Hash) :
    Option (Progress Hash) :=
  (sign keys preimage input).map fun signed =>
    { signing with
      signer := { signing.signer with inputs := signing.signer.inputs.set index (signed, value) }
      preimages := signing.preimages ++ [preimage] }

def signInputBip143 (index : Nat) (input : SigningInput) (value : Amount) (signing : Progress Hash) : Option (Progress Hash) := do
  let hashes ← initBip143 digest signing.signer signing.bip143
  let signer := signing.signer
  let preimage ← hashes.preimage (SigHash.new signer.chain) signer.version signer.lockTime input
  finishInput keys index input value preimage { signing with bip143 := some hashes }

def signInputSegwit (index : Nat) (input : SigningInput) (value : Amount) (signing : Progress Hash) : Option (Progress Hash) :=
  signInputBip143 digest keys index input value { signing with signer := { signing.signer with segwit := true } }

def signInputBtc (index : Nat) (input : SigningInput) (value : Amount) (signing : Progress Hash) : Option (Progress Hash) := do
  let copy := initTxcopy hashing signing.signer signing.txcopy
  let sigHash := SigHash.new signing.signer.chain
  let preimage ← getPreimageBTC copy index sigHash
  if preimage.length = 0 then none
  else finishInput keys index input value (preimage ++ sigHash.bytes) { signing with txcopy := some copy }

def signInput (index : Nat) (signing : Progress Hash) : Option (Progress Hash) := do
  let (input, value) ← signing.signer.inputs[index]?
  match signing.signer.chain with
  | .bitcoinCash => signInputBip143 digest keys index input value signing
  | .outputBased =>
    if isSegwit input then signInputSegwit digest keys index input value signing
    else signInputBtc hashing keys index input value signing
  | .balanceBased => none

def signInputsFrom : (indices : List Nat) → Progress Hash → Option (Progress Hash)
  | [], signing => some signing
  | index :: indices, signing => do
    let signing ← signInput hashing digest keys index signing
    signInputsFrom indices signing

def signInputs (signer : Signer) : Option (Progress Hash) :=
  signInputsFrom hashing digest keys (List.range signer.inputs.length) { signer }

def finalizeTransaction (signer : Signer) : Transactions.Transaction Hash :=
  buildTransaction hashing signer.version signer.lockTime signer.segwit (signer.inputs.map fun input => input.1.toInput)
    signer.outputs

end Opentxs.Spend.Signing
