import Opentxs.Bitcoin.Cashtoken

/-! The wire form of a transaction, field by field, and the two hashes that identify it: of the bytes without
marker, flag and witnesses, and of all the bytes. -/

namespace Opentxs.Bitcoin.Transactions
open Library.Endian Blockchain
open Cashtoken (FixedByteArray)

/-- The hash function of a chain, and a hash that was never set. -/
structure Hashing (Hash : Type) where
  blank : Hash
  transactionHash : Bytes → Hash

def little32 (value : UInt32) : Bytes := toLittle 4 value.toNat

def little64 (value : UInt64) : Bytes := toLittle 8 value.toNat

structure Outpoint where
  txid : FixedByteArray 32
  index : FixedByteArray 4
deriving DecidableEq

def Outpoint.serialize (outpoint : Outpoint) : Bytes := outpoint.txid.val ++ outpoint.index.val

structure EncodedInput where
  outpoint : Outpoint
  cs : Nat
  script : Bytes
  sequence : UInt32
deriving DecidableEq

structure EncodedOutput where
  value : UInt64 := 0
  cs : Nat
  cashtoken : Option Cashtoken.Value := none
  script : Bytes
deriving DecidableEq

structure EncodedWitnessItem where
  cs : Nat
  item : Bytes
deriving DecidableEq

structure EncodedInputWitness where
  cs : Nat
  items : List EncodedWitnessItem
deriving DecidableEq

/-- The version is the pattern of a signed integer. -/
structure EncodedTransaction (Hash : Type) where
  version : UInt32
  segwitFlag : Option UInt8
  inputCount : Nat
  inputs : List EncodedInput
  outputCount : Nat
  outputs : List EncodedOutput
  witnesses : List EncodedInputWitness := []
  lockTime : UInt32
  dip2Bytes : Nat := 0
  dip2 : Option Bytes := none
  wtxid : Hash
  txid : Hash
deriving DecidableEq

/-! ## Sizes -/

def EncodedInput.size (input : EncodedInput) : Nat := 36 + CompactSize.total input.cs + 4

def EncodedOutput.size (output : EncodedOutput) : Nat := 8 + CompactSize.total output.cs

def EncodedWitnessItem.size (item : EncodedWitnessItem) : Nat := CompactSize.total item.cs

def EncodedInputWitness.size (witness : EncodedInputWitness) : Nat :=
  CompactSize.size witness.cs + (witness.items.map EncodedWitnessItem.size).sum

namespace EncodedTransaction

variable {Hash : Type}

def dip2Size (transaction : EncodedTransaction Hash) : Nat :=
  if transaction.dip2.isSome then CompactSize.total transaction.dip2Bytes else 0

def legacySize (transaction : EncodedTransaction Hash) : Nat :=
  4 + CompactSize.size transaction.inputCount + (transaction.inputs.map EncodedInput.size).sum +
    CompactSize.size transaction.outputCount + (transaction.outputs.map EncodedOutput.size).sum + 4 + transaction.dip2Size

def segwitSize (transaction : EncodedTransaction Hash) : Nat :=
  transaction.legacySize +
    if transaction.segwitFlag.isSome then 2 + (transaction.witnesses.map EncodedInputWitness.size).sum else 0

end EncodedTransaction

/-! ## Preimages -/

def EncodedInput.serialize (input : EncodedInput) : Bytes :=
  input.outpoint.serialize ++ (CompactSize.encode input.cs ++ (input.script ++ little32 input.sequence))

/-- A token that cannot be written ends the program. -/
def tokenBytes (cashtoken : Option Cashtoken.Value) : Option Bytes :=
  match cashtoken with
  | some token => token.serialize
  | none => some []

def tokenSize (cashtoken : Option Cashtoken.Value) : Option Nat :=
  match cashtoken with
  | some token => token.bytes
  | none => some 0

def EncodedOutput.serialize (output : EncodedOutput) : Option Bytes :=
  (tokenBytes output.cashtoken).map fun token =>
    little64 output.value ++ (CompactSize.encode output.cs ++ (token ++ output.script))

def EncodedInputWitness.serialize (witness : EncodedInputWitness) : Bytes :=
  CompactSize.encode witness.cs ++ witness.items.flatMap fun item => CompactSize.encode item.cs ++ item.item

/-- What does not fit in the space that was reserved is an error, and what is left of the space stays zero. -/
def fill (size : Nat) (written : Bytes) : Option Bytes :=
  if written.length ≤ size then some (written ++ List.replicate (size - written.length) 0) else none

structure Preimages where
  legacy : Bytes
  segwit : Bytes

namespace EncodedTransaction

variable {Hash : Type}

/-- With the flag, where the witnesses are written too. -/
def preimage (transaction : EncodedTransaction Hash) (size : Nat) (segwit : Option UInt8) : Option Bytes := do
  let outputs ← transaction.outputs.mapM EncodedOutput.serialize
  fill size (little32 transaction.version ++
    ((match segwit with | some flag => [0, flag] | none => []) ++
    (CompactSize.encode transaction.inputCount ++ (transaction.inputs.flatMap EncodedInput.serialize ++
    (CompactSize.encode transaction.outputCount ++ (outputs.flatten ++
    ((if segwit.isSome then transaction.witnesses.flatMap EncodedInputWitness.serialize else []) ++
    (little32 transaction.lockTime ++
    match transaction.dip2 with | some payload => CompactSize.encode payload.length ++ payload | none => []))))))))

/-- With witnesses there has to be a flag. -/
def preimages (transaction : EncodedTransaction Hash) : Option Preimages := do
  let isSegwit ← if transaction.witnesses = [] then some none else transaction.segwitFlag.map some
  let legacy ← transaction.preimage transaction.legacySize none
  let segwit ← if isSegwit.isSome then transaction.preimage transaction.segwitSize isSegwit else some []
  some { legacy, segwit }

/-- The wtxid of a generation transaction is assumed to be zero. -/
def calculateIDs (hashing : Hashing Hash) (isGeneration : Bool) (transaction : EncodedTransaction Hash) : EncodedTransaction Hash × Bool :=
  match transaction.preimages with
  | none => (transaction, false)
  | some preimage =>
    let txid := hashing.transactionHash preimage.legacy
    let wtxid := if isGeneration then hashing.blank
      else if transaction.witnesses = [] then txid
      else hashing.transactionHash preimage.segwit
    ({ transaction with txid, wtxid }, true)

end EncodedTransaction

/-! ## Sizes and what fills them -/

@[simp] theorem little32_length (value : UInt32) : (little32 value).length = 4 := toLittle_length 4 _

@[simp] theorem little64_length (value : UInt64) : (little64 value).length = 8 := toLittle_length 8 _

@[simp] theorem Outpoint.serialize_length (outpoint : Outpoint) : outpoint.serialize.length = 36 := by
  show (outpoint.txid.val ++ outpoint.index.val).length = 36
  rw [List.length_append, outpoint.txid.property, outpoint.index.property]

theorem fill_exact (written : Bytes) : fill written.length written = some written := by
  rw [fill, if_pos (Nat.le_refl _), Nat.sub_self, List.replicate_zero, List.append_nil]

theorem EncodedInput.serialize_length {input : EncodedInput} (counted : input.cs = input.script.length) :
    input.serialize.length = input.size := by
  simp only [EncodedInput.serialize, EncodedInput.size, CompactSize.total, CompactSize.size, List.length_append,
    Outpoint.serialize_length, little32_length, counted]
  omega

end Opentxs.Bitcoin.Transactions
