import Opentxs.Bitcoin.Transactions
import Opentxs.Library.Reading

/-! The parser of transactions: it takes the fields from the front of the bytes and feeds each of them to the
two hashers as it goes. -/

namespace Opentxs.Bitcoin.Transactions
open Library Library.Endian Blockchain
open Cashtoken (FixedByteArray)

/-- What the parser looks up of a chain. -/
structure ChainParameters where
  outputBased : Bool
  cashtoken : Bool
  isDash : Bool
deriving DecidableEq

/-- The bytes that are left, those the two hashers were fed with, and what a block keeps of its generation
transaction. -/
structure ParserState where
  data : Bytes
  wtxid : Bytes := []
  txid : Bytes := []
  witnessReservedValue : Option Bytes := none
  segwitCommitment : Option Bytes := none
deriving DecidableEq

inductive ParserError
  | runtime (message : String)
  | cashtoken (error : Cashtoken.Error)
deriving DecidableEq

abbrev Parser (α : Type) : Type := Program ParserState ParserError α

namespace Parser

/-! ## Fields -/

/-- At least one byte has to be left, also for a field without any. -/
def check (message : String) (required : Nat) : Parser (FixedByteArray required) := fun state =>
  if enough : max 1 required ≤ state.data.length then
    (.ok ⟨state.data.take required, List.length_take_of_le (Nat.le_trans (Nat.le_max_right 1 required) enough)⟩, state)
  else (.error (.runtime ("input too short: " ++ message)), state)

/-- The hasher of the wtxid gets everything. -/
def hash (both : Bool) (view : Bytes) : Parser Unit :=
  Program.modify fun state =>
    { state with wtxid := state.wtxid ++ view, txid := if both then state.txid ++ view else state.txid }

def removePrefix (size : Nat) : Parser Unit := Program.modify fun state => { state with data := state.data.drop size }

def field (message : String) (size : Nat) (both : Bool) : Parser (FixedByteArray size) := do
  let view ← check message size
  hash both view.val
  removePrefix size
  pure view

def parseSize (message : String) (both : Bool) : Parser Nat := do
  let state ← Program.get
  match CompactSize.decodeCompactSize state.data with
  | (some size, rest) =>
    hash both (state.data.take (state.data.length - rest.length))
    removePrefix (state.data.length - rest.length)
    pure size
  | (none, _) => Program.throw (.runtime ("failed to decode: " ++ message))

def loadLittle32 (bytes : FixedByteArray 4) : UInt32 := UInt32.ofNat (ofLittle bytes.val)

def loadLittle64 (bytes : FixedByteArray 8) : UInt64 := UInt64.ofNat (ofLittle bytes.val)

def loadOutpoint (bytes : FixedByteArray 36) : Outpoint :=
  { txid := ⟨bytes.val.take 32, by rw [List.length_take, bytes.property]; rfl⟩,
    index := ⟨bytes.val.drop 32, by rw [List.length_drop, bytes.property]⟩ }

/-! ## Inputs, outputs and witnesses -/

def parseInput (isSegwit : Bool) : Parser EncodedInput := do
  let outpoint ← field "outpoint" 36 isSegwit
  let cs ← parseSize "script size" isSegwit
  let script ← field "script" cs isSegwit
  let sequence ← field "sequence" 4 isSegwit
  pure { outpoint := loadOutpoint outpoint, cs, script := script.val, sequence := loadLittle32 sequence }

def parseInputs (isSegwit : Bool) : Parser (Nat × List EncodedInput) := do
  let count ← parseSize "txin count" isSegwit
  let inputs ← Program.times (fun _ => parseInput isSegwit) 0 count
  pure (count, inputs)

def commitmentPrefix : Bytes := [0x6a, 0x24, 0xaa, 0x21, 0xa9, 0xed]

def parseSegwitCommitment (isGeneration : Bool) (script : Bytes) : Parser Unit :=
  Program.onlyIf (isGeneration = true ∧ 38 ≤ script.length ∧ script.take 6 = commitmentPrefix)
    (Program.modify fun state => { state with segwitCommitment := some ((script.drop 6).take 32) })

/-- The token in front of the script, on the chains that have tokens. -/
def splitToken (chain : ChainParameters) (view : Bytes) : Except ParserError (Option Cashtoken.Value × Bytes) :=
  if chain.cashtoken then (Cashtoken.deserialize view).mapError ParserError.cashtoken else .ok (none, view)

def parseOutput (chain : ChainParameters) (isGeneration isSegwit : Bool) : Parser EncodedOutput := do
  let value ← field "value" 8 isSegwit
  let cs ← parseSize "script size" isSegwit
  let view ← check "script" cs
  hash isSegwit view.val
  parseSegwitCommitment isGeneration view.val
  let script ← Program.lift (splitToken chain view.val)
  removePrefix cs
  pure { value := loadLittle64 value, cs, cashtoken := script.1, script := script.2 }

def parseOutputs (chain : ChainParameters) (isGeneration isSegwit : Bool) : Parser (Nat × List EncodedOutput) := do
  let count ← parseSize "txout count" isSegwit
  let outputs ← Program.times (fun _ => parseOutput chain isGeneration isSegwit) 0 count
  pure (count, outputs)

/-- The first item of a generation transaction's first witness is the reserved value, if it has the size of a hash. -/
def parseWitnessItem (isGeneration : Bool) (input item : Nat) : Parser EncodedWitnessItem := do
  let cs ← parseSize "witness size" false
  let view ← check "witness" cs
  hash false view.val
  Program.onlyIf (isGeneration = true ∧ input = 0 ∧ item = 0 ∧ cs = 32)
    (Program.modify fun state => { state with witnessReservedValue := some view.val })
  removePrefix cs
  pure { cs, item := view.val }

def parseWitness (isGeneration : Bool) (input : Nat) : Parser EncodedInputWitness := do
  let cs ← parseSize "witness item count" false
  let items ← Program.times (parseWitnessItem isGeneration input) 0 cs
  pure { cs, items }

/-- The witnesses, and whether any of them has an item. -/
def parseWitnesses (isGeneration : Bool) (count : Nat) : Parser (List EncodedInputWitness × Bool) := do
  let witnesses ← Program.times (parseWitness isGeneration) 0 count
  pure (witnesses, witnesses.any (0 < ·.cs))

/-! ## Transactions -/

/-- The version of a special transaction: the type of the transaction takes its upper half. -/
def isDip2 (chain : ChainParameters) (version : UInt32) : Bool :=
  chain.isDash && (3 ≤ version.toNat % 65536 ∧ 0 < version.toNat / 65536)

def checkDip2 (chain : ChainParameters) : Parser Bool := do
  let view ← check "version field" 4
  pure (isDip2 chain (loadLittle32 view))

/-- The flag, if there is the marker where the number of inputs would be. -/
def isSegwitTx : Parser (Option UInt8) := do
  let state ← Program.get
  pure (if state.data[4]? = some 0 then state.data[5]? else none)

def parseVersion (isSegwit : Bool) : Parser UInt32 := do
  let version ← field "version field" 4 isSegwit
  pure (loadLittle32 version)

/-- A special transaction is not looked at for a flag. -/
def segwitFlag (special : Bool) : Parser (Option UInt8) := if special then pure none else isSegwitTx

def takeMarkerAndFlag : Parser Unit := do
  let state ← Program.get
  hash false (state.data.take 2)
  removePrefix 2

def markerAndFlag (isSegwit : Bool) : Parser Unit := if isSegwit then takeMarkerAndFlag else pure ()

def haveWitnesses (isGeneration isSegwit : Bool) (count : Nat) : Parser (List EncodedInputWitness × Bool) :=
  if isSegwit then parseWitnesses isGeneration count else pure ([], false)

def parseLocktime (isSegwit : Bool) : Parser UInt32 := do
  let lockTime ← field "lock time" 4 isSegwit
  pure (loadLittle32 lockTime)

def parseDip2 : Parser (Nat × Option Bytes) := do
  let size ← parseSize "dip2 extra bytes" true
  let payload ← field "dip2 payload" size true
  pure (size, some payload.val)

def extraPayload (special : Bool) : Parser (Nat × Option Bytes) := if special then parseDip2 else pure (0, none)

/-- The txid and the wtxid. -/
def calculateTxids {Hash : Type} (hashing : Hashing Hash) (isSegwit isGeneration haveWitnesses : Bool) : Parser (Hash × Hash) := do
  let state ← Program.get
  let txid := hashing.transactionHash (if isSegwit then state.txid else state.wtxid)
  let wtxid := if isGeneration then hashing.blank
    else if haveWitnesses = false then txid
    else if isSegwit then hashing.transactionHash state.wtxid
    else txid
  pure (txid, wtxid)

/-- The hashers are new for every transaction. -/
def fresh (state : ParserState) : ParserState := { state with wtxid := [], txid := [] }

def begin : Parser Unit := do
  let state ← Program.get
  Program.require (decide (10 ≤ state.data.length)) (.runtime "input too small to be a valid transaction")
  Program.modify fresh

def parseNextTransaction {Hash : Type} (hashing : Hashing Hash) (chain : ChainParameters) (isGeneration : Bool) :
    Parser (EncodedTransaction Hash) := do
  begin
  let special ← checkDip2 chain
  let segwitFlag ← segwitFlag special
  let isSegwit := segwitFlag.isSome
  let version ← parseVersion isSegwit
  markerAndFlag isSegwit
  let inputs ← parseInputs isSegwit
  let outputs ← parseOutputs chain isGeneration isSegwit
  let witnesses ← haveWitnesses isGeneration isSegwit inputs.1
  let lockTime ← parseLocktime isSegwit
  let payload ← extraPayload special
  let ids ← calculateTxids hashing isSegwit isGeneration witnesses.2
  pure { version, segwitFlag, inputCount := inputs.1, inputs := inputs.2, outputCount := outputs.1, outputs := outputs.2,
         witnesses := witnesses.1, lockTime, dip2Bytes := payload.1, dip2 := payload.2, txid := ids.1, wtxid := ids.2 }

end Parser

/-- A transaction at a position of a block; bytes behind it are not looked at. -/
def parseTransaction {Hash : Type} (hashing : Hashing Hash) (chain : ChainParameters) (position : Nat) (bytes : Bytes) :
    Option (Transaction Hash) :=
  if chain.outputBased then
    match Parser.parseNextTransaction hashing chain (position = 0) { data := bytes } with
    | (.ok encoded, _) => parsedTransaction position encoded
    | (.error _, _) => none
  else none

end Opentxs.Bitcoin.Transactions
