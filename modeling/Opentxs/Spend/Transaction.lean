import Opentxs.Bitcoin.BitcoinScript
import Opentxs.Blockchain.CompactSize
import Opentxs.Spend.Amount
import Opentxs.Wallet.Types

/-! The parts of a transaction that is being built: outputs with their scripts, and inputs that
hold placeholders until they are signed. -/

namespace Opentxs.Spend
open Library.Endian Bitcoin BitcoinScript Blockchain
open Wallet.Types (Outpoint Key TxoTag)

inductive AddressStyle
  | unknownAddressStyle
  | p2pkh
  | p2sh
  | p2wpkh
  | p2wsh
  | p2tr
  | ethereumAccount
  deriving DecidableEq, Repr

inductive Pattern
  | custom
  | coinbase
  | nullData
  | payToMultisig
  | payToPubkey
  | payToPubkeyHash
  | payToScriptHash
  | payToWitnessPubkeyHash
  | payToWitnessScriptHash
  | payToTaproot
  | none
  | input
  | empty
  | malformed
  deriving DecidableEq, Repr

structure TransactionOutput where
  index : Nat
  value : Amount
  script : Script
  keys : List Key := []
  tags : Finset TxoTag := ∅
  deriving DecidableEq

namespace TransactionOutput

def serializeBitcoinSize : Nat := 8

def calculateSize (output : TransactionOutput) : Nat :=
  serializeBitcoinSize + CompactSize.total output.script.calculateSize

def setIndex (index : Nat) (output : TransactionOutput) : TransactionOutput := { output with index }

def setValue (value : Amount) (output : TransactionOutput) : TransactionOutput := { output with value }

def addTag (tag : TxoTag) (output : TransactionOutput) : TransactionOutput :=
  { output with tags := insert tag output.tags }

@[simp] theorem value_setValue (value : Amount) (output : TransactionOutput) : (output.setValue value).value = value := rfl

end TransactionOutput

/-- An output that the wallet may spend, as the database hands it over. -/
structure UTXO where
  outpoint : Outpoint
  value : Amount
  pattern : Pattern
  keys : List Key
  isValid : Bool := true
  deriving DecidableEq, Repr

structure TransactionInput where
  previousOutput : Outpoint
  witness : List Bytes
  script : Script
  /-- The type of the script that is spent. -/
  spends : Pattern
  keys : List Key
  deriving DecidableEq

def blankSignature : Bytes := List.replicate 72 0

def blankPubkey : Bytes := List.replicate 33 0

/-- The elements and the witness that stand in for the signatures. -/
def placeholders (pattern : Pattern) (keys : List Key) : Option (List ScriptElement × List Bytes) :=
  match pattern with
  | .payToWitnessPubkeyHash => some ([], [blankSignature, blankPubkey])
  | .payToPubkeyHash => some ([pushData blankSignature, pushData blankPubkey], [])
  | .payToPubkey => some ([pushData blankSignature], [])
  | .payToMultisig => some (List.replicate keys.length (pushData blankSignature), [])
  | _ => none

def bitcoinTransactionInput (utxo : UTXO) : Option TransactionInput :=
  if utxo.isValid = false ∨ utxo.keys = [] then none
  else do
    let (elements, witness) ← placeholders utxo.pattern utxo.keys
    let script ← scriptOf elements .input
    some { previousOutput := utxo.outpoint, witness, script, spends := utxo.pattern, keys := utxo.keys }

namespace TransactionInput

/-- An outpoint has 36 bytes and the sequence four. -/
def baseBytes (input : TransactionInput) : Nat := 36 + CompactSize.total input.script.calculateSize + 4

def witnessBytes (input : TransactionInput) : Nat :=
  CompactSize.size input.witness.length + (input.witness.map fun item => CompactSize.total item.length).sum

end TransactionInput

/-- Types for which there is no script are refused. -/
def makeScript (type : AddressStyle) (bytes : Bytes) : Option (List ScriptElement) :=
  match type with
  | .p2pkh =>
    some [opcode OP.DUP, opcode OP.HASH160, pushData bytes, opcode OP.EQUALVERIFY, opcode OP.CHECKSIG]
  | .p2wpkh => some [opcode OP.ZERO, pushData bytes]
  | .p2sh => some [opcode OP.HASH160, pushData bytes, opcode OP.EQUAL]
  | .p2wsh => some [opcode OP.ZERO, pushData bytes]
  | .p2tr => some [opcode OP.ONE, pushData bytes]
  | .unknownAddressStyle | .ethereumAccount => none

def pubkeyScript (pubkey : Bytes) : List ScriptElement := [pushData pubkey, opcode OP.CHECKSIG]

def notificationScript : List Bytes → Option (List ScriptElement)
  | [first, second, third] =>
    some [opcode OP.ONE, pushData first, pushData second, pushData third, opcode OP.THREE, opcode OP.CHECKMULTISIG]
  | _ => none

end Opentxs.Spend
