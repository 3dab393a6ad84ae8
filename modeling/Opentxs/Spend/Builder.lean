import Mathlib.Data.Finset.Basic
import Opentxs.Library.SortedList
import Opentxs.Spend.Proposal

/-! The builder of a transaction: it collects outputs and inputs, keeps their totals, works out
the fee and the change, and signs. -/

namespace Opentxs.Spend
open Library Library.Endian Bitcoin BitcoinScript Blockchain Amount
open Wallet.Types (Outpoint Key AccountID TransactionHash SpendPolicy TxoState)

structure Element where
  keyID : Key
  pubkeyHash : Bytes
  deriving DecidableEq, Repr

/-- An identifier that is not set is blank. -/
inductive Source
  | account
  | subaccount (id : Option AccountID)
  | key (id : Option Key)
  deriving DecidableEq, Repr

structure Transaction where
  segwit : Bool
  inputs : List TransactionInput
  outputs : List TransactionOutput
  deriving DecidableEq

/-- What the builder asks of the node, the database and the keys of the spender. A world is
whatever these remember. -/
structure Node (ω : Type) where
  feeRate : Amount
  segwitScaleFactor : Nat
  isBitcoinCash : Bool
  getReserved : ω → List UTXO
  reserveUTXO : SpendPolicy → ω → (Option UTXO × Bool) × ω
  reserveOutpoint : Outpoint → ω → Option UTXO × ω
  getOutputs : Source → TxoState → ω → List Outpoint
  nextChangeKey : ω → Option Element × ω
  notificationElements : Element → PaymentCode → Option (List Bytes)
  release : Key → ω → ω
  signatures : TransactionInput → List TransactionOutput → Option (List (Bytes × Bytes))
  transactionID : Transaction → Option TransactionHash
  serializeTransaction : Transaction → Bool
  serializeProposal : Proposal → Bool
  finalizeProposal : Transaction → ω → Bool × ω
  broadcastTransaction : Transaction → ω → Bool × ω
  addNotification : TransactionHash → ω → ω
  /-- How many outputs are left to reserve. -/
  unreserved : ω → Nat
  reserves : ∀ policy world utxo more next, reserveUTXO policy world = ((some utxo, more), next) →
    unreserved next < unreserved world

inductive BuildResult
  | permanentFailure
  | success
  | temporaryFailure
  deriving DecidableEq, Repr

structure SendOutcome where
  result : SendResult
  txid : Option TransactionHash := none
  deriving DecidableEq, Repr

/-- An exception, a permanent failure with what it reports, or the end of the program. -/
inductive Stop
  | exception
  | failed (outcome : SendOutcome)
  | terminate
  deriving DecidableEq, Repr

structure Builder (ω : Type) where
  world : ω
  segwit : Bool := false
  outputs : List TransactionOutput := []
  change : List TransactionOutput := []
  inputs : List (TransactionInput × Amount) := []
  inputCount : Nat := 0
  outputCount : Nat := 0
  inputTotal : Nat := 0
  witnessTotal : Nat := 0
  outputTotal : Nat := 0
  inputValue : Amount := 0
  outputValue : Amount := 0
  notificationValue : Amount := 0
  changeKeys : List Key := []
  outgoingKeys : List Key := []
  promise : Option SendOutcome := none

abbrev Building (ω : Type) := Program (Builder ω) Stop

namespace Builder

variable {ω : Type}

def exception {α : Type} : Building ω α := Program.throw .exception

def failed {α : Type} (result : SendResult) : Building ω α := Program.throw (.failed { result })

def assertTrue (condition : Bool) : Building ω Unit := Program.require condition .terminate

/-- A function that cannot throw ends the program when an exception would leave it. -/
def noexcept {α : Type} (program : Building ω α) : Building ω α :=
  Program.catching program fun stop => Program.throw (if stop = .exception then .terminate else stop)

/-- The exception is caught, and what was done before it stays. -/
def caught (program : Building ω Unit) : Building ω Bool :=
  Program.catching (do program; pure true) fun stop => if stop = .exception then pure false else Program.throw stop

def ask {α : Type} (question : ω → α × ω) : Building ω α := fun state =>
  let (answer, world) := question state.world
  (.ok answer, { state with world })

def tell (change : ω → ω) : Building ω Unit := Program.modify fun state => { state with world := change state.world }

/-! ## Sizes and fees -/

def fixedOverhead : Nat := 8

def p2pkhOutputBytes : Nat := 34

variable (node : Node ω)

/-- One more output is assumed, for the change. -/
def bytes (state : Builder ω) : Except Stop Nat :=
  let base := fixedOverhead + CompactSize.size state.inputCount + state.inputTotal +
    CompactSize.size (state.outputCount + 1) + state.outputTotal + p2pkhOutputBytes
  if state.segwit = false then .ok base
  else if node.segwitScaleFactor = 0 then .error .terminate
  else
    let segwit := 2 + state.witnessTotal
    let total := base + segwit
    let factor := node.segwitScaleFactor - 1
    .ok ((segwit * factor + total + (node.segwitScaleFactor - 1)) / node.segwitScaleFactor)

def requiredFee (state : Builder ω) : Except Stop Amount := do
  let size ← bytes node state
  let product ← checked .terminate (size * node.feeRate)
  .ok (product.tdiv 1000)

def dust : Except Stop Nat := do
  let product ← checked .terminate (148 * node.feeRate)
  .ok (extractUInt64 (product.tdiv 1000))

def excessValue (state : Builder ω) : Except Stop Amount := do
  let fee ← requiredFee node state
  let needed ← checked .terminate (state.outputValue + fee)
  checked .terminate (state.inputValue - needed)

def isFunded (state : Builder ω) : Except Stop Bool := do
  let wanted ← checked .terminate (state.outputValue + state.notificationValue)
  let fee ← requiredFee node state
  let needed ← checked .terminate (wanted + fee)
  .ok (needed ≤ state.inputValue)

/-- What a function that does not change the builder makes of its state. -/
def look {α : Type} (view : Builder ω → Except Stop α) : Building ω α := fun state => (view state, state)

/-! ## Inputs and outputs -/

def addInput (utxo : UTXO) : Building ω Bool := noexcept do
  match bitcoinTransactionInput utxo with
  | none => pure false
  | some input =>
    -- the count is taken before the input is added
    Program.modify fun state => { state with
      inputCount := state.inputs.length
      inputTotal := state.inputTotal + input.baseBytes
      witnessTotal := state.witnessTotal + input.witnessBytes }
    let inputValue ← look fun state => checked .exception (state.inputValue + utxo.value)
    Program.modify fun state => { state with inputValue, inputs := state.inputs ++ [(input, utxo.value)] }
    pure true

def addExistingInput (utxo : UTXO) : Building ω Unit := do
  let added ← addInput utxo
  Program.require added .exception

def addExistingInputs : Building ω Unit := do
  let existing ← look fun state => .ok (node.getReserved state.world)
  Program.forEach addExistingInput existing

/-- The next index goes from one output to the next. -/
def addOutput (value : Amount) (elements : List ScriptElement) (index : Nat) : Building ω Unit := do
  match scriptOf elements .output with
  | none => exception
  | some script =>
    let output : TransactionOutput := { index, value, script }
    Program.modify fun state => { state with outputs := state.outputs ++ [output] }
    let outputValue ← look fun state => checked .exception (state.outputValue + output.value)
    Program.modify fun state => { state with outputValue, outputTotal := state.outputTotal + output.calculateSize }

def addAddress (recipient : AddressRecipient) (index : Nat) : Building ω Unit := do
  match makeScript recipient.style recipient.bytes with
  | none => exception
  | some elements => addOutput recipient.amount elements index

def addPaymentCode (recipient : PaymentCodeRecipient) (index : Nat) : Building ω Unit :=
  addOutput recipient.amount (pubkeyScript recipient.pubkey) index

def countOutputs : Building ω Unit :=
  Program.modify fun state => { state with outputCount := state.outputs.length + state.change.length }

variable (proposal : Proposal)

def createOutputs : Building ω Bool := caught do
  let addresses := proposal.addressRecipients
  Program.forEach (fun (recipient, index) => addAddress recipient index) addresses.zipIdx
  Program.forEach (fun (recipient, index) => addPaymentCode recipient index)
    (proposal.paymentCodeRecipients.zipIdx addresses.length)
  countOutputs

def addChangeOutput (output : TransactionOutput) : Building ω Unit := do
  let output := output.addTag .change
  let outputValue ← look fun state => checked .exception (state.outputValue + output.value)
  Program.modify fun state => { state with
    outputValue
    outputTotal := state.outputTotal + output.calculateSize
    change := state.change ++ [output] }
  countOutputs

def makeChangeOutput (element : Element) (elements : Option (List ScriptElement)) (tag : Option Wallet.Types.TxoTag) :
    Building ω Unit := do
  match elements.bind (scriptOf · .output) with
  | none => exception
  | some script =>
    let count ← look fun state => .ok state.outputs.length
    let output : TransactionOutput := { index := count, value := 0, script, keys := [element.keyID] }
    addChangeOutput ((tag.map output.addTag).getD output)

def nextChangeElement : Building ω Element := do
  match ← ask node.nextChangeKey with
  | none => exception
  | some element =>
    Program.modify fun state => { state with changeKeys := state.changeKeys.insert element.keyID }
    pure element

def addChange : Building ω Bool := caught do
  let state ← Program.get
  Program.onlyIf (state.change = []) do
    let element ← nextChangeElement node
    makeChangeOutput element (makeScript .p2pkh element.pubkeyHash) none

def makeNotification (element : Element) (recipient : PaymentCode) : Option (List ScriptElement) :=
  (node.notificationElements element recipient).bind notificationScript

/-- The value that is set aside is a machine integer. -/
def notify (value : Nat) (recipient : PaymentCode) : Building ω Unit := do
  let element ← nextChangeElement node
  makeChangeOutput element (makeNotification node element recipient) (some .notification)
  let notificationValue ← look fun state => checked .exception (state.notificationValue + ofUnsigned value)
  Program.modify fun state => { state with notificationValue }

def createNotifications (value : Nat) : Building ω Bool :=
  caught (Program.forEach (notify node value) proposal.notifications)

/-! ## Change -/

def dropLast : Building ω Unit := do
  let state ← Program.get
  match state.change.getLast? with
  | none => pure ()
  | some last => do
    Program.forEach (fun key => do
      tell (node.release key)
      Program.modify fun state => { state with changeKeys := state.changeKeys.erase key }) last.keys
    let outputValue ← look fun state => checked .terminate (state.outputValue - last.value)
    Program.modify fun state => { state with
      outputValue
      outputTotal := state.outputTotal - last.calculateSize
      change := state.change.dropLast }
    countOutputs

def canDropLast (change : List TransactionOutput) : Bool :=
  match change.getLast? with
  | none => false
  | some last => .notification ∉ last.tags

/-- Every round drops an output, so as many rounds as there are outputs are enough. -/
def dropUnnecessaryChange : (rounds : Nat) → Building ω Unit
  | 0 => pure ()
  | rounds + 1 => do
    let state ← Program.get
    Program.onlyIf (canDropLast state.change = true) do
      dropLast node
      dropUnnecessaryChange rounds

/-- The loop that gives each output its share, with the total of the outputs and what remains. -/
def giveShares (share : Nat) : List TransactionOutput → Amount → Nat → Except Stop (List TransactionOutput × Amount × Nat)
  | [], total, remaining => .ok ([], total, remaining)
  | change :: others, total, remaining => do
    let change := change.setValue (ofUnsigned share)
    let total ← checked .terminate (total + change.value)
    let (others, result) ← giveShares share others total (remaining - share)
    .ok (change :: others, result)

/-- The loop that gives what remains to the first outputs. -/
def giveRemainder : List TransactionOutput → Amount → Nat → Except Stop (List TransactionOutput × Amount × Nat)
  | [], total, remaining => .ok ([], total, remaining)
  | change :: others, total, remaining => do
    let value ← checked .terminate (change.value + ofUnsigned 1)
    let total ← checked .terminate (total + ofUnsigned 1)
    let change := change.setValue value
    if remaining - 1 = 0 then .ok (change :: others, total, 0)
    else do
      let (others, result) ← giveRemainder others total (remaining - 1)
      .ok (change :: others, result)

def distributeChangeAmounts : Building ω Unit := do
  let state ← Program.get
  let count := state.change.length
  assertTrue (0 < count)
  let excess ← look (excessValue node)
  let remaining := extractUInt64 excess
  let share := remaining / count
  let dust ← look fun _ => dust node
  assertTrue (dust ≤ share)
  let (change, total, remaining) ← look fun state => giveShares share state.change state.outputValue remaining
  let (change, total, remaining) ← look fun _ =>
    if 0 < remaining then giveRemainder change total remaining else .ok (change, total, remaining)
  Program.modify fun state => { state with change, outputValue := total }
  assertTrue (remaining = 0)
  Program.modify fun state => { state with outputs := state.outputs ++ state.change, change := [] }

/-! ## The order of the parts -/

def inputOrder (first second : TransactionInput × Amount) : Prop := first.1.previousOutput ≤ second.1.previousOutput

instance (first second : TransactionInput × Amount) : Decidable (inputOrder first second) :=
  inferInstanceAs (Decidable (_ ≤ _))

def outputOrder (first second : TransactionOutput) : Prop :=
  if first.value = second.value then first.script.serialize ≤ second.script.serialize else first.value < second.value

instance (first second : TransactionOutput) : Decidable (outputOrder first second) :=
  inferInstanceAs (Decidable (if first.value = second.value then first.script.serialize ≤ second.script.serialize
    else first.value < second.value))

def bip69 : Building ω Unit := Program.modify fun state => { state with
  inputs := state.inputs.insertionSort inputOrder
  outputs := (state.outputs.insertionSort outputOrder).zipIdx.map fun (output, index) => output.setIndex index }

def finalizeOutputs : Building ω Unit := do
  let funded ← look (isFunded node)
  assertTrue funded
  let state ← Program.get
  assertTrue (!state.change.isEmpty)
  let excess ← look (excessValue node)
  let dust ← look fun _ => dust node
  Program.onlyIf (excess < ofUnsigned dust) (dropUnnecessaryChange node state.change.length)
  let state ← Program.get
  Program.onlyIf (state.change ≠ []) (distributeChangeAmounts node)
  bip69

end Builder

end Opentxs.Spend
