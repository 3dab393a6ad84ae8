import Opentxs.Spend.Builder

/-! How a transaction is built: from the recipients and the funds of a proposal to the
transaction that is signed, saved and sent. -/

namespace Opentxs.Spend
open Library Library.Endian Bitcoin BitcoinScript Blockchain Amount

namespace Builder

variable {ω : Type} (node : Node ω) (proposal : Proposal)

def fulfil (outcome : SendOutcome) : Building ω Unit := do
  let state ← Program.get
  -- a promise that has been fulfilled throws
  assertTrue state.promise.isNone
  Program.modify fun state => { state with promise := some outcome }

def releaseKeys : Building ω Unit := do
  let state ← Program.get
  Program.forEach (fun key => tell (node.release key)) state.outgoingKeys
  Program.forEach (fun key => tell (node.release key)) state.changeKeys

/-! ## Signing -/

def isSegwit (input : TransactionInput) : Bool :=
  match input.spends with
  | .payToWitnessPubkeyHash | .payToWitnessScriptHash | .payToTaproot => true
  | _ => false

/-- The signatures replace the placeholders, in the witness if there is one. -/
def addSignatures (input : TransactionInput) (signatures : List (Bytes × Bytes)) : Option TransactionInput :=
  let pushes (elements : List ScriptElement) := (scriptOf elements .input).map fun script => { input with script }
  match input.spends with
  | .payToWitnessPubkeyHash | .payToPubkeyHash =>
    if input.witness = [] then
      pushes (signatures.flatMap fun (signature, pubkey) => [pushData signature, pushData pubkey])
    else some { input with witness := signatures.flatMap fun (signature, pubkey) => [signature, pubkey] }
  | .payToPubkey => pushes (signatures.map fun (signature, _) => pushData signature)
  | .payToMultisig => pushes (opcode OP.ZERO :: signatures.map fun (signature, _) => pushData signature)
  | _ => none

def signInput (input : TransactionInput) : Building ω TransactionInput := do
  Program.onlyIf (node.isBitcoinCash = false ∧ isSegwit input = true)
    (Program.modify fun state => { state with segwit := true })
  let state ← Program.get
  match node.signatures input state.outputs with
  | none | some [] => failed .signatureError
  | some signatures =>
    match addSignatures input signatures with
    | none => failed .signatureError
    | some input => pure input

def signInputsFrom : List (TransactionInput × Amount) → Building ω (List (TransactionInput × Amount))
  | [] => pure []
  | (input, value) :: inputs => do
    let signed ← signInput node input
    let inputs ← signInputsFrom inputs
    pure ((signed, value) :: inputs)

def signInputs : Building ω Unit := do
  let state ← Program.get
  let inputs ← signInputsFrom node state.inputs
  Program.modify fun state => { state with inputs }

def transaction (state : Builder ω) : Transaction where
  segwit := state.segwit
  inputs := state.inputs.map Prod.fst
  outputs := state.outputs

/-- What goes wrong is reported in the outcome. -/
def finalize : Building ω (BuildResult × SendOutcome) :=
  Program.catching (do
    signInputs node
    let transaction ← look fun state => .ok state.transaction
    match node.transactionID transaction with
    | none => failed .unspecifiedError
    | some txid =>
      Program.require (node.serializeTransaction transaction) (.failed { result := .serializationError })
      Program.require (node.serializeProposal proposal) (.failed { result := .serializationError })
      let saved ← ask (node.finalizeProposal transaction)
      Program.require saved (.failed { result := .databaseError })
      let sent ← ask (node.broadcastTransaction transaction)
      Program.require sent (.failed { result := .sendFailed, txid := some txid })
      tell (node.addNotification txid)
      pure (.success, { result := .sent, txid := some txid })) fun stop =>
    match stop with
    | .failed outcome => pure (.permanentFailure, outcome)
    | other => Program.throw other

/-! ## Funding -/

def spendPolicy : Wallet.Types.SpendPolicy where
  unconfirmedIncoming := proposal.spendUnconfirmedIncoming
  unconfirmedChange := proposal.spendUnconfirmedChange

/-- Every round reserves an output, so that the outputs that are left bound the rounds. -/
def fund : (rounds : Nat) → Building ω Unit
  | 0 => Program.throw .terminate
  | rounds + 1 => do
    let funded ← look (isFunded node)
    Program.onlyIf (funded = false) do
      let (utxo, haveMore) ← ask (node.reserveUTXO (spendPolicy proposal))
      match utxo with
      | none => failed (if haveMore then .insufficientConfirmedFunds else .insufficientFunds)
      | some utxo =>
        let added ← addInput utxo
        Program.require added (.failed { result := .inputCreationError })
        fund rounds

def prepareOutputs : Building ω Unit := do
  let created ← createOutputs proposal
  Program.require created (.failed { result := .outputCreationError })
  let dust ← look fun _ => dust node
  let notified ← createNotifications node proposal ((2 * dust) % 2 ^ 64)
  Program.require notified (.failed { result := .outputCreationError })
  let changed ← addChange node
  Program.require changed (.failed { result := .changeError })

/-- What the normal transaction needs before it can be signed. -/
def prepareNormal : Building ω Unit := do
  prepareOutputs node proposal
  let state ← Program.get
  fund node proposal (node.unreserved state.world + 1)
  let funded ← look (isFunded node)
  assertTrue funded
  finalizeOutputs node

def hasNotification : Bool := !proposal.notifications.isEmpty

def hasOutput : Bool := !proposal.addressRecipients.isEmpty

def sweepSource : Except Stop Source :=
  match proposal.policy with
  | .sweepAccount => .ok .account
  | .sweepSubaccount => .ok (.subaccount proposal.sweepSubaccount)
  | .sweepKey => .ok (.key proposal.sweepKey)
  | .default => .error .terminate

def sweepCandidates (source : Source) (state : Builder ω) : List Wallet.Types.Outpoint :=
  let confirmed := node.getOutputs source .confirmedNew state.world
  if confirmed ≠ [] then confirmed
  else if proposal.spendUnconfirmedIncoming then node.getOutputs source .unconfirmedNew state.world
  else confirmed

def addSweepInput (outpoint : Wallet.Types.Outpoint) : Building ω Unit := do
  match ← ask (node.reserveOutpoint outpoint) with
  | none => pure ()
  | some utxo =>
    let added ← addInput utxo
    Program.require added (.failed { result := .inputCreationError })

def addSweepInputs : Building ω Unit := do
  let source ← look fun _ => sweepSource proposal
  let utxos ← look fun state => .ok (sweepCandidates node proposal source state)
  Program.forEach (addSweepInput node) utxos
  let state ← Program.get
  Program.require (!state.inputs.isEmpty && state.inputValue ≠ 0) (.failed { result := .insufficientFunds })

def sweepToNotifications : Building ω Unit := do
  assertTrue (!hasOutput proposal)
  let notified ← createNotifications node proposal 0
  Program.require notified (.failed { result := .outputCreationError })
  let funded ← look (isFunded node)
  Program.require funded (.failed { result := .insufficientFunds })
  finalizeOutputs node

def createSweepOutput : Building ω Unit :=
  if hasOutput proposal then do
    let created ← createOutputs proposal
    Program.require created (.failed { result := .outputCreationError })
  else do
    let changed ← addChange node
    Program.require changed (.failed { result := .changeError })
    Program.modify fun state => { state with outputs := state.outputs ++ state.change, change := [] }

def sweepToOutput : Building ω Unit := do
  createSweepOutput node proposal
  let amount ← look (excessValue node)
  let dust ← look fun _ => dust node
  Program.require (ofUnsigned dust ≤ amount) (.failed { result := .insufficientFunds })
  let state ← Program.get
  assertTrue (state.outputs.length = 1)
  let outputs := state.outputs.map (TransactionOutput.setValue amount)
  let outputValue ← look fun state => checked .terminate (state.outputValue + amount)
  Program.modify fun state => { state with outputs, outputValue }

/-- What the transaction that empties a source needs before it can be signed. -/
def prepareSweep : Building ω Unit := do
  addSweepInputs node proposal
  if hasNotification proposal then sweepToNotifications node proposal else sweepToOutput node proposal

/-- What is done before the signatures. -/
def prepare : Building ω Unit :=
  if proposal.policy = .default then prepareNormal node proposal else prepareSweep node proposal

/-! ## Building -/

/-- When the function returns a failure of its own, the keys are released. What `finalize` returns is
passed on, and the guard does not see whether it failed. -/
def guarded (body : Building ω (BuildResult × SendOutcome)) : Building ω BuildResult :=
  Program.catching (do
    let (result, outcome) ← body
    fulfil outcome
    pure result) fun stop =>
    match stop with
    | .failed outcome => do
      releaseKeys node
      fulfil outcome
      pure .permanentFailure
    | other => Program.throw other

def buildNormalTransaction : Building ω BuildResult := guarded node do
  prepareNormal node proposal
  finalize node proposal

def buildSweepTransaction : Building ω BuildResult := guarded node do
  prepareSweep node proposal
  finalize node proposal

def new (world : ω) : Builder ω :=
  { world, outgoingKeys := proposal.paymentCodeRecipients.map PaymentCodeRecipient.keyID }

def build : Building ω BuildResult := do
  let existing ← caught (addExistingInputs node)
  if existing = false then
    fulfil { result := .inputCreationError }
    pure .permanentFailure
  else if proposal.policy = .default then buildNormalTransaction node proposal
  else buildSweepTransaction node proposal

end Builder

end Opentxs.Spend
