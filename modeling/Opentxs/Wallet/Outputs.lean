import Mathlib.Algebra.BigOperators.Group.Finset.Basic
import Opentxs.Wallet.Parsing

/-! The operations on the wallet's outputs. Each opens a write transaction over the tables,
changes the cache along with it, and when it fails clears the cache. -/

namespace Opentxs.Wallet.Outputs
open Library Library.Ordered HeaderOracle BlockHeader Types Storage OutputCache Parsing

/-! ## States -/

/-- An unconfirmed output keeps the position it has. -/
def effectivePosition (state : TxoState) (oldPosition newPosition : Position) : Position :=
  match state with
  | .unconfirmedNew => oldPosition
  | .unconfirmedSpend => oldPosition
  | _ => newPosition

def changeTxoState (id : Outpoint) (newPosition : Position) (newState : TxoState) : Writing Unit := do
  let cache ← readCache
  let output ← Program.lift (getOutput cache id)
  let effective := effectivePosition newState output.minedPosition newPosition
  Program.onlyIf (newState ≠ output.state) (do
    let rc ← changeState newState id
    require rc
    setOutput id { output with state := newState })
  Program.onlyIf (effective ≠ output.minedPosition) (do
    let rc ← changePosition output.minedPosition effective id
    require rc
    setOutput id { output with state := newState, minedPosition := effective })
  let updated ← updateOutput id { output with state := newState, minedPosition := effective }
  require updated

def createState (account : AccountID) (subchain : SubchainID) (id : Outpoint) (position : Position) (output : Output)
    (isGeneration : Bool) (state : TxoState) : Writing Unit := do
  let cache ← readCache
  require (outputExists cache id = false)
  require (output.keys ≠ [])
  let effective := effectivePosition state {} position
  let tag := if isGeneration then TxoTag.generation else TxoTag.normal
  let rc ← addOutput id state effective account subchain
    { output with state, minedPosition := effective, tags := insert tag output.tags }
  require rc
  Program.onlyIf isGeneration (addGenerationOutput effective.height id)

/-! ## Proposals -/

def confirmProposal (output : Outpoint) (proposal : ProposalID) : Writing Unit := do
  let cache ← readCache
  match ← Program.lift (getAssociation cache proposal output) with
  | .created => proposalConfirmCreated proposal output
  | .consumed => proposalConfirmConsumed proposal output
  | .none => exception

def checkOutputProposals (outpoint : Outpoint) (proposals : Finset ProposalID) (mempool : Bool) : Writing Unit :=
  if mempool then pure () else Program.forEach (confirmProposal outpoint) (SortedList.ordered proposals)

/-- Deletes the row of a proposal, unless that was done before. -/
def cancel (id : ProposalID) : Writing Bool := do
  let session ← Program.get
  if id ∈ session.proposalData.cancelled then pure true
  else
    let deleted ← delete (fun tables => (tables.proposals id).isSome) fun tables =>
      { tables with proposals := Function.update tables.proposals id none }
    if deleted = false ∧ (session.committed.proposals id).isSome then pure false
    else
      Program.modify fun session =>
        { session with proposalData := { session.proposalData with cancelled := insert id session.proposalData.cancelled } }
      pure true

def finishStoredProposal (id : ProposalID) : Writing Unit := do
  let rc ← cancel id
  Program.modify fun session =>
    { session with proposalData := { session.proposalData with finished := insert id session.proposalData.finished } }
  require rc

/-! ## Adding transactions -/

def indexKeys (environment : Environment) (outpoint : Outpoint) : List Key → Writing Unit
  | [key] =>
    if key.subchain = .outgoing then pure ()
    else
      match environment.owner key with
      | some owner => addToNym owner outpoint
      | none => exception
  | _ => exception

/-- Every output that is created here is stored as one of a generation transaction. -/
def processCreate (environment : Environment) (account : AccountID) (subchain : SubchainID) (block : Position)
    (id : Outpoint) (data : Modification) (mempool : Bool) : Writing Unit := do
  match data.output with
  | none => exception
  | some output =>
    Program.onlyIf data.createsGeneration (require (data.proposals = ∅))
    Program.onlyIf (data.createsGeneration = false) (checkOutputProposals id data.proposals mempool)
    createState account subchain id block output true data.finalState
    indexKeys environment id output.keys

def processModify (block : Position) (id : Outpoint) (data : Modification) (mempool : Bool) : Writing Unit := do
  checkOutputProposals id data.proposals mempool
  changeTxoState id block data.finalState

def process (environment : Environment) (account : AccountID) (subchain : SubchainID) (block : Position)
    (mempool : Bool) (entry : Outpoint × Modification) : Writing Unit :=
  if entry.2.initialState.isSome then processModify block entry.1 entry.2 mempool
  else processCreate environment account subchain block entry.1 entry.2 mempool

def addTransactionsInBlock (environment : Environment) (account : AccountID) (subchain : SubchainID) (mempool : Bool)
    (entry : Position × BlockMatches) : Writing Unit := do
  let cache ← readCache
  let parsed ← Program.lift (parse cache entry.1 entry.2 mempool environment.maturationTarget)
  Program.forEach (process environment account subchain entry.1 mempool) parsed.transaction.entries
  if mempool then pure ()
  else
    let cache ← readCache
    Program.forEach finishStoredProposal (checkProposals cache parsed.proposals)

def commit : Writing Unit := do
  let rc ← nextWrite
  require rc
  Program.modify fun session => { session with committed := session.tables }

/-- The tables are committed before the transactions are processed elsewhere. -/
def addTransactions (environment : Environment) (account : AccountID) (subchain : SubchainID) (mempool : Bool)
    (transactions : BatchedMatches) (processTransactions : Bool) : Writing Unit := do
  Program.forEach (addTransactionsInBlock environment account subchain mempool) transactions
  commit
  require processTransactions

/-! ## Advancing -/

def mature (position : Position) (outpoint : Outpoint) : Writing Unit := do
  let cache ← readCache
  let output ← Program.lift (getOutput cache outpoint)
  if output.state = .confirmedNew then pure ()
  else changeTxoState outpoint position .confirmedNew

/-- Whatever stands in the generation index at a height that has become mature is set to
`ConfirmedNew`. -/
def advanceTo (environment : Environment) (position : Position) : Writing Unit := do
  let cache ← readCache
  let current := getPosition cache
  if position = current ∨ position.height < current.height then pure ()
  else
    assertTrue (position.height > current.height)
    let firstMatureHeight := current.height - environment.maturationTarget
    let lastMatureHeight := position.height - environment.maturationTarget
    if 0 > lastMatureHeight then pure ()
    else
      Program.forEach (mature position) (getMatured cache (max 0 firstMatureHeight) lastMatureHeight)
      let rc ← updatePosition position
      require rc
      commit

/-! ## Proposals of the wallet -/

def cancelProposal (id : ProposalID) : Writing Unit := do
  finishProposal id
  let rc ← cancel id
  require rc
  commit

def getInputs (transaction : Transaction) : Finset Outpoint := transaction.previousOutputs.toFinset

/-- The outputs that belong to the wallet. -/
def getOutputs (transaction : Transaction) : Finset Outpoint :=
  ((transaction.outputs.zipIdx.filter fun item => item.1.keys ≠ []).map fun item =>
    (⟨transaction.id, item.2⟩ : Outpoint)).toFinset

def releaseUnusedInputs (proposal : ProposalID) (consumed : Finset Outpoint) : Writing Unit := do
  let cache ← readCache
  let reserved := Index.rows cache.consumedByProposal proposal
  require (consumed ⊆ reserved)
  Program.forEach (fun id => release id proposal) (SortedList.ordered (reserved \ consumed))

def validateInputs (consumed : Finset Outpoint) : Writing Unit := do
  let cache ← readCache
  require (consumed ⊆ getState cache .confirmedNew ∪ getState cache .unconfirmedNew)

/-- A created output may be stored only as an orphan. -/
def validateOutput (cache : OutputCache) (id : Outpoint) : Bool :=
  cache.outputToProposal id = [] ∧ (outputExists cache id = false ∨ id ∈ getState cache .orphanedNew)

def validateOutputs (created : Finset Outpoint) : Writing Unit := do
  let cache ← readCache
  require (∀ id ∈ created, validateOutput cache id = true)

def setOutputState (environment : Environment) (proposal : ProposalID) (transaction : Transaction) (id : Outpoint) :
    Writing Unit := do
  createOutput proposal id
  let cache ← readCache
  if outputExists cache id then changeTxoState id {} .unconfirmedNew
  else
    match transaction.outputs[id.index]? with
    | none => Program.throw .terminate
    | some output =>
      match output.keys with
      | [key] =>
        createState key.account (environment.subchainID key.account key.subchain) id {} output false .unconfirmedNew
        indexKeys environment id [key]
      | _ => exception

def withProposal (id : ProposalID) (content : Content) (tables : Tables) : Tables :=
  { tables with proposals := Function.update tables.proposals id (some content) }

/-- The proposal is stored by a write of its own that is committed at once. -/
def addProposal (id : ProposalID) (content : Content) : Writing Unit := do
  let rc ← nextWrite
  require rc
  Program.modify fun session =>
    { session with
      committed := withProposal id content session.committed
      tables := withProposal id content session.tables }

def finalizeProposal (environment : Environment) (id : ProposalID) (content : Content) (transaction : Transaction)
    (processTransactions : Bool) : Writing Unit := do
  assertTrue (transaction.isGeneration = false)
  addProposal id content
  let consumed := getInputs transaction
  releaseUnusedInputs id consumed
  validateInputs consumed
  let created := getOutputs transaction
  validateOutputs created
  Program.forEach (fun outpoint => changeTxoState outpoint {} .unconfirmedSpend) (SortedList.ordered consumed)
  Program.forEach (setOutputState environment id transaction) (SortedList.ordered created)
  require processTransactions
  commit

/-! ## Reserving -/

/-- By position, and by outpoint among those of one position. -/
def sortFifo (cache : OutputCache) (outpoints : Finset Outpoint) : List Outpoint :=
  ((SortedList.ordered (outpoints.image fun id =>
    toLex (((cache.outputs id).map Output.minedPosition).getD {}, id))).map fun item => (ofLex item).2)

def pickOne (cache : OutputCache) (spender : Nym) (candidates : Finset Outpoint) (required : Option TxoTag) :
    Option Outpoint :=
  (sortFifo cache ((candidates ∩ Index.rows cache.indexes.nyms spender) \ getReserved cache)).find? fun id =>
    match required with
    | some tag => match cache.outputs id with
      | some output => tag ∈ output.tags
      | none => false
    | none => true

def choose (proposal : ProposalID) (outpoint : Outpoint) : Writing (Outpoint × Output) := do
  let cache ← readCache
  let existing ← Program.lift (getOutput cache outpoint)
  consumeOutput proposal outpoint
  pure (outpoint, existing)

/-- Unconfirmed outputs are taken only when no confirmed one is left and the policy permits. -/
def selectOutput (cache : OutputCache) (spender : Nym) (policy : SpendPolicy) : Option Outpoint :=
  match pickOne cache spender (getState cache .confirmedNew) none with
  | some outpoint => some outpoint
  | none =>
    if policy.unconfirmedIncoming then pickOne cache spender (getState cache .unconfirmedNew) none
    else if policy.unconfirmedChange then pickOne cache spender (getState cache .unconfirmedNew) (some .change)
    else none

def reserveUTXO (spender : Nym) (proposal : ProposalID) (policy : SpendPolicy) : Writing (Outpoint × Output) := do
  let cache ← readCache
  match selectOutput cache spender policy with
  | some outpoint => do
    let utxo ← choose proposal outpoint
    commit
    pure utxo
  | none => exception

/-- The caller names the output; neither its state nor its owner is looked at. -/
def reserveOutpoint (proposal : ProposalID) (id : Outpoint) : Writing (Outpoint × Output) := do
  let utxo ← choose proposal id
  commit
  pure utxo

/-! ## Reorgs -/

def unconfirmedState : TxoState → Option TxoState
  | .confirmedNew => some .unconfirmedNew
  | .orphanedNew => some .unconfirmedNew
  | .confirmedSpend => some .unconfirmedSpend
  | .orphanedSpend => some .unconfirmedSpend
  | _ => none

def rollBack (position : Position) (id : Outpoint) : Writing Unit := do
  let cache ← readCache
  let output ← Program.lift (getOutput cache id)
  match unconfirmedState output.state with
  | some state => changeTxoState id position state
  | none => pure ()

def startReorg (entry : SubchainID × Position) : Writing Unit := do
  let cache ← readCache
  Program.forEach (rollBack entry.2) (SortedList.ordered
    (Index.rows cache.indexes.positions entry.2 ∩ Index.rows cache.indexes.subchains entry.1))

def finalizeReorg (position : Position) : Writing Unit := do
  let cache ← readCache
  Program.onlyIf (getPosition cache ≠ position) (do
    let outputs ← deleteGenerationAbove position.height
    Program.forEach (fun id => changeTxoState id position .orphanedNew) (SortedList.ordered outputs)
    let rc ← updatePosition position
    require rc)

/-- The transaction is the caller's, who may commit it or not. -/
def reorg (blocks : List (SubchainID × Position)) (ancestor : Position) (committed : Bool) : Writing Unit := do
  Program.forEach startReorg blocks
  finalizeReorg ancestor
  Program.onlyIf committed commit

/-! ## Balances -/

def valueOf (cache : OutputCache) (id : Outpoint) : Int := ((cache.outputs id).map Output.value).getD 0

structure Balance where
  confirmed : Int
  unconfirmed : Int
  deriving DecidableEq, Repr

def sumOf (cache : OutputCache) (belongs : Outpoint → Bool) (state : TxoState) : Int :=
  ∑ id ∈ (getState cache state).filter (fun id => belongs id), valueOf cache id

def balanceOf (cache : OutputCache) (belongs : Outpoint → Bool) : Balance :=
  let unconfirmedSpendTotal := sumOf cache belongs .unconfirmedSpend
  let confirmed := unconfirmedSpendTotal + sumOf cache belongs .confirmedNew
  { confirmed, unconfirmed := confirmed + sumOf cache belongs .unconfirmedNew - unconfirmedSpendTotal }

def getBalance (cache : OutputCache) : Balance := balanceOf cache fun _ => true

def getNymBalance (cache : OutputCache) (owner : Nym) : Balance :=
  balanceOf cache fun id => (owner, id) ∈ cache.indexes.nyms

/-! ## Runs -/

inductive Operation
  | addProposal (id : ProposalID) (content : Content)
  | addConfirmedTransactions (account : AccountID) (subchain : SubchainID) (transactions : BatchedMatches)
  | addMempoolTransaction (account : AccountID) (subchain : SubchainID) (item : MatchedTransaction)
  | advanceTo (position : Position)
  | cancelProposal (id : ProposalID)
  | finalizeProposal (id : ProposalID) (content : Content) (transaction : Transaction)
  | reserveUTXO (spender : Nym) (proposal : ProposalID) (policy : SpendPolicy)
  | reserveOutpoint (spender : Nym) (proposal : ProposalID) (id : Outpoint)
  | reorg (blocks : List (SubchainID × Position)) (ancestor : Position) (committed : Bool)

/-- An operation with what the rest of the program answers: which writes go through, and
whether the transactions could be processed. -/
structure Call where
  operation : Operation
  writes : List Bool := []
  processTransactions : Bool := true

def reserved (program : Writing (Outpoint × Output)) : Writing (Option (Outpoint × Output)) := do
  let utxo ← program
  pure (some utxo)

def unreserved (program : Writing Unit) : Writing (Option (Outpoint × Output)) := do
  program
  pure none

def body (environment : Environment) (call : Call) : Writing (Option (Outpoint × Output)) :=
  match call.operation with
  | .addProposal _ _ => pure none
  | .addConfirmedTransactions account subchain transactions =>
    unreserved (addTransactions environment account subchain false transactions call.processTransactions)
  | .addMempoolTransaction account subchain item =>
    unreserved (addTransactions environment account subchain true [({}, [item])] call.processTransactions)
  | .advanceTo position => unreserved (advanceTo environment position)
  | .cancelProposal id => unreserved (cancelProposal id)
  | .finalizeProposal id content transaction =>
    unreserved (finalizeProposal environment id content transaction call.processTransactions)
  | .reserveUTXO spender proposal policy => reserved (reserveUTXO spender proposal policy)
  | .reserveOutpoint _ proposal id => reserved (reserveOutpoint proposal id)
  | .reorg blocks ancestor committed => unreserved (reorg blocks ancestor committed)

structure Outcome where
  success : Bool
  reserved : Option (Outpoint × Output) := none
  db : Database

/-- The session of an operation starts on a cache that has been loaded. -/
def start (db : Database) (writes : List Bool) : Session where
  committed := db.tables
  tables := db.tables
  cache := populate db.tables db.cache
  proposalData := db.proposalData
  writes

/-- What was not committed is lost; when the operation fails the cache is cleared. -/
def execute (environment : Environment) (db : Database) (call : Call) : Except Fault Outcome :=
  match body environment call (start db call.writes) with
  | (.ok reserved, session) =>
    .ok { success := true, reserved,
          db := { tables := session.committed, cache := session.cache, proposalData := session.proposalData } }
  | (.error .exception, session) =>
    .ok { success := false,
          db := { tables := session.committed, cache := clear session.cache, proposalData := session.proposalData } }
  | (.error fault, _) => .error fault

/-- A proposal for which outputs are reserved has to be stored. -/
def proposalMissing (db : Database) : Operation → Bool
  | .reserveUTXO _ proposal _ => (db.tables.proposals proposal).isNone
  | .reserveOutpoint _ proposal _ => (db.tables.proposals proposal).isNone
  | _ => false

def perform (environment : Environment) (db : Database) (call : Call) : Except Fault Outcome :=
  match call.operation with
  | .addProposal id content =>
    -- a write of its own, beside the cache
    if call.writes.headD true then .ok { success := true, db := { db with tables := withProposal id content db.tables } }
    else .ok { success := false, db }
  | operation =>
    if proposalMissing db operation then .ok { success := false, db }
    else execute environment db call

def run (environment : Environment) (db : Database) : List Call → Except Fault Database
  | [] => .ok db
  | call :: calls => do
    let outcome ← perform environment db call
    run environment outcome.db calls

end Opentxs.Wallet.Outputs
