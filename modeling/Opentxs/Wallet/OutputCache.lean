import Opentxs.Wallet.Storage

/-! The cache of the wallet's outputs. Every change is made to the open transaction first and
then in memory; loading adds the rows of the tables to what is in memory. -/

namespace Opentxs.Wallet.OutputCache
open Library HeaderOracle BlockHeader Types Storage

/-! ## Loading -/

/-- A new entry comes last among those of its height. -/
def emplaceGeneration (height : Int) (outpoint : Outpoint) : List (Int × Outpoint) → List (Int × Outpoint)
  | [] => [(height, outpoint)]
  | entry :: entries =>
    if height < entry.1 then (height, outpoint) :: entry :: entries
    else entry :: emplaceGeneration height outpoint entries

def mergeIndexes (memory rows : Indexes) : Indexes where
  accounts := memory.accounts ∪ rows.accounts
  keys := memory.keys ∪ rows.keys
  nyms := memory.nyms ∪ rows.nyms
  positions := memory.positions ∪ rows.positions
  states := memory.states ∪ rows.states
  subchains := memory.subchains ∪ rows.subchains

def generationRows (generation : Index Int) : List (Int × Outpoint) :=
  (SortedList.ordered (generation.map ⟨toLex, toLex.injective⟩)).map ofLex

def populate (tables : Tables) (cache : OutputCache) : OutputCache :=
  if cache.populated then cache
  else
    { position := tables.position.or cache.position
      outputs := fun outpoint => (cache.outputs outpoint).or (tables.outputs outpoint)
      indexes := mergeIndexes cache.indexes tables.indexes
      generationOutputs := (generationRows tables.generation).foldl
        (fun entries row => emplaceGeneration row.1 row.2 entries) cache.generationOutputs
      outputToProposal := fun outpoint => cache.outputToProposal outpoint ++ (tables.outputProposal outpoint).toList
      createdByProposal := cache.createdByProposal ∪ tables.proposalCreated
      consumedByProposal := cache.consumedByProposal ∪ tables.proposalSpent
      populated := true }

/-- The generation outputs and the outputs of proposals stay. -/
def clear (cache : OutputCache) : OutputCache :=
  { cache with
    position := none
    outputs := fun _ => none
    indexes := {}
    populated := false }

/-! ## Reading -/

def outputExists (cache : OutputCache) (id : Outpoint) : Bool := (cache.outputs id).isSome

def getState (cache : OutputCache) (state : TxoState) : Finset Outpoint := Index.rows cache.indexes.states state

/-- `exception` when the output is not there. -/
def getOutput (cache : OutputCache) (id : Outpoint) : Except Fault Output :=
  match cache.outputs id with
  | some output => if output.keys = [] then .error .terminate else .ok output
  | none => .error .exception

def getPosition (cache : OutputCache) : Position := cache.position.getD {}

def getMatured (cache : OutputCache) (first last : Int) : List Outpoint :=
  (cache.generationOutputs.filter fun entry => first ≤ entry.1 ∧ entry.1 ≤ last).map Prod.snd

def getReserved (cache : OutputCache) : Finset Outpoint := cache.consumedByProposal.image Prod.snd

def getNyms (cache : OutputCache) : Finset Nym := cache.indexes.nyms.image Prod.fst

inductive ProposalAssociation
  | none
  | created
  | consumed
  deriving DecidableEq

def getAssociation (cache : OutputCache) (proposal : ProposalID) (output : Outpoint) : Except Fault ProposalAssociation :=
  match decide ((proposal, output) ∈ cache.consumedByProposal), decide ((proposal, output) ∈ cache.createdByProposal) with
  | false, false => .ok .none
  | true, false => .ok .consumed
  | false, true => .ok .created
  | true, true => .error .terminate

def isFinished (cache : OutputCache) (proposal : ProposalID) : Bool :=
  Index.rows cache.consumedByProposal proposal = ∅ ∧ Index.rows cache.createdByProposal proposal = ∅

def checkProposals (cache : OutputCache) (proposals : Finset ProposalID) : List ProposalID :=
  (SortedList.ordered proposals).filter (isFinished cache)

/-! ## Outputs -/

/-- A key is indexed in memory as soon as its row is written. -/
def writeKeys (id : Outpoint) : List Key → Writing Bool
  | [] => pure true
  | key :: keys => do
    let rc ← storeIndex fun indexes => { indexes with keys := insert (key, id) indexes.keys }
    if rc then
      changeIndexes fun indexes => { indexes with keys := insert (key, id) indexes.keys }
      writeKeys id keys
    else pure false

def writeOutput (id : Outpoint) (output : Output) : Writing Bool := do
  let rc ← writeKeys id output.keys
  if rc && output.isValid then store fun tables => { tables with outputs := Function.update tables.outputs id (some output) }
  else pure false

def addToIndex (id : Outpoint) (change : Indexes → Indexes) : Writing Bool := do
  let cache ← readCache
  assertTrue (outputExists cache id)
  let rc ← storeIndex change
  Program.onlyIf rc (changeIndexes change)
  pure rc

def addToState (state : TxoState) (id : Outpoint) : Writing Bool :=
  addToIndex id fun indexes => { indexes with states := insert (state, id) indexes.states }

def addToPosition (position : Position) (id : Outpoint) : Writing Bool :=
  addToIndex id fun indexes => { indexes with positions := insert (position, id) indexes.positions }

def addToAccount (account : AccountID) (id : Outpoint) : Writing Bool :=
  addToIndex id fun indexes => { indexes with accounts := insert (account, id) indexes.accounts }

def addToSubchain (subchain : SubchainID) (id : Outpoint) : Writing Bool :=
  addToIndex id fun indexes => { indexes with subchains := insert (subchain, id) indexes.subchains }

def addToNym (nym : Nym) (id : Outpoint) : Writing Unit := do
  let cache ← readCache
  require (outputExists cache id)
  let rc ← storeIndex fun indexes => { indexes with nyms := insert (nym, id) indexes.nyms }
  require rc
  changeIndexes fun indexes => { indexes with nyms := insert (nym, id) indexes.nyms }

def setOutput (id : Outpoint) (output : Output) : Writing Unit :=
  changeCache fun cache => { cache with outputs := Function.update cache.outputs id (some output) }

/-- An output that is already in memory is not replaced. -/
def emplaceOutput (id : Outpoint) (output : Output) : Writing Unit :=
  changeCache fun cache =>
    { cache with outputs := Function.update cache.outputs id (some ((cache.outputs id).getD output)) }

def addOutput (id : Outpoint) (state : TxoState) (position : Position) (account : AccountID) (subchain : SubchainID)
    (output : Output) : Writing Bool := do
  let written ← writeOutput id output
  if written then
    emplaceOutput id output
    let inState ← addToState state id
    let inPosition ← addToPosition position id
    let inAccount ← addToAccount account id
    let inSubchain ← addToSubchain subchain id
    pure (inState && inPosition && inAccount && inSubchain)
  else pure false

def updateOutput (id : Outpoint) (output : Output) : Writing Bool := writeOutput id output

def addGenerationOutput (height : Int) (output : Outpoint) : Writing Unit := do
  let rc ← store fun tables => { tables with generation := insert (height, output) tables.generation }
  require rc
  changeCache fun cache => { cache with generationOutputs := emplaceGeneration height output cache.generationOutputs }

/-- The old row is looked for in the tables as they were last committed, and only by its
position: when no output had that position then, the row stays. -/
def removePosition (oldPosition : Position) (id : Outpoint) : Writing Bool := do
  let session ← Program.get
  if Index.rows session.committed.indexes.positions oldPosition = ∅ then pure true
  else
    delete (fun tables => (oldPosition, id) ∈ tables.indexes.positions) fun tables =>
      { tables with indexes := { tables.indexes with positions := tables.indexes.positions.erase (oldPosition, id) } }

def changePosition (oldPosition newPosition : Position) (id : Outpoint) : Writing Bool := do
  let removed ← removePosition oldPosition id
  if removed then
    let rc ← storeIndex fun indexes => { indexes with positions := insert (newPosition, id) indexes.positions }
    Program.onlyIf rc (changeIndexes fun indexes =>
      { indexes with positions := insert (newPosition, id) (indexes.positions.erase (oldPosition, id)) })
    pure rc
  else pure false

/-- An output is taken out of the index of every state. -/
def eraseStates (id : Outpoint) (states : Index TxoState) : Index TxoState :=
  states.filter fun row => ¬ (row.1 ∈ allStates ∧ row.2 = id)

def changeState (newState : TxoState) (id : Outpoint) : Writing Bool := do
  changeTables fun tables =>
    { tables with indexes := { tables.indexes with states := eraseStates id tables.indexes.states } }
  let rc ← storeIndex fun indexes => { indexes with states := insert (newState, id) indexes.states }
  Program.onlyIf rc (changeIndexes fun indexes =>
    { indexes with states := insert (newState, id) (eraseStates id indexes.states) })
  pure rc

def updatePosition (position : Position) : Writing Bool := do
  let rc ← store fun tables => { tables with position := some position }
  Program.onlyIf rc (changeCache fun cache => { cache with position := some position })
  pure rc

/-! ## Generation outputs -/

/-- A row of the table is deleted with every other row of its height. -/
def deleteGeneration : List (Int × Outpoint) → Writing Unit
  | [] => pure ()
  | entry :: entries => do
    let rc ← delete (fun tables => decide (∃ row ∈ tables.generation, row.1 = entry.1)) fun tables =>
      { tables with generation := tables.generation.filter fun row => row.1 ≠ entry.1 }
    require rc
    deleteGeneration entries

/-- From the entries from a height on, all but one that stands at the height itself. -/
def generationAbove (good : Int) (entries : List (Int × Outpoint)) : List (Int × Outpoint) :=
  match entries.dropWhile fun entry => entry.1 < good with
  | [] => []
  | entry :: entries => if entry.1 = good then entries else entry :: entries

def deleteGenerationAbove (good : Int) : Writing (Finset Outpoint) := do
  let cache ← readCache
  let above := generationAbove good cache.generationOutputs
  deleteGeneration above
  changeCache fun cache =>
    { cache with generationOutputs := cache.generationOutputs.take (cache.generationOutputs.length - above.length) }
  pure (above.map Prod.snd).toFinset

/-! ## Proposals -/

inductive Kind
  | create
  | consume
  deriving DecidableEq

/-- Only an output that its first proposal created can be associated again, to be consumed. -/
def mayAssociate (cache : OutputCache) (output : Outpoint) (kind : Kind) : Bool :=
  match cache.outputToProposal output with
  | [] => true
  | other :: _ => kind = .consume ∧ (other, output) ∈ cache.createdByProposal

/-- The row of an earlier proposal is overwritten. -/
def associateProposal (output : Outpoint) (proposal : ProposalID) (kind : Kind) : Writing Unit := do
  let cache ← readCache
  require (mayAssociate cache output kind)
  let rc ← store fun tables => { tables with outputProposal := Function.update tables.outputProposal output (some proposal) }
  require rc
  changeCache fun cache =>
    { cache with
      outputToProposal := Function.update cache.outputToProposal output (cache.outputToProposal output ++ [proposal]) }

def consumeOutput (proposal : ProposalID) (output : Outpoint) : Writing Unit := do
  let cache ← readCache
  require ((proposal, output) ∉ cache.consumedByProposal)
  let rc ← store fun tables => { tables with proposalSpent := insert (proposal, output) tables.proposalSpent }
  require rc
  changeCache fun cache => { cache with consumedByProposal := insert (proposal, output) cache.consumedByProposal }
  associateProposal output proposal .consume

def createOutput (proposal : ProposalID) (output : Outpoint) : Writing Unit := do
  let cache ← readCache
  require ((proposal, output) ∉ cache.createdByProposal)
  let rc ← store fun tables => { tables with proposalCreated := insert (proposal, output) tables.proposalCreated }
  require rc
  changeCache fun cache => { cache with createdByProposal := insert (proposal, output) cache.createdByProposal }
  associateProposal output proposal .create

/-- Whatever proposals an output has, it loses all of them. -/
def dissociateProposal (output : Outpoint) (proposal : ProposalID) : Writing Unit := do
  let cache ← readCache
  require ((cache.outputToProposal output).head? = some proposal)
  let rc ← delete (fun tables => (tables.outputProposal output).isSome) fun tables =>
    { tables with outputProposal := Function.update tables.outputProposal output none }
  require rc
  changeCache fun cache => { cache with outputToProposal := Function.update cache.outputToProposal output [] }

def deleteCreated (proposal : ProposalID) (output : Outpoint) : Writing Bool :=
  delete (fun tables => (proposal, output) ∈ tables.proposalCreated) fun tables =>
    { tables with proposalCreated := tables.proposalCreated.erase (proposal, output) }

def deleteSpent (proposal : ProposalID) (output : Outpoint) : Writing Bool :=
  delete (fun tables => (proposal, output) ∈ tables.proposalSpent) fun tables =>
    { tables with proposalSpent := tables.proposalSpent.erase (proposal, output) }

def proposalConfirmCreated (proposal : ProposalID) (output : Outpoint) : Writing Unit := do
  let cache ← readCache
  require ((proposal, output) ∈ cache.createdByProposal)
  let rc ← deleteCreated proposal output
  require rc
  dissociateProposal output proposal
  changeCache fun cache => { cache with createdByProposal := cache.createdByProposal.erase (proposal, output) }

def proposalConfirmConsumed (proposal : ProposalID) (output : Outpoint) : Writing Unit := do
  let cache ← readCache
  require ((proposal, output) ∈ cache.consumedByProposal)
  let rc ← deleteSpent proposal output
  require rc
  dissociateProposal output proposal
  changeCache fun cache => { cache with consumedByProposal := cache.consumedByProposal.erase (proposal, output) }

def purgeCreated (proposal : ProposalID) (output : Outpoint) : Writing Unit := do
  let rc ← deleteCreated proposal output
  require rc
  dissociateProposal output proposal
  changeCache fun cache => { cache with createdByProposal := cache.createdByProposal.erase (proposal, output) }

def purgeConsumed (proposal : ProposalID) (output : Outpoint) : Writing Unit := do
  let rc ← deleteSpent proposal output
  require rc
  dissociateProposal output proposal
  changeCache fun cache => { cache with consumedByProposal := cache.consumedByProposal.erase (proposal, output) }

def finishProposal (proposal : ProposalID) : Writing Unit := do
  let cache ← readCache
  Program.forEach (purgeCreated proposal) (SortedList.ordered (Index.rows cache.createdByProposal proposal))
  Program.forEach (purgeConsumed proposal) (SortedList.ordered (Index.rows cache.consumedByProposal proposal))

/-- A reserved output cannot be released: the test is the wrong way round. -/
def release (output : Outpoint) (proposal : ProposalID) : Writing Unit := do
  let cache ← readCache
  require ((proposal, output) ∉ cache.consumedByProposal)
  let rc ← deleteSpent proposal output
  require rc
  dissociateProposal output proposal

end Opentxs.Wallet.OutputCache
