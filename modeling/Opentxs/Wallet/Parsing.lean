import Opentxs.Library.Ordered
import Opentxs.Wallet.OutputCache

/-! What the matches of a block mean for the wallet's outputs: which are created, which are
consumed, and from which state to which each of them goes. -/

namespace Opentxs.Wallet.Parsing
open Library Library.Ordered HeaderOracle BlockHeader Types Storage OutputCache

inductive Transition
  | null
  | allowed
  | disallowed
  | unnecessary
  deriving DecidableEq, Repr

/-- Only the final states that adding transactions can lead to are supported. -/
def checkTransition : (initialState finalState : TxoState) → Except Fault Transition
  | .error, _ => .error .exception
  | .unconfirmedSpend, .unconfirmedNew => .ok .unnecessary
  | .unconfirmedNew, .unconfirmedNew => .ok .unnecessary
  | _, .unconfirmedNew => .ok .disallowed
  | .unconfirmedNew, .unconfirmedSpend => .ok .allowed
  | .confirmedNew, .unconfirmedSpend => .ok .allowed
  | .immature, .unconfirmedSpend => .ok .allowed
  | .unconfirmedSpend, .unconfirmedSpend => .ok .unnecessary
  | _, .unconfirmedSpend => .ok .disallowed
  | .unconfirmedNew, .confirmedNew => .ok .allowed
  | .unconfirmedSpend, .confirmedNew => .ok .unnecessary
  | .confirmedSpend, .confirmedNew => .ok .unnecessary
  | .confirmedNew, .confirmedNew => .ok .unnecessary
  | _, .confirmedNew => .ok .disallowed
  | .unconfirmedNew, .confirmedSpend => .ok .allowed
  | .confirmedNew, .confirmedSpend => .ok .allowed
  | .unconfirmedSpend, .confirmedSpend => .ok .allowed
  | .immature, .confirmedSpend => .ok .allowed
  | .confirmedSpend, .confirmedSpend => .ok .unnecessary
  | _, .confirmedSpend => .ok .disallowed
  | .orphanedNew, .immature => .ok .allowed
  | .immature, .immature => .ok .unnecessary
  | _, .immature => .ok .disallowed
  | _, _ => .error .exception

structure Modification where
  finalState : TxoState
  initialState : Option TxoState := none
  output : Option Output := none
  proposals : Finset ProposalID := ∅

def Modification.createsGeneration (modification : Modification) : Bool := modification.finalState = .immature

structure ParsedBlockMatches where
  transaction : OrderedMap Outpoint Modification := OrderedMap.empty
  proposals : Finset ProposalID := ∅

/-! ## Scanning -/

structure Scanned where
  created : OrderedMap Outpoint Output := OrderedMap.empty
  consumed : Finset Outpoint := ∅
  generation : Finset Outpoint := ∅

def scanInputs (tx : Transaction) : List Nat → Scanned → Except Fault Scanned
  | [], scanned => .ok scanned
  | index :: inputs, scanned =>
    match tx.previousOutputs[index]? with
    | some outpoint => scanInputs tx inputs { scanned with consumed := insert outpoint scanned.consumed }
    | none => .error .terminate

def scanOutputs (tx : Transaction) : List Nat → Scanned → Except Fault Scanned
  | [], scanned => .ok scanned
  | index :: outputs, scanned =>
    match tx.outputs[index]? with
    | some output =>
      if output.isValid then
        scanOutputs tx outputs
          { scanned with
            created := scanned.created.assign ⟨tx.id, index⟩ output
            generation := if tx.isGeneration then insert ⟨tx.id, index⟩ scanned.generation else scanned.generation }
      else .error .exception
    | none => .error .terminate

def scanTransactions : BlockMatches → Scanned → Except Fault Scanned
  | [], scanned => .ok scanned
  | item :: items, scanned => do
    let scanned ← scanInputs item.transaction item.inputs scanned
    let scanned ← scanOutputs item.transaction item.outputs scanned
    scanTransactions items scanned

/-! ## Parsing -/

def getProposals (cache : OutputCache) (mempool : Bool) (id : Outpoint) : Finset ProposalID :=
  if mempool then ∅ else (cache.outputToProposal id).toFinset

def initialState (cache : OutputCache) (id : Outpoint) (finalState : TxoState) :
    Except Fault (Option TxoState × Transition) :=
  if outputExists cache id then do
    let output ← getOutput cache id
    let transition ← checkTransition output.state finalState
    .ok (some output.state, transition)
  else .ok (none, .null)

/-- The state in which an output is created. -/
def createdState (block : Position) (generation : Finset Outpoint) (cache : OutputCache) (mempool : Bool)
    (target : Int) (id : Outpoint) : TxoState :=
  if id ∈ generation then
    if isMature block.height (getPosition cache).height target then .confirmedNew else .immature
  else if mempool then .unconfirmedNew
  else .confirmedNew

def consumedState (mempool : Bool) : TxoState := if mempool then .unconfirmedSpend else .confirmedSpend

def addModification (parsed : ParsedBlockMatches) (id : Outpoint) (modification : Modification) : ParsedBlockMatches where
  transaction := parsed.transaction.assign id modification
  proposals := parsed.proposals ∪ modification.proposals

def parseCreated (block : Position) (generation : Finset Outpoint) (cache : OutputCache) (mempool : Bool) (target : Int) :
    List (Outpoint × Output) → ParsedBlockMatches → Except Fault ParsedBlockMatches
  | [], parsed => .ok parsed
  | (id, output) :: created, parsed =>
    if (parsed.transaction.find? id).isSome then .error .exception
    else do
      let finalState := createdState block generation cache mempool target id
      let (initial, transition) ← initialState cache id finalState
      match transition with
      | .disallowed => .error .exception
      | .unnecessary => parseCreated block generation cache mempool target created parsed
      | _ =>
        parseCreated block generation cache mempool target created
          (addModification parsed id ⟨finalState, initial, some output, getProposals cache mempool id⟩)

def findOutput (parsed : ParsedBlockMatches) (cache : OutputCache) (items : BlockMatches) (id : Outpoint) :
    Except Fault Output :=
  if outputExists cache id then getOutput cache id
  else
    match parsed.transaction.find? id with
    | some modification =>
      match modification.output with
      | some output => .ok output
      | none => .error .terminate
    | none =>
      match items.find? fun item => item.transaction.id = id.txid with
      | some item =>
        match item.transaction.outputs[id.index]? with
        | some output => .ok output
        | none => .error .exception
      | none => .error .exception

/-- An output that the same block creates is consumed from the state of its creation. -/
def parseConsumed (cache : OutputCache) (items : BlockMatches) (mempool : Bool) :
    List Outpoint → ParsedBlockMatches → Except Fault ParsedBlockMatches
  | [], parsed => .ok parsed
  | id :: consumed, parsed =>
    let finalState := consumedState mempool
    match parsed.transaction.find? id with
    | some modification => do
      match ← checkTransition modification.finalState finalState with
      | .disallowed => .error .exception
      | .unnecessary => parseConsumed cache items mempool consumed parsed
      | _ =>
        parseConsumed cache items mempool consumed (addModification parsed id
          { modification with finalState, proposals := modification.proposals ∪ getProposals cache mempool id })
    | none => do
      let (initial, transition) ← initialState cache id finalState
      match transition with
      | .disallowed => .error .exception
      | .null => .error .exception
      | .unnecessary => parseConsumed cache items mempool consumed parsed
      | .allowed =>
        let spends ← findOutput parsed cache items id
        parseConsumed cache items mempool consumed
          (addModification parsed id ⟨finalState, initial, some spends, getProposals cache mempool id⟩)

def associateInput (output : Output) : Except Fault Unit :=
  if output.keys = [] then .error .terminate
  else if output.isValid then .ok ()
  else .error .exception

def associateInputs (parsed : ParsedBlockMatches) (cache : OutputCache) (items : BlockMatches) (tx : Transaction) :
    List Nat → Except Fault Unit
  | [] => .ok ()
  | index :: inputs =>
    match tx.previousOutputs[index]? with
    | some id => do
      let spends ← findOutput parsed cache items id
      associateInput spends
      associateInputs parsed cache items tx inputs
    | none => .error .terminate

def associateAll (parsed : ParsedBlockMatches) (cache : OutputCache) (items : BlockMatches) :
    BlockMatches → Except Fault Unit
  | [] => .ok ()
  | item :: rest => do
    associateInputs parsed cache items item.transaction item.inputs
    associateAll parsed cache items rest

def parse (cache : OutputCache) (block : Position) (items : BlockMatches) (mempool : Bool) (target : Int) :
    Except Fault ParsedBlockMatches := do
  let scanned ← scanTransactions items {}
  if mempool = true ∧ scanned.generation ≠ ∅ then .error .exception
  else do
    let parsed ← parseCreated block scanned.generation cache mempool target scanned.created.entries {}
    let parsed ← parseConsumed cache items mempool (SortedList.ordered scanned.consumed) parsed
    associateAll parsed cache items items
    .ok parsed

end Opentxs.Wallet.Parsing
