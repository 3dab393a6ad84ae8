import Opentxs.Wallet.Outputs

/-! What the parts of an operation leave as it is, also when they fail: the committed tables,
the generation outputs and the associations with proposals. -/

namespace Opentxs.Wallet.Isolation
open Library HeaderOracle BlockHeader Types Storage OutputCache Parsing Outputs

/-- Only outputs, their indexes and what is stored of proposals by themselves may change. -/
structure OnlyBooks (before after : Session) : Prop where
  committed : after.committed = before.committed
  generationOutputs : after.cache.generationOutputs = before.cache.generationOutputs
  outputToProposal : after.cache.outputToProposal = before.cache.outputToProposal
  created : after.cache.createdByProposal = before.cache.createdByProposal
  consumed : after.cache.consumedByProposal = before.cache.consumedByProposal
  generation : after.tables.generation = before.tables.generation
  outputProposal : after.tables.outputProposal = before.tables.outputProposal
  proposalCreated : after.tables.proposalCreated = before.tables.proposalCreated
  proposalSpent : after.tables.proposalSpent = before.tables.proposalSpent

/-- Associations may also be gone. -/
structure Fewer (before after : Session) : Prop where
  committed : after.committed = before.committed
  generationOutputs : after.cache.generationOutputs = before.cache.generationOutputs
  outputToProposal : ∀ id, after.cache.outputToProposal id = before.cache.outputToProposal id ∨
    after.cache.outputToProposal id = []
  created : after.cache.createdByProposal ⊆ before.cache.createdByProposal
  consumed : after.cache.consumedByProposal ⊆ before.cache.consumedByProposal
  generation : after.tables.generation = before.tables.generation
  outputProposal : ∀ id, after.tables.outputProposal id = before.tables.outputProposal id ∨
    after.tables.outputProposal id = none
  proposalCreated : after.tables.proposalCreated ⊆ before.tables.proposalCreated
  proposalSpent : after.tables.proposalSpent ⊆ before.tables.proposalSpent

/-- No output is consumed anew. -/
structure Unreserving (before after : Session) : Prop where
  committed : after.committed = before.committed
  consumed : after.cache.consumedByProposal ⊆ before.cache.consumedByProposal
  proposalSpent : after.tables.proposalSpent ⊆ before.tables.proposalSpent

/-- At most this output is consumed anew, by this proposal. -/
structure Reserving (proposal : ProposalID) (output : Outpoint) (before after : Session) : Prop where
  committed : after.committed = before.committed
  consumed : after.cache.consumedByProposal ⊆ insert (proposal, output) before.cache.consumedByProposal
  proposalSpent : after.tables.proposalSpent ⊆ insert (proposal, output) before.tables.proposalSpent

/-! The relations between sessions that allow each of these. -/

class Books (R : Session → Session → Prop) : Prop where
  books : ∀ before after, OnlyBooks before after → R before after
  trans : ∀ first second third, R first second → R second third → R first third

class Erases (R : Session → Session → Prop) : Prop extends Books R where
  erases : ∀ before after, Fewer before after → R before after

class Creates (R : Session → Session → Prop) : Prop extends Erases R where
  creates : ∀ before after, Unreserving before after → R before after

section Books

variable {R : Session → Session → Prop} [Books R] {α β : Type}

theorem onlyBooks {before after : Session} (same : OnlyBooks before after) : R before after := Books.books before after same

theorem same_relates (session : Session) : R session session := onlyBooks ⟨rfl, rfl, rfl, rfl, rfl, rfl, rfl, rfl, rfl⟩

theorem pure_relates (value : α) : Program.Relates R (pure value : Writing α) := .pure same_relates value

theorem throw_relates (fault : Fault) : Program.Relates R (Program.throw fault : Writing α) := .throw same_relates fault

theorem get_relates : Program.Relates R (Program.get : Writing Session) := .get same_relates

theorem lift_relates (value : Except Fault α) : Program.Relates R (Program.lift value : Writing α) := .lift same_relates value

theorem bind_relates {first : Writing α} {rest : α → Writing β} (before : Program.Relates R first)
    (after : ∀ value, Program.Relates R (rest value)) : Program.Relates R (first >>= rest) :=
  .bind Books.trans before after

theorem onlyIf_relates {condition : Prop} [Decidable condition] {program : Writing Unit}
    (inside : Program.Relates R program) : Program.Relates R (Program.onlyIf condition program) :=
  .onlyIf same_relates fun _ => inside

theorem forEach_relates {step : α → Writing Unit} (items : List α) (each : ∀ item, Program.Relates R (step item)) :
    Program.Relates R (Program.forEach step items) :=
  .forEach same_relates Books.trans items fun item _ => each item

omit [Books R] in
theorem ite_relates {condition : Prop} [Decidable condition] {first second : Writing α} (yes : Program.Relates R first)
    (no : Program.Relates R second) : Program.Relates R (if condition then first else second) := by
  split
  · exact yes
  · exact no

omit [Books R] in
theorem changeCache_relates {change : OutputCache → OutputCache}
    (changes : ∀ session : Session, R session { session with cache := change session.cache }) :
    Program.Relates R (changeCache change) := .modify changes

omit [Books R] in
theorem changeTables_relates {change : Tables → Tables}
    (changes : ∀ session : Session, R session { session with tables := change session.tables }) :
    Program.Relates R (changeTables change) := .modify changes

theorem exception_relates : Program.Relates R (exception : Writing α) := throw_relates _

theorem require_relates (condition : Bool) : Program.Relates R (Storage.require condition) :=
  .require same_relates condition _

theorem assertTrue_relates (condition : Bool) : Program.Relates R (assertTrue condition) :=
  .require same_relates condition _

theorem readCache_relates : Program.Relates R readCache := fun _ => onlyBooks ⟨rfl, rfl, rfl, rfl, rfl, rfl, rfl, rfl, rfl⟩

theorem nextWrite_relates : Program.Relates R nextWrite := fun _ => onlyBooks ⟨rfl, rfl, rfl, rfl, rfl, rfl, rfl, rfl, rfl⟩

theorem changeIndexes_relates (change : Indexes → Indexes) : Program.Relates R (changeIndexes change) :=
  changeCache_relates fun _ => onlyBooks ⟨rfl, rfl, rfl, rfl, rfl, rfl, rfl, rfl, rfl⟩

theorem store_relates {change : Tables → Tables}
    (changes : ∀ session : Session, R session { session with tables := change session.tables }) :
    Program.Relates R (store change) :=
  bind_relates nextWrite_relates fun _ =>
    bind_relates (onlyIf_relates (changeTables_relates changes)) fun _ => pure_relates _

theorem storeIndex_relates (change : Indexes → Indexes) : Program.Relates R (storeIndex change) :=
  store_relates fun _ => onlyBooks ⟨rfl, rfl, rfl, rfl, rfl, rfl, rfl, rfl, rfl⟩

theorem delete_relates {present : Tables → Bool} {change : Tables → Tables}
    (changes : ∀ session : Session, R session { session with tables := change session.tables }) :
    Program.Relates R (delete present change) :=
  bind_relates get_relates fun _ =>
    ite_relates (bind_relates (changeTables_relates changes) fun _ => pure_relates _) (pure_relates _)

theorem writeKeys_relates (id : Outpoint) (keys : List Key) : Program.Relates R (writeKeys id keys) := by
  induction keys with
  | nil => exact pure_relates true
  | cons key keys ih =>
    unfold writeKeys
    refine bind_relates (storeIndex_relates _) fun _ => ?_
    exact ite_relates (bind_relates (changeIndexes_relates _) fun _ => ih) (pure_relates _)

theorem writeOutput_relates (id : Outpoint) (output : Output) : Program.Relates R (writeOutput id output) :=
  bind_relates (writeKeys_relates id _) fun _ => ite_relates (store_relates (fun _ => onlyBooks ⟨rfl, rfl, rfl, rfl, rfl, rfl, rfl, rfl, rfl⟩)) (pure_relates _)

theorem addToIndex_relates (id : Outpoint) (change : Indexes → Indexes) : Program.Relates R (addToIndex id change) :=
  bind_relates readCache_relates fun _ => bind_relates (assertTrue_relates _) fun _ =>
    bind_relates (storeIndex_relates _) fun _ =>
      bind_relates (onlyIf_relates (changeIndexes_relates _)) fun _ => pure_relates _

theorem addToNym_relates (nym : Nym) (id : Outpoint) : Program.Relates R (addToNym nym id) :=
  bind_relates readCache_relates fun _ => bind_relates (require_relates _) fun _ =>
    bind_relates (storeIndex_relates _) fun _ => bind_relates (require_relates _) fun _ =>
      changeIndexes_relates _

theorem addOutput_relates (id : Outpoint) (state : TxoState) (position : Position) (account : AccountID)
    (subchain : SubchainID) (output : Output) : Program.Relates R (addOutput id state position account subchain output) := by
  refine bind_relates (writeOutput_relates id output) fun _ => ite_relates ?_ (pure_relates _)
  refine bind_relates (changeCache_relates (fun _ => onlyBooks ⟨rfl, rfl, rfl, rfl, rfl, rfl, rfl, rfl, rfl⟩)) fun _ => ?_
  refine bind_relates (addToIndex_relates _ _) fun _ => bind_relates (addToIndex_relates _ _) fun _ => ?_
  exact bind_relates (addToIndex_relates _ _) fun _ =>
    bind_relates (addToIndex_relates _ _) fun _ => pure_relates _

theorem removePosition_relates (position : Position) (id : Outpoint) : Program.Relates R (removePosition position id) :=
  bind_relates get_relates fun _ => ite_relates (pure_relates _) (delete_relates (fun _ => onlyBooks ⟨rfl, rfl, rfl, rfl, rfl, rfl, rfl, rfl, rfl⟩))

theorem changePosition_relates (oldPosition newPosition : Position) (id : Outpoint) :
    Program.Relates R (changePosition oldPosition newPosition id) := by
  refine bind_relates (removePosition_relates _ _) fun _ => ite_relates ?_ (pure_relates _)
  exact bind_relates (storeIndex_relates _) fun _ =>
    bind_relates (onlyIf_relates (changeIndexes_relates _)) fun _ => pure_relates _

theorem changeState_relates (newState : TxoState) (id : Outpoint) : Program.Relates R (changeState newState id) :=
  bind_relates (changeTables_relates (fun _ => onlyBooks ⟨rfl, rfl, rfl, rfl, rfl, rfl, rfl, rfl, rfl⟩)) fun _ => bind_relates (storeIndex_relates _) fun _ =>
    bind_relates (onlyIf_relates (changeIndexes_relates _)) fun _ => pure_relates _

theorem updatePosition_relates (position : Position) : Program.Relates R (updatePosition position) :=
  bind_relates (store_relates (fun _ => onlyBooks ⟨rfl, rfl, rfl, rfl, rfl, rfl, rfl, rfl, rfl⟩)) fun _ =>
    bind_relates (onlyIf_relates (changeCache_relates (fun _ => onlyBooks ⟨rfl, rfl, rfl, rfl, rfl, rfl, rfl, rfl, rfl⟩))) fun _ => pure_relates _

theorem cancel_relates (id : ProposalID) : Program.Relates R (cancel id) := by
  refine bind_relates get_relates fun _ => ite_relates (pure_relates _) ?_
  refine bind_relates (delete_relates (fun _ => onlyBooks ⟨rfl, rfl, rfl, rfl, rfl, rfl, rfl, rfl, rfl⟩)) fun _ => ite_relates (pure_relates _) ?_
  exact bind_relates (.modify fun _ => onlyBooks ⟨rfl, rfl, rfl, rfl, rfl, rfl, rfl, rfl, rfl⟩) fun _ => pure_relates _

theorem finishStoredProposal_relates (id : ProposalID) : Program.Relates R (finishStoredProposal id) :=
  bind_relates (cancel_relates _) fun _ => bind_relates (.modify fun _ => onlyBooks ⟨rfl, rfl, rfl, rfl, rfl, rfl, rfl, rfl, rfl⟩) fun _ =>
    require_relates _

theorem changeTxoState_relates (id : Outpoint) (position : Position) (state : TxoState) :
    Program.Relates R (changeTxoState id position state) := by
  refine bind_relates readCache_relates fun _ => bind_relates (lift_relates _) fun _ => ?_
  refine bind_relates (onlyIf_relates ?_) fun _ => bind_relates (onlyIf_relates ?_) fun _ => ?_
  · exact bind_relates (changeState_relates _ _) fun _ =>
      bind_relates (require_relates _) fun _ => changeCache_relates (fun _ => onlyBooks ⟨rfl, rfl, rfl, rfl, rfl, rfl, rfl, rfl, rfl⟩)
  · exact bind_relates (changePosition_relates _ _ _) fun _ =>
      bind_relates (require_relates _) fun _ => changeCache_relates (fun _ => onlyBooks ⟨rfl, rfl, rfl, rfl, rfl, rfl, rfl, rfl, rfl⟩)
  · exact bind_relates (writeOutput_relates _ _) fun _ => require_relates _

theorem indexKeys_relates (environment : Environment) (id : Outpoint) (keys : List Key) :
    Program.Relates R (indexKeys environment id keys) := by
  unfold indexKeys
  split
  · refine ite_relates (pure_relates _) ?_
    split
    · exact addToNym_relates _ _
    · exact exception_relates
  · exact exception_relates

theorem mature_relates (position : Position) (id : Outpoint) : Program.Relates R (mature position id) :=
  bind_relates readCache_relates fun _ => bind_relates (lift_relates _) fun _ =>
    ite_relates (pure_relates _) (changeTxoState_relates _ _ _)

theorem validateInputs_relates (consumed : Finset Outpoint) : Program.Relates R (validateInputs consumed) :=
  bind_relates readCache_relates fun _ => require_relates _

theorem validateOutputs_relates (created : Finset Outpoint) : Program.Relates R (validateOutputs created) :=
  bind_relates readCache_relates fun _ => require_relates _

theorem rollBack_relates (position : Position) (id : Outpoint) : Program.Relates R (rollBack position id) := by
  refine bind_relates readCache_relates fun _ => bind_relates (lift_relates _) fun output => ?_
  split
  · exact changeTxoState_relates _ _ _
  · exact pure_relates _

theorem startReorg_relates (entry : SubchainID × Position) : Program.Relates R (startReorg entry) :=
  bind_relates readCache_relates fun _ => forEach_relates _ fun _ => rollBack_relates _ _

end Books

section Erases

variable {R : Session → Session → Prop} [Erases R]

theorem erasing {before after : Session} (fewer : Fewer before after) : R before after := Erases.erases before after fewer

theorem update_or {α : Type} (map : Outpoint → α) (output : Outpoint) (value : α) (id : Outpoint) :
    Function.update map output value id = map id ∨ Function.update map output value id = value := by
  by_cases same : id = output
  · subst same
    exact Or.inr (Function.update_self _ _ _)
  · exact Or.inl (Function.update_of_ne same _ _)

theorem dissociateProposal_relates (output : Outpoint) (proposal : ProposalID) :
    Program.Relates R (dissociateProposal output proposal) := by
  refine bind_relates readCache_relates fun _ => bind_relates (require_relates _) fun _ => ?_
  refine bind_relates (delete_relates fun _ => erasing ?_) fun _ => bind_relates (require_relates _) fun _ => ?_
  · exact ⟨rfl, rfl, fun _ => Or.inl rfl, subset_rfl, subset_rfl, rfl, update_or _ output none, subset_rfl, subset_rfl⟩
  · refine changeCache_relates fun _ => erasing ?_
    exact ⟨rfl, rfl, update_or _ output [], subset_rfl, subset_rfl, rfl, fun _ => Or.inl rfl, subset_rfl, subset_rfl⟩

theorem deleteCreated_relates (proposal : ProposalID) (output : Outpoint) :
    Program.Relates R (deleteCreated proposal output) :=
  delete_relates fun _ => erasing
    ⟨rfl, rfl, fun _ => Or.inl rfl, subset_rfl, subset_rfl, rfl, fun _ => Or.inl rfl, Finset.erase_subset _ _, subset_rfl⟩

theorem deleteSpent_relates (proposal : ProposalID) (output : Outpoint) :
    Program.Relates R (deleteSpent proposal output) :=
  delete_relates fun _ => erasing
    ⟨rfl, rfl, fun _ => Or.inl rfl, subset_rfl, subset_rfl, rfl, fun _ => Or.inl rfl, subset_rfl, Finset.erase_subset _ _⟩

theorem purgeCreated_relates (proposal : ProposalID) (output : Outpoint) :
    Program.Relates R (purgeCreated proposal output) := by
  refine bind_relates (deleteCreated_relates _ _) fun _ => bind_relates (require_relates _) fun _ => ?_
  refine bind_relates (dissociateProposal_relates _ _) fun _ => changeCache_relates fun _ => erasing ?_
  exact ⟨rfl, rfl, fun _ => Or.inl rfl, Finset.erase_subset _ _, subset_rfl, rfl, fun _ => Or.inl rfl, subset_rfl, subset_rfl⟩

theorem purgeConsumed_relates (proposal : ProposalID) (output : Outpoint) :
    Program.Relates R (purgeConsumed proposal output) := by
  refine bind_relates (deleteSpent_relates _ _) fun _ => bind_relates (require_relates _) fun _ => ?_
  refine bind_relates (dissociateProposal_relates _ _) fun _ => changeCache_relates fun _ => erasing ?_
  exact ⟨rfl, rfl, fun _ => Or.inl rfl, subset_rfl, Finset.erase_subset _ _, rfl, fun _ => Or.inl rfl, subset_rfl, subset_rfl⟩

theorem confirmProposal_relates (output : Outpoint) (proposal : ProposalID) :
    Program.Relates R (confirmProposal output proposal) := by
  refine bind_relates readCache_relates fun _ => bind_relates (lift_relates _) fun association => ?_
  cases association with
  | created =>
    exact bind_relates readCache_relates fun _ =>
      bind_relates (require_relates _) fun _ => purgeCreated_relates proposal output
  | consumed =>
    exact bind_relates readCache_relates fun _ =>
      bind_relates (require_relates _) fun _ => purgeConsumed_relates proposal output
  | none => exact exception_relates

theorem finishProposal_relates (proposal : ProposalID) : Program.Relates R (finishProposal proposal) :=
  bind_relates readCache_relates fun _ =>
    bind_relates (forEach_relates _ fun _ => purgeCreated_relates _ _) fun _ =>
      forEach_relates _ fun _ => purgeConsumed_relates _ _

theorem release_relates (output : Outpoint) (proposal : ProposalID) : Program.Relates R (release output proposal) :=
  bind_relates readCache_relates fun _ => bind_relates (require_relates _) fun _ =>
    bind_relates (deleteSpent_relates _ _) fun _ => bind_relates (require_relates _) fun _ =>
      dissociateProposal_relates _ _

theorem checkOutputProposals_relates (id : Outpoint) (proposals : Finset ProposalID) (mempool : Bool) :
    Program.Relates R (checkOutputProposals id proposals mempool) :=
  ite_relates (pure_relates _) (forEach_relates _ fun _ => confirmProposal_relates _ _)

theorem releaseUnusedInputs_relates (proposal : ProposalID) (consumed : Finset Outpoint) :
    Program.Relates R (releaseUnusedInputs proposal consumed) :=
  bind_relates readCache_relates fun _ => bind_relates (require_relates _) fun _ =>
    forEach_relates _ fun _ => release_relates _ _

end Erases

section Creates

variable {R : Session → Session → Prop} [Creates R]

theorem unreserving {before after : Session} (unreserving : Unreserving before after) : R before after :=
  Creates.creates before after unreserving

theorem addGenerationOutput_relates (height : Int) (output : Outpoint) :
    Program.Relates R (addGenerationOutput height output) :=
  bind_relates (store_relates (fun _ => unreserving ⟨rfl, subset_rfl, subset_rfl⟩)) fun _ => bind_relates (require_relates _) fun _ => changeCache_relates (fun _ => unreserving ⟨rfl, subset_rfl, subset_rfl⟩)

theorem deleteGeneration_relates (entries : List (Int × Outpoint)) : Program.Relates R (deleteGeneration entries) := by
  induction entries with
  | nil => exact pure_relates ()
  | cons entry entries ih =>
    unfold deleteGeneration
    exact bind_relates (delete_relates (fun _ => unreserving ⟨rfl, subset_rfl, subset_rfl⟩)) fun _ => bind_relates (require_relates _) fun _ => ih

theorem deleteGenerationAbove_relates (good : Int) : Program.Relates R (deleteGenerationAbove good) :=
  bind_relates readCache_relates fun _ => bind_relates (deleteGeneration_relates _) fun _ =>
    bind_relates (changeCache_relates (fun _ => unreserving ⟨rfl, subset_rfl, subset_rfl⟩)) fun _ => pure_relates _

theorem finalizeReorg_relates (position : Position) : Program.Relates R (finalizeReorg position) := by
  refine bind_relates readCache_relates fun _ => onlyIf_relates ?_
  refine bind_relates (deleteGenerationAbove_relates _) fun _ => ?_
  refine bind_relates (forEach_relates _ fun _ => changeTxoState_relates _ _ _) fun _ => ?_
  exact bind_relates (updatePosition_relates _) fun _ => require_relates _

theorem createState_relates (account : AccountID) (subchain : SubchainID) (id : Outpoint) (position : Position)
    (output : Output) (isGeneration : Bool) (state : TxoState) :
    Program.Relates R (createState account subchain id position output isGeneration state) := by
  refine bind_relates readCache_relates fun _ => bind_relates (require_relates _) fun _ => ?_
  refine bind_relates (require_relates _) fun _ => ?_
  exact bind_relates (addOutput_relates _ _ _ _ _ _) fun _ => bind_relates (require_relates _) fun _ =>
    onlyIf_relates (addGenerationOutput_relates _ _)

theorem associateProposal_relates (output : Outpoint) (proposal : ProposalID) (kind : Kind) :
    Program.Relates R (associateProposal output proposal kind) :=
  bind_relates readCache_relates fun _ => bind_relates (require_relates _) fun _ =>
    bind_relates (store_relates (fun _ => unreserving ⟨rfl, subset_rfl, subset_rfl⟩)) fun _ => bind_relates (require_relates _) fun _ => changeCache_relates (fun _ => unreserving ⟨rfl, subset_rfl, subset_rfl⟩)

theorem createOutput_relates (proposal : ProposalID) (output : Outpoint) :
    Program.Relates R (createOutput proposal output) :=
  bind_relates readCache_relates fun _ => bind_relates (require_relates _) fun _ =>
    bind_relates (store_relates (fun _ => unreserving ⟨rfl, subset_rfl, subset_rfl⟩)) fun _ => bind_relates (require_relates _) fun _ =>
      bind_relates (changeCache_relates (fun _ => unreserving ⟨rfl, subset_rfl, subset_rfl⟩)) fun _ => associateProposal_relates _ _ _

theorem process_relates (environment : Environment) (account : AccountID) (subchain : SubchainID) (block : Position)
    (mempool : Bool) (entry : Outpoint × Modification) :
    Program.Relates R (process environment account subchain block mempool entry) := by
  refine ite_relates ?_ ?_
  · exact bind_relates (checkOutputProposals_relates _ _ _) fun _ => changeTxoState_relates _ _ _
  · unfold processCreate
    split
    · exact exception_relates
    · refine bind_relates (onlyIf_relates (require_relates _)) fun _ => ?_
      refine bind_relates (onlyIf_relates (checkOutputProposals_relates _ _ _)) fun _ => ?_
      exact bind_relates (createState_relates _ _ _ _ _ _ _) fun _ => indexKeys_relates _ _ _

theorem addTransactionsInBlock_relates (environment : Environment) (account : AccountID) (subchain : SubchainID)
    (mempool : Bool) (entry : Position × BlockMatches) :
    Program.Relates R (addTransactionsInBlock environment account subchain mempool entry) := by
  refine bind_relates readCache_relates fun _ => bind_relates (lift_relates _) fun _ => ?_
  refine bind_relates (forEach_relates _ fun _ => process_relates _ _ _ _ _ _) fun _ => ?_
  refine ite_relates (pure_relates _) ?_
  exact bind_relates readCache_relates fun _ => forEach_relates _ fun _ => finishStoredProposal_relates _

theorem setOutputState_relates (environment : Environment) (proposal : ProposalID) (transaction : Transaction)
    (id : Outpoint) : Program.Relates R (setOutputState environment proposal transaction id) := by
  refine bind_relates (createOutput_relates _ _) fun _ => bind_relates readCache_relates fun _ => ?_
  refine ite_relates (changeTxoState_relates _ _ _) ?_
  split
  · exact throw_relates _
  · split
    · exact bind_relates (createState_relates _ _ _ _ _ _ _) fun _ => indexKeys_relates _ _ _
    · exact exception_relates

end Creates

section Reserves

variable {R : Session → Session → Prop} [Creates R] {proposal : ProposalID} {output : Outpoint}

theorem consumeOutput_relates (reserves : ∀ before after, Reserving proposal output before after → R before after) :
    Program.Relates R (consumeOutput proposal output) := by
  refine bind_relates readCache_relates fun _ => bind_relates (require_relates _) fun _ => ?_
  refine bind_relates (store_relates fun _ => reserves _ _ ?_) fun _ => bind_relates (require_relates _) fun _ => ?_
  · exact ⟨rfl, Finset.subset_insert _ _, subset_rfl⟩
  · refine bind_relates (changeCache_relates fun _ => reserves _ _ ?_) fun _ => associateProposal_relates _ _ _
    exact ⟨rfl, subset_rfl, Finset.subset_insert _ _⟩

theorem choose_relates (reserves : ∀ before after, Reserving proposal output before after → R before after) :
    Program.Relates R (choose proposal output) :=
  bind_relates readCache_relates fun _ => bind_relates (lift_relates _) fun _ =>
    bind_relates (consumeOutput_relates reserves) fun _ => pure_relates _

end Reserves

end Opentxs.Wallet.Isolation
