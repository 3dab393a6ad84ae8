import Opentxs.Wallet.Tracking

/-! What a step that returns does to the associations between outputs and proposals. -/

namespace Opentxs.Wallet.Associations
open Library HeaderOracle BlockHeader Types Storage OutputCache Outputs Tracking

variable {before after : Session} {proposal : ProposalID} {output : Outpoint}

/-- What the wallet holds of the associations, in memory and in its tables. -/
structure Change where
  outputToProposal : (Outpoint → List ProposalID) → Outpoint → List ProposalID := id
  created : Index ProposalID → Index ProposalID := id
  consumed : Index ProposalID → Index ProposalID := id
  outputProposal : (Outpoint → Option ProposalID) → Outpoint → Option ProposalID := id
  proposalCreated : Index ProposalID → Index ProposalID := id
  proposalSpent : Index ProposalID → Index ProposalID := id

def Change.inMemory (change : Change) (cache : OutputCache) : OutputCache :=
  { cache with
    outputToProposal := change.outputToProposal cache.outputToProposal
    createdByProposal := change.created cache.createdByProposal
    consumedByProposal := change.consumed cache.consumedByProposal }

def Change.stored (change : Change) (tables : Tables) : Tables :=
  { tables with
    outputProposal := change.outputProposal tables.outputProposal
    proposalCreated := change.proposalCreated tables.proposalCreated
    proposalSpent := change.proposalSpent tables.proposalSpent }

/-- The step changed the associations so, and nothing else. -/
def Reassociates (change : Change) (before after : Session) : Prop :=
  Becomes before after (change.inMemory before.cache) (change.stored before.tables)

def Change.followedBy (first second : Change) : Change where
  outputToProposal := second.outputToProposal ∘ first.outputToProposal
  created := second.created ∘ first.created
  consumed := second.consumed ∘ first.consumed
  outputProposal := second.outputProposal ∘ first.outputProposal
  proposalCreated := second.proposalCreated ∘ first.proposalCreated
  proposalSpent := second.proposalSpent ∘ first.proposalSpent

theorem Reassociates.then {first second third : Session} {early late : Change} (earlier : Reassociates early first second)
    (later : Reassociates late second third) : Reassociates (early.followedBy late) first third :=
  @Becomes.on _ _ _ _ _ late.inMemory late.stored later earlier

/-! ## Associating -/

def associating (output : Outpoint) (proposal : ProposalID) : Change where
  outputToProposal map := Function.update map output (map output ++ [proposal])
  outputProposal map := Function.update map output (some proposal)

theorem associateProposal_ok {kind : Kind} {result : Unit}
    (ran : associateProposal output proposal kind before = (.ok result, after)) :
    mayAssociate before.cache output kind = true ∧ Reassociates (associating output proposal) before after := by
  unfold associateProposal at ran
  obtain ⟨cache, start, reading, afterRead⟩ := Program.bind_ok ran
  obtain ⟨rfl, rfl⟩ := readCache_ok reading
  obtain ⟨_, checked, checking, afterCheck⟩ := Program.bind_ok afterRead
  obtain ⟨permitted, rfl⟩ := require_ok checking
  obtain ⟨rc, stored, storing, afterStore⟩ := Program.bind_ok afterCheck
  obtain ⟨_, required, requiring, changing⟩ := Program.bind_ok afterStore
  obtain ⟨rfl, rfl⟩ := require_ok requiring
  have wrote := store_true storing
  have changed := changeCache_ok changing
  refine ⟨permitted, ?_, ?_, ?_, ?_⟩
  · rw [changed.cache, wrote.cache]
    rfl
  · rw [changed.tables, wrote.tables]
    rfl
  · rw [changed.committed, wrote.committed]
  · rw [changed.proposalData, wrote.proposalData]

def consuming (proposal : ProposalID) (output : Outpoint) : Change where
  consumed rows := insert (proposal, output) rows
  proposalSpent rows := insert (proposal, output) rows

def creating (proposal : ProposalID) (output : Outpoint) : Change where
  created rows := insert (proposal, output) rows
  proposalCreated rows := insert (proposal, output) rows

theorem consumeOutput_ok {result : Unit} (ran : consumeOutput proposal output before = (.ok result, after)) :
    (proposal, output) ∉ before.cache.consumedByProposal ∧ mayAssociate before.cache output .consume = true ∧
      Reassociates ((consuming proposal output).followedBy (associating output proposal)) before after := by
  unfold consumeOutput at ran
  obtain ⟨cache, start, reading, afterRead⟩ := Program.bind_ok ran
  obtain ⟨rfl, rfl⟩ := readCache_ok reading
  obtain ⟨_, checked, checking, afterCheck⟩ := Program.bind_ok afterRead
  obtain ⟨fresh, rfl⟩ := require_ok checking
  obtain ⟨rc, stored, storing, afterStore⟩ := Program.bind_ok afterCheck
  obtain ⟨_, required, requiring, afterRequire⟩ := Program.bind_ok afterStore
  obtain ⟨rfl, rfl⟩ := require_ok requiring
  obtain ⟨_, changed, changing, association⟩ := Program.bind_ok afterRequire
  have wrote := store_true storing
  have change := changeCache_ok changing
  obtain ⟨permitted, associated⟩ := associateProposal_ok association
  have inserted : Reassociates (consuming proposal output) checked changed := by
    refine ⟨?_, ?_, ?_, ?_⟩
    · rw [change.cache, wrote.cache]
      rfl
    · rw [change.tables, wrote.tables]
      rfl
    · rw [change.committed, wrote.committed]
    · rw [change.proposalData, wrote.proposalData]
  refine ⟨of_decide_eq_true fresh, ?_, inserted.then associated⟩
  rw [inserted.cache] at permitted
  exact permitted

theorem createOutput_ok {result : Unit} (ran : createOutput proposal output before = (.ok result, after)) :
    (proposal, output) ∉ before.cache.createdByProposal ∧ before.cache.outputToProposal output = [] ∧
      Reassociates ((creating proposal output).followedBy (associating output proposal)) before after := by
  unfold createOutput at ran
  obtain ⟨cache, start, reading, afterRead⟩ := Program.bind_ok ran
  obtain ⟨rfl, rfl⟩ := readCache_ok reading
  obtain ⟨_, checked, checking, afterCheck⟩ := Program.bind_ok afterRead
  obtain ⟨fresh, rfl⟩ := require_ok checking
  obtain ⟨rc, stored, storing, afterStore⟩ := Program.bind_ok afterCheck
  obtain ⟨_, required, requiring, afterRequire⟩ := Program.bind_ok afterStore
  obtain ⟨rfl, rfl⟩ := require_ok requiring
  obtain ⟨_, changed, changing, association⟩ := Program.bind_ok afterRequire
  have wrote := store_true storing
  have change := changeCache_ok changing
  obtain ⟨permitted, associated⟩ := associateProposal_ok association
  have inserted : Reassociates (creating proposal output) checked changed := by
    refine ⟨?_, ?_, ?_, ?_⟩
    · rw [change.cache, wrote.cache]
      rfl
    · rw [change.tables, wrote.tables]
      rfl
    · rw [change.committed, wrote.committed]
    · rw [change.proposalData, wrote.proposalData]
  refine ⟨of_decide_eq_true fresh, ?_, inserted.then associated⟩
  unfold mayAssociate at permitted
  rw [inserted.cache] at permitted
  cases associations : checked.cache.outputToProposal output with
  | nil => rfl
  | cons other others =>
    have first : (Change.inMemory (creating proposal output) checked.cache).outputToProposal output = other :: others := associations
    rw [first] at permitted
    simp at permitted

/-! ## Confirming -/

def dissociating (output : Outpoint) : Change where
  outputToProposal map := Function.update map output []
  outputProposal map := Function.update map output none

theorem dissociateProposal_ok {result : Unit} (ran : dissociateProposal output proposal before = (.ok result, after)) :
    (before.cache.outputToProposal output).head? = some proposal ∧ Reassociates (dissociating output) before after := by
  unfold dissociateProposal at ran
  obtain ⟨cache, start, reading, afterRead⟩ := Program.bind_ok ran
  obtain ⟨rfl, rfl⟩ := readCache_ok reading
  obtain ⟨_, checked, checking, afterCheck⟩ := Program.bind_ok afterRead
  obtain ⟨first, rfl⟩ := require_ok checking
  obtain ⟨rc, deleted, deleting, afterDelete⟩ := Program.bind_ok afterCheck
  obtain ⟨_, required, requiring, changing⟩ := Program.bind_ok afterDelete
  obtain ⟨rfl, rfl⟩ := require_ok requiring
  have deletes := (delete_true deleting).2
  have changes := changeCache_ok changing
  refine ⟨of_decide_eq_true first, ?_, ?_, ?_, ?_⟩
  · rw [changes.cache, deletes.cache]
    rfl
  · rw [changes.tables, deletes.tables]
    rfl
  · rw [changes.committed, deletes.committed]
  · rw [changes.proposalData, deletes.proposalData]

def confirmingCreated (proposal : ProposalID) (output : Outpoint) : Change where
  outputToProposal map := Function.update map output []
  created rows := rows.erase (proposal, output)
  outputProposal map := Function.update map output none
  proposalCreated rows := rows.erase (proposal, output)

def confirmingConsumed (proposal : ProposalID) (output : Outpoint) : Change where
  outputToProposal map := Function.update map output []
  consumed rows := rows.erase (proposal, output)
  outputProposal map := Function.update map output none
  proposalSpent rows := rows.erase (proposal, output)

theorem purgeCreated_ok {result : Unit} (ran : purgeCreated proposal output before = (.ok result, after)) :
    (before.cache.outputToProposal output).head? = some proposal ∧
      Reassociates (confirmingCreated proposal output) before after := by
  unfold purgeCreated at ran
  obtain ⟨rc, deleted, deleting, afterDelete⟩ := Program.bind_ok ran
  obtain ⟨_, required, requiring, afterRequire⟩ := Program.bind_ok afterDelete
  obtain ⟨rfl, rfl⟩ := require_ok requiring
  obtain ⟨_, dissociated, dissociating, changing⟩ := Program.bind_ok afterRequire
  have deletes := (delete_true deleting).2
  obtain ⟨first, dissociates⟩ := dissociateProposal_ok dissociating
  have changes := changeCache_ok changing
  rw [deletes.cache] at first
  refine ⟨first, ?_, ?_, ?_, ?_⟩
  · rw [changes.cache, dissociates.cache, deletes.cache]
    rfl
  · rw [changes.tables, dissociates.tables, deletes.tables]
    rfl
  · rw [changes.committed, dissociates.committed, deletes.committed]
  · rw [changes.proposalData, dissociates.proposalData, deletes.proposalData]

theorem purgeConsumed_ok {result : Unit} (ran : purgeConsumed proposal output before = (.ok result, after)) :
    (before.cache.outputToProposal output).head? = some proposal ∧
      Reassociates (confirmingConsumed proposal output) before after := by
  unfold purgeConsumed at ran
  obtain ⟨rc, deleted, deleting, afterDelete⟩ := Program.bind_ok ran
  obtain ⟨_, required, requiring, afterRequire⟩ := Program.bind_ok afterDelete
  obtain ⟨rfl, rfl⟩ := require_ok requiring
  obtain ⟨_, dissociated, dissociating, changing⟩ := Program.bind_ok afterRequire
  have deletes := (delete_true deleting).2
  obtain ⟨first, dissociates⟩ := dissociateProposal_ok dissociating
  have changes := changeCache_ok changing
  rw [deletes.cache] at first
  refine ⟨first, ?_, ?_, ?_, ?_⟩
  · rw [changes.cache, dissociates.cache, deletes.cache]
    rfl
  · rw [changes.tables, dissociates.tables, deletes.tables]
    rfl
  · rw [changes.committed, dissociates.committed, deletes.committed]
  · rw [changes.proposalData, dissociates.proposalData, deletes.proposalData]

/-- Confirming is purging what has to be there. -/
theorem proposalConfirmCreated_ok {result : Unit} (ran : proposalConfirmCreated proposal output before = (.ok result, after)) :
    (proposal, output) ∈ before.cache.createdByProposal ∧ purgeCreated proposal output before = (.ok result, after) := by
  unfold proposalConfirmCreated at ran
  obtain ⟨cache, start, reading, afterRead⟩ := Program.bind_ok ran
  obtain ⟨rfl, rfl⟩ := readCache_ok reading
  obtain ⟨_, checked, checking, afterCheck⟩ := Program.bind_ok afterRead
  obtain ⟨present, rfl⟩ := require_ok checking
  exact ⟨of_decide_eq_true present, afterCheck⟩

theorem proposalConfirmConsumed_ok {result : Unit}
    (ran : proposalConfirmConsumed proposal output before = (.ok result, after)) :
    (proposal, output) ∈ before.cache.consumedByProposal ∧ purgeConsumed proposal output before = (.ok result, after) := by
  unfold proposalConfirmConsumed at ran
  obtain ⟨cache, start, reading, afterRead⟩ := Program.bind_ok ran
  obtain ⟨rfl, rfl⟩ := readCache_ok reading
  obtain ⟨_, checked, checking, afterCheck⟩ := Program.bind_ok afterRead
  obtain ⟨present, rfl⟩ := require_ok checking
  exact ⟨of_decide_eq_true present, afterCheck⟩

/-- A confirmed output had the proposal as its first, either created or consumed by it. -/
theorem confirmProposal_ok {result : Unit} (ran : confirmProposal output proposal before = (.ok result, after)) :
    (before.cache.outputToProposal output).head? = some proposal ∧
      ((proposal, output) ∈ before.cache.createdByProposal ∧ (proposal, output) ∉ before.cache.consumedByProposal ∧
          Reassociates (confirmingCreated proposal output) before after ∨
        (proposal, output) ∈ before.cache.consumedByProposal ∧ (proposal, output) ∉ before.cache.createdByProposal ∧
          Reassociates (confirmingConsumed proposal output) before after) := by
  unfold confirmProposal at ran
  obtain ⟨cache, start, reading, afterRead⟩ := Program.bind_ok ran
  obtain ⟨rfl, rfl⟩ := readCache_ok reading
  obtain ⟨association, loaded, loading, confirming⟩ := Program.bind_ok afterRead
  obtain ⟨got, rfl⟩ := Program.lift_ok loading
  unfold getAssociation at got
  by_cases consumed : (proposal, output) ∈ loaded.cache.consumedByProposal <;>
    by_cases created : (proposal, output) ∈ loaded.cache.createdByProposal <;>
    simp only [consumed, created, decide_true, decide_false] at got <;> cases got
  · obtain ⟨_, purging⟩ := proposalConfirmConsumed_ok confirming
    obtain ⟨first, reassociates⟩ := purgeConsumed_ok purging
    exact ⟨first, Or.inr ⟨consumed, created, reassociates⟩⟩
  · obtain ⟨_, purging⟩ := proposalConfirmCreated_ok confirming
    obtain ⟨first, reassociates⟩ := purgeCreated_ok purging
    exact ⟨first, Or.inl ⟨created, consumed, reassociates⟩⟩
  · exact absurd confirming fun ran => Program.not_throw_ok ran

/-- A reserved output cannot be released. -/
theorem release_ok {result : Unit} (ran : release output proposal before = (.ok result, after)) :
    (proposal, output) ∉ before.cache.consumedByProposal := by
  unfold release at ran
  obtain ⟨cache, start, reading, afterRead⟩ := Program.bind_ok ran
  obtain ⟨rfl, rfl⟩ := readCache_ok reading
  obtain ⟨_, checked, checking, afterCheck⟩ := Program.bind_ok afterRead
  exact of_decide_eq_true (require_ok checking).1

end Opentxs.Wallet.Associations
