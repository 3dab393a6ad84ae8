import Opentxs.Wallet.Runs

/-! What the operations that go forward do to the generation outputs in memory: only an output
that a block or a transaction creates is entered, at the height of its creation. -/

namespace Opentxs.Wallet.Generations
open Library Library.Ordered HeaderOracle BlockHeader Types Storage OutputCache Parsing Reports Outputs
open Tracking Associations Editing Effects Isolation Runs

variable {environment : Environment} {before after : Session}

def SameGeneration (before after : Session) : Prop := after.cache.generationOutputs = before.cache.generationOutputs

instance : Erases SameGeneration where
  books _ _ same := same.generationOutputs
  trans _ _ _ early late := late.trans early
  erases _ _ fewer := fewer.generationOutputs

theorem relates_ok {R : Session → Session → Prop} {α : Type} {program : Writing α} {value : α}
    (relates : Program.Relates R program) (ran : program before = (.ok value, after)) : R before after := by
  have related := relates before
  rw [ran] at related
  exact related

theorem emplaceGeneration_mem (height : Int) (id : Outpoint) (entries : List (Int × Outpoint)) (row : Int × Outpoint) :
    row ∈ emplaceGeneration height id entries ↔ row = (height, id) ∨ row ∈ entries := by
  induction entries with
  | nil => simp [emplaceGeneration]
  | cons entry entries ih =>
    unfold emplaceGeneration
    split
    · rw [List.mem_cons]
    · rw [List.mem_cons, List.mem_cons, ih, or_left_comm]

/-! ## Blocks -/

/-- The height under which an output is entered that is created in this state. -/
def entryHeight (block : Position) (state : TxoState) : Int := (effectivePosition state {} block).height

theorem process_generation {account : AccountID} {subchain : SubchainID} {block : Position} {mempool : Bool}
    {entry : Outpoint × Modification} {result : Unit}
    (ran : process environment account subchain block mempool entry before = (.ok result, after)) (row : Int × Outpoint) :
    row ∈ after.cache.generationOutputs ↔ row ∈ before.cache.generationOutputs ∨
      entry.2.initialState = none ∧ row = (entryHeight block entry.2.finalState, entry.1) := by
  obtain ⟨id, modification⟩ := entry
  unfold process at ran
  split at ran
  · rename_i stored
    have same : SameGeneration before after := relates_ok
      (bind_relates (checkOutputProposals_relates _ _ _) fun _ => changeTxoState_relates _ _ _) ran
    have known : modification.initialState ≠ none := Option.ne_none_iff_isSome.mpr stored
    rw [show after.cache.generationOutputs = before.cache.generationOutputs from same]
    simp [known]
  · rename_i fresh
    have unknown : modification.initialState = none := Option.not_isSome_iff_eq_none.mp fresh
    unfold processCreate at ran
    cases data : modification.output with
    | none =>
      rw [data] at ran
      exact absurd ran fun ran => Program.not_throw_ok ran
    | some output =>
      rw [data] at ran
      obtain ⟨_, checked, checking, afterCheck⟩ := Program.bind_ok ran
      obtain ⟨_, confirmed, confirming, afterConfirm⟩ := Program.bind_ok afterCheck
      obtain ⟨_, created, creating, indexing⟩ := Program.bind_ok afterConfirm
      have early : SameGeneration before confirmed := Books.trans _ _ _
        (relates_ok (onlyIf_relates (require_relates _)) checking)
        (relates_ok (onlyIf_relates (checkOutputProposals_relates _ _ _)) confirming)
      have late : SameGeneration created after := relates_ok (indexKeys_relates _ _ _) indexing
      have enters := (createState_ok creating).cache
      rw [show after.cache.generationOutputs = created.cache.generationOutputs from late, enters]
      show row ∈ emplaceGeneration _ id confirmed.cache.generationOutputs ↔ _
      rw [show confirmed.cache.generationOutputs = before.cache.generationOutputs from early, emplaceGeneration_mem]
      simp only [unknown, true_and]
      rw [or_comm]
      rfl

theorem processes_generation {account : AccountID} {subchain : SubchainID} {block : Position} {mempool : Bool}
    (entries : List (Outpoint × Modification)) : ∀ {before after : Session},
    Program.forEach (process environment account subchain block mempool) entries before = (.ok (), after) →
    ∀ row, row ∈ after.cache.generationOutputs ↔ row ∈ before.cache.generationOutputs ∨
      ∃ entry ∈ entries, entry.2.initialState = none ∧ row = (entryHeight block entry.2.finalState, entry.1) := by
  induction entries with
  | nil =>
    intro before after ran row
    obtain ⟨_, rfl⟩ := Program.pure_ok ran
    simp
  | cons entry entries ih =>
    intro before after ran row
    obtain ⟨_, middle, first, rest⟩ := Program.bind_ok ran
    rw [ih rest row, process_generation first row, or_assoc, List.exists_mem_cons_iff]

/-- What a block makes of the outputs, and what it enters among the generation outputs. -/
theorem block_generation {account : AccountID} {subchain : SubchainID} {mempool : Bool} {entry : Position × BlockMatches}
    {result : Unit} (ran : addTransactionsInBlock environment account subchain mempool entry before = (.ok result, after)) :
    ∃ generation parsed, Parsed before.cache entry.1 entry.2 mempool environment.maturationTarget generation parsed ∧
      after.cache.position = before.cache.position ∧
      (∀ id, after.cache.outputs id = blockOutcome entry.1 (parsed.transaction.find? id) (before.cache.outputs id)) ∧
      ∀ row, row ∈ after.cache.generationOutputs ↔ row ∈ before.cache.generationOutputs ∨
        ∃ modification, parsed.transaction.find? row.2 = some modification ∧ before.cache.outputs row.2 = none ∧
          row.1 = entryHeight entry.1 modification.finalState := by
  obtain ⟨parsed, processed, parses, processing, finishing⟩ := addTransactionsInBlock_steps ran
  obtain ⟨generation, outputs, isParsed, writes, outcomes⟩ := @parsed_writes _ _
    ⟨environment, fun _ => (account, subchain), False⟩ _ _ _ _ _ _ (fun _ => rfl) nofun parses processing finishing
  have finishes : SameGeneration processed after := by
    rcases finishing with rfl | ⟨proposals, finishing⟩
    · rfl
    · exact relates_ok (forEach_relates proposals fun _ => finishStoredProposal_relates _) finishing
  refine ⟨generation, parsed, isParsed, writes.position, fun id => ?_, fun row => ?_⟩
  · rw [writes.outputs]
    exact outcomes id
  · rw [show after.cache.generationOutputs = processed.cache.generationOutputs from finishes,
      processes_generation _ processing row]
    apply or_congr_right
    have initial : ∀ id modification, parsed.transaction.find? id = some modification →
        (modification.initialState = none ↔ before.cache.outputs id = none) := by
      intro id modification found
      have reported := isParsed.reported id
      rw [found] at reported
      rw [(reported_moves reported).2.2.1, Option.map_eq_none_iff]
    constructor
    · rintro ⟨⟨id, modification⟩, member, unknown, rfl⟩
      have found := (OrderedMap.find?_eq_some _ _ modification).mpr member
      exact ⟨modification, found, (initial id modification found).mp unknown, rfl⟩
    · rintro ⟨modification, found, absent, height⟩
      refine ⟨(row.2, modification), (OrderedMap.find?_eq_some _ _ _).mp found, (initial _ _ found).mpr absent, ?_⟩
      rw [← height]

/-! ## Other operations -/

theorem commit_generation {result : Unit} (ran : commit before = (.ok result, after)) : SameGeneration before after := by
  unfold SameGeneration
  rw [(commit_ok ran).1]

theorem advanceTo_generation {position : Position} {result : Unit}
    (ran : advanceTo environment position before = (.ok result, after)) : SameGeneration before after := by
  unfold advanceTo at ran
  obtain ⟨cache, start, reading, afterRead⟩ := Program.bind_ok ran
  obtain ⟨rfl, rfl⟩ := readCache_ok reading
  dsimp only at afterRead
  split at afterRead
  · rw [(Program.pure_ok afterRead).2]
    rfl
  · obtain ⟨_, checked, checking, afterCheck⟩ := Program.bind_ok afterRead
    obtain ⟨_, rfl⟩ := assertTrue_ok checking
    split at afterCheck
    · rw [(Program.pure_ok afterCheck).2]
      rfl
    · obtain ⟨_, grown, growing, afterGrow⟩ := Program.bind_ok afterCheck
      obtain ⟨rc, placed, placing, afterPlace⟩ := Program.bind_ok afterGrow
      obtain ⟨_, required, requiring, committing⟩ := Program.bind_ok afterPlace
      obtain ⟨_, rfl⟩ := require_ok requiring
      have grows : SameGeneration checked grown := relates_ok (forEach_relates _ fun id => mature_relates position id) growing
      have places : SameGeneration grown required := relates_ok (updatePosition_relates _) placing
      exact (commit_generation committing).trans (places.trans grows)

theorem cancelProposal_generation {id : ProposalID} {result : Unit}
    (ran : cancelProposal id before = (.ok result, after)) : SameGeneration before after := by
  unfold cancelProposal at ran
  obtain ⟨_, finished, finishing, afterFinish⟩ := Program.bind_ok ran
  obtain ⟨rc, cancelled, cancelling, afterCancel⟩ := Program.bind_ok afterFinish
  obtain ⟨_, required, requiring, committing⟩ := Program.bind_ok afterCancel
  obtain ⟨_, rfl⟩ := require_ok requiring
  have finishes : SameGeneration before finished := relates_ok (finishProposal_relates _) finishing
  have cancels : SameGeneration finished required := relates_ok (cancel_relates _) cancelling
  exact (commit_generation committing).trans (cancels.trans finishes)

theorem reassociates_generation {change : Change} (reassociates : Reassociates change before after) :
    SameGeneration before after := by
  unfold SameGeneration
  rw [reassociates.cache]
  rfl

/-- What a finalized proposal creates is no generation output. -/
theorem setOutputState_generation {proposal : ProposalID} {transaction : Transaction} {id : Outpoint} {result : Unit}
    (ran : setOutputState environment proposal transaction id before = (.ok result, after)) : SameGeneration before after := by
  unfold setOutputState at ran
  obtain ⟨_, associated, associating, afterAssociate⟩ := Program.bind_ok ran
  obtain ⟨_, _, reassociates⟩ := createOutput_ok associating
  have associates := reassociates_generation reassociates
  obtain ⟨cache, start, reading, afterRead⟩ := Program.bind_ok afterAssociate
  obtain ⟨rfl, rfl⟩ := readCache_ok reading
  split at afterRead
  · have changes : SameGeneration start after := relates_ok (changeTxoState_relates _ _ _) afterRead
    exact changes.trans associates
  · cases found : transaction.outputs[id.index]? with
    | none =>
      rw [found] at afterRead
      exact absurd afterRead fun ran => Program.not_throw_ok ran
    | some output =>
      rw [found] at afterRead
      dsimp only at afterRead
      cases keys : output.keys with
      | nil =>
        rw [keys] at afterRead
        exact absurd afterRead fun ran => Program.not_throw_ok ran
      | cons key others =>
        cases others with
        | nil =>
          rw [keys] at afterRead
          obtain ⟨_, created, creating, indexing⟩ := Program.bind_ok afterRead
          have indexes : SameGeneration created after := relates_ok (indexKeys_relates _ _ _) indexing
          have creates : SameGeneration start created := by
            unfold SameGeneration
            rw [(createState_ok creating).cache]
            rfl
          exact indexes.trans (creates.trans associates)
        | cons second others =>
          rw [keys] at afterRead
          exact absurd afterRead fun ran => Program.not_throw_ok ran

theorem finalizeProposal_generation {id : ProposalID} {content : Content} {transaction : Transaction}
    {processTransactions : Bool} {result : Unit}
    (ran : finalizeProposal environment id content transaction processTransactions before = (.ok result, after)) :
    SameGeneration before after := by
  unfold finalizeProposal at ran
  obtain ⟨_, checked, checking, afterCheck⟩ := Program.bind_ok ran
  obtain ⟨_, rfl⟩ := assertTrue_ok checking
  obtain ⟨_, added, adding, afterAdd⟩ := Program.bind_ok afterCheck
  obtain ⟨_, released, releasing, afterRelease⟩ := Program.bind_ok afterAdd
  obtain ⟨_, validated, validating, afterValidate⟩ := Program.bind_ok afterRelease
  obtain ⟨_, drafting, checkingOutputs, afterOutputs⟩ := Program.bind_ok afterValidate
  obtain ⟨_, spent, spending, afterSpend⟩ := Program.bind_ok afterOutputs
  obtain ⟨_, created, creating, afterCreate⟩ := Program.bind_ok afterSpend
  obtain ⟨_, processed, processing, committing⟩ := Program.bind_ok afterCreate
  obtain ⟨_, rfl⟩ := require_ok processing
  have adds : SameGeneration checked added := by
    rw [addProposal_ok adding]
    rfl
  have releases : SameGeneration added released := relates_ok (releaseUnusedInputs_relates _ _) releasing
  have validates : SameGeneration released validated := relates_ok (validateInputs_relates _) validating
  have checks : SameGeneration validated drafting := relates_ok (validateOutputs_relates _) checkingOutputs
  have spends : SameGeneration drafting spent :=
    relates_ok (forEach_relates _ fun outpoint => changeTxoState_relates outpoint {} .unconfirmedSpend) spending
  have creates : SameGeneration spent processed := @Program.forEach_relates _ _ _ _ SameGeneration (fun _ => rfl)
    (fun _ _ _ early late => Eq.trans late early) _ (fun _ _ _ _ ran => setOutputState_generation ran) spent processed creating
  calc after.cache.generationOutputs
    _ = processed.cache.generationOutputs := commit_generation committing
    _ = spent.cache.generationOutputs := creates
    _ = drafting.cache.generationOutputs := spends
    _ = validated.cache.generationOutputs := checks
    _ = released.cache.generationOutputs := validates
    _ = added.cache.generationOutputs := releases
    _ = checked.cache.generationOutputs := adds

end Opentxs.Wallet.Generations
