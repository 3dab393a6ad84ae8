import Opentxs.Wallet.Runs

/-! A proposal waits until the outputs it creates are reported created and those it consumes
reported spent. The associations of the wallet follow this if no block moves an output before, or
without, the report its proposal waits for. -/

namespace Opentxs.Wallet.Settlement
open Library Library.Ordered HeaderOracle BlockHeader Types Storage OutputCache Parsing Reports Outputs
open Tracking Associations Effects Runs

variable {environment : Environment} {before after : Session}

/-! ## Open proposals -/

/-- The outputs that the proposals still wait for, and the proposals that wait no more. -/
structure OpenProposals where
  created : Index ProposalID := ∅
  consumed : Index ProposalID := ∅
  finished : Finset ProposalID := ∅

def OpenProposals.waiting (proposals : OpenProposals) : Finset ProposalID :=
  (proposals.created ∪ proposals.consumed).image Prod.fst

/-- What a block reports settles the outputs, and with the last of its outputs a proposal. -/
def OpenProposals.settle (proposals : OpenProposals) (items : BlockMatches) : OpenProposals :=
  let left : OpenProposals :=
    { proposals with
      created := proposals.created.filter fun row => ¬ ReportsCreated items row.2
      consumed := proposals.consumed.filter fun row => ¬ Spends items row.2 }
  { left with finished := proposals.finished ∪ (proposals.waiting \ left.waiting) }

def OpenProposals.cancel (proposals : OpenProposals) (id : ProposalID) : OpenProposals :=
  { proposals with
    created := proposals.created.filter fun row => row.1 ≠ id
    consumed := proposals.consumed.filter fun row => row.1 ≠ id }

def OpenProposals.create (proposals : OpenProposals) (id : ProposalID) (outputs : Finset Outpoint) : OpenProposals :=
  { proposals with created := proposals.created ∪ outputs.image fun output => (id, output) }

def OpenProposals.consume (proposals : OpenProposals) (id : ProposalID) (output : Outpoint) : OpenProposals :=
  { proposals with consumed := insert (id, output) proposals.consumed }

/-- What a call that succeeds means for the open proposals. -/
def OpenProposals.follow (proposals : OpenProposals) (operation : Operation) (reserved : Option (Outpoint × Output)) :
    OpenProposals :=
  match operation, reserved with
  | .addConfirmedTransactions _ _ transactions, _ => transactions.foldl (fun proposals entry => proposals.settle entry.2) proposals
  | .cancelProposal id, _ => proposals.cancel id
  | .finalizeProposal id _ transaction, _ => proposals.create id (getOutputs transaction)
  | .reserveUTXO _ id _, some (output, _) => proposals.consume id output
  | .reserveOutpoint _ id _, some (output, _) => proposals.consume id output
  | _, _ => proposals

theorem OpenProposals.mem_waiting (proposals : OpenProposals) (id : ProposalID) :
    id ∈ proposals.waiting ↔ ∃ output, (id, output) ∈ proposals.created ∨ (id, output) ∈ proposals.consumed := by
  unfold waiting
  simp only [Finset.mem_image, Finset.mem_union, Prod.exists, exists_and_right, exists_eq_right]

/-! ## Associations of the cache -/

/-- An output has a proposal once for its creation and once for its consumption. -/
def Linked (cache : OutputCache) : Prop :=
  ∀ output proposal, (cache.outputToProposal output).count proposal =
    (if (proposal, output) ∈ cache.createdByProposal then 1 else 0) +
      if (proposal, output) ∈ cache.consumedByProposal then 1 else 0

/-- These outputs lose their associations and all others keep them. -/
structure Unlinks (outputs : Set Outpoint) (before after : Session) : Prop where
  gone : ∀ id ∈ outputs, after.cache.outputToProposal id = []
  kept : ∀ id ∉ outputs, after.cache.outputToProposal id = before.cache.outputToProposal id
  created : ∀ row, row ∈ after.cache.createdByProposal ↔ row ∈ before.cache.createdByProposal ∧ row.2 ∉ outputs
  consumed : ∀ row, row ∈ after.cache.consumedByProposal ↔ row ∈ before.cache.consumedByProposal ∧ row.2 ∉ outputs
  finished : after.proposalData.finished = before.proposalData.finished
  populated : after.cache.populated = before.cache.populated

theorem Unlinks.none (session : Session) : Unlinks ∅ session session :=
  ⟨by simp, by simp, by simp, by simp, rfl, rfl⟩

theorem Unlinks.trans {first second third : Session} {early late : Set Outpoint} (earlier : Unlinks early first second)
    (later : Unlinks late second third) : Unlinks (early ∪ late) first third := by
  refine ⟨fun id member => ?_, fun id outside => ?_, fun row => ?_, fun row => ?_, ?_, ?_⟩
  · by_cases inLate : id ∈ late
    · exact later.gone id inLate
    · rw [later.kept id inLate]
      exact earlier.gone id (member.resolve_right inLate)
  · rw [Set.mem_union, not_or] at outside
    rw [later.kept id outside.2, earlier.kept id outside.1]
  · rw [later.created, earlier.created, Set.mem_union, not_or, and_assoc]
  · rw [later.consumed, earlier.consumed, Set.mem_union, not_or, and_assoc]
  · rw [later.finished, earlier.finished]
  · rw [later.populated, earlier.populated]

theorem Unlinks.linked {outputs : Set Outpoint} (unlinks : Unlinks outputs before after) (linked : Linked before.cache) :
    Linked after.cache := by
  intro output proposal
  by_cases member : output ∈ outputs
  · have noCreated : (proposal, output) ∉ after.cache.createdByProposal := fun row =>
      ((unlinks.created _).mp row).2 member
    have noConsumed : (proposal, output) ∉ after.cache.consumedByProposal := fun row =>
      ((unlinks.consumed _).mp row).2 member
    rw [unlinks.gone output member, if_neg noCreated, if_neg noConsumed]
    rfl
  · have created : (proposal, output) ∈ after.cache.createdByProposal ↔
        (proposal, output) ∈ before.cache.createdByProposal :=
      (unlinks.created _).trans (and_iff_left member)
    have consumed : (proposal, output) ∈ after.cache.consumedByProposal ↔
        (proposal, output) ∈ before.cache.consumedByProposal :=
      (unlinks.consumed _).trans (and_iff_left member)
    rw [unlinks.kept output member, linked output proposal]
    simp only [created, consumed]

theorem Linked.mem {cache : OutputCache} (linked : Linked cache) (output : Outpoint) (proposal : ProposalID) :
    proposal ∈ cache.outputToProposal output ↔
      (proposal, output) ∈ cache.createdByProposal ∨ (proposal, output) ∈ cache.consumedByProposal := by
  rw [← List.count_pos_iff, linked output proposal]
  split <;> split <;> simp_all

/-- Unlinking an output without associations does nothing. -/
theorem Unlinks.of_free {id : Outpoint} (linked : Linked before.cache) (free : before.cache.outputToProposal id = [])
    (unlinks : Unlinks ∅ before after) : Unlinks {id} before after := by
  have nothing : ∀ proposal, (proposal, id) ∉ before.cache.createdByProposal ∧ (proposal, id) ∉ before.cache.consumedByProposal := by
    intro proposal
    have absent : proposal ∉ before.cache.outputToProposal id := by
      rw [free]
      exact List.not_mem_nil
    rw [linked.mem, not_or] at absent
    exact absent
  refine ⟨fun other same => ?_, fun other _ => unlinks.kept other (Set.notMem_empty _), fun row => ?_, fun row => ?_,
    unlinks.finished, unlinks.populated⟩
  · rw [Set.mem_singleton_iff.mp same, unlinks.kept id (Set.notMem_empty _), free]
  · rw [unlinks.created, and_congr_right]
    intro member
    refine iff_of_true (Set.notMem_empty _) fun same => ?_
    have here : (row.1, id) = row := Prod.ext rfl (Set.mem_singleton_iff.mp same).symm
    exact (nothing row.1).1 (by rw [here]; exact member)
  · rw [unlinks.consumed, and_congr_right]
    intro member
    refine iff_of_true (Set.notMem_empty _) fun same => ?_
    have here : (row.1, id) = row := Prod.ext rfl (Set.mem_singleton_iff.mp same).symm
    exact (nothing row.1).2 (by rw [here]; exact member)

/-- A step that changes none of the associations. -/
theorem Unlinks.of_becomes {cache : OutputCache} {tables : Tables} (becomes : Becomes before after cache tables)
    (outputToProposal : cache.outputToProposal = before.cache.outputToProposal)
    (created : cache.createdByProposal = before.cache.createdByProposal)
    (consumed : cache.consumedByProposal = before.cache.consumedByProposal)
    (populated : cache.populated = before.cache.populated) : Unlinks ∅ before after := by
  obtain ⟨rfl, _, _, proposalData⟩ := becomes
  refine ⟨by simp, fun _ _ => by rw [outputToProposal], fun row => ?_, fun row => ?_, by rw [proposalData], populated⟩
  · rw [created]
    simp
  · rw [consumed]
    simp

theorem changeTxoState_unlinks {id : Outpoint} {position : Position} {state : TxoState} {result : Unit}
    (ran : changeTxoState id position state before = (.ok result, after)) : Unlinks ∅ before after := by
  obtain ⟨old, replaced⟩ := changeTxoState_ok ran
  exact .of_becomes ⟨replaced.cache, replaced.tables, replaced.committed, replaced.proposalData⟩ rfl rfl rfl rfl

theorem createState_unlinks {account : AccountID} {subchain : SubchainID} {id : Outpoint} {position : Position}
    {output : Output} {isGeneration : Bool} {state : TxoState} {result : Unit}
    (ran : createState account subchain id position output isGeneration state before = (.ok result, after)) :
    Unlinks ∅ before after := by
  have created := createState_ok ran
  exact .of_becomes ⟨created.cache, created.tables, created.committed, created.proposalData⟩ rfl rfl rfl rfl

theorem indexKeys_unlinks {id : Outpoint} {keys : List Key} {result : Unit}
    (ran : indexKeys environment id keys before = (.ok result, after)) : Unlinks ∅ before after :=
  .of_becomes (indexKeys_ok ran) rfl rfl rfl rfl

theorem Unlinks.loop {α : Type} {step : α → Writing Unit} (items : List α)
    (each : ∀ item before after, step item before = (.ok (), after) → Unlinks ∅ before after) :
    ∀ before after, Program.forEach step items before = (.ok (), after) → Unlinks ∅ before after := by
  apply @Program.forEach_relates _ _ _ step (Unlinks ∅) Unlinks.none
  · intro first second third early late
    simpa using early.trans late
  · exact fun item _ start final ran => each item start final ran

/-! ## Confirming -/

/-- The one row of an output in a table is the row of its only proposal. -/
theorem mem_erase_only {rows : Index ProposalID} {proposal : ProposalID} {output : Outpoint}
    (only : ∀ other, (other, output) ∈ rows → other = proposal) (row : ProposalID × Outpoint) :
    row ∈ rows.erase (proposal, output) ↔ row ∈ rows ∧ row.2 ∉ ({output} : Set Outpoint) := by
  obtain ⟨other, id⟩ := row
  rw [Finset.mem_erase, Set.mem_singleton_iff, and_comm, and_congr_right]
  intro member
  rw [ne_eq, Prod.mk.injEq, not_and]
  constructor
  · intro different same
    subst same
    exact different (only other member) rfl
  · exact fun different _ => different

theorem mem_of_absent {rows : Index ProposalID} {proposal : ProposalID} {output : Outpoint}
    (only : ∀ other, (other, output) ∈ rows → other = proposal) (absent : (proposal, output) ∉ rows)
    (row : ProposalID × Outpoint) : row ∈ rows ↔ row ∈ rows ∧ row.2 ∉ ({output} : Set Outpoint) := by
  rw [← mem_erase_only only, Finset.erase_eq_of_notMem absent]

theorem Unlinks.of_created {proposal : ProposalID} {output : Outpoint} (linked : Linked before.cache)
    (only : ∀ other ∈ before.cache.outputToProposal output, other = proposal)
    (unspent : (proposal, output) ∉ before.cache.consumedByProposal)
    (reassociates : Reassociates (confirmingCreated proposal output) before after) : Unlinks {output} before after := by
  have inCreated : ∀ other, (other, output) ∈ before.cache.createdByProposal → other = proposal := fun other member =>
    only other ((linked.mem _ _).mpr (Or.inl member))
  have inConsumed : ∀ other, (other, output) ∈ before.cache.consumedByProposal → other = proposal := fun other member =>
    only other ((linked.mem _ _).mpr (Or.inr member))
  refine ⟨fun id same => ?_, fun id different => ?_, fun row => ?_, fun row => ?_, ?_, ?_⟩
  · rw [reassociates.cache, Set.mem_singleton_iff.mp same]
    exact Function.update_self _ _ _
  · rw [reassociates.cache]
    exact Function.update_of_ne different _ _
  · rw [reassociates.cache]
    exact mem_erase_only inCreated row
  · rw [reassociates.cache]
    exact mem_of_absent inConsumed unspent row
  · rw [reassociates.proposalData]
  · rw [reassociates.cache]
    rfl

theorem Unlinks.of_consumed {proposal : ProposalID} {output : Outpoint} (linked : Linked before.cache)
    (only : ∀ other ∈ before.cache.outputToProposal output, other = proposal)
    (uncreated : (proposal, output) ∉ before.cache.createdByProposal)
    (reassociates : Reassociates (confirmingConsumed proposal output) before after) : Unlinks {output} before after := by
  have inCreated : ∀ other, (other, output) ∈ before.cache.createdByProposal → other = proposal := fun other member =>
    only other ((linked.mem _ _).mpr (Or.inl member))
  have inConsumed : ∀ other, (other, output) ∈ before.cache.consumedByProposal → other = proposal := fun other member =>
    only other ((linked.mem _ _).mpr (Or.inr member))
  refine ⟨fun id same => ?_, fun id different => ?_, fun row => ?_, fun row => ?_, ?_, ?_⟩
  · rw [reassociates.cache, Set.mem_singleton_iff.mp same]
    exact Function.update_self _ _ _
  · rw [reassociates.cache]
    exact Function.update_of_ne different _ _
  · rw [reassociates.cache]
    exact mem_of_absent inCreated uncreated row
  · rw [reassociates.cache]
    exact mem_erase_only inConsumed row
  · rw [reassociates.proposalData]
  · rw [reassociates.cache]
    rfl

theorem confirmProposal_unlinks {proposal : ProposalID} {output : Outpoint} {result : Unit} (linked : Linked before.cache)
    (only : ∀ other ∈ before.cache.outputToProposal output, other = proposal)
    (ran : confirmProposal output proposal before = (.ok result, after)) : Unlinks {output} before after := by
  rcases (confirmProposal_ok ran).2 with ⟨_, unspent, reassociates⟩ | ⟨_, uncreated, reassociates⟩
  · exact .of_created linked only unspent reassociates
  · exact .of_consumed linked only uncreated reassociates

/-- Confirming all proposals of an output unlinks it. With two of them it fails: the first takes
the association of the second along. -/
theorem checkOutputProposals_unlinks {id : Outpoint} {proposals : Finset ProposalID} {result : Unit}
    (linked : Linked before.cache) (all : proposals = (before.cache.outputToProposal id).toFinset)
    (ran : checkOutputProposals id proposals false before = (.ok result, after)) : Unlinks {id} before after := by
  have inside : ∀ other, other ∈ before.cache.outputToProposal id ↔ other ∈ SortedList.ordered proposals := by
    intro other
    rw [SortedList.mem_ordered, all, List.mem_toFinset]
  unfold checkOutputProposals at ran
  rw [if_neg Bool.false_ne_true] at ran
  cases items : SortedList.ordered proposals with
  | nil =>
    rw [items] at ran inside
    obtain ⟨_, rfl⟩ := Program.pure_ok ran
    refine .of_free linked ?_ (.none after)
    rw [List.eq_nil_iff_forall_not_mem]
    exact fun other member => List.not_mem_nil ((inside other).mp member)
  | cons proposal rest =>
    rw [items] at ran inside
    obtain ⟨_, middle, confirming, later⟩ := Program.bind_ok ran
    cases rest with
    | nil =>
      obtain ⟨_, rfl⟩ := Program.pure_ok later
      exact confirmProposal_unlinks linked (fun other member => List.mem_singleton.mp ((inside other).mp member)) confirming
    | cons second rest =>
      obtain ⟨_, _, failing, _⟩ := Program.bind_ok later
      have first := (confirmProposal_ok failing).1
      have emptied : middle.cache.outputToProposal id = [] := by
        rcases (confirmProposal_ok confirming).2 with ⟨_, _, reassociates⟩ | ⟨_, _, reassociates⟩
        · rw [reassociates.cache]
          exact Function.update_self _ _ _
        · rw [reassociates.cache]
          exact Function.update_self _ _ _
      rw [emptied] at first
      cases first

/-! ## Blocks -/

theorem process_unlinks {account : AccountID} {subchain : SubchainID} {block : Position}
    {entry : Outpoint × Modification} {result : Unit} (linked : Linked before.cache)
    (all : entry.2.proposals = (before.cache.outputToProposal entry.1).toFinset)
    (ran : process environment account subchain block false entry before = (.ok result, after)) :
    Unlinks {entry.1} before after := by
  obtain ⟨id, modification⟩ := entry
  unfold process at ran
  split at ran
  · obtain ⟨_, confirmed, confirming, changing⟩ := Program.bind_ok ran
    simpa using (checkOutputProposals_unlinks linked all confirming).trans (changeTxoState_unlinks changing)
  · unfold processCreate at ran
    cases data : modification.output with
    | none =>
      rw [data] at ran
      exact absurd ran fun ran => Program.not_throw_ok ran
    | some output =>
      rw [data] at ran
      obtain ⟨_, checked, checking, afterCheck⟩ := Program.bind_ok ran
      obtain ⟨_, confirmed, confirming, afterConfirm⟩ := Program.bind_ok afterCheck
      obtain ⟨_, created, creating, indexing⟩ := Program.bind_ok afterConfirm
      have stores : Unlinks ∅ confirmed after := by
        simpa using (createState_unlinks creating).trans (indexKeys_unlinks indexing)
      have confirms : checked = before ∧ Unlinks {id} checked confirmed := by
        rcases Program.onlyIf_ok checking with ⟨generation, checking⟩ | ⟨plain, rfl⟩
        · obtain ⟨none, rfl⟩ := require_ok checking
          rcases Program.onlyIf_ok confirming with ⟨other, _⟩ | ⟨_, rfl⟩
          · rw [generation] at other
            cases other
          · refine ⟨rfl, .of_free linked ?_ (.none _)⟩
            have empty : (confirmed.cache.outputToProposal id).toFinset = ∅ := all.symm.trans (of_decide_eq_true none)
            exact List.toFinset_eq_empty_iff _ |>.mp empty
        · rcases Program.onlyIf_ok confirming with ⟨_, confirming⟩ | ⟨generation, _⟩
          · exact ⟨rfl, checkOutputProposals_unlinks linked all confirming⟩
          · cases kind : modification.createsGeneration with
            | true => exact absurd kind plain
            | false => exact absurd kind generation
      obtain ⟨rfl, unlinks⟩ := confirms
      simpa using unlinks.trans stores

/-- The outputs of distinct keys are unlinked one after the other. -/
theorem processing_unlinks {account : AccountID} {subchain : SubchainID} {block : Position}
    (entries : List (Outpoint × Modification)) :
    ∀ before after, (entries.map Prod.fst).Nodup → Linked before.cache →
      (∀ entry ∈ entries, entry.2.proposals = (before.cache.outputToProposal entry.1).toFinset) →
      Program.forEach (process environment account subchain block false) entries before = (.ok (), after) →
      Unlinks { id | id ∈ entries.map Prod.fst } before after := by
  induction entries with
  | nil =>
    intro before after _ _ _ ran
    obtain ⟨_, rfl⟩ := Program.pure_ok ran
    simpa using Unlinks.none after
  | cons entry entries ih =>
    intro before after distinct linked all ran
    rw [List.map_cons, List.nodup_cons] at distinct
    obtain ⟨_, middle, first, rest⟩ := Program.bind_ok ran
    have unlinks := process_unlinks linked (all entry List.mem_cons_self) first
    have later := ih middle after distinct.2 (unlinks.linked linked) (fun next member => by
      rw [unlinks.kept next.1 fun same => distinct.1 (List.mem_map.mpr ⟨next, member, same⟩)]
      exact all next (List.mem_cons_of_mem entry member)) rest
    have both := unlinks.trans later
    have same : ({entry.1} ∪ { id | id ∈ entries.map Prod.fst } : Set Outpoint) =
        { id | id ∈ (entry :: entries).map Prod.fst } := by
      ext id
      simp [eq_comm]
    rw [← same]
    exact both

/-- Cancelling a stored proposal finishes none. -/
theorem cancel_finished {id : ProposalID} {rc : Bool} (ran : cancel id before = (.ok rc, after)) :
    after.cache = before.cache ∧ after.proposalData.finished = before.proposalData.finished := by
  have relates : Program.Relates (fun before after : Session =>
      after.cache = before.cache ∧ after.proposalData.finished = before.proposalData.finished) (cancel id) := by
    have refl : ∀ session : Session, session.cache = session.cache ∧ session.proposalData.finished = session.proposalData.finished :=
      fun _ => ⟨rfl, rfl⟩
    have trans : ∀ first second third : Session,
        second.cache = first.cache ∧ second.proposalData.finished = first.proposalData.finished →
        third.cache = second.cache ∧ third.proposalData.finished = second.proposalData.finished →
        third.cache = first.cache ∧ third.proposalData.finished = first.proposalData.finished :=
      fun _ _ _ early late => ⟨late.1.trans early.1, late.2.trans early.2⟩
    refine .bind trans (.get refl) fun session => ?_
    split
    · exact .pure refl true
    · refine .bind trans ?_ fun deleted => ?_
      · refine .bind trans (.get refl) fun session => ?_
        split
        · exact .bind trans (.modify fun _ => ⟨rfl, rfl⟩) fun _ => .pure refl true
        · exact .pure refl false
      · split
        · exact .pure refl false
        · exact .bind trans (.modify fun _ => ⟨rfl, rfl⟩) fun _ => .pure refl true
  have related := relates before
  rw [ran] at related
  exact related

theorem finishStoredProposal_finished {id : ProposalID} {result : Unit}
    (ran : finishStoredProposal id before = (.ok result, after)) :
    after.cache = before.cache ∧ after.proposalData.finished = insert id before.proposalData.finished := by
  unfold finishStoredProposal at ran
  obtain ⟨rc, cancelled, cancelling, afterCancel⟩ := Program.bind_ok ran
  obtain ⟨_, marked, marking, requiring⟩ := Program.bind_ok afterCancel
  obtain ⟨_, rfl⟩ := require_ok requiring
  rw [Program.modify_ok marking]
  have cancels : cancelled.cache = before.cache ∧ cancelled.proposalData.finished = before.proposalData.finished :=
    cancel_finished cancelling
  exact ⟨cancels.1, congrArg (insert id) cancels.2⟩

theorem finishing_finished (items : List ProposalID) :
    ∀ before after, Program.forEach finishStoredProposal items before = (.ok (), after) →
      after.cache = before.cache ∧
        ∀ id, id ∈ after.proposalData.finished ↔ id ∈ before.proposalData.finished ∨ id ∈ items := by
  induction items with
  | nil =>
    intro before after ran
    obtain ⟨_, rfl⟩ := Program.pure_ok ran
    exact ⟨rfl, by simp⟩
  | cons item items ih =>
    intro before after ran
    obtain ⟨_, middle, first, rest⟩ := Program.bind_ok ran
    obtain ⟨sameCache, finishes⟩ := finishStoredProposal_finished first
    obtain ⟨stillSame, later⟩ := ih middle after rest
    refine ⟨stillSame.trans sameCache, fun id => ?_⟩
    rw [later, finishes, Finset.mem_insert, List.mem_cons]
    tauto

/-- The cache shows the proposals as they are open. -/
structure Represents (proposals : OpenProposals) (session : Session) : Prop where
  populated : session.cache.populated = true
  linked : Linked session.cache
  created : session.cache.createdByProposal = proposals.created
  consumed : session.cache.consumedByProposal = proposals.consumed
  finished : session.proposalData.finished = proposals.finished

/-- The block moves an associated output if and only if it reports what the proposal waits for. -/
def Awaited (cache : OutputCache) (items : BlockMatches) : Prop :=
  (∀ row ∈ cache.createdByProposal, moves ((cache.outputs row.2).map Output.state) (ReportsCreated items row.2)
    (Spends items row.2) = decide (ReportsCreated items row.2)) ∧
  ∀ row ∈ cache.consumedByProposal, moves ((cache.outputs row.2).map Output.state) (ReportsCreated items row.2)
    (Spends items row.2) = decide (Spends items row.2)

instance (cache : OutputCache) (items : BlockMatches) : Decidable (Awaited cache items) :=
  inferInstanceAs (Decidable (_ ∧ _))

/-- A block unlinks the outputs it moves, and finishes the proposals that have none left. -/
theorem block_unlinks {account : AccountID} {subchain : SubchainID} {entry : Position × BlockMatches}
    (linked : Linked before.cache)
    (ran : addTransactionsInBlock environment account subchain false entry before = (.ok (), after)) :
    ∃ middle, Unlinks { id | moves ((before.cache.outputs id).map Output.state) (ReportsCreated entry.2 id)
        (Spends entry.2 id) = true } before middle ∧ after.cache = middle.cache ∧
      ∀ id, id ∈ after.proposalData.finished ↔ id ∈ before.proposalData.finished ∨
        isFinished middle.cache id = true ∧ ∃ output, id ∈ before.cache.outputToProposal output ∧
          moves ((before.cache.outputs output).map Output.state) (ReportsCreated entry.2 output) (Spends entry.2 output) =
            true := by
  unfold addTransactionsInBlock at ran
  obtain ⟨cache, start, reading, afterRead⟩ := Program.bind_ok ran
  obtain ⟨rfl, rfl⟩ := readCache_ok reading
  obtain ⟨parsed, loaded, parsing, afterParse⟩ := Program.bind_ok afterRead
  obtain ⟨parses, rfl⟩ := Program.lift_ok parsing
  obtain ⟨_, processed, processing, finishing⟩ := Program.bind_ok afterParse
  obtain ⟨generation, isParsed⟩ := parse_ok parses
  have moved : ∀ id, (parsed.transaction.find? id).isSome = moves ((loaded.cache.outputs id).map Output.state)
      (ReportsCreated entry.2 id) (Spends entry.2 id) := fun id =>
    reported_isSome (createdState_confirmed _ _ _ _ id) (isParsed.reported id)
  have proposals : ∀ id modification, parsed.transaction.find? id = some modification →
      modification.proposals = (loaded.cache.outputToProposal id).toFinset := by
    intro id modification found
    have reported := isParsed.reported id
    rw [found] at reported
    exact reported_proposals reported
  have distinct : (parsed.transaction.entries.map Prod.fst).Nodup :=
    (List.pairwise_map.mpr parsed.transaction.sorted).imp ne_of_lt
  have unlinks := processing_unlinks _ loaded processed distinct linked (fun item member =>
    proposals item.1 item.2 ((OrderedMap.find?_eq_some _ _ _).mpr member)) processing
  have keys : { id | id ∈ parsed.transaction.entries.map Prod.fst } =
      { id | moves ((loaded.cache.outputs id).map Output.state) (ReportsCreated entry.2 id) (Spends entry.2 id) = true } := by
    ext id
    rw [Set.mem_ofPred_eq, Set.mem_ofPred_eq, ← moved, Option.isSome_iff_exists, List.mem_map]
    constructor
    · rintro ⟨item, member, rfl⟩
      exact ⟨item.2, (OrderedMap.find?_eq_some _ _ _).mpr member⟩
    · rintro ⟨modification, found⟩
      exact ⟨(id, modification), (OrderedMap.find?_eq_some _ _ _).mp found, rfl⟩
  rw [keys] at unlinks
  rw [if_neg Bool.false_ne_true] at finishing
  obtain ⟨cache, next, reading, finishing⟩ := Program.bind_ok finishing
  obtain ⟨rfl, rfl⟩ := readCache_ok reading
  obtain ⟨same, finished⟩ := finishing_finished _ next after finishing
  refine ⟨next, unlinks, same, fun id => ?_⟩
  rw [finished, unlinks.finished]
  apply or_congr_right
  unfold checkProposals
  rw [List.mem_filter, SortedList.mem_ordered, isParsed.gathered, and_comm]
  apply and_congr_right
  intro _
  constructor
  · rintro ⟨output, modification, found, inside⟩
    rw [proposals output modification found, List.mem_toFinset] at inside
    exact ⟨output, inside, by rw [← moved, found]; rfl⟩
  · rintro ⟨output, inside, moves⟩
    rw [← moved] at moves
    obtain ⟨modification, found⟩ := Option.isSome_iff_exists.mp moves
    exact ⟨output, modification, found, by rwa [proposals output modification found, List.mem_toFinset]⟩

/-- A block settles for the wallet what it settles for the proposals. -/
theorem block_settles {proposals : OpenProposals} {account : AccountID} {subchain : SubchainID}
    {entry : Position × BlockMatches} (represents : Represents proposals before) (awaited : Awaited before.cache entry.2)
    (ran : addTransactionsInBlock environment account subchain false entry before = (.ok (), after)) :
    Represents (proposals.settle entry.2) after := by
  obtain ⟨middle, unlinks, same, finished⟩ := block_unlinks represents.linked ran
  have created : after.cache.createdByProposal = (proposals.settle entry.2).created := by
    ext row
    rw [same, unlinks.created, OpenProposals.settle, Finset.mem_filter, ← represents.created]
    apply and_congr_right
    intro member
    rw [Set.mem_ofPred_eq, awaited.1 row member, decide_eq_true_eq]
  have consumed : after.cache.consumedByProposal = (proposals.settle entry.2).consumed := by
    ext row
    rw [same, unlinks.consumed, OpenProposals.settle, Finset.mem_filter, ← represents.consumed]
    apply and_congr_right
    intro member
    rw [Set.mem_ofPred_eq, awaited.2 row member, decide_eq_true_eq]
  have noneLeft : ∀ id, isFinished middle.cache id = true ↔ id ∉ (proposals.settle entry.2).waiting := by
    intro id
    unfold isFinished
    rw [decide_eq_true_eq, OpenProposals.mem_waiting, ← created, ← consumed, same, Finset.eq_empty_iff_forall_notMem,
      Finset.eq_empty_iff_forall_notMem, not_exists]
    simp only [Index.mem_rows, not_or]
    exact ⟨fun none output => ⟨none.2 output, none.1 output⟩, fun none => ⟨fun output => (none output).2, fun output => (none output).1⟩⟩
  refine ⟨?_, by rw [same]; exact unlinks.linked represents.linked, created, consumed, ?_⟩
  · rw [same, unlinks.populated, represents.populated]
  · ext id
    rw [finished, represents.finished]
    show _ ↔ id ∈ proposals.finished ∪ (proposals.waiting \ (proposals.settle entry.2).waiting)
    rw [Finset.mem_union, Finset.mem_sdiff, noneLeft, and_comm]
    apply or_congr_right
    apply and_congr_left
    intro gone
    rw [OpenProposals.mem_waiting, ← represents.created, ← represents.consumed]
    constructor
    · rintro ⟨output, waits, _⟩
      exact ⟨output, (represents.linked.mem _ _).mp waits⟩
    · rintro ⟨output, waits⟩
      refine ⟨output, (represents.linked.mem _ _).mpr waits, ?_⟩
      -- what it waited for is gone, so the block has moved it
      by_contra stays
      rw [OpenProposals.mem_waiting, ← created, ← consumed, same] at gone
      apply gone
      rcases waits with waits | waits
      · exact ⟨output, Or.inl ((unlinks.created _).mpr ⟨waits, stays⟩)⟩
      · exact ⟨output, Or.inr ((unlinks.consumed _).mpr ⟨waits, stays⟩)⟩

/-! ## Other steps -/

theorem Represents.kept {proposals : OpenProposals} (represents : Represents proposals before)
    (unlinks : Unlinks ∅ before after) : Represents proposals after := by
  refine ⟨unlinks.populated.trans represents.populated, unlinks.linked represents.linked, ?_, ?_,
    unlinks.finished.trans represents.finished⟩
  · rw [← represents.created]
    ext row
    rw [unlinks.created, and_iff_left (Set.notMem_empty _)]
  · rw [← represents.consumed]
    ext row
    rw [unlinks.consumed, and_iff_left (Set.notMem_empty _)]

theorem Unlinks.then {first second third : Session} (early : Unlinks ∅ first second) (late : Unlinks ∅ second third) :
    Unlinks ∅ first third := by
  simpa using early.trans late

theorem commit_unlinks {result : Unit} (ran : commit before = (.ok result, after)) : Unlinks ∅ before after := by
  obtain ⟨cache, tables, _, proposalData⟩ := commit_ok ran
  refine ⟨by simp, fun _ _ => by rw [cache], fun row => ?_, fun row => ?_, by rw [proposalData], by rw [cache]⟩
  · rw [cache]
    simp
  · rw [cache]
    simp

theorem updatePosition_unlinks {position : Position} (ran : updatePosition position before = (.ok true, after)) :
    Unlinks ∅ before after :=
  .of_becomes (updatePosition_true ran) rfl rfl rfl rfl

theorem mempool_unlinks {account : AccountID} {subchain : SubchainID} {entry : Position × BlockMatches} {result : Unit}
    (ran : addTransactionsInBlock environment account subchain true entry before = (.ok result, after)) :
    Unlinks ∅ before after := by
  unfold addTransactionsInBlock at ran
  obtain ⟨cache, start, reading, afterRead⟩ := Program.bind_ok ran
  obtain ⟨rfl, rfl⟩ := readCache_ok reading
  obtain ⟨parsed, loaded, parsing, afterParse⟩ := Program.bind_ok afterRead
  obtain ⟨_, rfl⟩ := Program.lift_ok parsing
  obtain ⟨_, processed, processing, finishing⟩ := Program.bind_ok afterParse
  obtain ⟨_, rfl⟩ := Program.pure_ok finishing
  refine Unlinks.loop _ (fun item before after ran => ?_) loaded after processing
  obtain ⟨id, modification⟩ := item
  unfold process at ran
  split at ran
  · obtain ⟨_, confirmed, confirming, changing⟩ := Program.bind_ok ran
    obtain ⟨_, rfl⟩ := Program.pure_ok confirming
    exact changeTxoState_unlinks changing
  · unfold processCreate at ran
    cases data : modification.output with
    | none =>
      rw [data] at ran
      exact absurd ran fun ran => Program.not_throw_ok ran
    | some output =>
      rw [data] at ran
      obtain ⟨_, checked, checking, afterCheck⟩ := Program.bind_ok ran
      obtain ⟨_, confirmed, confirming, afterConfirm⟩ := Program.bind_ok afterCheck
      obtain ⟨_, created, creating, indexing⟩ := Program.bind_ok afterConfirm
      have unchanged : confirmed = before := by
        have checks : checked = before := by
          rcases Program.onlyIf_ok checking with ⟨_, checking⟩ | ⟨_, same⟩
          · exact (require_ok checking).2
          · exact same
        subst checks
        rcases Program.onlyIf_ok confirming with ⟨_, confirming⟩ | ⟨_, same⟩
        · exact (Program.pure_ok confirming).2
        · exact same
      subst unchanged
      exact (createState_unlinks creating).then (indexKeys_unlinks indexing)

theorem advanceTo_unlinks {position : Position} {result : Unit}
    (ran : advanceTo environment position before = (.ok result, after)) : Unlinks ∅ before after := by
  unfold advanceTo at ran
  obtain ⟨cache, start, reading, afterRead⟩ := Program.bind_ok ran
  obtain ⟨rfl, rfl⟩ := readCache_ok reading
  dsimp only at afterRead
  split at afterRead
  · obtain ⟨_, rfl⟩ := Program.pure_ok afterRead
    exact .none after
  · obtain ⟨_, checked, checking, afterCheck⟩ := Program.bind_ok afterRead
    obtain ⟨_, rfl⟩ := assertTrue_ok checking
    split at afterCheck
    · obtain ⟨_, rfl⟩ := Program.pure_ok afterCheck
      exact .none after
    · obtain ⟨_, grown, growing, afterGrow⟩ := Program.bind_ok afterCheck
      obtain ⟨rc, placed, placing, afterPlace⟩ := Program.bind_ok afterGrow
      obtain ⟨_, required, requiring, committing⟩ := Program.bind_ok afterPlace
      obtain ⟨rfl, rfl⟩ := require_ok requiring
      have grows : Unlinks ∅ checked grown := by
        refine Unlinks.loop _ (fun id before after ran => ?_) checked grown growing
        unfold mature at ran
        obtain ⟨cache, start, reading, afterRead⟩ := Program.bind_ok ran
        obtain ⟨rfl, rfl⟩ := readCache_ok reading
        obtain ⟨output, loaded, loading, rest⟩ := Program.bind_ok afterRead
        obtain ⟨_, rfl⟩ := Program.lift_ok loading
        split at rest
        · obtain ⟨_, rfl⟩ := Program.pure_ok rest
          exact .none after
        · exact changeTxoState_unlinks rest
      exact grows.then ((updatePosition_unlinks placing).then (commit_unlinks committing))

theorem reorg_unlinks {blocks : List (SubchainID × Position)} {ancestor : Position} {committed : Bool} {result : Unit}
    (ran : reorg blocks ancestor committed before = (.ok result, after)) : Unlinks ∅ before after := by
  unfold reorg at ran
  obtain ⟨_, started, starting, afterStart⟩ := Program.bind_ok ran
  obtain ⟨_, finalized, finalizing, committing⟩ := Program.bind_ok afterStart
  have starts : Unlinks ∅ before started := by
    refine Unlinks.loop _ (fun entry before after ran => ?_) before started starting
    unfold startReorg at ran
    obtain ⟨cache, start, reading, rolling⟩ := Program.bind_ok ran
    obtain ⟨rfl, rfl⟩ := readCache_ok reading
    refine Unlinks.loop _ (fun id before after ran => ?_) start after rolling
    unfold rollBack at ran
    obtain ⟨cache, start, reading, afterRead⟩ := Program.bind_ok ran
    obtain ⟨rfl, rfl⟩ := readCache_ok reading
    obtain ⟨output, loaded, loading, rest⟩ := Program.bind_ok afterRead
    obtain ⟨_, rfl⟩ := Program.lift_ok loading
    cases state : unconfirmedState output.state with
    | some unconfirmed =>
      rw [state] at rest
      exact changeTxoState_unlinks rest
    | none =>
      rw [state] at rest
      obtain ⟨_, rfl⟩ := Program.pure_ok rest
      exact .none after
  have finalizes : Unlinks ∅ started finalized := by
    unfold finalizeReorg at finalizing
    obtain ⟨cache, start, reading, afterRead⟩ := Program.bind_ok finalizing
    obtain ⟨rfl, rfl⟩ := readCache_ok reading
    rcases Program.onlyIf_ok afterRead with ⟨_, changing⟩ | ⟨_, rfl⟩
    · obtain ⟨outputs, deleted, deleting, afterDelete⟩ := Program.bind_ok changing
      obtain ⟨_, orphaned, orphaning, afterOrphan⟩ := Program.bind_ok afterDelete
      obtain ⟨rc, placed, placing, requiring⟩ := Program.bind_ok afterOrphan
      obtain ⟨rfl, rfl⟩ := require_ok requiring
      have deletes : Unlinks ∅ start deleted := by
        unfold deleteGenerationAbove at deleting
        obtain ⟨cache, first, reading, afterRead⟩ := Program.bind_ok deleting
        obtain ⟨rfl, rfl⟩ := readCache_ok reading
        obtain ⟨_, erased, erasing, afterErase⟩ := Program.bind_ok afterRead
        obtain ⟨_, changed, changing, returned⟩ := Program.bind_ok afterErase
        obtain ⟨_, rfl⟩ := Program.pure_ok returned
        have pruned : Unlinks ∅ first erased := .of_becomes (deleteGeneration_ok _ erasing) rfl rfl rfl rfl
        exact pruned.then (.of_becomes (changeCache_ok changing) rfl rfl rfl rfl)
      have orphans : Unlinks ∅ deleted orphaned :=
        Unlinks.loop _ (fun _ _ _ ran => changeTxoState_unlinks ran) deleted orphaned orphaning
      exact deletes.then (orphans.then (updatePosition_unlinks placing))
    · exact .none finalized
  rcases Program.onlyIf_ok committing with ⟨_, committing⟩ | ⟨_, rfl⟩
  · exact starts.then (finalizes.then (commit_unlinks committing))
  · exact starts.then finalizes

/-! ## Cancelling -/

/-- Purging outputs of a table one after the other, when each of them has one association. -/
theorem purging_unlinks {id : ProposalID} {step : Outpoint → Writing Unit} {rows : OutputCache → Index ProposalID}
    (kept : ∀ {outputs : Set Outpoint} {before after : Session}, Unlinks outputs before after →
      ∀ row, row ∈ rows after.cache ↔ row ∈ rows before.cache ∧ row.2 ∉ outputs)
    (each : ∀ output before after, Linked before.cache → (before.cache.outputToProposal output).length ≤ 1 →
      (id, output) ∈ rows before.cache → step output before = (.ok (), after) → Unlinks {output} before after)
    (items : List Outpoint) : ∀ before after, items.Nodup → Linked before.cache →
      (∀ item ∈ items, (before.cache.outputToProposal item).length ≤ 1 ∧ (id, item) ∈ rows before.cache) →
      Program.forEach step items before = (.ok (), after) → Unlinks { item | item ∈ items } before after := by
  induction items with
  | nil =>
    intro before after _ _ _ ran
    obtain ⟨_, rfl⟩ := Program.pure_ok ran
    simpa using Unlinks.none after
  | cons item items ih =>
    intro before after distinct linked alone ran
    rw [List.nodup_cons] at distinct
    obtain ⟨_, middle, first, rest⟩ := Program.bind_ok ran
    obtain ⟨single, present⟩ := alone item List.mem_cons_self
    have unlinks := each item before middle linked single present first
    have later := ih middle after distinct.2 (unlinks.linked linked) (fun next member => by
      have different : next ∉ ({item} : Set Outpoint) := fun same =>
        distinct.1 (by rw [← Set.mem_singleton_iff.mp same]; exact member)
      rw [unlinks.kept next different, kept unlinks]
      obtain ⟨stillSingle, stillPresent⟩ := alone next (List.mem_cons_of_mem item member)
      exact ⟨stillSingle, stillPresent, different⟩) rest
    have same : ({item} ∪ { id | id ∈ items } : Set Outpoint) = { id | id ∈ item :: items } := by
      ext id
      simp
    rw [← same]
    exact unlinks.trans later

/-- An output with one association is only created, or only consumed, by its only proposal. -/
theorem Linked.alone {cache : OutputCache} (linked : Linked cache) {output : Outpoint} {proposal : ProposalID}
    (single : (cache.outputToProposal output).length ≤ 1)
    (row : (proposal, output) ∈ cache.createdByProposal ∨ (proposal, output) ∈ cache.consumedByProposal) :
    (∀ other ∈ cache.outputToProposal output, other = proposal) ∧
      ¬ ((proposal, output) ∈ cache.createdByProposal ∧ (proposal, output) ∈ cache.consumedByProposal) := by
  have member := (linked.mem output proposal).mpr row
  have count := linked output proposal
  match associations : cache.outputToProposal output with
  | [] =>
    rw [associations] at member
    cases member
  | [first] =>
    rw [associations] at member count
    cases List.mem_singleton.mp member
    refine ⟨fun other same => List.mem_singleton.mp same, ?_⟩
    rintro ⟨created, consumed⟩
    rw [if_pos created, if_pos consumed, List.count_singleton_self] at count
    cases count
  | first :: second :: rest =>
    rw [associations] at single
    simp at single

/-- No output of the proposal has another association. -/
def Alone (cache : OutputCache) (id : ProposalID) : Prop :=
  ∀ row ∈ cache.createdByProposal ∪ cache.consumedByProposal, row.1 = id → (cache.outputToProposal row.2).length ≤ 1

instance (cache : OutputCache) (id : ProposalID) : Decidable (Alone cache id) :=
  inferInstanceAs (Decidable (∀ row ∈ _, _))

theorem cancelProposal_represents {proposals : OpenProposals} {id : ProposalID} {result : Unit}
    (represents : Represents proposals before) (alone : Alone before.cache id)
    (ran : cancelProposal id before = (.ok result, after)) : Represents (proposals.cancel id) after := by
  unfold cancelProposal at ran
  obtain ⟨_, finished, finishing, afterFinish⟩ := Program.bind_ok ran
  obtain ⟨rc, cancelled, cancelling, afterCancel⟩ := Program.bind_ok afterFinish
  obtain ⟨_, required, requiring, committing⟩ := Program.bind_ok afterCancel
  obtain ⟨_, rfl⟩ := require_ok requiring
  unfold finishProposal at finishing
  obtain ⟨cache, start, reading, afterRead⟩ := Program.bind_ok finishing
  obtain ⟨rfl, rfl⟩ := readCache_ok reading
  obtain ⟨_, purged, purging, rest⟩ := Program.bind_ok afterRead
  have linked := represents.linked
  have single : ∀ output, (id, output) ∈ start.cache.createdByProposal ∨ (id, output) ∈ start.cache.consumedByProposal →
      (start.cache.outputToProposal output).length ≤ 1 := fun output row =>
    alone (id, output) (Finset.mem_union.mpr row) rfl
  have first := @purging_unlinks id (purgeCreated id) OutputCache.createdByProposal (fun unlinks => unlinks.created)
    (fun output before after linked single present ran => by
      obtain ⟨only, other⟩ := linked.alone single (Or.inl present)
      exact .of_created linked only (fun consumed => other ⟨present, consumed⟩) (purgeCreated_ok ran).2)
    _ start purged (SortedList.ordered_nodup _) linked (fun output member => by
      rw [SortedList.mem_ordered, Index.mem_rows] at member
      exact ⟨single output (Or.inl member), member⟩) purging
  have second := @purging_unlinks id (purgeConsumed id) OutputCache.consumedByProposal (fun unlinks => unlinks.consumed)
    (fun output before after linked single present ran => by
      obtain ⟨only, other⟩ := linked.alone single (Or.inr present)
      exact .of_consumed linked only (fun created => other ⟨created, present⟩) (purgeConsumed_ok ran).2)
    _ purged finished (SortedList.ordered_nodup _) (first.linked linked) (fun output member => by
      rw [SortedList.mem_ordered, Index.mem_rows] at member
      obtain ⟨only, other⟩ := linked.alone (single output (Or.inr member)) (Or.inr member)
      have outside : output ∉ { item | item ∈ SortedList.ordered (Index.rows start.cache.createdByProposal id) } := by
        intro inside
        rw [Set.mem_ofPred_eq, SortedList.mem_ordered, Index.mem_rows] at inside
        exact other ⟨inside, member⟩
      rw [first.kept output outside, first.consumed]
      exact ⟨single output (Or.inr member), member, outside⟩) rest
  have unlinks := first.trans second
  have cancels : Unlinks ∅ finished required := by
    obtain ⟨sameCache, sameFinished⟩ := cancel_finished cancelling
    refine ⟨by simp, fun _ _ => by rw [sameCache], fun row => ?_, fun row => ?_, sameFinished, by rw [sameCache]⟩
    · rw [sameCache]
      simp
    · rw [sameCache]
      simp
  have rowsGone : ∀ row, row ∈ start.cache.createdByProposal ∨ row ∈ start.cache.consumedByProposal →
      (row.2 ∉ { item | item ∈ SortedList.ordered (Index.rows start.cache.createdByProposal id) } ∪
        { item | item ∈ SortedList.ordered (Index.rows start.cache.consumedByProposal id) } ↔ row.1 ≠ id) := by
    rintro ⟨other, output⟩ row
    rw [Set.mem_union, Set.mem_ofPred_eq, Set.mem_ofPred_eq, SortedList.mem_ordered, SortedList.mem_ordered,
      Index.mem_rows, Index.mem_rows]
    apply not_congr
    constructor
    · intro own
      exact (linked.alone (single output own) own).1 other ((linked.mem _ _).mpr row)
    · rintro rfl
      exact row
  refine Represents.kept ?_ (cancels.then (commit_unlinks committing))
  refine ⟨unlinks.populated.trans represents.populated, unlinks.linked linked, ?_, ?_,
    unlinks.finished.trans represents.finished⟩
  · ext row
    rw [unlinks.created, OpenProposals.cancel, Finset.mem_filter, ← represents.created]
    exact and_congr_right fun member => rowsGone row (Or.inl member)
  · ext row
    rw [unlinks.consumed, OpenProposals.cancel, Finset.mem_filter, ← represents.consumed]
    exact and_congr_right fun member => rowsGone row (Or.inr member)

/-! ## Finalizing and reserving -/

theorem createOutput_represents {proposals : OpenProposals} {id : ProposalID} {output : Outpoint} {result : Unit}
    (represents : Represents proposals before) (ran : createOutput id output before = (.ok result, after)) :
    Represents (proposals.create id {output}) after := by
  obtain ⟨_, free, reassociates⟩ := createOutput_ok ran
  have cache : after.cache =
      ((creating id output).followedBy (associating output id)).inMemory before.cache := reassociates.cache
  have unspent : ∀ other, (other, output) ∉ before.cache.createdByProposal ∧ (other, output) ∉ before.cache.consumedByProposal := by
    intro other
    rw [← not_or, ← represents.linked.mem, free]
    exact List.not_mem_nil
  refine ⟨?_, fun id' proposal => ?_, ?_, ?_, ?_⟩
  · rw [cache]
    exact represents.populated
  · have created : (proposal, id') ∈ after.cache.createdByProposal ↔
        (proposal, id') = (id, output) ∨ (proposal, id') ∈ before.cache.createdByProposal := by
      rw [cache]
      exact Finset.mem_insert
    have consumed : (proposal, id') ∈ after.cache.consumedByProposal ↔ (proposal, id') ∈ before.cache.consumedByProposal := by
      rw [cache]
      rfl
    have associations : after.cache.outputToProposal =
        Function.update before.cache.outputToProposal output (before.cache.outputToProposal output ++ [id]) := by
      rw [cache]
      rfl
    simp only [associations, created, consumed]
    by_cases same : id' = output
    · subst same
      rw [Function.update_self, free, List.nil_append, List.count_singleton]
      by_cases own : proposal = id
      · simp [own, (unspent id).2]
      · simp [own, Ne.symm own, (unspent proposal).1, (unspent proposal).2]
    · rw [Function.update_of_ne same, represents.linked id' proposal]
      simp only [Prod.mk.injEq, same, and_false, false_or]
  · rw [cache]
    show insert (id, output) before.cache.createdByProposal = proposals.created ∪ ({output} : Finset Outpoint).image _
    rw [represents.created, Finset.image_singleton, Finset.insert_eq, Finset.union_comm]
  · rw [cache]
    exact represents.consumed
  · rw [reassociates.proposalData]
    exact represents.finished

theorem consumeOutput_represents {proposals : OpenProposals} {id : ProposalID} {output : Outpoint} {result : Unit}
    (represents : Represents proposals before) (ran : consumeOutput id output before = (.ok result, after)) :
    Represents (proposals.consume id output) after := by
  obtain ⟨fresh, _, reassociates⟩ := consumeOutput_ok ran
  have cache : after.cache =
      ((consuming id output).followedBy (associating output id)).inMemory before.cache := reassociates.cache
  refine ⟨?_, fun id' proposal => ?_, ?_, ?_, ?_⟩
  · rw [cache]
    exact represents.populated
  · have created : (proposal, id') ∈ after.cache.createdByProposal ↔ (proposal, id') ∈ before.cache.createdByProposal := by
      rw [cache]
      rfl
    have consumed : (proposal, id') ∈ after.cache.consumedByProposal ↔
        (proposal, id') = (id, output) ∨ (proposal, id') ∈ before.cache.consumedByProposal := by
      rw [cache]
      exact Finset.mem_insert
    have associations : after.cache.outputToProposal =
        Function.update before.cache.outputToProposal output (before.cache.outputToProposal output ++ [id]) := by
      rw [cache]
      rfl
    simp only [associations, created, consumed]
    by_cases same : id' = output
    · subst same
      rw [Function.update_self, List.count_append, represents.linked id' proposal, List.count_singleton]
      by_cases own : proposal = id
      · subst own
        simp only [fresh, if_false, add_zero, beq_self_eq_true, if_true, true_or]
      · simp only [Prod.mk.injEq, own, false_and, false_or, beq_iff_eq, Ne.symm own, if_false, add_zero]
    · rw [Function.update_of_ne same, represents.linked id' proposal]
      simp only [Prod.mk.injEq, same, and_false, false_or]
  · rw [cache]
    exact represents.created
  · rw [cache]
    show insert (id, output) before.cache.consumedByProposal = insert (id, output) proposals.consumed
    rw [represents.consumed]
  · rw [reassociates.proposalData]
    exact represents.finished

theorem setOutputState_represents {proposals : OpenProposals} {id : ProposalID} {transaction : Transaction}
    {output : Outpoint} {result : Unit} (represents : Represents proposals before)
    (ran : setOutputState environment id transaction output before = (.ok result, after)) :
    Represents (proposals.create id {output}) after := by
  unfold setOutputState at ran
  obtain ⟨_, associated, associating, afterAssociate⟩ := Program.bind_ok ran
  refine (createOutput_represents represents associating).kept ?_
  obtain ⟨cache, start, reading, afterRead⟩ := Program.bind_ok afterAssociate
  obtain ⟨rfl, rfl⟩ := readCache_ok reading
  split at afterRead
  · exact changeTxoState_unlinks afterRead
  · cases found : transaction.outputs[output.index]? with
    | none =>
      rw [found] at afterRead
      exact absurd afterRead fun ran => Program.not_throw_ok ran
    | some data =>
      rw [found] at afterRead
      dsimp only at afterRead
      cases keys : data.keys with
      | nil =>
        rw [keys] at afterRead
        exact absurd afterRead fun ran => Program.not_throw_ok ran
      | cons key others =>
        cases others with
        | nil =>
          rw [keys] at afterRead
          obtain ⟨_, created, creating, indexing⟩ := Program.bind_ok afterRead
          exact (createState_unlinks creating).then (indexKeys_unlinks indexing)
        | cons second others =>
          rw [keys] at afterRead
          exact absurd afterRead fun ran => Program.not_throw_ok ran

theorem setOutputStates_represents {id : ProposalID} {transaction : Transaction} (outputs : List Outpoint) :
    ∀ (proposals : OpenProposals) before after, Represents proposals before →
      Program.forEach (setOutputState environment id transaction) outputs before = (.ok (), after) →
      Represents (proposals.create id outputs.toFinset) after := by
  induction outputs with
  | nil =>
    intro proposals before after represents ran
    obtain ⟨_, rfl⟩ := Program.pure_ok ran
    have same : proposals.create id [].toFinset = proposals := by
      unfold OpenProposals.create
      rw [List.toFinset_nil, Finset.image_empty, Finset.union_empty]
    rw [same]
    exact represents
  | cons output outputs ih =>
    intro proposals before after represents ran
    obtain ⟨_, middle, first, rest⟩ := Program.bind_ok ran
    have later := ih _ middle after (setOutputState_represents represents first) rest
    have same : (proposals.create id {output}).create id outputs.toFinset =
        proposals.create id (output :: outputs).toFinset := by
      unfold OpenProposals.create
      rw [List.toFinset_cons, Finset.insert_eq, Finset.image_union, ← Finset.union_assoc]
    rw [← same]
    exact later

theorem finalizeProposal_represents {proposals : OpenProposals} {id : ProposalID} {content : Content}
    {transaction : Transaction} {processTransactions : Bool} {result : Unit} (represents : Represents proposals before)
    (ran : finalizeProposal environment id content transaction processTransactions before = (.ok result, after)) :
    Represents (proposals.create id (getOutputs transaction)) after := by
  unfold finalizeProposal at ran
  obtain ⟨_, checked, checking, afterCheck⟩ := Program.bind_ok ran
  obtain ⟨_, rfl⟩ := assertTrue_ok checking
  obtain ⟨_, added, adding, afterAdd⟩ := Program.bind_ok afterCheck
  obtain ⟨_, released, releasing, afterRelease⟩ := Program.bind_ok afterAdd
  obtain ⟨rfl, _⟩ := releaseUnusedInputs_ok releasing
  obtain ⟨_, validated, validating, afterValidate⟩ := Program.bind_ok afterRelease
  obtain ⟨_, drafting, checkingOutputs, afterOutputs⟩ := Program.bind_ok afterValidate
  obtain ⟨_, spent, spending, afterSpend⟩ := Program.bind_ok afterOutputs
  obtain ⟨_, created, creating, afterCreate⟩ := Program.bind_ok afterSpend
  obtain ⟨_, processed, processing, committing⟩ := Program.bind_ok afterCreate
  obtain ⟨_, rfl⟩ := require_ok processing
  have validates : drafting = released := by
    unfold validateInputs at validating
    unfold validateOutputs at checkingOutputs
    obtain ⟨cache, start, reading, requiring⟩ := Program.bind_ok validating
    obtain ⟨rfl, rfl⟩ := readCache_ok reading
    obtain ⟨_, rfl⟩ := require_ok requiring
    obtain ⟨cache, next, reading, requiring⟩ := Program.bind_ok checkingOutputs
    obtain ⟨rfl, rfl⟩ := readCache_ok reading
    exact (require_ok requiring).2
  have proposes : Represents proposals drafting := by
    rw [validates, addProposal_ok adding]
    exact ⟨represents.populated, represents.linked, represents.created, represents.consumed, represents.finished⟩
  have spends : Unlinks ∅ drafting spent :=
    Unlinks.loop _ (fun _ _ _ ran => changeTxoState_unlinks ran) drafting spent spending
  have creates := setOutputStates_represents _ proposals spent processed (proposes.kept spends) creating
  have outputs : (SortedList.ordered (getOutputs transaction)).toFinset = getOutputs transaction := by
    ext output
    rw [List.mem_toFinset, SortedList.mem_ordered]
  rw [outputs] at creates
  exact creates.kept (commit_unlinks committing)

theorem reserve_represents {proposals : OpenProposals} {id : ProposalID} {output : Outpoint} {utxo : Outpoint × Output}
    (represents : Represents proposals before)
    (ran : (do
      let utxo ← choose id output
      commit
      pure utxo) before = (.ok utxo, after)) : Represents (proposals.consume id utxo.1) after := by
  obtain ⟨found, chosen, choosing, afterChoose⟩ := Program.bind_ok ran
  obtain ⟨_, final, committing, returned⟩ := Program.bind_ok afterChoose
  obtain ⟨rfl, rfl⟩ := Program.pure_ok returned
  obtain ⟨rfl, _, consuming⟩ := choose_writes choosing
  exact (consumeOutput_represents represents consuming).kept (commit_unlinks committing)

theorem reserveUTXO_represents {proposals : OpenProposals} {spender : Nym} {id : ProposalID} {policy : SpendPolicy}
    {utxo : Outpoint × Output} (represents : Represents proposals before)
    (ran : reserveUTXO spender id policy before = (.ok utxo, after)) :
    Represents (proposals.consume id utxo.1) after := by
  cases selected : selectOutput before.cache spender policy with
  | none =>
    rw [reserveUTXO_none selected] at ran
    cases ran
  | some output =>
    rw [reserveUTXO_some selected] at ran
    exact reserve_represents represents ran

end Opentxs.Wallet.Settlement
