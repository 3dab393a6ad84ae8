import Opentxs.Wallet.Agreement
import Opentxs.Wallet.Presentations

/-! However the same blocks are presented, the outputs, the balances and the open proposals are the
same at the end. -/

namespace Opentxs.Wallet.OrderIndependence
open Library HeaderOracle BlockHeader Types Storage OutputCache Parsing Reports Outputs Tracking Editing Effects Runs
open SpentStays Histories Balances Settlement Closing Presentations Agreement

variable {environment : Environment} {blocks : BatchedMatches} {destination : Position} {id : Outpoint}
  {target : Int} {history next : History}

/-! ## The history of a presentation -/

/-- A history goes on with these blocks, unconfirmed transactions and advances. -/
structure Extends (history : History) (blocks : BatchedMatches) (items : BlockMatches) (positions : List Position)
    (next : History) : Prop where
  mined : ∀ id, id ∈ next.minedOutputs ↔ id ∈ history.minedOutputs ∨ ∃ block ∈ blocks, ReportsCreated block.2 id
  spent : ∀ id, id ∈ next.spentOutputs ↔ id ∈ history.spentOutputs ∨ ∃ block ∈ blocks, Spends block.2 id
  generated : ∀ row, row ∈ next.generated ↔ row ∈ history.generated ∨
    ∃ block ∈ blocks, row.1 = block.1 ∧ row.2 ∈ generatedOutputs block.2
  drafted : ∀ id, id ∈ next.drafted ↔ id ∈ history.drafted ∨ ∃ item ∈ items, ReportsCreated [item] id
  spending : ∀ id, id ∈ next.spending ↔ id ∈ history.spending ∨ ∃ item ∈ items, Spends [item] id
  best : next.best = positions.foldl (fun best position => max best position.height) history.best

theorem Extends.nil (history : History) : Extends history [] [] [] history := by
  constructor <;> simp

theorem Extends.append {middle : History} {early late : BatchedMatches} {earlyItems lateItems : BlockMatches}
    {earlyPositions latePositions : List Position} (first : Extends history early earlyItems earlyPositions middle)
    (second : Extends middle late lateItems latePositions next) :
    Extends history (early ++ late) (earlyItems ++ lateItems) (earlyPositions ++ latePositions) next := by
  constructor
  · intro id
    rw [second.mined, first.mined, or_assoc]
    simp only [List.mem_append, or_and_right, exists_or]
  · intro id
    rw [second.spent, first.spent, or_assoc]
    simp only [List.mem_append, or_and_right, exists_or]
  · intro row
    rw [second.generated, first.generated, or_assoc]
    simp only [List.mem_append, or_and_right, exists_or]
  · intro id
    rw [second.drafted, first.drafted, or_assoc]
    simp only [List.mem_append, or_and_right, exists_or]
  · intro id
    rw [second.spending, first.spending, or_assoc]
    simp only [List.mem_append, or_and_right, exists_or]
  · rw [second.best, first.best, List.foldl_append]

theorem extends_addBlock (history : History) (entry : Position × BlockMatches) :
    Extends history [entry] [] [] (history.addBlock entry) := by
  constructor
  · intro id
    rw [History.mem_mined_addBlock]
    simp
  · intro id
    rw [History.mem_spent_addBlock]
    simp
  · intro row
    show row ∈ history.generated ∪ ({entry.1} : Finset Position) ×ˢ generatedOutputs entry.2 ↔ _
    rw [Finset.mem_union, Finset.mem_product, Finset.mem_singleton]
    simp
  · intro id
    show id ∈ history.drafted ↔ _
    simp
  · intro id
    show id ∈ history.spending ↔ _
    simp
  · rfl

theorem extends_addBlocks (blocks : BatchedMatches) (history : History) :
    Extends history blocks [] [] (blocks.foldl History.addBlock history) := by
  induction blocks generalizing history with
  | nil => exact .nil history
  | cons block blocks ih => exact (extends_addBlock history block).append (ih (history.addBlock block))

theorem extends_addUnconfirmed (history : History) (item : MatchedTransaction) :
    Extends history [] [item] [] (history.addUnconfirmed (createdOutputs [item]) (consumedOutputs [item])) := by
  constructor
  · intro id
    show id ∈ history.minedOutputs ↔ _
    simp
  · intro id
    show id ∈ history.spentOutputs ↔ _
    simp
  · intro row
    show row ∈ history.generated ↔ _
    simp
  · intro id
    show id ∈ history.drafted ∪ createdOutputs [item] ↔ _
    rw [Finset.mem_union, mem_createdOutputs]
    simp
  · intro id
    show id ∈ history.spending ∪ consumedOutputs [item] ↔ _
    rw [Finset.mem_union, mem_consumedOutputs]
    simp
  · rfl

theorem extends_advance (history : History) (position : Position) :
    Extends history [] [] [position] (history.advance position) := by
  constructor
  · intro id
    show id ∈ history.minedOutputs ↔ _
    simp
  · intro id
    show id ∈ history.spentOutputs ↔ _
    simp
  · intro row
    show row ∈ history.generated ↔ _
    simp
  · intro id
    show id ∈ history.drafted ↔ _
    simp
  · intro id
    show id ∈ history.spending ↔ _
    simp
  · rfl

theorem historyOf_extends (calls : List Call) (presents : ∀ call ∈ calls, isPresenting call.operation = true) :
    ∀ history, Extends history (blocksOf calls) (unconfirmedOf calls) (advancesOf calls) (historyOf history calls) := by
  induction calls with
  | nil => exact Extends.nil
  | cons call calls ih =>
    intro history
    have rest := ih (fun later member => presents later (List.mem_cons_of_mem call member)) (history.follow call.operation)
    have here := presents call List.mem_cons_self
    unfold blocksOf unconfirmedOf advancesOf historyOf at rest ⊢
    rw [List.flatMap_cons, List.flatMap_cons, List.flatMap_cons, List.foldl_cons]
    cases operation : call.operation with
    | addConfirmedTransactions account subchain transactions =>
      rw [operation] at rest
      exact (extends_addBlocks transactions history).append rest
    | addMempoolTransaction account subchain item =>
      rw [operation] at rest
      exact (extends_addUnconfirmed history item).append rest
    | advanceTo position =>
      rw [operation] at rest
      exact (extends_advance history position).append rest
    | _ =>
      rw [operation] at here
      cases here

theorem SameBlocks.exists_iff {first second : BatchedMatches} (same : SameBlocks first second)
    {holds : Position → BlockMatches → Prop} (perm : ∀ position items others, items.Perm others →
      (holds position items ↔ holds position others)) :
    (∃ block ∈ first, holds block.1 block.2) ↔ ∃ block ∈ second, holds block.1 block.2 := by
  induction same with
  | nil => rfl
  | cons pair _ ih => rw [List.exists_mem_cons_iff, List.exists_mem_cons_iff, ih, pair.1, perm _ _ _ pair.2]

/-- What matters of a history for the state of one output. -/
theorem stateOf_congr {other : History} (spent : id ∈ history.spentOutputs ↔ id ∈ other.spentOutputs)
    (spending : id ∉ other.spentOutputs → (id ∈ history.spending ↔ id ∈ other.spending))
    (mined : id ∈ history.minedOutputs ↔ id ∈ other.minedOutputs)
    (drafted : id ∉ other.minedOutputs → (id ∈ history.drafted ↔ id ∈ other.drafted))
    (immature : history.Immature target id ↔ other.Immature target id) :
    history.stateOf target id = other.stateOf target id := by
  unfold History.stateOf
  simp only [spent, mined, immature]
  by_cases gone : id ∈ other.spentOutputs
  · rw [if_pos gone, if_pos gone]
  · rw [if_neg gone, if_neg gone]
    simp only [spending gone]
    by_cases known : id ∈ other.minedOutputs
    · simp only [known, if_true]
    · simp only [known, if_false, drafted known]

theorem foldl_max (positions : List Position) (best : Int) (bounded : ∀ position ∈ positions, position.height ≤ destination.height)
    (reached : destination ∈ positions) :
    positions.foldl (fun best position => max best position.height) best = max best destination.height := by
  have grows : ∀ (positions : List Position) best, (∀ position ∈ positions, position.height ≤ destination.height) →
      positions.foldl (fun best position => max best position.height) best ≤ max best destination.height ∧
        best ≤ positions.foldl (fun best position => max best position.height) best ∧
        (destination ∈ positions →
          destination.height ≤ positions.foldl (fun best position => max best position.height) best) := by
    intro positions
    induction positions with
    | nil => exact fun best _ => ⟨le_max_left _ _, le_refl _, nofun⟩
    | cons position positions ih =>
      intro best bounded
      have here := bounded position List.mem_cons_self
      obtain ⟨upper, lower, meets⟩ := ih (max best position.height) fun later member =>
        bounded later (List.mem_cons_of_mem position member)
      rw [List.foldl_cons]
      refine ⟨?_, (le_max_left _ _).trans lower, fun member => ?_⟩
      · calc positions.foldl (fun best position => max best position.height) (max best position.height)
          _ ≤ max (max best position.height) destination.height := upper
          _ ≤ max best destination.height := by omega
      · rcases List.mem_cons.mp member with rfl | later
        · exact (le_max_right _ _).trans lower
        · exact meets later
  obtain ⟨upper, lower, meets⟩ := grows positions best bounded
  exact le_antisymm upper (max_le lower (meets reached))

/-- The history that the blocks alone make. -/
def presented (history : History) (blocks : BatchedMatches) (destination : Position) : History :=
  (blocks.foldl History.addBlock history).advance destination

theorem presented_state {calls : List Call} (presents : ∀ call ∈ calls, isPresenting call.operation = true)
    (same : SameBlocks (blocksOf calls) blocks) (seen : ∀ item ∈ unconfirmedOf calls, ∃ block ∈ blocks, item ∈ block.2)
    (reached : destination ∈ advancesOf calls) (bounded : ∀ position ∈ advancesOf calls, position.height ≤ destination.height) :
    (historyOf history calls).stateOf target id = (presented history blocks destination).stateOf target id := by
  have goes := historyOf_extends calls presents history
  have alone := extends_addBlocks blocks history
  have mined : id ∈ (historyOf history calls).minedOutputs ↔ id ∈ (presented history blocks destination).minedOutputs := by
    show _ ↔ id ∈ (blocks.foldl History.addBlock history).minedOutputs
    rw [goes.mined, alone.mined,
      @SameBlocks.exists_iff _ _ same (fun _ items => ReportsCreated items id) fun _ _ _ => ReportsCreated.perm]
  have spent : id ∈ (historyOf history calls).spentOutputs ↔ id ∈ (presented history blocks destination).spentOutputs := by
    show _ ↔ id ∈ (blocks.foldl History.addBlock history).spentOutputs
    rw [goes.spent, alone.spent, @SameBlocks.exists_iff _ _ same (fun _ items => Spends items id) fun _ _ _ => Spends.perm]
  apply stateOf_congr spent ?_ mined ?_ ?_
  · intro unspent
    show _ ↔ id ∈ (blocks.foldl History.addBlock history).spending
    rw [goes.spending, alone.spending]
    apply or_congr_right
    simp only [List.not_mem_nil, false_and, exists_false, iff_false]
    rintro ⟨item, member, spends⟩
    obtain ⟨block, inBlocks, inBlock⟩ := seen item member
    obtain ⟨other, only, index, matched, found⟩ := spends
    rw [List.mem_singleton.mp only] at matched found
    exact unspent ((alone.spent id).mpr (Or.inr ⟨block, inBlocks, item, inBlock, index, matched, found⟩))
  · intro unmined
    show _ ↔ id ∈ (blocks.foldl History.addBlock history).drafted
    rw [goes.drafted, alone.drafted]
    apply or_congr_right
    simp only [List.not_mem_nil, false_and, exists_false, iff_false]
    rintro ⟨item, member, output, other, only, created⟩
    obtain ⟨block, inBlocks, inBlock⟩ := seen item member
    rw [List.mem_singleton.mp only] at created
    exact unmined ((alone.mined id).mpr (Or.inr ⟨block, inBlocks, output, item, inBlock, created⟩))
  · have best : (historyOf history calls).best = (presented history blocks destination).best := by
      show _ = max (blocks.foldl History.addBlock history).best destination.height
      rw [goes.best, alone.best, foldl_max _ _ bounded reached]
      rfl
    have rows : ∀ row, row ∈ (historyOf history calls).generated ↔ row ∈ (presented history blocks destination).generated := by
      intro row
      show _ ↔ row ∈ (blocks.foldl History.addBlock history).generated
      rw [goes.generated, alone.generated, @SameBlocks.exists_iff _ _ same
        (fun position items => row.1 = position ∧ row.2 ∈ generatedOutputs items) ?_]
      intro position items others perm
      simp only [mem_generatedOutputs, ReportsCreated.perm perm, Generates.perm perm]
    unfold History.Immature
    rw [best]
    simp only [rows]

/-! ## Outputs -/

/-- No history tells of an error or an orphan. -/
theorem stateOf_progress {state : TxoState} (is : history.stateOf target id = some state) : 0 < progress state := by
  unfold History.stateOf at is
  split at is
  · cases is
    decide
  · split at is
    · cases is
      decide
    · split at is
      · split at is
        · cases is
          decide
        · cases is
          decide
      · split at is
        · cases is
          decide
        · cases is

/-- From the same output by the same blocks to the same state there is one way. -/
theorem continued_unique (valid : ValidBlocks blocks) {old : Option Output} {first second : Output}
    (one : Continued blocks destination id old first) (other : Continued blocks destination id old second)
    (same : first.state = second.state) (known : 0 < progress first.state)
    (wasKnown : ∀ base, old = some base → 0 < progress base.state)
    (unconfirmed : first.state = .unconfirmedNew ∨ first.state = .unconfirmedSpend → old.map Output.state = some first.state) :
    first = second := by
  have position : first.minedPosition = second.minedPosition := by
    by_cases rests : old.map Output.state = some first.state
    · obtain ⟨base, is, state⟩ := Option.map_eq_some_iff.mp rests
      rw [one.resting base is state.symm, other.resting base is (same.symm.trans state.symm)]
    · cases state : first.state with
      | unconfirmedNew => exact absurd (unconfirmed (Or.inl state)) rests
      | unconfirmedSpend => exact absurd (unconfirmed (Or.inr state)) rests
      | confirmedSpend =>
        rw [state] at rests
        exact valid.spent_unique (one.spent state rests) (other.spent (same.symm.trans state) rests)
      | immature =>
        rw [state] at rests
        exact valid.created_unique (one.immature state rests).2.2 (other.immature (same.symm.trans state) rests).2.2
      | confirmedNew =>
        have also : second.state = .confirmedNew := same.symm.trans state
        by_cases matures : old.map Output.state = some .immature ∨ old = none ∧ GeneratedIn blocks id
        · rw [one.matured state matures, other.matured also matures]
        · have confirms : old.map Output.state = some .unconfirmedNew ∨ old = none ∧ ¬ GeneratedIn blocks id := by
            rw [not_or] at matures
            cases isOld : old with
            | none => exact Or.inr ⟨rfl, fun generated => matures.2 ⟨isOld, generated⟩⟩
            | some base =>
              rw [isOld] at matures rests
              have grows := one.grows base isOld
              have positive := wasKnown base isOld
              rw [state] at grows rests
              left
              -- of the states up to the confirmed one only this is left
              cases was : base.state with
              | unconfirmedNew => exact congrArg some was
              | immature => exact absurd (congrArg some was) matures.1
              | confirmedNew => exact absurd (congrArg some was) rests
              | unconfirmedSpend => rw [was] at grows; exact absurd grows (by decide)
              | confirmedSpend => rw [was] at grows; exact absurd grows (by decide)
              | _ => rw [was] at positive; exact absurd positive (by decide)
          exact valid.created_unique (one.confirmed state confirms) (other.confirmed also confirms)
      | _ =>
        rw [state] at known
        exact absurd known (by decide)
  have content := one.content
  have otherContent := other.content
  unfold SameContent at content otherContent
  cases old with
  | some base =>
    dsimp only at content otherContent
    rw [content, otherContent, same, position]
  | none =>
    obtain ⟨created, creates, is⟩ := content
    obtain ⟨otherCreated, otherCreates, otherIs⟩ := otherContent
    rw [is, otherIs, valid.output_unique creates otherCreates, same, position]

/-- An unconfirmed output was so before the blocks, if nothing is left of what they present. -/
theorem presented_unconfirmed {state : TxoState} (unconfirmed : state = .unconfirmedNew ∨ state = .unconfirmedSpend)
    (is : (presented history blocks destination).stateOf target id = some state) : history.stateOf target id = some state := by
  have alone := extends_addBlocks blocks history
  have unspent : id ∉ (presented history blocks destination).spentOutputs := by
    intro spent
    rw [History.stateOf, if_pos spent, Option.some.injEq] at is
    rcases unconfirmed with new | spend
    · rw [new] at is
      cases is
    · rw [spend] at is
      cases is
  have before : id ∉ history.spentOutputs := fun spent => unspent ((alone.spent id).mpr (Or.inl spent))
  have sameSpending : id ∈ (presented history blocks destination).spending ↔ id ∈ history.spending := by
    show id ∈ (blocks.foldl History.addBlock history).spending ↔ _
    rw [alone.spending]
    simp
  have sameDrafted : id ∈ (presented history blocks destination).drafted ↔ id ∈ history.drafted := by
    show id ∈ (blocks.foldl History.addBlock history).drafted ↔ _
    rw [alone.drafted]
    simp
  rw [History.stateOf, if_neg unspent] at is
  rw [History.stateOf, if_neg before]
  simp only [sameSpending, sameDrafted] at is
  by_cases spending : id ∈ history.spending
  · rwa [if_pos spending] at is ⊢
  · rw [if_neg spending] at is ⊢
    by_cases mined : id ∈ (presented history blocks destination).minedOutputs
    · rw [if_pos mined] at is
      split at is
      · rw [Option.some.injEq] at is
        rcases unconfirmed with new | spend
        · rw [new] at is
          cases is
        · rw [spend] at is
          cases is
      · rw [Option.some.injEq] at is
        rcases unconfirmed with new | spend
        · rw [new] at is
          cases is
        · rw [spend] at is
          cases is
    · rw [if_neg mined] at is
      rwa [if_neg fun early => mined ((alone.mined id).mpr (Or.inl early))]

/-- Two caches that follow from one by the same blocks, in the same states, have the same outputs. -/
theorem follows_unique (valid : ValidBlocks blocks) {base first second : OutputCache} (origin : Tells target history base)
    (one : Follows blocks destination base first) (other : Follows blocks destination base second)
    (firstStates : ∀ id, (first.outputs id).map Output.state = (presented history blocks destination).stateOf target id)
    (secondStates : ∀ id, (second.outputs id).map Output.state = (presented history blocks destination).stateOf target id) :
    first.outputs = second.outputs := by
  funext id
  have firstState := firstStates id
  have secondState := secondStates id
  cases isFirst : first.outputs id with
  | none =>
    rw [isFirst] at firstState
    rw [← firstState, Option.map_none, Option.map_eq_none_iff] at secondState
    exact secondState.symm
  | some output =>
    rw [isFirst] at firstState
    rw [← firstState] at secondState
    obtain ⟨also, isSecond, same⟩ := Option.map_eq_some_iff.mp secondState
    rw [isSecond]
    refine congrArg some (continued_unique valid (one.continued id output isFirst) (other.continued id also isSecond) same.symm
      (stateOf_progress firstState.symm) (fun was found => ?_) (fun unconfirmed => ?_))
    · exact stateOf_progress (origin.known found)
    · rw [origin.states]
      exact presented_unconfirmed unconfirmed firstState.symm

/-! ## Owners -/

/-- The nyms are indexed as the keys of the outputs have them. -/
def Owned (environment : Environment) (cache : OutputCache) : Prop :=
  ∀ nym id, (nym, id) ∈ cache.indexes.nyms ↔
    ∃ output, cache.outputs id = some output ∧ ownerOf environment output.keys = some nym

theorem edit_owned {terms : Terms} {before after : Session} (edit : Edit terms before after)
    (owned : Owned terms.environment before.cache) : Owned terms.environment after.cache := by
  cases edit with
  | associations change _ reassociates =>
    rw [reassociates.cache]
    exact owned
  | proposals cache _ _ =>
    rw [cache]
    exact owned
  | replaced id old new _ keys _ replaced =>
    rw [replaced.cache]
    intro nym other
    rw [exists_update]
    dsimp only
    rw [owned, keys]
    by_cases same : other = id
    · subst same
      rw [replaced.found]
      simp
    · simp [same]
  | created id output isGeneration middle _ created isOwned =>
    rw [isOwned.cache, created.cache]
    intro nym other
    show (nym, other) ∈ ownerRows terms.environment id output.keys before.cache.indexes.nyms ↔
      ∃ found, Function.update before.cache.outputs id (some output) other = some found ∧
        ownerOf terms.environment found.keys = some nym
    rw [exists_update, mem_ownerRows, owned]
    by_cases same : other = id
    · subst same
      rw [created.fresh]
      simp
    · simp [same]
  | positioned position positioned =>
    rw [positioned.cache]
    exact owned
  | pruned good _ pruned =>
    rw [pruned.cache]
    exact owned
  | committed cache _ _ =>
    rw [cache]
    exact owned

theorem edits_owned {terms : Terms} {before after : Session} (edits : Edits terms before after)
    (owned : Owned terms.environment before.cache) : Owned terms.environment after.cache := by
  induction edits with
  | refl => exact owned
  | tail _ edit ih => exact edit_owned edit ih

theorem perform_owned {db : Database} {call : Call} {outcome : Outcome} (sound : Sound db)
    (owned : Owned environment (populate db.tables db.cache)) (commits : Commits call)
    (performed : perform environment db call = .ok outcome) (success : outcome.success = true) :
    Owned environment (populate outcome.db.tables outcome.db.cache) := by
  rcases perform_success performed success with ⟨id, content, operation, rfl⟩ | ⟨reserved, session, ran, rfl⟩
  · exact owned
  · have edits := (body_edits commits rfl ran).1
    have orderly := edits_orderly edits (sound_start sound call.writes)
    have ends : Owned environment session.cache := edits_owned edits owned
    have loaded : populate session.committed session.cache = session.cache := by
      rw [populate, if_pos orderly.mirrored.populated]
    show Owned environment (populate session.committed session.cache)
    rw [loaded]
    exact ends

theorem run_owned {calls : List Call} : ∀ {db final : Database}, Sound db → Owned environment (populate db.tables db.cache) →
    (∀ call ∈ calls, isForward call.operation = true) → succeeds environment db calls = some final →
      Owned environment (populate final.tables final.cache) := by
  induction calls with
  | nil =>
    intro db final _ owned _ ran
    cases ran
    exact owned
  | cons call calls ih =>
    intro db final sound owned forward ran
    obtain ⟨outcome, performed, success, rest⟩ := succeeds_cons ran
    have commits := commits_of_forward (forward call List.mem_cons_self)
    exact ih (perform_sound commits sound performed) (perform_owned sound owned commits performed success)
      (fun next member => forward next (List.mem_cons_of_mem call member)) rest

theorem owned_empty : Owned environment (populate {} {}) := by
  intro nym id
  exact ⟨nofun, fun ⟨_, found, _⟩ => by cases found⟩

/-! ## Balances -/

section Same

variable {first second : OutputCache} (outputs : first.outputs = second.outputs)
  (firstFiled : Filed first.outputs first.indexes.states) (secondFiled : Filed second.outputs second.indexes.states)
include outputs firstFiled secondFiled

theorem sumOf_same {belongs also : Outpoint → Bool} (same : belongs = also) (state : TxoState) :
    sumOf first belongs state = sumOf second also state := by
  have states : getState first state = getState second state := by
    ext id
    unfold getState
    rw [Index.mem_rows, Index.mem_rows, firstFiled.states, secondFiled.states, outputs]
  unfold sumOf
  rw [states, same]
  apply Finset.sum_congr rfl
  intro id _
  rw [valueOf, valueOf, outputs]

theorem balanceOf_same {belongs also : Outpoint → Bool} (same : belongs = also) :
    balanceOf first belongs = balanceOf second also := by
  unfold balanceOf
  simp only [sumOf_same outputs firstFiled secondFiled same]

end Same

/-! ## Open proposals -/

theorem settle_perm (proposals : OpenProposals) {items others : BlockMatches} (perm : items.Perm others) :
    proposals.settle items = proposals.settle others := by
  unfold OpenProposals.settle
  simp only [ReportsCreated.perm perm, Spends.perm perm]

def settleAll (proposals : OpenProposals) (blocks : BatchedMatches) : OpenProposals :=
  blocks.foldl (fun proposals entry => proposals.settle entry.2) proposals

theorem settleAll_same {first second : BatchedMatches} (same : SameBlocks first second) (proposals : OpenProposals) :
    settleAll proposals first = settleAll proposals second := by
  induction same generalizing proposals with
  | nil => rfl
  | cons pair _ ih =>
    unfold settleAll at ih ⊢
    rw [List.foldl_cons, List.foldl_cons, settle_perm proposals pair.2, ih]

theorem opened_presented {calls : List Call} (presents : ∀ call ∈ calls, isPresenting call.operation = true) :
    ∀ {db final : Database} (proposals : OpenProposals), succeeds environment db calls = some final →
      opened environment db proposals calls = settleAll proposals (blocksOf calls) := by
  induction calls with
  | nil => exact fun _ _ => rfl
  | cons call calls ih =>
    intro db final proposals ran
    obtain ⟨outcome, performed, _, rest⟩ := succeeds_cons ran
    have here := presents call List.mem_cons_self
    have later := @ih (fun next member => presents next (List.mem_cons_of_mem call member)) outcome.db final
      (proposals.follow call.operation outcome.reserved) rest
    unfold opened blocksOf
    rw [performed, List.flatMap_cons]
    dsimp only
    rw [later]
    unfold settleAll
    rw [List.foldl_append]
    cases operation : call.operation with
    | addConfirmedTransactions account subchain transactions => rfl
    | addMempoolTransaction account subchain item => rfl
    | advanceTo position => rfl
    | _ =>
      rw [operation] at here
      cases here

/-! ## Order independence -/

/-- Blocks stand at heights, and no spent output is matured. -/
def settling (environment : Environment) : Conditions where
  block := Timely
  mempool _ _ := True
  advance := MaturesUnspent environment
  finalize _ _ := True

theorem settling_keeps (environment : Environment) : (settling environment).Keeps environment fun _ _ => True where
  timely _ _ timely := timely
  unspent _ _ unspent := unspent
  block _ _ _ _ := trivial
  mempool _ _ _ _ := trivial
  idle _ _ _ _ := trivial
  advance := by
    intros
    trivial
  finalize := by
    intros
    trivial
  same _ _ _ _ := trivial

/-- The output cache as the next call finds it. -/
def loaded (db : Database) : OutputCache := populate db.tables db.cache

/-- What a wallet shows of its outputs and its proposals. -/
structure SameWallet (first second : Database) : Prop where
  outputs : stored first = stored second
  balance : getBalance (loaded first) = getBalance (loaded second)
  nyms : ∀ nym, getNymBalance (loaded first) nym = getNymBalance (loaded second) nym
  created : (loaded first).createdByProposal = (loaded second).createdByProposal
  consumed : (loaded first).consumedByProposal = (loaded second).consumedByProposal
  finished : first.proposalData.finished = second.proposalData.finished

theorem presenting_forward {calls : List Call} (presents : ∀ call ∈ calls, isPresenting call.operation = true) :
    ∀ call ∈ calls, isForward call.operation = true := by
  intro call member
  have here := presents call member
  cases operation : call.operation with
  | reorg blocks ancestor committed =>
    rw [operation] at here
    cases here
  | _ => rfl

/-- Every advance of a presentation goes no further than the destination. -/
theorem presentation_bounded {calls : List Call} : ∀ {db final : Database}, succeeds environment db calls = some final →
    Along environment ((presenting environment destination).Met environment) db calls →
      ∀ position ∈ advancesOf calls, position.height ≤ destination.height := by
  induction calls with
  | nil => exact fun _ _ _ member => by cases member
  | cons call calls ih =>
    intro db final ran along position member
    obtain ⟨outcome, performed, _, rest⟩ := succeeds_cons ran
    obtain ⟨here, later⟩ := along
    rw [performed] at later
    unfold advancesOf at member
    rw [List.flatMap_cons, List.mem_append] at member
    rcases member with now | afterwards
    · unfold Conditions.Met at here
      cases operation : call.operation with
      | advanceTo target =>
        rw [operation] at now here
        rw [List.mem_singleton.mp now]
        exact Heads.within here
      | _ =>
        rw [operation] at now
        cases now
    · exact ih rest later position afterwards

/-- What one presentation makes of a wallet. -/
theorem presentation_ends {db final : Database} {calls : List Call} {proposals : OpenProposals} (sound : Sound db)
    (tells : Tells environment.maturationTarget history (loaded db)) (owned : Owned environment (loaded db))
    (represents : Represents proposals (start db [])) (valid : ValidBlocks blocks)
    (presentation : Presentation environment db blocks destination calls) (ran : succeeds environment db calls = some final) :
    Filed (loaded final).outputs (loaded final).indexes.states ∧ Owned environment (loaded final) ∧
      Follows blocks destination (loaded db) (loaded final) ∧
      (∀ id, ((loaded final).outputs id).map Output.state =
        (presented history blocks destination).stateOf environment.maturationTarget id) ∧
      Represents (settleAll proposals blocks) (start final []) := by
  have forward := presenting_forward presentation.presents
  obtain ⟨soundFinal, tellsFinal, follows⟩ := run_holds (presentingOf_keeps valid (loaded db)) sound
    ⟨tells, follows_self blocks destination (loaded db)⟩ forward presentation.along ran
  refine ⟨(sound_start soundFinal []).filed, run_owned sound owned forward ran, follows, fun id => ?_, ?_⟩
  · show ((populate final.tables final.cache).outputs id).map Output.state = _
    rw [tellsFinal.states]
    exact presented_state presentation.presents presentation.same presentation.seen presentation.reached
      (presentation_bounded ran presentation.orderly)
  · have ends := run_represents represents presentation.awaited ran
    rwa [opened_presented presentation.presents proposals ran, settleAll_same presentation.same] at ends

/-- However the blocks are presented to the wallet, it shows the same at the end. -/
theorem presentations_agree {earlier first second : List Call} {base one other : Database}
    (began : succeeds environment {} earlier = some base) (forward : ∀ call ∈ earlier, isForward call.operation = true)
    (settled : Along environment ((settling environment).Met environment) {} earlier)
    (awaited : Along environment (MovesAwaited environment) {} earlier) (valid : ValidBlocks blocks)
    (presentsFirst : Presentation environment base blocks destination first) (ranFirst : succeeds environment base first = some one)
    (presentsSecond : Presentation environment base blocks destination second)
    (ranSecond : succeeds environment base second = some other) : SameWallet one other := by
  obtain ⟨sound, tells, _⟩ := run_holds (settling_keeps environment) sound_empty ⟨tells_empty _, trivial⟩ forward settled began
  have owned := run_owned sound_empty owned_empty forward began
  have represents := run_represents represents_empty awaited began
  obtain ⟨firstFiled, firstOwned, firstFollows, firstStates, firstRepresents⟩ :=
    presentation_ends sound tells owned represents valid presentsFirst ranFirst
  obtain ⟨secondFiled, secondOwned, secondFollows, secondStates, secondRepresents⟩ :=
    presentation_ends sound tells owned represents valid presentsSecond ranSecond
  have outputs := follows_unique valid tells firstFollows secondFollows firstStates secondStates
  refine ⟨outputs, balanceOf_same outputs firstFiled secondFiled rfl, fun nym => ?_, ?_, ?_, ?_⟩
  · apply balanceOf_same outputs firstFiled secondFiled
    funext id
    rw [decide_eq_decide, firstOwned, secondOwned, outputs]
  · exact firstRepresents.created.trans secondRepresents.created.symm
  · exact firstRepresents.consumed.trans secondRepresents.consumed.symm
  · exact firstRepresents.finished.trans secondRepresents.finished.symm

/-! ## A payment that is seen first -/

def paymentBlocks : BatchedMatches := [(⟨1, 1⟩, [⟨[], [0], payment⟩]), (⟨2, 2⟩, [⟨[0], [], purchase⟩])]

/-- Each block by itself. -/
def blockByBlock (height : Int) : List Call :=
  [addBlock 1 [⟨[], [0], payment⟩], addBlock 2 [⟨[0], [], purchase⟩], advance height]

/-- The payment from the mempool, and then both blocks at once. -/
def mempoolFirst (height : Int) : List Call :=
  [addUnconfirmed ⟨[], [0], payment⟩, { operation := .addConfirmedTransactions 1 1 paymentBlocks }, advance height]

instance (environment : Environment) (destination : Position) (db : Database) (call : Call) :
    Decidable ((presenting environment destination).Met environment db call) :=
  match call with
  | { operation := .addConfirmedTransactions .., .. } =>
    inferInstanceAs (Decidable (Program.Throughout (fun entry (session : Session) => Presentable environment session.cache entry) _ _ _))
  | { operation := .advanceTo position, .. } => inferInstanceAs (Decidable (Heads environment destination _ position))
  | { operation := .finalizeProposal .., .. } => inferInstanceAs (Decidable False)
  | { operation := .addProposal .., .. } | { operation := .addMempoolTransaction .., .. }
  | { operation := .cancelProposal .., .. } | { operation := .reserveUTXO .., .. }
  | { operation := .reserveOutpoint .., .. } | { operation := .reorg .., .. } =>
    inferInstanceAs (Decidable True)

theorem paymentBlocks_valid : ValidBlocks paymentBlocks := by
  constructor
  · intro first firstMember second secondMember item inFirst other inSecond same
    simp only [paymentBlocks, List.mem_cons, List.not_mem_nil, or_false] at firstMember secondMember
    rcases firstMember with rfl | rfl <;> rcases secondMember with rfl | rfl <;>
      rw [List.mem_singleton.mp inFirst, List.mem_singleton.mp inSecond] at same ⊢
    · exact ⟨rfl, rfl⟩
    · exact absurd same (by decide)
    · exact absurd same (by decide)
    · exact ⟨rfl, rfl⟩
  · intro first firstMember second secondMember id early late
    simp only [paymentBlocks, List.mem_cons, List.not_mem_nil, or_false] at firstMember secondMember
    have unspent : ∀ id, ¬ Spends [⟨[], [0], payment⟩] id := by
      rintro id ⟨item, member, index, matched, _⟩
      rw [List.mem_singleton.mp member] at matched
      cases matched
    rcases firstMember with rfl | rfl
    · exact absurd early (unspent id)
    · rcases secondMember with rfl | rfl
      · exact absurd late (unspent id)
      · rfl

theorem paymentBlocks_seen {height : Int} : ∀ item ∈ unconfirmedOf (mempoolFirst height), ∃ block ∈ paymentBlocks, item ∈ block.2 := by
  intro item member
  rw [List.mem_singleton.mp (show item ∈ [_] from member)]
  exact ⟨_, List.mem_cons_self, List.mem_singleton_self _⟩

theorem payment_presented : ∃ one other, succeeds household {} (blockByBlock 50) = some one ∧
    succeeds household {} (mempoolFirst 50) = some other ∧ SameWallet one other := by
  have orderlyFirst : Along household ((presenting household ⟨50, 50⟩).Met household) {} (blockByBlock 50) := by decide +kernel
  have orderlySecond : Along household ((presenting household ⟨50, 50⟩).Met household) {} (mempoolFirst 50) := by decide +kernel
  have awaitedFirst : Along household (MovesAwaited household) {} (blockByBlock 50) := by decide +kernel
  have awaitedSecond : Along household (MovesAwaited household) {} (mempoolFirst 50) := by decide +kernel
  have goesFirst : (succeeds household {} (blockByBlock 50)).isSome = true := by decide +kernel
  have goesSecond : (succeeds household {} (mempoolFirst 50)).isSome = true := by decide +kernel
  obtain ⟨one, ranFirst⟩ := Option.isSome_iff_exists.mp goesFirst
  obtain ⟨other, ranSecond⟩ := Option.isSome_iff_exists.mp goesSecond
  have sameBlocks : SameBlocks paymentBlocks paymentBlocks := List.forall₂_same.mpr fun _ _ => ⟨rfl, .refl _⟩
  have presentsFirst : Presentation household {} paymentBlocks ⟨50, 50⟩ (blockByBlock 50) :=
    ⟨by decide, sameBlocks, nofun, by decide, orderlyFirst, awaitedFirst⟩
  have presentsSecond : Presentation household {} paymentBlocks ⟨50, 50⟩ (mempoolFirst 50) :=
    ⟨by decide, sameBlocks, paymentBlocks_seen, by decide, orderlySecond, awaitedSecond⟩
  refine ⟨one, other, ranFirst, ranSecond, ?_⟩
  exact @presentations_agree household paymentBlocks ⟨50, 50⟩ [] (blockByBlock 50) (mempoolFirst 50) {} one other rfl nofun
    trivial trivial paymentBlocks_valid presentsFirst ranFirst presentsSecond ranSecond

/-- Past the height at which the payment would mature, it counts as new when its block created it
and as spent when the mempool did. -/
theorem payment_shown_twice : ∃ one other, succeeds household {} (blockByBlock 101) = some one ∧
    succeeds household {} (mempoolFirst 101) = some other ∧
    SameBlocks (blocksOf (blockByBlock 101)) paymentBlocks ∧ SameBlocks (blocksOf (mempoolFirst 101)) paymentBlocks ∧
    ValidBlocks paymentBlocks ∧ (∀ item ∈ unconfirmedOf (mempoolFirst 101), ∃ block ∈ paymentBlocks, item ∈ block.2) ∧
    advancesOf (blockByBlock 101) = advancesOf (mempoolFirst 101) ∧
    (stored one ⟨1, 0⟩).map Output.state = some .confirmedNew ∧ (stored other ⟨1, 0⟩).map Output.state = some .confirmedSpend := by
  have evaluated : ((succeeds household {} (blockByBlock 101)).map fun db => (stored db ⟨1, 0⟩).map Output.state) =
      some (some .confirmedNew) := by decide +kernel
  have otherwise : ((succeeds household {} (mempoolFirst 101)).map fun db => (stored db ⟨1, 0⟩).map Output.state) =
      some (some .confirmedSpend) := by decide +kernel
  obtain ⟨one, ranFirst, new⟩ := Option.map_eq_some_iff.mp evaluated
  obtain ⟨other, ranSecond, spent⟩ := Option.map_eq_some_iff.mp otherwise
  have sameBlocks : SameBlocks paymentBlocks paymentBlocks := List.forall₂_same.mpr fun _ _ => ⟨rfl, .refl _⟩
  exact ⟨one, other, ranFirst, ranSecond, sameBlocks, sameBlocks, paymentBlocks_valid, paymentBlocks_seen, rfl, new, spent⟩

end Opentxs.Wallet.OrderIndependence
