import Mathlib.Data.Finset.Prod
import Opentxs.Wallet.Generations
import Opentxs.Wallet.SpentStays

/-! What blocks and unconfirmed transactions have reported in the course of a run that rolls
nothing back, and the one state of every output that tells it. -/

namespace Opentxs.Wallet.Histories
open Library Library.Ordered HeaderOracle BlockHeader Types Storage OutputCache Parsing Reports Outputs
open Tracking Associations Editing Effects Runs Generations SpentStays

/-! ## Histories -/

/-- The outputs that added blocks create and spend, by the position of the block, those that
unconfirmed transactions create and spend, and the greatest height that was advanced to. -/
structure History where
  mined : Index Position := ∅
  generated : Index Position := ∅
  spent : Index Position := ∅
  drafted : Finset Outpoint := ∅
  spending : Finset Outpoint := ∅
  best : Int := -1

namespace History

def minedOutputs (history : History) : Finset Outpoint := history.mined.image Prod.snd

def spentOutputs (history : History) : Finset Outpoint := history.spent.image Prod.snd

/-- Generation transactions create the output, and none of them is deep enough. -/
def Immature (target : Int) (history : History) (id : Outpoint) : Prop :=
  (∃ row ∈ history.generated, row.2 = id) ∧
    ∀ row ∈ history.generated, row.2 = id → isMature row.1.height history.best target = false

instance (target : Int) (history : History) (id : Outpoint) : Decidable (history.Immature target id) :=
  inferInstanceAs (Decidable (_ ∧ _))

/-- The state that tells the history of an output. -/
def stateOf (target : Int) (history : History) (id : Outpoint) : Option TxoState :=
  if id ∈ history.spentOutputs then some .confirmedSpend
  else if id ∈ history.spending then some .unconfirmedSpend
  else if id ∈ history.minedOutputs then
    if history.Immature target id then some .immature else some .confirmedNew
  else if id ∈ history.drafted then some .unconfirmedNew
  else none

def addBlock (history : History) (entry : Position × BlockMatches) : History :=
  { history with
    mined := history.mined ∪ ({entry.1} : Finset Position) ×ˢ createdOutputs entry.2
    generated := history.generated ∪ ({entry.1} : Finset Position) ×ˢ generatedOutputs entry.2
    spent := history.spent ∪ ({entry.1} : Finset Position) ×ˢ consumedOutputs entry.2 }

def addUnconfirmed (history : History) (created spent : Finset Outpoint) : History :=
  { history with drafted := history.drafted ∪ created, spending := history.spending ∪ spent }

def advance (history : History) (position : Position) : History :=
  { history with best := max history.best position.height }

/-- What a successful call adds to the history. -/
def follow (history : History) : Operation → History
  | .addConfirmedTransactions _ _ transactions => transactions.foldl addBlock history
  | .addMempoolTransaction _ _ item => history.addUnconfirmed (createdOutputs [item]) (consumedOutputs [item])
  | .advanceTo position => history.advance position
  | .finalizeProposal _ _ transaction => history.addUnconfirmed (getOutputs transaction) (getInputs transaction)
  | _ => history

variable {target : Int} {history : History} {id : Outpoint}

theorem mem_mined_addBlock (history : History) (entry : Position × BlockMatches) (id : Outpoint) :
    id ∈ (history.addBlock entry).minedOutputs ↔ id ∈ history.minedOutputs ∨ ReportsCreated entry.2 id := by
  unfold minedOutputs addBlock
  rw [Finset.image_union, Finset.mem_union]
  apply or_congr_right
  simp

theorem mem_spent_addBlock (history : History) (entry : Position × BlockMatches) (id : Outpoint) :
    id ∈ (history.addBlock entry).spentOutputs ↔ id ∈ history.spentOutputs ∨ Spends entry.2 id := by
  unfold spentOutputs addBlock
  rw [Finset.image_union, Finset.mem_union]
  apply or_congr_right
  simp

/-- With a block that generates the output it is immature if it was not mature before and the
block is not deep enough. -/
theorem immature_addBlock (target : Int) (history : History) (entry : Position × BlockMatches) (id : Outpoint) :
    (history.addBlock entry).Immature target id ↔
      if id ∈ generatedOutputs entry.2 then isMature entry.1.height history.best target = false ∧
        ∀ row ∈ history.generated, row.2 = id → isMature row.1.height history.best target = false
      else history.Immature target id := by
  have rows : ∀ row : Position × Outpoint, row ∈ (history.addBlock entry).generated ↔
      row ∈ history.generated ∨ row.1 = entry.1 ∧ row.2 ∈ generatedOutputs entry.2 := by
    intro row
    show row ∈ history.generated ∪ ({entry.1} : Finset Position) ×ˢ generatedOutputs entry.2 ↔ _
    rw [Finset.mem_union, Finset.mem_product, Finset.mem_singleton]
  unfold Immature
  split
  · rename_i generated
    constructor
    · rintro ⟨_, all⟩
      refine ⟨all (entry.1, id) ((rows _).mpr (Or.inr ⟨rfl, generated⟩)) rfl, fun row member same => ?_⟩
      exact all row ((rows _).mpr (Or.inl member)) same
    · rintro ⟨here, before⟩
      refine ⟨⟨(entry.1, id), (rows _).mpr (Or.inr ⟨rfl, generated⟩), rfl⟩, fun row member same => ?_⟩
      rcases (rows _).mp member with early | ⟨is, _⟩
      · exact before row early same
      · rw [is]
        exact here
  · rename_i other
    have unchanged : ∀ row : Position × Outpoint, row.2 = id →
        (row ∈ (history.addBlock entry).generated ↔ row ∈ history.generated) := by
      rintro row rfl
      rw [rows]
      exact or_iff_left fun late => other late.2
    constructor
    · rintro ⟨⟨row, member, same⟩, all⟩
      exact ⟨⟨row, (unchanged row same).mp member, same⟩, fun row member same => all row ((unchanged row same).mpr member) same⟩
    · rintro ⟨⟨row, member, same⟩, all⟩
      exact ⟨⟨row, (unchanged row same).mpr member, same⟩, fun row member same => all row ((unchanged row same).mp member) same⟩

theorem not_mined_of_none (nothing : history.stateOf target id = none) : id ∉ history.minedOutputs := by
  intro mined
  unfold stateOf at nothing
  split at nothing
  · cases nothing
  · split at nothing
    · cases nothing
    · split at nothing
      · cases nothing
      · cases nothing

/-- What is immature is mined, not spent by anyone, and has been generated too late. -/
theorem immature_cases (is : history.stateOf target id = some .immature) :
    id ∉ history.spentOutputs ∧ id ∉ history.spending ∧ id ∈ history.minedOutputs ∧ history.Immature target id := by
  unfold stateOf at is
  split at is
  · cases is
  · rename_i unspent
    split at is
    · cases is
    · rename_i unspending
      split at is
      · rename_i mined
        split at is
        · rename_i young
          exact ⟨unspent, unspending, mined, young⟩
        · cases is
      · split at is <;> cases is

theorem stateOf_immature (unspent : id ∉ history.spentOutputs) (unspending : id ∉ history.spending)
    (mined : id ∈ history.minedOutputs) (young : history.Immature target id) : history.stateOf target id = some .immature := by
  rw [stateOf, if_neg unspent, if_neg unspending, if_pos mined, if_pos young]

theorem stateOf_mature (unspent : id ∉ history.spentOutputs) (unspending : id ∉ history.spending)
    (mined : id ∈ history.minedOutputs) (ripe : ¬ history.Immature target id) :
    history.stateOf target id = some .confirmedNew := by
  rw [stateOf, if_neg unspent, if_neg unspending, if_pos mined, if_neg ripe]

theorem stateOf_unmined (unspent : id ∉ history.spentOutputs) (unspending : id ∉ history.spending)
    (unmined : id ∉ history.minedOutputs) :
    history.stateOf target id = if id ∈ history.drafted then some .unconfirmedNew else none := by
  rw [stateOf, if_neg unspent, if_neg unspending, if_neg unmined]

end History

/-! ## The state of an output tells its history -/

/-- What the wallet knows of its outputs is their history. The generation outputs with a height
are mined, and show those that wait for their maturity. -/
structure Tells (target : Int) (history : History) (cache : OutputCache) : Prop where
  states : ∀ id, (cache.outputs id).map Output.state = history.stateOf target id
  generatedMined : ∀ row ∈ history.generated, row.2 ∈ history.minedOutputs
  heights : ∀ row ∈ history.generated, 0 ≤ row.1.height
  notAhead : (getPosition cache).height ≤ history.best
  current : (getPosition cache).height = history.best ∨ history.best < target
  entriesStored : ∀ entry ∈ cache.generationOutputs, history.stateOf target entry.2 ≠ none
  entriesMined : ∀ entry ∈ cache.generationOutputs, 0 ≤ entry.1 → entry.2 ∈ history.minedOutputs
  entriesGenerated : ∀ entry ∈ cache.generationOutputs, history.stateOf target entry.2 = some .immature →
    ∃ position, position.height = entry.1 ∧ (position, entry.2) ∈ history.generated
  waiting : ∀ id, history.stateOf target id = some .immature → ∃ position, (position, id) ∈ history.generated ∧
    (position.height, id) ∈ cache.generationOutputs ∧
      ∀ other, (other, id) ∈ history.generated → position.height ≤ other.height

variable {environment : Environment} {target : Int} {history : History} {before after : Session}

theorem Tells.known {cache : OutputCache} (tells : Tells target history cache) {id : Outpoint} {output : Output}
    (found : cache.outputs id = some output) : history.stateOf target id = some output.state := by
  rw [← tells.states, found]
  rfl

theorem Tells.stored {cache : OutputCache} (tells : Tells target history cache) {row : Int × Outpoint}
    (member : row ∈ cache.generationOutputs) : ∃ output, cache.outputs row.2 = some output := by
  have stored := tells.entriesStored row member
  rw [← tells.states] at stored
  cases found : cache.outputs row.2 with
  | none =>
    rw [found] at stored
    exact absurd rfl stored
  | some output => exact ⟨output, rfl⟩

/-- The height up to which outputs are mature by the wallet's position is that of the history. -/
theorem Tells.mature {cache : OutputCache} (tells : Tells target history cache) {height : Int} (positive : 0 ≤ height) :
    isMature height (getPosition cache).height target = isMature height history.best target := by
  rcases tells.current with same | early
  · rw [same]
  · have notAhead := tells.notAhead
    unfold isMature
    rw [decide_eq_decide]
    omega

/-! ## The states of a history -/

/-- The state in which a block creates an output, by the history. -/
def minedState (target : Int) (history : History) (entry : Position × BlockMatches) (id : Outpoint) : TxoState :=
  if id ∈ generatedOutputs entry.2 ∧ isMature entry.1.height history.best target = false then .immature else .confirmedNew

/-- What a block has to respect that is parsed. -/
structure Admissible (target : Int) (history : History) (entry : Position × BlockMatches) (id : Outpoint) : Prop where
  permits : ReportsCreated entry.2 id → ∀ old, history.stateOf target id = some old →
    checkTransition old (minedState target history entry id) = .ok .allowed ∨
      checkTransition old (minedState target history entry id) = .ok .unnecessary
  present : Spends entry.2 id → history.stateOf target id = none → ReportsCreated entry.2 id

/-- An output that is created again by a generation transaction matures no differently. -/
theorem immature_again {entry : Position × BlockMatches} {id : Outpoint} (admissible : Admissible target history entry id)
    (unspent : id ∉ history.spentOutputs) (unspending : id ∉ history.spending) (mined : id ∈ history.minedOutputs) :
    (history.addBlock entry).Immature target id ↔ history.Immature target id := by
  rw [History.immature_addBlock]
  split
  · rename_i generated
    have permits := admissible.permits ((mem_generatedOutputs _ _).mp generated).1
    by_cases early : isMature entry.1.height history.best target = false
    · have creates : minedState target history entry id = .immature := if_pos ⟨generated, early⟩
      rw [creates] at permits
      -- only what is immature can be created as immature again
      have immature : history.Immature target id := by
        by_contra other
        rcases permits _ (History.stateOf_mature unspent unspending mined other) with checked | checked <;> cases checked
      exact ⟨fun _ => immature, fun _ => ⟨early, immature.2⟩⟩
    · have creates : minedState target history entry id = .confirmedNew := if_neg fun both => early both.2
      rw [creates] at permits
      refine ⟨fun both => absurd both.1 early, fun immature => ?_⟩
      rcases permits _ (History.stateOf_immature unspent unspending mined immature) with checked | checked <;> cases checked
  · rfl

/-- An output that no block created before is immature as the block creates it. -/
theorem immature_anew (known : ∀ row ∈ history.generated, row.2 ∈ history.minedOutputs) (entry : Position × BlockMatches)
    {id : Outpoint} (unmined : id ∉ history.minedOutputs) : (history.addBlock entry).Immature target id ↔
      id ∈ generatedOutputs entry.2 ∧ isMature entry.1.height history.best target = false := by
  have unknown : ∀ row ∈ history.generated, row.2 = id → isMature row.1.height history.best target = false := by
    rintro row member rfl
    exact absurd (known row member) unmined
  rw [History.immature_addBlock]
  split
  · rename_i generated
    exact ⟨fun both => ⟨generated, both.1⟩, fun both => ⟨both.2, unknown⟩⟩
  · rename_i other
    refine ⟨?_, fun both => absurd both.1 other⟩
    rintro ⟨⟨row, member, rfl⟩, _⟩
    exact absurd (known row member) unmined

/-- The moves of a block make of the state what tells the longer history. -/
theorem stateOf_addBlock (known : ∀ row ∈ history.generated, row.2 ∈ history.minedOutputs) {entry : Position × BlockMatches}
    {id : Outpoint} (admissible : Admissible target history entry id) :
    (history.addBlock entry).stateOf target id =
      if moves (history.stateOf target id) (ReportsCreated entry.2 id) (Spends entry.2 id) then
        some (if Spends entry.2 id then .confirmedSpend else minedState target history entry id)
      else history.stateOf target id := by
  have same : id ∈ (history.addBlock entry).spending ↔ id ∈ history.spending := Iff.rfl
  have sameDrafts : id ∈ (history.addBlock entry).drafted ↔ id ∈ history.drafted := Iff.rfl
  have nowSpent := History.mem_spent_addBlock history entry id
  have nowMined := History.mem_mined_addBlock history entry id
  unfold History.stateOf
  simp only [nowSpent, nowMined, same, sameDrafts]
  by_cases gone : id ∈ history.spentOutputs
  · simp only [gone, true_or, if_true, moves, Bool.false_eq_true, if_false]
  by_cases spends : Spends entry.2 id
  · -- whatever is stored moves, and what is not is created here
    have moved : moves (history.stateOf target id) (ReportsCreated entry.2 id) true = true := by
      cases old : history.stateOf target id with
      | none =>
        rw [decide_eq_true (admissible.present spends old)]
        rfl
      | some state =>
        cases state with
        | confirmedSpend =>
          unfold History.stateOf at old
          rw [if_neg gone] at old
          split at old
          · cases old
          · split at old
            · split at old <;> cases old
            · split at old <;> cases old
        | unconfirmedNew => exact Bool.or_true _
        | orphanedNew => exact Bool.or_true _
        | _ => rfl
    unfold History.stateOf at moved
    simp only [gone, if_false] at moved
    simp only [gone, spends, or_true, if_true, if_false, decide_true, moved]
  · simp only [gone, spends, or_self, if_false, decide_false]
    by_cases spending : id ∈ history.spending
    · simp only [spending, if_true, moves, Bool.false_eq_true, if_false]
    by_cases mined : id ∈ history.minedOutputs
    · simp only [spending, mined, true_or, if_true, if_false, immature_again admissible gone spending mined]
      split <;> simp only [moves, Bool.false_eq_true, if_false]
    · simp only [spending, mined, false_or, if_false, immature_anew known entry mined]
      by_cases created : ReportsCreated entry.2 id
      · simp only [created, if_true, decide_true]
        have moved : moves (if id ∈ history.drafted then some TxoState.unconfirmedNew else none) true false = true := by
          split <;> rfl
        rw [if_pos moved, minedState]
        split <;> rfl
      · simp only [created, if_false, decide_false]
        split <;> rfl

theorem moves_resting (old : Option TxoState) : moves old false false = false := by
  cases old with
  | none => rfl
  | some state => cases state <;> rfl

/-- After a block an output is immature that was immature before, or that the block creates anew. -/
theorem immature_addBlock_cases (known : ∀ row ∈ history.generated, row.2 ∈ history.minedOutputs)
    {entry : Position × BlockMatches} {id : Outpoint} (admissible : Admissible target history entry id)
    (immature : (history.addBlock entry).stateOf target id = some .immature) :
    history.stateOf target id = some .immature ∨ history.stateOf target id = none ∧ ReportsCreated entry.2 id ∧
      ¬ Spends entry.2 id ∧ id ∈ generatedOutputs entry.2 ∧ minedState target history entry id = .immature := by
  obtain ⟨unspentNow, unspending, minedNow, young⟩ := History.immature_cases immature
  rw [History.mem_spent_addBlock, not_or] at unspentNow
  obtain ⟨unspent, notHere⟩ := unspentNow
  replace unspending : id ∉ history.spending := unspending
  by_cases mined : id ∈ history.minedOutputs
  · rw [immature_again admissible unspent unspending mined] at young
    exact Or.inl (History.stateOf_immature unspent unspending mined young)
  · rw [immature_anew known entry mined] at young
    have created := ((mem_generatedOutputs _ _).mp young.1).1
    have creates : minedState target history entry id = .immature := if_pos young
    refine Or.inr ⟨?_, created, notHere, young.1, creates⟩
    have state := @History.stateOf_unmined target _ _ unspent unspending mined
    split at state
    · -- what is new by unconfirmed transactions cannot become immature
      have permits := admissible.permits created _ state
      rw [creates] at permits
      rcases permits with checked | checked <;> cases checked
    · exact state

/-! ## Blocks -/

/-- A block stands at a height, and creates no immature output again at a lower height. -/
structure Timely (cache : OutputCache) (entry : Position × BlockMatches) : Prop where
  height : 0 ≤ entry.1.height
  again : ∀ id, id ∈ generatedOutputs entry.2 → (cache.outputs id).map Output.state = some .immature →
    ∃ row ∈ cache.generationOutputs, row.2 = id ∧ row.1 ≤ entry.1.height

instance (cache : OutputCache) (entry : Position × BlockMatches) : Decidable (Timely cache entry) :=
  decidable_of_iff (0 ≤ entry.1.height ∧
      ∀ id ∈ generatedOutputs entry.2, (cache.outputs id).map Output.state = some .immature →
        ∃ row ∈ cache.generationOutputs, row.2 = id ∧ row.1 ≤ entry.1.height)
    ⟨fun both => ⟨both.1, both.2⟩, fun timely => ⟨timely.height, timely.again⟩⟩

/-- What is reported of an output goes over to its state. -/
theorem blockOutcome_final {cache : OutputCache} {items : BlockMatches} {mempool : Bool} {finalState : TxoState} {id : Outpoint}
    {result : Option Modification} (block : Position) (reported : Reported cache items mempool finalState id result) :
    (blockOutcome block result (cache.outputs id)).map Output.state =
      (result.map Modification.finalState).or ((cache.outputs id).map Output.state) := by
  cases result with
  | none => rfl
  | some modification =>
    obtain ⟨_, _, initial, creates⟩ := reported_moves reported
    show (outcome block modification (cache.outputs id)).map Output.state = some modification.finalState
    unfold outcome
    cases stored : cache.outputs id with
    | none =>
      obtain ⟨output, _, is⟩ := creates stored
      rw [stored] at initial
      rw [if_neg (by rw [initial]; exact Bool.false_ne_true), is]
      rfl
    | some old =>
      rw [stored] at initial
      rw [if_pos (by rw [initial]; rfl)]
      rfl

/-- What a block makes of the state of an output. -/
theorem blockOutcome_state {cache : OutputCache} {items : BlockMatches} {finalState : TxoState} {id : Outpoint}
    {result : Option Modification} (block : Position) (confirmed : finalState = .confirmedNew ∨ finalState = .immature)
    (reported : Reported cache items false finalState id result) :
    (blockOutcome block result (cache.outputs id)).map Output.state =
      if moves ((cache.outputs id).map Output.state) (ReportsCreated items id) (Spends items id) then
        some (if Spends items id then .confirmedSpend else finalState)
      else (cache.outputs id).map Output.state := by
  have moved := reported_isSome confirmed reported
  rw [blockOutcome_final block reported, ← moved]
  cases result with
  | none => rfl
  | some modification =>
    rw [← reported_final confirmed reported]
    rfl

theorem createdState_mined {cache : OutputCache} (tells : Tells target history cache) {entry : Position × BlockMatches}
    (height : 0 ≤ entry.1.height) {generation : Finset Outpoint} (generates : ∀ id, id ∈ generation ↔ Generates entry.2 id)
    {id : Outpoint} (created : ReportsCreated entry.2 id) :
    createdState entry.1 generation cache false target id = minedState target history entry id := by
  unfold createdState minedState
  rw [tells.mature height]
  by_cases generated : id ∈ generation
  · have reports : id ∈ generatedOutputs entry.2 :=
      (mem_generatedOutputs _ _).mpr ⟨created, (generates id).mp generated⟩
    rw [if_pos generated]
    cases mature : isMature entry.1.height history.best target with
    | true => simp
    | false => simp [reports]
  · have other : id ∉ generatedOutputs entry.2 :=
      fun reports => generated ((generates id).mpr ((mem_generatedOutputs _ _).mp reports).2)
    simp [generated, other]

theorem parsed_admissible {cache : OutputCache} (tells : Tells target history cache) {entry : Position × BlockMatches}
    (height : 0 ≤ entry.1.height) {generation : Finset Outpoint} {parsed : ParsedBlockMatches}
    (isParsed : Parsed cache entry.1 entry.2 false target generation parsed) (id : Outpoint) :
    Admissible target history entry id := by
  have reported := isParsed.reported id
  constructor
  · intro created old state
    rw [← tells.states] at state
    obtain ⟨output, found, rfl⟩ := Option.map_eq_some_iff.mp state
    rw [← createdState_mined tells height isParsed.generates created]
    exact reported_permits reported created found
  · intro spends absent
    rw [← tells.states, Option.map_eq_none_iff] at absent
    exact reported_present reported spends absent

theorem block_tells {account : AccountID} {subchain : SubchainID} {entry : Position × BlockMatches} {result : Unit}
    (tells : Tells environment.maturationTarget history before.cache) (timely : Timely before.cache entry)
    (ran : addTransactionsInBlock environment account subchain false entry before = (.ok result, after)) :
    Tells environment.maturationTarget (history.addBlock entry) after.cache := by
  obtain ⟨generation, parsed, isParsed, samePosition, outcomes, entries⟩ := block_generation ran
  have admissible := parsed_admissible tells timely.height isParsed
  have confirmed := createdState_confirmed entry.1 generation before.cache environment.maturationTarget
  have position : getPosition after.cache = getPosition before.cache := by rw [getPosition, samePosition]; rfl
  have stays : ∀ id ∈ history.minedOutputs, id ∈ (history.addBlock entry).minedOutputs :=
    fun id mined => (History.mem_mined_addBlock _ _ _).mpr (Or.inl mined)
  have states : ∀ id, (after.cache.outputs id).map Output.state = (history.addBlock entry).stateOf environment.maturationTarget id := by
    intro id
    rw [outcomes, blockOutcome_state entry.1 (confirmed id) (isParsed.reported id), tells.states,
      stateOf_addBlock tells.generatedMined (admissible id)]
    by_cases spends : Spends entry.2 id
    · simp only [spends, if_true]
    · by_cases created : ReportsCreated entry.2 id
      · rw [createdState_mined tells timely.height isParsed.generates created]
      · rw [decide_eq_false spends, decide_eq_false created, moves_resting]
        rfl
  -- what the block enters was not stored, and is created
  have entered : ∀ row ∈ after.cache.generationOutputs, row ∉ before.cache.generationOutputs →
      history.stateOf environment.maturationTarget row.2 = none ∧ ReportsCreated entry.2 row.2 := by
    intro row member new
    rcases (entries row).mp member with old | ⟨modification, found, absent, _⟩
    · exact absurd old new
    · have moved := reported_isSome (confirmed row.2) (isParsed.reported row.2)
      rw [found, absent] at moved
      refine ⟨by rw [← tells.states, absent]; rfl, ?_⟩
      exact of_decide_eq_true moved.symm
  refine ⟨states, ?_, ?_, ?_, ?_, ?_, ?_, ?_, ?_⟩
  · intro row member
    rcases Finset.mem_union.mp member with old | new
    · exact stays _ (tells.generatedMined row old)
    · have created := ((mem_generatedOutputs _ _).mp (Finset.mem_product.mp new).2).1
      exact (History.mem_mined_addBlock _ _ _).mpr (Or.inr created)
  · intro row member
    rcases Finset.mem_union.mp member with old | new
    · exact tells.heights row old
    · rw [Finset.mem_singleton.mp (Finset.mem_product.mp new).1]
      exact timely.height
  · rw [position]
    exact tells.notAhead
  · rw [position]
    exact tells.current
  · intro row member
    by_cases old : row ∈ before.cache.generationOutputs
    · rw [← states, outcomes]
      have stored := tells.entriesStored row old
      rw [← tells.states] at stored
      intro gone
      rw [← outcomes, states, stateOf_addBlock tells.generatedMined (admissible row.2)] at gone
      split at gone
      · cases gone
      · exact tells.entriesStored row old gone
    · have mined := (History.mem_mined_addBlock history entry row.2).mpr (Or.inr (entered row member old).2)
      exact fun nothing => History.not_mined_of_none nothing mined
  · intro row member positive
    by_cases old : row ∈ before.cache.generationOutputs
    · exact stays _ (tells.entriesMined row old positive)
    · exact (History.mem_mined_addBlock _ _ _).mpr (Or.inr (entered row member old).2)
  · intro row member immature
    rcases immature_addBlock_cases tells.generatedMined (admissible row.2) immature with still | ⟨absent, created, unspent, generated, created'⟩
    · by_cases old : row ∈ before.cache.generationOutputs
      · obtain ⟨position, height, known⟩ := tells.entriesGenerated row old still
        exact ⟨position, height, Finset.mem_union_left _ known⟩
      · rw [(entered row member old).1] at still
        cases still
    · rcases (entries row).mp member with old | ⟨modification, found, _, height⟩
      · exact absurd absent (tells.entriesStored row old)
      · refine ⟨entry.1, ?_, Finset.mem_union_right _ (Finset.mem_product.mpr ⟨Finset.mem_singleton_self _, generated⟩)⟩
        have final := isParsed.reported row.2
        rw [found] at final
        have state := reported_final (confirmed row.2) final
        rw [if_neg unspent, createdState_mined tells timely.height isParsed.generates created, created'] at state
        rw [height, entryHeight, state]
        rfl
  · intro id immature
    rcases immature_addBlock_cases tells.generatedMined (admissible id) immature with still | ⟨absent, created, unspent, generated, created'⟩
    · obtain ⟨position, known, waits, least⟩ := tells.waiting id still
      refine ⟨position, Finset.mem_union_left _ known, (entries _).mpr (Or.inl waits), fun other member => ?_⟩
      rcases Finset.mem_union.mp member with old | new
      · exact least other old
      · obtain ⟨here, generated⟩ := Finset.mem_product.mp new
        obtain ⟨row, stands, rfl, low⟩ := timely.again id generated (by rw [tells.states]; exact still)
        obtain ⟨first, height, isFirst⟩ := tells.entriesGenerated row stands still
        calc position.height
          _ ≤ first.height := least first isFirst
          _ = row.1 := height
          _ ≤ entry.1.height := low
          _ = other.height := congrArg Position.height (Finset.mem_singleton.mp here).symm
    · have unstored : before.cache.outputs id = none := by
        rw [← tells.states, Option.map_eq_none_iff] at absent
        exact absent
      have moved := reported_isSome (confirmed id) (isParsed.reported id)
      rw [unstored, decide_eq_true created] at moved
      obtain ⟨modification, found⟩ := Option.isSome_iff_exists.mp (moved.trans rfl)
      have final := isParsed.reported id
      rw [found] at final
      have state := reported_final (confirmed id) final
      rw [if_neg unspent, createdState_mined tells timely.height isParsed.generates created, created'] at state
      refine ⟨entry.1, ?_, ?_, fun other member => ?_⟩
      · exact Finset.mem_union_right _ (Finset.mem_product.mpr ⟨Finset.mem_singleton_self _, generated⟩)
      · refine (entries _).mpr (Or.inr ⟨modification, found, unstored, ?_⟩)
        rw [entryHeight, state]
        rfl
      · rcases Finset.mem_union.mp member with old | new
        · exact absurd (tells.generatedMined _ old) (History.not_mined_of_none absent)
        · exact (congrArg Position.height (Finset.mem_singleton.mp (Finset.mem_product.mp new).1)).ge

/-! ## Unconfirmed transactions -/

theorem stateOf_addUnconfirmed {created spent : Finset Outpoint} {id : Outpoint}
    (present : id ∈ spent → history.stateOf target id = none → id ∈ created) :
    (history.addUnconfirmed created spent).stateOf target id =
      (drafts (history.stateOf target id) (id ∈ created) (id ∈ spent)).or (history.stateOf target id) := by
  have spending : id ∈ (history.addUnconfirmed created spent).spending ↔ id ∈ history.spending ∨ id ∈ spent := Finset.mem_union
  have drafted : id ∈ (history.addUnconfirmed created spent).drafted ↔ id ∈ history.drafted ∨ id ∈ created := Finset.mem_union
  have immature : (history.addUnconfirmed created spent).Immature target id ↔ history.Immature target id := Iff.rfl
  have sameMined : (history.addUnconfirmed created spent).minedOutputs = history.minedOutputs := rfl
  have sameSpent : (history.addUnconfirmed created spent).spentOutputs = history.spentOutputs := rfl
  unfold History.stateOf at present ⊢
  rw [sameSpent, sameMined]
  simp only [spending, drafted, immature]
  by_cases gone : id ∈ history.spentOutputs
  · simp only [gone, if_true, drafts, Option.none_or]
  by_cases before : id ∈ history.spending
  · simp only [gone, before, true_or, if_true, if_false, drafts, Option.none_or]
  by_cases spends : id ∈ spent
  · simp only [gone, before, spends, or_true, if_true, if_false, decide_true] at present ⊢
    by_cases mined : id ∈ history.minedOutputs
    · simp only [mined, if_true]
      split <;> rfl
    · simp only [mined, if_false] at present ⊢
      by_cases known : id ∈ history.drafted
      · simp only [known, if_true, drafts, Option.some_or]
      · simp only [known, if_false] at present ⊢
        simp only [present trivial trivial, decide_true, drafts, if_true, Option.some_or]
  · simp only [gone, before, spends, or_false, if_false, decide_false]
    by_cases mined : id ∈ history.minedOutputs
    · simp only [mined, if_true]
      split <;> rfl
    · simp only [mined, if_false]
      by_cases known : id ∈ history.drafted
      · simp only [known, true_or, if_true, drafts, Bool.false_eq_true, if_false, Option.none_or]
      · simp only [known, false_or, if_false, drafts, Bool.false_eq_true, decide_eq_true_eq]
        split <;> rfl

theorem drafts_immature {old : Option TxoState} {created spent : Bool}
    (immature : (drafts old created spent).or old = some .immature) : old = some .immature := by
  cases old with
  | none => cases created <;> cases spent <;> cases immature
  | some state => cases state <;> cases spent <;> first | rfl | cases immature

/-- They enter nothing at a height. -/
theorem unconfirmed_tells {created spent : Finset Outpoint} (tells : Tells target history before.cache)
    (present : ∀ id ∈ spent, history.stateOf target id = none → id ∈ created)
    (states : ∀ id, (after.cache.outputs id).map Output.state =
      (drafts (history.stateOf target id) (id ∈ created) (id ∈ spent)).or (history.stateOf target id))
    (remain : ∀ row ∈ before.cache.generationOutputs, row ∈ after.cache.generationOutputs)
    (entries : ∀ row ∈ after.cache.generationOutputs, row ∈ before.cache.generationOutputs ∨
      row.1 < 0 ∧ history.stateOf target row.2 = none ∧ row.2 ∈ created)
    (position : after.cache.position = before.cache.position) :
    Tells target (history.addUnconfirmed created spent) after.cache := by
  have newState := fun id => @stateOf_addUnconfirmed target history created spent id (present id)
  have samePosition : getPosition after.cache = getPosition before.cache := by rw [getPosition, position]; rfl
  have immature : ∀ id, (history.addUnconfirmed created spent).stateOf target id = some .immature →
      history.stateOf target id = some .immature := by
    intro id is
    rw [newState] at is
    exact drafts_immature is
  refine ⟨fun id => (states id).trans (newState id).symm, tells.generatedMined, tells.heights, ?_, ?_, ?_, ?_, ?_, ?_⟩
  · rw [samePosition]
    exact tells.notAhead
  · rw [samePosition]
    exact tells.current
  · intro row member
    rw [newState]
    rcases entries row member with old | ⟨_, absent, creates⟩
    · have stored := tells.entriesStored row old
      intro nothing
      exact stored (Option.or_eq_none_iff.mp nothing).2
    · rw [absent, decide_eq_true creates]
      nofun
  · intro row member positive
    rcases entries row member with old | ⟨negative, _⟩
    · exact tells.entriesMined row old positive
    · exact absurd positive (not_le.mpr negative)
  · intro row member is
    rcases entries row member with old | ⟨_, absent, _⟩
    · exact tells.entriesGenerated row old (immature _ is)
    · rw [immature _ is] at absent
      cases absent
  · intro id is
    obtain ⟨position, known, waits, least⟩ := tells.waiting id (immature id is)
    exact ⟨position, known, remain _ waits, least⟩

theorem mempool_tells {account : AccountID} {subchain : SubchainID} {items : BlockMatches} {result : Unit}
    (tells : Tells environment.maturationTarget history before.cache)
    (ran : addTransactionsInBlock environment account subchain true ({}, items) before = (.ok result, after)) :
    Tells environment.maturationTarget (history.addUnconfirmed (createdOutputs items) (consumedOutputs items)) after.cache := by
  obtain ⟨generation, parsed, isParsed, position, outcomes, entries⟩ := block_generation ran
  have unconfirmed : ∀ id, createdState {} generation before.cache true environment.maturationTarget id = .unconfirmedNew := by
    intro id
    rw [createdState, isParsed.confirmed rfl, if_neg (Finset.notMem_empty _), if_pos rfl]
  have reported : ∀ id, Reported before.cache items true .unconfirmedNew id (parsed.transaction.find? id) := by
    intro id
    rw [← unconfirmed id]
    exact isParsed.reported id
  have drafted : ∀ id, (parsed.transaction.find? id).map Modification.finalState =
      drafts (history.stateOf environment.maturationTarget id) (id ∈ createdOutputs items) (id ∈ consumedOutputs items) := by
    intro id
    rw [← tells.states, reported_drafts (reported id)]
    simp only [mem_createdOutputs, mem_consumedOutputs]
  refine unconfirmed_tells tells (fun id spent => ?_) (fun id => ?_) (fun row member => (entries row).mpr (Or.inl member))
    (fun row member => ?_) position
  · rw [← tells.states, Option.map_eq_none_iff, mem_createdOutputs]
    exact reported_present (reported id) ((mem_consumedOutputs _ _).mp spent)
  · rw [outcomes, blockOutcome_final {} (reported id), drafted, tells.states]
  · rcases (entries row).mp member with old | ⟨modification, found, absent, height⟩
    · exact Or.inl old
    · right
      have state : history.stateOf environment.maturationTarget row.2 = none := by
        rw [← tells.states, absent]
        rfl
      have final := drafted row.2
      rw [found, state, drafts] at final
      split at final
      · rename_i created
        rw [Option.map_some, Option.some.injEq] at final
        refine ⟨?_, state, of_decide_eq_true created⟩
        have unplaced : effectivePosition modification.finalState {} {} = {} := by
          rw [final]
          split <;> rfl
        rw [height, entryHeight, unplaced]
        decide
      · cases final

/-- No history tells of an orphan. -/
theorem stateOf_not_orphaned (id : Outpoint) : history.stateOf target id ≠ some .orphanedNew := by
  intro is
  unfold History.stateOf at is
  split at is
  · cases is
  · split at is
    · cases is
    · split at is
      · split at is <;> cases is
      · split at is <;> cases is

/-- What a finalized proposal creates was not stored, for nothing is an orphan. -/
theorem finalized_absent {cache : OutputCache} (tells : Tells target history cache) (filed : Filed cache.outputs cache.indexes.states)
    {id : Outpoint} (valid : validateOutput cache id = true) : cache.outputs id = none := by
  unfold validateOutput at valid
  rcases (of_decide_eq_true valid).2 with absent | orphaned
  · exact Option.not_isSome_iff_eq_none.mp (Bool.eq_false_iff.mp absent)
  · obtain ⟨old, found, state⟩ := (filed.states _ _).mp ((Index.mem_rows _ _ _).mp orphaned)
    have known := tells.known found
    rw [state] at known
    exact absurd known (stateOf_not_orphaned id)

/-- What a finalized proposal spends is new, confirmed or not. -/
theorem finalized_new {cache : OutputCache} (filed : Filed cache.outputs cache.indexes.states) {consumed : Finset Outpoint}
    (spendable : consumed ⊆ getState cache .confirmedNew ∪ getState cache .unconfirmedNew) {id : Outpoint} (spent : id ∈ consumed) :
    ∃ output, cache.outputs id = some output ∧ (output.state = .confirmedNew ∨ output.state = .unconfirmedNew) := by
  rcases Finset.mem_union.mp (spendable spent) with confirmed | unconfirmed
  · obtain ⟨output, found, state⟩ := (filed.states _ _).mp ((Index.mem_rows _ _ _).mp confirmed)
    exact ⟨output, found, Or.inl state⟩
  · obtain ⟨output, found, state⟩ := (filed.states _ _).mp ((Index.mem_rows _ _ _).mp unconfirmed)
    exact ⟨output, found, Or.inr state⟩

theorem finalize_tells {terms : Terms} {id : ProposalID} {transaction : Transaction}
    (tells : Tells target history before.cache) (filed : Filed before.cache.outputs before.cache.indexes.states)
    (finalized : Finalized terms id transaction before after) (generation : SameGeneration before after) :
    Tells target (history.addUnconfirmed (getOutputs transaction) (getInputs transaction)) after.cache := by
  have fresh := fun output member => finalized_absent tells filed (finalized.fresh output member)
  have stored := fun output => @finalized_new before.cache filed _ finalized.spendable output
  refine unconfirmed_tells tells (fun output spent nothing => ?_) (fun output => ?_) (fun row member => ?_) (fun row member => ?_)
    finalized.position
  · obtain ⟨old, found, _⟩ := stored output spent
    rw [tells.known found] at nothing
    cases nothing
  · rw [finalized.outputs]
    by_cases created : output ∈ getOutputs transaction
    · have absent := fresh output created
      have unspent : output ∉ getInputs transaction := by
        intro spent
        obtain ⟨old, found, _⟩ := stored output spent
        rw [absent] at found
        cases found
      obtain ⟨item, member, is⟩ := List.mem_map.mp (List.mem_toFinset.mp created)
      have listed := List.mem_filter.mp member
      have stands : transaction.outputs[output.index]? = some item.1 := by
        rw [← is]
        exact List.mem_zipIdx_iff_getElem?.mp listed.1
      rw [if_pos created, spentBy, if_neg unspent, ← tells.states, absent]
      show (drafted transaction output none).map Output.state = _
      unfold drafted
      dsimp only
      rw [stands]
      simp [drafts, created, unspent, tagged]
    · rw [if_neg created, ← tells.states, spentBy]
      by_cases spent : output ∈ getInputs transaction
      · obtain ⟨old, found, is | is⟩ := stored output spent
        · rw [if_pos spent, found]
          simp [drafts, spent, is, restated]
        · rw [if_pos spent, found]
          simp [drafts, spent, is, restated]
      · rw [if_neg spent]
        cases state : (before.cache.outputs output).map Output.state with
        | none => simp [drafts, created]
        | some old => cases old <;> simp [drafts, spent]
  · rw [show after.cache.generationOutputs = before.cache.generationOutputs from generation]
    exact member
  · rw [show after.cache.generationOutputs = before.cache.generationOutputs from generation] at member
    exact Or.inl member

/-! ## Advancing -/

/-- A greater height makes nothing immature, and makes mature what is deep enough by then. -/
theorem immature_advance (target : Int) (history : History) (position : Position) (id : Outpoint) :
    (history.advance position).Immature target id ↔ history.Immature target id ∧
      ∀ row ∈ history.generated, row.2 = id → isMature row.1.height (max history.best position.height) target = false := by
  constructor
  · rintro ⟨some, all⟩
    refine ⟨⟨some, fun row member same => ?_⟩, all⟩
    have later := all row member same
    unfold isMature at later ⊢
    rw [decide_eq_false_iff_not] at later ⊢
    have grows : history.best ≤ (history.advance position).best := le_max_left _ _
    omega
  · rintro ⟨⟨some, _⟩, all⟩
    exact ⟨some, all⟩

/-- The outputs that an advance would mature are not spent. -/
def MaturesUnspent (environment : Environment) (cache : OutputCache) (position : Position) : Prop :=
  Advances environment cache position → ∀ id ∈ maturing environment cache position,
    (cache.outputs id).map Output.state ≠ some .unconfirmedSpend ∧ (cache.outputs id).map Output.state ≠ some .confirmedSpend

instance (environment : Environment) (cache : OutputCache) (position : Position) :
    Decidable (MaturesUnspent environment cache position) := by
  unfold MaturesUnspent Advances
  infer_instance

/-- What is as immature as before keeps its state. -/
theorem stateOf_advance {position : Position} {id : Outpoint}
    (same : (history.advance position).Immature target id ↔ history.Immature target id) :
    (history.advance position).stateOf target id = history.stateOf target id := by
  unfold History.stateOf
  simp only [same]
  rfl

/-- So does what is not immature. -/
theorem stateOf_advance_other {position : Position} {id : Outpoint} (other : history.stateOf target id ≠ some .immature) :
    (history.advance position).stateOf target id = history.stateOf target id := by
  by_cases young : history.Immature target id
  · unfold History.stateOf at other ⊢
    by_cases spent : id ∈ history.spentOutputs
    · rw [if_pos spent, if_pos (show id ∈ (history.advance position).spentOutputs from spent)]
    rw [if_neg spent] at other ⊢
    rw [if_neg (show id ∉ (history.advance position).spentOutputs from spent)]
    by_cases spending : id ∈ history.spending
    · rw [if_pos spending, if_pos (show id ∈ (history.advance position).spending from spending)]
    rw [if_neg spending] at other ⊢
    rw [if_neg (show id ∉ (history.advance position).spending from spending)]
    by_cases mined : id ∈ history.minedOutputs
    · rw [if_pos mined, if_pos young] at other
      exact absurd rfl other
    · rw [if_neg mined, if_neg (show id ∉ (history.advance position).minedOutputs from mined)]
      rfl
  · apply stateOf_advance
    rw [immature_advance]
    exact and_iff_left_of_imp fun now => absurd now young

theorem immature_of_advance {position : Position} {id : Outpoint}
    (immature : (history.advance position).stateOf target id = some .immature) :
    history.stateOf target id = some .immature := by
  obtain ⟨unspent, unspending, mined, young⟩ := History.immature_cases immature
  exact History.stateOf_immature unspent unspending mined ((immature_advance _ _ _ _).mp young).1

/-- An advance that does nothing has not reached the height at which anything matures. -/
theorem advance_idle {position : Position} (tells : Tells environment.maturationTarget history before.cache)
    (idle : ¬ Advances environment before.cache position) :
    Tells environment.maturationTarget (history.advance position) before.cache := by
  have notAhead := tells.notAhead
  have current := tells.current
  have reaches : max history.best position.height = history.best ∨
      history.best ≤ max history.best position.height ∧ max history.best position.height < environment.maturationTarget := by
    by_contra both
    rw [not_or] at both
    refine idle ⟨fun same => ?_, fun lower => ?_, ?_⟩
    · rw [same] at both
      omega
    · omega
    · omega
  have immature : ∀ id, (history.advance position).Immature environment.maturationTarget id ↔
      history.Immature environment.maturationTarget id := by
    intro id
    rw [immature_advance]
    refine and_iff_left_of_imp fun young row member same => ?_
    have before := young.2 row member same
    have positive := tells.heights row member
    unfold isMature at before ⊢
    rw [decide_eq_false_iff_not] at before ⊢
    rcases reaches with still | early
    · rw [still]
      exact before
    · omega
  have states := fun id => stateOf_advance (immature id)
  refine ⟨fun id => (tells.states id).trans (states id).symm, tells.generatedMined, tells.heights, ?_, ?_, ?_,
    tells.entriesMined, ?_, ?_⟩
  · show _ ≤ max history.best position.height
    omega
  · show _ = max history.best position.height ∨ max history.best position.height < _
    rcases reaches with still | early
    · rw [still]
      exact current
    · exact Or.inr early.2
  · intro row member
    rw [states]
    exact tells.entriesStored row member
  · intro row member
    rw [states]
    exact tells.entriesGenerated row member
  · intro id
    rw [states]
    exact tells.waiting id

theorem mem_maturing {cache : OutputCache} {position : Position} {id : Outpoint} :
    id ∈ maturing environment cache position ↔ ∃ height, (height, id) ∈ cache.generationOutputs ∧
      max 0 ((getPosition cache).height - environment.maturationTarget) ≤ height ∧
      height ≤ position.height - environment.maturationTarget := by
  unfold maturing getMatured
  simp

/-- What an advance looks at is mined, and if it is not spent it is mature from now on. -/
theorem maturing_state {cache : OutputCache} {position : Position} {id : Outpoint}
    (tells : Tells environment.maturationTarget history cache) (advances : Advances environment cache position)
    (unspent : MaturesUnspent environment cache position) (matures : id ∈ maturing environment cache position) :
    (history.advance position).stateOf environment.maturationTarget id = some .confirmedNew := by
  obtain ⟨height, stands, low, high⟩ := mem_maturing.mp matures
  have mined := tells.entriesMined _ stands ((le_max_left _ _).trans low)
  have spendless := unspent advances id matures
  rw [tells.states] at spendless
  have unspending : id ∉ history.spentOutputs ∧ id ∉ history.spending := by
    unfold History.stateOf at spendless
    constructor
    · intro spent
      rw [if_pos spent] at spendless
      exact spendless.2 rfl
    · intro spending
      rw [if_pos spending] at spendless
      split at spendless
      · exact spendless.2 rfl
      · exact spendless.1 rfl
  apply @History.stateOf_mature _ (history.advance position) _ unspending.1 unspending.2 mined
  intro young
  rw [immature_advance] at young
  obtain ⟨first, same, known⟩ := tells.entriesGenerated _ stands
    (History.stateOf_immature unspending.1 unspending.2 mined young.1)
  have early := young.2 _ known rfl
  have reaches := le_max_right history.best position.height
  unfold isMature at early
  rw [decide_eq_false_iff_not] at early
  dsimp only at same early
  omega

/-- What an advance does not look at stays as it is. -/
theorem unmaturing_state {cache : OutputCache} {position : Position} {id : Outpoint}
    (tells : Tells environment.maturationTarget history cache) (advances : Advances environment cache position)
    (outside : id ∉ maturing environment cache position) :
    (history.advance position).stateOf environment.maturationTarget id = history.stateOf environment.maturationTarget id := by
  by_cases state : history.stateOf environment.maturationTarget id = some .immature
  · apply stateOf_advance
    rw [immature_advance]
    refine and_iff_left_of_imp fun young row member same => ?_
    obtain ⟨first, known, waits, least⟩ := tells.waiting id state
    have positive := tells.heights _ known
    have early := young.2 _ known rfl
    have notLater := least row.1 (by rw [← same]; exact member)
    have away : ¬ (max 0 ((getPosition cache).height - environment.maturationTarget) ≤ first.height ∧
        first.height ≤ position.height - environment.maturationTarget) :=
      fun inside => outside (mem_maturing.mpr ⟨first.height, waits, inside⟩)
    have notAhead := tells.notAhead
    have current := tells.current
    have reached : max history.best position.height = position.height := by
      obtain ⟨_, notLower, deep⟩ := advances
      apply max_eq_right
      omega
    unfold isMature at early ⊢
    rw [decide_eq_false_iff_not] at early ⊢
    rw [reached]
    dsimp only at early positive
    omega
  · exact stateOf_advance_other state

theorem advance_tells {terms : Terms} {position : Position}
    (tells : Tells terms.environment.maturationTarget history before.cache)
    (unspent : MaturesUnspent terms.environment before.cache position)
    (advanced : Advanced terms position before after) (generation : SameGeneration before after) :
    Tells terms.environment.maturationTarget (history.advance position) after.cache := by
  have advances := advanced.advances
  have notAhead := tells.notAhead
  have current := tells.current
  have reached : max history.best position.height = position.height := by
    obtain ⟨_, notLower, deep⟩ := advances
    apply max_eq_right
    omega
  have here : getPosition after.cache = position := by rw [getPosition, advanced.position]; rfl
  have states : ∀ id, (after.cache.outputs id).map Output.state =
      (history.advance position).stateOf terms.environment.maturationTarget id := by
    intro id
    rw [advanced.outputs]
    dsimp only
    split
    · rename_i member
      obtain ⟨height, stands, _⟩ := mem_maturing.mp member
      obtain ⟨output, found⟩ := tells.stored stands
      rw [maturing_state tells advances unspent member]
      dsimp only at found
      rw [found]
      exact congrArg some (maturedOutput_state position output)
    · rename_i outside
      rw [tells.states, unmaturing_state tells advances outside]
  refine ⟨states, tells.generatedMined, tells.heights, ?_, ?_, ?_, ?_, ?_, ?_⟩
  · rw [here]
    exact le_max_right _ _
  · rw [here]
    exact Or.inl reached.symm
  · intro row member
    rw [show after.cache.generationOutputs = before.cache.generationOutputs from generation] at member
    rw [← states, advanced.outputs]
    obtain ⟨output, found⟩ := tells.stored member
    dsimp only
    rw [found]
    split <;> nofun
  · intro row member
    rw [show after.cache.generationOutputs = before.cache.generationOutputs from generation] at member
    exact tells.entriesMined row member
  · intro row member is
    rw [show after.cache.generationOutputs = before.cache.generationOutputs from generation] at member
    exact tells.entriesGenerated row member (immature_of_advance is)
  · intro id is
    rw [show after.cache.generationOutputs = before.cache.generationOutputs from generation]
    exact tells.waiting id (immature_of_advance is)

/-- Outputs, their positions and the generation outputs are all that is told. -/
theorem Tells.same {cache other : OutputCache} (tells : Tells target history cache) (outputs : other.outputs = cache.outputs)
    (position : other.position = cache.position) (generation : other.generationOutputs = cache.generationOutputs) :
    Tells target history other := by
  have samePosition : getPosition other = getPosition cache := by rw [getPosition, position]; rfl
  obtain ⟨states, generatedMined, heights, notAhead, current, stored, entriesMined, entriesGenerated, waiting⟩ := tells
  rw [← outputs] at states
  rw [← generation] at stored entriesMined entriesGenerated waiting
  rw [← samePosition] at notAhead current
  exact ⟨states, generatedMined, heights, notAhead, current, stored, entriesMined, entriesGenerated, waiting⟩

theorem tells_empty (target : Int) : Tells target {} (populate {} {}) := by
  refine ⟨fun _ => rfl, nofun, nofun, le_refl _, Or.inl rfl, nofun, nofun, nofun, ?_⟩
  intro id immature
  cases immature

/-! ## Runs -/

/-- What is asked of blocks, of unconfirmed transactions and of advances, by the cache that finds them. -/
structure Conditions where
  block : OutputCache → Position × BlockMatches → Prop
  mempool : OutputCache → MatchedTransaction → Prop
  advance : OutputCache → Position → Prop
  finalize : OutputCache → Transaction → Prop

def Conditions.Met (conditions : Conditions) (environment : Environment) (db : Database) (call : Call) : Prop :=
  match call.operation with
  | .addConfirmedTransactions account subchain transactions =>
    Program.Throughout (fun entry session => conditions.block session.cache entry)
      (addTransactionsInBlock environment account subchain false) transactions (start db call.writes)
  | .addMempoolTransaction _ _ item => conditions.mempool (populate db.tables db.cache) item
  | .advanceTo position => conditions.advance (populate db.tables db.cache) position
  | .finalizeProposal _ _ transaction => conditions.finalize (populate db.tables db.cache) transaction
  | _ => True

/-- Under these conditions outputs tell their history, and with it goes this invariant. -/
structure Conditions.Keeps (conditions : Conditions) (environment : Environment) (invariant : History → OutputCache → Prop) :
    Prop where
  timely : ∀ cache entry, conditions.block cache entry → Timely cache entry
  unspent : ∀ cache position, conditions.advance cache position → MaturesUnspent environment cache position
  block : ∀ {history before after account subchain entry}, Tells environment.maturationTarget history before.cache →
    invariant history before.cache → conditions.block before.cache entry →
    addTransactionsInBlock environment account subchain false entry before = (.ok (), after) →
    invariant (history.addBlock entry) after.cache
  mempool : ∀ {history before after account subchain item}, Tells environment.maturationTarget history before.cache →
    invariant history before.cache → conditions.mempool before.cache item →
    addTransactionsInBlock environment account subchain true ({}, [item]) before = (.ok (), after) →
    invariant (history.addUnconfirmed (createdOutputs [item]) (consumedOutputs [item])) after.cache
  idle : ∀ {history cache position}, Tells environment.maturationTarget history cache → invariant history cache →
    conditions.advance cache position → ¬ Advances environment cache position → invariant (history.advance position) cache
  advance : ∀ {history position before after} {terms : Terms}, Tells terms.environment.maturationTarget history before.cache →
    invariant history before.cache → conditions.advance before.cache position → terms.environment = environment →
    Advanced terms position before after → invariant (history.advance position) after.cache
  finalize : ∀ {history before after id transaction} {terms : Terms}, Tells environment.maturationTarget history before.cache →
    invariant history before.cache → conditions.finalize before.cache transaction →
    Filed before.cache.outputs before.cache.indexes.states → Finalized terms id transaction before after →
    invariant (history.addUnconfirmed (getOutputs transaction) (getInputs transaction)) after.cache
  same : ∀ {history cache other}, invariant history cache → other.outputs = cache.outputs → other.position = cache.position →
    other.generationOutputs = cache.generationOutputs → invariant history other

/-- The history of a run of successful calls. -/
def historyOf (history : History) (calls : List Call) : History :=
  calls.foldl (fun history call => history.follow call.operation) history

section Kept

variable {conditions : Conditions} {invariant : History → OutputCache → Prop}

def Held (environment : Environment) (invariant : History → OutputCache → Prop) (history : History) (cache : OutputCache) : Prop :=
  Tells environment.maturationTarget history cache ∧ invariant history cache

theorem Held.same (keeps : conditions.Keeps environment invariant) {cache other : OutputCache}
    (held : Held environment invariant history cache) (outputs : other.outputs = cache.outputs)
    (position : other.position = cache.position) (generation : other.generationOutputs = cache.generationOutputs) :
    Held environment invariant history other :=
  ⟨held.1.same outputs position generation, keeps.same held.2 outputs position generation⟩

theorem blocks_hold (keeps : conditions.Keeps environment invariant) {account : AccountID} {subchain : SubchainID}
    {blocks : BatchedMatches} (held : Held environment invariant history before.cache)
    (met : Program.Throughout (fun entry session => conditions.block session.cache entry)
      (addTransactionsInBlock environment account subchain false) blocks before)
    (ran : Program.forEach (addTransactionsInBlock environment account subchain false) blocks before = (.ok (), after)) :
    Held environment invariant (blocks.foldl History.addBlock history) after.cache := by
  have each : ∀ history (entry : Position × BlockMatches) before after,
      Held environment invariant history before.cache → conditions.block before.cache entry →
      addTransactionsInBlock environment account subchain false entry before = (.ok (), after) →
      Held environment invariant (history.addBlock entry) after.cache :=
    fun _ entry before _ held met ran =>
      ⟨block_tells held.1 (keeps.timely before.cache entry met) ran, keeps.block held.1 held.2 met ran⟩
  exact Program.throughout_keeps each blocks history before after held met ran

theorem body_holds (keeps : conditions.Keeps environment invariant) {db : Database} {call : Call}
    {reserved : Option (Outpoint × Output)} (sound : Sound db)
    (held : Held environment invariant history (populate db.tables db.cache)) (forward : isForward call.operation = true)
    (met : conditions.Met environment db call) (ran : body environment call (start db call.writes) = (.ok reserved, after)) :
    Held environment invariant (history.follow call.operation) after.cache := by
  have orderly := sound_start sound call.writes
  unfold body at ran
  unfold Conditions.Met at met
  unfold History.follow
  cases operation : call.operation with
  | addProposal id content =>
    rw [operation] at ran
    obtain ⟨_, rfl⟩ := Program.pure_ok ran
    exact held
  | addConfirmedTransactions account subchain transactions =>
    rw [operation] at ran met
    obtain ⟨_, middle, adding, returned⟩ := Program.bind_ok ran
    obtain ⟨_, rfl⟩ := Program.pure_ok returned
    obtain ⟨added, blocks, committing⟩ := addTransactions_ok adding
    rw [(commit_ok committing).1]
    exact @blocks_hold environment history (start db call.writes) _ _ _ keeps _ _ _ held met blocks
  | addMempoolTransaction account subchain item =>
    rw [operation] at ran met
    obtain ⟨_, middle, adding, returned⟩ := Program.bind_ok ran
    obtain ⟨_, rfl⟩ := Program.pure_ok returned
    obtain ⟨added, blocks, committing⟩ := addTransactions_ok adding
    rw [(commit_ok committing).1]
    obtain ⟨_, alone, first, rest⟩ := Program.bind_ok blocks
    obtain ⟨_, rfl⟩ := Program.pure_ok rest
    exact ⟨mempool_tells held.1 first, keeps.mempool held.1 held.2 met first⟩
  | advanceTo position =>
    rw [operation] at ran met
    obtain ⟨_, middle, advancing, returned⟩ := Program.bind_ok ran
    obtain ⟨_, rfl⟩ := Program.pure_ok returned
    have ends : _ ∨ Advanced (terms environment (.advanceTo position) False) position (start db call.writes) after :=
      advanceTo_cases nofun advancing
    rcases ends with ⟨idle, rfl⟩ | advanced
    · exact ⟨advance_idle held.1 idle, keeps.idle held.1 held.2 met idle⟩
    · constructor
      · exact @advance_tells history (start db call.writes) _ (terms environment (.advanceTo position) False) position held.1
          (keeps.unspent _ _ met) advanced (advanceTo_generation advancing)
      · exact @Conditions.Keeps.advance _ _ _ keeps history position (start db call.writes) _
          (terms environment (.advanceTo position) False) held.1 held.2 met rfl advanced
  | cancelProposal id =>
    rw [operation] at ran
    obtain ⟨_, middle, cancelling, returned⟩ := Program.bind_ok ran
    obtain ⟨_, rfl⟩ := Program.pure_ok returned
    have cancels := @cancelProposal_writes _ _ Terms.loose _ _ cancelling
    exact held.same keeps cancels.outputs cancels.position (cancelProposal_generation cancelling)
  | finalizeProposal id content transaction =>
    rw [operation] at ran met
    obtain ⟨_, middle, finalizing, returned⟩ := Program.bind_ok ran
    obtain ⟨_, rfl⟩ := Program.pure_ok returned
    have finalized := @finalize_ok _ _ _ _ _ _ _ False _ finalizing
    exact ⟨finalize_tells held.1 orderly.filed finalized (finalizeProposal_generation finalizing),
      keeps.finalize held.1 held.2 met orderly.filed finalized⟩
  | reserveUTXO spender proposal policy =>
    rw [operation] at ran
    obtain ⟨_, middle, reserving, returned⟩ := Program.bind_ok ran
    obtain ⟨_, rfl⟩ := Program.pure_ok returned
    rw [(@reserveUTXO_ok _ _ Terms.loose _ _ _ _ nofun reserving).2.cache]
    exact held.same keeps rfl rfl rfl
  | reserveOutpoint spender proposal id =>
    rw [operation] at ran
    obtain ⟨_, middle, reserving, returned⟩ := Program.bind_ok ran
    obtain ⟨_, rfl⟩ := Program.pure_ok returned
    rw [(@reserve_ok _ _ Terms.loose _ _ _ nofun reserving).2.cache]
    exact held.same keeps rfl rfl rfl
  | reorg blocks ancestor committed =>
    rw [operation] at forward
    cases forward

theorem perform_holds (keeps : conditions.Keeps environment invariant) {db : Database} {call : Call} {outcome : Outcome}
    (sound : Sound db) (held : Held environment invariant history (populate db.tables db.cache))
    (forward : isForward call.operation = true) (met : conditions.Met environment db call)
    (performed : perform environment db call = .ok outcome) (success : outcome.success = true) :
    Held environment invariant (history.follow call.operation) (populate outcome.db.tables outcome.db.cache) := by
  rcases perform_success performed success with ⟨id, content, operation, rfl⟩ | ⟨reserved, session, ran, rfl⟩
  · rw [operation]
    exact held
  · have ends := body_holds keeps sound held forward met ran
    have orderly := edits_orderly (body_edits (commits_of_forward forward) rfl ran).1 (sound_start sound call.writes)
    have loaded : populate session.committed session.cache = session.cache := by
      rw [populate, if_pos orderly.mirrored.populated]
    show Held _ _ _ (populate session.committed session.cache)
    rw [loaded]
    exact ends

theorem run_holds (keeps : conditions.Keeps environment invariant) {calls : List Call} :
    ∀ {history : History} {db final : Database}, Sound db →
      Held environment invariant history (populate db.tables db.cache) →
        (∀ call ∈ calls, isForward call.operation = true) → Along environment (conditions.Met environment) db calls →
          succeeds environment db calls = some final →
            Sound final ∧ Held environment invariant (historyOf history calls) (populate final.tables final.cache) := by
  induction calls with
  | nil =>
    intro history db final sound held _ _ ran
    cases ran
    exact ⟨sound, held⟩
  | cons call calls ih =>
    intro history db final sound held forward along ran
    obtain ⟨outcome, performed, success, rest⟩ := succeeds_cons ran
    obtain ⟨here, later⟩ := along
    rw [performed] at later
    have goes := forward call List.mem_cons_self
    exact ih (perform_sound (commits_of_forward goes) sound performed) (perform_holds keeps sound held goes here performed success)
      (fun next member => forward next (List.mem_cons_of_mem call member)) later rest

end Kept

end Opentxs.Wallet.Histories
