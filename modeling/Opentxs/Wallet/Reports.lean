import Opentxs.Wallet.Parsing

/-! What a block reports of each output by itself, and that parsing the block comes to this
for all outputs. -/

namespace Opentxs.Wallet.Reports
open Library Library.Ordered HeaderOracle BlockHeader Types Storage OutputCache Parsing

/-! ## The reports of a block -/

/-- A transaction of the block has the output among its matched outputs. -/
def Creates (items : BlockMatches) (id : Outpoint) (output : Output) : Prop :=
  ∃ item ∈ items, item.transaction.id = id.txid ∧ id.index ∈ item.outputs ∧
    item.transaction.outputs[id.index]? = some output

def Spends (items : BlockMatches) (id : Outpoint) : Prop :=
  ∃ item ∈ items, ∃ index ∈ item.inputs, item.transaction.previousOutputs[index]? = some id

def Generates (items : BlockMatches) (id : Outpoint) : Prop :=
  ∃ item ∈ items, item.transaction.isGeneration = true ∧ item.transaction.id = id.txid ∧ id.index ∈ item.outputs

theorem scanInputs_ok {tx : Transaction} (inputs : List Nat) :
    ∀ {before after : Scanned}, scanInputs tx inputs before = .ok after →
      after.created = before.created ∧ after.generation = before.generation ∧
        ∀ id, id ∈ after.consumed ↔ (∃ index ∈ inputs, tx.previousOutputs[index]? = some id) ∨ id ∈ before.consumed := by
  induction inputs with
  | nil =>
    intro before after scanned
    cases scanned
    exact ⟨rfl, rfl, by simp⟩
  | cons first inputs ih =>
    intro before after scanned
    unfold scanInputs at scanned
    split at scanned
    · rename_i outpoint found
      obtain ⟨created, generation, consumed⟩ := ih scanned
      refine ⟨created, generation, fun id => ?_⟩
      rw [consumed, Finset.mem_insert]
      simp only [List.mem_cons, exists_eq_or_imp, found, Option.some.injEq]
      constructor
      · rintro (later | same | earlier)
        · exact Or.inl (Or.inr later)
        · exact Or.inl (Or.inl same.symm)
        · exact Or.inr earlier
      · rintro ((same | later) | earlier)
        · exact Or.inr (Or.inl same.symm)
        · exact Or.inl later
        · exact Or.inr (Or.inr earlier)
    · cases scanned

/-- Scanning the outputs of a transaction leaves the entries of all other transactions. -/
theorem scanOutputs_ok {tx : Transaction} (outputs : List Nat) :
    ∀ {before after : Scanned}, scanOutputs tx outputs before = .ok after →
      after.consumed = before.consumed ∧ (∀ index ∈ outputs, (tx.outputs[index]?).isSome) ∧
        (∀ id, id ∈ after.generation ↔
          (tx.isGeneration = true ∧ tx.id = id.txid ∧ id.index ∈ outputs) ∨ id ∈ before.generation) ∧
        ∀ id, after.created.find? id =
          if tx.id = id.txid ∧ id.index ∈ outputs then tx.outputs[id.index]? else before.created.find? id := by
  induction outputs with
  | nil =>
    intro before after scanned
    cases scanned
    exact ⟨rfl, by simp, by simp, by simp⟩
  | cons first outputs ih =>
    intro before after scanned
    unfold scanOutputs at scanned
    split at scanned
    · rename_i output found
      split at scanned
      · obtain ⟨consumed, present, generation, created⟩ := ih scanned
        refine ⟨consumed, fun index member => ?_, fun id => ?_, fun id => ?_⟩
        · rcases List.mem_cons.mp member with rfl | later
          · rw [found]
            rfl
          · exact present index later
        · rw [generation]
          have same : id = ⟨tx.id, first⟩ ↔ tx.id = id.txid ∧ id.index = first := by
            cases id
            simp [eq_comm]
          by_cases generates : tx.isGeneration = true
          · rw [if_pos generates, Finset.mem_insert, List.mem_cons, same]
            tauto
          · rw [if_neg generates]
            tauto
        · rw [created, OrderedMap.find?_assign]
          by_cases later : tx.id = id.txid ∧ id.index ∈ outputs
          · rw [if_pos later, if_pos ⟨later.1, List.mem_cons_of_mem first later.2⟩]
          · rw [if_neg later]
            by_cases same : id = ⟨tx.id, first⟩
            · subst same
              rw [if_pos rfl, if_pos ⟨rfl, List.mem_cons_self⟩]
              exact found.symm
            · rw [if_neg same, if_neg]
              rintro ⟨sameTx, member⟩
              rcases List.mem_cons.mp member with sameIndex | inRest
              · apply same
                cases id
                cases sameTx
                cases sameIndex
                rfl
              · exact later ⟨sameTx, inRest⟩
      · cases scanned
    · cases scanned

theorem scanTransactions_ok (items : BlockMatches) :
    ∀ {before after : Scanned}, scanTransactions items before = .ok after →
      (∀ id, id ∈ after.consumed ↔ Spends items id ∨ id ∈ before.consumed) ∧
      (∀ id, id ∈ after.generation ↔ Generates items id ∨ id ∈ before.generation) ∧
      (∀ id output, after.created.find? id = some output →
        Creates items id output ∨ before.created.find? id = some output) ∧
      (∀ id, after.created.find? id = none → (∀ output, ¬ Creates items id output) ∧ before.created.find? id = none) := by
  induction items with
  | nil =>
    intro before after scanned
    cases scanned
    refine ⟨by simp [Spends], by simp [Generates], fun id output found => Or.inr found, fun id absent => ⟨?_, absent⟩⟩
    rintro output ⟨item, member, _⟩
    cases member
  | cons item items ih =>
    intro before after scanned
    unfold scanTransactions at scanned
    cases inputs : scanInputs item.transaction item.inputs before with
    | error fault =>
      rw [inputs] at scanned
      cases scanned
    | ok early =>
      rw [inputs] at scanned
      change (scanOutputs item.transaction item.outputs early >>= scanTransactions items) = .ok after at scanned
      cases outputs : scanOutputs item.transaction item.outputs early with
      | error fault =>
        rw [outputs] at scanned
        cases scanned
      | ok middle =>
        rw [outputs] at scanned
        obtain ⟨sameCreated, sameGeneration, consumes⟩ := scanInputs_ok _ inputs
        obtain ⟨sameConsumed, present, generates, creates⟩ := scanOutputs_ok _ outputs
        obtain ⟨consumed, generation, created, absent⟩ := ih scanned
        refine ⟨fun id => ?_, fun id => ?_, fun id output found => ?_, fun id none => ?_⟩
        · rw [consumed, sameConsumed, consumes, Spends, Spends, List.exists_mem_cons_iff, or_left_comm, or_assoc]
        · rw [generation, generates, sameGeneration, Generates, Generates, List.exists_mem_cons_iff, or_left_comm, or_assoc]
        · rcases created id output found with ⟨other, member, later⟩ | earlier
          · exact Or.inl ⟨other, List.mem_cons_of_mem item member, later⟩
          · rw [creates, sameCreated] at earlier
            split at earlier
            · rename_i matched
              exact Or.inl ⟨item, List.mem_cons_self, matched.1, matched.2, earlier⟩
            · exact Or.inr earlier
        · obtain ⟨notLater, before⟩ := absent id none
          rw [creates, sameCreated] at before
          constructor
          · rintro output ⟨other, member, sameTx, matched, found⟩
            rcases List.mem_cons.mp member with rfl | later
            · rw [if_pos ⟨sameTx, matched⟩, found] at before
              cases before
            · exact notLater output ⟨other, later, sameTx, matched, found⟩
          · split at before
            · rename_i matched
              have there := present id.index matched.2
              rw [before] at there
              cases there
            · exact before

/-! ## What a report means -/

/-- What the report that an output was created comes to, by the state in which it is stored. -/
def creation (cache : OutputCache) (mempool : Bool) (finalState : TxoState) (id : Outpoint) (output : Output) :
    Except Fault (Option Modification) := do
  let (initial, transition) ← initialState cache id finalState
  match transition with
  | .disallowed => .error .exception
  | .unnecessary => .ok none
  | _ => .ok (some ⟨finalState, initial, some output, getProposals cache mempool id⟩)

/-- What the report that an output was spent comes to, after a report of its creation or not. -/
def consumption (cache : OutputCache) (mempool : Bool) (id : Outpoint) :
    Option Modification → Except Fault (Option Modification)
  | some modification => do
    match ← checkTransition modification.finalState (consumedState mempool) with
    | .disallowed => .error .exception
    | .unnecessary => .ok (some modification)
    | _ =>
      .ok (some { modification with
        finalState := consumedState mempool
        proposals := modification.proposals ∪ getProposals cache mempool id })
  | none => do
    let (initial, transition) ← initialState cache id (consumedState mempool)
    match transition with
    | .disallowed => .error .exception
    | .null => .error .exception
    | .unnecessary => .ok none
    | .allowed => do
      let spends ← getOutput cache id
      .ok (some ⟨consumedState mempool, initial, some spends, getProposals cache mempool id⟩)

/-- The proposals are those of the modifications. -/
def Gathered (parsed : ParsedBlockMatches) : Prop :=
  ∀ proposal, proposal ∈ parsed.proposals ↔
    ∃ id modification, parsed.transaction.find? id = some modification ∧ proposal ∈ modification.proposals

theorem gathered_add {parsed : ParsedBlockMatches} {id : Outpoint} {modification : Modification} (gathered : Gathered parsed)
    (more : ∀ earlier, parsed.transaction.find? id = some earlier → earlier.proposals ⊆ modification.proposals) :
    Gathered (addModification parsed id modification) := by
  intro proposal
  unfold addModification
  rw [Finset.mem_union, gathered]
  constructor
  · rintro (⟨other, found, is, inside⟩ | inside)
    · by_cases same : other = id
      · subst same
        exact ⟨other, modification, by rw [OrderedMap.find?_assign, if_pos rfl], more found is inside⟩
      · exact ⟨other, found, by rw [OrderedMap.find?_assign, if_neg same, is], inside⟩
    · exact ⟨id, modification, by rw [OrderedMap.find?_assign, if_pos rfl], inside⟩
  · rintro ⟨other, found, is, inside⟩
    rw [OrderedMap.find?_assign] at is
    split at is
    · cases is
      exact Or.inr inside
    · exact Or.inl ⟨other, found, is, inside⟩

/-- The reports of created outputs lead from one to the other. -/
structure CreatedFrom (cache : OutputCache) (mempool : Bool) (finalState : Outpoint → TxoState)
    (created : List (Outpoint × Output)) (before after : ParsedBlockMatches) : Prop where
  gathered : Gathered after
  each : ∀ id output, (id, output) ∈ created →
    creation cache mempool (finalState id) id output = .ok (after.transaction.find? id)
  others : ∀ id, id ∉ created.map Prod.fst → after.transaction.find? id = before.transaction.find? id

theorem parseCreated_ok {block : Position} {generation : Finset Outpoint} {cache : OutputCache} {mempool : Bool}
    {target : Int} (created : List (Outpoint × Output)) :
    ∀ {before after : ParsedBlockMatches}, (created.map Prod.fst).Nodup → Gathered before →
      (∀ entry ∈ created, before.transaction.find? entry.1 = none) →
      parseCreated block generation cache mempool target created before = .ok after →
      CreatedFrom cache mempool (createdState block generation cache mempool target) created before after := by
  induction created with
  | nil =>
    intro before after _ gathered _ parsed
    cases parsed
    exact ⟨gathered, by simp, by simp⟩
  | cons entry created ih =>
    intro before after distinct gathered fresh parsed
    obtain ⟨id, output⟩ := entry
    rw [List.map_cons, List.nodup_cons] at distinct
    have absent := fresh (id, output) List.mem_cons_self
    unfold parseCreated at parsed
    rw [if_neg (by rw [absent]; exact Bool.false_ne_true)] at parsed
    dsimp only at parsed
    -- what stands for this output after the rest of the list was parsed from `next`
    have finish : ∀ next : ParsedBlockMatches, Gathered next →
        (∀ other, other ≠ id → next.transaction.find? other = before.transaction.find? other) →
        creation cache mempool (createdState block generation cache mempool target id) id output =
          .ok (next.transaction.find? id) →
        parseCreated block generation cache mempool target created next = .ok after →
        CreatedFrom cache mempool (createdState block generation cache mempool target) ((id, output) :: created)
          before after := by
      intro next nextGathered elsewhere here rest
      have later : ∀ entry ∈ created, entry.1 ≠ id := by
        intro entry member same
        exact distinct.1 (List.mem_map.mpr ⟨entry, member, same⟩)
      obtain ⟨all, each, others⟩ := ih distinct.2 nextGathered (fun entry member => by
        rw [elsewhere entry.1 (later entry member)]
        exact fresh entry (List.mem_cons_of_mem _ member)) rest
      refine ⟨all, fun other found member => ?_, fun other outside => ?_⟩
      · rcases List.mem_cons.mp member with same | inRest
        · cases same
          rw [others id distinct.1]
          exact here
        · exact each other found inRest
      · rw [List.map_cons, List.mem_cons, not_or] at outside
        rw [others other outside.2, elsewhere other outside.1]
    cases states : initialState cache id (createdState block generation cache mempool target id) with
    | error fault =>
      rw [states] at parsed
      cases parsed
    | ok pair =>
      obtain ⟨initial, transition⟩ := pair
      rw [states] at parsed
      cases transition with
      | disallowed => cases parsed
      | unnecessary =>
        refine finish before gathered (fun _ _ => rfl) ?_ parsed
        unfold creation
        rw [states, absent]
        rfl
      | null =>
        refine finish (addModification before id _) (gathered_add gathered ?_) ?_ ?_ parsed
        · intro earlier found
          rw [absent] at found
          cases found
        · intro other different
          exact (OrderedMap.find?_assign _ _ _ _).trans (if_neg different)
        · unfold creation
          rw [states]
          exact congrArg Except.ok ((OrderedMap.find?_assign _ _ _ _).trans (if_pos rfl)).symm
      | allowed =>
        refine finish (addModification before id _) (gathered_add gathered ?_) ?_ ?_ parsed
        · intro earlier found
          rw [absent] at found
          cases found
        · intro other different
          exact (OrderedMap.find?_assign _ _ _ _).trans (if_neg different)
        · unfold creation
          rw [states]
          exact congrArg Except.ok ((OrderedMap.find?_assign _ _ _ _).trans (if_pos rfl)).symm

theorem findOutput_stored {parsed : ParsedBlockMatches} {cache : OutputCache} {items : BlockMatches} {id : Outpoint}
    (stored : outputExists cache id = true) : findOutput parsed cache items id = getOutput cache id := by
  rw [findOutput, if_pos stored]

/-- Only of an output that is stored is the transition anything but null. -/
theorem initialState_stored {cache : OutputCache} {id : Outpoint} {finalState : TxoState} {initial : Option TxoState}
    {transition : Transition} (states : initialState cache id finalState = .ok (initial, transition))
    (moves : transition ≠ .null) : outputExists cache id = true := by
  unfold initialState at states
  split at states
  · assumption
  · cases states
    exact absurd rfl moves

/-- The reports of spent outputs lead from one to the other. -/
structure ConsumedFrom (cache : OutputCache) (mempool : Bool) (consumed : List Outpoint)
    (before after : ParsedBlockMatches) : Prop where
  gathered : Gathered after
  each : ∀ id ∈ consumed, consumption cache mempool id (before.transaction.find? id) = .ok (after.transaction.find? id)
  others : ∀ id, id ∉ consumed → after.transaction.find? id = before.transaction.find? id

theorem parseConsumed_ok {cache : OutputCache} {items : BlockMatches} {mempool : Bool} (consumed : List Outpoint) :
    ∀ {before after : ParsedBlockMatches}, consumed.Nodup → Gathered before →
      parseConsumed cache items mempool consumed before = .ok after →
      ConsumedFrom cache mempool consumed before after := by
  induction consumed with
  | nil =>
    intro before after _ gathered parsed
    cases parsed
    exact ⟨gathered, by simp, by simp⟩
  | cons id consumed ih =>
    intro before after distinct gathered parsed
    rw [List.nodup_cons] at distinct
    have finish : ∀ next : ParsedBlockMatches, Gathered next →
        (∀ other, other ≠ id → next.transaction.find? other = before.transaction.find? other) →
        consumption cache mempool id (before.transaction.find? id) = .ok (next.transaction.find? id) →
        parseConsumed cache items mempool consumed next = .ok after →
        ConsumedFrom cache mempool (id :: consumed) before after := by
      intro next nextGathered elsewhere here rest
      obtain ⟨all, each, others⟩ := ih distinct.2 nextGathered rest
      refine ⟨all, fun other member => ?_, fun other outside => ?_⟩
      · rcases List.mem_cons.mp member with rfl | inRest
        · rw [others other distinct.1]
          exact here
        · have different : other ≠ id := by
            rintro rfl
            exact distinct.1 inRest
          rw [← elsewhere other different]
          exact each other inRest
      · rw [List.mem_cons, not_or] at outside
        rw [others other outside.2, elsewhere other outside.1]
    -- a modification is put in the place of the one that stood there
    have replaced : ∀ modification : Modification,
        (∀ earlier, before.transaction.find? id = some earlier → earlier.proposals ⊆ modification.proposals) →
        consumption cache mempool id (before.transaction.find? id) = .ok (some modification) →
        parseConsumed cache items mempool consumed (addModification before id modification) = .ok after →
        ConsumedFrom cache mempool (id :: consumed) before after := by
      intro modification more here rest
      refine finish (addModification before id modification) (gathered_add gathered more) ?_ ?_ rest
      · intro other different
        exact (OrderedMap.find?_assign _ _ _ _).trans (if_neg different)
      · rw [here]
        exact congrArg Except.ok ((OrderedMap.find?_assign _ _ _ _).trans (if_pos rfl)).symm
    unfold parseConsumed at parsed
    cases stands : before.transaction.find? id with
    | some modification =>
      rw [stands] at parsed finish replaced
      dsimp only at parsed
      cases checked : checkTransition modification.finalState (consumedState mempool) with
      | error fault =>
        rw [checked] at parsed
        cases parsed
      | ok transition =>
        rw [checked] at parsed
        cases transition with
        | disallowed => cases parsed
        | unnecessary =>
          refine finish before gathered (fun _ _ => rfl) ?_ parsed
          dsimp only [consumption]
          rw [checked, stands]
          rfl
        | null =>
          refine replaced _ (fun earlier is => ?_) ?_ parsed
          · cases is
            exact Finset.subset_union_left
          · dsimp only [consumption]
            rw [checked]
            rfl
        | allowed =>
          refine replaced _ (fun earlier is => ?_) ?_ parsed
          · cases is
            exact Finset.subset_union_left
          · dsimp only [consumption]
            rw [checked]
            rfl
    | none =>
      rw [stands] at parsed finish replaced
      dsimp only at parsed
      cases states : initialState cache id (consumedState mempool) with
      | error fault =>
        rw [states] at parsed
        cases parsed
      | ok pair =>
        obtain ⟨initial, transition⟩ := pair
        rw [states] at parsed
        cases transition with
        | disallowed => cases parsed
        | null => cases parsed
        | unnecessary =>
          refine finish before gathered (fun _ _ => rfl) ?_ parsed
          dsimp only [consumption]
          rw [states, stands]
          rfl
        | allowed =>
          have stored := initialState_stored states (by decide)
          change (findOutput before cache items id >>= fun spends => _) = .ok after at parsed
          rw [findOutput_stored stored] at parsed
          cases spends : getOutput cache id with
          | error fault =>
            rw [spends] at parsed
            cases parsed
          | ok output =>
            rw [spends] at parsed
            refine replaced _ (fun earlier is => ?_) ?_ parsed
            · cases is
            · dsimp only [consumption]
              rw [states]
              change (getOutput cache id >>= fun spends => _) = _
              rw [spends]
              rfl

/-- What the reports of a block on one output come to: first that of its creation, then that of
its spending. -/
def Reported (cache : OutputCache) (items : BlockMatches) (mempool : Bool) (finalState : TxoState) (id : Outpoint)
    (result : Option Modification) : Prop :=
  ∃ early,
    ((∀ output, ¬ Creates items id output) ∧ early = none ∨
      ∃ output, Creates items id output ∧ creation cache mempool finalState id output = .ok early) ∧
    (Spends items id → consumption cache mempool id early = .ok result) ∧ (¬ Spends items id → result = early)

structure Parsed (cache : OutputCache) (block : Position) (items : BlockMatches) (mempool : Bool) (target : Int)
    (generation : Finset Outpoint) (parsed : ParsedBlockMatches) : Prop where
  generates : ∀ id, id ∈ generation ↔ Generates items id
  confirmed : mempool = true → generation = ∅
  gathered : Gathered parsed
  reported : ∀ id,
    Reported cache items mempool (createdState block generation cache mempool target id) id (parsed.transaction.find? id)

theorem parse_ok {cache : OutputCache} {block : Position} {items : BlockMatches} {mempool : Bool} {target : Int}
    {parsed : ParsedBlockMatches} (ran : parse cache block items mempool target = .ok parsed) :
    ∃ generation, Parsed cache block items mempool target generation parsed := by
  unfold parse at ran
  cases scanned : scanTransactions items {} with
  | error fault =>
    rw [scanned] at ran
    cases ran
  | ok scan =>
    rw [scanned] at ran
    obtain ⟨consumed, generation, creates, absent⟩ := scanTransactions_ok items scanned
    change (if mempool = true ∧ scan.generation ≠ ∅ then _ else _) = Except.ok parsed at ran
    split at ran
    · cases ran
    · rename_i permitted
      cases creating : parseCreated block scan.generation cache mempool target scan.created.entries {} with
      | error fault =>
        rw [creating] at ran
        cases ran
      | ok early =>
        rw [creating] at ran
        change (parseConsumed cache items mempool (SortedList.ordered scan.consumed) early >>= _) = _ at ran
        cases consuming : parseConsumed cache items mempool (SortedList.ordered scan.consumed) early with
        | error fault =>
          rw [consuming] at ran
          cases ran
        | ok late =>
          rw [consuming] at ran
          change (associateAll late cache items items >>= _) = _ at ran
          cases associated : associateAll late cache items items with
          | error fault =>
            rw [associated] at ran
            cases ran
          | ok done =>
            rw [associated] at ran
            cases ran
            have distinct : (scan.created.entries.map Prod.fst).Nodup :=
              (List.pairwise_map.mpr scan.created.sorted).imp ne_of_lt
            have nothing : Gathered {} := by
              intro proposal
              simp [OrderedMap.find?_empty]
            have first := parseCreated_ok scan.created.entries distinct nothing (fun _ _ => rfl) creating
            have second := parseConsumed_ok _ (SortedList.ordered_nodup _) first.gathered consuming
            refine ⟨scan.generation, fun id => ?_, fun inMempool => ?_, second.gathered, fun id => ?_⟩
            · rw [generation]
              simp
            · by_contra some
              exact permitted ⟨inMempool, some⟩
            · refine ⟨early.transaction.find? id, ?_, fun spent => ?_, fun unspent => ?_⟩
              · cases found : scan.created.find? id with
                | none =>
                  refine Or.inl ⟨(absent id found).1, ?_⟩
                  rw [first.others id]
                  · rfl
                  · intro member
                    obtain ⟨entry, inside, same⟩ := List.mem_map.mp member
                    rw [← same, (OrderedMap.find?_eq_some _ _ entry.2).mpr inside] at found
                    cases found
                | some output =>
                  have created : Creates items id output := by
                    rcases creates id output found with created | before
                    · exact created
                    · cases before
                  exact Or.inr ⟨output, created, first.each id output ((OrderedMap.find?_eq_some _ _ _).mp found)⟩
              · exact second.each id ((SortedList.mem_ordered _ _).mpr ((consumed id).mpr (Or.inl spent)))
              · apply second.others id
                rw [SortedList.mem_ordered, consumed]
                simpa using unspent

/-! ## What the modifications are -/

theorem checkTransition_not_null (initialState finalState : TxoState) :
    checkTransition initialState finalState ≠ .ok .null := by
  cases initialState <;> cases finalState <;> nofun

theorem initialState_ok {cache : OutputCache} {id : Outpoint} {finalState : TxoState}
    {result : Option TxoState × Transition} (states : initialState cache id finalState = .ok result) :
    cache.outputs id = none ∧ result = (none, .null) ∨
      ∃ old, cache.outputs id = some old ∧ old.keys ≠ [] ∧ result.1 = some old.state ∧
        checkTransition old.state finalState = .ok result.2 := by
  unfold initialState at states
  cases stored : cache.outputs id with
  | none =>
    rw [if_neg (by rw [outputExists, stored]; exact Bool.false_ne_true)] at states
    cases states
    exact Or.inl ⟨rfl, rfl⟩
  | some old =>
    rw [if_pos (by rw [outputExists, stored]; rfl)] at states
    unfold getOutput at states
    rw [stored] at states
    dsimp only at states
    by_cases keyless : old.keys = []
    · rw [if_pos keyless] at states
      cases states
    · rw [if_neg keyless] at states
      change (checkTransition old.state finalState >>= _) = _ at states
      cases checked : checkTransition old.state finalState with
      | error fault =>
        rw [checked] at states
        cases states
      | ok transition =>
        rw [checked] at states
        cases states
        exact Or.inr ⟨old, rfl, keyless, rfl, checked⟩

theorem creation_ok {cache : OutputCache} {mempool : Bool} {finalState : TxoState} {id : Outpoint} {output : Output}
    {result : Option Modification} (created : creation cache mempool finalState id output = .ok result) :
    cache.outputs id = none ∧ result = some ⟨finalState, none, some output, getProposals cache mempool id⟩ ∨
      ∃ old, cache.outputs id = some old ∧ old.keys ≠ [] ∧
        (checkTransition old.state finalState = .ok .allowed ∧
            result = some ⟨finalState, some old.state, some output, getProposals cache mempool id⟩ ∨
          checkTransition old.state finalState = .ok .unnecessary ∧ result = none) := by
  unfold creation at created
  cases states : initialState cache id finalState with
  | error fault =>
    rw [states] at created
    cases created
  | ok pair =>
    rw [states] at created
    rcases initialState_ok states with ⟨absent, rfl⟩ | ⟨old, stored, keys, initial, checked⟩
    · cases created
      exact Or.inl ⟨absent, rfl⟩
    · refine Or.inr ⟨old, stored, keys, ?_⟩
      obtain ⟨before, transition⟩ := pair
      cases initial
      cases transition with
      | null => exact absurd checked (checkTransition_not_null _ _)
      | disallowed => cases created
      | allowed =>
        cases created
        exact Or.inl ⟨checked, rfl⟩
      | unnecessary =>
        cases created
        exact Or.inr ⟨checked, rfl⟩

theorem consumption_created {cache : OutputCache} {mempool : Bool} {id : Outpoint} {modification : Modification}
    {result : Option Modification} (consumed : consumption cache mempool id (some modification) = .ok result) :
    checkTransition modification.finalState (consumedState mempool) = .ok .allowed ∧
        result = some { modification with
          finalState := consumedState mempool
          proposals := modification.proposals ∪ getProposals cache mempool id } ∨
      checkTransition modification.finalState (consumedState mempool) = .ok .unnecessary ∧ result = some modification := by
  dsimp only [consumption] at consumed
  cases checked : checkTransition modification.finalState (consumedState mempool) with
  | error fault =>
    rw [checked] at consumed
    cases consumed
  | ok transition =>
    rw [checked] at consumed
    cases transition with
    | null => exact absurd checked (checkTransition_not_null _ _)
    | disallowed => cases consumed
    | allowed =>
      cases consumed
      exact Or.inl ⟨rfl, rfl⟩
    | unnecessary =>
      cases consumed
      exact Or.inr ⟨rfl, rfl⟩

theorem consumption_stored {cache : OutputCache} {mempool : Bool} {id : Outpoint} {result : Option Modification}
    (consumed : consumption cache mempool id none = .ok result) :
    ∃ old, cache.outputs id = some old ∧ old.keys ≠ [] ∧
      (checkTransition old.state (consumedState mempool) = .ok .allowed ∧
          result = some ⟨consumedState mempool, some old.state, some old, getProposals cache mempool id⟩ ∨
        checkTransition old.state (consumedState mempool) = .ok .unnecessary ∧ result = none) := by
  dsimp only [consumption] at consumed
  cases states : initialState cache id (consumedState mempool) with
  | error fault =>
    rw [states] at consumed
    cases consumed
  | ok pair =>
    rw [states] at consumed
    rcases initialState_ok states with ⟨absent, rfl⟩ | ⟨old, stored, keys, initial, checked⟩
    · cases consumed
    · refine ⟨old, stored, keys, ?_⟩
      obtain ⟨before, transition⟩ := pair
      cases initial
      cases transition with
      | null => exact absurd checked (checkTransition_not_null _ _)
      | disallowed => cases consumed
      | unnecessary =>
        cases consumed
        exact Or.inr ⟨checked, rfl⟩
      | allowed =>
        refine Or.inl ⟨checked, ?_⟩
        change (getOutput cache id >>= _) = _ at consumed
        unfold getOutput at consumed
        rw [stored] at consumed
        dsimp only at consumed
        rw [if_neg keys] at consumed
        cases consumed
        rfl

/-- The output goes from its state to the final one by allowed transitions. -/
inductive Moves (cache : OutputCache) (id : Outpoint) : TxoState → Prop
  | created (finalState : TxoState) (absent : cache.outputs id = none) : Moves cache id finalState
  | allowed (old : Output) (finalState : TxoState) (stored : cache.outputs id = some old)
      (allowed : checkTransition old.state finalState = .ok .allowed) : Moves cache id finalState
  | later (between finalState : TxoState) (first : Moves cache id between)
      (allowed : checkTransition between finalState = .ok .allowed) : Moves cache id finalState

theorem reported_moves {cache : OutputCache} {items : BlockMatches} {mempool : Bool} {finalState : TxoState} {id : Outpoint}
    {modification : Modification} (reported : Reported cache items mempool finalState id (some modification)) :
    Moves cache id modification.finalState ∧
      (modification.finalState = finalState ∨ modification.finalState = consumedState mempool) ∧
      modification.initialState = (cache.outputs id).map Output.state ∧
      (cache.outputs id = none → ∃ output, Creates items id output ∧ modification.output = some output) := by
  obtain ⟨early, creating, spending, resting⟩ := reported
  -- the modification that the report of creation leaves
  have fromCreation : ∀ found, early = some found →
      Moves cache id found.finalState ∧ found.finalState = finalState ∧
        found.initialState = (cache.outputs id).map Output.state ∧
        (cache.outputs id = none → ∃ output, Creates items id output ∧ found.output = some output) := by
    rintro found rfl
    rcases creating with ⟨_, nothing⟩ | ⟨output, creates, created⟩
    · cases nothing
    · rcases creation_ok created with ⟨absent, is⟩ | ⟨old, stored, _, ⟨allowed, is⟩ | ⟨_, is⟩⟩
      · cases is
        exact ⟨.created _ absent, rfl, by rw [absent]; rfl, fun _ => ⟨output, creates, rfl⟩⟩
      · cases is
        exact ⟨.allowed old _ stored allowed, rfl, by rw [stored]; rfl, fun _ => ⟨output, creates, rfl⟩⟩
      · cases is
  by_cases spent : Spends items id
  · have consumed := spending spent
    cases early with
    | none =>
      obtain ⟨old, stored, _, ⟨allowed, is⟩ | ⟨_, is⟩⟩ := consumption_stored consumed
      · cases is
        exact ⟨.allowed old _ stored allowed, Or.inr rfl, by rw [stored]; rfl, fun absent => by rw [stored] at absent; cases absent⟩
      · cases is
    | some found =>
      obtain ⟨moves, final, initial, output⟩ := fromCreation found rfl
      rcases consumption_created consumed with ⟨allowed, is⟩ | ⟨_, is⟩
      · cases is
        exact ⟨.later _ _ moves allowed, Or.inr rfl, initial, output⟩
      · cases is
        exact ⟨moves, Or.inl final, initial, output⟩
  · obtain ⟨moves, final, initial, output⟩ := fromCreation modification (resting spent).symm
    exact ⟨moves, Or.inl final, initial, output⟩

theorem reported_proposals {cache : OutputCache} {items : BlockMatches} {mempool : Bool} {finalState : TxoState}
    {id : Outpoint} {modification : Modification}
    (reported : Reported cache items mempool finalState id (some modification)) :
    modification.proposals = getProposals cache mempool id := by
  obtain ⟨early, creating, spending, resting⟩ := reported
  have fromCreation : ∀ found, early = some found → found.proposals = getProposals cache mempool id := by
    rintro found rfl
    rcases creating with ⟨_, nothing⟩ | ⟨output, _, created⟩
    · cases nothing
    · rcases creation_ok created with ⟨_, is⟩ | ⟨_, _, _, ⟨_, is⟩ | ⟨_, is⟩⟩
      · cases is
        rfl
      · cases is
        rfl
      · cases is
  by_cases spent : Spends items id
  · have consumed := spending spent
    cases early with
    | none =>
      obtain ⟨_, _, _, ⟨_, is⟩ | ⟨_, is⟩⟩ := consumption_stored consumed
      · cases is
        rfl
      · cases is
    | some found =>
      have proposals := fromCreation found rfl
      rcases consumption_created consumed with ⟨_, is⟩ | ⟨_, is⟩
      · cases is
        show found.proposals ∪ getProposals cache mempool id = _
        rw [proposals, Finset.union_self]
      · cases is
        exact proposals
  · exact fromCreation modification (resting spent).symm

/-! ## What a block moves -/

/-- The block reports that the output was created. -/
def ReportsCreated (items : BlockMatches) (id : Outpoint) : Prop := ∃ output, Creates items id output

instance (items : BlockMatches) (id : Outpoint) : Decidable (ReportsCreated items id) :=
  decidable_of_iff
    (∃ item ∈ items, item.transaction.id = id.txid ∧ id.index ∈ item.outputs ∧
      (item.transaction.outputs[id.index]?).isSome = true) (by
    constructor
    · rintro ⟨item, member, same, matched, present⟩
      obtain ⟨output, found⟩ := Option.isSome_iff_exists.mp present
      exact ⟨output, item, member, same, matched, found⟩
    · rintro ⟨output, item, member, same, matched, found⟩
      exact ⟨item, member, same, matched, by rw [found]; rfl⟩)

instance (items : BlockMatches) (id : Outpoint) : Decidable (Spends items id) :=
  inferInstanceAs (Decidable (∃ item ∈ items, ∃ index ∈ item.inputs, item.transaction.previousOutputs[index]? = some id))

/-- Whether reports from a block change the state of an output. An output that is known to be
created, or to be spent, is passed over. -/
def moves (old : Option TxoState) (created spent : Bool) : Bool :=
  match old with
  | none => created
  | some .unconfirmedNew => created || spent
  | some .orphanedNew => created || spent
  | some .confirmedSpend => false
  | some _ => spent

theorem createdState_confirmed (block : Position) (generation : Finset Outpoint) (cache : OutputCache) (target : Int)
    (id : Outpoint) : createdState block generation cache false target id = .confirmedNew ∨
      createdState block generation cache false target id = .immature := by
  unfold createdState
  split
  · split
    · exact Or.inl rfl
    · exact Or.inr rfl
  · exact Or.inl rfl

theorem moves_created {old final : TxoState} {transition : Transition} (confirmed : final = .confirmedNew ∨ final = .immature)
    (checked : checkTransition old final = .ok transition) (spent : Bool) :
    (transition = .allowed → moves (some old) true spent = true) ∧
      (transition = .unnecessary → moves (some old) true spent = moves (some old) false spent) := by
  rcases confirmed with rfl | rfl <;> cases old <;> cases checked <;> simp [moves]

theorem moves_spent {old : TxoState} {transition : Transition} (checked : checkTransition old .confirmedSpend = .ok transition) :
    (transition = .allowed → moves (some old) false true = true) ∧
      (transition = .unnecessary → moves (some old) false true = false) := by
  cases old <;> cases checked <;> simp [moves]

/-- In a block that is parsed an output has a modification exactly when the reports move it. -/
theorem reported_isSome {cache : OutputCache} {items : BlockMatches} {finalState : TxoState} {id : Outpoint}
    {result : Option Modification} (confirmed : finalState = .confirmedNew ∨ finalState = .immature)
    (reported : Reported cache items false finalState id result) :
    result.isSome = moves ((cache.outputs id).map Output.state) (ReportsCreated items id) (Spends items id) := by
  obtain ⟨early, creating, spending, resting⟩ := reported
  have after : early = none → result.isSome = moves ((cache.outputs id).map Output.state) false (Spends items id) := by
    rintro rfl
    by_cases spent : Spends items id
    · obtain ⟨old, stored, _, ⟨checked, is⟩ | ⟨checked, is⟩⟩ := consumption_stored (spending spent)
      · rw [is, stored, decide_eq_true spent]
        exact ((moves_spent checked).1 rfl).symm
      · rw [is, stored, decide_eq_true spent]
        exact ((moves_spent checked).2 rfl).symm
    · rw [resting spent, decide_eq_false spent]
      cases cache.outputs id with
      | none => rfl
      | some old =>
        show false = moves (some old.state) false false
        cases old.state <;> rfl
  rcases creating with ⟨uncreated, nothing⟩ | ⟨output, creates, created⟩
  · have unreported : ¬ ReportsCreated items id := fun ⟨output, creates⟩ => uncreated output creates
    rw [decide_eq_false unreported]
    exact after nothing
  · rw [decide_eq_true (show ReportsCreated items id from ⟨output, creates⟩)]
    have remains : ∀ found, early = some found → result.isSome = true := by
      rintro found rfl
      by_cases spent : Spends items id
      · rcases consumption_created (spending spent) with ⟨_, is⟩ | ⟨_, is⟩
        · rw [is]
          rfl
        · rw [is]
          rfl
      · rw [resting spent]
        rfl
    rcases creation_ok created with ⟨absent, is⟩ | ⟨old, stored, _, ⟨checked, is⟩ | ⟨checked, is⟩⟩
    · rw [remains _ is, absent]
      rfl
    · rw [remains _ is, stored]
      exact ((moves_created confirmed checked _).1 rfl).symm
    · rw [after is, stored]
      exact ((moves_created confirmed checked _).2 rfl).symm

/-- The state that a moved output goes to. -/
theorem reported_final {cache : OutputCache} {items : BlockMatches} {finalState : TxoState} {id : Outpoint}
    {modification : Modification} (confirmed : finalState = .confirmedNew ∨ finalState = .immature)
    (reported : Reported cache items false finalState id (some modification)) :
    modification.finalState = if Spends items id then .confirmedSpend else finalState := by
  obtain ⟨early, creating, spending, resting⟩ := reported
  have fromCreation : ∀ found, early = some found → found.finalState = finalState := by
    rintro found rfl
    rcases creating with ⟨_, nothing⟩ | ⟨output, _, created⟩
    · cases nothing
    · rcases creation_ok created with ⟨_, is⟩ | ⟨_, _, _, ⟨_, is⟩ | ⟨_, is⟩⟩
      · cases is
        rfl
      · cases is
        rfl
      · cases is
  split
  · rename_i spent
    have consumed := spending spent
    cases early with
    | none =>
      obtain ⟨_, _, _, ⟨_, is⟩ | ⟨_, is⟩⟩ := consumption_stored consumed
      · cases is
        rfl
      · cases is
    | some found =>
      rcases consumption_created consumed with ⟨_, is⟩ | ⟨unnecessary, is⟩
      · cases is
        rfl
      · -- nothing goes from its creation to a spend without need
        rw [fromCreation found rfl] at unnecessary
        rcases confirmed with rfl | rfl <;> cases unnecessary
  · rename_i unspent
    exact fromCreation modification (resting unspent).symm

/-- A stored output that is reported created may go to the state of its creation, or need not. -/
theorem reported_permits {cache : OutputCache} {items : BlockMatches} {mempool : Bool} {finalState : TxoState} {id : Outpoint}
    {result : Option Modification} {old : Output} (reported : Reported cache items mempool finalState id result)
    (created : ReportsCreated items id) (stored : cache.outputs id = some old) :
    checkTransition old.state finalState = .ok .allowed ∨ checkTransition old.state finalState = .ok .unnecessary := by
  obtain ⟨early, ⟨uncreated, _⟩ | ⟨output, _, creates⟩, _, _⟩ := reported
  · obtain ⟨output, creates⟩ := created
    exact absurd creates (uncreated output)
  · rcases creation_ok creates with ⟨absent, _⟩ | ⟨other, found, _, ⟨checked, _⟩ | ⟨checked, _⟩⟩
    · rw [stored] at absent
      cases absent
    · rw [stored] at found
      cases found
      exact Or.inl checked
    · rw [stored] at found
      cases found
      exact Or.inr checked

/-- What is spent is stored, or created by the same block. -/
theorem reported_present {cache : OutputCache} {items : BlockMatches} {mempool : Bool} {finalState : TxoState} {id : Outpoint}
    {result : Option Modification} (reported : Reported cache items mempool finalState id result)
    (spent : Spends items id) (absent : cache.outputs id = none) : ReportsCreated items id := by
  obtain ⟨early, ⟨_, nothing⟩ | ⟨output, creates, _⟩, spending, _⟩ := reported
  · rw [nothing] at spending
    obtain ⟨old, stored, _⟩ := consumption_stored (spending spent)
    rw [absent] at stored
    cases stored
  · exact ⟨output, creates⟩

/-- What an unconfirmed transaction makes of an output. -/
def drafts (old : Option TxoState) (created spent : Bool) : Option TxoState :=
  match old with
  | none => if created then some (if spent then .unconfirmedSpend else .unconfirmedNew) else none
  | some .unconfirmedNew => if spent then some .unconfirmedSpend else none
  | some .confirmedNew => if spent then some .unconfirmedSpend else none
  | some .immature => if spent then some .unconfirmedSpend else none
  | some _ => none

theorem reported_drafts {cache : OutputCache} {items : BlockMatches} {id : Outpoint} {result : Option Modification}
    (reported : Reported cache items true .unconfirmedNew id result) :
    result.map Modification.finalState =
      drafts ((cache.outputs id).map Output.state) (ReportsCreated items id) (Spends items id) := by
  obtain ⟨early, creating, spending, resting⟩ := reported
  -- the report of the creation moves what is not stored only
  have creates : early.map Modification.finalState =
      if cache.outputs id = none ∧ ReportsCreated items id then some .unconfirmedNew else none := by
    rcases creating with ⟨uncreated, rfl⟩ | ⟨output, reportsIt, created⟩
    · have unreported : ¬ ReportsCreated items id := fun ⟨output, creates⟩ => uncreated output creates
      rw [if_neg fun both => unreported both.2]
      rfl
    · rcases creation_ok created with ⟨absent, is⟩ | ⟨old, stored, _, ⟨checked, is⟩ | ⟨_, is⟩⟩
      · rw [is, if_pos ⟨absent, output, reportsIt⟩]
        rfl
      · exfalso
        cases state : old.state <;> rw [state] at checked <;> cases checked
      · rw [is, if_neg fun both => by rw [stored] at both; cases both.1]
        rfl
  by_cases spent : Spends items id
  · rw [decide_eq_true spent]
    cases early with
    | none =>
      obtain ⟨old, stored, _, ⟨checked, is⟩ | ⟨checked, is⟩⟩ := consumption_stored (spending spent)
      · rw [is, stored]
        replace checked : checkTransition old.state .unconfirmedSpend = .ok .allowed := checked
        show some TxoState.unconfirmedSpend = _
        cases state : old.state <;> rw [state] at checked <;> cases checked <;> simp [drafts, state]
      · rw [is, stored]
        replace checked : checkTransition old.state .unconfirmedSpend = .ok .unnecessary := checked
        cases state : old.state <;> rw [state] at checked <;> cases checked
        simp [drafts, state]
    | some modification =>
      rw [Option.map_some] at creates
      split at creates
      · rename_i both
        rw [Option.some.injEq] at creates
        rw [both.1, decide_eq_true both.2]
        rcases consumption_created (spending spent) with ⟨_, is⟩ | ⟨checked, _⟩
        · rw [is]
          rfl
        · rw [creates] at checked
          cases checked
      · cases creates
  · rw [resting spent, creates, decide_eq_false spent]
    cases stored : cache.outputs id with
    | none => simp [drafts]
    | some old =>
      rw [if_neg fun both => by cases both.1]
      cases state : old.state <;> simp [drafts, state]

/-! ## The outputs that a block mentions -/

def mentioned (items : BlockMatches) : List Outpoint :=
  items.flatMap fun item =>
    item.inputs.filterMap (fun index => item.transaction.previousOutputs[index]?) ++
      item.outputs.map fun index => ⟨item.transaction.id, index⟩

theorem created_mentioned {items : BlockMatches} {id : Outpoint} (created : ReportsCreated items id) :
    id ∈ mentioned items := by
  obtain ⟨_, item, member, same, matched, _⟩ := created
  refine List.mem_flatMap.mpr ⟨item, member, List.mem_append_right _ (List.mem_map.mpr ⟨id.index, matched, ?_⟩)⟩
  rw [same]

theorem spent_mentioned {items : BlockMatches} {id : Outpoint} (spent : Spends items id) : id ∈ mentioned items := by
  obtain ⟨item, member, index, matched, found⟩ := spent
  exact List.mem_flatMap.mpr ⟨item, member, List.mem_append_left _ (List.mem_filterMap.mpr ⟨index, matched, found⟩)⟩

/-- The outputs that the block reports created. -/
def createdOutputs (items : BlockMatches) : Finset Outpoint :=
  (mentioned items).toFinset.filter fun id => ReportsCreated items id

/-- The outputs that the block reports spent. -/
def consumedOutputs (items : BlockMatches) : Finset Outpoint :=
  (mentioned items).toFinset.filter fun id => Spends items id

instance (items : BlockMatches) (id : Outpoint) : Decidable (Generates items id) :=
  inferInstanceAs (Decidable (∃ item ∈ items, _ ∧ _))

/-- The outputs that the block reports created by a generation transaction. -/
def generatedOutputs (items : BlockMatches) : Finset Outpoint :=
  (createdOutputs items).filter fun id => Generates items id

@[simp] theorem mem_createdOutputs (items : BlockMatches) (id : Outpoint) :
    id ∈ createdOutputs items ↔ ReportsCreated items id := by
  rw [createdOutputs, Finset.mem_filter, List.mem_toFinset]
  exact and_iff_right_of_imp created_mentioned

@[simp] theorem mem_consumedOutputs (items : BlockMatches) (id : Outpoint) :
    id ∈ consumedOutputs items ↔ Spends items id := by
  rw [consumedOutputs, Finset.mem_filter, List.mem_toFinset]
  exact and_iff_right_of_imp spent_mentioned

@[simp] theorem mem_generatedOutputs (items : BlockMatches) (id : Outpoint) :
    id ∈ generatedOutputs items ↔ ReportsCreated items id ∧ Generates items id := by
  rw [generatedOutputs, Finset.mem_filter, mem_createdOutputs]

end Opentxs.Wallet.Reports
