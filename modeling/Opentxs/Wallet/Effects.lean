import Opentxs.Wallet.Editing

/-! What every operation that returns does to the outputs, one by one. -/

namespace Opentxs.Wallet.Effects
open Library Library.Ordered HeaderOracle BlockHeader Types Storage OutputCache Parsing Reports Outputs
open Tracking Associations Editing

/-- The edits lead to these outputs in memory and leave the position of the wallet. What was
committed keeps its indexes. -/
structure Writes (terms : Terms) (before after : Session) (outputs : Outpoint → Option Output) : Prop where
  edits : Edits terms before after
  outputs : after.cache.outputs = outputs
  position : after.cache.position = before.cache.position
  committed : after.committed.indexes = before.committed.indexes

theorem Writes.none (terms : Terms) (session : Session) : Writes terms session session session.cache.outputs :=
  ⟨.refl, rfl, rfl, rfl⟩

theorem Writes.trans {terms : Terms} {first second third : Session} {early late : Outpoint → Option Output}
    (earlier : Writes terms first second early) (later : Writes terms second third late) : Writes terms first third late :=
  ⟨earlier.edits.trans later.edits, later.outputs, later.position.trans earlier.position,
    later.committed.trans earlier.committed⟩

variable {before after : Session} {terms : Terms}

theorem single_update {cache : OutputCache} {tables : Tables} (single : Single cache tables) (output : Outpoint)
    {associations : List ProposalID} {row : Option ProposalID} (same : associations = row.toList) (id : Outpoint) :
    Function.update cache.outputToProposal output associations id =
      (Function.update tables.outputProposal output row id).toList := by
  by_cases here : id = output
  · subst here
    rw [Function.update_self, Function.update_self, same]
  · rw [Function.update_of_ne here, Function.update_of_ne here, single id]

theorem confirmingCreated_paired (strict : Prop) (session : Session) (proposal : ProposalID) (output : Outpoint) :
    Paired strict session (confirmingCreated proposal output) :=
  ⟨rfl, rfl, fun _ _ subset => subset, fun _ single => single_update single output rfl⟩

theorem confirmingConsumed_paired (strict : Prop) (session : Session) (proposal : ProposalID) (output : Outpoint) :
    Paired strict session (confirmingConsumed proposal output) :=
  ⟨rfl, rfl, fun _ _ subset => Finset.erase_subset_erase _ subset, fun _ single => single_update single output rfl⟩

theorem creating_paired {strict : Prop} {session : Session} (proposal : ProposalID) {output : Outpoint}
    (free : session.cache.outputToProposal output = []) :
    Paired strict session ((creating proposal output).followedBy (associating output proposal)) := by
  refine ⟨rfl, rfl, fun _ _ subset => subset, fun _ single => single_update single output ?_⟩
  show session.cache.outputToProposal output ++ [proposal] = [proposal]
  rw [free, List.nil_append]

/-- An output that is consumed has no association yet, or it gets a second one in memory only. -/
theorem consuming_paired {strict : Prop} {session : Session} (proposal : ProposalID) {output : Outpoint}
    (free : strict → session.cache.outputToProposal output = []) :
    Paired strict session ((consuming proposal output).followedBy (associating output proposal)) := by
  refine ⟨rfl, rfl, fun _ _ subset => Finset.insert_subset_insert _ subset, fun isStrict single =>
    single_update single output ?_⟩
  show session.cache.outputToProposal output ++ [proposal] = [proposal]
  rw [free isStrict, List.nil_append]

theorem Writes.of_associations {change : Change} (paired : Paired terms.strict before change)
    (reassociates : Reassociates change before after) : Writes terms before after before.cache.outputs := by
  refine ⟨.single (.associations change paired reassociates), ?_, ?_, ?_⟩
  · rw [reassociates.cache]
    rfl
  · rw [reassociates.cache]
    rfl
  · rw [reassociates.committed]

theorem Writes.of_replaced {id : Outpoint} {old new : Output} (known : new.state ∈ allStates) (keys : new.keys = old.keys)
    (departs : terms.strict → Departs before old new) (replaced : Replaced id old new before after) :
    Writes terms before after (Function.update before.cache.outputs id (some new)) := by
  refine ⟨.single (.replaced id old new known keys departs replaced), ?_, ?_, ?_⟩
  · rw [replaced.cache]
  · rw [replaced.cache]
  · rw [replaced.committed]

/-! ## Loops -/

/-- Each item changes the output at its own key, by what it was before the loop. -/
theorem forEach_writes {α : Type} {step : α → Writing Unit} {key : α → Outpoint}
    {effect : α → Option Output → Option Output} (items : List α) (distinct : (items.map key).Nodup) :
    ∀ before after : Session, (∀ item ∈ items, ∀ session next : Session,
        session.committed.indexes = before.committed.indexes →
        session.cache.outputs (key item) = before.cache.outputs (key item) → step item session = (.ok (), next) →
        Writes terms session next
          (Function.update session.cache.outputs (key item) (effect item (session.cache.outputs (key item))))) →
      Program.forEach step items before = (.ok (), after) →
      ∃ outputs, Writes terms before after outputs ∧
        (∀ item ∈ items, outputs (key item) = effect item (before.cache.outputs (key item))) ∧
        ∀ id, id ∉ items.map key → outputs id = before.cache.outputs id := by
  induction items with
  | nil =>
    intro before after _ ran
    obtain ⟨_, rfl⟩ := Program.pure_ok ran
    exact ⟨_, Writes.none terms after, by simp, by simp⟩
  | cons item items ih =>
    intro before after each ran
    rw [List.map_cons, List.nodup_cons] at distinct
    obtain ⟨_, middle, first, rest⟩ := Program.bind_ok ran
    have writes := each item List.mem_cons_self before middle rfl rfl first
    have different : ∀ next ∈ items, key next ≠ key item := by
      intro next inRest same
      exact distinct.1 (List.mem_map.mpr ⟨next, inRest, same⟩)
    obtain ⟨outputs, later, inside, outside⟩ := ih distinct.2 middle after (by
      intro next member session final committed same ran
      apply each next (List.mem_cons_of_mem item member) session final (committed.trans writes.committed) _ ran
      rw [same, writes.outputs, Function.update_of_ne (different next member)]) rest
    rw [writes.outputs] at inside outside
    refine ⟨outputs, writes.trans later, fun next member => ?_, fun id absent => ?_⟩
    · rcases List.mem_cons.mp member with rfl | inRest
      · rw [outside _ distinct.1, Function.update_self]
      · rw [inside next inRest, Function.update_of_ne (different next inRest)]
    · rw [List.map_cons, List.mem_cons, not_or] at absent
      rw [outside id absent.2, Function.update_of_ne absent.1]

theorem forEach_leaves {α : Type} {step : α → Writing Unit} (items : List α)
    (each : ∀ item before after, step item before = (.ok (), after) → Writes terms before after before.cache.outputs) :
    ∀ before after, Program.forEach step items before = (.ok (), after) → Writes terms before after before.cache.outputs := by
  apply @Program.forEach_relates _ _ _ step (fun before after => Writes terms before after before.cache.outputs) (Writes.none terms)
  · intro first second third early late
    rw [← early.outputs]
    exact early.trans late
  · exact fun item _ start final ran => each item start final ran

/-- An item may come again when the effect is the same the second time. -/
theorem forEach_repeats {step : Outpoint → Writing Unit} {effect : Option Output → Option Output}
    (again : ∀ old, effect (effect old) = effect old) (items : List Outpoint) :
    ∀ before after : Session, (∀ item, ∀ session next : Session,
        session.committed.indexes = before.committed.indexes →
        (session.cache.outputs item = before.cache.outputs item ∨
          session.cache.outputs item = effect (before.cache.outputs item)) →
        step item session = (.ok (), next) →
        Writes terms session next (Function.update session.cache.outputs item (effect (session.cache.outputs item)))) →
      Program.forEach step items before = (.ok (), after) →
      Writes terms before after fun id => if id ∈ items then effect (before.cache.outputs id) else before.cache.outputs id := by
  induction items with
  | nil =>
    intro before after _ ran
    obtain ⟨_, rfl⟩ := Program.pure_ok ran
    exact ⟨.refl, by simp, rfl, rfl⟩
  | cons item items ih =>
    intro before after each ran
    obtain ⟨_, middle, first, rest⟩ := Program.bind_ok ran
    have writes := each item before middle rfl (Or.inl rfl) first
    have here : ∀ id, middle.cache.outputs id = before.cache.outputs id ∨
        middle.cache.outputs id = effect (before.cache.outputs id) := by
      intro id
      rw [writes.outputs]
      by_cases same : id = item
      · subst same
        exact Or.inr (Function.update_self _ _ _)
      · exact Or.inl (Function.update_of_ne same _ _)
    have later := ih middle after (by
      intro next session final committed same ran
      apply each next session final (committed.trans writes.committed) _ ran
      rcases here next with before | changed
      · rw [before] at same
        exact same
      · rw [changed, again, or_self] at same
        exact Or.inr same) rest
    refine ⟨writes.edits.trans later.edits, ?_, later.position.trans writes.position, later.committed.trans writes.committed⟩
    rw [later.outputs, writes.outputs]
    funext id
    by_cases same : id = item
    · subst same
      rw [Function.update_self, again, ite_self, if_pos List.mem_cons_self]
    · rw [Function.update_of_ne same]
      simp only [List.mem_cons, same, false_or]

/-! ## Adding transactions -/

theorem confirmProposal_writes {output : Outpoint} {proposal : ProposalID} {result : Unit}
    (ran : confirmProposal output proposal before = (.ok result, after)) : Writes terms before after before.cache.outputs := by
  rcases (confirmProposal_ok ran).2 with ⟨_, _, reassociates⟩ | ⟨_, _, reassociates⟩
  · exact Writes.of_associations (confirmingCreated_paired _ _ _ _) reassociates
  · exact Writes.of_associations (confirmingConsumed_paired _ _ _ _) reassociates

theorem checkOutputProposals_writes {id : Outpoint} {proposals : Finset ProposalID} {mempool : Bool} {result : Unit}
    (ran : checkOutputProposals id proposals mempool before = (.ok result, after)) :
    Writes terms before after before.cache.outputs := by
  unfold checkOutputProposals at ran
  split at ran
  · obtain ⟨_, rfl⟩ := Program.pure_ok ran
    exact Writes.none terms after
  · exact forEach_leaves _ (fun _ _ _ ran => confirmProposal_writes ran) before after ran

/-- The stored output, when this makes it leave its position, leaves one that was committed. -/
def MayDepart (session : Session) (id : Outpoint) (state : TxoState) (position : Position) : Prop :=
  ∀ old, session.cache.outputs id = some old → Departs session old (restated old state position)

/-- An unconfirmed output stays where it is. -/
theorem mayDepart_unconfirmed (session : Session) (id : Outpoint) {state : TxoState} (position : Position)
    (unconfirmed : state = .unconfirmedNew ∨ state = .unconfirmedSpend) : MayDepart session id state position := by
  intro old _ moves
  rcases unconfirmed with rfl | rfl
  · exact absurd rfl moves
  · exact absurd rfl moves

theorem changeTxoState_writes {id : Outpoint} {position : Position} {state : TxoState} {result : Unit}
    (known : state ∈ allStates) (departs : terms.strict → MayDepart before id state position)
    (ran : changeTxoState id position state before = (.ok result, after)) :
    Writes terms before after (Function.update before.cache.outputs id
      ((before.cache.outputs id).map fun output => restated output state position)) := by
  obtain ⟨old, replaced⟩ := changeTxoState_ok ran
  have found := replaced.found
  rw [found]
  show Writes terms before after (Function.update before.cache.outputs id (some (restated old state position)))
  have keys : (restated old state position).keys = old.keys := rfl
  exact Writes.of_replaced known keys (fun strict => departs strict old found) replaced

theorem stored_writes {account : AccountID} {subchain : SubchainID} {id : Outpoint} {position : Position}
    {output : Output} {isGeneration : Bool} {state : TxoState} {middle : Session} {result done : Unit}
    (known : state ∈ allStates) (home : terms.home id = (account, subchain))
    (ran : createState account subchain id position output isGeneration state before = (.ok result, middle))
    (indexing : indexKeys terms.environment id output.keys middle = (.ok done, after)) :
    before.cache.outputs id = none ∧
      Writes terms before after (Function.update before.cache.outputs id (some (tagged output isGeneration state position))) := by
  have created := createState_ok ran
  have owned := indexKeys_ok indexing
  have here : Created id (tagged output isGeneration state position) isGeneration (terms.home id).1 (terms.home id).2
      before middle := by
    rw [home]
    exact created
  refine ⟨created.fresh, .single (.created id _ isGeneration middle known here owned), ?_, ?_, ?_⟩
  · rw [owned.cache]
    show middle.cache.outputs = _
    rw [created.cache]
  · rw [owned.cache]
    show middle.cache.position = _
    rw [created.cache]
  · rw [owned.committed, created.committed]

/-- What a block makes of an output. -/
def outcome (block : Position) (modification : Modification) (old : Option Output) : Option Output :=
  if modification.initialState.isSome then old.map fun output => restated output modification.finalState block
  else modification.output.map fun output => tagged output true modification.finalState block

theorem process_writes {account : AccountID} {subchain : SubchainID} {block : Position}
    {mempool : Bool} {entry : Outpoint × Modification} {result : Unit} (known : entry.2.finalState ∈ allStates)
    (home : terms.home entry.1 = (account, subchain))
    (departs : terms.strict → MayDepart before entry.1 entry.2.finalState block)
    (ran : process terms.environment account subchain block mempool entry before = (.ok result, after)) :
    Writes terms before after (Function.update before.cache.outputs entry.1
      (outcome block entry.2 (before.cache.outputs entry.1))) := by
  obtain ⟨id, modification⟩ := entry
  unfold process at ran
  unfold outcome
  split at ran
  · rename_i stored
    obtain ⟨_, confirmed, confirming, changing⟩ := Program.bind_ok ran
    have confirms : Writes terms before confirmed before.cache.outputs := checkOutputProposals_writes confirming
    have changes := changeTxoState_writes known (fun strict old found => by
      rw [confirms.outputs] at found
      unfold Departs
      rw [confirms.committed]
      exact departs strict old found) changing
    rw [confirms.outputs] at changes
    rw [if_pos stored]
    exact confirms.trans changes
  · rename_i fresh
    unfold processCreate at ran
    rw [if_neg fresh]
    cases data : modification.output with
    | none =>
      rw [data] at ran
      exact absurd ran fun ran => Program.not_throw_ok ran
    | some output =>
      rw [data] at ran
      obtain ⟨_, checked, checking, afterCheck⟩ := Program.bind_ok ran
      obtain ⟨_, confirmed, confirming, afterConfirm⟩ := Program.bind_ok afterCheck
      obtain ⟨_, created, creating, indexing⟩ := Program.bind_ok afterConfirm
      have checks : checked = before := by
        rcases Program.onlyIf_ok checking with ⟨_, checking⟩ | ⟨_, same⟩
        · exact (require_ok checking).2
        · exact same
      subst checks
      have confirms : Writes terms checked confirmed checked.cache.outputs := by
        rcases Program.onlyIf_ok confirming with ⟨_, confirming⟩ | ⟨_, rfl⟩
        · exact checkOutputProposals_writes confirming
        · exact Writes.none terms _
      obtain ⟨_, creates⟩ := stored_writes known home creating indexing
      rw [confirms.outputs] at creates
      exact confirms.trans creates

theorem Writes.of_proposals (cache : after.cache = before.cache) (tables : SameBooks before.tables after.tables)
    (committed : SameBooks before.committed after.committed) : Writes terms before after before.cache.outputs :=
  ⟨.single (.proposals cache tables committed), by rw [cache], by rw [cache], committed.indexes⟩

theorem cancel_writes {id : ProposalID} {rc : Bool} (ran : cancel id before = (.ok rc, after)) :
    Writes terms before after before.cache.outputs := by
  unfold cancel at ran
  obtain ⟨session, start, getting, afterGet⟩ := Program.bind_ok ran
  obtain ⟨rfl, rfl⟩ := Program.get_ok getting
  split at afterGet
  · obtain ⟨_, rfl⟩ := Program.pure_ok afterGet
    exact Writes.none terms after
  · obtain ⟨deleted, erased, erasing, afterErase⟩ := Program.bind_ok afterGet
    have erases : erased.cache = start.cache ∧ SameBooks start.tables erased.tables ∧
        erased.committed = start.committed := by
      cases deleted with
      | true =>
        have became := (delete_true erasing).2
        refine ⟨became.cache, ?_, became.committed⟩
        rw [became.tables]
        exact ⟨rfl, rfl, rfl, rfl, rfl, rfl, rfl⟩
      | false =>
        unfold delete at erasing
        obtain ⟨seen, again, getting, rest⟩ := Program.bind_ok erasing
        obtain ⟨rfl, rfl⟩ := Program.get_ok getting
        split at rest
        · obtain ⟨_, changed, _, returned⟩ := Program.bind_ok rest
          have returns := (Program.pure_ok returned).1
          cases returns
        · obtain ⟨_, rfl⟩ := Program.pure_ok rest
          exact ⟨rfl, SameBooks.refl _, rfl⟩
    split at afterErase
    · obtain ⟨_, rfl⟩ := Program.pure_ok afterErase
      refine Writes.of_proposals erases.1 erases.2.1 ?_
      rw [erases.2.2]
      exact SameBooks.refl _
    · obtain ⟨_, marked, marking, returned⟩ := Program.bind_ok afterErase
      obtain ⟨_, rfl⟩ := Program.pure_ok returned
      have marks := Program.modify_ok marking
      rw [marks]
      refine Writes.of_proposals erases.1 erases.2.1 ?_
      show SameBooks start.committed erased.committed
      rw [erases.2.2]
      exact SameBooks.refl _

theorem finishStoredProposal_writes {id : ProposalID} {result : Unit}
    (ran : finishStoredProposal id before = (.ok result, after)) : Writes terms before after before.cache.outputs := by
  unfold finishStoredProposal at ran
  obtain ⟨rc, cancelled, cancelling, afterCancel⟩ := Program.bind_ok ran
  obtain ⟨_, marked, marking, requiring⟩ := Program.bind_ok afterCancel
  obtain ⟨_, rfl⟩ := require_ok requiring
  have cancels : Writes terms before cancelled before.cache.outputs := cancel_writes cancelling
  have marks := Program.modify_ok marking
  rw [marks]
  have marked : Writes terms cancelled after cancelled.cache.outputs := by
    rw [marks]
    exact Writes.of_proposals rfl (SameBooks.refl _) (SameBooks.refl _)
  rw [cancels.outputs] at marked
  rw [← marks]
  exact cancels.trans marked

theorem createdState_known (block : Position) (generation : Finset Outpoint) (cache : OutputCache) (mempool : Bool)
    (target : Int) (id : Outpoint) : createdState block generation cache mempool target id ∈ allStates := by
  unfold createdState
  split
  · split
    · decide
    · decide
  · split
    · decide
    · decide

theorem consumedState_known (mempool : Bool) : consumedState mempool ∈ allStates := by
  unfold consumedState
  split
  · decide
  · decide

/-- What a block makes of an output, if the block has something to say of it. -/
def blockOutcome (block : Position) (result : Option Modification) (old : Option Output) : Option Output :=
  match result with
  | some modification => outcome block modification old
  | none => old

/-- An output that the block moves leaves its position only if something stood there at the last
commit. -/
def MovesCommitted (session : Session) (entry : Position × BlockMatches) : Prop :=
  ∀ id old, session.cache.outputs id = some old →
    moves (some old.state) (ReportsCreated entry.2 id) (Spends entry.2 id) = true → entry.1 ≠ old.minedPosition →
      Index.rows session.committed.indexes.positions old.minedPosition ≠ ∅

/-- A block is parsed, its modifications are processed, and then proposals are finished. -/
theorem addTransactionsInBlock_steps {environment : Environment} {account : AccountID} {subchain : SubchainID}
    {mempool : Bool} {entry : Position × BlockMatches} {result : Unit}
    (ran : addTransactionsInBlock environment account subchain mempool entry before = (.ok result, after)) :
    ∃ parsed processed, parse before.cache entry.1 entry.2 mempool environment.maturationTarget = .ok parsed ∧
      Program.forEach (process environment account subchain entry.1 mempool) parsed.transaction.entries before =
        (.ok (), processed) ∧
      (after = processed ∨ ∃ proposals, Program.forEach finishStoredProposal proposals processed = (.ok (), after)) := by
  unfold addTransactionsInBlock at ran
  obtain ⟨cache, start, reading, afterRead⟩ := Program.bind_ok ran
  obtain ⟨rfl, rfl⟩ := readCache_ok reading
  obtain ⟨parsed, loaded, parsing, afterParse⟩ := Program.bind_ok afterRead
  obtain ⟨parses, rfl⟩ := Program.lift_ok parsing
  obtain ⟨_, processed, processing, finishing⟩ := Program.bind_ok afterParse
  refine ⟨parsed, processed, parses, processing, ?_⟩
  split at finishing
  · exact Or.inl (Program.pure_ok finishing).2
  · obtain ⟨cache, start, reading, afterRead⟩ := Program.bind_ok finishing
    obtain ⟨rfl, rfl⟩ := readCache_ok reading
    exact Or.inr ⟨_, afterRead⟩

theorem parsed_writes {account : AccountID} {subchain : SubchainID} {mempool : Bool} {entry : Position × BlockMatches}
    {parsed : ParsedBlockMatches} {processed : Session}
    (home : ∀ id, terms.home id = (account, subchain)) (moved : terms.strict → mempool = false → MovesCommitted before entry)
    (parses : parse before.cache entry.1 entry.2 mempool terms.environment.maturationTarget = .ok parsed)
    (processing : Program.forEach (process terms.environment account subchain entry.1 mempool) parsed.transaction.entries before =
      (.ok (), processed))
    (finishing : after = processed ∨
      ∃ proposals, Program.forEach finishStoredProposal proposals processed = (.ok (), after)) :
    ∃ generation outputs,
      Parsed before.cache entry.1 entry.2 mempool terms.environment.maturationTarget generation parsed ∧
      Writes terms before after outputs ∧
      ∀ id, outputs id = blockOutcome entry.1 (parsed.transaction.find? id) (before.cache.outputs id) := by
  obtain ⟨generation, isParsed⟩ := parse_ok parses
  have distinct : (parsed.transaction.entries.map Prod.fst).Nodup :=
    (List.pairwise_map.mpr parsed.transaction.sorted).imp ne_of_lt
  have reports : ∀ item ∈ parsed.transaction.entries, Reported before.cache entry.2 mempool
      (createdState entry.1 generation before.cache mempool terms.environment.maturationTarget item.1) item.1 (some item.2) := by
    rintro ⟨id, modification⟩ member
    have reported := isParsed.reported id
    rw [(OrderedMap.find?_eq_some _ _ modification).mpr member] at reported
    exact reported
  have known : ∀ item ∈ parsed.transaction.entries, item.2.finalState ∈ allStates := by
    intro item member
    rcases (reported_moves (reports item member)).2.1 with final | final
    · exact final ▸ createdState_known _ _ _ _ _ _
    · exact final ▸ consumedState_known mempool
  have departs : terms.strict → ∀ item ∈ parsed.transaction.entries, MayDepart before item.1 item.2.finalState entry.1 := by
    intro strict item member
    cases mempool with
    | true =>
      apply mayDepart_unconfirmed
      rcases (reported_moves (reports item member)).2.1 with final | final
      · left
        rw [final, createdState, isParsed.confirmed rfl, if_neg (Finset.notMem_empty _), if_pos rfl]
      · exact Or.inr final
    | false =>
      intro old found changes
      have isMoved := reported_isSome (createdState_confirmed _ _ _ _ _) (reports item member)
      rw [found] at isMoved
      refine moved strict rfl item.1 old found isMoved.symm fun same => changes ?_
      show effectivePosition item.2.finalState old.minedPosition entry.1 = old.minedPosition
      unfold effectivePosition
      split
      · rfl
      · rfl
      · exact same
  obtain ⟨outputs, writes, inside, outside⟩ :=
    @forEach_writes terms _ _ _ (fun item old => outcome entry.1 item.2 old) _ distinct before processed
      (fun item member session next committed same ran => by
        refine process_writes (known item member) (home item.1) (fun strict old found => ?_) ran
        rw [same] at found
        unfold Departs
        rw [committed]
        exact departs strict item member old found) processing
  have finishes : Writes terms processed after processed.cache.outputs := by
    rcases finishing with rfl | ⟨proposals, finishing⟩
    · exact Writes.none terms _
    · exact forEach_leaves proposals (fun _ _ _ ran => finishStoredProposal_writes ran) processed after finishing
  rw [writes.outputs] at finishes
  refine ⟨generation, outputs, isParsed, writes.trans finishes, fun id => ?_⟩
  cases found : parsed.transaction.find? id with
  | some modification => exact inside (id, modification) ((OrderedMap.find?_eq_some _ _ _).mp found)
  | none =>
    apply outside
    intro member
    obtain ⟨⟨other, modification⟩, stands, rfl⟩ := List.mem_map.mp member
    rw [(OrderedMap.find?_eq_some _ _ modification).mpr stands] at found
    cases found

theorem addTransactionsInBlock_writes {account : AccountID} {subchain : SubchainID}
    {mempool : Bool} {entry : Position × BlockMatches} {result : Unit}
    (home : ∀ id, terms.home id = (account, subchain)) (moved : terms.strict → mempool = false → MovesCommitted before entry)
    (ran : addTransactionsInBlock terms.environment account subchain mempool entry before = (.ok result, after)) :
    ∃ generation parsed outputs,
      Parsed before.cache entry.1 entry.2 mempool terms.environment.maturationTarget generation parsed ∧
      Writes terms before after outputs ∧
      ∀ id, outputs id = blockOutcome entry.1 (parsed.transaction.find? id) (before.cache.outputs id) := by
  obtain ⟨parsed, processed, parses, processing, finishing⟩ := addTransactionsInBlock_steps ran
  obtain ⟨generation, outputs, rest⟩ := parsed_writes home moved parses processing finishing
  exact ⟨generation, parsed, outputs, rest⟩

/-- What a block makes of the outputs, tidy or not. -/
theorem addTransactionsInBlock_ok {environment : Environment} {account : AccountID} {subchain : SubchainID}
    {mempool : Bool} {entry : Position × BlockMatches} {result : Unit}
    (ran : addTransactionsInBlock environment account subchain mempool entry before = (.ok result, after)) :
    ∃ generation parsed, Parsed before.cache entry.1 entry.2 mempool environment.maturationTarget generation parsed ∧
      after.cache.position = before.cache.position ∧
      ∀ id, after.cache.outputs id = blockOutcome entry.1 (parsed.transaction.find? id) (before.cache.outputs id) := by
  obtain ⟨generation, parsed, outputs, isParsed, writes, outcomes⟩ :=
    @addTransactionsInBlock_writes _ _ ⟨environment, fun _ => (account, subchain), False⟩ _ _ _ _ _ (fun _ => rfl) nofun ran
  refine ⟨generation, parsed, isParsed, writes.position, fun id => ?_⟩
  rw [writes.outputs]
  exact outcomes id

theorem commit_ok {result : Unit} (ran : commit before = (.ok result, after)) :
    after.cache = before.cache ∧ after.tables = before.tables ∧ after.committed = before.tables ∧
      after.proposalData = before.proposalData := by
  unfold commit at ran
  obtain ⟨rc, wrote, writing, afterWrite⟩ := Program.bind_ok ran
  cases writing
  obtain ⟨_, required, requiring, marking⟩ := Program.bind_ok afterWrite
  obtain ⟨_, rfl⟩ := require_ok requiring
  rw [Program.modify_ok marking]
  exact ⟨rfl, rfl, rfl, rfl⟩

theorem commit_edits {result : Unit} (ran : commit before = (.ok result, after)) :
    Edits terms before after ∧ after.committed = after.tables := by
  obtain ⟨cache, tables, committed, _⟩ := commit_ok ran
  exact ⟨.single (.committed cache tables committed), committed.trans tables.symm⟩

/-! ## Advancing -/

def maturedOutput (position : Position) (output : Output) : Output :=
  if output.state = .confirmedNew then output else restated output .confirmedNew position

theorem maturedOutput_state (position : Position) (output : Output) :
    (maturedOutput position output).state = .confirmedNew := by
  unfold maturedOutput
  split
  · assumption
  · rfl

/-- What maturation makes of an output. -/
def matured (position : Position) (old : Option Output) : Option Output := old.map (maturedOutput position)

theorem matured_matured (position : Position) (old : Option Output) :
    matured position (matured position old) = matured position old := by
  cases old with
  | none => rfl
  | some output =>
    show some (maturedOutput position (maturedOutput position output)) = some (maturedOutput position output)
    rw [maturedOutput, if_pos (maturedOutput_state position output)]

/-- What is stored stands at positions at which something stood at the last commit. -/
def Placed (session : Session) : Prop :=
  ∀ id output, session.cache.outputs id = some output →
    Index.rows session.committed.indexes.positions output.minedPosition ≠ ∅

theorem Placed.mayDepart (placed : Placed before) (id : Outpoint) (state : TxoState) (position : Position) :
    MayDepart before id state position := fun old found _ => placed id old found

theorem mature_writes {position : Position} {id : Outpoint} {result : Unit}
    (departs : terms.strict → ∀ old, before.cache.outputs id = some old → old.state ≠ .confirmedNew →
      Departs before old (restated old .confirmedNew position))
    (ran : mature position id before = (.ok result, after)) :
    Writes terms before after (Function.update before.cache.outputs id (matured position (before.cache.outputs id))) := by
  unfold mature at ran
  obtain ⟨cache, start, reading, afterRead⟩ := Program.bind_ok ran
  obtain ⟨rfl, rfl⟩ := readCache_ok reading
  obtain ⟨output, loaded, loading, rest⟩ := Program.bind_ok afterRead
  obtain ⟨got, rfl⟩ := Program.lift_ok loading
  have found := (getOutput_ok got).1
  split at rest
  · rename_i confirmed
    obtain ⟨_, rfl⟩ := Program.pure_ok rest
    refine ⟨.refl, ?_, rfl, rfl⟩
    rw [found, matured, Option.map_some, maturedOutput, if_pos confirmed, Function.update_eq_self_iff.mpr found.symm]
  · rename_i changes
    have writes := changeTxoState_writes (by decide) (fun strict old same => by
      rw [found] at same
      cases same
      exact departs strict output found changes) rest
    rw [found, Option.map_some] at writes
    rw [found, matured, Option.map_some, maturedOutput, if_neg changes]
    exact writes

theorem updatePosition_true {position : Position} (ran : updatePosition position before = (.ok true, after)) :
    Becomes before after { before.cache with position := some position } { before.tables with position := some position } := by
  unfold updatePosition at ran
  obtain ⟨rc, stored, storing, afterStore⟩ := Program.bind_ok ran
  obtain ⟨_, last, changing, returned⟩ := Program.bind_ok afterStore
  obtain ⟨rfl, rfl⟩ := Program.pure_ok returned
  have wrote := store_true storing
  rcases Program.onlyIf_ok changing with ⟨_, changing⟩ | ⟨fails, _⟩
  · have changed := changeCache_ok changing
    refine ⟨?_, ?_, ?_, ?_⟩
    · rw [changed.cache, wrote.cache]
    · rw [changed.tables, wrote.tables]
    · rw [changed.committed, wrote.committed]
    · rw [changed.proposalData, wrote.proposalData]
  · exact absurd rfl fails

/-- The outputs that advancing to this position looks at. -/
def maturing (environment : Environment) (cache : OutputCache) (position : Position) : List Outpoint :=
  getMatured cache (max 0 ((getPosition cache).height - environment.maturationTarget))
    (position.height - environment.maturationTarget)

/-- Advancing does nothing unless the height grows and something can be mature there. -/
def Advances (environment : Environment) (cache : OutputCache) (position : Position) : Prop :=
  position ≠ getPosition cache ∧ ¬ position.height < (getPosition cache).height ∧
    0 ≤ position.height - environment.maturationTarget

structure Advanced (terms : Terms) (position : Position) (before after : Session) : Prop where
  advances : Advances terms.environment before.cache position
  edits : Edits terms before after
  outputs : after.cache.outputs = fun id =>
    if id ∈ maturing terms.environment before.cache position then matured position (before.cache.outputs id)
    else before.cache.outputs id
  position : after.cache.position = some position
  committed : after.committed = after.tables

theorem advanceTo_cases {position : Position} {result : Unit} (placed : terms.strict → Placed before)
    (ran : advanceTo terms.environment position before = (.ok result, after)) :
    ¬ Advances terms.environment before.cache position ∧ after = before ∨ Advanced terms position before after := by
  unfold advanceTo at ran
  obtain ⟨cache, start, reading, afterRead⟩ := Program.bind_ok ran
  obtain ⟨rfl, rfl⟩ := readCache_ok reading
  dsimp only at afterRead
  split at afterRead
  · rename_i stays
    refine Or.inl ⟨fun advances => ?_, (Program.pure_ok afterRead).2⟩
    rcases stays with same | lower
    · exact advances.1 same
    · exact advances.2.1 lower
  · rename_i moves
    obtain ⟨_, checked, checking, afterCheck⟩ := Program.bind_ok afterRead
    obtain ⟨_, rfl⟩ := assertTrue_ok checking
    split at afterCheck
    · rename_i early
      exact Or.inl ⟨fun advances => not_le.mpr early advances.2.2, (Program.pure_ok afterCheck).2⟩
    · rename_i early
      obtain ⟨_, grown, growing, afterGrow⟩ := Program.bind_ok afterCheck
      obtain ⟨rc, placed, placing, afterPlace⟩ := Program.bind_ok afterGrow
      obtain ⟨_, required, requiring, committing⟩ := Program.bind_ok afterPlace
      obtain ⟨rfl, rfl⟩ := require_ok requiring
      have grows := @forEach_repeats terms _ _ (matured_matured position) _ checked grown
        (fun id session next committed was ran => mature_writes (fun strict old found changes _ => by
          rcases was with same | changed
          · rw [committed]
            exact placed strict id old (same.symm.trans found)
          · -- matured before, and then it is confirmed
            rw [found] at changed
            obtain ⟨earlier, _, is⟩ := Option.map_eq_some_iff.mp changed.symm
            rw [← is] at changes
            exact absurd (maturedOutput_state position earlier) changes) ran) growing
      have places := updatePosition_true placing
      obtain ⟨commits, committed⟩ := @commit_edits _ _ terms _ committing
      have same := (commit_ok committing).1
      rw [not_or] at moves
      refine Or.inr ⟨⟨moves.1, moves.2, not_lt.mp early⟩, ?_, ?_, ?_, committed⟩
      · exact (grows.edits.tail (.positioned position places)).trans commits
      · rw [same, places.cache]
        exact grows.outputs
      · rw [same, places.cache]

theorem advanceTo_ok {position : Position} {result : Unit} (placed : terms.strict → Placed before)
    (ran : advanceTo terms.environment position before = (.ok result, after)) :
    after = before ∨ Advanced terms position before after :=
  (advanceTo_cases placed ran).imp_left And.right

/-! ## Proposals -/

theorem finishProposal_writes {id : ProposalID} {result : Unit}
    (ran : finishProposal id before = (.ok result, after)) : Writes terms before after before.cache.outputs := by
  unfold finishProposal at ran
  obtain ⟨cache, start, reading, afterRead⟩ := Program.bind_ok ran
  obtain ⟨rfl, rfl⟩ := readCache_ok reading
  obtain ⟨_, purged, purging, rest⟩ := Program.bind_ok afterRead
  have first : Writes terms start purged start.cache.outputs := forEach_leaves _
    (fun _ _ _ ran => Writes.of_associations (confirmingCreated_paired _ _ _ _) (purgeCreated_ok ran).2) start purged purging
  have second : Writes terms purged after purged.cache.outputs := forEach_leaves _
    (fun _ _ _ ran => Writes.of_associations (confirmingConsumed_paired _ _ _ _) (purgeConsumed_ok ran).2) purged after rest
  rw [first.outputs] at second
  exact first.trans second

/-- What a call that ends with a commit has done. -/
structure CommitsTo (terms : Terms) (before after : Session) (outputs : Outpoint → Option Output) : Prop where
  edits : Edits terms before after
  outputs : after.cache.outputs = outputs
  position : after.cache.position = before.cache.position
  committed : after.committed = after.tables

theorem Writes.commit {outputs : Outpoint → Option Output} {middle : Session} {result : Unit}
    (writes : Writes terms before middle outputs) (ran : commit middle = (.ok result, after)) :
    CommitsTo terms before after outputs := by
  obtain ⟨commits, committed⟩ := @commit_edits _ _ terms _ ran
  have same := (commit_ok ran).1
  refine ⟨writes.edits.trans commits, ?_, ?_, committed⟩
  · rw [same, writes.outputs]
  · rw [same, writes.position]

theorem cancelProposal_writes {id : ProposalID} {result : Unit}
    (ran : cancelProposal id before = (.ok result, after)) : CommitsTo terms before after before.cache.outputs := by
  unfold cancelProposal at ran
  obtain ⟨_, finished, finishing, afterFinish⟩ := Program.bind_ok ran
  obtain ⟨rc, cancelled, cancelling, afterCancel⟩ := Program.bind_ok afterFinish
  obtain ⟨_, required, requiring, committing⟩ := Program.bind_ok afterCancel
  obtain ⟨_, rfl⟩ := require_ok requiring
  have finishes : Writes terms before finished before.cache.outputs := finishProposal_writes finishing
  have cancels : Writes terms finished required finished.cache.outputs := cancel_writes cancelling
  rw [finishes.outputs] at cancels
  exact (finishes.trans cancels).commit committing

theorem choose_writes {proposal : ProposalID} {id : Outpoint} {utxo : Outpoint × Output}
    (ran : choose proposal id before = (.ok utxo, after)) :
    utxo.1 = id ∧ before.cache.outputs id = some utxo.2 ∧ consumeOutput proposal id before = (.ok (), after) := by
  unfold choose at ran
  obtain ⟨cache, start, reading, afterRead⟩ := Program.bind_ok ran
  obtain ⟨rfl, rfl⟩ := readCache_ok reading
  obtain ⟨output, loaded, loading, afterLoad⟩ := Program.bind_ok afterRead
  obtain ⟨got, rfl⟩ := Program.lift_ok loading
  obtain ⟨_, consumed, consuming, returned⟩ := Program.bind_ok afterLoad
  obtain ⟨rfl, rfl⟩ := Program.pure_ok returned
  exact ⟨rfl, (getOutput_ok got).1, consuming⟩

/-- As no reserved output can be released, the transaction has to spend all that are reserved. -/
theorem releaseUnusedInputs_ok {proposal : ProposalID} {consumed : Finset Outpoint} {result : Unit}
    (ran : releaseUnusedInputs proposal consumed before = (.ok result, after)) :
    after = before ∧ Index.rows before.cache.consumedByProposal proposal = consumed := by
  unfold releaseUnusedInputs at ran
  obtain ⟨cache, start, reading, afterRead⟩ := Program.bind_ok ran
  obtain ⟨rfl, rfl⟩ := readCache_ok reading
  obtain ⟨_, checked, checking, releasing⟩ := Program.bind_ok afterRead
  obtain ⟨subset, rfl⟩ := require_ok checking
  cases unused : SortedList.ordered (Index.rows checked.cache.consumedByProposal proposal \ consumed) with
  | nil =>
    rw [unused] at releasing
    obtain ⟨_, rfl⟩ := Program.pure_ok releasing
    refine ⟨rfl, Finset.Subset.antisymm (fun id member => ?_) (of_decide_eq_true subset)⟩
    by_contra outside
    have listed := (SortedList.mem_ordered _ _).mpr (Finset.mem_sdiff.mpr ⟨member, outside⟩)
    rw [unused] at listed
    cases listed
  | cons id rest =>
    rw [unused] at releasing
    obtain ⟨_, middle, first, _⟩ := Program.bind_ok releasing
    have listed : id ∈ SortedList.ordered (Index.rows checked.cache.consumedByProposal proposal \ consumed) := by
      rw [unused]
      exact List.mem_cons_self
    have reserved := (Index.mem_rows _ _ _).mp (Finset.mem_sdiff.mp ((SortedList.mem_ordered _ _).mp listed)).1
    exact absurd reserved (release_ok first)

theorem validateInputs_ok {consumed : Finset Outpoint} {result : Unit}
    (ran : validateInputs consumed before = (.ok result, after)) :
    after = before ∧ consumed ⊆ getState before.cache .confirmedNew ∪ getState before.cache .unconfirmedNew := by
  unfold validateInputs at ran
  obtain ⟨cache, start, reading, requiring⟩ := Program.bind_ok ran
  obtain ⟨rfl, rfl⟩ := readCache_ok reading
  obtain ⟨subset, rfl⟩ := require_ok requiring
  exact ⟨rfl, of_decide_eq_true subset⟩

theorem validateOutputs_ok {created : Finset Outpoint} {result : Unit}
    (ran : validateOutputs created before = (.ok result, after)) :
    after = before ∧ ∀ output ∈ created, validateOutput before.cache output = true := by
  unfold validateOutputs at ran
  obtain ⟨cache, start, reading, requiring⟩ := Program.bind_ok ran
  obtain ⟨rfl, rfl⟩ := readCache_ok reading
  obtain ⟨all, rfl⟩ := require_ok requiring
  exact ⟨rfl, of_decide_eq_true all⟩

/-- What a finalized proposal makes of an output that its transaction creates. -/
def drafted (transaction : Transaction) (id : Outpoint) (old : Option Output) : Option Output :=
  match old with
  | some output => some (restated output .unconfirmedNew {})
  | none => (transaction.outputs[id.index]?).map fun output => tagged output false .unconfirmedNew {}

theorem setOutputState_writes {proposal : ProposalID} {transaction : Transaction}
    {id : Outpoint} {result : Unit}
    (home : ∀ output key, transaction.outputs[id.index]? = some output → output.keys = [key] →
      terms.home id = (key.account, terms.environment.subchainID key.account key.subchain))
    (ran : setOutputState terms.environment proposal transaction id before = (.ok result, after)) :
    Writes terms before after (Function.update before.cache.outputs id (drafted transaction id (before.cache.outputs id))) := by
  unfold setOutputState at ran
  obtain ⟨_, associated, associating, afterAssociate⟩ := Program.bind_ok ran
  obtain ⟨_, free, reassociates⟩ := createOutput_ok associating
  have associates : Writes terms before associated before.cache.outputs :=
    Writes.of_associations (creating_paired _ free) reassociates
  obtain ⟨cache, start, reading, afterRead⟩ := Program.bind_ok afterAssociate
  obtain ⟨rfl, rfl⟩ := readCache_ok reading
  unfold drafted
  split at afterRead
  · rename_i stored
    have changes : Writes terms start after _ := changeTxoState_writes (by decide)
      (fun _ => mayDepart_unconfirmed start id {} (Or.inl rfl)) afterRead
    rw [associates.outputs] at changes
    rw [outputExists, associates.outputs] at stored
    obtain ⟨output, found⟩ := Option.isSome_iff_exists.mp stored
    rw [found] at changes ⊢
    exact associates.trans changes
  · rename_i absent
    rw [outputExists, associates.outputs, Option.not_isSome_iff_eq_none] at absent
    rw [absent]
    cases found : transaction.outputs[id.index]? with
    | none =>
      rw [found] at afterRead
      exact absurd afterRead fun ran => Program.not_throw_ok ran
    | some output =>
      rw [found] at afterRead
      dsimp only at afterRead
      cases keys : output.keys with
      | nil =>
        rw [keys] at afterRead
        exact absurd afterRead fun ran => Program.not_throw_ok ran
      | cons key others =>
        cases others with
        | nil =>
          rw [keys] at afterRead
          obtain ⟨_, created, creating, indexing⟩ := Program.bind_ok afterRead
          rw [← keys] at indexing
          obtain ⟨_, creates⟩ := stored_writes (by decide) (home output key found keys) creating indexing
          rw [associates.outputs] at creates
          exact associates.trans creates
        | cons second others =>
          rw [keys] at afterRead
          exact absurd afterRead fun ran => Program.not_throw_ok ran

def spentBy (consumed : Finset Outpoint) (id : Outpoint) (old : Option Output) : Option Output :=
  if id ∈ consumed then old.map fun output => restated output .unconfirmedSpend {} else old

structure Finalized (terms : Terms) (id : ProposalID) (transaction : Transaction) (before after : Session) : Prop where
  reserved : Index.rows before.cache.consumedByProposal id = getInputs transaction
  spendable : getInputs transaction ⊆ getState before.cache .confirmedNew ∪ getState before.cache .unconfirmedNew
  fresh : ∀ output ∈ getOutputs transaction, validateOutput before.cache output = true
  edits : Edits terms before after
  outputs : ∀ output, after.cache.outputs output =
    if output ∈ getOutputs transaction
    then drafted transaction output (spentBy (getInputs transaction) output (before.cache.outputs output))
    else spentBy (getInputs transaction) output (before.cache.outputs output)
  position : after.cache.position = before.cache.position
  committed : after.committed = after.tables

theorem addProposal_writes {id : ProposalID} {content : Content} {result : Unit}
    (ran : addProposal id content before = (.ok result, after)) :
    after.cache = before.cache ∧ Writes terms before after before.cache.outputs := by
  unfold addProposal at ran
  obtain ⟨rc, wrote, writing, afterWrite⟩ := Program.bind_ok ran
  cases writing
  obtain ⟨_, required, requiring, marking⟩ := Program.bind_ok afterWrite
  obtain ⟨_, rfl⟩ := require_ok requiring
  rw [Program.modify_ok marking]
  exact ⟨rfl, Writes.of_proposals rfl ⟨rfl, rfl, rfl, rfl, rfl, rfl, rfl⟩ ⟨rfl, rfl, rfl, rfl, rfl, rfl, rfl⟩⟩

/-- The calls that a finalized proposal has come through, and what they have found. -/
structure Finalizes (environment : Environment) (id : ProposalID) (transaction : Transaction)
    (before added spent created after : Session) : Prop where
  ordinary : transaction.isGeneration = false
  sameCache : added.cache = before.cache
  reserved : Index.rows before.cache.consumedByProposal id = getInputs transaction
  spendable : getInputs transaction ⊆ getState before.cache .confirmedNew ∪ getState before.cache .unconfirmedNew
  fresh : ∀ output ∈ getOutputs transaction, validateOutput before.cache output = true
  spending : Program.forEach (fun outpoint => changeTxoState outpoint {} .unconfirmedSpend)
    (SortedList.ordered (getInputs transaction)) added = (.ok (), spent)
  creating : Program.forEach (setOutputState environment id transaction)
    (SortedList.ordered (getOutputs transaction)) spent = (.ok (), created)
  committing : commit created = (.ok (), after)

theorem finalizeProposal_steps {environment : Environment} {id : ProposalID} {content : Content} {transaction : Transaction}
    {processTransactions : Bool} {result : Unit}
    (ran : finalizeProposal environment id content transaction processTransactions before = (.ok result, after)) :
    ∃ added spent created, addProposal id content before = (.ok (), added) ∧
      Finalizes environment id transaction before added spent created after := by
  unfold finalizeProposal at ran
  obtain ⟨_, checked, checking, afterCheck⟩ := Program.bind_ok ran
  obtain ⟨ordinary, rfl⟩ := assertTrue_ok checking
  obtain ⟨_, added, adding, afterAdd⟩ := Program.bind_ok afterCheck
  have sameCache := (@addProposal_writes _ _ ⟨environment, fun _ => (0, 0), False⟩ _ _ _ adding).1
  obtain ⟨_, released, releasing, afterRelease⟩ := Program.bind_ok afterAdd
  obtain ⟨rfl, reserved⟩ := releaseUnusedInputs_ok releasing
  obtain ⟨_, validated, validating, afterValidate⟩ := Program.bind_ok afterRelease
  obtain ⟨rfl, spendable⟩ := validateInputs_ok validating
  obtain ⟨_, drafting, checkingOutputs, afterOutputs⟩ := Program.bind_ok afterValidate
  obtain ⟨rfl, fresh⟩ := validateOutputs_ok checkingOutputs
  obtain ⟨_, spent, spending, afterSpend⟩ := Program.bind_ok afterOutputs
  obtain ⟨_, created, creating, afterCreate⟩ := Program.bind_ok afterSpend
  obtain ⟨_, processed, processing, committing⟩ := Program.bind_ok afterCreate
  obtain ⟨_, rfl⟩ := require_ok processing
  rw [sameCache] at reserved spendable fresh
  exact ⟨drafting, spent, processed, adding, of_decide_eq_true ordinary, sameCache, reserved, spendable, fresh, spending,
    creating, committing⟩

theorem finalizeProposal_ok {id : ProposalID} {content : Content} {transaction : Transaction}
    {processTransactions : Bool} {result : Unit}
    (home : ∀ (outpoint : Outpoint) output key, transaction.outputs[outpoint.index]? = some output → output.keys = [key] →
      terms.home outpoint = (key.account, terms.environment.subchainID key.account key.subchain))
    (ran : finalizeProposal terms.environment id content transaction processTransactions before = (.ok result, after)) :
    Finalized terms id transaction before after := by
  obtain ⟨added, spent, created, adding, steps⟩ := finalizeProposal_steps ran
  have adds := (@addProposal_writes _ _ terms _ _ _ adding).2
  obtain ⟨early, spends, spentInside, spentOutside⟩ :=
    @forEach_writes terms _ _ _ (fun _ old => old.map fun output => restated output .unconfirmedSpend {}) _
      (by rw [List.map_id']; exact SortedList.ordered_nodup _) added spent
      (fun output _ session _ _ _ ran => changeTxoState_writes (by decide)
        (fun _ => mayDepart_unconfirmed session output {} (Or.inr rfl)) ran) steps.spending
  obtain ⟨late, creates, createdInside, createdOutside⟩ :=
    @forEach_writes terms _ _ _ (fun id old => drafted transaction id old) _
      (by rw [List.map_id']; exact SortedList.ordered_nodup _) spent created
      (fun output _ _ _ _ _ ran => setOutputState_writes (home output) ran) steps.creating
  obtain ⟨commits, committed⟩ := @commit_edits _ _ terms _ steps.committing
  have same := (commit_ok steps.committing).1
  simp only [List.map_id', SortedList.mem_ordered] at spentInside spentOutside createdInside createdOutside
  have afterSpending : ∀ output,
      spent.cache.outputs output = spentBy (getInputs transaction) output (added.cache.outputs output) := by
    intro output
    rw [spends.outputs]
    unfold spentBy
    split
    · rename_i member
      exact spentInside output member
    · rename_i outside
      exact spentOutside output outside
  refine ⟨steps.reserved, steps.spendable, steps.fresh, ?_, fun output => ?_, ?_, committed⟩
  · exact adds.edits.trans (spends.edits.trans (creates.edits.trans commits))
  · rw [same, creates.outputs, ← adds.outputs, ← afterSpending]
    split
    · rename_i member
      exact createdInside output member
    · rename_i outside
      exact createdOutside output outside
  · rw [same, creates.position, spends.position, adds.position]

/-! ## Reserving -/

structure Reserved (terms : Terms) (proposal : ProposalID) (utxo : Outpoint × Output) (before after : Session) : Prop where
  stored : before.cache.outputs utxo.1 = some utxo.2
  unreserved : (proposal, utxo.1) ∉ before.cache.consumedByProposal
  permitted : mayAssociate before.cache utxo.1 .consume = true
  cache : after.cache =
    ((consuming proposal utxo.1).followedBy (associating utxo.1 proposal)).inMemory before.cache
  tables : after.tables =
    ((consuming proposal utxo.1).followedBy (associating utxo.1 proposal)).stored before.tables
  edits : Edits terms before after
  committed : after.committed = after.tables

theorem reserve_ok {proposal : ProposalID} {id : Outpoint} {utxo : Outpoint × Output}
    (free : terms.strict → before.cache.outputToProposal id = [])
    (ran : (do
      let utxo ← choose proposal id
      commit
      pure utxo) before = (.ok utxo, after)) : utxo.1 = id ∧ Reserved terms proposal utxo before after := by
  obtain ⟨found, chosen, choosing, afterChoose⟩ := Program.bind_ok ran
  obtain ⟨_, final, committing, returned⟩ := Program.bind_ok afterChoose
  obtain ⟨rfl, rfl⟩ := Program.pure_ok returned
  obtain ⟨named, stored, consuming⟩ := choose_writes choosing
  obtain ⟨unreserved, permitted, reassociates⟩ := consumeOutput_ok consuming
  obtain ⟨commits, committed⟩ := @commit_edits _ _ terms _ committing
  obtain ⟨cache, tables, _, _⟩ := commit_ok committing
  subst named
  refine ⟨rfl, stored, unreserved, permitted, ?_, ?_, ?_, committed⟩
  · rw [cache, reassociates.cache]
  · rw [tables, reassociates.tables]
  · exact (Relation.ReflTransGen.single (Edit.associations _ (consuming_paired _ free) reassociates)).trans commits

theorem reserveUTXO_ok {spender : Nym} {proposal : ProposalID} {policy : SpendPolicy} {utxo : Outpoint × Output}
    (free : terms.strict → ∀ id, selectOutput before.cache spender policy = some id → before.cache.outputToProposal id = [])
    (ran : reserveUTXO spender proposal policy before = (.ok utxo, after)) :
    selectOutput before.cache spender policy = some utxo.1 ∧ Reserved terms proposal utxo before after := by
  unfold reserveUTXO at ran
  obtain ⟨cache, start, reading, afterRead⟩ := Program.bind_ok ran
  obtain ⟨rfl, rfl⟩ := readCache_ok reading
  cases selected : selectOutput start.cache spender policy with
  | none =>
    rw [selected] at afterRead
    exact absurd afterRead fun ran => Program.not_throw_ok ran
  | some id =>
    rw [selected] at afterRead
    obtain ⟨rfl, reserved⟩ := reserve_ok (fun strict => free strict id selected) afterRead
    exact ⟨rfl, reserved⟩

/-! ## Reorgs -/

def rolledBackOutput (position : Position) (output : Output) : Output :=
  match unconfirmedState output.state with
  | some state => restated output state position
  | none => output

theorem unconfirmedState_known {state unconfirmed : TxoState} (is : unconfirmedState state = some unconfirmed) :
    unconfirmed ∈ allStates := by
  cases state <;> cases is <;> decide

theorem unconfirmedState_unconfirmed {state unconfirmed : TxoState} (is : unconfirmedState state = some unconfirmed) :
    unconfirmed = .unconfirmedNew ∨ unconfirmed = .unconfirmedSpend := by
  cases state <;> cases is
  · exact Or.inl rfl
  · exact Or.inr rfl
  · exact Or.inl rfl
  · exact Or.inr rfl

/-- Rolling back leaves an output where it is. -/
theorem rolledBackOutput_position (position : Position) (output : Output) :
    (rolledBackOutput position output).minedPosition = output.minedPosition := by
  unfold rolledBackOutput
  cases state : unconfirmedState output.state with
  | none => rfl
  | some unconfirmed =>
    rcases unconfirmedState_unconfirmed state with rfl | rfl
    · rfl
    · rfl

theorem rollBack_writes {position : Position} {id : Outpoint} {result : Unit}
    (ran : rollBack position id before = (.ok result, after)) :
    Writes terms before after (Function.update before.cache.outputs id
      ((before.cache.outputs id).map (rolledBackOutput position))) := by
  unfold rollBack at ran
  obtain ⟨cache, start, reading, afterRead⟩ := Program.bind_ok ran
  obtain ⟨rfl, rfl⟩ := readCache_ok reading
  obtain ⟨output, loaded, loading, rest⟩ := Program.bind_ok afterRead
  obtain ⟨got, rfl⟩ := Program.lift_ok loading
  have found := (getOutput_ok got).1
  cases state : unconfirmedState output.state with
  | some unconfirmed =>
    rw [state] at rest
    have writes : Writes terms loaded after _ := changeTxoState_writes (unconfirmedState_known state)
      (fun _ => mayDepart_unconfirmed loaded id position (unconfirmedState_unconfirmed state)) rest
    rw [found, Option.map_some] at writes
    rw [found, Option.map_some, rolledBackOutput, state]
    exact writes
  | none =>
    rw [state] at rest
    obtain ⟨_, rfl⟩ := Program.pure_ok rest
    refine ⟨.refl, ?_, rfl, rfl⟩
    rw [found, Option.map_some, rolledBackOutput, state, Function.update_eq_self_iff.mpr found.symm]

/-- The outputs that rolling a block back looks at. -/
def rollingBack (cache : OutputCache) (entry : SubchainID × Position) : Finset Outpoint :=
  Index.rows cache.indexes.positions entry.2 ∩ Index.rows cache.indexes.subchains entry.1

theorem startReorg_writes {entry : SubchainID × Position} {result : Unit}
    (ran : startReorg entry before = (.ok result, after)) :
    Writes terms before after fun id =>
      if id ∈ rollingBack before.cache entry then (before.cache.outputs id).map (rolledBackOutput entry.2)
      else before.cache.outputs id := by
  unfold startReorg at ran
  obtain ⟨cache, start, reading, rolling⟩ := Program.bind_ok ran
  obtain ⟨rfl, rfl⟩ := readCache_ok reading
  obtain ⟨outputs, writes, inside, outside⟩ :=
    @forEach_writes terms _ _ _ (fun _ old => old.map (rolledBackOutput entry.2)) _
      (by rw [List.map_id']; exact SortedList.ordered_nodup _) start after
      (fun _ _ _ _ _ _ ran => rollBack_writes ran) rolling
  simp only [List.map_id', SortedList.mem_ordered] at inside outside
  refine ⟨writes.edits, ?_, writes.position, writes.committed⟩
  rw [writes.outputs]
  funext id
  split
  · rename_i member
    exact inside id member
  · rename_i absent
    exact outside id absent

/-- Rolling blocks back leaves every output where it is. -/
theorem rolledBack_placed {entry : SubchainID × Position}
    (writes : Writes terms before after fun id =>
      if id ∈ rollingBack before.cache entry then (before.cache.outputs id).map (rolledBackOutput entry.2)
      else before.cache.outputs id) (placed : Placed before) : Placed after := by
  intro id output found
  rw [writes.outputs] at found
  rw [writes.committed]
  dsimp only at found
  split at found
  · obtain ⟨old, stored, rfl⟩ := Option.map_eq_some_iff.mp found
    rw [rolledBackOutput_position]
    exact placed id old stored
  · exact placed id output found

theorem deleteGeneration_ok (entries : List (Int × Outpoint)) :
    ∀ {before after : Session}, deleteGeneration entries before = (.ok (), after) →
      Becomes before after before.cache
        { before.tables with
          generation := before.tables.generation.filter fun row => row.1 ∉ entries.map Prod.fst } := by
  induction entries with
  | nil =>
    intro before after ran
    obtain ⟨_, rfl⟩ := Program.pure_ok ran
    refine ⟨rfl, ?_, rfl, rfl⟩
    simp
  | cons entry entries ih =>
    intro before after ran
    unfold deleteGeneration at ran
    obtain ⟨rc, deleted, deleting, afterDelete⟩ := Program.bind_ok ran
    obtain ⟨_, required, requiring, rest⟩ := Program.bind_ok afterDelete
    obtain ⟨rfl, rfl⟩ := require_ok requiring
    have deletes := (delete_true deleting).2
    have later := ih rest
    refine ⟨?_, ?_, ?_, ?_⟩
    · rw [later.cache, deletes.cache]
    · rw [later.tables, deletes.tables, Finset.filter_filter]
      simp only [List.map_cons, List.mem_cons, not_or]
    · rw [later.committed, deletes.committed]
    · rw [later.proposalData, deletes.proposalData]

/-- At most one generation output stands at this height. -/
def SingleAt (cache : OutputCache) (height : Int) : Prop :=
  (cache.generationOutputs.filter fun entry => entry.1 = height).length ≤ 1

theorem deleteGenerationAbove_ok {good : Int} {outputs : Finset Outpoint}
    (single : terms.strict → SingleAt before.cache good)
    (ran : deleteGenerationAbove good before = (.ok outputs, after)) :
    outputs = ((generationAbove good before.cache.generationOutputs).map Prod.snd).toFinset ∧
      Writes terms before after before.cache.outputs := by
  unfold deleteGenerationAbove at ran
  obtain ⟨cache, start, reading, afterRead⟩ := Program.bind_ok ran
  obtain ⟨rfl, rfl⟩ := readCache_ok reading
  obtain ⟨_, deleted, deleting, afterDelete⟩ := Program.bind_ok afterRead
  obtain ⟨_, changed, changing, returned⟩ := Program.bind_ok afterDelete
  obtain ⟨rfl, rfl⟩ := Program.pure_ok returned
  have deletes := deleteGeneration_ok _ deleting
  have changes := changeCache_ok changing
  have pruned : Becomes start after
      { start.cache with
        generationOutputs := start.cache.generationOutputs.take (start.cache.generationOutputs.length -
          (generationAbove good start.cache.generationOutputs).length) }
      { start.tables with
        generation := start.tables.generation.filter fun row =>
          row.1 ∉ (generationAbove good start.cache.generationOutputs).map Prod.fst } := by
    refine ⟨?_, ?_, ?_, ?_⟩
    · rw [changes.cache, deletes.cache]
    · rw [changes.tables, deletes.tables]
    · rw [changes.committed, deletes.committed]
    · rw [changes.proposalData, deletes.proposalData]
  refine ⟨rfl, .single (.pruned good single pruned), ?_, ?_, ?_⟩
  · rw [pruned.cache]
  · rw [pruned.cache]
  · rw [pruned.committed]

def orphaning (position : Position) (cache : OutputCache) : Finset Outpoint :=
  ((generationAbove position.height cache.generationOutputs).map Prod.snd).toFinset

structure Reorganized (terms : Terms) (position : Position) (before after : Session) : Prop where
  edits : Edits terms before after
  outputs : after.cache.outputs = fun id =>
    if id ∈ orphaning position before.cache then
      (before.cache.outputs id).map fun output => restated output .orphanedNew position
    else before.cache.outputs id
  position : after.cache.position = some position

theorem finalizeReorg_ok {position : Position} {result : Unit} (placed : terms.strict → Placed before)
    (single : terms.strict → getPosition before.cache ≠ position → SingleAt before.cache position.height)
    (ran : finalizeReorg position before = (.ok result, after)) :
    after = before ∧ getPosition before.cache = position ∨ Reorganized terms position before after := by
  unfold finalizeReorg at ran
  obtain ⟨cache, start, reading, afterRead⟩ := Program.bind_ok ran
  obtain ⟨rfl, rfl⟩ := readCache_ok reading
  rcases Program.onlyIf_ok afterRead with ⟨differs, changing⟩ | ⟨same, rfl⟩
  · right
    obtain ⟨outputs, deleted, deleting, afterDelete⟩ := Program.bind_ok changing
    obtain ⟨_, orphaned, orphaning, afterOrphan⟩ := Program.bind_ok afterDelete
    obtain ⟨rc, placing', positioning, requiring⟩ := Program.bind_ok afterOrphan
    obtain ⟨rfl, rfl⟩ := require_ok requiring
    obtain ⟨is, deletes⟩ := deleteGenerationAbove_ok (fun strict => single strict differs) deleting
    obtain ⟨states, orphans, inside, outside⟩ :=
      @forEach_writes terms _ _ _ (fun _ old => old.map fun output => restated output .orphanedNew position) _
        (by rw [List.map_id']; exact SortedList.ordered_nodup _) deleted orphaned
        (fun id _ session _ committed same ran => changeTxoState_writes (by decide) (fun strict old found => by
          rw [same, deletes.outputs] at found
          unfold Departs
          rw [committed, deletes.committed]
          exact (placed strict).mayDepart id .orphanedNew position old found) ran) orphaning
    simp only [List.map_id', SortedList.mem_ordered] at inside outside
    have places := updatePosition_true positioning
    refine ⟨?_, ?_, ?_⟩
    · exact (deletes.edits.trans orphans.edits).tail (.positioned position places)
    · rw [places.cache]
      show orphaned.cache.outputs = _
      rw [orphans.outputs]
      funext id
      subst is
      split
      · rename_i member
        rw [inside id member, deletes.outputs]
      · rename_i absent
        rw [outside id absent, deletes.outputs]
    · rw [places.cache]
  · exact Or.inl ⟨rfl, not_not.mp same⟩

/-- Rolling back does not touch the generation outputs, nor the position of the wallet. -/
theorem startReorg_frame {entry : SubchainID × Position} {result : Unit}
    (ran : startReorg entry before = (.ok result, after)) :
    after.cache.generationOutputs = before.cache.generationOutputs ∧ after.cache.position = before.cache.position := by
  unfold startReorg at ran
  obtain ⟨cache, start, reading, rolling⟩ := Program.bind_ok ran
  obtain ⟨rfl, rfl⟩ := readCache_ok reading
  refine @Program.forEach_relates _ _ _ _ (fun before after : Session =>
    after.cache.generationOutputs = before.cache.generationOutputs ∧ after.cache.position = before.cache.position)
    (fun _ => ⟨rfl, rfl⟩) (fun _ _ _ early late => ⟨late.1.trans early.1, late.2.trans early.2⟩) _ ?_ start after rolling
  intro id _ before after ran
  unfold rollBack at ran
  obtain ⟨cache, start, reading, afterRead⟩ := Program.bind_ok ran
  obtain ⟨rfl, rfl⟩ := readCache_ok reading
  obtain ⟨output, loaded, loading, rest⟩ := Program.bind_ok afterRead
  obtain ⟨_, rfl⟩ := Program.lift_ok loading
  cases state : unconfirmedState output.state with
  | some unconfirmed =>
    rw [state] at rest
    obtain ⟨old, replaced⟩ := changeTxoState_ok rest
    rw [replaced.cache]
    exact ⟨rfl, rfl⟩
  | none =>
    rw [state] at rest
    obtain ⟨_, rfl⟩ := Program.pure_ok rest
    exact ⟨rfl, rfl⟩

theorem reorg_edits {blocks : List (SubchainID × Position)} {ancestor : Position} {committed : Bool} {result : Unit}
    (placed : terms.strict → Placed before)
    (single : terms.strict → getPosition before.cache ≠ ancestor → SingleAt before.cache ancestor.height)
    (ran : reorg blocks ancestor committed before = (.ok result, after)) :
    Edits terms before after ∧ (committed = true → after.committed = after.tables) := by
  unfold reorg at ran
  obtain ⟨_, started, starting, afterStart⟩ := Program.bind_ok ran
  obtain ⟨_, finalized, finalizing, committing⟩ := Program.bind_ok afterStart
  obtain ⟨starts, stillPlaced, generation, position⟩ : Edits terms before started ∧ (Placed before → Placed started) ∧
      started.cache.generationOutputs = before.cache.generationOutputs ∧ started.cache.position = before.cache.position := by
    refine @Program.forEach_relates _ _ _ _ (fun before after : Session =>
      Edits terms before after ∧ (Placed before → Placed after) ∧
        after.cache.generationOutputs = before.cache.generationOutputs ∧ after.cache.position = before.cache.position)
      (fun _ => ⟨.refl, id, rfl, rfl⟩) ?_ blocks ?_ before started starting
    · intro first second third early late
      exact ⟨early.1.trans late.1, late.2.1 ∘ early.2.1, late.2.2.1.trans early.2.2.1, late.2.2.2.trans early.2.2.2⟩
    · intro entry _ start final ran
      have writes := @startReorg_writes _ _ terms _ _ ran
      exact ⟨writes.edits, rolledBack_placed writes, startReorg_frame ran⟩
  have finalizes : Edits terms started finalized := by
    have samePosition : getPosition started.cache = getPosition before.cache := by
      unfold getPosition
      rw [position]
    rcases finalizeReorg_ok (fun strict => stillPlaced (placed strict)) (fun strict differs => by
      unfold SingleAt
      rw [generation]
      exact single strict (samePosition ▸ differs)) finalizing with ⟨rfl, _⟩ | reorganized
    · exact .refl
    · exact reorganized.edits
  rcases Program.onlyIf_ok committing with ⟨_, committing⟩ | ⟨stays, rfl⟩
  · obtain ⟨commits, same⟩ := @commit_edits _ _ terms _ committing
    exact ⟨starts.trans (finalizes.trans commits), fun _ => same⟩
  · exact ⟨starts.trans finalizes, fun commits => absurd commits stays⟩

end Opentxs.Wallet.Effects
