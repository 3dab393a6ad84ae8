import Opentxs.Wallet.Runs

/-! A proposal is finalized if its transaction spends exactly what was reserved for it: of what it leaves over
nothing can be released. -/

namespace Opentxs.Wallet.Finalizing
open Library HeaderOracle BlockHeader Types Storage OutputCache Outputs Tracking Associations Effects Runs

variable {environment : Environment} {before after : Session}

/-! ## Programs that return when every write goes through -/

def Goes {α : Type} (program : Writing α) (value : α) (before : Session) : Prop :=
  before.writes = [] → ∃ after, program before = (.ok value, after) ∧ after.writes = []

section Goes

variable {α β : Type} {value : α} {output : β}

theorem goes_bind {first : Writing α} {rest : α → Writing β} (early : Goes first value before)
    (late : ∀ middle, first before = (.ok value, middle) → Goes (rest value) output middle) : Goes (first >>= rest) output before := by
  intro free
  obtain ⟨middle, ran, still⟩ := early free
  obtain ⟨after, returned, last⟩ := late middle ran still
  exact ⟨after, (Program.bind_of_ok ran).trans returned, last⟩

theorem goes_pure : Goes (pure value : Writing α) value before := fun free => ⟨before, rfl, free⟩

theorem goes_readCache : Goes readCache before.cache before := fun free => ⟨before, rfl, free⟩

theorem goes_lift {result : Except Fault α} (is : result = .ok value) : Goes (Program.lift result : Writing α) value before := by
  intro free
  rw [is]
  exact ⟨before, rfl, free⟩

theorem goes_require {condition : Bool} (holds : condition = true) : Goes (Storage.require condition) () before := by
  intro free
  rw [holds]
  exact ⟨before, rfl, free⟩

theorem goes_assertTrue {condition : Bool} (holds : condition = true) : Goes (assertTrue condition) () before := by
  intro free
  rw [holds]
  exact ⟨before, rfl, free⟩

theorem goes_changeCache {change : OutputCache → OutputCache} : Goes (changeCache change) () before := fun free => ⟨_, rfl, free⟩

theorem goes_changeTables {change : Tables → Tables} : Goes (changeTables change) () before := fun free => ⟨_, rfl, free⟩

theorem goes_changeIndexes {change : Indexes → Indexes} : Goes (changeIndexes change) () before := goes_changeCache

theorem goes_nextWrite : Goes nextWrite true before := by
  intro free
  refine ⟨{ before with writes := before.writes.tail }, ?_, ?_⟩
  · unfold nextWrite
    rw [free]
    rfl
  · show before.writes.tail = []
    rw [free]
    rfl

theorem goes_onlyIf {condition : Prop} [Decidable condition] {program : Writing Unit} (inside : condition → Goes program () before) :
    Goes (Program.onlyIf condition program) () before := by
  unfold Program.onlyIf
  split
  · next holds => exact inside holds
  · exact goes_pure

theorem goes_store {change : Tables → Tables} : Goes (store change) true before :=
  goes_bind goes_nextWrite fun _ _ => goes_bind (goes_onlyIf fun _ => goes_changeTables) fun _ _ => goes_pure

theorem goes_commit : Goes commit () before :=
  goes_bind goes_nextWrite fun _ _ => goes_bind (goes_require rfl) fun _ _ free => ⟨_, rfl, free⟩

/-- A loop returns when every step does and keeps what the later steps need. -/
theorem goes_forEach {step : Outpoint → Writing Unit} (invariant : List Outpoint → Session → Prop)
    (each : ∀ item items before, invariant (item :: items) before → Goes (step item) () before)
    (next : ∀ item items before after, invariant (item :: items) before → step item before = (.ok (), after) → invariant items after)
    (items : List Outpoint) : ∀ before, invariant items before → Goes (Program.forEach step items) () before := by
  induction items with
  | nil => exact fun _ _ => goes_pure
  | cons item items ih =>
    intro before holds
    exact goes_bind (each item items before holds) fun middle ran => ih middle (next item items before middle holds ran)

end Goes

/-! ## What the steps need -/

variable {id : Outpoint} {output : Output} {proposal : ProposalID} {transaction : Transaction}

theorem writeKeys_goes (keys : List Key) : ∀ before, Goes (writeKeys id keys) true before := by
  induction keys with
  | nil => exact fun _ => goes_pure
  | cons key keys ih =>
    intro before
    exact goes_bind goes_store fun _ _ => goes_bind goes_changeIndexes fun middle _ => ih middle

theorem writeOutput_goes (valid : output.isValid = true) : Goes (writeOutput id output) true before := by
  refine goes_bind (writeKeys_goes _ _) fun middle _ => ?_
  rw [valid]
  exact goes_store

theorem changeState_goes {state : TxoState} : Goes (changeState state id) true before :=
  goes_bind goes_changeTables fun _ _ => goes_bind goes_store fun _ _ =>
    goes_bind (goes_onlyIf fun _ => goes_changeIndexes) fun _ _ => goes_pure

/-- The output is stored in a way in which it can be stored again. -/
def Stocked (cache : OutputCache) (id : Outpoint) : Prop :=
  ∃ output, cache.outputs id = some output ∧ output.keys ≠ [] ∧ output.isValid = true

theorem getOutput_some (found : before.cache.outputs id = some output) (keys : output.keys ≠ []) :
    getOutput before.cache id = .ok output := by
  unfold getOutput
  rw [found]
  exact if_neg keys

theorem changeTxoState_goes (stocked : Stocked before.cache id) : Goes (changeTxoState id {} .unconfirmedSpend) () before := by
  obtain ⟨output, found, keys, valid⟩ := stocked
  refine goes_bind goes_readCache fun middle reading => ?_
  obtain ⟨_, rfl⟩ := readCache_ok reading
  refine goes_bind (goes_lift (getOutput_some found keys)) fun loaded _ => ?_
  refine goes_bind (goes_onlyIf fun _ => goes_bind changeState_goes fun _ _ =>
    goes_bind (goes_require rfl) fun _ _ => goes_changeCache) fun stated _ => ?_
  refine goes_bind (goes_onlyIf fun moves => absurd rfl moves) fun placed _ => ?_
  exact goes_bind (writeOutput_goes valid) fun _ _ => goes_require rfl

theorem changeTxoState_stocked {state : TxoState} {position : Position} {result : Unit}
    (ran : changeTxoState id position state before = (.ok result, after)) :
    Stocked before.cache id ∧ ∀ other, Stocked after.cache other ↔ Stocked before.cache other := by
  obtain ⟨old, replaced⟩ := changeTxoState_ok ran
  have valid : old.isValid = true := by
    unfold changeTxoState at ran
    obtain ⟨cache, start, reading, afterRead⟩ := Program.bind_ok ran
    obtain ⟨rfl, rfl⟩ := readCache_ok reading
    obtain ⟨output, loaded, getting, afterLoad⟩ := Program.bind_ok afterRead
    obtain ⟨got, rfl⟩ := Program.lift_ok getting
    obtain rfl := Option.some.inj ((getOutput_ok got).1.symm.trans replaced.found)
    obtain ⟨_, stated, stating, afterState⟩ := Program.bind_ok afterLoad
    obtain ⟨_, placed, placing, rest⟩ := Program.bind_ok afterState
    obtain ⟨rc, updated, updating, required⟩ := Program.bind_ok rest
    obtain ⟨rfl, rfl⟩ := require_ok required
    exact (writeOutput_true updating).1
  have here : Stocked before.cache id := ⟨old, replaced.found, replaced.keys, valid⟩
  refine ⟨here, fun other => ?_⟩
  have outputs : after.cache.outputs = Function.update before.cache.outputs id (some (restated old state position)) := by
    rw [replaced.cache]
  unfold Stocked
  rw [outputs]
  by_cases same : other = id
  · subst same
    exact iff_of_true ⟨_, Function.update_self _ _ _, replaced.keys, valid⟩ here
  · rw [Function.update_of_ne same]

/-- What no step of finalizing touches. -/
structure Kept (before after : Session) : Prop where
  consumed : after.cache.consumedByProposal = before.cache.consumedByProposal
  spent : after.tables.proposalSpent = before.tables.proposalSpent
  populated : after.cache.populated = before.cache.populated

theorem Kept.refl (session : Session) : Kept session session := ⟨rfl, rfl, rfl⟩

theorem Kept.trans {first second third : Session} (early : Kept first second) (late : Kept second third) : Kept first third :=
  ⟨late.consumed.trans early.consumed, late.spent.trans early.spent, late.populated.trans early.populated⟩

theorem changeTxoState_kept {state : TxoState} {position : Position} {result : Unit}
    (ran : changeTxoState id position state before = (.ok result, after)) : Kept before after := by
  obtain ⟨old, replaced⟩ := changeTxoState_ok ran
  refine ⟨?_, ?_, ?_⟩
  · rw [replaced.cache]
  · rw [replaced.tables]
  · rw [replaced.cache]

/-! ## Spending the inputs -/

theorem spending_goes (items : List Outpoint) (stocked : ∀ id ∈ items, Stocked before.cache id) :
    Goes (Program.forEach (fun outpoint => changeTxoState outpoint {} .unconfirmedSpend) items) () before := by
  refine goes_forEach (fun items session => ∀ id ∈ items, Stocked session.cache id) ?_ ?_ items before stocked
  · intro item items before all
    exact changeTxoState_goes (all item List.mem_cons_self)
  · intro item items before after all ran id member
    exact ((changeTxoState_stocked ran).2 id).mpr (all id (List.mem_cons_of_mem _ member))

theorem spending_stocked {position : Position} {state : TxoState} (items : List Outpoint) :
    ∀ before after, Program.forEach (fun outpoint => changeTxoState outpoint position state) items before = (.ok (), after) →
      Kept before after ∧ ∀ id ∈ items, Stocked before.cache id := by
  induction items with
  | nil =>
    intro before after ran
    obtain ⟨_, rfl⟩ := Program.pure_ok ran
    exact ⟨Kept.refl _, fun _ none => absurd none List.not_mem_nil⟩
  | cons item items ih =>
    intro before after ran
    obtain ⟨_, middle, first, rest⟩ := Program.bind_ok ran
    obtain ⟨here, same⟩ := changeTxoState_stocked first
    obtain ⟨kept, others⟩ := ih middle after rest
    refine ⟨(changeTxoState_kept first).trans kept, fun id member => ?_⟩
    rcases List.mem_cons.mp member with rfl | later
    · exact here
    · exact (same id).mp (others id later)

/-! ## Creating the outputs -/

/-- The wallet has heard nothing of the output. -/
structure New (cache : OutputCache) (proposal : ProposalID) (id : Outpoint) : Prop where
  outputs : cache.outputs id = none
  proposals : cache.outputToProposal id = []
  created : (proposal, id) ∉ cache.createdByProposal

/-- The output is valid and has one key, whose owner is known where it is needed. -/
def Addressed (environment : Environment) (transaction : Transaction) (id : Outpoint) : Prop :=
  ∃ output key, transaction.outputs[id.index]? = some output ∧ output.isValid = true ∧ output.keys = [key] ∧
    (key.subchain = .outgoing ∨ (environment.owner key).isSome)

theorem addToIndex_goes {change : Indexes → Indexes} (found : (before.cache.outputs id).isSome = true) :
    Goes (addToIndex id change) true before := by
  refine goes_bind goes_readCache fun middle reading => ?_
  obtain ⟨_, rfl⟩ := readCache_ok reading
  exact goes_bind (goes_assertTrue found) fun _ _ => goes_bind goes_store fun _ _ =>
    goes_bind (goes_onlyIf fun _ => goes_changeIndexes) fun _ _ => goes_pure

theorem addOutput_goes {state : TxoState} {position : Position} {account : AccountID} {subchain : SubchainID}
    (valid : output.isValid = true) : Goes (addOutput id state position account subchain output) true before := by
  refine goes_bind (writeOutput_goes valid) fun written _ => ?_
  refine goes_bind goes_changeCache fun emplaced emplacing => ?_
  have stored : (emplaced.cache.outputs id).isSome = true := by
    rw [(changeCache_ok emplacing).cache]
    dsimp only
    rw [Function.update_self]
    rfl
  have still {change : Indexes → Indexes} {first second : Session} (ran : addToIndex id change first = (.ok true, second))
      (found : (first.cache.outputs id).isSome = true) : (second.cache.outputs id).isSome = true := by
    rw [(addToIndex_true ran).cache]
    exact found
  refine goes_bind (addToIndex_goes stored) fun stated stating => ?_
  have atState := still stating stored
  refine goes_bind (addToIndex_goes atState) fun placed placing => ?_
  have atPosition := still placing atState
  refine goes_bind (addToIndex_goes atPosition) fun accounted accounting => ?_
  exact goes_bind (addToIndex_goes (still accounting atPosition)) fun _ _ => goes_pure

theorem createState_goes {account : AccountID} {subchain : SubchainID} {position : Position} {state : TxoState}
    (fresh : before.cache.outputs id = none) (keys : output.keys ≠ []) (valid : output.isValid = true) :
    Goes (createState account subchain id position output false state) () before := by
  refine goes_bind goes_readCache fun middle reading => ?_
  obtain ⟨_, rfl⟩ := readCache_ok reading
  have absent : decide (outputExists middle.cache id = false) = true := by
    unfold outputExists
    rw [fresh]
    rfl
  refine goes_bind (goes_require absent) fun _ _ => goes_bind (goes_require (decide_eq_true keys)) fun _ _ => ?_
  refine goes_bind (addOutput_goes valid) fun _ _ => goes_bind (goes_require rfl) fun _ _ => ?_
  exact goes_onlyIf fun generation => nomatch generation

theorem indexKeys_goes {key : Key} (owned : key.subchain = .outgoing ∨ (environment.owner key).isSome)
    (found : (before.cache.outputs id).isSome = true) : Goes (indexKeys environment id [key]) () before := by
  unfold indexKeys
  dsimp only
  by_cases outgoing : key.subchain = .outgoing
  · rw [if_pos outgoing]
    exact goes_pure
  · obtain ⟨owner, is⟩ := Option.isSome_iff_exists.mp (owned.resolve_left outgoing)
    rw [if_neg outgoing, is]
    refine goes_bind goes_readCache fun middle reading => ?_
    obtain ⟨_, rfl⟩ := readCache_ok reading
    exact goes_bind (goes_require found) fun _ _ => goes_bind goes_store fun _ _ =>
      goes_bind (goes_require rfl) fun _ _ => goes_changeIndexes

theorem createOutput_goes (new : New before.cache proposal id) : Goes (createOutput proposal id) () before := by
  refine goes_bind goes_readCache fun start reading => ?_
  obtain ⟨_, rfl⟩ := readCache_ok reading
  refine goes_bind (goes_require (decide_eq_true new.created)) fun checked checking => ?_
  obtain ⟨_, rfl⟩ := require_ok checking
  refine goes_bind goes_store fun stored storing => ?_
  refine goes_bind (goes_require rfl) fun required requiring => ?_
  obtain ⟨_, rfl⟩ := require_ok requiring
  refine goes_bind goes_changeCache fun changed changing => ?_
  refine goes_bind goes_readCache fun again reading => ?_
  obtain ⟨_, rfl⟩ := readCache_ok reading
  have free : mayAssociate again.cache id .create = true := by
    unfold mayAssociate
    rw [(changeCache_ok changing).cache, (store_true storing).cache]
    dsimp only
    rw [new.proposals]
  exact goes_bind (goes_require free) fun _ _ => goes_bind goes_store fun _ _ =>
    goes_bind (goes_require rfl) fun _ _ => goes_changeCache

theorem indexKeys_owned {key : Key} {result : Unit} (ran : indexKeys environment id [key] before = (.ok result, after)) :
    key.subchain = .outgoing ∨ (environment.owner key).isSome = true := by
  unfold indexKeys at ran
  dsimp only at ran
  by_cases outgoing : key.subchain = .outgoing
  · exact Or.inl outgoing
  · rw [if_neg outgoing] at ran
    cases is : environment.owner key with
    | none =>
      rw [is] at ran
      exact absurd ran fun ran => Program.not_throw_ok ran
    | some owner => exact Or.inr rfl

/-- What creating a new output does to the wallet besides storing the output. -/
structure Made (environment : Environment) (proposal : ProposalID) (transaction : Transaction) (id : Outpoint)
    (before after : Session) : Prop where
  addressed : Addressed environment transaction id
  kept : Kept before after
  others : ∀ other, other ≠ id → New before.cache proposal other → New after.cache proposal other
  absent : ∀ other, other ≠ id → after.cache.outputs other = before.cache.outputs other

theorem setOutputState_made {result : Unit} (absent : before.cache.outputs id = none)
    (ran : setOutputState environment proposal transaction id before = (.ok result, after)) :
    Made environment proposal transaction id before after := by
  unfold setOutputState at ran
  obtain ⟨_, associated, associating, afterAssociate⟩ := Program.bind_ok ran
  obtain ⟨_, _, reassociates⟩ := createOutput_ok associating
  obtain ⟨cache, start, reading, afterRead⟩ := Program.bind_ok afterAssociate
  obtain ⟨rfl, rfl⟩ := readCache_ok reading
  have missing : start.cache.outputs id = none := by
    rw [reassociates.cache]
    exact absent
  have unknown : ¬ outputExists start.cache id = true := by
    rw [outputExists, missing]
    exact Bool.false_ne_true
  rw [if_neg unknown] at afterRead
  cases found : transaction.outputs[id.index]? with
  | none =>
    rw [found] at afterRead
    exact absurd afterRead fun ran => Program.not_throw_ok ran
  | some output =>
    rw [found] at afterRead
    dsimp only at afterRead
    cases keys : output.keys with
    | nil =>
      rw [keys] at afterRead
      exact absurd afterRead fun ran => Program.not_throw_ok ran
    | cons key others =>
      cases others with
      | nil =>
        rw [keys] at afterRead
        obtain ⟨_, created, creating, indexing⟩ := Program.bind_ok afterRead
        have creates := createState_ok creating
        have indexes := indexKeys_ok indexing
        have outputs : after.cache.outputs = Function.update before.cache.outputs id
            (some (tagged output false .unconfirmedNew {})) := by
          rw [indexes.cache]
          show created.cache.outputs = _
          rw [creates.cache, reassociates.cache]
          rfl
        have proposals : after.cache.outputToProposal = Function.update before.cache.outputToProposal id
            (before.cache.outputToProposal id ++ [proposal]) := by
          rw [indexes.cache]
          show created.cache.outputToProposal = _
          rw [creates.cache, reassociates.cache]
          rfl
        have createdBy : after.cache.createdByProposal = insert (proposal, id) before.cache.createdByProposal := by
          rw [indexes.cache]
          show created.cache.createdByProposal = _
          rw [creates.cache, reassociates.cache]
          rfl
        refine ⟨⟨output, key, found, creates.valid, keys, indexKeys_owned indexing⟩, ⟨?_, ?_, ?_⟩, ?_, ?_⟩
        · rw [indexes.cache]
          show created.cache.consumedByProposal = _
          rw [creates.cache, reassociates.cache]
          rfl
        · rw [indexes.tables]
          show created.tables.proposalSpent = _
          rw [creates.tables, reassociates.tables]
          rfl
        · rw [indexes.cache]
          show created.cache.populated = _
          rw [creates.cache, reassociates.cache]
          rfl
        · intro other different new
          refine ⟨?_, ?_, ?_⟩
          · rw [outputs, Function.update_of_ne different]
            exact new.outputs
          · rw [proposals, Function.update_of_ne different]
            exact new.proposals
          · rw [createdBy, Finset.mem_insert, not_or]
            exact ⟨fun same => different (congrArg Prod.snd same), new.created⟩
        · intro other different
          rw [outputs, Function.update_of_ne different]
      | cons second others =>
        rw [keys] at afterRead
        exact absurd afterRead fun ran => Program.not_throw_ok ran

theorem setOutputState_goes (new : New before.cache proposal id) (addressed : Addressed environment transaction id) :
    Goes (setOutputState environment proposal transaction id) () before := by
  obtain ⟨output, key, found, valid, keys, owned⟩ := addressed
  refine goes_bind (createOutput_goes new) fun associated associating => ?_
  obtain ⟨_, _, reassociates⟩ := createOutput_ok associating
  refine goes_bind goes_readCache fun start reading => ?_
  obtain ⟨_, rfl⟩ := readCache_ok reading
  have missing : start.cache.outputs id = none := by
    rw [reassociates.cache]
    exact new.outputs
  have unknown : ¬ outputExists start.cache id = true := by
    rw [outputExists, missing]
    exact Bool.false_ne_true
  rw [if_neg unknown, found]
  dsimp only
  rw [keys]
  have some : output.keys ≠ [] := by
    rw [keys]
    exact List.cons_ne_nil _ _
  refine goes_bind (createState_goes missing some valid) fun created creating => ?_
  refine indexKeys_goes owned ?_
  rw [(createState_ok creating).cache]
  dsimp only
  rw [Function.update_self]
  rfl

theorem creating_goes (items : List Outpoint) (distinct : items.Nodup) (new : ∀ id ∈ items, New before.cache proposal id)
    (addressed : ∀ id ∈ items, Addressed environment transaction id) :
    Goes (Program.forEach (setOutputState environment proposal transaction) items) () before := by
  refine goes_forEach (fun items session => items.Nodup ∧ ∀ id ∈ items, New session.cache proposal id ∧
    Addressed environment transaction id) ?_ ?_ items before ⟨distinct, fun id member => ⟨new id member, addressed id member⟩⟩
  · rintro item items before ⟨_, all⟩
    obtain ⟨new, addressed⟩ := all item List.mem_cons_self
    exact setOutputState_goes new addressed
  · rintro item items before after ⟨distinct, all⟩ ran
    have made := setOutputState_made (all item List.mem_cons_self).1.outputs ran
    refine ⟨(List.nodup_cons.mp distinct).2, fun id member => ?_⟩
    obtain ⟨new, addressed⟩ := all id (List.mem_cons_of_mem _ member)
    have different : id ≠ item := fun same => (List.nodup_cons.mp distinct).1 (same ▸ member)
    exact ⟨made.others id different new, addressed⟩

theorem creating_made (items : List Outpoint) :
    ∀ before after, items.Nodup → (∀ id ∈ items, before.cache.outputs id = none) →
      Program.forEach (setOutputState environment proposal transaction) items before = (.ok (), after) →
      Kept before after ∧ ∀ id ∈ items, Addressed environment transaction id := by
  induction items with
  | nil =>
    intro before after _ _ ran
    obtain ⟨_, rfl⟩ := Program.pure_ok ran
    exact ⟨Kept.refl _, fun _ none => absurd none List.not_mem_nil⟩
  | cons item items ih =>
    intro before after distinct absent ran
    obtain ⟨outside, later⟩ := List.nodup_cons.mp distinct
    obtain ⟨_, middle, first, rest⟩ := Program.bind_ok ran
    have made := setOutputState_made (absent item List.mem_cons_self) first
    obtain ⟨kept, addressed⟩ := ih middle after later (fun id member => by
      have different : id ≠ item := fun same => outside (same ▸ member)
      rw [made.absent id different]
      exact absent id (List.mem_cons_of_mem _ member)) rest
    refine ⟨made.kept.trans kept, fun id member => ?_⟩
    rcases List.mem_cons.mp member with rfl | inRest
    · exact made.addressed
    · exact addressed id inRest

/-! ## Finalizing -/

theorem releaseUnusedInputs_goes (all : Index.rows before.cache.consumedByProposal proposal = getInputs transaction) :
    Goes (releaseUnusedInputs proposal (getInputs transaction)) () before := by
  refine goes_bind goes_readCache fun start reading => ?_
  obtain ⟨_, rfl⟩ := readCache_ok reading
  rw [all]
  dsimp only
  rw [Finset.sdiff_self]
  refine goes_bind (goes_require (decide_eq_true (Finset.Subset.refl _))) fun _ _ => ?_
  have nothing : SortedList.ordered (∅ : Finset Outpoint) = [] :=
    List.eq_nil_iff_forall_not_mem.mpr fun id member =>
      absurd ((SortedList.mem_ordered _ _).mp member) (Finset.notMem_empty id)
  rw [nothing]
  exact goes_pure

theorem validateInputs_goes {consumed : Finset Outpoint}
    (spendable : consumed ⊆ getState before.cache .confirmedNew ∪ getState before.cache .unconfirmedNew) :
    Goes (validateInputs consumed) () before := by
  refine goes_bind goes_readCache fun start reading => ?_
  obtain ⟨_, rfl⟩ := readCache_ok reading
  exact goes_require (decide_eq_true spendable)

theorem validateOutputs_goes {created : Finset Outpoint} (new : ∀ id ∈ created, New before.cache proposal id) :
    Goes (validateOutputs created) () before := by
  refine goes_bind goes_readCache fun start reading => ?_
  obtain ⟨_, rfl⟩ := readCache_ok reading
  refine goes_require (decide_eq_true fun id member => ?_)
  have absent : outputExists start.cache id = false := by
    unfold outputExists
    rw [(new id member).outputs]
    rfl
  exact decide_eq_true ⟨(new id member).proposals, Or.inl absent⟩

theorem changeTxoState_new {state : TxoState} {position : Position} {result : Unit} {other : Outpoint}
    (ran : changeTxoState id position state before = (.ok result, after)) (new : New before.cache proposal other) :
    New after.cache proposal other := by
  obtain ⟨old, replaced⟩ := changeTxoState_ok ran
  have different : other ≠ id := by
    rintro rfl
    exact absurd (replaced.found.symm.trans new.outputs) (Option.some_ne_none old)
  refine ⟨?_, ?_, ?_⟩
  · rw [replaced.cache]
    exact (Function.update_of_ne different _ _).trans new.outputs
  · rw [replaced.cache]
    exact new.proposals
  · rw [replaced.cache]
    exact new.created

theorem spending_new {position : Position} {state : TxoState} (items : List Outpoint) :
    ∀ before after, Program.forEach (fun outpoint => changeTxoState outpoint position state) items before = (.ok (), after) →
      ∀ other, New before.cache proposal other → New after.cache proposal other := by
  induction items with
  | nil =>
    intro before after ran other new
    obtain ⟨_, rfl⟩ := Program.pure_ok ran
    exact new
  | cons item items ih =>
    intro before after ran other new
    obtain ⟨_, middle, first, rest⟩ := Program.bind_ok ran
    exact ih middle after rest other (changeTxoState_new first new)

theorem addProposal_goes {content : Content} : Goes (addProposal proposal content) () before :=
  goes_bind goes_nextWrite fun _ _ => goes_bind (goes_require rfl) fun _ _ free => ⟨_, rfl, free⟩

/-- What a proposal needs to be finalized: everything that is reserved for it is spent, from outputs
that can be spent, and everything that is created has an owner. -/
structure Ready (environment : Environment) (cache : OutputCache) (transaction : Transaction) (reserved : Finset Outpoint) :
    Prop where
  ordinary : transaction.isGeneration = false
  spends : getInputs transaction = reserved
  spendable : reserved ⊆ getState cache .confirmedNew ∪ getState cache .unconfirmedNew
  stocked : ∀ id ∈ reserved, Stocked cache id
  addressed : ∀ id ∈ getOutputs transaction, Addressed environment transaction id

theorem finalizeProposal_goes {content : Content}
    (ready : Ready environment before.cache transaction (Index.rows before.cache.consumedByProposal proposal))
    (new : ∀ id ∈ getOutputs transaction, New before.cache proposal id) :
    Goes (finalizeProposal environment proposal content transaction true) () before := by
  refine goes_bind (goes_assertTrue (decide_eq_true ready.ordinary)) fun checked checking => ?_
  obtain ⟨_, rfl⟩ := assertTrue_ok checking
  refine goes_bind addProposal_goes fun added adding => ?_
  have same : added.cache = checked.cache := by
    rw [addProposal_ok adding]
    rfl
  rw [← same] at ready new
  refine goes_bind (releaseUnusedInputs_goes ready.spends.symm) fun released releasing => ?_
  obtain ⟨rfl, _⟩ := releaseUnusedInputs_ok releasing
  have spendable := ready.spendable
  have stocked := ready.stocked
  rw [← ready.spends] at spendable stocked
  refine goes_bind (validateInputs_goes spendable) fun validated validating => ?_
  obtain ⟨rfl, _⟩ := validateInputs_ok validating
  refine goes_bind (validateOutputs_goes new) fun drafting checkingOutputs => ?_
  obtain ⟨rfl, _⟩ := validateOutputs_ok checkingOutputs
  refine goes_bind (spending_goes _ fun id listed => stocked id ((SortedList.mem_ordered _ _).mp listed))
    fun spent spending => ?_
  refine goes_bind (creating_goes _ (SortedList.ordered_nodup _)
    (fun id listed => spending_new _ _ _ spending id (new id ((SortedList.mem_ordered _ _).mp listed)))
    fun id listed => ready.addressed id ((SortedList.mem_ordered _ _).mp listed)) fun created creating => ?_
  exact goes_bind (goes_require rfl) fun _ _ => goes_commit

theorem finalizeProposal_ready {content : Content} {processTransactions : Bool} {result : Unit}
    (new : ∀ id ∈ getOutputs transaction, New before.cache proposal id)
    (ran : finalizeProposal environment proposal content transaction processTransactions before = (.ok result, after)) :
    Ready environment before.cache transaction (Index.rows before.cache.consumedByProposal proposal) ∧ Kept before after := by
  obtain ⟨added, spent, created, adding, steps⟩ := finalizeProposal_steps ran
  have adds : Kept before added := by
    rw [addProposal_ok adding]
    exact ⟨rfl, rfl, rfl⟩
  obtain ⟨spends, stocked⟩ := spending_stocked _ _ _ steps.spending
  obtain ⟨creates, addressed⟩ := creating_made _ _ _ (SortedList.ordered_nodup _) (fun id listed => by
    have fresh := new id ((SortedList.mem_ordered _ _).mp listed)
    rw [← steps.sameCache] at fresh
    exact (spending_new _ _ _ steps.spending id fresh).outputs) steps.creating
  have commits : Kept created after := by
    obtain ⟨cache, tables, _, _⟩ := commit_ok steps.committing
    refine ⟨?_, ?_, ?_⟩
    · rw [cache]
    · rw [tables]
    · rw [cache]
  refine ⟨⟨steps.ordinary, steps.reserved.symm, ?_, fun id member => ?_, fun id member => ?_⟩,
    adds.trans (spends.trans (creates.trans commits))⟩
  · rw [steps.reserved]
    exact steps.spendable
  · rw [steps.reserved] at member
    rw [← steps.sameCache]
    exact stocked id ((SortedList.mem_ordered _ _).mpr member)
  · exact addressed id ((SortedList.mem_ordered _ _).mpr member)

/-! ## Reserved outputs -/

variable {db : Database} {content : Content}

/-- The outputs that are reserved for a proposal, in the tables and as the next call finds them. -/
structure Reserves (db : Database) (proposal : ProposalID) (reserved : Finset Outpoint) : Prop where
  inMemory : Index.rows (populate db.tables db.cache).consumedByProposal proposal = reserved
  stored : Index.rows db.tables.proposalSpent proposal = reserved

/-- The inputs that the wallet holds. -/
def walletInputs (db : Database) (transaction : Transaction) : Finset Outpoint :=
  (getInputs transaction).filter fun id => outputExists (populate db.tables db.cache) id

/-- Another proposal that is stored can reserve the output. -/
def Available (environment : Environment) (db : Database) (proposal : ProposalID) (id : Outpoint) : Prop :=
  ∀ spender later, later ≠ proposal → (db.tables.proposals later).isSome →
    ∃ outcome, perform environment db { operation := .reserveOutpoint spender later id } = .ok outcome ∧ outcome.success = true

def finalizing (proposal : ProposalID) (content : Content) (transaction : Transaction) : Call :=
  { operation := .finalizeProposal proposal content transaction }

/-- The proposal keeps what its transaction spends, and what is left over is free again. -/
structure Releases (environment : Environment) (before after : Database) (proposal : ProposalID) (transaction : Transaction)
    (reserved : Finset Outpoint) : Prop where
  reserves : Reserves after proposal (walletInputs before transaction)
  spent : ∀ id ∈ walletInputs before transaction, (stored after id).map Output.state = some .unconfirmedSpend
  unchanged : ∀ id ∈ reserved \ walletInputs before transaction,
    (stored after id).map Output.state = (stored before id).map Output.state
  available : ∀ id ∈ reserved \ walletInputs before transaction, Available environment after proposal id

def FinalizesWell (environment : Environment) (db : Database) (proposal : ProposalID) (content : Content)
    (transaction : Transaction) (reserved : Finset Outpoint) : Prop :=
  ∃ outcome, perform environment db (finalizing proposal content transaction) = .ok outcome ∧ outcome.success = true ∧
    Releases environment db outcome.db proposal transaction reserved

theorem walletInputs_reserved {reserved : Finset Outpoint}
    (ready : Ready environment (populate db.tables db.cache) transaction reserved) : walletInputs db transaction = reserved := by
  unfold walletInputs
  rw [ready.spends]
  refine Finset.filter_true_of_mem fun id member => ?_
  obtain ⟨output, found, _⟩ := ready.stocked id member
  unfold outputExists
  rw [found]
  rfl

/-- A proposal is finalized as it should be if and only if nothing that is reserved for it is left over. -/
theorem finalizes_well_iff {reserved : Finset Outpoint} (reserves : Reserves db proposal reserved)
    (new : ∀ id ∈ getOutputs transaction, New (populate db.tables db.cache) proposal id) :
    FinalizesWell environment db proposal content transaction reserved ↔
      Ready environment (populate db.tables db.cache) transaction reserved := by
  have here : Index.rows (start db []).cache.consumedByProposal proposal = reserved := reserves.inMemory
  constructor
  · rintro ⟨outcome, performed, success, _⟩
    rcases perform_success performed success with ⟨_, _, operation, _⟩ | ⟨_, session, ran, _⟩
    · cases operation
    · obtain ⟨_, finished, finalized, returned⟩ := Program.bind_ok ran
      rw [← here]
      exact (finalizeProposal_ready new finalized).1
  · intro ready
    have goes : Goes (finalizeProposal environment proposal content transaction true) () (start db []) :=
      finalizeProposal_goes (by rw [here]; exact ready) new
    obtain ⟨session, ran, _⟩ := goes rfl
    have kept := (finalizeProposal_ready new ran).2
    have finalized : Finalized (terms environment (.finalizeProposal proposal content transaction) False) proposal transaction
        (start db []) session := finalize_ok ran
    have inputs := walletInputs_reserved ready
    have performed : perform environment db (finalizing proposal content transaction) = .ok
        { success := true, reserved := none,
          db := { tables := session.committed, cache := session.cache, proposalData := session.proposalData } } := by
      have returned : body environment (finalizing proposal content transaction) (start db []) = (.ok none, session) :=
        Program.bind_of_ok ran
      show execute environment db (finalizing proposal content transaction) = _
      unfold execute
      rw [show (finalizing proposal content transaction).writes = [] from rfl, returned]
    refine ⟨_, performed, rfl, ?_⟩
    have populated : session.cache.populated = true := by
      rw [kept.populated]
      show (populate db.tables db.cache).populated = true
      unfold populate
      split <;> trivial
    have loaded : populate session.committed session.cache = session.cache := by rw [populate, if_pos populated]
    have none : reserved \ walletInputs db transaction = ∅ := by rw [inputs, Finset.sdiff_self]
    refine ⟨⟨?_, ?_⟩, fun id member => ?_, fun id left => ?_, fun id left => ?_⟩
    · rw [loaded, kept.consumed, inputs]
      exact here
    · rw [finalized.committed, kept.spent, inputs]
      exact reserves.stored
    · unfold stored
      dsimp only
      rw [loaded, finalized.outputs]
      rw [inputs] at member
      obtain ⟨output, found, _⟩ := ready.stocked id member
      have notNew : id ∉ getOutputs transaction := by
        intro created
        exact absurd (found.symm.trans (new id created).outputs) (Option.some_ne_none output)
      rw [if_neg notNew]
      unfold spentBy
      rw [if_pos (ready.spends ▸ member)]
      have before : (start db []).cache.outputs id = some output := found
      rw [before]
      rfl
    · rw [none] at left
      exact absurd left (Finset.notMem_empty id)
    · rw [none] at left
      exact absurd left (Finset.notMem_empty id)

/-! ## Two reserved outputs -/

def paymentOfTwo : Transaction := { id := 1, previousOutputs := [], outputs := [receivable 10 0, receivable 20 2] }

def reserving (proposal : ProposalID) (outpoints : List Outpoint) : List Call :=
  addBlock 1 [⟨[], [0, 1], paymentOfTwo⟩] :: { operation := .addProposal proposal 0 } ::
    outpoints.map fun outpoint => { operation := .reserveOutpoint 1 proposal outpoint }

/-- Spends the first output of the payment, and pays one output back. -/
def paidBack : Transaction := { id := 3, previousOutputs := [⟨1, 0⟩], outputs := [receivable 9 1] }

theorem getOutputs_paidBack : getOutputs paidBack = {⟨3, 0⟩} := by decide +kernel

theorem new_paidBack {cache : OutputCache} (outputs : cache.outputs ⟨3, 0⟩ = none) (proposals : cache.outputToProposal ⟨3, 0⟩ = [])
    (created : (7, ⟨3, 0⟩) ∉ cache.createdByProposal) : ∀ id ∈ getOutputs paidBack, New cache 7 id := by
  intro id member
  rw [getOutputs_paidBack, Finset.mem_singleton] at member
  rw [member]
  exact ⟨outputs, proposals, created⟩

/-- With nothing left over the proposal is finalized. -/
theorem single_reservation_finalizes : ∃ db, succeeds household {} (reserving 7 [⟨1, 0⟩]) = some db ∧
    Reserves db 7 {⟨1, 0⟩} ∧ FinalizesWell household db 7 0 paidBack {⟨1, 0⟩} := by
  have evaluated : ((succeeds household {} (reserving 7 [⟨1, 0⟩])).map fun db =>
      let cache := populate db.tables db.cache
      (decide (Index.rows cache.consumedByProposal 7 = {⟨1, 0⟩} ∧ Index.rows db.tables.proposalSpent 7 = {⟨1, 0⟩}),
        decide (cache.outputs ⟨3, 0⟩ = none ∧ cache.outputToProposal ⟨3, 0⟩ = [] ∧ (7, ⟨3, 0⟩) ∉ cache.createdByProposal),
        decide (⟨1, 0⟩ ∈ getState cache .confirmedNew), (cache.outputs ⟨1, 0⟩).map fun output => (output.keys.length, output.isValid))) =
      some (true, true, true, some (1, true)) := by decide +kernel
  cases ran : succeeds household {} (reserving 7 [⟨1, 0⟩]) with
  | none =>
    rw [ran] at evaluated
    cases evaluated
  | some db =>
    rw [ran] at evaluated
    simp only [Option.map_some, Option.some.injEq, Prod.mk.injEq, decide_eq_true_eq] at evaluated
    obtain ⟨⟨inMemory, stored⟩, ⟨outputs, proposals, created⟩, spendable, kept⟩ := evaluated
    have reserves : Reserves db 7 {⟨1, 0⟩} := ⟨inMemory, stored⟩
    refine ⟨db, rfl, reserves, (finalizes_well_iff reserves (new_paidBack outputs proposals created)).mpr ?_⟩
    refine ⟨rfl, by decide, ?_, ?_, ?_⟩
    · exact Finset.singleton_subset_iff.mpr (Finset.mem_union_left _ spendable)
    · intro id member
      rw [Finset.mem_singleton] at member
      obtain ⟨output, found, same⟩ := Option.map_eq_some_iff.mp kept
      obtain ⟨length, valid⟩ := Prod.mk.inj same
      refine ⟨output, member ▸ found, fun none => ?_, valid⟩
      rw [none] at length
      cases length
    · intro id member
      rw [getOutputs_paidBack, Finset.mem_singleton] at member
      rw [member]
      exact ⟨receivable 9 1, ⟨1, .external, 1⟩, rfl, rfl, rfl, Or.inr rfl⟩

/-- Of two reserved outputs one is spent: the proposal cannot be finalized. -/
theorem unused_reservation_stays : ∃ db, succeeds household {} (reserving 7 [⟨1, 0⟩, ⟨1, 1⟩]) = some db ∧
    Reserves db 7 {⟨1, 0⟩, ⟨1, 1⟩} ∧ walletInputs db paidBack = {⟨1, 0⟩} ∧
    (∀ id ∈ getOutputs paidBack, New (populate db.tables db.cache) 7 id) ∧
    ¬ FinalizesWell household db 7 0 paidBack {⟨1, 0⟩, ⟨1, 1⟩} := by
  have evaluated : ((succeeds household {} (reserving 7 [⟨1, 0⟩, ⟨1, 1⟩])).map fun db =>
      let cache := populate db.tables db.cache
      (decide (Index.rows cache.consumedByProposal 7 = {⟨1, 0⟩, ⟨1, 1⟩} ∧
          Index.rows db.tables.proposalSpent 7 = {⟨1, 0⟩, ⟨1, 1⟩}), decide (walletInputs db paidBack = {⟨1, 0⟩}),
        decide (cache.outputs ⟨3, 0⟩ = none ∧ cache.outputToProposal ⟨3, 0⟩ = [] ∧ (7, ⟨3, 0⟩) ∉ cache.createdByProposal),
        (perform household db (finalizing 7 0 paidBack)).toOption.map Outcome.success)) =
      some (true, true, true, some false) := by decide +kernel
  cases ran : succeeds household {} (reserving 7 [⟨1, 0⟩, ⟨1, 1⟩]) with
  | none =>
    rw [ran] at evaluated
    cases evaluated
  | some db =>
    rw [ran] at evaluated
    simp only [Option.map_some, Option.some.injEq, Prod.mk.injEq, decide_eq_true_eq] at evaluated
    obtain ⟨⟨inMemory, stored⟩, inputs, ⟨outputs, proposals, created⟩, fails⟩ := evaluated
    refine ⟨db, rfl, ⟨inMemory, stored⟩, inputs, new_paidBack outputs proposals created, ?_⟩
    rintro ⟨outcome, performed, success, _⟩
    rw [performed] at fails
    exact absurd (success.symm.trans (Option.some.inj fails)) Bool.noConfusion

end Opentxs.Wallet.Finalizing
