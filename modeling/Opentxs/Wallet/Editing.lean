import Mathlib.Logic.Relation
import Opentxs.Wallet.Associations
import Opentxs.Wallet.Reports

/-! Every operation that returns is a sequence of a few kinds of edits. What all of them keep
holds after every operation. -/

namespace Opentxs.Wallet.Editing
open Library Library.Ordered HeaderOracle BlockHeader Types Storage OutputCache Parsing Reports Outputs Tracking Associations

/-! ## Edits -/

/-- Nothing changes but what is stored of proposals by themselves. -/
structure SameBooks (before after : Tables) : Prop where
  outputs : after.outputs = before.outputs
  indexes : after.indexes = before.indexes
  generation : after.generation = before.generation
  outputProposal : after.outputProposal = before.outputProposal
  proposalCreated : after.proposalCreated = before.proposalCreated
  proposalSpent : after.proposalSpent = before.proposalSpent
  position : after.position = before.position

theorem SameBooks.refl (tables : Tables) : SameBooks tables tables := ⟨rfl, rfl, rfl, rfl, rfl, rfl, rfl⟩

/-- What the edits of a call go by: who owns the keys, and to which account and subchain a new
output goes. Strict edits are those after which the tables hold what the memory holds. -/
structure Terms where
  environment : Environment
  home : Outpoint → AccountID × SubchainID
  strict : Prop

/-- Terms that ask for nothing, for calls that store no new output. -/
def Terms.loose : Terms where
  environment := { owner := fun _ => none, subchainID := fun account _ => account, maturationTarget := 0 }
  home := fun _ => (0, 0)
  strict := False

/-- The one row that the table has for an output is all that the memory has. -/
def Single (cache : OutputCache) (tables : Tables) : Prop :=
  ∀ id, cache.outputToProposal id = (tables.outputProposal id).toList

/-- In memory and in the tables the rows of proposals change alike. -/
structure Paired (strict : Prop) (before : Session) (change : Change) : Prop where
  created : change.proposalCreated = change.created
  consumed : change.proposalSpent = change.consumed
  monotone : ∀ fewer more : Index ProposalID, fewer ⊆ more → change.consumed fewer ⊆ change.consumed more
  single : strict → Single before.cache before.tables → Single (change.inMemory before.cache) (change.stored before.tables)

/-- An output is not moved from a position at which nothing stood when the tables were last
committed. -/
def Departs (session : Session) (old new : Output) : Prop :=
  new.minedPosition ≠ old.minedPosition → Index.rows session.committed.indexes.positions old.minedPosition ≠ ∅

inductive Edit (terms : Terms) (before after : Session) : Prop
  | associations (change : Change) (paired : Paired terms.strict before change) (reassociates : Reassociates change before after)
  | proposals (cache : after.cache = before.cache) (tables : SameBooks before.tables after.tables)
      (committed : SameBooks before.committed after.committed)
  | replaced (id : Outpoint) (old new : Output) (known : new.state ∈ allStates) (keys : new.keys = old.keys)
      (departs : terms.strict → Departs before old new) (replaced : Replaced id old new before after)
  | created (id : Outpoint) (output : Output) (isGeneration : Bool) (middle : Session) (known : output.state ∈ allStates)
      (created : Created id output isGeneration (terms.home id).1 (terms.home id).2 before middle)
      (owned : Becomes middle after (onIndexes (withOwners terms.environment id output.keys) middle.cache)
        (onIndexTables (withOwners terms.environment id output.keys) middle.tables))
  | positioned (position : Position)
      (positioned : Becomes before after { before.cache with position := some position }
        { before.tables with position := some position })
  | pruned (good : Int)
      (single : terms.strict → (before.cache.generationOutputs.filter fun entry => entry.1 = good).length ≤ 1)
      (pruned : Becomes before after
        { before.cache with
          generationOutputs := before.cache.generationOutputs.take (before.cache.generationOutputs.length -
            (generationAbove good before.cache.generationOutputs).length) }
        { before.tables with
          generation := before.tables.generation.filter fun row =>
            row.1 ∉ (generationAbove good before.cache.generationOutputs).map Prod.fst })
  | committed (cache : after.cache = before.cache) (tables : after.tables = before.tables)
      (committed : after.committed = before.tables)

abbrev Edits (terms : Terms) := Relation.ReflTransGen (Edit terms)

/-! ## What edits keep -/

/-- The states are indexed as the outputs have them, and none is an error. -/
structure Filed (outputs : Outpoint → Option Output) (states : Index TxoState) : Prop where
  states : ∀ state id, (state, id) ∈ states ↔ ∃ output, outputs id = some output ∧ output.state = state
  known : ∀ id output, outputs id = some output → output.state ∈ allStates

/-- The cache shows the outputs and their indexes as the tables have them. Positions apart. -/
structure Mirrored (cache : OutputCache) (tables : Tables) : Prop where
  populated : cache.populated = true
  outputs : cache.outputs = tables.outputs
  accounts : cache.indexes.accounts = tables.indexes.accounts
  keys : cache.indexes.keys = tables.indexes.keys
  nyms : cache.indexes.nyms = tables.indexes.nyms
  states : cache.indexes.states = tables.indexes.states
  subchains : cache.indexes.subchains = tables.indexes.subchains
  position : cache.position = tables.position

structure Orderly (session : Session) : Prop where
  mirrored : Mirrored session.cache session.tables
  filed : Filed session.cache.outputs session.cache.indexes.states
  committed : Filed session.committed.outputs session.committed.indexes.states

theorem Filed.restate {outputs : Outpoint → Option Output} {states : Index TxoState} (filed : Filed outputs states)
    {id : Outpoint} {old new : Output} (found : outputs id = some old) (known : new.state ∈ allStates) :
    Filed (Function.update outputs id (some new))
      (if new.state ≠ old.state then insert (new.state, id) (eraseStates id states) else states) := by
  constructor
  · intro state other
    by_cases same : other = id
    · subst same
      rw [Function.update_self]
      simp only [Option.some.injEq, exists_eq_left']
      split
      · rename_i changes
        rw [Finset.mem_insert, mem_eraseStates, filed.states, found, Prod.mk.injEq]
        have wasKnown := filed.known other old found
        constructor
        · rintro (⟨rfl, _⟩ | ⟨⟨output, is, rfl⟩, unknown⟩)
          · rfl
          · cases is
            exact absurd ⟨wasKnown, rfl⟩ unknown
        · rintro rfl
          exact Or.inl ⟨rfl, rfl⟩
      · rename_i stays
        rw [filed.states, found, not_not.mp stays]
        simp
    · rw [Function.update_of_ne same, ← filed.states]
      split
      · rw [Finset.mem_insert, mem_eraseStates, Prod.mk.injEq]
        constructor
        · rintro (⟨_, equal⟩ | ⟨member, _⟩)
          · exact absurd equal same
          · exact member
        · intro member
          exact Or.inr ⟨member, fun both => same both.2⟩
      · exact Iff.rfl
  · intro other output is
    by_cases same : other = id
    · rw [same, Function.update_self] at is
      cases is
      exact known
    · rw [Function.update_of_ne same] at is
      exact filed.known other output is

theorem Filed.add {outputs : Outpoint → Option Output} {states : Index TxoState} (filed : Filed outputs states)
    {id : Outpoint} {output : Output} (fresh : outputs id = none) (known : output.state ∈ allStates) :
    Filed (Function.update outputs id (some output)) (insert (output.state, id) states) := by
  constructor
  · intro state other
    rw [Finset.mem_insert, Prod.mk.injEq, filed.states]
    by_cases same : other = id
    · subst same
      rw [Function.update_self, fresh]
      simp [eq_comm]
    · rw [Function.update_of_ne same]
      simp [same]
  · intro other found is
    by_cases same : other = id
    · rw [same, Function.update_self] at is
      cases is
      exact known
    · rw [Function.update_of_ne same] at is
      exact filed.known other found is

theorem Edit.orderly {terms : Terms} {before after : Session} (edit : Edit terms before after) (orderly : Orderly before) : Orderly after := by
  obtain ⟨mirrored, filed, committedFiled⟩ := orderly
  cases edit with
  | associations change _ reassociates =>
    obtain ⟨cache, tables, committed, _⟩ := reassociates
    constructor
    · rw [cache, tables]
      exact ⟨mirrored.populated, mirrored.outputs, mirrored.accounts, mirrored.keys, mirrored.nyms, mirrored.states,
        mirrored.subchains, mirrored.position⟩
    · rw [cache]
      exact filed
    · rw [committed]
      exact committedFiled
  | proposals cache tables committed =>
    constructor
    · rw [cache]
      constructor
      · exact mirrored.populated
      · rw [tables.outputs, mirrored.outputs]
      · rw [tables.indexes, mirrored.accounts]
      · rw [tables.indexes, mirrored.keys]
      · rw [tables.indexes, mirrored.nyms]
      · rw [tables.indexes, mirrored.states]
      · rw [tables.indexes, mirrored.subchains]
      · rw [tables.position, mirrored.position]
    · rw [cache]
      exact filed
    · rw [committed.outputs, committed.indexes]
      exact committedFiled
  | replaced id old new known _ _ replaced =>
    obtain ⟨found, _, cache, tables, committed, _⟩ := replaced
    constructor
    · rw [cache, tables]
      constructor
      · exact mirrored.populated
      · rw [mirrored.outputs]
      · exact mirrored.accounts
      · rw [mirrored.keys]
      · exact mirrored.nyms
      · rw [mirrored.states]
      · exact mirrored.subchains
      · exact mirrored.position
    · rw [cache]
      exact filed.restate found known
    · rw [committed]
      exact committedFiled
  | created id output isGeneration middle known created owned =>
    obtain ⟨fresh, _, _, cache, tables, committed, _⟩ := created
    constructor
    · rw [owned.cache, owned.tables, cache, tables]
      constructor
      · exact mirrored.populated
      · show Function.update before.cache.outputs id _ = Function.update before.tables.outputs id _
        rw [mirrored.outputs]
      · simp only [onIndexes, onIndexTables, withOwners, indexed, mirrored.accounts]
      · simp only [onIndexes, onIndexTables, withOwners, indexed, mirrored.keys]
      · simp only [onIndexes, onIndexTables, withOwners, indexed, mirrored.nyms]
      · simp only [onIndexes, onIndexTables, withOwners, indexed, mirrored.states]
      · simp only [onIndexes, onIndexTables, withOwners, indexed, mirrored.subchains]
      · exact mirrored.position
    · rw [owned.cache, cache]
      exact filed.add fresh known
    · rw [owned.committed, committed]
      exact committedFiled
  | positioned position positioned =>
    obtain ⟨cache, tables, committed, _⟩ := positioned
    constructor
    · rw [cache, tables]
      exact ⟨mirrored.populated, mirrored.outputs, mirrored.accounts, mirrored.keys, mirrored.nyms, mirrored.states,
        mirrored.subchains, rfl⟩
    · rw [cache]
      exact filed
    · rw [committed]
      exact committedFiled
  | pruned good _ pruned =>
    obtain ⟨cache, tables, committed, _⟩ := pruned
    constructor
    · rw [cache, tables]
      exact ⟨mirrored.populated, mirrored.outputs, mirrored.accounts, mirrored.keys, mirrored.nyms, mirrored.states,
        mirrored.subchains, mirrored.position⟩
    · rw [cache]
      exact filed
    · rw [committed]
      exact committedFiled
  | committed cache tables committed =>
    constructor
    · rw [cache, tables]
      exact mirrored
    · rw [cache]
      exact filed
    · rw [committed, ← mirrored.outputs, ← mirrored.states]
      exact filed

theorem edits_orderly {terms : Terms} {before after : Session} (edits : Edits terms before after) (orderly : Orderly before) : Orderly after := by
  induction edits with
  | refl => exact orderly
  | tail _ edit ih => exact edit.orderly ih

end Opentxs.Wallet.Editing
