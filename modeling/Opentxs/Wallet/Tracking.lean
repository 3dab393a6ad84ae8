import Opentxs.Wallet.Outputs

/-! What a step that returns does to the session. In every session the cache follows the open
tables, and the state and key indexes follow the outputs. -/

namespace Opentxs.Wallet.Tracking
open Library HeaderOracle BlockHeader Types Storage OutputCache Outputs

/-! ## Single steps -/

/-- A step leaves this cache and these tables, and nothing else but the pending writes changes. -/
structure Becomes (before after : Session) (cache : OutputCache) (tables : Tables) : Prop where
  cache : after.cache = cache
  tables : after.tables = tables
  committed : after.committed = before.committed
  proposalData : after.proposalData = before.proposalData

theorem Becomes.same (session : Session) : Becomes session session session.cache session.tables := ⟨rfl, rfl, rfl, rfl⟩

theorem Becomes.trans {first second third : Session} {cache cache' : OutputCache} {tables tables' : Tables}
    (early : Becomes first second cache tables) (late : Becomes second third cache' tables') :
    Becomes first third cache' tables' :=
  ⟨late.cache, late.tables, late.committed.trans early.committed, late.proposalData.trans early.proposalData⟩

variable {before after : Session}

theorem readCache_ok {cache : OutputCache} (ran : readCache before = (.ok cache, after)) :
    cache = before.cache ∧ after = before := by
  cases ran
  exact ⟨rfl, rfl⟩

theorem changeCache_ok {change : OutputCache → OutputCache} {result : Unit}
    (ran : changeCache change before = (.ok result, after)) :
    Becomes before after (change before.cache) before.tables := by
  cases ran
  exact ⟨rfl, rfl, rfl, rfl⟩

theorem changeIndexes_ok {change : Indexes → Indexes} {result : Unit}
    (ran : changeIndexes change before = (.ok result, after)) :
    Becomes before after { before.cache with indexes := change before.cache.indexes } before.tables := by
  cases ran
  exact ⟨rfl, rfl, rfl, rfl⟩

theorem changeTables_ok {change : Tables → Tables} {result : Unit}
    (ran : changeTables change before = (.ok result, after)) :
    Becomes before after before.cache (change before.tables) := by
  cases ran
  exact ⟨rfl, rfl, rfl, rfl⟩

theorem store_true {change : Tables → Tables} (ran : store change before = (.ok true, after)) :
    Becomes before after before.cache (change before.tables) := by
  unfold store at ran
  obtain ⟨rc, middle, wrote, rest⟩ := Program.bind_ok ran
  cases wrote
  obtain ⟨_, last, changed, returned⟩ := Program.bind_ok rest
  obtain ⟨goes, rfl⟩ := Program.pure_ok returned
  rcases Program.onlyIf_ok changed with ⟨_, ran⟩ | ⟨stops, _⟩
  · have became := changeTables_ok ran
    exact ⟨became.cache, became.tables, became.committed, became.proposalData⟩
  · exact absurd goes.symm stops

theorem delete_true {present : Tables → Bool} {change : Tables → Tables}
    (ran : delete present change before = (.ok true, after)) :
    present before.tables = true ∧ Becomes before after before.cache (change before.tables) := by
  unfold delete at ran
  obtain ⟨session, middle, got, rest⟩ := Program.bind_ok ran
  obtain ⟨rfl, rfl⟩ := Program.get_ok got
  split at rest
  · rename_i there
    obtain ⟨_, last, changed, returned⟩ := Program.bind_ok rest
    obtain ⟨_, rfl⟩ := Program.pure_ok returned
    exact ⟨there, changeTables_ok changed⟩
  · have returned := (Program.pure_ok rest).1
    cases returned

theorem require_ok {condition : Bool} {result : Unit} (ran : Storage.require condition before = (.ok result, after)) :
    condition = true ∧ after = before := Program.require_ok ran

theorem assertTrue_ok {condition : Bool} {result : Unit} (ran : assertTrue condition before = (.ok result, after)) :
    condition = true ∧ after = before := Program.require_ok ran

/-! ## Writing an output -/

def addKeys (id : Outpoint) (keys : List Key) (index : Index Key) : Index Key :=
  keys.foldl (fun index key => insert (key, id) index) index

theorem mem_addKeys (id : Outpoint) (keys : List Key) (index : Index Key) (key : Key) (other : Outpoint) :
    (key, other) ∈ addKeys id keys index ↔ (key ∈ keys ∧ other = id) ∨ (key, other) ∈ index := by
  induction keys generalizing index with
  | nil => simp [addKeys]
  | cons first keys ih =>
    rw [addKeys, List.foldl_cons]
    apply (ih (insert (first, id) index)).trans
    rw [Finset.mem_insert, Prod.mk.injEq, List.mem_cons]
    tauto

def withKeys (indexes : Indexes) (id : Outpoint) (keys : List Key) : Indexes :=
  { indexes with keys := addKeys id keys indexes.keys }

theorem writeKeys_true (id : Outpoint) (keys : List Key) :
    ∀ before after, writeKeys id keys before = (.ok true, after) →
      Becomes before after { before.cache with indexes := withKeys before.cache.indexes id keys }
        { before.tables with indexes := withKeys before.tables.indexes id keys } := by
  induction keys with
  | nil =>
    intro before after ran
    obtain ⟨_, rfl⟩ := Program.pure_ok ran
    exact Becomes.same after
  | cons key keys ih =>
    intro before after ran
    unfold writeKeys at ran
    obtain ⟨rc, middle, stored, rest⟩ := Program.bind_ok ran
    cases rc with
    | false => cases (Program.pure_ok rest).1
    | true =>
      have wrote := store_true stored
      obtain ⟨_, next, changed, written⟩ := Program.bind_ok rest
      have became := changeIndexes_ok changed
      have later := ih next after written
      refine ⟨?_, ?_, ?_, ?_⟩
      · rw [later.cache, became.cache, wrote.cache]
        rfl
      · rw [later.tables, became.tables, wrote.tables]
        rfl
      · rw [later.committed, became.committed, wrote.committed]
      · rw [later.proposalData, became.proposalData, wrote.proposalData]

theorem writeOutput_true {id : Outpoint} {output : Output} (ran : writeOutput id output before = (.ok true, after)) :
    output.isValid = true ∧
      Becomes before after { before.cache with indexes := withKeys before.cache.indexes id output.keys }
        { before.tables with
          outputs := Function.update before.tables.outputs id (some output)
          indexes := withKeys before.tables.indexes id output.keys } := by
  unfold writeOutput at ran
  obtain ⟨rc, middle, keyed, rest⟩ := Program.bind_ok ran
  cases rc with
  | false => cases (Program.pure_ok rest).1
  | true =>
    have became := writeKeys_true id output.keys before middle keyed
    cases valid : output.isValid with
    | false =>
      rw [valid] at rest
      cases (Program.pure_ok rest).1
    | true =>
      rw [valid, Bool.and_self, if_pos rfl] at rest
      have wrote := store_true rest
      refine ⟨rfl, ?_, ?_, ?_, ?_⟩
      · rw [wrote.cache, became.cache]
      · rw [wrote.tables, became.tables]
      · rw [wrote.committed, became.committed]
      · rw [wrote.proposalData, became.proposalData]

/-! ## Changing the state of an output -/

theorem mem_eraseStates (id : Outpoint) (states : Index TxoState) (state : TxoState) (other : Outpoint) :
    (state, other) ∈ eraseStates id states ↔ (state, other) ∈ states ∧ ¬ (state ∈ allStates ∧ other = id) := by
  unfold eraseStates
  rw [Finset.mem_filter]

def withState (indexes : Indexes) (id : Outpoint) (state : TxoState) : Indexes :=
  { indexes with states := insert (state, id) (eraseStates id indexes.states) }

theorem changeState_true {newState : TxoState} {id : Outpoint} (ran : changeState newState id before = (.ok true, after)) :
    Becomes before after { before.cache with indexes := withState before.cache.indexes id newState }
      { before.tables with indexes := withState before.tables.indexes id newState } := by
  unfold changeState at ran
  obtain ⟨_, erased, erasing, rest⟩ := Program.bind_ok ran
  have gone := changeTables_ok erasing
  obtain ⟨rc, stored, storing, rest⟩ := Program.bind_ok rest
  obtain ⟨_, last, indexing, returned⟩ := Program.bind_ok rest
  obtain ⟨rfl, rfl⟩ := Program.pure_ok returned
  have wrote := store_true storing
  rcases Program.onlyIf_ok indexing with ⟨_, indexing⟩ | ⟨fails, _⟩
  · have became := changeIndexes_ok indexing
    refine ⟨?_, ?_, ?_, ?_⟩
    · rw [became.cache, wrote.cache, gone.cache]
      rfl
    · rw [became.tables, wrote.tables, gone.tables]
      rfl
    · rw [became.committed, wrote.committed, gone.committed]
    · rw [became.proposalData, wrote.proposalData, gone.proposalData]
  · exact absurd rfl fails

/-- The row of the old position is left when no output had this position at the last commit. -/
def movedRows (committed positions : Index Position) (oldPosition newPosition : Position) (id : Outpoint) : Index Position :=
  insert (newPosition, id) (if Index.rows committed oldPosition = ∅ then positions else positions.erase (oldPosition, id))

def withPositions (indexes : Indexes) (positions : Index Position) : Indexes := { indexes with positions }

def movePosition (positions : Index Position) (oldPosition newPosition : Position) (id : Outpoint) : Index Position :=
  insert (newPosition, id) (positions.erase (oldPosition, id))

theorem changePosition_true {oldPosition newPosition : Position} {id : Outpoint}
    (ran : changePosition oldPosition newPosition id before = (.ok true, after)) :
    Becomes before after
      { before.cache with
        indexes := withPositions before.cache.indexes
          (movePosition before.cache.indexes.positions oldPosition newPosition id) }
      { before.tables with
        indexes := withPositions before.tables.indexes (movedRows before.committed.indexes.positions
          before.tables.indexes.positions oldPosition newPosition id) } := by
  unfold changePosition at ran
  obtain ⟨removed, middle, removing, rest⟩ := Program.bind_ok ran
  cases removed with
  | false => cases (Program.pure_ok rest).1
  | true =>
    have gone : Becomes before middle before.cache
        { before.tables with
          indexes := withPositions before.tables.indexes
            (if Index.rows before.committed.indexes.positions oldPosition = ∅ then before.tables.indexes.positions
             else before.tables.indexes.positions.erase (oldPosition, id)) } := by
      unfold removePosition at removing
      obtain ⟨session, early, got, rest⟩ := Program.bind_ok removing
      obtain ⟨rfl, rfl⟩ := Program.get_ok got
      split at rest
      · obtain ⟨_, rfl⟩ := Program.pure_ok rest
        rename_i empty
        rw [if_pos empty]
        exact ⟨rfl, rfl, rfl, rfl⟩
      · rename_i there
        rw [if_neg there]
        exact (delete_true rest).2
    obtain ⟨rc, stored, storing, rest⟩ := Program.bind_ok rest
    obtain ⟨_, last, indexing, returned⟩ := Program.bind_ok rest
    obtain ⟨rfl, rfl⟩ := Program.pure_ok returned
    have wrote := store_true storing
    rcases Program.onlyIf_ok indexing with ⟨_, indexing⟩ | ⟨fails, _⟩
    · have became := changeIndexes_ok indexing
      refine ⟨?_, ?_, ?_, ?_⟩
      · rw [became.cache, wrote.cache, gone.cache]
        rfl
      · rw [became.tables, wrote.tables, gone.tables]
        rfl
      · rw [became.committed, wrote.committed, gone.committed]
      · rw [became.proposalData, wrote.proposalData, gone.proposalData]
    · exact absurd rfl fails

theorem getOutput_ok {cache : OutputCache} {id : Outpoint} {output : Output} (got : getOutput cache id = .ok output) :
    cache.outputs id = some output ∧ output.keys ≠ [] := by
  unfold getOutput at got
  split at got
  · rename_i found there
    split at got
    · cases got
    · rename_i keys
      cases got
      exact ⟨there, keys⟩
  · cases got

def restated (output : Output) (newState : TxoState) (newPosition : Position) : Output :=
  { output with state := newState, minedPosition := effectivePosition newState output.minedPosition newPosition }

/-- A stored output is replaced, and the indexes of states, positions and keys follow it. -/
structure Replaced (id : Outpoint) (old new : Output) (before after : Session) : Prop where
  found : before.cache.outputs id = some old
  keys : old.keys ≠ []
  cache : after.cache =
    { before.cache with
      outputs := Function.update before.cache.outputs id (some new)
      indexes :=
        { before.cache.indexes with
          keys := addKeys id old.keys before.cache.indexes.keys
          states := if new.state ≠ old.state then insert (new.state, id) (eraseStates id before.cache.indexes.states)
            else before.cache.indexes.states
          positions := if new.minedPosition ≠ old.minedPosition
            then movePosition before.cache.indexes.positions old.minedPosition new.minedPosition id
            else before.cache.indexes.positions } }
  tables : after.tables =
    { before.tables with
      outputs := Function.update before.tables.outputs id (some new)
      indexes :=
        { before.tables.indexes with
          keys := addKeys id old.keys before.tables.indexes.keys
          states := if new.state ≠ old.state then insert (new.state, id) (eraseStates id before.tables.indexes.states)
            else before.tables.indexes.states
          positions := if new.minedPosition ≠ old.minedPosition
            then movedRows before.committed.indexes.positions before.tables.indexes.positions old.minedPosition new.minedPosition id
            else before.tables.indexes.positions } }
  committed : after.committed = before.committed
  proposalData : after.proposalData = before.proposalData

theorem changeTxoState_ok {id : Outpoint} {newPosition : Position} {newState : TxoState} {result : Unit}
    (ran : changeTxoState id newPosition newState before = (.ok result, after)) :
    ∃ output, Replaced id output (restated output newState newPosition) before after := by
  unfold changeTxoState at ran
  obtain ⟨cache, start, reading, afterRead⟩ := Program.bind_ok ran
  obtain ⟨rfl, rfl⟩ := readCache_ok reading
  obtain ⟨output, loaded, getting, afterLoad⟩ := Program.bind_ok afterRead
  obtain ⟨got, rfl⟩ := Program.lift_ok getting
  obtain ⟨found, keys⟩ := getOutput_ok got
  obtain ⟨_, stated, stating, afterState⟩ := Program.bind_ok afterLoad
  obtain ⟨_, placed, placing, rest⟩ := Program.bind_ok afterState
  obtain ⟨rc, updated, updating, required⟩ := Program.bind_ok rest
  obtain ⟨rfl, rfl⟩ := require_ok required
  obtain ⟨_, wrote⟩ := writeOutput_true updating
  have states : Becomes loaded stated
      { loaded.cache with
        outputs := Function.update loaded.cache.outputs id (some { output with state := newState })
        indexes := { loaded.cache.indexes with
          states := if newState ≠ output.state then insert (newState, id) (eraseStates id loaded.cache.indexes.states)
            else loaded.cache.indexes.states } }
      { loaded.tables with
        indexes := { loaded.tables.indexes with
          states := if newState ≠ output.state then insert (newState, id) (eraseStates id loaded.tables.indexes.states)
            else loaded.tables.indexes.states } } := by
    rcases Program.onlyIf_ok stating with ⟨changes, stating⟩ | ⟨same, rfl⟩
    · obtain ⟨rc, middle, changing, rest⟩ := Program.bind_ok stating
      obtain ⟨_, next, required, setting⟩ := Program.bind_ok rest
      obtain ⟨rfl, rfl⟩ := require_ok required
      have changed := changeState_true changing
      have set := changeCache_ok setting
      rw [if_pos changes, if_pos changes]
      refine ⟨?_, ?_, ?_, ?_⟩
      · rw [set.cache, changed.cache]
        rfl
      · rw [set.tables, changed.tables]
        rfl
      · rw [set.committed, changed.committed]
      · rw [set.proposalData, changed.proposalData]
    · have equal : newState = output.state := not_not.mp same
      subst equal
      rw [if_neg same, if_neg same, Function.update_eq_self_iff.mpr found.symm]
      exact ⟨rfl, rfl, rfl, rfl⟩
  have positions : Becomes stated placed
      { stated.cache with
        outputs := Function.update stated.cache.outputs id (some (restated output newState newPosition))
        indexes := { stated.cache.indexes with
          positions := if effectivePosition newState output.minedPosition newPosition ≠ output.minedPosition
            then movePosition stated.cache.indexes.positions output.minedPosition
              (effectivePosition newState output.minedPosition newPosition) id
            else stated.cache.indexes.positions } }
      { stated.tables with
        indexes := { stated.tables.indexes with
          positions := if effectivePosition newState output.minedPosition newPosition ≠ output.minedPosition
            then movedRows stated.committed.indexes.positions stated.tables.indexes.positions output.minedPosition
              (effectivePosition newState output.minedPosition newPosition) id
            else stated.tables.indexes.positions } } := by
    rcases Program.onlyIf_ok placing with ⟨changes, placing⟩ | ⟨same, rfl⟩
    · obtain ⟨rc, middle, changing, rest⟩ := Program.bind_ok placing
      obtain ⟨_, next, required, setting⟩ := Program.bind_ok rest
      obtain ⟨rfl, rfl⟩ := require_ok required
      have changed := changePosition_true changing
      have set := changeCache_ok setting
      rw [if_pos changes, if_pos changes]
      refine ⟨?_, ?_, ?_, ?_⟩
      · rw [set.cache, changed.cache]
        rfl
      · rw [set.tables, changed.tables]
        rfl
      · rw [set.committed, changed.committed]
      · rw [set.proposalData, changed.proposalData]
    · have equal : effectivePosition newState output.minedPosition newPosition = output.minedPosition := not_not.mp same
      have now : placed.cache.outputs id = some (restated output newState newPosition) := by
        rw [states.cache, restated, equal]
        exact Function.update_self _ _ _
      rw [if_neg same, if_neg same, Function.update_eq_self_iff.mpr now.symm]
      exact ⟨rfl, rfl, rfl, rfl⟩
  refine ⟨output, found, keys, ?_, ?_, ?_, ?_⟩
  · rw [wrote.cache, positions.cache, states.cache]
    simp only [Function.update_idem]
    rfl
  · rw [wrote.tables, positions.tables, states.tables, states.committed]
    rfl
  · rw [wrote.committed, positions.committed, states.committed]
  · rw [wrote.proposalData, positions.proposalData, states.proposalData]

/-! ## Creating an output -/

theorem Becomes.on {first second third : Session} {cache : OutputCache} {tables : Tables} {change : OutputCache → OutputCache}
    {rewrite : Tables → Tables} (late : Becomes second third (change second.cache) (rewrite second.tables))
    (early : Becomes first second cache tables) : Becomes first third (change cache) (rewrite tables) := by
  rw [← early.cache, ← early.tables]
  exact early.trans late

def onIndexes (change : Indexes → Indexes) (cache : OutputCache) : OutputCache :=
  { cache with indexes := change cache.indexes }

def onIndexTables (change : Indexes → Indexes) (tables : Tables) : Tables :=
  { tables with indexes := change tables.indexes }

theorem addToIndex_true {id : Outpoint} {change : Indexes → Indexes}
    (ran : addToIndex id change before = (.ok true, after)) :
    Becomes before after (onIndexes change before.cache) (onIndexTables change before.tables) := by
  unfold addToIndex at ran
  obtain ⟨cache, start, reading, afterRead⟩ := Program.bind_ok ran
  obtain ⟨rfl, rfl⟩ := readCache_ok reading
  obtain ⟨_, checked, checking, afterCheck⟩ := Program.bind_ok afterRead
  obtain ⟨_, rfl⟩ := assertTrue_ok checking
  obtain ⟨rc, stored, storing, afterStore⟩ := Program.bind_ok afterCheck
  obtain ⟨_, last, indexing, returned⟩ := Program.bind_ok afterStore
  obtain ⟨rfl, rfl⟩ := Program.pure_ok returned
  have wrote := store_true storing
  rcases Program.onlyIf_ok indexing with ⟨_, indexing⟩ | ⟨fails, _⟩
  · have became := changeIndexes_ok indexing
    exact @Becomes.on _ _ _ _ _ (onIndexes change) (fun tables => tables) became wrote
  · exact absurd rfl fails

/-- The rows of a new output. -/
def indexed (account : AccountID) (subchain : SubchainID) (id : Outpoint) (output : Output) (indexes : Indexes) : Indexes where
  accounts := insert (account, id) indexes.accounts
  keys := addKeys id output.keys indexes.keys
  nyms := indexes.nyms
  positions := insert (output.minedPosition, id) indexes.positions
  states := insert (output.state, id) indexes.states
  subchains := insert (subchain, id) indexes.subchains

theorem addOutput_true {id : Outpoint} {state : TxoState} {position : Position} {account : AccountID}
    {subchain : SubchainID} {output : Output} (fresh : before.cache.outputs id = none) (inState : output.state = state)
    (atPosition : output.minedPosition = position)
    (ran : addOutput id state position account subchain output before = (.ok true, after)) :
    Becomes before after
      { before.cache with
        outputs := Function.update before.cache.outputs id (some output)
        indexes := indexed account subchain id output before.cache.indexes }
      { before.tables with
        outputs := Function.update before.tables.outputs id (some output)
        indexes := indexed account subchain id output before.tables.indexes } := by
  subst inState atPosition
  unfold addOutput at ran
  obtain ⟨written, wrote, writing, afterWrite⟩ := Program.bind_ok ran
  cases written with
  | false => cases (Program.pure_ok afterWrite).1
  | true =>
    have writes := (writeOutput_true writing).2
    obtain ⟨_, emplaced, emplacing, afterEmplace⟩ := Program.bind_ok afterWrite
    obtain ⟨inState, stated, stating, afterState⟩ := Program.bind_ok afterEmplace
    obtain ⟨inPosition, placed, placing, afterPlace⟩ := Program.bind_ok afterState
    obtain ⟨inAccount, accounted, accounting, afterAccount⟩ := Program.bind_ok afterPlace
    obtain ⟨inSubchain, chained, chaining, returned⟩ := Program.bind_ok afterAccount
    obtain ⟨all, rfl⟩ := Program.pure_ok returned
    cases inState <;> cases inPosition <;> cases inAccount <;> cases inSubchain <;> cases all
    have emplaces := changeCache_ok emplacing
    have states := addToIndex_true stating
    have places := addToIndex_true placing
    have accounts := addToIndex_true accounting
    have subchains := addToIndex_true chaining
    refine ⟨?_, ?_, ?_, ?_⟩
    · rw [subchains.cache, accounts.cache, places.cache, states.cache, emplaces.cache, writes.cache, fresh]
      rfl
    · rw [subchains.tables, accounts.tables, places.tables, states.tables, emplaces.tables, writes.tables]
      rfl
    · rw [subchains.committed, accounts.committed, places.committed, states.committed, emplaces.committed, writes.committed]
    · rw [subchains.proposalData, accounts.proposalData, places.proposalData, states.proposalData, emplaces.proposalData,
        writes.proposalData]

def tagged (output : Output) (isGeneration : Bool) (state : TxoState) (position : Position) : Output :=
  { output with
    state
    minedPosition := effectivePosition state {} position
    tags := insert (if isGeneration then TxoTag.generation else TxoTag.normal) output.tags }

/-- An output that was not there is stored, with the rows of its state, position, keys, account
and subchain. -/
structure Created (id : Outpoint) (output : Output) (isGeneration : Bool) (account : AccountID) (subchain : SubchainID)
    (before after : Session) : Prop where
  fresh : before.cache.outputs id = none
  keys : output.keys ≠ []
  valid : output.isValid = true
  cache : after.cache =
    { before.cache with
      outputs := Function.update before.cache.outputs id (some output)
      indexes := indexed account subchain id output before.cache.indexes
      generationOutputs := if isGeneration then emplaceGeneration output.minedPosition.height id before.cache.generationOutputs
        else before.cache.generationOutputs }
  tables : after.tables =
    { before.tables with
      outputs := Function.update before.tables.outputs id (some output)
      indexes := indexed account subchain id output before.tables.indexes
      generation := if isGeneration then insert (output.minedPosition.height, id) before.tables.generation
        else before.tables.generation }
  committed : after.committed = before.committed
  proposalData : after.proposalData = before.proposalData

theorem addGenerationOutput_ok {height : Int} {output : Outpoint} {result : Unit}
    (ran : addGenerationOutput height output before = (.ok result, after)) :
    Becomes before after
      { before.cache with generationOutputs := emplaceGeneration height output before.cache.generationOutputs }
      { before.tables with generation := insert (height, output) before.tables.generation } := by
  unfold addGenerationOutput at ran
  obtain ⟨rc, stored, storing, afterStore⟩ := Program.bind_ok ran
  obtain ⟨_, required, requiring, changing⟩ := Program.bind_ok afterStore
  obtain ⟨rfl, rfl⟩ := require_ok requiring
  have wrote := store_true storing
  have changed := changeCache_ok changing
  refine ⟨?_, ?_, ?_, ?_⟩
  · rw [changed.cache, wrote.cache]
  · rw [changed.tables, wrote.tables]
  · rw [changed.committed, wrote.committed]
  · rw [changed.proposalData, wrote.proposalData]

theorem createState_ok {account : AccountID} {subchain : SubchainID} {id : Outpoint} {position : Position} {output : Output}
    {isGeneration : Bool} {state : TxoState} {result : Unit}
    (ran : createState account subchain id position output isGeneration state before = (.ok result, after)) :
    Created id (tagged output isGeneration state position) isGeneration account subchain before after := by
  unfold createState at ran
  obtain ⟨cache, start, reading, afterRead⟩ := Program.bind_ok ran
  obtain ⟨rfl, rfl⟩ := readCache_ok reading
  obtain ⟨_, checked, checking, afterCheck⟩ := Program.bind_ok afterRead
  obtain ⟨absent, rfl⟩ := require_ok checking
  obtain ⟨_, keyed, keying, afterKeys⟩ := Program.bind_ok afterCheck
  obtain ⟨keys, rfl⟩ := require_ok keying
  obtain ⟨rc, added, adding, afterAdd⟩ := Program.bind_ok afterKeys
  obtain ⟨_, required, requiring, generating⟩ := Program.bind_ok afterAdd
  obtain ⟨rfl, rfl⟩ := require_ok requiring
  have fresh : keyed.cache.outputs id = none := Option.not_isSome_iff_eq_none.mp (by simpa [outputExists] using absent)
  have adds := addOutput_true fresh (by rfl) (by rfl) adding
  have valid : output.isValid = true := by
    unfold addOutput at adding
    obtain ⟨written, _, writing, afterWrite⟩ := Program.bind_ok adding
    cases written with
    | false => cases (Program.pure_ok afterWrite).1
    | true => exact (writeOutput_true writing).1
  rcases Program.onlyIf_ok generating with ⟨generation, generating⟩ | ⟨plain, rfl⟩
  · have generates := addGenerationOutput_ok generating
    subst generation
    refine ⟨fresh, of_decide_eq_true keys, valid, ?_, ?_, ?_, ?_⟩
    · rw [generates.cache, adds.cache]
      rfl
    · rw [generates.tables, adds.tables]
      rfl
    · rw [generates.committed, adds.committed]
    · rw [generates.proposalData, adds.proposalData]
  · rw [Bool.not_eq_true] at plain
    subst plain
    exact ⟨fresh, of_decide_eq_true keys, valid, adds.cache, adds.tables, adds.committed, adds.proposalData⟩

/-! ## Owners -/

def ownerRows (environment : Environment) (id : Outpoint) (keys : List Key) (index : Index Nym) : Index Nym :=
  match keys with
  | [key] =>
    if key.subchain = .outgoing then index
    else
      match environment.owner key with
      | some owner => insert (owner, id) index
      | none => index
  | _ => index

def withOwners (environment : Environment) (id : Outpoint) (keys : List Key) (indexes : Indexes) : Indexes :=
  { indexes with nyms := ownerRows environment id keys indexes.nyms }

theorem addToNym_ok {nym : Nym} {id : Outpoint} {result : Unit} (ran : addToNym nym id before = (.ok result, after)) :
    Becomes before after (onIndexes (fun indexes => { indexes with nyms := insert (nym, id) indexes.nyms }) before.cache)
      (onIndexTables (fun indexes => { indexes with nyms := insert (nym, id) indexes.nyms }) before.tables) := by
  unfold addToNym at ran
  obtain ⟨cache, start, reading, afterRead⟩ := Program.bind_ok ran
  obtain ⟨rfl, rfl⟩ := readCache_ok reading
  obtain ⟨_, checked, checking, afterCheck⟩ := Program.bind_ok afterRead
  obtain ⟨_, rfl⟩ := require_ok checking
  obtain ⟨rc, stored, storing, afterStore⟩ := Program.bind_ok afterCheck
  obtain ⟨_, required, requiring, indexing⟩ := Program.bind_ok afterStore
  obtain ⟨rfl, rfl⟩ := require_ok requiring
  have wrote := store_true storing
  have became := changeIndexes_ok indexing
  refine ⟨?_, ?_, ?_, ?_⟩
  · rw [became.cache, wrote.cache]
    rfl
  · rw [became.tables, wrote.tables]
    rfl
  · rw [became.committed, wrote.committed]
  · rw [became.proposalData, wrote.proposalData]

theorem indexKeys_ok {environment : Environment} {id : Outpoint} {keys : List Key} {result : Unit}
    (ran : indexKeys environment id keys before = (.ok result, after)) :
    Becomes before after (onIndexes (withOwners environment id keys) before.cache)
      (onIndexTables (withOwners environment id keys) before.tables) := by
  unfold indexKeys at ran
  split at ran
  · rename_i key
    split at ran
    · rename_i outgoing
      obtain ⟨_, rfl⟩ := Program.pure_ok ran
      simp only [onIndexes, onIndexTables, withOwners, ownerRows, if_pos outgoing]
      exact Becomes.same after
    · rename_i incoming
      cases owned : environment.owner key with
      | none =>
        rw [owned] at ran
        exact absurd ran fun ran => Program.not_throw_ok ran
      | some owner =>
        rw [owned] at ran
        have became := addToNym_ok ran
        simpa only [onIndexes, onIndexTables, withOwners, ownerRows, if_neg incoming, owned] using became
  · exact absurd ran fun ran => Program.not_throw_ok ran

end Opentxs.Wallet.Tracking
