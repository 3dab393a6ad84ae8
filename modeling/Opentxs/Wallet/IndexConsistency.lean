import Opentxs.Wallet.Agreement
import Opentxs.Wallet.Failures

/-! Over runs: every output is found under its state and its position, and under the account, the
subchain, the owner and the keys it was stored with, and nowhere else; and the memory is what
loading makes of the tables. -/

namespace Opentxs.Wallet.IndexConsistency
open Library HeaderOracle BlockHeader Types Storage OutputCache Parsing Reports Outputs Tracking Associations Editing
open Effects Runs Failures Agreement

variable {environment : Environment}

/-! ## What is to hold -/

/-- Where an output was stored, and with which keys. -/
structure Origin where
  account : AccountID
  subchain : SubchainID
  keys : List Key

def Origin.home (origin : Origin) : AccountID × SubchainID := (origin.account, origin.subchain)

/-- Each output stands once in the index of states and once in that of positions, and in the
others where it was stored. -/
structure InPlace (environment : Environment) (origin : Outpoint → Origin) (outputs : Outpoint → Option Output)
    (indexes : Indexes) : Prop where
  states : ∀ state id, (state, id) ∈ indexes.states ↔ ∃ output, outputs id = some output ∧ output.state = state
  positions : ∀ position id, (position, id) ∈ indexes.positions ↔
    ∃ output, outputs id = some output ∧ output.minedPosition = position
  accounts : ∀ account id, (account, id) ∈ indexes.accounts ↔ (outputs id).isSome ∧ (origin id).account = account
  subchains : ∀ subchain id, (subchain, id) ∈ indexes.subchains ↔ (outputs id).isSome ∧ (origin id).subchain = subchain
  nyms : ∀ nym id, (nym, id) ∈ indexes.nyms ↔ (outputs id).isSome ∧ ownerOf environment (origin id).keys = some nym
  keys : ∀ key id, (key, id) ∈ indexes.keys ↔ (outputs id).isSome ∧ key ∈ (origin id).keys

/-- The memory is what is loaded. Generation outputs of one height may stand in another order. -/
structure Reloaded (cache fresh : OutputCache) : Prop where
  position : cache.position = fresh.position
  outputs : cache.outputs = fresh.outputs
  indexes : cache.indexes = fresh.indexes
  generation : cache.generationOutputs.Perm fresh.generationOutputs
  heights : ByHeight cache.generationOutputs
  outputToProposal : cache.outputToProposal = fresh.outputToProposal
  created : cache.createdByProposal = fresh.createdByProposal
  consumed : cache.consumedByProposal = fresh.consumedByProposal
  populated : cache.populated = fresh.populated

/-! ## Loading -/

def loadGeneration (generation : Index Int) : List (Int × Outpoint) :=
  (generationRows generation).foldl (fun entries row => emplaceGeneration row.1 row.2 entries) []

theorem loadGeneration_rows (generation : Index Int) : (loadGeneration generation).Perm (generationRows generation) := by
  have perm := loadGeneration_perm (generationRows generation) []
  rw [List.append_nil] at perm
  exact perm

theorem loadGeneration_byHeight (rows entries : List (Int × Outpoint)) (ordered : ByHeight entries) :
    ByHeight (rows.foldl (fun entries row => emplaceGeneration row.1 row.2 entries) entries) := by
  induction rows generalizing entries with
  | nil => exact ordered
  | cons row rows ih => exact ih _ (emplaceGeneration_byHeight ordered)

theorem populate_empty (tables : Tables) : populate tables {} =
    { position := tables.position
      outputs := tables.outputs
      indexes := tables.indexes
      generationOutputs := loadGeneration tables.generation
      outputToProposal := fun id => (tables.outputProposal id).toList
      createdByProposal := tables.proposalCreated
      consumedByProposal := tables.proposalSpent
      populated := true } := by
  rw [populate, if_neg Bool.false_ne_true]
  simp only [mergeIndexes, Finset.empty_union, Option.or_none, Option.none_or, List.nil_append]
  rfl

theorem populate_populated {tables : Tables} {cache : OutputCache} (populated : cache.populated = true) :
    populate tables cache = cache := by
  rw [populate, if_pos populated]

variable {home : Outpoint → AccountID × SubchainID} {session : Session}

theorem consistent_indexes (consistent : Consistent environment home session) :
    session.cache.indexes = session.tables.indexes := by
  obtain ⟨_, _, accounts, keys, nyms, states, subchains, _⟩ := consistent.orderly.mirrored
  have positions := consistent.positions
  cases cache : session.cache.indexes with
  | mk a k n p s c =>
    rw [cache] at accounts keys nyms positions states subchains
    cases tables : session.tables.indexes with
    | mk a' k' n' p' s' c' =>
      rw [tables] at accounts keys nyms positions states subchains
      subst accounts keys nyms positions states subchains
      rfl

theorem consistent_reloaded (consistent : Consistent environment home session) :
    Reloaded session.cache (populate session.tables {}) := by
  have mirrored := consistent.orderly.mirrored
  have generations := consistent.generations
  rw [populate_empty]
  refine ⟨mirrored.position, mirrored.outputs, consistent_indexes consistent, ?_, generations.ordered, ?_,
    consistent.created, consistent.consumed, mirrored.populated⟩
  · refine List.Perm.trans ?_ (loadGeneration_rows _).symm
    refine (List.perm_ext_iff_of_nodup generations.distinct (generationRows_nodup _)).mpr fun entry => ?_
    rw [generations.same, mem_generationRows]
  · funext id
    exact consistent.single id

/-- The tables alone carry all of it. -/
theorem consistent_fresh (consistent : Consistent environment home session) (committed : session.committed = session.tables)
    (data : ProposalData) : Consistent environment home (start ⟨session.tables, {}, data⟩ []) := by
  have mirrored := consistent.orderly.mirrored
  have indexes := consistent_indexes consistent
  have filed := consistent.orderly.committed
  have isIndexed := consistent.indexed
  have generations := consistent.generations
  rw [committed] at filed
  rw [mirrored.outputs, indexes] at isIndexed
  have loaded : (start ⟨session.tables, {}, data⟩ []).cache = _ := populate_empty session.tables
  refine ⟨⟨?_, ?_, filed⟩, ?_, ?_, ?_, ?_, ?_, ?_⟩
  · rw [loaded]
    exact ⟨rfl, rfl, rfl, rfl, rfl, rfl, rfl, rfl⟩
  · rw [loaded]
    exact filed
  · rw [loaded]
    exact isIndexed
  · rw [loaded]
    rfl
  · rw [loaded]
    intro id
    rfl
  · rw [loaded]
    rfl
  · rw [loaded]
    rfl
  · rw [loaded]
    have perm := loadGeneration_rows session.tables.generation
    constructor
    · exact loadGeneration_byHeight _ [] List.Pairwise.nil
    · exact perm.nodup_iff.mpr (generationRows_nodup _)
    · intro entry
      rw [perm.mem_iff, mem_generationRows]
      exact Iff.rfl
    · intro entry member
      have there := (mem_generationRows _ _).mp (perm.mem_iff.mp member)
      have stored := generations.stored entry ((generations.same entry).mpr there)
      rw [mirrored.outputs] at stored
      exact stored

/-! ## The condition -/

theorem moves_mentioned {items : BlockMatches} {id : Outpoint} {old : TxoState}
    (moved : moves (some old) (ReportsCreated items id) (Spends items id) = true) : id ∈ mentioned items := by
  by_cases spent : Spends items id
  · exact spent_mentioned spent
  · by_cases created : ReportsCreated items id
    · exact created_mentioned created
    · rw [decide_eq_false spent, decide_eq_false created] at moved
      cases old <;> cases moved

instance (session : Session) (entry : Position × BlockMatches) : Decidable (MovesCommitted session entry) :=
  decidable_of_iff (∀ id ∈ mentioned entry.2, ∀ old ∈ session.cache.outputs id,
      moves (some old.state) (ReportsCreated entry.2 id) (Spends entry.2 id) = true → entry.1 ≠ old.minedPosition →
        Index.rows session.committed.indexes.positions old.minedPosition ≠ ∅) (by
    constructor
    · intro all id old found moved
      exact all id (moves_mentioned moved) old found moved
    · intro all id _ old found
      exact all id old found)

instance (environment : Environment) (session : Session) (operation : Operation) :
    Decidable (Tidy environment session operation) := by
  unfold Tidy
  cases operation with
  | addConfirmedTransactions account subchain transactions => exact inferInstanceAs (Decidable (Program.Throughout _ _ _ _))
  | reserveUTXO spender proposal policy =>
    exact decidable_of_iff (∀ id ∈ selectOutput session.cache spender policy, session.cache.outputToProposal id = []) Iff.rfl
  | reserveOutpoint spender proposal id => exact inferInstanceAs (Decidable (_ = _))
  | reorg blocks ancestor committed =>
    exact inferInstanceAs (Decidable (getPosition session.cache ≠ ancestor → List.length _ ≤ 1))
  | _ => exact inferInstanceAs (Decidable True)

/-- A reorg has nothing to do: nothing that it looks at can be rolled back, and the wallet stands
at the ancestor already. -/
def NothingToRollBack (cache : OutputCache) (blocks : List (SubchainID × Position)) (ancestor : Position) : Prop :=
  (∀ entry ∈ blocks, ∀ id ∈ rollingBack cache entry, ∀ output, cache.outputs id = some output →
    unconfirmedState output.state = none) ∧ getPosition cache = ancestor

instance (cache : OutputCache) (blocks : List (SubchainID × Position)) (ancestor : Position) :
    Decidable (NothingToRollBack cache blocks ancestor) :=
  decidable_of_iff ((∀ entry ∈ blocks, ∀ id ∈ rollingBack cache entry, ∀ output ∈ cache.outputs id,
    unconfirmedState output.state = none) ∧ getPosition cache = ancestor) Iff.rfl

/-- Every reorg is committed, unless it has nothing to do. -/
def Settled (cache : OutputCache) (operation : Operation) : Prop :=
  match operation with
  | .reorg blocks ancestor false => NothingToRollBack cache blocks ancestor
  | _ => True

instance (cache : OutputCache) (operation : Operation) : Decidable (Settled cache operation) := by
  unfold Settled
  split
  · exact inferInstanceAs (Decidable (NothingToRollBack _ _ _))
  · exact inferInstanceAs (Decidable True)

/-- The call starts to change the wallet and fails. -/
def Fails (environment : Environment) (db : Database) (call : Call) : Prop :=
  ∃ outcome, execute environment db call = .ok outcome ∧ outcome.success = false

/-- The blocks of a batch move outputs from committed positions only, no output that has a
proposal is reserved, a reorg is committed and finds at most one generation output at its
ancestor's height, and a call that fails finds nothing that its clearing would leave behind. -/
def KeepsAgreement (environment : Environment) (db : Database) (call : Call) : Prop :=
  Tidy environment (start db call.writes) call.operation ∧ Settled (populate db.tables db.cache) call.operation ∧
    (Fails environment db call → Idle db ∧ StopsEarly environment db call)

/-! ## One call -/

/-- Where the outputs were stored: a call stores those that were not there before. -/
def originAfter (environment : Environment) (db : Database) (call : Call) (after : Database) (origin : Outpoint → Origin)
    (id : Outpoint) : Origin :=
  if (stored db id).isSome then origin id
  else
    { account := (Runs.home environment call.operation id).1
      subchain := (Runs.home environment call.operation id).2
      keys := ((stored after id).map Output.keys).getD [] }

structure Agrees (environment : Environment) (origin : Outpoint → Origin) (db : Database) : Prop where
  consistent : Consistent environment (fun id => (origin id).home) (start db [])
  keys : ∀ id output, stored db id = some output → output.keys = (origin id).keys

theorem indexed_rehome {outputs : Outpoint → Option Output} {indexes : Indexes} {other : Outpoint → AccountID × SubchainID}
    (same : ∀ id, (outputs id).isSome = true → other id = home id) (isIndexed : Indexed environment home outputs indexes) :
    Indexed environment other outputs indexes := by
  obtain ⟨states, positions, accounts, subchains, nyms, keys⟩ := isIndexed
  refine ⟨states, positions, fun account id => ?_, fun subchain id => ?_, nyms, keys⟩
  · rw [accounts]
    apply and_congr_right
    intro present
    rw [same id present]
  · rw [subchains]
    apply and_congr_right
    intro present
    rw [same id present]

theorem consistent_rehome {other : Outpoint → AccountID × SubchainID}
    (same : ∀ id, (session.cache.outputs id).isSome = true → other id = home id)
    (consistent : Consistent environment home session) : Consistent environment other session :=
  { consistent with indexed := indexed_rehome same consistent.indexed }

theorem consistent_placed (consistent : Consistent environment home session)
    (committed : session.committed = session.tables) : Placed session := by
  intro id output found
  have row : (output.minedPosition, id) ∈ session.cache.indexes.positions :=
    (consistent.indexed.positions _ id).mpr ⟨output, found, rfl⟩
  rw [committed, ← consistent.positions]
  exact Finset.ne_empty_of_mem ((Index.mem_rows _ _ _).mpr row)

/-- A rollback that finds nothing to do changes nothing. -/
theorem startReorg_same {entry : SubchainID × Position} {before after : Session} {result : Unit}
    (nothing : ∀ id ∈ rollingBack before.cache entry, ∀ output, before.cache.outputs id = some output →
      unconfirmedState output.state = none) (ran : startReorg entry before = (.ok result, after)) : after = before := by
  unfold startReorg at ran
  obtain ⟨cache, start, reading, rolling⟩ := Program.bind_ok ran
  obtain ⟨rfl, rfl⟩ := readCache_ok reading
  have each : ∀ (ids : List Outpoint), (∀ id ∈ ids, id ∈ rollingBack start.cache entry) → ∀ last,
      Program.forEach (rollBack entry.2) ids start = (.ok (), last) → last = start := by
    intro ids
    induction ids with
    | nil =>
      intro _ last ran
      exact (Program.pure_ok ran).2
    | cons id ids ih =>
      intro inside last ran
      obtain ⟨_, middle, first, rest⟩ := Program.bind_ok ran
      have stays : middle = start := by
        unfold rollBack at first
        obtain ⟨cache, early, reading, afterRead⟩ := Program.bind_ok first
        obtain ⟨rfl, rfl⟩ := readCache_ok reading
        obtain ⟨output, loaded, loading, afterLoad⟩ := Program.bind_ok afterRead
        obtain ⟨got, rfl⟩ := Program.lift_ok loading
        rw [nothing id (inside id List.mem_cons_self) output (getOutput_ok got).1] at afterLoad
        exact (Program.pure_ok afterLoad).2
      rw [stays] at rest
      exact ih (fun other member => inside other (List.mem_cons_of_mem id member)) last rest
  exact each _ (fun id member => (SortedList.mem_ordered _ _).mp member) after rolling

theorem reorg_same {blocks : List (SubchainID × Position)} {ancestor : Position} {before after : Session} {result : Unit}
    (nothing : NothingToRollBack before.cache blocks ancestor)
    (ran : reorg blocks ancestor false before = (.ok result, after)) : after = before := by
  obtain ⟨still, there⟩ := nothing
  unfold reorg at ran
  obtain ⟨_, started, starting, afterStart⟩ := Program.bind_ok ran
  obtain ⟨_, finalized, finalizing, committing⟩ := Program.bind_ok afterStart
  have starts : started = before := by
    clear finalizing committing afterStart ran
    induction blocks generalizing started with
    | nil => exact (Program.pure_ok starting).2
    | cons entry blocks ih =>
      obtain ⟨_, middle, first, rest⟩ := Program.bind_ok starting
      have stays : middle = before := startReorg_same (still entry List.mem_cons_self) first
      rw [stays] at rest
      exact ih (fun other member => still other (List.mem_cons_of_mem entry member)) started rest
  rw [starts] at finalizing
  have finishes : finalized = before := by
    unfold finalizeReorg at finalizing
    obtain ⟨cache, start, reading, afterRead⟩ := Program.bind_ok finalizing
    obtain ⟨rfl, rfl⟩ := readCache_ok reading
    rcases Program.onlyIf_ok afterRead with ⟨differs, _⟩ | ⟨_, same⟩
    · exact absurd there differs
    · exact same
  rcases Program.onlyIf_ok committing with ⟨commits, _⟩ | ⟨_, same⟩
  · cases commits
  · rw [same, finishes]

/-- What is in the tables when a call returns is what was committed. -/
theorem consistent_committed (consistent : Consistent environment home session)
    (committed : session.committed = session.tables) :
    Consistent environment home (start ⟨session.committed, session.cache, session.proposalData⟩ []) := by
  have loaded : (start ⟨session.committed, session.cache, session.proposalData⟩ []).cache = session.cache :=
    populate_populated consistent.orderly.mirrored.populated
  have tables : (start ⟨session.committed, session.cache, session.proposalData⟩ []).tables = session.tables := committed
  refine ⟨⟨?_, ?_, consistent.orderly.committed⟩, ?_, ?_, ?_, ?_, ?_, ?_⟩
  · rw [loaded, tables]
    exact consistent.orderly.mirrored
  · rw [loaded]
    exact consistent.orderly.filed
  · rw [loaded]
    exact consistent.indexed
  · rw [loaded, tables]
    exact consistent.positions
  · rw [loaded, tables]
    exact consistent.single
  · rw [loaded, tables]
    exact consistent.created
  · rw [loaded, tables]
    exact consistent.consumed
  · rw [loaded, tables]
    exact consistent.generations

theorem consistent_start {db : Database} (consistent : Consistent environment home (start db [])) (writes : List Bool) :
    Consistent environment home (start db writes) :=
  ⟨⟨consistent.orderly.mirrored, consistent.orderly.filed, consistent.orderly.committed⟩, consistent.indexed,
    consistent.positions, consistent.single, consistent.created, consistent.consumed, consistent.generations⟩

/-- When stored outputs keep their keys, it remains to be shown that the memory agrees with the
tables. -/
theorem agrees_after {origin : Outpoint → Origin} {db after : Database} {call : Call}
    (agrees : Agrees environment origin db)
    (keeps : ∀ id output, stored db id = some output → ∃ later, stored after id = some later ∧ later.keys = output.keys)
    (consistent : Consistent environment (fun id => (originAfter environment db call after origin id).home) (start after [])) :
    Agrees environment (originAfter environment db call after origin) after := by
  refine ⟨consistent, fun id output found => ?_⟩
  unfold originAfter
  cases before : stored db id with
  | none =>
    rw [if_neg (by rw [Option.isSome_none]; exact Bool.false_ne_true), found]
    rfl
  | some old =>
    rw [if_pos (by rw [Option.isSome_some])]
    obtain ⟨later, there, same⟩ := keeps id old before
    rw [found] at there
    cases there
    rw [same, agrees.keys id old before]

/-- A call that changes nothing of the outputs leaves them where they were stored. -/
theorem agrees_unchanged {origin : Outpoint → Origin} {db after : Database} {call : Call}
    (agrees : Agrees environment origin db) (same : ∀ id, stored after id = stored db id)
    (consistent : Consistent environment (fun id => (origin id).home) (start after [])) :
    Agrees environment (originAfter environment db call after origin) after := by
  refine agrees_after agrees (fun id output found => ⟨output, (same id).trans found, rfl⟩) ?_
  refine consistent_rehome (fun id present => ?_) consistent
  replace present : (stored db id).isSome = true := same id ▸ present
  rw [originAfter, if_pos present]

/-- A reorg that is not committed can be so only if it has nothing to do. -/
theorem settled_or_commits {cache : OutputCache} {call : Call} (settled : Settled cache call.operation) :
    Commits call ∨ ∃ blocks ancestor, call.operation = .reorg blocks ancestor false ∧
      NothingToRollBack cache blocks ancestor := by
  by_cases uncommitted : ∃ blocks ancestor, call.operation = .reorg blocks ancestor false
  · obtain ⟨blocks, ancestor, operation⟩ := uncommitted
    rw [operation] at settled
    exact Or.inr ⟨blocks, ancestor, operation, settled⟩
  · exact Or.inl fun blocks ancestor is => uncommitted ⟨blocks, ancestor, is⟩

theorem body_agrees {origin : Outpoint → Origin} {db : Database} {call : Call} {after : Session}
    {reserved : Option (Outpoint × Output)} (agrees : Agrees environment origin db)
    (keeps : KeepsAgreement environment db call)
    (ran : body environment call (start db call.writes) = (.ok reserved, after)) :
    Agrees environment (originAfter environment db call ⟨after.committed, after.cache, after.proposalData⟩ origin)
      ⟨after.committed, after.cache, after.proposalData⟩ := by
  obtain ⟨tidy, settled, _⟩ := keeps
  have starts := consistent_start agrees.consistent call.writes
  have fresh : (start db call.writes).committed = (start db call.writes).tables := rfl
  rcases settled_or_commits settled with commits | ⟨blocks, ancestor, operation, nothing⟩
  · obtain ⟨edits, same⟩ := @body_ok _ _ environment call _ True commits fresh
      (fun _ => consistent_placed starts fresh) (fun _ => tidy) ran
    have kept := edits_keep edits
    have remains : ∀ id, stored ⟨after.committed, after.cache, after.proposalData⟩ id = after.cache.outputs id := by
      intro id
      have populated := (edits_orderly edits starts.orderly).mirrored.populated
      unfold stored
      rw [populate_populated populated]
    refine agrees_after agrees (fun id output found => ?_) ?_
    · obtain ⟨later, there, keys⟩ := kept id output found
      exact ⟨later, (remains id).trans there, keys⟩
    · refine consistent_committed (edits_consistent trivial (fun id absent => ?_) edits ?_) same
      · have unstored : stored db id = none := absent
        rw [originAfter, if_neg (by rw [unstored]; exact Bool.false_ne_true)]
        rfl
      · refine consistent_rehome (fun id present => ?_) starts
        have isStored : (stored db id).isSome = true := present
        rw [originAfter, if_pos isStored]
  · unfold body at ran
    rw [operation] at ran
    obtain ⟨_, middle, reorganizing, returned⟩ := Program.bind_ok ran
    obtain ⟨_, rfl⟩ := Program.pure_ok returned
    have same : after = start db call.writes := reorg_same nothing reorganizing
    rw [same]
    have loads : populate db.tables (populate db.tables db.cache) = populate db.tables db.cache :=
      populate_populated agrees.consistent.orderly.mirrored.populated
    refine agrees_unchanged agrees (fun id => ?_) (consistent_committed starts fresh)
    show (populate db.tables (populate db.tables db.cache)).outputs id = (populate db.tables db.cache).outputs id
    rw [loads]

theorem perform_agrees {origin : Outpoint → Origin} {db : Database} {call : Call} {outcome : Outcome}
    (agrees : Agrees environment origin db) (keeps : KeepsAgreement environment db call)
    (performed : perform environment db call = .ok outcome) :
    Agrees environment (originAfter environment db call outcome.db origin) outcome.db := by
  cases success : outcome.success with
  | true =>
    rcases perform_success performed success with ⟨id, content, _, rfl⟩ | ⟨reserved, after, ran, rfl⟩
    · -- only a proposal is stored
      refine agrees_unchanged agrees (fun _ => rfl) ?_
      have consistent := agrees.consistent
      exact ⟨⟨⟨consistent.orderly.mirrored.populated, consistent.orderly.mirrored.outputs, consistent.orderly.mirrored.accounts,
          consistent.orderly.mirrored.keys, consistent.orderly.mirrored.nyms, consistent.orderly.mirrored.states,
          consistent.orderly.mirrored.subchains, consistent.orderly.mirrored.position⟩,
        consistent.orderly.filed, consistent.orderly.committed⟩, consistent.indexed, consistent.positions, consistent.single,
        consistent.created, consistent.consumed, consistent.generations⟩
    · exact body_agrees agrees keeps ran
  | false =>
    have stays : outcome.db = db → Agrees environment (originAfter environment db call outcome.db origin) outcome.db := by
      intro same
      rw [same]
      exact agrees_unchanged agrees (fun _ => rfl) agrees.consistent
    unfold perform at performed
    split at performed
    · split at performed
      · cases performed
        cases success
      · cases performed
        exact stays rfl
    · split at performed
      · cases performed
        exact stays rfl
      · obtain ⟨idle, early⟩ := keeps.2.2 ⟨outcome, performed, success⟩
        obtain ⟨tables, reloads⟩ := failed_call_clean performed success idle early
        have loaded := consistent_fresh agrees.consistent rfl outcome.db.proposalData
        have same : start outcome.db [] = start ⟨db.tables, {}, outcome.db.proposalData⟩ [] := by
          unfold start
          rw [reloads, tables]
        refine agrees_unchanged agrees (fun id => ?_) ?_
        · have outputs := agrees.consistent.orderly.mirrored.outputs
          unfold stored
          rw [reloads, tables, populate_empty]
          exact (congrFun outputs id).symm
        · rw [same]
          exact loaded

/-! ## Runs -/

/-- Where the outputs were stored in the course of a run. -/
def origins (environment : Environment) (db : Database) (origin : Outpoint → Origin) : List Call → Outpoint → Origin
  | [] => origin
  | call :: calls =>
    match perform environment db call with
    | .ok outcome => origins environment outcome.db (originAfter environment db call outcome.db origin) calls
    | .error _ => origin

theorem run_agrees {calls : List Call} : ∀ {origin : Outpoint → Origin} {db final : Database},
    Agrees environment origin db → Along environment (KeepsAgreement environment) db calls →
      run environment db calls = .ok final → Agrees environment (origins environment db origin calls) final := by
  induction calls with
  | nil =>
    intro origin db final agrees _ ran
    cases ran
    exact agrees
  | cons call calls ih =>
    intro origin db final agrees along ran
    obtain ⟨here, later⟩ := along
    unfold run at ran
    unfold origins
    cases performed : perform environment db call with
    | error fault =>
      rw [performed] at ran
      cases ran
    | ok outcome =>
      rw [performed] at ran later
      exact ih (perform_agrees agrees here performed) later ran

theorem consistent_nothing (home : Outpoint → AccountID × SubchainID) :
    Consistent environment home { committed := {}, tables := {}, cache := { populated := true }, proposalData := {}, writes := [] } := by
  refine ⟨⟨⟨rfl, rfl, rfl, rfl, rfl, rfl, rfl, rfl⟩, sound_empty.filed, sound_empty.filed⟩, ?_, rfl, fun _ => rfl, rfl, rfl, ?_⟩
  · constructor <;> intro key id <;> simp
  · exact ⟨List.Pairwise.nil, List.nodup_nil, fun entry => by simp, nofun⟩

theorem agrees_empty (origin : Outpoint → Origin) : Agrees environment origin {} :=
  ⟨consistent_fresh (consistent_nothing _) rfl {}, nofun⟩

theorem agrees_inPlace {origin : Outpoint → Origin} {db : Database} (agrees : Agrees environment origin db) :
    InPlace environment origin (stored db) (populate db.tables db.cache).indexes := by
  obtain ⟨states, positions, accounts, subchains, nyms, keys⟩ := agrees.consistent.indexed
  have known : ∀ (holds : List Key → Prop) id, (∃ output, stored db id = some output ∧ holds output.keys) ↔
      (stored db id).isSome = true ∧ holds (origin id).keys := by
    intro holds id
    cases found : stored db id with
    | none => simp
    | some output =>
      rw [← agrees.keys id output found]
      simp
  refine ⟨states, positions, accounts, subchains, fun nym id => ?_, fun key id => ?_⟩
  · exact (nyms nym id).trans (known (fun keys => ownerOf environment keys = some nym) id)
  · exact (keys key id).trans (known (fun keys => key ∈ keys) id)

/-- In every reached state the outputs are indexed as they are and as they were stored, in the
tables and in memory, and the memory is what loading makes of the tables. -/
theorem indexes_consistent {calls : List Call} {db : Database} (ran : run environment {} calls = .ok db)
    (keeps : Along environment (KeepsAgreement environment) {} calls) (origin : Outpoint → Origin) :
    InPlace environment (origins environment {} origin calls) db.tables.outputs db.tables.indexes ∧
      InPlace environment (origins environment {} origin calls) (stored db) (populate db.tables db.cache).indexes ∧
      Reloaded (populate db.tables db.cache) (populate db.tables {}) := by
  have agrees := run_agrees (agrees_empty origin) keeps ran
  have inMemory := agrees_inPlace agrees
  have outputs : stored db = db.tables.outputs := agrees.consistent.orderly.mirrored.outputs
  have indexes : (populate db.tables db.cache).indexes = db.tables.indexes := consistent_indexes agrees.consistent
  refine ⟨?_, inMemory, consistent_reloaded agrees.consistent⟩
  rw [← outputs, ← indexes]
  exact inMemory

/-! ## Runs in which nothing fails -/

theorem not_fails {db : Database} {call : Call} {outcome : Outcome} (performed : perform environment db call = .ok outcome)
    (success : outcome.success = true) : ¬ Fails environment db call := by
  rintro ⟨failed, executed, fails⟩
  have returns : ∃ reserved session, body environment call (start db call.writes) = (.ok reserved, session) := by
    rcases perform_success performed success with ⟨id, content, operation, _⟩ | ⟨reserved, session, ran, _⟩
    · refine ⟨none, start db call.writes, ?_⟩
      rw [body, operation]
      rfl
    · exact ⟨reserved, session, ran⟩
  obtain ⟨reserved, session, ran⟩ := returns
  rw [execute, ran] at executed
  cases executed
  cases fails

theorem succeeds_run {calls : List Call} : ∀ {db final : Database}, succeeds environment db calls = some final →
    Along environment (fun db call => Tidy environment (start db call.writes) call.operation ∧
      Settled (populate db.tables db.cache) call.operation) db calls →
      run environment db calls = .ok final ∧ Along environment (KeepsAgreement environment) db calls := by
  induction calls with
  | nil =>
    intro db final ran _
    cases ran
    exact ⟨rfl, trivial⟩
  | cons call calls ih =>
    intro db final ran along
    obtain ⟨outcome, performed, success, rest⟩ := succeeds_cons ran
    obtain ⟨⟨tidy, settled⟩, later⟩ := along
    rw [performed] at later
    obtain ⟨runs, keeps⟩ := ih rest later
    refine ⟨?_, ⟨tidy, settled, fun fails => absurd fails (not_fails performed success)⟩, ?_⟩
    · rw [run, performed]
      exact runs
    · rw [performed]
      exact keeps

/-- The payment is mined and spent, the spending block is rolled back, and the wallet grows on. -/
def rolledBackPurchase : List Call :=
  [addBlock 1 [⟨[], [0], payment⟩], addBlock 2 [⟨[0], [], purchase⟩],
    { operation := .reorg [(1, ⟨2, 2⟩)] ⟨1, 1⟩ true }, advance 101]

theorem rolled_back_purchase_consistent : ∃ db, run household {} rolledBackPurchase = .ok db ∧
    Reloaded (populate db.tables db.cache) (populate db.tables {}) := by
  have evaluated : ((succeeds household {} rolledBackPurchase).map fun _ =>
      decide (Along household (fun db call => Tidy household (start db call.writes) call.operation ∧
        Settled (populate db.tables db.cache) call.operation) {} rolledBackPurchase)) = some true := by decide +kernel
  cases ran : succeeds household {} rolledBackPurchase with
  | none =>
    rw [ran] at evaluated
    cases evaluated
  | some db =>
    rw [ran] at evaluated
    obtain ⟨runs, keeps⟩ := succeeds_run ran (of_decide_eq_true (Option.some.inj evaluated))
    exact ⟨db, runs, (indexes_consistent runs keeps fun _ => ⟨0, 0, []⟩).2.2⟩

/-- The second block of the batch spends what the first one pays. -/
def paidAndSpentAtOnce : List Call :=
  [{ operation := .addConfirmedTransactions 1 1
      [(⟨1, 1⟩, [⟨[], [0], payment⟩]), (⟨2, 2⟩, [⟨[0], [], purchase⟩])] }]

/-- Nothing stood at block 1 when the tables were last committed, so the row of the payment there
is left in the table when the payment moves to block 2. -/
theorem position_row_left : ∃ db, run household {} paidAndSpentAtOnce = .ok db ∧
    ∀ origin, ¬ InPlace household origin db.tables.outputs db.tables.indexes := by
  have evaluated : ((run household {} paidAndSpentAtOnce).toOption.map fun db =>
      (decide (((⟨1, 1⟩ : Position), (⟨1, 0⟩ : Outpoint)) ∈ db.tables.indexes.positions),
        (db.tables.outputs ⟨1, 0⟩).map Output.minedPosition)) = some (true, some ⟨2, 2⟩) := by decide +kernel
  cases ran : run household {} paidAndSpentAtOnce with
  | error fault =>
    rw [ran] at evaluated
    cases evaluated
  | ok db =>
    rw [ran] at evaluated
    simp only [Except.toOption, Option.map_some, Option.some.injEq, Prod.mk.injEq, decide_eq_true_eq] at evaluated
    obtain ⟨left, moved⟩ := evaluated
    refine ⟨db, rfl, fun origin inPlace => ?_⟩
    obtain ⟨output, found, position⟩ := (inPlace.positions _ _).mp left
    rw [found, Option.map_some, position] at moved
    cases moved

end Opentxs.Wallet.IndexConsistency
