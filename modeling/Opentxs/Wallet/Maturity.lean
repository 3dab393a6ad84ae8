import Opentxs.Wallet.Presentations

/-! The outputs of generation transactions wait for their maturity where they were mined. An advance that
matures one of them moves it to its own position. -/

namespace Opentxs.Wallet.Maturity
open Library HeaderOracle BlockHeader Types Storage OutputCache Parsing Reports Outputs Tracking Editing Effects Runs
open Generations SpentStays Histories Presentations

variable {environment : Environment} {blocks : BatchedMatches} {unconfirmed : BlockMatches} {history : History}
variable {before after : Session} {id : Outpoint}

/-! ## Blocks and unconfirmed transactions -/

/-- A transaction is known by its id, and stands in one block. -/
structure Genuine (blocks : BatchedMatches) (unconfirmed : BlockMatches) : Prop where
  heights : ∀ block ∈ blocks, 0 ≤ block.1.height
  once : ∀ first ∈ blocks, ∀ second ∈ blocks, ∀ item ∈ first.2, ∀ other ∈ second.2,
    item.transaction.id = other.transaction.id → first.1 = second.1 ∧ item.transaction = other.transaction
  known : ∀ item ∈ unconfirmed, ∀ block ∈ blocks, ∀ other ∈ block.2,
    item.transaction.id = other.transaction.id → item.transaction = other.transaction

theorem Genuine.created (genuine : Genuine blocks unconfirmed) {first second : Position × BlockMatches}
    (inFirst : first ∈ blocks) (inSecond : second ∈ blocks) (early : ReportsCreated first.2 id)
    (late : ReportsCreated second.2 id) : first.1 = second.1 ∧ (Generates first.2 id → Generates second.2 id) := by
  obtain ⟨_, item, member, same, _, _⟩ := early
  obtain ⟨_, other, otherMember, otherSame, matched, _⟩ := late
  refine ⟨(genuine.once first inFirst second inSecond item member other otherMember (same.trans otherSame.symm)).1, ?_⟩
  rintro ⟨generating, inBlock, generation, isSame, _⟩
  have transaction := (genuine.once first inFirst second inSecond generating inBlock other otherMember
    (isSame.trans otherSame.symm)).2
  exact ⟨other, otherMember, transaction ▸ generation, otherSame, matched⟩

/-- What an unconfirmed transaction creates that generates nothing, no block generates. -/
theorem Genuine.drafted (genuine : Genuine blocks unconfirmed) {item : MatchedTransaction} (seen : item ∈ unconfirmed)
    (created : ReportsCreated [item] id) (ordinary : ¬ Generates [item] id) : ¬ GeneratedIn blocks id := by
  rintro ⟨block, inBlocks, other, otherMember, generation, otherSame, _⟩
  obtain ⟨_, creating, alone, same, matched, _⟩ := created
  rw [List.mem_singleton.mp alone] at same matched
  have transaction := genuine.known item seen block inBlocks other otherMember (same.trans otherSame.symm)
  exact ordinary ⟨item, List.mem_singleton_self item, transaction ▸ generation, same, matched⟩

theorem mem_rows {rows : Index Position} {position : Position} {outputs : Finset Outpoint} {row : Position × Outpoint} :
    row ∈ rows ∪ ({position} : Finset Position) ×ˢ outputs ↔ row ∈ rows ∨ row.1 = position ∧ row.2 ∈ outputs := by
  rw [Finset.mem_union, Finset.mem_product, Finset.mem_singleton]

/-! ## Where the outputs were mined -/

/-- Until a block spends it, an output that was generated is stored with the position of its block. -/
structure Located (blocks : BatchedMatches) (history : History) (cache : OutputCache) : Prop where
  rows : ∀ row ∈ history.generated, ∃ block ∈ blocks, block.1 = row.1 ∧ row.2 ∈ generatedOutputs block.2
  mined : ∀ row ∈ history.mined, ∃ block ∈ blocks, block.1 = row.1 ∧ ReportsCreated block.2 row.2 ∧
    (Generates block.2 row.2 → row ∈ history.generated)
  drafted : ∀ id ∈ history.drafted, ¬ GeneratedIn blocks id
  known : ∀ id, cache.outputs id ≠ none → id ∈ history.minedOutputs ∨ id ∈ history.drafted
  positions : ∀ row ∈ history.generated, row.2 ∉ history.spentOutputs → ∀ output, cache.outputs row.2 = some output →
    output.minedPosition = row.1

/-- A stored output that a block generates is one that this block has generated before. -/
theorem Located.again {cache : OutputCache} (located : Located blocks history cache) (genuine : Genuine blocks unconfirmed)
    {entry : Position × BlockMatches} (belongs : entry ∈ blocks) (generated : id ∈ generatedOutputs entry.2)
    (stored : cache.outputs id ≠ none) : (entry.1, id) ∈ history.generated := by
  obtain ⟨created, generates⟩ := (mem_generatedOutputs _ _).mp generated
  rcases located.known id stored with mined | drafted
  · obtain ⟨row, member, rfl⟩ := Finset.mem_image.mp mined
    obtain ⟨block, inBlocks, same, reports, enters⟩ := located.mined row member
    obtain ⟨here, also⟩ := genuine.created belongs inBlocks created reports
    rw [here, same]
    exact enters (also generates)
  · exact absurd ⟨entry, belongs, generates⟩ (located.drafted id drafted)

/-- What is mined is not taken for unconfirmed. -/
theorem not_unconfirmed {target : Int} (mined : id ∈ history.minedOutputs) :
    history.stateOf target id ≠ some .unconfirmedNew := by
  unfold History.stateOf
  rw [if_pos mined]
  split
  · nofun
  · split
    · nofun
    · split <;> nofun

theorem generated_stored {target : Int} {cache : OutputCache} (tells : Tells target history cache)
    {row : Position × Outpoint} (member : row ∈ history.generated) : ∃ output, cache.outputs row.2 = some output := by
  have mined := tells.generatedMined row member
  cases found : cache.outputs row.2 with
  | some output => exact ⟨output, rfl⟩
  | none =>
    have nothing := tells.states row.2
    rw [found] at nothing
    exact absurd mined (History.not_mined_of_none nothing.symm)

theorem block_located {account : AccountID} {subchain : SubchainID} {entry : Position × BlockMatches} {result : Unit}
    (genuine : Genuine blocks unconfirmed) (belongs : entry ∈ blocks)
    (tells : Tells environment.maturationTarget history before.cache) (located : Located blocks history before.cache)
    (ran : addTransactionsInBlock environment account subchain false entry before = (.ok result, after)) :
    Located blocks (history.addBlock entry) after.cache := by
  obtain ⟨generation, parsed, isParsed, _, outcomes, _⟩ := block_generation ran
  have confirmed := createdState_confirmed entry.1 generation before.cache environment.maturationTarget
  -- what the block does to an output that it does not spend
  have moved : ∀ id modification, parsed.transaction.find? id = some modification → ¬ Spends entry.2 id →
      ((before.cache.outputs id).map Output.state = none ∨ (before.cache.outputs id).map Output.state = some .unconfirmedNew) ∧
        (modification.finalState = .confirmedNew ∨ modification.finalState = .immature) := by
    intro id modification found unspent
    have reported := isParsed.reported id
    rw [found] at reported
    have moved := reported_isSome (confirmed id) reported
    rw [decide_eq_false unspent] at moved
    have notOrphaned : (before.cache.outputs id).map Output.state ≠ some .orphanedNew := by
      rw [tells.states]
      exact stateOf_not_orphaned id
    have final := reported_final (confirmed id) reported
    rw [if_neg unspent] at final
    rw [final]
    exact ⟨(moved_unspent moved.symm notOrphaned).2, confirmed id⟩
  refine ⟨fun row member => ?_, fun row member => ?_, located.drafted, fun id stored => ?_, fun row member unspent output is => ?_⟩
  · rcases mem_rows.mp member with early | ⟨here, generated⟩
    · exact located.rows row early
    · exact ⟨entry, belongs, here.symm, generated⟩
  · rcases mem_rows.mp member with early | ⟨here, created⟩
    · obtain ⟨block, inBlocks, same, reports, enters⟩ := located.mined row early
      exact ⟨block, inBlocks, same, reports, fun generates => mem_rows.mpr (Or.inl (enters generates))⟩
    · have reports := (mem_createdOutputs _ _).mp created
      exact ⟨entry, belongs, here.symm, reports, fun generates =>
        mem_rows.mpr (Or.inr ⟨here, (mem_generatedOutputs _ _).mpr ⟨reports, generates⟩⟩)⟩
  · rw [History.mem_mined_addBlock]
    rw [outcomes] at stored
    cases was : before.cache.outputs id with
    | some old =>
      rcases located.known id (by rw [was]; nofun) with mined | drafted
      · exact Or.inl (Or.inl mined)
      · exact Or.inr drafted
    | none =>
      cases found : parsed.transaction.find? id with
      | none =>
        rw [found, was] at stored
        exact absurd rfl stored
      | some modification =>
        have reported := isParsed.reported id
        rw [found] at reported
        obtain ⟨output, creates, _⟩ := (reported_moves reported).2.2.2 was
        exact Or.inl (Or.inr ⟨output, creates⟩)
  · have notSpent : row.2 ∉ history.spentOutputs ∧ ¬ Spends entry.2 row.2 := by
      rw [← not_or, ← History.mem_spent_addBlock]
      exact unspent
    rw [outcomes] at is
    cases was : before.cache.outputs row.2 with
    | none =>
      -- the output is stored by this block
      have here : row.1 = entry.1 := by
        rcases mem_rows.mp member with early | late
        · obtain ⟨old, found⟩ := generated_stored tells early
          rw [was] at found
          cases found
        · exact late.1
      cases found : parsed.transaction.find? row.2 with
      | none =>
        rw [found, was] at is
        cases is
      | some modification =>
        have reported := isParsed.reported row.2
        rw [found] at reported
        obtain ⟨_, _, initial, creates⟩ := reported_moves reported
        obtain ⟨created, _, data⟩ := creates was
        rw [was] at initial
        rw [found, blockOutcome, outcome, if_neg (by rw [initial]; exact Bool.false_ne_true), data, Option.map_some,
          Option.some.injEq] at is
        rw [← is, here]
        show effectivePosition modification.finalState {} entry.1 = entry.1
        rcases (moved row.2 modification found notSpent.2).2 with new | young
        · rw [new]
          rfl
        · rw [young]
          rfl
    | some old =>
      have early : row ∈ history.generated := by
        rcases mem_rows.mp member with early | ⟨here, generated⟩
        · exact early
        · have again := located.again genuine belongs generated (by rw [was]; nofun)
          rw [← here] at again
          exact again
      cases found : parsed.transaction.find? row.2 with
      | none =>
        rw [found] at is
        exact located.positions row early notSpent.1 output is
      | some modification =>
        have new := (moved row.2 modification found notSpent.2).1
        rw [tells.states] at new
        rcases new with nothing | unconfirmed
        · exact absurd (tells.generatedMined row early) (History.not_mined_of_none nothing)
        · exact absurd unconfirmed (not_unconfirmed (tells.generatedMined row early))

theorem mempool_located {account : AccountID} {subchain : SubchainID} {item : MatchedTransaction} {result : Unit}
    (genuine : Genuine blocks unconfirmed) (seen : item ∈ unconfirmed)
    (tells : Tells environment.maturationTarget history before.cache) (located : Located blocks history before.cache)
    (ran : addTransactionsInBlock environment account subchain true ({}, [item]) before = (.ok result, after)) :
    Located blocks (history.addUnconfirmed (createdOutputs [item]) (consumedOutputs [item])) after.cache := by
  obtain ⟨generation, parsed, isParsed, _, outcomes, _⟩ := block_generation ran
  have ordinary : ∀ id, ¬ Generates [item] id := by
    intro id generates
    have member := (isParsed.generates id).mpr generates
    rw [isParsed.confirmed rfl] at member
    exact absurd member (Finset.notMem_empty id)
  refine ⟨located.rows, located.mined, fun id member => ?_, fun id stored => ?_, fun row member unspent output is => ?_⟩
  · rcases Finset.mem_union.mp member with early | created
    · exact located.drafted id early
    · exact genuine.drafted seen ((mem_createdOutputs _ _).mp created) (ordinary id)
  · rw [outcomes] at stored
    cases was : before.cache.outputs id with
    | some old => exact (located.known id (by rw [was]; nofun)).imp_right (Finset.mem_union_left _)
    | none =>
      cases found : parsed.transaction.find? id with
      | none =>
        rw [found, was] at stored
        exact absurd rfl stored
      | some modification =>
        have reported := isParsed.reported id
        rw [found] at reported
        obtain ⟨output, creates, _⟩ := (reported_moves reported).2.2.2 was
        exact Or.inr (Finset.mem_union_right _ ((mem_createdOutputs _ _).mpr ⟨output, creates⟩))
  · obtain ⟨old, was⟩ := generated_stored tells member
    have there := located.positions row member unspent old was
    rw [outcomes, was] at is
    cases found : parsed.transaction.find? row.2 with
    | none =>
      rw [found] at is
      exact (Option.some.inj is) ▸ there
    | some modification =>
      have reported := isParsed.reported row.2
      rw [found] at reported
      rw [createdState, isParsed.confirmed rfl, if_neg (Finset.notMem_empty _), if_pos rfl] at reported
      obtain ⟨_, final, initial, _⟩ := reported_moves reported
      rw [was] at initial
      rw [found, blockOutcome, outcome, if_pos (by rw [initial]; rfl), Option.map_some, Option.some.injEq] at is
      rw [← is, ← there]
      show effectivePosition modification.finalState old.minedPosition {} = old.minedPosition
      rcases final with new | spend
      · rw [new]
        rfl
      · rw [spend]
        rfl

/-! ## Advances -/

/-- What an advance finds to be mature is confirmed already, or was mined at the position advanced to. -/
def Passes (environment : Environment) (cache : OutputCache) (position : Position) : Prop :=
  Advances environment cache position → ∀ id ∈ maturing environment cache position, ∀ output ∈ cache.outputs id,
    output.state = .confirmedNew ∨ output.state = .immature ∧ output.minedPosition = position

instance (environment : Environment) (cache : OutputCache) (position : Position) :
    Decidable (Passes environment cache position) := by
  unfold Passes Advances
  infer_instance

theorem Passes.unspent {cache : OutputCache} {position : Position} (passes : Passes environment cache position) :
    MaturesUnspent environment cache position := by
  intro advances id matures
  cases found : cache.outputs id with
  | none => exact ⟨nofun, nofun⟩
  | some output =>
    rcases passes advances id matures output found with confirmed | ⟨immature, _⟩
    · rw [Option.map_some, confirmed]
      exact ⟨nofun, nofun⟩
    · rw [Option.map_some, immature]
      exact ⟨nofun, nofun⟩

/-- What an advance that passes makes of an output is at most to confirm it where it was mined. -/
theorem passes_matured {position : Position} {output : Output}
    (passes : output.state = .confirmedNew ∨ output.state = .immature ∧ output.minedPosition = position) :
    (maturedOutput position output).minedPosition = output.minedPosition ∧
      (output.state ≠ .immature → maturedOutput position output = output) := by
  unfold maturedOutput
  rcases passes with confirmed | ⟨immature, here⟩
  · rw [if_pos confirmed]
    exact ⟨rfl, fun _ => rfl⟩
  · rw [if_neg (by rw [immature]; nofun)]
    exact ⟨here.symm, fun other => absurd immature other⟩

theorem advance_located {terms : Terms} {position : Position} (located : Located blocks history before.cache)
    (passes : Passes terms.environment before.cache position) (advanced : Advanced terms position before after) :
    Located blocks (history.advance position) after.cache := by
  refine ⟨located.rows, located.mined, located.drafted, fun id stored => ?_, fun row member unspent output is => ?_⟩
  · refine located.known id fun absent => stored ?_
    rw [advanced.outputs]
    dsimp only
    rw [absent]
    split <;> rfl
  · rw [advanced.outputs] at is
    dsimp only at is
    split at is
    · rename_i matures
      obtain ⟨old, was, becomes⟩ := Option.map_eq_some_iff.mp is
      rw [← becomes, (passes_matured (passes advanced.advances row.2 matures old was)).1]
      exact located.positions row member unspent old was
    · exact located.positions row member unspent output is

/-! ## Runs -/

/-- Blocks and unconfirmed transactions from these, and advances that pass. -/
def scanning (environment : Environment) (blocks : BatchedMatches) (unconfirmed : BlockMatches) : Conditions where
  block cache entry := Timely cache entry ∧ entry ∈ blocks
  mempool _ item := item ∈ unconfirmed
  advance := Passes environment
  finalize _ _ := False

theorem scanning_keeps (genuine : Genuine blocks unconfirmed) :
    (scanning environment blocks unconfirmed).Keeps environment (Located blocks) where
  timely _ _ met := met.1
  unspent _ _ passes := passes.unspent
  block tells located met ran := block_located genuine met.2 tells located ran
  mempool tells located seen ran := mempool_located genuine seen tells located ran
  idle _ located _ _ := ⟨located.rows, located.mined, located.drafted, located.known, located.positions⟩
  advance := by
    rintro history position before after terms _ located passes rfl advanced
    exact advance_located located passes advanced
  finalize := by
    intro _ _ _ _ _ _ _ _ impossible
    exact impossible.elim
  same := by
    intro _ _ other located outputs _ _
    refine ⟨located.rows, located.mined, located.drafted, fun id stored => ?_, fun row member unspent output found => ?_⟩
    · rw [outputs] at stored
      exact located.known id stored
    · rw [outputs] at found
      exact located.positions row member unspent output found

/-- An output that waits for its maturity is not generated by another block. -/
theorem timely (genuine : Genuine blocks unconfirmed) {cache : OutputCache} {target : Int} (tells : Tells target history cache)
    (located : Located blocks history cache) {entry : Position × BlockMatches} (belongs : entry ∈ blocks) : Timely cache entry := by
  refine ⟨genuine.heights entry belongs, fun id generated immature => ?_⟩
  rw [tells.states] at immature
  obtain ⟨position, row, waits, _⟩ := tells.waiting id immature
  obtain ⟨block, inBlocks, same, there⟩ := located.rows _ row
  have here := (genuine.created belongs inBlocks ((mem_generatedOutputs _ _).mp generated).1
    ((mem_generatedOutputs _ _).mp there).1).1
  refine ⟨_, waits, rfl, ?_⟩
  rw [here, same]

theorem blocks_timely (genuine : Genuine blocks unconfirmed) {account : AccountID} {subchain : SubchainID}
    (entries : BatchedMatches) : ∀ (history : History) (session : Session),
      Held environment (Located blocks) history session.cache → (∀ entry ∈ entries, entry ∈ blocks) →
      Program.Throughout (fun entry session => Timely session.cache entry ∧ entry ∈ blocks)
        (addTransactionsInBlock environment account subchain false) entries session := by
  induction entries with
  | nil =>
    intro _ _ _ _
    trivial
  | cons entry entries ih =>
    rintro history session ⟨tells, located⟩ belong
    have belongs := belong entry List.mem_cons_self
    have here := timely genuine tells located belongs
    refine ⟨⟨here, belongs⟩, ?_⟩
    cases ran : addTransactionsInBlock environment account subchain false entry session with
    | mk result next =>
      cases result with
      | error _ => trivial
      | ok value =>
        exact ih (history.addBlock entry) next
          ⟨block_tells tells here ran, block_located genuine belongs tells located ran⟩
          (fun later member => belong later (List.mem_cons_of_mem _ member))

/-- The advance, if the call is one, passes. -/
def PassesBy (environment : Environment) (db : Database) (call : Call) : Prop :=
  match call.operation with
  | .advanceTo position => Passes environment (populate db.tables db.cache) position
  | _ => True

instance (environment : Environment) (db : Database) (call : Call) : Decidable (PassesBy environment db call) :=
  match call with
  | { operation := .advanceTo position, .. } => inferInstanceAs (Decidable (Passes environment _ position))
  | { operation := .addProposal .., .. } | { operation := .addConfirmedTransactions .., .. }
  | { operation := .addMempoolTransaction .., .. } | { operation := .cancelProposal .., .. }
  | { operation := .finalizeProposal .., .. } | { operation := .reserveUTXO .., .. }
  | { operation := .reserveOutpoint .., .. } | { operation := .reorg .., .. } =>
    inferInstanceAs (Decidable True)

theorem scanning_met (genuine : Genuine blocks unconfirmed) {db : Database} {call : Call}
    (held : Held environment (Located blocks) history (populate db.tables db.cache))
    (presents : isPresenting call.operation = true) (belong : ∀ entry ∈ blocksOf [call], entry ∈ blocks)
    (seen : ∀ item ∈ unconfirmedOf [call], item ∈ unconfirmed) (passes : PassesBy environment db call) :
    (scanning environment blocks unconfirmed).Met environment db call := by
  unfold Conditions.Met
  unfold PassesBy at passes
  unfold blocksOf at belong
  unfold unconfirmedOf at seen
  rw [List.flatMap_singleton] at belong seen
  cases operation : call.operation with
  | addConfirmedTransactions account subchain transactions =>
    rw [operation] at belong
    exact blocks_timely genuine transactions history (start db call.writes) held belong
  | addMempoolTransaction account subchain item =>
    rw [operation] at seen
    exact seen item (List.mem_singleton_self item)
  | advanceTo position =>
    rw [operation] at passes
    exact passes
  | finalizeProposal id content transaction =>
    rw [operation] at presents
    cases presents
  | _ => trivial

theorem run_located (genuine : Genuine blocks unconfirmed) {calls : List Call} :
    ∀ {history : History} {db final : Database}, Sound db → Held environment (Located blocks) history (populate db.tables db.cache) →
      (∀ call ∈ calls, isPresenting call.operation = true) → (∀ entry ∈ blocksOf calls, entry ∈ blocks) →
      (∀ item ∈ unconfirmedOf calls, item ∈ unconfirmed) → Along environment (PassesBy environment) db calls →
      succeeds environment db calls = some final →
      Sound final ∧ Held environment (Located blocks) (historyOf history calls) (populate final.tables final.cache) := by
  induction calls with
  | nil =>
    intro history db final sound held _ _ _ _ ran
    cases ran
    exact ⟨sound, held⟩
  | cons call calls ih =>
    intro history db final sound held presents belong seen along ran
    obtain ⟨outcome, performed, success, rest⟩ := succeeds_cons ran
    obtain ⟨here, later⟩ := along
    rw [performed] at later
    have split : blocksOf (call :: calls) = blocksOf [call] ++ blocksOf calls ∧
        unconfirmedOf (call :: calls) = unconfirmedOf [call] ++ unconfirmedOf calls := by
      simp [blocksOf, unconfirmedOf]
    rw [split.1] at belong
    rw [split.2] at seen
    have goes := presents call List.mem_cons_self
    have forward : isForward call.operation = true := by
      unfold isPresenting at goes
      unfold isForward
      split at goes <;> simp_all
    have met := scanning_met genuine held goes (fun entry member => belong entry (List.mem_append_left _ member))
      (fun item member => seen item (List.mem_append_left _ member)) here
    exact ih (perform_sound (commits_of_forward forward) sound performed)
      (perform_holds (scanning_keeps genuine) sound held forward met performed success)
      (fun next member => presents next (List.mem_cons_of_mem call member))
      (fun entry member => belong entry (List.mem_append_right _ member))
      (fun item member => seen item (List.mem_append_right _ member)) later rest

theorem located_empty (blocks : BatchedMatches) : Located blocks {} (populate {} {}) :=
  ⟨nofun, nofun, nofun, fun _ stored => absurd rfl stored, nofun⟩

/-! ## Maturity -/

/-- No block and no unconfirmed transaction spends the output. -/
def Unspent (history : History) (id : Outpoint) : Prop := id ∉ history.spentOutputs ∧ id ∉ history.spending

instance (history : History) (id : Outpoint) : Decidable (Unspent history id) := inferInstanceAs (Decidable (_ ∧ _))

/-- What the wallet holds of an output that was generated at a position. -/
structure Matures (environment : Environment) (history : History) (db : Database) (row : Position × Outpoint) : Prop where
  mined : row.2 ∉ history.spentOutputs → ∃ output, stored db row.2 = some output ∧ output.minedPosition = row.1
  immature : Unspent history row.2 →
    (getPosition (populate db.tables db.cache)).height < row.1.height + environment.maturationTarget →
    (stored db row.2).map Output.state = some .immature
  confirmed : Unspent history row.2 → row.1.height + environment.maturationTarget ≤ history.best →
    (stored db row.2).map Output.state = some .confirmedNew

/-- All the blocks that generate an output are one, so its maturity is decided by one height. -/
theorem immature_iff (genuine : Genuine blocks unconfirmed) {cache : OutputCache} (located : Located blocks history cache)
    {row : Position × Outpoint} (member : row ∈ history.generated) (target : Int) :
    history.Immature target row.2 ↔ history.best < row.1.height + target := by
  have deep : isMature row.1.height history.best target = false ↔ history.best < row.1.height + target := by
    unfold isMature
    rw [decide_eq_false_iff_not]
    omega
  constructor
  · intro young
    exact deep.mp (young.2 row member rfl)
  · intro below
    refine ⟨⟨row, member, rfl⟩, fun other otherMember same => ?_⟩
    obtain ⟨block, inBlocks, here, generated⟩ := located.rows row member
    obtain ⟨second, inSecond, there, otherGenerated⟩ := located.rows other otherMember
    rw [same] at otherGenerated
    have position := (genuine.created inBlocks inSecond ((mem_generatedOutputs _ _).mp generated).1
      ((mem_generatedOutputs _ _).mp otherGenerated).1).1
    rw [← there, ← position, here]
    exact deep.mpr below

theorem located_matures (genuine : Genuine blocks unconfirmed) {db : Database}
    (held : Held environment (Located blocks) history (populate db.tables db.cache)) {row : Position × Outpoint}
    (member : row ∈ history.generated) : Matures environment history db row := by
  obtain ⟨tells, located⟩ := held
  have generated := tells.generatedMined row member
  have young := immature_iff genuine located member environment.maturationTarget
  refine ⟨fun unspent => ?_, fun unspent below => ?_, fun unspent reached => ?_⟩
  · obtain ⟨output, found⟩ := generated_stored tells member
    exact ⟨output, found, located.positions row member unspent output found⟩
  · -- the wallet's position may be behind what was advanced to, but only where nothing is mature
    have below : history.best < row.1.height + environment.maturationTarget := by
      have positive := tells.heights row member
      rcases tells.current with same | early
      · rwa [← same]
      · omega
    exact (tells.states row.2).trans (History.stateOf_immature unspent.1 unspent.2 generated (young.mpr below))
  · have mature : ¬ history.Immature environment.maturationTarget row.2 := by
      rw [young]
      omega
    exact (tells.states row.2).trans (History.stateOf_mature unspent.1 unspent.2 generated mature)

/-- Of an output that no block generates an advance that passes changes nothing. -/
theorem advance_leaves (held : Held environment (Located blocks) history (populate db.tables db.cache)) (sound : Sound db)
    {position : Position} {writes : List Bool} {processTransactions : Bool} {outcome : Outcome}
    (passes : Passes environment (populate db.tables db.cache) position)
    (performed : perform environment db { operation := .advanceTo position, writes, processTransactions } = .ok outcome)
    (success : outcome.success = true) (ordinary : ∀ row ∈ history.generated, row.2 ≠ id) :
    stored outcome.db id = stored db id := by
  rcases perform_success performed success with ⟨_, _, operation, _⟩ | ⟨_, session, ran, rfl⟩
  · cases operation
  · have edits : Edits (terms environment (.advanceTo position) False) (start db writes) session ∧ _ :=
      body_edits (commits_of_forward rfl) rfl ran
    have loaded : populate session.committed session.cache = session.cache := by
      rw [populate, if_pos (edits_orderly edits.1 (sound_start sound writes)).mirrored.populated]
    obtain ⟨_, middle, advancing, returned⟩ := Program.bind_ok ran
    obtain ⟨_, rfl⟩ := Program.pure_ok returned
    show (populate session.committed session.cache).outputs id = (populate db.tables db.cache).outputs id
    rw [loaded]
    have ends : _ ∨ Advanced (terms environment (.advanceTo position) False) position (start db writes) session :=
      advanceTo_cases False.elim advancing
    rcases ends with ⟨_, rfl⟩ | advanced
    · rfl
    · rw [advanced.outputs]
      show (if id ∈ maturing environment (populate db.tables db.cache) position
        then matured position ((populate db.tables db.cache).outputs id) else _) = _
      split
      · rename_i matures
        cases found : (populate db.tables db.cache).outputs id with
        | none => rfl
        | some output =>
          refine congrArg some ((passes_matured (passes advanced.advances id matures output found)).2 fun immature => ?_)
          have state := held.1.known found
          rw [immature] at state
          obtain ⟨row, member, same⟩ := (History.immature_cases state).2.2.2.1
          exact ordinary row member same
      · rfl

/-- In a run of block additions and advances that pass, an output that is generated waits at the position of its
block until the wallet comes to its maturity, and no other output is touched by an advance. -/
theorem generation_matures {calls : List Call} {final : Database} (genuine : Genuine (blocksOf calls) (unconfirmedOf calls))
    (presents : ∀ call ∈ calls, isPresenting call.operation = true) (passes : Along environment (PassesBy environment) {} calls)
    (ran : succeeds environment {} calls = some final) :
    (∀ row ∈ (historyOf {} calls).generated, Matures environment (historyOf {} calls) final row) ∧
      ∀ position writes processTransactions outcome, Passes environment (populate final.tables final.cache) position →
        perform environment final { operation := .advanceTo position, writes, processTransactions } = .ok outcome →
        outcome.success = true → ∀ id, (∀ row ∈ (historyOf {} calls).generated, row.2 ≠ id) →
        stored outcome.db id = stored final id := by
  obtain ⟨sound, held⟩ := run_located genuine sound_empty ⟨tells_empty _, located_empty _⟩ presents
    (fun _ member => member) (fun _ member => member) passes ran
  exact ⟨fun row member => located_matures genuine held member,
    fun _ _ _ _ passes performed success _ ordinary => advance_leaves held sound passes performed success ordinary⟩

/-! ## Two coinbases -/

def coinbase (number : TransactionHash) : Transaction :=
  { id := number, previousOutputs := [], outputs := [receivable 50 number], isGeneration := true }

/-- The first coinbase is found when it is mature already, the second one is still waiting in the end. -/
def twoCoinbases : List Call :=
  [advance 200, addBlock 50 [⟨[], [0], coinbase 5⟩], addBlock 150 [⟨[], [0], coinbase 6⟩], advance 240]

theorem twoCoinbases_genuine : Genuine (blocksOf twoCoinbases) (unconfirmedOf twoCoinbases) := by
  have blocks : blocksOf twoCoinbases = [(⟨50, 50⟩, [⟨[], [0], coinbase 5⟩]), (⟨150, 150⟩, [⟨[], [0], coinbase 6⟩])] := rfl
  rw [blocks]
  refine ⟨by decide, ?_, nofun⟩
  intro first inFirst second inSecond item member other otherMember same
  rcases List.mem_pair.mp inFirst with rfl | rfl <;> rcases List.mem_pair.mp inSecond with rfl | rfl
  all_goals
    rw [List.mem_singleton] at member otherMember
    subst member otherMember
  · exact ⟨rfl, rfl⟩
  · exact absurd same (by decide)
  · exact absurd same (by decide)
  · exact ⟨rfl, rfl⟩

theorem two_coinbases_mature : ∃ final, succeeds household {} twoCoinbases = some final ∧
    (stored final ⟨5, 0⟩).map Output.state = some .confirmedNew ∧ (stored final ⟨6, 0⟩).map Output.state = some .immature := by
  have evaluated : ((succeeds household {} twoCoinbases).map fun final =>
      (decide (Along household (PassesBy household) {} twoCoinbases),
        (getPosition (populate final.tables final.cache)).height)) = some (true, 240) := by decide +kernel
  cases ran : succeeds household {} twoCoinbases with
  | none =>
    rw [ran] at evaluated
    cases evaluated
  | some final =>
    rw [ran] at evaluated
    simp only [Option.map_some, Option.some.injEq, Prod.mk.injEq, decide_eq_true_eq] at evaluated
    obtain ⟨passes, height⟩ := evaluated
    have matures := (generation_matures twoCoinbases_genuine (by decide) passes ran).1
    refine ⟨final, rfl, ?_, ?_⟩
    · exact (matures (⟨50, 50⟩, ⟨5, 0⟩) (by decide +kernel)).confirmed (by decide +kernel) (by decide +kernel)
    · refine (matures (⟨150, 150⟩, ⟨6, 0⟩) (by decide +kernel)).immature (by decide +kernel) ?_
      rw [height]
      decide

/-- A coinbase in block 1, and a payment that is spent two blocks later. -/
def spentPayment : List Call :=
  [addBlock 1 [⟨[], [0], coinbase 5⟩], addBlock 2 [⟨[], [0], payment⟩], addBlock 3 [⟨[0], [], purchase⟩]]

/-- The advance moves the coinbase to its own position, and the spent payment can be spent again. -/
theorem advance_moves_and_revives : ∃ before after, succeeds household {} spentPayment = some before ∧
    succeeds household before [advance 102] = some after ∧
    (⟨1, 1⟩, ⟨5, 0⟩) ∈ (historyOf {} (spentPayment ++ [advance 102])).generated ∧
    Unspent (historyOf {} (spentPayment ++ [advance 102])) ⟨5, 0⟩ ∧
    ¬ Matures household (historyOf {} (spentPayment ++ [advance 102])) after (⟨1, 1⟩, ⟨5, 0⟩) ∧
    (∀ row ∈ (historyOf {} (spentPayment ++ [advance 102])).generated, row.2 ≠ ⟨1, 0⟩) ∧
    (stored before ⟨1, 0⟩).map Output.state = some .confirmedSpend ∧
    (stored after ⟨1, 0⟩).map Output.state = some .confirmedNew := by
  have evaluated : ((succeeds household {} spentPayment).bind fun before =>
      (succeeds household before [advance 102]).map fun after =>
        ((stored after ⟨5, 0⟩).map Output.minedPosition, (stored before ⟨1, 0⟩).map Output.state,
          (stored after ⟨1, 0⟩).map Output.state)) =
      some (some ⟨102, 102⟩, some .confirmedSpend, some .confirmedNew) := by decide +kernel
  cases reached : succeeds household {} spentPayment with
  | none =>
    rw [reached] at evaluated
    cases evaluated
  | some before =>
    rw [reached, Option.bind_some] at evaluated
    cases ran : succeeds household before [advance 102] with
    | none =>
      rw [ran] at evaluated
      cases evaluated
    | some after =>
      rw [ran] at evaluated
      simp only [Option.map_some, Option.some.injEq, Prod.mk.injEq] at evaluated
      obtain ⟨moved, spent, revived⟩ := evaluated
      refine ⟨before, after, rfl, ran, by decide +kernel, by decide +kernel, fun matures => ?_, by decide +kernel, spent, revived⟩
      obtain ⟨output, found, position⟩ := matures.mined (by decide +kernel)
      rw [found, Option.map_some, position] at moved
      exact absurd moved (by decide)

end Opentxs.Wallet.Maturity
