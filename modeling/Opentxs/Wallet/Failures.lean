import Opentxs.Wallet.Runs

/-! A call that fails has changed nothing, if nothing stood in the maps that are not cleared and
the call put nothing there and committed nothing. -/

namespace Opentxs.Wallet.Failures
open Library Library.Ordered HeaderOracle BlockHeader Types Storage OutputCache Parsing Reports Outputs
open Tracking Associations Editing Effects Isolation Runs

variable {environment : Environment} {before after : Session}

/-- The tables are the old ones, and loading makes of the cache what it makes of an empty one. -/
structure Clean (db after : Database) : Prop where
  tables : after.tables = db.tables
  reloads : populate after.tables after.cache = populate after.tables {}

/-- The maps that are not cleared hold nothing, or nothing but what loading would put there again
without harm. -/
structure Idle (db : Database) : Prop where
  generation : (populate db.tables db.cache).generationOutputs = []
  associations : ∀ id, (populate db.tables db.cache).outputToProposal id = []
  created : (populate db.tables db.cache).createdByProposal ⊆ db.tables.proposalCreated
  consumed : (populate db.tables db.cache).consumedByProposal ⊆ db.tables.proposalSpent

/-- Nothing is committed, and the maps that are not cleared hold no more than before. -/
structure Bare (before after : Session) : Prop where
  committed : after.committed = before.committed
  generation : after.cache.generationOutputs = before.cache.generationOutputs
  associations : ∀ id, after.cache.outputToProposal id = before.cache.outputToProposal id ∨
    after.cache.outputToProposal id = []
  created : after.cache.createdByProposal ⊆ before.cache.createdByProposal
  consumed : after.cache.consumedByProposal ⊆ before.cache.consumedByProposal

instance : Erases Bare where
  books _ _ same :=
    ⟨same.committed, same.generationOutputs, fun id => Or.inl (congrFun same.outputToProposal id),
      subset_of_eq same.created, subset_of_eq same.consumed⟩
  trans _ _ _ early late := by
    refine ⟨late.committed.trans early.committed, late.generation.trans early.generation, fun id => ?_,
      late.created.trans early.created, late.consumed.trans early.consumed⟩
    rcases late.associations id with same | gone
    · rw [same]
      exact early.associations id
    · exact Or.inr gone
  erases _ _ fewer := ⟨fewer.committed, fewer.generationOutputs, fewer.outputToProposal, fewer.created, fewer.consumed⟩

/-- What is left of an idle wallet after a bare call is loaded as the tables have it. -/
theorem clean_of_bare {db : Database} (idle : Idle db) {writes : List Bool} (bare : Bare (start db writes) after) :
    Clean db { tables := after.committed, cache := clear after.cache, proposalData := after.proposalData } := by
  have tables : after.committed = db.tables := bare.committed
  have generation : after.cache.generationOutputs = [] := bare.generation.trans idle.generation
  have associations : after.cache.outputToProposal = fun _ => [] := by
    funext id
    rcases bare.associations id with same | gone
    · exact same.trans (idle.associations id)
    · exact gone
  have created : after.cache.createdByProposal ∪ db.tables.proposalCreated = db.tables.proposalCreated :=
    Finset.union_eq_right.mpr (bare.created.trans idle.created)
  have consumed : after.cache.consumedByProposal ∪ db.tables.proposalSpent = db.tables.proposalSpent :=
    Finset.union_eq_right.mpr (bare.consumed.trans idle.consumed)
  refine ⟨tables, ?_⟩
  show populate after.committed (clear after.cache) = populate after.committed {}
  rw [tables, populate, populate, clear]
  dsimp only
  rw [if_neg Bool.false_ne_true, if_neg Bool.false_ne_true, generation, associations, created, consumed]
  simp only [Finset.empty_union]

/-! ## Adding what is stored already -/

/-- The block creates no output that is not stored. -/
def CreatesNothing (cache : OutputCache) (items : BlockMatches) : Prop :=
  ∀ id output, Creates items id output → (cache.outputs id).isSome

theorem addTransactionsInBlock_bare {account : AccountID} {subchain : SubchainID} {mempool : Bool}
    {entry : Position × BlockMatches} (nothing : CreatesNothing before.cache entry.2) :
    Bare before (addTransactionsInBlock environment account subchain mempool entry before).2 := by
  unfold addTransactionsInBlock
  have reads : readCache before = (.ok before.cache, before) := rfl
  rw [Program.bind_of_ok reads]
  cases parses : parse before.cache entry.1 entry.2 mempool environment.maturationTarget with
  | error fault => exact same_relates before
  | ok parsed =>
    obtain ⟨generation, isParsed⟩ := parse_ok parses
    have modifies : ∀ item ∈ parsed.transaction.entries, item.2.initialState.isSome := by
      rintro ⟨id, modification⟩ member
      have reported := isParsed.reported id
      rw [(OrderedMap.find?_eq_some _ _ modification).mpr member] at reported
      obtain ⟨_, _, initial, creates⟩ := reported_moves reported
      cases stored : before.cache.outputs id with
      | none =>
        obtain ⟨output, isCreated, _⟩ := creates stored
        have known := nothing id output isCreated
        rw [stored] at known
        cases known
      | some old =>
        rw [stored] at initial
        rw [initial]
        rfl
    have rest : Program.Relates Bare (do
        Program.forEach (process environment account subchain entry.1 mempool) parsed.transaction.entries
        if mempool then pure ()
        else
          let cache ← readCache
          Program.forEach finishStoredProposal (checkProposals cache parsed.proposals)) := by
      apply bind_relates
      · refine Program.Relates.forEach same_relates Books.trans _ fun item member => ?_
        unfold process
        rw [if_pos (modifies item member)]
        exact bind_relates (checkOutputProposals_relates _ _ _) fun _ => changeTxoState_relates _ _ _
      · intro _
        refine ite_relates (pure_relates _) ?_
        exact bind_relates readCache_relates fun _ => forEach_relates _ fun _ => finishStoredProposal_relates _
    exact rest before

/-- A stored output stays stored through a block. -/
theorem block_stores {account : AccountID} {subchain : SubchainID} {mempool : Bool} {entry : Position × BlockMatches}
    {result : Unit} (ran : addTransactionsInBlock environment account subchain mempool entry before = (.ok result, after))
    {id : Outpoint} (stored : (before.cache.outputs id).isSome) : (after.cache.outputs id).isSome := by
  obtain ⟨generation, parsed, isParsed, _, outcomes⟩ := addTransactionsInBlock_ok ran
  obtain ⟨output, found⟩ := Option.isSome_iff_exists.mp stored
  rw [outcomes, found]
  have reported := isParsed.reported id
  cases result : parsed.transaction.find? id with
  | none => rfl
  | some modification =>
    rw [result] at reported
    have initial := (reported_moves reported).2.2.1
    rw [found] at initial
    show (outcome entry.1 modification (some output)).isSome
    rw [outcome, if_pos (by rw [initial]; rfl)]
    rfl

theorem blocks_bare {account : AccountID} {subchain : SubchainID} {mempool : Bool} (transactions : BatchedMatches) :
    ∀ before, (∀ entry ∈ transactions, CreatesNothing before.cache entry.2) →
      Bare before
        (Program.forEach (addTransactionsInBlock environment account subchain mempool) transactions before).2 := by
  induction transactions with
  | nil => exact fun before _ => same_relates before
  | cons entry transactions ih =>
    intro before nothing
    have first := @addTransactionsInBlock_bare environment before account subchain mempool entry
      (nothing entry List.mem_cons_self)
    unfold Program.forEach
    cases ran : addTransactionsInBlock environment account subchain mempool entry before with
    | mk result middle =>
      rw [ran] at first
      cases result with
      | error fault =>
        rw [Program.bind_of_error ran]
        exact first
      | ok done =>
        rw [Program.bind_of_ok ran]
        refine Books.trans before middle _ first (ih middle fun later member id output creates => ?_)
        exact block_stores ran (nothing later (List.mem_cons_of_mem entry member) id output creates)

/-! ## Failing early -/

/-- No block is parsed, or none creates an output that is not stored and the transactions can be
processed elsewhere. -/
def AddsNothing (environment : Environment) (cache : OutputCache) (mempool processTransactions : Bool)
    (transactions : BatchedMatches) : Prop :=
  (∃ entry rest fault, transactions = entry :: rest ∧
      parse cache entry.1 entry.2 mempool environment.maturationTarget = .error fault) ∨
    processTransactions = true ∧ ∀ entry ∈ transactions, CreatesNothing cache entry.2

/-- Where the call can stop before it commits anything or adds to a map that is not cleared. -/
def StopsEarly (environment : Environment) (db : Database) (call : Call) : Prop :=
  match call.operation with
  | .addConfirmedTransactions _ _ transactions =>
    AddsNothing environment (populate db.tables db.cache) false call.processTransactions transactions
  | .addMempoolTransaction _ _ item =>
    AddsNothing environment (populate db.tables db.cache) true call.processTransactions [({}, [item])]
  | .advanceTo _ => True
  | .cancelProposal _ => True
  | .finalizeProposal id content transaction =>
    call.writes.headD true = false ∨ (db.tables.proposals id = some content ∧
      ¬ getInputs transaction ⊆ Index.rows (populate db.tables db.cache).consumedByProposal id)
  | .reserveUTXO spender _ policy =>
    call.writes.headD true = false ∨ selectOutput (populate db.tables db.cache) spender policy = none
  | .reserveOutpoint _ _ id => call.writes.headD true = false ∨ stored db id = none
  | _ => False

theorem addTransactions_bare {account : AccountID} {subchain : SubchainID} {mempool processTransactions : Bool}
    {transactions : BatchedMatches} {fault : Fault}
    (adds : AddsNothing environment before.cache mempool processTransactions transactions)
    (ran : addTransactions environment account subchain mempool transactions processTransactions before =
      (.error fault, after)) : Bare before after := by
  unfold addTransactions at ran
  rcases adds with ⟨entry, rest, stop, rfl, unparsed⟩ | ⟨processed, nothing⟩
  · have stops : addTransactionsInBlock environment account subchain mempool entry before = (.error stop, before) := by
      unfold addTransactionsInBlock
      have reads : readCache before = (.ok before.cache, before) := rfl
      rw [Program.bind_of_ok reads, unparsed]
      exact Program.bind_of_error rfl
    have fails : Program.forEach (addTransactionsInBlock environment account subchain mempool) (entry :: rest) before =
        (.error stop, before) := Program.bind_of_error stops
    rw [Program.bind_of_error fails] at ran
    cases ran
    exact same_relates before
  · have bare := @blocks_bare environment account subchain mempool transactions before nothing
    rcases Program.bind_error ran with failed | ⟨_, added, adding, afterAdd⟩
    · rw [failed] at bare
      exact bare
    · rw [adding] at bare
      rcases Program.bind_error afterAdd with failed | ⟨_, committed, committing, requiring⟩
      · exact Books.trans before added after bare (commit_failed failed)
      · rw [processed] at requiring
        cases requiring

/-- When its first write fails, consuming an output leaves no trace. -/
theorem consumeOutput_bare {proposal : ProposalID} {output : Outpoint} {result : Except Fault Unit}
    (stops : before.writes.headD true = false) (ran : consumeOutput proposal output before = (result, after)) :
    (∃ fault, result = .error fault) ∧ Bare before after := by
  unfold consumeOutput at ran
  have reads : readCache before = (.ok before.cache, before) := rfl
  rw [Program.bind_of_ok reads] at ran
  have relates : Program.Relates Bare (Storage.require ((proposal, output) ∉ before.cache.consumedByProposal)) :=
    require_relates _
  cases checking : Storage.require ((proposal, output) ∉ before.cache.consumedByProposal) before with
  | mk result checked =>
    cases result with
    | error fault =>
      rw [Program.bind_of_error checking] at ran
      cases ran
      exact ⟨⟨fault, rfl⟩, relates_failed relates checking⟩
    | ok done =>
      obtain ⟨_, rfl⟩ := require_ok checking
      rw [Program.bind_of_ok checking] at ran
      have stores : ∀ change, store change checked = (.ok false, { checked with writes := checked.writes.tail }) := by
        intro change
        unfold store
        have next : nextWrite checked = (.ok false, { checked with writes := checked.writes.tail }) := by
          rw [nextWrite, stops]
        rw [Program.bind_of_ok next]
        rfl
      rw [Program.bind_of_ok (stores _)] at ran
      have fails : Storage.require false { checked with writes := checked.writes.tail } =
        (.error .exception, { checked with writes := checked.writes.tail }) := rfl
      rw [Program.bind_of_error fails] at ran
      cases ran
      exact ⟨⟨_, rfl⟩, onlyBooks ⟨rfl, rfl, rfl, rfl, rfl, rfl, rfl, rfl, rfl⟩⟩

theorem reserve_bare {proposal : ProposalID} {id : Outpoint} {fault : Fault} (stops : before.writes.headD true = false)
    (ran : (do
      let utxo ← choose proposal id
      commit
      pure utxo) before = (.error fault, after)) : Bare before after := by
  rcases Program.bind_error ran with failed | ⟨utxo, chosen, choosing, _⟩
  · unfold choose at failed
    have reads : readCache before = (.ok before.cache, before) := rfl
    rw [Program.bind_of_ok reads] at failed
    rcases Program.bind_error failed with failed | ⟨output, loaded, loading, afterLoad⟩
    · exact relates_failed (lift_relates _) failed
    · obtain ⟨_, rfl⟩ := Program.lift_ok loading
      rcases Program.bind_error afterLoad with failed | ⟨_, _, _, returned⟩
      · exact (consumeOutput_bare stops failed).2
      · cases returned
  · obtain ⟨_, _, consuming⟩ := choose_writes choosing
    obtain ⟨⟨other, fails⟩, _⟩ := consumeOutput_bare stops consuming
    cases fails

theorem reserveUTXO_bare {spender : Nym} {proposal : ProposalID} {policy : SpendPolicy} {fault : Fault}
    (early : before.writes.headD true = false ∨ selectOutput before.cache spender policy = none)
    (ran : reserveUTXO spender proposal policy before = (.error fault, after)) : Bare before after := by
  cases selected : selectOutput before.cache spender policy with
  | none =>
    rw [reserveUTXO_none selected] at ran
    cases ran
    exact same_relates before
  | some id =>
    rw [selected] at early
    rw [reserveUTXO_some selected] at ran
    rcases early with stops | nothing
    · exact reserve_bare stops ran
    · cases nothing

theorem finalizeProposal_bare {db : Database} {writes : List Bool} {id : ProposalID} {content : Content}
    {transaction : Transaction} {processTransactions : Bool} {fault : Fault}
    (early : writes.headD true = false ∨ (db.tables.proposals id = some content ∧
      ¬ getInputs transaction ⊆ Index.rows (populate db.tables db.cache).consumedByProposal id))
    (ran : finalizeProposal environment id content transaction processTransactions (start db writes) =
      (.error fault, after)) : Bare (start db writes) after := by
  unfold finalizeProposal at ran
  rcases Program.bind_error ran with failed | ⟨_, checked, checking, afterCheck⟩
  · exact relates_failed (assertTrue_relates _) failed
  · obtain ⟨_, rfl⟩ := assertTrue_ok checking
    rcases Program.bind_error afterCheck with failed | ⟨_, added, adding, afterAdd⟩
    · exact addProposal_failed failed
    · have adds := addProposal_ok adding
      rcases early with stops | ⟨stored, unreserved⟩
      · exfalso
        unfold addProposal at adding
        obtain ⟨rc, wrote, writing, afterWrite⟩ := Program.bind_ok adding
        have is : nextWrite (start db writes) = (.ok false, { start db writes with writes := writes.tail }) := by
          show ((Except.ok (writes.headD true), _) : Except Fault Bool × Session) = _
          rw [stops]
          rfl
        rw [is] at writing
        cases writing
        obtain ⟨_, _, requiring, _⟩ := Program.bind_ok afterWrite
        cases (require_ok requiring).1
      · dsimp only at afterAdd
        have releases : releaseUnusedInputs id (getInputs transaction) added = (.error .exception, added) := by
          unfold releaseUnusedInputs
          have reads : readCache added = (.ok (populate db.tables db.cache), added) := by
            rw [adds]
            rfl
          rw [Program.bind_of_ok reads]
          have fails : Storage.require (getInputs transaction ⊆ Index.rows (populate db.tables db.cache).consumedByProposal id)
              added = (.error .exception, added) := by
            rw [decide_eq_false unreserved]
            rfl
          exact Program.bind_of_error fails
        rw [Program.bind_of_error releases] at afterAdd
        cases afterAdd
        have committed : withProposal id content db.tables = db.tables := by
          rw [withProposal, Function.update_eq_self_iff.mpr stored.symm]
        rw [adds]
        exact ⟨committed, rfl, fun _ => Or.inl rfl, subset_rfl, subset_rfl⟩

/-- A failed call has changed nothing when the wallet was idle and the call stopped early. -/
theorem failed_call_clean {db : Database} {call : Call} {outcome : Outcome} (ran : execute environment db call = .ok outcome)
    (fails : outcome.success = false) (idle : Idle db) (early : StopsEarly environment db call) : Clean db outcome.db := by
  unfold execute at ran
  cases running : body environment call (start db call.writes) with
  | mk result session =>
    rw [running] at ran
    cases result with
    | ok reserved =>
      cases ran
      cases fails
    | error fault =>
      have bare : Bare (start db call.writes) session := by
        unfold body at running
        unfold StopsEarly at early
        cases operation : call.operation with
        | addProposal id content =>
          rw [operation] at early
          exact early.elim
        | addConfirmedTransactions account subchain transactions =>
          rw [operation] at running early
          exact addTransactions_bare early (unreserved_failed running)
        | addMempoolTransaction account subchain item =>
          rw [operation] at running early
          exact addTransactions_bare early (unreserved_failed running)
        | advanceTo position =>
          rw [operation] at running
          exact advanceTo_failed (unreserved_failed running)
        | cancelProposal id =>
          rw [operation] at running
          exact cancelProposal_failed (unreserved_failed running)
        | finalizeProposal id content transaction =>
          rw [operation] at running early
          exact finalizeProposal_bare early (unreserved_failed running)
        | reserveUTXO spender proposal policy =>
          rw [operation] at running early
          exact reserveUTXO_bare early (reserved_failed running)
        | reserveOutpoint spender proposal id =>
          rw [operation] at running early
          have failing := reserved_failed running
          rcases early with stops | absent
          · exact reserve_bare stops failing
          · have chosen : choose proposal id (start db call.writes) = (.error .exception, start db call.writes) :=
              choose_absent absent
            have stops : reserveOutpoint proposal id (start db call.writes) = (.error .exception, start db call.writes) :=
              Program.bind_of_error chosen
            rw [stops] at failing
            cases failing
            exact same_relates _
        | reorg blocks ancestor committed =>
          rw [operation] at early
          exact early.elim
      cases fault with
      | exception =>
        cases ran
        exact clean_of_bare idle bare
      | terminate => cases ran
      | dangling => cases ran
      | outOfFuel => cases ran

/-- The write of the new position fails. -/
def failingAdvance (height : Int) : Call := { advance height with writes := [false] }

theorem idle_empty : Idle {} := by
  refine ⟨by decide, fun _ => rfl, ?_, ?_⟩
  · exact Finset.empty_subset _
  · exact Finset.empty_subset _

theorem failed_advance_clean : ∃ outcome, execute household {} (failingAdvance 100) = .ok outcome ∧
    outcome.success = false ∧ Clean {} outcome.db := by
  have evaluated : (execute household {} (failingAdvance 100)).toOption.map Outcome.success = some false := by
    decide +kernel
  cases ran : execute household {} (failingAdvance 100) with
  | error fault =>
    rw [ran] at evaluated
    cases evaluated
  | ok outcome =>
    rw [ran] at evaluated
    have fails : outcome.success = false := Option.some.inj evaluated
    exact ⟨outcome, rfl, fails, failed_call_clean ran fails idle_empty trivial⟩

/-- After the failed call the output of block 1 stands twice among the generation outputs. -/
theorem failed_advance_doubles : ∃ db outcome, run household {} [addBlock 1 [⟨[], [0], payment⟩]] = .ok db ∧
    execute household db (failingAdvance 100) = .ok outcome ∧ outcome.success = false ∧ ¬ Clean db outcome.db := by
  have evaluated : ((run household {} [addBlock 1 [⟨[], [0], payment⟩]]).toOption.bind fun db =>
      (execute household db (failingAdvance 100)).toOption.map fun outcome =>
        (outcome.success, (populate outcome.db.tables outcome.db.cache).generationOutputs,
          (populate outcome.db.tables {}).generationOutputs)) =
      some (false, [(1, ⟨1, 0⟩), (1, ⟨1, 0⟩)], [(1, ⟨1, 0⟩)]) := by decide +kernel
  cases reached : run household {} [addBlock 1 [⟨[], [0], payment⟩]] with
  | error fault =>
    rw [reached] at evaluated
    cases evaluated
  | ok db =>
    rw [reached] at evaluated
    cases ran : execute household db (failingAdvance 100) with
    | error fault => simp [ran, Except.toOption] at evaluated
    | ok outcome =>
      simp only [ran, Except.toOption, Option.bind_some, Option.map_some, Option.some.injEq, Prod.mk.injEq] at evaluated
      obtain ⟨fails, doubled, single⟩ := evaluated
      refine ⟨db, outcome, rfl, ran, fails, ?_⟩
      intro clean
      rw [clean.reloads, single] at doubled
      cases doubled

/-- Whatever calls were made, failed ones too, the cache shows the outputs as the tables have them, and so does the
one that is loaded after a restart. -/
theorem restart_keeps_view {calls : List Call} {final : Database} (commits : ∀ call ∈ calls, Commits call)
    (ran : run environment {} calls = .ok final) :
    Mirrored (populate final.tables final.cache) final.tables ∧ Mirrored (populate final.tables {}) final.tables := by
  have sound := run_sound commits sound_empty ran
  have restarted : Sound { final with cache := {} } :=
    ⟨sound.filed, fun populated => absurd populated Bool.false_ne_true, fun _ => ⟨fun _ => rfl, rfl, rfl⟩⟩
  exact ⟨(sound_start sound []).mirrored, (sound_start restarted []).mirrored⟩

def failedAdvance : List Call := [addBlock 1 [⟨[], [0], payment⟩], failingAdvance 100]

theorem failed_advance_restarts : ∃ final, run household {} failedAdvance = .ok final ∧
    Mirrored (populate final.tables final.cache) final.tables := by
  have evaluated : (run household {} failedAdvance).toOption.isSome = true := by decide +kernel
  cases ran : run household {} failedAdvance with
  | error fault =>
    rw [ran] at evaluated
    cases evaluated
  | ok final =>
    refine ⟨final, rfl, (restart_keeps_view (fun call member => ?_) ran).1⟩
    rcases List.mem_pair.mp member with rfl | rfl
    · rintro _ _ ⟨⟩
    · rintro _ _ ⟨⟩

end Opentxs.Wallet.Failures
