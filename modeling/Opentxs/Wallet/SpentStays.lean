import Opentxs.Wallet.Runs

/-! A spent output stays spent while blocks and transactions are added and the height grows,
unless the height at which its creation matures is passed after it was spent. -/

namespace Opentxs.Wallet.SpentStays
open Library Library.Ordered HeaderOracle BlockHeader Types Storage OutputCache Parsing Reports Outputs
open Tracking Associations Editing Effects Runs

def isSpent (state : TxoState) : Bool := state = .unconfirmedSpend ∨ state = .confirmedSpend

/-- A spent output stays spent, and with a confirmed spend it stays that. -/
def StaysSpent (before after : TxoState) : Prop :=
  (before = .confirmedSpend → after = .confirmedSpend) ∧
    (before = .unconfirmedSpend → after = .unconfirmedSpend ∨ after = .confirmedSpend)

theorem StaysSpent.same (state : TxoState) : StaysSpent state state := ⟨id, Or.inl⟩

theorem StaysSpent.trans {first second third : TxoState} (early : StaysSpent first second) (late : StaysSpent second third) :
    StaysSpent first third := by
  refine ⟨fun confirmed => late.1 (early.1 confirmed), fun unconfirmed => ?_⟩
  rcases early.2 unconfirmed with still | confirmed
  · exact late.2 still
  · exact Or.inr (late.1 confirmed)

theorem StaysSpent.of_unspent {before : TxoState} (unspent : isSpent before = false) (after : TxoState) :
    StaysSpent before after := by
  constructor
  · rintro rfl
    cases unspent
  · rintro rfl
    cases unspent

theorem allowed_staysSpent {initialState finalState : TxoState}
    (allowed : checkTransition initialState finalState = .ok .allowed) : StaysSpent initialState finalState := by
  unfold StaysSpent
  cases initialState <;> cases finalState <;> cases allowed <;> decide

theorem moves_staysSpent {cache : OutputCache} {id : Outpoint} {output : Output} {finalState : TxoState}
    (found : cache.outputs id = some output) (moves : Moves cache id finalState) : StaysSpent output.state finalState := by
  induction moves with
  | created finalState absent =>
    rw [found] at absent
    cases absent
  | allowed old finalState stored allowed =>
    rw [found] at stored
    cases stored
    exact allowed_staysSpent allowed
  | later between finalState _ allowed ih => exact ih.trans (allowed_staysSpent allowed)

/-- Every stored output is still stored, and spent if it was. -/
def KeepsSpent (before after : Outpoint → Option Output) : Prop :=
  ∀ id output, before id = some output → ∃ later, after id = some later ∧ StaysSpent output.state later.state

theorem KeepsSpent.same (outputs : Outpoint → Option Output) : KeepsSpent outputs outputs :=
  fun _ output found => ⟨output, found, .same _⟩

theorem KeepsSpent.trans {first second third : Outpoint → Option Output} (early : KeepsSpent first second)
    (late : KeepsSpent second third) : KeepsSpent first third := by
  intro id output found
  obtain ⟨middle, foundMiddle, stays⟩ := early id output found
  obtain ⟨last, foundLast, stillStays⟩ := late id middle foundMiddle
  exact ⟨last, foundLast, stays.trans stillStays⟩

/-! ## One operation -/

variable {environment : Environment} {before after : Session}

theorem block_keepsSpent {account : AccountID} {subchain : SubchainID} {mempool : Bool}
    {entry : Position × BlockMatches} {result : Unit}
    (ran : addTransactionsInBlock environment account subchain mempool entry before = (.ok result, after)) :
    KeepsSpent before.cache.outputs after.cache.outputs := by
  obtain ⟨generation, parsed, isParsed, _, outcomes⟩ := addTransactionsInBlock_ok ran
  intro id output found
  rw [outcomes, found]
  have reported := isParsed.reported id
  cases result : parsed.transaction.find? id with
  | none => exact ⟨output, rfl, .same _⟩
  | some modification =>
    rw [result] at reported
    obtain ⟨moves, _, initial, _⟩ := reported_moves reported
    rw [found] at initial
    refine ⟨restated output modification.finalState entry.1, ?_, moves_staysSpent found moves⟩
    show outcome entry.1 modification (some output) = _
    rw [outcome, if_pos (by rw [initial]; rfl)]
    rfl

theorem addTransactions_keepsSpent {account : AccountID} {subchain : SubchainID} {mempool : Bool}
    {transactions : BatchedMatches} {processTransactions : Bool} {result : Unit}
    (ran : addTransactions environment account subchain mempool transactions processTransactions before = (.ok result, after)) :
    KeepsSpent before.cache.outputs after.cache.outputs := by
  obtain ⟨added, adding, committing⟩ := addTransactions_ok ran
  rw [(commit_ok committing).1]
  exact @Program.forEach_relates _ _ _ _
    (fun (before after : Session) => KeepsSpent before.cache.outputs after.cache.outputs) (fun session : Session => KeepsSpent.same session.cache.outputs)
    (fun _ _ _ early late => early.trans late) transactions (fun _ _ _ _ ran => block_keepsSpent ran) before added adding

theorem advance_keepsSpent {terms : Terms} {position : Position} (advanced : Advanced terms position before after)
    (unspent : ∀ id ∈ maturing terms.environment before.cache position, ∀ output, before.cache.outputs id = some output →
      isSpent output.state = false) : KeepsSpent before.cache.outputs after.cache.outputs := by
  intro id output found
  rw [advanced.outputs]
  dsimp only
  split
  · rename_i member
    rw [found]
    exact ⟨maturedOutput position output, rfl, .of_unspent (unspent id member output found) _⟩
  · exact ⟨output, found, .same _⟩

theorem finalize_keepsSpent {terms : Terms} {id : ProposalID} {transaction : Transaction}
    (filed : Filed before.cache.outputs before.cache.indexes.states) (finalized : Finalized terms id transaction before after) :
    KeepsSpent before.cache.outputs after.cache.outputs := by
  -- only unspent outputs are spent here
  have spends : KeepsSpent before.cache.outputs fun other =>
      spentBy (getInputs transaction) other (before.cache.outputs other) := by
    intro other output found
    unfold spentBy
    dsimp only
    split
    · rename_i member
      rw [found]
      refine ⟨restated output .unconfirmedSpend {}, rfl, .of_unspent ?_ _⟩
      rcases Finset.mem_union.mp (finalized.spendable member) with new | new
      · obtain ⟨_, same, state⟩ := (filed.states _ _).mp ((Index.mem_rows _ _ _).mp new)
        rw [found] at same
        cases same
        rw [state]
        decide
      · obtain ⟨_, same, state⟩ := (filed.states _ _).mp ((Index.mem_rows _ _ _).mp new)
        rw [found] at same
        cases same
        rw [state]
        decide
    · exact ⟨output, found, .same _⟩
  -- and what is created here was not stored, or as an orphan
  intro other output found
  rw [finalized.outputs]
  split
  · rename_i member
    have valid := finalized.fresh other member
    unfold validateOutput at valid
    rcases (of_decide_eq_true valid).2 with absent | orphaned
    · rw [outputExists, found] at absent
      cases absent
    · obtain ⟨_, same, state⟩ := (filed.states _ _).mp ((Index.mem_rows _ _ _).mp orphaned)
      rw [found] at same
      cases same
      obtain ⟨later, spent, _⟩ := spends other output found
      dsimp only at spent
      rw [spent]
      exact ⟨restated later .unconfirmedNew {}, rfl, .of_unspent (by rw [state]; decide) _⟩
  · exact spends other output found

/-! ## Runs -/

/-- Anything but a reorg. -/
def isForward : Operation → Bool
  | .reorg _ _ _ => false
  | _ => true

/-- No output that the call is about to mature is spent. -/
def Undisturbed (environment : Environment) (db : Database) (call : Call) : Prop :=
  match call.operation with
  | .advanceTo position =>
    Advances environment (populate db.tables db.cache) position →
      ∀ id ∈ maturing environment (populate db.tables db.cache) position,
        ((stored db id).map fun output => isSpent output.state) ≠ some true
  | _ => True

instance (environment : Environment) (db : Database) (call : Call) : Decidable (Undisturbed environment db call) :=
  match call with
  | { operation := .advanceTo position, .. } => by
    unfold Undisturbed Advances
    infer_instance
  | { operation := .addProposal .., .. } | { operation := .addConfirmedTransactions .., .. }
  | { operation := .addMempoolTransaction .., .. } | { operation := .cancelProposal .., .. }
  | { operation := .finalizeProposal .., .. } | { operation := .reserveUTXO .., .. }
  | { operation := .reserveOutpoint .., .. } | { operation := .reorg .., .. } =>
    inferInstanceAs (Decidable True)

theorem commits_of_forward {call : Call} (forward : isForward call.operation = true) : Commits call := by
  intro blocks ancestor same
  rw [same] at forward
  cases forward

theorem body_keepsSpent {db : Database} {call : Call} {reserved : Option (Outpoint × Output)} (sound : Sound db)
    (forward : isForward call.operation = true) (undisturbed : Undisturbed environment db call)
    (ran : body environment call (start db call.writes) = (.ok reserved, after)) :
    KeepsSpent (stored db) after.cache.outputs := by
  have orderly := sound_start sound call.writes
  unfold body at ran
  unfold Undisturbed at undisturbed
  cases operation : call.operation with
  | addProposal id content =>
    rw [operation] at ran
    obtain ⟨_, rfl⟩ := Program.pure_ok ran
    exact .same _
  | addConfirmedTransactions account subchain transactions =>
    rw [operation] at ran
    obtain ⟨_, middle, adding, returned⟩ := Program.bind_ok ran
    obtain ⟨_, rfl⟩ := Program.pure_ok returned
    exact addTransactions_keepsSpent adding
  | addMempoolTransaction account subchain item =>
    rw [operation] at ran
    obtain ⟨_, middle, adding, returned⟩ := Program.bind_ok ran
    obtain ⟨_, rfl⟩ := Program.pure_ok returned
    exact addTransactions_keepsSpent adding
  | advanceTo position =>
    rw [operation] at ran undisturbed
    obtain ⟨_, middle, advancing, returned⟩ := Program.bind_ok ran
    obtain ⟨_, rfl⟩ := Program.pure_ok returned
    have ends : after = start db call.writes ∨
        Advanced (terms environment (.advanceTo position) False) position (start db call.writes) after :=
      advanceTo_ok nofun advancing
    rcases ends with rfl | advanced
    · exact .same _
    · apply advance_keepsSpent advanced
      intro id member output found
      have unspent := undisturbed advanced.advances id member
      have isStored : stored db id = some output := found
      rw [isStored] at unspent
      exact Bool.eq_false_iff.mpr fun spent => unspent (congrArg some spent)
  | cancelProposal id =>
    rw [operation] at ran
    obtain ⟨_, middle, cancelling, returned⟩ := Program.bind_ok ran
    obtain ⟨_, rfl⟩ := Program.pure_ok returned
    rw [(@cancelProposal_writes _ _ Terms.loose _ _ cancelling).outputs]
    exact .same _
  | finalizeProposal id content transaction =>
    rw [operation] at ran
    obtain ⟨_, middle, finalizing, returned⟩ := Program.bind_ok ran
    obtain ⟨_, rfl⟩ := Program.pure_ok returned
    exact finalize_keepsSpent orderly.filed (@finalize_ok _ _ _ _ _ _ _ False _ finalizing)
  | reserveUTXO spender proposal policy =>
    rw [operation] at ran
    obtain ⟨_, middle, reserving, returned⟩ := Program.bind_ok ran
    obtain ⟨_, rfl⟩ := Program.pure_ok returned
    rw [(@reserveUTXO_ok _ _ Terms.loose _ _ _ _ nofun reserving).2.cache]
    exact .same _
  | reserveOutpoint spender proposal id =>
    rw [operation] at ran
    obtain ⟨_, middle, reserving, returned⟩ := Program.bind_ok ran
    obtain ⟨_, rfl⟩ := Program.pure_ok returned
    rw [(@reserve_ok _ _ Terms.loose _ _ _ nofun reserving).2.cache]
    exact .same _
  | reorg blocks ancestor committed =>
    rw [operation] at forward
    cases forward

/-- A spent output stays spent over every successful run without a reorg in which no height is
passed that matures a spent output. -/
theorem spent_stays {earlier calls : List Call} {db final : Database} (reached : run environment {} earlier = .ok db)
    (settled : ∀ call ∈ earlier, Commits call) (forward : ∀ call ∈ calls, isForward call.operation = true)
    (undisturbed : Along environment (Undisturbed environment) db calls)
    (ran : succeeds environment db calls = some final) {id : Outpoint} {output : Output} (found : stored db id = some output) :
    ∃ later, stored final id = some later ∧ StaysSpent output.state later.state := by
  have sound := run_sound settled sound_empty reached
  clear reached settled
  induction calls generalizing db output with
  | nil =>
    cases ran
    exact ⟨output, found, .same _⟩
  | cons call calls ih =>
    obtain ⟨outcome, performed, success, rest⟩ := succeeds_cons ran
    obtain ⟨here, later⟩ := undisturbed
    rw [performed] at later
    have goes := forward call List.mem_cons_self
    have next := perform_sound (commits_of_forward goes) sound performed
    have kept : KeepsSpent (stored db) (stored outcome.db) := by
      rcases perform_success performed success with ⟨id, content, _, rfl⟩ | ⟨reserved, session, body, rfl⟩
      · -- a proposal of its own changes no output
        intro id output found
        refine ⟨output, ?_, .same _⟩
        unfold stored populate at found ⊢
        exact found
      · have keeps := body_keepsSpent sound goes here body
        have orderly := edits_orderly (body_edits (commits_of_forward goes) rfl body).1 (sound_start sound call.writes)
        have populated : session.cache.populated = true := orderly.mirrored.populated
        intro id output found
        obtain ⟨later, isLater, stays⟩ := keeps id output found
        refine ⟨later, ?_, stays⟩
        unfold stored populate
        rw [if_pos populated]
        exact isLater
    obtain ⟨middle, foundMiddle, stays⟩ := kept id output found
    obtain ⟨last, foundLast, stillStays⟩ :=
      ih (fun later member => forward later (List.mem_cons_of_mem call member)) later rest foundMiddle next
    exact ⟨last, foundLast, stays.trans stillStays⟩

/-- Paid in block 1 and spent in block 2, long before block 1 is mature. -/
def paidAndSpent : List Call := [addBlock 1 [⟨[], [0], payment⟩], addBlock 2 [⟨[0], [], purchase⟩]]

theorem stays_spent_until_maturity : ∃ db final later,
    run household {} paidAndSpent = .ok db ∧ succeeds household db [advance 100] = some final ∧
      stored final ⟨1, 0⟩ = some later ∧ StaysSpent .confirmedSpend later.state := by
  have evaluated : ((run household {} paidAndSpent).toOption.map fun db =>
      ((succeeds household db [advance 100]).isSome, (stored db ⟨1, 0⟩).map Output.state,
        decide (Along household (Undisturbed household) db [advance 100]))) =
      some (true, some .confirmedSpend, true) := by decide +kernel
  cases reached : run household {} paidAndSpent with
  | error fault =>
    rw [reached] at evaluated
    cases evaluated
  | ok db =>
    rw [reached] at evaluated
    simp only [Except.toOption, Option.map_some, Option.some.injEq, Prod.mk.injEq, decide_eq_true_eq] at evaluated
    obtain ⟨returns, state, undisturbed⟩ := evaluated
    obtain ⟨final, ran⟩ := Option.isSome_iff_exists.mp returns
    obtain ⟨output, found, spent⟩ := Option.map_eq_some_iff.mp state
    obtain ⟨later, foundLater, stays⟩ := spent_stays reached (by
      intro call member
      rcases List.mem_cons.mp member with rfl | member
      · exact nofun
      · rw [List.mem_singleton.mp member]
        exact nofun) (by decide) undisturbed ran found
    rw [spent] at stays
    exact ⟨db, final, later, rfl, ran, foundLater, stays⟩

/-- When block 1 is mature its output, long spent, is new again. -/
theorem maturity_unspends : ∃ db final output later,
    run household {} paidAndSpent = .ok db ∧ succeeds household db [advance 2, advance 101] = some final ∧
      stored db ⟨1, 0⟩ = some output ∧ output.state = .confirmedSpend ∧
      stored final ⟨1, 0⟩ = some later ∧ later.state = .confirmedNew := by
  have evaluated : ((run household {} paidAndSpent).toOption.map fun db =>
      ((stored db ⟨1, 0⟩).map Output.state, (succeeds household db [advance 2, advance 101]).map fun final =>
        (stored final ⟨1, 0⟩).map Output.state)) =
      some (some .confirmedSpend, some (some .confirmedNew)) := by decide +kernel
  cases reached : run household {} paidAndSpent with
  | error fault =>
    rw [reached] at evaluated
    cases evaluated
  | ok db =>
    rw [reached] at evaluated
    simp only [Except.toOption, Option.map_some, Option.some.injEq, Prod.mk.injEq, Option.map_eq_some_iff] at evaluated
    obtain ⟨⟨output, found, spent⟩, final, ran, later, foundLater, new⟩ := evaluated
    exact ⟨db, final, output, later, rfl, ran, found, spent, foundLater, new⟩

end Opentxs.Wallet.SpentStays
