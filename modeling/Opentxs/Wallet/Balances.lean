import Mathlib.Algebra.BigOperators.Group.Finset.Sigma
import Opentxs.Wallet.Histories

/-! The balances are sums over the history: confirmed is what added blocks create and do not spend
again, and unconfirmed transactions add what they alone create and take what they alone spend. -/

namespace Opentxs.Wallet.Balances
open Library HeaderOracle BlockHeader Types Storage OutputCache Parsing Reports Outputs Tracking Editing Runs SpentStays
open Histories

variable {environment : Environment} {target : Int} {history : History} {cache : OutputCache}

/-- The outputs that are created in an added block, mature, and not spent in an added block. -/
def confirmedOutputs (target : Int) (history : History) : Finset Outpoint :=
  history.minedOutputs.filter fun id => ¬ history.Immature target id ∧ id ∉ history.spentOutputs

/-- The outputs that unconfirmed transactions alone create. -/
def incomingOutputs (history : History) : Finset Outpoint := history.drafted \ history.minedOutputs

/-- The outputs that unconfirmed transactions alone spend. -/
def outgoingOutputs (history : History) : Finset Outpoint := history.spending \ history.spentOutputs

def worth (cache : OutputCache) (outputs : Finset Outpoint) : Int := ∑ id ∈ outputs, valueOf cache id

/-! ## Faithful histories -/

/-- What is spent is mined, and what unconfirmed transactions alone spend is mature. -/
structure Faithful (target : Int) (history : History) : Prop where
  spentMined : ∀ id ∈ history.spentOutputs, id ∈ history.minedOutputs
  spendingMined : ∀ id ∈ history.spending, id ∈ history.minedOutputs
  spendingMature : ∀ id ∈ history.spending, id ∉ history.spentOutputs → ¬ history.Immature target id

/-- A block that spends no output that is created by unconfirmed transactions only. -/
structure Reckoned (cache : OutputCache) (entry : Position × BlockMatches) : Prop extends Timely cache entry where
  spends : ∀ id ∈ consumedOutputs entry.2,
    ReportsCreated entry.2 id ∨ (cache.outputs id).map Output.state ≠ some .unconfirmedNew

instance (cache : OutputCache) (entry : Position × BlockMatches) : Decidable (Reckoned cache entry) :=
  decidable_of_iff (Timely cache entry ∧ ∀ id ∈ consumedOutputs entry.2,
      ReportsCreated entry.2 id ∨ (cache.outputs id).map Output.state ≠ some .unconfirmedNew)
    ⟨fun both => ⟨both.1, both.2⟩, fun reckoned => ⟨reckoned.toTimely, reckoned.spends⟩⟩

/-- An unconfirmed transaction spends confirmed outputs only. -/
def SpendsConfirmed (cache : OutputCache) (spent : Finset Outpoint) : Prop :=
  ∀ id ∈ spent, (cache.outputs id).map Output.state = some .confirmedNew ∨
    (cache.outputs id).map Output.state = some .unconfirmedSpend

instance (cache : OutputCache) (spent : Finset Outpoint) : Decidable (SpendsConfirmed cache spent) :=
  inferInstanceAs (Decidable (∀ id ∈ spent, _))

/-- What a faithful history says of an output that is stored and not only drafted. -/
theorem Faithful.mined (faithful : Faithful target history) {id : Outpoint} (stored : history.stateOf target id ≠ none)
    (other : history.stateOf target id ≠ some .unconfirmedNew) : id ∈ history.minedOutputs := by
  by_contra unmined
  have unspent := mt (faithful.spentMined id) unmined
  have unspending := mt (faithful.spendingMined id) unmined
  rw [History.stateOf_unmined unspent unspending unmined] at stored other
  split at stored
  · rename_i drafted
    rw [if_pos drafted] at other
    exact other rfl
  · exact stored rfl

theorem block_faithful {before : Session} (tells : Tells target history before.cache) (faithful : Faithful target history)
    {entry : Position × BlockMatches} (reckoned : Reckoned before.cache entry)
    (admissible : ∀ id, Admissible target history entry id) : Faithful target (history.addBlock entry) := by
  have stays : ∀ id ∈ history.minedOutputs, id ∈ (history.addBlock entry).minedOutputs :=
    fun id mined => (History.mem_mined_addBlock _ _ _).mpr (Or.inl mined)
  constructor
  · intro id spent
    rcases (History.mem_spent_addBlock _ _ _).mp spent with old | new
    · exact stays id (faithful.spentMined id old)
    · rcases reckoned.spends id ((mem_consumedOutputs _ _).mpr new) with created | known
      · exact (History.mem_mined_addBlock _ _ _).mpr (Or.inr created)
      · rw [tells.states] at known
        by_cases stored : history.stateOf target id = none
        · exact (History.mem_mined_addBlock _ _ _).mpr (Or.inr ((admissible id).present new stored))
        · exact stays id (faithful.mined stored known)
  · intro id spending
    exact stays id (faithful.spendingMined id spending)
  · intro id spending unspent young
    have spent : id ∉ history.spentOutputs := fun gone => unspent ((History.mem_spent_addBlock _ _ _).mpr (Or.inl gone))
    have mature := faithful.spendingMature id spending spent
    rw [History.immature_addBlock] at young
    split at young
    · rename_i generated
      -- the spent output cannot be created as immature
      have state : history.stateOf target id = some .unconfirmedSpend := by
        rw [History.stateOf, if_neg spent, if_pos (show id ∈ history.spending from spending)]
      have permits := (admissible id).permits ((mem_generatedOutputs _ _).mp generated).1 _ state
      rw [show minedState target history entry id = .immature from if_pos ⟨generated, young.1⟩] at permits
      rcases permits with checked | checked <;> cases checked
    · exact mature young

theorem unconfirmed_faithful (tells : Tells target history cache) (faithful : Faithful target history)
    {created spent : Finset Outpoint} (confirmed : SpendsConfirmed cache spent) :
    Faithful target (history.addUnconfirmed created spent) := by
  have states : ∀ id ∈ spent, history.stateOf target id = some .confirmedNew ∨
      history.stateOf target id = some .unconfirmedSpend := by
    intro id member
    rw [← tells.states]
    exact confirmed id member
  constructor
  · exact faithful.spentMined
  · intro id spending
    rcases Finset.mem_union.mp spending with old | new
    · exact faithful.spendingMined id old
    · show id ∈ history.minedOutputs
      apply faithful.mined
      · rcases states id new with is | is <;> rw [is] <;> nofun
      · rcases states id new with is | is <;> rw [is] <;> nofun
  · intro id spending unspent young
    replace unspent : id ∉ history.spentOutputs := unspent
    replace young : history.Immature target id := young
    by_cases old : id ∈ history.spending
    · exact faithful.spendingMature id old unspent young
    · have new := (Finset.mem_union.mp spending).resolve_left old
      have mined : id ∈ history.minedOutputs := by
        obtain ⟨⟨row, known, rfl⟩, _⟩ := young
        exact tells.generatedMined row known
      have state := History.stateOf_immature unspent old mined young
      rcases states id new with is | is <;> rw [state] at is <;> cases is

theorem advance_faithful (faithful : Faithful target history) (position : Position) :
    Faithful target (history.advance position) :=
  ⟨faithful.spentMined, faithful.spendingMined, fun id spending unspent young =>
    faithful.spendingMature id spending unspent ((immature_advance _ _ _ _).mp young).1⟩

/-- Blocks are reckoned, unconfirmed transactions spend confirmed outputs only, and no spent output
is matured. -/
def reckoning (environment : Environment) : Conditions where
  block := Reckoned
  mempool cache item := SpendsConfirmed cache (consumedOutputs [item])
  advance := MaturesUnspent environment
  finalize cache transaction := SpendsConfirmed cache (getInputs transaction)

def Told (environment : Environment) : Database → Call → Prop := (reckoning environment).Met environment

instance (environment : Environment) (db : Database) (call : Call) : Decidable (Told environment db call) :=
  match call with
  | { operation := .addConfirmedTransactions .., .. } =>
    inferInstanceAs (Decidable (Program.Throughout (fun entry (session : Session) => Reckoned session.cache entry) _ _ _))
  | { operation := .addMempoolTransaction _ _ item, .. } => inferInstanceAs (Decidable (SpendsConfirmed _ (consumedOutputs [item])))
  | { operation := .advanceTo position, .. } => inferInstanceAs (Decidable (MaturesUnspent environment _ position))
  | { operation := .finalizeProposal _ _ transaction, .. } => inferInstanceAs (Decidable (SpendsConfirmed _ (getInputs transaction)))
  | { operation := .addProposal .., .. } | { operation := .cancelProposal .., .. }
  | { operation := .reserveUTXO .., .. } | { operation := .reserveOutpoint .., .. } | { operation := .reorg .., .. } =>
    inferInstanceAs (Decidable True)

theorem reckoning_keeps (environment : Environment) :
    (reckoning environment).Keeps environment fun history _ => Faithful environment.maturationTarget history where
  timely _ _ reckoned := reckoned.toTimely
  unspent _ _ unspent := unspent
  block tells faithful reckoned ran := by
    obtain ⟨generation, parsed, isParsed, _⟩ := Generations.block_generation ran
    exact block_faithful tells faithful reckoned (parsed_admissible tells reckoned.height isParsed)
  mempool tells faithful confirmed _ := unconfirmed_faithful tells faithful confirmed
  idle _ faithful _ _ := advance_faithful faithful _
  advance := by
    intro history position before after terms tells faithful _ same _
    exact advance_faithful faithful position
  finalize := by
    intro history before after id transaction terms tells faithful confirmed _ _
    exact unconfirmed_faithful tells faithful confirmed
  same faithful _ _ _ := faithful

/-! ## States and sets -/

section Sets

variable (tells : Tells target history cache) (filed : Filed cache.outputs cache.indexes.states)
include tells filed

theorem mem_getState (state : TxoState) (id : Outpoint) : id ∈ getState cache state ↔ history.stateOf target id = some state := by
  unfold getState
  rw [Index.mem_rows, filed.states, ← tells.states, Option.map_eq_some_iff]

theorem getState_outgoing : getState cache .unconfirmedSpend = outgoingOutputs history := by
  ext id
  rw [mem_getState tells filed, outgoingOutputs, Finset.mem_sdiff]
  unfold History.stateOf
  by_cases spent : id ∈ history.spentOutputs
  · simp [spent]
  · by_cases spending : id ∈ history.spending
    · simp [spent, spending]
    · simp only [spent, spending, if_false, false_and, iff_false]
      split
      · split <;> nofun
      · split <;> nofun

theorem getState_incoming (faithful : Faithful target history) : getState cache .unconfirmedNew = incomingOutputs history := by
  ext id
  rw [mem_getState tells filed, incomingOutputs, Finset.mem_sdiff]
  by_cases mined : id ∈ history.minedOutputs
  · simp only [mined, not_true_eq_false, and_false, iff_false]
    unfold History.stateOf
    split
    · nofun
    · split
      · nofun
      · split
        · nofun
        · nofun
  · rw [History.stateOf_unmined (mt (faithful.spentMined id) mined) (mt (faithful.spendingMined id) mined) mined]
    by_cases drafted : id ∈ history.drafted
    · simp [drafted, mined]
    · simp [drafted]

/-- Confirmed is what is confirmed new, and what unconfirmed transactions alone spend of it. -/
theorem getState_confirmed (faithful : Faithful target history) :
    getState cache .unconfirmedSpend ∪ getState cache .confirmedNew = confirmedOutputs target history := by
  ext id
  rw [Finset.mem_union, mem_getState tells filed, mem_getState tells filed, confirmedOutputs, Finset.mem_filter]
  by_cases mined : id ∈ history.minedOutputs
  · unfold History.stateOf
    by_cases spent : id ∈ history.spentOutputs
    · simp [spent]
    · by_cases spending : id ∈ history.spending
      · have mature := faithful.spendingMature id spending spent
        simp [mined, spent, spending, mature]
      · by_cases young : history.Immature target id
        · simp [mined, spent, spending, young]
        · simp [mined, spent, spending, young]
  · rw [History.stateOf_unmined (mt (faithful.spentMined id) mined) (mt (faithful.spendingMined id) mined) mined]
    simp only [mined, false_and, iff_false]
    split <;> simp

theorem states_disjoint : Disjoint (getState cache .unconfirmedSpend) (getState cache .confirmedNew) := by
  rw [Finset.disjoint_left]
  intro id spends new
  rw [mem_getState tells filed] at spends new
  rw [spends] at new
  cases new

end Sets

/-! ## Balances -/

theorem sumOf_all (cache : OutputCache) (state : TxoState) :
    sumOf cache (fun _ => true) state = worth cache (getState cache state) := by
  unfold sumOf worth
  rw [Finset.filter_true_of_mem fun _ _ => rfl]

theorem confirmed_worth (tells : Tells target history cache) (filed : Filed cache.outputs cache.indexes.states)
    (faithful : Faithful target history) : (getBalance cache).confirmed = worth cache (confirmedOutputs target history) := by
  show sumOf cache _ .unconfirmedSpend + sumOf cache _ .confirmedNew = _
  rw [sumOf_all, sumOf_all, ← getState_confirmed tells filed faithful]
  exact (Finset.sum_union (states_disjoint tells filed)).symm

theorem unconfirmed_worth (tells : Tells target history cache) (filed : Filed cache.outputs cache.indexes.states)
    (faithful : Faithful target history) : (getBalance cache).unconfirmed =
      (getBalance cache).confirmed + worth cache (incomingOutputs history) - worth cache (outgoingOutputs history) := by
  show (getBalance cache).confirmed + sumOf cache _ .unconfirmedNew - sumOf cache _ .unconfirmedSpend = _
  rw [sumOf_all, sumOf_all, getState_incoming tells filed faithful, getState_outgoing tells filed]

/-- Each stored output is indexed to one nym. -/
def OneOwner (cache : OutputCache) : Prop :=
  ∀ id, (cache.outputs id).isSome = true → ∃ owner, ∀ nym, (nym, id) ∈ cache.indexes.nyms ↔ nym = owner

theorem sumOf_nyms (filed : Filed cache.outputs cache.indexes.states) (owned : OneOwner cache) (state : TxoState) :
    ∑ nym ∈ getNyms cache, sumOf cache (fun id => (nym, id) ∈ cache.indexes.nyms) state = sumOf cache (fun _ => true) state := by
  have regrouped : ∑ nym ∈ getNyms cache, sumOf cache (fun id => (nym, id) ∈ cache.indexes.nyms) state =
      ∑ id ∈ getState cache state, ∑ nym ∈ (getNyms cache).filter fun nym => (nym, id) ∈ cache.indexes.nyms, valueOf cache id := by
    unfold sumOf
    apply Finset.sum_comm'
    intro nym id
    simp only [Finset.mem_filter, decide_eq_true_eq]
    tauto
  rw [regrouped, sumOf_all]
  apply Finset.sum_congr rfl
  intro id member
  unfold getState at member
  obtain ⟨output, found, _⟩ := (filed.states _ _).mp ((Index.mem_rows _ _ _).mp member)
  obtain ⟨owner, only⟩ := owned id (by rw [found]; rfl)
  have alone : (getNyms cache).filter (fun nym => (nym, id) ∈ cache.indexes.nyms) = {owner} := by
    ext nym
    rw [Finset.mem_filter, Finset.mem_singleton, ← only]
    exact and_iff_right_of_imp fun row => Finset.mem_image.mpr ⟨(nym, id), row, rfl⟩
  rw [alone, Finset.sum_singleton]

theorem nyms_total (filed : Filed cache.outputs cache.indexes.states) (owned : OneOwner cache) :
    ∑ nym ∈ getNyms cache, (getNymBalance cache nym).confirmed = (getBalance cache).confirmed ∧
      ∑ nym ∈ getNyms cache, (getNymBalance cache nym).unconfirmed = (getBalance cache).unconfirmed := by
  unfold getNymBalance getBalance balanceOf
  dsimp only
  constructor
  · rw [Finset.sum_add_distrib, sumOf_nyms filed owned, sumOf_nyms filed owned]
  · rw [Finset.sum_sub_distrib, Finset.sum_add_distrib, Finset.sum_add_distrib, sumOf_nyms filed owned, sumOf_nyms filed owned,
      sumOf_nyms filed owned]

/-- After every successful run without a reorg in which blocks, unconfirmed transactions and
advances are as the one state of an output can tell. -/
theorem balances_tell {calls : List Call} {db : Database} (ran : succeeds environment {} calls = some db)
    (forward : ∀ call ∈ calls, isForward call.operation = true) (told : Along environment (Told environment) {} calls) :
    (getBalance (populate db.tables db.cache)).confirmed =
        worth (populate db.tables db.cache) (confirmedOutputs environment.maturationTarget (historyOf {} calls)) ∧
      (getBalance (populate db.tables db.cache)).unconfirmed =
        (getBalance (populate db.tables db.cache)).confirmed +
          worth (populate db.tables db.cache) (incomingOutputs (historyOf {} calls)) -
          worth (populate db.tables db.cache) (outgoingOutputs (historyOf {} calls)) ∧
      (OneOwner (populate db.tables db.cache) →
        ∑ nym ∈ getNyms (populate db.tables db.cache), (getNymBalance (populate db.tables db.cache) nym).confirmed =
            (getBalance (populate db.tables db.cache)).confirmed ∧
          ∑ nym ∈ getNyms (populate db.tables db.cache), (getNymBalance (populate db.tables db.cache) nym).unconfirmed =
            (getBalance (populate db.tables db.cache)).unconfirmed) := by
  have faithful : Faithful environment.maturationTarget {} := ⟨nofun, nofun, nofun⟩
  obtain ⟨sound, tells, faithful⟩ := run_holds (reckoning_keeps environment) sound_empty ⟨tells_empty _, faithful⟩ forward told ran
  have filed : Filed (populate db.tables db.cache).outputs (populate db.tables db.cache).indexes.states :=
    (sound_start sound []).filed
  exact ⟨confirmed_worth tells filed faithful, unconfirmed_worth tells filed faithful, nyms_total filed⟩

/-! ## Unconfirmed spends -/

def addUnconfirmed (item : MatchedTransaction) : Call := { operation := .addMempoolTransaction 1 1 item }

/-- The mined payment is spent by a transaction in the mempool, which is mined later. -/
def minedPurchase : List Call :=
  [addBlock 1 [⟨[], [0], payment⟩], addUnconfirmed ⟨[0], [], purchase⟩, advance 50]

theorem mined_purchase_balance : ∃ db, succeeds household {} minedPurchase = some db ∧
    (getBalance (populate db.tables db.cache)).confirmed =
      worth (populate db.tables db.cache) (confirmedOutputs household.maturationTarget (historyOf {} minedPurchase)) ∧
    (getBalance (populate db.tables db.cache)).confirmed = 10 ∧ (getBalance (populate db.tables db.cache)).unconfirmed = 0 := by
  have evaluated : ((succeeds household {} minedPurchase).map fun db =>
      (getBalance (populate db.tables db.cache), decide (Along household (Told household) {} minedPurchase))) =
      some (⟨10, 0⟩, true) := by decide +kernel
  cases ran : succeeds household {} minedPurchase with
  | none =>
    rw [ran] at evaluated
    cases evaluated
  | some db =>
    rw [ran] at evaluated
    simp only [Option.map_some, Option.some.injEq, Prod.mk.injEq, decide_eq_true_eq] at evaluated
    obtain ⟨balance, told⟩ := evaluated
    refine ⟨db, rfl, (balances_tell ran (by decide) told).1, ?_, ?_⟩
    · rw [balance]
    · rw [balance]

/-- Both the payment and the purchase are in the mempool only. -/
def unminedPurchase : List Call := [addUnconfirmed ⟨[], [0], payment⟩, addUnconfirmed ⟨[0], [], purchase⟩]

/-- An output that unconfirmed transactions create and spend counts as confirmed. -/
theorem unmined_purchase_confirmed : ∃ db, succeeds household {} unminedPurchase = some db ∧
    (getBalance (populate db.tables db.cache)).confirmed ≠
      worth (populate db.tables db.cache) (confirmedOutputs household.maturationTarget (historyOf {} unminedPurchase)) := by
  have evaluated : ((succeeds household {} unminedPurchase).map fun db =>
      ((getBalance (populate db.tables db.cache)).confirmed,
        worth (populate db.tables db.cache) (confirmedOutputs household.maturationTarget (historyOf {} unminedPurchase)))) =
      some (10, 0) := by decide +kernel
  cases ran : succeeds household {} unminedPurchase with
  | none =>
    rw [ran] at evaluated
    cases evaluated
  | some db =>
    rw [ran] at evaluated
    simp only [Option.map_some, Option.some.injEq, Prod.mk.injEq] at evaluated
    obtain ⟨confirmed, mined⟩ := evaluated
    refine ⟨db, rfl, ?_⟩
    rw [confirmed, mined]
    decide

end Opentxs.Wallet.Balances
