import Opentxs.Wallet.Runs

/-! An output is consumed by one proposal at most, and is free when it is reserved, if the
outputs that callers name are. -/

namespace Opentxs.Wallet.Reservations
open Library Library.Ordered HeaderOracle BlockHeader Types Storage OutputCache Parsing Reports Outputs
open Tracking Associations Editing Effects Isolation Runs

variable {environment : Environment} {before after : Session}

/-! ## Consumption over a call -/

/-- In memory and in the open tables no output is consumed anew. -/
def Unreserved (before after : Session) : Prop :=
  after.cache.consumedByProposal ⊆ before.cache.consumedByProposal ∧
    after.tables.proposalSpent ⊆ before.tables.proposalSpent

instance : Creates Unreserved where
  books _ _ same := ⟨subset_of_eq same.consumed, subset_of_eq same.proposalSpent⟩
  trans _ _ _ early late := ⟨late.1.trans early.1, late.2.trans early.2⟩
  erases _ _ fewer := ⟨fewer.consumed, fewer.proposalSpent⟩
  creates _ _ unreserving := ⟨unreserving.consumed, unreserving.proposalSpent⟩

instance (proposal : ProposalID) (output : Outpoint) : Creates (Reserving proposal output) where
  books _ _ same :=
    ⟨same.committed, (subset_of_eq same.consumed).trans (Finset.subset_insert _ _),
      (subset_of_eq same.proposalSpent).trans (Finset.subset_insert _ _)⟩
  trans _ _ _ early late := by
    refine ⟨late.committed.trans early.committed, late.consumed.trans ?_, late.proposalSpent.trans ?_⟩
    · exact Finset.insert_subset (Finset.mem_insert_self _ _) early.consumed
    · exact Finset.insert_subset (Finset.mem_insert_self _ _) early.proposalSpent
  erases _ _ fewer :=
    ⟨fewer.committed, fewer.consumed.trans (Finset.subset_insert _ _), fewer.proposalSpent.trans (Finset.subset_insert _ _)⟩
  creates _ _ unreserving :=
    ⟨unreserving.committed, unreserving.consumed.trans (Finset.subset_insert _ _),
      unreserving.proposalSpent.trans (Finset.subset_insert _ _)⟩

theorem commit_unreserved : Program.Relates Unreserved commit :=
  bind_relates nextWrite_relates fun _ => bind_relates (require_relates _) fun _ =>
    .modify fun _ => ⟨subset_rfl, subset_rfl⟩

theorem addProposal_unreserved (id : ProposalID) (content : Content) : Program.Relates Unreserved (addProposal id content) :=
  bind_relates nextWrite_relates fun _ => bind_relates (require_relates _) fun _ =>
    .modify fun _ => ⟨subset_rfl, subset_rfl⟩

theorem addTransactions_unreserved (account : AccountID) (subchain : SubchainID) (mempool : Bool)
    (transactions : BatchedMatches) (processTransactions : Bool) :
    Program.Relates Unreserved
      (addTransactions environment account subchain mempool transactions processTransactions) :=
  bind_relates (forEach_relates _ fun _ => addTransactionsInBlock_relates _ _ _ _ _) fun _ =>
    bind_relates commit_unreserved fun _ => require_relates _

theorem advanceTo_unreserved (position : Position) : Program.Relates Unreserved (advanceTo environment position) := by
  refine bind_relates readCache_relates fun _ => ite_relates (pure_relates _) ?_
  refine bind_relates (assertTrue_relates _) fun _ => ite_relates (pure_relates _) ?_
  refine bind_relates (forEach_relates _ fun _ => mature_relates _ _) fun _ => ?_
  exact bind_relates (updatePosition_relates _) fun _ => bind_relates (require_relates _) fun _ => commit_unreserved

theorem cancelProposal_unreserved (id : ProposalID) : Program.Relates Unreserved (cancelProposal id) :=
  bind_relates (finishProposal_relates _) fun _ => bind_relates (cancel_relates _) fun _ =>
    bind_relates (require_relates _) fun _ => commit_unreserved

theorem finalizeProposal_unreserved (id : ProposalID) (content : Content) (transaction : Transaction)
    (processTransactions : Bool) :
    Program.Relates Unreserved (finalizeProposal environment id content transaction processTransactions) := by
  refine bind_relates (assertTrue_relates _) fun _ => bind_relates (addProposal_unreserved _ _) fun _ => ?_
  refine bind_relates (releaseUnusedInputs_relates _ _) fun _ => bind_relates (validateInputs_relates _) fun _ => ?_
  refine bind_relates (validateOutputs_relates _) fun _ => ?_
  refine bind_relates (forEach_relates _ fun _ => changeTxoState_relates _ _ _) fun _ => ?_
  refine bind_relates (forEach_relates _ fun _ => setOutputState_relates _ _ _ _) fun _ => ?_
  exact bind_relates (require_relates _) fun _ => commit_unreserved

theorem reorg_unreserved (blocks : List (SubchainID × Position)) (ancestor : Position) (committed : Bool) :
    Program.Relates Unreserved (reorg blocks ancestor committed) :=
  bind_relates (forEach_relates _ fun _ => startReorg_relates _) fun _ =>
    bind_relates (finalizeReorg_relates _) fun _ => onlyIf_relates commit_unreserved

/-- The proposal and the output that the call names, if it asks to reserve one. -/
def reserves : Operation → Bool
  | .reserveUTXO _ _ _ => true
  | .reserveOutpoint _ _ _ => true
  | _ => false

theorem unreserved_relates {program : Writing Unit} (inside : Program.Relates Unreserved program) :
    Program.Relates Unreserved (unreserved program) := bind_relates inside fun _ => pure_relates _

theorem body_unreserved {call : Call} (other : reserves call.operation = false) :
    Program.Relates Unreserved (body environment call) := by
  unfold body
  cases operation : call.operation with
  | addProposal id content => exact pure_relates _
  | addConfirmedTransactions account subchain transactions =>
    exact unreserved_relates (addTransactions_unreserved _ _ _ _ _)
  | addMempoolTransaction account subchain item => exact unreserved_relates (addTransactions_unreserved _ _ _ _ _)
  | advanceTo position => exact unreserved_relates (advanceTo_unreserved _)
  | cancelProposal id => exact unreserved_relates (cancelProposal_unreserved _)
  | finalizeProposal id content transaction => exact unreserved_relates (finalizeProposal_unreserved _ _ _ _)
  | reorg blocks ancestor committed => exact unreserved_relates (reorg_unreserved _ _ _)
  | reserveUTXO spender proposal policy =>
    rw [operation] at other
    cases other
  | reserveOutpoint spender proposal id =>
    rw [operation] at other
    cases other

/-- What the tables hold as consumed stays within what the memory holds. -/
theorem edit_within {terms : Terms} (edit : Edit terms before after) (within : before.tables.proposalSpent ⊆ before.cache.consumedByProposal) :
    after.tables.proposalSpent ⊆ after.cache.consumedByProposal := by
  cases edit with
  | associations change paired reassociates =>
    rw [reassociates.cache, reassociates.tables]
    show change.proposalSpent before.tables.proposalSpent ⊆ change.consumed before.cache.consumedByProposal
    rw [paired.consumed]
    exact paired.monotone _ _ within
  | proposals cache tables committed =>
    rw [cache, tables.proposalSpent]
    exact within
  | replaced id old new known keys departs replaced =>
    rw [replaced.cache, replaced.tables]
    exact within
  | created id output isGeneration middle known created owned =>
    rw [owned.cache, owned.tables, created.cache, created.tables]
    exact within
  | positioned position positioned =>
    rw [positioned.cache, positioned.tables]
    exact within
  | pruned good single pruned =>
    rw [pruned.cache, pruned.tables]
    exact within
  | committed cache tables committed =>
    rw [cache, tables]
    exact within

theorem edits_within {terms : Terms} (edits : Edits terms before after) (within : before.tables.proposalSpent ⊆ before.cache.consumedByProposal) :
    after.tables.proposalSpent ⊆ after.cache.consumedByProposal := by
  induction edits with
  | refl => exact within
  | tail _ edit ih => exact edit_within edit ih

/-! ## Between calls -/

def Exclusive (rows : Index ProposalID) : Prop := ∀ first second id, (first, id) ∈ rows → (second, id) ∈ rows → first = second

theorem Exclusive.subset {rows more : Index ProposalID} (exclusive : Exclusive more) (subset : rows ⊆ more) :
    Exclusive rows :=
  fun first second id inFirst inSecond => exclusive first second id (subset inFirst) (subset inSecond)

theorem Exclusive.insert {rows : Index ProposalID} (exclusive : Exclusive rows) {proposal : ProposalID} {output : Outpoint}
    (free : ∀ other, (other, output) ∉ rows) : Exclusive (insert (proposal, output) rows) := by
  intro first second id inFirst inSecond
  rw [Finset.mem_insert, Prod.mk.injEq] at inFirst inSecond
  rcases inFirst with ⟨rfl, rfl⟩ | inFirst
  · rcases inSecond with ⟨rfl, _⟩ | inSecond
    · rfl
    · exact absurd inSecond (free second)
  · rcases inSecond with ⟨rfl, rfl⟩ | inSecond
    · exact absurd inFirst (free first)
    · exact exclusive first second id inFirst inSecond

/-- Which proposals consume which outputs, as the next call finds it. -/
def consumers (db : Database) : Index ProposalID := (populate db.tables db.cache).consumedByProposal

/-- What is held in memory, also after a failed call, and what is stored exclude each other. -/
structure Held (db : Database) : Prop where
  exclusive : Exclusive (db.cache.consumedByProposal ∪ db.tables.proposalSpent)
  loaded : db.cache.populated = true → db.tables.proposalSpent ⊆ db.cache.consumedByProposal

theorem consumers_eq {db : Database} (held : Held db) :
    consumers db = db.cache.consumedByProposal ∪ db.tables.proposalSpent := by
  unfold consumers populate
  cases populated : db.cache.populated with
  | true =>
    rw [if_pos rfl]
    exact (Finset.union_eq_left.mpr (held.loaded populated)).symm
  | false => rw [if_neg Bool.false_ne_true]

theorem held_empty : Held {} := by
  refine ⟨?_, nofun⟩
  intro first second id inFirst
  exact absurd inFirst (Finset.notMem_empty _)

theorem start_within {db : Database} (held : Held db) (writes : List Bool) :
    (start db writes).tables.proposalSpent ⊆ (start db writes).cache.consumedByProposal := by
  show db.tables.proposalSpent ⊆ consumers db
  rw [consumers_eq held]
  exact Finset.subset_union_right

/-- A call that leaves no more in memory and in the tables than these rows keeps the order. -/
theorem held_within {db : Database} {rows : Index ProposalID} (exclusive : Exclusive rows)
    (memory : db.cache.consumedByProposal ⊆ rows) (tables : db.tables.proposalSpent ⊆ rows)
    (loaded : db.cache.populated = true → db.tables.proposalSpent ⊆ db.cache.consumedByProposal) : Held db :=
  ⟨exclusive.subset (Finset.union_subset memory tables), loaded⟩

/-- Whether a policy or, where there is none, the caller permits an unconfirmed output. -/
def permitsUnconfirmed : Operation → Bool
  | .reserveUTXO _ _ policy => policy.unconfirmedIncoming || policy.unconfirmedChange
  | _ => true

def isUnspent (permitted : Bool) (state : TxoState) : Bool :=
  state = .confirmedNew ∨ (state = .unconfirmedNew ∧ permitted)

def ownedBy (db : Database) (spender : Nym) (id : Outpoint) : Bool :=
  (spender, id) ∈ (populate db.tables db.cache).indexes.nyms

def isFree (db : Database) (id : Outpoint) : Bool := id ∉ (consumers db).image Prod.snd

/-- The output is the spender's, unspent and consumed by no proposal. -/
def isSpendable (db : Database) (spender : Nym) (permitted : Bool) (id : Outpoint) (output : Output) : Bool :=
  ownedBy db spender id && isUnspent permitted output.state && isFree db id

/-- An output that the caller names is spendable, if it is stored at all. -/
def NamesSpendable (db : Database) (call : Call) : Prop :=
  match call.operation with
  | .reserveOutpoint spender proposal id =>
    (db.tables.proposals proposal).isSome → (stored db id).all (isSpendable db spender true id)
  | _ => True

instance (db : Database) (call : Call) : Decidable (NamesSpendable db call) := by
  unfold NamesSpendable
  cases call.operation with
  | reserveOutpoint spender proposal id => exact inferInstanceAs (Decidable (_ → _ = true))
  | _ => exact inferInstanceAs (Decidable True)

/-- What the call returned was spendable just before. -/
def Rightful (db : Database) (call : Call) (utxo : Outpoint × Output) : Prop :=
  stored db utxo.1 = some utxo.2 ∧
    match call.operation with
    | .reserveUTXO spender _ _ => isSpendable db spender (permitsUnconfirmed call.operation) utxo.1 utxo.2 = true
    | .reserveOutpoint spender _ _ => isSpendable db spender (permitsUnconfirmed call.operation) utxo.1 utxo.2 = true
    | _ => False

/-! ## Selecting -/

theorem mem_sortFifo (cache : OutputCache) (outpoints : Finset Outpoint) (id : Outpoint) :
    id ∈ sortFifo cache outpoints ↔ id ∈ outpoints := by
  unfold sortFifo
  rw [List.mem_map]
  constructor
  · rintro ⟨item, listed, rfl⟩
    obtain ⟨other, member, same⟩ := Finset.mem_image.mp ((SortedList.mem_ordered _ _).mp listed)
    rw [← same]
    exact member
  · intro member
    exact ⟨_, (SortedList.mem_ordered _ _).mpr (Finset.mem_image_of_mem _ member), rfl⟩

theorem pickOne_some {cache : OutputCache} {spender : Nym} {candidates : Finset Outpoint} {required : Option TxoTag}
    {id : Outpoint} (picked : pickOne cache spender candidates required = some id) :
    id ∈ candidates ∧ (spender, id) ∈ cache.indexes.nyms ∧ id ∉ getReserved cache := by
  unfold pickOne at picked
  have available := (mem_sortFifo _ _ _).mp (List.mem_of_find?_eq_some picked)
  rw [Finset.mem_sdiff, Finset.mem_inter, Index.mem_rows] at available
  exact ⟨available.1.1, available.1.2, available.2⟩

theorem selectOutput_some {cache : OutputCache} {spender : Nym} {policy : SpendPolicy} {id : Outpoint}
    (selected : selectOutput cache spender policy = some id) :
    (spender, id) ∈ cache.indexes.nyms ∧ id ∉ getReserved cache ∧
      (id ∈ getState cache .confirmedNew ∨
        id ∈ getState cache .unconfirmedNew ∧ (policy.unconfirmedIncoming || policy.unconfirmedChange) = true) := by
  unfold selectOutput at selected
  cases confirmed : pickOne cache spender (getState cache .confirmedNew) none with
  | some found =>
    rw [confirmed] at selected
    cases selected
    obtain ⟨state, owned, free⟩ := pickOne_some confirmed
    exact ⟨owned, free, Or.inl state⟩
  | none =>
    rw [confirmed] at selected
    dsimp only at selected
    split at selected
    · rename_i incoming
      obtain ⟨state, owned, free⟩ := pickOne_some selected
      exact ⟨owned, free, Or.inr ⟨state, by rw [incoming]; rfl⟩⟩
    · split at selected
      · rename_i change
        obtain ⟨state, owned, free⟩ := pickOne_some selected
        exact ⟨owned, free, Or.inr ⟨state, by rw [change, Bool.or_true]⟩⟩
      · cases selected

/-- What a policy selects is spendable. -/
theorem selected_spendable {db : Database} (sound : Sound db) {spender : Nym} {policy : SpendPolicy} {id : Outpoint}
    {output : Output} (selected : selectOutput (populate db.tables db.cache) spender policy = some id)
    (found : stored db id = some output) :
    isSpendable db spender (policy.unconfirmedIncoming || policy.unconfirmedChange) id output = true := by
  have filed := (sound_start sound []).filed
  obtain ⟨owned, free, state⟩ := selectOutput_some selected
  unfold isSpendable
  rw [Bool.and_eq_true, Bool.and_eq_true]
  refine ⟨⟨decide_eq_true owned, decide_eq_true ?_⟩, decide_eq_true free⟩
  rcases state with confirmed | ⟨unconfirmed, permitted⟩
  · obtain ⟨_, same, is⟩ := (filed.states _ _).mp ((Index.mem_rows _ _ _).mp confirmed)
    replace same : stored db id = some _ := same
    rw [found] at same
    cases same
    exact Or.inl is
  · obtain ⟨_, same, is⟩ := (filed.states _ _).mp ((Index.mem_rows _ _ _).mp unconfirmed)
    replace same : stored db id = some _ := same
    rw [found] at same
    cases same
    exact Or.inr ⟨is, permitted⟩

theorem free_of_spendable {db : Database} {spender : Nym} {permitted : Bool} {id : Outpoint} {output : Output}
    (spendable : isSpendable db spender permitted id output = true) : ∀ other, (other, id) ∉ consumers db := by
  unfold isSpendable at spendable
  rw [Bool.and_eq_true] at spendable
  intro other member
  exact of_decide_eq_true spendable.2 (Finset.mem_image_of_mem Prod.snd member)

/-! ## Calls -/

/-- A call that reserves at most this free output keeps the order. -/
theorem reserving_held {db : Database} (held : Held db) {proposal : ProposalID} {id : Outpoint} {call : Call}
    (free : ∀ other, (other, id) ∉ consumers db) (reserving : Reserving proposal id (start db call.writes) after) :
    Held { tables := after.committed, cache := clear after.cache, proposalData := after.proposalData } := by
  have exclusive : Exclusive (consumers db) := by
    rw [consumers_eq held]
    exact held.exclusive
  apply held_within (@Exclusive.insert _ exclusive proposal _ free)
  · exact reserving.consumed
  · show after.committed.proposalSpent ⊆ _
    rw [reserving.committed]
    exact (start_within held call.writes).trans (Finset.subset_insert _ _)
  · exact nofun

theorem reserved_held {terms : Terms} {db : Database} (held : Held db) {proposal : ProposalID} {utxo : Outpoint × Output}
    {call : Call} (free : ∀ other, (other, utxo.1) ∉ consumers db)
    (reserved : Reserved terms proposal utxo (start db call.writes) after) :
    Held { tables := after.committed, cache := after.cache, proposalData := after.proposalData } := by
  have exclusive : Exclusive (consumers db) := by
    rw [consumers_eq held]
    exact held.exclusive
  have within := edits_within reserved.edits (start_within held call.writes)
  apply held_within (@Exclusive.insert _ exclusive proposal _ free)
  · show after.cache.consumedByProposal ⊆ _
    rw [reserved.cache]
    exact subset_rfl
  · show after.committed.proposalSpent ⊆ _
    rw [reserved.committed, reserved.tables]
    exact Finset.insert_subset_insert _ (start_within held call.writes)
  · intro _
    show after.committed.proposalSpent ⊆ _
    rw [reserved.committed]
    exact within

theorem other_held {db : Database} (held : Held db) {call : Call} (other : reserves call.operation = false)
    {result : Except Fault (Option (Outpoint × Output))} (commits : Commits call)
    (ran : body environment call (start db call.writes) = (result, after)) :
    (∀ reserved, result = .ok reserved → Held { tables := after.committed, cache := after.cache, proposalData := after.proposalData }) ∧
      ∀ fault, result = .error fault →
        Held { tables := after.committed, cache := clear after.cache, proposalData := after.proposalData } := by
  have exclusive : Exclusive (consumers db) := by
    rw [consumers_eq held]
    exact held.exclusive
  have within := start_within held call.writes
  have fewer := @body_unreserved environment call other (start db call.writes)
  rw [ran] at fewer
  have tables : after.tables.proposalSpent ⊆ consumers db := fewer.2.trans within
  constructor
  · rintro reserved rfl
    obtain ⟨edits, same⟩ := body_edits commits rfl ran
    apply held_within exclusive fewer.1
    · show after.committed.proposalSpent ⊆ _
      rw [same]
      exact tables
    · intro _
      show after.committed.proposalSpent ⊆ _
      rw [same]
      exact edits_within edits within
  · rintro fault rfl
    apply held_within exclusive fewer.1
    · show after.committed.proposalSpent ⊆ _
      rcases body_failed ran with same | ⟨id, content, same⟩ | ⟨_, same⟩
      · rw [same]
        exact within
      · rw [same]
        exact within
      · rw [same]
        exact tables
    · exact nofun

theorem free_of_selected {db : Database} {spender : Nym} {policy : SpendPolicy} {id : Outpoint}
    (selected : selectOutput (populate db.tables db.cache) spender policy = some id) :
    ∀ other, (other, id) ∉ consumers db := by
  intro other member
  exact (selectOutput_some selected).2.1 (Finset.mem_image_of_mem Prod.snd member)

theorem reserved_ok {program : Writing (Outpoint × Output)} {result : Option (Outpoint × Output)}
    (ran : reserved program before = (.ok result, after)) :
    ∃ utxo, result = some utxo ∧ program before = (.ok utxo, after) := by
  obtain ⟨utxo, middle, first, returned⟩ := Program.bind_ok ran
  obtain ⟨rfl, rfl⟩ := Program.pure_ok returned
  exact ⟨utxo, rfl, first⟩

theorem unreserved_none {program : Writing Unit} {result : Option (Outpoint × Output)}
    (ran : unreserved program before = (.ok result, after)) : result = none := by
  obtain ⟨_, middle, first, returned⟩ := Program.bind_ok ran
  exact (Program.pure_ok returned).1

/-- A call that fails before it writes anything. -/
theorem unchanged_held {db : Database} (held : Held db) (writes : List Bool) :
    Held { tables := (start db writes).committed, cache := clear (start db writes).cache, proposalData := db.proposalData } := by
  have exclusive : Exclusive (consumers db) := by
    rw [consumers_eq held]
    exact held.exclusive
  exact held_within exclusive subset_rfl (start_within held writes) nofun

/-- What holds after a call: the order is kept, and what was reserved was spendable. -/
structure Keeps (db : Database) (call : Call) (result : Except Fault (Option (Outpoint × Output))) (after : Session) :
    Prop where
  succeeds : ∀ utxo, result = .ok utxo →
    Held { tables := after.committed, cache := after.cache, proposalData := after.proposalData }
  fails : ∀ fault, result = .error fault →
    Held { tables := after.committed, cache := clear after.cache, proposalData := after.proposalData }
  rightful : ∀ utxo, result = .ok (some utxo) → Rightful db call utxo

theorem reserveUTXO_keeps {db : Database} (sound : Sound db) (held : Held db) {call : Call} {spender : Nym}
    {proposal : ProposalID} {policy : SpendPolicy} (operation : call.operation = .reserveUTXO spender proposal policy)
    {result : Except Fault (Option (Outpoint × Output))}
    (ran : reserved (reserveUTXO spender proposal policy) (start db call.writes) = (result, after)) :
    Keeps db call result after := by
  cases result with
  | ok utxo =>
    obtain ⟨utxo, rfl, reserving⟩ := reserved_ok ran
    obtain ⟨selected, reserves⟩ := @reserveUTXO_ok _ _ Terms.loose _ _ _ _ nofun reserving
    refine ⟨fun _ _ => reserved_held held (free_of_selected selected) reserves, nofun, ?_⟩
    intro other same
    cases same
    refine ⟨reserves.stored, ?_⟩
    rw [operation]
    exact selected_spendable sound selected reserves.stored
  | error fault =>
    have failing := reserved_failed ran
    refine ⟨nofun, fun _ _ => ?_, nofun⟩
    cases selected : selectOutput (start db call.writes).cache spender policy with
    | none =>
      rw [reserveUTXO_none selected] at failing
      cases failing
      exact unchanged_held held call.writes
    | some id =>
      have reserving : Reserving proposal id (start db call.writes) after := by
        refine reserveUTXO_failed (fun other same => ?_) failing
        rw [selected] at same
        cases same
        exact choose_relates fun _ _ reserving => reserving
      exact reserving_held held (free_of_selected selected) reserving

theorem reserveOutpoint_keeps {db : Database} (held : Held db) {call : Call} {spender : Nym} {proposal : ProposalID}
    {id : Outpoint} (operation : call.operation = .reserveOutpoint spender proposal id)
    (named : (stored db id).all (isSpendable db spender true id) = true)
    {result : Except Fault (Option (Outpoint × Output))}
    (ran : reserved (reserveOutpoint proposal id) (start db call.writes) = (result, after)) :
    Keeps db call result after := by
  cases found : stored db id with
  | none =>
    have chosen : choose proposal id (start db call.writes) = (.error .exception, start db call.writes) := choose_absent found
    have stops : reserved (reserveOutpoint proposal id) (start db call.writes) = (.error .exception, start db call.writes) :=
      Program.bind_of_error (Program.bind_of_error chosen)
    rw [stops] at ran
    cases ran
    exact ⟨nofun, fun _ _ => unchanged_held held call.writes, nofun⟩
  | some output =>
    rw [found] at named
    replace named : isSpendable db spender true id output = true := named
    cases result with
    | ok utxo =>
      obtain ⟨utxo, rfl, reserving⟩ := reserved_ok ran
      obtain ⟨rfl, reserves⟩ := @reserve_ok _ _ Terms.loose _ _ _ nofun reserving
      refine ⟨fun _ _ => reserved_held held (free_of_spendable named) reserves, nofun, ?_⟩
      intro other same
      cases same
      have same : stored db utxo.1 = some utxo.2 := reserves.stored
      rw [same] at found
      cases found
      refine ⟨same, ?_⟩
      rw [operation]
      exact named
    | error fault =>
      have reserving : Reserving proposal id (start db call.writes) after :=
        reserve_failed (choose_relates fun _ _ reserving => reserving) (reserved_failed ran)
      exact ⟨nofun, fun _ _ => reserving_held held (free_of_spendable named) reserving, nofun⟩

/-- No other call returns an output. -/
theorem body_other {call : Call} (other : reserves call.operation = false) :
    (∃ program, body environment call = unreserved program) ∨ body environment call = pure none := by
  unfold body
  cases operation : call.operation with
  | addProposal id content => exact Or.inr rfl
  | reserveUTXO spender proposal policy =>
    rw [operation] at other
    cases other
  | reserveOutpoint spender proposal id =>
    rw [operation] at other
    cases other
  | _ => exact Or.inl ⟨_, rfl⟩

theorem body_keeps {db : Database} (sound : Sound db) (held : Held db) {call : Call} (commits : Commits call)
    (present : proposalMissing db call.operation = false) (spendable : NamesSpendable db call)
    {result : Except Fault (Option (Outpoint × Output))}
    (ran : body environment call (start db call.writes) = (result, after)) : Keeps db call result after := by
  cases other : reserves call.operation with
  | false =>
    obtain ⟨succeeds, fails⟩ := other_held held other commits ran
    refine ⟨succeeds, fails, ?_⟩
    rintro utxo rfl
    rcases @body_other environment call other with ⟨program, same⟩ | same
    · rw [same] at ran
      cases unreserved_none ran
    · rw [same] at ran
      cases (Program.pure_ok ran).1
  | true =>
    cases operation : call.operation with
    | reserveUTXO spender proposal policy =>
      have same : body environment call = reserved (reserveUTXO spender proposal policy) := by
        unfold body
        rw [operation]
      rw [same] at ran
      exact reserveUTXO_keeps sound held operation ran
    | reserveOutpoint spender proposal id =>
      have same : body environment call = reserved (reserveOutpoint proposal id) := by
        unfold body
        rw [operation]
      rw [same] at ran
      unfold NamesSpendable at spendable
      rw [operation] at present spendable
      have named := spendable (by rw [← Option.not_isNone]; exact congrArg not present)
      exact reserveOutpoint_keeps held operation named ran
    | _ =>
      rw [operation] at other
      cases other

theorem perform_keeps {db : Database} (sound : Sound db) (held : Held db) {call : Call} {outcome : Outcome}
    (commits : Commits call) (spendable : NamesSpendable db call) (performed : perform environment db call = .ok outcome) :
    Held outcome.db ∧ ∀ utxo, outcome.reserved = some utxo → Rightful db call utxo := by
  unfold perform at performed
  split at performed
  · split at performed
    · cases performed
      exact ⟨⟨held.exclusive, held.loaded⟩, nofun⟩
    · cases performed
      exact ⟨held, nofun⟩
  · split at performed
    · cases performed
      exact ⟨held, nofun⟩
    · rename_i present
      rw [Bool.not_eq_true] at present
      unfold execute at performed
      cases ran : body environment call (start db call.writes) with
      | mk result session =>
        have keeps := body_keeps sound held commits present spendable ran
        rw [ran] at performed
        cases result with
        | ok reserved =>
          cases performed
          refine ⟨keeps.succeeds reserved rfl, ?_⟩
          rintro utxo rfl
          exact keeps.rightful utxo rfl
        | error fault =>
          cases fault with
          | exception =>
            cases performed
            exact ⟨keeps.fails .exception rfl, nofun⟩
          | terminate => cases performed
          | dangling => cases performed
          | outOfFuel => cases performed

/-- In every run in which the outputs that callers name are spendable, no output has two
consumers, and whatever is reserved was spendable just before. -/
theorem no_double_reservation {calls : List Call} {final : Database} (ran : run environment {} calls = .ok final)
    (settled : ∀ call ∈ calls, Commits call) (named : Along environment NamesSpendable {} calls) :
    Exclusive (consumers final) ∧
      ∀ call outcome utxo, Commits call → NamesSpendable final call → perform environment final call = .ok outcome →
        outcome.reserved = some utxo → Rightful final call utxo := by
  suffices kept : ∀ calls db, Sound db → Held db → (∀ call ∈ calls, Commits call) → Along environment NamesSpendable db calls →
      run environment db calls = .ok final → Sound final ∧ Held final by
    obtain ⟨sound, held⟩ := kept calls {} sound_empty held_empty settled named ran
    refine ⟨?_, ?_⟩
    · rw [consumers_eq held]
      exact held.exclusive
    · intro call outcome utxo commits spendable performed reserved
      exact (perform_keeps sound held commits spendable performed).2 utxo reserved
  clear settled named ran calls
  intro calls
  induction calls with
  | nil =>
    intro db sound held _ _ ran
    cases ran
    exact ⟨sound, held⟩
  | cons call calls ih =>
    intro db sound held settled named ran
    obtain ⟨here, later⟩ := named
    unfold run at ran
    cases performed : perform environment db call with
    | error fault =>
      rw [performed] at ran
      cases ran
    | ok outcome =>
      rw [performed] at ran later
      have commits := settled call List.mem_cons_self
      exact ih outcome.db (perform_sound commits sound performed) (perform_keeps sound held commits here performed).1
        (fun other member => settled other (List.mem_cons_of_mem call member)) later ran

def propose (id : ProposalID) : Call := { operation := .addProposal id 0 }

def reserveAny (spender : Nym) (proposal : ProposalID) : Call := { operation := .reserveUTXO spender proposal {} }

def reserveNamed (spender : Nym) (proposal : ProposalID) (id : Outpoint) : Call :=
  { operation := .reserveOutpoint spender proposal id }

/-- Two proposals and an output for one of them. -/
def funded : List Call := [propose 5, propose 6, addBlock 1 [⟨[], [0], payment⟩]]

theorem no_double_reservation_funded : ∃ final outcome utxo, run household {} funded = .ok final ∧
    Exclusive (consumers final) ∧ perform household final (reserveAny 1 5) = .ok outcome ∧
    outcome.reserved = some utxo ∧ Rightful final (reserveAny 1 5) utxo := by
  have evaluated : ((run household {} funded).toOption.map fun final =>
      ((perform household final (reserveAny 1 5)).toOption.map fun outcome => outcome.reserved.isSome,
        decide (Along household NamesSpendable {} funded))) = some (some true, true) := by decide +kernel
  cases ran : run household {} funded with
  | error fault =>
    rw [ran] at evaluated
    cases evaluated
  | ok final =>
    rw [ran] at evaluated
    cases performed : perform household final (reserveAny 1 5) with
    | error fault => simp [performed, Except.toOption] at evaluated
    | ok outcome =>
      simp only [performed, Except.toOption, Option.map_some, Option.some.injEq, Prod.mk.injEq, decide_eq_true_eq] at evaluated
      obtain ⟨utxo, reserved⟩ := Option.isSome_iff_exists.mp evaluated.1
      have settled : ∀ call ∈ funded, Commits call := by
        intro call member
        simp only [funded, List.mem_cons, List.not_mem_nil, or_false] at member
        rcases member with rfl | rfl | rfl <;> exact nofun
      obtain ⟨exclusive, rightful⟩ := no_double_reservation ran settled evaluated.2
      exact ⟨final, outcome, utxo, rfl, exclusive, performed, reserved,
        rightful _ outcome utxo nofun trivial performed reserved⟩

/-- The output of block 1 is spent in block 2. Then another nym's proposal names it and gets it. -/
theorem spent_output_reserved : ∃ final outcome utxo,
    run household {} (funded ++ [addBlock 2 [⟨[0], [], purchase⟩]]) = .ok final ∧
    perform household final (reserveNamed 2 6 ⟨1, 0⟩) = .ok outcome ∧ outcome.reserved = some utxo ∧
    utxo.2.state = .confirmedSpend ∧ ¬ Rightful final (reserveNamed 2 6 ⟨1, 0⟩) utxo := by
  have evaluated : ((run household {} (funded ++ [addBlock 2 [⟨[0], [], purchase⟩]])).toOption.bind fun final =>
      (perform household final (reserveNamed 2 6 ⟨1, 0⟩)).toOption.bind fun outcome =>
        outcome.reserved.map fun utxo => (utxo.2.state, isSpendable final 2 true utxo.1 utxo.2)) =
      some (.confirmedSpend, false) := by decide +kernel
  cases ran : run household {} (funded ++ [addBlock 2 [⟨[0], [], purchase⟩]]) with
  | error fault =>
    rw [ran] at evaluated
    cases evaluated
  | ok final =>
    rw [ran] at evaluated
    cases performed : perform household final (reserveNamed 2 6 ⟨1, 0⟩) with
    | error fault =>
      simp [performed, Except.toOption] at evaluated
    | ok outcome =>
      cases reserved : outcome.reserved with
      | none =>
        simp [performed, reserved, Except.toOption] at evaluated
      | some utxo =>
        simp only [performed, reserved, Except.toOption, Option.bind_some, Option.map_some, Option.some.injEq,
          Prod.mk.injEq] at evaluated
        refine ⟨final, outcome, utxo, rfl, performed, reserved, evaluated.1, ?_⟩
        rintro ⟨_, spendable⟩
        replace spendable : isSpendable final 2 true utxo.1 utxo.2 = true := spendable
        rw [evaluated.2] at spendable
        cases spendable

end Opentxs.Wallet.Reservations
