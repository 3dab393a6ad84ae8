import Opentxs.Wallet.Effects
import Opentxs.Wallet.Isolation

/-! Between operations the tables are in order, and so is the cache when it is loaded. Every
operation keeps this, whether it succeeds or not, if only a reorg is committed. -/

namespace Opentxs.Wallet.Runs
open Library Library.Ordered HeaderOracle BlockHeader Types Storage OutputCache Parsing Reports Outputs
open Tracking Associations Editing Effects Isolation

variable {before after : Session} {environment : Environment}

/-! ## Operations that return -/

/-- The account and the subchain to which an operation stores a new output. -/
def home (environment : Environment) (operation : Operation) (id : Outpoint) : AccountID × SubchainID :=
  match operation with
  | .addConfirmedTransactions account subchain _ => (account, subchain)
  | .addMempoolTransaction account subchain _ => (account, subchain)
  | .finalizeProposal _ _ transaction =>
    match (transaction.outputs[id.index]?).bind fun output => output.keys.head? with
    | some key => (key.account, environment.subchainID key.account key.subchain)
    | none => (0, 0)
  | _ => (0, 0)

def terms (environment : Environment) (operation : Operation) (strict : Prop) : Terms :=
  ⟨environment, home environment operation, strict⟩

theorem blocks_edits {terms : Terms} {account : AccountID} {subchain : SubchainID} {mempool : Bool}
    (home : ∀ id, terms.home id = (account, subchain)) (transactions : BatchedMatches) :
    ∀ before after, (terms.strict → mempool = false → Program.Throughout (fun entry session => MovesCommitted session entry)
        (addTransactionsInBlock terms.environment account subchain mempool) transactions before) →
      Program.forEach (addTransactionsInBlock terms.environment account subchain mempool) transactions before =
        (.ok (), after) → Edits terms before after := by
  induction transactions with
  | nil =>
    intro before after _ ran
    obtain ⟨_, rfl⟩ := Program.pure_ok ran
    exact .refl
  | cons entry transactions ih =>
    intro before after along ran
    obtain ⟨_, middle, first, rest⟩ := Program.bind_ok ran
    obtain ⟨_, _, _, _, writes, _⟩ :=
      addTransactionsInBlock_writes home (fun strict confirmed => (along strict confirmed).1) first
    refine writes.edits.trans (ih middle after (fun strict confirmed => ?_) rest)
    have later := (along strict confirmed).2
    rw [first] at later
    exact later

theorem addTransactions_ok {account : AccountID} {subchain : SubchainID} {mempool : Bool} {transactions : BatchedMatches}
    {processTransactions : Bool} {result : Unit}
    (ran : addTransactions environment account subchain mempool transactions processTransactions before = (.ok result, after)) :
    ∃ added, Program.forEach (addTransactionsInBlock environment account subchain mempool) transactions before =
        (.ok (), added) ∧ commit added = (.ok (), after) := by
  unfold addTransactions at ran
  obtain ⟨_, added, adding, afterAdd⟩ := Program.bind_ok ran
  obtain ⟨_, committed, committing, requiring⟩ := Program.bind_ok afterAdd
  obtain ⟨_, rfl⟩ := require_ok requiring
  exact ⟨added, adding, committing⟩

theorem addTransactions_edits {terms : Terms} {account : AccountID} {subchain : SubchainID} {mempool : Bool}
    {transactions : BatchedMatches} {processTransactions : Bool} {result : Unit}
    (home : ∀ id, terms.home id = (account, subchain))
    (along : terms.strict → mempool = false → Program.Throughout (fun entry session => MovesCommitted session entry)
      (addTransactionsInBlock terms.environment account subchain mempool) transactions before)
    (ran : addTransactions terms.environment account subchain mempool transactions processTransactions before =
      (.ok result, after)) : Edits terms before after ∧ after.committed = after.tables := by
  obtain ⟨added, adding, committing⟩ := addTransactions_ok ran
  obtain ⟨commits, same⟩ := @commit_edits _ _ terms _ committing
  exact ⟨(blocks_edits home transactions before added along adding).trans commits, same⟩

/-- What a call has to meet for the tables to follow the memory in all they hold. -/
def Tidy (environment : Environment) (session : Session) (operation : Operation) : Prop :=
  match operation with
  | .addConfirmedTransactions account subchain transactions =>
    Program.Throughout (fun entry session => MovesCommitted session entry)
      (addTransactionsInBlock environment account subchain false) transactions session
  | .reserveUTXO spender _ policy =>
    ∀ id, selectOutput session.cache spender policy = some id → session.cache.outputToProposal id = []
  | .reserveOutpoint _ _ id => session.cache.outputToProposal id = []
  | .reorg _ ancestor _ => getPosition session.cache ≠ ancestor → SingleAt session.cache ancestor.height
  | _ => True

/-- Whether the call commits what it does. Only a reorg may leave that to others. -/
def Commits (call : Call) : Prop := ∀ blocks ancestor, call.operation ≠ .reorg blocks ancestor false

/-- The outputs of a finalized proposal go to the account and subchain of their key. -/
theorem finalize_ok {id : ProposalID} {content : Content} {transaction : Transaction} {processTransactions : Bool}
    {strict : Prop} {result : Unit}
    (ran : finalizeProposal environment id content transaction processTransactions before = (.ok result, after)) :
    Finalized (terms environment (.finalizeProposal id content transaction) strict) id transaction before after := by
  refine @finalizeProposal_ok _ _ (terms environment (.finalizeProposal id content transaction) strict) id content transaction
    _ _ (fun outpoint output key found keys => ?_) ran
  show home environment (.finalizeProposal id content transaction) outpoint =
    (key.account, environment.subchainID key.account key.subchain)
  unfold home
  dsimp only
  rw [found, Option.bind_some, keys]
  rfl

theorem body_ok {call : Call} {reserved : Option (Outpoint × Output)} {strict : Prop} (commits : Commits call)
    (fresh : before.committed = before.tables) (placed : strict → Placed before)
    (tidy : strict → Tidy environment before call.operation) (ran : body environment call before = (.ok reserved, after)) :
    Edits (terms environment call.operation strict) before after ∧ after.committed = after.tables := by
  unfold body at ran
  cases operation : call.operation with
  | addProposal id content =>
    rw [operation] at ran
    obtain ⟨_, rfl⟩ := Program.pure_ok ran
    exact ⟨.refl, fresh⟩
  | addConfirmedTransactions account subchain transactions =>
    rw [operation] at ran tidy
    obtain ⟨_, middle, adding, returned⟩ := Program.bind_ok ran
    obtain ⟨_, rfl⟩ := Program.pure_ok returned
    exact @addTransactions_edits _ _ (terms environment (.addConfirmedTransactions account subchain transactions) strict)
      account subchain false transactions _ _ (fun _ => rfl) (fun strict _ => tidy strict) adding
  | addMempoolTransaction account subchain item =>
    rw [operation] at ran
    obtain ⟨_, middle, adding, returned⟩ := Program.bind_ok ran
    obtain ⟨_, rfl⟩ := Program.pure_ok returned
    exact @addTransactions_edits _ _ (terms environment (.addMempoolTransaction account subchain item) strict)
      account subchain true _ _ _ (fun _ => rfl) nofun adding
  | advanceTo position =>
    rw [operation] at ran
    obtain ⟨_, middle, advancing, returned⟩ := Program.bind_ok ran
    obtain ⟨_, rfl⟩ := Program.pure_ok returned
    have ends : after = before ∨ Advanced (terms environment (.advanceTo position) strict) position before after :=
      advanceTo_ok placed advancing
    rcases ends with rfl | advanced
    · exact ⟨.refl, fresh⟩
    · exact ⟨advanced.edits, advanced.committed⟩
  | cancelProposal id =>
    rw [operation] at ran
    obtain ⟨_, middle, cancelling, returned⟩ := Program.bind_ok ran
    obtain ⟨_, rfl⟩ := Program.pure_ok returned
    have cancels := @cancelProposal_writes _ _ (terms environment (.cancelProposal id) strict) _ _ cancelling
    exact ⟨cancels.edits, cancels.committed⟩
  | finalizeProposal id content transaction =>
    rw [operation] at ran
    obtain ⟨_, middle, finalizing, returned⟩ := Program.bind_ok ran
    obtain ⟨_, rfl⟩ := Program.pure_ok returned
    have finalized : Finalized (terms environment (.finalizeProposal id content transaction) strict) id transaction before
        after := finalize_ok finalizing
    exact ⟨finalized.edits, finalized.committed⟩
  | reserveUTXO spender proposal policy =>
    rw [operation] at ran tidy
    obtain ⟨_, middle, reserving, returned⟩ := Program.bind_ok ran
    obtain ⟨_, rfl⟩ := Program.pure_ok returned
    have reserved := (@reserveUTXO_ok _ _ (terms environment (.reserveUTXO spender proposal policy) strict) _ _ _ _ tidy reserving).2
    exact ⟨reserved.edits, reserved.committed⟩
  | reserveOutpoint spender proposal id =>
    rw [operation] at ran tidy
    obtain ⟨_, middle, reserving, returned⟩ := Program.bind_ok ran
    obtain ⟨_, rfl⟩ := Program.pure_ok returned
    have reserved := (@reserve_ok _ _ (terms environment (.reserveOutpoint spender proposal id) strict) _ _ _ tidy reserving).2
    exact ⟨reserved.edits, reserved.committed⟩
  | reorg blocks ancestor committed =>
    rw [operation] at ran tidy
    obtain ⟨_, middle, reorganizing, returned⟩ := Program.bind_ok ran
    obtain ⟨_, rfl⟩ := Program.pure_ok returned
    obtain ⟨edits, same⟩ := @reorg_edits _ _ (terms environment (.reorg blocks ancestor committed) strict) _ _ _ _
      placed tidy reorganizing
    cases committed with
    | true => exact ⟨edits, same rfl⟩
    | false => exact absurd operation (commits blocks ancestor)

/-- What every call that commits does, tidy or not. -/
theorem body_edits {call : Call} {reserved : Option (Outpoint × Output)} (commits : Commits call)
    (fresh : before.committed = before.tables) (ran : body environment call before = (.ok reserved, after)) :
    Edits (terms environment call.operation False) before after ∧ after.committed = after.tables :=
  body_ok commits fresh nofun nofun ran

/-! ## Operations that fail -/

section Failed

variable {R : Session → Session → Prop}

theorem relates_failed {α : Type} {program : Writing α} {fault : Fault} (relates : Program.Relates R program)
    (ran : program before = (.error fault, after)) : R before after := by
  have related := relates before
  rw [ran] at related
  exact related

/-- A program of which only the last step commits. -/
theorem committing_failed [Books R] {α : Type} {first : Writing α} {rest : α → Writing Unit} {fault : Fault}
    (relates : Program.Relates R first)
    (last : ∀ value before after, rest value before = (.error fault, after) → R before after)
    (ran : (first >>= rest) before = (.error fault, after)) : R before after := by
  rcases Program.bind_error ran with failed | ⟨value, middle, returned, failed⟩
  · exact relates_failed relates failed
  · have related := relates before
    rw [returned] at related
    exact Books.trans before middle after related (last value middle after failed)

theorem commit_failed [Books R] {fault : Fault} (ran : commit before = (.error fault, after)) : R before after := by
  unfold commit at ran
  revert ran
  refine committing_failed nextWrite_relates ?_
  intro rc before after ran
  rcases Program.bind_error ran with failed | ⟨_, _, _, marking⟩
  · exact relates_failed (require_relates _) failed
  · cases marking

theorem addTransactions_failed [Creates R] {account : AccountID} {subchain : SubchainID} {mempool : Bool}
    {transactions : BatchedMatches} {processTransactions : Bool} {fault : Fault}
    (ran : addTransactions environment account subchain mempool transactions processTransactions before =
      (.error fault, after)) :
    R before after ∨ processTransactions = false ∧
      addTransactions environment account subchain mempool transactions true before = (.ok (), after) := by
  unfold addTransactions at ran ⊢
  have relates : Program.Relates R
      (Program.forEach (addTransactionsInBlock environment account subchain mempool) transactions) :=
    forEach_relates transactions fun entry => addTransactionsInBlock_relates environment account subchain mempool entry
  rcases Program.bind_error ran with failed | ⟨_, added, adding, afterAdd⟩
  · exact Or.inl (relates_failed relates failed)
  · have related := relates before
    rw [adding] at related
    rcases Program.bind_error afterAdd with failed | ⟨_, committed, committing, requiring⟩
    · exact Or.inl (Books.trans before added after related (commit_failed failed))
    · cases processTransactions with
      | true => cases requiring
      | false =>
        cases requiring
        refine Or.inr ⟨rfl, ?_⟩
        rw [Program.bind_of_ok adding, Program.bind_of_ok committing]
        rfl

theorem advanceTo_failed [Books R] {position : Position} {fault : Fault}
    (ran : advanceTo environment position before = (.error fault, after)) : R before after := by
  unfold advanceTo at ran
  revert ran
  refine committing_failed readCache_relates ?_
  intro cache before after ran
  dsimp only at ran
  split at ran
  · exact relates_failed (pure_relates _) ran
  · revert ran
    refine committing_failed (assertTrue_relates _) ?_
    intro _ before after ran
    split at ran
    · exact relates_failed (pure_relates _) ran
    · revert ran
      refine committing_failed (forEach_relates _ fun id => mature_relates position id) ?_
      intro _ before after
      refine committing_failed (updatePosition_relates _) ?_
      intro _ before after
      refine committing_failed (require_relates _) ?_
      exact fun _ _ _ ran => commit_failed ran

theorem cancelProposal_failed [Erases R] {id : ProposalID} {fault : Fault}
    (ran : cancelProposal id before = (.error fault, after)) : R before after := by
  unfold cancelProposal at ran
  revert ran
  refine committing_failed (finishProposal_relates _) ?_
  intro _ before after
  refine committing_failed (cancel_relates _) ?_
  intro _ before after
  refine committing_failed (require_relates _) ?_
  exact fun _ _ _ ran => commit_failed ran

theorem addProposal_failed [Books R] {id : ProposalID} {content : Content} {fault : Fault}
    (ran : addProposal id content before = (.error fault, after)) : R before after := by
  unfold addProposal at ran
  revert ran
  refine committing_failed nextWrite_relates ?_
  intro rc before after ran
  rcases Program.bind_error ran with failed | ⟨_, _, _, marking⟩
  · exact relates_failed (require_relates _) failed
  · cases marking

/-- The session in which the proposal alone has been stored. -/
def proposed (id : ProposalID) (content : Content) (session : Session) : Session :=
  { session with
    committed := withProposal id content session.committed
    tables := withProposal id content session.tables
    writes := session.writes.tail }

theorem addProposal_ok {id : ProposalID} {content : Content} {result : Unit}
    (ran : addProposal id content before = (.ok result, after)) : after = proposed id content before := by
  unfold addProposal at ran
  obtain ⟨rc, wrote, writing, afterWrite⟩ := Program.bind_ok ran
  cases writing
  obtain ⟨_, required, requiring, marking⟩ := Program.bind_ok afterWrite
  obtain ⟨_, rfl⟩ := require_ok requiring
  exact Program.modify_ok marking

/-- The proposal is stored by a transaction of its own, before anything of the call is checked. -/
theorem finalizeProposal_failed [Creates R] {id : ProposalID} {content : Content} {transaction : Transaction}
    {processTransactions : Bool} {fault : Fault}
    (ran : finalizeProposal environment id content transaction processTransactions before = (.error fault, after)) :
    R before after ∨ R (proposed id content before) after := by
  unfold finalizeProposal at ran
  rcases Program.bind_error ran with failed | ⟨_, checked, checking, afterCheck⟩
  · exact Or.inl (relates_failed (assertTrue_relates _) failed)
  · obtain ⟨_, rfl⟩ := assertTrue_ok checking
    rcases Program.bind_error afterCheck with failed | ⟨_, added, adding, afterAdd⟩
    · exact Or.inl (addProposal_failed failed)
    · right
      rw [← addProposal_ok adding]
      dsimp only at afterAdd
      revert afterAdd
      refine committing_failed (releaseUnusedInputs_relates _ _) ?_
      intro _ before after
      refine committing_failed (validateInputs_relates _) ?_
      intro _ before after
      refine committing_failed (validateOutputs_relates _) ?_
      intro _ before after
      refine committing_failed (forEach_relates _ fun outpoint => changeTxoState_relates outpoint {} .unconfirmedSpend) ?_
      intro _ before after
      refine committing_failed (forEach_relates _ fun outpoint => setOutputState_relates environment id transaction outpoint) ?_
      intro _ before after
      refine committing_failed (require_relates _) ?_
      exact fun _ _ _ ran => commit_failed ran

/-- An output that is not stored cannot be chosen, and nothing is written. -/
theorem choose_absent {proposal : ProposalID} {id : Outpoint} (absent : before.cache.outputs id = none) :
    choose proposal id before = (.error .exception, before) := by
  have missing : getOutput before.cache id = .error .exception := by rw [getOutput, absent]
  unfold choose
  rw [Program.bind_of_ok (show readCache before = (.ok before.cache, before) from rfl), missing]
  exact Program.bind_of_error rfl

theorem reserveUTXO_none {spender : Nym} {proposal : ProposalID} {policy : SpendPolicy}
    (nothing : selectOutput before.cache spender policy = none) :
    reserveUTXO spender proposal policy before = (.error .exception, before) := by
  have reads : readCache before = (.ok before.cache, before) := rfl
  unfold reserveUTXO
  rw [Program.bind_of_ok reads, nothing]
  rfl

theorem reserveUTXO_some {spender : Nym} {proposal : ProposalID} {policy : SpendPolicy} {id : Outpoint}
    (selected : selectOutput before.cache spender policy = some id) :
    reserveUTXO spender proposal policy before = (do
      let utxo ← choose proposal id
      commit
      pure utxo) before := by
  have reads : readCache before = (.ok before.cache, before) := rfl
  unfold reserveUTXO
  rw [Program.bind_of_ok reads, selected]

theorem reserve_failed [Books R] {proposal : ProposalID} {id : Outpoint} {fault : Fault}
    (chooses : Program.Relates R (choose proposal id))
    (ran : (do
      let utxo ← choose proposal id
      commit
      pure utxo) before = (.error fault, after)) : R before after := by
  rcases Program.bind_error ran with failed | ⟨utxo, chosen, choosing, afterChoose⟩
  · exact relates_failed chooses failed
  · have related := chooses before
    rw [choosing] at related
    rcases Program.bind_error afterChoose with failed | ⟨_, _, _, returned⟩
    · exact Books.trans before chosen after related (commit_failed failed)
    · cases returned

theorem reserveUTXO_failed [Books R] {spender : Nym} {proposal : ProposalID} {policy : SpendPolicy} {fault : Fault}
    (chooses : ∀ id, selectOutput before.cache spender policy = some id → Program.Relates R (choose proposal id))
    (ran : reserveUTXO spender proposal policy before = (.error fault, after)) : R before after := by
  cases selected : selectOutput before.cache spender policy with
  | some id =>
    rw [reserveUTXO_some selected] at ran
    exact reserve_failed (chooses id selected) ran
  | none =>
    rw [reserveUTXO_none selected] at ran
    cases ran
    exact same_relates before

theorem reorg_failed [Creates R] {blocks : List (SubchainID × Position)} {ancestor : Position} {committed : Bool}
    {fault : Fault} (ran : reorg blocks ancestor committed before = (.error fault, after)) : R before after := by
  unfold reorg at ran
  revert ran
  refine committing_failed (forEach_relates blocks startReorg_relates) ?_
  intro _ before after
  refine committing_failed (finalizeReorg_relates _) ?_
  intro _ before after ran
  cases committed with
  | true => exact commit_failed ran
  | false => cases ran

end Failed

theorem unreserved_failed {program : Writing Unit} {fault : Fault} (ran : unreserved program before = (.error fault, after)) :
    program before = (.error fault, after) := by
  rcases Program.bind_error ran with failed | ⟨_, _, _, returned⟩
  · exact failed
  · cases returned

theorem reserved_failed {program : Writing (Outpoint × Output)} {fault : Fault}
    (ran : reserved program before = (.error fault, after)) : program before = (.error fault, after) := by
  rcases Program.bind_error ran with failed | ⟨_, _, _, returned⟩
  · exact failed
  · cases returned

def SameCommitted (before after : Session) : Prop := after.committed = before.committed

instance : Creates SameCommitted where
  books _ _ same := same.committed
  trans _ _ _ early late := late.trans early
  erases _ _ fewer := fewer.committed
  creates _ _ unreserving := unreserving.committed

/-- What a failed call commits: nothing, its proposal, or all of it when only the processing of
the transactions failed. -/
theorem body_failed {call : Call} {fault : Fault} (ran : body environment call before = (.error fault, after)) :
    after.committed = before.committed ∨
      (∃ id content, after.committed = withProposal id content before.committed) ∨
      Edits (terms environment call.operation False) before after ∧ after.committed = after.tables := by
  unfold body at ran
  cases operation : call.operation with
  | addProposal id content =>
    rw [operation] at ran
    cases ran
  | addConfirmedTransactions account subchain transactions =>
    rw [operation] at ran
    have failed : SameCommitted before after ∨ _ := addTransactions_failed (unreserved_failed ran)
    rcases failed with same | ⟨_, added⟩
    · exact Or.inl same
    · exact Or.inr (Or.inr (@addTransactions_edits _ _ (terms environment (.addConfirmedTransactions account subchain transactions) False)
        account subchain false _ _ _ (fun _ => rfl) nofun added))
  | addMempoolTransaction account subchain item =>
    rw [operation] at ran
    have failed : SameCommitted before after ∨ _ := addTransactions_failed (unreserved_failed ran)
    rcases failed with same | ⟨_, added⟩
    · exact Or.inl same
    · exact Or.inr (Or.inr (@addTransactions_edits _ _ (terms environment (.addMempoolTransaction account subchain item) False)
        account subchain true _ _ _ (fun _ => rfl) nofun added))
  | advanceTo position =>
    rw [operation] at ran
    exact Or.inl (show SameCommitted before after from advanceTo_failed (unreserved_failed ran))
  | cancelProposal id =>
    rw [operation] at ran
    exact Or.inl (show SameCommitted before after from cancelProposal_failed (unreserved_failed ran))
  | finalizeProposal id content transaction =>
    rw [operation] at ran
    have failed : SameCommitted before after ∨ SameCommitted (proposed id content before) after :=
      finalizeProposal_failed (unreserved_failed ran)
    rcases failed with same | stored
    · exact Or.inl same
    · exact Or.inr (Or.inl ⟨id, content, stored⟩)
  | reserveUTXO spender proposal policy =>
    rw [operation] at ran
    exact Or.inl (show SameCommitted before after from 
      reserveUTXO_failed (fun _ _ => choose_relates fun _ _ reserving => reserving.committed) (reserved_failed ran))
  | reserveOutpoint spender proposal id =>
    rw [operation] at ran
    exact Or.inl (show SameCommitted before after from 
      reserve_failed (choose_relates fun _ _ reserving => reserving.committed) (reserved_failed ran))
  | reorg blocks ancestor committed =>
    rw [operation] at ran
    exact Or.inl (show SameCommitted before after from reorg_failed (unreserved_failed ran))

/-! ## Databases -/

/-- The tables are in order, and the cache shows them, or nothing of them when it is not loaded. -/
structure Sound (db : Database) : Prop where
  filed : Filed db.tables.outputs db.tables.indexes.states
  loaded : db.cache.populated = true → Mirrored db.cache db.tables
  cleared : db.cache.populated = false →
    (∀ id, db.cache.outputs id = none) ∧ db.cache.indexes = {} ∧ db.cache.position = none

theorem sound_start {db : Database} (sound : Sound db) (writes : List Bool) : Orderly (start db writes) := by
  cases populated : db.cache.populated with
  | true =>
    have mirrored := sound.loaded populated
    have same : populate db.tables db.cache = db.cache := by rw [populate, if_pos populated]
    refine ⟨?_, ?_, sound.filed⟩
    · show Mirrored (populate db.tables db.cache) db.tables
      rw [same]
      exact mirrored
    · show Filed (populate db.tables db.cache).outputs (populate db.tables db.cache).indexes.states
      rw [same, mirrored.outputs, mirrored.states]
      exact sound.filed
  | false =>
    obtain ⟨outputs, indexes, position⟩ := sound.cleared populated
    have loads : populate db.tables db.cache =
        { db.cache with
          position := db.tables.position
          outputs := db.tables.outputs
          indexes := db.tables.indexes
          generationOutputs := (generationRows db.tables.generation).foldl
            (fun entries row => emplaceGeneration row.1 row.2 entries) db.cache.generationOutputs
          outputToProposal := fun outpoint =>
            db.cache.outputToProposal outpoint ++ (db.tables.outputProposal outpoint).toList
          createdByProposal := db.cache.createdByProposal ∪ db.tables.proposalCreated
          consumedByProposal := db.cache.consumedByProposal ∪ db.tables.proposalSpent
          populated := true } := by
      have everywhere : db.cache.outputs = fun _ => none := funext outputs
      rw [populate, if_neg (by rw [populated]; exact Bool.false_ne_true), everywhere, indexes, position]
      simp only [mergeIndexes, Finset.empty_union, Option.or_none, Option.none_or]
    refine ⟨?_, ?_, sound.filed⟩
    · show Mirrored (populate db.tables db.cache) db.tables
      rw [loads]
      exact ⟨rfl, rfl, rfl, rfl, rfl, rfl, rfl, rfl⟩
    · show Filed (populate db.tables db.cache).outputs (populate db.tables db.cache).indexes.states
      rw [loads]
      exact sound.filed

theorem sound_empty : Sound {} := by
  refine ⟨⟨?_, ?_⟩, nofun, fun _ => ⟨fun _ => rfl, rfl, rfl⟩⟩
  · intro state id
    constructor
    · intro member
      exact absurd member (Finset.notMem_empty _)
    · rintro ⟨output, found, _⟩
      cases found
  · intro id output found
    cases found

theorem execute_sound {db : Database} {call : Call} {outcome : Outcome} (commits : Commits call) (sound : Sound db)
    (ran : execute environment db call = .ok outcome) : Sound outcome.db := by
  have orderly := sound_start sound call.writes
  unfold execute at ran
  cases body : body environment call (start db call.writes) with
  | mk result session =>
    rw [body] at ran
    cases result with
    | ok reserved =>
      cases ran
      obtain ⟨edits, same⟩ := body_edits commits rfl body
      have ends := edits_orderly edits orderly
      refine ⟨ends.committed, fun _ => ?_, fun unloaded => ?_⟩
      · show Mirrored session.cache session.committed
        rw [same]
        exact ends.mirrored
      · have populated : session.cache.populated = true := ends.mirrored.populated
        rw [populated] at unloaded
        cases unloaded
    | error fault =>
      cases fault with
      | exception =>
        cases ran
        refine ⟨?_, nofun, fun _ => ⟨fun _ => rfl, rfl, rfl⟩⟩
        rcases body_failed body with same | ⟨id, content, same⟩ | ⟨edits, same⟩
        · show Filed session.committed.outputs session.committed.indexes.states
          rw [same]
          exact sound.filed
        · show Filed session.committed.outputs session.committed.indexes.states
          rw [same]
          exact sound.filed
        · exact (edits_orderly edits orderly).committed
      | terminate => cases ran
      | dangling => cases ran
      | outOfFuel => cases ran

theorem perform_sound {db : Database} {call : Call} {outcome : Outcome} (commits : Commits call) (sound : Sound db)
    (ran : perform environment db call = .ok outcome) : Sound outcome.db := by
  unfold perform at ran
  split at ran
  · split at ran
    · cases ran
      exact ⟨sound.filed, fun populated => (sound.loaded populated).rec (fun a b c d e f g h => ⟨a, b, c, d, e, f, g, h⟩),
        sound.cleared⟩
    · cases ran
      exact sound
  · split at ran
    · cases ran
      exact sound
    · exact execute_sound commits sound ran

theorem run_sound {calls : List Call} : ∀ {db final : Database}, (∀ call ∈ calls, Commits call) → Sound db →
    run environment db calls = .ok final → Sound final := by
  induction calls with
  | nil =>
    intro db final _ sound ran
    cases ran
    exact sound
  | cons call calls ih =>
    intro db final commits sound ran
    unfold run at ran
    cases performed : perform environment db call with
    | error fault =>
      rw [performed] at ran
      cases ran
    | ok outcome =>
      rw [performed] at ran
      exact ih (fun later member => commits later (List.mem_cons_of_mem call member))
        (perform_sound (commits call List.mem_cons_self) sound performed) ran

/-! ## Runs of calls that succeed -/

/-- The output as the next call finds it. -/
def stored (db : Database) (id : Outpoint) : Option Output := (populate db.tables db.cache).outputs id

def succeeds (environment : Environment) (db : Database) : List Call → Option Database
  | [] => some db
  | call :: calls =>
    match perform environment db call with
    | .ok outcome => if outcome.success then succeeds environment outcome.db calls else none
    | .error _ => none

/-- The condition holds before every call. -/
def Along (environment : Environment) (condition : Database → Call → Prop) (db : Database) : List Call → Prop
  | [] => True
  | call :: calls =>
    condition db call ∧
      match perform environment db call with
      | .ok outcome => Along environment condition outcome.db calls
      | .error _ => True

instance Along.decidable (environment : Environment) (condition : Database → Call → Prop)
    [∀ db call, Decidable (condition db call)] :
    ∀ calls db, Decidable (Along environment condition db calls)
  | [], _ => .isTrue trivial
  | call :: calls, db => by
    unfold Along
    exact match perform environment db call with
      | .ok outcome => @instDecidableAnd _ _ _ (Along.decidable environment condition calls outcome.db)
      | .error _ => inferInstance

theorem along_mono {condition other : Database → Call → Prop} (calls : List Call)
    (implies : ∀ call ∈ calls, ∀ db, condition db call → other db call) :
    ∀ db, Along environment condition db calls → Along environment other db calls := by
  induction calls with
  | nil =>
    intro _ _
    trivial
  | cons call calls ih =>
    intro db along
    obtain ⟨here, later⟩ := along
    refine ⟨implies call List.mem_cons_self db here, ?_⟩
    cases performed : perform environment db call with
    | ok outcome =>
      rw [performed] at later
      exact ih (fun call member => implies call (List.mem_cons_of_mem _ member)) outcome.db later
    | error _ => trivial

theorem succeeds_cons {db final : Database} {call : Call} {calls : List Call}
    (ran : succeeds environment db (call :: calls) = some final) :
    ∃ outcome, perform environment db call = .ok outcome ∧ outcome.success = true ∧
      succeeds environment outcome.db calls = some final := by
  unfold succeeds at ran
  cases performed : perform environment db call with
  | error fault =>
    rw [performed] at ran
    cases ran
  | ok outcome =>
    rw [performed] at ran
    dsimp only at ran
    cases success : outcome.success with
    | false =>
      rw [success] at ran
      cases ran
    | true =>
      rw [success] at ran
      exact ⟨outcome, rfl, success, ran⟩

/-- A call that succeeds is a program that returns, or the storing of a proposal. -/
theorem perform_success {db : Database} {call : Call} {outcome : Outcome}
    (performed : perform environment db call = .ok outcome) (success : outcome.success = true) :
    (∃ id content, call.operation = .addProposal id content ∧
        outcome = { success := true, db := { db with tables := withProposal id content db.tables } }) ∨
      ∃ reserved session, body environment call (start db call.writes) = (.ok reserved, session) ∧
        outcome = { success := true, reserved, db :=
          { tables := session.committed, cache := session.cache, proposalData := session.proposalData } } := by
  unfold perform at performed
  split at performed
  · rename_i id content operation
    split at performed
    · cases performed
      exact Or.inl ⟨id, content, operation, rfl⟩
    · cases performed
      cases success
  · split at performed
    · cases performed
      cases success
    · unfold execute at performed
      cases ran : body environment call (start db call.writes) with
      | mk result session =>
        rw [ran] at performed
        cases result with
        | ok reserved =>
          cases performed
          exact Or.inr ⟨reserved, session, rfl, rfl⟩
        | error fault =>
          cases fault with
          | exception =>
            cases performed
            cases success
          | terminate => cases performed
          | dangling => cases performed
          | outOfFuel => cases performed

/-! ## A small wallet -/

/-- One nym, and a target that the heights of a short run can pass. -/
def household : Environment where
  owner _ := some 1
  subchainID account _ := account
  maturationTarget := 100

def receivable (value : Int) (index : Nat) : Output := { value, keys := [⟨1, .external, index⟩] }

def payment : Transaction := { id := 1, previousOutputs := [], outputs := [receivable 10 0] }

def purchase : Transaction := { id := 2, previousOutputs := [⟨1, 0⟩], outputs := [] }

def addBlock (height : Int) (items : BlockMatches) : Call :=
  { operation := .addConfirmedTransactions 1 1 [(⟨height, height.toNat⟩, items)] }

def advance (height : Int) : Call := { operation := .advanceTo ⟨height, height.toNat⟩ }

end Opentxs.Wallet.Runs
