import Opentxs.Wallet.Settlement

/-! Over runs: a proposal is finished in the block that reports the last of its outputs, and no
earlier, if every block moves an associated output exactly when it reports what is waited for. -/

namespace Opentxs.Wallet.Closing
open Library HeaderOracle BlockHeader Types Storage OutputCache Parsing Reports Outputs Tracking Runs Settlement

variable {environment : Environment} {session : Session}

/-- The proposals that are open after a run. -/
def opened (environment : Environment) (db : Database) (proposals : OpenProposals) : List Call → OpenProposals
  | [] => proposals
  | call :: calls =>
    match perform environment db call with
    | .ok outcome => opened environment outcome.db (proposals.follow call.operation outcome.reserved) calls
    | .error _ => proposals

/-- Each block of a batch, as it is about to be added, moves associated outputs as awaited. -/
def BlocksAwaited (environment : Environment) (account : AccountID) (subchain : SubchainID) (blocks : BatchedMatches)
    (session : Session) : Prop :=
  Program.Throughout (fun entry session => Awaited session.cache entry.2)
    (addTransactionsInBlock environment account subchain false) blocks session

instance (environment : Environment) (account : AccountID) (subchain : SubchainID) (blocks : BatchedMatches)
    (session : Session) : Decidable (BlocksAwaited environment account subchain blocks session) :=
  inferInstanceAs (Decidable (Program.Throughout _ _ _ _))

/-- Blocks move associated outputs as awaited, and a proposal is cancelled only while its outputs
have no other. -/
def MovesAwaited (environment : Environment) (db : Database) (call : Call) : Prop :=
  match call.operation with
  | .addConfirmedTransactions account subchain transactions =>
    BlocksAwaited environment account subchain transactions (start db call.writes)
  | .cancelProposal id => Alone (populate db.tables db.cache) id
  | _ => True

instance (environment : Environment) (db : Database) (call : Call) : Decidable (MovesAwaited environment db call) :=
  match call with
  | { operation := .addConfirmedTransactions .., .. } => inferInstanceAs (Decidable (BlocksAwaited _ _ _ _ _))
  | { operation := .cancelProposal id, .. } => inferInstanceAs (Decidable (Alone _ id))
  | { operation := .addProposal .., .. } | { operation := .addMempoolTransaction .., .. }
  | { operation := .advanceTo .., .. } | { operation := .finalizeProposal .., .. }
  | { operation := .reserveUTXO .., .. } | { operation := .reserveOutpoint .., .. } | { operation := .reorg .., .. } =>
    inferInstanceAs (Decidable True)

theorem blocks_settle {proposals : OpenProposals} {account : AccountID} {subchain : SubchainID} {blocks : BatchedMatches}
    {after : Session} (represents : Represents proposals session)
    (awaited : BlocksAwaited environment account subchain blocks session)
    (ran : Program.forEach (addTransactionsInBlock environment account subchain false) blocks session = (.ok (), after)) :
    Represents (blocks.foldl (fun proposals entry => proposals.settle entry.2) proposals) after := by
  have each : ∀ proposals (entry : Position × BlockMatches) before after, Represents proposals before →
      Awaited before.cache entry.2 →
      addTransactionsInBlock environment account subchain false entry before = (.ok (), after) →
      Represents (proposals.settle entry.2) after :=
    fun _ _ _ _ represents awaited ran => block_settles represents awaited ran
  exact Program.throughout_keeps each blocks proposals session after represents awaited ran

theorem mempool_unlinked {account : AccountID} {subchain : SubchainID} (blocks : BatchedMatches) {after : Session}
    (ran : Program.forEach (addTransactionsInBlock environment account subchain true) blocks session = (.ok (), after)) :
    Unlinks ∅ session after :=
  Unlinks.loop blocks (fun _ _ _ ran => mempool_unlinks ran) session after ran

/-- The start of a call depends on its writes in nothing that shows proposals. -/
theorem represents_start {proposals : OpenProposals} {db : Database} (represents : Represents proposals (start db []))
    (writes : List Bool) : Represents proposals (start db writes) :=
  ⟨represents.populated, represents.linked, represents.created, represents.consumed, represents.finished⟩

theorem body_represents {proposals : OpenProposals} {db : Database} {call : Call} {after : Session}
    {reserved : Option (Outpoint × Output)} (represents : Represents proposals (start db []))
    (awaited : MovesAwaited environment db call)
    (ran : body environment call (start db call.writes) = (.ok reserved, after)) :
    Represents (proposals.follow call.operation reserved) after := by
  replace represents := represents_start represents call.writes
  unfold body at ran
  unfold MovesAwaited at awaited
  unfold OpenProposals.follow
  cases operation : call.operation with
  | addProposal id content =>
    rw [operation] at ran
    obtain ⟨_, rfl⟩ := Program.pure_ok ran
    exact represents
  | addConfirmedTransactions account subchain transactions =>
    rw [operation] at ran awaited
    obtain ⟨_, middle, adding, returned⟩ := Program.bind_ok ran
    obtain ⟨_, rfl⟩ := Program.pure_ok returned
    unfold addTransactions at adding
    obtain ⟨_, added, blocks, afterAdd⟩ := Program.bind_ok adding
    obtain ⟨_, committed, committing, requiring⟩ := Program.bind_ok afterAdd
    obtain ⟨_, rfl⟩ := require_ok requiring
    exact (blocks_settle represents awaited blocks).kept (commit_unlinks committing)
  | addMempoolTransaction account subchain item =>
    rw [operation] at ran
    obtain ⟨_, middle, adding, returned⟩ := Program.bind_ok ran
    obtain ⟨_, rfl⟩ := Program.pure_ok returned
    unfold addTransactions at adding
    obtain ⟨_, added, blocks, afterAdd⟩ := Program.bind_ok adding
    obtain ⟨_, committed, committing, requiring⟩ := Program.bind_ok afterAdd
    obtain ⟨_, rfl⟩ := require_ok requiring
    exact represents.kept ((mempool_unlinked _ blocks).then (commit_unlinks committing))
  | advanceTo position =>
    rw [operation] at ran
    obtain ⟨_, middle, advancing, returned⟩ := Program.bind_ok ran
    obtain ⟨_, rfl⟩ := Program.pure_ok returned
    exact represents.kept (advanceTo_unlinks advancing)
  | cancelProposal id =>
    rw [operation] at ran awaited
    obtain ⟨_, middle, cancelling, returned⟩ := Program.bind_ok ran
    obtain ⟨_, rfl⟩ := Program.pure_ok returned
    exact cancelProposal_represents represents awaited cancelling
  | finalizeProposal id content transaction =>
    rw [operation] at ran
    obtain ⟨_, middle, finalizing, returned⟩ := Program.bind_ok ran
    obtain ⟨_, rfl⟩ := Program.pure_ok returned
    exact finalizeProposal_represents represents finalizing
  | reserveUTXO spender proposal policy =>
    rw [operation] at ran
    obtain ⟨utxo, middle, reserving, returned⟩ := Program.bind_ok ran
    obtain ⟨rfl, rfl⟩ := Program.pure_ok returned
    exact reserveUTXO_represents represents reserving
  | reserveOutpoint spender proposal id =>
    rw [operation] at ran
    obtain ⟨utxo, middle, reserving, returned⟩ := Program.bind_ok ran
    obtain ⟨rfl, rfl⟩ := Program.pure_ok returned
    exact reserve_represents represents reserving
  | reorg blocks ancestor committed =>
    rw [operation] at ran
    obtain ⟨_, middle, reorganizing, returned⟩ := Program.bind_ok ran
    obtain ⟨_, rfl⟩ := Program.pure_ok returned
    exact represents.kept (reorg_unlinks reorganizing)

theorem represents_empty : Represents {} (start {} []) := by
  refine ⟨rfl, ?_, rfl, rfl, rfl⟩
  intro output proposal
  rfl

theorem perform_represents {proposals : OpenProposals} {db : Database} {call : Call} {outcome : Outcome}
    (represents : Represents proposals (start db [])) (awaited : MovesAwaited environment db call)
    (performed : perform environment db call = .ok outcome) (success : outcome.success = true) :
    Represents (proposals.follow call.operation outcome.reserved) (start outcome.db []) := by
  rcases perform_success performed success with ⟨id, content, operation, rfl⟩ | ⟨reserved, after, body, rfl⟩
  · -- the table of proposals alone is not loaded
    rw [operation]
    exact ⟨represents.populated, represents.linked, represents.created, represents.consumed, represents.finished⟩
  · have ends := body_represents represents awaited body
    have loaded : (start ⟨after.committed, after.cache, after.proposalData⟩ []).cache = after.cache := by
      show populate _ _ = _
      rw [populate, if_pos ends.populated]
    refine ⟨?_, ?_, ?_, ?_, ends.finished⟩
    · rw [loaded]
      exact ends.populated
    · rw [loaded]
      exact ends.linked
    · rw [loaded]
      exact ends.created
    · rw [loaded]
      exact ends.consumed

theorem run_represents {calls : List Call} :
    ∀ {proposals : OpenProposals} {db final : Database}, Represents proposals (start db []) →
      Along environment (MovesAwaited environment) db calls → succeeds environment db calls = some final →
      Represents (opened environment db proposals calls) (start final []) := by
  induction calls with
  | nil =>
    intro proposals db final represents _ ran
    cases ran
    exact represents
  | cons call calls ih =>
    intro proposals db final represents along ran
    obtain ⟨outcome, performed, success, rest⟩ := succeeds_cons ran
    obtain ⟨here, later⟩ := along
    rw [performed] at later
    unfold opened
    rw [performed]
    exact ih (perform_represents represents here performed success) later rest

/-! ## A chain of proposals -/

/-- Proposal 7 spends the payment and leaves change. -/
def changeBack : Transaction := { id := 3, previousOutputs := [⟨1, 0⟩], outputs := [receivable 9 1] }

/-- Proposal 8 spends the change. -/
def spendChange : Transaction := { id := 4, previousOutputs := [⟨3, 0⟩], outputs := [] }

def propose (proposal : ProposalID) (outpoint : Outpoint) (transaction : Transaction) : List Call :=
  [{ operation := .addProposal proposal 0 }, { operation := .reserveOutpoint 1 proposal outpoint },
    { operation := .finalizeProposal proposal 0 transaction }]

def settledPayment : List Call :=
  addBlock 1 [⟨[], [0], payment⟩] :: propose 7 ⟨1, 0⟩ changeBack ++ [addBlock 2 [⟨[0], [0], changeBack⟩]]

def chainedPayment : List Call :=
  addBlock 1 [⟨[], [0], payment⟩] :: propose 7 ⟨1, 0⟩ changeBack ++ propose 8 ⟨3, 0⟩ spendChange ++
    [addBlock 2 [⟨[0], [0], changeBack⟩]]

end Opentxs.Wallet.Closing
