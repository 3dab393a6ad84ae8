import Mathlib.Algebra.Ring.Int.Defs
import Mathlib.Data.Finset.Basic
import Mathlib.Logic.Function.Basic
import Opentxs.Library.Machine

/-! The transactions that wait for a block. Each id and each transaction is to be kept for some time after
it has come, and two queues tell when that time is over. -/

namespace Opentxs.Blockchain.Retention
open Library

/-- A blank transaction stands for one that is not there. -/
structure Kind (Tx Hash : Type) where
  id : Tx → Hash
  isValid : Tx → Bool
  blank : Tx
  blank_invalid : isValid blank = false

/-- In nanoseconds. -/
def hours (count : Int) : Int := count * 3600 * 10 ^ 9

def txLimit : Int := hours 2

def txidLimit : Int := hours 24

structure Mempool (Tx Hash : Type) where
  transactions : Hash → Option Tx := fun _ => none
  active : Finset Hash := ∅
  unexpiredTxid : List (Int × Hash) := []
  unexpiredTx : List (Int × Hash) := []

/-- What happens to an id: it is new, its transaction is taken and announced, or it is in a block. -/
inductive Report (Tx Hash : Type) where
  | known (time : Int) (id : Hash)
  | accepted (time : Int) (tx : Tx)
  | pruned (id : Hash)
  deriving DecidableEq

variable {Tx Hash : Type} [DecidableEq Hash] (kind : Kind Tx Hash)

namespace Mempool

variable (mempool : Mempool Tx Hash)

def dump : Finset Hash := mempool.active

def query (id : Hash) : Tx := (mempool.transactions id).getD kind.blank

def expireTx (id : Hash) : Mempool Tx Hash :=
  { mempool with
    transactions := Function.update mempool.transactions id ((mempool.transactions id).map fun _ => kind.blank)
    active := mempool.active.erase id }

def expireTxid (id : Hash) : Mempool Tx Hash :=
  { mempool with
    transactions := Function.update mempool.transactions id none
    active := mempool.active.erase id }

/-- One id, at the time that the clock shows. -/
def submitTxid (item : Int × Hash) : Mempool Tx Hash × List (Report Tx Hash) :=
  let (time, id) := item
  match mempool.transactions id with
  | some _ => (mempool, [])
  | none => ({ mempool with
      transactions := Function.update mempool.transactions id (some kind.blank)
      unexpiredTxid := mempool.unexpiredTxid ++ [(time, id)] }, [.known time id])

def submitTransaction (now : Int) (tx : Tx) : Mempool Tx Hash × List (Report Tx Hash) :=
  if kind.isValid tx = false then (mempool, [])
  else
    let id := kind.id tx
    let (emplaced, added) := mempool.submitTxid kind (now, id)
    if (emplaced.transactions id).any kind.isValid then (emplaced, added)
    else ({ emplaced with
      transactions := Function.update emplaced.transactions id (some tx)
      active := insert id emplaced.active
      unexpiredTx := emplaced.unexpiredTx ++ [(now, id)] }, added ++ [.accepted now tx])

def pruneTransaction (tx : Tx) : Mempool Tx Hash × List (Report Tx Hash) :=
  (mempool.expireTxid (kind.id tx), [.pruned (kind.id tx)])

end Mempool

/-- One item after the other. -/
def each {α : Type} (act : Mempool Tx Hash → α → Mempool Tx Hash × List (Report Tx Hash)) :
    List α → Mempool Tx Hash → Mempool Tx Hash × List (Report Tx Hash)
  | [], mempool => (mempool, [])
  | item :: rest, mempool =>
    let (next, reports) := act mempool item
    let (last, more) := each act rest next
    (last, reports ++ more)

def submitTxids (txids : List (Int × Hash)) : Mempool Tx Hash → Mempool Tx Hash × List (Report Tx Hash) :=
  each (fun mempool => mempool.submitTxid kind) txids

def submitTransactions (now : Int) (txns : List Tx) : Mempool Tx Hash → Mempool Tx Hash × List (Report Tx Hash) :=
  each (fun mempool => mempool.submitTransaction kind now) txns

def prune (block : List Tx) : Mempool Tx Hash → Mempool Tx Hash × List (Report Tx Hash) :=
  each (fun mempool => mempool.pruneTransaction kind) block

/-- A loop of a heartbeat, from some entry of the queue on, and the entries that it leaves. -/
def expireWhile (limit now : Int) (expire : Mempool Tx Hash → Hash → Mempool Tx Hash) :
    List (Int × Hash) → Mempool Tx Hash → Mempool Tx Hash × List (Int × Hash)
  | [], mempool => (mempool, [])
  | (time, id) :: rest, mempool =>
    if now - time < limit then (mempool, (time, id) :: rest)
    else expireWhile limit now expire rest (expire mempool id)

def heartbeat (now : Int) (mempool : Mempool Tx Hash) : Mempool Tx Hash :=
  let (blanked, unexpiredTx) := expireWhile txLimit now (Mempool.expireTx kind) mempool.unexpiredTx mempool
  let (erased, unexpiredTxid) := expireWhile txidLimit now Mempool.expireTxid blanked.unexpiredTxid blanked
  { erased with unexpiredTx, unexpiredTxid }

inductive Event (Tx Hash : Type) where
  | submitTxids (txids : List (Int × Hash))
  | submitTransactions (now : Int) (txns : List Tx)
  | prune (block : List Tx)
  | heartbeat (now : Int)

/-- The readings of the clock. -/
def Event.times : Event Tx Hash → List Int
  | .submitTxids txids => txids.map Prod.fst
  | .submitTransactions now _ => [now]
  | .prune _ => []
  | .heartbeat now => [now]

def Event.run : Event Tx Hash → Mempool Tx Hash → Mempool Tx Hash × List (Report Tx Hash)
  | .submitTxids txids, mempool => Retention.submitTxids kind txids mempool
  | .submitTransactions now txns, mempool => Retention.submitTransactions kind now txns mempool
  | .prune block, mempool => Retention.prune kind block mempool
  | .heartbeat now, mempool => (Retention.heartbeat kind now mempool, [])

/-- With the last reading of the clock, and all that has happened. -/
structure State (Tx Hash : Type) where
  mempool : Mempool Tx Hash := {}
  clock : Int
  history : List (Report Tx Hash) := []

def machine : Machine (State Tx Hash) (Event Tx Hash) where
  step event state :=
    let (mempool, reports) := event.run kind state.mempool
    some { mempool, clock := event.times.getLastD state.clock, history := state.history ++ reports }

/-- The clock does not go back. -/
def InOrder (event : Event Tx Hash) (state : State Tx Hash) : Prop := (state.clock :: event.times).Pairwise (· ≤ ·)

/-! ## What is to be kept -/

/-- Something has happened, and the id is in no block since. -/
def Since (history : List (Report Tx Hash)) (report : Report Tx Hash) (id : Hash) : Prop :=
  ∃ older newer, history = older ++ report :: newer ∧ .pruned id ∉ newer

structure Right (state : State Tx Hash) : Prop where
  active : ∀ id, id ∈ state.mempool.active ↔ ∃ tx, state.mempool.transactions id = some tx ∧ kind.isValid tx = true
  pending : ∀ id, state.mempool.transactions id ≠ none → ∃ time, (time, id) ∈ state.mempool.unexpiredTxid
  queried : ∀ time tx, Since state.history (.accepted time tx) (kind.id tx) → ∀ now, state.clock ≤ now → now < time + txLimit →
    state.mempool.query kind (kind.id tx) = tx
  known : ∀ time id, Since state.history (.known time id) id → ∀ now, state.clock ≤ now → now < time + txidLimit →
    state.mempool.transactions id ≠ none

/-- Some entry of the id has reached its limit. -/
def Due (queue : List (Int × Hash)) (limit now : Int) (id : Hash) : Prop := ∃ time, (time, id) ∈ queue ∧ limit ≤ now - time

instance (queue : List (Int × Hash)) (limit now : Int) (id : Hash) : Decidable (Due queue limit now id) :=
  decidable_of_iff (∃ entry ∈ queue, entry.2 = id ∧ limit ≤ now - entry.1)
    ⟨fun ⟨entry, inside, same, passed⟩ => ⟨entry.1, same ▸ inside, passed⟩, fun ⟨time, inside, passed⟩ => ⟨(time, id), inside, rfl, passed⟩⟩

/-- No transaction that is due has an entry that is not, and neither has an id. -/
structure TimelyAt (now : Int) (mempool : Mempool Tx Hash) : Prop where
  txs : ∀ entry ∈ mempool.unexpiredTx, entry.2 ∈ mempool.active →
    Due mempool.unexpiredTx txLimit now entry.2 ∨ Due mempool.unexpiredTxid txidLimit now entry.2 → txLimit ≤ now - entry.1
  txids : ∀ entry ∈ mempool.unexpiredTxid, (mempool.transactions entry.2).isSome → Due mempool.unexpiredTxid txidLimit now entry.2 →
    txidLimit ≤ now - entry.1

instance (now : Int) (mempool : Mempool Tx Hash) : Decidable (TimelyAt now mempool) :=
  decidable_of_iff (_ ∧ _) ⟨fun ⟨txs, txids⟩ => ⟨txs, txids⟩, fun timely => ⟨timely.txs, timely.txids⟩⟩

def Timely : Event Tx Hash → State Tx Hash → Prop
  | .heartbeat now, state => TimelyAt now state.mempool
  | _, _ => True

instance : ∀ (event : Event Tx Hash) (state : State Tx Hash), Decidable (Timely event state)
  | .heartbeat now, state => inferInstanceAs (Decidable (TimelyAt now state.mempool))
  | .submitTxids _, _ => isTrue trivial
  | .submitTransactions _ _, _ => isTrue trivial
  | .prune _, _ => isTrue trivial

instance (event : Event Tx Hash) (state : State Tx Hash) : Decidable (InOrder event state) :=
  inferInstanceAs (Decidable (List.Pairwise _ _))

variable {kind} {mempool : Mempool Tx Hash} {clock now : Int} {history : List (Report Tx Hash)} {id : Hash} {tx : Tx}

theorem since_concat {last report : Report Tx Hash} :
    Since (history ++ [last]) report id ↔ Since history report id ∧ last ≠ .pruned id ∨ report = last := by
  constructor
  · rintro ⟨older, newer, split, absent⟩
    rcases newer.eq_nil_or_concat with rfl | ⟨before, final, rfl⟩
    · exact .inr (List.head_eq_of_cons_eq (List.append_inj' split rfl).2).symm
    · rw [List.concat_eq_append] at split absent
      have parts : history ++ [last] = (older ++ report :: before) ++ [final] := by rw [split, List.append_assoc, List.cons_append]
      obtain ⟨same, final_eq⟩ := List.append_inj' parts rfl
      obtain rfl : last = final := List.head_eq_of_cons_eq final_eq
      rw [List.mem_append, not_or] at absent
      exact .inl ⟨⟨older, before, same, absent.1⟩, fun pruned => absent.2 (List.mem_singleton.mpr pruned.symm)⟩
  · rintro (⟨⟨older, newer, rfl, absent⟩, other⟩ | rfl)
    · refine ⟨older, newer ++ [last], by rw [List.append_assoc, List.cons_append], ?_⟩
      rw [List.mem_append, List.mem_singleton, not_or]
      exact ⟨absent, fun pruned => other pruned.symm⟩
    · exact ⟨history, [], rfl, List.not_mem_nil⟩

/-! ## What holds along every run -/

variable (kind) in
structure Sound (mempool : Mempool Tx Hash) (clock : Int) (history : List (Report Tx Hash)) : Prop where
  active : ∀ id, id ∈ mempool.active ↔ ∃ tx, mempool.transactions id = some tx ∧ kind.isValid tx = true
  pending : ∀ id, mempool.transactions id ≠ none → ∃ time, (time, id) ∈ mempool.unexpiredTxid
  ordered : mempool.unexpiredTx.Pairwise (·.1 ≤ ·.1)
  ordered_txids : mempool.unexpiredTxid.Pairwise (·.1 ≤ ·.1)
  past : ∀ entry ∈ mempool.unexpiredTx, entry.1 ≤ clock
  past_txids : ∀ entry ∈ mempool.unexpiredTxid, entry.1 ≤ clock
  valid : ∀ time tx, Since history (.accepted time tx) (kind.id tx) → kind.isValid tx = true
  waits : ∀ time tx, Since history (.accepted time tx) (kind.id tx) → clock < time + txLimit → (time, kind.id tx) ∈ mempool.unexpiredTx
  waits_txids : ∀ time id, Since history (.known time id) id → clock < time + txidLimit → (time, id) ∈ mempool.unexpiredTxid
  latest : ∀ id ∈ mempool.active, ∃ time tx, kind.id tx = id ∧ Since history (.accepted time tx) id ∧
    mempool.transactions id = some tx ∧ ∀ older, (older, id) ∈ mempool.unexpiredTx → older ≤ time
  latest_txids : ∀ id, mempool.transactions id ≠ none → ∃ time, Since history (.known time id) id ∧
    ∀ older, (older, id) ∈ mempool.unexpiredTxid → older ≤ time

variable (kind) in
/-- What was accepted is there until its time is over. -/
structure Retained (mempool : Mempool Tx Hash) (clock : Int) (history : List (Report Tx Hash)) : Prop where
  txs : ∀ time tx, Since history (.accepted time tx) (kind.id tx) → clock < time + txLimit → mempool.transactions (kind.id tx) = some tx
  txids : ∀ time id, Since history (.known time id) id → clock < time + txidLimit → mempool.transactions id ≠ none

variable (kind) in
structure Keeps (mempool : Mempool Tx Hash) (clock : Int) (history : List (Report Tx Hash))
    (after : Mempool Tx Hash × List (Report Tx Hash)) (last : Int) : Prop where
  sound : Sound kind after.1 last (history ++ after.2)
  retained : Retained kind mempool clock history → Retained kind after.1 last (history ++ after.2)

theorem Sound.later (sound : Sound kind mempool clock history) (more : clock ≤ now) : Sound kind mempool now history :=
  { sound with
    past := fun entry inside => (sound.past entry inside).trans more
    past_txids := fun entry inside => (sound.past_txids entry inside).trans more
    waits := fun time tx since soon => sound.waits time tx since (more.trans_lt soon)
    waits_txids := fun time id since soon => sound.waits_txids time id since (more.trans_lt soon) }

theorem Retained.later (retained : Retained kind mempool clock history) (more : clock ≤ now) : Retained kind mempool now history where
  txs time tx since soon := retained.txs time tx since (more.trans_lt soon)
  txids time id since soon := retained.txids time id since (more.trans_lt soon)

theorem Keeps.nothing (sound : Sound kind mempool clock history) (more : clock ≤ now) :
    Keeps kind mempool clock history (mempool, []) now where
  sound := by
    rw [List.append_nil]
    exact sound.later more
  retained retained := by
    rw [List.append_nil]
    exact retained.later more

theorem Keeps.trans {middle after : Mempool Tx Hash × List (Report Tx Hash)} {later last : Int}
    (first : Keeps kind mempool clock history middle later) (second : Keeps kind middle.1 later (history ++ middle.2) after last) :
    Keeps kind mempool clock history (after.1, middle.2 ++ after.2) last where
  sound := by
    rw [← List.append_assoc]
    exact second.sound
  retained retained := by
    rw [← List.append_assoc]
    exact second.retained (first.retained retained)

theorem pairwise_concat {queue : List (Int × Hash)} (ordered : queue.Pairwise (·.1 ≤ ·.1)) (past : ∀ entry ∈ queue, entry.1 ≤ now) :
    (queue ++ [(now, id)]).Pairwise (·.1 ≤ ·.1) := by
  refine List.pairwise_append.mpr ⟨ordered, List.pairwise_singleton _ _, fun entry inside last final => ?_⟩
  rw [List.mem_singleton.mp final]
  exact past entry inside

theorem past_concat {queue : List (Int × Hash)} (past : ∀ entry ∈ queue, entry.1 ≤ now) :
    ∀ entry ∈ queue ++ [(now, id)], entry.1 ≤ now := by
  intro entry inside
  rcases List.mem_append.mp inside with before | last
  · exact past entry before
  · exact (List.mem_singleton.mp last) ▸ le_rfl

/-- A new id is entered as a blank transaction. -/
theorem Keeps.emplace (sound : Sound kind mempool now history) (absent : mempool.transactions id = none) :
    Keeps kind mempool now history ({ mempool with
      transactions := Function.update mempool.transactions id (some kind.blank)
      unexpiredTxid := mempool.unexpiredTxid ++ [(now, id)] }, [.known now id]) now := by
  have others (other : Hash) (there : mempool.transactions other ≠ none) :
      Function.update mempool.transactions id (some kind.blank) other = mempool.transactions other :=
    Function.update_of_ne (fun same : other = id => there (same ▸ absent)) _ _
  have stays {report : Report Tx Hash} {other : Hash} (since : Since history report other) : Since (history ++ [.known now id]) report other :=
    since_concat.mpr (.inl ⟨since, nofun⟩)
  refine ⟨⟨fun other => ?_, fun other there => ?_, sound.ordered, pairwise_concat sound.ordered_txids sound.past_txids, sound.past,
    past_concat sound.past_txids, fun time tx since => ?_, fun time tx since => ?_, fun time other since soon => ?_, fun other inside => ?_,
    fun other there => ?_⟩, fun retained => ⟨fun time tx since soon => ?_, fun time other since soon => ?_⟩⟩
  · show other ∈ mempool.active ↔ ∃ tx, Function.update mempool.transactions id (some kind.blank) other = some tx ∧ _
    rw [sound.active]
    by_cases same : other = id
    · subst same
      rw [absent, Function.update_self]
      refine iff_of_false (fun ⟨_, found, _⟩ => nomatch found) ?_
      rintro ⟨tx, found, valid⟩
      rw [← Option.some.inj found, kind.blank_invalid] at valid
      cases valid
    · rw [Function.update_of_ne same]
  · show ∃ time, (time, other) ∈ mempool.unexpiredTxid ++ [(now, id)]
    by_cases same : other = id
    · exact ⟨now, List.mem_append_right _ (List.mem_singleton.mpr (same ▸ rfl))⟩
    · obtain ⟨time, inside⟩ := sound.pending other fun none => there ((Function.update_of_ne same _ _).trans none)
      exact ⟨time, List.mem_append_left _ inside⟩
  · exact sound.valid time tx ((since_concat.mp since).elim And.left nofun)
  · exact sound.waits time tx ((since_concat.mp since).elim And.left nofun)
  · rcases since_concat.mp since with ⟨before, _⟩ | last
    · exact List.mem_append_left _ (sound.waits_txids time other before soon)
    · cases last
      exact List.mem_append_right _ (List.mem_singleton.mpr rfl)
  · obtain ⟨time, tx, named, since, stored, last⟩ := sound.latest other inside
    exact ⟨time, tx, named, stays since, (others other (stored ▸ Option.some_ne_none tx)).trans stored, last⟩
  · by_cases same : other = id
    · subst same
      refine ⟨now, since_concat.mpr (.inr rfl), fun older inside => ?_⟩
      exact past_concat sound.past_txids _ inside
    · obtain ⟨time, since, last⟩ := sound.latest_txids other fun none => there ((Function.update_of_ne same _ _).trans none)
      refine ⟨time, stays since, fun older inside => ?_⟩
      rcases List.mem_append.mp inside with before | final
      · exact last older before
      · exact absurd (Prod.mk.inj (List.mem_singleton.mp final)).2 same
  · have stored := retained.txs time tx ((since_concat.mp since).elim And.left nofun) soon
    exact (others _ (stored ▸ Option.some_ne_none tx)).trans stored
  · show Function.update mempool.transactions id (some kind.blank) other ≠ none
    by_cases same : other = id
    · subst same
      rw [Function.update_self]
      exact Option.some_ne_none _
    · rw [Function.update_of_ne same]
      rcases since_concat.mp since with ⟨before, _⟩ | last
      · exact retained.txids time other before soon
      · cases last
        exact absurd rfl same

/-- A valid transaction takes the place of one that is not. -/
theorem Keeps.take (sound : Sound kind mempool now history) (valid : kind.isValid tx = true)
    (there : mempool.transactions (kind.id tx) ≠ none) (waiting : ∀ existing, mempool.transactions (kind.id tx) = some existing → kind.isValid existing = false) :
    Keeps kind mempool now history ({ mempool with
      transactions := Function.update mempool.transactions (kind.id tx) (some tx)
      active := insert (kind.id tx) mempool.active
      unexpiredTx := mempool.unexpiredTx ++ [(now, kind.id tx)] }, [.accepted now tx]) now := by
  have kept (other : Hash) : Function.update mempool.transactions (kind.id tx) (some tx) other ≠ none ↔ mempool.transactions other ≠ none := by
    by_cases same : other = kind.id tx
    · subst same
      rw [Function.update_self]
      exact iff_of_true (Option.some_ne_none tx) there
    · rw [Function.update_of_ne same]
  have stays {report : Report Tx Hash} {other : Hash} (since : Since history report other) : Since (history ++ [.accepted now tx]) report other :=
    since_concat.mpr (.inl ⟨since, nofun⟩)
  refine ⟨⟨fun other => ?_, fun other there => sound.pending other ((kept other).mp there), pairwise_concat sound.ordered sound.past,
    sound.ordered_txids, past_concat sound.past, sound.past_txids, fun time other since => ?_, fun time other since soon => ?_,
    fun time other since => ?_, fun other inside => ?_, fun other there => ?_⟩, fun retained =>
    ⟨fun time other since soon => ?_, fun time other since soon => (kept other).mpr ?_⟩⟩
  · show other ∈ insert (kind.id tx) mempool.active ↔ ∃ found, Function.update mempool.transactions (kind.id tx) (some tx) other = some found ∧ _
    rw [Finset.mem_insert]
    by_cases same : other = kind.id tx
    · subst same
      rw [Function.update_self]
      exact iff_of_true (.inl rfl) ⟨tx, rfl, valid⟩
    · rw [Function.update_of_ne same, or_iff_right same, sound.active]
  · rcases since_concat.mp since with ⟨before, _⟩ | last
    · exact sound.valid time other before
    · cases last
      exact valid
  · rcases since_concat.mp since with ⟨before, _⟩ | last
    · exact List.mem_append_left _ (sound.waits time other before soon)
    · cases last
      exact List.mem_append_right _ (List.mem_singleton.mpr rfl)
  · exact sound.waits_txids time other ((since_concat.mp since).elim And.left nofun)
  · by_cases same : other = kind.id tx
    · subst same
      refine ⟨now, tx, rfl, since_concat.mpr (.inr rfl), Function.update_self _ _ _, fun older inside => ?_⟩
      exact past_concat sound.past _ inside
    · obtain ⟨time, found, named, since, stored, last⟩ := sound.latest other ((Finset.mem_insert.mp inside).resolve_left same)
      refine ⟨time, found, named, stays since, (Function.update_of_ne same _ _).trans stored, fun older inside => ?_⟩
      rcases List.mem_append.mp inside with before | final
      · exact last older before
      · exact absurd (Prod.mk.inj (List.mem_singleton.mp final)).2 same
  · obtain ⟨time, since, last⟩ := sound.latest_txids other ((kept other).mp there)
    exact ⟨time, stays since, last⟩
  · show Function.update mempool.transactions (kind.id tx) (some tx) (kind.id other) = some other
    rcases since_concat.mp since with ⟨before, _⟩ | last
    · have stored := retained.txs time other before soon
      by_cases same : kind.id other = kind.id tx
      · have invalid := waiting other (same ▸ stored)
        rw [sound.valid time other before] at invalid
        cases invalid
      · exact (Function.update_of_ne same _ _).trans stored
    · cases last
      exact Function.update_self _ _ _
  · exact retained.txids time other ((since_concat.mp since).elim And.left nofun) soon

theorem expireTxid_transactions (mempool : Mempool Tx Hash) (id other : Hash) :
    (mempool.expireTxid id).transactions other = if other = id then none else mempool.transactions other :=
  Function.update_apply _ _ _ _

/-- An id in a block is struck off. -/
theorem Keeps.prune (sound : Sound kind mempool now history) :
    Keeps kind mempool now history (mempool.expireTxid id, [.pruned id]) now := by
  have left (other : Hash) : (mempool.expireTxid id).transactions other ≠ none ↔ other ≠ id ∧ mempool.transactions other ≠ none := by
    rw [expireTxid_transactions]
    by_cases same : other = id
    · simp [same]
    · simp [same]
  have before {report : Report Tx Hash} {other : Hash} (since : Since (history ++ [.pruned id]) report other) (kept : report ≠ .pruned id) :
      Since history report other ∧ other ≠ id := by
    rcases since_concat.mp since with ⟨since, apart⟩ | last
    · exact ⟨since, fun same => apart (same ▸ rfl)⟩
    · exact absurd last kept
  have stays {report : Report Tx Hash} {other : Hash} (apart : other ≠ id) (since : Since history report other) :
      Since (history ++ [.pruned id]) report other :=
    since_concat.mpr (.inl ⟨since, fun same => apart (Report.pruned.inj same).symm⟩)
  refine ⟨⟨fun other => ?_, fun other there => sound.pending other ((left other).mp there).2, sound.ordered, sound.ordered_txids, sound.past,
    sound.past_txids, fun time tx since => sound.valid time tx (before since nofun).1,
    fun time tx since => sound.waits time tx (before since nofun).1, fun time other since => sound.waits_txids time other (before since nofun).1,
    fun other inside => ?_, fun other there => ?_⟩, fun retained => ⟨fun time tx since soon => ?_, fun time other since soon => ?_⟩⟩
  · rw [expireTxid_transactions]
    show other ∈ mempool.active.erase id ↔ _
    rw [Finset.mem_erase, sound.active]
    by_cases same : other = id
    · simp [same]
    · simp [same]
  · obtain ⟨apart, there⟩ := Finset.mem_erase.mp inside
    obtain ⟨time, tx, named, since, stored, last⟩ := sound.latest other there
    exact ⟨time, tx, named, stays apart since, (expireTxid_transactions _ _ _).trans ((if_neg apart).trans stored), last⟩
  · obtain ⟨apart, there⟩ := (left other).mp there
    obtain ⟨time, since, last⟩ := sound.latest_txids other there
    exact ⟨time, stays apart since, last⟩
  · obtain ⟨since, apart⟩ := before since nofun
    exact (expireTxid_transactions _ _ _).trans ((if_neg apart).trans (retained.txs time tx since soon))
  · obtain ⟨since, apart⟩ := before since nofun
    exact (left other).mpr ⟨apart, retained.txids time other since soon⟩

/-! ## The calls -/

theorem submitTxid_present {time : Int} (there : mempool.transactions id ≠ none) : mempool.submitTxid kind (time, id) = (mempool, []) := by
  obtain ⟨tx, found⟩ := Option.ne_none_iff_exists'.mp there
  rw [Mempool.submitTxid, found]

theorem submitTxid_absent {time : Int} (absent : mempool.transactions id = none) : mempool.submitTxid kind (time, id) = ({ mempool with
    transactions := Function.update mempool.transactions id (some kind.blank)
    unexpiredTxid := mempool.unexpiredTxid ++ [(time, id)] }, [.known time id]) := by
  rw [Mempool.submitTxid, absent]

theorem submitTxid_keeps (sound : Sound kind mempool now history) : Keeps kind mempool now history (mempool.submitTxid kind (now, id)) now := by
  by_cases absent : mempool.transactions id = none
  · rw [submitTxid_absent absent]
    exact Keeps.emplace sound absent
  · rw [submitTxid_present absent]
    exact Keeps.nothing sound le_rfl

theorem submitTxid_there (mempool : Mempool Tx Hash) (time : Int) (id : Hash) : (mempool.submitTxid kind (time, id)).1.transactions id ≠ none := by
  by_cases absent : mempool.transactions id = none
  · rw [submitTxid_absent absent]
    show Function.update mempool.transactions id (some kind.blank) id ≠ none
    rw [Function.update_self]
    exact Option.some_ne_none _
  · rw [submitTxid_present absent]
    exact absent

theorem submitTransaction_valid (valid : kind.isValid tx = true) {emplaced : Mempool Tx Hash} {added : List (Report Tx Hash)}
    (entered : mempool.submitTxid kind (now, kind.id tx) = (emplaced, added)) : mempool.submitTransaction kind now tx =
      if (emplaced.transactions (kind.id tx)).any kind.isValid then (emplaced, added)
      else ({ emplaced with
        transactions := Function.update emplaced.transactions (kind.id tx) (some tx)
        active := insert (kind.id tx) emplaced.active
        unexpiredTx := emplaced.unexpiredTx ++ [(now, kind.id tx)] }, added ++ [.accepted now tx]) := by
  have taken : ¬ kind.isValid tx = false := valid ▸ nofun
  rw [Mempool.submitTransaction, if_neg taken]
  dsimp only
  rw [entered]

theorem submitTransaction_keeps (sound : Sound kind mempool now history) (tx : Tx) :
    Keeps kind mempool now history (mempool.submitTransaction kind now tx) now := by
  by_cases valid : kind.isValid tx = true
  · have first : Keeps kind mempool now history (mempool.submitTxid kind (now, kind.id tx)) now := submitTxid_keeps sound
    have there : (mempool.submitTxid kind (now, kind.id tx)).1.transactions (kind.id tx) ≠ none := submitTxid_there mempool now (kind.id tx)
    rcases entered : mempool.submitTxid kind (now, kind.id tx) with ⟨emplaced, added⟩
    rw [entered] at first there
    rw [submitTransaction_valid valid entered]
    split
    · exact first
    · next waiting =>
      refine first.trans (Keeps.take first.sound valid there fun existing found => ?_)
      rw [found] at waiting
      exact Bool.eq_false_iff.mpr waiting
  · rw [Mempool.submitTransaction, if_pos (Bool.eq_false_iff.mpr valid)]
    exact Keeps.nothing sound le_rfl

/-- The items one after the other, each at its time. -/
theorem each_keeps {α : Type} {act : Mempool Tx Hash → α → Mempool Tx Hash × List (Report Tx Hash)} (time : α → Int)
    (one : ∀ item mempool history, Sound kind mempool (time item) history → Keeps kind mempool (time item) history (act mempool item) (time item))
    (last : Int) (items : List α) : ∀ {mempool : Mempool Tx Hash} {clock history}, Sound kind mempool clock history →
      (clock :: items.map time).Pairwise (· ≤ ·) → (∀ reading ∈ clock :: items.map time, reading ≤ last) →
      Keeps kind mempool clock history (each act items mempool) last := by
  induction items with
  | nil =>
    intro mempool clock history sound _ until_
    exact Keeps.nothing sound (until_ clock List.mem_cons_self)
  | cons item rest ih =>
    intro mempool clock history sound ordered until_
    obtain ⟨above, later⟩ := List.pairwise_cons.mp ordered
    have at_once := one item mempool history (sound.later (above _ List.mem_cons_self))
    have waited : Keeps kind mempool clock history (act mempool item) (time item) :=
      ⟨at_once.sound, fun retained => at_once.retained (retained.later (above _ List.mem_cons_self))⟩
    exact waited.trans (ih at_once.sound later fun reading inside => until_ reading (List.mem_cons_of_mem clock inside))

/-! ## Heartbeats -/

def reached (limit now : Int) (entry : Int × Hash) : Bool := limit ≤ now - entry.1

theorem reached_iff {limit : Int} {entry : Int × Hash} : reached limit now entry = true ↔ limit ≤ now - entry.1 := decide_eq_true_iff

/-- The ids of the entries at the front that have reached the limit. -/
def dueIds (queue : List (Int × Hash)) (limit now : Int) : List Hash := (queue.takeWhile (reached limit now)).map Prod.snd

theorem expireWhile_eq (limit now : Int) (expire : Mempool Tx Hash → Hash → Mempool Tx Hash) (queue : List (Int × Hash))
    (mempool : Mempool Tx Hash) : expireWhile limit now expire queue mempool =
      ((dueIds queue limit now).foldl expire mempool, queue.dropWhile (reached limit now)) := by
  induction queue generalizing mempool with
  | nil => rfl
  | cons entry rest ih =>
    obtain ⟨time, id⟩ := entry
    rw [expireWhile, dueIds]
    by_cases due : reached limit now (time, id) = true
    · rw [if_neg (not_lt.mpr (reached_iff.mp due)), ih, List.takeWhile_cons_of_pos due, List.dropWhile_cons_of_pos due]
      rfl
    · rw [if_pos (not_le.mp (mt reached_iff.mpr due)), List.takeWhile_cons_of_neg due, List.dropWhile_cons_of_neg due]
      rfl

variable {queue : List (Int × Hash)} {limit : Int}

/-- In a queue in the order of the times the entries at the front are all that have reached the limit. -/
theorem mem_dueIds (ordered : queue.Pairwise (·.1 ≤ ·.1)) : id ∈ dueIds queue limit now ↔ Due queue limit now id := by
  induction queue with
  | nil => exact iff_of_false List.not_mem_nil fun ⟨_, inside, _⟩ => List.not_mem_nil inside
  | cons entry rest ih =>
    obtain ⟨above, ordered⟩ := List.pairwise_cons.mp ordered
    rw [dueIds]
    by_cases due : reached limit now entry = true
    · rw [List.takeWhile_cons_of_pos due, List.map_cons, List.mem_cons]
      show id = entry.2 ∨ id ∈ dueIds rest limit now ↔ _
      rw [ih ordered]
      constructor
      · rintro (rfl | ⟨time, inside, passed⟩)
        · exact ⟨entry.1, List.mem_cons_self, reached_iff.mp due⟩
        · exact ⟨time, List.mem_cons_of_mem _ inside, passed⟩
      · rintro ⟨time, inside, passed⟩
        rcases List.mem_cons.mp inside with rfl | later
        · exact .inl rfl
        · exact .inr ⟨time, later, passed⟩
    · rw [List.takeWhile_cons_of_neg due]
      rw [reached_iff] at due
      refine iff_of_false List.not_mem_nil ?_
      rintro ⟨time, inside, passed⟩
      rcases List.mem_cons.mp inside with rfl | later
      · exact due passed
      · have order : entry.1 ≤ time := above _ later
        omega

theorem mem_dropWhile (ordered : queue.Pairwise (·.1 ≤ ·.1)) {entry : Int × Hash} :
    entry ∈ queue.dropWhile (reached limit now) ↔ entry ∈ queue ∧ now - entry.1 < limit := by
  induction queue with
  | nil => simp
  | cons first rest ih =>
    obtain ⟨above, ordered⟩ := List.pairwise_cons.mp ordered
    by_cases due : reached limit now first = true
    · rw [List.dropWhile_cons_of_pos due, ih ordered, List.mem_cons]
      rw [reached_iff] at due
      refine ⟨fun ⟨inside, soon⟩ => ⟨.inr inside, soon⟩, ?_⟩
      rintro ⟨rfl | inside, soon⟩
      · omega
      · exact ⟨inside, soon⟩
    · rw [List.dropWhile_cons_of_neg due]
      rw [reached_iff] at due
      refine (and_iff_left_of_imp fun inside => ?_).symm
      rcases List.mem_cons.mp inside with rfl | later
      · exact not_le.mp due
      · have order := above _ later
        omega

theorem expireTx_transactions (mempool : Mempool Tx Hash) (id other : Hash) : (mempool.expireTx kind id).transactions other =
    if other = id then (mempool.transactions other).map fun _ => kind.blank else mempool.transactions other := by
  show Function.update mempool.transactions id _ other = _
  rw [Function.update_apply]
  by_cases same : other = id
  · rw [if_pos same, if_pos same, same]
  · rw [if_neg same, if_neg same]

theorem expireTxs_transactions (ids : List Hash) (mempool : Mempool Tx Hash) (id : Hash) :
    (ids.foldl (Mempool.expireTx kind) mempool).transactions id =
      if id ∈ ids then (mempool.transactions id).map fun _ => kind.blank else mempool.transactions id := by
  induction ids generalizing mempool with
  | nil => rfl
  | cons first rest ih =>
    rw [List.foldl_cons, ih, expireTx_transactions]
    by_cases same : id = first
    · simp [same, Function.comp_def]
    · simp [same]

theorem expireTxids_transactions (ids : List Hash) (mempool : Mempool Tx Hash) (id : Hash) :
    (ids.foldl Mempool.expireTxid mempool).transactions id = if id ∈ ids then none else mempool.transactions id := by
  induction ids generalizing mempool with
  | nil => rfl
  | cons first rest ih =>
    rw [List.foldl_cons, ih, expireTxid_transactions]
    by_cases same : id = first
    · simp [same]
    · simp [same]

theorem expired_active {expire : Mempool Tx Hash → Hash → Mempool Tx Hash}
    (one : ∀ mempool id, (expire mempool id).active = mempool.active.erase id) (ids : List Hash) (mempool : Mempool Tx Hash) :
    id ∈ (ids.foldl expire mempool).active ↔ id ∈ mempool.active ∧ id ∉ ids := by
  induction ids generalizing mempool with
  | nil => simp
  | cons first rest ih =>
    rw [List.foldl_cons, ih, one, Finset.mem_erase, List.mem_cons]
    tauto

theorem expireTxs_unexpiredTxid (ids : List Hash) (mempool : Mempool Tx Hash) :
    (ids.foldl (Mempool.expireTx kind) mempool).unexpiredTxid = mempool.unexpiredTxid := by
  induction ids generalizing mempool with
  | nil => rfl
  | cons first rest ih => exact ih (mempool.expireTx kind first)

/-- What a heartbeat leaves: the entries that are not due, and the ids without one that is. -/
structure Beats (kind : Kind Tx Hash) (now : Int) (before after : Mempool Tx Hash) : Prop where
  unexpiredTx : after.unexpiredTx = before.unexpiredTx.dropWhile (reached txLimit now)
  unexpiredTxid : after.unexpiredTxid = before.unexpiredTxid.dropWhile (reached txidLimit now)
  erased : ∀ id, Due before.unexpiredTxid txidLimit now id → after.transactions id = none
  blanked : ∀ id, ¬ Due before.unexpiredTxid txidLimit now id → Due before.unexpiredTx txLimit now id →
    after.transactions id = (before.transactions id).map fun _ => kind.blank
  kept : ∀ id, ¬ Due before.unexpiredTxid txidLimit now id → ¬ Due before.unexpiredTx txLimit now id →
    after.transactions id = before.transactions id
  active : ∀ id, id ∈ after.active ↔
    id ∈ before.active ∧ ¬ Due before.unexpiredTx txLimit now id ∧ ¬ Due before.unexpiredTxid txidLimit now id

theorem Sound.beats (sound : Sound kind mempool clock history) (now : Int) : Beats kind now mempool (heartbeat kind now mempool) := by
  have queue : ((dueIds mempool.unexpiredTx txLimit now).foldl (Mempool.expireTx kind) mempool).unexpiredTxid = mempool.unexpiredTxid :=
    expireTxs_unexpiredTxid _ mempool
  have whole : heartbeat kind now mempool =
      { (dueIds mempool.unexpiredTxid txidLimit now).foldl Mempool.expireTxid
          ((dueIds mempool.unexpiredTx txLimit now).foldl (Mempool.expireTx kind) mempool) with
        unexpiredTx := mempool.unexpiredTx.dropWhile (reached txLimit now)
        unexpiredTxid := mempool.unexpiredTxid.dropWhile (reached txidLimit now) } := by
    unfold heartbeat
    rw [expireWhile_eq]
    dsimp only
    rw [expireWhile_eq, queue]
  have stored (id : Hash) : (heartbeat kind now mempool).transactions id =
      if id ∈ dueIds mempool.unexpiredTxid txidLimit now then none
      else if id ∈ dueIds mempool.unexpiredTx txLimit now then (mempool.transactions id).map fun _ => kind.blank
      else mempool.transactions id := by
    rw [whole, ← expireTxs_transactions]
    exact expireTxids_transactions _ _ id
  refine ⟨whole ▸ rfl, whole ▸ rfl, fun id due => ?_, fun id apart due => ?_, fun id apart other => ?_, fun id => ?_⟩
  · rw [stored, if_pos ((mem_dueIds sound.ordered_txids).mpr due)]
  · rw [stored, if_neg (mt (mem_dueIds sound.ordered_txids).mp apart), if_pos ((mem_dueIds sound.ordered).mpr due)]
  · rw [stored, if_neg (mt (mem_dueIds sound.ordered_txids).mp apart), if_neg (mt (mem_dueIds sound.ordered).mp other)]
  · rw [← mem_dueIds sound.ordered_txids, ← mem_dueIds sound.ordered, ← and_assoc, whole]
    have first : id ∈ ((dueIds mempool.unexpiredTx txLimit now).foldl (Mempool.expireTx kind) mempool).active ↔ _ :=
      expired_active (fun _ _ => rfl) _ mempool
    exact (expired_active (fun _ _ => rfl) _ _).trans (and_congr_left fun _ => first)

theorem Beats.stored {after : Mempool Tx Hash} (beats : Beats kind now mempool after) (there : after.transactions id ≠ none) :
    mempool.transactions id ≠ none ∧ ¬ Due mempool.unexpiredTxid txidLimit now id := by
  have apart : ¬ Due mempool.unexpiredTxid txidLimit now id := fun due => there (beats.erased id due)
  refine ⟨fun absent => there ?_, apart⟩
  by_cases due : Due mempool.unexpiredTx txLimit now id
  · rw [beats.blanked id apart due, absent]
    rfl
  · exact (beats.kept id apart due).trans absent

theorem Beats.active_stored {after : Mempool Tx Hash} (beats : Beats kind now mempool after) (inside : id ∈ after.active) :
    after.transactions id = mempool.transactions id :=
  have ⟨_, soon, apart⟩ := (beats.active id).mp inside
  beats.kept id apart soon

theorem Sound.heartbeat (sound : Sound kind mempool clock history) (more : clock ≤ now) {after : Mempool Tx Hash}
    (beats : Beats kind now mempool after) : Sound kind after now history := by
  have left {entry : Int × Hash} : entry ∈ after.unexpiredTx ↔ entry ∈ mempool.unexpiredTx ∧ now - entry.1 < txLimit := by
    rw [beats.unexpiredTx]
    exact mem_dropWhile sound.ordered
  have left_txids {entry : Int × Hash} : entry ∈ after.unexpiredTxid ↔ entry ∈ mempool.unexpiredTxid ∧ now - entry.1 < txidLimit := by
    rw [beats.unexpiredTxid]
    exact mem_dropWhile sound.ordered_txids
  refine ⟨fun id => ?_, fun id there => ?_, ?_, ?_, fun entry inside => (sound.past entry (left.mp inside).1).trans more,
    fun entry inside => (sound.past_txids entry (left_txids.mp inside).1).trans more, sound.valid, fun time tx since soon => ?_,
    fun time id since soon => ?_, fun id inside => ?_, fun id there => ?_⟩
  · constructor
    · intro inside
      obtain ⟨tx, stored, valid⟩ := (sound.active id).mp ((beats.active id).mp inside).1
      exact ⟨tx, (beats.active_stored inside).trans stored, valid⟩
    · rintro ⟨tx, stored, valid⟩
      obtain ⟨_, apart⟩ := beats.stored (stored ▸ Option.some_ne_none tx)
      have other : ¬ Due mempool.unexpiredTx txLimit now id := by
        intro due
        rw [beats.blanked id apart due] at stored
        obtain ⟨_, _, rfl⟩ := Option.map_eq_some_iff.mp stored
        rw [kind.blank_invalid] at valid
        cases valid
      exact (beats.active id).mpr ⟨(sound.active id).mpr ⟨tx, (beats.kept id apart other).symm.trans stored, valid⟩, other, apart⟩
  · obtain ⟨before, apart⟩ := beats.stored there
    obtain ⟨time, inside⟩ := sound.pending id before
    refine ⟨time, left_txids.mpr ⟨inside, not_le.mp fun passed => apart ⟨time, inside, passed⟩⟩⟩
  · rw [beats.unexpiredTx]
    exact sound.ordered.sublist (List.dropWhile_sublist _)
  · rw [beats.unexpiredTxid]
    exact sound.ordered_txids.sublist (List.dropWhile_sublist _)
  · refine left.mpr ⟨sound.waits time tx since (by omega), ?_⟩
    show now - time < txLimit
    omega
  · refine left_txids.mpr ⟨sound.waits_txids time id since (by omega), ?_⟩
    show now - time < txidLimit
    omega
  · obtain ⟨time, tx, named, since, stored, last⟩ := sound.latest id ((beats.active id).mp inside).1
    exact ⟨time, tx, named, since, (beats.active_stored inside).trans stored, fun older entry => last older (left.mp entry).1⟩
  · obtain ⟨time, since, last⟩ := sound.latest_txids id (beats.stored there).1
    exact ⟨time, since, fun older entry => last older (left_txids.mp entry).1⟩

/-- Nothing is lost in a heartbeat exactly if no younger entry waits behind one that is due. -/
theorem Retained.heartbeat_iff (sound : Sound kind mempool clock history) (retained : Retained kind mempool clock history)
    (more : clock ≤ now) {after : Mempool Tx Hash} (beats : Beats kind now mempool after) :
    Retained kind after now history ↔ TimelyAt now mempool := by
  constructor
  · intro kept
    constructor
    · rintro ⟨time, id⟩ entry inside due
      obtain ⟨last, tx, rfl, since, stored, latest⟩ := sound.latest id inside
      by_contra soon
      have order := latest time entry
      dsimp only at soon
      have there := kept.txs last tx since (by omega)
      have valid := sound.valid last tx since
      obtain ⟨_, apart⟩ := beats.stored (there ▸ Option.some_ne_none tx)
      rw [beats.blanked _ apart (due.resolve_right apart), stored] at there
      have blank : kind.blank = tx := Option.some.inj there
      rw [← blank, kind.blank_invalid] at valid
      cases valid
    · rintro ⟨time, id⟩ entry there due
      obtain ⟨last, since, latest⟩ := sound.latest_txids id (Option.isSome_iff_ne_none.mp there)
      by_contra soon
      have order := latest time entry
      dsimp only at soon
      exact kept.txids last id since (by omega) (beats.erased id due)
  · intro timely
    constructor
    · intro time tx since soon
      have stored := retained.txs time tx since (by omega)
      have waits := sound.waits time tx since (by omega)
      have inside := (sound.active _).mpr ⟨tx, stored, sound.valid time tx since⟩
      have apart : ¬ (Due mempool.unexpiredTx txLimit now (kind.id tx) ∨ Due mempool.unexpiredTxid txidLimit now (kind.id tx)) := by
        intro due
        have passed : txLimit ≤ now - time := timely.txs _ waits inside due
        omega
      rw [not_or] at apart
      exact (beats.kept _ apart.2 apart.1).trans stored
    · intro time id since soon
      have there := retained.txids time id since (by omega)
      have waits := sound.waits_txids time id since (by omega)
      have apart : ¬ Due mempool.unexpiredTxid txidLimit now id := by
        intro due
        have passed : txidLimit ≤ now - time := timely.txids _ waits (Option.isSome_iff_ne_none.mpr there) due
        omega
      by_cases blanked : Due mempool.unexpiredTx txLimit now id
      · rw [beats.blanked id apart blanked]
        exact fun none => there (Option.map_eq_none_iff.mp none)
      · exact (beats.kept id apart blanked).symm ▸ there

/-! ## Runs -/

theorem le_getLastD {times : List Int} (ordered : (clock :: times).Pairwise (· ≤ ·)) :
    ∀ reading ∈ clock :: times, reading ≤ times.getLastD clock := by
  induction times generalizing clock with
  | nil => exact fun _ inside => (List.mem_singleton.mp inside).le
  | cons time rest ih =>
    obtain ⟨above, later⟩ := List.pairwise_cons.mp ordered
    have order := ih later
    intro reading inside
    rw [List.getLastD_cons]
    rcases List.mem_cons.mp inside with rfl | member
    · exact (above time List.mem_cons_self).trans (order time List.mem_cons_self)
    · exact order reading member

theorem mem_same {α : Type} {items : List α} {reading : Int} (inside : reading ∈ now :: items.map fun _ => now) : reading = now := by
  rcases List.mem_cons.mp inside with same | member
  · exact same
  · obtain ⟨_, _, same⟩ := List.mem_map.mp member
    exact same.symm

/-- Items that all come at one time. -/
theorem each_keeps_now {α : Type} {act : Mempool Tx Hash → α → Mempool Tx Hash × List (Report Tx Hash)}
    (one : ∀ item mempool history, Sound kind mempool now history → Keeps kind mempool now history (act mempool item) now)
    (items : List α) (sound : Sound kind mempool now history) : Keeps kind mempool now history (each act items mempool) now :=
  each_keeps (fun _ => now) one now items sound
    (List.pairwise_of_forall_mem_list fun _ first _ second => ((mem_same first).trans (mem_same second).symm).le)
    fun _ inside => (mem_same inside).le

/-- Every call but a heartbeat keeps both what holds anyway and what was accepted. -/
theorem keeps_run {event : Event Tx Hash} (quiet : ∀ now, event ≠ .heartbeat now) (sound : Sound kind mempool clock history)
    (ordered : (clock :: event.times).Pairwise (· ≤ ·)) :
    Keeps kind mempool clock history (event.run kind mempool) (event.times.getLastD clock) := by
  cases event with
  | submitTxids txids =>
    exact each_keeps Prod.fst (fun item _ _ sound => submitTxid_keeps sound) _ txids sound ordered (le_getLastD ordered)
  | submitTransactions now txns =>
    have more : clock ≤ now := (List.pairwise_cons.mp ordered).1 now List.mem_cons_self
    have at_once : Keeps kind mempool now history (submitTransactions kind now txns mempool) now :=
      each_keeps_now (fun tx _ _ sound => submitTransaction_keeps sound tx) txns (sound.later more)
    exact ⟨at_once.sound, fun retained => at_once.retained (retained.later more)⟩
  | prune block => exact each_keeps_now (fun tx _ _ sound => Keeps.prune sound) block sound
  | heartbeat now => exact absurd rfl (quiet now)

def SoundAt (kind : Kind Tx Hash) (state : State Tx Hash) : Prop := Sound kind state.mempool state.clock state.history

def RetainedAt (kind : Kind Tx Hash) (state : State Tx Hash) : Prop := Retained kind state.mempool state.clock state.history

theorem right_iff {state : State Tx Hash} (sound : SoundAt kind state) : Right kind state ↔ RetainedAt kind state := by
  constructor
  · intro right
    constructor
    · intro time tx since soon
      have valid := sound.valid time tx since
      have found := right.queried time tx since state.clock le_rfl soon
      rw [Mempool.query] at found
      cases stored : state.mempool.transactions (kind.id tx) with
      | none =>
        rw [stored] at found
        rw [← found] at valid
        exact absurd (kind.blank_invalid.symm.trans valid) Bool.false_ne_true
      | some existing =>
        rw [stored] at found
        exact congrArg some found
    · exact fun time id since soon => right.known time id since state.clock le_rfl soon
  · intro retained
    refine ⟨sound.active, sound.pending, fun time tx since now more soon => ?_, fun time id since now more soon => ?_⟩
    · rw [Mempool.query, retained.txs time tx since (more.trans_lt soon)]
      rfl
    · exact retained.txids time id since (more.trans_lt soon)

theorem sound_step {event : Event Tx Hash} {before after : State Tx Hash} (sound : SoundAt kind before) (ordered : InOrder event before)
    (stepped : (machine kind).step event before = some after) : SoundAt kind after := by
  obtain rfl := Option.some.inj stepped
  by_cases quiet : ∀ now, event ≠ .heartbeat now
  · exact (keeps_run quiet sound ordered).sound
  · push Not at quiet
    obtain ⟨now, rfl⟩ := quiet
    have more : before.clock ≤ now := (List.pairwise_cons.mp ordered).1 now List.mem_cons_self
    show Sound kind (heartbeat kind now before.mempool) now (before.history ++ [])
    rw [List.append_nil]
    exact Sound.heartbeat sound more (sound.beats now)

theorem timely_of_quiet {event : Event Tx Hash} (quiet : ∀ now, event ≠ .heartbeat now) (state : State Tx Hash) : Timely event state := by
  cases event with
  | heartbeat now => exact absurd rfl (quiet now)
  | submitTxids _ => trivial
  | submitTransactions _ _ => trivial
  | prune _ => trivial

/-- One step from a state where nothing is lost. -/
theorem retained_step {event : Event Tx Hash} {before after : State Tx Hash} (sound : SoundAt kind before) (retained : RetainedAt kind before)
    (ordered : InOrder event before) (stepped : (machine kind).step event before = some after) :
    RetainedAt kind after ↔ Timely event before := by
  obtain rfl := Option.some.inj stepped
  by_cases quiet : ∀ now, event ≠ .heartbeat now
  · exact iff_of_true ((keeps_run quiet sound ordered).retained retained) (timely_of_quiet quiet before)
  · push Not at quiet
    obtain ⟨now, rfl⟩ := quiet
    have more : before.clock ≤ now := (List.pairwise_cons.mp ordered).1 now List.mem_cons_self
    show Retained kind (heartbeat kind now before.mempool) now (before.history ++ []) ↔ TimelyAt now before.mempool
    rw [List.append_nil]
    exact Retained.heartbeat_iff sound retained more (sound.beats now)

theorem not_since (report : Report Tx Hash) (id : Hash) : ¬ Since [] report id := by
  rintro ⟨older, newer, split, _⟩
  exact List.cons_ne_nil _ _ (List.append_eq_nil_iff.mp split.symm).2

theorem sound_start (clock : Int) : SoundAt kind { clock } := by
  constructor
  · exact fun _ => iff_of_false (Finset.notMem_empty _) fun ⟨_, stored, _⟩ => nomatch stored
  · exact fun _ there => absurd rfl there
  · exact List.Pairwise.nil
  · exact List.Pairwise.nil
  · exact List.forall_mem_nil _
  · exact List.forall_mem_nil _
  · exact fun _ _ since => absurd since (not_since _ _)
  · exact fun _ _ since => absurd since (not_since _ _)
  · exact fun _ _ since => absurd since (not_since _ _)
  · exact fun _ inside => absurd inside (Finset.notMem_empty _)
  · exact fun _ there => absurd rfl there

theorem retained_start (clock : Int) : RetainedAt kind { clock } where
  txs _ _ since := absurd since (not_since _ _)
  txids _ _ since := absurd since (not_since _ _)

/-- Along a run everything is kept for its time if and only if no heartbeat finds an id or a transaction
with an entry that is due and a younger one that is not. -/
theorem mempool_retains_iff (clock : Int) (events : List (Event Tx Hash)) (inOrder : (machine kind).Allows InOrder events { clock }) :
    (∀ before, before <+: events → ∃ state, (machine kind).runs before { clock } = some state ∧ Right kind state) ↔
      (machine kind).Allows Timely events { clock } := by
  have along : (∀ before, before <+: events → ∃ state, (machine kind).runs before { clock } = some state ∧ RetainedAt kind state) ↔
      (machine kind).Allows Timely events { clock } :=
    Machine.right_along_iff (fun event state => ⟨_, rfl⟩) (fun _ _ _ sound ordered stepped => sound_step sound ordered stepped)
      (fun _ _ _ sound retained ordered stepped => retained_step sound retained ordered stepped)
      events { clock } (sound_start clock) (retained_start clock) inOrder
  rw [← along]
  refine forall_congr' fun before => imp_congr_right fun shorter => exists_congr fun state => and_congr_right fun ran => ?_
  have run := Machine.run_of_runs (Machine.allows_prefix shorter inOrder) ran
  exact right_iff (run.keeps (sound_start clock) fun _ _ _ sound ordered stepped => sound_step sound ordered stepped)

/-- Numbers are transactions, and zero is blank. -/
def numbers : Kind Nat Nat := { id := fun tx => tx, isValid := fun tx => 0 < tx, blank := 0, blank_invalid := rfl }

/-- An id is announced, its transaction comes, and both are kept for their time. -/
def announced : List (Event Nat Nat) :=
  [.submitTxids [(hours 1, 7)], .submitTransactions (hours 2) [7], .heartbeat (hours 3), .heartbeat (hours 5), .heartbeat (hours 26)]

theorem announced_retained : (machine numbers).Allows Timely announced { clock := 0 } ∧
    ∀ before, before <+: announced → ∃ state, (machine numbers).runs before { clock := 0 } = some state ∧ Right numbers state :=
  ⟨by decide +kernel, (mempool_retains_iff 0 announced (by decide +kernel)).mpr (by decide +kernel)⟩

/-- A transaction is in a block, and comes again after the block is gone. The entry that it left behind takes
it away one hour after that. -/
def rolledBack : List (Event Nat Nat) :=
  [.submitTransactions 0 [7], .prune [7], .submitTransactions (hours 1) [7], .heartbeat (hours 2)]

theorem old_entry_expires : (machine numbers).Allows InOrder rolledBack { clock := 0 } ∧
    ¬ ∀ before, before <+: rolledBack → ∃ state, (machine numbers).runs before { clock := 0 } = some state ∧ Right numbers state := by
  refine ⟨by decide +kernel, fun right => ?_⟩
  obtain ⟨state, ran, last⟩ := right rolledBack List.prefix_rfl
  have reports : ((machine numbers).runs rolledBack { clock := 0 }).map (fun state => (state.history, state.clock, state.mempool.query numbers 7)) =
      some ([.known 0 7, .accepted 0 7, .pruned 7, .known (hours 1) 7, .accepted (hours 1) 7], hours 2, 0) := by decide +kernel
  rw [ran] at reports
  obtain ⟨history, now, found⟩ : state.history = _ ∧ state.clock = _ ∧ state.mempool.query numbers 7 = 0 := by
    simpa only [Prod.mk.injEq] using Option.some.inj reports
  have since : Since state.history (.accepted (hours 1) 7) (numbers.id 7) :=
    ⟨[.known 0 7, .accepted 0 7, .pruned 7, .known (hours 1) 7], [], history, List.not_mem_nil⟩
  have there := last.queried (hours 1) 7 since (hours 2) now.le (by decide +kernel)
  exact absurd (found.symm.trans there) (by decide)

end Opentxs.Blockchain.Retention
