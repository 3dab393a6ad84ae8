import Opentxs.Wallet.Balances
import Opentxs.Wallet.Closing

/-! The ways to present blocks to the wallet: in one batch or in several, their transactions in any
order and in the mempool before or not. What an output has become by then, without regard to the
way. -/

namespace Opentxs.Wallet.Presentations
open Library HeaderOracle BlockHeader Types Storage OutputCache Parsing Reports Outputs Tracking Editing Effects Runs
open Generations Histories

variable {environment : Environment} {blocks : BatchedMatches} {destination : Position} {id : Outpoint}

/-! ## Blocks -/

def CreatesIn (blocks : BatchedMatches) (id : Outpoint) (output : Output) : Prop := ∃ block ∈ blocks, Creates block.2 id output

def CreatedAt (blocks : BatchedMatches) (position : Position) (id : Outpoint) : Prop :=
  ∃ block ∈ blocks, block.1 = position ∧ ReportsCreated block.2 id

def SpentAt (blocks : BatchedMatches) (position : Position) (id : Outpoint) : Prop :=
  ∃ block ∈ blocks, block.1 = position ∧ Spends block.2 id

def GeneratedIn (blocks : BatchedMatches) (id : Outpoint) : Prop := ∃ block ∈ blocks, Generates block.2 id

/-- A transaction stands in one block, and an output is spent in one. -/
structure ValidBlocks (blocks : BatchedMatches) : Prop where
  once : ∀ first ∈ blocks, ∀ second ∈ blocks, ∀ item ∈ first.2, ∀ other ∈ second.2,
    item.transaction.id = other.transaction.id → first.1 = second.1 ∧ item.transaction = other.transaction
  spentOnce : ∀ first ∈ blocks, ∀ second ∈ blocks, ∀ id, Spends first.2 id → Spends second.2 id → first.1 = second.1

theorem ValidBlocks.created_unique (valid : ValidBlocks blocks) {first second : Position} (early : CreatedAt blocks first id)
    (late : CreatedAt blocks second id) : first = second := by
  obtain ⟨block, member, rfl, _, item, inBlock, same, _⟩ := early
  obtain ⟨other, otherMember, rfl, _, otherItem, inOther, otherSame, _⟩ := late
  exact (valid.once block member other otherMember item inBlock otherItem inOther (same.trans otherSame.symm)).1

theorem ValidBlocks.spent_unique (valid : ValidBlocks blocks) {first second : Position} (early : SpentAt blocks first id)
    (late : SpentAt blocks second id) : first = second := by
  obtain ⟨block, member, rfl, spends⟩ := early
  obtain ⟨other, otherMember, rfl, otherSpends⟩ := late
  exact valid.spentOnce block member other otherMember id spends otherSpends

theorem ValidBlocks.output_unique (valid : ValidBlocks blocks) {first second : Output} (early : CreatesIn blocks id first)
    (late : CreatesIn blocks id second) : first = second := by
  obtain ⟨block, member, item, inBlock, same, _, found⟩ := early
  obtain ⟨other, otherMember, otherItem, inOther, otherSame, _, otherFound⟩ := late
  have transaction := (valid.once block member other otherMember item inBlock otherItem inOther (same.trans otherSame.symm)).2
  rw [transaction, otherFound, Option.some.injEq] at found
  exact found.symm

/-- Whichever block reports the output created reports whether it is generated. -/
theorem ValidBlocks.generates (valid : ValidBlocks blocks) {block : Position × BlockMatches} (member : block ∈ blocks)
    (created : ReportsCreated block.2 id) (generated : GeneratedIn blocks id) : Generates block.2 id := by
  obtain ⟨_, item, inBlock, same, matched, _⟩ := created
  obtain ⟨other, otherMember, otherItem, inOther, generation, otherSame, _⟩ := generated
  have transaction := (valid.once block member other otherMember item inBlock otherItem inOther (same.trans otherSame.symm)).2
  exact ⟨item, inBlock, transaction ▸ generation, same, matched⟩

/-- The same blocks, with their transactions in any order. -/
def SameBlocks (first second : BatchedMatches) : Prop :=
  List.Forall₂ (fun block other => block.1 = other.1 ∧ block.2.Perm other.2) first second

theorem Creates.perm {items others : BlockMatches} (perm : items.Perm others) {output : Output} :
    Creates items id output ↔ Creates others id output := by
  unfold Creates
  simp only [perm.mem_iff]

theorem Spends.perm {items others : BlockMatches} (perm : items.Perm others) : Spends items id ↔ Spends others id := by
  unfold Spends
  simp only [perm.mem_iff]

theorem Generates.perm {items others : BlockMatches} (perm : items.Perm others) : Generates items id ↔ Generates others id := by
  unfold Generates
  simp only [perm.mem_iff]

theorem ReportsCreated.perm {items others : BlockMatches} (perm : items.Perm others) :
    ReportsCreated items id ↔ ReportsCreated others id := by
  unfold ReportsCreated
  simp only [Creates.perm perm]

/-! ## What an output has become -/

/-- States are left for later ones only. -/
def progress : TxoState → Nat
  | .unconfirmedNew => 1
  | .immature => 2
  | .confirmedNew => 3
  | .unconfirmedSpend => 4
  | .confirmedSpend => 5
  | _ => 0

theorem allowed_progress {initialState finalState : TxoState} (allowed : checkTransition initialState finalState = .ok .allowed) :
    progress initialState < progress finalState := by
  cases initialState <;> cases finalState <;> cases allowed <;> decide

theorem moves_progress {cache : OutputCache} {output : Output} {finalState : TxoState} (found : cache.outputs id = some output)
    (moves : Moves cache id finalState) : progress output.state < progress finalState := by
  induction moves with
  | created finalState absent =>
    rw [found] at absent
    cases absent
  | allowed old finalState stored allowed =>
    rw [found] at stored
    cases stored
    exact allowed_progress allowed
  | later between finalState _ allowed ih => exact ih.trans (allowed_progress allowed)

/-- The output is the one that was stored, or else the one that the blocks create, but for its
state and its position. -/
def SameContent (blocks : BatchedMatches) (id : Outpoint) (old : Option Output) (output : Output) : Prop :=
  match old with
  | some base => output = { base with state := output.state, minedPosition := output.minedPosition }
  | none => ∃ created, CreatesIn blocks id created ∧
    output = { created with
      state := output.state, minedPosition := output.minedPosition, tags := insert .generation created.tags }

/-- The state of an output says where it came to be what it is. What matures does so at the
destination. -/
structure Continued (blocks : BatchedMatches) (destination : Position) (id : Outpoint) (old : Option Output) (output : Output) :
    Prop where
  content : SameContent blocks id old output
  grows : ∀ base, old = some base → progress base.state ≤ progress output.state
  resting : ∀ base, old = some base → output.state = base.state → output.minedPosition = base.minedPosition
  spent : output.state = .confirmedSpend → old.map Output.state ≠ some .confirmedSpend → SpentAt blocks output.minedPosition id
  immature : output.state = .immature → old.map Output.state ≠ some .immature →
    old = none ∧ GeneratedIn blocks id ∧ CreatedAt blocks output.minedPosition id
  matured : output.state = .confirmedNew →
    old.map Output.state = some .immature ∨ old = none ∧ GeneratedIn blocks id → output.minedPosition = destination
  confirmed : output.state = .confirmedNew →
    old.map Output.state = some .unconfirmedNew ∨ old = none ∧ ¬ GeneratedIn blocks id →
      CreatedAt blocks output.minedPosition id

theorem Continued.same {old : Output} : Continued blocks destination id (some old) old := by
  constructor
  · rfl
  · rintro _ ⟨⟩
    exact le_refl _
  · rintro _ ⟨⟩ _
    rfl
  · intro state other
    exact absurd (congrArg some state) other
  · intro state other
    exact absurd (congrArg some state) other
  · rintro state (immature | ⟨nothing, _⟩)
    · rw [Option.map_some, state] at immature
      cases immature
    · cases nothing
  · rintro state (unconfirmed | ⟨nothing, _⟩)
    · rw [Option.map_some, state] at unconfirmed
      cases unconfirmed
    · cases nothing

/-- A stored output goes on to a later state, which is not that of an output that is created immature. -/
theorem Continued.moved {old : Option Output} {output : Output} {state : TxoState} {position : Position}
    (continued : Continued blocks destination id old output) (later : progress output.state < progress state)
    (spent : state = .confirmedSpend → SpentAt blocks position id) (notImmature : state ≠ .immature)
    (matured : state = .confirmedNew →
      old.map Output.state = some .immature ∨ old = none ∧ GeneratedIn blocks id → position = destination)
    (confirmed : state = .confirmedNew →
      old.map Output.state = some .unconfirmedNew ∨ old = none ∧ ¬ GeneratedIn blocks id → CreatedAt blocks position id) :
    Continued blocks destination id old (restated output state position) := by
  have changes : ∀ base, old = some base → progress base.state < progress state :=
    fun base is => (continued.grows base is).trans_lt later
  constructor
  · have content := continued.content
    unfold SameContent at content ⊢
    cases old with
    | some base =>
      dsimp only at content ⊢
      unfold restated
      rw [content]
    | none =>
      obtain ⟨created, creates, is⟩ := content
      refine ⟨created, creates, ?_⟩
      unfold restated
      rw [is]
  · intro base is
    exact (changes base is).le
  · intro base is same
    replace same : state = base.state := same
    exact absurd (changes base is) (by rw [same]; exact lt_irrefl _)
  · rintro is _
    replace is : state = .confirmedSpend := is
    subst is
    exact spent rfl
  · intro is
    exact absurd is notImmature
  · intro is
    replace is : state = .confirmedNew := is
    subst is
    exact matured rfl
  · intro is
    replace is : state = .confirmedNew := is
    subst is
    exact confirmed rfl

/-- An output is stored when it was not before. -/
theorem Continued.created {created : Output} {state : TxoState} {position : Position} (creates : CreatesIn blocks id created)
    (spent : state = .confirmedSpend → SpentAt blocks position id)
    (immature : state = .immature → GeneratedIn blocks id ∧ CreatedAt blocks position id)
    (confirmed : state = .confirmedNew → ¬ GeneratedIn blocks id ∧ CreatedAt blocks position id) :
    Continued blocks destination id none (tagged created true state position) := by
  constructor
  · exact ⟨created, creates, rfl⟩
  · nofun
  · nofun
  · rintro is _
    replace is : state = .confirmedSpend := is
    subst is
    exact spent rfl
  · rintro is _
    replace is : state = .immature := is
    subst is
    exact ⟨rfl, immature rfl⟩
  · rintro is (absurdity | ⟨_, generated⟩)
    · cases absurdity
    · exact absurd generated (confirmed is).1
  · rintro is _
    replace is : state = .confirmedNew := is
    subst is
    exact (confirmed rfl).2

/-! ## Presenting -/

/-- A block is added before what it generates is mature. -/
structure Presentable (environment : Environment) (cache : OutputCache) (entry : Position × BlockMatches) : Prop
    extends Timely cache entry where
  young : ∀ id ∈ generatedOutputs entry.2,
    (cache.outputs id).map Output.state = none ∨ (cache.outputs id).map Output.state = some .unconfirmedNew →
      isMature entry.1.height (getPosition cache).height environment.maturationTarget = false

instance (environment : Environment) (cache : OutputCache) (entry : Position × BlockMatches) :
    Decidable (Presentable environment cache entry) :=
  decidable_of_iff (Timely cache entry ∧ ∀ id ∈ generatedOutputs entry.2,
      (cache.outputs id).map Output.state = none ∨ (cache.outputs id).map Output.state = some .unconfirmedNew →
        isMature entry.1.height (getPosition cache).height environment.maturationTarget = false)
    ⟨fun both => ⟨both.1, both.2⟩, fun presentable => ⟨presentable.toTimely, presentable.young⟩⟩

/-- An advance goes no further than the destination, matures no spent output, and on the way there no
output at all. -/
structure Heads (environment : Environment) (destination : Position) (cache : OutputCache) (position : Position) : Prop where
  unspent : MaturesUnspent environment cache position
  within : position.height ≤ destination.height
  waits : Advances environment cache position → position ≠ destination →
    ∀ id ∈ maturing environment cache position, (cache.outputs id).map Output.state ≠ some .immature

instance (environment : Environment) (destination : Position) (cache : OutputCache) (position : Position) :
    Decidable (Heads environment destination cache position) :=
  decidable_of_iff (MaturesUnspent environment cache position ∧ position.height ≤ destination.height ∧
      ((position ≠ getPosition cache ∧ ¬ position.height < (getPosition cache).height ∧
        0 ≤ position.height - environment.maturationTarget) → position ≠ destination →
        ∀ id ∈ maturing environment cache position, (cache.outputs id).map Output.state ≠ some .immature))
    ⟨fun all => ⟨all.1, all.2.1, all.2.2⟩, fun heads => ⟨heads.unspent, heads.within, heads.waits⟩⟩

/-- What is stored has become what it is by these blocks alone. -/
structure Follows (blocks : BatchedMatches) (destination : Position) (base cache : OutputCache) : Prop where
  stays : ∀ id, base.outputs id ≠ none → cache.outputs id ≠ none
  continued : ∀ id output, cache.outputs id = some output → Continued blocks destination id (base.outputs id) output

theorem follows_self (blocks : BatchedMatches) (destination : Position) (cache : OutputCache) :
    Follows blocks destination cache cache := by
  refine ⟨fun _ stored => stored, fun id output found => ?_⟩
  rw [found]
  exact .same

variable {history : History} {base : OutputCache} {before after : Session}

theorem Follows.absent (follows : Follows blocks destination base before.cache) (absent : before.cache.outputs id = none) :
    base.outputs id = none := by
  by_contra stored
  exact follows.stays id stored absent

/-- The entry is one of the blocks. -/
def Belongs (blocks : BatchedMatches) (entry : Position × BlockMatches) : Prop :=
  ∃ block ∈ blocks, entry.1 = block.1 ∧ entry.2.Perm block.2

theorem Belongs.creates {entry : Position × BlockMatches} (belongs : Belongs blocks entry) {output : Output}
    (creates : Creates entry.2 id output) : CreatesIn blocks id output ∧ CreatedAt blocks entry.1 id := by
  obtain ⟨block, member, same, perm⟩ := belongs
  have here := (Creates.perm perm).mp creates
  exact ⟨⟨block, member, here⟩, block, member, same.symm, output, here⟩

theorem Belongs.spends {entry : Position × BlockMatches} (belongs : Belongs blocks entry) (spends : Spends entry.2 id) :
    SpentAt blocks entry.1 id := by
  obtain ⟨block, member, same, perm⟩ := belongs
  exact ⟨block, member, same.symm, (Spends.perm perm).mp spends⟩

theorem Belongs.generates {entry : Position × BlockMatches} (belongs : Belongs blocks entry) (valid : ValidBlocks blocks)
    (created : ReportsCreated entry.2 id) : GeneratedIn blocks id ↔ Generates entry.2 id := by
  obtain ⟨block, member, _, perm⟩ := belongs
  rw [Generates.perm perm]
  exact ⟨valid.generates member ((ReportsCreated.perm perm).mp created), fun generates => ⟨block, member, generates⟩⟩

/-- What a block creates anew is confirmed unless it is generated. -/
theorem createdState_iff {entry : Position × BlockMatches} (presentable : Presentable environment before.cache entry)
    {generation : Finset Outpoint} (generates : ∀ id, id ∈ generation ↔ Generates entry.2 id)
    (created : ReportsCreated entry.2 id)
    (fresh : (before.cache.outputs id).map Output.state = none ∨ (before.cache.outputs id).map Output.state = some .unconfirmedNew) :
    createdState entry.1 generation before.cache false environment.maturationTarget id =
      if Generates entry.2 id then .immature else .confirmedNew := by
  unfold createdState
  simp only [generates]
  split
  · rename_i generated
    rw [presentable.young id ((mem_generatedOutputs _ _).mpr ⟨created, generated⟩) fresh]
    rfl
  · rfl

/-- What is reported created and moves without being spent is new. -/
theorem moved_unspent {old : Option TxoState} {created : Bool} (moved : moves old created false = true)
    (other : old ≠ some .orphanedNew) : created = true ∧ (old = none ∨ old = some .unconfirmedNew) := by
  cases old with
  | none => exact ⟨moved, Or.inl rfl⟩
  | some state =>
    cases state with
    | unconfirmedNew => exact ⟨(Bool.or_false created).symm.trans moved, Or.inr rfl⟩
    | orphanedNew => exact absurd rfl other
    | _ => cases moved

theorem block_follows {account : AccountID} {subchain : SubchainID} {entry : Position × BlockMatches}
    (valid : ValidBlocks blocks) (belongs : Belongs blocks entry) (tells : Tells environment.maturationTarget history before.cache)
    (follows : Follows blocks destination base before.cache) (presentable : Presentable environment before.cache entry)
    (ran : addTransactionsInBlock environment account subchain false entry before = (.ok (), after)) :
    Follows blocks destination base after.cache := by
  obtain ⟨generation, parsed, isParsed, _, outcomes, _⟩ := block_generation ran
  have confirmed := createdState_confirmed entry.1 generation before.cache environment.maturationTarget
  -- what the block moves without spending it
  have unspent : ∀ id modification, parsed.transaction.find? id = some modification → ¬ Spends entry.2 id →
      ReportsCreated entry.2 id ∧ ((before.cache.outputs id).map Output.state = none ∨
        (before.cache.outputs id).map Output.state = some .unconfirmedNew) ∧
      modification.finalState = if Generates entry.2 id then .immature else .confirmedNew := by
    intro id modification found unspent
    have reported := isParsed.reported id
    rw [found] at reported
    have moved := reported_isSome (confirmed id) reported
    rw [decide_eq_false unspent] at moved
    have notOrphaned : (before.cache.outputs id).map Output.state ≠ some .orphanedNew := by
      rw [tells.states]
      exact stateOf_not_orphaned id
    obtain ⟨created, fresh⟩ := moved_unspent moved.symm notOrphaned
    have final := reported_final (confirmed id) reported
    rw [if_neg unspent, createdState_iff presentable isParsed.generates (of_decide_eq_true created) fresh] at final
    exact ⟨of_decide_eq_true created, fresh, final⟩
  have final : ∀ id modification, parsed.transaction.find? id = some modification → Spends entry.2 id →
      modification.finalState = .confirmedSpend := by
    intro id modification found spends
    have reported := isParsed.reported id
    rw [found] at reported
    rw [reported_final (confirmed id) reported, if_pos spends]
  have spentAt : ∀ id modification, parsed.transaction.find? id = some modification →
      modification.finalState = .confirmedSpend → SpentAt blocks entry.1 id := by
    intro id modification found state
    by_cases spends : Spends entry.2 id
    · exact belongs.spends spends
    · rw [(unspent id modification found spends).2.2] at state
      split at state <;> cases state
  constructor
  · intro id stored
    rw [outcomes]
    have remains := follows.stays id stored
    cases found : parsed.transaction.find? id with
    | none => exact remains
    | some modification =>
      have reported := isParsed.reported id
      rw [found] at reported
      obtain ⟨old, was⟩ := Option.ne_none_iff_exists'.mp remains
      have initial := (reported_moves reported).2.2.1
      rw [was] at initial
      rw [was, blockOutcome, outcome, if_pos (by rw [initial]; rfl)]
      exact Option.some_ne_none _
  · intro id output is
    rw [outcomes] at is
    cases found : parsed.transaction.find? id with
    | none =>
      rw [found] at is
      exact follows.continued id output is
    | some modification =>
      have reported := isParsed.reported id
      rw [found] at reported is
      obtain ⟨moves, _, initial, creates⟩ := reported_moves reported
      replace is : outcome entry.1 modification (before.cache.outputs id) = some output := is
      cases was : before.cache.outputs id with
      | none =>
        obtain ⟨created, reports, data⟩ := creates was
        rw [was] at initial
        rw [outcome, if_neg (by rw [initial]; exact Bool.false_ne_true), data, Option.map_some, Option.some.injEq] at is
        obtain ⟨createsIn, createdAt⟩ := belongs.creates reports
        have generated := belongs.generates valid ⟨created, reports⟩
        rw [follows.absent was, ← is]
        refine .created createsIn (spentAt id modification found) (fun state => ?_) (fun state => ?_)
        · by_cases spends : Spends entry.2 id
          · rw [final id modification found spends] at state
            cases state
          · rw [(unspent id modification found spends).2.2] at state
            split at state
            · rename_i generates
              exact ⟨generated.mpr generates, createdAt⟩
            · cases state
        · by_cases spends : Spends entry.2 id
          · rw [final id modification found spends] at state
            cases state
          · rw [(unspent id modification found spends).2.2] at state
            split at state
            · cases state
            · rename_i other
              exact ⟨fun isGenerated => other (generated.mp isGenerated), createdAt⟩
      | some old =>
        rw [was] at initial is
        rw [outcome, if_pos (by rw [initial]; rfl), Option.map_some, Option.some.injEq] at is
        have continued := follows.continued id old was
        -- without a spend it was unconfirmed, and is not generated
        have confirms : modification.finalState ≠ .confirmedSpend → old.state = .unconfirmedNew ∧
            CreatedAt blocks entry.1 id ∧ modification.finalState = .confirmedNew ∧ ¬ GeneratedIn blocks id := by
          intro other
          have unspends : ¬ Spends entry.2 id := fun spends => other (final id modification found spends)
          obtain ⟨⟨created, reports⟩, fresh, state⟩ := unspent id modification found unspends
          rw [was] at fresh
          have new : old.state = .unconfirmedNew := by
            rcases fresh with nothing | is
            · cases nothing
            · exact Option.some.inj is
          have permits := reported_permits reported ⟨created, reports⟩ was
          have generates : ¬ Generates entry.2 id := by
            intro generated
            rw [createdState_iff presentable isParsed.generates ⟨created, reports⟩ (by rw [was]; exact fresh), if_pos generated,
              new] at permits
            rcases permits with checked | checked <;> cases checked
          rw [if_neg generates] at state
          exact ⟨new, (belongs.creates reports).2, state, fun generated =>
            generates ((belongs.generates valid ⟨created, reports⟩).mp generated)⟩
        rw [← is]
        refine continued.moved (moves_progress was moves) (spentAt id modification found) (fun state => ?_) (fun state from_ => ?_)
          (fun state _ => ?_)
        · have other : modification.finalState ≠ .confirmedSpend := by
            rw [state]
            decide
          rw [(confirms other).2.2.1] at state
          cases state
        · obtain ⟨new, _, _, ungenerated⟩ := confirms (by rw [state]; decide)
          rcases from_ with immature | ⟨_, generated⟩
          · obtain ⟨first, isBase, state⟩ := Option.map_eq_some_iff.mp immature
            have grows := continued.grows first isBase
            rw [state, new] at grows
            exact absurd grows (by decide)
          · exact absurd generated ungenerated
        · exact (confirms (by rw [state]; decide)).2.1

theorem mempool_follows {account : AccountID} {subchain : SubchainID} {item : MatchedTransaction}
    (seen : ∃ block ∈ blocks, item ∈ block.2) (follows : Follows blocks destination base before.cache)
    (ran : addTransactionsInBlock environment account subchain true ({}, [item]) before = (.ok (), after)) :
    Follows blocks destination base after.cache := by
  obtain ⟨generation, parsed, isParsed, _, outcomes, _⟩ := block_generation ran
  have reported : ∀ id, Reported before.cache [item] true .unconfirmedNew id (parsed.transaction.find? id) := by
    intro id
    have reports := isParsed.reported id
    rwa [createdState, isParsed.confirmed rfl, if_neg (Finset.notMem_empty _), if_pos rfl] at reports
  -- an unconfirmed transaction leads to unconfirmed states only
  have unconfirmed : ∀ id modification, parsed.transaction.find? id = some modification →
      modification.finalState = .unconfirmedSpend ∨ modification.finalState = .unconfirmedNew := by
    intro id modification found
    rcases (reported_moves (found ▸ reported id)).2.1 with new | spend
    · exact Or.inr new
    · exact Or.inl spend
  constructor
  · intro id stored
    rw [outcomes]
    have remains := follows.stays id stored
    cases found : parsed.transaction.find? id with
    | none => exact remains
    | some modification =>
      obtain ⟨old, was⟩ := Option.ne_none_iff_exists'.mp remains
      have initial := (reported_moves (found ▸ reported id)).2.2.1
      rw [was] at initial
      rw [was, blockOutcome, outcome, if_pos (by rw [initial]; rfl)]
      exact Option.some_ne_none _
  · intro id output is
    rw [outcomes] at is
    cases found : parsed.transaction.find? id with
    | none =>
      rw [found] at is
      exact follows.continued id output is
    | some modification =>
      rw [found] at is
      obtain ⟨moves, _, initial, creates⟩ := reported_moves (found ▸ reported id)
      have state := unconfirmed id modification found
      have other : ∀ confirmed : TxoState, confirmed ≠ .unconfirmedSpend → confirmed ≠ .unconfirmedNew →
          modification.finalState ≠ confirmed := by
        rintro confirmed unspent unnew rfl
        rcases state with is | is
        · exact unspent is
        · exact unnew is
      replace is : outcome {} modification (before.cache.outputs id) = some output := is
      cases was : before.cache.outputs id with
      | none =>
        obtain ⟨created, ⟨reporting, alone, reports⟩, data⟩ := creates was
        obtain ⟨block, member, inBlock⟩ := seen
        rw [List.mem_singleton.mp alone] at reports
        rw [was] at initial
        rw [outcome, if_neg (by rw [initial]; exact Bool.false_ne_true), data, Option.map_some, Option.some.injEq] at is
        rw [follows.absent was, ← is]
        exact .created ⟨block, member, item, inBlock, reports⟩ (fun state => absurd state (other _ (by decide) (by decide)))
          (fun state => absurd state (other _ (by decide) (by decide))) (fun state => absurd state (other _ (by decide) (by decide)))
      | some old =>
        rw [was] at initial is
        rw [outcome, if_pos (by rw [initial]; rfl), Option.map_some, Option.some.injEq] at is
        rw [← is]
        exact (follows.continued id old was).moved (moves_progress was moves)
          (fun state => absurd state (other _ (by decide) (by decide))) (other _ (by decide) (by decide))
          (fun state => absurd state (other _ (by decide) (by decide))) (fun state => absurd state (other _ (by decide) (by decide)))

theorem advance_follows {terms : Terms} {position : Position}
    (tells : Tells terms.environment.maturationTarget history before.cache)
    (follows : Follows blocks destination base before.cache) (heads : Heads terms.environment destination before.cache position)
    (advanced : Advanced terms position before after) : Follows blocks destination base after.cache := by
  have advances := advanced.advances
  constructor
  · intro id stored
    rw [advanced.outputs]
    obtain ⟨old, was⟩ := Option.ne_none_iff_exists'.mp (follows.stays id stored)
    dsimp only
    rw [was]
    split <;> nofun
  · intro id output is
    rw [advanced.outputs] at is
    dsimp only at is
    split at is
    · rename_i matures
      obtain ⟨old, was, becomes⟩ := Option.map_eq_some_iff.mp is
      have continued := follows.continued id old was
      have later := maturing_state tells advances heads.unspent matures
      unfold maturedOutput at becomes
      split at becomes
      · rw [← becomes]
        exact continued
      · rename_i other
        have immature : old.state = .immature := by
          by_contra still
          rw [stateOf_advance_other (by rw [tells.known was]; exact fun is => still (Option.some.inj is)), tells.known was] at later
          exact other (Option.some.inj later)
        have reached : position = destination := by
          by_contra away
          exact heads.waits advances away id matures (by rw [was, Option.map_some, immature])
        have origin := continued.immature immature
        rw [← becomes]
        refine continued.moved (by rw [immature]; decide) nofun nofun (fun _ _ => reached) (fun _ from_ => ?_)
        rcases from_ with unconfirmed | ⟨absent, ungenerated⟩
        · obtain ⟨absent, _⟩ := origin (by rw [unconfirmed]; nofun)
          rw [absent] at unconfirmed
          cases unconfirmed
        · exact absurd (origin (by rw [absent]; nofun)).2.1 ungenerated
    · exact follows.continued id output is

/-! ## Runs -/

def isPresenting : Operation → Bool
  | .addConfirmedTransactions _ _ _ => true
  | .addMempoolTransaction _ _ _ => true
  | .advanceTo _ => true
  | _ => false

def blocksOf (calls : List Call) : BatchedMatches :=
  calls.flatMap fun call =>
    match call.operation with
    | .addConfirmedTransactions _ _ transactions => transactions
    | _ => []

def unconfirmedOf (calls : List Call) : BlockMatches :=
  calls.flatMap fun call =>
    match call.operation with
    | .addMempoolTransaction _ _ item => [item]
    | _ => []

def advancesOf (calls : List Call) : List Position :=
  calls.flatMap fun call =>
    match call.operation with
    | .advanceTo position => [position]
    | _ => []

def presenting (environment : Environment) (destination : Position) : Conditions where
  block := Presentable environment
  mempool _ _ := True
  advance := Heads environment destination
  finalize _ _ := False

/-- Calls that present these blocks, with unconfirmed transactions only from them, and that reach
the destination. -/
structure Presentation (environment : Environment) (base : Database) (blocks : BatchedMatches) (destination : Position)
    (calls : List Call) : Prop where
  presents : ∀ call ∈ calls, isPresenting call.operation = true
  same : SameBlocks (blocksOf calls) blocks
  seen : ∀ item ∈ unconfirmedOf calls, ∃ block ∈ blocks, item ∈ block.2
  reached : destination ∈ advancesOf calls
  orderly : Along environment ((presenting environment destination).Met environment) base calls
  awaited : Along environment (Closing.MovesAwaited environment) base calls

/-- The conditions, of these blocks. -/
def presentingOf (environment : Environment) (destination : Position) (blocks : BatchedMatches) : Conditions where
  block cache entry := Presentable environment cache entry ∧ Belongs blocks entry
  mempool _ item := ∃ block ∈ blocks, item ∈ block.2
  advance := Heads environment destination
  finalize _ _ := False

theorem SameBlocks.belongs {first : BatchedMatches} (same : SameBlocks first blocks) {entry : Position × BlockMatches}
    (member : entry ∈ first) : Belongs blocks entry := by
  induction same with
  | nil => cases member
  | cons pair _ ih =>
    rcases List.mem_cons.mp member with rfl | later
    · exact ⟨_, List.mem_cons_self, pair⟩
    · obtain ⟨block, there, pair⟩ := ih later
      exact ⟨block, List.mem_cons_of_mem _ there, pair⟩

theorem Presentation.along {db : Database} {calls : List Call} (presentation : Presentation environment db blocks destination calls) :
    Along environment ((presentingOf environment destination blocks).Met environment) db calls := by
  refine along_mono calls (fun call member db met => ?_) db presentation.orderly
  unfold Conditions.Met at met ⊢
  cases operation : call.operation with
  | addConfirmedTransactions account subchain transactions =>
    rw [operation] at met
    refine Program.throughout_mono transactions (fun entry inside session met => ⟨met, presentation.same.belongs ?_⟩) _ met
    refine List.mem_flatMap.mpr ⟨call, member, ?_⟩
    rw [operation]
    exact inside
  | addMempoolTransaction account subchain item =>
    refine presentation.seen item (List.mem_flatMap.mpr ⟨call, member, ?_⟩)
    rw [operation]
    exact List.mem_singleton_self item
  | finalizeProposal id content transaction =>
    have presents := presentation.presents call member
    rw [operation] at presents
    cases presents
  | advanceTo position =>
    rw [operation] at met
    exact met
  | _ => trivial

theorem presentingOf_keeps (valid : ValidBlocks blocks) (base : OutputCache) :
    (presentingOf environment destination blocks).Keeps environment fun _ cache => Follows blocks destination base cache where
  timely _ _ presents := presents.1.toTimely
  unspent _ _ heads := heads.unspent
  block tells follows presents ran := block_follows valid presents.2 tells follows presents.1 ran
  mempool _ follows seen ran := mempool_follows seen follows ran
  idle _ follows _ _ := follows
  advance := by
    rintro history position before after terms tells follows heads rfl advanced
    exact advance_follows tells follows heads advanced
  finalize := by
    intro _ _ _ _ _ _ _ _ impossible
    exact impossible.elim
  same := by
    intro _ cache other follows outputs _ _
    constructor
    · intro id stored
      rw [outputs]
      exact follows.stays id stored
    · intro id output found
      rw [outputs] at found
      exact follows.continued id output found

end Opentxs.Wallet.Presentations
