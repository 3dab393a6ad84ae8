import Opentxs.HeaderOracle.Checkpoint
import Opentxs.HeaderOracle.Batches

/-! The best chain as rows with a staged overlay: one contiguous chain from genesis to the
tip, however an update extends it or cuts it back. -/

namespace Opentxs.HeaderOracle.BestChain
open Library Library.Tree BlockHeader Storage Update Shared HeaderTree Frame Connect Choose Join AddHeader Apply Consistency
open Batches
set_option linter.unusedSectionVars false

variable {Work : Type} [AddCommMonoid Work] [LinearOrder Work] {genesis : Genesis Work}

/-- The rows of the database up to the tip are its ancestors, and there are no others. -/
structure SpineDb (db : Database Work) (current : Header Work) : Prop where
  chain : ∀ height, 0 < height → height ≤ current.height → ∃ header, db.headers (db.rows height) = some header ∧
    header.isDisconnected = false ∧ header.height = height ∧ header.parentHash = db.rows (height - 1)
  rows : ∀ height, 0 ≤ height → (db.rows height = nullHash ↔ current.height < height)

/-- The best chain of an update is contiguous up to the tip, and writing the update gives the
same chain: rows that stay are below every staged reorg, and a tip below the old one means a
staged reorg no higher than it. -/
structure Spine (update : UpdateTransaction Work) (current : Header Work) : Prop where
  chain : ∀ height, 0 < height → height ≤ current.height → ∃ header,
    view update (update.effectiveBestBlock height) = some header ∧ header.isDisconnected = false ∧
    header.height = height ∧ header.parentHash = update.effectiveBestBlock (height - 1)
  rows : ∀ height, 0 ≤ height → (update.db.rows height = nullHash ↔ update.db.best.height < height)
  stays : ∀ height, 0 ≤ height → height ≤ current.height → update.best.find? height = none →
    height ≤ update.db.best.height ∧ (update.haveReorg = true → height ≤ update.reorgFrom.height)
  lower : current.height < update.db.best.height →
    update.haveReorg = true ∧ update.reorgFrom.height ≤ current.height

def tipHeight (update : UpdateTransaction Work) : Int :=
  (update.best.last?.map Prod.fst).getD update.db.tipHeight

theorem Tip.tipHeight {update : UpdateTransaction Work} {current : Header Work} (tip : Tip update current) :
    tipHeight update = current.height := by
  unfold BestChain.tipHeight
  cases last : update.best.last? with
  | some entry =>
    have same := tip.staged entry last
    subst same
    rfl
  | none =>
    obtain ⟨best, height, _⟩ := tip.stored last
    unfold Database.best at best
    split at best
    · have negative := congrArg Position.height best
      simp only [Header.position] at negative
      omega
    · exact congrArg Position.height best

/-- No block at or below the parent of a new header still stands in a row above the tip. -/
def Unstale (update : UpdateTransaction Work) (new : NewHeader Work) : Prop :=
  ∀ hash header, Ancestor (view update) hash new.parentHash → view update hash = some header →
    tipHeight update < header.height → update.effectiveBestBlock header.height ≠ hash

def isUnstaleFrom (update : UpdateTransaction Work) : (fuel : Nat) → Hash → Bool
  | 0, _ => false
  | fuel + 1, hash =>
    match view update hash with
    | none => true
    | some header => (header.height ≤ tipHeight update || update.effectiveBestBlock header.height ≠ hash) &&
      isUnstaleFrom update fuel header.parentHash

theorem unstaleFrom (update : UpdateTransaction Work) {hash top : Hash} (ancestor : Ancestor (view update) hash top)
    {header : Header Work} (found : view update hash = some header) (above : tipHeight update < header.height) :
    ∀ fuel, isUnstaleFrom update fuel top = true → update.effectiveBestBlock header.height ≠ hash := by
  induction ancestor with
  | self =>
    intro fuel check
    cases fuel with
    | zero => cases check
    | succ fuel =>
      unfold isUnstaleFrom at check
      rw [found] at check
      simp only [Bool.and_eq_true, Bool.or_eq_true, decide_eq_true_eq] at check
      exact check.1.resolve_left (not_le.mpr above)
  | child foundChild _ ih =>
    intro fuel check
    cases fuel with
    | zero => cases check
    | succ fuel =>
      unfold isUnstaleFrom at check
      rw [foundChild] at check
      simp only [Bool.and_eq_true] at check
      exact ih fuel check.2

def isUnstale (update : UpdateTransaction Work) (new : NewHeader Work) : Bool :=
  isUnstaleFrom update (((view update new.parentHash).map fun parent => parent.height.toNat).getD 0 + 2) new.parentHash

theorem unstale_of_isUnstale (update : UpdateTransaction Work) (new : NewHeader Work)
    (check : isUnstale update new = true) : Unstale update new :=
  fun _ _ ancestor found above => unstaleFrom update ancestor found above _ check

theorem SpineDb.fresh {db : Database Work} {current : Header Work} (spine : SpineDb db current)
    (best : db.best = current.position) : Spine ({ db } : UpdateTransaction Work) current := by
  have height : db.best.height = current.height := congrArg Position.height best
  have effective : ∀ position, 0 ≤ position →
      ({ db } : UpdateTransaction Work).effectiveBestBlock position = db.rows position := by
    intro position atLeast
    rw [UpdateTransaction.effectiveBestBlock, Ordered.OrderedMap.find?_empty, Option.getD_none, Database.bestBlock,
      if_neg (by omega)]
  constructor
  · intro position above within
    rw [effective position (by omega), effective (position - 1) (by omega), view_fresh]
    exact spine.chain position above within
  · intro position atLeast
    rw [height]
    exact spine.rows position atLeast
  · intro position _ within _
    refine ⟨by rw [height]; exact within, ?_⟩
    intro reorg
    cases reorg
  · intro below
    rw [height] at below
    exact absurd below (lt_irrefl _)

theorem lineage_ancestor {headers : Hash → Option (Header Work)} {base : Hash} {hashes : List Hash}
    (lineage : Lineage headers base hashes) : Ancestor headers base (hashes.getLastD base) := by
  have extend : ∀ (hashes : List Hash) (base : Hash), Lineage headers base hashes →
      ∀ start, Ancestor headers start base → Ancestor headers start (hashes.getLastD base) := by
    intro hashes
    induction hashes with
    | nil => exact fun _ _ _ ancestor => ancestor
    | cons first hashes ih =>
      intro base ⟨⟨header, found, _, named⟩, rest⟩ start ancestor
      rw [getLastD_cons]
      exact ih first rest start (Ancestor.child found (named.symm ▸ ancestor))
  exact extend hashes base lineage base Ancestor.self

section Added

variable {before after : UpdateTransaction Work} {current best parent base : Header Work}
  {new : NewHeader Work} {hashes : List Hash} {paths : List (List Hash)}

/-- Without stale rows, a candidate leaves the best chain at or below the tip. -/
theorem base_within (joinable : Joinable genesis before new parent) (tip : Tip before current)
    (walked : WalkedBack (view before) (offBestChain before) parent base hashes) (unstale : Unstale before new) :
    base.height ≤ current.height := by
  by_contra above
  have ancestor : Ancestor (view before) base.hash new.parentHash := by
    rw [← joinable.named, ← walked.last]
    exact lineage_ancestor walked.lineage
  have onChain : before.effectiveBestBlock base.height = base.hash := not_not.mp (of_decide_eq_false walked.stops)
  apply unstale base.hash base ancestor walked.found _ onChain
  rw [Tip.tipHeight tip]
  exact not_le.mp above

theorem Spine.waits (spine : Spine before current) (fresh : view before new.hash = none) (waits : Waits new before after) :
    Spine after current := by
  constructor
  · intro height above within
    obtain ⟨header, found, facts⟩ := spine.chain height above within
    refine ⟨header, ?_, ?_⟩
    · rw [waits.chain.effectiveBestBlock, waits.headers, if_neg]
      · exact found
      · intro same
        rw [same, fresh] at found
        cases found
    · rw [waits.chain.effectiveBestBlock]
      exact facts
  · rw [waits.chain.db]
    exact spine.rows
  · rw [waits.chain.db, waits.chain.best, waits.chain.haveReorg, waits.chain.reorgFrom]
    exact spine.stays
  · rw [waits.chain.db, waits.chain.haveReorg, waits.chain.reorgFrom]
    exact spine.lower

theorem Spine.kept (spine : Spine before current) (joinable : Joinable genesis before new parent)
    (joined : Joined new parent before after) (kept : AddHeader.Kept new paths before after) : Spine after current := by
  have sameRow : ∀ height, after.effectiveBestBlock height = before.effectiveBestBlock height := by
    intro height
    unfold UpdateTransaction.effectiveBestBlock
    rw [kept.best, joined.db]
  constructor
  · intro height above within
    obtain ⟨header, found, attached, facts⟩ := spine.chain height above within
    refine ⟨header, ?_, attached, ?_⟩
    · rw [sameRow, joined.attached_same joinable _ ⟨header, found, attached⟩]
      exact found
    · rw [sameRow]
      exact facts
  · rw [joined.db]
    exact spine.rows
  · rw [joined.db, kept.best, kept.haveReorg, kept.reorgFrom]
    exact spine.stays
  · rw [joined.db, kept.haveReorg, kept.reorgFrom]
    exact spine.lower

theorem Spine.chosen (spine : Spine before current) (consistent : Consistent genesis before current)
    (joinable : Joinable genesis before new parent)
    (accepted : Accepted new parent current base best hashes paths before after) {rest : List Hash} (member : rest ∈ paths)
    (chosen : Chosen new current base best hashes paths rest before after) (within : base.height ≤ current.height) :
    Spine after best := by
  have joined := accepted.joined
  have taken := chosen.taken
  have rooted := joined.rooted joinable
  have lineage := accepted.lineage rest member
  have baseFound := accepted.base_found joinable
  obtain ⟨_, _, height, _⟩ := chosen.end accepted joinable member
  have baseRow : after.effectiveBestBlock base.height = base.hash := by
    rw [taken.kept base.height (le_refl _)]
    exact not_not.mp (of_decide_eq_false accepted.walked.stops)
  have lineRow : ∀ (index : Nat) (hash : Hash), (hashes ++ new.hash :: rest)[index]? = some hash →
      after.effectiveBestBlock (base.height + 1 + index) = hash := by
    intro index hash found
    have position : (base.height + 1 + index - (base.height + 1)).toNat = index := by omega
    rw [UpdateTransaction.effectiveBestBlock, taken.find _ (by omega), position, found]
    rfl
  constructor
  · intro position above below
    by_cases low : position ≤ base.height
    · obtain ⟨header, found, attached, facts⟩ := spine.chain position above (le_trans low within)
      refine ⟨header, ?_, attached, ?_⟩
      · rw [taken.kept position low, joined.attached_same joinable _ ⟨header, found, attached⟩]
        exact found
      · rw [taken.kept (position - 1) (by omega)]
        exact facts
    · obtain ⟨index, rfl⟩ : ∃ index : Nat, position = base.height + 1 + index :=
        ⟨(position - (base.height + 1)).toNat, by omega⟩
      have inside : index < (hashes ++ new.hash :: rest).length := by omega
      obtain ⟨hash, found⟩ : ∃ hash, (hashes ++ new.hash :: rest)[index]? = some hash :=
        ⟨_, List.getElem?_eq_getElem inside⟩
      obtain ⟨header, foundHeader, attached, named⟩ := lineage_parent lineage index hash found
      obtain ⟨other, foundOther, _, atHeight⟩ := rooted.lineage_height baseFound lineage index hash found
      rw [foundHeader] at foundOther
      cases foundOther
      refine ⟨header, ?_, attached, atHeight, ?_⟩
      · rw [lineRow index hash found]
        exact foundHeader
      · cases index with
        | zero =>
          rw [List.getElem?_cons_zero, Option.some.injEq] at named
          have back : base.height + 1 + ((0 : Nat) : Int) - 1 = base.height := by omega
          rw [back, baseRow, named]
        | succ index =>
          have back : base.height + 1 + ((index + 1 : Nat) : Int) - 1 = base.height + 1 + index := by omega
          rw [List.getElem?_cons_succ] at named
          rw [back, lineRow index _ named]
  · rw [joined.db]
    exact spine.rows
  · rw [joined.db]
    intro position atLeast below absent
    have low : position ≤ base.height := by
      by_contra above
      rw [taken.find position (not_le.mp above), List.getElem?_eq_none_iff] at absent
      omega
    rw [taken.same within position low] at absent
    obtain ⟨stored, reorgs⟩ := spine.stays position atLeast (le_trans low within) absent
    refine ⟨stored, ?_⟩
    rcases lt_or_ge base.height current.height with forks | grows
    · obtain ⟨_, reorgFrom⟩ := taken.reorgs forks
      intro _
      rw [reorgFrom]
      split
      · exact low
      · rename_i other
        rcases consistent.reorg with ⟨_, unset⟩ | ⟨set, _⟩
        · exact absurd (Or.inl unset) other
        · exact reorgs set
    · obtain ⟨haveReorg, reorgFrom⟩ := taken.grows grows
      rw [haveReorg, reorgFrom]
      exact reorgs
  · rw [joined.db]
    intro below
    have longer : 0 < (hashes ++ new.hash :: rest).length := by simp
    rcases lt_or_ge base.height current.height with forks | grows
    · obtain ⟨haveReorg, reorgFrom⟩ := taken.reorgs forks
      refine ⟨haveReorg, ?_⟩
      rw [reorgFrom]
      split
      · simp only [Header.position]
        omega
      · omega
    · obtain ⟨haveReorg, reorgFrom⟩ := taken.grows grows
      rw [haveReorg, reorgFrom]
      obtain ⟨set, low⟩ := spine.lower (by omega)
      exact ⟨set, by omega⟩

theorem Spine.added (spine : Spine before current) (consistent : Consistent genesis before current)
    (added : Added genesis new before current after best)
    (unstale : view before new.hash = none → Attached (view before) new.parentHash → Unstale before new) :
    Spine after best := by
  cases added with
  | known => exact spine
  | waits fresh _ waits => exact spine.waits fresh waits
  | joins joinable accepted =>
    have within := base_within joinable consistent.tip accepted.walked
      (unstale joinable.fresh ⟨_, joinable.above, joinable.attached⟩)
    rcases accepted.outcome with ⟨rfl, kept⟩ | ⟨rest, member, chosen⟩
    · exact spine.kept joinable accepted.joined kept
    · exact spine.chosen consistent joinable accepted member chosen within

end Added

/-! ## Writing the update -/

theorem Spine.written {update : UpdateTransaction Work} {current : Header Work} (spine : Spine update current)
    (consistent : Consistent genesis update current) (rows : Int → Hash) (popped : poppedRows update = some rows)
    (lastUpdate : LastUpdate) : SpineDb { writeUpdate update rows with lastUpdate } current := by
  have unpopped := poppedRows_rows update rows popped
  have atLeastTip := consistent.forest.height _ current consistent.tip.found consistent.tip.attached
  have below : ∀ height, 0 ≤ height → height ≤ current.height →
      (writeUpdate update rows).rows height = update.effectiveBestBlock height := by
    intro height atLeast within
    rw [writeUpdate_rows, UpdateTransaction.effectiveBestBlock, Database.bestBlock, if_neg (by omega)]
    cases found : update.best.find? height with
    | some hash => rfl
    | none =>
      obtain ⟨_, stays⟩ := spine.stays height atLeast within found
      rw [Option.getD_none, Option.getD_none, unpopped, if_neg]
      rintro ⟨reorg, cut, _⟩
      have keeps := stays reorg
      omega
  have above : ∀ height, current.height < height → (writeUpdate update rows).rows height = nullHash := by
    intro height beyond
    have absent : update.best.find? height = none := by
      by_contra present
      have within := consistent.tip.keys height present
      omega
    rw [writeUpdate_rows, absent, Option.getD_none, unpopped]
    split
    · rfl
    · rename_i uncut
      rw [spine.rows height (by omega)]
      by_contra within
      obtain ⟨reorg, cut⟩ := spine.lower (by omega)
      exact uncut ⟨reorg, by omega, by omega⟩
  constructor
  · intro height positive within
    have facts := spine.chain height positive within
    rw [← below height (by omega) within, ← below (height - 1) (by omega) (by omega)] at facts
    exact facts
  · intro height atLeast
    constructor
    · intro missing
      by_contra within
      have row := (below height atLeast (not_lt.mp within)).symm.trans missing
      by_cases zero : height = 0
      · subst zero
        rw [consistent.origin] at row
        exact genesis.hash_ne_null row
      · obtain ⟨header, found, _⟩ := spine.chain height (by omega) (not_lt.mp within)
        rw [row, consistent.forest.null] at found
        cases found
    · exact above height

end Opentxs.HeaderOracle.BestChain
