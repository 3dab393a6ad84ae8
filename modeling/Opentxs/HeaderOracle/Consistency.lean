import Opentxs.HeaderOracle.Apply

/-! The invariant every run of the oracle keeps: the header tree is well formed, the tip is
a header of it, and the rows of the best chain name attached headers. -/

namespace Opentxs.HeaderOracle.Consistency
open Library Library.Tree BlockHeader Storage Update Shared HeaderTree Frame Connect Choose Join AddHeader Apply
set_option linter.unusedSectionVars false

variable {Work : Type} [AddCommMonoid Work] [LinearOrder Work] {genesis : Genesis Work}

structure ConsistentDb (genesis : Genesis Work) (db : Database Work) (current : Header Work) : Prop where
  forest : Forest genesis db.headers db.disconnected
  best : db.best = current.position
  height : 0 ≤ current.height
  found : db.headers current.hash = some current
  attached : current.isDisconnected = false
  origin : db.bestBlock 0 = genesis.hash
  rows : ∀ height, db.bestBlock height ≠ nullHash → Attached db.headers (db.bestBlock height)

structure Consistent (genesis : Genesis Work) (update : UpdateTransaction Work) (current : Header Work) : Prop where
  stored : Forest genesis update.db.headers update.db.disconnected
  forest : Forest genesis (view update) update.cachedDisconnected
  inStep : DisconnectedInStep update
  tip : Tip update current
  origin : update.effectiveBestBlock 0 = genesis.hash
  staged : ∀ height hash, update.best.find? height = some hash → hash ≠ nullHash → Attached (view update) hash
  dbRows : ∀ height, update.db.bestBlock height ≠ nullHash → Attached (view update) (update.db.bestBlock height)
  reorg : update.haveReorg = false ∧ update.reorgFrom.height = -1 ∨
    update.haveReorg = true ∧ 0 ≤ update.reorgFrom.height ∧ update.best.last? ≠ none

theorem view_fresh (db : Database Work) : view ({ db } : UpdateTransaction Work) = db.headers := by
  funext hash
  rfl

theorem consistentDb_initial (genesis : Genesis Work) (checkpoint : Position) :
    ConsistentDb genesis { initial genesis with checkpoint } genesis.header where
  forest := forest_initial genesis
  best := by
    simp [Database.best, initial, genesis.hash_ne_null, Header.position, Genesis.header]
  height := Int.le_refl 0
  found := by simp [initial, Genesis.header]
  attached := rfl
  origin := by simp [Database.bestBlock, initial]
  rows := by
    intro height present
    unfold Database.bestBlock initial at present ⊢
    simp only at present ⊢
    split at present
    · exact absurd rfl present
    · split at present
      · rename_i notBelow atZero
        rw [if_neg notBelow, if_pos atZero]
        exact ⟨genesis.header, if_pos rfl, rfl⟩
      · exact absurd rfl present

/-- An update that was just begun shows the database. -/
theorem ConsistentDb.fresh {db : Database Work} {current : Header Work} (consistent : ConsistentDb genesis db current) :
    Consistent genesis { db } current where
  stored := consistent.forest
  forest := consistent.forest
  inStep := disconnectedInStep_fresh db
  tip := {
    found := consistent.found
    attached := consistent.attached
    staged := by
      intro entry last
      cases last
    stored := fun _ => ⟨consistent.best, consistent.height, current, consistent.found, rfl⟩ }
  origin := consistent.origin
  staged := by
    intro height hash found
    cases found
  dbRows := consistent.rows
  reorg := Or.inl ⟨rfl, rfl⟩

theorem Consistent.rows {update : UpdateTransaction Work} {current : Header Work}
    (consistent : Consistent genesis update current) (height : Int)
    (present : update.effectiveBestBlock height ≠ nullHash) :
    Attached (view update) (update.effectiveBestBlock height) := by
  unfold UpdateTransaction.effectiveBestBlock at present ⊢
  cases found : update.best.find? height with
  | some hash =>
    rw [found] at present
    exact consistent.staged height hash found present
  | none =>
    rw [found] at present
    exact consistent.dbRows height present

theorem Consistent.row_known {update : UpdateTransaction Work} {current : Header Work}
    (consistent : Consistent genesis update current) (height : Int)
    (present : update.effectiveBestBlock height ≠ nullHash) :
    view update (update.effectiveBestBlock height) ≠ none := by
  obtain ⟨header, found, _⟩ := consistent.rows height present
  rw [found]
  exact Option.some_ne_none header

/-! ## One header -/

/-- What adding a header does, by whether it is known and whether its parent is attached. -/
inductive Added (genesis : Genesis Work) (new : NewHeader Work) (before : UpdateTransaction Work)
    (current : Header Work) : (after : UpdateTransaction Work) → (best : Header Work) → Prop
  | known : view before new.hash ≠ none → Added genesis new before current before current
  | waits {after : UpdateTransaction Work} : view before new.hash = none →
      ¬ Attached (view before) new.parentHash → Waits new before after → Added genesis new before current after current
  | joins {after : UpdateTransaction Work} {parent base best : Header Work} {hashes : List Hash}
      {paths : List (List Hash)} : Joinable genesis before new parent →
      Accepted new parent current base best hashes paths before after → Added genesis new before current after best

theorem addHeader_added {before : UpdateTransaction Work} {current : Header Work}
    (consistent : Consistent genesis before current) (new : NewHeader Work)
    (narrow : view before new.hash = none → Attached (view before) new.parentHash →
      Narrow (waitingFor before.cachedDisconnected) true new.hash) :
    ∃ after best, addHeader before new = .ok (true, after) ∧ Added genesis new before current after best := by
  cases fresh : view before new.hash with
  | some header =>
    have known : view before new.hash ≠ none := by simp [fresh]
    exact ⟨before, current, addHeader_known before new known, Added.known known⟩
  | none =>
    by_cases attached : Attached (view before) new.parentHash
    · have narrowHere := narrow fresh attached
      obtain ⟨parent, above, parentAttached⟩ := attached
      have joinable : Joinable genesis before new parent := ⟨consistent.forest, fresh, above, parentAttached⟩
      obtain ⟨base, best, hashes, paths, after, adding, accepted⟩ := addHeader_accepted joinable consistent.tip
        narrowHere consistent.origin consistent.row_known
      exact ⟨after, best, adding, Added.joins joinable accepted⟩
    · obtain ⟨after, adding, waits⟩ := addHeader_waits consistent.forest consistent.tip fresh attached
      exact ⟨after, current, adding, Added.waits fresh attached waits⟩

/-! ## The invariant is kept -/

theorem Consistent.waits {before after : UpdateTransaction Work} {current : Header Work} {new : NewHeader Work}
    (consistent : Consistent genesis before current) (fresh : view before new.hash = none)
    (alone : ¬ Attached (view before) new.parentHash) (waits : Waits new before after) :
    Consistent genesis after current := by
  have keeps : ∀ hash header, view before hash = some header → view after hash = some header := by
    intro hash header found
    rw [waits.headers, if_neg]
    · exact found
    · intro same
      rw [same, fresh] at found
      cases found
  have attached : ∀ hash, Attached (view before) hash → Attached (view after) hash :=
    fun hash ⟨header, found, facts⟩ => ⟨header, keeps hash header found, facts⟩
  constructor
  · rw [waits.chain.db]
    exact consistent.stored
  · rw [waits.cached]
    exact forest_disconnect consistent.forest new fresh alone waits.headers
  · apply waits.inStep _ consistent.inStep
    intro member
    obtain ⟨header, found, _⟩ := consistent.stored.waits _ _ member
    obtain ⟨_, absent⟩ := Option.or_eq_none_iff.mp fresh
    rw [absent] at found
    cases found
  · exact consistent.tip.transfer waits.chain (keeps _ _ consistent.tip.found)
  · rw [waits.chain.effectiveBestBlock]
    exact consistent.origin
  · rw [waits.chain.best]
    exact fun height hash found present => attached hash (consistent.staged height hash found present)
  · rw [waits.chain.db]
    exact fun height present => attached _ (consistent.dbRows height present)
  · rw [waits.chain.haveReorg, waits.chain.reorgFrom, waits.chain.best]
    exact consistent.reorg

section Accepted

variable {before after : UpdateTransaction Work} {current parent base best : Header Work} {new : NewHeader Work}
  {hashes : List Hash} {paths : List (List Hash)}

theorem Consistent.accepted (consistent : Consistent genesis before current)
    (joinable : Joinable genesis before new parent)
    (accepted : Accepted new parent current base best hashes paths before after) : Consistent genesis after best := by
  have joined := accepted.joined
  have kept := accepted.attached joinable
  have dbRows : ∀ height, after.db.bestBlock height ≠ nullHash → Attached (view after) (after.db.bestBlock height) := by
    rw [joined.db]
    exact fun height present => kept _ (consistent.dbRows height present)
  have stored : Forest genesis after.db.headers after.db.disconnected := by
    rw [joined.db]
    exact consistent.stored
  have baseHeight := accepted.base_height joinable
  rcases accepted.outcome with ⟨rfl, same⟩ | ⟨rest, member, chosen⟩
  · have sameRow : ∀ height, after.effectiveBestBlock height = before.effectiveBestBlock height := by
      intro height
      unfold UpdateTransaction.effectiveBestBlock
      rw [same.best, joined.db]
    constructor
    · exact stored
    · exact joined.forest joinable
    · exact joined.inStep consistent.inStep
    · constructor
      · rw [joined.attached_same joinable _ ⟨best, consistent.tip.found, consistent.tip.attached⟩]
        exact consistent.tip.found
      · exact consistent.tip.attached
      · rw [same.best]
        exact consistent.tip.staged
      · rw [same.best, joined.db]
        exact consistent.tip.stored
    · rw [sameRow]
      exact consistent.origin
    · rw [same.best]
      exact fun height hash found present => kept hash (consistent.staged height hash found present)
    · exact dbRows
    · rw [same.haveReorg, same.reorgFrom, same.best]
      exact consistent.reorg
  · obtain ⟨named, attached, height, last⟩ := chosen.end accepted joinable member
    have nonempty : after.best.last? ≠ none := by simp [last]
    constructor
    · exact stored
    · exact joined.forest joinable
    · exact joined.inStep consistent.inStep
    · constructor
      · rw [named]
        exact chosen.tip
      · exact attached
      · intro entry found
        rw [last] at found
        exact (Option.some.inj found).symm
      · exact fun none => absurd none nonempty
    · rw [chosen.taken.kept 0 baseHeight]
      exact consistent.origin
    · intro position hash found present
      by_cases above : base.height < position
      · rw [chosen.taken.find position above] at found
        exact lineage_attached (accepted.lineage rest member) hash (List.mem_of_getElem? found)
      · have row : before.effectiveBestBlock position = hash := by
          rw [← chosen.taken.kept position (not_lt.mp above), UpdateTransaction.effectiveBestBlock, found]
          rfl
        rw [← row]
        exact kept _ (consistent.rows position (row ▸ present))
    · exact dbRows
    · rcases lt_or_ge base.height current.height with below | above
      · obtain ⟨haveReorg, reorgFrom⟩ := chosen.taken.reorgs below
        refine Or.inr ⟨haveReorg, ?_, nonempty⟩
        rw [reorgFrom]
        split
        · exact baseHeight
        · rename_i other
          rcases consistent.reorg with ⟨_, unset⟩ | ⟨_, atLeast, _⟩
          · exact absurd (Or.inl unset) other
          · exact atLeast
      · obtain ⟨haveReorg, reorgFrom⟩ := chosen.taken.grows above
        rw [haveReorg, reorgFrom]
        rcases consistent.reorg with unset | ⟨set, atLeast, _⟩
        · exact Or.inl unset
        · exact Or.inr ⟨set, atLeast, nonempty⟩

end Accepted

theorem Consistent.added {before after : UpdateTransaction Work} {current best : Header Work} {new : NewHeader Work}
    (consistent : Consistent genesis before current) (added : Added genesis new before current after best) :
    Consistent genesis after best := by
  cases added with
  | known => exact consistent
  | waits fresh alone waits => exact consistent.waits fresh alone waits
  | joins joinable accepted => exact consistent.accepted joinable accepted

/-! ## Writing the update -/

theorem poppedRows_rows (update : UpdateTransaction Work) (rows : Int → Hash) (popped : poppedRows update = some rows)
    (height : Int) : rows height =
      if update.haveReorg = true ∧ update.reorgFrom.height < height ∧ height ≤ update.db.best.height then nullHash
      else update.db.rows height := by
  unfold poppedRows at popped
  split at popped
  · rename_i reorg
    rw [popBestFrom_rows _ _ _ _ popped height]
    by_cases within : update.reorgFrom.height < height ∧ height ≤ update.db.best.height
    · rw [if_pos (by omega), if_pos ⟨reorg, within⟩]
    · rw [if_neg (by omega), if_neg (fun both => within both.2)]
  · rename_i noReorg
    cases popped
    rw [if_neg fun both => noReorg both.1]

theorem forest_congr {headers : Hash → Option (Header Work)} {waiting others : List ChainSegment}
    (forest : Forest genesis headers waiting) (same : ∀ segment, segment ∈ others ↔ segment ∈ waiting)
    (nodup : others.Nodup) : Forest genesis headers others where
  toRooted := forest.toRooted
  work := forest.work
  detached := fun hash header found disconnected => (same _).mpr (forest.detached hash header found disconnected)
  waits := fun parent child member => forest.waits parent child ((same _).mp member)
  nodup := nodup
  closed := fun parent child member => forest.closed parent child ((same _).mp member)

theorem ConsistentDb.written {update : UpdateTransaction Work} {current : Header Work}
    (consistent : Consistent genesis update current) (rows : Int → Hash) (popped : poppedRows update = some rows)
    (lastUpdate : LastUpdate) : ConsistentDb genesis { writeUpdate update rows with lastUpdate } current := by
  have forest := consistent.forest
  have tip := consistent.tip
  have currentHeight := forest.height _ current tip.found tip.attached
  have notNull : current.hash ≠ nullHash := by
    intro null
    have found := tip.found
    rw [null, forest.null] at found
    cases found
  have unpopped := poppedRows_rows update rows popped
  constructor
  · exact forest_congr forest (mem_updatedDisconnected update consistent.inStep)
      (updatedDisconnected_nodup update consistent.stored.nodup)
  · have tipRow : (writeUpdate update rows).tipHeight = current.height ∧
        (writeUpdate update rows).rows current.height = current.hash := by
      rw [writeUpdate_rows]
      unfold writeUpdate
      simp only
      cases last : update.best.last? with
      | some entry =>
        have same := tip.staged entry last
        subst same
        rw [((Ordered.OrderedMap.last?_eq_some _ _ _).mp last).1]
        exact ⟨rfl, rfl⟩
      | none =>
        have row := tip.row
        obtain ⟨best, _, _⟩ := tip.stored last
        have absent := (Ordered.OrderedMap.last?_eq_none _).mp last current.height
        rw [UpdateTransaction.effectiveBestBlock, absent, Option.getD_none, Database.bestBlock, if_neg (by omega)] at row
        rw [absent, Option.getD_none, unpopped, if_neg]
        · refine ⟨?_, row⟩
          unfold Database.best at best
          split at best
          · have negative := congrArg Position.height best
            simp only [Header.position] at negative
            omega
          · exact congrArg Position.height best
        · intro both
          rcases consistent.reorg with ⟨noReorg, _⟩ | ⟨_, _, nonempty⟩
          · rw [noReorg] at both
            exact Bool.noConfusion both.1
          · exact nonempty last
    unfold Database.best
    simp only
    rw [tipRow.1, tipRow.2, if_neg notNull]
    rfl
  · exact currentHeight
  · exact tip.found
  · exact tip.attached
  · have row := consistent.origin
    unfold Database.bestBlock
    rw [if_neg (by omega)]
    rw [UpdateTransaction.effectiveBestBlock, Database.bestBlock, if_neg (by omega)] at row
    rw [← row]
    apply (writeUpdate_rows update rows 0).trans
    rw [unpopped, if_neg]
    rintro ⟨reorg, below, _⟩
    rcases consistent.reorg with ⟨noReorg, _⟩ | ⟨_, atLeast, _⟩
    · rw [noReorg] at reorg
      exact Bool.noConfusion reorg
    · omega
  · intro height present
    unfold Database.bestBlock at present ⊢
    split at present
    · exact absurd rfl present
    · rename_i notBelow
      rw [if_neg notBelow]
      have row : (writeUpdate update rows).rows height = (update.best.find? height).getD (rows height) :=
        writeUpdate_rows update rows height
      simp only at present ⊢
      rw [row] at present ⊢
      cases found : update.best.find? height with
      | some hash =>
        rw [found] at present
        exact consistent.staged height hash found present
      | none =>
        rw [found, Option.getD_none, unpopped] at present
        rw [Option.getD_none, unpopped]
        split at present
        · exact absurd rfl present
        · rename_i kept
          rw [if_neg kept]
          have stored : update.db.bestBlock height = update.db.rows height := by
            rw [Database.bestBlock, if_neg notBelow]
          rw [← stored] at present ⊢
          exact consistent.dbRows height present

theorem ConsistentDb.published {update : UpdateTransaction Work} {current : Header Work}
    (consistent : Consistent genesis update current) (rows : Int → Hash) (popped : poppedRows update = some rows) :
    ∃ lastUpdate, (publish update (writeUpdate update rows)).db = { writeUpdate update rows with lastUpdate } ∧
      ConsistentDb genesis (publish update (writeUpdate update rows)).db current := by
  obtain ⟨_, lastUpdate, same⟩ := publish_db update (writeUpdate update rows)
  refine ⟨lastUpdate, same, ?_⟩
  rw [same]
  exact ConsistentDb.written consistent rows popped lastUpdate

/-! ## A checkpoint above the tip -/

/-- Nothing was changed but the checkpoint. -/
theorem publish_loaded {update loaded : UpdateTransaction Work} (load : Loaded update loaded)
    (headers : view update = update.db.headers) (best : update.best = Ordered.OrderedMap.empty)
    (noReorg : update.haveReorg = false) (sets : updatedDisconnected update = update.db.disconnected ∧
      updatedSiblings update = update.db.siblings) (rows : Int → Hash) (popped : poppedRows loaded = some rows) :
    (publish loaded (writeUpdate loaded rows)).db = { update.db with checkpoint := update.checkpoint } := by
  have sameHeaders : view loaded = update.db.headers := (funext load.view).trans headers
  obtain ⟨staged, rfl⟩ := load.rest
  have sameRows : rows = update.db.rows := by
    unfold poppedRows at popped
    simp only [noReorg] at popped
    exact (Option.some.inj popped).symm
  have written : writeUpdate { update with headers := staged } rows =
      { update.db with checkpoint := update.checkpoint } := by
    have viewed : (fun hash => (staged hash).or (update.db.headers hash)) = update.db.headers := sameHeaders
    have checkpoint : ({ update with headers := staged } : UpdateTransaction Work).checkpoint = update.checkpoint := rfl
    have disconnected : updatedDisconnected { update with headers := staged } = updatedDisconnected update := rfl
    have siblings : updatedSiblings { update with headers := staged } = updatedSiblings update := rfl
    unfold writeUpdate
    rw [checkpoint, disconnected, siblings, sets.1, sets.2, sameRows]
    simp only [viewed, best]
    rfl
  rw [written]
  unfold publish
  simp only [noReorg]
  split
  · rename_i reorg
    cases reorg
  · split
    · rfl
    · rfl

end Opentxs.HeaderOracle.Consistency
