import Opentxs.HeaderOracle.BestChain
import Opentxs.HeaderOracle.MostWork

/-! The siblings are the leaves off the best chain, and the disconnected set holds the
headers that are not connected. -/

namespace Opentxs.HeaderOracle.Bookkeeping
open Library Library.Tree BlockHeader Storage Update Shared HeaderTree Frame Connect Choose Join AddHeader Apply Consistency
open Batches Colours MostWork BestChain
set_option linter.unusedSectionVars false

variable {Work : Type} [AddCommMonoid Work] [LinearOrder Work] {genesis : Genesis Work}

/-- No attached header stands on the block. -/
def Leaf (headers : Hash → Option (Header Work)) (hash : Hash) : Prop :=
  ∀ child header, headers child = some header → header.isDisconnected = false → header.parentHash ≠ hash

/-- The siblings are the attached leaves other than the tip. -/
def SiblingsAreLeaves (update : UpdateTransaction Work) (current : Header Work) : Prop :=
  ∀ hash, hash ∈ update.cachedSiblings ↔
    Attached (view update) hash ∧ Leaf (view update) hash ∧ hash ≠ current.hash

section Added

variable {before after : UpdateTransaction Work} {current best parent base : Header Work}
  {new : NewHeader Work} {hashes : List Hash} {paths : List (List Hash)}

/-- Among what joins, the leaves are the ends of the branches. -/
theorem leaf_joins_iff (joined : Joined new parent before after) (joinable : Joinable genesis before new parent)
    (branches : Branches (waitingFor before.cachedDisconnected) new.hash paths) (hash : Hash)
    (below : Joins before new hash) :
    Leaf (view after) hash ↔ ∃ rest ∈ paths, hash = rest.getLastD new.hash := by
  constructor
  · intro leaf
    obtain ⟨rest, member, inRest⟩ := branches.covers hash below
    refine ⟨rest, member, (branches.path rest member).leaf_eq_last inRest ?_⟩
    by_contra waits
    obtain ⟨child, inKids⟩ := List.exists_mem_of_ne_nil _ waits
    obtain ⟨header, found, attached, named⟩ := joined.child joinable below inKids
    exact leaf child header found attached named
  · intro ⟨rest, member, same⟩ child header found attached named
    have none := branches.leaf rest member
    rw [← same] at none
    by_cases childBelow : Joins before new child
    · rcases childBelow.cases_tail with rfl | ⟨above, upper, inKids⟩
      · rw [joined.top] at found
        cases found
        rw [under_parentHash] at named
        have attachedParent : Attached (view before) new.parentHash := ⟨parent, joinable.above, joinable.attached⟩
        exact joinable.forest.not_attached new.hash joinable.fresh hash below (named ▸ attachedParent)
      · obtain ⟨other, foundOther, _, namedOther⟩ := joined.child joinable upper inKids
        rw [found] at foundOther
        cases foundOther
        rw [named] at namedOther
        rw [← namedOther, none] at inKids
        cases inKids
    · rw [joined.others child childBelow] at found
      have other : child ≠ genesis.hash := by
        intro origin
        rw [origin, joinable.forest.origin] at found
        cases found
        obtain ⟨node, _, foundNode, nodeNamed, _⟩ := joined.node joinable hash below
        rw [← named, Genesis.header] at foundNode
        rw [(joined.rooted joinable).null] at foundNode
        cases foundNode
      obtain ⟨upper, foundUpper, linked⟩ := joinable.forest.attached child header found attached other
      rw [named] at foundUpper
      exact joinable.forest.not_attached new.hash joinable.fresh hash below ⟨upper, foundUpper, linked.attached⟩

/-- Of what was attached before, only the parent gets a child. -/
theorem leaf_attached_iff (joined : Joined new parent before after) (joinable : Joinable genesis before new parent)
    (hash : Hash) (attached : Attached (view before) hash) :
    Leaf (view after) hash ↔ Leaf (view before) hash ∧ hash ≠ new.parentHash := by
  constructor
  · intro leaf
    constructor
    · intro child header found childAttached
      apply leaf child header _ childAttached
      rw [joined.attached_same joinable child ⟨header, found, childAttached⟩]
      exact found
    · intro same
      apply leaf new.hash _ joined.top (under_attached _ _ _ joinable.attached)
      rw [same]
      exact under_parentHash _ _ _
  · intro ⟨leaf, other⟩ child header found childAttached named
    by_cases below : Joins before new child
    · rcases below.cases_tail with rfl | ⟨above, upper, inKids⟩
      · rw [joined.top] at found
        cases found
        rw [under_parentHash] at named
        exact other named.symm
      · obtain ⟨header', foundHeader, _, namedHeader⟩ := joined.child joinable upper inKids
        rw [found] at foundHeader
        cases foundHeader
        rw [named] at namedHeader
        exact joinable.forest.not_attached new.hash joinable.fresh hash (namedHeader ▸ upper) attached
    · rw [joined.others child below] at found
      exact leaf child header found childAttached named

/-- A block that is followed on its lineage is no leaf. -/
theorem lineage_leaf {headers : Hash → Option (Header Work)} {base : Hash} {line : List Hash}
    (lineage : Lineage headers base line) (hash : Hash) (member : hash ∈ base :: line) (leaf : Leaf headers hash) :
    hash = line.getLastD base := by
  induction line generalizing base with
  | nil => exact List.mem_singleton.mp member
  | cons first line ih =>
    rw [getLastD_cons]
    obtain ⟨⟨header, found, attached, named⟩, rest⟩ := lineage
    rcases List.mem_cons.mp member with rfl | later
    · exact absurd named (leaf first header found attached)
    · exact ih rest later

theorem SiblingsAreLeaves.kept (siblings : SiblingsAreLeaves before current) (joinable : Joinable genesis before new parent)
    (tip : Tip before current) (accepted : Accepted new parent current base best hashes paths before after)
    (kept : AddHeader.Kept new paths before after) : SiblingsAreLeaves after current := by
  have joined := accepted.joined
  intro hash
  rw [kept.siblings hash, siblings hash, joined.attached_iff joinable]
  by_cases below : Joins before new hash
  · have notOld : ¬ Attached (view before) hash := joinable.forest.not_attached new.hash joinable.fresh hash below
    have notTip : hash ≠ current.hash := fun same => current_not_joining joinable tip (same ▸ below)
    rw [leaf_joins_iff joined joinable accepted.branches hash below]
    simp [notOld, notTip, below]
  · have notEnd : ¬ ∃ rest ∈ paths, hash = rest.getLastD new.hash := by
      intro ⟨rest, member, same⟩
      exact below (same ▸ (accepted.branches.path rest member).last_descendant)
    constructor
    · intro either
      obtain ⟨⟨attached, leaf, notTip⟩, notParent⟩ := either.resolve_left notEnd
      exact ⟨Or.inl attached, (leaf_attached_iff joined joinable hash attached).mpr ⟨leaf, notParent⟩, notTip⟩
    · intro ⟨either, leaf, notTip⟩
      have attached := either.resolve_right below
      obtain ⟨oldLeaf, notParent⟩ := (leaf_attached_iff joined joinable hash attached).mp leaf
      exact Or.inr ⟨⟨attached, oldLeaf, notTip⟩, notParent⟩

/-- When a line leaves the best chain below the tip, the tip is not its parent. -/
theorem parent_not_tip (walked : WalkedBack (view before) (offBestChain before) parent base hashes)
    (joinable : Joinable genesis before new parent) (tip : Tip before current) (forks : base.height < current.height)
    (notInHashes : current.hash ∉ hashes) : current.hash ≠ new.parentHash := by
  intro same
  rcases List.eq_nil_or_concat hashes with rfl | ⟨front, last, rfl⟩
  · have atBase : base.hash = parent.hash := walked.last
    have found := walked.found
    rw [atBase, joinable.named, ← same, tip.found] at found
    cases found
    exact lt_irrefl _ forks
  · apply notInHashes
    have lastIs := walked.last
    rw [List.concat_eq_append, List.getLastD_concat] at lastIs
    rw [same, ← joinable.named, ← lastIs]
    simp

theorem SiblingsAreLeaves.chosen (siblings : SiblingsAreLeaves before current)
    (consistent : Consistent genesis before current) (joinable : Joinable genesis before new parent)
    (accepted : Accepted new parent current base best hashes paths before after) {rest : List Hash}
    (member : rest ∈ paths) (chosen : Chosen new current base best hashes paths rest before after)
    (within : base.height ≤ current.height) (leafTip : Leaf (view before) current.hash) :
    SiblingsAreLeaves after best := by
  have joined := accepted.joined
  have walked := accepted.walked
  have tip := consistent.tip
  obtain ⟨named, _⟩ := chosen.end accepted joinable member
  have notInLine := current_not_in_line walked joinable tip (accepted.branches.path rest member)
  have notInHashes : current.hash ∉ hashes := fun inHashes => notInLine (List.mem_append_left _ inHashes)
  intro hash
  rw [chosen.siblings within hash, siblings hash, joined.attached_iff joinable, named]
  by_cases below : Joins before new hash
  · have notOld : ¬ Attached (view before) hash := joinable.forest.not_attached new.hash joinable.fresh hash below
    have notTip : hash ≠ current.hash := fun same => current_not_joining joinable tip (same ▸ below)
    rw [leaf_joins_iff joined joinable accepted.branches hash below]
    simp [notOld, notTip, below]
  · have notEnd : ∀ other ∈ paths, hash ≠ other.getLastD new.hash := by
      intro other inPaths same
      exact below (same ▸ (accepted.branches.path other inPaths).last_descendant)
    constructor
    · intro either
      rcases either with ⟨⟨other, inPaths, same⟩, _⟩ | ⟨⟨attached, leaf, _⟩, notParent, _⟩ | ⟨forks, rfl⟩
      · exact absurd same (notEnd other inPaths)
      · exact ⟨Or.inl attached, (leaf_attached_iff joined joinable hash attached).mpr ⟨leaf, notParent⟩,
          notEnd rest member⟩
      · have attached : Attached (view before) current.hash := ⟨current, tip.found, tip.attached⟩
        exact ⟨Or.inl attached, (leaf_attached_iff joined joinable _ attached).mpr
          ⟨leafTip, parent_not_tip walked joinable tip forks notInHashes⟩, notEnd rest member⟩
    · intro ⟨either, leaf, _⟩
      have attached := either.resolve_right below
      obtain ⟨oldLeaf, notParent⟩ := (leaf_attached_iff joined joinable hash attached).mp leaf
      by_cases atTip : hash = current.hash
      · subst atTip
        refine Or.inr (Or.inr ⟨?_, rfl⟩)
        by_contra above
        have same : base.height = current.height := le_antisymm within (not_lt.mp above)
        have baseRow : before.effectiveBestBlock base.height = base.hash := not_not.mp (of_decide_eq_false walked.stops)
        rw [same, tip.row] at baseRow
        have atEnd := lineage_leaf walked.lineage current.hash (baseRow ▸ List.mem_cons_self) oldLeaf
        rw [walked.last, joinable.named] at atEnd
        exact notParent atEnd
      · refine Or.inr (Or.inl ⟨⟨attached, oldLeaf, atTip⟩, notParent, ?_⟩)
        intro inLine
        rcases List.mem_append.mp inLine with inHashes | inRest
        · have atEnd := lineage_leaf walked.lineage hash (List.mem_cons_of_mem _ inHashes) oldLeaf
          rw [walked.last, joinable.named] at atEnd
          exact notParent atEnd
        · exact below ((accepted.branches.path rest member).descendant hash inRest)

theorem SiblingsAreLeaves.waits (siblings : SiblingsAreLeaves before current) (waits : Waits new before after)
    (fresh : view before new.hash = none) : SiblingsAreLeaves after current := by
  have attachedIff : ∀ hash header, (view after hash = some header ∧ header.isDisconnected = false) ↔
      (view before hash = some header ∧ header.isDisconnected = false) := by
    intro hash header
    rw [waits.headers]
    split
    · rename_i same
      rw [same, fresh]
      constructor
      · intro ⟨found, attached⟩
        cases found
        cases attached
      · intro ⟨found, _⟩
        cases found
    · exact Iff.rfl
  have leafIff : ∀ hash, Leaf (view after) hash ↔ Leaf (view before) hash := by
    intro hash
    constructor
    · intro leaf child header found attached
      have both := (attachedIff child header).mpr ⟨found, attached⟩
      exact leaf child header both.1 both.2
    · intro leaf child header found attached
      have both := (attachedIff child header).mp ⟨found, attached⟩
      exact leaf child header both.1 both.2
  intro hash
  rw [waits.chain.cachedSiblings, siblings hash, leafIff]
  unfold Attached
  simp only [attachedIff]

theorem siblingsInStep_added (inStep : SiblingsInStep before) (added : Added genesis new before current after best) :
    SiblingsInStep after := by
  cases added with
  | known => exact inStep
  | waits _ _ waits =>
    intro hash
    rw [waits.chain.cachedSiblings, waits.chain.db, waits.chain.addSib, waits.chain.deleteSib]
    exact inStep hash
  | joins _ accepted => exact accepted.siblingsInStep inStep

/-- The tip has no child: a child would have more work. -/
theorem tip_leaf [IsOrderedCancelAddMonoid Work] {headers : Hash → Option (Header Work)} {waiting : List ChainSegment}
    (forest : Forest genesis headers waiting) (heaviest : Heaviest headers current)
    (found : headers current.hash = some current)
    (allowed : ∀ hash header, headers hash = some header → header.isDisconnected = false → header.isBlacklisted = false) :
    Leaf headers current.hash := by
  intro child header foundChild attached named
  have more := work_lt_child forest foundChild attached (by rw [named]; exact found)
  exact absurd (heaviest.most child header foundChild attached (allowed child header foundChild attached)) (not_le.mpr more)

/-- Without a checkpoint nothing is blacklisted. -/
theorem all_allowed_free {headers : Hash → Option (Header Work)} {waiting : List ChainSegment}
    (forest : Forest genesis headers waiting) (coloured : Coloured genesis {} headers) (hash : Hash) (header : Header Work)
    (found : headers hash = some header) (attached : header.isDisconnected = false) : header.isBlacklisted = false := by
  rw [← Bool.not_eq_true, blacklisted_iff_conflicts forest coloured (by decide) found attached]
  intro ⟨_, height, _, _, connected, same, _⟩
  obtain ⟨_, foundBlock, attachedBlock, blockHeight, _⟩ := (forest.connected_iff _ _ _).mp connected
  have atLeast := forest.height _ _ foundBlock attachedBlock
  have negative : height = -1 := same
  omega

theorem sameColour_free (free : before.checkpoint = {}) (forest : Forest genesis (view before) before.cachedDisconnected)
    (attached : Attached (view before) new.parentHash) : SameColour before new := by
  obtain ⟨known, foundKnown, attached⟩ := attached
  intro parent found
  rw [foundKnown] at found
  cases found
  refine Or.inr (Or.inr ?_)
  intro rest _ banned
  rw [free, checkpointStatus_banned] at banned
  have height := banned.1
  have atLeast := forest.height _ known foundKnown attached
  simp only at height
  omega

end Added

/-! ## Runs -/

/-- When a header connects, no three of the blocks that wait below it wait for one block, nothing
splits below the first of two, and the walk back to the best chain meets no stale row. -/
def ConnectsOnChain (update : UpdateTransaction Work) (new : NewHeader Work) : Prop :=
  view update new.hash = none → Attached (view update) new.parentHash →
    Narrow (waitingFor update.cachedDisconnected) true new.hash ∧ Unstale update new

theorem connectsOnChain_of_check (update : UpdateTransaction Work) (new : NewHeader Work)
    (check : (Batches.isNarrow update new && isUnstale update new) = true) : ConnectsOnChain update new := by
  rw [Bool.and_eq_true] at check
  exact fun _ _ => ⟨narrow_of_isNarrow _ _ _ check.1, unstale_of_isUnstale update new check.2⟩

/-- What an update without a checkpoint keeps. -/
structure Orderly (genesis : Genesis Work) (update : UpdateTransaction Work) (current : Header Work) : Prop where
  free : update.checkpoint = {}
  coloured : Coloured genesis {} (view update)
  heaviest : Heaviest (view update) current
  spine : Spine update current
  inStep : SiblingsInStep update
  siblings : SiblingsAreLeaves update current

theorem Orderly.leafTip [IsOrderedCancelAddMonoid Work] {update : UpdateTransaction Work} {current : Header Work}
    (orderly : Orderly genesis update current) (consistent : Consistent genesis update current) :
    Leaf (view update) current.hash :=
  tip_leaf consistent.forest orderly.heaviest consistent.tip.found
    (all_allowed_free consistent.forest orderly.coloured)

theorem Added.checkpoint {new : NewHeader Work} {before after : UpdateTransaction Work} {current best : Header Work}
    (added : Added genesis new before current after best) : after.checkpoint = before.checkpoint := by
  cases added with
  | known => rfl
  | waits _ _ waits => exact waits.chain.checkpoint
  | joins _ accepted => exact accepted.joined.checkpoint

theorem kept_orderly [IsOrderedCancelAddMonoid Work] :
    Kept genesis (ConnectsOnChain : UpdateTransaction Work → NewHeader Work → Prop) (Orderly genesis) where
  narrow := fun _ _ meets fresh attached => (meets fresh attached).1
  step := by
    intro before current new after best consistent orderly meets added
    have free := (Added.checkpoint added).trans orderly.free
    have coloured : Coloured genesis after.checkpoint (view after) :=
      Coloured.added (by rw [orderly.free]; exact orderly.coloured) consistent added
    constructor
    · exact free
    · rw [← free]
      exact coloured
    · exact orderly.heaviest.added added fun _ attached => sameColour_free orderly.free consistent.forest attached
    · exact orderly.spine.added consistent added fun fresh attached => (meets fresh attached).2
    · exact siblingsInStep_added orderly.inStep added
    · cases added with
      | known => exact orderly.siblings
      | waits fresh _ waits => exact orderly.siblings.waits waits fresh
      | joins joinable accepted =>
        rcases accepted.outcome with ⟨rfl, kept⟩ | ⟨rest, member, chosen⟩
        · exact orderly.siblings.kept joinable consistent.tip accepted kept
        · have within := base_within joinable consistent.tip accepted.walked
            (meets joinable.fresh ⟨_, joinable.above, joinable.attached⟩).2
          exact orderly.siblings.chosen consistent joinable accepted member chosen within (orderly.leafTip consistent)

/-- On the best chain. -/
def OnBestChain (db : Database Work) (hash : Hash) : Prop :=
  ∃ height, 0 ≤ height ∧ height ≤ db.best.height ∧ db.bestBlock height = hash

def IsConnected (genesis : Genesis Work) (db : Database Work) (hash : Hash) : Prop :=
  ∃ height work, Connected genesis db.headers hash height work

/-- The siblings are the connected headers off the best chain that no connected header stands
on; the disconnected set holds every header that is not connected, under its parent's hash. -/
structure BooksKept (genesis : Genesis Work) (db : Database Work) : Prop where
  siblings : ∀ hash, hash ∈ db.siblings ↔ IsConnected genesis db hash ∧ ¬ OnBestChain db hash ∧
    ∀ child header, db.headers child = some header → header.parentHash = hash → ¬ IsConnected genesis db child
  disconnected : ∀ parent child, (⟨parent, child⟩ : ChainSegment) ∈ db.disconnected ↔
    ∃ header, db.headers child = some header ∧ header.parentHash = parent ∧ ¬ IsConnected genesis db child

/-- What holds of the database between the batches. -/
def SettledBooks (genesis : Genesis Work) (db : Database Work) : Prop :=
  ∃ current, ConsistentDb genesis db current ∧ SpineDb db current ∧
    Orderly genesis ({ db } : UpdateTransaction Work) current

theorem isConnected_iff {db : Database Work} {current : Header Work} (consistent : ConsistentDb genesis db current)
    (hash : Hash) : IsConnected genesis db hash ↔ Attached db.headers hash := by
  constructor
  · intro ⟨height, work, connected⟩
    obtain ⟨header, found, attached, _⟩ := (consistent.forest.connected_iff hash height work).mp connected
    exact ⟨header, found, attached⟩
  · intro ⟨header, found, attached⟩
    exact ⟨_, _, consistent.forest.connected hash header found attached⟩

/-- A leaf on the best chain is the tip. -/
theorem leaf_onBestChain {db : Database Work} {current : Header Work} (consistent : ConsistentDb genesis db current)
    (spine : SpineDb db current) {hash : Hash} (leaf : Leaf db.headers hash) :
    OnBestChain db hash ↔ hash = current.hash := by
  have height : db.best.height = current.height := congrArg Position.height consistent.best
  have best : db.bestBlock current.height = current.hash := by
    have row := consistent.fresh.tip.row
    rwa [UpdateTransaction.effectiveBestBlock, Ordered.OrderedMap.find?_empty, Option.getD_none] at row
  constructor
  · rintro ⟨position, atLeast, within, row⟩
    rw [height] at within
    rcases lt_or_eq_of_le within with below | atTip
    · obtain ⟨header, found, attached, _, named⟩ := spine.chain (position + 1) (by omega) (by omega)
      have back : position + 1 - 1 = position := by omega
      rw [back] at named
      rw [Database.bestBlock, if_neg (by omega)] at row
      exact absurd (named.trans row) (leaf _ header found attached)
    · rw [atTip, best] at row
      exact row.symm
  · intro same
    rw [same]
    exact ⟨current.height, consistent.height, le_of_eq height.symm, best⟩

theorem booksKept_of_settled {db : Database Work} (settled : SettledBooks genesis db) : BooksKept genesis db := by
  obtain ⟨current, consistent, spine, orderly⟩ := settled
  constructor
  · intro hash
    have leafIff : Leaf db.headers hash ↔ ∀ child header, db.headers child = some header →
        header.parentHash = hash → ¬ IsConnected genesis db child := by
      constructor
      · intro leaf child header found named connected
        obtain ⟨other, foundOther, attached⟩ := (isConnected_iff consistent child).mp connected
        rw [found] at foundOther
        cases foundOther
        exact leaf child header found attached named
      · intro none child header found attached named
        exact none child header found named ((isConnected_iff consistent child).mpr ⟨header, found, attached⟩)
    rw [isConnected_iff consistent, ← leafIff]
    apply (orderly.siblings hash).trans
    rw [view_fresh]
    constructor
    · intro ⟨attached, leaf, notTip⟩
      exact ⟨attached, fun onChain => notTip ((leaf_onBestChain consistent spine leaf).mp onChain), leaf⟩
    · intro ⟨attached, offChain, leaf⟩
      exact ⟨attached, leaf, fun same => offChain ((leaf_onBestChain consistent spine leaf).mpr same)⟩
  · intro parent child
    rw [isConnected_iff consistent]
    constructor
    · intro member
      obtain ⟨header, found, disconnected, named⟩ := consistent.forest.waits parent child member
      refine ⟨header, found, named, ?_⟩
      intro ⟨other, foundOther, attached⟩
      rw [found] at foundOther
      cases foundOther
      rw [disconnected] at attached
      cases attached
    · intro ⟨header, found, named, alone⟩
      have disconnected : header.isDisconnected = true := by
        by_contra attached
        exact alone ⟨header, found, by simpa using attached⟩
      rw [← named]
      exact consistent.forest.detached child header found disconnected

theorem orderly_written {update : UpdateTransaction Work} {current : Header Work}
    (consistent : Consistent genesis update current) (orderly : Orderly genesis update current) (rows : Int → Hash)
    (popped : poppedRows update = some rows) :
    SettledBooks genesis (publish update (writeUpdate update rows)).db := by
  obtain ⟨lastUpdate, same, written⟩ := ConsistentDb.published consistent rows popped
  have spine := orderly.spine.written consistent rows popped lastUpdate
  rw [same] at written ⊢
  refine ⟨current, written, spine, orderly.free, orderly.coloured, orderly.heaviest, spine.fresh written.best,
    siblingsInStep_fresh _, ?_⟩
  intro hash
  exact (mem_updatedSiblings update orderly.inStep hash).trans (orderly.siblings hash)

theorem spineDb_initial (genesis : Genesis Work) (checkpoint : Position) :
    SpineDb { initial genesis with checkpoint } genesis.header where
  chain := by
    intro height above within
    have zero : height ≤ 0 := within
    omega
  rows := by
    intro height atLeast
    have tip : (genesis.header : Header Work).height = 0 := rfl
    rw [tip]
    simp only [initial]
    split
    · rename_i zero
      simp [genesis.hash_ne_null, zero]
    · simp
      omega

theorem settledBooks_initial (genesis : Genesis Work) : SettledBooks genesis (initial genesis) := by
  have spine := spineDb_initial genesis {}
  have consistent := consistentDb_initial genesis {}
  have stored : ∀ hash header, (initial genesis).headers hash = some header → hash = genesis.hash ∧ header = genesis.header := by
    intro hash header found
    simp only [initial] at found
    split at found
    · rename_i same
      exact ⟨same, (Option.some.inj found).symm⟩
    · cases found
  refine ⟨genesis.header, consistent, spine, rfl, ?_, ⟨rfl, ?_⟩, spine.fresh consistent.best, siblingsInStep_fresh _, ?_⟩
  · intro hash header parent found _ other _
    exact absurd (stored hash header found).1 other
  · intro hash header found _ _
    rw [(stored hash header found).2]
  · intro hash
    constructor
    · intro member
      cases member
    · rintro ⟨⟨header, found, _⟩, _, other⟩
      exact absurd (stored hash header found).1 other

section Run

variable [IsOrderedCancelAddMonoid Work]

theorem settledBooks_addHeaders (db : Database Work) (headers : List (Option (NewHeader Work)))
    (settled : SettledBooks genesis db) (meets : EachMeets ConnectsOnChain headers { db }) :
    ∃ outcome, addHeaders db headers = .ok outcome ∧ SettledBooks genesis outcome.db := by
  obtain ⟨current, consistent, spine, orderly⟩ := settled
  obtain ⟨outcome, adding, result⟩ := addHeaders_keeps kept_orderly db current consistent orderly headers meets
  refine ⟨outcome, adding, ?_⟩
  rcases result with rfl | ⟨update, best, rows, updateConsistent, updateOrderly, _, popped, rfl⟩
  · exact ⟨current, consistent, spine, orderly⟩
  · exact orderly_written updateConsistent updateOrderly rows popped

/-- As long as each header connects to the best chain proper, never with too many blocks at a
time, every run of batches keeps the books. -/
theorem books_kept (batches : List (List (Option (NewHeader Work))))
    (meets : RunMeets ConnectsOnChain batches (initial genesis)) :
    ∃ final, run (initial genesis) (batches.map Operation.addHeaders) = .ok final ∧ BooksKept genesis final := by
  obtain ⟨final, running, settled⟩ :=
    run_keeps settledBooks_addHeaders batches (initial genesis) (settledBooks_initial genesis) meets
  exact ⟨final, running, booksKept_of_settled settled⟩

end Run

/-- A branch that arrives child first and takes over from another. -/
theorem books_kept_after_reorg : ∃ final, run (initial origin)
    ([[block 3 2 1 (by decide), block 12 1 1 (by decide)], [block 4 3 1 (by decide), block 2 1 1 (by decide)]].map
      Operation.addHeaders) = .ok final ∧ BooksKept origin final :=
  books_kept _ (runMeets_sound connectsOnChain_of_check _ _ (by decide))

/-! ## A sibling that is lost -/

/-- Every stored header but genesis was given, with the same parent. -/
def Given (genesis : Genesis Work) (inputs : List (Hash × Hash)) (headers : Hash → Option (Header Work)) : Prop :=
  ∀ hash header, headers hash = some header → hash = genesis.hash ∨ (hash, header.parentHash) ∈ inputs

theorem kept_given (inputs : List (Hash × Hash)) :
    Kept genesis (fun (update : UpdateTransaction Work) new => ConnectsNarrow update new ∧ (new.hash, new.parentHash) ∈ inputs)
      fun update _ => Given genesis inputs (view update) where
  narrow := fun _ _ meets => meets.1
  step := by
    intro before current new after best consistent given meets added
    cases added with
    | known => exact given
    | waits _ _ waits =>
      intro hash header found
      rw [waits.headers] at found
      split at found
      · rename_i same
        cases found
        exact Or.inr (same ▸ meets.2)
      · exact given hash header found
    | joins joinable accepted =>
      intro hash header found
      by_cases below : Joins before new hash
      · rcases (descendant_iff _ _).mp below with rfl | strict
        · rw [accepted.joined.top] at found
          cases found
          rw [under_parentHash]
          exact Or.inr meets.2
        · obtain ⟨upper, child, foundChild, _, foundAfter⟩ := accepted.joined.linked hash strict
          rw [found] at foundAfter
          cases foundAfter
          rw [under_parentHash]
          exact given hash child foundChild
      · rw [accepted.joined.others hash below] at found
        exact given hash header found

theorem given_addHeaders (inputs : List (Hash × Hash)) (db : Database Work) (headers : List (Option (NewHeader Work)))
    (given : ∃ current, ConsistentDb genesis db current ∧ Given genesis inputs db.headers)
    (meets : EachMeets (fun update new => ConnectsNarrow update new ∧ (new.hash, new.parentHash) ∈ inputs) headers { db }) :
    ∃ outcome, addHeaders db headers = .ok outcome ∧
      ∃ current, ConsistentDb genesis outcome.db current ∧ Given genesis inputs outcome.db.headers := by
  obtain ⟨current, consistent, given⟩ := given
  obtain ⟨outcome, adding, result⟩ := addHeaders_keeps (kept_given inputs) db current consistent given headers meets
  refine ⟨outcome, adding, ?_⟩
  rcases result with rfl | ⟨update, best, rows, updateConsistent, updateGiven, _, popped, rfl⟩
  · exact ⟨current, consistent, given⟩
  · obtain ⟨lastUpdate, same, written⟩ := ConsistentDb.published updateConsistent rows popped
    refine ⟨best, written, ?_⟩
    rw [same]
    exact updateGiven

/-- Two branches from block 1, and a block on one of them. -/
def passedOver : List (List (Option (NewHeader Nat))) :=
  [[block 2 1 1 Batches.second_valid, block 3 2 1 Batches.third_valid],
    [block 12 1 10 (by decide), block 14 3 20 (by decide), block 13 2 100 (by decide)]]

def passedOverInputs : List (Hash × Hash) := [(2, 1), (3, 2), (12, 1), (14, 3), (13, 2)]

def givenNarrow (inputs : List (Hash × Hash)) (update : UpdateTransaction Work) (new : NewHeader Work) : Bool :=
  Batches.isNarrow update new && decide ((new.hash, new.parentHash) ∈ inputs)

theorem givenNarrow_sound (inputs : List (Hash × Hash)) (update : UpdateTransaction Work) (new : NewHeader Work)
    (check : givenNarrow inputs update new = true) :
    ConnectsNarrow update new ∧ (new.hash, new.parentHash) ∈ inputs := by
  unfold givenNarrow at check
  rw [Bool.and_eq_true, decide_eq_true_eq] at check
  exact ⟨fun _ _ => narrow_of_isNarrow _ _ _ check.1, check.2⟩

theorem passedOver_reaches : ∃ final, run (initial origin) (passedOver.map Operation.addHeaders) = .ok final ∧
    Given origin passedOverInputs final.headers := by
  have meets := runMeets_sound (givenNarrow_sound passedOverInputs) passedOver (initial origin) (by decide +kernel)
  have start : Given origin passedOverInputs (initial origin).headers := by
    intro hash header found
    simp only [initial] at found
    split at found
    · rename_i same
      exact Or.inl same
    · cases found
  obtain ⟨final, running, _, _, given⟩ := run_keeps (given_addHeaders passedOverInputs) passedOver (initial origin)
    ⟨_, consistentDb_initial origin {}, start⟩ meets
  exact ⟨final, running, given⟩

/-- While 12 is the tip its update still shows block 3 above it, so 14 counts as standing on the
best chain and 12 is never made a sibling; 13 then takes 12 off the best chain. -/
theorem passed_over_block_lost : ∃ final,
    run (initial origin) (passedOver.map Operation.addHeaders) = .ok final ∧ ¬ BooksKept origin final := by
  have reached : ((run (initial origin) (passedOver.map Operation.addHeaders)).toOption.map
      fun db => (db.best, db.siblings, [db.bestBlock 0, db.bestBlock 1, db.bestBlock 2],
        (db.headers 12).map Header.parentHash, (db.headers 1).map Header.parentHash)) =
      some (⟨2, 13⟩, [14], [1, 2, 13], some 1, some 0) := by decide +kernel
  obtain ⟨final, running, given⟩ := passedOver_reaches
  rw [running] at reached
  obtain ⟨best, siblings, ⟨row0, row1, row2⟩, ⟨header, found, named⟩, first, foundFirst, null⟩ : final.best = ⟨2, 13⟩ ∧ final.siblings = [14] ∧
      (final.bestBlock 0 = 1 ∧ final.bestBlock 1 = 2 ∧ final.bestBlock 2 = 13) ∧
      (∃ header, final.headers 12 = some header ∧ header.parentHash = 1) ∧
      ∃ header, final.headers 1 = some header ∧ header.parentHash = 0 := by simpa [Except.toOption] using reached
  refine ⟨final, running, ?_⟩
  intro books
  have missing : 12 ∉ final.siblings := by
    rw [siblings]
    decide
  apply missing
  rw [books.siblings 12]
  have origins : Connected origin final.headers header.parentHash 0 1 := by
    rw [named]
    exact Connected.genesis
  refine ⟨⟨_, _, Connected.child found origins⟩, ?_, ?_⟩
  · rintro ⟨height, atLeast, within, row⟩
    rw [best] at within
    have low : height = 0 ∨ height = 1 ∨ height = 2 := by
      simp only at within
      omega
    rcases low with rfl | rfl | rfl
    · rw [row0] at row
      cases row
    · rw [row1] at row
      cases row
    · rw [row2] at row
      cases row
  · intro child header foundChild above _
    rcases given child header foundChild with same | member
    · have atGenesis : child = 1 := same
      rw [atGenesis, foundFirst] at foundChild
      cases foundChild
      rw [null] at above
      cases above
    · rw [above] at member
      revert member
      simp [passedOverInputs]

end Opentxs.HeaderOracle.Bookkeeping
