import Opentxs.HeaderOracle.Join

/-! What adding one header does to an update: nothing when it is known, one more waiting
block when its parent is not attached, and otherwise a tree that joins and perhaps another
best chain. -/

namespace Opentxs.HeaderOracle.AddHeader
open Library Library.Tree BlockHeader Storage Update Shared HeaderTree Frame Connect Choose Join
set_option linter.unusedSectionVars false

variable {Work : Type} [AddCommMonoid Work] [LinearOrder Work] {genesis : Genesis Work}

/-! ## The tip -/

/-- The header at the end of the best chain. -/
structure Tip (update : UpdateTransaction Work) (current : Header Work) : Prop where
  found : view update current.hash = some current
  attached : current.isDisconnected = false
  staged : ∀ entry, update.best.last? = some entry → entry = (current.height, current.hash)
  stored : update.best.last? = none → update.db.best = current.position ∧ 0 ≤ current.height ∧
    ∃ header, update.db.headers current.hash = some header ∧ header.hash = current.hash

theorem Tip.keys {update : UpdateTransaction Work} {current : Header Work} (tip : Tip update current) (key : Int)
    (present : update.best.find? key ≠ none) : key ≤ current.height := by
  cases last : update.best.last? with
  | none =>
    rw [Ordered.OrderedMap.last?_eq_none] at last
    exact absurd (last key) present
  | some entry =>
    have same := tip.staged entry last
    subst same
    exact ((Ordered.OrderedMap.last?_eq_some _ _ _).mp last).2 key present

theorem Tip.row {update : UpdateTransaction Work} {current : Header Work} (tip : Tip update current) :
    update.effectiveBestBlock current.height = current.hash := by
  unfold UpdateTransaction.effectiveBestBlock
  cases last : update.best.last? with
  | none =>
    obtain ⟨best, height, _⟩ := tip.stored last
    rw [(Ordered.OrderedMap.last?_eq_none _).mp last, Option.getD_none, Database.bestBlock, if_neg (by omega)]
    unfold Database.best at best
    split at best
    · rename_i missing
      have negative := congrArg Position.height best
      simp only [Header.position] at negative
      omega
    · have atHeight : update.db.tipHeight = current.height := congrArg Position.height best
      rw [← atHeight]
      exact congrArg Position.hash best
  | some entry =>
    have same := tip.staged entry last
    subst same
    rw [((Ordered.OrderedMap.last?_eq_some _ _ _).mp last).1]
    rfl

/-- The tip stays the tip while headers are loaded and other headers are written. -/
theorem Tip.transfer {before after : UpdateTransaction Work} {current : Header Work} (tip : Tip before current)
    (chain : SameChain before after) (found : view after current.hash = some current) : Tip after current where
  found := found
  attached := tip.attached
  staged := by
    rw [chain.best]
    exact tip.staged
  stored := by
    rw [chain.best, chain.db]
    exact tip.stored

theorem stageBest_tip {update : UpdateTransaction Work} {current : Header Work} (tip : Tip update current) :
    ∃ after, update.stageBest = .ok (current, after) ∧ Loaded update after := by
  unfold UpdateTransaction.stageBest
  cases last : update.best.last? with
  | some entry =>
    have same := tip.staged entry last
    subst same
    obtain ⟨after, staging, load, _⟩ := stage_of_view update current.hash current tip.found rfl
    refine ⟨after, ?_, load⟩
    simp only
    rw [staging]
    rfl
  | none =>
    obtain ⟨best, _, header, stored, named⟩ := tip.stored last
    have loads : update.db.currentBest = .ok header := by
      unfold Database.currentBest Database.loadHeader
      rw [best, Header.position, stored]
      rfl
    simp only [loads, bind, Except.bind]
    rw [named]
    cases staged : update.headers current.hash with
    | some other =>
      have same := tip.found
      unfold view at same
      rw [staged] at same
      cases same
      exact ⟨update, rfl, Loaded.refl update⟩
    | none =>
      have same := tip.found
      unfold view at same
      rw [staged, stored] at same
      cases same
      exact ⟨_, rfl, write_loaded update current.hash current tip.found rfl⟩

/-! ## The parent -/

theorem isDisconnected_attached {update : UpdateTransaction Work} {hash : Hash} {header : Header Work}
    (found : view update hash = some header) (named : header.hash = hash) (attached : header.isDisconnected = false) :
    ∃ after, Shared.isDisconnected hash update = (some header, after) ∧ Loaded update after := by
  obtain ⟨after, staging, load, _⟩ := stage_of_view update hash header found named
  refine ⟨after, ?_, load⟩
  unfold Shared.isDisconnected
  rw [staging]
  simp only
  rw [if_neg (by simp [attached])]

theorem isDisconnected_alone {update : UpdateTransaction Work} {hash : Hash}
    (named : ∀ header, view update hash = some header → header.hash = hash) (alone : ¬ Attached (view update) hash) :
    ∃ after, Shared.isDisconnected hash update = (none, after) ∧ Loaded update after := by
  unfold Shared.isDisconnected
  cases found : view update hash with
  | none =>
    rw [stage_of_absent update hash found]
    exact ⟨update, rfl, Loaded.refl update⟩
  | some header =>
    obtain ⟨after, staging, load, _⟩ := stage_of_view update hash header found (named header found)
    refine ⟨after, ?_, load⟩
    rw [staging]
    simp only
    have disconnected : header.isDisconnected = true := by
      by_contra attached
      exact alone ⟨header, found, by simpa using attached⟩
    rw [if_pos disconnected]

/-! ## A header that is known, and one that has to wait -/

theorem addHeader_known (update : UpdateTransaction Work) (new : NewHeader Work) (known : view update new.hash ≠ none) :
    addHeader update new = .ok (true, update) := by
  unfold addHeader
  rw [if_pos ((effectiveHeaderExists_iff update new.hash).mpr known)]

/-- One more block waits. -/
structure Waits (new : NewHeader Work) (before after : UpdateTransaction Work) : Prop where
  chain : SameChain before after
  headers : ∀ hash, view after hash = if hash = new.hash then some new.header.setDisconnectedState else view before hash
  cached : after.cachedDisconnected = before.cachedDisconnected ++ [⟨new.parentHash, new.hash⟩]
  inStep : (⟨new.parentHash, new.hash⟩ : ChainSegment) ∉ before.db.disconnected → DisconnectedInStep before →
    DisconnectedInStep after

theorem view_write_new (update : UpdateTransaction Work) (new : NewHeader Work) (hash : Hash) (other : hash ≠ new.hash) :
    view (update.write new.header) hash = view update hash := by
  rw [view_write]
  exact if_neg other

theorem addHeader_waits {update : UpdateTransaction Work} {new : NewHeader Work} {current : Header Work}
    {waiting : List ChainSegment} (forest : Forest genesis (view update) waiting) (tip : Tip update current)
    (fresh : view update new.hash = none) (alone : ¬ Attached (view update) new.parentHash) :
    ∃ after, addHeader update new = .ok (true, after) ∧ Waits new update after := by
  have tipOther : current.hash ≠ new.hash := by
    intro same
    have found := tip.found
    rw [same, fresh] at found
    cases found
  have tipWritten : Tip (update.write new.header) current :=
    tip.transfer (sameChain_write _ _) ((view_write_new update new _ tipOther).trans tip.found)
  obtain ⟨loaded, staging, load⟩ := stageBest_tip tipWritten
  have parentView : view loaded new.parentHash = view update new.parentHash := by
    rw [load.view, view_write_new update new _ new.parent_ne_hash]
  have namedParent : ∀ header, view loaded new.parentHash = some header → header.hash = new.parentHash := by
    rw [parentView]
    exact forest.hash _
  have aloneParent : ¬ Attached (view loaded) new.parentHash := by
    unfold Attached
    rw [parentView]
    exact alone
  obtain ⟨further, parting, loadParent⟩ := isDisconnected_alone namedParent aloneParent
  refine ⟨(further.write new.header.setDisconnectedState).disconnectBlock new.header.setDisconnectedState, ?_, ?_⟩
  · unfold addHeader
    rw [if_neg (by simp [effectiveHeaderExists_iff, fresh]), staging]
    simp only [bind, Except.bind]
    rw [parting]
  · have both := load.trans loadParent
    obtain ⟨headers, same⟩ := both.rest
    constructor
    · exact (sameChain_write update new.header).trans (both.sameChain.trans ⟨rfl, rfl, rfl, rfl, rfl, rfl, rfl, rfl, rfl⟩)
    · intro hash
      have written : view ((further.write new.header.setDisconnectedState).disconnectBlock
          new.header.setDisconnectedState) hash = view (further.write new.header.setDisconnectedState) hash := rfl
      rw [written, view_write, both.view]
      split
      · rename_i equal
        exact (if_pos equal).symm
      · rename_i other
        rw [view_write_new update new hash other]
        exact (if_neg other).symm
    · subst same
      rfl
    · intro unknown inStep
      subst same
      exact disconnectBlock_inStep _ _ unknown ⟨inStep.cached, inStep.known, inStep.fresh⟩

/-! ## A header that joins -/

/-- The update when the candidate is begun: the header is staged and its parent is no sibling any more. -/
structure Prepared (new : NewHeader Work) (before after : UpdateTransaction Work) : Prop where
  db : after.db = before.db
  best : after.best = before.best
  haveReorg : after.haveReorg = before.haveReorg
  reorgFrom : after.reorgFrom = before.reorgFrom
  haveCheckpoint : after.haveCheckpoint = before.haveCheckpoint
  newCheckpoint : after.newCheckpoint = before.newCheckpoint
  cachedDisconnected : after.cachedDisconnected = before.cachedDisconnected
  inStep : DisconnectedInStep before → DisconnectedInStep after
  siblingsInStep : SiblingsInStep before → SiblingsInStep after
  siblings : ∀ hash, hash ∈ after.cachedSiblings ↔ hash ∈ before.cachedSiblings ∧ hash ≠ new.parentHash
  view : ∀ hash, hash ≠ new.hash → view after hash = view before hash

theorem prepared_of_loaded {update loaded : UpdateTransaction Work} (new : NewHeader Work)
    (load : Loaded (update.write new.header) loaded) :
    Prepared new update
      (if loaded.effectiveIsSibling new.parentHash then loaded.removeSibling new.parentHash else loaded) := by
  have chain := (sameChain_write update new.header).trans load.sameChain
  have cached : loaded.cachedDisconnected = update.cachedDisconnected := load.cachedDisconnected
  have views : ∀ hash, hash ≠ new.hash → view loaded hash = view update hash := by
    intro hash other
    rw [load.view, view_write_new update new hash other]
  have inStep : DisconnectedInStep update → DisconnectedInStep loaded :=
    fun before => load.disconnectedInStep ⟨before.cached, before.known, before.fresh⟩
  have siblings : SiblingsInStep update → SiblingsInStep loaded := by
    intro before hash
    rw [chain.cachedSiblings, chain.db, chain.addSib, chain.deleteSib]
    exact before hash
  split
  · refine ⟨chain.db, chain.best, chain.haveReorg, chain.reorgFrom, chain.haveCheckpoint, chain.newCheckpoint, cached,
      ?_, ?_, ?_, views⟩
    · exact fun before => (sameTree_removeSibling loaded _).disconnectedInStep (inStep before)
    · exact fun before => removeSibling_inStep loaded new.parentHash (siblings before)
    · intro hash
      rw [← chain.cachedSiblings]
      exact SortedList.mem_remove _ _ _
  · rename_i absent
    refine ⟨chain.db, chain.best, chain.haveReorg, chain.reorgFrom, chain.haveCheckpoint, chain.newCheckpoint, cached,
      inStep, siblings, ?_, views⟩
    intro hash
    rw [← chain.cachedSiblings]
    constructor
    · intro inSet
      refine ⟨inSet, ?_⟩
      intro same
      apply absent
      unfold UpdateTransaction.effectiveIsSibling
      rw [← same]
      exact decide_eq_true inSet
    · exact And.left

theorem Prepared.effectiveBestBlock {new : NewHeader Work} {before after : UpdateTransaction Work}
    (prepared : Prepared new before after) (height : Int) :
    after.effectiveBestBlock height = before.effectiveBestBlock height := by
  unfold UpdateTransaction.effectiveBestBlock
  rw [prepared.best, prepared.db]

theorem Prepared.checkpoint {new : NewHeader Work} {before after : UpdateTransaction Work}
    (prepared : Prepared new before after) : after.checkpoint = before.checkpoint := by
  unfold UpdateTransaction.checkpoint
  rw [prepared.haveCheckpoint, prepared.newCheckpoint, prepared.db]

/-- What the connecting of a header leaves: a joined tree and one candidate for each leaf. -/
structure Begun (new : NewHeader Work) (parent base : Header Work) (hashes : List Hash) (paths : List (List Hash))
    (created : List Candidate) (before middle after : UpdateTransaction Work) : Prop where
  joined : Joined new parent before after
  chain : SameChain middle after
  walked : WalkedBack (view before) (offBestChain before) parent base hashes
  branches : Branches (waitingFor before.cachedDisconnected) new.hash paths
  chains : created.map Candidate.chain =
    paths.map fun rest => chainFrom base (hashes = []) (hashes ++ new.hash :: rest)
  flags : ∀ colour, (∀ hash header, Joins before new hash → view after hash = some header →
    header.isBlacklisted = colour) → ∀ next ∈ created, next.blacklisted = colour
  staged : ∀ hash, Joins before new hash → after.headers hash ≠ none

theorem ready_of_forest {before after : UpdateTransaction Work} {new : NewHeader Work}
    (forest : Forest genesis (view before) before.cachedDisconnected) (fresh : view before new.hash = none)
    (cached : after.cachedDisconnected = before.cachedDisconnected)
    (views : ∀ hash, hash ≠ new.hash → view after hash = view before hash) :
    Ready (waitingFor before.cachedDisconnected) new.hash after where
  unique := forest.unique
  nodup := waitingFor_nodup forest.nodup
  subset := by
    rw [cached]
    exact fun _ _ => id
  waiting := by
    rw [cached]
    exact fun _ _ => rfl
  stored := by
    intro parent child _ member
    obtain ⟨header, found, _, under⟩ := forest.waits parent child ((mem_waitingFor _ _ _).mp member)
    refine ⟨header, ?_, forest.hash child header found, under⟩
    rw [views child]
    · exact found
    · intro same
      rw [same, fresh] at found
      cases found

theorem candidate_follows (base parent : Header Work) (hashes : List Hash)
    (height : parent.height = base.height + hashes.length) :
    ((if hashes = [] then [base.position] else numbered (base.height + 1) hashes).getLast?.map
      fun last => last.height + 1) = some (parent.height + 1) := by
  rcases List.eq_nil_or_concat hashes with rfl | ⟨front, last, rfl⟩
  · simp [Header.position, height]
  · rw [List.concat_eq_append, if_neg (by simp), numbered_append]
    simp only [numbered, List.getLast?_append, List.getLast?_singleton, Option.some_or, Option.map_some]
    congr 1
    rw [height, List.concat_eq_append, List.length_append, List.length_singleton]
    omega

theorem chainFrom_append (base : Header Work) (hashes : List Hash) (line : List Hash) (height : Int)
    (next : height = base.height + 1 + hashes.length) :
    (if hashes = [] then [base.position] else numbered (base.height + 1) hashes) ++ numbered height line =
      chainFrom base (hashes = []) (hashes ++ line) := by
  unfold chainFrom
  rw [numbered_append, next]
  by_cases empty : hashes = []
  · simp [empty, numbered]
  · simp [empty]

theorem begun_of_grown {before middle loaded after : UpdateTransaction Work} {new : NewHeader Work}
    {parent base : Header Work} {hashes : List Hash} {paths : List (List Hash)} {created : List Candidate}
    (joinable : Joinable genesis before new parent) (prepared : Prepared new before middle)
    (acyclic : ∀ next ∈ waitingFor before.cachedDisconnected new.hash,
      ¬ Descendant (waitingFor before.cachedDisconnected) next new.hash)
    (load : Loaded (middle.write (Header.under before.checkpoint parent new.header)) loaded)
    (walked : WalkedBack (view before) (offBestChain before) parent base hashes)
    (grown : Grown (waitingFor before.cachedDisconnected) (Header.under before.checkpoint parent new.header)
      ⟨(Header.under before.checkpoint parent new.header).isBlacklisted,
        if hashes = [] then [base.position] else numbered (base.height + 1) hashes⟩ loaded after paths created) :
    Begun new parent base hashes paths created before middle after := by
  have connection := grown.connection
  have branches := grown.branches
  rw [under_hash] at connection branches
  have named : new.header.hash = new.hash := rfl
  rw [named] at connection branches
  have views : ∀ hash, hash ≠ new.hash → view loaded hash = view before hash := by
    intro hash other
    rw [load.view, view_write, if_neg (by rw [under_hash]; exact other), prepared.view hash other]
  have topLoaded : view loaded new.hash = some (Header.under before.checkpoint parent new.header) := by
    rw [load.view, view_write, if_pos (by rw [under_hash]; rfl)]
  have cached : loaded.cachedDisconnected = before.cachedDisconnected :=
    load.cachedDisconnected.trans prepared.cachedDisconnected
  have notTop : ¬ Strict (waitingFor before.cachedDisconnected) new.hash new.hash := by
    intro ⟨next, member, below⟩
    exact acyclic next member below
  have strictOther : ∀ hash, Strict (waitingFor before.cachedDisconnected) new.hash hash → hash ≠ new.hash := by
    intro hash strict same
    exact notTop (same ▸ strict)
  have chain : SameChain middle after := ((sameChain_write middle _).trans load.sameChain).trans connection.chain
  have top : view after new.hash = some (Header.under before.checkpoint parent new.header) :=
    (connection.others new.hash notTop).trans topLoaded
  have joined : Joined new parent before after := by
    constructor
    · exact chain.db.trans prepared.db
    · exact chain.haveCheckpoint.trans prepared.haveCheckpoint
    · exact chain.newCheckpoint.trans prepared.newCheckpoint
    · intro inStep
      have middleStep := prepared.inStep inStep
      exact connection.inStep (load.disconnectedInStep ⟨middleStep.cached, middleStep.known, middleStep.fresh⟩)
    · rw [← cached]
      exact connection.sublist
    · intro above child
      rw [connection.waiting, cached]
      apply and_congr_right
      intro member
      rw [not_iff_not]
      constructor
      · exact fun strict => (descendant_iff _ _).mpr (Or.inr strict)
      · intro below
        apply ((descendant_iff _ _).mp below).resolve_left
        intro same
        obtain ⟨header, found, _⟩ := joinable.forest.waits above child ((mem_waitingFor _ _ _).mp member)
        rw [same, joinable.fresh] at found
        cases found
    · intro hash other
      have notStrict : ¬ Strict (waitingFor before.cachedDisconnected) new.hash hash :=
        fun strict => other ((descendant_iff _ _).mpr (Or.inr strict))
      rw [connection.others hash notStrict]
      apply views
      intro same
      exact other (same ▸ Descendant.top)
    · exact top
    · intro hash strict
      obtain ⟨above, child, found, _, foundAbove, foundAfter⟩ := connection.linked hash strict
      rw [views hash (strictOther hash strict)] at found
      have checkpoint : loaded.checkpoint = before.checkpoint := by
        unfold UpdateTransaction.checkpoint
        rw [← connection.chain.haveCheckpoint, ← connection.chain.newCheckpoint, ← connection.chain.db,
          chain.haveCheckpoint, chain.newCheckpoint, chain.db, prepared.haveCheckpoint, prepared.newCheckpoint,
          prepared.db]
      rw [checkpoint] at foundAfter
      exact ⟨above, child, found, foundAbove, foundAfter⟩
  refine ⟨joined, chain, walked, branches, ?_, ?_, ?_⟩
  · rw [grown.chains]
    apply List.map_congr_left
    intro rest _
    rw [under_hash]
    apply chainFrom_append
    rw [under_height, walked.height]
    omega
  · intro colour all
    apply grown.flags colour (all new.hash _ Descendant.top top)
    intro hash header strict found
    rw [under_hash] at strict
    exact all hash header ((descendant_iff _ _).mpr (Or.inr strict)) found
  · intro hash below
    rcases (descendant_iff _ _).mp below with rfl | strict
    · apply connection.staged
      apply load.staged
      unfold UpdateTransaction.write
      rw [under_hash]
      simp [named]
    · exact connection.connected hash strict

theorem connectHeader_begun {before middle : UpdateTransaction Work} {new : NewHeader Work} {parent : Header Work}
    (joinable : Joinable genesis before new parent) (prepared : Prepared new before middle)
    (narrow : Narrow (waitingFor before.cachedDisconnected) true new.hash)
    (origin : before.effectiveBestBlock 0 = genesis.hash) :
    ∃ base hashes paths created after, connectHeader parent new.header middle = .ok (created, after) ∧
      Begun new parent base hashes paths created before middle after := by
  have forest := joinable.forest
  have foundParent : view before parent.hash = some parent := by
    rw [joinable.named]
    exact joinable.above
  have known : ∀ hash header, view before hash = some header → hash ≠ new.hash := by
    intro hash header found same
    rw [same, joinable.fresh] at found
    cases found
  have written : ∀ hash, hash ≠ new.hash →
      view (middle.write (Header.under middle.checkpoint parent new.header)) hash = view before hash := by
    intro hash other
    rw [view_write, if_neg (by rw [under_hash]; exact other), prepared.view hash other]
  have sameRun : offBestChain (middle.write (Header.under middle.checkpoint parent new.header)) = offBestChain before := by
    funext position
    unfold offBestChain
    rw [(sameChain_write middle _).effectiveBestBlock, prepared.effectiveBestBlock]
  have covers : ∀ hash header, view before hash = some header → header.isDisconnected = false →
      view (middle.write (Header.under middle.checkpoint parent new.header)) hash = some header := by
    intro hash header found _
    rw [written hash (known hash header found)]
    exact found
  have stops : offBestChain (middle.write (Header.under middle.checkpoint parent new.header))
      genesis.header.position = false := by
    rw [sameRun]
    simp [offBestChain, Header.position, Genesis.header, origin]
  obtain ⟨base, hashes, loaded, initialized, load, walked⟩ := initializeCandidate_walked forest.toRooted
    stable_offBestChain forest.origin (forest.genesis_ancestor _ parent foundParent joinable.attached)
    joinable.named.symm foundParent joinable.attached covers stops
  rw [sameRun] at walked
  have views : ∀ hash, hash ≠ new.hash → view loaded hash = view before hash :=
    fun hash other => (load.view hash).trans (written hash other)
  have cached : loaded.cachedDisconnected = before.cachedDisconnected :=
    load.cachedDisconnected.trans prepared.cachedDisconnected
  have top : view loaded new.hash = some (Header.under middle.checkpoint parent new.header) := by
    rw [load.view, view_write, if_pos (by rw [under_hash]; rfl)]
  have ready := ready_of_forest forest joinable.fresh cached views
  obtain ⟨paths, created, after, connected, grown, _⟩ := connectChildren_grown narrow
    (loaded.cachedDisconnected.length + 1) (Header.under middle.checkpoint parent new.header) []
    ⟨(Header.under middle.checkpoint parent new.header).isBlacklisted,
      if hashes = [] then [base.position] else numbered (base.height + 1) hashes⟩ loaded (under_hash _ _ _) top
    (by rw [under_height]; exact candidate_follows base parent hashes walked.height) ready (Nat.lt_succ_self _)
  refine ⟨base, hashes, paths, created, after, ?_, ?_⟩
  · unfold connectHeader
    rw [initialized]
    exact connected
  · rw [prepared.checkpoint] at load grown
    exact begun_of_grown joinable prepared narrow.acyclic load walked grown

/-- The blocks of a candidate hang together, from where it left the best chain to its tip. -/
theorem Begun.lineage {before middle after : UpdateTransaction Work} {new : NewHeader Work} {parent base : Header Work}
    {hashes : List Hash} {paths : List (List Hash)} {created : List Candidate}
    (begun : Begun new parent base hashes paths created before middle after)
    (joinable : Joinable genesis before new parent) (rest : List Hash) (member : rest ∈ paths) :
    Lineage (view after) base.hash (hashes ++ new.hash :: rest) := by
  rw [lineage_append]
  constructor
  · apply lineage_congr _ begun.walked.lineage
    intro hash inHashes
    exact begun.joined.attached_same joinable hash (lineage_attached begun.walked.lineage hash inHashes)
  · constructor
    · rw [begun.walked.last, joinable.named]
      exact ⟨_, begun.joined.top, under_attached _ _ _ joinable.attached, under_parentHash _ _ _⟩
    · exact begun.joined.lineage joinable (begun.branches.path rest member) Descendant.top

/-! ## The new best chain -/

/-- No candidate was better: the new leaves are siblings. -/
structure Kept (new : NewHeader Work) (paths : List (List Hash)) (before after : UpdateTransaction Work) : Prop where
  best : after.best = before.best
  haveReorg : after.haveReorg = before.haveReorg
  reorgFrom : after.reorgFrom = before.reorgFrom
  siblings : ∀ hash, hash ∈ after.cachedSiblings ↔ (∃ rest ∈ paths, hash = rest.getLastD new.hash) ∨
    hash ∈ before.cachedSiblings ∧ hash ≠ new.parentHash

/-- The candidate that ends with `rest` is the best chain now, the other new leaves are siblings. -/
structure Chosen (new : NewHeader Work) (current base best : Header Work) (hashes : List Hash)
    (paths : List (List Hash)) (rest : List Hash) (before after : UpdateTransaction Work) : Prop where
  tip : view after (rest.getLastD new.hash) = some best
  more : current.totalWork < best.totalWork
  taken : Taken current.height base (hashes ++ new.hash :: rest) before after
  siblings : base.height ≤ current.height → ∀ hash, hash ∈ after.cachedSiblings ↔
    (∃ other ∈ paths, hash = other.getLastD new.hash) ∧ hash ≠ rest.getLastD new.hash ∨
    (hash ∈ before.cachedSiblings ∧ hash ≠ new.parentHash ∧ hash ∉ hashes ++ new.hash :: rest) ∨
    base.height < current.height ∧ hash = current.hash

/-- Everything that follows from adding a header with an attached parent. -/
structure Accepted (new : NewHeader Work) (parent current base best : Header Work) (hashes : List Hash)
    (paths : List (List Hash)) (before after : UpdateTransaction Work) : Prop where
  joined : Joined new parent before after
  siblingsInStep : SiblingsInStep before → SiblingsInStep after
  walked : WalkedBack (view before) (offBestChain before) parent base hashes
  branches : Branches (waitingFor before.cachedDisconnected) new.hash paths
  lineage : ∀ rest ∈ paths, Lineage (view after) base.hash (hashes ++ new.hash :: rest)
  colour : ∀ colour, (∀ hash header, Joins before new hash → view after hash = some header →
    header.isBlacklisted = colour) → (colour = true → best = current) ∧
    (colour = false → ∀ rest ∈ paths, ∀ tip, view after (rest.getLastD new.hash) = some tip →
      tip.totalWork ≤ best.totalWork)
  outcome : best = current ∧ Kept new paths before after ∨
    ∃ rest ∈ paths, Chosen new current base best hashes paths rest before after

theorem map_transfer {α β γ δ : Type} {f : α → γ} {g : β → γ} {p : α → δ} {q : β → δ} (items : List α)
    (others : List β) (same : items.map f = others.map g)
    (step : ∀ item ∈ items, ∀ other ∈ others, f item = g other → p item = q other) : items.map p = others.map q := by
  induction items generalizing others with
  | nil =>
    cases others with
    | nil => rfl
    | cons other others => cases same
  | cons item items ih =>
    cases others with
    | nil => cases same
    | cons other others =>
      rw [List.map_cons, List.map_cons, List.cons.injEq] at same
      rw [List.map_cons, List.map_cons, step item List.mem_cons_self other List.mem_cons_self same.1,
        ih others same.2 fun next member last inLast =>
          step next (List.mem_cons_of_mem item member) last (List.mem_cons_of_mem other inLast)]

theorem candidateTip_of_last (update : UpdateTransaction Work) (candidate : Candidate) (hash : Hash)
    (header : Header Work) (last : (candidate.chain.map Position.hash).getLast? = some hash)
    (staged : update.headers hash = some header) : candidateTip update candidate = .ok header := by
  unfold candidateTip
  rw [List.getLast?_map] at last
  cases found : candidate.chain.getLast? with
  | none =>
    rw [found] at last
    cases last
  | some position =>
    rw [found, Option.map_some, Option.some.injEq] at last
    simp only [UpdateTransaction.header, last, staged]

theorem last_of_line (base : Header Work) (lead : Bool) (hashes : List Hash) (top : Hash) (rest : List Hash) :
    ((chainFrom base lead (hashes ++ top :: rest)).map Position.hash).getLast? = some (rest.getLastD top) := by
  unfold chainFrom
  rw [List.map_append, map_hash_numbered, List.getLast?_append, List.getLast?_append]
  have last : (top :: rest).getLast? = some (rest.getLastD top) := by
    rw [List.getLast?_cons, List.getLastD_eq_getLast?]
  rw [last]
  rfl

/-- The header at the end of a path. -/
def endOf (update : UpdateTransaction Work) (new : NewHeader Work) (fallback : Header Work) (rest : List Hash) :
    Header Work :=
  (view update (rest.getLastD new.hash)).getD fallback

section Begun

variable {before middle after : UpdateTransaction Work} {new : NewHeader Work} {parent base current : Header Work}
  {hashes : List Hash} {paths : List (List Hash)} {created : List Candidate}

theorem Begun.end (current : Header Work) (begun : Begun new parent base hashes paths created before middle after)
    (joinable : Joinable genesis before new parent) (rest : List Hash) (member : rest ∈ paths) :
    view after (rest.getLastD new.hash) = some (endOf after new current rest) ∧
      (endOf after new current rest).hash = rest.getLastD new.hash ∧ Joins before new (rest.getLastD new.hash) := by
  have joins : Joins before new (rest.getLastD new.hash) := (begun.branches.path rest member).last_descendant
  obtain ⟨header, _, found, named, _⟩ := begun.joined.node joinable _ joins
  unfold endOf
  rw [found]
  exact ⟨rfl, named, joins⟩

theorem Begun.tips (begun : Begun new parent base hashes paths created before middle after)
    (joinable : Joinable genesis before new parent) (current : Header Work) {candidates : List Candidate}
    {ends : List (List Hash)} (inPaths : ∀ rest ∈ ends, rest ∈ paths)
    (chains : candidates.map Candidate.chain =
      ends.map fun rest => chainFrom base (hashes = []) (hashes ++ new.hash :: rest)) :
    candidates.map (candidateTip after) = (ends.map (endOf after new current)).map Except.ok := by
  rw [List.map_map]
  apply map_transfer candidates ends chains
  intro candidate _ rest member same
  obtain ⟨found, _, joins⟩ := begun.end current joinable rest (inPaths rest member)
  apply candidateTip_of_last after candidate (rest.getLastD new.hash)
  · rw [same]
    exact last_of_line base _ hashes new.hash rest
  · rw [view_eq_of_staged after _ (begun.staged _ joins)]
    exact found

theorem Begun.ends (begun : Begun new parent base hashes paths created before middle after)
    (joinable : Joinable genesis before new parent) {ends : List (List Hash)} (inPaths : ∀ rest ∈ ends, rest ∈ paths)
    (hash : Hash) : hash ∈ (ends.map (endOf after new current)).map Header.hash ↔
      ∃ rest ∈ ends, hash = rest.getLastD new.hash := by
  rw [List.map_map, List.mem_map]
  constructor
  · intro ⟨rest, member, equal⟩
    exact ⟨rest, member, equal.symm.trans (begun.end current joinable rest (inPaths rest member)).2.1⟩
  · intro ⟨rest, member, equal⟩
    exact ⟨rest, member, (begun.end current joinable rest (inPaths rest member)).2.1.trans equal.symm⟩

/-- Colours and works of the candidates, once one of them was picked. -/
theorem Begun.colour (begun : Begun new parent base hashes paths created before middle after)
    (joinable : Joinable genesis before new parent) {best : Header Work}
    (picked : Picked after current created best) (colour : Bool)
    (all : ∀ hash header, Joins before new hash → view after hash = some header → header.isBlacklisted = colour) :
    (colour = true → best = current) ∧ (colour = false → ∀ rest ∈ paths, ∀ tip,
      view after (rest.getLastD new.hash) = some tip → tip.totalWork ≤ best.totalWork) := by
  have flags := begun.flags colour all
  constructor
  · intro banned
    rcases picked.origin with same | ⟨_, candidate, member, allowed, _⟩
    · exact same
    · rw [flags candidate member, banned] at allowed
      cases allowed
  · intro allowed rest member tip found
    have inTips : Except.ok (endOf after new current rest) ∈ created.map (candidateTip after) := by
      rw [begun.tips joinable current (fun _ => id) begun.chains]
      exact List.mem_map_of_mem (List.mem_map_of_mem member)
    obtain ⟨candidate, inCreated, isTip⟩ := List.mem_map.mp inTips
    have same : endOf after new current rest = tip := by
      unfold endOf
      rw [found]
      rfl
    rw [same] at isTip
    exact picked.greatest candidate inCreated ((flags candidate inCreated).trans allowed) tip isTip

end Begun

theorem joined_sameTree {new : NewHeader Work} {parent : Header Work} {before middle after : UpdateTransaction Work}
    (joined : Joined new parent before middle) (tree : SameTree middle after) : Joined new parent before after where
  db := tree.db.trans joined.db
  haveCheckpoint := tree.haveCheckpoint.trans joined.haveCheckpoint
  newCheckpoint := tree.newCheckpoint.trans joined.newCheckpoint
  inStep := fun inStep => tree.disconnectedInStep (joined.inStep inStep)
  sublist := by
    rw [tree.cachedDisconnected]
    exact joined.sublist
  waiting := by
    rw [tree.cachedDisconnected]
    exact joined.waiting
  others := by
    rw [tree.view]
    exact joined.others
  top := by
    rw [tree.view]
    exact joined.top
  linked := by
    rw [tree.view]
    exact joined.linked

section Choose

variable {before middle after : UpdateTransaction Work} {new : NewHeader Work} {parent base current : Header Work}
  {hashes : List Hash} {paths : List (List Hash)} {created : List Candidate}

theorem current_not_joining (joinable : Joinable genesis before new parent) (tip : Tip before current) :
    ¬ Joins before new current.hash := fun below =>
  joinable.forest.not_attached new.hash joinable.fresh current.hash below ⟨current, tip.found, tip.attached⟩

/-- No candidate is better than the current tip. -/
theorem settle_kept (begun : Begun new parent base hashes paths created before middle after)
    (joinable : Joinable genesis before new parent) (prepared : Prepared new before middle) (tip : Tip before current)
    (picked : Picked after current created current) :
    ∃ settled, settleCandidates current current false created after = .ok (false, settled) ∧
      Accepted new parent current base current hashes paths before settled := by
  have tips := begun.tips joinable current (fun _ => id) begun.chains
  have others : ∀ header ∈ paths.map (endOf after new current), header.hash ≠ current.hash := by
    intro header member equal
    obtain ⟨rest, inPaths, rfl⟩ := List.mem_map.mp member
    obtain ⟨_, named, joins⟩ := begun.end current joinable rest inPaths
    rw [named] at equal
    exact current_not_joining joinable tip (equal ▸ joins)
  obtain ⟨tree, best, haveReorg, reorgFrom, siblings, inStep⟩ :=
    addSiblings_rest after (paths.map (endOf after new current))
  refine ⟨_, settle_others current current false created _ after tips others, ?_⟩
  constructor
  · exact joined_sameTree begun.joined tree
  · intro siblingsStep
    apply inStep
    intro hash
    rw [begun.chain.cachedSiblings, begun.chain.db, begun.chain.addSib, begun.chain.deleteSib]
    exact prepared.siblingsInStep siblingsStep hash
  · exact begun.walked
  · exact begun.branches
  · rw [tree.view]
    exact begun.lineage joinable
  · intro colour all
    rw [tree.view] at all ⊢
    exact begun.colour joinable picked colour all
  · refine Or.inl ⟨rfl, best.trans (begun.chain.best.trans prepared.best),
      haveReorg.trans (begun.chain.haveReorg.trans prepared.haveReorg),
      reorgFrom.trans (begun.chain.reorgFrom.trans prepared.reorgFrom), ?_⟩
    intro hash
    rw [siblings hash, begun.chain.cachedSiblings, prepared.siblings hash, begun.ends joinable fun _ => id]

/-- The tip is not on a line that leaves the best chain. -/
theorem current_not_in_line (walked : WalkedBack (view before) (offBestChain before) parent base hashes)
    (joinable : Joinable genesis before new parent) (tip : Tip before current) {rest : List Hash}
    (path : Path (waitingFor before.cachedDisconnected) new.hash rest) :
    current.hash ∉ hashes ++ new.hash :: rest := by
  intro member
  rcases List.mem_append.mp member with inHashes | inRest
  · obtain ⟨index, found⟩ := List.mem_iff_getElem?.mp inHashes
    obtain ⟨header, view, _, height⟩ := joinable.forest.lineage_height walked.found walked.lineage index _ found
    rw [tip.found] at view
    cases view
    have off := walked.passed _ (mem_numbered (base.height + 1) hashes index _ found)
    rw [← height] at off
    exact of_decide_eq_true off tip.row
  · exact current_not_joining joinable tip (path.descendant _ inRest)

/-- The first block of a line is not on the best chain. -/
theorem line_leaves (walked : WalkedBack (view before) (offBestChain before) parent base hashes)
    (fresh : view before new.hash = none)
    (rows : ∀ height, before.effectiveBestBlock height ≠ nullHash → view before (before.effectiveBestBlock height) ≠ none)
    (rest : List Hash) : ∃ first line, hashes ++ new.hash :: rest = first :: line ∧
      before.effectiveBestBlock (base.height + 1) ≠ first := by
  cases hashes with
  | nil =>
    refine ⟨new.hash, rest, rfl, ?_⟩
    intro same
    apply rows (base.height + 1)
    · rw [same]
      exact new.hash_ne_null
    · rw [same]
      exact fresh
  | cons first hashes =>
    refine ⟨first, hashes ++ new.hash :: rest, rfl, ?_⟩
    exact of_decide_eq_true (walked.passed ⟨base.height + 1, first⟩ List.mem_cons_self)

theorem split_paths (begun : Begun new parent base hashes paths created before middle after)
    {left right : List Candidate} {chosen : Candidate} (split : created = left ++ chosen :: right) :
    ∃ leftPaths rest rightPaths, paths = leftPaths ++ rest :: rightPaths ∧
      chosen.chain = chainFrom base (hashes = []) (hashes ++ new.hash :: rest) ∧
      left.map Candidate.chain = leftPaths.map (fun rest => chainFrom base (hashes = []) (hashes ++ new.hash :: rest)) ∧
      right.map Candidate.chain =
        rightPaths.map (fun rest => chainFrom base (hashes = []) (hashes ++ new.hash :: rest)) := by
  have chains := begun.chains
  rw [split, List.map_append, List.map_cons] at chains
  obtain ⟨leftPaths, others, rfl, leftSame, othersSame⟩ := List.map_eq_append_iff.mp chains.symm
  obtain ⟨rest, rightPaths, rfl, restSame, rightSame⟩ := List.map_eq_cons_iff.mp othersSame
  exact ⟨leftPaths, rest, rightPaths, rfl, restSame.symm, leftSame.symm, rightSame.symm⟩

/-- The leaves that were not picked are neither the picked one nor on its line. -/
theorem other_leaf (begun : Begun new parent base hashes paths created before middle after)
    (joinable : Joinable genesis before new parent) {leftPaths rightPaths : List (List Hash)} {rest other : List Hash}
    (split : paths = leftPaths ++ rest :: rightPaths) (member : other ∈ leftPaths ∨ other ∈ rightPaths) :
    other.getLastD new.hash ≠ rest.getLastD new.hash ∧ other.getLastD new.hash ∉ hashes ++ new.hash :: rest := by
  have inPaths : other ∈ paths := by
    rw [split]
    rcases member with left | right
    · exact List.mem_append_left _ left
    · exact List.mem_append_right _ (List.mem_cons_of_mem rest right)
  have restInPaths : rest ∈ paths := by simp [split]
  have different : other.getLastD new.hash ≠ rest.getLastD new.hash := by
    have distinct := begun.branches.distinct
    rw [split, List.map_append, List.map_cons, List.nodup_append] at distinct
    obtain ⟨_, rightDistinct, apart⟩ := distinct
    rcases member with left | right
    · exact apart _ (List.mem_map_of_mem left) _ List.mem_cons_self
    · intro same
      apply (List.nodup_cons.mp rightDistinct).1
      rw [← same]
      exact List.mem_map_of_mem (f := fun rest : List Hash => rest.getLastD new.hash) right
  refine ⟨different, ?_⟩
  intro inLine
  have joins : Joins before new (other.getLastD new.hash) := (begun.branches.path other inPaths).last_descendant
  rcases List.mem_append.mp inLine with inHashes | inRest
  · exact joinable.forest.not_attached new.hash joinable.fresh _ joins
      (lineage_attached begun.walked.lineage _ inHashes)
  · exact different ((begun.branches.path rest restInPaths).leaf_eq_last inRest (begun.branches.leaf other inPaths))

/-- Some candidate is better than the current tip. -/
theorem settle_chosen {best : Header Work} (begun : Begun new parent base hashes paths created before middle after)
    (joinable : Joinable genesis before new parent) (prepared : Prepared new before middle) (tip : Tip before current)
    (rows : ∀ height, before.effectiveBestBlock height ≠ nullHash → view before (before.effectiveBestBlock height) ≠ none)
    (picked : Picked after current created best) (more : current.totalWork < best.totalWork) {chosen : Candidate}
    (member : chosen ∈ created) (isTip : candidateTip after chosen = .ok best) :
    ∃ settled, settleCandidates current best false created after = .ok (true, settled) ∧
      Accepted new parent current base best hashes paths before settled := by
  obtain ⟨left, right, split⟩ := List.append_of_mem member
  obtain ⟨leftPaths, rest, rightPaths, pathsSplit, chosenChain, leftChains, rightChains⟩ := split_paths begun split
  have restInPaths : rest ∈ paths := by simp [pathsSplit]
  have inLeft : ∀ other ∈ leftPaths, other ∈ paths := by
    intro other inSome
    rw [pathsSplit]
    exact List.mem_append_left _ inSome
  have inRight : ∀ other ∈ rightPaths, other ∈ paths := by
    intro other inSome
    rw [pathsSplit]
    exact List.mem_append_right _ (List.mem_cons_of_mem rest inSome)
  obtain ⟨foundEnd, endNamed, endJoins⟩ := begun.end current joinable rest restInPaths
  have isEnd : endOf after new current rest = best := by
    have computed := candidateTip_of_last after chosen (rest.getLastD new.hash) (endOf after new current rest)
      (by rw [chosenChain]; exact last_of_line base _ hashes new.hash rest)
      (by rw [view_eq_of_staged after _ (begun.staged _ endJoins)]; exact foundEnd)
    rw [isTip] at computed
    exact (Except.ok.inj computed).symm
  rw [isEnd] at foundEnd endNamed
  have namedEnd : ∀ other ∈ paths, (endOf after new current other).hash = other.getLastD new.hash :=
    fun other inSome => (begun.end current joinable other inSome).2.1
  have othersLeft : ∀ header ∈ leftPaths.map (endOf after new current), header.hash ≠ best.hash := by
    intro header inSome
    obtain ⟨other, inPaths, rfl⟩ := List.mem_map.mp inSome
    rw [namedEnd other (inLeft other inPaths), endNamed]
    exact (other_leaf begun joinable pathsSplit (Or.inl inPaths)).1
  have othersRight : ∀ header ∈ rightPaths.map (endOf after new current), header.hash ≠ best.hash := by
    intro header inSome
    obtain ⟨other, inPaths, rfl⟩ := List.mem_map.mp inSome
    rw [namedEnd other (inRight other inPaths), endNamed]
    exact (other_leaf begun joinable pathsSplit (Or.inr inPaths)).1
  have settling := settle_picked current best false left right chosen _ _ after
    (begun.tips joinable current inLeft leftChains) (begun.tips joinable current inRight rightChains) isTip othersLeft
    othersRight
  rw [← split, chosenChain] at settling
  obtain ⟨leftTree, leftBest, leftReorg, leftFrom, leftSiblings, leftStep⟩ :=
    addSiblings_rest after (leftPaths.map (endOf after new current))
  have sameStart : SameBest before (addSiblings after (leftPaths.map (endOf after new current))) :=
    ⟨leftTree.db.trans (begun.chain.db.trans prepared.db), leftBest.trans (begun.chain.best.trans prepared.best),
      leftReorg.trans (begun.chain.haveReorg.trans prepared.haveReorg),
      leftFrom.trans (begun.chain.reorgFrom.trans prepared.reorgFrom)⟩
  obtain ⟨first, line, lineSplit, leaves⟩ := line_leaves begun.walked joinable.fresh rows rest
  have onChain : before.effectiveBestBlock base.height = base.hash :=
    not_not.mp (of_decide_eq_false begun.walked.stops)
  have adopted := adoptChain_adopted current base (decide (hashes = [])) first line
    (addSiblings after (leftPaths.map (endOf after new current)))
    (by rw [sameStart.best]; exact tip.keys) (by rw [sameStart.effectiveBestBlock]; exact onChain)
    (by rw [sameStart.effectiveBestBlock]; exact fun _ => leaves)
    (by
      rw [← lineSplit]
      exact current_not_in_line begun.walked joinable tip (begun.branches.path rest restInPaths))
  rw [← lineSplit] at adopted
  obtain ⟨rightTree, rightBest, rightReorg, rightFrom, rightSiblings, rightStep⟩ :=
    addSiblings_rest (adoptChain current false (chainFrom base (decide (hashes = [])) (hashes ++ new.hash :: rest))
      (addSiblings after (leftPaths.map (endOf after new current)))) (rightPaths.map (endOf after new current))
  have tree := leftTree.trans (adopted.tree.trans rightTree)
  refine ⟨_, settling, ?_⟩
  constructor
  · exact joined_sameTree begun.joined tree
  · intro siblingsStep
    apply rightStep
    apply adopted.inStep
    apply leftStep
    intro hash
    rw [begun.chain.cachedSiblings, begun.chain.db, begun.chain.addSib, begun.chain.deleteSib]
    exact prepared.siblingsInStep siblingsStep hash
  · exact begun.walked
  · exact begun.branches
  · rw [tree.view]
    exact begun.lineage joinable
  · intro colour all
    rw [tree.view] at all ⊢
    exact begun.colour joinable picked colour all
  · refine Or.inr ⟨rest, restInPaths, ?_, more, ?_, ?_⟩
    · rw [tree.view]
      exact foundEnd
    · exact adopted.toTaken.congr sameStart ⟨rightTree.db, rightBest, rightReorg, rightFrom⟩
    · intro within hash
      rw [rightSiblings hash, adopted.siblings within hash, leftSiblings hash, begun.chain.cachedSiblings,
        prepared.siblings hash, begun.ends joinable inLeft, begun.ends joinable inRight, pathsSplit]
      have apart : ∀ other, other ∈ leftPaths ∨ other ∈ rightPaths → other.getLastD new.hash ≠ rest.getLastD new.hash ∧
          other.getLastD new.hash ∉ hashes ++ new.hash :: rest :=
        fun _ inSome => other_leaf begun joinable pathsSplit inSome
      constructor
      · intro member
        rcases member with ⟨other, inSome, rfl⟩ | ⟨⟨other, inSome, rfl⟩ | ⟨inSet, notParent⟩, notInLine⟩ | forks
        · exact Or.inl ⟨⟨other, by simp [inSome], rfl⟩, (apart other (Or.inr inSome)).1⟩
        · exact Or.inl ⟨⟨other, by simp [inSome], rfl⟩, (apart other (Or.inl inSome)).1⟩
        · exact Or.inr (Or.inl ⟨inSet, notParent, notInLine⟩)
        · exact Or.inr (Or.inr forks)
      · intro member
        rcases member with ⟨⟨other, inSome, rfl⟩, notEnd⟩ | ⟨inSet, notParent, notInLine⟩ | forks
        · rcases List.mem_append.mp inSome with inLeftPaths | inRest
          · exact Or.inr (Or.inl ⟨Or.inl ⟨other, inLeftPaths, rfl⟩, (apart other (Or.inl inLeftPaths)).2⟩)
          · rcases List.mem_cons.mp inRest with rfl | inRightPaths
            · exact absurd rfl notEnd
            · exact Or.inl ⟨other, inRightPaths, rfl⟩
        · exact Or.inr (Or.inl ⟨Or.inr ⟨inSet, notParent⟩, notInLine⟩)
        · exact Or.inr (Or.inr forks)

theorem chooseCandidate_accepted (begun : Begun new parent base hashes paths created before middle after)
    (joinable : Joinable genesis before new parent) (prepared : Prepared new before middle) (tip : Tip before current)
    (rows : ∀ height, before.effectiveBestBlock height ≠ nullHash → view before (before.effectiveBestBlock height) ≠ none) :
    ∃ best found settled, chooseCandidate current created after = .ok (true, found, settled) ∧
      Accepted new parent current base best hashes paths before settled := by
  have tips : ∀ candidate ∈ created, ∃ end', candidateTip after candidate = .ok end' := by
    intro candidate member
    have mapped : candidateTip after candidate ∈ (paths.map (endOf after new current)).map Except.ok := by
      rw [← begun.tips joinable current (fun _ => id) begun.chains]
      exact List.mem_map_of_mem member
    obtain ⟨header, _, equal⟩ := List.mem_map.mp mapped
    exact ⟨header, equal.symm⟩
  obtain ⟨best, picking, picked⟩ := pickBest_picked after created tips current
  unfold chooseCandidate
  simp only [picking, bind, Except.bind]
  rcases picked.origin with rfl | ⟨more, candidate, member, _, isTip⟩
  · obtain ⟨settled, settling, accepted⟩ := settle_kept begun joinable prepared tip picked
    rw [settling]
    exact ⟨_, false, settled, rfl, accepted⟩
  · obtain ⟨settled, settling, accepted⟩ := settle_chosen begun joinable prepared tip rows picked more member isTip
    rw [settling]
    exact ⟨best, true, settled, rfl, accepted⟩

end Choose

theorem addHeader_accepted {before : UpdateTransaction Work} {new : NewHeader Work} {parent current : Header Work}
    (joinable : Joinable genesis before new parent) (tip : Tip before current)
    (narrow : Narrow (waitingFor before.cachedDisconnected) true new.hash)
    (origin : before.effectiveBestBlock 0 = genesis.hash)
    (rows : ∀ height, before.effectiveBestBlock height ≠ nullHash →
      view before (before.effectiveBestBlock height) ≠ none) :
    ∃ base best hashes paths after, addHeader before new = .ok (true, after) ∧
      Accepted new parent current base best hashes paths before after := by
  have tipOther : current.hash ≠ new.hash := by
    intro same
    have found := tip.found
    rw [same, joinable.fresh] at found
    cases found
  have tipWritten : Tip (before.write new.header) current :=
    tip.transfer (sameChain_write _ _) ((view_write_new before new _ tipOther).trans tip.found)
  obtain ⟨loaded, staging, load⟩ := stageBest_tip tipWritten
  have parentView : view loaded new.parentHash = some parent := by
    rw [load.view, view_write_new before new _ new.parent_ne_hash]
    exact joinable.above
  obtain ⟨further, parting, loadParent⟩ := isDisconnected_attached parentView joinable.named joinable.attached
  have prepared := prepared_of_loaded new (load.trans loadParent)
  obtain ⟨base, hashes, paths, created, after, connecting, begun⟩ := connectHeader_begun joinable prepared narrow origin
  obtain ⟨best, found, settled, choosing, accepted⟩ := chooseCandidate_accepted begun joinable prepared tip rows
  refine ⟨base, best, hashes, paths, settled, ?_, accepted⟩
  unfold addHeader
  rw [if_neg (by simp [effectiveHeaderExists_iff, joinable.fresh]), staging]
  simp only [bind, Except.bind]
  rw [parting]
  simp only
  rw [connecting]
  simp only [choosing]

/-- The blocks of a line end at the tip of its candidate. -/
theorem line_height {headers : Hash → Option (Header Work)} (rooted : Rooted genesis headers) {base best : Header Work}
    {hashes rest : List Hash} {top : Hash} (found : headers base.hash = some base)
    (lineage : Lineage headers base.hash (hashes ++ top :: rest)) (end' : headers (rest.getLastD top) = some best) :
    best.height = base.height + (hashes ++ top :: rest).length ∧ best.isDisconnected = false ∧
      (hashes ++ top :: rest)[(hashes ++ top :: rest).length - 1]? = some (rest.getLastD top) := by
  have last : (hashes ++ top :: rest)[(hashes ++ top :: rest).length - 1]? = some (rest.getLastD top) := by
    rw [← List.getLast?_eq_getElem?, List.getLast?_append, List.getLast?_cons, List.getLastD_eq_getLast?]
    rfl
  obtain ⟨header, foundLast, attached, height⟩ := rooted.lineage_height found lineage _ _ last
  rw [end'] at foundLast
  cases foundLast
  refine ⟨?_, attached, last⟩
  rw [height]
  simp only [List.length_append, List.length_cons]
  omega

section Accepted

variable {before after : UpdateTransaction Work} {current parent base best : Header Work} {new : NewHeader Work}
  {hashes : List Hash} {paths : List (List Hash)}

theorem Accepted.attached (accepted : Accepted new parent current base best hashes paths before after)
    (joinable : Joinable genesis before new parent) (hash : Hash) (attached : Attached (view before) hash) :
    Attached (view after) hash :=
  (accepted.joined.attached_iff joinable hash).mpr (Or.inl attached)

theorem Accepted.base_found (accepted : Accepted new parent current base best hashes paths before after)
    (joinable : Joinable genesis before new parent) : view after base.hash = some base := by
  rw [accepted.joined.attached_same joinable]
  · exact accepted.walked.found
  · exact ⟨base, accepted.walked.found, accepted.walked.attached⟩

theorem Accepted.base_height (accepted : Accepted new parent current base best hashes paths before after)
    (joinable : Joinable genesis before new parent) : 0 ≤ base.height :=
  joinable.forest.height _ base accepted.walked.found accepted.walked.attached

/-- The block that was picked is the end of its line. -/
theorem Chosen.end {rest : List Hash} (chosen : Chosen new current base best hashes paths rest before after)
    (accepted : Accepted new parent current base best hashes paths before after)
    (joinable : Joinable genesis before new parent) (member : rest ∈ paths) :
    best.hash = rest.getLastD new.hash ∧ best.isDisconnected = false ∧
      best.height = base.height + (hashes ++ new.hash :: rest).length ∧
      after.best.last? = some (best.height, best.hash) := by
  have rooted := accepted.joined.rooted joinable
  have named := rooted.hash _ best chosen.tip
  obtain ⟨height, attached, last⟩ := line_height rooted (accepted.base_found joinable) (accepted.lineage rest member)
    chosen.tip
  refine ⟨named, attached, height, ?_⟩
  rw [named, height]
  exact chosen.taken.last _ last

end Accepted

end Opentxs.HeaderOracle.AddHeader
