import Opentxs.HeaderOracle.Connect

/-! Walking back from a new block to the best chain, picking the candidate with the most
work, and making its chain the best one. -/

namespace Opentxs.HeaderOracle.Choose
open Library BlockHeader Storage Update Shared HeaderTree Frame
set_option linter.unusedSectionVars false

variable {Work : Type} [AddCommMonoid Work] [LinearOrder Work]

/-! ## Walking back -/

/-- The walk's test does not depend on which headers were loaded. -/
def Stable (run : UpdateTransaction Work → Position → Bool) : Prop :=
  ∀ before after, Loaded before after → run after = run before

theorem stable_offBestChain : Stable (offBestChain : UpdateTransaction Work → Position → Bool) := by
  intro before after loaded
  funext position
  unfold offBestChain
  rw [loaded.sameChain.effectiveBestBlock]

/-- What a walk back from `start` finds: the block `base` where it stops, and the blocks in between. -/
structure WalkedBack (headers : Hash → Option (Header Work)) (passes : Position → Bool) (start base : Header Work)
    (hashes : List Hash) : Prop where
  found : headers base.hash = some base
  attached : base.isDisconnected = false
  stops : passes base.position = false
  lineage : Lineage headers base.hash hashes
  last : hashes.getLastD base.hash = start.hash
  height : start.height = base.height + hashes.length
  passed : ∀ position ∈ numbered (base.height + 1) hashes, passes position = true

theorem walkBack_stopped (run : UpdateTransaction Work → Position → Bool) (rounds : Nat) (start : Header Work)
    (chain : List Position) (update : UpdateTransaction Work) (stops : run update start.position = false)
    (enough : 0 < rounds) :
    walkBack run rounds start chain update = .ok (if chain = [] then [start.position] else chain, update) := by
  obtain ⟨fuel, rfl⟩ := Nat.exists_eq_succ_of_ne_zero (Nat.ne_of_gt enough)
  unfold walkBack
  rw [if_neg (by simp [stops])]

theorem walkedBack_here (headers : Hash → Option (Header Work)) (passes : Position → Bool) (start : Header Work)
    (found : headers start.hash = some start) (attached : start.isDisconnected = false)
    (stops : passes start.position = false) : WalkedBack headers passes start start [] where
  found := found
  attached := attached
  stops := stops
  lineage := trivial
  last := rfl
  height := by simp
  passed := by simp [numbered]

theorem walkedBack_step {headers : Hash → Option (Header Work)} {passes : Position → Bool}
    {header parent base : Header Work} {hashes : List Hash} (walked : WalkedBack headers passes parent base hashes)
    (found : headers header.hash = some header) (attached : header.isDisconnected = false)
    (named : parent.hash = header.parentHash) (position : header.position = ⟨base.height + 1 + hashes.length, header.hash⟩)
    (passing : passes header.position = true) : WalkedBack headers passes header base (hashes ++ [header.hash]) where
  found := walked.found
  attached := walked.attached
  stops := walked.stops
  lineage := by
    rw [lineage_append, walked.last]
    exact ⟨walked.lineage, ⟨header, found, attached, named.symm⟩, trivial⟩
  last := by simp
  height := by
    have same : header.height = base.height + 1 + hashes.length := congrArg Position.height position
    rw [List.length_append, List.length_singleton]
    omega
  passed := by
    intro segment member
    rw [numbered_append] at member
    rcases List.mem_append.mp member with earlier | final
    · exact walked.passed segment earlier
    · rw [numbered, numbered, List.mem_singleton] at final
      rw [final, ← position]
      exact passing

/-- A walk that stops at some ancestor finds the nearest one where it stops. -/
theorem walkBack_walked {genesis : Genesis Work} {headers : Hash → Option (Header Work)}
    (rooted : Rooted genesis headers) {run : UpdateTransaction Work → Position → Bool} (stable : Stable run)
    {stop hash : Hash} {last : Header Work} (foundLast : headers stop = some last)
    (ancestor : Ancestor headers stop hash) :
    ∀ (rounds : Nat) (start : Header Work) (chain : List Position) (update : UpdateTransaction Work),
      headers hash = some start → start.isDisconnected = false →
      (∀ next header, headers next = some header → header.isDisconnected = false → view update next = some header) →
      run update last.position = false → start.height < rounds →
      ∃ base hashes after,
        walkBack run rounds start chain update =
          .ok (if hashes = [] ∧ chain = [] then [base.position] else numbered (base.height + 1) hashes ++ chain, after) ∧
        Loaded update after ∧ WalkedBack headers (run update) start base hashes := by
  have here : ∀ (rounds : Nat) (start : Header Work) (chain : List Position) (update : UpdateTransaction Work)
      (hash : Hash), headers hash = some start → start.isDisconnected = false →
      run update start.position = false → start.height < rounds →
      ∃ base hashes after,
        walkBack run rounds start chain update =
          .ok (if hashes = [] ∧ chain = [] then [base.position] else numbered (base.height + 1) hashes ++ chain, after) ∧
        Loaded update after ∧ WalkedBack headers (run update) start base hashes := by
    intro rounds start chain update hash found attached stops enough
    have atLeast := rooted.height hash start found attached
    refine ⟨start, [], update, ?_, Loaded.refl update, ?_⟩
    · rw [walkBack_stopped run rounds start chain update stops (by omega)]
      simp [numbered]
    · apply walkedBack_here headers (run update) start _ attached stops
      rw [rooted.hash hash start found]
      exact found
  induction ancestor with
  | self =>
    intro rounds start chain update found attached _ stops enough
    rw [foundLast] at found
    cases found
    exact here rounds last chain update _ foundLast attached stops enough
  | child foundChild above ih =>
    rename_i hash header
    intro rounds start chain update found attached covers stops enough
    rw [foundChild] at found
    cases found
    by_cases passes : run update header.position = true
    · have other : hash ≠ genesis.hash := by
        intro origin
        subst origin
        rw [rooted.origin] at foundChild
        cases foundChild
        cases above with
        | self => rw [Genesis.header, rooted.null] at foundLast; cases foundLast
        | child foundNull _ => rw [Genesis.header, rooted.null] at foundNull; cases foundNull
      have atLeast := rooted.height hash header foundChild attached
      have named := rooted.hash hash header foundChild
      obtain ⟨parent, foundParent, linked⟩ := rooted.attached hash header foundChild attached other
      obtain ⟨fuel, rfl⟩ := Nat.exists_eq_succ_of_ne_zero (n := rounds) (by omega)
      obtain ⟨loaded, staging, load, _, _⟩ := stage_of_view update header.parentHash parent
        (covers _ parent foundParent linked.attached) (rooted.hash _ parent foundParent)
      have next := linked.height
      have coversAfter : ∀ hash header, headers hash = some header → header.isDisconnected = false →
          view loaded hash = some header := by
        intro hash header found attached
        rw [load.view]
        exact covers hash header found attached
      have sameRun := stable _ _ load
      obtain ⟨base, hashes, after, walked, further, found⟩ := ih fuel parent (header.position :: chain) loaded
        foundParent linked.attached coversAfter (sameRun ▸ stops) (by omega)
      rw [sameRun] at found
      have position : header.position = ⟨base.height + 1 + hashes.length, header.hash⟩ := by
        have lower := found.height
        rw [Header.position]
        congr 1
        omega
      refine ⟨base, hashes ++ [header.hash], after, ?_, load.trans further, ?_⟩
      · unfold walkBack
        rw [if_pos passes, if_neg (by omega), staging]
        simp only [bind, Except.bind]
        rw [walked, if_neg (by simp), if_neg (by simp), position, numbered_append]
        simp [numbered]
      · apply walkedBack_step found _ attached (rooted.hash _ parent foundParent) position passes
        rw [named]
        exact foundChild
    · exact here rounds header chain update hash foundChild attached (by simpa using passes) enough

/-- A new candidate holds the stretch from the block where the walk stopped. -/
theorem initializeCandidate_walked {genesis : Genesis Work} {headers : Hash → Option (Header Work)}
    (rooted : Rooted genesis headers) {run : UpdateTransaction Work → Position → Bool} (stable : Stable run)
    {stop : Hash} {parent child last : Header Work} {update : UpdateTransaction Work}
    (foundLast : headers stop = some last) (ancestor : Ancestor headers stop parent.hash)
    (named : child.parentHash = parent.hash) (found : headers parent.hash = some parent)
    (attached : parent.isDisconnected = false)
    (covers : ∀ next header, headers next = some header → header.isDisconnected = false →
      view (update.write (Header.under update.checkpoint parent child)) next = some header)
    (stops : run (update.write (Header.under update.checkpoint parent child)) last.position = false) :
    ∃ base hashes after,
      initializeCandidate run parent child update =
        .ok (⟨(Header.under update.checkpoint parent child).isBlacklisted,
          if hashes = [] then [base.position] else numbered (base.height + 1) hashes⟩,
          Header.under update.checkpoint parent child, after) ∧
      Loaded (update.write (Header.under update.checkpoint parent child)) after ∧
      WalkedBack headers (run (update.write (Header.under update.checkpoint parent child))) parent base hashes := by
  have atLeast := rooted.height _ parent found attached
  obtain ⟨base, hashes, after, walked, load, facts⟩ := walkBack_walked rooted stable foundLast ancestor
    (parent.height + 2).toNat parent [] _ found attached covers stops (by omega)
  refine ⟨base, hashes, after, ?_, load, facts⟩
  unfold initializeCandidate
  rw [connectToParent_ok _ _ _ named]
  simp only [bind, Except.bind]
  rw [walked]
  simp

/-! ## Picking a candidate -/

/-- The candidate picked has at least the work of every candidate that is not blacklisted. -/
structure Picked (update : UpdateTransaction Work) (current : Header Work) (candidates : List Candidate)
    (best : Header Work) : Prop where
  atLeast : current.totalWork ≤ best.totalWork
  greatest : ∀ candidate ∈ candidates, candidate.blacklisted = false →
    ∀ tip, candidateTip update candidate = .ok tip → tip.totalWork ≤ best.totalWork
  origin : best = current ∨ current.totalWork < best.totalWork ∧
    ∃ candidate ∈ candidates, candidate.blacklisted = false ∧ candidateTip update candidate = .ok best

theorem pickBest_picked (update : UpdateTransaction Work) (candidates : List Candidate)
    (tips : ∀ candidate ∈ candidates, ∃ tip, candidateTip update candidate = .ok tip) (current : Header Work) :
    ∃ best, pickBest update current candidates = .ok best ∧ Picked update current candidates best := by
  induction candidates generalizing current with
  | nil =>
    refine ⟨current, rfl, le_refl _, ?_, Or.inl rfl⟩
    intro candidate member
    cases member
  | cons candidate candidates ih =>
    have later := fun next member => tips next (List.mem_cons_of_mem candidate member)
    unfold pickBest
    by_cases banned : candidate.blacklisted = true
    · obtain ⟨best, picked, facts⟩ := ih later current
      rw [if_pos banned]
      refine ⟨best, picked, facts.atLeast, ?_, ?_⟩
      · intro next member allowed
        rcases List.mem_cons.mp member with rfl | inRest
        · rw [banned] at allowed
          cases allowed
        · exact facts.greatest next inRest allowed
      · apply facts.origin.imp id
        intro ⟨more, next, inRest, found⟩
        exact ⟨more, next, List.mem_cons_of_mem candidate inRest, found⟩
    · obtain ⟨tip, foundTip⟩ := tips candidate List.mem_cons_self
      obtain ⟨best, picked, facts⟩ := ih later (if evaluateCandidate current tip then tip else current)
      rw [if_neg banned, foundTip]
      refine ⟨best, picked, ?_⟩
      have allowed : candidate.blacklisted = false := by simpa using banned
      unfold evaluateCandidate at facts
      by_cases more : tip.totalWork > current.totalWork
      · rw [if_pos (decide_eq_true more)] at facts
        refine ⟨le_of_lt (lt_of_lt_of_le more facts.atLeast), ?_, Or.inr ?_⟩
        · intro next member nextAllowed nextTip found
          rcases List.mem_cons.mp member with rfl | inRest
          · rw [foundTip] at found
            cases found
            exact facts.atLeast
          · exact facts.greatest next inRest nextAllowed nextTip found
        · refine ⟨lt_of_lt_of_le more facts.atLeast, ?_⟩
          rcases facts.origin with rfl | ⟨_, next, inRest, found⟩
          · exact ⟨candidate, List.mem_cons_self, allowed, foundTip⟩
          · exact ⟨next, List.mem_cons_of_mem candidate inRest, found⟩
      · rw [if_neg (by simpa using more)] at facts
        refine ⟨facts.atLeast, ?_, ?_⟩
        · intro next member nextAllowed nextTip found
          rcases List.mem_cons.mp member with rfl | inRest
          · rw [foundTip] at found
            cases found
            exact le_trans (not_lt.mp more) facts.atLeast
          · exact facts.greatest next inRest nextAllowed nextTip found
        · apply facts.origin.imp id
          intro ⟨above, next, inRest, found⟩
          exact ⟨above, next, List.mem_cons_of_mem candidate inRest, found⟩

/-! ## The best chain and the siblings -/

/-- Nothing but the best chain, the reorg and the siblings differs. -/
structure SameTree (before after : UpdateTransaction Work) : Prop where
  db : after.db = before.db
  headers : after.headers = before.headers
  connect : after.connect = before.connect
  disconnected : after.disconnected = before.disconnected
  cachedDisconnected : after.cachedDisconnected = before.cachedDisconnected
  haveCheckpoint : after.haveCheckpoint = before.haveCheckpoint
  newCheckpoint : after.newCheckpoint = before.newCheckpoint

theorem SameTree.refl (update : UpdateTransaction Work) : SameTree update update :=
  ⟨rfl, rfl, rfl, rfl, rfl, rfl, rfl⟩

theorem SameTree.trans {before middle after : UpdateTransaction Work} (first : SameTree before middle)
    (second : SameTree middle after) : SameTree before after where
  db := second.db.trans first.db
  headers := second.headers.trans first.headers
  connect := second.connect.trans first.connect
  disconnected := second.disconnected.trans first.disconnected
  cachedDisconnected := second.cachedDisconnected.trans first.cachedDisconnected
  haveCheckpoint := second.haveCheckpoint.trans first.haveCheckpoint
  newCheckpoint := second.newCheckpoint.trans first.newCheckpoint

theorem SameTree.view {before after : UpdateTransaction Work} (same : SameTree before after) :
    view after = view before := by
  funext hash
  unfold HeaderTree.view
  rw [same.headers, same.db]

theorem SameTree.disconnectedInStep {before after : UpdateTransaction Work} (same : SameTree before after)
    (inStep : DisconnectedInStep before) : DisconnectedInStep after := by
  constructor
  · rw [same.cachedDisconnected, same.db, same.disconnected, same.connect]
    exact inStep.cached
  · rw [same.connect, same.db]
    exact inStep.known
  · rw [same.disconnected, same.db]
    exact inStep.fresh

theorem sameTree_addSibling (update : UpdateTransaction Work) (position : Position) :
    SameTree update (update.addSibling position) :=
  ⟨rfl, rfl, rfl, rfl, rfl, rfl, rfl⟩

theorem sameTree_removeSibling (update : UpdateTransaction Work) (hash : Hash) :
    SameTree update (update.removeSibling hash) :=
  ⟨rfl, rfl, rfl, rfl, rfl, rfl, rfl⟩

theorem sameTree_addToBestChain (update : UpdateTransaction Work) (position : Position) :
    SameTree update (update.addToBestChain position) :=
  ⟨rfl, rfl, rfl, rfl, rfl, rfl, rfl⟩

/-- The reorg at the first segment that leaves the best chain. -/
def forked (update : UpdateTransaction Work) (segment current : Position) : UpdateTransaction Work :=
  ((update.setReorgParent ⟨segment.height - 1, update.effectiveBestBlock (segment.height - 1)⟩).addToBestChain
    segment).addSibling current

theorem sameTree_forked (update : UpdateTransaction Work) (segment current : Position) :
    SameTree update (forked update segment current) :=
  ⟨rfl, rfl, rfl, rfl, rfl, rfl, rfl⟩

theorem adoptChain_sameTree (current : Header Work) (segments : List Position) :
    ∀ (reorg : Bool) (update : UpdateTransaction Work), SameTree update (adoptChain current reorg segments update) := by
  induction segments with
  | nil => exact fun _ update => SameTree.refl update
  | cons segment segments ih =>
    intro reorg update
    unfold adoptChain
    split
    · split
      · exact ih reorg update
      · exact (sameTree_forked update segment current.position).trans (ih true _)
    · exact (sameTree_addToBestChain update segment).trans (ih reorg _)

theorem adoptChain_siblingsInStep (current : Header Work) (segments : List Position) :
    ∀ (reorg : Bool) (update : UpdateTransaction Work), SiblingsInStep update →
      SiblingsInStep (adoptChain current reorg segments update) := by
  induction segments with
  | nil => exact fun _ _ => id
  | cons segment segments ih =>
    intro reorg update inStep
    unfold adoptChain
    split
    · split
      · exact ih reorg update inStep
      · apply ih true
        apply addSibling_inStep
        exact addToBestChain_inStep _ segment inStep
    · exact ih reorg _ (addToBestChain_inStep update segment inStep)

def pushAll (update : UpdateTransaction Work) (segments : List Position) : UpdateTransaction Work :=
  segments.foldl UpdateTransaction.addToBestChain update

/-- Once a reorg has begun, or above the tip, every segment is pushed. -/
theorem adoptChain_pushes (current : Header Work) (reorg : Bool) (segments : List Position)
    (update : UpdateTransaction Work)
    (pushes : ∀ segment ∈ segments, ¬ (segment.height ≤ current.height ∧ reorg = false)) :
    adoptChain current reorg segments update = pushAll update segments := by
  induction segments generalizing update with
  | nil => rfl
  | cons segment segments ih =>
    unfold adoptChain
    rw [if_neg (pushes segment List.mem_cons_self)]
    exact ih _ fun next member => pushes next (List.mem_cons_of_mem segment member)

/-- A segment that is on the best chain already is skipped. -/
theorem adoptChain_skips (current : Header Work) (segment : Position) (segments : List Position)
    (update : UpdateTransaction Work) (within : segment.height ≤ current.height)
    (same : segment.hash = update.effectiveBestBlock segment.height) :
    adoptChain current false (segment :: segments) update = adoptChain current false segments update := by
  rw [adoptChain, if_pos ⟨within, rfl⟩, if_pos same]

/-- The first segment off the best chain begins a reorg. -/
theorem adoptChain_forks (current : Header Work) (segment : Position) (segments : List Position)
    (update : UpdateTransaction Work) (within : segment.height ≤ current.height)
    (other : segment.hash ≠ update.effectiveBestBlock segment.height) :
    adoptChain current false (segment :: segments) update =
      pushAll (forked update segment current.position) segments := by
  rw [adoptChain, if_pos ⟨within, rfl⟩, if_neg other]
  apply adoptChain_pushes
  intro next _ impossible
  exact Bool.noConfusion impossible.2

/-- The blocks of a line, from some height on, above what the map already holds. -/
def pushLine (best : Ordered.OrderedMap Int Hash) : Int → List Hash → Ordered.OrderedMap Int Hash
  | _, [] => best
  | height, hash :: hashes => pushLine (best.emplace height hash) (height + 1) hashes

theorem pushAll_rest (update : UpdateTransaction Work) (height : Int) (line : List Hash) :
    (pushAll update (numbered height line)).best = pushLine update.best height line ∧
      (pushAll update (numbered height line)).haveReorg = update.haveReorg ∧
      (pushAll update (numbered height line)).reorgFrom = update.reorgFrom ∧
      ∀ hash, hash ∈ (pushAll update (numbered height line)).cachedSiblings ↔
        hash ∈ update.cachedSiblings ∧ hash ∉ line := by
  induction line generalizing update height with
  | nil => exact ⟨rfl, rfl, rfl, by simp [numbered, pushAll]⟩
  | cons first line ih =>
    obtain ⟨best, haveReorg, reorgFrom, siblings⟩ := ih (update.addToBestChain ⟨height, first⟩) (height + 1)
    refine ⟨best, haveReorg, reorgFrom, ?_⟩
    intro hash
    rw [List.mem_cons, not_or, ← and_assoc]
    apply (siblings hash).trans
    simp [UpdateTransaction.addToBestChain, UpdateTransaction.removeSibling]

theorem find?_pushLine (best : Ordered.OrderedMap Int Hash) (height : Int) (line : List Hash)
    (free : ∀ other, height ≤ other → best.find? other = none) (other : Int) :
    (pushLine best height line).find? other =
      if height ≤ other then (line)[(other - height).toNat]? else best.find? other := by
  induction line generalizing best height with
  | nil =>
    unfold pushLine
    split
    · rename_i above
      rw [free other above]
      rfl
    · rfl
  | cons first line ih =>
    rw [pushLine, ih, Ordered.OrderedMap.find?_emplace, free height (le_refl height)]
    · rcases lt_trichotomy other height with below | same | above
      · rw [if_neg (by omega), if_neg (by omega), if_neg (by omega)]
      · subst same
        rw [if_neg (by omega), if_pos rfl, if_pos (le_refl other)]
        simp
      · have shifted : (other - height).toNat = (other - (height + 1)).toNat + 1 := by omega
        rw [if_pos (by omega), if_pos (by omega), shifted, List.getElem?_cons_succ]
    · intro next above
      rw [Ordered.OrderedMap.find?_emplace, if_neg (by omega)]
      exact free next (by omega)

/-- The line of blocks `line` now stands on `base`, which is on the best chain; the tip was
at height `tip` before. -/
structure Taken (tip : Int) (base : Header Work) (line : List Hash) (before after : UpdateTransaction Work) : Prop where
  find : ∀ height, base.height < height → after.best.find? height = (line)[(height - (base.height + 1)).toNat]?
  kept : ∀ height ≤ base.height, after.effectiveBestBlock height = before.effectiveBestBlock height
  same : base.height ≤ tip → ∀ height ≤ base.height, after.best.find? height = before.best.find? height
  reorgs : base.height < tip → after.haveReorg = true ∧
    after.reorgFrom = if before.reorgFrom.height = -1 ∨ base.height ≤ before.reorgFrom.height then base.position
      else before.reorgFrom
  grows : tip ≤ base.height → after.haveReorg = before.haveReorg ∧ after.reorgFrom = before.reorgFrom

/-- Nothing of the best chain or the reorg differs. -/
structure SameBest (before after : UpdateTransaction Work) : Prop where
  db : after.db = before.db
  best : after.best = before.best
  haveReorg : after.haveReorg = before.haveReorg
  reorgFrom : after.reorgFrom = before.reorgFrom

theorem SameBest.effectiveBestBlock {before after : UpdateTransaction Work} (same : SameBest before after)
    (height : Int) : after.effectiveBestBlock height = before.effectiveBestBlock height := by
  unfold UpdateTransaction.effectiveBestBlock
  rw [same.best, same.db]

theorem Taken.congr {tip : Int} {base : Header Work} {line : List Hash}
    {before otherBefore after otherAfter : UpdateTransaction Work} (taken : Taken tip base line before after)
    (sameBefore : SameBest otherBefore before) (sameAfter : SameBest after otherAfter) :
    Taken tip base line otherBefore otherAfter where
  find := by
    rw [sameAfter.best]
    exact taken.find
  kept := by
    intro height within
    rw [sameAfter.effectiveBestBlock, taken.kept height within, sameBefore.effectiveBestBlock]
  same := by
    intro within height lower
    rw [sameAfter.best, taken.same within height lower, sameBefore.best]
  reorgs := by
    rw [sameAfter.haveReorg, sameAfter.reorgFrom, ← sameBefore.reorgFrom]
    exact taken.reorgs
  grows := by
    rw [sameAfter.haveReorg, sameAfter.reorgFrom, ← sameBefore.haveReorg, ← sameBefore.reorgFrom]
    exact taken.grows

theorem Taken.last {tip : Int} {base : Header Work} {line : List Hash} {before after : UpdateTransaction Work}
    (taken : Taken tip base line before after) (hash : Hash) (last : (line)[line.length - 1]? = some hash) :
    after.best.last? = some (base.height + line.length, hash) := by
  have nonempty : 0 < line.length := by
    by_contra empty
    rw [List.getElem?_eq_none (by omega)] at last
    cases last
  rw [Ordered.OrderedMap.last?_eq_some]
  constructor
  · rw [taken.find _ (by omega)]
    have index : (base.height + line.length - (base.height + 1)).toNat = line.length - 1 := by omega
    rw [index]
    exact last
  · intro other present
    by_contra above
    rw [taken.find other (by omega), List.getElem?_eq_none (by omega)] at present
    exact present rfl

/-- The effect of making a chain the best one. -/
structure Adopted (current base : Header Work) (line : List Hash) (before after : UpdateTransaction Work) : Prop
    extends Taken current.height base line before after where
  tree : SameTree before after
  inStep : SiblingsInStep before → SiblingsInStep after
  siblings : base.height ≤ current.height → ∀ hash, hash ∈ after.cachedSiblings ↔
    hash ∈ before.cachedSiblings ∧ hash ∉ line ∨ base.height < current.height ∧ hash = current.hash

/-- The chain of a candidate that left the best chain at `base`. -/
def chainFrom (base : Header Work) (lead : Bool) (line : List Hash) : List Position :=
  (if lead then [base.position] else []) ++ numbered (base.height + 1) line

theorem find?_pushed {best : Ordered.OrderedMap Int Hash} {start : Int} {line : List Hash}
    (free : ∀ other, start < other → best.find? other = none) (other : Int) :
    (pushLine best (start + 1) line).find? other =
      if start < other then (line)[(other - (start + 1)).toNat]? else best.find? other := by
  rw [find?_pushLine best (start + 1) line (fun next above => free next (by omega))]
  by_cases above : start < other
  · rw [if_pos above, if_pos (by omega)]
  · rw [if_neg above, if_neg (by omega)]

/-- The chain leaves the best chain below its tip. -/
theorem adopted_fork (current base : Header Work) (first : Hash) (line : List Hash) (update : UpdateTransaction Work)
    (onChain : update.effectiveBestBlock base.height = base.hash) (below : base.height + 1 ≤ current.height)
    (leaves : update.effectiveBestBlock (base.height + 1) ≠ first) (other : current.hash ∉ first :: line) :
    Adopted current base (first :: line) update
      (adoptChain current false (numbered (base.height + 1) (first :: line)) update) := by
  have tree := adoptChain_sameTree current (numbered (base.height + 1) (first :: line)) false update
  have inStep := adoptChain_siblingsInStep current (numbered (base.height + 1) (first :: line)) false update
  have back : base.height + 1 - 1 = base.height := by omega
  have position : (⟨base.height + 1 - 1, update.effectiveBestBlock (base.height + 1 - 1)⟩ : Position) = base.position := by
    rw [back, onChain]
    rfl
  have begun : adoptChain current false (numbered (base.height + 1) (first :: line)) update =
      pushAll (forked update ⟨base.height + 1, first⟩ current.position) (numbered (base.height + 1 + 1) line) :=
    adoptChain_forks current ⟨base.height + 1, first⟩ _ update below leaves.symm
  obtain ⟨best, haveReorg, reorgFrom, siblings⟩ :=
    pushAll_rest (forked update ⟨base.height + 1, first⟩ current.position) (base.height + 1 + 1) line
  have bestLine : (adoptChain current false (numbered (base.height + 1) (first :: line)) update).best =
      pushLine (update.best.keepUpTo base.height) (base.height + 1) (first :: line) := by
    rw [begun, best, forked, position]
    rfl
  have free : ∀ next, base.height < next → (update.best.keepUpTo base.height).find? next = none := by
    intro next above
    rw [Ordered.OrderedMap.find?_keepUpTo, if_neg (by omega)]
  have lower : ∀ height ≤ base.height, (adoptChain current false (numbered (base.height + 1) (first :: line)) update).best.find?
      height = update.best.find? height := by
    intro height within
    rw [bestLine, find?_pushed free, if_neg (by omega), Ordered.OrderedMap.find?_keepUpTo, if_pos within]
  constructor
  · constructor
    · intro height above
      rw [bestLine, find?_pushed free, if_pos above]
    · intro height within
      unfold UpdateTransaction.effectiveBestBlock
      rw [lower height within, tree.db]
    · exact fun _ => lower
    · intro _
      rw [begun, haveReorg, reorgFrom, forked, position]
      exact ⟨rfl, rfl⟩
    · intro above
      omega
  · exact tree
  · exact inStep
  · intro _ hash
    rw [begun, siblings hash]
    simp only [forked, UpdateTransaction.addSibling, UpdateTransaction.addToBestChain, UpdateTransaction.removeSibling,
      UpdateTransaction.setReorgParent, SortedList.mem_insertSorted, SortedList.mem_remove, List.mem_cons, Header.position,
      not_or]
    have forks : base.height < current.height := by omega
    constructor
    · rintro ⟨either, notInLine⟩
      rcases either with same | ⟨member, notFirst⟩
      · exact Or.inr ⟨forks, same⟩
      · exact Or.inl ⟨member, notFirst, notInLine⟩
    · intro either
      rcases either with ⟨member, notFirst, notInLine⟩ | ⟨_, rfl⟩
      · exact ⟨Or.inr ⟨member, notFirst⟩, notInLine⟩
      · exact ⟨Or.inl rfl, fun later => other (List.mem_cons_of_mem first later)⟩

/-- The chain stands on the tip. -/
theorem adopted_extend (current base : Header Work) (line : List Hash) (update : UpdateTransaction Work)
    (unused : ∀ key, current.height < key → update.best.find? key = none) (atTip : base.height = current.height) :
    Adopted current base line update
      (adoptChain current false (numbered (base.height + 1) line) update) := by
  have tree := adoptChain_sameTree current (numbered (base.height + 1) line) false update
  have inStep := adoptChain_siblingsInStep current (numbered (base.height + 1) line) false update
  have pushed : adoptChain current false (numbered (base.height + 1) line) update =
      pushAll update (numbered (base.height + 1) line) := by
    apply adoptChain_pushes
    intro segment member within
    have above := height_numbered _ _ segment member
    omega
  obtain ⟨best, haveReorg, reorgFrom, siblings⟩ := pushAll_rest update (base.height + 1) line
  have free : ∀ next, base.height < next → update.best.find? next = none := fun next above => unused next (by omega)
  have lower : ∀ height ≤ base.height, (adoptChain current false (numbered (base.height + 1) line) update).best.find?
      height = update.best.find? height := by
    intro height within
    rw [pushed, best, find?_pushed free, if_neg (by omega)]
  constructor
  · constructor
    · intro height above
      rw [pushed, best, find?_pushed free, if_pos above]
    · intro height within
      unfold UpdateTransaction.effectiveBestBlock
      rw [lower height within, tree.db]
    · exact fun _ => lower
    · intro below
      omega
    · intro _
      rw [pushed]
      exact ⟨haveReorg, reorgFrom⟩
  · exact tree
  · exact inStep
  · intro _ hash
    rw [pushed, siblings hash]
    constructor
    · exact Or.inl
    · intro either
      apply either.resolve_right
      intro below
      omega

/-- The chain stands on a block above the tip. -/
theorem adopted_above (current base : Header Work) (lead : Bool) (line : List Hash) (update : UpdateTransaction Work)
    (unused : ∀ key, current.height < key → update.best.find? key = none)
    (onChain : update.effectiveBestBlock base.height = base.hash) (above : current.height < base.height) :
    Adopted current base line update (adoptChain current false (chainFrom base lead line) update) := by
  have tree := adoptChain_sameTree current (chainFrom base lead line) false update
  have inStep := adoptChain_siblingsInStep current (chainFrom base lead line) false update
  have pushed : adoptChain current false (chainFrom base lead line) update =
      pushAll (pushAll update (if lead then [base.position] else [])) (numbered (base.height + 1) line) := by
    rw [adoptChain_pushes]
    · unfold chainFrom pushAll
      rw [List.foldl_append]
    · intro segment member within
      unfold chainFrom at member
      rcases List.mem_append.mp member with inLead | inLine
      · have same : segment = base.position := by
          cases lead with
          | false => cases inLead
          | true => exact List.mem_singleton.mp inLead
        rw [same] at within
        exact absurd within.1 (not_le.mpr above)
      · have higher := height_numbered _ _ segment inLine
        omega
  obtain ⟨best, haveReorg, reorgFrom, _⟩ :=
    pushAll_rest (pushAll update (if lead then [base.position] else [])) (base.height + 1) line
  have leadBest : ∀ other, (pushAll update (if lead then [base.position] else [])).best.find? other =
      if lead ∧ other = base.height then some base.hash else update.best.find? other := by
    intro other
    cases lead with
    | false => simp [pushAll]
    | true =>
      have absent := unused base.height above
      simp only [pushAll, if_true, List.foldl_cons, List.foldl_nil, UpdateTransaction.addToBestChain, Header.position,
        Ordered.OrderedMap.find?_emplace, UpdateTransaction.removeSibling, absent, Option.getD_none, true_and]
  have free : ∀ next, base.height < next →
      (pushAll update (if lead then [base.position] else [])).best.find? next = none := by
    intro next higher
    rw [leadBest, if_neg (by omega)]
    exact unused next (by omega)
  constructor
  · constructor
    · intro height higher
      rw [pushed, best, find?_pushed free, if_pos higher]
    · intro height within
      unfold UpdateTransaction.effectiveBestBlock
      rw [tree.db, pushed, best, find?_pushed free, if_neg (by omega), leadBest]
      split
      · rename_i atBase
        rw [atBase.2]
        exact onChain.symm
      · rfl
    · intro within
      omega
    · intro within
      omega
    · intro _
      rw [pushed, haveReorg, reorgFrom]
      cases lead with
      | false => exact ⟨rfl, rfl⟩
      | true => exact ⟨rfl, rfl⟩
  · exact tree
  · exact inStep
  · intro within
    omega

/-- Adopting a chain whose stretch off the best chain is `first :: line`. -/
theorem adoptChain_adopted (current base : Header Work) (lead : Bool) (first : Hash) (line : List Hash)
    (update : UpdateTransaction Work) (keys : ∀ key, update.best.find? key ≠ none → key ≤ current.height)
    (onChain : update.effectiveBestBlock base.height = base.hash)
    (leaves : base.height + 1 ≤ current.height → update.effectiveBestBlock (base.height + 1) ≠ first)
    (other : current.hash ∉ first :: line) :
    Adopted current base (first :: line) update
      (adoptChain current false (chainFrom base lead (first :: line)) update) := by
  have unused : ∀ key, current.height < key → update.best.find? key = none := by
    intro key above
    by_contra found
    have within := keys key found
    omega
  by_cases within : base.height ≤ current.height
  · have skipped : adoptChain current false (chainFrom base lead (first :: line)) update =
        adoptChain current false (numbered (base.height + 1) (first :: line)) update := by
      unfold chainFrom
      cases lead with
      | false => rfl
      | true => exact adoptChain_skips current base.position _ update within onChain.symm
    rw [skipped]
    by_cases below : base.height + 1 ≤ current.height
    · exact adopted_fork current base first line update onChain below (leaves below) other
    · exact adopted_extend current base (first :: line) update unused (by omega)
  · exact adopted_above current base lead (first :: line) update unused onChain (by omega)

/-! ## Settling -/

def addSiblings (update : UpdateTransaction Work) (tips : List (Header Work)) : UpdateTransaction Work :=
  tips.foldl (fun update tip => update.addSibling tip.position) update

theorem addSiblings_rest (update : UpdateTransaction Work) (tips : List (Header Work)) :
    SameTree update (addSiblings update tips) ∧ (addSiblings update tips).best = update.best ∧
      (addSiblings update tips).haveReorg = update.haveReorg ∧ (addSiblings update tips).reorgFrom = update.reorgFrom ∧
      (∀ hash, hash ∈ (addSiblings update tips).cachedSiblings ↔
        hash ∈ tips.map Header.hash ∨ hash ∈ update.cachedSiblings) ∧
      (SiblingsInStep update → SiblingsInStep (addSiblings update tips)) := by
  induction tips generalizing update with
  | nil => exact ⟨SameTree.refl update, rfl, rfl, rfl, by simp [addSiblings], id⟩
  | cons tip tips ih =>
    obtain ⟨tree, best, haveReorg, reorgFrom, siblings, inStep⟩ := ih (update.addSibling tip.position)
    refine ⟨(sameTree_addSibling update tip.position).trans tree, best, haveReorg, reorgFrom, ?_, ?_⟩
    · intro hash
      apply (siblings hash).trans
      simp only [UpdateTransaction.addSibling, SortedList.mem_insertSorted, List.map_cons, List.mem_cons, Header.position]
      rw [or_left_comm, or_assoc]
    · exact fun before => inStep (addSibling_inStep update tip.position before)

theorem candidateTip_congr {before after : UpdateTransaction Work} (same : SameTree before after)
    (candidate : Candidate) : candidateTip after candidate = candidateTip before candidate := by
  unfold candidateTip UpdateTransaction.header
  rw [same.headers]

/-- Candidates whose tips were not picked become siblings. -/
theorem settle_others (current best : Header Work) (found : Bool) (candidates : List Candidate)
    (tips : List (Header Work)) (update : UpdateTransaction Work)
    (all : candidates.map (candidateTip update) = tips.map Except.ok)
    (others : ∀ tip ∈ tips, tip.hash ≠ best.hash) :
    settleCandidates current best found candidates update = .ok (found, addSiblings update tips) := by
  induction candidates generalizing tips update with
  | nil =>
    cases tips with
    | nil => rfl
    | cons tip tips => cases all
  | cons candidate candidates ih =>
    cases tips with
    | nil => cases all
    | cons tip tips =>
      rw [List.map_cons, List.map_cons, List.cons.injEq] at all
      have rest : candidates.map (candidateTip (update.addSibling tip.position)) = tips.map Except.ok := by
        rw [← all.2]
        apply List.map_congr_left
        intro next _
        exact candidateTip_congr (sameTree_addSibling update tip.position) next
      unfold settleCandidates
      rw [all.1]
      simp only [bind, Except.bind]
      rw [if_neg (others tip List.mem_cons_self)]
      exact ih tips _ rest fun next member => others next (List.mem_cons_of_mem tip member)

theorem settle_append (current best : Header Work) (found : Bool) (left right : List Candidate)
    (update : UpdateTransaction Work) :
    settleCandidates current best found (left ++ right) update =
      settleCandidates current best found left update >>= fun result =>
        settleCandidates current best result.1 right result.2 := by
  induction left generalizing found update with
  | nil => rfl
  | cons candidate left ih =>
    simp only [List.cons_append, settleCandidates]
    cases candidateTip update candidate with
    | error fault => rfl
    | ok tip =>
      simp only [bind, Except.bind]
      split
      · exact ih true _
      · exact ih found _

/-- The chain of the candidate that was picked is adopted. -/
theorem settle_picked (current best : Header Work) (found : Bool) (left right : List Candidate) (chosen : Candidate)
    (leftTips rightTips : List (Header Work)) (update : UpdateTransaction Work)
    (allLeft : left.map (candidateTip update) = leftTips.map Except.ok)
    (allRight : right.map (candidateTip update) = rightTips.map Except.ok)
    (tip : candidateTip update chosen = .ok best)
    (othersLeft : ∀ other ∈ leftTips, other.hash ≠ best.hash)
    (othersRight : ∀ other ∈ rightTips, other.hash ≠ best.hash) :
    settleCandidates current best found (left ++ chosen :: right) update =
      .ok (true, addSiblings (adoptChain current false chosen.chain (addSiblings update leftTips)) rightTips) := by
  have leftTree := (addSiblings_rest update leftTips).1
  have tree := leftTree.trans (adoptChain_sameTree current chosen.chain false (addSiblings update leftTips))
  have rest : right.map (candidateTip (adoptChain current false chosen.chain (addSiblings update leftTips))) =
      rightTips.map Except.ok := by
    rw [← allRight]
    apply List.map_congr_left
    intro next _
    exact candidateTip_congr tree next
  rw [settle_append, settle_others current best found left leftTips update allLeft othersLeft]
  simp only [bind, Except.bind, settleCandidates]
  rw [candidateTip_congr leftTree, tip]
  simp only [if_true]
  exact settle_others current best true right rightTips _ rest othersRight

end Opentxs.HeaderOracle.Choose
