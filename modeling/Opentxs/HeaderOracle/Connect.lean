import Opentxs.HeaderOracle.Frame

/-! Connecting the blocks that waited below a new block: which blocks are attached, and
which candidates the walk over them leaves. -/

namespace Opentxs.HeaderOracle.Connect
open Library Library.Tree BlockHeader Storage Update Shared HeaderTree Frame
set_option linter.unusedSectionVars false

variable {Work : Type} [AddCommMonoid Work] [LinearOrder Work]

/-- The blocks of `nodes` and no others were connected, each under its parent. -/
structure Connection (nodes : Hash → Prop) (before after : UpdateTransaction Work) : Prop where
  chain : SameChain before after
  inStep : DisconnectedInStep before → DisconnectedInStep after
  sublist : after.cachedDisconnected.Sublist before.cachedDisconnected
  waiting : ∀ parent child, child ∈ waitingFor after.cachedDisconnected parent ↔
    child ∈ waitingFor before.cachedDisconnected parent ∧ ¬ nodes child
  kept : ∀ parent, (∀ child ∈ waitingFor before.cachedDisconnected parent, ¬ nodes child) →
    waitingFor after.cachedDisconnected parent = waitingFor before.cachedDisconnected parent
  others : ∀ hash, ¬ nodes hash → view after hash = view before hash
  linked : ∀ hash, nodes hash → ∃ parent child, view before hash = some child ∧ child.hash = hash ∧
    view after child.parentHash = some parent ∧
    view after hash = some (Header.under before.checkpoint parent child)
  staged : ∀ hash, before.headers hash ≠ none → after.headers hash ≠ none
  connected : ∀ hash, nodes hash → after.headers hash ≠ none

theorem Connection.refl (update : UpdateTransaction Work) : Connection (fun _ => False) update update where
  chain := SameChain.refl update
  inStep := id
  sublist := List.Sublist.refl _
  waiting := by simp
  kept := fun _ _ => rfl
  others := fun _ _ => rfl
  linked := fun _ none => none.elim
  staged := fun _ => id
  connected := fun _ none => none.elim

theorem Connection.congr {nodes others : Hash → Prop} {before after : UpdateTransaction Work}
    (same : ∀ hash, nodes hash ↔ others hash) (connection : Connection nodes before after) :
    Connection others before after := by
  have equal : nodes = others := funext fun hash => propext (same hash)
  exact equal ▸ connection

theorem Connection.trans {left right : Hash → Prop} {before middle after : UpdateTransaction Work}
    (first : Connection left before middle) (second : Connection right middle after)
    (disjoint : ∀ hash, left hash → ¬ right hash)
    (parents : ∀ hash child, left hash → view before hash = some child → ¬ right child.parentHash) :
    Connection (fun hash => left hash ∨ right hash) before after where
  chain := first.chain.trans second.chain
  inStep := second.inStep ∘ first.inStep
  sublist := second.sublist.trans first.sublist
  waiting := by
    intro parent child
    rw [second.waiting, first.waiting, and_assoc, not_or]
  kept := by
    intro parent untouched
    have once := first.kept parent fun child member => (not_or.mp (untouched child member)).1
    rw [← once]
    apply second.kept
    intro child member
    exact (not_or.mp (untouched child (once ▸ member))).2
  others := by
    intro hash neither
    rw [second.others hash (not_or.mp neither).2, first.others hash (not_or.mp neither).1]
  linked := by
    intro hash either
    by_cases inRight : right hash
    · obtain ⟨parent, child, found, named, above, below⟩ := second.linked hash inRight
      have inLeft : ¬ left hash := fun inLeft => disjoint hash inLeft inRight
      rw [first.others hash inLeft] at found
      rw [first.chain.checkpoint] at below
      exact ⟨parent, child, found, named, above, below⟩
    · have inLeft := either.resolve_right inRight
      obtain ⟨parent, child, found, named, above, below⟩ := first.linked hash inLeft
      rw [← second.others _ (parents hash child inLeft found)] at above
      rw [← second.others hash inRight] at below
      exact ⟨parent, child, found, named, above, below⟩
  staged := fun hash staged => second.staged hash (first.staged hash staged)
  connected := by
    intro hash either
    rcases either with inLeft | inRight
    · exact second.staged hash (first.connected hash inLeft)
    · exact second.connected hash inRight

/-! ## One block -/

/-- One waiting block is connected under its parent. -/
def attach (update : UpdateTransaction Work) (parent child : Header Work) : UpdateTransaction Work :=
  (update.connectBlock ⟨child.parentHash, child.hash⟩).write (Header.under update.checkpoint parent child)

theorem view_connectBlock (update : UpdateTransaction Work) (segment : ChainSegment) (hash : Hash) :
    view (update.connectBlock segment) hash = view update hash := by
  obtain ⟨chain, headers, _⟩ := connectBlock_rest update segment
  unfold view
  rw [headers, chain.db]

theorem view_attach (update : UpdateTransaction Work) (parent child : Header Work) (hash : Hash) :
    view (attach update parent child) hash =
      if hash = child.hash then some (Header.under update.checkpoint parent child) else view update hash := by
  unfold attach
  rw [view_write, under_hash, view_connectBlock]

theorem attach_cachedDisconnected (update : UpdateTransaction Work) (parent child : Header Work) :
    (attach update parent child).cachedDisconnected =
      SortedList.remove ⟨child.parentHash, child.hash⟩ update.cachedDisconnected :=
  (connectBlock_rest update _).2.2

theorem remove_length_lt {α : Type} [LinearOrder α] (item : α) (items : List α) (member : item ∈ items) :
    (SortedList.remove item items).length < items.length := by
  unfold SortedList.remove
  apply List.length_filter_lt_length_iff_exists.mpr
  exact ⟨item, member, by simp⟩

theorem waitingFor_remove (segment : ChainSegment) (waiting : List ChainSegment) (parent : Hash)
    (other : segment.parent ≠ parent) :
    waitingFor (SortedList.remove segment waiting) parent = waitingFor waiting parent := by
  unfold waitingFor SortedList.remove
  rw [List.filter_filter]
  congr 1
  apply List.filter_congr
  intro entry _
  by_cases named : entry.parent = parent
  · have different : entry ≠ segment := fun same => other (same ▸ named)
    simp [named, different]
  · simp [named]

theorem connection_attach (update : UpdateTransaction Work) (parent child : Header Work)
    (member : (⟨child.parentHash, child.hash⟩ : ChainSegment) ∈ update.cachedDisconnected)
    (unique : ∀ other, (⟨other, child.hash⟩ : ChainSegment) ∈ update.cachedDisconnected → other = child.parentHash)
    (found : view update child.hash = some child) (above : view update child.parentHash = some parent)
    (different : child.parentHash ≠ child.hash) :
    Connection (fun hash => hash = child.hash) update (attach update parent child) where
  chain := (connectBlock_rest update _).1.trans (sameChain_write _ _)
  inStep := by
    intro inStep
    have connected := connectBlock_inStep update _ member inStep
    exact ⟨connected.cached, connected.known, connected.fresh⟩
  sublist := by
    rw [attach_cachedDisconnected]
    exact List.filter_sublist
  waiting := by
    intro other hash
    rw [attach_cachedDisconnected, mem_waitingFor, mem_waitingFor, SortedList.mem_remove]
    apply and_congr_right
    intro inSet
    rw [not_iff_not, ChainSegment.mk.injEq]
    constructor
    · exact And.right
    · intro same
      exact ⟨unique other (same ▸ inSet), same⟩
  kept := by
    intro other untouched
    rw [attach_cachedDisconnected]
    apply waitingFor_remove
    intro same
    simp only at same
    subst same
    exact untouched child.hash ((mem_waitingFor _ _ _).mpr member) rfl
  others := by
    intro hash other
    rw [view_attach, if_neg other]
  linked := by
    intro hash same
    subst same
    apply Exists.intro parent
    apply Exists.intro child
    rw [view_attach, view_attach, if_neg different, if_pos rfl]
    exact ⟨found, rfl, above, rfl⟩
  staged := by
    intro hash staged
    unfold attach UpdateTransaction.write
    simp only
    split
    · exact Option.some_ne_none _
    · rw [(connectBlock_rest update _).2.1]
      exact staged
  connected := by
    intro hash same
    unfold attach UpdateTransaction.write
    rw [under_hash, same]
    simp

theorem modify_last (front : List Candidate) (candidate : Candidate) (change : Candidate → Candidate) :
    Shared.modify (front ++ [candidate]) ⟨front.length, front.length + 1⟩ change = .ok (front ++ [change candidate]) := by
  unfold Shared.modify
  rw [List.length_append, List.length_singleton, if_pos rfl, List.modify_eq_take_cons_drop]
  · simp
  · simp

theorem read_last (front : List Candidate) (candidate : Candidate) :
    Shared.read (front ++ [candidate]) ⟨front.length, front.length + 1⟩ = .ok candidate := by
  unfold Shared.read
  rw [List.length_append, List.length_singleton, if_pos rfl]
  simp

/-- The turn of one child in the loop over the waiting blocks of a parent. -/
theorem connectEach_cons
    (connectBelow : Header Work → List Candidate → Reference → UpdateTransaction Work →
      Except Fault (List Candidate × UpdateTransaction Work))
    (parent child : Header Work) (original candidate : Candidate) (front : List Candidate) (firstChild : Bool)
    (segments : List ChainSegment) (update : UpdateTransaction Work) (named : child.parentHash = parent.hash)
    (found : view update child.hash = some child) :
    connectEach connectBelow parent original ⟨front.length, front.length + 1⟩ firstChild
        (⟨parent.hash, child.hash⟩ :: segments) (front ++ [candidate]) update =
      (if firstChild then
          connectBelow (Header.under update.checkpoint parent child)
            (front ++ [{ candidate with blacklisted := (Header.under update.checkpoint parent child).isBlacklisted }])
            ⟨front.length, front.length + 1⟩ (attach update parent child)
        else connectBelow (Header.under update.checkpoint parent child)
            ((front ++ [{ candidate with
              blacklisted := (Header.under update.checkpoint parent child).isBlacklisted }]) ++ [original])
            ⟨front.length + 1, front.length + 2⟩ (attach update parent child)) >>= fun result =>
        connectEach connectBelow parent original ⟨front.length, front.length + 1⟩ false segments result.1 result.2 := by
  obtain ⟨after, staging, loaded, _, overwritten⟩ := stage_of_view (update.connectBlock ⟨parent.hash, child.hash⟩)
    child.hash child ((view_connectBlock update _ _).trans found) rfl
  have checkpointSame : after.checkpoint = update.checkpoint :=
    loaded.sameChain.checkpoint.trans (connectBlock_rest update _).1.checkpoint
  have written : after.write (Header.under update.checkpoint parent child) = attach update parent child := by
    rw [overwritten _ (under_hash _ _ _)]
    unfold attach
    rw [named]
  simp only [connectEach]
  rw [staging]
  simp only [bind, Except.bind]
  rw [connectToParent_ok _ _ _ named, checkpointSame]
  simp only
  rw [modify_last]
  simp only [written, List.length_append, List.length_singleton]
  split
  · rfl
  · rfl

/-! ## The whole tree below a block -/

/-- One parent each: what `kids` lists below `top` waits in the update, under that parent. -/
structure Ready (kids : Hash → List Hash) (top : Hash) (update : UpdateTransaction Work) : Prop where
  unique : ∀ first second child, child ∈ kids first → child ∈ kids second → first = second
  nodup : ∀ parent, (kids parent).Nodup
  subset : ∀ parent, ∀ child ∈ waitingFor update.cachedDisconnected parent, child ∈ kids parent
  waiting : ∀ parent, Descendant kids top parent → waitingFor update.cachedDisconnected parent = kids parent
  stored : ∀ parent child, Descendant kids top parent → child ∈ kids parent →
    ∃ header, view update child = some header ∧ header.hash = child ∧ header.parentHash = parent

theorem Ready.after {kids : Hash → List Hash} {top bottom : Hash} {nodes : Hash → Prop}
    {before after : UpdateTransaction Work} (ready : Ready kids top before)
    (connection : Connection nodes before after) (lower : Descendant kids top bottom)
    (untouched : ∀ hash, Strict kids bottom hash → ¬ nodes hash) : Ready kids bottom after where
  unique := ready.unique
  nodup := ready.nodup
  subset := by
    intro parent child member
    exact ready.subset parent child ((connection.waiting parent child).mp member).1
  waiting := by
    intro parent below
    have before := ready.waiting parent (lower.trans below)
    rw [← before]
    apply connection.kept
    intro child member
    rw [before] at member
    apply untouched
    rcases (descendant_iff bottom parent).mp below with rfl | ⟨first, inBottom, rest⟩
    · exact ⟨child, member, Descendant.top⟩
    · exact ⟨first, inBottom, Descendant.child rest member⟩
  stored := by
    intro parent child below member
    obtain ⟨header, found, named, under⟩ := ready.stored parent child (lower.trans below) member
    apply Exists.intro header
    rw [connection.others child]
    · exact ⟨found, named, under⟩
    · apply untouched
      rcases (descendant_iff bottom parent).mp below with rfl | ⟨first, inBottom, rest⟩
      · exact ⟨child, member, Descendant.top⟩
      · exact ⟨first, inBottom, Descendant.child rest member⟩

/-- What connecting the tree below a parent makes of the parent's candidate: one candidate
for each leaf, all of the same colour when the tree is. -/
structure Grown (kids : Hash → List Hash) (parent : Header Work) (candidate : Candidate)
    (before after : UpdateTransaction Work) (paths : List (List Hash)) (created : List Candidate) : Prop where
  connection : Connection (Strict kids parent.hash) before after
  branches : Branches kids parent.hash paths
  chains : created.map Candidate.chain =
    paths.map fun rest => candidate.chain ++ numbered parent.height (parent.hash :: rest)
  flags : ∀ colour, candidate.blacklisted = colour →
    (∀ hash child, Strict kids parent.hash hash → view after hash = some child → child.isBlacklisted = colour) →
    ∀ next ∈ created, next.blacklisted = colour

/-- One child is attached and the tree below it connected. -/
theorem connect_child {kids : Hash → List Hash} {parent child : Header Work} {candidate : Candidate}
    {before after : UpdateTransaction Work} {paths : List (List Hash)} {created : List Candidate}
    (first : Connection (fun hash => hash = child.hash) before (attach before parent child))
    (grown : Grown kids (Header.under before.checkpoint parent child) candidate (attach before parent child) after
      paths created)
    (named : child.parentHash = parent.hash) (member : child.hash ∈ kids parent.hash)
    (acyclic : ∀ next ∈ kids parent.hash, ¬ Descendant kids next parent.hash)
    (below : ∀ next ∈ kids child.hash, ¬ Descendant kids next child.hash)
    (found : view before child.hash = some child) :
    Connection (Descendant kids child.hash) before after := by
  have rest := grown.connection
  rw [under_hash] at rest
  apply Connection.congr _ (first.trans rest _ _)
  · intro hash
    exact (descendant_iff child.hash hash).symm
  · intro hash same ⟨next, inKids, lower⟩
    exact below next inKids (same ▸ lower)
  · intro hash header same foundHeader strict
    subst same
    rw [found] at foundHeader
    cases foundHeader
    rw [named] at strict
    exact acyclic child.hash member ((descendant_iff _ _).mpr (Or.inr strict))

theorem attach_ready {kids : Hash → List Hash} {update : UpdateTransaction Work} {parent child : Header Work}
    (ready : Ready kids child.hash update) (member : child.hash ∈ kids parent.hash)
    (named : child.parentHash = parent.hash)
    (waits : child.hash ∈ waitingFor update.cachedDisconnected parent.hash)
    (found : view update child.hash = some child) (above : view update parent.hash = some parent)
    (acyclic : ∀ next ∈ kids parent.hash, ¬ Descendant kids next parent.hash)
    (below : ∀ next ∈ kids child.hash, ¬ Descendant kids next child.hash) :
    Connection (fun hash => hash = child.hash) update (attach update parent child) ∧
      Ready kids child.hash (attach update parent child) ∧
      (attach update parent child).cachedDisconnected.length < update.cachedDisconnected.length := by
  have different : child.parentHash ≠ child.hash := by
    intro same
    apply acyclic child.hash member
    rw [← named, same]
    exact Descendant.top
  have inSet : (⟨child.parentHash, child.hash⟩ : ChainSegment) ∈ update.cachedDisconnected := by
    rw [named]
    exact (mem_waitingFor _ _ _).mp waits
  have connection := connection_attach update parent child inSet
    (by
      intro other otherMember
      rw [named]
      exact ready.unique other parent.hash child.hash
        (ready.subset other child.hash ((mem_waitingFor _ _ _).mpr otherMember)) member)
    found (named ▸ above) different
  constructor
  · exact connection
  · constructor
    · apply ready.after connection Descendant.top
      intro hash ⟨next, inKids, lower⟩ same
      exact below next inKids (same ▸ lower)
    · rw [attach_cachedDisconnected]
      exact remove_length_lt _ _ inSet

theorem connectChildren_succ {kids : Hash → List Hash} (depth : Nat) (parent : Header Work) (front : List Candidate)
    (candidate : Candidate) (update : UpdateTransaction Work)
    (follows : candidate.chain.getLast?.map (fun last => last.height + 1) = some parent.height)
    (ready : Ready kids parent.hash update) :
    connectChildren (depth + 1) parent (front ++ [candidate]) ⟨front.length, front.length + 1⟩ update =
      connectEach (connectChildren depth) parent { candidate with chain := candidate.chain ++ [parent.position] }
        ⟨front.length, front.length + 1⟩ true ((kids parent.hash).map (ChainSegment.mk parent.hash))
        (front ++ [{ candidate with chain := candidate.chain ++ [parent.position] }]) update := by
  simp only [connectChildren, read_last, modify_last, bind, Except.bind]
  rw [if_neg (not_not.mpr follows), equalRange_eq, ready.waiting parent.hash Descendant.top]

theorem follows_extended (candidate : Candidate) (position : Position) (height : Int)
    (next : position.height + 1 = height) :
    (({ candidate with chain := candidate.chain ++ [position] } : Candidate).chain.getLast?.map
      fun last => last.height + 1) = some height := by
  simp [next]

/-- The candidate a parent's children go on with. -/
def extended (candidate : Candidate) (parent : Header Work) : Candidate :=
  { candidate with chain := candidate.chain ++ [parent.position] }

/-- The parent's candidate with the colour of one child. -/
def coloured (candidate : Candidate) (child : Header Work) : Candidate :=
  { candidate with blacklisted := child.isBlacklisted }

theorem chain_extended (candidate : Candidate) (parent child linked : Header Work) (rest : List Hash)
    (height : linked.height = parent.height + 1) :
    (coloured (extended candidate parent) child).chain ++ numbered linked.height (linked.hash :: rest) =
      candidate.chain ++ numbered parent.height (parent.hash :: linked.hash :: rest) := by
  rw [height]
  simp [coloured, extended, numbered, Header.position]

theorem view_connected {kids : Hash → List Hash} {parent child : Header Work} {candidate : Candidate}
    {before after : UpdateTransaction Work} {paths : List (List Hash)} {created : List Candidate}
    (grown : Grown kids (Header.under before.checkpoint parent child) candidate (attach before parent child) after
      paths created)
    (below : ∀ next ∈ kids child.hash, ¬ Descendant kids next child.hash) :
    view after child.hash = some (Header.under before.checkpoint parent child) := by
  rw [grown.connection.others child.hash]
  · rw [view_attach, if_pos rfl]
  · rw [under_hash]
    intro ⟨next, inKids, lower⟩
    exact below next inKids lower

theorem Grown.of_step {kids : Hash → List Hash} {parent child : Header Work} {candidate : Candidate}
    {before after : UpdateTransaction Work} {paths : List (List Hash)} {created : List Candidate}
    (one : kids parent.hash = [child.hash])
    (below : ∀ next ∈ kids child.hash, ¬ Descendant kids next child.hash)
    (connection : Connection (Descendant kids child.hash) before after)
    (grown : Grown kids (Header.under before.checkpoint parent child)
      (coloured (extended candidate parent) (Header.under before.checkpoint parent child))
      (attach before parent child) after paths created) :
    Grown kids parent candidate before after (paths.map (child.hash :: ·)) created where
  connection := by
    apply Connection.congr _ connection
    intro hash
    simp [Strict, one]
  branches := by
    have branches := grown.branches
    rw [under_hash] at branches
    exact Branches.of_step one branches
  chains := by
    rw [grown.chains, List.map_map]
    apply List.map_congr_left
    intro rest _
    rw [chain_extended _ _ _ _ _ (under_height _ _ _), under_hash]
    rfl
  flags := by
    intro colour same all
    apply grown.flags colour
    · apply all child.hash
      · exact ⟨child.hash, one ▸ List.mem_singleton.mpr rfl, Descendant.top⟩
      · exact view_connected grown below
    · intro hash header strict found
      rw [under_hash] at strict
      exact all hash header
        ⟨child.hash, one ▸ List.mem_singleton.mpr rfl, (descendant_iff _ _).mpr (Or.inr strict)⟩ found

theorem Grown.of_fork {kids : Hash → List Hash} {parent first second : Header Work} {candidate : Candidate}
    {before middle after : UpdateTransaction Work} {left right : List (List Hash)} {only : Candidate}
    {created : List Candidate} (two : kids parent.hash = [first.hash, second.hash])
    (disjoint : ∀ hash, Descendant kids first.hash hash → ¬ Descendant kids second.hash hash)
    (below : ∀ next ∈ kids second.hash, ¬ Descendant kids next second.hash)
    (connection : Connection (Strict kids parent.hash) before after)
    (leftGrown : Grown kids (Header.under before.checkpoint parent first)
      (coloured (extended candidate parent) (Header.under before.checkpoint parent first))
      (attach before parent first) middle left [only])
    (rightGrown : Grown kids (Header.under middle.checkpoint parent second) (extended candidate parent)
      (attach middle parent second) after right created) :
    Grown kids parent candidate before after (left.map (first.hash :: ·) ++ right.map (second.hash :: ·))
      (coloured only (Header.under middle.checkpoint parent second) :: created) where
  connection := connection
  branches := by
    have leftBranches := leftGrown.branches
    have rightBranches := rightGrown.branches
    rw [under_hash] at leftBranches rightBranches
    exact Branches.of_fork two disjoint leftBranches rightBranches
  chains := by
    have leftChains := leftGrown.chains
    rw [List.map_cons, coloured, rightGrown.chains, List.map_append, List.map_map, List.map_map]
    rw [List.map_singleton] at leftChains
    rw [← List.singleton_append, leftChains]
    congr 1
    · apply List.map_congr_left
      intro rest _
      rw [chain_extended _ _ _ _ _ (under_height _ _ _), under_hash]
      rfl
    · apply List.map_congr_left
      intro rest _
      exact (chain_extended _ _ second _ _ (under_height _ _ _)).trans (by rw [under_hash]; rfl)
  flags := by
    intro colour same all next member
    have inSecond : second.hash ∈ kids parent.hash := by simp [two]
    rcases List.mem_cons.mp member with rfl | later
    · exact all second.hash _ ⟨second.hash, inSecond, Descendant.top⟩ (view_connected rightGrown below)
    · apply rightGrown.flags colour same _ next later
      intro hash header strict found
      rw [under_hash] at strict
      exact all hash header ⟨second.hash, inSecond, (descendant_iff _ _).mpr (Or.inr strict)⟩ found

/-- With at most two waiting blocks at a time, and nothing splitting below the first of two,
the walk ends, attaches the whole tree, and leaves one candidate for each leaf. -/
theorem connectChildren_grown {kids : Hash → List Hash} {forks : Bool} {top : Hash}
    (narrow : Narrow kids forks top) :
    ∀ (depth : Nat) (parent : Header Work) (front : List Candidate) (candidate : Candidate)
      (update : UpdateTransaction Work), parent.hash = top → view update top = some parent →
      candidate.chain.getLast?.map (fun last => last.height + 1) = some parent.height →
      Ready kids top update → update.cachedDisconnected.length < depth →
      ∃ paths created after,
        connectChildren depth parent (front ++ [candidate]) ⟨front.length, front.length + 1⟩ update =
          .ok (front ++ created, after) ∧
        Grown kids parent candidate update after paths created ∧
        (forks = false → ∃ only, created = [only]) := by
  induction narrow with
  | leaf none =>
    intro depth parent front candidate update named above follows ready enough
    subst named
    obtain ⟨fuel, rfl⟩ := Nat.exists_eq_succ_of_ne_zero (Nat.ne_of_gt (Nat.lt_of_le_of_lt (Nat.zero_le _) enough))
    refine ⟨[[]], [{ candidate with chain := candidate.chain ++ [parent.position] }], update, ?_, ?_, fun _ => ⟨_, rfl⟩⟩
    · rw [connectChildren_succ fuel parent front candidate update follows ready, none]
      rfl
    · constructor
      · apply Connection.congr _ (Connection.refl update)
        intro hash
        simp [Strict, none]
      · exact Branches.of_leaf none
      · rfl
      · intro colour same _ next member
        rw [List.mem_singleton.mp member]
        exact same
  | step one narrow ih =>
    rename_i forks node childHash
    intro depth parent front candidate update named above follows ready enough
    subst named
    obtain ⟨fuel, rfl⟩ := Nat.exists_eq_succ_of_ne_zero (Nat.ne_of_gt (Nat.lt_of_le_of_lt (Nat.zero_le _) enough))
    have member : childHash ∈ kids parent.hash := one ▸ List.mem_singleton.mpr rfl
    obtain ⟨child, found, rfl, under⟩ := ready.stored parent.hash childHash Descendant.top member
    have acyclic := (Narrow.step one narrow).acyclic
    have waits : child.hash ∈ waitingFor update.cachedDisconnected parent.hash := by
      rwa [ready.waiting parent.hash Descendant.top]
    have lower : Ready kids child.hash update := ready.after (Connection.refl update)
      (Descendant.child Descendant.top member) (fun _ _ => id)
    obtain ⟨connection, nextReady, shorter⟩ := attach_ready lower member under waits found above acyclic narrow.acyclic
    obtain ⟨paths, created, after, walked, grown, single⟩ := ih fuel (Header.under update.checkpoint parent child) front
      (coloured (extended candidate parent) (Header.under update.checkpoint parent child)) (attach update parent child)
      (under_hash _ _ _) (by rw [view_attach, if_pos rfl])
      (follows_extended candidate parent.position _ (under_height _ _ _).symm) nextReady (by omega)
    refine ⟨paths.map (child.hash :: ·), created, after, ?_, ?_, single⟩
    · rw [connectChildren_succ fuel parent front candidate update follows ready, one, List.map_singleton]
      rw [connectEach_cons _ _ _ _ _ _ _ _ _ under found, if_pos rfl]
      simp only [coloured, extended] at walked
      rw [walked]
      rfl
    · exact grown.of_step one narrow.acyclic (connect_child connection grown under member acyclic narrow.acyclic found)
  | fork two narrowFirst narrowSecond ihFirst ihSecond =>
    rename_i node firstHash secondHash
    intro depth parent front candidate update named above follows ready enough
    subst named
    obtain ⟨fuel, rfl⟩ := Nat.exists_eq_succ_of_ne_zero (Nat.ne_of_gt (Nat.lt_of_le_of_lt (Nat.zero_le _) enough))
    have inFirst : firstHash ∈ kids parent.hash := by simp [two]
    have inSecond : secondHash ∈ kids parent.hash := by simp [two]
    have different : firstHash ≠ secondHash := by
      have nodup := ready.nodup parent.hash
      rw [two] at nodup
      simpa using nodup
    have acyclic := (Narrow.fork two narrowFirst narrowSecond).acyclic
    have disjoint : ∀ hash, Descendant kids firstHash hash → ¬ Descendant kids secondHash hash :=
      fun hash left => disjoint_descendants ready.unique inFirst inSecond different acyclic left
    obtain ⟨first, foundFirst, rfl, underFirst⟩ := ready.stored parent.hash firstHash Descendant.top inFirst
    obtain ⟨second, foundSecond, rfl, underSecond⟩ := ready.stored parent.hash secondHash Descendant.top inSecond
    have waits := ready.waiting parent.hash Descendant.top
    -- the first child goes on with the parent's candidate
    have lowerFirst : Ready kids first.hash update := ready.after (Connection.refl update)
      (Descendant.child Descendant.top inFirst) (fun _ _ => id)
    obtain ⟨connection, readyFirst, shorter⟩ := attach_ready lowerFirst inFirst underFirst (waits ▸ inFirst) foundFirst
      above acyclic narrowFirst.acyclic
    obtain ⟨left, createdLeft, middle, walkedLeft, grownLeft, single⟩ := ihFirst fuel
      (Header.under update.checkpoint parent first) front
      (coloured (extended candidate parent) (Header.under update.checkpoint parent first)) (attach update parent first)
      (under_hash _ _ _) (by rw [view_attach, if_pos rfl])
      (follows_extended candidate parent.position _ (under_height _ _ _).symm) readyFirst (by omega)
    obtain ⟨only, rfl⟩ := single rfl
    have connectedFirst : Connection (Descendant kids first.hash) update middle :=
      connect_child connection grownLeft underFirst inFirst acyclic narrowFirst.acyclic foundFirst
    -- the second child starts a candidate of its own
    have lowerSecond : Ready kids second.hash middle := ready.after connectedFirst
      (Descendant.child Descendant.top inSecond) fun hash strict below =>
        disjoint hash below ((descendant_iff _ _).mpr (Or.inr strict))
    have foundMiddle : view middle second.hash = some second := by
      rw [connectedFirst.others second.hash fun below => disjoint second.hash below Descendant.top]
      exact foundSecond
    have aboveMiddle : view middle parent.hash = some parent := by
      rw [connectedFirst.others parent.hash (acyclic first.hash inFirst)]
      exact above
    have waitsMiddle : second.hash ∈ waitingFor middle.cachedDisconnected parent.hash := by
      rw [connectedFirst.waiting]
      exact ⟨waits ▸ inSecond, fun below => disjoint second.hash below Descendant.top⟩
    obtain ⟨connectionSecond, readySecond, shorterSecond⟩ := attach_ready lowerSecond inSecond underSecond waitsMiddle
      foundMiddle aboveMiddle acyclic narrowSecond.acyclic
    have enoughSecond : (attach middle parent second).cachedDisconnected.length < fuel := by
      have kept := grownLeft.connection.sublist.length_le
      omega
    obtain ⟨right, created, after, walkedRight, grownRight, _⟩ := ihSecond fuel
      (Header.under middle.checkpoint parent second)
      (front ++ [coloured only (Header.under middle.checkpoint parent second)]) (extended candidate parent)
      (attach middle parent second) (under_hash _ _ _) (by rw [view_attach, if_pos rfl])
      (follows_extended candidate parent.position _ (under_height _ _ _).symm) readySecond enoughSecond
    have connectedSecond : Connection (Descendant kids second.hash) middle after :=
      connect_child connectionSecond grownRight underSecond inSecond acyclic narrowSecond.acyclic foundMiddle
    have whole : Connection (Strict kids parent.hash) update after := by
      apply Connection.congr _ (connectedFirst.trans connectedSecond disjoint _)
      · intro hash
        simp [Strict, two]
      · intro hash header below found inRight
        rcases below.cases_tail with rfl | ⟨node, upper, member⟩
        · rw [foundFirst] at found
          cases found
          rw [underFirst] at inRight
          exact acyclic second.hash inSecond inRight
        · obtain ⟨other, foundOther, _, under⟩ := ready.stored node hash
            (Descendant.of_child inFirst upper) member
          rw [foundOther] at found
          cases found
          rw [under] at inRight
          exact disjoint node upper inRight
    refine ⟨_, _, after, ?_, Grown.of_fork two disjoint narrowSecond.acyclic whole grownLeft grownRight, ?_⟩
    · rw [connectChildren_succ fuel parent front candidate update follows ready, two]
      rw [List.map_cons, List.map_singleton, connectEach_cons _ _ _ _ _ _ _ _ _ underFirst foundFirst, if_pos rfl]
      simp only [coloured, extended] at walkedLeft walkedRight
      rw [walkedLeft]
      simp only [bind, Except.bind]
      rw [connectEach_cons _ _ _ _ _ _ _ _ _ underSecond foundMiddle, if_neg Bool.false_ne_true]
      simp only [List.length_append, List.length_singleton] at walkedRight
      rw [walkedRight]
      simp only [bind, Except.bind, connectEach, List.append_assoc]
      rfl
    · intro impossible
      cases impossible

end Opentxs.HeaderOracle.Connect
