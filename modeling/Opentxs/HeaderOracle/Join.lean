import Opentxs.HeaderOracle.Choose

/-! What the header tree becomes when a header with an attached parent is added: the header
and every block that waited below it are attached, nothing else changes. -/

namespace Opentxs.HeaderOracle.Join
open Library Library.Tree BlockHeader Storage Update Shared HeaderTree Frame Connect Choose
set_option linter.unusedSectionVars false

variable {Work : Type} [AddCommMonoid Work] [LinearOrder Work] {genesis : Genesis Work}

/-- The new block and everything that waited below it. -/
abbrev Joins (update : UpdateTransaction Work) (new : NewHeader Work) : Hash → Prop :=
  Descendant (waitingFor update.cachedDisconnected) new.hash

structure Joined (new : NewHeader Work) (parent : Header Work) (before after : UpdateTransaction Work) : Prop where
  db : after.db = before.db
  haveCheckpoint : after.haveCheckpoint = before.haveCheckpoint
  newCheckpoint : after.newCheckpoint = before.newCheckpoint
  inStep : DisconnectedInStep before → DisconnectedInStep after
  sublist : after.cachedDisconnected.Sublist before.cachedDisconnected
  waiting : ∀ parent child, child ∈ waitingFor after.cachedDisconnected parent ↔
    child ∈ waitingFor before.cachedDisconnected parent ∧ ¬ Joins before new child
  others : ∀ hash, ¬ Joins before new hash → view after hash = view before hash
  top : view after new.hash = some (Header.under before.checkpoint parent new.header)
  linked : ∀ hash, Strict (waitingFor before.cachedDisconnected) new.hash hash → ∃ parent child,
    view before hash = some child ∧ view after child.parentHash = some parent ∧
    view after hash = some (Header.under before.checkpoint parent child)

section Joined

variable {new : NewHeader Work} {parent : Header Work} {before after : UpdateTransaction Work}

theorem Joined.checkpoint (joined : Joined new parent before after) : after.checkpoint = before.checkpoint := by
  unfold UpdateTransaction.checkpoint
  rw [joined.haveCheckpoint, joined.newCheckpoint, joined.db]

/-- The facts under which a header joins the tree. -/
structure Joinable (genesis : Genesis Work) (update : UpdateTransaction Work) (new : NewHeader Work)
    (parent : Header Work) : Prop where
  forest : Forest genesis (view update) update.cachedDisconnected
  fresh : view update new.hash = none
  above : view update new.parentHash = some parent
  attached : parent.isDisconnected = false

theorem Joinable.named (joinable : Joinable genesis before new parent) : parent.hash = new.parentHash :=
  joinable.forest.hash _ parent joinable.above

theorem Joined.attached_same (joined : Joined new parent before after) (joinable : Joinable genesis before new parent)
    (hash : Hash) (attached : Attached (view before) hash) : view after hash = view before hash := by
  apply joined.others
  intro below
  exact joinable.forest.not_attached new.hash joinable.fresh hash below attached

/-- A block that joins stands under its parent, which is attached too. -/
theorem Joined.node (joined : Joined new parent before after) (joinable : Joinable genesis before new parent)
    (hash : Hash) (below : Joins before new hash) :
    ∃ header above, view after hash = some header ∧ header.hash = hash ∧ header.isDisconnected = false ∧
      0 < header.work ∧ 0 < header.height ∧ view after header.parentHash = some above ∧
      Linked above header ∧ ∃ child, header = Header.under before.checkpoint above child := by
  induction below with
  | top =>
    have attachedParent : Attached (view before) new.parentHash := ⟨parent, joinable.above, joinable.attached⟩
    have height := joinable.forest.height _ parent joinable.above joinable.attached
    refine ⟨Header.under before.checkpoint parent new.header, parent, joined.top, under_hash _ _ _,
      under_attached _ _ _ joinable.attached, ?_, ?_, ?_, linked_under _ _ _ joinable.attached,
      new.header, rfl⟩
    · rw [under_work]
      exact new.work_pos
    · rw [under_height]
      omega
    · rw [under_parentHash]
      exact (joined.attached_same joinable new.parentHash attachedParent).trans joinable.above
  | child below member ih =>
    rename_i above hash
    have strict : Strict (waitingFor before.cachedDisconnected) new.hash hash := by
      rcases (descendant_iff new.hash above).mp below with rfl | ⟨first, inTop, rest⟩
      · exact ⟨hash, member, Descendant.top⟩
      · exact ⟨first, inTop, Descendant.child rest member⟩
    obtain ⟨upper, child, found, foundUpper, foundAfter⟩ := joined.linked hash strict
    obtain ⟨waitingHeader, foundWaiting, disconnected, under⟩ :=
      joinable.forest.waits above hash ((mem_waitingFor _ _ _).mp member)
    rw [found] at foundWaiting
    cases foundWaiting
    obtain ⟨aboveHeader, _, foundAbove, _, aboveAttached, _, aboveHeight, _⟩ := ih
    rw [under, foundAbove] at foundUpper
    cases foundUpper
    have other : hash ≠ genesis.hash := by
      intro origin
      rw [origin, joinable.forest.origin] at found
      cases found
      cases disconnected
    refine ⟨Header.under before.checkpoint upper child, upper, foundAfter, ?_,
      under_attached _ _ _ aboveAttached, ?_, ?_, ?_, linked_under _ _ _ aboveAttached, child, rfl⟩
    · rw [under_hash]
      exact joinable.forest.hash hash child found
    · rw [under_work]
      exact joinable.forest.work hash child found other
    · rw [under_height]
      omega
    · rw [under_parentHash, under]
      exact foundAbove

theorem Joined.child (joined : Joined new parent before after) (joinable : Joinable genesis before new parent)
    {above child : Hash} (below : Joins before new above)
    (member : child ∈ waitingFor before.cachedDisconnected above) :
    ∃ header, view after child = some header ∧ header.isDisconnected = false ∧ header.parentHash = above := by
  have strict : Strict (waitingFor before.cachedDisconnected) new.hash child := by
    rcases (descendant_iff new.hash above).mp below with rfl | ⟨first, inTop, rest⟩
    · exact ⟨child, member, Descendant.top⟩
    · exact ⟨first, inTop, Descendant.child rest member⟩
  obtain ⟨upper, header, found, _, foundAfter⟩ := joined.linked child strict
  obtain ⟨waitingHeader, foundWaiting, _, under⟩ :=
    joinable.forest.waits above child ((mem_waitingFor _ _ _).mp member)
  rw [found] at foundWaiting
  cases foundWaiting
  obtain ⟨node, _, foundNode, _, attached, _⟩ := joined.node joinable child (Descendant.child below member)
  rw [foundAfter] at foundNode
  cases foundNode
  exact ⟨_, foundAfter, attached, (under_parentHash _ _ _).trans under⟩

/-- A path down the waiting blocks is a lineage once they have joined. -/
theorem Joined.lineage (joined : Joined new parent before after) (joinable : Joinable genesis before new parent)
    {above : Hash} {rest : List Hash} (path : Path (waitingFor before.cachedDisconnected) above rest)
    (below : Joins before new above) : Lineage (view after) above rest := by
  induction path with
  | done => trivial
  | step member _ ih =>
    obtain ⟨header, found, attached, under⟩ := joined.child joinable below member
    exact ⟨⟨header, found, attached, under⟩, ih (Descendant.child below member)⟩

theorem Joined.rooted (joined : Joined new parent before after) (joinable : Joinable genesis before new parent) :
    Rooted genesis (view after) := by
  have genesisAttached : Attached (view before) genesis.hash :=
    ⟨genesis.header, joinable.forest.origin, genesis_attached genesis⟩
  have split : ∀ hash header, view after hash = some header →
      Joins before new hash ∨ ¬ Joins before new hash ∧ view before hash = some header := by
    intro hash header found
    by_cases below : Joins before new hash
    · exact Or.inl below
    · rw [joined.others hash below] at found
      exact Or.inr ⟨below, found⟩
  constructor
  · intro hash header found
    rcases split hash header found with below | ⟨_, old⟩
    · obtain ⟨node, _, foundNode, named, _⟩ := joined.node joinable hash below
      rw [found] at foundNode
      cases foundNode
      exact named
    · exact joinable.forest.hash hash header old
  · cases found : view after nullHash with
    | none => rfl
    | some header =>
      rcases split nullHash header found with below | ⟨_, old⟩
      · rcases below.cases_tail with same | ⟨above, _, member⟩
        · exact absurd same.symm new.hash_ne_null
        · obtain ⟨waitingHeader, foundWaiting, _⟩ :=
            joinable.forest.waits above nullHash ((mem_waitingFor _ _ _).mp member)
          rw [joinable.forest.null] at foundWaiting
          cases foundWaiting
      · rw [joinable.forest.null] at old
        cases old
  · rw [joined.attached_same joinable _ genesisAttached]
    exact joinable.forest.origin
  · intro hash header found attached
    rcases split hash header found with below | ⟨_, old⟩
    · obtain ⟨node, _, foundNode, _, _, _, height, _⟩ := joined.node joinable hash below
      rw [found] at foundNode
      cases foundNode
      exact le_of_lt height
    · exact joinable.forest.height hash header old attached
  · intro hash header found attached other
    rcases split hash header found with below | ⟨_, old⟩
    · obtain ⟨node, above, foundNode, _, _, _, _, foundAbove, linked, _⟩ := joined.node joinable hash below
      rw [found] at foundNode
      cases foundNode
      exact ⟨above, foundAbove, linked⟩
    · obtain ⟨above, foundAbove, linked⟩ := joinable.forest.attached hash header old attached other
      refine ⟨above, ?_, linked⟩
      rw [joined.attached_same joinable _ ⟨above, foundAbove, linked.attached⟩]
      exact foundAbove

/-- What is attached afterwards is what was attached before and what joined. -/
theorem Joined.attached_iff (joined : Joined new parent before after) (joinable : Joinable genesis before new parent)
    (hash : Hash) : Attached (view after) hash ↔ Attached (view before) hash ∨ Joins before new hash := by
  constructor
  · intro ⟨header, found, attached⟩
    by_cases below : Joins before new hash
    · exact Or.inr below
    · rw [joined.others hash below] at found
      exact Or.inl ⟨header, found, attached⟩
  · intro either
    rcases either with attached | below
    · unfold Attached
      rw [joined.attached_same joinable hash attached]
      exact attached
    · obtain ⟨header, _, found, _, attached, _⟩ := joined.node joinable hash below
      exact ⟨header, found, attached⟩

theorem Joined.forest (joined : Joined new parent before after) (joinable : Joinable genesis before new parent) :
    Forest genesis (view after) after.cachedDisconnected := by
  have waits : ∀ above child, (⟨above, child⟩ : ChainSegment) ∈ after.cachedDisconnected ↔
      (⟨above, child⟩ : ChainSegment) ∈ before.cachedDisconnected ∧ ¬ Joins before new child := by
    intro above child
    rw [← mem_waitingFor, ← mem_waitingFor]
    exact joined.waiting above child
  constructor
  · exact joined.rooted joinable
  · intro hash header found other
    by_cases below : Joins before new hash
    · obtain ⟨node, _, foundNode, _, _, work, _⟩ := joined.node joinable hash below
      rw [found] at foundNode
      cases foundNode
      exact work
    · rw [joined.others hash below] at found
      exact joinable.forest.work hash header found other
  · intro hash header found disconnected
    rw [waits]
    by_cases below : Joins before new hash
    · obtain ⟨node, _, foundNode, _, attached, _⟩ := joined.node joinable hash below
      rw [found] at foundNode
      cases foundNode
      rw [attached] at disconnected
      cases disconnected
    · rw [joined.others hash below] at found
      exact ⟨joinable.forest.detached hash header found disconnected, below⟩
  · intro above child member
    obtain ⟨inBefore, notBelow⟩ := (waits above child).mp member
    obtain ⟨header, found, facts⟩ := joinable.forest.waits above child inBefore
    exact ⟨header, (joined.others child notBelow).trans found, facts⟩
  · exact joinable.forest.nodup.sublist joined.sublist
  · intro above child member attached
    obtain ⟨inBefore, notBelow⟩ := (waits above child).mp member
    rcases (joined.attached_iff joinable above).mp attached with old | below
    · exact joinable.forest.closed above child inBefore old
    · exact notBelow (Descendant.child below ((mem_waitingFor _ _ _).mpr inBefore))

end Joined

/-- A header whose parent is not attached waits for it. -/
theorem forest_disconnect {headers others : Hash → Option (Header Work)} {waiting : List ChainSegment}
    (forest : Forest genesis headers waiting) (new : NewHeader Work) (fresh : headers new.hash = none)
    (alone : ¬ Attached headers new.parentHash)
    (same : ∀ hash, others hash = if hash = new.hash then some new.header.setDisconnectedState else headers hash) :
    Forest genesis others (waiting ++ [⟨new.parentHash, new.hash⟩]) := by
  have old : ∀ hash header, headers hash = some header → hash ≠ new.hash := by
    intro hash header found equal
    rw [equal, fresh] at found
    cases found
  have split : ∀ hash header, others hash = some header →
      hash = new.hash ∧ header = new.header.setDisconnectedState ∨ headers hash = some header := by
    intro hash header found
    rw [same] at found
    split at found
    · rename_i equal
      exact Or.inl ⟨equal, (Option.some.inj found).symm⟩
    · exact Or.inr found
  have keeps : ∀ hash header, headers hash = some header → others hash = some header := by
    intro hash header found
    rw [same, if_neg (old hash header found)]
    exact found
  have attachedOld : ∀ hash, Attached others hash → Attached headers hash := by
    intro hash ⟨header, found, attached⟩
    rcases split hash header found with ⟨_, rfl⟩ | before
    · cases attached
    · exact ⟨header, before, attached⟩
  constructor
  · constructor
    · intro hash header found
      rcases split hash header found with ⟨rfl, rfl⟩ | before
      · rfl
      · exact forest.hash hash header before
    · rw [same, if_neg new.hash_ne_null.symm]
      exact forest.null
    · exact keeps _ _ forest.origin
    · intro hash header found attached
      rcases split hash header found with ⟨_, rfl⟩ | before
      · cases attached
      · exact forest.height hash header before attached
    · intro hash header found attached other
      rcases split hash header found with ⟨_, rfl⟩ | before
      · cases attached
      · obtain ⟨parent, above, linked⟩ := forest.attached hash header before attached other
        exact ⟨parent, keeps _ _ above, linked⟩
  · intro hash header found other
    rcases split hash header found with ⟨_, rfl⟩ | before
    · exact new.work_pos
    · exact forest.work hash header before other
  · intro hash header found disconnected
    rcases split hash header found with ⟨rfl, rfl⟩ | before
    · exact List.mem_append_right _ (List.mem_singleton.mpr rfl)
    · exact List.mem_append_left _ (forest.detached hash header before disconnected)
  · intro parent child member
    rcases List.mem_append.mp member with before | last
    · obtain ⟨header, found, facts⟩ := forest.waits parent child before
      exact ⟨header, keeps child header found, facts⟩
    · rw [List.mem_singleton, ChainSegment.mk.injEq] at last
      obtain ⟨rfl, rfl⟩ := last
      refine ⟨new.header.setDisconnectedState, ?_, rfl, rfl⟩
      rw [same, if_pos rfl]
  · apply List.Nodup.append forest.nodup (List.nodup_singleton _)
    intro segment before last
    rw [List.mem_singleton] at last
    subst last
    obtain ⟨header, found, _⟩ := forest.waits _ _ before
    exact old _ header found rfl
  · intro parent child member attached
    rcases List.mem_append.mp member with before | last
    · exact forest.closed parent child before (attachedOld parent attached)
    · rw [List.mem_singleton, ChainSegment.mk.injEq] at last
      rw [last.1] at attached
      exact alone (attachedOld _ attached)

end Opentxs.HeaderOracle.Join
