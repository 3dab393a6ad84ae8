import Opentxs.Library.Tree
import Opentxs.HeaderOracle.Shared

/-! The headers as an update shows them, and how they hang together: every header that is
attached stands under its parent, every other one waits in the disconnected set. -/

namespace Opentxs.HeaderOracle.HeaderTree
open Library BlockHeader Storage Update

variable {Work : Type}

/-- A staged header hides the stored one. -/
def view (update : UpdateTransaction Work) (hash : Hash) : Option (Header Work) :=
  (update.headers hash).or (update.db.headers hash)

def Attached (headers : Hash → Option (Header Work)) (hash : Hash) : Prop :=
  ∃ header, headers hash = some header ∧ header.isDisconnected = false

def waitingFor (waiting : List ChainSegment) (parent : Hash) : List Hash :=
  (waiting.filter fun segment => segment.parent = parent).map ChainSegment.child

theorem mem_waitingFor (waiting : List ChainSegment) (parent child : Hash) :
    child ∈ waitingFor waiting parent ↔ (⟨parent, child⟩ : ChainSegment) ∈ waiting := by
  unfold waitingFor
  rw [List.mem_map]
  constructor
  · intro ⟨segment, member, same⟩
    obtain ⟨inWaiting, named⟩ := List.mem_filter.mp member
    have parentSame : segment.parent = parent := of_decide_eq_true named
    rw [← parentSame, ← same]
    exact inWaiting
  · intro member
    exact ⟨⟨parent, child⟩, List.mem_filter.mpr ⟨member, decide_eq_true rfl⟩, rfl⟩

theorem equalRange_eq (update : UpdateTransaction Work) (parent : Hash) :
    update.equalRange parent = (waitingFor update.cachedDisconnected parent).map (ChainSegment.mk parent) := by
  unfold UpdateTransaction.equalRange waitingFor
  rw [List.map_map]
  symm
  calc (update.cachedDisconnected.filter fun segment => segment.parent = parent).map
        (ChainSegment.mk parent ∘ ChainSegment.child)
      = (update.cachedDisconnected.filter fun segment => segment.parent = parent).map id := by
        apply List.map_congr_left
        intro segment member
        have named : segment.parent = parent := of_decide_eq_true (List.mem_filter.mp member).2
        rw [← named]
        rfl
    _ = update.cachedDisconnected.filter fun segment => segment.parent = parent := List.map_id _

/-! ## What a header is when it is attached -/

section Attach

variable [Add Work] (checkpoint : Position) (parent child : Header Work)

omit [Add Work] in
theorem isDisconnected_of_status (header : Header Work) (status : header.status ≠ .disconnected)
    (inherited : header.inheritStatus ≠ .disconnected) : header.isDisconnected = false := by
  unfold Header.isDisconnected Header.effectiveState
  rw [if_neg inherited]
  split
  · rename_i banned
    rw [banned]
    rfl
  · split
    · rfl
    · exact decide_eq_false status

theorem checkpointStatus_ne_disconnected (height : Int) (hash : Hash) :
    checkpointStatus checkpoint height hash ≠ .disconnected := by
  unfold checkpointStatus
  split
  · split
    · exact Status.noConfusion
    · exact Status.noConfusion
  · exact Status.noConfusion

theorem under_attached (attached : parent.isDisconnected = false) :
    (Header.under checkpoint parent child).isDisconnected = false := by
  apply isDisconnected_of_status
  · rw [under_status]
    exact checkpointStatus_ne_disconnected checkpoint _ _
  · rw [under_inheritStatus]
    intro disconnected
    unfold Header.isDisconnected at attached
    rw [disconnected] at attached
    cases attached

/-- How an attached header stands to its parent, whatever the checkpoint. -/
structure Linked : Prop where
  attached : parent.isDisconnected = false
  height : child.height = parent.height + 1
  inheritWork : child.inheritWork = parent.totalWork
  status : child.status ≠ .disconnected
  inheritStatus : child.inheritStatus ≠ .disconnected

theorem linked_under (attached : parent.isDisconnected = false) :
    Linked parent (Header.under checkpoint parent child) where
  attached := attached
  height := under_height checkpoint parent child
  inheritWork := under_inheritWork checkpoint parent child
  status := by
    rw [under_status]
    exact checkpointStatus_ne_disconnected checkpoint _ _
  inheritStatus := by
    rw [under_inheritStatus]
    intro disconnected
    unfold Header.isDisconnected at attached
    rw [disconnected] at attached
    cases attached

end Attach

/-- Attached headers stand under attached parents, down to genesis. -/
structure Rooted [Add Work] [Zero Work] (genesis : Genesis Work) (headers : Hash → Option (Header Work)) : Prop where
  hash : ∀ hash header, headers hash = some header → header.hash = hash
  null : headers nullHash = none
  origin : headers genesis.hash = some genesis.header
  height : ∀ hash header, headers hash = some header → header.isDisconnected = false → 0 ≤ header.height
  attached : ∀ hash header, headers hash = some header → header.isDisconnected = false →
    hash ≠ genesis.hash → ∃ parent, headers header.parentHash = some parent ∧ Linked parent header

/-- Every header that is not attached waits in the disconnected set for a parent that is not
attached either. -/
structure Forest [Add Work] [Zero Work] [LT Work] (genesis : Genesis Work)
    (headers : Hash → Option (Header Work)) (waiting : List ChainSegment) : Prop extends Rooted genesis headers where
  work : ∀ hash header, headers hash = some header → hash ≠ genesis.hash → 0 < header.work
  detached : ∀ hash header, headers hash = some header → header.isDisconnected = true →
    (⟨header.parentHash, hash⟩ : ChainSegment) ∈ waiting
  waits : ∀ parent child, (⟨parent, child⟩ : ChainSegment) ∈ waiting →
    ∃ header, headers child = some header ∧ header.isDisconnected = true ∧ header.parentHash = parent
  nodup : waiting.Nodup
  closed : ∀ parent child, (⟨parent, child⟩ : ChainSegment) ∈ waiting → ¬ Attached headers parent

theorem genesis_attached [Zero Work] (genesis : Genesis Work) : genesis.header.isDisconnected = false := rfl

theorem forest_initial [Add Work] [Zero Work] [LT Work] (genesis : Genesis Work) :
    Forest genesis (initial genesis).headers (initial genesis).disconnected := by
  have stored : ∀ hash header, (initial genesis).headers hash = some header →
      hash = genesis.hash ∧ genesis.header = header := by
    intro hash header found
    simp only [initial] at found
    split at found
    · rename_i same
      exact ⟨same, Option.some.inj found⟩
    · cases found
  constructor
  · constructor
    · intro hash header found
      obtain ⟨rfl, rfl⟩ := stored hash header found
      rfl
    · simp [initial, genesis.hash_ne_null.symm]
    · simp [initial]
    · intro hash header found _
      obtain ⟨rfl, rfl⟩ := stored hash header found
      exact Int.le_refl 0
    · intro hash header found _ other
      exact absurd (stored hash header found).1 other
  · intro hash header found other
    exact absurd (stored hash header found).1 other
  · intro hash header found disconnected
    obtain ⟨rfl, rfl⟩ := stored hash header found
    cases disconnected
  · intro parent child member
    cases member
  · exact List.nodup_nil
  · intro parent child member
    cases member

/-! ## Paths to genesis -/

section Paths

variable [Add Work] (genesis : Genesis Work) (headers : Hash → Option (Header Work))

/-- Connected to genesis through stored headers, at some height and with some cumulative work. -/
inductive Connected : Hash → Int → Work → Prop
  | genesis : Connected genesis.hash 0 genesis.work
  | child {hash : Hash} {header : Header Work} {height : Int} {work : Work} : headers hash = some header →
      Connected header.parentHash height work → Connected hash (height + 1) (header.work + work)

/-- `ancestor` is `hash`, or on the path from `hash` to genesis. -/
inductive Ancestor (ancestor : Hash) : Hash → Prop
  | self : Ancestor ancestor ancestor
  | child {hash : Hash} {header : Header Work} : headers hash = some header →
      Ancestor ancestor header.parentHash → Ancestor ancestor hash

/-- The path to genesis passes through another block than the one the checkpoint requires. -/
def Conflicts (checkpoint : Position) (hash : Hash) : Prop :=
  ∃ block height work, Ancestor headers block hash ∧ Connected genesis headers block height work ∧
    height = checkpoint.height ∧ block ≠ checkpoint.hash

variable {genesis headers}

theorem Rooted.parentHash_ne_null [Zero Work] (rooted : Rooted genesis headers) (hash : Hash)
    (header : Header Work) (found : headers hash = some header) (attached : header.isDisconnected = false)
    (other : hash ≠ genesis.hash) : header.parentHash ≠ nullHash := by
  obtain ⟨parent, above, _⟩ := rooted.attached hash header found attached other
  intro null
  rw [null, rooted.null] at above
  cases above

theorem Rooted.totalWork [Zero Work] (rooted : Rooted genesis headers) (hash : Hash) (header parent : Header Work)
    (found : headers hash = some header) (attached : header.isDisconnected = false) (other : hash ≠ genesis.hash)
    (linked : Linked parent header) : header.totalWork = header.work + parent.totalWork := by
  unfold Header.totalWork
  rw [if_neg (rooted.parentHash_ne_null hash header found attached other), linked.inheritWork]
  rfl

theorem Rooted.connected [Zero Work] (rooted : Rooted genesis headers) (hash : Hash) (header : Header Work)
    (found : headers hash = some header) (attached : header.isDisconnected = false) :
    Connected genesis headers hash header.height header.totalWork := by
  have atLeast := rooted.height hash header found attached
  obtain ⟨count, height⟩ := Int.eq_ofNat_of_zero_le atLeast
  induction count using Nat.strong_induction_on generalizing hash header with
  | _ count ih =>
    by_cases same : hash = genesis.hash
    · subst same
      rw [rooted.origin] at found
      cases found
      exact Connected.genesis
    · obtain ⟨parent, above, linked⟩ := rooted.attached hash header found attached same
      have parentHeight := rooted.height _ parent above linked.attached
      have next := linked.height
      rw [rooted.totalWork hash header parent found attached same linked, next]
      apply Connected.child found
      exact ih parent.height.toNat (by omega) header.parentHash parent above linked.attached parentHeight (by omega)

theorem Rooted.genesis_ancestor [Zero Work] (rooted : Rooted genesis headers) (hash : Hash) (header : Header Work)
    (found : headers hash = some header) (attached : header.isDisconnected = false) :
    Ancestor headers genesis.hash hash := by
  have connected := rooted.connected hash header found attached
  clear found attached
  generalize header.height = height at connected
  generalize header.totalWork = work at connected
  induction connected with
  | genesis => exact Ancestor.self
  | child found _ ih => exact Ancestor.child found ih

/-- Connected to genesis through stored headers is the same as attached, and the stored
height and cumulative work are those of the path. -/
theorem Forest.connected_iff [Zero Work] [LT Work] {waiting : List ChainSegment}
    (forest : Forest genesis headers waiting) (hash : Hash) (height : Int) (work : Work) :
    Connected genesis headers hash height work ↔ ∃ header, headers hash = some header ∧
      header.isDisconnected = false ∧ header.height = height ∧ header.totalWork = work := by
  constructor
  · intro connected
    induction connected with
    | genesis =>
      exact ⟨genesis.header, forest.origin, genesis_attached genesis, rfl, rfl⟩
    | child found _ ih =>
      rename_i hash header height work _
      obtain ⟨parent, above, parentAttached, rfl, rfl⟩ := ih
      have attached : header.isDisconnected = false := by
        by_contra disconnected
        have waits := forest.detached hash header found (by simpa using disconnected)
        exact forest.closed _ _ waits ⟨parent, above, parentAttached⟩
      have other : hash ≠ genesis.hash := by
        intro same
        rw [same, forest.origin] at found
        cases found
        rw [Genesis.header, forest.null] at above
        cases above
      obtain ⟨known, foundKnown, linked⟩ := forest.attached hash header found attached other
      rw [above] at foundKnown
      cases foundKnown
      exact ⟨header, found, attached, linked.height, forest.totalWork hash header parent found attached other linked⟩
  · intro ⟨header, found, attached, height, work⟩
    exact height ▸ work ▸ forest.connected hash header found attached

end Paths

/-! ## Waiting blocks -/

section Waiting

variable [Add Work] [Zero Work] [LT Work] {genesis : Genesis Work} {headers : Hash → Option (Header Work)}
  {waiting : List ChainSegment}

theorem Forest.unique (forest : Forest genesis headers waiting) (first second child : Hash)
    (inFirst : child ∈ waitingFor waiting first) (inSecond : child ∈ waitingFor waiting second) : first = second := by
  obtain ⟨header, found, _, under⟩ := forest.waits first child ((mem_waitingFor _ _ _).mp inFirst)
  obtain ⟨other, foundOther, _, underOther⟩ := forest.waits second child ((mem_waitingFor _ _ _).mp inSecond)
  rw [found] at foundOther
  cases foundOther
  exact under.symm.trans underOther

omit [Add Work] [Zero Work] [LT Work] in
theorem waitingFor_nodup (nodup : waiting.Nodup) (parent : Hash) : (waitingFor waiting parent).Nodup := by
  unfold waitingFor
  apply List.Nodup.map_on _ (nodup.filter _)
  intro first inFirst second inSecond same
  have firstNamed : first.parent = parent := of_decide_eq_true (List.mem_filter.mp inFirst).2
  have secondNamed : second.parent = parent := of_decide_eq_true (List.mem_filter.mp inSecond).2
  cases first
  cases second
  simp_all

/-- What waits below a new block, and the block itself, is not attached. -/
theorem Forest.not_attached (forest : Forest genesis headers waiting) (top : Hash) (fresh : headers top = none)
    (hash : Hash) (below : Tree.Descendant (waitingFor waiting) top hash) : ¬ Attached headers hash := by
  intro ⟨header, found, attached⟩
  rcases below.cases_tail with rfl | ⟨parent, _, member⟩
  · rw [fresh] at found
    cases found
  · obtain ⟨other, foundOther, disconnected, _⟩ := forest.waits parent hash ((mem_waitingFor _ _ _).mp member)
    rw [found] at foundOther
    cases foundOther
    rw [attached] at disconnected
    cases disconnected

end Waiting

/-! ## Stretches of a branch -/

/-- The positions of consecutive blocks from some height on. -/
def numbered : Int → List Hash → List Position
  | _, [] => []
  | height, hash :: hashes => ⟨height, hash⟩ :: numbered (height + 1) hashes

theorem numbered_append (height : Int) (first second : List Hash) :
    numbered height (first ++ second) = numbered height first ++ numbered (height + first.length) second := by
  induction first generalizing height with
  | nil => simp [numbered]
  | cons hash first ih =>
    have shifted : height + 1 + (first.length : Int) = height + ((hash :: first).length : Int) := by
      rw [List.length_cons]
      omega
    rw [List.cons_append, numbered, ih, numbered, List.cons_append, shifted]

@[simp] theorem map_hash_numbered (height : Int) (hashes : List Hash) :
    (numbered height hashes).map Position.hash = hashes := by
  induction hashes generalizing height with
  | nil => rfl
  | cons hash hashes ih => rw [numbered, List.map_cons, ih]

theorem height_numbered (height : Int) (hashes : List Hash) :
    ∀ position ∈ numbered height hashes, height ≤ position.height := by
  induction hashes generalizing height with
  | nil =>
    intro position member
    cases member
  | cons hash hashes ih =>
    intro position member
    rcases List.mem_cons.mp member with rfl | later
    · exact Int.le_refl height
    · have above := ih (height + 1) position later
      omega

theorem mem_numbered (height : Int) (hashes : List Hash) (index : Nat) (hash : Hash)
    (found : hashes[index]? = some hash) : (⟨height + index, hash⟩ : Position) ∈ numbered height hashes := by
  induction hashes generalizing height index with
  | nil => cases found
  | cons first hashes ih =>
    cases index with
    | zero =>
      cases found
      simp [numbered]
    | succ index =>
      have shifted : height + ((index + 1 : Nat) : Int) = height + 1 + index := by omega
      rw [shifted]
      exact List.mem_cons_of_mem _ (ih (height + 1) index found)

/-- Attached blocks, each the parent of the next, the first a child of `base`. -/
def Lineage (headers : Hash → Option (Header Work)) : (base : Hash) → List Hash → Prop
  | _, [] => True
  | base, hash :: hashes =>
    (∃ header, headers hash = some header ∧ header.isDisconnected = false ∧ header.parentHash = base) ∧
      Lineage headers hash hashes

section Lineage

variable {headers : Hash → Option (Header Work)}

theorem lineage_append (base : Hash) (first second : List Hash) :
    Lineage headers base (first ++ second) ↔
      Lineage headers base first ∧ Lineage headers (first.getLastD base) second := by
  induction first generalizing base with
  | nil => simp [Lineage]
  | cons hash first ih => rw [List.cons_append, Lineage, Lineage, ih, and_assoc, Tree.getLastD_cons]

theorem lineage_attached {base : Hash} {hashes : List Hash} (lineage : Lineage headers base hashes) :
    ∀ hash ∈ hashes, Attached headers hash := by
  induction hashes generalizing base with
  | nil =>
    intro hash member
    cases member
  | cons first hashes ih =>
    intro hash member
    obtain ⟨⟨header, found, attached, _⟩, rest⟩ := lineage
    rcases List.mem_cons.mp member with rfl | later
    · exact ⟨header, found, attached⟩
    · exact ih rest hash later

/-- Every block of a lineage names the one before it. -/
theorem lineage_parent {base : Hash} {hashes : List Hash} (lineage : Lineage headers base hashes) (index : Nat)
    (hash : Hash) (found : hashes[index]? = some hash) :
    ∃ header, headers hash = some header ∧ header.isDisconnected = false ∧
      (base :: hashes)[index]? = some header.parentHash := by
  induction hashes generalizing base index with
  | nil => cases found
  | cons first hashes ih =>
    obtain ⟨⟨header, foundFirst, attached, named⟩, rest⟩ := lineage
    cases index with
    | zero =>
      cases found
      exact ⟨header, foundFirst, attached, by simp [named]⟩
    | succ index => exact ih rest index found

theorem lineage_congr {others : Hash → Option (Header Work)} {base : Hash} {hashes : List Hash}
    (same : ∀ hash ∈ hashes, others hash = headers hash) (lineage : Lineage headers base hashes) :
    Lineage others base hashes := by
  induction hashes generalizing base with
  | nil => exact lineage
  | cons hash hashes ih =>
    obtain ⟨⟨header, found, facts⟩, rest⟩ := lineage
    exact ⟨⟨header, (same hash List.mem_cons_self).trans found, facts⟩,
      ih (fun next member => same next (List.mem_cons_of_mem hash member)) rest⟩

variable [Add Work] [Zero Work] {genesis : Genesis Work}

/-- The blocks of a lineage have consecutive heights. -/
theorem Rooted.lineage_height (rooted : Rooted genesis headers) {base : Header Work} {hashes : List Hash}
    (found : headers base.hash = some base) (lineage : Lineage headers base.hash hashes) (index : Nat)
    (hash : Hash) (at_index : hashes[index]? = some hash) :
    ∃ header, headers hash = some header ∧ header.isDisconnected = false ∧
      header.height = base.height + 1 + index := by
  induction hashes generalizing base index with
  | nil => cases at_index
  | cons first hashes ih =>
    obtain ⟨⟨header, foundFirst, attached, named⟩, rest⟩ := lineage
    have other : first ≠ genesis.hash := by
      intro same
      rw [same, rooted.origin] at foundFirst
      cases foundFirst
      rw [← named, Genesis.header, rooted.null] at found
      cases found
    obtain ⟨parent, above, linked⟩ := rooted.attached first header foundFirst attached other
    rw [named, found] at above
    cases above
    cases index with
    | zero =>
      cases at_index
      exact ⟨header, foundFirst, attached, by rw [linked.height]; simp⟩
    | succ index =>
      have foundSelf := foundFirst
      rw [← rooted.hash first header foundFirst] at foundSelf rest
      obtain ⟨deeper, foundDeeper, deeperAttached, height⟩ := ih foundSelf rest index at_index
      refine ⟨deeper, foundDeeper, deeperAttached, ?_⟩
      rw [height, linked.height]
      omega

end Lineage

end Opentxs.HeaderOracle.HeaderTree
