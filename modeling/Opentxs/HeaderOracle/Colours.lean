import Opentxs.HeaderOracle.Batches

/-! Which headers are blacklisted: those whose path to genesis conflicts with the checkpoint.
Adding headers keeps this. -/

namespace Opentxs.HeaderOracle.Colours
open Library Library.Tree BlockHeader Storage Update Shared HeaderTree Frame Connect Join AddHeader Consistency Batches
set_option linter.unusedSectionVars false

variable {Work : Type} [AddCommMonoid Work] [LinearOrder Work] {genesis : Genesis Work}

/-- Every attached header has the state that the checkpoint and its parent give it. -/
def Coloured (genesis : Genesis Work) (checkpoint : Position) (headers : Hash → Option (Header Work)) : Prop :=
  ∀ hash header parent, headers hash = some header → header.isDisconnected = false → hash ≠ genesis.hash →
    headers header.parentHash = some parent →
    header.status = checkpointStatus checkpoint header.height hash ∧ header.inheritStatus = parent.effectiveState

/-- A header is blacklisted when its parent is or when it conflicts with the checkpoint itself. -/
theorem isBlacklisted_iff (checkpoint : Position) (hash : Hash) (parent header : Header Work)
    (attached : parent.isDisconnected = false) (status : header.status = checkpointStatus checkpoint header.height hash)
    (inherited : header.inheritStatus = parent.effectiveState) : header.isBlacklisted = true ↔
      parent.isBlacklisted = true ∨ checkpointStatus checkpoint header.height hash = .checkpointBanned := by
  unfold Header.isBlacklisted
  rw [decide_eq_true_iff, decide_eq_true_iff]
  have connected : parent.effectiveState ≠ .disconnected := of_decide_eq_false attached
  conv_lhs => unfold Header.effectiveState
  rw [inherited, status]
  by_cases banned : parent.effectiveState = .checkpointBanned
  · simp [banned]
  · rw [if_neg banned, if_neg connected]
    by_cases required : checkpointStatus checkpoint header.height hash = .checkpoint
    · simp [required, banned]
    · simp [required, banned]

theorem under_isBlacklisted (checkpoint : Position) (parent child : Header Work)
    (attached : parent.isDisconnected = false) : (Header.under checkpoint parent child).isBlacklisted = true ↔
      parent.isBlacklisted = true ∨ checkpointStatus checkpoint (parent.height + 1) child.hash = .checkpointBanned := by
  have facts := isBlacklisted_iff checkpoint child.hash parent (Header.under checkpoint parent child) attached
    (by rw [under_status, under_height]) (under_inheritStatus _ _ _)
  rwa [under_height] at facts

theorem checkpointStatus_banned (checkpoint : Position) (height : Int) (hash : Hash) :
    checkpointStatus checkpoint height hash = .checkpointBanned ↔ height = checkpoint.height ∧ hash ≠ checkpoint.hash := by
  unfold checkpointStatus
  by_cases same : checkpoint.height = height
  · by_cases required : checkpoint.hash = hash
    · simp [same, required]
    · simp [same, required, Ne.symm required]
  · simp [same, Ne.symm same]

/-! ## Blacklisted by the path -/

section Path

variable {headers : Hash → Option (Header Work)} {waiting : List ChainSegment}

theorem conflicts_step (forest : Forest genesis headers waiting) {checkpoint : Position} {hash : Hash}
    {header : Header Work} (found : headers hash = some header) (attached : header.isDisconnected = false) :
    Conflicts genesis headers checkpoint hash ↔
      Conflicts genesis headers checkpoint header.parentHash ∨
        (header.height = checkpoint.height ∧ hash ≠ checkpoint.hash) := by
  have connected := (forest.connected_iff hash header.height header.totalWork).mpr ⟨header, found, attached, rfl, rfl⟩
  constructor
  · intro ⟨block, height, work, ancestor, blockConnected, same, other⟩
    cases ancestor with
    | self =>
      obtain ⟨known, foundKnown, _, knownHeight, _⟩ := (forest.connected_iff hash height work).mp blockConnected
      rw [found] at foundKnown
      cases foundKnown
      exact Or.inr ⟨knownHeight.trans same, other⟩
    | child foundChild above =>
      rw [found] at foundChild
      cases foundChild
      exact Or.inl ⟨block, height, work, above, blockConnected, same, other⟩
  · intro either
    rcases either with ⟨block, height, work, ancestor, blockConnected, same, other⟩ | ⟨same, other⟩
    · exact ⟨block, height, work, Ancestor.child found ancestor, blockConnected, same, other⟩
    · exact ⟨hash, header.height, header.totalWork, Ancestor.self, connected, same, other⟩

/-- The stored state of an attached header says whether its path conflicts with the checkpoint. -/
theorem blacklisted_iff_conflicts (forest : Forest genesis headers waiting) {checkpoint : Position}
    (coloured : Coloured genesis checkpoint headers) (above : checkpoint.height ≠ 0) {hash : Hash} {header : Header Work}
    (found : headers hash = some header) (attached : header.isDisconnected = false) :
    header.isBlacklisted = true ↔ Conflicts genesis headers checkpoint hash := by
  have atLeast := forest.height hash header found attached
  obtain ⟨count, height⟩ := Int.eq_ofNat_of_zero_le atLeast
  induction count using Nat.strong_induction_on generalizing hash header with
  | _ count ih =>
    by_cases origin : hash = genesis.hash
    · subst origin
      rw [forest.origin] at found
      cases found
      constructor
      · intro banned
        cases banned
      · intro conflicts
        rcases (conflicts_step forest forest.origin attached).mp conflicts with ⟨block, _, _, ancestor, connected, _⟩ | ⟨same, _⟩
        · cases ancestor with
          | self =>
            obtain ⟨_, foundNull, _⟩ := (forest.connected_iff _ _ _).mp connected
            rw [Genesis.header, forest.null] at foundNull
            cases foundNull
          | child foundNull _ =>
            rw [Genesis.header, forest.null] at foundNull
            cases foundNull
        · exact absurd same.symm above
    · obtain ⟨parent, foundParent, linked⟩ := forest.attached hash header found attached origin
      obtain ⟨status, inherited⟩ := coloured hash header parent found attached origin foundParent
      have parentHeight := forest.height _ parent foundParent linked.attached
      have next := linked.height
      have upper := ih parent.height.toNat (by omega) foundParent linked.attached parentHeight (by omega)
      rw [isBlacklisted_iff checkpoint hash parent header linked.attached status inherited,
        conflicts_step forest found attached, checkpointStatus_banned]
      exact or_congr_left upper

end Path

/-! ## One colour for all that joins -/

/-- The blocks that a header brings along all have its colour. -/
def SameColour (update : UpdateTransaction Work) (new : NewHeader Work) : Prop :=
  ∀ parent, view update new.parentHash = some parent →
    parent.isBlacklisted = true ∨
    checkpointStatus update.checkpoint (parent.height + 1) new.hash = .checkpointBanned ∨
    ∀ rest, Path (waitingFor update.cachedDisconnected) new.hash rest →
      checkpointStatus update.checkpoint (parent.height + 1 + rest.length) (rest.getLastD new.hash) ≠ .checkpointBanned

section Joined

variable {new : NewHeader Work} {parent : Header Work} {before after : UpdateTransaction Work}

theorem joined_stands (joined : Joined new parent before after) (joinable : Joinable genesis before new parent)
    {above child : Hash} (below : Joins before new above)
    (member : child ∈ waitingFor before.cachedDisconnected above) :
    ∃ header upper lower, view after child = some header ∧ view after above = some upper ∧
      upper.isDisconnected = false ∧ header = Header.under before.checkpoint upper lower ∧ lower.hash = child := by
  obtain ⟨header, found, _, under⟩ := joined.child joinable below member
  obtain ⟨node, upper, foundNode, named, _, _, _, foundUpper, linked, lower, equal⟩ :=
    joined.node joinable child (Descendant.child below member)
  rw [found] at foundNode
  cases foundNode
  rw [under] at foundUpper
  refine ⟨header, upper, lower, found, foundUpper, linked.attached, equal, ?_⟩
  rw [equal, under_hash] at named
  exact named

/-- Below a blacklisted header everything is. -/
theorem all_banned (joined : Joined new parent before after) (joinable : Joinable genesis before new parent)
    (banned : (Header.under before.checkpoint parent new.header).isBlacklisted = true) (hash : Hash)
    (below : Joins before new hash) (header : Header Work) (found : view after hash = some header) :
    header.isBlacklisted = true := by
  induction below generalizing header with
  | top =>
    rw [joined.top] at found
    cases found
    exact banned
  | child below member ih =>
    obtain ⟨other, upper, lower, foundOther, foundUpper, attached, rfl, _⟩ := joined_stands joined joinable below member
    rw [found] at foundOther
    cases foundOther
    exact (under_isBlacklisted _ _ _ attached).mpr (Or.inl (ih upper foundUpper))

theorem all_allowed (joined : Joined new parent before after) (joinable : Joinable genesis before new parent)
    (allowed : parent.isBlacklisted = false)
    (none : ∀ rest, Path (waitingFor before.cachedDisconnected) new.hash rest →
      checkpointStatus before.checkpoint (parent.height + 1 + rest.length) (rest.getLastD new.hash) ≠ .checkpointBanned)
    (hash : Hash) (below : Joins before new hash) :
    ∃ rest, Path (waitingFor before.cachedDisconnected) new.hash rest ∧ rest.getLastD new.hash = hash ∧
      ∀ header, view after hash = some header →
        header.height = parent.height + 1 + rest.length ∧ header.isBlacklisted = false := by
  induction below with
  | top =>
    refine ⟨[], Path.done _, rfl, ?_⟩
    intro header found
    rw [joined.top] at found
    cases found
    refine ⟨by simp, ?_⟩
    rw [← Bool.not_eq_true, under_isBlacklisted _ _ _ joinable.attached, not_or]
    refine ⟨by simp [allowed], ?_⟩
    have here := none [] (Path.done _)
    rw [List.length_nil, Nat.cast_zero, Int.add_zero] at here
    exact here
  | child below member ih =>
    obtain ⟨rest, path, last, facts⟩ := ih
    rename_i above hash
    have longer := path.snoc (last.symm ▸ member)
    refine ⟨rest ++ [hash], longer, by simp, ?_⟩
    intro header found
    obtain ⟨other, upper, lower, foundOther, foundUpper, attached, rfl, named⟩ :=
      joined_stands joined joinable below member
    rw [found] at foundOther
    cases foundOther
    obtain ⟨height, upperAllowed⟩ := facts upper foundUpper
    have lengthened : upper.height + 1 = parent.height + 1 + (rest ++ [hash]).length := by
      rw [height, List.length_append, List.length_singleton]
      omega
    refine ⟨(under_height _ _ _).trans lengthened, ?_⟩
    rw [← Bool.not_eq_true, under_isBlacklisted _ _ _ attached, not_or]
    refine ⟨by simp [upperAllowed], ?_⟩
    have here := none _ longer
    rw [lengthened, named]
    rw [List.getLastD_concat] at here
    exact here

theorem joined_colour (joined : Joined new parent before after) (joinable : Joinable genesis before new parent)
    (uniform : SameColour before new) : ∃ colour, ∀ hash header, Joins before new hash →
      view after hash = some header → header.isBlacklisted = colour := by
  by_cases banned : (Header.under before.checkpoint parent new.header).isBlacklisted = true
  · exact ⟨true, fun hash header below found => all_banned joined joinable banned hash below header found⟩
  · rw [under_isBlacklisted _ _ _ joinable.attached, not_or] at banned
    have rest := ((uniform parent joinable.above).resolve_left banned.1).resolve_left banned.2
    refine ⟨false, ?_⟩
    intro hash header below found
    obtain ⟨_, _, _, facts⟩ := all_allowed joined joinable (by simpa using banned.1) rest hash below
    exact (facts header found).2

end Joined

/-! ## The colours are kept -/

theorem Coloured.waits {before after : UpdateTransaction Work} {new : NewHeader Work}
    (coloured : Coloured genesis before.checkpoint (view before)) (waits : Waits new before after)
    {waiting : List ChainSegment} (forest : Forest genesis (view before) waiting)
    (fresh : view before new.hash = none) : Coloured genesis after.checkpoint (view after) := by
  rw [waits.chain.checkpoint]
  intro hash header parent found attached other foundParent
  rw [waits.headers] at found foundParent
  split at found
  · cases found
    cases attached
  · obtain ⟨above, foundAbove, linked⟩ := forest.attached hash header found attached other
    have notNew : header.parentHash ≠ new.hash := by
      intro same
      rw [same, fresh] at foundAbove
      cases foundAbove
    rw [if_neg notNew] at foundParent
    exact coloured hash header parent found attached other foundParent

theorem Coloured.joined {before after : UpdateTransaction Work} {new : NewHeader Work} {parent : Header Work}
    (coloured : Coloured genesis before.checkpoint (view before)) (joined : Joined new parent before after)
    (joinable : Joinable genesis before new parent) : Coloured genesis after.checkpoint (view after) := by
  rw [joined.checkpoint]
  intro hash header above found attached other foundAbove
  by_cases below : Joins before new hash
  · obtain ⟨node, upper, foundNode, named, _, _, _, foundUpper, _, lower, equal⟩ := joined.node joinable hash below
    rw [found] at foundNode
    cases foundNode
    rw [foundAbove] at foundUpper
    cases foundUpper
    rw [equal, under_hash] at named
    rw [equal, under_status, under_height, under_inheritStatus, named]
    exact ⟨rfl, rfl⟩
  · rw [joined.others hash below] at found
    obtain ⟨upper, foundUpper, linked⟩ := joinable.forest.attached hash header found attached other
    rw [joined.attached_same joinable _ ⟨upper, foundUpper, linked.attached⟩] at foundAbove
    exact coloured hash header above found attached other foundAbove

theorem Coloured.added {before after : UpdateTransaction Work} {current best : Header Work} {new : NewHeader Work}
    (coloured : Coloured genesis before.checkpoint (view before)) (consistent : Consistent genesis before current)
    (added : Added genesis new before current after best) : Coloured genesis after.checkpoint (view after) := by
  cases added with
  | known => exact coloured
  | waits fresh _ waits => exact coloured.waits waits consistent.forest fresh
  | joins joinable accepted => exact coloured.joined accepted.joined joinable

end Opentxs.HeaderOracle.Colours
