import Opentxs.HeaderOracle.Apply

/-! What every operation keeps, checkpoints and faults included: a connected header stands one
above its stored parent, down to the genesis block, and each row of the best chain names a
connected header of its height. -/

namespace Opentxs.HeaderOracle.Placement
open Library Library.Ordered BlockHeader Storage Update Shared HeaderTree Frame Connect Apply
set_option linter.unusedSectionVars false

variable {Work : Type} [AddCommMonoid Work] [LinearOrder Work] {genesis : Genesis Work}
variable {headers others : Hash → Option (Header Work)} {parent child next : Header Work}

/-! ## Headers -/

/-- Heights lead down to the genesis block, one parent after the other. -/
structure Tidy (genesis : Genesis Work) (headers : Hash → Option (Header Work)) : Prop where
  named : ∀ hash header, headers hash = some header → header.hash = hash
  null : headers nullHash = none
  origin : ∃ header, headers genesis.hash = some header ∧ header.height = 0 ∧ header.parentHash = nullHash
  attached : ∀ hash header, headers hash = some header → 0 ≤ header.height → header.isDisconnected = false
  bottom : ∀ hash header, headers hash = some header → header.height = 0 → hash = genesis.hash
  parent : ∀ hash header, headers hash = some header → 0 < header.height →
    ∃ parent, headers header.parentHash = some parent ∧ header.height = parent.height + 1

/-- A header counts as connected only with a height. -/
def Honest (headers : Hash → Option (Header Work)) : Prop :=
  ∀ hash header, headers hash = some header → header.isDisconnected = false → 0 ≤ header.height

/-- Known headers stay with their parents, and with their heights once they are connected. New
headers are connected. -/
structure Grown (headers others : Hash → Option (Header Work)) : Prop where
  kept : ∀ hash header, headers hash = some header → ∃ other, others hash = some other ∧
    other.parentHash = header.parentHash ∧ (0 ≤ header.height → other.height = header.height)
  fresh : ∀ hash other, others hash = some other → headers hash = some other ∨ 0 ≤ other.height

theorem Grown.refl (headers : Hash → Option (Header Work)) : Grown headers headers :=
  ⟨fun _ header found => ⟨header, found, rfl, fun _ => rfl⟩, fun _ _ => .inl⟩

theorem Grown.trans {middle : Hash → Option (Header Work)} (first : Grown headers middle) (second : Grown middle others) :
    Grown headers others := by
  constructor
  · intro hash header found
    obtain ⟨one, there, named, level⟩ := first.kept hash header found
    obtain ⟨two, last, again, same⟩ := second.kept hash one there
    refine ⟨two, last, again.trans named, fun connected => ?_⟩
    have height := level connected
    rw [same (by omega), height]
  · intro hash other found
    rcases second.fresh hash other found with before | connected
    · exact first.fresh hash other before
    · exact .inr connected

/-- A header as a step holds it, connected. -/
structure Standing (headers : Hash → Option (Header Work)) (header : Header Work) : Prop where
  nonneg : 0 ≤ header.height
  attached : header.isDisconnected = false
  found : ∃ other, headers header.hash = some other ∧ other.parentHash = header.parentHash ∧ other.height = header.height

/-- A connected header has the position. -/
def Placed (headers : Hash → Option (Header Work)) (position : Position) : Prop :=
  ∃ header, headers position.hash = some header ∧ header.height = position.height ∧ 0 ≤ header.height

theorem Standing.grown (standing : Standing headers parent) (grown : Grown headers others) : Standing others parent := by
  obtain ⟨other, found, named, level⟩ := standing.found
  obtain ⟨last, there, again, same⟩ := grown.kept _ other found
  refine ⟨standing.nonneg, standing.attached, last, there, again.trans named, ?_⟩
  rw [same (level ▸ standing.nonneg), level]

theorem Placed.grown {position : Position} (placed : Placed headers position) (grown : Grown headers others) :
    Placed others position := by
  obtain ⟨header, found, level, nonneg⟩ := placed
  obtain ⟨other, there, _, same⟩ := grown.kept _ header found
  have height := same nonneg
  exact ⟨other, there, height.trans level, by omega⟩

theorem Standing.placed (standing : Standing headers parent) : Placed headers parent.position := by
  obtain ⟨other, found, _, level⟩ := standing.found
  exact ⟨other, found, level, level ▸ standing.nonneg⟩

theorem Tidy.standing (tidy : Tidy genesis headers) {hash : Hash} {header : Header Work} (found : headers hash = some header)
    (nonneg : 0 ≤ header.height) : Standing headers header := by
  have named := tidy.named hash header found
  exact ⟨nonneg, tidy.attached hash header found nonneg, header, named ▸ found, rfl, rfl⟩

theorem Placed.standing (tidy : Tidy genesis headers) {position : Position} (placed : Placed headers position) :
    ∃ header, headers position.hash = some header ∧ header.position = position ∧ Standing headers header := by
  obtain ⟨header, found, level, nonneg⟩ := placed
  refine ⟨header, found, ?_, tidy.standing found nonneg⟩
  rw [Header.position, level, tidy.named _ header found]

/-- One header is replaced, or comes to the others. -/
def put (headers : Hash → Option (Header Work)) (next : Header Work) (hash : Hash) : Option (Header Work) :=
  if hash = next.hash then some next else headers hash

/-- A header is connected under a connected one. What was known of it named the same parent. -/
structure Connects (headers : Hash → Option (Header Work)) (parent next : Header Work) : Prop where
  above : Standing headers parent
  named : next.parentHash = parent.hash
  height : next.height = parent.height + 1
  attached : next.isDisconnected = false
  real : next.hash ≠ nullHash
  before : ∀ other, headers next.hash = some other → other.parentHash = next.parentHash

/-- It has its old height, if it had one. -/
theorem Connects.height_eq (connects : Connects headers parent next) (tidy : Tidy genesis headers) {other : Header Work}
    (found : headers next.hash = some other) (nonneg : 0 ≤ other.height) : other.height = next.height := by
  have named := connects.before other found
  obtain ⟨above, there, _, level⟩ := connects.above.found
  rw [← connects.named, ← named] at there
  rcases nonneg.eq_or_lt with zero | positive
  · exfalso
    have root := tidy.bottom _ other found zero.symm
    obtain ⟨origin, at_root, _, null⟩ := tidy.origin
    rw [root, at_root] at found
    cases found
    rw [null, tidy.null] at there
    cases there
  · obtain ⟨lower, loaded, height⟩ := tidy.parent _ other found positive
    rw [there] at loaded
    cases loaded
    rw [height, level, connects.height]

theorem Connects.grown (connects : Connects headers parent next) (tidy : Tidy genesis headers) : Grown headers (put headers next) := by
  constructor
  · intro hash header found
    by_cases same : hash = next.hash
    · subst same
      exact ⟨next, if_pos rfl, (connects.before header found).symm, fun nonneg => (connects.height_eq tidy found nonneg).symm⟩
    · exact ⟨header, (if_neg same).trans found, rfl, fun _ => rfl⟩
  · intro hash other found
    unfold put at found
    split at found
    · cases found
      have nonneg := connects.above.nonneg
      exact .inr (by rw [connects.height]; omega)
    · exact .inl found

theorem Connects.tidy (connects : Connects headers parent next) (tidy : Tidy genesis headers) : Tidy genesis (put headers next) := by
  have grown := connects.grown tidy
  have nonneg := connects.above.nonneg
  have height := connects.height
  refine ⟨?_, ?_, ?_, ?_, ?_, ?_⟩
  · intro hash header found
    unfold put at found
    split at found
    · next same =>
      cases found
      exact same.symm
    · exact tidy.named hash header found
  · exact (if_neg fun same => connects.real same.symm).trans tidy.null
  · obtain ⟨origin, found, level, null⟩ := tidy.origin
    by_cases same : genesis.hash = next.hash
    · exfalso
      have old := connects.height_eq tidy (same ▸ found) level.ge
      omega
    · exact ⟨origin, (if_neg same).trans found, level, null⟩
  · intro hash header found
    unfold put at found
    split at found
    · cases found
      exact fun _ => connects.attached
    · exact tidy.attached hash header found
  · intro hash header found zero
    unfold put at found
    split at found
    · cases found
      omega
    · exact tidy.bottom hash header found zero
  · intro hash header found positive
    unfold put at found
    split at found
    · cases found
      obtain ⟨above, there, _, level⟩ := (connects.above.grown grown).found
      exact ⟨above, connects.named ▸ there, by rw [connects.height, level]⟩
    · obtain ⟨lower, loaded, level⟩ := tidy.parent hash header found positive
      obtain ⟨other, there, _, same⟩ := grown.kept _ lower loaded
      exact ⟨other, there, by rw [same (by omega), level]⟩

theorem Connects.standing (connects : Connects headers parent next) : Standing (put headers next) next := by
  have nonneg := connects.above.nonneg
  exact ⟨by rw [connects.height]; omega, connects.attached, next, if_pos rfl, rfl, rfl⟩

/-- What the code's connection makes of a header. -/
theorem connects_of_ok {checkpoint : Position} (standing : Standing headers parent) (real : child.hash ≠ nullHash)
    (before : ∀ other, headers child.hash = some other → other.parentHash = child.parentHash)
    (connected : connectToParent checkpoint parent child = .ok next) : Connects headers parent next := by
  by_cases named : child.parentHash = parent.hash
  · rw [connectToParent_ok checkpoint parent child named] at connected
    cases connected
    exact ⟨standing, (under_parentHash checkpoint parent child).trans named, under_height checkpoint parent child,
      under_attached checkpoint parent child standing.attached, by rw [under_hash]; exact real,
      by rw [under_hash, under_parentHash]; exact before⟩
  · rw [connectToParent_terminates checkpoint parent child named] at connected
    cases connected

/-! ## Updates -/

variable {before middle after : UpdateTransaction Work}

/-- The rows of the database and those on top of them name connected headers of their heights. -/
structure Neat (genesis : Genesis Work) (update : UpdateTransaction Work) : Prop where
  tidy : Tidy genesis (view update)
  stored : ∀ hash header, update.db.headers hash = some header → header.hash = hash
  rows : ∀ height, update.db.rows height ≠ nullHash → Placed (view update) ⟨height, update.db.rows height⟩
  best : ∀ height hash, update.best.find? height = some hash → Placed (view update) ⟨height, hash⟩

/-- A step over one database that leaves the update neat. -/
structure Kept (genesis : Genesis Work) (before after : UpdateTransaction Work) : Prop where
  neat : Neat genesis after
  db : after.db = before.db
  grown : Grown (view before) (view after)

theorem Kept.refl (neat : Neat genesis before) : Kept genesis before before := ⟨neat, rfl, Grown.refl _⟩

theorem Kept.trans (first : Kept genesis before middle) (second : Kept genesis middle after) : Kept genesis before after :=
  ⟨second.neat, second.db.trans first.db, first.grown.trans second.grown⟩

/-- The headers in view and the database stay, and each new row is placed. -/
theorem Neat.chained (neat : Neat genesis before) (same : view after = view before) (db : after.db = before.db)
    (best : ∀ height hash, after.best.find? height = some hash →
      before.best.find? height = some hash ∨ Placed (view before) ⟨height, hash⟩) : Kept genesis before after := by
  refine ⟨⟨same ▸ neat.tidy, db ▸ neat.stored, ?_, ?_⟩, db, same ▸ Grown.refl _⟩
  · rw [same, db]
    exact neat.rows
  · intro height hash found
    rw [same]
    exact (best height hash found).elim (neat.best height hash) id

theorem Neat.loaded (neat : Neat genesis before) (loaded : Loaded before after) : Kept genesis before after := by
  have same : view after = view before := funext loaded.view
  obtain ⟨headers, rfl⟩ := loaded.rest
  exact neat.chained same rfl fun _ _ found => .inl found

theorem Neat.sameTree (neat : Neat genesis before) {update : UpdateTransaction Work} (headers : update.headers = before.headers)
    (db : update.db = before.db) (best : update.best = before.best) : Kept genesis before update := by
  refine neat.chained ?_ db fun _ _ found => .inl (best ▸ found)
  funext hash
  unfold view
  rw [headers, db]

/-- Staging loads what is in view. -/
theorem Neat.stage (neat : Neat genesis before) {hash : Hash} {header : Header Work}
    (staged : before.stage hash = .ok (header, after)) :
    Kept genesis before after ∧ view before hash = some header ∧ view after = view before ∧ header.hash = hash := by
  cases found : view before hash with
  | none =>
    rw [stage_of_absent before hash found] at staged
    cases staged
  | some other =>
    have named := neat.tidy.named hash other found
    obtain ⟨update, same, loaded, _⟩ := stage_of_view before hash other found named
    rw [staged] at same
    cases same
    exact ⟨neat.loaded loaded, rfl, funext loaded.view, named⟩

theorem Neat.staged_parent (neat : Neat genesis before) {header : Header Work} (standing : Standing (view before) header)
    (staged : before.stage header.parentHash = .ok (parent, after)) :
    Kept genesis before after ∧ view after = view before ∧ Standing (view after) parent ∧ header.height = parent.height + 1 := by
  obtain ⟨kept, found, same, _⟩ := neat.stage staged
  obtain ⟨other, known, named, level⟩ := standing.found
  have nonneg := standing.nonneg
  rcases nonneg.eq_or_lt with zero | positive
  · exfalso
    have root := neat.tidy.bottom _ other known (by omega)
    obtain ⟨origin, at_root, _, null⟩ := neat.tidy.origin
    rw [root, at_root] at known
    cases known
    rw [← named, null, neat.tidy.null] at found
    cases found
  · obtain ⟨lower, loaded, height⟩ := neat.tidy.parent _ other known (by omega)
    rw [named, found] at loaded
    cases loaded
    exact ⟨kept, same, same ▸ neat.tidy.standing found (by omega), by omega⟩

theorem view_write_put (update : UpdateTransaction Work) (next : Header Work) : view (update.write next) = put (view update) next :=
  funext fun hash => view_write update next hash

theorem Neat.write (neat : Neat genesis before) (connects : Connects (view before) parent next) :
    Kept genesis before (before.write next) ∧ Standing (view (before.write next)) next := by
  have grown := connects.grown neat.tidy
  rw [view_write_put]
  refine ⟨⟨⟨?_, neat.stored, ?_, ?_⟩, rfl, ?_⟩, connects.standing⟩
  · rw [view_write_put]
    exact connects.tidy neat.tidy
  · rw [view_write_put]
    exact fun height present => (neat.rows height present).grown grown
  · rw [view_write_put]
    exact fun height hash found => (neat.best height hash found).grown grown
  · rw [view_write_put]
    exact grown

/-- A header in view is connected and written. -/
theorem Neat.connect (neat : Neat genesis before) {checkpoint : Position} (standing : Standing (view before) parent)
    (known : ∃ other, view before child.hash = some other ∧ other.parentHash = child.parentHash)
    (connected : connectToParent checkpoint parent child = .ok next) :
    Kept genesis before (before.write next) ∧ Standing (view (before.write next)) next := by
  obtain ⟨other, found, named⟩ := known
  refine neat.write (connects_of_ok standing ?_ ?_ connected)
  · intro null
    rw [null, neat.tidy.null] at found
    cases found
  · intro another there
    rw [found] at there
    cases there
    exact named

theorem Neat.row (neat : Neat genesis before) {height : Int} {header : Header Work}
    (found : view before (before.effectiveBestBlock height) = some header) :
    header.height = height ∧ Standing (view before) header := by
  have placed : Placed (view before) ⟨height, before.effectiveBestBlock height⟩ := by
    unfold UpdateTransaction.effectiveBestBlock at found ⊢
    cases there : before.best.find? height with
    | some hash => exact neat.best height hash there
    | none =>
      rw [there] at found
      change view before (before.db.bestBlock height) = some header at found
      show Placed (view before) ⟨height, before.db.bestBlock height⟩
      unfold Database.bestBlock at found ⊢
      split
      · next low =>
        rw [if_pos low, neat.tidy.null] at found
        cases found
      · next within =>
        rw [if_neg within] at found
        refine neat.rows height fun null => ?_
        rw [null, neat.tidy.null] at found
        cases found
  obtain ⟨other, there, level, nonneg⟩ := placed
  rw [found] at there
  cases there
  exact ⟨level, neat.tidy.standing found nonneg⟩

theorem Neat.stageHeight (neat : Neat genesis before) {height : Int} {header : Header Work}
    (staged : before.stageHeight height = .ok (header, after)) :
    Kept genesis before after ∧ Standing (view after) header := by
  obtain ⟨kept, found, same, _⟩ := neat.stage staged
  exact ⟨kept, same ▸ (neat.row found).2⟩

theorem noexcept_eq_ok {α : Type} {outcome : Except Fault α} {value : α} : noexcept outcome = .ok value ↔ outcome = .ok value := by
  cases outcome with
  | ok result => exact Iff.rfl
  | error fault =>
    cases fault with
    | exception => exact ⟨fun same => (nomatch same), fun same => (nomatch same)⟩
    | terminate => exact Iff.rfl
    | dangling => exact Iff.rfl
    | outOfFuel => exact Iff.rfl

/-- The best header is that of a row. -/
theorem Neat.stageBest (neat : Neat genesis before) {header : Header Work} (staged : before.stageBest = .ok (header, after)) :
    Kept genesis before after ∧ Standing (view after) header ∧ view after = view before := by
  unfold UpdateTransaction.stageBest at staged
  cases last : before.best.last? with
  | some entry =>
    rw [last] at staged
    change noexcept (before.stage entry.2) = _ at staged
    obtain ⟨kept, found, same, _⟩ := neat.stage (noexcept_eq_ok.mp staged)
    obtain ⟨other, there, _, nonneg⟩ := neat.best entry.1 entry.2 ((OrderedMap.last?_eq_some before.best entry.1 entry.2).mp last).1
    rw [found] at there
    cases there
    exact ⟨kept, same ▸ neat.tidy.standing found nonneg, same⟩
  | none =>
    rw [last] at staged
    cases current : before.db.currentBest with
    | error fault =>
      rw [current] at staged
      cases staged
    | ok best =>
      rw [current] at staged
      dsimp only [bind, Except.bind] at staged
      have loaded : before.db.headers before.db.best.hash = some best := by
        have loads := noexcept_eq_ok.mp current
        unfold Database.loadHeader at loads
        split at loads
        · next found =>
          cases loads
          exact found
        · cases loads
      have named := neat.stored _ best loaded
      have placed : Placed (view before) before.db.best := by
        unfold Database.best at loaded ⊢
        split
        · next empty =>
          rw [if_pos empty] at loaded
          have none := neat.tidy.null
          unfold view at none
          rw [(Option.or_eq_none_iff.mp none).2] at loaded
          cases loaded
        · next present => exact neat.rows _ present
      obtain ⟨other, there, _, nonneg⟩ := placed
      rw [← named] at there loaded
      cases stages : before.headers best.hash with
      | some header =>
        rw [stages] at staged
        cases staged
        have seen : view before best.hash = some header := by
          unfold view
          rw [stages]
          rfl
        rw [seen] at there
        cases there
        exact ⟨Kept.refl neat, neat.tidy.standing seen nonneg, rfl⟩
      | none =>
        rw [stages, Except.ok.injEq, Prod.mk.injEq] at staged
        obtain ⟨rfl, rfl⟩ := staged
        have seen : view before best.hash = some best := by
          unfold view
          rw [stages, loaded]
          rfl
        have same : best = other := Option.some.inj (seen.symm.trans there)
        have load := write_loaded before best.hash best seen rfl
        have equal : view (before.write best) = view before := funext load.view
        exact ⟨neat.loaded load, equal ▸ neat.tidy.standing seen (same ▸ nonneg), equal⟩

theorem bind_eq_ok {α β : Type} {first : Except Fault α} {rest : α → Except Fault β} {result : β} :
    (first >>= rest) = .ok result ↔ ∃ value, first = .ok value ∧ rest value = .ok result := by
  cases first with
  | ok value => exact ⟨fun run => ⟨value, rfl, run⟩, fun ⟨_, same, run⟩ => by cases same; exact run⟩
  | error fault => exact ⟨fun run => (nomatch run), fun ⟨_, same, _⟩ => (nomatch same)⟩

/-! ## Candidates -/

def PlacedAll (headers : Hash → Option (Header Work)) (candidates : List Candidate) : Prop :=
  ∀ candidate ∈ candidates, ∀ position ∈ candidate.chain, Placed headers position

theorem PlacedAll.grown {candidates : List Candidate} (placed : PlacedAll headers candidates) (grown : Grown headers others) :
    PlacedAll others candidates :=
  fun candidate member position inside => (placed candidate member position inside).grown grown

theorem placedAll_modify {candidates result : List Candidate} {reference : Reference} {change : Candidate → Candidate}
    (modified : Shared.modify candidates reference change = .ok result) (placed : PlacedAll headers candidates)
    (keeps : ∀ candidate, (∀ position ∈ candidate.chain, Placed headers position) →
      ∀ position ∈ (change candidate).chain, Placed headers position) : PlacedAll headers result := by
  unfold Shared.modify at modified
  split at modified
  · cases modified
    intro candidate member
    obtain ⟨index, bound, rfl⟩ := List.mem_iff_getElem.mp member
    rw [List.length_modify] at bound
    rw [List.getElem_modify]
    split
    · exact keeps _ (placed _ (List.getElem_mem bound))
    · exact placed _ (List.getElem_mem bound)
  · cases modified

theorem placed_read {candidates : List Candidate} {reference : Reference} {candidate : Candidate}
    (reads : Shared.read candidates reference = .ok candidate) : candidate ∈ candidates := by
  unfold Shared.read at reads
  split at reads
  · split at reads
    · next found =>
      cases reads
      exact List.mem_of_getElem? found
    · cases reads
  · cases reads

theorem Neat.walkBack (run : UpdateTransaction Work → Position → Bool) (rounds : Nat) :
    ∀ {grandparent : Header Work} {chain positions : List Position} {before after : UpdateTransaction Work}, Neat genesis before →
    Standing (view before) grandparent → (∀ position ∈ chain, Placed (view before) position) →
    walkBack run rounds grandparent chain before = .ok (positions, after) →
      Kept genesis before after ∧ ∀ position ∈ positions, Placed (view after) position := by
  induction rounds with
  | zero =>
    intro _ _ _ _ _ _ _ _ walked
    cases walked
  | succ rounds ih =>
    intro grandparent chain positions before after neat standing placed walked
    unfold Shared.walkBack at walked
    split at walked
    · split at walked
      · cases walked
      · obtain ⟨⟨next, loaded⟩, staged, rest⟩ := bind_eq_ok.mp walked
        obtain ⟨kept, same, above, _⟩ := neat.staged_parent standing staged
        obtain ⟨more, all⟩ := ih kept.neat above (by
          rw [same]
          exact List.forall_mem_cons.mpr ⟨standing.placed, placed⟩) rest
        exact ⟨kept.trans more, all⟩
    · cases walked
      refine ⟨Kept.refl neat, ?_⟩
      split
      · exact List.forall_mem_singleton.mpr standing.placed
      · exact placed

theorem Neat.initializeCandidate (neat : Neat genesis before) {run : UpdateTransaction Work → Position → Bool}
    {candidate : Candidate} (standing : Standing (view before) parent)
    (known : ∃ other, view before child.hash = some other ∧ other.parentHash = child.parentHash)
    (made : initializeCandidate run parent child before = .ok (candidate, next, after)) :
    Kept genesis before after ∧ Standing (view after) next ∧ (∀ position ∈ candidate.chain, Placed (view after) position) ∧
      next.hash = child.hash := by
  obtain ⟨linked, connected, rest⟩ := bind_eq_ok.mp made
  obtain ⟨⟨chain, walked⟩, walks, rest⟩ := bind_eq_ok.mp rest
  cases rest
  obtain ⟨kept, own⟩ := neat.connect standing known connected
  obtain ⟨more, placed⟩ := Neat.walkBack run _ kept.neat (standing.grown kept.grown) (List.forall_mem_nil _) walks
  refine ⟨kept.trans more, own.grown more.grown, placed, ?_⟩
  by_cases named : child.parentHash = parent.hash
  · rw [connectToParent_ok _ parent child named] at connected
    cases connected
    exact under_hash _ parent child
  · rw [connectToParent_terminates _ parent child named] at connected
    cases connected

theorem Neat.connectBlock (neat : Neat genesis before) (segment : ChainSegment) : Kept genesis before (before.connectBlock segment) := by
  obtain ⟨chain, headers, _⟩ := connectBlock_rest before segment
  exact neat.sameTree headers chain.db chain.best

/-- The children of one block, if connecting further down keeps what is placed. -/
theorem Neat.connectEach {connect : Header Work → List Candidate → Reference → UpdateTransaction Work →
      Except Fault (List Candidate × UpdateTransaction Work)}
    (deeper : ∀ {parent : Header Work} {candidates result : List Candidate} {reference : Reference} {before after : UpdateTransaction Work},
      Neat genesis before → Standing (view before) parent → PlacedAll (view before) candidates →
      connect parent candidates reference before = .ok (result, after) → Kept genesis before after ∧ PlacedAll (view after) result)
    {original : Candidate} {reference : Reference} (segments : List ChainSegment) :
    ∀ {firstChild : Bool} {candidates result : List Candidate} {before after : UpdateTransaction Work}, Neat genesis before →
    Standing (view before) parent → PlacedAll (view before) candidates → (∀ position ∈ original.chain, Placed (view before) position) →
    connectEach connect parent original reference firstChild segments candidates before = .ok (result, after) →
      Kept genesis before after ∧ PlacedAll (view after) result := by
  induction segments with
  | nil =>
    intro _ _ _ _ _ neat _ placed _ done
    cases done
    exact ⟨Kept.refl neat, placed⟩
  | cons segment segments ih =>
    intro firstChild candidates result before after neat standing placed first done
    obtain ⟨⟨child, loaded⟩, staged, done⟩ := bind_eq_ok.mp done
    obtain ⟨linked, connected, done⟩ := bind_eq_ok.mp done
    obtain ⟨changed, modified, done⟩ := bind_eq_ok.mp done
    have opened := neat.connectBlock segment
    obtain ⟨loads, found, _, named⟩ := opened.neat.stage staged
    have until_loaded := opened.trans loads
    obtain ⟨seen, there, same, _⟩ := loads.grown.kept _ child found
    obtain ⟨writes, own⟩ := loads.neat.connect (standing.grown until_loaded.grown) ⟨seen, named ▸ there, same⟩ connected
    have until_written := until_loaded.trans writes
    have changed_placed := placedAll_modify modified (placed.grown until_written.grown) fun _ keeps => keeps
    have down : ∃ longer last, Shared.connectEach connect parent original reference false segments longer last = .ok (result, after) ∧
        Kept genesis (loaded.write linked) last ∧ PlacedAll (view last) longer := by
      cases firstChild with
      | true =>
        obtain ⟨⟨longer, last⟩, deeps, done⟩ := bind_eq_ok.mp done
        exact ⟨longer, last, done, deeper writes.neat own changed_placed deeps⟩
      | false =>
        obtain ⟨⟨longer, last⟩, deeps, done⟩ := bind_eq_ok.mp done
        refine ⟨longer, last, done, deeper writes.neat own ?_ deeps⟩
        intro candidate member
        rcases List.mem_append.mp member with old | new
        · exact changed_placed candidate old
        · rw [List.mem_singleton.mp new]
          exact fun position inside => (first position inside).grown until_written.grown
    obtain ⟨longer, last, done, down⟩ := down
    have until_last := until_written.trans down.1
    obtain ⟨more, all⟩ := ih until_last.neat (standing.grown until_last.grown) down.2
      (fun position inside => (first position inside).grown until_last.grown) done
    exact ⟨until_last.trans more, all⟩

theorem Neat.connectChildren (depth : Nat) :
    ∀ {parent : Header Work} {candidates result : List Candidate} {reference : Reference} {before after : UpdateTransaction Work},
    Neat genesis before → Standing (view before) parent → PlacedAll (view before) candidates →
    connectChildren depth parent candidates reference before = .ok (result, after) →
      Kept genesis before after ∧ PlacedAll (view after) result := by
  induction depth with
  | zero =>
    intro _ _ _ _ _ _ _ _ _ done
    cases done
  | succ depth ih =>
    intro parent candidates result reference before after neat standing placed done
    obtain ⟨found, _, done⟩ := bind_eq_ok.mp done
    split at done
    · cases done
    · obtain ⟨changed, modified, done⟩ := bind_eq_ok.mp done
      obtain ⟨original, reads, done⟩ := bind_eq_ok.mp done
      have changed_placed := placedAll_modify modified placed fun candidate keeps position inside => by
        rcases List.mem_append.mp inside with old | new
        · exact keeps position old
        · rw [List.mem_singleton.mp new]
          exact standing.placed
      exact Neat.connectEach (fun {_ _ _ _ _ _} => ih) _ neat standing changed_placed
        (changed_placed original (placed_read reads)) done

/-! ## Choosing -/

theorem Neat.addToBestChain (neat : Neat genesis before) {position : Position} (placed : Placed (view before) position) :
    Kept genesis before (before.addToBestChain position) := by
  refine neat.chained rfl rfl fun height hash found => ?_
  change (before.best.emplace position.height position.hash).find? height = some hash at found
  rw [OrderedMap.find?_emplace] at found
  split at found
  · next same =>
    cases old : before.best.find? position.height with
    | none =>
      rw [old] at found
      cases found
      subst same
      exact .inr placed
    | some other =>
      rw [old] at found
      cases found
      subst same
      exact .inl old
  · exact .inl found

theorem Neat.setReorgParent (neat : Neat genesis before) (position : Position) :
    Kept genesis before (before.setReorgParent position) := by
  refine neat.chained rfl rfl fun height hash found => .inl ?_
  change (before.best.keepUpTo position.height).find? height = some hash at found
  rw [OrderedMap.find?_keepUpTo] at found
  exact (Option.ite_none_right_eq_some.mp found).2

theorem Neat.addSibling (neat : Neat genesis before) (position : Position) : Kept genesis before (before.addSibling position) :=
  neat.sameTree rfl rfl rfl

theorem Neat.removeSibling (neat : Neat genesis before) (hash : Hash) : Kept genesis before (before.removeSibling hash) :=
  neat.sameTree rfl rfl rfl

theorem Neat.adoptChain (current : Header Work) (segments : List Position) :
    ∀ {reorg : Bool} {before : UpdateTransaction Work}, Neat genesis before → (∀ position ∈ segments, Placed (view before) position) →
    Kept genesis before (adoptChain current reorg segments before) := by
  induction segments with
  | nil => exact fun neat _ => Kept.refl neat
  | cons segment segments ih =>
    intro reorg before neat placed
    obtain ⟨here, later⟩ := List.forall_mem_cons.mp placed
    unfold Shared.adoptChain
    split
    · split
      · exact ih neat later
      · have opened := neat.setReorgParent ⟨segment.height - 1, before.effectiveBestBlock (segment.height - 1)⟩
        have added := opened.trans (opened.neat.addToBestChain (here.grown opened.grown))
        have kept := added.trans (added.neat.addSibling current.position)
        exact kept.trans (ih kept.neat fun position inside => (later position inside).grown kept.grown)
    · have kept := neat.addToBestChain here
      exact kept.trans (ih kept.neat fun position inside => (later position inside).grown kept.grown)

theorem Neat.settleCandidates (current best : Header Work) (candidates : List Candidate) :
    ∀ {found result : Bool} {before after : UpdateTransaction Work}, Neat genesis before → PlacedAll (view before) candidates →
    settleCandidates current best found candidates before = .ok (result, after) → Kept genesis before after := by
  induction candidates with
  | nil =>
    intro _ _ _ _ neat _ settled
    cases settled
    exact Kept.refl neat
  | cons candidate candidates ih =>
    intro found result before after neat placed settled
    obtain ⟨here, later⟩ := List.forall_mem_cons.mp placed
    obtain ⟨tip, _, settled⟩ := bind_eq_ok.mp settled
    split at settled
    · have kept : Kept genesis _ (Shared.adoptChain current false candidate.chain _) := neat.adoptChain current candidate.chain here
      exact kept.trans (ih kept.neat (PlacedAll.grown later kept.grown) settled)
    · have kept := neat.addSibling tip.position
      exact kept.trans (ih kept.neat (PlacedAll.grown later kept.grown) settled)

theorem Neat.chooseCandidate (neat : Neat genesis before) {current : Header Work} {candidates : List Candidate} {success found : Bool}
    (placed : PlacedAll (view before) candidates) (chosen : chooseCandidate current candidates before = .ok (success, found, after)) :
    Kept genesis before after := by
  unfold Shared.chooseCandidate at chosen
  dsimp only at chosen
  split at chosen
  · next settles =>
    cases chosen
    obtain ⟨best, _, settled⟩ := bind_eq_ok.mp settles
    exact Neat.settleCandidates current best candidates neat placed settled
  · cases chosen
    exact Kept.refl neat
  · cases chosen

/-! ## Adding headers -/

/-- A header that is not connected hides no connected one. -/
theorem Neat.writeLow (neat : Neat genesis before) {header : Header Work} (low : header.height < 0) (real : header.hash ≠ nullHash)
    (old : ∀ other, view before header.hash = some other → other.height < 0) : Neat genesis (before.write header) := by
  have stays {hash : Hash} {other : Header Work} (found : view before hash = some other) (nonneg : 0 ≤ other.height) :
      put (view before) header hash = some other := by
    refine (if_neg ?_).trans found
    rintro rfl
    exact absurd (old other found) (not_lt.mpr nonneg)
  have placed {position : Position} (there : Placed (view before) position) : Placed (view (before.write header)) position := by
    rw [view_write_put]
    obtain ⟨other, found, level, nonneg⟩ := there
    exact ⟨other, stays found nonneg, level, nonneg⟩
  refine ⟨?_, neat.stored, fun height present => placed (neat.rows height present), fun height hash found => placed (neat.best height hash found)⟩
  rw [view_write_put]
  refine ⟨?_, ?_, ?_, ?_, ?_, ?_⟩
  · intro hash other found
    unfold put at found
    split at found
    · next same =>
      cases found
      exact same.symm
    · exact neat.tidy.named hash other found
  · exact (if_neg fun same => real same.symm).trans neat.tidy.null
  · obtain ⟨origin, found, level, null⟩ := neat.tidy.origin
    exact ⟨origin, stays found level.ge, level, null⟩
  · intro hash other found nonneg
    unfold put at found
    split at found
    · cases found
      omega
    · exact neat.tidy.attached hash other found nonneg
  · intro hash other found zero
    unfold put at found
    split at found
    · cases found
      omega
    · exact neat.tidy.bottom hash other found zero
  · intro hash other found positive
    unfold put at found
    split at found
    · cases found
      omega
    · obtain ⟨above, there, level⟩ := neat.tidy.parent hash other found positive
      exact ⟨above, stays there (by omega), level⟩

theorem Neat.isDisconnected (neat : Neat genesis before) {hash : Hash} {outcome : Option (Header Work)}
    (decided : isDisconnected hash before = (outcome, after)) :
    Kept genesis before after ∧ view after = view before ∧
      ∀ parent, outcome = some parent → view before hash = some parent ∧ parent.isDisconnected = false := by
  unfold Shared.isDisconnected at decided
  split at decided
  · next header update staged =>
    obtain ⟨kept, found, same, _⟩ := neat.stage staged
    split at decided
    · cases decided
      exact ⟨kept, same, fun _ none => (nomatch none)⟩
    · next attached =>
      cases decided
      refine ⟨kept, same, ?_⟩
      rintro parent ⟨⟩
      exact ⟨found, eq_false_of_ne_true attached⟩
  · cases decided
    exact ⟨Kept.refl neat, rfl, fun _ none => (nomatch none)⟩

theorem Neat.connectHeader (neat : Neat genesis before) {candidates : List Candidate} (standing : Standing (view before) parent)
    (known : ∃ other, view before child.hash = some other ∧ other.parentHash = child.parentHash)
    (connected : connectHeader parent child before = .ok (candidates, after)) :
    Kept genesis before after ∧ PlacedAll (view after) candidates ∧ ∃ linked, linked.hash = child.hash ∧ Standing (view after) linked := by
  obtain ⟨⟨candidate, linked, middle⟩, made, connected⟩ := bind_eq_ok.mp connected
  obtain ⟨kept, own, placed, same⟩ := neat.initializeCandidate standing known made
  obtain ⟨more, all⟩ := Neat.connectChildren _ kept.neat own
    (List.forall_mem_singleton.mpr placed : PlacedAll (view middle) [candidate]) connected
  exact ⟨kept.trans more, all, linked, same, own.grown more.grown⟩

theorem Neat.addHeader (neat : Neat genesis before) (honest : Honest (view before)) {new : NewHeader Work}
    (added : addHeader before new = .ok (true, after)) :
    Neat genesis after ∧ after.db = before.db ∧ Honest (view after) := by
  unfold Shared.addHeader at added
  split at added
  · cases added
    exact ⟨neat, rfl, honest⟩
  · next unknown =>
    have fresh : view before new.hash = none := by
      by_contra known
      exact unknown ((effectiveHeaderExists_iff before new.hash).mpr known)
    have low : new.header.height < 0 := show (-1 : Int) < 0 by decide
    have written := neat.writeLow low new.hash_ne_null fun other found => by
      rw [show view before new.header.hash = none from fresh] at found
      cases found
    have elsewhere {hash : Hash} (other : hash ≠ new.hash) : view (before.write new.header) hash = view before hash := by
      rw [view_write]
      exact if_neg other
    obtain ⟨⟨current, loaded⟩, staged, added⟩ := bind_eq_ok.mp added
    obtain ⟨loads, _, same⟩ := written.stageBest staged
    dsimp only at added
    split at added
    · next update decided =>
      obtain ⟨decides, equal, _⟩ := loads.neat.isDisconnected decided
      cases added
      have here : view update new.hash = some new.header := by
        rw [equal, same, view_write]
        exact if_pos rfl
      have detached : Neat genesis (update.write new.header.setDisconnectedState) := decides.neat.writeLow low new.hash_ne_null fun other found => by
        rw [show view update new.header.setDisconnectedState.hash = some new.header from here] at found
        cases found
        exact low
      have kept : Kept genesis _ ((update.write new.header.setDisconnectedState).disconnectBlock new.header.setDisconnectedState) :=
        detached.sameTree rfl rfl rfl
      refine ⟨kept.neat, kept.db.trans (decides.db.trans loads.db), fun hash header found attached => ?_⟩
      change view (update.write new.header.setDisconnectedState) hash = some header at found
      rw [view_write] at found
      split at found
      · cases found
        cases attached
      · next other =>
        rw [equal, same, elsewhere other] at found
        exact honest hash header found attached
    · next parent update decided =>
      obtain ⟨decides, equal, decision⟩ := loads.neat.isDisconnected decided
      obtain ⟨found, attached⟩ := decision parent rfl
      rw [same, elsewhere new.parent_ne_hash] at found
      have nonneg := honest _ parent found attached
      have seen : view update new.parentHash = some parent := by rw [equal, same, elsewhere new.parent_ne_hash, found]
      have standing := decides.neat.tidy.standing seen nonneg
      have known : ∃ other, view update new.header.hash = some other ∧ other.parentHash = new.header.parentHash := by
        refine ⟨new.header, ?_, rfl⟩
        rw [equal, same, view_write]
        exact if_pos rfl
      have opened : Kept genesis update (if update.effectiveIsSibling new.parentHash then update.removeSibling new.parentHash else update) := by
        split
        · exact decides.neat.removeSibling new.parentHash
        · exact Kept.refl decides.neat
      generalize (if update.effectiveIsSibling new.parentHash then update.removeSibling new.parentHash else update) = start at added opened
      obtain ⟨other, there, named⟩ := known
      split at added
      · next candidates update connected =>
        obtain ⟨seen, last, again, _⟩ := opened.grown.kept _ other there
        obtain ⟨connects, placed, linked, own, stands⟩ := opened.neat.connectHeader (standing.grown opened.grown)
          ⟨seen, last, again.trans named⟩ connected
        obtain ⟨⟨success, found, final⟩, chosen, added⟩ := bind_eq_ok.mp added
        cases added
        have chooses := connects.neat.chooseCandidate placed chosen
        have whole := (decides.trans opened).trans (connects.trans chooses)
        refine ⟨chooses.neat, whole.db.trans loads.db, fun hash header visible attached => ?_⟩
        rcases whole.grown.fresh hash header visible with before_view | connected
        · rw [same] at before_view
          by_cases mine : hash = new.hash
          · obtain ⟨last, there, _, level⟩ := (stands.grown chooses.grown).found
            rw [own, show new.header.hash = hash from mine.symm, visible] at there
            cases there
            rw [level]
            exact stands.nonneg
          · rw [elsewhere mine] at before_view
            exact honest hash header before_view attached
        · exact connected
      · cases added
      · cases added

theorem Neat.addEach (news : List (Option (NewHeader Work))) :
    ∀ {before after : UpdateTransaction Work}, Neat genesis before → Honest (view before) → addEach news before = .ok (true, after) →
      Neat genesis after ∧ after.db = before.db ∧ Honest (view after) := by
  induction news with
  | nil =>
    intro before after neat honest added
    cases added
    exact ⟨neat, rfl, honest⟩
  | cons new news ih =>
    intro before after neat honest added
    cases new with
    | none => cases added
    | some new =>
      obtain ⟨⟨success, middle⟩, first, added⟩ := bind_eq_ok.mp added
      cases success with
      | false => cases added
      | true =>
        obtain ⟨once, db, still⟩ := neat.addHeader honest first
        obtain ⟨twice, same, last⟩ := ih once still added
        exact ⟨twice, same.trans db, last⟩

/-! ## Checkpoints -/

/-- A header as a step holds it, connected or not. -/
def Known (headers : Hash → Option (Header Work)) (header : Header Work) : Prop :=
  ∃ other, headers header.hash = some other ∧ other.parentHash = header.parentHash ∧ other.height = header.height

theorem Standing.known (standing : Standing headers parent) : Known headers parent := standing.found

/-- What initializing took in is on the branch from the ancestor on. -/
theorem Neat.stageCandidate (neat : Neat genesis before) {ancestor : Header Work} {candidates result : List Candidate}
    (nonneg : 0 ≤ ancestor.height) (known : Known (view before) child) (placed : PlacedAll (view before) candidates)
    (staged : stageCandidate ancestor child candidates before = .ok (result, after)) :
    Kept genesis before after ∧ PlacedAll (view after) result := by
  obtain ⟨other, there, named, level⟩ := known
  unfold Shared.stageCandidate at staged
  dsimp only at staged
  split at staged
  · cases staged
    exact ⟨Kept.refl neat, placed⟩
  · split at staged
    · next exact_height =>
      cases staged
      refine ⟨Kept.refl neat, fun candidate member => ?_⟩
      rcases List.mem_append.mp member with old | new
      · exact placed candidate old
      · rw [List.mem_singleton.mp new]
        exact List.forall_mem_singleton.mpr ⟨other, there, level, by omega⟩
    · next below apart =>
      obtain ⟨⟨parent, loaded⟩, stages, staged⟩ := bind_eq_ok.mp staged
      obtain ⟨⟨candidate, linked, last⟩, made, staged⟩ := bind_eq_ok.mp staged
      have positive : 0 ≤ other.height := by omega
      have standing := neat.tidy.standing there positive
      rw [← named] at stages
      obtain ⟨loads, same, above, _⟩ := neat.staged_parent standing stages
      obtain ⟨kept, own, chain, hash⟩ := loads.neat.initializeCandidate above ⟨other, same ▸ there, named⟩ made
      dsimp only at staged
      split at staged
      · cases staged
      · cases staged
        have whole := loads.trans kept
        refine ⟨whole, fun added member => ?_⟩
        rcases List.mem_append.mp member with old | new
        · exact fun position inside => (placed added old position inside).grown whole.grown
        · rw [List.mem_singleton.mp new]
          intro position inside
          rcases List.mem_append.mp inside with before_last | last_one
          · exact chain position before_last
          · rw [List.mem_singleton.mp last_one]
            exact own.placed

theorem Neat.stageSiblings {ancestor : Header Work} (nonneg : 0 ≤ ancestor.height) (hashes : List Hash) :
    ∀ {candidates result : List Candidate} {before after : UpdateTransaction Work}, Neat genesis before →
    PlacedAll (view before) candidates → stageSiblings ancestor hashes candidates before = .ok (result, after) →
      Kept genesis before after ∧ PlacedAll (view after) result := by
  induction hashes with
  | nil =>
    intro _ _ _ _ neat placed staged
    cases staged
    exact ⟨Kept.refl neat, placed⟩
  | cons hash hashes ih =>
    intro candidates result before after neat placed staged
    obtain ⟨⟨sibling, loaded⟩, stages, staged⟩ := bind_eq_ok.mp staged
    obtain ⟨⟨more, middle⟩, candidate, staged⟩ := bind_eq_ok.mp staged
    obtain ⟨loads, found, same, named⟩ := neat.stage stages
    have known : Known (view _) sibling := ⟨sibling, by rw [named, same]; exact found, rfl, rfl⟩
    obtain ⟨kept, all⟩ := loads.neat.stageCandidate nonneg known (same ▸ placed) candidate
    obtain ⟨rest, last⟩ := ih kept.neat all staged
    exact ⟨(loads.trans kept).trans rest, last⟩

theorem Neat.reconnectChain (positions : List Position) :
    ∀ {parent : Header Work} {invalid result : Bool} {before after : UpdateTransaction Work}, Neat genesis before →
    Standing (view before) parent → reconnectChain parent invalid positions before = .ok (result, after) → Kept genesis before after := by
  induction positions with
  | nil =>
    intro _ _ _ _ _ neat _ done
    cases done
    exact Kept.refl neat
  | cons position positions ih =>
    intro parent invalid result before after neat standing done
    obtain ⟨child, staged, done⟩ := bind_eq_ok.mp done
    obtain ⟨linked, connected, done⟩ := bind_eq_ok.mp done
    have found : view before position.hash = some child := by
      unfold UpdateTransaction.header at staged
      split at staged
      · next held =>
        cases staged
        unfold view
        rw [held]
        rfl
      · cases staged
    have named := neat.tidy.named _ child found
    obtain ⟨kept, own⟩ := neat.connect standing ⟨child, named ▸ found, rfl⟩ connected
    exact kept.trans (ih kept.neat own done)

theorem Neat.reconnectCandidates {ancestor : Header Work} (candidates : List Candidate) :
    ∀ {result : List Candidate} {before after : UpdateTransaction Work}, Neat genesis before → Standing (view before) ancestor →
    PlacedAll (view before) candidates → reconnectCandidates ancestor candidates before = .ok (result, after) →
      Kept genesis before after ∧ PlacedAll (view after) result := by
  induction candidates with
  | nil =>
    intro _ _ _ neat _ _ done
    cases done
    exact ⟨Kept.refl neat, List.forall_mem_nil _⟩
  | cons candidate candidates ih =>
    intro result before after neat standing placed done
    obtain ⟨here, later⟩ := List.forall_mem_cons.mp placed
    obtain ⟨⟨blacklisted, middle⟩, chain, done⟩ := bind_eq_ok.mp done
    obtain ⟨⟨rest, last⟩, others, done⟩ := bind_eq_ok.mp done
    cases done
    have kept := Neat.reconnectChain candidate.chain neat standing chain
    obtain ⟨more, all⟩ := ih kept.neat (standing.grown kept.grown) (PlacedAll.grown later kept.grown) others
    have whole := kept.trans more
    exact ⟨whole, List.forall_mem_cons.mpr ⟨fun position inside => (here position inside).grown whole.grown, all⟩⟩

theorem Neat.compareToCheckpoint (neat : Neat genesis before) {best : Header Work} {position : Int} {success : Bool}
    (standing : Standing (view before) best) (compared : compareToCheckpoint best position before = .ok (success, after)) :
    Kept genesis before after := by
  obtain ⟨⟨ancestor, loaded⟩, staged, compared⟩ := bind_eq_ok.mp compared
  obtain ⟨⟨first, one⟩, candidate, compared⟩ := bind_eq_ok.mp compared
  obtain ⟨⟨second, two⟩, siblings, compared⟩ := bind_eq_ok.mp compared
  obtain ⟨⟨third, three⟩, reconnected, compared⟩ := bind_eq_ok.mp compared
  obtain ⟨⟨chosen, found, four⟩, chooses, compared⟩ := bind_eq_ok.mp compared
  obtain ⟨loads, above⟩ := neat.stageHeight staged
  obtain ⟨firsts, placed⟩ := loads.neat.stageCandidate above.nonneg (standing.grown loads.grown).known (List.forall_mem_nil _) candidate
  obtain ⟨seconds, all⟩ := Neat.stageSiblings above.nonneg _ firsts.neat placed siblings
  have until_two := firsts.trans seconds
  obtain ⟨thirds, whole⟩ := Neat.reconnectCandidates second seconds.neat (above.grown until_two.grown) all reconnected
  have fourths := thirds.neat.chooseCandidate whole chooses
  have until_four := until_two.trans (thirds.trans fourths)
  have kept := loads.trans until_four
  dsimp only at compared
  split at compared
  · cases compared
    exact kept
  · split at compared
    · cases compared
      exact kept
    · cases compared
      have opened := fourths.neat.setReorgParent ancestor.position
      have last := opened.neat.addToBestChain ((above.grown until_four.grown).placed.grown opened.grown)
      exact kept.trans (opened.trans last)

theorem Neat.applyCheckpoint (neat : Neat genesis before) {position : Int} (applied : applyCheckpoint position before = .ok (true, after)) :
    Kept genesis before after := by
  obtain ⟨⟨best, loaded⟩, staged, applied⟩ := bind_eq_ok.mp applied
  obtain ⟨loads, standing, _⟩ := neat.stageBest staged
  dsimp only at applied
  split at applied
  · cases applied
    exact loads
  · split at applied
    · cases applied
    · exact loads.trans (loads.neat.compareToCheckpoint standing applied)

/-! ## The database -/

/-- Between two operations. -/
structure Sound (genesis : Genesis Work) (db : Database Work) : Prop where
  tidy : Tidy genesis db.headers
  honest : Honest db.headers
  rows : ∀ height, db.rows height ≠ nullHash → Placed db.headers ⟨height, db.rows height⟩

theorem Sound.neat {db : Database Work} (sound : Sound genesis db) {update : UpdateTransaction Work} (same : update.db = db)
    (none : update.headers = fun _ => none) (empty : update.best = OrderedMap.empty) : Neat genesis update ∧ view update = db.headers := by
  have seen : view update = db.headers := by
    funext hash
    unfold view
    rw [none, same]
    rfl
  refine ⟨⟨seen ▸ sound.tidy, same ▸ sound.tidy.named, ?_, ?_⟩, seen⟩
  · rw [seen, same]
    exact sound.rows
  · rw [empty]
    exact fun _ _ found => (nomatch found)

theorem Neat.applyUpdate (neat : Neat genesis after) (honest : Honest (view after)) (sound : Sound genesis after.db) :
    Sound genesis (applyUpdate after).db := by
  have written (rows : Int → Hash) (fewer : ∀ height, rows height ≠ nullHash → rows height = after.db.rows height) :
      Sound genesis (writeUpdate after rows) := by
    refine ⟨neat.tidy, honest, fun height => ?_⟩
    rw [writeUpdate_rows]
    cases top : after.best.find? height with
    | some hash => exact fun _ => neat.best height hash top
    | none =>
      intro present
      change rows height ≠ nullHash at present
      show Placed (view after) ⟨height, rows height⟩
      have same := fewer height present
      rw [same] at present ⊢
      exact neat.rows height present
  have published (db : Database Work) (kept : Sound genesis db) : Sound genesis (publish after db).db := by
    unfold publish
    split
    · dsimp only
      split
      · exact kept
      · exact ⟨kept.tidy, kept.honest, kept.rows⟩
    · split
      · exact kept
      · exact kept
  unfold Update.applyUpdate
  split
  · split
    · next rows popped =>
      refine published _ (written rows fun height present => ?_)
      unfold poppedRows at popped
      split at popped
      · rw [popBestFrom_rows _ _ _ _ popped] at present ⊢
        split at present
        · exact absurd rfl present
        · next outside => exact if_neg outside
      · cases popped
        rfl
    · exact sound
  · exact sound

theorem honest_grown (honest : Honest headers) (grown : Grown headers others) : Honest others := by
  intro hash header found attached
  rcases grown.fresh hash header found with old | connected
  · exact honest hash header old attached
  · exact connected

theorem Sound.perform {db : Database Work} (sound : Sound genesis db) {operation : Operation Work} {outcome : Outcome Work}
    (performed : perform db operation = .ok outcome) : Sound genesis outcome.db := by
  have finishes {position : Int} {checkpoint : Position}
      (finished : finishCheckpoint db position (({ db } : UpdateTransaction Work).setCheckpoint checkpoint) = .ok outcome) :
      Sound genesis outcome.db := by
    have starts : Neat genesis (({ db } : UpdateTransaction Work).setCheckpoint checkpoint) ∧ _ := sound.neat rfl rfl rfl
    obtain ⟨neat, seen⟩ := starts
    obtain ⟨⟨success, update⟩, applied, finished⟩ := bind_eq_ok.mp finished
    cases finished
    cases success with
    | false => exact sound
    | true =>
      have kept := neat.applyCheckpoint applied
      exact kept.neat.applyUpdate (honest_grown (seen ▸ sound.honest) kept.grown) (kept.db ▸ sound)
  cases operation with
  | addHeaders news =>
    change addHeaders db news = .ok outcome at performed
    unfold addHeaders at performed
    split at performed
    · cases performed
      exact sound
    · have starts : Neat genesis ({ db } : UpdateTransaction Work) ∧ _ := sound.neat rfl rfl rfl
      obtain ⟨neat, seen⟩ := starts
      obtain ⟨⟨success, update⟩, added, performed⟩ := bind_eq_ok.mp performed
      cases performed
      cases success with
      | false => exact sound
      | true =>
        obtain ⟨kept, same, honest⟩ := Neat.addEach news neat (seen ▸ sound.honest) added
        exact kept.applyUpdate honest (same ▸ sound)
  | addCheckpoint position requiredHash =>
    change addCheckpoint db position requiredHash = .ok outcome at performed
    unfold addCheckpoint at performed
    dsimp only at performed
    split at performed
    · cases performed
      exact sound
    · split at performed
      · cases performed
        exact sound
      · exact finishes performed
  | deleteCheckpoint =>
    change deleteCheckpoint db = .ok outcome at performed
    unfold deleteCheckpoint at performed
    dsimp only at performed
    split at performed
    · exact finishes performed
    · cases performed
      exact sound

theorem sound_initial (genesis : Genesis Work) : Sound genesis (initial genesis) := by
  have only {hash : Hash} {header : Header Work} (found : (initial genesis).headers hash = some header) :
      hash = genesis.hash ∧ header = genesis.header := by
    obtain ⟨same, equal⟩ := Option.ite_none_right_eq_some.mp found
    exact ⟨same, (Option.some.inj equal).symm⟩
  refine ⟨⟨?_, ?_, ⟨genesis.header, if_pos rfl, rfl, rfl⟩, ?_, ?_, ?_⟩, ?_, ?_⟩
  · intro hash header found
    obtain ⟨rfl, rfl⟩ := only found
    rfl
  · exact if_neg fun same => genesis.hash_ne_null same.symm
  · intro hash header found _
    obtain ⟨_, rfl⟩ := only found
    rfl
  · exact fun hash header found _ => (only found).1
  · intro hash header found positive
    obtain ⟨_, rfl⟩ := only found
    exact absurd positive (lt_irrefl 0)
  · intro hash header found _
    obtain ⟨_, rfl⟩ := only found
    exact le_rfl
  · intro height present
    change (if height = 0 then genesis.hash else nullHash) ≠ nullHash at present
    by_cases zero : height = 0
    · subst zero
      exact ⟨genesis.header, if_pos rfl, rfl, le_rfl⟩
    · exact absurd (if_neg zero) present

/-- Every database that operations can lead to. -/
theorem Sound.run (operations : List (Operation Work)) : ∀ {db final : Database Work}, Sound genesis db →
    run db operations = .ok final → Sound genesis final := by
  induction operations with
  | nil =>
    intro db final sound ran
    cases ran
    exact sound
  | cons operation operations ih =>
    intro db final sound ran
    obtain ⟨outcome, performed, ran⟩ := bind_eq_ok.mp ran
    exact ih (sound.perform performed) ran

end Opentxs.HeaderOracle.Placement
