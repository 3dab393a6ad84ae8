import Mathlib.Data.List.DropRight
import Opentxs.Library.Branching
import Opentxs.Subchain.Scanning

/-! The blocks that the header oracle names from the last common ancestor of a block and the best
chain to the end of the best chain. -/

namespace Opentxs.FilterOracle.Ancestors
open Library HeaderOracle BlockHeader
open HeaderOracle.Storage (Database)
open Subchain.Positions Subchain.Scanning

variable {Work : Type} (genesis : Hash) (oracle : Database Work)

def hashInBestChain (hash : Hash) : Bool :=
  match oracle.headers hash with
  | none => false
  | some header => isInBestChain oracle ⟨header.height, hash⟩

/-- Each round goes from a block to its parent. -/
def walkDown : (rounds : Nat) → (test : Position) → (header : Header Work) → Position
  | 0, _, _ => ⟨0, genesis⟩
  | rounds + 1, test, header =>
    if 0 < test.height then
      if hashInBestChain oracle test.hash then test
      else
        match oracle.headers header.parentHash with
        | none => ⟨0, genesis⟩
        | some parent => walkDown rounds parent.position parent
    else ⟨0, genesis⟩

def commonParent (position : Position) : Position :=
  match oracle.headers position.hash with
  | none => ⟨0, genesis⟩
  | some header => walkDown genesis oracle (position.height.toNat + 1) position header

def bestChain (start : Position) : List Position :=
  let height := max (commonParent genesis oracle start).height 0
  positionsFrom height (bestHashes oracle height (oracle.best.height - height + 1).toNat)

/-- The first block always stays. -/
def popAbove (height : Int) : List Position → List Position
  | [] => []
  | first :: rest => first :: rest.rdropWhile fun position => height < position.height

/-- A block without a parent gives way to the genesis block. -/
def parentOrGenesis (header : Header Work) : Option (Header Work) :=
  (oracle.headers header.parentHash).or (oracle.headers genesis)

def lowerTo (height : Int) : (rounds : Nat) → (sibling : Header Work) → Option (Header Work)
  | 0, sibling => some sibling
  | rounds + 1, sibling =>
    if height < sibling.height then
      match oracle.headers sibling.parentHash with
      | some parent => lowerTo height rounds parent
      | none => oracle.headers genesis
    else some sibling

/-- The other branch goes down once the two are at one height. -/
def follow (current sibling : Header Work) : Option (Header Work) :=
  if current.height = sibling.height then parentOrGenesis genesis oracle sibling else some sibling

/-- Both branches go down, the longer one first, until they meet. The blocks of the first branch
are kept, the lowest in front. -/
def meet : (rounds : Nat) → (current sibling : Header Work) → (cache : List Position) → Option (List Position)
  | 0, _, _, cache => some cache
  | rounds + 1, current, sibling, cache =>
    if 0 ≤ current.height then
      if current.position = sibling.position then some (current.position :: cache)
      else do
        let sibling ← follow genesis oracle current sibling
        match oracle.headers current.parentHash with
        | none => some (current.position :: cache)
        | some parent => meet rounds parent sibling (current.position :: cache)
    else some cache

def bothBranches (start target : Position) : Option (List Position) := do
  let current ← oracle.headers target.hash
  let first ← oracle.headers start.hash
  let sibling ← lowerTo genesis oracle current.height (first.height - current.height).toNat first
  if current.height < sibling.height then none
  else meet genesis oracle (current.height + 1).toNat current sibling []

/-- The list may not be empty, nor begin above both of its ends. -/
def checkFront (height : Int) : List Position → Option (List Position)
  | [] => none
  | first :: rest => if first.height ≤ max height 0 then some (first :: rest) else none

/-- Without a result the call throws or aborts. -/
def ancestors (start : Position) : Option (List Position) :=
  if hashInBestChain oracle oracle.best.hash ∧ hashInBestChain oracle start.hash ∧ start.height < oracle.best.height then
    checkFront (min start.height oracle.best.height) (popAbove oracle.best.height (bestChain genesis oracle start))
  else (bothBranches genesis oracle start oracle.best).bind (checkFront (min start.height oracle.best.height))

/-! ## What the oracle shows -/

/-- The database of the oracle agrees with a tree of blocks: whatever is connected has its parent
and its height from there, and the rows of the best chain follow each other. -/
structure Shows (tree : Branching Hash) (oracle : Database Work) : Prop where
  null : oracle.headers nullHash = none
  header : ∀ hash header, oracle.headers hash = some header → 0 ≤ header.height →
    header.hash = hash ∧ tree.height hash = header.height
  parent : ∀ hash header, oracle.headers hash = some header → 0 < header.height →
    header.parentHash = tree.parent hash ∧ ∃ parent, oracle.headers header.parentHash = some parent ∧ 0 ≤ parent.height
  first : ∀ hash header, oracle.headers hash = some header → header.height = 0 → oracle.headers header.parentHash = none
  row : ∀ height, 0 ≤ height → oracle.bestBlock height ≠ nullHash →
    ∃ header, oracle.headers (oracle.bestBlock height) = some header ∧ header.height = height
  linked : ∀ height, 0 ≤ height → oracle.bestBlock (height + 1) ≠ nullHash →
    tree.parent (oracle.bestBlock (height + 1)) = oracle.bestBlock height
  best : ∃ header, oracle.headers oracle.best.hash = some header ∧ 0 ≤ header.height

/-- The position of a block of the tree. -/
structure Has (tree : Branching Hash) (position : Position) : Prop where
  nonneg : 0 ≤ position.height
  height : tree.height position.hash = position.height

structure On (tree : Branching Hash) (top position : Position) : Prop where
  has : Has tree position
  on : tree.On top.hash position.hash

/-- Each block is a child of the one before. -/
def Line (tree : Branching Hash) : Position → List Position → Prop
  | _, [] => True
  | parent, child :: rest =>
    Has tree child ∧ child.height = parent.height + 1 ∧ tree.parent child.hash = parent.hash ∧ Line tree child rest

variable {tree : Branching Hash} {top first second third : Position}

theorem Has.on_self (has : Has tree top) : On tree top top :=
  ⟨has, Branching.on_self (by rw [has.height]; exact has.nonneg)⟩

theorem Has.on_root (has : Has tree top) : tree.On top.hash tree.root := Branching.on_root (by rw [has.height]; exact has.nonneg)

theorem On.below (has : Has tree top) (on : On tree top first) : first.height ≤ top.height := by
  have below := on.on.below
  rwa [on.has.height, has.height] at below

theorem On.eq_of_height (here : On tree top first) (there : On tree top second) (same : first.height = second.height) :
    first = second :=
  position_ext same (here.on.eq_of_height there.on (by rw [here.has.height, there.has.height, same]))

theorem On.le (has : Has tree top) (on : On tree top first) : first ≤ top := by
  rcases (on.below has).lt_or_eq with lower | level
  · exact (lt_of_height lower).le
  · exact (on.eq_of_height has.on_self level).le

theorem On.lower (high : On tree top second) (low : On tree top first) (le : first.height ≤ second.height) : On tree second first :=
  ⟨low.has, high.on.lower low.on (by rw [low.has.height, high.has.height]; exact le)⟩

theorem On.trans (high : On tree top second) (low : On tree second first) : On tree top first := ⟨low.has, high.on.trans low.on⟩

theorem on_child (has : Has tree second) (next : second.height = first.height + 1) (nonneg : 0 ≤ first.height)
    (parent : tree.parent second.hash = first.hash) : On tree second first := by
  have positive : 0 < tree.height second.hash := by
    rw [has.height]
    omega
  have lower := tree.height_parent second.hash positive
  rw [parent, has.height] at lower
  have on := Branching.on_parent positive
  rw [parent] at on
  exact ⟨⟨nonneg, by omega⟩, on⟩

theorem On.parent_eq (high : On tree top second) (low : On tree top first) (next : second.height = first.height + 1) :
    tree.parent second.hash = first.hash :=
  high.on.parent_eq low.on (by rw [high.has.height, low.has.height, next])

theorem line_prefix {positions others : List Position} (line : Line tree first others) (shorter : positions <+: others) :
    Line tree first positions := by
  induction positions generalizing first others with
  | nil => trivial
  | cons position positions ih =>
    cases others with
    | nil => exact absurd (List.prefix_nil.mp shorter) (List.cons_ne_nil _ _)
    | cons other others =>
      obtain ⟨rfl, rest⟩ := List.cons_prefix_cons.mp shorter
      exact ⟨line.1, line.2.1, line.2.2.1, ih line.2.2.2 rest⟩

/-! ## The branch that is found -/

variable {genesis oracle} {start : Position} {positions : List Position}

/-- A header that is connected. -/
def Stands (oracle : Database Work) (header : Header Work) : Prop :=
  oracle.headers header.hash = some header ∧ 0 ≤ header.height

theorem Shows.stands (shows : Shows tree oracle) {hash : Hash} {header : Header Work} (found : oracle.headers hash = some header)
    (nonneg : 0 ≤ header.height) : Stands oracle header ∧ header.hash = hash ∧ Has tree header.position := by
  obtain ⟨rfl, height⟩ := shows.header hash header found nonneg
  exact ⟨⟨found, nonneg⟩, rfl, ⟨nonneg, height⟩⟩

theorem Stands.level (shows : Shows tree oracle) {header : Header Work} (stands : Stands oracle header) :
    tree.height header.hash = header.height := (shows.stands stands.1 stands.2).2.2.height

theorem Stands.has (shows : Shows tree oracle) {header : Header Work} (stands : Stands oracle header) : Has tree header.position :=
  (shows.stands stands.1 stands.2).2.2

/-- A connected header above the first one has a connected parent. -/
theorem Shows.parent_stands (shows : Shows tree oracle) {header : Header Work} (stands : Stands oracle header)
    (positive : 0 < header.height) : ∃ parent, oracle.headers header.parentHash = some parent ∧ Stands oracle parent ∧
      header.height = parent.height + 1 ∧ tree.parent header.hash = parent.hash := by
  obtain ⟨named, parent, found, nonneg⟩ := shows.parent header.hash header stands.1 positive
  obtain ⟨there, hash, _⟩ := shows.stands found nonneg
  have lower := tree.height_parent header.hash (by rw [stands.level shows]; exact positive)
  rw [← named, ← hash, there.level shows, stands.level shows] at lower
  exact ⟨parent, found, there, by omega, by rw [← named, hash]⟩

theorem Shows.on_parent (shows : Shows tree oracle) {header parent : Header Work} (stands : Stands oracle header)
    (there : Stands oracle parent) (next : header.height = parent.height + 1) (named : tree.parent header.hash = parent.hash) :
    On tree header.position parent.position := on_child (stands.has shows) next there.2 named

/-- What the other branch has come to: a block below the start, or a header that is not connected. -/
def Beside (tree : Branching Hash) (oracle : Database Work) (start : Position) (height : Int) (sibling : Header Work) : Prop :=
  sibling.height ≤ height ∧ (sibling.height < 0 ∨ Stands oracle sibling ∧ On tree start sibling.position)

theorem beside_start (shows : Shows tree oracle) (has : Has tree start) {header : Header Work}
    (known : oracle.headers start.hash = some header) :
    header.height < 0 ∨ Stands oracle header ∧ On tree start header.position := by
  by_cases connected : header.height < 0
  · exact .inl connected
  · obtain ⟨stands, hash, there⟩ := shows.stands known (not_lt.mp connected)
    have same : header.position = start := position_ext (by rw [← has.height, ← hash]; exact there.height.symm) hash
    exact .inr ⟨stands, same ▸ has.on_self⟩

theorem lowerTo_beside (shows : Shows tree oracle) (height : Int) (nonneg : 0 ≤ height) (rounds : Nat) :
    ∀ {sibling found : Header Work}, (sibling.height - height).toNat = rounds →
    sibling.height < 0 ∨ Stands oracle sibling ∧ On tree start sibling.position →
    lowerTo genesis oracle height rounds sibling = some found → Beside tree oracle start height found := by
  induction rounds with
  | zero =>
    intro sibling found enough either lowered
    cases lowered
    exact ⟨by omega, either⟩
  | succ rounds ih =>
    intro sibling found enough either lowered
    unfold lowerTo at lowered
    rw [if_pos (show height < sibling.height by omega)] at lowered
    obtain ⟨stands, on⟩ := either.resolve_left (by omega)
    obtain ⟨parent, loaded, there, next, named⟩ := shows.parent_stands stands (by omega)
    rw [loaded] at lowered
    exact ih (by omega) (.inr ⟨there, on.trans (shows.on_parent stands there next named)⟩) lowered

theorem meet_line (shows : Shows tree oracle) (has : Has tree start) (rounds : Nat) :
    ∀ {current sibling : Header Work} {cache : List Position}, current.height + 1 = rounds → Stands oracle current →
    Line tree current.position cache → Beside tree oracle start current.height sibling →
    meet genesis oracle rounds current sibling cache = some positions →
      ∃ first rest, positions = first :: rest ∧ On tree start first ∧ Line tree first rest := by
  induction rounds with
  | zero =>
    intro current _ _ enough stands
    have := stands.2
    omega
  | succ rounds ih =>
    intro current sibling cache enough stands line beside met
    unfold meet at met
    rw [if_pos stands.2] at met
    by_cases same : current.position = sibling.position
    · rw [if_pos same, Option.some.injEq] at met
      have level : current.height = sibling.height := congrArg Position.height same
      obtain ⟨_, on⟩ := beside.2.resolve_left (by rw [← level]; exact not_lt.mpr stands.2)
      exact ⟨_, cache, met.symm, same ▸ on, line⟩
    · rw [if_neg same] at met
      obtain ⟨other, moved, rest⟩ := Option.bind_eq_some_iff.mp met
      by_cases bottom : current.height = 0
      · -- the genesis block, and the other header is not connected
        have apart : sibling.height < 0 := by
          by_contra connected
          have level : current.height = sibling.height := le_antisymm (by omega) beside.1
          obtain ⟨there, _⟩ := beside.2.resolve_left connected
          refine same (position_ext level ?_)
          calc current.hash
              = tree.root := tree.eq_root current.hash (by rw [stands.level shows, bottom])
            _ = sibling.hash := (tree.eq_root sibling.hash (by rw [there.level shows, ← level, bottom])).symm
        rw [shows.first current.hash current stands.1 bottom, Option.some.injEq] at rest
        have root := tree.eq_root current.hash (by rw [stands.level shows, bottom])
        refine ⟨_, cache, rest.symm, ⟨stands.has shows, ?_⟩, line⟩
        show tree.On start.hash current.hash
        rw [root]
        exact has.on_root
      · obtain ⟨parent, loaded, there, next, named⟩ := shows.parent_stands stands (by have := stands.2; omega)
        rw [loaded] at rest
        have longer : Line tree parent.position (current.position :: cache) := ⟨stands.has shows, next, named, line⟩
        refine ih (by push_cast at enough; omega) there longer ?_ rest
        by_cases level : current.height = sibling.height
        · obtain ⟨sibling_stands, on⟩ := beside.2.resolve_left (by rw [← level]; exact not_lt.mpr stands.2)
          obtain ⟨lower, found, lower_stands, below, linked⟩ := shows.parent_stands sibling_stands (by have := stands.2; omega)
          rw [follow, if_pos level, parentOrGenesis, found, Option.some_or, Option.some.injEq] at moved
          subst moved
          exact ⟨by omega, .inr ⟨lower_stands, on.trans (shows.on_parent sibling_stands lower_stands below linked)⟩⟩
        · rw [follow, if_neg level, Option.some.injEq] at moved
          subst moved
          have := beside.1
          exact ⟨by omega, beside.2⟩

/-! ## The rows of the best chain -/

theorem line_rows (shows : Shows tree oracle) (count : Nat) : ∀ height, 0 ≤ height →
    Line tree ⟨height, oracle.bestBlock height⟩ (positionsFrom (height + 1) (bestHashesFrom oracle count (height + 1))) := by
  induction count with
  | zero => exact fun _ _ => trivial
  | succ count ih =>
    intro height nonneg
    unfold bestHashesFrom
    split
    · trivial
    · next there =>
      have present : oracle.bestBlock (height + 1) ≠ nullHash := fun null => there (.inr null)
      obtain ⟨header, found, level⟩ := shows.row (height + 1) (by omega) present
      have known := shows.header _ header found (by omega)
      exact ⟨⟨by show (0 : Int) ≤ height + 1; omega, known.2.trans level⟩, rfl, shows.linked height nonneg present,
        ih (height + 1) (by omega)⟩

theorem bestChain_line (shows : Shows tree oracle) (has : Has tree start) (inChain : hashInBestChain oracle start.hash = true)
    {first : Position} {rest : List Position} (found : bestChain tree.root oracle start = first :: rest) :
    first = start ∧ Line tree first rest := by
  have present : ∃ header, oracle.headers start.hash = some header ∧ start.hash = oracle.bestBlock header.height := by
    unfold hashInBestChain at inChain
    split at inChain
    · cases inChain
    · next header loaded => exact ⟨header, loaded, of_decide_eq_true inChain⟩
  obtain ⟨header, loaded, row⟩ := present
  have common : commonParent tree.root oracle start = start := by
    unfold commonParent
    rw [loaded]
    simp only [walkDown, inChain, if_true]
    split
    · rfl
    · next low =>
      have zero : start.height = 0 := le_antisymm (not_lt.mp low) has.nonneg
      exact position_ext zero.symm (tree.eq_root start.hash (has.height.trans zero)).symm
  obtain ⟨known, level⟩ := shows.header start.hash header loaded (by
    by_contra low
    rw [Database.bestBlock, if_pos (not_le.mp low)] at row
    rw [row, shows.null] at loaded
    cases loaded)
  have same : header.height = start.height := level.symm.trans has.height
  rw [bestChain, common, max_eq_left has.nonneg, bestHashes] at found
  cases count : (oracle.best.height - start.height + 1).toNat with
  | zero =>
    rw [count] at found
    cases found
  | succ rounds =>
    rw [count, bestHashesFrom] at found
    split at found
    · cases found
    · obtain ⟨rfl, rfl⟩ := List.cons.inj found
      have first : (⟨start.height, oracle.bestBlock start.height⟩ : Position) = start := position_ext rfl (by rw [← same, ← row])
      exact ⟨first, line_rows shows rounds start.height has.nonneg⟩

theorem popAbove_initial (height : Int) : popAbove height positions <+: positions := by
  cases positions with
  | nil => exact List.prefix_rfl
  | cons first rest => exact (List.prefix_cons_inj first).mpr (List.rdropWhile_prefix _ _)

theorem checkFront_eq_some {height : Int} {others : List Position} (checked : checkFront height others = some positions) :
    others = positions ∧ positions ≠ [] := by
  unfold checkFront at checked
  split at checked
  · cases checked
  · obtain ⟨_, same⟩ := Option.ite_none_right_eq_some.mp checked
    cases same
    exact ⟨rfl, List.cons_ne_nil _ _⟩

/-- What the oracle names is a line of blocks up from a block at or below the start. -/
theorem ancestors_line (shows : Shows tree oracle) (has : Has tree start) (found : ancestors tree.root oracle start = some positions) :
    ∃ first rest, positions = first :: rest ∧ On tree start first ∧ Line tree first rest := by
  unfold ancestors at found
  split at found
  · next fast =>
    obtain ⟨popped, filled⟩ := checkFront_eq_some found
    have shorter : popAbove oracle.best.height (bestChain tree.root oracle start) <+: bestChain tree.root oracle start := popAbove_initial _
    rw [popped] at shorter
    obtain ⟨first, rest, rfl⟩ := List.exists_cons_of_ne_nil filled
    obtain ⟨others, whole⟩ := shorter
    obtain ⟨rfl, line⟩ := bestChain_line shows has fast.2.1 whole.symm
    exact ⟨_, rest, rfl, has.on_self, line_prefix line (List.prefix_append rest others)⟩
  · obtain ⟨met, both, checked⟩ := Option.bind_eq_some_iff.mp found
    obtain ⟨rfl, _⟩ := checkFront_eq_some checked
    obtain ⟨current, loaded, both⟩ := Option.bind_eq_some_iff.mp both
    obtain ⟨first, known, both⟩ := Option.bind_eq_some_iff.mp both
    obtain ⟨sibling, lowered, both⟩ := Option.bind_eq_some_iff.mp both
    obtain ⟨_, meets⟩ := Option.ite_none_left_eq_some.mp both
    obtain ⟨best, at_best, nonneg⟩ := shows.best
    cases loaded.symm.trans at_best
    have beside := lowerTo_beside shows current.height nonneg _ rfl (beside_start shows has known) lowered
    exact meet_line shows has (current.height + 1).toNat (by omega) (shows.stands loaded nonneg).1
      (show Line tree current.position [] from trivial) beside meets

end Opentxs.FilterOracle.Ancestors
