import Opentxs.FilterOracle.Ancestors
import Opentxs.HeaderOracle.Bookkeeping
import Opentxs.HeaderOracle.Placement

/-! What the header oracle says about the tree of its headers: the blocks from one branch up to a
block of another, the last block that a branch shares with the best chain, and the blocks above
that one. All of it is right where the rows of the best chain follow each other. -/

namespace Opentxs.HeaderOracle.Ancestry
open Library BlockHeader Storage Placement
open Subchain.Positions Subchain.Scanning
open FilterOracle.Ancestors
set_option linter.unusedSectionVars false

variable {Work : Type} [AddCommMonoid Work] [LinearOrder Work] {genesis : Genesis Work} {db : Database Work}

/-- The blocks from the last common ancestor up to the target, without a limit. Without a result the
call aborts. -/
def ancestorsTo (genesis : Hash) (oracle : Database Work) (start target : Position) : Option (List Position) :=
  if hashInBestChain oracle target.hash ∧ hashInBestChain oracle start.hash ∧ start.height < target.height then
    checkFront (min start.height target.height) (popAbove target.height (bestChain genesis oracle start))
  else (bothBranches genesis oracle start target).bind (checkFront (min start.height target.height))

example (genesis : Hash) (oracle : Database Work) (start : Position) :
    ancestors genesis oracle start = ancestorsTo genesis oracle start oracle.best := rfl

/-! ## The tree of the headers -/

/-- A block without a header counts as disconnected. -/
def heightOf (db : Database Work) (hash : Hash) : Int :=
  match db.headers hash with
  | none => -1
  | some header => header.height

def parentOf (db : Database Work) (hash : Hash) : Hash :=
  match db.headers hash with
  | none => nullHash
  | some header => header.parentHash

theorem heightOf_eq {hash : Hash} {header : Header Work} (found : db.headers hash = some header) : heightOf db hash = header.height := by
  unfold heightOf
  rw [found]

theorem parentOf_eq {hash : Hash} {header : Header Work} (found : db.headers hash = some header) :
    parentOf db hash = header.parentHash := by
  unfold parentOf
  rw [found]

theorem found_of_heightOf {hash : Hash} (nonneg : 0 ≤ heightOf db hash) : ∃ header, db.headers hash = some header := by
  unfold heightOf at nonneg
  split at nonneg
  · omega
  · next header found => exact ⟨header, found⟩

def treeOf (sound : Sound genesis db) : Branching Hash where
  root := genesis.hash
  parent := parentOf db
  height := heightOf db
  height_parent := by
    intro hash positive
    obtain ⟨header, found⟩ := found_of_heightOf positive.le
    rw [heightOf_eq found] at positive ⊢
    obtain ⟨parent, there, level⟩ := sound.tidy.parent hash header found positive
    rw [parentOf_eq found, heightOf_eq there]
    omega
  eq_root := by
    intro hash zero
    obtain ⟨header, found⟩ := found_of_heightOf zero.ge
    exact sound.tidy.bottom hash header found ((heightOf_eq found).symm.trans zero)

variable {sound : Sound genesis db} {start target position : Position} {header : Header Work}

/-- The stored connected positions are those of the tree. -/
theorem placed_iff_has : Placed db.headers position ↔ Has (treeOf sound) position := by
  constructor
  · rintro ⟨header, found, level, nonneg⟩
    exact ⟨by omega, (heightOf_eq found).trans level⟩
  · intro has
    have height : heightOf db position.hash = position.height := has.height
    have nonneg := has.nonneg
    have loads : 0 ≤ heightOf db position.hash := by omega
    obtain ⟨header, found⟩ := found_of_heightOf loads
    rw [heightOf_eq found] at height
    exact ⟨header, found, height, by omega⟩

theorem has_header (has : Has (treeOf sound) position) :
    ∃ header, db.headers position.hash = some header ∧ header.position = position := by
  obtain ⟨header, found, same, _⟩ := (placed_iff_has.mpr has).standing sound.tidy
  exact ⟨header, found, same⟩

/-- A header is stored under its own hash and connected. -/
theorem has_position {hash : Hash} (found : db.headers hash = some header) (nonneg : 0 ≤ header.height) :
    header.hash = hash ∧ Has (treeOf sound) header.position := by
  have named := sound.tidy.named hash header found
  exact ⟨named, placed_iff_has.mp ⟨header, (congrArg db.headers named).trans found, rfl, nonneg⟩⟩

theorem has_root (sound : Sound genesis db) : Has (treeOf sound) ⟨0, genesis.hash⟩ := by
  obtain ⟨origin, found, level, _⟩ := sound.tidy.origin
  exact placed_iff_has.mp ⟨origin, found, level, level.ge⟩

theorem eq_root_of_height (has : Has (treeOf sound) position) (zero : position.height = 0) : position = ⟨0, genesis.hash⟩ :=
  position_ext zero ((treeOf sound).eq_root position.hash (has.height.trans zero))

/-- The parent of a header above the first one. -/
theorem header_parent (sound : Sound genesis db) (found : db.headers header.hash = some header)
    (positive : 0 < header.height) : ∃ parent, db.headers header.parentHash = some parent ∧
      db.headers parent.hash = some parent ∧ header.height = parent.height + 1 ∧ Has (treeOf sound) parent.position ∧
      (treeOf sound).parent header.hash = parent.hash := by
  obtain ⟨parent, there, level⟩ := sound.tidy.parent header.hash header found positive
  have placed : parent.hash = header.parentHash ∧ Has (treeOf sound) parent.position := has_position there (by omega)
  obtain ⟨named, above⟩ := placed
  exact ⟨parent, there, (congrArg db.headers named).trans there, level, above, (parentOf_eq found).trans named.symm⟩

/-! ## Lines of blocks -/

section
variable {tree : Branching Hash} {first last child other : Position} {rest others : List Position}

/-- A position at which both branches still are. -/
def Common (tree : Branching Hash) (start target position : Position) : Prop := On tree start position ∧ On tree target position

/-- The highest block of both branches. -/
structure Highest (shared : Position → Prop) (position : Position) : Prop where
  holds : shared position
  highest : ∀ other, shared other → other.height ≤ position.height

/-- From the highest block of both branches up to the target, each block a child of the one before. -/
def Leads (tree : Branching Hash) (start target : Position) (positions : List Position) : Prop :=
  ∃ first rest, positions = first :: rest ∧ Highest (Common tree start target) first ∧ Line tree first rest ∧
    (first :: rest).getLast? = some target

theorem line_on (has : Has tree first) (line : Line tree first rest) (ends : (first :: rest).getLast? = some last) :
    Has tree last ∧ On tree last first := by
  induction rest generalizing first with
  | nil =>
    cases ends
    exact ⟨has, has.on_self⟩
  | cons child rest ih =>
    obtain ⟨there, next, parent, line⟩ := line
    rw [List.getLast?_cons_cons] at ends
    obtain ⟨top, on⟩ := ih there line ends
    exact ⟨top, on.trans (on_child there next has.nonneg parent)⟩

/-- There is one line between two blocks. -/
theorem line_unique (has : Has tree first) (line : Line tree first rest) (ends : (first :: rest).getLast? = some last)
    (again : Line tree first others) (same : (first :: others).getLast? = some last) : rest = others := by
  induction rest generalizing first others with
  | nil =>
    cases ends
    cases others with
    | nil => rfl
    | cons child others =>
      obtain ⟨there, next, _, again⟩ := again
      rw [List.getLast?_cons_cons] at same
      have below := (line_on there again same).2.below has
      omega
  | cons child rest ih =>
    obtain ⟨there, next, _, line⟩ := line
    rw [List.getLast?_cons_cons] at ends
    obtain ⟨top, on⟩ := line_on there line ends
    cases others with
    | nil =>
      cases same
      have below := on.below has
      omega
    | cons other others =>
      obtain ⟨here, level, _, again⟩ := again
      rw [List.getLast?_cons_cons] at same
      have equal : child = other := on.eq_of_height (line_on here again same).2 (by omega)
      subst equal
      exact congrArg (child :: ·) (ih there line ends again same)

theorem line_concat (line : Line tree first rest) (ends : (first :: rest).getLast? = some last) (has : Has tree child)
    (next : child.height = last.height + 1) (parent : tree.parent child.hash = last.hash) : Line tree first (rest ++ [child]) := by
  induction rest generalizing first with
  | nil =>
    cases ends
    exact ⟨has, next, parent, trivial⟩
  | cons other rest ih =>
    rw [List.getLast?_cons_cons] at ends
    exact ⟨line.1, line.2.1, line.2.2.1, ih line.2.2.2 ends⟩

/-- The last block of a line comes after its parent. -/
theorem line_before (line : Line tree first rest) (ends : (first :: rest).getLast? = some last) (filled : rest ≠ []) :
    ∃ before ∈ first :: rest, last.height = before.height + 1 ∧ tree.parent last.hash = before.hash := by
  induction rest generalizing first with
  | nil => exact absurd rfl filled
  | cons child rest ih =>
    obtain ⟨_, next, parent, line⟩ := line
    rw [List.getLast?_cons_cons] at ends
    cases rest with
    | nil =>
      cases ends
      exact ⟨first, List.mem_cons_self, next, parent⟩
    | cons other rest =>
      obtain ⟨before, inside, found⟩ := ih line ends (List.cons_ne_nil _ _)
      exact ⟨before, List.mem_cons_of_mem _ inside, found⟩

end

/-! ## Both branches -/

/-- What both branches share lies on what is left of each. -/
structure Narrowed (tree : Branching Hash) (start target current sibling : Position) : Prop where
  right : On tree target current
  left : On tree start sibling
  le : sibling.height ≤ current.height
  shared : ∀ other, Common tree start target other → On tree current other ∧ On tree sibling other

theorem on_parent_of (sound : Sound genesis db) (has : Has (treeOf sound) header.position) {parent : Header Work}
    (above : Has (treeOf sound) parent.position) (next : header.height = parent.height + 1)
    (named : (treeOf sound).parent header.hash = parent.hash) : On (treeOf sound) header.position parent.position :=
  on_child has next above.nonneg named

theorem lowerTo_finds (height : Int) (nonneg : 0 ≤ height) (rounds : Nat) :
    ∀ {sibling : Header Work}, (sibling.height - height).toNat = rounds → db.headers sibling.hash = some sibling →
      Has (treeOf sound) sibling.position →
      ∃ found, lowerTo genesis.hash db height rounds sibling = some found ∧ db.headers found.hash = some found ∧
        On (treeOf sound) sibling.position found.position ∧ found.height = min sibling.height height := by
  induction rounds with
  | zero =>
    intro sibling enough stored has
    exact ⟨sibling, rfl, stored, has.on_self, by omega⟩
  | succ rounds ih =>
    intro sibling enough stored has
    obtain ⟨parent, loaded, there, next, above, named⟩ := header_parent sound stored (by omega)
    obtain ⟨found, lowered, last, on, level⟩ := ih (by omega) there above
    refine ⟨found, ?_, last, (on_parent_of sound has above next named).trans on, by omega⟩
    unfold lowerTo
    rw [if_pos (show height < sibling.height by omega), loaded]
    exact lowered

theorem meet_leads (rounds : Nat) : ∀ {current sibling : Header Work} {cache : List Position}, current.height + 1 = rounds →
    db.headers current.hash = some current → db.headers sibling.hash = some sibling →
    Narrowed (treeOf sound) start target current.position sibling.position → Line (treeOf sound) current.position cache →
    (current.position :: cache).getLast? = some target →
      ∃ positions, meet genesis.hash db rounds current sibling cache = some positions ∧ Leads (treeOf sound) start target positions := by
  induction rounds with
  | zero =>
    intro current sibling cache enough _ _ narrowed
    have nonneg : 0 ≤ current.height := narrowed.right.has.nonneg
    omega
  | succ rounds ih =>
    intro current sibling cache enough stored other narrowed line ends
    have here := narrowed.right.has
    have there := narrowed.left.has
    have nonneg : 0 ≤ current.height := here.nonneg
    have least : 0 ≤ sibling.height := there.nonneg
    have le : sibling.height ≤ current.height := narrowed.le
    unfold meet
    rw [if_pos nonneg]
    by_cases same : current.position = sibling.position
    · rw [if_pos same]
      have common : Common (treeOf sound) start target current.position := ⟨same ▸ narrowed.left, narrowed.right⟩
      exact ⟨_, rfl, _, cache, rfl, ⟨common, fun block shared => (narrowed.shared block shared).1.below here⟩, line, ends⟩
    · rw [if_neg same]
      have apart (block : Position) (shared : Common (treeOf sound) start target block) (level : current.height = sibling.height) :
          block.height < current.height := by
        obtain ⟨right, left⟩ := narrowed.shared block shared
        rcases (show block.height ≤ current.height from right.below here).lt_or_eq with below | equal
        · exact below
        · exfalso
          apply same
          calc current.position = block := here.on_self.eq_of_height right equal.symm
            _ = sibling.position := left.eq_of_height there.on_self (equal.trans level)
      have positive : 0 < current.height := by
        by_contra bottom
        apply same
        calc current.position = ⟨0, genesis.hash⟩ := eq_root_of_height here (show current.height = 0 by omega)
          _ = sibling.position := (eq_root_of_height there (show sibling.height = 0 by omega)).symm
      obtain ⟨parent, loaded, last, next, above, named⟩ := header_parent sound stored positive
      have down := on_parent_of sound here above next named
      have longer : Line (treeOf sound) parent.position (current.position :: cache) := ⟨here, next, named, line⟩
      by_cases level : current.height = sibling.height
      · obtain ⟨lower, found, lowest, below, under, linked⟩ := header_parent sound other (by omega)
        have beside := on_parent_of sound there under below linked
        have moved : follow genesis.hash db current sibling = some lower := by
          rw [follow, if_pos level, parentOrGenesis, found, Option.some_or]
        obtain ⟨positions, met, leads⟩ := ih (by push_cast at enough; omega) last lowest
          ⟨narrowed.right.trans down, narrowed.left.trans beside, show lower.height ≤ parent.height by omega, fun block shared => by
            have under := apart block shared level
            obtain ⟨right, left⟩ := narrowed.shared block shared
            exact ⟨down.lower right (show block.height ≤ parent.height by omega), beside.lower left (show block.height ≤ lower.height by omega)⟩⟩
          longer ends
        refine ⟨positions, ?_, leads⟩
        rw [moved, Option.bind_eq_bind, Option.bind_some, loaded]
        exact met
      · have moved : follow genesis.hash db current sibling = some sibling := by rw [follow, if_neg level]
        obtain ⟨positions, met, leads⟩ := ih (by push_cast at enough; omega) last other
          ⟨narrowed.right.trans down, narrowed.left, show sibling.height ≤ parent.height by omega, fun block shared => by
            obtain ⟨right, left⟩ := narrowed.shared block shared
            have under : block.height ≤ sibling.height := left.below there
            exact ⟨down.lower right (show block.height ≤ parent.height by omega), left⟩⟩
          longer ends
        refine ⟨positions, ?_, leads⟩
        rw [moved, Option.bind_eq_bind, Option.bind_some, loaded]
        exact met

theorem bothBranches_leads (first : Has (treeOf sound) start) (last : Has (treeOf sound) target) :
    ∃ positions, bothBranches genesis.hash db start target = some positions ∧ Leads (treeOf sound) start target positions := by
  obtain ⟨current, at_target, here⟩ := has_header last
  obtain ⟨header, at_start, there⟩ := has_header first
  have nonneg : 0 ≤ current.height := by
    have := last.nonneg
    rwa [← here] at this
  have stored : db.headers current.hash = some current := by rwa [show current.hash = target.hash from congrArg Position.hash here]
  have known : db.headers header.hash = some header := by rwa [show header.hash = start.hash from congrArg Position.hash there]
  obtain ⟨sibling, lowered, found, on, level⟩ := lowerTo_finds current.height nonneg _ rfl known (there ▸ first)
  have narrowed : Narrowed (treeOf sound) start target current.position sibling.position := by
    refine ⟨here ▸ last.on_self, there ▸ on, show sibling.height ≤ current.height by omega, fun other shared => ?_⟩
    obtain ⟨left, right⟩ := shared
    have below_target := right.below last
    have below_start := left.below first
    rw [← here] at below_target
    rw [← there] at below_start left
    have under : other.height ≤ sibling.height := by
      rw [level]
      exact le_min below_start below_target
    exact ⟨here ▸ right, on.lower left under⟩
  have alone : Line (treeOf sound) current.position [] := trivial
  obtain ⟨positions, met, leads⟩ := meet_leads (current.height + 1).toNat (by omega) stored found narrowed alone (by rw [here]; rfl)
  refine ⟨positions, ?_, leads⟩
  unfold bothBranches
  simp only [at_target, at_start, lowered, Option.bind_eq_bind, Option.bind_some]
  rw [if_neg (by omega)]
  exact met

theorem leads_checked (first : Has (treeOf sound) start) (last : Has (treeOf sound) target) {positions : List Position}
    (leads : Leads (treeOf sound) start target positions) : checkFront (min start.height target.height) positions = some positions := by
  obtain ⟨front, rest, rfl, highest, _, _⟩ := leads
  have left := highest.holds.1.below first
  have right := highest.holds.2.below last
  exact if_pos (show front.height ≤ max (min start.height target.height) 0 by omega)

/-! ## The rows of the best chain -/

/-- The first row is the genesis block. Each other one is no higher than the tip and names a child
of the row below. -/
structure Contiguous (genesis : Genesis Work) (db : Database Work) : Prop where
  bottom : db.rows 0 = genesis.hash
  tip : ∀ height, 0 ≤ height → db.rows (height + 1) ≠ nullHash → height + 1 ≤ db.best.height
  linked : ∀ height, 0 ≤ height → db.rows (height + 1) ≠ nullHash → parentOf db (db.rows (height + 1)) = db.rows height

theorem bestBlock_eq {height : Int} (nonneg : 0 ≤ height) : db.bestBlock height = db.rows height := if_neg (by omega)

theorem row_of_inChain (has : Has (treeOf sound) position) (inChain : isInBestChain db position = true) :
    position.hash = db.rows position.height := by
  rw [← bestBlock_eq has.nonneg]
  exact of_decide_eq_true inChain

theorem hash_ne_null (has : Has (treeOf sound) position) : position.hash ≠ nullHash := by
  intro null
  obtain ⟨header, found, _⟩ := has_header has
  rw [null, sound.tidy.null] at found
  cases found

theorem hashInBestChain_eq (has : Has (treeOf sound) position) : hashInBestChain db position.hash = isInBestChain db position := by
  obtain ⟨header, found, same⟩ := has_header has
  unfold hashInBestChain
  rw [found]
  show isInBestChain db ⟨header.height, position.hash⟩ = isInBestChain db position
  rw [← same]
  rfl

theorem root_inChain (bottom : db.rows 0 = genesis.hash) : isInBestChain db ⟨0, genesis.hash⟩ = true := by
  apply decide_eq_true
  show genesis.hash = db.bestBlock 0
  rw [bestBlock_eq le_rfl, bottom]

/-- No row is missing below another one. -/
theorem Contiguous.present (contiguous : Contiguous genesis db) (sound : Sound genesis db) (count : Nat) :
    ∀ height, 0 ≤ height → db.rows (height + count) ≠ nullHash → db.rows height ≠ nullHash := by
  induction count with
  | zero => exact fun height _ there => by rwa [Nat.cast_zero, add_zero] at there
  | succ count ih =>
    intro height nonneg there
    have same : height + (count + 1 : Nat) = height + 1 + count := by
      push_cast
      omega
    have above := ih (height + 1) (by omega) (same ▸ there)
    obtain ⟨header, found, level, _⟩ := sound.rows (height + 1) above
    obtain ⟨parent, stored, _⟩ := sound.tidy.parent _ header found (by rw [level]; show 0 < height + 1; omega)
    rw [← contiguous.linked height nonneg above, parentOf_eq found]
    intro null
    rw [null, sound.tidy.null] at stored
    cases stored

theorem Contiguous.shows (contiguous : Contiguous genesis db) (sound : Sound genesis db) (tip : 0 ≤ db.best.height) :
    Shows (treeOf sound) db where
  null := sound.tidy.null
  header := fun hash header found _ => ⟨sound.tidy.named hash header found, heightOf_eq found⟩
  parent := by
    intro hash header found positive
    obtain ⟨parent, there, level⟩ := sound.tidy.parent hash header found positive
    exact ⟨(parentOf_eq found).symm, parent, there, by omega⟩
  first := by
    intro hash header found zero
    have root := sound.tidy.bottom hash header found zero
    obtain ⟨origin, at_root, _, null⟩ := sound.tidy.origin
    rw [root, at_root] at found
    cases found
    rw [null, sound.tidy.null]
  row := by
    intro height nonneg present
    rw [bestBlock_eq nonneg] at present ⊢
    obtain ⟨header, found, level, _⟩ := sound.rows height present
    exact ⟨header, found, level⟩
  linked := by
    intro height nonneg present
    rw [bestBlock_eq (by omega)] at present ⊢
    rw [bestBlock_eq nonneg]
    exact contiguous.linked height nonneg present
  best := by
    unfold Database.best at tip ⊢
    split
    · next missing =>
      rw [if_pos missing] at tip
      exact absurd tip (by decide)
    · next present =>
      obtain ⟨header, found, _, nonneg⟩ := sound.rows db.tipHeight present
      exact ⟨header, found, nonneg⟩

theorem mem_positionsFrom (count : Nat) : ∀ height,
    position ∈ positionsFrom height (bestHashesFrom db count height) →
      position.height ≤ db.best.height ∧ height ≤ position.height ∧ position.hash = db.bestBlock position.height := by
  induction count with
  | zero => exact fun _ inside => nomatch inside
  | succ count ih =>
    intro height inside
    unfold bestHashesFrom at inside
    split at inside
    · cases inside
    · next present =>
      rcases List.mem_cons.mp inside with rfl | later
      · exact ⟨not_lt.mp fun high => present (.inl high), le_rfl, rfl⟩
      · obtain ⟨below, above, row⟩ := ih (height + 1) later
        exact ⟨below, by omega, row⟩

theorem positionsFrom_mem (count : Nat) : ∀ height, height ≤ position.height → position.height - height < count →
    position.height ≤ db.best.height → position.hash = db.bestBlock position.height →
    (∀ row, height ≤ row → row ≤ position.height → db.bestBlock row ≠ nullHash) →
      position ∈ positionsFrom height (bestHashesFrom db count height) := by
  induction count with
  | zero =>
    intro height above enough
    omega
  | succ count ih =>
    intro height above enough below row present
    unfold bestHashesFrom
    rw [if_neg (by
      rintro (high | null)
      · omega
      · exact present height le_rfl above null)]
    rcases above.eq_or_lt with level | higher
    · have same : position = ⟨height, db.bestBlock height⟩ := position_ext level.symm (by rw [row, level])
      exact List.mem_cons.mpr (.inl same)
    · exact List.mem_cons_of_mem _ (ih (height + 1) (by omega) (by push_cast at enough; omega) below row
        fun other lower upper => present other (by omega) upper)

section
variable {tree : Branching Hash} {first : Position} {rest before after : List Position}

theorem line_higher (line : Line tree first rest) : ∀ position ∈ rest, first.height < position.height := by
  induction rest generalizing first with
  | nil => exact List.forall_mem_nil _
  | cons child rest ih =>
    obtain ⟨_, next, _, line⟩ := line
    refine List.forall_mem_cons.mpr ⟨by omega, fun position inside => ?_⟩
    have above := ih line position inside
    omega

theorem line_after (line : Line tree first (before ++ target :: after)) : Line tree target after := by
  induction before generalizing first with
  | nil => exact line.2.2.2
  | cons child before ih => exact ih line.2.2.2

/-- What is above a block of a line goes, and the block stays as the last one. -/
theorem popAbove_ends (line : Line tree first rest) (inside : target ∈ rest) :
    (popAbove target.height (first :: rest)).getLast? = some target := by
  obtain ⟨before, after, rfl⟩ := List.append_of_mem inside
  have above : ∀ position ∈ after.reverse, decide (target.height < position.height) = true := by
    intro position there
    exact decide_eq_true (line_higher (line_after line) position (List.mem_reverse.mp there))
  have dropped : (before ++ target :: after).rdropWhile (fun position => target.height < position.height) = before ++ [target] :=
    calc (before ++ target :: after).rdropWhile (fun position => target.height < position.height)
        = ((after.reverse ++ target :: before.reverse).dropWhile fun position => target.height < position.height).reverse := by
          rw [List.rdropWhile, List.reverse_append, List.reverse_cons, List.append_assoc]
          rfl
      _ = (target :: before.reverse).reverse := by
          rw [List.dropWhile_append_of_pos above, List.dropWhile_cons_of_neg (by simp)]
      _ = before ++ [target] := by rw [List.reverse_cons, List.reverse_reverse]
  show (first :: (before ++ target :: after).rdropWhile fun position => target.height < position.height).getLast? = some target
  rw [dropped, ← List.cons_append, List.getLast?_append]
  rfl

end

/-! ## The best chain -/

/-- A block of the branch that is in the best chain. -/
def Kept (tree : Branching Hash) (db : Database Work) (top position : Position) : Prop :=
  On tree top position ∧ isInBestChain db position = true

theorem kept_self (has : Has (treeOf sound) position) (inChain : isInBestChain db position = true) :
    Highest (Kept (treeOf sound) db position) position :=
  ⟨⟨has.on_self, inChain⟩, fun _ kept => kept.1.below has⟩

theorem highest_unique {tree : Branching Hash} {top other : Position} (here : Highest (Kept tree db top) position)
    (there : Highest (Kept tree db top) other) : position = other :=
  here.holds.1.eq_of_height there.holds.1 (le_antisymm (there.highest _ here.holds) (here.highest _ there.holds))

/-- A block outside the best chain leaves what its branch keeps to its parent. -/
theorem kept_parent {parent : Header Work} (has : Has (treeOf sound) header.position) (outside : isInBestChain db header.position ≠ true)
    (down : On (treeOf sound) header.position parent.position) (next : header.height = parent.height + 1) :
    ∀ other, Kept (treeOf sound) db header.position other → Kept (treeOf sound) db parent.position other := by
  intro other kept
  obtain ⟨on, inChain⟩ := kept
  have below : other.height ≤ header.height := on.below has
  have apart : other.height ≠ header.height := by
    intro level
    have same : other = header.position := on.eq_of_height has.on_self level
    exact outside (same ▸ inChain)
  exact ⟨down.lower on (show other.height ≤ parent.height by omega), inChain⟩

theorem highest_of_parent {parent : Header Work} (has : Has (treeOf sound) header.position) (outside : isInBestChain db header.position ≠ true)
    (down : On (treeOf sound) header.position parent.position) (next : header.height = parent.height + 1)
    (highest : Highest (Kept (treeOf sound) db parent.position) position) : Highest (Kept (treeOf sound) db header.position) position :=
  ⟨⟨down.trans highest.holds.1, highest.holds.2⟩, fun other kept => highest.highest other (kept_parent has outside down next other kept)⟩

theorem walkDown_highest (bottom : db.rows 0 = genesis.hash) (rounds : Nat) : ∀ {header : Header Work}, header.height < rounds →
    db.headers header.hash = some header → Has (treeOf sound) header.position →
      Highest (Kept (treeOf sound) db header.position) (walkDown genesis.hash db rounds header.position header) := by
  induction rounds with
  | zero =>
    intro header enough _ has
    have nonneg : 0 ≤ header.height := has.nonneg
    omega
  | succ rounds ih =>
    intro header enough stored has
    have nonneg : 0 ≤ header.height := has.nonneg
    unfold walkDown
    by_cases low : header.height = 0
    · have same : header.position = ⟨0, genesis.hash⟩ := eq_root_of_height has low
      rw [if_neg (show ¬ 0 < header.position.height from low.not_gt), same]
      exact kept_self (has_root sound) (root_inChain bottom)
    · rw [if_pos (show 0 < header.position.height from lt_of_le_of_ne nonneg (Ne.symm low)), hashInBestChain_eq has]
      by_cases inChain : isInBestChain db header.position = true
      · rw [if_pos inChain]
        exact kept_self has inChain
      · obtain ⟨parent, loaded, there, next, above, named⟩ := header_parent sound stored (by omega)
        rw [if_neg inChain, loaded]
        exact highest_of_parent has inChain (on_parent_of sound has above next named) next (ih (by push_cast at enough; omega) there above)

theorem commonParent_highest (bottom : db.rows 0 = genesis.hash) (has : Has (treeOf sound) position) :
    Highest (Kept (treeOf sound) db position) (commonParent genesis.hash db position) := by
  obtain ⟨header, found, same⟩ := has_header has
  subst same
  unfold commonParent
  rw [found]
  have enough : header.height < (header.height.toNat + 1 : Nat) := by
    push_cast
    omega
  exact walkDown_highest bottom _ enough found has

/-- The blocks above the highest one in the best chain, down from the tip. -/
structure Leaves (tree : Branching Hash) (db : Database Work) (tip : Position) (positions : List Position) (base : Position) : Prop where
  highest : Highest (Kept tree db tip) base
  line : Line tree base positions.reverse
  ends : (base :: positions.reverse).getLast? = some tip

theorem orphaned_leaves (bottom : db.rows 0 = genesis.hash) (height : Nat) : ∀ {header : Header Work}, header.height = height →
    db.headers header.hash = some header → Has (treeOf sound) header.position → isInBestChain db header.position ≠ true →
      ∃ positions base, orphaned db height header.hash = some positions ∧ Leaves (treeOf sound) db header.position positions base := by
  induction height with
  | zero =>
    intro header level _ has outside
    exfalso
    apply outside
    rw [eq_root_of_height has level]
    exact root_inChain bottom
  | succ height ih =>
    intro header level stored has outside
    obtain ⟨parent, loaded, there, next, above, named⟩ := header_parent sound stored (by omega)
    have link : parent.hash = header.parentHash := sound.tidy.named _ parent loaded
    have down := on_parent_of sound has above next named
    have place : (⟨height, header.parentHash⟩ : Position) = parent.position :=
      position_ext (show (height : Int) = parent.height by omega) link.symm
    have tip : (⟨height + 1, header.hash⟩ : Position) = header.position := position_ext level.symm rfl
    unfold orphaned
    simp only [stored, Option.bind_eq_bind, Option.bind_some]
    rw [if_neg (by omega), place, tip]
    by_cases inChain : isInBestChain db parent.position = true
    · rw [if_pos inChain]
      exact ⟨_, parent.position, rfl, highest_of_parent has outside down next (kept_self above inChain), ⟨has, next, named, trivial⟩, rfl⟩
    · obtain ⟨positions, base, found, highest, line, ends⟩ := ih (by omega) there above inChain
      rw [if_neg inChain, ← link, found]
      refine ⟨_, base, rfl, highest_of_parent has outside down next highest, ?_, ?_⟩
      · rw [List.reverse_cons]
        exact line_concat line ends has next named
      · rw [List.reverse_cons, ← List.cons_append, List.getLast?_append]
        rfl

theorem calculateReorg_leaves (bottom : db.rows 0 = genesis.hash) (has : Has (treeOf sound) position) :
    ∃ positions, calculateReorg db position = some positions ∧
      Leaves (treeOf sound) db position positions (commonParent genesis.hash db position) := by
  have common := commonParent_highest bottom has
  unfold calculateReorg
  by_cases inChain : isInBestChain db position = true
  · rw [if_pos inChain]
    have same := highest_unique common (kept_self has inChain)
    exact ⟨[], rfl, common, trivial, congrArg some same⟩
  · rw [if_neg inChain, if_neg (not_lt.mpr has.nonneg)]
    obtain ⟨header, found, rfl⟩ := has_header has
    have nonneg : 0 ≤ header.height := has.nonneg
    obtain ⟨positions, base, taken, leaves⟩ := orphaned_leaves bottom header.height.toNat (by omega) found has inChain
    cases highest_unique leaves.highest common
    exact ⟨positions, taken, leaves⟩

/-! ## The fast path -/

theorem bestChain_leads (contiguous : Contiguous genesis db) (first : Has (treeOf sound) start) (last : Has (treeOf sound) target)
    (from_chain : isInBestChain db start = true) (to_chain : isInBestChain db target = true) (lower : start.height < target.height) :
    Leads (treeOf sound) start target (popAbove target.height (bestChain genesis.hash db start)) := by
  have nonneg := first.nonneg
  have row := row_of_inChain last to_chain
  have present : db.rows target.height ≠ nullHash := row ▸ hash_ne_null last
  have below : target.height ≤ db.best.height := by
    have tip := contiguous.tip (target.height - 1) (by omega)
    rw [Int.sub_add_cancel] at tip
    exact tip present
  have shows := contiguous.shows sound (by omega)
  have inChain : hashInBestChain db start.hash = true := (hashInBestChain_eq first).trans from_chain
  have rows : ∀ row, start.height ≤ row → row ≤ target.height → db.bestBlock row ≠ nullHash := by
    intro row above under
    rw [bestBlock_eq (by omega)]
    exact contiguous.present sound (target.height - row).toNat row (by omega) (by rwa [show row + ((target.height - row).toNat : Int) = target.height by omega])
  have common : commonParent genesis.hash db start = start :=
    highest_unique (commonParent_highest contiguous.bottom first) (kept_self first from_chain)
  have inside : target ∈ bestChain genesis.hash db start := by
    unfold bestChain bestHashes
    dsimp only
    rw [common, max_eq_left nonneg]
    exact positionsFrom_mem _ _ lower.le (by omega) below (row.trans (bestBlock_eq last.nonneg).symm) rows
  obtain ⟨front, rest, chain⟩ := List.exists_cons_of_ne_nil (List.ne_nil_of_mem inside)
  obtain ⟨rfl, line⟩ := bestChain_line shows first inChain chain
  rw [chain] at inside ⊢
  have ends := popAbove_ends line ((List.mem_cons.mp inside).resolve_left fun same => by rw [same] at lower; exact lt_irrefl _ lower)
  have shorter := line_prefix line (List.rdropWhile_prefix (fun position : Position => decide (target.height < position.height)) rest)
  obtain ⟨_, on⟩ := line_on first shorter ends
  exact ⟨_, _, rfl, ⟨⟨first.on_self, on⟩, fun other shared => shared.1.below first⟩, shorter, ends⟩

/-! ## What the oracle says -/

/-- The three calls describe the tree of the headers, and for blocks of the best chain the list
built from its rows is the one that the parents give. -/
structure Describes (genesis : Genesis Work) (db : Database Work) (sound : Sound genesis db) : Prop where
  ancestors : ∀ start target, Placed db.headers start → Placed db.headers target →
    ∃ positions, ancestorsTo genesis.hash db start target = some positions ∧
      bothBranches genesis.hash db start target = some positions ∧ Leads (treeOf sound) start target positions
  parent : ∀ position, Placed db.headers position →
    Highest (Kept (treeOf sound) db position) (commonParent genesis.hash db position)
  reorg : ∀ position, Placed db.headers position → ∃ positions, calculateReorg db position = some positions ∧
    Leaves (treeOf sound) db position positions (commonParent genesis.hash db position)

theorem leads_unique {tree : Branching Hash} {positions others : List Position} (first : Leads tree start target positions)
    (second : Leads tree start target others) : positions = others := by
  obtain ⟨front, rest, rfl, highest, line, ends⟩ := first
  obtain ⟨other, others, rfl, again, same, last⟩ := second
  have level : front.height = other.height := le_antisymm (again.highest _ highest.holds) (highest.highest _ again.holds)
  cases highest.holds.1.eq_of_height again.holds.1 level
  exact congrArg (front :: ·) (line_unique highest.holds.1.has line ends same last)

theorem ancestorsTo_leads (contiguous : Contiguous genesis db) (first : Has (treeOf sound) start) (last : Has (treeOf sound) target) :
    ∃ positions, ancestorsTo genesis.hash db start target = some positions ∧
      bothBranches genesis.hash db start target = some positions ∧ Leads (treeOf sound) start target positions := by
  obtain ⟨positions, both, leads⟩ := bothBranches_leads first last
  refine ⟨positions, ?_, both, leads⟩
  unfold ancestorsTo
  rw [hashInBestChain_eq first, hashInBestChain_eq last]
  split
  · next fast =>
    obtain ⟨to_chain, from_chain, lower⟩ := fast
    have chain := bestChain_leads contiguous first last from_chain to_chain lower
    rw [leads_unique chain leads]
    exact leads_checked first last leads
  · rw [both]
    exact leads_checked first last leads

theorem Contiguous.describes (contiguous : Contiguous genesis db) (sound : Sound genesis db) : Describes genesis db sound where
  ancestors := fun _ _ first last => ancestorsTo_leads contiguous (placed_iff_has.mp first) (placed_iff_has.mp last)
  parent := fun _ placed => commonParent_highest contiguous.bottom (placed_iff_has.mp placed)
  reorg := fun _ placed => calculateReorg_leaves contiguous.bottom (placed_iff_has.mp placed)

/-- The genesis block is what its own branch shares with the best chain. -/
theorem Describes.bottom (describes : Describes genesis db sound) : db.rows 0 = genesis.hash := by
  have root := has_root sound
  obtain ⟨⟨on, inChain⟩, _⟩ := describes.parent _ (placed_iff_has.mpr root)
  have low := on.below root
  have zero := eq_root_of_height on.has (le_antisymm low on.has.nonneg)
  rw [zero] at inChain
  exact (row_of_inChain root inChain).symm

/-- Up to a row of the best chain the list comes from the rows, and ends with that one after its
parent. -/
theorem Describes.row (describes : Describes genesis db sound) {height : Int} (nonneg : 0 ≤ height)
    (present : db.rows (height + 1) ≠ nullHash) :
    height + 1 ≤ db.best.height ∧ parentOf db (db.rows (height + 1)) = db.rows height := by
  have root := has_root sound
  have placed := sound.rows (height + 1) present
  have has : Has (treeOf sound) _ := placed_iff_has.mp placed
  have at_root := root_inChain describes.bottom
  have at_row : isInBestChain db ⟨height + 1, db.rows (height + 1)⟩ = true := decide_eq_true (bestBlock_eq (by omega)).symm
  obtain ⟨positions, found, _, front, rest, rfl, highest, line, ends⟩ := describes.ancestors _ _ (placed_iff_has.mpr root) placed
  unfold ancestorsTo at found
  rw [hashInBestChain_eq root, hashInBestChain_eq has, if_pos ⟨at_row, at_root, show 0 < height + 1 by omega⟩] at found
  obtain ⟨popped, _⟩ := checkFront_eq_some found
  have inside : front :: rest ⊆ bestChain genesis.hash db ⟨0, genesis.hash⟩ := by
    rw [← popped]
    exact (popAbove_initial _).subset
  have filled : rest ≠ [] := by
    rintro rfl
    cases ends
    have below : height + 1 ≤ 0 := highest.holds.1.below root
    omega
  obtain ⟨before, member, level, parent⟩ := line_before line ends filled
  obtain ⟨tip, _, _⟩ := mem_positionsFrom _ _ (inside (List.mem_of_getLast? ends))
  obtain ⟨_, _, row⟩ := mem_positionsFrom _ _ (inside member)
  have same : before.height = height := by
    change height + 1 = before.height + 1 at level
    omega
  refine ⟨tip, parent.trans ?_⟩
  rw [row, same, bestBlock_eq nonneg]

/-- After any operations, checkpoints included, the three calls describe the tree exactly if the
rows of the best chain follow each other. -/
theorem describes_iff_contiguous (operations : List (Shared.Operation Work)) (ran : Shared.run (initial genesis) operations = .ok db) :
    Describes genesis db ((sound_initial genesis).run operations ran) ↔ Contiguous genesis db := by
  constructor
  · intro describes
    exact ⟨describes.bottom, fun _ nonneg present => (describes.row nonneg present).1,
      fun _ nonneg present => (describes.row nonneg present).2⟩
  · exact fun contiguous => contiguous.describes _

/-! ## Runs without and with a checkpoint -/

/-- Batches that keep the best chain contiguous. -/
theorem contiguous_of_settled (settled : Bookkeeping.SettledBooks genesis db) : Contiguous genesis db := by
  obtain ⟨current, consistent, spine, _⟩ := settled
  have tip : db.best.height = current.height := congrArg Position.height consistent.best
  have below {height : Int} (nonneg : 0 ≤ height) (present : db.rows (height + 1) ≠ nullHash) : height + 1 ≤ current.height := by
    by_contra high
    exact present ((spine.rows (height + 1) (by omega)).mpr (by omega))
  refine ⟨?_, fun height nonneg present => tip ▸ below nonneg present, fun height nonneg present => ?_⟩
  · rw [← bestBlock_eq le_rfl]
    exact consistent.origin
  · obtain ⟨header, found, _, _, named⟩ := spine.chain (height + 1) (by omega) (below nonneg present)
    rw [parentOf_eq found, named, Int.add_sub_cancel]

/-- A branch that arrives child first and takes over from another. -/
def branchTakesOver : List (Shared.Operation Nat) :=
  [[Batches.block 3 2 1 Batches.third_valid, Batches.block 12 1 1 (by decide)], [Batches.block 4 3 1 (by decide), Batches.block 2 1 1 Batches.second_valid]].map .addHeaders

theorem describes_after_takeover : ∃ final, ∃ ran : Shared.run (initial Batches.origin) branchTakesOver = .ok final,
    Describes Batches.origin final ((sound_initial Batches.origin).run _ ran) := by
  obtain ⟨final, ran, settled⟩ := Batches.run_keeps Bookkeeping.settledBooks_addHeaders _ (initial Batches.origin)
    (Bookkeeping.settledBooks_initial Batches.origin) (Batches.runMeets_sound Bookkeeping.connectsOnChain_of_check
      [[Batches.block 3 2 1 (by decide), Batches.block 12 1 1 (by decide)], [Batches.block 4 3 1 (by decide), Batches.block 2 1 1 (by decide)]] _ (by decide))
  exact ⟨final, ran, (describes_iff_contiguous _ ran).mpr (contiguous_of_settled settled)⟩

/-- A chain of four blocks on the genesis block, another block 13 on block 2, and a checkpoint that
requires it. -/
def checkpointBehind : List (Shared.Operation Nat) :=
  [.addHeaders [Batches.block 2 1 1 Batches.second_valid, Batches.block 3 2 1 Batches.third_valid, Batches.block 4 3 1 (by decide), Batches.block 5 4 1 (by decide)],
    .addHeaders [Batches.block 13 2 1 (by decide)], .addCheckpoint 2 13]

theorem ok_of_toOption {ε α β : Type} {result : Except ε α} {read : α → β} {value : β} (reads : result.toOption.map read = some value) :
    ∃ final, result = .ok final ∧ read final = value := by
  cases result with
  | error fault => cases reads
  | ok final => exact ⟨final, rfl, Option.some.inj reads⟩

theorem checkpointBehind_reaches : ∃ final, Shared.run (initial Batches.origin) checkpointBehind = .ok final ∧
    (parentOf final 4, (final.headers 13).map Header.height, (final.headers 4).map Header.height,
      [final.rows 2, final.rows 3], final.tipHeight) = (3, some 2, some 3, [13, 4], 2) :=
  ok_of_toOption (by decide +kernel)

/-- The checkpoint puts block 13 into its row and leaves blocks 4 and 5 in the rows above the new
tip, so that they still count as blocks of the best chain. From block 13 to block 4 the list ends
with block 13. -/
theorem checkpoint_leaves_rows : ∃ final, ∃ ran : Shared.run (initial Batches.origin) checkpointBehind = .ok final,
    ancestorsTo 1 final ⟨2, 13⟩ ⟨3, 4⟩ = some [⟨2, 13⟩] ∧ parentOf final 4 = 3 ∧
      ¬Describes Batches.origin final ((sound_initial Batches.origin).run _ ran) := by
  obtain ⟨final, ran, reached⟩ := checkpointBehind_reaches
  obtain ⟨named, ⟨first, found, low⟩, ⟨second, there, high⟩, ⟨row, next⟩, tip⟩ : parentOf final 4 = 3 ∧
      (∃ header, final.headers 13 = some header ∧ header.height = 2) ∧ (∃ header, final.headers 4 = some header ∧ header.height = 3) ∧
      (final.rows 2 = 13 ∧ final.rows 3 = 4) ∧ final.tipHeight = 2 := by simpa using reached
  have best : final.best = ⟨2, 13⟩ := by simp [Database.best, tip, row, nullHash]
  have chain : bestChain 1 final ⟨2, 13⟩ = [⟨2, 13⟩] := by
    simp [bestChain, commonParent, walkDown, found, low, hashInBestChain, isInBestChain, Database.bestBlock, row, best, bestHashes,
      bestHashesFrom, nullHash, positionsFrom]
  refine ⟨final, ran, ?_, named, fun describes => ?_⟩
  · simp [ancestorsTo, hashInBestChain, found, there, low, high, isInBestChain, Database.bestBlock, row, next, chain, popAbove, checkFront]
  · have present : final.rows (2 + 1) ≠ nullHash := by
      show final.rows 3 ≠ nullHash
      rw [next]
      decide
    have below := (describes.row (by decide) present).1
    rw [best] at below
    exact absurd below (by decide)

/-- After any operations the parents lead from a connected header to the genesis block in as many steps as its height
says and in no fewer, and every row holds a header of its height. -/
theorem heights_count_parents (operations : List (Shared.Operation Work)) (ran : Shared.run (initial genesis) operations = .ok db) :
    (∀ hash header, db.headers hash = some header → (header.isDisconnected = false ↔ 0 ≤ header.height) ∧
      ∀ steps : Nat, (steps : Int) ≤ header.height → ((parentOf db)^[steps] hash = genesis.hash ↔ (steps : Int) = header.height)) ∧
    ∀ height, db.rows height ≠ nullHash → Placed db.headers ⟨height, db.rows height⟩ := by
  have sound := (sound_initial genesis).run operations ran
  refine ⟨fun hash header found => ⟨⟨sound.honest hash header found, sound.tidy.attached hash header found⟩, fun steps enough => ?_⟩, sound.rows⟩
  have top : (treeOf sound).height hash = header.height := heightOf_eq found
  have level : (treeOf sound).height ((parentOf db)^[steps] hash) = header.height - steps :=
    top ▸ Branching.height_iterate steps (top.symm ▸ enough)
  constructor
  · intro arrives
    have zero : (treeOf sound).height genesis.hash = 0 := (has_root sound).height
    rw [arrives, zero] at level
    omega
  · exact fun all => (treeOf sound).eq_root _ (by rw [level]; omega)

theorem checkpointBehind_heights : ∃ final, Shared.run (initial Batches.origin) checkpointBehind = .ok final ∧
    Placed final.headers ⟨3, final.rows 3⟩ := by
  obtain ⟨final, ran, reached⟩ := checkpointBehind_reaches
  refine ⟨final, ran, (heights_count_parents _ ran).2 3 ?_⟩
  have row : final.rows 3 = 4 := by simp only [Prod.mk.injEq, List.cons.injEq] at reached; exact reached.2.2.2.1.2.1
  rw [row]
  decide

end Opentxs.HeaderOracle.Ancestry
