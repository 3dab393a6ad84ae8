import Mathlib.Data.List.Nodup

/-! Trees given by the list of children of each node: what lies below a node, the paths
down from it, and the branches that a depth first walk over it splits into. -/

namespace Opentxs.Library.Tree

variable {α : Type} (children : α → List α)

inductive Descendant (top : α) : α → Prop
  | top : Descendant top top
  | child {parent child : α} : Descendant top parent → child ∈ children parent → Descendant top child

inductive Path : α → List α → Prop
  | done (node : α) : Path node []
  | step {node child : α} {rest : List α} : child ∈ children node → Path child rest → Path node (child :: rest)

/-- At most two children at every node, and nothing splits below the first of two. Without
`forks` nothing splits at all. -/
inductive Narrow : (forks : Bool) → α → Prop
  | leaf {forks : Bool} {node : α} : children node = [] → Narrow forks node
  | step {forks : Bool} {node child : α} : children node = [child] → Narrow forks child → Narrow forks node
  | fork {node first second : α} : children node = [first, second] → Narrow false first →
      Narrow true second → Narrow true node

/-- One path to each leaf below a node. -/
structure Branches (top : α) (paths : List (List α)) : Prop where
  path : ∀ rest ∈ paths, Path children top rest
  leaf : ∀ rest ∈ paths, children (rest.getLastD top) = []
  covers : ∀ node, Descendant children top node → ∃ rest ∈ paths, node ∈ top :: rest
  distinct : (paths.map fun rest => rest.getLastD top).Nodup

variable {children}

theorem Descendant.trans {top middle bottom : α} (upper : Descendant children top middle)
    (lower : Descendant children middle bottom) : Descendant children top bottom := by
  induction lower with
  | top => exact upper
  | child _ member ih => exact Descendant.child ih member

theorem Descendant.of_child {top node child : α} (member : child ∈ children top)
    (below : Descendant children child node) : Descendant children top node :=
  Descendant.trans (Descendant.child Descendant.top member) below

/-- What is below a node is the node or below one of its children. -/
theorem Descendant.cases_head {top node : α} (below : Descendant children top node) :
    node = top ∨ ∃ child ∈ children top, Descendant children child node := by
  induction below with
  | top => exact Or.inl rfl
  | child _ member ih =>
    rename_i parent child _
    right
    rcases ih with same | ⟨first, inTop, rest⟩
    · exact ⟨child, same ▸ member, Descendant.top⟩
    · exact ⟨first, inTop, Descendant.child rest member⟩

/-- Below a node, and not the node itself when the tree has no cycles. -/
def Strict (children : α → List α) (top node : α) : Prop :=
  ∃ child ∈ children top, Descendant children child node

theorem descendant_iff (top node : α) :
    Descendant children top node ↔ node = top ∨ Strict children top node := by
  constructor
  · exact Descendant.cases_head
  · intro either
    rcases either with rfl | ⟨child, member, below⟩
    · exact Descendant.top
    · exact Descendant.of_child member below

/-- What is below a node is the node or has a parent below it. -/
theorem Descendant.cases_tail {top node : α} (below : Descendant children top node) :
    node = top ∨ ∃ parent, Descendant children top parent ∧ node ∈ children parent := by
  cases below with
  | top => exact Or.inl rfl
  | child upper member => exact Or.inr ⟨_, upper, member⟩

theorem descendant_leaf {top node : α} (leaf : children top = []) (below : Descendant children top node) :
    node = top := by
  rcases below.cases_head with same | ⟨child, member, _⟩
  · exact same
  · rw [leaf] at member
    cases member

theorem Path.descendant {top : α} {rest : List α} (path : Path children top rest) :
    ∀ node ∈ top :: rest, Descendant children top node := by
  induction path with
  | done =>
    intro node member
    rw [List.mem_singleton] at member
    exact member ▸ Descendant.top
  | step inTop _ ih =>
    intro node member
    rcases List.mem_cons.mp member with rfl | later
    · exact Descendant.top
    · exact Descendant.of_child inTop (ih node later)

theorem getLastD_cons (top child : α) (rest : List α) :
    (child :: rest).getLastD top = rest.getLastD child := by
  cases rest with
  | nil => rfl
  | cons head rest => rfl

theorem getLastD_mem (top : α) (rest : List α) : rest.getLastD top ∈ top :: rest := by
  induction rest generalizing top with
  | nil => exact List.mem_singleton.mpr rfl
  | cons head rest ih =>
    rw [getLastD_cons]
    exact List.mem_cons_of_mem top (ih head)

theorem Path.last_descendant {top : α} {rest : List α} (path : Path children top rest) :
    Descendant children top (rest.getLastD top) :=
  path.descendant _ (getLastD_mem top rest)

theorem Path.snoc {top node : α} {rest : List α} (path : Path children top rest)
    (member : node ∈ children (rest.getLastD top)) : Path children top (rest ++ [node]) := by
  induction path with
  | done => exact Path.step member (Path.done node)
  | step inTop _ ih =>
    rw [getLastD_cons] at member
    exact Path.step inTop (ih member)

/-- Only the end of a path can be without children. -/
theorem Path.leaf_eq_last {top node : α} {rest : List α} (path : Path children top rest) (member : node ∈ top :: rest)
    (leaf : children node = []) : node = rest.getLastD top := by
  induction path with
  | done => exact List.mem_singleton.mp member
  | step inTop _ ih =>
    rw [getLastD_cons]
    rcases List.mem_cons.mp member with rfl | later
    · rw [leaf] at inTop
      cases inTop
    · exact ih later

theorem acyclic_of_child {node child : α} (member : child ∈ children node)
    (acyclic : ∀ next ∈ children child, ¬ Descendant children next child) : ¬ Descendant children child node := by
  intro below
  rcases below.cases_head with same | ⟨next, inChild, rest⟩
  · subst same
    exact acyclic node member Descendant.top
  · exact acyclic next inChild (Descendant.child rest member)

theorem Narrow.acyclic {forks : Bool} {node : α} (narrow : Narrow children forks node) :
    ∀ child ∈ children node, ¬ Descendant children child node := by
  induction narrow with
  | leaf none =>
    intro child member
    rw [none] at member
    cases member
  | step one _ ih =>
    intro child member
    have same : child = _ := List.mem_singleton.mp (one ▸ member)
    subst same
    exact acyclic_of_child member ih
  | fork two _ _ ihFirst ihSecond =>
    intro child member
    have either : child ∈ [_, _] := two ▸ member
    rcases List.mem_cons.mp either with rfl | last
    · exact acyclic_of_child member ihFirst
    · have same := List.mem_singleton.mp last
      subst same
      exact acyclic_of_child member ihSecond

/-- With one parent each, two children have nothing in common below them. -/
theorem disjoint_descendants (unique : ∀ first second child, child ∈ children first → child ∈ children second → first = second)
    {node first second bottom : α} (inFirst : first ∈ children node) (inSecond : second ∈ children node)
    (different : first ≠ second) (acyclic : ∀ child ∈ children node, ¬ Descendant children child node)
    (left : Descendant children first bottom) : ¬ Descendant children second bottom := by
  induction left with
  | top =>
    intro right
    rcases right.cases_tail with same | ⟨parent, below, member⟩
    · exact different same
    · have parentSame := unique parent node first member inFirst
      subst parentSame
      exact acyclic second inSecond below
  | child left member ih =>
    rename_i parent child
    intro right
    rcases right.cases_tail with same | ⟨other, below, otherMember⟩
    · subst same
      have parentSame := unique parent node child member inSecond
      subst parentSame
      exact acyclic first inFirst left
    · have parentSame := unique other parent child otherMember member
      subst parentSame
      exact ih below

theorem Branches.of_leaf {top : α} (leaf : children top = []) : Branches children top [[]] where
  path := by
    intro rest member
    rw [List.mem_singleton.mp member]
    exact Path.done top
  leaf := by
    intro rest member
    rw [List.mem_singleton.mp member]
    exact leaf
  covers := by
    intro node below
    exact ⟨[], List.mem_singleton.mpr rfl, List.mem_singleton.mpr (descendant_leaf leaf below)⟩
  distinct := List.nodup_singleton _

theorem Branches.of_step {top child : α} {paths : List (List α)} (one : children top = [child])
    (branches : Branches children child paths) : Branches children top (paths.map (child :: ·)) where
  path := by
    intro rest member
    obtain ⟨tail, inPaths, rfl⟩ := List.mem_map.mp member
    exact Path.step (one ▸ List.mem_singleton.mpr rfl) (branches.path tail inPaths)
  leaf := by
    intro rest member
    obtain ⟨tail, inPaths, rfl⟩ := List.mem_map.mp member
    rw [getLastD_cons]
    exact branches.leaf tail inPaths
  covers := by
    intro node below
    rcases below.cases_head with rfl | ⟨first, member, rest⟩
    · obtain ⟨tail, inPaths, _⟩ := branches.covers child Descendant.top
      exact ⟨child :: tail, List.mem_map_of_mem inPaths, List.mem_cons_self⟩
    · rw [one, List.mem_singleton] at member
      subst member
      obtain ⟨tail, inPaths, inTail⟩ := branches.covers node rest
      exact ⟨first :: tail, List.mem_map_of_mem inPaths, List.mem_cons_of_mem top inTail⟩
  distinct := by
    have same : ((fun rest => rest.getLastD top) ∘ fun x => child :: x) = fun rest : List α => rest.getLastD child := by
      funext rest
      exact getLastD_cons top child rest
    rw [List.map_map, same]
    exact branches.distinct

theorem Branches.of_fork {top first second : α} {left right : List (List α)} (two : children top = [first, second])
    (disjoint : ∀ node, Descendant children first node → ¬ Descendant children second node)
    (leftBranches : Branches children first left) (rightBranches : Branches children second right) :
    Branches children top (left.map (first :: ·) ++ right.map (second :: ·)) where
  path := by
    intro rest member
    rcases List.mem_append.mp member with inLeft | inRight
    · obtain ⟨tail, inPaths, rfl⟩ := List.mem_map.mp inLeft
      exact Path.step (by simp [two]) (leftBranches.path tail inPaths)
    · obtain ⟨tail, inPaths, rfl⟩ := List.mem_map.mp inRight
      exact Path.step (by simp [two]) (rightBranches.path tail inPaths)
  leaf := by
    intro rest member
    rcases List.mem_append.mp member with inLeft | inRight
    · obtain ⟨tail, inPaths, rfl⟩ := List.mem_map.mp inLeft
      rw [getLastD_cons]
      exact leftBranches.leaf tail inPaths
    · obtain ⟨tail, inPaths, rfl⟩ := List.mem_map.mp inRight
      rw [getLastD_cons]
      exact rightBranches.leaf tail inPaths
  covers := by
    intro node below
    rcases below.cases_head with rfl | ⟨child, member, rest⟩
    · obtain ⟨tail, inPaths, _⟩ := leftBranches.covers first Descendant.top
      exact ⟨first :: tail, List.mem_append_left _ (List.mem_map_of_mem inPaths), List.mem_cons_self⟩
    · rw [two] at member
      rcases List.mem_cons.mp member with rfl | last
      · obtain ⟨tail, inPaths, inTail⟩ := leftBranches.covers node rest
        exact ⟨child :: tail, List.mem_append_left _ (List.mem_map_of_mem inPaths), List.mem_cons_of_mem top inTail⟩
      · rw [List.mem_singleton] at last
        subst last
        obtain ⟨tail, inPaths, inTail⟩ := rightBranches.covers node rest
        exact ⟨child :: tail, List.mem_append_right _ (List.mem_map_of_mem inPaths), List.mem_cons_of_mem top inTail⟩
  distinct := by
    have drop (child : α) : ((fun rest => rest.getLastD top) ∘ fun x => child :: x) =
        fun rest : List α => rest.getLastD child := by
      funext rest
      exact getLastD_cons top child rest
    rw [List.map_append, List.map_map, List.map_map, drop, drop]
    apply List.Nodup.append leftBranches.distinct rightBranches.distinct
    intro node inLeft inRight
    obtain ⟨leftRest, leftMember, rfl⟩ := List.mem_map.mp inLeft
    obtain ⟨rightRest, rightMember, same⟩ := List.mem_map.mp inRight
    apply disjoint _ (leftBranches.path leftRest leftMember).last_descendant
    exact same ▸ (rightBranches.path rightRest rightMember).last_descendant

/-! ## Checking a tree -/

/-- Whether a tree is narrow, as far as the fuel goes. -/
def isNarrow (children : α → List α) : (fuel : Nat) → (forks : Bool) → α → Bool
  | 0, _, _ => false
  | fuel + 1, forks, node =>
    match children node with
    | [] => true
    | [child] => isNarrow children fuel forks child
    | [first, second] => forks && isNarrow children fuel false first && isNarrow children fuel true second
    | _ :: _ :: _ :: _ => false

theorem narrow_of_isNarrow (fuel : Nat) (forks : Bool) (node : α) (narrow : isNarrow children fuel forks node = true) :
    Narrow children forks node := by
  induction fuel generalizing forks node with
  | zero => cases narrow
  | succ fuel ih =>
    unfold isNarrow at narrow
    split at narrow
    · rename_i leaf
      exact Narrow.leaf leaf
    · rename_i child one
      exact Narrow.step one (ih forks child narrow)
    · rename_i first second two
      rw [Bool.and_eq_true, Bool.and_eq_true] at narrow
      obtain ⟨⟨rfl, left⟩, right⟩ := narrow
      exact Narrow.fork two (ih false first left) (ih true second right)
    · cases narrow

end Opentxs.Library.Tree
