import Mathlib.Logic.Function.Iterate
import Mathlib.Data.Int.Order.Basic

/-! Trees in which every node names its parent, and the branch that leads from the root to a
node: one node at each height. -/

namespace Opentxs.Library

structure Branching (α : Type) where
  root : α
  parent : α → α
  height : α → Int
  height_parent : ∀ node, 0 < height node → height (parent node) = height node - 1
  eq_root : ∀ node, height node = 0 → node = root

namespace Branching

variable {α : Type} {tree : Branching α} {top node other child : α} {level : Int}

/-- The node at a height on the branch that ends at the top. -/
def ancestor (tree : Branching α) (top : α) (level : Int) : α := tree.parent^[(tree.height top - level).toNat] top

/-- The node is on the branch that ends at the top. -/
structure On (tree : Branching α) (top node : α) : Prop where
  nonneg : 0 ≤ tree.height node
  below : tree.height node ≤ tree.height top
  found : tree.ancestor top (tree.height node) = node

theorem height_iterate (count : Nat) : (count : Int) ≤ tree.height top →
    tree.height (tree.parent^[count] top) = tree.height top - count := by
  induction count with
  | zero => simp
  | succ count ih =>
    intro enough
    have before := ih (by omega)
    rw [Function.iterate_succ_apply', tree.height_parent _ (by omega), before]
    push_cast
    omega

theorem height_ancestor (nonneg : 0 ≤ level) (below : level ≤ tree.height top) : tree.height (tree.ancestor top level) = level := by
  unfold ancestor
  rw [height_iterate _ (by omega)]
  omega

theorem ancestor_on (nonneg : 0 ≤ level) (below : level ≤ tree.height top) : tree.On top (tree.ancestor top level) := by
  have same := height_ancestor nonneg below
  exact ⟨by omega, by omega, by rw [same]⟩

theorem on_self (nonneg : 0 ≤ tree.height top) : tree.On top top where
  nonneg := nonneg
  below := le_rfl
  found := by simp [ancestor]

theorem On.eq_of_height (here : tree.On top node) (there : tree.On top other) (same : tree.height node = tree.height other) :
    node = other := by
  rw [← here.found, ← there.found, same]

/-- A lower node of the branch is on the branch that ends at a higher one. -/
theorem On.lower (high : tree.On top other) (low : tree.On top node) (le : tree.height node ≤ tree.height other) :
    tree.On other node where
  nonneg := low.nonneg
  below := le
  found := by
    have split : (tree.height top - tree.height node).toNat =
        (tree.height other - tree.height node).toNat + (tree.height top - tree.height other).toNat := by
      have := high.below
      omega
    calc tree.ancestor other (tree.height node)
        = tree.parent^[(tree.height other - tree.height node).toNat] (tree.ancestor top (tree.height other)) := by
          rw [high.found]
          rfl
      _ = tree.ancestor top (tree.height node) := by
          unfold ancestor
          rw [split, Function.iterate_add_apply]
      _ = node := low.found

theorem On.trans (high : tree.On top other) (low : tree.On other node) : tree.On top node where
  nonneg := low.nonneg
  below := le_trans low.below high.below
  found := by
    have split : (tree.height top - tree.height node).toNat =
        (tree.height other - tree.height node).toNat + (tree.height top - tree.height other).toNat := by
      have := high.below
      have := low.below
      omega
    calc tree.ancestor top (tree.height node)
        = tree.parent^[(tree.height other - tree.height node).toNat] (tree.ancestor top (tree.height other)) := by
          unfold ancestor
          rw [split, Function.iterate_add_apply]
      _ = tree.ancestor other (tree.height node) := by
          rw [high.found]
          rfl
      _ = node := low.found

theorem on_parent (positive : 0 < tree.height child) : tree.On child (tree.parent child) := by
  have lower := tree.height_parent child positive
  refine ⟨by omega, by omega, ?_⟩
  have one : (tree.height child - tree.height (tree.parent child)).toNat = 1 := by omega
  unfold ancestor
  rw [one, Function.iterate_one]

/-- Two neighbours on a branch are a parent and its child. -/
theorem On.parent_eq (high : tree.On top child) (low : tree.On top node) (next : tree.height child = tree.height node + 1) :
    tree.parent child = node := by
  have positive : 0 < tree.height child := by
    have := low.nonneg
    omega
  have above := high.trans (on_parent positive)
  exact above.eq_of_height low (by rw [tree.height_parent child positive, next]; omega)

theorem on_root (nonneg : 0 ≤ tree.height top) : tree.On top tree.root := by
  have first : tree.On top (tree.ancestor top 0) := ancestor_on le_rfl nonneg
  rwa [tree.eq_root _ (height_ancestor le_rfl nonneg)] at first

end Branching

end Opentxs.Library
