import Mathlib.Algebra.BigOperators.Group.List.Basic
import Mathlib.Algebra.Ring.Nat

/-! The longest end of a list that is not heavier than a limit. -/

namespace Opentxs.Library

variable {α β : Type} {weight : α → Nat} {limit : Nat} {items kept : List α}

def total (weight : α → Nat) (items : List α) : Nat := (items.map weight).sum

@[simp] theorem total_cons (item : α) (rest : List α) : total weight (item :: rest) = weight item + total weight rest := List.sum_cons

@[simp] theorem total_append (first second : List α) : total weight (first ++ second) = total weight first + total weight second := by
  rw [total, List.map_append, List.sum_append]
  rfl

theorem total_map (change : β → α) (items : List β) : total weight (items.map change) = total (weight ∘ change) items := by
  rw [total, total, List.map_map]

/-- An end of the list within the limit, and every other such end is an end of it. -/
structure LongestFitting (weight : α → Nat) (limit : Nat) (items kept : List α) : Prop where
  suffix : kept <:+ items
  fits : total weight kept ≤ limit
  longest : ∀ other, other <:+ items → total weight other ≤ limit → other <:+ kept

def fitting (weight : α → Nat) (limit : Nat) : List α → List α
  | [] => []
  | item :: rest => if total weight (item :: rest) ≤ limit then item :: rest else fitting weight limit rest

theorem fitting_self (fits : total weight items ≤ limit) : fitting weight limit items = items := by
  cases items with
  | nil => rfl
  | cons item rest => exact if_pos fits

theorem fitting_cons {item : α} {rest : List α} (heavy : limit < total weight (item :: rest)) :
    fitting weight limit (item :: rest) = fitting weight limit rest := if_neg (Nat.not_le.mpr heavy)

theorem longest_fitting (items : List α) : LongestFitting weight limit items (fitting weight limit items) := by
  induction items with
  | nil => exact ⟨List.suffix_rfl, Nat.zero_le limit, fun _ suffix _ => suffix⟩
  | cons item rest ih =>
    rcases Nat.lt_or_ge limit (total weight (item :: rest)) with heavy | fits
    · rw [fitting_cons heavy]
      refine ⟨ih.suffix.trans (List.suffix_cons item rest), ih.fits, fun other suffix light => ?_⟩
      rcases List.suffix_cons_iff.mp suffix with rfl | shorter
      · omega
      · exact ih.longest other shorter light
    · rw [fitting_self fits]
      exact ⟨List.suffix_rfl, fits, fun _ suffix _ => suffix⟩

/-- What was too heavy stays too heavy when more comes behind it. -/
theorem fitting_append (first second : List α) :
    fitting weight limit (fitting weight limit first ++ second) = fitting weight limit (first ++ second) := by
  induction first with
  | nil => rfl
  | cons item rest ih =>
    rcases Nat.lt_or_ge limit (total weight (item :: rest)) with heavy | fits
    · have heavier : limit < total weight (item :: (rest ++ second)) := by
        rw [← List.cons_append, total_append]
        omega
      rw [fitting_cons heavy, ih, List.cons_append, fitting_cons heavier]
    · rw [fitting_self fits]

theorem fitting_map (change : β → α) (items : List β) :
    fitting weight limit (items.map change) = (fitting (weight ∘ change) limit items).map change := by
  induction items with
  | nil => rfl
  | cons item rest ih =>
    have same : total weight _ = _ := total_map change (item :: rest)
    rcases Nat.lt_or_ge limit (total (weight ∘ change) (item :: rest)) with heavy | fits
    · have heavy' : limit < total weight (change item :: rest.map change) := same ▸ heavy
      rw [List.map_cons, fitting_cons heavy', fitting_cons heavy, ih]
    · have fits' : total weight ((item :: rest).map change) ≤ limit := same ▸ fits
      rw [fitting_self fits', fitting_self fits]

end Opentxs.Library
