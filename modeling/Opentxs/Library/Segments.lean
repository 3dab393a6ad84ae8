import Mathlib.Data.List.Basic
import Mathlib.Tactic.Common

/-! The longest stretches of a list that satisfy a test, and how they lie in the parts between separators. -/

namespace Opentxs.Library.Segments

variable {α : Type} (keep : α → Bool)

def runs (items : List α) : List (List α) := (items.splitOnP fun item => !keep item).filter fun run => run ≠ []

variable {keep}

theorem ne_nil_of_mem_runs {items run : List α} (member : run ∈ runs keep items) : run ≠ [] :=
  of_decide_eq_true (List.mem_filter.mp member).2

/-- A separator ends a run. -/
theorem runs_append_cons (front back : List α) {sep : α} (drop : keep sep = false) :
    runs keep (front ++ sep :: back) = runs keep front ++ runs keep back := by
  unfold runs
  rw [List.splitOnP_append_cons front back (by rw [drop]; rfl), List.filter_append]

theorem runs_of_all {items : List α} (all : ∀ item ∈ items, keep item = true) (some : items ≠ []) : runs keep items = [items] := by
  unfold runs
  rw [List.splitOnP_eq_singleton fun item member => by rw [all item member]; rfl]
  exact List.filter_cons_of_pos (decide_eq_true some)

/-- The parts between separators hold all runs. -/
theorem runs_splitOn [BEq α] [LawfulBEq α] (items : List α) {sep : α} (drop : keep sep = false) :
    (items.splitOn sep).flatMap (runs keep) = runs keep items := by
  have joined (parts : List (List α)) : parts.flatMap (runs keep) = runs keep ([sep].intercalate parts) := by
    induction parts with
    | nil => rfl
    | cons part parts ih =>
      cases parts with
      | nil => rw [List.flatMap_singleton, List.intercalate_singleton]
      | cons next parts =>
        rw [List.flatMap_cons, ih, List.intercalate_cons_of_ne_nil (List.cons_ne_nil _ _), List.append_assoc, List.singleton_append,
          runs_append_cons _ _ drop]
  rw [joined, List.intercalate_splitOn]

theorem flatten_runs (items : List α) : (runs keep items).flatten = items.filter keep := by
  have whole (parts : List (List α)) : (parts.filter fun run => run ≠ []).flatten = parts.flatten := by
    induction parts with
    | nil => rfl
    | cons part parts ih =>
      by_cases empty : part = []
      · rw [List.filter_cons, if_neg (by rw [decide_eq_true_iff]; exact not_not.mpr empty), ih, List.flatten_cons, empty, List.nil_append]
      · rw [List.filter_cons, if_pos (decide_eq_true empty), List.flatten_cons, ih, List.flatten_cons]
  unfold runs
  rw [whole]
  induction items with
  | nil => rfl
  | cons item items ih =>
    rw [List.splitOnP_cons_eq_if_modifyHead]
    cases kept : keep item with
    | false =>
      rw [if_pos (by rfl), List.flatten_cons, List.nil_append, ih, List.filter_cons_of_neg (by rw [kept]; decide)]
    | true =>
      obtain ⟨first, others, parts⟩ := List.exists_cons_of_ne_nil (List.splitOnP_ne_nil (fun item => !keep item) items)
      rw [parts] at ih ⊢
      rw [if_neg (by decide), List.modifyHead_cons, List.flatten_cons, List.cons_append, ← List.flatten_cons, ih,
        List.filter_cons_of_pos kept]

end Opentxs.Library.Segments
