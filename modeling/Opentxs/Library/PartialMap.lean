import Mathlib.Data.List.Basic

/-! Running a partial function over a list: the run succeeds when every call does, and
its results stand in the order of the list. -/

namespace Opentxs.Library.PartialMap

variable {α β : Type}

theorem mapM_eq_some_iff (f : α → Option β) (items : List α) (values : List β) :
    items.mapM f = some values ↔ items.map f = values.map some := by
  induction items generalizing values with
  | nil => cases values <;> simp
  | cons item items ih =>
    cases values with
    | nil => cases first : f item <;> cases rest : items.mapM f <;> simp [List.mapM_cons, first, rest]
    | cons value values =>
      cases first : f item with
      | none => simp [List.mapM_cons, first]
      | some found =>
        rw [List.map_cons, List.map_cons, List.cons.injEq, ← ih]
        cases rest : items.mapM f <;> simp [List.mapM_cons, first, rest]

theorem mapM_exists (f : α → Option β) (items : List α)
    (total : ∀ item ∈ items, ∃ value, f item = some value) : ∃ values, items.mapM f = some values := by
  induction items with
  | nil => exact ⟨[], rfl⟩
  | cons item items ih =>
    obtain ⟨value, first⟩ := total item List.mem_cons_self
    obtain ⟨values, rest⟩ := ih fun other later => total other (List.mem_cons_of_mem _ later)
    exact ⟨value :: values, by simp [List.mapM_cons, first, rest]⟩

theorem mapM_length (f : α → Option β) (items : List α) (values : List β)
    (run : items.mapM f = some values) : values.length = items.length := by
  have same := congrArg List.length ((mapM_eq_some_iff f items values).mp run)
  simpa using same.symm

theorem mapM_getElem? (f : α → Option β) (items : List α) (values : List β)
    (run : items.mapM f = some values) (index : Nat) (item : α) (at_index : items[index]? = some item) :
    f item = values[index]? := by
  have same := congrArg (·[index]?) ((mapM_eq_some_iff f items values).mp run)
  simp only [List.getElem?_map, at_index, Option.map_some] at same
  cases found : values[index]? <;> simp_all

theorem mem_mapM (f : α → Option β) (items : List α) (values : List β)
    (run : items.mapM f = some values) (value : β) :
    value ∈ values ↔ ∃ item ∈ items, f item = some value := by
  have same := (mapM_eq_some_iff f items values).mp run
  have member : some value ∈ values.map some ↔ value ∈ values := by simp
  rw [← member, ← same, List.mem_map]

theorem mapM_total (f : α → Option β) (items : List α)
    (total : ∀ item ∈ items, ∃ value, f item = some value) :
    ∃ values, items.mapM f = some values ∧ ∀ value, value ∈ values ↔ ∃ item ∈ items, f item = some value := by
  obtain ⟨values, run⟩ := mapM_exists f items total
  exact ⟨values, run, mem_mapM f items values run⟩

end Opentxs.Library.PartialMap
