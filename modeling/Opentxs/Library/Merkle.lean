import Mathlib.Data.List.Basic

/-! Trees of hashes: each row hashes the values of the row below in pairs, the last one with itself where it has no
other, until one value is left. A tree is known from its root, if it is known how many values it has. -/

namespace Opentxs.Library.Merkle

variable {α : Type}

def pairs : List α → List (α × α)
  | [] => []
  | [last] => [(last, last)]
  | left :: right :: rest => (left, right) :: pairs rest

def row (node : α × α → α) (values : List α) : List α := (pairs values).map node

/-- The last row of so many, or the first that has one value. -/
def climb (row : List α → List α) : Nat → List α → List α
  | 0, values => values
  | rows + 1, values => if values.length ≤ 1 then values else climb row rows (row values)

/-- All the pairs that are hashed. -/
def hashed (node : α × α → α) : Nat → List α → List (α × α)
  | 0, _ => []
  | rows + 1, values => if values.length ≤ 1 then [] else pairs values ++ hashed node rows (row node values)

variable {node : α × α → α}

theorem pairs_length (values : List α) : (pairs values).length = (values.length + 1) / 2 := by
  induction values using pairs.induct with
  | case1 => exact (Nat.div_eq_of_lt Nat.one_lt_two).symm
  | case2 last => exact (Nat.div_self Nat.two_pos).symm
  | case3 left right rest ih =>
    show (pairs rest).length + 1 = (rest.length + 2 + 1) / 2
    omega

theorem row_length (values : List α) : (row node values).length = (values.length + 1) / 2 := by
  rw [row, List.length_map, pairs_length]

theorem pairs_injective {first : List α} : ∀ {second : List α}, first.length = second.length → pairs first = pairs second →
    first = second := by
  induction first using pairs.induct with
  | case1 =>
    intro second length _
    exact (List.eq_nil_of_length_eq_zero length.symm).symm
  | case2 last =>
    intro second length same
    obtain ⟨other, rfl⟩ := List.length_eq_one_iff.mp length.symm
    cases same
    rfl
  | case3 left right rest ih =>
    intro second length same
    cases second with
    | nil => cases length
    | cons other second =>
      cases second with
      | nil => cases length
      | cons next second =>
        obtain ⟨heads, tails⟩ := List.cons.inj (show (left, right) :: pairs rest = (other, next) :: pairs second from same)
        cases heads
        rw [ih (Nat.succ.inj (Nat.succ.inj length)) tails]

/-- With as many rows as values there is one value left. -/
theorem climb_length (rows : Nat) : ∀ values : List α, values ≠ [] → values.length ≤ rows + 1 → (climb (row node) rows values).length = 1 := by
  induction rows with
  | zero =>
    intro values some few
    exact Nat.le_antisymm few (List.length_pos_iff.mpr some)
  | succ rows ih =>
    intro values some few
    have least := List.length_pos_iff.mpr some
    unfold climb
    split
    · omega
    · have length : (row node values).length = _ := row_length values
      exact ih _ (List.length_pos_iff.mp (by omega)) (by omega)

theorem map_injective {β : Type} {change : α → β} {first second : List α}
    (apart : ∀ one ∈ first, ∀ two ∈ second, change one = change two → one = two) (same : first.map change = second.map change) :
    first = second := by
  have length := congrArg List.length same
  rw [List.length_map, List.length_map] at length
  refine List.ext_getElem length fun index one two => apart _ (List.getElem_mem one) _ (List.getElem_mem two) ?_
  have here := List.getElem_of_eq same (by rwa [List.length_map])
  rwa [List.getElem_map, List.getElem_map] at here

/-- Two trees of one size with one root have the same values, unless two of the pairs collide. -/
theorem climb_injective (rows : Nat) : ∀ {first second : List α}, first.length = second.length →
    (∀ one ∈ hashed node rows first, ∀ two ∈ hashed node rows second, node one = node two → one = two) →
    climb (row node) rows first = climb (row node) rows second → first = second := by
  induction rows with
  | zero => exact fun _ _ same => same
  | succ rows ih =>
    intro first second length apart same
    unfold climb at same
    unfold hashed at apart
    rw [← length] at same apart
    split at same
    · exact same
    · next many =>
      rw [if_neg many, if_neg many] at apart
      have next := ih (by rw [row_length, row_length, length])
        (fun one member two listed => apart one (List.mem_append_right _ member) two (List.mem_append_right _ listed)) same
      refine pairs_injective length (map_injective (fun one member two listed => ?_) next)
      exact apart one (List.mem_append_left _ member) two (List.mem_append_left _ listed)

end Opentxs.Library.Merkle
