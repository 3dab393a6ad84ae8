import Mathlib.Data.List.Nodup
import Mathlib.Data.List.Range
import Mathlib.Logic.Function.Basic
import Mathlib.Order.Basic

/-! Work that is divided among jobs by stripes: each job starts at its own number and goes on
by the number of jobs. Each item is in exactly one stripe. -/

namespace Opentxs.Library.Striping

/-- The items of one job. -/
def stripe (step stop : Nat) : Nat → Nat → List Nat
  | 0, _ => []
  | fuel + 1, item => if item < stop then item :: stripe step stop fuel (item + step) else []

def stripes (step stop : Nat) : List Nat := (List.range step).flatMap (stripe step stop stop)

variable {step stop : Nat}

theorem mem_stripe (positive : 0 < step) (other : Nat) : ∀ fuel item, stop ≤ item + fuel →
    (other ∈ stripe step stop fuel item ↔ item ≤ other ∧ other < stop ∧ other % step = item % step) := by
  intro fuel
  induction fuel with
  | zero =>
    intro item enough
    refine iff_of_false List.not_mem_nil fun inside => ?_
    omega
  | succ fuel ih =>
    intro item enough
    unfold stripe
    split
    · next inside =>
      rw [List.mem_cons, ih (item + step) (by omega), Nat.add_mod_right]
      constructor
      · rintro (rfl | ⟨above, below, same⟩)
        · exact ⟨le_rfl, inside, rfl⟩
        · exact ⟨by omega, below, same⟩
      · rintro ⟨above, below, same⟩
        rcases Nat.eq_or_lt_of_le above with rfl | beyond
        · exact .inl rfl
        · have whole : (other - item) % step = 0 := Nat.sub_mod_eq_zero_of_mod_eq same
          have least : step ≤ other - item := Nat.le_of_dvd (by omega) (Nat.dvd_of_mod_eq_zero whole)
          exact .inr ⟨by omega, below, same⟩
    · next outside =>
      refine iff_of_false List.not_mem_nil fun inside => ?_
      omega

theorem stripe_ascends (positive : 0 < step) : ∀ fuel item, (stripe step stop fuel item).Pairwise (· < ·) ∧
    ∀ other ∈ stripe step stop fuel item, item ≤ other := by
  intro fuel
  induction fuel with
  | zero => exact fun _ => ⟨.nil, fun _ member => absurd member List.not_mem_nil⟩
  | succ fuel ih =>
    intro item
    unfold stripe
    split
    · obtain ⟨ascends, above⟩ := ih (item + step)
      constructor
      · exact .cons (fun other member => by have := above other member; omega) ascends
      · intro other member
        rcases List.mem_cons.mp member with rfl | later
        · exact le_rfl
        · have := above other later
          omega
    · exact ⟨.nil, fun _ member => absurd member List.not_mem_nil⟩

theorem mem_stripes (positive : 0 < step) (item : Nat) : item ∈ stripes step stop ↔ item < stop := by
  unfold stripes
  rw [List.mem_flatMap]
  constructor
  · rintro ⟨job, _, member⟩
    exact ((mem_stripe positive item stop job (Nat.le_add_left _ _)).mp member).2.1
  · intro below
    refine ⟨item % step, List.mem_range.mpr (Nat.mod_lt item positive), ?_⟩
    exact (mem_stripe positive item stop _ (Nat.le_add_left _ _)).mpr ⟨Nat.mod_le _ _, below, (Nat.mod_mod _ _).symm⟩

theorem stripes_nodup (positive : 0 < step) : (stripes step stop).Nodup := by
  unfold stripes
  rw [List.nodup_flatMap]
  constructor
  · exact fun job _ => (stripe_ascends positive stop job).1.imp fun less => less.ne
  · refine List.Pairwise.imp_of_mem ?_ List.nodup_range
    intro first second here there different item one other
    have same := ((mem_stripe positive item stop first (Nat.le_add_left _ _)).mp one).2.2
    have also := ((mem_stripe positive item stop second (Nat.le_add_left _ _)).mp other).2.2
    rw [Nat.mod_eq_of_lt (List.mem_range.mp here)] at same
    rw [Nat.mod_eq_of_lt (List.mem_range.mp there)] at also
    exact different (same.symm.trans also)

/-- Where each item of a list without repetitions is changed in its turn, each is changed once. -/
theorem foldl_update {α : Type} (change : Nat → α → α) (items : List Nat) : ∀ data : Nat → α, items.Nodup → ∀ item,
    items.foldl (fun data item => Function.update data item (change item (data item))) data item =
      if item ∈ items then change item (data item) else data item := by
  induction items with
  | nil => exact fun _ _ item => (if_neg List.not_mem_nil).symm
  | cons head items ih =>
    intro data distinct item
    obtain ⟨fresh, rest⟩ := List.nodup_cons.mp distinct
    rw [List.foldl_cons, ih _ rest item]
    by_cases same : item = head
    · rw [if_neg (same ▸ fresh), if_pos (List.mem_cons.mpr (.inl same)), same, Function.update_self]
    · rw [Function.update_of_ne same]
      by_cases later : item ∈ items
      · rw [if_pos later, if_pos (List.mem_cons_of_mem _ later)]
      · rw [if_neg later, if_neg fun member => (List.mem_cons.mp member).elim same later]

end Opentxs.Library.Striping
