import Mathlib.Data.List.Basic
import Mathlib.Data.Int.Order.Basic

/-! Moments that are at least a distance apart, and how many of them there is room for. -/

namespace Opentxs.Library.Spacing

def Spaced (distance : Int) (moments : List Int) : Prop := moments.Pairwise fun first second => first + distance ≤ second

variable {distance start finish moment : Int} {moments : List Int}

theorem spaced_append : Spaced distance (moments ++ [moment]) ↔ Spaced distance moments ∧ ∀ earlier ∈ moments, earlier + distance ≤ moment := by
  unfold Spaced
  simp only [List.pairwise_append, List.pairwise_singleton, List.mem_singleton, forall_eq, true_and]

theorem Spaced.filter (spaced : Spaced distance moments) (keep : Int → Bool) : Spaced distance (moments.filter keep) :=
  List.Pairwise.filter keep spaced

/-- There is room for one moment, and for one more with every distance that has passed. -/
theorem Spaced.length_le (apart : 0 < distance) (spaced : Spaced distance moments) :
    ∀ {start : Int}, start ≤ finish + distance → (∀ moment ∈ moments, start ≤ moment ∧ moment ≤ finish) →
      (moments.length : Int) ≤ 1 + (finish - start) / distance := by
  induction moments with
  | nil =>
    intro start room _
    have least : -1 ≤ (finish - start) / distance := by
      rw [Int.le_ediv_iff_mul_le apart]
      omega
    rw [List.length_nil]
    omega
  | cons moment moments ih =>
    intro start _ inside
    obtain ⟨first, rest⟩ := List.pairwise_cons.mp spaced
    obtain ⟨⟨low, high⟩, others⟩ := List.forall_mem_cons.mp inside
    have fits := ih rest (show moment + distance ≤ finish + distance by omega) fun other member => ⟨first other member, (others other member).2⟩
    have shifted : (finish - (moment + distance)) / distance = (finish - moment) / distance - 1 := by
      rw [← Int.sub_sub, Int.sub_ediv_of_dvd _ (Int.dvd_refl distance), Int.ediv_self (by omega)]
    have grows : (finish - moment) / distance ≤ (finish - start) / distance := Int.ediv_le_ediv apart (by omega)
    rw [List.length_cons, Int.natCast_succ]
    omega

end Opentxs.Library.Spacing
