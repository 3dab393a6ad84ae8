import Mathlib.Data.List.Sort
import Mathlib.Data.Finset.Defs
import Mathlib.Order.Lattice
import Mathlib.Data.List.Lex
import Mathlib.Data.UInt

/-! Sorted lists and the two algorithms that need them: removing neighbours that are
equal, and the one-pass intersection. What each contains is stated by membership. -/

namespace Opentxs.Library.SortedList

variable {α : Type} [LinearOrder α]

def sort (items : List α) : List α := items.insertionSort (· ≤ ·)

@[simp] theorem mem_sort (item : α) (items : List α) : item ∈ sort items ↔ item ∈ items :=
  (List.perm_insertionSort (· ≤ ·) items).mem_iff

@[simp] theorem sort_length (items : List α) : (sort items).length = items.length :=
  (List.perm_insertionSort (· ≤ ·) items).length_eq

theorem sort_sorted (items : List α) : (sort items).Pairwise (· ≤ ·) :=
  List.pairwise_insertionSort (· ≤ ·) items

theorem sort_perm (items : List α) : (sort items).Perm items :=
  List.perm_insertionSort (· ≤ ·) items

/-- The elements of a set in their order. -/
def ordered (set : Finset α) : List α :=
  Quot.liftOn set.val sort fun first second perm =>
    ((sort_perm first).trans (perm.trans (sort_perm second).symm)).eq_of_pairwise
      (fun _ _ _ _ below above => le_antisymm below above) (sort_sorted first) (sort_sorted second)

@[simp] theorem mem_ordered (set : Finset α) (item : α) : item ∈ ordered set ↔ item ∈ set := by
  obtain ⟨elements, nodup⟩ := set
  induction elements using Quot.ind with
  | mk items => exact mem_sort item items

theorem ordered_nodup (set : Finset α) : (ordered set).Nodup := by
  obtain ⟨elements, nodup⟩ := set
  induction elements using Quot.ind with
  | mk items => exact (sort_perm items).nodup_iff.mpr nodup

def unique : List α → List α
  | [] => []
  | item :: items =>
    match unique items with
    | [] => [item]
    | next :: rest => if item = next then next :: rest else item :: next :: rest

theorem mem_unique (item : α) (items : List α) : item ∈ unique items ↔ item ∈ items := by
  induction items with
  | nil => rfl
  | cons head items ih =>
    rw [List.mem_cons, ← ih, unique]
    cases unique items with
    | nil => simp
    | cons next rest =>
      by_cases same : head = next
      · simp [same]
      · simp [same]

def dedup (items : List α) : List α := unique (sort items)

@[simp] theorem mem_dedup (item : α) (items : List α) : item ∈ dedup items ↔ item ∈ items := by
  rw [dedup, mem_unique, mem_sort]

theorem unique_sorted (items : List α) (sorted : items.Pairwise (· ≤ ·)) :
    (unique items).Pairwise (· < ·) := by
  induction items with
  | nil => exact List.Pairwise.nil
  | cons head items ih =>
    rw [List.pairwise_cons] at sorted
    have tail := ih sorted.2
    have above : ∀ item ∈ unique items, head ≤ item := by
      intro item member
      exact sorted.1 item ((mem_unique item items).mp member)
    rw [unique]
    cases kept : unique items with
    | nil => exact List.pairwise_singleton _ _
    | cons next rest =>
      rw [kept] at tail above
      by_cases same : head = next
      · simpa [same] using tail
      · simp only [same, if_false]
        apply List.Pairwise.cons _ tail
        intro item member
        have first : head < next := lt_of_le_of_ne (above next List.mem_cons_self) same
        rcases List.mem_cons.mp member with rfl | later
        · exact first
        · exact lt_trans first ((List.pairwise_cons.mp tail).1 item later)

theorem dedup_sorted (items : List α) : (dedup items).Pairwise (· < ·) :=
  unique_sorted _ (sort_sorted items)

def intersectHead (item : α) (rest : List α → List α) : List α → List α
  | [] => []
  | other :: others =>
    if item < other then rest (other :: others)
    else if other < item then intersectHead item rest others
    else item :: rest others

/-- Both lists are walked once; an item is kept when both heads are equal. -/
def setIntersection : List α → List α → List α
  | [], _ => []
  | item :: items, others => intersectHead item (setIntersection items) others

theorem setIntersection_subset (items others : List α) :
    ∀ item ∈ setIntersection items others, item ∈ items ∧ item ∈ others := by
  induction items generalizing others with
  | nil =>
    intro item member
    cases member
  | cons head items ih =>
    rw [setIntersection]
    induction others with
    | nil =>
      intro item member
      cases member
    | cons other others step =>
      intro item member
      rw [intersectHead] at member
      split at member
      · obtain ⟨left, right⟩ := ih _ item member
        exact ⟨List.mem_cons_of_mem _ left, right⟩
      · rename_i notBelow
        split at member
        · obtain ⟨left, right⟩ := step item member
          exact ⟨left, List.mem_cons_of_mem _ right⟩
        · rename_i notAbove
          have same : head = other := le_antisymm (not_lt.mp notAbove) (not_lt.mp notBelow)
          rcases List.mem_cons.mp member with rfl | later
          · exact ⟨List.mem_cons_self, same ▸ List.mem_cons_self⟩
          · obtain ⟨left, right⟩ := ih _ item later
            exact ⟨List.mem_cons_of_mem _ left, List.mem_cons_of_mem _ right⟩

theorem setIntersection_complete (items others : List α) (sorted : items.Pairwise (· ≤ ·))
    (othersSorted : others.Pairwise (· ≤ ·)) (item : α) (left : item ∈ items) (right : item ∈ others) :
    item ∈ setIntersection items others := by
  induction items generalizing others with
  | nil => cases left
  | cons head items ih =>
    rw [setIntersection]
    rw [List.pairwise_cons] at sorted
    induction others with
    | nil => cases right
    | cons other others step =>
      have tailSorted := (List.pairwise_cons.mp othersSorted).2
      have othersAbove := (List.pairwise_cons.mp othersSorted).1
      rw [intersectHead]
      split
      · rename_i below
        apply ih _ sorted.2 othersSorted _ right
        rcases List.mem_cons.mp left with rfl | later
        · exfalso
          rcases List.mem_cons.mp right with rfl | behind
          · exact lt_irrefl _ below
          · exact not_le_of_gt below (othersAbove _ behind)
        · exact later
      · split
        · rename_i above
          apply step tailSorted
          rcases List.mem_cons.mp right with rfl | behind
          · exfalso
            rcases List.mem_cons.mp left with rfl | later
            · exact lt_irrefl _ above
            · exact not_le_of_gt above (sorted.1 _ later)
          · exact behind
        · rename_i notBelow notAbove
          have same : head = other := le_antisymm (not_lt.mp notAbove) (not_lt.mp notBelow)
          by_cases first : item = head
          · exact first ▸ List.mem_cons_self
          · have later := (List.mem_cons.mp left).resolve_left first
            have behind := (List.mem_cons.mp right).resolve_left (same ▸ first)
            exact List.mem_cons_of_mem _ (ih _ sorted.2 tailSorted later behind)

/-- On sorted lists the pass finds exactly the common items. -/
theorem mem_setIntersection (items others : List α) (sorted : items.Pairwise (· ≤ ·))
    (othersSorted : others.Pairwise (· ≤ ·)) (item : α) :
    item ∈ setIntersection items others ↔ item ∈ items ∧ item ∈ others :=
  ⟨setIntersection_subset items others item,
    fun both => setIntersection_complete items others sorted othersSorted item both.1 both.2⟩

@[simp] theorem setIntersection_nil (items : List α) : setIntersection items [] = [] := by
  cases items with
  | nil => rfl
  | cons item items => rfl

/-- The first items are found, or what lies below them is passed over. -/
theorem setIntersection_cons_ne_nil (item : α) (items others : List α) (sorted : others.Pairwise (· ≤ ·)) :
    setIntersection (item :: items) others ≠ [] ↔
      item ∈ others ∨ setIntersection items (others.dropWhile (· < item)) ≠ [] := by
  rw [setIntersection]
  induction others with
  | nil => simp [intersectHead]
  | cons other others step =>
    rw [List.pairwise_cons] at sorted
    rw [intersectHead, List.dropWhile_cons]
    by_cases below : item < other
    · have absent : item ∉ other :: others := by
        intro member
        rcases List.mem_cons.mp member with rfl | later
        · exact lt_irrefl _ below
        · exact not_le_of_gt below (sorted.1 item later)
      have kept : ¬other < item := not_lt.mpr below.le
      simp [below, kept, absent]
    · by_cases above : other < item
      · have differs : item ≠ other := above.ne'
        simpa [below, above, differs] using step sorted.2
      · have same : item = other := le_antisymm (not_lt.mp above) (not_lt.mp below)
        simp [same]

theorem mem_dropWhile_lt (bound item : α) (items : List α) (sorted : items.Pairwise (· ≤ ·)) :
    item ∈ items.dropWhile (· < bound) ↔ item ∈ items ∧ bound ≤ item := by
  induction items with
  | nil => simp
  | cons head items ih =>
    rw [List.pairwise_cons] at sorted
    rw [List.dropWhile_cons, List.mem_cons]
    by_cases low : head < bound
    · simp only [low, decide_true, if_true, ih sorted.2]
      constructor
      · exact fun both => ⟨.inr both.1, both.2⟩
      · rintro ⟨rfl | later, above⟩
        · exact absurd low (not_lt.mpr above)
        · exact ⟨later, above⟩
    · simp only [low, decide_false, Bool.false_eq_true, if_false, List.mem_cons]
      have least : bound ≤ head := not_lt.mp low
      constructor
      · rintro (rfl | later)
        · exact ⟨.inl rfl, least⟩
        · exact ⟨.inr later, least.trans (sorted.1 item later)⟩
      · exact fun both => both.1

/-- Where only the second list is sorted, the pass finds something exactly when a common
item comes before everything larger than it. -/
theorem setIntersection_ne_nil_iff (items others : List α) (sorted : others.Pairwise (· ≤ ·)) :
    setIntersection items others ≠ [] ↔
      ∃ before item after, items = before ++ item :: after ∧ item ∈ others ∧ ∀ earlier ∈ before, earlier ≤ item := by
  induction items generalizing others with
  | nil => simp [setIntersection]
  | cons head items ih =>
    have rest := ih (others.dropWhile (· < head)) (sorted.sublist (List.dropWhile_sublist _))
    rw [setIntersection_cons_ne_nil head items others sorted, rest]
    constructor
    · rintro (here | ⟨before, item, after, rfl, member, above⟩)
      · exact ⟨[], head, items, rfl, here, fun _ none => (nomatch none)⟩
      · rw [mem_dropWhile_lt head item others sorted] at member
        refine ⟨head :: before, item, after, rfl, member.1, ?_⟩
        intro earlier listed
        rcases List.mem_cons.mp listed with rfl | later
        · exact member.2
        · exact above earlier later
    · rintro ⟨before, item, after, split, member, above⟩
      cases before with
      | nil =>
        left
        rw [List.nil_append, List.cons.injEq] at split
        rwa [split.1]
      | cons first before =>
        rw [List.cons_append, List.cons.injEq] at split
        obtain ⟨rfl, rfl⟩ := split
        right
        exact ⟨before, item, after, rfl, (mem_dropWhile_lt head item others sorted).mpr
          ⟨member, above head List.mem_cons_self⟩, fun earlier later => above earlier (List.mem_cons_of_mem _ later)⟩

/-- A set kept in order: an item already there is not repeated. -/
def insertSorted (item : α) (items : List α) : List α :=
  if item ∈ items then items else items.orderedInsert (· ≤ ·) item

@[simp] theorem mem_insertSorted (item other : α) (items : List α) :
    other ∈ insertSorted item items ↔ other = item ∨ other ∈ items := by
  unfold insertSorted
  split
  · rename_i present
    constructor
    · exact Or.inr
    · intro either
      rcases either with rfl | member
      · exact present
      · exact member
  · exact List.mem_orderedInsert _

def remove (item : α) (items : List α) : List α := items.filter (· ≠ item)

@[simp] theorem mem_remove (item other : α) (items : List α) :
    other ∈ remove item items ↔ other ∈ items ∧ other ≠ item := by
  simp [remove]

theorem foldl_insertSorted (items added : List α) (item : α) :
    item ∈ added.foldl (fun set next => insertSorted next set) items ↔ item ∈ added ∨ item ∈ items := by
  induction added generalizing items with
  | nil => simp
  | cons next added ih =>
    rw [List.foldl_cons, ih, mem_insertSorted, List.mem_cons]
    constructor
    · intro member
      rcases member with later | rfl | before
      · exact Or.inl (Or.inr later)
      · exact Or.inl (Or.inl rfl)
      · exact Or.inr before
    · intro member
      rcases member with (rfl | later) | before
      · exact Or.inr (Or.inl rfl)
      · exact Or.inl later
      · exact Or.inr (Or.inr before)

theorem foldl_remove (items removed : List α) (item : α) :
    item ∈ removed.foldl (fun set next => remove next set) items ↔ item ∈ items ∧ item ∉ removed := by
  induction removed generalizing items with
  | nil => simp
  | cons next removed ih =>
    rw [List.foldl_cons, ih, mem_remove, List.mem_cons, not_or, and_assoc]

/-! Bytes and words are ordered as numbers, byte strings lexicographically. -/

instance byteOrder : LinearOrder UInt8 where
  le_refl := UInt8.le_refl
  le_trans _ _ _ := UInt8.le_trans
  le_antisymm _ _ := UInt8.le_antisymm
  le_total := UInt8.le_total
  lt_iff_le_not_ge x y := by simp only [UInt8.lt_iff_toNat_lt, UInt8.le_iff_toNat_le]; omega
  toDecidableLE := inferInstance

instance wordOrder : LinearOrder UInt64 where
  le_refl := UInt64.le_refl
  le_trans _ _ _ := UInt64.le_trans
  le_antisymm _ _ := UInt64.le_antisymm
  le_total := UInt64.le_total
  lt_iff_le_not_ge x y := by simp only [UInt64.lt_iff_toNat_lt, UInt64.le_iff_toNat_le]; omega
  toDecidableLE := inferInstance

example : setIntersection (sort [[3], [1, 2], [(7 : UInt8)]]) (sort [[7], [1], [1, 2]]) = [[1, 2], [7]] := by
  decide

end Opentxs.Library.SortedList
