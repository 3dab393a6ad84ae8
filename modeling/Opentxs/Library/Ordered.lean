import Mathlib.Order.Basic
import Mathlib.Data.List.Basic
import Mathlib.Order.Bounds.Defs
import Mathlib.Order.Defs.LinearOrder
import Mathlib.Order.Lattice

/-! Maps kept as a list of entries in the order of their keys, so that the last entry
has the greatest key. Inserting never replaces an entry. -/

namespace Opentxs.Library.Ordered

variable {κ ν : Type} [LinearOrder κ]

/-- An entry with the key that is already there stays. -/
def insertEntry (key : κ) (value : ν) : List (κ × ν) → List (κ × ν)
  | [] => [(key, value)]
  | entry :: entries =>
    if key < entry.1 then (key, value) :: entry :: entries
    else if entry.1 < key then entry :: insertEntry key value entries
    else entry :: entries

theorem mem_insertEntry (key : κ) (value : ν) (entries : List (κ × ν)) (entry : κ × ν)
    (member : entry ∈ insertEntry key value entries) : entry = (key, value) ∨ entry ∈ entries := by
  induction entries with
  | nil =>
    rw [insertEntry, List.mem_singleton] at member
    exact Or.inl member
  | cons head entries ih =>
    unfold insertEntry at member
    split at member
    · exact List.mem_cons.mp member
    · split at member
      · rcases List.mem_cons.mp member with rfl | later
        · exact Or.inr List.mem_cons_self
        · exact (ih later).imp id (List.mem_cons_of_mem _)
      · exact Or.inr member

theorem insertEntry_sorted (key : κ) (value : ν) (entries : List (κ × ν))
    (sorted : entries.Pairwise (fun first second => first.1 < second.1)) :
    (insertEntry key value entries).Pairwise (fun first second => first.1 < second.1) := by
  induction entries with
  | nil => exact List.pairwise_singleton _ _
  | cons head entries ih =>
    have tail := List.pairwise_cons.mp sorted
    unfold insertEntry
    split
    · rename_i below
      apply List.Pairwise.cons _ sorted
      intro entry member
      rcases List.mem_cons.mp member with rfl | later
      · exact below
      · exact lt_trans below (tail.1 entry later)
    · split
      · rename_i above
        apply List.Pairwise.cons _ (ih tail.2)
        intro entry member
        rcases mem_insertEntry key value entries entry member with rfl | later
        · exact above
        · exact tail.1 entry later
      · exact sorted

/-- Every entry from a bound on goes, but for the first of them if it is to be kept. -/
def cleanEntries (bound : κ) (keep : ν → Bool) : List (κ × ν) → List (κ × ν)
  | [] => []
  | entry :: entries =>
    if entry.1 < bound then entry :: cleanEntries bound keep entries
    else if keep entry.2 then [entry] else []

theorem cleanEntries_initial (bound : κ) (keep : ν → Bool) (entries : List (κ × ν)) : cleanEntries bound keep entries <+: entries := by
  induction entries with
  | nil => exact List.prefix_rfl
  | cons head entries ih =>
    unfold cleanEntries
    split
    · exact (List.prefix_cons_inj head).mpr ih
    · split
      · exact (List.prefix_cons_inj head).mpr (List.nil_prefix)
      · exact List.nil_prefix

structure OrderedMap (κ ν : Type) [LinearOrder κ] where
  entries : List (κ × ν)
  sorted : entries.Pairwise (fun first second => first.1 < second.1)

namespace OrderedMap

def empty : OrderedMap κ ν := ⟨[], List.Pairwise.nil⟩

def find? (map : OrderedMap κ ν) (key : κ) : Option ν := map.entries.lookup key

def emplace (map : OrderedMap κ ν) (key : κ) (value : ν) : OrderedMap κ ν :=
  ⟨insertEntry key value map.entries, insertEntry_sorted key value map.entries map.sorted⟩

def erase (map : OrderedMap κ ν) (key : κ) : OrderedMap κ ν :=
  ⟨map.entries.filter fun entry => entry.1 ≠ key, map.sorted.filter _⟩

/-- An entry with the key that is already there is replaced. -/
def assign (map : OrderedMap κ ν) (key : κ) (value : ν) : OrderedMap κ ν := (map.erase key).emplace key value

def keepUpTo (map : OrderedMap κ ν) (bound : κ) : OrderedMap κ ν :=
  ⟨map.entries.filter (fun entry => entry.1 ≤ bound), map.sorted.filter _⟩

def keepAbove (map : OrderedMap κ ν) (bound : κ) : OrderedMap κ ν :=
  ⟨map.entries.filter (fun entry => bound < entry.1), map.sorted.filter _⟩

def eraseAll (map : OrderedMap κ ν) (keys : List κ) : OrderedMap κ ν := keys.foldl erase map

def last? (map : OrderedMap κ ν) : Option (κ × ν) := map.entries.getLast?

/-- The last entry that is to be kept. -/
def findLast? (map : OrderedMap κ ν) (keep : κ → ν → Bool) : Option (κ × ν) :=
  map.entries.reverse.find? fun entry => keep entry.1 entry.2

def first? (map : OrderedMap κ ν) : Option (κ × ν) := map.entries.head?

def isEmpty (map : OrderedMap κ ν) : Bool := map.entries.isEmpty

def keys (map : OrderedMap κ ν) : List κ := map.entries.map Prod.fst

/-- A value is changed in place. -/
def modify (map : OrderedMap κ ν) (key : κ) (change : ν → ν) : OrderedMap κ ν :=
  ⟨map.entries.map fun entry => (entry.1, if entry.1 = key then change entry.2 else entry.2), List.pairwise_map.mpr map.sorted⟩

def mapValues {μ : Type} (map : OrderedMap κ ν) (change : ν → μ) : OrderedMap κ μ :=
  ⟨map.entries.map fun entry => (entry.1, change entry.2), List.pairwise_map.mpr map.sorted⟩

def clean (map : OrderedMap κ ν) (bound : κ) (keep : ν → Bool) : OrderedMap κ ν :=
  ⟨cleanEntries bound keep map.entries, map.sorted.sublist (cleanEntries_initial bound keep map.entries).sublist⟩

/-- The entries that cleaning takes away. -/
def stale (map : OrderedMap κ ν) (bound : κ) (keep : ν → Bool) : List (κ × ν) :=
  map.entries.drop (cleanEntries bound keep map.entries).length

end OrderedMap

theorem lookup_eq_none (key : κ) (entries : List (κ × ν)) (absent : ∀ entry ∈ entries, entry.1 ≠ key) :
    entries.lookup key = none := by
  induction entries with
  | nil => rfl
  | cons head entries ih =>
    have different : (key == head.1) = false := by
      rw [beq_eq_false_iff_ne]
      exact (absent head List.mem_cons_self).symm
    rw [List.lookup_cons, different]
    exact ih fun entry later => absent entry (List.mem_cons_of_mem _ later)

theorem lookup_cons (key : κ) (entry : κ × ν) (entries : List (κ × ν)) :
    (entry :: entries).lookup key = if key = entry.1 then some entry.2 else entries.lookup key := by
  by_cases same : key = entry.1
  · rw [if_pos same, same]
    exact List.lookup_cons_self
  · have different : (key == entry.1) = false := by rwa [beq_eq_false_iff_ne]
    rw [List.lookup_cons, different, if_neg same]

theorem lookup_iff_mem (key : κ) (value : ν) (entries : List (κ × ν))
    (sorted : entries.Pairwise (fun first second => first.1 < second.1)) :
    entries.lookup key = some value ↔ (key, value) ∈ entries := by
  induction entries with
  | nil => simp
  | cons head entries ih =>
    obtain ⟨above, rest⟩ := List.pairwise_cons.mp sorted
    rw [lookup_cons, List.mem_cons]
    by_cases same : key = head.1
    · rw [if_pos same, Option.some.injEq]
      constructor
      · intro value
        exact Or.inl (Prod.ext same value.symm)
      · intro member
        rcases member with rfl | later
        · rfl
        · exact absurd same.symm (ne_of_lt (above _ later))
    · rw [if_neg same, ih rest]
      constructor
      · exact Or.inr
      · intro member
        rcases member with rfl | later
        · exact absurd rfl same
        · exact later

namespace OrderedMap

@[simp] theorem find?_empty (key : κ) : (empty : OrderedMap κ ν).find? key = none := rfl

theorem find?_emplace (map : OrderedMap κ ν) (key : κ) (value : ν) (other : κ) :
    (map.emplace key value).find? other =
      if other = key then some ((map.find? key).getD value) else map.find? other := by
  obtain ⟨entries, sorted⟩ := map
  simp only [find?, emplace]
  induction entries with
  | nil => rw [insertEntry, lookup_cons]; rfl
  | cons head entries ih =>
    obtain ⟨above, rest⟩ := List.pairwise_cons.mp sorted
    have tail := ih rest
    unfold insertEntry
    split
    · rename_i below
      have absent : (head :: entries).lookup key = none := by
        apply lookup_eq_none
        intro entry member
        rcases List.mem_cons.mp member with rfl | later
        · exact (ne_of_lt below).symm
        · exact (ne_of_lt (lt_trans below (above entry later))).symm
      rw [lookup_cons, absent]
      rfl
    · rename_i notBelow
      split
      · rename_i behind
        rw [lookup_cons, lookup_cons, lookup_cons, tail, if_neg (ne_of_gt behind)]
        by_cases first : other = head.1
        · rw [if_pos first, if_pos first, if_neg (first ▸ ne_of_lt behind)]
        · rw [if_neg first, if_neg first]
      · rename_i notBehind
        have same : head.1 = key := le_antisymm (not_lt.mp notBelow) (not_lt.mp notBehind)
        rw [lookup_cons, lookup_cons, if_pos same.symm]
        by_cases first : other = head.1
        · rw [if_pos first, if_pos (first.trans same)]
          rfl
        · rw [if_neg first, if_neg (fun equal => first (equal.trans same.symm))]

theorem find?_erase (map : OrderedMap κ ν) (key other : κ) :
    (map.erase key).find? other = if other = key then none else map.find? other := by
  obtain ⟨entries, sorted⟩ := map
  apply Option.ext
  intro value
  rw [find?, erase, lookup_iff_mem other value _ (sorted.filter _), List.mem_filter]
  by_cases same : other = key
  · rw [if_pos same]
    simp [same]
  · rw [if_neg same, find?, lookup_iff_mem other value _ sorted]
    simp [same]

theorem find?_assign (map : OrderedMap κ ν) (key : κ) (value : ν) (other : κ) :
    (map.assign key value).find? other = if other = key then some value else map.find? other := by
  rw [assign, find?_emplace, find?_erase, find?_erase, if_pos rfl, Option.getD_none]
  by_cases same : other = key
  · rw [if_pos same, if_pos same]
  · rw [if_neg same, if_neg same, if_neg same]

theorem find?_eq_some (map : OrderedMap κ ν) (key : κ) (value : ν) :
    map.find? key = some value ↔ (key, value) ∈ map.entries := lookup_iff_mem key value _ map.sorted

theorem mem_keys (map : OrderedMap κ ν) (key : κ) : key ∈ map.keys ↔ ∃ value, map.find? key = some value := by
  rw [keys, List.mem_map]
  constructor
  · rintro ⟨entry, member, rfl⟩
    exact ⟨entry.2, (map.find?_eq_some entry.1 entry.2).mpr member⟩
  · rintro ⟨value, found⟩
    exact ⟨(key, value), (map.find?_eq_some key value).mp found, rfl⟩

@[simp] theorem keys_modify (map : OrderedMap κ ν) (key : κ) (change : ν → ν) : (map.modify key change).keys = map.keys := by
  rw [keys, modify, List.map_map]
  rfl

@[simp] theorem keys_mapValues {μ : Type} (map : OrderedMap κ ν) (change : ν → μ) : (map.mapValues change).keys = map.keys := by
  rw [keys, mapValues, List.map_map]
  rfl

theorem find?_mapValues {μ : Type} (map : OrderedMap κ ν) (change : ν → μ) (key : κ) :
    (map.mapValues change).find? key = (map.find? key).map change := by
  obtain ⟨entries, sorted⟩ := map
  simp only [find?, mapValues]
  induction entries with
  | nil => rfl
  | cons head entries ih =>
    rw [List.map_cons, lookup_cons, lookup_cons, ih (List.pairwise_cons.mp sorted).2]
    by_cases same : key = head.1
    · rw [if_pos same, if_pos same]
      rfl
    · rw [if_neg same, if_neg same]

theorem find?_modify (map : OrderedMap κ ν) (key : κ) (change : ν → ν) (other : κ) :
    (map.modify key change).find? other = if other = key then (map.find? other).map change else map.find? other := by
  obtain ⟨entries, sorted⟩ := map
  simp only [find?, modify]
  induction entries with
  | nil => exact (ite_self _).symm
  | cons head entries ih =>
    rw [List.map_cons, lookup_cons, lookup_cons, ih (List.pairwise_cons.mp sorted).2]
    by_cases same : other = head.1
    · rw [if_pos same, if_pos same, same]
      exact (apply_ite some _ _ _)
    · rw [if_neg same, if_neg same]

/-- A key above all others comes last. -/
theorem entries_emplace_last {map : OrderedMap κ ν} {key : κ} (value : ν) (above : ∀ other ∈ map.keys, other < key) :
    (map.emplace key value).entries = map.entries ++ [(key, value)] := by
  obtain ⟨entries, sorted⟩ := map
  simp only [emplace, keys] at above ⊢
  induction entries with
  | nil => rfl
  | cons head entries ih =>
    have first : head.1 < key := above head.1 (List.mem_map.mpr ⟨head, List.mem_cons_self, rfl⟩)
    unfold insertEntry
    rw [if_neg (lt_asymm first), if_pos first, ih (List.pairwise_cons.mp sorted).2 fun other member => above other (List.mem_cons_of_mem _ member)]
    rfl

theorem find?_keepUpTo (map : OrderedMap κ ν) (bound key : κ) :
    (map.keepUpTo bound).find? key = if key ≤ bound then map.find? key else none := by
  obtain ⟨entries, sorted⟩ := map
  simp only [find?, keepUpTo]
  apply Option.ext
  intro value
  rw [lookup_iff_mem key value _ (sorted.filter _), List.mem_filter]
  by_cases inside : key ≤ bound
  · rw [if_pos inside, lookup_iff_mem key value _ sorted]
    simp [inside]
  · rw [if_neg inside]
    simp [inside]

theorem find?_keepAbove (map : OrderedMap κ ν) (bound key : κ) :
    (map.keepAbove bound).find? key = if bound < key then map.find? key else none := by
  obtain ⟨entries, sorted⟩ := map
  simp only [find?, keepAbove]
  apply Option.ext
  intro value
  rw [lookup_iff_mem key value _ (sorted.filter _), List.mem_filter]
  by_cases above : bound < key
  · rw [if_pos above, lookup_iff_mem key value _ sorted]
    simp [above]
  · rw [if_neg above]
    simp [above]

theorem find?_eraseAll (keys : List κ) (key : κ) : ∀ map : OrderedMap κ ν,
    (map.eraseAll keys).find? key = if key ∈ keys then none else map.find? key := by
  induction keys with
  | nil => exact fun _ => (if_neg List.not_mem_nil).symm
  | cons head keys ih =>
    intro map
    show ((map.erase head).eraseAll keys).find? key = _
    rw [ih, find?_erase]
    by_cases same : key = head
    · simp [same]
    · simp [same]

theorem first?_eq_some {map : OrderedMap κ ν} {key : κ} {value : ν} (first : map.first? = some (key, value)) :
    map.find? key = some value ∧ ∀ other, map.find? other ≠ none → key ≤ other := by
  obtain ⟨entries, sorted⟩ := map
  obtain ⟨rest, rfl⟩ := List.head?_eq_some_iff.mp first
  refine ⟨(lookup_iff_mem key value _ sorted).mpr List.mem_cons_self, fun other present => ?_⟩
  obtain ⟨found, look⟩ := Option.ne_none_iff_exists'.mp present
  rcases List.mem_cons.mp ((lookup_iff_mem other found _ sorted).mp look) with same | later
  · exact le_of_eq (congrArg Prod.fst same).symm
  · exact le_of_lt ((List.pairwise_cons.mp sorted).1 (other, found) later)

theorem entries_erase_first {map : OrderedMap κ ν} {entry : κ × ν} {rest : List (κ × ν)} (whole : map.entries = entry :: rest) :
    (map.erase entry.1).entries = rest := by
  obtain ⟨entries, sorted⟩ := map
  cases whole
  have above := (List.pairwise_cons.mp sorted).1
  show (entry :: rest).filter (fun other => other.1 ≠ entry.1) = rest
  rw [List.filter_cons_of_neg (by simp)]
  exact List.filter_eq_self.mpr fun other member => decide_eq_true (above other member).ne'

/-- Where only the entry at the bound itself is kept, cleaning keeps the entries up to there. -/
theorem find?_clean (map : OrderedMap κ ν) (bound : κ) (keep : ν → Bool)
    (at_bound : ∀ key value, map.find? key = some value → bound ≤ key → (keep value = true ↔ key = bound)) (key : κ) :
    (map.clean bound keep).find? key = if key ≤ bound then map.find? key else none := by
  obtain ⟨entries, sorted⟩ := map
  simp only [find?, clean] at at_bound ⊢
  induction entries with
  | nil => exact (ite_self _).symm
  | cons head entries ih =>
    obtain ⟨above, rest⟩ := List.pairwise_cons.mp sorted
    have tail := ih rest fun key value found => at_bound key value (by
      have later := (lookup_iff_mem key value entries rest).mp found
      exact (lookup_iff_mem key value _ sorted).mpr (List.mem_cons_of_mem head later))
    have here := at_bound head.1 head.2 (by rw [lookup_cons, if_pos rfl])
    unfold cleanEntries
    split
    · next below =>
      rw [lookup_cons, lookup_cons, tail]
      by_cases same : key = head.1
      · rw [if_pos same, if_pos same, if_pos (same ▸ below.le)]
      · rw [if_neg same, if_neg same]
    · next reached =>
      have later (inside : key ≤ bound) : entries.lookup key = none :=
        lookup_eq_none key entries fun entry member => (lt_of_le_of_lt (inside.trans (not_lt.mp reached)) (above entry member)).ne'
      split
      · next kept =>
        have level : head.1 = bound := (here (not_lt.mp reached)).mp kept
        rw [lookup_cons, lookup_cons]
        by_cases same : key = head.1
        · rw [if_pos same, if_pos same, if_pos (same.trans level).le]
        · rw [if_neg same, if_neg same]
          split
          · next inside => exact (later inside).symm
          · rfl
      · next dropped =>
        have beyond : bound < head.1 :=
          lt_of_le_of_ne (not_lt.mp reached) fun same => dropped ((here (not_lt.mp reached)).mpr same.symm)
        split
        · next inside =>
          rw [lookup_cons, if_neg (lt_of_le_of_lt inside beyond).ne, later inside]
          rfl
        · rfl

theorem last?_eq_none (map : OrderedMap κ ν) : map.last? = none ↔ ∀ key, map.find? key = none := by
  obtain ⟨entries, sorted⟩ := map
  rw [last?, List.getLast?_eq_none_iff]
  constructor
  · intro empty key
    rw [find?, empty]
    rfl
  · intro none
    cases entries with
    | nil => rfl
    | cons head entries =>
      have found := none head.1
      rw [find?, lookup_cons, if_pos rfl] at found
      cases found

theorem findLast?_greatest {map : OrderedMap κ ν} {keep : κ → ν → Bool} {entry : κ × ν} (found : map.findLast? keep = some entry) :
    IsGreatest {key | ∃ value, map.find? key = some value ∧ keep key value = true} entry.1 := by
  obtain ⟨kept, later, earlier, split, skipped⟩ := List.find?_eq_some_iff_append.mp found
  have falling : map.entries.reverse.Pairwise (fun first second => second.1 < first.1) := List.pairwise_reverse.mpr map.sorted
  rw [split] at falling
  have member : ∀ other, other ∈ later ++ entry :: earlier ↔ map.find? other.1 = some other.2 := by
    intro other
    rw [← split, List.mem_reverse, find?_eq_some]
  constructor
  · exact ⟨entry.2, (member entry).mp (List.mem_append_right _ List.mem_cons_self), kept⟩
  · rintro key ⟨value, present, keeps⟩
    rcases List.mem_append.mp ((member (key, value)).mpr present) with skip | rest
    · have dropped := skipped _ skip
      rw [keeps] at dropped
      cases dropped
    · rcases List.mem_cons.mp rest with same | below
      · exact le_of_eq (congrArg Prod.fst same)
      · exact le_of_lt ((List.pairwise_cons.mp (List.pairwise_append.mp falling).2.1).1 _ below)

theorem findLast?_isSome {map : OrderedMap κ ν} {keep : κ → ν → Bool} {key : κ} {value : ν} (present : map.find? key = some value)
    (keeps : keep key value = true) : ∃ entry, map.findLast? keep = some entry := by
  apply Option.isSome_iff_exists.mp
  apply List.find?_isSome.mpr
  exact ⟨(key, value), List.mem_reverse.mpr ((map.find?_eq_some key value).mp present), keeps⟩

theorem isEmpty_iff (map : OrderedMap κ ν) : map.isEmpty = true ↔ ∀ key, map.find? key = none := by
  rw [← last?_eq_none, isEmpty, List.isEmpty_iff, last?, List.getLast?_eq_none_iff]

/-- The last entry is the one with the greatest key. -/
theorem last?_eq_some (map : OrderedMap κ ν) (key : κ) (value : ν) :
    map.last? = some (key, value) ↔
      map.find? key = some value ∧ ∀ other, map.find? other ≠ none → other ≤ key := by
  obtain ⟨entries, sorted⟩ := map
  simp only [last?, find?]
  constructor
  · intro last
    obtain ⟨front, split⟩ := List.getLast?_eq_some_iff.mp last
    subst split
    obtain ⟨_, _, before⟩ := List.pairwise_append.mp sorted
    constructor
    · rw [lookup_iff_mem _ _ _ sorted]
      exact List.mem_append_right _ List.mem_cons_self
    · intro other present
      obtain ⟨found, look⟩ := Option.ne_none_iff_exists'.mp present
      rw [lookup_iff_mem _ _ _ sorted] at look
      rcases List.mem_append.mp look with inFront | atEnd
      · exact le_of_lt (before _ inFront (key, value) List.mem_cons_self)
      · exact le_of_eq (congrArg Prod.fst (List.mem_singleton.mp atEnd))
  · intro ⟨found, greatest⟩
    have member := (lookup_iff_mem _ _ _ sorted).mp found
    cases last : entries.getLast? with
    | none =>
      rw [List.getLast?_eq_none_iff.mp last] at member
      cases member
    | some entry =>
      obtain ⟨front, split⟩ := List.getLast?_eq_some_iff.mp last
      subst split
      obtain ⟨_, _, before⟩ := List.pairwise_append.mp sorted
      rcases List.mem_append.mp member with inFront | atEnd
      · exfalso
        have present : (front ++ [entry]).lookup entry.1 ≠ none := by
          rw [(lookup_iff_mem entry.1 entry.2 _ sorted).mpr (List.mem_append_right _ List.mem_cons_self)]
          exact Option.some_ne_none _
        exact absurd (greatest entry.1 present) (not_le.mpr (before _ inFront entry List.mem_cons_self))
      · rw [List.mem_singleton.mp atEnd]

end OrderedMap

end Opentxs.Library.Ordered
