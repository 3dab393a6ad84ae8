import Opentxs.Cfilter.Gcs

/-! The queries over several targets, by their bytes or by their siphashes. Each builds
its own list of values and walks it along the decompressed set. -/

namespace Opentxs.Cfilter.Gcs
open Library Library.Endian Library.PartialMap Blockchain Bitcoin.BitcoinScript Bitcoin.Matches Golomb

def GCS.testElements (filter : GCS) (targets : List Element) : Option Bool := do
  let set ← filter.decompress
  some (SortedList.setIntersection targets set ≠ [])

def GCS.hashedSetConstructHashes (filter : GCS) (targets : List UInt64) : List Element :=
  targets.map (hashToRange filter.range)

def GCS.testHashes (filter : GCS) (targets : List UInt64) : Option Bool :=
  filter.testElements (filter.hashedSetConstructHashes targets)

def GCS.matchHashes (filter : GCS) (prehashed : List UInt64) : Option (List Nat) := do
  let hashed := prehashed.map (hashToRange filter.range)
  let set ← filter.decompress
  let found := SortedList.setIntersection (SortedList.dedup hashed) set
  some (found.flatMap (positions hashed))

/-- A hash is found where its value is in the set. -/
theorem mem_matchHashes {filter : GCS} {hashes : List UInt64} {set : List Element} (decompressed : filter.decompress = some set)
    (sorted : set.Pairwise (· ≤ ·)) : ∃ found, filter.matchHashes hashes = some found ∧
      ∀ position, position ∈ found ↔ ∃ hash, hashes[position]? = some hash ∧ hashToRange filter.range hash ∈ set := by
  refine ⟨_, by unfold GCS.matchHashes; rw [decompressed]; rfl, fun position => ?_⟩
  have ascending : (SortedList.dedup (hashes.map (hashToRange filter.range))).Pairwise (· ≤ ·) :=
    (SortedList.dedup_sorted _).imp le_of_lt
  rw [List.mem_flatMap]
  constructor
  · rintro ⟨value, member, among⟩
    have inside := (SortedList.setIntersection_subset _ _ _ member).2
    obtain ⟨⟨other, index⟩, found, rfl⟩ := List.mem_map.mp among
    obtain ⟨there, same⟩ := List.mem_filter.mp found
    obtain rfl : other = value := of_decide_eq_true same
    have here := List.mk_mem_zipIdx_iff_getElem?.mp there
    rw [List.getElem?_map] at here
    obtain ⟨hash, present, rfl⟩ := Option.map_eq_some_iff.mp here
    exact ⟨hash, present, inside⟩
  · rintro ⟨hash, present, inside⟩
    have mapped : (hashes.map (hashToRange filter.range))[position]? = some (hashToRange filter.range hash) := by
      rw [List.getElem?_map, present]
      rfl
    refine ⟨hashToRange filter.range hash, ?_, ?_⟩
    · rw [SortedList.mem_setIntersection _ _ ascending sorted, SortedList.mem_dedup]
      exact ⟨List.mem_of_getElem? mapped, inside⟩
    · refine List.mem_map.mpr ⟨(hashToRange filter.range hash, position), List.mem_filter.mpr ⟨?_, ?_⟩, rfl⟩
      · exact List.mk_mem_zipIdx_iff_getElem?.mpr mapped
      · exact decide_eq_true rfl

section Keyed

variable (hmac : Key → Bytes → Option UInt64)

def GCS.testTargets (filter : GCS) (targets : List Bytes) : Option Bool := do
  let hashed ← hashedSetConstruct hmac filter.key.val filter.count filter.falsePositiveRate targets
  filter.testElements hashed

/-- Made by one of the five factories. -/
inductive Produced : GCS → Prop
  | elements (bits : UInt8) (fpRate : UInt32) (key : Bytes) (elements : List Bytes) (filter : GCS)
      (built : gcs hmac bits fpRate key elements = some filter) : Produced filter
  | block (type : FilterType) (block : Block) (filter : GCS)
      (built : gcsBlock hmac type block = some filter) : Produced filter
  | compressed (bits : UInt8) (fpRate : UInt32) (key : Bytes) (count : UInt32) (bytes : Bytes) (filter : GCS)
      (built : gcsCompressed bits fpRate key count bytes = some filter) : Produced filter
  | proto (proto : Proto) (filter : GCS) (built : gcsProto proto = some filter) : Produced filter
  | encoded (type : FilterType) (key encoded : Bytes) (filter : GCS)
      (built : gcsEncoded type key encoded = some filter) : Produced filter

/-- Elements that a filter holds are sorted. -/
def GCS.Sorted (filter : GCS) : Prop := ∀ elements, filter.elements = some elements → elements.Pairwise (· ≤ ·)

theorem sorted_of_none {filter : GCS} (lazily : filter.elements = none) : filter.Sorted := by
  intro elements held
  rw [lazily] at held
  cases held

theorem sorted_of_hashed {filter : GCS} {key : Bytes} {N M : UInt32} {items : List Bytes} {hashed : List Element}
    (built : hashedSetConstruct hmac key N M items = some hashed) (held : filter.elements = some hashed) :
    filter.Sorted := by
  intro elements same
  rw [held] at same
  cases same
  exact (hashedSetConstruct_spec hmac key N M items hashed built).2.1

theorem produced_sorted (filter : GCS) (produced : Produced hmac filter) : filter.Sorted := by
  cases produced with
  | elements bits fpRate key elements filter built =>
    simp only [gcs, Option.bind_eq_bind, Option.bind_eq_some_iff] at built
    obtain ⟨count, _, hashed, constructed, compressed, _, final⟩ := built
    exact sorted_of_hashed hmac constructed (construct_spec _ _ _ _ _ _ filter final).2.2.2.2.2
  | block type block filter built =>
    rw [gcsBlock] at built
    split at built
    · cases built
    · simp only [Option.bind_eq_bind, Option.bind_eq_some_iff] at built
      obtain ⟨_, _, count, _, key, _, hashed, constructed, compressed, _, final⟩ := built
      exact sorted_of_hashed hmac constructed (construct_spec _ _ _ _ _ _ filter final).2.2.2.2.2
  | compressed bits fpRate key count bytes filter built =>
    exact sorted_of_none (construct_spec _ _ _ _ _ _ filter built).2.2.2.2.2
  | proto proto filter built => exact sorted_of_none (construct_spec _ _ _ _ _ _ filter built).2.2.2.2.2
  | encoded type key encoded filter built =>
    simp only [gcsEncoded, Option.bind_eq_bind, Option.bind_eq_some_iff] at built
    obtain ⟨_, _, _, _, final⟩ := built
    exact sorted_of_none (construct_spec _ _ _ _ _ _ filter final).2.2.2.2.2

theorem decompress_sorted {filter : GCS} (sorted : filter.Sorted) {set : List Element}
    (decompressed : filter.decompress = some set) : set.Pairwise (· ≤ ·) := by
  rw [GCS.decompress] at decompressed
  split at decompressed
  · next held =>
    cases decompressed
    exact sorted set held
  · obtain ⟨decoded, _, rfl⟩ := Option.map_eq_some_iff.mp decompressed
    exact SortedList.sort_sorted decoded

/-! ## Each query by what it looks for -/

theorem found_ne_nil_iff (hashed set : List Element) (sorted : set.Pairwise (· ≤ ·)) :
    (SortedList.setIntersection (SortedList.dedup hashed) set).flatMap (positions hashed) ≠ [] ↔
      ∃ hash ∈ hashed, hash ∈ set := by
  have ordered := (SortedList.dedup_sorted hashed).imp (fun below => le_of_lt below)
  have common := SortedList.mem_setIntersection (SortedList.dedup hashed) set ordered sorted
  constructor
  · intro found
    obtain ⟨index, listed⟩ := List.exists_mem_of_ne_nil _ found
    obtain ⟨hash, member, _⟩ := List.mem_flatMap.mp listed
    obtain ⟨left, right⟩ := (common hash).mp member
    exact ⟨hash, (SortedList.mem_dedup hash hashed).mp left, right⟩
  · rintro ⟨hash, left, right⟩
    have member := (common hash).mpr ⟨(SortedList.mem_dedup hash hashed).mpr left, right⟩
    obtain ⟨index, bound, rfl⟩ := List.mem_iff_getElem.mp left
    have entry : (hashed[index], index) ∈ hashed.zipIdx := by
      rw [List.mem_zipIdx_iff_getElem?]
      exact List.getElem?_eq_getElem bound
    have position : index ∈ positions hashed hashed[index] :=
      List.mem_map.mpr ⟨_, List.mem_filter.mpr ⟨entry, by simp⟩, rfl⟩
    exact List.ne_nil_of_mem (List.mem_flatMap.mpr ⟨_, member, position⟩)

theorem sorted_ne_nil_iff (hashed set : List Element) (sorted : set.Pairwise (· ≤ ·)) :
    SortedList.setIntersection (SortedList.sort hashed) set ≠ [] ↔ ∃ hash ∈ hashed, hash ∈ set := by
  have common := SortedList.mem_setIntersection (SortedList.sort hashed) set (SortedList.sort_sorted hashed) sorted
  constructor
  · intro found
    obtain ⟨hash, member⟩ := List.exists_mem_of_ne_nil _ found
    obtain ⟨left, right⟩ := (common hash).mp member
    exact ⟨hash, (SortedList.mem_sort hash hashed).mp left, right⟩
  · rintro ⟨hash, left, right⟩
    exact List.ne_nil_of_mem ((common hash).mpr ⟨(SortedList.mem_sort hash hashed).mpr left, right⟩)

/-- Both queries over byte targets look for a common value. -/
theorem testTargets_eq (filter : GCS) (sorted : filter.Sorted) (targets : List Bytes) :
    filter.testTargets hmac targets = (filter.matchTargets hmac targets).map (fun found => decide (found ≠ [])) := by
  rw [GCS.testTargets, GCS.matchTargets, hashedSetConstruct, GCS.range]
  cases targets.mapM (hashItem hmac filter.key.val (range filter.count filter.falsePositiveRate)) with
  | none => rfl
  | some hashed =>
    cases decompressed : filter.decompress with
    | none => simp [GCS.testElements, decompressed]
    | some set =>
      have ordered := decompress_sorted sorted decompressed
      have same := (sorted_ne_nil_iff hashed set ordered).trans (found_ne_nil_iff hashed set ordered).symm
      simpa [GCS.testElements, decompressed] using not_iff_not.mp (by simpa using same)

theorem testTargets_iff (filter : GCS) (sorted : filter.Sorted) (targets : List Bytes) (answer : Bool)
    (tested : filter.testTargets hmac targets = some answer) :
    answer = true ↔ ∃ target ∈ targets, filter.test hmac target = some true := by
  simp only [GCS.testTargets, hashedSetConstruct, GCS.testElements, Option.bind_eq_bind, Option.bind_eq_some_iff,
    Option.some.injEq] at tested
  obtain ⟨_, ⟨hashed, run, rfl⟩, set, decompressed, rfl⟩ := tested
  have ordered := decompress_sorted sorted decompressed
  have single (target : Bytes) : filter.test hmac target = some true ↔
      ∃ hash, hashItem hmac filter.key.val filter.range target = some hash ∧ hash ∈ set := by
    simp only [GCS.test, decompressed, Option.bind_eq_bind, Option.bind_some, Option.bind_eq_some_iff,
      Option.some.injEq, testScan_iff _ set ordered]
  rw [decide_eq_true_eq, sorted_ne_nil_iff hashed set ordered]
  simp only [single]
  have members := mem_mapM _ targets hashed run
  constructor
  · rintro ⟨hash, listed, present⟩
    obtain ⟨target, used, hashes⟩ := (members hash).mp listed
    exact ⟨target, used, hash, hashes, present⟩
  · rintro ⟨target, used, hash, hashes, present⟩
    exact ⟨hash, (members hash).mpr ⟨target, used, hashes⟩, present⟩

/-! ## Agreement -/

structure QueriesAgree (filter : GCS) (targets : List Bytes) (prehashed : List UInt64) : Prop where
  single : ∀ answer, filter.testTargets hmac targets = some answer →
    (answer = true ↔ ∃ target ∈ targets, filter.test hmac target = some true)
  matched : filter.testTargets hmac targets = (filter.matchTargets hmac targets).map (fun found => decide (found ≠ []))
  hashes : filter.testHashes prehashed = (filter.matchHashes prehashed).map (fun found => decide (found ≠ []))

end Keyed

/-- A value that the set contains comes before every larger value, if the set contains any. -/
def FoundInOrder (values set : List Element) : Prop :=
  (∀ value ∈ values, value ∉ set) ∨
    ∃ before value after, values = before ++ value :: after ∧ value ∈ set ∧ ∀ earlier ∈ before, earlier ≤ value

theorem testHashes_eq_iff (filter : GCS) (sorted : filter.Sorted) (prehashed : List UInt64) :
    filter.testHashes prehashed = (filter.matchHashes prehashed).map (fun found => decide (found ≠ [])) ↔
      ∀ set, filter.decompress = some set → FoundInOrder (filter.hashedSetConstructHashes prehashed) set := by
  cases decompressed : filter.decompress with
  | none => simp [GCS.testHashes, GCS.matchHashes, GCS.testElements, decompressed]
  | some set =>
    have ordered := decompress_sorted sorted decompressed
    have found := found_ne_nil_iff (filter.hashedSetConstructHashes prehashed) set ordered
    have tested := SortedList.setIntersection_ne_nil_iff (filter.hashedSetConstructHashes prehashed) set ordered
    simp only [GCS.testHashes, GCS.matchHashes, GCS.testElements, decompressed, Option.bind_eq_bind,
      Option.bind_some, Option.map_some, Option.some.injEq, decide_eq_decide, forall_eq', FoundInOrder]
    rw [GCS.hashedSetConstructHashes] at found tested ⊢
    rw [found, tested]
    constructor
    · intro same
      by_cases common : ∃ hash ∈ filter.hashedSetConstructHashes prehashed, hash ∈ set
      · exact .inr (same.mpr common)
      · exact .inl fun value listed present => common ⟨value, listed, present⟩
    · rintro (none | early)
      · constructor
        · rintro ⟨before, value, after, split, present, _⟩
          exact absurd present (none value (by simp [split]))
        · rintro ⟨value, listed, present⟩
          exact absurd present (none value listed)
      · obtain ⟨before, value, after, split, present, _⟩ := id early
        exact iff_of_true early ⟨value, by simp [split], present⟩

/-- All queries agree exactly when the siphashes come in an order in which the walk over
them misses nothing. -/
theorem queries_agree_iff (hmac : Key → Bytes → Option UInt64) (filter : GCS) (targets : List Bytes)
    (prehashed : List UInt64) (produced : Produced hmac filter) :
    QueriesAgree hmac filter targets prehashed ↔
      ∀ set, filter.decompress = some set → FoundInOrder (filter.hashedSetConstructHashes prehashed) set := by
  have sorted := produced_sorted hmac filter produced
  have hashes := testHashes_eq_iff filter sorted prehashed
  constructor
  · exact fun agree => hashes.mp agree.hashes
  · intro early
    exact ⟨testTargets_iff hmac filter sorted targets, testTargets_eq hmac filter sorted targets, hashes.mpr early⟩

theorem queries_agree_increasing :
    QueriesAgree zeroKeyHashes (zeroKeyFilter [144, 113, 107, 126, 169, 0] (some [658989, 1117055]))
      [[0, 0, 0, 2], [0, 0, 0, 1]] [7743489813434578935, 13126023682334609956] :=
  (queries_agree_iff zeroKeyHashes _ _ _
    (Produced.elements 19 784931 (List.replicate 16 0) [[0, 0, 0, 1], [0, 0, 0, 2]] _ (by decide))).mpr (by
      intro set decompressed
      cases decompressed
      exact .inr ⟨[], 658989, [1117055], by decide, by decide, List.forall_mem_nil _⟩)

/-- The larger siphash moves the walk past the value that the second one maps to. -/
theorem prehashed_order_missed :
    ¬∀ (hmac : Key → Bytes → Option UInt64) (filter : GCS) (targets : List Bytes) (prehashed : List UInt64),
      Produced hmac filter → QueriesAgree hmac filter targets prehashed := by
  intro always
  have produced : Produced zeroKeyHashes (zeroKeyFilter [144, 113, 107, 126, 169, 0] (some [658989, 1117055])) :=
    Produced.elements 19 784931 (List.replicate 16 0) [[0, 0, 0, 1], [0, 0, 0, 2]] _ (by decide)
  have agree := always zeroKeyHashes _ [] [18446744073709551615, 7743489813434578935] produced
  exact absurd agree.hashes (by decide)

end Opentxs.Cfilter.Gcs
