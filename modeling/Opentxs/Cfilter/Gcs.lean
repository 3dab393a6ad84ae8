import Opentxs.Blockchain.CompactSize
import Opentxs.Bitcoin.Matches
import Opentxs.Cfilter.Golomb

/-! Compact filters: built from elements, serialized, rebuilt from the bytes and queried.
The keyed hash is a parameter, `none` where it fails. -/

namespace Opentxs.Cfilter.Gcs
open Library Library.Endian Library.PartialMap Blockchain Bitcoin.BitcoinScript Bitcoin.Matches Golomb

abbrev Key := FixedBytes 16

def range (N M : UInt32) : UInt64 := N.toUInt64 * M.toUInt64

def hashToRange (range hash : UInt64) : Element := UInt64.ofNat ((hash.toNat * range.toNat) >>> 64)

/-- The exception of a value that needs more than 32 bits is `none`. -/
def shorten (size : Nat) : Option UInt32 := if size < 2 ^ 32 then some (UInt32.ofNat size) else none

def getFilterParams : FilterType → Option (UInt8 × UInt32)
  | .basicBip158 => some (19, 784931)
  | .basicBchVariant => some (19, 784931)
  | .es => some (23, 12558895)
  | .unknownCfilter => none

def blockHashToFilterKey (hash : Bytes) : Option Bytes :=
  if hash.length < 16 then none else some (hash.take 16)

def decodeCfilterElementCount (view : Bytes) : Option (UInt32 × Bytes) :=
  match CompactSize.decodeCompactSize view with
  | (some count, rest) => (shorten count).map (·, rest)
  | (none, _) => none

structure GCS where
  version : UInt32
  bits : UInt8
  falsePositiveRate : UInt32
  count : UInt32
  key : Key
  compressed : Bytes
  elements : Option (List Element)
  deriving DecidableEq

/-- The message of the protobuf serialization. -/
structure Proto where
  version : UInt32
  bits : UInt32
  fprate : UInt32
  key : Bytes
  count : UInt32
  filter : Bytes

/-- The constructor throws for a key that is not 16 bytes long. -/
def construct (bits : UInt8) (fpRate count : UInt32) (key : Bytes) (elements : Option (List Element))
    (compressed : Bytes) : Option GCS :=
  if size : key.length = 16 then
    some { version := 1, bits, falsePositiveRate := fpRate, count, key := ⟨key, size⟩, compressed, elements }
  else none

section Keyed

variable (hmac : Key → Bytes → Option UInt64)

def siphash (key item : Bytes) : Option UInt64 :=
  if size : key.length = 16 then hmac ⟨key, size⟩ item else none

def hashItem (key : Bytes) (range : UInt64) (item : Bytes) : Option Element :=
  (siphash hmac key item).map (hashToRange range)

def hashedSetConstruct (key : Bytes) (N M : UInt32) (items : List Bytes) : Option (List Element) := do
  let output ← items.mapM (hashItem hmac key (range N M))
  some (SortedList.sort output)

/-! ## The factories -/

def effective (elements : List Bytes) : List Bytes := SortedList.dedup (elements.filter (· ≠ []))

def gcs (bits : UInt8) (fpRate : UInt32) (key : Bytes) (elements : List Bytes) : Option GCS := do
  let count ← shorten (effective elements).length
  let hashed ← hashedSetConstruct hmac key count fpRate (effective elements)
  let compressed ← golombEncode bits.toNat hashed
  construct bits fpRate count key (some hashed) compressed

def gcsBlock (type : FilterType) (block : Block) : Option GCS :=
  if type = .basicBip158 then none
  else do
    let (bits, fpRate) ← getFilterParams type
    let elements := block.extractElements type
    let count ← shorten elements.length
    let key ← blockHashToFilterKey block.id.val
    let hashed ← hashedSetConstruct hmac key count fpRate elements
    let compressed ← golombEncode bits.toNat hashed
    construct bits fpRate count key (some hashed) compressed

def gcsCompressed (bits : UInt8) (fpRate : UInt32) (key : Bytes) (filterElementCount : UInt32)
    (filter : Bytes) : Option GCS :=
  construct bits fpRate filterElementCount key none filter

def gcsProto (proto : Proto) : Option GCS :=
  construct proto.bits.toUInt8 proto.fprate proto.count proto.key none proto.filter

def gcsEncoded (type : FilterType) (key encoded : Bytes) : Option GCS := do
  let (bits, fpRate) ← getFilterParams type
  let (elementCount, encoded) ← decodeCfilterElementCount encoded
  construct bits fpRate elementCount key none encoded

/-! ## Queries and serialization -/

def GCS.encode (filter : GCS) : Bytes := CompactSize.encode filter.count.toNat ++ filter.compressed

def GCS.serialize (filter : GCS) : Proto where
  version := filter.version
  bits := filter.bits.toUInt32
  fprate := filter.falsePositiveRate
  key := filter.key.val
  count := filter.count
  filter := filter.compressed

def GCS.range (filter : GCS) : UInt64 := Gcs.range filter.count filter.falsePositiveRate

def GCS.decompress (filter : GCS) : Option (List Element) :=
  match filter.elements with
  | some elements => some elements
  | none => (golombDecode filter.count filter.bits.toNat filter.compressed).map SortedList.sort

def testScan (hash : Element) : List Element → Bool
  | [] => false
  | element :: elements =>
    if element = hash then true else if element > hash then false else testScan hash elements

def GCS.test (filter : GCS) (target : Bytes) : Option Bool := do
  let hash ← hashItem hmac filter.key.val filter.range target
  let set ← filter.decompress
  some (testScan hash set)

/-- Where in the targets a hash came from: the entries of the map from hash to targets. -/
def positions (hashed : List Element) (hash : Element) : List Nat :=
  (hashed.zipIdx.filter (·.1 = hash)).map Prod.snd

def GCS.matchTargets (filter : GCS) (targets : List Bytes) : Option (List Nat) := do
  let hashed ← targets.mapM (hashItem hmac filter.key.val filter.range)
  let set ← filter.decompress
  let found := SortedList.setIntersection (SortedList.dedup hashed) set
  some (found.flatMap (positions hashed))

/-! ## Hashing to the range -/

theorem range_toNat (N M : UInt32) : (range N M).toNat = N.toNat * M.toNat := by
  have bound : N.toNat * M.toNat < 2 ^ 64 := by
    calc N.toNat * M.toNat < 2 ^ 32 * 2 ^ 32 := Nat.mul_lt_mul'' N.toNat_lt M.toNat_lt
      _ = 2 ^ 64 := by norm_num
  rw [range, UInt64.toNat_mul, UInt32.toNat_toUInt64, UInt32.toNat_toUInt64, Nat.mod_eq_of_lt bound]

theorem hashToRange_eq_zero_iff (range hash : UInt64) :
    hashToRange range hash = 0 ↔ hash.toNat * range.toNat < 2 ^ 64 := by
  have bound : hash.toNat * range.toNat / 2 ^ 64 < 2 ^ 64 := by
    rw [Nat.div_lt_iff_lt_mul (by norm_num)]
    exact Nat.mul_lt_mul'' hash.toNat_lt range.toNat_lt
  rw [hashToRange, Nat.shiftRight_eq_div_pow, ← UInt64.toNat_inj, UInt64.toNat_ofNat',
    Nat.mod_eq_of_lt bound]
  change _ = 0 ↔ _
  rw [Nat.div_eq_zero_iff]
  norm_num

theorem hashedSetConstruct_spec (key : Bytes) (N M : UInt32) (items : List Bytes) (hashed : List Element)
    (built : hashedSetConstruct hmac key N M items = some hashed) :
    hashed.length = items.length ∧ hashed.Pairwise (· ≤ ·) ∧
      (∀ item ∈ items, ∃ hash ∈ hashed, hashItem hmac key (range N M) item = some hash) ∧
      ∀ hash ∈ hashed, ∃ item ∈ items, hashItem hmac key (range N M) item = some hash := by
  simp only [hashedSetConstruct, Option.bind_eq_bind, Option.bind_eq_some_iff, Option.some.injEq] at built
  obtain ⟨output, run, rfl⟩ := built
  have members := mem_mapM _ items output run
  refine ⟨by rw [SortedList.sort_length, mapM_length _ items output run], SortedList.sort_sorted output, ?_, ?_⟩
  · intro item member
    obtain ⟨index, bound, rfl⟩ := List.mem_iff_getElem.mp member
    have same := mapM_getElem? _ items output run index _ (List.getElem?_eq_getElem bound)
    have inside : index < output.length := by rwa [mapM_length _ items output run]
    rw [List.getElem?_eq_getElem inside] at same
    exact ⟨_, (SortedList.mem_sort _ _).mpr (List.getElem_mem inside), same⟩
  · intro hash member
    exact (members hash).mp ((SortedList.mem_sort _ _).mp member)

/-! ## Serialized and rebuilt -/

/-- Built by a factory from elements, of which `targets` are the ones used. -/
inductive Built : GCS → (targets : List Bytes) → Prop
  | elements (bits : UInt8) (fpRate : UInt32) (key : Bytes) (elements : List Bytes) (filter : GCS)
      (built : gcs hmac bits fpRate key elements = some filter) : Built filter (effective elements)
  | block (type : FilterType) (block : Block) (filter : GCS)
      (built : gcsBlock hmac type block = some filter) : Built filter (block.extractElements type)

/-- Serialized in one of the three forms and constructed again from it. -/
inductive Restored (filter : GCS) : GCS → Prop
  | compressed (copy : GCS)
      (rebuilt : gcsCompressed filter.bits filter.falsePositiveRate filter.key.val filter.count
        filter.compressed = some copy) : Restored filter copy
  | proto (copy : GCS) (rebuilt : gcsProto filter.serialize = some copy) : Restored filter copy
  | encoded (type : FilterType) (copy : GCS)
      (params : getFilterParams type = some (filter.bits, filter.falsePositiveRate))
      (rebuilt : gcsEncoded type filter.key.val filter.encode = some copy) : Restored filter copy

theorem construct_spec (bits : UInt8) (fpRate count : UInt32) (key : Bytes) (elements : Option (List Element))
    (compressed : Bytes) (filter : GCS) (built : construct bits fpRate count key elements compressed = some filter) :
    filter.bits = bits ∧ filter.falsePositiveRate = fpRate ∧ filter.count = count ∧ filter.key.val = key ∧
      filter.compressed = compressed ∧ filter.elements = elements := by
  rw [construct] at built
  split at built
  · cases built
    exact ⟨rfl, rfl, rfl, rfl, rfl, rfl⟩
  · cases built

theorem shorten_spec (size : Nat) (count : UInt32) (short : shorten size = some count) : count.toNat = size := by
  rw [shorten] at short
  split at short
  · rename_i bound
    cases short
    rw [UInt32.toNat_ofNat', Nat.mod_eq_of_lt bound]
  · cases short

theorem shorten_toNat (count : UInt32) : shorten count.toNat = some count := by
  rw [shorten, if_pos count.toNat_lt, UInt32.ofNat_toNat]

/-- What both factories leave in a filter. -/
theorem built_spec (filter : GCS) (targets : List Bytes) (built : Built hmac filter targets) :
    filter.count.toNat = targets.length ∧ ∃ hashed,
      hashedSetConstruct hmac filter.key.val filter.count filter.falsePositiveRate targets = some hashed ∧
      golombEncode filter.bits.toNat hashed = some filter.compressed := by
  cases built with
  | elements bits fpRate key elements filter built =>
    simp only [gcs, Option.bind_eq_bind, Option.bind_eq_some_iff] at built
    obtain ⟨count, short, hashed, constructed, compressed, encoded, final⟩ := built
    obtain ⟨rfl, rfl, rfl, rfl, rfl, _⟩ := construct_spec _ _ _ _ _ _ filter final
    exact ⟨shorten_spec _ _ short, hashed, constructed, encoded⟩
  | block type block filter built =>
    rw [gcsBlock] at built
    split at built
    · cases built
    · simp only [Option.bind_eq_bind, Option.bind_eq_some_iff] at built
      obtain ⟨⟨bits, fpRate⟩, _, count, short, key, _, hashed, constructed, compressed, encoded, final⟩ := built
      obtain ⟨rfl, rfl, rfl, rfl, rfl, _⟩ := construct_spec _ _ _ _ _ _ filter final
      exact ⟨shorten_spec _ _ short, hashed, constructed, encoded⟩

theorem construct_key (bits : UInt8) (fpRate count : UInt32) (key : Key) (elements : Option (List Element))
    (compressed : Bytes) : construct bits fpRate count key.val elements compressed =
      some { version := 1, bits, falsePositiveRate := fpRate, count, key, compressed, elements } := by
  rw [construct, dif_pos key.property]

theorem decodeCfilterElementCount_encode (filter : GCS) :
    decodeCfilterElementCount filter.encode = some (filter.count, filter.compressed) := by
  have fits : filter.count.toNat < 2 ^ 64 := lt_trans filter.count.toNat_lt (by norm_num)
  rw [decodeCfilterElementCount, GCS.encode, CompactSize.decode_encode _ _ fits]
  simp only [shorten_toNat, Option.map_some]

/-- Every route back gives the same filter, without its decompressed elements. -/
theorem restored_spec (filter copy : GCS) (restored : Restored filter copy) :
    copy.bits = filter.bits ∧ copy.falsePositiveRate = filter.falsePositiveRate ∧ copy.count = filter.count ∧
      copy.key = filter.key ∧ copy.compressed = filter.compressed ∧ copy.elements = none := by
  cases restored with
  | compressed copy rebuilt =>
    rw [gcsCompressed, construct_key] at rebuilt
    cases rebuilt
    exact ⟨rfl, rfl, rfl, rfl, rfl, rfl⟩
  | proto copy rebuilt =>
    rw [gcsProto, GCS.serialize, construct_key] at rebuilt
    cases rebuilt
    exact ⟨by simp, rfl, rfl, rfl, rfl, rfl⟩
  | encoded type copy params rebuilt =>
    simp only [gcsEncoded, params, decodeCfilterElementCount_encode, construct_key, Option.bind_eq_bind,
      Option.bind_some, Option.some.injEq] at rebuilt
    subst rebuilt
    exact ⟨rfl, rfl, rfl, rfl, rfl, rfl⟩

/-- A restored filter decompresses to the nonzero hashes, or to zeros when there is no
other hash. -/
theorem decompress_spec (filter copy : GCS) (targets : List Bytes) (built : Built hmac filter targets)
    (restored : Restored filter copy) (width : filter.bits.toNat < 32) :
    ∃ set hashed, copy.decompress = some set ∧ set.Pairwise (· ≤ ·) ∧
      hashedSetConstruct hmac filter.key.val filter.count filter.falsePositiveRate targets = some hashed ∧
      ∀ hash, hash ∈ set ↔ hash ∈ hashed ∧ (hash ≠ 0 ∨ ∀ other ∈ hashed, other = 0) := by
  obtain ⟨count, hashed, constructed, encoded⟩ := built_spec hmac filter targets built
  obtain ⟨length, sorted, _, _⟩ := hashedSetConstruct_spec hmac _ _ _ targets hashed constructed
  obtain ⟨bits, _, sameCount, _, compressed, lazily⟩ := restored_spec filter copy restored
  have room : ((deltas 0 hashed).filter (· ≠ 0)).length ≤ filter.count.toNat := by
    rw [count, ← length, ← deltas_length 0 hashed]
    exact List.length_filter_le _ _
  have decoded := golombDecode_golombEncode filter.bits.toNat width hashed filter.count room
  rw [encoded, Option.bind_some] at decoded
  refine ⟨SortedList.sort (sums 0 (visible hashed.length hashed)), hashed, ?_, SortedList.sort_sorted _,
    constructed, ?_⟩
  · simp only [GCS.decompress, lazily, bits, sameCount, compressed, decoded, Option.map_some, count, length]
  · intro hash
    rw [SortedList.mem_sort, mem_sums_visible hashed sorted hash]

theorem decompress_wide (filter copy : GCS) (targets : List Bytes) (built : Built hmac filter targets)
    (restored : Restored filter copy) (width : 32 ≤ filter.bits.toNat) (some_used : targets ≠ []) :
    copy.decompress = none := by
  obtain ⟨count, _⟩ := built_spec hmac filter targets built
  obtain ⟨bits, _, sameCount, _, _, lazily⟩ := restored_spec filter copy restored
  have positive : 0 < copy.count.toNat := by
    rw [sameCount, count]
    exact List.length_pos_iff.mpr some_used
  simp only [GCS.decompress, lazily, bits, golombDecode, golombDecodeFrom_wide _ _ _ _ width positive,
    Option.map_none]

theorem testScan_iff (hash : Element) (set : List Element) (sorted : set.Pairwise (· ≤ ·)) :
    testScan hash set = true ↔ hash ∈ set := by
  induction set with
  | nil => simp [testScan]
  | cons element set ih =>
    rw [List.pairwise_cons] at sorted
    rw [testScan, List.mem_cons]
    by_cases same : element = hash
    · simp [same]
    · rw [if_neg same]
      by_cases past : element > hash
      · rw [if_pos past]
        constructor
        · intro never
          cases never
        · intro member
          exfalso
          rcases member with equal | later
          · exact same equal.symm
          · exact absurd past (not_lt.mpr (sorted.1 hash later))
      · rw [if_neg past, ih sorted.2]
        constructor
        · exact Or.inr
        · intro member
          exact member.resolve_left (Ne.symm same)

theorem mem_positions (hashed : List Element) (hash : Element) (index : Nat) :
    index ∈ positions hashed hash ↔ hashed[index]? = some hash := by
  simp only [positions, List.mem_map, List.mem_filter, List.mem_zipIdx_iff_getElem?, decide_eq_true_eq]
  constructor
  · intro ⟨⟨value, at_index⟩, both, same⟩
    simp only at both same
    rw [← same, both.1, both.2]
  · intro found
    exact ⟨(hash, index), ⟨found, rfl⟩, rfl⟩

/-- A query finds a target exactly when its hash is in the decompressed set. -/
theorem mem_matchTargets (filter : GCS) (targets : List Bytes) (set : List Element) (sorted : set.Pairwise (· ≤ ·))
    (decompressed : filter.decompress = some set)
    (hashable : ∀ target ∈ targets, siphash hmac filter.key.val target ≠ none) :
    ∃ found, filter.matchTargets hmac targets = some found ∧ ∀ (index : Nat) (target : Bytes),
      targets[index]? = some target →
        (index ∈ found ↔ ∃ hash ∈ set, hashItem hmac filter.key.val filter.range target = some hash) := by
  obtain ⟨hashed, run⟩ := mapM_exists (hashItem hmac filter.key.val filter.range) targets (by
    intro target member
    obtain ⟨hash, hashes⟩ := Option.ne_none_iff_exists'.mp (hashable target member)
    exact ⟨hashToRange filter.range hash, by rw [hashItem, hashes, Option.map_some]⟩)
  refine ⟨_, by rw [GCS.matchTargets, run, decompressed]; rfl, ?_⟩
  intro index target at_index
  have same := mapM_getElem? _ targets hashed run index target at_index
  have dedupSorted := (SortedList.dedup_sorted hashed).imp (fun {first second} below => le_of_lt below)
  rw [List.mem_flatMap]
  simp only [SortedList.mem_setIntersection _ _ dedupSorted sorted, SortedList.mem_dedup, mem_positions]
  constructor
  · rintro ⟨hash, ⟨_, inside⟩, found⟩
    exact ⟨hash, inside, same.trans found⟩
  · rintro ⟨hash, inside, hashes⟩
    have found := same.symm.trans hashes
    exact ⟨hash, ⟨List.mem_of_getElem? found, inside⟩, found⟩

/-! ## False negatives -/

/-- Every element used is reported by a test and, whatever it is asked together with, by
a match. -/
def NoFalseNegatives (copy : GCS) (targets : List Bytes) : Prop :=
  ∀ element ∈ targets, copy.test hmac element = some true ∧
    ∀ queries : List Bytes, (∀ query ∈ queries, siphash hmac copy.key.val query ≠ none) →
      ∀ index : Nat, queries[index]? = some element →
        ∃ found, copy.matchTargets hmac queries = some found ∧ index ∈ found

/-- The keyed hash of the element is below `2 ^ 64 / (N * M)`. -/
def HashesLow (filter : GCS) (targets : List Bytes) (element : Bytes) : Prop :=
  ∃ hash ∈ siphash hmac filter.key.val element,
    hash.toNat * (targets.length * filter.falsePositiveRate.toNat) < 2 ^ 64

instance (filter : GCS) (targets : List Bytes) (element : Bytes) :
    Decidable (HashesLow hmac filter targets element) :=
  inferInstanceAs (Decidable (∃ hash ∈ siphash hmac filter.key.val element, _))

theorem hashItem_zero_iff (filter : GCS) (targets : List Bytes) (count : filter.count.toNat = targets.length)
    (element : Bytes) :
    hashItem hmac filter.key.val (range filter.count filter.falsePositiveRate) element = some 0 ↔
      HashesLow hmac filter targets element := by
  simp only [hashItem, Option.map_eq_some_iff, hashToRange_eq_zero_iff, range_toNat, count, HashesLow,
    Option.mem_def]

theorem restored_test_iff (filter copy : GCS) (targets : List Bytes) (built : Built hmac filter targets)
    (restored : Restored filter copy) (width : filter.bits.toNat < 32) (element : Bytes)
    (used : element ∈ targets) :
    copy.test hmac element = some true ↔
      ¬HashesLow hmac filter targets element ∨ ∀ other ∈ targets, HashesLow hmac filter targets other := by
  obtain ⟨count, _⟩ := built_spec hmac filter targets built
  obtain ⟨set, hashed, decompressed, sorted, constructed, members⟩ :=
    decompress_spec hmac filter copy targets built restored width
  obtain ⟨_, rate, sameCount, key, _, _⟩ := restored_spec filter copy restored
  obtain ⟨_, _, hashes, sources⟩ := hashedSetConstruct_spec hmac _ _ _ targets hashed constructed
  obtain ⟨hash, listed, hashOf⟩ := hashes element used
  have tested : copy.test hmac element = some true ↔ hash ∈ set := by
    rw [← testScan_iff hash set sorted]
    simp [GCS.test, GCS.range, key, rate, sameCount, hashOf, decompressed]
  have low : hash = 0 ↔ HashesLow hmac filter targets element := by
    rw [← hashItem_zero_iff hmac filter targets count, hashOf, Option.some.injEq]
  have allLow : (∀ other ∈ hashed, other = 0) ↔ ∀ other ∈ targets, HashesLow hmac filter targets other := by
    constructor
    · intro zeros other member
      obtain ⟨otherHash, otherListed, otherHashes⟩ := hashes other member
      rw [← hashItem_zero_iff hmac filter targets count, otherHashes, zeros otherHash otherListed]
    · intro lows otherHash member
      obtain ⟨other, otherMember, otherHashes⟩ := sources otherHash member
      have zero := (hashItem_zero_iff hmac filter targets count other).mpr (lows other otherMember)
      exact Option.some.inj (otherHashes.symm.trans zero)
  rw [tested, members, ← low, ← allLow]
  simp only [listed, true_and, ne_eq]

/-- A restored filter has no false negative exactly when its remainders are narrower than
32 bits and no element hashes to zero unless all of them do. -/
theorem no_false_negatives_iff (filter copy : GCS) (targets : List Bytes) (built : Built hmac filter targets)
    (restored : Restored filter copy) :
    NoFalseNegatives hmac copy targets ↔
      targets = [] ∨ filter.bits.toNat < 32 ∧
        ((∀ element ∈ targets, ¬HashesLow hmac filter targets element) ∨
          ∀ element ∈ targets, HashesLow hmac filter targets element) := by
  by_cases none_used : targets = []
  · subst none_used
    simp [NoFalseNegatives]
  · by_cases width : filter.bits.toNat < 32
    · simp only [none_used, width, false_or, true_and]
      constructor
      · intro found
        by_contra neither
        rw [not_or] at neither
        obtain ⟨someLow, notAll⟩ := neither
        apply someLow
        intro element used
        exact ((restored_test_iff hmac filter copy targets built restored width element used).mp
          (found element used).1).resolve_right notAll
      · intro either element used
        have test := (restored_test_iff hmac filter copy targets built restored width element used).mpr
          (either.imp (fun noneLow => noneLow element used) id)
        refine ⟨test, ?_⟩
        intro queries hashable index at_index
        obtain ⟨set, _, decompressed, sorted, _, _⟩ :=
          decompress_spec hmac filter copy targets built restored width
        obtain ⟨found, run, members⟩ := mem_matchTargets hmac copy queries set sorted decompressed hashable
        refine ⟨found, run, (members index element at_index).mpr ?_⟩
        simp only [GCS.test, Option.bind_eq_bind, Option.bind_eq_some_iff, Option.some.injEq] at test
        obtain ⟨hash, hashes, same, alsoDecompressed, scanned⟩ := test
        rw [decompressed, Option.some.injEq] at alsoDecompressed
        subst alsoDecompressed
        exact ⟨hash, (testScan_iff hash set sorted).mp scanned, hashes⟩
    · simp only [none_used, width, false_or, false_and, iff_false]
      intro found
      obtain ⟨element, used⟩ := List.exists_mem_of_ne_nil targets none_used
      have test := (found element used).1
      have missing := decompress_wide hmac filter copy targets built restored (Nat.le_of_not_lt width) none_used
      simp [GCS.test, missing] at test

end Keyed

/-- The SipHash-2-4 values of three elements under the zero key. -/
def zeroKeyHashes (_ : Key) (item : Bytes) : Option UInt64 :=
  if item = [0x00, 0x24, 0xfe, 0x45] then some 2791526895780
  else if item = [0, 0, 0, 1] then some 7743489813434578935
  else if item = [0, 0, 0, 2] then some 13126023682334609956
  else none

def zeroKeyFilter (compressed : Bytes) (elements : Option (List Element)) : GCS where
  version := 1
  bits := 19
  falsePositiveRate := 784931
  count := 2
  key := ⟨List.replicate 16 0, rfl⟩
  compressed := compressed
  elements := elements

theorem no_false_negatives_two_elements :
    NoFalseNegatives zeroKeyHashes (zeroKeyFilter [144, 113, 107, 126, 169, 0] none)
      (effective [[0, 0, 0, 1], [0, 0, 0, 2]]) :=
  (no_false_negatives_iff zeroKeyHashes
    (zeroKeyFilter [144, 113, 107, 126, 169, 0] (some [658989, 1117055])) _ _
    (Built.elements 19 784931 (List.replicate 16 0) _ _ (by decide))
    (Restored.encoded .basicBchVariant _ (by decide) (by decide))).mpr
    (Or.inr ⟨by decide, Or.inl (by decide)⟩)

/-- The first element hashes to zero, and the restored filter does not find it. -/
theorem low_element_missed :
    ¬∀ (hmac : Key → Bytes → Option UInt64) (filter copy : GCS) (targets : List Bytes),
      Built hmac filter targets → Restored filter copy → NoFalseNegatives hmac copy targets := by
  intro always
  have built : Built zeroKeyHashes (zeroKeyFilter [144, 113, 104] (some [0, 658989]))
      (effective [[0x00, 0x24, 0xfe, 0x45], [0, 0, 0, 1]]) :=
    Built.elements 19 784931 (List.replicate 16 0) _ _ (by decide)
  have restored : Restored (zeroKeyFilter [144, 113, 104] (some [0, 658989]))
      (zeroKeyFilter [144, 113, 104] none) :=
    Restored.encoded .basicBchVariant _ (by decide) (by decide)
  have found := always zeroKeyHashes _ _ _ built restored [0x00, 0x24, 0xfe, 0x45] (by decide)
  exact absurd found.1 (by decide)

end Opentxs.Cfilter.Gcs
