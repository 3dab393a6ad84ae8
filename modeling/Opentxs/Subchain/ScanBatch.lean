import Mathlib.Data.Nat.Sqrt
import Opentxs.Cfilter.Queries
import Opentxs.Library.Ordered
import Opentxs.Library.Striping
import Opentxs.Subchain.Scanning

/-! One call of a scan: how many blocks it takes on, the elements that are still to be looked
for in each, and the filters, which several jobs match in stripes. -/

namespace Opentxs.Subchain.ScanBatch
open HeaderOracle BlockHeader
open HeaderOracle.Storage (Database)
open Library Library.Endian Library.Ordered Library.Striping
open Wallet.Types Positions Scanning
open Cfilter.Gcs

/-! ## What is looked for -/

/-- Keys in each of their forms, and outputs. -/
inductive Kind
  | element20
  | element32
  | element33
  | element64
  | element65
  | txo
  deriving DecidableEq

def kinds : List Kind := [.element20, .element32, .element33, .element64, .element65, .txo]

abbrev Id : Kind → Type
  | .txo => Outpoint
  | _ => Nat

instance (kind : Kind) : DecidableEq (Id kind) :=
  match kind with
  | .element20 => inferInstanceAs (DecidableEq Nat)
  | .element32 => inferInstanceAs (DecidableEq Nat)
  | .element33 => inferInstanceAs (DecidableEq Nat)
  | .element64 => inferInstanceAs (DecidableEq Nat)
  | .element65 => inferInstanceAs (DecidableEq Nat)
  | .txo => inferInstanceAs (DecidableEq Outpoint)

/-- The elements with the bytes that a filter holds of them. -/
abbrev Elements := (kind : Kind) → List (Id kind × Bytes)

def Elements.size (elements : Elements) : Nat := (kinds.map fun kind => (elements kind).length).sum

structure MatchIndex where
  confirmedNoMatch : (kind : Kind) → Finset (Id kind) := fun _ => ∅
  confirmedMatch : (kind : Kind) → Finset (Id kind) := fun _ => ∅

def MatchIndex.merge (index other : MatchIndex) : MatchIndex where
  confirmedNoMatch kind := index.confirmedNoMatch kind ∪ other.confirmedNoMatch kind
  confirmedMatch kind := index.confirmedMatch kind ∪ other.confirmedMatch kind

abbrev Results := Position → Option MatchIndex

/-- Of what is known of a block nothing is forgotten. -/
def Results.add (cache results : Results) : Results := fun block =>
  match results block with
  | none => cache block
  | some index => some (((cache block).getD {}).merge index)

/-- What is known to match a block or not to is not looked for again. -/
def selectTargets (cache : Results) (elements : Elements) (block : Position) : Elements := fun kind =>
  match cache block with
  | some found => (elements kind).filter fun item => item.1 ∉ found.confirmedNoMatch kind ∧ item.1 ∉ found.confirmedMatch kind
  | none => elements kind

/-! ## The hashes of a block -/

/-- The hashes in their order, and what each comes from. -/
abbrev BlockData := (kind : Kind) → List UInt64 × List (UInt64 × Id kind)

def hash (siphash : Bytes → UInt64) (selected : Elements) (row : BlockData) : BlockData := fun kind =>
  let added := (selected kind).map fun item => (siphash item.2, item.1)
  (SortedList.dedup ((row kind).1 ++ added.map Prod.fst), (row kind).2 ++ added)

/-- Where the filter cannot be read the program ends. -/
def getMatches (filter : GCS) (data : BlockData) (kind : Kind) : Option (Finset (Id kind)) :=
  (filter.matchHashes (data kind).1).map fun found =>
    (found.flatMap fun position => ((data kind).1[position]?.toList).flatMap fun hash =>
      ((data kind).2.filter fun entry => entry.1 = hash).map Prod.snd).toFinset

/-- How many elements match, and which do and do not. -/
def matchBlock (filter : GCS) (selected : Elements) (data : BlockData) : Option (Nat × MatchIndex) := do
  let element20 ← getMatches filter data .element20
  let element32 ← getMatches filter data .element32
  let element33 ← getMatches filter data .element33
  let element64 ← getMatches filter data .element64
  let element65 ← getMatches filter data .element65
  let txo ← getMatches filter data .txo
  let found : (kind : Kind) → Finset (Id kind)
    | .element20 => element20
    | .element32 => element32
    | .element33 => element33
    | .element64 => element64
    | .element65 => element65
    | .txo => txo
  some ((kinds.map fun kind => (found kind).card).sum,
    { confirmedNoMatch := fun kind => ((selected kind).map Prod.fst).toFinset.filter fun id => id ∉ found kind
      confirmedMatch := fun kind => ((selected kind).map Prod.fst).toFinset.filter fun id => id ∈ found kind })

/-! ## The jobs -/

structure Matched where
  clean : Finset Position := ∅
  dirty : Finset Position := ∅
  sizes : OrderedMap Int Nat := .empty

def Matched.add (matched cache : Matched) : Matched where
  clean := matched.clean ∪ cache.clean
  dirty := matched.dirty ∪ cache.dirty
  sizes := cache.sizes.entries.foldl (fun sizes entry => sizes.emplace entry.1 entry.2) matched.sizes

structure Progress where
  cache : Matched := {}
  results : Results
  atLeastOnce : Bool := false

def Progress.record (progress : Progress) (block : Position) (filter : GCS) (found : Nat × MatchIndex) : Progress where
  cache :=
    { clean := if found.1 = 0 then insert block progress.cache.clean else progress.cache.clean
      dirty := if found.1 = 0 then progress.cache.dirty else insert block progress.cache.dirty
      sizes := progress.cache.sizes.emplace block.height filter.count.toNat }
  results := Function.update progress.results block (some found.2)
  atLeastOnce := true

/-- The blocks with what is looked for in each. -/
structure PrehashData where
  targets : List (Position × Elements)
  jobs : Nat

namespace PrehashData

variable (prehash : PrehashData)

def hashRow (siphash : Hash → Bytes → UInt64) (item : Nat) (row : BlockData) : BlockData :=
  match prehash.targets[item]? with
  | some (block, selected) => hash (siphash block.hash) selected row
  | none => row

def prepare (siphash : Hash → Bytes → UInt64) : Nat → BlockData :=
  (List.range prehash.jobs).foldl (fun data job => (stripe prehash.jobs prehash.targets.length prehash.targets.length job).foldl
    (fun data item => Function.update data item (prehash.hashRow siphash item (data item))) data) fun _ _ => ([], [])

section

variable (filters : List GCS) (data : Nat → BlockData)

def matchOne (progress : Progress) (item : Nat) : Option Progress := do
  let (block, selected) ← prehash.targets[item]?
  let filter ← filters[item]?
  (matchBlock filter selected (data item)).map (progress.record block filter)

def matchJob (progress : Progress) (job : Nat) : Option Progress :=
  let stop := min prehash.targets.length filters.length
  ((stripe prehash.jobs stop stop job).foldlM (prehash.matchOne filters data) { progress with cache := {} }).map
    fun done => { done with cache := progress.cache.add done.cache }

def matchAll (results : Results) : Option Progress :=
  (List.range prehash.jobs).foldlM (prehash.matchJob filters data) { results }

end

end PrehashData

/-! ## The scan -/

/-- What a scan reads outside. The siphash is that of the key of a block. -/
structure Node (Work : Type) where
  oracle : Database Work
  stored : Hash → Option Proto
  siphash : Hash → Bytes → UInt64
  maxJobs : Nat
  batchEstimate : Nat

structure Shared where
  elements : Elements
  matchCache : Results := fun _ => none
  filterSizes : List Nat := []
  elementsPerCfilter : Nat := 0

/-- The two sets are those of the blocks that were tested. -/
structure Outcome where
  clean : Finset Position
  dirty : Finset Position
  highestTested : Position
  highestClean : Option Position
  out : List Position
  shared : Shared

def cfilterSizeWindow : Nat := 1000

def getBatchSize (cfilter user : Nat) : Nat :=
  let cfilterWeight := 1
  let walletWeight := 5
  let target := 425000
  min (max (target * (cfilterWeight * walletWeight) / (cfilterWeight * cfilter + walletWeight * user)) 1) 10000

def chooseThreadCount (maxJobs elements : Nat) : Nat := min (max (Nat.sqrt (elements >>> 9)) 1) (max maxJobs 2 - 1)

variable {Work : Type}

/-- A filter that is not there, or not a filter, ends the list. -/
def loadCfilters (stored : Hash → Option Proto) : List Hash → List GCS
  | [] => []
  | block :: blocks => match (stored block).bind gcsProto with
    | some filter => filter :: loadCfilters stored blocks
    | none => []

def highestClean (clean dirty : Finset Position) (highestTested : Position) : Position × Option Position :=
  match highest clean, highest dirty with
  | none, some last => (last, none)
  | some last, none => (last, some last)
  | some cleanLast, some dirtyLast =>
    (max cleanLast dirtyLast, (lowest dirty).bind fun lowestDirty => highest (clean.filter fun block => block ≤ lowestDirty))
  | none, none => (highestTested, none)

/-- The average of the last filters. It is `none` where it divides by zero. -/
def average (filterSizes : List Nat) : Option Nat :=
  if filterSizes.length = 0 then none else some (max 1 (filterSizes.sum / filterSizes.length))

section

variable (node : Node Work) (shared : Shared)

def elementsPerFilter : Nat := if shared.elementsPerCfilter = 0 then max 1 node.batchEstimate else shared.elementsPerCfilter

def elementCount : Nat := max shared.elements.size 1

def threads : Nat := chooseThreadCount node.maxJobs (elementCount shared)

def scanBatch : Nat := min maximumScan (getBatchSize (elementsPerFilter node shared) (elementCount shared) * threads node shared)

def stopAt (best : Position) (stop startHeight : Int) : Int := min (min (startHeight + scanBatch node shared - 1) best.height) stop

/-- The blocks with the elements that are still to be looked for in each. -/
def targets (positions : List Position) : List (Position × Elements) :=
  positions.map fun block => (block, selectTargets shared.matchCache shared.elements block)

def prehashData (positions : List Position) : PrehashData :=
  ⟨targets shared positions, min (threads node shared) (targets shared positions).length⟩

def matchBlocks (startHeight : Int) (blocks : List Hash) : Option Progress :=
  let positions := positionsFrom startHeight blocks
  let prehash := prehashData node shared positions
  prehash.matchAll (loadCfilters node.stored blocks) (prehash.prepare node.siphash) fun block => if block ∈ positions then some {} else none

/-- `none` is the end of the program. Where there is nothing to scan an exception is caught and all stays. -/
def scan (rescan : Bool) (best : Position) (stop : Int) (start : Position) : Option Outcome :=
  let startHeight := start.height + 1
  let stopHeight := stopAt node shared best stop startHeight
  let blocks := bestHashes node.oracle startHeight (stopHeight - startHeight + 1).toNat
  if stopHeight < startHeight ∨ blocks = [] then
    some { clean := ∅, dirty := ∅, highestTested := start, highestClean := none, out := [], shared }
  else do
    let progress ← matchBlocks node shared startHeight blocks
    let found := highestClean progress.cache.clean progress.cache.dirty start
    let sizes := shared.filterSizes ++ progress.cache.sizes.entries.map Prod.snd
    let filterSizes := if rescan then shared.filterSizes else sizes.drop (sizes.length - cfilterSizeWindow)
    let elementsPerCfilter ← if rescan then some shared.elementsPerCfilter else average filterSizes
    some
      { clean := progress.cache.clean
        dirty := progress.cache.dirty
        highestTested := found.1
        highestClean := found.2
        out := SortedList.ordered progress.cache.dirty
        shared :=
          { shared with
            matchCache := if progress.atLeastOnce then shared.matchCache.add progress.results else shared.matchCache
            filterSizes
            elementsPerCfilter } }

end

/-! ## One block -/

/-- A filter holds a value that the hash of an element is taken to. -/
def Contains (filter : GCS) (hash : UInt64) : Prop := ∃ set, filter.decompress = some set ∧ hashToRange filter.range hash ∈ set

/-- An element is known to match a block or not to. -/
def Recorded (cache : Results) (block : Position) (kind : Kind) (id : Id kind) : Prop :=
  ∃ found, cache block = some found ∧ (id ∈ found.confirmedNoMatch kind ∨ id ∈ found.confirmedMatch kind)

/-- One of the elements that are still looked for is in the filter. -/
def Matches (siphash : Hash → Bytes → UInt64) (cache : Results) (elements : Elements) (block : Position) (filter : GCS) : Prop :=
  ∃ kind, ∃ item ∈ elements kind, ¬ Recorded cache block kind item.1 ∧ Contains filter (siphash block.hash item.2)

section

variable {filter : GCS} {set : List Cfilter.Golomb.Element} {siphash : Bytes → UInt64} {selected : Elements}

theorem mem_selectTargets {cache : Results} {elements : Elements} {block : Position} {kind : Kind} (item : Id kind × Bytes) :
    item ∈ selectTargets cache elements block kind ↔ item ∈ elements kind ∧ ¬ Recorded cache block kind item.1 := by
  unfold selectTargets Recorded
  cases known : cache block with
  | none => exact (and_iff_left fun ⟨_, found, _⟩ => nomatch found).symm
  | some found =>
    dsimp only
    rw [List.mem_filter, decide_eq_true_iff]
    constructor
    · rintro ⟨member, noMatch, noOther⟩
      refine ⟨member, ?_⟩
      rintro ⟨other, same, inside⟩
      cases same
      exact inside.elim noMatch noOther
    · rintro ⟨member, unknown⟩
      exact ⟨member, fun inside => unknown ⟨found, rfl, .inl inside⟩, fun inside => unknown ⟨found, rfl, .inr inside⟩⟩

theorem mem_getMatches (decompressed : filter.decompress = some set) (sorted : set.Pairwise (· ≤ ·)) (kind : Kind) :
    ∃ found, getMatches filter (hash siphash selected fun _ => ([], [])) kind = some found ∧
      ∀ id, id ∈ found ↔ ∃ item ∈ selected kind, item.1 = id ∧ hashToRange filter.range (siphash item.2) ∈ set := by
  obtain ⟨found, done, among⟩ := @mem_matchHashes filter (hash siphash selected (fun _ => ([], [])) kind).1 set decompressed sorted
  refine ⟨_, by unfold getMatches; rw [done]; rfl, fun id => ?_⟩
  have hashes (value : UInt64) : value ∈ (hash siphash selected (fun _ => ([], [])) kind).1 ↔ ∃ item ∈ selected kind, siphash item.2 = value := by
    show value ∈ SortedList.dedup ([] ++ _) ↔ _
    rw [SortedList.mem_dedup, List.nil_append, List.map_map, List.mem_map]
    rfl
  have entries (entry : UInt64 × Id kind) : entry ∈ (hash siphash selected (fun _ => ([], [])) kind).2 ↔
      ∃ item ∈ selected kind, (siphash item.2, item.1) = entry := by
    show entry ∈ [] ++ _ ↔ _
    rw [List.nil_append, List.mem_map]
  rw [List.mem_toFinset, List.mem_flatMap]
  constructor
  · rintro ⟨position, member, inside⟩
    obtain ⟨value, present, ids⟩ := List.mem_flatMap.mp inside
    obtain ⟨other, present_, contained⟩ := (among position).mp member
    obtain rfl : other = value := Option.some.inj (present_.symm.trans (Option.mem_toList.mp present))
    obtain ⟨entry, filtered, rfl⟩ := List.mem_map.mp ids
    obtain ⟨listed, same⟩ := List.mem_filter.mp filtered
    obtain ⟨item, chosen, rfl⟩ := (entries entry).mp listed
    exact ⟨item, chosen, rfl, (of_decide_eq_true same : siphash item.2 = other) ▸ contained⟩
  · rintro ⟨item, chosen, rfl, contained⟩
    obtain ⟨position, present⟩ := List.mem_iff_getElem?.mp ((hashes (siphash item.2)).mpr ⟨item, chosen, rfl⟩)
    refine ⟨position, (among position).mpr ⟨_, present, contained⟩, ?_⟩
    rw [present]
    refine List.mem_flatMap.mpr ⟨_, List.mem_singleton_self _, List.mem_map.mpr ⟨(siphash item.2, item.1), ?_, rfl⟩⟩
    exact List.mem_filter.mpr ⟨(entries _).mpr ⟨item, chosen, rfl⟩, decide_eq_true rfl⟩

theorem matchBlock_none (data : BlockData) (unreadable : filter.decompress = none) : matchBlock filter selected data = none := by
  have none_ : getMatches filter data .element20 = none := by
    unfold getMatches GCS.matchHashes
    rw [unreadable]
    rfl
  unfold matchBlock
  rw [none_]
  rfl

/-- A block is clean where no element that is looked for is in its filter. -/
theorem matchBlock_some (decompressed : filter.decompress = some set) (sorted : set.Pairwise (· ≤ ·)) :
    ∃ found, matchBlock filter selected (hash siphash selected fun _ => ([], [])) = some found ∧
      (found.1 ≠ 0 ↔ ∃ kind, ∃ item ∈ selected kind, Contains filter (siphash item.2)) := by
  obtain ⟨element20, done20, among20⟩ := @mem_getMatches filter set siphash selected decompressed sorted .element20
  obtain ⟨element32, done32, among32⟩ := @mem_getMatches filter set siphash selected decompressed sorted .element32
  obtain ⟨element33, done33, among33⟩ := @mem_getMatches filter set siphash selected decompressed sorted .element33
  obtain ⟨element64, done64, among64⟩ := @mem_getMatches filter set siphash selected decompressed sorted .element64
  obtain ⟨element65, done65, among65⟩ := @mem_getMatches filter set siphash selected decompressed sorted .element65
  obtain ⟨txo, doneTxo, amongTxo⟩ := @mem_getMatches filter set siphash selected decompressed sorted .txo
  unfold matchBlock
  rw [done20, done32, done33, done64, done65, doneTxo]
  refine ⟨_, rfl, ?_⟩
  have empty {kind : Kind} {found : Finset (Id kind)}
      (among : ∀ id, id ∈ found ↔ ∃ item ∈ selected kind, item.1 = id ∧ hashToRange filter.range (siphash item.2) ∈ set) :
      found.card = 0 ↔ ¬ ∃ item ∈ selected kind, Contains filter (siphash item.2) := by
    rw [Finset.card_eq_zero, Finset.eq_empty_iff_forall_notMem]
    constructor
    · rintro none_ ⟨item, member, other, same, contained⟩
      obtain rfl : set = other := Option.some.inj (decompressed.symm.trans same)
      exact none_ item.1 ((among item.1).mpr ⟨item, member, rfl, contained⟩)
    · intro none_ id member
      obtain ⟨item, chosen, _, contained⟩ := (among id).mp member
      exact none_ ⟨item, chosen, set, decompressed, contained⟩
  show element20.card + (element32.card + (element33.card + (element64.card + (element65.card + (txo.card + 0))))) ≠ 0 ↔ _
  rw [ne_eq, Nat.add_eq_zero_iff, Nat.add_eq_zero_iff, Nat.add_eq_zero_iff, Nat.add_eq_zero_iff, Nat.add_eq_zero_iff, Nat.add_zero,
    empty among20, empty among32, empty among33, empty among64, empty among65, empty amongTxo]
  constructor
  · intro some_
    by_contra none_
    exact some_ ⟨fun found => none_ ⟨_, found⟩, fun found => none_ ⟨_, found⟩, fun found => none_ ⟨_, found⟩, fun found => none_ ⟨_, found⟩,
      fun found => none_ ⟨_, found⟩, fun found => none_ ⟨_, found⟩⟩
  · rintro ⟨kind, found⟩ ⟨no20, no32, no33, no64, no65, noTxo⟩
    cases kind with
    | element20 => exact no20 found
    | element32 => exact no32 found
    | element33 => exact no33 found
    | element64 => exact no64 found
    | element65 => exact no65 found
    | txo => exact noTxo found

end

/-! ## All blocks -/

namespace PrehashData

variable (prehash : PrehashData) (filters : List GCS) (data : Nat → BlockData)

/-- What the test of one block gives. -/
def verdict (item : Nat) : Option (Position × Nat) :=
  prehash.targets[item]?.bind fun target => filters[item]?.bind fun filter => (matchBlock filter target.2 (data item)).map fun found => (target.1, found.1)

/-- What jobs add that test the blocks of a list. -/
structure Tallies (items : List Nat) (before after : Progress) : Prop where
  clean : ∀ block, block ∈ after.cache.clean ↔ block ∈ before.cache.clean ∨ ∃ item ∈ items, prehash.verdict filters data item = some (block, 0)
  dirty : ∀ block, block ∈ after.cache.dirty ↔ block ∈ before.cache.dirty ∨
    ∃ item ∈ items, ∃ count ≠ 0, prehash.verdict filters data item = some (block, count)
  sizes : after.cache.sizes.isEmpty = true ↔ before.cache.sizes.isEmpty = true ∧ items = []

variable {prehash filters data}

theorem isEmpty_emplace (sizes : OrderedMap Int Nat) (height : Int) (size : Nat) : (sizes.emplace height size).isEmpty = false := by
  rw [← Bool.not_eq_true, OrderedMap.isEmpty_iff]
  intro none_
  have here := none_ height
  rw [OrderedMap.find?_emplace, if_pos rfl] at here
  cases here

theorem record_tallies (progress : Progress) {item : Nat} {block : Position} {filter : GCS} {found : Nat × MatchIndex}
    (given : prehash.verdict filters data item = some (block, found.1)) :
    prehash.Tallies filters data [item] progress (progress.record block filter found) where
  clean other := by
    have only : (∃ one ∈ [item], prehash.verdict filters data one = some (other, 0)) ↔ block = other ∧ found.1 = 0 := by
      constructor
      · rintro ⟨one, member, same⟩
        obtain rfl := List.mem_singleton.mp member
        exact Prod.mk.inj (Option.some.inj (given.symm.trans same))
      · rintro ⟨rfl, none_⟩
        exact ⟨item, List.mem_singleton_self _, none_ ▸ given⟩
    rw [only]
    show other ∈ (if found.1 = 0 then _ else _) ↔ _
    split
    · next none_ =>
      rw [Finset.mem_insert, or_comm, eq_comm]
      exact or_congr_right (and_iff_left none_).symm
    · next some_ => exact (or_iff_left fun both => some_ both.2).symm
  dirty other := by
    have only : (∃ one ∈ [item], ∃ count ≠ 0, prehash.verdict filters data one = some (other, count)) ↔ block = other ∧ found.1 ≠ 0 := by
      constructor
      · rintro ⟨one, member, count, some_, same⟩
        obtain rfl := List.mem_singleton.mp member
        obtain ⟨rfl, rfl⟩ := Prod.mk.inj (Option.some.inj (given.symm.trans same))
        exact ⟨rfl, some_⟩
      · rintro ⟨rfl, some_⟩
        exact ⟨item, List.mem_singleton_self _, found.1, some_, given⟩
    rw [only]
    show other ∈ (if found.1 = 0 then _ else _) ↔ _
    split
    · next none_ => exact (or_iff_left fun both => both.2 none_).symm
    · next some_ =>
      rw [Finset.mem_insert, or_comm, eq_comm]
      exact or_congr_right (and_iff_left some_).symm
  sizes := by
    show (progress.cache.sizes.emplace _ _).isEmpty = true ↔ _
    rw [isEmpty_emplace]
    exact iff_of_false (by decide) fun both => nomatch both.2

/-- A block whose filter cannot be read ends the program. -/
theorem matchOne_spec (progress : Progress) (item : Nat) :
    (∃ after, prehash.matchOne filters data progress item = some after ∧ prehash.Tallies filters data [item] progress after ∧
      prehash.verdict filters data item ≠ none) ∨
    (prehash.matchOne filters data progress item = none ∧ prehash.verdict filters data item = none) := by
  have same : prehash.matchOne filters data progress item = prehash.targets[item]?.bind fun target => filters[item]?.bind fun filter =>
      (matchBlock filter target.2 (data item)).map (progress.record target.1 filter) := rfl
  cases targeted : prehash.targets[item]? with
  | none => exact .inr ⟨by rw [same, targeted]; rfl, by unfold verdict; rw [targeted]; rfl⟩
  | some target =>
    cases loaded : filters[item]? with
    | none => exact .inr ⟨by rw [same, targeted, loaded]; rfl, by unfold verdict; rw [targeted, loaded]; rfl⟩
    | some filter =>
      cases tested : matchBlock filter target.2 (data item) with
      | none =>
        refine .inr ⟨?_, ?_⟩
        · rw [same, targeted, loaded, Option.bind_some, Option.bind_some, tested]
          rfl
        · unfold verdict
          rw [targeted, loaded, Option.bind_some, Option.bind_some, tested]
          rfl
      | some found =>
        have given : prehash.verdict filters data item = some (target.1, found.1) := by
          unfold verdict
          rw [targeted, loaded, Option.bind_some, Option.bind_some, tested]
          rfl
        refine .inl ⟨progress.record target.1 filter found, ?_, record_tallies progress given, ?_⟩
        · rw [same, targeted, loaded, Option.bind_some, Option.bind_some, tested]
          rfl
        · rw [given]
          exact Option.some_ne_none _

theorem Tallies.nil (progress : Progress) : prehash.Tallies filters data [] progress progress where
  clean _ := (or_iff_left fun ⟨_, member, _⟩ => List.not_mem_nil member).symm
  dirty _ := (or_iff_left fun ⟨_, member, _⟩ => List.not_mem_nil member).symm
  sizes := (and_iff_left rfl).symm

theorem Tallies.append {first second : List Nat} {before between after : Progress} (one : prehash.Tallies filters data first before between)
    (two : prehash.Tallies filters data second between after) : prehash.Tallies filters data (first ++ second) before after where
  clean block := by
    rw [two.clean, one.clean, or_assoc]
    refine or_congr_right ?_
    simp only [List.mem_append, or_and_right, exists_or]
  dirty block := by
    rw [two.dirty, one.dirty, or_assoc]
    refine or_congr_right ?_
    simp only [List.mem_append, or_and_right, exists_or]
  sizes := by rw [two.sizes, one.sizes, and_assoc, List.append_eq_nil_iff]

/-- A run over items, each of which is done or ends the program. -/
theorem run_spec {step : Progress → Nat → Option Progress} {items : Nat → List Nat}
    (each : ∀ progress job, (∃ after, step progress job = some after ∧ prehash.Tallies filters data (items job) progress after ∧
        ∀ item ∈ items job, prehash.verdict filters data item ≠ none) ∨
      (step progress job = none ∧ ∃ item ∈ items job, prehash.verdict filters data item = none)) (jobs : List Nat) : ∀ progress,
    (∃ after, jobs.foldlM step progress = some after ∧ prehash.Tallies filters data (jobs.flatMap items) progress after ∧
        ∀ item ∈ jobs.flatMap items, prehash.verdict filters data item ≠ none) ∨
      (jobs.foldlM step progress = none ∧ ∃ item ∈ jobs.flatMap items, prehash.verdict filters data item = none) := by
  induction jobs with
  | nil => exact fun progress => .inl ⟨progress, rfl, .nil progress, fun _ member => absurd member List.not_mem_nil⟩
  | cons job jobs ih =>
    intro progress
    show (∃ after, (step progress job).bind (fun next => jobs.foldlM step next) = _ ∧ _) ∨ ((step progress job).bind (fun next => jobs.foldlM step next) = _ ∧ _)
    rw [List.flatMap_cons]
    rcases each progress job with ⟨next, stepped, tallies, readable⟩ | ⟨ended, item, member, unreadable⟩
    · rw [stepped, Option.bind_some]
      rcases ih next with ⟨after, done, more, also⟩ | ⟨ended, item, member, unreadable⟩
      · refine .inl ⟨after, done, tallies.append more, fun item member => ?_⟩
        exact (List.mem_append.mp member).elim (readable item) (also item)
      · exact .inr ⟨ended, item, List.mem_append_right _ member, unreadable⟩
    · rw [ended]
      exact .inr ⟨rfl, item, List.mem_append_left _ member, unreadable⟩

theorem isEmpty_foldl (entries : List (Int × Nat)) : ∀ sizes : OrderedMap Int Nat,
    (entries.foldl (fun sizes entry => sizes.emplace entry.1 entry.2) sizes).isEmpty = true ↔ sizes.isEmpty = true ∧ entries = [] := by
  induction entries with
  | nil => exact fun _ => (and_iff_left rfl).symm
  | cons entry entries ih =>
    intro sizes
    rw [List.foldl_cons, ih, isEmpty_emplace]
    exact iff_of_false (fun both => nomatch both.1) fun both => nomatch both.2

theorem matchJob_spec (progress : Progress) (job : Nat) :
    (∃ after, prehash.matchJob filters data progress job = some after ∧
      prehash.Tallies filters data (stripe prehash.jobs (min prehash.targets.length filters.length) (min prehash.targets.length filters.length) job)
        progress after ∧
      ∀ item ∈ stripe prehash.jobs (min prehash.targets.length filters.length) (min prehash.targets.length filters.length) job,
        prehash.verdict filters data item ≠ none) ∨
    (prehash.matchJob filters data progress job = none ∧
      ∃ item ∈ stripe prehash.jobs (min prehash.targets.length filters.length) (min prehash.targets.length filters.length) job,
        prehash.verdict filters data item = none) := by
  have each (progress : Progress) (item : Nat) :
      (∃ after, prehash.matchOne filters data progress item = some after ∧ prehash.Tallies filters data [item] progress after ∧
        ∀ other ∈ [item], prehash.verdict filters data other ≠ none) ∨
      (prehash.matchOne filters data progress item = none ∧ ∃ other ∈ [item], prehash.verdict filters data other = none) := by
    rcases @matchOne_spec prehash filters data progress item with ⟨after, done, tallies, readable⟩ | ⟨ended, unreadable⟩
    · exact .inl ⟨after, done, tallies, fun other member => List.mem_singleton.mp member ▸ readable⟩
    · exact .inr ⟨ended, item, List.mem_singleton_self _, unreadable⟩
  rcases @run_spec prehash filters data (prehash.matchOne filters data) (fun item => [item]) each
    (stripe prehash.jobs (min prehash.targets.length filters.length) (min prehash.targets.length filters.length) job) { progress with cache := {} }
    with ⟨after, done, tallies, readable⟩ | ⟨ended, unreadable⟩
  · rw [List.flatMap_singleton'] at tallies readable
    refine .inl ⟨{ after with cache := progress.cache.add after.cache }, ?_, ?_, readable⟩
    · unfold matchJob
      dsimp only
      rw [done]
      rfl
    · exact
        { clean := fun block => by
            show block ∈ progress.cache.clean ∪ after.cache.clean ↔ _
            rw [Finset.mem_union, tallies.clean]
            exact or_congr_right (or_iff_right (Finset.notMem_empty block))
          dirty := fun block => by
            show block ∈ progress.cache.dirty ∪ after.cache.dirty ↔ _
            rw [Finset.mem_union, tallies.dirty]
            exact or_congr_right (or_iff_right (Finset.notMem_empty block))
          sizes := by
            show (after.cache.sizes.entries.foldl _ progress.cache.sizes).isEmpty = true ↔ _
            rw [isEmpty_foldl, ← List.isEmpty_iff]
            exact and_congr_right fun _ => tallies.sizes.trans (and_iff_right rfl) }
  · rw [List.flatMap_singleton'] at unreadable
    refine .inr ⟨?_, unreadable⟩
    unfold matchJob
    dsimp only
    rw [ended]
    rfl

/-- All blocks are tested whose filters were loaded, by whichever jobs. -/
theorem matchAll_spec (positive : 0 < prehash.jobs) (results : Results) :
    (∃ after, prehash.matchAll filters data results = some after ∧
      (∀ block, block ∈ after.cache.clean ↔
        ∃ item < min prehash.targets.length filters.length, prehash.verdict filters data item = some (block, 0)) ∧
      (∀ block, block ∈ after.cache.dirty ↔
        ∃ item < min prehash.targets.length filters.length, ∃ count ≠ 0, prehash.verdict filters data item = some (block, count)) ∧
      (after.cache.sizes.entries = [] ↔ min prehash.targets.length filters.length = 0) ∧
      ∀ item < min prehash.targets.length filters.length, prehash.verdict filters data item ≠ none) ∨
    (prehash.matchAll filters data results = none ∧
      ∃ item < min prehash.targets.length filters.length, prehash.verdict filters data item = none) := by
  have all (item : Nat) := @mem_stripes prehash.jobs (min prehash.targets.length filters.length) positive item
  rcases run_spec (fun progress job => @matchJob_spec prehash filters data progress job) (List.range prehash.jobs) { results }
    with ⟨after, done, tallies, readable⟩ | ⟨ended, item, member, unreadable⟩
  · refine .inl ⟨after, done, fun block => ?_, fun block => ?_, ?_, fun item below => readable item ((all item).mpr below)⟩
    · rw [tallies.clean]
      refine (or_iff_right (Finset.notMem_empty block)).trans (exists_congr fun item => and_congr_left fun _ => all item)
    · rw [tallies.dirty]
      refine (or_iff_right (Finset.notMem_empty block)).trans (exists_congr fun item => and_congr_left fun _ => all item)
    · rw [← List.isEmpty_iff]
      refine (tallies.sizes.trans (and_iff_right rfl)).trans ?_
      constructor
      · intro none_
        by_contra some_
        have first := (all 0).mpr (Nat.pos_of_ne_zero some_)
        change stripes prehash.jobs _ = [] at none_
        rw [none_] at first
        exact List.not_mem_nil first
      · intro none_
        rw [List.eq_nil_iff_forall_not_mem]
        intro item member
        have below := (all item).mp member
        omega
  · exact .inr ⟨ended, item, (all item).mp member, unreadable⟩

/-- Each block has the hashes of what is looked for in it. -/
theorem prepare_eq (positive : 0 < prehash.jobs) (siphash : Hash → Bytes → UInt64) {item : Nat} {target : Position × Elements}
    (targeted : prehash.targets[item]? = some target) :
    prehash.prepare siphash item = hash (siphash target.1.hash) target.2 fun _ => ([], []) := by
  have below := (List.getElem?_eq_some_iff.mp targeted).1
  have whole : prehash.prepare siphash = (stripes prehash.jobs prehash.targets.length).foldl
      (fun data item => Function.update data item (prehash.hashRow siphash item (data item))) fun _ _ => ([], []) := by
    unfold prepare stripes
    rw [List.foldl_flatMap]
  rw [whole, foldl_update _ _ _ (stripes_nodup positive), if_pos ((mem_stripes positive item).mpr below)]
  unfold hashRow
  rw [targeted]

end PrehashData

/-! ## The blocks of a scan -/

section

variable {oracle : Database Work} {stored : Hash → Option Proto}

theorem getElem?_bestHashesFrom (count : Nat) : ∀ (start : Int) (index : Nat) (block : Hash),
    (bestHashesFrom oracle count start)[index]? = some block ↔ index < count ∧ block = oracle.bestBlock (start + index) ∧
      ∀ before ≤ index, start + before ≤ oracle.best.height ∧ oracle.bestBlock (start + before) ≠ nullHash := by
  induction count with
  | zero => exact fun start index block => iff_of_false (fun found => nomatch found) fun inside => absurd inside.1 (Nat.not_lt_zero _)
  | succ count ih =>
    intro start index block
    unfold bestHashesFrom
    by_cases ends : oracle.best.height < start ∨ oracle.bestBlock start = nullHash
    · rw [if_pos ends]
      refine iff_of_false (fun found => nomatch found) fun inside => ?_
      obtain ⟨below, some_⟩ := inside.2.2 0 (Nat.zero_le _)
      rw [Int.natCast_zero, Int.add_zero] at below some_
      exact ends.elim (fun above => absurd below (not_le.mpr above)) some_
    · rw [if_neg ends]
      obtain ⟨below, some_⟩ := not_or.mp ends
      have here (before : Nat) : start + 1 + (before : Int) = start + ((before + 1 : Nat) : Int) := by
        push_cast
        omega
      cases index with
      | zero =>
        rw [List.getElem?_cons_zero, Option.some.injEq, eq_comm, Int.natCast_zero, Int.add_zero]
        refine ⟨fun same => ⟨Nat.succ_pos _, same, fun before least => ?_⟩, fun inside => inside.2.1⟩
        obtain rfl := Nat.le_zero.mp least
        rw [Int.natCast_zero, Int.add_zero]
        exact ⟨not_lt.mp below, some_⟩
      | succ index =>
        rw [List.getElem?_cons_succ, ih, here]
        refine and_congr (by omega) (and_congr_right fun _ => ⟨fun all before least => ?_, fun all before least => ?_⟩)
        · cases before with
          | zero =>
            rw [Int.natCast_zero, Int.add_zero]
            exact ⟨not_lt.mp below, some_⟩
          | succ before =>
            rw [← here]
            exact all before (by omega)
        · rw [here]
          exact all (before + 1) (by omega)

theorem getElem?_positionsFrom (hashes : List Hash) : ∀ (height : Int) (index : Nat),
    (positionsFrom height hashes)[index]? = hashes[index]?.map fun block => ⟨height + index, block⟩ := by
  induction hashes with
  | nil => exact fun _ _ => rfl
  | cons hash hashes ih =>
    intro height index
    cases index with
    | zero =>
      show some (Position.mk height hash) = some ⟨height + 0, hash⟩
      rw [Int.add_zero]
    | succ index =>
      show (positionsFrom (height + 1) hashes)[index]? = hashes[index]?.map _
      rw [ih]
      congr 1
      funext block
      congr 1
      push_cast
      omega

/-- The filter that is loaded for a block. -/
def cfilter (stored : Hash → Option Proto) (block : Hash) : Option GCS := (stored block).bind gcsProto

theorem getElem?_loadCfilters (blocks : List Hash) : ∀ (index : Nat) (filter : GCS),
    (loadCfilters stored blocks)[index]? = some filter ↔
      (∃ block, blocks[index]? = some block ∧ cfilter stored block = some filter) ∧
        ∀ before ≤ index, ∀ block, blocks[before]? = some block → cfilter stored block ≠ none := by
  induction blocks with
  | nil => exact fun _ _ => iff_of_false (fun found => nomatch found) fun ⟨⟨_, found, _⟩, _⟩ => nomatch found
  | cons head blocks ih =>
    intro index filter
    unfold loadCfilters
    cases loaded : (stored head).bind gcsProto with
    | none =>
      refine iff_of_false (fun found => nomatch found) fun inside => ?_
      exact inside.2 0 (Nat.zero_le _) head rfl loaded
    | some first =>
      have given : cfilter stored head = some first := loaded
      have there : cfilter stored head ≠ none := given ▸ Option.some_ne_none _
      cases index with
      | zero =>
        constructor
        · intro same
          refine ⟨⟨head, rfl, given.trans same⟩, fun before least block here => ?_⟩
          obtain rfl := Nat.le_zero.mp least
          exact Option.some.inj here ▸ there
        · rintro ⟨⟨block, here, same⟩, _⟩
          obtain rfl : head = block := Option.some.inj here
          exact given.symm.trans same
      | succ index =>
        show (loadCfilters stored blocks)[index]? = some filter ↔ _
        rw [ih]
        refine and_congr_right fun _ => ⟨fun all before least block here => ?_, fun all before least block here => ?_⟩
        · cases before with
          | zero => exact Option.some.inj here ▸ there
          | succ before => exact all before (by omega) block here
        · exact all (before + 1) (by omega) block here

end

/-! ## The lowest and the highest -/

section

variable {α : Type} [LinearOrder α] {set : Finset α} {item : α}

theorem highest_eq_some : highest set = some item ↔ IsGreatest (set : Set α) item := by
  constructor
  · intro top
    exact ⟨Finset.mem_of_max top, fun other member => Finset.le_max_of_eq member top⟩
  · intro greatest
    obtain ⟨top, found⟩ := Finset.max_of_mem greatest.1
    have same : IsGreatest (set : Set α) top := ⟨Finset.mem_of_max found, fun other member => Finset.le_max_of_eq member found⟩
    rw [greatest.unique same]
    exact found

theorem highest_eq_none : highest set = none ↔ set = ∅ := Finset.max_eq_bot

theorem lowest_eq_some : lowest set = some item ↔ IsLeast (set : Set α) item := by
  constructor
  · intro bottom
    exact ⟨Finset.mem_of_min bottom, fun other member => Finset.min_le_of_eq member bottom⟩
  · intro least
    obtain ⟨bottom, found⟩ := Finset.min_of_mem least.1
    have same : IsLeast (set : Set α) bottom := ⟨Finset.mem_of_min found, fun other member => Finset.min_le_of_eq member found⟩
    rw [least.unique same]
    exact found

end

section

variable {clean dirty : Finset Position} {start : Position}

theorem highestTested_spec : (clean = ∅ ∧ dirty = ∅ ∧ (highestClean clean dirty start).1 = start) ∨
    IsGreatest {block | block ∈ clean ∨ block ∈ dirty} (highestClean clean dirty start).1 := by
  have nothing {set : Finset Position} (none_ : highest set = none) (block : Position) : block ∉ set := by
    rw [highest_eq_none.mp none_]
    exact Finset.notMem_empty block
  unfold highestClean
  cases lastClean : highest clean with
  | none =>
    cases lastDirty : highest dirty with
    | none => exact .inl ⟨highest_eq_none.mp lastClean, highest_eq_none.mp lastDirty, rfl⟩
    | some last =>
      have greatest := highest_eq_some.mp lastDirty
      exact .inr ⟨.inr greatest.1, fun block member => member.elim (fun inside => absurd inside (nothing lastClean block)) (greatest.2 ·)⟩
  | some last =>
    have greatest := highest_eq_some.mp lastClean
    cases lastDirty : highest dirty with
    | none =>
      exact .inr ⟨.inl greatest.1, fun block member => member.elim (greatest.2 ·) fun inside => absurd inside (nothing lastDirty block)⟩
    | some dirtyLast =>
      have also := highest_eq_some.mp lastDirty
      refine .inr ⟨?_, fun block member => member.elim (fun inside => le_max_of_le_left (greatest.2 inside)) fun inside => le_max_of_le_right (also.2 inside)⟩
      show max last dirtyLast ∈ clean ∨ max last dirtyLast ∈ dirty
      rcases le_total dirtyLast last with under | above
      · rw [max_eq_left under]
        exact .inl greatest.1
      · rw [max_eq_right above]
        exact .inr also.1

/-- No dirty block is below the lowest one, and no clean block is equal to it. -/
theorem highestClean_eq_some (apart : Disjoint clean dirty) (block : Position) : (highestClean clean dirty start).2 = some block ↔
    IsGreatest {block | (block ∈ clean ∨ block ∈ dirty) ∧ ∀ other ∈ dirty, block < other} block := by
  have below : {block | (block ∈ clean ∨ block ∈ dirty) ∧ ∀ other ∈ dirty, block < other} =
      {block | block ∈ clean ∧ ∀ other ∈ dirty, block ≤ other} := by
    ext block
    constructor
    · rintro ⟨member, least⟩
      exact ⟨member.resolve_right fun inside => lt_irrefl block (least block inside), fun other inside => (least other inside).le⟩
    · rintro ⟨member, least⟩
      refine ⟨.inl member, fun other inside => lt_of_le_of_ne (least other inside) ?_⟩
      exact (Finset.disjoint_left.mp apart member <| · ▸ inside)
  rw [below]
  have nothing (empty : clean = ∅) : ¬ IsGreatest {block | block ∈ clean ∧ ∀ other ∈ dirty, block ≤ other} block :=
    fun greatest => Finset.notMem_empty block (empty ▸ greatest.1.1)
  unfold highestClean
  cases lastClean : highest clean with
  | none => cases highest dirty <;> exact iff_of_false (fun found => nomatch found) (nothing (highest_eq_none.mp lastClean))
  | some last =>
    cases lastDirty : highest dirty with
    | none =>
      have all : {block | block ∈ clean ∧ ∀ other ∈ dirty, block ≤ other} = (clean : Set Position) := by
        ext block
        rw [highest_eq_none.mp lastDirty]
        exact and_iff_left fun other inside => absurd inside (Finset.notMem_empty other)
      rw [all, ← highest_eq_some, lastClean]
    | some dirtyLast =>
      obtain ⟨least, lowest_⟩ : ∃ least, lowest dirty = some least := Finset.min_of_mem (highest_eq_some.mp lastDirty).1
      have bottom := lowest_eq_some.mp lowest_
      have all : {block | block ∈ clean ∧ ∀ other ∈ dirty, block ≤ other} = (clean.filter fun block => block ≤ least : Finset Position) := by
        ext block
        rw [Finset.mem_coe, Finset.mem_filter]
        exact and_congr_right fun _ => ⟨fun all => all least bottom.1, fun under other inside => under.trans (bottom.2 inside)⟩
      dsimp only
      rw [all, ← highest_eq_some, lowest_]
      rfl

end

/-! ## The whole scan -/

/-- The blocks a scan comes to: up to its limits and before the first one without a filter. -/
structure Reached (node : Node Work) (shared : Shared) (best : Position) (stop : Int) (start block : Position) : Prop where
  above : start.height < block.height
  batch : block.height ≤ start.height + scanBatch node shared
  tip : block.height ≤ best.height
  limit : block.height ≤ stop
  inChain : block.hash = node.oracle.bestBlock block.height
  before : ∀ height, start.height < height → height ≤ block.height →
    height ≤ node.oracle.best.height ∧ node.oracle.bestBlock height ≠ nullHash ∧ cfilter node.stored (node.oracle.bestBlock height) ≠ none

section

variable {node : Node Work} {shared : Shared} {best : Position} {stop : Int} {start : Position}

theorem le_stopAt_iff {height : Int} : height ≤ stopAt node shared best stop (start.height + 1) ↔
    height ≤ start.height + scanBatch node shared ∧ height ≤ best.height ∧ height ≤ stop := by
  unfold stopAt
  rw [le_min_iff, le_min_iff, and_assoc, add_right_comm, add_sub_cancel_right]

/-- The blocks whose filters are loaded are those that are reached. -/
theorem loaded_iff_reached (count : Nat) (whole : count = (stopAt node shared best stop (start.height + 1) - (start.height + 1) + 1).toNat) (block : Position) :
    (∃ (item : Nat) (filter : GCS), (positionsFrom (start.height + 1) (bestHashes node.oracle (start.height + 1) count))[item]? = some block ∧
      (loadCfilters node.stored (bestHashes node.oracle (start.height + 1) count))[item]? = some filter) ↔
    Reached node shared best stop start block := by
  unfold bestHashes
  constructor
  · rintro ⟨item, filter, here, loaded⟩
    rw [getElem?_positionsFrom] at here
    obtain ⟨hash, listed, rfl⟩ := Option.map_eq_some_iff.mp here
    obtain ⟨bound, same, inside⟩ := (getElem?_bestHashesFrom count _ item hash).mp listed
    have within := (@le_stopAt_iff Work node shared best stop start (start.height + 1 + item)).mp (by omega)
    exact
      { above := by
          show start.height < start.height + 1 + item
          omega
        batch := within.1
        tip := within.2.1
        limit := within.2.2
        inChain := same
        before := by
          intro height above least
          change height ≤ start.height + 1 + item at least
          obtain ⟨index, rfl⟩ : ∃ index : Nat, height = start.height + 1 + index := ⟨(height - (start.height + 1)).toNat, by omega⟩
          have index_le : index ≤ item := by omega
          refine ⟨(inside index index_le).1, (inside index index_le).2, ?_⟩
          refine ((getElem?_loadCfilters _ item filter).mp loaded).2 index index_le _ ?_
          exact (getElem?_bestHashesFrom count _ index _).mpr ⟨by omega, rfl, fun other below => inside other (by omega)⟩ }
  · intro reached
    have above := reached.above
    have under := (@le_stopAt_iff Work node shared best stop start block.height).mpr ⟨reached.batch, reached.tip, reached.limit⟩
    obtain ⟨item, here⟩ : ∃ item : Nat, block.height = start.height + 1 + item := ⟨(block.height - (start.height + 1)).toNat, by omega⟩
    have listed (index : Nat) (below : index ≤ item) : (bestHashesFrom node.oracle count (start.height + 1))[index]? =
        some (node.oracle.bestBlock (start.height + 1 + index)) := by
      refine (getElem?_bestHashesFrom count _ index _).mpr ⟨by omega, rfl, fun other under => ?_⟩
      have known := reached.before (start.height + 1 + other) (by omega) (by omega)
      exact ⟨known.1, known.2.1⟩
    have known := reached.before block.height above le_rfl
    obtain ⟨filter, given⟩ := Option.ne_none_iff_exists'.mp known.2.2
    refine ⟨item, filter, ?_, ?_⟩
    · rw [getElem?_positionsFrom, listed item le_rfl, ← here, ← reached.inChain]
      rfl
    · refine (getElem?_loadCfilters _ item filter).mpr ⟨⟨_, listed item le_rfl, here ▸ given⟩, fun index below hash there => ?_⟩
      obtain rfl := Option.some.inj ((listed index below).symm.trans there)
      exact (reached.before (start.height + 1 + index) (by omega) (by omega)).2.2

end

/-- The filter of a block can be loaded and one of the elements that are still looked for is in it. -/
def Dirty (node : Node Work) (shared : Shared) (block : Position) : Prop :=
  ∃ filter, cfilter node.stored block.hash = some filter ∧ Matches node.siphash shared.matchCache shared.elements block filter

def Readable (node : Node Work) (block : Position) : Prop := ∀ filter, cfilter node.stored block.hash = some filter → filter.decompress ≠ none

section

variable {node : Node Work} {shared : Shared} {best : Position} {stop : Int} {start : Position}

theorem threads_pos : 0 < threads node shared := lt_min (by omega) (by omega)

theorem cfilter_of_loaded {height : Int} {blocks : List Hash} {item : Nat} {block : Position} {filter : GCS}
    (here : (positionsFrom height blocks)[item]? = some block) (loaded : (loadCfilters node.stored blocks)[item]? = some filter) :
    cfilter node.stored block.hash = some filter := by
  rw [getElem?_positionsFrom] at here
  obtain ⟨hash, listed, rfl⟩ := Option.map_eq_some_iff.mp here
  obtain ⟨other, also, given⟩ := ((getElem?_loadCfilters blocks item filter).mp loaded).1
  obtain rfl := Option.some.inj (listed.symm.trans also)
  exact given

theorem lt_loaded_iff {positions : List Position} {filters : List GCS} {item : Nat} :
    item < min (prehashData node shared positions).targets.length filters.length ↔
      ∃ block filter, positions[item]? = some block ∧ filters[item]? = some filter := by
  have length : (prehashData node shared positions).targets.length = positions.length := List.length_map _
  rw [length, lt_min_iff]
  constructor
  · rintro ⟨here, loaded⟩
    exact ⟨_, _, List.getElem?_eq_getElem here, List.getElem?_eq_getElem loaded⟩
  · rintro ⟨block, filter, here, loaded⟩
    exact ⟨(List.getElem?_eq_some_iff.mp here).1, (List.getElem?_eq_some_iff.mp loaded).1⟩

theorem jobs_pos {positions : List Position} (some_ : positions ≠ []) : 0 < (prehashData node shared positions).jobs := by
  refine lt_min threads_pos ?_
  show 0 < (positions.map _).length
  rw [List.length_map]
  exact List.length_pos_of_ne_nil some_

/-- What a test finds in a block. -/
theorem verdict_eq {positions : List Position} {filters : List GCS} {item : Nat} {block : Position} {filter : GCS}
    (here : positions[item]? = some block) (loaded : filters[item]? = some filter) (given : cfilter node.stored block.hash = some filter) :
    (¬ Readable node block ∧
      (prehashData node shared positions).verdict filters ((prehashData node shared positions).prepare node.siphash) item = none) ∨
    Readable node block ∧ ∃ count,
      (prehashData node shared positions).verdict filters ((prehashData node shared positions).prepare node.siphash) item = some (block, count) ∧
      (count ≠ 0 ↔ Dirty node shared block) := by
  have targeted : (prehashData node shared positions).targets[item]? = some (block, selectTargets shared.matchCache shared.elements block) := by
    show (targets shared positions)[item]? = _
    unfold targets
    rw [List.getElem?_map, here]
    rfl
  have positive : 0 < (prehashData node shared positions).jobs := by
    refine jobs_pos fun none_ => ?_
    rw [none_] at here
    cases here
  unfold PrehashData.verdict
  rw [targeted, loaded, Option.bind_some, Option.bind_some, PrehashData.prepare_eq positive node.siphash targeted]
  cases decompressed : filter.decompress with
  | none => exact .inl ⟨fun readable => readable filter given decompressed, by rw [matchBlock_none _ decompressed]; rfl⟩
  | some set =>
    obtain ⟨proto, _, built⟩ := Option.bind_eq_some_iff.mp given
    have sorted : set.Pairwise (· ≤ ·) := decompress_sorted (sorted_of_none (construct_spec _ _ _ _ _ _ filter built).2.2.2.2.2) decompressed
    obtain ⟨found, tested, among⟩ := @matchBlock_some filter set (node.siphash block.hash)
      (selectTargets shared.matchCache shared.elements block) decompressed sorted
    refine .inr ⟨fun other same => ?_, found.1, by rw [tested]; rfl, among.trans ?_⟩
    · obtain rfl := Option.some.inj (given.symm.trans same)
      rw [decompressed]
      exact Option.some_ne_none _
    · constructor
      · rintro ⟨kind, item, member, contained⟩
        obtain ⟨listed, unknown⟩ := (mem_selectTargets item).mp member
        exact ⟨filter, given, kind, item, listed, unknown, contained⟩
      · rintro ⟨other, same, kind, item, listed, unknown, contained⟩
        obtain rfl := Option.some.inj (given.symm.trans same)
        exact ⟨kind, item, (mem_selectTargets item).mpr ⟨listed, unknown⟩, contained⟩

/-- Where there are blocks to scan, those that are reached are tested, if all of these have filters that can be read. -/
theorem matchBlocks_spec {blocks : List Hash} (some_ : blocks ≠ [])
    (reached : ∀ block, (∃ (item : Nat) (filter : GCS), (positionsFrom (start.height + 1) blocks)[item]? = some block ∧
      (loadCfilters node.stored blocks)[item]? = some filter) ↔ Reached node shared best stop start block) :
    (∃ progress, matchBlocks node shared (start.height + 1) blocks = some progress ∧
      (∀ block, block ∈ progress.cache.clean ↔ Reached node shared best stop start block ∧ ¬ Dirty node shared block) ∧
      (∀ block, block ∈ progress.cache.dirty ↔ Reached node shared best stop start block ∧ Dirty node shared block) ∧
      (progress.cache.sizes.entries = [] ↔ ∀ block, ¬ Reached node shared best stop start block) ∧
      ∀ block, Reached node shared best stop start block → Readable node block) ∨
    (matchBlocks node shared (start.height + 1) blocks = none ∧ ∃ block, Reached node shared best stop start block ∧ ¬ Readable node block) := by
  have positive : 0 < (prehashData node shared (positionsFrom (start.height + 1) blocks)).jobs := by
    refine jobs_pos ?_
    obtain ⟨block, blocks, rfl⟩ := List.exists_cons_of_ne_nil some_
    exact List.cons_ne_nil _ _
  have loaded_iff (item : Nat) := @lt_loaded_iff Work node shared (positionsFrom (start.height + 1) blocks) (loadCfilters node.stored blocks) item
  have all := @PrehashData.matchAll_spec _ (loadCfilters node.stored blocks)
    ((prehashData node shared (positionsFrom (start.height + 1) blocks)).prepare node.siphash) positive
  rcases all (fun block => if block ∈ positionsFrom (start.height + 1) blocks then some {} else none)
    with ⟨progress, done, clean, dirty, sizes, readable⟩ | ⟨ended, item, below, unreadable⟩
  · -- Each block that is reached has its result, and each result is that of such a block.
    have result {item : Nat} {block : Position} {count : Nat}
        (below : item < min (prehashData node shared (positionsFrom (start.height + 1) blocks)).targets.length (loadCfilters node.stored blocks).length)
        (tested : (prehashData node shared (positionsFrom (start.height + 1) blocks)).verdict (loadCfilters node.stored blocks)
          ((prehashData node shared (positionsFrom (start.height + 1) blocks)).prepare node.siphash) item = some (block, count)) :
        Reached node shared best stop start block ∧ (count ≠ 0 ↔ Dirty node shared block) := by
      obtain ⟨other, filter, here, loaded⟩ := (loaded_iff item).mp below
      rcases verdict_eq here loaded (cfilter_of_loaded here loaded) with ⟨_, unreadable⟩ | ⟨_, number, found, matches_⟩
      · cases unreadable.symm.trans tested
      · obtain ⟨rfl, rfl⟩ := Prod.mk.inj (Option.some.inj (found.symm.trans tested))
        exact ⟨(reached other).mp ⟨item, filter, here, loaded⟩, matches_⟩
    have covered {block : Position} (member : Reached node shared best stop start block) : 
        ∃ item < min (prehashData node shared (positionsFrom (start.height + 1) blocks)).targets.length (loadCfilters node.stored blocks).length,
        Readable node block ∧ ∃ count,
        (prehashData node shared (positionsFrom (start.height + 1) blocks)).verdict (loadCfilters node.stored blocks)
          ((prehashData node shared (positionsFrom (start.height + 1) blocks)).prepare node.siphash) item = some (block, count) := by
      obtain ⟨item, filter, here, loaded⟩ := (reached block).mpr member
      have below := (loaded_iff item).mpr ⟨block, filter, here, loaded⟩
      rcases verdict_eq here loaded (cfilter_of_loaded here loaded) with ⟨_, unreadable⟩ | ⟨fine, count, found, _⟩
      · exact absurd unreadable (readable item below)
      · exact ⟨item, below, fine, count, found⟩
    refine .inl ⟨progress, done, fun block => ?_, fun block => ?_, sizes.trans ⟨fun none_ block member => ?_, fun none_ => ?_⟩, fun block member => ?_⟩
    · rw [clean]
      constructor
      · rintro ⟨item, below, tested⟩
        obtain ⟨member, matches_⟩ := result below tested
        exact ⟨member, fun inside => matches_.mpr inside rfl⟩
      · rintro ⟨member, outside⟩
        obtain ⟨item, below, _, count, tested⟩ := covered member
        have zero : count = 0 := not_ne_iff.mp fun more => outside ((result below tested).2.mp more)
        exact ⟨item, below, zero ▸ tested⟩
    · rw [dirty]
      constructor
      · rintro ⟨item, below, count, more, tested⟩
        obtain ⟨member, matches_⟩ := result below tested
        exact ⟨member, matches_.mp more⟩
      · rintro ⟨member, inside⟩
        obtain ⟨item, below, _, count, tested⟩ := covered member
        exact ⟨item, below, count, (result below tested).2.mpr inside, tested⟩
    · obtain ⟨item, below, _⟩ := covered member
      omega
    · by_contra more
      obtain ⟨block, filter, here, loaded⟩ := (loaded_iff 0).mp (Nat.pos_of_ne_zero more)
      exact none_ block ((reached block).mp ⟨0, filter, here, loaded⟩)
    · obtain ⟨item, _, fine, _⟩ := covered member
      exact fine
  · obtain ⟨block, filter, here, loaded⟩ := (loaded_iff item).mp below
    refine .inr ⟨ended, block, (reached block).mp ⟨item, filter, here, loaded⟩, ?_⟩
    rcases verdict_eq here loaded (cfilter_of_loaded here loaded) with ⟨wrong, _⟩ | ⟨_, count, found, _⟩
    · exact wrong
    · cases unreadable.symm.trans found

end

/-- What a scan step promises. -/
structure Complete (node : Node Work) (shared : Shared) (best : Position) (stop : Int) (start : Position) (outcome : Outcome) : Prop where
  tested : ∀ block, (block ∈ outcome.clean ∨ block ∈ outcome.dirty) ↔ Reached node shared best stop start block
  dirty : ∀ block, block ∈ outcome.out ↔ Reached node shared best stop start block ∧ Dirty node shared block
  highestTested : ((∀ block, ¬ Reached node shared best stop start block) ∧ outcome.highestTested = start) ∨
    IsGreatest {block | Reached node shared best stop start block} outcome.highestTested
  highestClean : ∀ block, outcome.highestClean = some block ↔
    IsGreatest {block | Reached node shared best stop start block ∧ ∀ other ∈ outcome.out, block < other} block

/-- There is a block to scan, and the filter of the first one is missing. -/
def FirstMissing (node : Node Work) (shared : Shared) (best : Position) (stop : Int) (start : Position) : Prop :=
  start.height + 1 ≤ stopAt node shared best stop (start.height + 1) ∧ start.height + 1 ≤ node.oracle.best.height ∧
    node.oracle.bestBlock (start.height + 1) ≠ nullHash ∧ cfilter node.stored (node.oracle.bestBlock (start.height + 1)) = none

section

variable {node : Node Work} {shared : Shared} {best : Position} {stop : Int} {start : Position}

theorem average_none {sizes : List Nat} : average (sizes.drop (sizes.length - cfilterSizeWindow)) = none ↔ sizes = [] := by
  unfold average
  rw [List.length_drop]
  constructor
  · intro none_
    by_contra some_
    have positive := List.length_pos_of_ne_nil some_
    rw [if_neg (by unfold cfilterSizeWindow; omega)] at none_
    cases none_
  · rintro rfl
    rfl

/-- Blocks to scan are there where the first one is. -/
theorem blocks_ne_nil_iff {count : Nat} : bestHashes node.oracle (start.height + 1) count ≠ [] ↔
    0 < count ∧ start.height + 1 ≤ node.oracle.best.height ∧ node.oracle.bestBlock (start.height + 1) ≠ nullHash := by
  have first (block : Hash) := @getElem?_bestHashesFrom Work node.oracle count (start.height + 1) 0 block
  rw [Int.natCast_zero, Int.add_zero] at first
  constructor
  · intro some_
    obtain ⟨block, blocks, same⟩ := List.exists_cons_of_ne_nil some_
    obtain ⟨positive, _, inside⟩ := (first block).mp (by rw [← bestHashes, same, List.getElem?_cons_zero])
    have known := inside 0 le_rfl
    rw [Int.natCast_zero, Int.add_zero] at known
    exact ⟨positive, known⟩
  · rintro ⟨positive, known⟩ none_
    have here := (first _).mpr ⟨positive, rfl, fun before least => by
      obtain rfl := Nat.le_zero.mp least
      rw [Int.natCast_zero, Int.add_zero]
      exact known⟩
    rw [← bestHashes, none_] at here
    cases here

/-- Where there are blocks to scan, none is reached only if the first filter is missing. -/
theorem firstMissing_iff (there : start.height + 1 ≤ stopAt node shared best stop (start.height + 1))
    (tip : start.height + 1 ≤ node.oracle.best.height) (some_ : node.oracle.bestBlock (start.height + 1) ≠ nullHash) :
    FirstMissing node shared best stop start ↔ ∀ block, ¬ Reached node shared best stop start block := by
  constructor
  · rintro ⟨_, _, _, missing⟩ block reached
    have above := reached.above
    exact (reached.before (start.height + 1) (by omega) (by omega)).2.2 missing
  · intro none_
    refine ⟨there, tip, some_, ?_⟩
    by_contra given
    obtain ⟨batch, best_, limit⟩ := le_stopAt_iff.mp there
    refine none_ ⟨start.height + 1, node.oracle.bestBlock (start.height + 1)⟩ ?_
    exact
      { above := Int.lt_succ start.height
        batch
        tip := best_
        limit
        inChain := rfl
        before := by
          intro height above least
          change height ≤ start.height + 1 at least
          obtain rfl : height = start.height + 1 := by omega
          exact ⟨tip, some_, given⟩ }

/-- A scan ends the program where it divides by the number of filters and there has been none, and where it
comes to a filter that cannot be read. Else it has no gaps. -/
theorem scan_complete_iff (rescan : Bool) :
    (∃ outcome, scan node shared rescan best stop start = some outcome ∧ Complete node shared best stop start outcome) ↔
      (rescan = true ∨ shared.filterSizes ≠ [] ∨ ¬ FirstMissing node shared best stop start) ∧
        ∀ block, Reached node shared best stop start block → Readable node block := by
  unfold scan
  dsimp only
  split
  · next nothing =>
    have none_ (block : Position) : ¬ Reached node shared best stop start block := by
      intro reached
      have above := reached.above
      have under := (@le_stopAt_iff Work node shared best stop start block.height).mpr ⟨reached.batch, reached.tip, reached.limit⟩
      refine nothing.elim (fun below => ?_) fun empty => ?_
      · omega
      · have known := reached.before (start.height + 1) (by omega) (by omega)
        exact blocks_ne_nil_iff.mpr ⟨by omega, known.1, known.2.1⟩ empty
    refine iff_of_true ⟨_, rfl, ?_⟩ ⟨.inr (.inr ?_), fun block reached => absurd reached (none_ block)⟩
    · exact
        { tested := fun block => iff_of_false (fun member => member.elim (Finset.notMem_empty block) (Finset.notMem_empty block)) (none_ block)
          dirty := fun block => iff_of_false List.not_mem_nil fun inside => none_ block inside.1
          highestTested := .inl ⟨none_, rfl⟩
          highestClean := fun block => iff_of_false (fun found => nomatch found) fun greatest => none_ block greatest.1.1 }
    · rintro ⟨there, tip, some_, _⟩
      refine nothing.elim (fun below => ?_) fun empty => ?_
      · omega
      · exact blocks_ne_nil_iff.mpr ⟨by omega, tip, some_⟩ empty
  · next something =>
    obtain ⟨there, some_⟩ := not_or.mp something
    obtain ⟨positive, tip, known⟩ := blocks_ne_nil_iff.mp some_
    rcases matchBlocks_spec some_ (@loaded_iff_reached Work node shared best stop start _ rfl)
      with ⟨progress, done, clean, dirty, sizes, readable⟩ | ⟨ended, block, reached, unreadable⟩
    · have complete (after : Shared) : Complete node shared best stop start
          { clean := progress.cache.clean, dirty := progress.cache.dirty,
            highestTested := (highestClean progress.cache.clean progress.cache.dirty start).1,
            highestClean := (highestClean progress.cache.clean progress.cache.dirty start).2,
            out := SortedList.ordered progress.cache.dirty, shared := after } := by
        have tested (block : Position) : (block ∈ progress.cache.clean ∨ block ∈ progress.cache.dirty) ↔ Reached node shared best stop start block := by
          rw [clean, dirty, ← and_or_left]
          exact and_iff_left (em' _)
        have apart : Disjoint progress.cache.clean progress.cache.dirty :=
          Finset.disjoint_left.mpr fun block one other => ((clean block).mp one).2 ((dirty block).mp other).2
        exact
          { tested
            dirty := fun block => (SortedList.mem_ordered _ block).trans (dirty block)
            highestTested := by
              rcases @highestTested_spec progress.cache.clean progress.cache.dirty start with ⟨noClean, noDirty, same⟩ | greatest
              · refine .inl ⟨fun block reached => ?_, same⟩
                rw [← tested, noClean, noDirty] at reached
                exact reached.elim (Finset.notMem_empty block) (Finset.notMem_empty block)
              · rw [Set.ext tested] at greatest
                exact .inr greatest
            highestClean := by
              intro block
              refine (highestClean_eq_some apart block).trans ?_
              refine Eq.to_iff (congrArg (IsGreatest · block) (Set.ext fun other => ?_))
              refine and_congr (tested other) (forall_congr' fun dirty => ?_)
              rw [SortedList.mem_ordered] }
      have missing : progress.cache.sizes.entries = [] ↔ FirstMissing node shared best stop start :=
        sizes.trans (firstMissing_iff (not_lt.mp there) tip known).symm
      rw [done, Option.bind_eq_bind, Option.bind_some]
      cases rescan with
      | true => exact iff_of_true ⟨_, rfl, complete _⟩ ⟨.inl rfl, readable⟩
      | false =>
        rw [if_neg Bool.false_ne_true, if_neg Bool.false_ne_true]
        have empty_iff : shared.filterSizes ++ progress.cache.sizes.entries.map Prod.snd = [] ↔
            shared.filterSizes = [] ∧ FirstMissing node shared best stop start := by
          rw [List.append_eq_nil_iff, List.map_eq_nil_iff, missing]
        cases moved : average _ with
        | none =>
          obtain ⟨fresh, absent⟩ := empty_iff.mp (average_none.mp moved)
          refine iff_of_false (fun ⟨_, found, _⟩ => nomatch found) fun inside => ?_
          exact (inside.1.resolve_left Bool.false_ne_true).elim (· fresh) (· absent)
        | some elements =>
          refine iff_of_true ⟨_, rfl, complete _⟩ ⟨.inr ?_, readable⟩
          by_contra both
          obtain ⟨fresh, absent⟩ := not_or.mp both
          have zero := average_none.mpr (empty_iff.mpr ⟨not_ne_iff.mp fresh, not_not.mp absent⟩)
          cases zero.symm.trans moved
    · rw [ended, Option.bind_eq_bind, Option.bind_none]
      exact iff_of_false (fun ⟨_, found, _⟩ => nomatch found) fun inside => unreadable (inside.2 block reached)

end

/-! ## The first filter of a new subchain -/

/-- One block after the genesis block. -/
def twoBlocks : Database Nat :=
  { HeaderOracle.Storage.initial ⟨1, 1, one_ne_null⟩ with
    rows := fun height => if height = 0 then 1 else if height = 1 then 2 else nullHash
    tipHeight := 1 }

/-- Its filter has not been stored, or cannot be loaded. -/
def withoutCfilter : Node Nat where
  oracle := twoBlocks
  stored _ := none
  siphash _ _ := 0
  maxJobs := 1
  batchEstimate := 25

theorem no_filter_divides_by_zero : ¬ ∀ (node : Node Nat) (shared : Shared) (rescan : Bool) (best : Position) (stop : Int) (start : Position),
    ∃ outcome, scan node shared rescan best stop start = some outcome ∧ Complete node shared best stop start outcome := by
  intro claim
  have ended : (scan withoutCfilter { elements := fun _ => [] } false ⟨1, 2⟩ maxHeight ⟨0, 1⟩).isSome = false := by decide +kernel
  obtain ⟨outcome, scanned, _⟩ := claim withoutCfilter { elements := fun _ => [] } false ⟨1, 2⟩ maxHeight ⟨0, 1⟩
  rw [scanned] at ended
  cases ended

end Opentxs.Subchain.ScanBatch
