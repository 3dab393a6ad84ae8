import Mathlib.Logic.Function.Basic
import Mathlib.Data.List.Nodup
import Opentxs.Library.Endian
import Opentxs.Library.Fitting
import Opentxs.Library.Machine

/-! The blocks that are kept in memory: the newest ones, as many as fit into the limit. -/

namespace Opentxs.BlockOracle.Caching
open Library Library.Endian

/-- An iterator of the list stands for the element that it was made for. -/
abbrev Iterator := Nat

abbrev CachedBlock := Option Bytes

inductive BlockLocation where
  | missing
  | persistent
  | cached
  deriving DecidableEq

def limit : Nat := 64 * 1024 * 1024

structure Cache (Hash : Type) where
  data : List (Iterator × Bytes) := []
  index : Hash → Option Iterator := fun _ => none
  reverse : Iterator → Option Hash := fun _ => none
  size : Nat := 0
  /-- The iterator of the next element. -/
  fresh : Iterator := 0

variable {Hash : Type} [DecidableEq Hash]

namespace Cache

variable (cache : Cache Hash)

def element (i : Iterator) : CachedBlock := (cache.data.find? (·.1 = i)).map Prod.snd

/-- The assertion fails where the iterator is indexed already. -/
def add (id : Hash) (bytes : Bytes) : Option (Cache Hash × CachedBlock) :=
  match cache.index id with
  | some i => some (cache, cache.element i)
  | none =>
    let i := cache.fresh
    if cache.reverse i ≠ none then none
    else some ({
      data := cache.data ++ [(i, bytes)]
      index := Function.update cache.index id (some i)
      reverse := Function.update cache.reverse i (some id)
      size := cache.size + bytes.length
      fresh := i + 1 }, some bytes)

def clear : Cache Hash := { cache with reverse := fun _ => none, index := fun _ => none, data := [] }

def load (id : Hash) : CachedBlock := (cache.index id).bind cache.element

/-- It aborts on an element that is not indexed. -/
def remove (i : Iterator) : Option (Cache Hash) := do
  let id ← cache.reverse i
  let bytes ← cache.element i
  some { cache with
    size := cache.size - bytes.length
    index := Function.update cache.index id none
    reverse := Function.update cache.reverse i none
    data := cache.data.eraseP (·.1 = i) }

end Cache

/-- The loop of a store, with the elements that the iterator has not passed. -/
def evict (cache : Cache Hash) : List (Iterator × Bytes) → Option (Cache Hash)
  | [] => some cache
  | (i, _) :: rest =>
    if cache.size > limit then (cache.remove i).bind fun smaller => evict smaller rest else some cache

def Cache.store (cache : Cache Hash) (id : Hash) (bytes : Bytes) : Option (Cache Hash × CachedBlock) := do
  let (more, out) ← cache.add id bytes
  let kept ← evict more more.data
  some (kept, out)

def badBlock (block : BlockLocation) (cache : Cache Hash) : Cache Hash :=
  match block with
  | .missing => cache
  | .persistent => cache
  | .cached => cache.clear

inductive Event (Hash : Type) where
  | store (id : Hash) (bytes : Bytes)
  | load (id : Hash)
  | clear
  | badBlock (block : BlockLocation)

def machine (Hash : Type) [DecidableEq Hash] : Machine (Cache Hash) (Event Hash) where
  step
    | .store id bytes, cache => (cache.store id bytes).map Prod.fst
    | .load _, cache => some cache
    | .clear, cache => some cache.clear
    | .badBlock block, cache => some (badBlock block cache)

/-! ## What is to be kept -/

/-- An element with the block it holds. -/
structure Entry (Hash : Type) where
  iterator : Iterator
  id : Hash
  bytes : Bytes

def Entry.block (entry : Entry Hash) : Hash × Bytes := (entry.id, entry.bytes)

def Entry.size (entry : Entry Hash) : Nat := entry.bytes.length

def blockSize (block : Hash × Bytes) : Nat := block.2.length

/-- The list, the index and the reverse index hold the same blocks. -/
structure Describes (cache : Cache Hash) (entries : List (Entry Hash)) : Prop where
  data : cache.data = entries.map fun entry => (entry.iterator, entry.bytes)
  iterators : (entries.map Entry.iterator).Nodup
  ids : (entries.map Entry.id).Nodup
  index : ∀ id i, cache.index id = some i ↔ ∃ entry ∈ entries, entry.id = id ∧ entry.iterator = i
  reverse : ∀ i id, cache.reverse i = some id ↔ ∃ entry ∈ entries, entry.iterator = i ∧ entry.id = id

def Clears : Event Hash → Prop
  | .clear => True
  | .badBlock block => block = .cached
  | _ => False

/-- The blocks stored since the last clearing, oldest first. One that is still held counts once. -/
def stored (past : List (Hash × Bytes)) : Event Hash → List (Hash × Bytes)
  | .store id bytes => if id ∈ (fitting blockSize limit past).map Prod.fst then past else past ++ [(id, bytes)]
  | .load _ => past
  | .clear => []
  | .badBlock block => if block = .cached then [] else past

def storedBy (events : List (Event Hash)) : List (Hash × Bytes) := events.foldl stored []

/-- After some events the size is that of the blocks, the three containers agree, and after a store the
newest blocks that fit are there. -/
def Right (events : List (Event Hash)) (cache : Cache Hash) : Prop :=
  ∃ entries, Describes cache entries ∧ cache.size = total Entry.size entries ∧
    ∀ before id bytes, events = before ++ [.store id bytes] →
      LongestFitting blockSize limit (storedBy events) (entries.map Entry.block)

/-! ## What the operations keep -/

def ClearsNothing (event : Event Hash) (cache : Cache Hash) : Prop := Clears event → cache.size = 0

/-- The invariant of the runs whose size is right. -/
structure Holds (cache : Cache Hash) (entries : List (Entry Hash)) : Prop extends Describes cache entries where
  below : ∀ entry ∈ entries, entry.iterator < cache.fresh
  size : cache.size = total Entry.size entries

variable {cache : Cache Hash} {entries rest : List (Entry Hash)} {entry : Entry Hash} {past : List (Hash × Bytes)}

theorem holds_empty (same : cache.data = []) (index : ∀ id, cache.index id = none) (reverse : ∀ i, cache.reverse i = none)
    (none : cache.size = 0) : Holds cache [] where
  data := same
  iterators := List.nodup_nil
  ids := List.nodup_nil
  index id i := by simp [index]
  reverse i id := by simp [reverse]
  below := List.forall_mem_nil _
  size := none

theorem Describes.index_none_iff (describes : Describes cache entries) (id : Hash) :
    cache.index id = none ↔ id ∉ entries.map Entry.id := by
  rw [Option.eq_none_iff_forall_ne_some]
  simp only [ne_eq, describes.index, List.mem_map]
  constructor
  · rintro absent ⟨entry, inside, same⟩
    exact absent entry.iterator ⟨entry, inside, same, rfl⟩
  · rintro absent _ ⟨entry, inside, same, _⟩
    exact absent ⟨entry, inside, same⟩

theorem Holds.reverse_fresh (holds : Holds cache entries) : cache.reverse cache.fresh = none := by
  rw [Option.eq_none_iff_forall_ne_some]
  intro id found
  obtain ⟨entry, inside, same, _⟩ := (holds.reverse _ id).mp found
  exact (holds.below entry inside).ne same

theorem Holds.remove (holds : Holds cache (entry :: rest)) : ∃ smaller, cache.remove entry.iterator = some smaller ∧ Holds smaller rest := by
  have named : cache.reverse entry.iterator = some entry.id := (holds.reverse _ _).mpr ⟨entry, List.mem_cons_self, rfl, rfl⟩
  have first : cache.data = (entry.iterator, entry.bytes) :: rest.map fun entry => (entry.iterator, entry.bytes) := holds.data
  have held : cache.element entry.iterator = some entry.bytes := by simp [Cache.element, first]
  have left : cache.data.eraseP (·.1 = entry.iterator) = rest.map fun entry => (entry.iterator, entry.bytes) := by simp [first]
  obtain ⟨iterator_apart, iterators⟩ := List.nodup_cons.mp holds.iterators
  obtain ⟨id_apart, ids⟩ := List.nodup_cons.mp holds.ids
  have other_id : ∀ later ∈ rest, later.id ≠ entry.id := fun later inside same => id_apart (same ▸ List.mem_map_of_mem inside)
  have other_iterator : ∀ later ∈ rest, later.iterator ≠ entry.iterator :=
    fun later inside same => iterator_apart (same ▸ List.mem_map_of_mem inside)
  have removed : cache.remove entry.iterator = some { cache with
      size := cache.size - entry.bytes.length
      index := Function.update cache.index entry.id none
      reverse := Function.update cache.reverse entry.iterator none
      data := cache.data.eraseP (·.1 = entry.iterator) } := by
    rw [Cache.remove, named]
    show (cache.element entry.iterator).bind _ = _
    rw [held]
    rfl
  refine ⟨_, removed, ⟨left, iterators, ids, fun id i => ?_, fun i id => ?_⟩,
    fun later inside => holds.below later (List.mem_cons_of_mem entry inside), ?_⟩
  · show Function.update cache.index entry.id none id = some i ↔ _
    by_cases same : id = entry.id
    · subst same
      rw [Function.update_self]
      refine iff_of_false (fun found => nomatch found) ?_
      rintro ⟨later, inside, again, _⟩
      exact other_id later inside again
    · rw [Function.update_of_ne same, holds.index, List.exists_mem_cons_iff]
      exact or_iff_right fun here => same here.1.symm
  · show Function.update cache.reverse entry.iterator none i = some id ↔ _
    by_cases same : i = entry.iterator
    · subst same
      rw [Function.update_self]
      refine iff_of_false (fun found => nomatch found) ?_
      rintro ⟨later, inside, again, _⟩
      exact other_iterator later inside again
    · rw [Function.update_of_ne same, holds.reverse, List.exists_mem_cons_iff]
      exact or_iff_right fun here => same here.1.symm
  · show cache.size - entry.bytes.length = total Entry.size rest
    rw [holds.size, total_cons]
    exact Nat.add_sub_cancel_left _ _

/-- The induction is on the elements that are left. -/
theorem Holds.evict (holds : Holds cache entries) :
    ∃ kept, Caching.evict cache cache.data = some kept ∧ Holds kept (fitting Entry.size limit entries) := by
  induction entries generalizing cache with
  | nil =>
    rw [holds.data]
    exact ⟨cache, rfl, holds⟩
  | cons entry rest ih =>
    have first : cache.data = (entry.iterator, entry.bytes) :: rest.map fun entry => (entry.iterator, entry.bytes) := holds.data
    rw [first, Caching.evict, holds.size]
    rcases Nat.lt_or_ge limit (total Entry.size (entry :: rest)) with heavy | fits
    · obtain ⟨smaller, removed, left⟩ := holds.remove
      obtain ⟨kept, evicted, right⟩ := ih left
      rw [if_pos heavy, removed, fitting_cons heavy]
      exact ⟨kept, left.data ▸ evicted, right⟩
    · rw [if_neg (Nat.not_lt.mpr fits), fitting_self fits]
      exact ⟨cache, rfl, holds⟩

theorem Holds.add_held (holds : Holds cache entries) {id : Hash} (bytes : Bytes) (held : id ∈ entries.map Entry.id) :
    ∃ out, cache.add id bytes = some (cache, out) := by
  obtain ⟨i, found⟩ := Option.ne_none_iff_exists'.mp (mt (holds.index_none_iff id).mp (not_not.mpr held))
  refine ⟨cache.element i, ?_⟩
  rw [Cache.add, found]

theorem Holds.add_new (holds : Holds cache entries) {id : Hash} (bytes : Bytes) (new : id ∉ entries.map Entry.id) :
    ∃ more out, cache.add id bytes = some (more, out) ∧ Holds more (entries ++ [⟨cache.fresh, id, bytes⟩]) := by
  have apart : ∀ entry ∈ entries, entry.iterator ≠ cache.fresh := fun entry inside => (holds.below entry inside).ne
  have other : ∀ entry ∈ entries, entry.id ≠ id := fun entry inside same => new (same ▸ List.mem_map_of_mem inside)
  have added : cache.add id bytes = some ({
      data := cache.data ++ [(cache.fresh, bytes)]
      index := Function.update cache.index id (some cache.fresh)
      reverse := Function.update cache.reverse cache.fresh (some id)
      size := cache.size + bytes.length
      fresh := cache.fresh + 1 }, some bytes) := by
    rw [Cache.add, (holds.index_none_iff id).mpr new]
    exact if_neg (not_not.mpr holds.reverse_fresh)
  refine ⟨_, _, added, ⟨?_, ?_, ?_, fun wanted i => ?_, fun i wanted => ?_⟩, fun entry inside => ?_, ?_⟩
  · show cache.data ++ _ = _
    rw [holds.data, List.map_append]
    rfl
  · rw [List.map_append, List.map_singleton, List.nodup_append_comm]
    refine List.nodup_cons.mpr ⟨fun inside => ?_, holds.iterators⟩
    obtain ⟨entry, member, same⟩ := List.mem_map.mp inside
    exact apart entry member same
  · rw [List.map_append, List.map_singleton, List.nodup_append_comm]
    exact List.nodup_cons.mpr ⟨new, holds.ids⟩
  · show Function.update cache.index id (some cache.fresh) wanted = some i ↔ _
    simp only [List.mem_append, List.mem_singleton, or_and_right, exists_or, exists_eq_left, ← holds.index]
    by_cases same : wanted = id
    · subst same
      rw [Function.update_self, (holds.index_none_iff wanted).mpr new]
      simp
    · rw [Function.update_of_ne same]
      exact (or_iff_left fun here => same here.1.symm).symm
  · show Function.update cache.reverse cache.fresh (some id) i = some wanted ↔ _
    simp only [List.mem_append, List.mem_singleton, or_and_right, exists_or, exists_eq_left, ← holds.reverse]
    by_cases same : i = cache.fresh
    · subst same
      rw [Function.update_self, holds.reverse_fresh]
      simp
    · rw [Function.update_of_ne same]
      exact (or_iff_left fun here => same here.1.symm).symm
  · rcases List.mem_append.mp inside with before | last
    · exact (holds.below entry before).trans (Nat.lt_succ_self _)
    · rw [List.mem_singleton.mp last]
      exact Nat.lt_succ_self _
  · show cache.size + bytes.length = _
    rw [holds.size, total_append]
    rfl

theorem total_block (entries : List (Entry Hash)) : total blockSize (entries.map Entry.block) = total Entry.size entries :=
  total_map Entry.block entries

theorem fitting_block (entries : List (Entry Hash)) :
    fitting blockSize limit (entries.map Entry.block) = (fitting Entry.size limit entries).map Entry.block :=
  fitting_map Entry.block entries

/-- The newest blocks that fit are there. -/
def Newest (past : List (Hash × Bytes)) (cache : Cache Hash) : Prop :=
  ∃ entries, Holds cache entries ∧ entries.map Entry.block = fitting blockSize limit past

theorem newest_store (newest : Newest past cache) (id : Hash) (bytes : Bytes) :
    ∃ kept out, cache.store id bytes = some (kept, out) ∧ Newest (stored past (.store id bytes)) kept := by
  obtain ⟨entries, holds, blocks⟩ := newest
  have ids : (fitting blockSize limit past).map Prod.fst = entries.map Entry.id := by
    rw [← blocks, List.map_map]
    rfl
  have light : total Entry.size entries ≤ limit :=
    calc total Entry.size entries = total blockSize (entries.map Entry.block) := (total_block entries).symm
      _ ≤ limit := blocks ▸ (longest_fitting past).fits
  show ∃ kept out, cache.store id bytes = some (kept, out) ∧
    Newest (if id ∈ (fitting blockSize limit past).map Prod.fst then past else past ++ [(id, bytes)]) kept
  rw [ids]
  split
  · next held =>
    obtain ⟨out, added⟩ := holds.add_held bytes held
    obtain ⟨kept, evicted, right⟩ := holds.evict
    rw [fitting_self light] at right
    refine ⟨kept, out, ?_, entries, right, blocks⟩
    show (cache.add id bytes).bind _ = _
    rw [added]
    show (evict cache cache.data).bind _ = _
    rw [evicted]
    rfl
  · next new =>
    obtain ⟨more, out, added, bigger⟩ := holds.add_new bytes new
    obtain ⟨kept, evicted, right⟩ := bigger.evict
    refine ⟨kept, out, ?_, _, right, ?_⟩
    · show (cache.add id bytes).bind _ = _
      rw [added]
      show (evict more more.data).bind _ = _
      rw [evicted]
      rfl
    · calc (fitting Entry.size limit _).map Entry.block
          = fitting blockSize limit ((entries ++ [Entry.mk cache.fresh id bytes]).map Entry.block) := (fitting_block _).symm
        _ = fitting blockSize limit (fitting blockSize limit past ++ [(id, bytes)]) := by rw [List.map_append, blocks]; rfl
        _ = fitting blockSize limit (past ++ [(id, bytes)]) := fitting_append past _

theorem newest_clear (none : cache.size = 0) : Newest [] cache.clear :=
  ⟨[], holds_empty rfl (fun _ => rfl) (fun _ => rfl) none, rfl⟩

theorem newest_step (event : Event Hash) (past : List (Hash × Bytes)) (cache : Cache Hash) (newest : Newest past cache)
    (nothing : ClearsNothing event cache) :
    ∃ next, (machine Hash).step event cache = some next ∧ Newest (stored past event) next := by
  cases event with
  | store id bytes =>
    obtain ⟨kept, out, same, right⟩ := newest_store newest id bytes
    exact ⟨kept, congrArg (Option.map Prod.fst) same, right⟩
  | load id => exact ⟨cache, rfl, newest⟩
  | clear => exact ⟨cache.clear, rfl, newest_clear (nothing trivial)⟩
  | badBlock block =>
    cases block with
    | missing => exact ⟨cache, rfl, newest⟩
    | persistent => exact ⟨cache, rfl, newest⟩
    | cached => exact ⟨cache.clear, rfl, newest_clear (nothing rfl)⟩

theorem newest_right {events : List (Event Hash)} (newest : Newest (storedBy events) cache) : Right events cache := by
  obtain ⟨entries, holds, blocks⟩ := newest
  refine ⟨entries, holds.toDescribes, holds.size, fun _ _ _ _ => ?_⟩
  rw [blocks]
  exact longest_fitting (storedBy events)

theorem newest_start : Newest [] ({} : Cache Hash) :=
  ⟨[], holds_empty rfl (fun _ => rfl) (fun _ => rfl) rfl, rfl⟩

/-- After a clearing nothing is there, whatever the size says. -/
theorem size_of_right_clear {events : List (Event Hash)} (right : Right events cache.clear) : cache.size = 0 := by
  obtain ⟨entries, describes, size, _⟩ := right
  have none : entries = [] := List.map_eq_nil_iff.mp describes.data.symm
  have same : cache.size = total Entry.size entries := size
  rw [same, none]
  rfl

theorem step_clears {event : Event Hash} (clears : Clears event) (cache : Cache Hash) :
    (machine Hash).step event cache = some cache.clear := by
  cases event with
  | store _ _ => exact clears.elim
  | load _ => exact clears.elim
  | clear => rfl
  | badBlock block =>
    obtain rfl : block = .cached := clears
    rfl

end Opentxs.BlockOracle.Caching
