import Opentxs.HeaderOracle.BlockHeader
import Opentxs.Library.Machine
import Opentxs.Library.SortedList

/-! The blocks that the block oracle has to download. They wait in a queue until a job takes
them, and come back to its front when the job ends without them. -/

namespace Opentxs.BlockOracle.Downloads
open Library Library.SortedList HeaderOracle.BlockHeader

abbrev JobID := Int

def invalidJob : JobID := -1

def batchSize (available peers most least : Nat) : Nat :=
  min most (min available (max least (available / max peers 1)))

/-- A job with the number of blocks it was given and those that it still has to bring. -/
structure Job where
  count : Nat
  remaining : Finset Hash
  deriving DecidableEq

structure Queue where
  peerTarget : Nat
  queue : List Hash := []
  pending : Finset Hash := ∅
  jobs : JobID → Option Job := fun _ => none
  blockToJob : Hash → Option JobID := fun _ => none

/-- How many blocks are available, and how many have not been received. -/
abbrev QueueData := Nat × Nat

structure Work where
  job : JobID
  hashes : List Hash
  jobs : Nat
  downloading : Nat
  deriving DecidableEq, Repr

namespace Queue

variable (queue : Queue)

def items : QueueData := (queue.queue.length, queue.pending.card)

def isQueued (hash : Hash) : Bool := hash ∈ queue.pending

def queueHash (hash : Hash) : Queue :=
  { queue with queue := queue.queue ++ [hash], pending := insert hash queue.pending }

def addHash (hash : Hash) : Queue := if queue.isQueued hash then queue else queue.queueHash hash

def add (blocks : List Hash) : Queue := blocks.foldl addHash queue

def setJob (id : JobID) (job : Option Job) : Queue :=
  { queue with jobs := fun other => if other = id then job else queue.jobs other }

def setBlock (hash : Hash) (job : Option JobID) : Queue :=
  { queue with blockToJob := fun other => if other = hash then job else queue.blockToJob other }

/-- A block that a job has not brought goes to the front. -/
def release (hash : Hash) : Queue :=
  { queue.setBlock hash none with queue := hash :: queue.queue }

def finish (id : JobID) : Queue :=
  match queue.jobs id with
  | none => queue
  | some job => ((ordered job.remaining).foldl release queue).setJob id none

/-- One block for a job. There has to be one, and no other job may have it. -/
def assign (id : JobID) : Option (Hash × Queue) :=
  match queue.queue, queue.jobs id with
  | hash :: rest, some job =>
    if queue.blockToJob hash = none then
      some (hash, { (queue.setJob id (some { job with remaining := insert hash job.remaining })).setBlock hash (some id) with
        queue := rest })
    else none
  | _, _ => none

def assignAll (id : JobID) : (count : Nat) → Queue → Option (List Hash × Queue)
  | 0, queue => some ([], queue)
  | count + 1, queue => do
    let (hash, taken) ← queue.assign id
    let (hashes, after) ← assignAll id count taken
    some (hash :: hashes, after)

def target : Nat := batchSize queue.queue.length queue.peerTarget 100 10

/-- Work for the next job, unless no block is available. The number of the job has to be new. -/
def getWork (nextJob : JobID) : Option (Work × Queue) :=
  if queue.target = 0 then some (⟨invalidJob, [], queue.items.1, queue.items.2⟩, queue)
  else if queue.jobs nextJob = none then do
    let (hashes, after) ← assignAll nextJob queue.target (queue.setJob nextJob (some ⟨queue.target, ∅⟩))
    some (⟨nextJob, hashes, after.items.1, queue.items.2⟩, after)
  else none

/-- The job that has the block, and the set of pending blocks, have to know it. -/
def removeFromJob (hash : Hash) : Option Queue :=
  match queue.blockToJob hash with
  | none => some queue
  | some id => do
    let job ← queue.jobs id
    if hash ∈ job.remaining ∧ hash ∈ queue.pending then
      some { (queue.setJob id (some { job with remaining := job.remaining.erase hash })).setBlock hash none with
        pending := queue.pending.erase hash }
    else none

def removeFromQueue (hash : Hash) : Queue :=
  if queue.isQueued hash then
    { queue with pending := queue.pending.erase hash, queue := queue.queue.filter (· ≠ hash) }
  else queue

def receive (block : Hash) : Option Queue := (queue.removeFromJob block).map (·.removeFromQueue block)

end Queue

/-! ## Runs -/

/-- The queue beside the counter that gives every job of the process its number. -/
structure System where
  counter : JobID := -1
  queue : Queue

def nextJob (system : System) : JobID := system.counter + 1

/-- Another queue may take a number as well. -/
inductive Event
  | add (blocks : List Hash)
  | getWork
  | receive (block : Hash)
  | finish (job : JobID)
  | otherJob
  deriving DecidableEq, Repr

def step : Event → System → Option System
  | .add blocks, system => some { system with queue := system.queue.add blocks }
  | .getWork, system => (system.queue.getWork (nextJob system)).map fun work =>
      { counter := if system.queue.target = 0 then system.counter else nextJob system, queue := work.2 }
  | .receive block, system => (system.queue.receive block).map fun queue => { system with queue := queue }
  | .finish job, system => some { system with queue := system.queue.finish job }
  | .otherJob, system => some { system with counter := nextJob system }

def machine : Machine System Event := ⟨step⟩

def start (peerTarget : Nat) : System := { queue := { peerTarget := peerTarget } }

/-! ## What holds all along -/

section

variable {queue : Queue} {wanted : Finset Hash} {id other : JobID} {hash block : Hash} {job : Option Job}

/-- The wanted blocks are those that are pending. Each is in the queue, or one job has it. -/
structure Kept (wanted : Finset Hash) (queue : Queue) : Prop where
  pending : queue.pending = wanted
  single : queue.queue.Nodup
  waiting : ∀ hash, hash ∈ queue.queue ↔ hash ∈ wanted ∧ queue.blockToJob hash = none
  assigned : ∀ hash id, queue.blockToJob hash = some id ↔ ∃ job, queue.jobs id = some job ∧ hash ∈ job.remaining
  known : ∀ hash id, queue.blockToJob hash = some id → hash ∈ wanted

namespace Queue

@[simp] theorem setJob_same : (queue.setJob id job).jobs id = job := if_pos rfl

theorem setJob_other (different : other ≠ id) : (queue.setJob id job).jobs other = queue.jobs other := if_neg different

theorem release_all (hashes : List Hash) : ∀ queue : Queue, hashes.foldl release queue =
    { queue with
      queue := hashes.reverse ++ queue.queue
      blockToJob := fun other => if other ∈ hashes then none else queue.blockToJob other } := by
  induction hashes with
  | nil => exact fun _ => rfl
  | cons hash hashes ih =>
    intro queue
    rw [List.foldl_cons, ih]
    show { queue with queue := _, blockToJob := _ } = { queue with queue := _, blockToJob := _ }
    congr 1
    · show hashes.reverse ++ hash :: queue.queue = (hash :: hashes).reverse ++ queue.queue
      rw [List.reverse_cons, List.append_assoc, List.singleton_append]
    · funext other
      show (if other ∈ hashes then none else if other = hash then none else queue.blockToJob other) = _
      by_cases later : other ∈ hashes
      · rw [if_pos later, if_pos (List.mem_cons_of_mem _ later)]
      · simp only [List.mem_cons, later, or_false, if_false]

end Queue

namespace Kept

variable (kept : Kept wanted queue)
include kept

theorem count (hash : Hash) : queue.queue.count hash = if hash ∈ queue.queue then 1 else 0 := by
  split
  case isTrue member => exact List.count_eq_one_of_mem kept.single member
  case isFalse absent => exact List.count_eq_zero.mpr absent

/-- One block is added at the end, if it is not pending. -/
theorem addHash : Kept (insert hash wanted) (queue.addHash hash) := by
  by_cases here : hash ∈ wanted
  · have queued : queue.isQueued hash = true := decide_eq_true (kept.pending ▸ here)
    rw [Queue.addHash, if_pos queued, Finset.insert_eq_of_mem here]
    exact kept
  · have free : queue.isQueued hash = false := decide_eq_false (kept.pending ▸ here)
    have unknown : queue.blockToJob hash = none := by
      cases found : queue.blockToJob hash with
      | none => rfl
      | some id => exact absurd (kept.known hash id found) here
    rw [Queue.addHash, free]
    constructor
    case pending => exact congrArg (insert hash) kept.pending
    case single =>
      refine List.nodup_append.mpr ⟨kept.single, List.nodup_singleton hash, fun first member second new => ?_⟩
      rintro rfl
      rw [List.mem_singleton.mp new] at member
      exact here ((kept.waiting hash).mp member).1
    case waiting =>
      intro other
      show other ∈ queue.queue ++ [hash] ↔ other ∈ insert hash wanted ∧ queue.blockToJob other = none
      rw [List.mem_append, kept.waiting, List.mem_singleton, Finset.mem_insert]
      constructor
      · rintro (⟨member, free⟩ | rfl)
        · exact ⟨.inr member, free⟩
        · exact ⟨.inl rfl, unknown⟩
      · rintro ⟨rfl | member, free⟩
        · exact .inr rfl
        · exact .inl ⟨member, free⟩
    case assigned => exact kept.assigned
    case known => exact fun other id found => Finset.mem_insert_of_mem (kept.known other id found)

theorem finish : Kept wanted (queue.finish id) := by
  cases found : queue.jobs id with
  | none =>
    rw [Queue.finish, found]
    exact kept
  | some job =>
    have here : ∀ hash, hash ∈ job.remaining ↔ queue.blockToJob hash = some id := by
      intro hash
      rw [kept.assigned, found]
      exact ⟨fun member => ⟨job, rfl, member⟩, fun ⟨_, same, member⟩ => Option.some.inj same ▸ member⟩
    rw [Queue.finish, found]
    dsimp only
    rw [Queue.release_all]
    constructor
    case pending => exact kept.pending
    case single =>
      refine List.nodup_append.mpr ⟨List.nodup_reverse.mpr (ordered_nodup _), kept.single, fun first back second member => ?_⟩
      rintro rfl
      have mine := (here first).mp ((mem_ordered _ _).mp (List.mem_reverse.mp back))
      rw [((kept.waiting first).mp member).2] at mine
      cases mine
    case waiting =>
      intro other
      show other ∈ (ordered job.remaining).reverse ++ queue.queue ↔
        other ∈ wanted ∧ (if other ∈ ordered job.remaining then none else queue.blockToJob other) = none
      rw [List.mem_append, List.mem_reverse, kept.waiting]
      by_cases mine : other ∈ ordered job.remaining
      · simp only [mine, true_or, if_true, and_true, true_iff]
        exact kept.known other id ((here other).mp ((mem_ordered _ _).mp mine))
      · simp only [mine, false_or, if_false]
    case assigned =>
      intro other another
      show (if other ∈ ordered job.remaining then none else queue.blockToJob other) = some another ↔
        ∃ entry, (if another = id then none else queue.jobs another) = some entry ∧ other ∈ entry.remaining
      by_cases mine : other ∈ ordered job.remaining
      · rw [if_pos mine]
        rw [mem_ordered] at mine
        refine ⟨fun none => (nomatch none), fun ⟨entry, entered, member⟩ => ?_⟩
        have unlike := (Option.ite_none_left_eq_some.mp entered)
        have both := (kept.assigned other another).mpr ⟨entry, unlike.2, member⟩
        rw [(here other).mp mine] at both
        exact absurd (Option.some.inj both).symm unlike.1
      · rw [if_neg mine, kept.assigned]
        rw [mem_ordered] at mine
        by_cases same : another = id
        · subst same
          rw [if_pos rfl, found]
          exact ⟨fun ⟨_, entered, member⟩ => absurd (Option.some.inj entered ▸ member) mine, fun ⟨_, absent, _⟩ => (nomatch absent)⟩
        · rw [if_neg same]
    case known =>
      intro other another entered
      exact kept.known other another (Option.ite_none_left_eq_some.mp entered).2

/-- A block goes from the front of the queue to a job. -/
theorem assign {rest : List Hash} {entry : Job} (front : queue.queue = hash :: rest) (found : queue.jobs id = some entry) :
    ∃ after, queue.assign id = some (hash, after) ∧ Kept wanted after ∧ after.queue = rest ∧
      (∃ later, after.jobs id = some later) ∧ ∀ other, other ≠ id → after.jobs other = queue.jobs other := by
  have member : hash ∈ queue.queue := front ▸ List.mem_cons_self
  obtain ⟨needed, free⟩ := (kept.waiting hash).mp member
  have unique := kept.single
  rw [front] at unique
  refine ⟨{ (queue.setJob id (some { entry with remaining := insert hash entry.remaining })).setBlock hash (some id) with
    queue := rest }, ?_, ⟨kept.pending, (List.nodup_cons.mp unique).2, ?_, ?_, ?_⟩, rfl, ⟨_, if_pos rfl⟩, fun other different => if_neg different⟩
  · rw [Queue.assign, front, found]
    exact if_pos free
  · intro other
    show other ∈ rest ↔ other ∈ wanted ∧ (if other = hash then some id else queue.blockToJob other) = none
    have before := kept.waiting other
    rw [front, List.mem_cons] at before
    by_cases same : other = hash
    · subst same
      rw [if_pos rfl]
      exact ⟨fun again => absurd again (List.nodup_cons.mp unique).1, fun ⟨_, absent⟩ => (nomatch absent)⟩
    · rw [if_neg same, ← before]
      exact ⟨.inr, fun either => either.resolve_left same⟩
  · intro other another
    show (if other = hash then some id else queue.blockToJob other) = some another ↔ ∃ job,
      (if another = id then some { entry with remaining := insert hash entry.remaining } else queue.jobs another) = some job ∧
        other ∈ job.remaining
    by_cases mine : another = id
    · subst mine
      rw [if_pos rfl]
      by_cases same : other = hash
      · subst same
        rw [if_pos rfl]
        exact ⟨fun _ => ⟨_, rfl, Finset.mem_insert_self _ _⟩, fun _ => rfl⟩
      · rw [if_neg same, kept.assigned, found]
        constructor
        · rintro ⟨_, ⟨⟩, among⟩
          exact ⟨_, rfl, Finset.mem_insert_of_mem among⟩
        · rintro ⟨_, ⟨⟩, among⟩
          exact ⟨_, rfl, Finset.mem_of_mem_insert_of_ne among same⟩
    · rw [if_neg mine, ← kept.assigned]
      by_cases same : other = hash
      · subst same
        rw [if_pos rfl, free]
        exact ⟨fun equal => absurd (Option.some.inj equal).symm mine, fun none => (nomatch none)⟩
      · rw [if_neg same]
  · intro other another entered
    by_cases same : other = hash
    · exact same ▸ needed
    · have before : (if other = hash then some id else queue.blockToJob other) = some another := entered
      rw [if_neg same] at before
      exact kept.known other another before
end Kept

/-- As many blocks as there are, in their order, can be given to a job. -/
theorem Kept.assignAll : ∀ {count : Nat} {queue : Queue} {entry : Job}, Kept wanted queue → queue.jobs id = some entry →
    count ≤ queue.queue.length →
    ∃ after, Queue.assignAll id count queue = some (queue.queue.take count, after) ∧ Kept wanted after ∧
      after.queue = queue.queue.drop count ∧ ∀ other, other ≠ id → after.jobs other = queue.jobs other := by
  intro count
  induction count with
  | zero => exact fun kept _ _ => ⟨_, rfl, kept, rfl, fun _ _ => rfl⟩
  | succ count ih =>
    intro queue entry kept found enough
    cases front : queue.queue with
    | nil =>
      rw [front] at enough
      exact absurd enough (Nat.not_succ_le_zero _)
    | cons hash rest =>
      obtain ⟨taken, assigned, still, shorter, ⟨later, entered⟩, others⟩ := kept.assign front found
      rw [front, List.length_cons] at enough
      obtain ⟨after, ran, last, dropped, apart⟩ := ih still entered (shorter ▸ Nat.le_of_succ_le_succ enough)
      refine ⟨after, ?_, last, ?_, fun other different => (apart other different).trans (others other different)⟩
      · rw [Queue.assignAll, assigned]
        show (Queue.assignAll id count taken).bind _ = _
        rw [ran, shorter]
        rfl
      · rw [dropped, shorter]
        rfl

theorem target_le (queue : Queue) : queue.target ≤ queue.queue.length := (min_le_right _ _).trans (min_le_left _ _)

/-- A job without blocks changes nothing. -/
theorem Kept.setJob (kept : Kept wanted queue) (new : queue.jobs id = none) (count : Nat) :
    Kept wanted (queue.setJob id (some ⟨count, ∅⟩)) := by
  refine { kept with assigned := fun hash other => ?_ }
  show queue.blockToJob hash = some other ↔
    ∃ job, (if other = id then some ⟨count, ∅⟩ else queue.jobs other) = some job ∧ hash ∈ job.remaining
  rw [kept.assigned]
  by_cases same : other = id
  · subst same
    rw [if_pos rfl, new]
    refine ⟨fun ⟨_, absent, _⟩ => (nomatch absent), fun ⟨job, entered, member⟩ => ?_⟩
    rw [← Option.some.inj entered] at member
    cases member
  · rw [if_neg same]

/-- The next job gets the blocks at the front of the queue. -/
theorem Kept.getWork (kept : Kept wanted queue) (new : queue.jobs id = none) :
    ∃ work after, queue.getWork id = some (work, after) ∧ Kept wanted after ∧ work.hashes = queue.queue.take queue.target ∧
      ∀ other, other ≠ id ∨ queue.target = 0 → after.jobs other = queue.jobs other := by
  by_cases none : queue.target = 0
  · refine ⟨_, queue, if_pos none, kept, ?_, fun _ _ => rfl⟩
    rw [none]
    rfl
  · obtain ⟨after, ran, still, _, others⟩ := @Kept.assignAll _ _ queue.target _ _ (kept.setJob new queue.target)
      Queue.setJob_same (target_le queue)
    refine ⟨⟨id, queue.queue.take queue.target, after.items.1, queue.items.2⟩, after, ?_, still, rfl, fun other apart => ?_⟩
    · rw [Queue.getWork, if_neg none, if_pos new]
      show (Queue.assignAll id queue.target _).bind _ = _
      rw [ran]
      rfl
    · have different := apart.resolve_right none
      exact (others other different).trans (Queue.setJob_other different)

/-- A block that has been received is neither in the queue nor with a job. -/
theorem Kept.receive (kept : Kept wanted queue) :
    ∃ after, queue.receive block = some after ∧ Kept (wanted.erase block) after ∧ ∀ other, queue.jobs other = none → after.jobs other = none := by
  cases found : queue.blockToJob block with
  | none =>
    have same : queue.removeFromJob block = some queue := by rw [Queue.removeFromJob, found]
    refine ⟨queue.removeFromQueue block, by rw [Queue.receive, same]; rfl, ?_, ?_⟩
    · by_cases here : block ∈ wanted
      · have queued : queue.isQueued block = true := decide_eq_true (kept.pending ▸ here)
        rw [Queue.removeFromQueue, if_pos queued]
        constructor
        case pending => exact congrArg (·.erase block) kept.pending
        case single => exact kept.single.filter _
        case waiting =>
          intro other
          rw [List.mem_filter, kept.waiting, Finset.mem_erase, decide_eq_true_iff]
          exact ⟨fun ⟨⟨member, free⟩, apart⟩ => ⟨⟨apart, member⟩, free⟩, fun ⟨⟨apart, member⟩, free⟩ => ⟨⟨member, free⟩, apart⟩⟩
        case assigned => exact kept.assigned
        case known =>
          refine fun other id entered => Finset.mem_erase.mpr ⟨?_, kept.known other id entered⟩
          rintro rfl
          rw [found] at entered
          cases entered
      · have free : queue.isQueued block = false := decide_eq_false (kept.pending ▸ here)
        rw [Queue.removeFromQueue, free, Finset.erase_eq_of_notMem here]
        exact kept
    · intro other none
      rw [Queue.removeFromQueue]
      split <;> exact none
  | some id =>
    obtain ⟨entry, entered, member⟩ := (kept.assigned block id).mp found
    have needed := kept.known block id found
    refine ⟨{ (queue.setJob id (some { entry with remaining := entry.remaining.erase block })).setBlock block none with
      pending := queue.pending.erase block }, ?_, ?_, ?_⟩
    · rw [Queue.receive, Queue.removeFromJob, found]
      dsimp only
      rw [entered]
      show Option.map _ (if _ then _ else _) = _
      rw [if_pos ⟨member, kept.pending ▸ needed⟩, Option.map_some, Queue.removeFromQueue]
      exact congrArg some (if_neg (by simp [Queue.isQueued]))
    · constructor
      case pending => exact congrArg (·.erase block) kept.pending
      case single => exact kept.single
      case waiting =>
        intro other
        show other ∈ queue.queue ↔ other ∈ wanted.erase block ∧ (if other = block then none else queue.blockToJob other) = none
        rw [kept.waiting, Finset.mem_erase]
        by_cases same : other = block
        · subst same
          rw [found]
          exact ⟨fun ⟨_, absent⟩ => (nomatch absent), fun ⟨⟨apart, _⟩, _⟩ => absurd rfl apart⟩
        · rw [if_neg same]
          exact ⟨fun ⟨member, free⟩ => ⟨⟨same, member⟩, free⟩, fun ⟨⟨_, member⟩, free⟩ => ⟨member, free⟩⟩
      case assigned =>
        intro other another
        show (if other = block then none else queue.blockToJob other) = some another ↔ ∃ job,
          (if another = id then some { entry with remaining := entry.remaining.erase block } else queue.jobs another) = some job ∧
            other ∈ job.remaining
        by_cases same : other = block
        · subst same
          rw [if_pos rfl]
          refine ⟨fun none => (nomatch none), fun ⟨job, held, among⟩ => ?_⟩
          by_cases mine : another = id
          · rw [if_pos mine] at held
            rw [← Option.some.inj held] at among
            exact absurd among (Finset.notMem_erase _ _)
          · rw [if_neg mine] at held
            have both := (kept.assigned other another).mpr ⟨job, held, among⟩
            rw [found] at both
            exact absurd (Option.some.inj both).symm mine
        · rw [if_neg same, kept.assigned]
          by_cases mine : another = id
          · subst mine
            rw [if_pos rfl, entered]
            constructor
            · rintro ⟨_, ⟨⟩, among⟩
              exact ⟨_, rfl, Finset.mem_erase.mpr ⟨same, among⟩⟩
            · rintro ⟨_, ⟨⟩, among⟩
              exact ⟨_, rfl, Finset.mem_of_mem_erase among⟩
          · rw [if_neg mine]
      case known =>
        intro other another held
        obtain ⟨apart, before⟩ := Option.ite_none_left_eq_some.mp held
        exact Finset.mem_erase.mpr ⟨apart, kept.known other another before⟩
    · intro other none
      show (if other = id then _ else queue.jobs other) = _
      by_cases mine : other = id
      · rw [mine, entered] at none
        cases none
      · rw [if_neg mine]
        exact none

/-! ## Every run -/

/-- The blocks that have been added and not received since. -/
def wantedAfter (wanted : Finset Hash) : Event → Finset Hash
  | .add blocks => wanted ∪ blocks.toFinset
  | .receive block => wanted.erase block
  | _ => wanted

/-- Where each wanted block is, and that no other block is anywhere. -/
structure Accounted (wanted : Finset Hash) (queue : Queue) : Prop where
  pending : queue.pending = wanted
  placed : ∀ hash ∈ wanted,
    queue.queue.count hash = 1 ∧ (∀ id job, queue.jobs id = some job → hash ∉ job.remaining) ∨
      queue.queue.count hash = 0 ∧ ∃! id, ∃ job, queue.jobs id = some job ∧ hash ∈ job.remaining
  absent : ∀ hash, hash ∉ wanted → hash ∉ queue.queue ∧ ∀ id job, queue.jobs id = some job → hash ∉ job.remaining
  assigned : ∀ hash id, queue.blockToJob hash = some id ↔ ∃ job, queue.jobs id = some job ∧ hash ∈ job.remaining

theorem Kept.accounted (kept : Kept wanted queue) : Accounted wanted queue := by
  refine ⟨kept.pending, fun hash needed => ?_, fun hash unneeded => ⟨fun member => ?_, fun id job found member => ?_⟩, kept.assigned⟩
  · rw [kept.count]
    cases free : queue.blockToJob hash with
    | none =>
      refine .inl ⟨if_pos ((kept.waiting hash).mpr ⟨needed, free⟩), fun id job found member => ?_⟩
      have taken := (kept.assigned hash id).mpr ⟨job, found, member⟩
      rw [free] at taken
      cases taken
    | some id =>
      refine .inr ⟨if_neg fun member => ?_, id, (kept.assigned hash id).mp free, fun other held => ?_⟩
      · rw [((kept.waiting hash).mp member).2] at free
        cases free
      · have taken := (kept.assigned hash other).mpr held
        rw [free] at taken
        exact (Option.some.inj taken).symm
  · exact unneeded ((kept.waiting hash).mp member).1
  · exact unneeded (kept.known hash id ((kept.assigned hash id).mpr ⟨job, found, member⟩))

theorem Kept.add (kept : Kept wanted queue) (blocks : List Hash) : Kept (wanted ∪ blocks.toFinset) (queue.add blocks) := by
  induction blocks generalizing queue wanted with
  | nil =>
    rw [List.toFinset_nil, Finset.union_empty]
    exact kept
  | cons hash blocks ih =>
    have added : Kept (insert hash wanted) (queue.addHash hash) := kept.addHash
    have rest := ih added
    rwa [Finset.insert_union, ← Finset.union_insert, ← List.toFinset_cons] at rest

theorem addHash_jobs (queue : Queue) (hash : Hash) : (queue.addHash hash).jobs = queue.jobs := by
  rw [Queue.addHash]
  split <;> rfl

theorem add_jobs (blocks : List Hash) : ∀ queue : Queue, (queue.add blocks).jobs = queue.jobs := by
  induction blocks with
  | nil => exact fun _ => rfl
  | cons hash blocks ih => exact fun queue => (ih _).trans (addHash_jobs queue hash)

theorem finish_jobs (none : queue.jobs other = none) : (queue.finish id).jobs other = Option.none := by
  rw [Queue.finish]
  cases found : queue.jobs id with
  | none => exact none
  | some job =>
    dsimp only
    rw [Queue.release_all]
    by_cases same : other = id
    · subst same
      exact Queue.setJob_same
    · exact (Queue.setJob_other same).trans none

/-- The numbers of all jobs have been given out. -/
structure Sound (wanted : Finset Hash) (system : System) : Prop where
  kept : Kept wanted system.queue
  numbered : ∀ id, system.counter < id → system.queue.jobs id = none

theorem Sound.step {system : System} (sound : Sound wanted system) (event : Event) :
    ∃ next, machine.step event system = some next ∧ Sound (wantedAfter wanted event) next := by
  have next : system.counter < nextJob system := Int.lt_succ _
  cases event with
  | add blocks =>
    refine ⟨_, rfl, sound.kept.add blocks, fun id high => ?_⟩
    rw [add_jobs]
    exact sound.numbered id high
  | getWork =>
    obtain ⟨work, after, ran, kept, _, others⟩ := sound.kept.getWork (sound.numbered _ next)
    refine ⟨_, congrArg (Option.map _) ran, kept, fun id high => ?_⟩
    have high : (if system.queue.target = 0 then system.counter else nextJob system) < id := high
    split at high
    case isTrue none => exact (others id (.inr none)).trans (sound.numbered id high)
    case isFalse => exact (others id (.inl high.ne')).trans (sound.numbered id (next.trans high))
  | receive block =>
    obtain ⟨after, ran, kept, none⟩ := @Kept.receive _ _ block sound.kept
    exact ⟨_, congrArg (Option.map _) ran, kept, fun id high => none id (sound.numbered id high)⟩
  | finish job => exact ⟨_, rfl, sound.kept.finish, fun id high => finish_jobs (sound.numbered id high)⟩
  | otherJob => exact ⟨_, rfl, sound.kept, fun id high => sound.numbered id (next.trans high)⟩

theorem start_sound (peerTarget : Nat) : Sound ∅ (start peerTarget) where
  kept :=
    { pending := rfl
      single := List.nodup_nil
      waiting := fun _ => ⟨fun member => (nomatch member), fun ⟨member, _⟩ => (nomatch member)⟩
      assigned := fun _ _ => ⟨fun absent => (nomatch absent), fun ⟨_, absent, _⟩ => (nomatch absent)⟩
      known := fun _ _ absent => (nomatch absent) }
  numbered := fun _ _ => rfl

example : ((machine.runs [.add [7, 8], .getWork, .receive 8, .finish 0, .add [8, 7]] (start 4)).map fun system => system.queue.queue) =
    some [7, 8] := by decide +kernel

end

end Opentxs.BlockOracle.Downloads
