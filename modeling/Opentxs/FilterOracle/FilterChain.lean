import Opentxs.FilterOracle.Linked

/-! The filter headers that are stored: each call goes on from the tip, one block after the other,
with headers that follow from each other. -/

namespace Opentxs.FilterOracle
open Library Library.Ordered HeaderOracle BlockHeader
open HeaderOracle.Storage (Database)
open Ancestors

namespace BlockIndexer

variable {Location Block Filter Cfheader Work : Type}
variable {chain : Chain Location Block Filter Cfheader} {indexer before after : BlockIndexer Location Filter Cfheader}
variable {tree : Branching Hash} {top tip : Position} {batch next : Batch Filter Cfheader} {row : Row Filter Cfheader}
variable {rows : List (Row Filter Cfheader)} {parent hash : Hash} {header cfheader : Cfheader}

/-- The rows are for blocks one above the other, the first one a child of the given block. Each
header is that of its own filter after the header of the parent block. -/
def RowsLinked (tree : Branching Hash) (chain : Chain Location Block Filter Cfheader) :
    (parent : Hash) → (header : Cfheader) → List (Row Filter Cfheader) → Prop
  | _, _, [] => True
  | parent, header, row :: rows =>
    tree.parent row.hash = parent ∧ tree.height row.hash = tree.height parent + 1 ∧
      chain.header row.cfilter header = some row.cfheader ∧ FilterOf chain row.hash row.cfilter ∧
      RowsLinked tree chain row.hash row.cfheader rows

def lastHash (parent : Hash) (rows : List (Row Filter Cfheader)) : Hash := (rows.getLast?.map Row.hash).getD parent

def lastHeader (header : Cfheader) (rows : List (Row Filter Cfheader)) : Cfheader := (rows.getLast?.map Row.cfheader).getD header

theorem lastHash_cons : lastHash parent (row :: rows) = lastHash row.hash rows := by
  unfold lastHash
  rw [List.getLast?_cons]
  cases rows.getLast? <;> rfl

theorem lastHeader_cons : lastHeader header (row :: rows) = lastHeader row.cfheader rows := by
  unfold lastHeader
  rw [List.getLast?_cons]
  cases rows.getLast? <;> rfl

theorem RowsLinked.concat : ∀ {rows : List (Row Filter Cfheader)} {parent : Hash} {header : Cfheader}, RowsLinked tree chain parent header rows →
    RowsLinked tree chain (lastHash parent rows) (lastHeader header rows) [row] → RowsLinked tree chain parent header (rows ++ [row]) := by
  intro rows
  induction rows with
  | nil => exact fun _ last => last
  | cons first rows ih =>
    rintro parent header ⟨child, level, follows, own, rest⟩ last
    rw [lastHash_cons, lastHeader_cons] at last
    exact ⟨child, level, follows, own, ih rest last⟩

/-! ## One job -/

/-- What a call has collected up to a job. Were it stored now, everything would be in order. -/
structure Collects (tree : Branching Hash) (chain : Chain Location Block Filter Cfheader) (top : Position) (parent : Hash)
    (header : Cfheader) (batch : Batch Filter Cfheader) (indexer : BlockIndexer Location Filter Cfheader) : Prop where
  order : InOrder tree chain (indexer.setTips batch) top
  linked : RowsLinked tree chain parent header batch.rows
  tip : batch.tip.hash = lastHash parent batch.rows
  value : indexer.values batch.next = some (lastHeader header batch.rows)

section FinishJob

variable [DecidableEq Cfheader] {height : Int} {job : Job Location Filter}

theorem finishJob_eq_some (done : before.finishJob chain height job batch = some (next, after)) :
    ∃ previous cfilter cfheader nextCheckpoint, before.values job.previousCfheader = some previous ∧ job.cfilter = some cfilter ∧
      chain.header cfilter previous = some cfheader ∧
      next = ⟨job.position, job.future, batch.rows ++ [⟨job.position.hash, cfheader, cfilter⟩]⟩ ∧
      after = { before with
        values := Function.update before.values job.future (some cfheader)
        cachedCfilterBytes := before.cachedCfilterBytes - cfilterBytes chain job
        nextCheckpoint
        work := Function.update before.work .finished ((before.work .finished).erase height) } := by
  obtain ⟨_, done⟩ := Option.ite_none_left_eq_some.mp done
  obtain ⟨previous, known, done⟩ := Option.bind_eq_some_iff.mp done
  obtain ⟨cfilter, filtered, done⟩ := Option.bind_eq_some_iff.mp done
  obtain ⟨cfheader, follows, done⟩ := Option.bind_eq_some_iff.mp done
  obtain ⟨nextCheckpoint, _, done⟩ := Option.bind_eq_some_iff.mp done
  cases done
  exact ⟨previous, cfilter, cfheader, nextCheckpoint, known, filtered, follows, rfl, rfl⟩

theorem find?_finished {work : Stage → WorkMap Location Filter} (single : Single work)
    (found : (work .finished).find? height = some job) (stage : Stage) (key : Int) :
    ((Function.update work .finished ((work .finished).erase height)) stage).find? key =
      if key = height then none else (work stage).find? key := by
  by_cases same : stage = .finished
  · rw [same, Function.update_self, OrderedMap.find?_erase]
  · rw [Function.update_of_ne same]
    split
    · next level => exact level ▸ single.other found same
    · rfl

theorem links_finished {work : Stage → WorkMap Location Filter} (single : Single work)
    (found : (work .finished).find? height = some job) (key : Int) :
    links (Function.update work .finished ((work .finished).erase height)) key = if key = height then none else links work key := by
  simp only [links, find?_finished single found]
  split
  · rfl
  · rfl

theorem Collects.finished (collects : Collects tree chain top parent header batch before)
    (found : (before.work .finished).find? height = some job) (level : height = batch.tip.height + 1)
    (done : before.finishJob chain height job batch = some (next, after)) : Collects tree chain top parent header next after := by
  obtain ⟨previous, cfilter, cfheader, nextCheckpoint, known, filtered, follows, rfl, rfl⟩ := finishJob_eq_some done
  have order := collects.order
  have here : links before.work (batch.tip.height + 1) = some job.toLink := level ▸ order.single.links_eq found
  have first : job.previousCfheader = batch.next := order.chained.first job.toLink here
  obtain ⟨_, _, at_height, on⟩ := order.within found
  have part (stage : Stage) (key : Int) (other : Job Location Filter)
      (there : ((Function.update before.work .finished ((before.work .finished).erase height)) stage).find? key = some other) :
      (before.work stage).find? key = some other := (Option.ite_none_left_eq_some.mp ((find?_finished order.single found stage key).symm.trans there)).2
  have child : tree.parent job.position.hash = batch.tip.hash :=
    order.chained.spans.parent_eq (show (links before.work (batch.tip.height + 1)).map Link.position = some job.position by rw [here]; rfl)
  have lower := order.chained.spans.tip_on.has.height
  rw [first, collects.value, Option.some.injEq] at known
  refine ⟨⟨order.single.part part, (order.chained.advance here cfheader).congr fun key => ?_, ⟨cfheader, ?_, ?_⟩,
    fun stage key other waits there => order.listed stage key other waits (part stage key other there),
    fun stage key other own there => order.filtered stage key other own (part stage key other there)⟩, ?_, ?_, ?_⟩
  · exact (links_finished order.single found key).trans (by rw [level]; rfl)
  · exact Function.update_self _ _ _
  · show storeRows (batch.rows ++ [_]) before.cfheaders job.position.hash = some cfheader
    rw [storeRows, List.foldl_append]
    exact Function.update_self _ _ _
  · refine collects.linked.concat ⟨child.trans collects.tip, ?_, known ▸ follows, order.filtered .finished height job cfilter found filtered, trivial⟩
    rw [← collects.tip]
    show tree.height job.position.hash = tree.height batch.tip.hash + 1
    rw [on.has.height, at_height, level, show tree.height batch.tip.hash = batch.tip.height from lower]
  · show job.position.hash = lastHash parent (batch.rows ++ [_])
    rw [lastHash, List.getLast?_concat]
    rfl
  · show Function.update before.values job.future (some cfheader) job.future = some (lastHeader header (batch.rows ++ [_]))
    rw [Function.update_self, lastHeader, List.getLast?_concat]
    rfl

theorem finishJob_downloader (done : before.finishJob chain height job batch = some (next, after)) :
    after.downloader = before.downloader ∧ (after.work .finished).entries = ((before.work .finished).erase height).entries := by
  obtain ⟨_, _, _, _, _, _, _, _, rfl⟩ := finishJob_eq_some done
  refine ⟨rfl, ?_⟩
  show ((Function.update before.work .finished ((before.work .finished).erase height)) .finished).entries = _
  rw [Function.update_self]

/-- The jobs that are left to be finished are those of the map. -/
theorem Collects.finishedEach (jobs : List (Int × Job Location Filter)) : ∀ {before : BlockIndexer Location Filter Cfheader}
    {batch : Batch Filter Cfheader}, (before.work .finished).entries = jobs → Collects tree chain top parent header batch before →
    finishEach chain jobs batch before = some (next, after) →
    Collects tree chain top parent header next after ∧ after.downloader = before.downloader := by
  induction jobs with
  | nil =>
    intro before batch _ collects done
    cases done
    exact ⟨collects, rfl⟩
  | cons entry jobs ih =>
    intro before batch whole collects done
    unfold finishEach at done
    obtain ⟨notBelow, done⟩ := Option.ite_none_left_eq_some.mp done
    split at done
    · obtain ⟨_, done⟩ := Option.ite_none_right_eq_some.mp done
      cases done
      exact ⟨collects, rfl⟩
    · next notAbove =>
      obtain ⟨⟨middle, rest⟩, finishes, done⟩ := Option.bind_eq_some_iff.mp done
      have found := (@OrderedMap.first?_eq_some _ _ _ (before.work .finished) entry.1 entry.2
        (by rw [OrderedMap.first?, whole]; rfl)).1
      have kept := collects.finished found (by omega) finishes
      obtain ⟨same, entries⟩ := finishJob_downloader finishes
      change (if calculationBatch ≤ middle.rows.length then some (middle, rest) else finishEach chain jobs middle rest) = some (next, after) at done
      split at done
      · cases done
        exact ⟨kept, same⟩
      · obtain ⟨last, downloader⟩ := ih (entries.trans (OrderedMap.entries_erase_first whole)) kept done
        exact ⟨last, downloader.trans same⟩

end FinishJob

/-! ## Runs -/

section Runs

variable [DecidableEq Cfheader] {cfheaders : Hash → Option Cfheader} {cfheaderTip cfilterTip : Position}
variable {start : BlockIndexer Location Filter Cfheader}

omit [DecidableEq Cfheader] in
theorem InOrder.collects (order : InOrder tree chain indexer top) : ∃ header, indexer.cfheaders indexer.tip.hash = some header ∧
    Collects tree chain top indexer.tip.hash header ⟨indexer.tip, indexer.cfheader, []⟩ indexer := by
  obtain ⟨header, value, known⟩ := order.stored
  exact ⟨header, known, order, trivial, rfl, value⟩

theorem Sound.calculated (sound : Sound tree chain before top) {saved : Bool} (done : before.calculateCfheaders chain saved = some after) :
    Sound tree chain after top := by
  obtain ⟨⟨batch, indexer⟩, stores, done⟩ := Option.bind_eq_some_iff.mp done
  obtain ⟨_, done⟩ := Option.ite_none_right_eq_some.mp done
  cases done
  obtain ⟨header, _, collects⟩ := sound.order.collects
  obtain ⟨kept, downloader⟩ := collects.finishedEach _ rfl stores
  exact ⟨by rw [show (indexer.setTips batch).downloader = before.downloader from downloader]; exact sound.tracks, kept.order⟩

/-- The header oracle shows one tree of blocks all along, whatever its best chain is. -/
def Shown (tree : Branching Hash) : Event Work Location → BlockIndexer Location Filter Cfheader → Prop
  | .queueBlocks oracle, _ => Shows tree oracle
  | _, _ => True

theorem Sound.stepped (sound : Sound tree chain before top) (genesis : chain.genesis = tree.root) {event : Event Work Location}
    (shown : Shown tree event before) (done : step chain event before = some after) : ∃ next, Sound tree chain after next := by
  cases event with
  | queueBlocks oracle => exact sound.queued shown genesis done
  | fetchBlocks =>
    cases done
    exact ⟨top, sound.fetchedEach _⟩
  | calculateCfilters slots =>
    cases done
    exact ⟨top, sound.startedEach _⟩
  | jobEnds height => exact ⟨top, sound.ended done⟩
  | findFinished => exact ⟨top, sound.settledEach _ done⟩
  | calculateCfheaders saved =>
    change (if before.ready then before.calculateCfheaders chain saved else some before) = some after at done
    split at done
    · exact ⟨top, sound.calculated done⟩
    · cases done
      exact ⟨top, sound⟩
  | update =>
    obtain ⟨downloader, updated, rfl⟩ := Option.map_eq_some_iff.mp done
    obtain ⟨same, updates, tracks⟩ := sound.tracks.updated
    rw [updated] at updates
    cases updates
    exact ⟨top, sound.withDownloader tracks⟩
  | blockReady blocks =>
    obtain ⟨⟨given, last⟩, ready, rfl⟩ := Option.map_eq_some_iff.mp done
    obtain ⟨_, gives⟩ := Option.ite_none_left_eq_some.mp ready
    exact ⟨top, sound.givenEach blocks gives⟩

omit [DecidableEq Cfheader] in
theorem sound_startup (has : Has tree cfilterTip) (started : startup chain cfheaders cfheaderTip cfilterTip = some start) :
    Sound tree chain start cfilterTip := by
  have kept := @inOrder_loaded _ _ _ _ chain _ _ _ _ has (fun _ _ => rfl) started
  obtain ⟨header, _, rfl⟩ := loadTip_eq_some started
  exact ⟨Downloader.Tracks.start has, kept.single, kept.chained, kept.stored, kept.listed, kept.filtered⟩

theorem sound_run (genesis : chain.genesis = tree.root) (has : Has tree cfilterTip)
    (started : startup chain cfheaders cfheaderTip cfilterTip = some start)
    (run : (@machine _ _ _ _ Work _ chain).Run (Shown tree) start indexer) : ∃ top, Sound tree chain indexer top :=
  @Machine.Run.keeps _ _ _ _ _ _ (fun indexer => ∃ top, Sound tree chain indexer top) run ⟨cfilterTip, sound_startup has started⟩
    fun _ _ _ ⟨_, sound⟩ shown stepped => sound.stepped genesis shown stepped

/-- Whatever is stored goes on from the tip, one block after the other, and no height is in two maps. -/
theorem filter_chain_linked (genesis : chain.genesis = tree.root) (has : Has tree cfilterTip)
    (started : startup chain cfheaders cfheaderTip cfilterTip = some start)
    (run : (@machine _ _ _ _ Work _ chain).Run (Shown tree) start indexer) :
    Single indexer.work ∧ ∀ batch after, indexer.storeCfilters chain = some (batch, after) →
      ∃ header, indexer.cfheaders indexer.tip.hash = some header ∧ RowsLinked tree chain indexer.tip.hash header batch.rows ∧
        batch.tip.hash = lastHash indexer.tip.hash batch.rows := by
  obtain ⟨top, sound⟩ := sound_run genesis has started run
  refine ⟨sound.order.single, fun batch after stores => ?_⟩
  obtain ⟨header, known, collects⟩ := sound.order.collects
  obtain ⟨kept, _⟩ := collects.finishedEach _ rfl stores
  exact ⟨header, known, kept.linked, kept.tip⟩

end Runs

/-! ## Two branches -/

/-- Over the block 1 the even numbers follow each other, and so do the odd ones. -/
def branchParent (hash : Nat) : Nat := if hash < 4 then 1 else hash - 2

def branchHeight (hash : Nat) : Int := if hash = 0 then -1 else (hash / 2 : Nat)

theorem branchHeight_eq {hash : Nat} (positive : hash ≠ 0) : branchHeight hash = (hash / 2 : Nat) := if_neg positive

theorem branchParent_ne_zero (hash : Nat) : branchParent hash ≠ 0 := by
  unfold branchParent
  split
  · exact Nat.one_ne_zero
  · omega

theorem branchHeight_parent (hash : Nat) (positive : 0 < branchHeight hash) : branchHeight (branchParent hash) = branchHeight hash - 1 := by
  have known : hash ≠ 0 := by
    rintro rfl
    exact absurd positive (by decide)
  rw [branchHeight_eq known] at positive ⊢
  rw [branchHeight_eq (branchParent_ne_zero hash)]
  unfold branchParent
  split
  · omega
  · omega

def twoBranches : Branching Nat where
  root := 1
  parent := branchParent
  height := branchHeight
  height_parent := branchHeight_parent
  eq_root := by
    intro hash zero
    unfold branchHeight at zero
    split at zero
    · exact absurd zero (by decide)
    · omega

def branchHeader (hash : Nat) : Header Nat where
  hash
  parentHash := if hash = 1 then 0 else branchParent hash
  work := 1
  height := (hash / 2 : Nat)
  status := .normal
  inheritStatus := .normal
  inheritWork := 0

def branchBlock (side height : Nat) : Nat := if height = 0 then 1 else 2 * height + side

/-- One of the branches, up to a height, is the best chain. -/
def branchOracle (side top : Nat) : Database Nat where
  headers := fun hash => if hash = 0 then none else some (branchHeader hash)
  rows := fun height => if height ≤ top then branchBlock side height.toNat else 0
  tipHeight := top
  checkpoint := {}
  disconnected := []
  siblings := []
  lastUpdate := .none

theorem branchBlock_half {side : Nat} (two : side ≤ 1) (height : Nat) : branchBlock side height ≠ 0 ∧ branchBlock side height / 2 = height := by
  unfold branchBlock
  split
  · omega
  · omega

theorem branchBlock_parent {side : Nat} (two : side ≤ 1) (height : Nat) :
    branchParent (branchBlock side (height + 1)) = branchBlock side height := by
  unfold branchParent branchBlock
  rw [if_neg (Nat.succ_ne_zero height)]
  split
  · split
    · rfl
    · omega
  · split
    · omega
    · omega

theorem branchOracle_row (side top : Nat) {height : Int} (nonneg : 0 ≤ height) (present : (branchOracle side top).bestBlock height ≠ 0) :
    height ≤ top ∧ (branchOracle side top).bestBlock height = branchBlock side height.toNat := by
  have row : (branchOracle side top).bestBlock height = if height ≤ top then branchBlock side height.toNat else 0 :=
    if_neg (not_lt.mpr nonneg)
  rw [row] at present ⊢
  split
  · next within => exact ⟨within, rfl⟩
  · next beyond => exact absurd (if_neg beyond) present

theorem branch_shows {side : Nat} (two : side ≤ 1) (top : Nat) : Shows twoBranches (branchOracle side top) where
  null := rfl
  header := by
    intro hash header found _
    obtain ⟨positive, same⟩ := Option.ite_none_left_eq_some.mp found
    cases same
    exact ⟨rfl, branchHeight_eq positive⟩
  parent := by
    intro hash header found above
    obtain ⟨positive, same⟩ := Option.ite_none_left_eq_some.mp found
    cases same
    have named : (branchHeader hash).parentHash = branchParent hash := if_neg fun one => by
      rw [one] at above
      exact absurd above (by decide)
    refine ⟨named, branchHeader (branchParent hash), ?_, Int.natCast_nonneg _⟩
    rw [named]
    exact if_neg (branchParent_ne_zero hash)
  first := by
    intro hash header found low
    obtain ⟨positive, same⟩ := Option.ite_none_left_eq_some.mp found
    cases same
    have one : hash = 1 := twoBranches.eq_root hash ((branchHeight_eq positive).trans low)
    rw [one]
    rfl
  row := by
    intro height nonneg present
    obtain ⟨_, same⟩ := branchOracle_row side top nonneg present
    obtain ⟨known, half⟩ := branchBlock_half two height.toNat
    rw [same]
    refine ⟨branchHeader (branchBlock side height.toNat), if_neg known, ?_⟩
    show ((branchBlock side height.toNat / 2 : Nat) : Int) = height
    rw [half]
    exact Int.toNat_of_nonneg nonneg
  linked := by
    intro height nonneg present
    obtain ⟨within, same⟩ := branchOracle_row side top (by omega) present
    have below : (branchOracle side top).bestBlock height = branchBlock side height.toNat :=
      (if_neg (not_lt.mpr nonneg)).trans (if_pos (by omega))
    rw [same, below, show (height + 1).toNat = height.toNat + 1 by omega]
    exact branchBlock_parent two height.toNat
  best := by
    obtain ⟨known, _⟩ := branchBlock_half two top
    have row : (branchOracle side top).rows (branchOracle side top).tipHeight = branchBlock side top := if_pos le_rfl
    have best : (branchOracle side top).best.hash = branchBlock side top := by
      rw [Database.best, row, if_neg (show ¬branchBlock side top = nullHash from known)]
    rw [best]
    exact ⟨branchHeader (branchBlock side top), if_neg known, Int.natCast_nonneg _⟩

/-- A block that is read is its own filter, and a header keeps the filters below it apart. -/
def branchChain : Chain Nat Nat Nat Nat where
  genesis := 1
  maxJobs := 4
  construct := fun hash location => if location = hash then some location else none
  processBlock := some
  header := fun cfilter previous => some (100 * previous + cfilter)
  size := fun _ => 1
  cfheaderAfter := fun _ => none
  cfheaderAt := fun _ => none

abbrev BranchIndexer := BlockIndexer Nat Nat Nat

abbrev branchMachine : Machine BranchIndexer (Event Nat Nat) := machine branchChain

def branchCfheaders (hash : Nat) : Option Nat := if hash = 1 then some 7 else none

def branchStart : Option BranchIndexer := startup branchChain branchCfheaders ⟨0, 1⟩ ⟨0, 1⟩

/-- Two blocks of the even branch are asked for and come in the wrong order, and one of them cannot
be read at first. -/
def twoBlocks : List (Event Nat Nat) :=
  [.queueBlocks (branchOracle 0 2), .fetchBlocks, .update, .blockReady [(4, 4), (2, 5)], .calculateCfilters 8, .jobEnds 2, .jobEnds 1,
    .findFinished, .update, .blockReady [(2, 2)], .calculateCfilters 8, .jobEnds 1, .findFinished]

theorem twoBlocks_shown (start : BranchIndexer) : branchMachine.Allows (Shown twoBranches) twoBlocks start := by
  refine Machine.allows_of_each twoBlocks start fun event member state => ?_
  simp only [twoBlocks, List.mem_cons, List.not_mem_nil, or_false] at member
  rcases member with rfl | rfl | rfl | rfl | rfl | rfl | rfl | rfl | rfl | rfl | rfl | rfl | rfl
  all_goals first | exact trivial | exact branch_shows (by decide) 2

def rowsStored (indexer : BranchIndexer) : Option (List (Nat × Nat × Nat)) :=
  (indexer.storeCfilters branchChain).map fun stored => stored.1.rows.map fun row => (row.hash, row.cfheader, row.cfilter)

theorem filter_chain_linked_sample : ∃ (indexer : BranchIndexer) (header : Nat) (rows : List (Row Nat Nat)),
    rowsStored indexer = some [(2, 702, 2), (4, 70204, 4)] ∧ Single indexer.work ∧
    RowsLinked twoBranches branchChain indexer.tip.hash header rows ∧
    rows.map (fun row => (row.hash, row.cfheader, row.cfilter)) = [(2, 702, 2), (4, 70204, 4)] := by
  have stored : (branchStart.bind (branchMachine.runs twoBlocks)).bind rowsStored = some [(2, 702, 2), (4, 70204, 4)] := by decide +kernel
  obtain ⟨indexer, ran, rows⟩ := Option.bind_eq_some_iff.mp stored
  obtain ⟨start, started, ran⟩ := Option.bind_eq_some_iff.mp ran
  obtain ⟨⟨batch, after⟩, stores, same⟩ := Option.map_eq_some_iff.mp rows
  have run := Machine.run_of_runs (twoBlocks_shown start) ran
  have tip : Has twoBranches ⟨0, 1⟩ := ⟨le_rfl, rfl⟩
  obtain ⟨single, linked⟩ := filter_chain_linked rfl tip started run
  obtain ⟨header, _, follows, _⟩ := linked batch after stores
  exact ⟨indexer, header, batch.rows, rows, single, follows, same⟩

end BlockIndexer

end Opentxs.FilterOracle
