import Opentxs.FilterOracle.FilterChain

/-! Blocks that come when nobody waits for them any more: the downloader leaves them, the indexer
stops or gives them to another job. -/

namespace Opentxs.FilterOracle
open Library Library.Ordered HeaderOracle BlockHeader
open HeaderOracle.Storage (Database)
open Ancestors

namespace BlockIndexer

variable {Location Block Filter Cfheader Work : Type}
variable {chain : Chain Location Block Filter Cfheader} {indexer before after : BlockIndexer Location Filter Cfheader}
variable {tree : Branching Hash} {top : Position}

/-- A message names blocks that were asked for at some time. -/
def Requested : Event Work Location → BlockIndexer Location Filter Cfheader → Prop
  | .blockReady blocks, indexer => blocks ≠ [] ∧ ∀ block ∈ blocks, block.1 ∈ indexer.requested
  | _, _ => True

/-- Neither a message nor an update stops the process, and each job is given its own block. -/
def Unstopped : Event Work Location → BlockIndexer Location Filter Cfheader → Prop
  | .blockReady blocks, indexer => ∃ result ∈ indexer.processBlockReady blocks, ∀ pair ∈ result.1, pair.1 = pair.2
  | .update, indexer => indexer.downloader.update.isSome = true
  | _, _ => True

/-- A job is waiting for the block. -/
def Awaits (indexer : BlockIndexer Location Filter Cfheader) (hash : Hash) : Prop :=
  ∃ entry ∈ (indexer.work .downloading).entries, entry.2.position.hash = hash

/-- A message names no block twice, and only blocks that a job is waiting for. -/
def Awaited : Event Work Location → BlockIndexer Location Filter Cfheader → Prop
  | .blockReady blocks, indexer => (blocks.map Prod.fst).Nodup ∧ ∀ block ∈ blocks, indexer.Awaits block.1
  | _, _ => True

theorem awaits_iff (hash : Hash) :
    indexer.Awaits hash ↔ ∃ height job, (indexer.work .downloading).find? height = some job ∧ job.position.hash = hash := by
  constructor
  · rintro ⟨⟨height, job⟩, member, same⟩
    exact ⟨height, job, (OrderedMap.find?_eq_some _ height job).mpr member, same⟩
  · rintro ⟨height, job, found, same⟩
    exact ⟨(height, job), (OrderedMap.find?_eq_some _ height job).mp found, same⟩

/-! ## One block -/

/-- A job that waits for the block is the one that gets it. -/
theorem InOrder.giveBlock_awaited (order : InOrder tree chain indexer top) {hash : Hash} (awaits : indexer.Awaits hash) (block : Location) :
    ∃ after, indexer.giveBlock hash block = some (hash, after) := by
  obtain ⟨height, job, found, rfl⟩ := (awaits_iff hash).mp awaits
  have listed := order.listed .downloading height job (.inr rfl) found
  unfold giveBlock
  rw [listed]
  simp only [found]
  exact ⟨_, rfl⟩

theorem awaits_of_giveBlock {hash : Hash} {block : Location} (done : before.giveBlock hash block = some (hash, after)) :
    before.Awaits hash := by
  obtain ⟨height, job, _, found, same, _⟩ := giveBlock_eq_some done
  exact (awaits_iff hash).mpr ⟨height, job, found, same.symm⟩

/-- The other jobs go on waiting. -/
theorem InOrder.awaits_after (order : InOrder tree chain before top) {hash : Hash} {block : Location}
    (done : before.giveBlock hash block = some (hash, after)) (other : Hash) :
    after.Awaits other ↔ other ≠ hash ∧ before.Awaits other := by
  obtain ⟨height, job, _, found, same, rfl⟩ := giveBlock_eq_some done
  rw [awaits_iff, awaits_iff]
  have moved (key : Int) : ((move .downloading .processing height { job with block := some block, state := .downloaded } before.work)
      .downloading).find? key = if key = height then none else (before.work .downloading).find? key := by
    rw [find?_move order.single found]
    rfl
  simp only [moved]
  constructor
  · rintro ⟨key, twin, there, rfl⟩
    obtain ⟨apart, there⟩ := Option.ite_none_left_eq_some.mp there
    exact ⟨fun equal => apart (order.height_eq there found (equal.trans same)), key, twin, there, rfl⟩
  · rintro ⟨apart, key, twin, there, rfl⟩
    refine ⟨key, twin, ?_, rfl⟩
    rw [if_neg]
    · exact there
    · rintro rfl
      rw [found] at there
      cases there
      exact apart same.symm

/-! ## Messages -/

/-- Every block of a message is given to its own job exactly if each is named once and awaited. -/
theorem Sound.giveEach_iff (blocks : List (Hash × Location)) : ∀ {indexer : BlockIndexer Location Filter Cfheader},
    Sound tree chain indexer top → ((∃ result ∈ giveEach blocks indexer, ∀ pair ∈ result.1, pair.1 = pair.2) ↔
      (blocks.map Prod.fst).Nodup ∧ ∀ block ∈ blocks, indexer.Awaits block.1) := by
  induction blocks with
  | nil =>
    intro indexer _
    exact ⟨fun _ => ⟨List.nodup_nil, fun _ member => (nomatch member)⟩, fun _ => ⟨([], indexer), rfl, fun _ member => (nomatch member)⟩⟩
  | cons block blocks ih =>
    intro indexer sound
    rw [List.map_cons, List.nodup_cons, List.forall_mem_cons]
    constructor
    · rintro ⟨result, done, own⟩
      obtain ⟨⟨asked, next⟩, gives, done⟩ := Option.bind_eq_some_iff.mp done
      obtain ⟨⟨_, downloader⟩, receives, done⟩ := Option.bind_eq_some_iff.mp done
      obtain ⟨⟨given, last⟩, more, done⟩ := Option.bind_eq_some_iff.mp done
      cases done
      obtain ⟨same, rest⟩ := List.forall_mem_cons.mp own
      change asked = block.1 at same
      subst same
      have kept := sound.given gives
      obtain ⟨received, again, tracks⟩ := kept.tracks.received block.1 block.2
      rw [receives] at again
      cases again
      obtain ⟨nodup, awaited⟩ := (ih (kept.withDownloader tracks)).mp ⟨_, more, rest⟩
      have later := fun other => sound.order.awaits_after gives other
      refine ⟨⟨fun member => ?_, nodup⟩, awaits_of_giveBlock gives, fun other member => ((later other.1).mp (awaited other member)).2⟩
      obtain ⟨twin, inside, same⟩ := List.mem_map.mp member
      exact ((later twin.1).mp (awaited twin inside)).1 same
    · rintro ⟨⟨once, nodup⟩, awaits, awaited⟩
      obtain ⟨next, gives⟩ := sound.order.giveBlock_awaited awaits block.2
      have kept := sound.given gives
      obtain ⟨⟨taken, downloader⟩, receives, tracks⟩ := kept.tracks.received block.1 block.2
      obtain ⟨⟨given, last⟩, more, rest⟩ := (ih (kept.withDownloader tracks)).mpr ⟨nodup, fun other member =>
        (sound.order.awaits_after gives other.1).mpr ⟨fun same => once (same ▸ List.mem_map_of_mem member), awaited other member⟩⟩
      refine ⟨((block.1, block.1) :: given, last), ?_, List.forall_mem_cons.mpr ⟨rfl, rest⟩⟩
      show giveEach (block :: blocks) indexer = some _
      unfold giveEach
      simp only [gives, receives, Option.bind_eq_bind, Option.bind_some]
      rw [show giveEach blocks { next with downloader } = some (given, last) from more]
      rfl

/-- An update never stops the process, and a message does not exactly if its blocks are awaited. -/
theorem Sound.unstopped_iff (sound : Sound tree chain indexer top) {event : Event Work Location} (requested : Requested event indexer) :
    Unstopped event indexer ↔ Awaited event indexer := by
  cases event with
  | blockReady blocks =>
    show (∃ result ∈ indexer.processBlockReady blocks, ∀ pair ∈ result.1, pair.1 = pair.2) ↔ _
    rw [processBlockReady, if_neg requested.1]
    exact sound.giveEach_iff blocks
  | update =>
    obtain ⟨after, updated, _⟩ := sound.tracks.updated
    exact ⟨fun _ => trivial, fun _ => by show indexer.downloader.update.isSome = true; rw [updated]; rfl⟩
  | queueBlocks => exact Iff.rfl
  | fetchBlocks => exact Iff.rfl
  | calculateCfilters => exact Iff.rfl
  | jobEnds => exact Iff.rfl
  | findFinished => exact Iff.rfl
  | calculateCfheaders => exact Iff.rfl

/-- A run in which blocks that were asked for come at any time is not stopped by them exactly if a job
is waiting for each of them. -/
theorem deliveries_safe_iff [DecidableEq Cfheader] {cfheaders : Hash → Option Cfheader} {cfheaderTip cfilterTip : Position}
    {start : BlockIndexer Location Filter Cfheader} {events : List (Event Work Location)} (genesis : chain.genesis = tree.root)
    (has : Has tree cfilterTip) (started : startup chain cfheaders cfheaderTip cfilterTip = some start)
    (shown : (machine chain).Allows (Shown tree) events start) (requested : (machine chain).Allows Requested events start) :
    (machine chain).Allows Unstopped events start ↔ (machine chain).Allows Awaited events start := by
  refine @Machine.allows_iff _ _ _ (fun event state => Shown tree event state ∧ Requested event state) _ _
    (fun indexer => ∃ top, Sound tree chain indexer top) ?_ ?_ events start ⟨cfilterTip, sound_startup has started⟩ ?_
  · rintro event indexer ⟨_, sound⟩ ⟨_, requested⟩
    exact sound.unstopped_iff requested
  · rintro event before after ⟨_, sound⟩ ⟨shown, _⟩ stepped
    exact sound.stepped genesis shown stepped
  · exact Machine.allows_and shown requested

/-! ## Late blocks -/

instance (event : Event Work Location) (indexer : BlockIndexer Location Filter Cfheader) : Decidable (Requested event indexer) :=
  match event with
  | .blockReady blocks => inferInstanceAs (Decidable (blocks ≠ [] ∧ ∀ block ∈ blocks, block.1 ∈ indexer.requested))
  | .queueBlocks _ | .fetchBlocks | .calculateCfilters _ | .jobEnds _ | .findFinished | .calculateCfheaders _ | .update => isTrue trivial

instance (event : Event Work Location) (indexer : BlockIndexer Location Filter Cfheader) : Decidable (Awaited event indexer) :=
  match event with
  | .blockReady blocks => inferInstanceAs (Decidable ((blocks.map Prod.fst).Nodup ∧
      ∀ block ∈ blocks, ∃ entry ∈ (indexer.work .downloading).entries, entry.2.position.hash = block.1))
  | .queueBlocks _ | .fetchBlocks | .calculateCfilters _ | .jobEnds _ | .findFinished | .calculateCfheaders _ | .update => isTrue trivial

instance (event : Event Work Location) (indexer : BlockIndexer Location Filter Cfheader) : Decidable (Unstopped event indexer) :=
  match event with
  | .blockReady blocks => inferInstanceAs (Decidable (∃ result ∈ indexer.processBlockReady blocks, ∀ pair ∈ result.1, pair.1 = pair.2))
  | .update => inferInstanceAs (Decidable (indexer.downloader.update.isSome = true))
  | .queueBlocks _ | .fetchBlocks | .calculateCfilters _ | .jobEnds _ | .findFinished | .calculateCfheaders _ => isTrue trivial

theorem deliveries_safe_sample : ∃ start ∈ branchStart, branchMachine.Allows Unstopped twoBlocks start := by
  have awaited : ∃ start ∈ branchStart, branchMachine.Allows Requested twoBlocks start ∧ branchMachine.Allows Awaited twoBlocks start := by
    decide +kernel
  obtain ⟨start, started, requested, awaited⟩ := awaited
  have tip : Has twoBranches ⟨0, 1⟩ := ⟨le_rfl, rfl⟩
  exact ⟨start, started, (deliveries_safe_iff rfl tip started (twoBlocks_shown start) requested).mpr awaited⟩

/-- Block 2 is asked for, and after a reorg block 3 at the same height. Then both of them come. -/
def lateBlock : List (Event Nat Nat) :=
  [.queueBlocks (branchOracle 0 1), .fetchBlocks, .update, .queueBlocks (branchOracle 1 1), .fetchBlocks, .update,
    .blockReady [(2, 2)], .blockReady [(3, 3)]]

/-- The late block is given to the job of the other one, and that one stops the process. -/
theorem late_block_stops : ∃ start ∈ branchStart, branchMachine.Allows (Shown twoBranches) lateBlock start ∧
    branchMachine.Allows Requested lateBlock start ∧ ¬ branchMachine.Allows Unstopped lateBlock start ∧
    ((branchMachine.runs (lateBlock.take 6) start).bind fun indexer => (indexer.processBlockReady [(2, 2)]).map Prod.fst) = some [(3, 2)] ∧
    (branchMachine.runs lateBlock start).isNone = true := by
  have late : ∃ start ∈ branchStart, branchMachine.Allows Requested lateBlock start ∧ ¬ branchMachine.Allows Unstopped lateBlock start ∧
      ((branchMachine.runs (lateBlock.take 6) start).bind fun indexer => (indexer.processBlockReady [(2, 2)]).map Prod.fst) = some [(3, 2)] ∧
      (branchMachine.runs lateBlock start).isNone = true := by decide +kernel
  obtain ⟨start, started, rest⟩ := late
  refine ⟨start, started, Machine.allows_of_each lateBlock start fun event member state => ?_, rest⟩
  simp only [lateBlock, List.mem_cons, List.not_mem_nil, or_false] at member
  rcases member with rfl | rfl | rfl | rfl | rfl | rfl | rfl | rfl
  · exact branch_shows (by decide) 1
  · exact trivial
  · exact trivial
  · exact branch_shows (by decide) 1
  · exact trivial
  · exact trivial
  · exact trivial
  · exact trivial

end BlockIndexer

end Opentxs.FilterOracle
