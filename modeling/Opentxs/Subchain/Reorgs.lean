import Mathlib.Data.List.TakeWhile
import Opentxs.Subchain.Pipeline

/-! What the jobs hold after a reorg. They all go back to the last block that the chains
share, but only if the position saved in the database has been taken out of the best
chain. -/

namespace Opentxs.Subchain.Reorgs
open Library Library.SortedList HeaderOracle BlockHeader
open HeaderOracle.Storage (Database)
open Wallet.Types Messages Positions Scanning Stages Pipeline

variable {Work : Type} {oracle : Database Work} {old : Int → Hash} {ancestor position : Position}
  {system after : System}

/-! ## Positions -/

/-- The positions that the jobs of the subchain hold. -/
inductive Holds (system : System) : Position → Prop
  | saved : Holds system system.parent.saved
  | progress {position : Position} (reached : system.parent.progressPosition = some position) : Holds system position
  | scanned {position : Position} (reached : system.scan.lastScanned = some position) : Holds system position
  | scanTip : Holds system system.scan.filterTip
  | rescanned {position : Position} (reached : system.rescan.lastScanned = some position) : Holds system position
  | rescanTip : Holds system system.rescan.filterTip
  | dirty {position : Position} (block : position ∈ system.rescan.dirty) : Holds system position
  | waiting {position : Position} (block : position ∈ system.process.waiting) : Holds system position
  | downloading {position : Position} (block : position ∈ system.process.downloading) : Holds system position
  | ready {position : Position} (block : position ∈ system.process.ready) : Holds system position
  | processing {position : Position} (block : position ∈ system.process.processing) : Holds system position

/-- No job holds a block that is not in the best chain, and all blocks after the last one that the
chains share are still to be scanned. -/
structure Settled (oracle : Database Work) (ancestor : Position) (system : System) : Prop where
  held : ∀ position, Holds system position → isInBestChain oracle position = true
  scanned : ∀ position, system.scan.lastScanned = some position → position ≤ ancestor

/-- The best chain of before and the best chain of now are one up to the ancestor. -/
structure Forks (old : Int → Hash) (oracle : Database Work) (ancestor : Position) : Prop where
  shared : ∀ height, height ≤ ancestor.height → old height = oracle.bestBlock height
  ancestor : ancestor.hash = old ancestor.height

/-- A block of the best chain of before or of now. -/
def Known (old : Int → Hash) (oracle : Database Work) (position : Position) : Prop :=
  position.hash = old position.height ∨ position.hash = oracle.bestBlock position.height

theorem isInBestChain_iff : isInBestChain oracle position = true ↔ position.hash = oracle.bestBlock position.height :=
  decide_eq_true_iff

theorem Forks.ancestor_stays (forks : Forks old oracle ancestor) : isInBestChain oracle ancestor = true := by
  rw [isInBestChain_iff, forks.ancestor]
  exact forks.shared _ le_rfl

theorem Forks.below (forks : Forks old oracle ancestor) (known : Known old oracle position)
    (low : position.height ≤ ancestor.height) : isInBestChain oracle position = true := by
  rw [isInBestChain_iff]
  rcases known with before | now
  · rw [before, forks.shared _ low]
  · exact now

theorem height_le {first second : Position} (le : first ≤ second) : first.height ≤ second.height := by
  have lex : toLex (first.height, first.hash) ≤ toLex (second.height, second.hash) := le
  rw [Prod.Lex.le_iff] at lex
  rcases lex with less | same
  · exact less.le
  · exact same.1.le

theorem height_of_stays (stays : isReplacedBy position ancestor = false) : position.height ≤ ancestor.height := by
  unfold isReplacedBy at stays
  split at stays
  · cases stays
  · next low => exact not_lt.mp low

theorem Forks.reorgTarget (forks : Forks old oracle ancestor) (known : Known old oracle position) :
    isInBestChain oracle (reorgTarget ancestor position) = true ∧ reorgTarget ancestor position ≤ ancestor := by
  refine ⟨?_, min_le_right _ _⟩
  unfold Positions.reorgTarget
  rcases le_total position ancestor with le | ge
  · rw [min_eq_left le]
    exact forks.below known (height_le le)
  · rw [min_eq_right ge]
    exact forks.ancestor_stays

theorem Forks.filterTip (forks : Forks old oracle ancestor) (known : Known old oracle position) :
    isInBestChain oracle (if isReplacedBy position ancestor then ancestor else position) = true := by
  split
  · exact forks.ancestor_stays
  · next stays => exact forks.below known (height_of_stays (Bool.eq_false_iff.mpr stays))

theorem getPosition_in (height : Int) : isInBestChain oracle (getPosition oracle height) = true := by
  rw [isInBestChain_iff]
  unfold getPosition
  split
  · rfl
  · rfl

/-- What is left before the first block that is replaced stays in the best chain. -/
theorem stays_before {blocks : Finset Position} (block : position ∈ blocks \ Process.replacedFrom ancestor blocks) :
    position ∈ blocks ∧ isReplacedBy position ancestor = false := by
  obtain ⟨among, left⟩ := Finset.mem_sdiff.mp block
  refine ⟨among, ?_⟩
  have inside : position ∈ ordered blocks := (mem_ordered _ _).mpr among
  rw [← @List.takeWhile_append_dropWhile _ (fun block => !isReplacedBy block ancestor) (ordered blocks)] at inside
  rcases List.mem_append.mp inside with taken | dropped
  · simpa only [Bool.not_eq_true'] using List.mem_takeWhile_imp taken
  · exact absurd (List.mem_toFinset.mpr dropped) left

/-! ## What is taken out of the best chain -/

theorem orphaned_head : ∀ (height : Nat) (hash : Hash) (reorg : List Position), orphaned oracle height hash = some reorg →
    ∃ rest, reorg = ⟨height, hash⟩ :: rest := by
  intro height hash reorg found
  cases height with
  | zero => cases found
  | succ height =>
    obtain ⟨header, _, rest⟩ := Option.bind_eq_some_iff.mp found
    split at rest
    · cases rest
    · split at rest
      · cases rest
        exact ⟨[], rfl⟩
      · obtain ⟨later, _, rfl⟩ := Option.map_eq_some_iff.mp rest
        exact ⟨later, rfl⟩

theorem calculateReorg_some {tip : Position} {reorg : List Position} (found : calculateReorg oracle tip = some reorg) :
    if isInBestChain oracle tip then reorg = [] else ∃ rest, reorg = tip :: rest := by
  unfold calculateReorg at found
  split at found
  · next inside =>
    rw [if_pos inside]
    exact (Option.some.inj found).symm
  · next outside =>
    rw [if_neg outside]
    split at found
    · exact ⟨[], (Option.some.inj found).symm⟩
    · next nonneg =>
      obtain ⟨rest, rfl⟩ := orphaned_head _ _ _ found
      rw [Int.toNat_of_nonneg (not_lt.mp nonneg)]
      exact ⟨rest, rfl⟩

theorem doReorg_some {startReorg : Position → Bool} {parent next : SubchainData}
    (ran : doReorg oracle startReorg parent = some next) :
    if isInBestChain oracle parent.saved then next = { parent with needReorg := false }
    else next = { parent with needReorg := true, saved := getPosition oracle (parent.saved.height - 1) } := by
  obtain ⟨reorg, found, rest⟩ := Option.bind_eq_some_iff.mp ran
  have calculated := calculateReorg_some found
  split at calculated
  · next inside =>
    rw [if_pos inside]
    rw [if_pos calculated] at rest
    exact (Option.some.inj rest).symm
  · next outside =>
    obtain ⟨others, rfl⟩ := calculated
    rw [if_neg outside]
    rw [if_neg (List.cons_ne_nil _ _)] at rest
    obtain ⟨_, same⟩ := Option.ite_none_right_eq_some.mp rest
    rw [← Option.some.inj same]
    unfold reorgTo
    dsimp only
    rw [if_neg (by omega), if_pos (by omega)]

/-! ## The jobs after the reorg -/

/-- If the position saved is still in the best chain, no job changes anything. -/
theorem performReorg_unneeded {startReorg : Position → Bool} (inside : isInBestChain oracle system.parent.saved = true)
    (ran : system.performReorg oracle ancestor startReorg = some after) :
    after = { system with parent := { system.parent with needReorg := false } } := by
  obtain ⟨parent, reorged, rfl⟩ := Option.map_eq_some_iff.mp ran
  have next := doReorg_some reorged
  rw [if_pos inside] at next
  rw [next]
  rfl

theorem settled_after (forks : Forks old oracle ancestor) (known : ∀ position, Holds system position → Known old oracle position)
    {startReorg : Position → Bool} (outside : ¬ isInBestChain oracle system.parent.saved = true)
    (ran : system.performReorg oracle ancestor startReorg = some after) : Settled oracle ancestor after := by
  obtain ⟨parent, reorged, rfl⟩ := Option.map_eq_some_iff.mp ran
  have next := doReorg_some reorged
  rw [if_neg outside] at next
  subst next
  have below : ∀ position, Holds system position → position.height ≤ ancestor.height → isInBestChain oracle position = true :=
    fun position holds low => forks.below (known position holds) low
  constructor
  · intro position holds
    cases holds with
    | saved => exact getPosition_in _
    | progress reached =>
      obtain ⟨before, held, rfl⟩ := Option.map_eq_some_iff.mp reached
      exact (forks.reorgTarget (known before (.progress held))).1
    | scanned reached =>
      obtain ⟨before, held, rfl⟩ := Option.map_eq_some_iff.mp reached
      exact (forks.reorgTarget (known before (.scanned held))).1
    | scanTip => exact forks.filterTip (known _ .scanTip)
    | rescanned reached =>
      obtain ⟨before, held, rfl⟩ := Option.map_eq_some_iff.mp reached
      exact (forks.reorgTarget (known before (.rescanned held))).1
    | rescanTip => exact forks.filterTip (known _ .rescanTip)
    | dirty block =>
      obtain ⟨among, le⟩ := Finset.mem_filter.mp block
      exact below position (.dirty among) (height_le le)
    | waiting block =>
      obtain ⟨among, stays⟩ := List.mem_filter.mp block
      exact below position (.waiting among) (height_of_stays (by simpa only [Bool.not_eq_true'] using stays))
    | downloading block =>
      obtain ⟨among, stays⟩ := stays_before block
      exact below position (.downloading among) (height_of_stays stays)
    | ready block =>
      obtain ⟨among, stays⟩ := stays_before block
      exact below position (.ready among) (height_of_stays stays)
    | processing block =>
      obtain ⟨among, stays⟩ := stays_before block
      exact below position (.processing among) (height_of_stays stays)
  · intro position reached
    obtain ⟨before, held, rfl⟩ := Option.map_eq_some_iff.mp reached
    exact (forks.reorgTarget (known before (.scanned held))).2

/-- The flag is not a position. -/
theorem Holds.flagged (flag : Bool) (holds : Holds system position) :
    Holds { system with parent := { system.parent with needReorg := flag } } position := by
  cases holds with
  | saved => exact .saved
  | progress reached => exact .progress reached
  | scanned reached => exact .scanned reached
  | scanTip => exact .scanTip
  | rescanned reached => exact .rescanned reached
  | rescanTip => exact .rescanTip
  | dirty block => exact .dirty block
  | waiting block => exact .waiting block
  | downloading block => exact .downloading block
  | ready block => exact .ready block
  | processing block => exact .processing block

/-- A reorg reaches all jobs exactly when it has taken the position saved out of the best chain, or
when there was nothing to do. -/
theorem reorg_settles_iff (forks : Forks old oracle ancestor)
    (known : ∀ position, Holds system position → Known old oracle position) {startReorg : Position → Bool}
    (ran : system.performReorg oracle ancestor startReorg = some after) :
    Settled oracle ancestor after ↔
      isInBestChain oracle system.parent.saved = false ∨
        (∀ position, Holds system position → isInBestChain oracle position = true) ∧
          ∀ position, system.scan.lastScanned = some position → position ≤ ancestor := by
  by_cases inside : isInBestChain oracle system.parent.saved = true
  · have same := performReorg_unneeded inside ran
    subst same
    rw [inside, or_iff_right (by decide)]
    constructor
    · intro settled
      exact ⟨fun position holds => settled.held position (holds.flagged false), settled.scanned⟩
    · intro both
      exact ⟨fun position holds => both.1 position (holds.flagged system.parent.needReorg), both.2⟩
  · exact iff_of_true (settled_after forks known inside ran) (.inl (Bool.eq_false_iff.mpr inside))

/-! ## Scan ahead of the position saved -/

/-- Two blocks after the genesis block. -/
def before : Database Nat :=
  { HeaderOracle.Storage.initial ⟨1, 1, one_ne_null⟩ with
    rows := fun height => if height = 0 then 1 else if height = 1 then 11 else if height = 2 then 12 else nullHash
    tipHeight := 2 }

/-- Both blocks are replaced by one. -/
def now : Database Nat :=
  { HeaderOracle.Storage.initial ⟨1, 1, one_ne_null⟩ with
    rows := fun height => if height = 0 then 1 else if height = 1 then 21 else nullHash
    tipHeight := 1 }

/-- Scan has gone over all filters and nothing has been saved yet. -/
def ahead : System :=
  { start .es 0 {} ⟨2, 12⟩ ⟨2, 12⟩ with
    scan := { lastScanned := some {}, filterTip := ⟨2, 12⟩, indexReady := true } }.scanWork before ⟨3, [false, false, false]⟩

theorem ahead_reached : Machine.Run (machine Nat) (fun _ _ => True) (start .es 0 {} ⟨2, 12⟩ ⟨2, 12⟩) ahead :=
  .step (.scanWork before ⟨3, [false, false, false]⟩) (.step .startScan .start trivial rfl) trivial rfl

theorem ahead_forks : Forks before.bestBlock now ⟨0, 1⟩ := by
  refine ⟨fun height low => ?_, rfl⟩
  unfold HeaderOracle.Storage.Database.bestBlock
  split
  · rfl
  · next nonneg =>
    obtain rfl : height = 0 := le_antisymm low (not_lt.mp nonneg)
    rfl

theorem ahead_known (position : Position) (holds : Holds ahead position) : Known before.bestBlock now position := by
  left
  cases holds with
  | saved => rfl
  | progress reached => cases reached
  | scanned reached =>
    cases (show some ⟨2, 12⟩ = some position from reached)
    rfl
  | scanTip => rfl
  | rescanned reached =>
    cases (show some ⟨-1, 0⟩ = some position from reached)
    rfl
  | rescanTip => rfl
  | dirty block => exact absurd block (Finset.notMem_empty _)
  | waiting block => cases block
  | downloading block => exact absurd block (Finset.notMem_empty _)
  | ready block => exact absurd block (Finset.notMem_empty _)
  | processing block => exact absurd block (Finset.notMem_empty _)

/-- This is a state that the subchain gets into. -/
theorem scan_stays_ahead : ¬ ∀ (old : Int → Hash) (oracle : Database Nat) (ancestor : Position) (system after : System),
    Machine.Run (machine Nat) (fun _ _ => True) (start .es 0 {} ⟨2, 12⟩ ⟨2, 12⟩) system → Forks old oracle ancestor → (∀ position, Holds system position → Known old oracle position) →
    system.performReorg oracle ancestor (fun _ => true) = some after → Settled oracle ancestor after := by
  intro claim
  have settled := claim before.bestBlock now ⟨0, 1⟩ ahead _ ahead_reached ahead_forks ahead_known rfl
  exact absurd (settled.scanned ⟨2, 12⟩ rfl) (by decide)

theorem ahead_unsettled : ∃ after, ahead.performReorg now ⟨0, 1⟩ (fun _ => true) = some after ∧
    (Settled now ⟨0, 1⟩ after ↔ isInBestChain now ahead.parent.saved = false ∨
      (∀ position, Holds ahead position → isInBestChain now position = true) ∧
        ∀ position, ahead.scan.lastScanned = some position → position ≤ ⟨0, 1⟩) := by
  have ran : ahead.performReorg now ⟨0, 1⟩ (fun _ => true) = some _ := rfl
  exact ⟨_, ran, reorg_settles_iff ahead_forks ahead_known ran⟩

end Opentxs.Subchain.Reorgs
