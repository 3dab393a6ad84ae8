import Opentxs.Blockchain.BestChain

/-! The blocks at the tip that are verified at the start, one window of heights after the other. -/

namespace Opentxs.BlockOracle.Verification
open Blockchain

variable {Hash Block : Type}

/-- Where the blocks are kept, and the check of a block that is there. -/
structure Storage (Hash Block : Type) where
  load : Hash → Option Block
  check : Hash → Block → Bool

def loadBlocks (storage : Storage Hash Block) (hashes : List Hash) : List (Option Block) := hashes.map storage.load

def verify : Int := 100

def getTarget (current : Int) : Int := max 1 (current - verify + 1)

def getCount (current target : Int) : Nat := (max 0 (current - target + 1)).toNat

/-- The last block before the first one that is missing or corrupted. -/
def lastGood (storage : Storage Hash Block) : (height : Int) → List (Hash × Option Block) → Option (Position Hash) → Option (Position Hash)
  | _, [], good => good
  | height, (id, block) :: rest, good =>
    match block with
    | none => good
    | some bytes => if storage.check id bytes = false then good else lastGood storage (height + 1) rest (some ⟨height, id⟩)

/-- One window. -/
def verifyWindow (chain : BestChain Hash) (storage : Storage Hash Block) (target : Int) (count : Nat) : Option (Position Hash) :=
  let hashes := chain.bestHashes target count
  let blocks := loadBlocks storage hashes
  lastGood storage target (hashes.zip blocks) none

/-- The loop, with what is left of its fuel. -/
def verifyFrom (chain : BestChain Hash) (storage : Storage Hash Block) : (fuel : Nat) → (target : Int) → (count : Nat) → Option (Position Hash)
  | 0, _, _ => none
  | fuel + 1, target, count =>
    match verifyWindow chain storage target count with
    | some good => some good
    | none =>
      let current := target
      let target := getTarget current
      let count := getCount current target
      if 1 > target then verifyFrom chain storage fuel target count else some chain.genesisPosition

structure Tip (Hash : Type) where
  best : Position Hash
  /-- The tip in the database. -/
  blockTip : Position Hash

/-- There is no result if the loop runs out of fuel. -/
def getTip [DecidableEq Hash] (chain : BestChain Hash) (storage : Storage Hash Block) (pos : Position Hash) : Option (Tip Hash) := do
  let target := getTarget pos.height
  let count := getCount pos.height target
  let best ← if 0 < count then verifyFrom chain storage (pos.height.toNat + 1) target count else some chain.genesisPosition
  some { best, blockTip := if best ≠ pos then best else pos }

/-! ## The blocks to be examined -/

def OnBestChain (chain : BestChain Hash) (position : Position Hash) : Prop := chain.bestBlock position.height = some position.hash

/-- The block of the best chain at a height is there and passes the check. -/
def Verified (chain : BestChain Hash) (storage : Storage Hash Block) (height : Int) : Prop :=
  ∃ id block, chain.bestBlock height = some id ∧ storage.load id = some block ∧ storage.check id block = true

/-- The heights where the windows begin, walking back from the tip to height 1. -/
inductive Window (tip : Int) : Int → Prop
  | first : 0 < tip → Window tip (getTarget tip)
  | next {start : Int} : Window tip start → 1 < start → Window tip (getTarget start)

/-- A position of the best chain at or below the tip with a verified block, or genesis, and genesis only if
there is no window to return a block from. -/
structure Keeps (chain : BestChain Hash) (storage : Storage Hash Block) (pos best : Position Hash) : Prop where
  on : OnBestChain chain best
  below : best.height ≤ pos.height
  verified : best = chain.genesisPosition ∨ Verified chain storage best.height
  last : best = chain.genesisPosition → ∀ start, Window pos.height start → ¬ Verified chain storage start

variable {chain : BestChain Hash} {storage : Storage Hash Block} {pos best : Position Hash} {height start : Int} {count : Nat} {id : Hash}

/-! ## One window -/

theorem lastGood_some (storage : Storage Hash Block) (rest : List (Hash × Option Block)) : ∀ height (good : Position Hash),
    ∃ best, lastGood storage height rest (some good) = some best := by
  induction rest with
  | nil => exact fun _ good => ⟨good, rfl⟩
  | cons first rest ih =>
    intro height good
    obtain ⟨id, block⟩ := first
    cases block with
    | none => exact ⟨good, rfl⟩
    | some bytes =>
      rw [lastGood]
      split
      · exact ⟨good, rfl⟩
      · exact ih (height + 1) ⟨height, id⟩

/-- The hashes from a height on with their blocks. -/
def window (chain : BestChain Hash) (storage : Storage Hash Block) (count : Nat) (height : Int) : List (Hash × Option Block) :=
  (chain.bestHashesFrom count height).zip (loadBlocks storage (chain.bestHashesFrom count height))

theorem window_succ (found : chain.bestBlock height = some id) :
    window chain storage (count + 1) height = (id, storage.load id) :: window chain storage count (height + 1) := by
  rw [window, BestChain.bestHashesFrom, found]
  rfl

theorem window_end (none_ : chain.bestBlock height = none) : window chain storage (count + 1) height = [] := by
  rw [window, BestChain.bestHashesFrom, none_]
  rfl

theorem verified_iff (found : chain.bestBlock height = some id) :
    Verified chain storage height ↔ ∃ block, storage.load id = some block ∧ storage.check id block = true := by
  constructor
  · rintro ⟨other, block, again, loaded, checked⟩
    obtain rfl : id = other := Option.some.inj (found.symm.trans again)
    exact ⟨block, loaded, checked⟩
  · rintro ⟨block, loaded, checked⟩
    exact ⟨id, block, found, loaded, checked⟩

/-- A block that passes is the last good one so far, and the first that does not ends the search. -/
theorem lastGood_window_succ (count : Nat) (height : Int) (good : Option (Position Hash)) :
    (Verified chain storage height ∧ ∃ id, chain.bestBlock height = some id ∧
      lastGood storage height (window chain storage (count + 1) height) good =
        lastGood storage (height + 1) (window chain storage count (height + 1)) (some ⟨height, id⟩)) ∨
    (¬ Verified chain storage height ∧ lastGood storage height (window chain storage (count + 1) height) good = good) := by
  cases found : chain.bestBlock height with
  | none =>
    rw [window_end found]
    refine .inr ⟨?_, by rw [lastGood]⟩
    rintro ⟨id, _, some_, _⟩
    cases found.symm.trans some_
  | some id =>
    rw [window_succ found, verified_iff found]
    cases loaded : storage.load id with
    | none =>
      refine .inr ⟨?_, by rw [lastGood]⟩
      rintro ⟨block, some_, _⟩
      cases some_
    | some bytes =>
      rw [lastGood]
      by_cases checked : storage.check id bytes = true
      · exact .inl ⟨⟨bytes, rfl, checked⟩, id, rfl, if_neg (checked ▸ nofun)⟩
      · refine .inr ⟨?_, if_pos (Bool.eq_false_iff.mpr checked)⟩
        rintro ⟨other, same, passes⟩
        exact checked (Option.some.inj same ▸ passes)

theorem lastGood_window (count : Nat) : ∀ height (good : Option (Position Hash)),
    lastGood storage height (window chain storage count height) good = some best → good = some best ∨
      (height ≤ best.height ∧ best.height < height + count ∧ OnBestChain chain best ∧ Verified chain storage best.height) := by
  induction count with
  | zero => exact fun _ _ same => .inl same
  | succ count ih =>
    intro height good found
    rcases @lastGood_window_succ _ _ chain storage count height good with ⟨verified, id, here, on⟩ | ⟨_, stops⟩
    · rcases ih (height + 1) _ (on.symm.trans found) with same | ⟨least, most, there⟩
      · obtain rfl : ⟨height, id⟩ = best := Option.some.inj same
        refine .inr ⟨le_rfl, ?_, here, verified⟩
        show height < height + (count + 1 : Nat)
        omega
      · exact .inr ⟨by omega, by omega, there⟩
    · exact .inl (stops.symm.trans found)

/-- The window from a height of the chain up to the block that is examined last. -/
theorem verifyWindow_eq (storage : Storage Hash Block) (first : start ≤ height) (most : height ≤ chain.tip) :
    verifyWindow chain storage start (getCount height start) = lastGood storage start (window chain storage (getCount height start) start) none := by
  have count : (min (start + getCount height start - 1) chain.tip - start + 1).toNat = getCount height start := by
    unfold getCount
    omega
  have some_ : getCount height start ≠ 0 := by
    unfold getCount
    omega
  rw [verifyWindow, BestChain.bestHashes, if_neg some_, count, window]

theorem verifyWindow_some (first : start ≤ height) (most : height ≤ chain.tip)
    (found : verifyWindow chain storage start (getCount height start) = some best) :
    start ≤ best.height ∧ best.height ≤ height ∧ OnBestChain chain best ∧ Verified chain storage best.height := by
  rw [verifyWindow_eq storage first most] at found
  rcases lastGood_window _ start none found with same | ⟨least, below, there⟩
  · cases same
  · refine ⟨least, ?_, there⟩
    unfold getCount at below
    omega

theorem verifyWindow_none_iff (first : start ≤ height) (most : height ≤ chain.tip) :
    verifyWindow chain storage start (getCount height start) = none ↔ ¬ Verified chain storage start := by
  obtain ⟨count, more⟩ : ∃ count, getCount height start = count + 1 := by
    refine ⟨(height - start).toNat, ?_⟩
    unfold getCount
    omega
  rw [verifyWindow_eq storage first most, more]
  rcases @lastGood_window_succ _ _ chain storage count start none with ⟨verified, id, _, on⟩ | ⟨not_, stops⟩
  · obtain ⟨best, found⟩ := lastGood_some storage (window chain storage count (start + 1)) (start + 1) ⟨start, id⟩
    rw [on, found]
    exact iff_of_false nofun (not_not.mpr verified)
  · rw [stops]
    exact iff_of_true rfl not_

/-! ## The tip -/

theorem one_le_getTarget (current : Int) : 1 ≤ getTarget current := le_max_left _ _

theorem getTarget_le (some_ : 0 < height) : getTarget height ≤ height := by
  unfold getTarget verify
  omega

/-- The loop is left after its first round. -/
theorem verifyFrom_eq (chain : BestChain Hash) (storage : Storage Hash Block) (fuel : Nat) (target : Int) (count : Nat) :
    verifyFrom chain storage (fuel + 1) target count = some ((verifyWindow chain storage target count).getD chain.genesisPosition) := by
  rw [verifyFrom]
  cases verifyWindow chain storage target count with
  | some good => rfl
  | none => exact if_neg (not_lt.mpr (one_le_getTarget target))

variable [DecidableEq Hash]

theorem getTip_genesis (chain : BestChain Hash) (storage : Storage Hash Block) (none_ : pos.height ≤ 0) :
    ∃ tip, getTip chain storage pos = some tip ∧ tip.best = chain.genesisPosition := by
  have count : ¬ 0 < getCount pos.height (getTarget pos.height) := by
    unfold getCount getTarget verify
    omega
  refine ⟨{ best := chain.genesisPosition, blockTip := if chain.genesisPosition ≠ pos then chain.genesisPosition else pos }, ?_, rfl⟩
  rw [getTip, if_neg count]
  rfl

theorem getTip_window (chain : BestChain Hash) (storage : Storage Hash Block) (some_ : 0 < pos.height) :
    ∃ tip, getTip chain storage pos = some tip ∧
      tip.best = (verifyWindow chain storage (getTarget pos.height) (getCount pos.height (getTarget pos.height))).getD chain.genesisPosition := by
  have count : 0 < getCount pos.height (getTarget pos.height) := by
    unfold getCount getTarget verify
    omega
  rw [getTip, if_pos count, verifyFrom_eq]
  exact ⟨_, rfl, rfl⟩

theorem Window.tip_pos {tip : Int} (window : Window tip start) : 0 < tip := by
  induction window with
  | first some_ => exact some_
  | next _ _ ih => exact ih

/-- The verified blocks are kept if and only if the first window begins with one, or none does. -/
theorem tip_verified_iff (chain : BestChain Hash) (storage : Storage Hash Block) (pos : Position Hash) (on : OnBestChain chain pos) :
    (∃ tip, getTip chain storage pos = some tip ∧ Keeps chain storage pos tip.best) ↔
      ((∃ start, Window pos.height start ∧ Verified chain storage start) → Verified chain storage (getTarget pos.height)) := by
  obtain ⟨nonneg, most⟩ := BestChain.bestBlock_bounds on
  rcases nonneg.lt_or_eq with some_ | zero
  · have first := getTarget_le some_
    have bad_iff := @verifyWindow_none_iff _ _ chain storage _ _ first most
    obtain ⟨tip, same, best⟩ := getTip_window chain storage some_
    cases found : verifyWindow chain storage (getTarget pos.height) (getCount pos.height (getTarget pos.height)) with
    | none =>
      rw [found, Option.getD_none] at best
      have bad := bad_iff.mp found
      constructor
      · rintro ⟨other, again, keeps⟩ ⟨start, window, verified⟩
        obtain rfl : tip = other := Option.some.inj (same.symm.trans again)
        exact absurd verified (keeps.last best start window)
      · intro all
        refine ⟨tip, same, ?_⟩
        rw [best]
        exact ⟨BestChain.bestBlock_zero, nonneg, .inl rfl, fun _ start window verified => bad (all ⟨start, window, verified⟩)⟩
    | some good =>
      rw [found, Option.getD_some] at best
      have verified : Verified chain storage (getTarget pos.height) := by
        by_contra bad
        cases found.symm.trans (bad_iff.mpr bad)
      obtain ⟨least, below, there, passes⟩ := verifyWindow_some first most found
      refine iff_of_true ⟨tip, same, ?_⟩ fun _ => verified
      rw [best]
      refine ⟨there, below, .inr passes, fun genesis => ?_⟩
      have above := (one_le_getTarget pos.height).trans least
      rw [genesis] at above
      exact (Int.not_le.mpr Int.one_pos above).elim
  · obtain ⟨tip, same, best⟩ := getTip_genesis chain storage zero.ge
    have no_window : ∀ start, ¬ Window pos.height start := fun start window => (zero ▸ window.tip_pos).false
    refine iff_of_true ⟨tip, same, ?_⟩ fun ⟨start, window, _⟩ => absurd window (no_window start)
    rw [best]
    exact ⟨BestChain.bestBlock_zero, nonneg, .inl rfl, fun _ start window => absurd window (no_window start)⟩

def fourBlocks : BestChain Nat := ⟨0, [1, 2, 3]⟩

def allThere : Storage Nat Nat := { load := some, check := fun _ _ => true }

theorem whole_chain_kept :
    ∃ tip, getTip fourBlocks allThere ⟨3, 3⟩ = some tip ∧ Keeps fourBlocks allThere ⟨3, 3⟩ tip.best :=
  (tip_verified_iff fourBlocks allThere ⟨3, 3⟩ rfl).mpr fun _ => ⟨1, 1, rfl, rfl, rfl⟩

/-- In a chain with a tip at height 101, block 2 is missing, which costs all the blocks though block 1 is there. -/
def hundredOne : BestChain Nat := ⟨0, List.range' 1 101⟩

def secondMissing : Storage Nat Nat := { load := fun id => if id = 2 then none else some id, check := fun _ _ => true }

theorem missing_block_costs_all : OnBestChain hundredOne ⟨101, 101⟩ ∧
    ¬ ∃ tip, getTip hundredOne secondMissing ⟨101, 101⟩ = some tip ∧ Keeps hundredOne secondMissing ⟨101, 101⟩ tip.best := by
  refine ⟨rfl, ?_⟩
  rintro ⟨tip, same, keeps⟩
  have genesis : (getTip hundredOne secondMissing ⟨101, 101⟩).map Tip.best = some ⟨0, 0⟩ := rfl
  rw [same] at genesis
  have second : Window 101 (getTarget (getTarget 101)) := .next (.first (by decide)) (by decide)
  exact keeps.last (Option.some.inj genesis) _ second ⟨1, 1, rfl, rfl, rfl⟩

end Opentxs.BlockOracle.Verification
