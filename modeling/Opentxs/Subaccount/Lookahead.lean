import Opentxs.Library.Machine
import Mathlib.Data.Finset.Max
import Mathlib.Data.Finset.Range
import Mathlib.Data.Fintype.EquivFin
import Mathlib.Order.Monotone.Basic

/-! The keys of a subchain are generated ahead of those that are used. -/

namespace Opentxs.Subaccount
open Library

def window : Nat := 20

def maxAllocation : Nat := 2000

def maxIndex : Nat := 2147483648

/-- A key is used when a transaction of it is confirmed. Below the floor all keys are. -/
structure Subchain where
  generated : Nat := 0
  used : Nat := 0
  lastAllocation : Option Nat := none
  confirmed : Finset Nat := ∅
  deriving DecidableEq

namespace Subchain

variable (subchain : Subchain)

/-! ## Generation -/

/-- How many keys are missing. Every allocation is twice as large as the one before. -/
def needLookahead : Nat × Subchain :=
  let capacity := subchain.generated - subchain.used
  if window ≤ capacity then (0, subchain)
  else
    let effective := match subchain.lastAllocation with
      | none => window
      | some last => min maxAllocation (last * 2)
    (effective - capacity, { subchain with lastAllocation := some effective })

section

variable (valid : Nat → Bool)

/-- A key that is not valid or comes after the last one is not generated. -/
def generateNext : Option Subchain :=
  if maxIndex ≤ subchain.generated then none
  else if !valid subchain.generated then none
  else some { subchain with generated := subchain.generated + 1 }

def generate : Nat → Subchain → Option Subchain
  | 0, subchain => some subchain
  | needed + 1, subchain => (subchain.generateNext valid).bind (generate needed)

def checkLookahead : Option Subchain := generate valid subchain.needLookahead.1 subchain.needLookahead.2

/-! ## Confirmation -/

/-- Up to the first key that is not used. -/
def raise : Nat → Nat → Nat → Nat
  | 0, _, used => used
  | remaining + 1, index, used => if index ∈ subchain.confirmed then raise remaining (index + 1) (max used (index + 1)) else used

/-- The floor is not raised while a key below is not used. -/
def checkUsed (index : Nat) : Subchain :=
  if index < subchain.used then subchain
  else if (List.range' subchain.used (index - subchain.used)).all (· ∈ subchain.confirmed) then
    { subchain with used := subchain.raise (subchain.generated - index) index subchain.used }
  else subchain

/-- Only a key that was generated can be confirmed. Where no key can be generated the program ends. -/
def confirm (index : Nat) : Option Subchain :=
  if index < subchain.generated then
    (({ subchain with confirmed := insert index subchain.confirmed }).checkUsed index).checkLookahead valid
  else some subchain

end

end Subchain

def machine (valid : Nat → Bool) : Machine Subchain Nat := ⟨fun index subchain => subchain.confirm valid index⟩

/-! ## The gap limit -/

/-- As a wallet hands them out. -/
def GapLimited (keys : Finset Nat) : Prop := ∀ key ∈ keys, window ≤ key → ∃ before ∈ keys, before < key ∧ key ≤ before + window

/-- A key is confirmed when it is generated. -/
def May (keys : Finset Nat) (key : Nat) (subchain : Subchain) : Prop := key ∈ keys ∧ key < subchain.generated

/-- All keys that can be confirmed are. -/
def Finished (keys : Finset Nat) (subchain : Subchain) : Prop := ∀ key ∈ keys, key < subchain.generated → key ∈ subchain.confirmed

/-- All keys and the window after the highest of them are generated. -/
def Covers (keys : Finset Nat) (subchain : Subchain) : Prop :=
  ∀ key ∈ keys, ∀ ahead ≤ window, key + ahead < subchain.generated

/-- Keys are confirmed in any order, each when it is generated, until there is none left. -/
def Honoured (valid : Nat → Bool) (keys : Finset Nat) : Prop :=
  ∀ start after, Subchain.checkLookahead {} valid = some start →
    (machine valid).Run (May keys) start after → Finished keys after → Covers keys after

/-! ## How many keys there can be -/

def allocation : Nat → Nat
  | 0 => window
  | count + 1 => min maxAllocation (allocation count * 2)

/-- Every allocation comes as soon as it can. -/
def fewest : Nat → Nat
  | 0 => window
  | count + 1 => fewest count - (window - 1) + allocation (count + 1)

/-- Every allocation comes when all keys are used. -/
def most : Nat → Nat
  | 0 => window
  | count + 1 => most count + allocation (count + 1)

theorem exists_unused (keys : Finset Nat) : ∃ index, index ∉ keys := Infinite.exists_notMem_finset keys

def firstUnused (keys : Finset Nat) : Nat := Nat.find (exists_unused keys)

theorem window_le_allocation (count : Nat) : window ≤ allocation count := by
  induction count with
  | zero => exact le_rfl
  | succ count ih =>
    show window ≤ min maxAllocation (allocation count * 2)
    unfold window maxAllocation at *
    omega

theorem most_unbounded (least : Nat) : ∃ count, least ≤ most count := by
  refine ⟨least, ?_⟩
  induction least with
  | zero => exact Nat.zero_le _
  | succ least ih =>
    have more := window_le_allocation (least + 1)
    show least + 1 ≤ most least + allocation (least + 1)
    unfold window at more
    omega

/-- The least number of allocations after which there can be enough. -/
def allocations (keys : Finset Nat) : Nat := Nat.find (most_unbounded (firstUnused keys + window))

/-- The least number of keys that an order of confirmations can end with. -/
def leastGenerated (keys : Finset Nat) : Nat := max (firstUnused keys + window) (fewest (allocations keys))

theorem allocation_le_fewest (count : Nat) : allocation count ≤ fewest count := by
  cases count with
  | zero => exact le_rfl
  | succ count => exact Nat.le_add_left _ _

theorem fewest_le_succ (count : Nat) : fewest count ≤ fewest (count + 1) := by
  have more := window_le_allocation (count + 1)
  show fewest count ≤ fewest count - (window - 1) + allocation (count + 1)
  unfold window at *
  omega

theorem fewest_mono : Monotone fewest := monotone_nat_of_le_succ fewest_le_succ

theorem fewest_le_most (count : Nat) : fewest count ≤ most count := by
  induction count with
  | zero => exact le_rfl
  | succ count ih =>
    show fewest count - (window - 1) + allocation (count + 1) ≤ most count + allocation (count + 1)
    omega

/-! ### The floor -/

section

variable {keys more : Finset Nat} {index : Nat}

theorem firstUnused_notMem (keys : Finset Nat) : firstUnused keys ∉ keys := Nat.find_spec (exists_unused keys)

theorem mem_of_lt_firstUnused (below : index < firstUnused keys) : index ∈ keys := by
  by_contra missing
  exact Nat.find_min (exists_unused keys) below missing

theorem firstUnused_eq (below : ∀ other < index, other ∈ keys) (missing : index ∉ keys) : firstUnused keys = index :=
  (Nat.find_eq_iff _).mpr ⟨missing, fun other before absent => absent (below other before)⟩

theorem firstUnused_mono (subset : keys ⊆ more) : firstUnused keys ≤ firstUnused more := by
  by_contra above
  exact firstUnused_notMem more (subset (mem_of_lt_firstUnused (Nat.lt_of_not_le above)))

theorem firstUnused_range (count : Nat) : firstUnused (Finset.range count) = count :=
  firstUnused_eq (fun _ before => Finset.mem_range.mpr before) (fun member => Nat.lt_irrefl _ (Finset.mem_range.mp member))

end

/-! ## One confirmation -/

variable {valid : Nat → Bool} {keys : Finset Nat} {subchain after : Subchain} {index : Nat}

namespace Subchain

theorem raise_spec (remaining : Nat) : ∀ index, ∃ floor, subchain.raise remaining index index = floor ∧ index ≤ floor ∧ floor ≤ index + remaining ∧
    (∀ other, index ≤ other → other < floor → other ∈ subchain.confirmed) ∧ (floor = index + remaining ∨ floor ∉ subchain.confirmed) := by
  induction remaining with
  | zero => exact fun index => ⟨index, rfl, le_rfl, le_rfl, fun other above below => absurd below (Nat.not_lt_of_le above), .inl rfl⟩
  | succ remaining ih =>
    intro index
    by_cases used : index ∈ subchain.confirmed
    · obtain ⟨floor, raised, above, below, all, ends⟩ := ih (index + 1)
      refine ⟨floor, ?_, by omega, by omega, fun other from_index before => ?_, ends.imp_left fun same => by omega⟩
      · unfold raise
        rw [if_pos used, Nat.max_eq_right (Nat.le_succ index), raised]
      · rcases Nat.eq_or_lt_of_le from_index with rfl | beyond
        · exact used
        · exact all other beyond before
    · refine ⟨index, if_neg used, le_rfl, Nat.le_add_right _ _, fun other above below => absurd below (Nat.not_lt_of_le above), .inr used⟩

/-- The floor is the first key that is not used. -/
theorem checkUsed_eq (floor : ∀ other < subchain.used, other ∈ subchain.confirmed) (last : subchain.used ∈ subchain.confirmed → subchain.used = index)
    (generated : ∀ other ∈ subchain.confirmed, other < subchain.generated) (confirmed : index ∈ subchain.confirmed) :
    subchain.checkUsed index = { subchain with used := firstUnused subchain.confirmed } := by
  have kept (unused : subchain.used ∉ subchain.confirmed) : subchain = { subchain with used := firstUnused subchain.confirmed } := by
    rw [firstUnused_eq floor unused]
  unfold checkUsed
  by_cases before : index < subchain.used
  · rw [if_pos before]
    exact kept fun used => Nat.lt_irrefl _ (last used ▸ before)
  rw [if_neg before]
  by_cases here : subchain.used = index
  · have none : (List.range' subchain.used (index - subchain.used)).all (· ∈ subchain.confirmed) = true := by
      rw [here, Nat.sub_self]
      rfl
    rw [if_pos none]
    obtain ⟨floor', raised, above, below, all, ends⟩ := @raise_spec subchain (subchain.generated - index) index
    rw [here, raised]
    have unused : floor' ∉ subchain.confirmed := by
      rcases ends with top | unused
      · intro used
        have := generated floor' used
        have := generated index confirmed
        omega
      · exact unused
    rw [firstUnused_eq (fun other under => ?_) unused]
    rcases Nat.lt_or_ge other index with under_index | from_index
    · exact floor other (here ▸ under_index)
    · exact all other from_index under
  · have unused : subchain.used ∉ subchain.confirmed := fun used => here (last used)
    have some : ¬ (List.range' subchain.used (index - subchain.used)).all (· ∈ subchain.confirmed) = true := by
      intro all
      have first : subchain.used ∈ List.range' subchain.used (index - subchain.used) := by
        rw [List.mem_range'_1]
        omega
      exact unused (of_decide_eq_true (List.all_eq_true.mp all _ first))
    rw [if_neg some]
    exact kept unused

theorem generate_eq (needed : Nat) : ∀ {subchain after : Subchain}, generate valid needed subchain = some after →
    after = { subchain with generated := subchain.generated + needed } ∧ (0 < needed → after.generated ≤ maxIndex) := by
  induction needed with
  | zero =>
    intro subchain after done
    obtain rfl := Option.some.inj done
    exact ⟨rfl, fun none => absurd none (Nat.lt_irrefl 0)⟩
  | succ needed ih =>
    intro subchain after done
    obtain ⟨next, one, rest⟩ := Option.bind_eq_some_iff.mp done
    obtain ⟨space, one⟩ := Option.ite_none_left_eq_some.mp one
    obtain ⟨_, one⟩ := Option.ite_none_left_eq_some.mp one
    obtain rfl := Option.some.inj one
    obtain ⟨rfl, fits⟩ := ih rest
    refine ⟨by rw [Nat.add_assoc, Nat.add_comm 1], fun _ => ?_⟩
    rcases Nat.eq_zero_or_pos needed with rfl | some
    · show subchain.generated + 1 + 0 ≤ maxIndex
      omega
    · exact fits some

theorem generate_some (derives : ∀ index < maxIndex, valid index = true) (needed : Nat) : ∀ {subchain : Subchain},
    subchain.generated + needed ≤ maxIndex →
      generate valid needed subchain = some { subchain with generated := subchain.generated + needed } := by
  induction needed with
  | zero => exact fun _ => rfl
  | succ needed ih =>
    intro subchain fits
    have space : ¬ maxIndex ≤ subchain.generated := by omega
    have derived : ¬ (!valid subchain.generated) = true := by
      rw [derives subchain.generated (by omega)]
      decide
    have one : subchain.generateNext valid = some { subchain with generated := subchain.generated + 1 } := (if_neg space).trans (if_neg derived)
    show (subchain.generateNext valid).bind _ = _
    rw [one]
    refine (ih (by show subchain.generated + 1 + needed ≤ maxIndex; omega)).trans ?_
    rw [Nat.add_assoc, Nat.add_comm 1]

/-- An allocation is made when less than the window is ahead of the floor. -/
def allocated (subchain : Subchain) (count : Nat) : Subchain :=
  if window ≤ subchain.generated - subchain.used then subchain
  else { subchain with generated := subchain.used + allocation (count + 1), lastAllocation := some (allocation (count + 1)) }

theorem needLookahead_eq {count : Nat} (last : subchain.lastAllocation = some (allocation count)) (used : subchain.used ≤ subchain.generated) :
    { subchain.needLookahead.2 with generated := subchain.needLookahead.2.generated + subchain.needLookahead.1 } = subchain.allocated count := by
  have more := window_le_allocation (count + 1)
  unfold needLookahead allocated
  by_cases enough : window ≤ subchain.generated - subchain.used
  · simp only [enough, if_true]
    rfl
  · simp only [enough, if_false, last]
    have total : subchain.generated + (allocation (count + 1) - (subchain.generated - subchain.used)) = subchain.used + allocation (count + 1) := by
      omega
    exact congrArg (fun generated => { subchain with generated := generated, lastAllocation := some (allocation (count + 1)) }) total

end Subchain

/-! ## Any number of confirmations -/

/-- The floor is at the first key that is not used, and the window is ahead of it. -/
structure Ahead (keys : Finset Nat) (count : Nat) (subchain : Subchain) : Prop where
  used : subchain.used = firstUnused subchain.confirmed
  confirmed : subchain.confirmed ⊆ keys
  generated : ∀ index ∈ subchain.confirmed, index < subchain.generated
  ahead : subchain.used + window ≤ subchain.generated
  fits : subchain.generated ≤ maxIndex
  last : subchain.lastAllocation = some (allocation count)
  least : fewest count ≤ subchain.generated
  greatest : subchain.generated ≤ most count

/-- What one confirmation does. -/
def Subchain.use (subchain : Subchain) (index : Nat) (count : Nat) : Subchain :=
  { subchain with confirmed := insert index subchain.confirmed, used := firstUnused (insert index subchain.confirmed) : Subchain }.allocated count

theorem Ahead.checkUsed {count : Nat} (ahead : Ahead keys count subchain) (generated : index < subchain.generated) :
    ({ subchain with confirmed := insert index subchain.confirmed } : Subchain).checkUsed index =
      { subchain with confirmed := insert index subchain.confirmed, used := firstUnused (insert index subchain.confirmed) } := by
  refine Subchain.checkUsed_eq (fun other below => ?_) (fun used => ?_) (fun other member => ?_) (Finset.mem_insert_self _ _)
  · have below : other < subchain.used := below
    exact Finset.mem_insert_of_mem (mem_of_lt_firstUnused (ahead.used ▸ below))
  · have used : subchain.used ∈ insert index subchain.confirmed := used
    rcases Finset.mem_insert.mp used with same | used
    · exact same
    · rw [ahead.used] at used
      exact absurd used (firstUnused_notMem _)
  · rcases Finset.mem_insert.mp member with rfl | member
    · exact generated
    · exact ahead.generated other member

theorem Ahead.below {count : Nat} (ahead : Ahead keys count subchain) (generated : index < subchain.generated) :
    firstUnused (insert index subchain.confirmed) ≤ subchain.generated := by
  by_contra above
  rcases Finset.mem_insert.mp (mem_of_lt_firstUnused (Nat.lt_of_not_le above)) with same | member
  · exact Nat.lt_irrefl _ (same ▸ generated)
  · exact Nat.lt_irrefl _ (ahead.generated _ member)

theorem Ahead.confirm_eq {count : Nat} (ahead : Ahead keys count subchain) (generated : index < subchain.generated)
    (done : subchain.confirm valid index = some after) : after = subchain.use index count ∧ after.generated ≤ maxIndex := by
  have done := (if_pos generated).symm.trans done
  rw [ahead.checkUsed generated] at done
  obtain ⟨rfl, fits⟩ := Subchain.generate_eq _ done
  refine ⟨Subchain.needLookahead_eq ahead.last (ahead.below generated), ?_⟩
  rcases Nat.eq_zero_or_pos (Subchain.needLookahead
    { subchain with confirmed := insert index subchain.confirmed, used := firstUnused (insert index subchain.confirmed) }).1 with none | some
  · have kept : (Subchain.needLookahead
        { subchain with confirmed := insert index subchain.confirmed, used := firstUnused (insert index subchain.confirmed) }).2.generated =
        subchain.generated := by
      unfold Subchain.needLookahead
      simp only []
      split <;> rfl
    show _ + _ ≤ _
    rw [none, kept]
    exact ahead.fits
  · exact fits some

theorem Ahead.confirm_some {count : Nat} (derives : ∀ index < maxIndex, valid index = true) (ahead : Ahead keys count subchain)
    (generated : index < subchain.generated) (fits : (subchain.use index count).generated ≤ maxIndex) :
    subchain.confirm valid index = some (subchain.use index count) := by
  have total := @Subchain.needLookahead_eq
    { subchain with confirmed := insert index subchain.confirmed, used := firstUnused (insert index subchain.confirmed) } _ ahead.last
    (ahead.below generated)
  unfold Subchain.confirm
  rw [if_pos generated, ahead.checkUsed generated]
  refine (Subchain.generate_some derives _ ?_).trans (congrArg some total)
  rw [Subchain.use, ← total] at fits
  exact fits

/-- Where the window is still ahead nothing is generated. -/
theorem Subchain.use_still {count : Nat} (enough : firstUnused (insert index subchain.confirmed) + window ≤ subchain.generated) :
    subchain.use index count =
      { subchain with confirmed := insert index subchain.confirmed, used := firstUnused (insert index subchain.confirmed) } :=
  if_pos (Nat.le_sub_of_add_le' enough)

theorem Subchain.use_allocates {count : Nat} (short : subchain.generated < firstUnused (insert index subchain.confirmed) + window)
    (some : 0 < window) :
    subchain.use index count =
      { confirmed := insert index subchain.confirmed
        used := firstUnused (insert index subchain.confirmed)
        generated := firstUnused (insert index subchain.confirmed) + allocation (count + 1)
        lastAllocation := Option.some (allocation (count + 1)) } :=
  if_neg (by show ¬ _ ≤ subchain.generated - firstUnused (insert index subchain.confirmed); omega)

theorem Ahead.use {count : Nat} (ahead : Ahead keys count subchain) (member : index ∈ keys) (generated : index < subchain.generated)
    (fits : (subchain.use index count).generated ≤ maxIndex) : ∃ next, Ahead keys next (subchain.use index count) := by
  have subset : insert index subchain.confirmed ⊆ keys := Finset.insert_subset member ahead.confirmed
  have all : ∀ other ∈ insert index subchain.confirmed, other < subchain.generated := by
    intro other used
    rcases Finset.mem_insert.mp used with rfl | used
    · exact generated
    · exact ahead.generated other used
  have below := ahead.below generated
  by_cases enough : firstUnused (insert index subchain.confirmed) + window ≤ subchain.generated
  · rw [Subchain.use_still enough] at fits ⊢
    exact ⟨count, rfl, subset, all, enough, fits, ahead.last, ahead.least, ahead.greatest⟩
  · have short := Nat.lt_of_not_le enough
    rw [Subchain.use_allocates short (by decide)] at fits ⊢
    have more := window_le_allocation (count + 1)
    refine ⟨count + 1, rfl, subset, fun other used => ?_, Nat.add_le_add_left more _, fits, rfl, ?_, Nat.add_le_add_right (below.trans ahead.greatest) _⟩
    · exact (all other used).trans (short.trans_le (Nat.add_le_add_left more _))
    · have least := ahead.least
      show fewest count - (window - 1) + allocation (count + 1) ≤ _ + allocation (count + 1)
      omega

/-! ## The fewest keys -/

theorem start_eq {start : Subchain} (started : Subchain.checkLookahead {} valid = some start) :
    start = { generated := window, lastAllocation := some window } :=
  (Subchain.generate_eq _ started).1

theorem Ahead.start (keys : Finset Nat) : Ahead keys 0 { generated := window, lastAllocation := some window } where
  used := (firstUnused_eq (fun _ before => absurd before (Nat.not_lt_zero _)) (Finset.notMem_empty 0)).symm
  confirmed := Finset.empty_subset keys
  generated := fun _ member => absurd member (Finset.notMem_empty _)
  ahead := (Nat.zero_add _).le
  fits := by decide
  last := rfl
  least := le_rfl
  greatest := le_rfl

theorem Ahead.of_run {start : Subchain} (ahead : ∃ count, Ahead keys count start) (run : (machine valid).Run (May keys) start after) :
    ∃ count, Ahead keys count after := by
  induction run with
  | start => exact ahead
  | step key _ may stepped kept =>
    obtain ⟨count, ahead⟩ := kept
    obtain ⟨rfl, fits⟩ := ahead.confirm_eq may.2 stepped
    exact ahead.use may.1 may.2 fits

/-- When all keys that can be are confirmed, the floor is at the first key of all that is not used. -/
theorem Ahead.used_eq {count : Nat} (ahead : Ahead keys count subchain) (finished : Finished keys subchain) :
    subchain.used = firstUnused keys := by
  refine Nat.le_antisymm (ahead.used ▸ firstUnused_mono ahead.confirmed) (Nat.le_of_not_lt fun above => ?_)
  have member := mem_of_lt_firstUnused above
  have generated : subchain.used < subchain.generated := (Nat.lt_add_of_pos_right (by decide)).trans_le ahead.ahead
  have confirmed := finished subchain.used member generated
  rw [ahead.used] at confirmed
  exact firstUnused_notMem _ confirmed

theorem Ahead.leastGenerated_le {count : Nat} (ahead : Ahead keys count subchain) (finished : Finished keys subchain) :
    leastGenerated keys ≤ subchain.generated := by
  have enough := ahead.ahead
  rw [ahead.used_eq finished] at enough
  refine Nat.max_le.mpr ⟨enough, (fewest_mono ?_).trans ahead.least⟩
  exact Nat.find_min' _ (enough.trans ahead.greatest)

/-! ### An order with the fewest keys -/

/-- All keys of a list are confirmed while the window stays ahead. -/
theorem Ahead.finish {start : Subchain} (derives : ∀ index < maxIndex, valid index = true) (rest : List Nat) : ∀ {count : Nat} {subchain : Subchain},
    (machine valid).Run (May keys) start subchain → Ahead keys count subchain → firstUnused keys + window ≤ subchain.generated →
      (∀ key ∈ rest, key ∈ keys ∧ key < subchain.generated) →
      ∃ after, (machine valid).Run (May keys) start after ∧ after.generated = subchain.generated ∧ subchain.confirmed ⊆ after.confirmed ∧
        ∀ key ∈ rest, key ∈ after.confirmed := by
  induction rest with
  | nil => exact fun run _ _ _ => ⟨_, run, rfl, Finset.Subset.refl _, fun _ member => absurd member List.not_mem_nil⟩
  | cons key rest ih =>
    intro count subchain run ahead enough all
    obtain ⟨member, generated⟩ := all key List.mem_cons_self
    have still : subchain.use key count = _ :=
      Subchain.use_still ((Nat.add_le_add_right (firstUnused_mono (Finset.insert_subset member ahead.confirmed)) _).trans enough)
    have fits : (subchain.use key count).generated ≤ maxIndex := by
      rw [still]
      exact ahead.fits
    have stepped := ahead.confirm_some derives generated fits
    obtain ⟨next, onward⟩ := ahead.use member generated fits
    rw [still] at stepped onward
    obtain ⟨after, ran, kept, subset, confirmed⟩ := ih (run.step key ⟨member, generated⟩ stepped) onward enough
      fun key member => all key (List.mem_cons_of_mem _ member)
    refine ⟨after, ran, kept, (Finset.subset_insert _ _).trans subset, fun other member => ?_⟩
    rcases List.mem_cons.mp member with rfl | member
    · exact subset (Finset.mem_insert_self _ _)
    · exact confirmed other member

/-- Where the first keys up to the floor are confirmed. -/
def reachedState (floor count total : Nat) : Subchain where
  generated := total
  used := floor
  lastAllocation := some (allocation count)
  confirmed := Finset.range floor

/-- The keys from the floor on are confirmed, but for the first of them. -/
def openState (floor count total next : Nat) : Subchain := { reachedState floor count total with confirmed := (Finset.range next).erase floor }

theorem firstUnused_open {floor next : Nat} (above : floor < next) : firstUnused ((Finset.range next).erase floor) = floor :=
  firstUnused_eq (fun _ below => Finset.mem_erase.mpr ⟨below.ne, Finset.mem_range.mpr (below.trans above)⟩) (Finset.notMem_erase _ _)

theorem openState_ahead {floor count total next : Nat} (above : floor < next) (below : next ≤ total) (enough : floor + window ≤ total)
    (subset : ∀ key < next, key ∈ keys) (fits : total ≤ maxIndex) (least : fewest count ≤ total) (greatest : total ≤ most count) :
    Ahead keys count (openState floor count total next) where
  used := (firstUnused_open above).symm
  confirmed := fun _ member => subset _ (Finset.mem_range.mp (Finset.mem_of_mem_erase member))
  generated := fun _ member => (Finset.mem_range.mp (Finset.mem_of_mem_erase member)).trans_le below
  ahead := enough
  fits := fits
  last := rfl
  least := least
  greatest := greatest

section

variable {start : Subchain} {floor count total : Nat} (derives : ∀ index < maxIndex, valid index = true) (enough : floor + window ≤ total)
  (fits : total ≤ maxIndex) (least : fewest count ≤ total) (greatest : total ≤ most count)

include derives enough fits least greatest

theorem open_run (run : (machine valid).Run (May keys) start (reachedState floor count total)) (next : Nat) (above : floor < next) :
    next ≤ total → (∀ key < next, key ∈ keys) → (machine valid).Run (May keys) start (openState floor count total next) := by
  induction next, above using Nat.le_induction with
  | base =>
    intro _ _
    have same : openState floor count total (floor + 1) = reachedState floor count total := by
      unfold openState
      rw [Finset.range_add_one, Finset.erase_insert Finset.notMem_range_self]
      rfl
    exact same ▸ run
  | succ next above ih =>
    intro below subset
    have ahead : Ahead keys count (openState floor count total next) :=
      openState_ahead above (Nat.le_of_succ_le below) enough (fun key before => subset key (Nat.lt_succ_of_lt before)) fits least greatest
    have confirmed : insert next (openState floor count total next).confirmed = (Finset.range (next + 1)).erase floor := by
      rw [Finset.range_add_one, Finset.erase_insert_of_ne (Nat.ne_of_gt above)]
      rfl
    have still : (openState floor count total next).use next count = openState floor count total (next + 1) := by
      have unused : firstUnused (insert next (openState floor count total next).confirmed) = floor := by
        rw [confirmed]
        exact firstUnused_open (Nat.lt_succ_of_lt above)
      rw [Subchain.use_still (by rw [unused]; exact enough), unused, confirmed]
      rfl
    have stepped := ahead.confirm_some derives (Nat.lt_of_succ_le below) (by rw [still]; exact fits)
    rw [still] at stepped
    exact (ih (Nat.le_of_succ_le below) fun key before => subset key (Nat.lt_succ_of_lt before)).step next
      ⟨subset next (Nat.lt_succ_self next), Nat.lt_of_succ_le below⟩ stepped

/-- The first key that was left closes the row, and the next allocation is made. -/
theorem close_step {next : Nat} (above : floor < next) (below : next ≤ total) (short : total < next + window) (subset : ∀ key < next, key ∈ keys)
    (space : next + allocation (count + 1) ≤ maxIndex) :
    (openState floor count total next).confirm valid floor = some (reachedState next (count + 1) (next + allocation (count + 1))) := by
  have ahead : Ahead keys count (openState floor count total next) := openState_ahead above below enough subset fits least greatest
  have confirmed : insert floor (openState floor count total next).confirmed = Finset.range next :=
    Finset.insert_erase (Finset.mem_range.mpr above)
  have allocates : (openState floor count total next).use floor count = reachedState next (count + 1) (next + allocation (count + 1)) := by
    have unused : firstUnused (insert floor (openState floor count total next).confirmed) = next := by
      rw [confirmed, firstUnused_range]
    rw [Subchain.use_allocates (by rw [unused]; exact short) (by decide), unused, confirmed]
    rfl
  have stepped := ahead.confirm_some derives (above.trans_le below) (by rw [allocates]; exact space)
  rw [stepped, allocates]

end

/-- Every number of keys between the bounds can be come to. -/
theorem reached_run (derives : ∀ index < maxIndex, valid index = true) (count : Nat) : ∀ {floor total : Nat}, floor + allocation count = total →
    fewest count ≤ total → total ≤ most count → total ≤ maxIndex → (∀ key < floor, key ∈ keys) →
    (machine valid).Run (May keys) { generated := window, lastAllocation := some window } (reachedState floor count total) := by
  induction count with
  | zero =>
    intro floor total same _ greatest _ _
    have first : floor + window = total := same
    have few : total ≤ window := greatest
    obtain rfl : floor = 0 := by omega
    obtain rfl : window = total := by omega
    exact .start
  | succ count ih =>
    intro floor total same least greatest fits subset
    have widest := window_le_allocation count
    have larger := window_le_allocation (count + 1)
    have held := allocation_le_fewest count
    have order := fewest_le_most count
    have least : fewest count - (window - 1) + allocation (count + 1) ≤ total := least
    have greatest : total ≤ most count + allocation (count + 1) := greatest
    unfold window at widest larger
    -- So many keys are there before the last allocation that the floor comes near to their end.
    obtain ⟨before, fewer, more, near, below⟩ : ∃ before, fewest count ≤ before ∧ before ≤ most count ∧ before < floor + 20 ∧ floor ≤ before := by
      rcases Nat.le_total (fewest count) floor with low | high
      · exact ⟨floor, low, by omega, by omega, le_rfl⟩
      · exact ⟨fewest count, le_rfl, order, by unfold window at least; omega, high⟩
    have lower : before - allocation count < floor := by omega
    have space : before ≤ maxIndex := by omega
    have earlier := @ih (before - allocation count) before (by omega) fewer more space fun key under => subset key (under.trans lower)
    have opened := open_run derives (by unfold window; omega) space fewer more earlier floor lower below subset
    have closed := @close_step valid keys (before - allocation count) count before derives (by unfold window; omega) space fewer more floor lower below
      (by unfold window; omega) subset (by omega)
    rw [same] at closed
    exact opened.step _ ⟨subset _ lower, by show _ < before; omega⟩ closed

/-- Some order of confirmations ends with the least number of keys. -/
theorem exists_least (derives : ∀ index < maxIndex, valid index = true) (fits : leastGenerated keys ≤ maxIndex) :
    ∃ after, (machine valid).Run (May keys) { generated := window, lastAllocation := some window } after ∧ Finished keys after ∧
      after.generated = leastGenerated keys := by
  have held := allocation_le_fewest (allocations keys)
  have least : fewest (allocations keys) ≤ leastGenerated keys := Nat.le_max_right _ _
  have enough : firstUnused keys + window ≤ leastGenerated keys := Nat.le_max_left _ _
  have greatest : leastGenerated keys ≤ most (allocations keys) :=
    Nat.max_le.mpr ⟨Nat.find_spec (most_unbounded (firstUnused keys + window)), fewest_le_most _⟩
  -- The last allocation is not made later than at the first key that is not used.
  have floor : leastGenerated keys - allocation (allocations keys) ≤ firstUnused keys := by
    have widest := window_le_allocation (allocations keys)
    suffices bound : fewest (allocations keys) ≤ firstUnused keys + allocation (allocations keys) by
      unfold leastGenerated window at *
      omega
    cases found : allocations keys with
    | zero => exact Nat.le_add_left _ _
    | succ earlier =>
      have short : ¬ firstUnused keys + window ≤ most earlier :=
        Nat.find_min (most_unbounded (firstUnused keys + window)) (show earlier < allocations keys by rw [found]; exact Nat.lt_succ_self _)
      have order := fewest_le_most earlier
      show fewest earlier - (window - 1) + allocation (earlier + 1) ≤ firstUnused keys + allocation (earlier + 1)
      unfold window at *
      omega
  have widest := window_le_allocation (allocations keys)
  have run := @reached_run valid keys derives (allocations keys) (leastGenerated keys - allocation (allocations keys)) (leastGenerated keys)
    (by omega) least greatest fits fun key below => mem_of_lt_firstUnused (below.trans_le floor)
  have ahead : Ahead keys (allocations keys) (reachedState (leastGenerated keys - allocation (allocations keys)) (allocations keys) (leastGenerated keys)) :=
    { used := (firstUnused_range _).symm
      confirmed := fun key member => mem_of_lt_firstUnused ((Finset.mem_range.mp member).trans_le floor)
      generated := fun key member => (Finset.mem_range.mp member).trans_le (Nat.sub_le _ _)
      ahead := by
        show leastGenerated keys - allocation (allocations keys) + window ≤ leastGenerated keys
        omega
      fits := fits
      last := rfl
      least := least
      greatest := greatest }
  obtain ⟨after, ran, generated, _, confirmed⟩ := Ahead.finish derives ((keys.filter (· < leastGenerated keys)).toList) run ahead enough
    fun key member => Finset.mem_filter.mp (Finset.mem_toList.mp member)
  refine ⟨after, ran, fun key member below => ?_, generated⟩
  exact confirmed key (Finset.mem_toList.mpr (Finset.mem_filter.mpr ⟨member, by rw [generated] at below; exact below⟩))

/-- The gap limit is honoured exactly where the least number of keys is enough, or cannot be generated at all. -/
theorem gap_limit_honoured_iff (derives : ∀ index < maxIndex, valid index = true) (keys : Finset Nat) :
    Honoured valid keys ↔ (∀ key ∈ keys, key + window < leastGenerated keys) ∨ maxIndex < leastGenerated keys := by
  constructor
  · intro honoured
    by_contra neither
    obtain ⟨outside, fits⟩ := not_or.mp neither
    have started : Subchain.checkLookahead {} valid = some { generated := window, lastAllocation := some window } :=
      Subchain.generate_some derives 20 (by decide)
    obtain ⟨after, run, finished, generated⟩ := exists_least derives (Nat.le_of_not_lt fits)
    have covers := honoured _ after started run finished
    exact outside fun key member => generated ▸ covers key member window le_rfl
  · rintro enough start after started run finished key member ahead within
    rw [start_eq started] at run
    obtain ⟨count, kept⟩ := Ahead.of_run ⟨0, Ahead.start keys⟩ run
    have least := kept.leastGenerated_le finished
    rcases enough with enough | full
    · exact (Nat.add_le_add_left within key).trans_lt ((enough key member).trans_le least)
    · exact absurd (full.trans_le least) (Nat.not_lt_of_le kept.fits)

/-- After the first key is used there are at least 41. -/
theorem gap_limit_honoured_sample : Honoured (fun _ => true) {0, 5} := by
  have unused : firstUnused {0, 5} = 1 := firstUnused_eq (by decide) (by decide)
  have once : allocations {0, 5} = 1 := by
    unfold allocations
    rw [Nat.find_eq_iff, unused]
    decide
  have least : 41 ≤ leastGenerated {0, 5} := by
    unfold leastGenerated
    rw [once]
    exact Nat.le_max_right _ _
  refine (gap_limit_honoured_iff (fun _ _ => rfl) {0, 5}).mpr (.inl fun key member => lt_of_lt_of_le ?_ least)
  exact (by decide : ∀ key ∈ ({0, 5} : Finset Nat), key + window < 41) key member

/-- The last key of the first window is used, and the one that would come next is never generated. -/
theorem sparse_keys_lost : GapLimited {19, 38} ∧ ¬ Honoured (fun _ => true) {19, 38} := by
  refine ⟨by unfold GapLimited; decide, fun honoured => ?_⟩
  have started : Subchain.checkLookahead {} (fun _ => true) = some { generated := 20, lastAllocation := some 20 } := by decide +kernel
  have stepped : (machine fun _ => true).step 19 { generated := 20, lastAllocation := some 20 } =
      some { generated := 20, lastAllocation := some 20, confirmed := {19} } := by decide +kernel
  have run : (machine fun _ => true).Run (May {19, 38}) { generated := 20, lastAllocation := some 20 } _ :=
    Machine.Run.start.step 19 ⟨by decide, by decide⟩ stepped
  have covers := honoured _ _ started run (by unfold Finished; decide)
  exact absurd (covers 38 (by decide) 0 (by decide)) (by decide)

end Opentxs.Subaccount
