import Mathlib.Algebra.Order.Monoid.WithTop
import Mathlib.Data.NNRat.Floor
import Opentxs.HeaderOracle.Shared
import Opentxs.Library.Hex

/-! The work of headers: a quotient of targets, summed along the chain, written as the hex text of an
integer and read back from it. -/

namespace Opentxs.HeaderOracle.PersistedWork
open Library Library.Hex BlockHeader Shared

/-- Exact values in place of floating point. The top is the quotient by zero. -/
abbrev Work := WithTop ℚ≥0

/-- The number of a compact target. -/
def numericHash (input : UInt32) : Nat :=
  let mantissa := input.toNat % 2 ^ 23
  let exponent := input.toNat / 2 ^ 24
  if exponent > 3 then mantissa * 2 ^ (8 * (exponent - 3)) else mantissa * 2 ^ (8 * (3 - exponent))

structure Chain where
  maxTarget : Nat
  positive : 0 < maxTarget

def Chain.work (chain : Chain) (target : Nat) : Work :=
  if target > chain.maxTarget then ((1 : ℚ≥0) : Work)
  else if target = 0 then ⊤
  else ((chain.maxTarget / target : ℚ≥0) : Work)

def Chain.minimumWork (chain : Chain) : Work := chain.work chain.maxTarget

-- The text that the number library gives for what is no number.
variable (unbounded : List Char)

/-- The conversion to an integer drops the fraction. -/
def asHex : Work → List Char
  | ⊤ => unbounded
  | (value : ℚ≥0) => toHex (exportBits ⌊value⌋₊)

/-- A text that cannot be decoded gives no work. -/
def ofHex (hex : List Char) : Work :=
  if hex = [] then 0
  else match decodeHex hex with
    | some bytes => ((importBits bytes : ℚ≥0) : Work)
    | none => 0

def reload (header : Header Work) : Header Work :=
  { header with work := ofHex (asHex unbounded header.work), inheritWork := ofHex (asHex unbounded header.inheritWork) }

/-! ## What survives -/

/-- The value is a natural number. -/
def Whole (value : Work) : Prop := ∃ number : Nat, value = ((number : ℚ≥0) : Work)

theorem whole_zero : Whole 0 := ⟨0, by norm_num⟩

theorem Whole.add {first second : Work} (left : Whole first) (right : Whole second) : Whole (first + second) := by
  obtain ⟨one, rfl⟩ := left
  obtain ⟨other, rfl⟩ := right
  exact ⟨one + other, by push_cast; rfl⟩

theorem whole_ofHex (hex : List Char) : Whole (ofHex hex) := by
  unfold ofHex
  split
  · exact whole_zero
  · split
    · next bytes _ => exact ⟨importBits bytes, rfl⟩
    · exact whole_zero

theorem ofHex_toHex (number : Nat) : ofHex (toHex (exportBits number)) = ((number : ℚ≥0) : Work) := by
  have used : toHex (exportBits number) ≠ [] := by
    intro empty
    have length := toHex_length (exportBits number)
    rw [empty, List.length_nil] at length
    have some_byte := List.length_pos_iff.mpr (exportBits_ne_nil number)
    omega
  rw [ofHex, if_neg used, decodeHex_toHex]
  show ((importBits (exportBits number) : ℚ≥0) : Work) = _
  rw [importBits_exportBits]

/-- Written and read back, the whole numbers stay and nothing else does. -/
theorem ofHex_asHex_iff (value : Work) : ofHex (asHex unbounded value) = value ↔ Whole value := by
  constructor
  · intro same
    rw [← same]
    exact whole_ofHex _
  · rintro ⟨number, rfl⟩
    show ofHex (toHex (exportBits ⌊(number : ℚ≥0)⌋₊)) = _
    rw [Nat.floor_natCast, ofHex_toHex]

/-- The target takes the maximum apart without a rest, or is beyond it. -/
def Chain.Divides (chain : Chain) (target : Nat) : Prop := chain.maxTarget < target ∨ target ∣ chain.maxTarget

theorem whole_work_iff (chain : Chain) (target : Nat) : Whole (chain.work target) ↔ chain.Divides target := by
  unfold Chain.work Chain.Divides
  split
  · next beyond => exact iff_of_true ⟨1, by norm_num⟩ (.inl beyond)
  · next within =>
    split
    · next zero =>
      subst zero
      refine iff_of_false ?_ ?_
      · rintro ⟨number, same⟩
        exact WithTop.top_ne_coe same
      · rintro (beyond | divides)
        · exact within beyond
        · exact chain.positive.ne' (Nat.eq_zero_of_zero_dvd divides)
    · next some_target =>
      have nonzero : (target : ℚ≥0) ≠ 0 := Nat.cast_ne_zero.mpr some_target
      rw [or_iff_right within]
      constructor
      · rintro ⟨number, same⟩
        have quotient := WithTop.coe_inj.mp same
        rw [div_eq_iff nonzero] at quotient
        exact ⟨number, by rw [mul_comm]; exact_mod_cast quotient⟩
      · rintro ⟨number, product⟩
        refine ⟨number, WithTop.coe_inj.mpr ?_⟩
        rw [div_eq_iff nonzero, product]
        push_cast
        exact mul_comm _ _

theorem whole_minimumWork (chain : Chain) : Whole chain.minimumWork :=
  (whole_work_iff chain chain.maxTarget).mpr (.inr dvd_rfl)

/-! ## Along a chain -/

/-- Headers with their targets, the last one first. A new header inherits the least work until it is
connected to its parent. -/
inductive Staged (chain : Chain) : List (Header Work) → List Nat → Prop
  | new (header : Header Work) (target : Nat) (work : header.work = chain.work target)
      (inherited : header.inheritWork = chain.minimumWork) : Staged chain [header] [target]
  | connected (checkpoint : Position) (parent child header : Header Work) (older : List (Header Work)) (target : Nat)
      (targets : List Nat) (before : Staged chain (parent :: older) targets) (work : child.work = chain.work target)
      (connects : connectToParent checkpoint parent child = .ok header) :
      Staged chain (header :: parent :: older) (target :: targets)

theorem connected_works {checkpoint : Position} {parent child header : Header Work}
    (connects : connectToParent checkpoint parent child = .ok header) :
    header.work = child.work ∧ header.inheritWork = parent.totalWork := by
  by_cases named : child.parentHash = parent.hash
  · rw [connectToParent_ok checkpoint parent child named] at connects
    cases connects
    exact ⟨under_work checkpoint parent child, under_inheritWork checkpoint parent child⟩
  · rw [connectToParent_terminates checkpoint parent child named] at connects
    cases connects

theorem whole_totalWork {header : Header Work} (work : Whole header.work) (inherited : Whole header.inheritWork) :
    Whole header.totalWork := by
  unfold Header.totalWork
  split
  · exact work
  · exact work.add inherited

/-- Every value of the line is whole exactly if every quotient is. -/
theorem Staged.whole_iff {chain : Chain} {headers : List (Header Work)} {targets : List Nat} (staged : Staged chain headers targets) :
    (∀ header ∈ headers, Whole header.work ∧ Whole header.inheritWork) ↔ ∀ target ∈ targets, chain.Divides target := by
  induction staged with
  | new header target work inherited =>
    rw [List.forall_mem_singleton, List.forall_mem_singleton, work, inherited, whole_work_iff]
    exact and_iff_left (whole_minimumWork chain)
  | connected checkpoint parent child header older target targets before work connects ih =>
    obtain ⟨own, inherited⟩ := connected_works connects
    rw [List.forall_mem_cons, List.forall_mem_cons (l := targets), ← ih, own, work, inherited, whole_work_iff]
    constructor
    · exact fun all => ⟨all.1.1, all.2⟩
    · intro all
      have parents := all.2 parent List.mem_cons_self
      exact ⟨⟨all.1, whole_totalWork parents.1 parents.2⟩, all.2⟩

/-- Each header keeps its works, and which of two headers wins does not depend on where they come from. -/
structure Lossless (first second : List (Header Work)) : Prop where
  kept : ∀ header ∈ first ++ second, ofHex (asHex unbounded header.work) = header.work ∧
    ofHex (asHex unbounded header.inheritWork) = header.inheritWork
  total : ∀ header ∈ first ++ second, (reload unbounded header).totalWork = header.totalWork
  chosen : ∀ current ∈ first, ∀ candidate ∈ second, ∀ left ∈ [current, reload unbounded current],
    ∀ right ∈ [candidate, reload unbounded candidate], evaluateCandidate left right = evaluateCandidate current candidate

theorem reload_eq {header : Header Work} (work : ofHex (asHex unbounded header.work) = header.work)
    (inherited : ofHex (asHex unbounded header.inheritWork) = header.inheritWork) : reload unbounded header = header := by
  rw [reload, work, inherited]

/-- Work survives along two branches exactly if every target divides the chain's maximum. -/
theorem persisted_work_lossless_iff (chain : Chain) {first second : List (Header Work)} {firstTargets secondTargets : List Nat}
    (left : Staged chain first firstTargets) (right : Staged chain second secondTargets) :
    Lossless unbounded first second ↔ ∀ target ∈ firstTargets ++ secondTargets, chain.Divides target := by
  have whole : (∀ header ∈ first ++ second, Whole header.work ∧ Whole header.inheritWork) ↔
      ∀ target ∈ firstTargets ++ secondTargets, chain.Divides target := by
    rw [List.forall_mem_append, List.forall_mem_append, left.whole_iff, right.whole_iff]
  rw [← whole]
  simp only [← ofHex_asHex_iff unbounded]
  constructor
  · exact fun lossless => lossless.kept
  · intro kept
    have same (header : Header Work) (member : header ∈ first ++ second) : reload unbounded header = header :=
      reload_eq unbounded (kept header member).1 (kept header member).2
    refine ⟨kept, fun header member => by rw [same header member], ?_⟩
    intro current one candidate other left here right there
    rw [same current (List.mem_append_left _ one), List.mem_pair, or_self] at here
    rw [same candidate (List.mem_append_right _ other), List.mem_pair, or_self] at there
    rw [here, there]

/-! ## A tie that is none -/

instance (chain : Chain) (target : Nat) : Decidable (chain.Divides target) :=
  inferInstanceAs (Decidable (chain.maxTarget < target ∨ target ∣ chain.maxTarget))

def bitcoin : Chain := ⟨numericHash 0x1d00ffff, by decide⟩

def firstHeader : Header Work where
  hash := 1
  parentHash := nullHash
  work := bitcoin.work (numericHash 0x1d00ffff)
  height := 0
  status := .checkpoint
  inheritStatus := .normal
  inheritWork := bitcoin.minimumWork

def secondHeader (hash : Hash) (bits : UInt32) : Header Work :=
  .under ⟨0, 1⟩ firstHeader
    { hash, parentHash := 1, work := bitcoin.work (numericHash bits), height := -1, status := .normal,
      inheritStatus := .normal, inheritWork := bitcoin.minimumWork }

theorem staged_second (hash : Hash) (bits : UInt32) :
    Staged bitcoin [secondHeader hash bits, firstHeader] [numericHash bits, numericHash 0x1d00ffff] :=
  .connected ⟨0, 1⟩ firstHeader _ _ [] _ _ (.new firstHeader _ rfl rfl) rfl (connectToParent_ok ⟨0, 1⟩ firstHeader _ rfl)

theorem third_target_lossless :
    Lossless [] [secondHeader 2 0x1d00ffff, firstHeader] [secondHeader 3 0x1d005555, firstHeader] :=
  (persisted_work_lossless_iff [] bitcoin (staged_second 2 0x1d00ffff) (staged_second 3 0x1d005555)).mpr (by decide +kernel)

theorem bitcoin_work_easiest : bitcoin.work (numericHash 0x1d00ffff) = ((1 : ℚ≥0) : Work) := by
  have value : numericHash 0x1d00ffff = 65535 * 2 ^ 208 := by decide +kernel
  have most : bitcoin.maxTarget = 65535 * 2 ^ 208 := value
  rw [Chain.work, value, most, if_neg (by norm_num), if_neg (by norm_num)]
  norm_num

theorem bitcoin_work_half_more : bitcoin.work (numericHash 0x1d00aaaa) = ((3 / 2 : ℚ≥0) : Work) := by
  have value : numericHash 0x1d00aaaa = 43690 * 2 ^ 208 := by decide +kernel
  have most : bitcoin.maxTarget = 65535 * 2 ^ 208 := by decide +kernel
  rw [Chain.work, value, most, if_neg (by norm_num), if_neg (by norm_num)]
  norm_num

theorem totalWork_second (hash : Hash) (bits : UInt32) :
    (secondHeader hash bits).totalWork = bitcoin.work (numericHash bits) + ((1 : ℚ≥0) : Work) := by
  rw [Header.totalWork, secondHeader, under_parentHash, if_neg (show (1 : Nat) ≠ nullHash by decide), under_work, under_inheritWork,
    ← bitcoin_work_easiest]
  rfl

theorem ofHex_asHex_floor (value : ℚ≥0) : ofHex (asHex unbounded (value : Work)) = ((⌊value⌋₊ : ℚ≥0) : Work) :=
  ofHex_toHex ⌊value⌋₊

/-- The header with half a unit more work wins in memory, and loses its lead when it is loaded. -/
theorem lost_fraction_decides :
    ¬∀ (unbounded : List Char) (chain : Chain) (first second : List (Header Work)) (firstTargets secondTargets : List Nat),
      Staged chain first firstTargets → Staged chain second secondTargets →
      (∀ target ∈ firstTargets ++ secondTargets, target ≤ chain.maxTarget) → Lossless unbounded first second := by
  intro always
  have lossless := always [] bitcoin _ _ _ _ (staged_second 2 0x1d00ffff) (staged_second 3 0x1d00aaaa) (by decide +kernel)
  have same := lossless.chosen (secondHeader 2 0x1d00ffff) (by simp) (secondHeader 3 0x1d00aaaa) (by simp)
    (secondHeader 2 0x1d00ffff) (by simp) (reload [] (secondHeader 3 0x1d00aaaa)) (by simp)
  have wins : evaluateCandidate (secondHeader 2 0x1d00ffff) (secondHeader 3 0x1d00aaaa) = true := by
    rw [evaluateCandidate, decide_eq_true_eq, totalWork_second, totalWork_second, bitcoin_work_easiest, bitcoin_work_half_more,
      ← WithTop.coe_add, ← WithTop.coe_add, gt_iff_lt, WithTop.coe_lt_coe]
    norm_num
  have loaded : (reload [] (secondHeader 3 0x1d00aaaa)).totalWork = ((2 : ℚ≥0) : Work) := by
    have kept : (reload [] (secondHeader 3 0x1d00aaaa)).parentHash = 1 := under_parentHash _ _ _
    have half : ⌊(3 / 2 : ℚ≥0)⌋₊ = 1 := by
      rw [Nat.floor_eq_iff (by norm_num)]
      exact ⟨by rw [← NNRat.coe_le_coe]; norm_num, by norm_num⟩
    rw [Header.totalWork, kept, if_neg (by decide), reload, secondHeader, under_work, under_inheritWork]
    rw [show firstHeader.totalWork = ((1 : ℚ≥0) : Work) from bitcoin_work_easiest, bitcoin_work_half_more,
      ofHex_asHex_floor, ofHex_asHex_floor, half, Nat.floor_one, ← WithTop.coe_add, WithTop.coe_inj]
    norm_num
  have ties : evaluateCandidate (secondHeader 2 0x1d00ffff) (reload [] (secondHeader 3 0x1d00aaaa)) = false := by
    rw [evaluateCandidate, decide_eq_false_iff_not, loaded, totalWork_second, bitcoin_work_easiest, ← WithTop.coe_add,
      gt_iff_lt, WithTop.coe_lt_coe]
    norm_num
  rw [wins, ties] at same
  cases same

end Opentxs.HeaderOracle.PersistedWork
