import Mathlib.Data.Finset.Max
import Opentxs.Library.SortedList

/-! The transaction numbers that the context of a client at a notary keeps: those it has been
promised, those it is liable for, those it may still use, and the highest one seen so far. -/

namespace Opentxs.Consensus.Numbers
open Library.SortedList

structure Data where
  availableTransactionNumbers : Finset Int := ∅
  issuedTransactionNumbers : Finset Int := ∅
  tentativeTransactionNumbers : Finset Int := ∅
  highestTransactionNumber : Int := 0
  deriving DecidableEq

def verifyIssuedNumber (data : Data) (number : Int) : Bool := number ∈ data.issuedTransactionNumbers

def verifyTentativeNumber (data : Data) (number : Int) : Bool := number ∈ data.tentativeTransactionNumbers

def addTentativeNumber (data : Data) (number : Int) : Data × Bool :=
  if number < data.highestTransactionNumber then (data, false)
  else ({ data with tentativeTransactionNumbers := insert number data.tentativeTransactionNumbers },
    number ∉ data.tentativeTransactionNumbers)

def removeTentativeNumber (data : Data) (number : Int) : Data × Bool :=
  ({ data with tentativeTransactionNumbers := data.tentativeTransactionNumbers.erase number },
    number ∈ data.tentativeTransactionNumbers)

def issueNumber (data : Data) (number : Int) : Data × Bool :=
  let issued := insert number data.issuedTransactionNumbers
  let available := insert number data.availableTransactionNumbers
  if number ∈ issued ∧ number ∈ available then
    ({ data with issuedTransactionNumbers := issued, availableTransactionNumbers := available }, true)
  else
    ({ data with issuedTransactionNumbers := issued.erase number, availableTransactionNumbers := available.erase number }, false)

def recoverAvailableNumber (data : Data) (number : Int) : Data × Bool :=
  if number = 0 then (data, false)
  else if number ∉ data.issuedTransactionNumbers then (data, false)
  else ({ data with availableTransactionNumbers := insert number data.availableTransactionNumbers },
    number ∉ data.availableTransactionNumbers)

def consumeAvailable (data : Data) (number : Int) : Data × Bool :=
  ({ data with availableTransactionNumbers := data.availableTransactionNumbers.erase number },
    number ∈ data.availableTransactionNumbers)

def consumeIssued (data : Data) (number : Int) : Data × Bool :=
  ({ data with
      availableTransactionNumbers := data.availableTransactionNumbers.erase number
      issuedTransactionNumbers := data.issuedTransactionNumbers.erase number },
    number ∈ data.issuedTransactionNumbers)

/-- The number that a managed number is made from. Zero is none at all: one number stays in reserve,
except for a process inbox. -/
def nextTransactionNumber (data : Data) (processInbox : Bool) : Data × Int :=
  let reserve := if processInbox then 0 else 1
  if data.availableTransactionNumbers.card ≤ reserve then (data, 0)
  else
    let first := data.availableTransactionNumbers.min.untopD 0
    ({ data with availableTransactionNumbers := data.availableTransactionNumbers.erase first }, first)

/-! ## Accepting numbers -/

/-- The highest and the lowest number of a set. -/
def scanNumberSet (input : Finset Int) : Int × Int := (input.max.unbotD 0, input.min.untopD 0)

/-- The numbers above the limit, and the others. -/
def validateNumberSet (input : Finset Int) (limit : Int) : Finset Int × Finset Int :=
  (input.filter fun number => ¬number ≤ limit, input.filter fun number => number ≤ limit)

structure Update where
  data : Data
  /-- The first invalid number, or zero. -/
  output : Int
  good : Finset Int
  bad : Finset Int

def updateHighest (data : Data) (numbers : Finset Int) : Update :=
  let (highest, lowest) := scanNumberSet numbers
  let (good, bad) := validateNumberSet numbers data.highestTransactionNumber
  { data := if good = ∅ then data else { data with highestTransactionNumber := highest }
    output := if 0 < lowest ∧ lowest ≤ data.highestTransactionNumber then lowest else 0
    good, bad }

def acceptIssuedNumber (data : Data) (number : Int) : Data × Bool :=
  let (removed, tentative) := removeTentativeNumber data number
  if tentative then issueNumber removed number else (removed, false)

/-- One number of a statement, and how many were added. -/
def addIssued (progress : Data × Nat) (number : Int) : Data × Nat :=
  let (data, added) := progress
  let (after, issued) := issueNumber { data with tentativeTransactionNumbers := data.tentativeTransactionNumbers.erase number } number
  (after, if issued then added + 1 else added)

def adding (data : Data) (issued : Finset Int) : Finset Int :=
  issued.filter fun number => verifyTentativeNumber data number ∧ ¬verifyIssuedNumber data number

/-- The numbers that a statement lists as issued. -/
def acceptIssuedNumbers (data : Data) (issued : Finset Int) : Data × Bool :=
  if issued = ∅ then (data, false)
  else if adding data issued = ∅ then (data, 0 = issued.card)
  else
    let update := updateHighest data (adding data issued)
    let (after, added) := (ordered update.good).foldl addIssued (update.data, 0)
    (after, added = issued.card)

/-! ## Notices -/

def verifyBlank (data : Data) (numbers : Finset Int) : Finset Int :=
  numbers.filter fun number => ¬verifyIssuedNumber data number ∧ ¬verifyTentativeNumber data number ∧
    ¬number ≤ data.highestTransactionNumber

def verifySuccess (data : Data) (numbers : Finset Int) : Finset Int :=
  numbers.filter fun number => verifyTentativeNumber data number

def blankNotice (data : Data) (numbers : Finset Int) : Data :=
  (ordered (verifyBlank data numbers)).foldl (fun data number => (addTentativeNumber data number).1) data

def successNotice (data : Data) (numbers : Finset Int) : Data :=
  (ordered (verifySuccess data numbers)).foldl (fun data number => (acceptIssuedNumber data number).1) data

/-! ## What they change -/

/-- Some numbers go from the promised ones to the issued and available ones. -/
structure Issues (accepted : Int → Prop) (before after : Data) : Prop where
  issued : ∀ number, number ∈ after.issuedTransactionNumbers ↔ number ∈ before.issuedTransactionNumbers ∨ accepted number
  available : ∀ number, number ∈ after.availableTransactionNumbers ↔ number ∈ before.availableTransactionNumbers ∨ accepted number
  tentative : ∀ number, number ∈ after.tentativeTransactionNumbers ↔ number ∈ before.tentativeTransactionNumbers ∧ ¬accepted number

variable {before middle after data : Data} {accepted other : Int → Prop} {number : Int}

theorem Issues.none (never : ∀ number, ¬accepted number) : Issues accepted data data := by
  constructor <;> simp [never]

theorem Issues.congr (issues : Issues accepted before after) (same : ∀ number, accepted number ↔ other number) :
    Issues other before after := by
  have equal : accepted = other := funext fun number => propext (same number)
  exact equal ▸ issues

theorem Issues.trans (first : Issues accepted before middle) (second : Issues other middle after) :
    Issues (fun number => accepted number ∨ other number) before after where
  issued := by
    intro number
    rw [second.issued, first.issued, or_assoc]
  available := by
    intro number
    rw [second.available, first.available, or_assoc]
  tentative := by
    intro number
    rw [second.tentative, first.tentative, not_or, and_assoc]

theorem issueNumber_eq (data : Data) (number : Int) : issueNumber data number =
    ({ data with
        issuedTransactionNumbers := insert number data.issuedTransactionNumbers
        availableTransactionNumbers := insert number data.availableTransactionNumbers }, true) :=
  if_pos ⟨Finset.mem_insert_self _ _, Finset.mem_insert_self _ _⟩

/-- A number that is struck off the promised ones and issued. -/
theorem issueNumber_issues (data : Data) (number : Int) :
    Issues (· = number) data (issueNumber { data with tentativeTransactionNumbers := data.tentativeTransactionNumbers.erase number } number).1 := by
  rw [issueNumber_eq]
  refine ⟨fun other => ?_, fun other => ?_, fun other => ?_⟩
  · rw [Finset.mem_insert, or_comm]
  · rw [Finset.mem_insert, or_comm]
  · rw [Finset.mem_erase, and_comm]

theorem acceptIssuedNumber_issues (data : Data) (number : Int) :
    Issues (fun other => other = number ∧ number ∈ data.tentativeTransactionNumbers) data (acceptIssuedNumber data number).1 := by
  by_cases tentative : number ∈ data.tentativeTransactionNumbers
  · have same : acceptIssuedNumber data number =
        issueNumber { data with tentativeTransactionNumbers := data.tentativeTransactionNumbers.erase number } number :=
      if_pos (decide_eq_true tentative)
    rw [same]
    exact (issueNumber_issues data number).congr fun other => ⟨fun equal => ⟨equal, tentative⟩, And.left⟩
  · have same : acceptIssuedNumber data number =
        ({ data with tentativeTransactionNumbers := data.tentativeTransactionNumbers.erase number }, false) :=
      if_neg (by simp [tentative])
    rw [same, Finset.erase_eq_of_notMem tentative]
    exact Issues.none fun other both => tentative both.2

theorem acceptIssuedNumber_highest (data : Data) (number : Int) :
    (acceptIssuedNumber data number).1.highestTransactionNumber = data.highestTransactionNumber := by
  unfold acceptIssuedNumber
  dsimp only
  split
  · rw [issueNumber_eq]
    rfl
  · rfl

theorem acceptEach_issues (numbers : List Int) : ∀ data : Data,
    Issues (fun number => number ∈ numbers ∧ number ∈ data.tentativeTransactionNumbers) data
      (numbers.foldl (fun data number => (acceptIssuedNumber data number).1) data) := by
  induction numbers with
  | nil => exact fun data => Issues.none fun number both => List.not_mem_nil both.1
  | cons first numbers ih =>
    intro data
    have one := acceptIssuedNumber_issues data first
    refine (one.trans (ih _)).congr fun number => ?_
    rw [one.tentative, List.mem_cons]
    by_cases same : number = first
    · subst same
      tauto
    · tauto

theorem acceptEach_highest (numbers : List Int) : ∀ data : Data,
    (numbers.foldl (fun data number => (acceptIssuedNumber data number).1) data).highestTransactionNumber =
      data.highestTransactionNumber := by
  induction numbers with
  | nil => exact fun _ => rfl
  | cons first numbers ih => exact fun data => (ih _).trans (acceptIssuedNumber_highest data first)

/-- A success notice issues whatever was promised, and leaves the highest number. -/
theorem successNotice_issues (data : Data) (numbers : Finset Int) :
    Issues (fun number => number ∈ numbers ∧ number ∈ data.tentativeTransactionNumbers) data (successNotice data numbers) := by
  refine (acceptEach_issues _ data).congr fun number => ?_
  simp only [mem_ordered, verifySuccess, verifyTentativeNumber, Finset.mem_filter, decide_eq_true_eq]
  tauto

theorem successNotice_highest (data : Data) (numbers : Finset Int) :
    (successNotice data numbers).highestTransactionNumber = data.highestTransactionNumber := acceptEach_highest _ data

theorem addIssued_issues (numbers : List Int) : ∀ progress : Data × Nat,
    Issues (· ∈ numbers) progress.1 (numbers.foldl addIssued progress).1 ∧
      (numbers.foldl addIssued progress).1.highestTransactionNumber = progress.1.highestTransactionNumber := by
  induction numbers with
  | nil => exact fun progress => ⟨Issues.none fun number => List.not_mem_nil, rfl⟩
  | cons first numbers ih =>
    intro progress
    obtain ⟨rest, highest⟩ := ih (addIssued progress first)
    refine ⟨((issueNumber_issues progress.1 first).trans rest).congr fun number => List.mem_cons.symm, highest.trans ?_⟩
    show (issueNumber { progress.1 with tentativeTransactionNumbers := progress.1.tentativeTransactionNumbers.erase first } first).1.highestTransactionNumber = _
    rw [issueNumber_eq]

theorem mem_adding {issued : Finset Int} : number ∈ adding data issued ↔
    number ∈ issued ∧ number ∈ data.tentativeTransactionNumbers ∧ number ∉ data.issuedTransactionNumbers := by
  simp [adding, verifyTentativeNumber, verifyIssuedNumber]

theorem mem_good {numbers : Finset Int} :
    number ∈ (updateHighest data numbers).good ↔ number ∈ numbers ∧ data.highestTransactionNumber < number := by
  simp [updateHighest, validateNumberSet]

/-- The highest number stays if none of the numbers is above it, and is the greatest of them
otherwise. -/
theorem updateHighest_cases (data : Data) (numbers : Finset Int) :
    (updateHighest data numbers).data = data ∧ (∀ number ∈ numbers, number ≤ data.highestTransactionNumber) ∨
      ∃ highest ∈ numbers, data.highestTransactionNumber < highest ∧ (∀ number ∈ numbers, number ≤ highest) ∧
        (updateHighest data numbers).data = { data with highestTransactionNumber := highest } := by
  by_cases good : (updateHighest data numbers).good = ∅
  · refine .inl ⟨if_pos good, fun number inside => ?_⟩
    by_contra above
    have member := mem_good.mpr ⟨inside, not_le.mp above⟩
    rw [good] at member
    exact Finset.notMem_empty number member
  · obtain ⟨above, member⟩ := Finset.nonempty_iff_ne_empty.mpr good
    obtain ⟨inside, higher⟩ := mem_good.mp member
    have filled : numbers.Nonempty := ⟨above, inside⟩
    have scanned : (scanNumberSet numbers).1 = numbers.max' filled := by
      unfold scanNumberSet
      rw [← Finset.coe_max' filled]
      rfl
    refine .inr ⟨numbers.max' filled, numbers.max'_mem filled, lt_of_lt_of_le higher (numbers.le_max' above inside), numbers.le_max', ?_⟩
    rw [← scanned]
    exact if_neg good

/-- What a statement brings: the promised numbers among its own that are not issued yet and are
above the highest number. -/
def Brings (data : Data) (issued : Finset Int) (number : Int) : Prop :=
  number ∈ issued ∧ number ∈ data.tentativeTransactionNumbers ∧ number ∉ data.issuedTransactionNumbers ∧
    data.highestTransactionNumber < number

theorem acceptIssuedNumbers_issues (data : Data) (issued : Finset Int) :
    Issues (Brings data issued) data (acceptIssuedNumbers data issued).1 ∧
      (acceptIssuedNumbers data issued).1.highestTransactionNumber = (updateHighest data (adding data issued)).data.highestTransactionNumber := by
  have brings (number : Int) : Brings data issued number ↔ number ∈ adding data issued ∧ data.highestTransactionNumber < number := by
    rw [mem_adding]
    unfold Brings
    tauto
  by_cases idle : adding data issued = ∅
  · have same : (acceptIssuedNumbers data issued).1 = data := by
      unfold acceptIssuedNumbers
      split
      · rfl
      · rfl
    rw [same, idle]
    refine ⟨Issues.none fun number here => ?_, rfl⟩
    have inside := ((brings number).mp here).1
    rw [idle] at inside
    exact Finset.notMem_empty number inside
  · have filled : issued ≠ ∅ := by
      rintro rfl
      exact idle (Finset.filter_empty _)
    have same : (acceptIssuedNumbers data issued).1 =
        ((ordered (updateHighest data (adding data issued)).good).foldl addIssued ((updateHighest data (adding data issued)).data, 0)).1 := by
      unfold acceptIssuedNumbers
      rw [if_neg filled, if_neg idle]
    obtain ⟨issues, highest⟩ := addIssued_issues (ordered (updateHighest data (adding data issued)).good)
      ((updateHighest data (adding data issued)).data, 0)
    rw [same]
    refine ⟨?_, highest⟩
    have accepted (number : Int) : number ∈ ordered (updateHighest data (adding data issued)).good ↔ Brings data issued number := by
      rw [mem_ordered, mem_good, brings]
    have moved := issues.congr accepted
    rcases updateHighest_cases data (adding data issued) with ⟨stays, _⟩ | ⟨_, _, _, _, raised⟩
    · rw [stays] at moved ⊢
      exact moved
    · rw [raised] at moved ⊢
      exact ⟨moved.issued, moved.available, moved.tentative⟩

theorem acceptIssuedNumbers_ge (data : Data) (issued : Finset Int) :
    data.highestTransactionNumber ≤ (acceptIssuedNumbers data issued).1.highestTransactionNumber := by
  rw [(acceptIssuedNumbers_issues data issued).2]
  rcases updateHighest_cases data (adding data issued) with ⟨stays, _⟩ | ⟨_, _, above, _, raised⟩
  · rw [stays]
  · rw [raised]
    exact above.le

/-- A blank notice adds the numbers that are neither issued nor promised and are above the highest
one. -/
theorem blankNotice_tentative (data : Data) (numbers : Finset Int) :
    blankNotice data numbers = { data with tentativeTransactionNumbers := data.tentativeTransactionNumbers ∪ verifyBlank data numbers } := by
  have each (adds : List Int) : ∀ data : Data, (∀ number ∈ adds, ¬number < data.highestTransactionNumber) →
      adds.foldl (fun data number => (addTentativeNumber data number).1) data =
        { data with tentativeTransactionNumbers := data.tentativeTransactionNumbers ∪ adds.toFinset } := by
    induction adds with
    | nil =>
      intro data _
      rw [List.toFinset_nil, Finset.union_empty]
      rfl
    | cons first adds ih =>
      intro data above
      obtain ⟨here, later⟩ := List.forall_mem_cons.mp above
      have one : (addTentativeNumber data first).1 =
          { data with tentativeTransactionNumbers := insert first data.tentativeTransactionNumbers } := by
        unfold addTentativeNumber
        rw [if_neg here]
      rw [List.foldl_cons, one, ih { data with tentativeTransactionNumbers := insert first data.tentativeTransactionNumbers } later]
      rw [List.toFinset_cons, Finset.insert_union, Finset.union_insert]
  have above : ∀ number ∈ ordered (verifyBlank data numbers), ¬number < data.highestTransactionNumber := by
    intro number inside low
    rw [mem_ordered, verifyBlank, Finset.mem_filter] at inside
    exact inside.2.2.2 low.le
  have whole : (ordered (verifyBlank data numbers)).toFinset = verifyBlank data numbers := by
    ext number
    rw [List.mem_toFinset, mem_ordered]
  unfold blankNotice
  rw [each _ data above, whole]

theorem mem_verifyBlank {numbers : Finset Int} : number ∈ verifyBlank data numbers ↔
    number ∈ numbers ∧ number ∉ data.issuedTransactionNumbers ∧ number ∉ data.tentativeTransactionNumbers ∧
      data.highestTransactionNumber < number := by
  simp [verifyBlank, verifyTentativeNumber, verifyIssuedNumber]

end Opentxs.Consensus.Numbers
