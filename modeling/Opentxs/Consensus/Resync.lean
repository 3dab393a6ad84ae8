import Opentxs.Consensus.Numbers

/-! The numbers of a context after the notary has sent those that it takes for issued. -/

namespace Opentxs.Consensus.Resync
open Library.SortedList Numbers

/-- One number that the notary lists, and those listed so far. -/
def restore (progress : Data × Finset Int) (number : Int) : Data × Finset Int :=
  let (data, serverNumbers) := progress
  (if number ∈ data.issuedTransactionNumbers then data
    else { data with
      issuedTransactionNumbers := insert number data.issuedTransactionNumbers
      availableTransactionNumbers := insert number data.availableTransactionNumbers },
    insert number serverNumbers)

/-- One local number. -/
def drop (serverNumbers : Finset Int) (data : Data) (number : Int) : Data :=
  if number ∈ serverNumbers then data
  else { data with
    issuedTransactionNumbers := data.issuedTransactionNumbers.erase number
    availableTransactionNumbers := data.availableTransactionNumbers.erase number }

/-- The loop over the issued numbers, with those from the iterator on and those that it visits. An iterator
whose own number is no longer in the set cannot go to the next one. -/
def dropEach (serverNumbers : Finset Int) : List Int → Data → Option (Data × List Int)
  | [], data => some (data, [])
  | number :: rest, data =>
    let after := drop serverNumbers data number
    if number ∈ after.issuedTransactionNumbers then
      (dropEach serverNumbers rest after).map fun (last, visited) => (last, number :: visited)
    else none

/-- The same set takes the numbers above the limit and the others. -/
def updateHighestShared (data : Data) (numbers : Finset Int) : Data :=
  let (highest, _) := scanNumberSet numbers
  let (good, bad) := validateNumberSet numbers data.highestTransactionNumber
  let notUsed := good ∪ bad
  if notUsed = ∅ then data else { data with highestTransactionNumber := highest }

structure Resynced where
  data : Data
  visited : List Int
  output : Bool
  deriving DecidableEq

/-- There is no result where the loop cannot go on. -/
def resync (data : Data) (serialized : List Int) : Option Resynced := do
  let (restored, serverNumbers) := serialized.foldl restore (data, ∅)
  let (left, visited) ← dropEach serverNumbers (ordered restored.issuedTransactionNumbers) restored
  some { data := updateHighestShared left left.issuedTransactionNumbers, visited, output := true }

/-- The numbers are those of the notary, and the highest one has not gone down. -/
structure Reconciled (before : Data) (sent : Finset Int) (result : Resynced) : Prop where
  once : ∀ number ∈ before.issuedTransactionNumbers ∪ sent, result.visited.count number = 1
  issued : result.data.issuedTransactionNumbers = sent
  available : result.data.availableTransactionNumbers =
    before.availableTransactionNumbers ∩ sent ∪ sent \ before.issuedTransactionNumbers
  kept : before.highestTransactionNumber ≤ result.data.highestTransactionNumber
  covers : ∀ number ∈ sent, number ≤ result.data.highestTransactionNumber

def Reconciles (data : Data) (serialized : List Int) : Prop :=
  ∃ result, resync data serialized = some result ∧ Reconciled data serialized.toFinset result

variable {data : Data} {serialized : List Int}

/-! ## The three steps -/

/-- What the notary lists on top of what there is. -/
def restored (data : Data) (sent : Finset Int) : Data :=
  { data with
    issuedTransactionNumbers := data.issuedTransactionNumbers ∪ sent
    availableTransactionNumbers := data.availableTransactionNumbers ∪ sent \ data.issuedTransactionNumbers }

theorem restore_eq (data : Data) (sent : Finset Int) (number : Int) :
    restore (restored data sent, sent) number = (restored data (insert number sent), insert number sent) := by
  unfold restore restored
  dsimp only
  by_cases listed : number ∈ data.issuedTransactionNumbers ∪ sent
  · have issued : data.issuedTransactionNumbers ∪ insert number sent = data.issuedTransactionNumbers ∪ sent := by
      rw [Finset.union_insert, Finset.insert_eq_of_mem listed]
    have available : insert number sent \ data.issuedTransactionNumbers = sent \ data.issuedTransactionNumbers := by
      rcases Finset.mem_union.mp listed with known | again
      · exact Finset.insert_sdiff_of_mem sent known
      · rw [Finset.insert_eq_of_mem again]
    rw [if_pos listed, issued, available]
  · have new : number ∉ data.issuedTransactionNumbers := fun inside => listed (Finset.mem_union_left sent inside)
    rw [if_neg listed, Finset.insert_sdiff_of_notMem sent new, Finset.union_insert, Finset.union_insert]

theorem restore_all (data : Data) (sent : Finset Int) (serialized : List Int) :
    serialized.foldl restore (restored data sent, sent) = (restored data (sent ∪ serialized.toFinset), sent ∪ serialized.toFinset) := by
  induction serialized generalizing sent with
  | nil => rw [List.toFinset_nil, Finset.union_empty]; rfl
  | cons number rest ih => rw [List.foldl_cons, restore_eq, ih, List.toFinset_cons, Finset.insert_union, Finset.union_insert]

theorem restored_empty (data : Data) : restored data ∅ = data := by
  simp [restored]

theorem foldl_restore (data : Data) (serialized : List Int) :
    serialized.foldl restore (data, ∅) = (restored data serialized.toFinset, serialized.toFinset) := by
  have all := restore_all data ∅ serialized
  rwa [restored_empty, Finset.empty_union] at all

/-- The loop comes through exactly if it has nothing to erase. -/
theorem dropEach_eq (serverNumbers : Finset Int) (rest : List Int) (inside : ∀ number ∈ rest, number ∈ data.issuedTransactionNumbers) :
    dropEach serverNumbers rest data = if ∀ number ∈ rest, number ∈ serverNumbers then some (data, rest) else none := by
  induction rest with
  | nil => rfl
  | cons number rest ih =>
    rw [List.forall_mem_cons] at inside
    rw [dropEach, drop]
    by_cases known : number ∈ serverNumbers
    · rw [if_pos known, if_pos inside.1, ih inside.2]
      by_cases all : ∀ number ∈ rest, number ∈ serverNumbers
      · rw [if_pos all, if_pos (List.forall_mem_cons.mpr ⟨known, all⟩)]
        rfl
      · rw [if_neg all, if_neg fun both => all (List.forall_mem_cons.mp both).2]
        rfl
    · rw [if_neg known, if_neg (Finset.notMem_erase number _), if_neg fun both => known (List.forall_mem_cons.mp both).1]

theorem updateHighestShared_eq (data : Data) (numbers : Finset Int) : updateHighestShared data numbers =
    if numbers = ∅ then data else { data with highestTransactionNumber := numbers.max.unbotD 0 } := by
  have whole : (validateNumberSet numbers data.highestTransactionNumber).1 ∪
      (validateNumberSet numbers data.highestTransactionNumber).2 = numbers := by
    rw [validateNumberSet, Finset.union_comm, Finset.filter_union_filter_not_eq]
  show (if (validateNumberSet numbers data.highestTransactionNumber).1 ∪ (validateNumberSet numbers data.highestTransactionNumber).2 = ∅
    then data else { data with highestTransactionNumber := numbers.max.unbotD 0 }) = _
  rw [whole]

/-- What is left when the loop comes through. -/
def settled (data : Data) (sent : Finset Int) : Data := updateHighestShared (restored data sent) (data.issuedTransactionNumbers ∪ sent)

theorem resync_eq (data : Data) (serialized : List Int) : resync data serialized =
    if data.issuedTransactionNumbers ⊆ serialized.toFinset then
      some { data := settled data serialized.toFinset
             visited := ordered (data.issuedTransactionNumbers ∪ serialized.toFinset)
             output := true }
    else none := by
  have inside : ∀ number ∈ ordered (data.issuedTransactionNumbers ∪ serialized.toFinset),
      number ∈ (restored data serialized.toFinset).issuedTransactionNumbers := fun number member => (mem_ordered _ _).mp member
  have through : (∀ number ∈ ordered (data.issuedTransactionNumbers ∪ serialized.toFinset), number ∈ serialized.toFinset) ↔
      data.issuedTransactionNumbers ⊆ serialized.toFinset := by
    simp only [mem_ordered]
    exact Finset.union_subset_iff.trans (and_iff_left (Finset.Subset.refl _))
  rw [resync, foldl_restore]
  show (dropEach serialized.toFinset (ordered (data.issuedTransactionNumbers ∪ serialized.toFinset))
    (restored data serialized.toFinset)).bind _ = _
  rw [dropEach_eq _ _ inside]
  by_cases less : data.issuedTransactionNumbers ⊆ serialized.toFinset
  · rw [if_pos (through.mpr less), if_pos less]
    rfl
  · rw [if_neg (mt through.mp less), if_neg less]
    rfl

theorem settled_highest (data : Data) {sent : Finset Int} (less : data.issuedTransactionNumbers ⊆ sent) :
    (settled data sent).highestTransactionNumber =
      if sent = ∅ then data.highestTransactionNumber else sent.max.unbotD 0 := by
  rw [settled, Finset.union_eq_right.mpr less, updateHighestShared_eq]
  split
  · rfl
  · rfl

theorem settled_sets (data : Data) (sent : Finset Int) :
    (settled data sent).issuedTransactionNumbers = data.issuedTransactionNumbers ∪ sent ∧
      (settled data sent).availableTransactionNumbers =
        data.availableTransactionNumbers ∪ sent \ data.issuedTransactionNumbers := by
  rw [settled, updateHighestShared_eq]
  split
  · exact ⟨rfl, rfl⟩
  · exact ⟨rfl, rfl⟩

/-! ## Reconciliation -/

theorem available_iff (available issued sent : Finset Int) :
    available ∪ sent \ issued = available ∩ sent ∪ sent \ issued ↔ available ⊆ sent := by
  constructor
  · intro same number inside
    have member : number ∈ available ∩ sent ∪ sent \ issued := same ▸ Finset.mem_union_left _ inside
    simp only [Finset.mem_union, Finset.mem_inter, Finset.mem_sdiff] at member
    tauto
  · intro less
    rw [Finset.inter_eq_left.mpr less]

theorem highest_iff (highest : Int) (sent : Finset Int) :
    (highest ≤ (if sent = ∅ then highest else sent.max.unbotD 0) ∧
      ∀ number ∈ sent, number ≤ (if sent = ∅ then highest else sent.max.unbotD 0)) ↔
    sent = ∅ ∨ ∃ number ∈ sent, highest ≤ number := by
  rcases sent.eq_empty_or_nonempty with rfl | filled
  · simp
  · have greatest : sent.max.unbotD 0 = sent.max' filled := by
      rw [← Finset.coe_max' filled]
      rfl
    rw [if_neg filled.ne_empty, greatest, or_iff_right filled.ne_empty,
      and_iff_left fun number inside => sent.le_max' number inside]
    constructor
    · exact fun above => ⟨_, sent.max'_mem filled, above⟩
    · rintro ⟨number, inside, above⟩
      exact above.trans (sent.le_max' number inside)

/-- The numbers are reconciled if and only if the notary lists every local number and, unless it lists none,
one that is not below the highest number seen. -/
theorem resync_reconciles_iff (data : Data) (serialized : List Int) : Reconciles data serialized ↔
    data.issuedTransactionNumbers ⊆ serialized.toFinset ∧ data.availableTransactionNumbers ⊆ serialized.toFinset ∧
      (serialized = [] ∨ ∃ number ∈ serialized, data.highestTransactionNumber ≤ number) := by
  generalize sent_eq : serialized.toFinset = sent
  have listed : (serialized = [] ∨ ∃ number ∈ serialized, data.highestTransactionNumber ≤ number) ↔
      (sent = ∅ ∨ ∃ number ∈ sent, data.highestTransactionNumber ≤ number) := by
    rw [← sent_eq, List.toFinset_eq_empty_iff]
    simp only [List.mem_toFinset]
  rw [listed, Reconciles, resync_eq, sent_eq]
  by_cases less : data.issuedTransactionNumbers ⊆ sent
  · have highest := highest_iff data.highestTransactionNumber sent
    rw [← settled_highest data less] at highest
    rw [if_pos less, ← available_iff data.availableTransactionNumbers data.issuedTransactionNumbers, ← highest, ← (settled_sets data sent).2]
    constructor
    · rintro ⟨result, same, reconciled⟩
      obtain rfl := Option.some.inj same
      exact ⟨less, reconciled.available, reconciled.kept, reconciled.covers⟩
    · rintro ⟨_, available, kept, covers⟩
      refine ⟨_, rfl, fun number inside => ?_, ?_, available, kept, covers⟩
      · exact List.count_eq_one_of_mem (ordered_nodup _) ((mem_ordered _ _).mpr inside)
      · exact (settled_sets data sent).1.trans (Finset.union_eq_right.mpr less)
  · rw [if_neg less]
    exact iff_of_false (fun ⟨_, same, _⟩ => nomatch same) fun both => less both.1

/-- The notary lists a number below the highest one, which goes down to it. -/
theorem highest_goes_down :
    ¬ Reconciles { issuedTransactionNumbers := {3}, availableTransactionNumbers := {3}, highestTransactionNumber := 10 } [3] := by
  rintro ⟨result, same, reconciled⟩
  have highest : (resync { issuedTransactionNumbers := {3}, availableTransactionNumbers := {3}, highestTransactionNumber := 10 } [3]).map
      (fun result => result.data.highestTransactionNumber) = some 3 := by decide
  rw [same] at highest
  have kept := reconciled.kept
  have down : result.data.highestTransactionNumber = 3 := Option.some.inj highest
  rw [down] at kept
  exact absurd kept (by decide)

end Opentxs.Consensus.Resync
