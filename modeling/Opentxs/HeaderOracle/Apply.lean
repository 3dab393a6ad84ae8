import Opentxs.HeaderOracle.AddHeader

/-! What the database holds after an update was applied. -/

namespace Opentxs.HeaderOracle.Apply
open Library BlockHeader Storage Update HeaderTree Frame
set_option linter.unusedSectionVars false

variable {Work : Type}

/-! ## Rows -/

theorem popBestFrom_rows (count : Nat) (height : Int) (rows popped : Int → Hash)
    (pops : popBestFrom count height rows = some popped) (other : Int) :
    popped other = if height - count < other ∧ other ≤ height then nullHash else rows other := by
  induction count generalizing height rows with
  | zero =>
    cases pops
    rw [if_neg (by omega)]
  | succ count ih =>
    unfold popBestFrom popBest at pops
    split at pops
    · cases pops
    · have rest := ih (height - 1) (setRow rows height nullHash) pops
      rw [rest]
      unfold setRow
      by_cases atTop : other = height
      · rw [if_neg (by omega), if_pos atTop, if_pos (by omega)]
      · rw [if_neg atTop]
        by_cases within : height - 1 - count < other ∧ other ≤ height - 1
        · rw [if_pos within, if_pos (by omega)]
        · rw [if_neg within, if_neg (by omega)]

theorem pushBest_rows (entries : List (Int × Hash)) (rows : Int → Hash)
    (sorted : entries.Pairwise fun first second => first.1 < second.1) (height : Int) :
    pushBest rows entries height = (entries.lookup height).getD (rows height) := by
  induction entries generalizing rows with
  | nil => rfl
  | cons entry entries ih =>
    obtain ⟨above, rest⟩ := List.pairwise_cons.mp sorted
    unfold pushBest at ih ⊢
    rw [List.foldl_cons, ih _ rest, Ordered.lookup_cons]
    unfold setRow
    by_cases same : height = entry.1
    · have absent : entries.lookup height = none := by
        apply Ordered.lookup_eq_none
        intro other member equal
        have later := above other member
        omega
      rw [if_pos same, absent, if_pos same]
      rfl
    · rw [if_neg same, if_neg same]

theorem writeUpdate_rows (update : UpdateTransaction Work) (rows : Int → Hash) (height : Int) :
    (writeUpdate update rows).rows height = (update.best.find? height).getD (rows height) :=
  pushBest_rows update.best.entries rows update.best.sorted height

/-! ## Sets -/

theorem mem_updatedDisconnected (update : UpdateTransaction Work) (inStep : DisconnectedInStep update)
    (segment : ChainSegment) : segment ∈ updatedDisconnected update ↔ segment ∈ update.cachedDisconnected := by
  unfold updatedDisconnected
  rw [SortedList.foldl_remove, SortedList.foldl_insertSorted, inStep.cached segment, or_comm]

theorem mem_updatedSiblings (update : UpdateTransaction Work) (inStep : SiblingsInStep update) (hash : Hash) :
    hash ∈ updatedSiblings update ↔ hash ∈ update.cachedSiblings := by
  unfold updatedSiblings
  rw [SortedList.foldl_remove, SortedList.foldl_insertSorted, inStep hash, or_comm]

theorem connectedKnown_of_inStep (update : UpdateTransaction Work) (inStep : DisconnectedInStep update) :
    connectedKnown update = true := by
  unfold connectedKnown
  rw [List.all_eq_true]
  intro segment member
  exact decide_eq_true (Or.inl (inStep.known segment member))

theorem insertSorted_nodup {α : Type} [LinearOrder α] (item : α) (items : List α) (nodup : items.Nodup) :
    (SortedList.insertSorted item items).Nodup := by
  unfold SortedList.insertSorted
  split
  · exact nodup
  · rename_i absent
    exact (List.perm_orderedInsert _ item items).nodup_iff.mpr (List.nodup_cons.mpr ⟨absent, nodup⟩)

theorem foldl_nodup {α : Type} (change : List α → α → List α) (keeps : ∀ items item, items.Nodup → (change items item).Nodup)
    (changes items : List α) (nodup : items.Nodup) : (changes.foldl change items).Nodup := by
  induction changes generalizing items with
  | nil => exact nodup
  | cons item changes ih => exact ih _ (keeps items item nodup)

theorem updatedDisconnected_nodup (update : UpdateTransaction Work) (nodup : update.db.disconnected.Nodup) :
    (updatedDisconnected update).Nodup := by
  unfold updatedDisconnected
  apply foldl_nodup _ (fun items item => List.Nodup.filter _)
  exact foldl_nodup _ (fun items item => insertSorted_nodup item items) _ _ nodup

/-! ## The outcome -/

/-- Either nothing was written, or everything was. -/
theorem applyUpdate_cases (update : UpdateTransaction Work) (inStep : DisconnectedInStep update) :
    poppedRows update = none ∧ applyUpdate update = { success := false, db := update.db, published := none } ∨
    ∃ rows, poppedRows update = some rows ∧ applyUpdate update = publish update (writeUpdate update rows) := by
  unfold applyUpdate
  rw [if_pos (connectedKnown_of_inStep update inStep)]
  cases popped : poppedRows update with
  | none => exact Or.inl ⟨rfl, rfl⟩
  | some rows => exact Or.inr ⟨rows, rfl, rfl⟩

theorem publish_db (update : UpdateTransaction Work) (db : Database Work) :
    (publish update db).success = true ∧ ∃ lastUpdate, (publish update db).db = { db with lastUpdate } := by
  unfold publish
  split
  · simp only
    split
    · exact ⟨rfl, db.lastUpdate, rfl⟩
    · exact ⟨rfl, _, rfl⟩
  · split
    · exact ⟨rfl, db.lastUpdate, rfl⟩
    · exact ⟨rfl, db.lastUpdate, rfl⟩

end Opentxs.HeaderOracle.Apply
