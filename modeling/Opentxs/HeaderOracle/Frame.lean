import Opentxs.HeaderOracle.HeaderTree

/-! What each method of an update reads and changes, and what it leaves alone. -/

namespace Opentxs.HeaderOracle.Frame
open Library BlockHeader Storage Update HeaderTree

variable {Work : Type}

/-- Nothing but the headers and the disconnected blocks differs. -/
structure SameChain (before after : UpdateTransaction Work) : Prop where
  db : after.db = before.db
  best : after.best = before.best
  haveReorg : after.haveReorg = before.haveReorg
  reorgFrom : after.reorgFrom = before.reorgFrom
  haveCheckpoint : after.haveCheckpoint = before.haveCheckpoint
  newCheckpoint : after.newCheckpoint = before.newCheckpoint
  cachedSiblings : after.cachedSiblings = before.cachedSiblings
  addSib : after.addSib = before.addSib
  deleteSib : after.deleteSib = before.deleteSib

theorem SameChain.refl (update : UpdateTransaction Work) : SameChain update update :=
  ⟨rfl, rfl, rfl, rfl, rfl, rfl, rfl, rfl, rfl⟩

theorem SameChain.trans {before middle after : UpdateTransaction Work} (first : SameChain before middle)
    (second : SameChain middle after) : SameChain before after where
  db := second.db.trans first.db
  best := second.best.trans first.best
  haveReorg := second.haveReorg.trans first.haveReorg
  reorgFrom := second.reorgFrom.trans first.reorgFrom
  haveCheckpoint := second.haveCheckpoint.trans first.haveCheckpoint
  newCheckpoint := second.newCheckpoint.trans first.newCheckpoint
  cachedSiblings := second.cachedSiblings.trans first.cachedSiblings
  addSib := second.addSib.trans first.addSib
  deleteSib := second.deleteSib.trans first.deleteSib

theorem SameChain.checkpoint {before after : UpdateTransaction Work} (same : SameChain before after) :
    after.checkpoint = before.checkpoint := by
  unfold UpdateTransaction.checkpoint
  rw [same.haveCheckpoint, same.newCheckpoint, same.db]

theorem SameChain.effectiveBestBlock {before after : UpdateTransaction Work} (same : SameChain before after)
    (height : Int) : after.effectiveBestBlock height = before.effectiveBestBlock height := by
  unfold UpdateTransaction.effectiveBestBlock
  rw [same.best, same.db]

/-- The cached disconnected set is the stored one with the staged changes applied. -/
structure DisconnectedInStep (update : UpdateTransaction Work) : Prop where
  cached : ∀ segment, segment ∈ update.cachedDisconnected ↔
    (segment ∈ update.db.disconnected ∨ segment ∈ update.disconnected) ∧ segment ∉ update.connect
  known : ∀ segment ∈ update.connect, segment ∈ update.db.disconnected
  fresh : ∀ segment ∈ update.disconnected, segment ∉ update.db.disconnected

/-- The cached sibling set is the stored one with the staged changes applied. -/
def SiblingsInStep (update : UpdateTransaction Work) : Prop :=
  ∀ hash, hash ∈ update.cachedSiblings ↔
    (hash ∈ update.db.siblings ∨ hash ∈ update.addSib) ∧ hash ∉ update.deleteSib

theorem disconnectedInStep_fresh (db : Database Work) : DisconnectedInStep ({ db } : UpdateTransaction Work) where
  cached := by
    intro segment
    simp
  known := by
    intro segment member
    cases member
  fresh := by
    intro segment member
    cases member

theorem siblingsInStep_fresh (db : Database Work) : SiblingsInStep ({ db } : UpdateTransaction Work) := by
  intro hash
  simp

/-! ## Headers -/

theorem view_write (update : UpdateTransaction Work) (header : Header Work) (hash : Hash) :
    view (update.write header) hash = if hash = header.hash then some header else view update hash := by
  unfold view UpdateTransaction.write
  simp only
  split
  · rfl
  · rfl

theorem view_eq_of_staged (update : UpdateTransaction Work) (hash : Hash) (staged : update.headers hash ≠ none) :
    update.headers hash = view update hash := by
  unfold view
  cases found : update.headers hash with
  | none => exact absurd found staged
  | some header => rfl

/-- A header was loaded into the update, if anything. -/
structure Loaded (before after : UpdateTransaction Work) : Prop where
  rest : ∃ headers, after = { before with headers }
  view : ∀ hash, view after hash = view before hash
  staged : ∀ hash, before.headers hash ≠ none → after.headers hash ≠ none

theorem Loaded.refl (update : UpdateTransaction Work) : Loaded update update :=
  ⟨⟨update.headers, rfl⟩, fun _ => rfl, fun _ => id⟩

theorem Loaded.trans {before middle after : UpdateTransaction Work} (first : Loaded before middle)
    (second : Loaded middle after) : Loaded before after where
  rest := by
    obtain ⟨headers, rfl⟩ := first.rest
    exact second.rest
  view := fun hash => (second.view hash).trans (first.view hash)
  staged := fun hash staged => second.staged hash (first.staged hash staged)

theorem Loaded.sameChain {before after : UpdateTransaction Work} (loaded : Loaded before after) :
    SameChain before after := by
  obtain ⟨headers, rfl⟩ := loaded.rest
  exact ⟨rfl, rfl, rfl, rfl, rfl, rfl, rfl, rfl, rfl⟩

theorem Loaded.cachedDisconnected {before after : UpdateTransaction Work} (loaded : Loaded before after) :
    after.cachedDisconnected = before.cachedDisconnected := by
  obtain ⟨headers, rfl⟩ := loaded.rest
  rfl

theorem Loaded.disconnectedInStep {before after : UpdateTransaction Work} (loaded : Loaded before after)
    (inStep : DisconnectedInStep before) : DisconnectedInStep after := by
  obtain ⟨headers, rfl⟩ := loaded.rest
  exact ⟨inStep.cached, inStep.known, inStep.fresh⟩

theorem write_loaded (update : UpdateTransaction Work) (hash : Hash) (header : Header Work)
    (found : view update hash = some header) (named : header.hash = hash) :
    Loaded update (update.write header) where
  rest := ⟨_, rfl⟩
  view := by
    intro other
    rw [view_write]
    split
    · rename_i same
      rw [same, named, found]
    · rfl
  staged := by
    intro other staged
    unfold UpdateTransaction.write
    simp only
    split
    · exact Option.some_ne_none header
    · exact staged

theorem write_write (update : UpdateTransaction Work) (first second : Header Work)
    (same : first.hash = second.hash) : (update.write first).write second = update.write second := by
  unfold UpdateTransaction.write
  congr 1
  funext hash
  split
  · rfl
  · rename_i other
    exact if_neg (same ▸ other)

/-- Staging gives the header that is in view. -/
theorem stage_of_view (update : UpdateTransaction Work) (hash : Hash) (header : Header Work)
    (found : view update hash = some header) (named : header.hash = hash) :
    ∃ after, update.stage hash = .ok (header, after) ∧ Loaded update after ∧ after.headers hash = some header ∧
      ∀ next : Header Work, next.hash = hash → after.write next = update.write next := by
  cases staged : update.headers hash with
  | some other =>
    have same : other = header := by
      unfold view at found
      rw [staged] at found
      exact Option.some.inj found
    subst same
    exact ⟨update, by simp only [UpdateTransaction.stage, staged], Loaded.refl update, staged, fun _ _ => rfl⟩
  | none =>
    have stored : update.db.headers hash = some header := by
      unfold view at found
      rwa [staged] at found
    apply Exists.intro (update.write header)
    constructor
    · simp only [UpdateTransaction.stage, staged, Database.loadHeader, stored]
      rfl
    · constructor
      · exact write_loaded update hash header found named
      · constructor
        · exact if_pos named.symm
        · intro next nextNamed
          exact write_write update header next (named.trans nextNamed.symm)

theorem stage_of_absent (update : UpdateTransaction Work) (hash : Hash) (absent : view update hash = none) :
    update.stage hash = .error .exception := by
  obtain ⟨unstaged, unknown⟩ := Option.or_eq_none_iff.mp absent
  simp only [UpdateTransaction.stage, unstaged, Database.loadHeader, unknown]
  rfl

theorem sameChain_write (update : UpdateTransaction Work) (header : Header Work) :
    SameChain update (update.write header) :=
  ⟨rfl, rfl, rfl, rfl, rfl, rfl, rfl, rfl, rfl⟩

theorem effectiveHeaderExists_iff (update : UpdateTransaction Work) (hash : Hash) :
    update.effectiveHeaderExists hash = true ↔ view update hash ≠ none := by
  unfold UpdateTransaction.effectiveHeaderExists Database.headerExists view
  cases update.headers hash with
  | some header => simp
  | none => simp [Option.isSome_iff_ne_none]

/-! ## Disconnected blocks -/

theorem connectBlock_rest (update : UpdateTransaction Work) (segment : ChainSegment) :
    SameChain update (update.connectBlock segment) ∧ (update.connectBlock segment).headers = update.headers ∧
      (update.connectBlock segment).cachedDisconnected = SortedList.remove segment update.cachedDisconnected := by
  unfold UpdateTransaction.connectBlock
  simp only
  split
  · exact ⟨⟨rfl, rfl, rfl, rfl, rfl, rfl, rfl, rfl, rfl⟩, rfl, rfl⟩
  · exact ⟨⟨rfl, rfl, rfl, rfl, rfl, rfl, rfl, rfl, rfl⟩, rfl, rfl⟩

theorem connectBlock_inStep (update : UpdateTransaction Work) (segment : ChainSegment)
    (member : segment ∈ update.cachedDisconnected) (inStep : DisconnectedInStep update) :
    DisconnectedInStep (update.connectBlock segment) := by
  obtain ⟨either, unconnected⟩ := (inStep.cached segment).mp member
  unfold UpdateTransaction.connectBlock
  simp only
  split
  · rename_i staged
    have notStored := inStep.fresh segment staged
    constructor
    · intro other
      simp only [SortedList.mem_remove, inStep.cached other]
      by_cases same : other = segment
      · subst same
        simp [notStored]
      · simp [same]
    · exact inStep.known
    · intro other inSet
      exact inStep.fresh other ((SortedList.mem_remove segment other _).mp inSet).1
  · rename_i notStaged
    have stored := either.resolve_right notStaged
    constructor
    · intro other
      simp only [SortedList.mem_remove, SortedList.mem_insertSorted, inStep.cached other, not_or]
      constructor
      · rintro ⟨⟨inSet, notConnected⟩, different⟩
        exact ⟨inSet, different, notConnected⟩
      · rintro ⟨inSet, different, notConnected⟩
        exact ⟨⟨inSet, notConnected⟩, different⟩
    · intro other inSet
      rcases (SortedList.mem_insertSorted segment other _).mp inSet with rfl | before
      · exact stored
      · exact inStep.known other before
    · exact inStep.fresh

theorem disconnectBlock_inStep (update : UpdateTransaction Work) (header : Header Work)
    (unknown : (⟨header.parentHash, header.hash⟩ : ChainSegment) ∉ update.db.disconnected)
    (inStep : DisconnectedInStep update) : DisconnectedInStep (update.disconnectBlock header) := by
  unfold UpdateTransaction.disconnectBlock
  constructor
  · intro other
    simp only [List.mem_append, List.mem_singleton, SortedList.mem_remove, SortedList.mem_insertSorted,
      inStep.cached other]
    by_cases same : other = ⟨header.parentHash, header.hash⟩
    · subst same
      simp
    · simp [same]
  · intro other inSet
    exact inStep.known other ((SortedList.mem_remove _ other _).mp inSet).1
  · intro other inSet
    rcases (SortedList.mem_insertSorted _ other _).mp inSet with rfl | before
    · exact unknown
    · exact inStep.fresh other before

/-! ## Siblings -/

theorem addSibling_inStep (update : UpdateTransaction Work) (position : Position)
    (inStep : SiblingsInStep update) : SiblingsInStep (update.addSibling position) := by
  intro hash
  simp only [UpdateTransaction.addSibling, SortedList.mem_insertSorted, SortedList.mem_remove, inStep hash]
  by_cases same : hash = position.hash
  · simp [same]
  · simp [same]

theorem removeSibling_inStep (update : UpdateTransaction Work) (hash : Hash) (inStep : SiblingsInStep update) :
    SiblingsInStep (update.removeSibling hash) := by
  intro other
  simp only [UpdateTransaction.removeSibling, SortedList.mem_insertSorted, SortedList.mem_remove, inStep other]
  by_cases same : other = hash
  · simp [same]
  · simp [same]

theorem addToBestChain_inStep (update : UpdateTransaction Work) (position : Position)
    (inStep : SiblingsInStep update) : SiblingsInStep (update.addToBestChain position) :=
  removeSibling_inStep update position.hash inStep

end Opentxs.HeaderOracle.Frame
