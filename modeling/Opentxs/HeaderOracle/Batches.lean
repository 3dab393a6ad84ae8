import Mathlib.Algebra.Order.Ring.Nat
import Opentxs.HeaderOracle.Consistency

/-! An invariant that adding one header keeps is kept by every batch of headers. -/

namespace Opentxs.HeaderOracle.Batches
open Library Library.Tree BlockHeader Storage Update Shared HeaderTree Frame Connect Join AddHeader Apply Consistency
set_option linter.unusedSectionVars false

variable {Work : Type} [AddCommMonoid Work] [LinearOrder Work] {genesis : Genesis Work}

/-- Every header of a batch meets a condition in the update to which it is added. -/
def EachMeets (condition : UpdateTransaction Work → NewHeader Work → Prop) :
    List (Option (NewHeader Work)) → UpdateTransaction Work → Prop
  | [], _ => True
  | none :: _, _ => True
  | some new :: headers, update => condition update new ∧
      ∀ after, addHeader update new = .ok (true, after) → EachMeets condition headers after

/-- The new header connects, and what waits below it never has three blocks waiting for one,
nor two below the first of two. -/
def ConnectsNarrow (update : UpdateTransaction Work) (new : NewHeader Work) : Prop :=
  view update new.hash = none → Attached (view update) new.parentHash →
    Narrow (waitingFor update.cachedDisconnected) true new.hash

/-- What a step has to keep, for the condition that each header of a batch meets. -/
structure Kept (genesis : Genesis Work) (condition : UpdateTransaction Work → NewHeader Work → Prop)
    (invariant : UpdateTransaction Work → Header Work → Prop) : Prop where
  narrow : ∀ update new, condition update new → ConnectsNarrow update new
  step : ∀ before current new after best, Consistent genesis before current → invariant before current →
    condition before new → Added genesis new before current after best → invariant after best

theorem Added.db {new : NewHeader Work} {before after : UpdateTransaction Work} {current best : Header Work}
    (added : Added genesis new before current after best) : after.db = before.db := by
  cases added with
  | known => rfl
  | waits _ _ waits => exact waits.chain.db
  | joins _ accepted => exact accepted.joined.db

variable {condition : UpdateTransaction Work → NewHeader Work → Prop}
  {invariant : UpdateTransaction Work → Header Work → Prop}

theorem addEach_keeps (kept : Kept genesis condition invariant) (headers : List (Option (NewHeader Work))) :
    ∀ (update : UpdateTransaction Work) (current : Header Work), Consistent genesis update current →
      invariant update current → EachMeets condition headers update →
      ∃ success after best, addEach headers update = .ok (success, after) ∧ Consistent genesis after best ∧
        invariant after best ∧ after.db = update.db := by
  induction headers with
  | nil => exact fun update current consistent holds _ => ⟨true, update, current, rfl, consistent, holds, rfl⟩
  | cons header headers ih =>
    intro update current consistent holds meets
    cases header with
    | none => exact ⟨false, update, current, rfl, consistent, holds, rfl⟩
    | some new =>
      obtain ⟨here, later⟩ := meets
      obtain ⟨after, best, adding, added⟩ := addHeader_added consistent new (kept.narrow update new here)
      obtain ⟨success, final, last, running, finalConsistent, finalHolds, same⟩ := ih after best
        (consistent.added added) (kept.step update current new after best consistent holds here added)
        (later after adding)
      refine ⟨success, final, last, ?_, finalConsistent, finalHolds, same.trans (Added.db added)⟩
      unfold addEach
      rw [adding]
      exact running

/-- A batch either leaves the database as it was or writes an update that keeps the invariant. -/
theorem addHeaders_keeps (kept : Kept genesis condition invariant) (db : Database Work) (current : Header Work)
    (consistent : ConsistentDb genesis db current) (holds : invariant { db } current)
    (headers : List (Option (NewHeader Work))) (meets : EachMeets condition headers { db }) :
    ∃ outcome, addHeaders db headers = .ok outcome ∧ (outcome = unchanged db ∨
      ∃ update best rows, Consistent genesis update best ∧ invariant update best ∧ update.db = db ∧
        poppedRows update = some rows ∧ outcome = publish update (writeUpdate update rows)) := by
  obtain ⟨success, after, best, running, afterConsistent, afterHolds, same⟩ :=
    addEach_keeps kept headers { db } current consistent.fresh holds meets
  unfold addHeaders
  by_cases empty : headers = []
  · rw [if_pos empty]
    exact ⟨_, rfl, Or.inl rfl⟩
  · rw [if_neg empty, running]
    refine ⟨_, rfl, ?_⟩
    cases success with
    | false => exact Or.inl rfl
    | true =>
      rw [if_pos rfl]
      rcases applyUpdate_cases after afterConsistent.inStep with ⟨_, failed⟩ | ⟨rows, popped, written⟩
      · rw [failed, same]
        exact Or.inl rfl
      · exact Or.inr ⟨after, best, rows, afterConsistent, afterHolds, same, popped, written⟩

/-- Every batch of a run meets a condition in the database to which it is added. -/
def RunMeets (condition : UpdateTransaction Work → NewHeader Work → Prop) :
    List (List (Option (NewHeader Work))) → Database Work → Prop
  | [], _ => True
  | headers :: batches, db => EachMeets condition headers { db } ∧
      ∀ outcome, addHeaders db headers = .ok outcome → RunMeets condition batches outcome.db

theorem run_keeps {property : Database Work → Prop}
    (step : ∀ db headers, property db → EachMeets condition headers { db } →
      ∃ outcome, addHeaders db headers = .ok outcome ∧ property outcome.db)
    (batches : List (List (Option (NewHeader Work)))) :
    ∀ db, property db → RunMeets condition batches db →
      ∃ final, run db (batches.map Operation.addHeaders) = .ok final ∧ property final := by
  induction batches with
  | nil => exact fun db holds _ => ⟨db, rfl, holds⟩
  | cons headers batches ih =>
    intro db holds meets
    obtain ⟨outcome, adding, outcomeHolds⟩ := step db headers holds meets.1
    obtain ⟨final, running, finalHolds⟩ := ih outcome.db outcomeHolds (meets.2 outcome adding)
    refine ⟨final, ?_, finalHolds⟩
    rw [List.map_cons, run, perform, adding]
    exact running

/-! ## Checking a run -/

def eachMeets (check : UpdateTransaction Work → NewHeader Work → Bool) :
    List (Option (NewHeader Work)) → UpdateTransaction Work → Bool
  | [], _ => true
  | none :: _, _ => true
  | some new :: headers, update => check update new &&
      match addHeader update new with
      | .ok (true, after) => eachMeets check headers after
      | _ => true

theorem eachMeets_sound {check : UpdateTransaction Work → NewHeader Work → Bool}
    (sound : ∀ update new, check update new = true → condition update new) (headers : List (Option (NewHeader Work))) :
    ∀ update, eachMeets check headers update = true → EachMeets condition headers update := by
  induction headers with
  | nil => exact fun _ _ => trivial
  | cons header headers ih =>
    intro update meets
    cases header with
    | none => trivial
    | some new =>
      unfold eachMeets at meets
      rw [Bool.and_eq_true] at meets
      refine ⟨sound update new meets.1, ?_⟩
      intro after adding
      have rest := meets.2
      rw [adding] at rest
      exact ih after rest

def runMeets (check : UpdateTransaction Work → NewHeader Work → Bool) :
    List (List (Option (NewHeader Work))) → Database Work → Bool
  | [], _ => true
  | headers :: batches, db => eachMeets check headers { db } &&
      match addHeaders db headers with
      | .ok outcome => runMeets check batches outcome.db
      | .error _ => true

theorem runMeets_sound {check : UpdateTransaction Work → NewHeader Work → Bool}
    (sound : ∀ update new, check update new = true → condition update new)
    (batches : List (List (Option (NewHeader Work)))) :
    ∀ db, runMeets check batches db = true → RunMeets condition batches db := by
  induction batches with
  | nil => exact fun _ _ => trivial
  | cons headers batches ih =>
    intro db meets
    unfold runMeets at meets
    rw [Bool.and_eq_true] at meets
    refine ⟨eachMeets_sound sound headers { db } meets.1, ?_⟩
    intro outcome adding
    have rest := meets.2
    rw [adding] at rest
    exact ih outcome.db rest

def isNarrow (update : UpdateTransaction Work) (new : NewHeader Work) : Bool :=
  Tree.isNarrow (waitingFor update.cachedDisconnected) (update.cachedDisconnected.length + 1) true new.hash

/-! ## Small chains -/

/-- Block 1, with one unit of work. -/
def origin : Genesis Nat := ⟨1, 1, one_ne_null⟩

def block (hash parent work : Nat) (valid : hash ≠ nullHash ∧ parent ≠ hash ∧ 0 < work) : Option (NewHeader Nat) :=
  some ⟨hash, parent, work, valid.1, valid.2.1, valid.2.2⟩

theorem second_valid : (2 : Nat) ≠ nullHash ∧ (1 : Nat) ≠ 2 ∧ 0 < 1 := by decide

theorem third_valid : (3 : Nat) ≠ nullHash ∧ (2 : Nat) ≠ 3 ∧ 0 < 1 := by decide

end Opentxs.HeaderOracle.Batches
