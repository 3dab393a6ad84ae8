import Opentxs.HeaderOracle.Consistency

/-! Setting and clearing the checkpoint. -/

namespace Opentxs.HeaderOracle.Checkpoint
open Library BlockHeader Storage Update Shared HeaderTree Frame AddHeader Apply Consistency
set_option linter.unusedSectionVars false

variable {Work : Type} [AddCommMonoid Work] [LinearOrder Work] {genesis : Genesis Work}

/-- Above the tip only the checkpoint itself changes. -/
theorem finishCheckpoint_above {db : Database Work} {current : Header Work}
    (consistent : ConsistentDb genesis db current) (position : Int) (above : current.height < position)
    (checkpoint : Position) :
    ∃ outcome, finishCheckpoint db position (({ db } : UpdateTransaction Work).setCheckpoint checkpoint) = .ok outcome ∧
      outcome.success = true ∧ outcome.db = { db with checkpoint } := by
  have tip : Tip (({ db } : UpdateTransaction Work).setCheckpoint checkpoint) current :=
    ⟨consistent.fresh.tip.found, consistent.fresh.tip.attached, consistent.fresh.tip.staged, consistent.fresh.tip.stored⟩
  obtain ⟨loaded, staging, load⟩ := stageBest_tip tip
  have inStep : DisconnectedInStep loaded := by
    apply load.disconnectedInStep
    have fresh := disconnectedInStep_fresh db
    exact ⟨fresh.cached, fresh.known, fresh.fresh⟩
  have popped : poppedRows loaded = some db.rows := by
    obtain ⟨headers, rfl⟩ := load.rest
    rfl
  have applied : applyCheckpoint position (({ db } : UpdateTransaction Work).setCheckpoint checkpoint) =
      .ok (true, loaded) := by
    unfold applyCheckpoint
    rw [staging]
    simp only [bind, Except.bind]
    rw [if_pos above]
  unfold finishCheckpoint
  rw [applied]
  refine ⟨_, rfl, ?_⟩
  simp only [if_true]
  rcases applyUpdate_cases loaded inStep with ⟨none, _⟩ | ⟨rows, some, written⟩
  · rw [popped] at none
    cases none
  · rw [written]
    refine ⟨(publish_db loaded _).1, ?_⟩
    rw [publish_loaded load (view_fresh db) rfl rfl ⟨rfl, rfl⟩ rows some]
    rfl

end Opentxs.HeaderOracle.Checkpoint
