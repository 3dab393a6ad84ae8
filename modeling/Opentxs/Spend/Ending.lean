import Opentxs.Spend.Promise
import Opentxs.Spend.Sweep

/-! Building ends with a result, unless an amount does not fit or an assertion about the outputs
fails. -/

namespace Opentxs.Spend.Builder
open Library Library.Endian Bitcoin BitcoinScript Blockchain Amount
open Program (Meets meets_bind meets_pure meets_get meets_modify meets_require meets_onlyIf meets_catching)
open Wallet.Types (Key TxoTag Outpoint)

variable {ω : Type} {node : Node ω} {start : Builder ω} {stops : Stop → Prop}

/-! ## Signing and sending -/

theorem signInput_meets (input : TransactionInput) (start : Builder ω) :
    Meets (signInput node input) (fun _ _ => True) (fun stop _ => Fails stop) start := by
  unfold signInput
  apply meets_bind.mpr
  apply meets_onlyIf.mpr
  split
  · exact givingSignatures_meets input _ fun _ _ _ _ => trivial
  · exact givingSignatures_meets input _ fun _ _ _ _ => trivial

theorem signInputsFrom_meets (inputs : List (TransactionInput × Amount)) : ∀ start : Builder ω,
    Meets (signInputsFrom node inputs) (fun _ _ => True) (fun stop _ => Fails stop) start := by
  induction inputs with
  | nil => exact fun _ => trivial
  | cons input inputs ih =>
    intro start
    apply meets_bind.mpr
    apply (signInput_meets input.1 start).mono _ fun _ _ => id
    intro _ next _
    apply meets_bind.mpr
    exact (ih next).mono (fun _ _ _ => trivial) fun _ _ => id

theorem reporting_meets (stop : Stop) (next : Builder ω) : Fails stop → Meets (match stop with
    | .failed outcome => pure (.permanentFailure, outcome)
    | other => Program.throw other : Building ω (BuildResult × SendOutcome)) (fun _ _ => True) (fun _ _ => False) next := by
  intro fails
  cases stop with
  | failed outcome => trivial
  | exception => exact fails.elim
  | terminate => exact fails.elim

/-- Finishing a transaction reports what goes wrong. -/
theorem finalize_meets (proposal : Proposal) (start : Builder ω) :
    Meets (finalize node proposal) (fun _ _ => True) (fun _ _ => False) start := by
  unfold finalize
  apply meets_catching.mpr
  apply Meets.mono _ (fun _ _ => id) reporting_meets
  apply meets_bind.mpr
  apply meets_bind.mpr
  apply meets_get.mpr
  apply meets_bind.mpr
  apply (signInputsFrom_meets _ _).mono _ fun _ _ => id
  intro inputs next _
  apply meets_modify.mpr
  apply meets_bind.mpr
  apply meets_look_ok.mpr
  split
  · trivial
  · apply meets_bind.mpr
    apply meets_require.mpr
    split
    · apply meets_bind.mpr
      apply meets_require.mpr
      split
      · apply meets_bind.mpr
        apply meets_ask.mpr
        apply meets_bind.mpr
        apply meets_require.mpr
        split
        · apply meets_bind.mpr
          apply meets_ask.mpr
          apply meets_bind.mpr
          apply meets_require.mpr
          split <;> trivial
        · trivial
      · trivial
    · trivial

/-! ## The guard -/

theorem releaseKeys_meets : Meets (releaseKeys node) (fun _ next => next.promise = start.promise) (fun _ _ => False) start := by
  let unchanged (_ : List Key) (state : Builder ω) : Prop := state.promise = start.promise
  have each : ∀ key keys state, unchanged (key :: keys) state →
      Meets (tell (node.release key)) (fun _ => unchanged keys) (fun _ _ => False) state := fun _ _ _ same => same
  have begins : unchanged start.outgoingKeys start := rfl
  unfold releaseKeys
  apply meets_bind.mpr
  apply meets_get.mpr
  apply meets_bind.mpr
  apply (Meets.forEach each start.outgoingKeys start begins).mono _ fun _ _ => id
  intro _ next same
  have again : unchanged start.changeKeys next := same
  exact Meets.forEach each start.changeKeys next again

theorem signInputsFrom_quiet (inputs : List (TransactionInput × Amount)) : Quiet True (signInputsFrom node inputs) := by
  induction inputs with
  | nil => exact quiet_pure []
  | cons input inputs ih =>
    apply quiet_bind
    · apply quiet_bind (quiet_onlyIf fun _ => quiet_same rfl rfl rfl)
      intro _
      apply quiet_bind quiet_get
      intro _
      split
      · exact quiet_throw _
      · exact quiet_throw _
      · split
        · exact quiet_throw _
        · exact quiet_pure _
    · intro _
      exact quiet_bind ih fun _ => quiet_pure _

theorem finalize_quiet (proposal : Proposal) : Quiet True (finalize node proposal) := by
  apply quiet_catching
  · apply quiet_bind
    · apply quiet_bind quiet_get
      intro _
      exact quiet_bind (signInputsFrom_quiet _) fun _ _ => ⟨fun none => absurd trivial none, rfl, rfl⟩
    · intro _
      apply quiet_bind (quiet_look _)
      intro _
      split
      · exact quiet_throw _
      · apply quiet_bind (quiet_require _ _)
        intro _
        apply quiet_bind (quiet_require _ _)
        intro _
        apply quiet_bind (quiet_ask _)
        intro _
        apply quiet_bind (quiet_require _ _)
        intro _
        apply quiet_bind (quiet_ask _)
        intro _
        apply quiet_bind (quiet_require _ _)
        intro _
        exact quiet_bind (quiet_tell _) fun _ => quiet_pure _
  · intro stop
    split
    · exact quiet_pure _
    · exact quiet_throw _

/-- The promise has to be free when the function returns, and then the result depends on the body alone. -/
theorem guarded_iff {body : Building ω (BuildResult × SendOutcome)} (quiet : Quiet True body) (free : start.promise = none) :
    Meets (guarded node body) (fun _ _ => True) (fun _ _ => False) start ↔
      Meets body (fun _ _ => True) (fun stop _ => Fails stop) start := by
  unfold guarded
  rw [meets_catching, meets_bind]
  have kept := (quiet start).2.1.trans free
  cases ran : body start with
  | mk answer next =>
    rw [ran] at kept
    have unset : next.promise.isNone = true := by
      show next.promise.isNone = true
      rw [show next.promise = none from kept]
      rfl
    cases answer with
    | ok value =>
      rw [Program.meets_of_ok ran, Program.meets_of_ok ran]
      apply iff_of_true _ trivial
      obtain ⟨result, outcome⟩ := value
      apply meets_bind.mpr
      apply meets_bind.mpr
      apply meets_get.mpr
      apply meets_bind.mpr
      apply meets_require.mpr
      rw [if_pos unset]
      trivial
    | error stop =>
      rw [Program.meets_of_error ran, Program.meets_of_error ran]
      cases stop with
      | failed outcome =>
        apply iff_of_true _ trivial
        apply meets_bind.mpr
        apply releaseKeys_meets.mono _ fun _ _ => id
        intro _ last same
        have still : last.promise.isNone = true := same ▸ unset
        apply meets_bind.mpr
        apply meets_bind.mpr
        apply meets_get.mpr
        apply meets_bind.mpr
        apply meets_require.mpr
        rw [if_pos still]
        trivial
      | exception => exact Iff.rfl
      | terminate => exact Iff.rfl

/-! ## Building -/

def ExistingInputFits (utxo : UTXO) (state : Builder ω) : Prop :=
  (bitcoinTransactionInput utxo).isSome = true → fits (state.inputValue + utxo.value) = true

theorem addExistingInput_iff (utxo : UTXO) (state : Builder ω) :
    Meets (addExistingInput utxo) (fun _ _ => True) (fun stop _ => if stop = .exception then True else False) state ↔
      ExistingInputFits utxo state := by
  unfold addExistingInput ExistingInputFits
  rw [meets_bind, @addInput_meets ω state fun stop => if stop = .exception then True else False]
  cases bitcoinTransactionInput utxo with
  | none => exact iff_of_true trivial fun wrong => absurd wrong Bool.false_ne_true
  | some input =>
    show (if fits (state.inputValue + utxo.value) then _ else _) ↔ _
    by_cases fit : fits (state.inputValue + utxo.value) = true
    · rw [if_pos fit]
      exact iff_of_true trivial fun _ => fit
    · rw [if_neg fit]
      exact iff_of_false id fun one => fit (one rfl)

variable (node) in
/-- The outputs that are already reserved have a total. -/
def ExistingInputsFit (state : Builder ω) : Prop :=
  Program.Throughout ExistingInputFits addExistingInput (node.getReserved state.world) state

theorem addExistingInputs_iff : Meets (caught (addExistingInputs node)) (fun _ _ => True) (fun _ _ => False) start ↔
    ExistingInputsFit node start := by
  apply (@meets_caught ω start fun _ => False).trans
  unfold addExistingInputs
  apply meets_bind.trans
  exact Program.meets_forEach_iff addExistingInput_iff _ start

variable (node) in
/-- Where the amounts fit, and the assertions hold. -/
structure Safe (proposal : Proposal) (state : Builder ω) : Prop where
  existing : ExistingInputsFit node state
  normal : proposal.policy = .default → ∀ started, caught (addExistingInputs node) state = (.ok true, started) →
    NormalSafe node proposal started
  sweep : proposal.policy ≠ .default → ∀ started, caught (addExistingInputs node) state = (.ok true, started) →
    SweepSafe node proposal started

theorem prepareSweep_finalize_quiet (proposal : Proposal) : Quiet True (do
    prepareSweep node proposal
    finalize node proposal) := quiet_bind prepareSweep_quiet fun _ => finalize_quiet proposal

theorem prepared_iff {proposal : Proposal} {prepares : Building ω Unit} :
    Meets (do
      prepares
      finalize node proposal) (fun _ _ => True) (fun stop _ => Fails stop) start ↔
      Meets prepares (fun _ _ => True) (fun stop _ => Fails stop) start := by
  rw [meets_bind_iff]
  apply and_iff_left
  exact fun _ next _ => (finalize_meets proposal next).mono (fun _ _ => id) fun _ _ => False.elim

theorem build_iff (proposal : Proposal) (world : ω) :
    Meets (build node proposal) (fun _ _ => True) (fun _ _ => False) (new proposal world) ↔ Safe node proposal (new proposal world) := by
  unfold build
  rw [meets_bind_iff, addExistingInputs_iff]
  have started : ∀ existing next, caught (addExistingInputs node) (new proposal world) = (.ok existing, next) → next.promise = none := by
    intro existing next ran
    have kept := (quiet_caught (@addExistingInputs_quiet ω node) (new proposal world)).2.1
    rw [ran] at kept
    exact kept
  have unopened : ∀ next, caught (addExistingInputs node) (new proposal world) = (.ok false, next) →
      Meets (do
        fulfil { result := .inputCreationError }
        pure BuildResult.permanentFailure) (fun _ _ => True) (fun _ _ => False) next := by
    intro next ran
    have unset : next.promise.isNone = true := by rw [started false next ran]; rfl
    apply meets_bind.mpr
    apply meets_bind.mpr
    apply meets_get.mpr
    apply meets_bind.mpr
    apply meets_require.mpr
    rw [if_pos unset]
    trivial
  have normal : ∀ next, caught (addExistingInputs node) (new proposal world) = (.ok true, next) →
      (Meets (buildNormalTransaction node proposal) (fun _ _ => True) (fun _ _ => False) next ↔ NormalSafe node proposal next) := by
    intro next ran
    have quiet : Quiet True (do
      prepareNormal node proposal
      finalize node proposal) := quiet_bind prepareNormal_quiet fun _ => finalize_quiet proposal
    unfold buildNormalTransaction
    rw [guarded_iff quiet (started true next ran), prepared_iff, prepareNormal_iff (addExistingInputs_fresh ran)]
  have sweep : proposal.policy ≠ .default → ∀ next, caught (addExistingInputs node) (new proposal world) = (.ok true, next) →
      (Meets (buildSweepTransaction node proposal) (fun _ _ => True) (fun _ _ => False) next ↔ SweepSafe node proposal next) := by
    intro sweeps next ran
    unfold buildSweepTransaction
    rw [guarded_iff (prepareSweep_finalize_quiet proposal) (started true next ran), prepared_iff,
      prepareSweep_iff sweeps (addExistingInputs_fresh ran)]
  constructor
  · rintro ⟨existing, rest⟩
    refine ⟨existing, fun isDefault next ran => ?_, fun sweeps next ran => ?_⟩
    · have built := rest true next ran
      rw [if_neg (by decide), if_pos isDefault] at built
      exact (normal next ran).mp built
    · have built := rest true next ran
      rw [if_neg (by decide), if_neg sweeps] at built
      exact (sweep sweeps next ran).mp built
  · intro safe
    refine ⟨safe.existing, fun existing next ran => ?_⟩
    cases existing with
    | false =>
      rw [if_pos rfl]
      exact unopened next ran
    | true =>
      rw [if_neg (by decide)]
      by_cases isDefault : proposal.policy = .default
      · rw [if_pos isDefault]
        exact (normal next ran).mpr (safe.normal isDefault next ran)
      · rw [if_neg isDefault]
        exact (sweep isDefault next ran).mpr (safe.sweep isDefault next ran)

theorem guarded_failed {body : Building ω (BuildResult × SendOutcome)} {outcome : SendOutcome} {last : Builder ω}
    (ran : body start = (.error (.failed outcome), last)) :
    Meets (guarded node body) (fun result _ => result = .permanentFailure) (fun _ _ => True) start := by
  unfold guarded
  rw [meets_catching, meets_bind, Program.meets_of_error ran]
  apply meets_bind.mpr
  apply releaseKeys_meets.mono _ fun _ _ => False.elim
  intro _ next _
  apply meets_bind.mpr
  apply meets_bind.mpr
  apply meets_get.mpr
  apply meets_bind.mpr
  apply meets_require.mpr
  split
  · exact rfl
  · trivial

variable (node) in
/-- The preparation fails, as it does when the funds run out. -/
def Unfunded (proposal : Proposal) (world : ω) : Prop :=
  ∃ started outcome last, caught (addExistingInputs node) (new proposal world) = (.ok true, started) ∧
    prepare node proposal started = (.error (.failed outcome), last)

theorem build_unfunded {proposal : Proposal} {world : ω} (unfunded : Unfunded node proposal world) :
    Meets (build node proposal) (fun result _ => result = .permanentFailure) (fun _ _ => True) (new proposal world) := by
  obtain ⟨started, outcome, last, existing, fails⟩ := unfunded
  unfold prepare at fails
  apply meets_bind.mpr
  apply (Program.meets_of_ok existing).mpr
  rw [if_neg (by decide)]
  by_cases isDefault : proposal.policy = .default
  · rw [if_pos isDefault] at fails ⊢
    exact guarded_failed (Program.bind_of_error fails)
  · rw [if_neg isDefault] at fails ⊢
    exact guarded_failed (Program.bind_of_error fails)

variable (node) in
/-- Building returns, without the funds with a permanent failure. -/
def EndsWell (proposal : Proposal) (world : ω) : Prop :=
  ∃ result final, build node proposal (new proposal world) = (.ok result, final) ∧
    (Unfunded node proposal world → result = .permanentFailure)

theorem not_endsWell {proposal : Proposal} {world : ω} {stop : Stop}
    (stopped : (build node proposal (new proposal world)).1 = .error stop) : ¬ EndsWell node proposal world := by
  rintro ⟨result, final, ran, _⟩
  rw [ran] at stopped
  cases stopped

end Opentxs.Spend.Builder
