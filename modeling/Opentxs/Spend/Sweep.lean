import Opentxs.Spend.Abort

/-! When the builder of a sweep ends the program: the totals of what is swept, the notifications that
have to share it, and the single output. -/

namespace Opentxs.Spend.Builder
open Library Library.Endian Bitcoin BitcoinScript Blockchain Amount
open Program (Meets meets_bind meets_pure meets_get meets_modify meets_require meets_onlyIf meets_catching)
open Wallet.Types (Key TxoTag Outpoint)

variable {ω : Type} {node : Node ω} {start : Builder ω} {stops : Stop → Prop}

/-! ## Inputs -/

variable (node) in
/-- The next input of a sweep can be added to the total. -/
def SweepInputFits (outpoint : Outpoint) (state : Builder ω) : Prop :=
  ∀ utxo ∈ (node.reserveOutpoint outpoint state.world).1, (bitcoinTransactionInput utxo).isSome = true →
    fits (state.inputValue + utxo.value) = true

theorem addSweepInput_iff (outpoint : Outpoint) (state : Builder ω) :
    Meets (addSweepInput node outpoint) (fun _ _ => True) (fun stop _ => Fails stop) state ↔ SweepInputFits node outpoint state := by
  unfold addSweepInput SweepInputFits
  rw [meets_bind, meets_ask]
  cases (node.reserveOutpoint outpoint state.world).1 with
  | none => exact iff_of_true trivial fun _ member => absurd member (Option.not_mem_none _)
  | some utxo =>
    show Meets (do
      let added ← addInput utxo
      Program.require added (.failed { result := .inputCreationError })) _ _ _ ↔ _
    rw [meets_bind, addInput_meets]
    have only : (∀ other ∈ some utxo, (bitcoinTransactionInput other).isSome = true → fits (state.inputValue + other.value) = true) ↔
        ((bitcoinTransactionInput utxo).isSome = true → fits (state.inputValue + utxo.value) = true) :=
      ⟨fun all => all utxo rfl, fun one other member => Option.mem_some_iff.mp member ▸ one⟩
    rw [only]
    cases bitcoinTransactionInput utxo with
    | none => exact iff_of_true trivial fun wrong => absurd wrong Bool.false_ne_true
    | some input =>
      show (if fits (state.inputValue + utxo.value) then _ else _) ↔ _
      by_cases fit : fits (state.inputValue + utxo.value) = true
      · rw [if_pos fit]
        exact iff_of_true trivial fun _ => fit
      · rw [if_neg fit]
        exact iff_of_false id fun one => fit (one rfl)

theorem addSweepInput_meets (fresh : Fresh start) (outpoint : Outpoint) :
    Meets (addSweepInput node outpoint) (fun _ next => Fresh next) (fun _ _ => True) start := by
  apply meets_bind.mpr
  apply meets_ask.mpr
  have moved : Fresh { start with world := (node.reserveOutpoint outpoint start.world).2 } :=
    ⟨{ fresh.totals with }, fresh.outputs, fresh.change, fresh.counted, fresh.notificationValue⟩
  cases (node.reserveOutpoint outpoint start.world).1 with
  | none => exact moved
  | some utxo =>
    apply meets_bind.mpr
    apply (addInput_meets utxo).mpr
    cases made : bitcoinTransactionInput utxo with
    | none => trivial
    | some input =>
      dsimp only
      split
      · exact moved.withInput made
      · trivial

variable (node) in
/-- The total of the inputs of a sweep fits, one after the other. -/
def SweepInputsFit (proposal : Proposal) (state : Builder ω) : Prop :=
  ∀ source, sweepSource proposal = .ok source →
    Program.Throughout (SweepInputFits node) (addSweepInput node) (sweepCandidates node proposal source state) state

theorem addSweepInputs_iff {proposal : Proposal} (sweeps : proposal.policy ≠ .default) :
    Meets (addSweepInputs node proposal) (fun _ _ => True) (fun stop _ => Fails stop) start ↔ SweepInputsFit node proposal start := by
  have named : ∃ source, sweepSource proposal = .ok source := by
    unfold sweepSource
    cases policy : proposal.policy with
    | default => exact absurd policy sweeps
    | sweepAccount => exact ⟨_, rfl⟩
    | sweepSubaccount => exact ⟨_, rfl⟩
    | sweepKey => exact ⟨_, rfl⟩
  obtain ⟨source, is⟩ := named
  unfold addSweepInputs
  rw [meets_bind, meets_gives, is, gives_ok, meets_bind, meets_look_ok, meets_bind_iff,
    Program.meets_forEach_iff addSweepInput_iff]
  have required : ∀ value next, Program.forEach (addSweepInput node) (sweepCandidates node proposal source start) start = (.ok value, next) →
      Meets (do
        let state ← Program.get
        Program.require (!state.inputs.isEmpty && state.inputValue ≠ 0) (.failed { result := .insufficientFunds }))
        (fun _ _ => True) (fun stop _ => Fails stop) next := by
    intro _ next _
    apply meets_bind.mpr
    apply meets_get.mpr
    apply meets_require.mpr
    split <;> trivial
  constructor
  · intro both other was
    cases was.symm.trans is
    exact both.1
  · exact fun fit => ⟨fit source is, required⟩

theorem addSweepInputs_meets {proposal : Proposal} (fresh : Fresh start) :
    Meets (addSweepInputs node proposal) (fun _ next => Fresh next) (fun _ _ => True) start := by
  apply meets_bind.mpr
  apply meets_look.mpr
  cases sweepSource proposal with
  | error _ => trivial
  | ok source =>
    apply meets_bind.mpr
    apply meets_look_ok.mpr
    apply meets_bind.mpr
    apply (Meets.forEach (fun outpoint _ state (fresh : Fresh state) => addSweepInput_meets fresh outpoint) _ start fresh).mono _
      fun _ _ stop => stop
    intro _ next fresh
    apply meets_bind.mpr
    apply meets_get.mpr
    apply meets_require.mpr
    split
    · exact fresh
    · trivial

theorem Fresh.nothing {state : Builder ω} (fresh : Fresh state) : Noted [] 0 state where
  totals := fresh.totals
  counted := fresh.counted
  outputs := fresh.outputs
  within := fresh.within
  owned := by
    constructor <;>
    · rw [fresh.change]
      exact fun _ member => absurd member List.not_mem_nil
  notifications := by
    rw [fresh.change]
    exact fun _ member => absurd member List.not_mem_nil
  notificationValue := by
    rw [fresh.notificationValue, fresh.change]
    rfl

theorem nonempty_of_notifies {proposal : Proposal} {state : Builder ω}
    (count : state.change.length = proposal.notifications.length)
    (notifies : hasNotification proposal = true) : state.change ≠ [] := by
  intro none
  rw [none] at count
  unfold hasNotification at notifies
  rw [List.eq_nil_of_length_eq_zero count.symm] at notifies
  cases notifies

variable (node) in
/-- What a sweep that sends notifications needs once its inputs are there. -/
structure NotifiesSafely (proposal : Proposal) (state : Builder ω) : Prop where
  noOutput : hasOutput proposal = false
  notified : ∀ next, createNotifications node proposal 0 state = (.ok true, next) →
    Comparable node next ∧ (Covers node next → Finishable node next)

theorem sweepToNotifications_iff {proposal : Proposal} (notifies : hasNotification proposal = true) (fresh : Fresh start) :
    Meets (sweepToNotifications node proposal) (fun _ _ => True) (fun stop _ => Fails stop) start ↔
      NotifiesSafely node proposal start := by
  have creates : Meets (createNotifications node proposal 0) _ _ start :=
    createNotifications_meets proposal [] 0 fresh.nothing fresh.change
  have never : Meets (createNotifications node proposal 0) (fun _ _ => True) (fun stop _ => Fails stop) start :=
    creates.mono (fun _ _ _ => trivial) fun _ _ => False.elim
  have ready : ∀ next, createNotifications node proposal 0 start = (.ok true, next) → Ready node [] 0 next := by
    intro next ran
    obtain ⟨noted, count⟩ := creates.of_ok ran rfl
    exact noted.ready (nonempty_of_notifies count notifies)
  have finished : ∀ next, createNotifications node proposal 0 start = (.ok true, next) →
      (Meets (do
        let funded ← look (isFunded node)
        Program.require funded (.failed { result := .insufficientFunds })
        finalizeOutputs node) (fun _ _ => True) (fun stop _ => Fails stop) next ↔
        Comparable node next ∧ (Covers node next → Finishable node next)) := by
    intro next ran
    have later := ready next ran
    rw [meets_bind, meets_isFunded later.totals.segwit]
    by_cases comparable : Comparable node next
    · rw [if_pos comparable, meets_bind, meets_require, and_iff_right comparable]
      by_cases covers : Covers node next
      · rw [if_pos (decide_eq_true covers), finalizeOutputs_iff later]
        exact ⟨fun all _ => all.2.2, fun finishes => ⟨comparable, covers, finishes covers⟩⟩
      · rw [if_neg fun holds => covers (of_decide_eq_true holds)]
        exact iff_of_true trivial fun now => absurd now covers
    · rw [if_neg comparable]
      exact iff_of_false id fun all => comparable all.1
  unfold sweepToNotifications
  rw [meets_bind, meets_assertTrue]
  cases noOutput : hasOutput proposal with
  | true => exact iff_of_false id fun safe => absurd safe.noOutput (by rw [noOutput]; decide)
  | false =>
    rw [if_pos (show (!false) = true from rfl), meets_bind_iff, and_iff_right never]
    constructor
    · intro after
      refine ⟨noOutput, fun next ran => ?_⟩
      have rest := after true next ran
      rw [meets_bind, meets_require, if_pos rfl] at rest
      exact (finished next ran).mp rest
    · intro safe notified next ran
      rw [meets_bind, meets_require]
      cases notified with
      | false => exact trivial
      | true => exact (finished next ran).mpr (safe.notified next ran)

variable (node) in
/-- What a sweep to a single output needs once that output is there. -/
structure PaysSafely (made : Builder ω) : Prop where
  subtractable : Subtractable node made
  dust : fits (148 * node.feeRate) = true
  single : ofUnsigned (dustUnits node) ≤ excess node made →
    made.outputs.length = 1 ∧ fits (made.outputValue + excess node made) = true

theorem createSweepOutput_meets {proposal : Proposal} (fresh : Fresh start) :
    Meets (createSweepOutput node proposal) (fun _ made => made.segwit = false) (fun stop _ => Fails stop) start := by
  unfold createSweepOutput
  split
  · apply meets_bind.mpr
    apply (createOutputs_meets proposal).mono _ fun _ _ => False.elim
    intro created next was
    apply meets_require.mpr
    cases created with
    | false => trivial
    | true =>
      obtain ⟨paid, _, rfl, _⟩ := was rfl
      show (start.withOutputs paid).segwit = false
      rw [withOutputs_eq]
      exact fresh.totals.segwit
  · apply meets_bind.mpr
    apply (addChange_meets fresh.nothing).mono _ fun _ _ => False.elim
    intro changed next was
    apply meets_bind.mpr
    apply meets_require.mpr
    cases changed with
    | false => trivial
    | true => exact (was rfl).1.totals.segwit

theorem sweepToOutput_iff {proposal : Proposal} (fresh : Fresh start) :
    Meets (sweepToOutput node proposal) (fun _ _ => True) (fun stop _ => Fails stop) start ↔
      ∀ made, createSweepOutput node proposal start = (.ok (), made) → PaysSafely node made := by
  have creates : Meets (createSweepOutput node proposal) _ _ start := createSweepOutput_meets fresh
  have paid : ∀ made : Builder ω, made.segwit = false → (Meets (do
      let amount ← look (excessValue node)
      let dust ← look fun _ => dust node
      Program.require (ofUnsigned dust ≤ amount) (.failed { result := .insufficientFunds })
      let state ← Program.get
      assertTrue (state.outputs.length = 1)
      let outputs := state.outputs.map (TransactionOutput.setValue amount)
      let outputValue ← look fun state => checked .terminate (state.outputValue + amount)
      Program.modify fun state => { state with outputs, outputValue }) (fun _ _ => True) (fun stop _ => Fails stop) made ↔
        PaysSafely node made) := by
    intro made unsigned
    rw [meets_bind, meets_excessValue unsigned]
    by_cases subtractable : Subtractable node made
    · rw [if_pos subtractable, meets_bind, meets_dust]
      by_cases dust : fits (148 * node.feeRate) = true
      · rw [if_pos dust, meets_bind, meets_require]
        by_cases worth : ofUnsigned (dustUnits node) ≤ excess node made
        · rw [if_pos (decide_eq_true worth), meets_bind, meets_get, meets_bind, meets_assertTrue]
          by_cases single : made.outputs.length = 1
          · rw [if_pos (decide_eq_true single), meets_bind, meets_checked]
            by_cases fit : fits (made.outputValue + excess node made) = true
            · rw [if_pos fit]
              exact iff_of_true trivial ⟨subtractable, dust, fun _ => ⟨single, fit⟩⟩
            · rw [if_neg fit]
              exact iff_of_false id fun safe => fit (safe.single worth).2
          · rw [if_neg fun holds => single (of_decide_eq_true holds)]
            exact iff_of_false id fun safe => single (safe.single worth).1
        · rw [if_neg fun holds => worth (of_decide_eq_true holds)]
          exact iff_of_true trivial ⟨subtractable, dust, fun now => absurd now worth⟩
      · rw [if_neg dust]
        exact iff_of_false id fun safe => dust safe.dust
    · rw [if_neg subtractable]
      exact iff_of_false id fun safe => subtractable safe.subtractable
  unfold sweepToOutput
  rw [meets_bind_iff, and_iff_right (creates.mono (fun _ _ _ => trivial) fun _ _ => id)]
  constructor
  · exact fun after made ran => (paid made (creates.of_ok ran)).mp (after () made ran)
  · exact fun safe _ made ran => (paid made (creates.of_ok ran)).mpr (safe made ran)

variable (node) in
/-- What a sweep needs. -/
structure SweepSafe (proposal : Proposal) (state : Builder ω) : Prop where
  inputs : SweepInputsFit node proposal state
  notifies : hasNotification proposal = true → ∀ collected, addSweepInputs node proposal state = (.ok (), collected) →
    NotifiesSafely node proposal collected
  pays : hasNotification proposal = false → ∀ collected, addSweepInputs node proposal state = (.ok (), collected) →
    ∀ made, createSweepOutput node proposal collected = (.ok (), made) → PaysSafely node made

theorem prepareSweep_iff {proposal : Proposal} (sweeps : proposal.policy ≠ .default) (fresh : Fresh start) :
    Meets (prepareSweep node proposal) (fun _ _ => True) (fun stop _ => Fails stop) start ↔ SweepSafe node proposal start := by
  unfold prepareSweep
  rw [meets_bind_iff, addSweepInputs_iff sweeps]
  have collects : ∀ collected, addSweepInputs node proposal start = (.ok (), collected) → Fresh collected :=
    fun _ ran => (addSweepInputs_meets fresh).of_ok ran
  cases notifies : hasNotification proposal with
  | true =>
    constructor
    · rintro ⟨inputs, rest⟩
      refine ⟨inputs, fun _ collected ran => ?_, fun wrong => absurd (notifies.symm.trans wrong) (by decide)⟩
      exact (sweepToNotifications_iff notifies (collects _ ran)).mp (rest () collected ran)
    · intro safe
      refine ⟨safe.inputs, fun _ collected ran => ?_⟩
      exact (sweepToNotifications_iff notifies (collects _ ran)).mpr (safe.notifies notifies collected ran)
  | false =>
    constructor
    · rintro ⟨inputs, rest⟩
      refine ⟨inputs, fun wrong => absurd (notifies.symm.trans wrong) (by decide), fun _ collected ran => ?_⟩
      exact (sweepToOutput_iff (collects _ ran)).mp (rest () collected ran)
    · intro safe
      refine ⟨safe.inputs, fun _ collected ran => ?_⟩
      exact (sweepToOutput_iff (collects _ ran)).mpr (safe.pays notifies collected ran)

end Opentxs.Spend.Builder
