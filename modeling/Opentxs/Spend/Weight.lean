import Mathlib.Algebra.Order.BigOperators.Group.List
import Opentxs.Spend.Sweep

/-! The size of a signed transaction, and the fee that was worked out before it was signed. -/

namespace Opentxs.Spend
open Library Library.Endian Bitcoin BitcoinScript Blockchain Amount

namespace Transaction

/-- The version and the lock time have four bytes each. -/
def strippedSize (transaction : Transaction) : Nat :=
  4 + (CompactSize.size transaction.inputs.length + (transaction.inputs.map TransactionInput.baseBytes).sum) +
    (CompactSize.size transaction.outputs.length + (transaction.outputs.map TransactionOutput.calculateSize).sum) + 4

/-- The marker and the flag come before the witnesses. -/
def witnessSize (transaction : Transaction) : Nat := 2 + (transaction.inputs.map TransactionInput.witnessBytes).sum

def calculateSize (transaction : Transaction) : Nat :=
  transaction.strippedSize + if transaction.segwit then transaction.witnessSize else 0

def weight (segwitScaleFactor : Nat) (transaction : Transaction) : Nat :=
  transaction.strippedSize * (segwitScaleFactor - 1) + transaction.calculateSize

def virtualSize (segwitScaleFactor : Nat) (transaction : Transaction) : Nat :=
  if transaction.segwit then (transaction.weight segwitScaleFactor + (segwitScaleFactor - 1)) / segwitScaleFactor
  else transaction.calculateSize

end Transaction

namespace Builder
open Program (Meets meets_bind meets_pure meets_get meets_modify meets_require meets_onlyIf)

variable {ω : Type} {node : Node ω} {start : Builder ω} {stops : Stop → Prop}

/-! ## Signatures in the place of placeholders -/

theorem pushData_size {data : Bytes} {bound : Nat} (within : data.length ≤ bound) (positive : 0 < bound) (small : bound ≤ 75) :
    (pushData data).serialize.length ≤ bound + 1 := by
  unfold pushData
  by_cases empty : data = []
  · rw [if_pos empty]
    show 2 ≤ bound + 1
    omega
  · rw [if_neg empty, if_pos (within.trans small)]
    show data.length + 1 ≤ bound + 1
    exact Nat.succ_le_succ within

theorem total_mono {small large : Nat} (below : small ≤ large) : CompactSize.total small ≤ CompactSize.total large :=
  Nat.add_le_add (CompactSize.size_mono below) below

/-- One signature and one key for each placeholder, and none is longer. -/
def SignedWithin (signatures : List (Bytes × Bytes)) : Prop :=
  ∃ signature pubkey, signatures = [(signature, pubkey)] ∧ signature.length ≤ blankSignature.length ∧
    pubkey.length ≤ blankPubkey.length

/-- The types of outputs that the wallet can spend. -/
def IsSpendable (pattern : Pattern) : Prop :=
  pattern = .payToPubkey ∨ pattern = .payToPubkeyHash ∨ pattern = .payToWitnessPubkeyHash

instance (pattern : Pattern) : Decidable (IsSpendable pattern) := inferInstanceAs (Decidable (_ ∨ _ ∨ _))

/-- What a signed input may be at most. -/
structure SignedInput (before after : TransactionInput) : Prop where
  baseBytes : after.baseBytes ≤ before.baseBytes
  witnessBytes : after.witnessBytes ≤ before.witnessBytes

theorem bitcoinTransactionInput_some {utxo : UTXO} {input : TransactionInput} (made : bitcoinTransactionInput utxo = some input) :
    ∃ elements, placeholders utxo.pattern utxo.keys = some (elements, input.witness) ∧
      scriptOf elements .input = some input.script ∧ input.spends = utxo.pattern := by
  unfold bitcoinTransactionInput at made
  split at made
  · cases made
  · cases held : placeholders utxo.pattern utxo.keys with
    | none =>
      rw [held] at made
      cases made
    | some pair =>
      obtain ⟨elements, witness⟩ := pair
      rw [held] at made
      cases valid : scriptOf elements .input with
      | none =>
        simp only [valid, Option.bind_eq_bind, Option.bind_some, Option.bind_none, reduceCtorEq] at made
      | some script =>
        simp only [valid, Option.bind_eq_bind, Option.bind_some, Option.some.injEq] at made
        subst made
        exact ⟨elements, rfl, valid, rfl⟩

theorem scriptOf_some {elements : List ScriptElement} {role : Position} {script : Script} (valid : scriptOf elements role = some script) :
    script.calculateSize = (elements.map fun element => element.serialize.length).sum := by
  unfold scriptOf at valid
  split at valid
  · cases valid
    show (elements.flatMap ScriptElement.serialize).length = _
    rw [List.length_flatMap]
  · cases valid

theorem baseBytes_mono {input : TransactionInput} {script : Script} (smaller : script.calculateSize ≤ input.script.calculateSize) :
    ({ input with script } : TransactionInput).baseBytes ≤ input.baseBytes := by
  have totals := total_mono smaller
  show 36 + CompactSize.total script.calculateSize + 4 ≤ 36 + CompactSize.total input.script.calculateSize + 4
  omega

theorem addSignatures_within {utxo : UTXO} {input signed : TransactionInput} {signatures : List (Bytes × Bytes)}
    (made : bitcoinTransactionInput utxo = some input) (spendable : IsSpendable input.spends) (within : SignedWithin signatures)
    (ran : addSignatures input signatures = some signed) : SignedInput input signed := by
  obtain ⟨signature, pubkey, rfl, shortSignature, shortPubkey⟩ := within
  obtain ⟨elements, held, valid, type⟩ := bitcoinTransactionInput_some made
  have first := pushData_size shortSignature (by decide) (by decide)
  have second := pushData_size shortPubkey (by decide) (by decide)
  have size := scriptOf_some valid
  rw [← type] at held
  unfold addSignatures at ran
  rcases spendable with pubkeyType | hashType | witnessType
  · rw [pubkeyType] at held ran
    simp only [placeholders, Option.some.injEq, Prod.mk.injEq] at held
    obtain ⟨script, scripted, rfl⟩ := Option.map_eq_some_iff.mp ran
    have smaller : script.calculateSize ≤ input.script.calculateSize := by
      rw [scriptOf_some scripted, size, ← held.1]
      show (pushData signature).serialize.length + 0 ≤ (pushData blankSignature).serialize.length + 0
      exact first
    exact ⟨baseBytes_mono smaller, le_refl _⟩
  · rw [hashType] at held ran
    simp only [placeholders, Option.some.injEq, Prod.mk.injEq] at held
    dsimp only at ran
    rw [if_pos held.2.symm] at ran
    obtain ⟨script, scripted, rfl⟩ := Option.map_eq_some_iff.mp ran
    have smaller : script.calculateSize ≤ input.script.calculateSize := by
      rw [scriptOf_some scripted, size, ← held.1]
      show (pushData signature).serialize.length + ((pushData pubkey).serialize.length + 0) ≤
        (pushData blankSignature).serialize.length + ((pushData blankPubkey).serialize.length + 0)
      exact Nat.add_le_add first second
    exact ⟨baseBytes_mono smaller, le_refl _⟩
  · rw [witnessType] at held ran
    simp only [placeholders, Option.some.injEq, Prod.mk.injEq] at held
    have filled : input.witness ≠ [] := by
      rw [← held.2]
      exact List.cons_ne_nil _ _
    dsimp only at ran
    rw [if_neg filled] at ran
    cases ran
    refine ⟨le_refl _, ?_⟩
    show CompactSize.size 2 + (CompactSize.total signature.length + (CompactSize.total pubkey.length + 0)) ≤
      CompactSize.size input.witness.length + (input.witness.map fun item => CompactSize.total item.length).sum
    rw [← held.2]
    show _ ≤ CompactSize.size 2 + (CompactSize.total blankSignature.length + (CompactSize.total blankPubkey.length + 0))
    have signatures := total_mono shortSignature
    have pubkeys := total_mono shortPubkey
    omega

/-! ## All inputs are signed -/

/-- The signatures that the keys give are as long as their placeholders at most. -/
def SignsWithin (node : Node ω) : Prop :=
  ∀ input outputs signatures, IsSpendable input.spends → node.signatures input outputs = some signatures → SignedWithin signatures

/-- The input that marks a transaction as one with witnesses. -/
def MarksSegwit (node : Node ω) (input : TransactionInput) : Prop := node.isBitcoinCash = false ∧ isSegwit input = true

def Signed (before after : TransactionInput × Amount) : Prop := SignedInput before.1 after.1 ∧ after.2 = before.2

/-- The inputs were made from outputs that the wallet can spend. -/
def Spendable (inputs : List (TransactionInput × Amount)) : Prop :=
  ∀ input ∈ inputs, IsSpendable input.1.spends ∧ ∃ utxo, bitcoinTransactionInput utxo = some input.1

theorem signInput_signed (within : SignsWithin node) {input : TransactionInput} (spendable : IsSpendable input.spends) {utxo : UTXO}
    (made : bitcoinTransactionInput utxo = some input) (start : Builder ω) :
    Meets (signInput node input) (fun signed next => SignedInput input signed ∧ next = { start with segwit := next.segwit } ∧
      (next.segwit = true ↔ start.segwit = true ∨ MarksSegwit node input)) (fun _ _ => True) start := by
  have smaller : ∀ outputs signatures signed, node.signatures input outputs = some signatures →
      addSignatures input signatures = some signed → SignedInput input signed := fun _ _ _ found ran =>
    addSignatures_within made spendable (within input _ _ spendable found) ran
  unfold signInput
  apply meets_bind.mpr
  apply meets_onlyIf.mpr
  split
  · next marks =>
    apply meets_modify.mpr
    refine (givingSignatures_meets input _ fun _ signed found ran => ?_).mono (fun _ _ => id) fun _ _ _ => trivial
    exact ⟨smaller _ _ _ found ran, rfl, fun _ => Or.inr marks, fun _ => rfl⟩
  · next plain =>
    refine (givingSignatures_meets input _ fun _ signed found ran => ?_).mono (fun _ _ => id) fun _ _ _ => trivial
    exact ⟨smaller _ _ _ found ran, rfl, Or.inl, fun either => either.resolve_right plain⟩

theorem signInputsFrom_signed (within : SignsWithin node) (inputs : List (TransactionInput × Amount)) : ∀ start : Builder ω,
    Spendable inputs → Meets (signInputsFrom node inputs) (fun signed next => List.Forall₂ Signed inputs signed ∧
      next = { start with segwit := next.segwit } ∧
      (next.segwit = true ↔ start.segwit = true ∨ ∃ input ∈ inputs, MarksSegwit node input.1)) (fun _ _ => True) start := by
  induction inputs with
  | nil => exact fun start _ => ⟨.nil, rfl, by simp⟩
  | cons input inputs ih =>
    intro start spendable
    obtain ⟨type, utxo, made⟩ := spendable input List.mem_cons_self
    apply meets_bind.mpr
    apply (signInput_signed within type made start).mono _ fun _ _ => id
    rintro signed next ⟨is, same, marked⟩
    apply meets_bind.mpr
    apply (ih next fun other member => spendable other (List.mem_cons_of_mem input member)).mono _ fun _ _ => id
    rintro others last ⟨are, still, later⟩
    refine ⟨.cons ⟨is, rfl⟩ are, ?_, ?_⟩
    · rw [still, same]
    · rw [later, marked]
      simp only [List.mem_cons, exists_eq_or_imp, or_assoc]

theorem signInputs_signed (within : SignsWithin node) (spendable : Spendable start.inputs) :
    Meets (signInputs node) (fun _ next => List.Forall₂ Signed start.inputs next.inputs ∧
      next = { start with inputs := next.inputs, segwit := next.segwit } ∧
      (next.segwit = true ↔ start.segwit = true ∨ ∃ input ∈ start.inputs, MarksSegwit node input.1)) (fun _ _ => True) start := by
  unfold signInputs
  apply meets_bind.mpr
  apply meets_get.mpr
  apply meets_bind.mpr
  apply (signInputsFrom_signed within start.inputs start spendable).mono _ fun _ _ => id
  rintro signed next ⟨are, same, marked⟩
  refine ⟨are, ?_, marked⟩
  show { next with inputs := signed } = { start with inputs := signed, segwit := next.segwit }
  rw [same]

/-! ## What was paid for -/

/-- The bytes that were estimated are those of the inputs and outputs, and they are paid for. -/
structure Priced (node : Node ω) (final : Builder ω) : Prop where
  outputTotal : final.outputTotal = (final.outputs.map TransactionOutput.calculateSize).sum
  outputCount : final.outputCount = final.outputs.length
  inputTotal : final.inputTotal = (final.inputs.map fun input => input.1.baseBytes).sum
  inputCount : final.inputCount = final.inputs.length - 1
  made : ∀ input ∈ final.inputs, ∃ utxo, bitcoinTransactionInput utxo = some input.1
  unsigned : final.segwit = false
  pays : feeFor node (estimate final) ≤ surplus final

theorem Balanced.priced {paid returned : List TransactionOutput} {fee : Amount} {units : Nat} {final : Builder ω}
    (balanced : Balanced node paid returned fee units final) : Priced node final where
  outputTotal := balanced.outputTotal
  outputCount := balanced.counted
  inputTotal := balanced.totals.inputTotal
  inputCount := balanced.totals.inputCount
  made := fun input member => by
    obtain ⟨utxo, made, _⟩ := balanced.totals.inputs input member
    exact ⟨utxo, made⟩
  unsigned := balanced.totals.segwit
  pays := by
    obtain ⟨_, rfl⟩ := requiredFee_ok balanced.totals.segwit balanced.required
    exact balanced.paysFee

/-- A recipient is added with an amount that is positive. -/
def Positive (proposal : Proposal) : Prop :=
  (∀ recipient ∈ proposal.addressRecipients, 0 < recipient.amount) ∧ ∀ recipient ∈ proposal.paymentCodeRecipients, 0 < recipient.amount

theorem sum_paid_nonneg {ρ : Type} {pays : ρ → TransactionOutput → Prop} {amount : ρ → Amount}
    (same : ∀ recipient output, pays recipient output → output.value = amount recipient) {recipients : List ρ}
    (positive : ∀ recipient ∈ recipients, 0 < amount recipient) {paid : List TransactionOutput}
    (all : List.Forall₂ pays recipients paid) : 0 ≤ (paid.map TransactionOutput.value).sum := by
  induction all with
  | nil => exact le_refl _
  | @cons recipient output _ _ first _ ih =>
    rw [List.map_cons, List.sum_cons, same recipient output first]
    exact Int.add_nonneg (positive recipient List.mem_cons_self).le
      (ih fun other member => positive other (List.mem_cons_of_mem recipient member))

/-- The output of a sweep is there, without its value. -/
structure SweepOutput (proposal : Proposal) (made : Builder ω) : Prop where
  totals : Totals made
  outputCount : made.outputCount = made.outputs.length
  change : made.change = []
  nonneg : Positive proposal → 0 ≤ made.outputValue

theorem createSweepOutput_made {proposal : Proposal} (fresh : Fresh start) :
    Meets (createSweepOutput node proposal) (fun _ made => SweepOutput proposal made) (fun _ _ => True) start := by
  unfold createSweepOutput
  split
  · apply meets_bind.mpr
    apply (createOutputs_meets proposal).mono _ fun _ _ _ => trivial
    intro created next was
    apply meets_require.mpr
    cases created with
    | false => trivial
    | true =>
      obtain ⟨paid, ⟨addresses, codes, rfl, addressesPaid, codesPaid⟩, rfl, _⟩ := was rfl
      have totals := fresh.totals.withOutputs (addresses ++ codes)
      have none : (start.withOutputs (addresses ++ codes)).change = [] := by
        rw [withOutputs_eq]
        exact fresh.change
      have outputs : (start.withOutputs (addresses ++ codes)).outputs = addresses ++ codes := by
        rw [withOutputs_eq]
        show start.outputs ++ (addresses ++ codes) = _
        rw [fresh.outputs, List.nil_append]
      constructor
      case totals => exact { totals with }
      case outputCount =>
        show (start.withOutputs (addresses ++ codes)).outputs.length + (start.withOutputs (addresses ++ codes)).change.length = _
        rw [none]
        rfl
      case change => exact none
      case nonneg =>
        intro positive
        show 0 ≤ (start.withOutputs (addresses ++ codes)).outputValue
        rw [totals.outputValue, none, outputs, List.append_nil, List.map_append, List.sum_append]
        apply Int.add_nonneg
        · exact sum_paid_nonneg (fun _ _ pays => pays.1) positive.1 addressesPaid
        · exact sum_paid_nonneg (fun _ _ pays => pays.1) positive.2 codesPaid
  · apply meets_bind.mpr
    apply (addChange_meets fresh.nothing).mono _ fun _ _ _ => trivial
    intro changed next was
    apply meets_bind.mpr
    apply meets_require.mpr
    cases changed with
    | false => trivial
    | true =>
      have ready := (was rfl).1
      have totals := ready.totals
      constructor
      case totals =>
        constructor
        case outputValue =>
          show next.outputValue = (((next.outputs ++ next.change) ++ []).map TransactionOutput.value).sum
          rw [List.append_nil]
          exact totals.outputValue
        case outputTotal =>
          show next.outputTotal = (((next.outputs ++ next.change) ++ []).map TransactionOutput.calculateSize).sum
          rw [List.append_nil]
          exact totals.outputTotal
        case inputValue => exact totals.inputValue
        case inputTotal => exact totals.inputTotal
        case witnessTotal => exact totals.witnessTotal
        case inputCount => exact totals.inputCount
        case inputs => exact totals.inputs
        case segwit => exact totals.segwit
      case outputCount =>
        show next.outputCount = (next.outputs ++ next.change).length
        rw [ready.counted, List.length_append]
      case change => rfl
      case nonneg =>
        intro _
        show 0 ≤ next.outputValue
        rw [ready.totals.outputValue, ready.outputs, List.nil_append, sum_empty ready.owned.empty]

/-- The only output of a sweep takes what the fee leaves. -/
def withSwept (node : Node ω) (made : Builder ω) : Builder ω := { made with
  outputs := made.outputs.map (TransactionOutput.setValue (excess node made))
  outputValue := made.outputValue + excess node made }

theorem sweepToOutput_meets {proposal : Proposal} (fresh : Fresh start) :
    Meets (sweepToOutput node proposal) (fun _ final => ∃ made, SweepOutput proposal made ∧ made.outputs.length = 1 ∧ final = withSwept node made)
      (fun _ _ => True) start := by
  unfold sweepToOutput
  apply meets_bind.mpr
  apply (createSweepOutput_made fresh).mono _ fun _ _ => id
  intro _ made output
  apply meets_bind.mpr
  apply meets_look.mpr
  cases excessRan : excessValue node made with
  | error stop => trivial
  | ok excess =>
    obtain ⟨fee, required, rfl⟩ := excessValue_ok excessRan
    obtain ⟨_, rfl⟩ := requiredFee_ok output.totals.segwit required
    apply meets_bind.mpr
    apply meets_look.mpr
    split
    · apply meets_bind.mpr
      apply meets_require.mpr
      split
      · apply meets_bind.mpr
        apply meets_get.mpr
        apply meets_bind.mpr
        apply meets_assertTrue.mpr
        split
        · next single =>
          apply meets_bind.mpr
          apply meets_checked.mpr
          split
          · exact meets_modify.mpr ⟨made, output, of_decide_eq_true single, rfl⟩
          · trivial
        · trivial
      · trivial
    · trivial

theorem SweepOutput.outputTotal {proposal : Proposal} {made : Builder ω} (output : SweepOutput proposal made) :
    (withSwept node made).outputTotal = ((withSwept node made).outputs.map TransactionOutput.calculateSize).sum := by
  show made.outputTotal = ((made.outputs.map _).map TransactionOutput.calculateSize).sum
  rw [output.totals.outputTotal, output.change, List.append_nil, List.map_map]
  rfl

theorem SweepOutput.priced {proposal : Proposal} (positive : Positive proposal) {made : Builder ω} (output : SweepOutput proposal made)
    (single : made.outputs.length = 1) : Priced node (withSwept node made) where
  outputTotal := output.outputTotal
  outputCount := by
    show made.outputCount = (made.outputs.map _).length
    rw [output.outputCount, List.length_map]
  inputTotal := output.totals.inputTotal
  inputCount := output.totals.inputCount
  made := by
    intro input member
    obtain ⟨utxo, from_utxo, _⟩ := output.totals.inputs input member
    exact ⟨utxo, from_utxo⟩
  unsigned := output.totals.segwit
  pays := by
    obtain ⟨only, is⟩ := List.length_eq_one_iff.mp single
    show feeFor node (estimate made) ≤ (made.inputs.map Prod.snd).sum -
      ((made.outputs.map (TransactionOutput.setValue (excess node made))).map TransactionOutput.value).sum
    rw [is, ← output.totals.inputValue]
    show feeFor node (estimate made) ≤ made.inputValue - ((made.inputValue - (made.outputValue + feeFor node (estimate made))) + 0)
    have nonneg := output.nonneg positive
    linarith

/-- What is signed: outputs that balance the inputs, or the single output of a sweep. -/
theorem prepare_meets {proposal : Proposal} (fresh : Fresh start) :
    Meets (prepare node proposal) (fun _ final => (∃ paid returned fee units, Balanced node paid returned fee units final) ∨
      ∃ made, SweepOutput proposal made ∧ made.outputs.length = 1 ∧ final = withSwept node made) (fun _ _ => True) start := by
  unfold prepare
  split
  · apply (prepareNormal_meets fresh).mono _ fun _ _ _ => trivial
    rintro _ final ⟨paid, returned, fee, units, _, balanced⟩
    exact .inl ⟨paid, returned, fee, units, balanced⟩
  · apply meets_bind.mpr
    apply (addSweepInputs_meets fresh).mono _ fun _ _ _ => trivial
    intro _ collected fresh
    split
    · rename_i notifies
      unfold sweepToNotifications
      apply meets_bind.mpr
      apply meets_assertTrue.mpr
      split
      · apply meets_bind.mpr
        apply (createNotifications_meets proposal [] 0 fresh.nothing fresh.change).mono _ fun _ _ _ => trivial
        intro notified next was
        apply meets_bind.mpr
        apply meets_require.mpr
        cases notified with
        | false => trivial
        | true =>
          obtain ⟨noted, count⟩ := was rfl
          have nonempty : next.change ≠ [] := nonempty_of_notifies count notifies
          apply meets_bind.mpr
          apply meets_look.mpr
          split
          · apply meets_bind.mpr
            apply meets_require.mpr
            split
            · apply (finalizeOutputs_meets (noted.ready nonempty)).mono _ fun _ _ _ => trivial
              rintro _ final ⟨returned, fee, units, balanced⟩
              exact .inl ⟨[], returned, fee, units, balanced⟩
            · trivial
          · trivial
      · trivial
    · exact (sweepToOutput_meets fresh).mono (fun _ _ => .inr) fun _ _ => id

theorem prepare_priced {proposal : Proposal} (positive : Positive proposal) (fresh : Fresh start) :
    Meets (prepare node proposal) (fun _ final => Priced node final) (fun _ _ => True) start := by
  apply (prepare_meets fresh).mono _ fun _ _ => id
  rintro _ final (⟨paid, returned, fee, units, balanced⟩ | ⟨made, output, single, rfl⟩)
  · exact balanced.priced
  · exact output.priced positive single

/-- The bytes of the outputs that were counted are those of the outputs, whatever is paid. -/
theorem prepare_outputTotal {proposal : Proposal} (fresh : Fresh start) :
    Meets (prepare node proposal) (fun _ final => final.outputTotal = (final.outputs.map TransactionOutput.calculateSize).sum)
      (fun _ _ => True) start := by
  apply (prepare_meets fresh).mono _ fun _ _ => id
  rintro _ final (⟨paid, returned, fee, units, balanced⟩ | ⟨made, output, single, rfl⟩)
  · exact balanced.outputTotal
  · exact output.outputTotal

/-! ## The rate -/

theorem size_pred (count : Nat) : CompactSize.size count ≤ CompactSize.size (count - 1) + 4 := by
  rw [CompactSize.size_eq, CompactSize.size_eq]
  split_ifs <;> omega

/-- Without the witnesses, a transaction has fewer bytes than were estimated: another output was counted. -/
theorem strippedSize_le {final signed : Builder ω} (priced : Priced node final) (inputs : List.Forall₂ Signed final.inputs signed.inputs)
    (outputs : signed.outputs = final.outputs) : (transaction signed).strippedSize + 30 ≤ estimate final := by
  have counts := size_pred final.inputs.length
  have more : CompactSize.size final.outputs.length ≤ CompactSize.size (final.outputs.length + 1) :=
    CompactSize.size_mono (Nat.le_succ _)
  have bytes : (signed.inputs.map fun input => input.1.baseBytes).sum ≤ (final.inputs.map fun input => input.1.baseBytes).sum := by
    apply List.Forall₂.sum_le_sum
    rw [List.forall₂_map_left_iff, List.forall₂_map_right_iff]
    exact inputs.flip.imp fun _ _ is => is.1.baseBytes
  have stripped : (transaction signed).strippedSize = 4 + (CompactSize.size final.inputs.length +
      (signed.inputs.map fun input => input.1.baseBytes).sum) + (CompactSize.size final.outputs.length +
      (final.outputs.map TransactionOutput.calculateSize).sum) + 4 := by
    show 4 + (CompactSize.size (signed.inputs.map Prod.fst).length + ((signed.inputs.map Prod.fst).map TransactionInput.baseBytes).sum) +
      (CompactSize.size signed.outputs.length + (signed.outputs.map TransactionOutput.calculateSize).sum) + 4 = _
    rw [List.length_map, ← inputs.length_eq, List.map_map, outputs]
    rfl
  rw [stripped]
  unfold estimate fixedOverhead p2pkhOutputBytes
  rw [priced.inputCount, priced.outputCount, priced.inputTotal, priced.outputTotal]
  omega

def virtualSize (node : Node ω) (signed : Builder ω) : Nat := (transaction signed).virtualSize node.segwitScaleFactor

/-- What the inputs have more than the outputs is the fee rate for each thousand of virtual bytes at least. -/
def MeetsRate (node : Node ω) (signed : Builder ω) : Prop := feeFor node (virtualSize node signed) ≤ surplus signed

instance (signed : Builder ω) : Decidable (MeetsRate node signed) := inferInstanceAs (Decidable (_ ≤ _))

/-- The bytes that the witnesses come to fit those that were counted for one more output. -/
def WitnessesFit (node : Node ω) (final signed : Builder ω) : Prop := virtualSize node signed ≤ estimate final

/-- What was neither sent nor worked out as the fee: a fraction of a unit that change could not take, or change that was
too small. -/
def leftover (node : Node ω) (final : Builder ω) : Amount := surplus final - feeFor node (estimate final)

/-- What is left over pays for the bytes that were not counted. -/
def LeftoverPays (node : Node ω) (final signed : Builder ω) : Prop :=
  feeFor node (virtualSize node signed) - feeFor node (estimate final) ≤ leftover node final

theorem surplus_signed {final signed : Builder ω} (inputs : List.Forall₂ Signed final.inputs signed.inputs)
    (outputs : signed.outputs = final.outputs) : surplus signed = surplus final := by
  have values : signed.inputs.map Prod.snd = final.inputs.map Prod.snd := by
    rw [← List.forall₂_eq_eq_eq, List.forall₂_map_left_iff, List.forall₂_map_right_iff]
    exact inputs.flip.imp fun _ _ is => is.2
  unfold surplus
  rw [values, outputs]

/-! ## Witnesses that are not paid for -/

theorem listNode_signsWithin (feeRate : Amount) : SignsWithin (listNode feeRate) := by
  rintro input outputs signatures _ ⟨⟩
  exact ⟨_, _, rfl, by decide, by decide⟩

theorem positive_payTo {amount : Nat} (positive : 0 < ofUnsigned amount) : Positive { addressRecipients := [payTo amount] } := by
  constructor
  · intro recipient member
    rw [List.mem_singleton.mp member]
    exact positive
  · exact fun _ member => absurd member List.not_mem_nil

end Builder

end Opentxs.Spend
