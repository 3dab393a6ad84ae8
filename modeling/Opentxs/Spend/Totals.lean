import Mathlib.Algebra.BigOperators.Group.List.Basic
import Mathlib.Tactic.Ring
import Opentxs.Spend.Building

/-! What each step of the builder leaves behind, written out once, and the totals that it
keeps by hand: they are those of the inputs and outputs. -/

namespace Opentxs.Spend.Builder
open Library Library.Endian Bitcoin BitcoinScript Blockchain Amount
open Program (Meets meets_bind meets_pure meets_throw meets_get meets_modify meets_require meets_onlyIf meets_catching)
open Wallet.Types (Key)

variable {ω : Type} {start : Builder ω} {stops : Stop → Prop}

theorem meets_look {α : Type} {view : Builder ω → Except Stop α} {returns : α → Builder ω → Prop} :
    Meets (look view) returns (fun stop _ => stops stop) start ↔
      match view start with
      | .ok value => returns value start
      | .error stop => stops stop := by
  unfold Meets look
  cases view start <;> rfl

theorem meets_look_ok {α : Type} {view : Builder ω → α} {returns : α → Builder ω → Prop} :
    Meets (look fun state => .ok (view state)) returns (fun stop _ => stops stop) start ↔ returns (view start) start :=
  Iff.rfl

theorem meets_checked {fault : Stop} {amount : Builder ω → Amount} {returns : Amount → Builder ω → Prop} :
    Meets (look fun state => checked fault (amount state)) returns (fun stop _ => stops stop) start ↔
      if fits (amount start) then returns (amount start) start else stops fault := by
  rw [meets_look]
  unfold checked
  cases fits (amount start) <;> rfl

theorem meets_ask {α : Type} {question : ω → α × ω} {returns : α → Builder ω → Prop} :
    Meets (ask question) returns (fun stop _ => stops stop) start ↔
      returns (question start.world).1 { start with world := (question start.world).2 } := Iff.rfl

theorem meets_tell {change : ω → ω} {returns : Unit → Builder ω → Prop} :
    Meets (tell change) returns (fun stop _ => stops stop) start ↔ returns () { start with world := change start.world } :=
  Iff.rfl

theorem meets_assertTrue {condition : Bool} {returns : Unit → Builder ω → Prop} :
    Meets (assertTrue condition) returns (fun stop _ => stops stop) start ↔
      if condition then returns () start else stops .terminate := meets_require

theorem meets_caught {program : Building ω Unit} {returns : Bool → Builder ω → Prop} :
    Meets (caught program) returns (fun stop _ => stops stop) start ↔
      Meets program (fun _ next => returns true next)
        (fun stop next => if stop = .exception then returns false next else stops stop) start := by
  unfold caught
  rw [meets_catching, meets_bind]
  have handled : ∀ (stop : Stop) (next : Builder ω),
      Meets (if stop = .exception then pure false else Program.throw stop) returns (fun stop _ => stops stop) next ↔
        if stop = .exception then returns false next else stops stop := by
    intro stop next
    split <;> rfl
  exact Meets.congr (fun _ _ => Iff.rfl) handled

theorem meets_noexcept {α : Type} {program : Building ω α} {returns : α → Builder ω → Prop} :
    Meets (noexcept program) returns (fun stop _ => stops stop) start ↔
      Meets program returns (fun stop _ => stops (if stop = .exception then .terminate else stop)) start := by
  unfold noexcept
  rw [meets_catching]
  rfl

/-! ## What the steps do -/

def withInput (input : TransactionInput) (value : Amount) (state : Builder ω) : Builder ω := { state with
  inputCount := state.inputs.length
  inputTotal := state.inputTotal + input.baseBytes
  witnessTotal := state.witnessTotal + input.witnessBytes
  inputValue := state.inputValue + value
  inputs := state.inputs ++ [(input, value)] }

def withOutput (output : TransactionOutput) (state : Builder ω) : Builder ω := { state with
  outputs := state.outputs ++ [output]
  outputValue := state.outputValue + output.value
  outputTotal := state.outputTotal + output.calculateSize }

def counted (state : Builder ω) : Builder ω :=
  { state with outputCount := state.outputs.length + state.change.length }

def withChange (output : TransactionOutput) (state : Builder ω) : Builder ω := counted { state with
  outputValue := state.outputValue + output.value
  outputTotal := state.outputTotal + output.calculateSize
  change := state.change ++ [output] }

theorem addInput_meets (utxo : UTXO) {returns : Bool → Builder ω → Prop} :
    Meets (addInput utxo) returns (fun stop _ => stops stop) start ↔
      match bitcoinTransactionInput utxo with
      | none => returns false start
      | some input =>
        if fits (start.inputValue + utxo.value) then returns true (start.withInput input utxo.value)
        else stops .terminate := by
  unfold addInput
  rw [meets_noexcept]
  cases bitcoinTransactionInput utxo with
  | none => rfl
  | some input =>
    dsimp only
    rw [meets_bind, meets_modify, meets_bind, @meets_checked _ _ fun stop => stops (if stop = .exception then .terminate else stop)]
    rfl

theorem addOutput_meets (value : Amount) (elements : List ScriptElement) (index : Nat) {returns : Unit → Builder ω → Prop} :
    Meets (addOutput value elements index) returns (fun stop _ => stops stop) start ↔
      match scriptOf elements .output with
      | none => stops .exception
      | some script =>
        if fits (start.outputValue + value) then returns () (start.withOutput { index, value, script })
        else stops .exception := by
  unfold addOutput
  cases scriptOf elements .output with
  | none => rfl
  | some script =>
    dsimp only
    rw [meets_bind, meets_modify, meets_bind, meets_checked]
    rfl

theorem addChangeOutput_meets (output : TransactionOutput) {returns : Unit → Builder ω → Prop} :
    Meets (addChangeOutput output) returns (fun stop _ => stops stop) start ↔
      if fits (start.outputValue + output.value) then returns () (start.withChange (output.addTag .change))
      else stops .exception := by
  unfold addChangeOutput
  rw [meets_bind, meets_checked]
  rfl

/-! ## The totals -/

/-- The totals that are kept by hand are the ones of the inputs and outputs. The count of the inputs is
one behind. -/
structure Totals (state : Builder ω) : Prop where
  outputValue : state.outputValue = ((state.outputs ++ state.change).map TransactionOutput.value).sum
  outputTotal : state.outputTotal = ((state.outputs ++ state.change).map TransactionOutput.calculateSize).sum
  inputValue : state.inputValue = (state.inputs.map Prod.snd).sum
  inputTotal : state.inputTotal = (state.inputs.map fun input => input.1.baseBytes).sum
  witnessTotal : state.witnessTotal = (state.inputs.map fun input => input.1.witnessBytes).sum
  inputCount : state.inputCount = state.inputs.length - 1
  inputs : ∀ input ∈ state.inputs, ∃ utxo, bitcoinTransactionInput utxo = some input.1 ∧ input.2 = utxo.value
  segwit : state.segwit = false

def Counted (state : Builder ω) : Prop := state.outputCount = state.outputs.length + state.change.length

theorem totals_new (proposal : Proposal) (world : ω) : Totals (new proposal world) where
  outputValue := rfl
  outputTotal := rfl
  inputValue := rfl
  inputTotal := rfl
  witnessTotal := rfl
  inputCount := rfl
  inputs := fun _ member => absurd member List.not_mem_nil
  segwit := rfl

theorem Totals.withInput {state : Builder ω} (totals : Totals state) {utxo : UTXO} {input : TransactionInput}
    (made : bitcoinTransactionInput utxo = some input) : Totals (state.withInput input utxo.value) where
  outputValue := totals.outputValue
  outputTotal := totals.outputTotal
  inputValue := by
    show state.inputValue + utxo.value = ((state.inputs ++ [(input, utxo.value)]).map Prod.snd).sum
    rw [totals.inputValue, List.map_append, List.sum_append]
    simp
  inputTotal := by
    show state.inputTotal + input.baseBytes = ((state.inputs ++ [(input, utxo.value)]).map fun input => input.1.baseBytes).sum
    rw [totals.inputTotal, List.map_append, List.sum_append]
    simp
  witnessTotal := by
    show state.witnessTotal + input.witnessBytes = ((state.inputs ++ [(input, utxo.value)]).map fun input => input.1.witnessBytes).sum
    rw [totals.witnessTotal, List.map_append, List.sum_append]
    simp
  inputCount := by
    show state.inputs.length = (state.inputs ++ [(input, utxo.value)]).length - 1
    simp
  inputs := by
    intro other member
    rcases List.mem_append.mp member with before | added
    · exact totals.inputs other before
    · rw [List.mem_singleton.mp added]
      exact ⟨utxo, made, rfl⟩
  segwit := totals.segwit

theorem Totals.withOutput {state : Builder ω} (totals : Totals state) (output : TransactionOutput) :
    Totals (state.withOutput output) where
  outputValue := by
    show state.outputValue + output.value = (((state.outputs ++ [output]) ++ state.change).map TransactionOutput.value).sum
    rw [totals.outputValue]
    simp only [List.map_append, List.sum_append, List.map_cons, List.map_nil, List.sum_cons, List.sum_nil]
    ring
  outputTotal := by
    show state.outputTotal + output.calculateSize =
      (((state.outputs ++ [output]) ++ state.change).map TransactionOutput.calculateSize).sum
    rw [totals.outputTotal]
    simp only [List.map_append, List.sum_append, List.map_cons, List.map_nil, List.sum_cons, List.sum_nil]
    ring
  inputValue := totals.inputValue
  inputTotal := totals.inputTotal
  witnessTotal := totals.witnessTotal
  inputCount := totals.inputCount
  inputs := totals.inputs
  segwit := totals.segwit

theorem Totals.withChange {state : Builder ω} (totals : Totals state) (output : TransactionOutput) :
    Totals (state.withChange output) where
  outputValue := by
    show state.outputValue + output.value = ((state.outputs ++ (state.change ++ [output])).map TransactionOutput.value).sum
    rw [totals.outputValue]
    simp only [List.map_append, List.sum_append, List.map_cons, List.map_nil, List.sum_cons, List.sum_nil]
    ring
  outputTotal := by
    show state.outputTotal + output.calculateSize =
      ((state.outputs ++ (state.change ++ [output])).map TransactionOutput.calculateSize).sum
    rw [totals.outputTotal]
    simp only [List.map_append, List.sum_append, List.map_cons, List.map_nil, List.sum_cons, List.sum_nil]
    ring
  inputValue := totals.inputValue
  inputTotal := totals.inputTotal
  witnessTotal := totals.witnessTotal
  inputCount := totals.inputCount
  inputs := totals.inputs
  segwit := totals.segwit

/-! ## Requested outputs -/

def PaysAddress (recipient : AddressRecipient) (output : TransactionOutput) : Prop :=
  output.value = recipient.amount ∧ output.keys = [] ∧ output.tags = ∅ ∧
    (makeScript recipient.style recipient.bytes).bind (scriptOf · .output) = some output.script

def PaysCode (recipient : PaymentCodeRecipient) (output : TransactionOutput) : Prop :=
  output.value = recipient.amount ∧ output.keys = [] ∧ output.tags = ∅ ∧
    scriptOf (pubkeyScript recipient.pubkey) .output = some output.script

/-- There is one output for each recipient, and no other. -/
def Pays (proposal : Proposal) (paid : List TransactionOutput) : Prop :=
  ∃ addresses codes, paid = addresses ++ codes ∧ List.Forall₂ PaysAddress proposal.addressRecipients addresses ∧
    List.Forall₂ PaysCode proposal.paymentCodeRecipients codes

def withOutputs (outputs : List TransactionOutput) (state : Builder ω) : Builder ω :=
  outputs.foldl (fun state output => state.withOutput output) state

theorem withOutputs_eq (paid : List TransactionOutput) : ∀ state : Builder ω, state.withOutputs paid = { state with
    outputs := state.outputs ++ paid
    outputValue := state.outputValue + (paid.map TransactionOutput.value).sum
    outputTotal := state.outputTotal + (paid.map TransactionOutput.calculateSize).sum } := by
  induction paid with
  | nil =>
    intro state
    simp [withOutputs]
  | cons output others ih =>
    intro state
    show withOutputs others (state.withOutput output) = _
    rw [ih]
    simp only [withOutput, List.append_assoc, List.singleton_append, List.map_cons, List.sum_cons, Int.add_assoc,
      Nat.add_assoc]

theorem Totals.withOutputs {state : Builder ω} (totals : Totals state) (paid : List TransactionOutput) :
    Totals (state.withOutputs paid) := by
  induction paid generalizing state with
  | nil => exact totals
  | cons output others ih => exact ih (totals.withOutput output)

theorem addAddress_meets (recipient : AddressRecipient) (index : Nat) (start : Builder ω) :
    Meets (addAddress recipient index)
      (fun _ next => ∃ output, PaysAddress recipient output ∧ next = start.withOutput output ∧ fits next.outputValue = true)
      (fun stop _ => stop = .exception) start := by
  unfold addAddress
  cases made : makeScript recipient.style recipient.bytes with
  | none => rfl
  | some elements =>
    apply (addOutput_meets recipient.amount elements index).mpr
    cases valid : scriptOf elements .output with
    | none => rfl
    | some script =>
      dsimp only
      split
      · rename_i fit
        exact ⟨_, ⟨rfl, rfl, rfl, by rw [made]; exact valid⟩, rfl, fit⟩
      · rfl

theorem addPaymentCode_meets (recipient : PaymentCodeRecipient) (index : Nat) (start : Builder ω) :
    Meets (addPaymentCode recipient index)
      (fun _ next => ∃ output, PaysCode recipient output ∧ next = start.withOutput output ∧ fits next.outputValue = true)
      (fun stop _ => stop = .exception) start := by
  apply (addOutput_meets recipient.amount (pubkeyScript recipient.pubkey) index).mpr
  cases valid : scriptOf (pubkeyScript recipient.pubkey) .output with
  | none => rfl
  | some script =>
    dsimp only
    split
    · rename_i fit
      exact ⟨_, ⟨rfl, rfl, rfl, valid⟩, rfl, fit⟩
    · rfl

theorem addingOutputs_meets {ρ : Type} {step : ρ × Nat → Building ω Unit} {pays : ρ → TransactionOutput → Prop}
    (each : ∀ recipient index start, Meets (step (recipient, index))
      (fun _ next => ∃ output, pays recipient output ∧ next = start.withOutput output ∧ fits next.outputValue = true)
      (fun stop _ => stop = .exception) start) (recipients : List ρ) :
    ∀ index start, Meets (Program.forEach step (recipients.zipIdx index))
      (fun _ next => ∃ paid, List.Forall₂ pays recipients paid ∧ next = start.withOutputs paid ∧
        (fits start.outputValue = true → fits next.outputValue = true))
      (fun stop _ => stop = .exception) start := by
  induction recipients with
  | nil => exact fun index start => ⟨[], .nil, rfl, id⟩
  | cons recipient recipients ih =>
    intro index start
    apply meets_bind.mpr
    apply (each recipient index start).mono _ fun _ _ stop => stop
    rintro _ next ⟨output, pays, rfl, fit⟩
    apply (ih (index + 1) _).mono _ fun _ _ stop => stop
    rintro _ last ⟨paid, rest, rfl, kept⟩
    exact ⟨output :: paid, .cons pays rest, rfl, fun _ => kept fit⟩

theorem createOutputs_meets (proposal : Proposal) :
    Meets (createOutputs proposal)
      (fun created next => created = true → ∃ paid, Pays proposal paid ∧ next = counted (start.withOutputs paid) ∧
        (fits start.outputValue = true → fits next.outputValue = true))
      (fun _ _ => False) start := by
  apply meets_caught.mpr
  apply meets_bind.mpr
  apply (addingOutputs_meets addAddress_meets _ 0 start).mono _ fun stop _ is => by simp [is]
  rintro _ middle ⟨addresses, paysAddresses, rfl, first⟩
  apply meets_bind.mpr
  apply (addingOutputs_meets addPaymentCode_meets _ _ _).mono _ fun stop _ is => by simp [is]
  rintro _ last ⟨codes, paysCodes, rfl, second⟩
  intro _
  refine ⟨addresses ++ codes, ⟨addresses, codes, rfl, paysAddresses, paysCodes⟩, ?_, fun fit => second (first fit)⟩
  show counted (withOutputs codes (withOutputs addresses start)) = counted (withOutputs (addresses ++ codes) start)
  unfold withOutputs
  rw [List.foldl_append]

end Opentxs.Spend.Builder

