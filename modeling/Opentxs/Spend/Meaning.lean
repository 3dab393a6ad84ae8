import Opentxs.Spend.Stored
import Opentxs.Spend.Sweep

/-! A stored proposal still means what the user asked for: it is read back as it was, and a sweep
that is built from it spends what was selected and pays where it was to go. -/

namespace Opentxs.Spend.Builder
open Library Library.Endian Bitcoin BitcoinScript Blockchain Amount
open Program (Meets meets_bind meets_pure meets_get meets_modify meets_require meets_onlyIf)
open Wallet.Types (Key Outpoint)

variable {ω : Type} {node : Node ω} {start : Builder ω} {stops : Stop → Prop}

/-! ## Where the inputs of a sweep come from -/

/-- The output that is reserved is the one that was named. -/
def ReservesNamed (node : Node ω) : Prop :=
  ∀ outpoint world utxo next, node.reserveOutpoint outpoint world = (some utxo, next) → utxo.outpoint = outpoint

/-- The output is one of the source that the proposal sweeps. -/
def Selected (node : Node ω) (proposal : Proposal) (world : ω) (outpoint : Outpoint) : Prop :=
  ∃ source, sweepSource proposal = .ok source ∧
    (outpoint ∈ node.getOutputs source .confirmedNew world ∨ outpoint ∈ node.getOutputs source .unconfirmedNew world)

theorem previousOutput_eq {utxo : UTXO} {input : TransactionInput} (made : bitcoinTransactionInput utxo = some input) :
    input.previousOutput = utxo.outpoint := by
  unfold bitcoinTransactionInput at made
  split at made
  · cases made
  · cases held : placeholders utxo.pattern utxo.keys with
    | none =>
      rw [held] at made
      cases made
    | some pair =>
      obtain ⟨elements, witness⟩ := pair
      rw [held] at made
      cases valid : scriptOf elements .input with
      | none =>
        simp only [valid, Option.bind_eq_bind, Option.bind_some, Option.bind_none, reduceCtorEq] at made
      | some script =>
        simp only [valid, Option.bind_eq_bind, Option.bind_some, Option.some.injEq] at made
        subst made
        rfl

/-- All inputs spend outputs of a kind. -/
def InputsFrom (kind : Outpoint → Prop) (state : Builder ω) : Prop := ∀ input ∈ state.inputs, kind input.1.previousOutput

theorem InputsFrom.withInput {kind : Outpoint → Prop} {state : Builder ω} (from_kind : InputsFrom kind state) {utxo : UTXO}
    {input : TransactionInput} (made : bitcoinTransactionInput utxo = some input) (is : kind utxo.outpoint) :
    InputsFrom kind (state.withInput input utxo.value) := by
  intro other member
  rcases List.mem_append.mp member with before | added
  · exact from_kind other before
  · rw [List.mem_singleton.mp added]
    show kind input.previousOutput
    rw [previousOutput_eq made]
    exact is

theorem addingInput_from {kind : Outpoint → Prop} (from_kind : InputsFrom kind start) {utxo : UTXO} (is : kind utxo.outpoint)
    (stop : Stop) : Meets (do
      let added ← addInput utxo
      Program.require added stop) (fun _ next => InputsFrom kind next ∧ next.world = start.world) (fun _ _ => True) start := by
  apply meets_bind.mpr
  apply (addInput_meets utxo).mpr
  cases made : bitcoinTransactionInput utxo with
  | none => trivial
  | some input =>
    dsimp only
    split
    · exact ⟨from_kind.withInput made is, rfl⟩
    · trivial

theorem addExistingInputs_from {kind : Outpoint → Prop} {proposal : Proposal} {world : ω} {started : Builder ω}
    (reserved : ∀ utxo ∈ node.getReserved world, kind utxo.outpoint)
    (ran : caught (addExistingInputs node) (new proposal world) = (.ok true, started)) :
    InputsFrom kind started ∧ started.world = world := by
  let invariant (utxos : List UTXO) (state : Builder ω) : Prop :=
    (∀ utxo ∈ utxos, kind utxo.outpoint) ∧ InputsFrom kind state ∧ state.world = world
  have each : ∀ utxo utxos state, invariant (utxo :: utxos) state →
      Meets (addExistingInput utxo) (fun _ => invariant utxos) (fun _ _ => True) state := by
    intro utxo utxos state holds
    apply (addingInput_from holds.2.1 (holds.1 utxo List.mem_cons_self) _).mono _ fun _ _ => id
    intro _ next kept
    exact ⟨fun other member => holds.1 other (List.mem_cons_of_mem utxo member), kept.1, kept.2.trans holds.2.2⟩
  have begins : invariant (node.getReserved world) (new proposal world) :=
    ⟨reserved, fun _ member => absurd member List.not_mem_nil, rfl⟩
  have inside : Meets (addExistingInputs node) (fun _ next => InputsFrom kind next ∧ next.world = world) (fun _ _ => True)
      (new proposal world) := by
    apply meets_bind.mpr
    apply meets_look_ok.mpr
    exact (Meets.forEach each (node.getReserved world) _ begins).mono (fun _ _ kept => kept.2) fun _ _ => id
  have meets : Meets (caught (addExistingInputs node)) (fun done next => done = true → InputsFrom kind next ∧ next.world = world)
      (fun _ _ => True) (new proposal world) := by
    apply meets_caught.mpr
    apply inside.mono fun _ _ kept _ => kept
    intro stop next _
    split
    · exact fun wrong => absurd wrong Bool.false_ne_true
    · trivial
  exact meets.of_ok ran rfl

theorem addSweepInput_from {kind : Outpoint → Prop} (named : ReservesNamed node) (from_kind : InputsFrom kind start)
    {outpoint : Outpoint} (is : kind outpoint) :
    Meets (addSweepInput node outpoint) (fun _ next => InputsFrom kind next) (fun _ _ => True) start := by
  apply meets_bind.mpr
  apply meets_ask.mpr
  cases answered : node.reserveOutpoint outpoint start.world with
  | mk answer world =>
    cases answer with
    | none => exact from_kind
    | some utxo =>
      have moved : InputsFrom kind { start with world } := from_kind
      have same : kind utxo.outpoint := by
        rw [named outpoint start.world utxo world answered]
        exact is
      exact (addingInput_from moved same _).mono (fun _ _ => And.left) fun _ _ => id

theorem addSweepInputs_from {kind : Outpoint → Prop} {proposal : Proposal} (named : ReservesNamed node)
    (from_kind : InputsFrom kind start)
    (candidates : ∀ source, sweepSource proposal = .ok source → ∀ outpoint ∈ sweepCandidates node proposal source start, kind outpoint) :
    Meets (addSweepInputs node proposal) (fun _ next => InputsFrom kind next) (fun _ _ => True) start := by
  let invariant (outpoints : List Outpoint) (state : Builder ω) : Prop := (∀ outpoint ∈ outpoints, kind outpoint) ∧ InputsFrom kind state
  have each : ∀ outpoint outpoints state, invariant (outpoint :: outpoints) state →
      Meets (addSweepInput node outpoint) (fun _ => invariant outpoints) (fun _ _ => True) state := by
    intro outpoint outpoints state holds
    apply (addSweepInput_from named holds.2 (holds.1 outpoint List.mem_cons_self)).mono _ fun _ _ => id
    exact fun _ next kept => ⟨fun other member => holds.1 other (List.mem_cons_of_mem outpoint member), kept⟩
  apply meets_bind.mpr
  apply meets_look.mpr
  cases is : sweepSource proposal with
  | error _ => trivial
  | ok source =>
    have begins : invariant (sweepCandidates node proposal source start) start := ⟨candidates source is, from_kind⟩
    apply meets_bind.mpr
    apply meets_look_ok.mpr
    apply meets_bind.mpr
    apply (Meets.forEach each (sweepCandidates node proposal source start) start begins).mono _ fun _ _ => id
    intro _ next kept
    apply meets_bind.mpr
    apply meets_get.mpr
    apply meets_require.mpr
    split
    · exact kept.2
    · trivial

theorem sweepCandidates_selected {proposal : Proposal} {source : Source} (is : sweepSource proposal = .ok source)
    {outpoint : Outpoint} (member : outpoint ∈ sweepCandidates node proposal source start) :
    Selected node proposal start.world outpoint := by
  unfold sweepCandidates at member
  dsimp only at member
  split at member
  · exact ⟨source, is, Or.inl member⟩
  · split at member
    · exact ⟨source, is, Or.inr member⟩
    · exact ⟨source, is, Or.inl member⟩

/-- A sweep spends outputs of its source only. -/
theorem prepareSweep_selected {proposal : Proposal} {world : ω} {started final : Builder ω} (named : ReservesNamed node)
    (reserved : ∀ utxo ∈ node.getReserved world, Selected node proposal world utxo.outpoint)
    (existing : caught (addExistingInputs node) (new proposal world) = (.ok true, started))
    (ran : prepareSweep node proposal started = (.ok (), final)) : InputsFrom (Selected node proposal world) final := by
  obtain ⟨from_source, same⟩ := addExistingInputs_from reserved existing
  obtain ⟨_, collected, added, rest⟩ := Program.bind_ok ran
  have gathered : InputsFrom (Selected node proposal world) collected := by
    apply (addSweepInputs_from named from_source fun source is outpoint member => ?_).of_ok added
    rw [← same]
    exact sweepCandidates_selected is member
  have quiet : Quiet False (if hasNotification proposal then sweepToNotifications node proposal else sweepToOutput node proposal) := by
    split
    · exact sweepToNotifications_quiet
    · exact sweepToOutput_quiet
  have kept := (quiet collected).1 not_false
  rw [rest] at kept
  exact fun input member => gathered input (kept.mem_iff.mp member)

/-! ## What was asked for -/

/-- All that is swept goes to the destination, except the fee. -/
def SweepsTo (node : Node ω) (destination : Bytes × AddressStyle) (final : Builder ω) : Prop :=
  ∃ output fee, final.outputs = [output] ∧
    (makeScript destination.2 destination.1).bind (scriptOf · .output) = some output.script ∧
    requiredFee node final = .ok fee ∧ output.value = (final.inputs.map Prod.snd).sum - fee

/-- A sweep built from what was read spends what was selected, and pays where it was to go. What the proposal has reserved
before is of its source. -/
def SweepsAsAsked (asked read : Proposal) : Prop :=
  ∀ (ω : Type) (node : Node ω) (world : ω) (started final : Builder ω), ReservesNamed node →
    (∀ utxo ∈ node.getReserved world, Selected node asked world utxo.outpoint) →
    caught (addExistingInputs node) (new read world) = (.ok true, started) →
    prepareSweep node read started = (.ok (), final) →
    InputsFrom (Selected node asked world) final ∧
      ∀ destination, asked.sweepToAddress = some destination → SweepsTo node destination final

def MeansWhatWasAsked (api : Api) (proposal : Proposal) : Prop :=
  ∃ message read, proposal.serialize api = some message ∧ Proposal.deserialize api message = some read ∧ read = proposal ∧
    SweepsAsAsked proposal read

theorem storable_of_means {api : Api} {proposal : Proposal} (asked : Asked api proposal) (means : MeansWhatWasAsked api proposal) :
    Proposal.Storable api proposal := by
  obtain ⟨message, _, written, read, rfl, _⟩ := means
  exact (Proposal.stored_iff asked).mp ⟨message, written, read⟩

/-- A proposal keeps its meaning exactly where it can be stored without loss. -/
theorem meaning_kept_iff {api : Api} {setters : List Setter} {proposal : Proposal}
    (ran : Setter.run api setters = some proposal) : MeansWhatWasAsked api proposal ↔ Proposal.Storable api proposal := by
  constructor
  · exact storable_of_means (asked_of_run ran)
  · intro storable
    obtain ⟨message, written, read⟩ := (Proposal.stored_iff (asked_of_run ran)).mpr storable
    refine ⟨message, proposal, written, read, rfl, ?_⟩
    intro ω node world started final named reserved existing prepared
    refine ⟨prepareSweep_selected named reserved existing prepared, fun destination some => ?_⟩
    rw [storable.destination] at some
    cases some

/-! ## What is lost -/

/-- A session that knows an address of each kind. -/
def knownAddresses : Api where
  chain := 1
  spender := 7
  spendUnconfirmed := false
  decodeAddress := fun address =>
    if address = "witness script" then { data := List.replicate 32 3, style := .p2wsh, chains := [1], supported := true }
    else if address = "account" then { data := List.replicate 20 4, style := .ethereumAccount, chains := [1], supported := true }
    else { data := List.replicate 20 5, style := .p2pkh, chains := [1], supported := true }
  p2pkh := fun data => if data.length = 20 then "legacy" else ""
  p2sh := fun data => if data.length = 20 then "script" else ""
  p2wpkh := fun data => if data.length = 20 then "witness" else ""
  ethereum := fun data => if data.length = 20 then "0x" else ""
  publicPaymentCode := 8
  senderPaymentCode := 8
  path := 0
  isValid := fun _ => true
  version := fun _ => 3
  loadOrCreateSubaccount := fun recipient => some recipient
  remote := fun account => some account
  remote_account := fun _ _ opened => opened.symm
  owner := fun _ => 7
  subaccountList := []
  rereadChain := id

/-- The destination of a sweep is not written. A payment to a witness script cannot be read back, and a payment to an account
is read back as one to a key. -/
theorem meaning_lost :
    (∃ proposal, Setter.run knownAddresses [.setSweepFromAccount true, .setSweepToAddress "legacy"] = some proposal ∧
      proposal.check ⟨true, true⟩ = none ∧ ¬ MeansWhatWasAsked knownAddresses proposal) ∧
    (∃ proposal, Setter.run knownAddresses [.sendToAddress "witness script" (ofUnsigned 5)] = some proposal ∧
      proposal.check ⟨true, true⟩ = none ∧ ¬ MeansWhatWasAsked knownAddresses proposal) ∧
    (∃ proposal, Setter.run knownAddresses [.sendToAddress "account" (ofUnsigned 5)] = some proposal ∧
      proposal.check ⟨true, true⟩ = none ∧ ¬ MeansWhatWasAsked knownAddresses proposal) := by
  refine ⟨?_, ?_, ?_⟩
  · have ran : Setter.run knownAddresses [.setSweepFromAccount true, .setSweepToAddress "legacy"] = some _ := rfl
    refine ⟨_, ran, rfl, fun means => ?_⟩
    cases (storable_of_means (asked_of_run ran) means).destination
  · have ran : Setter.run knownAddresses [.sendToAddress "witness script" (ofUnsigned 5)] = some _ := rfl
    refine ⟨_, ran, rfl, fun means => ?_⟩
    exact absurd rfl ((storable_of_means (asked_of_run ran) means).addresses _ List.mem_cons_self).2
  · have ran : Setter.run knownAddresses [.sendToAddress "account" (ofUnsigned 5)] = some _ := rfl
    refine ⟨_, ran, rfl, fun means => ?_⟩
    exact absurd rfl ((storable_of_means (asked_of_run ran) means).addresses _ List.mem_cons_self).1

theorem meaning_kept_payment : ∃ proposal,
    Setter.run knownAddresses [.sendToAddress "legacy" (ofUnsigned 5), .setSweepFromAccount true] = some proposal ∧
    (MeansWhatWasAsked knownAddresses proposal ↔ Proposal.Storable knownAddresses proposal) := by
  have ran : Setter.run knownAddresses [.sendToAddress "legacy" (ofUnsigned 5), .setSweepFromAccount true] = some _ := rfl
  exact ⟨_, ran, meaning_kept_iff ran⟩

end Opentxs.Spend.Builder
