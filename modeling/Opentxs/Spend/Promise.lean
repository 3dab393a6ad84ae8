import Opentxs.Spend.Totals

/-! What the steps before the signatures leave alone: the promise, the keys of the recipients, and
all but where inputs are added, the inputs. -/

namespace Opentxs.Spend.Builder
open Library Library.Endian Bitcoin BitcoinScript Blockchain Amount
open Program (Relates)

variable {ω : Type} {node : Node ω} {proposal : Proposal} {adds : Prop}

/-- The promise and the keys of the recipients stay, and the inputs too if none is added, in whatever order. -/
def Unmoved (adds : Prop) (before after : Builder ω) : Prop :=
  (¬ adds → after.inputs.Perm before.inputs) ∧ after.promise = before.promise ∧ after.outgoingKeys = before.outgoingKeys

def Quiet {α : Type} (adds : Prop) (program : Building ω α) : Prop := Relates (Unmoved adds) program

variable {α β : Type}

theorem quiet_refl (state : Builder ω) : Unmoved adds state state := ⟨fun _ => .refl _, rfl, rfl⟩

theorem quiet_trans (first second third : Builder ω) (early : Unmoved adds first second) (late : Unmoved adds second third) :
    Unmoved adds first third :=
  ⟨fun none => (late.1 none).trans (early.1 none), late.2.1.trans early.2.1, late.2.2.trans early.2.2⟩

theorem quiet_same {before after : Builder ω} (inputs : after.inputs = before.inputs) (promise : after.promise = before.promise)
    (outgoingKeys : after.outgoingKeys = before.outgoingKeys) : Unmoved adds before after :=
  ⟨fun _ => inputs ▸ .refl _, promise, outgoingKeys⟩

theorem quiet_pure (value : α) : Quiet adds (Pure.pure value : Building ω α) := Relates.pure quiet_refl value

theorem quiet_throw (stop : Stop) : Quiet adds (Program.throw stop : Building ω α) := Relates.throw quiet_refl stop

theorem quiet_get : Quiet adds (Program.get : Building ω (Builder ω)) := Relates.get quiet_refl

theorem quiet_look (view : Builder ω → Except Stop α) : Quiet adds (Builder.look view) := quiet_refl

theorem quiet_ask (question : ω → α × ω) : Quiet adds (Builder.ask question) := fun _ => quiet_same rfl rfl rfl

theorem quiet_tell (change : ω → ω) : Quiet adds (Builder.tell change) := fun _ => quiet_same rfl rfl rfl

theorem quiet_require (condition : Bool) (stop : Stop) : Quiet adds (Program.require condition stop : Building ω Unit) :=
  Relates.require quiet_refl condition stop

theorem quiet_onlyIf {condition : Prop} [Decidable condition] {program : Building ω Unit} (inside : Quiet adds program) :
    Quiet adds (Program.onlyIf condition program) := Relates.onlyIf quiet_refl fun _ => inside

theorem quiet_bind {first : Building ω α} {rest : α → Building ω β} (before : Quiet adds first) (after : ∀ value, Quiet adds (rest value)) :
    Quiet adds (first >>= rest) := Relates.bind quiet_trans before after

theorem quiet_catching {program : Building ω α} {handler : Stop → Building ω α} (before : Quiet adds program)
    (after : ∀ stop, Quiet adds (handler stop)) : Quiet adds (Program.catching program handler) := Relates.catching quiet_trans before after

theorem quiet_forEach {step : β → Building ω Unit} (each : ∀ item, Quiet adds (step item)) (items : List β) :
    Quiet adds (Program.forEach step items) := Relates.forEach quiet_refl quiet_trans items fun item _ => each item

theorem quiet_caught {program : Building ω Unit} (inside : Quiet adds program) : Quiet adds (Builder.caught program) := by
  apply quiet_catching (quiet_bind inside fun _ => quiet_pure true)
  intro stop
  split
  · exact quiet_pure false
  · exact quiet_throw stop

theorem quiet_noexcept {program : Building ω α} (inside : Quiet adds program) : Quiet adds (Builder.noexcept program) :=
  quiet_catching inside fun _ => quiet_throw _

theorem addInput_quiet (utxo : UTXO) : Quiet True (addInput utxo : Building ω Bool) := by
  apply quiet_noexcept
  split
  · exact quiet_pure false
  · apply quiet_bind fun _ => quiet_same rfl rfl rfl
    intro _
    apply quiet_bind (quiet_look _)
    intro _
    exact quiet_bind (fun _ => ⟨fun none => absurd trivial none, rfl, rfl⟩) fun _ => quiet_pure true

theorem addExistingInputs_quiet : Quiet True (addExistingInputs node) := by
  apply quiet_bind (quiet_look _)
  intro existing
  exact quiet_forEach (fun utxo => quiet_bind (addInput_quiet utxo) fun _ => quiet_require _ _) existing

theorem addOutput_quiet (value : Amount) (elements : List ScriptElement) (index : Nat) :
    Quiet adds (addOutput value elements index : Building ω Unit) := by
  unfold addOutput
  split
  · exact quiet_throw _
  · apply quiet_bind fun _ => quiet_same rfl rfl rfl
    intro _
    exact quiet_bind (quiet_look _) fun _ _ => quiet_same rfl rfl rfl

theorem countOutputs_quiet : Quiet adds (countOutputs : Building ω Unit) := fun _ => quiet_same rfl rfl rfl

theorem createOutputs_quiet : Quiet adds (createOutputs proposal : Building ω Bool) := by
  apply quiet_caught
  apply quiet_bind
  · apply quiet_forEach
    intro item
    show Quiet adds (addAddress item.1 item.2)
    unfold addAddress
    split
    · exact quiet_throw _
    · exact addOutput_quiet _ _ _
  · intro _
    apply quiet_bind _ fun _ => countOutputs_quiet
    apply quiet_forEach
    exact fun item => addOutput_quiet _ _ _

theorem nextChangeElement_quiet : Quiet adds (nextChangeElement node) := by
  apply quiet_bind (quiet_ask _)
  intro answer
  cases answer with
  | none => exact quiet_throw _
  | some element => exact quiet_bind (fun _ => quiet_same rfl rfl rfl) fun _ => quiet_pure element

theorem makeChangeOutput_quiet (element : Element) (elements : Option (List ScriptElement)) (tag : Option Wallet.Types.TxoTag) :
    Quiet adds (makeChangeOutput element elements tag : Building ω Unit) := by
  unfold makeChangeOutput
  split
  · exact quiet_throw _
  · apply quiet_bind (quiet_look _)
    intro _
    apply quiet_bind (quiet_look _)
    intro _
    exact quiet_bind (fun _ => quiet_same rfl rfl rfl) fun _ => countOutputs_quiet

theorem createNotifications_quiet (value : Nat) : Quiet adds (createNotifications node proposal value) := by
  apply quiet_caught
  apply quiet_forEach
  intro recipient
  apply quiet_bind nextChangeElement_quiet
  intro element
  apply quiet_bind (makeChangeOutput_quiet _ _ _)
  intro _
  exact quiet_bind (quiet_look _) fun _ _ => quiet_same rfl rfl rfl

theorem addChange_quiet : Quiet adds (addChange node) := by
  apply quiet_caught
  apply quiet_bind quiet_get
  intro _
  apply quiet_onlyIf
  exact quiet_bind nextChangeElement_quiet fun element => makeChangeOutput_quiet _ _ _

theorem fund_quiet (rounds : Nat) : Quiet True (fund node proposal rounds) := by
  induction rounds with
  | zero => exact quiet_throw _
  | succ rounds ih =>
    apply quiet_bind (quiet_look _)
    intro funded
    apply quiet_onlyIf
    apply quiet_bind (quiet_ask _)
    rintro ⟨utxo, haveMore⟩
    cases utxo with
    | none => exact quiet_throw _
    | some utxo =>
      apply quiet_bind (addInput_quiet utxo)
      intro _
      exact quiet_bind (quiet_require _ _) fun _ => ih

theorem dropLast_quiet : Quiet adds (dropLast node) := by
  apply quiet_bind quiet_get
  intro state
  cases state.change.getLast? with
  | none => exact quiet_pure ()
  | some last =>
    apply quiet_bind
    · apply quiet_forEach
      intro key
      exact quiet_bind (quiet_tell _) fun _ _ => quiet_same rfl rfl rfl
    · intro _
      apply quiet_bind (quiet_look _)
      intro _
      exact quiet_bind (fun _ => quiet_same rfl rfl rfl) fun _ => countOutputs_quiet

theorem dropUnnecessaryChange_quiet (rounds : Nat) : Quiet adds (dropUnnecessaryChange node rounds) := by
  induction rounds with
  | zero => exact quiet_pure ()
  | succ rounds ih =>
    apply quiet_bind quiet_get
    intro state
    exact quiet_onlyIf (quiet_bind dropLast_quiet fun _ => ih)

theorem distributeChangeAmounts_quiet : Quiet adds (distributeChangeAmounts node) := by
  apply quiet_bind quiet_get
  intro _
  apply quiet_bind (quiet_require _ _)
  intro _
  apply quiet_bind (quiet_look _)
  intro _
  apply quiet_bind (quiet_look _)
  intro _
  apply quiet_bind (quiet_require _ _)
  intro _
  apply quiet_bind (quiet_look _)
  intro _
  apply quiet_bind (quiet_look _)
  intro _
  apply quiet_bind fun _ => quiet_same rfl rfl rfl
  intro _
  exact quiet_bind (quiet_require _ _) fun _ _ => quiet_same rfl rfl rfl

theorem finalizeOutputs_quiet : Quiet adds (finalizeOutputs node) := by
  apply quiet_bind (quiet_look _)
  intro _
  apply quiet_bind (quiet_require _ _)
  intro _
  apply quiet_bind quiet_get
  intro _
  apply quiet_bind (quiet_require _ _)
  intro _
  apply quiet_bind (quiet_look _)
  intro _
  apply quiet_bind (quiet_look _)
  intro _
  apply quiet_bind (quiet_onlyIf (dropUnnecessaryChange_quiet _))
  intro _
  apply quiet_bind quiet_get
  intro _
  exact quiet_bind (quiet_onlyIf distributeChangeAmounts_quiet) fun _ _ => ⟨fun _ => List.perm_insertionSort _ _, rfl, rfl⟩

theorem prepareOutputs_quiet : Quiet adds (prepareOutputs node proposal) := by
  apply quiet_bind createOutputs_quiet
  intro _
  apply quiet_bind (quiet_require _ _)
  intro _
  apply quiet_bind (quiet_look _)
  intro _
  apply quiet_bind (createNotifications_quiet _)
  intro _
  apply quiet_bind (quiet_require _ _)
  intro _
  exact quiet_bind addChange_quiet fun _ => quiet_require _ _

theorem prepareNormal_quiet : Quiet True (prepareNormal node proposal) := by
  apply quiet_bind prepareOutputs_quiet
  intro _
  apply quiet_bind quiet_get
  intro _
  apply quiet_bind (fund_quiet _)
  intro _
  apply quiet_bind (quiet_look _)
  intro _
  exact quiet_bind (quiet_require _ _) fun _ => finalizeOutputs_quiet

theorem addSweepInputs_quiet : Quiet True (addSweepInputs node proposal) := by
  apply quiet_bind (quiet_look _)
  intro _
  apply quiet_bind (quiet_look _)
  intro _
  apply quiet_bind
  · apply quiet_forEach
    intro outpoint
    apply quiet_bind (quiet_ask _)
    intro answer
    cases answer with
    | none => exact quiet_pure ()
    | some utxo => exact quiet_bind (addInput_quiet utxo) fun _ => quiet_require _ _
  · intro _
    exact quiet_bind quiet_get fun _ => quiet_require _ _

theorem sweepToNotifications_quiet : Quiet adds (sweepToNotifications node proposal) := by
  apply quiet_bind (quiet_require _ _)
  intro _
  apply quiet_bind (createNotifications_quiet _)
  intro _
  apply quiet_bind (quiet_require _ _)
  intro _
  apply quiet_bind (quiet_look _)
  intro _
  exact quiet_bind (quiet_require _ _) fun _ => finalizeOutputs_quiet

theorem createSweepOutput_quiet : Quiet adds (createSweepOutput node proposal) := by
  unfold createSweepOutput
  split
  · exact quiet_bind createOutputs_quiet fun _ => quiet_require _ _
  · apply quiet_bind addChange_quiet
    intro _
    exact quiet_bind (quiet_require _ _) fun _ _ => quiet_same rfl rfl rfl

theorem sweepToOutput_quiet : Quiet adds (sweepToOutput node proposal) := by
  apply quiet_bind createSweepOutput_quiet
  intro _
  apply quiet_bind (quiet_look _)
  intro _
  apply quiet_bind (quiet_look _)
  intro _
  apply quiet_bind (quiet_require _ _)
  intro _
  apply quiet_bind quiet_get
  intro _
  apply quiet_bind (quiet_require _ _)
  intro _
  exact quiet_bind (quiet_look _) fun _ _ => quiet_same rfl rfl rfl

theorem prepareSweep_quiet : Quiet True (prepareSweep node proposal) := by
  apply quiet_bind addSweepInputs_quiet
  intro _
  split
  · exact sweepToNotifications_quiet
  · exact sweepToOutput_quiet

end Opentxs.Spend.Builder
