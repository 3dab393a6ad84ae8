import Opentxs.Spend.Totals

/-! The builder before it looks for funds: the requested outputs, the outputs for notifications
and the change, and what funding keeps of them. -/

namespace Opentxs.Spend.Builder
open Library Library.Endian Bitcoin BitcoinScript Blockchain Amount
open Program (Meets meets_bind meets_pure meets_throw meets_get meets_modify meets_require meets_onlyIf meets_catching)
open Wallet.Types (Key TxoTag)

variable {ω : Type} {node : Node ω} {start : Builder ω} {stops : Stop → Prop}

/-! ## Change outputs -/

/-- The change that no value has been given to yet, with the keys that were taken for it. -/
structure Owned (state : Builder ω) : Prop where
  tagged : ∀ output ∈ state.change, TxoTag.change ∈ output.tags
  keyed : ∀ output ∈ state.change, ∃ key ∈ state.changeKeys, output.keys = [key]
  empty : ∀ output ∈ state.change, output.value = 0

def withKey (element : Element) (world : ω) (state : Builder ω) : Builder ω :=
  { state with world, changeKeys := state.changeKeys.insert element.keyID }

theorem nextChangeElement_meets {returns : Element → Builder ω → Prop} :
    Meets (nextChangeElement node) returns (fun stop _ => stops stop) start ↔
      match node.nextChangeKey start.world with
      | (none, _) => stops .exception
      | (some element, world) => returns element (start.withKey element world) := by
  unfold nextChangeElement
  rw [meets_bind, meets_ask]
  cases node.nextChangeKey start.world with
  | mk answer world => cases answer <;> rfl

/-- The output that is made for an element of the change chain. -/
def changeOutput (element : Element) (script : Script) (tag : Option TxoTag) (index : Nat) : TransactionOutput :=
  let output : TransactionOutput := { index, value := 0, script, keys := [element.keyID] }
  ((tag.map output.addTag).getD output).addTag .change

theorem makeChangeOutput_meets (element : Element) (elements : Option (List ScriptElement)) (tag : Option TxoTag)
    {returns : Unit → Builder ω → Prop} :
    Meets (makeChangeOutput element elements tag) returns (fun stop _ => stops stop) start ↔
      match elements.bind (scriptOf · .output) with
      | none => stops .exception
      | some script =>
        if fits start.outputValue then returns () (start.withChange (changeOutput element script tag start.outputs.length))
        else stops .exception := by
  unfold makeChangeOutput
  cases elements.bind (scriptOf · .output) with
  | none => rfl
  | some script =>
    dsimp only
    rw [meets_bind, meets_look_ok]
    have same : start.outputValue + 0 = start.outputValue := Int.add_zero _
    cases tag with
    | none =>
      apply (addChangeOutput_meets _).trans
      show (if fits (start.outputValue + 0) then _ else _) ↔ _
      rw [same]
      rfl
    | some tag =>
      apply (addChangeOutput_meets _).trans
      show (if fits (start.outputValue + 0) then _ else _) ↔ _
      rw [same]
      rfl

theorem changeOutput_tagged (element : Element) (script : Script) (tag : Option TxoTag) (index : Nat) :
    TxoTag.change ∈ (changeOutput element script tag index).tags := Finset.mem_insert_self _ _

theorem changeOutput_value (element : Element) (script : Script) (tag : Option TxoTag) (index : Nat) :
    (changeOutput element script tag index).value = 0 := by cases tag <;> rfl

theorem changeOutput_keys (element : Element) (script : Script) (tag : Option TxoTag) (index : Nat) :
    (changeOutput element script tag index).keys = [element.keyID] := by cases tag <;> rfl

theorem notification_mem_changeOutput (element : Element) (script : Script) (tag : Option TxoTag) (index : Nat) :
    TxoTag.notification ∈ (changeOutput element script tag index).tags ↔ tag = some .notification := by
  cases tag with
  | none =>
    show TxoTag.notification ∈ (insert TxoTag.change ∅ : Finset TxoTag) ↔ _
    decide
  | some tag =>
    show TxoTag.notification ∈ (insert TxoTag.change (insert tag ∅) : Finset TxoTag) ↔ _
    cases tag <;> decide

theorem Owned.withKey {state : Builder ω} (owned : Owned state) (element : Element) (world : ω) :
    Owned (state.withKey element world) where
  tagged := owned.tagged
  keyed := fun output member => by
    obtain ⟨key, taken, keys⟩ := owned.keyed output member
    exact ⟨key, List.mem_insert_of_mem taken, keys⟩
  empty := owned.empty

theorem Owned.withChange {state : Builder ω} (owned : Owned state) {element : Element}
    (taken : element.keyID ∈ state.changeKeys) (script : Script) (tag : Option TxoTag) (index : Nat) :
    Owned (state.withChange (changeOutput element script tag index)) where
  tagged := by
    intro output member
    rcases List.mem_append.mp member with before | added
    · exact owned.tagged output before
    · rw [List.mem_singleton.mp added]
      exact changeOutput_tagged element script tag index
  keyed := by
    intro output member
    rcases List.mem_append.mp member with before | added
    · exact owned.keyed output before
    · rw [List.mem_singleton.mp added]
      exact ⟨element.keyID, taken, changeOutput_keys element script tag index⟩
  empty := by
    intro output member
    rcases List.mem_append.mp member with before | added
    · exact owned.empty output before
    · rw [List.mem_singleton.mp added]
      exact changeOutput_value element script tag index

/-! ## Before the funds -/

/-- The requested outputs are there, and the notifications that have been made so far. -/
structure Noted (paid : List TransactionOutput) (value : Nat) (state : Builder ω) : Prop where
  totals : Totals state
  counted : Counted state
  outputs : state.outputs = paid
  within : fits state.outputValue = true
  owned : Owned state
  notifications : ∀ output ∈ state.change, TxoTag.notification ∈ output.tags
  notificationValue : state.notificationValue = ofUnsigned (state.change.length * value)

theorem notify_meets (paid : List TransactionOutput) (value : Nat) (recipient : PaymentCode) (noted : Noted paid value start) :
    Meets (notify node value recipient)
      (fun _ next => Noted paid value next ∧ next.change.length = start.change.length + 1)
      (fun stop _ => stop = .exception) start := by
  apply meets_bind.mpr
  apply nextChangeElement_meets.mpr
  cases node.nextChangeKey start.world with
  | mk answer world =>
    cases answer with
    | none => rfl
    | some element =>
      apply meets_bind.mpr
      apply (makeChangeOutput_meets element _ _).mpr
      split
      · rfl
      · rename_i script _
        split
        · apply meets_bind.mpr
          apply meets_checked.mpr
          split
          · have taken : element.keyID ∈ (start.withKey element world).changeKeys := List.mem_insert_self
            have totals : Totals (start.withKey element world) := { noted.totals with }
            have more := totals.withChange (changeOutput element script (some .notification) start.outputs.length)
            refine ⟨⟨{ more with }, rfl, noted.outputs, ?_, ?_, ?_, ?_⟩, List.length_append⟩
            · show fits (start.outputValue + (changeOutput element script (some .notification) start.outputs.length).value) = true
              rw [changeOutput_value, Int.add_zero]
              exact noted.within
            · have owned := (noted.owned.withKey element world).withChange taken script (some .notification) start.outputs.length
              exact ⟨owned.tagged, owned.keyed, owned.empty⟩
            · intro output member
              rcases List.mem_append.mp member with before | added
              · exact noted.notifications output before
              · rw [List.mem_singleton.mp added]
                exact (notification_mem_changeOutput element script _ _).mpr rfl
            · show start.notificationValue + ofUnsigned value =
                ofUnsigned ((start.change ++ [changeOutput element script (some .notification) start.outputs.length]).length * value)
              rw [noted.notificationValue, ← ofUnsigned_add, List.length_append, List.length_singleton, Nat.succ_mul]
          · rfl
        · rfl

theorem createNotifications_meets (proposal : Proposal) (paid : List TransactionOutput) (value : Nat)
    (noted : Noted paid value start) (none : start.change = []) :
    Meets (createNotifications node proposal value)
      (fun done next => done = true → Noted paid value next ∧ next.change.length = proposal.notifications.length)
      (fun _ _ => False) start := by
  apply meets_caught.mpr
  let invariant (items : List PaymentCode) (state : Builder ω) : Prop :=
    Noted paid value state ∧ state.change.length + items.length = proposal.notifications.length
  have each : ∀ recipient items state, invariant (recipient :: items) state →
      Meets (notify node value recipient) (fun _ => invariant items) (fun stop _ => stop = .exception) state := by
    intro recipient items state holds
    apply (notify_meets paid value recipient holds.1).mono _ fun _ _ stop => stop
    intro _ next kept
    refine ⟨kept.1, ?_⟩
    rw [kept.2, Nat.add_right_comm, Nat.add_assoc]
    exact holds.2
  have begins : invariant proposal.notifications start := ⟨noted, by rw [none]; exact Nat.zero_add _⟩
  apply (Meets.forEach each proposal.notifications start begins).mono _ fun _ _ is => by simp [is]
  intro _ next kept _
  exact kept

/-- The change that goes back to the wallet: it pays to the hash of a key of the change chain. -/
def IsChange (node : Node ω) (output : TransactionOutput) : Prop :=
  ∃ world next element script index, node.nextChangeKey world = (some element, next) ∧
    (makeScript .p2pkh element.pubkeyHash).bind (scriptOf · .output) = some script ∧
    output = changeOutput element script none index

theorem IsChange.droppable {output : TransactionOutput} (made : IsChange node output) :
    TxoTag.notification ∉ output.tags := by
  obtain ⟨_, _, element, script, index, _, _, rfl⟩ := made
  intro tagged
  cases (notification_mem_changeOutput element script none index).mp tagged

/-- There is something that may become change: the notifications, or an output that can be dropped. -/
inductive Reserve (node : Node ω) (value : Nat) (state : Builder ω) : Prop
  | notifications (nonempty : state.change ≠ []) (all : ∀ output ∈ state.change, TxoTag.notification ∈ output.tags)
      (notificationValue : state.notificationValue = ofUnsigned (state.change.length * value))
  | change (output : TransactionOutput) (only : state.change = [output]) (made : IsChange node output)
      (notificationValue : state.notificationValue = 0)

/-- Only the inputs are missing. -/
structure Ready (node : Node ω) (paid : List TransactionOutput) (value : Nat) (state : Builder ω) : Prop where
  totals : Totals state
  counted : Counted state
  outputs : state.outputs = paid
  within : fits state.outputValue = true
  owned : Owned state
  reserve : Reserve node value state

theorem Noted.ready {paid : List TransactionOutput} {value : Nat} {state : Builder ω} (noted : Noted paid value state)
    (nonempty : state.change ≠ []) : Ready node paid value state where
  totals := noted.totals
  counted := noted.counted
  outputs := noted.outputs
  within := noted.within
  owned := noted.owned
  reserve := .notifications nonempty noted.notifications noted.notificationValue

theorem Noted.withChange {paid : List TransactionOutput} {value : Nat} {state : Builder ω} (noted : Noted paid value state)
    (none : state.change = []) {element : Element} {world : ω} {script : Script}
    (answered : node.nextChangeKey state.world = (some element, world))
    (valid : (makeScript .p2pkh element.pubkeyHash).bind (scriptOf · .output) = some script) :
    Ready node paid value ((state.withKey element world).withChange (changeOutput element script .none state.outputs.length)) where
  totals := by
    have totals : Totals (state.withKey element world) := { noted.totals with }
    exact totals.withChange _
  counted := rfl
  outputs := noted.outputs
  within := by
    show fits (state.outputValue + (changeOutput element script .none state.outputs.length).value) = true
    rw [changeOutput_value, Int.add_zero]
    exact noted.within
  owned := (noted.owned.withKey element world).withChange List.mem_insert_self script .none state.outputs.length
  reserve := by
    have only : state.change ++ [changeOutput element script .none state.outputs.length] =
        [changeOutput element script .none state.outputs.length] := by
      rw [none]
      rfl
    have zero : state.notificationValue = 0 := by
      rw [noted.notificationValue, none, List.length_nil, Nat.zero_mul]
      rfl
    exact .change _ only ⟨_, _, element, script, _, answered, valid, rfl⟩ zero

theorem addChange_meets {paid : List TransactionOutput} {value : Nat} (noted : Noted paid value start) :
    Meets (addChange node) (fun added next => added = true → Ready node paid value next ∧
      (start.change ≠ [] → next = start)) (fun _ _ => False) start := by
  apply meets_caught.mpr
  apply meets_bind.mpr
  apply meets_get.mpr
  apply meets_onlyIf.mpr
  split
  · rename_i none
    apply meets_bind.mpr
    apply Meets.mono (nextChangeElement_meets.mpr _) (fun _ _ => id) (fun stop _ (is : stop = .exception) => by simp [is])
    cases answered : node.nextChangeKey start.world with
    | mk answer world =>
      cases answer with
      | none => rfl
      | some element =>
        apply Meets.mono ((makeChangeOutput_meets element _ _).mpr _) (fun _ _ => id) (fun stop _ (is : stop = .exception) => by simp [is])
        split
        · rfl
        · rename_i script valid
          split
          · exact fun _ => ⟨noted.withChange none answered valid, fun some => absurd none some⟩
          · rfl
  · rename_i some
    exact fun _ => ⟨noted.ready some, fun _ => rfl⟩

/-! ## Funding -/

theorem Ready.withInput {paid : List TransactionOutput} {value : Nat} {state : Builder ω} (ready : Ready node paid value state)
    (world : ω) {utxo : UTXO} {input : TransactionInput} (made : bitcoinTransactionInput utxo = some input) :
    Ready node paid value ({ state with world }.withInput input utxo.value) where
  totals := by
    have totals : Totals { state with world } := { ready.totals with }
    exact totals.withInput made
  counted := ready.counted
  outputs := ready.outputs
  within := ready.within
  owned := ⟨ready.owned.tagged, ready.owned.keyed, ready.owned.empty⟩
  reserve := by
    cases ready.reserve with
    | notifications nonempty all notificationValue => exact .notifications nonempty all notificationValue
    | change output only made notificationValue => exact .change output only made notificationValue

theorem fund_meets {proposal : Proposal} {paid : List TransactionOutput} {value : Nat} (rounds : Nat) :
    ∀ start : Builder ω, Ready node paid value start →
      Meets (fund node proposal rounds) (fun _ next => Ready node paid value next) (fun _ _ => True) start := by
  induction rounds with
  | zero => exact fun _ _ => trivial
  | succ rounds ih =>
    intro start ready
    apply meets_bind.mpr
    apply meets_look.mpr
    split
    · apply meets_onlyIf.mpr
      split
      · apply meets_bind.mpr
        apply meets_ask.mpr
        cases node.reserveUTXO (spendPolicy proposal) start.world with
        | mk answer world =>
          obtain ⟨utxo, haveMore⟩ := answer
          cases utxo with
          | none => trivial
          | some utxo =>
            apply meets_bind.mpr
            apply (addInput_meets utxo).mpr
            cases made : bitcoinTransactionInput utxo with
            | none => trivial
            | some input =>
              dsimp only
              split
              · exact ih _ (ready.withInput world made)
              · trivial
      · exact ready
    · trivial

end Opentxs.Spend.Builder
