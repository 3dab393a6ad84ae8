import Mathlib.Data.List.Sort
import Opentxs.Spend.Proposal

/-! What the user asks for, one setter after the other. -/

namespace Opentxs.Spend
open Library.Endian
open Wallet.Types (AccountID Key Nym Subchain)

abbrev Chain := Nat

structure DecodedAddress where
  data : Bytes
  style : AddressStyle
  chains : List Chain
  supported : Bool
  deriving DecidableEq, Repr

/-- What a spend asks of the session: addresses, the accounts of payment codes, and what belongs to the spender. -/
structure Api where
  chain : Chain
  spender : Nym
  spendUnconfirmed : Bool
  decodeAddress : String → DecodedAddress
  /-- The encodings of a hash for the chain, empty where it has none. -/
  p2pkh : Bytes → String
  p2sh : Bytes → String
  p2wpkh : Bytes → String
  ethereum : Bytes → String
  publicPaymentCode : PaymentCode
  senderPaymentCode : PaymentCode
  path : Nat
  isValid : PaymentCode → Bool
  version : PaymentCode → Nat
  loadOrCreateSubaccount : PaymentCode → Option AccountID
  remote : AccountID → Option PaymentCode
  /-- The account for a payment code knows whose it is. -/
  remote_account : ∀ recipient account, loadOrCreateSubaccount recipient = some account → remote account = some recipient
  owner : Key → Nym
  subaccountList : List AccountID
  /-- The chain that is read back from the unit that was written for the chain. -/
  rereadChain : Chain → Chain

/-- The styles for which there is no encoding are refused. -/
def Api.encodeAddress (api : Api) (style : AddressStyle) (data : Bytes) : String :=
  match style with
  | .p2wpkh => api.p2wpkh data
  | .p2pkh => api.p2pkh data
  | .p2sh => api.p2sh data
  | .ethereumAccount => api.ethereum data
  | .unknownAddressStyle | .p2wsh | .p2tr => ""

/-- A set that is kept in order. -/
def emplace (recipient : PaymentCode) (notifications : List PaymentCode) : List PaymentCode :=
  if recipient ∈ notifications then notifications else notifications.orderedInsert (· ≤ ·) recipient

namespace Proposal

def maxOutputs : Nat := 1000

variable (api : Api)

def validateAddress (address : String) : Option (AddressStyle × Bytes) :=
  let decoded := api.decodeAddress address
  if api.chain ∉ decoded.chains ∨ decoded.supported = false then none
  else match decoded.style with
    | .p2wpkh | .p2pkh | .p2wsh | .p2sh | .ethereumAccount => some (decoded.style, decoded.data)
    | .unknownAddressStyle | .p2tr => none

def validatePaymentCode (recipient : PaymentCode) : Bool := api.isValid recipient && api.version recipient == 3

def addAddress (bytes : Bytes) (style : AddressStyle) (amount : Amount) (proposal : Proposal) : Option Proposal :=
  if maxOutputs ≤ proposal.addressRecipients.length then none
  else some { proposal with addressRecipients := proposal.addressRecipients ++ [{ amount, style, bytes }] }

def addPaymentCode (recipient : PaymentCode) (amount : Amount) (account : AccountID) (index : Nat) (pubkey : Bytes)
    (proposal : Proposal) : Option Proposal :=
  if validatePaymentCode api recipient = false then none
  else if api.senderPaymentCode = recipient then none
  else if maxOutputs ≤ proposal.paymentCodeRecipients.length then none
  else some { proposal with
    paymentCodeRecipients := proposal.paymentCodeRecipients ++ [{ amount, recipient, keyID := ⟨account, .outgoing, index⟩, pubkey }] }

/-! ## Setters -/

def initial : Proposal := { spendUnconfirmedIncoming := api.spendUnconfirmed }

def sendToAddress (address : String) (amount : Amount) (proposal : Proposal) : Proposal :=
  if amount ≤ 0 then proposal
  else match validateAddress api address with
    | none => proposal
    | some (style, bytes) => (proposal.addAddress bytes style amount).getD proposal

/-- The account of the nym's own payment code ends the program. Whether the recipient has been notified and which key
is next is for the account to say. -/
def sendToPaymentCode (recipient : PaymentCode) (amount : Amount) (notified : Bool) (key : Option (Nat × Option Bytes))
    (proposal : Proposal) : Option Proposal :=
  if amount ≤ 0 then some proposal
  else if api.publicPaymentCode = recipient then none
  else match api.loadOrCreateSubaccount recipient with
    | none => some proposal
    | some account =>
      let proposal := if notified then proposal
        else { proposal with notifications := emplace recipient proposal.notifications }
      match key with
      | some (index, some pubkey) => some ((proposal.addPaymentCode api recipient amount account index pubkey).getD proposal)
      | _ => some proposal

/-- The first recipient that is not valid stops the rest. -/
def notify : List PaymentCode → Proposal → Proposal
  | [], proposal => proposal
  | recipient :: recipients, proposal =>
    if validatePaymentCode api recipient then
      notify recipients { proposal with notifications := emplace recipient proposal.notifications }
    else proposal

def setSpendUnconfirmedChange (value : Bool) (proposal : Proposal) : Proposal := { proposal with spendUnconfirmedChange := value }

def setSpendUnconfirmedIncoming (value : Bool) (proposal : Proposal) : Proposal :=
  { proposal with spendUnconfirmedIncoming := value }

def setSweepFromAccount (value : Bool) (proposal : Proposal) : Proposal :=
  let proposal := { proposal with sweepSubaccount := none, sweepKey := none }
  if value then { proposal with policy := .sweepAccount } else { proposal with policy := .default, sweepToAddress := none }

def setSweepFromKey (key : Key) (proposal : Proposal) : Proposal :=
  if api.owner key = api.spender then
    { proposal with sweepSubaccount := none, sweepKey := some key, policy := .sweepKey }
  else proposal

def setSweepFromSubaccount (account : AccountID) (proposal : Proposal) : Proposal :=
  if account ∈ api.subaccountList then
    { proposal with sweepKey := none, sweepSubaccount := some account, policy := .sweepSubaccount }
  else proposal

def setSweepToAddress (address : String) (proposal : Proposal) : Proposal :=
  { proposal with sweepToAddress := (validateAddress api address).map Prod.swap }

end Proposal

inductive Setter
  | sendToAddress (address : String) (amount : Amount)
  | sendToPaymentCode (recipient : PaymentCode) (amount : Amount) (notified : Bool) (key : Option (Nat × Option Bytes))
  | notify (recipients : List PaymentCode)
  | setSpendUnconfirmedChange (value : Bool)
  | setSpendUnconfirmedIncoming (value : Bool)
  | setSweepFromAccount (value : Bool)
  | setSweepFromKey (key : Key)
  | setSweepFromSubaccount (account : AccountID)
  | setSweepToAddress (address : String)
  deriving DecidableEq, Repr

namespace Setter
open Proposal

/-- `none` is the end of the program. -/
def apply (api : Api) (proposal : Proposal) : Setter → Option Proposal
  | .sendToAddress address amount => some (Proposal.sendToAddress api address amount proposal)
  | .sendToPaymentCode recipient amount notified key => Proposal.sendToPaymentCode api recipient amount notified key proposal
  | .notify recipients => some (Proposal.notify api recipients proposal)
  | .setSpendUnconfirmedChange value => some (Proposal.setSpendUnconfirmedChange value proposal)
  | .setSpendUnconfirmedIncoming value => some (Proposal.setSpendUnconfirmedIncoming value proposal)
  | .setSweepFromAccount value => some (Proposal.setSweepFromAccount value proposal)
  | .setSweepFromKey key => some (Proposal.setSweepFromKey api key proposal)
  | .setSweepFromSubaccount account => some (Proposal.setSweepFromSubaccount api account proposal)
  | .setSweepToAddress address => some (Proposal.setSweepToAddress api address proposal)

def run (api : Api) (setters : List Setter) : Option Proposal := setters.foldlM (Setter.apply api) (Proposal.initial api)

end Setter

/-! ## What every proposal has -/

def IsSupported (style : AddressStyle) : Prop :=
  style = .p2wpkh ∨ style = .p2pkh ∨ style = .p2wsh ∨ style = .p2sh ∨ style = .ethereumAccount

/-- The source of a sweep is the one that the policy names. -/
def SourceAgrees (proposal : Proposal) : Prop :=
  match proposal.policy with
  | .default | .sweepAccount => proposal.sweepSubaccount = none ∧ proposal.sweepKey = none
  | .sweepSubaccount => proposal.sweepSubaccount.isSome ∧ proposal.sweepKey = none
  | .sweepKey => proposal.sweepSubaccount = none ∧ proposal.sweepKey.isSome

structure PaymentCodeRecipient.Valid (api : Api) (recipient : PaymentCodeRecipient) : Prop where
  amount : 0 < recipient.amount
  valid : Proposal.validatePaymentCode api recipient.recipient = true
  notSelf : api.senderPaymentCode ≠ recipient.recipient
  remote : api.remote recipient.keyID.account = some recipient.recipient
  subchain : recipient.keyID.subchain = .outgoing

/-- What the setters have checked. -/
structure Asked (api : Api) (proposal : Proposal) : Prop where
  addresses : ∀ recipient ∈ proposal.addressRecipients, 0 < recipient.amount ∧ IsSupported recipient.style
  addressCount : proposal.addressRecipients.length ≤ Proposal.maxOutputs
  codes : ∀ recipient ∈ proposal.paymentCodeRecipients, recipient.Valid api
  codeCount : proposal.paymentCodeRecipients.length ≤ Proposal.maxOutputs
  notifications : proposal.notifications.Pairwise (· < ·)
  source : SourceAgrees proposal

variable {api : Api}

theorem emplace_sorted {recipient : PaymentCode} {notifications : List PaymentCode} (sorted : notifications.Pairwise (· < ·)) :
    (emplace recipient notifications).Pairwise (· < ·) := by
  unfold emplace
  split
  · exact sorted
  · rename_i absent
    have weak : (notifications.orderedInsert (· ≤ ·) recipient).Pairwise (· ≤ ·) :=
      (sorted.imp fun below => below.le).orderedInsert recipient notifications
    have distinct : (notifications.orderedInsert (· ≤ ·) recipient).Nodup :=
      (List.perm_orderedInsert (· ≤ ·) recipient notifications).nodup_iff.mpr
        (List.nodup_cons.mpr ⟨absent, sorted.imp fun below => below.ne⟩)
    exact (weak.and distinct).imp fun both => lt_of_le_of_ne both.1 both.2

theorem validateAddress_supported {address : String} {style : AddressStyle} {bytes : Bytes}
    (valid : Proposal.validateAddress api address = some (style, bytes)) : IsSupported style := by
  unfold Proposal.validateAddress at valid
  dsimp only at valid
  split at valid
  · cases valid
  · unfold IsSupported
    split at valid <;> simp_all

theorem asked_initial : Asked api (Proposal.initial api) where
  addresses := fun _ member => absurd member List.not_mem_nil
  addressCount := Nat.zero_le _
  codes := fun _ member => absurd member List.not_mem_nil
  codeCount := Nat.zero_le _
  notifications := .nil
  source := ⟨rfl, rfl⟩

variable {proposal : Proposal}

theorem Asked.sendToAddress (asked : Asked api proposal) (address : String) (amount : Amount) :
    Asked api (Proposal.sendToAddress api address amount proposal) := by
  unfold Proposal.sendToAddress
  split
  · exact asked
  · rename_i positive
    split
    · exact asked
    · rename_i style bytes valid
      unfold Proposal.addAddress
      split
      · exact asked
      · rename_i room
        refine { asked with addresses := ?_, addressCount := ?_ }
        · intro recipient member
          rcases List.mem_append.mp member with before | added
          · exact asked.addresses recipient before
          · rw [List.mem_singleton.mp added]
            exact ⟨lt_of_not_ge positive, validateAddress_supported valid⟩
        · show (proposal.addressRecipients ++ [_]).length ≤ _
          rw [List.length_append]
          exact Nat.lt_of_not_le room

theorem Asked.emplace (asked : Asked api proposal) (recipient : PaymentCode) :
    Asked api { proposal with notifications := emplace recipient proposal.notifications } :=
  { asked with notifications := emplace_sorted asked.notifications }

theorem Asked.addPaymentCode (asked : Asked api proposal) {recipient : PaymentCode} {amount : Amount} {account : AccountID}
    {index : Nat} {pubkey : Bytes} (positive : 0 < amount) (opened : api.loadOrCreateSubaccount recipient = some account) :
    Asked api ((proposal.addPaymentCode api recipient amount account index pubkey).getD proposal) := by
  unfold Proposal.addPaymentCode
  split
  · exact asked
  · rename_i valid
    split
    · exact asked
    · rename_i notSelf
      split
      · exact asked
      · rename_i room
        refine { asked with codes := ?_, codeCount := ?_ }
        · intro other member
          rcases List.mem_append.mp member with before | added
          · exact asked.codes other before
          · rw [List.mem_singleton.mp added]
            exact ⟨positive, Bool.eq_true_of_not_eq_false valid, notSelf, api.remote_account recipient account opened, rfl⟩
        · show (proposal.paymentCodeRecipients ++ [_]).length ≤ _
          rw [List.length_append]
          exact Nat.lt_of_not_le room

theorem Asked.sendToPaymentCode (asked : Asked api proposal) {recipient : PaymentCode} {amount : Amount} {notified : Bool}
    {key : Option (Nat × Option Bytes)} {next : Proposal}
    (ran : Proposal.sendToPaymentCode api recipient amount notified key proposal = some next) : Asked api next := by
  unfold Proposal.sendToPaymentCode at ran
  by_cases positive : amount ≤ 0
  · rw [if_pos positive] at ran
    cases ran
    exact asked
  · rw [if_neg positive] at ran
    by_cases own : api.publicPaymentCode = recipient
    · rw [if_pos own] at ran
      cases ran
    · rw [if_neg own] at ran
      cases opened : api.loadOrCreateSubaccount recipient with
      | none =>
        rw [opened] at ran
        cases ran
        exact asked
      | some account =>
        rw [opened] at ran
        have listed : Asked api (if notified = true then proposal
            else { proposal with notifications := Spend.emplace recipient proposal.notifications }) := by
          split
          · exact asked
          · exact asked.emplace recipient
        dsimp only at ran
        split at ran
        · cases ran
          exact listed.addPaymentCode (lt_of_not_ge positive) opened
        · cases ran
          exact listed

theorem Asked.notify (recipients : List PaymentCode) : ∀ {proposal : Proposal}, Asked api proposal →
    Asked api (Proposal.notify api recipients proposal) := by
  induction recipients with
  | nil => exact id
  | cons recipient recipients ih =>
    intro proposal asked
    unfold Proposal.notify
    split
    · exact ih (asked.emplace recipient)
    · exact asked

theorem Asked.setSweepFromAccount (asked : Asked api proposal) (value : Bool) :
    Asked api (Proposal.setSweepFromAccount value proposal) := by
  cases value with
  | true => exact { asked with source := ⟨rfl, rfl⟩ }
  | false => exact { asked with source := ⟨rfl, rfl⟩ }

theorem Asked.setSweepFromKey (asked : Asked api proposal) (key : Key) : Asked api (Proposal.setSweepFromKey api key proposal) := by
  unfold Proposal.setSweepFromKey
  split
  · exact { asked with source := ⟨rfl, rfl⟩ }
  · exact asked

theorem Asked.setSweepFromSubaccount (asked : Asked api proposal) (account : AccountID) :
    Asked api (Proposal.setSweepFromSubaccount api account proposal) := by
  unfold Proposal.setSweepFromSubaccount
  split
  · exact { asked with source := ⟨rfl, rfl⟩ }
  · exact asked

theorem Asked.apply (asked : Asked api proposal) {setter : Setter} {next : Proposal}
    (ran : setter.apply api proposal = some next) : Asked api next := by
  cases setter with
  | sendToAddress address amount =>
    cases ran
    exact asked.sendToAddress address amount
  | sendToPaymentCode recipient amount notified key => exact asked.sendToPaymentCode ran
  | notify recipients =>
    cases ran
    exact asked.notify recipients
  | setSpendUnconfirmedChange value =>
    cases ran
    exact { asked with }
  | setSpendUnconfirmedIncoming value =>
    cases ran
    exact { asked with }
  | setSweepFromAccount value =>
    cases ran
    exact asked.setSweepFromAccount value
  | setSweepFromKey key =>
    cases ran
    exact asked.setSweepFromKey key
  | setSweepFromSubaccount account =>
    cases ran
    exact asked.setSweepFromSubaccount account
  | setSweepToAddress address =>
    cases ran
    exact { asked with }

/-- Whatever setters are used, the proposal has what they check. -/
theorem asked_of_run {setters : List Setter} {proposal : Proposal} (ran : Setter.run api setters = some proposal) :
    Asked api proposal := by
  have all : ∀ (setters : List Setter) (start final : Proposal), Asked api start →
      setters.foldlM (Setter.apply api) start = some final → Asked api final := by
    intro setters
    induction setters with
    | nil =>
      intro start final asked ran
      cases ran
      exact asked
    | cons setter setters ih =>
      intro start final asked ran
      rw [List.foldlM_cons] at ran
      obtain ⟨next, first, rest⟩ := Option.bind_eq_some_iff.mp ran
      exact ih next final (asked.apply first) rest
  exact all setters (Proposal.initial api) proposal asked_initial ran

end Opentxs.Spend
