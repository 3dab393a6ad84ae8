import Opentxs.Spend.Promise
import Opentxs.Spend.Setters

/-! A proposal is stored before it is built, and read back: what is written, what is read, and
whether it is still what the user asked for. -/

namespace Opentxs.Spend
open Library Library.Endian
open Wallet.Types (AccountID Key Nym Outpoint Subchain)

/-! ## Messages -/

inductive OutputStyle
  | pubkey (bytes : Bytes)
  | pubkeyhash (bytes : Bytes)
  | scripthash (bytes : Bytes)
  deriving DecidableEq, Repr

structure ProposedOutput where
  amount : Amount
  index : Nat := 0
  paymentCodeChannel : AccountID := 0
  style : Option OutputStyle := none
  segwit : Bool := false
  deriving DecidableEq, Repr

structure ProposedNotification where
  path : Nat
  sender : PaymentCode
  recipient : PaymentCode
  deriving DecidableEq, Repr

structure ProposedSweepKey where
  chain : Chain
  nym : Nym
  key : Key
  deriving DecidableEq, Repr

structure ProposedSweep where
  subaccount : Option AccountID := none
  key : Option ProposedSweepKey := none
  deriving DecidableEq, Repr

structure TransactionProposal where
  output : List ProposedOutput
  notification : List ProposedNotification
  sweep : Option ProposedSweep
  spendUnconfirmedChange : Bool
  spendUnconfirmedIncoming : Bool
  deriving DecidableEq, Repr

namespace Proposal

variable (api : Api)

/-! ## Writing -/

/-- A style that no address has ends the program. -/
def serializeAddress (recipient : AddressRecipient) : Option ProposedOutput :=
  match recipient.style with
  | .p2wpkh => some { amount := recipient.amount, segwit := true, style := some (.pubkeyhash recipient.bytes) }
  | .p2pkh | .ethereumAccount => some { amount := recipient.amount, style := some (.pubkeyhash recipient.bytes) }
  | .p2wsh => some { amount := recipient.amount, segwit := true, style := some (.scripthash recipient.bytes) }
  | .p2sh => some { amount := recipient.amount, style := some (.scripthash recipient.bytes) }
  | .unknownAddressStyle | .p2tr => none

def serializePaymentCode (recipient : PaymentCodeRecipient) : ProposedOutput where
  amount := recipient.amount
  index := recipient.keyID.index
  paymentCodeChannel := recipient.keyID.account
  style := some (.pubkey recipient.pubkey)

def serializeNotification (recipient : PaymentCode) : ProposedNotification :=
  { path := api.path, sender := api.senderPaymentCode, recipient }

def isSweep (proposal : Proposal) : Bool := proposal.policy ≠ .default

def serializeSweep (proposal : Proposal) : ProposedSweep :=
  match proposal.sweepKey with
  | some key => { key := some { chain := api.chain, nym := api.spender, key } }
  | none => { subaccount := proposal.sweepSubaccount }

/-- `none` is the end of the program. -/
def serialize (proposal : Proposal) : Option TransactionProposal := do
  let addresses ← proposal.addressRecipients.mapM serializeAddress
  some {
    output := addresses ++ proposal.paymentCodeRecipients.map serializePaymentCode
    notification := proposal.notifications.map (serializeNotification api)
    sweep := if isSweep proposal then some (serializeSweep api proposal) else none
    spendUnconfirmedChange := proposal.spendUnconfirmedChange
    spendUnconfirmedIncoming := proposal.spendUnconfirmedIncoming }

/-! ## Reading

`none` is an exception, which the constructor passes on. -/

def deserializeHash (style : AddressStyle) (bytes : Bytes) (amount : Amount) (proposal : Proposal) : Option Proposal :=
  if api.encodeAddress style bytes = "" then none else proposal.addAddress bytes style amount

def deserializeOutput (proposal : Proposal) (out : ProposedOutput) : Option Proposal :=
  if out.amount ≤ 0 then none
  else match out.style with
    | some (.pubkeyhash bytes) => proposal.deserializeHash api (if out.segwit then .p2wpkh else .p2pkh) bytes out.amount
    | some (.scripthash bytes) => proposal.deserializeHash api (if out.segwit then .p2wsh else .p2sh) bytes out.amount
    | some (.pubkey bytes) => do
      let recipient ← api.remote out.paymentCodeChannel
      proposal.addPaymentCode api recipient out.amount out.paymentCodeChannel out.index bytes
    | none => none

def deserializeNotification (proposal : Proposal) (notification : ProposedNotification) : Option Proposal :=
  if notification.sender ≠ api.senderPaymentCode ∨ notification.path ≠ api.path then none
  else some { proposal with notifications := emplace notification.recipient proposal.notifications }

def deserializeSweep (sweep : ProposedSweep) (proposal : Proposal) : Option Proposal :=
  match sweep.subaccount, sweep.key with
  | some account, _ => some { proposal with policy := .sweepSubaccount, sweepSubaccount := some account }
  | none, some key =>
    if api.rereadChain key.chain ≠ api.chain ∨ key.nym ≠ api.spender then none
    else some { proposal with policy := .sweepKey, sweepKey := some key.key }
  | none, none => some { proposal with policy := .sweepAccount }

def deserialize (message : TransactionProposal) : Option Proposal := do
  let proposal ← message.output.foldlM (deserializeOutput api) (initial api)
  let proposal ← message.notification.foldlM (deserializeNotification api) proposal
  let proposal ← (message.sweep.map (deserializeSweep api · proposal)).getD (some proposal)
  some { proposal with
    spendUnconfirmedChange := message.spendUnconfirmedChange
    spendUnconfirmedIncoming := message.spendUnconfirmedIncoming }

/-! ## What is read back -/

/-- The style that is read where this one was written. -/
def reread : AddressStyle → AddressStyle
  | .ethereumAccount => .p2pkh
  | style => style

def rereadRecipient (recipient : AddressRecipient) : AddressRecipient := { recipient with style := reread recipient.style }

/-- The address that is read can be encoded. -/
def Encodes (recipient : AddressRecipient) : Prop := api.encodeAddress (reread recipient.style) recipient.bytes ≠ ""

instance (recipient : AddressRecipient) : Decidable (Encodes api recipient) := inferInstanceAs (Decidable (_ ≠ _))

variable {api}

theorem serializeAddress_reread {recipient : AddressRecipient} (positive : 0 < recipient.amount) (supported : IsSupported recipient.style) :
    ∃ out, serializeAddress recipient = some out ∧ ∀ proposal : Proposal,
      proposal.deserializeOutput api out = if Encodes api recipient then
        proposal.addAddress recipient.bytes (reread recipient.style) recipient.amount else none := by
  have amount : ¬ recipient.amount ≤ 0 := not_le.mpr positive
  have hashed : ∀ (proposal : Proposal) (style : AddressStyle), reread recipient.style = style →
      proposal.deserializeHash api style recipient.bytes recipient.amount = if Encodes api recipient then
        proposal.addAddress recipient.bytes (reread recipient.style) recipient.amount else none := by
    intro proposal style same
    subst same
    unfold deserializeHash
    by_cases empty : api.encodeAddress (reread recipient.style) recipient.bytes = ""
    · rw [if_pos empty, if_neg fun some : Encodes api recipient => some empty]
    · rw [if_neg empty, if_pos (show Encodes api recipient from empty)]
  unfold serializeAddress
  rcases supported with style | style | style | style | style
  all_goals
    rw [style]
    refine ⟨_, rfl, fun proposal => ?_⟩
    rw [← style]
    unfold deserializeOutput
    rw [if_neg amount]
    exact hashed proposal _ (by rw [style]; rfl)

theorem deserialize_addresses (recipients : List AddressRecipient) : ∀ start : Proposal,
    (∀ recipient ∈ recipients, 0 < recipient.amount ∧ IsSupported recipient.style) →
    start.addressRecipients.length + recipients.length ≤ maxOutputs →
    ∃ outs, recipients.mapM serializeAddress = some outs ∧ outs.foldlM (deserializeOutput api) start =
      if ∀ recipient ∈ recipients, Encodes api recipient then
        some { start with addressRecipients := start.addressRecipients ++ recipients.map rereadRecipient } else none := by
  induction recipients with
  | nil =>
    intro start _ _
    refine ⟨[], rfl, ?_⟩
    rw [if_pos fun _ member => absurd member List.not_mem_nil, List.map_nil, List.append_nil]
    rfl
  | cons recipient recipients ih =>
    intro start checked room
    obtain ⟨positive, supported⟩ := checked recipient List.mem_cons_self
    obtain ⟨out, written, read⟩ := @serializeAddress_reread api recipient positive supported
    rw [List.length_cons] at room
    have next := ih { start with addressRecipients := start.addressRecipients ++ [rereadRecipient recipient] }
      (fun other member => checked other (List.mem_cons_of_mem recipient member))
      (by
        show (start.addressRecipients ++ [_]).length + _ ≤ _
        rw [List.length_append, List.length_singleton]
        omega)
    obtain ⟨outs, others, folded⟩ := next
    refine ⟨out :: outs, ?_, ?_⟩
    · rw [List.mapM_cons, written, others]
      rfl
    · rw [List.foldlM_cons, read]
      by_cases encodes : Encodes api recipient
      · have added : start.addAddress recipient.bytes (reread recipient.style) recipient.amount =
            some { start with addressRecipients := start.addressRecipients ++ [rereadRecipient recipient] } := by
          unfold addAddress
          rw [if_neg (by omega)]
          rfl
        rw [if_pos encodes, added]
        show outs.foldlM (deserializeOutput api) _ = _
        rw [folded]
        simp only [List.forall_mem_cons, encodes, true_and, List.map_cons, List.append_assoc, List.singleton_append]
      · rw [if_neg encodes, if_neg fun all => encodes (all recipient List.mem_cons_self)]
        rfl

theorem deserialize_codes (recipients : List PaymentCodeRecipient) : ∀ start : Proposal,
    (∀ recipient ∈ recipients, recipient.Valid api) → start.paymentCodeRecipients.length + recipients.length ≤ maxOutputs →
    (recipients.map serializePaymentCode).foldlM (deserializeOutput api) start =
      some { start with paymentCodeRecipients := start.paymentCodeRecipients ++ recipients } := by
  induction recipients with
  | nil =>
    intro start _ _
    rw [List.append_nil]
    rfl
  | cons recipient recipients ih =>
    intro start checked room
    have valid := checked recipient List.mem_cons_self
    rw [List.length_cons] at room
    have same : (⟨recipient.keyID.account, .outgoing, recipient.keyID.index⟩ : Key) = recipient.keyID := by
      rw [← valid.subchain]
    have added : deserializeOutput api start (serializePaymentCode recipient) =
        some { start with paymentCodeRecipients := start.paymentCodeRecipients ++ [recipient] } := by
      unfold deserializeOutput
      rw [if_neg (show ¬ (serializePaymentCode recipient).amount ≤ 0 from not_le.mpr valid.amount)]
      show ((api.remote recipient.keyID.account).bind fun remote => start.addPaymentCode api remote recipient.amount
        recipient.keyID.account recipient.keyID.index recipient.pubkey) = _
      rw [valid.remote, Option.bind_some]
      unfold addPaymentCode
      rw [if_neg (by rw [valid.valid]; decide), if_neg valid.notSelf, if_neg (by omega), same]
    rw [List.map_cons, List.foldlM_cons, added]
    show (recipients.map serializePaymentCode).foldlM (deserializeOutput api) _ = _
    rw [ih _ (fun other member => checked other (List.mem_cons_of_mem recipient member))]
    · rw [List.append_assoc, List.singleton_append]
    · show (start.paymentCodeRecipients ++ [recipient]).length + _ ≤ _
      rw [List.length_append, List.length_singleton]
      omega

theorem emplace_last {recipient : PaymentCode} (notifications : List PaymentCode) :
    (∀ other ∈ notifications, other < recipient) → emplace recipient notifications = notifications ++ [recipient] := by
  intro below
  have absent : recipient ∉ notifications := fun member => lt_irrefl _ (below recipient member)
  unfold emplace
  rw [if_neg absent]
  clear absent
  induction notifications with
  | nil => rfl
  | cons other others ih =>
    rw [List.orderedInsert_cons, if_neg (not_le.mpr (below other List.mem_cons_self)),
      ih fun later member => below later (List.mem_cons_of_mem other member)]
    rfl

theorem deserialize_notifications (recipients : List PaymentCode) : ∀ start : Proposal,
    (start.notifications ++ recipients).Pairwise (· < ·) →
    (recipients.map (serializeNotification api)).foldlM (deserializeNotification api) start =
      some { start with notifications := start.notifications ++ recipients } := by
  induction recipients with
  | nil =>
    intro start _
    rw [List.append_nil]
    rfl
  | cons recipient recipients ih =>
    intro start sorted
    have last := emplace_last start.notifications fun other member =>
      (List.pairwise_append.mp sorted).2.2 other member recipient List.mem_cons_self
    have added : deserializeNotification api start (serializeNotification api recipient) =
        some { start with notifications := start.notifications ++ [recipient] } := by
      unfold deserializeNotification
      rw [if_neg (by rintro (wrong | wrong) <;> exact wrong rfl)]
      show some { start with notifications := emplace recipient start.notifications } = _
      rw [last]
    rw [List.map_cons, List.foldlM_cons, added]
    show (recipients.map (serializeNotification api)).foldlM (deserializeNotification api) _ = _
    rw [ih]
    · rw [List.append_assoc, List.singleton_append]
    · show ((start.notifications ++ [recipient]) ++ recipients).Pairwise (· < ·)
      rw [List.append_assoc, List.singleton_append]
      exact sorted

/-- The unit of the chain is read back as the chain where a key is swept. -/
def ChainReread (api : Api) (proposal : Proposal) : Prop := proposal.policy = .sweepKey → api.rereadChain api.chain = api.chain

instance (proposal : Proposal) : Decidable (ChainReread api proposal) := inferInstanceAs (Decidable (_ → _))

theorem deserialize_sweep {proposal start : Proposal} (agrees : SourceAgrees proposal) (policy : start.policy = .default)
    (subaccount : start.sweepSubaccount = none) (key : start.sweepKey = none) :
    ((if isSweep proposal then some (serializeSweep api proposal) else none).map (deserializeSweep api · start)).getD (some start) =
      if ChainReread api proposal then some { start with
        policy := proposal.policy
        sweepSubaccount := proposal.sweepSubaccount
        sweepKey := proposal.sweepKey } else none := by
  obtain ⟨_, _, _, wanted, _, _, _, wantedSubaccount, wantedKey⟩ := proposal
  obtain ⟨_, _, _, _, _, _, _, _, _⟩ := start
  cases policy
  cases subaccount
  cases key
  cases wanted with
  | default =>
    obtain ⟨rfl, rfl⟩ := agrees
    rw [if_pos (show ChainReread api _ from by rintro ⟨⟩)]
    rfl
  | sweepAccount =>
    obtain ⟨rfl, rfl⟩ := agrees
    rw [if_pos (show ChainReread api _ from by rintro ⟨⟩)]
    rfl
  | sweepSubaccount =>
    obtain ⟨some, rfl⟩ := agrees
    obtain ⟨account, rfl⟩ := Option.isSome_iff_exists.mp some
    rw [if_pos (show ChainReread api _ from by rintro ⟨⟩)]
    rfl
  | sweepKey =>
    obtain ⟨rfl, some⟩ := agrees
    obtain ⟨key, rfl⟩ := Option.isSome_iff_exists.mp some
    show (if api.rereadChain api.chain ≠ api.chain ∨ api.spender ≠ api.spender then none else _) = _
    by_cases same : api.rereadChain api.chain = api.chain
    · rw [if_neg (by rintro (wrong | wrong) <;> [exact wrong same; exact wrong rfl]), if_pos (show ChainReread api _ from fun _ => same)]
    · rw [if_pos (Or.inl same), if_neg fun reread : ChainReread api _ => same (reread rfl)]

/-- Reading a proposal that was written gives everything but the destination of a sweep, with the styles that were read, or
fails. -/
theorem deserialize_serialize {proposal : Proposal} (asked : Asked api proposal) :
    ∃ message, serialize api proposal = some message ∧ deserialize api message =
      if (∀ recipient ∈ proposal.addressRecipients, Encodes api recipient) ∧ ChainReread api proposal then
        some { proposal with
          addressRecipients := proposal.addressRecipients.map rereadRecipient
          sweepToAddress := none } else none := by
  obtain ⟨outs, written, addresses⟩ := @deserialize_addresses api proposal.addressRecipients (initial api) asked.addresses
    (by
      show 0 + _ ≤ _
      rw [Nat.zero_add]
      exact asked.addressCount)
  unfold serialize
  rw [written]
  refine ⟨_, rfl, ?_⟩
  unfold deserialize
  dsimp only
  rw [List.foldlM_append, addresses]
  by_cases encodes : ∀ recipient ∈ proposal.addressRecipients, Encodes api recipient
  · rw [if_pos encodes, Option.bind_eq_bind, Option.bind_some, deserialize_codes _ _ asked.codes (by
      show 0 + _ ≤ _
      rw [Nat.zero_add]
      exact asked.codeCount), Option.bind_some, deserialize_notifications]
    · rw [Option.bind_some, deserialize_sweep asked.source rfl rfl rfl]
      by_cases same : ChainReread api proposal
      · rw [if_pos same, if_pos (show _ ∧ _ from ⟨encodes, same⟩)]
        rfl
      · rw [if_neg same, if_neg (show ¬ (_ ∧ ChainReread api proposal) from fun both => same both.2)]
        rfl
    · exact asked.notifications
  · have fails : ¬ ((∀ recipient ∈ proposal.addressRecipients, Encodes api recipient) ∧ ChainReread api proposal) :=
      fun both => encodes both.1
    rw [if_neg encodes, if_neg fails]
    rfl

/-- What can be stored without loss: a sweep without a destination, addresses that can be encoded again, and a chain that
can be read again. -/
structure Storable (api : Api) (proposal : Proposal) : Prop where
  destination : proposal.sweepToAddress = none
  addresses : ∀ recipient ∈ proposal.addressRecipients,
    recipient.style ≠ .ethereumAccount ∧ api.encodeAddress recipient.style recipient.bytes ≠ ""
  chain : ChainReread api proposal

theorem reread_of_ne {style : AddressStyle} (other : style ≠ .ethereumAccount) : reread style = style := by
  cases style with
  | ethereumAccount => exact absurd rfl other
  | _ => rfl

theorem rereadRecipient_eq {recipient : AddressRecipient} :
    rereadRecipient recipient = recipient ↔ recipient.style ≠ .ethereumAccount := by
  constructor
  · intro same style
    have styles : reread recipient.style = recipient.style := congrArg AddressRecipient.style same
    rw [style] at styles
    cases styles
  · intro other
    unfold rereadRecipient
    rw [reread_of_ne other]

theorem map_rereadRecipient {recipients : List AddressRecipient} :
    recipients.map rereadRecipient = recipients ↔ ∀ recipient ∈ recipients, rereadRecipient recipient = recipient := by
  conv_lhs =>
    rhs
    rw [← List.map_id recipients]
  exact List.map_inj_left

theorem stored_iff {proposal : Proposal} (asked : Asked api proposal) :
    (∃ message, serialize api proposal = some message ∧ deserialize api message = some proposal) ↔ Storable api proposal := by
  obtain ⟨message, written, read⟩ := deserialize_serialize asked
  constructor
  · rintro ⟨again, sameWritten, sameRead⟩
    cases written.symm.trans sameWritten
    rw [read] at sameRead
    split at sameRead
    · rename_i both
      have same := Option.some.inj sameRead
      have destination : proposal.sweepToAddress = none := (congrArg sweepToAddress same).symm
      have mapped : proposal.addressRecipients.map rereadRecipient = proposal.addressRecipients := congrArg addressRecipients same
      refine ⟨destination, fun recipient member => ?_, both.2⟩
      have style := rereadRecipient_eq.mp (map_rereadRecipient.mp mapped recipient member)
      have encodes := both.1 recipient member
      unfold Encodes at encodes
      rw [reread_of_ne style] at encodes
      exact ⟨style, encodes⟩
    · cases sameRead
  · intro storable
    have encodes : ∀ recipient ∈ proposal.addressRecipients, Encodes api recipient := by
      intro recipient member
      obtain ⟨style, encodes⟩ := storable.addresses recipient member
      unfold Encodes
      rw [reread_of_ne style]
      exact encodes
    have mapped : proposal.addressRecipients.map rereadRecipient = proposal.addressRecipients :=
      map_rereadRecipient.mpr fun recipient member => rereadRecipient_eq.mpr (storable.addresses recipient member).1
    refine ⟨message, written, ?_⟩
    rw [read, if_pos ⟨encodes, storable.chain⟩, mapped]
    congr 1
    cases proposal
    cases storable.destination
    rfl

end Proposal

end Opentxs.Spend
