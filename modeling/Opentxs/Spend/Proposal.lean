import Opentxs.Spend.Transaction

/-! A proposal: whom to pay, whom to notify, and where the funds come from. -/

namespace Opentxs.Spend
open Library.Endian
open Wallet.Types (AccountID Key)

abbrev PaymentCode := Nat

structure AddressRecipient where
  amount : Amount
  style : AddressStyle
  bytes : Bytes
  deriving DecidableEq, Repr

structure PaymentCodeRecipient where
  amount : Amount
  recipient : PaymentCode
  keyID : Key
  pubkey : Bytes
  deriving DecidableEq, Repr

inductive Funding
  | default
  | sweepAccount
  | sweepSubaccount
  | sweepKey
  deriving DecidableEq, Repr

structure Proposal where
  addressRecipients : List AddressRecipient := []
  paymentCodeRecipients : List PaymentCodeRecipient := []
  notifications : List PaymentCode := []
  policy : Funding := .default
  spendUnconfirmedChange : Bool := true
  spendUnconfirmedIncoming : Bool := false
  sweepToAddress : Option (Bytes × AddressStyle) := none
  sweepSubaccount : Option AccountID := none
  sweepKey : Option Key := none
  deriving DecidableEq, Repr

inductive SendResult
  | sent
  | unspecifiedError
  | invalidSenderNym
  | missingRecipients
  | serializationError
  | insufficientConfirmedFunds
  | databaseError
  | duplicateProposal
  | outputCreationError
  | changeError
  | insufficientFunds
  | inputCreationError
  | signatureError
  | sendFailed
  | invalidSweep
  deriving DecidableEq, Repr

/-- The nym that spends, as far as it is checked. -/
structure Sender where
  canSign : Bool
  hasPaymentCode : Bool
  deriving DecidableEq, Repr

namespace Proposal

def checkSender (sender : Sender) (proposal : Proposal) : Bool :=
  sender.canSign && (proposal.paymentCodeRecipients.isEmpty && proposal.notifications.isEmpty || sender.hasPaymentCode)

def checkFundingDefault (proposal : Proposal) : Option SendResult :=
  if proposal.addressRecipients.isEmpty && proposal.paymentCodeRecipients.isEmpty then some .missingRecipients else none

/-- Nothing is required of a sweep: without a destination, a change output is added later. -/
def check (sender : Sender) (proposal : Proposal) : Option SendResult :=
  if checkSender sender proposal = false then some .invalidSenderNym
  else match proposal.policy with
    | .default => checkFundingDefault proposal
    | .sweepAccount | .sweepSubaccount | .sweepKey => none

end Proposal

end Opentxs.Spend
