import Opentxs.Library.Ordered
import Mathlib.Data.Finset.Erase
import Mathlib.Data.Finset.Insert
import Mathlib.Data.List.Nodup

/-! A key is reserved for a contact and a purpose, and has the transactions that were seen
of it. Together with its last activity they say whether it can be given to another. -/

namespace Opentxs.Subaccount

abbrev Contact := List UInt8

abbrev Txid := List UInt8

/-- Times are in nanoseconds. -/
def second : Nat := 1000000000

def hour : Nat := 3600 * second

/-- The subchains of a subaccount. -/
inductive Direction
  | internal
  | external
  deriving DecidableEq

/-- A subaccount derives its keys from a seed, or from the payment codes of two parties. -/
inductive Kind
  | hd
  | paymentCode (contact : Contact) (known : contact ≠ [])

namespace Kind

def getContact : Kind → Contact
  | hd => []
  | paymentCode contact _ => contact

/-- The contact of a payment code stays with all its keys. -/
def isPaymentCode : Kind → Bool
  | hd => false
  | paymentCode .. => true

def setContact : Kind → Direction → Bool
  | hd, .internal => false
  | hd, .external => true
  | paymentCode .., _ => false

end Kind

structure Element where
  label : String := ""
  contact : Contact := []
  timestamp : Nat := 0
  unconfirmed : Finset Txid := ∅
  confirmed : Finset Txid := ∅

inductive Availability
  | neverUsed
  | reissue
  | used
  | metadataConflict
  | reserved
  | staleUnconfirmed
  deriving DecidableEq

def unconfirmedLimit : Nat := 24 * 7

def reservedLimit : Nat := 24 * 2

/-- Who asks for a key, what for and when. -/
structure Request where
  contact : Contact := []
  label : String := ""
  now : Nat

namespace Element

variable (element : Element)

/-- Whole hours count, and what lies ahead of the clock has no age. -/
def isAvailable (request : Request) : Availability :=
  if element.confirmed ≠ ∅ then .used
  else
    let age := (request.now - element.timestamp) / hour
    let haveMetadata := element.contact ≠ [] ∨ element.label ≠ ""
    let isMatch := haveMetadata ∧ element.contact = request.contact ∧ element.label = request.label
    if unconfirmedLimit < age then
      if isMatch then .reissue
      else if haveMetadata then .metadataConflict
      else if element.unconfirmed ≠ ∅ then .staleUnconfirmed
      else .neverUsed
    else if reservedLimit < age then
      if element.unconfirmed ≠ ∅ then .reserved
      else if isMatch then .reissue
      else if haveMetadata then .metadataConflict
      else .neverUsed
    else .reserved

def setMetadata (isPaymentCode : Bool) (contact : Contact) (label : String) : Element :=
  { element with contact := if isPaymentCode then element.contact else contact, label }

def reserve (time : Nat) : Element := { element with timestamp := time }

/-- A transaction without an id is not taken. -/
def confirm (now : Nat) (tx : Txid) : Option Element :=
  if tx = [] then none
  else some { element with unconfirmed := element.unconfirmed.erase tx, confirmed := insert tx element.confirmed, timestamp := now }

def unconfirm (time : Nat) (tx : Txid) : Option Element :=
  if tx = [] then none
  else some { element with unconfirmed := insert tx element.unconfirmed, confirmed := element.confirmed.erase tx, timestamp := time }

/-- As it comes back from what was stored: the time has whole seconds only. -/
def serialize : Element := { element with timestamp := element.timestamp / second * second }

/-! ## What the answers mean -/

variable {element : Element} {request : Request}

theorem isAvailable_eq_used : element.isAvailable request = .used ↔ element.confirmed ≠ ∅ := by
  unfold isAvailable
  constructor
  · intro used
    by_contra none
    rw [if_neg (not_not_intro none)] at used
    grind
  · exact fun some => if_pos some

/-- For two days nobody else gets a key that was reserved. -/
theorem isAvailable_reserved (unused : element.confirmed = ∅) (recent : request.now ≤ element.timestamp + reservedLimit * hour) :
    element.isAvailable request = .reserved := by
  have age : (request.now - element.timestamp) / hour ≤ reservedLimit := by
    apply Nat.div_le_of_le_mul
    rw [Nat.mul_comm]
    omega
  have younger : ¬ unconfirmedLimit < (request.now - element.timestamp) / hour :=
    Nat.not_lt_of_le (age.trans (by decide))
  unfold isAvailable
  rw [if_neg (not_not_intro unused)]
  exact (if_neg younger).trans (if_neg (Nat.not_lt_of_le age))

/-- One who gets a key waited a whole hour more. -/
theorem reservedLimit_lt (unused : element.confirmed = ∅) (free : element.isAvailable request ≠ .reserved) :
    element.timestamp + (reservedLimit + 1) * hour ≤ request.now := by
  by_contra early
  have age : (request.now - element.timestamp) / hour ≤ reservedLimit := by
    apply Nat.le_of_lt_succ
    rw [Nat.div_lt_iff_lt_mul (by decide)]
    unfold reservedLimit hour second at *
    omega
  have younger : ¬ unconfirmedLimit < (request.now - element.timestamp) / hour :=
    Nat.not_lt_of_le (age.trans (by decide))
  apply free
  unfold isAvailable
  rw [if_neg (not_not_intro unused)]
  exact (if_neg younger).trans (if_neg (Nat.not_lt_of_le age))

variable {now : Nat} {tx : Txid}

theorem confirm_some (named : tx ≠ []) : ∃ after, element.confirm now tx = some after ∧ after.confirmed ≠ ∅ ∧ after.timestamp = now :=
  ⟨_, if_neg named, Finset.insert_ne_empty tx element.confirmed, rfl⟩

theorem unconfirm_some (named : tx ≠ []) :
    ∃ after, element.unconfirm now tx = some after ∧ after.confirmed ⊆ element.confirmed ∧ after.timestamp = now :=
  ⟨_, if_neg named, Finset.erase_subset tx element.confirmed, rfl⟩

end Element

end Opentxs.Subaccount
