import Opentxs.Spend.Amount

/-! Accounts. A balance is a 64-bit number of units, and only issuers owe. -/

namespace Opentxs.Trading
open Spend

abbrev AccountID := Nat
abbrev UnitDefinition := Nat

inductive AccountType
  | user
  | issuer
  | basket
  | basketsub
  | mint
  | voucher
  | stash
  | errAcct
  deriving DecidableEq, Repr

def AccountType.isAllowedToGoNegative : AccountType → Bool
  | .issuer | .basket => true
  | .user | .basketsub | .mint | .voucher | .stash | .errAcct => false

def leastBalance : Amount := Amount.shiftLeft (-2 ^ 63)

def mostBalance : Amount := Amount.shiftLeft (2 ^ 63 - 1)

/-- What the balance of an account may be. -/
def AccountType.Holds (type : AccountType) (balance : Amount) : Prop :=
  leastBalance ≤ balance ∧ balance ≤ mostBalance ∧ (type.isAllowedToGoNegative = true ∨ 0 ≤ balance)

theorem AccountType.Holds.moved {type : AccountType} {balance after : Amount} (holds : type.Holds balance)
    (low : leastBalance ≤ after) (high : after ≤ mostBalance)
    (below : ¬ (after < 0 ∧ type.isAllowedToGoNegative = false ∧ after < balance)) : type.Holds after := by
  refine ⟨low, high, ?_⟩
  cases negative : type.isAllowedToGoNegative with
  | true => exact .inl rfl
  | false =>
    rcases holds.2.2 with issuer | covered
    · rw [negative] at issuer
      cases issuer
    · right
      by_contra owes
      exact below ⟨by lia, negative, by lia⟩

structure Account where
  type : AccountType := .user
  instrumentDefinitionID : UnitDefinition
  balance : Amount := 0
  holds : type.Holds balance
  deriving DecidableEq

namespace Account

variable {account other : Account} {amount : Amount}

def debit (account : Account) (amount : Amount) : Option Account :=
  if overflow : 0 < amount ∧ account.balance < leastBalance + amount ∨ amount < 0 ∧ mostBalance + amount < account.balance then none
  else if below : account.balance - amount < 0 ∧ account.type.isAllowedToGoNegative = false ∧
      account.balance - amount < account.balance then none
  else
    some { account with
      balance := account.balance - amount
      holds := by
        obtain ⟨low, high, _⟩ := account.holds
        exact account.holds.moved (by lia) (by lia) below }

def credit (account : Account) (amount : Amount) : Option Account :=
  if overflow : 0 < amount ∧ mostBalance - amount < account.balance ∨ amount < 0 ∧ account.balance < leastBalance - amount then none
  else if below : account.balance + amount < 0 ∧ account.type.isAllowedToGoNegative = false ∧
      account.balance + amount < account.balance then none
  else
    some { account with
      balance := account.balance + amount
      holds := by
        obtain ⟨low, high, _⟩ := account.holds
        exact account.holds.moved (by lia) (by lia) below }

/-- The same account with another balance. -/
def Becomes (account : Account) (balance : Amount) (after : Account) : Prop :=
  after.type = account.type ∧ after.instrumentDefinitionID = account.instrumentDefinitionID ∧ after.balance = balance

theorem Becomes.unique {balance : Amount} {after again : Account} (first : account.Becomes balance after)
    (second : account.Becomes balance again) : after = again := by
  cases after
  cases again
  obtain ⟨rfl, rfl, rfl⟩ := first
  obtain ⟨rfl, rfl, rfl⟩ := second
  rfl

/-- A debit that the account can bear is made, and no other. -/
theorem debit_cases (account : Account) (amount : Amount) :
    (account.type.Holds (account.balance - amount) ∧ ∃ after, account.debit amount = some after ∧
      account.Becomes (account.balance - amount) after) ∨
    ¬ account.type.Holds (account.balance - amount) ∧ account.debit amount = none := by
  unfold debit
  split
  · rename_i overflow
    exact .inr ⟨fun bears => by have := bears.1; have := bears.2.1; lia, rfl⟩
  · split
    · rename_i below
      refine .inr ⟨fun bears => ?_, rfl⟩
      rcases bears.2.2 with issuer | covered
      · rw [below.2.1] at issuer
        cases issuer
      · lia
    · obtain ⟨low, high, _⟩ := account.holds
      exact .inl ⟨account.holds.moved (by lia) (by lia) ‹_›, _, rfl, rfl, rfl, rfl⟩

theorem credit_cases (account : Account) (amount : Amount) :
    (account.type.Holds (account.balance + amount) ∧ ∃ after, account.credit amount = some after ∧
      account.Becomes (account.balance + amount) after) ∨
    ¬ account.type.Holds (account.balance + amount) ∧ account.credit amount = none := by
  unfold credit
  split
  · rename_i overflow
    exact .inr ⟨fun bears => by have := bears.1; have := bears.2.1; lia, rfl⟩
  · split
    · rename_i below
      refine .inr ⟨fun bears => ?_, rfl⟩
      rcases bears.2.2 with issuer | covered
      · rw [below.2.1] at issuer
        cases issuer
      · lia
    · obtain ⟨low, high, _⟩ := account.holds
      exact .inl ⟨account.holds.moved (by lia) (by lia) ‹_›, _, rfl, rfl, rfl, rfl⟩

theorem debit_isSome (account : Account) (amount : Amount) :
    (account.debit amount).isSome = true ↔ account.type.Holds (account.balance - amount) := by
  rcases account.debit_cases amount with ⟨bears, after, done, _⟩ | ⟨refuses, done⟩
  · exact ⟨fun _ => bears, fun _ => by rw [done]; rfl⟩
  · exact ⟨fun some => (by rw [done] at some; cases some), fun bears => absurd bears refuses⟩

theorem credit_isSome (account : Account) (amount : Amount) :
    (account.credit amount).isSome = true ↔ account.type.Holds (account.balance + amount) := by
  rcases account.credit_cases amount with ⟨bears, after, done, _⟩ | ⟨refuses, done⟩
  · exact ⟨fun _ => bears, fun _ => by rw [done]; rfl⟩
  · exact ⟨fun some => (by rw [done] at some; cases some), fun bears => absurd bears refuses⟩

theorem debit_becomes (bears : account.type.Holds (account.balance - amount)) :
    account.Becomes (account.balance - amount) ((account.debit amount).getD account) := by
  rcases account.debit_cases amount with ⟨_, after, done, became⟩ | ⟨refuses, _⟩
  · rw [done]
    exact became
  · exact absurd bears refuses

theorem credit_becomes (bears : account.type.Holds (account.balance + amount)) :
    account.Becomes (account.balance + amount) ((account.credit amount).getD account) := by
  rcases account.credit_cases amount with ⟨_, after, done, became⟩ | ⟨refuses, _⟩
  · rw [done]
    exact became
  · exact absurd bears refuses

/-- A debit is undone by a credit. -/
theorem debit_undone (account : Account) (amount : Amount) :
    (if (account.debit amount).isSome then
      (((account.debit amount).getD account).credit amount).getD ((account.debit amount).getD account)
    else (account.debit amount).getD account) = account := by
  rcases account.debit_cases amount with ⟨_, after, done, became⟩ | ⟨_, done⟩
  · have back : after.balance + amount = account.balance := by rw [became.2.2]; lia
    rw [done]
    show (after.credit amount).getD after = account
    rcases after.credit_cases amount with ⟨_, again, undone, same⟩ | ⟨refuses, _⟩
    · rw [undone]
      exact same.unique ⟨became.1.symm, became.2.1.symm, back.symm⟩
    · rw [back, became.1] at refuses
      exact absurd account.holds refuses
  · rw [done]
    rfl

theorem credit_undone (account : Account) (amount : Amount) :
    (if (account.credit amount).isSome then
      (((account.credit amount).getD account).debit amount).getD ((account.credit amount).getD account)
    else (account.credit amount).getD account) = account := by
  rcases account.credit_cases amount with ⟨_, after, done, became⟩ | ⟨_, done⟩
  · have back : after.balance - amount = account.balance := by rw [became.2.2]; lia
    rw [done]
    show (after.debit amount).getD after = account
    rcases after.debit_cases amount with ⟨_, again, undone, same⟩ | ⟨refuses, _⟩
    · rw [undone]
      exact same.unique ⟨became.1.symm, became.2.1.symm, back.symm⟩
    · rw [back, became.1] at refuses
      exact absurd account.holds refuses
  · rw [done]
    rfl

end Account

end Opentxs.Trading
