import Opentxs.Library.Decimal
import Opentxs.Library.Hex
import Opentxs.Trading.Contents

/-! Accounts as they are held: the balance is text, from which each call parses it, and the
arithmetic of amounts ends the call with an exception where a number does not fit. -/

namespace Opentxs.Trading.Balances
open Library Spend

/-- An exception that leaves the call. -/
inductive Fault
  | overflow
  | unreadable
  deriving DecidableEq, Repr

/-! ## The text of a balance -/

def readDigit (radix value : Nat) (digit : Char) : Except Fault Nat :=
  match Hex.hexValue digit with
  | some number => if number < radix then .ok (radix * value + number) else .error .unreadable
  | none => .error .unreadable

def readRadix (radix : Nat) (digits : Text) : Except Fault Nat := digits.foldlM (readDigit radix) 0

/-- A leading zero makes the number octal. -/
def magnitude : Text → Except Fault Nat
  | '0' :: 'x' :: digits => readRadix 16 digits
  | '0' :: 'X' :: digits => readRadix 16 digits
  | '0' :: digits => readRadix 8 digits
  | digits => readRadix 10 digits

def factoryAmount : Text → Except Fault Amount
  | '-' :: digits => do
    let value ← magnitude digits
    Amount.checked .overflow (-(value : Int))
  | digits => do
    let value ← magnitude digits
    Amount.checked .overflow (value : Int)

/-! ## Debit and credit -/

/-- An account with its balance and the date of the balance. -/
structure SavedAccount where
  type : AccountType
  balanceAmount : Text
  balanceDate : Text
  deriving DecidableEq

/-- What the arithmetic of amounts can hold. -/
abbrev Integer := { amount : Amount // Amount.fits amount = true }

namespace SavedAccount

variable (account : SavedAccount) (amount : Integer) (timestamp : Text)

/-- Only an issuer goes below zero, and others that are below it may rise. -/
def settle (oldBalance newBalance : Amount) : Bool × SavedAccount :=
  if newBalance < 0 ∧ account.type.isAllowedToGoNegative = false ∧ newBalance < oldBalance then (false, account)
  else (true, { account with balanceAmount := serialize newBalance, balanceDate := timestamp })

def debitOverflows (oldBalance : Amount) : Except Fault Bool :=
  if 0 < amount.val then (Amount.checked .overflow (leastBalance + amount.val)).map fun limit => oldBalance < limit
  else if amount.val < 0 then (Amount.checked .overflow (mostBalance + amount.val)).map fun limit => limit < oldBalance
  else .ok false

def creditOverflows (oldBalance : Amount) : Except Fault Bool :=
  if 0 < amount.val then (Amount.checked .overflow (mostBalance - amount.val)).map fun limit => limit < oldBalance
  else if amount.val < 0 then (Amount.checked .overflow (leastBalance - amount.val)).map fun limit => oldBalance < limit
  else .ok false

def debit : Except Fault (Bool × SavedAccount) := do
  let oldBalance ← factoryAmount account.balanceAmount
  let newBalance ← Amount.checked .overflow (oldBalance - amount.val)
  let overflow ← debitOverflows amount oldBalance
  if overflow then .ok (false, account) else .ok (account.settle timestamp oldBalance newBalance)

def credit : Except Fault (Bool × SavedAccount) := do
  let oldBalance ← factoryAmount account.balanceAmount
  let newBalance ← Amount.checked .overflow (oldBalance + amount.val)
  let overflow ← creditOverflows amount oldBalance
  if overflow then .ok (false, account) else .ok (account.settle timestamp oldBalance newBalance)

end SavedAccount

/-! ## What is written is read -/

theorem hexValue_of_isDigit {digit : Char} (isDigit : digit.isDigit = true) : Hex.hexValue digit = some (digit.toNat - '0'.toNat) := by
  unfold Hex.hexValue
  rw [if_pos isDigit]

theorem digit_lt_ten {digit : Char} (isDigit : digit.isDigit = true) : digit.toNat - '0'.toNat < 10 := by
  have bounds : 48 ≤ digit.toNat ∧ digit.toNat ≤ 57 := Char.isDigit_iff_toNat.mp isDigit
  show digit.toNat - 48 < 10
  omega

theorem foldlM_readDigit (digits : Text) : ∀ value, Decimal.AllDigits digits →
    digits.foldlM (readDigit 10) value = .ok (Nat.ofDigitChars 10 digits value) := by
  induction digits with
  | nil =>
    intro value _
    rw [Nat.ofDigitChars_nil]
    rfl
  | cons digit digits ih =>
    intro value all
    obtain ⟨isDigit, rest⟩ := List.forall_mem_cons.mp all
    have here : readDigit 10 value digit = .ok (10 * value + (digit.toNat - '0'.toNat)) := by
      unfold readDigit
      rw [hexValue_of_isDigit isDigit]
      exact if_pos (digit_lt_ten isDigit)
    rw [List.foldlM_cons, here, Nat.ofDigitChars_cons]
    exact ih _ rest

theorem magnitude_toDigits (number : Nat) : magnitude (Nat.toDigits 10 number) = .ok number := by
  have read : readRadix 10 (Nat.toDigits 10 number) = .ok number := by
    unfold readRadix
    rw [foldlM_readDigit _ 0 (Decimal.allDigits_toDigits number), Nat.ofDigitChars_ten_toDigits]
  by_cases zero : number = 0
  · rw [zero, Nat.toDigits_zero]
    rfl
  · -- Another number does not begin with a zero, which would make it octal.
    unfold magnitude
    split
    · next written => cases Decimal.toDigits_zero_cons number _ written
    · next written => cases Decimal.toDigits_zero_cons number _ written
    · next written =>
      obtain rfl := Decimal.toDigits_zero_cons number _ written
      rw [written] at read
      have same : number = 0 := (Except.ok.inj read).symm
      exact absurd same zero
    · exact read

theorem factoryAmount_serialize (amount : Amount) : factoryAmount (serialize amount) = Amount.checked Fault.overflow amount := by
  unfold serialize
  split
  · next negative =>
    have same : -(amount.natAbs : Int) = amount := by lia
    calc
      factoryAmount ('-' :: Nat.toDigits 10 amount.natAbs) =
          (magnitude (Nat.toDigits 10 amount.natAbs)).bind fun value => Amount.checked .overflow (-(value : Int)) := rfl
      _ = Amount.checked .overflow (-(amount.natAbs : Int)) := by rw [magnitude_toDigits]; rfl
      _ = _ := by rw [same]
  · next positive =>
    have same : (amount.natAbs : Int) = amount := by lia
    have unsigned : factoryAmount (Nat.toDigits 10 amount.natAbs) =
        (magnitude (Nat.toDigits 10 amount.natAbs)).bind fun value => Amount.checked .overflow (value : Int) := by
      unfold factoryAmount
      split
      · next written =>
        have minus := Decimal.allDigits_toDigits amount.natAbs '-' (written ▸ List.mem_cons_self)
        exact absurd minus (by decide)
      · rfl
    rw [unsigned, magnitude_toDigits]
    show Amount.checked Fault.overflow (amount.natAbs : Int) = _
    rw [same]

/-! ## What a call does -/

/-- A whole part of 64 bits. -/
def InRange (balance : Amount) : Prop := leastBalance ≤ balance ∧ balance ≤ mostBalance

instance (balance : Amount) : Decidable (InRange balance) := inferInstanceAs (Decidable (_ ∧ _))

theorem fits_iff {amount : Amount} : Amount.fits amount = true ↔ -(Amount.magnitude : Int) < amount ∧ amount < Amount.magnitude := by
  unfold Amount.fits
  rw [decide_eq_true_iff]
  lia

theorem magnitude_large : (2 : Int) ^ 127 < Amount.magnitude := by
  unfold Amount.magnitude
  rw [Nat.cast_pow]
  exact pow_lt_pow_right₀ (by decide) (by decide)

theorem leastBalance_bounds : -(Amount.magnitude : Int) < leastBalance ∧ leastBalance ≤ 0 := by
  have large := magnitude_large
  have same : leastBalance = -2 ^ 127 := by decide
  lia

theorem mostBalance_bounds : 0 ≤ mostBalance ∧ mostBalance < (Amount.magnitude : Int) := by
  have large := magnitude_large
  have below : 0 ≤ mostBalance ∧ mostBalance < 2 ^ 127 := by decide
  lia

theorem InRange.fits {balance : Amount} (range : InRange balance) : Amount.fits balance = true := by
  have low := leastBalance_bounds
  have high := mostBalance_bounds
  have inside := range
  unfold InRange at inside
  exact fits_iff.mpr ⟨by lia, by lia⟩

namespace SavedAccount

/-- The balance that the text of an account stands for. -/
def Holds (account : SavedAccount) (balance : Amount) : Prop := factoryAmount account.balanceAmount = .ok balance

/-- A new balance that the arithmetic can hold is stored or refused. -/
def move (account : SavedAccount) (timestamp : Text) (oldBalance newBalance : Amount) : Except Fault (Bool × SavedAccount) :=
  if Amount.fits newBalance then .ok (if InRange newBalance then account.settle timestamp oldBalance newBalance else (false, account))
  else .error .overflow

variable {account : SavedAccount} {old : Amount} {amount : Integer} {timestamp : Text}

/-- The limits with which a balance is compared fit always, and refuse what is out of range. -/
theorem debitOverflows_eq (range : InRange old) : debitOverflows amount old = .ok (decide (¬ InRange (old - amount.val))) := by
  have low := leastBalance_bounds
  have high := mostBalance_bounds
  have inside := range
  have fit := fits_iff.mp amount.property
  unfold InRange at inside
  unfold debitOverflows
  split
  · next positive =>
    rw [Amount.checked_fits (fits_iff.mpr ⟨by lia, by lia⟩)]
    refine congrArg Except.ok (decide_eq_decide.mpr ?_)
    unfold InRange
    lia
  · split
    · next negative =>
      rw [Amount.checked_fits (fits_iff.mpr ⟨by lia, by lia⟩)]
      refine congrArg Except.ok (decide_eq_decide.mpr ?_)
      unfold InRange
      lia
    · refine congrArg Except.ok (decide_eq_false ?_).symm
      unfold InRange
      lia

theorem creditOverflows_eq (range : InRange old) : creditOverflows amount old = .ok (decide (¬ InRange (old + amount.val))) := by
  have low := leastBalance_bounds
  have high := mostBalance_bounds
  have inside := range
  have fit := fits_iff.mp amount.property
  unfold InRange at inside
  unfold creditOverflows
  split
  · next positive =>
    rw [Amount.checked_fits (fits_iff.mpr ⟨by lia, by lia⟩)]
    refine congrArg Except.ok (decide_eq_decide.mpr ?_)
    unfold InRange
    lia
  · split
    · next negative =>
      rw [Amount.checked_fits (fits_iff.mpr ⟨by lia, by lia⟩)]
      refine congrArg Except.ok (decide_eq_decide.mpr ?_)
      unfold InRange
      lia
    · refine congrArg Except.ok (decide_eq_false ?_).symm
      unfold InRange
      lia

theorem move_eq {newBalance : Amount} {overflows : Except Fault Bool} (test : overflows = .ok (decide (¬ InRange newBalance))) :
    (Amount.checked Fault.overflow newBalance >>= fun newBalance => overflows >>= fun overflow =>
      if overflow then Except.ok (false, account) else .ok (account.settle timestamp old newBalance)) = account.move timestamp old newBalance := by
  unfold move Amount.checked
  rw [test]
  split
  · show (if decide (¬ InRange newBalance) = true then Except.ok (false, account) else .ok (account.settle timestamp old newBalance)) = _
    by_cases range : InRange newBalance
    · rw [if_neg (by rw [decide_eq_true_iff]; exact not_not.mpr range), if_pos range]
    · rw [if_pos (decide_eq_true range), if_neg range]
  · rfl

theorem debit_eq (holds : account.Holds old) (range : InRange old) :
    account.debit amount timestamp = account.move timestamp old (old - amount.val) := by
  unfold debit
  rw [holds, ← move_eq (debitOverflows_eq range)]
  rfl

theorem credit_eq (holds : account.Holds old) (range : InRange old) :
    account.credit amount timestamp = account.move timestamp old (old + amount.val) := by
  unfold credit
  rw [holds, ← move_eq (creditOverflows_eq range)]
  rfl

/-- What a call may do to an account that has a balance. -/
theorem move_cases (account : SavedAccount) (timestamp : Text) (old new : Amount) :
    (Amount.fits new = false ∧ account.move timestamp old new = .error .overflow) ∨
    (Amount.fits new = true ∧ account.move timestamp old new = .ok (false, account) ∧
      (InRange new → new < 0 ∧ account.type.isAllowedToGoNegative = false ∧ new < old)) ∨
    (InRange new ∧ (account.type.isAllowedToGoNegative = true ∨ 0 ≤ new ∨ old ≤ new) ∧
      ∃ after, account.move timestamp old new = .ok (true, after) ∧ after.type = account.type ∧ after.Holds new) := by
  unfold move settle
  by_cases fit : Amount.fits new = true
  · rw [if_pos fit]
    by_cases range : InRange new
    · rw [if_pos range]
      split
      · next below => exact .inr (.inl ⟨fit, rfl, fun _ => below⟩)
      · next bears =>
        refine .inr (.inr ⟨range, ?_, _, rfl, rfl, ?_⟩)
        · cases negative : account.type.isAllowedToGoNegative with
          | true => exact .inl rfl
          | false =>
            rw [negative] at bears
            by_cases under : new < 0
            · exact .inr (.inr (not_lt.mp fun less => bears ⟨under, rfl, less⟩))
            · exact .inr (.inl (not_lt.mp under))
        · show factoryAmount (serialize new) = .ok new
          rw [factoryAmount_serialize, Amount.checked_fits fit]
    · rw [if_neg range]
      exact .inr (.inl ⟨fit, rfl, fun inside => absurd inside range⟩)
  · rw [if_neg fit]
    exact .inl ⟨Bool.not_eq_true _ ▸ fit, rfl⟩

/-! ## Runs -/

inductive Call
  | debit (amount : Integer) (timestamp : Text)
  | credit (amount : Integer) (timestamp : Text)

def apply (account : SavedAccount) : Call → Except Fault (Bool × SavedAccount)
  | .debit amount timestamp => account.debit amount timestamp
  | .credit amount timestamp => account.credit amount timestamp

/-- An exception comes before anything is stored. -/
def step (account : SavedAccount) (call : Call) : SavedAccount :=
  match account.apply call with
  | .ok (_, after) => after
  | .error _ => account

def run (account : SavedAccount) (calls : List Call) : SavedAccount := calls.foldl step account

theorem step_covered (holds : account.Holds old) (range : InRange old) (call : Call) :
    ∃ new, (account.step call).Holds new ∧ InRange new ∧ (account.step call).type = account.type ∧
      (account.type.isAllowedToGoNegative = false → 0 ≤ old → 0 ≤ new) := by
  have moves : ∃ timestamp new, account.apply call = account.move timestamp old new := by
    cases call with
    | debit amount timestamp => exact ⟨timestamp, _, debit_eq holds range⟩
    | credit amount timestamp => exact ⟨timestamp, _, credit_eq holds range⟩
  obtain ⟨timestamp, new, same⟩ := moves
  unfold step
  rw [same]
  rcases account.move_cases timestamp old new with ⟨_, failed⟩ | ⟨_, refused, _⟩ | ⟨inside, bears, after, moved, type, stored⟩
  · rw [failed]
    exact ⟨old, holds, range, rfl, fun _ covered => covered⟩
  · rw [refused]
    exact ⟨old, holds, range, rfl, fun _ covered => covered⟩
  · rw [moved]
    refine ⟨new, stored, inside, type, fun user covered => ?_⟩
    rcases bears with issuer | above | risen
    · rw [user] at issuer
      cases issuer
    · exact above
    · exact covered.trans risen

theorem run_covered (calls : List Call) : ∀ (account : SavedAccount) (old : Amount), account.Holds old → InRange old →
    ∃ new, (account.run calls).Holds new ∧ InRange new ∧ (account.type.isAllowedToGoNegative = false → 0 ≤ old → 0 ≤ new) := by
  induction calls with
  | nil => exact fun account old holds range => ⟨old, holds, range, fun _ covered => covered⟩
  | cons call calls ih =>
    intro account old holds range
    obtain ⟨middle, stored, inside, type, kept⟩ := step_covered holds range call
    obtain ⟨new, final, within, later⟩ := ih (account.step call) middle stored inside
    exact ⟨new, final, within, fun user covered => later (by rw [type]; exact user) (kept user covered)⟩

/-! ## Exact and reversible -/

/-- A call refuses and changes nothing, or stores exactly this balance. -/
def Stores (account : SavedAccount) (target : Amount) (result : Except Fault (Bool × SavedAccount)) : Prop :=
  result = .ok (false, account) ∨ (InRange target ∧ ∃ after, result = .ok (true, after) ∧ after.type = account.type ∧ after.Holds target)

theorem move_stores_iff {new : Amount} : account.Stores new (account.move timestamp old new) ↔ Amount.fits new = true := by
  unfold Stores
  rcases account.move_cases timestamp old new with ⟨large, failed⟩ | ⟨fit, refused, _⟩ | ⟨inside, _, after, moved, type, stored⟩
  · rw [failed, large]
    exact iff_of_false (fun either => either.elim (fun same => nomatch same) fun ⟨_, _, same, _⟩ => nomatch same) Bool.false_ne_true
  · exact iff_of_true (.inl refused) fit
  · exact iff_of_true (.inr ⟨inside, after, moved, type, stored⟩) inside.fits

structure Exact (account : SavedAccount) (old : Amount) (amount : Integer) : Prop where
  debit : ∀ timestamp, account.Stores (old - amount.val) (account.debit amount timestamp)
  credit : ∀ timestamp, account.Stores (old + amount.val) (account.credit amount timestamp)
  reversible : account.type = .user → 0 ≤ old → 0 < amount.val → ∀ timestamp after, account.debit amount timestamp = .ok (true, after) →
    ∀ later, ∃ final, after.credit amount later = .ok (true, final) ∧ final.Holds old
  covered : account.type = .user → 0 ≤ old → ∀ calls, ∃ new, 0 ≤ new ∧ (account.run calls).Holds new

theorem debit_undone (holds : account.Holds old) (range : InRange old) (positive : 0 ≤ old) {after : SavedAccount} {later : Text}
    (made : account.debit amount timestamp = .ok (true, after)) :
    ∃ final, after.credit amount later = .ok (true, final) ∧ final.Holds old := by
  rw [debit_eq holds range] at made
  rcases account.move_cases timestamp old (old - amount.val) with ⟨_, failed⟩ | ⟨_, refused, _⟩ | ⟨inside, _, other, moved, _, stored⟩
  · cases failed.symm.trans made
  · cases refused.symm.trans made
  · obtain rfl : other = after := congrArg Prod.snd (Except.ok.inj (moved.symm.trans made))
    have back : old - amount.val + amount.val = old := by lia
    rw [credit_eq stored inside, back]
    rcases other.move_cases later (old - amount.val) old with ⟨large, _⟩ | ⟨_, _, below⟩ | ⟨_, _, final, undone, _, held⟩
    · cases large.symm.trans range.fits
    · exact absurd (below range).1 (not_lt.mpr positive)
    · exact ⟨final, undone, held⟩

/-- A call refuses what is out of range only after it has computed it, and the computation has 320 bits. -/
theorem arithmetic_exact_iff (account : SavedAccount) (old : Amount) (holds : account.Holds old) (range : InRange old) (amount : Integer) :
    account.Exact old amount ↔ Amount.fits (old - amount.val) = true ∧ Amount.fits (old + amount.val) = true := by
  constructor
  · intro exact_
    have debit := exact_.debit []
    have credit := exact_.credit []
    rw [debit_eq holds range, move_stores_iff] at debit
    rw [credit_eq holds range, move_stores_iff] at credit
    exact ⟨debit, credit⟩
  · rintro ⟨less, more⟩
    exact
      { debit := fun timestamp => by
          rw [debit_eq holds range]
          exact move_stores_iff.mpr less
        credit := fun timestamp => by
          rw [credit_eq holds range]
          exact move_stores_iff.mpr more
        reversible := fun _ positive _ timestamp after made later => debit_undone holds range positive made
        covered := by
          intro user positive calls
          obtain ⟨new, stored, _, kept⟩ := run_covered calls account old holds range
          refine ⟨new, kept ?_ positive, stored⟩
          rw [user]
          rfl }

/-- One unit is taken from seven. -/
theorem seven_exact : (SavedAccount.mk .user (serialize 7) []).Exact 7 ⟨1, InRange.fits (by decide)⟩ :=
  (arithmetic_exact_iff ⟨.user, serialize 7, []⟩ 7 ((factoryAmount_serialize 7).trans (Amount.checked_fits (InRange.fits (by decide)))) (by decide) _).mpr
    ⟨InRange.fits (by decide), InRange.fits (by decide)⟩

/-- The greatest amount is added to a balance of one part. -/
theorem great_credit_ends : ¬ ∀ (account : SavedAccount) (old : Amount), account.Holds old → InRange old →
    ∀ amount : Integer, account.Exact old amount := by
  intro claim
  have holds : (SavedAccount.mk .user (serialize 1) []).Holds 1 :=
    (factoryAmount_serialize 1).trans (Amount.checked_fits (InRange.fits (by decide)))
  have greatest : Amount.fits ((Amount.magnitude : Int) - 1) = true := by
    have large := magnitude_large
    exact fits_iff.mpr ⟨by lia, by lia⟩
  have credit := (claim _ 1 holds (by decide) ⟨_, greatest⟩).credit []
  rw [credit_eq holds (by decide), move_stores_iff] at credit
  have below := (fits_iff.mp credit).2
  change 1 + ((Amount.magnitude : Int) - 1) < Amount.magnitude at below
  omega

/-! ## Accounts with their balances -/

def Represents (saved : SavedAccount) (held : Account) : Prop := saved.type = held.type ∧ saved.Holds held.balance

/-- A call that refuses or throws changes nothing. -/
def after (held : Account) : Call → Account
  | .debit amount _ => (held.debit amount.val).getD held
  | .credit amount _ => (held.credit amount.val).getD held

theorem step_refines {held : Account} (same : account.Represents held) (call : Call) : (account.step call).Represents (after held call) := by
  obtain ⟨type, holds⟩ := same
  have moves : ∃ timestamp new result, account.apply call = account.move timestamp held.balance new ∧ after held call = result.getD held ∧
      ((held.type.Holds new ∧ ∃ next, result = some next ∧ held.Becomes new next) ∨ ¬ held.type.Holds new ∧ result = none) := by
    cases call with
    | debit amount timestamp =>
      exact ⟨timestamp, _, _, debit_eq holds ⟨held.holds.1, held.holds.2.1⟩, rfl, held.debit_cases amount.val⟩
    | credit amount timestamp =>
      exact ⟨timestamp, _, _, credit_eq holds ⟨held.holds.1, held.holds.2.1⟩, rfl, held.credit_cases amount.val⟩
  obtain ⟨timestamp, new, result, applied, outcome, does⟩ := moves
  have stays (refused : ¬ held.type.Holds new) : account.Represents (result.getD held) := by
    rw [(does.resolve_left fun taken => refused taken.1).2]
    exact ⟨type, holds⟩
  unfold step
  rw [applied, outcome]
  rcases account.move_cases timestamp held.balance new with ⟨large, failed⟩ | ⟨_, refused, below⟩ | ⟨inside, bears, next, moved, nextType, stored⟩
  · rw [failed]
    exact stays fun bearable => Bool.false_ne_true (large.symm.trans (InRange.fits ⟨bearable.1, bearable.2.1⟩))
  · rw [refused]
    refine stays fun bearable => ?_
    obtain ⟨under, user, _⟩ := below ⟨bearable.1, bearable.2.1⟩
    rw [type] at user
    rcases bearable.2.2 with issuer | above
    · cases user.symm.trans issuer
    · exact absurd under (not_lt.mpr above)
  · have bearable : held.type.Holds new := by
      refine ⟨inside.1, inside.2, ?_⟩
      rw [← type]
      rcases bears with issuer | above | risen
      · exact .inl issuer
      · exact .inr above
      · rw [type]
        exact held.holds.2.2.imp id fun covered => covered.trans risen
    obtain ⟨_, other, rfl, became⟩ := does.resolve_right fun refuses => refuses.1 bearable
    rw [moved]
    refine ⟨nextType.trans (type.trans became.1.symm), ?_⟩
    show next.Holds other.balance
    rw [became.2.2]
    exact stored

/-- Calls do to the stored text of a balance what they do to the balance as a number, also when it does not fit. -/
theorem run_refines (calls : List Call) : ∀ {account : SavedAccount} {held : Account}, account.Represents held →
    (account.run calls).Represents (calls.foldl after held) := by
  induction calls with
  | nil => exact id
  | cons call calls ih => exact fun same => ih (step_refines same call)

/-- Nine of seven parts are too many, and two more are taken. -/
theorem seven_refined : ((SavedAccount.mk .user (serialize 7) []).run
    [.debit ⟨9, InRange.fits (by decide)⟩ [], .credit ⟨2, InRange.fits (by decide)⟩ []]).Holds 9 :=
  (@run_refines _ (.mk .user (serialize 7) []) ⟨.user, 0, 7, by decide, by decide, .inr (by decide)⟩
    ⟨rfl, (factoryAmount_serialize 7).trans (Amount.checked_fits (InRange.fits (by decide)))⟩).2

end SavedAccount

end Opentxs.Trading.Balances
