import Opentxs.Trading.Account
import Mathlib.Tactic.Ring

/-! Two traders exchange assets for currency in rounds. A round moves funds in four accounts, or is
rolled back. -/

namespace Opentxs.Trading
open Spend

/-- The four accounts of an exchange. The seller's assets and the buyer's currency are debited. -/
structure Legs where
  assetDebit : Account
  currencyDebit : Account
  assetCredit : Account
  currencyCredit : Account
  deriving DecidableEq

namespace Legs

variable (legs : Legs) (increment price available otherAvailable : Amount)

/-- A move that was not made is not taken back. -/
def rollbackFourAccounts (move1 : Bool) (amount1 : Amount) (move2 : Bool) (amount2 : Amount) (move3 : Bool) (amount3 : Amount)
    (move4 : Bool) (amount4 : Amount) : Legs where
  assetDebit := if move1 then (legs.assetDebit.credit amount1).getD legs.assetDebit else legs.assetDebit
  currencyDebit := if move2 then (legs.currencyDebit.credit amount2).getD legs.currencyDebit else legs.currencyDebit
  assetCredit := if move3 then (legs.assetCredit.debit amount3).getD legs.assetCredit else legs.assetCredit
  currencyCredit := if move4 then (legs.currencyCredit.debit amount4).getD legs.currencyCredit else legs.currencyCredit

def round : Legs × Bool :=
  let move1 := legs.assetDebit.debit increment
  let move2 := legs.currencyDebit.debit price
  let move3 := legs.assetCredit.credit increment
  let move4 := legs.currencyCredit.credit price
  let moved : Legs :=
    ⟨move1.getD legs.assetDebit, move2.getD legs.currencyDebit, move3.getD legs.assetCredit, move4.getD legs.currencyCredit⟩
  if move1.isSome && move2.isSome && move3.isSome && move4.isSome then (moved, true)
  else (moved.rollbackFourAccounts move1.isSome increment move2.isSome price move3.isSome increment move4.isSome price, false)

end Legs

/-- What the rounds so far have come to. -/
structure Rounds where
  legs : Legs
  success : Bool := false
  offerFinished : Amount := 0
  otherOfferFinished : Amount := 0
  totalPaidOut : Amount := 0
  deriving DecidableEq

/-- A round that fails is the last one. The loop may run on without end. -/
def Rounds.run (increment price available otherAvailable : Amount) : Nat → Rounds → Option Rounds
  | 0, _ => none
  | fuel + 1, rounds =>
    if increment ≤ available - rounds.offerFinished ∧ increment ≤ otherAvailable - rounds.otherOfferFinished ∧
        increment ≤ rounds.legs.assetDebit.balance ∧ price ≤ rounds.legs.currencyDebit.balance then
      let round := rounds.legs.round increment price
      if round.2 then
        Rounds.run increment price available otherAvailable fuel
          { legs := round.1
            success := true
            offerFinished := rounds.offerFinished + increment
            otherOfferFinished := rounds.otherOfferFinished + increment
            totalPaidOut := rounds.totalPaidOut + price }
      else some { rounds with legs := round.1, success := false }
    else some rounds

/-! ## One round -/

namespace Legs

variable {legs after later : Legs} {increment price available otherAvailable assets currency more extra : Amount}

/-- Whether all four accounts can bear that so much moves. -/
def Bears (legs : Legs) (assets currency : Amount) : Prop :=
  legs.assetDebit.type.Holds (legs.assetDebit.balance - assets) ∧
    legs.currencyDebit.type.Holds (legs.currencyDebit.balance - currency) ∧
    legs.assetCredit.type.Holds (legs.assetCredit.balance + assets) ∧
    legs.currencyCredit.type.Holds (legs.currencyCredit.balance + currency)

/-- So much has moved. -/
structure Becomes (legs : Legs) (assets currency : Amount) (after : Legs) : Prop where
  assetDebit : legs.assetDebit.Becomes (legs.assetDebit.balance - assets) after.assetDebit
  currencyDebit : legs.currencyDebit.Becomes (legs.currencyDebit.balance - currency) after.currencyDebit
  assetCredit : legs.assetCredit.Becomes (legs.assetCredit.balance + assets) after.assetCredit
  currencyCredit : legs.currencyCredit.Becomes (legs.currencyCredit.balance + currency) after.currencyCredit

theorem becomes_zero (legs : Legs) : legs.Becomes 0 0 legs :=
  ⟨⟨rfl, rfl, (Int.sub_zero _).symm⟩, ⟨rfl, rfl, (Int.sub_zero _).symm⟩, ⟨rfl, rfl, (Int.add_zero _).symm⟩, rfl, rfl, (Int.add_zero _).symm⟩

theorem Becomes.trans (first : legs.Becomes assets currency after) (second : after.Becomes more extra later) :
    legs.Becomes (assets + more) (currency + extra) later where
  assetDebit := ⟨second.assetDebit.1.trans first.assetDebit.1, second.assetDebit.2.1.trans first.assetDebit.2.1,
    by rw [second.assetDebit.2.2, first.assetDebit.2.2]; lia⟩
  currencyDebit := ⟨second.currencyDebit.1.trans first.currencyDebit.1, second.currencyDebit.2.1.trans first.currencyDebit.2.1,
    by rw [second.currencyDebit.2.2, first.currencyDebit.2.2]; lia⟩
  assetCredit := ⟨second.assetCredit.1.trans first.assetCredit.1, second.assetCredit.2.1.trans first.assetCredit.2.1,
    by rw [second.assetCredit.2.2, first.assetCredit.2.2]; lia⟩
  currencyCredit := ⟨second.currencyCredit.1.trans first.currencyCredit.1, second.currencyCredit.2.1.trans first.currencyCredit.2.1,
    by rw [second.currencyCredit.2.2, first.currencyCredit.2.2]; lia⟩

theorem Becomes.bears_iff (became : legs.Becomes assets currency after) :
    after.Bears more extra ↔ legs.Bears (assets + more) (currency + extra) := by
  unfold Bears
  rw [became.assetDebit.1, became.assetDebit.2.2, became.currencyDebit.1, became.currencyDebit.2.2, became.assetCredit.1,
    became.assetCredit.2.2, became.currencyCredit.1, became.currencyCredit.2.2, Int.sub_sub, Int.sub_sub, Int.add_assoc, Int.add_assoc]

/-- What moved in a round that fails goes back. -/
theorem round_cases (legs : Legs) (increment price : Amount) :
    legs.Bears increment price ∧ (legs.round increment price).2 = true ∧ legs.Becomes increment price (legs.round increment price).1 ∨
      ¬ legs.Bears increment price ∧ legs.round increment price = (legs, false) := by
  have all : ((legs.assetDebit.debit increment).isSome && (legs.currencyDebit.debit price).isSome &&
      (legs.assetCredit.credit increment).isSome && (legs.currencyCredit.credit price).isSome) = true ↔ legs.Bears increment price := by
    rw [Bool.and_eq_true, Bool.and_eq_true, Bool.and_eq_true, and_assoc, and_assoc, Account.debit_isSome, Account.debit_isSome,
      Account.credit_isSome, Account.credit_isSome]
    rfl
  by_cases bears : legs.Bears increment price
  · have done : legs.round increment price = (_, true) := if_pos (all.mpr bears)
    rw [done]
    exact .inl ⟨bears, rfl, Account.debit_becomes bears.1, Account.debit_becomes bears.2.1, Account.credit_becomes bears.2.2.1,
      Account.credit_becomes bears.2.2.2⟩
  · have failed : legs.round increment price = (_, false) := if_neg fun every => bears (all.mp every)
    refine .inr ⟨bears, failed.trans (congrArg (·, false) ?_)⟩
    show Legs.mk _ _ _ _ = Legs.mk _ _ _ _
    rw [Account.debit_undone, Account.debit_undone, Account.credit_undone, Account.credit_undone]

/-! ## All rounds -/

/-- Whether there is enough for one more round after so many. -/
def Enters (legs : Legs) (increment price available otherAvailable : Amount) (count : Nat) : Prop :=
  increment ≤ available - count * increment ∧ increment ≤ otherAvailable - count * increment ∧
    increment ≤ legs.assetDebit.balance - count * increment ∧ price ≤ legs.currencyDebit.balance - count * price

/-- Whether the accounts can bear one more round after so many. -/
def Accepts (legs : Legs) (increment price : Amount) (count : Nat) : Prop :=
  legs.Bears (count * increment + increment) (count * price + price)

/-- Once a first round is made, no later one is refused. -/
def Settles (legs : Legs) (increment price available otherAvailable : Amount) : Prop :=
  legs.Accepts increment price 0 → ∀ count, (∀ earlier ≤ count, legs.Enters increment price available otherAvailable earlier) →
    legs.Accepts increment price count

end Legs

/-- The rounds add up to so many. -/
structure Rounds.Counts (legs : Legs) (increment price : Amount) (count : Nat) (rounds : Rounds) : Prop where
  legs : legs.Becomes (count * increment) (count * price) rounds.legs
  offerFinished : rounds.offerFinished = count * increment
  otherOfferFinished : rounds.otherOfferFinished = count * increment
  totalPaidOut : rounds.totalPaidOut = count * price

/-- All rounds up to the last one were made. It was not entered, or it failed. -/
structure Rounds.Ends (legs : Legs) (increment price available otherAvailable : Amount) (count : Nat) (rounds : Rounds) : Prop where
  counts : rounds.Counts legs increment price count
  made : ∀ earlier < count, legs.Enters increment price available otherAvailable earlier ∧ legs.Accepts increment price earlier
  last : ¬ legs.Enters increment price available otherAvailable count ∧ rounds.success = decide (0 < count) ∨
    legs.Enters increment price available otherAvailable count ∧ ¬ legs.Accepts increment price count ∧ rounds.success = false

namespace Rounds

variable {legs : Legs} {increment price available otherAvailable : Amount} {count : Nat} {rounds : Rounds}

theorem counts_start (legs : Legs) (increment price : Amount) : Counts legs increment price 0 { legs := legs } := by
  have none (amount : Amount) : ((0 : Nat) : Amount) * amount = 0 := Int.zero_mul amount
  constructor
  · rw [none, none]
    exact legs.becomes_zero
  all_goals exact (none _).symm

/-- The condition of the loop. -/
theorem Counts.enters_iff (counts : rounds.Counts legs increment price count) :
    increment ≤ available - rounds.offerFinished ∧ increment ≤ otherAvailable - rounds.otherOfferFinished ∧
        increment ≤ rounds.legs.assetDebit.balance ∧ price ≤ rounds.legs.currencyDebit.balance ↔
      legs.Enters increment price available otherAvailable count := by
  rw [counts.offerFinished, counts.otherOfferFinished, counts.legs.assetDebit.2.2, counts.legs.currencyDebit.2.2]
  rfl

theorem succ_mul (count : Nat) (amount : Amount) : ((count + 1 : Nat) : Amount) * amount = count * amount + amount := by
  rw [Int.natCast_add]
  exact (Int.add_mul _ _ _).trans (congrArg _ (Int.one_mul _))

theorem Counts.next (counts : rounds.Counts legs increment price count) {moved : Legs}
    (became : rounds.legs.Becomes increment price moved) :
    Counts legs increment price (count + 1)
      { legs := moved
        success := true
        offerFinished := rounds.offerFinished + increment
        otherOfferFinished := rounds.otherOfferFinished + increment
        totalPaidOut := rounds.totalPaidOut + price } := by
  constructor
  · rw [succ_mul, succ_mul]
    exact counts.legs.trans became
  · exact (congrArg (· + increment) counts.offerFinished).trans (succ_mul count increment).symm
  · exact (congrArg (· + increment) counts.otherOfferFinished).trans (succ_mul count increment).symm
  · exact (congrArg (· + price) counts.totalPaidOut).trans (succ_mul count price).symm

/-- The offers do not last for more rounds than this. -/
theorem run_ends (fuel : Nat) : ∀ (count : Nat) (rounds : Rounds), rounds.Counts legs increment price count →
    rounds.success = decide (0 < count) →
    (∀ earlier < count, legs.Enters increment price available otherAvailable earlier ∧ legs.Accepts increment price earlier) →
    available < count * increment + (fuel + 1) * increment →
    ∃ last result, run increment price available otherAvailable (fuel + 1) rounds = some result ∧
      result.Ends legs increment price available otherAvailable last := by
  induction fuel with
  | zero =>
    intro count rounds counts success made short
    have ended : ¬ legs.Enters increment price available otherAvailable count := by
      intro enters
      have first := enters.1
      rw [Int.natCast_zero, Int.zero_add, Int.one_mul] at short
      lia
    refine ⟨count, rounds, if_neg (mt counts.enters_iff.mp ended), counts, made, .inl ⟨ended, success⟩⟩
  | succ fuel ih =>
    intro count rounds counts success made short
    by_cases enters : legs.Enters increment price available otherAvailable count
    · have unfolded : run increment price available otherAvailable (fuel + 1 + 1) rounds = _ := if_pos (counts.enters_iff.mpr enters)
      rcases rounds.legs.round_cases increment price with ⟨bears, done, became⟩ | ⟨refuses, failed⟩
      · have accepts : legs.Accepts increment price count := counts.legs.bears_iff.mp bears
        rw [unfolded, if_pos done]
        apply ih (count + 1) _ (counts.next became) (decide_eq_true (Nat.succ_pos count)).symm
        · intro earlier before
          rcases Nat.lt_succ_iff_lt_or_eq.mp before with before | rfl
          · exact made earlier before
          · exact ⟨enters, accepts⟩
        · rw [succ_mul]
          rw [Int.natCast_add, Int.add_mul _ 1, Int.natCast_one, Int.one_mul] at short
          lia
      · have refused : ¬ legs.Accepts increment price count := mt counts.legs.bears_iff.mpr refuses
        rw [unfolded, failed]
        exact ⟨count, _, rfl, ⟨counts.legs, counts.offerFinished, counts.otherOfferFinished, counts.totalPaidOut⟩, made,
          .inr ⟨enters, refused, rfl⟩⟩
    · exact ⟨count, rounds, if_neg (mt counts.enters_iff.mp enters), counts, made, .inl ⟨enters, success⟩⟩

/-- As many rounds as there are assets for are enough. -/
theorem run_start (legs : Legs) (price otherAvailable : Amount) (positive : 0 < increment) :
    ∃ count rounds, run increment price available otherAvailable ((available / increment).toNat + 1) { legs := legs } = some rounds ∧
      rounds.Ends legs increment price available otherAvailable count := by
  apply run_ends _ 0 _ (counts_start legs increment price) rfl (fun _ before => absurd before (Nat.not_lt_zero _))
  have below : available < (available / increment + 1) * increment := Int.lt_ediv_add_one_mul_self available positive
  have raised : (available / increment + 1) * increment ≤ ((available / increment).toNat + 1) * increment :=
    Int.mul_le_mul_of_nonneg_right (Int.add_le_add_right (Int.self_le_toNat _) 1) positive.le
  rw [Int.natCast_zero, Int.zero_mul, Int.zero_add]
  exact below.trans_le raised

/-- A failure leaves rounds behind exactly where one is refused after the first is made. -/
theorem Ends.settles_iff (ends : rounds.Ends legs increment price available otherAvailable count) :
    legs.Settles increment price available otherAvailable ↔ rounds.success = decide (0 < count) := by
  constructor
  · intro settles
    rcases ends.last with ⟨_, success⟩ | ⟨enters, refused, failed⟩
    · exact success
    · rcases Nat.eq_zero_or_pos count with rfl | some
      · exact failed
      · refine absurd (settles (ends.made 0 some).2 count fun earlier before => ?_) refused
        rcases Nat.lt_or_eq_of_le before with before | rfl
        · exact (ends.made earlier before).1
        · exact enters
  · intro success first later enters
    by_contra refused
    have before : count ≤ later := by
      by_contra after
      exact refused (ends.made later (Nat.lt_of_not_le after)).2
    rcases ends.last with ⟨stopped, _⟩ | ⟨_, last, failed⟩
    · exact stopped (enters count before)
    · rw [failed] at success
      have none : count = 0 := Nat.eq_zero_of_not_pos (of_decide_eq_false success.symm)
      exact last (none ▸ first)

end Rounds

end Opentxs.Trading
