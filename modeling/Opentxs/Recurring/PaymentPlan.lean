import Opentxs.Trading.Contracts

/-! A payment plan moves money from one account to another, once at first and then time after time.
Each time that cron comes to it, it looks at the clock and finds out what is due. -/

namespace Opentxs.Recurring
open Library Spend Trading.Contracts

/-- Nanoseconds since the epoch. -/
abbrev Time := Int64

/-- Seconds become nanoseconds in 64 bits. -/
def nanoseconds (seconds : Int64) : Int64 := seconds * 1000000000

def twentyFourHours : Int64 := nanoseconds 86400

def thirtyDays : Int64 := 2592000

structure PaymentPlan where
  creationDate : Time := 0
  validFrom : Time := 0
  validTo : Time := 0
  flaggedForRemoval : Bool := false
  lastProcessDate : Time := 0
  processInterval : Int64 := 10
  initialPayment : Bool := false
  initialPaymentDate : Time := 0
  initialPaymentCompletedDate : Time := 0
  failedInitialPaymentDate : Time := 0
  initialPaymentAmount : Amount := 0
  initialPaymentDone : Bool := false
  numberInitialFailures : Int32 := 0
  paymentPlan : Bool := false
  paymentPlanAmount : Amount := 0
  timeBetweenPayments : Int64 := thirtyDays
  paymentPlanStartDate : Time := 0
  paymentPlanLength : Int64 := 0
  maximumNoPayments : Int32 := 0
  dateOfLastPayment : Time := 0
  dateOfLastFailedPayment : Time := 0
  noPaymentsDone : Int32 := 0
  noFailedPayments : Int32 := 0

/-- Which payment is processed. -/
inductive Kind
  | initial
  | recurring
  deriving DecidableEq

/-- What a payment meets: whether the nyms, the accounts and the signatures are right, whether there
are inboxes and a transaction number, what the account of the sender holds, and whether the money can be moved. -/
structure Attempt where
  valid : Bool
  inboxes : Bool
  numbered : Bool
  balance : Amount
  moves : Bool

namespace PaymentPlan

variable (plan : PaymentPlan)

def setInitialPayment (amount : Amount) (timeUntilInitialPayment : Int64) : PaymentPlan :=
  { plan with
    initialPayment := true
    initialPaymentDone := false
    initialPaymentDate := plan.creationDate + nanoseconds timeUntilInitialPayment
    initialPaymentAmount := amount }

/-- Any time between payments is taken. -/
def setPaymentPlan (amount : Amount) (timeUntilPlanStart betweenPayments planLength : Int64) (maxPayments : Int32) : Option PaymentPlan :=
  if amount ≤ 0 then none
  else if planLength < 0 then none
  else if maxPayments < 0 then none
  else some { plan with
    paymentPlanAmount := amount
    timeBetweenPayments := betweenPayments
    paymentPlanStartDate := plan.creationDate + nanoseconds timeUntilPlanStart
    paymentPlanLength := planLength
    maximumNoPayments := maxPayments
    dateOfLastPayment := 0
    noPaymentsDone := 0
    paymentPlan := true }

def processInitialPaymentNode (element : Element) : Except Trading.Failure PaymentPlan := do
  let date ← element.required "date"
  let completed ← element.required "dateCompleted"
  let lastAttempt ← element.required "dateOfLastAttempt"
  let attempts ← element.required "numberOfAttempts"
  let amount ← element.required "amount"
  .ok { plan with
    initialPayment := true
    initialPaymentDate := parseTimestamp date
    initialPaymentCompletedDate := parseTimestamp completed
    failedInitialPaymentDate := parseTimestamp lastAttempt
    numberInitialFailures := Int32.ofInt (Trading.stringToLong attempts)
    initialPaymentAmount := Amount.shiftLeft (Trading.stringToLong amount)
    initialPaymentDone := element.text "completed" = "true".toList }

def processPaymentPlanNode (element : Element) : Except Trading.Failure PaymentPlan := do
  let amount ← element.required "amountPerPayment"
  let maximum ← element.required "maxNoPayments"
  let completed ← element.required "completedNoPayments"
  let failed ← element.required "failedNoPayments"
  .ok { plan with
    paymentPlan := true
    paymentPlanAmount := Amount.shiftLeft (Trading.stringToLong amount)
    maximumNoPayments := Int32.ofInt (Trading.stringToLong maximum)
    noPaymentsDone := Int32.ofInt (Trading.stringToLong completed)
    noFailedPayments := Int32.ofInt (Trading.stringToLong failed)
    timeBetweenPayments := toLong (element.text "timeBetweenPayments")
    paymentPlanStartDate := parseTimestamp (element.text "planStartDate")
    paymentPlanLength := toLong (element.text "planLength")
    dateOfLastPayment := parseTimestamp (element.text "dateOfLastPayment")
    dateOfLastFailedPayment := parseTimestamp (element.text "dateOfLastFailedPayment") }

/-- What is loaded of the payments. -/
def processXMLNode (element : Element) : Except Trading.Failure PaymentPlan :=
  if element.name = "initialPayment" then plan.processInitialPaymentNode element
  else if element.name = "paymentPlan" then plan.processPaymentPlanNode element
  else .ok plan

def flagForRemoval : PaymentPlan := { plan with flaggedForRemoval := true }

def setInitialPaymentDone (now : Time) : PaymentPlan :=
  if plan.initialPaymentDone then plan else { plan with initialPaymentDone := true, initialPaymentCompletedDate := now }

def succeeded (now : Time) : Kind → PaymentPlan
  | .initial => plan.setInitialPaymentDone now
  | .recurring => { plan with noPaymentsDone := plan.noPaymentsDone + 1, dateOfLastPayment := now }

def failed (now : Time) : Kind → PaymentPlan
  | .initial => { plan with numberInitialFailures := plan.numberInitialFailures + 1, failedInitialPaymentDate := now }
  | .recurring => { plan with noFailedPayments := plan.noFailedPayments + 1, dateOfLastFailedPayment := now }

def amount : Kind → Amount
  | .initial => plan.initialPaymentAmount
  | .recurring => plan.paymentPlanAmount

/-- The plan afterwards, and whether the money was moved. -/
def processPayment (kind : Kind) (now : Time) (attempt : Attempt) : PaymentPlan × Bool :=
  if !attempt.valid then (plan.flagForRemoval, false)
  else if !attempt.inboxes then (plan, false)
  else if !attempt.numbered then (plan, false)
  else if plan.amount kind ≤ attempt.balance ∧ attempt.moves then (plan.succeeded now kind, true)
  else (plan.failed now kind, false)

def isExpired (now : Time) : Bool := plan.validTo ≤ now ∧ 0 < plan.validTo

def verifyCurrentDate (now : Time) : Bool := plan.validFrom ≤ now ∧ (now ≤ plan.validTo ∨ plan.validTo = 0)

def initialPaymentDue (now : Time) : Bool :=
  plan.initialPayment ∧ !plan.initialPaymentDone ∧ plan.initialPaymentDate < now ∧
    (plan.failedInitialPaymentDate = 0 ∨ twentyFourHours < now - plan.failedInitialPaymentDate)

/-- The time since the start is counted in nanoseconds, the time between payments in seconds. -/
def shouldHaveHappened (now : Time) : Int64 := (now - plan.paymentPlanStartDate) / plan.timeBetweenPayments + 1

def reachedMaximum : Bool := 0 < plan.maximumNoPayments ∧ plan.maximumNoPayments ≤ plan.noPaymentsDone

def reachedLength (now : Time) : Bool :=
  0 < plan.paymentPlanLength ∧ plan.paymentPlanStartDate + nanoseconds plan.paymentPlanLength ≤ now

def paymentDue (now : Time) : Bool :=
  plan.noPaymentsDone.toInt64 < plan.shouldHaveHappened now ∧
    ¬ now - plan.dateOfLastPayment < nanoseconds plan.timeBetweenPayments ∧
    ¬ (plan.dateOfLastFailedPayment ≠ 0 ∧ now - plan.dateOfLastFailedPayment < twentyFourHours)

end PaymentPlan

/-- One time that cron comes to the plan. -/
structure Round where
  now : Time
  transactionCount : Nat
  initial : Attempt
  recurring : Attempt

/-- What a round does: the plan afterwards, whether it stays on cron, and which payments were made. -/
structure Outcome where
  plan : PaymentPlan
  stays : Bool
  initial : Bool := false
  recurring : Bool := false

namespace PaymentPlan

def processInitial (plan : PaymentPlan) (round : Round) : PaymentPlan × Bool :=
  if plan.initialPaymentDue round.now then plan.processPayment .initial round.now round.initial else (plan, false)

/-- Without anything left to do the plan goes. -/
def remains (plan : PaymentPlan) : Bool := !(plan.flaggedForRemoval ∨ plan.initialPayment ∧ plan.initialPaymentDone ∧ !plan.paymentPlan)

/-- Nothing divides by zero: the process is at its end. -/
def processRecurring (plan : PaymentPlan) (round : Round) (initial : Bool) : Option Outcome :=
  if !plan.flaggedForRemoval ∧ plan.paymentPlan ∧ plan.paymentPlanStartDate < round.now then
    if plan.timeBetweenPayments = 0 then none
    else if plan.reachedMaximum ∨ plan.reachedLength round.now then some { plan, stays := false, initial }
    else if plan.paymentDue round.now then
      let (next, recurring) := plan.processPayment .recurring round.now round.recurring
      some { plan := next, stays := next.remains, initial, recurring }
    else some { plan, stays := plan.remains, initial }
  else some { plan, stays := plan.remains, initial }

def processCron (plan : PaymentPlan) (round : Round) : Option Outcome :=
  if 0 < plan.lastProcessDate ∧ round.now - plan.lastProcessDate ≤ nanoseconds plan.processInterval then some { plan, stays := true }
  else
    let plan := { plan with lastProcessDate := round.now }
    if plan.flaggedForRemoval ∨ plan.isExpired round.now then some { plan, stays := false }
    else if !plan.verifyCurrentDate round.now then some { plan, stays := true }
    else if round.transactionCount < 1 then some { plan, stays := true }
    else
      let (plan, initial) := plan.processInitial round
      plan.processRecurring round initial

end PaymentPlan

/-! ## Runs -/

/-- A plan on cron, with the moments of the payments that were made. -/
structure Session where
  plan : PaymentPlan
  onCron : Bool := true
  initialPayments : List Int := []
  payments : List Int := []

/-- A plan that is off cron is not processed. -/
def step (round : Round) (session : Session) : Option Session :=
  if session.onCron then
    (session.plan.processCron round).map fun outcome => {
      plan := outcome.plan
      onCron := outcome.stays
      initialPayments := if outcome.initial then session.initialPayments ++ [round.now.toInt] else session.initialPayments
      payments := if outcome.recurring then session.payments ++ [round.now.toInt] else session.payments }
  else some session

/-- Without a next state the process is at its end. -/
def machine : Machine Session Round := ⟨step⟩

end Opentxs.Recurring
