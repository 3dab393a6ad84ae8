import Opentxs.Library.Spacing
import Opentxs.Recurring.PaymentPlan

/-! How often a payment plan charges. A payment is due only when the time between payments has passed
since the last one, and this is what bounds their number: the count of those that should have happened
mixes nanoseconds and seconds. -/

namespace Opentxs.Recurring
open Library Library.Spacing Spend Trading.Contracts

variable {plan next : PaymentPlan} {round : Round} {outcome : Outcome} {session after : Session} {moved : Bool}

/-! ## One round -/

/-- What no payment changes. -/
structure SameTerms (plan next : PaymentPlan) : Prop where
  timeBetweenPayments : next.timeBetweenPayments = plan.timeBetweenPayments
  paymentPlanStartDate : next.paymentPlanStartDate = plan.paymentPlanStartDate
  paymentPlanLength : next.paymentPlanLength = plan.paymentPlanLength
  maximumNoPayments : next.maximumNoPayments = plan.maximumNoPayments

/-- What has been recorded of the payments that come time after time. -/
structure SameRecord (plan next : PaymentPlan) : Prop where
  dateOfLastPayment : next.dateOfLastPayment = plan.dateOfLastPayment
  noPaymentsDone : next.noPaymentsDone = plan.noPaymentsDone

theorem SameTerms.trans {last : PaymentPlan} (first : SameTerms plan next) (second : SameTerms next last) : SameTerms plan last :=
  ⟨second.1.trans first.1, second.2.trans first.2, second.3.trans first.3, second.4.trans first.4⟩

theorem SameRecord.trans {last : PaymentPlan} (first : SameRecord plan next) (second : SameRecord next last) : SameRecord plan last :=
  ⟨second.1.trans first.1, second.2.trans first.2⟩

/-- An attempt that moves no money leaves the records of payments as they are. -/
structure Attempted (plan : PaymentPlan) (kind : Kind) (now : Time) (next : PaymentPlan) (moved : Bool) : Prop where
  terms : SameTerms plan next
  done : plan.initialPaymentDone = true → next.initialPaymentDone = true
  other : kind = .initial ∨ moved = false → SameRecord plan next
  initial : kind = .initial → moved = true → next.initialPaymentDone = true
  recurring : kind = .recurring → moved = true → next.dateOfLastPayment = now ∧ next.noPaymentsDone = plan.noPaymentsDone + 1

theorem attempted (plan : PaymentPlan) (kind : Kind) (now : Time) (attempt : Attempt) :
    Attempted plan kind now (plan.processPayment kind now attempt).1 (plan.processPayment kind now attempt).2 := by
  have unmoved (next : PaymentPlan) (terms : SameTerms plan next) (done : next.initialPaymentDone = plan.initialPaymentDone)
      (record : SameRecord plan next) : Attempted plan kind now next false :=
    ⟨terms, fun before => done.trans before, fun _ => record, fun _ moved => (nomatch moved), fun _ moved => (nomatch moved)⟩
  unfold PaymentPlan.processPayment
  split
  · exact unmoved _ ⟨rfl, rfl, rfl, rfl⟩ rfl ⟨rfl, rfl⟩
  · split
    · exact unmoved _ ⟨rfl, rfl, rfl, rfl⟩ rfl ⟨rfl, rfl⟩
    · split
      · exact unmoved _ ⟨rfl, rfl, rfl, rfl⟩ rfl ⟨rfl, rfl⟩
      · split
        · cases kind with
          | initial =>
            unfold PaymentPlan.succeeded PaymentPlan.setInitialPaymentDone
            dsimp only
            split
            · next done =>
              exact ⟨⟨rfl, rfl, rfl, rfl⟩, id, fun _ => ⟨rfl, rfl⟩, fun _ _ => done, fun other => (nomatch other)⟩
            · exact ⟨⟨rfl, rfl, rfl, rfl⟩, fun _ => rfl, fun _ => ⟨rfl, rfl⟩, fun _ _ => rfl, fun other => (nomatch other)⟩
          | recurring =>
            exact ⟨⟨rfl, rfl, rfl, rfl⟩, id, fun neither => neither.elim (nomatch ·) (nomatch ·), fun other => (nomatch other),
              fun _ _ => ⟨rfl, rfl⟩⟩
        · cases kind <;> exact unmoved _ ⟨rfl, rfl, rfl, rfl⟩ rfl ⟨rfl, rfl⟩

/-- What may charge: a plan that has started, is not at its end and was not charged within the time between payments. -/
structure Due (plan : PaymentPlan) (now : Time) : Prop where
  started : plan.paymentPlanStartDate < now
  below : plan.reachedMaximum = false
  before : plan.reachedLength now = false
  apart : ¬ now - plan.dateOfLastPayment < nanoseconds plan.timeBetweenPayments

/-- What a round does to a plan. -/
structure Processed (plan : PaymentPlan) (now : Time) (outcome : Outcome) : Prop where
  terms : SameTerms plan outcome.plan
  done : plan.initialPaymentDone = true → outcome.plan.initialPaymentDone = true ∧ outcome.initial = false
  initial : outcome.initial = true → outcome.plan.initialPaymentDone = true
  unpaid : outcome.recurring = false → SameRecord plan outcome.plan
  paid : outcome.recurring = true →
    Due plan now ∧ outcome.plan.dateOfLastPayment = now ∧ outcome.plan.noPaymentsDone = plan.noPaymentsDone + 1

theorem Due.ofSame {now : Time} (terms : SameTerms plan next) (record : SameRecord plan next) (due : Due next now) : Due plan now := by
  obtain ⟨started, below, before, apart⟩ := due
  unfold PaymentPlan.reachedMaximum at below
  unfold PaymentPlan.reachedLength at before
  rw [terms.maximumNoPayments, record.noPaymentsDone] at below
  rw [terms.paymentPlanStartDate, terms.paymentPlanLength] at before
  rw [terms.paymentPlanStartDate] at started
  rw [terms.timeBetweenPayments, record.dateOfLastPayment] at apart
  exact ⟨started, below, before, apart⟩

/-- Without an initial payment, for that comes before. -/
theorem processRecurring_processed {initial : Bool} (ran : plan.processRecurring round initial = some outcome) :
    Processed plan round.now { outcome with initial := false } ∧ outcome.initial = initial := by
  have nothing (stays : Bool) : Processed plan round.now { plan, stays } :=
    ⟨⟨rfl, rfl, rfl, rfl⟩, fun done => ⟨done, rfl⟩, fun paid => (nomatch paid), fun _ => ⟨rfl, rfl⟩, fun paid => (nomatch paid)⟩
  unfold PaymentPlan.processRecurring at ran
  split at ran
  · next goes =>
    split at ran
    · cases ran
    · split at ran
      · cases ran
        exact ⟨nothing false, rfl⟩
      · next going =>
        split at ran
        · next due =>
          obtain rfl := Option.some.inj ran
          have attempt := attempted plan .recurring round.now round.recurring
          obtain ⟨below, before⟩ := not_or.mp going
          have due : Due plan round.now :=
            ⟨goes.2.2, Bool.eq_false_iff.mpr below, Bool.eq_false_iff.mpr before, (of_decide_eq_true due).2.1⟩
          exact ⟨⟨attempt.terms, fun done => ⟨attempt.done done, rfl⟩, fun paid => (nomatch paid), fun unpaid => attempt.other (.inr unpaid),
            fun paid => ⟨due, attempt.recurring rfl paid⟩⟩, rfl⟩
        · cases ran
          exact ⟨nothing _, rfl⟩
  · cases ran
    exact ⟨nothing _, rfl⟩

theorem processInitial_attempted (plan : PaymentPlan) (round : Round) :
    Attempted plan .initial round.now (plan.processInitial round).1 (plan.processInitial round).2 ∧
      (plan.initialPaymentDone = true → (plan.processInitial round).2 = false) := by
  unfold PaymentPlan.processInitial
  split
  · next due =>
    refine ⟨attempted plan .initial round.now round.initial, fun done => ?_⟩
    have undone : plan.initialPaymentDone = false := by simpa using (of_decide_eq_true due).2.1
    rw [undone] at done
    cases done
  · exact ⟨⟨⟨rfl, rfl, rfl, rfl⟩, id, fun _ => ⟨rfl, rfl⟩, fun _ paid => (nomatch paid), fun other => (nomatch other)⟩, fun _ => rfl⟩

theorem processCron_processed (ran : plan.processCron round = some outcome) : Processed plan round.now outcome := by
  have nothing (next : PaymentPlan) (stays : Bool) (terms : SameTerms plan next) (record : SameRecord plan next)
      (done : next.initialPaymentDone = plan.initialPaymentDone) : Processed plan round.now { plan := next, stays } :=
    ⟨terms, fun before => ⟨done.trans before, rfl⟩, fun paid => (nomatch paid), fun _ => record, fun paid => (nomatch paid)⟩
  unfold PaymentPlan.processCron at ran
  split at ran
  · cases ran
    exact nothing _ _ ⟨rfl, rfl, rfl, rfl⟩ ⟨rfl, rfl⟩ rfl
  · dsimp only at ran
    split at ran
    · cases ran
      exact nothing _ _ ⟨rfl, rfl, rfl, rfl⟩ ⟨rfl, rfl⟩ rfl
    · split at ran
      · cases ran
        exact nothing _ _ ⟨rfl, rfl, rfl, rfl⟩ ⟨rfl, rfl⟩ rfl
      · split at ran
        · cases ran
          exact nothing _ _ ⟨rfl, rfl, rfl, rfl⟩ ⟨rfl, rfl⟩ rfl
        · obtain ⟨first, once⟩ := processInitial_attempted { plan with lastProcessDate := round.now } round
          obtain ⟨rest, same⟩ := processRecurring_processed ran
          have terms : SameTerms plan ({ plan with lastProcessDate := round.now } : PaymentPlan) := ⟨rfl, rfl, rfl, rfl⟩
          have same_record : SameRecord plan ({ plan with lastProcessDate := round.now } : PaymentPlan) := ⟨rfl, rfl⟩
          have record := first.other (.inl rfl)
          refine ⟨(terms.trans first.terms).trans rest.terms, fun done => ⟨(rest.done (first.done done)).1, same.trans (once done)⟩,
            fun paid => ?_, fun unpaid => (same_record.trans record).trans (rest.unpaid unpaid), fun paid => ?_⟩
          · exact (rest.done (first.initial rfl (same.symm.trans paid))).1
          · obtain ⟨due, date, done⟩ := rest.paid paid
            exact ⟨due.ofSame (terms.trans first.terms) (same_record.trans record), date, done.trans (by rw [record.noPaymentsDone])⟩

/-- Only a plan without time between payments divides by zero. -/
theorem processCron_ne_none (period : plan.timeBetweenPayments ≠ 0) : ∃ outcome, plan.processCron round = some outcome := by
  have recurs {next : PaymentPlan} (same : next.timeBetweenPayments = plan.timeBetweenPayments) (initial : Bool) :
      ∃ outcome, next.processRecurring round initial = some outcome := by
    unfold PaymentPlan.processRecurring
    rw [if_neg (show ¬ next.timeBetweenPayments = 0 from same ▸ period)]
    split
    · split
      · exact ⟨_, rfl⟩
      · split <;> exact ⟨_, rfl⟩
    · exact ⟨_, rfl⟩
  unfold PaymentPlan.processCron
  split
  · exact ⟨_, rfl⟩
  · dsimp only
    split
    · exact ⟨_, rfl⟩
    · split
      · exact ⟨_, rfl⟩
      · split
        · exact ⟨_, rfl⟩
        · exact recurs (processInitial_attempted { plan with lastProcessDate := round.now } round).1.terms.timeBetweenPayments _

/-! ## A whole run -/

/-- What was charged stays within the terms that the plan was loaded with. All moments are in nanoseconds. -/
structure WithinTerms (plan : PaymentPlan) (session : Session) : Prop where
  spaced : Spaced (plan.timeBetweenPayments.toInt * second) session.payments
  started : ∀ moment ∈ session.payments, plan.paymentPlanStartDate.toInt < moment
  ended : 0 < plan.paymentPlanLength → ∀ moment ∈ session.payments,
    moment < plan.paymentPlanStartDate.toInt + plan.paymentPlanLength.toInt * second
  most : 0 < plan.maximumNoPayments → (session.payments.length : Int) ≤ plan.maximumNoPayments.toInt
  counted : ∀ moment, plan.paymentPlanStartDate.toInt ≤ moment → ((session.payments.filter (· ≤ moment)).length : Int) ≤
    1 + (moment - plan.paymentPlanStartDate.toInt) / (plan.timeBetweenPayments.toInt * second)
  once : session.initialPayments.length ≤ 1

/-- The rounds run through, and nothing is overcharged. -/
def NeverOvercharged (plan : PaymentPlan) (rounds : List Round) : Prop :=
  ∃ session, machine.runs rounds { plan } = some session ∧ WithinTerms plan session

/-- The time between payments in nanoseconds fits in 64 bits, and none is counted against the maximum that cannot have been made. -/
structure Chargeable (plan : PaymentPlan) : Prop where
  positive : 0 < plan.timeBetweenPayments
  fits : plan.timeBetweenPayments ≤ 9223372036
  completed : 0 < plan.maximumNoPayments → 0 ≤ plan.noPaymentsDone

/-- What holds after any rounds. -/
structure Kept (plan : PaymentPlan) (session : Session) : Prop where
  terms : SameTerms plan session.plan
  spaced : Spaced (plan.timeBetweenPayments.toInt * second) session.payments
  started : ∀ moment ∈ session.payments, plan.paymentPlanStartDate.toInt < moment
  ended : 0 < plan.paymentPlanLength → ∀ moment ∈ session.payments,
    moment < plan.paymentPlanStartDate.toInt + plan.paymentPlanLength.toInt * second
  last : ∀ moment ∈ session.payments, moment ≤ session.plan.dateOfLastPayment.toInt
  counts : 0 < plan.maximumNoPayments → (session.payments.length : Int) ≤ session.plan.noPaymentsDone.toInt
  most : 0 < plan.maximumNoPayments → session.payments ≠ [] → session.plan.noPaymentsDone.toInt ≤ plan.maximumNoPayments.toInt
  once : session.initialPayments = [] ∨ session.initialPayments.length = 1 ∧ session.plan.initialPaymentDone = true

theorem nanoseconds_toInt {period : Int64} (positive : 0 < period) (fits : period ≤ 9223372036) :
    (nanoseconds period).toInt = period.toInt * second := by
  have low : 0 < period.toInt := Int64.lt_iff_toInt_lt.mp positive
  have high : period.toInt ≤ 9223372036 := Int64.le_iff_toInt_le.mp fits
  have factor : (1000000000 : Int64).toInt = 1000000000 := rfl
  unfold nanoseconds second
  rw [Int64.toInt_mul, factor]
  exact Int.bmod_eq_of_le (by omega) (by omega)

theorem bmod_le {value : Int} (least : -2 ^ 63 ≤ value) : value.bmod (2 ^ 64) ≤ value := by
  rw [Int.bmod_def]
  split <;> omega

/-- An end that does not fit in 64 bits is only earlier. -/
theorem end_le {start length : Int64} (positive : 0 < length) :
    (start + nanoseconds length).toInt ≤ start.toInt + length.toInt * second := by
  have low : 0 < length.toInt := Int64.lt_iff_toInt_lt.mp positive
  have least := start.le_toInt
  have factor : (1000000000 : Int64).toInt = 1000000000 := rfl
  have held : (start + nanoseconds length).toInt = (start.toInt + length.toInt * second).bmod (2 ^ 64) := by
    unfold nanoseconds second
    rw [Int64.toInt_add, Int64.toInt_mul, factor, Int.add_bmod_bmod]
  rw [held]
  refine bmod_le ?_
  unfold second
  omega

/-- A time that does not fit in 64 bits is only shorter. -/
theorem sub_le {now last : Time} (since : last ≤ now) : (now - last).toInt ≤ now.toInt - last.toInt := by
  have ordered : last.toInt ≤ now.toInt := Int64.le_iff_toInt_le.mp since
  rw [Int64.toInt_sub]
  exact bmod_le (by omega)

/-- The clock is not behind the last payment. -/
def Current (session : Session) (now : Time) : Prop :=
  session.payments ≠ [] → session.plan.dateOfLastPayment ≤ now

/-- A payment that is due comes after the start, before the end, and the time between payments after all others. -/
theorem Kept.due (able : Chargeable plan) (kept : Kept plan session) {now : Time} (current : Current session now) (due : Due session.plan now) :
    plan.paymentPlanStartDate.toInt < now.toInt ∧
      (0 < plan.paymentPlanLength → now.toInt < plan.paymentPlanStartDate.toInt + plan.paymentPlanLength.toInt * second) ∧
      ∀ earlier ∈ session.payments, earlier + plan.timeBetweenPayments.toInt * second ≤ now.toInt := by
  refine ⟨?_, fun positive => ?_, fun earlier member => ?_⟩
  · rw [← kept.terms.paymentPlanStartDate]
    exact Int64.lt_iff_toInt_lt.mp due.started
  · have before := due.before
    unfold PaymentPlan.reachedLength at before
    rw [kept.terms.paymentPlanStartDate, kept.terms.paymentPlanLength] at before
    have earlier : now < plan.paymentPlanStartDate + nanoseconds plan.paymentPlanLength :=
      Int64.not_le.mp fun reached => of_decide_eq_false before ⟨positive, reached⟩
    exact (Int64.lt_iff_toInt_lt.mp earlier).trans_le (end_le positive)
  · have inside := kept.last earlier member
    have apart := Int64.le_iff_toInt_le.mp (Int64.not_lt.mp due.apart)
    have passed := sub_le (current (List.ne_nil_of_mem member))
    rw [kept.terms.timeBetweenPayments, nanoseconds_toInt able.positive able.fits] at apart
    omega

/-- One more payment is within the maximum. -/
theorem Due.counted {now : Time} (due : Due plan now) (bounded : 0 < plan.maximumNoPayments) :
    (plan.noPaymentsDone + 1).toInt = plan.noPaymentsDone.toInt + 1 ∧ plan.noPaymentsDone.toInt + 1 ≤ plan.maximumNoPayments.toInt := by
  have below : plan.noPaymentsDone < plan.maximumNoPayments :=
    Int32.not_le.mp fun reached => of_decide_eq_false due.below ⟨bounded, reached⟩
  have less := Int32.lt_iff_toInt_lt.mp below
  have most := plan.maximumNoPayments.toInt_lt
  have least := plan.noPaymentsDone.le_toInt
  have one : (1 : Int32).toInt = 1 := rfl
  refine ⟨?_, less⟩
  rw [Int32.toInt_add, one]
  exact Int.bmod_eq_of_le (by omega) (by omega)

theorem Kept.stepped (able : Chargeable plan) (kept : Kept plan session) (current : Current session round.now)
    (stepped : step round session = some after) : Kept plan after ∧ Current after round.now := by
  unfold step at stepped
  split at stepped
  · obtain ⟨outcome, ran, rfl⟩ := Option.map_eq_some_iff.mp stepped
    have processed := processCron_processed ran
    have once : (if outcome.initial then session.initialPayments ++ [round.now.toInt] else session.initialPayments) = [] ∨
        (if outcome.initial then session.initialPayments ++ [round.now.toInt] else session.initialPayments).length = 1 ∧
          outcome.plan.initialPaymentDone = true := by
      rcases kept.once with none | ⟨one, done⟩
      · by_cases paid : outcome.initial = true
        · rw [if_pos paid, none]
          exact .inr ⟨rfl, processed.initial paid⟩
        · rw [if_neg paid]
          exact .inl none
      · obtain ⟨stays, unpaid⟩ := processed.done done
        rw [unpaid]
        exact .inr ⟨one, stays⟩
    have terms := kept.terms.trans processed.terms
    by_cases paid : outcome.recurring = true
    · obtain ⟨due, date, done⟩ := processed.paid paid
      obtain ⟨started, ended, apart⟩ := kept.due able current due
      have period : 0 < plan.timeBetweenPayments.toInt * second :=
        Int.mul_pos (Int64.lt_iff_toInt_lt.mp able.positive) (by decide)
      have bound (positive : 0 < plan.maximumNoPayments) := due.counted (kept.terms.maximumNoPayments.symm ▸ positive)
      rw [if_pos paid]
      refine ⟨⟨terms, spaced_append.mpr ⟨kept.spaced, apart⟩, ?_, fun positive => ?_, ?_, fun positive => ?_, fun positive _ => ?_, once⟩,
        fun _ => date ▸ Int64.le_refl _⟩
      · exact List.forall_mem_append.mpr ⟨kept.started, List.forall_mem_singleton.mpr started⟩
      · exact List.forall_mem_append.mpr ⟨kept.ended positive, List.forall_mem_singleton.mpr (ended positive)⟩
      · dsimp only
        rw [date]
        refine List.forall_mem_append.mpr ⟨fun earlier member => ?_, List.forall_mem_singleton.mpr le_rfl⟩
        have later := apart earlier member
        omega
      · obtain ⟨counted, _⟩ := bound positive
        have counts := kept.counts positive
        dsimp only
        rw [done, counted, List.length_append, List.length_singleton]
        omega
      · obtain ⟨counted, most⟩ := bound positive
        dsimp only
        rw [done, counted, ← kept.terms.maximumNoPayments]
        exact most
    · have record := processed.unpaid (Bool.eq_false_iff.mpr paid)
      rw [if_neg paid]
      refine ⟨⟨terms, kept.spaced, kept.started, kept.ended, ?_, ?_, ?_, once⟩, fun some => record.dateOfLastPayment ▸ current some⟩
      · dsimp only
        rw [record.dateOfLastPayment]
        exact kept.last
      · dsimp only
        rw [record.noPaymentsDone]
        exact kept.counts
      · dsimp only
        rw [record.noPaymentsDone]
        exact kept.most
  · obtain rfl := Option.some.inj stepped
    exact ⟨kept, current⟩

theorem Kept.within (able : Chargeable plan) (kept : Kept plan session) : WithinTerms plan session := by
  have period : 0 < plan.timeBetweenPayments.toInt * second := Int.mul_pos (Int64.lt_iff_toInt_lt.mp able.positive) (by decide)
  refine ⟨kept.spaced, kept.started, kept.ended, fun positive => ?_, fun moment after => ?_, ?_⟩
  · by_cases none : session.payments = []
    · have least : 0 < plan.maximumNoPayments.toInt := Int32.lt_iff_toInt_lt.mp positive
      rw [none, List.length_nil]
      omega
    · exact (kept.counts positive).trans (kept.most positive none)
  · refine (kept.spaced.filter _).length_le period (by omega) fun earlier member => ?_
    obtain ⟨inside, low⟩ := List.mem_filter.mp member
    exact ⟨(kept.started earlier inside).le, of_decide_eq_true low⟩
  · rcases kept.once with none | ⟨one, _⟩
    · rw [none]
      exact Nat.zero_le 1
    · exact one.le

theorem step_ne_none (able : Chargeable plan) (kept : Kept plan session) (round : Round) : ∃ after, step round session = some after := by
  have period : session.plan.timeBetweenPayments ≠ 0 := by
    rw [kept.terms.timeBetweenPayments]
    exact (Int64.ne_of_lt able.positive).symm
  unfold step
  split
  · have all : ∃ outcome, session.plan.processCron round = some outcome := processCron_ne_none period
    obtain ⟨outcome, ran⟩ := all
    exact ⟨_, congrArg _ ran⟩
  · exact ⟨_, rfl⟩

/-- As long as the clock does not go back. -/
theorem Kept.runs (able : Chargeable plan) {rounds : List Round} (increasing : rounds.Pairwise (·.now ≤ ·.now))
    (kept : Kept plan session) (current : ∀ round ∈ rounds, Current session round.now) :
    ∃ after, machine.runs rounds session = some after ∧ Kept plan after := by
  induction rounds generalizing session with
  | nil => exact ⟨session, rfl, kept⟩
  | cons round rounds ih =>
    obtain ⟨later, increasing⟩ := List.pairwise_cons.mp increasing
    obtain ⟨after, stepped⟩ := step_ne_none able kept round
    obtain ⟨kept, moment⟩ := kept.stepped able (current round List.mem_cons_self) stepped
    obtain ⟨last, ran, kept⟩ := ih increasing kept fun next member some => Int64.le_trans (moment some) (later next member)
    exact ⟨last, (congrArg (Option.bind · (machine.runs rounds)) stepped).trans ran, kept⟩

/-- A plan with a time between payments that is positive and fits never overcharges. -/
theorem never_overcharged (able : Chargeable plan) {rounds : List Round} (increasing : rounds.Pairwise (·.now ≤ ·.now)) :
    NeverOvercharged plan rounds := by
  have start : Kept plan { plan } :=
    ⟨⟨rfl, rfl, rfl, rfl⟩, List.Pairwise.nil, List.forall_mem_nil _, fun _ => List.forall_mem_nil _, List.forall_mem_nil _,
      fun positive => Int32.le_iff_toInt_le.mp (able.completed positive), fun _ some => absurd rfl some, .inl rfl⟩
  obtain ⟨session, ran, kept⟩ := start.runs able increasing fun _ _ some => absurd rfl some
  exact ⟨session, ran, kept.within able⟩

/-- A plan made with a time between payments that is positive and fits. -/
theorem setPaymentPlan_chargeable {amount : Amount} {start period length : Int64} {most : Int32}
    (accepted : plan.setPaymentPlan amount start period length most = some next) (positive : 0 < period) (fits : period ≤ 9223372036) :
    Chargeable next := by
  unfold PaymentPlan.setPaymentPlan at accepted
  split at accepted
  · cases accepted
  · split at accepted
    · cases accepted
    · split at accepted
      · cases accepted
      · obtain rfl := Option.some.inj accepted
        exact ⟨positive, fits, fun _ => Int32.le_refl _⟩

/-- What never fails. -/
def smoothly : Attempt := { valid := true, inboxes := true, numbered := true, balance := 100, moves := true }

def roundAt (now : Time) : Round := { now, transactionCount := 1, initial := smoothly, recurring := smoothly }

/-- A plan of ten each ten seconds that starts at once, and three rounds, the second of them too early. -/
theorem each_ten_seconds : ∃ plan, ({} : PaymentPlan).setPaymentPlan 10 0 10 0 0 = some plan ∧
    NeverOvercharged plan [roundAt 1000000000, roundAt 5000000000, roundAt 12000000000] := by
  have accepted : ({} : PaymentPlan).setPaymentPlan 10 0 10 0 0 = some (_ : PaymentPlan) := rfl
  exact ⟨_, accepted, never_overcharged (setPaymentPlan_chargeable accepted (by decide) (by decide)) (by decide)⟩

/-- A plan without time between payments is accepted, and the first round after its start divides by zero. -/
theorem period_zero_divides :
    ∃ plan, ({} : PaymentPlan).setPaymentPlan 10 0 0 0 0 = some plan ∧ ¬ NeverOvercharged plan [roundAt 1000000000] :=
  ⟨_, rfl, fun ⟨_, ran, _⟩ => nomatch ran⟩

end Opentxs.Recurring
