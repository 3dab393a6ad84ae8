import Opentxs.Trading.Statements

/-! How large the trades of a market are. -/

namespace Opentxs.Trading
open Library Spend

variable {system next later : System} {checks : Checks} {number first other : TransactionNum} {offer otherOffer : Offer}
  {trade otherTrade : Trade}

/-- The assets of a trade are a multiple of the scale and not less than what either offer asks for. -/
def Sized (system : System) (move : Receipt) : Prop :=
  ∃ offer otherOffer trade otherTrade, system.market.offers move.first = some offer ∧ system.market.offers move.other = some otherOffer ∧
    system.trade move.first = some trade ∧ system.trade move.other = some otherTrade ∧
    ∃ (multiple : Int) (currency : Amount), 0 < multiple ∧ offer.minimumIncrement ≤ multiple * system.market.scale ∧
      otherOffer.minimumIncrement ≤ multiple * system.market.scale ∧
      move.items = items move.first move.other trade otherTrade offer.isAsk (multiple * system.market.scale)
        (multiple * system.market.scale) currency

/-- All that moves in the accounts moves in trades of such a size, whether or not there is a receipt. -/
structure Measured (system next : System) : Prop where
  grows : Grows system next
  accounts : SameAccounts system next
  moves : ∃ moves receipts, next.acknowledged = system.acknowledged ++ receipts ∧ receipts.Sublist moves ∧
    (∀ move ∈ moves, Sized system move) ∧ ∀ id, next.balance id = (system.balance id).map (· + received moves id)

theorem Sized.before {move : Receipt} (sized : Sized next move) (grows : Grows system next) (same : SameAccounts system next) :
    Sized system move := by
  obtain ⟨_, _, trade, otherTrade, now, otherNow, pays, otherPays, multiple, currency, positive, least, otherLeast, moved⟩ := sized
  obtain ⟨offer, amount, found, rfl⟩ := grows.offer_before now
  obtain ⟨otherOffer, otherAmount, otherFound, rfl⟩ := grows.offer_before otherNow
  obtain ⟨before, paid, own⟩ := same.trade_before pays
  obtain ⟨otherBefore, otherPaid, others⟩ := same.trade_before otherPays
  have scale : next.market.scale = system.market.scale := by
    rw [grows.market]
  rw [scale] at least otherLeast moved
  exact ⟨offer, otherOffer, before, otherBefore, found, otherFound, paid, otherPaid, multiple, currency, positive, least, otherLeast,
    moved.trans (items_congr own others)⟩

theorem Measured.idle (grows : Grows system next) (accounts : SameAccounts system next) (balances : ∀ id, next.balance id = system.balance id)
    (acknowledged : next.acknowledged = system.acknowledged) : Measured system next := by
  refine ⟨grows, accounts, [], [], ?_, List.Sublist.refl _, fun _ member => absurd member List.not_mem_nil, fun id => ?_⟩
  · rw [acknowledged, List.append_nil]
  · rw [balances]
    cases system.balance id with
    | none => rfl
    | some balance => exact congrArg some (Int.add_zero _).symm

theorem Measured.refl (system : System) : Measured system system :=
  Measured.idle (Grows.refl system) ⟨fun _ => rfl, fun _ => rfl⟩ (fun _ => rfl) rfl

theorem Measured.trans (one : Measured system next) (two : Measured next later) : Measured system later := by
  obtain ⟨moves, receipts, acknowledged, sublist, sized, balances⟩ := one.moves
  obtain ⟨more, further, again, included, large, moved⟩ := two.moves
  refine ⟨one.grows.trans two.grows, one.accounts.trans two.accounts, moves ++ more, receipts ++ further, ?_, sublist.append included,
    fun move member => ?_, fun id => ?_⟩
  · rw [again, acknowledged, List.append_assoc]
  · rcases List.mem_append.mp member with member | member
    · exact sized move member
    · exact (large move member).before one.grows one.accounts
  · rw [moved, balances, Option.map_map]
    refine congrArg (fun change => (system.balance id).map change) (funext fun balance => ?_)
    show balance + received moves id + received more id = balance + received (moves ++ more) id
    rw [received_append, Int.add_assoc]

/-- A multiple of the scale fits where its remainder does not count. -/
theorem le_sub_remainder {scale least available : Amount} (positive : 0 < scale) (nonneg : 0 ≤ available) (whole : least.remainder scale = 0)
    (fits : least ≤ available) : least ≤ available - available.remainder scale := by
  have split : available - available.remainder scale = available.tdiv scale * scale :=
    (eq_sub_of_add_eq (Int.tdiv_mul_add_tmod available scale)).symm
  have exact_least := tdiv_mul_of_remainder whole
  rw [split, Int.tdiv_eq_ediv_of_nonneg nonneg]
  calc least = least.tdiv scale * scale := exact_least.symm
    _ ≤ available / scale * scale := by
      refine Int.mul_le_mul_of_nonneg_right ((Int.le_ediv_iff_mul_le positive).mpr ?_) positive.le
      rw [exact_least]
      exact fits

/-- An offer that is at less than its own increment trades all of it with another one. -/
def Undersized (system : System) (checks : Checks) (offer otherOffer : Offer) (trade otherTrade : Trade) : Prop :=
  otherOffer.amountAvailable < otherOffer.minimumIncrement ∧ ∃ accounts, system.prepare checks trade otherTrade = .ok accounts ∧
    coversAll system.market.scale offer otherOffer (accounts.legs offer.isAsk) = true ∧
    (accounts.legs offer.isAsk).Bears (mostAvailable system.market.scale offer otherOffer)
      (priceOf system.market.scale (mostAvailable system.market.scale offer otherOffer) otherOffer)

theorem Begins.increments {accounts : FourAccounts} (begins : Begins system first other offer otherOffer trade otherTrade)
    (suits : ¬ Undersized system checks offer otherOffer trade otherTrade) (prepared : system.prepare checks trade otherTrade = .ok accounts)
    (accepts : (accounts.legs offer.isAsk).Bears (terms system.market.scale offer otherOffer (accounts.legs offer.isAsk)).1
      (terms system.market.scale offer otherOffer (accounts.legs offer.isAsk)).2) :
    offer.minimumIncrement ≤ (terms system.market.scale offer otherOffer (accounts.legs offer.isAsk)).1 ∧
      otherOffer.minimumIncrement ≤ (terms system.market.scale offer otherOffer (accounts.legs offer.isAsk)).1 := by
  have meets := begins.meets
  unfold terms at accepts ⊢
  simp only [] at accepts ⊢
  by_cases covers : coversAll system.market.scale offer otherOffer (accounts.legs offer.isAsk) = true
  · rw [if_pos covers] at accepts ⊢
    have enough : otherOffer.minimumIncrement ≤ otherOffer.amountAvailable := by
      by_contra short
      exact suits ⟨lt_of_not_ge short, accounts, prepared, covers, accepts⟩
    have positive := meets.scale_pos
    unfold mostAvailable
    simp only []
    split
    · have nonneg : 0 ≤ otherOffer.amountAvailable := (positive.le.trans meets.otherAdmits.2.1).trans enough
      exact ⟨le_sub_remainder positive nonneg meets.admits.2.2 meets.otherAvailable, le_sub_remainder positive nonneg meets.otherAdmits.2.2 enough⟩
    · have nonneg : 0 ≤ offer.amountAvailable := (positive.le.trans meets.admits.2.1).trans begins.ready
      exact ⟨le_sub_remainder positive nonneg meets.admits.2.2 begins.ready, le_sub_remainder positive nonneg meets.otherAdmits.2.2 meets.available⟩
  · rw [if_neg covers]
    unfold minIncrementPerRound
    split
    · exact ⟨le_rfl, le_of_lt ‹_›⟩
    · exact ⟨le_of_not_gt ‹_›, le_rfl⟩

theorem Begins.measured (begins : Begins system first other offer otherOffer trade otherTrade)
    (suits : ¬ Undersized system checks offer otherOffer trade otherTrade) (done : system.exchange checks first other = some next) :
    Measured system next := by
  have meets := begins.meets
  have grows := meets.exchange_grows done
  rcases meets.exchange_cases checks with ⟨refusal, _, refused⟩ | ⟨accounts, increment, price, count, rounds, prepared, chosen, enters, ends, ran⟩
  · obtain rfl := Option.some.inj (refused.symm.trans done)
    obtain ⟨_, account, _⟩ := System.refuse_keeps meets refusal
    obtain ⟨same, acknowledged⟩ := System.refuse_trades meets refusal
    exact Measured.idle grows same (fun id => by rw [System.balance, account]; rfl) acknowledged
  · obtain rfl := Option.some.inj (ran.symm.trans done)
    have ready := System.prepared_of_prepare prepared
    have same : SameAccounts system (system.conclude first other offer otherOffer trade otherTrade increment price rounds) :=
      System.conclude_accounts meets ready ends.counts.legs
    have told := @System.conclude_acknowledged _ _ _ _ _ _ _ increment price _ _ _ meets ends.counts.offerFinished
      ends.counts.otherOfferFinished ends.counts.totalPaidOut
    have balances (id : AccountID) := @System.conclude_balance _ first other _ otherOffer _ _ _ increment price _ _ _ ready
      ends.counts.legs id
    rcases Nat.eq_zero_or_pos count with rfl | some
    · have failure : ¬ rounds.success = true := fun success => Nat.lt_irrefl 0 (ends.some_of_success success)
      refine Measured.idle grows same (fun id => ?_) (by rw [told, if_neg failure, List.append_nil])
      rw [balances id, Int.natCast_zero, Int.zero_mul, Int.zero_mul, amountOf_zero]
      simp
    · have accepts := (ends.made 0 some).2
      unfold Legs.Accepts at accepts
      rw [Int.natCast_zero, Int.zero_mul, Int.zero_mul, Int.zero_add, Int.zero_add] at accepts
      have least := begins.increments suits prepared (by rw [chosen]; exact accepts)
      obtain ⟨multiple, positive, whole, _⟩ := meets.multiple (accounts.legs offer.isAsk)
      rw [chosen] at least whole
      have whole : increment = multiple * system.market.scale := whole
      have total : count * increment = count * multiple * system.market.scale := by rw [whole, Int.mul_assoc]
      have more : (1 : Int) ≤ count := Int.natCast_pos.mpr some
      have once : increment ≤ count * increment := le_mul_of_one_le_left enters.le more
      have sized : Sized system ⟨.acknowledgement, first, other,
          items first other trade otherTrade offer.isAsk (count * increment) (count * increment) (count * price)⟩ :=
        ⟨offer, otherOffer, trade, otherTrade, meets.found, meets.otherFound, meets.trade, meets.otherTrade, count * multiple, count * price,
          Int.mul_pos more positive, total ▸ least.1.trans once, total ▸ least.2.trans once, by rw [total]⟩
      refine ⟨grows, same, [⟨.acknowledgement, first, other,
        items first other trade otherTrade offer.isAsk (count * increment) (count * increment) (count * price)⟩], _, told, ?_,
        fun move member => ?_, fun id => ?_⟩
      · split
        · exact List.Sublist.refl _
        · exact List.nil_sublist _
      · rw [List.mem_singleton.mp member]
        exact sized
      · rw [balances id]
        refine congrArg (fun change => (system.balance id).map change) (funext fun balance => ?_)
        exact congrArg (balance + ·) (Int.add_zero _).symm

/-! ## Main result -/

/-- The offers on the other side still have enough for a trade of their own when one is made with them. -/
def SuitedCall (call : Call) : System → Prop :=
  CarefulCall (fun system number other => ∀ offer otherOffer trade otherTrade,
    Begins system number other offer otherOffer trade otherTrade →
      ¬ Undersized system (call.checks other) offer otherOffer trade otherTrade) call

theorem Measured.of_run (sound : Sound system) (run : trading.Run SuitedCall system next) : Measured system next ∧ Sound next := by
  induction run with
  | start => exact ⟨Measured.refl system, sound⟩
  | step call _ suited stepped kept =>
    obtain ⟨measured, sound⟩ := kept
    obtain ⟨onward, grows⟩ := processTrade_related _ Measured Measured.refl (fun _ _ _ => Measured.trans)
      (fun _ _ _ _ _ _ _ _ may begins done => begins.measured (may _ _ _ _ begins) done) sound suited stepped
    exact ⟨measured.trans onward, grows.sound sound⟩

/-- All that is traded is a multiple of the scale and enough for both offers. -/
theorem trades_measured (reached : Reached system) (run : trading.Run SuitedCall system next) : Measured system next :=
  (Measured.of_run reached.sound run).1

/-! A buyer who wants no less than 60 at once meets two sellers of 70 each. -/

def crowdEvents (bought : Int) : List Event :=
  [.add (sampleOffer 2 false bought 60 (by decide)) (some { senderAcctID := 20, currencyAcctID := 21, apart := buyer_apart }) 0,
    .add (sampleOffer 1 true 70 10 (by decide)) (some { senderAcctID := 10, currencyAcctID := 11, apart := seller_apart }) 0,
    .add (sampleOffer 3 true 70 10 (by decide)) (some { senderAcctID := 10, currencyAcctID := 11, apart := seller_apart }) 0]

theorem suited_of_bid {call : Call} (asks : (system.market.offers call.number).map (·.isAsk) = some true)
    (bids : system.market.bids.map (·.2) = [other]) (enough : Ready system other) : SuitedCall call system := by
  intro offer found
  rw [found] at asks
  have opposite : system.market.opposite offer = [other] := by
    unfold Market.opposite
    rw [if_pos (Option.some.inj asks), List.map_reverse, bids]
    rfl
  rw [opposite]
  refine ⟨fun offer otherOffer trade otherTrade begins undersized => ?_, fun _ _ => trivial⟩
  exact absurd (enough otherOffer begins.meets.otherFound) (not_le_of_gt undersized.1)

/-- Of 130 there are 60 left for the second seller. -/
theorem trades_measured_sample : ∃ system next, machine.runs (crowdEvents 130) (sampleStart 0 (by decide)) = some system ∧
    next.balance 20 = some (Amount.shiftLeft 130) ∧ Measured system next := by
  have ran : ((machine.runs (crowdEvents 130) (sampleStart 0 (by decide))).bind fun system =>
      (step (.process ⟨1, fun _ => {}⟩) system).bind fun middle =>
        (step (.process ⟨3, fun _ => {}⟩) middle).map fun next => next.balance 20) = some (some (Amount.shiftLeft 130)) := by decide +kernel
  have first : (machine.runs (crowdEvents 130) (sampleStart 0 (by decide))).map (fun system =>
      ((system.market.offers 1).map (·.isAsk), system.market.bids.map (·.2), system.market.offers 2)) =
      some (some true, [2], some (sampleOffer 2 false 130 60 (by decide))) := by decide +kernel
  have second : ((machine.runs (crowdEvents 130) (sampleStart 0 (by decide))).bind fun system =>
      (step (.process ⟨1, fun _ => {}⟩) system).map fun middle =>
      ((middle.market.offers 3).map (·.isAsk), middle.market.bids.map (·.2), middle.market.offers 2)) =
      some (some true, [2], some ((sampleOffer 2 false 130 60 (by decide)).incrementFinishedSoFar (Amount.shiftLeft 70))) := by decide +kernel
  obtain ⟨system, began, ended⟩ := Option.bind_eq_some_iff.mp ran
  obtain ⟨middle, went, ended⟩ := Option.bind_eq_some_iff.mp ended
  obtain ⟨next, stepped, balance⟩ := Option.map_eq_some_iff.mp ended
  simp only [began, went, Option.map_some, Option.bind_some, Option.some.injEq, Prod.mk.injEq] at first second
  refine ⟨system, next, began, balance, trades_measured (sample_reached began)
    (.step _ (.step _ .start (suited_of_bid (first.1) first.2.1 fun offer found => ?_) went)
      (suited_of_bid second.1 second.2.1 fun offer found => ?_) stepped)⟩
  · obtain rfl := Option.some.inj (first.2.2.symm.trans found)
    decide
  · obtain rfl := Option.some.inj (second.2.2.symm.trans found)
    decide

/-- Of 100 there are 30 left, which the second seller gives. -/
theorem remainder_traded : ∃ system next, Reached system ∧
    trading.runs [⟨1, fun _ => {}⟩, ⟨3, fun _ => {}⟩] system = some next ∧ ¬ Measured system next := by
  have ran : ((machine.runs (crowdEvents 100) (sampleStart 0 (by decide))).bind fun system =>
      (trading.runs [⟨1, fun _ => {}⟩, ⟨3, fun _ => {}⟩] system).map fun next =>
        (system.acknowledged, next.acknowledged.map fun receipt => (receipt.first, receipt.other, receipt.items.map (·.amount)))) =
      some ([], [(1, 2, [Amount.shiftLeft (-70), Amount.shiftLeft 70, Amount.shiftLeft 70, Amount.shiftLeft (-70)]),
        (3, 2, [Amount.shiftLeft (-30), Amount.shiftLeft 30, Amount.shiftLeft 30, Amount.shiftLeft (-30)])]) := by decide +kernel
  have offers : (machine.runs (crowdEvents 100) (sampleStart 0 (by decide))).map (fun system => (system.market.offers 2, system.market.offers 3)) =
      some (some (sampleOffer 2 false 100 60 (by decide)), some (sampleOffer 3 true 70 10 (by decide))) := by decide +kernel
  obtain ⟨system, began, ended⟩ := Option.bind_eq_some_iff.mp ran
  obtain ⟨next, traded, told⟩ := Option.map_eq_some_iff.mp ended
  simp only [began, Option.map_some, Option.some.injEq, Prod.mk.injEq] at offers told
  obtain ⟨bid, ask⟩ := offers
  refine ⟨system, next, sample_reached began, traded, fun measured => ?_⟩
  obtain ⟨moves, receipts, acknowledged, sublist, sized, _⟩ := measured.moves
  rw [told.1] at acknowledged
  have receipts_told := told.2
  rw [acknowledged, List.nil_append] at receipts_told
  obtain ⟨receipt, listed, same⟩ := List.mem_map.mp (receipts_told.symm ▸ List.mem_cons_of_mem _ List.mem_cons_self)
  obtain ⟨offer, otherOffer, trade, otherTrade, found, otherFound, _, _, multiple, currency, _, _, least, moved⟩ :=
    sized receipt (sublist.subset listed)
  obtain ⟨one, two, amounts⟩ := Prod.mk.inj same |>.imp_right Prod.mk.inj
  rw [one, ask] at found
  rw [two, bid] at otherFound
  obtain rfl := Option.some.inj found
  obtain rfl := Option.some.inj otherFound
  rw [moved] at amounts
  have seller : -(multiple * system.market.scale) = Amount.shiftLeft (-30) := (List.cons.inj amounts).1
  have bound : Amount.shiftLeft 60 ≤ multiple * system.market.scale := least
  have small : Amount.shiftLeft 60 ≤ -Amount.shiftLeft (-30) := by
    rw [← seller, Int.neg_neg]
    exact bound
  exact absurd small (by decide)

end Opentxs.Trading
