import Opentxs.Trading.Exchange

/-! Whether an exchange is made as a whole or not at all. -/

namespace Opentxs.Trading
open Spend

variable {system after : System} {checks : Checks} {first other : TransactionNum} {offer otherOffer : Offer} {trade otherTrade : Trade}

/-! ## What moves in a round -/

/-- The size of the trades of an offer suits the market. -/
def Market.Admits (market : Market) (offer : Offer) : Prop :=
  market.scale = offer.scale ∧ market.scale ≤ offer.minimumIncrement ∧ offer.minimumIncrement.remainder market.scale = 0

theorem Market.admits_of_validate {market : Market} (valid : market.validateOfferForMarket offer = true) :
    market.Admits offer ∧ offer.minimumIncrement ≤ offer.amountAvailable := by
  simp only [validateOfferForMarket, ne_eq, ite_not, Bool.if_false_right, Bool.if_false_left, Bool.and_true, Bool.and_eq_true,
    decide_eq_true_eq, Bool.not_eq_true', decide_eq_false_iff_not, not_lt] at valid
  obtain ⟨_, _, _, scale, _, least, whole, available⟩ := valid
  exact ⟨⟨scale, least, whole⟩, available⟩

/-- What the caller of an exchange has made sure of. -/
structure System.Meets (system : System) (first other : TransactionNum) (offer otherOffer : Offer) (trade otherTrade : Trade) : Prop where
  found : system.market.offers first = some offer
  otherFound : system.market.offers other = some otherOffer
  trade : system.trade first = some trade
  otherTrade : system.trade other = some otherTrade
  sides : offer.selling ≠ otherOffer.selling
  admits : system.market.Admits offer
  otherAdmits : system.market.Admits otherOffer
  available : otherOffer.minimumIncrement ≤ offer.amountAvailable
  otherAvailable : offer.minimumIncrement ≤ otherOffer.amountAvailable

theorem tdiv_mul_of_remainder {scale amount : Amount} (whole : amount.remainder scale = 0) : amount.tdiv scale * scale = amount := by
  have split := Int.tdiv_mul_add_tmod amount scale
  have whole : Int.tmod amount scale = 0 := whole
  rw [whole, Int.add_zero] at split
  exact split

theorem tdiv_pos {scale amount : Amount} (positive : 0 < scale) (least : scale ≤ amount) : 0 < amount.tdiv scale := by
  rw [Int.tdiv_eq_ediv_of_nonneg (positive.le.trans least)]
  exact (Int.le_ediv_iff_mul_le positive).mpr (by rw [Int.zero_add, Int.one_mul]; exact least)

theorem terms_multiple {scale : Amount} (legs : Legs) (positive : 0 < scale)
    (admits : scale ≤ offer.minimumIncrement ∧ offer.minimumIncrement.remainder scale = 0)
    (otherAdmits : scale ≤ otherOffer.minimumIncrement ∧ otherOffer.minimumIncrement.remainder scale = 0)
    (available : scale ≤ offer.amountAvailable) (otherAvailable : scale ≤ otherOffer.amountAvailable) :
    ∃ multiple : Int, 0 < multiple ∧ (terms scale offer otherOffer legs).1 = multiple * scale ∧
      (terms scale offer otherOffer legs).2 = multiple * otherOffer.priceLimit := by
  have suits : ∃ multiple : Int, 0 < multiple ∧ (terms scale offer otherOffer legs).1 = multiple * scale := by
    unfold terms
    simp only []
    split
    · have least : scale ≤ if otherOffer.amountAvailable < offer.amountAvailable then otherOffer.amountAvailable else offer.amountAvailable := by
        split
        · exact otherAvailable
        · exact available
      exact ⟨_, tdiv_pos positive least, (eq_sub_of_add_eq (Int.tdiv_mul_add_tmod _ scale)).symm⟩
    · unfold minIncrementPerRound
      split
      · exact ⟨_, tdiv_pos positive admits.1, (tdiv_mul_of_remainder admits.2).symm⟩
      · exact ⟨_, tdiv_pos positive otherAdmits.1, (tdiv_mul_of_remainder otherAdmits.2).symm⟩
  obtain ⟨multiple, some, whole⟩ := suits
  refine ⟨multiple, some, whole, ?_⟩
  calc priceOf scale (terms scale offer otherOffer legs).1 otherOffer
      = (terms scale offer otherOffer legs).1.tdiv scale * otherOffer.priceLimit := Amount.times_shiftLeft _ _
    _ = multiple * otherOffer.priceLimit := by rw [whole, Int.mul_tdiv_cancel _ positive.ne']

theorem System.Meets.scale_pos (meets : system.Meets first other offer otherOffer trade otherTrade) : 0 < system.market.scale := by
  rw [meets.admits.1]
  exact Amount.unit_pos.trans_le offer.scale_least

/-- A round moves a whole number of times the scale, and each of these for the price of the other offer. -/
theorem System.Meets.multiple (meets : system.Meets first other offer otherOffer trade otherTrade) (legs : Legs) :
    ∃ multiple : Int, 0 < multiple ∧ (terms system.market.scale offer otherOffer legs).1 = multiple * system.market.scale ∧
      (terms system.market.scale offer otherOffer legs).2 = multiple * otherOffer.priceLimit :=
  terms_multiple legs meets.scale_pos meets.admits.2 meets.otherAdmits.2 (meets.otherAdmits.2.1.trans meets.available)
    (meets.admits.2.1.trans meets.otherAvailable)

theorem System.Meets.increment_pos (meets : system.Meets first other offer otherOffer trade otherTrade) (legs : Legs) :
    0 < (terms system.market.scale offer otherOffer legs).1 := by
  obtain ⟨multiple, positive, same, _⟩ := meets.multiple legs
  rw [same]
  exact Int.mul_pos positive meets.scale_pos

/-- An exchange is refused, or it ends after some rounds. -/
theorem System.Meets.exchange_cases (checks : Checks) (meets : system.Meets first other offer otherOffer trade otherTrade) :
    (∃ refusal, system.prepare checks trade otherTrade = .error refusal ∧
      system.exchange checks first other = some (system.refuse first other trade otherTrade refusal)) ∨
    ∃ accounts increment price count rounds, system.prepare checks trade otherTrade = .ok accounts ∧
      terms system.market.scale offer otherOffer (accounts.legs offer.isAsk) = (increment, price) ∧ 0 < increment ∧
      rounds.Ends (accounts.legs offer.isAsk) increment price offer.amountAvailable otherOffer.amountAvailable count ∧
      system.exchange checks first other =
        some (system.conclude first other offer otherOffer trade otherTrade increment price rounds) := by
  have opened : system.exchange checks first other =
      system.meet first other offer otherOffer trade otherTrade (system.prepare checks trade otherTrade) := by
    unfold exchange
    rw [meets.found, meets.otherFound, meets.trade, meets.otherTrade]
    rfl
  rw [opened]
  cases prepared : system.prepare checks trade otherTrade with
  | error refusal => exact .inl ⟨refusal, rfl, rfl⟩
  | ok accounts =>
    have positive := meets.increment_pos (accounts.legs offer.isAsk)
    obtain ⟨count, rounds, ran, ends⟩ := Rounds.run_start (accounts.legs offer.isAsk)
      (terms system.market.scale offer otherOffer (accounts.legs offer.isAsk)).2 otherOffer.amountAvailable positive
    refine .inr ⟨accounts, _, _, count, rounds, rfl, rfl, positive, ends, ?_⟩
    show (Rounds.run _ _ _ _ _ _).map _ = _
    rw [ran]
    rfl

/-! ## What an exchange changes -/

/-- The accounts that are prepared are those of the two trades, which have none in common. -/
structure System.Prepared (system : System) (trade otherTrade : Trade) (accounts : FourAccounts) : Prop where
  firstAsset : system.account trade.senderAcctID = some accounts.firstAsset
  firstCurrency : system.account trade.currencyAcctID = some accounts.firstCurrency
  otherAsset : system.account otherTrade.senderAcctID = some accounts.otherAsset
  otherCurrency : system.account otherTrade.currencyAcctID = some accounts.otherCurrency
  assets : trade.senderAcctID ≠ otherTrade.senderAcctID
  cross : trade.senderAcctID ≠ otherTrade.currencyAcctID
  across : trade.currencyAcctID ≠ otherTrade.senderAcctID
  currencies : trade.currencyAcctID ≠ otherTrade.currencyAcctID
  instruments : accounts.firstAsset.instrumentDefinitionID = system.market.instrumentDefinitionID ∧
    accounts.otherAsset.instrumentDefinitionID = system.market.instrumentDefinitionID
  currencyTypes : accounts.firstCurrency.instrumentDefinitionID = system.market.currencyTypeID ∧
    accounts.otherCurrency.instrumentDefinitionID = system.market.currencyTypeID

theorem System.prepared_of_prepare {accounts : FourAccounts} (prepared : system.prepare checks trade otherTrade = .ok accounts) :
    system.Prepared trade otherTrade accounts := by
  unfold prepare at prepared
  split at prepared
  · cases prepared
  split at prepared
  · cases prepared
  rename_i common
  split at prepared
  · cases prepared
  split at prepared
  · cases prepared
  split at prepared
  case h_2 => cases prepared
  split at prepared
  case h_2 => cases prepared
  split at prepared
  · cases prepared
  rename_i own
  split at prepared
  · cases prepared
  rename_i others
  repeat (split at prepared; · cases prepared)
  obtain rfl := Except.ok.inj prepared
  simp only [not_or, not_not] at common own others
  exact ⟨‹_›, ‹_›, ‹_›, ‹_›, common.1, common.2.1, common.2.2.1, common.2.2.2, ⟨own.1, others.1⟩, own.2, others.2⟩

def System.balance (system : System) (id : AccountID) : Option Amount := (system.account id).map (·.balance)

def amountOf (items : List Item) (id : AccountID) : Amount := (items.map fun item => if item.account = id then item.amount else 0).sum

theorem System.conclude_account (increment price : Amount) (rounds : Rounds) (id : AccountID) :
    (system.conclude first other offer otherOffer trade otherTrade increment price rounds).account id =
      if id = otherTrade.currencyAcctID then some (rounds.legs.fourAccounts offer.isAsk).otherCurrency
      else if id = otherTrade.senderAcctID then some (rounds.legs.fourAccounts offer.isAsk).otherAsset
      else if id = trade.currencyAcctID then some (rounds.legs.fourAccounts offer.isAsk).firstCurrency
      else if id = trade.senderAcctID then some (rounds.legs.fourAccounts offer.isAsk).firstAsset
      else system.account id := by
  have same : (if rounds.success then system.commit first other offer otherOffer trade otherTrade rounds
      else system.giveUp first other offer trade otherTrade increment price rounds).account = system.account := by
    split
    · rfl
    · unfold giveUp
      simp only []
      split <;> rfl
  show (if _ then _ else if _ then _ else if _ then _ else if _ then _ else (System.account (ite _ _ _)) id) = _
  rw [same]

/-- Funds move as the rounds say, whether or not the exchange is a success. -/
theorem System.conclude_balance {accounts : FourAccounts} {increment price assets currency : Amount} {rounds : Rounds}
    (prepared : system.Prepared trade otherTrade accounts) (became : (accounts.legs offer.isAsk).Becomes assets currency rounds.legs)
    (id : AccountID) :
    (system.conclude first other offer otherOffer trade otherTrade increment price rounds).balance id =
      (system.balance id).map (· + amountOf (items first other trade otherTrade offer.isAsk assets assets currency) id) := by
  obtain ⟨firstAsset, firstCurrency, otherAsset, otherCurrency, assetsApart, cross, across, currenciesApart, _, _⟩ := prepared
  have apart := trade.apart
  have otherApart := otherTrade.apart
  unfold balance
  rw [conclude_account]
  -- Every account is at one place of the exchange, or at none.
  by_cases fourth : id = otherTrade.currencyAcctID
  · subst fourth
    rw [if_pos rfl, otherCurrency]
    cases side : offer.isAsk with
    | true =>
      rw [side] at became
      simp [amountOf, items, cross, currenciesApart, otherApart, Legs.fourAccounts, became.currencyDebit.2.2, FourAccounts.legs, sub_eq_add_neg]
    | false =>
      rw [side] at became
      simp [amountOf, items, cross, currenciesApart, otherApart, Legs.fourAccounts, became.currencyCredit.2.2, FourAccounts.legs]
  rw [if_neg fourth]
  by_cases third : id = otherTrade.senderAcctID
  · subst third
    rw [if_pos rfl, otherAsset]
    cases side : offer.isAsk with
    | true =>
      rw [side] at became
      simp [amountOf, items, across, assetsApart, otherApart.symm, Legs.fourAccounts, became.assetCredit.2.2, FourAccounts.legs]
    | false =>
      rw [side] at became
      simp [amountOf, items, across, assetsApart, otherApart.symm, Legs.fourAccounts, became.assetDebit.2.2, FourAccounts.legs, sub_eq_add_neg]
  rw [if_neg third]
  by_cases second : id = trade.currencyAcctID
  · subst second
    rw [if_pos rfl, firstCurrency]
    cases side : offer.isAsk with
    | true =>
      rw [side] at became
      simp [amountOf, items, across.symm, currenciesApart.symm, apart, Legs.fourAccounts, became.currencyCredit.2.2, FourAccounts.legs]
    | false =>
      rw [side] at became
      simp [amountOf, items, across.symm, currenciesApart.symm, apart, Legs.fourAccounts, became.currencyDebit.2.2, FourAccounts.legs,
        sub_eq_add_neg]
  rw [if_neg second]
  by_cases sender : id = trade.senderAcctID
  · subst sender
    rw [if_pos rfl, firstAsset]
    cases side : offer.isAsk with
    | true =>
      rw [side] at became
      simp [amountOf, items, assetsApart.symm, cross.symm, apart.symm, Legs.fourAccounts, became.assetDebit.2.2, FourAccounts.legs,
        sub_eq_add_neg]
    | false =>
      rw [side] at became
      simp [amountOf, items, assetsApart.symm, cross.symm, apart.symm, Legs.fourAccounts, became.assetCredit.2.2, FourAccounts.legs]
  rw [if_neg sender]
  have none : amountOf (items first other trade otherTrade offer.isAsk assets assets currency) id = 0 := by
    cases offer.isAsk <;> simp [amountOf, items, Ne.symm sender, Ne.symm second, Ne.symm third, Ne.symm fourth]
  rw [none]
  cases system.account id with
  | none => rfl
  | some account => exact congrArg some (Int.add_zero _).symm

section

variable {increment price : Amount} {rounds : Rounds}

theorem System.conclude_market :
    (system.conclude first other offer otherOffer trade otherTrade increment price rounds).market =
      if rounds.success then (system.commit first other offer otherOffer trade otherTrade rounds).market else system.market := by
  unfold conclude
  split
  · rfl
  · unfold giveUp
    simp only []
    split <;> rfl

theorem System.conclude_trade :
    (system.conclude first other offer otherOffer trade otherTrade increment price rounds).trade =
      if rounds.success then (system.commit first other offer otherOffer trade otherTrade rounds).trade
      else (system.giveUp first other offer trade otherTrade increment price rounds).trade := by
  unfold conclude
  split
  · rfl
  · rfl

theorem System.conclude_inbox (success : rounds.success = true) :
    (system.conclude first other offer otherOffer trade otherTrade increment price rounds).inbox =
      (system.commit first other offer otherOffer trade otherTrade rounds).inbox := by
  unfold conclude
  simp only [success, if_true]
  rfl

end

def System.tradesDone (system : System) (number : TransactionNum) : Option Int := (system.trade number).map (·.tradesAlreadyDone)

theorem System.flag_tradesDone (found : system.trade first = some trade) (number : TransactionNum) :
    (system.setTrade first trade.flagForRemoval).tradesDone number = system.tradesDone number := by
  show (if number = first then some trade.flagForRemoval else system.trade number).map _ = _
  by_cases same : number = first
  · rw [if_pos same, same, tradesDone, found]
    rfl
  · rw [if_neg same]
    rfl

theorem System.giveUp_tradesDone (found : system.trade first = some trade) (increment price : Amount) (rounds : Rounds)
    (number : TransactionNum) :
    (system.giveUp first other offer trade otherTrade increment price rounds).tradesDone number = system.tradesDone number := by
  unfold giveUp
  simp only []
  split
  · exact (flag_tradesDone (show ({ system with inbox := _ } : System).trade first = some trade from found) number)
  · rfl

theorem System.refuse_keeps (meets : system.Meets first other offer otherOffer trade otherTrade) (refusal : Refusal) :
    (system.refuse first other trade otherTrade refusal).market = system.market ∧
      (system.refuse first other trade otherTrade refusal).account = system.account ∧
      ∀ number, (system.refuse first other trade otherTrade refusal).tradesDone number = system.tradesDone number := by
  cases refusal with
  | leave => exact ⟨rfl, rfl, fun _ => rfl⟩
  | flagFirst => exact ⟨rfl, rfl, flag_tradesDone meets.trade⟩
  | flagOther => exact ⟨rfl, rfl, flag_tradesDone meets.otherTrade⟩

/-! ## Main result -/

/-- The balances, the offers, the counters and four receipts all tell of the same amounts. -/
def Made (before after : System) (first other : TransactionNum) (offer otherOffer : Offer) (trade otherTrade : Trade)
    (assets currency : Amount) : Prop :=
  (∀ id, after.balance id = (before.balance id).map
    (· + amountOf (items first other trade otherTrade offer.isAsk assets assets currency) id)) ∧
  after.market.offers first = some (offer.incrementFinishedSoFar assets) ∧
  after.market.offers other = some (otherOffer.incrementFinishedSoFar assets) ∧
  after.tradesDone first = some (trade.tradesAlreadyDone + 1) ∧ after.tradesDone other = some (otherTrade.tradesAlreadyDone + 1) ∧
  after.inbox = before.inbox ++ [⟨.acknowledgement, first, other, items first other trade otherTrade offer.isAsk assets assets currency⟩]

def Untouched (before after : System) (first other : TransactionNum) : Prop :=
  (∀ id, after.balance id = before.balance id) ∧
  after.market.offers first = before.market.offers first ∧ after.market.offers other = before.market.offers other ∧
  after.tradesDone first = before.tradesDone first ∧ after.tradesDone other = before.tradesDone other

/-- If the two trades may exchange, no round is refused after the first one. -/
def System.Settles (system : System) (checks : Checks) (offer otherOffer : Offer) (trade otherTrade : Trade) : Prop :=
  ∀ accounts, system.prepare checks trade otherTrade = .ok accounts →
    (accounts.legs offer.isAsk).Settles (terms system.market.scale offer otherOffer (accounts.legs offer.isAsk)).1
      (terms system.market.scale offer otherOffer (accounts.legs offer.isAsk)).2 offer.amountAvailable otherOffer.amountAvailable

theorem System.Meets.distinct (meets : system.Meets first other offer otherOffer trade otherTrade) : first ≠ other := by
  rintro rfl
  exact meets.sides (congrArg Offer.selling (Option.some.inj (meets.found.symm.trans meets.otherFound)))

theorem System.conclude_made {accounts : FourAccounts} {increment price assets currency : Amount} {rounds : Rounds}
    (meets : system.Meets first other offer otherOffer trade otherTrade) (prepared : system.Prepared trade otherTrade accounts)
    (became : (accounts.legs offer.isAsk).Becomes assets currency rounds.legs) (success : rounds.success = true)
    (finished : rounds.offerFinished = assets) (otherFinished : rounds.otherOfferFinished = assets)
    (paid : rounds.totalPaidOut = currency) :
    Made system (system.conclude first other offer otherOffer trade otherTrade increment price rounds) first other offer otherOffer
      trade otherTrade assets currency := by
  subst finished paid
  refine ⟨conclude_balance prepared became, ?_, ?_, ?_, ?_, ?_⟩
  · rw [conclude_market, if_pos success]
    show (if first = other then _ else if first = first then _ else _) = _
    rw [if_neg meets.distinct, if_pos rfl]
  · rw [conclude_market, if_pos success]
    show (if other = other then _ else _) = _
    rw [if_pos rfl, otherFinished]
  · rw [tradesDone, conclude_trade, if_pos success]
    show (if first = other then _ else if first = first then _ else _ : Option Trade).map _ = _
    rw [if_neg meets.distinct, if_pos rfl]
    rfl
  · rw [tradesDone, conclude_trade, if_pos success]
    show (if other = other then _ else _ : Option Trade).map _ = _
    rw [if_pos rfl]
    rfl
  · rw [conclude_inbox success, ← otherFinished]
    show system.inbox ++ _ = _
    rw [otherFinished]

theorem amountOf_zero (id : AccountID) : amountOf (items first other trade otherTrade offer.isAsk 0 0 0) id = 0 := by
  cases offer.isAsk <;> simp [amountOf, items]

/-- The one who sells. -/
theorem amountOf_seller {accounts : FourAccounts} (prepared : system.Prepared trade otherTrade accounts) (assets currency : Amount) :
    amountOf (items first other trade otherTrade offer.isAsk assets assets currency)
      (if offer.isAsk then trade.senderAcctID else otherTrade.senderAcctID) = -assets := by
  have apart := trade.apart
  have otherApart := otherTrade.apart
  cases offer.isAsk with
  | true => simp [amountOf, items, prepared.assets.symm, prepared.cross.symm, apart.symm]
  | false => simp [amountOf, items, prepared.assets, prepared.across, otherApart.symm]

theorem System.Prepared.seller {accounts : FourAccounts} (prepared : system.Prepared trade otherTrade accounts) (isAsk : Bool) :
    ∃ balance, system.balance (if isAsk then trade.senderAcctID else otherTrade.senderAcctID) = some balance := by
  cases isAsk with
  | true => exact ⟨accounts.firstAsset.balance, congrArg (Option.map Account.balance) prepared.firstAsset⟩
  | false => exact ⟨accounts.otherAsset.balance, congrArg (Option.map Account.balance) prepared.otherAsset⟩

theorem exchange_all_or_nothing (checks : Checks) (meets : system.Meets first other offer otherOffer trade otherTrade) :
    ∃ after, system.exchange checks first other = some after ∧
      (((∃ assets currency, Made system after first other offer otherOffer trade otherTrade assets currency) ∨
        Untouched system after first other) ↔ system.Settles checks offer otherOffer trade otherTrade) := by
  rcases meets.exchange_cases checks with ⟨refusal, refused, done⟩ | ⟨accounts, increment, price, count, rounds, prepared, terms, positive, ends, done⟩
  · obtain ⟨market, account, counters⟩ := System.refuse_keeps meets refusal
    refine ⟨_, done, ⟨fun _ accounts prepared => ?_, fun _ => .inr ⟨fun id => ?_, ?_, ?_, counters first, counters other⟩⟩⟩
    · rw [refused] at prepared
      cases prepared
    · rw [System.balance, account]
      rfl
    all_goals rw [market]
  · have ready := System.prepared_of_prepare prepared
    have settles : system.Settles checks offer otherOffer trade otherTrade ↔ rounds.success = decide (0 < count) := by
      rw [← ends.settles_iff]
      refine ⟨fun settles => by simpa only [terms] using settles accounts prepared, fun settles other same => ?_⟩
      obtain rfl := Except.ok.inj (prepared.symm.trans same)
      rw [terms]
      exact settles
    refine ⟨_, done, ?_⟩
    rw [settles]
    cases success : rounds.success with
    | true =>
      have some : true = decide (0 < count) := by
        rcases ends.last with ⟨_, same⟩ | ⟨_, _, failed⟩
        · exact success.symm.trans same
        · cases success.symm.trans failed
      exact ⟨fun _ => some, fun _ => .inl ⟨_, _, System.conclude_made meets ready ends.counts.legs success ends.counts.offerFinished
        ends.counts.otherOfferFinished ends.counts.totalPaidOut⟩⟩
    | false =>
      have failure : ¬ rounds.success = true := by rw [success]; decide
      have counters (number : TransactionNum) :
          (system.conclude first other offer otherOffer trade otherTrade increment price rounds).tradesDone number =
            system.tradesDone number := by
        rw [System.tradesDone, System.conclude_trade, if_neg failure]
        exact System.giveUp_tradesDone meets.trade _ _ _ number
      have moved (id : AccountID) : (system.conclude first other offer otherOffer trade otherTrade increment price rounds).balance id =
          (system.balance id).map (· + amountOf
            (items first other trade otherTrade offer.isAsk (count * increment) (count * increment) (count * price)) id) :=
        System.conclude_balance ready ends.counts.legs id
      constructor
      · rintro (⟨assets, currency, made⟩ | untouched)
        · have counted : system.tradesDone first = some (trade.tradesAlreadyDone + 1) := (counters first).symm.trans made.2.2.2.1
          rw [System.tradesDone, meets.trade] at counted
          exact absurd (Option.some.inj counted) (by simp)
        · rw [eq_comm, decide_eq_false_iff_not]
          intro some
          obtain ⟨balance, owned⟩ := ready.seller offer.isAsk
          have same := (moved _).symm.trans (untouched.1 (if offer.isAsk then trade.senderAcctID else otherTrade.senderAcctID))
          rw [owned, amountOf_seller ready] at same
          have same : balance + -(count * increment) = balance := Option.some.inj same
          have paid : 0 < (count : Amount) * increment := Int.mul_pos (Int.natCast_pos.mpr some) positive
          lia
      · intro none
        have none : count = 0 := Nat.eq_zero_of_not_pos (of_decide_eq_false none.symm)
        refine .inr ⟨fun id => ?_, ?_, ?_, counters first, counters other⟩
        · rw [moved id, none, Int.natCast_zero, Int.zero_mul, Int.zero_mul, amountOf_zero]
          simp
        all_goals rw [System.conclude_market, if_neg failure]

/-! A seller of 200 with 150 in the account meets a buyer of 200. -/

def sampleOffer (number : TransactionNum) (selling : Bool) (total minimum : Int) (least : 0 < minimum) : Offer where
  transactionNum := number
  notaryID := 0
  instrumentDefinitionID := 1
  currencyID := 2
  selling := selling
  priceLimit := Amount.shiftLeft 1
  totalAssetsOffer := Amount.shiftLeft total
  scale := Amount.unit
  minimumIncrement := Amount.shiftLeft minimum
  scale_least := le_rfl
  minimumIncrement_least := le_mul_of_one_le_left Amount.unit_pos.le least

def sampleAccount (unit : UnitDefinition) (units : Int) (few : 0 ≤ units ∧ units < 2 ^ 63) : Account where
  instrumentDefinitionID := unit
  balance := Amount.shiftLeft units
  holds := by
    unfold AccountType.Holds leastBalance mostBalance Amount.shiftLeft Amount.unit
    have := few.2
    exact ⟨by lia, by lia, .inr (by lia)⟩

theorem seller_apart : (10 : Nat) ≠ 11 := by decide

theorem buyer_apart : (20 : Nat) ≠ 21 := by decide

theorem fifty_pos : (0 : Int) < 50 := by decide

def sampleSystem (bought : Int) (few : 0 ≤ bought ∧ bought < 2 ^ 63) : System where
  market :=
    { notaryID := 0
      instrumentDefinitionID := 1
      currencyTypeID := 2
      scale := Amount.unit
      offers := fun number =>
        if number = 1 then some (sampleOffer 1 true 200 50 fifty_pos) else if number = 2 then some (sampleOffer 2 false 200 50 fifty_pos)
        else none }
  trade := fun number =>
    if number = 1 then some { senderAcctID := 10, currencyAcctID := 11, apart := seller_apart }
    else if number = 2 then some { senderAcctID := 20, currencyAcctID := 21, apart := buyer_apart } else none
  account := fun id =>
    if id = 10 then some (sampleAccount 1 150 (by decide)) else if id = 11 then some (sampleAccount 2 0 (by decide))
    else if id = 20 then some (sampleAccount 1 bought few) else if id = 21 then some (sampleAccount 2 1000 (by decide)) else none

theorem exchange_all_or_nothing_sample : ∃ after, (sampleSystem 0 (by decide)).exchange {} 1 2 = some after ∧
    (((∃ assets currency, Made (sampleSystem 0 (by decide)) after 1 2 (sampleOffer 1 true 200 50 (by decide))
        (sampleOffer 2 false 200 50 (by decide)) { senderAcctID := 10, currencyAcctID := 11, apart := by decide }
        { senderAcctID := 20, currencyAcctID := 21, apart := by decide } assets currency) ∨
      Untouched (sampleSystem 0 (by decide)) after 1 2) ↔
      (sampleSystem 0 (by decide)).Settles {} (sampleOffer 1 true 200 50 (by decide)) (sampleOffer 2 false 200 50 (by decide))
        { senderAcctID := 10, currencyAcctID := 11, apart := by decide }
        { senderAcctID := 20, currencyAcctID := 21, apart := by decide }) :=
  exchange_all_or_nothing {} ⟨rfl, rfl, rfl, rfl, by decide, ⟨rfl, by decide, by decide⟩, ⟨rfl, by decide, by decide⟩, by decide, by decide⟩

/-- The account of the buyer has room for one round and not for two. -/
theorem late_round_refused : ∃ after, (sampleSystem (2 ^ 63 - 61) (by decide)).exchange {} 1 2 = some after ∧
    ¬ ((∃ assets currency, Made (sampleSystem (2 ^ 63 - 61) (by decide)) after 1 2 (sampleOffer 1 true 200 50 (by decide))
        (sampleOffer 2 false 200 50 (by decide)) { senderAcctID := 10, currencyAcctID := 11, apart := by decide }
        { senderAcctID := 20, currencyAcctID := 21, apart := by decide } assets currency) ∨
      Untouched (sampleSystem (2 ^ 63 - 61) (by decide)) after 1 2) := by
  have ran : ((sampleSystem (2 ^ 63 - 61) (by decide)).exchange {} 1 2).map (fun after => (after.balance 10, after.tradesDone 1)) =
      some (some (Amount.shiftLeft 100), some 0) := by decide +kernel
  obtain ⟨after, done, told⟩ := Option.map_eq_some_iff.mp ran
  obtain ⟨balance, counter⟩ := Prod.mk.inj told
  refine ⟨after, done, ?_⟩
  rintro (⟨assets, currency, made⟩ | untouched)
  · cases counter.symm.trans made.2.2.2.1
  · have same : some (Amount.shiftLeft 100) = some (Amount.shiftLeft 150) := balance.symm.trans (untouched.1 10)
    exact absurd (Option.some.inj same) (by decide)

end Opentxs.Trading
