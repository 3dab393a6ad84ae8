import Opentxs.Trading.Matching
import Mathlib.Algebra.BigOperators.Group.Finset.Basic
import Mathlib.Algebra.BigOperators.Group.Finset.Piecewise

/-! The receipts of a market account for all that its trades do to the accounts and the offers. -/

namespace Opentxs.Trading
open Library Spend

variable {system next later : System} {checks : Checks} {number first other : TransactionNum} {offer otherOffer : Offer}
  {trade otherTrade : Trade}

/-! ## Receipts -/

def System.acknowledged (system : System) : List Receipt := system.inbox.filter (·.status = .acknowledgement)

/-- What an account has received, less what it gave. -/
def received (receipts : List Receipt) (id : AccountID) : Amount := (receipts.map fun receipt => amountOf receipt.items id).sum

def tradedIn (items : List Item) (number : TransactionNum) (id : AccountID) : Amount :=
  (items.map fun item => if item.trade = number ∧ item.account = id then item.amount else 0).sum

/-- What an account has received for one trade, less what it gave. -/
def traded (receipts : List Receipt) (number : TransactionNum) (id : AccountID) : Amount :=
  (receipts.map fun receipt => tradedIn receipt.items number id).sum

/-- What an offer has come to by the assets that its account gave or received. -/
def System.filled (system : System) (receipts : List Receipt) (number : TransactionNum) (offer : Offer) : Amount :=
  (system.trade number).elim 0 fun trade =>
    if offer.selling then -traded receipts number trade.senderAcctID else traded receipts number trade.senderAcctID

theorem received_append (receipts more : List Receipt) (id : AccountID) :
    received (receipts ++ more) id = received receipts id + received more id := by
  unfold received
  rw [List.map_append, List.sum_append]

theorem traded_append (receipts more : List Receipt) (id : AccountID) :
    traded (receipts ++ more) number id = traded receipts number id + traded more number id := by
  unfold traded
  rw [List.map_append, List.sum_append]

/-- Assets and currency of a trade between two offers. The price suits both limits, where they have one. -/
def Fair (system : System) (receipt : Receipt) : Prop :=
  ∃ offer otherOffer trade otherTrade, system.market.offers receipt.first = some offer ∧
    system.market.offers receipt.other = some otherOffer ∧ system.trade receipt.first = some trade ∧
    system.trade receipt.other = some otherTrade ∧ offer.selling ≠ otherOffer.selling ∧
    ∃ (multiple : Int) (price : Amount), 0 < multiple ∧
      receipt.items = items receipt.first receipt.other trade otherTrade offer.isAsk (multiple * system.market.scale)
        (multiple * system.market.scale) (multiple * price) ∧
      ∀ side ∈ [offer, otherOffer], side.priceLimit ≠ 0 → if side.selling then side.priceLimit ≤ price else price ≤ side.priceLimit

/-! ## Sums -/

def System.unitOf (system : System) (id : AccountID) : Option UnitDefinition := (system.account id).map (·.instrumentDefinitionID)

/-- All that there is of an instrument in some accounts. -/
def System.total (system : System) (ids : Finset AccountID) (unit : UnitDefinition) : Amount :=
  ∑ id ∈ ids, if system.unitOf id = some unit then (system.balance id).getD 0 else 0

theorem sum_amountOf (ids : Finset AccountID) (among : AccountID → Prop) [DecidablePred among] (items : List Item)
    (listed : ∀ item ∈ items, item.account ∈ ids) :
    ∑ id ∈ ids, (if among id then amountOf items id else 0) =
      (items.map fun item => if among item.account then item.amount else 0).sum := by
  induction items with
  | nil =>
    apply Finset.sum_eq_zero
    intro id _
    split <;> rfl
  | cons item items ih =>
    have split (id : AccountID) : (if among id then amountOf (item :: items) id else 0) =
        (if item.account = id then if among item.account then item.amount else 0 else 0) + if among id then amountOf items id else 0 := by
      by_cases same : item.account = id
      · subst same
        by_cases counts : among item.account
        · simp [amountOf, counts]
        · simp [counts]
      · simp [amountOf, same]
    rw [Finset.sum_congr rfl fun id _ => split id, Finset.sum_add_distrib, ih fun other member => listed other (List.mem_cons_of_mem _ member),
      Finset.sum_ite_eq, if_pos (listed item List.mem_cons_self), List.map_cons, List.sum_cons]

/-- What one side gives the other side gets. -/
theorem items_cancel {accounts : FourAccounts} (prepared : system.Prepared trade otherTrade accounts) (assets currency : Amount)
    (isAsk : Bool) (unit : UnitDefinition) :
    ((items first other trade otherTrade isAsk assets assets currency).map fun item =>
      if system.unitOf item.account = some unit then item.amount else 0).sum = 0 := by
  have firstAsset : system.unitOf trade.senderAcctID = some system.market.instrumentDefinitionID := by
    rw [System.unitOf, prepared.firstAsset, ← prepared.instruments.1]
    rfl
  have otherAsset : system.unitOf otherTrade.senderAcctID = some system.market.instrumentDefinitionID := by
    rw [System.unitOf, prepared.otherAsset, ← prepared.instruments.2]
    rfl
  have firstCurrency : system.unitOf trade.currencyAcctID = some system.market.currencyTypeID := by
    rw [System.unitOf, prepared.firstCurrency, ← prepared.currencyTypes.1]
    rfl
  have otherCurrency : system.unitOf otherTrade.currencyAcctID = some system.market.currencyTypeID := by
    rw [System.unitOf, prepared.otherCurrency, ← prepared.currencyTypes.2]
    rfl
  cases isAsk with
  | true =>
    show (if system.unitOf trade.senderAcctID = _ then -assets else 0) + ((if system.unitOf trade.currencyAcctID = _ then currency else 0) +
      ((if system.unitOf otherTrade.senderAcctID = _ then assets else 0) + ((if system.unitOf otherTrade.currencyAcctID = _ then -currency else 0) + 0))) = 0
    rw [firstAsset, otherAsset, firstCurrency, otherCurrency]
    split <;> split <;> lia
  | false =>
    show (if system.unitOf trade.senderAcctID = _ then assets else 0) + ((if system.unitOf trade.currencyAcctID = _ then -currency else 0) +
      ((if system.unitOf otherTrade.senderAcctID = _ then -assets else 0) + ((if system.unitOf otherTrade.currencyAcctID = _ then currency else 0) + 0))) = 0
    rw [firstAsset, otherAsset, firstCurrency, otherCurrency]
    split <;> split <;> lia

/-- The accounts are those that there were. -/
structure SameAccounts (system next : System) : Prop where
  units : ∀ id, next.unitOf id = system.unitOf id
  trades : ∀ number, (next.trade number).map (fun trade => (trade.senderAcctID, trade.currencyAcctID)) =
    (system.trade number).map fun trade => (trade.senderAcctID, trade.currencyAcctID)

theorem total_of_moved (same : SameAccounts system next) (ids : Finset AccountID) (unit : UnitDefinition) (moved : List Item)
    (covers : ∀ id, (system.account id).isSome → id ∈ ids) (listed : ∀ item ∈ moved, (system.account item.account).isSome)
    (balances : ∀ id, next.balance id = (system.balance id).map (· + amountOf moved id))
    (cancels : (moved.map fun item => if system.unitOf item.account = some unit then item.amount else 0).sum = 0) :
    next.total ids unit = system.total ids unit := by
  have each (id : AccountID) : (if next.unitOf id = some unit then (next.balance id).getD 0 else 0) =
      (if system.unitOf id = some unit then (system.balance id).getD 0 else 0) + if system.unitOf id = some unit then amountOf moved id else 0 := by
    rw [same.units, balances]
    by_cases counts : system.unitOf id = some unit
    · rw [if_pos counts, if_pos counts, if_pos counts]
      obtain ⟨account, found, _⟩ := Option.map_eq_some_iff.mp counts
      rw [System.balance, found]
      rfl
    · rw [if_neg counts, if_neg counts, if_neg counts]
      rfl
  unfold System.total
  rw [Finset.sum_congr rfl fun id _ => each id, Finset.sum_add_distrib,
    sum_amountOf ids (fun id => system.unitOf id = some unit) moved fun item member => covers _ (listed item member), cancels]
  exact Int.add_zero _

/-! ## What trades do -/

/-- The receipts since then account for every balance and every offer, and nothing is lost or made. -/
structure Statement (system next : System) : Prop where
  grows : Grows system next
  accounts : SameAccounts system next
  receipts : ∃ receipts, next.acknowledged = system.acknowledged ++ receipts ∧ (∀ receipt ∈ receipts, Fair system receipt) ∧
    (∀ id, next.balance id = (system.balance id).map (· + received receipts id)) ∧
    ∀ number, next.market.offers number =
      (system.market.offers number).map fun offer => offer.incrementFinishedSoFar (system.filled receipts number offer)
  conserved : ∀ ids : Finset AccountID, (∀ id, (system.account id).isSome → id ∈ ids) → ∀ unit, next.total ids unit = system.total ids unit

theorem filled_nil (system : System) (number : TransactionNum) (offer : Offer) : system.filled [] number offer = 0 := by
  unfold System.filled
  cases system.trade number with
  | none => rfl
  | some trade =>
    show (if offer.selling = true then -(0 : Int) else 0) = 0
    rw [Int.neg_zero, ite_self]

/-- Where nothing moves there is nothing to account for. -/
theorem Statement.idle (accounts : SameAccounts system next) (market : next.market = system.market)
    (balances : ∀ id, next.balance id = system.balance id) (acknowledged : next.acknowledged = system.acknowledged) : Statement system next := by
  refine ⟨Grows.of_market market, accounts, ⟨[], ?_, fun _ member => absurd member List.not_mem_nil, fun id => ?_, fun number => ?_⟩,
    fun ids _ unit => ?_⟩
  · rw [acknowledged, List.append_nil]
  · rw [balances]
    cases system.balance id with
    | none => rfl
    | some balance => exact congrArg some (Int.add_zero _).symm
  · rw [market]
    cases system.market.offers number with
    | none => rfl
    | some offer =>
      show some offer = some (offer.incrementFinishedSoFar (system.filled [] number offer))
      rw [filled_nil, incrementFinishedSoFar_zero]
  · unfold System.total
    exact Finset.sum_congr rfl fun id _ => by rw [accounts.units, balances]

theorem Statement.refl (system : System) : Statement system system := Statement.idle ⟨fun _ => rfl, fun _ => rfl⟩ rfl (fun _ => rfl) rfl

theorem items_congr {same otherSame : Trade} {assets otherAssets currency : Amount} {isAsk : Bool}
    (own : (same.senderAcctID, same.currencyAcctID) = (trade.senderAcctID, trade.currencyAcctID))
    (others : (otherSame.senderAcctID, otherSame.currencyAcctID) = (otherTrade.senderAcctID, otherTrade.currencyAcctID)) :
    items first other same otherSame isAsk assets otherAssets currency = items first other trade otherTrade isAsk assets otherAssets currency := by
  obtain ⟨sender, currencyAcct⟩ := Prod.mk.inj own
  obtain ⟨otherSender, otherCurrencyAcct⟩ := Prod.mk.inj others
  unfold items
  rw [sender, currencyAcct, otherSender, otherCurrencyAcct]

theorem SameAccounts.trade_before (same : SameAccounts system next) {after : Trade} (found : next.trade number = some after) :
    ∃ trade, system.trade number = some trade ∧
      (after.senderAcctID, after.currencyAcctID) = (trade.senderAcctID, trade.currencyAcctID) := by
  have ids := same.trades number
  rw [found] at ids
  obtain ⟨trade, there, equal⟩ := Option.map_eq_some_iff.mp ids.symm
  exact ⟨trade, there, equal.symm⟩

theorem Grows.offer_before (grows : Grows system next) {after : Offer} (found : next.market.offers number = some after) :
    ∃ offer amount, system.market.offers number = some offer ∧ after = offer.incrementFinishedSoFar amount := by
  obtain ⟨amount, moved, _⟩ := grows.offers number
  rw [found] at moved
  obtain ⟨offer, there, equal⟩ := Option.map_eq_some_iff.mp moved.symm
  exact ⟨offer, amount, there, equal.symm⟩

/-- What is fair later was fair from the start, for no term of an offer changes. -/
theorem Fair.before {receipt : Receipt} (fair : Fair next receipt) (grows : Grows system next) (same : SameAccounts system next) :
    Fair system receipt := by
  obtain ⟨_, _, trade, otherTrade, now, otherNow, pays, otherPays, sides, multiple, price, positive, moved, limits⟩ := fair
  obtain ⟨offer, amount, found, rfl⟩ := grows.offer_before now
  obtain ⟨otherOffer, otherAmount, otherFound, rfl⟩ := grows.offer_before otherNow
  obtain ⟨before, paid, own⟩ := same.trade_before pays
  obtain ⟨otherBefore, otherPaid, others⟩ := same.trade_before otherPays
  refine ⟨offer, otherOffer, before, otherBefore, found, otherFound, paid, otherPaid, sides, multiple, price, positive, ?_, ?_⟩
  · rw [moved, items_congr own others, grows.market]
    rfl
  · intro side member
    rcases List.mem_pair.mp member with rfl | rfl
    · exact limits (side.incrementFinishedSoFar amount) List.mem_cons_self
    · exact limits (side.incrementFinishedSoFar otherAmount) (List.mem_cons_of_mem _ List.mem_cons_self)

theorem SameAccounts.trans (one : SameAccounts system next) (two : SameAccounts next later) : SameAccounts system later :=
  ⟨fun id => (two.units id).trans (one.units id), fun number => (two.trades number).trans (one.trades number)⟩

theorem SameAccounts.isSome_iff (same : SameAccounts system next) (id : AccountID) :
    (next.account id).isSome = (system.account id).isSome := by
  have units := congrArg Option.isSome (same.units id)
  rwa [System.unitOf, System.unitOf, Option.isSome_map, Option.isSome_map] at units

theorem filled_append (same : SameAccounts system next) (receipts more : List Receipt) (number : TransactionNum) (offer : Offer)
    (amount : Amount) :
    system.filled (receipts ++ more) number offer =
      system.filled receipts number offer + next.filled more number (offer.incrementFinishedSoFar amount) := by
  have ids := same.trades number
  unfold System.filled
  cases now : next.trade number with
  | none =>
    rw [now] at ids
    rw [Option.map_eq_none_iff.mp ids.symm]
    rfl
  | some after =>
    obtain ⟨before, there, equal⟩ := same.trade_before now
    obtain ⟨sender, _⟩ := Prod.mk.inj equal
    rw [there]
    show (if offer.selling = true then -traded (receipts ++ more) number before.senderAcctID else traded (receipts ++ more) number before.senderAcctID) =
      (if offer.selling = true then -traded receipts number before.senderAcctID else traded receipts number before.senderAcctID) +
        (if offer.selling = true then -traded more number after.senderAcctID else traded more number after.senderAcctID)
    rw [traded_append, sender]
    split <;> lia

theorem Statement.trans (one : Statement system next) (two : Statement next later) : Statement system later := by
  obtain ⟨receipts, acknowledged, fair, balances, offers⟩ := one.receipts
  obtain ⟨more, again, fairer, moved, filled⟩ := two.receipts
  refine ⟨one.grows.trans two.grows, one.accounts.trans two.accounts, ⟨receipts ++ more, ?_, fun receipt member => ?_, fun id => ?_,
    fun number => ?_⟩, fun ids covers unit => ?_⟩
  · rw [again, acknowledged, List.append_assoc]
  · rcases List.mem_append.mp member with member | member
    · exact fair receipt member
    · exact (fairer receipt member).before one.grows one.accounts
  · rw [moved, balances, Option.map_map]
    refine congrArg (fun change => (system.balance id).map change) (funext fun balance => ?_)
    show balance + received receipts id + received more id = balance + received (receipts ++ more) id
    rw [received_append, Int.add_assoc]
  · rw [filled, offers, Option.map_map]
    refine congrArg (fun change => (system.market.offers number).map change) (funext fun offer => ?_)
    show (offer.incrementFinishedSoFar _).incrementFinishedSoFar (next.filled more number (offer.incrementFinishedSoFar _)) = _
    rw [incrementFinishedSoFar_add, ← filled_append one.accounts]
  · rw [two.conserved ids (fun id some => covers id (by rwa [one.accounts.isSome_iff] at some)) unit, one.conserved ids covers unit]

/-! ## One exchange -/

theorem System.conclude_unit {accounts : FourAccounts} {increment price assets currency : Amount} {rounds : Rounds}
    (prepared : system.Prepared trade otherTrade accounts) (became : (accounts.legs offer.isAsk).Becomes assets currency rounds.legs)
    (id : AccountID) : (system.conclude first other offer otherOffer trade otherTrade increment price rounds).unitOf id = system.unitOf id := by
  have same : (rounds.legs.fourAccounts offer.isAsk).firstAsset.instrumentDefinitionID = accounts.firstAsset.instrumentDefinitionID ∧
      (rounds.legs.fourAccounts offer.isAsk).firstCurrency.instrumentDefinitionID = accounts.firstCurrency.instrumentDefinitionID ∧
      (rounds.legs.fourAccounts offer.isAsk).otherAsset.instrumentDefinitionID = accounts.otherAsset.instrumentDefinitionID ∧
      (rounds.legs.fourAccounts offer.isAsk).otherCurrency.instrumentDefinitionID = accounts.otherCurrency.instrumentDefinitionID := by
    cases side : offer.isAsk with
    | true =>
      rw [side] at became
      exact ⟨became.assetDebit.2.1, became.currencyCredit.2.1, became.assetCredit.2.1, became.currencyDebit.2.1⟩
    | false =>
      rw [side] at became
      exact ⟨became.assetCredit.2.1, became.currencyDebit.2.1, became.assetDebit.2.1, became.currencyCredit.2.1⟩
  obtain ⟨firstAsset, firstCurrency, otherAsset, otherCurrency⟩ := same
  unfold unitOf
  rw [conclude_account]
  by_cases fourth : id = otherTrade.currencyAcctID
  · rw [if_pos fourth, fourth, prepared.otherCurrency]
    exact congrArg some otherCurrency
  rw [if_neg fourth]
  by_cases third : id = otherTrade.senderAcctID
  · rw [if_pos third, third, prepared.otherAsset]
    exact congrArg some otherAsset
  rw [if_neg third]
  by_cases second : id = trade.currencyAcctID
  · rw [if_pos second, second, prepared.firstCurrency]
    exact congrArg some firstCurrency
  rw [if_neg second]
  by_cases own : id = trade.senderAcctID
  · rw [if_pos own, own, prepared.firstAsset]
    exact congrArg some firstAsset
  rw [if_neg own]

theorem trades_of_set {trades : TransactionNum → Option Trade} (found : trades first = some trade) (replaced : Trade)
    (same : (replaced.senderAcctID, replaced.currencyAcctID) = (trade.senderAcctID, trade.currencyAcctID)) (number : TransactionNum) :
    (if number = first then some replaced else trades number).map (fun trade => (trade.senderAcctID, trade.currencyAcctID)) =
      (trades number).map fun trade => (trade.senderAcctID, trade.currencyAcctID) := by
  by_cases here : number = first
  · rw [if_pos here, here, found]
    exact congrArg some same
  · rw [if_neg here]

theorem System.refuse_trades (meets : system.Meets first other offer otherOffer trade otherTrade) (refusal : Refusal) :
    SameAccounts system (system.refuse first other trade otherTrade refusal) ∧
      (system.refuse first other trade otherTrade refusal).acknowledged = system.acknowledged := by
  cases refusal with
  | leave => exact ⟨⟨fun _ => rfl, fun _ => rfl⟩, rfl⟩
  | flagFirst => exact ⟨⟨fun _ => rfl, trades_of_set meets.trade trade.flagForRemoval rfl⟩, rfl⟩
  | flagOther => exact ⟨⟨fun _ => rfl, trades_of_set meets.otherTrade otherTrade.flagForRemoval rfl⟩, rfl⟩

/-- Rejections do not count. -/
theorem System.giveUp_statement (found : system.trade first = some trade) (increment price : Amount) (rounds : Rounds) :
    (∀ number, ((system.giveUp first other offer trade otherTrade increment price rounds).trade number).map
      (fun trade => (trade.senderAcctID, trade.currencyAcctID)) =
        (system.trade number).map fun trade => (trade.senderAcctID, trade.currencyAcctID)) ∧
    (system.giveUp first other offer trade otherTrade increment price rounds).acknowledged = system.acknowledged := by
  have told (notices : List Receipt) (rejections : ∀ notice ∈ notices, notice.status = .rejection) :
      (system.inbox ++ notices).filter (·.status = .acknowledgement) = system.inbox.filter (·.status = .acknowledgement) := by
    rw [List.filter_append, List.append_right_eq_self, List.filter_eq_nil_iff]
    intro notice member
    rw [rejections notice member]
    decide
  unfold giveUp
  simp only [List.append_assoc]
  have rejected (short more : Prop) [Decidable short] [Decidable more] (one two : List Item) :
      ∀ notice ∈ (if short then [(⟨.rejection, first, other, one⟩ : Receipt)] else []) ++
        (if more then [⟨.rejection, first, other, two⟩] else []), notice.status = .rejection := by
    intro notice member
    rcases List.mem_append.mp member with member | member
    · split at member
      · rw [List.mem_singleton.mp member]
      · cases member
    · split at member
      · rw [List.mem_singleton.mp member]
      · cases member
  split
  · exact ⟨trades_of_set found trade.flagForRemoval rfl, told _ (rejected _ _ _ _)⟩
  · exact ⟨fun _ => rfl, told _ (rejected _ _ _ _)⟩

theorem System.conclude_accounts {accounts : FourAccounts} {increment price assets currency : Amount} {rounds : Rounds}
    (meets : system.Meets first other offer otherOffer trade otherTrade) (prepared : system.Prepared trade otherTrade accounts)
    (became : (accounts.legs offer.isAsk).Becomes assets currency rounds.legs) :
    SameAccounts system (system.conclude first other offer otherOffer trade otherTrade increment price rounds) := by
  refine ⟨conclude_unit prepared became, fun number => ?_⟩
  rw [conclude_trade]
  split
  · refine (trades_of_set (?_ : (system.setTrade first trade.incrementTradesAlreadyDone).trade other = some otherTrade)
      otherTrade.incrementTradesAlreadyDone rfl number).trans (trades_of_set meets.trade trade.incrementTradesAlreadyDone rfl number)
    exact (if_neg meets.distinct.symm).trans meets.otherTrade
  · exact (giveUp_statement meets.trade increment price rounds).1 number

theorem System.conclude_acknowledged {increment price assets currency : Amount} {rounds : Rounds}
    (meets : system.Meets first other offer otherOffer trade otherTrade) (finished : rounds.offerFinished = assets)
    (otherFinished : rounds.otherOfferFinished = assets) (paid : rounds.totalPaidOut = currency) :
    (system.conclude first other offer otherOffer trade otherTrade increment price rounds).acknowledged = system.acknowledged ++
      if rounds.success then [⟨.acknowledgement, first, other, items first other trade otherTrade offer.isAsk assets assets currency⟩] else [] := by
  cases success : rounds.success with
  | true =>
    rw [acknowledged, conclude_inbox success]
    show (system.inbox ++ _).filter _ = _
    rw [List.filter_append, finished, otherFinished, paid]
    rfl
  | false =>
    have left := (@giveUp_statement system first other offer trade otherTrade meets.trade increment price rounds).2
    rw [if_neg Bool.false_ne_true, List.append_nil, ← left]
    unfold conclude
    simp only [success]
    rfl

theorem tradedIn_first (trade otherTrade : Trade) (assets currency : Amount) (distinct : first ≠ other) (isAsk : Bool) :
    tradedIn (items first other trade otherTrade isAsk assets assets currency) first trade.senderAcctID = if isAsk then -assets else assets := by
  have apart := trade.apart
  cases isAsk <;> simp [tradedIn, items, distinct.symm, apart.symm]

theorem tradedIn_other (trade otherTrade : Trade) (assets currency : Amount) (distinct : first ≠ other) (isAsk : Bool) :
    tradedIn (items first other trade otherTrade isAsk assets assets currency) other otherTrade.senderAcctID =
      if isAsk then assets else -assets := by
  have apart := otherTrade.apart
  cases isAsk <;> simp [tradedIn, items, distinct, apart.symm]

theorem tradedIn_none (assets otherAssets currency : Amount) (isAsk : Bool) (own : number ≠ first) (others : number ≠ other) (id : AccountID) :
    tradedIn (items first other trade otherTrade isAsk assets otherAssets currency) number id = 0 := by
  cases isAsk <;> simp [tradedIn, items, own.symm, others.symm]

/-- The receipt of a success accounts for the accounts and the offers. -/
theorem Statement.made {accounts : FourAccounts} {increment price assets currency : Amount} {rounds : Rounds}
    (begins : Begins system first other offer otherOffer trade otherTrade) (prepared : system.Prepared trade otherTrade accounts)
    (became : (accounts.legs offer.isAsk).Becomes assets currency rounds.legs) (success : rounds.success = true)
    (finished : rounds.offerFinished = assets) (otherFinished : rounds.otherOfferFinished = assets) (paid : rounds.totalPaidOut = currency)
    (scaled : ∃ multiple : Int, 0 < multiple ∧ assets = multiple * system.market.scale ∧ currency = multiple * otherOffer.priceLimit)
    (grows : Grows system (system.conclude first other offer otherOffer trade otherTrade increment price rounds)) :
    Statement system (system.conclude first other offer otherOffer trade otherTrade increment price rounds) := by
  have meets := begins.meets
  have distinct := meets.distinct
  have same : SameAccounts system (system.conclude first other offer otherOffer trade otherTrade increment price rounds) :=
    System.conclude_accounts meets prepared became
  have balances (id : AccountID) : (system.conclude first other offer otherOffer trade otherTrade increment price rounds).balance id =
      (system.balance id).map (· + amountOf (items first other trade otherTrade offer.isAsk assets assets currency) id) :=
    System.conclude_balance prepared became id
  refine ⟨grows, same, ⟨[⟨.acknowledgement, first, other, items first other trade otherTrade offer.isAsk assets assets currency⟩], ?_,
    fun receipt member => ?_, fun id => ?_, fun number => ?_⟩, fun ids covers unit => ?_⟩
  · rw [System.conclude_acknowledged meets finished otherFinished paid, if_pos success]
  · obtain rfl := List.mem_singleton.mp member
    obtain ⟨multiple, positive, whole, priced⟩ := scaled
    refine ⟨offer, otherOffer, trade, otherTrade, meets.found, meets.otherFound, meets.trade, meets.otherTrade, meets.sides, multiple,
      otherOffer.priceLimit, positive, by rw [whole, priced], fun side member limit => ?_⟩
    rcases List.mem_pair.mp member with rfl | rfl
    · exact (of_decide_eq_true begins.crosses).resolve_left fun unpriced => limit (of_decide_eq_true unpriced)
    · split <;> exact le_rfl
  · rw [balances]
    refine congrArg (fun change => (system.balance id).map change) (funext fun balance => ?_)
    exact congrArg (balance + ·) (Int.add_zero _).symm
  · rw [System.conclude_market, if_pos success]
    show (if number = other then some (otherOffer.incrementFinishedSoFar rounds.otherOfferFinished)
      else if number = first then some (offer.incrementFinishedSoFar rounds.offerFinished) else system.market.offers number) = _
    have filled (moved : List Item) (number : TransactionNum) (found : Trade) (pays : system.trade number = some found) (offer : Offer) :
        system.filled [⟨.acknowledgement, first, other, moved⟩] number offer =
          if offer.selling then -tradedIn moved number found.senderAcctID else tradedIn moved number found.senderAcctID := by
      unfold System.filled
      rw [pays]
      show (if offer.selling = true then -(tradedIn moved number found.senderAcctID + 0) else tradedIn moved number found.senderAcctID + 0) = _
      rw [Int.add_zero]
    by_cases second : number = other
    · subst second
      rw [if_pos rfl, meets.otherFound]
      show some _ = some (otherOffer.incrementFinishedSoFar _)
      rw [filled _ _ otherTrade meets.otherTrade, tradedIn_other trade otherTrade assets currency distinct, otherFinished]
      have sides := meets.sides
      cases own : offer.selling <;> cases others : otherOffer.selling <;> simp_all [Offer.isAsk]
    rw [if_neg second]
    by_cases here : number = first
    · subst here
      rw [if_pos rfl, meets.found]
      show some _ = some (offer.incrementFinishedSoFar _)
      rw [filled _ _ trade meets.trade, tradedIn_first trade otherTrade assets currency distinct, finished]
      cases own : offer.selling <;> simp [Offer.isAsk, own]
    rw [if_neg here]
    cases found : system.market.offers number with
    | none => rfl
    | some offer =>
      show some offer = some (offer.incrementFinishedSoFar _)
      cases pays : system.trade number with
      | none =>
        rw [System.filled, pays]
        exact congrArg some (incrementFinishedSoFar_zero offer).symm
      | some found =>
        rw [filled _ _ found pays, tradedIn_none assets assets currency _ here second, Int.neg_zero, ite_self, incrementFinishedSoFar_zero]
  · refine total_of_moved same ids unit _ covers (fun item member => ?_) balances (items_cancel prepared assets currency offer.isAsk unit)
    have listed : item.account = trade.senderAcctID ∨ item.account = trade.currencyAcctID ∨ item.account = otherTrade.senderAcctID ∨
        item.account = otherTrade.currencyAcctID := by
      unfold items at member
      split at member <;> simp only [List.mem_cons, List.not_mem_nil, or_false] at member <;>
        rcases member with rfl | rfl | rfl | rfl <;> simp
    rcases listed with same | same | same | same
    · rw [same, prepared.firstAsset]
      rfl
    · rw [same, prepared.firstCurrency]
      rfl
    · rw [same, prepared.otherAsset]
      rfl
    · rw [same, prepared.otherCurrency]
      rfl

theorem Begins.statement (begins : Begins system first other offer otherOffer trade otherTrade)
    (settles : system.Settles checks offer otherOffer trade otherTrade) (done : system.exchange checks first other = some next) :
    Statement system next := by
  have meets := begins.meets
  have grows := meets.exchange_grows done
  rcases meets.exchange_cases checks with ⟨refusal, _, refused⟩ | ⟨accounts, increment, price, count, rounds, prepared, chosen, _, ends, ran⟩
  · obtain rfl := Option.some.inj (refused.symm.trans done)
    obtain ⟨market, account, _⟩ := System.refuse_keeps meets refusal
    obtain ⟨same, acknowledged⟩ := System.refuse_trades meets refusal
    exact Statement.idle same market (fun id => by rw [System.balance, account]; rfl) acknowledged
  · obtain rfl := Option.some.inj (ran.symm.trans done)
    have ready := System.prepared_of_prepare prepared
    cases success : rounds.success with
    | true =>
      obtain ⟨multiple, positive, whole, priced⟩ := meets.multiple (accounts.legs offer.isAsk)
      rw [chosen] at whole priced
      have whole : increment = multiple * system.market.scale := whole
      have priced : price = multiple * otherOffer.priceLimit := priced
      refine Statement.made begins ready ends.counts.legs success ends.counts.offerFinished ends.counts.otherOfferFinished
        ends.counts.totalPaidOut ⟨count * multiple, ?_, ?_, ?_⟩ grows
      · exact Int.mul_pos (Int.natCast_pos.mpr (ends.some_of_success success)) positive
      · rw [whole, Int.mul_assoc]
      · rw [priced, Int.mul_assoc]
    | false =>
      have failure : ¬ rounds.success = true := by rw [success]; decide
      have settles := settles accounts prepared
      rw [chosen] at settles
      have none : count = 0 := Nat.eq_zero_of_not_pos (of_decide_eq_false ((ends.settles_iff.mp settles).symm.trans success))
      refine Statement.idle (System.conclude_accounts meets ready ends.counts.legs) ?_ (fun id => ?_) ?_
      · rw [System.conclude_market, if_neg failure]
      · rw [System.conclude_balance ready ends.counts.legs id, none, Int.natCast_zero, Int.zero_mul, Int.zero_mul, amountOf_zero]
        simp
      · rw [System.conclude_acknowledged meets ends.counts.offerFinished ends.counts.otherOfferFinished ends.counts.totalPaidOut,
          if_neg failure, List.append_nil]

/-! ## Main result -/

/-- No exchange of the call leaves funds moved without account: once a first round is made, no later
one is refused. -/
def SettledCall (call : Call) : System → Prop :=
  CarefulCall (fun system number other => ∀ offer otherOffer trade otherTrade,
    Begins system number other offer otherOffer trade otherTrade → system.Settles (call.checks other) offer otherOffer trade otherTrade) call

theorem Statement.of_run (sound : Sound system) (run : trading.Run SettledCall system next) : Statement system next ∧ Sound next := by
  induction run with
  | start => exact ⟨Statement.refl system, sound⟩
  | step call _ settled stepped kept =>
    obtain ⟨statement, sound⟩ := kept
    obtain ⟨onward, grows⟩ := processTrade_related _ Statement Statement.refl (fun _ _ _ => Statement.trans)
      (fun _ _ _ _ _ _ _ _ may begins done => begins.statement (may _ _ _ _ begins) done) sound settled stepped
    exact ⟨statement.trans onward, grows.sound sound⟩

/-- Nothing is lost or made, every offer is as far as the assets of its account say and never further
than its total, and every price suits both sides. -/
structure Accounted (system next : System) : Prop where
  conserved : ∀ ids : Finset AccountID, (∀ id, (system.account id).isSome → id ∈ ids) → ∀ unit, next.total ids unit = system.total ids unit
  receipts : ∃ receipts, next.acknowledged = system.acknowledged ++ receipts ∧ (∀ receipt ∈ receipts, Fair system receipt) ∧
    (∀ id, next.balance id = (system.balance id).map (· + received receipts id)) ∧
    ∀ number, next.market.offers number =
      (system.market.offers number).map fun offer => offer.incrementFinishedSoFar (system.filled receipts number offer)
  within : ∀ number offer, next.market.offers number = some offer → offer.finishedSoFar ≤ offer.totalAssetsOffer

theorem trades_accounted (reached : Reached system) (run : trading.Run SettledCall system next) : Accounted system next := by
  obtain ⟨statement, sound⟩ := Statement.of_run reached.sound run
  refine ⟨statement.conserved, statement.receipts, fun number offer found => ?_⟩
  have available := (sound.admits number offer found).2
  exact Int.sub_nonneg.mp available

/-! The market of the samples as it is made. -/

def sampleStart (bought : Int) (few : 0 ≤ bought ∧ bought < 2 ^ 63) : System :=
  { sampleSystem bought few with
    market := { (sampleSystem bought few).market with offers := fun _ => none }
    trade := fun _ => none }

def sampleEvents (sold : Int) : List Event :=
  if least : 50 ≤ sold then
    [.add (sampleOffer 2 false 200 50 fifty_pos) (some { senderAcctID := 20, currencyAcctID := 21, apart := buyer_apart }) 0,
      .add (sampleOffer 1 true sold 50 fifty_pos) (some { senderAcctID := 10, currencyAcctID := 11, apart := seller_apart }) 0]
  else []

theorem sample_reached {events : List Event} {bought : Int} {few : 0 ≤ bought ∧ bought < 2 ^ 63}
    (ran : machine.runs events (sampleStart bought few) = some system) : Reached system :=
  ⟨_, ⟨rfl, rfl, fun _ => rfl, le_rfl⟩, Machine.run_of_runs (Machine.allows_of_always (fun _ _ => trivial) _ _) ran⟩

theorem settles_of_once {legs : Legs} {increment price available otherAvailable : Amount}
    (once : ¬ legs.Enters increment price available otherAvailable 1) : legs.Settles increment price available otherAvailable := by
  intro first count enters
  rcases Nat.eq_zero_or_pos count with rfl | more
  · exact first
  · exact absurd (enters 1 more) once

/-- All of 100 is sold at once. -/
theorem trades_accounted_sample : ∃ system next, machine.runs (sampleEvents 100) (sampleStart 0 (by decide)) = some system ∧
    next.balance 20 = some (Amount.shiftLeft 100) ∧ Accounted system next := by
  have ran : ((machine.runs (sampleEvents 100) (sampleStart 0 (by decide))).bind fun system =>
      (step (.process ⟨1, fun _ => {}⟩) system).map fun next => next.balance 20) = some (some (Amount.shiftLeft 100)) := by decide +kernel
  have book : (machine.runs (sampleEvents 100) (sampleStart 0 (by decide))).map (fun system =>
      (system.market.bids, system.market.offers 1, system.market.offers 2)) =
      some ([(Amount.unit, 2)], some (sampleOffer 1 true 100 50 (by decide)), some (sampleOffer 2 false 200 50 (by decide))) := by
    decide +kernel
  have funds : (machine.runs (sampleEvents 100) (sampleStart 0 (by decide))).map (fun system =>
      (system.market.scale, (system.trade 1).bind (system.account ·.senderAcctID), (system.trade 2).bind (system.account ·.currencyAcctID))) =
      some (Amount.unit, some (sampleAccount 1 150 (by decide)), some (sampleAccount 2 1000 (by decide))) := by decide +kernel
  obtain ⟨system, began, ended⟩ := Option.bind_eq_some_iff.mp ran
  obtain ⟨next, stepped, balance⟩ := Option.map_eq_some_iff.mp ended
  rw [began] at book funds
  simp only [Option.map_some, Option.some.injEq, Prod.mk.injEq] at book funds
  obtain ⟨bids, ask, bid⟩ := book
  obtain ⟨scale, seller, buyer⟩ := funds
  refine ⟨system, next, began, balance, trades_accounted (sample_reached began) (.step _ .start (fun offer found => ?_) stepped)⟩
  obtain rfl := Option.some.inj (ask.symm.trans found)
  have bidders : system.market.opposite (sampleOffer 1 true 100 50 (by decide)) = [2] := by
    show (system.market.bids.reverse.map (·.2)) = [2]
    rw [bids]
    rfl
  rw [bidders]
  refine ⟨fun offer otherOffer trade otherTrade begins accounts prepared => settles_of_once ?_, fun _ _ => trivial⟩
  have ready := System.prepared_of_prepare prepared
  obtain rfl := Option.some.inj (ask.symm.trans begins.meets.found)
  obtain rfl := Option.some.inj (bid.symm.trans begins.meets.otherFound)
  rw [begins.meets.trade] at seller
  rw [begins.meets.otherTrade] at buyer
  have asset : sampleAccount 1 150 (by decide) = accounts.firstAsset := Option.some.inj (seller.symm.trans ready.firstAsset)
  have currency : sampleAccount 2 1000 (by decide) = accounts.otherCurrency := Option.some.inj (buyer.symm.trans ready.otherCurrency)
  have chosen : terms system.market.scale (sampleOffer 1 true 100 50 (by decide)) (sampleOffer 2 false 200 50 (by decide))
      (accounts.legs (sampleOffer 1 true 100 50 (by decide)).isAsk) = (Amount.shiftLeft 100, Amount.shiftLeft 100) := by
    unfold terms coversAll
    rw [show (accounts.legs (sampleOffer 1 true 100 50 (by decide)).isAsk).assetDebit = accounts.firstAsset from rfl,
      show (accounts.legs (sampleOffer 1 true 100 50 (by decide)).isAsk).currencyDebit = accounts.otherCurrency from rfl, ← asset, ← currency, scale]
    decide +kernel
  rw [chosen]
  exact fun enters => absurd enters.1 (by decide +kernel)

/-- Of 200 a round of 50 is sold, and the offer does not know. -/
theorem late_round_unaccounted : ∃ system next, Reached system ∧ trading.runs [⟨1, fun _ => {}⟩] system = some next ∧
    ¬ Accounted system next := by
  have ran : ((machine.runs (sampleEvents 200) (sampleStart (2 ^ 63 - 61) (by decide))).bind fun system =>
      (trading.runs [⟨1, fun _ => {}⟩] system).map fun next =>
        (system.acknowledged, next.acknowledged, system.balance 10, next.balance 10)) =
      some ([], [], some (Amount.shiftLeft 150), some (Amount.shiftLeft 100)) := by decide +kernel
  obtain ⟨system, began, ended⟩ := Option.bind_eq_some_iff.mp ran
  obtain ⟨next, traded, told⟩ := Option.map_eq_some_iff.mp ended
  simp only [Prod.mk.injEq] at told
  obtain ⟨before, after, held, holds⟩ := told
  refine ⟨system, next, sample_reached began, traded, fun accounted => ?_⟩
  obtain ⟨receipts, acknowledged, _, balances, _⟩ := accounted.receipts
  rw [before, after] at acknowledged
  obtain rfl : [] = receipts := acknowledged
  have same := balances 10
  rw [held, holds] at same
  exact absurd (Option.some.inj same) (by decide)

end Opentxs.Trading
