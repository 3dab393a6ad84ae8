import Opentxs.Trading.Rounds

/-! Two offers on a market trade with each other. Four accounts, two offers and two trades change, and
receipts go to four inboxes. -/

namespace Opentxs.Trading
open Spend

abbrev TransactionNum := Int
abbrev NotaryID := Nat
abbrev Time := Int

/-- The setters leave no scale and no increment below one unit. A market order has no price. -/
structure Offer where
  transactionNum : TransactionNum
  notaryID : NotaryID
  instrumentDefinitionID : UnitDefinition
  currencyID : UnitDefinition
  selling : Bool
  priceLimit : Amount
  totalAssetsOffer : Amount
  finishedSoFar : Amount := 0
  scale : Amount
  minimumIncrement : Amount
  dateAddedToMarket : Time := 0
  scale_least : Amount.unit ≤ scale
  minimumIncrement_least : Amount.unit ≤ minimumIncrement
  deriving DecidableEq

namespace Offer

variable (offer : Offer)

def isAsk : Bool := offer.selling

def isBid : Bool := !offer.selling

def isMarketOrder : Bool := offer.priceLimit = 0

def amountAvailable : Amount := offer.totalAssetsOffer - offer.finishedSoFar

def incrementFinishedSoFar (amount : Amount) : Offer := { offer with finishedSoFar := offer.finishedSoFar + amount }

end Offer

/-- What pays for an offer. No trade is taken in whose accounts hold the same instrument. -/
structure Trade where
  senderAcctID : AccountID
  currencyAcctID : AccountID
  flaggedForRemoval : Bool := false
  tradesAlreadyDone : Int := 0
  apart : senderAcctID ≠ currencyAcctID
  deriving DecidableEq

def Trade.flagForRemoval (trade : Trade) : Trade := { trade with flaggedForRemoval := true }

def Trade.incrementTradesAlreadyDone (trade : Trade) : Trade := { trade with tradesAlreadyDone := trade.tradesAlreadyDone + 1 }

/-- Bids and asks are in the order of their prices. -/
structure Market where
  notaryID : NotaryID
  instrumentDefinitionID : UnitDefinition
  currencyTypeID : UnitDefinition
  scale : Amount
  lastSalePrice : Amount := 0
  bids : List (Amount × TransactionNum) := []
  asks : List (Amount × TransactionNum) := []
  offers : TransactionNum → Option Offer := fun _ => none

/-- What an offer needs to come to the market. -/
def Market.validateOfferForMarket (market : Market) (offer : Offer) : Bool :=
  if market.notaryID ≠ offer.notaryID then false
  else if market.instrumentDefinitionID ≠ offer.instrumentDefinitionID then false
  else if market.currencyTypeID ≠ offer.currencyID then false
  else if market.scale ≠ offer.scale then false
  else if offer.minimumIncrement ≤ 0 then false
  else if offer.minimumIncrement < market.scale then false
  else if offer.minimumIncrement.remainder market.scale ≠ 0 then false
  else if offer.amountAvailable < offer.minimumIncrement then false
  else true

inductive ItemStatus
  | acknowledgement
  | rejection
  deriving DecidableEq, Repr

/-- What the inbox of an account is told. -/
structure Item where
  account : AccountID
  trade : TransactionNum
  amount : Amount
  deriving DecidableEq

structure Receipt where
  status : ItemStatus
  first : TransactionNum
  other : TransactionNum
  items : List Item
  deriving DecidableEq

/-- An offer has its trade under its own number. -/
structure System where
  market : Market
  trade : TransactionNum → Option Trade
  account : AccountID → Option Account
  inbox : List Receipt := []

/-- What the exchange asks of others. -/
structure Checks where
  transactionCount : Bool := true
  firstNym : Bool := true
  otherNym : Bool := true
  firstVerified : Bool := true
  otherVerified : Bool := true
  firstInboxes : Bool := true
  otherInboxes : Bool := true
  nextTransactionNumber : Bool := true

/-- What becomes of the trades when an exchange is not begun. -/
inductive Refusal
  | leave
  | flagFirst
  | flagOther
  deriving DecidableEq, Repr

structure FourAccounts where
  firstAsset : Account
  firstCurrency : Account
  otherAsset : Account
  otherCurrency : Account

def FourAccounts.legs (accounts : FourAccounts) (isAsk : Bool) : Legs :=
  if isAsk then ⟨accounts.firstAsset, accounts.otherCurrency, accounts.otherAsset, accounts.firstCurrency⟩
  else ⟨accounts.otherAsset, accounts.firstCurrency, accounts.firstAsset, accounts.otherCurrency⟩

def Legs.fourAccounts (legs : Legs) (isAsk : Bool) : FourAccounts :=
  if isAsk then ⟨legs.assetDebit, legs.currencyCredit, legs.assetCredit, legs.currencyDebit⟩
  else ⟨legs.assetCredit, legs.currencyDebit, legs.assetDebit, legs.currencyCredit⟩

/-- Changes to an account are saved when its handle goes, unless they were given up before. -/
structure Handle where
  id : AccountID
  account : Account
  success : Bool := true

def priceOf (scale assets : Amount) (otherOffer : Offer) : Amount := (assets.dividedBy scale).times otherOffer.priceLimit

def minIncrementPerRound (offer otherOffer : Offer) : Amount :=
  if otherOffer.minimumIncrement < offer.minimumIncrement then offer.minimumIncrement else otherOffer.minimumIncrement

/-- What both offers have, in whole multiples of the scale. -/
def mostAvailable (scale : Amount) (offer otherOffer : Offer) : Amount :=
  let available := if otherOffer.amountAvailable < offer.amountAvailable then otherOffer.amountAvailable else offer.amountAvailable
  available - available.remainder scale

/-- Whether there is enough to trade it all at once. -/
def coversAll (scale : Amount) (offer otherOffer : Offer) (legs : Legs) : Bool :=
  mostAvailable scale offer otherOffer ≤ legs.assetDebit.balance ∧
    priceOf scale (mostAvailable scale offer otherOffer) otherOffer ≤ legs.currencyDebit.balance

/-- What moves in a round, and for how much. -/
def terms (scale : Amount) (offer otherOffer : Offer) (legs : Legs) : Amount × Amount :=
  let assets := if coversAll scale offer otherOffer legs then mostAvailable scale offer otherOffer else minIncrementPerRound offer otherOffer
  (assets, priceOf scale assets otherOffer)

namespace System

variable (system : System)

def setOffer (number : TransactionNum) (offer : Offer) : System :=
  { system with market := { system.market with
      offers := fun other => if other = number then some offer else system.market.offers other } }

def setTrade (number : TransactionNum) (trade : Trade) : System :=
  { system with trade := fun other => if other = number then some trade else system.trade other }

def setAccount (id : AccountID) (account : Account) : System :=
  { system with account := fun other => if other = id then some account else system.account other }

def release (handle : Handle) : System := if handle.success then system.setAccount handle.id handle.account else system

/-- The four accounts, if the two trades may exchange at all. -/
def prepare (checks : Checks) (trade otherTrade : Trade) : Except Refusal FourAccounts :=
  if !checks.transactionCount then .error .leave
  else if trade.senderAcctID = otherTrade.senderAcctID ∨ trade.senderAcctID = otherTrade.currencyAcctID ∨
      trade.currencyAcctID = otherTrade.senderAcctID ∨ trade.currencyAcctID = otherTrade.currencyAcctID then .error .leave
  else if !checks.firstNym then .error .flagFirst
  else if !checks.otherNym then .error .flagOther
  else
    match system.account trade.senderAcctID, system.account trade.currencyAcctID with
    | some firstAsset, some firstCurrency =>
      match system.account otherTrade.senderAcctID, system.account otherTrade.currencyAcctID with
      | some otherAsset, some otherCurrency =>
        if firstAsset.instrumentDefinitionID ≠ system.market.instrumentDefinitionID ∨
            firstCurrency.instrumentDefinitionID ≠ system.market.currencyTypeID then .error .flagFirst
        else if otherAsset.instrumentDefinitionID ≠ system.market.instrumentDefinitionID ∨
            otherCurrency.instrumentDefinitionID ≠ system.market.currencyTypeID then .error .flagOther
        else if !checks.firstVerified then .error .flagFirst
        else if !checks.otherVerified then .error .flagOther
        else if !checks.firstInboxes then .error .flagFirst
        else if !checks.otherInboxes then .error .flagOther
        else if !checks.nextTransactionNumber then .error .leave
        else .ok ⟨firstAsset, firstCurrency, otherAsset, otherCurrency⟩
      | _, _ => .error .flagOther
    | _, _ => .error .flagFirst

def refuse (first other : TransactionNum) (trade otherTrade : Trade) : Refusal → System
  | .leave => system
  | .flagFirst => system.setTrade first trade.flagForRemoval
  | .flagOther => system.setTrade other otherTrade.flagForRemoval

end System

/-- What the four inboxes are told of the assets and the currency that moved. -/
def items (first other : TransactionNum) (trade otherTrade : Trade) (isAsk : Bool) (assets otherAssets currency : Amount) : List Item :=
  if isAsk then
    [⟨trade.senderAcctID, first, -assets⟩, ⟨trade.currencyAcctID, first, currency⟩, ⟨otherTrade.senderAcctID, other, otherAssets⟩,
      ⟨otherTrade.currencyAcctID, other, -currency⟩]
  else
    [⟨trade.senderAcctID, first, assets⟩, ⟨trade.currencyAcctID, first, -currency⟩, ⟨otherTrade.senderAcctID, other, -otherAssets⟩,
      ⟨otherTrade.currencyAcctID, other, currency⟩]

namespace System

variable (system : System)

def commit (first other : TransactionNum) (offer otherOffer : Offer) (trade otherTrade : Trade) (rounds : Rounds) : System :=
  let traded := (system.setTrade first trade.incrementTradesAlreadyDone).setTrade other otherTrade.incrementTradesAlreadyDone
  let offered := (traded.setOffer first (offer.incrementFinishedSoFar rounds.offerFinished)).setOffer other
    (otherOffer.incrementFinishedSoFar rounds.otherOfferFinished)
  { offered with
    market := { offered.market with lastSalePrice := otherOffer.priceLimit }
    inbox := offered.inbox ++ [⟨.acknowledgement, first, other, items first other trade otherTrade offer.isAsk rounds.offerFinished
      rounds.otherOfferFinished rounds.totalPaidOut⟩] }

/-- Who cannot pay is flagged. The accounts are not told apart: both of their handles are there,
so that they count as equal, and it is always the first trader. -/
def giveUp (first other : TransactionNum) (offer : Offer) (trade otherTrade : Trade) (increment price : Amount) (rounds : Rounds) :
    System :=
  let notices := items first other trade otherTrade offer.isAsk rounds.offerFinished rounds.otherOfferFinished rounds.totalPaidOut
  let assetsShort := rounds.legs.assetDebit.balance < increment
  let currencyShort := rounds.legs.currencyDebit.balance < price
  let told := { system with
    inbox := system.inbox ++ (if assetsShort then [⟨.rejection, first, other, notices.take 1⟩] else []) ++
      (if currencyShort then [⟨.rejection, first, other, (notices.drop 1).take 1⟩] else []) }
  if assetsShort ∨ currencyShort then told.setTrade first trade.flagForRemoval else told

/-- Four handles go at the end, and none of them was told to give up. -/
def conclude (first other : TransactionNum) (offer otherOffer : Offer) (trade otherTrade : Trade) (increment price : Amount)
    (rounds : Rounds) : System :=
  let settled :=
    if rounds.success then system.commit first other offer otherOffer trade otherTrade rounds
    else system.giveUp first other offer trade otherTrade increment price rounds
  let after := rounds.legs.fourAccounts offer.isAsk
  (((settled.release { id := trade.senderAcctID, account := after.firstAsset }).release
    { id := trade.currencyAcctID, account := after.firstCurrency }).release
    { id := otherTrade.senderAcctID, account := after.otherAsset }).release
    { id := otherTrade.currencyAcctID, account := after.otherCurrency }

/-- The rounds are those that the offer has assets for. -/
def meet (first other : TransactionNum) (offer otherOffer : Offer) (trade otherTrade : Trade) : Except Refusal FourAccounts → Option System
  | .error refusal => some (system.refuse first other trade otherTrade refusal)
  | .ok accounts =>
    let legs := accounts.legs offer.isAsk
    let round := terms system.market.scale offer otherOffer legs
    let enough := (offer.amountAvailable / round.1).toNat
    (Rounds.run round.1 round.2 offer.amountAvailable otherOffer.amountAvailable (enough + 1) { legs := legs }).map
      (system.conclude first other offer otherOffer trade otherTrade round.1 round.2)

/-- One offer trades with another at the price of the other. -/
def exchange (checks : Checks) (first other : TransactionNum) : Option System := do
  let offer ← system.market.offers first
  let otherOffer ← system.market.offers other
  let trade ← system.trade first
  let otherTrade ← system.trade other
  system.meet first other offer otherOffer trade otherTrade (system.prepare checks trade otherTrade)

end System

end Opentxs.Trading
