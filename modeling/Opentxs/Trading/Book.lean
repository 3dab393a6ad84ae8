import Opentxs.Library.Machine
import Opentxs.Trading.Completion

/-! The order book. An offer that comes to the market is matched with those of the other side, the
best price first and the oldest first among equal prices. -/

namespace Opentxs.Trading
open Library Spend

abbrev Entry := Amount × TransactionNum

namespace Market

variable (market : Market)

def highestBidPrice : Amount := (market.bids.getLast?.map (·.1)).getD 0

/-- Asks without a price do not count. -/
def lowestAskPrice : Amount := ((market.asks.find? fun entry => entry.1 ≠ 0).map (·.1)).getD 0

/-- The best price of the other side. -/
def relevantPrice (offer : Offer) : Amount := if offer.isAsk then market.highestBidPrice else market.lowestAskPrice

/-- In front of the first bid that is not lower. -/
def insertBid (entry : Entry) (bids : List Entry) : List Entry :=
  bids.takeWhile (·.1 < entry.1) ++ entry :: bids.dropWhile (·.1 < entry.1)

/-- In front of the first ask that is higher. -/
def insertAsk (entry : Entry) (asks : List Entry) : List Entry :=
  asks.takeWhile (·.1 ≤ entry.1) ++ entry :: asks.dropWhile (·.1 ≤ entry.1)

def addOffer (offer : Offer) (date : Time) : Option Market :=
  if !market.validateOfferForMarket offer then none
  else if (market.offers offer.transactionNum).isSome then none
  else
    let entry := (offer.priceLimit, offer.transactionNum)
    let offers := fun other => if other = offer.transactionNum then some { offer with dateAddedToMarket := date } else market.offers other
    some (if offer.isBid then { market with offers := offers, bids := insertBid entry market.bids }
      else { market with offers := offers, asks := insertAsk entry market.asks })

def removeOffer (number : TransactionNum) : Option Market :=
  (market.offers number).map fun offer =>
    let offers := fun other => if other = number then none else market.offers other
    if offer.isBid then { market with offers := offers, bids := market.bids.eraseP fun entry => entry.2 = number }
    else { market with offers := offers, asks := market.asks.eraseP fun entry => entry.2 = number }

/-- Those that an offer may trade with, in their turn. -/
def opposite (offer : Offer) : List TransactionNum :=
  if offer.isAsk then market.bids.reverse.map (·.2) else market.asks.map (·.2)

end Market

namespace System

variable (system : System)

/-- Whether the other side is within the limit. -/
def crosses (offer against : Offer) : Bool :=
  offer.isMarketOrder ∨ if offer.isAsk then offer.priceLimit ≤ against.priceLimit else against.priceLimit ≤ offer.priceLimit

/-- Both sides have enough for a trade of the other one. -/
def tryExchange (checks : Checks) (number other : TransactionNum) (offer against : Offer) : Option System :=
  if offer.minimumIncrement ≤ against.amountAvailable ∧ against.minimumIncrement ≤ offer.amountAvailable ∧
      (system.trade other).any (!·.flaggedForRemoval) then system.exchange checks number other
  else some system

/-- Whether the offer goes on to the next one. -/
def checkRemoval (number : TransactionNum) : Option (System × Option Bool) := do
  let offer ← system.market.offers number
  let trade ← system.trade number
  if trade.flaggedForRemoval ∨ offer.amountAvailable < offer.minimumIncrement then some (system, some false) else some (system, none)

/-- One turn of the loop over the other side. It tells whether the offer stays if that was the last one.
Market orders come after all other bids and before all other asks. -/
def turn (checks : Checks) (number other : TransactionNum) : Option (System × Option Bool) := do
  let offer ← system.market.offers number
  let against ← system.market.offers other
  if against.isMarketOrder then
    if offer.isAsk then some (system, some (!offer.isMarketOrder)) else some (system, none)
  else if crosses offer against then (system.tryExchange checks number other offer against).bind (·.checkRemoval number)
  else some (system, some true)

def turns (checks : TransactionNum → Checks) (number : TransactionNum) : List TransactionNum → System → Option (System × Bool)
  | [], system => (system.market.offers number).map fun offer => (system, !offer.isMarketOrder)
  | other :: rest, system => do
    let (next, stays) ← system.turn (checks other) number other
    match stays with
    | some stays => some (next, stays)
    | none => turns checks number rest next

/-- Whether the offer stays on the market. -/
def processTrade (checks : TransactionNum → Checks) (number : TransactionNum) : Option (System × Bool) := do
  let offer ← system.market.offers number
  if offer.amountAvailable < offer.minimumIncrement then some (system, false)
  else if system.market.relevantPrice offer = 0 ∧ offer.isMarketOrder then some (system, false)
  else if system.market.relevantPrice offer = 0 ∨ !offer.isMarketOrder ∧ (offer.isAsk ∧ system.market.relevantPrice offer < offer.priceLimit ∨
      offer.isBid ∧ offer.priceLimit < system.market.relevantPrice offer) then some (system, true)
  else turns checks number (system.market.opposite offer) system

def addOffer (offer : Offer) (trade : Option Trade) (date : Time) : Option System :=
  (system.market.addOffer offer date).map fun market =>
    { system with market := market, trade := fun other => if other = offer.transactionNum then trade else system.trade other }

def removeOffer (number : TransactionNum) : Option System :=
  (system.market.removeOffer number).map fun market =>
    { system with market := market, trade := fun other => if other = number then none else system.trade other }

end System

/-! ## Runs -/

structure Call where
  number : TransactionNum
  checks : TransactionNum → Checks

inductive Event
  | add (offer : Offer) (trade : Option Trade) (date : Time)
  | remove (number : TransactionNum)
  | process (call : Call)

def step : Event → System → Option System
  | .add offer trade date, system => system.addOffer offer trade date
  | .remove number, system => system.removeOffer number
  | .process call, system => (system.processTrade call.checks call.number).map (·.1)

def machine : Machine System Event := ⟨step⟩

/-- Trades are processed only. -/
def trading : Machine System Call := ⟨fun call => step (.process call)⟩

/-- A market as it is made. -/
def System.Fresh (system : System) : Prop :=
  system.market.bids = [] ∧ system.market.asks = [] ∧ (∀ number, system.market.offers number = none) ∧
    Amount.unit ≤ system.market.scale

end Opentxs.Trading
