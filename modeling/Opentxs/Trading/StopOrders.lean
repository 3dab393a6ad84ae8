import Mathlib.Data.Finset.Max
import Opentxs.Trading.Contracts

/-! Stop orders wait on cron until the best price of the other side is beyond their stop price. -/

namespace Opentxs.Trading.StopOrders
open Library Spend Contracts

/-- A trade on cron, with the offer that its text is read as. -/
structure CronTrade where
  offer : Offer
  pays : Trade
  stopSign : UInt8 := 0
  stopPrice : Amount := 0
  stopActivated : Bool := false
  hasTradeActivated : Bool := false
  /-- It has a pointer to its offer on the market. -/
  placed : Bool := false

namespace CronTrade

variable (trade : CronTrade)

def number : TransactionNum := trade.offer.transactionNum

def isStopOrder : Bool := trade.stopSign = lessThan ∨ trade.stopSign = greaterThan

def isGreaterThan : Bool := trade.stopSign = greaterThan

def isLessThan : Bool := trade.stopSign = lessThan

/-- Whether a price is beyond the stop price. -/
def passes (price : Amount) : Bool := trade.isGreaterThan ∧ price > trade.stopPrice ∨ trade.isLessThan ∧ price < trade.stopPrice

end CronTrade

/-- The prices of the limit orders on the other side. -/
def limits (market : Market) (offer : Offer) : List Amount :=
  ((if offer.isAsk then market.bids else market.asks).map (·.1)).filter (· ≠ 0)

/-- A stop order that was put on the market, and the limit orders that it found on the other side. -/
structure Placement where
  trade : CronTrade
  limits : List Amount

/-- The market and cron in memory, their files, and a record of the stop orders that were put on the market.
A process that ended leaves only its files. -/
structure State where
  running : Bool := true
  system : System
  items : List CronTrade := []
  /-- Every item leaves a file under its number. -/
  cronReceipts : List TransactionNum := []
  marketFile : List Node
  cronFile : List CronTrade := []
  placements : List Placement := []

/-- One turn of an item: whether its interval has passed, its dates, and what the market asks of others. -/
structure Turn where
  due : Bool := true
  expired : Bool := false
  current : Bool := true
  date : Time := 0
  checks : TransactionNum → Checks := fun _ => {}

namespace State

variable (state : State)

def crash : State := { state with running := false }

def set (trade : CronTrade) : State :=
  { state with items := state.items.map fun other => if other.number = trade.number then trade else other }

def setTrade (trade : CronTrade) : State :=
  { state with system := { state.system with
      trade := fun other => if other = trade.number then some trade.pays else state.system.trade other } }

/-- An offer on the market has the trade that is flagged. -/
def isFlaggedForRemoval (trade : CronTrade) : Bool := ((state.system.trade trade.number).getD trade.pays).flaggedForRemoval

/-- Whether the offer is on the market, after it was put there if need be. -/
def getOffer (trade : CronTrade) (date : Time) : State × Bool :=
  if trade.placed then (state, true)
  else if (state.system.market.offers trade.number).isSome then ((state.set { trade with placed := true }).setTrade trade, true)
  else if !trade.isStopOrder then
    if trade.hasTradeActivated then (state, false)
    else
      match state.system.addOffer trade.offer (some trade.pays) date with
      | none => (state.set { trade with pays := trade.pays.flagForRemoval }, false)
      | some system => ({ state.set { trade with hasTradeActivated := true, placed := true } with system }, true)
  else if !trade.stopActivated then
    if trade.passes (state.system.market.relevantPrice trade.offer) then
      match state.system.addOffer trade.offer (some trade.pays) date with
      | none => (state.set { trade with pays := trade.pays.flagForRemoval }, false)
      | some system =>
        ({ state.set { trade with stopActivated := true, hasTradeActivated := true, placed := true } with
          system
          placements := ⟨trade, limits state.system.market trade.offer⟩ :: state.placements }, true)
    else (state, false)
  else (state, false)

/-- Whether the item stays on cron, unless the process ends. -/
def processCron (turn : Turn) (trade : CronTrade) : State × Option Bool :=
  if !turn.due then (state, some true)
  else if state.isFlaggedForRemoval trade ∨ turn.expired then (state, some false)
  else if !turn.current then (state, some true)
  else
    let (next, found) := state.getOffer trade turn.date
    if !found then (next, some true)
    else if next.isFlaggedForRemoval trade then (next, some false)
    else
      match next.system.processTrade turn.checks trade.number with
      | none => (next, none)
      | some (system, stays) => ({ next with system }, some stays)

/-- With a number for a final receipt the item is read again as it was signed, which a stop order cannot be. -/
def hookRemovalFromCron (numbered : Bool) (trade : CronTrade) : State :=
  if numbered && trade.isStopOrder then state.crash
  else { state with
    system := (state.system.removeOffer trade.number).getD state.system
    items := state.items.filter fun other => other.number ≠ trade.number }

/-- The place depends on the date. -/
def addCronItem (trade : CronTrade) (place : Nat) : State :=
  if state.items.any fun other => other.number = trade.number then state
  else if trade.number ∈ state.cronReceipts then state
  else { state with
    items := state.items.take place ++ { trade with placed := false } :: state.items.drop place
    cronReceipts := trade.number :: state.cronReceipts }

/-- A market that is made anew. -/
def fresh : System :=
  { state.system with market := { state.system.market with bids := [], asks := [], offers := fun _ => none }, trade := fun _ => none }

/-- Reading ends at the first stop order, for its sign is not read again (`OTTrade.stop_not_read`). -/
def readItems (items : List CronTrade) : List CronTrade :=
  (items.takeWhile (!·.isStopOrder)).map fun trade => { trade with placed := false }

/-- The market is read before the items are. An offer in its file ends the process. -/
def loadCron (load : Text → Option Offer) : State :=
  match Market.blank.read load state.marketFile with
  | .error .nullPointer => state.crash
  | .error .error => { state with running := true, system := state.fresh, items := [] }
  | .ok _ => { state with running := true, system := state.fresh, items := readItems state.cronFile }

end State

namespace State

variable (state : State)

def findItemOnMap (number : TransactionNum) : Option CronTrade := state.items.find? fun trade => trade.number = number

def processItem (number : TransactionNum) (turn : Turn) (numbered : Bool) : State :=
  match state.findItemOnMap number with
  | none => state
  | some trade =>
    match state.processCron turn trade with
    | (next, none) => next.crash
    | (next, some true) => next
    | (next, some false) => next.hookRemovalFromCron numbered trade

def removeCronItem (number : TransactionNum) (numbered : Bool) : State :=
  match state.findItemOnMap number with
  | none => state
  | some trade => state.hookRemovalFromCron numbered trade

def saveMarket (contract : Offer → Text) : State := { state with marketFile := state.system.market.updateContents contract }

def saveCron : State := { state with cronFile := state.items }

end State

inductive Event
  | notarizeMarketOffer (trade : CronTrade) (place : Nat)
  | processItem (number : TransactionNum) (turn : Turn) (numbered : Bool)
  | removeCronItem (number : TransactionNum) (numbered : Bool)
  | saveMarket
  | saveCron
  | restart

section

variable (contract : Offer → Text) (load : Text → Option Offer)

/-- The files are written after what is to be saved, and the process can end in between. -/
def step (event : Event) (state : State) : State :=
  match event with
  | .notarizeMarketOffer trade place => if state.running then state.addCronItem trade place else state
  | .processItem number turn numbered => if state.running then state.processItem number turn numbered else state
  | .removeCronItem number numbered => if state.running then state.removeCronItem number numbered else state
  | .saveMarket => if state.running then state.saveMarket contract else state
  | .saveCron => if state.running then state.saveCron else state
  | .restart => state.loadCron load

def machine : Machine State Event := ⟨fun event state => some (step contract load event state)⟩

end

/-! ## The right price -/

/-- The best price of limit orders: the highest bid for those who sell, the lowest ask for those who buy. -/
def IsBest (offer : Offer) (limits : List Amount) (best : Amount) : Prop :=
  if offer.isAsk then IsGreatest {price | price ∈ limits} best else IsLeast {price | price ∈ limits} best

/-- There was a limit order on the other side, and the best of them was beyond the stop price. -/
def Triggered (placement : Placement) : Prop :=
  ∃ best, IsBest placement.trade.offer placement.limits best ∧ placement.trade.passes best = true

/-- No stop order was put on the market twice, and none without a price that triggers it. -/
structure Right (state : State) : Prop where
  once : (state.placements.map (·.trade.number)).Nodup
  triggered : ∀ placement ∈ state.placements, Triggered placement

/-- A turn comes to the offer. -/
def Reaches (state : State) (turn : Turn) (trade : CronTrade) : Prop :=
  turn.due = true ∧ state.isFlaggedForRemoval trade = false ∧ turn.expired = false ∧ turn.current = true

/-- A stop order waits that the market would take. -/
def Waits (state : State) (trade : CronTrade) : Prop :=
  trade.placed = false ∧ (state.system.market.offers trade.number).isSome = false ∧ trade.isStopOrder = true ∧
    trade.stopActivated = false ∧ state.system.market.validateOfferForMarket trade.offer = true

/-- The best price is not taken from nobody, or no price at all is not beyond the stop price, or some limit order is. -/
def Sighted (market : Market) (trade : CronTrade) : Prop :=
  market.relevantPrice trade.offer ≠ 0 ∨ trade.passes 0 = false ∨ ∃ limit ∈ limits market trade.offer, trade.passes limit = true

/-- Whenever a stop order is looked at it sees a price. -/
def SeesPrice : Event → State → Prop
  | .processItem number turn _, state => state.running = true →
    ∀ trade ∈ state.findItemOnMap number, Reaches state turn trade → Waits state trade → Sighted state.system.market trade
  | _, _ => True

instance (state : State) (turn : Turn) (trade : CronTrade) : Decidable (Reaches state turn trade) := inferInstanceAs (Decidable (_ ∧ _))

instance (state : State) (trade : CronTrade) : Decidable (Waits state trade) := inferInstanceAs (Decidable (_ ∧ _))

instance (market : Market) (trade : CronTrade) : Decidable (Sighted market trade) := inferInstanceAs (Decidable (_ ∨ _))

instance : ∀ event state, Decidable (SeesPrice event state)
  | .processItem number turn _, state => inferInstanceAs (Decidable (state.running = true →
    ∀ trade ∈ state.findItemOnMap number, Reaches state turn trade → Waits state trade → Sighted state.system.market trade))
  | .notarizeMarketOffer .., _ | .removeCronItem .., _ | .saveMarket, _ | .saveCron, _ | .restart, _ => isTrue trivial

variable {market : Market} {offer : Offer} {trade : CronTrade} {state : State} {turn : Turn}

theorem mem_limits {price : Amount} : price ∈ limits market offer ↔
    price ≠ 0 ∧ ∃ entry ∈ if offer.isAsk then market.bids else market.asks, entry.1 = price := by
  unfold limits
  rw [List.mem_filter, List.mem_map, and_comm]
  exact and_congr_left' (by simp)

/-- The highest bid is at most the relevant price, which is 0 if there is none. -/
theorem highestBidPrice_cases (sorted : market.Sorted) :
    (market.bids = [] ∧ market.highestBidPrice = 0) ∨
      ((∃ entry ∈ market.bids, entry.1 = market.highestBidPrice) ∧ ∀ entry ∈ market.bids, entry.1 ≤ market.highestBidPrice) := by
  unfold Market.highestBidPrice
  cases last : market.bids.getLast? with
  | none => exact Or.inl ⟨List.getLast?_eq_none_iff.mp last, rfl⟩
  | some top =>
    obtain ⟨front, split⟩ := List.getLast?_eq_some_iff.mp last
    have rising := sorted.bids
    rw [split] at rising ⊢
    refine Or.inr ⟨⟨top, List.mem_append_right _ (List.mem_singleton_self top), rfl⟩, fun entry member => ?_⟩
    rcases List.mem_append.mp member with inside | at_
    · exact (List.pairwise_append.mp rising).2.2 entry inside top (List.mem_singleton_self top)
    · rw [List.mem_singleton.mp at_]
      exact le_refl _

theorem lowestAskPrice_cases (sorted : market.Sorted) :
    ((∀ entry ∈ market.asks, entry.1 = 0) ∧ market.lowestAskPrice = 0) ∨
      ((∃ entry ∈ market.asks, entry.1 = market.lowestAskPrice) ∧ market.lowestAskPrice ≠ 0 ∧
        ∀ entry ∈ market.asks, entry.1 ≠ 0 → market.lowestAskPrice ≤ entry.1) := by
  unfold Market.lowestAskPrice
  cases found : market.asks.find? fun entry => entry.1 ≠ 0 with
  | none => exact Or.inl ⟨fun entry member => by simpa using List.find?_eq_none.mp found entry member, rfl⟩
  | some first =>
    obtain ⟨priced, front, rest, split, skipped⟩ := List.find?_eq_some_iff_append.mp found
    have rising := sorted.asks
    rw [split] at rising ⊢
    refine Or.inr ⟨⟨first, List.mem_append_right _ List.mem_cons_self, rfl⟩, by simpa using priced, fun entry member some_ => ?_⟩
    rcases List.mem_append.mp member with before | after
    · exact absurd (by simpa using skipped entry before) some_
    · rcases List.mem_cons.mp after with same | later
      · rw [same]
        exact le_refl _
      · exact (List.pairwise_cons.mp (List.pairwise_append.mp rising).2.1).1 entry later

/-- A relevant price that is not 0 is the best one. -/
theorem relevantPrice_best (sorted : market.Sorted) (priced : market.relevantPrice offer ≠ 0) :
    IsBest offer (limits market offer) (market.relevantPrice offer) := by
  unfold IsBest
  by_cases ask : offer.isAsk = true
  · have same : market.relevantPrice offer = market.highestBidPrice := if_pos ask
    rw [if_pos ask]
    rw [same] at priced ⊢
    rcases highestBidPrice_cases sorted with ⟨_, zero⟩ | ⟨⟨entry, member, price⟩, most⟩
    · exact absurd zero priced
    · refine ⟨mem_limits.mpr ⟨priced, entry, by rwa [if_pos ask], price⟩, fun other listed => ?_⟩
      obtain ⟨_, bid, bidder, rfl⟩ := mem_limits.mp listed
      rw [if_pos ask] at bidder
      exact most bid bidder
  · have same : market.relevantPrice offer = market.lowestAskPrice := if_neg ask
    rw [if_neg ask]
    rw [same] at priced ⊢
    rcases lowestAskPrice_cases sorted with ⟨_, zero⟩ | ⟨⟨entry, member, price⟩, _, least⟩
    · exact absurd zero priced
    · refine ⟨mem_limits.mpr ⟨priced, entry, by rwa [if_neg ask], price⟩, fun other listed => ?_⟩
      obtain ⟨some_, bid, bidder, rfl⟩ := mem_limits.mp listed
      rw [if_neg ask] at bidder
      exact least bid bidder some_

theorem passes_iff {price : Amount} : trade.passes price = true ↔
    trade.stopSign = greaterThan ∧ trade.stopPrice < price ∨ trade.stopSign = lessThan ∧ price < trade.stopPrice := by
  unfold CronTrade.passes CronTrade.isGreaterThan CronTrade.isLessThan
  simp

/-- Without a relevant price the bids with a price are below 0, and no asks have one. -/
theorem triggered_of_limit (sorted : market.Sorted) (nobody : market.relevantPrice trade.offer = 0) (passes : trade.passes 0 = true)
    {limit : Amount} (listed : limit ∈ limits market trade.offer) (beyond : trade.passes limit = true) :
    Triggered ⟨trade, limits market trade.offer⟩ := by
  obtain ⟨priced, entry, member, rfl⟩ := mem_limits.mp listed
  by_cases ask : trade.offer.isAsk = true
  · have same : market.relevantPrice trade.offer = market.highestBidPrice := if_pos ask
    obtain ⟨best, there, most⟩ := Finset.exists_max_image (limits market trade.offer).toFinset id ⟨entry.1, List.mem_toFinset.mpr listed⟩
    have highest := most entry.1 (List.mem_toFinset.mpr listed)
    refine ⟨best, ?_, ?_⟩
    · unfold IsBest
      rw [if_pos ask]
      exact ⟨List.mem_toFinset.mp there, fun other member => most other (List.mem_toFinset.mpr member)⟩
    · obtain ⟨_, bid, bidder, at_⟩ := mem_limits.mp (List.mem_toFinset.mp there)
      have below : best ≤ 0 := by
        rw [← at_, ← nobody, same]
        rw [if_pos ask] at bidder
        rcases highestBidPrice_cases sorted with ⟨none_, _⟩ | ⟨_, all⟩
        · rw [none_] at bidder
          cases bidder
        · exact all bid bidder
      rw [passes_iff] at beyond passes ⊢
      simp only [id] at highest
      rcases beyond with ⟨sign, above⟩ | ⟨sign, under⟩
      · exact Or.inl ⟨sign, lt_of_lt_of_le above highest⟩
      · refine Or.inr ⟨sign, lt_of_le_of_lt below ?_⟩
        rcases passes with ⟨other, _⟩ | ⟨_, zero⟩
        · rw [sign] at other
          cases other
        · exact zero
  · have same : market.relevantPrice trade.offer = market.lowestAskPrice := if_neg ask
    rw [if_neg ask] at member
    rcases lowestAskPrice_cases sorted with ⟨none_, _⟩ | ⟨_, some_, _⟩
    · exact absurd (none_ entry member) priced
    · exact absurd (same.symm.trans nobody) some_

/-- A stop order that the code triggers is triggered if it sees a price. -/
theorem triggered_iff (sorted : market.Sorted) (passes : trade.passes (market.relevantPrice trade.offer) = true) :
    Triggered ⟨trade, limits market trade.offer⟩ ↔ Sighted market trade := by
  by_cases nobody : market.relevantPrice trade.offer = 0
  · rw [nobody] at passes
    constructor
    · rintro ⟨best, isBest, beyond⟩
      unfold IsBest at isBest
      split at isBest
      · exact Or.inr (Or.inr ⟨best, isBest.1, beyond⟩)
      · exact Or.inr (Or.inr ⟨best, isBest.1, beyond⟩)
    · rintro (some_ | still | ⟨limit, listed, beyond⟩)
      · exact absurd nobody some_
      · rw [passes] at still
        cases still
      · exact triggered_of_limit sorted nobody passes listed beyond
  · exact iff_of_true ⟨_, relevantPrice_best sorted nobody, passes⟩ (Or.inl nobody)

/-! ## What cron keeps -/

/-- No number is used twice, and a stop order that waits was not put on the market before. -/
structure Orderly (state : State) : Prop where
  book : Sound state.system
  sorted : state.system.market.Sorted
  least : Amount.unit ≤ state.system.market.scale
  receipts : ∀ trade ∈ state.items, trade.number ∈ state.cronReceipts
  once : (state.items.map (·.number)).Nodup
  filed : ∀ trade ∈ state.cronFile, trade.number ∈ state.cronReceipts
  filedOnce : (state.cronFile.map (·.number)).Nodup
  recorded : ∀ placement ∈ state.placements, placement.trade.number ∈ state.cronReceipts
  waiting : ∀ trade ∈ state.items, trade.isStopOrder = true → trade.placed = false →
    ∀ placement ∈ state.placements, placement.trade.number ≠ trade.number

/-- The systems that the market can go on from. -/
structure Fit (system : System) : Prop where
  book : Sound system
  sorted : system.market.Sorted
  least : Amount.unit ≤ system.market.scale

theorem Orderly.fit (orderly : Orderly state) : Fit state.system := ⟨orderly.book, orderly.sorted, orderly.least⟩

theorem Orderly.withSystem (orderly : Orderly state) {system : System} (fit : Fit system) : Orderly { state with system } :=
  { orderly with book := fit.book, sorted := fit.sorted, least := fit.least }

variable {system next : System} {date : Time}

theorem Fit.addOffer (fit : Fit system) {pays : Option Trade} (added : system.addOffer offer pays date = some next) : Fit next := by
  have stepped : Trading.step (.add offer pays date) system = some next := added
  have scale := step_scale fit.book stepped
  obtain ⟨market, entered, rfl⟩ := Option.map_eq_some_iff.mp added
  exact ⟨fit.book.addOffer added, fit.sorted.addOffer entered, scale ▸ fit.least⟩

theorem Fit.removeOffer (fit : Fit system) {number : TransactionNum} (removed : system.removeOffer number = some next) : Fit next := by
  have stepped : Trading.step (.remove number) system = some next := removed
  have scale := step_scale fit.book stepped
  obtain ⟨market, left, rfl⟩ := Option.map_eq_some_iff.mp removed
  exact ⟨fit.book.removeOffer removed, fit.sorted.removeOffer left, scale ▸ fit.least⟩

theorem Fit.processTrade (fit : Fit system) {checks : TransactionNum → Checks} {number : TransactionNum} {stays : Bool}
    (processed : system.processTrade checks number = some (next, stays)) : Fit next := by
  have stepped : Trading.step (.process ⟨number, checks⟩) system = some next := by
    show (system.processTrade checks number).map (·.1) = some next
    rw [processed]
    rfl
  have grows := fit.book.process_grows stepped
  refine ⟨grows.sound fit.book, ?_, step_scale fit.book stepped ▸ fit.least⟩
  rw [grows.market]
  exact ⟨fit.sorted.bids, fit.sorted.asks⟩

theorem Fit.setTrade (fit : Fit system) (trades : TransactionNum → Option Trade) : Fit { system with trade := trades } :=
  ⟨⟨fit.book.admits, fit.book.bids, fit.book.asks, fit.book.bidsOnce, fit.book.asksOnce⟩, fit.sorted, fit.least⟩

theorem Fit.fresh (fit : Fit state.system) : Fit state.fresh :=
  ⟨Sound.fresh ⟨rfl, rfl, fun _ => rfl, fit.least⟩, ⟨List.Pairwise.nil, List.Pairwise.nil⟩, fit.least⟩

theorem set_numbers (state : State) (trade : CronTrade) : (state.set trade).items.map (·.number) = state.items.map (·.number) := by
  show (state.items.map _).map _ = _
  rw [List.map_map]
  refine List.map_congr_left fun other _ => ?_
  show (if other.number = trade.number then trade else other).number = other.number
  split
  · next same => exact same.symm
  · rfl

theorem Orderly.set (orderly : Orderly state) (changed : CronTrade) (there : trade ∈ state.items) (same : changed.number = trade.number)
    (waits : changed.isStopOrder = true → changed.placed = false → trade.isStopOrder = true ∧ trade.placed = false) : Orderly (state.set changed) where
  book := orderly.book
  sorted := orderly.sorted
  least := orderly.least
  receipts other member := by
    obtain ⟨before, inside, rfl⟩ := List.mem_map.mp member
    split
    · rw [same]
      exact orderly.receipts trade there
    · exact orderly.receipts before inside
  once := set_numbers state changed ▸ orderly.once
  filed := orderly.filed
  filedOnce := orderly.filedOnce
  recorded := orderly.recorded
  waiting other member stop absent := by
    obtain ⟨before, inside, rfl⟩ := List.mem_map.mp member
    by_cases hit : before.number = changed.number
    · rw [if_pos hit] at stop absent ⊢
      obtain ⟨stops, left⟩ := waits stop absent
      rw [same]
      exact orderly.waiting trade there stops left
    · rw [if_neg hit] at stop absent ⊢
      exact orderly.waiting before inside stop absent

/-! ## One turn -/

theorem addOffer_isSome (absent : (system.market.offers offer.transactionNum).isSome = false) (pays : Option Trade) (date : Time) :
    (∃ next, system.addOffer offer pays date = some next) ↔ system.market.validateOfferForMarket offer = true := by
  unfold System.addOffer Market.addOffer
  rw [absent]
  cases system.market.validateOfferForMarket offer <;> simp

theorem getOffer_puts (waits : Waits state trade) (passes : trade.passes (state.system.market.relevantPrice trade.offer) = true) (date : Time) :
    (state.getOffer trade date).1.placements = ⟨trade, limits state.system.market trade.offer⟩ :: state.placements := by
  obtain ⟨placed, absent, stop, still, valid⟩ := waits
  obtain ⟨next, added⟩ := (addOffer_isSome absent (some trade.pays) date).mpr valid
  unfold State.getOffer
  rw [placed, absent, stop, still, passes, added]
  rfl

theorem getOffer_still (still : Waits state trade → trade.passes (state.system.market.relevantPrice trade.offer) = false) (date : Time) :
    (state.getOffer trade date).1.placements = state.placements := by
  unfold State.getOffer
  split
  · rfl
  · next placed =>
    split
    · rfl
    · next absent =>
      split
      · split
        · rfl
        · split <;> rfl
      · next stop =>
        split
        · next waits =>
          split
          · next passes =>
            split
            · rfl
            · next system added =>
              have absent : (state.system.market.offers trade.number).isSome = false := Bool.not_eq_true _ ▸ absent
              have none_ := still ⟨by simpa using placed, absent, by simpa using stop, by simpa using waits,
                (addOffer_isSome absent _ _).mp ⟨_, added⟩⟩
              rw [passes] at none_
              cases none_
          · rfl
        · rfl

/-- The stop order that comes to the market has its pointer. -/
theorem Orderly.puts (orderly : Orderly state) (changed : CronTrade) (there : trade ∈ state.items) (same : changed.number = trade.number)
    (placed : changed.placed = true) (fit : Fit system) (found : List Amount) :
    Orderly { state.set changed with system, placements := ⟨trade, found⟩ :: state.placements } := by
  have kept := (orderly.set changed there same fun _ absent => nomatch placed.symm.trans absent).withSystem fit
  refine { kept with recorded := fun placement member => ?_, waiting := fun other member stop absent placement listed => ?_ }
  · rcases List.mem_cons.mp member with rfl | earlier
    · exact orderly.receipts trade there
    · exact orderly.recorded placement earlier
  · rcases List.mem_cons.mp listed with rfl | earlier
    · obtain ⟨before, inside, rfl⟩ := List.mem_map.mp member
      by_cases hit : before.number = changed.number
      · rw [if_pos hit, placed] at absent
        cases absent
      · rw [if_neg hit, ← same]
        exact fun again => hit again.symm
    · exact kept.waiting other member stop absent placement earlier

theorem Orderly.getOffer (orderly : Orderly state) (there : trade ∈ state.items) (date : Time) : Orderly (state.getOffer trade date).1 := by
  have flagged : Orderly (state.set { trade with pays := trade.pays.flagForRemoval }) :=
    orderly.set _ there rfl fun stop absent => ⟨stop, absent⟩
  unfold State.getOffer
  split
  · exact orderly
  · split
    · exact (orderly.set { trade with placed := true } there rfl fun _ absent => nomatch absent).withSystem (orderly.fit.setTrade _)
    · split
      · split
        · exact orderly
        · split
          · exact flagged
          · next system added =>
            exact (orderly.set { trade with hasTradeActivated := true, placed := true } there rfl
              fun _ absent => nomatch absent).withSystem (orderly.fit.addOffer added)
      · split
        · split
          · split
            · exact flagged
            · next system added =>
              exact orderly.puts { trade with stopActivated := true, hasTradeActivated := true, placed := true } there rfl rfl
                (orderly.fit.addOffer added) _
          · exact orderly
        · exact orderly

theorem processCron_reaches (reaches : Reaches state turn trade) :
    (state.processCron turn trade).1.placements = (state.getOffer trade turn.date).1.placements := by
  obtain ⟨due, flagged, expired, current⟩ := reaches
  unfold State.processCron
  rw [due, flagged, expired, current, if_neg (by decide), if_neg (by simp), if_neg (by decide)]
  generalize state.getOffer trade turn.date = result
  obtain ⟨next, found⟩ := result
  simp only
  split
  · rfl
  · split
    · rfl
    · split <;> rfl

theorem processCron_early (early : ¬ Reaches state turn trade) : (state.processCron turn trade).1.placements = state.placements := by
  unfold State.processCron
  split
  · rfl
  · next due =>
    split
    · rfl
    · next stays =>
      split
      · rfl
      · next current =>
        rw [not_or, Bool.not_eq_true, Bool.not_eq_true] at stays
        exact absurd ⟨by simpa using due, stays.1, stays.2, by simpa using current⟩ early

theorem Orderly.processCron (orderly : Orderly state) (there : trade ∈ state.items) (turn : Turn) :
    Orderly (state.processCron turn trade).1 := by
  have after := orderly.getOffer there turn.date
  unfold State.processCron
  split
  · exact orderly
  · split
    · exact orderly
    · split
      · exact orderly
      · generalize state.getOffer trade turn.date = result at after
        obtain ⟨next, found⟩ := result
        simp only
        split
        · exact after
        · split
          · exact after
          · split
            · exact after
            · next system stays processed => exact after.withSystem (after.fit.processTrade processed)

theorem Orderly.crash (orderly : Orderly state) : Orderly state.crash := { orderly with }

theorem Orderly.hookRemovalFromCron (orderly : Orderly state) (numbered : Bool) (trade : CronTrade) :
    Orderly (state.hookRemovalFromCron numbered trade) := by
  have fit : Fit ((state.system.removeOffer trade.number).getD state.system) := by
    cases removed : state.system.removeOffer trade.number with
    | none => exact orderly.fit
    | some system => exact orderly.fit.removeOffer removed
  unfold State.hookRemovalFromCron
  split
  · exact orderly.crash
  · have inside : ∀ other ∈ state.items.filter (fun other => other.number ≠ trade.number), other ∈ state.items :=
      fun other member => (List.mem_filter.mp member).1
    exact { orderly.withSystem fit with
      receipts := fun other member => orderly.receipts other (inside other member)
      once := orderly.once.sublist (List.filter_sublist.map _)
      waiting := fun other member => orderly.waiting other (inside other member) }

theorem Orderly.addCronItem (orderly : Orderly state) (trade : CronTrade) (place : Nat) : Orderly (state.addCronItem trade place) := by
  unfold State.addCronItem
  split
  · exact orderly
  · split
    · exact orderly
    · next unused =>
      have new : ∀ number ∈ state.cronReceipts, number ≠ trade.number := fun number member same => unused (same ▸ member)
      have members : ∀ other, other ∈ state.items.take place ++ { trade with placed := false } :: state.items.drop place ↔
          other = { trade with placed := false } ∨ other ∈ state.items := by
        intro other
        rw [List.mem_append, List.mem_cons, or_left_comm, ← List.mem_append, List.take_append_drop]
      exact { orderly with
        receipts := fun other member => by
          rcases (members other).mp member with rfl | old
          · exact List.mem_cons_self
          · exact List.mem_cons_of_mem _ (orderly.receipts other old)
        once := by
          have perm : (state.items.take place ++ { trade with placed := false } :: state.items.drop place).Perm
              ({ trade with placed := false } :: state.items) := by
            refine List.perm_middle.trans (List.Perm.cons _ ?_)
            rw [List.take_append_drop]
          refine (perm.map (·.number)).nodup_iff.mpr (List.nodup_cons.mpr ⟨fun listed => ?_, orderly.once⟩)
          obtain ⟨other, old, same⟩ := List.mem_map.mp listed
          exact new _ (orderly.receipts other old) same
        filed := fun other member => List.mem_cons_of_mem _ (orderly.filed other member)
        recorded := fun placement member => List.mem_cons_of_mem _ (orderly.recorded placement member)
        waiting := fun other member stop absent placement listed => by
          rcases (members other).mp member with rfl | old
          · exact new _ (orderly.recorded placement listed)
          · exact orderly.waiting other old stop absent placement listed }

theorem Orderly.loadCron (orderly : Orderly state) (load : Text → Option Offer) : Orderly (state.loadCron load) := by
  have fresh := orderly.withSystem orderly.fit.fresh
  unfold State.loadCron
  split
  · exact orderly.crash
  · exact { fresh with
      receipts := fun _ member => absurd member List.not_mem_nil
      once := List.nodup_nil
      waiting := fun _ member => absurd member List.not_mem_nil }
  · have read : ∀ trade ∈ State.readItems state.cronFile, trade.isStopOrder = false ∧ ∃ other ∈ state.cronFile, other.number = trade.number := by
      intro trade member
      obtain ⟨other, taken, rfl⟩ := List.mem_map.mp member
      have stop : other.isStopOrder = false := by simpa using List.mem_takeWhile_imp taken
      exact ⟨stop, other, (List.takeWhile_sublist _).subset taken, rfl⟩
    exact { fresh with
      receipts := fun trade member => by
        obtain ⟨_, other, inside, same⟩ := read trade member
        exact same ▸ orderly.filed other inside
      once := by
        unfold State.readItems
        rw [List.map_map]
        exact orderly.filedOnce.sublist ((List.takeWhile_sublist _).map _)
      waiting := fun trade member stop => by
        rw [(read trade member).1] at stop
        cases stop }

variable {contract : Offer → Text} {load : Text → Option Offer}

theorem mem_of_find {number : TransactionNum} (found : state.findItemOnMap number = some trade) : trade ∈ state.items :=
  List.mem_of_find?_eq_some found

theorem Orderly.processItem (orderly : Orderly state) (number : TransactionNum) (turn : Turn) (numbered : Bool) :
    Orderly (state.processItem number turn numbered) := by
  unfold State.processItem
  split
  · exact orderly
  · next trade found =>
    have after := orderly.processCron (mem_of_find found) turn
    split
    · next ended =>
      rw [ended] at after
      exact after.crash
    · next stays =>
      rw [stays] at after
      exact after
    · next leaves =>
      rw [leaves] at after
      exact after.hookRemovalFromCron numbered trade

theorem Orderly.removeCronItem (orderly : Orderly state) (number : TransactionNum) (numbered : Bool) :
    Orderly (state.removeCronItem number numbered) := by
  unfold State.removeCronItem
  split
  · exact orderly
  · next trade _ => exact orderly.hookRemovalFromCron numbered trade

theorem Orderly.step (orderly : Orderly state) (event : Event) : Orderly (step contract load event state) := by
  have running {next : State} (there : Orderly next) : Orderly (if state.running then next else state) := by
    split
    · exact there
    · exact orderly
  cases event with
  | notarizeMarketOffer trade place => exact running (orderly.addCronItem trade place)
  | processItem number turn numbered => exact running (orderly.processItem number turn numbered)
  | removeCronItem number numbered => exact running (orderly.removeCronItem number numbered)
  | saveMarket => exact running { orderly with }
  | saveCron => exact running { orderly with filed := orderly.receipts, filedOnce := orderly.once }
  | restart => exact orderly.loadCron load

/-! ## Every run -/

theorem hookRemovalFromCron_placements (numbered : Bool) (trade : CronTrade) :
    (state.hookRemovalFromCron numbered trade).placements = state.placements := by
  unfold State.hookRemovalFromCron
  split <;> rfl

theorem processItem_placements {number : TransactionNum} (found : state.findItemOnMap number = some trade) (numbered : Bool) :
    (state.processItem number turn numbered).placements = (state.processCron turn trade).1.placements := by
  unfold State.processItem
  rw [found]
  simp only
  split
  · next ended => rw [ended]; rfl
  · next stays => rw [stays]
  · next leaves => rw [leaves, hookRemovalFromCron_placements]

theorem addCronItem_placements (trade : CronTrade) (place : Nat) : (state.addCronItem trade place).placements = state.placements := by
  unfold State.addCronItem
  split
  · rfl
  · split <;> rfl

theorem removeCronItem_placements (number : TransactionNum) (numbered : Bool) :
    (state.removeCronItem number numbered).placements = state.placements := by
  unfold State.removeCronItem
  split
  · rfl
  · exact hookRemovalFromCron_placements _ _

theorem loadCron_placements (load : Text → Option Offer) : (state.loadCron load).placements = state.placements := by
  unfold State.loadCron
  split <;> rfl

/-- A price that is not beyond the stop price is no reason to look for one. -/
theorem sighted_of_still (still : trade.passes (market.relevantPrice trade.offer) = false) : Sighted market trade := by
  by_cases nobody : market.relevantPrice trade.offer = 0
  · exact Or.inr (Or.inl (nobody ▸ still))
  · exact Or.inl nobody

theorem Right.of_same {after : State} (right : Right state) (same : after.placements = state.placements) : Right after :=
  ⟨same ▸ right.once, same ▸ right.triggered⟩

theorem right_processItem (orderly : Orderly state) (right : Right state) (number : TransactionNum) (numbered : Bool) :
    Right (state.processItem number turn numbered) ↔
      ∀ trade ∈ state.findItemOnMap number, Reaches state turn trade → Waits state trade → Sighted state.system.market trade := by
  cases found : state.findItemOnMap number with
  | none =>
    refine iff_of_true ?_ fun trade there => nomatch there
    unfold State.processItem
    rw [found]
    exact right
  | some trade =>
    have only : (∀ other ∈ some trade, Reaches state turn other → Waits state other → Sighted state.system.market other) ↔
        (Reaches state turn trade → Waits state trade → Sighted state.system.market trade) :=
      ⟨fun all => all trade rfl, fun one other same => Option.some.inj same ▸ one⟩
    rw [only]
    have placements : (state.processItem number turn numbered).placements = _ := processItem_placements found numbered
    by_cases reaches : Reaches state turn trade
    · rw [processCron_reaches reaches] at placements
      by_cases puts : Waits state trade ∧ trade.passes (state.system.market.relevantPrice trade.offer) = true
      · obtain ⟨waits, passes⟩ := puts
        rw [getOffer_puts waits passes] at placements
        have new : trade.number ∉ state.placements.map (·.trade.number) := by
          intro listed
          obtain ⟨placement, member, same⟩ := List.mem_map.mp listed
          exact orderly.waiting trade (mem_of_find found) waits.2.2.1 waits.1 placement member same
        rw [← triggered_iff orderly.sorted passes]
        constructor
        · exact fun after _ _ => after.triggered _ (placements ▸ List.mem_cons_self)
        · intro triggered
          constructor
          · rw [placements]
            exact List.nodup_cons.mpr ⟨new, right.once⟩
          · intro placement member
            rw [placements] at member
            rcases List.mem_cons.mp member with rfl | earlier
            · exact triggered reaches waits
            · exact right.triggered placement earlier
      · have still (waits : Waits state trade) : trade.passes (state.system.market.relevantPrice trade.offer) = false :=
          Bool.not_eq_true _ ▸ fun passes => puts ⟨waits, passes⟩
        rw [getOffer_still still] at placements
        exact iff_of_true (right.of_same placements) fun _ waits => sighted_of_still (still waits)
    · rw [processCron_early reaches] at placements
      exact iff_of_true (right.of_same placements) fun reached => absurd reached reaches

theorem right_step (orderly : Orderly state) (right : Right state) (event : Event) :
    Right (step contract load event state) ↔ SeesPrice event state := by
  have same {next : State} (kept : next.placements = state.placements) : Right (if state.running then next else state) := by
    split
    · exact right.of_same kept
    · exact right
  cases event with
  | notarizeMarketOffer trade place => exact iff_of_true (same (addCronItem_placements trade place)) trivial
  | processItem number turn numbered =>
    show Right (if state.running = true then _ else _) ↔ (state.running = true → _)
    split
    · next running => exact (right_processItem orderly right number numbered).trans ⟨fun all _ => all, fun all => all running⟩
    · next ended => exact iff_of_true right fun running => absurd running ended
  | removeCronItem number numbered => exact iff_of_true (same (removeCronItem_placements number numbered)) trivial
  | saveMarket => exact iff_of_true (same rfl) trivial
  | saveCron => exact iff_of_true (same rfl) trivial
  | restart => exact iff_of_true (right.of_same (loadCron_placements load)) trivial

/-- A market without offers and cron without items. -/
def start (contract : Offer → Text) (system : System) : State := { system, marketFile := system.market.updateContents contract }

/-- In every run from a new market, no stop order comes to it twice, and none without a limit order beyond the stop
price on the other side, if and only if each that is looked at sees a price. -/
theorem stop_orders_right_iff (contract : Offer → Text) (load : Text → Option Offer) (system : System) (fresh : system.Fresh)
    (events : List Event) :
    (∀ before, before <+: events → ∃ state, (machine contract load).runs before (start contract system) = some state ∧ Right state) ↔
      (machine contract load).Allows SeesPrice events (start contract system) := by
  obtain ⟨bids, asks, _, least⟩ := id fresh
  have orderly : Orderly (start contract system) :=
    { book := Sound.fresh fresh
      sorted := ⟨bids ▸ .nil, asks ▸ .nil⟩
      least
      receipts := fun _ member => absurd member List.not_mem_nil
      once := List.nodup_nil
      filed := fun _ member => absurd member List.not_mem_nil
      filedOnce := List.nodup_nil
      recorded := fun _ member => absurd member List.not_mem_nil
      waiting := fun _ member => absurd member List.not_mem_nil }
  exact Machine.right_along_iff (fun event state => ⟨_, rfl⟩)
    (fun event before after now (_ : True) stepped => Option.some.inj stepped ▸ now.step event)
    (fun event before after now right (_ : True) stepped => Option.some.inj stepped ▸ right_step now right event)
    events _ orderly ⟨List.nodup_nil, fun _ member => absurd member List.not_mem_nil⟩
    (Machine.allows_of_always (fun _ _ => trivial) events _)

/-- One who sells once the highest bid is below 2 units. -/
def stopLoss : CronTrade where
  offer := sampleOffer 1 true 100 50 fifty_pos
  pays := { senderAcctID := 10, currencyAcctID := 11, apart := seller_apart }
  stopSign := lessThan
  stopPrice := Amount.shiftLeft 2

def bidder : CronTrade where
  offer := sampleOffer 2 false 200 50 fifty_pos
  pays := { senderAcctID := 20, currencyAcctID := 21, apart := buyer_apart }

def total (offer : Offer) : Text := serialize offer.totalAssetsOffer

/-- The bid of one unit comes first. -/
def sellAtBid : List Event := [.notarizeMarketOffer bidder 0, .processItem 2 {} true, .notarizeMarketOffer stopLoss 1, .processItem 1 {} true, .restart]

theorem stop_loss_sells : (sampleStart 0 (by decide)).Fresh ∧ ∀ before, before <+: sellAtBid →
    ∃ state, (machine total fun _ => none).runs before (start total (sampleStart 0 (by decide))) = some state ∧ Right state := by
  have fresh : (sampleStart 0 (by decide)).Fresh := ⟨rfl, rfl, fun _ => rfl, le_rfl⟩
  refine ⟨fresh, ?_⟩
  apply (stop_orders_right_iff total (fun _ => none) (sampleStart 0 (by decide)) fresh sellAtBid).mpr
  decide +kernel

/-- There are no bids, and the order to sell comes to the market at once. -/
def sellToNobody : List Event := [.notarizeMarketOffer stopLoss 0, .processItem 1 {} true]

theorem nobody_triggers : ¬ ∀ before, before <+: sellToNobody →
    ∃ state, (machine total fun _ => none).runs before (start total (sampleStart 0 (by decide))) = some state ∧ Right state := by
  intro right
  obtain ⟨state, ran, last⟩ := right sellToNobody List.prefix_rfl
  have placed : ((machine total fun _ => none).runs sellToNobody (start total (sampleStart 0 (by decide)))).map
      (fun state => state.placements.map (·.limits)) = some [[]] := by decide +kernel
  rw [ran] at placed
  obtain ⟨placement, member, none_⟩ := List.mem_map.mp (Option.some.inj placed ▸ List.mem_singleton_self [])
  obtain ⟨best, isBest, _⟩ := last.triggered placement member
  unfold IsBest at isBest
  rw [none_] at isBest
  split at isBest
  · exact absurd isBest.1 List.not_mem_nil
  · exact absurd isBest.1 List.not_mem_nil

end Opentxs.Trading.StopOrders
