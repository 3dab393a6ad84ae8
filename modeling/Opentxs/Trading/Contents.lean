import Opentxs.Trading.Statements
import Mathlib.Data.List.TakeWhile

/-! A market is written node by node and read back. -/

namespace Opentxs.Trading
open Library Spend

abbrev Text := List Char

/-! ## Numbers -/

/-- What a 64-bit integer holds after an overflow. -/
def int64 (value : Int) : Int := value.bmod (2 ^ 64)

/-- Decimal, of the value as it is held. -/
def serialize (amount : Amount) : Text :=
  if amount < 0 then '-' :: Nat.toDigits 10 (Int.natAbs amount) else Nat.toDigits 10 (Int.natAbs amount)

def readDigit (value : Int) (digit : Char) : Int := int64 (int64 (value * 10) + (digit.toNat - '0'.toNat : Nat))

def readDigits (digits : Text) : Int := (digits.takeWhile Char.isDigit).foldl readDigit 0

def stringToLong : Text → Int
  | '-' :: digits => if readDigits digits = 0 then 0 else int64 (-readDigits digits)
  | '+' :: digits => readDigits digits
  | digits => readDigits digits

theorem readDigit_int64 (value : Nat) (digit : Char) :
    readDigit (int64 value) digit = int64 (10 * value + (digit.toNat - '0'.toNat) : Nat) := by
  unfold readDigit int64
  rw [Int.bmod_add_bmod, ← Int.bmod_add_bmod, Int.bmod_mul_bmod, Int.bmod_add_bmod, Int.natCast_add, Int.natCast_mul, Int.mul_comm]
  rfl

theorem foldl_readDigit (digits : Text) : ∀ value : Nat, digits.foldl readDigit (int64 value) = int64 (Nat.ofDigitChars 10 digits value) := by
  induction digits with
  | nil =>
    intro value
    rw [List.foldl_nil, Nat.ofDigitChars_nil]
  | cons digit digits ih =>
    intro value
    rw [List.foldl_cons, Nat.ofDigitChars_cons, readDigit_int64, ih]

theorem readDigits_toDigits (value : Nat) : readDigits (Nat.toDigits 10 value) = int64 value := by
  have all : (Nat.toDigits 10 value).takeWhile Char.isDigit = Nat.toDigits 10 value :=
    List.takeWhile_eq_self_iff.mpr fun _ member => Nat.isDigit_of_mem_toDigits (by decide) (by decide) member
  have read := foldl_readDigit (Nat.toDigits 10 value) 0
  rw [Nat.ofDigitChars_ten_toDigits] at read
  unfold readDigits
  rw [all]
  exact read

/-- What is written is read modulo 2^64. -/
theorem stringToLong_serialize (amount : Amount) : stringToLong (serialize amount) = int64 amount := by
  unfold serialize
  split
  · rename_i negative
    show (if readDigits (Nat.toDigits 10 (Int.natAbs amount)) = 0 then 0 else int64 (-readDigits (Nat.toDigits 10 (Int.natAbs amount)))) = _
    rw [readDigits_toDigits]
    have negated : int64 (-int64 (Int.natAbs amount)) = int64 amount := by
      unfold int64
      rw [Int.bmod_neg_bmod]
      congr 1
      lia
    split
    · rename_i zero
      rw [← negated, zero]
      rfl
    · exact negated
  · rename_i positive
    have head : ∃ digit digits, Nat.toDigits 10 (Int.natAbs amount) = digit :: digits ∧ digit.isDigit := by
      cases written : Nat.toDigits 10 (Int.natAbs amount) with
      | nil => exact absurd written Nat.toDigits_ne_nil
      | cons digit digits =>
        exact ⟨digit, digits, rfl, Nat.isDigit_of_mem_toDigits (by decide) (by decide) (written ▸ List.mem_cons_self)⟩
    have read : stringToLong (Nat.toDigits 10 (Int.natAbs amount)) = readDigits (Nat.toDigits 10 (Int.natAbs amount)) := by
      obtain ⟨digit, digits, written, isDigit⟩ := head
      rw [written]
      unfold stringToLong
      split
      · rename_i same
        obtain ⟨rfl, _⟩ := List.cons.inj same
        exact absurd isDigit (by decide)
      · rename_i same
        obtain ⟨rfl, _⟩ := List.cons.inj same
        exact absurd isDigit (by decide)
      · rfl
    rw [read, readDigits_toDigits]
    congr 1
    lia

/-! ## Nodes -/

inductive Node
  | market (notaryID : NotaryID) (instrumentDefinitionID currencyTypeID : UnitDefinition) (marketScale lastSalePrice : Text)
  | offer (dateAdded : Time) (data : Text)
  deriving DecidableEq

/-- Why a node is not read. -/
inductive Failure
  | error
  | nullPointer
  deriving DecidableEq, Repr

/-- Whether a pointer still has the offer that it was made with. -/
inductive Pointer
  | owned
  | null
  deriving DecidableEq, Repr

def Pointer.release : Pointer → Pointer
  | .owned => .null
  | .null => .null

/-- No scale is below one unit. -/
def Market.setScale (market : Market) (scale : Amount) : Market :=
  { market with scale := if scale < Amount.unit then Amount.unit else scale }

section

variable (contract : Offer → Text) (load : Text → Option Offer)

/-- The offer that a pointer has takes what its contract says and comes to the market. -/
def Market.loadOffer (market : Market) (dateAdded : Time) (data : Text) : Pointer → Except Failure Market
  | .null => .error .nullPointer
  | .owned =>
    match (load data).bind (market.addOffer · dateAdded) with
    | some market => .ok market
    | none => .error .error

def Market.processXMLNode (market : Market) : Node → Except Failure Market
  | .market notaryID instrumentDefinitionID currencyTypeID marketScale lastSalePrice =>
    .ok { market.setScale (Amount.shiftLeft (stringToLong marketScale)) with
      lastSalePrice := Amount.shiftLeft (stringToLong lastSalePrice)
      notaryID := notaryID
      instrumentDefinitionID := instrumentDefinitionID
      currencyTypeID := currencyTypeID }
  | .offer dateAdded data =>
    if data = [] then .error .error
    else market.loadOffer load dateAdded data (Pointer.release .owned)

/-- All asks, then all bids. -/
def Market.updateContents (market : Market) : List Node :=
  .market market.notaryID market.instrumentDefinitionID market.currencyTypeID (serialize market.scale) (serialize market.lastSalePrice) ::
    ((market.asks ++ market.bids).filterMap fun entry => market.offers entry.2).map
      fun offer => .offer offer.dateAddedToMarket (contract offer)

def Market.read (market : Market) (nodes : List Node) : Except Failure Market := nodes.foldlM (·.processXMLNode load) market

/-- A market as it is made to be read. -/
def Market.blank : Market where
  notaryID := 0
  instrumentDefinitionID := 0
  currencyTypeID := 0
  scale := Amount.unit

/-- A market is what it was after it is written and read. -/
def Market.Survives (market : Market) : Prop :=
  ∃ restored, Market.blank.read load (market.updateContents contract) = .ok restored ∧ restored.scale = market.scale ∧
    restored.lastSalePrice = market.lastSalePrice ∧ restored.offers = market.offers ∧
    ∀ offer, restored.opposite offer = market.opposite offer

end

/-! ## What is lost -/

variable {contract : Offer → Text} {load : Text → Option Offer} {system : System}

/-- No offer is ever read, for the pointer that would load it was released. -/
theorem Market.processXMLNode_offer (market : Market) (dateAdded : Time) (data : Text) (read : Market) :
    market.processXMLNode load (.offer dateAdded data) ≠ .ok read := by
  show (if data = [] then Except.error Failure.error else .error .nullPointer) ≠ .ok read
  split <;> exact fun same => (nomatch same)

theorem Market.read_offers {market restored : Market} (offers : List Offer)
    (ran : market.read load (offers.map fun offer => .offer offer.dateAddedToMarket (contract offer)) = .ok restored) :
    offers = [] ∧ market = restored := by
  cases offers with
  | nil => exact ⟨rfl, Except.ok.inj ran⟩
  | cons offer rest =>
    unfold read at ran
    rw [List.map_cons, List.foldlM_cons] at ran
    obtain ⟨read, processed, _⟩ := Amount.bind_ok ran
    exact absurd processed (market.processXMLNode_offer offer.dateAddedToMarket (contract offer) read)

/-- A multiple of 2^64 is nothing to 64 bits. -/
theorem int64_of_shiftLeft {units : Int} {amount : Amount} (same : Amount.shiftLeft units = amount) : int64 amount = 0 := by
  have divides : ((2 ^ 64 : Nat) : Int) ∣ amount := ⟨units, same.symm.trans (Int.mul_comm _ _)⟩
  exact Int.bmod_eq_zero_of_dvd divides

theorem price_read_iff (price : Amount) : Amount.shiftLeft (stringToLong (serialize price)) = price ↔ price = 0 := by
  rw [stringToLong_serialize]
  constructor
  · intro same
    rw [int64_of_shiftLeft same] at same
    exact same.symm
  · rintro rfl
    decide

theorem scale_read_iff (market : Market) {scale : Amount} (least : Amount.unit ≤ scale) :
    (market.setScale (Amount.shiftLeft (stringToLong (serialize scale)))).scale = scale ↔ scale = Amount.unit := by
  rw [stringToLong_serialize]
  constructor
  · intro same
    unfold Market.setScale at same
    simp only [] at same
    split at same
    · exact same.symm
    · rw [int64_of_shiftLeft same] at same
      rw [← same] at least
      exact absurd least (by decide)
  · rintro rfl
    show (if Amount.shiftLeft (int64 Amount.unit) < Amount.unit then Amount.unit else Amount.shiftLeft (int64 Amount.unit)) = Amount.unit
    decide

/-- The scale of a market stays what it was made with. -/
theorem step_scale {next : System} {event : Event} (sound : Sound system) (stepped : step event system = some next) :
    next.market.scale = system.market.scale := by
  cases event with
  | add offer trade date =>
    obtain ⟨market, added, rfl⟩ := Option.map_eq_some_iff.mp stepped
    obtain ⟨_, added⟩ := Option.ite_none_left_eq_some.mp added
    obtain ⟨_, added⟩ := Option.ite_none_left_eq_some.mp added
    obtain rfl := Option.some.inj added
    show (if offer.isBid = true then _ else _ : Market).scale = _
    split <;> rfl
  | remove number =>
    obtain ⟨market, removed, rfl⟩ := Option.map_eq_some_iff.mp stepped
    obtain ⟨offer, _, rfl⟩ := Option.map_eq_some_iff.mp removed
    show (if offer.isBid = true then _ else _ : Market).scale = _
    split <;> rfl
  | process call =>
    have grows := sound.process_grows stepped
    rw [grows.market]

theorem Reached.scale_least (reached : Reached system) : Amount.unit ≤ system.market.scale := by
  obtain ⟨start, fresh, run⟩ := reached
  have kept : Sound system ∧ Amount.unit ≤ system.market.scale := by
    induction run with
    | start => exact ⟨Sound.fresh fresh, fresh.2.2.2⟩
    | step event earlier _ stepped kept =>
      obtain ⟨sound, least⟩ := kept
      exact ⟨Reached.sound ⟨start, fresh, earlier.step event trivial stepped⟩, (step_scale sound stepped).symm ▸ least⟩
  exact kept.2

/-- Nothing comes back of a market but one that has no offers, the least scale and no sale yet. -/
theorem market_survives_iff (reached : Reached system) :
    system.market.Survives contract load ↔
      (∀ number, system.market.offers number = none) ∧ system.market.scale = Amount.unit ∧ system.market.lastSalePrice = 0 := by
  have sound := reached.sound
  constructor
  · rintro ⟨restored, ran, scale, price, offers, _⟩
    obtain ⟨_, rfl⟩ := Market.read_offers _ ran
    exact ⟨fun number => (congrFun offers number).symm, (scale_read_iff Market.blank reached.scale_least).mp scale, (price_read_iff _).mp price⟩
  · rintro ⟨none, scale, price⟩
    have asks : system.market.asks = [] := by
      apply List.eq_nil_iff_forall_not_mem.mpr
      intro entry member
      obtain ⟨offer, found, _⟩ := sound.asks entry member
      cases (none entry.2).symm.trans found
    have bids : system.market.bids = [] := by
      apply List.eq_nil_iff_forall_not_mem.mpr
      intro entry member
      obtain ⟨offer, found, _⟩ := sound.bids entry member
      cases (none entry.2).symm.trans found
    refine ⟨{ Market.blank.setScale (Amount.shiftLeft (stringToLong (serialize system.market.scale))) with
        lastSalePrice := Amount.shiftLeft (stringToLong (serialize system.market.lastSalePrice))
        notaryID := system.market.notaryID
        instrumentDefinitionID := system.market.instrumentDefinitionID
        currencyTypeID := system.market.currencyTypeID },
      ?_, (scale_read_iff Market.blank reached.scale_least).mpr scale, (price_read_iff _).mpr price, funext fun number => (none number).symm, fun offer => ?_⟩
    · unfold Market.updateContents
      rw [asks, bids]
      rfl
    · unfold Market.opposite
      rw [asks, bids]
      rfl

theorem market_survives_fresh : (sampleStart 0 (by decide)).market.Survives (fun offer => serialize offer.totalAssetsOffer) fun _ => none :=
  (market_survives_iff ⟨_, ⟨rfl, rfl, fun _ => rfl, le_rfl⟩, .start⟩).mpr ⟨fun _ => rfl, rfl, rfl⟩

/-- One bid is on the market. -/
theorem offer_not_read : ∃ system, Reached system ∧ ∀ contract load, ¬ system.market.Survives contract load := by
  have ran : (machine.runs ((sampleEvents 100).take 1) (sampleStart 0 (by decide))).map (fun system =>
      (system.market.asks ++ system.market.bids).filterMap fun entry => system.market.offers entry.2) =
      some [sampleOffer 2 false 200 50 (by decide)] := by decide +kernel
  obtain ⟨system, began, offers⟩ := Option.map_eq_some_iff.mp ran
  refine ⟨system, sample_reached began, fun contract load survives => ?_⟩
  obtain ⟨restored, read, _⟩ := survives
  have none := (Market.read_offers _ read).1
  rw [offers] at none
  cases none

/-! ## The order of the offers -/

/-- Bids and asks are held from the lowest price to the highest. -/
structure Market.Sorted (market : Market) : Prop where
  bids : market.bids.Pairwise fun first second => first.1 ≤ second.1
  asks : market.asks.Pairwise fun first second => first.1 ≤ second.1

theorem sorted_inserted {entry : Entry} {entries : List Entry} (ahead : Entry → Bool) (lower : ∀ other, ahead other = true → other.1 ≤ entry.1)
    (higher : ∀ other, ahead other = false → entry.1 ≤ other.1) (sorted : entries.Pairwise fun first second => first.1 ≤ second.1) :
    (entries.takeWhile ahead ++ entry :: entries.dropWhile ahead).Pairwise fun first second => first.1 ≤ second.1 := by
  have behind : ∀ other ∈ entries.dropWhile ahead, entry.1 ≤ other.1 := by
    have rest := sorted.sublist (List.dropWhile_sublist ahead)
    cases dropped : entries.dropWhile ahead with
    | nil => exact fun _ member => absurd member List.not_mem_nil
    | cons head tail =>
      have first : entry.1 ≤ head.1 := by
        have stops := List.head?_dropWhile_not ahead entries
        rw [dropped] at stops
        exact higher head (Bool.not_eq_true _ ▸ (by simpa using stops))
      rw [dropped] at rest
      intro other member
      rcases List.mem_cons.mp member with rfl | member
      · exact first
      · exact first.trans ((List.pairwise_cons.mp rest).1 other member)
  rw [List.pairwise_append, List.pairwise_cons]
  refine ⟨sorted.sublist (List.takeWhile_sublist ahead), ⟨behind, sorted.sublist (List.dropWhile_sublist ahead)⟩, ?_⟩
  intro first member second listed
  have low := lower first (List.mem_takeWhile_imp member)
  rcases List.mem_cons.mp listed with rfl | listed
  · exact low
  · exact low.trans (behind second listed)

theorem Market.Sorted.addOffer {market after : Market} {offer : Offer} {date : Time} (sorted : market.Sorted)
    (added : market.addOffer offer date = some after) : after.Sorted := by
  obtain ⟨_, added⟩ := Option.ite_none_left_eq_some.mp added
  obtain ⟨_, added⟩ := Option.ite_none_left_eq_some.mp added
  obtain rfl := Option.some.inj added
  by_cases bid : offer.isBid = true
  · rw [if_pos bid]
    exact ⟨sorted_inserted _ (fun _ below => (of_decide_eq_true below).le) (fun _ above => le_of_not_gt (of_decide_eq_false above)) sorted.bids,
      sorted.asks⟩
  · rw [if_neg bid]
    exact ⟨sorted.bids,
      sorted_inserted _ (fun _ below => of_decide_eq_true below) (fun _ above => (lt_of_not_ge (of_decide_eq_false above)).le) sorted.asks⟩

theorem Market.Sorted.removeOffer {market after : Market} {number : TransactionNum} (sorted : market.Sorted)
    (removed : market.removeOffer number = some after) : after.Sorted := by
  obtain ⟨offer, _, rfl⟩ := Option.map_eq_some_iff.mp removed
  show (if offer.isBid = true then _ else _ : Market).Sorted
  split
  · exact ⟨sorted.bids.sublist List.eraseP_sublist, sorted.asks⟩
  · exact ⟨sorted.bids, sorted.asks.sublist List.eraseP_sublist⟩

theorem Reached.sorted (reached : Reached system) : system.market.Sorted := by
  obtain ⟨start, fresh, run⟩ := reached
  induction run with
  | start => exact ⟨fresh.1 ▸ .nil, fresh.2.1 ▸ .nil⟩
  | step event earlier _ stepped sorted =>
    cases event with
    | add offer trade date =>
      obtain ⟨_, added, rfl⟩ := Option.map_eq_some_iff.mp stepped
      exact sorted.addOffer added
    | remove number =>
      obtain ⟨_, removed, rfl⟩ := Option.map_eq_some_iff.mp stepped
      exact sorted.removeOffer removed
    | process call =>
      have grows := (Reached.sound ⟨start, fresh, earlier⟩).process_grows stepped
      rw [grows.market]
      exact ⟨sorted.bids, sorted.asks⟩

end Opentxs.Trading
