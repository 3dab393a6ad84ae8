import Opentxs.Trading.Contents
import Mathlib.Data.Int.Order.Basic

/-! Offers and trades are written as contracts, element by element, and read back. -/

namespace Opentxs.Trading.Contracts
open Library Spend

/-! ## Dates and numbers -/

/-- Nanoseconds since the epoch. -/
abbrev Date := Int64

def second : Int := 1000000000

def oneDay : Date := Int64.ofInt (86400 * second)

/-- A part of a second is cut off towards the epoch. -/
def seconds (date : Date) : Int := date.toInt.tdiv second

def isSpace (character : Char) : Bool := character.toNat = 32 ∨ 9 ≤ character.toNat ∧ character.toNat ≤ 13

/-- The digits that a number begins with. It has some, and they fit in 64 bits. -/
def unsigned (text : Text) : Option Nat :=
  let digits := text.takeWhile Char.isDigit
  if digits = [] then none
  else
    let value := Nat.ofDigitChars 10 digits 0
    if value < 2 ^ 64 then some value else none

/-- A minus sign is taken modulo 2^64. -/
def stoull (text : Text) : Option Nat :=
  match text.dropWhile isSpace with
  | '-' :: digits => (unsigned digits).map fun value => (2 ^ 64 - value) % 2 ^ 64
  | '+' :: digits => unsigned digits
  | digits => unsigned digits

def formatTimestamp (date : Date) : Text := serialize (seconds date)

/-- What is no number, or more seconds than a date can have, is the epoch. -/
def parseTimestamp (text : Text) : Date :=
  match stoull text with
  | some value => if value < 2 ^ 63 then Int64.ofInt (value * second) else 0
  | none => 0

def formatBool (value : Bool) : Text := if value then "true".toList else "false".toList

def toLong (text : Text) : Int64 := Int64.ofInt (stringToLong text)

/-! ## Elements -/

/-- An element with the text that follows it, as the reader comes to it. -/
structure Element where
  name : String
  attributes : List (String × Text)
  data : Text := []

namespace Element

variable (element : Element)

def attributeValue (name : String) : Option Text := (element.attributes.find? fun entry => entry.1 = name).map (·.2)

/-- A value that is missing is an empty text. -/
def text (name : String) : Text := (element.attributeValue name).getD []

/-- No text is made of a value that is missing. -/
def required (name : String) : Except Failure Text := (element.attributeValue name).elim (.error .nullPointer) .ok

end Element

/-! ## Offers -/

structure OTOffer where
  version : Text := "2.0".toList
  selling : Bool := false
  notaryID : Text := []
  instrumentDefinitionID : Text := []
  currencyTypeID : Text := []
  priceLimit : Amount := 0
  totalAssetsOffer : Amount := 0
  finishedSoFar : Amount := 0
  scale : Amount := Amount.unit
  minimumIncrement : Amount := Amount.unit
  transactionNum : Int64 := 0
  validFrom : Date := 0
  validTo : Date := 0

namespace OTOffer

def setScale (offer : OTOffer) (scale : Amount) : OTOffer :=
  { offer with scale := if scale < Amount.unit then Amount.unit else scale }

def setMinimumIncrement (offer : OTOffer) (increment : Amount) : OTOffer :=
  { offer with minimumIncrement := if increment < Amount.unit then Amount.unit else increment }

/-- An offer on the market of two instruments and a scale. -/
def create (notaryID instrumentDefinitionID currencyTypeID : Text) (scale : Amount) : OTOffer :=
  ({ notaryID, instrumentDefinitionID, currencyTypeID } : OTOffer).setScale scale

def makeOffer (offer : OTOffer) (selling : Bool) (priceLimit totalAssetsOffer minimumIncrement : Amount) (transactionNum : Int64)
    (validFrom validTo now : Date) : OTOffer :=
  let increment := if totalAssetsOffer < minimumIncrement then totalAssetsOffer else minimumIncrement
  let realFrom := if validFrom ≤ 0 then now else validFrom
  let realTo := if validTo ≤ 0 then realFrom + oneDay else validTo
  { offer.setMinimumIncrement increment with
    selling, transactionNum, totalAssetsOffer, priceLimit
    finishedSoFar := 0
    validFrom := realFrom
    validTo := realTo }

/-- The powers are computed in 64 bits. -/
def isPowerOfTen (value : Int64) : Bool :=
  value = 1 ∨ value ∈ (List.range 22).map fun power => Int64.ofInt (10 ^ (power + 1))

def updateContents (offer : OTOffer) : List Element :=
  [⟨"marketOffer", [("version", offer.version), ("isSelling", formatBool offer.selling), ("notaryID", offer.notaryID),
    ("instrumentDefinitionID", offer.instrumentDefinitionID), ("currencyTypeID", offer.currencyTypeID),
    ("priceLimit", serialize offer.priceLimit), ("totalAssetsOnOffer", serialize offer.totalAssetsOffer),
    ("finishedSoFar", serialize offer.finishedSoFar), ("marketScale", serialize offer.scale),
    ("minimumIncrement", serialize offer.minimumIncrement), ("transactionNum", serialize offer.transactionNum.toInt),
    ("validFrom", formatTimestamp offer.validFrom), ("validTo", formatTimestamp offer.validTo)], []⟩]

/-- Numbers of 64 bits become amounts of whole units. -/
def processXMLNode (offer : OTOffer) (element : Element) : Except Failure OTOffer :=
  if element.name ≠ "marketOffer" then .ok offer
  else
    let scale := toLong (element.text "marketScale")
    let total := toLong (element.text "totalAssetsOnOffer")
    let finished := toLong (element.text "finishedSoFar")
    let increment := toLong (element.text "minimumIncrement")
    let validFrom := parseTimestamp (element.text "validFrom")
    let validTo := parseTimestamp (element.text "validTo")
    if !isPowerOfTen scale then .error .error
    else if element.text "priceLimit" = [] then .error .error
    else if total < 1 then .error .error
    else if finished < 0 then .error .error
    else if increment < 1 ∨ total < increment then .error .error
    else if validTo < validFrom ∧ validTo ≠ 0 then .error .error
    else .ok { (offer.setScale (Amount.shiftLeft scale.toInt)).setMinimumIncrement (Amount.shiftLeft increment.toInt) with
      version := element.text "version"
      selling := element.text "isSelling" = "true".toList
      notaryID := element.text "notaryID"
      instrumentDefinitionID := element.text "instrumentDefinitionID"
      currencyTypeID := element.text "currencyTypeID"
      priceLimit := Amount.shiftLeft (toLong (element.text "priceLimit")).toInt
      totalAssetsOffer := Amount.shiftLeft total.toInt
      finishedSoFar := Amount.shiftLeft finished.toInt
      transactionNum := toLong (element.text "transactionNum")
      validFrom, validTo }

def read (offer : OTOffer) (elements : List Element) : Except Failure OTOffer := elements.foldlM processXMLNode offer

/-- What a contract is to bring back of an offer. -/
structure Same (offer restored : OTOffer) : Prop where
  selling : restored.selling = offer.selling
  priceLimit : restored.priceLimit = offer.priceLimit
  totalAssetsOffer : restored.totalAssetsOffer = offer.totalAssetsOffer
  finishedSoFar : restored.finishedSoFar = offer.finishedSoFar
  scale : restored.scale = offer.scale
  minimumIncrement : restored.minimumIncrement = offer.minimumIncrement
  transactionNum : restored.transactionNum = offer.transactionNum
  validFrom : seconds restored.validFrom = seconds offer.validFrom
  validTo : seconds restored.validTo = seconds offer.validTo

def Survives (offer : OTOffer) : Prop := ∃ restored, read {} offer.updateContents = .ok restored ∧ Same offer restored

end OTOffer

/-! ## Trades -/

def lessThan : UInt8 := 60

def greaterThan : UInt8 := 62

structure OTTrade where
  version : Text := "2.0".toList
  hasTradeActivated : Bool := false
  notaryID : Text := []
  instrumentDefinitionID : Text := []
  senderAcctID : Text := []
  currencyTypeID : Text := []
  currencyAcctID : Text := []
  senderNymID : Text := []
  tradesAlreadyDone : Int32 := 0
  transactionNum : Int64 := 0
  creationDate : Date := 0
  validFrom : Date := 0
  validTo : Date := 0
  closingNumbers : List Int64 := []
  stopSign : UInt8 := 0
  stopPrice : Amount := 0
  stopActivated : Bool := false
  marketOffer : Text := []

namespace OTTrade

/-- A trade of two accounts, of the instruments that they hold. -/
def create (notaryID instrumentDefinitionID senderAcctID senderNymID currencyTypeID currencyAcctID : Text) : OTTrade :=
  { notaryID, instrumentDefinitionID, senderAcctID, senderNymID, currencyTypeID, currencyAcctID }

/-- The trade keeps the contract of its offer. -/
def issueTrade (trade : OTTrade) (offer : OTOffer) (contract : Text) (stopSign : UInt8) (stopPrice : Amount) (now : Date) : Option OTTrade :=
  if stopSign ≠ 0 ∧ stopSign ≠ lessThan ∧ stopSign ≠ greaterThan then none
  else if stopSign ≠ 0 ∧ stopPrice ≤ 0 then none
  else if trade.notaryID ≠ offer.notaryID ∨ trade.currencyTypeID ≠ offer.currencyTypeID ∨
      trade.instrumentDefinitionID ≠ offer.instrumentDefinitionID ∨ offer.validFrom < 0 ∨ offer.validTo < offer.validFrom then none
  else some { trade with
    stopSign
    stopPrice := if stopSign ≠ 0 then stopPrice else trade.stopPrice
    tradesAlreadyDone := 0
    creationDate := now
    validFrom := offer.validFrom
    validTo := offer.validTo
    transactionNum := offer.transactionNum
    marketOffer := contract }

section

variable (armor : Text → Text) (unarmor : Text → Option Text)

def newline : Char := Char.ofNat 10

def tradeElement (trade : OTTrade) : Element where
  name := "trade"
  attributes := [("version", trade.version), ("hasActivated", formatBool trade.hasTradeActivated), ("notaryID", trade.notaryID),
    ("instrumentDefinitionID", trade.instrumentDefinitionID), ("assetAcctID", trade.senderAcctID),
    ("currencyTypeID", trade.currencyTypeID), ("currencyAcctID", trade.currencyAcctID), ("nymID", trade.senderNymID),
    ("completedNoTrades", serialize trade.tradesAlreadyDone.toInt), ("transactionNum", serialize trade.transactionNum.toInt),
    ("creationDate", formatTimestamp trade.creationDate), ("validFrom", formatTimestamp trade.validFrom),
    ("validTo", formatTimestamp trade.validTo)]

def closingElement (number : Int64) : Element := ⟨"closingTransactionNumber", [("value", serialize number.toInt)], []⟩

/-- The sign is written as a number, for it is a character. -/
def stopElement (trade : OTTrade) : Element where
  name := "stopOrder"
  attributes := [("hasActivated", formatBool trade.stopActivated), ("sign", serialize trade.stopSign.toNat),
    ("price", serialize trade.stopPrice)]

def offerElement (contract : Text) : Element := ⟨"offer", [], newline :: armor contract ++ [newline]⟩

/-- A closing number that is not positive ends the process. -/
def updateContents (trade : OTTrade) : Option (List Element) :=
  if ∃ number ∈ trade.closingNumbers, number ≤ 0 then none
  else some (trade.tradeElement :: trade.closingNumbers.map closingElement ++
    (if trade.stopSign = lessThan ∨ trade.stopSign = greaterThan then [trade.stopElement] else []) ++
    if trade.marketOffer = [] then [] else [offerElement armor trade.marketOffer])

/-- The line break before a text is not part of it. -/
def loadEncodedTextField (element : Element) : Option Text :=
  if element.data.length ≤ 2 then none
  else
    let encoded := if element.data.head? = some newline then element.data.tail else element.data
    if encoded.length ≤ 2 then none else unarmor encoded

def processTrade (trade : OTTrade) (element : Element) : Except Failure OTTrade := do
  let done ← element.required "completedNoTrades"
  let number ← element.required "transactionNum"
  let creation ← element.required "creationDate"
  let validFrom ← element.required "validFrom"
  let validTo ← element.required "validTo"
  .ok { trade with
    version := element.text "version"
    tradesAlreadyDone := Int32.ofInt (stringToLong done)
    transactionNum := toLong number
    creationDate := parseTimestamp creation
    validFrom := parseTimestamp validFrom
    validTo := parseTimestamp validTo
    hasTradeActivated := element.text "hasActivated" = "true".toList
    notaryID := element.text "notaryID"
    senderNymID := element.text "nymID"
    instrumentDefinitionID := element.text "instrumentDefinitionID"
    senderAcctID := element.text "assetAcctID"
    currencyTypeID := element.text "currencyTypeID"
    currencyAcctID := element.text "currencyAcctID" }

/-- A sign is one of the two characters. -/
def processStopOrder (trade : OTTrade) (element : Element) : Except Failure OTTrade := do
  let sign ← if element.text "sign" = "<".toList then .ok lessThan
    else if element.text "sign" = ">".toList then .ok greaterThan else .error Failure.error
  let price ← element.required "price"
  .ok { trade with
    stopSign := sign
    stopPrice := Amount.shiftLeft (stringToLong price)
    stopActivated := element.text "hasActivated" = "true".toList }

def processXMLNode (trade : OTTrade) (element : Element) : Except Failure OTTrade :=
  if element.name = "closingTransactionNumber" then
    if element.text "value" = [] then .error .error
    else .ok { trade with closingNumbers := trade.closingNumbers ++ [toLong (element.text "value")] }
  else if element.name = "trade" then trade.processTrade element
  else if element.name = "stopOrder" then trade.processStopOrder element
  else if element.name = "offer" then
    (loadEncodedTextField unarmor element).elim (.error .error) fun text => .ok { trade with marketOffer := text }
  else .ok trade

def read (trade : OTTrade) (elements : List Element) : Except Failure OTTrade := elements.foldlM (processXMLNode unarmor) trade

/-- What a contract is to bring back of a trade. -/
structure Same (trade restored : OTTrade) : Prop where
  hasTradeActivated : restored.hasTradeActivated = trade.hasTradeActivated
  tradesAlreadyDone : restored.tradesAlreadyDone = trade.tradesAlreadyDone
  transactionNum : restored.transactionNum = trade.transactionNum
  closingNumbers : restored.closingNumbers = trade.closingNumbers
  creationDate : seconds restored.creationDate = seconds trade.creationDate
  validFrom : seconds restored.validFrom = seconds trade.validFrom
  validTo : seconds restored.validTo = seconds trade.validTo
  stopSign : restored.stopSign = trade.stopSign
  stopPrice : restored.stopPrice = trade.stopPrice
  stopActivated : restored.stopActivated = trade.stopActivated
  marketOffer : restored.marketOffer = trade.marketOffer

def Survives (trade : OTTrade) : Prop :=
  ∃ elements restored, trade.updateContents armor = some elements ∧ read unarmor {} elements = .ok restored ∧ Same trade restored

end

end OTTrade

/-- What is armored can be read again, with a line break after it. -/
structure Armors (armor : Text → Text) (unarmor : Text → Option Text) : Prop where
  long : ∀ text, text ≠ [] → 2 ≤ (armor text).length
  whole : ∀ text, text ≠ [] → unarmor (armor text ++ [OTTrade.newline]) = some text

/-! ## Numbers come back -/

theorem toLong_serialize (number : Int64) : toLong (serialize number.toInt) = number := by
  unfold toLong
  rw [stringToLong_serialize]
  show Int64.ofInt (number.toInt.bmod (2 ^ 64)) = number
  calc Int64.ofInt (number.toInt.bmod (2 ^ 64))
      = Int64.ofInt number.toInt := congrArg Int64.ofInt number.toInt_bmod
    _ = number := Int64.ofInt_toInt number

theorem int32_serialize (number : Int32) : Int32.ofInt (stringToLong (serialize number.toInt)) = number := by
  have fits : int64 number.toInt = number.toInt :=
    Int.bmod_eq_of_le ((by decide : -((2 ^ 64 : Nat) : Int) / 2 ≤ -2 ^ 31).trans number.le_toInt)
      (number.toInt_lt.trans (by decide : (2 : Int) ^ 31 < ((2 ^ 64 : Nat) + 1) / 2))
  rw [stringToLong_serialize, fits, Int32.ofInt_toInt]

theorem serialize_ne_nil (value : Int) : serialize value ≠ [] := by
  unfold serialize
  split
  · exact List.cons_ne_nil _ _
  · exact Nat.toDigits_ne_nil

theorem formatBool_true (value : Bool) : formatBool value = ['t', 'r', 'u', 'e'] ↔ value = true := by
  cases value <;> decide

/-- Digits are read as the number that they were written from. -/
theorem unsigned_toDigits (value : Nat) : unsigned (Nat.toDigits 10 value) = if value < 2 ^ 64 then some value else none := by
  have all : (Nat.toDigits 10 value).takeWhile Char.isDigit = Nat.toDigits 10 value :=
    List.takeWhile_eq_self_iff.mpr fun _ member => Nat.isDigit_of_mem_toDigits (by decide) (by decide) member
  unfold unsigned
  rw [all, if_neg Nat.toDigits_ne_nil, Nat.ofDigitChars_ten_toDigits]

theorem isSpace_eq_false {character : Char} (digit : character.isDigit = true) : isSpace character = false := by
  have least : 48 ≤ character.toNat := by
    unfold Char.isDigit at digit
    exact (of_decide_eq_true (Bool.and_eq_true_iff.mp digit).1)
  exact decide_eq_false (by omega)

theorem stoull_serialize (value : Int) (fits : value.natAbs < 2 ^ 63) :
    stoull (serialize value) = some (if value < 0 then 2 ^ 64 - value.natAbs else value.natAbs) := by
  have wide : value.natAbs < 2 ^ 64 := fits.trans (by decide)
  have read : unsigned (Nat.toDigits 10 value.natAbs) = some value.natAbs := by rw [unsigned_toDigits, if_pos wide]
  unfold serialize stoull
  by_cases negative : value < 0
  · rw [if_pos negative, if_pos negative]
    have minus : ('-' :: Nat.toDigits 10 value.natAbs).dropWhile isSpace = '-' :: Nat.toDigits 10 value.natAbs := rfl
    rw [minus]
    show (unsigned (Nat.toDigits 10 value.natAbs)).map (fun value => (2 ^ 64 - value) % 2 ^ 64) = _
    rw [read, Option.map_some, Nat.mod_eq_of_lt (by omega)]
  · rw [if_neg negative, if_neg negative]
    cases written : Nat.toDigits 10 value.natAbs with
    | nil => exact absurd written Nat.toDigits_ne_nil
    | cons digit digits =>
      have isDigit : digit.isDigit = true := Nat.isDigit_of_mem_toDigits (by decide) (by decide) (written ▸ List.mem_cons_self)
      have kept : (digit :: digits).dropWhile isSpace = digit :: digits := by
        rw [List.dropWhile_cons, isSpace_eq_false isDigit]
        rfl
      rw [kept, ← read, written]
      split
      · next same =>
        obtain ⟨rfl, _⟩ := List.cons.inj same
        exact absurd isDigit (by decide)
      · next same =>
        obtain ⟨rfl, _⟩ := List.cons.inj same
        exact absurd isDigit (by decide)
      · rfl

theorem seconds_natAbs (date : Date) : (seconds date).natAbs ≤ 9223372036 := by
  have low := date.le_toInt
  have high := date.toInt_lt
  have whole : (seconds date).natAbs = date.toInt.natAbs / 1000000000 := Int.natAbs_tdiv _ _
  omega

/-- A date comes back to the second if and only if it is not a second or more before the epoch. -/
theorem seconds_parse_iff (date : Date) : seconds (parseTimestamp (formatTimestamp date)) = seconds date ↔ 0 ≤ seconds date := by
  have small := seconds_natAbs date
  unfold parseTimestamp formatTimestamp
  rw [stoull_serialize _ (by omega)]
  by_cases negative : seconds date < 0
  · have epoch : seconds (0 : Date) = 0 := rfl
    rw [if_pos negative]
    dsimp only
    rw [if_neg (by omega), epoch]
    omega
  · have whole : (seconds date).natAbs = seconds date := by omega
    rw [if_neg negative]
    dsimp only
    rw [if_pos (by omega), whole]
    refine iff_of_true ?_ (not_lt.mp negative)
    have held : (Int64.ofInt (seconds date * second)).toInt = seconds date * second := by
      refine Int64.toInt_ofInt_of_le ?_ ?_ <;> simp only [second] <;> omega
    show (Int64.ofInt (seconds date * second)).toInt.tdiv second = seconds date
    rw [held, Int.mul_tdiv_cancel _ (by decide)]

/-! ## Offers do not come back -/

theorem toLong_shiftLeft (units : Int) : toLong (serialize (Amount.shiftLeft units)) = 0 := by
  unfold toLong
  rw [stringToLong_serialize, int64_of_shiftLeft rfl]
  rfl

theorem made_scale {notaryID instrumentDefinitionID currencyTypeID : Text} {scale : Amount} {selling : Bool}
    {priceLimit totalAssetsOffer minimumIncrement : Amount} {transactionNum : Int64} {validFrom validTo now : Date}
    (least : Amount.unit ≤ scale) :
    ((OTOffer.create notaryID instrumentDefinitionID currencyTypeID scale).makeOffer selling priceLimit totalAssetsOffer minimumIncrement
      transactionNum validFrom validTo now).scale = scale :=
  if_neg (not_lt.mpr least)

/-- The scale is more than 64 bits hold of it, and nothing is no power of ten. -/
theorem offer_lost (offer : OTOffer) (power : Nat) (scale : offer.scale = Amount.shiftLeft (10 ^ power)) : ¬ offer.Survives := by
  rintro ⟨restored, read, _⟩
  have found : offer.updateContents.foldlM OTOffer.processXMLNode {} = .error Failure.error := by
    have lost : toLong (serialize offer.scale) = 0 := (congrArg (toLong ∘ serialize) scale).trans (toLong_shiftLeft _)
    have none : OTOffer.isPowerOfTen 0 = false := by decide +kernel
    simp [OTOffer.updateContents, OTOffer.processXMLNode, Element.text, Element.attributeValue, lost, none]
  cases found.symm.trans read

/-! ## Trades -/

namespace OTTrade

variable {armor : Text → Text} {unarmor : Text → Option Text} {trade : OTTrade}

theorem loadEncodedTextField_armor (armors : Armors armor unarmor) (text : Text) (some : text ≠ []) :
    loadEncodedTextField unarmor (offerElement armor text) = .some text := by
  have long := armors.long text some
  have front : (newline :: armor text ++ [newline]).head? = Option.some newline := rfl
  have encoded : (newline :: armor text ++ [newline]).tail = armor text ++ [newline] := rfl
  unfold loadEncodedTextField offerElement
  dsimp only
  rw [if_neg (by rw [List.length_append, List.length_cons, List.length_singleton]; omega), if_pos front, encoded,
    if_neg (by rw [List.length_append, List.length_singleton]; omega)]
  exact armors.whole text some

theorem read_closingNumbers (unarmor : Text → Option Text) (numbers : List Int64) : ∀ trade : OTTrade,
    read unarmor trade (numbers.map closingElement) =
      .ok { trade with closingNumbers := trade.closingNumbers ++ numbers } := by
  induction numbers with
  | nil =>
    intro trade
    show Except.ok trade = .ok { trade with closingNumbers := trade.closingNumbers ++ [] }
    rw [List.append_nil]
  | cons number numbers ih =>
    intro trade
    have added : processXMLNode unarmor trade (closingElement number) = .ok { trade with closingNumbers := trade.closingNumbers ++ [number] } := by
      simp [processXMLNode, closingElement, Element.text, Element.attributeValue, serialize_ne_nil, toLong_serialize]
    unfold read at ih ⊢
    rw [List.map_cons, List.foldlM_cons, added]
    refine (ih _).trans ?_
    rw [List.append_assoc, List.singleton_append]

/-- The first element has all but the closing numbers, the stop order and the offer. -/
def first (trade : OTTrade) : OTTrade :=
  { trade with
    creationDate := parseTimestamp (formatTimestamp trade.creationDate)
    validFrom := parseTimestamp (formatTimestamp trade.validFrom)
    validTo := parseTimestamp (formatTimestamp trade.validTo)
    closingNumbers := []
    stopSign := 0
    stopPrice := 0
    stopActivated := false
    marketOffer := [] }

theorem read_first (unarmor : Text → Option Text) (elements : List Element) (written : trade.updateContents armor = some elements) : ∃ rest,
    read unarmor {} elements = read unarmor { trade.first with closingNumbers := trade.closingNumbers } rest ∧
      rest = (if trade.stopSign = lessThan ∨ trade.stopSign = greaterThan then [trade.stopElement] else []) ++
        if trade.marketOffer = [] then [] else [offerElement armor trade.marketOffer] := by
  obtain ⟨_, written⟩ := Option.ite_none_left_eq_some.mp written
  obtain rfl := Option.some.inj written
  refine ⟨_, ?_, rfl⟩
  have start : processXMLNode unarmor {} trade.tradeElement = .ok trade.first := by
    simp [processXMLNode, processTrade, tradeElement, Element.required, Element.text, Element.attributeValue, first,
      formatBool_true, int32_serialize, toLong_serialize, bind, Except.bind]
  have closed := read_closingNumbers unarmor trade.closingNumbers trade.first
  unfold read at closed ⊢
  rw [List.append_assoc, List.cons_append, List.foldlM_cons, start]
  show List.foldlM _ trade.first _ = _
  rw [List.foldlM_append, closed]
  rfl

/-- The number of a sign is no sign, so a stop order is never read again. -/
theorem stop_not_read (stops : trade.stopSign = lessThan ∨ trade.stopSign = greaterThan) {elements : List Element}
    (written : trade.updateContents armor = some elements) (restored : OTTrade) : read unarmor {} elements ≠ .ok restored := by
  intro ran
  obtain ⟨rest, same, split⟩ := read_first unarmor elements written
  have refused (before : OTTrade) : processXMLNode unarmor before trade.stopElement = .error Failure.error := by
    have sign : serialize trade.stopSign.toNat ≠ "<".toList ∧ serialize trade.stopSign.toNat ≠ ">".toList := by
      rcases stops with stop | stop <;> rw [stop] <;> decide
    have named : trade.stopElement.text "sign" = serialize trade.stopSign.toNat := by
      simp [stopElement, Element.text, Element.attributeValue]
    show before.processStopOrder trade.stopElement = _
    unfold processStopOrder
    rw [named, if_neg sign.1, if_neg sign.2]
    rfl
  rw [same, split, if_pos stops] at ran
  unfold read at ran
  rw [List.singleton_append, List.foldlM_cons, refused] at ran
  cases ran

theorem stop_lost (stops : trade.stopSign = lessThan ∨ trade.stopSign = greaterThan) : ¬ trade.Survives armor unarmor := by
  rintro ⟨elements, restored, written, ran, _⟩
  exact stop_not_read stops written restored ran

/-- A trade without a stop sign comes back as it was but for its dates and for what only a stop order has. -/
theorem read_plain (armors : Armors armor unarmor) (plain : trade.stopSign = 0) {elements : List Element}
    (written : trade.updateContents armor = some elements) :
    read unarmor {} elements = .ok { trade.first with
      closingNumbers := trade.closingNumbers
      marketOffer := trade.marketOffer } := by
  obtain ⟨rest, same, split⟩ := read_first unarmor elements written
  have unsigned : ¬ (trade.stopSign = lessThan ∨ trade.stopSign = greaterThan) := by
    rw [plain]
    decide
  rw [if_neg unsigned, List.nil_append] at split
  rw [same, split]
  by_cases none : trade.marketOffer = []
  · rw [if_pos none, none]
    rfl
  · have loaded := loadEncodedTextField_armor armors trade.marketOffer none
    rw [if_neg none]
    have given (before : OTTrade) :
        processXMLNode unarmor before (offerElement armor trade.marketOffer) = .ok { before with marketOffer := trade.marketOffer } := by
      show (loadEncodedTextField unarmor (offerElement armor trade.marketOffer)).elim _ _ = _
      rw [loaded]
      rfl
    unfold read
    rw [List.foldlM_cons, given]
    rfl

end OTTrade

/-- A trade that was issued, with closing numbers and flags that it got since. -/
inductive Issued : OTTrade → Prop
  | since (notaryID instrumentDefinitionID senderAcctID senderNymID currencyTypeID currencyAcctID : Text) (offer : OTOffer)
      (contract : Text) (stopSign : UInt8) (stopPrice : Amount) (now : Date) (issued : OTTrade)
      (done : (OTTrade.create notaryID instrumentDefinitionID senderAcctID senderNymID currencyTypeID currencyAcctID).issueTrade offer
        contract stopSign stopPrice now = some issued)
      (closingNumbers : List Int64) (hasTradeActivated stopActivated : Bool) :
      Issued { issued with closingNumbers, hasTradeActivated, stopActivated }

/-- Only a stop order has a stop price, and no date of an offer is before the epoch. -/
theorem Issued.made {trade : OTTrade} (issued : Issued trade) :
    (trade.stopSign = 0 ∧ trade.stopPrice = 0 ∨ trade.stopSign = lessThan ∨ trade.stopSign = greaterThan) ∧
      0 ≤ seconds trade.validFrom ∧ 0 ≤ seconds trade.validTo := by
  cases issued with
  | since _ _ _ _ _ _ offer contract stopSign stopPrice now issued done =>
    obtain ⟨sign, done⟩ := Option.ite_none_left_eq_some.mp done
    obtain ⟨_, done⟩ := Option.ite_none_left_eq_some.mp done
    obtain ⟨dates, done⟩ := Option.ite_none_left_eq_some.mp done
    obtain rfl := Option.some.inj done
    obtain ⟨_, _, _, began, ended⟩ : _ ∧ _ ∧ _ ∧ _ ∧ _ := by simpa only [not_or] using dates
    have start : 0 ≤ offer.validFrom.toInt := Int64.le_iff_toInt_le.mp (Int64.not_lt.mp began)
    have finish : 0 ≤ offer.validTo.toInt := start.trans (Int64.le_iff_toInt_le.mp (Int64.not_lt.mp ended))
    refine ⟨?_, Int.tdiv_nonneg start (by decide), Int.tdiv_nonneg finish (by decide)⟩
    by_cases plain : stopSign = 0
    · exact .inl ⟨plain, if_neg (not_not.mpr plain)⟩
    · by_cases less : stopSign = lessThan
      · exact .inr (.inl less)
      · exact .inr (.inr (by_contra fun greater => sign ⟨plain, less, greater⟩))

/-- No offer comes back from its contract. A trade does if and only if it is no stop order, its closing
numbers are positive and it was not issued before the epoch. -/
theorem contracts_survive_iff {armor : Text → Text} {unarmor : Text → Option Text} (armors : Armors armor unarmor) :
    (∀ (notaryID instrumentDefinitionID currencyTypeID : Text) (power : Nat) (selling : Bool)
      (priceLimit totalAssetsOffer minimumIncrement : Amount) (transactionNum : Int64) (validFrom validTo now : Date),
      ¬ ((OTOffer.create notaryID instrumentDefinitionID currencyTypeID (Amount.shiftLeft (10 ^ power))).makeOffer selling priceLimit
        totalAssetsOffer minimumIncrement transactionNum validFrom validTo now).Survives) ∧
    ∀ trade, Issued trade → (trade.Survives armor unarmor ↔ trade.stopSign = 0 ∧ trade.stopActivated = false ∧
      (∀ number ∈ trade.closingNumbers, 0 < number) ∧ 0 ≤ seconds trade.creationDate) := by
  constructor
  · intro notaryID instrumentDefinitionID currencyTypeID power selling priceLimit totalAssetsOffer minimumIncrement transactionNum
      validFrom validTo now
    refine offer_lost _ power ?_
    have some : (1 : Int) ≤ 10 ^ power := Int.pow_pos (by decide)
    have least : Amount.unit ≤ Amount.shiftLeft (10 ^ power) :=
      calc Amount.unit = 1 * Amount.unit := (Int.one_mul _).symm
        _ ≤ 10 ^ power * Amount.unit := Int.mul_le_mul_of_nonneg_right some Amount.unit_pos.le
    exact made_scale least
  · intro trade issued
    obtain ⟨signs, validFrom, validTo⟩ := issued.made
    constructor
    · intro survives
      rcases signs with ⟨plain, _⟩ | stops
      · obtain ⟨elements, restored, written, ran, same⟩ := survives
        have read := OTTrade.read_plain armors plain written
        obtain rfl := Except.ok.inj (read.symm.trans ran)
        obtain ⟨above, _⟩ := Option.ite_none_left_eq_some.mp written
        have positive (number : Int64) (member : number ∈ trade.closingNumbers) : 0 < number :=
          Int64.not_le.mp fun below => above ⟨number, member, below⟩
        exact ⟨plain, same.stopActivated.symm, positive, (seconds_parse_iff _).mp same.creationDate⟩
      · exact absurd survives (OTTrade.stop_lost stops)
    · rintro ⟨plain, stopActivated, positive, creation⟩
      rcases signs with ⟨_, price⟩ | stops
      · have above : ¬ ∃ number ∈ trade.closingNumbers, number ≤ 0 :=
          fun ⟨number, member, below⟩ => Int64.not_le.mpr (positive number member) below
        have written : trade.updateContents armor = some _ := if_neg above
        exact ⟨_, _, written, OTTrade.read_plain armors plain written, {
          hasTradeActivated := rfl
          tradesAlreadyDone := rfl
          transactionNum := rfl
          closingNumbers := rfl
          creationDate := (seconds_parse_iff _).mpr creation
          validFrom := (seconds_parse_iff _).mpr validFrom
          validTo := (seconds_parse_iff _).mpr validTo
          stopSign := plain.symm
          stopPrice := price.symm
          stopActivated := stopActivated.symm
          marketOffer := rfl }⟩
      · exact absurd stops (by rw [plain]; decide)

/-! ## Samples -/

def sampleOffer : OTOffer :=
  (OTOffer.create [] [] [] Amount.unit).makeOffer true (Amount.shiftLeft 5) (Amount.shiftLeft 100) (Amount.shiftLeft 10) 7
    (Int64.ofInt second) 0 (Int64.ofInt second)

/-- The offer has not been signed, and so it has no text. -/
def sampleTrade (stopSign : UInt8) : Option OTTrade :=
  (OTTrade.create [] [] [] [] [] []).issueTrade sampleOffer [] stopSign (Amount.shiftLeft 3) (Int64.ofInt second)

theorem plain_order_read : ∃ trade, sampleTrade 0 = some trade ∧
    { trade with closingNumbers := [8] }.Survives (fun text => text ++ text) fun encoded => some (encoded.take (encoded.length / 2)) := by
  have armors : Armors (fun text => text ++ text) fun encoded => some (encoded.take (encoded.length / 2)) := by
    refine ⟨fun text some => ?_, fun text _ => ?_⟩
    · have long := List.length_pos_iff.mpr some
      rw [List.length_append]
      omega
    · have half : (text ++ text ++ [OTTrade.newline]).length / 2 = text.length := by
        rw [List.length_append, List.length_append, List.length_singleton]
        omega
      rw [half, List.append_assoc, List.take_left]
  have issued : sampleTrade 0 = some _ := rfl
  exact ⟨_, issued, ((contracts_survive_iff armors).2 _ (.since _ _ _ _ _ _ _ _ _ _ _ _ issued [8] false false)).mpr
    ⟨rfl, rfl, List.forall_mem_singleton.mpr (by decide), by decide⟩⟩

/-- An offer of a scale of one, and a stop order. -/
theorem orders_not_read : ¬ sampleOffer.Survives ∧ ∃ trade, sampleTrade lessThan = some trade ∧
    ∀ armor unarmor, ¬ trade.Survives armor unarmor :=
  ⟨offer_lost _ 0 rfl, _, rfl, fun _ _ => OTTrade.stop_lost (.inl rfl)⟩

end Opentxs.Trading.Contracts
