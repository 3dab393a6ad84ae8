import Mathlib.Algebra.Order.Field.Rat
import Mathlib.Data.Int.Log
import Mathlib.Data.Rat.Floor
import Opentxs.Library.Decimal
import Opentxs.Spend.Amount

/-! The scales in which amounts are shown: how an amount becomes a text with separators and
symbols, and how a text is read as an amount. Numbers with a floating point are exact. -/

namespace Opentxs.Display
open Library Library.Decimal
open Spend (Amount)

abbrev Text := List Char

/-- The base and the exponent of a power. -/
abbrev Ratio := Nat × Int

structure Scale where
  prefix_ : Text
  suffix_ : Text
  ratios : List Ratio
  defaultMin : Option UInt8
  defaultMax : Option UInt8
deriving DecidableEq

/-! ## What is calculated once -/

def calculateIncomingRatio (ratios : List Ratio) : ℚ :=
  ratios.foldl (fun output ratio => output * (ratio.1 : ℚ) ^ ratio.2) 1

def calculateOutgoingRatio (ratios : List Ratio) : ℚ :=
  ratios.foldl (fun output ratio => output * (ratio.1 : ℚ) ^ (-1 * ratio.2)) 1

/-- Twenty more than the logarithm, without what is behind the point. -/
def maximumDecimals (incoming : ℚ) : Int :=
  if (10 : ℚ) ^ (-20 : Int) ≤ incoming then 20 + Int.log 10 incoming else 20 + Int.clog 10 incoming

structure Calculated where
  incoming : ℚ
  outgoing : ℚ
  absoluteMax : Int
  bounded : 0 ≤ absoluteMax ∧ absoluteMax ≤ 255

/-- An assertion ends the program where the decimals do not fit a byte. -/
def calculated (ratios : List Ratio) : Option Calculated :=
  let incoming := calculateIncomingRatio ratios
  if bounded : 0 ≤ maximumDecimals incoming ∧ maximumDecimals incoming ≤ 255 then
    some { incoming, outgoing := calculateOutgoingRatio ratios, absoluteMax := maximumDecimals incoming, bounded }
  else none

/-- The number of a byte with a sign. -/
def signedByte (number : Int) : Int := number.bmod 256

def effectiveLimits (scale : Scale) (values : Calculated) (min max : Option UInt8) : Nat × Int :=
  let effMin := (min.or scale.defaultMin).getD 0
  let effMax := (max.or scale.defaultMax).getD 0
  (effMin.toNat, Min.min (signedByte effMax.toNat) (signedByte values.absoluteMax))

/-! ## From an amount to a text -/

def toFloat (amount : Amount) : ℚ := amount / (Spend.Amount.unit : ℚ)

/-- Of two numbers that are equally near, the even one. -/
def nearest (number : ℚ) : Nat :=
  let below := ⌊number⌋₊
  let rest := number - below
  if rest < 1 / 2 ∨ (rest = 1 / 2 ∧ below % 2 = 0) then below else below + 1

/-- The number with so many digits behind the point. -/
def str (number : ℚ) (digits : Nat) : Text :=
  let scaled := nearest (|number| * 10 ^ digits)
  (if number < 0 then ['-'] else []) ++ Nat.toDigits 10 (scaled / 10 ^ digits) ++ '.' :: places digits scaled

/-- A signed number as an unsigned one of 32 bits. -/
def unsigned (number : Int) : Nat := (number % 2 ^ 32).toNat

def dropZeros (min : Nat) : (fractionalDigits : Nat) → Text → Nat × Text
  | 0, string => (0, string)
  | fractionalDigits + 1, string =>
    if min < fractionalDigits + 1 ∧ string.getLast? = some '0' then dropZeros min fractionalDigits string.dropLast
    else (fractionalDigits + 1, string)

structure Spacing where
  counter : Nat
  pushed : Nat := 0
  formatDecimals : Bool := false

namespace Spacing

/-- What stands behind a character in front of the point. -/
def separator (state : Spacing) (wholeDigits : Nat) (char : Char) : Text × Spacing :=
  if state.pushed < wholeDigits ∧ char ≠ '-' then
    if state.counter % 4 = 0 then ([','], { state with counter := state.counter + 1 + 1 })
    else ([], { state with counter := state.counter + 1 })
  else if char = '.' then ([], { state with counter := 1, formatDecimals := true })
  else ([], state)

/-- What stands behind a character behind the point. -/
def space (state : Spacing) (size : Nat) : Text × Spacing :=
  if state.formatDecimals then
    if state.counter % 4 = 0 ∧ state.pushed < size then (['\u202f'], { state with counter := state.counter + 1 + 1 })
    else ([], { state with counter := state.counter + 1 })
  else ([], state)

end Spacing

def spaced (size wholeDigits : Nat) : Spacing → Text → Text
  | _, [] => []
  | state, char :: string =>
    let (separator, state) := { state with pushed := state.pushed + 1 : Spacing }.separator wholeDigits char
    let (space, state) := state.space size
    char :: separator ++ space ++ spaced size wholeDigits state string

/-- The digits that are left, without the zeros at the end and the point before nothing. -/
structure Shown where
  string : Text
  fractionalDigits : Nat
  haveDecimal : Bool

def shown (scaled : ℚ) (min : Nat) (max : Int) : Shown :=
  let fractionalDigits := Max.max (unsigned max) 1
  let string := str scaled fractionalDigits
  let (string, fractionalDigits, haveDecimal) :=
    if max = 0 then (string.dropLast.dropLast, fractionalDigits - 1, false) else (string, fractionalDigits, true)
  let (fractionalDigits, string) := dropZeros min fractionalDigits string
  if string.getLast? = some '.' then { string := string.dropLast, fractionalDigits, haveDecimal := false }
  else { string, fractionalDigits, haveDecimal }

def Shown.wholeDigits (number : Shown) : Nat :=
  number.string.length - number.fractionalDigits - (if number.haveDecimal then 1 else 0) -
    (if number.string.head? = some '-' then 1 else 0)

def Shown.text (number : Shown) : Text :=
  let counter := if number.wholeDigits < 4 then 1 else 4 - (number.wholeDigits - 1) % 3
  spaced number.string.length number.wholeDigits { counter } number.string

/-- No text where the program ends. -/
def format (scale : Scale) (amount : Amount) (minDecimals maxDecimals : Option UInt8) : Option Text :=
  (calculated scale.ratios).map fun values =>
    let scaled := toFloat amount * values.outgoing
    let (min, max) := effectiveLimits scale values minDecimals maxDecimals
    scale.prefix_ ++ (shown scaled min max).text ++ if scale.suffix_ = [] then [] else ' ' :: scale.suffix_

/-! ## From a text to an amount -/

def isKept (char : Char) : Bool := char.isDigit || decide (char = '.')

def strip (text : Text) : Text := text.filter isKept

/-- The number that digits with a decimal point stand for. -/
def ofText (text : Text) : Option ℚ :=
  match text.splitOn '.' with
  | [whole] => some (value whole)
  | [whole, decimals] => some (value whole + value decimals / 10 ^ decimals.length)
  | _ => none

def floatToAmount (number : ℚ) : Option Amount :=
  let integer := (number * Spend.Amount.unit).num.tdiv (number * Spend.Amount.unit).den
  if Spend.Amount.fits integer then some integer else none

/-- Without a result where the program ends, and without an amount where the text has none or
one that is too large. -/
def import_ (scale : Scale) (formatted : Text) : Option (Option Amount) :=
  (calculated scale.ratios).map fun values =>
    (ofText (strip formatted)).bind fun number => floatToAmount (values.incoming * number)

end Opentxs.Display
