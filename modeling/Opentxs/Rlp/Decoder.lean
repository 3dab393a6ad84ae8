import Opentxs.Rlp.Node

/-! The decoder of nodes. It keeps a counter of the bytes that remain for every list it is in; only the innermost
one is looked at before a read, and all of them are lowered by it. -/

namespace Opentxs.Rlp
open Library.Endian Library.Hex

/-- What is thrown. -/
inductive Message
  | emptyInput
  | excessBytes (remaining : Nat)
  | insufficientForLength (required remaining : Nat)
  | insufficientForString (required remaining : Nat)
deriving DecidableEq, Repr

inductive Failure
  | invalidArgument (message : Message)
  | assertion
  | fuel
deriving DecidableEq, Repr

/-- The input that remains, and the counters with the innermost list first. The reads are kept for statements
only: how many bytes each took, and the counters before it. -/
structure Decoder where
  input : Bytes
  substring : List UInt64
  reads : List (Nat × List UInt64)
deriving Repr

namespace Decoder

def remaining (decoder : Decoder) : Nat := decoder.input.length

def checkRead (decoder : Decoder) (expected : Nat) : Bool :=
  if expected > decoder.remaining then false
  else
    match decoder.substring with
    | back :: _ => decide (expected ≤ back.toNat)
    | [] => true

def finishRead (decoder : Decoder) (bytes : Nat) : Decoder :=
  { input := decoder.input.drop bytes
    substring := decoder.substring.map (· - UInt64.ofNat bytes)
    reads := decoder.reads ++ [(bytes, decoder.substring)] }

inductive Kind
  | null
  | byte
  | shortString
  | longString
  | shortList
  | longList
deriving DecidableEq, Repr

def classify (byte : UInt8) : Kind :=
  if byte ≤ Const.directEncode then .byte
  else if byte = Const.null then .null
  else if byte < Const.longString then .shortString
  else if byte < Const.shortList then .longString
  else if byte ≤ Const.longList then .shortList
  else .longList

def assertTrue (condition : Bool) : Except Failure Unit := if condition then .ok () else .error .assertion

def extract (byte base : UInt8) : Except Failure Nat := do
  assertTrue (decide (base ≤ byte))
  .ok (byte.toNat - base.toNat)

def decodeBigEndian (decoder : Decoder) (bytes : Nat) : Except Failure (Nat × Decoder) :=
  if decoder.checkRead bytes then .ok (importBits (decoder.input.take bytes), decoder.finishRead bytes)
  else .error (.invalidArgument (.insufficientForLength bytes decoder.remaining))

/-- No other number of bytes is provided for. -/
def decodeLength (decoder : Decoder) (bytes : Nat) : Except Failure (Nat × Decoder) :=
  if 1 ≤ bytes ∧ bytes ≤ 8 then decoder.decodeBigEndian bytes else .error .assertion

def decodeString (decoder : Decoder) (length : Nat) : Except Failure (Node × Decoder) := do
  assertTrue (decide (0 < length))
  if decoder.checkRead length then .ok (.string (decoder.input.take length), decoder.finishRead length)
  else .error (.invalidArgument (.insufficientForString length decoder.remaining))

def decodeByte (decoder : Decoder) : Except Failure (Node × Decoder) := do
  assertTrue (decoder.checkRead 1)
  .ok (.string (decoder.input.take 1), decoder.finishRead 1)

def decodeNull (decoder : Decoder) : Except Failure (Node × Decoder) := do
  assertTrue (decoder.checkRead 1)
  .ok (.null, decoder.finishRead 1)

/-- The length that the marker byte holds. -/
def shortLength (decoder : Decoder) (marker base : UInt8) : Except Failure (Nat × Decoder) := do
  assertTrue (decoder.checkRead 1)
  let length ← extract marker base
  .ok (length, decoder.finishRead 1)

/-- The length that the bytes behind the marker byte hold. -/
def longLength (decoder : Decoder) (marker base : UInt8) : Except Failure (Nat × Decoder) := do
  assertTrue (decoder.checkRead 1)
  let bytes ← extract marker base
  (decoder.finishRead 1).decodeLength bytes

def decodeShortString (decoder : Decoder) (marker : UInt8) : Except Failure (Node × Decoder) := do
  let (length, decoder) ← decoder.shortLength marker Const.null
  decoder.decodeString length

def decodeLongString (decoder : Decoder) (marker : UInt8) : Except Failure (Node × Decoder) := do
  let (length, decoder) ← decoder.longLength marker Const.shortString
  decoder.decodeString length

def enter (decoder : Decoder) (length : Nat) : Decoder :=
  { decoder with substring := UInt64.ofNat length :: decoder.substring }

def leave (decoder : Decoder) : Decoder := { decoder with substring := decoder.substring.tail }

mutual

/-- One item, and nothing behind it unless it is in a list. -/
def call (fuel : Nat) (decoder : Decoder) : Except Failure (Node × Decoder) :=
  match fuel with
  | 0 => .error .fuel
  | fuel + 1 =>
    match decoder.input with
    | [] => .error (.invalidArgument .emptyInput)
    | marker :: _ => do
      let (out, decoder) ← decode fuel decoder marker
      if decoder.substring.length = 0 ∧ 0 < decoder.remaining then .error (.invalidArgument (.excessBytes decoder.remaining))
      else .ok (out, decoder)

def decode (fuel : Nat) (decoder : Decoder) (marker : UInt8) : Except Failure (Node × Decoder) :=
  match fuel with
  | 0 => .error .fuel
  | fuel + 1 =>
    match classify marker with
    | .null => decoder.decodeNull
    | .byte => decoder.decodeByte
    | .shortString => decoder.decodeShortString marker
    | .longString => decoder.decodeLongString marker
    | .shortList => do
      let (length, decoder) ← decoder.shortLength marker Const.shortList
      decodeList fuel (decoder.enter length)
    | .longList => do
      let (length, decoder) ← decoder.longLength marker Const.longList
      decodeList fuel (decoder.enter length)

/-- The list whose counter is the innermost. -/
def decodeList (fuel : Nat) (decoder : Decoder) : Except Failure (Node × Decoder) :=
  match fuel with
  | 0 => .error .fuel
  | fuel + 1 => do
    let (items, decoder) ← decodeItems fuel decoder
    .ok (.sequence items, decoder.leave)

/-- The loop runs while the counter is positive. -/
def decodeItems (fuel : Nat) (decoder : Decoder) : Except Failure (List Node × Decoder) :=
  match fuel with
  | 0 => .error .fuel
  | fuel + 1 =>
    if 0 < decoder.substring.headD 0 then do
      let (item, decoder) ← call fuel decoder
      let (items, decoder) ← decodeItems fuel decoder
      .ok (item :: items, decoder)
    else .ok ([], decoder)

end

end Decoder

/-- Every byte of the input is worth the four calls that it may take to get past it. -/
def enoughFuel (input : Bytes) : Nat := 4 * input.length + 4

def Node.decode (input : Bytes) : Except Failure (Node × Decoder) :=
  Decoder.call (enoughFuel input) { input, substring := [], reads := [] }

end Opentxs.Rlp
