import Opentxs.Library.Hex

/-! Nodes of the recursive length prefix format: the size they are encoded in and the bytes they are encoded as. -/

namespace Opentxs.Rlp
open Library.Endian Library.Hex

inductive Node
  | null
  | string (bytes : Bytes)
  | sequence (items : List Node)
deriving Repr

namespace Const

def directEncode : UInt8 := 0x7f
def null : UInt8 := 0x80
def shortString : UInt8 := 0xb7
def longString : UInt8 := 0xb8
def shortList : UInt8 := 0xc0
def longList : UInt8 := 0xf7
def long : Nat := 56

end Const

/-! ## The size -/

def calculateEncodedSize (value : Nat) : Nat :=
  if value ≤ 2 ^ 8 - 1 then 1
  else if value ≤ 2 ^ 16 - 1 then 2
  else if value ≤ 2 ^ 24 - 1 then 3
  else if value ≤ 2 ^ 32 - 1 then 4
  else if value ≤ 2 ^ 40 - 1 then 5
  else if value ≤ 2 ^ 48 - 1 then 6
  else if value ≤ 2 ^ 56 - 1 then 7
  else 8

def byteSize (byte : UInt8) : Nat := if byte > Const.directEncode then 2 else 1

def stringSize (bytes : Bytes) : Nat :=
  if bytes.length = 0 then 1
  else if bytes.length = 1 then byteSize (bytes.headD 0)
  else if bytes.length < Const.long then 1 + bytes.length
  else 1 + calculateEncodedSize bytes.length + bytes.length

def sequenceSize (payload : Nat) : Nat :=
  if payload = 0 then 1
  else if payload < Const.long then 1 + payload
  else 1 + calculateEncodedSize payload + payload

mutual

/-- The sum is of machine words in the source: every statement about it asks that it is below `2 ^ 64`. -/
def Node.encodedSize : Node → Nat
  | .null => 1
  | .string bytes => stringSize bytes
  | .sequence items => sequenceSize (payload items)

def payload : List Node → Nat
  | [] => 0
  | node :: nodes => node.encodedSize + payload nodes

end

/-! ## The bytes -/

/-- The number as it is streamed in base sixteen. -/
def hexDigits (value : Nat) : List Char :=
  if value = 0 then ['0'] else (Nat.digits 16 value).reverse.map Nat.digitChar

def dataFromHex (text : List Char) : Bytes := (decodeHex text).getD []

/-- Nothing comes back where the assertion fails. -/
def encodeSize (longVal : UInt8) (value : Nat) : Option Bytes :=
  let payload := dataFromHex ('0' :: 'x' :: hexDigits value)
  if payload.length < 9 then some ((longVal + UInt8.ofNat payload.length) :: payload) else none

def makePrefix (shortVal longVal : UInt8) (bytes : Nat) : Option Bytes :=
  if bytes < Const.long then some [shortVal + UInt8.ofNat bytes] else encodeSize longVal bytes

def canDirectEncode (bytes : Bytes) : Bool :=
  if bytes.length = 0 then true
  else if 1 < bytes.length then false
  else decide (bytes.headD 0 ≤ Const.directEncode)

def directEncode (bytes : Bytes) : Bytes := if bytes.length = 0 then [Const.null] else [bytes.headD 0]

def encodeString (bytes : Bytes) : Option Bytes :=
  if canDirectEncode bytes then some (directEncode bytes)
  else (makePrefix Const.null Const.shortString bytes.length).map (· ++ bytes)

mutual

def Node.encode : Node → Option Bytes
  | .null => some [Const.null]
  | .string bytes => encodeString bytes
  | .sequence items => do
    let header ← makePrefix Const.shortList Const.longList (payload items)
    let body ← encodeAll items
    some (header ++ body)

def encodeAll : List Node → Option Bytes
  | [] => some []
  | node :: nodes => do
    let first ← node.encode
    let rest ← encodeAll nodes
    some (first ++ rest)

end

end Opentxs.Rlp
