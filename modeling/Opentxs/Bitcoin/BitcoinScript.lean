import Opentxs.Library.Endian
import Mathlib.Tactic.Common

/-! Scripts: the parser that splits bytes into opcodes and pushes, the check that an
element really is a data push, and the elements a script gives to a compact filter. -/

namespace Opentxs.Bitcoin.BitcoinScript
open Library.Endian

inductive FilterType
  | unknownCfilter
  | basicBip158
  | basicBchVariant
  | es
  deriving DecidableEq, Repr

inductive Position
  | coinbase
  | input
  | output
  | redeem
  deriving DecidableEq, Repr

structure OP where
  value : UInt8
  deriving DecidableEq, Repr

namespace OP

def ZERO : OP := ⟨0⟩
def PUSHDATA1 : OP := ⟨76⟩
def PUSHDATA2 : OP := ⟨77⟩
def PUSHDATA4 : OP := ⟨78⟩
def ONE : OP := ⟨81⟩
def THREE : OP := ⟨83⟩
def RETURN : OP := ⟨106⟩
def DUP : OP := ⟨118⟩
def EQUAL : OP := ⟨135⟩
def EQUALVERIFY : OP := ⟨136⟩
def HASH160 : OP := ⟨169⟩
def CHECKSIG : OP := ⟨172⟩
def CHECKMULTISIG : OP := ⟨174⟩
def INVALIDOPCODE : OP := ⟨255⟩

end OP

/-- Every byte is an opcode except those between `NOP10` and `PUBKEYHASH`. -/
def decode (byte : UInt8) : Option OP :=
  if byte ≤ 185 ∨ 253 ≤ byte then some ⟨byte⟩ else none

def isDirectPush (opcode : OP) : Option Nat :=
  let val := opcode.value.toNat
  if 0 < val ∧ val < 76 then some val else none

def isPush (opcode : OP) : Option Nat :=
  let val := opcode.value.toNat
  if 75 < val ∧ val < 79 then some (1 <<< (val - 76)) else none

def littleUint32 (bytes : Bytes) : Nat := ofLittle bytes

structure ScriptElement where
  opcode : OP
  invalid : Option UInt8 := none
  bytes : Option Bytes := none
  data : Option Bytes := none
  deriving DecidableEq, Repr

def ScriptElement.serialize (element : ScriptElement) : Bytes :=
  element.invalid.getD element.opcode.value :: (element.bytes.getD [] ++ element.data.getD [])

def ScriptElement.validate (element : ScriptElement) (checkForData : Bool) : Bool :=
  match element.invalid with
  | some _ => !checkForData
  | none =>
    match isDirectPush element.opcode with
    | some size =>
      match element.bytes, element.data with
      | none, some data => size = data.length
      | _, _ => false
    | none =>
      match isPush element.opcode with
      | some pushBytes =>
        match element.bytes, element.data with
        | some bytes, some data => pushBytes = bytes.length ∧ littleUint32 bytes = data.length
        | _, _ => false
      | none => !checkForData

def ScriptElement.isDataPush (element : ScriptElement) : Bool := element.validate true

structure Script where
  role : Position
  elements : List ScriptElement
  deriving DecidableEq, Repr

def Script.serialize (script : Script) : Bytes := script.elements.flatMap ScriptElement.serialize

/-! ## Scripts from elements -/

def opcode (op : OP) : ScriptElement := { opcode := op }

/-- A push of nothing comes out malformed. -/
def pushData (data : Bytes) : ScriptElement :=
  if data = [] then { opcode := OP.PUSHDATA1, bytes := some [0] }
  else if data.length ≤ 75 then { opcode := ⟨UInt8.ofNat data.length⟩, data := some data }
  else if data.length ≤ 255 then
    { opcode := OP.PUSHDATA1, bytes := some (toLittle 1 data.length), data := some data }
  else if data.length ≤ 65535 then
    { opcode := OP.PUSHDATA2, bytes := some (toLittle 2 data.length), data := some data }
  else { opcode := OP.PUSHDATA4, bytes := some (toLittle 4 data.length), data := some data }

/-- `none` is the blank script. -/
def scriptOf (elements : List ScriptElement) (role : Position) : Option Script :=
  if elements.all (ScriptElement.validate · false) ∧ ¬ (elements = [] ∧ role = .output) then some { role, elements }
  else none

def Script.calculateSize (script : Script) : Nat := script.serialize.length

/-! ## The parser -/

/-- Reading past the end truncates when invalid opcodes are allowed and fails otherwise. -/
def takePush (allowInvalidOpcodes : Bool) (pushSize : Nat) (bytes : Bytes) : Option (Bytes × Bytes) :=
  let effectiveSize := if allowInvalidOpcodes then min pushSize bytes.length else pushSize
  if bytes.length < effectiveSize then none
  else some (bytes.take effectiveSize, bytes.drop effectiveSize)

def parseOpcode (allowInvalidOpcodes : Bool) (byte : UInt8) : Option (OP × Option UInt8) :=
  match decode byte with
  | some opcode => some (opcode, none)
  | none => if allowInvalidOpcodes then some (OP.INVALIDOPCODE, some byte) else none

def parseElement (allowInvalidOpcodes : Bool) (byte : UInt8) (bytes : Bytes) :
    Option (ScriptElement × Bytes) := do
  let (opcode, invalid) ← parseOpcode allowInvalidOpcodes byte
  match isDirectPush opcode with
  | some pushSize =>
    let (data, bytes) ← takePush allowInvalidOpcodes pushSize bytes
    some ({ opcode, invalid, data := some data }, bytes)
  | none =>
    match isPush opcode with
    | some sizeBytes =>
      let (size, bytes) ← takePush allowInvalidOpcodes sizeBytes bytes
      let (data, bytes) ← takePush allowInvalidOpcodes (littleUint32 size) bytes
      some ({ opcode, invalid, bytes := if size = [] then none else some size, data := some data }, bytes)
    | none => some ({ opcode, invalid }, bytes)

/-- Every round takes the opcode's byte, so as many rounds as bytes are enough. -/
def parseElements (allowInvalidOpcodes : Bool) : (rounds : Nat) → Bytes → Option (List ScriptElement)
  | _, [] => some []
  | 0, _ => none
  | rounds + 1, byte :: bytes => do
    let (element, bytes) ← parseElement allowInvalidOpcodes byte bytes
    let elements ← parseElements allowInvalidOpcodes rounds bytes
    some (element :: elements)

/-- `none` is the blank script of a failed parse. -/
def bitcoinScript (bytes : Bytes) (role : Position) (allowInvalidOpcodes : Bool) : Option Script :=
  if bytes = [] ∨ role = .coinbase then some { role, elements := [] }
  else do
    let elements ← parseElements allowInvalidOpcodes bytes.length bytes
    some { role, elements }

theorem takePush_eq (allow : Bool) (pushSize : Nat) (bytes taken rest : Bytes)
    (parsed : takePush allow pushSize bytes = some (taken, rest)) :
    ∃ size, size ≤ bytes.length ∧ (allow = false → size = pushSize) ∧
      taken = bytes.take size ∧ rest = bytes.drop size := by
  simp only [takePush] at parsed
  by_cases short : bytes.length < if allow then min pushSize bytes.length else pushSize
  · rw [if_pos short] at parsed
    cases parsed
  · rw [if_neg short, Option.some.injEq, Prod.mk.injEq] at parsed
    refine ⟨_, Nat.le_of_not_lt short, ?_, parsed.1.symm, parsed.2.symm⟩
    intro strict
    simp [strict]

theorem takePush_append (allow : Bool) (pushSize : Nat) (bytes taken rest : Bytes)
    (parsed : takePush allow pushSize bytes = some (taken, rest)) : taken ++ rest = bytes := by
  obtain ⟨size, _, _, rfl, rfl⟩ := takePush_eq allow pushSize bytes taken rest parsed
  exact List.take_append_drop _ _

theorem takePush_truncates (pushSize : Nat) (bytes : Bytes) : ∃ taken rest,
    takePush true pushSize bytes = some (taken, rest) := by
  simp only [takePush, if_true]
  rw [if_neg (by omega)]
  exact ⟨_, _, rfl⟩

theorem parseOpcode_byte (allow : Bool) (byte : UInt8) (opcode : OP) (invalid : Option UInt8)
    (parsed : parseOpcode allow byte = some (opcode, invalid)) :
    invalid.getD opcode.value = byte := by
  simp only [parseOpcode, decode] at parsed
  split at parsed
  · rename_i found known
    split at known
    · cases known
      cases parsed
      rfl
    · cases known
  · split at parsed
    · cases parsed
      rfl
    · cases parsed

/-- One parsed element is the bytes it was read from. -/
theorem parseElement_serialize (allow : Bool) (byte : UInt8) (bytes rest : Bytes) (element : ScriptElement)
    (parsed : parseElement allow byte bytes = some (element, rest)) :
    element.serialize ++ rest = byte :: bytes := by
  simp only [parseElement, Option.bind_eq_bind, Option.bind_eq_some_iff] at parsed
  obtain ⟨⟨opcode, invalid⟩, opcodeParsed, parsed⟩ := parsed
  have first := parseOpcode_byte allow byte opcode invalid opcodeParsed
  cases direct : isDirectPush opcode with
  | some pushSize =>
    simp only [direct, Option.bind_eq_some_iff, Option.some.injEq, Prod.mk.injEq] at parsed
    obtain ⟨⟨data, left⟩, taken, rfl, rfl⟩ := parsed
    have joined := takePush_append allow pushSize bytes data left taken
    simp only [ScriptElement.serialize, first, Option.getD_none, Option.getD_some, List.nil_append,
      List.cons_append, joined]
  | none =>
    cases push : isPush opcode with
    | some sizeBytes =>
      simp only [direct, push, Option.bind_eq_some_iff, Option.some.injEq, Prod.mk.injEq] at parsed
      obtain ⟨⟨size, afterSize⟩, takenSize, ⟨data, left⟩, taken, rfl, rfl⟩ := parsed
      have sizeJoined := takePush_append allow sizeBytes bytes size afterSize takenSize
      have joined := takePush_append allow _ afterSize data left taken
      have kept : (if size = [] then none else some size).getD [] = size := by
        by_cases empty : size = []
        · simp [empty]
        · simp [empty]
      simp only [ScriptElement.serialize, first, kept, Option.getD_some, List.cons_append,
        List.append_assoc, joined, sizeJoined]
    | none =>
      simp only [direct, push, Option.some.injEq, Prod.mk.injEq] at parsed
      obtain ⟨rfl, rfl⟩ := parsed
      simp only [ScriptElement.serialize, first, Option.getD_none, List.append_nil, List.cons_append,
        List.nil_append]

theorem parseElements_serialize (allow : Bool) (rounds : Nat) (bytes : Bytes) (elements : List ScriptElement)
    (parsed : parseElements allow rounds bytes = some elements) :
    elements.flatMap ScriptElement.serialize = bytes := by
  induction rounds generalizing bytes elements with
  | zero =>
    cases bytes with
    | nil =>
      cases parsed
      rfl
    | cons byte bytes => cases parsed
  | succ rounds ih =>
    cases bytes with
    | nil =>
      cases parsed
      rfl
    | cons byte bytes =>
      simp only [parseElements, Option.bind_eq_bind, Option.bind_eq_some_iff, Option.some.injEq] at parsed
      obtain ⟨⟨element, rest⟩, first, tail, more, rfl⟩ := parsed
      rw [List.flatMap_cons, ih rest tail more]
      exact parseElement_serialize allow byte bytes rest element first

/-- Serializing a parsed script gives its bytes back. -/
theorem bitcoinScript_serialize (bytes : Bytes) (role : Position) (allow : Bool) (script : Script)
    (kept : role ≠ .coinbase) (parsed : bitcoinScript bytes role allow = some script) :
    script.serialize = bytes := by
  simp only [bitcoinScript, kept, or_false] at parsed
  split at parsed
  · rename_i empty
    cases parsed
    exact empty.symm
  · simp only [Option.bind_eq_bind, Option.bind_eq_some_iff, Option.some.injEq] at parsed
    obtain ⟨elements, found, rfl⟩ := parsed
    exact parseElements_serialize allow bytes.length bytes elements found

theorem parseElement_total (byte : UInt8) (bytes : Bytes) : ∃ element rest,
    parseElement true byte bytes = some (element, rest) := by
  have opcodeFound : ∃ opcode invalid, parseOpcode true byte = some (opcode, invalid) := by
    simp only [parseOpcode, if_true]
    cases decode byte with
    | some opcode => exact ⟨opcode, none, rfl⟩
    | none => exact ⟨_, _, rfl⟩
  obtain ⟨opcode, invalid, opcodeParsed⟩ := opcodeFound
  simp only [parseElement, opcodeParsed, Option.bind_eq_bind, Option.bind_some]
  cases isDirectPush opcode with
  | some pushSize =>
    obtain ⟨taken, rest, found⟩ := takePush_truncates pushSize bytes
    simp only [found, Option.bind_some]
    exact ⟨_, _, rfl⟩
  | none =>
    cases isPush opcode with
    | some sizeBytes =>
      obtain ⟨size, afterSize, sizeFound⟩ := takePush_truncates sizeBytes bytes
      obtain ⟨taken, rest, found⟩ := takePush_truncates (littleUint32 size) afterSize
      simp only [sizeFound, found, Option.bind_some]
      exact ⟨_, _, rfl⟩
    | none => exact ⟨_, _, rfl⟩

theorem parseElements_total (rounds : Nat) (bytes : Bytes) (enough : bytes.length ≤ rounds) :
    ∃ elements, parseElements true rounds bytes = some elements := by
  induction rounds generalizing bytes with
  | zero =>
    obtain rfl := List.eq_nil_of_length_eq_zero (Nat.le_zero.mp enough)
    exact ⟨[], rfl⟩
  | succ rounds ih =>
    cases bytes with
    | nil => exact ⟨[], rfl⟩
    | cons byte bytes =>
      obtain ⟨element, rest, first⟩ := parseElement_total byte bytes
      have shorter : rest.length ≤ rounds := by
        have joined := congrArg List.length (parseElement_serialize true byte bytes rest element first)
        simp only [ScriptElement.serialize, List.length_append, List.length_cons] at joined enough
        omega
      obtain ⟨elements, more⟩ := ih rest shorter
      exact ⟨element :: elements, by simp only [parseElements, first, Option.bind_eq_bind, Option.bind_some, more]⟩

/-- The lenient parser accepts every byte string. -/
theorem bitcoinScript_total (bytes : Bytes) (role : Position) :
    ∃ script, bitcoinScript bytes role true = some script := by
  rw [bitcoinScript]
  split
  · exact ⟨_, rfl⟩
  · obtain ⟨elements, parsed⟩ := parseElements_total bytes.length bytes (Nat.le_refl _)
    exact ⟨_, by rw [parsed]; rfl⟩

/-- What holds of each element that is parsed holds of all. -/
theorem parseElements_each {allow : Bool} {holds : ScriptElement → Prop}
    (each : ∀ byte bytes element rest, parseElement allow byte bytes = some (element, rest) → holds element) (rounds : Nat)
    (bytes : Bytes) (elements : List ScriptElement) (parsed : parseElements allow rounds bytes = some elements) :
    ∀ element ∈ elements, holds element := by
  induction rounds generalizing bytes elements with
  | zero =>
    cases bytes with
    | nil =>
      cases parsed
      exact List.forall_mem_nil _
    | cons byte bytes => cases parsed
  | succ rounds ih =>
    cases bytes with
    | nil =>
      cases parsed
      exact List.forall_mem_nil _
    | cons byte bytes =>
      simp only [parseElements, Option.bind_eq_bind, Option.bind_eq_some_iff, Option.some.injEq] at parsed
      obtain ⟨⟨element, rest⟩, first, tail, more, rfl⟩ := parsed
      exact List.forall_mem_cons.mpr ⟨each byte bytes element rest first, ih rest tail more⟩

theorem bitcoinScript_each {allow : Bool} {holds : ScriptElement → Prop}
    (each : ∀ byte bytes element rest, parseElement allow byte bytes = some (element, rest) → holds element) {bytes : Bytes}
    {role : Position} {script : Script} (parsed : bitcoinScript bytes role allow = some script) :
    ∀ element ∈ script.elements, holds element := by
  unfold bitcoinScript at parsed
  split at parsed
  · cases parsed
    exact List.forall_mem_nil _
  · obtain ⟨elements, ran, same⟩ := Option.bind_eq_some_iff.mp parsed
    obtain rfl := Option.some.inj same
    exact parseElements_each each bytes.length bytes elements ran

/-! ## Filter elements -/

/-- Both halves of a 64-byte push (after the first byte of a 65-byte one) and the push
itself; other lengths only themselves or nothing. -/
def pushElements (data : Bytes) : List Bytes :=
  if data.length = 65 then [(data.drop 1).take 32, (data.drop 33).take 32, data]
  else if data.length = 64 then [data.take 32, (data.drop 32).take 32, data]
  else if data.length = 33 ∨ data.length = 32 ∨ data.length = 20 then [data]
  else []

def Script.pushedElements (script : Script) : List Bytes :=
  script.elements.flatMap fun element =>
    if element.isDataPush then pushElements (element.data.getD []) else []

def Script.redeemScript (script : Script) : Option Script :=
  if script.role ≠ .input then none
  else match script.elements.getLast? with
    | none => none
    | some element =>
      if element.isDataPush then bitcoinScript (element.data.getD []) .redeem true else none

/-- What a script gives apart from its redeem script. -/
def Script.extractOwn (style : FilterType) (script : Script) : List Bytes :=
  if script.elements = [] then []
  else match style with
    | .es => script.pushedElements
    | _ => if (script.elements.head?.map ScriptElement.opcode) = some OP.RETURN then [] else [script.serialize]

def Script.extractElements (style : FilterType) (script : Script) : List Bytes :=
  script.extractOwn style ++
    match style, script.redeemScript with
    | .es, some subscript => subscript.extractOwn style
    | _, _ => []

theorem bitcoinScript_role (bytes : Bytes) (role : Position) (allow : Bool) (script : Script)
    (parsed : bitcoinScript bytes role allow = some script) : script.role = role := by
  rw [bitcoinScript] at parsed
  split at parsed
  · cases parsed
    rfl
  · simp only [Option.bind_eq_bind, Option.bind_eq_some_iff, Option.some.injEq] at parsed
    obtain ⟨elements, _, rfl⟩ := parsed
    rfl

end Opentxs.Bitcoin.BitcoinScript
