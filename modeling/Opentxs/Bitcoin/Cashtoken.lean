import Opentxs.Blockchain.CompactSize

/-! The token prefix of an output's script. Reading drops the bits of the bitfield that a token has no field for,
and a commitment without bytes is written without the bit that announces it. -/

namespace Opentxs.Bitcoin.Cashtoken
open Library.Endian Blockchain.CompactSize

inductive Capability
  | none
  | mutableToken
  | minting
deriving DecidableEq, Repr

def Capability.code : Capability → UInt8
  | .none => 0
  | .mutableToken => 1
  | .minting => 2

abbrev FixedByteArray (size : Nat) := { bytes : Bytes // bytes.length = size }

structure Value where
  category : FixedByteArray 32
  nft : Bool
  capability : Capability
  commitment : Option Bytes
  amount : Option Int
deriving DecidableEq

inductive Error
  | expected (required : Nat) (message : String) (available : Nat)
  | runtime (message : String)
deriving DecidableEq

def nftMask : UInt8 := 0b00100000
def capabilityMask : UInt8 := 0b00001111
def commitmentMask : UInt8 := 0b01000000
def amountMask : UInt8 := 0b00010000

/-- `OP::PREFIX_TOKEN` -/
def prefixToken : UInt8 := 239

/-! ## Writing -/

def extractUInt64 (amount : Int) : Option Nat :=
  if 0 ≤ amount ∧ amount < 2 ^ 64 then some amount.toNat else none

def commitmentSize (commitment : Option Bytes) : Nat :=
  match commitment with
  | some commitment => total commitment.length
  | none => 0

def amountSize (amount : Option Int) : Option Nat :=
  match amount with
  | some amount => (extractUInt64 amount).map size
  | none => some 0

/-- Nothing comes back where an amount does not fit: the function may not throw. -/
def Value.bytes (value : Value) : Option Nat :=
  (amountSize value.amount).map fun amount => 1 + 32 + 1 + commitmentSize value.commitment + amount

def bitfield (commitment nft : Bool) (capability : Capability) (amount : Bool) : UInt8 :=
  let start : UInt8 := if commitment then commitmentMask else 0
  let token := if nft then start ||| nftMask ||| capability.code else start
  if amount then token ||| amountMask else token

def Value.bitfield (value : Value) : UInt8 :=
  Cashtoken.bitfield (value.commitment.any (0 < ·.length)) value.nft value.capability value.amount.isSome

def writeCommitment (commitment : Option Bytes) : Bytes :=
  match commitment with
  | some commitment => encode commitment.length ++ commitment
  | none => []

def writeAmount (amount : Option Int) : Bytes :=
  match amount with
  | some amount => encode amount.toNat
  | none => []

/-- What is written has to fit in the space that was reserved for it. -/
def Value.serialize (value : Value) : Option Bytes := do
  let size ← value.bytes
  let out := prefixToken :: (value.category.val ++ value.bitfield ::
    (writeCommitment value.commitment ++ writeAmount value.amount))
  if out.length ≤ size then some out else none

/-! ## Reading -/

def extractPrefix (view : Bytes) (bytes : Nat) (message : String) : Except Error (Bytes × Bytes) :=
  if view.length < bytes then .error (.expected bytes message view.length)
  else .ok (view.take bytes, view.drop bytes)

def readCategory (view : Bytes) : Except Error (FixedByteArray 32 × Bytes) := do
  let (category, rest) ← extractPrefix view 32 "category"
  if assigned : category.length = 32 then .ok (⟨category, assigned⟩, rest)
  else .error (.runtime "failed to assign category")

def readBitfield (view : Bytes) : Except Error (UInt8 × Bytes) := do
  let (bytes, rest) ← extractPrefix view 1 "bitfield"
  .ok (bytes.headD 0, rest)

def hasNft (bitfield : UInt8) : Bool := bitfield &&& nftMask != 0
def hasCommitment (bitfield : UInt8) : Bool := bitfield &&& commitmentMask != 0
def hasAmount (bitfield : UInt8) : Bool := bitfield &&& amountMask != 0

def capabilityOf (bitfield : UInt8) : Capability :=
  if hasNft bitfield then
    if bitfield &&& capabilityMask = 1 then .mutableToken
    else if bitfield &&& capabilityMask = 2 then .minting
    else .none
  else .none

def readCommitment (present : Bool) (view : Bytes) : Except Error (Option Bytes × Bytes) :=
  if present then
    match decodeCompactSize view with
    | (none, _) => .error (.runtime "unable to decode commitment size")
    | (some size, rest) => (extractPrefix rest size "commitment").map fun (commitment, rest) => (some commitment, rest)
  else .ok (none, view)

def readAmount (present : Bool) (view : Bytes) : Except Error (Option Int × Bytes) :=
  if present then
    match decodeCompactSize view with
    | (none, _) => .error (.runtime "unable to decode amount")
    | (some value, rest) => .ok (some (Int.ofNat value), rest)
  else .ok (none, view)

/-- The view is advanced past the prefix; a view without one is left as it is. -/
def deserialize (view : Bytes) : Except Error (Option Value × Bytes) :=
  match view with
  | [] => .ok (none, [])
  | first :: rest =>
    if first ≠ prefixToken then .ok (none, view)
    else do
      let (category, rest) ← readCategory rest
      let (bitfield, rest) ← readBitfield rest
      let (commitment, rest) ← readCommitment (hasCommitment bitfield) rest
      let (amount, rest) ← readAmount (hasAmount bitfield) rest
      .ok (some { category, nft := hasNft bitfield, capability := capabilityOf bitfield, commitment, amount }, rest)

/-! ## What is kept -/

/-- The bits that a token has a field for. -/
def Represented (bitfield : UInt8) : Prop :=
  bitfield &&& 0b10000000 = 0 ∧ bitfield &&& capabilityMask ≤ (if hasNft bitfield then 2 else 0)

instance (bitfield : UInt8) : Decidable (Represented bitfield) := inferInstanceAs (Decidable (_ ∧ _))

/-- A bitfield that is represented, and a commitment of at least one byte and sizes in the shortest form behind it. -/
def Canonical (input : Bytes) : Prop :=
  ∃ bitfield ∈ input[33]?, Represented bitfield ∧
    (hasCommitment bitfield = true → (decodeCompactSize (input.drop 34)).1 ≠ some 0 ∧ Minimal (input.drop 34)) ∧
    (hasAmount bitfield = true →
      ∀ rest ∈ (readCommitment (hasCommitment bitfield) (input.drop 34)).toOption, Minimal rest.2)

section Bitfield

variable {commitment nft amount : Bool} {capability : Capability}

theorem bitfield_reads (none : nft = false → capability = .none) :
    hasCommitment (bitfield commitment nft capability amount) = commitment ∧ hasNft (bitfield commitment nft capability amount) = nft ∧
      hasAmount (bitfield commitment nft capability amount) = amount ∧
        capabilityOf (bitfield commitment nft capability amount) = capability := by
  cases nft with
  | false =>
    rw [none rfl]
    cases commitment <;> cases amount <;> decide
  | true => cases commitment <;> cases amount <;> cases capability <;> decide

theorem bitfield_represented (none : nft = false → capability = .none) : Represented (bitfield commitment nft capability amount) := by
  cases nft with
  | false =>
    rw [none rfl]
    cases commitment <;> cases amount <;> decide
  | true => cases commitment <;> cases amount <;> cases capability <;> decide

theorem capabilityOf_none {byte : UInt8} (no : hasNft byte = false) : capabilityOf byte = .none := by
  rw [capabilityOf, if_neg (no ▸ Bool.false_ne_true)]

/-- A bitfield is rebuilt from what is read from it exactly when all of its bits are represented. -/
theorem bitfield_rebuilt (byte : UInt8) :
    bitfield (hasCommitment byte) (hasNft byte) (capabilityOf byte) (hasAmount byte) = byte ↔ Represented byte := by
  constructor
  · intro same
    rw [← same]
    exact bitfield_represented capabilityOf_none
  · have every : ∀ n < 256, Represented (UInt8.ofNat n) →
        bitfield (hasCommitment (UInt8.ofNat n)) (hasNft (UInt8.ofNat n)) (capabilityOf (UInt8.ofNat n)) (hasAmount (UInt8.ofNat n)) =
          UInt8.ofNat n := by
      decide +kernel
    have this := every byte.toNat byte.toNat_lt
    rw [UInt8.ofNat_toNat] at this
    exact this

end Bitfield

/-! ## The pieces -/

theorem extractPrefix_ok {view taken rest : Bytes} {bytes : Nat} {message : String} :
    extractPrefix view bytes message = .ok (taken, rest) ↔ view = taken ++ rest ∧ taken.length = bytes := by
  unfold extractPrefix
  split
  · next short =>
    refine iff_of_false (fun ok => nomatch ok) ?_
    rintro ⟨rfl, rfl⟩
    rw [List.length_append] at short
    omega
  · next enough =>
    constructor
    · intro ok
      cases ok
      exact ⟨(List.take_append_drop bytes view).symm, List.length_take_of_le (Nat.le_of_not_lt enough)⟩
    · rintro ⟨rfl, rfl⟩
      rw [List.take_left, List.drop_left]

theorem readCategory_ok {view rest : Bytes} {category : FixedByteArray 32} :
    readCategory view = .ok (category, rest) ↔ view = category.val ++ rest := by
  unfold readCategory
  cases taken : extractPrefix view 32 "category" with
  | error failure =>
    refine iff_of_false (fun ok => nomatch ok) fun same => ?_
    cases taken.symm.trans (extractPrefix_ok.mpr ⟨same, category.property⟩)
  | ok next =>
    obtain ⟨same, length⟩ := extractPrefix_ok.mp taken
    dsimp only [bind, Except.bind]
    rw [dif_pos length]
    constructor
    · intro ok
      cases ok
      exact same
    · intro also
      obtain ⟨first, second⟩ := List.append_inj (same.symm.trans also) (length.trans category.property.symm)
      exact congrArg Except.ok (Prod.ext (Subtype.ext first) second)

theorem readBitfield_ok {view rest : Bytes} {byte : UInt8} : readBitfield view = .ok (byte, rest) ↔ view = byte :: rest := by
  cases view with
  | nil => exact iff_of_false (fun ok => nomatch ok) (fun same => nomatch same)
  | cons first tail =>
    show Except.ok (first, tail) = .ok (byte, rest) ↔ _
    constructor
    · intro ok
      cases ok
      rfl
    · intro same
      cases same
      rfl

theorem readCommitment_present {view rest : Bytes} {commitment : Option Bytes}
    (ok : readCommitment true view = .ok (commitment, rest)) :
    ∃ read, commitment = some read ∧ decodeCompactSize view = (some read.length, read ++ rest) := by
  unfold readCommitment at ok
  rw [if_pos rfl] at ok
  cases decoded : decodeCompactSize view with
  | mk size tail =>
    rw [decoded] at ok
    cases size with
    | none => cases ok
    | some size =>
      dsimp only at ok
      cases taken : extractPrefix tail size "commitment" with
      | error failure =>
        rw [taken] at ok
        cases ok
      | ok next =>
        rw [taken] at ok
        cases ok
        obtain ⟨rfl, rfl⟩ := extractPrefix_ok.mp taken
        exact ⟨next.1, rfl, rfl⟩

theorem readAmount_present {view rest : Bytes} {amount : Option Int} (ok : readAmount true view = .ok (amount, rest)) :
    ∃ read : Nat, amount = some (Int.ofNat read) ∧ decodeCompactSize view = (some read, rest) := by
  unfold readAmount at ok
  rw [if_pos rfl] at ok
  cases decoded : decodeCompactSize view with
  | mk value tail =>
    rw [decoded] at ok
    cases value with
    | none => cases ok
    | some value =>
      cases ok
      exact ⟨value, rfl, rfl⟩

/-- The prefix in its parts: the marker, the category, the bitfield and what the bitfield announces. -/
structure Reads (input : Bytes) (value : Value) (rest : Bytes) (byte : UInt8) (tail after : Bytes) : Prop where
  input : input = prefixToken :: (value.category.val ++ byte :: tail)
  nft : value.nft = hasNft byte
  capability : value.capability = capabilityOf byte
  commitment : readCommitment (hasCommitment byte) tail = .ok (value.commitment, after)
  amount : readAmount (hasAmount byte) after = .ok (value.amount, rest)

theorem deserialize_ok {input rest : Bytes} {value : Value} :
    deserialize input = .ok (some value, rest) ↔ ∃ byte tail after, Reads input value rest byte tail after := by
  constructor
  · intro ok
    unfold deserialize at ok
    cases input with
    | nil => cases ok
    | cons first view =>
      dsimp only at ok
      split at ok
      · cases ok
      · next marker =>
        cases category : readCategory view with
        | error failure =>
          rw [category] at ok
          cases ok
        | ok one =>
          rw [category] at ok
          dsimp only [bind, Except.bind] at ok
          cases byte : readBitfield one.2 with
          | error failure =>
            rw [byte] at ok
            cases ok
          | ok two =>
            rw [byte] at ok
            dsimp only at ok
            cases commitment : readCommitment (hasCommitment two.1) two.2 with
            | error failure =>
              rw [commitment] at ok
              cases ok
            | ok three =>
              rw [commitment] at ok
              dsimp only at ok
              cases amount : readAmount (hasAmount two.1) three.2 with
              | error failure =>
                rw [amount] at ok
                cases ok
              | ok four =>
                rw [amount] at ok
                cases ok
                refine ⟨two.1, two.2, three.2, ?_, rfl, rfl, commitment, amount⟩
                rw [not_not.mp marker, readCategory_ok.mp category, readBitfield_ok.mp byte]
  · rintro ⟨byte, tail, after, rfl, nft, capability, commitment, amount⟩
    dsimp only [deserialize]
    rw [if_neg (not_not.mpr rfl), readCategory_ok.mpr rfl]
    dsimp only [bind, Except.bind]
    rw [readBitfield_ok.mpr rfl]
    dsimp only
    rw [commitment]
    dsimp only
    rw [amount, ← nft, ← capability]

/-! ## Sizes -/

/-- An amount that was read fits in eight bytes. -/
def Fits (amount : Option Int) : Prop := ∀ value ∈ amount, 0 ≤ value ∧ value < 2 ^ 64

theorem readAmount_fits {present : Bool} {view rest : Bytes} {amount : Option Int}
    (ok : readAmount present view = .ok (amount, rest)) : Fits amount := by
  cases present with
  | false =>
    cases ok
    exact fun _ none => nomatch none
  | true =>
    obtain ⟨read, rfl, decoded⟩ := readAmount_present ok
    intro value same
    have small := decode_lt decoded
    obtain rfl := Option.some.inj same
    exact ⟨Int.natCast_nonneg read, show (read : Int) < 2 ^ 64 by omega⟩

/-- What is written fills the space that was reserved. -/
theorem serialize_fits (value : Value) (fits : Fits value.amount) :
    value.serialize = some (prefixToken :: (value.category.val ++ value.bitfield ::
      (writeCommitment value.commitment ++ writeAmount value.amount))) ∧
    value.bytes = some (34 + (writeCommitment value.commitment).length + (writeAmount value.amount).length) := by
  have bytes : value.bytes = some (34 + (writeCommitment value.commitment).length + (writeAmount value.amount).length) := by
    have first : commitmentSize value.commitment = (writeCommitment value.commitment).length := by
      cases value.commitment with
      | none => rfl
      | some commitment => exact List.length_append.symm
    have second : amountSize value.amount = some (writeAmount value.amount).length := by
      cases kept : value.amount with
      | none => rfl
      | some amount => simp only [amountSize, extractUInt64, if_pos (fits amount kept), Option.map_some, writeAmount, size]
    rw [Value.bytes, second, first]
    rfl
  refine ⟨?_, bytes⟩
  unfold Value.serialize
  rw [bytes]
  dsimp only [bind, Option.bind]
  rw [if_pos]
  simp only [List.length_cons, List.length_append, value.category.property]
  omega

/-! ## Both ways -/

variable {input rest tail after : Bytes} {value : Value} {byte : UInt8}

/-- The bitfield and what follows it are written as they were read. -/
theorem serialize_input_iff (reads : Reads input value rest byte tail after) :
    (∃ out, value.serialize = some out ∧ out ++ rest = input) ↔
      value.bitfield = byte ∧ writeCommitment value.commitment ++ (writeAmount value.amount ++ rest) = tail := by
  rw [(serialize_fits value (readAmount_fits reads.amount)).1, reads.input]
  constructor
  · rintro ⟨out, same, whole⟩
    obtain rfl := Option.some.inj same
    rw [List.cons_append, List.append_assoc, List.cons_append, List.append_assoc] at whole
    exact List.cons.inj (List.append_cancel_left (List.cons.inj whole).2)
  · rintro ⟨rfl, rfl⟩
    refine ⟨_, rfl, ?_⟩
    rw [List.cons_append, List.append_assoc, List.cons_append, List.append_assoc]

theorem commitment_write_iff {present : Bool} {commitment : Option Bytes} {other : Bytes}
    (ok : readCommitment present tail = .ok (commitment, after)) :
    writeCommitment commitment ++ other = tail ↔ (present = true → Minimal tail) ∧ other = after := by
  cases present with
  | false =>
    cases ok
    exact ⟨fun same => ⟨fun no => (nomatch no), same⟩, And.right⟩
  | true =>
    obtain ⟨read, rfl, decoded⟩ := readCommitment_present ok
    calc encode read.length ++ read ++ other = tail
      _ ↔ encode read.length ++ (read ++ other) = tail := by rw [List.append_assoc]
      _ ↔ Minimal tail ∧ read ++ other = read ++ after := encode_append_iff decoded
      _ ↔ (true = true → Minimal tail) ∧ other = after := by
        rw [List.append_cancel_left_eq, forall_prop_of_true rfl]

theorem amount_write_iff {present : Bool} {amount : Option Int} (ok : readAmount present after = .ok (amount, rest)) :
    writeAmount amount ++ rest = after ↔ (present = true → Minimal after) := by
  cases present with
  | false =>
    cases ok
    exact iff_of_true rfl (fun no => nomatch no)
  | true =>
    obtain ⟨read, rfl, decoded⟩ := readAmount_present ok
    calc encode read ++ rest = after
      _ ↔ Minimal after := encode_decode decoded
      _ ↔ (true = true → Minimal after) := ⟨fun minimal _ => minimal, fun minimal => minimal rfl⟩

theorem readCommitment_isSome {present : Bool} {commitment : Option Bytes} (ok : readCommitment present tail = .ok (commitment, after)) :
    commitment.isSome = present := by
  cases present with
  | false =>
    cases ok
    rfl
  | true =>
    obtain ⟨read, rfl, _⟩ := readCommitment_present ok
    rfl

theorem readAmount_isSome {present : Bool} {amount : Option Int} (ok : readAmount present after = .ok (amount, rest)) :
    amount.isSome = present := by
  cases present with
  | false =>
    cases ok
    rfl
  | true =>
    obtain ⟨read, rfl, _⟩ := readAmount_present ok
    rfl

theorem any_isSome {commitment : Option Bytes} : commitment.any (0 < ·.length) = commitment.isSome ↔ commitment ≠ some [] := by
  match commitment with
  | none => decide
  | some [] => decide
  | some (byte :: rest) => exact iff_of_true rfl (fun same => nomatch same)

/-- The bitfield is written as it was read exactly when it is represented and the commitment is not empty. -/
theorem bitfield_iff (reads : Reads input value rest byte tail after) :
    value.bitfield = byte ↔ Represented byte ∧ value.commitment ≠ some [] := by
  have none : hasNft byte = false → capabilityOf byte = .none := capabilityOf_none
  have commitment := readCommitment_isSome reads.commitment
  have amount := readAmount_isSome reads.amount
  unfold Value.bitfield
  rw [reads.nft, reads.capability, amount, ← any_isSome, commitment]
  constructor
  · intro same
    have flag := (bitfield_reads none).1.symm.trans (congrArg hasCommitment same)
    rw [flag] at same
    exact ⟨(bitfield_rebuilt byte).mp same, flag⟩
  · rintro ⟨represented, flag⟩
    rw [flag]
    exact (bitfield_rebuilt byte).mpr represented

theorem canonical_iff (reads : Reads input value rest byte tail after) :
    Canonical input ↔ (Represented byte ∧ value.commitment ≠ some []) ∧ (hasCommitment byte = true → Minimal tail) ∧
      (hasAmount byte = true → Minimal after) := by
  have split : input = (prefixToken :: value.category.val) ++ byte :: tail := reads.input
  have length : (prefixToken :: value.category.val).length = 33 := congrArg (· + 1) value.category.property
  have at_byte : input[33]? = some byte := by
    rw [split, List.getElem?_append_right (Nat.le_of_eq length), length]
    rfl
  have drop : input.drop 34 = tail := by
    show input.drop (33 + 1) = tail
    rw [split, ← List.drop_drop, List.drop_left' length]
    rfl
  have empty : (hasCommitment byte = true → (decodeCompactSize tail).1 ≠ some 0) ↔ value.commitment ≠ some [] := by
    have ok := reads.commitment
    generalize hasCommitment byte = present at ok
    cases present with
    | false =>
      have nothing : value.commitment = none := congrArg Prod.fst (Except.ok.inj ok).symm
      rw [nothing]
      exact iff_of_true (fun no => nomatch no) (fun no => nomatch no)
    | true =>
      obtain ⟨read, same, decoded⟩ := readCommitment_present ok
      rw [decoded, same, forall_prop_of_true rfl]
      exact not_congr (by rw [Option.some.injEq, Option.some.injEq, List.length_eq_zero_iff])
  unfold Canonical
  rw [at_byte, drop]
  constructor
  · rintro ⟨_, same, represented, commitment, amount⟩
    obtain rfl := Option.some.inj same
    refine ⟨⟨represented, empty.mp fun present => (commitment present).1⟩, fun present => (commitment present).2, fun present => ?_⟩
    refine amount present (value.commitment, after) ?_
    rw [reads.commitment]
    rfl
  · rintro ⟨⟨represented, some⟩, commitment, amount⟩
    refine ⟨byte, rfl, represented, fun present => ⟨empty.mpr some present, commitment present⟩, fun present read same => ?_⟩
    rw [reads.commitment] at same
    obtain rfl := Option.some.inj same
    exact amount present

theorem writeCommitment_le {present : Bool} {commitment : Option Bytes} (ok : readCommitment present tail = .ok (commitment, after)) :
    (writeCommitment commitment).length + after.length ≤ tail.length := by
  cases present with
  | false =>
    cases ok
    exact Nat.le_of_eq (Nat.zero_add _)
  | true =>
    obtain ⟨read, rfl, decoded⟩ := readCommitment_present ok
    have least := size_le decoded
    rw [List.length_append] at least
    rw [writeCommitment, List.length_append, Nat.add_assoc]
    exact least

theorem writeAmount_le {present : Bool} {amount : Option Int} (ok : readAmount present after = .ok (amount, rest)) :
    (writeAmount amount).length + rest.length ≤ after.length := by
  cases present with
  | false =>
    cases ok
    exact Nat.le_of_eq (Nat.zero_add _)
  | true =>
    obtain ⟨read, rfl, decoded⟩ := readAmount_present ok
    exact size_le decoded

/-- A token is written in no more bytes than it was read from. -/
theorem serialize_le (ok : deserialize input = .ok (some value, rest)) :
    ∃ out, value.serialize = some out ∧ Fits value.amount ∧ out.length + rest.length ≤ input.length := by
  obtain ⟨byte, tail, after, reads⟩ := deserialize_ok.mp ok
  have fits := readAmount_fits reads.amount
  have commitment := writeCommitment_le reads.commitment
  have amount := writeAmount_le reads.amount
  refine ⟨_, (serialize_fits value fits).1, fits, ?_⟩
  rw [reads.input]
  simp only [List.length_cons, List.length_append]
  omega

/-- A token that was read from some script. -/
def Produced (value : Value) : Prop := ∃ input rest, deserialize input = .ok (some value, rest)

/-- What is written for a token with a commitment of at least one byte, or none, is read as it was. -/
theorem deserialize_serialize (produced : Produced value) (full : value.commitment ≠ some []) (script : Bytes) :
    deserialize (prefixToken :: (value.category.val ++ value.bitfield ::
      (writeCommitment value.commitment ++ (writeAmount value.amount ++ script)))) = .ok (some value, script) := by
  obtain ⟨input, rest, ok⟩ := produced
  obtain ⟨byte, tail, after, reads⟩ := deserialize_ok.mp ok
  have plain : value.nft = false → value.capability = .none := by
    rw [reads.nft, reads.capability]
    exact capabilityOf_none
  have flags : hasCommitment value.bitfield = value.commitment.any (0 < ·.length) ∧ hasNft value.bitfield = value.nft ∧
      hasAmount value.bitfield = value.amount.isSome ∧ capabilityOf value.bitfield = value.capability := bitfield_reads plain
  refine deserialize_ok.mpr ⟨_, _, writeAmount value.amount ++ script, rfl, flags.2.1.symm, flags.2.2.2.symm, ?_, ?_⟩
  · rw [flags.1, any_isSome.mpr full]
    have source := reads.commitment
    cases kept : value.commitment with
    | none => rfl
    | some read =>
      rw [kept] at source
      have present : hasCommitment byte = true := (readCommitment_isSome source).symm
      rw [present] at source
      obtain ⟨same, held, decoded⟩ := readCommitment_present source
      obtain rfl := Option.some.inj held
      have again := decode_encode read.length (read ++ (writeAmount value.amount ++ script)) (decode_lt decoded)
      unfold readCommitment writeCommitment
      rw [Option.isSome_some, if_pos rfl, List.append_assoc, again]
      dsimp only
      rw [extractPrefix_ok.mpr ⟨rfl, rfl⟩]
      rfl
  · rw [flags.2.2.1]
    have fits := readAmount_fits reads.amount
    cases kept : value.amount with
    | none => rfl
    | some read =>
      obtain ⟨positive, small⟩ := fits read kept
      have again := decode_encode read.toNat script (by omega)
      unfold readAmount writeAmount
      rw [Option.isSome_some, if_pos rfl, again]
      dsimp only
      show Except.ok (some (read.toNat : Int), script) = _
      rw [Int.toNat_of_nonneg positive]

theorem serialize_bytes {out : Bytes} (fits : Fits value.amount) (serialized : value.serialize = some out) : value.bytes = some out.length := by
  obtain ⟨written, bytes⟩ := serialize_fits value fits
  obtain rfl := Option.some.inj (serialized.symm.trans written)
  rw [bytes]
  simp only [List.length_cons, List.length_append, value.category.property, Option.some.injEq]
  omega

/-- The bytes are written as they were read if and only if they are canonical. -/
theorem serialize_deserialize_iff (ok : deserialize input = .ok (some value, rest)) :
    (∃ out, value.serialize = some out ∧ out ++ rest = input) ↔ Canonical input := by
  obtain ⟨byte, tail, after, reads⟩ := deserialize_ok.mp ok
  rw [serialize_input_iff reads, canonical_iff reads, bitfield_iff reads, commitment_write_iff reads.commitment, amount_write_iff reads.amount]

/-- A token that was read is written and read as it was if and only if its commitment is not empty. -/
theorem deserialize_serialize_iff (produced : Produced value) (script : Bytes) :
    (∃ out, value.serialize = some out ∧ deserialize (out ++ script) = .ok (some value, script)) ↔ value.commitment ≠ some [] := by
  constructor
  · rintro ⟨out, serialized, ok⟩
    obtain ⟨byte, tail, after, reads⟩ := deserialize_ok.mp ok
    have same := (serialize_input_iff reads).mp ⟨out, serialized, rfl⟩
    exact ((bitfield_iff reads).mp same.1).2
  · intro full
    obtain ⟨input, rest, ok⟩ := produced
    obtain ⟨byte, tail, after, reads⟩ := deserialize_ok.mp ok
    refine ⟨_, (serialize_fits value (readAmount_fits reads.amount)).1, ?_⟩
    have again := deserialize_serialize ⟨input, rest, ok⟩ full script
    rw [List.cons_append, List.append_assoc, List.cons_append, List.append_assoc]
    exact again

/-- Both laws of the codec, each with the condition under which it holds. -/
theorem prefix_codec_iff (input rest : Bytes) (value : Value) (token : Value) (script : Bytes) :
    (deserialize input = .ok (some value, rest) →
      ((∃ out, value.serialize = some out ∧ out ++ rest = input ∧ value.bytes = some (input.length - rest.length)) ↔ Canonical input)) ∧
    (Produced token →
      ((∃ out, token.serialize = some out ∧ deserialize (out ++ script) = .ok (some token, script)) ↔ token.commitment ≠ some [])) := by
  refine ⟨fun ok => ?_, fun produced => deserialize_serialize_iff produced script⟩
  rw [← serialize_deserialize_iff ok]
  constructor
  · rintro ⟨out, serialized, whole, _⟩
    exact ⟨out, serialized, whole⟩
  · rintro ⟨out, serialized, whole⟩
    obtain ⟨byte, tail, after, reads⟩ := deserialize_ok.mp ok
    have bytes := serialize_bytes (readAmount_fits reads.amount) serialized
    have length : input.length - rest.length = out.length := by
      rw [← whole, List.length_append, Nat.add_sub_cancel]
    exact ⟨out, serialized, whole, length ▸ bytes⟩

/-- A category of one byte over and over, and what follows it. -/
def prefixOf (bitfield : UInt8) (tail : Bytes) : Bytes := prefixToken :: (List.replicate 32 7 ++ bitfield :: tail)

theorem length_sevens : (List.replicate 32 (7 : UInt8)).length = 32 := rfl

def tokenOf (nft : Bool) (capability : Capability) (commitment : Option Bytes) (amount : Option Int) : Value :=
  { category := ⟨List.replicate 32 7, length_sevens⟩, nft, capability, commitment, amount }

/-- A minting token with a commitment and an amount. -/
theorem minting_token_kept :
    (∃ out, (tokenOf true .minting (some [9]) (some 253)).serialize = some out ∧
      out ++ [0x51] = prefixOf 0x72 [1, 9, 0xfd, 0xfd, 0, 0x51] ∧ (tokenOf true .minting (some [9]) (some 253)).bytes = some 39) ∧
    ∃ out, (tokenOf true .minting (some [9]) (some 253)).serialize = some out ∧
      deserialize (out ++ [0x52]) = .ok (some (tokenOf true .minting (some [9]) (some 253)), [0x52]) := by
  have ok : deserialize (prefixOf 0x72 [1, 9, 0xfd, 0xfd, 0, 0x51]) = .ok (some (tokenOf true .minting (some [9]) (some 253)), [0x51]) := rfl
  have canonical : Canonical (prefixOf 0x72 [1, 9, 0xfd, 0xfd, 0, 0x51]) := by
    refine ⟨0x72, rfl, by decide, fun _ => by decide, fun _ rest same => ?_⟩
    obtain rfl := Option.some.inj same
    decide
  exact ⟨((prefix_codec_iff _ _ _ (tokenOf true .minting none none) []).1 ok).mpr canonical,
    ((prefix_codec_iff [] [] (tokenOf true .minting none none) _ [0x52]).2 ⟨_, _, ok⟩).mpr (by decide)⟩

/-- The length of an empty commitment is written, the bit that announces it is not, and the length is read as
the first byte of the script. -/
theorem empty_commitment_shifts :
    deserialize (prefixOf 0x40 [0, 0x51]) = .ok (some (tokenOf false .none (some []) none), [0x51]) ∧
    (tokenOf false .none (some []) none).serialize = some (prefixOf 0 [0]) ∧ prefixOf 0 [0] ++ [0x51] ≠ prefixOf 0x40 [0, 0x51] ∧
    deserialize (prefixOf 0 [0] ++ [0x51]) = .ok (some (tokenOf false .none none none), [0, 0x51]) :=
  ⟨rfl, rfl, by decide, rfl⟩

end Opentxs.Bitcoin.Cashtoken
