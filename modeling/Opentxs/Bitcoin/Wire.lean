import Opentxs.Bitcoin.Fields

/-! The layout of a transaction as bytes, in which a number may take more bytes than it needs, and that what the
parser accepts has this layout. -/

namespace Opentxs.Bitcoin.Transactions
open Library Library.Endian Blockchain
open Cashtoken (FixedByteArray)

/-! ## The layout -/

/-- A number with the bytes that stand for it. -/
structure Count where
  value : Nat
  written : Bytes
  decodes : ∀ rest, CompactSize.decodeCompactSize (written ++ rest) = (some value, rest)

/-- Items behind their number. -/
structure Counted (α : Type) where
  count : Count
  items : List α
  counted : count.value = items.length

def Counted.write {α : Type} (each : α → Bytes) (counted : Counted α) : Bytes :=
  counted.count.written ++ counted.items.flatMap each

/-- Bytes behind their number. -/
abbrev Chunk : Type := Counted UInt8

def Chunk.write (chunk : Chunk) : Bytes := chunk.count.written ++ chunk.items

structure WireInput where
  outpoint : Outpoint
  script : Chunk
  sequence : UInt32

def WireInput.write (input : WireInput) : Bytes :=
  input.outpoint.serialize ++ (input.script.write ++ little32 input.sequence)

/-- The script has the token in front of it. -/
structure WireOutput where
  value : UInt64
  script : Chunk

def WireOutput.write (output : WireOutput) : Bytes := little64 output.value ++ output.script.write

abbrev WireWitness : Type := Counted Chunk

def WireWitness.write (witness : WireWitness) : Bytes := Counted.write Chunk.write witness

/-- With a flag there is a witness for each input. -/
structure WireTransaction where
  version : UInt32
  segwit : Option (UInt8 × List WireWitness)
  inputs : Counted WireInput
  outputs : Counted WireOutput
  lockTime : UInt32
  payload : Option Chunk
  paired : ∀ segwit' ∈ segwit, segwit'.2.length = inputs.items.length

namespace WireTransaction

def marker (wire : WireTransaction) : Bytes :=
  match wire.segwit with
  | some (flag, _) => [0, flag]
  | none => []

def witnesses (wire : WireTransaction) : Bytes :=
  match wire.segwit with
  | some (_, witnesses) => witnesses.flatMap WireWitness.write
  | none => []

def extra (wire : WireTransaction) : Bytes :=
  match wire.payload with
  | some payload => payload.write
  | none => []

def write (wire : WireTransaction) : Bytes :=
  little32 wire.version ++ (wire.marker ++ (wire.inputs.write WireInput.write ++ (wire.outputs.write WireOutput.write ++
    (wire.witnesses ++ (little32 wire.lockTime ++ wire.extra)))))

/-- Without marker, flag and witnesses. -/
def stripped (wire : WireTransaction) : Bytes :=
  little32 wire.version ++ (wire.inputs.write WireInput.write ++ (wire.outputs.write WireOutput.write ++
    (little32 wire.lockTime ++ wire.extra)))

/-- Only a special transaction has a payload, and it has no flag; without a flag there is no marker. -/
structure Suits (chain : ChainParameters) (wire : WireTransaction) : Prop where
  special : wire.payload.isSome = Parser.isDip2 chain wire.version
  plain : wire.payload.isSome = true → wire.segwit = none
  marked : wire.segwit = none → wire.payload = none → wire.inputs.count.written.head? ≠ some 0

end WireTransaction
/-! ## The fields -/

def WireInput.encoded (input : WireInput) : EncodedInput :=
  { outpoint := input.outpoint, cs := input.script.count.value, script := input.script.items, sequence := input.sequence }

/-- The token is split from the bytes in front of which it stands. -/
def WireOutput.Encodes (chain : ChainParameters) (output : WireOutput) (encoded : EncodedOutput) : Prop :=
  Parser.readOutput chain (output.value, output.script.items) = .ok encoded

def Chunk.encoded (chunk : Chunk) : EncodedWitnessItem := { cs := chunk.count.value, item := chunk.items }

def WireWitness.encoded (witness : WireWitness) : EncodedInputWitness :=
  { cs := witness.count.value, items := witness.items.map Chunk.encoded }

/-- The fields that are parsed from a transaction, and the txid that is calculated along the way. -/
structure WireTransaction.Encodes {Hash : Type} (hashing : Hashing Hash) (chain : ChainParameters) (wire : WireTransaction)
    (encoded : EncodedTransaction Hash) : Prop where
  version : encoded.version = wire.version
  segwitFlag : encoded.segwitFlag = wire.segwit.map Prod.fst
  inputs : encoded.inputs = wire.inputs.items.map WireInput.encoded
  outputs : List.Forall₂ (WireOutput.Encodes chain) wire.outputs.items encoded.outputs
  witnesses : encoded.witnesses = ((wire.segwit.map Prod.snd).getD []).map WireWitness.encoded
  lockTime : encoded.lockTime = wire.lockTime
  dip2 : encoded.dip2 = wire.payload.map Counted.items
  txid : encoded.txid = hashing.transactionHash wire.stripped

/-! ## Numbers -/

theorem decodes_any {taken rest : Bytes} {value : Nat} (decoded : CompactSize.decodeCompactSize (taken ++ rest) = (some value, rest))
    (other : Bytes) : CompactSize.decodeCompactSize (taken ++ other) = (some value, other) := by
  have some : taken ≠ [] := by
    rintro rfl
    obtain ⟨bytes, some, whole⟩ := Parser.decode_suffix decoded
    exact some (List.self_eq_append_left.mp whole)
  obtain ⟨first, taken, rfl⟩ := List.exists_cons_of_ne_nil some
  simp only [List.cons_append, CompactSize.decodeCompactSize] at decoded ⊢
  have nothing (same : taken ++ rest = rest) : taken = [] := List.append_left_eq_self.mp same
  by_cases zero : first = 0
  · rw [if_pos zero] at decoded ⊢
    cases nothing (congrArg Prod.snd decoded)
    cases decoded
    rfl
  · rw [if_neg zero] at decoded ⊢
    by_cases plain : CompactSize.calculateSize first = 0
    · rw [if_pos plain] at decoded ⊢
      cases nothing (congrArg Prod.snd decoded)
      cases decoded
      rfl
    · rw [if_neg plain] at decoded ⊢
      by_cases enough : CompactSize.calculateSize first ≤ (taken ++ rest).length
      · rw [if_pos enough] at decoded
        have left : (taken ++ rest).drop (CompactSize.calculateSize first) = rest := congrArg Prod.snd decoded
        have length : CompactSize.calculateSize first = taken.length := by
          have count := congrArg List.length left
          rw [List.length_drop, List.length_append] at count
          rw [List.length_append] at enough
          omega
        rw [length] at decoded ⊢
        rw [List.take_left] at decoded
        rw [if_pos (by rw [List.length_append]; omega), List.take_left, List.drop_left]
        obtain rfl : ofLittle taken = value := Option.some.inj (congrArg Prod.fst decoded)
        rfl
      · rw [if_neg enough] at decoded
        cases decoded

namespace Count

theorem fits (count : Count) : count.value < 2 ^ 64 := CompactSize.decode_lt (count.decodes [])

theorem written_ne_nil (count : Count) : count.written ≠ [] := by
  intro none
  have decoded := count.decodes []
  rw [none] at decoded
  cases decoded

theorem written_pos (count : Count) : 0 < count.written.length := List.length_pos_iff.mpr count.written_ne_nil

theorem ext {first second : Count} (value : first.value = second.value) (written : first.written = second.written) : first = second := by
  cases first
  cases second
  cases value
  cases written
  rfl

/-- A number in the form that needs the fewest bytes. -/
def shortest (value : Nat) (fits : value < 2 ^ 64) : Count where
  value := value
  written := CompactSize.encode value
  decodes rest := CompactSize.decode_encode value rest fits

/-- Where a number ends is known from its first byte. -/
theorem selfDelimiting : SelfDelimiting Count.written := by
  intro first second rest other same
  have both : (some first.value, rest) = (some second.value, other) := by
    rw [← first.decodes rest, same, second.decodes other]
  obtain rfl : rest = other := congrArg Prod.snd both
  exact ⟨ext (Option.some.inj (congrArg Prod.fst both)) (List.append_cancel_right same), rfl⟩

end Count

namespace Counted

variable {α : Type}

theorem ext {first second : Counted α} (count : first.count = second.count) (items : first.items = second.items) : first = second := by
  cases first
  cases second
  cases count
  cases items
  rfl

theorem write_pos {each : α → Bytes} (counted : Counted α) : 0 < (counted.write each).length := by
  have some := counted.count.written_pos
  rw [write, List.length_append]
  omega

theorem selfDelimiting {each : α → Bytes} (delimiting : SelfDelimiting each) : SelfDelimiting (Counted.write each) := by
  intro first second rest other same
  unfold write at same
  rw [List.append_assoc, List.append_assoc] at same
  obtain ⟨count, later⟩ := Count.selfDelimiting first.count second.count _ _ same
  have length : first.items.length = second.items.length := by rw [← first.counted, ← second.counted, count]
  obtain ⟨items, rest⟩ := delimiting.flatMap first.items second.items rest other length later
  exact ⟨ext count items, rest⟩

/-- As many items as a number can count. -/
def shortest (items : List α) (fits : items.length < 2 ^ 64) : Counted α where
  count := Count.shortest items.length fits
  items := items
  counted := rfl

end Counted

theorem flatMap_singleton (bytes : Bytes) : (bytes.flatMap fun byte => [byte]) = bytes := by
  induction bytes with
  | nil => rfl
  | cons byte bytes ih => rw [List.flatMap_cons, ih, List.singleton_append]

theorem Chunk.write_eq (chunk : Chunk) : chunk.write = Counted.write (fun byte => [byte]) chunk := by
  rw [Chunk.write, Counted.write, flatMap_singleton]

theorem Chunk.selfDelimiting : SelfDelimiting Chunk.write := by
  have each : SelfDelimiting fun byte : UInt8 => [byte] := by
    intro first second rest other same
    exact ⟨(List.cons.inj same).1, (List.cons.inj same).2⟩
  rw [show Chunk.write = Counted.write fun byte => [byte] from funext Chunk.write_eq]
  exact Counted.selfDelimiting each

/-! ## What is written of the parts -/

theorem little32_injective : Function.Injective little32 := by
  intro first second same
  have read := congrArg ofLittle same
  unfold little32 at read
  rw [ofLittle_toLittle 4 _ first.toNat_lt, ofLittle_toLittle 4 _ second.toNat_lt] at read
  exact UInt32.toNat_inj.mp read

theorem little64_injective : Function.Injective little64 := by
  intro first second same
  have read := congrArg ofLittle same
  unfold little64 at read
  rw [ofLittle_toLittle 8 _ first.toNat_lt, ofLittle_toLittle 8 _ second.toNat_lt] at read
  exact UInt64.toNat_inj.mp read

theorem little32_delimiting : SelfDelimiting little32 := .of_length little32_length little32_injective

theorem little64_delimiting : SelfDelimiting little64 := .of_length little64_length little64_injective

theorem Outpoint.selfDelimiting : SelfDelimiting Outpoint.serialize := by
  apply SelfDelimiting.of_length Outpoint.serialize_length
  intro first second same
  obtain ⟨txid, index⟩ := List.append_inj same (first.txid.property.trans second.txid.property.symm)
  cases first
  cases second
  exact congr (congrArg Outpoint.mk (Subtype.ext txid)) (Subtype.ext index)

theorem WireInput.selfDelimiting : SelfDelimiting WireInput.write := by
  intro first second rest other same
  unfold WireInput.write at same
  simp only [List.append_assoc] at same
  obtain ⟨outpoint, same⟩ := Outpoint.selfDelimiting _ _ _ _ same
  obtain ⟨script, same⟩ := Chunk.selfDelimiting _ _ _ _ same
  obtain ⟨sequence, rest⟩ := little32_delimiting _ _ _ _ same
  cases first
  cases second
  cases outpoint
  cases script
  cases sequence
  exact ⟨rfl, rest⟩

theorem WireOutput.selfDelimiting : SelfDelimiting WireOutput.write := by
  intro first second rest other same
  unfold WireOutput.write at same
  simp only [List.append_assoc] at same
  obtain ⟨value, same⟩ := little64_delimiting _ _ _ _ same
  obtain ⟨script, rest⟩ := Chunk.selfDelimiting _ _ _ _ same
  cases first
  cases second
  cases value
  cases script
  exact ⟨rfl, rest⟩

theorem WireWitness.selfDelimiting : SelfDelimiting WireWitness.write := Counted.selfDelimiting Chunk.selfDelimiting

namespace WireTransaction

variable {chain : ChainParameters} {first second : WireTransaction}

theorem ext (version : first.version = second.version) (segwit : first.segwit = second.segwit) (inputs : first.inputs = second.inputs)
    (outputs : first.outputs = second.outputs) (lockTime : first.lockTime = second.lockTime) (payload : first.payload = second.payload) :
    first = second := by
  cases first
  cases second
  cases version
  cases segwit
  cases inputs
  cases outputs
  cases lockTime
  cases payload
  rfl

/-- Behind the version of a transaction that is not special, a zero stands for the marker. -/
theorem marked_iff {wire : WireTransaction} (suits : wire.Suits chain) (normal : wire.payload = none) (rest : Bytes) :
    (wire.marker ++ (wire.inputs.write WireInput.write ++ rest)).head? = some 0 ↔ wire.segwit.isSome = true := by
  cases flagged : wire.segwit with
  | some segwit =>
    refine iff_of_true ?_ rfl
    rw [marker, flagged]
    rfl
  | none =>
    refine iff_of_false ?_ Bool.false_ne_true
    obtain ⟨byte, bytes, written⟩ := List.exists_cons_of_ne_nil wire.inputs.count.written_ne_nil
    have other := suits.marked flagged normal
    rw [written] at other
    rw [marker, flagged, Counted.write, written]
    exact other

theorem payload_isSome (one : first.Suits chain) (two : second.Suits chain) (version : first.version = second.version) :
    first.payload.isSome = second.payload.isSome := by
  rw [one.special, two.special, version]

/-- Only special transactions differ in whether there is a flag, and these have none. -/
theorem segwit_isSome (one : first.Suits chain) (two : second.Suits chain) (version : first.version = second.version) {rest other : Bytes}
    (same : first.marker ++ (first.inputs.write WireInput.write ++ rest) = second.marker ++ (second.inputs.write WireInput.write ++ other)) :
    first.segwit.isSome = second.segwit.isSome := by
  have payload := payload_isSome one two version
  cases extra : first.payload with
  | some bytes =>
    have first := one.plain (by rw [extra]; rfl)
    have second := two.plain (by rw [← payload, extra]; rfl)
    rw [first, second]
  | none =>
    have also : second.payload = none := by
      rw [extra] at payload
      exact Option.not_isSome_iff_eq_none.mp (payload ▸ Bool.false_ne_true)
    rw [Bool.eq_iff_iff, ← marked_iff one extra rest, ← marked_iff two also other, same]

theorem marker_selfDelimiting (flagged : first.segwit.isSome = second.segwit.isSome) {rest other : Bytes}
    (same : first.marker ++ rest = second.marker ++ other) : first.segwit.map Prod.fst = second.segwit.map Prod.fst ∧ rest = other := by
  unfold marker at same
  cases one : first.segwit with
  | none =>
    rw [one] at flagged same
    have two : second.segwit = none := Option.not_isSome_iff_eq_none.mp (flagged ▸ Bool.false_ne_true)
    rw [two] at same ⊢
    exact ⟨rfl, same⟩
  | some segwit =>
    rw [one] at flagged same
    obtain ⟨segwit', two⟩ := Option.isSome_iff_exists.mp flagged.symm
    rw [two] at same ⊢
    have later := (List.cons.inj same).2
    exact ⟨congrArg some (List.cons.inj later).1, (List.cons.inj later).2⟩

theorem witnesses_selfDelimiting (flags : first.segwit.map Prod.fst = second.segwit.map Prod.fst) (inputs : first.inputs = second.inputs)
    {rest other : Bytes} (same : first.witnesses ++ rest = second.witnesses ++ other) : first.segwit = second.segwit ∧ rest = other := by
  have ones := first.paired
  have twos := second.paired
  unfold witnesses at same
  cases one : first.segwit with
  | none =>
    rw [one] at flags same
    have two : second.segwit = none := Option.map_eq_none_iff.mp flags.symm
    rw [two] at same ⊢
    exact ⟨rfl, same⟩
  | some segwit =>
    rw [one] at flags same
    obtain ⟨segwit', two, flag⟩ := Option.map_eq_some_iff.mp flags.symm
    rw [two] at same ⊢
    have length : segwit.2.length = segwit'.2.length := by
      rw [ones segwit one, twos segwit' two, inputs]
    obtain ⟨witnesses, rest⟩ := WireWitness.selfDelimiting.flatMap segwit.2 segwit'.2 _ _ length same
    exact ⟨congrArg some (Prod.ext flag.symm witnesses), rest⟩

theorem extra_selfDelimiting (special : first.payload.isSome = second.payload.isSome) {rest other : Bytes}
    (same : first.extra ++ rest = second.extra ++ other) : first.payload = second.payload ∧ rest = other := by
  unfold extra at same
  cases one : first.payload with
  | none =>
    rw [one] at special same
    have two : second.payload = none := Option.not_isSome_iff_eq_none.mp (special ▸ Bool.false_ne_true)
    rw [two] at same ⊢
    exact ⟨rfl, same⟩
  | some payload =>
    rw [one] at special same
    obtain ⟨payload', two⟩ := Option.isSome_iff_exists.mp special.symm
    rw [two] at same ⊢
    obtain ⟨payload, rest⟩ := Chunk.selfDelimiting _ _ _ _ same
    exact ⟨congrArg some payload, rest⟩

/-- A transaction is known from its bytes, if it is known whether it has a flag and a payload. -/
theorem write_selfDelimiting (flagged : first.segwit.isSome = second.segwit.isSome) (special : first.payload.isSome = second.payload.isSome)
    {rest other : Bytes} (same : first.write ++ rest = second.write ++ other) : first = second ∧ rest = other := by
  unfold write at same
  simp only [List.append_assoc] at same
  obtain ⟨version, same⟩ := little32_delimiting _ _ _ _ same
  obtain ⟨flags, same⟩ := marker_selfDelimiting flagged same
  obtain ⟨inputs, same⟩ := Counted.selfDelimiting WireInput.selfDelimiting _ _ _ _ same
  obtain ⟨outputs, same⟩ := Counted.selfDelimiting WireOutput.selfDelimiting _ _ _ _ same
  obtain ⟨segwit, same⟩ := witnesses_selfDelimiting flags inputs same
  obtain ⟨lockTime, same⟩ := little32_delimiting _ _ _ _ same
  obtain ⟨payload, rest⟩ := extra_selfDelimiting special same
  exact ⟨ext version segwit inputs outputs lockTime payload, rest⟩

/-- On one chain this is known from the bytes too. -/
theorem write_injective (one : first.Suits chain) (two : second.Suits chain) {rest other : Bytes}
    (same : first.write ++ rest = second.write ++ other) : first = second ∧ rest = other := by
  have bytes := same
  unfold write at bytes
  simp only [List.append_assoc] at bytes
  obtain ⟨version, bytes⟩ := little32_delimiting _ _ _ _ bytes
  exact write_selfDelimiting (segwit_isSome one two version bytes) (payload_isSome one two version) same

end WireTransaction

end Opentxs.Bitcoin.Transactions
