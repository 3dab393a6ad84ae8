import Opentxs.Bitcoin.Accepted
import Opentxs.Bitcoin.Identity

/-! When a transaction that was parsed is written in the bytes it was parsed from: the numbers have to be in their
shortest form, and nothing else may be read that is not kept. -/

namespace Opentxs.Bitcoin.Transactions
open Library Library.Endian Blockchain Opentxs.Bitcoin.Transactions.Parser

/-! ## The shortest form -/

def Count.Shortest (count : Count) : Prop := count.written = CompactSize.encode count.value

/-- Every number is in its shortest form. -/
structure WireTransaction.Shortest (wire : WireTransaction) : Prop where
  inputCount : wire.inputs.count.Shortest
  inputs : ∀ input ∈ wire.inputs.items, input.script.count.Shortest
  outputCount : wire.outputs.count.Shortest
  outputs : ∀ output ∈ wire.outputs.items, output.script.count.Shortest
  witnesses : ∀ segwit ∈ wire.segwit, ∀ witness ∈ segwit.2, witness.count.Shortest ∧ ∀ item ∈ witness.items, item.count.Shortest
  payload : ∀ payload ∈ wire.payload, payload.count.Shortest

/-- A view that begins with a token begins with its canonical form. -/
def TokenKept (chain : ChainParameters) (view : Bytes) : Prop :=
  chain.cashtoken = true → view.head? = some Cashtoken.prefixToken → Cashtoken.Canonical view

/-- The numbers are in their shortest form, the flag is not zero, the values are those of a signed integer, and the
tokens are kept. -/
structure WireTransaction.Canonical (chain : ChainParameters) (wire : WireTransaction) : Prop where
  shortest : wire.Shortest
  flag : ∀ segwit ∈ wire.segwit, segwit.1 ≠ 0
  values : ∀ output ∈ wire.outputs.items, output.value.toNat ≤ 2 ^ 63 - 1
  tokens : ∀ output ∈ wire.outputs.items, TokenKept chain output.script.items

theorem Chunk.write_shortest {chunk : Chunk} (short : chunk.count.Shortest) :
    chunk.write = CompactSize.encode chunk.items.length ++ chunk.items := by
  rw [Chunk.write, show chunk.count.written = _ from short, chunk.counted]

theorem Counted.write_shortest {α : Type} {each : α → Bytes} {counted : Counted α} (short : counted.count.Shortest) :
    counted.write each = CompactSize.encode counted.items.length ++ counted.items.flatMap each := by
  rw [Counted.write, show counted.count.written = _ from short, counted.counted]

theorem WireInput.write_shortest {input : WireInput} (short : input.script.count.Shortest) : input.write = input.encoded.serialize := by
  rw [WireInput.write, Chunk.write_shortest short, EncodedInput.serialize, WireInput.encoded, input.script.counted, List.append_assoc]

/-- The value and the view of an output. -/
def WireOutput.raw (output : WireOutput) : UInt64 × Bytes := (output.value, output.script.items)

theorem WireOutput.write_shortest {output : WireOutput} (short : output.script.count.Shortest) : output.write = writeOutput output.raw := by
  rw [WireOutput.write, Chunk.write_shortest short]
  rfl

theorem WireWitness.write_shortest {witness : WireWitness} (short : witness.count.Shortest)
    (items : ∀ item ∈ witness.items, item.count.Shortest) : witness.write = writeWitness (witness.items.map Counted.items) := by
  rw [WireWitness.write, Counted.write_shortest short, writeWitness, List.length_map, List.flatMap_map]
  exact congrArg _ (List.flatMap_congr fun item member => Chunk.write_shortest (items item member))

theorem flatMap_written {α β : Type} {write : α → Bytes} {change : α → β} {written : β → Bytes} {items : List α}
    (each : ∀ item ∈ items, write item = written (change item)) : items.flatMap write = (items.map change).flatMap written := by
  rw [List.flatMap_map]
  exact List.flatMap_congr each

/-- The pushes of the witnesses that are there. -/
def WireTransaction.pushes (wire : WireTransaction) : List (List Bytes) :=
  ((wire.segwit.map Prod.snd).getD []).map fun witness => witness.items.map Counted.items

theorem WireTransaction.write_shortest {wire : WireTransaction} (short : wire.Shortest) :
    wire.write = wireBytes wire.version wire.lockTime (wire.segwit.map Prod.fst) (wire.inputs.items.map WireInput.encoded)
      (wire.outputs.items.map WireOutput.raw) wire.pushes ++ payloadBytes (wire.payload.map Counted.items) := by
  have inputs : wire.inputs.write WireInput.write = writeInputs (wire.inputs.items.map WireInput.encoded) := by
    rw [Counted.write_shortest short.inputCount, writeInputs, List.length_map]
    exact congrArg _ (flatMap_written fun input member => WireInput.write_shortest (short.inputs input member))
  have outputs : wire.outputs.write WireOutput.write = writeOutputs (wire.outputs.items.map WireOutput.raw) := by
    rw [Counted.write_shortest short.outputCount, writeOutputs, List.length_map]
    exact congrArg _ (flatMap_written fun output member => WireOutput.write_shortest (short.outputs output member))
  have witnesses : wire.marker = Parser.marker (wire.segwit.map Prod.fst) ∧
      wire.witnesses = writeWitnesses (wire.segwit.map Prod.fst) wire.pushes := by
    have each := short.witnesses
    unfold WireTransaction.marker WireTransaction.witnesses WireTransaction.pushes
    cases flagged : wire.segwit with
    | none => exact ⟨rfl, rfl⟩
    | some segwit =>
      refine ⟨rfl, flatMap_written fun witness member => ?_⟩
      obtain ⟨short, items⟩ := each segwit flagged witness member
      exact WireWitness.write_shortest short items
  have extra : wire.extra = payloadBytes (wire.payload.map Counted.items) := by
    have each := short.payload
    unfold WireTransaction.extra
    cases special : wire.payload with
    | none => rfl
    | some payload => exact Chunk.write_shortest (each payload special)
  rw [WireTransaction.write, inputs, outputs, witnesses.1, witnesses.2, extra, wireBytes]
  simp only [List.append_assoc]

/-! ## What is written again of a view -/

/-- The token as it is written, and the script behind it. -/
def respell (chain : ChainParameters) (view : Bytes) : Bytes :=
  match splitToken chain view with
  | .ok (token, script) => (tokenBytes token).getD [] ++ script
  | .error _ => view

theorem respell_of_ok {chain : ChainParameters} {view script : Bytes} {token : Option Cashtoken.Value}
    (split : splitToken chain view = .ok (token, script)) : respell chain view = (tokenBytes token).getD [] ++ script := by
  rw [respell, split]

theorem deserialize_none {view script : Bytes} (ok : Cashtoken.deserialize view = .ok (none, script)) :
    script = view ∧ view.head? ≠ some Cashtoken.prefixToken := by
  unfold Cashtoken.deserialize at ok
  cases view with
  | nil =>
    cases ok
    exact ⟨rfl, by rintro ⟨⟩⟩
  | cons first rest =>
    dsimp only at ok
    split at ok
    · next other =>
      cases ok
      exact ⟨rfl, fun same => other (Option.some.inj same)⟩
    · obtain ⟨_, _, ok⟩ := Spend.Amount.bind_ok ok
      obtain ⟨_, _, ok⟩ := Spend.Amount.bind_ok ok
      obtain ⟨_, _, ok⟩ := Spend.Amount.bind_ok ok
      obtain ⟨_, _, ok⟩ := Spend.Amount.bind_ok ok
      cases ok

/-- What a split view is split into. -/
theorem splitToken_cases {chain : ChainParameters} {view script : Bytes} {token : Option Cashtoken.Value}
    (split : splitToken chain view = .ok (token, script)) :
    (token = none ∧ script = view ∧ (chain.cashtoken = true → view.head? ≠ some Cashtoken.prefixToken)) ∨
      chain.cashtoken = true ∧ ∃ value, token = some value ∧ Cashtoken.deserialize view = .ok (some value, script) := by
  unfold splitToken at split
  split at split
  · next tokens =>
    cases read : Cashtoken.deserialize view with
    | error fault =>
      rw [read] at split
      cases split
    | ok both =>
      rw [read] at split
      cases split
      cases token with
      | none =>
        obtain ⟨same, other⟩ := deserialize_none read
        exact .inl ⟨rfl, same, fun _ => other⟩
      | some value => exact .inr ⟨tokens, value, rfl, rfl⟩
  · next plain =>
    cases split
    exact .inl ⟨rfl, rfl, fun tokens => absurd tokens plain⟩

theorem respell_length (chain : ChainParameters) (view : Bytes) : (respell chain view).length ≤ view.length := by
  unfold respell
  cases split : splitToken chain view with
  | error fault => exact Nat.le_refl _
  | ok both =>
    obtain ⟨token, script⟩ := both
    rcases splitToken_cases split with ⟨rfl, rfl, _⟩ | ⟨_, value, rfl, read⟩
    · exact Nat.le_refl _
    · obtain ⟨out, written, _, shorter⟩ := Cashtoken.serialize_le read
      show (value.serialize.getD [] ++ script).length ≤ view.length
      rw [written, Option.getD_some, List.length_append]
      exact shorter

/-- A token is written as it was exactly when it was in its canonical form. -/
theorem respell_iff {chain : ChainParameters} {view script : Bytes} {token : Option Cashtoken.Value}
    (split : splitToken chain view = .ok (token, script)) : respell chain view = view ↔ TokenKept chain view := by
  rw [respell_of_ok split]
  rcases splitToken_cases split with ⟨rfl, rfl, other⟩ | ⟨tokens, value, rfl, read⟩
  · exact iff_of_true rfl fun tokens marked => absurd marked (other tokens)
  · obtain ⟨out, written, _⟩ := Cashtoken.serialize_le read
    have both := Cashtoken.serialize_deserialize_iff read
    show value.serialize.getD [] ++ script = view ↔ _
    rw [written] at both
    rw [written, Option.getD_some]
    have marked : view.head? = some Cashtoken.prefixToken := by
      obtain ⟨byte, tail, after, reads⟩ := Cashtoken.deserialize_ok.mp read
      rw [reads.input]
      rfl
    constructor
    · exact fun same _ _ => both.mp ⟨out, rfl, same⟩
    · intro kept
      obtain ⟨_, same, whole⟩ := both.mpr (kept tokens marked)
      cases same
      exact whole

/-- The amount of a token that was read can be written. -/
theorem splitToken_fits {chain : ChainParameters} {view script : Bytes} {token : Option Cashtoken.Value}
    (split : splitToken chain view = .ok (token, script)) : ∀ value ∈ token, Cashtoken.Fits value.amount := by
  rcases splitToken_cases split with ⟨rfl, _⟩ | ⟨_, value, rfl, read⟩
  · rintro _ ⟨⟩
  · rintro _ ⟨⟩
    obtain ⟨_, _, fits, _⟩ := Cashtoken.serialize_le read
    exact fits

/-! ## What is made of the fields -/

theorem encodeInput_made (outpoint : Outpoint) (script : Bytes) (sequence : UInt32) (coinbase : Bool) (witness : List Bytes) :
    encodeInput (bitcoinTransactionInput outpoint script sequence coinbase witness) =
        { outpoint, cs := script.length, script, sequence } ∧
      (bitcoinTransactionInput outpoint script sequence coinbase witness).witness = witness := by
  unfold bitcoinTransactionInput
  cases coinbase with
  | true =>
    refine ⟨?_, rfl⟩
    have payload : (if 0 < script.length then script else []) = script := by
      split
      · rfl
      · next empty => exact (List.eq_nil_of_length_eq_zero (Nat.eq_zero_of_not_pos empty)).symm
    rw [encodeInput]
    show ({ outpoint, cs := (if 0 < script.length then script else []).length, script := (if 0 < script.length then script else []),
            sequence } : EncodedInput) = _
    rw [payload]
  | false =>
    obtain ⟨parsed, made⟩ := BitcoinScript.bitcoinScript_total script .input
    have back := BitcoinScript.bitcoinScript_serialize script .input true parsed (by decide) made
    rw [if_neg Bool.false_ne_true, made]
    refine ⟨?_, rfl⟩
    show ({ outpoint, cs := parsed.serialize.length, script := parsed.serialize, sequence } : EncodedInput) = _
    rw [back]

theorem parsedInputs_encoded {position : Nat} {witnesses : List EncodedInputWitness} (encoded : List EncodedInput)
    (counted : ∀ input ∈ encoded, input.cs = input.script.length) :
    ∀ index made, parsedInputs position witnesses index encoded = some made → made.map encodeInput = encoded := by
  induction encoded with
  | nil =>
    intro index made ran
    cases ran
    rfl
  | cons input encoded ih =>
    intro index made ran
    rw [parsedInputs] at ran
    obtain ⟨witness, _, ran⟩ := Option.bind_eq_some_iff.mp ran
    obtain ⟨rest, more, same⟩ := Option.bind_eq_some_iff.mp ran
    obtain rfl := Option.some.inj same
    have here := counted input List.mem_cons_self
    rw [List.map_cons, (encodeInput_made _ _ _ _ _).1, ih (fun later member => counted later (List.mem_cons_of_mem _ member)) _ _ more,
      ← here]

theorem parsedInputs_witnesses {position : Nat} {witnesses : List EncodedInputWitness} (encoded : List EncodedInput) :
    ∀ index made, index + encoded.length = witnesses.length → parsedInputs position witnesses index encoded = some made →
      made.map (·.witness) = (witnesses.drop index).map fun witness => witness.items.map (·.item) := by
  induction encoded with
  | nil =>
    intro index made length ran
    cases ran
    obtain rfl : index = witnesses.length := length
    rw [List.drop_length]
    rfl
  | cons input encoded ih =>
    intro index made length ran
    rw [List.length_cons] at length
    rw [parsedInputs] at ran
    obtain ⟨witness, found, ran⟩ := Option.bind_eq_some_iff.mp ran
    obtain ⟨rest, more, same⟩ := Option.bind_eq_some_iff.mp ran
    obtain rfl := Option.some.inj same
    have inside : index < witnesses.length := by omega
    have here : witness = witnesses[index].items.map (·.item) := by
      unfold witnessAt at found
      rw [if_pos (Nat.zero_lt_of_lt inside), List.getElem?_eq_getElem inside] at found
      exact (Option.some.inj found).symm
    rw [List.drop_eq_getElem_cons inside, List.map_cons, List.map_cons, (encodeInput_made _ _ _ _ _).2,
      ih (index + 1) rest (by omega) more, here]

theorem shiftRight_ofUnsigned (units : Nat) : Spend.Amount.shiftRight (Spend.Amount.ofUnsigned units) = units :=
  Int.mul_tdiv_cancel _ Spend.Amount.unit_pos.ne'

/-- The output that is made of a value, a script and a token. -/
theorem output_made (index : UInt32) (value : UInt64) (script : Bytes) (cashtoken : Option Cashtoken.Value) :
    ∃ parsed : BitcoinScript.Script, parsed.serialize = script ∧ bitcoinTransactionOutput index value script cashtoken =
      { index, value := Spend.Amount.ofUnsigned value.toNat, script := parsed, cashtoken } := by
  obtain ⟨parsed, made⟩ := BitcoinScript.bitcoinScript_total script .output
  refine ⟨parsed, BitcoinScript.bitcoinScript_serialize script .output true parsed (by decide) made, ?_⟩
  unfold bitcoinTransactionOutput
  rw [made]

/-- A value that a signed integer holds is written as it was read, and no other value is. -/
theorem output_writable_iff {index : UInt32} {value : UInt64} {script : Bytes} {cashtoken : Option Cashtoken.Value}
    (fits : ∀ token ∈ cashtoken, Cashtoken.Fits token.amount) :
    Writable (bitcoinTransactionOutput index value script cashtoken) ↔ value.toNat ≤ 2 ^ 63 - 1 := by
  obtain ⟨parsed, _, made⟩ := output_made index value script cashtoken
  rw [made]
  unfold Writable
  rw [shiftRight_ofUnsigned]
  constructor
  · intro writable
    have := writable.1.2
    omega
  · exact fun small => ⟨⟨by omega, by omega⟩, fits⟩

theorem output_full {index : UInt32} {value : UInt64} {script : Bytes} {cashtoken : Option Cashtoken.Value}
    (small : value.toNat ≤ 2 ^ 63 - 1) :
    fullOutput (bitcoinTransactionOutput index value script cashtoken) = (value, (tokenBytes cashtoken).getD [] ++ script) := by
  obtain ⟨parsed, back, made⟩ := output_made index value script cashtoken
  have written : (encodeOutput (bitcoinTransactionOutput index value script cashtoken)).value = value := by
    have bytes := @serializeBitcoin_eq (bitcoinTransactionOutput index value script cashtoken)
      (by rw [made, shiftRight_ofUnsigned]; omega)
    rw [made] at bytes ⊢
    have known : serializeBitcoin (Spend.Amount.ofUnsigned value.toNat) = some (little64 value) := by
      unfold serializeBitcoin
      rw [shiftRight_ofUnsigned, if_neg (by omega)]
      rfl
    exact little64_injective (Option.some.inj (bytes.symm.trans known))
  rw [fullOutput, written, made, back]

/-! ## What is written again -/

theorem Counted.fits {α : Type} (counted : Counted α) : counted.items.length < 2 ^ 64 := by
  rw [← counted.counted]
  exact counted.count.fits

def Counted.shorten {α : Type} (counted : Counted α) : Counted α := Counted.shortest counted.items counted.fits

def WireInput.shorten (input : WireInput) : WireInput := { input with script := input.script.shorten }

def WireOutput.respelled (chain : ChainParameters) (output : WireOutput) : WireOutput :=
  { output with
    script := Counted.shortest (respell chain output.script.items)
      (Nat.lt_of_le_of_lt (respell_length chain output.script.items) output.script.fits) }

theorem map_fits {α β : Type} (counted : Counted α) (change : α → β) : (counted.items.map change).length < 2 ^ 64 := by
  rw [List.length_map]
  exact counted.fits

def WireWitness.shorten (witness : WireWitness) : WireWitness :=
  Counted.shortest (witness.items.map Counted.shorten) (map_fits witness Counted.shorten)

def keptSegwit (segwit : UInt8 × List WireWitness) : Option (UInt8 × List WireWitness) :=
  if segwit.1 = 0 then none else some (segwit.1, segwit.2.map WireWitness.shorten)

theorem kept_paired (wire : WireTransaction) : ∀ segwit ∈ wire.segwit.bind keptSegwit,
    segwit.2.length = (Counted.shortest (wire.inputs.items.map WireInput.shorten) (map_fits wire.inputs WireInput.shorten)).items.length := by
  intro segwit member
  obtain ⟨source, found, kept⟩ := Option.bind_eq_some_iff.mp member
  unfold keptSegwit at kept
  split at kept
  · cases kept
  · cases kept
    show (source.2.map _).length = (wire.inputs.items.map _).length
    rw [List.length_map, List.length_map, wire.paired source found]

/-- The transaction as it is written again: with the shortest numbers, the tokens in their canonical form, and no flag in place
of zero. -/
def WireTransaction.respelled (chain : ChainParameters) (wire : WireTransaction) : WireTransaction where
  version := wire.version
  segwit := wire.segwit.bind keptSegwit
  inputs := Counted.shortest (wire.inputs.items.map WireInput.shorten) (map_fits wire.inputs WireInput.shorten)
  outputs := Counted.shortest (wire.outputs.items.map (WireOutput.respelled chain)) (map_fits wire.outputs (WireOutput.respelled chain))
  lockTime := wire.lockTime
  payload := wire.payload.map Counted.shorten
  paired := kept_paired wire

theorem respelled_shortest (chain : ChainParameters) (wire : WireTransaction) : (wire.respelled chain).Shortest := by
  refine ⟨rfl, ?_, rfl, ?_, ?_, ?_⟩
  · intro input member
    obtain ⟨source, _, rfl⟩ := List.mem_map.mp member
    rfl
  · intro output member
    obtain ⟨source, _, rfl⟩ := List.mem_map.mp member
    rfl
  · intro segwit member witness inside
    obtain ⟨source, _, kept⟩ := Option.bind_eq_some_iff.mp member
    unfold keptSegwit at kept
    split at kept
    · cases kept
    · cases kept
      obtain ⟨old, _, rfl⟩ := List.mem_map.mp inside
      refine ⟨rfl, fun item member => ?_⟩
      obtain ⟨first, _, rfl⟩ := List.mem_map.mp member
      rfl
  · intro payload member
    obtain ⟨source, _, rfl⟩ := Option.map_eq_some_iff.mp member
    rfl

theorem shortest_eq {α : Type} {counted : Counted α} (short : counted.count.Shortest) {items : List α} (same : items = counted.items)
    (fits : items.length < 2 ^ 64) : Counted.shortest items fits = counted := by
  subst same
  refine Counted.ext (Count.ext counted.counted.symm ?_) rfl
  show CompactSize.encode counted.items.length = counted.count.written
  rw [show counted.count.written = _ from short, counted.counted]

theorem map_eq_self {α : Type} {change : α → α} {items : List α} : items.map change = items ↔ ∀ item ∈ items, change item = item := by
  constructor
  · exact fun same => List.map_inj_left.mp (same.trans (List.map_id items).symm)
  · exact fun each => (List.map_congr_left each).trans (List.map_id items)

theorem Counted.shorten_eq {α : Type} {counted : Counted α} (short : counted.count.Shortest) : counted.shorten = counted :=
  shortest_eq short rfl counted.fits

theorem WireInput.shorten_eq {input : WireInput} (short : input.script.count.Shortest) : input.shorten = input := by
  unfold WireInput.shorten
  rw [Counted.shorten_eq short]

theorem WireWitness.shorten_eq {witness : WireWitness} (short : witness.count.Shortest) (items : ∀ item ∈ witness.items, item.count.Shortest) :
    witness.shorten = witness :=
  shortest_eq short (map_eq_self.mpr fun item member => Counted.shorten_eq (items item member)) _

theorem WireOutput.respelled_eq {chain : ChainParameters} {output : WireOutput} (short : output.script.count.Shortest)
    (kept : respell chain output.script.items = output.script.items) : output.respelled chain = output := by
  unfold WireOutput.respelled
  rw [shortest_eq short kept]

/-- A transaction is written as it was exactly when there is nothing to shorten, no flag to leave out and no token to change. -/
theorem respelled_eq_iff {chain : ChainParameters} {wire : WireTransaction} : wire.respelled chain = wire ↔
    wire.Shortest ∧ (∀ segwit ∈ wire.segwit, segwit.1 ≠ 0) ∧
      ∀ output ∈ wire.outputs.items, respell chain output.script.items = output.script.items := by
  constructor
  · intro same
    refine ⟨same ▸ respelled_shortest chain wire, ?_, ?_⟩
    · intro segwit member zero
      have kept : wire.segwit.bind keptSegwit = wire.segwit := congrArg WireTransaction.segwit same
      rw [show wire.segwit = some segwit from member, Option.bind_some, keptSegwit, if_pos zero] at kept
      cases kept
    · intro output member
      have items : wire.outputs.items.map (WireOutput.respelled chain) = wire.outputs.items :=
        congrArg (fun wire => wire.outputs.items) same
      exact congrArg (fun output => output.script.items) (map_eq_self.mp items output member)
  · rintro ⟨short, flagged, kept⟩
    apply WireTransaction.ext
    · rfl
    · cases segwit : wire.segwit with
      | none =>
        show wire.segwit.bind keptSegwit = none
        rw [segwit]
        rfl
      | some both =>
        have each := short.witnesses both segwit
        show wire.segwit.bind keptSegwit = some both
        rw [segwit, Option.bind_some, keptSegwit, if_neg (flagged both segwit),
          map_eq_self.mpr fun witness member => WireWitness.shorten_eq (each witness member).1 (each witness member).2]
    · exact shortest_eq short.inputCount (map_eq_self.mpr fun input member => WireInput.shorten_eq (short.inputs input member)) _
    · exact shortest_eq short.outputCount
        (map_eq_self.mpr fun output member => WireOutput.respelled_eq (short.outputs output member) (kept output member)) _
    · rfl
    · show wire.payload.map Counted.shorten = wire.payload
      cases special : wire.payload with
      | none => rfl
      | some payload => exact congrArg some (Counted.shorten_eq (short.payload payload special))

/-- In its shortest form, only a number of zero begins with a zero. -/
theorem Counted.zero_first {α : Type} {each : α → Bytes} {counted : Counted α} (short : counted.count.Shortest) {rest other : Bytes}
    (same : counted.write each ++ rest = 0 :: other) : rest = other := by
  rw [Counted.write_shortest short] at same
  obtain ⟨first, tail, written, zero⟩ := encode_cons counted.items.length
  have none : counted.items = [] := by
    rw [written] at same
    exact List.eq_nil_of_length_eq_zero (zero.mp (List.cons.inj same).1)
  rw [none] at same
  exact (List.cons.inj same).2

/-- A flag of zero is read with its marker, and both are left out when the transaction is written. -/
theorem zero_flag_lost {chain : ChainParameters} {wire : WireTransaction} (suits : wire.Suits chain) {segwit : UInt8 × List WireWitness}
    (flagged : wire.segwit = some segwit) (zero : segwit.1 = 0) : (wire.respelled chain).write ≠ wire.write := by
  intro same
  have normal : wire.payload = none := by
    cases special : wire.payload with
    | none => rfl
    | some payload =>
      have none := suits.plain (by rw [special]; rfl)
      rw [flagged] at none
      cases none
  have bare : (wire.respelled chain).segwit = none := by
    show wire.segwit.bind keptSegwit = none
    rw [flagged, Option.bind_some, keptSegwit, if_pos zero]
  have plain : (wire.respelled chain).payload = none := congrArg (Option.map Counted.shorten) normal
  have short := respelled_shortest chain wire
  have shape : (wire.respelled chain).write = little32 wire.version ++ ((wire.respelled chain).inputs.write WireInput.write ++
      ((wire.respelled chain).outputs.write WireOutput.write ++ little32 wire.lockTime)) := by
    simp only [WireTransaction.write, WireTransaction.marker, WireTransaction.witnesses, WireTransaction.extra, bare, plain]
    simp [WireTransaction.respelled]
  have old : wire.write = little32 wire.version ++ (0 :: 0 :: (wire.inputs.write WireInput.write ++ (wire.outputs.write WireOutput.write ++
      (wire.witnesses ++ little32 wire.lockTime)))) := by
    simp [WireTransaction.write, WireTransaction.marker, WireTransaction.extra, flagged, normal, zero]
  rw [shape, old] at same
  have first := Counted.zero_first short.inputCount (List.append_cancel_left same)
  have second := Counted.zero_first short.outputCount first
  have length := congrArg List.length second
  have some : 0 < (wire.inputs.write WireInput.write).length := wire.inputs.write_pos
  rw [List.length_append, List.length_append, List.length_append] at length
  omega

theorem respelled_write_iff {chain : ChainParameters} {wire : WireTransaction} (suits : wire.Suits chain) :
    (wire.respelled chain).write = wire.write ↔ wire.respelled chain = wire := by
  refine ⟨fun same => ?_, congrArg WireTransaction.write⟩
  have flagged : (wire.respelled chain).segwit.isSome = wire.segwit.isSome := by
    show (wire.segwit.bind keptSegwit).isSome = _
    cases segwit : wire.segwit with
    | none => rfl
    | some both =>
      have kept : both.1 ≠ 0 := fun zero => zero_flag_lost suits segwit zero same
      rw [Option.bind_some, keptSegwit, if_neg kept]
      rfl
  have special : (wire.respelled chain).payload.isSome = wire.payload.isSome := Option.isSome_map
  exact (WireTransaction.write_selfDelimiting flagged special (congrArg (· ++ []) same)).1

/-! ## Both ways -/

theorem WireOutput.Encodes.split {chain : ChainParameters} {wire : WireOutput} {encoded : EncodedOutput} (encodes : wire.Encodes chain encoded) :
    splitToken chain wire.script.items = .ok (encoded.cashtoken, encoded.script) ∧ encoded.value = wire.value := by
  unfold WireOutput.Encodes readOutput at encodes
  obtain ⟨script, split, same⟩ := Spend.Amount.bind_ok encodes
  cases same
  exact ⟨split, rfl⟩

theorem outputs_split {chain : ChainParameters} {wires : List WireOutput} {encoded : List EncodedOutput}
    (all : List.Forall₂ (WireOutput.Encodes chain) wires encoded) :
    ∀ wire ∈ wires, ∃ token script, splitToken chain wire.script.items = .ok (token, script) := by
  induction all with
  | nil => exact List.forall_mem_nil _
  | cons here _ ih => exact List.forall_mem_cons.mpr ⟨⟨_, _, here.split.1⟩, ih⟩

theorem outputs_writable_iff {chain : ChainParameters} {wires : List WireOutput} {encoded : List EncodedOutput}
    (all : List.Forall₂ (WireOutput.Encodes chain) wires encoded) (index : Nat → UInt32) :
    (∀ output ∈ encoded.mapIdx fun place output => bitcoinTransactionOutput (index place) output.value output.script output.cashtoken,
      Writable output) ↔ ∀ wire ∈ wires, wire.value.toNat ≤ 2 ^ 63 - 1 := by
  induction all generalizing index with
  | nil => exact iff_of_true (List.forall_mem_nil _) (List.forall_mem_nil _)
  | cons here rest ih =>
    obtain ⟨split, value⟩ := here.split
    rw [List.mapIdx_cons, List.forall_mem_cons, List.forall_mem_cons, output_writable_iff (splitToken_fits split), value,
      ih fun place => index (place + 1)]

theorem outputs_full {chain : ChainParameters} {wires : List WireOutput} {encoded : List EncodedOutput}
    (all : List.Forall₂ (WireOutput.Encodes chain) wires encoded) (small : ∀ wire ∈ wires, wire.value.toNat ≤ 2 ^ 63 - 1)
    (index : Nat → UInt32) :
    (encoded.mapIdx fun place output => bitcoinTransactionOutput (index place) output.value output.script output.cashtoken).map fullOutput =
      (wires.map (WireOutput.respelled chain)).map WireOutput.raw := by
  induction all generalizing index with
  | nil => rfl
  | cons here rest ih =>
    obtain ⟨split, value⟩ := here.split
    obtain ⟨first, later⟩ := List.forall_mem_cons.mp small
    rw [List.mapIdx_cons, List.map_cons, List.map_cons, List.map_cons, ih later fun place => index (place + 1),
      output_full (by rw [value]; exact first), value, ← respell_of_ok split]
    rfl

variable {Hash : Type} {hashing : Hashing Hash} {chain : ChainParameters} {position : Nat} {wire : WireTransaction}
  {encoded : EncodedTransaction Hash} {transaction : Transaction Hash}

theorem encoded_counted : ∀ input ∈ wire.inputs.items.map WireInput.encoded, input.cs = input.script.length := by
  intro input member
  obtain ⟨source, _, rfl⟩ := List.mem_map.mp member
  exact source.script.counted

theorem shorten_encoded (input : WireInput) : input.shorten.encoded = input.encoded := by
  rw [WireInput.encoded, WireInput.encoded, input.script.counted]
  rfl

/-- The transaction that is made of the fields is written as they are respelled. -/
theorem made_bytes (encodes : wire.Encodes hashing chain encoded) (made : parsedTransaction position encoded = some transaction)
    (small : ∀ output ∈ wire.outputs.items, output.value.toNat ≤ 2 ^ 63 - 1) : transaction.bytes = (wire.respelled chain).write := by
  unfold parsedTransaction at made
  obtain ⟨inputs, parsed, same⟩ := Option.bind_eq_some_iff.mp made
  obtain rfl := Option.some.inj same
  have first : inputs.map encodeInput = (wire.respelled chain).inputs.items.map WireInput.encoded := by
    show _ = (wire.inputs.items.map WireInput.shorten).map WireInput.encoded
    rw [List.map_map, parsedInputs_encoded encoded.inputs (by rw [encodes.inputs]; exact encoded_counted) 0 inputs parsed, encodes.inputs]
    exact List.map_congr_left fun input _ => (shorten_encoded input).symm
  have second : (parsedOutputs encoded.outputs).map fullOutput = (wire.respelled chain).outputs.items.map WireOutput.raw :=
    outputs_full encodes.outputs small UInt32.ofNat
  have extra : encoded.dip2 = (wire.respelled chain).payload.map Counted.items := by
    rw [encodes.dip2]
    show _ = (wire.payload.map Counted.shorten).map Counted.items
    rw [Option.map_map]
    rfl
  rw [WireTransaction.write_shortest (respelled_shortest chain wire), ← first, ← second, ← extra]
  unfold Transaction.bytes Transaction.flag
  dsimp only
  rw [encodes.version, encodes.lockTime, encodes.segwitFlag]
  have unmarked (pushes other : List (List Bytes)) : wireBytes wire.version wire.lockTime none (inputs.map encodeInput)
      ((parsedOutputs encoded.outputs).map fullOutput) pushes = wireBytes wire.version wire.lockTime none (inputs.map encodeInput)
      ((parsedOutputs encoded.outputs).map fullOutput) other := rfl
  have kept : (wire.respelled chain).segwit = wire.segwit.bind keptSegwit := rfl
  cases flagged : wire.segwit with
  | none =>
    rw [kept, flagged]
    exact congrArg (· ++ _) (unmarked _ _)
  | some segwit =>
    rw [kept, flagged]
    show wireBytes _ _ (if segwit.1 = 0 then none else some segwit.1) _ _ _ ++ _ = _
    rw [Option.bind_some, keptSegwit]
    split
    · exact congrArg (· ++ _) (unmarked _ _)
    · next marked =>
      have length : 0 + encoded.inputs.length = encoded.witnesses.length := by
        rw [encodes.inputs, encodes.witnesses, flagged]
        show 0 + (wire.inputs.items.map _).length = (segwit.2.map _).length
        rw [List.length_map, List.length_map, wire.paired segwit flagged, Nat.zero_add]
      have pushes : inputs.map (·.witness) = (wire.respelled chain).pushes := by
        rw [parsedInputs_witnesses encoded.inputs 0 inputs length parsed, encodes.witnesses, List.drop_zero, flagged]
        unfold WireTransaction.pushes
        rw [kept, flagged, Option.bind_some, keptSegwit, if_neg marked]
        show (segwit.2.map WireWitness.encoded).map _ = (segwit.2.map WireWitness.shorten).map _
        rw [List.map_map, List.map_map]
        apply List.map_congr_left
        intro witness _
        show (witness.items.map Chunk.encoded).map (·.item) = (witness.items.map Counted.shorten).map Counted.items
        rw [List.map_map, List.map_map]
        rfl
      rw [pushes]
      rfl

/-- What is parsed of a transaction is written in the bytes that were taken if and only if these are canonical. -/
theorem parsed_serialize_iff {bytes consumed : Bytes} {final : ParserState}
    (ran : parseNextTransaction hashing chain (position = 0) { data := bytes } = (.ok encoded, final))
    (made : parsedTransaction position encoded = some transaction) (split : bytes = consumed ++ final.data) :
    (transaction.calculateSize false = some consumed.length ∧ transaction.serialize false = some consumed) ↔
      ∃ wire : WireTransaction, wire.Suits chain ∧ wire.write = consumed ∧ wire.Canonical chain := by
  obtain ⟨wire, suits, encodes, data⟩ := parseNextTransaction_wire ran
  obtain rfl : consumed = wire.write := List.append_cancel_right (split.symm.trans data)
  have writable : (∀ output ∈ transaction.outputs, Writable output) ↔ ∀ output ∈ wire.outputs.items, output.value.toNat ≤ 2 ^ 63 - 1 := by
    unfold parsedTransaction at made
    obtain ⟨inputs, _, same⟩ := Option.bind_eq_some_iff.mp made
    obtain rfl := Option.some.inj same
    exact outputs_writable_iff encodes.outputs UInt32.ofNat
  have canonical : wire.Canonical chain ↔
      (∀ output ∈ wire.outputs.items, output.value.toNat ≤ 2 ^ 63 - 1) ∧ wire.respelled chain = wire := by
    have tokens : (∀ output ∈ wire.outputs.items, respell chain output.script.items = output.script.items) ↔
        ∀ output ∈ wire.outputs.items, TokenKept chain output.script.items :=
      forall₂_congr fun output member => respell_iff (outputs_split encodes.outputs output member).choose_spec.choose_spec
    rw [respelled_eq_iff, tokens]
    exact ⟨fun all => ⟨all.values, all.shortest, all.flag, all.tokens⟩, fun all => ⟨all.2.1, all.2.2.1, all.1, all.2.2.2⟩⟩
  have unique : (∃ other : WireTransaction, other.Suits chain ∧ other.write = wire.write ∧ other.Canonical chain) ↔ wire.Canonical chain := by
    constructor
    · rintro ⟨other, suited, same, good⟩
      have known := (WireTransaction.write_injective suited suits (congrArg (· ++ []) same)).1
      exact known ▸ good
    · exact fun good => ⟨wire, suits, rfl, good⟩
  rw [unique, canonical]
  by_cases small : ∀ output ∈ wire.outputs.items, output.value.toNat ≤ 2 ^ 63 - 1
  · have bytes := made_bytes encodes made small
    rw [Transaction.calculateSize_eq (writable.mpr small), Transaction.serialize_eq (writable.mpr small), bytes, Option.some.injEq,
      Option.some.injEq, respelled_write_iff suits]
    exact ⟨fun both => ⟨small, both.2⟩, fun both => ⟨congrArg (fun wire => wire.write.length) both.2, both.2⟩⟩
  · refine iff_of_false ?_ fun both => small both.1
    rintro ⟨_, serialized⟩
    rw [Transaction.serialize_refused fun all => small (writable.mp all)] at serialized
    cases serialized

theorem single_fits {α : Type} (item : α) : [item].length < 2 ^ 64 := show 1 < 2 ^ 64 by decide

def Counted.single {α : Type} (item : α) : Counted α := Counted.shortest [item] (single_fits item)

/-- One input, of which the script is given with its number, and one output. -/
def paymentWith (script : Chunk) : WireTransaction where
  version := 2
  segwit := none
  inputs := Counted.single ⟨⟨⟨List.replicate 32 7, Cashtoken.length_sevens⟩, ⟨List.replicate 4 0, length_zeros⟩⟩, script, 4294967295⟩
  outputs := Counted.single ⟨5000, Counted.single 0x51⟩
  lockTime := 0
  payload := none
  paired := by rintro _ ⟨⟩

/-- What is made of all the bytes: the size and the bytes it is written in. -/
def rewritten (bytes : Bytes) : Option (Option Nat × Option Bytes) :=
  match parseNextTransaction plainly mainnet (decide (1 = 0)) { data := bytes } with
  | (.ok encoded, { data := [], .. }) => (parsedTransaction 1 encoded).map fun transaction =>
    (transaction.calculateSize false, transaction.serialize false)
  | _ => none

theorem rewritten_some {bytes : Bytes} {size : Option Nat} {written : Option Bytes} (known : rewritten bytes = some (size, written)) :
    ∃ encoded final transaction, parseNextTransaction plainly mainnet (decide (1 = 0)) { data := bytes } = (.ok encoded, final) ∧
      parsedTransaction 1 encoded = some transaction ∧ final.data = [] ∧ transaction.calculateSize false = size ∧
      transaction.serialize false = written := by
  unfold rewritten at known
  split at known
  · next encoded _ _ _ _ ran =>
    obtain ⟨transaction, made, same⟩ := Option.map_eq_some_iff.mp known
    cases same
    exact ⟨encoded, _, transaction, ran, made, rfl, rfl, rfl⟩
  · cases known

/-- A payment in its shortest form. -/
def payment : Bytes := (paymentWith (Counted.single 0x51)).write

/-- The length of the script in three bytes instead of one. -/
def longCount : Bytes := payment.take 41 ++ [0xfd, 1, 0] ++ payment.drop 42

theorem payment_canonical : (paymentWith (Counted.single 0x51)).Suits mainnet ∧ (paymentWith (Counted.single 0x51)).Canonical mainnet := by
  refine ⟨⟨by decide, fun _ => rfl, fun _ _ => by decide⟩, ⟨rfl, ?_, rfl, ?_, ?_, ?_⟩, ?_, ?_, ?_⟩
  · exact List.forall_mem_singleton.mpr rfl
  · exact List.forall_mem_singleton.mpr rfl
  · rintro _ ⟨⟩
  · rintro _ ⟨⟩
  · rintro _ ⟨⟩
  · exact List.forall_mem_singleton.mpr (by decide)
  · exact List.forall_mem_singleton.mpr (by rintro ⟨⟩)

theorem payment_reproduced : ∃ encoded final transaction,
    parseNextTransaction plainly mainnet (decide (1 = 0)) { data := payment } = (.ok encoded, final) ∧
      parsedTransaction 1 encoded = some transaction ∧ payment = payment ++ final.data ∧
      transaction.calculateSize false = some payment.length ∧ transaction.serialize false = some payment := by
  have known : rewritten payment = some (some payment.length, some payment) := by decide +kernel
  obtain ⟨encoded, final, transaction, ran, made, none, _, _⟩ := rewritten_some known
  have whole : payment = payment ++ final.data := by rw [none, List.append_nil]
  exact ⟨encoded, final, transaction, ran, made, whole, (parsed_serialize_iff ran made whole).mpr
    ⟨paymentWith (Counted.single 0x51), payment_canonical.1, rfl, payment_canonical.2⟩⟩

/-- A length in three bytes is read, and it is written in one. -/
theorem long_count_shortened : ∃ encoded final transaction,
    parseNextTransaction plainly mainnet (decide (1 = 0)) { data := longCount } = (.ok encoded, final) ∧
      parsedTransaction 1 encoded = some transaction ∧ longCount = longCount ++ final.data ∧
      ¬ (transaction.calculateSize false = some longCount.length ∧ transaction.serialize false = some longCount) := by
  have known : rewritten longCount = some (some payment.length, some payment) := by decide +kernel
  obtain ⟨encoded, final, transaction, ran, made, none, size, _⟩ := rewritten_some known
  refine ⟨encoded, final, transaction, ran, made, by rw [none, List.append_nil], fun both => ?_⟩
  rw [size] at both
  exact absurd (Option.some.inj both.1) (by decide)

end Opentxs.Bitcoin.Transactions
