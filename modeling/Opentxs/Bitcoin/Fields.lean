import Opentxs.Bitcoin.Parser

/-! What the parser makes of each field of a transaction as it is written, and that each field is fed to the
hashers as it is taken. -/

namespace Opentxs.Bitcoin.Transactions.Parser
open Library Library.Endian Blockchain
open Cashtoken (FixedByteArray)

variable {both : Bool} {chain : ChainParameters}

/-- What is taken goes to both hashers, or to that of the wtxid. -/
def tape (both : Bool) : Tape ParserState UInt8 where
  left := ParserState.data
  advance state taken rest :=
    { state with data := rest, wtxid := state.wtxid ++ taken, txid := if both then state.txid ++ taken else state.txid }
  left_advance _ _ _ := rfl
  advance_nil state := by cases both <;> simp
  advance_advance state first middle second rest := by cases both <;> simp

@[simp] theorem advance_wtxid (state : ParserState) (taken rest : Bytes) :
    ((tape both).advance state taken rest).wtxid = state.wtxid ++ taken := rfl

@[simp] theorem advance_txid (state : ParserState) (taken rest : Bytes) :
    ((tape both).advance state taken rest).txid = if both then state.txid ++ taken else state.txid := rfl

/-! ## Bytes -/

theorem check_eq {message : String} {size : Nat} {state : ParserState} (view : FixedByteArray size) {rest : Bytes}
    (left : state.data = view.val ++ rest) (some : state.data ≠ []) : check message size state = (.ok view, state) := by
  have long : 0 < state.data.length := List.length_pos_iff.mpr some
  have length : size ≤ state.data.length := by
    rw [left, List.length_append, view.property]
    exact Nat.le_add_right _ _
  have taken : state.data.take size = view.val := by
    rw [left]
    exact List.take_left' view.property
  unfold check
  rw [dif_pos (Nat.max_le.mpr ⟨long, length⟩)]
  exact congrArg (fun value => (Except.ok value, state)) (Subtype.ext taken)

theorem field_eq {message : String} {size : Nat} {state : ParserState} (view : FixedByteArray size) {rest : Bytes}
    (left : state.data = view.val ++ rest) (some : state.data ≠ []) :
    field message size both state = (.ok view, (tape both).advance state view.val rest) := by
  have drop : state.data.drop size = rest := by
    rw [left]
    exact List.drop_left' view.property
  unfold field
  rw [Program.bind_of_ok (check_eq view left some)]
  show (Except.ok view, { state with data := state.data.drop size, wtxid := _, txid := _ }) = _
  rw [drop]
  rfl

theorem field_reads (message : String) {size : Nat} (view : FixedByteArray size) :
    (tape both).Reads (field message size both) view.val (.ok view) := by
  intro start rest some left
  apply field_eq view left
  rw [show start.data = view.val ++ rest from left]
  exact List.append_ne_nil_of_right_ne_nil _ some

theorem parseSize_eq {message : String} {value : Nat} (fits : value < 2 ^ 64) {state : ParserState} {rest : Bytes}
    (left : state.data = CompactSize.encode value ++ rest) :
    parseSize message both state = (.ok value, (tape both).advance state (CompactSize.encode value) rest) := by
  have decoded := CompactSize.decode_encode value rest fits
  have length : state.data.length - rest.length = (CompactSize.encode value).length := by
    rw [left, List.length_append, Nat.add_sub_cancel]
  have taken : state.data.take (CompactSize.encode value).length = CompactSize.encode value := by rw [left, List.take_left]
  have drop : state.data.drop (CompactSize.encode value).length = rest := by rw [left, List.drop_left]
  unfold parseSize
  rw [Program.bind_of_ok (show Program.get state = (.ok state, state) from rfl), left, decoded, ← left]
  show (Except.ok value, { state with data := _, wtxid := _, txid := _ }) = _
  rw [length, taken, drop]
  rfl

theorem parseSize_reads (message : String) {value : Nat} (fits : value < 2 ^ 64) :
    (tape both).Reads (parseSize message both) (CompactSize.encode value) (.ok value) :=
  fun _ _ _ left => parseSize_eq fits left

/-! ## Numbers -/

def bytes32 (value : UInt32) : FixedByteArray 4 := ⟨little32 value, little32_length value⟩

def bytes64 (value : UInt64) : FixedByteArray 8 := ⟨little64 value, little64_length value⟩

def bytesOutpoint (outpoint : Outpoint) : FixedByteArray 36 := ⟨outpoint.serialize, outpoint.serialize_length⟩

@[simp] theorem loadLittle32_bytes (value : UInt32) : loadLittle32 (bytes32 value) = value := by
  show UInt32.ofNat (ofLittle (toLittle 4 value.toNat)) = value
  rw [ofLittle_toLittle 4 _ value.toNat_lt, UInt32.ofNat_toNat]

@[simp] theorem loadLittle64_bytes (value : UInt64) : loadLittle64 (bytes64 value) = value := by
  show UInt64.ofNat (ofLittle (toLittle 8 value.toNat)) = value
  rw [ofLittle_toLittle 8 _ value.toNat_lt, UInt64.ofNat_toNat]

@[simp] theorem loadOutpoint_bytes (outpoint : Outpoint) : loadOutpoint (bytesOutpoint outpoint) = outpoint := by
  have txid : (outpoint.txid.val ++ outpoint.index.val).take 32 = outpoint.txid.val := List.take_left' outpoint.txid.property
  have index : (outpoint.txid.val ++ outpoint.index.val).drop 32 = outpoint.index.val := List.drop_left' outpoint.txid.property
  cases outpoint
  simp only [loadOutpoint, bytesOutpoint, Outpoint.serialize, Outpoint.mk.injEq]
  exact ⟨Subtype.ext txid, Subtype.ext index⟩

/-! ## Inputs, outputs and witnesses -/

/-- An input counts its bytes, in a number that has a place in the format. -/
def CountsScript (input : EncodedInput) : Prop := input.cs = input.script.length ∧ input.cs < 2 ^ 64

theorem parseInput_reads {input : EncodedInput} (counts : CountsScript input) :
    (tape both).Reads (parseInput both) input.serialize (.ok input) := by
  obtain ⟨same, fits⟩ := counts
  unfold parseInput EncodedInput.serialize
  apply (field_reads "outpoint" (bytesOutpoint input.outpoint)).step
  apply (parseSize_reads "script size" fits).step
  apply (field_reads "script" ⟨input.script, same.symm⟩).step
  have last : (tape both).Reads (field "sequence" 4 both) (little32 input.sequence) (.ok (bytes32 input.sequence)) :=
    field_reads "sequence" (bytes32 input.sequence)
  have made := last.returns fun sequence : FixedByteArray 4 =>
    ({ outpoint := input.outpoint, cs := input.cs, script := input.script, sequence := loadLittle32 sequence } : EncodedInput)
  rw [loadLittle32_bytes] at made
  rw [loadOutpoint_bytes]
  exact made

theorem parseInputs_reads {inputs : List EncodedInput} (fits : inputs.length < 2 ^ 64) (counts : ∀ input ∈ inputs, CountsScript input) :
    (tape both).Reads (parseInputs both) (CompactSize.encode inputs.length ++ inputs.flatMap EncodedInput.serialize)
      (.ok (inputs.length, inputs)) := by
  unfold parseInputs
  apply (parseSize_reads "txin count" fits).step
  have loop : (tape both).Reads (Program.times (fun _ => parseInput both) 0 inputs.length) (inputs.flatMap EncodedInput.serialize)
      (.ok (inputs.map id)) := Tape.Reads.times_ok inputs (fun _ input member => parseInput_reads (counts input member)) 0
  rw [List.map_id] at loop
  exact loop.returns fun read => (inputs.length, read)

/-- What an output counts is the token and the script. -/
def writeOutput (output : UInt64 × Bytes) : Bytes := little64 output.1 ++ (CompactSize.encode output.2.length ++ output.2)

/-- An output that is read from a value and the bytes it counts. -/
def readOutput (chain : ChainParameters) (output : UInt64 × Bytes) : Except ParserError EncodedOutput := do
  let script ← splitToken chain output.2
  .ok { value := output.1, cs := output.2.length, cashtoken := script.1, script := script.2 }

theorem parseOutput_reads {output : UInt64 × Bytes} (fits : output.2.length < 2 ^ 64) :
    (tape both).Reads (parseOutput chain false both) (writeOutput output) (readOutput chain output) := by
  unfold parseOutput writeOutput
  apply (field_reads "value" (bytes64 output.1)).step
  apply (parseSize_reads "script size" fits).step
  intro start rest some left
  have whole : start.data ≠ [] := by
    rw [show start.data = output.2 ++ rest from left]
    exact List.append_ne_nil_of_right_ne_nil _ some
  have found : check "script" output.2.length start = (.ok ⟨output.2, rfl⟩, start) := check_eq ⟨output.2, rfl⟩ left whole
  have drop : start.data.drop output.2.length = rest := by
    rw [show start.data = output.2 ++ rest from left, List.drop_left]
  rw [loadLittle64_bytes]
  unfold readOutput
  cases split : splitToken chain output.2 with
  | error fault =>
    refine ⟨{ start with wtxid := start.wtxid ++ output.2, txid := if both then start.txid ++ output.2 else start.txid }, ?_⟩
    apply (Program.bind_of_ok found).trans
    show Program.bind (Program.lift (splitToken chain output.2)) _ _ = _
    rw [split]
    rfl
  | ok script =>
    apply (Program.bind_of_ok found).trans
    show Program.bind (Program.lift (splitToken chain output.2)) _ _ = _
    rw [split]
    show (Except.ok _, { start with data := start.data.drop output.2.length, wtxid := _, txid := _ }) = _
    rw [drop]
    rfl

theorem parseOutputs_reads {outputs : List (UInt64 × Bytes)} (fits : outputs.length < 2 ^ 64)
    (each : ∀ output ∈ outputs, output.2.length < 2 ^ 64) :
    (tape both).Reads (parseOutputs chain false both) (CompactSize.encode outputs.length ++ outputs.flatMap writeOutput)
      (outputs.mapM (readOutput chain) >>= fun read => .ok (outputs.length, read)) := by
  unfold parseOutputs
  apply (parseSize_reads "txout count" fits).step
  have loop : (tape both).Reads (Program.times (fun _ => parseOutput chain false both) 0 outputs.length) (outputs.flatMap writeOutput)
      (outputs.mapM (readOutput chain)) := Tape.Reads.times outputs (fun _ output member => parseOutput_reads (each output member)) 0
  exact loop.map fun read => (outputs.length, read)

def encodeWitness (witness : List Bytes) : EncodedInputWitness :=
  { cs := witness.length, items := witness.map fun item => { cs := item.length, item } }

theorem parseWitnessItem_reads {item : Bytes} (fits : item.length < 2 ^ 64) (input index : Nat) :
    (tape false).Reads (parseWitnessItem false input index) (CompactSize.encode item.length ++ item)
      (.ok { cs := item.length, item }) := by
  unfold parseWitnessItem
  apply (parseSize_reads "witness size" fits).step
  intro start rest some left
  have whole : start.data ≠ [] := by
    rw [show start.data = item ++ rest from left]
    exact List.append_ne_nil_of_right_ne_nil _ some
  have found : check "witness" item.length start = (.ok ⟨item, rfl⟩, start) := check_eq ⟨item, rfl⟩ left whole
  have drop : start.data.drop item.length = rest := by
    rw [show start.data = item ++ rest from left, List.drop_left]
  apply (Program.bind_of_ok found).trans
  show (Except.ok _, { start with data := start.data.drop item.length, wtxid := _, txid := _ }) = _
  rw [drop]
  rfl

/-- The items of a witness, and each of them, can be counted. -/
def CountsWitness (witness : List Bytes) : Prop := witness.length < 2 ^ 64 ∧ ∀ item ∈ witness, item.length < 2 ^ 64

theorem parseWitness_reads {witness : List Bytes} (counts : CountsWitness witness) (input : Nat) :
    (tape false).Reads (parseWitness false input) (writeWitness witness) (.ok (encodeWitness witness)) := by
  unfold parseWitness writeWitness
  apply (parseSize_reads "witness item count" counts.1).step
  have loop : (tape false).Reads (Program.times (parseWitnessItem false input) 0 witness.length)
      (witness.flatMap fun item => CompactSize.encode item.length ++ item)
      (.ok (witness.map fun item => { cs := item.length, item })) :=
    Tape.Reads.times_ok witness (fun index item member => parseWitnessItem_reads (counts.2 item member) input index) 0
  exact loop.returns fun items => ({ cs := witness.length, items } : EncodedInputWitness)

theorem parseWitnesses_reads {witnesses : List (List Bytes)} (counts : ∀ witness ∈ witnesses, CountsWitness witness) :
    (tape false).Reads (parseWitnesses false witnesses.length) (witnesses.flatMap writeWitness)
      (.ok (witnesses.map encodeWitness, witnesses.any (0 < ·.length))) := by
  have loop : (tape false).Reads (Program.times (parseWitness false) 0 witnesses.length) (witnesses.flatMap writeWitness)
      (.ok (witnesses.map encodeWitness)) :=
    Tape.Reads.times_ok witnesses (fun index witness member => parseWitness_reads (counts witness member) index) 0
  have any : (witnesses.map encodeWitness).any (0 < ·.cs) = witnesses.any (0 < ·.length) := List.any_map
  have made := loop.returns fun read : List EncodedInputWitness => (read, read.any (0 < ·.cs))
  rwa [any] at made

/-! ## What is taken -/

theorem check_ok {message : String} {size : Nat} {state final : ParserState} {view : FixedByteArray size}
    (ran : check message size state = (.ok view, final)) : final = state ∧ state.data = view.val ++ state.data.drop size := by
  unfold check at ran
  split at ran
  · cases ran
    exact ⟨rfl, (List.take_append_drop _ _).symm⟩
  · cases ran

theorem field_ok {message : String} {size : Nat} {start final : ParserState} {view : FixedByteArray size}
    (ran : field message size both start = (.ok view, final)) :
    start.data = view.val ++ final.data ∧ final = (tape both).advance start view.val final.data := by
  unfold field at ran
  obtain ⟨found, middle, checked, rest⟩ := Program.bind_ok ran
  obtain ⟨rfl, whole⟩ := check_ok checked
  cases rest
  exact ⟨whole, rfl⟩

theorem field_consumes (message : String) (size : Nat) : (tape both).Consumes (field message size both) := by
  intro start view final ran
  exact ⟨view.val, field_ok ran⟩

theorem decode_suffix {view rest : Bytes} {value : Nat} (decoded : CompactSize.decodeCompactSize view = (some value, rest)) :
    ∃ taken, taken ≠ [] ∧ view = taken ++ rest := by
  cases view with
  | nil => cases decoded
  | cons first tail =>
    have suffix : ∃ taken, tail = taken ++ rest := by
      simp only [CompactSize.decodeCompactSize] at decoded
      split at decoded
      · cases decoded
        exact ⟨[], rfl⟩
      · split at decoded
        · cases decoded
          exact ⟨[], rfl⟩
        · split at decoded
          · cases decoded
            exact ⟨_, (List.take_append_drop _ _).symm⟩
          · cases decoded
    obtain ⟨taken, rfl⟩ := suffix
    exact ⟨first :: taken, List.cons_ne_nil _ _, rfl⟩

theorem parseSize_decodes {message : String} {start final : ParserState} {size : Nat}
    (ran : parseSize message both start = (.ok size, final)) :
    CompactSize.decodeCompactSize start.data = (some size, final.data) ∧
      ∃ taken, taken ≠ [] ∧ start.data = taken ++ final.data ∧ final = (tape both).advance start taken final.data := by
  unfold parseSize at ran
  obtain ⟨state, middle, got, rest⟩ := Program.bind_ok ran
  cases got
  cases decoded : CompactSize.decodeCompactSize start.data with
  | mk result left =>
    rw [decoded] at rest
    cases result with
    | none => cases rest
    | some value =>
      obtain ⟨taken, some, whole⟩ := decode_suffix decoded
      have length : start.data.length - left.length = taken.length := by
        rw [whole, List.length_append, Nat.add_sub_cancel]
      have drop : start.data.drop taken.length = left := by rw [whole, List.drop_left]
      have take : start.data.take taken.length = taken := by rw [whole, List.take_left]
      replace rest : (Except.ok value, { start with
          data := start.data.drop (start.data.length - left.length),
          wtxid := start.wtxid ++ start.data.take (start.data.length - left.length), txid := _ }) = (Except.ok size, final) := rest
      rw [length, drop, take] at rest
      cases rest
      exact ⟨rfl, taken, some, whole, rfl⟩

/-- A count takes at least one byte. -/
theorem parseSize_ok {message : String} {start final : ParserState} {size : Nat}
    (ran : parseSize message both start = (.ok size, final)) :
    ∃ taken, taken ≠ [] ∧ start.data = taken ++ final.data ∧ final = (tape both).advance start taken final.data :=
  (parseSize_decodes ran).2

theorem parseSize_consumes (message : String) : (tape both).Consumes (parseSize message both) := by
  intro start size final ran
  obtain ⟨taken, _, moved⟩ := parseSize_ok ran
  exact ⟨taken, moved⟩

theorem parseInput_consumes : (tape both).Consumes (parseInput both) :=
  (field_consumes "outpoint" 36).bind fun _ => (parseSize_consumes "script size").bind fun _ =>
    (field_consumes "script" _).bind fun _ => (field_consumes "sequence" 4).bind fun _ => Tape.Consumes.pure _

theorem parseInputs_consumes : (tape both).Consumes (parseInputs both) :=
  (parseSize_consumes "txin count").bind fun count =>
    (Tape.Consumes.times (fun _ => parseInput_consumes) count 0).bind fun _ => Tape.Consumes.pure _

theorem parseOutput_consumes : (tape both).Consumes (parseOutput chain false both) := by
  apply (field_consumes "value" 8).bind
  intro value
  apply (parseSize_consumes "script size").bind
  intro cs start output final ran
  obtain ⟨view, middle, checked, rest⟩ := Program.bind_ok ran
  obtain ⟨rfl, whole⟩ := check_ok checked
  obtain ⟨_, hashed, fed, rest⟩ := Program.bind_ok rest
  obtain ⟨_, same, plain, rest⟩ := Program.bind_ok rest
  obtain ⟨script, kept, lifted, rest⟩ := Program.bind_ok rest
  cases fed
  cases plain
  obtain ⟨_, rfl⟩ := Program.lift_ok lifted
  cases rest
  exact ⟨view.val, whole, rfl⟩

theorem parseOutputs_consumes : (tape both).Consumes (parseOutputs chain false both) :=
  (parseSize_consumes "txout count").bind fun count =>
    (Tape.Consumes.times (fun _ => parseOutput_consumes) count 0).bind fun _ => Tape.Consumes.pure _

theorem parseWitnessItem_consumes (input item : Nat) : (tape false).Consumes (parseWitnessItem false input item) := by
  apply (parseSize_consumes "witness size").bind
  intro cs start value final ran
  obtain ⟨view, middle, checked, rest⟩ := Program.bind_ok ran
  obtain ⟨rfl, whole⟩ := check_ok checked
  obtain ⟨_, hashed, fed, rest⟩ := Program.bind_ok rest
  obtain ⟨_, same, plain, rest⟩ := Program.bind_ok rest
  cases fed
  cases plain
  cases rest
  exact ⟨view.val, whole, rfl⟩

theorem haveWitnesses_consumes (isSegwit : Bool) (count : Nat) : (tape false).Consumes (haveWitnesses false isSegwit count) := by
  have each (input : Nat) : (tape false).Consumes (parseWitness false input) :=
    (parseSize_consumes "witness item count").bind fun items =>
      (Tape.Consumes.times (parseWitnessItem_consumes input) items 0).bind fun _ => Tape.Consumes.pure _
  cases isSegwit with
  | false => exact Tape.Consumes.pure _
  | true => exact (Tape.Consumes.times each count 0).bind fun _ => Tape.Consumes.pure _

theorem parseVersion_consumes : (tape both).Consumes (parseVersion both) :=
  (field_consumes "version field" 4).bind fun _ => Tape.Consumes.pure _

theorem parseLocktime_consumes : (tape both).Consumes (parseLocktime both) :=
  (field_consumes "lock time" 4).bind fun _ => Tape.Consumes.pure _

/-- The payload of a special transaction takes at least one byte. -/
theorem parseDip2_ok {start final : ParserState} {payload : Nat × Option Bytes} (ran : parseDip2 start = (.ok payload, final)) :
    ∃ taken, taken ≠ [] ∧ start.data = taken ++ final.data ∧ final = (tape true).advance start taken final.data := by
  unfold parseDip2 at ran
  obtain ⟨size, middle, counted, rest⟩ := Program.bind_ok ran
  obtain ⟨first, some, whole, moved⟩ := parseSize_ok counted
  have consumes : (tape true).Consumes (field "dip2 payload" size true >>= fun payload => pure (size, Option.some payload.val)) :=
    (field_consumes "dip2 payload" size).bind fun _ => Tape.Consumes.pure _
  obtain ⟨second, behind, again⟩ := consumes middle payload final rest
  refine ⟨first ++ second, List.append_ne_nil_of_left_ne_nil some second, ?_, ?_⟩
  · rw [whole, show middle.data = second ++ final.data from behind, List.append_assoc]
  · calc final
      _ = (tape true).advance middle second final.data := again
      _ = (tape true).advance ((tape true).advance start first middle.data) second final.data := by rw [← moved]
      _ = (tape true).advance start (first ++ second) final.data := (tape true).advance_advance _ _ _ _ _

end Opentxs.Bitcoin.Transactions.Parser
