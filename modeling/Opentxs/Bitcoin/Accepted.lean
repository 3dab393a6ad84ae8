import Opentxs.Bitcoin.Parsed
import Opentxs.Bitcoin.Wire

/-! That what the parser accepts of a transaction has the layout of one, also for the generation transaction of a
block, of which it keeps some fields. -/

namespace Opentxs.Bitcoin.Transactions.Parser
open Library Library.Endian Blockchain
open Cashtoken (FixedByteArray)

variable {both : Bool} {chain : ChainParameters}

/-! ## What is taken -/

/-- The bytes were taken from the front and fed to the hashers. -/
structure Took (both : Bool) (start : ParserState) (taken : Bytes) (final : ParserState) : Prop where
  data : start.data = taken ++ final.data
  wtxid : final.wtxid = start.wtxid ++ taken
  txid : final.txid = if both then start.txid ++ taken else start.txid

theorem Took.none (state : ParserState) : Took both state [] state :=
  ⟨rfl, (List.append_nil _).symm, by cases both <;> simp⟩

theorem Took.append {start middle final : ParserState} {first second : Bytes} (one : Took both start first middle)
    (two : Took both middle second final) : Took both start (first ++ second) final := by
  refine ⟨by rw [one.data, two.data, List.append_assoc], by rw [two.wtxid, one.wtxid, List.append_assoc], ?_⟩
  rw [two.txid, one.txid]
  cases both with
  | true => exact List.append_assoc _ _ _
  | false => rfl

theorem Took.advance {start final : ParserState} {taken : Bytes}
    (moved : start.data = taken ++ final.data ∧ final = (tape both).advance start taken final.data) : Took both start taken final :=
  ⟨moved.1, congrArg ParserState.wtxid moved.2, congrArg ParserState.txid moved.2⟩

/-! ## Fields -/

theorem parseSize_took {message : String} {start final : ParserState} {size : Nat}
    (ran : parseSize message both start = (.ok size, final)) :
    ∃ count : Count, count.value = size ∧ Took both start count.written final := by
  obtain ⟨decoded, taken, _, moved⟩ := parseSize_decodes ran
  rw [moved.1] at decoded
  exact ⟨⟨size, taken, decodes_any decoded⟩, rfl, .advance moved⟩

theorem field_took {message : String} {size : Nat} {start final : ParserState} {view : FixedByteArray size}
    (ran : field message size both start = (.ok view, final)) : Took both start view.val final := .advance (field_ok ran)

theorem little32_load (view : FixedByteArray 4) : little32 (loadLittle32 view) = view.val := by
  have back := toLittle_ofLittle view.val
  have small := ofLittle_lt view.val
  rw [view.property] at back small
  show toLittle 4 (UInt32.ofNat (ofLittle view.val)).toNat = view.val
  rw [UInt32.toNat_ofNat', Nat.mod_eq_of_lt (show _ < 2 ^ 32 from small), back]

theorem little64_load (view : FixedByteArray 8) : little64 (loadLittle64 view) = view.val := by
  have back := toLittle_ofLittle view.val
  have small := ofLittle_lt view.val
  rw [view.property] at back small
  show toLittle 8 (UInt64.ofNat (ofLittle view.val)).toNat = view.val
  rw [UInt64.toNat_ofNat', Nat.mod_eq_of_lt (show _ < 2 ^ 64 from small), back]

theorem outpoint_load (view : FixedByteArray 36) : (loadOutpoint view).serialize = view.val := List.take_append_drop 32 view.val

/-- A number and as many bytes behind it. -/
theorem chunk_took {start middle final : ParserState} {size : Nat} {view : FixedByteArray size} {count : Count} (same : count.value = size)
    (one : Took both start count.written middle) (two : Took both middle view.val final) :
    ∃ chunk : Chunk, chunk.count.value = size ∧ chunk.items = view.val ∧ Took both start chunk.write final :=
  ⟨⟨count, view.val, same.trans view.property.symm⟩, same, rfl, one.append two⟩

/-! ## Inputs, outputs and witnesses -/

theorem parseInput_took {start final : ParserState} {input : EncodedInput} (ran : parseInput both start = (.ok input, final)) :
    ∃ wire : WireInput, wire.encoded = input ∧ Took both start wire.write final := by
  unfold parseInput at ran
  obtain ⟨outpoint, s1, first, ran⟩ := Program.bind_ok ran
  obtain ⟨cs, s2, second, ran⟩ := Program.bind_ok ran
  obtain ⟨script, s3, third, ran⟩ := Program.bind_ok ran
  obtain ⟨sequence, s4, fourth, ran⟩ := Program.bind_ok ran
  obtain ⟨rfl, rfl⟩ := Program.pure_ok ran
  obtain ⟨count, same, counted⟩ := parseSize_took second
  obtain ⟨chunk, value, items, taken⟩ := chunk_took same counted (field_took third)
  refine ⟨⟨loadOutpoint outpoint, chunk, loadLittle32 sequence⟩, ?_, ?_⟩
  · rw [WireInput.encoded, value, items]
  · rw [WireInput.write, outpoint_load, little32_load]
    exact (field_took first).append (taken.append (field_took fourth))

/-- Items behind their number, from a loop that takes one after the other. -/
theorem counted_took {α ρ : Type} {step : Nat → Parser α} {write : ρ → Bytes} {reads : ρ → α → Prop}
    (each : ∀ index start value final, step index start = (.ok value, final) → ∃ wire, reads wire value ∧ Took both start (write wire) final)
    {message : String} {start middle final : ParserState} {size index : Nat} {values : List α}
    (sized : parseSize message both start = (.ok size, middle)) (ran : Program.times step index size middle = (.ok values, final)) :
    ∃ counted : Counted ρ, counted.count.value = size ∧ List.Forall₂ reads counted.items values ∧ Took both start (counted.write write) final := by
  obtain ⟨count, same, one⟩ := parseSize_took sized
  obtain ⟨items, length, all, two⟩ := Program.times_ok Took.none Took.append each size index middle values final ran
  exact ⟨⟨count, items, same.trans length.symm⟩, same, all, one.append two⟩

theorem forall₂_map {α ρ : Type} {value : ρ → α} {sources : List ρ} {values : List α}
    (all : List.Forall₂ (fun source made => value source = made) sources values) : sources.map value = values := by
  induction all with
  | nil => rfl
  | cons here _ ih => exact congr (congrArg List.cons here) ih

theorem parseInputs_took {start final : ParserState} {inputs : Nat × List EncodedInput} (ran : parseInputs both start = (.ok inputs, final)) :
    ∃ wire : Counted WireInput, wire.count.value = inputs.1 ∧ wire.items.map WireInput.encoded = inputs.2 ∧
      Took both start (wire.write WireInput.write) final := by
  unfold parseInputs at ran
  obtain ⟨count, middle, sized, ran⟩ := Program.bind_ok ran
  obtain ⟨values, last, loop, ran⟩ := Program.bind_ok ran
  obtain ⟨rfl, rfl⟩ := Program.pure_ok ran
  obtain ⟨wire, value, all, taken⟩ := counted_took (fun _ _ _ _ ran => parseInput_took ran) sized loop
  refine ⟨wire, value, ?_, taken⟩
  exact forall₂_map all

/-- A view that is hashed, of which something may be kept, and that is then removed. -/
theorem view_took {message : String} {size : Nat} {view : FixedByteArray size} {condition : Prop} [Decidable condition]
    {change : ParserState → ParserState} {s1 s2 s3 s4 s5 : ParserState}
    (checked : check message size s1 = (.ok view, s2)) (hashed : hash both view.val s2 = (.ok (), s3))
    (kept : (Program.onlyIf condition (Program.modify change) : Parser Unit) s3 = (.ok (), s4)) (removed : removePrefix size s4 = (.ok (), s5))
    (keeps : ∀ state, (change state).data = state.data ∧ (change state).wtxid = state.wtxid ∧ (change state).txid = state.txid) :
    Took both s1 view.val s5 := by
  obtain ⟨rfl, whole⟩ := check_ok checked
  obtain rfl := Program.modify_ok hashed
  obtain rfl := Program.modify_ok removed
  rcases Program.onlyIf_ok kept with ⟨_, changed⟩ | ⟨_, rfl⟩
  · obtain rfl := Program.modify_ok changed
    obtain ⟨data, wtxid, txid⟩ := keeps { s2 with wtxid := s2.wtxid ++ view.val, txid := if both then s2.txid ++ view.val else s2.txid }
    exact ⟨whole.trans (congrArg (fun rest => view.val ++ rest.drop size) data.symm), wtxid, txid⟩
  · exact ⟨whole, rfl, rfl⟩

theorem parseOutput_took {isGeneration : Bool} {start final : ParserState} {output : EncodedOutput}
    (ran : parseOutput chain isGeneration both start = (.ok output, final)) :
    ∃ wire : WireOutput, wire.Encodes chain output ∧ Took both start wire.write final := by
  unfold parseOutput at ran
  obtain ⟨value, s1, first, ran⟩ := Program.bind_ok ran
  obtain ⟨cs, s2, second, ran⟩ := Program.bind_ok ran
  obtain ⟨view, s3, checked, ran⟩ := Program.bind_ok ran
  obtain ⟨_, s4, hashed, ran⟩ := Program.bind_ok ran
  obtain ⟨_, s5, kept, ran⟩ := Program.bind_ok ran
  obtain ⟨script, s6, lifted, ran⟩ := Program.bind_ok ran
  obtain ⟨_, s7, removed, ran⟩ := Program.bind_ok ran
  obtain ⟨made, last⟩ := Program.pure_ok ran
  obtain ⟨split, same⟩ := Program.lift_ok lifted
  unfold parseSegwitCommitment at kept
  have taken : Took both s2 view.val s7 := view_took checked hashed kept (same ▸ removed) fun _ => ⟨rfl, rfl, rfl⟩
  obtain ⟨count, value', counted⟩ := parseSize_took second
  obtain ⟨chunk, value'', items, chunked⟩ := chunk_took value' counted taken
  refine ⟨⟨loadLittle64 value, chunk⟩, ?_, ?_⟩
  · rw [WireOutput.Encodes, readOutput, items, made]
    show (splitToken chain view.val >>= _) = _
    rw [split, view.property]
    rfl
  · rw [WireOutput.write, little64_load, last]
    exact (field_took first).append chunked

theorem parseOutputs_took {isGeneration : Bool} {start final : ParserState} {outputs : Nat × List EncodedOutput}
    (ran : parseOutputs chain isGeneration both start = (.ok outputs, final)) :
    ∃ wire : Counted WireOutput, wire.count.value = outputs.1 ∧ List.Forall₂ (WireOutput.Encodes chain) wire.items outputs.2 ∧
      Took both start (wire.write WireOutput.write) final := by
  unfold parseOutputs at ran
  obtain ⟨count, middle, sized, ran⟩ := Program.bind_ok ran
  obtain ⟨values, last, loop, ran⟩ := Program.bind_ok ran
  obtain ⟨rfl, rfl⟩ := Program.pure_ok ran
  exact counted_took (fun _ _ _ _ ran => parseOutput_took ran) sized loop

theorem parseWitnessItem_took {isGeneration : Bool} {input index : Nat} {start final : ParserState} {item : EncodedWitnessItem}
    (ran : parseWitnessItem isGeneration input index start = (.ok item, final)) :
    ∃ chunk : Chunk, chunk.encoded = item ∧ Took false start chunk.write final := by
  unfold parseWitnessItem at ran
  obtain ⟨cs, s1, sized, ran⟩ := Program.bind_ok ran
  obtain ⟨view, s2, checked, ran⟩ := Program.bind_ok ran
  obtain ⟨_, s3, hashed, ran⟩ := Program.bind_ok ran
  obtain ⟨_, s4, kept, ran⟩ := Program.bind_ok ran
  obtain ⟨_, s5, removed, ran⟩ := Program.bind_ok ran
  obtain ⟨made, last⟩ := Program.pure_ok ran
  have taken : Took false s1 view.val s5 := view_took checked hashed kept removed fun _ => ⟨rfl, rfl, rfl⟩
  obtain ⟨count, same, counted⟩ := parseSize_took sized
  obtain ⟨chunk, value, items, chunked⟩ := chunk_took same counted taken
  refine ⟨chunk, ?_, last ▸ chunked⟩
  rw [Chunk.encoded, value, items, made]

theorem parseWitness_took {isGeneration : Bool} {input : Nat} {start final : ParserState} {witness : EncodedInputWitness}
    (ran : parseWitness isGeneration input start = (.ok witness, final)) :
    ∃ wire : WireWitness, wire.encoded = witness ∧ Took false start wire.write final := by
  unfold parseWitness at ran
  obtain ⟨count, middle, sized, ran⟩ := Program.bind_ok ran
  obtain ⟨items, last, loop, ran⟩ := Program.bind_ok ran
  obtain ⟨rfl, rfl⟩ := Program.pure_ok ran
  obtain ⟨wire, value, all, taken⟩ := counted_took (fun _ _ _ _ ran => parseWitnessItem_took ran) sized loop
  refine ⟨wire, ?_, taken⟩
  rw [WireWitness.encoded, value, forall₂_map all]

theorem parseWitnesses_took {isGeneration : Bool} {count : Nat} {start final : ParserState}
    {witnesses : List EncodedInputWitness × Bool} (ran : parseWitnesses isGeneration count start = (.ok witnesses, final)) :
    ∃ wires : List WireWitness, wires.length = count ∧ wires.map WireWitness.encoded = witnesses.1 ∧
      Took false start (wires.flatMap WireWitness.write) final := by
  unfold parseWitnesses at ran
  obtain ⟨values, last, loop, ran⟩ := Program.bind_ok ran
  obtain ⟨rfl, rfl⟩ := Program.pure_ok ran
  obtain ⟨wires, length, all, taken⟩ :=
    Program.times_ok Took.none Took.append (fun _ _ _ _ ran => parseWitness_took ran) count 0 start values final loop
  exact ⟨wires, length, forall₂_map all, taken⟩

/-! ## The rest of the fields -/

theorem parseVersion_took {start final : ParserState} {version : UInt32} (ran : parseVersion both start = (.ok version, final)) :
    Took both start (little32 version) final := by
  unfold parseVersion at ran
  obtain ⟨view, middle, found, ran⟩ := Program.bind_ok ran
  obtain ⟨rfl, rfl⟩ := Program.pure_ok ran
  rw [little32_load]
  exact field_took found

theorem parseLocktime_took {start final : ParserState} {lockTime : UInt32} (ran : parseLocktime both start = (.ok lockTime, final)) :
    Took both start (little32 lockTime) final := by
  unfold parseLocktime at ran
  obtain ⟨view, middle, found, ran⟩ := Program.bind_ok ran
  obtain ⟨rfl, rfl⟩ := Program.pure_ok ran
  rw [little32_load]
  exact field_took found

theorem parseDip2_took {start final : ParserState} {payload : Nat × Option Bytes} (ran : parseDip2 start = (.ok payload, final)) :
    ∃ chunk : Chunk, payload.2 = some chunk.items ∧ Took true start chunk.write final := by
  unfold parseDip2 at ran
  obtain ⟨size, middle, sized, ran⟩ := Program.bind_ok ran
  obtain ⟨view, last, found, ran⟩ := Program.bind_ok ran
  obtain ⟨rfl, rfl⟩ := Program.pure_ok ran
  obtain ⟨count, same, counted⟩ := parseSize_took sized
  obtain ⟨chunk, _, items, taken⟩ := chunk_took same counted (field_took found)
  exact ⟨chunk, congrArg some items.symm, taken⟩

/-! ## The whole transaction -/

variable {Hash : Type} {hashing : Hashing Hash}

theorem checkDip2_ok {start final : ParserState} {special : Bool} {version : UInt32} {rest : Bytes}
    (ran : checkDip2 chain start = (.ok special, final)) (left : start.data = little32 version ++ rest) : special = isDip2 chain version := by
  have both := (checkDip2_eq left).symm.trans ran
  cases both
  rfl

/-- Where there is no flag, there is no marker. -/
theorem isSegwitTx_none {start final : ParserState} {version : UInt32} {rest : Bytes} (long : 2 ≤ rest.length)
    (left : start.data = little32 version ++ rest) (ran : isSegwitTx start = (.ok none, final)) : rest.head? ≠ some 0 := by
  obtain ⟨first, tail, rfl⟩ := List.exists_cons_of_length_pos (Nat.lt_of_lt_of_le (by decide) long)
  obtain ⟨second, tail, rfl⟩ := List.exists_cons_of_length_pos (Nat.le_of_succ_le_succ long)
  have both := (isSegwitTx_eq left).symm.trans ran
  intro zero
  obtain rfl := Option.some.inj zero
  rw [if_pos rfl] at both
  cases both

/-- Behind a marker stands its flag. -/
theorem isSegwitTx_some {start final : ParserState} {version : UInt32} {rest : Bytes} {flag : UInt8}
    (left : start.data = little32 version ++ rest) (ran : isSegwitTx start = (.ok (some flag), final)) : rest.take 2 = [0, flag] := by
  have byte (index : Nat) : start.data[4 + index]? = rest[index]? := by
    rw [left, List.getElem?_append_right (by rw [little32_length]; omega), little32_length, Nat.add_sub_cancel_left]
  have found : (if start.data[4]? = some 0 then start.data[5]? else none) = some flag := Except.ok.inj (congrArg Prod.fst ran)
  rw [show start.data[4]? = rest[0]? from byte 0, show start.data[5]? = rest[1]? from byte 1] at found
  split at found
  · next zero =>
    cases rest with
    | nil => cases zero
    | cons first rest =>
      cases rest with
      | nil => cases found
      | cons second rest =>
        obtain rfl := Option.some.inj zero
        obtain rfl := Option.some.inj found
        rfl
  · cases found

theorem marker_took {flag : Option UInt8} {start middle final : ParserState} {version : UInt32}
    (left : start.data = little32 version ++ middle.data) (found : ∀ value ∈ flag, isSegwitTx start = (.ok (some value), start))
    (ran : markerAndFlag flag.isSome middle = (.ok (), final)) : Took false middle (marker flag) final := by
  cases flag with
  | none =>
    obtain ⟨_, rfl⟩ := Program.pure_ok ran
    exact .none final
  | some flag =>
    have taken : middle.data.take 2 = [0, flag] := isSegwitTx_some left (found flag rfl)
    cases ran
    exact ⟨(List.take_append_drop 2 middle.data).symm.trans (congrArg (· ++ _) taken), congrArg _ taken, rfl⟩

theorem haveWitnesses_took {isGeneration isSegwit : Bool} {count : Nat} {start final : ParserState}
    {witnesses : List EncodedInputWitness × Bool} (ran : haveWitnesses isGeneration isSegwit count start = (.ok witnesses, final)) :
    ∃ wires : List WireWitness, wires.length = (if isSegwit then count else 0) ∧ wires.map WireWitness.encoded = witnesses.1 ∧
      Took false start (wires.flatMap WireWitness.write) final := by
  cases isSegwit with
  | true => exact parseWitnesses_took ran
  | false =>
    obtain ⟨rfl, rfl⟩ := Program.pure_ok ran
    exact ⟨[], rfl, rfl, .none final⟩

/-- The fields from the version to the lock time, and the bytes that are hashed for the txid. -/
theorem fields_took {isGeneration : Bool} {flag : Option UInt8} {version lockTime : UInt32} {inputs : Nat × List EncodedInput}
    {outputs : Nat × List EncodedOutput} {witnesses : List EncodedInputWitness × Bool} {start s1 s2 s3 s4 s5 s6 : ParserState}
    (clean : start.wtxid = [] ∧ start.txid = []) (found : ∀ value ∈ flag, isSegwitTx start = (.ok (some value), start))
    (first : parseVersion flag.isSome start = (.ok version, s1)) (second : markerAndFlag flag.isSome s1 = (.ok (), s2))
    (third : parseInputs flag.isSome s2 = (.ok inputs, s3)) (fourth : parseOutputs chain isGeneration flag.isSome s3 = (.ok outputs, s4))
    (fifth : haveWitnesses isGeneration flag.isSome inputs.1 s4 = (.ok witnesses, s5))
    (sixth : parseLocktime flag.isSome s5 = (.ok lockTime, s6)) :
    ∃ (ins : Counted WireInput) (outs : Counted WireOutput) (wires : List WireWitness),
      ins.items.map WireInput.encoded = inputs.2 ∧ List.Forall₂ (WireOutput.Encodes chain) outs.items outputs.2 ∧
      wires.length = (if flag.isSome then ins.items.length else 0) ∧ wires.map WireWitness.encoded = witnesses.1 ∧
      start.data = little32 version ++ (marker flag ++ (ins.write WireInput.write ++ (outs.write WireOutput.write ++
        (wires.flatMap WireWitness.write ++ (little32 lockTime ++ s6.data))))) ∧
      (if flag.isSome then s6.txid else s6.wtxid) = little32 version ++ (ins.write WireInput.write ++ (outs.write WireOutput.write ++
        little32 lockTime)) := by
  have one := parseVersion_took first
  have two := marker_took one.data found second
  obtain ⟨ins, count, inputs', three⟩ := parseInputs_took third
  obtain ⟨outs, _, outputs', four⟩ := parseOutputs_took fourth
  obtain ⟨wires, length, witnesses', five⟩ := haveWitnesses_took fifth
  have six := parseLocktime_took sixth
  refine ⟨ins, outs, wires, inputs', outputs', by rw [length, ← count, ins.counted], witnesses', ?_, ?_⟩
  · rw [one.data, two.data, three.data, four.data, five.data, six.data]
  · cases flag with
    | some flag =>
      rw [Option.isSome_some, if_pos rfl, six.txid, five.txid, four.txid, three.txid, two.txid, one.txid, clean.2]
      simp
    | none =>
      have nothing : wires = [] := List.eq_nil_of_length_eq_zero length
      rw [Option.isSome_none, if_neg Bool.false_ne_true, six.wtxid, five.wtxid, four.wtxid, three.wtxid, two.wtxid, one.wtxid, clean.1,
        nothing]
      simp [marker]

/-- What is accepted is a transaction as it is written, of which the fields are kept. -/
theorem parseNextTransaction_wire {isGeneration : Bool} {start final : ParserState} {encoded : EncodedTransaction Hash}
    (ran : parseNextTransaction hashing chain isGeneration start = (.ok encoded, final)) :
    ∃ wire : WireTransaction, wire.Suits chain ∧ wire.Encodes hashing chain encoded ∧ start.data = wire.write ++ final.data := by
  obtain ⟨special, flag, version, s1, s2, inputs, s3, outputs, s4, witnesses, s5, lockTime, s6, payload, checked, looked, first,
    second, third, fourth, fifth, sixth, seventh, wtxid, rfl⟩ := parseNextTransaction_ok ran
  have left : (fresh start).data = little32 version ++ s1.data := (parseVersion_took first).data
  have dash := checkDip2_ok checked left
  have found : ∀ value ∈ flag, isSegwitTx (fresh start) = (.ok (some value), fresh start) := by
    rintro value rfl
    unfold segwitFlag at looked
    split at looked
    · cases looked
    · exact looked
  obtain ⟨ins, outs, wires, inputs', outputs', length, witnesses', data, txid⟩ :=
    fields_took ⟨rfl, rfl⟩ found first second third fourth fifth sixth
  cases special with
  | true =>
    cases looked
    obtain ⟨chunk, kept, seven⟩ := parseDip2_took seventh
    obtain rfl : wires = [] := List.eq_nil_of_length_eq_zero length
    refine ⟨⟨version, none, ins, outs, lockTime, some chunk, by rintro _ ⟨⟩⟩, ⟨dash, fun _ => rfl, by rintro _ ⟨⟩⟩,
      ⟨rfl, rfl, inputs'.symm, outputs', witnesses'.symm, rfl, kept, ?_⟩, ?_⟩
    · show hashing.transactionHash final.wtxid = _
      rw [seven.wtxid, show s6.wtxid = _ from txid]
      simp [WireTransaction.stripped, WireTransaction.extra]
    · rw [show start.data = _ from data, seven.data]
      simp [WireTransaction.write, WireTransaction.marker, WireTransaction.witnesses, WireTransaction.extra, marker]
  | false =>
    cases seventh
    cases flag with
    | none =>
      obtain rfl : wires = [] := List.eq_nil_of_length_eq_zero length
      have behind : s1.data = ins.write WireInput.write ++ (outs.write WireOutput.write ++ (little32 lockTime ++ final.data)) :=
        List.append_cancel_left (left.symm.trans data)
      have long : 2 ≤ s1.data.length := by
        have one : 0 < (ins.write WireInput.write).length := ins.write_pos
        have two : 0 < (outs.write WireOutput.write).length := outs.write_pos
        rw [behind, List.length_append, List.length_append]
        omega
      have unmarked := isSegwitTx_none long left looked
      refine ⟨⟨version, none, ins, outs, lockTime, none, by rintro _ ⟨⟩⟩, ⟨dash, fun _ => rfl, fun _ _ => ?_⟩,
        ⟨rfl, rfl, inputs'.symm, outputs', witnesses'.symm, rfl, rfl, ?_⟩, ?_⟩
      · obtain ⟨byte, bytes, written⟩ := List.exists_cons_of_ne_nil ins.count.written_ne_nil
        rw [behind, Counted.write, written] at unmarked
        show ins.count.written.head? ≠ some 0
        rw [written]
        exact unmarked
      · show hashing.transactionHash final.wtxid = _
        rw [show final.wtxid = _ from txid]
        simp [WireTransaction.stripped, WireTransaction.extra]
      · rw [show start.data = _ from data]
        simp [WireTransaction.write, WireTransaction.marker, WireTransaction.witnesses, WireTransaction.extra, marker]
    | some flag =>
      refine ⟨⟨version, some (flag, wires), ins, outs, lockTime, none, ?_⟩, ⟨dash, by rintro ⟨⟩, by rintro ⟨⟩⟩,
        ⟨rfl, rfl, inputs'.symm, outputs', witnesses'.symm, rfl, rfl, ?_⟩, ?_⟩
      · rintro _ ⟨⟩
        exact length
      · show hashing.transactionHash final.txid = _
        rw [show final.txid = _ from txid]
        simp [WireTransaction.stripped, WireTransaction.extra]
      · rw [show start.data = _ from data]
        simp [WireTransaction.write, WireTransaction.marker, WireTransaction.witnesses, WireTransaction.extra, marker]

end Opentxs.Bitcoin.Transactions.Parser
