import Opentxs.Bitcoin.Fields

/-! What the parser makes of a whole transaction as it is written, and which of its bytes each of the two hashes
is taken of. -/

namespace Opentxs.Bitcoin.Transactions.Parser
open Library Library.Endian Blockchain

variable {Hash : Type} {hashing : Hashing Hash} {chain : ChainParameters} {version lockTime : UInt32} {flag : Option UInt8}
  {inputs : List EncodedInput} {outputs : List (UInt64 × Bytes)} {witnesses : List (List Bytes)}

/-! ## The bytes of a transaction -/

def marker (flag : Option UInt8) : Bytes :=
  match flag with
  | some flag => [0, flag]
  | none => []

def writeInputs (inputs : List EncodedInput) : Bytes :=
  CompactSize.encode inputs.length ++ inputs.flatMap EncodedInput.serialize

def writeOutputs (outputs : List (UInt64 × Bytes)) : Bytes :=
  CompactSize.encode outputs.length ++ outputs.flatMap writeOutput

def writeWitnesses (flag : Option UInt8) (witnesses : List (List Bytes)) : Bytes :=
  if flag.isSome then witnesses.flatMap writeWitness else []

/-- With a flag there are marker, flag and witnesses. -/
def wireBytes (version lockTime : UInt32) (flag : Option UInt8) (inputs : List EncodedInput) (outputs : List (UInt64 × Bytes))
    (witnesses : List (List Bytes)) : Bytes :=
  little32 version ++ (marker flag ++ (writeInputs inputs ++ (writeOutputs outputs ++
    (writeWitnesses flag witnesses ++ little32 lockTime))))

/-- `size_t` holds every count. -/
structure Counts (inputs : List EncodedInput) (outputs : List (UInt64 × Bytes)) (witnesses : List (List Bytes)) : Prop where
  inputCount : inputs.length < 2 ^ 64
  scripts : ∀ input ∈ inputs, CountsScript input
  outputCount : outputs.length < 2 ^ 64
  payloads : ∀ output ∈ outputs, output.2.length < 2 ^ 64
  pushes : ∀ witness ∈ witnesses, CountsWitness witness

theorem encode_cons (value : Nat) : ∃ first rest, CompactSize.encode value = first :: rest ∧ (first = 0 ↔ value = 0) := by
  unfold CompactSize.encode
  split
  · next small =>
    refine ⟨UInt8.ofNat value, [], rfl, ?_⟩
    rw [← UInt8.toNat_inj, UInt8.toNat_ofNat', Nat.mod_eq_of_lt (by omega)]
    rfl
  · next large =>
    have some : value ≠ 0 := by omega
    have marked {first : UInt8} (rest : Bytes) (other : first ≠ 0) :
        ∃ head tail, first :: rest = head :: tail ∧ (head = 0 ↔ value = 0) :=
      ⟨first, rest, rfl, iff_of_false other some⟩
    split
    · exact marked _ (by decide)
    · split
      · exact marked _ (by decide)
      · exact marked _ (by decide)

theorem encode_pos (value : Nat) : 0 < (CompactSize.encode value).length := by
  obtain ⟨first, rest, same, _⟩ := encode_cons value
  rw [same]
  exact Nat.succ_pos _

theorem writeInputs_pos (inputs : List EncodedInput) : 0 < (writeInputs inputs).length := by
  have count := encode_pos inputs.length
  rw [writeInputs, List.length_append]
  omega

theorem writeOutputs_pos (outputs : List (UInt64 × Bytes)) : 0 < (writeOutputs outputs).length := by
  have count := encode_pos outputs.length
  rw [writeOutputs, List.length_append]
  omega

theorem wireBytes_length : 10 ≤ (wireBytes version lockTime flag inputs outputs witnesses).length := by
  have first := writeInputs_pos inputs
  have second := writeOutputs_pos outputs
  simp only [wireBytes, List.length_append, little32_length]
  omega

/-! ## One step after the other -/

variable {start : ParserState} {rest : Bytes}

@[simp] theorem fresh_data : (fresh start).data = start.data := rfl

@[simp] theorem fresh_wtxid : (fresh start).wtxid = [] := rfl

@[simp] theorem fresh_txid : (fresh start).txid = [] := rfl

theorem begin_eq (long : 10 ≤ start.data.length) : Parser.begin start = (.ok (), fresh start) := by
  show Program.bind (Program.require (decide (10 ≤ start.data.length)) _) _ start = _
  rw [decide_eq_true long]
  rfl

theorem checkDip2_eq (left : start.data = little32 version ++ rest) : checkDip2 chain start = (.ok (isDip2 chain version), start) := by
  have some : start.data ≠ [] := by
    rw [left]
    exact List.append_ne_nil_of_left_ne_nil (List.ne_nil_of_length_pos (by rw [little32_length]; decide)) rest
  have found : check "version field" 4 start = (.ok (bytes32 version), start) := check_eq (bytes32 version) left some
  apply (Program.bind_of_ok found).trans
  rw [loadLittle32_bytes]
  rfl

theorem isSegwitTx_eq {first second : UInt8} (left : start.data = little32 version ++ first :: second :: rest) :
    isSegwitTx start = (.ok (if first = 0 then some second else none), start) := by
  have byte (index : Nat) : start.data[4 + index]? = (first :: second :: rest)[index]? := by
    rw [left, List.getElem?_append_right (by rw [little32_length]; omega), little32_length, Nat.add_sub_cancel_left]
  have fourth : start.data[4]? = some first := byte 0
  have fifth : start.data[5]? = some second := byte 1
  show (Except.ok (if start.data[4]? = some 0 then start.data[5]? else none), start) = _
  rw [fourth, fifth]
  by_cases zero : first = 0
  · rw [if_pos zero, if_pos (congrArg some zero)]
  · rw [if_neg zero, if_neg fun same => zero (Option.some.inj same)]

/-- The flag is found where there is one, and no number of inputs is taken for it unless there are none. -/
theorem isSegwitTx_reads (marked : flag = none → inputs ≠ []) (some : rest ≠ [])
    (left : start.data = little32 version ++ (marker flag ++ (writeInputs inputs ++ rest))) :
    isSegwitTx start = (.ok flag, start) := by
  cases flag with
  | some flag => exact (isSegwitTx_eq left).trans rfl
  | none =>
    obtain ⟨first, tail, same, zero⟩ := encode_cons inputs.length
    obtain ⟨second, behind, more⟩ : ∃ second behind, tail ++ (inputs.flatMap EncodedInput.serialize ++ rest) = second :: behind :=
      List.exists_cons_of_ne_nil (List.append_ne_nil_of_right_ne_nil _ (List.append_ne_nil_of_right_ne_nil _ some))
    have shape : start.data = little32 version ++ first :: second :: behind := by
      rw [left, marker, writeInputs, same, List.nil_append, List.append_assoc, List.cons_append, more]
    have other : first ≠ 0 := fun same => marked rfl (List.eq_nil_of_length_eq_zero (zero.mp same))
    rw [isSegwitTx_eq shape, if_neg other]

theorem marker_reads (left : start.data = marker flag ++ rest) :
    markerAndFlag flag.isSome start = (.ok (), (tape false).advance start (marker flag) rest) := by
  cases flag with
  | some flag =>
    have drop : start.data.drop 2 = rest := by rw [left]; rfl
    have take : start.data.take 2 = [0, flag] := by rw [left]; rfl
    show (Except.ok (), { start with data := start.data.drop 2, wtxid := start.wtxid ++ start.data.take 2, txid := start.txid }) = _
    rw [drop, take]
    rfl
  | none =>
    have same : (tape false).advance start [] start.data = start := (tape false).advance_nil start
    rw [show rest = start.data from left.symm]
    show (Except.ok (), start) = (Except.ok (), (tape false).advance start [] start.data)
    rw [same]

theorem version_eq {both : Bool} (left : start.data = little32 version ++ rest) :
    parseVersion both start = (.ok version, (tape both).advance start (little32 version) rest) := by
  have some : start.data ≠ [] := by
    rw [left]
    exact List.append_ne_nil_of_left_ne_nil (List.ne_nil_of_length_pos (by rw [little32_length]; decide)) rest
  have found : field "version field" 4 both start = (.ok (bytes32 version), (tape both).advance start (little32 version) rest) :=
    field_eq (bytes32 version) left some
  apply (Program.bind_of_ok found).trans
  rw [loadLittle32_bytes]
  rfl

theorem locktime_eq {both : Bool} (left : start.data = little32 lockTime ++ rest) :
    parseLocktime both start = (.ok lockTime, (tape both).advance start (little32 lockTime) rest) := by
  have some : start.data ≠ [] := by
    rw [left]
    exact List.append_ne_nil_of_left_ne_nil (List.ne_nil_of_length_pos (by rw [little32_length]; decide)) rest
  have found : field "lock time" 4 both start = (.ok (bytes32 lockTime), (tape both).advance start (little32 lockTime) rest) :=
    field_eq (bytes32 lockTime) left some
  apply (Program.bind_of_ok found).trans
  rw [loadLittle32_bytes]
  rfl

theorem witnesses_reads (pushes : ∀ witness ∈ witnesses, CountsWitness witness) (some : rest ≠ [])
    (left : start.data = writeWitnesses flag witnesses ++ rest) :
    haveWitnesses false flag.isSome witnesses.length start =
      (.ok (if flag.isSome then witnesses.map encodeWitness else [], flag.isSome && witnesses.any (0 < ·.length)),
        (tape false).advance start (writeWitnesses flag witnesses) rest) := by
  cases flag with
  | some flag => exact parseWitnesses_reads pushes start rest some left
  | none =>
    have same : (tape false).advance start [] start.data = start := (tape false).advance_nil start
    rw [show rest = start.data from left.symm]
    show (Except.ok ([], false), start) = (Except.ok ([], false), (tape false).advance start [] start.data)
    rw [same]

/-- The fields as they were written, the outputs as they were split; the txid leaves marker, flag and witnesses out. -/
def fieldsOf (hashing : Hashing Hash) (version lockTime : UInt32) (flag : Option UInt8) (inputs : List EncodedInput)
    (outputs : List (UInt64 × Bytes)) (witnesses : List (List Bytes)) (read : List EncodedOutput) : EncodedTransaction Hash :=
  let txid := hashing.transactionHash (wireBytes version lockTime none inputs outputs [])
  { version, segwitFlag := flag, inputCount := inputs.length, inputs, outputCount := outputs.length, outputs := read,
    witnesses := if flag.isSome then witnesses.map encodeWitness else [], lockTime, txid,
    wtxid := if flag.isSome && witnesses.any (0 < ·.length) then
        hashing.transactionHash (wireBytes version lockTime flag inputs outputs witnesses)
      else txid }

/-- A transaction that is written is parsed as its fields, as long as its outputs can be split. -/
theorem parseNextTransaction_reads (counts : Counts inputs outputs witnesses) (paired : witnesses.length = inputs.length)
    (normal : isDip2 chain version = false) (marked : flag = none → inputs ≠ [])
    (left : start.data = wireBytes version lockTime flag inputs outputs witnesses ++ rest) :
    ∃ final, Tape.Ends (parseNextTransaction hashing chain false) start final
      (outputs.mapM (readOutput chain) >>= fun read => .ok (fieldsOf hashing version lockTime flag inputs outputs witnesses read)) := by
  have long : 10 ≤ start.data.length := by
    rw [left, List.length_append]
    exact Nat.le_trans wireBytes_length (Nat.le_add_right _ _)
  have end_ : little32 lockTime ++ rest ≠ [] := by
    exact List.append_ne_nil_of_left_ne_nil (List.ne_nil_of_length_pos (by rw [little32_length]; decide)) rest
  have tail : writeWitnesses flag witnesses ++ (little32 lockTime ++ rest) ≠ [] := List.append_ne_nil_of_right_ne_nil _ end_
  have behind : writeOutputs outputs ++ (writeWitnesses flag witnesses ++ (little32 lockTime ++ rest)) ≠ [] :=
    List.append_ne_nil_of_right_ne_nil _ tail
  simp only [wireBytes, List.append_assoc] at left
  have begun := begin_eq long
  generalize zero : fresh start = s0 at begun
  have left0 : s0.data = start.data := by rw [← zero, fresh_data]
  rw [left] at left0
  have special : checkDip2 chain s0 = (.ok (isDip2 chain version), s0) := checkDip2_eq left0
  rw [normal] at special
  have flagged : segwitFlag false s0 = (.ok flag, s0) := isSegwitTx_reads marked behind left0
  have first : parseVersion flag.isSome s0 = (.ok version, _) := version_eq left0
  generalize one : (tape flag.isSome).advance s0 (little32 version) _ = s1 at first
  have second : markerAndFlag flag.isSome s1 = _ := marker_reads (by rw [← one]; rfl)
  generalize two : (tape false).advance s1 (marker flag) _ = s2 at second
  have third : Tape.Ends (parseInputs flag.isSome) s2 _ _ :=
    parseInputs_reads counts.inputCount counts.scripts s2 _ behind (by rw [← two]; rfl)
  generalize three : (tape flag.isSome).advance s2 _ _ = s3 at third
  have fourth : Tape.Ends (parseOutputs chain false flag.isSome) s3 _ _ :=
    parseOutputs_reads counts.outputCount counts.payloads s3 _ tail (by rw [← three]; rfl)
  generalize four : (tape flag.isSome).advance s3 _ _ = s4 at fourth
  unfold parseNextTransaction
  cases split : outputs.mapM (readOutput chain) with
  | error fault =>
    rw [split] at fourth
    obtain ⟨final, fourth⟩ := fourth
    refine ⟨start, final, ?_⟩
    rw [Program.bind_of_ok begun, Program.bind_of_ok special, Program.bind_of_ok flagged]
    rw [Program.bind_of_ok first, Program.bind_of_ok second, Program.bind_of_ok third]
    exact Program.bind_of_error fourth
  | ok read =>
    rw [split] at fourth
    replace fourth : parseOutputs chain false flag.isSome s3 = (.ok (outputs.length, read), s4) := fourth
    have fifth : haveWitnesses false flag.isSome witnesses.length s4 = _ :=
      witnesses_reads counts.pushes end_ (by rw [← four]; rfl)
    generalize five : (tape false).advance s4 _ _ = s5 at fifth
    have sixth : parseLocktime flag.isSome s5 = (.ok lockTime, _) := locktime_eq (by rw [← five]; rfl)
    generalize six : (tape flag.isSome).advance s5 _ _ = s6 at sixth
    refine ⟨s6, ?_⟩
    show _ = _
    rw [Program.bind_of_ok begun, Program.bind_of_ok special, Program.bind_of_ok flagged]
    rw [Program.bind_of_ok first, Program.bind_of_ok second, Program.bind_of_ok third, Program.bind_of_ok fourth]
    rw [paired] at fifth
    rw [Program.bind_of_ok fifth, Program.bind_of_ok sixth]
    have wtxid : s6.wtxid = wireBytes version lockTime flag inputs outputs witnesses := by
      simp only [← six, ← five, ← four, ← three, ← two, ← one, ← zero, advance_wtxid, fresh_wtxid, wireBytes, writeInputs,
        writeOutputs, List.append_assoc, List.nil_append]
    have txid : (if flag.isSome then s6.txid else s6.wtxid) = wireBytes version lockTime none inputs outputs [] := by
      cases flag with
      | some flag =>
        simp only [← six, ← five, ← four, ← three, ← two, ← one, ← zero, advance_txid, fresh_txid, Option.isSome_some,
          if_true]
        simp [wireBytes, marker, writeInputs, writeOutputs, writeWitnesses]
      | none =>
        rw [wtxid]
        rfl
    have ids : calculateTxids hashing flag.isSome false (flag.isSome && witnesses.any (0 < ·.length)) s6 =
        (.ok ((fieldsOf hashing version lockTime flag inputs outputs witnesses read).txid,
          (fieldsOf hashing version lockTime flag inputs outputs witnesses read).wtxid), s6) := by
      show (Except.ok (hashing.transactionHash (if flag.isSome then s6.txid else s6.wtxid),
        if (flag.isSome && witnesses.any (0 < ·.length)) = false then hashing.transactionHash (if flag.isSome then s6.txid else s6.wtxid)
        else if flag.isSome then hashing.transactionHash s6.wtxid
        else hashing.transactionHash (if flag.isSome then s6.txid else s6.wtxid)), s6) = _
      rw [txid, wtxid]
      unfold fieldsOf
      cases flag.isSome <;> cases witnesses.any (0 < ·.length) <;> rfl
    exact (Program.bind_of_ok (show extraPayload false s6 = (.ok (0, none), s6) from rfl)).trans (Program.bind_of_ok ids)

/-! ## What a run has done -/

/-- The steps of a run that returned, from the state with new hashers. -/
theorem parseNextTransaction_ok {isGeneration : Bool} {final : ParserState} {parsed : EncodedTransaction Hash}
    (ran : parseNextTransaction hashing chain isGeneration start = (.ok parsed, final)) :
    ∃ special flag version' s1 s2 inputs' s3 outputs' s4 witnesses' s5 lockTime' s6 payload,
      checkDip2 chain (fresh start) = (.ok special, fresh start) ∧ segwitFlag special (fresh start) = (.ok flag, fresh start) ∧
      parseVersion flag.isSome (fresh start) = (.ok version', s1) ∧
      markerAndFlag flag.isSome s1 = (.ok (), s2) ∧ parseInputs flag.isSome s2 = (.ok inputs', s3) ∧
      parseOutputs chain isGeneration flag.isSome s3 = (.ok outputs', s4) ∧
      haveWitnesses isGeneration flag.isSome inputs'.1 s4 = (.ok witnesses', s5) ∧
      parseLocktime flag.isSome s5 = (.ok lockTime', s6) ∧ extraPayload special s6 = (.ok payload, final) ∧
      ∃ wtxid, parsed =
        { version := version', segwitFlag := flag, inputCount := inputs'.1, inputs := inputs'.2, outputCount := outputs'.1,
          outputs := outputs'.2, witnesses := witnesses'.1, lockTime := lockTime', dip2Bytes := payload.1, dip2 := payload.2,
          txid := hashing.transactionHash (if flag.isSome then final.txid else final.wtxid), wtxid } := by
  unfold parseNextTransaction at ran
  obtain ⟨_, s0, begun, ran⟩ := Program.bind_ok ran
  have clean : s0 = fresh start := by
    unfold Parser.begin at begun
    obtain ⟨state, same, got, begun⟩ := Program.bind_ok begun
    cases got
    obtain ⟨_, middle, required, changed⟩ := Program.bind_ok begun
    obtain ⟨_, rfl⟩ := Program.require_ok required
    exact Program.modify_ok changed
  subst clean
  obtain ⟨special, checked, dip2, ran⟩ := Program.bind_ok ran
  obtain rfl : checked = fresh start := by
    unfold checkDip2 at dip2
    obtain ⟨view, middle, found, dip2⟩ := Program.bind_ok dip2
    cases dip2
    exact (check_ok found).1
  obtain ⟨flag, looked, found, ran⟩ := Program.bind_ok ran
  obtain rfl : looked = fresh start := by
    unfold segwitFlag at found
    split at found
    · exact (Program.pure_ok found).2
    · cases found
      rfl
  obtain ⟨version', s1, first, ran⟩ := Program.bind_ok ran
  obtain ⟨_, s2, second, ran⟩ := Program.bind_ok ran
  obtain ⟨inputs', s3, third, ran⟩ := Program.bind_ok ran
  obtain ⟨outputs', s4, fourth, ran⟩ := Program.bind_ok ran
  obtain ⟨witnesses', s5, fifth, ran⟩ := Program.bind_ok ran
  obtain ⟨lockTime', s6, sixth, ran⟩ := Program.bind_ok ran
  obtain ⟨payload, s7, seventh, ran⟩ := Program.bind_ok ran
  obtain ⟨ids, s8, eighth, ran⟩ := Program.bind_ok ran
  cases eighth
  cases ran
  exact ⟨special, flag, version', s1, s2, inputs', s3, outputs', s4, witnesses', s5, lockTime', s6, payload, dip2, found, first,
    second, third, fourth, fifth, sixth, seventh, _, rfl⟩

variable {final : ParserState} {parsed : EncodedTransaction Hash}

/-- The hasher of a special transaction gets at least one byte behind the lock time. -/
theorem special_differs (counts : Counts inputs outputs []) (special : isDip2 chain version = true)
    (injective : Function.Injective hashing.transactionHash) (left : start.data = little32 version ++ rest)
    (ran : parseNextTransaction hashing chain false start = (.ok parsed, final)) :
    parsed.txid ≠ hashing.transactionHash (wireBytes version lockTime none inputs outputs []) := by
  intro same
  obtain ⟨dip2, flag, version', s1, s2, inputs', s3, outputs', s4, witnesses', s5, lockTime', s6, payload, checked, found, first,
    second, third, fourth, fifth, sixth, seventh, wtxid, rfl⟩ := parseNextTransaction_ok ran
  have dash : dip2 = true := by
    have known : checkDip2 chain (fresh start) = (.ok (isDip2 chain version), fresh start) := checkDip2_eq left
    rw [checked, special] at known
    cases known
    rfl
  subst dash
  cases found
  cases second
  cases fifth
  have hashed : final.wtxid = wireBytes version lockTime none inputs outputs [] := injective same
  obtain ⟨b1, d1, m1⟩ := parseVersion_consumes _ _ _ first
  obtain ⟨b3, d3, m3⟩ := parseInputs_consumes _ _ _ third
  obtain ⟨b4, d4, m4⟩ := parseOutputs_consumes _ _ _ fourth
  obtain ⟨b6, d6, m6⟩ := parseLocktime_consumes _ _ _ sixth
  obtain ⟨extra, some, d7, m7⟩ := parseDip2_ok seventh
  have taken : final.wtxid = b1 ++ (b3 ++ (b4 ++ (b6 ++ extra))) := by
    rw [m7, advance_wtxid, m6, advance_wtxid, m4, advance_wtxid, m3, advance_wtxid, m1, advance_wtxid]
    simp
  have whole : start.data = wireBytes version lockTime none inputs outputs [] ++ final.data := by
    rw [← hashed, taken]
    simp only [List.append_assoc]
    exact d1.trans (congrArg (b1 ++ ·) (d3.trans (congrArg (b3 ++ ·) (d4.trans (congrArg (b4 ++ ·) (d6.trans (congrArg (b6 ++ ·) d7)))))))
  simp only [wireBytes, marker, writeWitnesses, Option.isSome_none, Bool.false_eq_true, if_false, List.append_assoc,
    List.nil_append] at whole
  have end_ : little32 lockTime ++ final.data ≠ [] :=
    List.append_ne_nil_of_left_ne_nil (List.ne_nil_of_length_pos (by rw [little32_length]; decide)) final.data
  have behind : writeOutputs outputs ++ (little32 lockTime ++ final.data) ≠ [] := List.append_ne_nil_of_right_ne_nil _ end_
  have from_ : (fresh start).data = _ := whole
  have known1 := (version_eq from_).symm.trans first
  cases known1
  have known3 := ((parseInputs_reads counts.inputCount counts.scripts).of_ok behind rfl third).2
  subst known3
  have known4 := ((parseOutputs_reads counts.outputCount counts.payloads).of_ok end_ rfl fourth).2
  subst known4
  have known6 := (locktime_eq rfl).symm.trans sixth
  cases known6
  have grown : final.wtxid = wireBytes version lockTime none inputs outputs [] ++ extra := by
    rw [m7]
    simp only [advance_wtxid, fresh_wtxid, wireBytes, marker, writeInputs, writeOutputs, writeWitnesses, Option.isSome_none,
      Bool.false_eq_true, if_false, List.append_assoc, List.nil_append]
  rw [hashed, List.self_eq_append_right] at grown
  exact some grown

theorem writeInputs_nil : writeInputs [] = [0] := rfl

/-- Without inputs their number is taken for the marker; the txid is that of other outputs only if the bytes go on as the
transaction with these outputs would, behind a marker and a flag. -/
theorem bare_prefix {plain : List (UInt64 × Bytes)} (normal : isDip2 chain version = false)
    (injective : Function.Injective hashing.transactionHash) (left : start.data = wireBytes version lockTime none [] outputs [])
    (ran : parseNextTransaction hashing chain false start = (.ok parsed, final))
    (same : parsed.txid = hashing.transactionHash (wireBytes version lockTime none [] plain [])) :
    ∃ flag, wireBytes version lockTime (some flag) [] plain [] <+: wireBytes version lockTime none [] outputs [] := by
  obtain ⟨dip2, flag, version', s1, s2, inputs', s3, outputs', s4, witnesses', s5, lockTime', s6, payload, checked, found, first,
    second, third, fourth, fifth, sixth, seventh, wtxid, rfl⟩ := parseNextTransaction_ok ran
  obtain ⟨count, tail, counted, _⟩ := encode_cons outputs.length
  obtain ⟨behind, shape⟩ : ∃ behind, start.data = little32 version ++ 0 :: count :: behind := by
    refine ⟨tail ++ (outputs.flatMap writeOutput ++ little32 lockTime), ?_⟩
    rw [left]
    simp [wireBytes, marker, writeInputs_nil, writeOutputs, writeWitnesses, counted]
  have from_ : (fresh start).data = little32 version ++ 0 :: count :: behind := shape
  have usual : dip2 = false := by
    have known : checkDip2 chain (fresh start) = (.ok (isDip2 chain version), fresh start) := checkDip2_eq from_
    rw [checked, normal] at known
    cases known
    rfl
  subst usual
  have flagged : flag = some count := by
    have known : isSegwitTx (fresh start) = (.ok (some count), fresh start) := isSegwitTx_eq from_
    have both := found.symm.trans known
    cases both
    rfl
  subst flagged
  cases seventh
  have known1 := (version_eq from_).symm.trans first
  cases known1
  have marked : ((tape true).advance (fresh start) (little32 version) (0 :: count :: behind)).data = marker (some count) ++ behind := rfl
  have known2 := (marker_reads marked).symm.trans second
  cases known2
  obtain ⟨number, m, sized, loop⟩ := Program.bind_ok third
  obtain ⟨c, some, dc, mc⟩ := parseSize_ok sized
  have loops : (tape true).Consumes (Program.times (fun _ => parseInput true) 0 number >>= fun inputs => pure (number, inputs)) :=
    (Tape.Consumes.times (fun _ => parseInput_consumes) number 0).bind fun _ => Tape.Consumes.pure _
  obtain ⟨b3, d3, m3⟩ := loops _ _ _ loop
  obtain ⟨b4, d4, m4⟩ := parseOutputs_consumes _ _ _ fourth
  obtain ⟨b5, d5, m5⟩ := haveWitnesses_consumes _ _ _ _ _ fifth
  obtain ⟨b6, d6, m6⟩ := parseLocktime_consumes _ _ _ sixth
  have hashed : final.txid = wireBytes version lockTime none [] plain [] := injective same
  have taken : final.txid = little32 version ++ (c ++ (b3 ++ (b4 ++ b6))) := by
    rw [m6, advance_txid, m5, advance_txid, m4, advance_txid, m3, advance_txid, mc]
    simp
  rw [hashed] at taken
  simp only [wireBytes, marker, writeInputs_nil, writeWitnesses, Option.isSome_none, Bool.false_eq_true, if_false,
    List.nil_append, List.append_cancel_left_eq] at taken
  obtain ⟨first, c, rfl⟩ := List.exists_cons_of_ne_nil some
  have zero : 0 = first := (List.cons.inj taken).1
  subst zero
  have known := (parseSize_eq (by decide : 0 < 2 ^ 64) (show _ = CompactSize.encode 0 ++ (c ++ m.data) from dc)).symm.trans sized
  obtain rfl : 0 = number := Except.ok.inj (congrArg Prod.fst known)
  obtain rfl : c = [] := List.append_left_eq_self.mp (congrArg (fun result => result.2.data) known)
  cases loop
  cases fifth
  obtain rfl : b3 = [] := List.self_eq_append_left.mp d3
  have fields : writeOutputs plain ++ little32 lockTime = b4 ++ b6 := (List.cons.inj taken).2
  have data : behind = 0 :: (b4 ++ (b6 ++ final.data)) :=
    dc.trans (congrArg (0 :: ·) (d4.trans (congrArg (b4 ++ ·) d6)))
  refine ⟨count, final.data, ?_⟩
  calc wireBytes version lockTime (Option.some count) [] plain [] ++ final.data
    _ = little32 version ++ 0 :: count :: 0 :: ((writeOutputs plain ++ little32 lockTime) ++ final.data) := by
      simp [wireBytes, marker, writeInputs_nil, writeWitnesses]
    _ = little32 version ++ 0 :: count :: behind := by rw [fields, data, List.append_assoc]
    _ = wireBytes version lockTime Option.none [] outputs [] := by rw [← shape, left]

end Opentxs.Bitcoin.Transactions.Parser
