import Opentxs.Library.Bits
import Mathlib.Tactic.Linarith

/-! The bit reader and writer that the compact filters are coded with. Both hold a
64-bit accumulator of which the low `n` bits are pending; the reader refills it a word
at a time, the writer drains it a byte at a time. -/

namespace Opentxs.Blockchain.BitStream
open Library.Bits

def accumBits : Nat := 64

def bitmask (n : Nat) : Nat := (1 <<< n) - 1

theorem and_bitmask (value n : Nat) : value &&& bitmask n = value % 2 ^ n := by
  rw [bitmask, Nat.one_shiftLeft, Nat.and_two_pow_sub_one_eq_mod]

/-- Filling the gap that a shift leaves is addition. -/
theorem shiftLeft_or (upper lower n : Nat) (small : lower < 2 ^ n) :
    upper <<< n ||| lower = upper * 2 ^ n + lower := by
  rw [← Nat.shiftLeft_add_eq_or_of_lt small, Nat.shiftLeft_eq]

theorem shiftLeft_word_or (upper lower n : Nat) (fits : upper * 2 ^ n < 2 ^ accumBits)
    (small : lower < 2 ^ n) :
    (upper <<< n) % 2 ^ accumBits ||| lower = upper * 2 ^ n + lower := by
  rw [Nat.mod_eq_of_lt (by rwa [Nat.shiftLeft_eq]), shiftLeft_or _ _ _ small]

structure BitReader where
  data : List UInt8
  accum : Nat := 0
  n : Nat := 0
  deriving DecidableEq, Repr

/-- Four bytes at a time while more than four are left, then single bytes. -/
def BitReader.refill (reader : BitReader) : Option BitReader :=
  if reader.n ≠ 0 then some reader
  else match reader.data with
    | b0 :: b1 :: b2 :: b3 :: next :: rest =>
      some { data := next :: rest, n := reader.n + 32,
             accum := (b0.toNat <<< 24) ||| (b1.toNat <<< 16) ||| (b2.toNat <<< 8) ||| b3.toNat }
    | byte :: rest => some { data := rest, accum := byte.toNat, n := reader.n + 8 }
    | [] => none

/-- Every round takes at least one bit, so `nbits` rounds are enough. At the end of the
data the bits read so far are dropped and zero is returned. -/
def BitReader.readLoop : (rounds nbits ret : Nat) → BitReader → Nat × BitReader
  | 0, _, ret, reader => (ret, reader)
  | rounds + 1, nbits, ret, reader =>
    if nbits = 0 then (ret, reader)
    else match reader.refill with
      | none => (0, reader)
      | some reader =>
        let toread := min reader.n nbits
        let ret := (ret <<< toread) % 2 ^ accumBits ||| (reader.accum >>> (reader.n - toread))
        let n := reader.n - toread
        readLoop rounds (nbits - toread) ret { reader with n, accum := reader.accum &&& bitmask n }

/-- `none` is the failed assertion `nbits < 32`. -/
def BitReader.read (reader : BitReader) (nbits : Nat) : Option (Nat × BitReader) :=
  if nbits < 32 then some (reader.readLoop nbits nbits 0) else none

structure BitWriter where
  output : List UInt8 := []
  accum : Nat := 0
  n : Nat := 0
  deriving DecidableEq, Repr

def BitWriter.emit (writer : BitWriter) : BitWriter :=
  let result := (writer.accum >>> (writer.n - 8)) &&& bitmask 8
  let n := writer.n - 8
  { output := writer.output ++ [UInt8.ofNat result], n, accum := writer.accum &&& bitmask n }

def BitWriter.drain : (rounds : Nat) → BitWriter → BitWriter
  | 0, writer => writer
  | rounds + 1, writer => if 8 ≤ writer.n then drain rounds writer.emit else writer

def BitWriter.writeLoop : (rounds nbits value : Nat) → BitWriter → BitWriter
  | 0, _, _, writer => writer
  | rounds + 1, nbits, value, writer =>
    if nbits = 0 then writer
    else
      let nb := min (accumBits - writer.n) nbits
      let value := value &&& bitmask nbits
      let accum := (writer.accum <<< nb) % 2 ^ accumBits ||| (value >>> (nbits - nb))
      let n := writer.n + nb
      writeLoop rounds (nbits - nb) value (drain n { writer with accum, n })

def BitWriter.write (writer : BitWriter) (nbits value : Nat) : BitWriter :=
  writer.writeLoop nbits nbits value

/-- `none` is the failed assertion that fewer than eight bits are pending. -/
def BitWriter.flush (writer : BitWriter) : Option BitWriter :=
  if writer.n = 0 then some writer
  else if writer.n < 8 then
    let result := ((writer.accum &&& bitmask writer.n) <<< (8 - writer.n)) % 2 ^ 8
    some { output := writer.output ++ [UInt8.ofNat result], accum := 0, n := 0 }
  else none

/-! The accumulator never holds a bit above position `n`. -/

def BitReader.Valid (reader : BitReader) : Prop := reader.accum < 2 ^ reader.n ∧ reader.n ≤ 32

def BitReader.bits (reader : BitReader) : List Bool :=
  ofNat reader.n reader.accum ++ ofBytes reader.data

theorem BitReader.bits_length (reader : BitReader) :
    reader.bits.length = reader.n + 8 * reader.data.length := by
  rw [BitReader.bits, List.length_append, ofNat_length, ofBytes_length]

theorem BitReader.refill_word (b0 b1 b2 b3 : UInt8) :
    (b0.toNat <<< 24) ||| (b1.toNat <<< 16) ||| (b2.toNat <<< 8) ||| b3.toNat =
      ((b0.toNat * 2 ^ 8 + b1.toNat) * 2 ^ 8 + b2.toNat) * 2 ^ 8 + b3.toNat := by
  have h1 := b1.toNat_lt
  have h2 := b2.toNat_lt
  have h3 := b3.toNat_lt
  rw [Nat.or_assoc, Nat.or_assoc, shiftLeft_or _ b3.toNat 8 h3, shiftLeft_or _ _ 16 (by omega),
    shiftLeft_or _ _ 24 (by omega)]
  omega

theorem BitReader.refill_spec (reader : BitReader) (valid : reader.Valid) :
    (reader.refill = none ∧ reader.bits = []) ∨
      ∃ full, reader.refill = some full ∧ full.Valid ∧ 0 < full.n ∧ full.bits = reader.bits := by
  obtain ⟨data, accum, n⟩ := reader
  by_cases empty : n = 0
  · subst empty
    match data with
    | [] => exact Or.inl ⟨rfl, rfl⟩
    | b0 :: b1 :: b2 :: b3 :: next :: rest =>
      have h0 := b0.toNat_lt
      have h1 := b1.toNat_lt
      have h2 := b2.toNat_lt
      have h3 := b3.toNat_lt
      refine Or.inr ⟨_, rfl, ?_, Nat.succ_pos _, ?_⟩
      · refine ⟨?_, le_rfl⟩
        simp only [refill_word]
        omega
      · simp only [bits, ofBytes_cons, refill_word, Nat.zero_add]
        rw [← ofNat_append 24 8 _ _ h3, ← ofNat_append 16 8 _ _ h2, ← ofNat_append 8 8 _ _ h1]
        simp only [List.append_assoc, ofNat, List.nil_append]
    | [b0] | [b0, b1] | [b0, b1, b2] | [b0, b1, b2, b3] =>
      have small : b0.toNat < 2 ^ (0 + 8) := b0.toNat_lt
      exact Or.inr ⟨_, rfl, ⟨small, (by decide : 0 + 8 ≤ 32)⟩, Nat.succ_pos _, rfl⟩
  · exact Or.inr ⟨_, by simp only [refill, ne_eq, empty, not_false_eq_true, ↓reduceIte], valid,
      Nat.pos_of_ne_zero empty, rfl⟩

/-- What one round moves from the accumulator into the result. -/
theorem BitReader.take_bits (reader : BitReader) (valid : reader.Valid) (toread : Nat)
    (bound : toread ≤ reader.n) :
    reader.accum >>> (reader.n - toread) = toNat (reader.bits.take toread) ∧
      BitReader.bits { reader with n := reader.n - toread,
                                   accum := reader.accum &&& bitmask (reader.n - toread) } =
        reader.bits.drop toread := by
  have inside : toread ≤ (ofNat reader.n reader.accum).length := by rwa [ofNat_length]
  constructor
  · rw [bits, List.take_append_of_le_length inside, toNat_take _ _ _ bound valid.1,
      Nat.shiftRight_eq_div_pow]
  · rw [bits, bits, List.drop_append_of_le_length inside, drop_ofNat _ _ _ bound]
    simp only [and_bitmask, ofNat_mod]

theorem BitReader.readLoop_spec (rounds nbits ret : Nat) (reader : BitReader)
    (valid : reader.Valid) (enough : nbits ≤ rounds) (fits : (ret + 1) * 2 ^ nbits ≤ 2 ^ accumBits) :
    (reader.readLoop rounds nbits ret).2.Valid ∧
    (nbits ≤ reader.bits.length →
      (reader.readLoop rounds nbits ret).1 = ret * 2 ^ nbits + toNat (reader.bits.take nbits) ∧
      (reader.readLoop rounds nbits ret).2.bits = reader.bits.drop nbits) ∧
    (reader.bits.length < nbits →
      (reader.readLoop rounds nbits ret).1 = 0 ∧ (reader.readLoop rounds nbits ret).2.bits = []) := by
  induction rounds generalizing nbits ret reader with
  | zero =>
    obtain rfl : nbits = 0 := Nat.le_zero.mp enough
    simp [readLoop, valid]
  | succ rounds ih =>
    by_cases done : nbits = 0
    · subst done
      simp [readLoop, valid]
    · rcases reader.refill_spec valid with ⟨none, empty⟩ | ⟨full, some, fullValid, positive, same⟩
      · simp only [readLoop, done, ↓reduceIte, none, empty, List.length_nil]
        exact ⟨valid, fun bound => absurd bound (by omega), fun _ => ⟨trivial, trivial⟩⟩
      · have toreadPos : 0 < min full.n nbits := by omega
        have toreadLe : min full.n nbits ≤ full.n := Nat.min_le_left _ _
        generalize chosen : min full.n nbits = toread at toreadPos toreadLe
        have toreadBits : toread ≤ nbits := by omega
        obtain ⟨shifted, dropped⟩ := full.take_bits fullValid toread toreadLe
        have power : 2 ^ nbits = 2 ^ toread * 2 ^ (nbits - toread) := by
          rw [← pow_add, Nat.add_sub_cancel' toreadBits]
        have taken : toNat (full.bits.take toread) < 2 ^ toread := by
          have bound := toNat_lt (full.bits.take toread)
          have length : (full.bits.take toread).length = toread := by
            rw [List.length_take, full.bits_length]
            omega
          rwa [length] at bound
        have room : (ret + 1) * 2 ^ toread ≤ 2 ^ accumBits := by
          refine le_trans ?_ fits
          exact Nat.mul_le_mul_left _ (Nat.pow_le_pow_right (by decide) toreadBits)
        have merged : (ret <<< toread) % 2 ^ accumBits ||| (full.accum >>> (full.n - toread)) =
            ret * 2 ^ toread + toNat (full.bits.take toread) := by
          rw [shifted]
          apply shiftLeft_word_or _ _ _ _ taken
          have expand : (ret + 1) * 2 ^ toread = ret * 2 ^ toread + 2 ^ toread := by ring
          omega
        have nextValid : BitReader.Valid { full with n := full.n - toread, accum := full.accum &&& bitmask (full.n - toread) } := by
          constructor
          · simp only [and_bitmask]
            exact Nat.mod_lt _ (Nat.two_pow_pos _)
          · have := fullValid.2
            show full.n - toread ≤ 32
            omega
        have nextFits : (ret * 2 ^ toread + toNat (full.bits.take toread) + 1) * 2 ^ (nbits - toread) ≤
            2 ^ accumBits := by
          refine le_trans ?_ fits
          rw [power, ← Nat.mul_assoc]
          apply Nat.mul_le_mul_right
          have expand : (ret + 1) * 2 ^ toread = ret * 2 ^ toread + 2 ^ toread := by ring
          omega
        obtain ⟨kept, success, failure⟩ := ih (nbits - toread) (ret * 2 ^ toread + toNat (full.bits.take toread)) _
          nextValid (by omega) nextFits
        rw [dropped] at success failure
        simp only [readLoop, done, ↓reduceIte, some, chosen, merged]
        refine ⟨kept, fun bound => ?_, fun short => ?_⟩
        · rw [← same] at bound ⊢
          have inside : nbits - toread ≤ (full.bits.drop toread).length := by
            rw [List.length_drop]
            omega
          obtain ⟨value, rest⟩ := success inside
          refine ⟨?_, ?_⟩
          · have pieces : full.bits.take nbits =
                full.bits.take toread ++ (full.bits.drop toread).take (nbits - toread) := by
              rw [← List.take_add, Nat.add_sub_cancel' toreadBits]
            have length : ((full.bits.drop toread).take (nbits - toread)).length = nbits - toread := by
              rw [List.length_take, List.length_drop]
              omega
            rw [value, pieces, toNat_append, length, power]
            ring
          · rw [rest, List.drop_drop, Nat.add_sub_cancel' toreadBits]
        · rw [← same] at short
          have inside : toread ≤ full.bits.length := by
            rw [full.bits_length]
            omega
          apply failure
          rw [List.length_drop]
          omega

/-- Reading inside the data returns the next field. -/
theorem BitReader.read_spec (reader : BitReader) (valid : reader.Valid) (nbits : Nat)
    (width : nbits < 32) (bound : nbits ≤ reader.bits.length) :
    ∃ next, reader.read nbits = some (toNat (reader.bits.take nbits), next) ∧ next.Valid ∧
      next.bits = reader.bits.drop nbits := by
  have fits : (0 + 1) * 2 ^ nbits ≤ 2 ^ accumBits := by
    rw [Nat.zero_add, Nat.one_mul]
    exact Nat.pow_le_pow_right (by decide) (by unfold accumBits; omega)
  obtain ⟨kept, success, _⟩ := reader.readLoop_spec nbits nbits 0 valid le_rfl fits
  obtain ⟨value, rest⟩ := success bound
  rw [Nat.zero_mul, Nat.zero_add] at value
  exact ⟨_, by rw [read, if_pos width, ← value], kept, rest⟩

/-- Reading past the data returns zero and leaves nothing. -/
theorem BitReader.read_past (reader : BitReader) (valid : reader.Valid) (nbits : Nat)
    (width : nbits < 32) (short : reader.bits.length < nbits) :
    ∃ next, reader.read nbits = some (0, next) ∧ next.Valid ∧ next.bits = [] := by
  have fits : (0 + 1) * 2 ^ nbits ≤ 2 ^ accumBits := by
    rw [Nat.zero_add, Nat.one_mul]
    exact Nat.pow_le_pow_right (by decide) (by unfold accumBits; omega)
  obtain ⟨kept, _, failure⟩ := reader.readLoop_spec nbits nbits 0 valid le_rfl fits
  obtain ⟨value, rest⟩ := failure short
  refine ⟨_, ?_, kept, rest⟩
  rw [read, if_pos width]
  exact congrArg some (Prod.ext value rfl)

def BitWriter.Valid (writer : BitWriter) : Prop :=
  writer.accum < 2 ^ writer.n ∧ writer.n < 8

def BitWriter.bits (writer : BitWriter) : List Bool :=
  ofBytes writer.output ++ ofNat writer.n writer.accum

theorem BitWriter.emit_spec (writer : BitWriter) (full : 8 ≤ writer.n) :
    writer.emit.n = writer.n - 8 ∧ writer.emit.accum < 2 ^ writer.emit.n ∧
      writer.emit.bits = writer.bits := by
  obtain ⟨rest, width⟩ := Nat.exists_eq_add_of_le full
  have cut : writer.n - 8 = rest := by omega
  refine ⟨rfl, ?_, ?_⟩
  · simp only [emit, and_bitmask]
    exact Nat.mod_lt _ (Nat.two_pow_pos _)
  · have byte : (UInt8.ofNat (writer.accum / 2 ^ rest % 2 ^ 8)).toNat =
        writer.accum / 2 ^ rest % 2 ^ 8 := by
      rw [UInt8.toNat_ofNat']
      exact Nat.mod_mod_of_dvd _ (dvd_refl _)
    simp only [bits, emit, and_bitmask, cut, Nat.shiftRight_eq_div_pow, ofBytes_append,
      ofBytes_cons, ofBytes_nil, List.append_nil, byte, ofNat_mod]
    rw [width, ofNat_add, List.append_assoc]

theorem BitWriter.drain_spec (rounds : Nat) (writer : BitWriter)
    (small : writer.accum < 2 ^ writer.n) (enough : writer.n ≤ rounds) :
    (drain rounds writer).Valid ∧ (drain rounds writer).bits = writer.bits := by
  induction rounds generalizing writer with
  | zero =>
    have none : writer.n = 0 := Nat.le_zero.mp enough
    exact ⟨⟨small, by show writer.n < 8; omega⟩, rfl⟩
  | succ rounds ih =>
    by_cases full : 8 ≤ writer.n
    · obtain ⟨n, kept, same⟩ := writer.emit_spec full
      obtain ⟨valid, bits⟩ := ih writer.emit kept (by omega)
      simp only [drain, if_pos full]
      exact ⟨valid, bits.trans same⟩
    · simp only [drain, if_neg full]
      exact ⟨⟨small, by omega⟩, trivial⟩

theorem BitWriter.writeLoop_spec (rounds nbits value : Nat) (writer : BitWriter)
    (valid : writer.Valid) (enough : nbits ≤ rounds) :
    (writer.writeLoop rounds nbits value).Valid ∧
      (writer.writeLoop rounds nbits value).bits = writer.bits ++ ofNat nbits value := by
  induction rounds generalizing nbits value writer with
  | zero =>
    obtain rfl : nbits = 0 := Nat.le_zero.mp enough
    exact ⟨valid, (List.append_nil _).symm⟩
  | succ rounds ih =>
    by_cases done : nbits = 0
    · subst done
      exact ⟨valid, (List.append_nil _).symm⟩
    · obtain ⟨small, pending⟩ := valid
      have nbPos : 0 < min (accumBits - writer.n) nbits := by unfold accumBits; omega
      have nbRoom : writer.n + min (accumBits - writer.n) nbits ≤ accumBits := by
        unfold accumBits; omega
      generalize chosen : min (accumBits - writer.n) nbits = nb at nbPos nbRoom
      have nbLe : nb ≤ nbits := by omega
      obtain ⟨rest, width⟩ := Nat.exists_eq_add_of_le nbLe
      have cut : nbits - nb = rest := by omega
      have upper : value % 2 ^ nbits / 2 ^ rest < 2 ^ nb := by
        rw [Nat.div_lt_iff_lt_mul (Nat.two_pow_pos rest), ← pow_add, ← width]
        exact Nat.mod_lt _ (Nat.two_pow_pos _)
      have merged : (writer.accum <<< nb) % 2 ^ accumBits ||| (value % 2 ^ nbits / 2 ^ rest) =
          writer.accum * 2 ^ nb + value % 2 ^ nbits / 2 ^ rest := by
        apply shiftLeft_word_or _ _ _ _ upper
        calc
          writer.accum * 2 ^ nb < 2 ^ writer.n * 2 ^ nb :=
            Nat.mul_lt_mul_of_pos_right small (Nat.two_pow_pos nb)
          _ = 2 ^ (writer.n + nb) := (pow_add _ _ _).symm
          _ ≤ 2 ^ accumBits := Nat.pow_le_pow_right (by decide) nbRoom
      have grown : writer.accum * 2 ^ nb + value % 2 ^ nbits / 2 ^ rest < 2 ^ (writer.n + nb) := by
        rw [pow_add]
        have scaled := Nat.mul_le_mul_right (2 ^ nb) (Nat.succ_le_of_lt small)
        rw [Nat.succ_mul] at scaled
        omega
      obtain ⟨drained, same⟩ := drain_spec (writer.n + nb)
        { writer with accum := writer.accum * 2 ^ nb + value % 2 ^ nbits / 2 ^ rest, n := writer.n + nb }
        grown le_rfl
      obtain ⟨kept, bits⟩ := ih (nbits - nb) (value % 2 ^ nbits) _ drained (by omega)
      simp only [writeLoop, done, ↓reduceIte, chosen, and_bitmask, Nat.shiftRight_eq_div_pow, cut,
        merged] at kept bits ⊢
      refine ⟨kept, bits.trans ?_⟩
      rw [same, BitWriter.bits, BitWriter.bits, ← ofNat_append _ _ _ _ upper,
        List.append_assoc, List.append_assoc, List.append_assoc, width, ← ofNat_add, ofNat_mod]

/-- Writing appends one field to the stream. -/
theorem BitWriter.write_spec (writer : BitWriter) (valid : writer.Valid) (nbits value : Nat) :
    (writer.write nbits value).Valid ∧
      (writer.write nbits value).bits = writer.bits ++ ofNat nbits value :=
  writer.writeLoop_spec nbits nbits value valid le_rfl

/-- The last byte is filled up with zero bits. -/
theorem BitWriter.flush_spec (writer : BitWriter) (valid : writer.Valid) :
    ∃ final padding, writer.flush = some final ∧
      ofBytes final.output = writer.bits ++ List.replicate padding false := by
  obtain ⟨small, pending⟩ := valid
  by_cases none : writer.n = 0
  · refine ⟨writer, 0, by simp only [flush, none, ↓reduceIte], ?_⟩
    simp only [bits, none, ofNat, List.append_nil, List.replicate_zero]
  · have byte : (writer.accum * 2 ^ (8 - writer.n)) < 2 ^ 8 := by
      have power : 2 ^ writer.n * 2 ^ (8 - writer.n) = 2 ^ 8 := by
        rw [← pow_add, Nat.add_sub_cancel' (Nat.le_of_lt pending)]
      rw [← power]
      exact Nat.mul_lt_mul_of_pos_right small (Nat.two_pow_pos _)
    have masked : ((writer.accum &&& bitmask writer.n) <<< (8 - writer.n)) % 2 ^ 8 =
        writer.accum * 2 ^ (8 - writer.n) := by
      rw [and_bitmask, Nat.mod_eq_of_lt small, Nat.shiftLeft_eq, Nat.mod_eq_of_lt byte]
    refine ⟨_, 8 - writer.n, by simp only [flush, none, ↓reduceIte, pending]; rfl, ?_⟩
    have value : (UInt8.ofNat (writer.accum * 2 ^ (8 - writer.n))).toNat =
        writer.accum * 2 ^ (8 - writer.n) := by
      rw [UInt8.toNat_ofNat']
      exact Nat.mod_eq_of_lt byte
    have joined := ofNat_append writer.n (8 - writer.n) writer.accum 0 (Nat.two_pow_pos _)
    rw [Nat.add_sub_cancel' (Nat.le_of_lt pending), Nat.add_zero, ofNat_zero] at joined
    simp only [masked, ofBytes_append, ofBytes_cons, ofBytes_nil, List.append_nil, value, bits,
      ← joined, List.append_assoc]

/-! ## A stream of fields -/

/-- Each field is a number of bits and a value. -/
def BitWriter.writeAll (writer : BitWriter) (fields : List (Nat × Nat)) : BitWriter :=
  fields.foldl (fun writer field => writer.write field.1 field.2) writer

def BitReader.readAll : List Nat → BitReader → Option (List Nat × BitReader)
  | [], reader => some ([], reader)
  | nbits :: rest, reader => do
    let (value, reader) ← reader.read nbits
    let (values, reader) ← reader.readAll rest
    some (value :: values, reader)

def fieldBits (fields : List (Nat × Nat)) : List Bool := fields.flatMap fun field => ofNat field.1 field.2

theorem BitWriter.writeAll_spec (fields : List (Nat × Nat)) (writer : BitWriter) (valid : writer.Valid) :
    (writer.writeAll fields).Valid ∧ (writer.writeAll fields).bits = writer.bits ++ fieldBits fields := by
  induction fields generalizing writer with
  | nil => exact ⟨valid, (List.append_nil _).symm⟩
  | cons field fields ih =>
    obtain ⟨kept, bits⟩ := writer.write_spec valid field.1 field.2
    obtain ⟨later, final⟩ := ih (writer.write field.1 field.2) kept
    refine ⟨later, ?_⟩
    show ((writer.write field.1 field.2).writeAll fields).bits = writer.bits ++ (ofNat field.1 field.2 ++ fieldBits fields)
    rw [final, bits, List.append_assoc]

/-- Fields are read in their order, whatever follows them. -/
theorem BitReader.readAll_spec (fields : List (Nat × Nat)) (fitting : ∀ field ∈ fields, field.1 < 32 ∧ field.2 < 2 ^ field.1)
    (reader : BitReader) (valid : reader.Valid) (rest : List Bool) (bits : reader.bits = fieldBits fields ++ rest) :
    ∃ final, reader.readAll (fields.map Prod.fst) = some (fields.map Prod.snd, final) ∧ final.Valid ∧ final.bits = rest := by
  induction fields generalizing reader with
  | nil => exact ⟨reader, rfl, valid, bits⟩
  | cons field fields ih =>
    obtain ⟨width, small⟩ := fitting field List.mem_cons_self
    have here : reader.bits = ofNat field.1 field.2 ++ (fieldBits fields ++ rest) := by
      rw [bits, ← List.append_assoc]
      rfl
    have enough : field.1 ≤ reader.bits.length := by
      rw [here, List.length_append, ofNat_length]
      exact Nat.le_add_right _ _
    obtain ⟨next, read, kept, left⟩ := reader.read_spec valid field.1 width enough
    rw [here, List.take_left' (ofNat_length _ _), toNat_ofNat, Nat.mod_eq_of_lt small] at read
    rw [here, List.drop_left' (ofNat_length _ _)] at left
    obtain ⟨final, more, finalKept, finalLeft⟩ := ih (fun other member => fitting other (List.mem_cons_of_mem _ member)) next kept left
    refine ⟨final, ?_, finalKept, finalLeft⟩
    calc
      reader.readAll ((field :: fields).map Prod.fst) = (reader.read field.1).bind fun one =>
          (one.2.readAll (fields.map Prod.fst)).bind fun others => some (one.1 :: others.1, others.2) := rfl
      _ = (next.readAll (fields.map Prod.fst)).bind fun others => some (field.2 :: others.1, others.2) := by rw [read, Option.bind_some]
      _ = _ := by rw [more, Option.bind_some, List.map_cons]

/-- The padding of the last byte is left unread. -/
theorem fields_read_back (fields : List (Nat × Nat)) (fitting : ∀ field ∈ fields, (1 ≤ field.1 ∧ field.1 ≤ 31) ∧ field.2 < 2 ^ field.1) :
    ∃ writer reader, (BitWriter.writeAll {} fields).flush = some writer ∧
      BitReader.readAll (fields.map Prod.fst) { data := writer.output } = some (fields.map Prod.snd, reader) := by
  have start : BitWriter.Valid {} := ⟨by decide, by decide⟩
  obtain ⟨valid, bits⟩ := BitWriter.writeAll_spec fields {} start
  obtain ⟨writer, padding, flushed, output⟩ := BitWriter.flush_spec _ valid
  have begin : BitReader.Valid { data := writer.output } := ⟨by show 0 < 2 ^ 0; decide, by show 0 ≤ 32; decide⟩
  have whole : BitReader.bits { data := writer.output } = fieldBits fields ++ List.replicate padding false := output.trans (by rw [bits]; rfl)
  obtain ⟨reader, read, _, _⟩ := BitReader.readAll_spec fields
    (fun field member => ⟨Nat.lt_succ_of_le (fitting field member).1.2, (fitting field member).2⟩) _ begin _ whole
  exact ⟨writer, reader, flushed, read⟩

/-- Five bytes, so that four are left when the second field begins. -/
theorem five_bytes_read_back : ∃ writer reader, (BitWriter.writeAll {} [(8, 171), (31, 2147483647), (1, 0)]).flush = some writer ∧
    BitReader.readAll [8, 31, 1] { data := writer.output } = some ([171, 2147483647, 0], reader) :=
  fields_read_back [(8, 171), (31, 2147483647), (1, 0)] (by decide)

end Opentxs.Blockchain.BitStream
