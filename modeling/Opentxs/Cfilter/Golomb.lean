import Opentxs.Blockchain.BitStream

/-! Golomb coding of a hashed set: the differences between neighbours, each as a unary
quotient and a `p`-bit remainder. The encoder writes nothing for a difference of zero,
so what the decoder returns is the running sum of the nonzero differences, filled up
with repetitions of the last value. -/

namespace Opentxs.Cfilter.Golomb
open Library.Bits Blockchain.BitStream

abbrev Element := UInt64

def writeOnes : (quotient : Nat) → BitWriter → BitWriter
  | 0, stream => stream
  | quotient + 1, stream => writeOnes quotient (stream.write 1 1)

/-- The 32-bit mask of the source is `bitmask p` for the `p` below 32 it is defined for. -/
def golombEncodeDelta (p : Nat) (value : Element) (stream : BitWriter) : BitWriter :=
  let remainder := value.toNat &&& bitmask p
  let quotient := value.toNat >>> p
  ((writeOnes quotient stream).write 1 0).write p remainder

def golombEncodeFrom (p : Nat) : (last : Element) → List Element → BitWriter → BitWriter
  | _, [], stream => stream
  | last, item :: items, stream =>
    let delta := item - last
    golombEncodeFrom p item items (if delta ≠ 0 then golombEncodeDelta p delta stream else stream)

def golombEncode (p : Nat) (hashedSet : List Element) : Option (List UInt8) := do
  let stream ← (golombEncodeFrom p 0 hashedSet {}).flush
  some stream.output

/-- Every one bit is a bit of the stream, so the bits left bound the rounds. -/
def readOnes : (rounds quotient : Nat) → BitReader → Option (Nat × BitReader)
  | 0, _, _ => none
  | rounds + 1, quotient, stream => do
    let (bit, stream) ← stream.read 1
    if bit = 1 then readOnes rounds (quotient + 1) stream else some (quotient, stream)

def golombDecodeDelta (p : Nat) (stream : BitReader) : Option (Element × BitReader) := do
  let (quotient, stream) ← readOnes (stream.n + 8 * stream.data.length + 1) 0 stream
  let (remainder, stream) ← stream.read p
  some (UInt64.ofNat (quotient <<< p + remainder), stream)

def golombDecodeFrom (p : Nat) : (n : Nat) → (last : Element) → BitReader → Option (List Element)
  | 0, _, _ => some []
  | n + 1, last, stream => do
    let (delta, stream) ← golombDecodeDelta p stream
    let value := last + delta
    let output ← golombDecodeFrom p n value stream
    some (value :: output)

/-- The element count is a 32-bit parameter. -/
def golombDecode (n : UInt32) (p : Nat) (encoded : List UInt8) : Option (List Element) :=
  golombDecodeFrom p n.toNat 0 { data := encoded }

/-! ## Differences and running sums -/

def deltas : (last : Element) → List Element → List Element
  | _, [] => []
  | last, item :: items => (item - last) :: deltas item items

def sums : (last : Element) → List Element → List Element
  | _, [] => []
  | last, delta :: rest => (last + delta) :: sums (last + delta) rest

theorem sums_deltas (last : Element) (items : List Element) : sums last (deltas last items) = items := by
  induction items generalizing last with
  | nil => rfl
  | cons item items ih =>
    have value : last + (item - last) = item := by rw [UInt64.add_comm, UInt64.sub_add_cancel]
    simp only [deltas, sums, value, ih]

theorem deltas_sums (last : Element) (items : List Element) : deltas last (sums last items) = items := by
  induction items generalizing last with
  | nil => rfl
  | cons delta rest ih =>
    have value : last + delta - last = delta := by
      rw [UInt64.add_comm, UInt64.add_sub_cancel]
    simp only [deltas, sums, value, ih]

@[simp] theorem deltas_length (last : Element) (items : List Element) :
    (deltas last items).length = items.length := by
  induction items generalizing last with
  | nil => rfl
  | cons item items ih => simp only [deltas, List.length_cons, ih]

/-- What the decoder can see of a set: its nonzero differences, then zeros. -/
def visible (count : Nat) (items : List Element) : List Element :=
  let kept := (deltas 0 items).filter (· ≠ 0)
  kept ++ List.replicate (count - kept.length) 0

/-! ## The coded stream -/

def deltaBits (p value : Nat) : List Bool :=
  List.replicate (value / 2 ^ p) true ++ false :: ofNat p (value % 2 ^ p)

theorem writeOnes_spec (quotient : Nat) (stream : BitWriter) (valid : stream.Valid) :
    (writeOnes quotient stream).Valid ∧
      (writeOnes quotient stream).bits = stream.bits ++ List.replicate quotient true := by
  induction quotient generalizing stream with
  | zero => exact ⟨valid, (List.append_nil _).symm⟩
  | succ quotient ih =>
    obtain ⟨kept, bits⟩ := stream.write_spec valid 1 1
    obtain ⟨later, final⟩ := ih _ kept
    refine ⟨later, final.trans ?_⟩
    rw [bits, List.append_assoc]
    rfl

theorem golombEncodeDelta_spec (p : Nat) (value : Element) (stream : BitWriter)
    (valid : stream.Valid) :
    (golombEncodeDelta p value stream).Valid ∧
      (golombEncodeDelta p value stream).bits = stream.bits ++ deltaBits p value.toNat := by
  obtain ⟨validOnes, ones⟩ := writeOnes_spec (value.toNat >>> p) stream valid
  obtain ⟨validStop, stop⟩ := BitWriter.write_spec _ validOnes 1 0
  obtain ⟨kept, bits⟩ := BitWriter.write_spec _ validStop p (value.toNat &&& bitmask p)
  refine ⟨kept, bits.trans ?_⟩
  rw [stop, ones, and_bitmask, Nat.shiftRight_eq_div_pow, deltaBits]
  simp only [List.append_assoc, ofNat, Nat.zero_testBit, List.cons_append, List.nil_append]

theorem golombEncodeFrom_spec (p : Nat) (last : Element) (items : List Element) (stream : BitWriter)
    (valid : stream.Valid) :
    (golombEncodeFrom p last items stream).Valid ∧
      (golombEncodeFrom p last items stream).bits =
        stream.bits ++ ((deltas last items).filter (· ≠ 0)).flatMap (fun delta => deltaBits p delta.toNat) := by
  induction items generalizing last stream with
  | nil => exact ⟨valid, (List.append_nil _).symm⟩
  | cons item items ih =>
    by_cases changed : item - last ≠ 0
    · obtain ⟨kept, bits⟩ := golombEncodeDelta_spec p (item - last) stream valid
      obtain ⟨later, final⟩ := ih item _ kept
      simp only [golombEncodeFrom, if_pos changed]
      refine ⟨later, final.trans ?_⟩
      rw [bits, deltas, List.filter_cons_of_pos (by simpa using changed), List.flatMap_cons,
        List.append_assoc]
    · obtain ⟨later, final⟩ := ih item stream valid
      simp only [golombEncodeFrom, if_neg changed]
      refine ⟨later, final.trans ?_⟩
      rw [deltas, List.filter_cons_of_neg (by simpa using changed)]

theorem golombEncode_spec (p : Nat) (items : List Element) :
    ∃ encoded padding, golombEncode p items = some encoded ∧
      ofBytes encoded = ((deltas 0 items).filter (· ≠ 0)).flatMap (fun delta => deltaBits p delta.toNat) ++
        List.replicate padding false := by
  have start : BitWriter.Valid {} := ⟨by decide, by decide⟩
  obtain ⟨valid, bits⟩ := golombEncodeFrom_spec p 0 items {} start
  obtain ⟨final, padding, flushed, output⟩ := BitWriter.flush_spec _ valid
  refine ⟨final.output, padding, ?_, ?_⟩
  · simp only [golombEncode, flushed, Option.bind_eq_bind, Option.bind_some]
  · rw [output, bits]
    rfl

theorem read_bit (stream : BitReader) (valid : stream.Valid) (bit : Bool) (rest : List Bool)
    (bits : stream.bits = bit :: rest) :
    ∃ next, stream.read 1 = some (bit.toNat, next) ∧ next.Valid ∧ next.bits = rest := by
  obtain ⟨next, read, kept, left⟩ := stream.read_spec valid 1 (by decide) (by simp [bits])
  refine ⟨next, ?_, kept, by simpa [bits] using left⟩
  rw [read, bits]
  cases bit <;> rfl

/-- A run of ones ends at the first zero bit. -/
theorem readOnes_spec (ones rounds quotient : Nat) (stream : BitReader) (valid : stream.Valid)
    (rest : List Bool) (bits : stream.bits = List.replicate ones true ++ false :: rest)
    (enough : ones < rounds) :
    ∃ next, readOnes rounds quotient stream = some (quotient + ones, next) ∧ next.Valid ∧
      next.bits = rest := by
  induction ones generalizing rounds quotient stream with
  | zero =>
    obtain ⟨rounds, rfl⟩ := Nat.exists_eq_succ_of_ne_zero (Nat.ne_of_gt enough)
    obtain ⟨next, read, kept, left⟩ := read_bit stream valid false rest bits
    refine ⟨next, ?_, kept, left⟩
    simp [readOnes, read]
  | succ ones ih =>
    obtain ⟨rounds, rfl⟩ := Nat.exists_eq_succ_of_ne_zero (Nat.ne_of_gt (Nat.zero_lt_of_lt enough))
    obtain ⟨next, read, kept, left⟩ := read_bit stream valid true _ bits
    obtain ⟨final, more, finalKept, finalLeft⟩ := ih rounds (quotient + 1) next kept left (by omega)
    refine ⟨final, ?_, finalKept, finalLeft⟩
    simp only [readOnes, read, Option.bind_eq_bind, Option.bind_some, Bool.toNat_true, ↓reduceIte, more]
    rw [Nat.add_assoc, Nat.add_comm 1]

theorem golombDecodeDelta_spec (p : Nat) (width : p < 32) (value : Element) (stream : BitReader)
    (valid : stream.Valid) (rest : List Bool)
    (bits : stream.bits = deltaBits p value.toNat ++ rest) :
    ∃ next, golombDecodeDelta p stream = some (value, next) ∧ next.Valid ∧ next.bits = rest := by
  have split : stream.bits = List.replicate (value.toNat / 2 ^ p) true ++
      false :: (ofNat p (value.toNat % 2 ^ p) ++ rest) := by
    rw [bits, deltaBits, List.append_assoc, List.cons_append]
  have enough : value.toNat / 2 ^ p < stream.n + 8 * stream.data.length + 1 := by
    have length := congrArg List.length split
    rw [stream.bits_length, List.length_append, List.length_replicate] at length
    omega
  obtain ⟨middle, ones, middleValid, middleBits⟩ := readOnes_spec _ _ 0 stream valid _ split enough
  obtain ⟨next, read, kept, left⟩ := middle.read_spec middleValid p width
    (by simp only [middleBits, List.length_append, ofNat_length]; omega)
  have remainder : toNat (middle.bits.take p) = value.toNat % 2 ^ p := by
    rw [middleBits, List.take_left' (ofNat_length _ _), toNat_ofNat, Nat.mod_mod]
  refine ⟨next, ?_, kept, ?_⟩
  · have joined : (value.toNat / 2 ^ p) <<< p + value.toNat % 2 ^ p = value.toNat := by
      rw [Nat.shiftLeft_eq, Nat.div_add_mod']
    simp only [golombDecodeDelta, ones, Option.bind_eq_bind, Option.bind_some, read, remainder,
      Nat.zero_add, joined, UInt64.ofNat_toNat]
  · rw [left, middleBits, List.drop_left' (ofNat_length _ _)]

/-- Padding and the end of the data both decode as a difference of zero. -/
theorem golombDecodeDelta_padding (p : Nat) (width : p < 32) (padding : Nat) (stream : BitReader)
    (valid : stream.Valid) (bits : stream.bits = List.replicate padding false) :
    ∃ next left, golombDecodeDelta p stream = some (0, next) ∧ next.Valid ∧
      next.bits = List.replicate left false := by
  have ones : ∃ middle left, readOnes (stream.n + 8 * stream.data.length + 1) 0 stream = some (0, middle) ∧
      middle.Valid ∧ middle.bits = List.replicate left false := by
    cases padding with
    | zero =>
      obtain ⟨middle, read, kept, none⟩ := stream.read_past valid 1 (by decide) (by simp [bits])
      exact ⟨middle, 0, by simp [readOnes, read], kept, none⟩
    | succ padding =>
      obtain ⟨middle, read, kept, left⟩ := readOnes_spec 0 _ 0 stream valid _ bits (Nat.succ_pos _)
      exact ⟨middle, padding, read, kept, left⟩
  obtain ⟨middle, left, quotient, middleValid, middleBits⟩ := ones
  have remainder : ∃ next left, middle.read p = some (0, next) ∧ next.Valid ∧
      next.bits = List.replicate left false := by
    by_cases inside : p ≤ left
    · obtain ⟨next, read, kept, rest⟩ := middle.read_spec middleValid p width (by simpa [middleBits] using inside)
      refine ⟨next, left - p, ?_, kept, by rw [rest, middleBits, List.drop_replicate]⟩
      rw [read, middleBits, List.take_replicate, toNat_replicate_false]
    · obtain ⟨next, read, kept, none⟩ := middle.read_past middleValid p width (by simp [middleBits]; omega)
      exact ⟨next, 0, read, kept, none⟩
  obtain ⟨next, rest, read, kept, final⟩ := remainder
  exact ⟨next, rest, by simp [golombDecodeDelta, quotient, read], kept, final⟩

theorem golombDecodeFrom_spec (p : Nat) (width : p < 32) (coded : List Element) (n padding : Nat)
    (last : Element) (stream : BitReader) (valid : stream.Valid) (room : coded.length ≤ n)
    (bits : stream.bits = coded.flatMap (fun delta => deltaBits p delta.toNat) ++ List.replicate padding false) :
    golombDecodeFrom p n last stream = some (sums last (coded ++ List.replicate (n - coded.length) 0)) := by
  induction n generalizing coded padding last stream with
  | zero =>
    obtain rfl := List.eq_nil_of_length_eq_zero (Nat.le_zero.mp room)
    rfl
  | succ n ih =>
    cases coded with
    | nil =>
      obtain ⟨next, left, decoded, kept, rest⟩ := golombDecodeDelta_padding p width padding stream valid bits
      have tail := ih [] left (last + 0) next kept (Nat.zero_le _) rest
      simp only [List.length_nil, Nat.sub_zero, List.nil_append] at tail ⊢
      simp only [golombDecodeFrom, decoded, Option.bind_eq_bind, Option.bind_some, tail,
        List.replicate_succ, sums]
    | cons delta coded =>
      rw [List.flatMap_cons, List.append_assoc] at bits
      obtain ⟨next, decoded, kept, rest⟩ := golombDecodeDelta_spec p width delta stream valid _ bits
      have tail := ih coded padding (last + delta) next kept (Nat.le_of_succ_le_succ room) rest
      simp only [golombDecodeFrom, decoded, Option.bind_eq_bind, Option.bind_some, tail,
        List.length_cons, Nat.add_sub_add_right, List.cons_append, sums]

/-- What a decoder with enough room returns for any encoded set. -/
theorem golombDecode_golombEncode (p : Nat) (width : p < 32) (items : List Element) (n : UInt32)
    (room : ((deltas 0 items).filter (· ≠ 0)).length ≤ n.toNat) :
    (golombEncode p items).bind (golombDecode n p) = some (sums 0 (visible n.toNat items)) := by
  obtain ⟨encoded, padding, output, bits⟩ := golombEncode_spec p items
  have start : BitReader.Valid { data := encoded } := ⟨Nat.one_pos, Nat.zero_le _⟩
  rw [output, Option.bind_some, golombDecode]
  exact golombDecodeFrom_spec p width _ _ padding 0 _ start room bits

theorem golombDecodeFrom_length (p n : Nat) (last : Element) (stream : BitReader) (output : List Element)
    (decoded : golombDecodeFrom p n last stream = some output) : output.length = n := by
  induction n generalizing last stream output with
  | zero =>
    simp only [golombDecodeFrom, Option.some.injEq] at decoded
    rw [← decoded, List.length_nil]
  | succ n ih =>
    simp only [golombDecodeFrom, Option.bind_eq_bind, Option.bind_eq_some_iff] at decoded
    obtain ⟨⟨delta, next⟩, _, rest, tail, same⟩ := decoded
    rw [← Option.some.inj same, List.length_cons, ih _ _ _ tail]

/-! ## When the round trip holds -/

/-- An element equal to the one before it (zero before the first) is followed by equal
elements only. -/
def RepeatsLast : (last : Element) → List Element → Prop
  | _, [] => True
  | last, item :: items =>
    if item = last then ∀ later ∈ items, later = last else RepeatsLast item items

theorem sub_eq_zero_iff (item last : Element) : item - last = 0 ↔ item = last := by
  constructor
  · intro zero
    rw [← UInt64.sub_add_cancel item last, zero, UInt64.zero_add]
  · rintro rfl
    exact UInt64.sub_self item

theorem deltas_eq_zero (last : Element) (items : List Element) :
    (∀ delta ∈ deltas last items, delta = 0) ↔ ∀ later ∈ items, later = last := by
  induction items generalizing last with
  | nil => simp [deltas]
  | cons item items ih =>
    rw [deltas, List.forall_mem_cons, List.forall_mem_cons, ih, sub_eq_zero_iff]
    constructor
    · rintro ⟨rfl, rest⟩
      exact ⟨rfl, rest⟩
    · rintro ⟨rfl, rest⟩
      exact ⟨rfl, rest⟩

theorem filter_append_zeros (values : List Element) (allZero : ∀ value ∈ values, value = 0) :
    values.filter (· ≠ 0) = [] ∧ values = List.replicate values.length 0 :=
  ⟨List.filter_eq_nil_iff.mpr (fun value member => by simp [allZero value member]),
    List.eq_replicate_of_mem allZero⟩

/-- The nonzero differences come first exactly when repetitions only close the set. -/
theorem visible_eq_deltas (last : Element) (items : List Element) :
    ((deltas last items).filter (· ≠ 0) ++
        List.replicate (items.length - ((deltas last items).filter (· ≠ 0)).length) 0 = deltas last items) ↔
      RepeatsLast last items := by
  induction items generalizing last with
  | nil => simp [deltas, RepeatsLast]
  | cons item items ih =>
    by_cases same : item = last
    · subst same
      rw [RepeatsLast, if_pos rfl, ← deltas_eq_zero]
      have skipped : (deltas item (item :: items)).filter (· ≠ 0) = (deltas item items).filter (· ≠ 0) := by
        rw [deltas, UInt64.sub_self, List.filter_cons_of_neg (by simp)]
      constructor
      · intro whole
        rw [skipped, deltas, UInt64.sub_self] at whole
        cases kept : (deltas item items).filter (· ≠ 0) with
        | nil =>
          intro delta member
          by_contra nonzero
          have present : delta ∈ (deltas item items).filter (· ≠ 0) :=
            List.mem_filter.mpr ⟨member, by simpa using nonzero⟩
          rw [kept] at present
          cases present
        | cons delta rest =>
          have member : delta ∈ (deltas item items).filter (· ≠ 0) := kept ▸ List.mem_cons_self
          rw [kept, List.cons_append, List.cons.injEq] at whole
          exact absurd whole.1 (by simpa using (List.mem_filter.mp member).2)
      · intro zeros
        obtain ⟨none, all⟩ := filter_append_zeros _ zeros
        rw [skipped, none, List.nil_append, List.length_nil, Nat.sub_zero, List.length_cons,
          List.replicate_succ, deltas, UInt64.sub_self]
        conv_rhs => rw [all, deltas_length]
    · have nonzero : item - last ≠ 0 := fun zero => same ((sub_eq_zero_iff item last).mp zero)
      rw [RepeatsLast, if_neg same, ← ih, deltas, List.filter_cons_of_pos (by simpa using nonzero)]
      simp only [List.cons_append, List.length_cons, Nat.add_sub_add_right, List.cons.injEq, true_and]

/-- The coding round trips on a set exactly when its length is a 32-bit number and
repetitions stand at its end only. -/
theorem golomb_round_trip_iff (p : Nat) (width : p < 32) (items : List Element) :
    (golombEncode p items).bind (golombDecode (UInt32.ofNat items.length) p) = some items ↔
      items.length < 2 ^ 32 ∧ RepeatsLast 0 items := by
  have count : (UInt32.ofNat items.length).toNat = items.length % 2 ^ 32 := UInt32.toNat_ofNat'
  by_cases fits : items.length < 2 ^ 32
  · rw [Nat.mod_eq_of_lt fits] at count
    have room : ((deltas 0 items).filter (· ≠ 0)).length ≤ (UInt32.ofNat items.length).toNat := by
      rw [count, ← deltas_length 0 items]
      exact List.length_filter_le _ _
    rw [golombDecode_golombEncode p width items _ room, count, ← visible_eq_deltas, Option.some.injEq]
    simp only [fits, true_and]
    constructor
    · intro whole
      have difference := congrArg (deltas 0) whole
      rwa [deltas_sums] at difference
    · intro whole
      rw [visible, whole, sums_deltas]
  · constructor
    · intro whole
      obtain ⟨encoded, _, decoded⟩ := Option.bind_eq_some_iff.mp whole
      have length := golombDecodeFrom_length p _ 0 _ items decoded
      rw [count] at length
      exact absurd (length ▸ Nat.mod_lt _ (by decide)) fits
    · rintro ⟨bound, _⟩
      exact absurd bound fits

theorem golomb_round_trip_ends_equal :
    (golombEncode 5 [3, 70, 70]).bind (golombDecode (UInt32.ofNat [3, 70, 70].length) 5) = some [3, 70, 70] :=
  (golomb_round_trip_iff 5 (by decide) [3, 70, 70]).mpr ⟨by decide, by simp [RepeatsLast]⟩

/-- A leading zero is lost: the decoder sees the second element first. -/
theorem golomb_leading_zero_lost :
    ¬∀ p : Nat, 1 ≤ p → p ≤ 31 → ∀ items : List Element, items.Pairwise (· ≤ ·) →
      (golombEncode p items).bind (golombDecode (UInt32.ofNat items.length) p) = some items := by
  intro always
  have trip := always 1 le_rfl (by decide) [0, 5] (by decide)
  exact absurd trip (by decide)

/-! ## What a decoded set still contains -/

theorem mem_sums_nonzero (last : Element) (items : List Element) (above : ∀ item ∈ items, last ≤ item)
    (sorted : items.Pairwise (· ≤ ·)) (item : Element) :
    item ∈ sums last ((deltas last items).filter (· ≠ 0)) ↔ item ∈ items ∧ item ≠ last := by
  induction items generalizing last with
  | nil => simp [deltas, sums]
  | cons head items ih =>
    rw [List.pairwise_cons] at sorted
    by_cases same : head = last
    · subst same
      rw [deltas, UInt64.sub_self, List.filter_cons_of_neg (by simp), ih head sorted.1 sorted.2, List.mem_cons]
      constructor
      · intro both
        exact ⟨Or.inr both.1, both.2⟩
      · intro both
        exact ⟨both.1.resolve_left both.2, both.2⟩
    · have nonzero : head - last ≠ 0 := fun zero => same ((sub_eq_zero_iff head last).mp zero)
      have value : last + (head - last) = head := by rw [UInt64.add_comm, UInt64.sub_add_cancel]
      rw [deltas, List.filter_cons_of_pos (by simpa using nonzero), sums, value, List.mem_cons,
        ih head sorted.1 sorted.2, List.mem_cons]
      constructor
      · intro member
        rcases member with rfl | ⟨later, _⟩
        · exact ⟨Or.inl rfl, same⟩
        · refine ⟨Or.inr later, ?_⟩
          intro equal
          subst equal
          exact same (UInt64.le_antisymm (sorted.1 _ later) (above head List.mem_cons_self))
      · intro member
        by_cases first : item = head
        · exact Or.inl first
        · exact Or.inr ⟨member.1.resolve_left first, first⟩

theorem mem_sums_replicate (last : Element) (count : Nat) (item : Element) :
    item ∈ sums last (List.replicate count 0) ↔ 0 < count ∧ item = last := by
  induction count with
  | zero => simp [sums]
  | succ count ih =>
    rw [List.replicate_succ, sums, UInt64.add_zero, List.mem_cons, ih]
    constructor
    · intro member
      rcases member with same | ⟨_, same⟩
      · exact ⟨Nat.succ_pos _, same⟩
      · exact ⟨Nat.succ_pos _, same⟩
    · intro both
      exact Or.inl both.2

theorem mem_sums_padded (last : Element) (kept : List Element) (count : Nat) (present : kept ≠ [])
    (item : Element) : item ∈ sums last (kept ++ List.replicate count 0) ↔ item ∈ sums last kept := by
  induction kept generalizing last with
  | nil => exact absurd rfl present
  | cons delta kept ih =>
    rw [List.cons_append, sums, sums, List.mem_cons, List.mem_cons]
    cases kept with
    | nil =>
      rw [List.nil_append, mem_sums_replicate, sums]
      simp only [List.not_mem_nil, or_false, or_iff_left_iff_imp]
      intro both
      exact both.2
    | cons next kept => rw [ih _ (List.cons_ne_nil _ _)]

/-- A decoded set has the nonzero elements of the encoded one; zero survives only in a
set of zeros. -/
theorem mem_sums_visible (items : List Element) (sorted : items.Pairwise (· ≤ ·)) (item : Element) :
    item ∈ sums 0 (visible items.length items) ↔
      item ∈ items ∧ (item ≠ 0 ∨ ∀ other ∈ items, other = 0) := by
  have above : ∀ other ∈ items, 0 ≤ other := by
    intro other _
    rw [UInt64.le_iff_toNat_le]
    exact Nat.zero_le _
  have nonzero := mem_sums_nonzero 0 items above sorted item
  rw [visible]
  by_cases empty : (deltas 0 items).filter (· ≠ 0) = []
  · have zeros : ∀ other ∈ items, other = 0 := by
      rw [← deltas_eq_zero]
      intro delta member
      by_contra different
      exact List.ne_nil_of_mem (List.mem_filter.mpr ⟨member, by simpa using different⟩) empty
    rw [empty, List.nil_append, List.length_nil, Nat.sub_zero, mem_sums_replicate]
    constructor
    · intro both
      obtain ⟨other, member⟩ := List.exists_mem_of_length_pos both.1
      exact ⟨both.2 ▸ zeros other member ▸ member, Or.inr zeros⟩
    · intro both
      exact ⟨List.length_pos_of_mem both.1, zeros item both.1⟩
  · rw [mem_sums_padded 0 _ _ empty, nonzero]
    apply and_congr_right
    intro member
    constructor
    · intro different
      exact Or.inl different
    · intro either
      rcases either with different | zeros
      · exact different
      · exfalso
        apply empty
        exact (filter_append_zeros _ ((deltas_eq_zero 0 items).mpr zeros)).1

/-- Reading a remainder of 32 bits or more fails an assertion. -/
theorem golombDecodeFrom_wide (p n : Nat) (last : Element) (stream : BitReader) (wide : 32 ≤ p) (some_left : 0 < n) :
    golombDecodeFrom p n last stream = none := by
  obtain ⟨n, rfl⟩ := Nat.exists_eq_succ_of_ne_zero (Nat.ne_of_gt some_left)
  have fails : ∀ reader : BitReader, reader.read p = none := by
    intro reader
    rw [BitReader.read, if_neg (Nat.not_lt.mpr wide)]
  have delta : golombDecodeDelta p stream = none := by
    rw [golombDecodeDelta]
    cases readOnes (stream.n + 8 * stream.data.length + 1) 0 stream with
    | none => rfl
    | some found => simp [fails]
  rw [golombDecodeFrom, delta]
  rfl

end Opentxs.Cfilter.Golomb
