import Opentxs.Bitcoin.Reproduction
import Opentxs.HeaderOracle.CompactTarget
import Opentxs.Library.Merkle

/-! The parser of blocks: a checking run that keeps nothing and a constructing run that makes the block, and what a
block that was accepted is bound to by its hash. -/

namespace Opentxs.Bitcoin.Blocks
open Library Library.Endian Blockchain Opentxs.Bitcoin.Transactions
open Cashtoken (FixedByteArray)

abbrev Hash : Type := FixedByteArray 32

/-- The hash functions of a chain. -/
structure BlockHashing extends Hashing Hash where
  blockHash : Bytes → Hash
  merkleHash : Bytes → Hash
  proofOfWorkHash : Bytes → Bytes

section Parsing

variable (hashing : BlockHashing) (chain : ChainParameters)

/-! ## The merkle tree -/

def calculateMerkleHash (pair : Hash × Hash) : Hash := hashing.merkleHash (pair.1.val ++ pair.2.val)

def calculateMerkleRow (txids : List Hash) : List Hash := Merkle.row (calculateMerkleHash hashing) txids

/-- Rows are calculated until one has a single hash. -/
def calculateMerkleValue (txids : List Hash) : Hash :=
  (Merkle.climb (calculateMerkleRow hashing) txids.length txids).headD hashing.blank

/-! ## Parsing -/

/-- The checking run keeps no outputs, and so it does not look for their tokens. -/
inductive Mode
  | checking
  | constructing
deriving DecidableEq

def Mode.parameters (mode : Mode) (chain : ChainParameters) : ChainParameters :=
  match mode with
  | .checking => { chain with cashtoken := false }
  | .constructing => chain

def merkleRoot (header : Bytes) : Bytes := (header.drop 36).take 32

/-- A header is valid if its proof of work is. -/
def checkHeader (header : Bytes) : Bool :=
  HeaderOracle.CompactTarget.Header.checkPow
    { pow := hashing.proofOfWorkHash header, nbits := UInt32.ofNat (ofLittle ((header.drop 72).take 4)) }

def parseTransactions (chain : ChainParameters) (count : Nat) : Parser (List (EncodedTransaction Hash)) :=
  Program.times (fun position => Parser.parseNextTransaction hashing.toHashing chain (position = 0)) 0 count

def calculateCommitment (wtxids : List Hash) (reserved : Bytes) : Hash :=
  hashing.blockHash ((calculateMerkleValue hashing wtxids).val ++ reserved)

/-- With a segwit transaction there has to be a commitment, and the reserved value that it is made with. -/
def compareSegwit (transactions : List (EncodedTransaction Hash)) (state : ParserState) : Bool :=
  transactions.all (·.segwitFlag.isNone) ||
    match state.segwitCommitment, state.witnessReservedValue with
    | some commitment, some reserved => commitment = (calculateCommitment hashing (transactions.map (·.wtxid)) reserved).val
    | _, _ => false

structure ParsedBlock where
  header : Bytes
  transactions : List (EncodedTransaction Hash)

def ParsedBlock.txids (parsed : ParsedBlock) : List Hash := parsed.transactions.map (·.txid)

/-- Without an expected hash the hash is not compared. Bytes behind the transactions are not looked at. -/
def parse (mode : Mode) (expected : Option Hash) (bytes : Bytes) : Option ParsedBlock := do
  guard (80 ≤ bytes.length)
  guard (mode = .constructing → checkHeader hashing (bytes.take 80) = true)
  guard (∀ hash ∈ expected, hash = hashing.blockHash (bytes.take 80))
  let count ← (CompactSize.decodeCompactSize (bytes.drop 80)).1
  let ran := parseTransactions hashing (mode.parameters chain) count { data := (CompactSize.decodeCompactSize (bytes.drop 80)).2 }
  let transactions ← ran.1.toOption
  guard (merkleRoot (bytes.take 80) = (calculateMerkleValue hashing (transactions.map (·.txid))).val)
  guard (compareSegwit hashing transactions ran.2 = true)
  some { header := bytes.take 80, transactions }

/-- Whether the bytes are the block. -/
def check (expected : Hash) (bytes : Bytes) : Bool := chain.outputBased && (parse hashing chain .checking (some expected) bytes).isSome

/-! ## Constructing -/

/-- The index of a block has every transaction. -/
structure Block where
  header : Bytes
  ids : List Hash
  transactions : List (Transaction Hash)
  distinct : ids.Nodup

def getTransactions (encoded : List (EncodedTransaction Hash)) : Option (List (Transaction Hash)) :=
  encoded.zipIdx.mapM fun entry => parsedTransaction entry.2 entry.1

def constructBlock (parsed : ParsedBlock) : Option Block := do
  let transactions ← getTransactions parsed.transactions
  if distinct : parsed.txids.Nodup then some { header := parsed.header, ids := parsed.txids, transactions, distinct } else none

/-- The hash that is expected is not looked at. -/
def construct (bytes : Bytes) : Option Block :=
  if chain.outputBased then (parse hashing chain .constructing none bytes).bind constructBlock else none

end Parsing

variable {hashing : BlockHashing} {chain : ChainParameters} {bytes : Bytes}

/-! ## The two runs -/

theorem ok_of_toOption {ε α : Type} {result : Except ε α} {value : α} (known : result.toOption = some value) : result = .ok value := by
  cases result with
  | ok other =>
    cases known
    rfl
  | error fault => cases known

theorem parse_iff {mode : Mode} {expected : Option Hash} {parsed : ParsedBlock} : parse hashing chain mode expected bytes = some parsed ↔
    (80 ≤ bytes.length ∧ parsed.header = bytes.take 80 ∧ (mode = .constructing → checkHeader hashing parsed.header = true) ∧
      ∀ hash ∈ expected, hash = hashing.blockHash parsed.header) ∧
    ∃ count data final, CompactSize.decodeCompactSize (bytes.drop 80) = (some count, data) ∧
      parseTransactions hashing (mode.parameters chain) count { data } = (.ok parsed.transactions, final) ∧
      merkleRoot parsed.header = (calculateMerkleValue hashing parsed.txids).val ∧ compareSegwit hashing parsed.transactions final = true := by
  obtain ⟨header, transactions⟩ := parsed
  unfold parse
  simp only [Option.bind_eq_bind, Option.bind_eq_some_iff, Option.guard_eq_some', exists_const, Option.some.injEq, ParsedBlock.mk.injEq]
  generalize decoded : CompactSize.decodeCompactSize (bytes.drop 80) = payload
  obtain ⟨count, data⟩ := payload
  constructor
  · rintro ⟨long, valid, expects, number, rfl, found, ran, root, segwit, rfl, rfl⟩
    refine ⟨⟨long, rfl, valid, expects⟩, number, data, _, rfl, Prod.ext ?_ rfl, root, segwit⟩
    exact ok_of_toOption ran
  · rintro ⟨⟨long, rfl, valid, expects⟩, number, _, final, ⟨⟩, ran, root, segwit⟩
    refine ⟨long, valid, expects, number, rfl, transactions, ?_, root, ?_, rfl, rfl⟩
    · rw [ran]
      rfl
    · rw [ran]
      exact segwit

/-- Only the outputs of the two runs differ. -/
def SameFields (encoded other : EncodedTransaction Hash) : Prop := ∃ outputs, other = { encoded with outputs }

theorem parseOutput_follows (isGeneration isSegwit : Bool) : Program.Follows (fun _ _ => True)
    (Parser.parseOutput chain isGeneration isSegwit) (Parser.parseOutput (Mode.checking.parameters chain) isGeneration isSegwit) := by
  unfold Parser.parseOutput
  refine .same fun value => .same fun cs => .same fun view => .same fun _ => .same fun _ => ?_
  refine .bind (r := fun _ _ => True) ?_ fun _ _ _ => .same fun _ => .pure trivial
  intro start script final ran
  obtain ⟨_, rfl⟩ := Program.lift_ok ran
  exact ⟨(none, view.val), rfl, trivial⟩

theorem parseNextTransaction_follows (isGeneration : Bool) : Program.Follows SameFields
    (Parser.parseNextTransaction hashing.toHashing chain isGeneration)
    (Parser.parseNextTransaction hashing.toHashing (Mode.checking.parameters chain) isGeneration) := by
  unfold Parser.parseNextTransaction
  refine .same fun _ => .same fun special => .same fun flag => .same fun version => .same fun _ => .same fun inputs => ?_
  refine .bind (r := fun outputs others => outputs.1 = others.1) ?_ fun outputs others count => ?_
  · unfold Parser.parseOutputs
    refine .same fun count => .bind (.times (fun _ => parseOutput_follows isGeneration _) count 0) fun _ _ _ => .pure rfl
  · refine .same fun witnesses => .same fun lockTime => .same fun payload => .same fun ids => .pure ⟨others.2, ?_⟩
    rw [count]

theorem parseTransactions_follows (count : Nat) : Program.Follows (List.Forall₂ SameFields) (parseTransactions hashing chain count)
    (parseTransactions hashing (Mode.checking.parameters chain) count) :=
  .times (fun _ => parseNextTransaction_follows _) count 0

theorem same_map {β : Type} (get : EncodedTransaction Hash → β) (ignores : ∀ encoded outputs, get { encoded with outputs } = get encoded)
    {transactions others : List (EncodedTransaction Hash)} (same : List.Forall₂ SameFields transactions others) :
    others.map get = transactions.map get := by
  induction same with
  | nil => rfl
  | cons one _ ih =>
    obtain ⟨outputs, rfl⟩ := one
    rw [List.map_cons, List.map_cons, ih, ignores]

theorem compareSegwit_same {transactions others : List (EncodedTransaction Hash)} (same : List.Forall₂ SameFields transactions others)
    (state : ParserState) : compareSegwit hashing others state = compareSegwit hashing transactions state := by
  have flags : (others.map (·.segwitFlag)).all Option.isNone = (transactions.map (·.segwitFlag)).all Option.isNone := by
    rw [same_map _ (fun _ _ => rfl) same]
  rw [List.all_map, List.all_map] at flags
  unfold compareSegwit
  rw [same_map (·.wtxid) (fun _ _ => rfl) same]
  exact congrArg (· || _) flags

theorem constructBlock_header {parsed : ParsedBlock} {block : Block} (made : constructBlock parsed = some block) :
    block.header = parsed.header := by
  obtain ⟨transactions, _, made⟩ := Option.bind_eq_some_iff.mp made
  obtain ⟨_, same⟩ := Option.dite_none_right_eq_some.mp made
  exact congrArg Block.header (Option.some.inj same).symm

/-- The bytes of a block that was constructed are those of the block with the hash of its header, and of no other. -/
theorem constructed_checks_iff {block : Block} (made : construct hashing chain bytes = some block) (expected : Hash) :
    check hashing chain expected bytes = true ↔ expected = hashing.blockHash block.header := by
  obtain ⟨outputBased, made⟩ := Option.ite_none_right_eq_some.mp made
  obtain ⟨parsed, ran, made⟩ := Option.bind_eq_some_iff.mp made
  obtain ⟨⟨long, header, _, _⟩, count, data, final, decoded, ran, root, segwit⟩ := parse_iff.mp ran
  obtain ⟨others, again, same⟩ := parseTransactions_follows count _ _ _ ran
  rw [check, outputBased, Bool.true_and, Option.isSome_iff_exists, constructBlock_header made]
  constructor
  · rintro ⟨checked, ran⟩
    obtain ⟨⟨_, front, _, expects⟩, _⟩ := parse_iff.mp ran
    rw [header, ← front]
    exact expects expected rfl
  · rintro rfl
    refine ⟨⟨parsed.header, others⟩, parse_iff.mpr ⟨⟨long, header, by rintro ⟨⟩, by rintro _ ⟨⟩; rfl⟩, count, data, final, decoded, again, ?_, ?_⟩⟩
    · rw [root]
      exact congrArg (fun txids => (calculateMerkleValue hashing txids).val) (same_map _ (fun _ _ => rfl) same).symm
    · rw [compareSegwit_same same, segwit]

/-! ## The layout -/

/-- A transaction as it is written on a chain. -/
def Suited (chain : ChainParameters) : Type := { wire : WireTransaction // wire.Suits chain }

def Suited.write (suited : Suited chain) : Bytes := suited.val.write

theorem Suited.selfDelimiting : SelfDelimiting (@Suited.write chain) := by
  intro first second rest other same
  obtain ⟨wires, rest⟩ := WireTransaction.write_injective first.property second.property same
  exact ⟨Subtype.ext wires, rest⟩

/-- A header and the transactions. -/
structure WireBlock (chain : ChainParameters) where
  header : FixedByteArray 80
  transactions : Counted (Suited chain)

namespace WireBlock

def write (wire : WireBlock chain) : Bytes := wire.header.val ++ wire.transactions.write Suited.write

def stripped (wire : WireBlock chain) : List Bytes := wire.transactions.items.map (·.val.stripped)

/-- The hash of the header is the one that is expected, and its merkle root that of the transactions. -/
structure Is (hashing : BlockHashing) (expected : Hash) (wire : WireBlock chain) : Prop where
  hash : hashing.blockHash wire.header.val = expected
  root : merkleRoot wire.header.val = (calculateMerkleValue hashing (wire.stripped.map hashing.transactionHash)).val

theorem selfDelimiting : SelfDelimiting (@write chain) := by
  intro first second rest other same
  unfold write at same
  rw [List.append_assoc, List.append_assoc] at same
  obtain ⟨header, same⟩ := List.append_inj same (first.header.property.trans second.header.property.symm)
  obtain ⟨transactions, rest⟩ := Counted.selfDelimiting Suited.selfDelimiting _ _ _ _ same
  refine ⟨?_, rest⟩
  obtain ⟨front, items⟩ := first
  obtain ⟨other, others⟩ := second
  obtain rfl : front = other := Subtype.ext header
  obtain rfl : items = others := transactions
  rfl

end WireBlock

theorem checked_wire {expected : Hash} (accepted : check hashing chain expected bytes = true) :
    ∃ (wire : WireBlock chain) (rest : Bytes), wire.Is hashing expected ∧ bytes = wire.write ++ rest := by
  rw [check, Bool.and_eq_true, Option.isSome_iff_exists] at accepted
  obtain ⟨_, ⟨header, transactions⟩, ran⟩ := accepted
  obtain ⟨⟨long, front, _, expects⟩, count, data, final, decoded, ran, root, _⟩ := parse_iff.mp ran
  obtain rfl : header = bytes.take 80 := front
  obtain ⟨written, _, split⟩ := Parser.decode_suffix decoded
  rw [split] at decoded
  obtain ⟨items, length, all, taken⟩ := @Program.times_ok _ _ _ _ (Suited chain)
    (fun (start : ParserState) taken final => start.data = taken ++ final.data) Suited.write
    (fun suited encoded => encoded.txid = hashing.transactionHash suited.val.stripped)
    (fun _ => rfl) (fun one two => by rw [one, two, List.append_assoc]) _
    (fun index start encoded final ran => by
      obtain ⟨wire, suits, encodes, taken⟩ := Parser.parseNextTransaction_wire ran
      exact ⟨⟨wire, suits.special, suits.plain, suits.marked⟩, encodes.txid, taken⟩)
    count 0 _ _ _ ran
  refine ⟨⟨⟨bytes.take 80, List.length_take_of_le long⟩, ⟨⟨count, written, decodes_any decoded⟩, items, length.symm⟩⟩, final.data,
    ⟨(expects expected rfl).symm, ?_⟩, ?_⟩
  · rw [WireBlock.stripped, List.map_map]
    exact root.trans (congrArg (fun txids => (calculateMerkleValue hashing txids).val)
      (Parser.forall₂_map (List.forall₂_map_right_iff.mpr (all.imp fun _ _ same => same.symm))).symm)
  · have transactions : data = items.flatMap Suited.write ++ final.data := taken
    rw [WireBlock.write, Counted.write, List.append_assoc, List.append_assoc, ← transactions, ← split, List.take_append_drop]

/-- What is accepted as a block begins with it, as it is written, in one way only. -/
theorem checked_layout {expected : Hash} (accepted : check hashing chain expected bytes = true) :
    ∃! split : WireBlock chain × Bytes, split.1.Is hashing expected ∧ bytes = split.1.write ++ split.2 := by
  obtain ⟨wire, rest, is, rfl⟩ := checked_wire accepted
  refine ⟨(wire, rest), ⟨is, rfl⟩, ?_⟩
  rintro ⟨other, behind⟩ ⟨_, same⟩
  obtain ⟨rfl, rfl⟩ := WireBlock.selfDelimiting _ _ _ _ same
  rfl

/-! ## What the hash binds -/

/-- All pairs of hashes that the merkle value is calculated of. -/
def hashed (hashing : BlockHashing) (txids : List Hash) : List (Hash × Hash) := Merkle.hashed (calculateMerkleHash hashing) txids.length txids

/-- The pairs of the two trees have no collision. -/
def PairsApart (hashing : BlockHashing) (first second : List Hash) : Prop :=
  ∀ one ∈ hashed hashing first, ∀ two ∈ hashed hashing second, calculateMerkleHash hashing one = calculateMerkleHash hashing two → one = two

/-- What is hashed for the two blocks has no collision. -/
structure Apart (hashing : BlockHashing) (first second : WireBlock chain) : Prop where
  header : hashing.blockHash first.header.val = hashing.blockHash second.header.val → first.header = second.header
  pairs : PairsApart hashing (first.stripped.map hashing.transactionHash) (second.stripped.map hashing.transactionHash)
  transactions : ∀ one ∈ first.stripped, ∀ two ∈ second.stripped, hashing.transactionHash one = hashing.transactionHash two → one = two

/-- The rows end with a single hash. -/
theorem climb_single {txids : List Hash} (some : txids ≠ []) :
    Merkle.climb (calculateMerkleRow hashing) txids.length txids = [calculateMerkleValue hashing txids] := by
  have one : (Merkle.climb (calculateMerkleRow hashing) txids.length txids).length = 1 :=
    Merkle.climb_length txids.length txids some (Nat.le_succ _)
  obtain ⟨hash, single⟩ := List.length_eq_one_iff.mp one
  rw [calculateMerkleValue, single]
  rfl

theorem calculateMerkleValue_injective {first second : List Hash} (length : first.length = second.length)
    (apart : PairsApart hashing first second) (same : calculateMerkleValue hashing first = calculateMerkleValue hashing second) : first = second := by
  by_cases none : first = []
  · rw [none] at length ⊢
    exact (List.eq_nil_of_length_eq_zero length.symm).symm
  · have some : second ≠ [] := fun nothing => none (List.eq_nil_of_length_eq_zero (by rw [length, nothing, List.length_nil]))
    have roots := (climb_single none).trans ((congrArg (fun hash => [hash]) same).trans (climb_single some).symm)
    unfold PairsApart hashed at apart
    rw [← length] at roots apart
    exact Merkle.climb_injective first.length length apart roots

/-- Bytes that are accepted as one block, with one number of transactions, have one header and the same transactions
but for their witnesses. -/
theorem content_bound {expected : Hash} {first second : WireBlock chain} {rest other : Bytes} (apart : Apart hashing first second)
    (one : check hashing chain expected (first.write ++ rest) = true) (two : check hashing chain expected (second.write ++ other) = true)
    (count : first.transactions.count.value = second.transactions.count.value) :
    first.header = second.header ∧ first.stripped = second.stripped := by
  have is {wire : WireBlock chain} {rest : Bytes} (accepted : check hashing chain expected (wire.write ++ rest) = true) :
      wire.Is hashing expected := by
    obtain ⟨other, behind, is, same⟩ := checked_wire accepted
    obtain ⟨rfl, rfl⟩ := WireBlock.selfDelimiting _ _ _ _ same
    exact is
  have header := apart.header ((is one).hash.trans (is two).hash.symm)
  have length : first.stripped.length = second.stripped.length := by
    rw [WireBlock.stripped, WireBlock.stripped, List.length_map, List.length_map, ← first.transactions.counted,
      ← second.transactions.counted, count]
  have roots := (is one).root
  rw [header, (is two).root] at roots
  have txids : first.stripped.map hashing.transactionHash = second.stripped.map hashing.transactionHash :=
    calculateMerkleValue_injective (by rw [List.length_map, List.length_map, length]) apart.pairs (Subtype.ext roots.symm)
  exact ⟨header, Merkle.map_injective apart.transactions txids⟩

/-- With another number there may be another block, in which the last transaction is repeated. -/
example (one two three : Hash) : calculateMerkleValue hashing [one, two, three] = calculateMerkleValue hashing [one, two, three, three] := rfl

/-! ## A block with one payment -/

def front (bytes : Bytes) : Hash := ⟨(bytes ++ List.replicate 32 0).take 32, by rw [List.length_take_of_le (by simp)]⟩

/-- The first bytes stand for the hash. -/
def fronts : BlockHashing where
  blank := front []
  transactionHash := front
  blockHash := front
  merkleHash := front
  proofOfWorkHash bytes := (front bytes).val

def single : WireTransaction := paymentWith (Counted.single 0x51)

def sample (count : Count) (one : count.value = 1) : WireBlock mainnet where
  header := ⟨List.replicate 36 0 ++ ((front single.stripped).val ++ [0, 0, 0, 0, 0xff, 0xff, 0x7f, 0x20, 0, 0, 0, 0]), by decide +kernel⟩
  transactions := ⟨count, [⟨single, payment_canonical.1⟩], one⟩

def short : WireBlock mainnet := sample (Count.shortest 1 (by decide)) rfl

/-- The number of transactions in three bytes. -/
def long : WireBlock mainnet := sample ⟨1, [0xfd, 1, 0], @decodes_any [0xfd, 1, 0] [] 1 (by decide)⟩ rfl

theorem short_constructed : ∃ block, construct fronts mainnet short.write = some block ∧
    check fronts mainnet (front block.header) short.write = true := by
  have made : (construct fronts mainnet short.write).isSome = true := by decide +kernel
  obtain ⟨block, made⟩ := Option.isSome_iff_exists.mp made
  exact ⟨block, made, (constructed_checks_iff made _).mpr rfl⟩

theorem long_layout : ∃! split : WireBlock mainnet × Bytes, split.1.Is fronts (front []) ∧ long.write ++ [9] = split.1.write ++ split.2 :=
  checked_layout (by decide +kernel)

theorem long_bound : short.header = long.header ∧ short.stripped = long.stripped := by
  refine @content_bound fronts mainnet (front []) short long [] [9] ⟨fun _ => rfl, ?_, ?_⟩ (by decide +kernel)
    (by decide +kernel) rfl
  · exact fun _ member => absurd (show _ ∈ [] from member) List.not_mem_nil
  · exact fun one member two listed _ => (List.mem_singleton.mp member).trans (List.mem_singleton.mp listed).symm

end Opentxs.Bitcoin.Blocks
