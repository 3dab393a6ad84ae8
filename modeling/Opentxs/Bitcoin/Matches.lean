import Opentxs.Library.PartialMap
import Opentxs.Library.SortedList
import Opentxs.Bitcoin.BitcoinScript
import Mathlib.Data.Prod.Lex

/-! The elements a block gives to its compact filter and the matches a full scan of it
finds. Both walk the same transactions, through different overloads: an output adds its
token category only for the scan, and an input of a coinbase script gives nothing to the
filter but is still compared with the outpoints. -/

namespace Opentxs.Bitcoin.Matches
open Library Library.Endian Library.PartialMap BitcoinScript

abbrev FixedBytes (size : Nat) := { bytes : Bytes // bytes.length = size }

structure CashToken where
  category : FixedBytes 32

structure Input where
  script : Script
  previous : FixedBytes 36
  witness : List Bytes

structure Output where
  script : Script
  cashtoken : Option CashToken

structure Transaction where
  id : FixedBytes 32
  inputs : List Input
  outputs : List Output

structure Block where
  id : FixedBytes 32
  transactions : List Transaction

/-! ## Filter elements -/

inductive Redeem
  | none
  | maybeP2WSH
  | p2shP2WSH
  | p2shP2WPKH
  deriving DecidableEq, Repr

def Input.classify (txin : Input) : Redeem :=
  if txin.witness = [] then .none
  else match txin.script.elements with
    | [] => .maybeP2WSH
    | [program, payload] =>
      if program.opcode ≠ OP.ZERO then .none
      else match payload.data with
        | none => .none
        | some hash =>
          if hash.length = 20 then .p2shP2WPKH
          else if hash.length = 32 then .p2shP2WSH
          else .none
    | _ => .none

def Input.witnessElements (txin : Input) : List Bytes :=
  txin.witness.filter fun data => data.length = 33 ∨ data.length = 32 ∨ data.length = 20

def Input.redeemElements (style : FilterType) (txin : Input) : List Bytes :=
  if txin.classify = .none then []
  else match txin.witness.getLast?.bind (bitcoinScript · .redeem true) with
    | some sub => sub.extractElements style
    | none => []

def Input.extractElements (style : FilterType) (txin : Input) : List Bytes :=
  if txin.script.role = .coinbase then []
  else match style with
    | .es => txin.script.extractElements style ++ txin.witnessElements ++ txin.redeemElements style ++
        [txin.previous.val]
    | .basicBchVariant => [txin.previous.val]
    | .basicBip158 | .unknownCfilter => []

def Output.extractElements (style : FilterType) (txout : Output) : List Bytes :=
  txout.script.extractElements style

def Transaction.extractElements (style : FilterType) (tx : Transaction) : List Bytes :=
  tx.inputs.flatMap (Input.extractElements style) ++ tx.outputs.flatMap (Output.extractElements style) ++
    if style = .es then [tx.id.val] else []

def Block.extractElements (style : FilterType) (block : Block) : List Bytes :=
  SortedList.sort (block.transactions.flatMap (Transaction.extractElements style))

/-- The overload that only the scan uses. -/
def Input.sortedElements (style : FilterType) (txin : Input) : List Bytes :=
  SortedList.sort (txin.extractElements style)

def Output.tokenElements (style : FilterType) (txout : Output) : List Bytes :=
  if style = .es then (txout.cashtoken.map fun cashtoken => cashtoken.category.val).toList else []

/-- The overload that only the scan uses. -/
def Output.sortedElements (style : FilterType) (txout : Output) : List Bytes :=
  SortedList.sort (txout.extractElements style ++ txout.tokenElements style)

/-! ## The scan -/

variable {Index : Type}

structure Match (Index : Type) where
  txid : Bytes
  element : Index
  deriving DecidableEq

structure InputMatch (Index : Type) where
  txid : Bytes
  previous : Bytes
  element : Index
  deriving DecidableEq

instance [LinearOrder Index] : LinearOrder (Match Index) :=
  LinearOrder.lift' (fun found => toLex (found.txid, found.element)) (by
    intro first second same
    cases first
    cases second
    simpa using same)

instance [LinearOrder Index] : LinearOrder (InputMatch Index) :=
  LinearOrder.lift' (fun found => toLex (found.txid, toLex (found.previous, found.element))) (by
    intro first second same
    cases first
    cases second
    simpa using same)

/-- Of several patterns with the same bytes the map keeps the first. -/
structure ParsedPatterns (Index : Type) where
  data : List Bytes
  map : List (Bytes × Index)

def parsedPatterns (patterns : List (Index × Bytes)) : ParsedPatterns Index where
  data := SortedList.sort (patterns.map Prod.snd)
  map := patterns.map Prod.swap

def matchedElements (patterns : ParsedPatterns Index) (compare : List Bytes) : List Bytes :=
  SortedList.setIntersection patterns.data compare

/-- `none` is the exception of a missing key. -/
def setIntersection (txid : Bytes) (patterns : ParsedPatterns Index) (compare : List Bytes) :
    Option (List (Match Index)) :=
  (matchedElements patterns compare).mapM fun element => (patterns.map.lookup element).map (Match.mk txid)

def Input.findMatches (txid : Bytes) (type : FilterType) (txos : List (Index × Bytes))
    (patterns : ParsedPatterns Index) (txin : Input) : Option (List (InputMatch Index)) := do
  let spent := txos.filter fun txo => txo.2 = txin.previous.val
  let keyMatches ← setIntersection txid patterns (txin.sortedElements type)
  some (spent.map (fun txo => ⟨txid, txin.previous.val, txo.1⟩) ++
    keyMatches.map (fun found => ⟨txid, txin.previous.val, found.element⟩))

def Output.findMatches (txid : Bytes) (type : FilterType) (patterns : ParsedPatterns Index)
    (txout : Output) : Option (List (Match Index)) :=
  setIntersection txid patterns (txout.sortedElements type)

def Transaction.findMatches (type : FilterType) (txos : List (Index × Bytes))
    (patterns : ParsedPatterns Index) (tx : Transaction) :
    Option (List (InputMatch Index) × List (Match Index)) := do
  let inputs ← tx.inputs.mapM (Input.findMatches tx.id.val type txos patterns)
  let outputs ← tx.outputs.mapM (Output.findMatches tx.id.val type patterns)
  some (inputs.flatten, outputs.flatten)

def Block.findMatches [LinearOrder Index] (style : FilterType) (outpoints patterns : List (Index × Bytes))
    (block : Block) :
    Option (List (InputMatch Index) × List (Match Index)) :=
  if outpoints.length + patterns.length = 0 then some ([], [])
  else do
    let found ← block.transactions.mapM (Transaction.findMatches style outpoints (parsedPatterns patterns))
    some (SortedList.dedup (found.flatMap Prod.fst), SortedList.dedup (found.flatMap Prod.snd))

/-! ## What the scan reports -/

def Input.MatchesKey (type : FilterType) (patterns : List (Index × Bytes)) (txin : Input) (element : Bytes) :
    Prop :=
  element ∈ matchedElements (parsedPatterns patterns) (txin.sortedElements type)

def Output.MatchesKey (type : FilterType) (patterns : List (Index × Bytes)) (txout : Output) (element : Bytes) :
    Prop :=
  element ∈ matchedElements (parsedPatterns patterns) (txout.sortedElements type)

/-- An input match reported for the pattern whose bytes are `element`. -/
def Block.InputMatchFor (type : FilterType) (patterns : List (Index × Bytes)) (block : Block)
    (one : InputMatch Index) (element : Bytes) : Prop :=
  ∃ tx ∈ block.transactions, ∃ txin ∈ tx.inputs, one.txid = tx.id.val ∧ one.previous = txin.previous.val ∧
    txin.MatchesKey type patterns element ∧ (parsedPatterns patterns).map.lookup element = some one.element

/-- An output match reported for the pattern whose bytes are `element`. -/
def Block.OutputMatchFor (type : FilterType) (patterns : List (Index × Bytes)) (block : Block)
    (one : Match Index) (element : Bytes) : Prop :=
  ∃ tx ∈ block.transactions, ∃ txout ∈ tx.outputs, one.txid = tx.id.val ∧
    txout.MatchesKey type patterns element ∧ (parsedPatterns patterns).map.lookup element = some one.element

def Block.OutpointMatch (outpoints : List (Index × Bytes)) (block : Block) (one : InputMatch Index) : Prop :=
  ∃ tx ∈ block.transactions, ∃ txin ∈ tx.inputs, one.txid = tx.id.val ∧ one.previous = txin.previous.val ∧
    (one.element, one.previous) ∈ outpoints

theorem mem_matchedElements (patterns : List (Index × Bytes)) (items : List Bytes) (element : Bytes) :
    element ∈ matchedElements (parsedPatterns patterns) (SortedList.sort items) ↔
      element ∈ patterns.map Prod.snd ∧ element ∈ items := by
  rw [matchedElements, parsedPatterns,
    SortedList.mem_setIntersection _ _ (SortedList.sort_sorted _) (SortedList.sort_sorted _),
    SortedList.mem_sort, SortedList.mem_sort]

theorem input_matchesKey (type : FilterType) (patterns : List (Index × Bytes)) (txin : Input) (element : Bytes) :
    txin.MatchesKey type patterns element ↔
      element ∈ patterns.map Prod.snd ∧ element ∈ txin.extractElements type := by
  rw [Input.MatchesKey, Input.sortedElements, mem_matchedElements]

theorem mem_tokenElements (type : FilterType) (txout : Output) (element : Bytes) :
    element ∈ txout.tokenElements type ↔
      type = .es ∧ ∃ cashtoken, txout.cashtoken = some cashtoken ∧ cashtoken.category.val = element := by
  rw [Output.tokenElements]
  by_cases style : type = .es
  · simp [style]
  · simp [style]

theorem output_matchesKey (type : FilterType) (patterns : List (Index × Bytes)) (txout : Output)
    (element : Bytes) :
    txout.MatchesKey type patterns element ↔
      element ∈ patterns.map Prod.snd ∧ (element ∈ txout.extractElements type ∨
        type = .es ∧ ∃ cashtoken, txout.cashtoken = some cashtoken ∧ cashtoken.category.val = element) := by
  rw [Output.MatchesKey, Output.sortedElements, mem_matchedElements, List.mem_append, mem_tokenElements]

theorem lookup_pattern (patterns : List (Index × Bytes)) (element : Bytes)
    (member : element ∈ patterns.map Prod.snd) :
    ∃ index, (parsedPatterns patterns).map.lookup element = some index ∧ (index, element) ∈ patterns := by
  induction patterns with
  | nil => cases member
  | cons pattern patterns ih =>
    by_cases same : element = pattern.2
    · subst same
      exact ⟨pattern.1, List.lookup_cons_self, List.mem_cons_self⟩
    · obtain ⟨index, found, present⟩ := ih ((List.mem_cons.mp member).resolve_left same)
      refine ⟨index, ?_, List.mem_cons_of_mem _ present⟩
      rw [← found]
      show List.lookup element ((pattern.2, pattern.1) :: patterns.map Prod.swap) = _
      rw [List.lookup_cons, beq_eq_false_iff_ne.mpr same]
      rfl

theorem setIntersection_total (txid : Bytes) (patterns : List (Index × Bytes)) (items : List Bytes) :
    ∃ found, setIntersection txid (parsedPatterns patterns) (SortedList.sort items) = some found ∧
      ∀ one, one ∈ found ↔ one.txid = txid ∧
        ∃ element ∈ matchedElements (parsedPatterns patterns) (SortedList.sort items),
          (parsedPatterns patterns).map.lookup element = some one.element := by
  obtain ⟨found, run, members⟩ := mapM_total
    (fun element => ((parsedPatterns patterns).map.lookup element).map (Match.mk txid))
    (matchedElements (parsedPatterns patterns) (SortedList.sort items)) (by
      intro element member
      obtain ⟨index, looked, _⟩ := lookup_pattern patterns element
        ((mem_matchedElements patterns items element).mp member).1
      exact ⟨⟨txid, index⟩, by rw [looked, Option.map_some]⟩)
  refine ⟨found, run, ?_⟩
  intro one
  rw [members]
  constructor
  · intro ⟨element, member, looked⟩
    obtain ⟨index, indexed, rfl⟩ := Option.map_eq_some_iff.mp looked
    exact ⟨rfl, element, member, indexed⟩
  · intro ⟨same, element, member, looked⟩
    exact ⟨element, member, by rw [looked, Option.map_some, ← same]⟩

theorem input_findMatches (txid : Bytes) (type : FilterType) (txos patterns : List (Index × Bytes))
    (txin : Input) :
    ∃ found, txin.findMatches txid type txos (parsedPatterns patterns) = some found ∧
      ∀ one, one ∈ found ↔ one.txid = txid ∧ one.previous = txin.previous.val ∧
        ((one.element, txin.previous.val) ∈ txos ∨ ∃ element, txin.MatchesKey type patterns element ∧
          (parsedPatterns patterns).map.lookup element = some one.element) := by
  obtain ⟨keyMatches, run, members⟩ := setIntersection_total txid patterns (txin.extractElements type)
  refine ⟨_, by rw [Input.findMatches, Input.sortedElements, run]; rfl, ?_⟩
  intro one
  rw [List.mem_append, List.mem_map, List.mem_map]
  constructor
  · intro reported
    rcases reported with ⟨txo, spends, rfl⟩ | ⟨key, present, rfl⟩
    · simp only [List.mem_filter, decide_eq_true_eq] at spends
      exact ⟨rfl, rfl, Or.inl (spends.2 ▸ spends.1)⟩
    · obtain ⟨_, element, matched, looked⟩ := (members key).mp present
      exact ⟨rfl, rfl, Or.inr ⟨element, matched, looked⟩⟩
  · intro ⟨sameTx, samePrevious, reported⟩
    rcases reported with spends | ⟨element, matched, looked⟩
    · refine Or.inl ⟨(one.element, txin.previous.val), ?_, ?_⟩
      · simp [spends]
      · rw [← sameTx, ← samePrevious]
    · refine Or.inr ⟨⟨txid, one.element⟩, (members _).mpr ⟨rfl, element, matched, looked⟩, ?_⟩
      rw [← sameTx, ← samePrevious]

theorem output_findMatches (txid : Bytes) (type : FilterType) (patterns : List (Index × Bytes)) (txout : Output) :
    ∃ found, txout.findMatches txid type (parsedPatterns patterns) = some found ∧
      ∀ one, one ∈ found ↔ one.txid = txid ∧ ∃ element, txout.MatchesKey type patterns element ∧
        (parsedPatterns patterns).map.lookup element = some one.element :=
  setIntersection_total txid patterns (txout.extractElements type ++ txout.tokenElements type)

theorem transaction_findMatches (type : FilterType) (txos patterns : List (Index × Bytes)) (tx : Transaction) :
    ∃ inputs outputs, tx.findMatches type txos (parsedPatterns patterns) = some (inputs, outputs) ∧
      (∀ one, one ∈ inputs ↔ ∃ txin ∈ tx.inputs, one.txid = tx.id.val ∧ one.previous = txin.previous.val ∧
        ((one.element, txin.previous.val) ∈ txos ∨ ∃ element, txin.MatchesKey type patterns element ∧
          (parsedPatterns patterns).map.lookup element = some one.element)) ∧
      ∀ one, one ∈ outputs ↔ ∃ txout ∈ tx.outputs, one.txid = tx.id.val ∧
        ∃ element, txout.MatchesKey type patterns element ∧
          (parsedPatterns patterns).map.lookup element = some one.element := by
  obtain ⟨inputs, inputsRun, inputMembers⟩ := mapM_total
    (Input.findMatches tx.id.val type txos (parsedPatterns patterns)) tx.inputs (by
      intro txin _
      obtain ⟨found, run, _⟩ := input_findMatches tx.id.val type txos patterns txin
      exact ⟨found, run⟩)
  obtain ⟨outputs, outputsRun, outputMembers⟩ := mapM_total
    (Output.findMatches tx.id.val type (parsedPatterns patterns)) tx.outputs (by
      intro txout _
      obtain ⟨found, run, _⟩ := output_findMatches tx.id.val type patterns txout
      exact ⟨found, run⟩)
  refine ⟨inputs.flatten, outputs.flatten, by rw [Transaction.findMatches, inputsRun, outputsRun]; rfl, ?_, ?_⟩
  · intro one
    rw [List.mem_flatten]
    constructor
    · intro ⟨found, listed, member⟩
      obtain ⟨txin, present, run⟩ := (inputMembers found).mp listed
      obtain ⟨same, sameRun, members⟩ := input_findMatches tx.id.val type txos patterns txin
      rw [run, Option.some.injEq] at sameRun
      exact ⟨txin, present, (members one).mp (sameRun ▸ member)⟩
    · intro ⟨txin, present, reported⟩
      obtain ⟨found, run, members⟩ := input_findMatches tx.id.val type txos patterns txin
      exact ⟨found, (inputMembers found).mpr ⟨txin, present, run⟩, (members one).mpr reported⟩
  · intro one
    rw [List.mem_flatten]
    constructor
    · intro ⟨found, listed, member⟩
      obtain ⟨txout, present, run⟩ := (outputMembers found).mp listed
      obtain ⟨same, sameRun, members⟩ := output_findMatches tx.id.val type patterns txout
      rw [run, Option.some.injEq] at sameRun
      exact ⟨txout, present, (members one).mp (sameRun ▸ member)⟩
    · intro ⟨txout, present, reported⟩
      obtain ⟨found, run, members⟩ := output_findMatches tx.id.val type patterns txout
      exact ⟨found, (outputMembers found).mpr ⟨txout, present, run⟩, (members one).mpr reported⟩

/-- The scan never fails, and what it returns is exactly the matches for an outpoint and
the matches for an element. -/
theorem block_findMatches [LinearOrder Index] (type : FilterType) (outpoints patterns : List (Index × Bytes))
    (block : Block) :
    ∃ inputs outputs, block.findMatches type outpoints patterns = some (inputs, outputs) ∧
      (∀ one, one ∈ inputs ↔
        block.OutpointMatch outpoints one ∨ ∃ element, block.InputMatchFor type patterns one element) ∧
      ∀ one, one ∈ outputs ↔ ∃ element, block.OutputMatchFor type patterns one element := by
  by_cases empty : outpoints.length + patterns.length = 0
  · obtain rfl := List.eq_nil_of_length_eq_zero (Nat.eq_zero_of_add_eq_zero_right empty)
    obtain rfl := List.eq_nil_of_length_eq_zero (Nat.eq_zero_of_add_eq_zero_left empty)
    refine ⟨[], [], rfl, ?_, ?_⟩
    · simp [Block.OutpointMatch, Block.InputMatchFor, parsedPatterns]
    · simp [Block.OutputMatchFor, parsedPatterns]
  · obtain ⟨found, run, foundMembers⟩ := mapM_total
      (Transaction.findMatches type outpoints (parsedPatterns patterns)) block.transactions (by
        intro tx _
        obtain ⟨inputs, outputs, run, _⟩ := transaction_findMatches type outpoints patterns tx
        exact ⟨(inputs, outputs), run⟩)
    refine ⟨SortedList.dedup (found.flatMap Prod.fst), SortedList.dedup (found.flatMap Prod.snd), ?_, ?_, ?_⟩
    · rw [Block.findMatches, if_neg empty, run]
      rfl
    · intro one
      rw [SortedList.mem_dedup, List.mem_flatMap]
      constructor
      · intro ⟨pair, listed, member⟩
        obtain ⟨tx, present, txRun⟩ := (foundMembers pair).mp listed
        obtain ⟨inputs, outputs, sameRun, members, _⟩ := transaction_findMatches type outpoints patterns tx
        rw [txRun, Option.some.injEq] at sameRun
        obtain ⟨txin, input, sameTx, samePrevious, reported⟩ := (members one).mp (by rwa [sameRun] at member)
        rcases reported with spends | ⟨element, matched, looked⟩
        · exact Or.inl ⟨tx, present, txin, input, sameTx, samePrevious, samePrevious ▸ spends⟩
        · exact Or.inr ⟨element, tx, present, txin, input, sameTx, samePrevious, matched, looked⟩
      · intro reported
        rcases reported with ⟨tx, present, txin, input, sameTx, samePrevious, spends⟩ |
          ⟨element, tx, present, txin, input, sameTx, samePrevious, matched, looked⟩
        · obtain ⟨inputs, outputs, txRun, members, _⟩ := transaction_findMatches type outpoints patterns tx
          exact ⟨_, (foundMembers _).mpr ⟨tx, present, txRun⟩, (members one).mpr
            ⟨txin, input, sameTx, samePrevious, Or.inl (samePrevious ▸ spends)⟩⟩
        · obtain ⟨inputs, outputs, txRun, members, _⟩ := transaction_findMatches type outpoints patterns tx
          exact ⟨_, (foundMembers _).mpr ⟨tx, present, txRun⟩, (members one).mpr
            ⟨txin, input, sameTx, samePrevious, Or.inr ⟨element, matched, looked⟩⟩⟩
    · intro one
      rw [SortedList.mem_dedup, List.mem_flatMap]
      constructor
      · intro ⟨pair, listed, member⟩
        obtain ⟨tx, present, txRun⟩ := (foundMembers pair).mp listed
        obtain ⟨inputs, outputs, sameRun, _, members⟩ := transaction_findMatches type outpoints patterns tx
        rw [txRun, Option.some.injEq] at sameRun
        obtain ⟨txout, output, sameTx, element, matched, looked⟩ :=
          (members one).mp (by rwa [sameRun] at member)
        exact ⟨element, tx, present, txout, output, sameTx, matched, looked⟩
      · intro ⟨element, tx, present, txout, output, sameTx, matched, looked⟩
        obtain ⟨inputs, outputs, txRun, _, members⟩ := transaction_findMatches type outpoints patterns tx
        exact ⟨_, (foundMembers _).mpr ⟨tx, present, txRun⟩, (members one).mpr
          ⟨txout, output, sameTx, element, matched, looked⟩⟩

/-! ## Coverage -/

/-- Some script, witness, input or transaction id of the block gives `element` to the filter. -/
def Block.Mentions (type : FilterType) (block : Block) (element : Bytes) : Prop :=
  ∃ tx ∈ block.transactions, (∃ txin ∈ tx.inputs, element ∈ txin.extractElements type) ∨
    (∃ txout ∈ tx.outputs, element ∈ txout.script.extractElements type) ∨ type = .es ∧ tx.id.val = element

theorem mem_extractElements (type : FilterType) (block : Block) (element : Bytes) :
    element ∈ block.extractElements type ↔ block.Mentions type element := by
  simp only [Block.extractElements, SortedList.mem_sort, List.mem_flatMap, Transaction.extractElements,
    List.mem_append, Block.Mentions, Output.extractElements]
  apply exists_congr
  intro tx
  apply and_congr_right
  intro _
  rw [or_assoc]
  by_cases style : type = .es
  · simp [style, eq_comm]
  · simp [style]

/-- Every input or output match that a scan reports for a pattern has the pattern's bytes
among the filter's elements, and for the types that carry outpoints so has every match of
an outpoint. -/
def Block.Covered [LinearOrder Index] (type : FilterType) (outpoints patterns : List (Index × Bytes))
    (block : Block) : Prop :=
  ∃ inputs outputs, block.findMatches type outpoints patterns = some (inputs, outputs) ∧
    (∀ one ∈ inputs, ∀ element, block.InputMatchFor type patterns one element →
      element ∈ block.extractElements type) ∧
    (∀ one ∈ outputs, ∀ element, block.OutputMatchFor type patterns one element →
      element ∈ block.extractElements type) ∧
    (type = .es ∨ type = .basicBchVariant → ∀ one ∈ inputs, block.OutpointMatch outpoints one →
      one.previous ∈ block.extractElements type)

def Block.TokensMentioned (type : FilterType) (patterns : List (Index × Bytes)) (block : Block) : Prop :=
  type = .es → ∀ tx ∈ block.transactions, ∀ txout ∈ tx.outputs, ∀ cashtoken,
    txout.cashtoken = some cashtoken → cashtoken.category.val ∈ patterns.map Prod.snd →
      block.Mentions type cashtoken.category.val

def Block.CoinbaseMentioned (type : FilterType) (outpoints : List (Index × Bytes)) (block : Block) : Prop :=
  type = .es ∨ type = .basicBchVariant → ∀ tx ∈ block.transactions, ∀ txin ∈ tx.inputs,
    txin.script.role = .coinbase → txin.previous.val ∈ outpoints.map Prod.snd →
      block.Mentions type txin.previous.val

theorem inputMatch_mentioned (type : FilterType) (patterns : List (Index × Bytes)) (block : Block)
    (one : InputMatch Index) (element : Bytes) (reported : block.InputMatchFor type patterns one element) :
    block.Mentions type element := by
  obtain ⟨tx, present, txin, listed, _, _, matched, _⟩ := reported
  exact ⟨tx, present, Or.inl ⟨txin, listed, ((input_matchesKey type patterns txin element).mp matched).2⟩⟩

theorem outputMatches_mentioned_iff (type : FilterType) (patterns : List (Index × Bytes)) (block : Block) :
    (∀ one : Match Index, ∀ element, block.OutputMatchFor type patterns one element →
      block.Mentions type element) ↔ block.TokensMentioned type patterns := by
  constructor
  · intro covered style tx present txout listed cashtoken held wanted
    obtain ⟨index, looked, _⟩ := lookup_pattern patterns _ wanted
    apply covered ⟨tx.id.val, index⟩
    exact ⟨tx, present, txout, listed, rfl, (output_matchesKey type patterns txout _).mpr
      ⟨wanted, Or.inr ⟨style, cashtoken, held, rfl⟩⟩, looked⟩
  · intro mentioned one element ⟨tx, present, txout, listed, _, matched, _⟩
    obtain ⟨wanted, given⟩ := (output_matchesKey type patterns txout element).mp matched
    rcases given with given | ⟨style, cashtoken, held, rfl⟩
    · exact ⟨tx, present, Or.inr (Or.inl ⟨txout, listed, given⟩)⟩
    · exact mentioned style tx present txout listed cashtoken held wanted

theorem outpoint_extracted (type : FilterType) (carries : type = .es ∨ type = .basicBchVariant)
    (txin : Input) (spends : txin.script.role ≠ .coinbase) :
    txin.previous.val ∈ txin.extractElements type := by
  rcases carries with rfl | rfl
  · simp [Input.extractElements, spends]
  · simp [Input.extractElements, spends]

theorem outpointMatches_mentioned_iff (type : FilterType) (outpoints : List (Index × Bytes)) (block : Block) :
    (type = .es ∨ type = .basicBchVariant → ∀ one : InputMatch Index, block.OutpointMatch outpoints one →
      block.Mentions type one.previous) ↔ block.CoinbaseMentioned type outpoints := by
  constructor
  · intro covered carries tx present txin listed _ wanted
    obtain ⟨⟨index, outpoint⟩, member, same⟩ := List.mem_map.mp wanted
    simp only at same
    exact covered carries ⟨tx.id.val, txin.previous.val, index⟩
      ⟨tx, present, txin, listed, rfl, rfl, same ▸ member⟩
  · intro mentioned carries one ⟨tx, present, txin, listed, _, same, spends⟩
    rw [same] at spends ⊢
    by_cases role : txin.script.role = .coinbase
    · exact mentioned carries tx present txin listed role (List.mem_map.mpr ⟨_, spends, rfl⟩)
    · exact ⟨tx, present, Or.inl ⟨txin, listed, outpoint_extracted type carries txin role⟩⟩

/-- A filter covers the scan exactly when the matched token categories, and the matched
outpoints of coinbase inputs, are mentioned elsewhere in the block. -/
theorem findMatches_covered_iff [LinearOrder Index] (type : FilterType)
    (outpoints patterns : List (Index × Bytes)) (block : Block) :
    block.Covered type outpoints patterns ↔
      block.TokensMentioned type patterns ∧ block.CoinbaseMentioned type outpoints := by
  rw [← outputMatches_mentioned_iff, ← outpointMatches_mentioned_iff]
  obtain ⟨inputs, outputs, run, inputMembers, outputMembers⟩ := block_findMatches type outpoints patterns block
  simp only [Block.Covered, mem_extractElements]
  constructor
  · intro ⟨inputs', outputs', same, _, outputsCovered, outpointsCovered⟩
    rw [run, Option.some.injEq, Prod.mk.injEq] at same
    obtain ⟨rfl, rfl⟩ := same
    constructor
    · intro one element reported
      exact outputsCovered one ((outputMembers one).mpr ⟨element, reported⟩) element reported
    · intro carries one reported
      exact outpointsCovered carries one ((inputMembers one).mpr (Or.inl reported)) reported
  · intro ⟨outputsCovered, outpointsCovered⟩
    refine ⟨inputs, outputs, run, ?_, ?_, ?_⟩
    · intro one _ element reported
      exact inputMatch_mentioned type patterns block one element reported
    · intro one _ element reported
      exact outputsCovered one element reported
    · intro carries one _ reported
      exact outpointsCovered carries one reported

theorem category_length : (List.replicate 32 (7 : UInt8)).length = 32 := rfl

/-- One output that carries a token, matched through its category alone. -/
def tokenBlock : Block where
  id := ⟨List.replicate 32 3, rfl⟩
  transactions := [{
    id := ⟨List.replicate 32 1, rfl⟩
    inputs := []
    outputs := [{
      script := { role := .output, elements := [{ opcode := OP.RETURN }] }
      cashtoken := some { category := ⟨List.replicate 32 7, category_length⟩ } }] }]

theorem tokenBlock_category_missed :
    ¬∀ (block : Block) (type : FilterType) (outpoints patterns : List (Nat × Bytes)),
      block.Covered type outpoints patterns := by
  intro always
  have found : tokenBlock.findMatches .es [] [(0, List.replicate 32 7)] =
      some ([], [⟨List.replicate 32 1, 0⟩]) := by decide
  obtain ⟨inputs, outputs, run, _, covered, _⟩ := always tokenBlock .es [] [(0, List.replicate 32 7)]
  rw [found, Option.some.injEq, Prod.mk.injEq] at run
  have reported : tokenBlock.OutputMatchFor .es [(0, List.replicate 32 7)]
      ⟨List.replicate 32 1, 0⟩ (List.replicate 32 7) :=
    ⟨_, List.mem_cons_self, _, List.mem_cons_self, rfl,
      (output_matchesKey _ _ _ _).mpr ⟨by decide, Or.inr ⟨rfl, _, rfl, rfl⟩⟩, by decide⟩
  exact absurd (covered _ (run.2 ▸ List.mem_cons_self) _ reported) (by decide)

end Opentxs.Bitcoin.Matches
