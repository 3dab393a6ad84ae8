import Mathlib.Data.Finset.Union
import Opentxs.Library.Decimal
import Opentxs.Library.Segments
import Opentxs.Library.SortedList
import Opentxs.Trading.Contracts

/-! Lists of numbers as text with commas: the scanner that adds the numbers of a text to a
list, and the text that a list is written as. -/

namespace Opentxs.Trading.NumList
open Library Library.Decimal Library.Segments
open Contracts

/-! ## The scanner -/

/-- What a signed integer of 64 bits holds. An overflow is undefined. -/
def signed (value : Int) : Option Int := if -2 ^ 63 ≤ value ∧ value < 2 ^ 63 then some value else none

/-- The list in `data` becomes the old one with what has been added. -/
structure Scan where
  data : Finset Int
  success : Bool := true
  lNum : Int := 0
  startedANumber : Bool := false
  added : List Int := []

namespace Scan

def addNumber (state : Scan) (value : Int) : Scan :=
  { state with
    data := insert value state.data
    success := state.success && decide (value ∉ state.data)
    added := state.added ++ [value] }

def digit (state : Scan) (char : Char) : Option Scan := do
  let tens ← signed (state.lNum * 10)
  let lNum ← signed (tens + (char.toNat - '0'.toNat : Nat))
  some { state with lNum, startedANumber := true }

/-- A zero is a number only if it was written. -/
def separator (state : Scan) : Scan :=
  let state := if 0 < state.lNum ∨ (state.startedANumber = true ∧ state.lNum = 0) then state.addNumber state.lNum else state
  { state with lNum := 0, startedANumber := false }

end Scan

/-- Behind each character the whitespace is skipped. -/
def scan : (rounds : Nat) → Text → Scan → Option Scan
  | 0, _, state => some state
  | _ + 1, [], state => some state.separator
  | rounds + 1, char :: rest, state =>
    if char.isDigit then do
      let state ← state.digit char
      scan rounds (rest.dropWhile isSpace) state
    else if char = ',' ∨ isSpace char = true then scan rounds (rest.dropWhile isSpace) state.separator
    else some { state with success := false }

/-- The text up to its first null character. -/
def cString (text : Text) : Text := text.takeWhile fun char => char ≠ '\x00'

def add (data : Finset Int) (text : Text) : Option Scan :=
  scan ((cString text).length + 1) ((cString text).dropWhile isSpace) { data }

def outputFrom : (first : Bool) → List Int → Text
  | _, [] => []
  | first, number :: numbers => (if first then [] else [',']) ++ serialize number ++ outputFrom false numbers

def output (data : Finset Int) : Text := outputFrom true (SortedList.ordered data)

/-! ## What is written -/

def isLegal (char : Char) : Bool := char.isDigit || decide (char = ',') || isSpace char

/-- The text up to the first illegal character. -/
def legalPart (text : Text) : Text := (cString text).takeWhile isLegal

/-- The numbers that a signed integer can hold among those that are written. -/
def numbers (text : Text) : List Int :=
  ((runs Char.isDigit (legalPart text)).map fun run => (value run : Int)).filter fun number => number < 2 ^ 63

/-- Those numbers are added and no others. -/
def Faithful (text : Text) : Prop :=
  ∀ data, ∃ final, add data text = some final ∧ final.added = numbers text ∧ final.data = data ∪ (numbers text).toFinset

/-- Between two commas there is at most one number, all numbers are small enough, and before an
illegal character there is a comma behind the last number. -/
structure Clean (text : Text) : Prop where
  small : ∀ run ∈ runs Char.isDigit (legalPart text), value run < 2 ^ 63
  apart : ∀ part ∈ (legalPart text).splitOn ',', (runs Char.isDigit part).length ≤ 1
  ended : legalPart text = cString text ∨ runs Char.isDigit (((legalPart text).splitOn ',').getLast (List.splitOn_ne_nil _ _)) = []

/-! ## One character at a time -/

/-- The scanner with whitespace as one more character. -/
def process (state : Scan) : Text → Option Scan
  | [] => some state.separator
  | char :: rest =>
    if isSpace char = true then process state rest
    else if char.isDigit then (state.digit char).bind fun state => process state rest
    else if char = ',' then process state.separator rest
    else some { state with success := false }

theorem scan_eq_process (text : Text) : ∀ rounds state, text.length < rounds →
    scan rounds (text.dropWhile isSpace) state = process state text := by
  induction text with
  | nil =>
    intro rounds state enough
    obtain ⟨rounds, rfl⟩ := Nat.exists_eq_succ_of_ne_zero (Nat.ne_of_gt enough)
    rfl
  | cons char rest ih =>
    intro rounds state enough
    rw [List.length_cons] at enough
    unfold process
    by_cases space : isSpace char = true
    · rw [List.dropWhile_cons, if_pos space, if_pos space]
      exact ih rounds state (by omega)
    · obtain ⟨rounds, rfl⟩ := Nat.exists_eq_succ_of_ne_zero (Nat.ne_of_gt (Nat.zero_lt_of_lt enough))
      rw [List.dropWhile_cons, if_neg space, if_neg space]
      unfold scan
      by_cases digit : char.isDigit = true
      · rw [if_pos digit, if_pos digit]
        refine congrArg (Option.bind (state.digit char)) (funext fun next => ?_)
        exact ih rounds next (by omega)
      · rw [if_neg digit, if_neg digit]
        by_cases comma : char = ','
        · rw [if_pos (.inl comma), if_pos comma]
          exact ih rounds state.separator (by omega)
        · rw [if_neg (fun either => either.elim comma space), if_neg comma]

/-! ## Part by part -/

/-- The digits of each part between commas, without what lies between them. -/
def groups (text : Text) : List Text := ((text.takeWhile isLegal).splitOn ',').map (List.filter Char.isDigit)

section

variable {char : Char} {rest : Text}

theorem isDigit_eq_false_of_isSpace (space : isSpace char = true) : char.isDigit = false := by
  rw [← Bool.not_eq_true]
  intro digit
  cases space.symm.trans (isSpace_eq_false digit)

theorem groups_cons_of_legal (legal : isLegal char = true) (other : char ≠ ',') :
    groups (char :: rest) = (groups rest).modifyHead fun group => if char.isDigit then char :: group else group := by
  unfold groups
  rw [List.takeWhile_cons, if_pos legal, List.splitOn_cons_eq_if_modifyHead, if_neg (by rw [beq_iff_eq]; exact other)]
  obtain ⟨first, others, parts⟩ := List.exists_cons_of_ne_nil (List.splitOn_ne_nil ',' (rest.takeWhile isLegal))
  rw [parts]
  show List.filter Char.isDigit (char :: first) :: others.map _ = (if char.isDigit then char :: first.filter Char.isDigit else first.filter Char.isDigit) :: others.map _
  rw [List.filter_cons]

theorem groups_cons_space (space : isSpace char = true) : groups (char :: rest) = groups rest := by
  have digit := isDigit_eq_false_of_isSpace space
  have other : char ≠ ',' := by
    rintro rfl
    exact absurd space (by decide)
  rw [groups_cons_of_legal (by unfold isLegal; rw [space, Bool.or_true]) other, digit]
  cases groups rest <;> rfl

theorem groups_cons_digit (digit : char.isDigit = true) : groups (char :: rest) = (groups rest).modifyHead (char :: ·) := by
  have other : char ≠ ',' := by
    rintro rfl
    exact absurd digit (by decide)
  rw [groups_cons_of_legal (by unfold isLegal; rw [digit]; rfl) other, digit]
  rfl

theorem groups_cons_comma : groups (',' :: rest) = [] :: groups rest := by
  unfold groups
  rw [List.takeWhile_cons, if_pos (by decide), List.splitOn_cons_eq_if_modifyHead, if_pos (beq_self_eq_true ',')]
  rfl

theorem groups_cons_illegal (illegal : isLegal char = false) : groups (char :: rest) = [[]] := by
  unfold groups
  rw [List.takeWhile_cons, if_neg (by rw [illegal]; decide)]
  rfl

theorem groups_ne_nil (text : Text) : groups text ≠ [] := by
  unfold groups
  rw [ne_eq, List.map_eq_nil_iff]
  exact List.splitOn_ne_nil _ _

end

/-- What a separator adds behind these digits. -/
def pending (digits : Text) : List Int := if digits = [] then [] else [(value digits : Int)]

/-- The groups with a separator behind them. -/
def terminated (text : Text) (groups : List Text) : List Text := if text.all isLegal then groups else groups.dropLast

/-- The digits of the number that the scanner is in. -/
structure Holds (state : Scan) (digits : Text) : Prop where
  allDigits : AllDigits digits
  small : value digits < 2 ^ 63
  lNum : state.lNum = value digits
  started : state.startedANumber = decide (digits ≠ [])

theorem Holds.separator {state : Scan} {digits : Text} (holds : Holds state digits) :
    Holds state.separator [] ∧ state.separator.added = state.added ++ pending digits ∧
      state.separator.data = state.data ∪ (pending digits).toFinset := by
  have fresh (state : Scan) (none_ : state.lNum = 0) (idle : state.startedANumber = false) : Holds state [] :=
    { allDigits := fun _ member => absurd member List.not_mem_nil
      small := by decide
      lNum := none_
      started := idle }
  unfold Scan.separator pending
  by_cases empty : digits = []
  · have none_ : ¬ (0 < state.lNum ∨ (state.startedANumber = true ∧ state.lNum = 0)) := by
      rw [holds.lNum, holds.started, empty]
      decide
    rw [if_neg none_, if_pos empty]
    exact ⟨fresh _ rfl rfl, (List.append_nil _).symm, (Finset.union_empty _).symm⟩
  · have some_ : 0 < state.lNum ∨ (state.startedANumber = true ∧ state.lNum = 0) := by
      rw [holds.lNum, holds.started, decide_eq_true empty]
      rcases (Int.natCast_nonneg (value digits)).lt_or_eq with above | zero
      · exact .inl above
      · exact .inr ⟨rfl, zero.symm⟩
    rw [if_pos some_, if_neg empty, ← holds.lNum]
    refine ⟨fresh _ rfl rfl, rfl, ?_⟩
    show insert state.lNum state.data = _
    rw [List.toFinset_cons, List.toFinset_nil, Finset.union_insert, Finset.union_empty]

theorem value_snoc (digits : Text) (char : Char) : value (digits ++ [char]) = value digits * 10 + (char.toNat - '0'.toNat) := by
  rw [value_append]
  have one : value [char] = char.toNat - '0'.toNat := by
    unfold value
    rw [Nat.ofDigitChars_cons, Nat.ofDigitChars_nil, Nat.mul_zero, Nat.zero_add]
  rw [one, List.length_singleton, Nat.pow_one]

theorem value_le_append (front back : Text) : value front ≤ value (front ++ back) := by
  rw [value_append]
  have scaled : value front * 1 ≤ value front * 10 ^ back.length := Nat.mul_le_mul_left _ (Nat.one_le_two_pow.trans (Nat.pow_le_pow_left (by decide) _))
  omega

theorem Holds.digit {state : Scan} {digits : Text} (holds : Holds state digits) {char : Char} (isDigit : char.isDigit = true) :
    if value (digits ++ [char]) < 2 ^ 63 then
      ∃ next, state.digit char = some next ∧ Holds next (digits ++ [char]) ∧ next.added = state.added ∧ next.data = state.data
    else state.digit char = none := by
  have sum := value_snoc digits char
  have lNum := holds.lNum
  unfold Scan.digit signed
  generalize char.toNat - '0'.toNat = digit at sum
  split
  · next small =>
    rw [if_pos (by omega), Option.bind_eq_bind, Option.bind_some, if_pos (by omega)]
    refine ⟨_, rfl, ?_, rfl, rfl⟩
    exact
      { allDigits := allDigits_append.mpr ⟨holds.allDigits, List.forall_mem_singleton.mpr isDigit⟩
        small
        lNum := by
          show state.lNum * 10 + (digit : Int) = _
          rw [sum, lNum]
          push_cast
          rfl
        started := (decide_eq_true (List.append_ne_nil_of_right_ne_nil _ (List.cons_ne_nil _ _))).symm }
  · next large =>
    by_cases tens : -2 ^ 63 ≤ state.lNum * 10 ∧ state.lNum * 10 < 2 ^ 63
    · rw [if_pos tens, Option.bind_eq_bind, Option.bind_some, if_neg (by omega)]
      rfl
    · rw [if_neg tens]
      rfl

/-- An overflow in any group ends the run, else each group with digits adds their value. -/
theorem process_spec (text : Text) : ∀ (state : Scan) (digits : Text), Holds state digits →
    ((∀ group ∈ (groups text).modifyHead (digits ++ ·), value group < 2 ^ 63) → ∃ final, process state text = some final ∧
      final.added = state.added ++ (terminated text ((groups text).modifyHead (digits ++ ·))).flatMap pending ∧
      final.data = state.data ∪ ((terminated text ((groups text).modifyHead (digits ++ ·))).flatMap pending).toFinset) ∧
    ((∃ group ∈ (groups text).modifyHead (digits ++ ·), ¬ value group < 2 ^ 63) → process state text = none) := by
  induction text with
  | nil =>
    intro state digits holds
    obtain ⟨_, added, data⟩ := holds.separator
    have only : terminated [] ((groups []).modifyHead (digits ++ ·)) = [digits] := by
      show [digits ++ []] = [digits]
      rw [List.append_nil]
    rw [only, List.flatMap_singleton]
    refine ⟨fun _ => ⟨_, rfl, added, data⟩, ?_⟩
    rintro ⟨group, member, large⟩
    obtain rfl : group = digits ++ [] := List.mem_singleton.mp member
    rw [List.append_nil] at large
    exact absurd holds.small large
  | cons char rest ih =>
    intro state digits holds
    unfold process
    by_cases space : isSpace char = true
    · have same (groups : List Text) : terminated (char :: rest) groups = terminated rest groups := by
        unfold terminated
        rw [List.all_cons, isLegal, space, Bool.or_true, Bool.true_and]
      rw [if_pos space, groups_cons_space space, same]
      exact ih state digits holds
    · rw [if_neg space]
      by_cases digit : char.isDigit = true
      · have same (groups : List Text) : terminated (char :: rest) groups = terminated rest groups := by
          unfold terminated
          rw [List.all_cons, isLegal, digit]
          rfl
        obtain ⟨first, others, parts⟩ := List.exists_cons_of_ne_nil (groups_ne_nil rest)
        have longer : (groups (char :: rest)).modifyHead (digits ++ ·) = (groups rest).modifyHead (digits ++ [char] ++ ·) := by
          rw [groups_cons_digit digit, parts]
          show (digits ++ char :: first) :: others = (digits ++ [char] ++ first) :: others
          rw [List.append_assoc, List.singleton_append]
        have next := holds.digit digit
        rw [if_pos digit, same, longer]
        split at next
        · obtain ⟨after, stepped, kept, added, data⟩ := next
          rw [stepped, Option.bind_some, ← added, ← data]
          exact ih after _ kept
        · next large =>
          have first_large : ¬ value (digits ++ [char] ++ first) < 2 ^ 63 := fun small => large ((value_le_append _ first).trans_lt small)
          rw [next, parts]
          refine ⟨fun all => absurd (all _ List.mem_cons_self) first_large, fun _ => rfl⟩
      · rw [if_neg digit]
        by_cases comma : char = ','
        · obtain ⟨fresh, added, data⟩ := holds.separator
          have whole : (groups rest).modifyHead ([] ++ ·) = groups rest := by
            show (groups rest).modifyHead id = _
            rw [List.modifyHead_id]
            rfl
          obtain ⟨runs_, ends⟩ := ih state.separator [] fresh
          rw [whole, added, data] at runs_
          rw [whole] at ends
          have parts : (groups (char :: rest)).modifyHead (digits ++ ·) = digits :: groups rest := by
            rw [comma, groups_cons_comma, List.modifyHead_cons, List.append_nil]
          have first : terminated (char :: rest) (digits :: groups rest) = digits :: terminated rest (groups rest) := by
            unfold terminated
            rw [List.all_cons, comma, List.dropLast_cons_of_ne_nil (groups_ne_nil rest)]
            show (if rest.all isLegal then _ else _) = _
            split <;> rfl
          rw [if_pos comma, parts, first, List.flatMap_cons, List.toFinset_append, ← List.append_assoc, ← Finset.union_assoc]
          refine ⟨fun all => runs_ fun group member => all group (List.mem_cons_of_mem _ member), ?_⟩
          rintro ⟨group, member, large⟩
          rcases List.mem_cons.mp member with rfl | later
          · exact absurd holds.small large
          · exact ends ⟨group, later, large⟩
        · have illegal : isLegal char = false := by
            unfold isLegal
            rw [Bool.eq_false_of_not_eq_true digit, Bool.eq_false_of_not_eq_true space, decide_eq_false comma]
            rfl
          have stops : terminated (char :: rest) [digits] = [] := by
            unfold terminated
            rw [List.all_cons, illegal]
            rfl
          rw [if_neg comma, groups_cons_illegal illegal, List.modifyHead_cons, List.append_nil, stops]
          refine ⟨fun _ => ⟨_, rfl, (List.append_nil _).symm, (Finset.union_empty _).symm⟩, ?_⟩
          rintro ⟨group, member, large⟩
          obtain rfl := List.mem_singleton.mp member
          exact absurd holds.small large

theorem add_spec (data : Finset Int) (text : Text) :
    ((∀ group ∈ groups (cString text), value group < 2 ^ 63) → ∃ final, add data text = some final ∧
      final.added = (terminated (cString text) (groups (cString text))).flatMap pending ∧
      final.data = data ∪ ((terminated (cString text) (groups (cString text))).flatMap pending).toFinset) ∧
    ((∃ group ∈ groups (cString text), ¬ value group < 2 ^ 63) → add data text = none) := by
  have start : Holds { data } [] :=
    { allDigits := fun _ member => absurd member List.not_mem_nil
      small := by decide
      lNum := rfl
      started := rfl }
  have spec := process_spec (cString text) { data } [] start
  have whole : (groups (cString text)).modifyHead ([] ++ ·) = groups (cString text) := by
    show (groups (cString text)).modifyHead id = _
    rw [List.modifyHead_id]
    rfl
  rw [whole, ← scan_eq_process (cString text) _ _ (Nat.lt_succ_self _)] at spec
  exact spec

/-! ## Groups and runs -/

theorem value_le_flatten {run : Text} {runs : List Text} (member : run ∈ runs) : value run ≤ value runs.flatten := by
  induction runs with
  | nil => exact absurd member List.not_mem_nil
  | cons first others ih =>
    rw [List.flatten_cons]
    rcases List.mem_cons.mp member with rfl | later
    · exact value_le_append run others.flatten
    · rw [value_append]
      exact (ih later).trans (Nat.le_add_left _ _)

/-- What a group adds, by the runs in its part. -/
theorem pending_group (part : Text) : (pending (part.filter Char.isDigit)).length = min 1 (runs Char.isDigit part).length ∧
    ((runs Char.isDigit part).length ≤ 1 → pending (part.filter Char.isDigit) = (runs Char.isDigit part).map fun run => (value run : Int)) := by
  rw [← flatten_runs]
  have some_ : ∀ run ∈ runs Char.isDigit part, run ≠ [] := fun _ => ne_nil_of_mem_runs
  generalize runs Char.isDigit part = all at some_
  cases all with
  | nil => exact ⟨rfl, fun _ => rfl⟩
  | cons first others =>
    have nonempty : (first :: others).flatten ≠ [] := by
      rw [List.flatten_cons]
      exact List.append_ne_nil_of_left_ne_nil (some_ first List.mem_cons_self) _
    unfold pending
    rw [if_neg nonempty]
    refine ⟨?_, fun single => ?_⟩
    · rw [List.length_singleton, List.length_cons]
      omega
    · obtain rfl : others = [] := List.eq_nil_of_length_eq_zero (by rw [List.length_cons] at single; omega)
      rw [List.flatten_singleton]
      rfl

theorem pending_groups (parts : List Text) :
    ((parts.map (List.filter Char.isDigit)).flatMap pending).length ≤ (parts.flatMap (runs Char.isDigit)).length ∧
    (((parts.map (List.filter Char.isDigit)).flatMap pending).length = (parts.flatMap (runs Char.isDigit)).length →
      ∀ part ∈ parts, (runs Char.isDigit part).length ≤ 1) ∧
    ((∀ part ∈ parts, (runs Char.isDigit part).length ≤ 1) →
      (parts.map (List.filter Char.isDigit)).flatMap pending = (parts.flatMap (runs Char.isDigit)).map fun run => (value run : Int)) := by
  induction parts with
  | nil => exact ⟨le_rfl, fun _ _ member => absurd member List.not_mem_nil, fun _ => rfl⟩
  | cons part parts ih =>
    obtain ⟨below, equal, same⟩ := ih
    obtain ⟨count, one⟩ := pending_group part
    rw [List.map_cons, List.flatMap_cons, List.flatMap_cons, List.length_append, List.length_append, count, List.map_append]
    refine ⟨by omega, fun whole => List.forall_mem_cons.mpr ⟨by omega, equal (by omega)⟩, fun all => ?_⟩
    obtain ⟨here, later⟩ := List.forall_mem_cons.mp all
    rw [one here, same later]

theorem legal_iff (text : Text) : (cString text).all isLegal = true ↔ legalPart text = cString text := by
  unfold legalPart
  rw [List.takeWhile_eq_self_iff, List.all_eq_true]

/-- A number is held in the group of its part, and no run but the last may lack a comma. -/
theorem terminated_eq (text : Text) : terminated (cString text) (groups (cString text)) =
    (if legalPart text = cString text then (legalPart text).splitOn ',' else ((legalPart text).splitOn ',').dropLast).map (List.filter Char.isDigit) := by
  have grouped : groups (cString text) = ((legalPart text).splitOn ',').map (List.filter Char.isDigit) := rfl
  unfold terminated
  rw [grouped]
  by_cases legal : legalPart text = cString text
  · rw [if_pos ((legal_iff text).mpr legal), if_pos legal]
  · rw [if_neg fun all => legal ((legal_iff text).mp all), if_neg legal, List.map_dropLast]

theorem numbers_eq {text : Text} (small : ∀ run ∈ runs Char.isDigit (legalPart text), value run < 2 ^ 63) :
    numbers text = (((legalPart text).splitOn ',').flatMap (runs Char.isDigit)).map fun run => (value run : Int) := by
  rw [runs_splitOn (legalPart text) (by decide : Char.isDigit ',' = false)]
  refine List.filter_eq_self.mpr fun number member => ?_
  obtain ⟨run, listed, rfl⟩ := List.mem_map.mp member
  have below := small run listed
  exact decide_eq_true (by omega)

theorem group_small_iff {part : Text} (single : (runs Char.isDigit part).length ≤ 1) :
    value (part.filter Char.isDigit) < 2 ^ 63 ↔ ∀ run ∈ runs Char.isDigit part, value run < 2 ^ 63 := by
  rw [← flatten_runs]
  generalize runs Char.isDigit part = all at single
  cases all with
  | nil => exact iff_of_true (by decide) fun _ member => absurd member List.not_mem_nil
  | cons first others =>
    obtain rfl : others = [] := List.eq_nil_of_length_eq_zero (by rw [List.length_cons] at single; omega)
    rw [List.flatten_singleton, List.forall_mem_singleton]

/-- Every number and no other is added exactly where the text is clean. -/
theorem faithful_iff (text : Text) : Faithful text ↔ Clean text := by
  have whole := runs_splitOn (legalPart text) (by decide : Char.isDigit ',' = false)
  have split : ((legalPart text).splitOn ',').flatMap (runs Char.isDigit) =
      ((legalPart text).splitOn ',').dropLast.flatMap (runs Char.isDigit) ++ runs Char.isDigit (((legalPart text).splitOn ',').getLast (List.splitOn_ne_nil _ _)) := by
    conv_lhs => rw [← List.dropLast_concat_getLast (List.splitOn_ne_nil ',' (legalPart text)), List.flatMap_append, List.flatMap_singleton]
  constructor
  · intro faithful
    obtain ⟨final, added, same, _⟩ := faithful ∅
    have small_groups : ∀ group ∈ groups (cString text), value group < 2 ^ 63 := by
      intro group member
      by_contra large
      cases added.symm.trans ((add_spec ∅ text).2 ⟨group, member, large⟩)
    obtain ⟨other, also, sum, _⟩ := (add_spec ∅ text).1 small_groups
    obtain rfl := Option.some.inj (added.symm.trans also)
    have small : ∀ run ∈ runs Char.isDigit (legalPart text), value run < 2 ^ 63 := by
      intro run member
      rw [← whole] at member
      obtain ⟨part, listed, inside⟩ := List.mem_flatMap.mp member
      refine lt_of_le_of_lt ?_ (small_groups _ (List.mem_map_of_mem listed))
      rw [← flatten_runs]
      exact value_le_flatten inside
    have count := congrArg List.length (sum.symm.trans (same.trans (numbers_eq small)))
    rw [List.length_map, terminated_eq] at count
    by_cases legal : legalPart text = cString text
    · rw [if_pos legal] at count
      exact ⟨small, (pending_groups _).2.1 count, .inl legal⟩
    · rw [if_neg legal, split, List.length_append] at count
      obtain ⟨below, equal, _⟩ := pending_groups ((legalPart text).splitOn ',').dropLast
      have none_ := List.eq_nil_of_length_eq_zero (by omega : (runs Char.isDigit (((legalPart text).splitOn ',').getLast (List.splitOn_ne_nil _ _))).length = 0)
      refine ⟨small, fun part member => ?_, .inr none_⟩
      rw [← List.dropLast_concat_getLast (List.splitOn_ne_nil ',' (legalPart text))] at member
      rcases List.mem_append.mp member with inner | last
      · exact equal (by omega) part inner
      · rw [List.mem_singleton.mp last, none_]
        exact Nat.zero_le 1
  · intro clean data
    have small_groups : ∀ group ∈ groups (cString text), value group < 2 ^ 63 := by
      intro group member
      obtain ⟨part, listed, rfl⟩ := List.mem_map.mp member
      refine (group_small_iff (clean.apart part listed)).mpr fun run inside => clean.small run ?_
      rw [← whole]
      exact List.mem_flatMap.mpr ⟨part, listed, inside⟩
    obtain ⟨final, added, sum, data_⟩ := (add_spec data text).1 small_groups
    have all : (terminated (cString text) (groups (cString text))).flatMap pending = numbers text := by
      rw [numbers_eq clean.small, terminated_eq]
      by_cases legal : legalPart text = cString text
      · rw [if_pos legal]
        exact (pending_groups _).2.2 clean.apart
      · rw [if_neg legal, split, clean.ended.resolve_left legal, List.append_nil]
        exact (pending_groups _).2.2 fun part member => clean.apart part (List.mem_of_mem_dropLast member)
    exact ⟨final, added, sum.trans all, data_.trans (by rw [all])⟩

/-! ## A list is read back -/

theorem outputFrom_eq (numbers : List Int) : outputFrom true numbers = [','].intercalate (numbers.map serialize) ∧
    (numbers ≠ [] → outputFrom false numbers = ',' :: [','].intercalate (numbers.map serialize)) := by
  induction numbers with
  | nil => exact ⟨rfl, fun some_ => absurd rfl some_⟩
  | cons number numbers ih =>
    have rest : serialize number ++ outputFrom false numbers = [','].intercalate ((number :: numbers).map serialize) := by
      cases numbers with
      | nil => rw [List.map_singleton, List.intercalate_singleton, outputFrom, List.append_nil]
      | cons next numbers =>
        have some_ : (next :: numbers).map serialize ≠ [] := List.cons_ne_nil _ _
        show serialize number ++ outputFrom false (next :: numbers) = [','].intercalate (serialize number :: (next :: numbers).map serialize)
        rw [ih.2 (List.cons_ne_nil _ _), List.intercalate_cons_of_ne_nil some_, List.append_assoc, List.singleton_append]
    exact ⟨rest, fun _ => congrArg (',' :: ·) rest⟩

section

variable {data : Finset Int} (small : ∀ number ∈ data, 0 ≤ number ∧ number < 2 ^ 63)
include small

theorem serialize_of_mem {number : Int} (member : number ∈ data) : serialize number = Nat.toDigits 10 number.natAbs := by
  unfold serialize
  rw [if_neg (not_lt.mpr (small number member).1)]

theorem value_serialize {number : Int} (member : number ∈ data) : (value (serialize number) : Int) = number := by
  rw [serialize_of_mem small member, value_toDigits, Int.natCast_natAbs, abs_of_nonneg (small number member).1]

/-- Each number is a run between commas. -/
theorem runs_output : runs Char.isDigit (output data) = (SortedList.ordered data).map serialize ∧
    ∀ part ∈ (output data).splitOn ',', (runs Char.isDigit part).length ≤ 1 := by
  have digits : ∀ part ∈ (SortedList.ordered data).map serialize, AllDigits part ∧ part ≠ [] := by
    intro part member
    obtain ⟨number, listed, rfl⟩ := List.mem_map.mp member
    rw [serialize_of_mem small ((SortedList.mem_ordered data number).mp listed)]
    exact ⟨allDigits_toDigits _, Nat.toDigits_ne_nil⟩
  have single : ∀ part ∈ (SortedList.ordered data).map serialize, runs Char.isDigit part = [part] :=
    fun part member => runs_of_all (digits part member).1 (digits part member).2
  unfold output
  rw [(outputFrom_eq _).1]
  generalize (SortedList.ordered data).map serialize = parts at digits single
  cases parts with
  | nil => exact ⟨rfl, List.forall_mem_singleton.mpr (Nat.zero_le 1)⟩
  | cons first others =>
    have separated : ([','].intercalate (first :: others)).splitOn ',' = first :: others := by
      refine List.splitOn_intercalate ',' (fun part member comma => ?_) (List.cons_ne_nil _ _)
      exact absurd ((digits part member).1 ',' comma) (by decide)
    refine ⟨?_, fun part member => ?_⟩
    · rw [← runs_splitOn _ (by decide : Char.isDigit ',' = false), separated]
      calc
        (first :: others).flatMap (runs Char.isDigit) = (first :: others).flatMap fun part => [part] := List.flatMap_congr single
        _ = first :: others := List.flatMap_singleton' _
    · rw [separated] at member
      rw [single part member]
      exact le_rfl

theorem legal_output : cString (output data) = output data ∧ legalPart (output data) = output data := by
  have legal (numbers : List Int) (among : ∀ number ∈ numbers, number ∈ data) : ∀ first, ∀ char ∈ outputFrom first numbers, isLegal char = true := by
    induction numbers with
    | nil => exact fun first char member => absurd member List.not_mem_nil
    | cons number numbers ih =>
      intro first char member
      obtain ⟨here, later⟩ := List.forall_mem_cons.mp among
      unfold outputFrom at member
      unfold isLegal
      rcases List.mem_append.mp member with front | back
      · rcases List.mem_append.mp front with comma | digit
        · cases first with
          | true => exact absurd comma List.not_mem_nil
          | false =>
            obtain rfl := List.mem_singleton.mp comma
            rfl
        · rw [serialize_of_mem small here] at digit
          rw [allDigits_toDigits _ char digit]
          rfl
      · exact ih later false char back
  have all := legal (SortedList.ordered data) (fun number => (SortedList.mem_ordered data number).mp) true
  have whole : cString (output data) = output data := by
    refine List.takeWhile_eq_self_iff.mpr fun char member => decide_eq_true ?_
    rintro rfl
    exact absurd (all _ member) (by decide)
  refine ⟨whole, ?_⟩
  unfold legalPart
  rw [whole]
  exact List.takeWhile_eq_self_iff.mpr all

theorem numbers_output : numbers (output data) = SortedList.ordered data := by
  unfold numbers
  rw [(legal_output small).2, (runs_output small).1, List.map_map]
  have values : (SortedList.ordered data).map ((fun run : Text => (value run : Int)) ∘ serialize) = SortedList.ordered data := by
    refine (List.map_congr_left fun number member => ?_).trans (List.map_id _)
    exact value_serialize small ((SortedList.mem_ordered data number).mp member)
  rw [values]
  exact List.filter_eq_self.mpr fun number member => decide_eq_true (small number ((SortedList.mem_ordered data number).mp member)).2

theorem clean_output : Clean (output data) where
  small run member := by
    rw [(legal_output small).2, (runs_output small).1] at member
    obtain ⟨number, listed, rfl⟩ := List.mem_map.mp member
    have inside := (SortedList.mem_ordered data number).mp listed
    have same := value_serialize small inside
    have below := (small number inside).2
    omega
  apart part member := by
    rw [(legal_output small).2] at member
    exact (runs_output small).2 part member
  ended := .inl ((legal_output small).2.trans (legal_output small).1.symm)

end

/-- A text adds the numbers that it lists where it is clean, and the text of a list is. -/
theorem number_text_faithful_iff (text : Text) (data : Finset Int) (small : ∀ number ∈ data, 0 ≤ number ∧ number < 2 ^ 63) :
    (Faithful text ↔ Clean text) ∧ ∃ final, add ∅ (output data) = some final ∧ final.data = data := by
  refine ⟨faithful_iff text, ?_⟩
  obtain ⟨final, added, _, same⟩ := (faithful_iff (output data)).mpr (clean_output small) ∅
  refine ⟨final, added, ?_⟩
  rw [same, numbers_output small, Finset.empty_union]
  ext number
  rw [List.mem_toFinset, SortedList.mem_ordered]

theorem two_numbers_read_back : (Faithful ['7', ',', ' ', '1', '2'] ↔ Clean ['7', ',', ' ', '1', '2']) ∧
    ∃ final, add ∅ (output {7, 12}) = some final ∧ final.data = {7, 12} :=
  number_text_faithful_iff ['7', ',', ' ', '1', '2'] {7, 12} (by decide)

/-- The digits on both sides of a space make one number. -/
theorem space_joins : ¬ ∀ text, Faithful text := by
  intro claim
  obtain ⟨final, added, _, same⟩ := claim ['1', ' ', '2'] ∅
  have twelve : (add ∅ ['1', ' ', '2']).map Scan.data = some {12} := by decide
  have two : (numbers ['1', ' ', '2']).toFinset = {1, 2} := by decide
  rw [added, Option.map_some, same, two] at twelve
  exact absurd (Option.some.inj twelve) (by decide)

end Opentxs.Trading.NumList
