import Mathlib.Data.List.Induction
import Mathlib.Tactic.FieldSimp
import Mathlib.Tactic.Linarith
import Opentxs.Display.Definitions

/-! What is shown of an amount is read back as its magnitude: separators and symbols are
skipped, the zeros at the end count for nothing, and the sign is skipped too. -/

namespace Opentxs.Display
open Library Library.Decimal
open Spend (Amount)

/-! ## What is kept of a text -/

theorem strip_append (front back : Text) : strip (front ++ back) = strip front ++ strip back := List.filter_append ..

theorem strip_eq_nil {text : Text} (skipped : ∀ char ∈ text, isKept char = false) : strip text = [] := by
  refine List.filter_eq_nil_iff.mpr fun char member => ?_
  rw [skipped char member]
  decide

theorem strip_of_allDigits {text : Text} (digits : AllDigits text) : strip text = text := by
  refine List.filter_eq_self.mpr fun char member => ?_
  show (char.isDigit || _) = true
  rw [digits char member, Bool.true_or]

theorem strip_point (text : Text) : strip ('.' :: text) = '.' :: strip text := rfl

theorem Spacing.strip_separator (state : Spacing) (wholeDigits : Nat) (char : Char) :
    strip (state.separator wholeDigits char).1 = [] := by
  unfold Spacing.separator
  split_ifs <;> rfl

theorem Spacing.strip_space (state : Spacing) (size : Nat) : strip (state.space size).1 = [] := by
  unfold Spacing.space
  split_ifs <;> rfl

theorem strip_spaced (size wholeDigits : Nat) (string : Text) :
    ∀ state, strip (spaced size wholeDigits state string) = strip string := by
  induction string with
  | nil => exact fun _ => rfl
  | cons char string ih =>
    intro state
    unfold spaced
    dsimp only
    rw [strip_append, strip_append, ih, Spacing.strip_space, List.append_nil, ← List.singleton_append, strip_append,
      Spacing.strip_separator, List.append_nil, ← strip_append]
    rfl

/-! ## The number as text -/

theorem nearest_natCast (number : Nat) : nearest number = number := by
  unfold nearest
  dsimp only
  rw [Nat.floor_natCast, sub_self, if_pos (.inl (by norm_num))]

theorem str_eq {number : ℚ} {digits scaled : Nat} (fits : |number| * 10 ^ digits = scaled) :
    str number digits = (if number < 0 then ['-'] else []) ++ Nat.toDigits 10 (scaled / 10 ^ digits) ++ '.' :: places digits scaled := by
  unfold str
  rw [fits, nearest_natCast]

theorem dropZeros_append (min : Nat) (front decimals : Text) :
    ∃ kept zeros, dropZeros min decimals.length (front ++ decimals) = (kept.length, front ++ kept) ∧
      decimals = kept ++ List.replicate zeros '0' := by
  induction decimals using List.reverseRec with
  | nil => exact ⟨[], 0, rfl, rfl⟩
  | append_singleton decimals last ih =>
    rw [List.length_append, List.length_singleton]
    unfold dropZeros
    rw [← List.append_assoc, List.getLast?_concat, List.dropLast_concat]
    split_ifs with zero
    · obtain ⟨kept, zeros, dropped, same⟩ := ih
      refine ⟨kept, zeros + 1, dropped, ?_⟩
      rw [Option.some.inj zero.2, List.replicate_succ', ← List.append_assoc, ← same]
    · refine ⟨decimals ++ [last], 0, ?_, (List.append_nil _).symm⟩
      rw [List.length_append, List.length_singleton, List.append_assoc]

theorem value_zeros (text : Text) (zeros : Nat) : value (text ++ List.replicate zeros '0') = value text * 10 ^ zeros := by
  induction zeros with
  | zero => rw [List.replicate_zero, List.append_nil, Nat.pow_zero, Nat.mul_one]
  | succ zeros ih =>
    rw [List.replicate_succ', ← List.append_assoc, value_append, ih, Nat.pow_succ, Nat.mul_assoc]
    rfl

/-- No point where nothing stands behind it. -/
def written (whole : Nat) (decimals : Text) : Text :=
  Nat.toDigits 10 whole ++ if decimals = [] then [] else '.' :: decimals

theorem point_not_mem {digits : Text} (all : AllDigits digits) : '.' ∉ digits :=
  fun member => absurd (all '.' member) (by decide)

theorem ofText_written (whole : Nat) {decimals : Text} (digits : AllDigits decimals) :
    ofText (written whole decimals) = some ((whole : ℚ) + value decimals / 10 ^ decimals.length) := by
  have front := point_not_mem (allDigits_toDigits whole)
  unfold ofText written
  split_ifs with empty
  · rw [List.append_nil, List.splitOn_eq_singleton front, empty]
    dsimp only
    rw [value_toDigits]
    show some (whole : ℚ) = some (whole + ((0 : Nat) : ℚ) / 10 ^ 0)
    rw [Nat.cast_zero, zero_div, add_zero]
  · rw [List.splitOn_append_cons_self_of_not_mem front, List.splitOn_eq_singleton (point_not_mem digits)]
    dsimp only
    rw [value_toDigits]

theorem getLast?_digits {front digits : Text} (all : AllDigits digits) (nonempty : digits ≠ []) :
    (front ++ digits).getLast? ≠ some '.' := by
  intro last
  rw [List.getLast?_append_of_ne_nil _ nonempty] at last
  exact point_not_mem all (List.mem_of_getLast? last)

/-! ## What is shown -/

/-- The decimals that are shown before the zeros at the end are dropped. -/
def shownDecimals (max : Int) : Nat := if max = 0 then 0 else Max.max (unsigned max) 1

def sign (number : ℚ) : Text := if number < 0 then ['-'] else []

theorem strip_sign (number : ℚ) (text : Text) : strip (sign number ++ text) = strip text := by
  unfold sign
  split_ifs <;> rfl

theorem strip_written (whole : Nat) {decimals : Text} (digits : AllDigits decimals) :
    strip (written whole decimals) = written whole decimals := by
  unfold written
  rw [strip_append, strip_of_allDigits (allDigits_toDigits whole)]
  split_ifs
  · rfl
  · rw [strip_point, strip_of_allDigits digits]

section

variable {scaled : ℚ} {min number : Nat}

theorem shown_without_decimals (fits : |scaled| = number) :
    (shown scaled min 0).string = sign scaled ++ written number [] := by
  have tenth : |scaled| * 10 ^ 1 = ((number * 10 : Nat) : ℚ) := by
    rw [fits, Nat.cast_mul, pow_one]
    rfl
  have digits : (str scaled 1).dropLast.dropLast = sign scaled ++ written number [] := by
    have shape : str scaled 1 = sign scaled ++ Nat.toDigits 10 number ++ ['.'] ++ [Nat.digitChar (number * 10 % 10)] := by
      rw [str_eq tenth, pow_one, Nat.mul_div_cancel _ (by decide), List.append_assoc _ ['.'] _]
      rfl
    rw [shape, List.dropLast_concat, List.dropLast_concat]
    exact congrArg (sign scaled ++ ·) (List.append_nil _).symm
  have last : (sign scaled ++ written number []).getLast? ≠ some '.' := by
    rw [show written number [] = Nat.toDigits 10 number from List.append_nil _]
    exact getLast?_digits (allDigits_toDigits number) Nat.toDigits_ne_nil
  show (if (str scaled 1).dropLast.dropLast.getLast? = some '.' then _ else _ : Shown).string = _
  rw [digits, if_neg last]
  exact digits

theorem shown_with_decimals {max : Int} (nonzero : max ≠ 0) (fits : |scaled| * 10 ^ Max.max (unsigned max) 1 = number) :
    ∃ whole decimals, (shown scaled min max).string = sign scaled ++ written whole decimals ∧ AllDigits decimals ∧
      (whole : ℚ) + value decimals / 10 ^ decimals.length = |scaled| := by
  unfold shown
  dsimp only
  rw [if_neg nonzero]
  dsimp only
  generalize Max.max (unsigned max) 1 = width at fits ⊢
  obtain ⟨kept, zeros, dropped, same⟩ := dropZeros_append min
    (sign scaled ++ Nat.toDigits 10 (number / 10 ^ width) ++ ['.']) (places width number)
  have digits : AllDigits kept := (allDigits_append.mp (same ▸ allDigits_places width number)).1
  refine ⟨number / 10 ^ width, kept, ?_, digits, ?_⟩
  · have shape : str scaled width =
        sign scaled ++ Nat.toDigits 10 (number / 10 ^ width) ++ ['.'] ++ places width number := by
      rw [str_eq fits, List.append_assoc _ ['.'] _]
      rfl
    rw [length_places] at dropped
    rw [shape, dropped]
    dsimp only
    by_cases empty : kept = []
    · rw [empty, List.append_nil, List.getLast?_concat, if_pos rfl, List.dropLast_concat]
      exact congrArg (sign scaled ++ ·) (List.append_nil _).symm
    · rw [if_neg (getLast?_digits digits empty)]
      unfold written
      rw [if_neg empty, List.append_assoc, List.append_assoc]
      rfl
  · have length : width = kept.length + zeros := by
      rw [← length_places width number, same, List.length_append, List.length_replicate]
    have below : number % 10 ^ width = value kept * 10 ^ zeros := by
      rw [← value_places, same, value_zeros]
    have parts : (number : ℚ) = 10 ^ width * (number / 10 ^ width : Nat) + value kept * 10 ^ zeros := by
      have divided := Nat.div_add_mod number (10 ^ width)
      rw [below] at divided
      exact_mod_cast divided.symm
    rw [← fits, length, pow_add] at parts
    rw [length]
    field_simp at parts ⊢
    linarith

/-- Where no more decimals are needed than are shown, what is kept of the text is the magnitude. -/
theorem ofText_shown {max : Int} (fits : |scaled| * 10 ^ shownDecimals max = number) :
    ofText (strip (shown scaled min max).text) = some |scaled| := by
  have shape : ∃ whole decimals, (shown scaled min max).string = sign scaled ++ written whole decimals ∧ AllDigits decimals ∧
      (whole : ℚ) + value decimals / 10 ^ decimals.length = |scaled| := by
    unfold shownDecimals at fits
    split_ifs at fits with zero
    · rw [pow_zero, mul_one] at fits
      refine ⟨number, [], ?_, List.forall_mem_nil _, ?_⟩
      · rw [zero, shown_without_decimals fits]
      · show (number : ℚ) + ((0 : Nat) : ℚ) / 10 ^ 0 = |scaled|
        rw [fits, Nat.cast_zero, zero_div, add_zero]
    · exact shown_with_decimals zero fits
  obtain ⟨whole, decimals, string, digits, amount⟩ := shape
  unfold Shown.text
  rw [strip_spaced, string, strip_sign, strip_written whole digits, ofText_written whole digits, amount]

end

/-! ## A scale and back -/

/-- The value of the amount in the scale needs no more decimals than are shown. -/
def NeedsNoMore (scale : Scale) (amount : Amount) (minDecimals maxDecimals : Option UInt8) : Prop :=
  ∃ values, calculated scale.ratios = some values ∧
    ∃ number : Int, toFloat amount * values.outgoing * 10 ^ shownDecimals (effectiveLimits scale values minDecimals maxDecimals).2 = number

theorem foldl_ratios (ratios : List Ratio) (positive : ∀ ratio ∈ ratios, 0 < ratio.1) : ∀ incoming outgoing : ℚ,
    0 < incoming → incoming * outgoing = 1 →
    0 < ratios.foldl (fun output ratio => output * (ratio.1 : ℚ) ^ ratio.2) incoming ∧
      ratios.foldl (fun output ratio => output * (ratio.1 : ℚ) ^ ratio.2) incoming *
        ratios.foldl (fun output ratio => output * (ratio.1 : ℚ) ^ (-1 * ratio.2)) outgoing = 1 := by
  induction ratios with
  | nil => exact fun _ _ above inverse => ⟨above, inverse⟩
  | cons ratio ratios ih =>
    intro incoming outgoing above inverse
    have base : (0 : ℚ) < ratio.1 := Nat.cast_pos.mpr (positive ratio List.mem_cons_self)
    refine ih (fun other member => positive other (List.mem_cons_of_mem _ member)) _ _ (mul_pos above (zpow_pos base _)) ?_
    calc incoming * (ratio.1 : ℚ) ^ ratio.2 * (outgoing * (ratio.1 : ℚ) ^ (-1 * ratio.2))
        = incoming * outgoing * ((ratio.1 : ℚ) ^ ratio.2 * (ratio.1 : ℚ) ^ (-1 * ratio.2)) := by ring
      _ = 1 := by rw [inverse, ← zpow_add₀ base.ne', neg_one_mul, add_neg_cancel, zpow_zero, one_mul]

theorem floatToAmount_toFloat {amount : Amount} (fits : amount.fits = true) : floatToAmount |toFloat amount| = some |amount| := by
  have unit : (0 : ℚ) < Spend.Amount.unit := Int.cast_pos.mpr Spend.Amount.unit_pos
  have integer : |toFloat amount| * Spend.Amount.unit = ((|amount| : Int) : ℚ) := by
    unfold toFloat
    rw [abs_div, abs_of_pos unit, div_mul_cancel₀ _ unit.ne', Int.cast_abs]
  unfold floatToAmount
  rw [integer, Rat.num_intCast, Rat.den_intCast, Nat.cast_one, Int.tdiv_one]
  refine if_pos ?_
  unfold Spend.Amount.fits at fits ⊢
  rw [Int.natAbs_abs]
  exact fits

theorem strip_around {scale : Scale} (legible : Legible scale) (text : Text) :
    strip (scale.prefix_ ++ text ++ if scale.suffix_ = [] then [] else ' ' :: scale.suffix_) = strip text := by
  have front : strip scale.prefix_ = [] := strip_eq_nil fun char member => legible.skipped char (List.mem_append_left _ member)
  have back : strip (if scale.suffix_ = [] then [] else ' ' :: scale.suffix_) = [] := by
    split_ifs
    · rfl
    · exact strip_eq_nil (List.forall_mem_cons.mpr ⟨rfl, fun char member => legible.skipped char (List.mem_append_right _ member)⟩)
  rw [strip_append, strip_append, front, back, List.nil_append, List.append_nil]

theorem calculated_eq {scale : Scale} (legible : Legible scale) : calculated scale.ratios =
    some ⟨calculateIncomingRatio scale.ratios, calculateOutgoingRatio scale.ratios,
      maximumDecimals (calculateIncomingRatio scale.ratios), legible.bounded⟩ :=
  dif_pos legible.bounded

/-- The sign is lost on the way. -/
theorem import_format {scale : Scale} (legible : Legible scale) {amount : Amount} (fits : amount.fits = true)
    {minDecimals maxDecimals : Option UInt8} (enough : NeedsNoMore scale amount minDecimals maxDecimals) :
    ∃ text, format scale amount minDecimals maxDecimals = some text ∧ import_ scale text = some (some |amount|) := by
  obtain ⟨values, ready, number, decimals⟩ := enough
  have ratios : 0 < values.incoming ∧ values.incoming * values.outgoing = 1 := by
    rw [calculated_eq legible, Option.some.injEq] at ready
    rw [← ready]
    exact foldl_ratios scale.ratios legible.powers 1 1 one_pos (one_mul 1)
  have magnitude : |toFloat amount * values.outgoing| *
      10 ^ shownDecimals (effectiveLimits scale values minDecimals maxDecimals).2 = (number.natAbs : ℚ) := by
    rw [Nat.cast_natAbs, Int.cast_abs, ← decimals, abs_mul (toFloat amount * values.outgoing), abs_of_pos (pow_pos (by norm_num : (0 : ℚ) < 10) _)]
  have scaled : values.incoming * |toFloat amount * values.outgoing| = |toFloat amount| := by
    have outgoing : 0 < values.outgoing := pos_of_mul_pos_right (ratios.2 ▸ one_pos) ratios.1.le
    rw [abs_mul, abs_of_pos outgoing, mul_comm |toFloat amount|, ← mul_assoc, ratios.2, one_mul]
  unfold format import_
  rw [ready]
  refine ⟨_, rfl, ?_⟩
  rw [strip_around legible, ofText_shown magnitude]
  show some (floatToAmount (values.incoming * |toFloat amount * values.outgoing|)) = _
  rw [scaled, floatToAmount_toFloat fits]

/-- What is shown of an amount in a built-in scale is read back as the amount when it is not negative. -/
theorem read_back_iff {scale : Scale} (known : scale ∈ builtIn) {amount : Amount} (fits : amount.fits = true)
    {minDecimals maxDecimals : Option UInt8} (enough : NeedsNoMore scale amount minDecimals maxDecimals) :
    (∃ text, format scale amount minDecimals maxDecimals = some text ∧ import_ scale text = some (some amount)) ↔ 0 ≤ amount := by
  obtain ⟨text, formatted, imported⟩ := import_format (builtIn_legible scale known) fits enough
  rw [formatted, ← abs_eq_self]
  constructor
  · rintro ⟨other, same, result⟩
    rw [← Option.some.inj same, imported, Option.some.injEq, Option.some.injEq] at result
    exact result
  · intro positive
    exact ⟨text, rfl, by rw [imported, positive]⟩

theorem bitcoin_mem : powerOfTen 8 8 "₿" ∈ builtIn := by decide +kernel

theorem satoshi_mem : powerOfTen 0 0 "sats" ∈ builtIn := by decide +kernel

/-- A bitcoin and a half. -/
theorem read_back_bitcoin :
    (∃ text, format (powerOfTen 8 8 "₿") (150000000 * Spend.Amount.unit) none none = some text ∧
      import_ (powerOfTen 8 8 "₿") text = some (some (150000000 * Spend.Amount.unit))) ↔
      (0 : Amount) ≤ 150000000 * Spend.Amount.unit := by
  refine read_back_iff bitcoin_mem (by decide +kernel) ⟨_, calculated_eq (builtIn_legible _ bitcoin_mem), 150000000, ?_⟩
  decide +kernel

/-- The minus in front of a satoshi is not read. -/
theorem minus_is_lost : ¬ ∀ scale ∈ builtIn, ∀ amount : Amount, amount.fits = true → ∀ minDecimals maxDecimals,
    NeedsNoMore scale amount minDecimals maxDecimals →
    ∃ text, format scale amount minDecimals maxDecimals = some text ∧ import_ scale text = some (some amount) := by
  intro claim
  obtain ⟨text, formatted, imported⟩ := claim _ satoshi_mem (-Spend.Amount.unit) (by decide +kernel) none none
    ⟨_, calculated_eq (builtIn_legible _ satoshi_mem), -1, by decide +kernel⟩
  have written : format (powerOfTen 0 0 "sats") (-Spend.Amount.unit) none none = some "-1 sats".toList := by decide +kernel
  have read : import_ (powerOfTen 0 0 "sats") "-1 sats".toList = some (some Spend.Amount.unit) := by decide +kernel
  rw [Option.some.inj (written.symm.trans formatted), imported] at read
  exact absurd read (by decide +kernel)

end Opentxs.Display
