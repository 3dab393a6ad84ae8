import Opentxs.Spend.Balance

/-! When the builder of a normal transaction ends the program: the amounts that have to fit, and the
assertions about the change that is shared out. -/

namespace Opentxs.Spend.Builder
open Library Library.Endian Bitcoin BitcoinScript Blockchain Amount
open Program (Meets meets_bind meets_pure meets_get meets_modify meets_require meets_onlyIf meets_catching)
open Wallet.Types (Key TxoTag Outpoint)

variable {ω : Type} (node : Node ω) {start : Builder ω} {stops : Stop → Prop}

/-- Building stops with a failure that it reports, neither with an exception nor with the end of the program. -/
def Fails : Stop → Prop
  | .failed _ => True
  | .exception | .terminate => False

/-! ## Amounts that fit -/

def Comparable (state : Builder ω) : Prop :=
  fits (state.outputValue + state.notificationValue) = true ∧ fits (estimate state * node.feeRate) = true ∧
    fits (state.outputValue + state.notificationValue + feeFor node (estimate state)) = true

instance (state : Builder ω) : Decidable (Comparable node state) := inferInstanceAs (Decidable (_ ∧ _ ∧ _))

/-- The inputs cover the outputs, what is set aside for the notifications, and the fee. -/
def Covers (state : Builder ω) : Prop :=
  state.outputValue + state.notificationValue + feeFor node (estimate state) ≤ state.inputValue

instance (state : Builder ω) : Decidable (Covers node state) := inferInstanceAs (Decidable (_ ≤ _))

/-- What the inputs have more than the outputs and the fee. -/
def excess (state : Builder ω) : Amount := state.inputValue - (state.outputValue + feeFor node (estimate state))

def Subtractable (state : Builder ω) : Prop :=
  fits (estimate state * node.feeRate) = true ∧ fits (state.outputValue + feeFor node (estimate state)) = true ∧
    fits (excess node state) = true

instance (state : Builder ω) : Decidable (Subtractable node state) := inferInstanceAs (Decidable (_ ∧ _ ∧ _))

def dustUnits : Nat := extractUInt64 ((148 * node.feeRate).tdiv 1000)

variable {node}

theorem meets_gives {α : Type} {view : Builder ω → Except Stop α} {returns : α → Builder ω → Prop} :
    Meets (look view) returns (fun stop _ => stops stop) start ↔ Gives (view start) (fun value => returns value start) stops := by
  unfold Meets look Gives
  cases view start <;> rfl

theorem gives_requiredFee (unsigned : start.segwit = false) {returns : Amount → Prop} :
    Gives (requiredFee node start) returns stops ↔
      if fits (estimate start * node.feeRate) then returns (feeFor node (estimate start)) else stops .terminate := by
  unfold requiredFee
  rw [bytes_eq unsigned, gives_bind, gives_ok, gives_bind, gives_checked]
  rfl

theorem meets_isFunded (unsigned : start.segwit = false) {returns : Bool → Builder ω → Prop} :
    Meets (look (isFunded node)) returns (fun stop _ => stops stop) start ↔
      if Comparable node start then returns (decide (Covers node start)) start else stops .terminate := by
  rw [meets_gives]
  unfold isFunded
  rw [gives_bind, gives_checked]
  by_cases first : fits (start.outputValue + start.notificationValue) = true
  · rw [if_pos first, gives_bind, gives_requiredFee unsigned]
    by_cases second : fits (estimate start * node.feeRate) = true
    · rw [if_pos second, gives_bind, gives_checked]
      by_cases third : fits (start.outputValue + start.notificationValue + feeFor node (estimate start)) = true
      · rw [if_pos third, if_pos (show Comparable node start from ⟨first, second, third⟩)]
        rfl
      · rw [if_neg third, if_neg fun all : Comparable node start => third all.2.2]
    · rw [if_neg second, if_neg fun all : Comparable node start => second all.2.1]
  · rw [if_neg first, if_neg fun all : Comparable node start => first all.1]

theorem meets_excessValue (unsigned : start.segwit = false) {returns : Amount → Builder ω → Prop} :
    Meets (look (excessValue node)) returns (fun stop _ => stops stop) start ↔
      if Subtractable node start then returns (excess node start) start else stops .terminate := by
  rw [meets_gives]
  unfold excessValue
  rw [gives_bind, gives_requiredFee unsigned]
  by_cases first : fits (estimate start * node.feeRate) = true
  · rw [if_pos first, gives_bind, gives_checked]
    by_cases second : fits (start.outputValue + feeFor node (estimate start)) = true
    · rw [if_pos second, gives_checked]
      show (if fits (excess node start) then returns (excess node start) start else stops .terminate) ↔ _
      by_cases third : fits (excess node start) = true
      · rw [if_pos third, if_pos (show Subtractable node start from ⟨first, second, third⟩)]
      · rw [if_neg third, if_neg fun all : Subtractable node start => third all.2.2]
    · rw [if_neg second, if_neg fun all : Subtractable node start => second all.2.1]
  · rw [if_neg first, if_neg fun all : Subtractable node start => first all.1]

theorem meets_dust {returns : Nat → Builder ω → Prop} :
    Meets (look fun _ => dust node) returns (fun stop _ => stops stop) start ↔
      if fits (148 * node.feeRate) then returns (dustUnits node) start else stops .terminate := by
  rw [meets_gives]
  unfold dust
  rw [gives_bind, gives_checked]
  rfl

/-! ## Sharing out -/

theorem natAbs_between {low middle high : Int} {bound : Nat} (above : low.natAbs < bound) (below : high.natAbs < bound)
    (left : low ≤ middle) (right : middle ≤ high) : middle.natAbs < bound := by omega

theorem fits_between {low amount high : Amount} (above : fits low = true) (below : fits high = true) (left : low ≤ amount)
    (right : amount ≤ high) : fits amount = true := by
  unfold fits at above below ⊢
  rw [decide_eq_true_eq] at above below ⊢
  exact natAbs_between above below left right

/-- The shares go through when the last total fits, since the totals only grow. -/
theorem giveShares_gives {share : Nat} (change : List TransactionOutput) :
    ∀ {total : Amount} {remaining : Nat} {returns : List TransactionOutput × Amount × Nat → Prop}, fits total = true →
      (Gives (giveShares share change total remaining) returns stops ↔
        if fits (total + ofUnsigned (change.length * share)) then
          returns (change.map (TransactionOutput.setValue (ofUnsigned share)), total + ofUnsigned (change.length * share),
            remaining - change.length * share)
        else stops .terminate) := by
  induction change with
  | nil =>
    intro total remaining returns fit
    have same : total + ofUnsigned (([] : List TransactionOutput).length * share) = total := by
      show total + ofUnsigned (0 * share) = total
      rw [Nat.zero_mul]
      exact Int.add_zero total
    rw [same, if_pos fit]
    show returns _ ↔ returns _
    rw [List.length_nil, Nat.zero_mul, Nat.sub_zero]
    rfl
  | cons output others ih =>
    intro total remaining returns fit
    have product : (output :: others).length * share = share + others.length * share := by
      rw [List.length_cons, Nat.succ_mul, Nat.add_comm]
    unfold giveShares
    rw [gives_bind, gives_checked, product, ofUnsigned_add, ← Int.add_assoc, Nat.sub_add_eq]
    show (if fits (total + ofUnsigned share) then _ else _) ↔ _
    by_cases first : fits (total + ofUnsigned share) = true
    · rw [if_pos first, gives_bind, TransactionOutput.value_setValue, ih first]
      rfl
    · have grows : ¬ fits (total + ofUnsigned share + ofUnsigned (others.length * share)) = true := by
        intro last
        apply first
        apply fits_between fit last
        · exact Int.le_add_of_nonneg_right (ofUnsigned_nonneg share)
        · exact Int.le_add_of_nonneg_right (ofUnsigned_nonneg _)
      rw [if_neg first, if_neg grows]

/-- The values that are shared out have at most 64 bits, and one more unit does no harm. -/
theorem fits_value {units : Nat} (small : units < 2 ^ 64) : fits (ofUnsigned units + ofUnsigned 1) = true := by
  rw [← ofUnsigned_add]
  have low : fits 0 = true := by decide +kernel
  have high : fits (ofUnsigned (2 ^ 64)) = true := by decide +kernel
  exact fits_between low high (ofUnsigned_nonneg _) (ofUnsigned_le.mpr small)

theorem giveRemainder_gives {share : Nat} (small : share < 2 ^ 64) (change : List TransactionOutput) :
    ∀ {total : Amount} {remaining : Nat} {returns : List TransactionOutput × Amount × Nat → Prop}, fits total = true →
      0 < remaining → remaining ≤ change.length → (∀ output ∈ change, output.value = ofUnsigned share) →
      (∀ result, result.2.1 = total + ofUnsigned remaining → result.2.2 = 0 → returns result) →
      (Gives (giveRemainder change total remaining) returns Fails ↔
        fits (total + ofUnsigned remaining) = true) := by
  induction change with
  | nil =>
    intro total remaining returns _ positive enough
    exact absurd enough (Nat.not_le.mpr positive)
  | cons output others ih =>
    intro total remaining returns fit positive enough values fine
    unfold giveRemainder
    have value := values output List.mem_cons_self
    rw [gives_bind, gives_checked, value, if_pos (fits_value small), gives_bind, gives_checked]
    by_cases first : fits (total + ofUnsigned 1) = true
    · rw [if_pos first]
      by_cases last : remaining - 1 = 0
      · have one : remaining = 1 := by omega
        rw [if_pos last, gives_ok, one]
        apply iff_of_true _ first
        apply fine
        · rw [one]
        · rfl
      · rw [if_neg last, gives_bind]
        have split : total + ofUnsigned remaining = total + ofUnsigned 1 + ofUnsigned (remaining - 1) := by
          rw [Int.add_assoc, ← ofUnsigned_add, Nat.add_sub_cancel' positive]
        rw [split] at fine ⊢
        apply ih first (by omega) (by rw [List.length_cons] at enough; omega)
          (fun other member => values other (List.mem_cons_of_mem output member))
        intro result sum nothing
        exact fine _ sum nothing
    · rw [if_neg first]
      apply iff_of_false id
      · intro last
        apply first
        apply fits_between fit last
        · exact Int.le_add_of_nonneg_right (ofUnsigned_nonneg 1)
        · exact Int.add_le_add_left (ofUnsigned_le.mpr positive) total

variable (node) in
/-- There is enough for every output of the change to be worth it, and the outputs still have a total. -/
def Sharable (state : Builder ω) : Prop :=
  dustUnits node * state.change.length ≤ extractUInt64 (excess node state) ∧
    fits (state.outputValue + ofUnsigned (extractUInt64 (excess node state))) = true

theorem distributeChangeAmounts_iff (unsigned : start.segwit = false) (within : fits start.outputValue = true)
    (nonempty : start.change ≠ []) (subtractable : Subtractable node start) (dustFits : fits (148 * node.feeRate) = true) :
    Meets (distributeChangeAmounts node) (fun _ _ => True) (fun stop _ => Fails stop) start ↔ Sharable node start := by
  have positive : 0 < start.change.length := List.length_pos_iff.mpr nonempty
  unfold distributeChangeAmounts
  rw [meets_bind, meets_get, meets_bind, meets_assertTrue, if_pos (decide_eq_true positive), meets_bind,
    meets_excessValue unsigned, if_pos subtractable, meets_bind, meets_dust, if_pos dustFits, meets_bind, meets_assertTrue]
  by_cases worth : dustUnits node ≤ extractUInt64 (excess node start) / start.change.length
  · rw [if_pos (decide_eq_true worth), meets_bind, meets_gives, giveShares_gives start.change within]
    have whole := Nat.mul_div_le (extractUInt64 (excess node start)) start.change.length
    have rest := Nat.mod_lt (extractUInt64 (excess node start)) positive
    have parts := Nat.div_add_mod (extractUInt64 (excess node start)) start.change.length
    have values : ∀ output ∈ start.change.map (TransactionOutput.setValue (ofUnsigned (extractUInt64 (excess node start) /
        start.change.length))), output.value = ofUnsigned (extractUInt64 (excess node start) / start.change.length) := by
      intro output member
      obtain ⟨old, _, rfl⟩ := List.mem_map.mp member
      rfl
    have small : extractUInt64 (excess node start) / start.change.length < 2 ^ 64 :=
      lt_of_le_of_lt (Nat.div_le_self _ _) (extractUInt64_lt _)
    have shared : start.outputValue + ofUnsigned (start.change.length * (extractUInt64 (excess node start) / start.change.length)) ≤
        start.outputValue + ofUnsigned (extractUInt64 (excess node start)) :=
      Int.add_le_add_left (ofUnsigned_le.mpr whole) _
    by_cases first : fits (start.outputValue +
        ofUnsigned (start.change.length * (extractUInt64 (excess node start) / start.change.length))) = true
    · rw [if_pos first, meets_bind, meets_gives]
      have worthIt : Sharable node start ↔ fits (start.outputValue + ofUnsigned (extractUInt64 (excess node start))) = true :=
        ⟨And.right, fun last => ⟨(Nat.le_div_iff_mul_le positive).mp worth, last⟩⟩
      by_cases left : 0 < extractUInt64 (excess node start) -
          start.change.length * (extractUInt64 (excess node start) / start.change.length)
      · have total : start.outputValue + ofUnsigned (start.change.length * (extractUInt64 (excess node start) /
              start.change.length)) + ofUnsigned (extractUInt64 (excess node start) -
              start.change.length * (extractUInt64 (excess node start) / start.change.length)) =
            start.outputValue + ofUnsigned (extractUInt64 (excess node start)) := by
          rw [Int.add_assoc, ← ofUnsigned_add, Nat.add_sub_cancel' whole]
        rw [if_pos left, worthIt, ← total]
        apply giveRemainder_gives small _ first left (by rw [List.length_map]; omega) values
        intro result _ nothing
        apply meets_bind.mpr
        apply meets_modify.mpr
        apply meets_bind.mpr
        apply meets_assertTrue.mpr
        rw [if_pos (decide_eq_true nothing)]
        trivial
      · have exact : start.change.length * (extractUInt64 (excess node start) / start.change.length) =
            extractUInt64 (excess node start) := by omega
        rw [if_neg left, worthIt]
        rw [exact] at first ⊢
        apply iff_of_true _ first
        apply meets_bind.mpr
        apply meets_modify.mpr
        apply meets_bind.mpr
        apply meets_assertTrue.mpr
        rw [if_pos (decide_eq_true (Nat.sub_self _))]
        trivial
    · rw [if_neg first]
      apply iff_of_false id
      intro sharable
      exact first (fits_between within sharable.2 (Int.le_add_of_nonneg_right (ofUnsigned_nonneg _)) shared)
  · rw [if_neg fun holds => worth (of_decide_eq_true holds)]
    exact iff_of_false id fun sharable => worth ((Nat.le_div_iff_mul_le positive).mpr sharable.1)

variable (node) in
/-- Too little is left to be worth an output, and there is change that can be dropped. -/
def Drops (state : Builder ω) : Prop := excess node state < ofUnsigned (dustUnits node) ∧ canDropLast state.change = true

variable (node) in
/-- The outputs can be finished. -/
def Finishable (state : Builder ω) : Prop :=
  Subtractable node state ∧ fits (148 * node.feeRate) = true ∧ (Drops node state ∨ Sharable node state)

theorem shareOut_iff (unsigned : start.segwit = false) (within : fits start.outputValue = true) (nonempty : start.change ≠ [])
    (subtractable : Subtractable node start) (dustFits : fits (148 * node.feeRate) = true) :
    Meets (do
      let state ← Program.get
      Program.onlyIf (state.change ≠ []) (distributeChangeAmounts node)
      bip69) (fun _ _ => True) (fun stop _ => Fails stop) start ↔ Sharable node start := by
  rw [meets_bind, meets_get, meets_bind, meets_onlyIf, if_pos nonempty]
  exact distributeChangeAmounts_iff unsigned within nonempty subtractable dustFits

theorem Reserve.canDropLast {value : Nat} {state : Builder ω} (reserve : Reserve node value state) :
    Builder.canDropLast state.change = true ↔ ∃ output, state.change = [output] ∧ IsChange node output := by
  cases reserve with
  | notifications nonempty all _ =>
    have last := List.getLast?_eq_some_getLast nonempty
    apply iff_of_false
    · intro can
      unfold Builder.canDropLast at can
      rw [last] at can
      exact of_decide_eq_true can (all _ (List.getLast_mem nonempty))
    · rintro ⟨output, only, made⟩
      exact made.droppable (all output (by rw [only]; exact List.mem_singleton_self output))
  | change output only made _ =>
    apply iff_of_true _ ⟨output, only, made⟩
    rw [only]
    exact decide_eq_true made.droppable

theorem finalizeOutputs_iff {paid : List TransactionOutput} {value : Nat} (ready : Ready node paid value start) :
    Meets (finalizeOutputs node) (fun _ _ => True) (fun stop _ => Fails stop) start ↔
      Comparable node start ∧ Covers node start ∧ Finishable node start := by
  have unsigned := ready.totals.segwit
  have nonempty : start.change ≠ [] := by
    cases ready.reserve with
    | notifications nonempty _ _ => exact nonempty
    | change output only _ _ =>
      rw [only]
      exact List.cons_ne_nil _ _
  unfold finalizeOutputs
  rw [meets_bind, meets_isFunded unsigned]
  by_cases comparable : Comparable node start
  · rw [if_pos comparable, meets_bind, meets_assertTrue]
    by_cases covers : Covers node start
    · have some : (!start.change.isEmpty) = true := by
        rw [Bool.not_eq_true', List.isEmpty_eq_false_iff]
        exact nonempty
      rw [if_pos (decide_eq_true covers), meets_bind, meets_get, meets_bind, meets_assertTrue, if_pos some, meets_bind,
        meets_excessValue unsigned]
      by_cases subtractable : Subtractable node start
      · rw [if_pos subtractable, meets_bind, meets_dust]
        by_cases dustFits : fits (148 * node.feeRate) = true
        · rw [if_pos dustFits, meets_bind, meets_onlyIf]
          have shared := shareOut_iff unsigned ready.within nonempty subtractable dustFits
          have finishable : Finishable node start ↔ Drops node start ∨ Sharable node start :=
            ⟨fun finishes => finishes.2.2, fun either => ⟨subtractable, dustFits, either⟩⟩
          have all : Comparable node start ∧ Covers node start ∧ Finishable node start ↔ Drops node start ∨ Sharable node start :=
            ⟨fun holds => finishable.mp holds.2.2, fun either => ⟨comparable, covers, finishable.mpr either⟩⟩
          rw [all]
          by_cases small : excess node start < ofUnsigned (dustUnits node)
          · rw [if_pos small]
            by_cases can : canDropLast start.change = true
            · obtain ⟨output, only, made⟩ := ready.reserve.canDropLast.mp can
              obtain ⟨key, _, keys⟩ := ready.owned.keyed output (by rw [only]; exact List.mem_singleton_self output)
              have empty : output.value = 0 := ready.owned.empty output (by rw [only]; exact List.mem_singleton_self output)
              rw [dropUnnecessaryChange_meets only keys made.droppable, empty, Int.sub_zero, if_pos ready.within, meets_bind,
                meets_get, meets_bind, meets_onlyIf, if_neg fun wrong => wrong rfl]
              exact iff_of_true trivial (Or.inl ⟨small, can⟩)
            · have tagged : ∀ output ∈ start.change, TxoTag.notification ∈ output.tags := by
                cases ready.reserve with
                | notifications _ tagged _ => exact tagged
                | change output only made other =>
                  exact absurd (ready.reserve.canDropLast.mpr ⟨output, only, made⟩) can
              rw [dropUnnecessaryChange_notifications tagged, shared]
              constructor
              · exact Or.inr
              · rintro (drops | sharable)
                · exact absurd drops.2 can
                · exact sharable
          · rw [if_neg small, shared]
            constructor
            · exact Or.inr
            · rintro (drops | sharable)
              · exact absurd drops.1 small
              · exact sharable
        · rw [if_neg dustFits]
          exact iff_of_false id fun holds => dustFits holds.2.2.2.1
      · rw [if_neg subtractable]
        exact iff_of_false id fun holds => subtractable holds.2.2.1
    · rw [if_neg fun holds => covers (of_decide_eq_true holds)]
      exact iff_of_false id fun holds => covers holds.2.1
  · rw [if_neg comparable]
    exact iff_of_false id fun holds => comparable holds.1

/-! ## Funding -/

variable (node) in
/-- The state once the next output has been reserved and added. -/
def nextFunding (proposal : Proposal) (state : Builder ω) : Option (Builder ω) :=
  match node.reserveUTXO (spendPolicy proposal) state.world with
  | ((none, _), _) => none
  | ((some utxo, _), world) =>
    (bitcoinTransactionInput utxo).map fun input => { state with world }.withInput input utxo.value

variable (node) in
/-- The states through which the builder goes as it adds inputs until there is enough. -/
inductive Funds (proposal : Proposal) : Builder ω → Builder ω → Prop
  | enough (state : Builder ω) : Funds proposal state state
  | more {state next final : Builder ω} (short : ¬ Covers node state) (reserved : nextFunding node proposal state = some next)
      (rest : Funds proposal next final) : Funds proposal state final

variable (node) in
/-- The amounts fit as long as inputs are added. -/
def FundsFit (proposal : Proposal) (state : Builder ω) : Prop :=
  Comparable node state ∧ (¬ Covers node state → ∀ next, nextFunding node proposal state = some next → fits next.inputValue = true)

theorem fund_iff {proposal : Proposal} (rounds : Nat) : ∀ {start : Builder ω} {returns : Builder ω → Prop},
    start.segwit = false → node.unreserved start.world < rounds →
    (Meets (fund node proposal rounds) (fun _ next => returns next) (fun stop _ => Fails stop) start ↔
      ∀ state, Funds node proposal start state → FundsFit node proposal state ∧ (Covers node state → returns state)) := by
  induction rounds with
  | zero => exact fun _ enough => absurd enough (Nat.not_lt_zero _)
  | succ rounds ih =>
    intro start returns unsigned bound
    unfold fund
    rw [meets_bind, meets_isFunded unsigned]
    by_cases comparable : Comparable node start
    · rw [if_pos comparable, meets_onlyIf]
      by_cases covers : Covers node start
      · have funded : ¬ decide (Covers node start) = false := by
          rw [decide_eq_true covers]
          decide
        rw [if_neg funded]
        constructor
        · intro holds state reached
          cases reached with
          | enough => exact ⟨⟨comparable, fun short => absurd covers short⟩, fun _ => holds⟩
          | more short _ _ => exact absurd covers short
        · exact fun all => (all start (.enough start)).2 covers
      · rw [if_pos (decide_eq_false covers), meets_bind, meets_ask]
        cases answered : node.reserveUTXO (spendPolicy proposal) start.world with
        | mk answer world =>
          obtain ⟨utxo, haveMore⟩ := answer
          cases utxo with
          | none =>
            have last : nextFunding node proposal start = none := by
              unfold nextFunding
              rw [answered]
            apply iff_of_true trivial
            intro state reached
            cases reached with
            | enough => exact ⟨⟨comparable, fun _ next reserved => by rw [last] at reserved; cases reserved⟩, fun now => absurd now covers⟩
            | more _ reserved _ =>
              rw [last] at reserved
              cases reserved
          | some utxo =>
            show Meets (do
              let added ← addInput utxo
              Program.require added (.failed { result := .inputCreationError })
              fund node proposal rounds) _ _ { start with world } ↔ _
            rw [meets_bind, addInput_meets utxo]
            cases made : bitcoinTransactionInput utxo with
            | none =>
              have last : nextFunding node proposal start = none := by
                unfold nextFunding
                rw [answered]
                show (bitcoinTransactionInput utxo).map _ = none
                rw [made]
                rfl
              apply iff_of_true trivial
              intro state reached
              cases reached with
              | enough => exact ⟨⟨comparable, fun _ next reserved => by rw [last] at reserved; cases reserved⟩, fun now => absurd now covers⟩
              | more _ reserved _ =>
                rw [last] at reserved
                cases reserved
            | some input =>
              have next : nextFunding node proposal start = some ({ start with world }.withInput input utxo.value) := by
                unfold nextFunding
                rw [answered]
                show (bitcoinTransactionInput utxo).map _ = some _
                rw [made]
                rfl
              dsimp only
              by_cases fit : fits (start.inputValue + utxo.value) = true
              · rw [if_pos fit, meets_bind, meets_require, if_pos rfl]
                have smaller := node.reserves _ _ _ _ _ answered
                have next_iff := @ih ({ start with world }.withInput input utxo.value) returns unsigned
                  (show node.unreserved world < rounds by omega)
                apply next_iff.trans
                constructor
                · intro all state reached
                  cases reached with
                  | enough =>
                    refine ⟨⟨comparable, fun _ other reserved => ?_⟩, fun now => absurd now covers⟩
                    rw [next] at reserved
                    cases reserved
                    exact fit
                  | more _ reserved rest =>
                    rw [next] at reserved
                    cases reserved
                    exact all state rest
                · exact fun all state reached => all state (.more covers next reached)
              · rw [if_neg fit]
                apply iff_of_false id
                exact fun all => fit ((all start (.enough start)).1.2 covers _ next)
    · rw [if_neg comparable]
      exact iff_of_false id fun all => comparable (all start (.enough start)).1.1

/-! ## A normal transaction -/

theorem meets_bind_iff {α β : Type} {first : Building ω α} {rest : α → Building ω β} {returns : β → Builder ω → Prop}
    {stops : Stop → Builder ω → Prop} :
    Meets (first >>= rest) returns stops start ↔ Meets first (fun _ _ => True) stops start ∧
      ∀ value next, first start = (.ok value, next) → Meets (rest value) returns stops next := by
  rw [meets_bind, Meets.and_ok]

theorem Ready.funds {proposal : Proposal} {paid : List TransactionOutput} {value : Nat} {final : Builder ω}
    (ready : Ready node paid value start) (reached : Funds node proposal start final) : Ready node paid value final := by
  induction reached with
  | enough => exact ready
  | more _ reserved _ ih =>
    apply ih
    unfold nextFunding at reserved
    split at reserved
    · cases reserved
    · obtain ⟨input, made, rfl⟩ := Option.map_eq_some_iff.mp reserved
      exact ready.withInput _ made

variable (node) in
/-- When the requested outputs can be made, the value that is dust has to be worked out. -/
def DustFits (proposal : Proposal) (state : Builder ω) : Prop :=
  ∀ next, createOutputs proposal state = (.ok true, next) → fits (148 * node.feeRate) = true

theorem prepareOutputs_iff {proposal : Proposal} (fresh : Fresh start) :
    Meets (prepareOutputs node proposal) (fun _ _ => True) (fun stop _ => Fails stop) start ↔ DustFits node proposal start := by
  unfold prepareOutputs
  have creates : Meets (createOutputs proposal) _ _ start := createOutputs_meets proposal
  have never : Meets (createOutputs proposal) (fun _ _ => True) (fun stop _ => Fails stop) start :=
    creates.mono (fun _ _ _ => trivial) fun _ _ => False.elim
  rw [meets_bind_iff, and_iff_right never]
  constructor
  · intro after next ran
    have rest := after true next ran
    rw [meets_bind, meets_require, if_pos rfl, meets_bind, meets_dust] at rest
    by_cases fit : fits (148 * node.feeRate) = true
    · exact fit
    · rw [if_neg fit] at rest
      exact rest.elim
  · intro fit created next ran
    rw [meets_bind, meets_require]
    cases created with
    | false => exact trivial
    | true =>
      obtain ⟨paid, _, rfl, within⟩ := creates.of_ok ran rfl
      have none : (counted (start.withOutputs paid)).change = [] := by
        show (start.withOutputs paid).change = []
        rw [withOutputs_eq]
        exact fresh.change
      have noted := fresh.noted paid (2 * dustUnits node % 2 ^ 64) (within fresh.within)
      rw [if_pos rfl, meets_bind, meets_dust, if_pos (fit _ ran)]
      apply meets_bind.mpr
      apply (createNotifications_meets proposal paid _ noted none).mono _ fun _ _ => False.elim
      intro notified next notes
      apply meets_bind.mpr
      apply meets_require.mpr
      cases notified with
      | false => exact trivial
      | true =>
        rw [if_pos rfl]
        apply meets_bind.mpr
        apply (addChange_meets (notes rfl).1).mono _ fun _ _ => False.elim
        intro changed last _
        apply meets_require.mpr
        cases changed <;> exact trivial

variable (node) in
/-- Whatever outputs are reserved, the amounts fit, and once there is enough the outputs can be finished. -/
def Fundable (proposal : Proposal) (prepared : Builder ω) : Prop :=
  ∀ state, Funds node proposal prepared state → FundsFit node proposal state ∧ (Covers node state → Finishable node state)

theorem fundAndFinalize_iff {proposal : Proposal} {paid : List TransactionOutput} {value : Nat} (ready : Ready node paid value start) :
    Meets (do
      let state ← Program.get
      fund node proposal (node.unreserved state.world + 1)
      let funded ← look (isFunded node)
      assertTrue funded
      finalizeOutputs node) (fun _ _ => True) (fun stop _ => Fails stop) start ↔ Fundable node proposal start := by
  rw [meets_bind, meets_get, meets_bind]
  have funding := @fund_iff ω node proposal (node.unreserved start.world + 1) start
    (fun next => Meets (do
      let funded ← look (isFunded node)
      assertTrue funded
      finalizeOutputs node) (fun _ _ => True) (fun stop _ => Fails stop) next) ready.totals.segwit (Nat.lt_succ_self _)
  apply funding.trans
  have each : ∀ state, Funds node proposal start state → FundsFit node proposal state → Covers node state →
      (Meets (do
        let funded ← look (isFunded node)
        assertTrue funded
        finalizeOutputs node) (fun _ _ => True) (fun stop _ => Fails stop) state ↔ Finishable node state) := by
    intro state reached fit covers
    have later := ready.funds reached
    rw [meets_bind, meets_isFunded later.totals.segwit, if_pos fit.1, meets_bind, meets_assertTrue,
      if_pos (decide_eq_true covers), finalizeOutputs_iff later]
    exact ⟨fun all => all.2.2, fun finishes => ⟨fit.1, covers, finishes⟩⟩
  constructor
  · intro all state reached
    obtain ⟨fit, rest⟩ := all state reached
    exact ⟨fit, fun covers => (each state reached fit covers).mp (rest covers)⟩
  · intro all state reached
    obtain ⟨fit, finishes⟩ := all state reached
    exact ⟨fit, fun covers => (each state reached fit covers).mpr (finishes covers)⟩

variable (node) in
/-- What a proposal that reserves its funds needs. -/
structure NormalSafe (proposal : Proposal) (state : Builder ω) : Prop where
  dust : DustFits node proposal state
  funding : ∀ prepared, prepareOutputs node proposal state = (.ok (), prepared) → Fundable node proposal prepared

theorem prepareNormal_iff {proposal : Proposal} (fresh : Fresh start) :
    Meets (prepareNormal node proposal) (fun _ _ => True) (fun stop _ => Fails stop) start ↔ NormalSafe node proposal start := by
  unfold prepareNormal
  rw [meets_bind_iff, prepareOutputs_iff fresh]
  constructor
  · rintro ⟨dust, rest⟩
    refine ⟨dust, fun prepared ran => ?_⟩
    obtain ⟨paid, units, _, _, ready⟩ := (prepareOutputs_meets fresh).of_ok ran
    exact (fundAndFinalize_iff ready).mp (rest () prepared ran)
  · rintro ⟨dust, funding⟩
    refine ⟨dust, fun _ prepared ran => ?_⟩
    obtain ⟨paid, units, _, _, ready⟩ := (prepareOutputs_meets fresh).of_ok ran
    exact (fundAndFinalize_iff ready).mpr (funding prepared ran)

/-! ## Signatures -/

theorem givingSignatures_meets (input : TransactionInput) (state : Builder ω) {returns : TransactionInput → Builder ω → Prop}
    (gives : ∀ signatures signed, node.signatures input state.outputs = some signatures → addSignatures input signatures = some signed →
      returns signed state) : Meets (do
        let state ← Program.get
        match node.signatures input state.outputs with
        | none | some [] => failed .signatureError
        | some signatures =>
          match addSignatures input signatures with
          | none => failed .signatureError
          | some input => pure input) returns (fun stop _ => Fails stop) state := by
  apply meets_bind.mpr
  apply meets_get.mpr
  split
  · trivial
  · trivial
  · next signatures _ found =>
    split
    · trivial
    · next signed ran => exact gives signatures signed found ran

end Opentxs.Spend.Builder
