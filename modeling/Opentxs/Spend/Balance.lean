import Mathlib.Tactic.Linarith
import Opentxs.Spend.Change

/-! A transaction that is ready to be signed balances: the requested outputs are there with
their amounts, what else there is belongs to the wallet, and the difference between inputs and
outputs is the required fee and little more. -/

namespace Opentxs.Spend.Builder
open Library Library.Endian Bitcoin BitcoinScript Blockchain Amount
open Program (Meets meets_bind meets_pure meets_get meets_modify meets_require meets_onlyIf meets_forEach_nil meets_forEach_cons)
open Wallet.Types (Key TxoTag)

variable {ω : Type} {node : Node ω} {start : Builder ω} {stops : Stop → Prop}

/-! ## Fees -/

/-- The bytes that are paid for as long as nothing is signed. -/
def estimate (state : Builder ω) : Nat :=
  fixedOverhead + CompactSize.size state.inputCount + state.inputTotal + CompactSize.size (state.outputCount + 1) +
    state.outputTotal + p2pkhOutputBytes

def feeFor (node : Node ω) (size : Nat) : Amount := (size * node.feeRate).tdiv 1000

theorem bytes_eq {state : Builder ω} (unsigned : state.segwit = false) : bytes node state = .ok (estimate state) := by
  unfold bytes
  rw [if_pos unsigned]
  rfl

theorem requiredFee_eq {state : Builder ω} (unsigned : state.segwit = false)
    (fit : fits (estimate state * node.feeRate) = true) : requiredFee node state = .ok (feeFor node (estimate state)) := by
  unfold requiredFee
  rw [bytes_eq unsigned]
  show (checked Stop.terminate (estimate state * node.feeRate) >>= fun product => .ok (product.tdiv 1000)) = _
  rw [checked_fits fit]
  rfl

theorem requiredFee_ok {state : Builder ω} (unsigned : state.segwit = false) {fee : Amount}
    (ran : requiredFee node state = .ok fee) :
    fits (estimate state * node.feeRate) = true ∧ fee = feeFor node (estimate state) := by
  unfold requiredFee at ran
  rw [bytes_eq unsigned] at ran
  obtain ⟨product, within, rest⟩ := Amount.bind_ok (show (checked Stop.terminate (estimate state * node.feeRate) >>= _) = _ from ran)
  obtain ⟨fit, rfl⟩ := checked_ok within
  cases rest
  exact ⟨fit, rfl⟩

theorem isFunded_ok {state : Builder ω} {funded : Bool} (ran : isFunded node state = .ok funded) :
    ∃ fee, requiredFee node state = .ok fee ∧
      funded = decide (state.outputValue + state.notificationValue + fee ≤ state.inputValue) := by
  obtain ⟨wanted, first, ran⟩ := Amount.bind_ok ran
  obtain ⟨fee, required, ran⟩ := Amount.bind_ok ran
  obtain ⟨needed, second, ran⟩ := Amount.bind_ok ran
  obtain ⟨_, rfl⟩ := checked_ok first
  obtain ⟨_, rfl⟩ := checked_ok second
  cases ran
  exact ⟨fee, required, rfl⟩

theorem excessValue_ok {state : Builder ω} {excess : Amount} (ran : excessValue node state = .ok excess) :
    ∃ fee, requiredFee node state = .ok fee ∧ excess = state.inputValue - (state.outputValue + fee) := by
  obtain ⟨fee, required, ran⟩ := Amount.bind_ok ran
  obtain ⟨needed, first, ran⟩ := Amount.bind_ok ran
  obtain ⟨_, rfl⟩ := checked_ok first
  obtain ⟨_, rfl⟩ := checked_ok ran
  exact ⟨fee, required, rfl⟩

theorem fits_mono {small large : Amount} (fit : fits large = true) (below : small.natAbs ≤ large.natAbs) :
    fits small = true := by
  unfold fits at fit ⊢
  rw [decide_eq_true_eq] at fit ⊢
  exact lt_of_le_of_lt below fit

theorem fits_size {small large : Nat} {rate : Amount} (fit : fits (large * rate) = true) (below : small ≤ large) :
    fits (small * rate) = true := by
  apply fits_mono fit
  rw [Int.natAbs_mul, Int.natAbs_mul, Int.natAbs_natCast, Int.natAbs_natCast]
  exact Nat.mul_le_mul_right _ below

theorem feeFor_mono {small large : Nat} (rate : 0 ≤ node.feeRate) (below : small ≤ large) :
    feeFor node small ≤ feeFor node large := by
  unfold feeFor
  rw [Int.tdiv_eq_ediv_of_nonneg (Int.mul_nonneg (Int.natCast_nonneg _) rate),
    Int.tdiv_eq_ediv_of_nonneg (Int.mul_nonneg (Int.natCast_nonneg _) rate)]
  apply Int.ediv_le_ediv (by decide)
  exact Int.mul_le_mul_of_nonneg_right (Int.ofNat_le.mpr below) rate

/-! ## Change that is worth it -/

theorem giveShares_ok {share : Nat} (change : List TransactionOutput) :
    ∀ {total : Amount} {remaining : Nat} {result : List TransactionOutput × Amount × Nat},
      giveShares share change total remaining = .ok result →
      result = (change.map (TransactionOutput.setValue (ofUnsigned share)), total + ofUnsigned (change.length * share),
        remaining - change.length * share) := by
  induction change with
  | nil =>
    intro total remaining result ran
    cases ran
    simp [ofUnsigned]
  | cons output others ih =>
    intro total remaining result ran
    obtain ⟨more, first, ran⟩ := Amount.bind_ok ran
    obtain ⟨_, rfl⟩ := checked_ok first
    obtain ⟨rest, second, ran⟩ := Amount.bind_ok ran
    rw [ih second] at ran
    cases ran
    have product : (output :: others).length * share = share + others.length * share := by
      rw [List.length_cons, Nat.succ_mul, Nat.add_comm]
    rw [product, ofUnsigned_add, Nat.sub_add_eq]
    show _ = (_, total + (ofUnsigned share + ofUnsigned (others.length * share)), _)
    rw [← Int.add_assoc]
    rfl

/-- An output that was given more, and nothing else. -/
def GivenMore (before after : TransactionOutput) : Prop := before.value ≤ after.value ∧ after = before.setValue after.value

theorem GivenMore.refl (output : TransactionOutput) : GivenMore output output := ⟨le_refl _, rfl⟩

theorem giveRemainder_ok (change : List TransactionOutput) :
    ∀ {total : Amount} {remaining : Nat} {result : List TransactionOutput × Amount × Nat}, 0 < remaining →
      giveRemainder change total remaining = .ok result →
      List.Forall₂ GivenMore change result.1 ∧ result.2.2 ≤ remaining ∧
        result.2.1 = total + ofUnsigned (remaining - result.2.2) ∧
        (result.1.map TransactionOutput.value).sum =
          (change.map TransactionOutput.value).sum + ofUnsigned (remaining - result.2.2) := by
  induction change with
  | nil =>
    intro total remaining result _ ran
    cases ran
    simp [ofUnsigned]
  | cons output others ih =>
    intro total remaining result positive ran
    obtain ⟨value, first, ran⟩ := Amount.bind_ok ran
    obtain ⟨_, rfl⟩ := checked_ok first
    obtain ⟨more, second, ran⟩ := Amount.bind_ok ran
    obtain ⟨_, rfl⟩ := checked_ok second
    have given : GivenMore output (output.setValue (output.value + ofUnsigned 1)) :=
      ⟨Int.le_add_of_nonneg_right (ofUnsigned_nonneg 1), rfl⟩
    by_cases last : remaining - 1 = 0
    · rw [if_pos last] at ran
      cases ran
      have one : remaining = 1 := by omega
      refine ⟨.cons given (List.forall₂_same.mpr fun output _ => .refl output), Nat.zero_le _, by rw [one]; rfl, ?_⟩
      rw [one]
      simp only [List.map_cons, List.sum_cons, TransactionOutput.value_setValue, Nat.sub_zero]
      ring
    · rw [if_neg last] at ran
      obtain ⟨rest, third, ran⟩ := Amount.bind_ok ran
      obtain ⟨each, smaller, sum, values⟩ := ih (by omega) third
      cases ran
      have split : remaining - rest.2.2 = 1 + (remaining - 1 - rest.2.2) := by omega
      have below : rest.2.2 ≤ remaining := by omega
      refine ⟨.cons given each, below, ?_, ?_⟩
      · show rest.2.1 = _
        rw [sum, split, ofUnsigned_add, ← Int.add_assoc]
      · simp only [List.map_cons, List.sum_cons, TransactionOutput.value_setValue]
        rw [values, split, ofUnsigned_add]
        ring

/-! ## Dropping and distributing -/

def withoutChange (node : Node ω) (output : TransactionOutput) (key : Key) (state : Builder ω) : Builder ω := counted { state with
  world := node.release key state.world
  changeKeys := state.changeKeys.erase key
  outputValue := state.outputValue - output.value
  outputTotal := state.outputTotal - output.calculateSize
  change := [] }

theorem dropLast_meets {output : TransactionOutput} {key : Key} (only : start.change = [output])
    (keys : output.keys = [key]) {returns : Unit → Builder ω → Prop} :
    Meets (dropLast node) returns (fun stop _ => stops stop) start ↔
      if fits (start.outputValue - output.value) then returns () (start.withoutChange node output key)
      else stops .terminate := by
  unfold dropLast
  rw [meets_bind, meets_get]
  simp only [only, List.getLast?_singleton]
  rw [meets_bind, keys]
  rw [meets_forEach_cons, meets_bind, meets_tell, meets_modify, meets_forEach_nil, meets_bind, meets_checked]
  unfold withoutChange
  rw [only]
  rfl

theorem dropUnnecessaryChange_meets {output : TransactionOutput} {key : Key} (only : start.change = [output])
    (keys : output.keys = [key]) (droppable : TxoTag.notification ∉ output.tags) {returns : Unit → Builder ω → Prop} :
    Meets (dropUnnecessaryChange node start.change.length) returns (fun stop _ => stops stop) start ↔
      if fits (start.outputValue - output.value) then returns () (start.withoutChange node output key)
      else stops .terminate := by
  have can : canDropLast start.change = true := by
    rw [only]
    exact decide_eq_true droppable
  have rounds : start.change.length = 1 := by rw [only]; rfl
  rw [rounds]
  unfold dropUnnecessaryChange
  rw [meets_bind, meets_get, meets_onlyIf, if_pos can, meets_bind, dropLast_meets only keys]
  rfl

theorem dropUnnecessaryChange_notifications (all : ∀ output ∈ start.change, TxoTag.notification ∈ output.tags) (rounds : Nat)
    {returns : Unit → Builder ω → Prop} :
    Meets (dropUnnecessaryChange node rounds) returns (fun stop _ => stops stop) start ↔ returns () start := by
  cases rounds with
  | zero => rfl
  | succ rounds =>
    have cannot : ¬ canDropLast start.change = true := by
      unfold canDropLast
      cases last : start.change.getLast? with
      | none => exact Bool.false_ne_true
      | some output =>
        intro absent
        exact of_decide_eq_true absent (all output (List.mem_of_getLast? last))
    unfold dropUnnecessaryChange
    rw [meets_bind, meets_get, meets_onlyIf, if_neg cannot]

/-- What an output of the change becomes: it has a value that is worth it. -/
def Valued (units : Nat) (before after : TransactionOutput) : Prop :=
  after = before.setValue after.value ∧ ofUnsigned units ≤ after.value

def withShares (own : List TransactionOutput) (units : Nat) (state : Builder ω) : Builder ω := { state with
  outputs := state.outputs ++ own
  change := []
  outputValue := state.outputValue + ofUnsigned units }

theorem sum_setValue (share : Nat) (change : List TransactionOutput) :
    ((change.map (TransactionOutput.setValue (ofUnsigned share))).map TransactionOutput.value).sum =
      ofUnsigned (change.length * share) := by
  induction change with
  | nil =>
    show (0 : Int) = ofUnsigned (0 * share)
    rw [Nat.zero_mul]
    rfl
  | cons output others ih =>
    simp only [List.map_cons, List.sum_cons, TransactionOutput.value_setValue, List.length_cons]
    rw [ih, ← ofUnsigned_add, Nat.succ_mul, Nat.add_comm]

theorem valued_setValue {units share : Nat} (enough : units ≤ share) (change : List TransactionOutput) :
    List.Forall₂ (Valued units) change (change.map (TransactionOutput.setValue (ofUnsigned share))) := by
  rw [List.forall₂_map_right_iff]
  exact List.forall₂_same.mpr fun output _ => ⟨rfl, ofUnsigned_le.mpr enough⟩

theorem Valued.givenMore {units : Nat} {before after last : TransactionOutput} (valued : Valued units before after)
    (given : GivenMore after last) : Valued units before last := by
  refine ⟨?_, le_trans valued.2 given.1⟩
  rw [given.2, valued.1]
  rfl

theorem valued_trans {units : Nat} {before after last : List TransactionOutput}
    (valued : List.Forall₂ (Valued units) before after) (given : List.Forall₂ GivenMore after last) :
    List.Forall₂ (Valued units) before last := by
  induction valued generalizing last with
  | nil =>
    cases given
    exact .nil
  | cons first _ ih =>
    cases given with
    | cons more others => exact .cons (first.givenMore more) (ih others)

theorem distributeChangeAmounts_meets :
    Meets (distributeChangeAmounts node)
      (fun _ next => ∃ excess units own, excessValue node start = .ok excess ∧ dust node = .ok units ∧
        List.Forall₂ (Valued units) start.change own ∧
        (own.map TransactionOutput.value).sum = ofUnsigned (extractUInt64 excess) ∧
        next = start.withShares own (extractUInt64 excess)) (fun _ _ => True) start := by
  unfold distributeChangeAmounts
  apply meets_bind.mpr
  apply meets_get.mpr
  apply meets_bind.mpr
  apply meets_assertTrue.mpr
  split
  · apply meets_bind.mpr
    apply meets_look.mpr
    cases excessRan : excessValue node start with
    | error stop => trivial
    | ok excess =>
      apply meets_bind.mpr
      apply meets_look.mpr
      cases dustRan : dust node with
      | error stop => trivial
      | ok units =>
        apply meets_bind.mpr
        apply meets_assertTrue.mpr
        split
        · rename_i enough
          have worth : units ≤ extractUInt64 excess / start.change.length := of_decide_eq_true enough
          apply meets_bind.mpr
          apply meets_look.mpr
          split
          · rename_i shared sharedRan
            have shares := giveShares_ok start.change sharedRan
            have whole : start.change.length * (extractUInt64 excess / start.change.length) ≤ extractUInt64 excess :=
              Nat.mul_div_le _ _
            have total := sum_setValue (extractUInt64 excess / start.change.length) start.change
            have valued := valued_setValue worth start.change
            subst shares
            apply meets_bind.mpr
            apply meets_look.mpr
            split
            · rename_i given givenRan
              apply meets_bind.mpr
              apply meets_modify.mpr
              apply meets_bind.mpr
              apply meets_assertTrue.mpr
              split
              · rename_i nothing
                have nothing : given.2.2 = 0 := of_decide_eq_true nothing
                by_cases left : 0 < extractUInt64 excess -
                    start.change.length * (extractUInt64 excess / start.change.length)
                · rw [if_pos left] at givenRan
                  obtain ⟨each, _, sum, values⟩ := giveRemainder_ok _ left givenRan
                  rw [nothing, Nat.sub_zero] at sum values
                  rw [total, ← ofUnsigned_add, Nat.add_sub_cancel' whole] at values
                  refine ⟨excess, units, given.1, rfl, rfl, valued_trans valued each, values, ?_⟩
                  rw [Int.add_assoc, ← ofUnsigned_add, Nat.add_sub_cancel' whole] at sum
                  show { start with outputs := _, change := [], outputValue := given.2.1 } = _
                  rw [sum]
                  rfl
                · rw [if_neg left] at givenRan
                  cases givenRan
                  have exact : start.change.length * (extractUInt64 excess / start.change.length) = extractUInt64 excess := by
                    omega
                  rw [exact] at total
                  refine ⟨excess, units, _, rfl, rfl, valued, total, ?_⟩
                  show { start with outputs := _, change := [], outputValue := _ } = _
                  rw [exact]
                  rfl
              · trivial
            · trivial
          · trivial
        · trivial
  · trivial

/-! ## Totals at the end -/

theorem Valued.all {units : Nat} {before after : List TransactionOutput} (valued : List.Forall₂ (Valued units) before after) :
    ∀ output ∈ after, ofUnsigned units ≤ output.value ∧ ∃ old ∈ before, output.keys = old.keys ∧ output.tags = old.tags := by
  induction valued with
  | nil => exact fun _ member => absurd member List.not_mem_nil
  | @cons old new olds news first _ ih =>
    intro output member
    rcases List.mem_cons.mp member with rfl | later
    · refine ⟨first.2, old, List.mem_cons_self, ?_, ?_⟩
      · rw [first.1]
        rfl
      · rw [first.1]
        rfl
    · obtain ⟨worth, other, found, keys, tags⟩ := ih output later
      exact ⟨worth, other, List.mem_cons_of_mem old found, keys, tags⟩

theorem Valued.sizes {units : Nat} {before after : List TransactionOutput}
    (valued : List.Forall₂ (Valued units) before after) :
    after.map TransactionOutput.calculateSize = before.map TransactionOutput.calculateSize := by
  induction valued with
  | nil => rfl
  | cons first _ ih =>
    rw [List.map_cons, List.map_cons, ih, first.1]
    rfl

theorem sum_empty {change : List TransactionOutput} (empty : ∀ output ∈ change, output.value = 0) :
    (change.map TransactionOutput.value).sum = 0 := by
  induction change with
  | nil => rfl
  | cons output others ih =>
    rw [List.map_cons, List.sum_cons, empty output List.mem_cons_self,
      ih fun other member => empty other (List.mem_cons_of_mem output member)]
    rfl

theorem Totals.withShares {state : Builder ω} (totals : Totals state) (owned : Owned state) {units shared : Nat}
    {own : List TransactionOutput} (valued : List.Forall₂ (Valued units) state.change own)
    (values : (own.map TransactionOutput.value).sum = ofUnsigned shared) : Totals (state.withShares own shared) where
  outputValue := by
    show state.outputValue + ofUnsigned shared = (((state.outputs ++ own) ++ []).map TransactionOutput.value).sum
    rw [totals.outputValue, List.append_nil]
    simp only [List.map_append, List.sum_append]
    rw [sum_empty owned.empty, values, Int.add_zero]
  outputTotal := by
    show state.outputTotal = (((state.outputs ++ own) ++ []).map TransactionOutput.calculateSize).sum
    rw [totals.outputTotal, List.append_nil]
    simp only [List.map_append, List.sum_append]
    rw [Valued.sizes valued]
  inputValue := totals.inputValue
  inputTotal := totals.inputTotal
  witnessTotal := totals.witnessTotal
  inputCount := totals.inputCount
  inputs := totals.inputs
  segwit := totals.segwit

theorem Totals.withoutChange {state : Builder ω} (totals : Totals state) {output : TransactionOutput}
    (only : state.change = [output]) (node : Node ω) (key : Key) : Totals (state.withoutChange node output key) where
  outputValue := by
    show state.outputValue - output.value = ((state.outputs ++ []).map TransactionOutput.value).sum
    rw [totals.outputValue, only]
    simp
  outputTotal := by
    show state.outputTotal - output.calculateSize = ((state.outputs ++ []).map TransactionOutput.calculateSize).sum
    rw [totals.outputTotal, only]
    simp
  inputValue := totals.inputValue
  inputTotal := totals.inputTotal
  witnessTotal := totals.witnessTotal
  inputCount := totals.inputCount
  inputs := totals.inputs
  segwit := totals.segwit

def sorted (state : Builder ω) : Builder ω := { state with
  inputs := state.inputs.insertionSort inputOrder
  outputs := (state.outputs.insertionSort outputOrder).zipIdx.map fun (output, index) => output.setIndex index }

theorem map_zipIdx {α : Type} (view : TransactionOutput → α) (same : ∀ index output, view (output.setIndex index) = view output)
    (outputs : List TransactionOutput) : ∀ first,
    ((outputs.zipIdx first).map fun (output, index) => output.setIndex index).map view = outputs.map view := by
  induction outputs with
  | nil => exact fun _ => rfl
  | cons output others ih =>
    intro first
    rw [List.zipIdx_cons, List.map_cons, List.map_cons, List.map_cons, same, ih (first + 1)]

/-- Whatever does not read the index is the same for the sorted outputs, up to their order. -/
theorem sorted_perm {α : Type} (view : TransactionOutput → α) (same : ∀ index output, view (output.setIndex index) = view output)
    (state : Builder ω) : (state.sorted.outputs.map view).Perm (state.outputs.map view) := by
  show (((state.outputs.insertionSort outputOrder).zipIdx.map fun (output, index) => output.setIndex index).map view).Perm _
  rw [map_zipIdx view same]
  exact (List.perm_insertionSort outputOrder state.outputs).map view

theorem zipIdx_index (outputs : List TransactionOutput) : ∀ first,
    ((outputs.zipIdx first).map fun (output, index) => output.setIndex index).map TransactionOutput.index =
      List.range' first outputs.length := by
  induction outputs with
  | nil => exact fun _ => rfl
  | cons output others ih =>
    intro first
    rw [List.zipIdx_cons, List.map_cons, List.map_cons, ih (first + 1), List.length_cons, List.range'_succ]
    rfl

theorem sorted_length (state : Builder ω) : state.sorted.outputs.length = state.outputs.length := by
  show ((state.outputs.insertionSort outputOrder).zipIdx.map _).length = _
  rw [List.length_map, List.length_zipIdx, List.length_insertionSort]

theorem sorted_index (state : Builder ω) :
    state.sorted.outputs.map TransactionOutput.index = List.range state.sorted.outputs.length := by
  have length : state.sorted.outputs.length = (state.outputs.insertionSort outputOrder).length := by
    show ((state.outputs.insertionSort outputOrder).zipIdx.map _).length = _
    rw [List.length_map, List.length_zipIdx]
  rw [length, List.range_eq_range']
  exact zipIdx_index _ 0

theorem Totals.sorted {state : Builder ω} (totals : Totals state) (none : state.change = []) : Totals state.sorted where
  outputValue := by
    show state.outputValue = ((state.sorted.outputs ++ state.change).map TransactionOutput.value).sum
    rw [totals.outputValue, none, List.append_nil, List.append_nil]
    exact (sorted_perm TransactionOutput.value (fun _ _ => rfl) state).sum_eq.symm
  outputTotal := by
    show state.outputTotal = ((state.sorted.outputs ++ state.change).map TransactionOutput.calculateSize).sum
    rw [totals.outputTotal, none, List.append_nil, List.append_nil]
    exact (sorted_perm TransactionOutput.calculateSize (fun _ _ => rfl) state).sum_eq.symm
  inputValue := by
    show state.inputValue = ((state.inputs.insertionSort inputOrder).map Prod.snd).sum
    rw [totals.inputValue]
    exact ((List.perm_insertionSort inputOrder state.inputs).map Prod.snd).sum_eq.symm
  inputTotal := by
    show state.inputTotal = ((state.inputs.insertionSort inputOrder).map fun input => input.1.baseBytes).sum
    rw [totals.inputTotal]
    exact ((List.perm_insertionSort inputOrder state.inputs).map fun input => input.1.baseBytes).sum_eq.symm
  witnessTotal := by
    show state.witnessTotal = ((state.inputs.insertionSort inputOrder).map fun input => input.1.witnessBytes).sum
    rw [totals.witnessTotal]
    exact ((List.perm_insertionSort inputOrder state.inputs).map fun input => input.1.witnessBytes).sum_eq.symm
  inputCount := by
    show state.inputCount = (state.inputs.insertionSort inputOrder).length - 1
    rw [List.length_insertionSort]
    exact totals.inputCount
  inputs := fun input member => totals.inputs input ((List.perm_insertionSort inputOrder state.inputs).mem_iff.mp member)
  segwit := totals.segwit

theorem bip69_meets {returns : Unit → Builder ω → Prop} :
    Meets bip69 returns (fun stop _ => stops stop) start ↔ returns () start.sorted := Iff.rfl

/-! ## Ready to sign -/

/-- What the inputs have more than the outputs. -/
def surplus (state : Builder ω) : Amount :=
  (state.inputs.map Prod.snd).sum - (state.outputs.map TransactionOutput.value).sum

/-- The outputs are the requested ones and the wallet's own, and the surplus is the fee and little more. -/
structure Balanced (node : Node ω) (paid returned : List TransactionOutput) (fee : Amount) (units : Nat) (final : Builder ω) :
    Prop where
  requested : (final.outputs.map (TransactionOutput.setIndex 0)).Perm ((paid ++ returned).map (TransactionOutput.setIndex 0))
  own : ∀ output ∈ returned, TxoTag.change ∈ output.tags ∧ (∃ key ∈ final.changeKeys, output.keys = [key]) ∧
    ofUnsigned units ≤ output.value
  indexes : final.outputs.map TransactionOutput.index = List.range final.outputs.length
  totals : Totals final
  counted : final.outputCount = final.outputs.length
  outputTotal : final.outputTotal = (final.outputs.map TransactionOutput.calculateSize).sum
  required : requiredFee node final = .ok fee
  dust : Builder.dust node = .ok units
  paysFee : fee ≤ surplus final
  /-- With change, the fee is exceeded by less than a unit, unless what can be shared has more than 64 bits. -/
  keepsFraction : returned ≠ [] → surplus final + (returned.map TransactionOutput.value).sum < fee + 2 ^ 64 * unit →
    surplus final < fee + unit
  /-- Without change, the surplus is too small for an output that would have to be paid for. -/
  keepsDust : returned = [] → ∃ output larger, IsChange node output ∧ requiredFee node (final.withChange output) = .ok larger ∧
    surplus final < larger + ofUnsigned units

theorem Totals.surplus {final : Builder ω} (totals : Totals final) (none : final.change = []) :
    surplus final = final.inputValue - final.outputValue := by
  unfold Builder.surplus
  rw [totals.inputValue, totals.outputValue, none, List.append_nil]

theorem requiredFee_congr {first second : Builder ω} (unsigned : first.segwit = false) (alsoUnsigned : second.segwit = false)
    (same : estimate first = estimate second) : requiredFee node first = requiredFee node second := by
  unfold requiredFee
  rw [bytes_eq unsigned, bytes_eq alsoUnsigned, same]

/-- Everything is spent on the requested outputs, the change that is shared out, and the fee. -/
theorem balanced_shared {paid own : List TransactionOutput} {value units : Nat} {excess : Amount}
    (ready : Ready node paid value start) (dust : Builder.dust node = .ok units) (ran : excessValue node start = .ok excess)
    (positive : 0 ≤ excess) (valued : List.Forall₂ (Valued units) start.change own)
    (values : (own.map TransactionOutput.value).sum = ofUnsigned (extractUInt64 excess)) (nonempty : start.change ≠ []) :
    ∃ fee, Balanced node paid own fee units (start.withShares own (extractUInt64 excess)).sorted := by
  obtain ⟨fee, required, rfl⟩ := excessValue_ok ran
  have totals := (ready.totals.withShares ready.owned valued values).sorted rfl
  have rest := totals.surplus rfl
  have left : (start.withShares own (extractUInt64 (start.inputValue - (start.outputValue + fee)))).sorted.outputValue =
      start.outputValue + ofUnsigned (extractUInt64 (start.inputValue - (start.outputValue + fee))) := rfl
  have right : (start.withShares own (extractUInt64 (start.inputValue - (start.outputValue + fee)))).sorted.inputValue =
      start.inputValue := rfl
  rw [left, right] at rest
  have taken := extractUInt64_le positive
  have sameSize : estimate (start.withShares own (extractUInt64 (start.inputValue - (start.outputValue + fee)))).sorted =
      estimate start := rfl
  refine ⟨fee, ?_⟩
  constructor
  case requested =>
    rw [← ready.outputs]
    exact sorted_perm (TransactionOutput.setIndex 0) (fun _ _ => rfl) _
  case own =>
    intro output member
    obtain ⟨worth, old, found, keys, tags⟩ := Valued.all valued output member
    obtain ⟨key, known, only⟩ := ready.owned.keyed old found
    exact ⟨tags ▸ ready.owned.tagged old found, ⟨key, known, keys.trans only⟩, worth⟩
  case indexes => exact sorted_index _
  case totals => exact totals
  case counted =>
    rw [sorted_length]
    show start.outputCount = (start.outputs ++ own).length
    rw [ready.counted, List.length_append, valued.length_eq]
  case outputTotal =>
    rw [totals.outputTotal]
    show (((Builder.sorted _).outputs ++ []).map _).sum = _
    rw [List.append_nil]
  case required =>
    rw [← required]
    exact requiredFee_congr ready.totals.segwit ready.totals.segwit sameSize
  case dust => exact dust
  case paysFee =>
    rw [rest]
    linarith
  case keepsFraction =>
    intro _ small
    rw [rest, values] at small
    have below := lt_extractUInt64 positive (by linarith)
    rw [rest]
    linarith
  case keepsDust =>
    intro none
    rw [none] at valued
    exact absurd (List.forall₂_nil_right_iff.mp valued) nonempty

theorem nonneg_of_dust {units : Nat} (dust : Builder.dust node = .ok units) (some : 0 < units) : 0 ≤ node.feeRate := by
  obtain ⟨product, within, rest⟩ := Amount.bind_ok dust
  obtain ⟨_, rfl⟩ := checked_ok within
  cases rest
  by_contra negative
  have product : (148 * node.feeRate).tdiv 1000 ≤ 0 := by
    have flipped : (148 * node.feeRate).tdiv 1000 = -((-(148 * node.feeRate)).tdiv 1000) := by
      rw [Int.neg_tdiv, Int.neg_neg]
    have above : 0 ≤ (-(148 * node.feeRate)).tdiv 1000 := Int.tdiv_nonneg (by linarith) (by decide)
    linarith
  have units : extractUInt64 ((148 * node.feeRate).tdiv 1000) = 0 := extractUInt64_nonpos product
  exact absurd some (by rw [units]; decide)

theorem balanced_dropped {paid : List TransactionOutput} {value units : Nat} {excess : Amount} {output : TransactionOutput}
    (key : Key) (ready : Ready node paid value start) (only : start.change = [output]) (made : IsChange node output)
    (dust : Builder.dust node = .ok units) (ran : excessValue node start = .ok excess) (positive : 0 ≤ excess)
    (small : excess < ofUnsigned units) : ∃ fee, Balanced node paid [] fee units (start.withoutChange node output key).sorted := by
  obtain ⟨larger, required, rfl⟩ := excessValue_ok ran
  obtain ⟨fit, larger_eq⟩ := requiredFee_ok ready.totals.segwit required
  have totals := (ready.totals.withoutChange only node key).sorted rfl
  have empty : output.value = 0 := ready.owned.empty output (by rw [only]; exact List.mem_singleton_self output)
  have rest := totals.surplus rfl
  have left : (start.withoutChange node output key).sorted.outputValue = start.outputValue - output.value := rfl
  have right : (start.withoutChange node output key).sorted.inputValue = start.inputValue := rfl
  rw [left, right, empty, Int.sub_zero] at rest
  have counted : start.outputCount = start.outputs.length + 1 := by
    have counted : start.outputCount = start.outputs.length + start.change.length := ready.counted
    rw [counted, only]
    rfl
  have contained : output.calculateSize ≤ start.outputTotal := by
    rw [ready.totals.outputTotal, only, List.map_append, List.sum_append]
    simp
  have length : (start.withoutChange node output key).sorted.outputs.length = start.outputs.length := by
    show ((start.outputs.insertionSort outputOrder).zipIdx.map _).length = _
    rw [List.length_map, List.length_zipIdx, List.length_insertionSort]
  have restored : estimate ((start.withoutChange node output key).sorted.withChange output) = estimate start := by
    show fixedOverhead + CompactSize.size start.inputCount + start.inputTotal +
      CompactSize.size ((start.withoutChange node output key).sorted.outputs.length + 1 + 1) +
      (start.outputTotal - output.calculateSize + output.calculateSize) + p2pkhOutputBytes =
      fixedOverhead + CompactSize.size start.inputCount + start.inputTotal + CompactSize.size (start.outputCount + 1) +
      start.outputTotal + p2pkhOutputBytes
    rw [length, counted, Nat.sub_add_cancel contained]
  have smaller : estimate (start.withoutChange node output key).sorted ≤ estimate start := by
    have counts : CompactSize.size (start.outputs.length + 1) ≤ CompactSize.size (start.outputCount + 1) :=
      CompactSize.size_mono (by omega)
    show fixedOverhead + CompactSize.size start.inputCount + start.inputTotal + CompactSize.size (start.outputs.length + 1) +
      (start.outputTotal - output.calculateSize) + p2pkhOutputBytes ≤ fixedOverhead + CompactSize.size start.inputCount +
      start.inputTotal + CompactSize.size (start.outputCount + 1) + start.outputTotal + p2pkhOutputBytes
    omega
  have rate : 0 ≤ node.feeRate := nonneg_of_dust dust (by
    by_contra none
    have zero : units = 0 := by omega
    rw [zero] at small
    exact absurd small (not_lt.mpr positive))
  have fitsToo : fits (estimate (start.withoutChange node output key).sorted * node.feeRate) = true := fits_size fit smaller
  refine ⟨feeFor node (estimate (start.withoutChange node output key).sorted), ?_⟩
  constructor
  case requested =>
    rw [← ready.outputs, List.append_nil]
    exact sorted_perm (TransactionOutput.setIndex 0) (fun _ _ => rfl) _
  case own => exact fun _ member => absurd member List.not_mem_nil
  case indexes => exact sorted_index _
  case totals => exact totals
  case counted =>
    rw [sorted_length]
    rfl
  case outputTotal =>
    rw [totals.outputTotal]
    show (((Builder.sorted _).outputs ++ []).map _).sum = _
    rw [List.append_nil]
  case required => exact requiredFee_eq ready.totals.segwit fitsToo
  case dust => exact dust
  case paysFee =>
    have fees : feeFor node (estimate (start.withoutChange node output key).sorted) ≤ feeFor node (estimate start) :=
      feeFor_mono rate smaller
    rw [rest]
    linarith
  case keepsFraction => exact fun some => absurd rfl some
  case keepsDust =>
    intro _
    refine ⟨output, larger, made, ?_, ?_⟩
    · rw [← required]
      exact requiredFee_congr ready.totals.segwit ready.totals.segwit restored
    · rw [rest]
      linarith

theorem shareOut_meets {paid : List TransactionOutput} {value units : Nat} {excess : Amount}
    (ready : Ready node paid value start) (nonempty : start.change ≠ []) (dustRan : dust node = .ok units)
    (excessRan : excessValue node start = .ok excess) (positive : 0 ≤ excess) :
    Meets (do
      let state ← Program.get
      Program.onlyIf (state.change ≠ []) (distributeChangeAmounts node)
      bip69) (fun _ final => ∃ returned fee units, Balanced node paid returned fee units final) (fun _ _ => True) start := by
  apply meets_bind.mpr
  apply meets_get.mpr
  apply meets_bind.mpr
  apply meets_onlyIf.mpr
  rw [if_pos nonempty]
  apply distributeChangeAmounts_meets.mono _ fun _ _ _ => trivial
  rintro _ next ⟨same, sameUnits, own, excessAgain, dustAgain, valued, values, rfl⟩
  rw [excessRan] at excessAgain
  rw [dustRan] at dustAgain
  cases excessAgain
  cases dustAgain
  apply bip69_meets.mpr
  obtain ⟨fee, balanced⟩ := balanced_shared ready dustRan excessRan positive valued values nonempty
  exact ⟨own, fee, units, balanced⟩

/-- Once it is funded, the builder has made a balanced transaction, unless it stops. -/
theorem finalizeOutputs_meets {paid : List TransactionOutput} {value : Nat} (ready : Ready node paid value start) :
    Meets (finalizeOutputs node) (fun _ final => ∃ returned fee units, Balanced node paid returned fee units final)
      (fun _ _ => True) start := by
  unfold finalizeOutputs
  apply meets_bind.mpr
  apply meets_look.mpr
  cases fundedRan : isFunded node start with
  | error stop => trivial
  | ok funded =>
    apply meets_bind.mpr
    apply meets_assertTrue.mpr
    split
    · rename_i isTrue
      obtain ⟨fee, required, fundedEq⟩ := isFunded_ok fundedRan
      rw [isTrue] at fundedEq
      have enough : start.outputValue + start.notificationValue + fee ≤ start.inputValue := of_decide_eq_true fundedEq.symm
      apply meets_bind.mpr
      apply meets_get.mpr
      apply meets_bind.mpr
      apply meets_assertTrue.mpr
      split
      · rename_i some
        have nonempty : start.change ≠ [] := by
          intro none
          rw [none] at some
          cases some
        apply meets_bind.mpr
        apply meets_look.mpr
        cases excessRan : excessValue node start with
        | error stop => trivial
        | ok excess =>
          have positive : 0 ≤ excess := by
            obtain ⟨other, again, excessEq⟩ := excessValue_ok excessRan
            rw [required] at again
            cases again
            have reserved : 0 ≤ start.notificationValue := by
              cases ready.reserve with
              | notifications _ _ notificationValue =>
                rw [notificationValue]
                exact ofUnsigned_nonneg _
              | change _ _ _ notificationValue => exact notificationValue.ge
            rw [excessEq]
            linarith
          apply meets_bind.mpr
          apply meets_look.mpr
          cases dustRan : dust node with
          | error stop => trivial
          | ok units =>
            have shared := shareOut_meets ready nonempty dustRan excessRan positive
            apply meets_bind.mpr
            apply meets_onlyIf.mpr
            split
            · rename_i small
              cases ready.reserve with
              | notifications _ all _ => exact (dropUnnecessaryChange_notifications all _).mpr shared
              | change output only made _ =>
                obtain ⟨key, _, keys⟩ := ready.owned.keyed output (by rw [only]; exact List.mem_singleton_self output)
                apply (dropUnnecessaryChange_meets only keys made.droppable).mpr
                split
                · apply meets_bind.mpr
                  apply meets_get.mpr
                  apply meets_bind.mpr
                  apply meets_onlyIf.mpr
                  rw [if_neg fun some => some rfl]
                  apply bip69_meets.mpr
                  obtain ⟨paidFee, balanced⟩ := balanced_dropped key ready only made dustRan excessRan positive small
                  exact ⟨[], paidFee, units, balanced⟩
                · trivial
            · exact shared
      · trivial
    · trivial

/-! ## From the reserved outputs to the signatures -/

/-- Nothing but inputs has been added. -/
structure Fresh (state : Builder ω) : Prop where
  totals : Totals state
  outputs : state.outputs = []
  change : state.change = []
  counted : Counted state
  notificationValue : state.notificationValue = 0

theorem fresh_new (proposal : Proposal) (world : ω) : Fresh (new proposal world) :=
  ⟨totals_new proposal world, rfl, rfl, rfl, rfl⟩

theorem Fresh.withInput {state : Builder ω} (fresh : Fresh state) {utxo : UTXO} {input : TransactionInput}
    (made : bitcoinTransactionInput utxo = some input) : Fresh (state.withInput input utxo.value) :=
  ⟨fresh.totals.withInput made, fresh.outputs, fresh.change, fresh.counted, fresh.notificationValue⟩

theorem addingInput_meets (fresh : Fresh start) (utxo : UTXO) :
    Meets (do
      let added ← addInput utxo
      Program.require added .exception) (fun _ next => Fresh next) (fun _ _ => True) start := by
  apply meets_bind.mpr
  apply (addInput_meets utxo).mpr
  cases made : bitcoinTransactionInput utxo with
  | none => trivial
  | some input =>
    dsimp only
    split
    · exact fresh.withInput made
    · trivial

theorem addExistingInputs_meets (fresh : Fresh start) :
    Meets (addExistingInputs node) (fun _ next => Fresh next) (fun _ _ => True) start := by
  apply meets_bind.mpr
  apply meets_look_ok.mpr
  exact Meets.forEach (fun utxo _ state (fresh : Fresh state) => addingInput_meets fresh utxo) _ start fresh

theorem addExistingInputs_fresh {proposal : Proposal} {world : ω} {final : Builder ω}
    (ran : caught (addExistingInputs node) (new proposal world) = (.ok true, final)) : Fresh final := by
  have meets : Meets (caught (addExistingInputs node)) (fun done next => done = true → Fresh next) (fun _ _ => True)
      (new proposal world) := by
    apply meets_caught.mpr
    apply (addExistingInputs_meets (fresh_new proposal world)).mono fun _ _ fresh _ => fresh
    intro stop next _
    split
    · intro wrong
      cases wrong
    · trivial
  exact meets.of_ok ran rfl

theorem Fresh.within {state : Builder ω} (fresh : Fresh state) : fits state.outputValue = true := by
  rw [fresh.totals.outputValue, fresh.outputs, fresh.change]
  decide +kernel

theorem Fresh.noted {state : Builder ω} (fresh : Fresh state) (paid : List TransactionOutput) (value : Nat)
    (within : fits (state.withOutputs paid).outputValue = true) :
    Noted paid value (Builder.counted (state.withOutputs paid)) := by
  have totals := fresh.totals.withOutputs paid
  have fields := withOutputs_eq paid state
  have change : (state.withOutputs paid).change = [] := by
    rw [fields]
    exact fresh.change
  have none : ∀ {holds : TransactionOutput → Prop}, ∀ output ∈ (state.withOutputs paid).change, holds output := by
    rw [change]
    exact fun _ member => absurd member List.not_mem_nil
  constructor
  case totals => exact { totals with }
  case counted => rfl
  case outputs =>
    show (state.withOutputs paid).outputs = paid
    rw [fields]
    show state.outputs ++ paid = paid
    rw [fresh.outputs]
    rfl
  case within => exact within
  case owned => exact ⟨none, none, none⟩
  case notifications => exact none
  case notificationValue =>
    show (state.withOutputs paid).notificationValue = ofUnsigned ((state.withOutputs paid).change.length * value)
    rw [change, List.length_nil, Nat.zero_mul, fields]
    exact fresh.notificationValue

theorem prepareOutputs_meets {proposal : Proposal} (fresh : Fresh start) :
    Meets (prepareOutputs node proposal)
      (fun _ next => ∃ paid units, Pays proposal paid ∧ dust node = .ok units ∧
        Ready node paid (2 * units % 2 ^ 64) next) (fun _ _ => True) start := by
  unfold prepareOutputs
  apply meets_bind.mpr
  apply (createOutputs_meets proposal).mono _ fun _ _ _ => trivial
  intro created next was
  apply meets_bind.mpr
  apply meets_require.mpr
  split
  · rename_i isTrue
    obtain ⟨paid, pays, rfl, within⟩ := was isTrue
    have none : (counted (start.withOutputs paid)).change = [] := by
      show (start.withOutputs paid).change = []
      rw [withOutputs_eq]
      exact fresh.change
    apply meets_bind.mpr
    apply meets_look.mpr
    cases dustRan : dust node with
    | error stop => trivial
    | ok units =>
      have noted := fresh.noted paid (2 * units % 2 ^ 64) (within fresh.within)
      apply meets_bind.mpr
      apply (createNotifications_meets proposal paid _ noted none).mono _ fun _ _ _ => trivial
      intro notified next notes
      apply meets_bind.mpr
      apply meets_require.mpr
      split
      · rename_i alsoTrue
        apply meets_bind.mpr
        apply (addChange_meets (notes alsoTrue).1).mono _ fun _ _ _ => trivial
        intro changed next ready
        apply meets_require.mpr
        split
        · rename_i again
          exact ⟨paid, units, pays, rfl, (ready again).1⟩
        · trivial
      · trivial
  · trivial

theorem prepareNormal_meets {proposal : Proposal} (fresh : Fresh start) :
    Meets (prepareNormal node proposal)
      (fun _ final => ∃ paid returned fee units, Pays proposal paid ∧ Balanced node paid returned fee units final)
      (fun _ _ => True) start := by
  unfold prepareNormal
  apply meets_bind.mpr
  apply (prepareOutputs_meets fresh).mono _ fun _ _ _ => trivial
  rintro _ prepared ⟨paid, value, pays, _, ready⟩
  apply meets_bind.mpr
  apply meets_get.mpr
  apply meets_bind.mpr
  apply (fund_meets _ _ ready).mono _ fun _ _ _ => trivial
  intro _ funded ready
  apply meets_bind.mpr
  apply meets_look.mpr
  split
  · apply meets_bind.mpr
    apply meets_assertTrue.mpr
    split
    · apply (finalizeOutputs_meets ready).mono _ fun _ _ _ => trivial
      rintro _ final ⟨returned, fee, units, balanced⟩
      exact ⟨paid, returned, fee, units, pays, balanced⟩
    · trivial
  · trivial

/-- Whatever outputs the database offers, a transaction that is ready to be signed balances. -/
theorem normal_balances {proposal : Proposal} {world : ω} {started final : Builder ω}
    (existing : caught (addExistingInputs node) (new proposal world) = (.ok true, started))
    (ran : prepareNormal node proposal started = (.ok (), final)) :
    ∃ paid returned fee units, Pays proposal paid ∧ Balanced node paid returned fee units final :=
  (prepareNormal_meets (addExistingInputs_fresh existing)).of_ok ran

/-! ## A wallet with a few outputs -/

/-- A node that offers the outputs of a list one by one, with one key for change. -/
def listNode (feeRate : Amount) : Node (List UTXO) where
  feeRate
  segwitScaleFactor := 4
  isBitcoinCash := false
  getReserved := fun _ => []
  reserveUTXO := fun _ world => ((world.head?, false), world.tail)
  reserveOutpoint := fun outpoint world =>
    (world.find? (·.outpoint = outpoint), world.filter (·.outpoint ≠ outpoint))
  getOutputs := fun _ state world => if state = .confirmedNew then world.map UTXO.outpoint else []
  nextChangeKey := fun world => (some { keyID := ⟨1, .internal, 0⟩, pubkeyHash := List.replicate 20 7 }, world)
  notificationElements := fun _ recipient => some [List.replicate 33 2, List.replicate 65 (UInt8.ofNat recipient), List.replicate 65 4]
  release := fun _ world => world
  signatures := fun _ _ => some [(List.replicate 71 1, List.replicate 33 2)]
  transactionID := fun _ => some 7
  serializeTransaction := fun _ => true
  serializeProposal := fun _ => true
  finalizeProposal := fun _ world => (true, world)
  broadcastTransaction := fun _ world => (true, world)
  addNotification := fun _ world => world
  unreserved := List.length
  reserves := by
    intro _ world utxo more next reserved
    cases world with
    | nil => cases reserved
    | cons first others =>
      cases reserved
      exact Nat.lt_succ_self _

def ownOutput (value : Nat) (pattern : Pattern) (index : Nat) : UTXO where
  outpoint := ⟨0, index⟩
  value := ofUnsigned value
  pattern
  keys := [⟨1, .external, index⟩]

def payTo (amount : Nat) : AddressRecipient where
  amount := ofUnsigned amount
  style := .p2pkh
  bytes := List.replicate 20 9

/-- The fee for the change is kept with what was too little for it: at a unit for each byte, an output of
10,000 units and a payment of 9,593 leave 407, although the fee is 226 and 148 units are dust. And where nothing
is paid for the bytes, change of 2^64 units or more is shared out as nothing. -/
theorem surplus_exceeds_fee :
    (∃ started final, caught (addExistingInputs (listNode (ofUnsigned 1000)))
        (new { addressRecipients := [payTo 9593] } [ownOutput 10000 .payToPubkeyHash 0]) = (.ok true, started) ∧
      prepareNormal (listNode (ofUnsigned 1000)) { addressRecipients := [payTo 9593] } started = (.ok (), final) ∧
      requiredFee (listNode (ofUnsigned 1000)) final = .ok (ofUnsigned 226) ∧
      Builder.dust (listNode (ofUnsigned 1000)) = .ok 148 ∧ (∀ output ∈ final.outputs, TxoTag.change ∉ output.tags) ∧
      ¬ surplus final - ofUnsigned 226 < ofUnsigned 148) ∧
    (∃ started final, caught (addExistingInputs (listNode 0))
        (new { addressRecipients := [payTo 1] } [ownOutput (2 ^ 64 + 1) .payToPubkeyHash 0]) = (.ok true, started) ∧
      prepareNormal (listNode 0) { addressRecipients := [payTo 1] } started = (.ok (), final) ∧
      requiredFee (listNode 0) final = .ok 0 ∧ (∃ output ∈ final.outputs, TxoTag.change ∈ output.tags) ∧
      ¬ surplus final < unit) :=
  ⟨⟨_, _, Prod.ext (by decide +kernel) rfl, Prod.ext (by decide +kernel) rfl, by decide +kernel, by decide +kernel,
    by decide +kernel, by decide +kernel⟩, ⟨_, _, Prod.ext (by decide +kernel) rfl, Prod.ext (by decide +kernel) rfl,
    by decide +kernel, by decide +kernel, by decide +kernel⟩⟩

theorem normal_balances_dropped : ∃ started final,
    prepareNormal (listNode (ofUnsigned 1000)) { addressRecipients := [payTo 9593] } started = (.ok (), final) ∧
    ∃ paid returned fee units, Pays { addressRecipients := [payTo 9593] } paid ∧
      Balanced (listNode (ofUnsigned 1000)) paid returned fee units final := by
  have existing : caught (addExistingInputs (listNode (ofUnsigned 1000)))
      (new { addressRecipients := [payTo 9593] } [ownOutput 10000 .payToPubkeyHash 0]) = (.ok true, _) :=
    Prod.ext (by decide +kernel) rfl
  have ran : prepareNormal (listNode (ofUnsigned 1000)) { addressRecipients := [payTo 9593] }
      (new { addressRecipients := [payTo 9593] } [ownOutput 10000 .payToPubkeyHash 0]) = (.ok (), _) :=
    Prod.ext (by decide +kernel) rfl
  exact ⟨_, _, ran, normal_balances existing ran⟩

end Opentxs.Spend.Builder
