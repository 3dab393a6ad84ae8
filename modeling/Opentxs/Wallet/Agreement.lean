import Opentxs.Wallet.Runs

/-! When the tables and the memory agree: every output is in the indexes that it belongs to, in no
others, and loading the tables anew would give what is in memory. Strict edits keep this. -/

namespace Opentxs.Wallet.Agreement
open Library HeaderOracle BlockHeader Types Storage OutputCache Outputs Tracking Associations Editing Effects

/-! ## Generation outputs -/

theorem emplaceGeneration_perm (height : Int) (id : Outpoint) (entries : List (Int × Outpoint)) :
    (emplaceGeneration height id entries).Perm ((height, id) :: entries) := by
  induction entries with
  | nil => exact .refl _
  | cons entry entries ih =>
    unfold emplaceGeneration
    split
    · exact .refl _
    · exact (ih.cons entry).trans (List.Perm.swap _ _ _)

/-- The entries stand by height. -/
def ByHeight (entries : List (Int × Outpoint)) : Prop := entries.Pairwise fun first second => first.1 ≤ second.1

theorem emplaceGeneration_byHeight {height : Int} {id : Outpoint} {entries : List (Int × Outpoint)}
    (ordered : ByHeight entries) : ByHeight (emplaceGeneration height id entries) := by
  induction entries with
  | nil => exact List.pairwise_singleton _ _
  | cons entry entries ih =>
    obtain ⟨first, rest⟩ := List.pairwise_cons.mp ordered
    unfold emplaceGeneration
    split
    · rename_i before
      refine List.pairwise_cons.mpr ⟨fun other member => ?_, ordered⟩
      rcases List.mem_cons.mp member with rfl | inRest
      · exact before.le
      · exact before.le.trans (first other inRest)
    · rename_i notBefore
      refine List.pairwise_cons.mpr ⟨fun other member => ?_, ih rest⟩
      rcases List.mem_cons.mp ((emplaceGeneration_perm height id entries).mem_iff.mp member) with rfl | inRest
      · exact not_lt.mp notBefore
      · exact first other inRest

theorem mem_generationRows (generation : Index Int) (row : Int × Outpoint) :
    row ∈ generationRows generation ↔ row ∈ generation := by
  unfold generationRows
  rw [List.mem_map]
  constructor
  · rintro ⟨item, listed, rfl⟩
    obtain ⟨other, member, same⟩ := Finset.mem_map.mp ((SortedList.mem_ordered _ _).mp listed)
    rw [← same]
    exact member
  · intro member
    exact ⟨toLex row, (SortedList.mem_ordered _ _).mpr (Finset.mem_map.mpr ⟨row, member, rfl⟩), rfl⟩

theorem generationRows_nodup (generation : Index Int) : (generationRows generation).Nodup :=
  (SortedList.ordered_nodup _).map ofLex.injective

/-- Loading puts every row of the table into the list. -/
theorem loadGeneration_perm (rows entries : List (Int × Outpoint)) :
    (rows.foldl (fun entries row => emplaceGeneration row.1 row.2 entries) entries).Perm (rows ++ entries) := by
  induction rows generalizing entries with
  | nil => exact .refl _
  | cons row rows ih =>
    refine (ih _).trans ?_
    exact ((emplaceGeneration_perm _ _ _).append_left rows).trans List.perm_middle

/-- What is removed above a height with at most one entry is all that stands higher. -/
theorem generationAbove_split {good : Int} {entries : List (Int × Outpoint)} (ordered : ByHeight entries)
    (single : (entries.filter fun entry => entry.1 = good).length ≤ 1) :
    ∃ kept, entries = kept ++ generationAbove good entries ∧ (∀ entry ∈ kept, entry.1 ≤ good) ∧
      ∀ entry ∈ generationAbove good entries, good < entry.1 := by
  induction entries with
  | nil => exact ⟨[], rfl, nofun, nofun⟩
  | cons entry entries ih =>
    obtain ⟨first, rest⟩ := List.pairwise_cons.mp ordered
    by_cases low : entry.1 < good
    · have skips : generationAbove good (entry :: entries) = generationAbove good entries := by
        unfold generationAbove
        rw [List.dropWhile_cons, if_pos (decide_eq_true low)]
      have other : ¬ decide (entry.1 = good) = true := by
        rw [decide_eq_true_eq]
        exact low.ne
      rw [List.filter_cons, if_neg other] at single
      obtain ⟨kept, whole, below, above⟩ := ih rest single
      rw [skips]
      refine ⟨entry :: kept, by rw [List.cons_append, ← whole], fun item member => ?_, above⟩
      rcases List.mem_cons.mp member with rfl | inKept
      · exact low.le
      · exact below item inKept
    · have stops : generationAbove good (entry :: entries) = if entry.1 = good then entries else entry :: entries := by
        unfold generationAbove
        rw [List.dropWhile_cons, if_neg (by rw [decide_eq_true_eq]; exact low)]
      rw [stops]
      split
      · rename_i same
        rw [List.filter_cons, if_pos (decide_eq_true same), List.length_cons] at single
        have none : entries.filter (fun entry => entry.1 = good) = [] := List.length_eq_zero_iff.mp (by omega)
        refine ⟨[entry], rfl, fun item member => ?_, fun item member => ?_⟩
        · rw [List.mem_singleton.mp member]
          exact same.le
        · have different := List.filter_eq_nil_iff.mp none item member
          rw [decide_eq_true_eq] at different
          exact lt_of_le_of_ne (same ▸ first item member) (Ne.symm different)
      · rename_i different
        have higher : good < entry.1 := lt_of_le_of_ne (not_lt.mp low) (Ne.symm different)
        refine ⟨[], rfl, nofun, fun item member => ?_⟩
        rcases List.mem_cons.mp member with rfl | inRest
        · exact higher
        · exact higher.trans_le (first item inRest)

/-! ## Indexes -/

/-- The nym that owns an output with these keys. -/
def ownerOf (environment : Environment) : List Key → Option Nym
  | [key] => if key.subchain = .outgoing then none else environment.owner key
  | _ => none

/-- Each output stands in the indexes under its own state, position, account, subchain, owner and
keys, and nowhere else. -/
structure Indexed (environment : Environment) (home : Outpoint → AccountID × SubchainID)
    (outputs : Outpoint → Option Output) (indexes : Indexes) : Prop where
  states : ∀ state id, (state, id) ∈ indexes.states ↔ ∃ output, outputs id = some output ∧ output.state = state
  positions : ∀ position id, (position, id) ∈ indexes.positions ↔
    ∃ output, outputs id = some output ∧ output.minedPosition = position
  accounts : ∀ account id, (account, id) ∈ indexes.accounts ↔ (outputs id).isSome ∧ (home id).1 = account
  subchains : ∀ subchain id, (subchain, id) ∈ indexes.subchains ↔ (outputs id).isSome ∧ (home id).2 = subchain
  nyms : ∀ nym id, (nym, id) ∈ indexes.nyms ↔
    ∃ output, outputs id = some output ∧ ownerOf environment output.keys = some nym
  keys : ∀ key id, (key, id) ∈ indexes.keys ↔ ∃ output, outputs id = some output ∧ key ∈ output.keys

variable {environment : Environment} {home : Outpoint → AccountID × SubchainID} {outputs : Outpoint → Option Output}
  {indexes : Indexes}

theorem mem_ownerRows (environment : Environment) (id : Outpoint) (keys : List Key) (index : Index Nym) (nym : Nym)
    (other : Outpoint) : (nym, other) ∈ ownerRows environment id keys index ↔
      (ownerOf environment keys = some nym ∧ other = id) ∨ (nym, other) ∈ index := by
  cases keys with
  | nil => simp [ownerRows, ownerOf]
  | cons key others =>
    cases others with
    | cons second others => simp [ownerRows, ownerOf]
    | nil =>
      by_cases outgoing : key.subchain = .outgoing
      · simp [ownerRows, ownerOf, outgoing]
      · cases owner : environment.owner key with
        | none => simp [ownerRows, ownerOf, outgoing, owner]
        | some owner => simp [ownerRows, ownerOf, outgoing, owner, eq_comm]

/-- What is known of the rows of an output that is replaced, and of all others. -/
theorem exists_update {id other : Outpoint} {new : Output} {holds : Output → Prop} :
    (∃ output, Function.update outputs id (some new) other = some output ∧ holds output) ↔
      (other = id ∧ holds new) ∨ (other ≠ id ∧ ∃ output, outputs other = some output ∧ holds output) := by
  by_cases same : other = id
  · subst same
    rw [Function.update_self]
    simp
  · rw [Function.update_of_ne same]
    simp [same]

theorem Indexed.replace (indexed : Indexed environment home outputs indexes) {id : Outpoint} {old new : Output}
    (found : outputs id = some old) (known : old.state ∈ allStates) (keys : new.keys = old.keys) :
    Indexed environment home (Function.update outputs id (some new))
      { indexes with
        keys := addKeys id old.keys indexes.keys
        states := if new.state ≠ old.state then insert (new.state, id) (eraseStates id indexes.states) else indexes.states
        positions := if new.minedPosition ≠ old.minedPosition
          then movePosition indexes.positions old.minedPosition new.minedPosition id else indexes.positions } := by
  have isSome : ∀ other, (Function.update outputs id (some new) other).isSome = (outputs other).isSome := by
    intro other
    by_cases same : other = id
    · rw [same, Function.update_self, found]
      rfl
    · rw [Function.update_of_ne same]
  have here : ∀ holds : Output → Prop, (∃ output, outputs id = some output ∧ holds output) ↔ holds old := by
    intro holds
    rw [found]
    simp
  constructor
  · intro state other
    rw [exists_update]
    dsimp only
    by_cases same : other = id
    · subst same
      simp only [true_and, ne_eq, not_true_eq_false, false_and, or_false]
      split
      · rw [Finset.mem_insert, mem_eraseStates, indexed.states, here]
        constructor
        · rintro (is | ⟨is, unknown⟩)
          · exact (Prod.mk.inj is).1.symm
          · rw [← is] at unknown
            exact absurd ⟨known, rfl⟩ unknown
        · rintro rfl
          exact Or.inl rfl
      · rename_i stays
        rw [indexed.states, here, ← not_not.mp stays]
    · simp only [same, false_and, ne_eq, not_false_eq_true, true_and, false_or]
      rw [← indexed.states]
      split
      · rw [Finset.mem_insert, mem_eraseStates]
        simp [same]
      · exact Iff.rfl
  · intro position other
    rw [exists_update]
    dsimp only
    by_cases same : other = id
    · subst same
      simp only [true_and, ne_eq, not_true_eq_false, false_and, or_false]
      split
      · rw [movePosition, Finset.mem_insert, Finset.mem_erase, indexed.positions, here]
        constructor
        · rintro (is | ⟨different, is⟩)
          · exact (Prod.mk.inj is).1.symm
          · rw [is] at different
            exact absurd rfl different
        · rintro rfl
          exact Or.inl rfl
      · rename_i stays
        rw [indexed.positions, here, ← not_not.mp stays]
    · simp only [same, false_and, ne_eq, not_false_eq_true, true_and, false_or]
      rw [← indexed.positions]
      split
      · rw [movePosition, Finset.mem_insert, Finset.mem_erase]
        simp [same]
      · exact Iff.rfl
  · intro account other
    rw [isSome]
    exact indexed.accounts account other
  · intro subchain other
    rw [isSome]
    exact indexed.subchains subchain other
  · intro nym other
    rw [exists_update]
    dsimp only
    rw [indexed.nyms, keys]
    by_cases same : other = id
    · subst same
      rw [here]
      simp
    · simp [same]
  · intro key other
    rw [exists_update]
    dsimp only
    rw [mem_addKeys, indexed.keys, keys]
    by_cases same : other = id
    · subst same
      rw [here]
      simp
    · simp [same]

theorem Indexed.add (isIndexed : Indexed environment home outputs indexes) {id : Outpoint} {output : Output}
    (fresh : outputs id = none) :
    Indexed environment home (Function.update outputs id (some output))
      (withOwners environment id output.keys (indexed (home id).1 (home id).2 id output indexes)) := by
  have nothing : ∀ holds : Output → Prop, ¬ ∃ output, outputs id = some output ∧ holds output := by
    intro holds
    rw [fresh]
    simp
  have isSome : ∀ other, (Function.update outputs id (some output) other).isSome = true ↔
      other = id ∨ (outputs other).isSome = true := by
    intro other
    by_cases same : other = id
    · rw [same, Function.update_self]
      simp
    · rw [Function.update_of_ne same]
      simp [same]
  -- a row of the new output beside those of the others
  have beside : ∀ (holds : Output → Prop) (other : Outpoint),
      (other = id ∧ holds output ∨ ∃ output, outputs other = some output ∧ holds output) ↔
        other = id ∧ holds output ∨ other ≠ id ∧ ∃ output, outputs other = some output ∧ holds output := by
    intro holds other
    apply or_congr_right
    constructor
    · intro stored
      refine ⟨?_, stored⟩
      rintro rfl
      exact nothing holds stored
    · exact And.right
  constructor
  · intro state other
    rw [exists_update, ← beside fun output => output.state = state, ← isIndexed.states]
    show (state, other) ∈ insert (output.state, id) indexes.states ↔ _
    rw [Finset.mem_insert, Prod.mk.injEq]
    tauto
  · intro position other
    rw [exists_update, ← beside fun output => output.minedPosition = position, ← isIndexed.positions]
    show (position, other) ∈ insert (output.minedPosition, id) indexes.positions ↔ _
    rw [Finset.mem_insert, Prod.mk.injEq]
    tauto
  · intro account other
    rw [isSome, or_and_right, ← isIndexed.accounts]
    show (account, other) ∈ insert ((home id).1, id) indexes.accounts ↔ _
    rw [Finset.mem_insert, Prod.mk.injEq]
    apply or_congr_left
    constructor
    · rintro ⟨rfl, rfl⟩
      exact ⟨rfl, rfl⟩
    · rintro ⟨rfl, rfl⟩
      exact ⟨rfl, rfl⟩
  · intro subchain other
    rw [isSome, or_and_right, ← isIndexed.subchains]
    show (subchain, other) ∈ insert ((home id).2, id) indexes.subchains ↔ _
    rw [Finset.mem_insert, Prod.mk.injEq]
    apply or_congr_left
    constructor
    · rintro ⟨rfl, rfl⟩
      exact ⟨rfl, rfl⟩
    · rintro ⟨rfl, rfl⟩
      exact ⟨rfl, rfl⟩
  · intro nym other
    rw [exists_update, ← beside fun output => ownerOf environment output.keys = some nym, ← isIndexed.nyms]
    show (nym, other) ∈ ownerRows environment id output.keys indexes.nyms ↔ _
    rw [mem_ownerRows]
    tauto
  · intro key other
    rw [exists_update, ← beside fun output => key ∈ output.keys, ← isIndexed.keys]
    show (key, other) ∈ addKeys id output.keys indexes.keys ↔ _
    rw [mem_addKeys]
    tauto

/-! ## Generation outputs and their table -/

/-- In memory the generation outputs stand by height, and are those of the table, each once. -/
structure Generations (outputs : Outpoint → Option Output) (entries : List (Int × Outpoint)) (rows : Index Int) : Prop where
  ordered : ByHeight entries
  distinct : entries.Nodup
  same : ∀ entry, entry ∈ entries ↔ entry ∈ rows
  stored : ∀ entry ∈ entries, (outputs entry.2).isSome = true

variable {entries : List (Int × Outpoint)} {rows : Index Int}

theorem Generations.grow (generations : Generations outputs entries rows) {later : Outpoint → Option Output}
    (grows : ∀ id, (outputs id).isSome = true → (later id).isSome = true) : Generations later entries rows :=
  ⟨generations.ordered, generations.distinct, generations.same, fun entry member => grows _ (generations.stored entry member)⟩

theorem Generations.add (generations : Generations outputs entries rows) {id : Outpoint} (fresh : outputs id = none)
    (height : Int) (output : Output) :
    Generations (Function.update outputs id (some output)) (emplaceGeneration height id entries) (insert (height, id) rows) := by
  have perm := emplaceGeneration_perm height id entries
  have absent : (height, id) ∉ entries := by
    intro member
    have stored := generations.stored _ member
    rw [fresh] at stored
    cases stored
  constructor
  · exact emplaceGeneration_byHeight generations.ordered
  · exact perm.nodup_iff.mpr (List.nodup_cons.mpr ⟨absent, generations.distinct⟩)
  · intro entry
    rw [perm.mem_iff, List.mem_cons, Finset.mem_insert, generations.same]
  · intro entry member
    by_cases same : entry.2 = id
    · rw [same, Function.update_self]
      rfl
    · rw [Function.update_of_ne same]
      rcases List.mem_cons.mp (perm.mem_iff.mp member) with rfl | earlier
      · exact absurd rfl same
      · exact generations.stored entry earlier

/-- When at most one entry stands at a height, what is removed above it from memory is what is
deleted from the table. -/
theorem Generations.prune (generations : Generations outputs entries rows) {good : Int}
    (single : (entries.filter fun entry => entry.1 = good).length ≤ 1) :
    Generations outputs (entries.take (entries.length - (generationAbove good entries).length))
      (rows.filter fun row => row.1 ∉ (generationAbove good entries).map Prod.fst) := by
  obtain ⟨kept, whole, below, above⟩ := generationAbove_split generations.ordered single
  have takes : entries.take (entries.length - (generationAbove good entries).length) = kept := by
    calc entries.take (entries.length - (generationAbove good entries).length)
      _ = entries.take kept.length := by
        rw [show entries.length = kept.length + (generationAbove good entries).length by
          rw [← List.length_append, ← whole], Nat.add_sub_cancel]
      _ = (kept ++ generationAbove good entries).take kept.length := by rw [← whole]
      _ = kept := List.take_left
  have part : kept.Sublist entries := by
    rw [← takes]
    exact List.take_sublist _ _
  rw [takes]
  constructor
  · exact generations.ordered.sublist part
  · exact generations.distinct.sublist part
  · intro entry
    rw [Finset.mem_filter, ← generations.same]
    constructor
    · intro member
      refine ⟨part.subset member, fun deleted => ?_⟩
      obtain ⟨other, isAbove, sameHeight⟩ := List.mem_map.mp deleted
      have low := below entry member
      have high := above other isAbove
      omega
    · rintro ⟨member, undeleted⟩
      rw [whole] at member
      rcases List.mem_append.mp member with inKept | isAbove
      · exact inKept
      · exact absurd (List.mem_map.mpr ⟨entry, isAbove, rfl⟩) undeleted
  · intro entry member
    exact generations.stored entry (part.subset member)

/-! ## Memory and tables -/

/-- The indexes show the outputs, and the memory shows the tables in everything. -/
structure Consistent (environment : Environment) (home : Outpoint → AccountID × SubchainID) (session : Session) : Prop where
  orderly : Orderly session
  indexed : Indexed environment home session.cache.outputs session.cache.indexes
  positions : session.cache.indexes.positions = session.tables.indexes.positions
  single : Single session.cache session.tables
  created : session.cache.createdByProposal = session.tables.proposalCreated
  consumed : session.cache.consumedByProposal = session.tables.proposalSpent
  generations : Generations session.cache.outputs session.cache.generationOutputs session.tables.generation

/-- Stored outputs stay stored, under their keys. -/
def Keeps (before after : Session) : Prop :=
  ∀ id output, before.cache.outputs id = some output →
    ∃ later, after.cache.outputs id = some later ∧ later.keys = output.keys

variable {before after : Session}

theorem keeps_same (outputs : after.cache.outputs = before.cache.outputs) : Keeps before after := by
  intro id output found
  exact ⟨output, by rw [outputs, found], rfl⟩

theorem Edit.keeps {terms : Terms} (edit : Edit terms before after) : Keeps before after := by
  cases edit with
  | associations change _ reassociates =>
    apply keeps_same
    rw [reassociates.cache]
    rfl
  | proposals cache _ _ => exact keeps_same (by rw [cache])
  | replaced id old new _ keys _ replaced =>
    intro other output found
    rw [replaced.cache]
    dsimp only
    by_cases same : other = id
    · subst same
      rw [replaced.found] at found
      cases found
      exact ⟨new, Function.update_self _ _ _, keys⟩
    · exact ⟨output, by rw [Function.update_of_ne same, found], rfl⟩
  | created id output _ middle _ created owned =>
    intro other stored found
    have different : other ≠ id := by
      rintro rfl
      rw [created.fresh] at found
      cases found
    rw [owned.cache]
    show ∃ later, middle.cache.outputs other = some later ∧ later.keys = stored.keys
    rw [created.cache]
    dsimp only
    exact ⟨stored, by rw [Function.update_of_ne different, found], rfl⟩
  | positioned _ positioned => exact keeps_same (by rw [positioned.cache])
  | pruned _ _ pruned => exact keeps_same (by rw [pruned.cache])
  | committed cache _ _ => exact keeps_same (by rw [cache])

theorem edits_keep {terms : Terms} (edits : Edits terms before after) : Keeps before after := by
  induction edits with
  | refl => exact keeps_same rfl
  | tail _ edit ih =>
    intro id output found
    obtain ⟨middle, there, keys⟩ := ih id output found
    obtain ⟨later, stands, sameKeys⟩ := Edit.keeps edit id middle there
    exact ⟨later, stands, sameKeys.trans keys⟩

theorem Keeps.isSome (keeps : Keeps before after) (id : Outpoint) (stored : (before.cache.outputs id).isSome = true) :
    (after.cache.outputs id).isSome = true := by
  obtain ⟨output, found⟩ := Option.isSome_iff_exists.mp stored
  obtain ⟨later, stands, _⟩ := keeps id output found
  rw [stands]
  rfl

theorem Edit.consistent {terms : Terms} {home : Outpoint → AccountID × SubchainID} (strict : terms.strict)
    (homes : ∀ id, before.cache.outputs id = none → terms.home id = home id) (edit : Edit terms before after)
    (consistent : Consistent terms.environment home before) : Consistent terms.environment home after := by
  have orderly := edit.orderly consistent.orderly
  have grows := Keeps.isSome (Edit.keeps edit)
  obtain ⟨early, isIndexed, positions, single, created, consumed, generations⟩ := consistent
  cases edit with
  | associations change paired reassociates =>
    obtain ⟨cache, tables, _, _⟩ := reassociates
    refine ⟨orderly, ?_, ?_, ?_, ?_, ?_, ?_⟩
    · rw [cache]
      exact isIndexed
    · rw [cache, tables]
      exact positions
    · rw [cache, tables]
      exact paired.single strict single
    · rw [cache, tables]
      show change.created before.cache.createdByProposal = change.proposalCreated before.tables.proposalCreated
      rw [paired.created, created]
    · rw [cache, tables]
      show change.consumed before.cache.consumedByProposal = change.proposalSpent before.tables.proposalSpent
      rw [paired.consumed, consumed]
    · rw [cache, tables]
      exact generations
  | proposals cache tables _ =>
    refine ⟨orderly, ?_, ?_, ?_, ?_, ?_, ?_⟩
    · rw [cache]
      exact isIndexed
    · rw [cache, tables.indexes, positions]
    · intro id
      rw [cache, tables.outputProposal, single id]
    · rw [cache, tables.proposalCreated, created]
    · rw [cache, tables.proposalSpent, consumed]
    · rw [cache, tables.generation]
      exact generations
  | replaced id old new _ keys departs replaced =>
    have known := early.filed.known id old replaced.found
    refine ⟨orderly, ?_, ?_, ?_, ?_, ?_, ?_⟩
    · rw [replaced.cache]
      exact isIndexed.replace replaced.found known keys
    · rw [replaced.cache, replaced.tables]
      dsimp only
      split
      · rename_i moves
        rw [movedRows, if_neg (departs strict moves), positions]
        rfl
      · exact positions
    · rw [replaced.cache, replaced.tables]
      exact single
    · rw [replaced.cache, replaced.tables]
      exact created
    · rw [replaced.cache, replaced.tables]
      exact consumed
    · have grown := generations.grow grows
      rw [replaced.tables]
      rw [replaced.cache] at grown ⊢
      exact grown
  | created id output isGeneration middle known stores owned =>
    obtain ⟨fresh, _, _, cache, tables, _, _⟩ := stores
    refine ⟨orderly, ?_, ?_, ?_, ?_, ?_, ?_⟩
    · rw [owned.cache, cache, homes id fresh]
      exact isIndexed.add fresh
    · rw [owned.cache, owned.tables, cache, tables]
      show insert _ before.cache.indexes.positions = insert _ before.tables.indexes.positions
      rw [positions]
    · rw [owned.cache, owned.tables, cache, tables]
      exact single
    · rw [owned.cache, owned.tables, cache, tables]
      exact created
    · rw [owned.cache, owned.tables, cache, tables]
      exact consumed
    · have grown := generations.grow grows
      rw [owned.cache, owned.tables]
      rw [owned.cache] at grown
      show Generations middle.cache.outputs middle.cache.generationOutputs middle.tables.generation
      replace grown : Generations middle.cache.outputs _ _ := grown
      rw [cache] at grown ⊢
      rw [tables]
      cases isGeneration with
      | true => exact generations.add fresh _ output
      | false => exact grown
  | positioned position positioned =>
    obtain ⟨cache, tables, _, _⟩ := positioned
    refine ⟨orderly, ?_, ?_, ?_, ?_, ?_, ?_⟩
    · rw [cache]
      exact isIndexed
    · rw [cache, tables]
      exact positions
    · rw [cache, tables]
      exact single
    · rw [cache, tables]
      exact created
    · rw [cache, tables]
      exact consumed
    · rw [cache, tables]
      exact generations
  | pruned good atMostOne pruned =>
    obtain ⟨cache, tables, _, _⟩ := pruned
    refine ⟨orderly, ?_, ?_, ?_, ?_, ?_, ?_⟩
    · rw [cache]
      exact isIndexed
    · rw [cache, tables]
      exact positions
    · rw [cache, tables]
      exact single
    · rw [cache, tables]
      exact created
    · rw [cache, tables]
      exact consumed
    · rw [cache, tables]
      exact generations.prune (atMostOne strict)
  | committed cache tables _ =>
    refine ⟨orderly, ?_, ?_, ?_, ?_, ?_, ?_⟩
    · rw [cache]
      exact isIndexed
    · rw [cache, tables]
      exact positions
    · rw [cache, tables]
      exact single
    · rw [cache, tables]
      exact created
    · rw [cache, tables]
      exact consumed
    · rw [cache, tables]
      exact generations

theorem edits_consistent {terms : Terms} {home : Outpoint → AccountID × SubchainID} (strict : terms.strict)
    (homes : ∀ id, before.cache.outputs id = none → terms.home id = home id) (edits : Edits terms before after)
    (consistent : Consistent terms.environment home before) : Consistent terms.environment home after := by
  induction edits with
  | refl => exact consistent
  | tail earlier edit ih =>
    refine Edit.consistent strict (fun id absent => homes id ?_) edit ih
    -- what is not there now was not there before
    by_contra present
    have stays := (edits_keep earlier).isSome id (Option.ne_none_iff_isSome.mp present)
    rw [absent] at stays
    cases stays

end Opentxs.Wallet.Agreement
