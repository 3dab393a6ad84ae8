import Opentxs.HeaderOracle.Checkpoint
import Opentxs.HeaderOracle.Colours

/-! Under a fixed checkpoint, the best tip has at least the work of every connected header
that is not blacklisted. -/

namespace Opentxs.HeaderOracle.MostWork
open Library Library.Tree BlockHeader Storage Update Shared HeaderTree Frame Connect Join AddHeader Apply Consistency Batches
open Colours Checkpoint
set_option linter.unusedSectionVars false

variable {Work : Type} [AddCommMonoid Work] [LinearOrder Work] {genesis : Genesis Work}

/-- The tip is allowed and has at least the work of every allowed header. -/
structure Heaviest (headers : Hash → Option (Header Work)) (current : Header Work) : Prop where
  allowed : current.isBlacklisted = false
  most : ∀ hash header, headers hash = some header → header.isDisconnected = false →
    header.isBlacklisted = false → header.totalWork ≤ current.totalWork

section Work

variable [IsOrderedCancelAddMonoid Work] {headers : Hash → Option (Header Work)} {waiting : List ChainSegment}

/-- A child has more work than its parent. -/
theorem work_lt_child (forest : Forest genesis headers waiting) {hash : Hash} {header parent : Header Work}
    (found : headers hash = some header) (attached : header.isDisconnected = false)
    (above : headers header.parentHash = some parent) : parent.totalWork < header.totalWork := by
  have other : hash ≠ genesis.hash := by
    intro origin
    rw [origin, forest.origin] at found
    cases found
    rw [Genesis.header, forest.null] at above
    cases above
  obtain ⟨known, foundKnown, linked⟩ := forest.attached hash header found attached other
  rw [above] at foundKnown
  cases foundKnown
  rw [forest.totalWork hash header parent found attached other linked]
  exact lt_add_of_pos_left _ (forest.work hash header found other)

theorem work_le_lineage (forest : Forest genesis headers waiting) {base : Hash} {hashes : List Hash} {first last : Header Work}
    (found : headers base = some first) (lineage : Lineage headers base hashes)
    (foundLast : headers (hashes.getLastD base) = some last) : first.totalWork ≤ last.totalWork := by
  induction hashes generalizing base first with
  | nil =>
    rw [List.getLastD_nil, found] at foundLast
    cases foundLast
    exact le_refl _
  | cons hash hashes ih =>
    obtain ⟨⟨header, foundHeader, attached, under⟩, rest⟩ := lineage
    rw [getLastD_cons] at foundLast
    have step : first.totalWork < header.totalWork :=
      work_lt_child forest foundHeader attached (by rw [under]; exact found)
    exact le_trans (le_of_lt step) (ih foundHeader rest foundLast)

end Work

/-- What is on a lineage is followed by the rest of it. -/
theorem lineage_from {headers : Hash → Option (Header Work)} {base : Hash} {hashes : List Hash}
    (lineage : Lineage headers base hashes) (hash : Hash) (member : hash ∈ base :: hashes) :
    ∃ rest, Lineage headers hash rest ∧ rest.getLastD hash = hashes.getLastD base := by
  induction hashes generalizing base with
  | nil =>
    rw [List.mem_singleton] at member
    subst member
    exact ⟨[], trivial, rfl⟩
  | cons first hashes ih =>
    rcases List.mem_cons.mp member with rfl | later
    · exact ⟨first :: hashes, lineage, rfl⟩
    · rw [getLastD_cons]
      exact ih lineage.2 later

section Added

variable [IsOrderedCancelAddMonoid Work] {before after : UpdateTransaction Work} {current best parent base : Header Work}
  {new : NewHeader Work} {hashes : List Hash} {paths : List (List Hash)}

/-- When all that joins has one colour, the best candidate is the best of all that joins. -/
theorem Heaviest.accepted (heaviest : Heaviest (view before) current) (joinable : Joinable genesis before new parent)
    (accepted : Accepted new parent current base best hashes paths before after) (uniform : SameColour before new) :
    Heaviest (view after) best := by
  obtain ⟨colour, all⟩ := joined_colour accepted.joined joinable uniform
  obtain ⟨banned, greatest⟩ := accepted.colour colour all
  have forest := accepted.joined.forest joinable
  have more : current.totalWork ≤ best.totalWork := by
    rcases accepted.outcome with ⟨rfl, _⟩ | ⟨_, _, chosen⟩
    · exact le_refl _
    · exact le_of_lt chosen.more
  constructor
  · rcases accepted.outcome with ⟨rfl, _⟩ | ⟨rest, member, chosen⟩
    · exact heaviest.allowed
    · have joins : Joins before new (rest.getLastD new.hash) := (accepted.branches.path rest member).last_descendant
      have flag := all _ best joins chosen.tip
      cases colour with
      | false => exact flag
      | true =>
        have same := banned rfl
        subst same
        exact absurd chosen.more (lt_irrefl _)
  · intro hash header found attached allowed
    by_cases below : Joins before new hash
    · have flag := all hash header below found
      rw [allowed] at flag
      obtain ⟨rest, member, inRest⟩ := accepted.branches.covers hash below
      have lineage : Lineage (view after) new.hash rest :=
        accepted.joined.lineage joinable (accepted.branches.path rest member) Descendant.top
      obtain ⟨following, lower, last⟩ := lineage_from lineage hash inRest
      have joins : Joins before new (rest.getLastD new.hash) := (accepted.branches.path rest member).last_descendant
      obtain ⟨tip, _, foundTip, _⟩ := accepted.joined.node joinable _ joins
      have toTip := work_le_lineage forest found lower (last.symm ▸ foundTip)
      exact le_trans toTip (greatest flag.symm rest member tip foundTip)
    · rw [accepted.joined.others hash below] at found
      exact le_trans (heaviest.most hash header found attached allowed) more

theorem Heaviest.waits (heaviest : Heaviest (view before) current) (waits : Waits new before after) :
    Heaviest (view after) current where
  allowed := heaviest.allowed
  most := by
    intro hash header found attached allowed
    rw [waits.headers] at found
    split at found
    · cases found
      cases attached
    · exact heaviest.most hash header found attached allowed

theorem Heaviest.added (heaviest : Heaviest (view before) current) (added : Added genesis new before current after best)
    (uniform : view before new.hash = none → Attached (view before) new.parentHash → SameColour before new) :
    Heaviest (view after) best := by
  cases added with
  | known => exact heaviest
  | waits _ _ waits => exact heaviest.waits waits
  | joins joinable accepted =>
    exact heaviest.accepted joinable accepted
      (uniform joinable.fresh ⟨_, joinable.above, joinable.attached⟩)

end Added

/-! ## Runs -/

/-- A run begins with genesis alone, under a checkpoint or under none. -/
inductive Start (genesis : Genesis Work) : Database Work → Prop
  | free : Start genesis (initial genesis)
  | fixed {position : Int} {requiredHash : Hash} {outcome : Outcome Work} :
      addCheckpoint (initial genesis) position requiredHash = .ok outcome → Start genesis outcome.db

/-- The best tip is connected and not blacklisted, and no connected header that is not
blacklisted has more cumulative work. -/
def HasMostWork (genesis : Genesis Work) (db : Database Work) : Prop :=
  ∃ header height work, db.headers db.best.hash = some header ∧ header.isBlacklisted = false ∧
    Connected genesis db.headers db.best.hash height work ∧
    ∀ otherHash other otherHeight otherWork, db.headers otherHash = some other → other.isBlacklisted = false →
      Connected genesis db.headers otherHash otherHeight otherWork → otherWork ≤ work

/-- When a header connects, no three of the blocks that wait below it wait for one block, nothing
splits below the first of two, and all of them have the colour of the header. -/
def BringsOneColour (update : UpdateTransaction Work) (new : NewHeader Work) : Prop :=
  view update new.hash = none → Attached (view update) new.parentHash →
    Narrow (waitingFor update.cachedDisconnected) true new.hash ∧ SameColour update new

/-- What holds of the database between the batches. -/
def Settled (genesis : Genesis Work) (db : Database Work) : Prop :=
  ∃ current, ConsistentDb genesis db current ∧ Coloured genesis db.checkpoint db.headers ∧ Heaviest db.headers current

theorem start_checkpoint {db : Database Work} (start : Start genesis db) :
    ∃ checkpoint, db = { initial genesis with checkpoint } := by
  cases start with
  | free => exact ⟨{}, rfl⟩
  | fixed adding =>
    rename_i position requiredHash outcome
    have noCheckpoint : ({ db := initial genesis } : UpdateTransaction Work).effectiveCheckpoint = false := rfl
    unfold addCheckpoint at adding
    simp only [noCheckpoint] at adding
    by_cases low : 2 > position
    · rw [if_neg Bool.false_ne_true, if_pos low] at adding
      cases adding
      exact ⟨{}, rfl⟩
    · rw [if_neg Bool.false_ne_true, if_neg low] at adding
      obtain ⟨known, finished, _, same⟩ := finishCheckpoint_above (consistentDb_initial genesis {}) position
        (by simp only [Genesis.header]; omega) ⟨position, requiredHash⟩
      have equal : (Except.ok known : Except Fault (Outcome Work)) = .ok outcome := finished.symm.trans adding
      cases equal
      exact ⟨_, same⟩

theorem settled_start {db : Database Work} (start : Start genesis db) : Settled genesis db := by
  obtain ⟨checkpoint, rfl⟩ := start_checkpoint start
  have stored : ∀ hash header, (initial genesis).headers hash = some header → hash = genesis.hash ∧ header = genesis.header := by
    intro hash header found
    simp only [initial] at found
    split at found
    · rename_i same
      exact ⟨same, (Option.some.inj found).symm⟩
    · cases found
  refine ⟨genesis.header, consistentDb_initial genesis checkpoint, ?_, rfl, ?_⟩
  · intro hash header parent found _ other _
    exact absurd (stored hash header found).1 other
  · intro hash header found _ _
    rw [(stored hash header found).2]

theorem hasMostWork_of_settled {db : Database Work} (settled : Settled genesis db) : HasMostWork genesis db := by
  obtain ⟨current, consistent, _, heaviest⟩ := settled
  have best : db.best.hash = current.hash := congrArg Position.hash consistent.best
  refine ⟨current, current.height, current.totalWork, ?_, heaviest.allowed, ?_, ?_⟩
  · rw [best]
    exact consistent.found
  · rw [best]
    exact consistent.forest.connected _ current consistent.found consistent.attached
  · intro otherHash other otherHeight otherWork found allowed connected
    obtain ⟨header, foundHeader, attached, _, rfl⟩ := (consistent.forest.connected_iff _ _ _).mp connected
    rw [found] at foundHeader
    cases foundHeader
    exact heaviest.most otherHash other found attached allowed

section Run

variable [IsOrderedCancelAddMonoid Work]

theorem kept_mostWork : Kept genesis (BringsOneColour : UpdateTransaction Work → NewHeader Work → Prop) fun update current =>
    Coloured genesis update.checkpoint (view update) ∧ Heaviest (view update) current where
  narrow := fun _ _ meets fresh attached => (meets fresh attached).1
  step := fun _ _ _ _ _ consistent holds meets added =>
    ⟨holds.1.added consistent added, holds.2.added added fun fresh attached => (meets fresh attached).2⟩

theorem settled_addHeaders (db : Database Work) (headers : List (Option (NewHeader Work))) (settled : Settled genesis db)
    (meets : EachMeets BringsOneColour headers { db }) :
    ∃ outcome, addHeaders db headers = .ok outcome ∧ Settled genesis outcome.db := by
  obtain ⟨current, consistent, coloured, heaviest⟩ := settled
  obtain ⟨outcome, adding, result⟩ :=
    addHeaders_keeps kept_mostWork db current consistent ⟨coloured, heaviest⟩ headers meets
  refine ⟨outcome, adding, ?_⟩
  rcases result with rfl | ⟨update, best, rows, updateConsistent, ⟨updateColoured, updateHeaviest⟩, _, popped, rfl⟩
  · exact ⟨current, consistent, coloured, heaviest⟩
  · obtain ⟨lastUpdate, same, written⟩ := ConsistentDb.published updateConsistent rows popped
    refine ⟨best, written, ?_, ?_⟩
    · rw [same]
      exact updateColoured
    · rw [same]
      exact updateHeaviest

/-- As long as each header brings blocks of one colour, never too many at a time, every run
of batches ends on a tip with the most work. -/
theorem best_has_most_work (db : Database Work) (start : Start genesis db)
    (batches : List (List (Option (NewHeader Work)))) (meets : RunMeets BringsOneColour batches db) :
    ∃ final, run db (batches.map Operation.addHeaders) = .ok final ∧ HasMostWork genesis final := by
  obtain ⟨final, running, settled⟩ := run_keeps settled_addHeaders batches db (settled_start start) meets
  exact ⟨final, running, hasMostWork_of_settled settled⟩

end Run

/-- Two headers that arrive child first. -/
theorem best_has_most_work_out_of_order : ∃ final,
    run (initial origin) ([[block 3 2 1 (by decide), block 2 1 1 (by decide)]].map Operation.addHeaders) = .ok final ∧
      HasMostWork origin final := by
  apply best_has_most_work (initial origin) Start.free
  refine ⟨⟨?_, ?_⟩, fun _ _ => trivial⟩
  · intro _ ⟨parent, found, _⟩
    cases found
  · intro after adding
    have staged : (addHeader ({ db := initial origin } : UpdateTransaction Nat)
        ⟨3, 2, 1, by decide, by decide, by decide⟩).toOption.map
        (fun result => (result.2.cachedDisconnected, view result.2 1, result.2.checkpoint)) =
        some ([⟨2, 3⟩], some origin.header, {}) := by decide
    rw [adding] at staged
    obtain ⟨cached, found, checkpoint⟩ : after.cachedDisconnected = [⟨2, 3⟩] ∧ view after 1 = some origin.header ∧
        after.checkpoint = {} := by simpa [Except.toOption] using staged
    refine ⟨?_, fun _ _ => trivial⟩
    intro _ _
    rw [cached]
    have waiting : waitingFor [⟨2, 3⟩] 2 = [3] := rfl
    refine ⟨Narrow.step waiting (Narrow.leaf rfl), ?_⟩
    intro parent foundParent
    have same : parent = origin.header := Option.some.inj (foundParent.symm.trans found)
    subst same
    refine Or.inr (Or.inr ?_)
    intro rest _ banned
    rw [checkpoint, checkpointStatus_banned] at banned
    have height := banned.1
    simp only [Genesis.header] at height
    omega

/-- Block 2 is connected, allowed and has more work than the tip, but its candidate was
dropped with the blacklisted block 3 that waited for it. -/
theorem prefix_of_banned_branch_dropped : ∃ final,
    run (initial origin) [.addCheckpoint 2 50, .addHeaders [block 3 2 1 (by decide)],
      .addHeaders [block 2 1 5 (by decide)]] = .ok final ∧ ¬ HasMostWork origin final := by
  have reached : ((run (initial origin) [.addCheckpoint 2 50, .addHeaders [block 3 2 1 (by decide)],
      .addHeaders [block 2 1 5 (by decide)]]).toOption.map
      fun db => (db.best.hash, db.headers 0, db.headers 1, db.headers 2)) =
      some (1, none, some ⟨1, 0, 1, 0, .checkpoint, .normal, 0⟩, some ⟨2, 1, 5, 1, .normal, .normal, 1⟩) := by decide
  cases running : run (initial origin) [.addCheckpoint 2 50, .addHeaders [block 3 2 1 (by decide)],
      .addHeaders [block 2 1 5 (by decide)]] with
  | error fault =>
    rw [running] at reached
    cases reached
  | ok final =>
    rw [running] at reached
    obtain ⟨best, null, first, second⟩ : final.best.hash = 1 ∧ final.headers 0 = none ∧
        final.headers 1 = some ⟨1, 0, 1, 0, .checkpoint, .normal, 0⟩ ∧ final.headers 2 = some ⟨2, 1, 5, 1, .normal, .normal, 1⟩ := by simpa [Except.toOption] using reached
    refine ⟨final, rfl, ?_⟩
    intro ⟨header, height, work, _, _, connected, most⟩
    rw [best] at connected
    have tipWork : work = 1 := by
      cases connected with
      | genesis => rfl
      | child found above =>
        rw [first] at found
        cases found
        cases above with
        | child foundNull _ =>
          rw [null] at foundNull
          cases foundNull
    have heavier := most 2 _ _ _ second (by decide) (Connected.child second Connected.genesis)
    rw [tipWork] at heavier
    exact absurd heavier (by decide)

end Opentxs.HeaderOracle.MostWork
