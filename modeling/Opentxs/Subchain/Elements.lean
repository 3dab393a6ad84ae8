import Mathlib.Data.Finset.Union
import Mathlib.Data.Finset.Insert

/-! The patterns that a subchain is searched for. They are on disk and are read and written through a
cache. -/

namespace Opentxs.Subchain.Elements

abbrev Bip32Index := Nat
abbrev ElementID := Nat
abbrev Element := List UInt8

structure Pattern where
  index : Bip32Index
  data : Element
  deriving DecidableEq

/-- What is on disk of one subchain. -/
structure Tables where
  patterns : ElementID → Finset Pattern := fun _ => ∅
  patternIndex : Finset ElementID := ∅
  lastIndexed : Option Bip32Index := none

/-- Where there is an entry the disk is not read. -/
structure Cache where
  patterns : ElementID → Option (Finset Pattern) := fun _ => none
  patternIndex : Option (Finset ElementID) := none
  lastIndexed : Option Bip32Index := none

/-- Patterns and their index stay. -/
def Cache.clear (cache : Cache) : Cache := { cache with lastIndexed := none }

inductive Write
  | pattern (pattern : Pattern)
  | lastIndexed
  | patternIndex (id : ElementID)
  | commit
  deriving DecidableEq

structure Call where
  elements : List (Bip32Index × List Element)
  fails : Write → Bool

namespace Call

variable (call : Call)

def patterns : List Pattern := call.elements.flatMap fun entry => entry.2.map (Pattern.mk entry.1)

/-- The same call where something else fails. -/
def failing (fails : Write → Bool) : Call := { call with fails := fails }

def highest : Bip32Index := (call.elements.map (·.1)).foldl max 0

end Call

/-- The cache, and the tables as a transaction leaves them. -/
structure Work where
  cache : Cache
  tables : Tables

namespace Work

variable (work : Work)

def cachedPatterns (id : ElementID) : Finset Pattern := (work.cache.patterns id).getD ∅

def cachedIndex : Finset ElementID := work.cache.patternIndex.getD ∅

def setPatterns (id : ElementID) (patterns : Finset Pattern) : Work :=
  { work with cache := { work.cache with patterns := fun other => if other = id then some patterns else work.cache.patterns other } }

def setIndex (ids : Finset ElementID) : Work := { work with cache := { work.cache with patternIndex := some ids } }

/-- What was written or loaded before is not written again. -/
def addPattern (fails : Write → Bool) (id : ElementID) (pattern : Pattern) : Work × Bool :=
  if pattern ∈ work.cachedPatterns id then (work.setPatterns id (work.cachedPatterns id), true)
  else if fails (.pattern pattern) then (work.setPatterns id (work.cachedPatterns id), false)
  else
    let written := work.setPatterns id (insert pattern (work.cachedPatterns id))
    ({ written with tables := { work.tables with
        patterns := fun other => if other = id then insert pattern (work.tables.patterns id) else work.tables.patterns other } }, true)

def addPatternIndex (fails : Write → Bool) (id : ElementID) : Work × Bool :=
  if id ∈ work.cachedIndex then (work.setIndex work.cachedIndex, true)
  else if fails (.patternIndex id) then (work.setIndex work.cachedIndex, false)
  else
    ({ work.setIndex (insert id work.cachedIndex) with
        tables := { work.tables with patternIndex := insert id work.tables.patternIndex } }, true)

def setLastIndexed (fails : Write → Bool) (value : Bip32Index) : Work × Bool :=
  let cached := { work with cache := { work.cache with lastIndexed := some value } }
  if fails .lastIndexed then (cached, false)
  else ({ cached with tables := { work.tables with lastIndexed := some value } }, true)

end Work

/-- The first that fails ends it. -/
def each {α : Type} (store : α → Work → Work × Bool) : List α → Work → Work × Bool
  | [], work => (work, true)
  | item :: rest, work => if (store item work).2 then each store rest (store item work).1 else store item work

def Work.andThen (done : Work × Bool) (next : Work → Work × Bool) : Work × Bool := if done.2 then next done.1 else done

structure State where
  tables : Tables := {}
  cache : Cache := {}

/-- A transaction that has ended has no tables. -/
structure Transaction where
  pending : Option Tables

def Transaction.finalize (fails : Write → Bool) (tables : Tables) (tx : Transaction) : Transaction × Tables × Bool :=
  match tx.pending with
  | some pending => (⟨none⟩, if fails .commit then tables else pending, !fails .commit)
  | none => (tx, tables, false)

section

variable (patternId : Bip32Index → ElementID)

def Call.addPatterns (call : Call) : Work → Work × Bool :=
  each (fun pattern work => work.addPattern call.fails (patternId pattern.index) pattern) call.patterns

def Call.addPatternIndices (call : Call) : Work → Work × Bool :=
  each (fun id work => work.addPatternIndex call.fails id) (call.elements.map fun entry => patternId entry.1)

/-- All that a call writes before its transaction is finalized. -/
def Call.store (call : Call) (work : Work) : Work × Bool :=
  Work.andThen (call.addPatterns patternId work) fun work =>
    Work.andThen (work.setLastIndexed call.fails call.highest) (call.addPatternIndices patternId)

/-- The transaction is finalized twice. -/
def State.addElements (state : State) (call : Call) : State × Bool :=
  let stored := call.store patternId ⟨state.cache, state.tables⟩
  let ended := Transaction.finalize call.fails state.tables ⟨some stored.1.tables⟩
  if stored.2 && ended.2.2 then
    let again := ended.1.finalize call.fails ended.2.1
    (⟨again.2.1, stored.1.cache⟩, again.2.2)
  else (⟨if stored.2 then ended.2.1 else state.tables, stored.1.cache.clear⟩, false)

end

namespace State

variable (state : State)

def patternIndex : Finset ElementID := state.cache.patternIndex.getD state.tables.patternIndex

def patternsOf (id : ElementID) : Finset Pattern := (state.cache.patterns id).getD (state.tables.patterns id)

/-- What is not in the cache yet is loaded. -/
def getPatterns : State × Finset Pattern :=
  ({ state with cache := { state.cache with
      patternIndex := some state.patternIndex
      patterns := fun id => if id ∈ state.patternIndex then some (state.patternsOf id) else state.cache.patterns id } },
    state.patternIndex.biUnion state.patternsOf)

def getLastIndexed : State × Option Bip32Index :=
  ({ state with cache := { state.cache with lastIndexed := state.cache.lastIndexed.or state.tables.lastIndexed } },
    state.cache.lastIndexed.or state.tables.lastIndexed)

/-- The cache starts empty. -/
def restart : State := { state with cache := {} }

end State

/-! ## Runs -/

inductive Event
  | addElements (call : Call)
  | getPatterns
  | getLastIndexed
  | restart

/-- What a subchain tells of its patterns. -/
structure Results where
  patterns : Finset Pattern := ∅
  lastIndexed : Option Bip32Index := none
  deriving DecidableEq

def State.results (state : State) : Results := ⟨state.getPatterns.2, state.getLastIndexed.2⟩

/-- What a call adds to the results if it is a success. -/
def Results.add (results : Results) (call : Call) (success : Bool) : Results :=
  if success then ⟨results.patterns ∪ call.patterns.toFinset, (results.lastIndexed.toList ++ call.patterns.map (·.index)).max?⟩ else results

section

variable (patternId : Bip32Index → ElementID)

def State.step (state : State) : Event → State
  | .addElements call => (state.addElements patternId call).1
  | .getPatterns => state.getPatterns.1
  | .getLastIndexed => state.getLastIndexed.1
  | .restart => state.restart

def Results.after (results : Results) (state : State) : Event → Results
  | .addElements call => results.add call (state.addElements patternId call).2
  | _ => results

/-- The results are told, with or without a restart. -/
def State.Tells (state : State) (results : Results) : Prop := state.results = results ∧ state.restart.results = results

/-- A call has the same outcome in two states. -/
def Repeats (state other : State) (call : Call) : Prop :=
  (state.addElements patternId call).2 = (other.addElements patternId call).2 ∧
    (state.addElements patternId call).1.results = (other.addElements patternId call).1.results ∧
    (state.addElements patternId call).1.restart.results = (other.addElements patternId call).1.restart.results

/-- A call that fails can be repeated as if it had not been made, whatever fails then. -/
def State.Leaves (state : State) : Event → Prop
  | .addElements call => (state.addElements patternId call).2 = false →
      ∀ fails, Repeats patternId state (state.addElements patternId call).1 (call.failing fails)
  | _ => True

/-- All along a run the results are those of the successful calls. -/
def Complete : List Event → State → Results → Prop
  | [], state, results => state.Tells results
  | event :: rest, state, results =>
    state.Tells results ∧ state.Leaves patternId event ∧ Complete rest (state.step patternId event) (results.after patternId state event)

end

/-! ## One call -/

variable {patternId : Bip32Index → ElementID} {call : Call} {state other : State} {work : Work} {fails : Write → Bool}

/-- Whether a call writes to the disk. -/
def Call.commits (patternId : Bip32Index → ElementID) (call : Call) (state : State) : Prop :=
  (call.store patternId ⟨state.cache, state.tables⟩).2 = true ∧ call.fails .commit = false

/-- Whether or not it commits, no call is a success, for its transaction has ended when it is asked. -/
theorem addElements_fails (state : State) (call : Call) : (state.addElements patternId call).2 = false := by
  unfold State.addElements
  simp only []
  split
  · rfl
  · rfl

theorem addElements_commits (commits : call.commits patternId state) :
    (state.addElements patternId call).1 =
      ⟨(call.store patternId ⟨state.cache, state.tables⟩).1.tables, (call.store patternId ⟨state.cache, state.tables⟩).1.cache⟩ := by
  obtain ⟨stored, ended⟩ := commits
  unfold State.addElements Transaction.finalize
  simp only [stored, ended]
  rfl

theorem addElements_aborts (aborts : ¬ call.commits patternId state) :
    (state.addElements patternId call).1 = ⟨state.tables, (call.store patternId ⟨state.cache, state.tables⟩).1.cache.clear⟩ := by
  unfold State.addElements Transaction.finalize
  cases stored : (call.store patternId ⟨state.cache, state.tables⟩).2 with
  | false => simp only [stored, Bool.false_and]; rfl
  | true =>
    have ended : call.fails .commit = true := by
      by_contra going
      exact aborts ⟨stored, Bool.eq_false_of_not_eq_true going⟩
    simp only [stored, ended]
    rfl

/-! ### Loops -/

section

variable {α : Type} {store : α → Work → Work × Bool} {items : List α}

theorem each_keeps (holds : Work → Prop) (keep : ∀ item ∈ items, ∀ work, holds work → holds (store item work).1) (first : holds work) :
    holds (each store items work).1 := by
  induction items generalizing work with
  | nil => exact first
  | cons item rest ih =>
    have next := keep item List.mem_cons_self work first
    unfold each
    split
    · exact ih (fun item member => keep item (List.mem_cons_of_mem _ member)) next
    · exact next

theorem each_done (holds : Work → Prop) (done : ∀ item ∈ items, ∀ work, holds work → (store item work).2 = true ∧ holds (store item work).1)
    (first : holds work) : (each store items work).2 = true := by
  induction items generalizing work with
  | nil => rfl
  | cons item rest ih =>
    obtain ⟨stored, next⟩ := done item List.mem_cons_self work first
    unfold each
    rw [if_pos stored]
    exact ih (fun item member => done item (List.mem_cons_of_mem _ member)) next

theorem each_stops {item : α} {rest : List α} (failed : (store item work).2 = false) : each store (item :: rest) work = store item work :=
  if_neg (by rw [failed]; exact Bool.false_ne_true)

theorem each_goes {item : α} {rest : List α} (stored : (store item work).2 = true) :
    each store (item :: rest) work = each store rest (store item work).1 := if_pos stored

/-- What each item brings about and later ones keep holds of all of them at the end. -/
theorem each_brings (brings : α → Work → Prop) (keep : ∀ one ∈ items, ∀ item ∈ items, ∀ work, brings one work → brings one (store item work).1)
    (bring : ∀ item ∈ items, ∀ work, (store item work).2 = true → brings item (store item work).1)
    (done : (each store items work).2 = true) : ∀ item ∈ items, brings item (each store items work).1 := by
  induction items generalizing work with
  | nil => exact fun _ member => absurd member List.not_mem_nil
  | cons head rest ih =>
    unfold each at done ⊢
    by_cases stored : (store head work).2 = true
    · rw [if_pos stored] at done ⊢
      intro item member
      rcases List.mem_cons.mp member with rfl | member
      · exact each_keeps (brings item) (fun other listed work => keep item List.mem_cons_self other (List.mem_cons_of_mem _ listed) work)
          (bring item List.mem_cons_self work stored)
      · exact ih (fun one listed item member => keep one (List.mem_cons_of_mem _ listed) item (List.mem_cons_of_mem _ member))
          (fun item member => bring item (List.mem_cons_of_mem _ member)) done item member
    · rw [if_neg stored] at done
      exact absurd done stored

end

/-! ### States where nothing was stored -/

/-- Nothing is on disk, and nothing that is not on disk is in the cache. -/
structure Idle (state : State) : Prop where
  tables : state.tables = {}
  patterns : ∀ id, (state.cache.patterns id).getD ∅ = ∅
  patternIndex : state.cache.patternIndex.getD ∅ = ∅
  lastIndexed : state.cache.lastIndexed = none

/-- Two works differ only in what they have loaded. -/
structure Alike (work other : Work) : Prop where
  tables : other.tables = work.tables
  patterns : ∀ id, other.cachedPatterns id = work.cachedPatterns id
  patternIndex : other.cachedIndex = work.cachedIndex
  lastIndexed : other.cache.lastIndexed = work.cache.lastIndexed

/-- What has no entry in the cache is not on disk. -/
structure Covered (work : Work) : Prop where
  patterns : ∀ id, work.cache.patterns id = none → work.tables.patterns id = ∅
  patternIndex : work.cache.patternIndex = none → work.tables.patternIndex = ∅
  lastIndexed : work.cache.lastIndexed = none → work.tables.lastIndexed = none

theorem Covered.results (covered : Covered work) :
    State.results ⟨work.tables, work.cache⟩ = ⟨work.cachedIndex.biUnion work.cachedPatterns, work.cache.lastIndexed⟩ := by
  have patterns : State.patternsOf ⟨work.tables, work.cache⟩ = work.cachedPatterns := by
    funext id
    show (work.cache.patterns id).getD (work.tables.patterns id) = (work.cache.patterns id).getD ∅
    cases cached : work.cache.patterns id with
    | none => exact covered.patterns id cached
    | some patterns => rfl
  have index : State.patternIndex ⟨work.tables, work.cache⟩ = work.cachedIndex := by
    show work.cache.patternIndex.getD work.tables.patternIndex = work.cache.patternIndex.getD ∅
    cases cached : work.cache.patternIndex with
    | none => exact covered.patternIndex cached
    | some ids => rfl
  have last : work.cache.lastIndexed.or work.tables.lastIndexed = work.cache.lastIndexed := by
    cases cached : work.cache.lastIndexed with
    | none => exact covered.lastIndexed cached
    | some value => rfl
  show Results.mk (Finset.biUnion (State.patternIndex _) (State.patternsOf _)) _ = _
  rw [patterns, index]
  exact congrArg _ last

theorem Idle.covered (idle : Idle state) : Covered ⟨state.cache, state.tables⟩ := by
  have tables := idle.tables
  constructor
  · intro id _
    show state.tables.patterns id = ∅
    rw [tables]
  · intro _
    show state.tables.patternIndex = ∅
    rw [tables]
  · intro _
    show state.tables.lastIndexed = none
    rw [tables]

theorem Idle.results (idle : Idle state) : state.results = {} := by
  have results := idle.covered.results
  rw [show Work.cachedIndex ⟨state.cache, state.tables⟩ = ∅ from idle.patternIndex, Finset.biUnion_empty] at results
  exact results.trans (congrArg (Results.mk ∅) idle.lastIndexed)

theorem Idle.restart (idle : Idle state) : Idle state.restart := ⟨idle.tables, fun _ => rfl, rfl, rfl⟩

theorem Idle.tells (idle : Idle state) : state.Tells {} := ⟨idle.results, idle.restart.results⟩

theorem Idle.getPatterns (idle : Idle state) : Idle state.getPatterns.1 := by
  have index : state.patternIndex = ∅ := by
    unfold State.patternIndex
    rw [idle.tables]
    exact idle.patternIndex
  refine ⟨idle.tables, fun id => ?_, index, idle.lastIndexed⟩
  show (if id ∈ state.patternIndex then some (state.patternsOf id) else state.cache.patterns id).getD ∅ = ∅
  rw [index, if_neg (Finset.notMem_empty id)]
  exact idle.patterns id

theorem Idle.getLastIndexed (idle : Idle state) : Idle state.getLastIndexed.1 := by
  refine ⟨idle.tables, idle.patterns, idle.patternIndex, ?_⟩
  show state.cache.lastIndexed.or state.tables.lastIndexed = none
  rw [idle.lastIndexed, idle.tables]
  rfl

/-! ### A call that is repeated -/

/-- Two works were done alike. -/
def AlikeDone (done other : Work × Bool) : Prop := other.2 = done.2 ∧ Alike done.1 other.1

theorem addPattern_alike {pattern : Pattern} {id : ElementID} {one two : Work} (alike : Alike one two) :
    AlikeDone (one.addPattern fails id pattern) (two.addPattern fails id pattern) := by
  have entry (patterns : Finset Pattern) : Alike (one.setPatterns id patterns) (two.setPatterns id patterns) := by
    refine ⟨alike.tables, fun other => ?_, alike.patternIndex, alike.lastIndexed⟩
    show (if other = id then some patterns else two.cache.patterns other).getD ∅ =
      (if other = id then some patterns else one.cache.patterns other).getD ∅
    split
    · rfl
    · exact alike.patterns other
  unfold Work.addPattern
  rw [alike.patterns, alike.tables]
  split
  · exact ⟨rfl, entry _⟩
  · split
    · exact ⟨rfl, entry _⟩
    · exact ⟨rfl, rfl, (entry _).patterns, alike.patternIndex, alike.lastIndexed⟩

theorem addPatternIndex_alike {id : ElementID} {one two : Work} (alike : Alike one two) :
    AlikeDone (one.addPatternIndex fails id) (two.addPatternIndex fails id) := by
  unfold Work.addPatternIndex
  rw [alike.patternIndex, alike.tables]
  split
  · exact ⟨rfl, alike.tables, alike.patterns, rfl, alike.lastIndexed⟩
  · split
    · exact ⟨rfl, alike.tables, alike.patterns, rfl, alike.lastIndexed⟩
    · exact ⟨rfl, rfl, alike.patterns, rfl, alike.lastIndexed⟩

theorem setLastIndexed_alike {value : Bip32Index} {one two : Work} (alike : Alike one two) :
    AlikeDone (one.setLastIndexed fails value) (two.setLastIndexed fails value) := by
  unfold Work.setLastIndexed
  rw [alike.tables]
  split
  · exact ⟨rfl, rfl, alike.patterns, alike.patternIndex, rfl⟩
  · exact ⟨rfl, rfl, alike.patterns, alike.patternIndex, rfl⟩

theorem andThen_alike {done other : Work × Bool} {next : Work → Work × Bool} (alike : AlikeDone done other)
    (onward : ∀ one two, Alike one two → AlikeDone (next one) (next two)) : AlikeDone (Work.andThen done next) (Work.andThen other next) := by
  obtain ⟨same, works⟩ := alike
  unfold Work.andThen
  rw [same]
  split
  · exact onward _ _ works
  · exact ⟨same, works⟩

theorem each_alike {α : Type} {store : α → Work → Work × Bool} (items : List α)
    (item_alike : ∀ item one two, Alike one two → AlikeDone (store item one) (store item two)) :
    ∀ one two, Alike one two → AlikeDone (each store items one) (each store items two) := by
  induction items with
  | nil => exact fun one two alike => ⟨rfl, alike⟩
  | cons item rest ih => exact fun one two alike => andThen_alike (item_alike item one two alike) ih

theorem store_alike {one two : Work} (alike : Alike one two) : AlikeDone (call.store patternId one) (call.store patternId two) :=
  andThen_alike (each_alike call.patterns (fun pattern _ _ => @addPattern_alike call.fails pattern (patternId pattern.index) _ _) one two alike) fun _ _ patterns =>
    andThen_alike (setLastIndexed_alike patterns) (each_alike _ fun id _ _ => @addPatternIndex_alike call.fails id _ _)

/-! What is stored is in the cache first. -/

theorem addPattern_covered {pattern : Pattern} {id : ElementID} (covered : Covered work) : Covered (work.addPattern fails id pattern).1 := by
  have entry : ∀ (other : ElementID) (patterns : Finset Pattern),
      (if other = id then some patterns else work.cache.patterns other) = none → other ≠ id ∧ work.tables.patterns other = ∅ := by
    intro other patterns none
    split at none
    · cases none
    · exact ⟨‹_›, covered.patterns other none⟩
  unfold Work.addPattern
  split
  · exact ⟨fun other none => (entry other _ none).2, covered.patternIndex, covered.lastIndexed⟩
  · split
    · exact ⟨fun other none => (entry other _ none).2, covered.patternIndex, covered.lastIndexed⟩
    · refine ⟨fun other none => ?_, covered.patternIndex, covered.lastIndexed⟩
      obtain ⟨different, empty⟩ := entry other _ none
      exact (if_neg different).trans empty

theorem addPatternIndex_covered {id : ElementID} (covered : Covered work) : Covered (work.addPatternIndex fails id).1 := by
  unfold Work.addPatternIndex
  split
  · exact ⟨covered.patterns, fun none => (nomatch none), covered.lastIndexed⟩
  · split
    · exact ⟨covered.patterns, fun none => (nomatch none), covered.lastIndexed⟩
    · exact ⟨covered.patterns, fun none => (nomatch none), covered.lastIndexed⟩

theorem setLastIndexed_covered {value : Bip32Index} (covered : Covered work) : Covered (work.setLastIndexed fails value).1 := by
  unfold Work.setLastIndexed
  split
  · exact ⟨covered.patterns, covered.patternIndex, fun none => (nomatch none)⟩
  · exact ⟨covered.patterns, covered.patternIndex, fun none => (nomatch none)⟩

theorem andThen_keeps (holds : Work → Prop) {done : Work × Bool} {next : Work → Work × Bool} (first : holds done.1)
    (keep : ∀ work, holds work → holds (next work).1) : holds (Work.andThen done next).1 := by
  unfold Work.andThen
  split
  · exact keep _ first
  · exact first

/-- What each of the three parts of a call keeps, the call keeps. -/
theorem store_keeps (holds : Work → Prop)
    (pattern : ∀ pattern ∈ call.patterns, ∀ work, holds work → holds (work.addPattern call.fails (patternId pattern.index) pattern).1)
    (last : ∀ work, holds work → holds (work.setLastIndexed call.fails call.highest).1)
    (index : ∀ id work, holds work → holds (work.addPatternIndex call.fails id).1) (first : holds work) :
    holds (call.store patternId work).1 :=
  andThen_keeps holds (each_keeps holds pattern first) fun work patterns =>
    andThen_keeps holds (last work patterns) fun _ => each_keeps holds fun id _ => index id

theorem store_covered (covered : Covered work) : Covered (call.store patternId work).1 :=
  store_keeps Covered (fun _ _ _ => addPattern_covered) (fun _ => setLastIndexed_covered) (fun _ _ => addPatternIndex_covered) covered

theorem Idle.alike (idle : Idle state) (otherIdle : Idle other) : Alike ⟨state.cache, state.tables⟩ ⟨other.cache, other.tables⟩ where
  tables := otherIdle.tables.trans idle.tables.symm
  patterns := fun id => (otherIdle.patterns id).trans (idle.patterns id).symm
  patternIndex := otherIdle.patternIndex.trans idle.patternIndex.symm
  lastIndexed := otherIdle.lastIndexed.trans idle.lastIndexed.symm

theorem Idle.aborts (idle : Idle state) (aborts : ¬ call.commits patternId state) :
    (state.addElements patternId call).1 = ⟨{}, (call.store patternId ⟨state.cache, state.tables⟩).1.cache.clear⟩ :=
  (addElements_aborts aborts).trans (congrArg (State.mk · _) idle.tables)

theorem cleared_results (work : Work) :
    State.results ⟨{}, work.cache.clear⟩ = ⟨work.cachedIndex.biUnion work.cachedPatterns, none⟩ := rfl

/-- Where nothing is stored it makes no difference what was loaded. -/
theorem Idle.repeats (idle : Idle state) (otherIdle : Idle other) : Repeats patternId state other call := by
  obtain ⟨same, alike⟩ := @store_alike patternId call _ _ (idle.alike otherIdle)
  have results {one two : Work} (alike : Alike one two) (covered : Covered one) (otherCovered : Covered two) :
      State.results ⟨one.tables, one.cache⟩ = State.results ⟨two.tables, two.cache⟩ := by
    rw [covered.results, otherCovered.results, alike.patternIndex, alike.lastIndexed, funext alike.patterns]
  have ended := @store_covered patternId call _ idle.covered
  have otherEnded := @store_covered patternId call _ otherIdle.covered
  refine ⟨(addElements_fails state call).trans (addElements_fails other call).symm, ?_⟩
  by_cases commits : call.commits patternId state
  · have otherCommits : call.commits patternId other := ⟨same.trans commits.1, commits.2⟩
    rw [addElements_commits commits, addElements_commits otherCommits]
    refine ⟨results alike ended otherEnded, ?_⟩
    show State.results ⟨_, {}⟩ = State.results ⟨_, {}⟩
    rw [alike.tables]
  · have otherAborts : ¬ call.commits patternId other := fun otherCommits => commits ⟨same.symm.trans otherCommits.1, otherCommits.2⟩
    rw [idle.aborts commits, otherIdle.aborts otherAborts, cleared_results, cleared_results, alike.patternIndex, funext alike.patterns]
    exact ⟨rfl, rfl⟩

/-! ### Calls that stop at once -/

/-- A call with patterns does not store the first one. A call without patterns stops at the last index
or right after it. -/
def Call.StopsAtOnce (patternId : Bip32Index → ElementID) (call : Call) : Prop :=
  match call.patterns, call.elements with
  | pattern :: _, _ => call.fails (.pattern pattern) = true
  | [], entry :: _ => call.fails .lastIndexed = true ∨ call.fails (.patternIndex (patternId entry.1)) = true
  | [], [] => call.fails .lastIndexed = true ∨ call.fails .commit = true

theorem setPatterns_idle {id : ElementID} (patterns : ∀ id, work.cachedPatterns id = ∅) (other : ElementID) :
    (work.setPatterns id (work.cachedPatterns id)).cachedPatterns other = ∅ := by
  show (if other = id then some (work.cachedPatterns id) else work.cache.patterns other).getD ∅ = ∅
  split
  · exact patterns id
  · exact patterns other

/-- Without patterns a call begins with the last index. -/
theorem store_of_nil (none : call.patterns = []) (work : Work) :
    call.store patternId work = Work.andThen (work.setLastIndexed call.fails call.highest) (call.addPatternIndices patternId) := by
  unfold Call.store Call.addPatterns
  rw [none]
  rfl

theorem store_of_cons {pattern : Pattern} {rest : List Pattern} (some : call.patterns = pattern :: rest)
    (new : pattern ∉ work.cachedPatterns (patternId pattern.index)) (fails : call.fails (.pattern pattern) = true) :
    call.store patternId work = (work.setPatterns (patternId pattern.index) (work.cachedPatterns (patternId pattern.index)), false) := by
  have first : work.addPattern call.fails (patternId pattern.index) pattern = (_, false) := (if_neg new).trans (if_pos fails)
  unfold Call.store Call.addPatterns
  rw [some]
  unfold each
  rw [first]
  rfl

theorem index_stops {entry : Bip32Index × List Element} {rest : List (Bip32Index × List Element)} (found : call.elements = entry :: rest)
    (missing : patternId entry.1 ∉ work.cachedIndex) (failed : call.fails (.patternIndex (patternId entry.1)) = true) :
    call.addPatternIndices patternId work = (work.setIndex work.cachedIndex, false) := by
  have first : work.addPatternIndex call.fails (patternId entry.1) = (work.setIndex work.cachedIndex, false) :=
    (if_neg missing).trans (if_pos failed)
  unfold Call.addPatternIndices
  rw [found, List.map_cons, each_stops (congrArg Prod.snd first), first]

/-- What was done in vain leaves nothing behind. -/
theorem Idle.of_store {stored : Work × Bool} (idle : Idle state) (same : call.store patternId ⟨state.cache, state.tables⟩ = stored)
    (failed : stored.2 = false ∨ call.fails .commit = true) (patterns : ∀ id, stored.1.cachedPatterns id = ∅)
    (index : stored.1.cachedIndex = ∅) : Idle (state.addElements patternId call).1 := by
  have aborts : ¬ call.commits patternId state := by
    rintro ⟨done, ended⟩
    rw [same] at done
    rcases failed with failed | failed
    · exact Bool.false_ne_true (failed.symm.trans done)
    · exact Bool.false_ne_true (ended.symm.trans failed)
  rw [idle.aborts aborts, same]
  exact ⟨rfl, patterns, index, rfl⟩

theorem Idle.stops (idle : Idle state) (stops : call.StopsAtOnce patternId) : Idle (state.addElements patternId call).1 := by
  have fresh (id : ElementID) : Work.cachedPatterns ⟨state.cache, state.tables⟩ id = ∅ := idle.patterns id
  -- A last index that is not stored ends a call without patterns.
  have unmarked (none : call.patterns = []) (failed : call.fails .lastIndexed = true) : Idle (state.addElements patternId call).1 := by
    have stored := @store_of_nil patternId call none ⟨state.cache, state.tables⟩
    have last : Work.setLastIndexed ⟨state.cache, state.tables⟩ call.fails call.highest = (_, false) := if_pos failed
    rw [last] at stored
    exact idle.of_store stored (.inl rfl) idle.patterns idle.patternIndex
  have marked (none : call.patterns = []) (stored : call.fails .lastIndexed = false) :
      Work.setLastIndexed ⟨state.cache, state.tables⟩ call.fails call.highest = (_, true) := if_neg (by rw [stored]; exact Bool.false_ne_true)
  unfold Call.StopsAtOnce at stops
  split at stops
  · rename_i pattern rest _ some
    exact idle.of_store (store_of_cons some (by rw [fresh]; exact Finset.notMem_empty _) stops) (.inl rfl) (setPatterns_idle fresh) idle.patternIndex
  · rename_i entry rest none found
    cases last : call.fails .lastIndexed with
    | true => exact unmarked none last
    | false =>
      have failed := stops.resolve_left (by rw [last]; exact Bool.false_ne_true)
      have stored := @store_of_nil patternId call none ⟨state.cache, state.tables⟩
      rw [marked none last] at stored
      have missing : patternId entry.1 ∉ state.cache.patternIndex.getD ∅ := by
        rw [idle.patternIndex]
        exact Finset.notMem_empty _
      exact idle.of_store (stored.trans (index_stops found missing failed)) (.inl rfl) idle.patterns idle.patternIndex
  · rename_i none empty
    cases last : call.fails .lastIndexed with
    | true => exact unmarked none last
    | false =>
      have failed := stops.resolve_left (by rw [last]; exact Bool.false_ne_true)
      have stored := @store_of_nil patternId call none ⟨state.cache, state.tables⟩
      rw [marked none last] at stored
      have nothing (work : Work) : call.addPatternIndices patternId work = (work, true) := by
        unfold Call.addPatternIndices
        rw [empty]
        rfl
      exact idle.of_store (stored.trans (nothing _)) (.inr failed) idle.patterns idle.patternIndex

/-! ### Calls that do not -/

theorem andThen_of_done {done : Work × Bool} {next : Work → Work × Bool} (first : done.2 = true) : Work.andThen done next = next done.1 :=
  if_pos first

theorem andThen_done {done : Work × Bool} {next : Work → Work × Bool} (all : (Work.andThen done next).2 = true) :
    done.2 = true ∧ (next done.1).2 = true ∧ Work.andThen done next = next done.1 := by
  unfold Work.andThen at all ⊢
  by_cases first : done.2 = true
  · rw [if_pos first] at all ⊢
    exact ⟨first, all, rfl⟩
  · rw [if_neg first] at all
    exact absurd all first

theorem setLastIndexed_done {value : Bip32Index} (done : (work.setLastIndexed fails value).2 = true) :
    (work.setLastIndexed fails value).1 =
      ⟨{ work.cache with lastIndexed := some value }, { work.tables with lastIndexed := some value }⟩ := by
  unfold Work.setLastIndexed at done ⊢
  split at done
  · cases done
  · rw [if_neg ‹_›]

/-- All that a call does that stores everything. -/
theorem store_done (done : (call.store patternId work).2 = true) : ∃ patterns : Work, call.addPatterns patternId work = (patterns, true) ∧
    call.store patternId work = call.addPatternIndices patternId
      ⟨{ patterns.cache with lastIndexed := some call.highest }, { patterns.tables with lastIndexed := some call.highest }⟩ := by
  obtain ⟨patterns, rest, same⟩ := andThen_done done
  obtain ⟨last, _, again⟩ := andThen_done rest
  refine ⟨_, Prod.ext rfl patterns, same.trans (again.trans ?_)⟩
  rw [setLastIndexed_done last]

/-- A call that commits stores its last index. -/
theorem commits_lastIndexed (commits : call.commits patternId state) :
    (state.addElements patternId call).1.tables.lastIndexed = some call.highest := by
  obtain ⟨patterns, _, same⟩ := store_done commits.1
  rw [addElements_commits commits, same]
  refine each_keeps (fun work => work.tables.lastIndexed = some call.highest) (fun id _ work last => ?_) rfl
  unfold Work.addPatternIndex
  split
  · exact last
  · split <;> exact last

section

variable {id : ElementID} {pattern one : Pattern}

theorem setPatterns_cachedPatterns (patterns : Finset Pattern) (other : ElementID) :
    (work.setPatterns id patterns).cachedPatterns other = if other = id then patterns else work.cachedPatterns other := by
  show (if other = id then some patterns else work.cache.patterns other).getD ∅ = _
  split <;> rfl

theorem addPattern_cachedPatterns (other : ElementID) :
    (work.addPattern fails id pattern).1.cachedPatterns other =
      if other = id ∧ (work.addPattern fails id pattern).2 = true then insert pattern (work.cachedPatterns other) else work.cachedPatterns other := by
  unfold Work.addPattern
  split
  · rename_i member
    rw [setPatterns_cachedPatterns]
    by_cases same : other = id
    · subst same
      rw [if_pos rfl, if_pos ⟨rfl, rfl⟩, Finset.insert_eq_of_mem member]
    · rw [if_neg same, if_neg fun both => same both.1]
  · split
    · rw [setPatterns_cachedPatterns]
      by_cases same : other = id
      · subst same
        rw [if_pos rfl, if_neg fun both => Bool.false_ne_true both.2]
      · rw [if_neg same, if_neg fun both => same both.1]
    · show (work.setPatterns id (insert pattern (work.cachedPatterns id))).cachedPatterns other = _
      rw [setPatterns_cachedPatterns]
      by_cases same : other = id
      · subst same
        rw [if_pos rfl, if_pos ⟨rfl, rfl⟩]
      · rw [if_neg same, if_neg fun both => same both.1]

theorem addPattern_tables (other : ElementID) :
    (work.addPattern fails id pattern).1.tables.patterns other =
      if other = id ∧ (work.addPattern fails id pattern).2 = true ∧ pattern ∉ work.cachedPatterns id then insert pattern (work.tables.patterns other)
      else work.tables.patterns other := by
  unfold Work.addPattern
  split
  · rw [if_neg fun all => all.2.2 ‹_›]
    rfl
  · split
    · rw [if_neg fun all => Bool.false_ne_true all.2.1]
      rfl
    · show (if other = id then insert pattern (work.tables.patterns id) else work.tables.patterns other) = _
      by_cases same : other = id
      · subst same
        rw [if_pos rfl, if_pos ⟨rfl, rfl, ‹_›⟩]
      · rw [if_neg same, if_neg fun all => same all.1]

theorem addPattern_cached (cached : one ∈ work.cachedPatterns id) (other : ElementID) :
    one ∈ (work.addPattern fails other pattern).1.cachedPatterns id := by
  rw [addPattern_cachedPatterns]
  split
  · exact Finset.mem_insert_of_mem cached
  · exact cached

/-- A pattern that is in the cache and not on disk does not get there. -/
theorem store_unsaved (cached : one ∈ work.cachedPatterns (patternId one.index)) (unsaved : ∀ id, one ∉ work.tables.patterns id) :
    ∀ id, one ∉ (call.store patternId work).1.tables.patterns id := by
  refine (store_keeps (fun work => one ∈ work.cachedPatterns (patternId one.index) ∧ ∀ id, one ∉ work.tables.patterns id)
    (fun pattern _ work kept => ?_) (fun work kept => ?_) (fun id work kept => ?_) ⟨cached, unsaved⟩).2
  · obtain ⟨cached, unsaved⟩ := kept
    refine ⟨addPattern_cached cached _, fun id member => ?_⟩
    · rw [addPattern_tables] at member
      split at member
      · rename_i written
        rcases Finset.mem_insert.mp member with rfl | member
        · exact written.2.2 cached
        · exact unsaved id member
      · exact unsaved id member
  · unfold Work.setLastIndexed
    split <;> exact kept
  · unfold Work.addPatternIndex
    split
    · exact kept
    · split <;> exact kept

theorem addPattern_saved (saved : ∀ one id, one ∈ work.cachedPatterns id → one ∈ work.tables.patterns id) (one : Pattern) (other : ElementID)
    (cached : one ∈ (work.addPattern fails id pattern).1.cachedPatterns other) :
    one ∈ (work.addPattern fails id pattern).1.tables.patterns other := by
  rw [addPattern_cachedPatterns] at cached
  rw [addPattern_tables]
  by_cases before : one ∈ work.cachedPatterns other
  · split
    · exact Finset.mem_insert_of_mem (saved one other before)
    · exact saved one other before
  · split at cached
    · rename_i written
      rcases Finset.mem_insert.mp cached with rfl | cached
      · rw [if_pos ⟨written.1, written.2, written.1 ▸ before⟩]
        exact Finset.mem_insert_self _ _
      · exact absurd cached before
    · exact absurd cached before

theorem addPatternIndex_cachedIndex :
    (work.addPatternIndex fails id).1.cachedIndex =
      if (work.addPatternIndex fails id).2 = true then insert id work.cachedIndex else work.cachedIndex := by
  unfold Work.addPatternIndex
  split
  · rw [if_pos rfl, Finset.insert_eq_of_mem ‹_›]
    rfl
  · split <;> rfl

theorem addPatternIndex_saved (saved : ∀ id, id ∈ work.cachedIndex → id ∈ work.tables.patternIndex) (one : ElementID)
    (cached : one ∈ (work.addPatternIndex fails id).1.cachedIndex) : one ∈ (work.addPatternIndex fails id).1.tables.patternIndex := by
  unfold Work.addPatternIndex at cached ⊢
  split
  · rw [if_pos ‹_›] at cached
    exact saved one cached
  · rw [if_neg ‹_›] at cached
    split
    · rw [if_pos ‹_›] at cached
      exact saved one cached
    · rw [if_neg ‹_›] at cached
      rcases Finset.mem_insert.mp cached with rfl | cached
      · exact Finset.mem_insert_self _ _
      · exact Finset.mem_insert_of_mem (saved one cached)

theorem addPatternIndex_patterns : (work.addPatternIndex fails id).1.tables.patterns = work.tables.patterns := by
  unfold Work.addPatternIndex
  split
  · rfl
  · split <;> rfl

/-- Every pattern of a call that stores everything gets to the disk, if nothing was in the cache before. -/
theorem store_saves (fresh : ∀ id, work.cachedPatterns id = ∅) (index : work.cachedIndex = ∅) (done : (call.store patternId work).2 = true)
    (member : one ∈ call.patterns) : one ∈ (call.store patternId work).1.tables.patterns (patternId one.index) ∧
      patternId one.index ∈ (call.store patternId work).1.tables.patternIndex := by
  obtain ⟨patterns, stored, same⟩ := store_done done
  rw [same] at done ⊢
  have cached : one ∈ patterns.cachedPatterns (patternId one.index) := by
    have brought := each_brings (fun one work => one ∈ work.cachedPatterns (patternId one.index))
      (fun one _ item _ work cached => addPattern_cached cached _) (fun item _ work stored => ?_) (congrArg Prod.snd stored) one member
    · rw [show each _ _ _ = (patterns, true) from stored] at brought
      exact brought
    · rw [addPattern_cachedPatterns, if_pos ⟨rfl, stored⟩]
      exact Finset.mem_insert_self _ _
  have saved : one ∈ patterns.tables.patterns (patternId one.index) := by
    have all : ∀ one id, one ∈ (call.addPatterns patternId work).1.cachedPatterns id → one ∈ (call.addPatterns patternId work).1.tables.patterns id :=
      each_keeps (fun work => ∀ one id, one ∈ work.cachedPatterns id → one ∈ work.tables.patterns id)
        (fun _ _ _ saved => addPattern_saved saved) (fun one id member => absurd (fresh id ▸ member) (Finset.notMem_empty one))
    rw [stored] at all
    exact all one _ cached
  have none : patterns.cachedIndex = ∅ := by
    have kept : (call.addPatterns patternId work).1.cachedIndex = ∅ := by
      refine each_keeps (fun work => work.cachedIndex = ∅) (fun pattern _ work none => ?_) index
      unfold Work.addPattern
      split
      · exact none
      · split <;> exact none
    rw [stored] at kept
    exact kept
  constructor
  · refine each_keeps (fun work => one ∈ work.tables.patterns (patternId one.index)) (fun id _ work saved => ?_) saved
    rw [addPatternIndex_patterns]
    exact saved
  · have listed : patternId one.index ∈ call.elements.map fun entry => patternId entry.1 := by
      obtain ⟨entry, there, made⟩ := List.mem_flatMap.mp member
      obtain ⟨data, _, rfl⟩ := List.mem_map.mp made
      exact List.mem_map_of_mem there
    have cached := each_brings (fun id work => id ∈ work.cachedIndex) (fun one _ item _ work cached => ?_)
      (fun item _ work stored => ?_) done _ listed
    · refine each_keeps (fun work => ∀ id, id ∈ work.cachedIndex → id ∈ work.tables.patternIndex)
        (fun _ _ _ saved => addPatternIndex_saved saved) (fun id member => ?_) _ cached
      exact absurd (none ▸ member : id ∈ (∅ : Finset ElementID)) (Finset.notMem_empty id)
    · rw [addPatternIndex_cachedIndex]
      split
      · exact Finset.mem_insert_of_mem cached
      · exact cached
    · rw [addPatternIndex_cachedIndex, if_pos stored]
      exact Finset.mem_insert_self _ _

end

/-- What is stored first stays in the cache when its transaction is aborted. -/
theorem first_cached {pattern : Pattern} {rest : List Pattern} (some : call.patterns = pattern :: rest)
    (stored : call.fails (.pattern pattern) = false) : pattern ∈ (call.store patternId work).1.cachedPatterns (patternId pattern.index) := by
  have done : (work.addPattern call.fails (patternId pattern.index) pattern).2 = true := by
    unfold Work.addPattern
    rw [stored]
    split <;> rfl
  have first : pattern ∈ (work.addPattern call.fails (patternId pattern.index) pattern).1.cachedPatterns (patternId pattern.index) := by
    rw [addPattern_cachedPatterns, if_pos ⟨rfl, done⟩]
    exact Finset.mem_insert_self _ _
  have patterns : pattern ∈ (call.addPatterns patternId work).1.cachedPatterns (patternId pattern.index) := by
    unfold Call.addPatterns
    rw [some, each_goes done]
    exact each_keeps (fun work => pattern ∈ work.cachedPatterns (patternId pattern.index)) (fun _ _ _ cached => addPattern_cached cached _) first
  refine andThen_keeps (fun work => pattern ∈ work.cachedPatterns (patternId pattern.index)) patterns fun work cached =>
    andThen_keeps (fun work => pattern ∈ work.cachedPatterns (patternId pattern.index)) ?_ fun work cached =>
      each_keeps (fun work => pattern ∈ work.cachedPatterns (patternId pattern.index)) (fun id _ work cached => ?_) cached
  · unfold Work.setLastIndexed
    split <;> exact cached
  · unfold Work.addPatternIndex
    split
    · exact cached
    · split <;> exact cached

theorem first_indexed {entry : Bip32Index × List Element} {rest : List (Bip32Index × List Element)} (found : call.elements = entry :: rest)
    (stored : call.fails (.patternIndex (patternId entry.1)) = false) :
    patternId entry.1 ∈ (call.addPatternIndices patternId work).1.cachedIndex := by
  have done : (work.addPatternIndex call.fails (patternId entry.1)).2 = true := by
    unfold Work.addPatternIndex
    rw [stored]
    split <;> rfl
  unfold Call.addPatternIndices
  rw [found, List.map_cons, each_goes done]
  refine each_keeps (fun work => patternId entry.1 ∈ work.cachedIndex) (fun id _ work cached => ?_) ?_
  · rw [addPatternIndex_cachedIndex]
    split
    · exact Finset.mem_insert_of_mem cached
    · exact cached
  · rw [addPatternIndex_cachedIndex, if_pos done]
    exact Finset.mem_insert_self _ _

theorem setLastIndexed_of_stored (stored : fails .lastIndexed = false) (value : Bip32Index) :
    work.setLastIndexed fails value =
      (⟨{ work.cache with lastIndexed := some value }, { work.tables with lastIndexed := some value }⟩, true) :=
  if_neg (by rw [stored]; exact Bool.false_ne_true)

/-- A call without patterns that stores the last index goes on to the pattern index. -/
theorem store_of_marked (none : call.patterns = []) (stored : call.fails .lastIndexed = false) (work : Work) :
    call.store patternId work = call.addPatternIndices patternId
      ⟨{ work.cache with lastIndexed := some call.highest }, { work.tables with lastIndexed := some call.highest }⟩ := by
  rw [store_of_nil none, setLastIndexed_of_stored stored]
  rfl

/-- Without failures everything is stored. -/
theorem store_all (work : Work) : ((call.failing fun _ => false).store patternId work).2 = true := by
  have patterns : ((call.failing fun _ => false).addPatterns patternId work).2 = true := by
    refine each_done (fun _ => True) (fun item _ work _ => ⟨?_, trivial⟩) trivial
    unfold Work.addPattern
    split <;> rfl
  have indices (work : Work) : ((call.failing fun _ => false).addPatternIndices patternId work).2 = true := by
    refine each_done (fun _ => True) (fun item _ work _ => ⟨?_, trivial⟩) trivial
    unfold Work.addPatternIndex
    split <;> rfl
  have marked (work : Work) (value : Bip32Index) : (work.setLastIndexed (call.failing fun _ => false).fails value).2 = true := rfl
  unfold Call.store
  rw [andThen_of_done patterns, andThen_of_done (marked _ _)]
  exact indices _

theorem mem_restart_results {one : Pattern} :
    one ∈ state.restart.results.patterns ↔ ∃ id ∈ state.tables.patternIndex, one ∈ state.tables.patterns id := Finset.mem_biUnion

/-- Where the first index row cannot be stored it must be in the cache. -/
theorem commits_iff_indexed {entry : Bip32Index × List Element} {rest : List (Bip32Index × List Element)} (none : call.patterns = [])
    (found : call.elements = entry :: rest) (fails : ∀ write, call.fails write = decide (write = .patternIndex (patternId entry.1))) :
    call.commits patternId state ↔ patternId entry.1 ∈ state.cache.patternIndex.getD ∅ := by
  have other {write : Write} (different : write ≠ .patternIndex (patternId entry.1)) : call.fails write = false :=
    (fails write).trans (decide_eq_false different)
  have stored := @store_of_marked patternId call none (other fun same => (nomatch same)) ⟨state.cache, state.tables⟩
  constructor
  · rintro ⟨done, _⟩
    by_contra missing
    rw [stored, index_stops found missing ((fails _).trans (decide_eq_true rfl))] at done
    cases done
  · intro cached
    refine ⟨?_, other fun same => (nomatch same)⟩
    rw [stored]
    refine each_done (fun work => patternId entry.1 ∈ work.cachedIndex) (fun id _ work cached => ⟨?_, ?_⟩) cached
    · unfold Work.addPatternIndex
      split
      · rfl
      · rename_i missing
        have different : Write.patternIndex id ≠ .patternIndex (patternId entry.1) := by
          rintro same
          rw [Write.patternIndex.inj same] at missing
          exact missing cached
        rw [other different]
        rfl
    · rw [addPatternIndex_cachedIndex]
      split
      · exact Finset.mem_insert_of_mem cached
      · exact cached

/-- Whatever a call stores that does not commit, it cannot be repeated. -/
theorem Idle.not_leaves (idle : Idle state) (going : ¬ call.StopsAtOnce patternId) (aborts : ¬ call.commits patternId state) :
    ¬ state.Leaves patternId (.addElements call) := by
  intro leaves
  have repeats := leaves (addElements_fails state call)
  rw [idle.aborts aborts] at repeats
  cases some : call.patterns with
  | cons pattern rest =>
    -- A pattern that is in the cache is not stored when the call is repeated.
    have going : ¬ call.fails (.pattern pattern) = true := by
      unfold Call.StopsAtOnce at going
      rw [some] at going
      exact going
    have cached := @first_cached patternId call ⟨state.cache, state.tables⟩ _ _ some (Bool.eq_false_of_not_eq_true going)
    have told := congrArg Results.patterns (repeats fun _ => false).2.2
    have commits (other : State) : (call.failing fun _ => false).commits patternId other := ⟨store_all _, rfl⟩
    have member : pattern ∈ (state.addElements patternId (call.failing fun _ => false)).1.restart.results.patterns := by
      have listed : pattern ∈ (call.failing fun _ => false).patterns := by
        show pattern ∈ call.patterns
        rw [some]
        exact List.mem_cons_self
      have fresh (id : ElementID) : Work.cachedPatterns ⟨state.cache, state.tables⟩ id = ∅ := idle.patterns id
      obtain ⟨saved, indexed⟩ := store_saves fresh idle.patternIndex (@store_all patternId call _) listed
      rw [mem_restart_results, addElements_commits (commits state)]
      exact ⟨_, indexed, saved⟩
    have unsaved := @store_unsaved patternId (call.failing fun _ => false)
      ⟨(call.store patternId ⟨state.cache, state.tables⟩).1.cache.clear, {}⟩ pattern cached fun _ => Finset.notMem_empty pattern
    rw [told, mem_restart_results, addElements_commits (commits _)] at member
    obtain ⟨id, _, saved⟩ := member
    exact unsaved id saved
  | nil =>
    unfold Call.StopsAtOnce at going
    rw [some] at going
    cases found : call.elements with
    | cons entry rest =>
      -- An index row that is in the cache is not stored when the call is repeated, so that it cannot fail.
      rw [found] at going
      obtain ⟨marked, indexed⟩ := not_or.mp going
      have told := congrArg Results.lastIndexed (repeats fun write => write = .patternIndex (patternId entry.1)).2.2
      have again (other : State) : (call.failing fun write => write = .patternIndex (patternId entry.1)).commits patternId other ↔
          patternId entry.1 ∈ other.cache.patternIndex.getD ∅ :=
        @commits_iff_indexed patternId (call.failing fun write => write = .patternIndex (patternId entry.1)) other _ _ some found fun _ => rfl
      have once : ¬ (call.failing fun write => write = .patternIndex (patternId entry.1)).commits patternId state := by
        rw [again state, idle.patternIndex]
        exact Finset.notMem_empty _
      have cached : patternId entry.1 ∈ (call.store patternId ⟨state.cache, state.tables⟩).1.cachedIndex := by
        rw [store_of_marked some (Bool.eq_false_of_not_eq_true marked)]
        exact first_indexed found (Bool.eq_false_of_not_eq_true indexed)
      have last : (state.addElements patternId _).1.tables.lastIndexed = _ := told.trans (commits_lastIndexed ((again _).mpr cached))
      rw [idle.aborts once] at last
      cases last
    | nil =>
      rw [found] at going
      obtain ⟨marked, ended⟩ := not_or.mp going
      refine aborts ⟨?_, Bool.eq_false_of_not_eq_true ended⟩
      rw [store_of_marked some (Bool.eq_false_of_not_eq_true marked)]
      unfold Call.addPatternIndices
      rw [found]
      rfl

theorem Complete.tells {events : List Event} {results : Results} (complete : Complete patternId events state results) : state.Tells results := by
  cases events with
  | nil => exact complete
  | cons event rest => exact complete.1

theorem complete_iff_of_idle (events : List Event) : ∀ state, Idle state →
    (Complete patternId events state {} ↔ ∀ call, .addElements call ∈ events → call.StopsAtOnce patternId) := by
  induction events with
  | nil => exact fun state idle => ⟨fun _ _ member => absurd member List.not_mem_nil, fun _ => idle.tells⟩
  | cons event rest ih =>
    intro state idle
    -- A step that leaves nothing behind.
    have still (next : Idle (state.step patternId event)) (leaves : state.Leaves patternId event)
        (same : Results.after patternId {} state event = {}) (stops : ∀ call, event = .addElements call → call.StopsAtOnce patternId) :
        Complete patternId (event :: rest) state {} ↔ ∀ call, .addElements call ∈ event :: rest → call.StopsAtOnce patternId := by
      show state.Tells {} ∧ _ ∧ Complete patternId rest _ (Results.after patternId {} state event) ↔ _
      rw [same]
      constructor
      · rintro ⟨_, _, complete⟩ call member
        rcases List.mem_cons.mp member with here | member
        · exact stops call here.symm
        · exact (ih _ next).mp complete call member
      · intro all
        exact ⟨idle.tells, leaves, (ih _ next).mpr fun call member => all call (List.mem_cons_of_mem _ member)⟩
    cases event with
    | addElements call =>
      have same : Results.after patternId {} state (.addElements call) = {} := by
        show Results.add {} call (state.addElements patternId call).2 = {}
        rw [addElements_fails]
        rfl
      by_cases stops : call.StopsAtOnce patternId
      · have next := idle.stops stops
        exact still next (fun _ fails => idle.repeats next) same fun _ here => Event.addElements.inj here ▸ stops
      · refine ⟨fun complete => ?_, fun all => absurd (all call List.mem_cons_self) stops⟩
        obtain ⟨_, leaves, complete⟩ := complete
        by_cases commits : call.commits patternId state
        · rw [same] at complete
          have told := congrArg Results.lastIndexed complete.tells.2
          have last : (state.addElements patternId call).1.tables.lastIndexed = none := told
          rw [commits_lastIndexed commits] at last
          cases last
        · exact absurd leaves (idle.not_leaves stops commits)
    | getPatterns => exact still idle.getPatterns trivial rfl fun _ here => (nomatch here)
    | getLastIndexed => exact still idle.getLastIndexed trivial rfl fun _ here => (nomatch here)
    | restart => exact still idle.restart trivial rfl fun _ here => (nomatch here)

/-- The results of a run are those of its successful calls exactly where no call stores anything. -/
theorem patterns_complete_iff (patternId : Bip32Index → ElementID) (events : List Event) :
    Complete patternId events {} {} ↔ ∀ call, .addElements call ∈ events → call.StopsAtOnce patternId :=
  complete_iff_of_idle events {} ⟨rfl, fun _ => rfl, rfl, rfl⟩

/-- One pattern is stored, and the call that stored it failed. -/
theorem stored_call_fails :
    ¬ Complete (fun index => index) [.addElements ⟨[(0, [[1]])], fun _ => false⟩] {} {} := by
  intro complete
  have told : (State.addElements (fun index => index) {} ⟨[(0, [[1]])], fun _ => false⟩).1.results = {} := complete.2.2.1
  exact absurd told (by decide)

end Opentxs.Subchain.Elements
