import Opentxs.Subchain.Pipeline

/-! The barrier that a reorg of the wallet waits at. The master tells its slaves to prepare, and
once all have acknowledged and handed in their jobs it runs these and lets the slaves go on.
Slaves come and go at any time. -/

namespace Opentxs.Reorg.Barrier
open Library Library.SortedList Subchain
open Messages (StateSequence)
open Stages (Job JobState)
open Pipeline (Control)

abbrev SlaveID := Int

inductive State
  | normal
  | preReorg
  | reorg
  | shutdown
  deriving DecidableEq, Repr

/-! ## Master -/

/-- The slaves that take part, those that have acknowledged, and those whose jobs are there. -/
structure Data where
  state : State := .normal
  params : Bool := false
  slaves : Finset SlaveID := ∅
  acks : Finset SlaveID := ∅
  actions : Finset SlaveID := ∅
  deriving DecidableEq

namespace Data

variable (data : Data)

/-- Whether the parent is told that all is ready. -/
def checkCondition : Bool := data.slaves.card = 0 ∨ data.acks.card = data.slaves.card

def acknowledge (id : SlaveID) : Option (Data × Bool) :=
  if data.state ≠ .preReorg ∨ id ∉ data.slaves ∨ id ∈ data.acks then none
  else
    let acknowledged := { data with acks := insert id data.acks }
    some (acknowledged, acknowledged.checkCondition)

def acknowledgePrepareReorg (id : SlaveID) : Option (Data × Bool) :=
  if id ∈ data.actions then none else { data with actions := insert id data.actions }.acknowledge id

def prepareReorg : Option (Data × Bool) :=
  if data.state ≠ .normal ∨ data.actions ≠ ∅ then none
  else
    let prepared := { data with state := .preReorg, acks := ∅ }
    some (prepared, prepared.checkCondition)

def getReorg : Option Data :=
  if data.state ≠ .preReorg ∨ data.params then none else some { data with params := true }

/-- The jobs are those of the slaves. What is thrown here ends the program. -/
def performReorg : Option (List SlaveID × Data) :=
  if data.state ≠ .preReorg ∨ !data.params ∨ data.actions.card ≠ data.slaves.card then none
  else some (ordered data.actions, { data with state := .reorg, acks := ∅, actions := ∅ })

def clearReorg : Option Data :=
  if data.state ≠ .reorg ∨ !data.params then none else some { data with params := false }

def finishReorg : Option Data :=
  if data.state ≠ .reorg ∨ data.params ∨ data.acks ≠ ∅ ∨ data.actions ≠ ∅ then none else some { data with state := .normal }

def register (id : SlaveID) : Option Data :=
  if id ∈ data.slaves then none else some { data with slaves := insert id data.slaves }

def unregister (id : SlaveID) : Data :=
  { data with slaves := data.slaves.erase id, acks := data.acks.erase id, actions := data.actions.erase id }

end Data

/-! ## Slaves and the parent of the master -/

structure Slave where
  job : Job := {}
  inbox : List Control := []
  deferred : List Control := []
  deriving DecidableEq

/-- How far the parent is with a reorg. -/
inductive Stage
  | normal
  | preReorg
  | got
  | performed
  | cleared
  deriving DecidableEq, Repr

structure System where
  data : Data := {}
  stage : Stage := .normal
  ready : Nat := 0
  counter : StateSequence := 0
  slave : SlaveID → Option Slave := fun _ => none

namespace System

variable (system : System)

def setSlave (id : SlaveID) (slave : Option Slave) : System :=
  { system with slave := fun other => if other = id then slave else system.slave other }

/-- A message to each slave that takes part. -/
def broadcast (control : Control) : System :=
  { system with slave := fun id => (system.slave id).map fun slave =>
      if id ∈ system.data.slaves then { slave with inbox := slave.inbox ++ [control] } else slave }

def tell (told : Data × Bool) : System :=
  { system with data := told.1, ready := system.ready + if told.2 then 1 else 0 }

/-- A slave acts on a message that is not in its inbox any more. -/
def handle (id : SlaveID) (slave : Slave) : Control → Option System
  | .prepareReorg sequence =>
    match slave.job.state with
    | .normal => do
      let job ← slave.job.transitionStateReorg sequence
      let told ← system.data.acknowledgePrepareReorg id
      some ((system.setSlave id (some { slave with job := job })).tell told)
    | .reorg => some (system.setSlave id (some { slave with deferred := slave.deferred ++ [.prepareReorg sequence] }))
  | .finishReorg =>
    match slave.job.state with
    | .normal => none
    | .reorg => some (system.setSlave id (some { slave with job := slave.job.transitionStateNormal }))

def deliver (id : SlaveID) : Option System := do
  let slave ← system.slave id
  match slave.inbox with
  | [] => none
  | control :: rest => system.handle id { slave with inbox := rest } control

def resume (id : SlaveID) : Option System := do
  let slave ← system.slave id
  match slave.deferred with
  | [] => none
  | control :: rest => system.handle id { slave with deferred := rest } control

def start (id : SlaveID) : Option System :=
  if (system.slave id).isSome then none
  else (system.data.register id).map fun data => { system.setSlave id (some {}) with data := data }

def stop (id : SlaveID) : Option System :=
  if (system.slave id).isSome then some { system.setSlave id none with data := system.data.unregister id } else none

/-- The slaves are told unless all is ready at once. -/
def prepare : Option System :=
  system.data.prepareReorg.map fun told =>
    let prepared := { system with stage := .preReorg, counter := system.counter + 1 }.tell told
    if told.2 then prepared else prepared.broadcast (.prepareReorg prepared.counter)

def finish : Option System :=
  system.data.finishReorg.map fun data => { system with data := data, stage := .normal }.broadcast .finishReorg

end System

/-! ## Runs -/

/-- Slaves start and stop, and act on their messages. The parent takes up a reorg, and goes on when
it is told that all is ready. -/
inductive Event
  | start (id : SlaveID)
  | stop (id : SlaveID)
  | deliver (id : SlaveID)
  | resume (id : SlaveID)
  | prepare
  | ready
  | perform (succeeds : SlaveID → Bool)
  | clear
  | finish

/-- A job that fails ends the program. -/
def step : Event → System → Option System
  | .start id, system => system.start id
  | .stop id, system => system.stop id
  | .deliver id, system => system.deliver id
  | .resume id, system => system.resume id
  | .prepare, system => if system.stage = .normal then system.prepare else none
  | .ready, system =>
    if system.stage = .preReorg ∧ 0 < system.ready then
      system.data.getReorg.map fun data => { system with data := data, stage := .got, ready := system.ready - 1 }
    else none
  | .perform succeeds, system =>
    if system.stage = .got then
      system.data.performReorg.bind fun performed =>
        if performed.1.all succeeds then some { system with data := performed.2, stage := .performed } else none
    else none
  | .clear, system =>
    if system.stage = .performed then system.data.clearReorg.map fun data => { system with data := data, stage := .cleared }
    else none
  | .finish, system => if system.stage = .cleared then system.finish else none

def machine : Machine System Event := ⟨step⟩

/-! ## What the barrier is for -/

/-- The jobs run are those of all slaves, nobody is let go on who has not acknowledged, and once all
have acknowledged the parent knows. -/
structure Safe (system : System) : Prop where
  perform : system.stage = .got → ∃ jobs data, system.data.performReorg = some (jobs, data) ∧ jobs.Nodup ∧
    ∀ id, id ∈ jobs ↔ id ∈ system.data.slaves
  finish : system.stage = .cleared → system.data.finishReorg.isSome ∧
    ∀ id ∈ system.data.slaves, ∃ slave, system.slave id = some slave ∧ system.counter ∈ slave.job.reorgs
  received : ∀ id slave, system.slave id = some slave → slave.inbox.head? = some .finishReorg → slave.job.state = .reorg
  ready : system.data.state = .preReorg → system.data.slaves ⊆ system.data.acks → 0 < system.ready ∨ system.stage = .got

/-- No slave starts once all have acknowledged and before they are let go on. While the slaves are
waited for, the last one that has not acknowledged does not stop. -/
def Careful : Event → System → Prop
  | .start _, system => system.data.state = .normal ∨
    system.data.state = .preReorg ∧ ∃ other ∈ system.data.slaves, other ∉ system.data.acks
  | .stop id, system => system.data.state = .preReorg →
    id ∈ system.data.acks ∨ ∃ other ∈ system.data.slaves, other ≠ id ∧ other ∉ system.data.acks
  | _, _ => True

instance decidableCareful : ∀ event system, Decidable (Careful event system)
  | .start _, _ => instDecidableOr
  | .stop _, _ => inferInstanceAs (Decidable (_ → _))
  | .deliver _, _ | .resume _, _ | .prepare, _ | .ready, _ | .perform _, _ | .clear, _ | .finish, _ => isTrue trivial

/-! ## What holds all along -/

section

variable {system next : System} {id other : SlaveID} {slave : Slave} {sequence : StateSequence}

def Slave.Told (slave : Slave) (controls : List Control) : Prop :=
  slave.job.state = .normal ∧ slave.inbox = controls ∨ slave.job.state = .reorg ∧ slave.inbox = .finishReorg :: controls

def Slave.Acknowledged (slave : Slave) (sequence : StateSequence) : Prop :=
  slave.job.state = .reorg ∧ slave.inbox = [] ∧ sequence ∈ slave.job.reorgs

/-- A slave that has come too late has no message. -/
def Slave.Awaited (slave : Slave) (sequence : StateSequence) : Prop :=
  (slave.Told [.prepareReorg sequence] ∨ slave.job.state = .normal ∧ slave.inbox = []) ∧ sequence ∉ slave.job.reorgs

/-- What a slave that takes part may be at. -/
def Placed (stage : Stage) (sequence : StateSequence) (acks : Finset SlaveID) (id : SlaveID) (slave : Slave) : Prop :=
  match stage with
  | .normal => slave.Told []
  | .preReorg | .got => if id ∈ acks then slave.Acknowledged sequence else slave.Awaited sequence
  | .performed | .cleared => slave.Acknowledged sequence

/-- What the master is at. -/
def Stands (stage : Stage) (ready : Nat) (data : Data) : Prop :=
  match stage with
  | .normal => data.state = .normal ∧ data.params = false ∧ data.acks = ∅ ∧ data.actions = ∅ ∧ ready = 0
  | .preReorg => data.state = .preReorg ∧ data.params = false ∧ data.acks ⊆ data.slaves ∧ data.actions = data.acks ∧
    ready = if data.acks = data.slaves then 1 else 0
  | .got => data.state = .preReorg ∧ data.params = true ∧ data.acks = data.slaves ∧ data.actions = data.acks ∧ ready = 0
  | .performed => data.state = .reorg ∧ data.params = true ∧ data.acks = ∅ ∧ data.actions = ∅ ∧ ready = 0
  | .cleared => data.state = .reorg ∧ data.params = false ∧ data.acks = ∅ ∧ data.actions = ∅ ∧ ready = 0

structure Sound (system : System) : Prop where
  registered : ∀ id, id ∈ system.data.slaves ↔ (system.slave id).isSome
  bounded : ∀ id slave, system.slave id = some slave → (∀ sequence ∈ slave.job.reorgs, sequence ≤ system.counter) ∧
    slave.deferred = []
  placed : ∀ id slave, system.slave id = some slave → Placed system.stage system.counter system.data.acks id slave
  stands : Stands system.stage system.ready system.data

theorem checkCondition_iff (data : Data) (among : data.acks ⊆ data.slaves) :
    data.checkCondition = decide (data.acks = data.slaves) := by
  have count : data.slaves.card = 0 ∨ data.acks.card = data.slaves.card ↔ data.acks = data.slaves := by
    constructor
    · rintro (none | same)
      · rw [Finset.card_eq_zero.mp none] at among ⊢
        exact Finset.subset_empty.mp among
      · exact Finset.eq_of_subset_of_card_le among same.ge
    · exact fun same => .inr (congrArg Finset.card same)
  exact decide_eq_decide.mpr count

/-- What may come next in an inbox. A slave that goes on is then as if it had never waited. -/
def Delivers (stage : Stage) (sequence : StateSequence) (acks : Finset SlaveID) (id : SlaveID) (slave : Slave)
    (rest : List Control) : Control → Prop
  | .finishReorg => slave.job.state = .reorg ∧ Placed stage sequence acks id { slave with job := slave.job.transitionStateNormal, inbox := rest }
  | .prepareReorg number => slave.job.state = .normal ∧ rest = [] ∧ number = sequence ∧ (stage = .preReorg ∨ stage = .got) ∧ id ∉ acks ∧
    sequence ∉ slave.job.reorgs

theorem Slave.Told.delivered {controls rest : List Control} (told : slave.Told controls)
    (inbox : slave.inbox = .finishReorg :: rest) (other : controls.head? ≠ some .finishReorg) :
    slave.job.state = .reorg ∧ rest = controls := by
  rcases told with ⟨_, same⟩ | ⟨state, same⟩
  · exact absurd (congrArg List.head? (same.symm.trans inbox)) other
  · exact ⟨state, (List.cons.inj (inbox.symm.trans same)).2⟩

theorem Slave.Awaited.delivered {control : Control} {rest : List Control} (awaited : slave.Awaited sequence)
    (inbox : slave.inbox = control :: rest) :
    control = .finishReorg ∧ slave.job.state = .reorg ∧
        ({ slave with job := slave.job.transitionStateNormal, inbox := rest } : Slave).Awaited sequence ∨
      control = .prepareReorg sequence ∧ slave.job.state = .normal ∧ rest = [] := by
  obtain ⟨(⟨state, same⟩ | ⟨state, same⟩) | ⟨_, same⟩, fresh⟩ := awaited
  · obtain ⟨rfl, rfl⟩ := List.cons.inj (inbox.symm.trans same)
    exact .inr ⟨rfl, state, rfl⟩
  · obtain ⟨rfl, rfl⟩ := List.cons.inj (inbox.symm.trans same)
    exact .inl ⟨rfl, state, .inl (.inl ⟨rfl, rfl⟩), fresh⟩
  · cases inbox.symm.trans same

theorem Placed.delivered {stage : Stage} {acks : Finset SlaveID} {control : Control} {rest : List Control}
    (placed : Placed stage sequence acks id slave) (inbox : slave.inbox = control :: rest) :
    Delivers stage sequence acks id slave rest control := by
  have empty : slave.inbox ≠ [] := by
    rw [inbox]
    exact List.cons_ne_nil _ _
  have waited (stage : Stage) (among : stage = .preReorg ∨ stage = .got) (placed : Placed stage sequence acks id slave) :
      Delivers stage sequence acks id slave rest control := by
    have shape : ∀ slave, Placed stage sequence acks id slave = if id ∈ acks then slave.Acknowledged sequence else slave.Awaited sequence := by
      intro slave
      rcases among with rfl | rfl
      · rfl
      · rfl
    rw [shape] at placed
    by_cases acknowledged : id ∈ acks
    · rw [if_pos acknowledged] at placed
      exact absurd placed.2.1 empty
    · rw [if_neg acknowledged] at placed
      rcases placed.delivered inbox with ⟨rfl, state, awaited⟩ | ⟨rfl, state, last⟩
      · refine ⟨state, ?_⟩
        rw [shape, if_neg acknowledged]
        exact awaited
      · exact ⟨state, last, rfl, among, acknowledged, placed.2⟩
  cases stage with
  | normal =>
    cases control with
    | finishReorg =>
      obtain ⟨state, same⟩ := Slave.Told.delivered placed inbox (by decide)
      exact ⟨state, .inl ⟨rfl, same⟩⟩
    | prepareReorg number =>
      rcases placed with ⟨_, same⟩ | ⟨_, same⟩
      · exact absurd same empty
      · cases inbox.symm.trans same
  | performed => exact absurd placed.2.1 empty
  | cleared => exact absurd placed.2.1 empty
  | preReorg => exact waited .preReorg (.inl rfl) placed
  | got => exact waited .got (.inr rfl) placed

theorem Sound.safe (sound : Sound system) : Safe system := by
  have stands := sound.stands
  refine ⟨fun stage => ?_, fun stage => ?_, fun id slave found first => ?_, fun waiting all => ?_⟩
  · rw [stage] at stands
    obtain ⟨state, params, acks, actions, _⟩ := stands
    refine ⟨_, _, if_neg ?_, ordered_nodup _, fun id => ?_⟩
    · rw [state, params, actions, acks]
      simp
    · rw [mem_ordered, actions, acks]
  · rw [stage] at stands
    obtain ⟨state, params, acks, actions, _⟩ := stands
    refine ⟨?_, fun id member => ?_⟩
    · rw [Data.finishReorg, if_neg (by rw [state, params, actions, acks]; simp)]
      rfl
    · obtain ⟨slave, found⟩ := Option.isSome_iff_exists.mp ((sound.registered id).mp member)
      have placed := sound.placed id slave found
      rw [stage] at placed
      exact ⟨slave, found, placed.2.2⟩
  · obtain ⟨rest, inbox⟩ : ∃ rest, slave.inbox = .finishReorg :: rest := by
      cases messages : slave.inbox with
      | nil =>
        rw [messages] at first
        cases first
      | cons control rest =>
        rw [messages] at first
        exact ⟨rest, congrArg (· :: rest) (Option.some.inj first)⟩
    exact ((sound.placed id slave found).delivered inbox).1
  · cases stage : system.stage with
    | preReorg =>
      rw [stage] at stands
      rw [stands.2.2.2.2, if_pos (stands.2.2.1.antisymm all)]
      exact .inl Nat.one_pos
    | got => exact .inr rfl
    | _ =>
      rw [stage] at stands
      cases stands.1.symm.trans waiting

/-! ## One step -/

theorem setSlave_other (different : other ≠ id) (slave : Option Slave) : (system.setSlave id slave).slave other = system.slave other :=
  if_neg different

theorem setSlave_same (slave : Option Slave) : (system.setSlave id slave).slave id = slave := if_pos rfl

theorem setSlave_isSome (present : (system.slave id).isSome) (slave : Slave) (other : SlaveID) :
    ((system.setSlave id (some slave)).slave other).isSome = (system.slave other).isSome := by
  by_cases same : other = id
  · rw [same, setSlave_same, present]
    rfl
  · rw [setSlave_other same]

theorem Sound.start (sound : Sound system) (careful : Careful (.start id) system) (stepped : system.start id = some next) :
    Sound next := by
  obtain ⟨_, registered⟩ := Option.ite_none_left_eq_some.mp stepped
  obtain ⟨data, entered, rfl⟩ := Option.map_eq_some_iff.mp registered
  obtain ⟨absent, rfl⟩ := (Option.ite_none_left_eq_some.mp entered).imp_right Option.some.inj
  have among : system.stage = .normal ∨ system.stage = .preReorg ∧ (∃ other ∈ system.data.slaves, other ∉ system.data.acks) ∧
      id ∉ system.data.acks := by
    have stands := sound.stands
    rcases careful with state | ⟨state, other, there, missing⟩
    · cases stage : system.stage with
      | normal => exact .inl rfl
      | _ =>
        rw [stage] at stands
        cases stands.1.symm.trans state
    · cases stage : system.stage with
      | preReorg =>
        rw [stage] at stands
        exact .inr ⟨rfl, ⟨other, there, missing⟩, fun member => absent (stands.2.2.1 member)⟩
      | got =>
        rw [stage] at stands
        exact absurd (stands.2.2.1 ▸ there) missing
      | _ =>
        rw [stage] at stands
        cases stands.1.symm.trans state
  constructor
  case registered =>
    intro other
    show other ∈ insert id system.data.slaves ↔ (if other = id then some {} else system.slave other).isSome
    rw [Finset.mem_insert, sound.registered]
    by_cases same : other = id
    · simp [same]
    · simp [same]
  case bounded =>
    intro other slave found
    by_cases same : other = id
    · subst same
      obtain rfl : ({} : Slave) = slave := Option.some.inj ((setSlave_same _).symm.trans found)
      exact ⟨fun _ member => (nomatch member), rfl⟩
    · exact sound.bounded other slave ((setSlave_other same _).symm.trans found)
  case placed =>
    intro other slave found
    by_cases same : other = id
    · subst same
      obtain rfl : ({} : Slave) = slave := Option.some.inj ((setSlave_same _).symm.trans found)
      show Placed system.stage system.counter system.data.acks other {}
      rcases among with stage | ⟨stage, _, late⟩
      · rw [stage]
        exact .inl ⟨rfl, rfl⟩
      · rw [stage, Placed, if_neg late]
        exact ⟨.inr ⟨rfl, rfl⟩, List.not_mem_nil⟩
    · exact sound.placed other slave ((setSlave_other same _).symm.trans found)
  case stands =>
    have stands := sound.stands
    show Stands system.stage system.ready { system.data with slaves := insert id system.data.slaves }
    rcases among with stage | ⟨stage, ⟨other, there, missing⟩, late⟩
    · rw [stage] at stands ⊢
      exact stands
    · rw [stage] at stands ⊢
      obtain ⟨state, params, among, actions, ready⟩ := stands
      refine ⟨state, params, among.trans (Finset.subset_insert _ _), actions, ready.trans ?_⟩
      rw [if_neg fun all : system.data.acks = _ => missing (all ▸ there)]
      exact (if_neg fun all : system.data.acks = insert id system.data.slaves => late (all ▸ Finset.mem_insert_self _ _)).symm

theorem Sound.stop (sound : Sound system) (careful : Careful (.stop id) system) (stepped : system.stop id = some next) :
    Sound next := by
  obtain ⟨present, rfl⟩ := Option.ite_none_right_eq_some.mp stepped |>.imp_right Option.some.inj
  have kept : ∀ other slave, (system.setSlave id none).slave other = some slave → other ≠ id ∧ system.slave other = some slave := by
    intro other slave found
    exact Option.ite_none_left_eq_some.mp found
  have member : id ∈ system.data.slaves := (sound.registered id).mpr present
  constructor
  case registered =>
    intro other
    show other ∈ system.data.slaves.erase id ↔ (if other = id then none else system.slave other).isSome
    rw [Finset.mem_erase, sound.registered]
    by_cases same : other = id
    · simp [same]
    · simp [same]
  case bounded => exact fun other slave found => sound.bounded other slave (kept other slave found).2
  case placed =>
    intro other slave found
    obtain ⟨different, before⟩ := kept other slave found
    have placed := sound.placed other slave before
    show Placed system.stage system.counter (system.data.acks.erase id) other slave
    have same : other ∈ system.data.acks.erase id ↔ other ∈ system.data.acks := by
      rw [Finset.mem_erase, and_iff_right different]
    unfold Placed at placed ⊢
    simp only [same]
    exact placed
  case stands =>
    have stands := sound.stands
    show Stands system.stage system.ready (system.data.unregister id)
    cases stage : system.stage with
    | preReorg =>
      rw [stage] at stands
      obtain ⟨state, params, among, actions, ready⟩ := stands
      refine ⟨state, params, Finset.erase_subset_erase _ among, congrArg (Finset.erase · id) actions, ready.trans ?_⟩
      -- The slave that stops is not the one that all others wait for.
      have same : system.data.acks = system.data.slaves ↔ system.data.acks.erase id = system.data.slaves.erase id := by
        refine ⟨congrArg (Finset.erase · id), fun equal => ?_⟩
        rcases careful state with mine | ⟨other, there, different, missing⟩
        · rw [← Finset.insert_erase mine, equal, Finset.insert_erase member]
        · exact absurd (Finset.mem_erase.mp (equal ▸ Finset.mem_erase.mpr ⟨different, there⟩)).2 missing
      show (if _ then 1 else 0) = if system.data.acks.erase id = system.data.slaves.erase id then 1 else 0
      simp only [same]
    | got =>
      rw [stage] at stands
      exact ⟨stands.1, stands.2.1, congrArg (Finset.erase · id) stands.2.2.1, congrArg (Finset.erase · id) stands.2.2.2.1, stands.2.2.2.2⟩
    | _ =>
      rw [stage] at stands
      obtain ⟨state, params, acks, actions, ready⟩ := stands
      refine ⟨state, params, ?_, ?_, ready⟩
      · show system.data.acks.erase id = ∅
        rw [acks, Finset.erase_empty]
      · show system.data.actions.erase id = ∅
        rw [actions, Finset.erase_empty]

theorem Sound.turn (sound : Sound system) (found : system.slave id = some slave) {after : Slave}
    (reorgs : after.job.reorgs = slave.job.reorgs) (deferred : after.deferred = slave.deferred)
    (placed : Placed system.stage system.counter system.data.acks id after) : Sound (system.setSlave id (some after)) := by
  constructor
  case registered =>
    intro other
    rw [setSlave_isSome (by rw [found]; rfl)]
    exact sound.registered other
  case bounded =>
    intro other now held
    by_cases same : other = id
    · obtain rfl : after = now := Option.some.inj ((setSlave_same _).symm.trans (same ▸ held))
      rw [reorgs, deferred]
      exact sound.bounded id slave found
    · exact sound.bounded other now ((setSlave_other same _).symm.trans held)
  case placed =>
    intro other now held
    by_cases same : other = id
    · obtain rfl : after = now := Option.some.inj ((setSlave_same _).symm.trans (same ▸ held))
      exact same ▸ placed
    · exact sound.placed other now ((setSlave_other same _).symm.trans held)
  case stands => exact sound.stands

/-- Who acknowledges is one of those that are waited for. -/
theorem Sound.acknowledge (sound : Sound system) (found : system.slave id = some slave) (among : system.stage = .preReorg ∨ system.stage = .got)
    (fresh : id ∉ system.data.acks) {job : Job} {told : Data × Bool} (moved : slave.job.transitionStateReorg system.counter = some job)
    (acknowledged : system.data.acknowledgePrepareReorg id = some told) :
    Sound ((system.setSlave id (some { slave with job := job, inbox := [] })).tell told) := by
  have member : id ∈ system.data.slaves := (sound.registered id).mpr (by rw [found]; rfl)
  obtain ⟨_, rfl⟩ := (Option.ite_none_left_eq_some.mp moved).imp_right Option.some.inj
  obtain ⟨_, counted⟩ := Option.ite_none_left_eq_some.mp acknowledged
  obtain ⟨_, rfl⟩ := (Option.ite_none_left_eq_some.mp counted).imp_right Option.some.inj
  have stands := sound.stands
  have stage : system.stage = .preReorg := by
    rcases among with stage | stage
    · exact stage
    · rw [stage] at stands
      exact absurd (stands.2.2.1 ▸ member) fresh
  rw [stage] at stands
  obtain ⟨state, params, among, actions, ready⟩ := stands
  constructor
  case registered =>
    intro other
    exact (sound.registered other).trans (by rw [← setSlave_isSome (by rw [found]; rfl)]; rfl)
  case bounded =>
    intro other now held
    by_cases same : other = id
    · obtain rfl := Option.some.inj ((setSlave_same _).symm.trans (same ▸ held))
      obtain ⟨low, deferred⟩ := sound.bounded id slave found
      refine ⟨fun sequence entered => ?_, deferred⟩
      rcases (mem_insertSorted _ _ _).mp entered with rfl | before
      · exact Nat.le_refl _
      · exact low sequence before
    · exact sound.bounded other now ((setSlave_other same _).symm.trans held)
  case placed =>
    intro other now held
    show Placed system.stage system.counter (insert id system.data.acks) other now
    rw [stage]
    by_cases same : other = id
    · obtain rfl := Option.some.inj ((setSlave_same _).symm.trans (same ▸ held))
      rw [Placed, if_pos (same ▸ Finset.mem_insert_self _ _)]
      exact ⟨rfl, rfl, (mem_insertSorted _ _ _).mpr (.inl rfl)⟩
    · have placed := sound.placed other now ((setSlave_other same _).symm.trans held)
      rw [stage] at placed
      have same : other ∈ insert id system.data.acks ↔ other ∈ system.data.acks := by
        rw [Finset.mem_insert, or_iff_right same]
      unfold Placed at placed ⊢
      simp only [same]
      exact placed
  case stands =>
    show Stands system.stage _ { system.data with actions := insert id system.data.actions, acks := insert id system.data.acks }
    rw [stage]
    have all : insert id system.data.acks ⊆ system.data.slaves := Finset.insert_subset member among
    refine ⟨state, params, all, congrArg (insert id) actions, ?_⟩
    show system.ready + (if _ then 1 else 0) = _
    rw [ready, if_neg fun all : system.data.acks = _ => fresh (all ▸ member), Nat.zero_add, checkCondition_iff _ all]
    simp only [decide_eq_true_eq]

theorem Sound.deliver (sound : Sound system) (stepped : system.deliver id = some next) : Sound next := by
  obtain ⟨slave, found, stepped⟩ := Option.bind_eq_some_iff.mp stepped
  cases inbox : slave.inbox with
  | nil =>
    rw [inbox] at stepped
    cases stepped
  | cons control rest =>
    rw [inbox] at stepped
    have delivered := (sound.placed id slave found).delivered inbox
    cases control with
    | finishReorg =>
      obtain ⟨state, placed⟩ := delivered
      have stepped : (match slave.job.state with | .normal => none | .reorg => some _) = some next := stepped
      rw [state] at stepped
      obtain rfl := Option.some.inj stepped
      exact sound.turn found rfl rfl placed
    | prepareReorg sequence =>
      obtain ⟨state, rfl, rfl, among, fresh, _⟩ := delivered
      have stepped : (match slave.job.state with
          | .normal => (slave.job.transitionStateReorg system.counter).bind fun job =>
            (system.data.acknowledgePrepareReorg id).bind fun told => some _
          | .reorg => some _) = some next := stepped
      rw [state] at stepped
      obtain ⟨job, moved, stepped⟩ := Option.bind_eq_some_iff.mp stepped
      obtain ⟨told, acknowledged, stepped⟩ := Option.bind_eq_some_iff.mp stepped
      obtain rfl := Option.some.inj stepped
      exact sound.acknowledge found among fresh moved acknowledged

theorem Sound.resume (sound : Sound system) (stepped : system.resume id = some next) : Sound next := by
  obtain ⟨slave, found, stepped⟩ := Option.bind_eq_some_iff.mp stepped
  rw [(sound.bounded id slave found).2] at stepped
  cases stepped

theorem Slave.Told.broadcast {controls : List Control} (told : slave.Told controls) (control : Control) :
    ({ slave with inbox := slave.inbox ++ [control] } : Slave).Told (controls ++ [control]) := by
  rcases told with ⟨state, inbox⟩ | ⟨state, inbox⟩
  · exact .inl ⟨state, congrArg (· ++ [control]) inbox⟩
  · exact .inr ⟨state, congrArg (· ++ [control]) inbox⟩

theorem broadcast_cases {control : Control} (registered : ∀ id, id ∈ system.data.slaves ↔ (system.slave id).isSome)
    (found : (system.broadcast control).slave id = some slave) :
    ∃ before, system.slave id = some before ∧ slave = { before with inbox := before.inbox ++ [control] } := by
  obtain ⟨before, there, turned⟩ := Option.map_eq_some_iff.mp found
  rw [if_pos ((registered id).mpr (by rw [there]; rfl))] at turned
  exact ⟨before, there, turned.symm⟩

theorem broadcast_isSome (control : Control) : ((system.broadcast control).slave id).isSome = (system.slave id).isSome :=
  Option.isSome_map

/-- The number of a reorg is a new one. -/
theorem Sound.prepare (sound : Sound system) (stage : system.stage = .normal) (stepped : system.prepare = some next) : Sound next := by
  obtain ⟨told, prepared, rfl⟩ := Option.map_eq_some_iff.mp stepped
  obtain ⟨_, rfl⟩ := (Option.ite_none_left_eq_some.mp prepared).imp_right Option.some.inj
  have stands := sound.stands
  rw [stage] at stands
  obtain ⟨state, params, acks, actions, ready⟩ := stands
  have ready : system.ready = 0 := ready
  have check := checkCondition_iff { system.data with state := .preReorg, acks := ∅ } (Finset.empty_subset _)
  have fresh : ∀ id slave, system.slave id = some slave → system.counter + 1 ∉ slave.job.reorgs :=
    fun id slave found member => Nat.not_succ_le_self _ ((sound.bounded id slave found).1 _ member)
  have waits : Stands .preReorg (system.ready + if decide ((∅ : Finset SlaveID) = system.data.slaves) then 1 else 0)
      { system.data with state := .preReorg, acks := ∅ } := by
    refine ⟨rfl, params, Finset.empty_subset _, actions, ?_⟩
    rw [ready, Nat.zero_add]
    simp only [decide_eq_true_eq]
  by_cases none : (∅ : Finset SlaveID) = system.data.slaves
  · have check : Data.checkCondition { system.data with state := .preReorg, acks := ∅ } = true := check.trans (decide_eq_true none)
    simp only [check, if_true]
    have nobody : ∀ id, system.slave id = Option.none := fun id =>
      Option.not_isSome_iff_eq_none.mp fun present => Finset.notMem_empty id (none ▸ (sound.registered id).mpr present)
    refine ⟨sound.registered, fun id slave found => ?_, fun id slave found => ?_, ?_⟩
    · cases (nobody id).symm.trans found
    · cases (nobody id).symm.trans found
    · rw [decide_eq_true none] at waits
      exact waits
  · have check : Data.checkCondition { system.data with state := .preReorg, acks := ∅ } = false := check.trans (decide_eq_false none)
    simp only [check, Bool.false_eq_true, if_false]
    constructor
    case registered =>
      intro id
      rw [broadcast_isSome]
      exact sound.registered id
    case bounded =>
      intro id slave found
      obtain ⟨before, there, rfl⟩ := broadcast_cases sound.registered found
      obtain ⟨low, deferred⟩ := sound.bounded id before there
      exact ⟨fun sequence member => Nat.le_succ_of_le (low sequence member), deferred⟩
    case placed =>
      intro id slave found
      obtain ⟨before, there, rfl⟩ := broadcast_cases sound.registered found
      have placed := sound.placed id before there
      rw [stage] at placed
      show Placed .preReorg (system.counter + 1) ∅ id _
      rw [Placed, if_neg (Finset.notMem_empty id)]
      exact ⟨.inl (Slave.Told.broadcast placed _), fresh id before there⟩
    case stands =>
      rw [decide_eq_false none] at waits
      exact waits

theorem Sound.ready (sound : Sound system) {data : Data} (stage : system.stage = .preReorg) (pending : 0 < system.ready)
    (got : system.data.getReorg = some data) : Sound { system with data := data, stage := .got, ready := system.ready - 1 } := by
  obtain ⟨_, rfl⟩ := (Option.ite_none_left_eq_some.mp got).imp_right Option.some.inj
  have stands := sound.stands
  rw [stage] at stands
  obtain ⟨state, params, among, actions, ready⟩ := stands
  have all : system.data.acks = system.data.slaves := by
    by_contra missing
    rw [if_neg missing] at ready
    omega
  rw [if_pos all] at ready
  refine ⟨sound.registered, sound.bounded, fun id slave found => ?_, state, rfl, all, actions, ?_⟩
  · have placed := sound.placed id slave found
    rw [stage] at placed
    exact placed
  · show system.ready - 1 = 0
    omega

theorem Sound.perform (sound : Sound system) {performed : List SlaveID × Data} (stage : system.stage = .got)
    (ran : system.data.performReorg = some performed) : Sound { system with data := performed.2, stage := .performed } := by
  obtain ⟨_, rfl⟩ := (Option.ite_none_left_eq_some.mp ran).imp_right Option.some.inj
  have stands := sound.stands
  rw [stage] at stands
  obtain ⟨_, params, all, _, ready⟩ := stands
  refine ⟨sound.registered, sound.bounded, fun id slave found => ?_, rfl, params, rfl, rfl, ready⟩
  have member : id ∈ system.data.acks := all ▸ (sound.registered id).mpr (by rw [found]; rfl)
  have placed := sound.placed id slave found
  rw [stage, Placed, if_pos member] at placed
  exact placed

theorem Sound.clear (sound : Sound system) {data : Data} (stage : system.stage = .performed)
    (cleared : system.data.clearReorg = some data) : Sound { system with data := data, stage := .cleared } := by
  obtain ⟨_, rfl⟩ := (Option.ite_none_left_eq_some.mp cleared).imp_right Option.some.inj
  have stands := sound.stands
  rw [stage] at stands
  obtain ⟨state, _, acks, actions, ready⟩ := stands
  refine ⟨sound.registered, sound.bounded, fun id slave found => ?_, state, rfl, acks, actions, ready⟩
  have placed := sound.placed id slave found
  rw [stage] at placed
  exact placed

theorem Sound.finish (sound : Sound system) (stage : system.stage = .cleared) (finished : system.finish = some next) : Sound next := by
  obtain ⟨data, ends, rfl⟩ := Option.map_eq_some_iff.mp finished
  obtain ⟨_, rfl⟩ := (Option.ite_none_left_eq_some.mp ends).imp_right Option.some.inj
  have stands := sound.stands
  rw [stage] at stands
  obtain ⟨_, params, acks, actions, ready⟩ := stands
  refine ⟨fun id => ?_, fun id slave found => ?_, fun id slave found => ?_, rfl, params, acks, actions, ready⟩
  · rw [broadcast_isSome]
    exact sound.registered id
  · obtain ⟨before, there, rfl⟩ := broadcast_cases sound.registered found
    exact sound.bounded id before there
  · obtain ⟨before, there, rfl⟩ := broadcast_cases sound.registered found
    have placed := sound.placed id before there
    rw [stage] at placed
    exact .inr ⟨placed.1, congrArg (· ++ [Control.finishReorg]) placed.2.1⟩

theorem Sound.step (sound : Sound system) {event : Event} (careful : Careful event system) (stepped : step event system = some next) :
    Sound next := by
  cases event with
  | start id => exact sound.start careful stepped
  | stop id => exact sound.stop careful stepped
  | deliver id => exact sound.deliver stepped
  | resume id => exact sound.resume stepped
  | prepare =>
    obtain ⟨stage, stepped⟩ := Option.ite_none_right_eq_some.mp stepped
    exact sound.prepare stage stepped
  | ready =>
    obtain ⟨⟨stage, pending⟩, stepped⟩ := Option.ite_none_right_eq_some.mp stepped
    obtain ⟨data, got, rfl⟩ := Option.map_eq_some_iff.mp stepped
    exact sound.ready stage pending got
  | perform succeeds =>
    obtain ⟨stage, stepped⟩ := Option.ite_none_right_eq_some.mp stepped
    obtain ⟨performed, ran, stepped⟩ := Option.bind_eq_some_iff.mp stepped
    obtain ⟨_, rfl⟩ := (Option.ite_none_right_eq_some.mp stepped).imp_right Option.some.inj
    exact sound.perform stage ran
  | clear =>
    obtain ⟨stage, stepped⟩ := Option.ite_none_right_eq_some.mp stepped
    obtain ⟨data, cleared, rfl⟩ := Option.map_eq_some_iff.mp stepped
    exact sound.clear stage cleared
  | finish =>
    obtain ⟨stage, stepped⟩ := Option.ite_none_right_eq_some.mp stepped
    exact sound.finish stage stepped

theorem sound_initial : Sound {} := by
  refine ⟨fun id => ?_, fun _ _ found => (nomatch found), fun _ _ found => (nomatch found), rfl, rfl, rfl, rfl, rfl⟩
  show id ∈ (∅ : Finset SlaveID) ↔ (none : Option Slave).isSome
  simp

/-! ## Main result -/

theorem barrier_safe (run : machine.Run Careful {} system) : Safe system :=
  (run.keeps sound_initial fun _ _ _ sound careful stepped => sound.step careful stepped).safe

theorem barrier_safe_two : ∃ system, machine.runs [.start 0, .start 1, .prepare, .deliver 1, .stop 1, .deliver 0, .ready,
    .perform fun _ => true, .clear, .finish] {} = some system ∧ Safe system := by
  obtain ⟨system, ran⟩ : ∃ system, machine.runs [.start 0, .start 1, .prepare, .deliver 1, .stop 1, .deliver 0, .ready,
    .perform fun _ => true, .clear, .finish] {} = some system := ⟨_, rfl⟩
  exact ⟨system, ran, barrier_safe (Machine.run_of_runs (by decide +kernel) ran)⟩

/-- A slave that starts after all others have acknowledged is not among those whose jobs are there. -/
theorem late_start_throws : ∃ system, machine.runs [.start 0, .prepare, .deliver 0, .start 1, .ready] {} = some system ∧ ¬ Safe system := by
  refine ⟨_, rfl, fun safe => ?_⟩
  obtain ⟨jobs, data, performed, _⟩ := safe.perform rfl
  cases performed

end

end Opentxs.Reorg.Barrier
