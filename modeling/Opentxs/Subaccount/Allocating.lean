import Opentxs.Subaccount.Deterministic

/-! A subaccount while keys are reserved, confirmed and given back, and while it is
stored and loaded. -/

namespace Opentxs.Subaccount

open Library Library.Ordered

/-- A longer vector cannot be made. -/
def maxBatch : Nat := 2 ^ 61 - 1

def reservationPeriod : Nat := reservedLimit * hour

structure Chains where
  internal : AddressData
  external : AddressData

namespace Chains

def get (chains : Chains) : Direction → AddressData
  | .internal => chains.internal
  | .external => chains.external

def set (chains : Chains) (data : AddressData) : Direction → Chains
  | .internal => { chains with internal := data }
  | .external => { chains with external := data }

def serialize (chains : Chains) : Chains := ⟨chains.internal.serialize, chains.external.serialize⟩

def load (chains : Chains) : Option Chains := chains.internal.load.bind fun internal => chains.external.load.map fun external => ⟨internal, external⟩

end Chains

/-- The keys that a call returned, and what there was before. -/
structure Reservation where
  direction : Direction
  batch : Nat
  request : Request
  before : AddressData
  keys : List Nat

structure State where
  memory : Chains
  stored : Chains
  clock : Nat
  log : List Reservation := []

inductive Event
  | reserve (direction : Direction) (batch : Nat) (contact : Contact) (label : String)
  | generateNext (direction : Direction)
  | confirm (direction : Direction) (index : Nat) (tx : Txid)
  | unconfirm (direction : Direction) (index : Nat) (tx : Txid)
  | reload

/-- An event at its time, with the keys that can be derived then. What it changes is stored or not. -/
structure Call where
  event : Event
  now : Nat
  valid : Nat → Bool := fun _ => true
  saves : Bool := true

/-- Whatever contact one asks for, a payment code has its own. -/
def Kind.request (kind : Kind) (contact : Contact) (label : String) (now : Nat) : Request where
  contact := if kind.isPaymentCode then kind.getContact else contact
  label
  now

namespace State

/-- Both windows are generated when a subaccount is made, and it is stored. -/
def create (kind : Kind) (valid : Direction → Nat → Bool) (now : Nat) : Option State :=
  (({} : AddressData).checkLookahead kind (valid .internal)).toOption.bind fun internal =>
    (({} : AddressData).checkLookahead kind (valid .external)).toOption.map fun external =>
      { memory := ⟨internal, external⟩, stored := Chains.serialize ⟨internal, external⟩, clock := now }

variable (kind : Kind) (call : Call) (state : State)

def change (direction : Direction) (data : AddressData) : State :=
  let memory := state.memory.set data direction
  { state with memory, stored := if call.saves then memory.serialize else state.stored }

/-- Without a key there is nothing to store, and what is not stored is not returned. -/
def reserve (direction : Direction) (batch : Nat) (request : Request) : Option State :=
  if maxBatch < batch then none
  else
    let before := state.memory.get direction
    (before.reserve kind direction call.valid request batch).map fun
      | ([], data) =>
        { state with memory := state.memory.set data direction, log := { direction, batch, request, before, keys := [] } :: state.log }
      | (key :: keys, data) =>
        let keys := if call.saves then key :: keys else []
        { state.change call direction data with log := { direction, batch, request, before, keys } :: state.log }

def generateNext (direction : Direction) : Option State :=
  let data := state.memory.get direction
  match data.generate kind call.valid data.generated with
  | .ok data => some (state.change call direction data)
  | .error .exception => some state
  | .error .assertion => none

def confirm (direction : Direction) (index : Nat) (tx : Txid) : Option State :=
  let data := state.memory.get direction
  match (data.map.find? index).bind fun element => element.confirm call.now tx with
  | none => some state
  | some element => (data.confirm kind call.valid index element).map (state.change call direction)

def unconfirm (direction : Direction) (index : Nat) (tx : Txid) : Option State :=
  let data := state.memory.get direction
  match (data.map.find? index).bind fun element => element.unconfirm call.now tx with
  | none => some state
  | some element => some (state.change call direction (data.unconfirm index element))

def reload : Option State := state.stored.load.map fun memory => { state with memory }

/-- `none` is the end of the program. -/
def handle : Option State :=
  match call.event with
  | .reserve direction batch contact label => state.reserve kind call direction batch (kind.request contact label call.now)
  | .generateNext direction => state.generateNext kind call direction
  | .confirm direction index tx => state.confirm kind call direction index tx
  | .unconfirm direction index tx => state.unconfirm call direction index tx
  | .reload => state.reload

def step : Option State := (state.handle kind call).map fun next => { next with clock := call.now }

end State

def allocator (kind : Kind) : Machine State Call := ⟨fun call state => state.step kind call⟩

/-! ## What is to hold -/

/-- The keys are those below the number of generated ones, and those below the floor are the longest run from 0 on that
is confirmed. -/
structure AddressData.Right (data : AddressData) : Prop where
  keys : ∀ index, (∃ element, data.map.find? index = some element) ↔ index < data.generated
  used : IsGreatest {count | ∀ index < count, data.confirmedAt index = true} data.used
  ahead : data.used ≤ data.generated

structure State.Right (kind : Kind) (state : State) : Prop where
  chains : ∀ direction, (state.memory.get direction).Right
  distinct : ∀ reservation ∈ state.log, reservation.keys.Nodup
  unused : ∀ reservation ∈ state.log, ∀ index ∈ reservation.keys, reservation.before.confirmedAt index = false
  apart : state.log.Pairwise fun later earlier => later.direction = earlier.direction →
    later.request.now ≤ earlier.request.now + reservationPeriod → ∀ index ∈ later.keys, index ∉ earlier.keys
  fewer : ∀ reservation ∈ state.log, ∃ all,
    reservation.before.reserve kind reservation.direction (fun _ => true) reservation.request reservation.batch = some all ∧
      reservation.keys <+: all.1

/-- Time does not go back. -/
def InOrder (call : Call) (state : State) : Prop := state.clock ≤ call.now

/-- The window after the floor can be generated when the key has a transaction. -/
def AddressData.Ahead (valid : Nat → Bool) (index : Nat) (data : AddressData) : Prop :=
  ∀ floor ≤ data.generated, (∀ other < floor, other = index ∨ data.confirmedAt other = true) →
    ¬ (floor = index ∨ data.confirmedAt floor = true) →
      ∀ more < ({ data.summary with used := floor }).needLookahead.1, AddressData.Derives valid (data.generated + more)

/-- Keys that have to be generated can be. -/
def Served (kind : Kind) (call : Call) (state : State) : Prop :=
  match call.event with
  | .reserve direction batch contact label =>
    batch ≤ maxBatch ∧ AddressData.Enough call.valid batch
      ((state.memory.get direction).statuses (kind.request contact label call.now)) (state.memory.get direction).generated
  | .confirm direction index tx =>
    tx ≠ [] → index < (state.memory.get direction).generated → (state.memory.get direction).Ahead call.valid index
  | _ => True

/-! ## The lookahead -/

theorem Subchain.needLookahead_spec {subchain : Subchain} (ahead : subchain.used ≤ subchain.generated)
    (allocated : ∀ last ∈ subchain.lastAllocation, window ≤ last) :
    (∀ last ∈ subchain.needLookahead.2.lastAllocation, window ≤ last) ∧
      subchain.used + window ≤ subchain.generated + subchain.needLookahead.1 := by
  unfold needLookahead
  by_cases enough : window ≤ subchain.generated - subchain.used
  · simp only [enough, if_true]
    exact ⟨allocated, by omega⟩
  · cases known : subchain.lastAllocation with
    | none =>
      simp only [enough, if_false]
      exact ⟨fun last same => le_of_eq (Option.some.inj same), by omega⟩
    | some last =>
      have least := allocated last known
      have twice : window ≤ min maxAllocation (last * 2) := by
        unfold window maxAllocation at *
        omega
      simp only [enough, if_false]
      exact ⟨fun other same => Option.some.inj same ▸ twice, by omega⟩

namespace AddressData

variable {kind : Kind} {direction : Direction} {valid : Nat → Bool} {data after : AddressData}

/-- What keys that are generated leave as it is. -/
structure Grows (data after : AddressData) (more : Nat) : Prop where
  keys : after.map.keys = List.range after.generated
  generated : after.generated = data.generated + more
  used : after.used = data.used
  confirmedAt : ∀ index, after.confirmedAt index = data.confirmedAt index
  others : ∀ index < data.generated, after.map.find? index = data.map.find? index
  lastAllocation : after.lastAllocation = data.lastAllocation
  fits : 0 < more → after.generated ≤ maxIndex

theorem extend_grows (keys : data.map.keys = List.range data.generated) (derives : Derives valid data.generated) :
    Grows data (data.extend kind) 1 where
  keys := keys_extend keys
  generated := rfl
  used := rfl
  confirmedAt := confirmedAt_extend keys
  others index below := by
    show (data.map.emplace data.generated _).find? index = _
    rw [OrderedMap.find?_emplace, if_neg below.ne]
  lastAllocation := rfl
  fits _ := derives.1

theorem Grows.trans {between : AddressData} {first second : Nat} (one : Grows data between first) (two : Grows between after second) :
    Grows data after (first + second) where
  keys := two.keys
  generated := by rw [two.generated, one.generated, Nat.add_assoc]
  used := two.used.trans one.used
  confirmedAt index := (two.confirmedAt index).trans (one.confirmedAt index)
  others index below := by
    rw [two.others index (by rw [one.generated]; omega), one.others index below]
  lastAllocation := two.lastAllocation.trans one.lastAllocation
  fits some := by
    rcases Nat.eq_zero_or_pos second with rfl | more
    · rw [two.generated]
      exact one.fits some
    · exact two.fits more

/-- As many keys are generated as are asked for, or one of them cannot be. -/
theorem generateMany_spec (needed : Nat) : ∀ {data : AddressData}, data.map.keys = List.range data.generated →
    (∃ after, data.generateMany kind valid needed = .ok after ∧ Grows data after needed ∧ ∀ more < needed, Derives valid (data.generated + more)) ∨
      (data.generateMany kind valid needed = .error .exception ∧ ∃ more < needed, ¬ Derives valid (data.generated + more)) := by
  induction needed with
  | zero =>
    intro data keys
    exact .inl ⟨data, rfl, ⟨keys, rfl, rfl, fun _ => rfl, fun _ _ => rfl, rfl, fun none_ => absurd none_ (Nat.lt_irrefl 0)⟩,
      fun more below => absurd below (Nat.not_lt_zero more)⟩
  | succ needed ih =>
    intro data keys
    have unfolded : data.generateMany kind valid (needed + 1) =
        (data.generate kind valid data.generated).bind fun data => data.generateMany kind valid needed := rfl
    rw [unfolded, generate_next keys]
    by_cases derives : Derives valid data.generated
    · rw [if_pos derives]
      have one : Grows data (data.extend kind) 1 := extend_grows keys derives
      have shifted (more : Nat) : (data.extend kind).generated + more = data.generated + (more + 1) := by
        rw [one.generated]
        omega
      rcases ih one.keys with ⟨after, done, grows, all⟩ | ⟨failed, more, below, fails⟩
      · refine .inl ⟨after, done, Nat.add_comm needed 1 ▸ one.trans grows, fun more below => ?_⟩
        cases more with
        | zero => exact derives
        | succ more => exact shifted more ▸ all more (by omega)
      · exact .inr ⟨failed, more + 1, by omega, shifted more ▸ fails⟩
    · rw [if_neg derives]
      exact .inr ⟨rfl, 0, Nat.succ_pos _, derives⟩

/-- After the lookahead the window is ahead of the floor again. -/
theorem checkLookahead_spec (keys : data.map.keys = List.range data.generated)
    (confirmed : ∀ index < data.used, data.confirmedAt index = true) (floor : data.confirmedAt data.used = false)
    (ahead : data.used ≤ data.generated) (fits : data.generated ≤ maxIndex) (allocated : ∀ last ∈ data.lastAllocation, window ≤ last) :
    (∃ after, data.checkLookahead kind valid = .ok after ∧ after.Sound ∧
      (∀ index < data.generated, after.map.find? index = data.map.find? index) ∧ ∀ more < data.summary.needLookahead.1, Derives valid (data.generated + more)) ∨
      (data.checkLookahead kind valid = .error .exception ∧ ∃ more < data.summary.needLookahead.1, ¬ Derives valid (data.generated + more)) := by
  have more := @Subchain.needLookahead_spec data.summary ahead allocated
  rcases @generateMany_spec kind valid data.summary.needLookahead.1
      { data with lastAllocation := data.summary.needLookahead.2.lastAllocation } keys with ⟨after, done, grows, all⟩ | failed
  · refine .inl ⟨after, done, ?_, grows.others, all⟩
    exact
      { keys := grows.keys
        confirmed := fun index below => (grows.confirmedAt index).trans (confirmed index (grows.used ▸ below))
        floor := (grows.confirmedAt _).trans (grows.used ▸ floor)
        room := by
          rw [grows.used, grows.generated]
          exact more.2
        fits := by
          rcases Nat.eq_zero_or_pos data.summary.needLookahead.1 with none_ | some_
          · rw [grows.generated, none_]
            exact fits
          · exact grows.fits some_
        allocated := grows.lastAllocation ▸ more.1 }
  · exact .inr failed

/-! ## Confirmation -/

theorem confirmedAt_replace {index : Nat} {old element : Element} (found : data.map.find? index = some old) (other : Nat) :
    { data with map := data.map.modify index fun _ => element }.confirmedAt other =
      if other = index then decide (element.confirmed ≠ ∅) else data.confirmedAt other := by
  unfold confirmedAt
  dsimp only
  rw [OrderedMap.find?_modify]
  split
  · next here =>
    rw [here, found]
    rfl
  · rfl

theorem mem_summary (keys : data.map.keys = List.range data.generated) (index : Nat) :
    index ∈ data.summary.confirmed ↔ data.confirmedAt index = true := by
  show index ∈ (Finset.range data.generated).filter _ ↔ _
  rw [Finset.mem_filter, Finset.mem_range, and_iff_right_iff_imp]
  intro confirmed
  rw [← find?_isSome_iff keys]
  unfold confirmedAt at confirmed
  cases found : data.map.find? index with
  | none =>
    rw [found] at confirmed
    cases confirmed
  | some element => exact ⟨element, rfl⟩

/-- The element with one transaction more is the only one that changes. The program goes on if the window after the
floor can be generated. -/
theorem confirm_spec (sound : data.Sound) {index : Nat} {old element : Element} (found : data.map.find? index = some old)
    (used : element.confirmed ≠ ∅) :
    (∃ after, data.confirm kind valid index element = some after ∧ after.Sound ∧
      (∀ other < data.generated, after.map.find? other = if other = index then some element else data.map.find? other) ∧ data.Ahead valid index) ∨
    (data.confirm kind valid index element = none ∧ ¬ data.Ahead valid index) := by
  have below : index < data.generated := (find?_isSome_iff sound.keys index).mp ⟨old, found⟩
  have keys : (data.map.modify index fun _ => element).keys = List.range data.generated := (OrderedMap.keys_modify _ _ _).trans sound.keys
  have confirmed (other : Nat) : { data with map := data.map.modify index fun _ => element }.confirmedAt other = true ↔
      other = index ∨ data.confirmedAt other = true := by
    rw [confirmedAt_replace found]
    split
    · next here => exact iff_of_true (decide_eq_true used) (.inl here)
    · next other_ => exact (or_iff_right other_).symm
  have member (other : Nat) : other ∈ { data with map := data.map.modify index fun _ => element }.summary.confirmed ↔
      other = index ∨ data.confirmedAt other = true := (mem_summary keys other).trans (confirmed other)
  obtain ⟨first, isFirst⟩ : ∃ first, firstUnused { data with map := data.map.modify index fun _ => element }.summary.confirmed = first := ⟨_, rfl⟩
  have least (other : Nat) (before : other < first) : other = index ∨ data.confirmedAt other = true :=
    (member other).mp (mem_of_lt_firstUnused (isFirst ▸ before))
  have missing : ¬ (first = index ∨ data.confirmedAt first = true) := fun present => firstUnused_notMem _ (isFirst ▸ (member first).mpr present)
  have within : first ≤ data.generated := by
    by_contra beyond
    rcases least data.generated (Nat.lt_of_not_le beyond) with rfl | present
    · exact Nat.lt_irrefl _ below
    · obtain ⟨held, present⟩ := (find?_isSome_iff sound.keys data.generated).mpr (Finset.mem_range.mp (Finset.mem_filter.mp ((mem_summary sound.keys _).mpr present)).1)
      rw [find?_generated sound.keys] at present
      cases present
  have raised : ({ data with map := data.map.modify index fun _ => element }.summary.checkUsed index).used = first := by
    rw [Subchain.checkUsed_eq (fun other before => (member other).mpr (.inr (sound.confirmed other before))) (fun present => ?_)
      (fun other present => ?_) ((member index).mpr (.inl rfl))]
    · exact isFirst
    · rcases (member data.used).mp present with same | present
      · exact same
      · rw [sound.floor] at present
        cases present
    · exact Finset.mem_range.mp (Finset.mem_filter.mp present).1
  have needs : ({ data with map := data.map.modify index fun _ => element, used := first } : AddressData).summary.needLookahead.1 =
      ({ data.summary with used := first }).needLookahead.1 := by
    unfold Subchain.needLookahead
    by_cases enough : window ≤ data.generated - first
    · simp only [summary, enough, if_true]
    · simp only [summary, enough, if_false]
  have ahead : data.Ahead valid index ↔
      ∀ more < ({ data with map := data.map.modify index fun _ => element, used := first } : AddressData).summary.needLookahead.1,
        Derives valid (data.generated + more) := by
    rw [needs]
    constructor
    · exact fun all => all first within least missing
    · intro all floor _ before after
      have same : floor = first := (firstUnused_eq (fun other below => (member other).mpr (before other below))
        (fun present => after ((member floor).mp present))).symm.trans isFirst
      exact same ▸ all
  unfold AddressData.confirm
  dsimp only
  rw [raised, ahead]
  rcases @checkLookahead_spec kind valid { data with map := data.map.modify index fun _ => element, used := first } keys
      (fun other before => (confirmed other).mpr (least other before)) (Bool.eq_false_iff.mpr fun present => missing ((confirmed first).mp present))
      within sound.fits sound.allocated with ⟨after, done, kept, others, all⟩ | ⟨failed, more, few, fails⟩
  · refine .inl ⟨after, by rw [done]; rfl, kept, fun other before => ?_, all⟩
    rw [others other before]
    show (data.map.modify index fun _ => element).find? other = _
    rw [OrderedMap.find?_modify]
    split
    · next here =>
      rw [here, found]
      rfl
    · rfl
  · exact .inr ⟨by rw [failed]; rfl, fun all => fails (all more few)⟩

theorem unconfirm_sound (sound : data.Sound) {index : Nat} {old element : Element} (found : data.map.find? index = some old)
    (fewer : element.confirmed ⊆ old.confirmed) : (data.unconfirm index element).Sound := by
  have confirmed (other : Nat) : (data.unconfirm index element).confirmedAt other =
      if other = index then decide (element.confirmed ≠ ∅) else data.confirmedAt other := confirmedAt_replace found other
  have was (some : element.confirmed ≠ ∅) : data.confirmedAt index = true := by
    rw [← Bool.not_eq_false, confirmedAt_eq_false]
    intro none_
    exact some (Finset.subset_empty.mp (none_ old found ▸ fewer))
  have floor : (data.unconfirm index element).used ≤ data.used ∧
      (element.confirmed = ∅ → (data.unconfirm index element).used = min data.used index) ∧
      (element.confirmed ≠ ∅ → (data.unconfirm index element).used = data.used) := by
    unfold AddressData.unconfirm
    dsimp only
    split
    · next none_ => exact ⟨Nat.min_le_left _ _, fun _ => rfl, fun some => absurd none_ some⟩
    · next some => exact ⟨le_rfl, fun none_ => absurd none_ some, fun _ => rfl⟩
  obtain ⟨less, emptied, left⟩ := floor
  exact
    { keys := (OrderedMap.keys_modify _ _ _).trans sound.keys
      confirmed := by
        intro other below
        rw [confirmed]
        split
        · next here =>
          rw [decide_eq_true_iff]
          intro none_
          have := emptied none_
          omega
        · exact sound.confirmed other (below.trans_le less)
      floor := by
        rw [confirmed]
        by_cases none_ : element.confirmed = ∅
        · rw [emptied none_]
          split
          · exact decide_eq_false (not_not_intro none_)
          · next other =>
            rcases Nat.lt_or_ge data.used index with before | behind
            · rw [Nat.min_eq_left before.le]
              exact sound.floor
            · exact absurd (Nat.min_eq_right behind) other
        · rw [left none_, if_neg fun here => ?_]
          · exact sound.floor
          · have present := was none_
            rw [← here, sound.floor] at present
            cases present
      room := (Nat.add_le_add_right less window).trans sound.room
      fits := sound.fits
      allocated := sound.allocated }

/-! ## Storage -/

theorem confirmedAt_serialize (index : Nat) : data.serialize.confirmedAt index = data.confirmedAt index := by
  unfold confirmedAt serialize
  dsimp only
  rw [OrderedMap.find?_mapValues, Option.map_map]
  rfl

theorem Sound.serialize (sound : data.Sound) : data.serialize.Sound where
  keys := (OrderedMap.keys_mapValues _ _).trans sound.keys
  confirmed index below := (confirmedAt_serialize index).trans (sound.confirmed index below)
  floor := (confirmedAt_serialize _).trans sound.floor
  room := sound.room
  fits := sound.fits
  allocated := sound.allocated

theorem Sound.load (sound : data.Sound) : data.load = some { data with lastAllocation := none } := by
  have length := length_of_keys sound.keys
  unfold AddressData.load
  have contiguous : data.checkKeys = true := by
    unfold checkKeys
    rw [length]
    exact decide_eq_true sound.keys
  rw [if_pos contiguous, length]

theorem Sound.forget (sound : data.Sound) : { data with lastAllocation := none : AddressData }.Sound :=
  { sound with allocated := fun _ none_ => nomatch none_ }

theorem Sound.right (sound : data.Sound) : data.Right where
  keys := find?_isSome_iff sound.keys
  used := by
    refine ⟨sound.confirmed, fun count all => ?_⟩
    by_contra more
    have present := all data.used (Nat.lt_of_not_le more)
    rw [sound.floor] at present
    cases present
  ahead := (Nat.le_add_right _ _).trans sound.room

/-! ## Reservations stay -/

/-- The key was active at a time or after it, of which whole seconds are stored. -/
def Holds (data : AddressData) (index time : Nat) : Prop :=
  ∃ element, data.map.find? index = some element ∧ time / second * second ≤ element.timestamp

/-- What is reserved stays so. -/
def Keeps (data after : AddressData) (now : Nat) : Prop := ∀ index, ∀ time ≤ now, Holds data index time → Holds after index time

theorem Holds.serialize {index time : Nat} (holds : Holds data index time) : Holds data.serialize index time := by
  obtain ⟨element, found, later⟩ := holds
  refine ⟨element.serialize, ?_, ?_⟩
  · show (data.map.mapValues Element.serialize).find? index = _
    rw [OrderedMap.find?_mapValues, found]
    rfl
  · show time / second * second ≤ element.timestamp / second * second
    apply Nat.mul_le_mul_right
    rwa [Nat.le_div_iff_mul_le (by decide)]

theorem holds_of_active {index time now : Nat} {element : Element} (found : data.map.find? index = some element) (active : element.timestamp = now)
    (past : time ≤ now) : Holds data index time :=
  ⟨element, found, active ▸ (Nat.div_mul_le_self time second).trans past⟩

theorem Reserves.keeps {request : Request} {keys : List Nat} (reserves : Reserves data request keys after) : Keeps data after request.now := by
  intro index time past ⟨element, found, later⟩
  by_cases member : index ∈ keys
  · obtain ⟨taken, present, now, _⟩ := reserves.taken index member
    exact holds_of_active present now past
  · exact ⟨element, (reserves.others index member).trans found, later⟩

theorem Grows.keeps {more now : Nat} (keys : data.map.keys = List.range data.generated) (grows : Grows data after more) : Keeps data after now := by
  intro index time _ ⟨element, found, later⟩
  have below : index < data.generated := (find?_isSome_iff keys index).mp ⟨element, found⟩
  exact ⟨element, (grows.others index below).trans found, later⟩

/-- One element changes, and is active now. -/
theorem keeps_of_replaced {index now : Nat} {active : Element} (stamped : active.timestamp = now)
    (replaced : ∀ other element, data.map.find? other = some element →
      after.map.find? other = if other = index then some active else data.map.find? other) : Keeps data after now := by
  intro other time past ⟨element, found, later⟩
  have present := replaced other element found
  by_cases here : other = index
  · rw [if_pos here] at present
    exact holds_of_active present stamped past
  · rw [if_neg here] at present
    exact ⟨element, present.trans found, later⟩

/-- A key that can be handed out was reserved long ago. -/
theorem period_lt {index time : Nat} {request : Request} (holds : Holds data index time)
    (free : data.status request index ≠ .used ∧ data.status request index ≠ .reserved) : time + reservationPeriod < request.now := by
  obtain ⟨element, found, later⟩ := holds
  have same : data.status request index = element.isAvailable request := by
    unfold status
    rw [found]
    rfl
  rw [same] at free
  have unused : element.confirmed = ∅ := by
    by_contra some
    exact free.1 (Element.isAvailable_eq_used.mpr some)
  have old := Element.reservedLimit_lt unused free.2
  have cut := Nat.div_add_mod time second
  have rest := Nat.mod_lt time (show 0 < second by decide)
  unfold reservationPeriod
  unfold reservedLimit hour second at *
  omega

end AddressData

/-! ## One call -/

namespace State

open AddressData

variable {kind : Kind} {call : Call} {state : State}

structure Sound (state : State) : Prop where
  memory : ∀ direction, (state.memory.get direction).Sound
  stored : ∀ direction, (state.stored.get direction).Sound
  past : ∀ reservation ∈ state.log, reservation.request.now ≤ state.clock
  held : ∀ reservation ∈ state.log, ∀ index ∈ reservation.keys,
    Holds (state.memory.get reservation.direction) index reservation.request.now ∧
      Holds (state.stored.get reservation.direction) index reservation.request.now

theorem get_set (chains : Chains) (data : AddressData) (direction other : Direction) :
    (chains.set data direction).get other = if other = direction then data else chains.get other := by
  cases direction with
  | internal =>
    cases other with
    | internal => rfl
    | external => rfl
  | external =>
    cases other with
    | internal => rfl
    | external => rfl

theorem get_serialize (chains : Chains) (direction : Direction) : chains.serialize.get direction = (chains.get direction).serialize := by
  cases direction with
  | internal => rfl
  | external => rfl

/-- Where one subchain changes and keeps what is reserved, all is kept. -/
theorem Sound.change (sound : state.Sound) {direction : Direction} {data : AddressData} (kept : data.Sound) (inOrder : InOrder call state)
    (keeps : Keeps (state.memory.get direction) data call.now) : { state.change call direction data with clock := call.now }.Sound := by
  have memory (other : Direction) : ((state.memory.set data direction).get other).Sound := by
    rw [get_set]
    split
    · exact kept
    · exact sound.memory other
  have held : ∀ reservation ∈ state.log, ∀ index ∈ reservation.keys,
      Holds ((state.memory.set data direction).get reservation.direction) index reservation.request.now := by
    intro reservation member index key
    have before := (sound.held reservation member index key).1
    rw [get_set]
    split
    · next same => exact keeps index _ ((sound.past reservation member).trans inOrder) (same ▸ before)
    · exact before
  by_cases saves : call.saves = true
  · have stored : (state.change call direction data).stored = (state.memory.set data direction).serialize := if_pos saves
    exact
      { memory
        stored := fun other => by
          show (Chains.get (state.change call direction data).stored other).Sound
          rw [stored, get_serialize]
          exact (memory other).serialize
        past := fun reservation member => (sound.past reservation member).trans inOrder
        held := fun reservation member index key => ⟨held reservation member index key, by
          show Holds (Chains.get (state.change call direction data).stored _) _ _
          rw [stored, get_serialize]
          exact (held reservation member index key).serialize⟩ }
  · have stored : (state.change call direction data).stored = state.stored := if_neg saves
    exact
      { memory
        stored := fun other => by
          show (Chains.get (state.change call direction data).stored other).Sound
          rw [stored]
          exact sound.stored other
        past := fun reservation member => (sound.past reservation member).trans inOrder
        held := fun reservation member index key => ⟨held reservation member index key, by
          show Holds (Chains.get (state.change call direction data).stored _) _ _
          rw [stored]
          exact (sound.held reservation member index key).2⟩ }

/-- Nothing changes but the time. -/
theorem Sound.wait (sound : state.Sound) (inOrder : InOrder call state) : { state with clock := call.now }.Sound :=
  { sound with past := fun reservation member => (sound.past reservation member).trans inOrder }

/-- Where the log stays, only the subchains have to be right. -/
theorem Right.of_log {next : State} (right : state.Right kind) (sound : next.Sound) (same : next.log = state.log) : next.Right kind where
  chains direction := (sound.memory direction).right
  distinct := same ▸ right.distinct
  unused := same ▸ right.unused
  apart := same ▸ right.apart
  fewer := same ▸ right.fewer

/-- A reservation is written down. -/
theorem Sound.logged (sound : state.Sound) {reservation : Reservation} (past : reservation.request.now ≤ state.clock)
    (held : ∀ index ∈ reservation.keys, Holds (state.memory.get reservation.direction) index reservation.request.now ∧
      Holds (state.stored.get reservation.direction) index reservation.request.now) :
    { state with log := reservation :: state.log }.Sound :=
  { sound with
    past := List.forall_mem_cons.mpr ⟨past, sound.past⟩
    held := List.forall_mem_cons.mpr ⟨held, sound.held⟩ }

/-- Either the keys that were found are stored and returned, or none are returned. -/
theorem reserved (sound : state.Sound) (right : state.Right kind) (inOrder : InOrder call state) {direction : Direction} {batch : Nat} {request : Request}
    {valid : Nat → Bool} {found keys : List Nat} {data : AddressData} (now : request.now = call.now)
    (done : (state.memory.get direction).reserve kind direction valid request batch = some (found, data))
    (returned : keys = [] ∨ keys = found ∧ call.saves = true) :
    { state.change call direction data with
      log := { direction, batch, request, before := state.memory.get direction, keys } :: state.log
      clock := call.now }.Sound ∧
    { state.change call direction data with
      log := { direction, batch, request, before := state.memory.get direction, keys } :: state.log
      clock := call.now }.Right kind := by
  have reserves := reserve_reserves batch (sound.memory direction) done
  obtain ⟨all, possible, shorter⟩ := reserve_prefix batch (sound.memory direction) done
  have subset {index : Nat} (member : index ∈ keys) : index ∈ found := by
    rcases returned with rfl | ⟨rfl, _⟩
    · cases member
    · exact member
  have changed := sound.change reserves.sound inOrder (now ▸ reserves.keeps)
  have next := @Sound.logged _ changed { direction, batch, request, before := state.memory.get direction, keys } now.le (by
    intro index member
    have saves : call.saves = true := by
      rcases returned with rfl | ⟨_, saves⟩
      · cases member
      · exact saves
    obtain ⟨element, present, active, _⟩ := reserves.taken index (subset member)
    have here : Holds ((state.memory.set data direction).get direction) index request.now := by
      rw [get_set, if_pos rfl]
      exact holds_of_active present active le_rfl
    refine ⟨here, ?_⟩
    have stored : (state.change call direction data).stored = (state.memory.set data direction).serialize := if_pos saves
    show Holds (Chains.get (state.change call direction data).stored direction) index request.now
    rw [stored, get_serialize]
    exact here.serialize)
  refine ⟨next, ?_⟩
  exact
    { chains := fun direction => (next.memory direction).right
      distinct := by
        refine List.forall_mem_cons.mpr ⟨?_, right.distinct⟩
        rcases returned with rfl | ⟨rfl, _⟩
        · exact List.nodup_nil
        · exact reserves.nodup
      unused := by
        refine List.forall_mem_cons.mpr ⟨fun index member => ?_, right.unused⟩
        exact Bool.eq_false_iff.mpr fun used => (reserves.free index (subset member)).1 ((status_eq_used index).mpr used)
      apart := by
        refine List.pairwise_cons.mpr ⟨fun earlier member same soon index key before => ?_, right.apart⟩
        have holds := (sound.held earlier member index before).1
        have long := period_lt (same ▸ holds) (reserves.free index (subset key))
        exact absurd (show request.now ≤ earlier.request.now + reservationPeriod from soon) (Nat.not_le_of_lt long)
      fewer := by
        refine List.forall_mem_cons.mpr ⟨⟨all, possible, ?_⟩, right.fewer⟩
        rcases returned with rfl | ⟨rfl, _⟩
        · exact List.nil_prefix
        · exact shorter }

/-- A call that keys can be generated for leads to a state that is right, and any other ends the program. -/
def Settles (kind : Kind) (call : Call) (may : Prop) (outcome : Option State) : Prop :=
  (may ∧ ∃ next, outcome = some next ∧ { next with clock := call.now }.Sound ∧ { next with clock := call.now }.Right kind) ∨
    (¬ may ∧ outcome = none)

theorem settles_reserve (sound : state.Sound) (right : state.Right kind) (inOrder : InOrder call state) (direction : Direction) (batch : Nat)
    {request : Request} (now : request.now = call.now) :
    Settles kind call (batch ≤ maxBatch ∧ Enough call.valid batch ((state.memory.get direction).statuses request) (state.memory.get direction).generated)
      (state.reserve kind call direction batch request) := by
  unfold reserve
  by_cases long : maxBatch < batch
  · exact .inr ⟨fun may => absurd long (Nat.not_lt_of_le may.1), if_pos long⟩
  rw [if_neg long]
  dsimp only
  have iff := @reserve_iff kind direction call.valid request batch _ (sound.memory direction)
  cases outcome : (state.memory.get direction).reserve kind direction call.valid request batch with
  | none =>
    refine .inr ⟨fun may => ?_, rfl⟩
    obtain ⟨done, given⟩ := iff.mpr may.2
    rw [outcome] at given
    cases given
  | some done =>
    obtain ⟨found, data⟩ := done
    refine .inl ⟨⟨Nat.le_of_not_lt long, iff.mp ⟨_, outcome⟩⟩, ?_⟩
    cases found with
    | nil =>
      have unsaved := @reserved kind { call with saves := false } state sound right inOrder direction batch request call.valid [] [] data now outcome (.inl rfl)
      exact ⟨_, rfl, unsaved⟩
    | cons key keys =>
      refine ⟨_, rfl, ?_⟩
      apply reserved sound right inOrder now outcome
      by_cases saves : call.saves = true
      · exact .inr ⟨if_pos saves, saves⟩
      · exact .inl (if_neg saves)

theorem settles_change (sound : state.Sound) (right : state.Right kind) (inOrder : InOrder call state) {direction : Direction} {data : AddressData} {may : Prop}
    (allowed : may) (kept : data.Sound) (keeps : Keeps (state.memory.get direction) data call.now) :
    Settles kind call may (some (state.change call direction data)) :=
  have next := sound.change kept inOrder keeps
  .inl ⟨allowed, _, rfl, next, right.of_log next rfl⟩

theorem settles_wait (sound : state.Sound) (right : state.Right kind) (inOrder : InOrder call state) {may : Prop} (allowed : may) :
    Settles kind call may (some state) :=
  .inl ⟨allowed, _, rfl, sound.wait inOrder, right.of_log (sound.wait inOrder) rfl⟩

theorem settles_generateNext (sound : state.Sound) (right : state.Right kind) (inOrder : InOrder call state) (direction : Direction) :
    Settles kind call True (state.generateNext kind call direction) := by
  have known := sound.memory direction
  unfold generateNext
  dsimp only
  rw [generate_next known.keys]
  by_cases derives : Derives call.valid (state.memory.get direction).generated
  · rw [if_pos derives]
    exact settles_change sound right inOrder trivial (known.extend derives) ((extend_grows known.keys derives).keeps known.keys)
  · rw [if_neg derives]
    exact settles_wait sound right inOrder trivial

theorem settles_confirm (sound : state.Sound) (right : state.Right kind) (inOrder : InOrder call state) (direction : Direction) (index : Nat) (tx : Txid) :
    Settles kind call (tx ≠ [] → index < (state.memory.get direction).generated → (state.memory.get direction).Ahead call.valid index)
      (state.confirm kind call direction index tx) := by
  have known := sound.memory direction
  unfold confirm
  dsimp only
  cases found : (state.memory.get direction).map.find? index with
  | none =>
    refine settles_wait sound right inOrder fun _ below => ?_
    obtain ⟨element, present⟩ := (find?_isSome_iff known.keys index).mpr below
    rw [found] at present
    cases present
  | some old =>
    have below := (find?_isSome_iff known.keys index).mp ⟨old, found⟩
    rw [Option.bind_some]
    by_cases unnamed : tx = []
    · have refused : old.confirm call.now tx = none := if_pos unnamed
      rw [refused]
      exact settles_wait sound right inOrder fun named _ => absurd unnamed named
    · obtain ⟨element, taken, used, active⟩ := @Element.confirm_some old call.now tx unnamed
      rw [taken]
      dsimp only
      rcases @confirm_spec kind call.valid _ known index old element found used with ⟨after, done, kept, others, ahead⟩ | ⟨failed, behind⟩
      · rw [done]
        apply settles_change sound right inOrder (fun _ _ => ahead) kept
        apply keeps_of_replaced active
        intro other held present
        exact others other ((find?_isSome_iff known.keys other).mp ⟨held, present⟩)
      · rw [failed]
        exact .inr ⟨fun may => behind (may unnamed below), rfl⟩

theorem settles_unconfirm (sound : state.Sound) (right : state.Right kind) (inOrder : InOrder call state) (direction : Direction) (index : Nat) (tx : Txid) :
    Settles kind call True (state.unconfirm call direction index tx) := by
  unfold unconfirm
  dsimp only
  cases found : (state.memory.get direction).map.find? index with
  | none => exact settles_wait sound right inOrder trivial
  | some old =>
    rw [Option.bind_some]
    by_cases unnamed : tx = []
    · have refused : old.unconfirm call.now tx = none := if_pos unnamed
      rw [refused]
      exact settles_wait sound right inOrder trivial
    · obtain ⟨element, taken, fewer, active⟩ := @Element.unconfirm_some old call.now tx unnamed
      rw [taken]
      apply settles_change sound right inOrder trivial (unconfirm_sound (sound.memory direction) found fewer)
      refine @keeps_of_replaced (state.memory.get direction) _ index call.now element active fun other held present => ?_
      show ((state.memory.get direction).map.modify index fun _ => element).find? other = _
      rw [OrderedMap.find?_modify]
      split
      · next here =>
        rw [here, found]
        rfl
      · rfl

theorem settles_reload (sound : state.Sound) (right : state.Right kind) (inOrder : InOrder call state) : Settles kind call True state.reload := by
  have loaded : state.stored.load = some ⟨{ state.stored.internal with lastAllocation := none }, { state.stored.external with lastAllocation := none }⟩ := by
    have internal : state.stored.internal.load = _ := (sound.stored .internal).load
    have external : state.stored.external.load = _ := (sound.stored .external).load
    unfold Chains.load
    rw [internal, external]
    rfl
  have memory (direction : Direction) : Chains.get ⟨{ state.stored.internal with lastAllocation := none }, { state.stored.external with lastAllocation := none }⟩
      direction = { state.stored.get direction with lastAllocation := none } := by
    cases direction with
    | internal => rfl
    | external => rfl
  have next : ({ state with
      memory := ⟨{ state.stored.internal with lastAllocation := none }, { state.stored.external with lastAllocation := none }⟩
      clock := call.now } : State).Sound :=
    { memory := fun direction => by
        show (Chains.get ⟨_, _⟩ direction).Sound
        rw [memory]
        exact (sound.stored direction).forget
      stored := sound.stored
      past := fun reservation member => (sound.past reservation member).trans inOrder
      held := fun reservation member index key => by
        have stored := (sound.held reservation member index key).2
        refine ⟨?_, stored⟩
        show Holds (Chains.get ⟨_, _⟩ reservation.direction) index _
        rw [memory]
        exact stored }
  unfold reload
  rw [loaded]
  exact .inl ⟨trivial, _, rfl, next, right.of_log next rfl⟩

theorem settles (sound : state.Sound) (right : state.Right kind) (inOrder : InOrder call state) :
    Settles kind call (Served kind call state) (state.handle kind call) := by
  unfold handle Served
  cases call.event with
  | reserve direction batch contact label => exact settles_reserve sound right inOrder direction batch rfl
  | generateNext direction => exact settles_generateNext sound right inOrder direction
  | confirm direction index tx => exact settles_confirm sound right inOrder direction index tx
  | unconfirm direction index tx => exact settles_unconfirm sound right inOrder direction index tx
  | reload => exact settles_reload sound right inOrder

/-! ## A new subaccount -/

theorem create_sound {valid : Direction → Nat → Bool} {now : Nat} {start : State} (created : create kind valid now = some start) :
    start.Sound ∧ start.Right kind := by
  have fresh (direction : Direction) {data : AddressData}
      (made : (({} : AddressData).checkLookahead kind (valid direction)).toOption = some data) : data.Sound := by
    rcases @checkLookahead_spec kind (valid direction) {} rfl (fun _ below => absurd below (Nat.not_lt_zero _)) rfl le_rfl (Nat.zero_le _)
      (fun _ none_ => nomatch none_) with ⟨after, done, kept, _⟩ | ⟨failed, _⟩
    · rw [done] at made
      exact Option.some.inj made ▸ kept
    · rw [failed] at made
      cases made
  obtain ⟨internal, made, rest⟩ := Option.bind_eq_some_iff.mp created
  obtain ⟨external, also, rfl⟩ := Option.map_eq_some_iff.mp rest
  have memory (direction : Direction) : (Chains.get ⟨internal, external⟩ direction).Sound := by
    cases direction with
    | internal => exact fresh .internal made
    | external => exact fresh .external also
  constructor
  · exact
      { memory
        stored := fun direction => by
          show (Chains.get (Chains.serialize _) direction).Sound
          rw [get_serialize]
          exact (memory direction).serialize
        past := fun _ member => absurd member List.not_mem_nil
        held := fun _ member => absurd member List.not_mem_nil }
  · exact
      { chains := fun direction => (memory direction).right
        distinct := fun _ member => absurd member List.not_mem_nil
        unused := fun _ member => absurd member List.not_mem_nil
        apart := .nil
        fewer := fun _ member => absurd member List.not_mem_nil }

end State

/-- From any subaccount that could be made, a run of calls goes through and every key that is handed out is free, if and
only if each key that has to be generated can be. -/
theorem allocation_sound_iff {kind : Kind} {valid : Direction → Nat → Bool} {now : Nat} {start : State} (created : State.create kind valid now = some start)
    (calls : List Call) (inOrder : (allocator kind).Allows InOrder calls start) :
    (∀ before, before <+: calls → ∃ state, (allocator kind).runs before start = some state ∧ state.Right kind) ↔
      (allocator kind).Allows (Served kind) calls start := by
  obtain ⟨sound, right⟩ := State.create_sound created
  have outcome {call : Call} {state after : State} (stepped : state.step kind call = some after) :
      ∃ next, state.handle kind call = some next ∧ { next with clock := call.now } = after := Option.map_eq_some_iff.mp stepped
  refine Machine.goes_along_iff (fun call before after (good : before.Sound ∧ before.Right kind) ordered stepped => ?_)
    (fun call before good _ ordered => ?_) calls start ⟨sound, right⟩ right inOrder
  · obtain ⟨next, handled, rfl⟩ := outcome stepped
    rcases State.settles good.1 good.2 ordered with ⟨_, other, same, kept⟩ | ⟨_, ended⟩
    · exact Option.some.inj (same.symm.trans handled) ▸ kept
    · rw [ended] at handled
      cases handled
  · rcases State.settles good.1 good.2 ordered with ⟨may, next, handled, _, kept⟩ | ⟨never, ended⟩
    · refine iff_of_true ⟨_, ?_, kept⟩ may
      show (before.handle kind call).map _ = _
      rw [handled]
      rfl
    · refine iff_of_false (fun ⟨after, stepped, _⟩ => ?_) never
      obtain ⟨next, handled, _⟩ := outcome stepped
      rw [ended] at handled
      cases handled

instance (index : Nat) (data : AddressData) (valid : Nat → Bool) : Decidable (data.Ahead valid index) := by
  unfold AddressData.Ahead
  infer_instance

instance (kind : Kind) (call : Call) (state : State) : Decidable (Served kind call state) := by
  unfold Served
  split
  · infer_instance
  · infer_instance
  · infer_instance

instance (call : Call) (state : State) : Decidable (InOrder call state) := inferInstanceAs (Decidable (_ ≤ _))

/-- Three weeks after the epoch. -/
def sampleTime : Nat := 500 * hour

def sampleStart : State := (State.create .hd (fun _ _ => true) sampleTime).get (by decide +kernel)

/-- A key is confirmed and loses its transaction, and the subaccount is stored and loaded before others are reserved. -/
def confirmedAndLost : List Call :=
  [{ event := .reserve .external 2 [1] "rent", now := sampleTime },
    { event := .confirm .external 0 [7], now := sampleTime + hour, valid := fun index => index < 41 },
    { event := .generateNext .internal, now := sampleTime + hour, valid := fun _ => false },
    { event := .unconfirm .external 0 [7], now := sampleTime + hour },
    { event := .reload, now := sampleTime + hour },
    { event := .reserve .external 2 [1] "rent", now := sampleTime + 2 * hour, valid := fun _ => false }]

theorem reorganized_keys_free : (allocator .hd).Allows InOrder confirmedAndLost sampleStart ∧
    ∀ before, before <+: confirmedAndLost → ∃ state, (allocator .hd).runs before sampleStart = some state ∧ state.Right .hd := by
  have created : State.create .hd (fun _ _ => true) sampleTime = some sampleStart := (Option.some_get _).symm
  have inOrder : (allocator .hd).Allows InOrder confirmedAndLost sampleStart := by decide +kernel
  refine ⟨inOrder, (allocation_sound_iff created confirmedAndLost inOrder).mpr ?_⟩
  decide +kernel

/-- All keys of the window are reserved, and the next one cannot be derived. -/
def oneTooMany : List Call := [{ event := .reserve .external 21 [] "", now := sampleTime, valid := fun index => index ≠ 20 }]

theorem failed_key_ends : (allocator .hd).Allows InOrder oneTooMany sampleStart ∧
    ¬ ∀ before, before <+: oneTooMany → ∃ state, (allocator .hd).runs before sampleStart = some state ∧ state.Right .hd := by
  refine ⟨by decide +kernel, fun right => ?_⟩
  obtain ⟨state, ran, _⟩ := right oneTooMany List.prefix_rfl
  have ended : ((allocator .hd).runs oneTooMany sampleStart).isNone = true := by decide +kernel
  rw [ran] at ended
  cases ended

end Opentxs.Subaccount
