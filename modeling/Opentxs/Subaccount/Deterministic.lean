import Opentxs.Subaccount.Element
import Opentxs.Subaccount.Lookahead

/-! The keys of one subchain. A key is looked for among those that are generated, and past
them new ones are generated. -/

namespace Opentxs.Subaccount

open Library Library.Ordered

structure AddressData where
  map : OrderedMap Nat Element := .empty
  generated : Nat := 0
  used : Nat := 0
  lastAllocation : Option Nat := none

/-- An assertion ends the program, an exception does where nothing catches it. -/
inductive Failure
  | assertion
  | exception
  deriving DecidableEq

inductive Check
  | accepted (index : Nat) (data : AddressData)
  | refused (gap : Nat) (fallback : List Nat)

inductive Search
  | found (index : Nat) (data : AddressData)
  | passed (candidate gap : Nat) (fallback : List Nat)

def Search.result : Search → Option (Nat × AddressData)
  | found index data => some (index, data)
  | passed .. => none

namespace AddressData

variable (data : AddressData)

/-- There are confirmed transactions of the key. -/
def confirmedAt (index : Nat) : Bool := ((data.map.find? index).map fun element => decide (element.confirmed ≠ ∅)).getD false

def summary : Subchain where
  generated := data.generated
  used := data.used
  lastAllocation := data.lastAllocation
  confirmed := (Finset.range data.generated).filter fun index => data.confirmedAt index = true

/-- The keys are those from 0 on. -/
def checkKeys : Bool := data.map.keys = List.range data.map.entries.length

section

variable (kind : Kind) (direction : Direction) (valid : Nat → Bool)

def generate (desired : Nat) : Except Failure AddressData :=
  if data.map.entries.length ≠ data.generated ∨ desired ≠ data.generated then .error .assertion
  else if maxIndex ≤ data.generated then .error .exception
  else if !valid data.generated then .error .exception
  else if (data.map.find? data.generated).isSome then .error .exception
  else .ok { data with map := data.map.emplace data.generated { contact := kind.getContact }, generated := data.generated + 1 }

def generateMany : Nat → AddressData → Except Failure AddressData
  | 0, data => .ok data
  | needed + 1, data => (data.generate kind valid data.generated).bind (generateMany needed)

def checkLookahead : Except Failure AddressData :=
  generateMany kind valid data.summary.needLookahead.1 { data with lastAllocation := data.summary.needLookahead.2.lastAllocation }

/-! ## Reservation -/

variable (request : Request)

/-- What is written into an element that is handed out. -/
def take (element : Element) : Element :=
  (element.setMetadata kind.isPaymentCode (if kind.setContact direction then request.contact else []) request.label).reserve request.now

/-- Nothing catches a failure of the lookahead. -/
def accept (index : Nat) : Option AddressData :=
  (data.checkLookahead kind valid).toOption.map fun data =>
    { data with map := data.map.modify index (take kind direction request) }

/-- A key that cannot be generated is refused like one that is not available. -/
def check (candidate gap : Nat) (fallback : List Nat) : Option Check :=
  if candidate < data.generated then
    match data.map.find? candidate with
    | none => some (.refused gap fallback)
    | some element => match element.isAvailable request with
      | .neverUsed | .reissue => (data.accept kind direction valid request candidate).map (.accepted candidate)
      | .used => some (.refused 0 fallback)
      | .metadataConflict | .reserved => some (.refused (gap + 1) fallback)
      -- The candidates come in order, so that the first of the fallbacks is the least.
      | .staleUnconfirmed => some (.refused (gap + 1) (fallback ++ [candidate]))
  else match data.generate kind valid candidate with
    | .ok data => (data.accept kind direction valid request candidate).map (.accepted candidate)
    | .error .exception => some (.refused gap fallback)
    | .error .assertion => none

/-- Goes from candidate to candidate until one is accepted or the search is to end. -/
def searchFrom (goes : Nat → Nat → Bool) : Nat → Nat → Nat → List Nat → Option Search
  | 0, _, _, _ => none
  | fuel + 1, candidate, gap, fallback =>
    if goes candidate gap then
      (data.check kind direction valid request candidate gap fallback).bind fun
        | .accepted index data => some (.found index data)
        | .refused gap fallback => searchFrom goes fuel (candidate + 1) gap fallback
    else some (.passed candidate gap fallback)

/-- After the first key that is not generated the program ends or the search does. -/
def fuel : Nat := data.generated + 2

/-- `none` is the end of the program. -/
def useNext : Option (Option (Nat × AddressData)) :=
  (data.searchFrom kind direction valid request (fun _ gap => gap < window) data.fuel data.used 0 []).bind fun
    | .found index data => some (some (index, data))
    | .passed _ _ (index :: _) => (data.accept kind direction valid request index).map fun data => some (index, data)
    | .passed candidate gap [] =>
      (data.searchFrom kind direction valid request (fun candidate _ => candidate < maxIndex) data.fuel candidate gap []).map Search.result

/-- As many as there are, up to the number that is asked for. -/
def reserve : Nat → AddressData → Option (List Nat × AddressData)
  | 0, data => some ([], data)
  | batch + 1, data => (data.useNext kind direction valid request).bind fun
    | none => some ([], data)
    | some (index, data) => (reserve batch data).map fun rest => (index :: rest.1, rest.2)

end

/-! ## Confirmation -/

def confirm (kind : Kind) (valid : Nat → Bool) (index : Nat) (element : Element) : Option AddressData :=
  let data := { data with map := data.map.modify index fun _ => element }
  ({ data with used := (data.summary.checkUsed index).used }.checkLookahead kind valid).toOption

def unconfirm (index : Nat) (element : Element) : AddressData :=
  { data with
    map := data.map.modify index fun _ => element
    used := if element.confirmed = ∅ then min data.used index else data.used }

/-! ## Storage -/

def serialize : AddressData := { data with map := data.map.mapValues Element.serialize }

/-- As many keys are generated as were stored. -/
def load : Option AddressData :=
  if data.checkKeys then some { data with generated := data.map.entries.length, lastAllocation := none } else none

end AddressData

/-! ## The search -/

namespace Availability

/-- A key that can be handed out as it is. -/
def isFree (status : Availability) : Bool := status = .neverUsed || status = .reissue

end Availability

/-- What is looked at until the gap limit is reached. A used key starts the gap again. -/
def within : Nat → List Availability → List Availability
  | _, [] => []
  | gap, status :: rest => if gap < window then status :: within (if status = .used then 0 else gap + 1) rest else []

def gapAfter : Nat → List Availability → Nat
  | gap, [] => gap
  | gap, status :: rest => if gap < window then gapAfter (if status = .used then 0 else gap + 1) rest else gap

/-- A key that can be handed out comes before a stale one, but not where it lies past the gap limit. -/
def choose (statuses : List Availability) : Option Nat :=
  ((within 0 statuses).findIdx? Availability.isFree).or <|
    if gapAfter 0 statuses < window then none
    else ((within 0 statuses).findIdx? (· = .staleUnconfirmed)).or (statuses.findIdx? Availability.isFree)

def freeKeys (statuses : List Availability) : Nat := statuses.countP Availability.isFree

def staleKeys (statuses : List Availability) : Nat := (within 0 statuses).countP (· = .staleUnconfirmed)

section

variable {statuses rest : List Availability} {status : Availability} {gap index : Nat}

theorem within_prefix : ∀ (statuses : List Availability) (gap : Nat), within gap statuses <+: statuses := by
  intro statuses
  induction statuses with
  | nil => exact fun _ => List.prefix_rfl
  | cons status rest ih =>
    intro gap
    unfold within
    split
    · exact (List.prefix_cons_inj status).mpr (ih _)
    · exact List.nil_prefix

/-- Where the gap limit is not reached, everything is looked at. -/
theorem within_eq : ∀ (statuses : List Availability) (gap : Nat), gapAfter gap statuses < window → within gap statuses = statuses := by
  intro statuses
  induction statuses with
  | nil => exact fun _ _ => rfl
  | cons status rest ih =>
    intro gap short
    unfold gapAfter at short
    unfold within
    split at short
    · next inside => rw [if_pos inside, ih _ short]
    · next reached => exact absurd short reached

/-- A key that is not used stays so when it is handed out, and the gaps stay where they are. -/
theorem gapAfter_set (unused : status ≠ .used) : ∀ (statuses : List Availability) (gap index : Nat),
    (∀ old, statuses[index]? = some old → old ≠ .used) → gapAfter gap (statuses.set index status) = gapAfter gap statuses := by
  intro statuses
  induction statuses with
  | nil => exact fun _ _ _ => rfl
  | cons head rest ih =>
    intro gap index was
    cases index with
    | zero =>
      show gapAfter gap (status :: rest) = _
      unfold gapAfter
      rw [if_neg unused, if_neg (was head rfl)]
    | succ index =>
      show gapAfter gap (head :: rest.set index status) = _
      unfold gapAfter
      rw [ih _ index was]

theorem within_set (unused : status ≠ .used) : ∀ (statuses : List Availability) (gap index : Nat),
    (∀ old, statuses[index]? = some old → old ≠ .used) → within gap (statuses.set index status) = (within gap statuses).set index status := by
  intro statuses
  induction statuses with
  | nil => exact fun _ _ _ => rfl
  | cons head rest ih =>
    intro gap index was
    by_cases inside : gap < window
    · cases index with
      | zero =>
        show within gap (status :: rest) = _
        unfold within
        rw [if_pos inside, if_pos inside, if_neg unused, if_neg (was head rfl)]
        rfl
      | succ index =>
        show within gap (head :: rest.set index status) = _
        unfold within
        rw [if_pos inside, if_pos inside, ih _ index was]
        rfl
    · have none (first : Availability) (more : List Availability) : within gap (first :: more) = [] := if_neg inside
      rw [none head rest]
      cases index with
      | zero => exact none _ _
      | succ index => exact none _ _

theorem gapAfter_append : ∀ (statuses : List Availability) (gap : Nat), gapAfter gap (statuses ++ [.reserved]) =
    if gapAfter gap statuses < window then gapAfter gap statuses + 1 else gapAfter gap statuses := by
  intro statuses
  induction statuses with
  | nil => exact fun _ => rfl
  | cons head rest ih =>
    intro gap
    by_cases inside : gap < window
    · show gapAfter gap (head :: (rest ++ [.reserved])) = _
      unfold gapAfter
      rw [if_pos inside, if_pos inside, ih]
    · have same (more : List Availability) : gapAfter gap (head :: more) = gap := if_neg inside
      show gapAfter gap (head :: (rest ++ [.reserved])) = _
      rw [same, same, if_neg inside]

theorem within_append : ∀ (statuses : List Availability) (gap : Nat), within gap (statuses ++ [.reserved]) =
    if gapAfter gap statuses < window then within gap statuses ++ [.reserved] else within gap statuses := by
  intro statuses
  induction statuses with
  | nil => exact fun _ => rfl
  | cons head rest ih =>
    intro gap
    by_cases inside : gap < window
    · show within gap (head :: (rest ++ [.reserved])) = _
      unfold within gapAfter
      rw [if_pos inside, if_pos inside, if_pos inside, ih]
      exact apply_ite (head :: ·) _ _ _
    · have empty (more : List Availability) : within gap (head :: more) = [] := if_neg inside
      have same : gapAfter gap (head :: rest) = gap := if_neg inside
      show within gap (head :: (rest ++ [.reserved])) = _
      rw [empty, empty, same, if_neg inside]

/-- A number that counts one kind of keys goes down with one of them. -/
theorem countP_set {keep : Availability → Bool} (other : keep status = false) : ∀ (statuses : List Availability) (index : Nat) (old : Availability),
    statuses[index]? = some old → (statuses.set index status).countP keep + (if keep old then 1 else 0) = statuses.countP keep := by
  intro statuses
  induction statuses with
  | nil => exact fun _ _ found => absurd found (by simp)
  | cons head rest ih =>
    intro index old found
    cases index with
    | zero =>
      obtain rfl := Option.some.inj found
      show (status :: rest).countP keep + _ = _
      rw [List.countP_cons, List.countP_cons, other]
      rfl
    | succ index =>
      show (head :: rest.set index status).countP keep + _ = _
      rw [List.countP_cons, List.countP_cons, ← ih index old found]
      omega

end

/-! ### What is chosen -/

section

variable {statuses : List Availability} {index : Nat} {old : Availability}

theorem getElem?_of_findIdx? {α : Type} {keep : α → Bool} {items : List α} (found : items.findIdx? keep = some index) :
    ∃ item, items[index]? = some item ∧ keep item = true := by
  obtain ⟨inside, kept, _⟩ := List.findIdx?_eq_some_iff_getElem.mp found
  exact ⟨items[index], List.getElem?_eq_getElem inside, kept⟩

theorem countP_of_findIdx? {α : Type} {keep : α → Bool} {items : List α} (none_ : items.findIdx? keep = none) : items.countP keep = 0 := by
  rw [List.countP_eq_zero]
  intro item member
  rw [List.findIdx?_eq_none_iff.mp none_ item member]
  decide

theorem getElem?_within (found : (within 0 statuses)[index]? = some old) : statuses[index]? = some old := by
  obtain ⟨rest, whole⟩ := within_prefix statuses 0
  have inside := (List.getElem?_eq_some_iff.mp found).1
  rw [← whole, List.getElem?_append_left inside, found]

theorem freeKeys_set (found : statuses[index]? = some old) :
    freeKeys (statuses.set index .reserved) + (if old.isFree then 1 else 0) = freeKeys statuses := countP_set rfl statuses index old found

theorem staleKeys_set (unused : old ≠ .used) (found : statuses[index]? = some old) (other : old ≠ .staleUnconfirmed) :
    staleKeys (statuses.set index .reserved) = staleKeys statuses := by
  unfold staleKeys
  rw [within_set (by decide) statuses 0 index fun was here => Option.some.inj (here.symm.trans found) ▸ unused]
  by_cases inside : index < (within 0 statuses).length
  · have here := List.getElem?_eq_getElem inside
    have same : (within 0 statuses)[index] = old := Option.some.inj ((getElem?_within here).symm.trans found)
    have count := @countP_set .reserved (· = .staleUnconfirmed) rfl (within 0 statuses) index _ here
    rw [same, if_neg (by rw [decide_eq_true_iff]; exact other)] at count
    exact count
  · rw [List.set_eq_of_length_le (Nat.le_of_not_lt inside)]

/-- What is chosen can be handed out, and there is one less of its kind afterwards. -/
theorem choose_some (chosen : choose statuses = some index) : ∃ old, statuses[index]? = some old ∧ old ≠ .used ∧ old ≠ .reserved ∧
    gapAfter 0 (statuses.set index .reserved) = gapAfter 0 statuses ∧
    ((freeKeys (statuses.set index .reserved) + 1 = freeKeys statuses ∧ staleKeys (statuses.set index .reserved) = staleKeys statuses) ∨
      (window ≤ gapAfter 0 statuses ∧ freeKeys (statuses.set index .reserved) = freeKeys statuses ∧
        staleKeys (statuses.set index .reserved) + 1 = staleKeys statuses)) := by
  have free {old : Availability} (found : statuses[index]? = some old) (isFree : old.isFree = true) :
      ∃ old, statuses[index]? = some old ∧ old ≠ .used ∧ old ≠ .reserved ∧
        gapAfter 0 (statuses.set index .reserved) = gapAfter 0 statuses ∧
        ((freeKeys (statuses.set index .reserved) + 1 = freeKeys statuses ∧ staleKeys (statuses.set index .reserved) = staleKeys statuses) ∨
          (window ≤ gapAfter 0 statuses ∧ freeKeys (statuses.set index .reserved) = freeKeys statuses ∧
            staleKeys (statuses.set index .reserved) + 1 = staleKeys statuses)) := by
    have isNot {other : Availability} (held : other.isFree = false) : old ≠ other := by
      rintro rfl
      rw [held] at isFree
      cases isFree
    have count := freeKeys_set found
    rw [if_pos isFree] at count
    refine ⟨old, found, isNot rfl, isNot rfl, ?_, .inl ⟨count, staleKeys_set (isNot rfl) found (isNot rfl)⟩⟩
    exact gapAfter_set (by decide) statuses 0 index fun was here => Option.some.inj (here.symm.trans found) ▸ isNot rfl
  unfold choose at chosen
  rcases Option.or_eq_some_iff.mp chosen with first | ⟨_, later⟩
  · obtain ⟨old, found, isFree⟩ := getElem?_of_findIdx? first
    exact free (getElem?_within found) isFree
  · obtain ⟨reached, later⟩ := Option.ite_none_left_eq_some.mp later
    rcases Option.or_eq_some_iff.mp later with stale | ⟨_, beyond⟩
    · obtain ⟨old, inside, isStale⟩ := getElem?_of_findIdx? stale
      obtain rfl := of_decide_eq_true isStale
      have found := getElem?_within inside
      have same := @gapAfter_set .reserved (by decide) statuses 0 index
        fun was here => Option.some.inj (here.symm.trans found) ▸ by decide
      refine ⟨_, found, by decide, by decide, same, .inr ⟨Nat.le_of_not_lt reached, freeKeys_set found, ?_⟩⟩
      unfold staleKeys
      rw [within_set (by decide) statuses 0 index fun was here => Option.some.inj (here.symm.trans found) ▸ by decide]
      exact countP_set (by decide) (within 0 statuses) index _ inside
    · obtain ⟨old, found, isFree⟩ := getElem?_of_findIdx? beyond
      exact free found isFree

/-- Nothing is chosen where there is nothing, or the gap limit is not reached. -/
theorem choose_none (none_ : choose statuses = none) :
    freeKeys statuses = 0 ∧ (gapAfter 0 statuses < window ∨ staleKeys statuses = 0) := by
  unfold choose at none_
  obtain ⟨noneWithin, later⟩ := Option.or_eq_none_iff.mp none_
  by_cases short : gapAfter 0 statuses < window
  · rw [within_eq statuses 0 short] at noneWithin
    exact ⟨countP_of_findIdx? noneWithin, .inl short⟩
  · rw [if_neg short] at later
    obtain ⟨noStale, noFree⟩ := Option.or_eq_none_iff.mp later
    exact ⟨countP_of_findIdx? noFree, .inr (countP_of_findIdx? noStale)⟩

theorem freeKeys_append : freeKeys (statuses ++ [.reserved]) = freeKeys statuses := by
  unfold freeKeys
  rw [List.countP_append]
  rfl

theorem staleKeys_append : staleKeys (statuses ++ [.reserved]) = staleKeys statuses := by
  unfold staleKeys
  rw [within_append]
  split
  · rw [List.countP_append]
    rfl
  · rfl

end

/-! ## One key -/

namespace AddressData

variable (data : AddressData) (kind : Kind) (direction : Direction) (valid : Nat → Bool) (request : Request)

def status (index : Nat) : Availability := ((data.map.find? index).map fun element => element.isAvailable request).getD .neverUsed

def statuses : List Availability := (List.range' data.used (data.generated - data.used)).map (data.status request)

def handOut (index : Nat) : AddressData := { data with map := data.map.modify index (take kind direction request) }

def extend : AddressData :=
  { data with map := data.map.emplace data.generated { contact := kind.getContact }, generated := data.generated + 1 }

/-- The next key can be generated. -/
abbrev Derives (index : Nat) : Prop := index < maxIndex ∧ valid index = true

structure Sound : Prop where
  keys : data.map.keys = List.range data.generated
  confirmed : ∀ index < data.used, data.confirmedAt index = true
  floor : data.confirmedAt data.used = false
  room : data.used + window ≤ data.generated
  fits : data.generated ≤ maxIndex
  allocated : ∀ last ∈ data.lastAllocation, window ≤ last

variable {data kind direction valid request}

theorem length_of_keys (keys : data.map.keys = List.range data.generated) : data.map.entries.length = data.generated := by
  have same := congrArg List.length keys
  rwa [List.length_range, OrderedMap.keys, List.length_map] at same

theorem find?_isSome_iff (keys : data.map.keys = List.range data.generated) (index : Nat) :
    (∃ element, data.map.find? index = some element) ↔ index < data.generated := by
  rw [← OrderedMap.mem_keys, keys, List.mem_range]

theorem find?_generated (keys : data.map.keys = List.range data.generated) : data.map.find? data.generated = none := by
  cases found : data.map.find? data.generated with
  | none => rfl
  | some element => exact absurd ((find?_isSome_iff keys data.generated).mp ⟨element, found⟩) (Nat.lt_irrefl _)

theorem generate_next (keys : data.map.keys = List.range data.generated) : data.generate kind valid data.generated =
    if Derives valid data.generated then .ok (data.extend kind) else .error .exception := by
  unfold generate
  rw [if_neg (by rw [length_of_keys keys]; tauto), find?_generated keys]
  by_cases full : maxIndex ≤ data.generated
  · rw [if_pos full, if_neg fun derives => absurd full (Nat.not_le_of_lt derives.1)]
  · rw [if_neg full]
    by_cases derived : valid data.generated = true
    · have known : ¬ (!valid data.generated) = true := by rw [derived]; decide
      have derives : Derives valid data.generated := ⟨Nat.lt_of_not_le full, derived⟩
      rw [if_neg known, if_pos derives]
      rfl
    · have unknown : (!valid data.generated) = true := by rw [Bool.eq_false_iff.mpr derived]; decide
      have fails : ¬ Derives valid data.generated := fun derives => derived derives.2
      rw [if_pos unknown, if_neg fails]

/-- After a key that was not generated no other can be. -/
theorem generate_other {desired : Nat} (other : desired ≠ data.generated) : data.generate kind valid desired = .error .assertion :=
  if_pos (.inr other)

theorem accept_eq (room : data.used + window ≤ data.generated) (index : Nat) :
    data.accept kind direction valid request index = some (data.handOut kind direction request index) := by
  have none_ : data.summary.needLookahead = (0, data.summary) := by
    apply if_pos
    show window ≤ data.generated - data.used
    omega
  unfold accept checkLookahead
  rw [none_]
  rfl

theorem check_generated (keys : data.map.keys = List.range data.generated) (room : data.used + window ≤ data.generated)
    {candidate : Nat} (gap : Nat) (fallback : List Nat) (below : candidate < data.generated) :
    data.check kind direction valid request candidate gap fallback =
      if (data.status request candidate).isFree then some (.accepted candidate (data.handOut kind direction request candidate))
      else some (.refused (if data.status request candidate = .used then 0 else gap + 1)
        (if data.status request candidate = .staleUnconfirmed then fallback ++ [candidate] else fallback)) := by
  obtain ⟨element, found⟩ := (find?_isSome_iff keys candidate).mpr below
  have same : data.status request candidate = element.isAvailable request := by
    unfold status
    rw [found]
    rfl
  unfold check
  rw [if_pos below, found, same, accept_eq room]
  dsimp only
  cases element.isAvailable request with
  | neverUsed => rfl
  | reissue => rfl
  | used => rfl
  | metadataConflict => rfl
  | reserved => rfl
  | staleUnconfirmed => rfl

theorem check_next (keys : data.map.keys = List.range data.generated) (room : data.used + window ≤ data.generated)
    (gap : Nat) (fallback : List Nat) : data.check kind direction valid request data.generated gap fallback =
      if Derives valid data.generated then some (.accepted data.generated ((data.extend kind).handOut kind direction request data.generated))
      else some (.refused gap fallback) := by
  unfold check
  rw [if_neg (Nat.lt_irrefl _), generate_next keys]
  by_cases derives : Derives valid data.generated
  · rw [if_pos derives, if_pos derives]
    have more : (data.extend kind).used + window ≤ (data.extend kind).generated := room.trans (Nat.le_succ _)
    dsimp only
    rw [accept_eq more]
    rfl
  · rw [if_neg derives, if_neg derives]

theorem check_beyond {candidate : Nat} (gap : Nat) (fallback : List Nat) (beyond : data.generated < candidate) :
    data.check kind direction valid request candidate gap fallback = none := by
  unfold check
  rw [if_neg (Nat.lt_asymm beyond), generate_other beyond.ne']

section

variable (keys : data.map.keys = List.range data.generated) (room : data.used + window ≤ data.generated)

include keys room

/-- The search up to the gap limit. -/
theorem search_within : ∀ (left candidate gap : Nat) (fallback : List Nat) (fuel : Nat), candidate + left = data.generated → left + 2 ≤ fuel →
    data.searchFrom kind direction valid request (fun _ gap => gap < window) fuel candidate gap fallback =
      match (within gap ((List.range' candidate left).map (data.status request))).findIdx? Availability.isFree with
      | some index => some (.found (candidate + index) (data.handOut kind direction request (candidate + index)))
      | none =>
        if gapAfter gap ((List.range' candidate left).map (data.status request)) < window then
          if Derives valid data.generated then
            some (.found data.generated ((data.extend kind).handOut kind direction request data.generated))
          else none
        else some (.passed (candidate + (within gap ((List.range' candidate left).map (data.status request))).length)
          (gapAfter gap ((List.range' candidate left).map (data.status request)))
          (fallback ++ (List.range' candidate (within gap ((List.range' candidate left).map (data.status request))).length).filter
            (data.status request · = .staleUnconfirmed))) := by
  intro left
  induction left with
  | zero =>
    rintro candidate gap fallback fuel rfl enough
    obtain ⟨fuel, rfl⟩ := Nat.exists_eq_add_of_le' enough
    show data.searchFrom kind direction valid request _ (fuel + 1 + 1) _ _ _ = if gap < window then _ else _
    unfold searchFrom
    by_cases inside : gap < window
    · rw [if_pos (decide_eq_true inside), if_pos inside, Nat.add_zero, check_next keys room]
      by_cases derives : Derives valid data.generated
      · rw [if_pos derives, if_pos derives]
        rfl
      · rw [if_neg derives, if_neg derives]
        dsimp only [Option.bind_some]
        unfold searchFrom
        rw [if_pos (decide_eq_true inside), check_beyond gap fallback (Nat.lt_succ_self _)]
        rfl
    · rw [if_neg (by rwa [decide_eq_true_iff]), if_neg inside]
      show _ = some (Search.passed _ gap (fallback ++ []))
      rw [List.append_nil]
      rfl
  | succ left ih =>
    intro candidate gap fallback fuel total enough
    obtain ⟨fuel, rfl⟩ := Nat.exists_eq_add_of_le' enough
    rw [List.range'_succ, List.map_cons]
    show data.searchFrom kind direction valid request _ (fuel + left + 2 + 1) _ _ _ = _
    unfold searchFrom
    by_cases inside : gap < window
    · have more (rest : List Availability) : within gap (data.status request candidate :: rest) =
          data.status request candidate :: within (if data.status request candidate = .used then 0 else gap + 1) rest := if_pos inside
      have after (rest : List Availability) : gapAfter gap (data.status request candidate :: rest) =
          gapAfter (if data.status request candidate = .used then 0 else gap + 1) rest := if_pos inside
      rw [if_pos (decide_eq_true inside), check_generated keys room gap fallback (by omega), more, after, List.findIdx?_cons]
      by_cases free : (data.status request candidate).isFree = true
      · rw [if_pos free, if_pos free]
        rfl
      · rw [if_neg free, if_neg free]
        dsimp only [Option.bind_some]
        rw [ih (candidate + 1) _ _ (fuel + left + 2) (by omega) (by omega)]
        cases found : (within (if data.status request candidate = .used then 0 else gap + 1)
            ((List.range' (candidate + 1) left).map (data.status request))).findIdx? Availability.isFree with
        | some index =>
          have same : candidate + 1 + index = candidate + (index + 1) := by omega
          dsimp only [Option.map_some]
          rw [same]
        | none =>
          dsimp only [Option.map_none]
          rw [List.length_cons, List.range'_succ, Nat.add_right_comm candidate 1, Nat.add_assoc candidate _ 1, List.filter_cons]
          by_cases stale : data.status request candidate = .staleUnconfirmed
          · rw [if_pos stale, if_pos (decide_eq_true stale), List.append_assoc]
            rfl
          · have other : ¬ decide (data.status request candidate = .staleUnconfirmed) = true := by rwa [decide_eq_true_iff]
            rw [if_neg stale, if_neg other]
    · have none_ (rest : List Availability) : within gap (data.status request candidate :: rest) = [] := if_neg inside
      have after (rest : List Availability) : gapAfter gap (data.status request candidate :: rest) = gap := if_neg inside
      rw [if_neg (by rwa [decide_eq_true_iff]), none_, after]
      show _ = if gap < window then _ else some (Search.passed candidate gap (fallback ++ []))
      rw [if_neg inside, List.append_nil]

/-- The search past the gap limit. -/
theorem search_beyond (fits : data.generated ≤ maxIndex) : ∀ (left candidate gap : Nat) (fallback : List Nat) (fuel : Nat),
    candidate + left = data.generated → left + 2 ≤ fuel →
    (data.searchFrom kind direction valid request (fun candidate _ => candidate < maxIndex) fuel candidate gap fallback).map Search.result =
      match ((List.range' candidate left).map (data.status request)).findIdx? Availability.isFree with
      | some index => some (some (candidate + index, data.handOut kind direction request (candidate + index)))
      | none =>
        if Derives valid data.generated then
          some (some (data.generated, (data.extend kind).handOut kind direction request data.generated))
        else if data.generated + 1 < maxIndex then none else some none := by
  intro left
  induction left with
  | zero =>
    rintro candidate gap fallback fuel rfl enough
    obtain ⟨fuel, rfl⟩ := Nat.exists_eq_add_of_le' enough
    show (data.searchFrom kind direction valid request _ (fuel + 1 + 1) _ _ _).map _ = if Derives valid data.generated then _ else _
    unfold searchFrom
    by_cases inside : data.generated < maxIndex
    · rw [if_pos (decide_eq_true inside), Nat.add_zero, check_next keys room]
      by_cases derives : Derives valid data.generated
      · rw [if_pos derives, if_pos derives]
        rfl
      · rw [if_neg derives, if_neg derives]
        dsimp only [Option.bind_some]
        unfold searchFrom
        by_cases more : data.generated + 1 < maxIndex
        · rw [if_pos (decide_eq_true more), if_pos more, check_beyond gap fallback (Nat.lt_succ_self _)]
          rfl
        · have ends : ¬ decide (data.generated + 1 < maxIndex) = true := by rwa [decide_eq_true_iff]
          rw [if_neg ends, if_neg more]
          rfl
    · have ends : ¬ decide (data.generated < maxIndex) = true := by rwa [decide_eq_true_iff]
      have fails : ¬ Derives valid data.generated := fun derives => inside derives.1
      have last : ¬ data.generated + 1 < maxIndex := fun more => inside (Nat.lt_of_succ_lt more)
      rw [if_neg ends, if_neg fails, if_neg last]
      rfl
  | succ left ih =>
    intro candidate gap fallback fuel total enough
    obtain ⟨fuel, rfl⟩ := Nat.exists_eq_add_of_le' enough
    have inside : candidate < maxIndex := by omega
    rw [List.range'_succ, List.map_cons, List.findIdx?_cons]
    show (data.searchFrom kind direction valid request _ (fuel + left + 2 + 1) _ _ _).map _ = _
    unfold searchFrom
    rw [if_pos (decide_eq_true inside), check_generated keys room gap fallback (by omega)]
    by_cases free : (data.status request candidate).isFree = true
    · rw [if_pos free, if_pos free]
      rfl
    · rw [if_neg free, if_neg free]
      dsimp only [Option.bind_some]
      rw [ih (candidate + 1) _ _ (fuel + left + 2) (by omega) (by omega)]
      cases found : ((List.range' (candidate + 1) left).map (data.status request)).findIdx? Availability.isFree with
      | some index =>
        have same : candidate + 1 + index = candidate + (index + 1) := by omega
        dsimp only [Option.map_some]
        rw [same]
      | none => rfl

end

/-- The keys of one kind from a first one on. -/
theorem filter_range' (status : Nat → Availability) (keep : Availability → Bool) : ∀ (left candidate : Nat),
    match ((List.range' candidate left).map status).findIdx? keep with
    | some index => ∃ rest, (List.range' candidate left).filter (fun index => keep (status index)) = (candidate + index) :: rest
    | none => (List.range' candidate left).filter (fun index => keep (status index)) = [] := by
  intro left
  induction left with
  | zero => exact fun _ => rfl
  | succ left ih =>
    intro candidate
    rw [List.range'_succ, List.map_cons, List.findIdx?_cons, List.filter_cons]
    by_cases kept : keep (status candidate) = true
    · rw [if_pos kept, if_pos kept]
      exact ⟨_, rfl⟩
    · rw [if_neg kept, if_neg kept]
      have later := ih (candidate + 1)
      cases found : ((List.range' (candidate + 1) left).map status).findIdx? keep with
      | none =>
        rw [found] at later
        exact later
      | some index =>
        rw [found] at later
        obtain ⟨rest, same⟩ := later
        refine ⟨rest, ?_⟩
        show _ = (candidate + (index + 1)) :: rest
        rw [same, Nat.add_assoc, Nat.add_comm 1]

/-- The key that is handed out, or what becomes of the search where none can be generated. -/
theorem useNext_eq (sound : data.Sound) : data.useNext kind direction valid request =
    match choose (data.statuses request) with
    | some index => some (some (data.used + index, data.handOut kind direction request (data.used + index)))
    | none =>
      if Derives valid data.generated then
        some (some (data.generated, (data.extend kind).handOut kind direction request data.generated))
      else if gapAfter 0 (data.statuses request) < window ∨ data.generated + 1 < maxIndex then none else some none := by
  obtain ⟨keys, -, -, room, fits, -⟩ := sound
  have used : data.used ≤ data.generated := (Nat.le_add_right _ _).trans room
  have whole : data.used + (data.generated - data.used) = data.generated := Nat.add_sub_of_le used
  have fold : (List.range' data.used (data.generated - data.used)).map (data.status request) = data.statuses request := rfl
  unfold useNext choose
  rw [search_within keys room (data.generated - data.used) data.used 0 [] data.fuel whole (by unfold fuel; omega), fold]
  cases first : (within 0 (data.statuses request)).findIdx? Availability.isFree with
  | some index => rfl
  | none =>
    dsimp only [Option.none_or]
    by_cases short : gapAfter 0 (data.statuses request) < window
    · rw [if_pos short, if_pos short]
      dsimp only
      by_cases derives : Derives valid data.generated
      · rw [if_pos derives, if_pos derives]
        rfl
      · rw [if_neg derives, if_neg derives, if_pos (.inl short)]
        rfl
    rw [if_neg short, if_neg short, List.nil_append]
    dsimp only [Option.bind_some]
    obtain ⟨rest, split⟩ := within_prefix (data.statuses request) 0
    have enough : (within 0 (data.statuses request)).length + rest.length = data.generated - data.used := by
      have length := congrArg List.length split
      rwa [List.length_append, ← fold, List.length_map, List.length_range'] at length
    have parts : (List.range' data.used (within 0 (data.statuses request)).length).map (data.status request) ++
        (List.range' (data.used + (within 0 (data.statuses request)).length) rest.length).map (data.status request) =
          within 0 (data.statuses request) ++ rest := by
      rw [split, ← List.map_append, List.range'_append_1, enough, fold]
    obtain ⟨front, back⟩ := List.append_inj parts (by rw [List.length_map, List.length_range'])
    have stale := filter_range' (data.status request) (· = .staleUnconfirmed) (within 0 (data.statuses request)).length data.used
    rw [front] at stale
    cases found : (within 0 (data.statuses request)).findIdx? (· = .staleUnconfirmed) with
    | some index =>
      rw [found] at stale
      obtain ⟨more, filtered⟩ := stale
      rw [filtered]
      dsimp only [Option.some_or]
      rw [accept_eq room]
      rfl
    | none =>
      rw [found] at stale
      dsimp only [Option.none_or] at stale ⊢
      have all : (data.statuses request).findIdx? Availability.isFree =
          (rest.findIdx? Availability.isFree).map (· + (within 0 (data.statuses request)).length) := by
        rw [← split, List.findIdx?_append, first, split]
        rfl
      rw [stale, all]
      dsimp only
      rw [search_beyond keys room fits rest.length (data.used + (within 0 (data.statuses request)).length) _ [] data.fuel
        (by omega) (by unfold fuel; omega), back]
      cases beyond : rest.findIdx? Availability.isFree with
      | some index =>
        have same : data.used + (within 0 (data.statuses request)).length + index =
            data.used + (index + (within 0 (data.statuses request)).length) := by omega
        dsimp only [Option.map_some]
        rw [same]
      | none =>
        dsimp only [Option.map_none]
        by_cases derives : Derives valid data.generated
        · rw [if_pos derives, if_pos derives]
        · rw [if_neg derives, if_neg derives]
          by_cases last : data.generated + 1 < maxIndex
          · rw [if_pos last, if_pos (.inr last)]
          · rw [if_neg last, if_neg fun either => either.elim short last]

/-! ### One key handed out -/

theorem confirmedAt_eq_false (index : Nat) : data.confirmedAt index = false ↔
    ∀ element, data.map.find? index = some element → element.confirmed = ∅ := by
  unfold confirmedAt
  cases data.map.find? index with
  | none => exact iff_of_true rfl fun _ found => nomatch found
  | some element =>
    show decide _ = false ↔ _
    rw [decide_eq_false_iff_not, not_not]
    exact ⟨fun none_ _ found => Option.some.inj found ▸ none_, fun all => all element rfl⟩

theorem status_eq_used (index : Nat) : data.status request index = .used ↔ data.confirmedAt index = true := by
  unfold status confirmedAt
  cases data.map.find? index with
  | none =>
    show Availability.neverUsed = .used ↔ false = true
    decide
  | some element => exact Element.isAvailable_eq_used.trans (decide_eq_true_iff).symm

theorem confirmedAt_modify (index : Nat) {change : Element → Element} (same : ∀ element, (change element).confirmed = element.confirmed)
    (other : Nat) : { data with map := data.map.modify index change }.confirmedAt other = data.confirmedAt other := by
  unfold confirmedAt
  dsimp only
  rw [OrderedMap.find?_modify]
  split
  · next here =>
    rw [here, Option.map_map]
    congr 2
    funext element
    show decide ((change element).confirmed ≠ ∅) = _
    rw [same]
  · rfl

theorem confirmedAt_extend (keys : data.map.keys = List.range data.generated) (other : Nat) :
    (data.extend kind).confirmedAt other = data.confirmedAt other := by
  unfold confirmedAt extend
  dsimp only
  rw [OrderedMap.find?_emplace]
  split
  · next here =>
    rw [here, find?_generated keys]
    rfl
  · rfl

theorem keys_extend (keys : data.map.keys = List.range data.generated) : (data.extend kind).map.keys = List.range (data.generated + 1) := by
  have last : ∀ other ∈ data.map.keys, other < data.generated := fun other member => List.mem_range.mp (keys ▸ member)
  show ((data.map.emplace _ _).entries.map Prod.fst) = _
  rw [OrderedMap.entries_emplace_last _ last, List.map_append, List.range_succ, ← keys]
  rfl

theorem confirmedAt_handOut (index other : Nat) : (data.handOut kind direction request index).confirmedAt other = data.confirmedAt other :=
  @confirmedAt_modify data index (take kind direction request) (fun _ => rfl) other

theorem Sound.handOut (sound : data.Sound) (index : Nat) : (data.handOut kind direction request index).Sound where
  keys := (OrderedMap.keys_modify _ _ _).trans sound.keys
  confirmed other below := (confirmedAt_handOut index other).trans (sound.confirmed other below)
  floor := (confirmedAt_handOut index _).trans sound.floor
  room := sound.room
  fits := sound.fits
  allocated := sound.allocated

theorem Sound.extend (sound : data.Sound) (derives : Derives valid data.generated) : (data.extend kind).Sound where
  keys := keys_extend sound.keys
  confirmed other below := (confirmedAt_extend sound.keys other).trans (sound.confirmed other below)
  floor := (confirmedAt_extend sound.keys _).trans sound.floor
  room := sound.room.trans (Nat.le_succ _)
  fits := derives.1
  allocated := sound.allocated

theorem status_handOut {index : Nat} (present : index < data.generated) (keys : data.map.keys = List.range data.generated)
    (unused : data.status request index ≠ .used) (other : Nat) :
    (data.handOut kind direction request index).status request other = if other = index then .reserved else data.status request other := by
  obtain ⟨element, found⟩ := (find?_isSome_iff keys index).mpr present
  have unconfirmed : element.confirmed = ∅ := by
    have none_ : data.confirmedAt index = false := Bool.eq_false_iff.mpr fun used => unused ((status_eq_used index).mpr used)
    exact (confirmedAt_eq_false index).mp none_ element found
  unfold status AddressData.handOut
  dsimp only
  rw [OrderedMap.find?_modify]
  split
  · next here =>
    rw [here, found]
    exact Element.isAvailable_reserved unconfirmed (Nat.le_add_right _ _)
  · rfl

theorem map_range'_set {α : Type} (value : Nat → α) (changed : α) (start left index : Nat) :
    (List.range' start left).map (fun other => if other = start + index then changed else value other) =
      ((List.range' start left).map value).set index changed := by
  apply List.ext_getElem
  · rw [List.length_set, List.length_map, List.length_map]
  · intro position inside _
    rw [List.getElem_set, List.getElem_map, List.getElem_map, List.getElem_range', Nat.one_mul]
    by_cases here : index = position
    · rw [if_pos here, if_pos (by rw [here])]
    · rw [if_neg here, if_neg fun same => here (Nat.add_left_cancel same).symm]

theorem getElem?_statuses {index : Nat} {old : Availability} (found : (data.statuses request)[index]? = some old) :
    data.used + index < data.generated ∧ data.status request (data.used + index) = old := by
  obtain ⟨inside, same⟩ := List.getElem?_eq_some_iff.mp found
  unfold statuses at inside same
  rw [List.length_map, List.length_range'] at inside
  rw [List.getElem_map, List.getElem_range', Nat.one_mul] at same
  exact ⟨by omega, same⟩

theorem statuses_handOut {index : Nat} {old : Availability} (sound : data.Sound) (found : (data.statuses request)[index]? = some old)
    (unused : old ≠ .used) :
    (data.handOut kind direction request (data.used + index)).statuses request = (data.statuses request).set index .reserved := by
  obtain ⟨inside, same⟩ := getElem?_statuses found
  have changed : (data.handOut kind direction request (data.used + index)).status request =
      fun other => if other = data.used + index then .reserved else data.status request other := by
    funext other
    exact status_handOut inside sound.keys (same ▸ unused) other
  unfold statuses
  rw [changed]
  exact map_range'_set _ _ _ _ _

theorem status_extend {other : Nat} (below : other ≠ data.generated) :
    (data.extend kind).status request other = data.status request other := by
  unfold status extend
  dsimp only
  rw [OrderedMap.find?_emplace, if_neg below]

theorem statuses_extend (sound : data.Sound) :
    ((data.extend kind).handOut kind direction request data.generated).statuses request = data.statuses request ++ [.reserved] := by
  have unused : (data.extend kind).status request data.generated ≠ .used := by
    have fresh : data.confirmedAt data.generated = false := by
      unfold confirmedAt
      rw [find?_generated sound.keys]
      rfl
    intro used
    have confirmed := (status_eq_used _).mp used
    rw [confirmedAt_extend sound.keys, fresh] at confirmed
    cases confirmed
  have changed (other : Nat) : ((data.extend kind).handOut kind direction request data.generated).status request other =
      if other = data.generated then .reserved else (data.extend kind).status request other :=
    status_handOut (Nat.lt_succ_self _) (keys_extend sound.keys) unused other
  have room := sound.room
  have one : data.generated + 1 - data.used = data.generated - data.used + 1 := by omega
  show (List.range' data.used (data.generated + 1 - data.used)).map _ = _
  rw [one, List.range'_1_concat, List.map_append, Nat.add_sub_of_le (by omega)]
  congr 1
  · apply List.map_congr_left
    intro other member
    have below := (List.mem_range'_1.mp member).2
    rw [changed, if_neg (by omega), status_extend (by omega)]
  · show [_] = [_]
    rw [changed, if_pos rfl]

/-! ## Any number of keys -/

/-- Every key that has to be generated can be. Past the gap limit the search ends with the last key there is. -/
def Enough (valid : Nat → Bool) (batch : Nat) (statuses : List Availability) (generated : Nat) : Prop :=
  ∀ more < batch,
    (more < window - gapAfter 0 statuses → more < batch - freeKeys statuses → Derives valid (generated + more)) ∧
    (window - gapAfter 0 statuses ≤ more → more < batch - freeKeys statuses - staleKeys statuses →
      generated + more + 1 < maxIndex → valid (generated + more) = true)

instance (batch : Nat) (statuses : List Availability) (generated : Nat) : Decidable (Enough valid batch statuses generated) := by
  unfold Enough
  infer_instance

/-- What one key that is handed out leaves. -/
structure Gives (data : AddressData) (request : Request) (index : Nat) (next : AddressData) : Prop where
  sound : next.Sound
  used : next.used = data.used
  free : data.status request index ≠ .used ∧ data.status request index ≠ .reserved
  taken : ∃ element, next.map.find? index = some element ∧ element.timestamp = request.now ∧ element.confirmed = ∅
  others : ∀ other ≠ index, next.map.find? other = data.map.find? other

theorem handOut_gives {index : Nat} {element : Element} (sound : data.Sound) (found : data.map.find? index = some element)
    (free : data.status request index ≠ .used ∧ data.status request index ≠ .reserved) :
    Gives data request index (data.handOut kind direction request index) where
  sound := sound.handOut index
  used := rfl
  free
  taken := by
    have none_ : data.confirmedAt index = false := Bool.eq_false_iff.mpr fun used => free.1 ((status_eq_used index).mpr used)
    refine ⟨take kind direction request element, ?_, rfl, (confirmedAt_eq_false index).mp none_ element found⟩
    show (data.map.modify index _).find? index = _
    rw [OrderedMap.find?_modify, if_pos rfl, found]
    rfl
  others other different := by
    show (data.map.modify index _).find? other = _
    rw [OrderedMap.find?_modify, if_neg different]

theorem extend_gives (sound : data.Sound) (derives : Derives valid data.generated) :
    Gives data request data.generated ((data.extend kind).handOut kind direction request data.generated) where
  sound := (sound.extend derives).handOut _
  used := rfl
  free := by
    have fresh : data.status request data.generated = .neverUsed := by
      unfold status
      rw [find?_generated sound.keys]
      rfl
    rw [fresh]
    decide
  taken := by
    refine ⟨take kind direction request { contact := kind.getContact }, ?_, rfl, rfl⟩
    show ((data.map.emplace data.generated _).modify data.generated _).find? data.generated = _
    rw [OrderedMap.find?_modify, if_pos rfl, OrderedMap.find?_emplace, if_pos rfl, find?_generated sound.keys]
    rfl
  others other different := by
    show ((data.map.emplace data.generated _).modify data.generated _).find? other = _
    rw [OrderedMap.find?_modify, if_neg different, OrderedMap.find?_emplace, if_neg different]

theorem useNext_gives (sound : data.Sound) {index : Nat} {next : AddressData}
    (given : data.useNext kind direction valid request = some (some (index, next))) : Gives data request index next := by
  rw [useNext_eq sound] at given
  cases chosen : choose (data.statuses request) with
  | some position =>
    rw [chosen] at given
    obtain ⟨rfl, rfl⟩ := Prod.mk.inj (Option.some.inj (Option.some.inj given))
    obtain ⟨old, found, unused, unreserved, _⟩ := choose_some chosen
    obtain ⟨inside, same⟩ := getElem?_statuses found
    obtain ⟨element, present⟩ := (find?_isSome_iff sound.keys _).mpr inside
    exact handOut_gives sound present ⟨same ▸ unused, same ▸ unreserved⟩
  | none =>
    rw [chosen] at given
    dsimp only at given
    split at given
    · next derives =>
      obtain ⟨rfl, rfl⟩ := Prod.mk.inj (Option.some.inj (Option.some.inj given))
      exact extend_gives sound derives
    · split at given
      · cases given
      · cases given

section

variable {batch : Nat} {before after : List Availability} {generated : Nat}

/-- With a key that was generated goes the request for it. -/
theorem enough_congr (gap : gapAfter 0 after = gapAfter 0 before)
    (counts : (freeKeys after + 1 = freeKeys before ∧ staleKeys after = staleKeys before) ∨
      (window ≤ gapAfter 0 before ∧ freeKeys after = freeKeys before ∧ staleKeys after + 1 = staleKeys before)) :
    Enough valid batch after generated ↔ Enough valid (batch + 1) before generated := by
  unfold Enough
  rw [gap]
  constructor
  · intro enough more below
    constructor
    · intro short free
      exact (enough more (by omega)).1 short (by omega)
    · intro reached stale last
      exact (enough more (by omega)).2 reached (by omega) last
  · intro enough more below
    constructor
    · intro short free
      exact (enough more (by omega)).1 short (by omega)
    · intro reached stale last
      exact (enough more (by omega)).2 reached (by omega) last

theorem enough_append (noFree : freeKeys before = 0) (derives : Derives valid generated) :
    Enough valid batch (before ++ [.reserved]) (generated + 1) ↔ Enough valid (batch + 1) before generated := by
  have gap : window - gapAfter 0 (before ++ [.reserved]) = window - gapAfter 0 before - 1 := by
    rw [gapAfter_append]
    split
    · omega
    · omega
  unfold Enough
  rw [gap, freeKeys_append, staleKeys_append, noFree]
  constructor
  · intro enough more below
    cases more with
    | zero => exact ⟨fun _ _ => derives, fun _ _ _ => derives.2⟩
    | succ more =>
      have shifted : generated + 1 + more = generated + (more + 1) := by omega
      have later := enough more (by omega)
      rw [shifted] at later
      exact ⟨fun short _ => later.1 (by omega) (by omega), fun reached stale last => later.2 (by omega) (by omega) last⟩
  · intro enough more below
    have shifted : generated + 1 + more = generated + (more + 1) := by omega
    have later := enough (more + 1) (by omega)
    rw [shifted]
    exact ⟨fun short _ => later.1 (by omega) (by omega), fun reached stale last => later.2 (by omega) (by omega) last⟩

theorem not_enough (noFree : freeKeys before = 0) (short : gapAfter 0 before < window ∨ staleKeys before = 0) (fails : ¬ Derives valid generated) :
    Enough valid (batch + 1) before generated ↔ ¬ (gapAfter 0 before < window ∨ generated + 1 < maxIndex) := by
  constructor
  · rintro enough (below | last)
    · exact fails ((enough 0 (Nat.succ_pos _)).1 (by omega) (by omega))
    · by_cases below : gapAfter 0 before < window
      · exact fails ((enough 0 (Nat.succ_pos _)).1 (by omega) (by omega))
      · have noStale := short.resolve_left below
        exact fails ⟨by omega, (enough 0 (Nat.succ_pos _)).2 (by omega) (by omega) last⟩
  · intro neither more _
    obtain ⟨reached, last⟩ := not_or.mp neither
    exact ⟨fun short => by omega, fun _ _ further => by omega⟩

end

/-- One key more can be handed out if the next can be generated where it has to. -/
theorem enough_succ (sound : data.Sound) (batch : Nat) : Enough valid (batch + 1) (data.statuses request) data.generated ↔
    ∃ outcome, data.useNext kind direction valid request = some outcome ∧
      ∀ given ∈ outcome, Enough valid batch (given.2.statuses request) given.2.generated := by
  have one {given : Nat × AddressData} {enough : Prop} (same : Enough valid batch (given.2.statuses request) given.2.generated ↔ enough) :
      enough ↔ ∃ outcome, some (some given) = some outcome ∧
        ∀ given ∈ outcome, Enough valid batch (given.2.statuses request) given.2.generated := by
    rw [← same]
    constructor
    · exact fun enough => ⟨_, rfl, fun other member => Option.some.inj member ▸ enough⟩
    · rintro ⟨outcome, given, enough⟩
      exact enough _ (Option.some.inj given).symm
  rw [useNext_eq sound]
  cases chosen : choose (data.statuses request) with
  | some position =>
    obtain ⟨old, found, unused, unreserved, gap, counts⟩ := choose_some chosen
    apply one
    rw [statuses_handOut sound found unused]
    exact enough_congr gap counts
  | none =>
    obtain ⟨noFree, short⟩ := choose_none chosen
    dsimp only
    by_cases derives : Derives valid data.generated
    · rw [if_pos derives]
      apply one
      rw [statuses_extend sound]
      exact enough_append noFree derives
    · rw [if_neg derives, not_enough noFree short derives]
      split
      · next fails => exact iff_of_false (not_not_intro fails) fun ⟨_, never, _⟩ => nomatch never
      · next ends => exact iff_of_true ends ⟨none, rfl, fun _ member => nomatch member⟩

/-- The keys that were handed out one after the other. -/
structure Reserves (data : AddressData) (request : Request) (keys : List Nat) (after : AddressData) : Prop where
  sound : after.Sound
  used : after.used = data.used
  nodup : keys.Nodup
  free : ∀ index ∈ keys, data.status request index ≠ .used ∧ data.status request index ≠ .reserved
  taken : ∀ index ∈ keys, ∃ element, after.map.find? index = some element ∧ element.timestamp = request.now ∧ element.confirmed = ∅
  others : ∀ other, other ∉ keys → after.map.find? other = data.map.find? other

theorem status_of_taken {index : Nat} {element : Element} (found : data.map.find? index = some element) (now : element.timestamp = request.now)
    (unused : element.confirmed = ∅) : data.status request index = .reserved := by
  unfold status
  rw [found]
  exact Element.isAvailable_reserved unused (now ▸ Nat.le_add_right _ _)

theorem reserve_reserves (batch : Nat) : ∀ {data after : AddressData} {keys : List Nat}, data.Sound →
    reserve kind direction valid request batch data = some (keys, after) → Reserves data request keys after := by
  have nothing {data : AddressData} (sound : data.Sound) : Reserves data request [] data :=
    { sound, used := rfl, nodup := List.nodup_nil, free := fun _ member => absurd member List.not_mem_nil,
      taken := fun _ member => absurd member List.not_mem_nil, others := fun _ _ => rfl }
  induction batch with
  | zero =>
    intro data after keys sound done
    obtain ⟨rfl, rfl⟩ := Prod.mk.inj (Option.some.inj done)
    exact nothing sound
  | succ batch ih =>
    intro data after keys sound done
    obtain ⟨outcome, given, rest⟩ := Option.bind_eq_some_iff.mp done
    cases outcome with
    | none =>
      obtain ⟨rfl, rfl⟩ := Prod.mk.inj (Option.some.inj rest)
      exact nothing sound
    | some given_ =>
      obtain ⟨index, next⟩ := given_
      obtain ⟨⟨later, last⟩, reserved, same⟩ := Option.map_eq_some_iff.mp rest
      obtain ⟨rfl, rfl⟩ := Prod.mk.inj same
      have first := useNext_gives sound given
      have more := ih first.sound reserved
      obtain ⟨element, found, now, unused⟩ := first.taken
      have fresh : index ∉ later := fun member => (more.free index member).2 (status_of_taken found now unused)
      have unchanged {other : Nat} (member : other ∈ later) : next.status request other = data.status request other := by
        unfold status
        rw [first.others other fun same => fresh (same ▸ member)]
      exact
        { sound := more.sound
          used := more.used.trans first.used
          nodup := List.nodup_cons.mpr ⟨fresh, more.nodup⟩
          free := List.forall_mem_cons.mpr ⟨first.free, fun other member => unchanged member ▸ more.free other member⟩
          taken := List.forall_mem_cons.mpr ⟨⟨element, (more.others index fresh).trans found, now, unused⟩, more.taken⟩
          others := fun other outside =>
            (more.others other (List.not_mem_of_not_mem_cons outside)).trans (first.others other (List.ne_of_not_mem_cons outside)) }

/-- The program goes on exactly if every key that has to be generated can be. -/
theorem reserve_iff (batch : Nat) : ∀ {data : AddressData}, data.Sound →
    ((∃ done, reserve kind direction valid request batch data = some done) ↔ Enough valid batch (data.statuses request) data.generated) := by
  induction batch with
  | zero => exact fun _ => iff_of_true ⟨_, rfl⟩ fun _ below => absurd below (Nat.not_lt_zero _)
  | succ batch ih =>
    intro data sound
    rw [enough_succ sound batch]
    constructor
    · rintro ⟨done, reserved⟩
      obtain ⟨outcome, given, rest⟩ := Option.bind_eq_some_iff.mp reserved
      refine ⟨outcome, given, fun one member => ?_⟩
      obtain rfl := member
      obtain ⟨_, later, _⟩ := Option.map_eq_some_iff.mp rest
      exact (ih (useNext_gives sound given).sound).mp ⟨_, later⟩
    · rintro ⟨outcome, given, enough⟩
      unfold reserve
      rw [given]
      cases outcome with
      | none => exact ⟨_, rfl⟩
      | some one =>
        obtain ⟨done, later⟩ := (ih (useNext_gives sound given).sound).mpr (enough one rfl)
        refine ⟨(one.1 :: done.1, done.2), ?_⟩
        show (reserve kind direction valid request batch one.2).map _ = _
        rw [later]
        rfl

/-! ### Where everything can be generated -/

theorem useNext_all (sound : data.Sound) {one : Nat × AddressData} (given : data.useNext kind direction valid request = some (some one)) :
    data.useNext kind direction (fun _ => true) request = some (some one) := by
  rw [useNext_eq sound] at given ⊢
  cases chosen : choose (data.statuses request) with
  | some position =>
    rw [chosen] at given
    exact given
  | none =>
    rw [chosen] at given
    dsimp only at given ⊢
    by_cases derives : Derives valid data.generated
    · have space : Derives (fun _ => true) data.generated := ⟨derives.1, rfl⟩
      rw [if_pos derives] at given
      rw [if_pos space]
      exact given
    · rw [if_neg derives] at given
      split at given
      · cases given
      · cases given

theorem Enough.all {batch generated : Nat} {statuses : List Availability} (enough : Enough valid batch statuses generated) :
    Enough (fun _ => true) batch statuses generated :=
  fun more below => ⟨fun short free => ⟨((enough more below).1 short free).1, rfl⟩, fun _ _ _ => rfl⟩

/-- A key that cannot be generated makes the keys fewer, and nothing else. -/
theorem reserve_prefix (batch : Nat) : ∀ {data after : AddressData} {keys : List Nat}, data.Sound →
    reserve kind direction valid request batch data = some (keys, after) →
      ∃ all, reserve kind direction (fun _ => true) request batch data = some all ∧ keys <+: all.1 := by
  induction batch with
  | zero =>
    intro data after keys sound done
    obtain ⟨rfl, rfl⟩ := Prod.mk.inj (Option.some.inj done)
    exact ⟨_, rfl, List.prefix_rfl⟩
  | succ batch ih =>
    intro data after keys sound done
    obtain ⟨outcome, given, rest⟩ := Option.bind_eq_some_iff.mp done
    cases outcome with
    | none =>
      obtain ⟨rfl, rfl⟩ := Prod.mk.inj (Option.some.inj rest)
      obtain ⟨all, done⟩ := (reserve_iff (batch + 1) sound).mpr ((reserve_iff (batch + 1) sound).mp ⟨_, done⟩).all
      exact ⟨all, done, List.nil_prefix⟩
    | some one =>
      obtain ⟨⟨later, last⟩, reserved, same⟩ := Option.map_eq_some_iff.mp rest
      obtain ⟨rfl, rfl⟩ := Prod.mk.inj same
      obtain ⟨all, done, shorter⟩ := ih (useNext_gives sound given).sound reserved
      refine ⟨(one.1 :: all.1, all.2), ?_, (List.prefix_cons_inj one.1).mpr shorter⟩
      show (data.useNext kind direction _ request).bind _ = _
      rw [useNext_all sound given]
      show (reserve kind direction _ request batch one.2).map _ = _
      rw [done]
      rfl

end AddressData

end Opentxs.Subaccount
