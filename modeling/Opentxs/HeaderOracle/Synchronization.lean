import Opentxs.HeaderOracle.BlockHeader
import Opentxs.Library.Machine
import Opentxs.Library.Ordered
import Opentxs.Library.SortedList

/-! The height that the oracle wants to reach: what peers report, what announced blocks that are
not stored yet ask for, and what is left of both when known hashes are pruned. -/

namespace Opentxs.HeaderOracle.Synchronization
open Library Ordered BlockHeader

def maxHeight : Int := 2 ^ 63 - 1

def tolerance : Int := 2

/-- Of the database there are the hashes of the stored headers, of the best position its height. -/
structure HeaderOraclePrivate where
  checkpointHeight : Int
  stored : List Hash
  best : Int
  unknownHashes : OrderedMap Int (List Hash)
  unknownHashIndex : OrderedMap Hash Int
  highestPeerHeight : Int
  effectiveRemoteHeight : Int

namespace HeaderOraclePrivate

def construct (checkpointHeight : Int) (stored : List Hash) (best : Int) : HeaderOraclePrivate where
  checkpointHeight
  stored
  best
  unknownHashes := .empty
  unknownHashIndex := .empty
  highestPeerHeight := checkpointHeight
  effectiveRemoteHeight := checkpointHeight

def isSynchronized (oracle : HeaderOraclePrivate) : Bool := oracle.best ≥ oracle.effectiveRemoteHeight

def addUnknownHash (hash : Hash) (oracle : HeaderOraclePrivate) : HeaderOraclePrivate :=
  { oracle with
    unknownHashes := oracle.unknownHashes.assign oracle.best
      (SortedList.insertSorted hash ((oracle.unknownHashes.find? oracle.best).getD []))
    unknownHashIndex := oracle.unknownHashIndex.assign hash oracle.best
    effectiveRemoteHeight := maxHeight }

def updateRemoteHeight (value : Int) (oracle : HeaderOraclePrivate) : HeaderOraclePrivate :=
  let peer := max oracle.highestPeerHeight value
  let effective := if oracle.effectiveRemoteHeight = maxHeight then -1 else oracle.effectiveRemoteHeight
  { oracle with highestPeerHeight := peer, effectiveRemoteHeight := max effective peer }

/-- A set that loses its last hash goes with it. -/
def withoutHash (oracle : HeaderOraclePrivate) (hash : Hash) (height : Int) (set : List Hash) : HeaderOraclePrivate :=
  let rest := SortedList.remove hash set
  { oracle with
    unknownHashes := if rest = [] then oracle.unknownHashes.erase height else oracle.unknownHashes.assign height rest
    unknownHashIndex := oracle.unknownHashIndex.erase hash }

/-- An indexed hash without a set aborts. -/
def pruneStored : List (Hash × Int) → HeaderOraclePrivate → Option HeaderOraclePrivate
  | [], oracle => some oracle
  | (hash, height) :: entries, oracle =>
    if hash ∈ oracle.stored then do
      let set ← oracle.unknownHashes.find? height
      pruneStored entries (oracle.withoutHash hash height set)
    else pruneStored entries oracle

def pruneUnknown (oracle : HeaderOraclePrivate) : HeaderOraclePrivate :=
  let target := oracle.best + tolerance
  { oracle with
    unknownHashes := oracle.unknownHashes.keepAbove target
    unknownHashIndex := oracle.unknownHashIndex.eraseAll ((oracle.unknownHashes.keepUpTo target).entries.flatMap Prod.snd) }

def resetTarget (oracle : HeaderOraclePrivate) : HeaderOraclePrivate :=
  if oracle.unknownHashIndex.isEmpty ∧ oracle.effectiveRemoteHeight = maxHeight then
    { oracle with effectiveRemoteHeight := oracle.checkpointHeight }
  else oracle

def pruneKnownHashes (oracle : HeaderOraclePrivate) : Option HeaderOraclePrivate :=
  (pruneStored oracle.unknownHashIndex.entries oracle).map fun oracle => oracle.pruneUnknown.resetTarget

end HeaderOraclePrivate

/-! ## Runs -/

inductive Event
  | updateRemoteHeight (value : Int)
  | addUnknownHash (hash : Hash)
  | bestTip (height : Int)
  | storeHeader (hash : Hash)
  | pruneKnownHashes
  deriving DecidableEq

/-- The oracle with what it was told: every height that was reported, and the announced hashes with the
best height at that time, until the header is stored or the best tip is the tolerance above. -/
structure Session where
  oracle : HeaderOraclePrivate
  reported : List Int
  awaited : List (Hash × Int)

namespace Session

def begin (checkpointHeight : Int) (stored : List Hash) (best : Int) : Session :=
  ⟨.construct checkpointHeight stored best, [], []⟩

def moveBest (height : Int) (session : Session) : Session where
  oracle := { session.oracle with best := height }
  reported := session.reported
  awaited := session.awaited.filter fun entry => height < entry.2 + tolerance

def announced (hash : Hash) (session : Session) : List (Hash × Int) :=
  let others := session.awaited.filter fun entry => entry.1 ≠ hash
  if hash ∈ session.oracle.stored then others else (hash, session.oracle.best) :: others

def step : Event → Session → Option Session
  | .updateRemoteHeight value, session => some
    { session with oracle := session.oracle.updateRemoteHeight value, reported := value :: session.reported }
  | .addUnknownHash hash, session => some
    { session with oracle := session.oracle.addUnknownHash hash, awaited := session.announced hash }
  | .bestTip height, session => some (session.moveBest height)
  | .storeHeader hash, session => some
    { session with
      oracle := { session.oracle with stored := hash :: session.oracle.stored }
      awaited := session.awaited.filter fun entry => entry.1 ≠ hash }
  | .pruneKnownHashes, session => session.oracle.pruneKnownHashes.map fun oracle => { session with oracle }

end Session

def machine : Machine Session Event := ⟨Session.step⟩

/-! ## Hashes and their index -/

namespace HeaderOraclePrivate

variable {oracle before after : HeaderOraclePrivate} {hash : Hash} {height : Int}

def Recorded (oracle : HeaderOraclePrivate) (height : Int) (hash : Hash) : Prop :=
  ∃ set, oracle.unknownHashes.find? height = some set ∧ hash ∈ set

/-- Each indexed hash is in the set of its height. -/
def Indexed (oracle : HeaderOraclePrivate) : Prop :=
  ∀ hash height, oracle.unknownHashIndex.find? hash = some height → oracle.Recorded height hash

/-- Some set of a height up to the tolerance above the best one has the hash. -/
def Forgotten (oracle : HeaderOraclePrivate) (hash : Hash) : Prop :=
  ∃ sets ∈ (oracle.unknownHashes.keepUpTo (oracle.best + tolerance)).entries, hash ∈ sets.2

instance (oracle : HeaderOraclePrivate) (hash : Hash) : Decidable (oracle.Forgotten hash) :=
  inferInstanceAs (Decidable (∃ sets ∈ (oracle.unknownHashes.keepUpTo (oracle.best + tolerance)).entries, hash ∈ sets.2))

theorem forgotten_iff : oracle.Forgotten hash ↔ ∃ height, height ≤ oracle.best + tolerance ∧ oracle.Recorded height hash := by
  constructor
  · rintro ⟨⟨height, set⟩, member, inside⟩
    have found := (OrderedMap.find?_eq_some _ height set).mpr member
    rw [OrderedMap.find?_keepUpTo] at found
    obtain ⟨low, found⟩ := Option.ite_none_right_eq_some.mp found
    exact ⟨height, low, set, found, inside⟩
  · rintro ⟨height, low, set, found, inside⟩
    refine ⟨(height, set), (OrderedMap.find?_eq_some _ height set).mp ?_, inside⟩
    rw [OrderedMap.find?_keepUpTo, if_pos low]
    exact found

theorem indexed_construct (checkpointHeight : Int) (stored : List Hash) (best : Int) :
    (construct checkpointHeight stored best).Indexed := by
  intro hash height found
  cases found

theorem recorded_addUnknownHash (new : Hash) :
    (oracle.addUnknownHash new).Recorded height hash ↔ oracle.Recorded height hash ∨ height = oracle.best ∧ hash = new := by
  simp only [Recorded, addUnknownHash, OrderedMap.find?_assign]
  by_cases here : height = oracle.best
  · subst here
    simp only [if_true, Option.some.injEq, exists_eq_left', SortedList.mem_insertSorted, true_and]
    cases oracle.unknownHashes.find? oracle.best with
    | none => simp
    | some set =>
      simp only [Option.getD_some, Option.some.injEq, exists_eq_left']
      exact or_comm
  · simp [here]

theorem Indexed.addUnknownHash (indexed : oracle.Indexed) (new : Hash) : (oracle.addUnknownHash new).Indexed := by
  intro hash height found
  rw [recorded_addUnknownHash]
  change (oracle.unknownHashIndex.assign new oracle.best).find? hash = some height at found
  rw [OrderedMap.find?_assign] at found
  split at found
  · next same =>
    cases found
    exact .inr ⟨rfl, same⟩
  · exact .inl (indexed hash height found)

theorem recorded_withoutHash {set : List Hash} {known : Hash} {at_height : Int}
    (found : oracle.unknownHashes.find? at_height = some set) :
    (oracle.withoutHash known at_height set).Recorded height hash ↔
      oracle.Recorded height hash ∧ ¬(height = at_height ∧ hash = known) := by
  simp only [Recorded, withoutHash]
  by_cases here : height = at_height
  · subst here
    have gone : SortedList.remove known set = [] → ∀ other ∈ set, other = known := by
      intro empty other member
      by_contra differs
      have stays := (SortedList.mem_remove known other set).mpr ⟨member, differs⟩
      rw [empty] at stays
      cases stays
    split
    · next empty =>
      rw [OrderedMap.find?_erase, found]
      simp only [if_true, reduceCtorEq, false_and, exists_false, Option.some.injEq, exists_eq_left', true_and, false_iff, not_and, not_not]
      exact gone empty hash
    · rw [OrderedMap.find?_assign, found]
      simp
  · split
    · simp [OrderedMap.find?_erase, here]
    · simp [OrderedMap.find?_assign, here]

theorem Indexed.withoutHash {set : List Hash} {known : Hash} {at_height : Int} (indexed : oracle.Indexed)
    (found : oracle.unknownHashes.find? at_height = some set) : (oracle.withoutHash known at_height set).Indexed := by
  intro hash height index
  rw [recorded_withoutHash found]
  change (oracle.unknownHashIndex.erase known).find? hash = some height at index
  rw [OrderedMap.find?_erase] at index
  split at index
  · cases index
  · next other => exact ⟨indexed hash height index, fun same => other same.2⟩

/-- What pruning the stored hashes changes. -/
structure Pruned (before after : HeaderOraclePrivate) (entries : List (Hash × Int)) : Prop where
  indexed : after.Indexed
  index : ∀ hash, after.unknownHashIndex.find? hash =
    if hash ∈ before.stored ∧ hash ∈ entries.map Prod.fst then none else before.unknownHashIndex.find? hash
  recorded : ∀ height hash, hash ∉ before.stored → (after.Recorded height hash ↔ before.Recorded height hash)
  same : after = { before with unknownHashes := after.unknownHashes, unknownHashIndex := after.unknownHashIndex }

/-- An indexed hash has its set until the hash itself is taken out. -/
theorem Indexed.pruneStored (entries : List (Hash × Int)) : ∀ {oracle : HeaderOraclePrivate}, oracle.Indexed →
    (entries.map Prod.fst).Nodup → (∀ entry ∈ entries, oracle.unknownHashIndex.find? entry.1 = some entry.2) →
    ∃ after, oracle.pruneStored entries = some after ∧ Pruned oracle after entries := by
  induction entries with
  | nil =>
    intro oracle indexed _ _
    exact ⟨oracle, rfl, indexed, fun hash => by simp, fun _ _ _ => Iff.rfl, rfl⟩
  | cons entry entries ih =>
    intro oracle indexed distinct listed
    rw [List.map_cons, List.nodup_cons] at distinct
    obtain ⟨here, later⟩ := List.forall_mem_cons.mp listed
    unfold HeaderOraclePrivate.pruneStored
    by_cases known : entry.1 ∈ oracle.stored
    · obtain ⟨set, found, _⟩ := indexed entry.1 entry.2 here
      have without : (oracle.withoutHash entry.1 entry.2 set).Indexed := indexed.withoutHash found
      obtain ⟨after, done, pruned⟩ := ih without distinct.2 (by
        intro other member
        have apart : other.1 ≠ entry.1 := fun same => distinct.1 (same ▸ List.mem_map_of_mem member)
        show (oracle.unknownHashIndex.erase entry.1).find? other.1 = some other.2
        rw [OrderedMap.find?_erase, if_neg apart]
        exact later other member)
      refine ⟨after, ?_, pruned.indexed, ?_, ?_, ?_⟩
      · simp only [if_pos known, found]
        exact done
      · intro hash
        rw [pruned.index hash]
        show (if hash ∈ oracle.stored ∧ hash ∈ entries.map Prod.fst then none
          else (oracle.unknownHashIndex.erase entry.1).find? hash) = _
        rw [OrderedMap.find?_erase, List.map_cons]
        by_cases same : hash = entry.1
        · rw [if_pos same, ite_self, if_pos ⟨same ▸ known, same ▸ List.mem_cons_self⟩]
        · rw [if_neg same]
          simp only [List.mem_cons, same, false_or]
      · intro height hash unknown
        rw [pruned.recorded height hash unknown, recorded_withoutHash found]
        exact and_iff_left fun same => unknown (same.2 ▸ known)
      · rw [pruned.same]
        rfl
    · obtain ⟨after, done, pruned⟩ := ih indexed distinct.2 later
      refine ⟨after, ?_, pruned.indexed, ?_, pruned.recorded, pruned.same⟩
      · simp only [if_neg known]
        exact done
      · intro hash
        rw [pruned.index hash, List.map_cons]
        by_cases same : hash = entry.1
        · rw [if_neg fun both => known (same ▸ both.1), if_neg fun both => known (same ▸ both.1)]
        · simp only [List.mem_cons, same, false_or]

theorem recorded_pruneUnknown :
    oracle.pruneUnknown.Recorded height hash ↔ oracle.best + tolerance < height ∧ oracle.Recorded height hash := by
  show (∃ set, (oracle.unknownHashes.keepAbove (oracle.best + tolerance)).find? height = some set ∧ hash ∈ set) ↔ _
  rw [OrderedMap.find?_keepAbove]
  by_cases above : oracle.best + tolerance < height
  · simp [above, Recorded]
  · simp [above]

theorem index_pruneUnknown (hash : Hash) : oracle.pruneUnknown.unknownHashIndex.find? hash =
    if oracle.Forgotten hash then none else oracle.unknownHashIndex.find? hash := by
  show (oracle.unknownHashIndex.eraseAll _).find? hash = _
  rw [OrderedMap.find?_eraseAll]
  exact if_congr List.mem_flatMap rfl rfl

theorem Indexed.pruneUnknown (indexed : oracle.Indexed) : oracle.pruneUnknown.Indexed := by
  intro hash height index
  rw [index_pruneUnknown] at index
  obtain ⟨kept, index⟩ := Option.ite_none_left_eq_some.mp index
  have recorded := indexed hash height index
  refine recorded_pruneUnknown.mpr ⟨?_, recorded⟩
  by_contra low
  exact kept (forgotten_iff.mpr ⟨height, not_lt.mp low, recorded⟩)

/-- No indexed hash outlasts the pruning, so the sentinel goes. -/
def Resets (oracle : HeaderOraclePrivate) : Prop :=
  oracle.effectiveRemoteHeight = maxHeight ∧
    ∀ entry ∈ oracle.unknownHashIndex.entries, entry.1 ∈ oracle.stored ∨ oracle.Forgotten entry.1

instance (oracle : HeaderOraclePrivate) : Decidable oracle.Resets :=
  inferInstanceAs (Decidable (oracle.effectiveRemoteHeight = maxHeight ∧
    ∀ entry ∈ oracle.unknownHashIndex.entries, entry.1 ∈ oracle.stored ∨ oracle.Forgotten entry.1))

/-- The pruning never aborts, and touches the target only where it resets it. -/
theorem Indexed.pruneKnownHashes (indexed : oracle.Indexed) : ∃ after, oracle.pruneKnownHashes = some after ∧ after.Indexed ∧
    after = { oracle with
      unknownHashes := after.unknownHashes
      unknownHashIndex := after.unknownHashIndex
      effectiveRemoteHeight := if oracle.Resets then oracle.checkpointHeight else oracle.effectiveRemoteHeight } := by
  have distinct : (oracle.unknownHashIndex.entries.map Prod.fst).Nodup :=
    List.pairwise_map.mpr (oracle.unknownHashIndex.sorted.imp fun below => below.ne)
  obtain ⟨middle, done, pruned⟩ := indexed.pruneStored oracle.unknownHashIndex.entries distinct
    fun entry member => (OrderedMap.find?_eq_some _ entry.1 entry.2).mpr member
  have left (hash : Hash) (unknown : hash ∉ oracle.stored) : middle.Forgotten hash ↔ oracle.Forgotten hash := by
    rw [forgotten_iff, forgotten_iff, pruned.same]
    exact exists_congr fun height => and_congr_right fun _ => pruned.recorded height hash unknown
  have empty : middle.pruneUnknown.unknownHashIndex.isEmpty = true ↔
      ∀ entry ∈ oracle.unknownHashIndex.entries, entry.1 ∈ oracle.stored ∨ oracle.Forgotten entry.1 := by
    rw [OrderedMap.isEmpty_iff]
    constructor
    · intro none entry member
      by_contra neither
      obtain ⟨unknown, kept⟩ := not_or.mp neither
      have gone := none entry.1
      rw [index_pruneUnknown, if_neg fun lost => kept ((left entry.1 unknown).mp lost), pruned.index,
        if_neg fun both => unknown both.1, (OrderedMap.find?_eq_some _ entry.1 entry.2).mpr member] at gone
      cases gone
    · intro each hash
      rw [index_pruneUnknown, pruned.index]
      cases found : oracle.unknownHashIndex.find? hash with
      | none => rw [ite_self, ite_self]
      | some height =>
        have member := (OrderedMap.find?_eq_some _ hash height).mp found
        by_cases known : hash ∈ oracle.stored
        · rw [if_pos (⟨known, List.mem_map_of_mem member⟩ : _ ∧ hash ∈ oracle.unknownHashIndex.entries.map Prod.fst), ite_self]
        · rw [if_pos ((left hash known).mpr ((each (hash, height) member).resolve_left known))]
  have sentinel : middle.pruneUnknown.effectiveRemoteHeight = oracle.effectiveRemoteHeight := by
    show middle.effectiveRemoteHeight = _
    rw [pruned.same]
  refine ⟨middle.pruneUnknown.resetTarget, ?_, ?_, ?_⟩
  · rw [HeaderOraclePrivate.pruneKnownHashes, done]
    rfl
  · rw [resetTarget]
    split
    · exact pruned.indexed.pruneUnknown
    · exact pruned.indexed.pruneUnknown
  · have resets : (middle.pruneUnknown.unknownHashIndex.isEmpty ∧ middle.pruneUnknown.effectiveRemoteHeight = maxHeight) ↔
        oracle.Resets := by
      rw [empty, sentinel, Resets, and_comm]
    rw [resetTarget]
    simp only [resets]
    split
    · rw [HeaderOraclePrivate.pruneUnknown, pruned.same]
    · rw [HeaderOraclePrivate.pruneUnknown, pruned.same]

end HeaderOraclePrivate

/-! ## The target along a run -/

variable {session next : Session} {event : Event}

/-- Synchronized means that every reported height is reached and nothing announced is missing. -/
structure Kept (session : Session) : Prop where
  reported : session.oracle.isSynchronized = true → ∀ value ∈ session.reported, value ≤ session.oracle.best
  awaited : session.awaited ≠ [] → session.oracle.isSynchronized = false

/-- It is so now, and whatever the best tip becomes next. -/
structure Right (session : Session) : Prop where
  now : Kept session
  next : ∀ height, height < maxHeight → Kept (session.moveBest height)

/-- Heights have 64 bits, and the tolerance can be added to a best height. -/
def Valid : Event → Session → Prop
  | .updateRemoteHeight value, _ => value ≤ maxHeight
  | .bestTip height, _ => height + tolerance ≤ maxHeight
  | _, _ => True

/-- The sentinel is not given up for a height that an announced hash or a peer still exceeds. -/
def Harmless : Event → Session → Prop
  | .updateRemoteHeight value, session => session.oracle.effectiveRemoteHeight = maxHeight →
      ∀ entry ∈ session.awaited, entry.2 + tolerance ≤ max (-1) (max session.oracle.highestPeerHeight value)
  | .pruneKnownHashes, session => session.oracle.Resets →
      session.oracle.highestPeerHeight ≤ session.oracle.checkpointHeight ∧
        ∀ entry ∈ session.awaited, entry.2 + tolerance ≤ session.oracle.checkpointHeight
  | _, _ => True

/-- What every run keeps. -/
structure Sound (session : Session) : Prop where
  indexed : session.oracle.Indexed
  peer : ∀ bound, session.oracle.highestPeerHeight ≤ bound ↔
    session.oracle.checkpointHeight ≤ bound ∧ ∀ value ∈ session.reported, value ≤ bound
  bounded : session.oracle.highestPeerHeight ≤ maxHeight
  best : session.oracle.best + tolerance ≤ maxHeight
  early : ∀ entry ∈ session.awaited, entry.2 + tolerance ≤ maxHeight
  waiting : ∀ entry ∈ session.awaited, session.oracle.best < entry.2 + tolerance

/-- The target is above all that was reported, and above what is awaited by the tolerance. -/
structure Ahead (session : Session) : Prop where
  reported : ∀ value ∈ session.reported, value ≤ session.oracle.effectiveRemoteHeight
  awaited : ∀ entry ∈ session.awaited, entry.2 + tolerance ≤ session.oracle.effectiveRemoteHeight

theorem mem_announced {hash : Hash} {entry : Hash × Int} (member : entry ∈ session.announced hash) :
    entry = (hash, session.oracle.best) ∨ entry ∈ session.awaited := by
  unfold Session.announced at member
  split at member
  · exact .inr (List.mem_filter.mp member).1
  · rcases List.mem_cons.mp member with same | other
    · exact .inl same
    · exact .inr (List.mem_filter.mp other).1

theorem sound_begin {checkpointHeight best : Int} (stored : List Hash) (checkpoint : checkpointHeight ≤ maxHeight)
    (fits : best + tolerance ≤ maxHeight) : Sound (.begin checkpointHeight stored best) where
  indexed := HeaderOraclePrivate.indexed_construct checkpointHeight stored best
  peer _ := ⟨fun low => ⟨low, fun _ member => (nomatch member)⟩, fun both => both.1⟩
  bounded := checkpoint
  best := fits
  early := fun _ member => (nomatch member)
  waiting := fun _ member => (nomatch member)

theorem ahead_begin (checkpointHeight best : Int) (stored : List Hash) : Ahead (.begin checkpointHeight stored best) where
  reported := fun _ member => (nomatch member)
  awaited := fun _ member => (nomatch member)

/-- Every event can happen. -/
theorem Sound.stepped (sound : Sound session) (valid : Valid event session) :
    ∃ next, session.step event = some next ∧ Sound next := by
  cases event with
  | updateRemoteHeight value =>
    refine ⟨_, rfl, sound.indexed, ?_, ?_, sound.best, sound.early, sound.waiting⟩
    · intro bound
      show max session.oracle.highestPeerHeight value ≤ bound ↔ _ ∧ ∀ other ∈ value :: session.reported, other ≤ bound
      rw [max_le_iff, sound.peer bound, List.forall_mem_cons, and_assoc]
      exact and_congr_right fun _ => and_comm
    · exact max_le sound.bounded valid
  | addUnknownHash hash =>
    refine ⟨_, rfl, sound.indexed.addUnknownHash hash, sound.peer, sound.bounded, sound.best, ?_, ?_⟩
    · intro entry member
      rcases mem_announced member with rfl | old
      · exact sound.best
      · exact sound.early entry old
    · intro entry member
      rcases mem_announced member with rfl | old
      · exact lt_add_of_pos_right _ (by decide)
      · exact sound.waiting entry old
  | bestTip height =>
    refine ⟨_, rfl, sound.indexed, sound.peer, sound.bounded, valid, ?_, ?_⟩
    · intro entry member
      exact sound.early entry (List.mem_filter.mp member).1
    · intro entry member
      exact of_decide_eq_true (List.mem_filter.mp member).2
  | storeHeader hash =>
    refine ⟨_, rfl, sound.indexed, sound.peer, sound.bounded, sound.best, ?_, ?_⟩
    · intro entry member
      exact sound.early entry (List.mem_filter.mp member).1
    · intro entry member
      exact sound.waiting entry (List.mem_filter.mp member).1
  | pruneKnownHashes =>
    obtain ⟨after, done, indexed, same⟩ := sound.indexed.pruneKnownHashes
    refine ⟨{ session with oracle := after }, ?_, indexed, ?_, ?_, ?_, sound.early, ?_⟩
    · show session.oracle.pruneKnownHashes.map _ = _
      rw [done]
      rfl
    · rw [same]
      exact sound.peer
    · rw [same]
      exact sound.bounded
    · rw [same]
      exact sound.best
    · rw [same]
      exact sound.waiting

/-- What an event does to the target decides whether it stays ahead. -/
theorem Sound.ahead_iff (sound : Sound session) (ahead : Ahead session) (stepped : session.step event = some next) :
    Ahead next ↔ Harmless event session := by
  cases event with
  | updateRemoteHeight value =>
    cases stepped
    have reached : ∀ other ∈ value :: session.reported, other ≤ max session.oracle.highestPeerHeight value := by
      have peers := ((sound.peer _).mp le_rfl).2
      exact List.forall_mem_cons.mpr ⟨le_max_right _ _, fun other member => (peers other member).trans (le_max_left _ _)⟩
    constructor
    · intro later sentinel entry member
      have above := later.awaited entry member
      change _ ≤ max (if session.oracle.effectiveRemoteHeight = maxHeight then -1 else _) _ at above
      rwa [if_pos sentinel] at above
    · intro harmless
      refine ⟨fun other member => (reached other member).trans (le_max_right _ _), fun entry member => ?_⟩
      show _ ≤ max (if session.oracle.effectiveRemoteHeight = maxHeight then -1 else _) _
      split
      · next sentinel => exact harmless sentinel entry member
      · exact (ahead.awaited entry member).trans (le_max_left _ _)
  | addUnknownHash hash =>
    cases stepped
    refine iff_of_true ⟨fun value member => ?_, fun entry member => ?_⟩ trivial
    · exact (((sound.peer _).mp le_rfl).2 value member).trans sound.bounded
    · rcases mem_announced member with rfl | old
      · exact sound.best
      · exact sound.early entry old
  | bestTip height =>
    cases stepped
    exact iff_of_true ⟨ahead.reported, fun entry member => ahead.awaited entry (List.mem_filter.mp member).1⟩ trivial
  | storeHeader hash =>
    cases stepped
    exact iff_of_true ⟨ahead.reported, fun entry member => ahead.awaited entry (List.mem_filter.mp member).1⟩ trivial
  | pruneKnownHashes =>
    obtain ⟨after, done, _, same⟩ := sound.indexed.pruneKnownHashes
    change session.oracle.pruneKnownHashes.map _ = some next at stepped
    rw [done] at stepped
    cases stepped
    have target : after.effectiveRemoteHeight =
        if session.oracle.Resets then session.oracle.checkpointHeight else session.oracle.effectiveRemoteHeight :=
      congrArg HeaderOraclePrivate.effectiveRemoteHeight same
    show Ahead { session with oracle := after } ↔ (session.oracle.Resets → _ ∧ _)
    by_cases resets : session.oracle.Resets
    · rw [if_pos resets] at target
      constructor
      · intro later _
        have reported := later.reported
        have awaited := later.awaited
        rw [target] at reported awaited
        exact ⟨(sound.peer _).mpr ⟨le_rfl, reported⟩, awaited⟩
      · intro harmless
        obtain ⟨peer, awaited⟩ := harmless resets
        constructor
        · rw [target]
          exact ((sound.peer _).mp peer).2
        · rw [target]
          exact awaited
    · rw [if_neg resets] at target
      refine iff_of_true ⟨?_, ?_⟩ fun reset => absurd reset resets
      · rw [target]
        exact ahead.reported
      · rw [target]
        exact ahead.awaited

/-- A target that is not ahead is reached too early by some best tip. -/
theorem Sound.right_iff (sound : Sound session) : Right session ↔ Ahead session := by
  constructor
  · intro right
    constructor
    · intro value member
      by_contra! above
      have reach := ((sound.peer _).mp le_rfl).2 value member
      have kept := right.next session.oracle.effectiveRemoteHeight (above.trans_le (reach.trans sound.bounded))
      exact absurd (kept.reported (decide_eq_true le_rfl) value member) (not_le.mpr above)
    · intro entry member
      by_contra! above
      have early := sound.early entry member
      unfold tolerance at above early
      have kept := right.next (entry.2 + 1) (by omega)
      have waits : entry ∈ (session.moveBest (entry.2 + 1)).awaited :=
        List.mem_filter.mpr ⟨member, decide_eq_true (by unfold tolerance; omega)⟩
      have reached : (session.moveBest (entry.2 + 1)).oracle.isSynchronized = true := decide_eq_true (by
        show session.oracle.effectiveRemoteHeight ≤ entry.2 + 1
        omega)
      rw [kept.awaited (List.ne_nil_of_mem waits)] at reached
      cases reached
  · intro ahead
    have each (height : Int) (awaited : List (Hash × Int)) (part : awaited ⊆ session.awaited)
        (waiting : ∀ entry ∈ awaited, height < entry.2 + tolerance) :
        Kept ⟨{ session.oracle with best := height }, session.reported, awaited⟩ := by
      constructor
      · intro reached value member
        exact (ahead.reported value member).trans (of_decide_eq_true reached)
      · intro some
        obtain ⟨entry, member⟩ := List.exists_mem_of_ne_nil _ some
        exact decide_eq_false (not_le.mpr ((waiting entry member).trans_le (ahead.awaited entry (part member))))
    refine ⟨each session.oracle.best session.awaited (List.Subset.refl _) sound.waiting, fun height _ => ?_⟩
    exact each height _ (List.filter_subset_self _) fun entry member => of_decide_eq_true (List.mem_filter.mp member).2

/-- No call aborts, and the oracle is right after each of them. -/
def StaysRight (events : List Event) (start : Session) : Prop :=
  ∀ before, before <+: events → ∃ session, machine.runs before start = some session ∧ Right session

theorem staysRight_cons {event : Event} {events : List Event} (stepped : session.step event = some next) :
    StaysRight (event :: events) session ↔ Right session ∧ StaysRight events next := by
  have after (before : List Event) : machine.runs (event :: before) session = machine.runs before next := by
    show (session.step event).bind (machine.runs before) = _
    rw [stepped]
    rfl
  constructor
  · intro stays
    obtain ⟨_, ran, right⟩ := stays [] List.nil_prefix
    cases ran
    refine ⟨right, fun before first => ?_⟩
    rw [← after]
    exact stays (event :: before) ((List.prefix_cons_inj event).mpr first)
  · rintro ⟨right, stays⟩ before first
    cases before with
    | nil => exact ⟨session, rfl, right⟩
    | cons other before =>
      obtain ⟨rfl, rest⟩ := List.cons_prefix_cons.mp first
      rw [after]
      exact stays before rest

theorem Sound.right_along_iff (events : List Event) : ∀ {session : Session}, Sound session → Ahead session →
    machine.Allows Valid events session → (StaysRight events session ↔ machine.Allows Harmless events session) := by
  induction events with
  | nil =>
    intro session sound ahead _
    refine iff_of_true (fun before first => ?_) trivial
    rw [List.prefix_nil.mp first]
    exact ⟨session, rfl, sound.right_iff.mpr ahead⟩
  | cons event events ih =>
    intro session sound ahead valid
    obtain ⟨next, stepped, later⟩ := sound.stepped valid.1
    rw [staysRight_cons stepped]
    have only : (∀ other ∈ machine.step event session, machine.Allows Harmless events other) ↔ machine.Allows Harmless events next := by
      show (∀ other ∈ session.step event, _) ↔ _
      rw [stepped]
      exact ⟨fun all => all next rfl, fun here other same => Option.some.inj same ▸ here⟩
    show _ ↔ Harmless event session ∧ _
    rw [only, ← sound.ahead_iff ahead stepped]
    constructor
    · rintro ⟨_, stays⟩
      have right := (stays [] List.nil_prefix)
      obtain ⟨_, ran, right⟩ := right
      cases ran
      have nextAhead := later.right_iff.mp right
      exact ⟨nextAhead, (ih later nextAhead (valid.2 next stepped)).mp stays⟩
    · rintro ⟨nextAhead, allowed⟩
      exact ⟨sound.right_iff.mpr ahead, (ih later nextAhead (valid.2 next stepped)).mpr allowed⟩

/-- The oracle is never synchronized too early exactly if no call gives up the sentinel too early. -/
theorem synchronization_right_iff {checkpointHeight best : Int} {stored : List Hash} {events : List Event}
    (checkpoint : checkpointHeight ≤ maxHeight) (fits : best + tolerance ≤ maxHeight)
    (valid : machine.Allows Valid events (.begin checkpointHeight stored best)) :
    StaysRight events (.begin checkpointHeight stored best) ↔
      machine.Allows Harmless events (.begin checkpointHeight stored best) :=
  (sound_begin stored checkpoint fits).right_along_iff events (ahead_begin checkpointHeight best stored) valid

instance (event : Event) (session : Session) : Decidable (Valid event session) :=
  match event with
  | .updateRemoteHeight value => inferInstanceAs (Decidable (value ≤ maxHeight))
  | .bestTip height => inferInstanceAs (Decidable (height + tolerance ≤ maxHeight))
  | .addUnknownHash _ | .storeHeader _ | .pruneKnownHashes => isTrue trivial

instance (event : Event) (session : Session) : Decidable (Harmless event session) :=
  match event with
  | .updateRemoteHeight value => inferInstanceAs (Decidable (session.oracle.effectiveRemoteHeight = maxHeight →
      ∀ entry ∈ session.awaited, entry.2 + tolerance ≤ max (-1) (max session.oracle.highestPeerHeight value)))
  | .pruneKnownHashes => inferInstanceAs (Decidable (session.oracle.Resets →
      session.oracle.highestPeerHeight ≤ session.oracle.checkpointHeight ∧
        ∀ entry ∈ session.awaited, entry.2 + tolerance ≤ session.oracle.checkpointHeight))
  | .addUnknownHash _ | .bestTip _ | .storeHeader _ => isTrue trivial

/-- The announced header is stored before the hashes are pruned, and peers report later. -/
def storedInTime : List Event :=
  [.addUnknownHash 7, .storeHeader 7, .bestTip 1, .pruneKnownHashes, .updateRemoteHeight 3, .bestTip 3]

theorem stored_in_time_right : StaysRight storedInTime (.begin 0 [1] 0) :=
  (synchronization_right_iff (by decide) (by decide) (by decide +kernel)).mpr (by decide +kernel)

/-- One pruning forgets the announced hash and the height that a peer reported before. -/
theorem pruning_forgets_target :
    ¬∀ (checkpointHeight best : Int) (stored : List Hash) (events : List Event), checkpointHeight ≤ maxHeight →
      best + tolerance ≤ maxHeight → machine.Allows Valid events (.begin checkpointHeight stored best) →
      ∀ session, machine.runs events (.begin checkpointHeight stored best) = some session → Kept session := by
  intro always
  have early : ∃ session ∈ machine.runs [.updateRemoteHeight 100, .addUnknownHash 7, .pruneKnownHashes] (.begin 0 [1] 0),
      session.oracle.isSynchronized = true ∧ session.oracle.best = 0 ∧ 100 ∈ session.reported ∧ session.awaited ≠ [] := by
    decide +kernel
  obtain ⟨session, ran, reached, best, reported, _⟩ := early
  have kept := always 0 0 [1] _ (by decide) (by decide) (by decide +kernel) session ran
  have low := kept.reported reached 100 reported
  rw [best] at low
  exact absurd low (by decide)

end Opentxs.HeaderOracle.Synchronization
