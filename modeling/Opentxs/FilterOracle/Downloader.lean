import Opentxs.Library.Ordered
import Opentxs.FilterOracle.Ancestors

/-! The downloader: which blocks of the best chain are asked for, and which of them have come. After
a reorg it goes back to the last common block. -/

namespace Opentxs.FilterOracle
open Library Library.Ordered HeaderOracle BlockHeader
open HeaderOracle.Storage (Database)
open Ancestors

/-! ## The blocks between the tip and the top -/

section Spans

variable {tree : Branching Hash} {tip top block : Position} {blocks others : Int → Option Position}

/-- One block at each height above the tip, all on the branch that ends at the top. -/
structure Spans (tree : Branching Hash) (tip top : Position) (blocks : Int → Option Position) : Prop where
  has : Has tree top
  tip_on : On tree top tip
  covers : ∀ height, tip.height < height → height ≤ top.height → blocks height ≠ none
  within : ∀ height block, blocks height = some block →
    tip.height < height ∧ height ≤ top.height ∧ block.height = height ∧ On tree top block

/-- Whether a component has to go back below its tip. -/
def isReset (ancestor existing : Position) : Bool :=
  if ancestor.height = existing.height then ancestor.hash ≠ existing.hash else ancestor.height < existing.height

theorem Spans.congr (spans : Spans tree tip top blocks) (same : ∀ height, others height = blocks height) :
    Spans tree tip top others := (funext same : others = blocks) ▸ spans

theorem spans_none (has : Has tree top) : Spans tree top top fun _ => none where
  has := has
  tip_on := has.on_self
  covers := by
    intro height above below
    omega
  within := by
    intro _ _ found
    cases found

theorem Spans.isReset_iff (spans : Spans tree tip top blocks) {ancestor : Position} (on : On tree top ancestor) :
    isReset ancestor tip = true ↔ ancestor.height < tip.height := by
  unfold isReset
  split
  · next level =>
    have same := on.eq_of_height spans.tip_on level
    rw [same]
    simp
  · exact decide_eq_true_iff

/-- Below a block of the branch everything stays. -/
theorem Spans.cut (spans : Spans tree tip top blocks) {ancestor : Position} (on : On tree top ancestor)
    (le : tip.height ≤ ancestor.height) :
    Spans tree tip ancestor fun height => if height ≤ ancestor.height then blocks height else none where
  has := on.has
  tip_on := on.lower spans.tip_on le
  covers := by
    intro height above below
    rw [if_pos below]
    exact spans.covers height above (below.trans (on.below spans.has))
  within := by
    intro height block found
    split at found
    · next below =>
      obtain ⟨above, _, level, there⟩ := spans.within height block found
      exact ⟨above, below, level, on.lower there (level ▸ below)⟩
    · cases found

theorem Spans.extend (spans : Spans tree tip top blocks) {child : Position} (has : Has tree child)
    (next : child.height = top.height + 1) (parent : tree.parent child.hash = top.hash) :
    Spans tree tip child fun height => if height = child.height then some child else blocks height where
  has := has
  tip_on := (on_child has next spans.has.nonneg parent).trans spans.tip_on
  covers := by
    intro height above below
    split
    · exact Option.some_ne_none _
    · exact spans.covers height above (by omega)
  within := by
    intro height block found
    have low := spans.tip_on.below spans.has
    split at found
    · next level =>
      cases found
      exact ⟨by omega, by omega, level.symm, has.on_self⟩
    · obtain ⟨above, below, level, there⟩ := spans.within height block found
      exact ⟨above, by omega, level, (on_child has next spans.has.nonneg parent).trans there⟩

/-- The tip goes on to the block above it. -/
theorem Spans.advance (spans : Spans tree tip top blocks) (found : blocks (tip.height + 1) = some block) :
    Spans tree block top fun height => if height = tip.height + 1 then none else blocks height where
  has := spans.has
  tip_on := (spans.within _ block found).2.2.2
  covers := by
    intro height above below
    have level := (spans.within _ block found).2.2.1
    rw [if_neg (by omega)]
    exact spans.covers height (by omega) below
  within := by
    intro height other there
    split at there
    · cases there
    · obtain ⟨above, rest⟩ := spans.within height other there
      have level := (spans.within _ block found).2.2.1
      exact ⟨by omega, rest⟩

/-- The block above the tip is a child of it. -/
theorem Spans.parent_eq (spans : Spans tree tip top blocks) (found : blocks (tip.height + 1) = some block) :
    tree.parent block.hash = tip.hash :=
  (spans.within _ block found).2.2.2.parent_eq spans.tip_on (spans.within _ block found).2.2.1

/-- The highest block is the top, and where there is none the tip is. -/
theorem Spans.eq_top (spans : Spans tree tip top blocks) {height : Int} (found : blocks height = some block)
    (highest : ∀ other, blocks other ≠ none → other ≤ height) : block = top := by
  obtain ⟨above, below, level, on⟩ := spans.within height block found
  have last := highest top.height (spans.covers top.height (by omega) le_rfl)
  exact on.eq_of_height spans.has.on_self (by omega)

theorem Spans.tip_eq_top (spans : Spans tree tip top blocks) (empty : ∀ height, blocks height = none) : tip = top := by
  refine spans.tip_on.eq_of_height spans.has.on_self (le_antisymm (spans.tip_on.below spans.has) ?_)
  by_contra lower
  exact spans.covers top.height (not_le.mp lower) le_rfl (empty _)

/-- Cleaning a map above an ancestor keeps what is at or below it. -/
theorem find?_clean_of_spans {ν : Type} (map : OrderedMap Int ν) (position : ν → Position) {ancestor : Position}
    (on : On tree top ancestor) (within : ∀ height value, map.find? height = some value →
      (position value).height = height ∧ On tree top (position value)) (height : Int) :
    (map.clean ancestor.height fun value => position value = ancestor).find? height =
      if height ≤ ancestor.height then map.find? height else none := by
  refine map.find?_clean _ _ (fun height value found reached => ?_) height
  obtain ⟨level, there⟩ := within height value found
  rw [decide_eq_true_iff]
  constructor
  · intro same
    rw [← level, same]
  · intro same
    exact there.eq_of_height on (level.trans same)

end Spans

/-! ## The downloader -/

structure Downloader (Location : Type) where
  tip : Position
  index : OrderedMap Hash Int := .empty
  downloading : OrderedMap Int Position := .empty
  ready : OrderedMap Int (Position × Location) := .empty

/-- How many blocks a call may add, and the ancestor before them. -/
def addLimit (maxJobs : Nat) : Nat := min (250 * maxJobs) 1001

structure Added where
  height : Int
  hashes : List Hash
  more : Bool
  deriving DecidableEq, Repr

namespace Downloader

variable {Location : Type} {Work : Type} (downloader : Downloader Location)

def nextPosition : Position :=
  match downloader.downloading.last?, downloader.ready.last? with
  | none, none => downloader.tip
  | none, some ready => ready.2.1
  | some downloading, none => downloading.2
  | some downloading, some ready => max downloading.2 ready.2.1

/-- A reset leaves the index as it is. -/
def adjustTip (ancestor : Position) : Downloader Location :=
  if isReset ancestor downloader.tip then
    { downloader with tip := ancestor, downloading := .empty, ready := .empty }
  else
    let stale := (downloader.downloading.stale ancestor.height (· = ancestor)).map Prod.snd ++
      (downloader.ready.stale ancestor.height (·.1 = ancestor)).map fun entry => entry.2.1
    { downloader with
      index := stale.foldl (fun index position => index.erase position.hash) downloader.index
      downloading := downloader.downloading.clean ancestor.height (· = ancestor)
      ready := downloader.ready.clean ancestor.height (·.1 = ancestor) }

def addPositions : List Position → Downloader Location → Option (Downloader Location)
  | [], downloader => some downloader
  | position :: positions, downloader =>
    if downloader.downloading.find? position.height = none then
      addPositions positions { downloader with
        index := downloader.index.assign position.hash position.height
        downloading := downloader.downloading.emplace position.height position }
    else none

/-- The positions that a call adds, out of those above the ancestor. -/
def effective (limit : Nat) (rest : List Position) : List Position := rest.take (min limit (rest.length + 1) - 1)

def firstHeight : List Position → Int
  | [] => 0
  | second :: _ => second.height

/-- The owner adjusts its own tip in between. -/
def addBlocks {σ : Type} (genesis : Hash) (limit : Nat) (adjust : Position → σ → Option σ) (oracle : Database Work) (owner : σ) :
    Option (Added × Downloader Location × σ) := do
  match ← ancestors genesis oracle downloader.nextPosition with
  | [] => none
  | ancestor :: rest =>
    let owner ← adjust ancestor owner
    let downloader ← addPositions (effective limit rest) (downloader.adjustTip ancestor)
    some (⟨firstHeight rest, (effective limit rest).map Position.hash, min limit (rest.length + 1) ≠ rest.length + 1⟩,
      downloader, owner)

/-- Whether the block was the one expected at its height. -/
def receiveAt (id : Hash) (block : Location) (height : Int) : Option (Bool × Downloader Location) :=
  match downloader.downloading.find? height with
  | none => some (false, downloader)
  | some position =>
    if position.hash = id then
      if downloader.ready.find? height = none then
        some (true, { downloader with
          index := downloader.index.erase id
          downloading := downloader.downloading.erase height
          ready := downloader.ready.emplace height (position, block) })
      else none
    else some (false, downloader)

def receiveBlock (id : Hash) (block : Location) : Option (Bool × Downloader Location) :=
  match downloader.index.find? id with
  | none => some (false, downloader)
  | some height => downloader.receiveAt id block height

/-- The blocks that have come are taken one after the other, as far as none is missing. -/
def takeReady (downloading : OrderedMap Int Position) : List (Int × Position × Location) → Position →
    OrderedMap Int (Position × Location) → Option (Position × OrderedMap Int (Position × Location))
  | [], tip, ready => some (tip, ready)
  | (height, data) :: rest, tip, ready =>
    if height < tip.height + 1 then none
    else if tip.height + 1 < height then
      if downloading.find? (tip.height + 1) = none then none else some (tip, ready)
    else takeReady downloading rest data.1 (ready.erase height)

def update : Option (Downloader Location) :=
  (takeReady downloader.downloading downloader.ready.entries downloader.tip downloader.ready).map fun (tip, ready) =>
    { downloader with
      tip
      ready
      index := if downloader.downloading.isEmpty && ready.isEmpty then .empty else downloader.index }

/-! ## What it keeps -/

/-- The block it knows at a height. -/
def block (height : Int) : Option Position :=
  (downloader.downloading.find? height).or ((downloader.ready.find? height).map Prod.fst)

/-- One block at each height from the tip to the top, either asked for or there. -/
structure Tracks (tree : Branching Hash) (downloader : Downloader Location) (top : Position) : Prop where
  spans : Spans tree downloader.tip top downloader.block
  apart : ∀ height, downloader.downloading.find? height ≠ none → downloader.ready.find? height = none

variable {downloader} {tree : Branching Hash} {top : Position} {height : Int} {position : Position}

theorem block_of_downloading (found : downloader.downloading.find? height = some position) :
    downloader.block height = some position := by
  rw [block, found, Option.some_or]

theorem Tracks.block_of_ready (tracks : Tracks tree downloader top) {data : Position × Location}
    (found : downloader.ready.find? height = some data) : downloader.block height = some data.1 := by
  have missing : downloader.downloading.find? height = none := by
    by_contra present
    rw [tracks.apart height present] at found
    cases found
  rw [block, missing, found]
  rfl

theorem Tracks.start (has : Has tree top) : Tracks tree ({ tip := top } : Downloader Location) top where
  spans := spans_none has
  apart := fun _ present => absurd rfl present

theorem Tracks.nextPosition_eq (tracks : Tracks tree downloader top) : downloader.nextPosition = top := by
  have last {last : Int × Position} (found : downloader.downloading.last? = some last)
      (highest : ∀ other, downloader.ready.find? other ≠ none → other ≤ last.1) : last.2 = top := by
    obtain ⟨present, greatest⟩ := (OrderedMap.last?_eq_some _ last.1 last.2).mp found
    refine tracks.spans.eq_top (block_of_downloading present) fun other known => ?_
    by_cases asked : downloader.downloading.find? other = none
    · rw [block, asked, Option.none_or] at known
      exact highest other fun missing => known (by rw [missing]; rfl)
    · exact greatest other asked
  have lastReady {last : Int × Position × Location} (found : downloader.ready.last? = some last)
      (highest : ∀ other, downloader.downloading.find? other ≠ none → other ≤ last.1) : last.2.1 = top := by
    obtain ⟨present, greatest⟩ := (OrderedMap.last?_eq_some _ last.1 last.2).mp found
    refine tracks.spans.eq_top (tracks.block_of_ready present) fun other known => ?_
    by_cases asked : downloader.downloading.find? other = none
    · rw [block, asked, Option.none_or] at known
      exact greatest other fun missing => known (by rw [missing]; rfl)
    · exact highest other asked
  unfold nextPosition
  split
  · next noneAsked noneReady =>
    refine tracks.spans.tip_eq_top fun height => ?_
    rw [block, (OrderedMap.last?_eq_none _).mp noneAsked, (OrderedMap.last?_eq_none _).mp noneReady]
    rfl
  · next ready noneAsked found =>
    exact lastReady found fun other present => absurd ((OrderedMap.last?_eq_none _).mp noneAsked other) present
  · next asked found noneReady =>
    exact last found fun other present => absurd ((OrderedMap.last?_eq_none _).mp noneReady other) present
  · next asked ready found readyFound =>
    obtain ⟨present, greatest⟩ := (OrderedMap.last?_eq_some _ asked.1 asked.2).mp found
    obtain ⟨here, greatestReady⟩ := (OrderedMap.last?_eq_some _ ready.1 ready.2).mp readyFound
    have low := (tracks.spans.within _ _ (block_of_downloading present)).2.2.2.le tracks.spans.has
    have lowReady := (tracks.spans.within _ _ (tracks.block_of_ready here)).2.2.2.le tracks.spans.has
    rcases le_total ready.1 asked.1 with less | less
    · have same := last found fun other known => (greatestReady other known).trans less
      rw [same]
      exact max_eq_left lowReady
    · have same := lastReady readyFound fun other known => (greatest other known).trans less
      rw [same]
      exact max_eq_right low

/-- After the adjustment the ancestor is the top. -/
theorem Tracks.adjusted (tracks : Tracks tree downloader top) {ancestor : Position} (on : On tree top ancestor) :
    Tracks tree (downloader.adjustTip ancestor) ancestor := by
  unfold adjustTip
  by_cases reset : isReset ancestor downloader.tip = true
  · rw [if_pos reset]
    exact ⟨spans_none on.has, fun _ present => absurd rfl present⟩
  · rw [if_neg reset]
    have le : downloader.tip.height ≤ ancestor.height := not_lt.mp fun lower => reset ((tracks.spans.isReset_iff on).mpr lower)
    have asked := find?_clean_of_spans downloader.downloading id on fun height position found =>
      (tracks.spans.within height position (block_of_downloading found)).2.2
    have ready := find?_clean_of_spans downloader.ready Prod.fst on fun height data found =>
      (tracks.spans.within height data.1 (tracks.block_of_ready found)).2.2
    refine ⟨(tracks.spans.cut on le).congr fun height => ?_, fun height present => ?_⟩
    · show ((downloader.downloading.clean ancestor.height _).find? height).or
        (((downloader.ready.clean ancestor.height _).find? height).map Prod.fst) = _
      rw [ready, show (downloader.downloading.clean ancestor.height (· = ancestor)).find? height = _ from asked height]
      split
      · rfl
      · rfl
    · show (downloader.ready.clean ancestor.height _).find? height = none
      rw [ready]
      split
      · next below =>
        refine tracks.apart height fun missing => present ?_
        show (downloader.downloading.clean ancestor.height _).find? height = none
        rw [show (downloader.downloading.clean ancestor.height (· = ancestor)).find? height = _ from asked height, if_pos below, missing]
      · rfl

/-- The new positions become the top one after the other. -/
theorem Tracks.added {positions : List Position} : ∀ {downloader : Downloader Location} {top : Position},
    Tracks tree downloader top → Line tree top positions →
    ∃ after, addPositions positions downloader = some after ∧ Tracks tree after (positions.getLastD top) := by
  induction positions with
  | nil => exact fun tracks _ => ⟨_, rfl, tracks⟩
  | cons position positions ih =>
    rintro downloader top tracks ⟨has, next, parent, line⟩
    have missing : downloader.block position.height = none := by
      by_contra present
      obtain ⟨block, found⟩ := Option.ne_none_iff_exists'.mp present
      have := (tracks.spans.within _ block found).2.1
      omega
    obtain ⟨asked, notReady⟩ := Option.or_eq_none_iff.mp missing
    have unready : downloader.ready.find? position.height = none := Option.map_eq_none_iff.mp notReady
    rw [addPositions, if_pos asked, List.getLastD_cons]
    refine ih ⟨(tracks.spans.extend has next parent).congr fun height => ?_, fun height present => ?_⟩ line
    · show ((downloader.downloading.emplace position.height position).find? height).or _ = _
      rw [OrderedMap.find?_emplace, asked]
      split
      · rfl
      · rfl
    · rw [OrderedMap.find?_emplace] at present
      split at present
      · next same => exact same ▸ unready
      · exact tracks.apart height present

/-- A block that comes is taken over or left, and the top stays. -/
theorem Tracks.received (tracks : Tracks tree downloader top) (id : Hash) (location : Location) :
    ∃ result, downloader.receiveBlock id location = some result ∧ Tracks tree result.2 top := by
  unfold receiveBlock
  split
  · exact ⟨_, rfl, tracks⟩
  · next height _ =>
    unfold receiveAt
    split
    · exact ⟨_, rfl, tracks⟩
    · next position asked =>
      split
      · have unready := tracks.apart height (by rw [asked]; exact Option.some_ne_none _)
        rw [if_pos unready]
        refine ⟨_, rfl, tracks.spans.congr fun other => ?_, fun other present => ?_⟩
        · show ((downloader.downloading.erase height).find? other).or
            (((downloader.ready.emplace height (position, location)).find? other).map Prod.fst) = downloader.block other
          rw [OrderedMap.find?_erase, OrderedMap.find?_emplace, unready]
          split
          · next same => rw [same, block_of_downloading asked]; rfl
          · rfl
        · rw [OrderedMap.find?_erase] at present
          split at present
          · exact absurd rfl present
          · next apart =>
            rw [OrderedMap.find?_emplace, if_neg apart]
            exact tracks.apart other present
      · exact ⟨_, rfl, tracks⟩

/-- The entries that are left to be taken are those of the map. -/
theorem Tracks.taken (entries : List (Int × Position × Location)) : ∀ {downloader : Downloader Location},
    downloader.ready.entries = entries → Tracks tree downloader top →
    ∃ tip ready, takeReady downloader.downloading entries downloader.tip downloader.ready = some (tip, ready) ∧
      Tracks tree { downloader with tip, ready } top := by
  induction entries with
  | nil => exact fun _ tracks => ⟨_, _, rfl, tracks⟩
  | cons entry entries ih =>
    intro downloader whole tracks
    have first : downloader.ready.first? = some entry := by rw [OrderedMap.first?, whole]; rfl
    obtain ⟨here, least⟩ := @OrderedMap.first?_eq_some _ _ _ _ entry.1 entry.2 first
    obtain ⟨above, below, level, on⟩ := tracks.spans.within _ _ (tracks.block_of_ready here)
    rw [takeReady, if_neg (by omega)]
    split
    · next gap =>
      have asked : downloader.downloading.find? (downloader.tip.height + 1) ≠ none := by
        intro missing
        refine tracks.spans.covers (downloader.tip.height + 1) (by omega) (by omega) ?_
        rw [block, missing, Option.none_or, Option.map_eq_none_iff]
        by_contra present
        have := least _ present
        omega
      rw [if_neg asked]
      exact ⟨_, _, rfl, tracks⟩
    · have next : entry.1 = downloader.tip.height + 1 := by omega
      have found : downloader.block (downloader.tip.height + 1) = some entry.2.1 := next ▸ tracks.block_of_ready here
      have unasked : downloader.downloading.find? entry.1 = none := by
        by_contra present
        rw [tracks.apart _ present] at here
        cases here
      refine @ih { downloader with tip := entry.2.1, ready := downloader.ready.erase entry.1 } ?_
        ⟨(tracks.spans.advance found).congr fun height => ?_, fun height present => ?_⟩
      · exact OrderedMap.entries_erase_first whole
      · show (downloader.downloading.find? height).or (((downloader.ready.erase entry.1).find? height).map Prod.fst) = _
        rw [OrderedMap.find?_erase, ← next]
        split
        · next same => rw [same, unasked]; rfl
        · rfl
      · show (downloader.ready.erase entry.1).find? height = none
        rw [OrderedMap.find?_erase]
        split
        · rfl
        · exact tracks.apart height present

/-- An update never finds a gap. -/
theorem Tracks.updated (tracks : Tracks tree downloader top) :
    ∃ after, downloader.update = some after ∧ Tracks tree after top := by
  obtain ⟨tip, ready, taken, kept⟩ := Tracks.taken _ rfl tracks
  have updated : downloader.update = some { downloader with
      tip
      ready
      index := if downloader.downloading.isEmpty && ready.isEmpty then .empty else downloader.index } := by
    unfold update
    rw [taken]
    rfl
  exact ⟨_, updated, kept.spans, kept.apart⟩

/-- What a call has added: a line of blocks above the ancestor at which both sides were cut. -/
structure AddedAbove (tree : Branching Hash) (top ancestor : Position) (positions : List Position) (added : Added) : Prop where
  on : On tree top ancestor
  line : Line tree ancestor positions
  hashes : added.hashes = positions.map Position.hash
  height : positions ≠ [] → added.height = ancestor.height + 1

theorem Tracks.addBlocks {oracle : Database Work} {limit : Nat} {σ : Type} {adjust : Position → σ → Option σ}
    {owner adjusted : σ} {added : Added} {after : Downloader Location} (tracks : Tracks tree downloader top) (shows : Shows tree oracle)
    (done : downloader.addBlocks tree.root limit adjust oracle owner = some (added, after, adjusted)) :
    ∃ ancestor positions, AddedAbove tree top ancestor positions added ∧ adjust ancestor owner = some adjusted ∧
      Tracks tree after (positions.getLastD ancestor) := by
  obtain ⟨data, found, done⟩ := Option.bind_eq_some_iff.mp done
  obtain ⟨ancestor, rest, rfl, on, line⟩ := ancestors_line shows tracks.spans.has (tracks.nextPosition_eq ▸ found)
  obtain ⟨owner, invoked, done⟩ := Option.bind_eq_some_iff.mp done
  have shorter : Line tree ancestor (effective limit rest) := line_prefix line (List.take_prefix _ rest)
  obtain ⟨filled, adds, kept⟩ := (tracks.adjusted on).added shorter
  rw [adds] at done
  cases done
  refine ⟨ancestor, effective limit rest, ⟨on, shorter, rfl, fun filled => ?_⟩, invoked, kept⟩
  cases rest with
  | nil => exact absurd List.take_nil filled
  | cons second rest => exact line.2.1

end Downloader

end Opentxs.FilterOracle
