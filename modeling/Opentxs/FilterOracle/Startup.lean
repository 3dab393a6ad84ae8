import Mathlib.Order.Bounds.Basic
import Opentxs.Blockchain.BestChain
import Opentxs.Library.Ordered

/-! The filter tips at the start: each is moved back to where the data is complete, and the cfheader tip
to where the data agrees with a checkpoint. -/

namespace Opentxs.FilterOracle.Startup
open Blockchain Library.Ordered

variable {Hash Header : Type}

/-- The checkpoints by height, each with the cfheader of the default type if it has one. -/
structure ChainData (Hash Header : Type) where
  cfheaders : OrderedMap Int (Hash × Option Header)
  nonneg : ∀ height checkpoint, cfheaders.find? height = some checkpoint → 0 ≤ height
  genesis : ∃ block header, cfheaders.find? 0 = some (block, some header)

namespace ChainData

def blockHeaderAt (params : ChainData Hash Header) (height : Int) : Option Hash := (params.cfheaders.find? height).map Prod.fst

def cfheaderAt (params : ChainData Hash Header) (height : Int) : Option Header := (params.cfheaders.find? height).bind Prod.snd

def cfheaderBefore (params : ChainData Hash Header) (height : Int) : Int :=
  ((params.cfheaders.findLast? fun other checkpoint => other < height && checkpoint.2.isSome).map Prod.fst).getD 0

def highestCfheaderCheckpoint (params : ChainData Hash Header) : Int :=
  ((params.cfheaders.findLast? fun _ checkpoint => checkpoint.2.isSome).map Prod.fst).getD 0

end ChainData

/-- What is stored for the blocks. No block has a blank hash. -/
structure Database (Hash Header : Type) where
  cfheaders : Hash → Option Header
  cfilters : Hash → Bool

namespace Database

def loadFilterHeader (db : Database Hash Header) (hash : Option Hash) : Option Header := hash.bind db.cfheaders

def haveFilterHeader (db : Database Hash Header) (hash : Option Hash) : Bool := (db.loadFilterHeader hash).isSome

def haveFilter (db : Database Hash Header) (hash : Option Hash) : Bool := hash.any db.cfilters

end Database

/-- The hash of a tip may be blank. -/
abbrev TipPosition (Hash : Type) := Position (Option Hash)

structure Tips (Hash : Type) where
  cfheader : TipPosition Hash
  cfilter : TipPosition Hash

def getPosition (chain : BestChain Hash) (height : Int) : TipPosition Hash := ⟨height, chain.bestBlock height⟩

/-- Above the best chain the hash is compared with a blank one. -/
def isInBestChain [DecidableEq Hash] (chain : BestChain Hash) (position : TipPosition Hash) : Bool :=
  position.hash = chain.bestBlock position.height

/-- The loops of both tips: from one block of the best chain to the one before it, down to genesis at most. -/
def rewind (chain : BestChain Hash) (haveData : TipPosition Hash → Bool) : (height : Nat) → (hash : Option Hash) → TipPosition Hash
  | 0, hash => ⟨0, hash⟩
  | prior + 1, hash =>
    if haveData ⟨prior + 1, hash⟩ then ⟨prior + 1, hash⟩ else rewind chain haveData prior (chain.bestBlock prior)

section Code

variable [DecidableEq Hash] [DecidableEq Header]

def haveCfheaders (chain : BestChain Hash) (db : Database Hash Header) (cur : TipPosition Hash) : Bool :=
  db.haveFilterHeader cur.hash && db.haveFilterHeader (chain.bestBlock (cur.height - 1)) && isInBestChain chain cur

def haveCfilter (chain : BestChain Hash) (db : Database Hash Header) (cur : TipPosition Hash) : Bool :=
  db.haveFilter cur.hash && isInBestChain chain cur

/-- There is no result if an assertion fails. -/
def findAcceptableCfheader (chain : BestChain Hash) (db : Database Hash Header) (tip : TipPosition Hash) : Option (TipPosition Hash) :=
  if 1 > tip.height then
    let tip := getPosition chain 0
    if db.haveFilterHeader tip.hash then some tip else none
  else some (rewind chain (haveCfheaders chain db) tip.height.toNat tip.hash)

def findAcceptableCfilter (chain : BestChain Hash) (db : Database Hash Header) (cfheaderTip tip : TipPosition Hash) :
    Option (TipPosition Hash) :=
  let reset := cfheaderTip.height < tip.height ∨ (cfheaderTip.height = tip.height ∧ cfheaderTip.hash ≠ tip.hash)
  let tip := if reset then cfheaderTip else tip
  if 1 > tip.height then
    let tip := getPosition chain 0
    if db.haveFilter tip.hash then some tip else none
  else some (rewind chain (haveCfilter chain db) tip.height.toNat tip.hash)

/-- The loop over the checkpoints. There is no result if an assertion fails or the fuel runs out. -/
def compareFrom (params : ChainData Hash Header) (chain : BestChain Hash) (db : Database Hash Header) :
    (fuel : Nat) → (height : Int) → (check : TipPosition Hash) → (changed : Bool) → Option (TipPosition Hash × Bool)
  | 0, _, _, _ => none
  | fuel + 1, height, check, changed =>
    if 0 < height then
      let missing := (params.cfheaderAt height).isNone
      let height := if missing then params.cfheaderBefore height else height
      let check := if missing then getPosition chain height else check
      match params.cfheaderAt height with
      | none => none
      | some required =>
        if db.loadFilterHeader check.hash = some required then some (check, changed)
        else
          let height := params.cfheaderBefore height
          compareFrom params chain db fuel height (getPosition chain height) true
    else some (check, changed)

def compareCfheaderTipToCheckpoint (params : ChainData Hash Header) (chain : BestChain Hash) (db : Database Hash Header)
    (tip : TipPosition Hash) : Option (TipPosition Hash) := do
  let (check, changed) ← compareFrom params chain db (tip.height.toNat + 1) tip.height (getPosition chain tip.height) false
  some (if changed then check else tip)

/-- The tips that are stored at the end. -/
def init (params : ChainData Hash Header) (chain : BestChain Hash) (db : Database Hash Header) (reset : Bool) (tips : Tips Hash) :
    Option (Tips Hash) := do
  let resetTarget := params.highestCfheaderCheckpoint
  let cfheader ←
    if reset = true ∧ resetTarget ≤ tips.cfheader.height then do
      let block ← params.blockHeaderAt resetTarget
      findAcceptableCfheader chain db ⟨resetTarget, some block⟩
    else do
      let tip ← findAcceptableCfheader chain db tips.cfheader
      compareCfheaderTipToCheckpoint params chain db tip
  let cfilter ← findAcceptableCfilter chain db cfheader tips.cfilter
  some { cfheader, cfilter }

end Code

/-! ## Acceptable tips -/

def OnBestChain (chain : BestChain Hash) (position : TipPosition Hash) : Prop :=
  ∃ id, position.hash = some id ∧ chain.bestBlock position.height = some id

/-- The cfheader of the block at a height is stored. -/
def HasCfheader (chain : BestChain Hash) (db : Database Hash Header) (height : Int) : Prop :=
  ∃ id header, chain.bestBlock height = some id ∧ db.cfheaders id = some header

/-- And so is the one of its parent, which genesis does not have. -/
def HasParents (chain : BestChain Hash) (db : Database Hash Header) (height : Int) : Prop :=
  HasCfheader chain db height ∧ (0 < height → HasCfheader chain db (height - 1))

def HasCfilter (chain : BestChain Hash) (db : Database Hash Header) (height : Int) : Prop :=
  ∃ id, chain.bestBlock height = some id ∧ db.cfilters id = true

def IsCheckpoint (params : ChainData Hash Header) (height : Int) : Prop := ∃ required, params.cfheaderAt height = some required

/-- The stored cfheader is the one of the checkpoint. -/
def Agrees (params : ChainData Hash Header) (chain : BestChain Hash) (db : Database Hash Header) (height : Int) : Prop :=
  ∃ id required, chain.bestBlock height = some id ∧ params.cfheaderAt height = some required ∧ db.cfheaders id = some required

def CheckpointsUpTo (params : ChainData Hash Header) (height : Int) : Set Int := {other | IsCheckpoint params other ∧ other ≤ height}

structure Acceptable (params : ChainData Hash Header) (chain : BestChain Hash) (db : Database Hash Header) (tips : Tips Hash) : Prop where
  cfheader : OnBestChain chain tips.cfheader
  parents : HasParents chain db tips.cfheader.height
  agrees : ∀ checkpoint, IsGreatest (CheckpointsUpTo params tips.cfheader.height) checkpoint → Agrees params chain db checkpoint
  cfilter : OnBestChain chain tips.cfilter
  below : tips.cfilter.height ≤ tips.cfheader.height
  stored : HasCfilter chain db tips.cfilter.height

variable {params : ChainData Hash Header} {chain : BestChain Hash} {db : Database Hash Header} {height : Int} {id : Hash}

theorem isCheckpoint_iff : IsCheckpoint params height ↔
    ∃ checkpoint, params.cfheaders.find? height = some checkpoint ∧ checkpoint.2.isSome = true := by
  unfold IsCheckpoint ChainData.cfheaderAt
  cases params.cfheaders.find? height with
  | none => simp
  | some checkpoint => simp [Option.isSome_iff_exists]

theorem isCheckpoint_zero : IsCheckpoint params 0 := by
  obtain ⟨block, header, there⟩ := params.genesis
  exact isCheckpoint_iff.mpr ⟨_, there, rfl⟩

theorem IsCheckpoint.nonneg (is : IsCheckpoint params height) : 0 ≤ height := by
  obtain ⟨checkpoint, there, _⟩ := isCheckpoint_iff.mp is
  exact params.nonneg height checkpoint there

theorem cfheaderBefore_greatest (positive : 0 < height) :
    IsGreatest {other | IsCheckpoint params other ∧ other < height} (params.cfheaderBefore height) := by
  have genesis : IsCheckpoint params 0 := isCheckpoint_zero
  obtain ⟨checkpoint, there, some_⟩ := isCheckpoint_iff.mp genesis
  obtain ⟨entry, found⟩ : ∃ entry, params.cfheaders.findLast? (fun other checkpoint => other < height && checkpoint.2.isSome) = some entry :=
    OrderedMap.findLast?_isSome there (by simp [positive, some_])
  have value : params.cfheaderBefore height = entry.1 := by
    unfold ChainData.cfheaderBefore
    rw [found]
    rfl
  have same : {other | IsCheckpoint params other ∧ other < height} = {key | ∃ value, params.cfheaders.find? key = some value ∧
      (decide (key < height) && value.2.isSome) = true} := by
    ext other
    simp only [Set.mem_ofPred_eq, isCheckpoint_iff, Bool.and_eq_true, decide_eq_true_eq]
    exact ⟨fun ⟨⟨value, there, some_⟩, below⟩ => ⟨value, there, below, some_⟩, fun ⟨value, there, below, some_⟩ => ⟨⟨value, there, some_⟩, below⟩⟩
  rw [value, same]
  exact OrderedMap.findLast?_greatest found

theorem highest_greatest : IsGreatest {other | IsCheckpoint params other} params.highestCfheaderCheckpoint := by
  have genesis : IsCheckpoint params 0 := isCheckpoint_zero
  obtain ⟨checkpoint, there, some_⟩ := isCheckpoint_iff.mp genesis
  obtain ⟨entry, found⟩ : ∃ entry, params.cfheaders.findLast? (fun _ checkpoint => checkpoint.2.isSome) = some entry :=
    OrderedMap.findLast?_isSome there some_
  have value : params.highestCfheaderCheckpoint = entry.1 := by
    unfold ChainData.highestCfheaderCheckpoint
    rw [found]
    rfl
  have same : {other | IsCheckpoint params other} = {key | ∃ value, params.cfheaders.find? key = some value ∧ value.2.isSome = true} := by
    ext other
    exact isCheckpoint_iff
  rw [value, same]
  exact OrderedMap.findLast?_greatest found

theorem blockHeaderAt_highest : ∃ block, params.blockHeaderAt params.highestCfheaderCheckpoint = some block := by
  have highest : IsGreatest _ params.highestCfheaderCheckpoint := highest_greatest
  obtain ⟨checkpoint, there, _⟩ := isCheckpoint_iff.mp highest.1
  exact ⟨checkpoint.1, congrArg (Option.map Prod.fst) there⟩

theorem Agrees.hasCfheader (agrees : Agrees params chain db height) : HasCfheader chain db height := by
  obtain ⟨id, required, best, _, stored⟩ := agrees
  exact ⟨id, required, best, stored⟩

/-! ## The loops -/

/-- The heights where a search from a position can end: those below it, its own if it is on the best chain, and genesis. -/
def Candidates (chain : BestChain Hash) (good : Int → Prop) (start : TipPosition Hash) : Set Int :=
  {height | height = 0 ∨ 0 < height ∧ good height ∧ (height < start.height ∨ height = start.height ∧ OnBestChain chain start)}

theorem candidates_nonneg {good : Int → Prop} {start : TipPosition Hash} (candidate : height ∈ Candidates chain good start) : 0 ≤ height := by
  rcases candidate with zero | ⟨positive, _⟩
  · exact le_of_eq zero.symm
  · exact le_of_lt positive

/-- A loop ends at the highest candidate. -/
theorem rewind_spec {haveData : TipPosition Hash → Bool} {good : Int → Prop}
    (sound : ∀ position, haveData position = true → OnBestChain chain position)
    (good_iff : ∀ height, 0 < height → (haveData (getPosition chain height) = true ↔ good height)) :
    ∀ (height : Nat) (hash : Option Hash), (height = 0 → hash = some chain.genesis) →
      ∃ found, rewind chain haveData height hash = getPosition chain found ∧ IsGreatest (Candidates chain good ⟨height, hash⟩) found
  | 0, hash, genesis => by
    refine ⟨0, ?_, Or.inl rfl, fun other candidate => ?_⟩
    · rw [genesis rfl]
      rfl
    · rcases candidate with zero | ⟨positive, _, below | ⟨same, _⟩⟩
      · exact le_of_eq zero
      · exact le_of_lt below
      · exact le_of_eq same
  | prior + 1, hash, _ => by
    unfold rewind
    by_cases accepted : haveData ⟨prior + 1, hash⟩ = true
    · obtain ⟨id, some_, best⟩ := sound _ accepted
      have here : (⟨prior + 1, hash⟩ : TipPosition Hash) = getPosition chain (prior + 1) := by
        unfold getPosition
        rw [best]
        exact congrArg _ some_
      refine ⟨prior + 1, (if_pos accepted).trans here, Or.inr ⟨by omega, ?_, Or.inr ⟨by push_cast; rfl, id, some_, best⟩⟩, fun other candidate => ?_⟩
      · exact (good_iff _ (by omega)).mp (here ▸ accepted)
      · rcases candidate with zero | ⟨_, _, below | ⟨same, _⟩⟩ <;> push_cast at * <;> omega
    · rw [if_neg accepted]
      obtain ⟨found, result, greatest⟩ := rewind_spec sound good_iff prior (chain.bestBlock prior) fun zero => by rw [zero]; rfl
      refine ⟨found, result, ?_⟩
      have same : Candidates chain good ⟨(prior + 1 : Nat), hash⟩ = Candidates chain good ⟨prior, chain.bestBlock prior⟩ := by
        ext height
        constructor
        · rintro (zero | ⟨positive, fine, below | ⟨same, id, some_, best⟩⟩)
          · exact Or.inl zero
          · refine Or.inr ⟨positive, fine, ?_⟩
            rcases lt_or_eq_of_le (show height ≤ prior by push_cast at below; omega) with lower | same
            · exact Or.inl lower
            · subst same
              exact Or.inr ⟨rfl, sound _ ((good_iff _ positive).mpr fine)⟩
          · refine absurd ?_ accepted
            have whole : (⟨prior + 1, hash⟩ : TipPosition Hash) = getPosition chain height := by
              push_cast at same best some_
              subst same
              unfold getPosition
              rw [best, ← some_]
            rw [whole]
            exact (good_iff _ positive).mpr fine
        · rintro (zero | ⟨positive, fine, below | ⟨same, _⟩⟩)
          · exact Or.inl zero
          · exact Or.inr ⟨positive, fine, Or.inl (by push_cast at *; omega)⟩
          · exact Or.inr ⟨positive, fine, Or.inl (by push_cast at *; omega)⟩
      rw [same]
      exact greatest

theorem OnBestChain.getPosition {position : TipPosition Hash} (on : OnBestChain chain position) :
    getPosition chain position.height = position := by
  obtain ⟨id, hash, best⟩ := on
  show Position.mk position.height (chain.bestBlock position.height) = position
  rw [best, ← hash]

theorem OnBestChain.nonneg {position : TipPosition Hash} (on : OnBestChain chain position) : 0 ≤ position.height := by
  obtain ⟨_, _, best⟩ := on
  exact (BestChain.bestBlock_bounds best).1

theorem HasCfheader.onBestChain (has : HasCfheader chain db height) : OnBestChain chain (getPosition chain height) := by
  obtain ⟨id, _, best, _⟩ := has
  exact ⟨id, best, best⟩

theorem HasCfilter.onBestChain (has : HasCfilter chain db height) : OnBestChain chain (getPosition chain height) := by
  obtain ⟨id, best, _⟩ := has
  exact ⟨id, best, best⟩

theorem candidates_good {good : Int → Prop} {start : TipPosition Hash} (genesis : good 0) (candidate : height ∈ Candidates chain good start) :
    good height := by
  rcases candidate with zero | ⟨_, fine, _⟩
  · rwa [zero]
  · exact fine

theorem candidates_le {good : Int → Prop} {start : TipPosition Hash} (candidate : height ∈ Candidates chain good start) :
    height ≤ max 0 start.height := by
  rcases candidate with zero | ⟨_, _, below | ⟨same, _⟩⟩ <;> omega

/-- A good position of the best chain is where its search ends. -/
theorem candidates_own {good : Int → Prop} {start : TipPosition Hash} (on : OnBestChain chain start) (fine : good start.height) :
    IsGreatest (Candidates chain good start) start.height := by
  refine ⟨?_, fun other candidate => max_eq_right on.nonneg ▸ candidates_le candidate⟩
  rcases eq_or_lt_of_le on.nonneg with zero | positive
  · exact Or.inl zero.symm
  · exact Or.inr ⟨positive, fine, Or.inr ⟨rfl, on⟩⟩

theorem candidates_low {good : Int → Prop} {start : TipPosition Hash} (low : start.height < 1) : IsGreatest (Candidates chain good start) 0 := by
  refine ⟨Or.inl rfl, fun other candidate => ?_⟩
  have most := candidates_le candidate
  omega

theorem haveFilterHeader_iff : db.haveFilterHeader (chain.bestBlock height) = true ↔ HasCfheader chain db height := by
  unfold Database.haveFilterHeader Database.loadFilterHeader HasCfheader
  cases chain.bestBlock height with
  | none => simp
  | some id => simp [Option.isSome_iff_exists]

theorem haveFilter_iff : db.haveFilter (chain.bestBlock height) = true ↔ HasCfilter chain db height := by
  unfold Database.haveFilter HasCfilter
  cases chain.bestBlock height with
  | none => simp
  | some id => simp

theorem loadFilterHeader_iff {required : Header} (at_ : params.cfheaderAt height = some required) :
    db.loadFilterHeader (chain.bestBlock height) = some required ↔ Agrees params chain db height := by
  unfold Database.loadFilterHeader Agrees
  rw [at_]
  cases chain.bestBlock height with
  | none => simp
  | some id => simp

/-- The loop ends at the highest checkpoint that agrees, and has changed something if there is a higher one. -/
theorem compareFrom_spec [DecidableEq Header] (genesis : Agrees params chain db 0) : ∀ (fuel : Nat) (height : Int) (changed : Bool), 0 ≤ height → height < fuel →
    ∃ last agreed, IsGreatest (CheckpointsUpTo params height) last ∧
      IsGreatest {other | other ∈ CheckpointsUpTo params height ∧ Agrees params chain db other} agreed ∧
      compareFrom params chain db fuel height (getPosition chain height) changed =
        some (getPosition chain agreed, changed || decide (agreed ≠ last)) := by
  intro fuel
  induction fuel with
  | zero => exact fun height changed nonneg below => by omega
  | succ fuel ih =>
    intro height changed nonneg below
    unfold compareFrom
    by_cases positive : 0 < height
    · rw [if_pos positive]
      -- the checkpoint at the height or else the one before it
      obtain ⟨last, lastIs, greatest⟩ : ∃ last, (if (params.cfheaderAt height).isNone then params.cfheaderBefore height else height) = last ∧
          IsGreatest (CheckpointsUpTo params height) last := by
        by_cases missing : (params.cfheaderAt height).isNone = true
        · refine ⟨_, if_pos missing, ?_⟩
          have before : IsGreatest _ (params.cfheaderBefore height) := cfheaderBefore_greatest positive
          refine ⟨⟨before.1.1, le_of_lt before.1.2⟩, fun other both => before.2 ⟨both.1, lt_of_le_of_ne both.2 fun same => ?_⟩⟩
          obtain ⟨required, at_⟩ := both.1
          rw [same] at at_
          rw [at_] at missing
          cases missing
        · refine ⟨_, if_neg missing, ⟨Option.isSome_iff_exists.mp ?_, le_refl _⟩, fun other both => both.2⟩
          rwa [Option.isNone_iff_eq_none, ← ne_eq, Option.ne_none_iff_isSome] at missing
      have checkIs : (if (params.cfheaderAt height).isNone then getPosition chain last else getPosition chain height) = getPosition chain last := by
        by_cases missing : (params.cfheaderAt height).isNone = true
        · exact if_pos missing
        · rw [if_neg missing] at lastIs ⊢
          rw [lastIs]
      simp only [lastIs, checkIs]
      obtain ⟨required, at_⟩ := greatest.1.1
      rw [at_]
      by_cases agrees : Agrees params chain db last
      · refine ⟨last, last, greatest, ⟨⟨greatest.1, agrees⟩, fun other both => greatest.2 both.1⟩, ?_⟩
        rw [decide_eq_false (not_not_intro rfl), Bool.or_false]
        exact if_pos ((loadFilterHeader_iff at_).mpr agrees)
      · have above : 0 < last := lt_of_le_of_ne (IsCheckpoint.nonneg greatest.1.1) fun zero => agrees (zero ▸ genesis)
        have before : IsGreatest _ (params.cfheaderBefore last) := cfheaderBefore_greatest above
        have lower := lt_of_lt_of_le before.1.2 greatest.1.2
        obtain ⟨_, agreed, _, agreedGreatest, result⟩ := ih (params.cfheaderBefore last) true (IsCheckpoint.nonneg before.1.1) (by omega)
        have less : agreed < last := lt_of_le_of_lt agreedGreatest.1.1.2 before.1.2
        refine ⟨last, agreed, greatest, ⟨⟨⟨agreedGreatest.1.1.1, by have := greatest.1.2; omega⟩, agreedGreatest.1.2⟩, fun other both => ?_⟩, ?_⟩
        · have under : other < last := lt_of_le_of_ne (greatest.2 both.1) fun same => agrees (same ▸ both.2)
          exact agreedGreatest.2 ⟨⟨both.1.1, before.2 ⟨both.1.1, under⟩⟩, both.2⟩
        · rw [decide_eq_true less.ne, Bool.or_true]
          exact (if_neg fun found => agrees ((loadFilterHeader_iff at_).mp found)).trans result
    · have zero : height = 0 := by omega
      subst zero
      refine ⟨0, 0, ⟨⟨isCheckpoint_zero, le_refl _⟩, fun other both => both.2⟩, ⟨⟨⟨isCheckpoint_zero, le_refl _⟩, genesis⟩, fun other both => both.1.2⟩, ?_⟩
      rw [if_neg positive, decide_eq_false (not_not_intro rfl), Bool.or_false]

theorem compareCfheaderTipToCheckpoint_spec [DecidableEq Header] (genesis : Agrees params chain db 0) (nonneg : 0 ≤ height) : ∃ last agreed,
    IsGreatest (CheckpointsUpTo params height) last ∧
      IsGreatest {other | other ∈ CheckpointsUpTo params height ∧ Agrees params chain db other} agreed ∧
      compareCfheaderTipToCheckpoint params chain db (getPosition chain height) =
        some (getPosition chain (if agreed = last then height else agreed)) := by
  obtain ⟨last, agreed, lastGreatest, agreedGreatest, result⟩ :=
    compareFrom_spec genesis (height.toNat + 1) height false nonneg (by omega)
  refine ⟨last, agreed, lastGreatest, agreedGreatest, ?_⟩
  unfold compareCfheaderTipToCheckpoint
  show (compareFrom params chain db (height.toNat + 1) height (getPosition chain height) false).bind _ = _
  rw [result, Option.bind_some, Bool.false_or]
  by_cases same : agreed = last
  · rw [if_pos same, decide_eq_false (not_not_intro same)]
    rfl
  · rw [if_neg same, decide_eq_true same]
    rfl

/-! ## The data that is required -/

variable [DecidableEq Hash]

theorem isInBestChain_getPosition : isInBestChain chain (getPosition chain height) = true := decide_eq_true rfl

theorem haveCfheaders_iff (positive : 0 < height) :
    haveCfheaders chain db (getPosition chain height) = true ↔ HasParents chain db height := by
  unfold haveCfheaders HasParents
  rw [Bool.and_eq_true, Bool.and_eq_true, isInBestChain_getPosition]
  show (db.haveFilterHeader (chain.bestBlock height) = true ∧ db.haveFilterHeader (chain.bestBlock (height - 1)) = true) ∧ true = true ↔ _
  rw [haveFilterHeader_iff, haveFilterHeader_iff]
  exact ⟨fun both => ⟨both.1.1, fun _ => both.1.2⟩, fun both => ⟨⟨both.1, both.2 positive⟩, rfl⟩⟩

theorem haveCfilter_iff : haveCfilter chain db (getPosition chain height) = true ↔ HasCfilter chain db height := by
  unfold haveCfilter
  rw [Bool.and_eq_true, isInBestChain_getPosition, ← haveFilter_iff]
  exact and_iff_left rfl

/-- A position with data is on the best chain, as there is none for a blank hash. -/
theorem haveCfheaders_sound (position : TipPosition Hash) (accepted : haveCfheaders chain db position = true) : OnBestChain chain position := by
  unfold haveCfheaders isInBestChain at accepted
  simp only [Bool.and_eq_true, decide_eq_true_eq] at accepted
  cases hash : position.hash with
  | none =>
    have data := accepted.1.1
    rw [hash] at data
    cases data
  | some id => exact ⟨id, hash, accepted.2.symm.trans hash⟩

theorem haveCfilter_sound (position : TipPosition Hash) (accepted : haveCfilter chain db position = true) : OnBestChain chain position := by
  unfold haveCfilter isInBestChain at accepted
  simp only [Bool.and_eq_true, decide_eq_true_eq] at accepted
  cases hash : position.hash with
  | none =>
    have data := accepted.1
    rw [hash] at data
    cases data
  | some id => exact ⟨id, hash, accepted.2.symm.trans hash⟩

theorem findAcceptableCfheader_spec (genesis : HasCfheader chain db 0) (tip : TipPosition Hash) : ∃ found,
    findAcceptableCfheader chain db tip = some (getPosition chain found) ∧ IsGreatest (Candidates chain (HasParents chain db) tip) found := by
  unfold findAcceptableCfheader
  by_cases low : 1 > tip.height
  · exact ⟨0, by rw [if_pos low]; exact if_pos (haveFilterHeader_iff.mpr genesis), candidates_low low⟩
  · have data : ∀ height, 0 < height → (haveCfheaders chain db (getPosition chain height) = true ↔ HasParents chain db height) :=
      fun _ positive => haveCfheaders_iff positive
    obtain ⟨found, result, greatest⟩ := rewind_spec haveCfheaders_sound data
      tip.height.toNat tip.hash (fun zero => by omega)
    rw [Int.toNat_of_nonneg (by omega)] at greatest
    exact ⟨found, by rw [if_neg low, result], greatest⟩

/-- Where the search for the cfilter tip begins. -/
def cfilterStart (cfheaderTip tip : TipPosition Hash) : TipPosition Hash :=
  if cfheaderTip.height < tip.height ∨ (cfheaderTip.height = tip.height ∧ cfheaderTip.hash ≠ tip.hash) then cfheaderTip else tip

theorem cfilterStart_le {cfheaderTip tip : TipPosition Hash} : (cfilterStart cfheaderTip tip).height ≤ cfheaderTip.height := by
  unfold cfilterStart
  split
  · exact le_refl _
  · next above => exact not_lt.mp fun higher => above (Or.inl higher)

/-- A cfilter tip of the same chain that is not above the cfheader tip stays. -/
theorem cfilterStart_own {cfheaderTip tip : TipPosition Hash} (cfheaderOn : OnBestChain chain cfheaderTip) (on : OnBestChain chain tip)
    (below : tip.height ≤ cfheaderTip.height) : cfilterStart cfheaderTip tip = tip := by
  unfold cfilterStart
  rw [if_neg]
  rintro (above | ⟨same, other⟩)
  · omega
  · rw [← cfheaderOn.getPosition, ← on.getPosition, same] at other
    exact other rfl

theorem findAcceptableCfilter_spec (genesis : HasCfilter chain db 0) (cfheaderTip tip : TipPosition Hash) : ∃ found,
    findAcceptableCfilter chain db cfheaderTip tip = some (getPosition chain found) ∧
      IsGreatest (Candidates chain (HasCfilter chain db) (cfilterStart cfheaderTip tip)) found := by
  unfold findAcceptableCfilter
  change ∃ found, (if 1 > (cfilterStart cfheaderTip tip).height then _ else some (rewind chain (haveCfilter chain db)
    (cfilterStart cfheaderTip tip).height.toNat (cfilterStart cfheaderTip tip).hash)) = _ ∧ _
  by_cases low : 1 > (cfilterStart cfheaderTip tip).height
  · exact ⟨0, by rw [if_pos low]; exact if_pos (haveFilter_iff.mpr genesis), candidates_low low⟩
  · have data : ∀ height, 0 < height → (haveCfilter chain db (getPosition chain height) = true ↔ HasCfilter chain db height) :=
      fun _ _ => haveCfilter_iff
    obtain ⟨found, result, greatest⟩ := rewind_spec haveCfilter_sound data
      (cfilterStart cfheaderTip tip).height.toNat (cfilterStart cfheaderTip tip).hash (fun zero => by omega)
    rw [Int.toNat_of_nonneg (by omega)] at greatest
    exact ⟨found, by rw [if_neg low, result], greatest⟩


/-! ## The whole start -/

variable [DecidableEq Header]

/-- The tip is taken back to the highest checkpoint first. -/
def Resets (params : ChainData Hash Header) (reset : Bool) (tips : Tips Hash) : Prop :=
  reset = true ∧ params.highestCfheaderCheckpoint ≤ tips.cfheader.height

instance (params : ChainData Hash Header) (reset : Bool) (tips : Tips Hash) : Decidable (Resets params reset tips) :=
  inferInstanceAs (Decidable (_ ∧ _))

def cfheaderStart (params : ChainData Hash Header) (reset : Bool) (tips : Tips Hash) : TipPosition Hash :=
  if Resets params reset tips then ⟨params.highestCfheaderCheckpoint, params.blockHeaderAt params.highestCfheaderCheckpoint⟩
  else tips.cfheader

/-- The heights from which a cfheader tip is acceptable but for the checkpoints. -/
def Complete (params : ChainData Hash Header) (chain : BestChain Hash) (db : Database Hash Header) (reset : Bool) (tips : Tips Hash) : Set Int :=
  Candidates chain (HasParents chain db) (cfheaderStart params reset tips)

/-- The checkpoints up to a height that agree. -/
def AgreedUpTo (params : ChainData Hash Header) (chain : BestChain Hash) (db : Database Hash Header) (height : Int) : Set Int :=
  {other | other ∈ CheckpointsUpTo params height ∧ Agrees params chain db other}

/-- At the highest complete height the last checkpoint agrees. Else, without a reset, the last one that does
has the cfheader of its parent. -/
def Repairable (params : ChainData Hash Header) (chain : BestChain Hash) (db : Database Hash Header) (reset : Bool) (tips : Tips Hash) : Prop :=
  ∀ complete last, IsGreatest (Complete params chain db reset tips) complete → IsGreatest (CheckpointsUpTo params complete) last →
    Agrees params chain db last ∨ (¬ Resets params reset tips ∧
      ∀ agreed, IsGreatest (AgreedUpTo params chain db complete) agreed → HasParents chain db agreed)

variable {reset : Bool} {tips : Tips Hash} {complete last agreed : Int}

/-- The start succeeds, and this is where the tips end. -/
theorem init_spec (reset : Bool) (tips : Tips Hash) (cfheader : Agrees params chain db 0) (cfilter : HasCfilter chain db 0) : ∃ complete last agreed filtered,
    IsGreatest (Complete params chain db reset tips) complete ∧ IsGreatest (CheckpointsUpTo params complete) last ∧
      IsGreatest (AgreedUpTo params chain db complete) agreed ∧
      let kept := if Resets params reset tips ∨ agreed = last then complete else agreed
      IsGreatest (Candidates chain (HasCfilter chain db) (cfilterStart (getPosition chain kept) tips.cfilter)) filtered ∧
        init params chain db reset tips = some ⟨getPosition chain kept, getPosition chain filtered⟩ := by
  have genesis : HasCfheader chain db 0 := cfheader.hasCfheader
  obtain ⟨complete, found, greatest⟩ := findAcceptableCfheader_spec genesis (cfheaderStart params reset tips)
  obtain ⟨last, agreed, lastGreatest, agreedGreatest, compared⟩ := compareCfheaderTipToCheckpoint_spec cfheader (candidates_nonneg greatest.1)
  obtain ⟨filtered, ended, filteredGreatest⟩ := findAcceptableCfilter_spec cfilter
    (getPosition chain (if Resets params reset tips ∨ agreed = last then complete else agreed)) tips.cfilter
  refine ⟨complete, last, agreed, filtered, greatest, lastGreatest, agreedGreatest, filteredGreatest, ?_⟩
  unfold init
  by_cases resets : Resets params reset tips
  · obtain ⟨block, known⟩ : ∃ block, params.blockHeaderAt params.highestCfheaderCheckpoint = some block := blockHeaderAt_highest
    have start : cfheaderStart params reset tips = ⟨params.highestCfheaderCheckpoint, some block⟩ := by
      unfold cfheaderStart
      rw [if_pos resets, known]
    rw [start] at found
    rw [if_pos (Or.inl resets)] at ended ⊢
    simp only [if_pos (show reset = true ∧ params.highestCfheaderCheckpoint ≤ tips.cfheader.height from resets), known, found,
      ended, Option.bind_eq_bind, Option.bind_some]
  · have start : cfheaderStart params reset tips = tips.cfheader := if_neg resets
    rw [start] at found
    simp only [resets, false_or] at ended ⊢
    simp only [if_neg (show ¬ (reset = true ∧ params.highestCfheaderCheckpoint ≤ tips.cfheader.height) from resets), found, compared,
      ended, Option.bind_eq_bind, Option.bind_some]

omit [DecidableEq Hash] [DecidableEq Header] in
theorem agreed_eq_iff (lastGreatest : IsGreatest (CheckpointsUpTo params complete) last)
    (agreedGreatest : IsGreatest (AgreedUpTo params chain db complete) agreed) : agreed = last ↔ Agrees params chain db last :=
  ⟨fun same => same ▸ agreedGreatest.1.2,
    fun agrees => le_antisymm (lastGreatest.2 agreedGreatest.1.1) (agreedGreatest.2 ⟨lastGreatest.1, agrees⟩)⟩

omit [DecidableEq Header] in
/-- Whether the tips at the end are acceptable depends on the cfheader tip alone. -/
theorem acceptable_iff {filtered : Int} (genesis : HasCfheader chain db 0) (cfilter : HasCfilter chain db 0)
    (greatest : IsGreatest (Complete params chain db reset tips) complete) (lastGreatest : IsGreatest (CheckpointsUpTo params complete) last)
    (agreedGreatest : IsGreatest (AgreedUpTo params chain db complete) agreed) {kept : Int}
    (kept_eq : kept = if Resets params reset tips ∨ agreed = last then complete else agreed)
    (filteredGreatest : IsGreatest (Candidates chain (HasCfilter chain db) (cfilterStart (getPosition chain kept) tips.cfilter)) filtered) :
    Acceptable params chain db ⟨getPosition chain kept, getPosition chain filtered⟩ ↔
      Agrees params chain db last ∨ (¬ Resets params reset tips ∧ HasParents chain db agreed) := by
  have whole : HasParents chain db complete := candidates_good ⟨genesis, fun positive => absurd positive (lt_irrefl 0)⟩ greatest.1
  have same_iff := agreed_eq_iff lastGreatest agreedGreatest
  constructor
  · intro acceptable
    by_cases same : agreed = last
    · exact Or.inl (same_iff.mp same)
    by_cases resets : Resets params reset tips
    · rw [if_pos (Or.inl resets)] at kept_eq
      subst kept_eq
      exact Or.inl (acceptable.agrees last lastGreatest)
    · rw [if_neg (not_or.mpr ⟨resets, same⟩)] at kept_eq
      subst kept_eq
      exact Or.inr ⟨resets, acceptable.parents⟩
  · intro repairable
    have ending : (kept = complete ∧ Agrees params chain db last) ∨ (kept = agreed ∧ HasParents chain db agreed) := by
      by_cases same : agreed = last
      · exact Or.inl ⟨kept_eq.trans (if_pos (Or.inr same)), same_iff.mp same⟩
      · obtain ⟨noReset, parents⟩ := repairable.resolve_left fun agrees => same (same_iff.mpr agrees)
        exact Or.inr ⟨kept_eq.trans (if_neg (not_or.mpr ⟨noReset, same⟩)), parents⟩
    have parents : HasParents chain db kept := by
      rcases ending with ⟨same, _⟩ | ⟨same, parents⟩
      · rwa [same]
      · rwa [same]
    have agrees : ∀ checkpoint, IsGreatest (CheckpointsUpTo params kept) checkpoint → Agrees params chain db checkpoint := by
      intro checkpoint checkpointGreatest
      rcases ending with ⟨same, agrees⟩ | ⟨same, _⟩
      · rw [same] at checkpointGreatest
        rwa [checkpointGreatest.unique lastGreatest]
      · -- the highest checkpoint up to a checkpoint is itself
        have own : IsGreatest (CheckpointsUpTo params kept) kept := ⟨⟨same ▸ agreedGreatest.1.1.1, le_refl _⟩, fun _ both => both.2⟩
        rw [checkpointGreatest.unique own, same]
        exact agreedGreatest.1.2
    have on := parents.1.onBestChain
    have stored : HasCfilter chain db filtered := candidates_good cfilter filteredGreatest.1
    have below : filtered ≤ kept := by
      have most := candidates_le filteredGreatest.1
      have start : (cfilterStart (getPosition chain kept) tips.cfilter).height ≤ kept := cfilterStart_le
      have nonneg : 0 ≤ kept := on.nonneg
      omega
    exact { cfheader := on, parents, agrees, cfilter := stored.onBestChain, below, stored }

/-- With the data of genesis, the start leaves acceptable tips, and those that it found unless it was asked for
a reset, if and only if they are repairable. -/
theorem startup_repairs_iff (params : ChainData Hash Header) (chain : BestChain Hash) (db : Database Hash Header) (reset : Bool)
    (tips : Tips Hash) (cfheader : Agrees params chain db 0) (cfilter : HasCfilter chain db 0) :
    (∃ after, init params chain db reset tips = some after ∧ Acceptable params chain db after ∧
      (¬ Resets params reset tips → Acceptable params chain db tips → after = tips)) ↔ Repairable params chain db reset tips := by
  have genesis := cfheader.hasCfheader
  obtain ⟨complete, last, agreed, filtered, greatest, lastGreatest, agreedGreatest, filteredGreatest, result⟩ :=
    init_spec reset tips cfheader cfilter
  have acceptable := acceptable_iff genesis cfilter greatest lastGreatest agreedGreatest rfl filteredGreatest
  have repairable : Repairable params chain db reset tips ↔
      Agrees params chain db last ∨ (¬ Resets params reset tips ∧ HasParents chain db agreed) := by
    constructor
    · intro repairable
      exact (repairable complete last greatest lastGreatest).imp_right fun both => ⟨both.1, both.2 agreed agreedGreatest⟩
    · intro either other otherLast otherGreatest otherLastGreatest
      rw [otherGreatest.unique greatest] at otherLastGreatest ⊢
      rw [otherLastGreatest.unique lastGreatest]
      exact either.imp_right fun both => ⟨both.1, fun _ other => other.unique agreedGreatest ▸ both.2⟩
  rw [repairable, ← acceptable]
  constructor
  · rintro ⟨after, ended, fine, _⟩
    rw [result] at ended
    exact Option.some.inj ended ▸ fine
  · intro fine
    refine ⟨_, result, fine, fun noReset already => ?_⟩
    have start : cfheaderStart params reset tips = tips.cfheader := if_neg noReset
    have completeOwn : complete = tips.cfheader.height := by
      rw [Complete, start] at greatest
      exact greatest.unique (candidates_own already.cfheader already.parents)
    have same : agreed = last := (agreed_eq_iff lastGreatest agreedGreatest).mpr (already.agrees last (completeOwn ▸ lastGreatest))
    rw [if_pos (Or.inr same), completeOwn, already.cfheader.getPosition] at filteredGreatest ⊢
    rw [cfilterStart_own already.cfheader already.cfilter already.below] at filteredGreatest
    rw [filteredGreatest.unique (candidates_own already.cfilter already.stored), already.cfilter.getPosition]

/-- Checkpoints at the heights 0, 2 and 4. -/
def everySecond : ChainData Nat Nat where
  cfheaders := ⟨[(0, 0, some 0), (2, 2, some 20), (4, 4, some 40)], by decide⟩
  nonneg height checkpoint there := by
    rcases List.mem_cons.mp ((OrderedMap.find?_eq_some _ _ _).mp there) with first | rest
    · exact le_of_eq (congrArg Prod.fst first).symm
    · simp at rest
      omega
  genesis := ⟨0, 0, rfl⟩

def fiveBlocks : BestChain Nat := ⟨0, [1, 2, 3, 4]⟩

/-- The stored cfheaders, and all cfilters. -/
def stored (cfheaders : List (Nat × Nat)) : Database Nat Nat := ⟨fun id => cfheaders.lookup id, fun _ => true⟩

def whole : Database Nat Nat := stored [(0, 0), (1, 10), (2, 20), (3, 30), (4, 40)]

/-- The cfheader of the tip is wrong, and the one below the checkpoint before it is missing. -/
def holed : Database Nat Nat := stored [(0, 0), (2, 20), (3, 30), (4, 41)]

def highest : Tips Nat := ⟨⟨4, some 4⟩, ⟨4, some 4⟩⟩

theorem whole_stays : ∃ after, init everySecond fiveBlocks whole false highest = some after ∧ Acceptable everySecond fiveBlocks whole after ∧
    (¬ Resets everySecond false highest → Acceptable everySecond fiveBlocks whole highest → after = highest) :=
  (startup_repairs_iff everySecond fiveBlocks whole false highest ⟨0, 0, rfl, rfl, rfl⟩ ⟨0, rfl, rfl⟩).mpr (by
    intro complete last greatest lastGreatest
    have top : complete = 4 := greatest.unique
      (candidates_own ⟨4, rfl, rfl⟩ ⟨⟨4, 40, rfl, rfl⟩, fun _ => ⟨3, 30, rfl, rfl⟩⟩)
    rw [top] at lastGreatest
    have checkpoint : last = 4 := lastGreatest.unique ⟨⟨⟨40, rfl⟩, le_refl 4⟩, fun _ both => both.2⟩
    rw [checkpoint]
    exact Or.inl ⟨4, 40, rfl, rfl, rfl⟩)

/-- The tip is moved to a checkpoint without the cfheader of its parent. -/
theorem checkpoint_without_parent : ¬ ∃ after, init everySecond fiveBlocks holed false highest = some after ∧
    Acceptable everySecond fiveBlocks holed after ∧
      (¬ Resets everySecond false highest → Acceptable everySecond fiveBlocks holed highest → after = highest) := by
  rintro ⟨after, ended, fine, _⟩
  have result : init everySecond fiveBlocks holed false highest = some ⟨⟨2, some 2⟩, ⟨2, some 2⟩⟩ := rfl
  rw [result] at ended
  obtain ⟨id, header, best, missing⟩ := (Option.some.inj ended ▸ fine).parents.2 (by decide)
  cases best
  cases missing

end Opentxs.FilterOracle.Startup
