import Opentxs.FilterOracle.BlockIndexer

/-! The jobs of the indexer form one chain above its tip: one job at each height, in one of the four
maps, each with the future filter header of the job below it. -/

namespace Opentxs.FilterOracle
open Library Library.Ordered HeaderOracle BlockHeader
open HeaderOracle.Storage (Database)
open Ancestors

namespace BlockIndexer

variable {Location Block Filter Cfheader Work : Type} [DecidableEq Cfheader]
variable {chain : Chain Location Block Filter Cfheader} {indexer before after : BlockIndexer Location Filter Cfheader}
variable {tree : Branching Hash} {top tip : Position}

/-! ## The jobs by their heights -/

section Jobs

variable {work : Stage → WorkMap Location Filter} {stage start finish : Stage} {height : Int} {job old : Job Location Filter}

/-- No height is in two maps. -/
def Single (work : Stage → WorkMap Location Filter) : Prop :=
  ∀ height first second, (work first).find? height ≠ none → (work second).find? height ≠ none → first = second

/-- What is fixed of the job at a height, in whatever map it is. -/
def links (work : Stage → WorkMap Location Filter) (height : Int) : Option Link :=
  (((work .queued).find? height).or (((work .downloading).find? height).or
    (((work .processing).find? height).or ((work .finished).find? height)))).map Job.toLink

theorem links_eq_none (work : Stage → WorkMap Location Filter) (height : Int) :
    links work height = none ↔ ∀ stage, (work stage).find? height = none := by
  simp only [links, Option.map_eq_none_iff, Option.or_eq_none_iff]
  constructor
  · rintro ⟨queued, downloading, processing, finished⟩ stage
    cases stage with
    | queued => exact queued
    | downloading => exact downloading
    | processing => exact processing
    | finished => exact finished
  · exact fun none => ⟨none _, none _, none _, none _⟩

theorem exists_of_links {link : Link} (found : links work height = some link) :
    ∃ stage job, (work stage).find? height = some job ∧ job.toLink = link := by
  obtain ⟨job, among, same⟩ := Option.map_eq_some_iff.mp found
  rcases Option.or_eq_some_iff.mp among with here | ⟨_, among⟩
  · exact ⟨_, job, here, same⟩
  rcases Option.or_eq_some_iff.mp among with here | ⟨_, among⟩
  · exact ⟨_, job, here, same⟩
  rcases Option.or_eq_some_iff.mp among with here | ⟨_, here⟩
  · exact ⟨_, job, here, same⟩
  · exact ⟨_, job, here, same⟩

theorem Single.other (single : Single work) (found : (work stage).find? height = some job) {other : Stage} (apart : other ≠ stage) :
    (work other).find? height = none := by
  by_contra present
  exact apart (single height other stage present (by rw [found]; exact Option.some_ne_none _))

theorem Single.links_eq (single : Single work) (found : (work stage).find? height = some job) :
    links work height = some job.toLink := by
  cases present : links work height with
  | none =>
    rw [(links_eq_none work height).mp present stage] at found
    cases found
  | some link =>
    obtain ⟨other, there, here, rfl⟩ := exists_of_links present
    have same : other = stage := by
      by_contra apart
      rw [single.other found apart] at here
      cases here
    rw [same, found] at here
    cases here
    rfl

theorem Single.part {others : Stage → WorkMap Location Filter} (single : Single work)
    (part : ∀ stage height job, (others stage).find? height = some job → (work stage).find? height = some job) : Single others := by
  intro height first second here there
  obtain ⟨job, found⟩ := Option.ne_none_iff_exists'.mp here
  obtain ⟨other, foundOther⟩ := Option.ne_none_iff_exists'.mp there
  refine single height first second ?_ ?_
  · rw [part first height job found]
    exact Option.some_ne_none _
  · rw [part second height other foundOther]
    exact Option.some_ne_none _

theorem find?_move (single : Single work) (found : (work start).find? height = some old) (key : Int) :
    ((move start finish height job work) stage).find? key =
      if key = height then if stage = finish then some job else none else (work stage).find? key := by
  have empty : ((Function.update work start ((work start).erase height)) finish).find? height = none := by
    by_cases same : finish = start
    · rw [same, Function.update_self, OrderedMap.find?_erase, if_pos rfl]
    · rw [Function.update_of_ne same]
      exact single.other found same
  unfold move
  by_cases arrived : stage = finish
  · rw [arrived, Function.update_self, OrderedMap.find?_emplace, empty, if_pos rfl]
    split
    · rfl
    · next apart =>
      by_cases same : finish = start
      · rw [same, Function.update_self, OrderedMap.find?_erase, if_neg apart]
      · rw [Function.update_of_ne same]
  · rw [Function.update_of_ne arrived, if_neg arrived]
    by_cases same : stage = start
    · rw [same, Function.update_self, OrderedMap.find?_erase]
    · rw [Function.update_of_ne same]
      split
      · next here => exact here ▸ single.other found same
      · rfl

theorem Single.moved (single : Single work) (found : (work start).find? height = some old) :
    Single (move start finish height job work) := by
  intro key first second here there
  rw [find?_move single found] at here there
  by_cases same : key = height
  · rw [if_pos same] at here there
    have left : first = finish := by
      by_contra apart
      exact here (if_neg apart)
    have right : second = finish := by
      by_contra apart
      exact there (if_neg apart)
    exact left.trans right.symm
  · rw [if_neg same] at here there
    exact single key first second here there

theorem links_move (single : Single work) (found : (work start).find? height = some old) (kept : job.toLink = old.toLink) (key : Int) :
    links (move start finish height job work) key = links work key := by
  by_cases same : key = height
  · subst same
    have moved : ((move start finish key job work) finish).find? key = some job := by
      rw [find?_move single found, if_pos rfl, if_pos rfl]
    rw [(single.moved found).links_eq moved, single.links_eq found, kept]
  · simp only [links, find?_move single found, if_neg same]

end Jobs

end BlockIndexer

/-! ## The chain of futures -/

section Chained

variable {Cfheader : Type} {tree : Branching Hash} {tip top ancestor child : Position} {cfheader nextFuture : Future}
variable {links others : Int → Option Link} {values : Future → Option Cfheader} {link : Link}

/-- Each job has the future of the one below it, the first one that of the tip. No promise of a
job has been kept yet, and numbers grow with the heights. -/
structure Chained (tree : Branching Hash) (tip : Position) (cfheader : Future) (top : Position) (links : Int → Option Link)
    (values : Future → Option Cfheader) (nextFuture : Future) : Prop where
  spans : Spans tree tip top fun height => (links height).map Link.position
  first : ∀ link, links (tip.height + 1) = some link → link.previousCfheader = cfheader
  next : ∀ height link above, links height = some link → links (height + 1) = some above → above.previousCfheader = link.future
  later : ∀ height other link above, links height = some link → links other = some above → height < other →
    link.future < above.future
  fresh : ∀ height link, links height = some link → cfheader < link.future ∧ link.future < nextFuture ∧ values link.future = none
  beyond : cfheader < nextFuture ∧ ∀ future, nextFuture ≤ future → values future = none

theorem Chained.congr (chained : Chained tree tip cfheader top links values nextFuture) (same : ∀ height, others height = links height) :
    Chained tree tip cfheader top others values nextFuture := (funext same : others = links) ▸ chained

theorem Chained.within (chained : Chained tree tip cfheader top links values nextFuture) {height : Int} (found : links height = some link) :
    tip.height < height ∧ height ≤ top.height ∧ link.position.height = height ∧ On tree top link.position :=
  chained.spans.within height link.position (by rw [found]; rfl)

theorem chained_none (has : Has tree tip) (beyond : ∀ future, nextFuture < future → values future = none) :
    Chained tree tip nextFuture tip (fun _ => none) values (nextFuture + 1) where
  spans := spans_none has
  first := fun _ found => (nomatch found)
  next := fun _ _ _ found => (nomatch found)
  later := fun _ _ _ _ found => (nomatch found)
  fresh := fun _ _ found => (nomatch found)
  beyond := ⟨Nat.lt_succ_self _, fun future above => beyond future above⟩

theorem Chained.cut (chained : Chained tree tip cfheader top links values nextFuture) (on : On tree top ancestor)
    (le : tip.height ≤ ancestor.height) :
    Chained tree tip cfheader ancestor (fun height => if height ≤ ancestor.height then links height else none) values nextFuture where
  spans := (chained.spans.cut on le).congr fun height => by
    split
    · rfl
    · rfl
  first := fun link found => chained.first link (Option.ite_none_right_eq_some.mp found).2
  next := fun height link above found foundAbove =>
    chained.next height link above (Option.ite_none_right_eq_some.mp found).2 (Option.ite_none_right_eq_some.mp foundAbove).2
  later := fun height other link above found foundAbove =>
    chained.later height other link above (Option.ite_none_right_eq_some.mp found).2 (Option.ite_none_right_eq_some.mp foundAbove).2
  fresh := fun height link found => chained.fresh height link (Option.ite_none_right_eq_some.mp found).2
  beyond := chained.beyond

/-- The future that the next job gets. -/
def lastFuture (links : Int → Option Link) (top : Position) (cfheader : Future) : Future :=
  ((links top.height).map Link.future).getD cfheader

theorem Chained.extend (chained : Chained tree tip cfheader top links values nextFuture) (has : Has tree child)
    (next : child.height = top.height + 1) (parent : tree.parent child.hash = top.hash) :
    Chained tree tip cfheader child
      (fun height => if height = child.height then some ⟨child, lastFuture links top cfheader, nextFuture⟩ else links height)
      values (nextFuture + 1) where
  spans := (chained.spans.extend has next parent).congr fun height => by
    split
    · rfl
    · rfl
  first := by
    intro link found
    split at found
    · next level =>
      cases found
      have none : links top.height = none := by
        by_contra present
        obtain ⟨last, here⟩ := Option.ne_none_iff_exists'.mp present
        have := (chained.within here).1
        omega
      show lastFuture links top cfheader = cfheader
      rw [lastFuture, none]
      rfl
    · exact chained.first link found
  next := by
    intro height link above found foundAbove
    split at foundAbove
    · next level =>
      have under : height = top.height := by omega
      rw [if_neg (by omega), under] at found
      cases foundAbove
      show lastFuture links top cfheader = link.future
      rw [lastFuture, found]
      rfl
    · split at found
      · next level =>
        have := (chained.within foundAbove).2.1
        omega
      · exact chained.next height link above found foundAbove
  later := by
    intro height other link above found foundAbove lower
    split at foundAbove
    · next level =>
      cases foundAbove
      rw [if_neg (by omega)] at found
      exact (chained.fresh height link found).2.1
    · split at found
      · next level =>
        have := (chained.within foundAbove).2.1
        omega
      · exact chained.later height other link above found foundAbove lower
  fresh := by
    intro height link found
    split at found
    · cases found
      exact ⟨chained.beyond.1, Nat.lt_succ_self _, chained.beyond.2 nextFuture le_rfl⟩
    · obtain ⟨low, high, unset⟩ := chained.fresh height link found
      exact ⟨low, Nat.lt_succ_of_lt high, unset⟩
  beyond := ⟨Nat.lt_succ_of_lt chained.beyond.1, fun future above => chained.beyond.2 future (Nat.le_of_succ_le above)⟩

/-- The lowest job is finished, and its promise is kept. -/
theorem Chained.advance (chained : Chained tree tip cfheader top links values nextFuture) (found : links (tip.height + 1) = some link)
    (value : Cfheader) :
    Chained tree link.position link.future top (fun height => if height = tip.height + 1 then none else links height)
      (Function.update values link.future (some value)) nextFuture where
  spans := (chained.spans.advance (show (links (tip.height + 1)).map Link.position = some link.position by rw [found]; rfl)).congr
    fun height => by
      split
      · rfl
      · rfl
  first := by
    intro above foundAbove
    rw [(chained.within found).2.2.1] at foundAbove
    exact chained.next _ link above found (Option.ite_none_left_eq_some.mp foundAbove).2
  next := fun height link above found foundAbove =>
    chained.next height link above (Option.ite_none_left_eq_some.mp found).2 (Option.ite_none_left_eq_some.mp foundAbove).2
  later := fun height other link above found foundAbove =>
    chained.later height other link above (Option.ite_none_left_eq_some.mp found).2 (Option.ite_none_left_eq_some.mp foundAbove).2
  fresh := by
    intro height above foundAbove
    obtain ⟨apart, there⟩ := Option.ite_none_left_eq_some.mp foundAbove
    obtain ⟨_, low, unset⟩ := chained.fresh height above there
    have higher := (chained.within there).1
    have behind := chained.later _ height link above found there (by omega)
    exact ⟨behind, low, by rw [Function.update_of_ne behind.ne']; exact unset⟩
  beyond := by
    have low := (chained.fresh _ link found).2.1
    refine ⟨low, fun future above => ?_⟩
    rw [Function.update_of_ne (lt_of_lt_of_le low above).ne']
    exact chained.beyond.2 future above

end Chained

namespace BlockIndexer

variable {Location Block Filter Cfheader Work : Type}
variable {chain : Chain Location Block Filter Cfheader} {indexer before after : BlockIndexer Location Filter Cfheader}
variable {tree : Branching Hash} {top tip ancestor child : Position}

/-! ## What the indexer keeps -/

/-- The filter is that of a block that was read under the hash. -/
def FilterOf (chain : Chain Location Block Filter Cfheader) (hash : Hash) (cfilter : Filter) : Prop :=
  ∃ location block, chain.construct hash location = some block ∧ chain.processBlock block = some cfilter

/-- A job that waits for its block is listed under the hash of the block. -/
def Listed (index : OrderedMap Hash Int) (work : Stage → WorkMap Location Filter) : Prop :=
  ∀ stage height job, stage = .queued ∨ stage = .downloading → (work stage).find? height = some job →
    index.find? job.position.hash = some height

def Filtered (chain : Chain Location Block Filter Cfheader) (work : Stage → WorkMap Location Filter) : Prop :=
  ∀ stage height job cfilter, (work stage).find? height = some job → job.cfilter = some cfilter →
    FilterOf chain job.position.hash cfilter

structure InOrder (tree : Branching Hash) (chain : Chain Location Block Filter Cfheader)
    (indexer : BlockIndexer Location Filter Cfheader) (top : Position) : Prop where
  single : Single indexer.work
  chained : Chained tree indexer.tip indexer.cfheader top (links indexer.work) indexer.values indexer.nextFuture
  stored : ∃ header, indexer.values indexer.cfheader = some header ∧ indexer.cfheaders indexer.tip.hash = some header
  listed : Listed indexer.index indexer.work
  filtered : Filtered chain indexer.work

theorem InOrder.within (order : InOrder tree chain indexer top) {stage : Stage} {height : Int} {job : Job Location Filter}
    (found : (indexer.work stage).find? height = some job) :
    indexer.tip.height < height ∧ height ≤ top.height ∧ job.position.height = height ∧ On tree top job.position :=
  order.chained.within (order.single.links_eq found)

/-- Two jobs for one block are one job. -/
theorem InOrder.height_eq (order : InOrder tree chain indexer top) {first second : Stage} {height other : Int}
    {job twin : Job Location Filter} (found : (indexer.work first).find? height = some job)
    (there : (indexer.work second).find? other = some twin) (same : job.position.hash = twin.position.hash) : height = other := by
  obtain ⟨_, _, level, on⟩ := order.within found
  obtain ⟨_, _, levelOther, onOther⟩ := order.within there
  rw [← level, ← levelOther, ← on.has.height, ← onOther.has.height, same]

/-! ## Going back -/

theorem loadTip_eq_some (loaded : before.loadTip tip = some after) :
    ∃ header, before.cfheaders tip.hash = some header ∧ after = { before with
      tip
      cfheader := before.nextFuture
      values := Function.update before.values before.nextFuture (some header)
      nextFuture := before.nextFuture + 1 } := by
  unfold loadTip at loaded
  split at loaded
  · cases loaded
  · next header known => exact ⟨header, known, (Option.some.inj loaded).symm⟩

/-- A tip that was loaded, without any jobs. -/
theorem inOrder_loaded (has : Has tree tip) (beyond : ∀ future, before.nextFuture ≤ future → before.values future = none)
    (loaded : before.loadTip tip = some after) : InOrder tree chain { after with work := fun _ => .empty } tip := by
  obtain ⟨header, known, rfl⟩ := loadTip_eq_some loaded
  have single : Single (fun _ => OrderedMap.empty : Stage → WorkMap Location Filter) := fun _ _ _ present => absurd rfl present
  refine ⟨single, ?_, ⟨header, Function.update_self _ _ _, known⟩, fun _ _ _ _ found => (nomatch found), fun _ _ _ _ found => (nomatch found)⟩
  refine (chained_none has fun future above => ?_).congr fun height => rfl
  show Function.update before.values before.nextFuture (some header) future = none
  rw [Function.update_of_ne above.ne']
  exact beyond future above.le

/-- Cutting leaves the jobs up to the ancestor in every map. -/
theorem InOrder.find?_cut (order : InOrder tree chain indexer top) (on : On tree top ancestor) (stage : Stage) (height : Int) :
    ((indexer.work stage).clean ancestor.height fun job => job.position = ancestor).find? height =
      if height ≤ ancestor.height then (indexer.work stage).find? height else none :=
  find?_clean_of_spans (indexer.work stage) (fun job => job.position) on (fun _ _ found => (order.within found).2.2) height

theorem InOrder.cut (order : InOrder tree chain indexer top) (on : On tree top ancestor) (le : indexer.tip.height ≤ ancestor.height) :
    InOrder tree chain { indexer with
      work := fun stage => (indexer.work stage).clean ancestor.height fun job => job.position = ancestor } ancestor := by
  have part (stage : Stage) (height : Int) (job : Job Location Filter)
      (found : ((indexer.work stage).clean ancestor.height fun job => job.position = ancestor).find? height = some job) :
      (indexer.work stage).find? height = some job := by
    rw [order.find?_cut on] at found
    exact (Option.ite_none_right_eq_some.mp found).2
  refine ⟨order.single.part part, (order.chained.cut on le).congr fun height => ?_, order.stored,
    fun stage height job waits found => order.listed stage height job waits (part stage height job found),
    fun stage height job cfilter found => order.filtered stage height job cfilter (part stage height job found)⟩
  simp only [links, order.find?_cut on]
  split
  · rfl
  · rfl

theorem InOrder.adjusted (order : InOrder tree chain before top) (on : On tree top ancestor)
    (done : adjustTip chain ancestor before = some after) : InOrder tree chain after ancestor := by
  unfold adjustTip at done
  split at done
  · obtain ⟨loaded, load, rfl⟩ := Option.map_eq_some_iff.mp done
    have kept := @inOrder_loaded _ _ _ _ chain _ _ _ _ on.has order.chained.beyond.2 load
    exact ⟨kept.single, kept.chained, kept.stored, kept.listed, kept.filtered⟩
  · next stay =>
    cases done
    have le := not_lt.mp fun lower => stay ((order.chained.spans.isReset_iff on).mpr lower)
    have kept := order.cut on le
    exact ⟨kept.single, kept.chained, kept.stored, kept.listed, kept.filtered⟩

/-! ## The next jobs -/

/-- The cache holds the last job of each map that was looked at. -/
structure Caches (work : Stage → WorkMap Location Filter) (looked : List Stage) (cache : WorkMap Location Filter) : Prop where
  found : ∀ height job, cache.find? height = some job → ∃ stage ∈ looked, (work stage).find? height = some job
  covers : ∀ stage ∈ looked, ∀ height, (work stage).find? height ≠ none → ∃ last, height ≤ last ∧ cache.find? last ≠ none

/-- The job that a map adds to the cache. -/
def cacheLast (indexer : BlockIndexer Location Filter Cfheader) (cache : WorkMap Location Filter) (stage : Stage) :
    Option (WorkMap Location Filter) :=
  match (indexer.work stage).last? with
  | none => some cache
  | some (height, job) => if cache.find? height = none then some (cache.emplace height job) else none

theorem Caches.step (single : Single indexer.work) {looked : List Stage} {cache : WorkMap Location Filter}
    (caches : Caches indexer.work looked cache) {stage : Stage} (new : stage ∉ looked) :
    ∃ next, cacheLast indexer cache stage = some next ∧ Caches indexer.work (stage :: looked) next := by
  unfold cacheLast
  split
  · next empty =>
    refine ⟨cache, rfl, fun height job found => ?_, fun other member height present => ?_⟩
    · obtain ⟨other, member, here⟩ := caches.found height job found
      exact ⟨other, List.mem_cons_of_mem stage member, here⟩
    · rcases List.mem_cons.mp member with rfl | member
      · exact absurd ((OrderedMap.last?_eq_none _).mp empty height) present
      · exact caches.covers other member height present
  · next height job last =>
    obtain ⟨here, greatest⟩ := (OrderedMap.last?_eq_some _ height job).mp last
    have missing : cache.find? height = none := by
      by_contra present
      obtain ⟨twin, found⟩ := Option.ne_none_iff_exists'.mp present
      obtain ⟨other, member, there⟩ := caches.found height twin found
      have same := single height other stage (by rw [there]; exact Option.some_ne_none _) (by rw [here]; exact Option.some_ne_none _)
      exact new (same ▸ member)
    rw [if_pos missing]
    have added (key : Int) : (cache.emplace height job).find? key = if key = height then some job else cache.find? key := by
      rw [OrderedMap.find?_emplace, missing]
      rfl
    refine ⟨_, rfl, fun key other found => ?_, fun other member key present => ?_⟩
    · rw [added] at found
      split at found
      · next same =>
        cases found
        exact ⟨stage, List.mem_cons_self, same ▸ here⟩
      · obtain ⟨where', member, there⟩ := caches.found key other found
        exact ⟨where', List.mem_cons_of_mem stage member, there⟩
    · rcases List.mem_cons.mp member with rfl | member
      · exact ⟨height, greatest key present, by rw [added, if_pos rfl]; exact Option.some_ne_none _⟩
      · obtain ⟨last, le, kept⟩ := caches.covers other member key present
        refine ⟨last, le, ?_⟩
        rw [added]
        split
        · exact Option.some_ne_none _
        · exact kept

theorem Caches.all (single : Single indexer.work) (rest : List Stage) : ∀ {looked : List Stage} {cache : WorkMap Location Filter},
    Caches indexer.work looked cache → rest.Nodup → (∀ stage ∈ rest, stage ∉ looked) →
    ∃ last, rest.foldlM (cacheLast indexer) cache = some last ∧ Caches indexer.work (rest.reverse ++ looked) last := by
  induction rest with
  | nil => exact fun caches _ _ => ⟨_, rfl, caches⟩
  | cons stage rest ih =>
    intro looked cache caches nodup new
    obtain ⟨alone, nodup⟩ := List.nodup_cons.mp nodup
    obtain ⟨next, stepped, kept⟩ := caches.step single (new stage List.mem_cons_self)
    obtain ⟨last, done, whole⟩ := ih kept nodup fun other member inside =>
      (List.mem_cons.mp inside).elim (fun same => alone (same ▸ member)) (new other (List.mem_cons_of_mem stage member))
    refine ⟨last, ?_, by rwa [List.reverse_cons, List.append_assoc, List.singleton_append]⟩
    rw [List.foldlM_cons, stepped]
    exact done

/-- The next job comes right above the top and takes over the last future. -/
theorem InOrder.previousCfheader_eq (order : InOrder tree chain indexer top) :
    indexer.previousCfheader = some (top.height, lastFuture (links indexer.work) top indexer.cfheader) := by
  have start : Caches indexer.work [] OrderedMap.empty := ⟨fun _ _ found => (nomatch found), fun _ member => (nomatch member)⟩
  obtain ⟨cache, folded, caches⟩ := Caches.all order.single stages start (by decide) (fun _ _ member => (nomatch member))
  have every (stage : Stage) : stage ∈ stages.reverse ++ [] := by
    cases stage <;> decide
  have cached : indexer.lastJobs = some cache := folded
  rw [previousCfheader, cached, Option.map_some]
  split
  · next empty =>
    have alone (height : Int) : links indexer.work height = none := by
      rw [links_eq_none]
      intro stage
      by_contra present
      obtain ⟨last, _, kept⟩ := caches.covers stage (every stage) height present
      exact kept ((OrderedMap.last?_eq_none _).mp empty last)
    have same : indexer.tip = top := order.chained.spans.tip_eq_top fun height => by
      show (links indexer.work height).map Link.position = none
      rw [alone]
      rfl
    rw [lastFuture, alone, same]
    rfl
  · next height job last =>
    obtain ⟨found, greatest⟩ := (OrderedMap.last?_eq_some _ height job).mp last
    obtain ⟨stage, _, here⟩ := caches.found height job found
    have linked := order.single.links_eq here
    have highest (other : Int) (present : (links indexer.work other).map Link.position ≠ none) : other ≤ height := by
      obtain ⟨link, there⟩ := Option.ne_none_iff_exists'.mp fun missing : links indexer.work other = none => present (by rw [missing]; rfl)
      obtain ⟨stage, twin, at_other, _⟩ := exists_of_links there
      obtain ⟨last, le, kept⟩ := caches.covers stage (every stage) other (by rw [at_other]; exact Option.some_ne_none _)
      exact le.trans (greatest last kept)
    have same : job.position = top := order.chained.spans.eq_top (by rw [linked]; rfl) highest
    have level : height = top.height := by rw [← same]; exact (order.within here).2.2.1.symm
    rw [lastFuture, ← level, linked]
    rfl

/-- The job that is queued. -/
def newJob (position : Position) (cfheader future : Future) : Job Location Filter :=
  { position, previousCfheader := cfheader, future }

theorem InOrder.find?_queueJob (order : InOrder tree chain indexer top) (hash : Hash) (cfheader : Future) (stage : Stage) (height : Int) :
    ((indexer.queueJob hash (top.height + 1) cfheader).work stage).find? height =
      if height = top.height + 1 then if stage = .queued then some (newJob ⟨top.height + 1, hash⟩ cfheader indexer.nextFuture) else none
      else (indexer.work stage).find? height := by
  have above (other : Stage) : (indexer.work other).find? (top.height + 1) = none := by
    by_contra present
    obtain ⟨job, found⟩ := Option.ne_none_iff_exists'.mp present
    have := (order.within found).2.1
    omega
  show ((Function.update indexer.work .queued _) stage).find? height = _
  by_cases same : stage = .queued
  · subst same
    rw [Function.update_self, OrderedMap.find?_emplace, above]
    rfl
  · rw [Function.update_of_ne same, if_neg same]
    split
    · next level => rw [level, above]
    · rfl

theorem InOrder.queued (order : InOrder tree chain indexer top) {hash : Hash} (has : Has tree ⟨top.height + 1, hash⟩)
    (parent : tree.parent hash = top.hash) :
    InOrder tree chain (indexer.queueJob hash (top.height + 1) (lastFuture (links indexer.work) top indexer.cfheader))
      ⟨top.height + 1, hash⟩ := by
  have fresh {stage : Stage} {job : Job Location Filter} (found : (indexer.work stage).find? (top.height + 1) = some job) : False := by
    have := (order.within found).2.1
    omega
  have single : Single (indexer.queueJob hash (top.height + 1) (lastFuture (links indexer.work) top indexer.cfheader)).work := by
    intro height first second here there
    rw [order.find?_queueJob] at here there
    split at here
    · next level =>
      rw [if_pos level] at there
      have left : first = .queued := by
        by_contra apart
        exact here (if_neg apart)
      have right : second = .queued := by
        by_contra apart
        exact there (if_neg apart)
      exact left.trans right.symm
    · next apart =>
      rw [if_neg apart] at there
      exact order.single height first second here there
  refine ⟨single, (order.chained.extend has rfl parent).congr fun height => ?_, order.stored, ?_, ?_⟩
  · split
    · next level =>
      have made := order.find?_queueJob hash (lastFuture (links indexer.work) top indexer.cfheader) .queued height
      rw [if_pos level, if_pos rfl] at made
      rw [single.links_eq made]
      rfl
    · next apart => simp only [links, order.find?_queueJob, if_neg (show ¬height = top.height + 1 from apart)]
  · intro stage height job waits found
    rw [order.find?_queueJob] at found
    show (indexer.index.assign hash (top.height + 1)).find? job.position.hash = some height
    rw [OrderedMap.find?_assign]
    split at found
    · next level =>
      obtain ⟨_, made⟩ := Option.ite_none_right_eq_some.mp found
      cases made
      rw [level]
      exact if_pos rfl
    · rw [if_neg, order.listed stage height job waits found]
      intro same
      obtain ⟨_, below, level, on⟩ := order.within found
      have tall := on.has.height
      rw [same, (show tree.height hash = top.height + 1 from has.height)] at tall
      omega
  · intro stage height job cfilter found made
    rw [order.find?_queueJob] at found
    split at found
    · obtain ⟨_, new⟩ := Option.ite_none_right_eq_some.mp found
      cases new
      cases made
    · exact order.filtered stage height job cfilter found made

/-- The future of the new job is the last one. -/
theorem InOrder.lastFuture_queued (order : InOrder tree chain indexer top) {hash : Hash} (cfheader : Future)
    (after : InOrder tree chain (indexer.queueJob hash (top.height + 1) cfheader) ⟨top.height + 1, hash⟩) :
    lastFuture (links (indexer.queueJob hash (top.height + 1) cfheader).work) ⟨top.height + 1, hash⟩ indexer.cfheader = indexer.nextFuture := by
  have made := order.find?_queueJob hash cfheader .queued (top.height + 1)
  rw [if_pos rfl, if_pos rfl] at made
  rw [lastFuture, show (⟨top.height + 1, hash⟩ : Position).height = top.height + 1 from rfl, after.single.links_eq made]
  rfl

/-- A line of new blocks is queued without a failed assertion. -/
theorem InOrder.queuedEach {positions : List Position} : ∀ {indexer : BlockIndexer Location Filter Cfheader} {top : Position},
    InOrder tree chain indexer top → Line tree top positions →
    ∃ after, queueEach (positions.map Position.hash) (top.height + 1) top.height
        (lastFuture (links indexer.work) top indexer.cfheader) indexer = some after ∧
      after.downloader = indexer.downloader ∧ InOrder tree chain after (positions.getLastD top) := by
  induction positions with
  | nil => exact fun order _ => ⟨_, rfl, rfl, order⟩
  | cons position positions ih =>
    rintro indexer top order ⟨has, next, parent, line⟩
    have same : position = ⟨top.height + 1, position.hash⟩ := Subchain.Positions.position_ext next rfl
    have missing : (indexer.work .queued).find? (top.height + 1) = none := by
      by_contra present
      obtain ⟨job, found⟩ := Option.ne_none_iff_exists'.mp present
      have := (order.within found).2.1
      omega
    have kept := order.queued (same ▸ has) parent
    obtain ⟨after, queued, downloader, last⟩ := ih kept (same ▸ line)
    rw [show (indexer.queueJob position.hash (top.height + 1) _).cfheader = indexer.cfheader from rfl,
      order.lastFuture_queued _ kept] at queued
    refine ⟨after, ?_, downloader, ?_⟩
    · rw [List.map_cons, queueEach, if_pos ⟨rfl, missing⟩]
      exact queued
    · rw [List.getLastD_cons, same]
      exact last

theorem InOrder.withDownloader (order : InOrder tree chain indexer top) (downloader : Downloader Location) :
    InOrder tree chain { indexer with downloader } top :=
  ⟨order.single, order.chained, order.stored, order.listed, order.filtered⟩

/-! ## All that is kept -/

/-- Both components know the same block as the highest one. -/
structure Sound (tree : Branching Hash) (chain : Chain Location Block Filter Cfheader)
    (indexer : BlockIndexer Location Filter Cfheader) (top : Position) : Prop where
  tracks : Downloader.Tracks tree indexer.downloader top
  order : InOrder tree chain indexer top

/-- The downloader and the indexer are cut at the same ancestor and get the same blocks. -/
theorem Sound.queued (sound : Sound tree chain before top) {oracle : Database Work} (shows : Shows tree oracle)
    (genesis : chain.genesis = tree.root) (done : before.queueBlocks chain oracle = some after) :
    ∃ next, Sound tree chain after next := by
  obtain ⟨⟨added, downloader, adjusted⟩, adds, queues⟩ := Option.bind_eq_some_iff.mp done
  rw [genesis] at adds
  obtain ⟨ancestor, positions, above, cut, tracks⟩ := sound.tracks.addBlocks shows adds
  have order := (sound.order.adjusted above.on cut).withDownloader downloader
  refine ⟨positions.getLastD ancestor, ?_⟩
  change queueHashes { adjusted with downloader } added = some after at queues
  unfold queueHashes at queues
  split at queues
  · next empty =>
    cases queues
    rw [above.hashes, List.map_eq_nil_iff] at empty
    rw [empty] at tracks ⊢
    exact ⟨tracks, order⟩
  · next filled =>
    have some_positions : positions ≠ [] := fun empty => filled (by rw [above.hashes, empty]; rfl)
    obtain ⟨last, queued, same, kept⟩ := order.queuedEach above.line
    rw [order.previousCfheader_eq, Option.bind_some, above.height some_positions, above.hashes, queued] at queues
    cases queues
    exact ⟨same ▸ tracks, kept⟩

/-! ## Jobs that move -/

section Moves

variable {start finish : Stage} {height : Int} {job old : Job Location Filter} {index : OrderedMap Hash Int}

/-- A job that moves stays where it is in the chain. The index has to list it if it waits again, and
to keep the others. -/
theorem InOrder.moved (order : InOrder tree chain indexer top) (found : (indexer.work start).find? height = some old)
    (kept : job.toLink = old.toLink) (made : ∀ cfilter, job.cfilter = some cfilter → FilterOf chain job.position.hash cfilter)
    (lists : finish = .queued ∨ finish = .downloading → index.find? job.position.hash = some height)
    (others : ∀ stage key other, stage = .queued ∨ stage = .downloading → key ≠ height → (indexer.work stage).find? key = some other →
      index.find? other.position.hash = some key) :
    InOrder tree chain { indexer with work := move start finish height job indexer.work, index } top := by
  refine ⟨order.single.moved found, order.chained.congr fun key => links_move order.single found kept key, order.stored, ?_, ?_⟩
  · intro stage key other waits there
    change ((move start finish height job indexer.work) stage).find? key = some other at there
    rw [find?_move order.single found] at there
    split at there
    · next same =>
      obtain ⟨arrived, here⟩ := Option.ite_none_right_eq_some.mp there
      cases here
      exact same ▸ lists (arrived ▸ waits)
    · next apart => exact others stage key other waits apart there
  · intro stage key other cfilter there has
    change ((move start finish height job indexer.work) stage).find? key = some other at there
    rw [find?_move order.single found] at there
    split at there
    · obtain ⟨_, here⟩ := Option.ite_none_right_eq_some.mp there
      cases here
      exact made cfilter has
    · exact order.filtered stage key other cfilter there has

/-- A job that does not wait any more needs no entry in the index. -/
theorem InOrder.movedOn (order : InOrder tree chain indexer top) (found : (indexer.work start).find? height = some old)
    (kept : job.toLink = old.toLink) (made : ∀ cfilter, job.cfilter = some cfilter → FilterOf chain job.position.hash cfilter)
    (gone : finish = .processing ∨ finish = .finished) : InOrder tree chain (indexer.moveJob start finish height job) top := by
  refine order.moved found kept made (fun waits => ?_) (fun stage key other waits _ there => order.listed stage key other waits there)
  rcases gone with rfl | rfl <;> rcases waits with waits | waits <;> cases waits

theorem InOrder.filterOf (order : InOrder tree chain indexer top) (found : (indexer.work start).find? height = some old)
    (kept : job.toLink = old.toLink) (same : job.cfilter = old.cfilter) (cfilter : Filter) (has : job.cfilter = some cfilter) :
    FilterOf chain job.position.hash cfilter := by
  rw [show job.position = old.position from congrArg Link.position kept]
  exact order.filtered start height old cfilter found (same ▸ has)

end Moves

theorem Sound.fetchedEach (rounds : Nat) : ∀ {indexer : BlockIndexer Location Filter Cfheader}, Sound tree chain indexer top →
    Sound tree chain (fetchEach rounds indexer) top := by
  induction rounds with
  | zero => exact fun sound => sound
  | succ rounds ih =>
    intro indexer sound
    unfold fetchEach
    split
    · exact sound
    · next height job first =>
      split
      · have here := (OrderedMap.first?_eq_some first).1
        have moved : InOrder tree chain (indexer.moveJob .queued .downloading height job) top := sound.order.moved here rfl
          (fun cfilter => sound.order.filterOf here rfl rfl cfilter)
          (fun _ => sound.order.listed .queued height job (.inl rfl) here)
          (fun stage key other waits _ there => sound.order.listed stage key other waits there)
        exact ih ⟨sound.tracks, moved.single, moved.chained, moved.stored, moved.listed, moved.filtered⟩
      · exact sound

theorem Sound.startedEach (heights : List Int) : ∀ {slots : Nat} {indexer : BlockIndexer Location Filter Cfheader},
    Sound tree chain indexer top → Sound tree chain (startEach heights slots indexer) top := by
  induction heights with
  | nil => exact fun sound => by unfold startEach; exact sound
  | cons height heights ih =>
    intro slots indexer sound
    cases slots with
    | zero => exact sound
    | succ slots =>
      unfold startEach
      split
      · exact ih sound
      · next job found =>
        split
        · exact ih ⟨sound.tracks, sound.order.movedOn found rfl (fun cfilter => sound.order.filterOf found rfl rfl cfilter) (.inl rfl)⟩
        · exact ih sound

/-- A job that ends has a filter of its own block, or none that is new. -/
theorem background_eq_some {job ended : Job Location Filter} (ends : background chain job = some ended) :
    ended.toLink = job.toLink ∧ (ended.cfilter = job.cfilter ∨ ∀ cfilter, ended.cfilter = some cfilter → FilterOf chain job.position.hash cfilter) := by
  unfold background at ends
  split at ends
  · cases ends
    exact ⟨rfl, .inl rfl⟩
  · next block read =>
    obtain ⟨cfilter, processed, rfl⟩ := Option.map_eq_some_iff.mp ends
    obtain ⟨location, _, constructed⟩ := Option.bind_eq_some_iff.mp read
    refine ⟨rfl, .inr fun other same => ?_⟩
    cases same
    exact ⟨location, block, constructed, processed⟩

theorem Sound.ended (sound : Sound tree chain before top) {height : Int} (done : before.jobEnds chain height = some after) :
    Sound tree chain after top := by
  unfold jobEnds at done
  split at done
  · cases done
    exact sound
  · next job found =>
    split at done
    · obtain ⟨ended, ends, rfl⟩ := Option.map_eq_some_iff.mp done
      obtain ⟨kept, either⟩ := background_eq_some ends
      refine ⟨sound.tracks, sound.order.movedOn found kept (fun cfilter has => ?_) (.inl rfl)⟩
      rcases either with same | own
      · exact sound.order.filterOf found kept same cfilter has
      · rw [show ended.position = job.position from congrArg Link.position kept]
        exact own cfilter has
    · cases done
      exact sound

theorem Sound.settled (sound : Sound tree chain before top) {height : Int} {job : Job Location Filter}
    (found : (before.work .processing).find? height = some job) (done : before.settle chain height job = some after) :
    Sound tree chain after top := by
  unfold settle at done
  split at done
  · cases done
  · cases done
    exact sound
  · cases done
    exact sound
  · cases done
    have moved : InOrder tree chain (before.moveJob _ .finished height job) top :=
      sound.order.movedOn found rfl (fun cfilter => sound.order.filterOf found rfl rfl cfilter) (.inr rfl)
    exact ⟨sound.tracks, moved.single, moved.chained, moved.stored, moved.listed, moved.filtered⟩
  · cases done
    have level := (sound.order.within found).2.2.1
    have moved : InOrder tree chain { before with
        work := move _ .downloading height { job with state := .waiting } before.work
        index := before.index.assign job.position.hash job.position.height } top := sound.order.moved found rfl
      (fun cfilter => sound.order.filterOf found rfl rfl cfilter)
      (fun _ => by rw [OrderedMap.find?_assign, if_pos rfl, level])
      (fun stage key other waits apart there => by
        rw [OrderedMap.find?_assign, if_neg, sound.order.listed stage key other waits there]
        exact fun same => apart (sound.order.height_eq there found same))
    exact ⟨sound.tracks, moved.single, moved.chained, moved.stored, moved.listed, moved.filtered⟩

theorem Sound.settledEach (heights : List Int) : ∀ {before : BlockIndexer Location Filter Cfheader}, Sound tree chain before top →
    settleEach chain heights before = some after → Sound tree chain after top := by
  induction heights with
  | nil =>
    intro before sound done
    cases done
    exact sound
  | cons height heights ih =>
    intro before sound done
    unfold settleEach at done
    split at done
    · exact ih sound done
    · next job found =>
      obtain ⟨middle, settles, rest⟩ := Option.bind_eq_some_iff.mp done
      exact ih (sound.settled found settles) rest

theorem giveBlock_eq_some {hash asked : Hash} {block : Location} (done : before.giveBlock hash block = some (asked, after)) :
    ∃ height job, before.index.find? hash = some height ∧ (before.work .downloading).find? height = some job ∧
      asked = job.position.hash ∧ after = { before with
        work := move .downloading .processing height { job with block := some block, state := .downloaded } before.work
        index := before.index.erase hash } := by
  unfold giveBlock at done
  split at done
  · cases done
  · next height listed =>
    split at done
    · cases done
    · next job found =>
      cases done
      exact ⟨height, job, listed, found, rfl, rfl⟩

/-- A block that comes leaves the chain as it is, even if it is given to the wrong job. -/
theorem Sound.given (sound : Sound tree chain before top) {hash asked : Hash} {block : Location}
    (done : before.giveBlock hash block = some (asked, after)) : Sound tree chain after top := by
  obtain ⟨height, job, listed, found, rfl, rfl⟩ := giveBlock_eq_some done
  refine ⟨sound.tracks, sound.order.moved found rfl (fun cfilter => sound.order.filterOf found rfl rfl cfilter) (fun waits => ?_) ?_⟩
  · rcases waits with waits | waits <;> cases waits
  · intro stage key other waits apart there
    have lists := sound.order.listed stage key other waits there
    rw [OrderedMap.find?_erase, if_neg, lists]
    intro same
    rw [same, listed] at lists
    exact apart (Option.some.inj lists).symm

theorem Sound.withDownloader (sound : Sound tree chain indexer top) {downloader : Downloader Location}
    (tracks : Downloader.Tracks tree downloader top) : Sound tree chain { indexer with downloader } top :=
  ⟨tracks, sound.order.withDownloader downloader⟩

theorem Sound.givenEach (blocks : List (Hash × Location)) : ∀ {before : BlockIndexer Location Filter Cfheader} {given : List (Hash × Hash)},
    Sound tree chain before top → giveEach blocks before = some (given, after) → Sound tree chain after top := by
  induction blocks with
  | nil =>
    intro before given sound done
    cases done
    exact sound
  | cons block blocks ih =>
    intro before given sound done
    obtain ⟨⟨asked, next⟩, gives, done⟩ := Option.bind_eq_some_iff.mp done
    obtain ⟨⟨_, downloader⟩, receives, done⟩ := Option.bind_eq_some_iff.mp done
    obtain ⟨⟨rest, last⟩, more, done⟩ := Option.bind_eq_some_iff.mp done
    cases done
    have kept := sound.given gives
    obtain ⟨result, received, tracks⟩ := kept.tracks.received block.1 block.2
    rw [receives] at received
    cases received
    exact ih (kept.withDownloader tracks) more

end BlockIndexer

end Opentxs.FilterOracle
