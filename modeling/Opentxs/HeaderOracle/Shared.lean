import Opentxs.HeaderOracle.Update

/-! The oracle's operations: headers are staged, attached with every block that waited
for them, turned into candidates and compared by work; a checkpoint is set or cleared and
the branches are compared again. -/

namespace Opentxs.HeaderOracle.Shared
open Library BlockHeader Storage Update

variable {Work : Type} [AddCommMonoid Work] [LinearOrder Work]

structure Candidate where
  blacklisted : Bool := false
  chain : List Position := []
  deriving DecidableEq, Repr

/-- A reference into the vector of candidates, with the size the vector had when it was
taken: appending to the vector invalidates it. -/
structure Reference where
  index : Nat
  size : Nat

def modify (candidates : List Candidate) (candidate : Reference) (change : Candidate → Candidate) :
    Except Fault (List Candidate) :=
  if candidates.length = candidate.size then .ok (candidates.modify candidate.index change)
  else .error .dangling

def read (candidates : List Candidate) (candidate : Reference) : Except Fault Candidate :=
  if candidates.length = candidate.size then
    match candidates[candidate.index]? with
    | some found => .ok found
    | none => .error .dangling
  else .error .dangling

/-! ## Connecting -/

/-- The blocks that wait for a parent are connected one after the other. The first goes on
with the parent's candidate, each other one with a copy of it. -/
def connectEach
    (connectChildren : Header Work → List Candidate → Reference → UpdateTransaction Work →
      Except Fault (List Candidate × UpdateTransaction Work))
    (parent : Header Work) (original : Candidate) (candidate : Reference) :
    (firstChild : Bool) → List ChainSegment → List Candidate → UpdateTransaction Work →
      Except Fault (List Candidate × UpdateTransaction Work)
  | _, [], candidates, update => .ok (candidates, update)
  | firstChild, segment :: segments, candidates, update => do
    let update := update.connectBlock segment
    let (child, update) ← update.stage segment.child
    let child ← connectToParent update.checkpoint parent child
    let update := update.write child
    let candidates ← modify candidates candidate fun found => { found with blacklisted := child.isBlacklisted }
    let (candidates, update) ←
      if firstChild then connectChildren child candidates candidate update
      else connectChildren child (candidates ++ [original]) ⟨candidates.length, candidates.length + 1⟩ update
    connectEach connectChildren parent original candidate false segments candidates update

/-- Every level below takes at least one waiting block, which bounds the depth. -/
def connectChildren : (depth : Nat) → (parent : Header Work) → List Candidate → Reference →
    UpdateTransaction Work → Except Fault (List Candidate × UpdateTransaction Work)
  | 0, _, _, _, _ => .error .outOfFuel
  | depth + 1, parent, candidates, candidate, update => do
    let found ← read candidates candidate
    if found.chain.getLast?.map (fun last => last.height + 1) ≠ some parent.height then .error .terminate
    else
      let candidates ← modify candidates candidate fun found =>
        { found with chain := found.chain ++ [parent.position] }
      let original ← read candidates candidate
      connectEach (connectChildren depth) parent original candidate true (update.equalRange parent.hash)
        candidates update

/-- From a block back to the first one where `run` stops. -/
def walkBack (run : UpdateTransaction Work → Position → Bool) : (rounds : Nat) →
    (grandparent : Header Work) → (chain : List Position) → UpdateTransaction Work →
      Except Fault (List Position × UpdateTransaction Work)
  | 0, _, _, _ => .error .outOfFuel
  | rounds + 1, grandparent, chain, update =>
    if run update grandparent.position then
      if grandparent.height < 0 then .error .terminate
      else do
        let (next, update) ← update.stage grandparent.parentHash
        walkBack run rounds next (grandparent.position :: chain) update
    else .ok (if chain = [] then [grandparent.position] else chain, update)

def offBestChain (update : UpdateTransaction Work) (position : Position) : Bool :=
  update.effectiveBestBlock position.height ≠ position.hash

def notStop (stopHash : Hash) (_ : UpdateTransaction Work) (position : Position) : Bool :=
  stopHash ≠ position.hash

/-- The candidate stays at the end of the vector; the child is written under its parent. -/
def initializeCandidate (run : UpdateTransaction Work → Position → Bool) (parent child : Header Work)
    (update : UpdateTransaction Work) : Except Fault (Candidate × Header Work × UpdateTransaction Work) := do
  let child ← connectToParent update.checkpoint parent child
  let update := update.write child
  let (chain, update) ← walkBack run (parent.height + 2).toNat parent [] update
  .ok (⟨child.isBlacklisted, chain⟩, child, update)

/-! ## Choosing -/

def evaluateCandidate (current candidate : Header Work) : Bool := candidate.totalWork > current.totalWork

def candidateTip (update : UpdateTransaction Work) (candidate : Candidate) : Except Fault (Header Work) :=
  match candidate.chain.getLast? with
  | some position => update.header position.hash
  | none => .error .terminate

def pickBest (update : UpdateTransaction Work) : (best : Header Work) → List Candidate →
    Except Fault (Header Work)
  | best, [] => .ok best
  | best, candidate :: candidates =>
    if candidate.blacklisted then pickBest update best candidates
    else do
      let tip ← candidateTip update candidate
      pickBest update (if evaluateCandidate best tip then tip else best) candidates

def adoptChain (current : Header Work) : (reorg : Bool) → List Position → UpdateTransaction Work →
    UpdateTransaction Work
  | _, [], update => update
  | reorg, segment :: segments, update =>
    if segment.height ≤ current.height ∧ reorg = false then
      if segment.hash = update.effectiveBestBlock segment.height then
        adoptChain current reorg segments update
      else
        let parent : Position := ⟨segment.height - 1, update.effectiveBestBlock (segment.height - 1)⟩
        adoptChain current true segments
          (((update.setReorgParent parent).addToBestChain segment).addSibling current.position)
    else adoptChain current reorg segments (update.addToBestChain segment)

def settleCandidates (current best : Header Work) : (found : Bool) → List Candidate →
    UpdateTransaction Work → Except Fault (Bool × UpdateTransaction Work)
  | found, [], update => .ok (found, update)
  | found, candidate :: candidates, update => do
    let tip ← candidateTip update candidate
    if tip.hash = best.hash then
      settleCandidates current best true candidates (adoptChain current false candidate.chain update)
    else settleCandidates current best found candidates (update.addSibling tip.position)

/-- The result says whether the comparison went through and whether a candidate was chosen. -/
def chooseCandidate (current : Header Work) (candidates : List Candidate) (update : UpdateTransaction Work) :
    Except Fault (Bool × Bool × UpdateTransaction Work) :=
  let run := do
    let best ← pickBest update current candidates
    settleCandidates current best false candidates update
  match run with
  | .ok (found, update) => .ok (true, found, update)
  | .error .exception => .ok (false, false, update)
  | .error fault => .error fault

/-! ## Adding headers -/

def isDisconnected (parent : Hash) (update : UpdateTransaction Work) :
    Option (Header Work) × UpdateTransaction Work :=
  match update.stage parent with
  | .ok (header, update) => if header.isDisconnected then (none, update) else (some header, update)
  | .error _ => (none, update)

def connectHeader (parent header : Header Work) (update : UpdateTransaction Work) :
    Except Fault (List Candidate × UpdateTransaction Work) := do
  let (candidate, header, update) ← initializeCandidate offBestChain parent header update
  connectChildren (update.cachedDisconnected.length + 1) header [candidate] ⟨0, 1⟩ update

def addHeader (update : UpdateTransaction Work) (new : NewHeader Work) :
    Except Fault (Bool × UpdateTransaction Work) :=
  if update.effectiveHeaderExists new.hash then .ok (true, update)
  else do
    let (current, update) ← (update.write new.header).stageBest
    match isDisconnected new.parentHash update with
    | (none, update) =>
      let header := new.header.setDisconnectedState
      .ok (true, (update.write header).disconnectBlock header)
    | (some parent, update) =>
      let update := if update.effectiveIsSibling new.parentHash then update.removeSibling new.parentHash else update
      match connectHeader parent new.header update with
      | .ok (candidates, update) => do
        let (success, _, update) ← chooseCandidate current candidates update
        .ok (success, update)
      | .error .exception => .ok (false, update)
      | .error fault => .error fault

/-- `none` is a header that is not valid. -/
def addEach : List (Option (NewHeader Work)) → UpdateTransaction Work →
    Except Fault (Bool × UpdateTransaction Work)
  | [], update => .ok (true, update)
  | none :: _, update => .ok (false, update)
  | some header :: headers, update => do
    let (success, update) ← addHeader update header
    if success then addEach headers update else .ok (false, update)

def unchanged (db : Database Work) : Outcome Work := { success := false, db, published := none }

def addHeaders (db : Database Work) (headers : List (Option (NewHeader Work))) : Except Fault (Outcome Work) :=
  if headers = [] then .ok (unchanged db)
  else do
    let (success, update) ← addEach headers { db }
    .ok (if success then applyUpdate update else unchanged db)

/-! ## Checkpoints -/

def stageCandidate (best child : Header Work) (candidates : List Candidate) (update : UpdateTransaction Work) :
    Except Fault (List Candidate × UpdateTransaction Work) :=
  let position := best.height + 1
  if child.height < position then .ok (candidates, update)
  else if child.height = position then .ok (candidates ++ [⟨false, [child.position]⟩], update)
  else do
    let (parent, update) ← update.stage child.parentHash
    let (candidate, child, update) ← initializeCandidate (notStop best.hash) parent child update
    let chain := candidate.chain ++ [child.position]
    if chain.head?.map Position.height ≠ some position then .error .terminate
    else .ok (candidates ++ [{ candidate with chain }], update)

def stageSiblings (ancestor : Header Work) : List Hash → List Candidate → UpdateTransaction Work →
    Except Fault (List Candidate × UpdateTransaction Work)
  | [], candidates, update => .ok (candidates, update)
  | hash :: hashes, candidates, update => do
    let (sibling, update) ← update.stage hash
    let (candidates, update) ← stageCandidate ancestor sibling candidates update
    stageSiblings ancestor hashes candidates update

def reconnectChain (parent : Header Work) (invalid : Bool) : List Position → UpdateTransaction Work →
    Except Fault (Bool × UpdateTransaction Work)
  | [], update => .ok (invalid, update)
  | position :: positions, update => do
    let child ← update.header position.hash
    let child ← connectToParent update.checkpoint parent child
    reconnectChain child child.isBlacklisted positions (update.write child)

def reconnectCandidates (ancestor : Header Work) : List Candidate → UpdateTransaction Work →
    Except Fault (List Candidate × UpdateTransaction Work)
  | [], update => .ok ([], update)
  | candidate :: candidates, update => do
    let (blacklisted, update) ← reconnectChain ancestor candidate.blacklisted candidate.chain update
    let (candidates, update) ← reconnectCandidates ancestor candidates update
    .ok ({ candidate with blacklisted } :: candidates, update)

def compareToCheckpoint (best : Header Work) (position : Int) (update : UpdateTransaction Work) :
    Except Fault (Bool × UpdateTransaction Work) := do
  let siblings := update.cachedSiblings
  let (ancestor, update) ← update.stageHeight (position - 1)
  let (candidates, update) ← stageCandidate ancestor best [] update
  let (candidates, update) ← stageSiblings ancestor siblings candidates update
  let (candidates, update) ← reconnectCandidates ancestor candidates update
  let (success, found, update) ← chooseCandidate ancestor candidates update
  if success = false then .ok (false, update)
  else if found then .ok (true, update)
  else .ok (true, (update.setReorgParent ancestor.position).addToBestChain ancestor.position)

def applyCheckpoint (position : Int) (update : UpdateTransaction Work) :
    Except Fault (Bool × UpdateTransaction Work) := do
  let (best, update) ← update.stageBest
  if position > best.height then .ok (true, update)
  else
    match compareToCheckpoint best position update with
    | .error .exception => .ok (false, update)
    | outcome => outcome

def finishCheckpoint (db : Database Work) (position : Int) (update : UpdateTransaction Work) :
    Except Fault (Outcome Work) := do
  let (success, update) ← applyCheckpoint position update
  .ok (if success then applyUpdate update else unchanged db)

def addCheckpoint (db : Database Work) (position : Int) (requiredHash : Hash) : Except Fault (Outcome Work) :=
  let update : UpdateTransaction Work := { db }
  if update.effectiveCheckpoint then .ok (unchanged db)
  else if 2 > position then .ok (unchanged db)
  else finishCheckpoint db position (update.setCheckpoint ⟨position, requiredHash⟩)

def deleteCheckpoint (db : Database Work) : Except Fault (Outcome Work) :=
  let update : UpdateTransaction Work := { db }
  if update.effectiveCheckpoint then finishCheckpoint db update.checkpoint.height update.clearCheckpoint
  else .ok (unchanged db)

/-! ## Runs -/

inductive Operation (Work : Type) [Zero Work] [LT Work]
  | addHeaders (headers : List (Option (NewHeader Work)))
  | addCheckpoint (position : Int) (requiredHash : Hash)
  | deleteCheckpoint

def perform (db : Database Work) : Operation Work → Except Fault (Outcome Work)
  | .addHeaders headers => addHeaders db headers
  | .addCheckpoint position requiredHash => addCheckpoint db position requiredHash
  | .deleteCheckpoint => deleteCheckpoint db

def run (db : Database Work) : List (Operation Work) → Except Fault (Database Work)
  | [] => .ok db
  | operation :: operations => do
    let outcome ← perform db operation
    run outcome.db operations

end Opentxs.HeaderOracle.Shared
