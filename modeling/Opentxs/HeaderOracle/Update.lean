import Opentxs.Library.Ordered
import Opentxs.HeaderOracle.Storage

/-! One update of the oracle: the changes staged over a database, and the views of the
best chain, the siblings and the disconnected blocks with these changes applied. -/

namespace Opentxs.HeaderOracle.Update
open Library Library.Ordered BlockHeader Storage

variable {Work : Type}

/-- The cached sets are read from the database when the update is made. -/
structure UpdateTransaction (Work : Type) where
  db : Database Work
  haveReorg : Bool := false
  haveCheckpoint : Bool := false
  reorgFrom : Position := {}
  newCheckpoint : Position := {}
  headers : Hash → Option (Header Work) := fun _ => none
  best : OrderedMap Int Hash := OrderedMap.empty
  addSib : List Hash := []
  deleteSib : List Hash := []
  connect : List ChainSegment := []
  disconnected : List ChainSegment := []
  cachedDisconnected : List ChainSegment := db.disconnected
  cachedSiblings : List Hash := db.siblings

namespace UpdateTransaction

def addSibling (update : UpdateTransaction Work) (position : Position) : UpdateTransaction Work :=
  { update with
    cachedSiblings := SortedList.insertSorted position.hash update.cachedSiblings
    addSib := SortedList.insertSorted position.hash update.addSib
    deleteSib := SortedList.remove position.hash update.deleteSib }

def removeSibling (update : UpdateTransaction Work) (hash : Hash) : UpdateTransaction Work :=
  { update with
    cachedSiblings := SortedList.remove hash update.cachedSiblings
    deleteSib := SortedList.insertSorted hash update.deleteSib
    addSib := SortedList.remove hash update.addSib }

def addToBestChain (update : UpdateTransaction Work) (position : Position) : UpdateTransaction Work :=
  let update := update.removeSibling position.hash
  { update with best := update.best.emplace position.height position.hash }

def checkpoint (update : UpdateTransaction Work) : Position :=
  if update.haveCheckpoint then update.newCheckpoint else update.db.checkpoint

def setCheckpoint (update : UpdateTransaction Work) (checkpoint : Position) : UpdateTransaction Work :=
  { update with haveCheckpoint := true, newCheckpoint := checkpoint }

def clearCheckpoint (update : UpdateTransaction Work) : UpdateTransaction Work := update.setCheckpoint {}

def effectiveCheckpoint (update : UpdateTransaction Work) : Bool :=
  if update.haveCheckpoint then update.newCheckpoint.height ≠ -1 else update.db.haveCheckpoint

def connectBlock (update : UpdateTransaction Work) (segment : ChainSegment) : UpdateTransaction Work :=
  let update := { update with cachedDisconnected := SortedList.remove segment update.cachedDisconnected }
  if segment ∈ update.disconnected then
    { update with disconnected := SortedList.remove segment update.disconnected }
  else { update with connect := SortedList.insertSorted segment update.connect }

/-- The cache is a multimap: a new entry comes last among those of its parent. -/
def disconnectBlock (update : UpdateTransaction Work) (header : Header Work) : UpdateTransaction Work :=
  let item : ChainSegment := ⟨header.parentHash, header.hash⟩
  { update with
    cachedDisconnected := update.cachedDisconnected ++ [item]
    connect := SortedList.remove item update.connect
    disconnected := SortedList.insertSorted item update.disconnected }

/-- The children that wait for a parent, in the order of the cache. -/
def equalRange (update : UpdateTransaction Work) (parent : Hash) : List ChainSegment :=
  update.cachedDisconnected.filter (fun segment => segment.parent = parent)

def effectiveBestBlock (update : UpdateTransaction Work) (height : Int) : Hash :=
  (update.best.find? height).getD (update.db.bestBlock height)

def effectiveHeaderExists (update : UpdateTransaction Work) (hash : Hash) : Bool :=
  (update.headers hash).isSome || update.db.headerExists hash

def effectiveIsSibling (update : UpdateTransaction Work) (hash : Hash) : Bool := hash ∈ update.cachedSiblings

/-- A header that was staged; `exception` when it was not. -/
def header (update : UpdateTransaction Work) (hash : Hash) : Except Fault (Header Work) :=
  match update.headers hash with
  | some header => .ok header
  | none => .error .exception

def setReorgParent (update : UpdateTransaction Work) (pos : Position) : UpdateTransaction Work :=
  { update with
    best := update.best.keepUpTo pos.height
    haveReorg := true
    reorgFrom := if update.reorgFrom.height = -1 ∨ pos.height ≤ update.reorgFrom.height then pos
      else update.reorgFrom }

/-- A staged header is an object that later steps change in place. -/
def write (update : UpdateTransaction Work) (header : Header Work) : UpdateTransaction Work :=
  { update with headers := fun hash => if hash = header.hash then some header else update.headers hash }

def stage (update : UpdateTransaction Work) (hash : Hash) :
    Except Fault (Header Work × UpdateTransaction Work) :=
  match update.headers hash with
  | some header => .ok (header, update)
  | none => do
    let header ← update.db.loadHeader hash
    .ok (header, update.write header)

def stageHeight (update : UpdateTransaction Work) (height : Int) :
    Except Fault (Header Work × UpdateTransaction Work) :=
  update.stage (update.effectiveBestBlock height)

def stageBest (update : UpdateTransaction Work) : Except Fault (Header Work × UpdateTransaction Work) :=
  match update.best.last? with
  | none => do
    let best ← update.db.currentBest
    match update.headers best.hash with
    | some header => .ok (header, update)
    | none => .ok (best, update.write best)
  | some entry => noexcept (update.stage entry.2)

end UpdateTransaction

/-! ## Writing an update to the database -/

structure Outcome (Work : Type) where
  success : Bool
  db : Database Work
  published : Option Message

def updatedDisconnected (update : UpdateTransaction Work) : List ChainSegment :=
  update.connect.foldl (fun set segment => SortedList.remove segment set)
    (update.disconnected.foldl (fun set segment => SortedList.insertSorted segment set) update.db.disconnected)

/-- Deleting a disconnected block that is not there fails. -/
def connectedKnown (update : UpdateTransaction Work) : Bool :=
  update.connect.all fun segment => segment ∈ update.db.disconnected ∨ segment ∈ update.disconnected

def updatedSiblings (update : UpdateTransaction Work) : List Hash :=
  update.deleteSib.foldl (fun set hash => SortedList.remove hash set)
    (update.addSib.foldl (fun set hash => SortedList.insertSorted hash set) update.db.siblings)

def poppedRows (update : UpdateTransaction Work) : Option (Int → Hash) :=
  if update.haveReorg then
    popBestFrom (update.db.best.height - update.reorgFrom.height).toNat update.db.best.height update.db.rows
  else some update.db.rows

def pushBest (rows : Int → Hash) (entries : List (Int × Hash)) : Int → Hash :=
  entries.foldl (fun rows entry => setRow rows entry.1 entry.2) rows

/-- The database after every write but the publication. -/
def writeUpdate (update : UpdateTransaction Work) (rows : Int → Hash) : Database Work :=
  { update.db with
    headers := fun hash => (update.headers hash).or (update.db.headers hash)
    rows := pushBest rows update.best.entries
    tipHeight := (update.best.last?.map Prod.fst).getD update.db.tipHeight
    checkpoint := update.checkpoint
    disconnected := updatedDisconnected update
    siblings := updatedSiblings update }

/-- A reorg equal to the last one is not published again; a tip never counts as the last. -/
def publish (update : UpdateTransaction Work) (db : Database Work) : Outcome Work :=
  if update.haveReorg then
    let last := LastUpdate.reorg update.reorgFrom db.best
    if db.lastUpdate = last then { success := true, db, published := none }
    else { success := true, db := { db with lastUpdate := last },
           published := some (.reorg update.reorgFrom db.best) }
  else if db.lastUpdate = .tip db.best then { success := true, db, published := none }
  else { success := true, db, published := some (.tip db.best) }

/-- A write that fails leaves the database as it was. -/
def applyUpdate (update : UpdateTransaction Work) : Outcome Work :=
  if connectedKnown update then
    match poppedRows update with
    | some rows => publish update (writeUpdate update rows)
    | none => { success := false, db := update.db, published := none }
  else { success := false, db := update.db, published := none }

end Opentxs.HeaderOracle.Update
