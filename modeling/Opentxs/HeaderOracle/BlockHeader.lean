import Mathlib.Algebra.Order.Monoid.Defs
import Mathlib.Data.Prod.Lex

/-! Block headers with the local data a header oracle keeps beside them: the height, the
work and the state inherited from the parent, and how a child takes them over. -/

namespace Opentxs.HeaderOracle.BlockHeader

/-- Block hashes as numbers, of which zero is the null hash. -/
abbrev Hash := Nat

def nullHash : Hash := 0

inductive Status
  | error
  | normal
  | disconnected
  | checkpointBanned
  | checkpoint
  deriving DecidableEq, Repr

structure Position where
  height : Int := -1
  hash : Hash := nullHash
  deriving DecidableEq, Repr

/-- How a call can end without a result. A dangling fault is a write through a reference
that a growing vector may have moved. -/
inductive Fault
  | exception
  | terminate
  | dangling
  | outOfFuel
  deriving DecidableEq, Repr

variable {Work : Type}

structure Header (Work : Type) where
  hash : Hash
  parentHash : Hash
  work : Work
  height : Int
  status : Status
  inheritStatus : Status
  inheritWork : Work
  deriving DecidableEq

/-- A header as it arrives. A header names its parent, so it cannot be its own. -/
structure NewHeader (Work : Type) [Zero Work] [LT Work] where
  hash : Hash
  parentHash : Hash
  work : Work
  hash_ne_null : hash ≠ nullHash
  parent_ne_hash : parentHash ≠ hash
  work_pos : 0 < work

structure Genesis (Work : Type) where
  hash : Hash
  work : Work
  hash_ne_null : hash ≠ nullHash

theorem one_ne_null : (1 : Hash) ≠ nullHash := by decide

def NewHeader.header [Zero Work] [LT Work] (header : NewHeader Work) : Header Work where
  hash := header.hash
  parentHash := header.parentHash
  work := header.work
  height := -1
  status := .normal
  inheritStatus := .normal
  inheritWork := 0

def Genesis.header [Zero Work] (genesis : Genesis Work) : Header Work where
  hash := genesis.hash
  parentHash := nullHash
  work := genesis.work
  height := 0
  status := .checkpoint
  inheritStatus := .normal
  inheritWork := 0

namespace Header

def position (header : Header Work) : Position := ⟨header.height, header.hash⟩

def effectiveState (header : Header Work) : Status :=
  if header.inheritStatus = .checkpointBanned then header.inheritStatus
  else if header.inheritStatus = .disconnected then header.inheritStatus
  else if header.status = .checkpoint then .normal
  else header.status

def isDisconnected (header : Header Work) : Bool := header.effectiveState = .disconnected

def isBlacklisted (header : Header Work) : Bool := header.effectiveState = .checkpointBanned

def totalWork [Add Work] (header : Header Work) : Work :=
  if header.parentHash = nullHash then header.work else header.work + header.inheritWork

def compareToCheckpoint (header : Header Work) (checkpoint : Position) : Header Work :=
  if checkpoint.height = header.height then
    if checkpoint.hash = header.hash then { header with status := .checkpoint }
    else { header with status := .checkpointBanned }
  else { header with status := .normal }

def inheritWorkFrom (header : Header Work) (work : Work) : Header Work := { header with inheritWork := work }

def inheritState (header parent : Header Work) : Except Fault (Header Work) :=
  if parent.hash ≠ header.parentHash then .error .exception
  else .ok { header with inheritStatus := parent.effectiveState }

def inheritHeight (header parent : Header Work) : Except Fault (Header Work) :=
  if parent.hash ≠ header.parentHash then .error .exception
  else .ok { header with height := parent.height + 1 }

def setDisconnectedState (header : Header Work) : Header Work :=
  { header with status := .disconnected, inheritStatus := .error }

end Header

/-- An exception that leaves a function declared not to throw ends the process. -/
def noexcept {α : Type} : Except Fault α → Except Fault α
  | .error .exception => .error .terminate
  | outcome => outcome

def connectToParent [Add Work] (checkpoint : Position) (parent child : Header Work) :
    Except Fault (Header Work) :=
  noexcept do
    let child := child.inheritWorkFrom parent.totalWork
    let child ← child.inheritState parent
    let child ← child.inheritHeight parent
    .ok (child.compareToCheckpoint checkpoint)

/-- What a child becomes under its parent. -/
def Header.under [Add Work] (checkpoint : Position) (parent child : Header Work) : Header Work :=
  ({ child with
      inheritWork := parent.totalWork
      inheritStatus := parent.effectiveState
      height := parent.height + 1 } : Header Work).compareToCheckpoint checkpoint

theorem connectToParent_ok [Add Work] (checkpoint : Position) (parent child : Header Work)
    (named : child.parentHash = parent.hash) :
    connectToParent checkpoint parent child = .ok (Header.under checkpoint parent child) := by
  obtain ⟨hash, parentHash, work, height, status, inheritStatus, inheritWork⟩ := child
  simp only at named
  subst named
  simp [connectToParent, Header.inheritState, Header.inheritHeight, Header.inheritWorkFrom, bind, Except.bind,
    noexcept, Header.under]

theorem connectToParent_terminates [Add Work] (checkpoint : Position) (parent child : Header Work)
    (other : child.parentHash ≠ parent.hash) :
    connectToParent checkpoint parent child = .error .terminate := by
  simp only [connectToParent, Header.inheritState, Header.inheritWorkFrom, ne_eq, other.symm,
    not_false_eq_true, if_true]
  rfl

section Under

variable [Add Work] (checkpoint : Position) (parent child : Header Work)

omit [Add Work] in
theorem compareToCheckpoint_fields (header : Header Work) :
    (header.compareToCheckpoint checkpoint).hash = header.hash ∧
      (header.compareToCheckpoint checkpoint).parentHash = header.parentHash ∧
      (header.compareToCheckpoint checkpoint).work = header.work ∧
      (header.compareToCheckpoint checkpoint).height = header.height ∧
      (header.compareToCheckpoint checkpoint).inheritStatus = header.inheritStatus ∧
      (header.compareToCheckpoint checkpoint).inheritWork = header.inheritWork := by
  unfold Header.compareToCheckpoint
  split
  · split
    · exact ⟨rfl, rfl, rfl, rfl, rfl, rfl⟩
    · exact ⟨rfl, rfl, rfl, rfl, rfl, rfl⟩
  · exact ⟨rfl, rfl, rfl, rfl, rfl, rfl⟩

@[simp] theorem under_hash : (Header.under checkpoint parent child).hash = child.hash :=
  (compareToCheckpoint_fields checkpoint _).1

@[simp] theorem under_parentHash : (Header.under checkpoint parent child).parentHash = child.parentHash :=
  (compareToCheckpoint_fields checkpoint _).2.1

@[simp] theorem under_work : (Header.under checkpoint parent child).work = child.work :=
  (compareToCheckpoint_fields checkpoint _).2.2.1

@[simp] theorem under_height : (Header.under checkpoint parent child).height = parent.height + 1 :=
  (compareToCheckpoint_fields checkpoint _).2.2.2.1

@[simp] theorem under_inheritStatus :
    (Header.under checkpoint parent child).inheritStatus = parent.effectiveState :=
  (compareToCheckpoint_fields checkpoint _).2.2.2.2.1

@[simp] theorem under_inheritWork : (Header.under checkpoint parent child).inheritWork = parent.totalWork :=
  (compareToCheckpoint_fields checkpoint _).2.2.2.2.2

/-- The state a checkpoint gives to a block at some height. -/
def checkpointStatus (height : Int) (hash : Hash) : Status :=
  if checkpoint.height = height then
    if checkpoint.hash = hash then .checkpoint else .checkpointBanned
  else .normal

@[simp] theorem under_status : (Header.under checkpoint parent child).status =
    checkpointStatus checkpoint (parent.height + 1) child.hash := by
  unfold Header.under Header.compareToCheckpoint checkpointStatus
  split
  · split
    · rfl
    · rfl
  · rfl

end Under

end Opentxs.HeaderOracle.BlockHeader
