import Mathlib.Data.Finset.Insert
import Opentxs.HeaderOracle.BlockHeader

/-! What the wallet stores: outputs with their state and the block they were mined in, the
transactions they come from, and the keys that own them. -/

namespace Opentxs.Wallet.Types
open HeaderOracle BlockHeader

abbrev TransactionHash := Nat
abbrev Nym := Nat
abbrev AccountID := Nat
abbrev SubchainID := Nat
abbrev ProposalID := Nat

/-- The serialised form of a proposal. -/
abbrev Content := Nat

structure Outpoint where
  txid : TransactionHash
  index : Nat
  deriving DecidableEq, Repr

instance : LinearOrder Outpoint :=
  LinearOrder.lift' (fun outpoint => toLex (outpoint.txid, outpoint.index)) (by
    intro first second same
    cases first
    cases second
    simpa using same)

instance : LinearOrder Position :=
  LinearOrder.lift' (fun position => toLex (position.height, position.hash)) (by
    intro first second same
    cases first
    cases second
    simpa using same)

inductive TxoState
  | error
  | unconfirmedNew
  | unconfirmedSpend
  | confirmedNew
  | confirmedSpend
  | orphanedNew
  | orphanedSpend
  | immature
  deriving DecidableEq, Repr

def allStates : List TxoState :=
  [.unconfirmedNew, .unconfirmedSpend, .confirmedNew, .confirmedSpend, .orphanedNew, .orphanedSpend, .immature]

inductive TxoTag
  | normal
  | generation
  | notification
  | change
  deriving DecidableEq, Repr

inductive Subchain
  | error
  | internal
  | external
  | incoming
  | outgoing
  | notificationV3
  | notificationV1
  | notificationV2
  | notificationV4
  | none
  deriving DecidableEq, Repr

structure Key where
  account : AccountID
  subchain : Subchain
  index : Nat
  deriving DecidableEq, Repr

/-- An output of a transaction. Its state, position and tags are the wallet's own notes. -/
structure Output where
  value : Int
  keys : List Key
  isValid : Bool := true
  state : TxoState := .error
  minedPosition : Position := {}
  tags : Finset TxoTag := ∅
  deriving DecidableEq

structure Transaction where
  id : TransactionHash
  previousOutputs : List Outpoint
  outputs : List Output
  isGeneration : Bool := false

/-- A transaction with the indices of the inputs and of the outputs that belong to a subchain. -/
structure MatchedTransaction where
  inputs : List Nat
  outputs : List Nat
  transaction : Transaction

/-- The matches of a block, and the matches of several blocks, in the order of their keys. -/
abbrev BlockMatches := List MatchedTransaction
abbrev BatchedMatches := List (Position × BlockMatches)

structure SpendPolicy where
  unconfirmedIncoming : Bool := false
  unconfirmedChange : Bool := false

def isMature (minedAt bestChain target : Int) : Bool := bestChain - minedAt ≥ target

/-- What the wallet asks of the rest of the program: the nym that owns a key, the subchain's
identifier, and the depth at which the output of a generation transaction can be spent. -/
structure Environment where
  owner : Key → Option Nym
  subchainID : AccountID → Subchain → SubchainID
  maturationTarget : Int

end Opentxs.Wallet.Types
