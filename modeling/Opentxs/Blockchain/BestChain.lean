import Mathlib.Algebra.Order.Group.Int
import Mathlib.Data.List.Basic

/-! The best chain as the other oracles see it: the block at each height. -/

namespace Opentxs.Blockchain

structure Position (Hash : Type) where
  height : Int
  hash : Hash
  deriving DecidableEq

/-- The best chain has at least its genesis block. -/
structure BestChain (Hash : Type) where
  genesis : Hash
  rest : List Hash

namespace BestChain

variable {Hash : Type} (chain : BestChain Hash) {height : Int} {id : Hash}

def tip : Int := chain.rest.length

def bestBlock (height : Int) : Option Hash := if height < 0 then none else (chain.genesis :: chain.rest)[height.toNat]?

def bestHashesFrom : (count : Nat) → (current : Int) → List Hash
  | 0, _ => []
  | count + 1, current =>
    match chain.bestBlock current with
    | none => []
    | some hash => hash :: bestHashesFrom count (current + 1)

/-- With no limit, all up to the tip. -/
def bestHashes (start : Int) (limit : Nat) : List Hash :=
  let last := if limit = 0 then chain.tip else min (start + limit - 1) chain.tip
  chain.bestHashesFrom (last - start + 1).toNat start

def genesisPosition : Position Hash := ⟨0, chain.genesis⟩

variable {chain}

@[simp] theorem bestBlock_zero : chain.bestBlock 0 = some chain.genesis := rfl

theorem bestBlock_bounds (found : chain.bestBlock height = some id) : 0 ≤ height ∧ height ≤ chain.tip := by
  unfold bestBlock at found
  split at found
  · cases found
  · next nonneg =>
    obtain ⟨inside, _⟩ := List.getElem?_eq_some_iff.mp found
    rw [List.length_cons] at inside
    unfold tip
    omega

end BestChain

end Opentxs.Blockchain
