import Mathlib.Logic.Function.Basic
import Mathlib.Tactic

/-!
# Chains of hashes with a label at each link

Each value is the hash of the value before it followed by the label of its own
position; the first is the hash of a seed and a label. With an injective hash
and labels of one length, equal values of a chain carry equal labels.
-/
namespace Spex.HashChain

variable {α : Type*} (hash : List α → List α) (label : ℕ → List α) (seed : List α)

def chain : ℕ → List α
  | 0 => hash (seed ++ label 0)
  | k + 1 => hash (chain k ++ label (k + 1))

/-- What stands before the label at a position. -/
def link : ℕ → List α
  | 0 => seed
  | k + 1 => chain hash label seed k

theorem chain_eq (k : ℕ) :
    chain hash label seed k = hash (link hash label seed k ++ label k) := by
  cases k <;> rfl

variable {hash label seed}

theorem label_eq_of_chain_eq (hinj : Function.Injective hash)
    (hlen : ∀ i j, (label i).length = (label j).length) {i j : ℕ}
    (h : chain hash label seed i = chain hash label seed j) : label i = label j := by
  rw [chain_eq, chain_eq hash label seed j] at h
  exact (List.append_inj' (hinj h) (hlen i j)).2

end Spex.HashChain
