import Spex.Forest

/-!
# Hash trees

Binary trees whose leaves and nodes are hashed, each from an input of its own. If
no input of one tree collides with an input of another, their roots tell the trees
apart; the perfect trees over a list also tell the lists apart.
-/
namespace Spex.MerkleTree

universe u v w
variable {α : Type u} {ι : Type v} {β : Type w}

inductive Tree (α : Type u) where
  | leaf (a : α)
  | node (left right : Tree α)

instance [Inhabited α] : Inhabited (Tree α) := ⟨.leaf default⟩

def Tree.count : Tree α → ℕ
  | leaf _ => 1
  | node left right => left.count + right.count

/-- How the inputs of leaves and nodes are formed and hashed. -/
structure Scheme (α : Type u) (ι : Type v) (β : Type w) where
  leafInput : α → ι
  nodeInput : β → β → ι
  hash : ι → β

namespace Scheme

/-- An input tells a leaf from a node, and determines the leaf or the two children. -/
structure Separates (S : Scheme α ι β) : Prop where
  leaf : Function.Injective S.leafInput
  node : ∀ {x y x' y'}, S.nodeInput (S.hash x) (S.hash y) = S.nodeInput (S.hash x') (S.hash y') →
    S.hash x = S.hash x' ∧ S.hash y = S.hash y'
  apart : ∀ a x y, S.leafInput a ≠ S.nodeInput (S.hash x) (S.hash y)

/-- No input of the one list has the hash of a different input of the other. -/
def NoCollision (S : Scheme α ι β) (inputs inputs' : List ι) : Prop :=
  ∀ x ∈ inputs, ∀ y ∈ inputs', S.hash x = S.hash y → x = y

theorem NoCollision.mono {S : Scheme α ι β} {xs xs' ys ys' : List ι} (h : S.NoCollision xs' ys')
    (hxs : xs ⊆ xs') (hys : ys ⊆ ys') : S.NoCollision xs ys :=
  fun x hx y hy => h x (hxs hx) y (hys hy)

end Scheme

namespace Tree
variable (S : Scheme α ι β)

def root : Tree α → β
  | leaf a => S.hash (S.leafInput a)
  | node left right => S.hash (S.nodeInput left.root right.root)

def input : Tree α → ι
  | leaf a => S.leafInput a
  | node left right => S.nodeInput (left.root S) (right.root S)

/-- Everything that is hashed for the root. -/
def inputs : Tree α → List ι
  | leaf a => [S.leafInput a]
  | node left right => S.nodeInput (left.root S) (right.root S) :: (left.inputs ++ right.inputs)

variable {S}

theorem root_eq (tree : Tree α) : tree.root S = S.hash (tree.input S) := by
  cases tree <;> rfl

theorem input_mem (tree : Tree α) : tree.input S ∈ tree.inputs S := by
  cases tree <;> simp [input, inputs]

theorem input_eq_of_root_eq {tree tree' : Tree α}
    (hinputs : S.NoCollision (tree.inputs S) (tree'.inputs S))
    (h : tree.root S = tree'.root S) : tree.input S = tree'.input S := by
  refine hinputs _ tree.input_mem _ tree'.input_mem ?_
  rw [← root_eq, ← root_eq, h]

/-- Without a collision the root determines the tree. -/
theorem eq_of_root_eq (hS : S.Separates) {tree tree' : Tree α}
    (hinputs : S.NoCollision (tree.inputs S) (tree'.inputs S))
    (h : tree.root S = tree'.root S) : tree = tree' := by
  induction tree generalizing tree' with
  | leaf a =>
    have hinput := input_eq_of_root_eq hinputs h
    cases tree' with
    | leaf a' => rw [hS.leaf hinput]
    | node left' right' =>
      rw [input, input, root_eq left', root_eq right'] at hinput
      exact absurd hinput (hS.apart a _ _)
  | node left right ihleft ihright =>
    have hinput := input_eq_of_root_eq hinputs h
    cases tree' with
    | leaf a' =>
      rw [input, input, root_eq left, root_eq right] at hinput
      exact absurd hinput.symm (hS.apart a' _ _)
    | node left' right' =>
      rw [input, input, root_eq left, root_eq right, root_eq left', root_eq right'] at hinput
      obtain ⟨hleft, hright⟩ := hS.node hinput
      rw [← root_eq, ← root_eq] at hleft hright
      have hlefts : S.NoCollision (left.inputs S) (left'.inputs S) :=
        hinputs.mono (by simp [inputs]) (by simp [inputs])
      have hrights : S.NoCollision (right.inputs S) (right'.inputs S) :=
        hinputs.mono (by simp [inputs]) (by simp [inputs])
      rw [ihleft hlefts hleft, ihright hrights hright]

end Tree

section Leaves
variable {S : Scheme α ι β} [Inhabited α] {leaves leaves' : List α}

/-- The perfect trees over the leaves, joined to one tree. -/
def ofLeaves (leaves : List α) : Tree α := Forest.root Tree.node (leaves.map Tree.leaf)

/-- Hashing commutes with the perfect trees. -/
theorem root_ofLeaves [Inhabited β] (h : leaves ≠ []) :
    (ofLeaves leaves).root S = Forest.root (fun left right => S.hash (S.nodeInput left right))
      (leaves.map fun a => S.hash (S.leafInput a)) :=
  calc (ofLeaves leaves).root S
      = Forest.root (fun left right => S.hash (S.nodeInput left right))
          ((leaves.map Tree.leaf).map (Tree.root S)) :=
        Forest.map_root (Tree.root S) (fun _ _ => rfl) (by simpa using h)
    _ = _ := by rw [List.map_map]; rfl

/-- The shape of the tree gives the number of leaves. -/
theorem count_ofLeaves (h : leaves ≠ []) : (ofLeaves leaves).count = leaves.length :=
  calc (ofLeaves leaves).count
      = Forest.root (· + ·) ((leaves.map Tree.leaf).map Tree.count) :=
        Forest.map_root Tree.count (fun _ _ => rfl) (by simpa using h)
    _ = leaves.length := by
        rw [Forest.root_add, List.map_map]
        simp [Function.comp_def, Tree.count]

/-- The tree determines the leaves and their order. -/
theorem ofLeaves_inj (h : leaves ≠ []) (h' : leaves' ≠ [])
    (heq : ofLeaves leaves = ofLeaves leaves') : leaves = leaves' := by
  have hlength : leaves.length = leaves'.length := by
    rw [← count_ofLeaves h, heq, count_ofLeaves h']
  have hnode : Function.Injective2 (@Tree.node α) := by
    intro left left' right right' hnode
    exact Tree.node.inj hnode
  have hleaf : Function.Injective (@Tree.leaf α) := fun _ _ hleaf => Tree.leaf.inj hleaf
  exact hleaf.list_map (Forest.root_inj hnode (by simpa using hlength) heq)

end Leaves

end Spex.MerkleTree
