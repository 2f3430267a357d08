import Mathlib.Logic.Function.Basic
import Mathlib.Tactic.Ring

/-! # Implicit binary trees of bits

A complete binary tree with `2 ^ depth` leaves is laid out in an array of bits
without pointers: the root has index `1`, the children of node `i` are `2 * i`
and `2 * i + 1`, and the leaves are the last `2 ^ depth` indices.  An inner bit
summarises its subtree: it is set when both children are.

* `AndTree` is that law, `AndTreeExcept` the law up to one node.  Setting a leaf
  breaks it at the parent only (`AndTree.update_leaf`), and recomputing the node
  where it is broken moves the gap one level up (`AndTreeExcept.recompute`), so
  a walk to the root repairs the tree.
* `AtHeight` places a node, and `leaf_cases` splits the leaves below a node
  between its children.
-/

namespace MeowOs.Machine

open Function (update update_of_ne update_self)

/-- Every inner node of the tree with `leaves` leaves is the conjunction of its children. -/
def AndTree (leaves : Nat) (bits : Nat → Bool) : Prop :=
  ∀ i, 0 < i → i < leaves → bits i = (bits (2 * i) && bits (2 * i + 1))

/-- The law of the tree at every inner node but one. -/
def AndTreeExcept (leaves : Nat) (bits : Nat → Bool) (gap : Nat) : Prop :=
  ∀ i, 0 < i → i < leaves → i ≠ gap → bits i = (bits (2 * i) && bits (2 * i + 1))

section Law

variable {leaves : Nat} {bits : Nat → Bool}

theorem AndTree.update_leaf {leaf : Nat} (tree : AndTree leaves bits) (isLeaf : leaves ≤ leaf) (value : Bool) :
    AndTreeExcept leaves (update bits leaf value) (leaf / 2) := by
  intro i pos inner away
  rw [update_of_ne (by omega), update_of_ne (by omega), update_of_ne (by omega)]
  exact tree i pos inner

theorem AndTreeExcept.recompute {gap : Nat} (tree : AndTreeExcept leaves bits gap) (pos : 0 < gap) :
    AndTreeExcept leaves (update bits gap (bits (2 * gap) && bits (2 * gap + 1))) (gap / 2) := by
  intro i iPos inner away
  by_cases same : i = gap
  · subst same
    rw [update_self, update_of_ne (by omega), update_of_ne (by omega)]
  · rw [update_of_ne same, update_of_ne (by omega), update_of_ne (by omega)]
    exact tree i iPos inner same

end Law

/-! ## Levels -/

/-- `node` is an inner or last-level node with `2 ^ height` leaves below it. -/
structure AtHeight (depth height node : Nat) : Prop where
  height_le : height ≤ depth
  lower : 2 ^ (depth - height) ≤ node
  upper : node < 2 * 2 ^ (depth - height)

section Levels

variable {depth height node : Nat}

private theorem level_below (le : height + 1 ≤ depth) : 2 ^ (depth - height) = 2 * 2 ^ (depth - (height + 1)) := by
  rw [show depth - height = depth - (height + 1) + 1 by omega, Nat.pow_succ, Nat.mul_comm]

theorem AtHeight.left (placed : AtHeight depth (height + 1) node) : AtHeight depth height (2 * node) := by
  obtain ⟨le, lower, upper⟩ := placed
  have level := level_below le
  exact ⟨by omega, by omega, by omega⟩

theorem AtHeight.right (placed : AtHeight depth (height + 1) node) : AtHeight depth height (2 * node + 1) := by
  obtain ⟨le, lower, upper⟩ := placed
  have level := level_below le
  exact ⟨by omega, by omega, by omega⟩

theorem AtHeight.lt_two_pow (placed : AtHeight depth height node) {below : Nat} (lower : below < height) :
    node < 2 ^ (depth - below) := by
  have := placed.upper
  have grows : 2 ^ (depth - height + 1) ≤ 2 ^ (depth - below) :=
    Nat.pow_le_pow_right (by omega) (by have := placed.height_le; omega)
  omega

theorem AtHeight.isLeaf (placed : AtHeight depth 0 node) : 2 ^ depth ≤ node ∧ node < 2 * 2 ^ depth :=
  ⟨placed.lower, placed.upper⟩

theorem leaf_cases (node height offset : Nat) (inside : offset < 2 ^ (height + 1)) :
    (∃ low < 2 ^ height, node * 2 ^ (height + 1) + offset = 2 * node * 2 ^ height + low) ∨
    (∃ high < 2 ^ height, node * 2 ^ (height + 1) + offset = (2 * node + 1) * 2 ^ height + high) := by
  rw [Nat.pow_succ] at inside ⊢
  have whole : node * (2 ^ height * 2) = 2 * node * 2 ^ height := by ring
  by_cases small : offset < 2 ^ height
  · left
    exact ⟨offset, small, by rw [whole]⟩
  right
  refine ⟨offset - 2 ^ height, by omega, ?_⟩
  rw [whole, Nat.add_mul, Nat.one_mul]
  omega

end Levels

end MeowOs.Machine
