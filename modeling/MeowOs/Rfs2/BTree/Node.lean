import MeowOs.Rfs2.Volume

/-! # Nodes of the inode tree (`rfs2/btree/mod.rs`)

A node is three arrays that fill one disk block: the keys, in ascending order
with unused slots holding `0`, the pointer that belongs to each key, and the
children between them.  The arrays are functions on their indices here; only
indices in range are ever used, and where the source could leave the range the
operations panic.
-/

namespace MeowOs.Rfs2

open MeowOs.Machine

def btreeKeyCnt : Nat := 204

inductive FillState where
  | empty | tooShort | lowerLimit | partFilled | full
  deriving DecidableEq, Repr

inductive LevelState where
  | leaf | nonLeaf
  deriving DecidableEq, Repr

structure BTreeNode where
  children : Nat → Nat
  keyIndexes : Nat → Nat
  keyPtrs : Nat → Nat

structure Key where
  index : Nat
  ptr : Nat
  deriving DecidableEq, Repr

namespace BTreeNode

/-! ## The node in a block -/

-- `repr(C)`: 205 children of 8 bytes, 204 key numbers of 4, 204 key pointers of 8
def load (b : Bytes) : BTreeNode where
  children i := b.readLE (8 * i) 8
  keyIndexes i := b.readLE (1640 + 4 * i) 4
  keyPtrs i := b.readLE (2456 + 8 * i) 8

def store (node : BTreeNode) (b : Bytes) : Bytes := fun a =>
  if a < 1640 then Bytes.leByte (node.children (a / 8)) (a % 8)
  else if a < 2456 then Bytes.leByte (node.keyIndexes ((a - 1640) / 4)) ((a - 1640) % 4)
  else if a < 4088 then Bytes.leByte (node.keyPtrs ((a - 2456) / 8)) ((a - 2456) % 8)
  else b a

theorem load_store_children (node : BTreeNode) (b : Bytes) {i : Nat} (iLe : i ≤ btreeKeyCnt) :
    (load (node.store b)).children i = node.children i % 256 ^ 8 := by
  simp only [btreeKeyCnt] at iLe
  refine Bytes.readLE_of_leByte fun j jLt => ?_
  have div : (8 * i + j) / 8 = i ∧ (8 * i + j) % 8 = j := by omega
  have lt : 8 * i + j < 1640 := by omega
  simp only [store, if_pos lt, div.1, div.2]

theorem load_store_keyIndexes (node : BTreeNode) (b : Bytes) {i : Nat} (iLt : i < btreeKeyCnt) :
    (load (node.store b)).keyIndexes i = node.keyIndexes i % 256 ^ 4 := by
  simp only [btreeKeyCnt] at iLt
  refine Bytes.readLE_of_leByte fun j jLt => ?_
  have div : (1640 + 4 * i + j - 1640) / 4 = i ∧ (1640 + 4 * i + j - 1640) % 4 = j := by omega
  have lo : ¬ 1640 + 4 * i + j < 1640 := by omega
  have hi : 1640 + 4 * i + j < 2456 := by omega
  simp only [store, if_neg lo, if_pos hi, div.1, div.2]

theorem load_store_keyPtrs (node : BTreeNode) (b : Bytes) {i : Nat} (iLt : i < btreeKeyCnt) :
    (load (node.store b)).keyPtrs i = node.keyPtrs i % 256 ^ 8 := by
  simp only [btreeKeyCnt] at iLt
  refine Bytes.readLE_of_leByte fun j jLt => ?_
  have div : (2456 + 8 * i + j - 2456) / 8 = i ∧ (2456 + 8 * i + j - 2456) % 8 = j := by omega
  have lo : ¬ 2456 + 8 * i + j < 1640 ∧ ¬ 2456 + 8 * i + j < 2456 := by omega
  have hi : 2456 + 8 * i + j < 4088 := by omega
  simp only [store, if_neg lo.1, if_neg lo.2, if_pos hi, div.1, div.2]

structure Same (x y : BTreeNode) : Prop where
  children : ∀ i, i ≤ btreeKeyCnt → x.children i = y.children i
  keyIndexes : ∀ i, i < btreeKeyCnt → x.keyIndexes i = y.keyIndexes i
  keyPtrs : ∀ i, i < btreeKeyCnt → x.keyPtrs i = y.keyPtrs i

theorem Same.trans {x y z : BTreeNode} (h : Same x y) (h' : Same y z) : Same x z :=
  ⟨fun i iLt => (h.children i iLt).trans (h'.children i iLt), fun i iLt => (h.keyIndexes i iLt).trans (h'.keyIndexes i iLt),
    fun i iLt => (h.keyPtrs i iLt).trans (h'.keyPtrs i iLt)⟩

theorem load_congr {b b' : Bytes} (h : ∀ a < 4096, b' a = b a) : Same (load b') (load b) := by
  have word : ∀ off w, off + w ≤ 4096 → b'.readLE off w = b.readLE off w := fun off w inside =>
    Bytes.readLE_congr fun k kLt => h _ (by omega)
  refine ⟨fun i iLe => word _ _ ?_, fun i iLe => word _ _ ?_, fun i iLe => word _ _ ?_⟩ <;>
    simp only [btreeKeyCnt] at iLe <;> omega

/-- The first index of the key array that satisfies `p`. -/
def position (p : Nat → Bool) : Option Nat := (List.range btreeKeyCnt).find? p

theorem position_eq_some {p : Nat → Bool} {i : Nat} :
    position p = some i ↔ p i = true ∧ i < btreeKeyCnt ∧ ∀ j < i, p j = false := by
  simp [position, List.find?_range_eq_some]

def getNumKeys (self : BTreeNode) : Nat :=
  (position fun i => self.keyIndexes i == 0).getD btreeKeyCnt

def getState (self : BTreeNode) : FillState × LevelState :=
  let empty := self.keyIndexes 0 == 0
  let full := self.keyIndexes 0 != 0
  let lowerBound := self.keyIndexes (btreeKeyCnt / 2) == 0
  let tooShort := self.keyIndexes (btreeKeyCnt / 2 - 1) == 0
  let leaf := self.children 0 == 0
  let fillState := match empty, tooShort, full, lowerBound with
    | true, _, _, _ => .empty
    | false, true, _, _ => .tooShort
    | false, false, true, _ => .full
    | false, false, false, true => .lowerLimit
    | false, false, false, false => .partFilled
  let levelState := match leaf with
    | true => .leaf
    | false => .nonLeaf
  (fillState, levelState)

/-! ## Assignments to single slots -/

def setChild (self : BTreeNode) (i ptr : Nat) : BTreeNode :=
  { self with children := Function.update self.children i ptr }

def setKey (self : BTreeNode) (i index ptr : Nat) : BTreeNode :=
  { self with
    keyIndexes := Function.update self.keyIndexes i index
    keyPtrs := Function.update self.keyPtrs i ptr }

@[simp] theorem setChild_keyIndexes (self : BTreeNode) (i ptr : Nat) :
    (self.setChild i ptr).keyIndexes = self.keyIndexes := rfl

def setPtr (self : BTreeNode) (i ptr : Nat) : BTreeNode :=
  { self with keyPtrs := Function.update self.keyPtrs i ptr }

/-- The loop that zeroes a node, as `initialize_root`, `split` and `insert_inode_root` write it. -/
def zeroed (self : BTreeNode) : BTreeNode :=
  (loopUp (fun i node => (node.setChild i 0).setKey i 0 0) 0 btreeKeyCnt self).setChild btreeKeyCnt 0

def initializeRoot (self : BTreeNode) (rootInodeIndex rootInodePtr : Nat) : BTreeNode :=
  self.zeroed.setKey 0 rootInodeIndex rootInodePtr

def blank : BTreeNode := ⟨fun _ => 0, fun _ => 0, fun _ => 0⟩

theorem zeroed_same (self : BTreeNode) : Same self.zeroed blank := by
  -- slots below the loop index are clear
  have loop := loopUp_ind (f := fun i node => (node.setChild i 0).setKey i 0 0) (n := btreeKeyCnt) (a := self)
    (fun k (node : BTreeNode) => ∀ i < k, node.children i = 0 ∧ node.keyIndexes i = 0 ∧ node.keyPtrs i = 0)
    (fun k node _ _ ih i iLt => by
      by_cases same : i = k
      · subst same
        simp [setChild, setKey]
      · have old := ih i (by omega)
        simp [setChild, setKey, same, old]) (fun i (iLt : i < 0) => by omega)
  refine ⟨fun i iLt => ?_, fun i iLt => (loop i (by omega)).2.1, fun i iLt => (loop i (by omega)).2.2⟩
  by_cases last : i = btreeKeyCnt
  · simp [zeroed, setChild, blank, last]
  · have old := (loop i (by omega)).1
    simpa [zeroed, setChild, blank, last] using old

/-! ## Rotations -/

def tryRotateRight (parent : BTreeNode) (keyIndex : Nat) (left right : BTreeNode) :
    Option (BTreeNode × BTreeNode × BTreeNode) :=
  if left.keyIndexes 0 = 0 then none
  else if right.keyIndexes (btreeKeyCnt - 1) ≠ 0 then none
  else
    let leftLastValidIndex := (position fun i => left.keyIndexes i == 0).getD btreeKeyCnt - 1
    let right := loopDown (fun i (right : BTreeNode) =>
      if right.keyIndexes i = 0 then right
      else (right.setKey (i + 1) (right.keyIndexes i) (right.keyPtrs i)).setChild (i + 2)
        (right.children (i + 1))) 0 (btreeKeyCnt - 1) right
    let right := right.setChild 1 (right.children 0)
    let right := (right.setKey 0 (parent.keyIndexes keyIndex) (parent.keyPtrs keyIndex)).setChild 0
      (left.children (leftLastValidIndex + 1))
    let parent := parent.setKey keyIndex (left.keyIndexes leftLastValidIndex)
      (left.keyPtrs leftLastValidIndex)
    let left := (left.setKey leftLastValidIndex 0 0).setChild (leftLastValidIndex + 1) 0
    some (parent, left, right)

/-- `while right.key_indexes[i] != 0` over `i in lo..lo + n`: the shift in `try_rotate_left`. -/
def shiftLeftWhileUsed (right : BTreeNode) (lo : Nat) : Nat → BTreeNode
  | 0 => right
  | n + 1 =>
    if right.keyIndexes lo = 0 then right
    else
      shiftLeftWhileUsed ((right.setKey lo (right.keyIndexes (lo + 1)) (right.keyPtrs (lo + 1))).setChild
        lo (right.children (lo + 1))) (lo + 1) n

def tryRotateLeft (parent : BTreeNode) (keyIndex : Nat) (left right : BTreeNode) :
    Option (BTreeNode × BTreeNode × BTreeNode) :=
  if right.keyIndexes 0 = 0 then none
  else if left.keyIndexes (btreeKeyCnt - 1) ≠ 0 then none
  else
    let leftFirstEmptyIndex := (position fun i => left.keyIndexes i == 0).getD btreeKeyCnt
    let left := (left.setKey leftFirstEmptyIndex (parent.keyIndexes keyIndex)
      (parent.keyPtrs keyIndex)).setChild (leftFirstEmptyIndex + 1) (right.children 0)
    let parent := parent.setKey keyIndex (right.keyIndexes 0) (right.keyPtrs 0)
    let right := right.shiftLeftWhileUsed 0 (btreeKeyCnt - 1)
    let right := (right.setKey (btreeKeyCnt - 1) 0 0).setChild (btreeKeyCnt - 1)
      (right.children btreeKeyCnt)
    some (parent, left, right.setChild btreeKeyCnt 0)

end BTreeNode

end MeowOs.Rfs2
