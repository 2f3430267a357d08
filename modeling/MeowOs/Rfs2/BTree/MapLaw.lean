import MeowOs.Rfs2.BTree.Leaf
import MeowOs.Rfs2.FormatSoundness

/-! # The inode tree as a map

A run of insertions and removals on a new volume is compared with the map of the
last insertions.  While every insertion is `Safe` the root stays a leaf that
represents the map (`TreeInv`).  The first one that is not safe loses entries:
it either gives the larger keys each other's pointers, or it splits a leaf that
has nothing in its upper half and puts an empty node on top of the tree.
-/

namespace MeowOs.Rfs2.BTreeNode

open MeowOs.Machine Prog
open Option (bind_some some some_ne_none)
open Function (update update_eq_self update_of_ne update_self)

/-! ## Runs -/

inductive TreeOp where
  | insert (k p : Nat) (kIn : 1 ≤ k ∧ k < 2 ^ 32) (pLt : p < 2 ^ 64)
  | remove (k : Nat)

def TreeOp.run (fuel : Nat) : TreeOp → Prog Rfs2 Unit
  | .insert k p _ _ => insertInodeRoot fuel k p
  | .remove k => do
    let _ ← removeKeyRoot fuel k

/-- The map of the last insertions after one more call. -/
def TreeOp.after (m : Nat → Option Nat) : TreeOp → Nat → Option Nat
  | .insert k p _ _ => update m k (some p)
  | .remove k => update m k none

inductive TreeRun : Rfs2 → List (TreeOp × Rfs2) → Prop
  | nil (v : Rfs2) : TreeRun v []
  | cons {v u : Rfs2} {op : TreeOp} {fuel : Nat} {rest : List (TreeOp × Rfs2)} :
      op.run fuel v = some ((), u) → TreeRun u rest → TreeRun v ((op, u) :: rest)

/-- With enough fuel every search returns what the map says. -/
def MapLaw (v : Rfs2) (m : Nat → Option Nat) : Prop :=
  ∀ q, q < 2 ^ 32 → ∃ N, ∀ fuel, N ≤ fuel → ∃ u, findInodeRoot fuel q v = some (m q, u)

def Lawful (m : Nat → Option Nat) : List (TreeOp × Rfs2) → Prop
  | [] => True
  | (op, u) :: rest => MapLaw u (op.after m) ∧ Lawful (op.after m) rest

/-- An insertion that replaces a pointer, or that goes below keys with pointer 0 only into a tree of
fewer than 102 keys. -/
def TreeOp.Safe (m : Nat → Option Nat) : TreeOp → Prop
  | .insert k _ _ _ => m k ≠ none ∨ (Set.ncard {q | m q ≠ none} < 102 ∧ ∀ q p, k < q → m q = some p → p = 0)
  | .remove _ => True

def AllSafe (m : Nat → Option Nat) : List (TreeOp × Rfs2) → Prop
  | [] => True
  | (op, _) :: rest => op.Safe m ∧ AllSafe (op.after m) rest

/-! ## The root of the tree -/

structure TreeInv (v : Rfs2) (m : Nat → Option Nat) : Prop where
  root_ne : v.superblock.inodeTreeRootPtr ≠ 0
  hasRoot : v.HasBlock v.superblock.inodeTreeRootPtr
  leaf : ∃ n, Leaf (load (v.disk.block v.superblock.inodeTreeRootPtr)) n ∧
    Represents (load (v.disk.block v.superblock.inodeTreeRootPtr)) n m

section Root

variable {v v' : Rfs2} {m : Nat → Option Nat} {fuel : Nat}

def readBlock (v : Rfs2) (n : Nat) : WorkingBlock :=
  { data := (v.frames 0).blit 0 4096 (v.disk.block n), diskBlock := some n, changed := false }

variable {n q k p i : Nat} {node parent : BTreeNode} {r : Option Nat} {w : WorkingBlock} {b : Bytes}

theorem getDiskBlock_run (h : v.HasBlock n) : getDiskBlock n v = some (readBlock v n, v.tick) :=
  getDiskBlock_eq_some.mpr ⟨h, rfl, rfl⟩

theorem load_readBlock (v : Rfs2) (n : Nat) : Same (load (readBlock v n).data) (load (v.disk.block n)) :=
  load_congr fun _ aLt => Bytes.blit_front (by omega)

def rootNode (v : Rfs2) : BTreeNode := load (readBlock v v.superblock.inodeTreeRootPtr).data

theorem TreeInv.rootNode (h : TreeInv v m) : ∃ n, Leaf (rootNode v) n ∧ Represents (rootNode v) n m := by
  obtain ⟨n, leaf, rep⟩ := h.leaf
  exact ⟨n, leaf.congr (load_readBlock v _), rep.congr (Nat.le_of_lt leaf.lt) (load_readBlock v _)⟩

theorem saveNode_eq_some (wEq : w.diskBlock = some n) :
    w.saveNode node v = some ((), v') ↔ v.HasBlock n ∧ v' = v.setBlock n (node.store w.data) := by
  rw [WorkingBlock.saveNode, WorkingBlock.getAsMut, wEq, writeAndDealloc_eq_some]

theorem rootNode_setBlock (root : v.superblock.inodeTreeRootPtr = n) (node : BTreeNode)
    (b : Bytes) : Same (BTreeNode.rootNode (v.setBlock n (node.store b))) (load (node.store b)) := by
  refine (load_readBlock _ _).trans (load_congr fun a aLt => ?_)
  rw [setBlock_superblock, root, setBlock_disk]
  exact Bytes.setBlock_same aLt

theorem TreeInv.save (h : TreeInv v m) {m' : Nat → Option Nat}
    (leaf : Leaf node n) (rep : Represents node n m') (b : Bytes) :
    TreeInv (v.tick.setBlock v.superblock.inodeTreeRootPtr (node.store b)) m' := by
  refine ⟨h.root_ne, h.hasRoot, n, ?_⟩
  have same : Same (load ((v.disk.setBlock v.superblock.inodeTreeRootPtr (node.store b)).block
      v.superblock.inodeTreeRootPtr)) node :=
    (load_congr fun a aLt => Bytes.setBlock_same aLt).trans (leaf.load_store b)
  exact ⟨leaf.congr same, rep.congr (Nat.le_of_lt leaf.lt) same⟩

theorem findInodeRoot_eq_some : findInodeRoot fuel q v = some (r, v') ↔ v.superblock.inodeTreeRootPtr ≠ 0 ∧
    v.HasBlock v.superblock.inodeTreeRootPtr ∧ findInode fuel (rootNode v) q v.tick = some (r, v') := by
  constructor
  · intro find
    obtain ⟨sb, _, sbEq, run1⟩ := bind_eq_some.mp find
    cases sbEq
    split at run1
    · cases run1
    next root =>
    obtain ⟨w, _, read, run2⟩ := bind_eq_some.mp run1
    obtain ⟨block, rfl, rfl⟩ := getDiskBlock_eq_some.mp read
    obtain ⟨res, u, inner, ⟨⟩, u', forget, ret⟩ := bind₂_eq_some.mp run2
    cases forget
    cases ret
    exact ⟨root, block, inner⟩
  · rintro ⟨root, block, find⟩
    simp only [findInodeRoot, getSuperblock, bind_run, Prog.get_run, bind_some, pure_run,
      if_neg root, getDiskBlock_run block]
    rw [rootNode] at find
    simp only [find, bind_some]
    rfl

theorem TreeInv.find (h : TreeInv v m) (q : Nat) : findInodeRoot (fuel + 1) q v = some (m q, v.tick) := by
  obtain ⟨n, leaf, rep⟩ := h.rootNode
  exact findInodeRoot_eq_some.mpr ⟨h.root_ne, h.hasRoot, findInode_leaf leaf rep q⟩

theorem TreeInv.found {u : Rfs2} (h : TreeInv v m)
    (find : findInodeRoot fuel q v = some (r, u)) : r = m q ∧ u = v.tick := by
  cases fuel with
  | zero =>
    obtain ⟨-, -, isNone⟩ := findInodeRoot_eq_some.mp find
    cases isNone
  | succ fuel =>
    rw [h.find q] at find
    cases find
    exact ⟨rfl, rfl⟩

theorem TreeInv.of_same (h : TreeInv v m) (sb : v'.superblock = v.superblock)
    (size : v'.partition.sizeSectors = v.partition.sizeSectors)
    (block : Bytes.SameBlock v.disk v'.disk v.superblock.inodeTreeRootPtr) : TreeInv v' m := by
  obtain ⟨n, leaf, rep⟩ := h.leaf
  have loaded : Same (load (v'.disk.block v'.superblock.inodeTreeRootPtr))
      (load (v.disk.block v.superblock.inodeTreeRootPtr)) := by
    rw [sb]
    exact load_congr block
  refine ⟨sb ▸ h.root_ne, ?_, n, leaf.congr loaded, rep.congr (Nat.le_of_lt leaf.lt) loaded⟩
  have inside := h.hasRoot
  simpa [HasBlock, sb, size] using inside

theorem TreeInv.mapLaw (h : TreeInv v m) : MapLaw v m := by
  intro q _
  refine ⟨1, fun fuel fuelLe => ?_⟩
  obtain ⟨f, rfl⟩ : ∃ f, fuel = f + 1 := ⟨fuel - 1, by omega⟩
  exact ⟨v.tick, h.find q⟩

theorem insertInodeRoot_eq_some (h : TreeInv v m) (run : insertInodeRoot fuel k p v = some ((), v')) :
    ∃ res node u, insertInode fuel (rootNode v) k p v.tick = some ((res, node), u) ∧ (match res with
        | .tooBig key child => insertRootOverflow v.superblock
            (readBlock v v.superblock.inodeTreeRootPtr) node key child
        | .updated => (readBlock v v.superblock.inodeTreeRootPtr).saveNode node
        | .nothing =>
          { (readBlock v v.superblock.inodeTreeRootPtr).getAsMut node.store with
            changed := false }.writeAndDealloc : Prog Rfs2 Unit) u = some ((), v') := by
  obtain ⟨sb, _, sbEq, run1⟩ := bind_eq_some.mp run
  cases sbEq
  rw [if_neg h.root_ne] at run1
  obtain ⟨w, _, read, run2⟩ := bind_eq_some.mp run1
  rw [getDiskBlock_run h.hasRoot] at read
  cases read
  obtain ⟨⟨res, node⟩, u, insert, run3⟩ := bind_eq_some.mp run2
  refine ⟨res, node, u, insert, ?_⟩
  cases res <;> exact run3

theorem insertInodeRoot_updated (h : TreeInv v m)
    (ins : insertInode fuel (rootNode v) k p v.tick = some ((.updated, node), v.tick)) :
    insertInodeRoot fuel k p v = some ((), v.tick.setBlock v.superblock.inodeTreeRootPtr
      (node.store (readBlock v v.superblock.inodeTreeRootPtr).data)) := by
  simp only [insertInodeRoot, getSuperblock, bind_run, Prog.get_run, bind_some, pure_run,
    if_neg h.root_ne, getDiskBlock_run h.hasRoot]
  rw [rootNode] at ins
  simp only [ins, bind_some]
  exact (saveNode_eq_some rfl).mpr ⟨h.hasRoot, rfl⟩

theorem findInode_hollow (key : node.keyIndexes 0 = 0) (last : node.children btreeKeyCnt = 0)
    (find : findInode fuel node q v = some (r, v')) : r = none := by
  cases fuel with
  | zero => cases find
  | succ fuel =>
    have pos : (position fun j => node.keyIndexes j == 0 || decide (node.keyIndexes j > q) ||
        node.keyIndexes j == q) = some 0 :=
      position_eq_some.mpr ⟨by simp [key], by decide, fun j jLt => by omega⟩
    simp only [findInode, pos, key, last, if_true, ne_eq, not_true_eq_false, if_false, pure_run] at find
    cases find
    rfl

theorem makeRoom_children
    (parentAll : ∀ i, 1 ≤ i → i ≤ btreeKeyCnt → parent.children i = 0) (iLe : 1 ≤ i) (iLe' : i ≤ btreeKeyCnt) :
    (parent.makeRoom 0).children i = 0 := by
  refine loopDown_ind (fun _ (x : BTreeNode) => ∀ i, 1 ≤ i → i ≤ btreeKeyCnt → x.children i = 0) ?_
    parentAll i iLe iLe'
  intro j x jLt xAll i iLe iLe'
  simp only [setChild, setKey]
  by_cases same : i = 0 + 1 + j + 1
  · rw [same, update_self]
    exact xAll (0 + 1 + j) (by omega) (by omega)
  · rw [update_of_ne same]
    exact xAll i iLe iLe'

theorem split_hollow {child : BTreeNode} {res : InsertResult} (keys : parent.keyIndexes (btreeKeyCnt - 1) = 0)
    (parentAll : ∀ i, 1 ≤ i → i ≤ btreeKeyCnt → parent.children i = 0) (childEq : child.keyIndexes (btreeKeyCnt / 2) = 0)
    (h : split parent 0 child v = some ((res, node), v')) :
    node.keyIndexes 0 = 0 ∧ node.children btreeKeyCnt = 0 ∧ v'.superblock = v.superblock := by
  obtain ⟨w, u1, new, run1⟩ := bind_eq_some.mp h
  obtain ⟨b, u, alloc, rfl, rfl⟩ := newDiskBlock_spec new
  obtain ⟨_, _, disk, run2⟩ := bind_eq_some.mp run1
  cases disk
  obtain ⟨⟨⟩, u2, save, run3⟩ := bind_eq_some.mp run2
  obtain ⟨-, rfl⟩ := (saveNode_eq_some rfl).mp save
  rw [if_neg (not_not.mpr keys), if_neg (by decide)] at run3
  cases run3
  refine ⟨?_, ?_, (allocateBlock_spec alloc).frame.superblock⟩
  · simp only [setChild, setKey, update_self]
    exact childEq
  · simp only [setChild, setKey]
    rw [update_of_ne (by decide)]
    exact makeRoom_children parentAll (by decide) (Nat.le_refl _)

/-- The overflow of a root without an upper half leaves a hollow node as the root. -/
theorem insertRootOverflow_hollow {key : Key} {child : Nat}
    (wEq : w.diskBlock = some n) (nodeEq : node.keyIndexes (btreeKeyCnt / 2) = 0)
    (h : insertRootOverflow v.superblock w node key child v = some ((), v')) :
    (rootNode v').keyIndexes 0 = 0 ∧ (rootNode v').children btreeKeyCnt = 0 := by
  obtain ⟨newBlock, u1, new, run1⟩ := bind_eq_some.mp h
  obtain ⟨b, u, alloc, rfl, rfl⟩ := newDiskBlock_spec new
  obtain ⟨_, _, disk, run2⟩ := bind_eq_some.mp run1
  cases disk
  obtain ⟨⟨⟩, u2, sb, run3⟩ := bind_eq_some.mp run2
  have root2 : u2.superblock.inodeTreeRootPtr = b := by
    rw [(updateSuperblock_spec sb).superblock]
    rfl
  obtain ⟨⟨res, newNode⟩, u3, parts, run4⟩ := bind_eq_some.mp run3
  have blank := zeroed_same (load (u.frames 0))
  have fresh : ∀ i, 1 ≤ i → i ≤ btreeKeyCnt →
      ((load (u.frames 0)).zeroed.setChild 0 v.superblock.inodeTreeRootPtr).children i = 0 := by
    intro i iLe iLe'
    exact (update_of_ne (by omega) _ _).trans (blank.children i iLe')
  have noKeys : ((load (u.frames 0)).zeroed.setChild 0 v.superblock.inodeTreeRootPtr).keyIndexes
      (btreeKeyCnt - 1) = 0 := by
    rw [setChild_keyIndexes, blank.keyIndexes _ (by decide)]
    rfl
  obtain ⟨keyEq, last, super3⟩ := split_hollow noKeys fresh nodeEq parts
  have absent : ¬ newNode.keyIndexes 0 > key.index := by omega
  simp only [absent, if_false] at run4
  -- the right sibling and the old root are saved first, the new root last
  obtain ⟨rightChild, u4, right, run5⟩ := bind_eq_some.mp run4
  obtain ⟨-, rfl, rfl⟩ := getDiskBlock_eq_some.mp right
  obtain ⟨rightNode, u5, opt, run6⟩ := bind_eq_some.mp run5
  obtain ⟨-, rfl⟩ := ofOption_eq_some.mp opt
  obtain ⟨⟨⟩, u6, save1, run7⟩ := bind_eq_some.mp run6
  obtain ⟨-, rfl⟩ := (saveNode_eq_some rfl).mp save1
  obtain ⟨⟨⟩, u7, save2, run8⟩ := bind_eq_some.mp run7
  obtain ⟨-, rfl⟩ := (saveNode_eq_some wEq).mp save2
  obtain ⟨-, rfl⟩ := (saveNode_eq_some rfl).mp run8
  have root3 : u3.superblock.inodeTreeRootPtr = b := by rw [super3, root2]
  have same := fun t => rootNode_setBlock (v := (u3.tick.setBlock (newNode.children 1) t).setBlock n
    (node.store w.data)) root3 newNode (u.frames 0)
  rw [(same _).keyIndexes 0 (by decide), (same _).children _ (Nat.le_refl _),
    load_store_keyIndexes _ _ (by decide), load_store_children _ _ (Nat.le_refl _), keyEq, last]
  exact ⟨rfl, rfl⟩

/-! ### One insertion -/

theorem Represents.ncard (leaf : Leaf node n) (rep : Represents node n m) : Set.ncard {q | m q ≠ none} = n := by
  have isSet : {q | m q ≠ none} = ((Finset.range n).image node.keyIndexes : Set Nat) := by
    ext q
    simp only [Set.mem_ofPred_eq, Finset.coe_image, Finset.coe_range, Set.mem_image, Set.mem_Iio]
    constructor
    · intro qNe
      obtain ⟨p, pEq⟩ := Option.ne_none_iff_exists'.mp qNe
      obtain ⟨i, iLt, key, -⟩ := (rep q p).mp pEq
      exact ⟨i, iLt, key⟩
    · rintro ⟨i, iLt, rfl⟩
      rw [rep.eq_some iLt]
      exact some_ne_none _
  have inj : Set.InjOn node.keyIndexes (Finset.range n : Set Nat) := by
    intro i iLt j jMem eq
    simp only [Finset.coe_range, Set.mem_Iio] at iLt jMem
    exact leaf.index_unique iLt jMem eq
  rw [isSet, Set.ncard_coe_finset, Finset.card_image_of_injOn inj, Finset.card_range]

theorem findInodeRoot_saved (h : TreeInv v m) (leaf : Leaf node n)
    (iLt : i < n) (vEq' : v' = v.tick.setBlock v.superblock.inodeTreeRootPtr (node.store b)) :
    findInodeRoot (fuel + 1) (node.keyIndexes i) v' = some (some (node.keyPtrs i), v'.tick) := by
  have lt := leaf.lt
  have same : Same (rootNode v') node := by
    rw [vEq']
    exact (rootNode_setBlock (v := v.tick) rfl node b).trans (leaf.load_store b)
  have find : findInode (fuel + 1) (rootNode v') ((rootNode v').keyIndexes i) v'.tick =
      some (some ((rootNode v').keyPtrs i), v'.tick) := findInode_some (leaf.congr same) iLt
  rw [same.keyIndexes i (by omega), same.keyPtrs i (by omega)] at find
  subst vEq'
  exact findInodeRoot_eq_some.mpr ⟨h.root_ne, h.hasRoot, find⟩

/-- If the law holds behind an insertion, every larger key has the pointer of the next slot. -/
theorem Insertion.keeps {r : Nat} (ins : Insertion (rootNode v) n r k p) (h : TreeInv v m)
    (leaf : Leaf (rootNode v) n) (rep : Represents (rootNode v) n m)
    (leaf' : Leaf (inserted (rootNode v) n r k p) (n + 1))
    (vEq' : v' = v.tick.setBlock v.superblock.inodeTreeRootPtr ((inserted (rootNode v) n r k p).store b))
    (law : MapLaw v' (update m k (some p))) :
    ∀ i, r ≤ i → i < n → (rootNode v).keyPtrs (i + 1) = (rootNode v).keyPtrs i := by
  intro i riLe iLt
  have high := ins.high i riLe iLt
  have bound : (rootNode v).keyIndexes i < 2 ^ 32 := leaf.keyBound i iLt
  obtain ⟨same, nIsP⟩ := inserted_high (rootNode v) k p riLe iLt
  obtain ⟨N, nAll⟩ := law _ bound
  obtain ⟨u, uEq⟩ := nAll (N + 1) (Nat.le_succ N)
  have uEq' : findInodeRoot (N + 1) ((inserted (rootNode v) n r k p).keyIndexes (i + 1)) v' =
      some (some ((inserted (rootNode v) n r k p).keyPtrs (i + 1)), v'.tick) :=
    findInodeRoot_saved h leaf' (Nat.succ_lt_succ iLt) vEq'
  rw [update_of_ne (Nat.ne_of_gt high), rep.eq_some iLt] at uEq
  rw [same, uEq, nIsP, some.injEq, Prod.mk.injEq, some.injEq] at uEq'
  exact uEq'.1.symm

theorem insert_step {kIn : 1 ≤ k ∧ k < 2 ^ 32} {pLt : p < 2 ^ 64} (h : TreeInv v m)
    (run : insertInodeRoot fuel k p v = some ((), v')) :
    ((TreeOp.insert k p kIn pLt).Safe m → TreeInv v' (update m k (some p))) ∧
      (MapLaw v' (update m k (some p)) → (TreeOp.insert k p kIn pLt).Safe m) := by
  have kLt' : k < 256 ^ 4 := by norm_num at kIn ⊢; exact kIn.2
  have pLt' : p < 256 ^ 8 := by norm_num at pLt ⊢; exact pLt
  cases fuel with
  | zero =>
    obtain ⟨res, node, u, insert, -⟩ := insertInodeRoot_eq_some h run
    cases insert
  | succ f =>
    obtain ⟨n, leaf, rep⟩ := h.rootNode
    have card := rep.ncard leaf
    by_cases present : ∃ i < n, (rootNode v).keyIndexes i = k
    · obtain ⟨i, iLt, rfl⟩ := present
      have insert : insertInode (f + 1) (rootNode v) ((rootNode v).keyIndexes i) p v.tick =
          some ((.updated, (rootNode v).setPtr i p), v.tick) := insertInode_present leaf iLt
      have vEq' := insertInodeRoot_updated h insert
      rw [run, some.injEq, Prod.mk.injEq] at vEq'
      refine ⟨fun _ => ?_, fun _ => .inl ?_⟩
      · rw [vEq'.2]
        exact h.save (leaf.setPtr iLt pLt') (rep.setPtr leaf p iLt) _
      · rw [rep.eq_some iLt]
        exact some_ne_none _
    · have new : ∀ i < n, (rootNode v).keyIndexes i ≠ k := fun i iLt eq => present ⟨i, iLt, eq⟩
      have isNone : m k = none := rep.eq_none new
      have insert : insertInode (f + 1) (rootNode v) k p v.tick =
          if n = btreeKeyCnt / 2 then some ((.tooBig { index := k, ptr := p } 0, rootNode v), v.tick)
          else some ((.updated, (rootNode v).insertLeafNonFull k p), v.tick) :=
        insertInode_absent leaf (by omega) new
      by_cases full : n = btreeKeyCnt / 2
      · -- the root counts as full: the new root above it is hollow
        rw [if_pos full] at insert
        obtain ⟨res, node, u, ins, overflows⟩ := insertInodeRoot_eq_some h run
        rw [insert] at ins
        cases ins
        have empty : (rootNode v).keyIndexes (btreeKeyCnt / 2) = 0 :=
          (leaf.unused _ (Nat.le_of_eq full) (by decide)).1
        obtain ⟨key, last⟩ := insertRootOverflow_hollow rfl empty overflows
        refine ⟨fun safe => ?_, fun law => ?_⟩
        · cases safe with
          | inl old => exact absurd isNone old
          | inr room =>
            have lt := room.1
            rw [card, full] at lt
            exact absurd lt (by decide)
        · obtain ⟨N, nAll⟩ := law k kIn.2
          obtain ⟨u, uEq⟩ := nAll N (Nat.le_refl N)
          rw [update_self] at uEq
          have contra := findInode_hollow key last (findInodeRoot_eq_some.mp uEq).2.2
          cases contra
      · rw [if_neg full] at insert
        obtain ⟨r, ins⟩ := leaf.insertion p new
        have room : n < btreeKeyCnt / 2 := Nat.lt_of_le_of_ne leaf.le full
        have vEq' := insertInodeRoot_updated h insert
        rw [run, some.injEq, Prod.mk.injEq, ins.eq] at vEq'
        have leaf' := ins.leaf leaf room (by omega) kLt' pLt'
        refine ⟨fun safe => ?_, fun law => .inr ⟨by rw [card]; exact room, ?_⟩⟩
        · rw [vEq'.2]
          refine h.save leaf' (ins.represents leaf rep ?_) _
          intro i riLe iLt
          cases safe with
          | inl old => exact absurd isNone old
          | inr zero => exact zero.2 _ _ (ins.high i riLe iLt) (rep.eq_some iLt)
        · have keeps := ins.keeps h leaf rep leaf' vEq'.2 law
          intro q p' qLt mEq
          obtain ⟨i, iLt, rfl, rfl⟩ := (rep q p').mp mEq
          refine leaf.ptr_zero keeps i ?_ iLt
          by_contra other
          have := ins.low i (by omega)
          omega

theorem insertInodeRoot_total (p : Nat) (h : TreeInv v m) (kNe : k ≠ 0)
    (room : Set.ncard {q | m q ≠ none} < 102) : ∃ v', insertInodeRoot (fuel + 1) k p v = some ((), v') ∧
      Frame {v.superblock.inodeTreeRootPtr} v v' := by
  obtain ⟨n, leaf, rep⟩ := h.rootNode
  rw [rep.ncard leaf] at room
  have full : n ≠ btreeKeyCnt / 2 := Nat.ne_of_lt room
  obtain ⟨node, insert⟩ : ∃ node, insertInode (fuel + 1) (rootNode v) k p v.tick = some ((.updated, node), v.tick) := by
    by_cases present : ∃ i < n, (rootNode v).keyIndexes i = k
    · obtain ⟨i, iLt, rfl⟩ := present
      exact ⟨_, insertInode_present leaf iLt⟩
    · refine ⟨(rootNode v).insertLeafNonFull k p, ?_⟩
      rw [insertInode_absent leaf kNe fun i iLt eq => present ⟨i, iLt, eq⟩]
      exact if_neg full
  exact ⟨_, insertInodeRoot_updated h insert, Frame.of_tick (Frame.setBlock (Set.mem_singleton _))⟩

theorem removed_end (leaf : Leaf node n) : Same (removed node n) node := by
  have lt := leaf.lt
  have slot : ∀ i < btreeKeyCnt, (removed node n).keyIndexes i = node.keyIndexes i ∧
      (removed node n).keyPtrs i = node.keyPtrs i := by
    intro i iLt
    by_cases inside : i < n
    · have same := removed_slot node (i := n) (j := i) lt (by omega)
      rwa [if_pos inside] at same
    obtain ⟨key, ptr⟩ := removed_unused leaf (i := n) (by omega) (by omega) iLt
    obtain ⟨key', ptr'⟩ := leaf.unused i (by omega) iLt
    rw [key, ptr, key', ptr']
    exact ⟨rfl, rfl⟩
  refine ⟨fun i iLt => ?_, fun i iLt => (slot i iLt).1, fun i iLt => (slot i iLt).2⟩
  exact congrFun (shiftKeysDown_slots node lt).1 i

theorem removeKeyRoot_saved {result : Option (Nat × RemoveResult)} (h : TreeInv v m)
    (remove : removeKey fuel (rootNode v) k v.tick = some ((result, node), v.tick))
    (run : removeKeyRoot fuel k v = some (r, v')) :
    result ≠ none ∧ ((∀ p, result ≠ some (p, .nothing)) → node.keyIndexes 0 ≠ 0 ∧
      v' = v.tick.setBlock v.superblock.inodeTreeRootPtr
        (node.store (readBlock v v.superblock.inodeTreeRootPtr).data)) := by
  obtain ⟨sb, _, sbEq, run1⟩ := bind_eq_some.mp run
  cases sbEq
  rw [if_neg h.root_ne] at run1
  obtain ⟨w, _, read, run2⟩ := bind_eq_some.mp run1
  rw [getDiskBlock_run h.hasRoot] at read
  cases read
  obtain ⟨⟨result', node'⟩, u, remove', run3⟩ := bind_eq_some.mp run2
  cases remove.symm.trans remove'
  cases result with
  | none =>
    obtain ⟨⟨⟩, _, forget, -⟩ := bind_eq_some.mp run3
    cases forget
  | some removed =>
    obtain ⟨p, res⟩ := removed
    refine ⟨some_ne_none _, fun resAll => ?_⟩
    by_cases last : node.keyIndexes 0 = 0
    · simp only [last, if_true] at run3
      obtain ⟨⟨⟩, _, -, ⟨⟩, _, -, run5⟩ := bind₂_eq_some.mp run3
      obtain ⟨⟨⟩, _, forget, -⟩ := bind_eq_some.mp run5
      cases forget
    · refine ⟨last, ?_⟩
      have written : res = .updated ∨ res = .tooShort := by
        cases res with
        | nothing => exact absurd rfl (resAll p)
        | updated => exact .inl rfl
        | tooShort => exact .inr rfl
      simp only [last, if_false, written, if_true] at run3
      obtain ⟨⟨⟩, _, write, ret⟩ := bind_eq_some.mp run3
      obtain ⟨-, rfl⟩ := writeAndDealloc_eq_some.mp write
      cases ret
      rfl

theorem remove_step (h : TreeInv v m) (run : removeKeyRoot fuel k v = some (r, v')) : TreeInv v' (update m k none) := by
  obtain ⟨n, leaf, rep⟩ := h.rootNode
  have lt := leaf.lt
  cases fuel with
  | zero =>
    simp [removeKeyRoot, getSuperblock, bind_run, if_neg h.root_ne, getDiskBlock_run h.hasRoot, removeKey] at run
  | succ f =>
    -- a slot that holds `k`: the one of the key, or for 0 the one behind the last key
    by_cases slot : ∃ i ≤ n, (rootNode v).keyIndexes i = k
    · obtain ⟨i, iLe, rfl⟩ := slot
      obtain ⟨res, resNe, remove⟩ : ∃ res, res ≠ .nothing ∧
          removeKey (f + 1) (rootNode v) ((rootNode v).keyIndexes i) v.tick =
            some ((some ((rootNode v).keyPtrs i, res), removed (rootNode v) i), v.tick) :=
        removeKey_slot leaf iLe
      obtain ⟨-, saved⟩ := removeKeyRoot_saved h remove run
      obtain ⟨ne, vEq'⟩ := saved fun p eq => by
        simp only [some.injEq, Prod.mk.injEq] at eq
        exact resNe eq.2
      rw [vEq']
      by_cases inside : i < n
      · exact h.save (leaf.removed inside ne) (rep.removed leaf inside) _
      have ends : i = n := by omega
      subst ends
      have zero : (rootNode v).keyIndexes i = 0 := (leaf.unused i (Nat.le_refl i) lt).1
      have isNone : m 0 = none := rep.eq_none leaf.used
      have same := removed_end leaf
      rw [zero, ← isNone, update_eq_self]
      exact h.save (leaf.congr same) (rep.congr (Nat.le_of_lt lt) same) _
    · have kNe : k ≠ 0 := by
        rintro rfl
        exact slot ⟨n, Nat.le_refl n, (leaf.unused n (Nat.le_refl n) lt).1⟩
      have new : ∀ i < n, (rootNode v).keyIndexes i ≠ k := fun i iLe eq =>
        slot ⟨i, Nat.le_of_lt iLe, eq⟩
      exact absurd rfl (removeKeyRoot_saved h (removeKey_absent leaf kNe new) run).1

end Root

/-! ## The law over whole runs -/

def newTree : Nat → Option Nat := update (fun _ => none) rootInodeIndex (some 4)

theorem initializeRoot_leaf (node : BTreeNode) : Leaf (node.initializeRoot rootInodeIndex 4) 1 ∧
    Represents (node.initializeRoot rootInodeIndex 4) 1 newTree := by
  have blank := zeroed_same node
  have first : (node.initializeRoot rootInodeIndex 4).keyIndexes 0 = rootInodeIndex ∧
      (node.initializeRoot rootInodeIndex 4).keyPtrs 0 = 4 := by
    simp [initializeRoot, setKey]
  have other : ∀ i, 1 ≤ i → i < btreeKeyCnt → (node.initializeRoot rootInodeIndex 4).keyIndexes i = 0 ∧
      (node.initializeRoot rootInodeIndex 4).keyPtrs i = 0 := by
    intro i iLe iLt'
    simp only [initializeRoot, setKey]
    rw [update_of_ne (by omega), update_of_ne (by omega), blank.keyIndexes i iLt', blank.keyPtrs i iLt']
    exact ⟨rfl, rfl⟩
  refine ⟨⟨by decide, by decide, blank.children, ?_, ?_, other, ?_, ?_⟩, ?_⟩
  · intro i iLe
    rw [show i = 0 by omega, first.1]
    decide
  · intro i j ijLt jLt
    omega
  · intro i iLe
    rw [show i = 0 by omega, first.1]
    decide
  · intro i iLe
    rw [show i = 0 by omega, first.2]
    decide
  intro q p
  by_cases qEq : q = rootInodeIndex
  · subst qEq
    rw [newTree, update_self, some.injEq]
    constructor
    · intro pEq
      exact ⟨0, by decide, first.1, first.2.trans pEq⟩
    · rintro ⟨i, iLe, -, ptr⟩
      rwa [show i = 0 by omega, first.2] at ptr
  · rw [newTree, update_of_ne qEq]
    refine ⟨fun isNone => (by cases isNone), ?_⟩
    rintro ⟨i, iLe, key, -⟩
    rw [show i = 0 by omega, first.1] at key
    exact absurd key.symm qEq

theorem format_treeInv {sinceEpoch : Nat} {v v' : Rfs2} (h : format sinceEpoch v = some (.ok (), v')) :
    TreeInv v' newTree := by
  have size := format_ok_size h
  have formatted := format_contents h
  have root : v'.superblock.inodeTreeRootPtr = 2 := by
    rw [formatted.superblock]
    rfl
  obtain ⟨arr, block⟩ := formatted.inodeTree
  obtain ⟨leaf, rep⟩ := initializeRoot_leaf (load arr)
  have same : Same (load (v'.disk.block 2)) ((load arr).initializeRoot rootInodeIndex 4) :=
    (load_congr block).trans (leaf.load_store arr)
  refine ⟨by rw [root]; decide, ?_, 1, ?_⟩
  · rw [root]
    simp only [wholeBlocks, blockSizeSectors] at size
    simp only [HasBlock, formatted.inside.size]
    omega
  · rw [root]
    exact ⟨leaf.congr same, rep.congr (by decide) same⟩

/-- From a tree with the invariant, the law holds along a run just if every insertion was safe. -/
theorem lawful_iff_allSafe {v : Rfs2} {m : Nat → Option Nat} {trace : List (TreeOp × Rfs2)}
    (h : TreeInv v m) (run : TreeRun v trace) : Lawful m trace ↔ AllSafe m trace := by
  induction run generalizing m with
  | nil => exact Iff.rfl
  | @cons v u op fuel rest step _ ih =>
    have opIn : (op.Safe m → TreeInv u (op.after m)) ∧ (MapLaw u (op.after m) → op.Safe m) := by
      cases op with
      | insert k p kIn pLt => exact insert_step h step
      | remove k =>
        obtain ⟨r, u', removed, ret⟩ := bind_eq_some.mp step
        cases ret
        exact ⟨fun _ => remove_step h removed, fun _ => trivial⟩
    constructor
    · rintro ⟨law, restOk⟩
      have safe := opIn.2 law
      exact ⟨safe, (ih (opIn.1 safe)).mp restOk⟩
    · rintro ⟨safe, restOk⟩
      have inv := opIn.1 safe
      exact ⟨inv.mapLaw, (ih inv).mpr restOk⟩

/-- On a new volume the tree is the map of the last insertions, before and behind every call of a
run, just if every insertion of the run is safe. -/
theorem inode_tree_map_law {sinceEpoch : Nat} {v₀ v : Rfs2} {trace : List (TreeOp × Rfs2)}
    (formatted : format sinceEpoch v₀ = some (.ok (), v)) (run : TreeRun v trace) :
    MapLaw v newTree ∧ Lawful newTree trace ↔ AllSafe newTree trace := by
  have inv := format_treeInv formatted
  rw [lawful_iff_allSafe inv run]
  exact and_iff_right inv.mapLaw

theorem newTree_ncard : Set.ncard {q | newTree q ≠ none} = 1 := by
  obtain ⟨leaf, rep⟩ := initializeRoot_leaf blank
  exact rep.ncard leaf

theorem exists_inserted (k p : Nat) (kIn : 1 ≤ k ∧ k < 2 ^ 32) (pLt : p < 2 ^ 64) :
    ∃ v u, format 0 (blankPartition 128) = some (.ok (), v) ∧ TreeRun v [(.insert k p kIn pLt, u)] := by
  obtain ⟨v, formatted⟩ : ∃ v, format 0 (blankPartition 128) = some (.ok (), v) :=
    format_total (by decide) (by decide)
  obtain ⟨u, insert, -⟩ : ∃ u, insertInodeRoot 1 k p v = some ((), u) ∧ _ :=
    insertInodeRoot_total p (format_treeInv formatted) (by omega) (by rw [newTree_ncard]; norm_num)
  exact ⟨v, u, formatted, TreeRun.cons insert (TreeRun.nil u)⟩

theorem inode_tree_map_law_insert : ∃ v u, format 0 (blankPartition 128) = some (.ok (), v) ∧
    TreeRun v [(.insert 3 7 (by decide) (by decide), u)] ∧
    (MapLaw v newTree ∧ Lawful newTree [(.insert 3 7 (by decide) (by decide), u)] ↔
      AllSafe newTree [(.insert 3 7 (by decide) (by decide), u)]) := by
  obtain ⟨v, u, formatted, run⟩ := exists_inserted 3 7 (by decide) (by decide)
  exact ⟨v, u, formatted, run, inode_tree_map_law formatted run⟩

/-- The insertion of inode 1 on a new volume takes the root inode its pointer. -/
theorem insert_below_root_not_lawful : ¬ ∀ (sinceEpoch : Nat) (v₀ v : Rfs2) (trace : List (TreeOp × Rfs2)),
    format sinceEpoch v₀ = some (.ok (), v) → TreeRun v trace → Lawful newTree trace := by
  intro always
  obtain ⟨v, u, formatted, run⟩ := exists_inserted 1 7 (by decide) (by decide)
  have lawful := always 0 _ v _ formatted run
  obtain ⟨safe, -⟩ := (lawful_iff_allSafe (format_treeInv formatted) run).mp lawful
  cases safe with
  | inl old => exact old rfl
  | inr room => exact absurd (room.2 2 4 (by decide) rfl) (by decide)

end MeowOs.Rfs2.BTreeNode
