import MeowOs.Machine.TableForest
import MeowOs.Rfs2.Directory.Entries
import MeowOs.Rfs2.InodeAllocationSoundness

/-! # Link counts over whole runs

A run is a sequence of successful calls of `create`, `link`, `unlink` and
`rename` on a new volume.  The link count of an inode is compared with the
entries of all directories that name it.  The root inode starts out with a link
count of 1 that stands for no entry.

`DirInv` is what the calls keep as long as they are `Regular`.  An `unlink` is
never regular: it does not write the lower link count back.  Neither is a call
that puts a fourteenth entry into a directory, which is lost.
-/

namespace MeowOs.Rfs2

open MeowOs.Machine Prog BTreeNode
open Function (update update_of_ne update_self)

/-! ## Runs -/

inductive DirOp where
  | create (name : List UInt8) (parentDir : Nat) (typeMode : UInt32) (uid gid : UInt16) (sinceEpoch : UInt64)
  | link (childInode parentInode : Nat) (name : List UInt8)
  | unlink (parentInode : Nat) (name : List UInt8)
  | rename (inode parentInode : Nat) (name : List UInt8)

def DirOp.Succeeds (fuel : Nat) (v v' : Rfs2) : DirOp → Prop
  | .create name parentDir typeMode uid gid sinceEpoch =>
    ∃ inodes, Rfs2.create fuel name parentDir typeMode uid gid sinceEpoch v = some (.ok inodes, v')
  | .link childInode parentInode name => ∃ inodes, Rfs2.link fuel childInode parentInode name v = some (.ok inodes, v')
  | .unlink parentInode name => ∃ inodes, Rfs2.unlink fuel parentInode name v = some (.ok inodes, v')
  | .rename inode parentInode name => Rfs2.rename inode parentInode name v = some (.ok (), v')

def DirStep (cond : Rfs2 → DirOp → Prop) (v v' : Rfs2) : Prop := ∃ op fuel, cond v op ∧ op.Succeeds fuel v v'

abbrev DirRun (cond : Rfs2 → DirOp → Prop) := Relation.ReflTransGen (DirStep cond)

def InodeRoot (v : Rfs2) (inode root : Nat) : Prop :=
  ∃ fuel u, findInodeRoot fuel inode v = some (some root, u)

/-- The directory entries that name `inode`: pairs of a directory and a position in it. -/
def entriesNaming (v : Rfs2) (inode : Nat) : Set (Nat × Nat) :=
  {e | ∃ root, v.InodeRoot e.1 root ∧ isDir (v.infoOf root).typeFlags = true ∧ e.2 < v.dirLength root ∧
    (v.dirEntry root e.2).inode = inode}

/-- Every link count is the number of entries that name the inode, and one more for the root inode. -/
def LinkCounts (v : Rfs2) : Prop := ∀ inode root, v.InodeRoot inode root →
  ((v.infoOf root).linkCount : ℕ∞) = (v.entriesNaming inode).encard + if inode = rootInodeIndex then 1 else 0

def HasEntryRoom (v : Rfs2) (inode : Nat) : Prop := ∃ root, v.InodeRoot (inode % 2 ^ 32) root ∧
  isDir (v.infoOf root).typeFlags = true ∧ v.dirLength root ≤ 12

/-- The calls that keep the link counts right. -/
def DirOp.Regular (v : Rfs2) : DirOp → Prop
  | .create _ parentDir _ _ _ _ => Set.ncard {q | ∃ root, v.InodeRoot q root} < 102 ∧ v.HasEntryRoom parentDir
  | .link _ parentInode _ => v.HasEntryRoom parentInode
  | .unlink _ _ => False
  | .rename _ parentInode _ => ∃ q, v.InodeRoot q parentInode

/-! ## The invariant -/

def naming (v : Rfs2) (m : Nat → Option Nat) (inode : Nat) : Set (Nat × Nat) :=
  {e | ∃ root, m e.1 = some root ∧ isDir (v.infoOf root).typeFlags = true ∧ e.2 < v.dirLength root ∧
    (v.dirEntry root e.2).inode = inode}

def InUse (m : Nat → Option Nat) (b : Nat) : Prop := b = 2 ∨ b = 3 ∨ ∃ q, m q = some b

/-- Inode tree, inode bitmap and block bitmaps agree on the inodes of `m` and on their root blocks. -/
structure TablesInv (v : Rfs2) (m : Nat → Option Nat) : Prop where
  tree : TreeInv v m
  treePtr : v.superblock.inodeTreeRootPtr = 2
  inodes : InodeInv v {q | m q ≠ none}
  maskPtr : v.superblock.inodeMaskPtr = 3
  numbers : ∃ k, 2 < k ∧ ∀ q, m q ≠ none ↔ 2 ≤ q ∧ q < k
  injective : ∀ q q' root, m q = some root → m q' = some root → q = q'
  bitmaps : ∀ g, g < v.groups → v.marked (g * groupSizeBlocks) = true
  used : ∀ b, InUse m b → v.marked b = true ∧ ¬ IsGroupBitmap b
  roots : ∀ q root, m q = some root → root ≠ 2 ∧ root ≠ 3

structure DirInv (v : Rfs2) (m : Nat → Option Nat) : Prop extends TablesInv v m where
  dirs : ∀ q root, m q = some root → InlineDir v root (v.dirLength root)
  live : ∀ q root k, m q = some root → isDir (v.infoOf root).typeFlags = true → k < v.dirLength root →
    m (v.dirEntry root k).inode ≠ none
  counts : ∀ q root, m q = some root →
    ((v.infoOf root).linkCount : ℕ∞) = (v.naming m q).encard + if q = rootInodeIndex then 1 else 0

variable {v v' : Rfs2} {m : Nat → Option Nat} {S : Set Nat} {q root : Nat}

theorem inodeRoot_iff (h : TreeInv v m) : v.InodeRoot q root ↔ m q = some root := by
  constructor
  · rintro ⟨fuel, u, find⟩
    exact (h.found find).1.symm
  · intro map
    exact ⟨1, v.tick, map ▸ h.find q⟩

theorem inodeRoots_eq (h : TreeInv v m) : {q | ∃ root, v.InodeRoot q root} = {q | m q ≠ none} := by
  ext q
  simp only [inodeRoot_iff h, Set.mem_ofPred_eq, Option.ne_none_iff_exists']

theorem DirInv.linkCounts (h : DirInv v m) : v.LinkCounts := by
  have namingAll : ∀ i, v.entriesNaming i = v.naming m i := fun i => by
    simp [entriesNaming, naming, inodeRoot_iff h.tree]
  intro inode root rootOk
  rw [namingAll]
  exact h.counts inode root ((inodeRoot_iff h.tree).mp rootOk)

theorem InodeInv.of_frame {live : Set Nat} (h : InodeInv v live) (frame : Frame S v v')
    (sNotMem : v.superblock.inodeMaskPtr ∉ S) : InodeInv v' live := by
  have same := frame.same _ sNotMem
  refine ⟨h.bitmap.of_frame frame, ?_, fun i iLt => ?_, h.range⟩
  · refine Eq.trans ?_ h.last
    rw [InodeBtmask.getPtr, InodeBtmask.getPtr, frame.superblock]
    exact Bytes.readLE_congr fun k kLt => same _ (by simp only [InodeBtmask.words]; omega)
  · rw [← h.bits i iLt, inodeBit, inodeBit, frame.superblock, Bytes.bit, Bytes.bit]
    rw [same _ (by simp only [inodesPerBitmask] at iLt; omega)]

section Steps

variable {v v' : Rfs2} {m : Nat → Option Nat} {S : Set Nat} {root childInode parentInode : Nat}
  {inodes : VfsInode × VfsInode}

theorem TablesInv.of_frame (h : TablesInv v m) (frame : Frame S v v') (sIn : 2 ∉ S ∧ 3 ∉ S)
    (marked : ∀ c, v.marked c = true → v'.marked c = true) : TablesInv v' m :=
  ⟨h.tree.of_same frame.superblock frame.size (frame.same _ (by rw [h.treePtr]; exact sIn.1)),
    by rw [frame.superblock, h.treePtr], h.inodes.of_frame frame (by rw [h.maskPtr]; exact sIn.2),
    by rw [frame.superblock, h.maskPtr], h.numbers, h.injective,
    fun g gLt => marked _ (h.bitmaps g (frame.groups_eq ▸ gLt)),
    fun b bInUse => ⟨marked b (h.used b bInUse).1, (h.used b bInUse).2⟩, h.roots⟩

theorem TablesInv.of_files (h : TablesInv v m) (frame : Frame S v v')
    (sAll : ∀ b ∈ S, ∃ q, m q = some b) : TablesInv v' m := by
  refine h.of_frame frame ⟨fun mem => ?_, fun mem => ?_⟩ fun c cEq => ?_
  · obtain ⟨q, qEq⟩ := sAll 2 mem
    exact (h.roots q 2 qEq).1 rfl
  · obtain ⟨q, qEq⟩ := sAll 3 mem
    exact (h.roots q 3 qEq).2 rfl
  · rwa [marked_of_frame frame fun b bMem => (h.used b (.inr (.inr (sAll b bMem)))).2]

/-! ### A new entry -/

section Link

variable {parent parentRoot child childRoot : Nat}
  (linking : Links v child childRoot parentRoot (v.dirLength parentRoot) v')

include linking

theorem Links.infoOf_eq (root : Nat) : v'.infoOf root = { v.infoOf root with
      size := if root = parentRoot then (v.dirLength parentRoot + 1) * dirEntrySize else (v.infoOf root).size
      linkCount := (v.infoOf root).linkCount + if root = childRoot then 1 else 0 } := by
  by_cases rootCases : root = parentRoot ∨ root = childRoot
  · exact linking.info root rootCases
  · rw [not_or] at rootCases
    rw [infoOf_of_same (linking.frame.same root (by simp [rootCases])), if_neg rootCases.1, if_neg rootCases.2]
    rfl

theorem Links.dirLength_eq (root : Nat) :
    v'.dirLength root = if root = parentRoot then v.dirLength parentRoot + 1 else v.dirLength root := by
  rw [dirLength, linking.infoOf_eq]
  by_cases rootEq : root = parentRoot
  · simp only [if_pos rootEq]
    exact Nat.mul_div_cancel _ (by norm_num [dirEntrySize])
  · simp only [if_neg rootEq]
    rfl

theorem Links.lt_dirLength_iff {root k : Nat} :
    k < v'.dirLength root ↔ k < v.dirLength root ∨ root = parentRoot ∧ k = v.dirLength root := by
  rw [linking.dirLength_eq]
  split
  · rename_i eq
    subst eq
    omega
  · rename_i ne
    rw [or_iff_left fun new => ne new.1]

theorem Links.dirEntry_eq (h : DirInv v m) {q root k : Nat} (rootEq : m q = some root) (kLt : k < v.dirLength root) :
    v'.dirEntry root k = v.dirEntry root k := by
  by_cases parent : root = parentRoot
  · subst parent
    exact linking.old k kLt
  by_cases child : root = childRoot
  · subst child
    exact linking.other parent k kLt
  · exact (h.dirs q root rootEq).dirEntry_of_same (linking.frame.same root (by simp [parent, child])) kLt

theorem DirInv.linked_naming (h : DirInv v m) (parentEq : m parent = some parentRoot)
    (dir : isDir (v.infoOf parentRoot).typeFlags = true) (i : Nat) :
    v'.naming m i = if i = child then insert (parent, v.dirLength parentRoot) (v.naming m i) else v.naming m i := by
  have mem : ∀ e, e ∈ v'.naming m i ↔ e ∈ v.naming m i ∨ i = child ∧ e = (parent, v.dirLength parentRoot) := by
    intro e
    constructor
    · rintro ⟨root, rootEq, dir', lt, inode⟩
      rw [linking.infoOf_eq] at dir'
      rcases linking.lt_dirLength_iff.mp lt with old | ⟨rfl, pos⟩
      · rw [linking.dirEntry_eq h rootEq old] at inode
        exact .inl ⟨root, rootEq, dir', old, inode⟩
      · rw [pos, linking.new] at inode
        exact .inr ⟨inode.symm, Prod.ext (h.injective _ _ root rootEq parentEq) pos⟩
    · rintro (⟨root, rootEq, dir', lt, inode⟩ | ⟨rfl, rfl⟩)
      · refine ⟨root, rootEq, by rw [linking.infoOf_eq]; exact dir', linking.lt_dirLength_iff.mpr (.inl lt), ?_⟩
        rw [linking.dirEntry_eq h rootEq lt, inode]
      · exact ⟨parentRoot, parentEq, by rw [linking.infoOf_eq]; exact dir, linking.lt_dirLength_iff.mpr (.inr ⟨rfl, rfl⟩),
          linking.new⟩
  ext e
  rw [mem]
  split
  · rename_i eq
    rw [Set.mem_insert_iff, or_comm, and_iff_right eq]
  · rename_i ne
    rw [or_iff_left fun new => ne new.1]

theorem DirInv.links (h : DirInv v m) (parentEq : m parent = some parentRoot) (childEq : m child = some childRoot)
    (dir : isDir (v.infoOf parentRoot).typeFlags = true) (room : v.dirLength parentRoot ≤ 12) : DirInv v' m := by
  have tables := h.toTablesInv.of_files linking.frame fun b bMem => by
    cases bMem with
    | inl eq => exact ⟨parent, eq ▸ parentEq⟩
    | inr eq => exact ⟨child, eq ▸ childEq⟩
  refine ⟨tables, fun q root rootEq => ?_, fun q root k rootEq isdirEq kLt => ?_, fun q root rootEq => ?_⟩
  · have old := h.dirs q root rootEq
    have size := linking.frame.size
    rw [linking.dirLength_eq]
    by_cases eq : root = parentRoot
    · subst eq
      rw [if_pos rfl]
      refine ⟨?_, fun _ => ?_, by rw [linking.infoOf_eq]; exact old.levels, ?_, Nat.succ_le_succ room⟩
      · simpa [HasHeader, size] using old.header
      · simpa [HasBlock, size] using linking.inside
      · rw [linking.infoOf_eq, if_pos rfl]
    · rw [if_neg eq]
      refine ⟨?_, ?_, by rw [linking.infoOf_eq]; exact old.levels, ?_, old.short⟩
      · simpa [HasHeader, size] using old.header
      · simpa [HasBlock, size] using old.hasRoot
      · rw [linking.infoOf_eq, if_neg eq]
        exact old.size_eq
  · rw [linking.infoOf_eq] at isdirEq
    rcases linking.lt_dirLength_iff.mp kLt with old | ⟨rfl, rfl⟩
    · rw [linking.dirEntry_eq h rootEq old]
      exact h.live q root k rootEq isdirEq old
    · rw [linking.new, childEq]
      exact Option.some_ne_none _
  rw [h.linked_naming linking parentEq dir, linking.infoOf_eq]
  have count := h.counts q root rootEq
  by_cases eq : q = child
  · have same : root = childRoot := by
      rw [eq, childEq] at rootEq
      exact (Option.some.inj rootEq).symm
    have new : (parent, v.dirLength parentRoot) ∉ v.naming m q := by
      rintro ⟨r, rEq, -, lt, -⟩
      rw [parentEq] at rEq
      cases rEq
      omega
    simp only [if_pos eq, if_pos same]
    rw [Set.encard_insert_of_notMem new, Nat.cast_add, count, Nat.cast_one, add_right_comm]
  · have ne : root ≠ childRoot := fun same => eq (h.injective q child root rootEq (same ▸ childEq))
    simp only [if_neg eq, if_neg ne, Nat.add_zero]
    exact count

end Link

theorem DirInv.tick (h : DirInv v m) : DirInv v.tick m := by
  have tables : TablesInv v.tick m := h.toTablesInv.of_files (Frame.of_tick (Frame.refl ∅ _)) fun b bMem => bMem.elim
  exact ⟨tables, fun q root rootEq => (h.dirs q root rootEq).of_info rfl rfl, h.live, h.counts⟩

variable {fuel : Nat} {name : List UInt8}

theorem getFileRootBlock_eq_some {q : Nat} {u : Rfs2} (h : TreeInv v m)
    (run : getFileRootBlock fuel q v = some (.ok root, u)) : m q = some root ∧ u = v.tick := by
  obtain ⟨r, _, find, ret⟩ := bind_eq_some.mp run
  obtain ⟨rfl, rfl⟩ := h.found find
  cases map : m q with
  | none =>
    rw [map] at ret
    cases ret
  | some block =>
    rw [map] at ret
    cases ret
    exact ⟨rfl, rfl⟩

theorem link_eq_some (h : DirInv v m) (run : link fuel childInode parentInode name v = some (.ok inodes, v')) :
    ∃ parentRoot childRoot, m (parentInode % 2 ^ 32) = some parentRoot ∧ m (childInode % 2 ^ 32) = some childRoot ∧
      linkAt (childInode % 2 ^ 32) childRoot (parentInode % 2 ^ 32) parentRoot name v.tick.tick.tick =
        some (.ok inodes, v') := by
  rw [link] at run
  split at run
  · cases run
  obtain ⟨r, _, find, run1⟩ := bind_eq_some.mp run
  obtain ⟨rfl, rfl⟩ := h.tree.found find
  cases map : m (childInode % 2 ^ 32) with
  | none =>
    rw [map] at run1
    cases run1
  | some block =>
    rw [map] at run1
    obtain ⟨res, u, parent, run2⟩ := bind_eq_some.mp run1
    cases res with
    | error e => cases run2
    | ok parentRoot =>
      obtain ⟨prootEq, rfl⟩ := getFileRootBlock_eq_some h.tick.tree parent
      obtain ⟨res, u, child, run3⟩ := bind_eq_some.mp run2
      cases res with
      | error e => cases run3
      | ok childRoot =>
        obtain ⟨crootEq, rfl⟩ := getFileRootBlock_eq_some h.tick.tick.tree child
        rw [map] at crootEq
        cases crootEq
        exact ⟨parentRoot, _, prootEq, rfl, run3⟩

theorem DirInv.link (h : DirInv v m) (room : v.HasEntryRoom parentInode)
    (run : Rfs2.link fuel childInode parentInode name v = some (.ok inodes, v')) : DirInv v' m := by
  obtain ⟨parentRoot, childRoot, parent, child, there⟩ := link_eq_some h run
  obtain ⟨root, rootOk, dir, length⟩ := room
  rw [inodeRoot_iff h.tree, parent] at rootOk
  cases rootOk
  have inv := h.tick.tick.tick
  have range : childInode % 2 ^ 32 < 256 ^ 4 := Nat.mod_lt _ (by norm_num)
  exact inv.links (linkAt_links (inv.dirs _ _ parent) length (inv.dirs _ _ child) range there) parent child dir
    length

theorem DirInv.extend {m' : Nat → Option Nat} (h : DirInv v m) (tables : TablesInv v' m')
    (size : v'.partition.sizeSectors = v.partition.sizeSectors)
    (old : ∀ q root, m q = some root → m' q = some root ∧ v'.infoOf root = v.infoOf root ∧
      ∀ k < v.dirLength root, (v'.dirEntry root k).inode = (v.dirEntry root k).inode)
    (new : ∀ q root, m' q = some root → m q = some root ∨ (m q = none ∧ q ≠ rootInodeIndex ∧ v'.HasHeader root ∧
      (v'.infoOf root).size = 0 ∧ (v'.infoOf root).levels = 0 ∧ (v'.infoOf root).linkCount = 0)) : DirInv v' m' := by
  have length : ∀ q root, m q = some root → v'.dirLength root = v.dirLength root := fun q root qEq => by
    rw [dirLength, (old q root qEq).2.1, dirLength]
  have zero : ∀ root, (v'.infoOf root).size = 0 → v'.dirLength root = 0 := fun root empty => by
    rw [dirLength, empty, Nat.zero_div]
  have naming : ∀ i, v'.naming m' i = v.naming m i := by
    intro i
    ext e
    constructor
    · rintro ⟨root, rootEq, dir, lt, inode⟩
      rcases new _ _ rootEq with rootEq | ⟨-, -, -, empty, -⟩
      · obtain ⟨-, info, entry⟩ := old _ _ rootEq
        rw [length _ _ rootEq] at lt
        exact ⟨root, rootEq, info ▸ dir, lt, entry _ lt ▸ inode⟩
      · rw [zero root empty] at lt
        omega
    · rintro ⟨root, rootEq, dir, lt, inode⟩
      obtain ⟨map, info, entry⟩ := old _ _ rootEq
      exact ⟨root, map, by rwa [info], by rwa [length _ _ rootEq], by rwa [entry _ lt]⟩
  refine ⟨tables, fun q root qEq => ?_, fun q root j qEq dir jLt => ?_, fun q root qEq => ?_⟩
  · rcases new q root qEq with qEq | ⟨-, -, header, empty, levels, -⟩
    · rw [length q root qEq]
      exact (h.dirs q root qEq).of_info size (old q root qEq).2.1
    · rw [zero root empty]
      exact ⟨header, fun lt => absurd lt (Nat.lt_irrefl 0), levels, by rw [empty, Nat.zero_mul], Nat.zero_le _⟩
  · rcases new q root qEq with qEq | ⟨-, -, -, empty, -⟩
    · obtain ⟨-, info, entry⟩ := old q root qEq
      rw [length q root qEq] at jLt
      rw [info] at dir
      obtain ⟨c, cEq⟩ := Option.ne_none_iff_exists'.mp (h.live q root j qEq dir jLt)
      rw [entry j jLt, (old _ c cEq).1]
      exact Option.some_ne_none c
    · rw [zero root empty] at jLt
      omega
  · rw [naming]
    rcases new q root qEq with qEq | ⟨isNone, rootEq, -, -, -, linking⟩
    · rw [(old q root qEq).2.1]
      exact h.counts q root qEq
    -- nothing names an inode that did not exist
    have nobody : v.naming m q = ∅ := by
      rw [Set.eq_empty_iff_forall_notMem]
      rintro e ⟨r, rEq, dir, lt, rfl⟩
      exact h.live _ r _ rEq dir lt isNone
    rw [nobody, linking, if_neg rootEq, Set.encard_empty]
    rfl

theorem DirInv.rename {inode q : Nat} (h : DirInv v m) (rootEq : m q = some root)
    (run : Rfs2.rename inode root name v = some (.ok (), v')) : DirInv v' m := by
  have spec := rename_renames (h.dirs q root rootEq) run
  have tables := h.toTablesInv.of_files spec.frame fun b bMem => ⟨q, bMem ▸ rootEq⟩
  refine h.extend tables spec.frame.size (fun p r rEq => ⟨rEq, ?_⟩) fun _ _ rEq => .inl rEq
  by_cases eq : r = root
  · subst eq
    exact ⟨spec.info, spec.entry⟩
  · have same := spec.frame.same r eq
    exact ⟨infoOf_of_same same, fun k kLt => by rw [(h.dirs p r rEq).dirEntry_of_same same kLt]⟩

/-! ### A new inode -/

section Create

variable {b k : Nat}

variable {i fuel parentDir : Nat} {typeMode : UInt32} {uid gid : UInt16} {sinceEpoch : UInt64} {u : Rfs2}
  {inodes : VfsInode × VfsInode}

theorem TablesInv.next_number (h : TablesInv v m) (two : 2 < k)
    (kAll : ∀ q, m q ≠ none ↔ 2 ≤ q ∧ q < k) (few : Set.ncard {q | m q ≠ none} < 102)
    (run : allocateInode fuel v = some (i, u)) : i = k ∧ TakesLowest v k u := by
  have isSet : {q | m q ≠ none} = Set.Ico 2 k := Set.ext kAll
  have card : k < 104 := by
    rw [isSet, ← Finset.coe_Ico, Set.ncard_coe_finset, Nat.card_Ico] at few
    omega
  have limit : k < inodesPerBitmask := Nat.lt_trans card (by norm_num [inodesPerBitmask])
  have clear : v.inodeBit k = false := h.inodes.clear limit (fun live => by
    have lt := ((kAll k).mp live).2
    exact Nat.lt_irrefl k lt) two.le
  have tTakesLowest := h.inodes.allocated ⟨k, limit, clear⟩ run
  obtain ⟨absent, ge⟩ := h.inodes.not_live tTakesLowest.lt tTakesLowest.clear
  have same : i = k := (tTakesLowest.le clear).antisymm (Nat.le_of_not_lt fun lt => absent ((kAll i).mpr ⟨ge, lt⟩))
  exact ⟨same, same ▸ tTakesLowest⟩

theorem TablesInv.free_fresh (h : TablesInv v m) (free : v.IsFree b) : ¬ InUse m b ∧ ¬ IsGroupBitmap b := by
  refine ⟨fun use => ?_, fun bitmap => ?_⟩
  · exact free.not_marked (h.used b use).1
  · have bEq : b / groupSizeBlocks * groupSizeBlocks = b := Nat.div_mul_cancel (Nat.dvd_of_mod_eq_zero bitmap)
    exact free.not_marked (bEq ▸ h.bitmaps _ free.1)

theorem bitmapOf_isGroupBitmap (b : Nat) : IsGroupBitmap (bitmapOf b) := Nat.mul_mod_left _ _

theorem TablesInv.allocates (h : TablesInv v m) (aAllocates : Allocates v b v') : TablesInv v' m := by
  have ne : ∀ c, InUse m c → c ∉ ({bitmapOf b} : Set Nat) := fun c cInUse mem => by
    have absent := (h.used c cInUse).2
    rw [mem] at absent
    exact absent (bitmapOf_isGroupBitmap b)
  refine h.of_frame aAllocates.frame ⟨ne 2 (.inl rfl), ne 3 (.inr (.inl rfl))⟩ fun c cInUse => ?_
  rw [aAllocates.marked]
  split
  · rfl
  · exact cInUse

theorem TablesInv.newInode (h : TablesInv v m) (two : 2 < k)
    (kAll : ∀ q, m q ≠ none ↔ 2 ≤ q ∧ q < k) (bEq : v.marked b = true) (absent : ¬ InUse m b)
    (bitmap : ¬ IsGroupBitmap b) (range : b < 2 ^ 64) (few : Set.ncard {q | m q ≠ none} < 102)
    (alloc : allocateInode fuel v = some (i, u)) (inserted : insertInodeRoot fuel i b u = some ((), v')) :
    i = k ∧ Frame {2, 3} v v' ∧ TablesInv v' (update m k (some b)) := by
  obtain ⟨rfl, tTakesLowest⟩ := h.next_number two kAll few alloc
  have frame : Frame {3} v u := by
    have fFrame := tTakesLowest.frame
    rwa [h.maskPtr] at fFrame
  have tree : TreeInv u m := h.tree.of_same frame.superblock frame.size
    (frame.same _ (by rw [h.treePtr]; decide))
  have super : u.superblock.inodeTreeRootPtr = 2 := by rw [frame.superblock, h.treePtr]
  have frame' : Frame {2} u v' := by
    cases fuel with
    | zero =>
      rw [allocateInode_zero h.inodes.bitmap] at alloc
      cases alloc
    | succ fuel =>
      obtain ⟨w, wEq, fFrame⟩ : ∃ w, insertInodeRoot (fuel + 1) i b u = some ((), w) ∧ _ :=
        insertInodeRoot_total b tree (by omega) few
      rw [wEq] at inserted
      cases inserted
      rwa [super] at fFrame
  have isInserted : TreeInv v' (update m i (some b)) := by
    have limit : i < 2 ^ 32 := Nat.lt_trans tTakesLowest.lt (by norm_num [inodesPerBitmask])
    have one : 1 ≤ i := by omega
    have step : (TreeOp.insert i b ⟨one, limit⟩ range).Safe m → _ :=
      (insert_step tree inserted).1
    refine step (.inr ⟨few, ?_⟩)
    intro q p qLt mEq
    have live := ((kAll q).mp (by rw [mEq]; exact Option.some_ne_none p)).2
    omega
  have both : Frame {2, 3} v v' := (frame.mono (by simp)).trans (frame'.mono (by simp))
  have keep : ∀ c, v'.marked c = v.marked c := marked_of_frame both fun c cMem => by
    cases cMem with
    | inl eq => exact eq ▸ (h.used 2 (.inl rfl)).2
    | inr eq => exact eq ▸ (h.used 3 (.inr (.inl rfl))).2
  have live : {q | update m i (some b) q ≠ none} = insert i {q | m q ≠ none} := by
    ext q
    by_cases same : q = i
    · simp [same]
    · simp [same]
  refine ⟨rfl, both, isInserted, by rw [both.superblock, h.treePtr], ?_, by rw [both.superblock, h.maskPtr],
    ⟨i + 1, by omega, fun q => ?_⟩, ?_, fun g gLt => ?_, fun c cMem => ?_, fun q root qLt => ?_⟩
  · rw [live]
    exact (h.inodes.takesLowest tTakesLowest).of_frame frame' (by rw [frame.superblock, h.maskPtr]; decide)
  · have qLt := Set.ext_iff.mp live q
    rw [Set.mem_ofPred_eq, Set.mem_insert_iff, Set.mem_ofPred_eq, kAll q] at qLt
    rw [qLt]
    omega
  · intro q q' root qLt qEq'
    have other : ∀ p, m p ≠ some b := fun p pEq => absent (.inr (.inr ⟨p, pEq⟩))
    rcases update_eq_some.mp qLt with ⟨rfl, rfl⟩ | ⟨-, old⟩
    · rcases update_eq_some.mp qEq' with ⟨rfl, -⟩ | ⟨-, old'⟩
      · rfl
      · exact absurd old' (other q')
    · rcases update_eq_some.mp qEq' with ⟨-, rfl⟩ | ⟨-, old'⟩
      · exact absurd old (other q)
      · exact h.injective q q' root old old'
  · rw [keep]
    exact h.bitmaps g (both.groups_eq ▸ gLt)
  · rw [keep]
    by_cases cIsB : c = b
    · rw [cIsB]
      exact ⟨bEq, bitmap⟩
    refine h.used c (cMem.imp_right fun cCases' => cCases'.imp_right fun exist => ?_)
    obtain ⟨q, qLt⟩ := exist
    rcases update_eq_some.mp qLt with ⟨-, eq⟩ | ⟨-, old⟩
    · exact absurd eq.symm cIsB
    · exact ⟨q, old⟩
  · rcases update_eq_some.mp qLt with ⟨-, rfl⟩ | ⟨-, old⟩
    · exact ⟨fun two => absent (.inl two), fun three => absent (.inr (.inl three))⟩
    · exact h.roots q root old

theorem newInodeInfo_fits (typeMode : UInt32) (uid gid : UInt16) (sinceEpoch : UInt64) :
    (newInodeInfo typeMode uid gid sinceEpoch).Fits :=
  ⟨by norm_num [newInodeInfo], by norm_num [newInodeInfo], typeMode.toNat_lt, uid.toNat_lt, gid.toNat_lt,
    by norm_num [newInodeInfo], sinceEpoch.toNat_lt, sinceEpoch.toNat_lt, sinceEpoch.toNat_lt⟩

theorem create_eq_some (run : create fuel name parentDir typeMode uid gid sinceEpoch v = some (.ok inodes, v')) :
    ∃ b i u1 u2 u3 u4, allocateBlock v = some (b, u1) ∧ allocateInode fuel u1 = some (i, u2) ∧
      insertInodeRoot fuel i b u2 = some ((), u3) ∧
      setFileInfo b (newInodeInfo typeMode uid gid sinceEpoch) u3 = some ((), u4) ∧
      link fuel i parentDir name u4 = some (.ok inodes, v') := by
  obtain ⟨b, u1, block, i, u2, inode, run2⟩ := bind₂_eq_some.mp run
  obtain ⟨⟨⟩, u3, insert, ⟨⟩, u4, info, run4⟩ := bind₂_eq_some.mp run2
  obtain ⟨res, w, linked, run5⟩ := bind_eq_some.mp run4
  cases res with
  | error e =>
    obtain ⟨⟨⟩, _, -, ⟨⟩, _, -, run7⟩ := bind₂_eq_some.mp run5
    cases run7
  | ok r =>
    cases run5
    exact ⟨b, i, u1, u2, u3, u4, block, inode, insert, info, linked⟩

theorem DirInv.newInode {u1 u2 u3 u4 : Rfs2} (h : DirInv v m) (few : Set.ncard {q | m q ≠ none} < 102)
    (block : allocateBlock v = some (b, u1)) (inode : allocateInode fuel u1 = some (i, u2))
    (insert : insertInodeRoot fuel i b u2 = some ((), u3))
    (isSet : setFileInfo b (newInodeInfo typeMode uid gid sinceEpoch) u3 = some ((), u4)) :
    m i = none ∧ DirInv u4 (update m i (some b)) ∧
      u4.infoOf b = newInodeInfo typeMode uid gid sinceEpoch ∧ u4.partition.sizeSectors = v.partition.sizeSectors ∧
      ∀ q c, m q = some c → Bytes.SameBlock v.disk u4.disk c ∧ c ≠ b := by
  have alloc := allocateBlock_spec block
  obtain ⟨absent, bitmap⟩ := h.free_fresh alloc.free
  obtain ⟨k, two, kAll⟩ := h.numbers
  have mark : u1.marked b = true := by rw [alloc.marked, if_pos rfl]
  obtain ⟨rfl, frame, tables⟩ := (h.toTablesInv.allocates alloc).newInode two kAll mark absent bitmap
    alloc.free.lt few inode insert
  have header := hasHeader_of_setFileInfo isSet
  rw [setFileInfo_header header] at isSet
  have uEq4 : u3.tick.patch (b * 4096) 512 ((newInodeInfo typeMode uid gid sinceEpoch).store (u3.frames 0)) = u4 := by
    cases isSet
    rfl
  have isNone : m i = none := by
    by_contra live
    exact Nat.lt_irrefl i ((kAll i).mp live).2
  have info : u4.infoOf b = newInodeInfo typeMode uid gid sinceEpoch := by
    rw [← uEq4]
    exact infoOf_patch_header (newInodeInfo_fits typeMode uid gid sinceEpoch)
  have last : Frame {b} u3 u4 := by
    rw [← uEq4]
    exact Frame.of_tick (patch_header_frame)
  have size : u4.partition.sizeSectors = v.partition.sizeSectors :=
    (last.size.trans frame.size).trans alloc.frame.size
  have keep : ∀ q c, m q = some c → Bytes.SameBlock v.disk u4.disk c ∧ c ≠ b := by
    intro q c qEq
    have use : InUse m c := .inr (.inr ⟨q, qEq⟩)
    have roots := h.roots q c qEq
    have same : c ≠ b := fun same => absent (same ▸ use)
    refine ⟨((alloc.frame.same c fun mem => ?_).trans (frame.same c ?_)).trans (last.same c same), same⟩
    · exact (h.used c use).2 (mem ▸ bitmapOf_isGroupBitmap b)
    · simp [roots.1, roots.2]
  refine ⟨isNone, h.extend (tables.of_files last fun c cMem => ?_) size (fun q c qEq => ?_) fun q c qEq => ?_, info, size,
    keep⟩
  · exact ⟨i, by rw [update_self, cMem]⟩
  · have sameOk := (keep q c qEq).1
    refine ⟨?_, infoOf_of_same sameOk, fun k kAll => by rw [(h.dirs q c qEq).dirEntry_of_same sameOk kAll]⟩
    rw [update_of_ne, qEq]
    rintro rfl
    cases isNone.symm.trans qEq
  · rcases update_eq_some.mp qEq with ⟨rfl, rfl⟩ | ⟨-, qEq⟩
    · refine .inr ⟨isNone, Nat.ne_of_gt two, by simpa [HasHeader, last.size] using header, ?_⟩
      rw [info]
      exact ⟨rfl, rfl, rfl⟩
    · exact .inl qEq

theorem DirInv.create (h : DirInv v m)
    (few : Set.ncard {q | ∃ root, v.InodeRoot q root} < 102) (room : v.HasEntryRoom parentDir)
    (run : Rfs2.create fuel name parentDir typeMode uid gid sinceEpoch v = some (.ok inodes, v')) :
    ∃ m', DirInv v' m' := by
  obtain ⟨b, i, u1, u2, u3, u4, block, inode, insert, isSet, link⟩ := create_eq_some run
  rw [inodeRoots_eq h.tree] at few
  obtain ⟨isNone, inv, -, -, keep⟩ := h.newInode few block inode insert isSet
  have room' : u4.HasEntryRoom parentDir := by
    obtain ⟨root, rootOk, dir, length⟩ := room
    rw [inodeRoot_iff h.tree] at rootOk
    have same := infoOf_of_same (keep _ root rootOk).1
    refine ⟨root, ?_, by rw [same]; exact dir, by rw [dirLength, same]; exact length⟩
    rw [inodeRoot_iff inv.tree, update_of_ne, rootOk]
    intro eq
    rw [eq, isNone] at rootOk
    cases rootOk
  exact ⟨_, inv.link room' link⟩

end Create

theorem dirStep_inv (h : DirInv v m) (step : DirStep DirOp.Regular v v') : ∃ m', DirInv v' m' := by
  obtain ⟨op, fuel, regular, run⟩ := step
  cases op with
  | create name parentDir typeMode uid gid sinceEpoch =>
    obtain ⟨inodes, run⟩ := run
    exact h.create regular.1 regular.2 run
  | link childInode parentInode name =>
    obtain ⟨inodes, run⟩ := run
    exact ⟨m, h.link regular run⟩
  | unlink parentInode name => exact regular.elim
  | rename inode parentInode name =>
    obtain ⟨q, qInodeRoot⟩ := regular
    exact ⟨m, h.rename ((inodeRoot_iff h.tree).mp qInodeRoot) run⟩

end Steps

theorem dirRun_inv (h : DirInv v m) (run : DirRun DirOp.Regular v v') : ∃ m', DirInv v' m' := by
  induction run with
  | refl => exact ⟨m, h⟩
  | tail _ step ih =>
    obtain ⟨m', inv⟩ := ih
    exact dirStep_inv inv step

/-! ## New volumes -/

section Format

variable {sinceEpoch : Nat} {v v' : Rfs2}

theorem groupBitmap_first (wholeBlocks g : Nat) : (groupBitmap wholeBlocks g).bit 0 = true := by
  rw [groupBitmap]
  split
  · rw [bit_wholeBitmap]
    rfl
  rw [Bytes.bit, markInvalid_apply _ (by norm_num)]
  split
  · rename_i cut
    have lt : (groupSizeBlocks - wholeBlocks % groupSizeBlocks) % 8 < 8 := Nat.mod_lt _ (by norm_num)
    obtain ⟨pos, -⟩ := cut
    generalize (groupSizeBlocks - wholeBlocks % groupSizeBlocks) % 8 = rem at lt pos
    interval_cases rem <;> decide
  · split
    · decide
    · decide

theorem formatted_bitmaps (h : Formatted sinceEpoch v v') {g : Nat} (gLt : g < v'.groups) :
    v'.marked (g * groupSizeBlocks) = true := by
  have group : groupSizeBlocks = 32768 := rfl
  by_cases first : g = 0
  · rw [first, Nat.zero_mul, formatted_marked_first h (by norm_num [group])]
    rfl
  have div : g * groupSizeBlocks / groupSizeBlocks = g := Nat.mul_div_cancel g (by norm_num [group])
  have mod : g * groupSizeBlocks % groupSizeBlocks = 0 := Nat.mul_mod_left g groupSizeBlocks
  have blocksLt : g * groupSizeBlocks < v.wholeBlocks := by
    have size := h.inside.size
    simp only [groups, blocks, blockSizeSectors, groupSizeBlocks] at gLt
    simp only [wholeBlocks, blockSizeSectors, groupSizeBlocks]
    omega
  rw [formatted_marked_later h (by rw [group]; omega) (by rw [bitmapOf, div]; exact blocksLt), mod,
    groupBitmap_first, Bool.or_true]

theorem formatted_rootInfo (h : Formatted sinceEpoch v v') : (v'.infoOf 4).size = 0 ∧ (v'.infoOf 4).levels = 0 ∧
    (v'.infoOf 4).linkCount = 1 ∧ (v'.infoOf 4).typeFlags = newDir 0o755 := by
  have load : v'.infoOf 4 = InodeInfo.load ((rootInodeInfo sinceEpoch).store firstInodeBitmap) :=
    InodeInfo.load_congr fun a aLt => h.rootInode a (by omega)
  rw [load]
  simp only [InodeInfo.load, InodeInfo.store, Bytes.readLE_writeLE, Bytes.readLE_writeLE_disjoint, Nat.reduceAdd,
    Nat.reduceLeDiff, true_or, rootInodeInfo]
  decide

theorem newTree_eq_some (h : newTree q = some root) : q = rootInodeIndex ∧ root = 4 := by
  by_cases qEq : q = rootInodeIndex
  · subst qEq
    exact ⟨rfl, (Option.some.inj h).symm⟩
  · rw [newTree, update_of_ne qEq] at h
    cases h

theorem formatted_dirInv (h : format sinceEpoch v = some (.ok (), v')) : DirInv v' newTree := by
  have size := format_ok_size h
  have cFormatted := format_contents h
  obtain ⟨empty, levels, linking, -⟩ := formatted_rootInfo cFormatted
  have zero : v'.dirLength 4 = 0 := by rw [dirLength, empty, Nat.zero_div]
  have live : {q | newTree q ≠ none} = {rootInodeIndex} := by
    ext q
    by_cases qEq : q = rootInodeIndex
    · simp [newTree, qEq]
    · simp [newTree, qEq]
  refine ⟨⟨format_treeInv h, by rw [cFormatted.superblock]; rfl, ?_, by rw [cFormatted.superblock]; rfl,
    ⟨3, by norm_num, fun q => ?_⟩, ?_, fun g gLt => formatted_bitmaps cFormatted gLt, fun b bInUse => ?_, fun q root qEq => ?_⟩,
    fun q root qEq => ?_, fun q root k qEq _ kLt => ?_, fun q root qEq => ?_⟩
  · rw [live]
    exact formatted_inodeInv h
  · have qEq := Set.ext_iff.mp live q
    rw [Set.mem_ofPred_eq, Set.mem_singleton_iff, rootInodeIndex] at qEq
    rw [qEq]
    omega
  · intro q q' root qEq qEq'
    rw [(newTree_eq_some qEq).1, (newTree_eq_some qEq').1]
  · have low : b = 2 ∨ b = 3 ∨ b = 4 := bInUse.imp_right fun bCases' => bCases'.imp_right fun exist => by
      obtain ⟨q, qEq⟩ := exist
      exact (newTree_eq_some qEq).2
    refine ⟨?_, ?_⟩
    · rw [formatted_marked_first cFormatted (by simp only [groupSizeBlocks]; omega), if_pos (by omega)]
      exact decide_eq_true (by omega)
    · simp only [IsGroupBitmap, groupSizeBlocks]
      omega
  · rw [(newTree_eq_some qEq).2]
    decide
  · rw [(newTree_eq_some qEq).2, zero]
    refine ⟨?_, fun lt => absurd lt (Nat.lt_irrefl 0), levels, by rw [empty, Nat.zero_mul], Nat.zero_le _⟩
    simp only [wholeBlocks, blockSizeSectors] at size
    simp only [HasHeader, blockSizeSectors, cFormatted.inside.size]
    omega
  · rw [(newTree_eq_some qEq).2, zero] at kLt
    omega
  obtain ⟨rfl, rfl⟩ := newTree_eq_some qEq
  have nobody : v'.naming newTree rootInodeIndex = ∅ := by
    rw [Set.eq_empty_iff_forall_notMem]
    rintro e ⟨r, rEq, -, lt, -⟩
    rw [(newTree_eq_some rEq).2, zero] at lt
    omega
  rw [nobody, linking, if_pos rfl, Set.encard_empty]
  rfl

end Format

end MeowOs.Rfs2
