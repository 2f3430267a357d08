import MeowOs.Rfs2.BlockAllocationSoundness
import MeowOs.Rfs2.BTree.Node
import MeowOs.Rfs2.Inode

/-! # Formatting (`rfs2/operations/format.rs`)

`format` clears the partition, lays down one bitmap for each group, a superblock
copy in every 64th group, and in blocks 2, 3 and 4 the inode tree, the inode
bitmap and the root directory.  `format_contents` says what a call that returns
has written, `format_total` when a call returns.

Two things go wrong on some sizes.  The bits of a last byte that is only partly
in range are set from its low end, where the valid blocks are.  And the bitmap
of group 0 is written last from the buffer that holds the bitmap of the last
superblock group, which is a different one if that group is cut short.
-/

namespace MeowOs.Rfs2

open MeowOs.Machine Prog
open WorkingBlock (getAsMut)
open Bytes (bit blit_front setBlock_other setBlock_same setBlock_sameBlock zero)
open Function (update update_of_ne update_self)

/-! ## The operation -/

/-- The bits of the blocks behind the partition, in the bitmap of a group cut short. -/
def markInvalid (lastGroupBlocks : Nat) (arr : Bytes) : Bytes :=
  let invalidBlocks := groupSizeBlocks - lastGroupBlocks
  let wholeBytes := invalidBlocks / 8
  let remainingBits := invalidBlocks % 8
  let arr := loopUp (fun i arr => update arr (4096 - 1 - i) 0xFF) 0 wholeBytes arr
  if remainingBits > 0 then
    update arr (4096 - 1 - wholeBytes) (UInt8.ofNat ((1 <<< remainingBits) - 1))
  else arr

def markFirstTwo (arr : Bytes) : Bytes := update arr 0 (arr 0 ||| 3)

/-- `for i in (0..(whole_groups + 1)).step_by(64)`, from `i` on with `n` rounds left. -/
def formatSuperblocks (wholeBlocks : Nat) (superblockBlock : WorkingBlock) (workingBlock : WorkingBlock)
    (i : Nat) : Nat → Prog Rfs2 WorkingBlock
  | 0 => pure workingBlock
  | n + 1 =>
    let block := i * groupSizeBlocks
    if block ≥ wholeBlocks then pure workingBlock
    else do
      let data ← partitionRead (block * blockSizeSectors) blockSizeSectors workingBlock.data
      let workingBlock := { workingBlock with data }.getAsMut markFirstTwo
      partitionWrite (block * blockSizeSectors) blockSizeSectors workingBlock.data
      partitionWrite ((block + 1) * blockSizeSectors) blockSizeSectors superblockBlock.data
      formatSuperblocks wholeBlocks superblockBlock workingBlock (i + 64) n

def formattedSuperblock (wholeBlocks : Nat) : SuperBlock :=
  { inodeMaskPtr := 3, inodeTreeRootPtr := 2, fsSize := wholeBlocks, rootInodeIndex := rootInodeIndex,
    checksum := 0 : SuperBlock }.calculateChecksum

def rootInodeInfo (sinceEpoch : Nat) : InodeInfo where
  size := 0
  levels := 0
  typeFlags := newDir 0o755
  ownerUid := 0
  ownerGid := 0
  linkCount := 1
  creationSecondsSinceEpoch := sinceEpoch
  modificationSecondsSinceEpoch := sinceEpoch
  statChangeSecondsSinceEpoch := sinceEpoch

/-- The free block tables: cleared blocks, and a bitmap in front of every group. -/
def formatTables (wholeBlocks : Nat) (workingBlock : WorkingBlock) : Prog Rfs2 WorkingBlock := do
  let wholeGroups := wholeBlocks / groupSizeBlocks
  let lastGroupBlocks := wholeBlocks % groupSizeBlocks
  let workingBlock := workingBlock.getAsMut fun arr => arr.blit 0 4096 zero
  Prog.forUp (fun i => partitionWrite (i * blockSizeSectors) blockSizeSectors workingBlock.data) 0 wholeBlocks
  let workingBlock := workingBlock.getAsMut fun arr => update arr 0 1
  Prog.forUp (fun i => partitionWrite (i * groupSizeBlocks * blockSizeSectors) blockSizeSectors
    workingBlock.data) 0 wholeGroups
  if lastGroupBlocks > 0 then
    let workingBlock := workingBlock.getAsMut (markInvalid lastGroupBlocks)
    partitionWrite (wholeGroups * groupSizeBlocks * blockSizeSectors) blockSizeSectors workingBlock.data
    return workingBlock
  return workingBlock

/-- The first five blocks, written from the buffer the superblock loop left behind. -/
def formatFirstBlocks (sinceEpoch : Nat) (workingBlock : WorkingBlock) : Prog Rfs2 Unit := do
  let workingBlock := workingBlock.getAsMut fun arr => update arr 0 0b11111
  partitionWrite (0 * blockSizeSectors) blockSizeSectors workingBlock.data
  let workingBlock := workingBlock.getAsMut fun arr =>
    ((BTreeNode.load arr).initializeRoot rootInodeIndex 4).store arr
  partitionWrite (2 * blockSizeSectors) blockSizeSectors workingBlock.data
  let workingBlock := workingBlock.getAsMut fun arr => arr.blit 0 4096 zero
  let workingBlock := workingBlock.getAsMut fun arr =>
    update arr 0 (UInt8.ofNat ((2 <<< rootInodeIndex) - 1))
  partitionWrite (3 * blockSizeSectors) blockSizeSectors workingBlock.data
  let workingBlock := workingBlock.getAsMut (rootInodeInfo sinceEpoch).store
  partitionWrite (4 * blockSizeSectors) blockSizeSectors workingBlock.data
  workingBlock.forgetMemBinding

def format (sinceEpoch : Nat) : Prog Rfs2 (Except KernelErrorCode Unit) := do
  let v ← Prog.get
  let wholeBlocks := v.partition.sizeSectors / blockSizeSectors
  if wholeBlocks < 5 then
    return .error .insufficientResources
  let workingBlock ← WorkingBlock.new
  let workingBlock ← formatTables wholeBlocks workingBlock
  let superblockBlock ← WorkingBlock.new
  let superblock := formattedSuperblock wholeBlocks
  Prog.modify fun v => { v with superblock }
  let superblockBlock := superblockBlock.getAsMut superblock.store
  let workingBlock ← formatSuperblocks wholeBlocks superblockBlock workingBlock 0
    ((wholeBlocks / groupSizeBlocks + 1 + 63) / 64)
  superblockBlock.forgetMemBinding
  formatFirstBlocks sinceEpoch workingBlock
  return .ok ()

/-! ## Single bytes of a bitmap -/

theorem bit_update (d : Bytes) (k : Nat) (x : UInt8) (i : Nat) :
    bit (update d k x) i = if i / 8 = k then x.toNat.testBit (i % 8) else d.bit i := by
  by_cases h : i / 8 = k
  · subst h
    simp [bit]
  · simp [bit, h]

def wholeBitmap : Bytes := update zero 0 1

theorem bit_wholeBitmap (i : Nat) : wholeBitmap.bit i = decide (i = 0) := by
  rw [wholeBitmap, bit_update]
  split
  · have mod : i % 8 = i := by omega
    have one : (1 : UInt8).toNat = 2 ^ 0 := rfl
    rw [mod, one, Nat.testBit_two_pow]
    simp [eq_comm]
  · have ne : i ≠ 0 := by omega
    simp [bit, ne]

theorem bit_markFirstTwo (d : Bytes) (i : Nat) : (markFirstTwo d).bit i = (decide (i < 2) || d.bit i) := by
  have three : ∀ j, (3 : UInt8).toNat.testBit j = decide (j < 2) := fun j =>
    Nat.testBit_two_pow_sub_one 2 j
  rw [markFirstTwo, bit_update]
  split
  · have mod : i % 8 = i := by omega
    have bitEq : d.bit i = (d 0).toNat.testBit i := by simp only [bit, *]
    rw [UInt8.toNat_or, Nat.testBit_or, three, mod, bitEq, Bool.or_comm]
  · have lt : ¬ i < 2 := by omega
    simp [lt]

variable {a r i n sinceEpoch : Nat} {v v' : Rfs2} {w : WorkingBlock} {sb w' : WorkingBlock} {arr : Bytes}

theorem markInvalid_loop (arr : Bytes) {wholeBytes : Nat} (le : wholeBytes ≤ 4096) (aLt : a < 4096) :
    loopUp (fun i arr => update arr (4096 - 1 - i) 0xFF) 0 wholeBytes arr a =
      if 4096 - wholeBytes ≤ a then 0xFF else arr a := by
  have h : ∀ a < 4096, loopUp (fun i (arr : Bytes) => update arr (4096 - 1 - i) 0xFF) 0
      wholeBytes arr a = if 4096 - (0 + wholeBytes) ≤ a then 0xFF else arr a := by
    refine loopUp_ind (fun k (x : Bytes) => ∀ a < 4096, x a = if 4096 - k ≤ a then 0xFF else arr a) ?_ ?_
    · intro k x _ kLt ih a aLt
      by_cases same : a = 4096 - 1 - k
      · have inside : 4096 - (k + 1) ≤ a := by omega
        rw [if_pos inside, same, update_self]
      · have equiv : 4096 - (k + 1) ≤ a ↔ 4096 - k ≤ a := by omega
        simp only [update_of_ne same, ih a aLt, equiv]
    · intro a aLt
      rw [if_neg (by omega)]
  simpa using h a aLt

theorem markInvalid_apply (arr : Bytes) (aLt : a < 4096) : markInvalid r arr a =
      if (groupSizeBlocks - r) % 8 > 0 ∧ a = 4096 - 1 - (groupSizeBlocks - r) / 8 then
        UInt8.ofNat ((1 <<< ((groupSizeBlocks - r) % 8)) - 1)
      else if 4096 - (groupSizeBlocks - r) / 8 ≤ a then 0xFF else arr a := by
  have le : (groupSizeBlocks - r) / 8 ≤ 4096 := by
    simp only [groupSizeBlocks]
    omega
  simp only [markInvalid]
  split
  · rename_i rem
    by_cases last : a = 4096 - 1 - (groupSizeBlocks - r) / 8
    · rw [if_pos ⟨rem, last⟩, last, update_self]
    · rw [if_neg (fun h => last h.2), update_of_ne last, markInvalid_loop arr le aLt]
  · rename_i rem
    rw [if_neg (fun h => rem h.1), markInvalid_loop arr le aLt]

theorem bit_markInvalid (arr : Bytes) (rLt : r < groupSizeBlocks) (aligned : r % 8 = 0)
    (iLt : i < groupSizeBlocks) : (markInvalid r arr).bit i = (decide (r ≤ i) || arr.bit i) := by
  have group : groupSizeBlocks = 32768 := rfl
  have ffAll : ∀ j < 8, (0xFF : UInt8).toNat.testBit j = true := fun j jLt => by
    rw [show (0xFF : UInt8).toNat = 2 ^ 8 - 1 from rfl, Nat.testBit_two_pow_sub_one]
    exact decide_eq_true jLt
  have isNone : ¬ ((groupSizeBlocks - r) % 8 > 0 ∧ i / 8 = 4096 - 1 - (groupSizeBlocks - r) / 8) := by
    omega
  have byte : 4096 - (groupSizeBlocks - r) / 8 ≤ i / 8 ↔ r ≤ i := by omega
  rw [bit, markInvalid_apply arr (by omega), if_neg isNone]
  by_cases inside : r ≤ i
  · rw [if_pos (byte.mpr inside), ffAll _ (Nat.mod_lt _ (by norm_num)), decide_eq_true inside, Bool.true_or]
  · rw [if_neg (fun h => inside (byte.mp h)), decide_eq_false inside, Bool.false_or, bit]

/-- Where it does not, the last bit of the shared byte stays clear. -/
theorem bit_markInvalid_cut (arr : Bytes) (rLt : r < groupSizeBlocks) (cut : r % 8 ≠ 0) :
    (markInvalid r arr).bit (8 * (r / 8) + 7) = false := by
  have group : groupSizeBlocks = 32768 := rfl
  have div : (8 * (r / 8) + 7) / 8 = r / 8 ∧ (8 * (r / 8) + 7) % 8 = 7 := by omega
  have last : (groupSizeBlocks - r) % 8 > 0 ∧ r / 8 = 4096 - 1 - (groupSizeBlocks - r) / 8 := by omega
  have absent : ¬ 7 < (groupSizeBlocks - r) % 8 := by omega
  rw [bit, div.1, div.2, markInvalid_apply arr (by omega), if_pos last, UInt8.toNat_ofNat',
    Nat.one_shiftLeft, Nat.testBit_mod_two_pow, Nat.testBit_two_pow_sub_one, decide_eq_false absent, Bool.and_false]

/-! ## The tables -/

def wholeBlocks (v : Rfs2) : Nat := v.partition.sizeSectors / blockSizeSectors

theorem hasBlock_of_lt (h : n < v.wholeBlocks) : v.HasBlock n := by
  simp only [wholeBlocks, blockSizeSectors] at h
  simp only [HasBlock]
  omega

structure Inside (v v' : Rfs2) : Prop where
  size : v'.partition.sizeSectors = v.partition.sizeSectors
  outside : ∀ a, v.partition.sizeSectors * 512 ≤ a → v'.disk a = v.disk a

theorem Inside.refl (v : Rfs2) : Inside v v := ⟨rfl, fun _ _ => rfl⟩

theorem Inside.trans {v'' : Rfs2} (h : Inside v v') (h' : Inside v' v'') : Inside v v'' :=
  ⟨h'.size.trans h.size, fun a aLe => (h'.outside a (h.size ▸ aLe)).trans (h.outside a aLe)⟩

theorem Inside.write {b : Bytes} (h : Inside v v') (hasN : v'.HasBlock n) : Inside v (v'.setBlock n b) := by
  refine h.trans ⟨rfl, fun a aLe => ?_⟩
  simp only [HasBlock] at hasN
  exact Bytes.blit_outside (by omega)

theorem Inside.wholeBlocks (h : Inside v v') : v'.wholeBlocks = v.wholeBlocks := by
  rw [Rfs2.wholeBlocks, h.size, Rfs2.wholeBlocks]

def groupBitmap (wholeBlocks g : Nat) : Bytes :=
  if g < wholeBlocks / groupSizeBlocks then wholeBitmap
  else markInvalid (wholeBlocks % groupSizeBlocks) wholeBitmap

theorem cleared_apply (arr : Bytes) (x : UInt8) (aLt : a < 4096) :
    update (arr.blit 0 4096 zero) 0 x a = update zero 0 x a := by
  by_cases aEq0 : a = 0
  · rw [aEq0, update_self, update_self]
  · rw [update_of_ne aEq0, update_of_ne aEq0, blit_front aLt]

theorem formatTables_spec {wholeBlocks : Nat} {w' : WorkingBlock} (h : formatTables wholeBlocks w v = some (w', v')) :
    w'.diskBlock = w.diskBlock ∧ Inside v v' ∧ ∀ g, g * groupSizeBlocks < wholeBlocks →
      Bytes.BlockIs v'.disk (g * groupSizeBlocks) (groupBitmap wholeBlocks g) := by
  have group : groupSizeBlocks = 32768 := rfl
  simp only [formatTables, getAsMut] at h
  obtain ⟨⟨⟩, u1, clear, run1⟩ := bind_eq_some.mp h
  obtain ⟨⟨⟩, u2, tables, run2⟩ := bind_eq_some.mp run1
  have inside1 : Inside v u1 := by
    refine forUp_eq_some_ind (fun _ t => Inside v t) ?_ (Inside.refl v) clear
    intro i t t' _ _ tInside write
    obtain ⟨block, rfl⟩ := partitionWrite_block.mp write
    exact tInside.write block
  -- the bitmaps of the groups below the loop index are written
  have loop : Inside v u2 ∧ ∀ g < 0 + wholeBlocks / groupSizeBlocks,
      Bytes.BlockIs u2.disk (g * groupSizeBlocks) wholeBitmap := by
    refine forUp_eq_some_ind (fun k t => Inside v t ∧ ∀ g < k,
      Bytes.BlockIs t.disk (g * groupSizeBlocks) wholeBitmap) ?_ ⟨inside1, fun g gLt => by omega⟩ tables
    intro i t t' _ _ tInside write
    obtain ⟨block, rfl⟩ := partitionWrite_block.mp write
    refine ⟨tInside.1.write block, fun g gLt => ?_⟩
    by_cases same : g = i
    · subst same
      intro a aLt
      rw [setBlock_disk, setBlock_same aLt, cleared_apply w.data 1 aLt, wholeBitmap]
    · refine (tInside.2 g (by omega)).of_same (setBlock_sameBlock ?_)
      rw [group]
      omega
  rw [Nat.zero_add] at loop
  split at run2
  · obtain ⟨⟨⟩, u3, write, ret⟩ := bind_eq_some.mp run2
    obtain ⟨block, rfl⟩ := partitionWrite_block.mp write
    cases ret
    refine ⟨rfl, loop.1.write block, fun g gLt => ?_⟩
    by_cases glLt : g < wholeBlocks / groupSizeBlocks
    · rw [groupBitmap, if_pos glLt]
      refine (loop.2 g glLt).of_same (setBlock_sameBlock ?_)
      rw [group] at glLt ⊢
      omega
    · have ge : g = wholeBlocks / groupSizeBlocks := by
        rw [group] at gLt glLt ⊢
        omega
      rw [groupBitmap, if_neg glLt, ge]
      intro a aLt
      rw [setBlock_disk, setBlock_same aLt]
      rw [markInvalid_apply _ aLt, markInvalid_apply _ aLt]
      congr 2
      exact cleared_apply w.data 1 aLt
  next last =>
    cases run2
    refine ⟨rfl, loop.1, fun g gLt => ?_⟩
    have glLt : g < wholeBlocks / groupSizeBlocks := by
      rw [group] at gLt last ⊢
      omega
    rw [groupBitmap, if_pos glLt]
    exact loop.2 g glLt

theorem writeBlocks_total (f : Nat → Nat) (data : Bytes) (h : ∀ i < n, v.HasBlock (f i)) :
    ∃ v', Prog.forUp (fun i => partitionWrite (f i * blockSizeSectors) blockSizeSectors data) 0 n v =
      some ((), v') ∧ v'.partition.sizeSectors = v.partition.sizeSectors := by
  refine forUp_total
    (fun _ (t : Rfs2) => t.partition.sizeSectors = v.partition.sizeSectors) ?_ rfl
  intro i t _ iLt tEq
  have block : t.HasBlock (f i) := by
    have hasV := h i (by omega)
    simpa [HasBlock, tEq] using hasV
  exact ⟨t.setBlock (f i) data, partitionWrite_block.mpr ⟨block, rfl⟩, tEq⟩

theorem formatTables_total {wholeBlocks : Nat} (size : wholeBlocks * 8 ≤ v.partition.sizeSectors) :
    ∃ w' v', formatTables wholeBlocks w v = some (w', v') := by
  have group : groupSizeBlocks = 32768 := rfl
  have block : ∀ (t : Rfs2) (n : Nat), t.partition.sizeSectors = v.partition.sizeSectors →
      n < wholeBlocks → t.HasBlock n := by
    intro t n tEq nLt
    simp only [HasBlock, tEq]
    omega
  simp only [formatTables, getAsMut]
  obtain ⟨u1, clear, uEq1⟩ := writeBlocks_total (fun i => i) (w.data.blit 0 4096 zero)
    (block v · rfl)
  rw [bind_of_eq_some clear]
  obtain ⟨u2, tables, uEq2⟩ := writeBlocks_total (fun i => i * groupSizeBlocks)
    (update (w.data.blit 0 4096 zero) 0 1) (n := wholeBlocks / groupSizeBlocks)
    (fun i iLt => block u1 (i * groupSizeBlocks) uEq1 (by rw [group] at iLt ⊢; omega))
  rw [bind_of_eq_some tables]
  by_cases last : wholeBlocks % groupSizeBlocks > 0
  · have inside : u2.HasBlock (wholeBlocks / groupSizeBlocks * groupSizeBlocks) := by
      refine block u2 _ (uEq2.trans uEq1) ?_
      rw [group] at last ⊢
      omega
    rw [if_pos last, bind_of_eq_some (partitionWrite_block.mpr ⟨inside, rfl⟩)]
    exact ⟨_, _, rfl⟩
  · rw [if_neg last]
    exact ⟨_, _, rfl⟩

/-! ## The superblock copies -/

def lastCopyGroup (wholeBlocks : Nat) : Nat := (wholeBlocks - 1) / groupSizeBlocks / 64 * 64

/-- What the rounds from group `i` on do: they mark two blocks in the bitmaps of the groups they
visit, write the superblock behind those, and leave the last bitmap in the buffer. -/
structure CopiesFrom (wholeBlocks i : Nat) (v v' : Rfs2) (w' : WorkingBlock) : Prop where
  inside : Inside v v'
  superblock : v'.superblock = v.superblock
  visited : ∀ g, i ≤ g → g % 64 = 0 → g * groupSizeBlocks < wholeBlocks →
    Bytes.BlockIs v'.disk (g * groupSizeBlocks) (markFirstTwo (v.disk.block (g * groupSizeBlocks)))
  passed : ∀ g, g < i ∨ g % 64 ≠ 0 → Bytes.SameBlock v.disk v'.disk (g * groupSizeBlocks)
  buffer : ∀ a, a < 4096 → w'.data a = markFirstTwo (v.disk.block (lastCopyGroup wholeBlocks * groupSizeBlocks)) a

theorem markFirstTwo_congr {x y : Bytes} (h : ∀ a < 4096, x a = y a) (aLt : a < 4096) :
    markFirstTwo x a = markFirstTwo y a := by
  simp only [markFirstTwo, h 0 (by norm_num)]
  by_cases aEq0 : a = 0
  · simp [aEq0]
  · simp [update_of_ne aEq0, h a aLt]

theorem formatSuperblocks_spec {wholeBlocks : Nat}
    (iEq : i % 64 = 0) (lt : i * groupSizeBlocks < wholeBlocks) (cover : wholeBlocks ≤ (i + 64 * n) * groupSizeBlocks)
    (h : formatSuperblocks wholeBlocks sb w i n v = some (w', v')) :
    CopiesFrom wholeBlocks i v v' w' ∧ w'.diskBlock = w.diskBlock := by
  have group : groupSizeBlocks = 32768 := rfl
  induction n generalizing i w v with
  | zero =>
    rw [Nat.mul_zero, Nat.add_zero] at cover
    omega
  | succ n ih =>
    simp only [formatSuperblocks, getAsMut] at h
    rw [if_neg (by omega)] at h
    obtain ⟨data, u0, read, run1⟩ := bind_eq_some.mp h
    obtain ⟨-, rfl, rfl⟩ := partitionRead_block.mp read
    obtain ⟨⟨⟩, u1, bitmapEq, run2⟩ := bind_eq_some.mp run1
    obtain ⟨block1, rfl⟩ := partitionWrite_block.mp bitmapEq
    obtain ⟨⟨⟩, u2, copy, run3⟩ := bind_eq_some.mp run2
    obtain ⟨block2, rfl⟩ := partitionWrite_block.mp copy
    have dataAll : ∀ a < 4096, markFirstTwo (w.data.blit 0 4096 (u0.disk.block (i * groupSizeBlocks))) a =
        markFirstTwo (u0.disk.block (i * groupSizeBlocks)) a := fun a aLt =>
      markFirstTwo_congr (fun b bLt => blit_front bLt) aLt
    generalize markFirstTwo (w.data.blit 0 4096 (u0.disk.block (i * groupSizeBlocks))) = bitmap at *
    -- the state after this round, whatever the rounds behind it do
    obtain ⟨u, uEq⟩ : ∃ u, u = (u0.setBlock (i * groupSizeBlocks) bitmap).setBlock (i * groupSizeBlocks + 1) sb.data :=
      ⟨_, rfl⟩
    have inside : Inside u0 u := uEq ▸ ((Inside.refl u0).write block1).write block2
    have same : ∀ g, g ≠ i → Bytes.SameBlock u0.disk u.disk (g * groupSizeBlocks) := by
      intro g gNe
      rw [uEq]
      refine (setBlock_sameBlock ?_).trans (setBlock_sameBlock ?_) <;> rw [group] <;> omega
    have here : Bytes.BlockIs u.disk (i * groupSizeBlocks) (markFirstTwo (u0.disk.block (i * groupSizeBlocks))) := by
      intro a aLt
      rw [uEq, setBlock_disk, setBlock_other aLt (by omega), setBlock_disk, setBlock_same aLt, dataAll a aLt]
    have super : u.superblock = u0.superblock := uEq ▸ rfl
    rw [← uEq] at run3
    by_cases next : (i + 64) * groupSizeBlocks < wholeBlocks
    · have cover' : wholeBlocks ≤ (i + 64 + 64 * n) * groupSizeBlocks := by
        rwa [show i + 64 + 64 * n = i + 64 * (n + 1) by omega]
      obtain ⟨rest, disk⟩ := ih (by omega) next cover' run3
      refine ⟨⟨inside.trans rest.inside, rest.superblock.trans super, ?_, ?_, ?_⟩, disk⟩
      · intro g igLe gNe gwLt
        by_cases gIsI : g = i
        · subst gIsI
          exact here.of_same (rest.passed g (.inl (by omega)))
        · intro a aLt
          rw [rest.visited g (by omega) gNe gwLt a aLt]
          exact markFirstTwo_congr (fun b bLt => same g gIsI b bLt) aLt
      · intro g gNe
        exact (same g (by omega)).trans (rest.passed g (by omega))
      intro a aLt
      rw [rest.buffer a aLt]
      refine markFirstTwo_congr (fun b bLt => same _ ?_ b bLt) aLt
      simp only [lastCopyGroup, group] at next ⊢
      omega
    · -- the loop ends here, by its count or by the check
      have last : lastCopyGroup wholeBlocks = i := by
        simp only [lastCopyGroup, group] at lt next ⊢
        omega
      have ends : w' = { data := bitmap, diskBlock := w.diskBlock, changed := true } ∧ v' = u := by
        cases n with
        | zero =>
          cases run3
          exact ⟨rfl, rfl⟩
        | succ n =>
          simp only [formatSuperblocks] at run3
          rw [if_pos (by omega)] at run3
          cases run3
          exact ⟨rfl, rfl⟩
      obtain ⟨rfl, rfl⟩ := ends
      refine ⟨⟨inside, super, ?_, fun g gNe => same g (by omega), ?_⟩, rfl⟩
      · intro g igLe gNe gwLt
        have gIsI : g = i := by
          rw [group] at gwLt next
          omega
        exact gIsI ▸ here
      · rwa [last]

theorem formatSuperblocks_copies {wholeBlocks : Nat} (pos : 0 < wholeBlocks)
    (h : formatSuperblocks wholeBlocks sb w 0 ((wholeBlocks / groupSizeBlocks + 1 + 63) / 64) v = some (w', v')) :
    CopiesFrom wholeBlocks 0 v v' w' ∧ w'.diskBlock = w.diskBlock := by
  have group : groupSizeBlocks = 32768 := rfl
  refine formatSuperblocks_spec (by norm_num) (by omega) ?_ h
  rw [group]
  omega

theorem formatSuperblocks_total {wholeBlocks : Nat} (sb w : WorkingBlock)
    (size : wholeBlocks * 8 ≤ v.partition.sizeSectors) (aligned : wholeBlocks % 8 = 0) :
    ∃ w' v', formatSuperblocks wholeBlocks sb w i n v = some (w', v') := by
  induction n generalizing i w v with
  | zero => exact ⟨w, v, rfl⟩
  | succ n ih =>
    simp only [formatSuperblocks]
    by_cases ends : i * groupSizeBlocks ≥ wholeBlocks
    · rw [if_pos ends]
      exact ⟨w, v, rfl⟩
    -- a group holds a multiple of eight blocks, so the block behind its bitmap is in range too
    have first : v.HasBlock (i * groupSizeBlocks) := by
      simp only [HasBlock]
      omega
    have second : v.HasBlock (i * groupSizeBlocks + 1) := by
      simp only [HasBlock, groupSizeBlocks] at ends ⊢
      omega
    have copy : ∀ data, partitionWrite ((i * groupSizeBlocks + 1) * blockSizeSectors) blockSizeSectors
        sb.data (v.setBlock (i * groupSizeBlocks) data) = some ((),
          (v.setBlock (i * groupSizeBlocks) data).setBlock (i * groupSizeBlocks + 1) sb.data) :=
      fun _ => partitionWrite_block.mpr ⟨second, rfl⟩
    rw [if_neg ends, bind_of_eq_some (partitionRead_block.mpr ⟨first, rfl, rfl⟩),
      bind_of_eq_some (partitionWrite_block.mpr ⟨first, rfl⟩), bind_of_eq_some (copy _)]
    exact ih _ size

/-! ## The whole of it -/

def firstInodeBitmap : Bytes := update zero 0 (UInt8.ofNat ((2 <<< rootInodeIndex) - 1))

/-- What `format` leaves behind on a partition of at least five blocks. -/
structure Formatted (sinceEpoch : Nat) (v v' : Rfs2) : Prop where
  inside : Inside v v'
  superblock : v'.superblock = formattedSuperblock v.wholeBlocks
  firstBitmap : Bytes.BlockIs v'.disk 0
    (update (groupBitmap v.wholeBlocks (lastCopyGroup v.wholeBlocks)) 0 0b11111)
  bitmaps : ∀ g, 0 < g → g * groupSizeBlocks < v.wholeBlocks → Bytes.BlockIs v'.disk (g * groupSizeBlocks)
      (if g % 64 = 0 then markFirstTwo (groupBitmap v.wholeBlocks g) else groupBitmap v.wholeBlocks g)
  inodeTree : ∃ arr, Bytes.BlockIs v'.disk 2
    (((BTreeNode.load arr).initializeRoot rootInodeIndex 4).store arr)
  inodeBitmap : Bytes.BlockIs v'.disk 3 firstInodeBitmap
  rootInode : Bytes.BlockIs v'.disk 4 ((rootInodeInfo sinceEpoch).store firstInodeBitmap)

def withFirstBlocks (sinceEpoch : Nat) (arr : Bytes) (v : Rfs2) : Rfs2 :=
  let arr₀ := update arr 0 0b11111
  let arr₂ := ((BTreeNode.load arr₀).initializeRoot rootInodeIndex 4).store arr₀
  let arr₃ := update (arr₂.blit 0 4096 zero) 0 (UInt8.ofNat ((2 <<< rootInodeIndex) - 1))
  (((v.setBlock 0 arr₀).setBlock 2 arr₂).setBlock 3 arr₃).setBlock 4 ((rootInodeInfo sinceEpoch).store arr₃)

theorem formatFirstBlocks_run (isNone : w.diskBlock = none) (size : 5 ≤ v.wholeBlocks) :
    formatFirstBlocks sinceEpoch w v = some ((), withFirstBlocks sinceEpoch w.data v) := by
  have write : ∀ (n : Nat) (data : Bytes) (t : Rfs2), n < 5 → t.partition.sizeSectors = v.partition.sizeSectors →
      partitionWrite (n * blockSizeSectors) blockSizeSectors data t = some ((), t.setBlock n data) := by
    intro n data t nLt tEq
    refine partitionWrite_block.mpr ⟨hasBlock_of_lt (Nat.lt_of_lt_of_le nLt ?_), rfl⟩
    rwa [wholeBlocks, tEq]
  simp only [formatFirstBlocks, getAsMut]
  refine bind_eq_some.mpr ⟨(), _, write 0 _ _ (by norm_num) rfl, ?_⟩
  refine bind_eq_some.mpr ⟨(), _, write 2 _ _ (by norm_num) rfl, ?_⟩
  refine bind_eq_some.mpr ⟨(), _, write 3 _ _ (by norm_num) rfl, ?_⟩
  refine bind_eq_some.mpr ⟨(), _, write 4 _ _ (by norm_num) rfl, ?_⟩
  simp only [WorkingBlock.forgetMemBinding, isNone, Option.isSome_none, Bool.false_and]
  rfl

theorem format_eq_some (size : 5 ≤ v.wholeBlocks) : format sinceEpoch v = some (.ok (), v') ↔ ∃ w1 u1 w2 u2,
      formatTables v.wholeBlocks { data := v.frames 0, diskBlock := none, changed := false } v.tick = some (w1, u1) ∧
      formatSuperblocks v.wholeBlocks
        { data := (formattedSuperblock v.wholeBlocks).store (u1.frames 0), diskBlock := none, changed := true }
        w1 0 ((v.wholeBlocks / groupSizeBlocks + 1 + 63) / 64)
        { u1.tick with superblock := formattedSuperblock v.wholeBlocks } = some (w2, u2) ∧
      formatFirstBlocks sinceEpoch w2 u2 = some ((), v') := by
  have large : ¬ v.partition.sizeSectors / blockSizeSectors < 5 := Nat.not_lt.mpr size
  rw [format, get_bind, if_neg large]
  simp only [WorkingBlock.new_bind, modify_bind, getAsMut, bind_eq_some]
  constructor
  · rintro ⟨w1, u1, tables, w2, u2, copies, _, _, forget, _, _, first, ret⟩
    cases forget
    cases ret
    exact ⟨w1, u1, w2, u2, tables, copies, first⟩
  · rintro ⟨w1, u1, w2, u2, tables, copies, first⟩
    exact ⟨w1, u1, tables, w2, u2, copies, _, _, rfl, _, _, first, rfl⟩

theorem format_ok_size (h : format sinceEpoch v = some (.ok (), v')) : 5 ≤ v.wholeBlocks := by
  by_contra small
  have lt : v.partition.sizeSectors / blockSizeSectors < 5 := Nat.not_le.mp small
  rw [format, get_bind, if_pos lt] at h
  cases h

theorem withFirstBlocks_same (nNe : n ≠ 0) (nCases' : 4 < n ∨ n = 1) :
    Bytes.SameBlock v.disk (withFirstBlocks sinceEpoch arr v).disk n := by
  refine (setBlock_sameBlock nNe).trans ((setBlock_sameBlock ?_).trans
    ((setBlock_sameBlock ?_).trans (setBlock_sameBlock ?_))) <;> omega

theorem withFirstBlocks_inside (size : 5 ≤ v.wholeBlocks) : Inside v (withFirstBlocks sinceEpoch arr v) := by
  have block : ∀ n < 5, v.HasBlock n := fun n nLt => hasBlock_of_lt (Nat.lt_of_lt_of_le nLt size)
  exact ((((Inside.refl v).write (block 0 (by norm_num))).write (block 2 (by norm_num))).write
    (block 3 (by norm_num))).write (block 4 (by norm_num))

theorem format_contents (h : format sinceEpoch v = some (.ok (), v')) : Formatted sinceEpoch v v' := by
  have size := format_ok_size h
  have group : groupSizeBlocks = 32768 := rfl
  obtain ⟨w1, u1, w2, u2, tables, copies, first⟩ := (format_eq_some size).mp h
  obtain ⟨disk1, inside1, bitmaps⟩ := formatTables_spec tables
  obtain ⟨spec, disk2⟩ := formatSuperblocks_copies (by omega) copies
  have inside2 : Inside v u2 := Inside.trans ⟨inside1.size, inside1.outside⟩ ⟨spec.inside.size, spec.inside.outside⟩
  have size2 : 5 ≤ u2.wholeBlocks := inside2.wholeBlocks ▸ size
  rw [formatFirstBlocks_run (disk2.trans disk1) size2] at first
  cases first
  refine ⟨inside2.trans (withFirstBlocks_inside size2), spec.superblock, ?_, ?_, ?_, ?_, ?_⟩
  · intro a aLt
    have zero : (withFirstBlocks sinceEpoch w2.data u2).disk.block 0 a = update w2.data 0 0b11111 a := by
      simp only [withFirstBlocks, setBlock_disk]
      rw [setBlock_other aLt (by norm_num), setBlock_other aLt (by norm_num),
        setBlock_other aLt (by norm_num), setBlock_same aLt]
    have last : lastCopyGroup v.wholeBlocks * groupSizeBlocks < v.wholeBlocks := by
      simp only [lastCopyGroup, group]
      omega
    rw [zero]
    by_cases aEq0 : a = 0
    · simp [aEq0]
    · rw [update_of_ne aEq0, update_of_ne aEq0, spec.buffer a aLt, markFirstTwo, update_of_ne aEq0]
      exact bitmaps _ last a aLt
  · intro g gPos gwLt
    have same : Bytes.SameBlock u2.disk (withFirstBlocks sinceEpoch w2.data u2).disk (g * groupSizeBlocks) := by
      apply withFirstBlocks_same <;> rw [group] <;> omega
    refine Bytes.BlockIs.of_same ?_ same
    split
    next copy =>
      intro a aLt
      rw [spec.visited g (by omega) copy gwLt a aLt]
      exact markFirstTwo_congr (bitmaps g gwLt) aLt
    next copy =>
      exact (bitmaps g gwLt).of_same (spec.passed g (.inr copy))
  · refine ⟨update w2.data 0 0b11111, fun a aLt => ?_⟩
    simp only [withFirstBlocks, setBlock_disk]
    rw [setBlock_other aLt (by norm_num), setBlock_other aLt (by norm_num), setBlock_same aLt]
  · intro a aLt
    simp only [withFirstBlocks, setBlock_disk]
    rw [setBlock_other aLt (by norm_num), setBlock_same aLt, firstInodeBitmap, cleared_apply _ _ aLt]
  intro a aLt
  simp only [withFirstBlocks, setBlock_disk]
  rw [setBlock_same aLt]
  exact InodeInfo.store_congr _ (cleared_apply _ _ aLt)

theorem format_total (size : 5 ≤ v.wholeBlocks)
    (aligned : v.wholeBlocks % 8 = 0) : ∃ v', format sinceEpoch v = some (.ok (), v') := by
  have fits : v.wholeBlocks * 8 ≤ v.partition.sizeSectors := by
    simp only [wholeBlocks, blockSizeSectors]
    omega
  obtain ⟨w1, u1, tables⟩ := formatTables_total (v := v.tick)
    (w := { data := v.frames 0, diskBlock := none, changed := false }) fits
  obtain ⟨disk1, inside1, -⟩ := formatTables_spec tables
  have fits1 : v.wholeBlocks * 8 ≤ u1.partition.sizeSectors := inside1.size ▸ fits
  obtain ⟨w2, u2, copies⟩ := formatSuperblocks_total (i := 0)
    (n := (v.wholeBlocks / groupSizeBlocks + 1 + 63) / 64)
    { data := (formattedSuperblock v.wholeBlocks).store (u1.frames 0), diskBlock := none, changed := true }
    w1 (v := { u1.tick with superblock := formattedSuperblock v.wholeBlocks }) fits1 aligned
  obtain ⟨spec, disk2⟩ := formatSuperblocks_copies (by omega) copies
  have inside2 : Inside v u2 := Inside.trans ⟨inside1.size, inside1.outside⟩ ⟨spec.inside.size, spec.inside.outside⟩
  have size2 : 5 ≤ u2.wholeBlocks := inside2.wholeBlocks ▸ size
  exact ⟨_, (format_eq_some size).mpr
    ⟨w1, u1, w2, u2, tables, copies, formatFirstBlocks_run (disk2.trans disk1) size2⟩⟩

end MeowOs.Rfs2
