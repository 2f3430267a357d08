import MeowOs.Rfs2.Volume
import MeowOs.Rfs2.Bitmask

/-! # Block allocation (`rfs2/mod.rs`)

Block `0` of every group is a bitmap with one bit for each block of the group.
`allocateBlock` takes the first clear bit of the first group that has one,
`releaseBlock` clears a bit again.

The section on runs lets the two be called in any order.  `releaseBlock` means to
refuse the superblock copies, which stand in every 64th group, but tests
`group & 64 == 0`: it refuses block 1 of every group whose number has bit 6
clear, also where that block is an ordinary one (`Refused`).
-/

namespace MeowOs.Rfs2

open MeowOs.Machine Prog

/-! ## The operations -/

/-- `for i in 0..groups`, from group `i` on with `n` groups left. -/
def allocateBlockFrom (block : WorkingBlock) (i : Nat) : Nat → Prog Rfs2 Nat
  | 0 => Prog.panic
  | n + 1 => do
    let blockIndex := i * groupSizeBlocks
    let data ← partitionRead (blockIndex * blockSizeSectors) blockSizeSectors block.data
    let block := { block with data, changed := true }
    match BlockBitmask.findEmpty block.data with
    | some empty =>
      let block := block.getAsMut (BlockBitmask.set empty)
      (block.assignToDiskBlock blockIndex true).writeAndDealloc
      return i * groupSizeBlocks + empty
    | none => allocateBlockFrom block (i + 1) n

def allocateBlock : Prog Rfs2 Nat := do
  let block ← WorkingBlock.new
  let v ← Prog.get
  allocateBlockFrom block 0 v.groups

def releaseBlock (block : Nat) : Prog Rfs2 Unit := do
  -- a group bitmap is reported here as well, but not refused
  let group := block / groupSizeBlocks
  let blockIndex := block % groupSizeBlocks
  if group &&& 64 = 0 ∧ blockIndex = 1 then
    return ()
  let block ← WorkingBlock.new
  let bitmaskBlockIndex := group * groupSizeBlocks
  let data ← partitionRead (bitmaskBlockIndex * blockSizeSectors) blockSizeSectors block.data
  let block := { block with data }.getAsMut (BlockBitmask.clear blockIndex)
  (block.assignToDiskBlock bitmaskBlockIndex true).writeAndDealloc

/-- `WorkingBlock::get_disk_block`: a working block bound to a newly allocated block. -/
def newDiskBlock : Prog Rfs2 WorkingBlock := do
  let block ← allocateBlock
  let workingBlock ← WorkingBlock.new
  return workingBlock.assignToDiskBlock block false

/-! ## The bit of a block -/

def bitmapOf (b : Nat) : Nat := b / groupSizeBlocks * groupSizeBlocks

def marked (v : Rfs2) (b : Nat) : Bool := (v.disk.block (bitmapOf b)).bit (b % groupSizeBlocks)

def IsFree (v : Rfs2) (b : Nat) : Prop := b / groupSizeBlocks < v.groups ∧ v.marked b = false

variable {v v' : Rfs2} {i n b : Nat} {w : WorkingBlock}

theorem hasBlock_bitmap (iLt : i < v.groups) : v.HasBlock (i * groupSizeBlocks) := by
  have blocksLe : v.blocks * 8 ≤ v.partition.sizeSectors := by
    simp only [blocks, blockSizeSectors]
    omega
  have inside : i * groupSizeBlocks < v.blocks := by
    simp only [groups, groupSizeBlocks] at iLt ⊢
    omega
  simp only [HasBlock, groupSizeBlocks] at inside ⊢
  omega

theorem bit_blit_block {frame d : Bytes} (iLt : i < groupSizeBlocks) : (frame.blit 0 4096 d).bit i = d.bit i := by
  simp only [Bytes.bit, groupSizeBlocks] at *
  rw [Bytes.blit_front (by omega)]

theorem bit_setBlock {d b : Bytes} (iLt : i < groupSizeBlocks) : ((d.setBlock n b).block n).bit i = b.bit i := by
  simp only [Bytes.bit, groupSizeBlocks] at *
  rw [Bytes.setBlock_same (by omega)]

theorem marked_congr {c : Nat} (h : Bytes.SameBlock v.disk v'.disk (bitmapOf c)) : v'.marked c = v.marked c := by
  have lt : c % groupSizeBlocks / 8 < 4096 := by
    simp only [groupSizeBlocks]
    omega
  simp only [marked, Bytes.bit, h _ lt]

theorem marked_setBlock {bitmap : Bytes} {x : Bool} (disk : v'.disk = v.disk.setBlock (bitmapOf b) bitmap)
    (bits : ∀ i < groupSizeBlocks, bitmap.bit i =
      if i = b % groupSizeBlocks then x else (v.disk.block (bitmapOf b)).bit i) (c : Nat) :
    v'.marked c = if c = b then x else v.marked c := by
  by_cases group : c / groupSizeBlocks = b / groupSizeBlocks
  · have map : bitmapOf c = bitmapOf b := by simp only [bitmapOf, group]
    have lt : c % groupSizeBlocks < groupSizeBlocks := Nat.mod_lt _ (by simp [groupSizeBlocks])
    have same : c = b ↔ c % groupSizeBlocks = b % groupSizeBlocks := by
      constructor
      · intro h; rw [h]
      · intro h
        rw [← Nat.div_add_mod c groupSizeBlocks, ← Nat.div_add_mod b groupSizeBlocks, group, h]
    simp [marked, disk, map, bit_setBlock lt, bits _ lt, same]
  · have map : bitmapOf c ≠ bitmapOf b := by
      simp only [groupSizeBlocks] at group
      simp only [bitmapOf, groupSizeBlocks, ne_eq]
      omega
    have ne : c ≠ b := fun h => group (by rw [h])
    rw [if_neg ne]
    apply marked_congr
    rw [disk]
    exact Bytes.setBlock_sameBlock map

theorem IsFree.not_marked (h : v.IsFree b) : v.marked b ≠ true := by
  rw [h.2]
  decide

theorem IsFree.lt (h : v.IsFree b) : b < 2 ^ 64 := by
  have group := h.1
  simp only [groups, blocks, blockSizeSectors, groupSizeBlocks] at group
  omega

theorem marked_of_frame {S : Set Nat} (frame : Frame S v v') (sAll : ∀ b ∈ S, ¬ IsGroupBitmap b)
    (c : Nat) : v'.marked c = v.marked c :=
  marked_congr (frame.same _ fun mem => sAll _ mem (Nat.mul_mod_left _ _))

/-! ## What `allocate_block` does -/

/-- Block `b` was free in `v` and is the one block newly marked in `v'`. -/
structure Allocates (v : Rfs2) (b : Nat) (v' : Rfs2) : Prop where
  free : v.IsFree b
  frame : Frame {bitmapOf b} v v'
  marked : ∀ c, v'.marked c = if c = b then true else v.marked c

theorem allocateBlockFrom_spec
    (nEq : i + n = v.groups) (h : allocateBlockFrom w i n v = some (b, v')) : Allocates v b v' := by
  induction n generalizing w i with
  | zero => simp [allocateBlockFrom] at h
  | succ n ih =>
    obtain ⟨data, u, read, rest⟩ := bind_eq_some.mp h
    obtain ⟨-, dataEq, rfl⟩ := partitionRead_block.mp read
    cases find : BlockBitmask.findEmpty data with
    | none =>
      simp only [find] at rest
      exact ih (by omega) rest
    | some empty =>
      simp only [find, WorkingBlock.getAsMut, WorkingBlock.assignToDiskBlock] at rest
      obtain ⟨⟨⟩, u', write, ret⟩ := bind_eq_some.mp rest
      obtain ⟨-, rfl⟩ := writeAndDealloc_eq_some.mp write
      obtain ⟨rfl, rfl⟩ := ret
      obtain ⟨-, lt, clear, -⟩ := Bitmask.findEmptyFrom_some find
      have emptyLt : empty < groupSizeBlocks := by
        simp only [BlockBitmask.words] at lt
        simp only [groupSizeBlocks]
        omega
      have div : (i * groupSizeBlocks + empty) / groupSizeBlocks = i := by
        simp only [groupSizeBlocks] at *
        omega
      have mod : (i * groupSizeBlocks + empty) % groupSizeBlocks = empty := by
        simp only [groupSizeBlocks] at *
        omega
      have map : bitmapOf (i * groupSizeBlocks + empty) = i * groupSizeBlocks := by
        simp [bitmapOf, div]
      refine ⟨⟨by omega, ?_⟩, ?_, ?_⟩
      · rw [dataEq, bit_blit_block emptyLt] at clear
        simpa [marked, map, mod] using clear
      · rw [map]
        exact Frame.setBlock rfl
      apply marked_setBlock
      · simp only [setBlock_disk, map]
        rfl
      · intro j jLt
        rw [BlockBitmask.set, Bitmask.bit_set, dataEq, bit_blit_block jLt, mod, map]

theorem allocateBlock_spec (h : allocateBlock v = some (b, v')) : Allocates v b v' := by
  have spec : Allocates v.tick b v' := allocateBlockFrom_spec (Nat.zero_add _) h
  exact ⟨spec.free, spec.frame.of_tick, spec.marked⟩

theorem allocateBlockFrom_total (nEq : i + n = v.groups) (free : v.IsFree b) (iLe : i ≤ b / groupSizeBlocks) :
    ∃ c v', allocateBlockFrom w i n v = some (c, v') := by
  induction n generalizing w i with
  | zero =>
    have group : b / groupSizeBlocks < v.groups := free.1
    omega
  | succ n ih =>
    have read : partitionRead (i * groupSizeBlocks * blockSizeSectors) blockSizeSectors w.data v =
        some (w.data.blit 0 4096 (v.disk.block (i * groupSizeBlocks)), v) :=
      partitionRead_block.mpr ⟨hasBlock_bitmap (by omega), rfl, rfl⟩
    simp only [allocateBlockFrom]
    rw [bind_of_eq_some read]
    cases find : BlockBitmask.findEmpty (w.data.blit 0 4096 (v.disk.block (i * groupSizeBlocks))) with
    | none =>
      apply ih (by omega)
      -- the bit of `b` is clear, so `b` is not in this group
      by_contra le
      have same : b / groupSizeBlocks = i := by omega
      have lt : b % groupSizeBlocks < groupSizeBlocks := Nat.mod_lt _ (by simp [groupSizeBlocks])
      have isSet := Bitmask.findEmptyFrom_none find (b % groupSizeBlocks) (by omega)
        (by simp only [BlockBitmask.words, groupSizeBlocks] at *; omega)
      have clear := free.2
      rw [bit_blit_block lt] at isSet
      simp only [marked, bitmapOf, same, isSet] at clear
      cases clear
    | some empty =>
      simp only [WorkingBlock.getAsMut, WorkingBlock.assignToDiskBlock]
      refine ⟨i * groupSizeBlocks + empty, v.setBlock (i * groupSizeBlocks) (BlockBitmask.set empty
        (w.data.blit 0 4096 (v.disk.block (i * groupSizeBlocks)))), ?_⟩
      rw [bind_of_eq_some (writeAndDealloc_eq_some.mpr ⟨hasBlock_bitmap (by omega), rfl⟩)]
      rfl

theorem newDiskBlock_spec (h : newDiskBlock v = some (w, v')) : ∃ b u, allocateBlock v = some (b, u) ∧ v' = u.tick ∧
      w = { data := u.frames 0, diskBlock := some b, changed := false } := by
  obtain ⟨b, u, alloc, rest⟩ := bind_eq_some.mp h
  simp only [WorkingBlock.new, allocateFrame, bind_run, Option.bind_some, pure_run,
    Option.some.injEq, Prod.mk.injEq, WorkingBlock.assignToDiskBlock] at rest
  exact ⟨b, u, alloc, rest.2.symm, rest.1.symm⟩

/-- The blocks that `release_block` refuses to free. -/
def Refused (b : Nat) : Prop := b / groupSizeBlocks &&& 64 = 0 ∧ b % groupSizeBlocks = 1

instance (b : Nat) : Decidable (Refused b) := inferInstanceAs (Decidable (_ ∧ _))

theorem releaseBlock_refused (refused : Refused b) : releaseBlock b v = some ((), v) := by
  have cond : b / groupSizeBlocks &&& 64 = 0 ∧ b % groupSizeBlocks = 1 := refused
  simp only [releaseBlock, if_pos cond, pure_run]

theorem releaseBlock_spec (freed : ¬ Refused b) (h : releaseBlock b v = some ((), v')) :
    Frame {bitmapOf b} v v' ∧ ∀ c, v'.marked c = if c = b then false else v.marked c := by
  have cond : ¬ (b / groupSizeBlocks &&& 64 = 0 ∧ b % groupSizeBlocks = 1) := freed
  simp only [releaseBlock, if_neg cond] at h
  obtain ⟨w, u, new, data, u', read, write⟩ := bind₂_eq_some.mp h
  obtain ⟨-, dataEq, rfl⟩ := partitionRead_block.mp read
  simp only [WorkingBlock.getAsMut, WorkingBlock.assignToDiskBlock] at write
  obtain ⟨-, rfl⟩ := writeAndDealloc_eq_some.mp write
  cases new
  refine ⟨Frame.of_tick (Frame.setBlock (Set.mem_singleton _)), ?_⟩
  apply marked_setBlock
  · rfl
  · intro j jLt
    rw [BlockBitmask.clear, Bitmask.bit_clear, dataEq, bit_blit_block jLt]
    rfl

end MeowOs.Rfs2
