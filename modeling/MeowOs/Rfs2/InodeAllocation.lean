import MeowOs.Rfs2.BlockAllocation

/-! # Inode numbers (`rfs2/mod.rs`)

Inode numbers are handed out from a chain of bitmap blocks, each with 32704 bits
and a pointer to the next one.  A number is the position of its bitmap in the
chain times 32704, plus its bit.

When the chain is full `allocateInode` appends a bitmap, and then makes the
superblock point to the new one: the chain loses its front, and the numbers
start from 0 again.
-/

namespace MeowOs.Rfs2

open MeowOs.Machine Prog InodeBtmask

/-! ## The operations -/

/-- The `loop` of `allocate_inode`; the first argument bounds the bitmaps it may still visit. -/
def allocateInodeLoop : Nat → SuperBlock → WorkingBlock → Nat → Prog Rfs2 Nat
  | 0, _, _, _ => Prog.panic
  | fuel + 1, superblock, block, iterationIndex =>
    match findEmpty block.data with
    | none =>
      let nextPtr := getPtr block.data
      if nextPtr = 0 then do
        let inodeBitmaskBlock ← allocateBlock
        let block := block.getAsMut (setPtr inodeBitmaskBlock)
        let diskBlock ← Prog.ofOption block.diskBlock
        partitionWrite (diskBlock * blockSizeSectors) blockSizeSectors block.data
        let block := block.getAsMut fun d => d.blit 0 4096 InodeBtmask.new
        let block := block.assignToDiskBlock inodeBitmaskBlock true
        let superblock := { superblock with inodeMaskPtr := inodeBitmaskBlock }
        updateSuperblock superblock
        allocateInodeLoop fuel superblock block (iterationIndex + 1)
      else do
        if block.changed then
          let diskBlock ← Prog.ofOption block.diskBlock
          partitionWrite (diskBlock * blockSizeSectors) blockSizeSectors block.data
        let data ← partitionRead (nextPtr * blockSizeSectors) blockSizeSectors block.data
        let block := { block with data }.assignToDiskBlock nextPtr false
        allocateInodeLoop fuel superblock block (iterationIndex + 1)
    | some empty => do
      let block := block.getAsMut (InodeBtmask.set empty)
      block.writeAndDealloc
      return (iterationIndex * inodesPerBitmask + empty) % 2 ^ 32

def allocateInode (fuel : Nat) : Prog Rfs2 Nat := do
  let block ← WorkingBlock.new
  let superblock ← getSuperblock
  if superblock.inodeMaskPtr = 0 then
    let inodeBitmaskBlock ← allocateBlock
    let block := block.getAsMut fun d => d.blit 0 4096 InodeBtmask.new
    let block := block.assignToDiskBlock inodeBitmaskBlock true
    let superblock := { superblock with inodeMaskPtr := inodeBitmaskBlock }
    updateSuperblock superblock
    allocateInodeLoop fuel superblock block 0
  else
    let data ← partitionRead (superblock.inodeMaskPtr * blockSizeSectors) blockSizeSectors block.data
    let block := { block with data }.assignToDiskBlock superblock.inodeMaskPtr false
    allocateInodeLoop fuel superblock block 0

/-- `for _ in 0..bitmask_index` of `release_inode`: the bitmap `n` places down the chain. -/
def followChain : Nat → WorkingBlock → Nat → Prog Rfs2 (WorkingBlock × Nat)
  | 0, block, currentPtr => pure (block, currentPtr)
  | n + 1, block, currentPtr => do
    -- the early return lets the working block fall out of scope
    if currentPtr = 0 then
      block.drop
    let data ← partitionRead (currentPtr * blockSizeSectors) blockSizeSectors block.data
    followChain n { block with data } (getPtr data)

def releaseInode (index : Nat) : Prog Rfs2 Unit := do
  let bitmaskIndex := index / inodesPerBitmask
  let inBitmaskIndex := index % inodesPerBitmask
  let block ← WorkingBlock.new
  let superblock ← getSuperblock
  let (block, currentPtr) ← followChain bitmaskIndex block superblock.inodeMaskPtr
  if currentPtr = 0 then
    block.drop
  let data ← partitionRead (currentPtr * blockSizeSectors) blockSizeSectors block.data
  let block := { block with data }.getAsMut (InodeBtmask.clear inBitmaskIndex)
  (block.assignToDiskBlock currentPtr true).writeAndDealloc

/-! ## The first bitmap -/

def inodeBit (v : Rfs2) (i : Nat) : Bool := (v.disk.block v.superblock.inodeMaskPtr).bit i

structure HasBitmap (v : Rfs2) : Prop where
  ptr_ne : v.superblock.inodeMaskPtr ≠ 0
  inside : v.HasBlock v.superblock.inodeMaskPtr

def HasRoom (v : Rfs2) : Prop := ∃ i, i < inodesPerBitmask ∧ v.inodeBit i = false

def LastBitmap (v : Rfs2) : Prop := getPtr (v.disk.block v.superblock.inodeMaskPtr) = 0

section FirstBitmap

variable {v v' : Rfs2} {fuel : Nat}

/-- What the frame of `allocate_inode` holds once the first bitmap was read into it. -/
def bitmapFrame (v : Rfs2) : Bytes := (v.frames 0).blit 0 4096 (v.disk.block v.superblock.inodeMaskPtr)

theorem bit_bitmapFrame {i : Nat} (iLt : i < inodesPerBitmask) : (bitmapFrame v).bit i = v.inodeBit i := by
  refine bit_blit_block ?_
  simp only [inodesPerBitmask, groupSizeBlocks] at *
  omega

theorem getPtr_bitmapFrame (last : v.LastBitmap) : getPtr (bitmapFrame v) = 0 := by
  rw [← last]
  refine Bytes.readLE_congr fun k kLt => ?_
  simp only [words] at *
  rw [bitmapFrame, Bytes.blit_front (by omega)]

theorem setBitmap_last {d : Bytes} (ptr : ∀ a, 8 * words ≤ a → d a = bitmapFrame v a)
    (last : v.LastBitmap) : (v.tick.setBlock v.superblock.inodeMaskPtr d).LastBitmap := by
  have same : getPtr ((v.tick.setBlock v.superblock.inodeMaskPtr d).disk.block
      v.superblock.inodeMaskPtr) = getPtr (bitmapFrame v) := by
    refine Bytes.readLE_congr fun k kLt => ?_
    rw [setBlock_disk, Bytes.setBlock_same (by simp only [words]; omega), ptr _ (by omega)]
  exact same.trans (getPtr_bitmapFrame last)

theorem setBitmap_bit {d : Bytes} {i : Nat} (iLt : i < inodesPerBitmask) :
    (v.tick.setBlock v.superblock.inodeMaskPtr d).inodeBit i = d.bit i := by
  refine bit_setBlock ?_
  simp only [inodesPerBitmask, groupSizeBlocks] at *
  omega

theorem read_bitmapFrame (h : v.HasBitmap) : partitionRead (v.superblock.inodeMaskPtr * blockSizeSectors)
    blockSizeSectors (v.frames 0) v.tick = some (bitmapFrame v, v.tick) :=
  partitionRead_block.mpr ⟨h.inside, rfl, rfl⟩

theorem allocateInode_run (h : v.HasBitmap) : allocateInode fuel v = allocateInodeLoop fuel v.superblock
      { data := bitmapFrame v, diskBlock := some v.superblock.inodeMaskPtr, changed := false } 0 v.tick := by
  have get : getSuperblock v.tick = some (v.superblock, v.tick) := rfl
  rw [allocateInode, WorkingBlock.new_bind, bind_of_eq_some get, if_neg h.ptr_ne, bind_of_eq_some (read_bitmapFrame h)]
  rfl

/-- While the first bitmap has a clear bit, the lowest one is taken and returned. -/
structure TakesLowest (v : Rfs2) (e : Nat) (v' : Rfs2) : Prop where
  lt : e < inodesPerBitmask
  clear : v.inodeBit e = false
  below : ∀ i, i < e → v.inodeBit i = true
  frame : Frame {v.superblock.inodeMaskPtr} v v'
  bits : ∀ i, i < inodesPerBitmask → v'.inodeBit i = if i = e then true else v.inodeBit i
  last : v.LastBitmap → v'.LastBitmap

theorem findEmpty_bitmapFrame {e : Nat} (h : findEmpty (bitmapFrame v) = some e) :
    e < inodesPerBitmask ∧ v.inodeBit e = false ∧ ∀ i < e, v.inodeBit i = true := by
  obtain ⟨-, lt, clear, below⟩ := Bitmask.findEmptyFrom_some h
  have eLt : e < inodesPerBitmask := by
    simp only [words, inodesPerBitmask] at *
    omega
  refine ⟨eLt, bit_bitmapFrame eLt ▸ clear, fun i iLt => ?_⟩
  rw [← bit_bitmapFrame (iLt.trans eLt)]
  exact below i (by omega) iLt

theorem allocateInode_room (h : v.HasBitmap) (room : v.HasRoom) :
    ∃ e v', TakesLowest v e v' ∧ ∀ fuel, allocateInode (fuel + 1) v = some (e, v') := by
  cases find : findEmpty (bitmapFrame v) with
  | none =>
    obtain ⟨i, iLt, clear⟩ := room
    have isSet := Bitmask.findEmptyFrom_none find i (by omega) (by
      simp only [words, inodesPerBitmask] at *
      omega)
    rw [← bit_bitmapFrame iLt, isSet] at clear
    cases clear
  | some e =>
    obtain ⟨eLt, clear, below⟩ := findEmpty_bitmapFrame find
    refine ⟨e, v.tick.setBlock v.superblock.inodeMaskPtr (InodeBtmask.set e (bitmapFrame v)),
      ⟨eLt, clear, below, Frame.of_tick (Frame.setBlock (Set.mem_singleton _)), ?_, ?_⟩, ?_⟩
    · intro i iLt
      rw [setBitmap_bit iLt, InodeBtmask.set, Bitmask.bit_set, bit_bitmapFrame iLt]
    · exact setBitmap_last fun a aLe => Bytes.writeLE_outside (by
        have := (Bitmask.findEmptyFrom_some find).2.1
        omega)
    intro fuel
    have small : (0 * inodesPerBitmask + e) % 2 ^ 32 = e := by
      simp only [inodesPerBitmask] at eLt ⊢
      omega
    rw [allocateInode_run h]
    simp only [allocateInodeLoop, find, WorkingBlock.getAsMut]
    exact bind_eq_some.mpr ⟨(), _, writeAndDealloc_eq_some.mpr ⟨h.inside, rfl⟩, by rw [small]; rfl⟩

theorem releaseInode_first (h : v.HasBitmap) {index : Nat} (indexLt : index < inodesPerBitmask) :
    ∃ v', releaseInode index v = some ((), v') ∧ Frame {v.superblock.inodeMaskPtr} v v' ∧
      (∀ i < inodesPerBitmask, v'.inodeBit i = if i = index then false else v.inodeBit i) ∧
      (v.LastBitmap → v'.LastBitmap) := by
  have get : getSuperblock v.tick = some (v.superblock, v.tick) := rfl
  refine ⟨v.tick.setBlock v.superblock.inodeMaskPtr (InodeBtmask.clear index (bitmapFrame v)), ?_,
    Frame.of_tick (Frame.setBlock (Set.mem_singleton _)), ?_, ?_⟩
  · have chain : followChain (index / inodesPerBitmask)
        { data := v.frames 0, diskBlock := none, changed := false } v.superblock.inodeMaskPtr v.tick =
        some (({ data := v.frames 0, diskBlock := none, changed := false }, v.superblock.inodeMaskPtr), v.tick) := by
      rw [Nat.div_eq_of_lt indexLt]
      rfl
    simp only [releaseInode]
    rw [WorkingBlock.new_bind, bind_of_eq_some get, bind_of_eq_some chain]
    rw [if_neg h.ptr_ne, bind_of_eq_some (read_bitmapFrame h), Nat.mod_eq_of_lt indexLt]
    exact writeAndDealloc_eq_some.mpr ⟨h.inside, rfl⟩
  · intro i iLt
    rw [setBitmap_bit iLt, InodeBtmask.clear, Bitmask.bit_clear, bit_bitmapFrame iLt]
  · exact setBitmap_last fun a aLe => Bytes.writeLE_outside (by
      simp only [words, inodesPerBitmask] at *
      omega)

theorem HasBitmap.of_frame {S : Set Nat} (h : v.HasBitmap) (frame : Frame S v v') : v'.HasBitmap := by
  refine ⟨by rw [frame.superblock]; exact h.ptr_ne, ?_⟩
  have inside := h.inside
  simpa [HasBlock, frame.superblock, frame.size] using inside

end FirstBitmap

/-! ## Appending a bitmap -/

section Extension

variable {v v' : Rfs2} {fuel : Nat}

theorem findEmpty_new (d : Bytes) : findEmpty (d.blit 0 4096 InodeBtmask.new) = some 0 := by
  have bit : (d.blit 0 4096 InodeBtmask.new).bit 0 = false := by
    rw [bit_blit_block (by norm_num [groupSizeBlocks])]
    rfl
  cases find : findEmpty (d.blit 0 4096 InodeBtmask.new) with
  | none =>
    rw [Bitmask.findEmptyFrom_none find 0 (by omega) (by norm_num [words])] at bit
    cases bit
  | some r =>
    cases r with
    | zero => rfl
    | succ r =>
      rw [(Bitmask.findEmptyFrom_some find).2.2.2 0 (by omega) (by omega)] at bit
      cases bit

theorem findEmpty_full (full : ¬ v.HasRoom) : findEmpty (bitmapFrame v) = none := by
  cases find : findEmpty (bitmapFrame v) with
  | none => rfl
  | some e =>
    obtain ⟨eLt, clear, -⟩ := findEmpty_bitmapFrame find
    exact absurd ⟨e, eLt, clear⟩ full

def withBitmap (v : Rfs2) (b : Nat) : SuperBlock := { v.superblock with inodeMaskPtr := b }

/-- The call that finds the chain full: a block `b` is allocated, the old bitmap is linked to it,
the superblock points to `b` from then on, and bit 0 of the new bitmap is set. -/
theorem allocateInode_full {i : Nat} (h : v.HasBitmap) (full : ¬ v.HasRoom) (last : v.LastBitmap) :
    allocateInode (fuel + 2) v = some (i, v') ↔ ∃ b u w,
      allocateBlock v.tick = some (b, u) ∧ u.HasBlock v.superblock.inodeMaskPtr ∧ updateSuperblock (v.withBitmap b)
        (u.setBlock v.superblock.inodeMaskPtr (setPtr b (bitmapFrame v))) = some ((), w) ∧
      w.HasBlock b ∧ i = inodesPerBitmask ∧
      v' = w.setBlock b (InodeBtmask.set 0 ((setPtr b (bitmapFrame v)).blit 0 4096 InodeBtmask.new)) := by
  rw [allocateInode_run h]
  simp only [allocateInodeLoop, findEmpty_full full, getPtr_bitmapFrame last, if_true, findEmpty_new,
    WorkingBlock.getAsMut, WorkingBlock.assignToDiskBlock, bind_eq_some, ofOption_eq_some]
  constructor
  · rintro ⟨b, _, alloc, _, u, ⟨ptr, rfl⟩, ⟨⟩, _, link, ⟨⟩, w, update, ⟨⟩, _, write, ret⟩
    cases ptr
    cases ret
    obtain ⟨old, rfl⟩ := partitionWrite_block.mp link
    obtain ⟨new, rfl⟩ := writeAndDealloc_eq_some.mp write
    exact ⟨b, u, w, alloc, old, update, new, rfl, rfl⟩
  · rintro ⟨b, u, w, alloc, old, update, new, rfl, rfl⟩
    exact ⟨b, u, alloc, _, _, ⟨rfl, rfl⟩, (), _, partitionWrite_block.mpr ⟨old, rfl⟩, (), w, update, (), _,
      writeAndDealloc_eq_some.mpr ⟨new, rfl⟩, rfl⟩

theorem allocateInode_full_short (h : v.HasBitmap) (full : ¬ v.HasRoom) (last : v.LastBitmap) :
    allocateInode 1 v = none := by
  cases run : allocateInode 1 v with
  | none => rfl
  | some r =>
    rw [allocateInode_run h] at run
    simp only [allocateInodeLoop, findEmpty_full full, getPtr_bitmapFrame last, if_true, bind_eq_some,
      Prog.panic_run] at run
    obtain ⟨_, _, _, _, _, _, _, _, _, _, _, _, panic⟩ := run
    cases panic

end Extension

end MeowOs.Rfs2
