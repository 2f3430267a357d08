import MeowOs.Machine.Prog
import MeowOs.Machine.SectorStore

/-! # RFS2 volumes (`rfs2/mod.rs`, `rfs2/superblock.rs`)

A mounted RFS2 volume is its partition, the cached superblock and the contents
of the page frames the physical allocator will hand out next: the code works in
frames it does not clear, so their contents are part of what it computes with.
`InodeIndex` (a `u32`) and `BlockPtr` (a `u64`) are numbers.  Locks are left
out, every operation below runs alone.

The partition is a store that gives back what was written last, and all results
on RFS2 are over such a device.  `MountedPartition::write` is not one: with
`USE_CACHE` it enters every sector of a write under the number of the first.

A `WorkingBlock` that goes out of scope without `writeAndDealloc` or
`forgetMemBinding` panics in its destructor; where the source lets one fall out
of scope, the model calls `WorkingBlock.drop`.
-/

namespace MeowOs.Rfs2

open MeowOs.Machine

def blockSizeSectors : Nat := 8

def groupSizeBlocks : Nat := 4096 * 8

def rootInodeIndex : Nat := 2

/-! ## The superblock -/

structure SuperBlock where
  inodeMaskPtr : Nat
  inodeTreeRootPtr : Nat
  fsSize : Nat
  rootInodeIndex : Nat
  checksum : Nat
  deriving DecidableEq, Repr

namespace SuperBlock

/-- The record as it lies in memory (`repr(C)`), written over `b`. -/
def store (sb : SuperBlock) (b : Bytes) : Bytes :=
  ((((b.writeLE 0 8 sb.inodeMaskPtr).writeLE 8 8 sb.inodeTreeRootPtr).writeLE 16 8 sb.fsSize).writeLE
    24 4 sb.rootInodeIndex).writeLE 28 4 sb.checksum

def load (b : Bytes) : SuperBlock where
  inodeMaskPtr := b.readLE 0 8
  inodeTreeRootPtr := b.readLE 8 8
  fsSize := b.readLE 16 8
  rootInodeIndex := b.readLE 24 4
  checksum := b.readLE 28 4

def xorWords (sb : SuperBlock) : Nat :=
  loopUp (fun i acc => acc ^^^ (sb.store Bytes.zero).readLE (4 * i) 4) 0 8 0

def checkChecksum (sb : SuperBlock) : Bool := sb.xorWords == 0

def calculateChecksum (sb : SuperBlock) : SuperBlock :=
  { sb with checksum := { sb with checksum := 0 }.xorWords }

end SuperBlock

end MeowOs.Rfs2

/-! ## The volume and its partition -/

open MeowOs.Machine in
structure MeowOs.Rfs2 where
  partition : SectorStore
  superblock : Rfs2.SuperBlock
  frames : Nat → Bytes

namespace MeowOs.Rfs2

open MeowOs.Machine Prog

abbrev disk (v : Rfs2) : Bytes := v.partition.bytes

-- `blocks` and `groups` are set once by `Rfs2::new`, from the sector count cut to 32 bits
def blocks (v : Rfs2) : Nat := v.partition.sizeSectors % 2 ^ 32 / blockSizeSectors

def groups (v : Rfs2) : Nat := (v.blocks + (groupSizeBlocks - 1)) / groupSizeBlocks

def tick (v : Rfs2) : Rfs2 := { v with frames := fun i => v.frames (i + 1) }

/-- `physical_allocator::allocate()`: the next frame, with whatever it holds. -/
def allocateFrame : Prog Rfs2 Bytes := fun v => some (v.frames 0, v.tick)

def partitionRead (sector count : Nat) (buffer : Bytes) : Prog Rfs2 Bytes := fun v =>
  (v.partition.read sector count buffer).map fun b => (b, v)

def partitionWrite (sector count : Nat) (buffer : Bytes) : Prog Rfs2 Unit := fun v =>
  (v.partition.write sector count buffer).map fun p => ((), { v with partition := p })

/-! ## Working blocks -/

structure WorkingBlock where
  data : Bytes
  diskBlock : Option Nat
  changed : Bool

namespace WorkingBlock

def new : Prog Rfs2 WorkingBlock := do
  let frame ← allocateFrame
  return { data := frame, diskBlock := none, changed := false }

/-- `get_as_mut` followed by the assignments made through the reference. -/
def getAsMut (w : WorkingBlock) (f : Bytes → Bytes) : WorkingBlock :=
  { w with data := f w.data, changed := true }

def assignToDiskBlock (w : WorkingBlock) (block : Nat) (changed : Bool) : WorkingBlock :=
  { w with diskBlock := some block, changed := changed }

def writeAndDealloc (w : WorkingBlock) : Prog Rfs2 Unit :=
  match w.diskBlock with
  | some block =>
    if w.changed then partitionWrite (block * blockSizeSectors) blockSizeSectors w.data else pure ()
  | none => pure ()

def forgetMemBinding (w : WorkingBlock) : Prog Rfs2 Unit :=
  if w.diskBlock.isSome && w.changed then Prog.panic else pure ()

/-- `Drop for WorkingBlock`: "working block was not saved and forgotten". -/
def drop (_ : WorkingBlock) : Prog Rfs2 Unit := Prog.panic

end WorkingBlock

def getDiskBlock (diskBlock : Nat) : Prog Rfs2 WorkingBlock := do
  let block ← WorkingBlock.new
  let data ← partitionRead (diskBlock * blockSizeSectors) blockSizeSectors block.data
  return { block with data := data, diskBlock := some diskBlock }

/-- `Rfs2::new` mounts the partition and reads the first superblock copy. -/
def mount (partition : SectorStore) (frames : Nat → Bytes) : Option Rfs2 := do
  let block ← partition.read blockSizeSectors 1 (frames 0)
  return { partition, superblock := SuperBlock.load block, frames := fun i => frames (i + 1) }

/-- A partition of zeros, with empty frames. -/
def blankPartition (sizeSectors : Nat) : Rfs2 where
  partition := { bytes := Bytes.zero, sizeSectors }
  superblock := { inodeMaskPtr := 0, inodeTreeRootPtr := 0, fsSize := 0, rootInodeIndex := 0, checksum := 0 }
  frames := fun _ => Bytes.zero

/-! ## The superblock on disk -/

def getSuperblock : Prog Rfs2 SuperBlock := do
  let v ← Prog.get
  return v.superblock

def updateSuperblock (superblock : SuperBlock) : Prog Rfs2 Unit := do
  let superblock := superblock.calculateChecksum
  Prog.modify fun v => { v with superblock }
  let block ← WorkingBlock.new
  let block := block.getAsMut superblock.store
  let v ← Prog.get
  -- `self.groups - 1` overflows if there is no group
  Prog.assert (0 < v.groups)
  -- `(0..groups - 1).step_by(64)` has one index for every 64 groups begun
  Prog.forUp
    (fun k => partitionWrite ((1 + 64 * k * groupSizeBlocks) * blockSizeSectors) blockSizeSectors block.data)
    0 ((v.groups - 1 + 63) / 64)
  if v.groups % 64 = 1 ∧ (v.groups - 1) * groupSizeBlocks < v.blocks then
    partitionWrite ((1 + (v.groups - 1) * groupSizeBlocks) * blockSizeSectors) blockSizeSectors block.data
  block.forgetMemBinding

/-! ## What the accesses do -/

section Accesses

variable {v v' : Rfs2} {n sector count : Nat} {buffer : Bytes} {out : Bytes}

theorem partitionRead_eq_some : partitionRead sector count buffer v = some (out, v') ↔
    sector + count ≤ v.partition.sizeSectors ∧
      out = buffer.blit 0 (count * 512) (v.disk.shift (sector * 512)) ∧ v' = v := by
  simp only [partitionRead, Option.map_eq_some_iff, SectorStore.read_eq_some, Prod.mk.injEq]
  constructor
  · rintro ⟨b, ⟨size, rfl⟩, rfl, rfl⟩
    exact ⟨size, rfl, rfl⟩
  · rintro ⟨size, rfl, rfl⟩
    exact ⟨_, ⟨size, rfl⟩, rfl, rfl⟩

theorem partitionWrite_eq_some : partitionWrite sector count buffer v = some ((), v') ↔
    sector + count ≤ v.partition.sizeSectors ∧ v' = { v with partition :=
        { v.partition with bytes := v.disk.blit (sector * 512) (count * 512) buffer } } := by
  simp only [partitionWrite, Option.map_eq_some_iff, SectorStore.write_eq_some, Prod.mk.injEq, true_and]
  constructor
  · rintro ⟨p, ⟨size, rfl⟩, rfl⟩
    exact ⟨size, rfl⟩
  · rintro ⟨size, rfl⟩
    exact ⟨_, ⟨size, rfl⟩, rfl⟩

def setBlock (v : Rfs2) (n : Nat) (b : Bytes) : Rfs2 :=
  { v with partition := { v.partition with bytes := v.disk.setBlock n b } }

@[simp] theorem setBlock_disk (v : Rfs2) (n : Nat) (b : Bytes) : (v.setBlock n b).disk = v.disk.setBlock n b := rfl
@[simp] theorem setBlock_superblock (v : Rfs2) (n : Nat) (b : Bytes) : (v.setBlock n b).superblock = v.superblock := rfl
@[simp] theorem setBlock_sizeSectors (v : Rfs2) (n : Nat) (b : Bytes) :
    (v.setBlock n b).partition.sizeSectors = v.partition.sizeSectors := rfl

theorem setBlock_blockIs (v : Rfs2) (n : Nat) (b : Bytes) : Bytes.BlockIs (v.setBlock n b).disk n b :=
  fun _ aLt => Bytes.setBlock_same aLt

def HasBlock (v : Rfs2) (n : Nat) : Prop := n * 8 + 8 ≤ v.partition.sizeSectors

theorem partitionRead_block : partitionRead (n * blockSizeSectors) blockSizeSectors buffer v = some (out, v') ↔
      v.HasBlock n ∧ out = buffer.blit 0 4096 (v.disk.block n) ∧ v' = v := by
  have addr : n * 8 * 512 = n * 4096 := by omega
  rw [partitionRead_eq_some]
  simp [blockSizeSectors, HasBlock, Bytes.block, addr]

theorem partitionWrite_block : partitionWrite (n * blockSizeSectors) blockSizeSectors buffer v = some ((), v') ↔
      v.HasBlock n ∧ v' = v.setBlock n buffer := by
  have addr : n * 8 * 512 = n * 4096 := by omega
  rw [partitionWrite_eq_some]
  simp [blockSizeSectors, HasBlock, setBlock, Bytes.setBlock, addr]

theorem WorkingBlock.new_bind {α : Type} {f : WorkingBlock → Prog Rfs2 α} :
    (WorkingBlock.new >>= f) v = f { data := v.frames 0, diskBlock := none, changed := false } v.tick := rfl

theorem writeAndDealloc_eq_some {data : Bytes} :
    ({ data := data, diskBlock := some n, changed := true } : WorkingBlock).writeAndDealloc v = some ((), v') ↔
      v.HasBlock n ∧ v' = v.setBlock n data := by
  simp [WorkingBlock.writeAndDealloc, partitionWrite_block]

theorem getDiskBlock_eq_some {w : WorkingBlock} : getDiskBlock n v = some (w, v') ↔ v.HasBlock n ∧ v' = v.tick ∧
      w = { data := (v.frames 0).blit 0 4096 (v.disk.block n), diskBlock := some n, changed := false } := by
  simp only [getDiskBlock, bind_eq_some, WorkingBlock.new, allocateFrame, pure_run, Option.some.injEq, Prod.mk.injEq]
  constructor
  · rintro ⟨b, u, ⟨_, _, ⟨rfl, rfl⟩, rfl, rfl⟩, data, u', read, rfl, rfl⟩
    obtain ⟨size, rfl, rfl⟩ := partitionRead_block.mp read
    exact ⟨size, rfl, rfl⟩
  · rintro ⟨size, rfl, rfl⟩
    exact ⟨_, _, ⟨_, _, ⟨rfl, rfl⟩, rfl, rfl⟩, _, _, partitionRead_block.mpr ⟨size, rfl, rfl⟩, rfl, rfl⟩

end Accesses

/-! ## Frames: what an operation leaves alone -/

def IsGroupBitmap (b : Nat) : Prop := b % groupSizeBlocks = 0

def IsSuperblockCopy (b : Nat) : Prop := b % groupSizeBlocks = 1 ∧ b / groupSizeBlocks % 64 = 0

/-- `v'` has the cached superblock and the size of `v`, and its blocks but those in `S`. -/
structure Frame (S : Set Nat) (v v' : Rfs2) : Prop where
  superblock : v'.superblock = v.superblock
  size : v'.partition.sizeSectors = v.partition.sizeSectors
  same : ∀ n, n ∉ S → Bytes.SameBlock v.disk v'.disk n

theorem Frame.refl (S : Set Nat) (v : Rfs2) : Frame S v v :=
  ⟨rfl, rfl, fun _ _ => Bytes.SameBlock.refl _ _⟩

variable {S : Set Nat} {v v' : Rfs2}

theorem Frame.trans {v'' : Rfs2} (h : Frame S v v') (h' : Frame S v' v'') : Frame S v v'' :=
  ⟨h'.superblock.trans h.superblock, h'.size.trans h.size, fun n nNotMem => (h.same n nNotMem).trans (h'.same n nNotMem)⟩

theorem Frame.mono {T : Set Nat} (h : Frame S v v') (sub : S ⊆ T) : Frame T v v' :=
  ⟨h.superblock, h.size, fun n nNotMem => h.same n fun sMem => nNotMem (sub sMem)⟩

theorem Frame.setBlock {n : Nat} {b : Bytes} (nMem : n ∈ S) : Frame S v (v.setBlock n b) :=
  ⟨rfl, rfl, fun _ mNotMem => Bytes.setBlock_sameBlock fun h => mNotMem (h ▸ nMem)⟩

theorem Frame.of_tick (h : Frame S v.tick v') : Frame S v v' :=
  ⟨h.superblock, h.size, h.same⟩

theorem Frame.groups_eq (h : Frame S v v') : v'.groups = v.groups := by
  simp [groups, blocks, h.size]

def copyBlock (k : Nat) : Nat := 1 + 64 * k * groupSizeBlocks

theorem superblockCopy_index (k : Nat) : IsSuperblockCopy (copyBlock k) := by
  simp only [IsSuperblockCopy, copyBlock, groupSizeBlocks]
  omega

def copyCount (v : Rfs2) : Nat := (v.groups + 63) / 64

variable {sb : SuperBlock}

def writeCopy (v : Rfs2) (sb : SuperBlock) (n : Nat) : Prog Rfs2 Unit :=
  partitionWrite (n * blockSizeSectors) blockSizeSectors (sb.calculateChecksum.store (v.frames 0))

/-- The copy in a last group that stands alone is one more iteration of the loop. -/
theorem updateSuperblock_eq_some : updateSuperblock sb v = some ((), v') ↔ 0 < v.groups ∧
    forUp (fun k => v.writeCopy sb (copyBlock k)) 0 v.copyCount { v.tick with superblock := sb.calculateChecksum } =
      some ((), v') := by
  have run : updateSuperblock sb v = (do
      assert (0 < v.groups)
      forUp (fun k => v.writeCopy sb (copyBlock k)) 0 ((v.groups - 1 + 63) / 64)
      if v.groups % 64 = 1 ∧ (v.groups - 1) * groupSizeBlocks < v.blocks then
        v.writeCopy sb (1 + (v.groups - 1) * groupSizeBlocks)
      pure () : Prog Rfs2 Unit) { v.tick with superblock := sb.calculateChecksum } := rfl
  rw [run, assert_bind_eq_some, decide_eq_true_eq]
  refine and_congr_right fun pos => bind_eq_some.trans ?_
  by_cases one : v.groups % 64 = 1
  · have last : (v.groups - 1) * groupSizeBlocks < v.blocks := by
      simp only [groups, groupSizeBlocks] at pos ⊢
      omega
    have count : v.copyCount = (v.groups - 1 + 63) / 64 + 1 := by
      simp only [copyCount]
      omega
    have block : 1 + (v.groups - 1) * groupSizeBlocks = copyBlock (0 + (v.groups - 1 + 63) / 64) := by
      congr 2
      omega
    rw [count, forUp_succ_eq_some, ← block]
    simp only [one, last, and_self, if_true]
    constructor
    · rintro ⟨⟨⟩, t, loop, rest⟩
      obtain ⟨⟨⟩, u, write, ret⟩ := bind_eq_some.mp rest
      cases ret
      exact ⟨t, loop, write⟩
    · rintro ⟨t, loop, write⟩
      exact ⟨(), t, loop, bind_eq_some.mpr ⟨(), v', write, rfl⟩⟩
  · have count : v.copyCount = (v.groups - 1 + 63) / 64 := by
      simp only [copyCount]
      omega
    simp only [one, false_and, if_false, count]
    constructor
    · rintro ⟨⟨⟩, t, loop, ret⟩
      cases ret
      exact loop
    · exact fun loop => ⟨(), v', loop, rfl⟩

/-- A run writes the new superblock to its copies and to nothing else. -/
structure CopiesWritten (v : Rfs2) (sb : SuperBlock) (count : Nat) (v' : Rfs2) : Prop where
  frame : Frame {n | ∃ k, k < count ∧ n = copyBlock k} { v with superblock := sb.calculateChecksum } v'
  written : ∀ k, k < count → v.HasBlock (copyBlock k) ∧
    Bytes.BlockIs v'.disk (copyBlock k) (sb.calculateChecksum.store (v.frames 0))

theorem CopiesWritten.step {k : Nat} {u u' : Rfs2} (h : CopiesWritten v sb k u)
    (write : v.writeCopy sb (copyBlock k) u = some ((), u')) : CopiesWritten v sb (k + 1) u' := by
  obtain ⟨block, rfl⟩ := partitionWrite_block.mp write
  refine ⟨(h.frame.mono ?_).trans (Frame.setBlock ⟨k, Nat.lt_succ_self k, rfl⟩), fun i iLt => ?_⟩
  · rintro n ⟨i, iLt, rfl⟩
    exact ⟨i, by omega, rfl⟩
  by_cases same : i = k
  · subst same
    exact ⟨by simpa [HasBlock, h.frame.size] using block, setBlock_blockIs _ _ _⟩
  obtain ⟨inside, old⟩ := h.written i (by omega)
  have ne : copyBlock i ≠ copyBlock k := by
    simp only [copyBlock, groupSizeBlocks]
    omega
  exact ⟨inside, old.of_same (Bytes.setBlock_sameBlock ne)⟩

theorem CopiesWritten.start (v : Rfs2) (sb : SuperBlock) :
    CopiesWritten v sb 0 { v.tick with superblock := sb.calculateChecksum } :=
  ⟨⟨rfl, rfl, fun _ _ => Bytes.SameBlock.refl _ _⟩, nofun⟩

theorem updateSuperblock_writes (h : updateSuperblock sb v = some ((), v')) :
    0 < v.groups ∧ CopiesWritten v sb v.copyCount v' := by
  obtain ⟨pos, loop⟩ := updateSuperblock_eq_some.mp h
  have ends := forUp_eq_some_ind (CopiesWritten v sb) (fun _ _ _ _ _ => CopiesWritten.step) (.start v sb) loop
  exact ⟨pos, Nat.zero_add v.copyCount ▸ ends⟩

theorem updateSuperblock_spec (h : updateSuperblock sb v = some ((), v')) :
    Frame {n | IsSuperblockCopy n} { v with superblock := sb.calculateChecksum } v' :=
  (updateSuperblock_writes h).2.frame.mono fun _ ⟨k, _, kEq⟩ => kEq ▸ superblockCopy_index k

theorem updateSuperblock_total (sb : SuperBlock) (pos : 0 < v.groups)
    (copies : ∀ k < v.copyCount, v.HasBlock (copyBlock k)) : ∃ v', updateSuperblock sb v = some ((), v') := by
  obtain ⟨v', loop, -⟩ := forUp_total (CopiesWritten v sb) (fun k t _ kLt tCopiesWritten => by
    have block : t.HasBlock (copyBlock k) := by
      simpa [HasBlock, tCopiesWritten.frame.size] using copies k (Nat.zero_add v.copyCount ▸ kLt)
    have write : v.writeCopy sb (copyBlock k) t = some ((), t.setBlock (copyBlock k) _) :=
      partitionWrite_block.mpr ⟨block, rfl⟩
    exact ⟨_, write, tCopiesWritten.step write⟩) (.start v sb)
  exact ⟨v', updateSuperblock_eq_some.mpr ⟨pos, loop⟩⟩

end MeowOs.Rfs2
