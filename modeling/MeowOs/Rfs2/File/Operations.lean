import MeowOs.Rfs2.BTree.Operations
import MeowOs.Rfs2.Inode

/-! # Files (`rfs2/operations/{read,write,increase_size,truncate,mod}.rs`)

A file of level 0 keeps its bytes in the seven sectors behind its header.  A
file of level 1 keeps 448 block pointers there, and at every further level the
pointers lead to blocks of 512 pointers more.

Buffers are lists of page frames; their contents are laid out one page after the
other.  A range from `allocate_contiguous` is one uninitialised string of bytes.
-/

namespace MeowOs.Rfs2

open MeowOs.Machine

def ptrsPerBlock : Nat := 4096 / 8

def ptrsInRoot : Nat := (blockSizeSectors - 1) * 512 / 8

def pointerAt (b : Bytes) (i : Nat) : Nat := b.readLE (8 * i) 8

def setPointerAt (i ptr : Nat) (b : Bytes) : Bytes := b.writeLE (8 * i) 8 ptr

def pointerSlice (range : Bytes) (first count : Nat) : List Nat :=
  (List.range' first count).map (pointerAt range)

structure Pages where
  addresses : List Nat
  data : Bytes

def readRootArea (fileRoot : Nat) (buffer : Bytes) : Prog Rfs2 Bytes :=
  partitionRead (fileRoot * blockSizeSectors + 1) (blockSizeSectors - 1) buffer

def writeRootArea (fileRoot : Nat) (buffer : Bytes) : Prog Rfs2 Unit :=
  partitionWrite (fileRoot * blockSizeSectors + 1) (blockSizeSectors - 1) buffer

/-! ## read.rs -/

def readRun (pages currPtr currIndex currSize : Nat) (buffer : Bytes) : Prog Rfs2 Bytes := do
  Prog.assert (currIndex + currSize ≤ pages)
  let data ← partitionRead (currPtr * blockSizeSectors) (currSize * blockSizeSectors)
    (buffer.shift (currIndex * 4096))
  return buffer.blit (currIndex * 4096) (currSize * 4096) data

/-- The loop of `read_locked_pointers`; a run is extended only by the block behind its first one. -/
def readPointersFrom (pages : Nat) : List Nat → Nat → Nat → Nat → Bytes → Prog Rfs2 Bytes
  | [], currPtr, currIndex, currSize, buffer => readRun pages currPtr currIndex currSize buffer
  | ptr :: pointers, currPtr, currIndex, currSize, buffer =>
    if ptr = currPtr + 1 then readPointersFrom pages pointers currPtr currIndex (currSize + 1) buffer
    else do
      let buffer ← readRun pages currPtr currIndex currSize buffer
      readPointersFrom pages pointers ptr (currIndex + currSize) 1 buffer

def readLockedPointers (pointers : List Nat) (pages : Nat) (buffer : Bytes) : Prog Rfs2 Bytes :=
  match pointers with
  | [] => Prog.panic
  | ptr :: pointers => readPointersFrom pages pointers ptr 0 1 buffer

/-- The `loop` of `read_locked`, by the number of levels below the pointers in `range`.  On all levels but the last
`current_range = …` gives the range back before its pointers are read: what they are then is up to its next owner. -/
def readLevels (pages firstBlock lastBlock : Nat) (buffer : Bytes) : Nat → Bytes → Nat → Prog Rfs2 Bytes
  | levelDiff, range, skippedBlocks =>
    let ptrBlocks := ptrsPerBlock ^ levelDiff
    let firstPtr := (firstBlock - skippedBlocks) / ptrBlocks
    let lastPtr := (lastBlock - skippedBlocks) / ptrBlocks
    let ptrsToRead := lastPtr + 1 - firstPtr
    match levelDiff with
    | 0 => readLockedPointers (pointerSlice range firstPtr ptrsToRead) pages buffer
    | levelDiff + 1 => do
      let range ← allocateFrame
      let reused ← allocateFrame
      let range ← readLockedPointers (pointerSlice reused firstPtr ptrsToRead) ptrsToRead range
      readLevels pages firstBlock lastBlock buffer levelDiff range (skippedBlocks + ptrBlocks * firstPtr)

def readLocked (fileRoot offsetBlocks sizeBytes : Nat) (buffer : Pages) :
    Prog Rfs2 (Except KernelErrorCode (Nat × Bytes)) := do
  if sizeBytes = 0 then
    return .ok (0, buffer.data)
  if (sizeBytes + 4095) / 4096 > buffer.addresses.length then
    return .error .invalidArgument
  let fileInfo ← getFileInfo fileRoot
  if offsetBlocks * 4096 > fileInfo.size then
    return .ok (0, buffer.data)
  let workingBlock ← allocateFrame
  let workingBlock ← readRootArea fileRoot workingBlock
  if fileInfo.levels = 0 then
    return .ok (min fileInfo.size sizeBytes, buffer.data.blit 0 sizeBytes workingBlock)
  let firstBlock := offsetBlocks
  let lastBlock := min (offsetBlocks + (sizeBytes - 1) / 4096) ((fileInfo.size - 1) / 4096)
  let data ← readLevels buffer.addresses.length firstBlock lastBlock buffer.data (fileInfo.levels - 1)
    workingBlock 0
  return .ok ((lastBlock + 1 - firstBlock) * 4096, data)

/-! ## increase_size.rs -/

/-- `while needed_blocks > PTRS_IN_ROOT`; shared by `increase_file_size` and `truncate_locked`. -/
def neededLevels (neededBlocks levels : Nat) : Nat :=
  if h : ptrsInRoot < neededBlocks then
    have : (neededBlocks + (ptrsPerBlock - 1)) / ptrsPerBlock < neededBlocks := by
      have root : ptrsInRoot = 448 := rfl
      have block : ptrsPerBlock = 512 := rfl
      rw [block]
      omega
    neededLevels ((neededBlocks + (ptrsPerBlock - 1)) / ptrsPerBlock) (levels + 1)
  else levels
termination_by neededBlocks

/-- The search returns the pointer it finds, a zero, and not its index. -/
def lastPtr (block : Bytes) : Nat :=
  ((pointerSlice block 0 ptrsPerBlock).find? (· == 0)).getD 512 - 1

/-- `for i in last_ptr..end`, with `n` indices to go: a missing pointer is allocated, and `grow` adds
blocks below it until none is left to allocate. -/
def growPointers (grow : Nat → Nat → Bool → Prog Rfs2 Nat) (subtract : Nat → Nat → Prog Rfs2 Nat) :
    Nat → Nat → Nat → Nat → Bytes → Prog Rfs2 (Nat × Bytes)
  | 0, _, _, allocated, block => pure (allocated, block)
  | n + 1, i, leftToAllocate, allocated, block => do
    let isNewBlock := pointerAt block i == 0
    let block ← if isNewBlock then do
        let newBlock ← allocateBlock
        pure (setPointerAt i newBlock block)
      else pure block
    let allocatedHere ← grow (pointerAt block i) leftToAllocate isNewBlock
    let leftToAllocate ← subtract leftToAllocate allocatedHere
    if leftToAllocate = 0 then
      return (allocated + allocatedHere, block)
    growPointers grow subtract n (i + 1) leftToAllocate (allocated + allocatedHere) block

def increaseFileSizeRecursively : Nat → Nat → Nat → Bool → Prog Rfs2 Nat
  | 0, workingBlockPtr, _, newBlock => do
    if !newBlock then
      return 0
    let _ ← allocateFrame
    partitionWrite (workingBlockPtr * blockSizeSectors) blockSizeSectors Bytes.zero
    return 1
  | currentLevel + 1, workingBlockPtr, leftBlocksToAllocate, newBlock => do
    let workingBlock ← WorkingBlock.new
    let data ← if newBlock then pure (workingBlock.data.blit 0 4096 Bytes.zero)
      else partitionRead (workingBlockPtr * blockSizeSectors) blockSizeSectors workingBlock.data
    let (allocated, _) ← growPointers (increaseFileSizeRecursively currentLevel)
      (fun left here => pure (left - here)) (ptrsPerBlock - lastPtr data) (lastPtr data) leftBlocksToAllocate 0 data
    -- the pointers are not written back, and the working block goes out of scope
    workingBlock.drop
    return allocated

def depthLoop : Nat → Bytes → Prog Rfs2 Bytes
  | 0, workingBlock => pure workingBlock
  | n + 1, workingBlock => do
    let newBlock ← allocateBlock
    partitionWrite (newBlock * blockSizeSectors) blockSizeSectors workingBlock
    depthLoop n (setPointerAt 0 newBlock (workingBlock.blit 0 4096 Bytes.zero))

-- the levels of a file are far below 128, so the `i8` arithmetic is exact
def increaseFileDepth (fileRoot : Nat) (increaseBy : Int) : Prog Rfs2 Unit := do
  if increaseBy ≤ 0 then
    return
  let workingBlock ← WorkingBlock.new
  let data ← readRootArea fileRoot (workingBlock.data.blit 0 4096 Bytes.zero)
  let data ← depthLoop increaseBy.toNat data
  -- written to the start of the root block, header and all
  partitionWrite (fileRoot * blockSizeSectors) blockSizeSectors data
  { workingBlock with changed := true }.forgetMemBinding

/-- `left_to_allocate -= …` in `increase_file_size`; on the levels below the subtraction saturates. -/
def subtractChecked (left here : Nat) : Prog Rfs2 Nat := do
  Prog.assert (here ≤ left)
  return left - here

def increaseFileSize (fileRoot newSize : Nat) : Prog Rfs2 Unit := do
  let fileInfo ← getFileInfo fileRoot
  if newSize < (blockSizeSectors - 1) * 512 then
    setFileInfo fileRoot { fileInfo with size := newSize }
    return
  let currentBlocks := (fileInfo.size + 4095) / 4096
  let currentLevels := fileInfo.levels
  let neededBlocks := (newSize + 4095) / 4096
  if neededBlocks ≤ currentBlocks then
    return
  let needed := neededLevels neededBlocks 1
  increaseFileDepth fileRoot ((needed : Int) - currentLevels)
  let currentLevels := max currentLevels needed
  let workingBlock ← WorkingBlock.new
  let data ← readRootArea fileRoot workingBlock.data
  let (_, data) ← growPointers (increaseFileSizeRecursively (currentLevels - 1)) subtractChecked
    (ptrsInRoot - lastPtr data) (lastPtr data) (neededBlocks - currentBlocks) 0 data
  writeRootArea fileRoot data
  setFileInfo fileRoot { fileInfo with size := newSize, levels := currentLevels }
  { workingBlock with changed := true }.forgetMemBinding

/-! ## write.rs -/

def writePointers (buffer : Bytes) : List Nat → Nat → Nat → Prog Rfs2 Unit
  | [], _, _ => pure ()
  | _ :: _, _, 0 => pure ()
  | ptr :: ptrs, index, pages + 1 => do
    partitionWrite (ptr * blockSizeSectors) blockSizeSectors (buffer.shift (index * 4096))
    writePointers buffer ptrs (index + 1) pages

/-- The `loop` of `write_locked`, which gives its ranges back as `read_locked` does.  Other than there the blocks in
front of the first one are not taken off on the lower levels. -/
def writeLevels (buffer : Pages) (firstBlock lastBlock : Nat) : Nat → Bytes → Prog Rfs2 Unit
  | levelDiff, range =>
    let firstPtr := firstBlock / ptrsPerBlock ^ levelDiff
    let lastPtr := lastBlock / ptrsPerBlock ^ levelDiff
    let ptrsToRead := lastPtr + 1 - firstPtr
    match levelDiff with
    | 0 => writePointers buffer.data (pointerSlice range firstPtr ptrsToRead) 0 buffer.addresses.length
    | levelDiff + 1 => do
      let range ← allocateFrame
      let reused ← allocateFrame
      let range ← readLockedPointers (pointerSlice reused firstPtr ptrsToRead) ptrsToRead range
      writeLevels buffer firstBlock lastBlock levelDiff range

def writeLocked (fileRoot offsetBlocks sizeBytes : Nat) (buffer : Pages) : Prog Rfs2 (Except KernelErrorCode Nat) := do
  if sizeBytes = 0 then
    return .ok 0
  if (sizeBytes + 4095) / 4096 > buffer.addresses.length then
    return .error .invalidArgument
  increaseFileSize fileRoot (offsetBlocks * 4096 + sizeBytes)
  let fileInfo ← getFileInfo fileRoot
  let workingBlock ← allocateFrame
  let workingBlock ← readRootArea fileRoot workingBlock
  if fileInfo.levels = 0 then
    writeRootArea fileRoot buffer.data
    return .ok (min fileInfo.size sizeBytes)
  let firstBlock := offsetBlocks
  let lastBlock := min (offsetBlocks + sizeBytes / 4096) (fileInfo.size / 4096)
  writeLevels buffer firstBlock lastBlock (fileInfo.levels - 1) workingBlock
  return .ok ((lastBlock - firstBlock) * 4096)

/-! ## truncate.rs -/

/-- `for j in i..PTRS_PER_BLOCK`: give back the blocks up to the first missing one. -/
def releasePointers : Nat → Nat → Bytes → Prog Rfs2 Bytes
  | 0, _, block => pure block
  | n + 1, j, block =>
    if pointerAt block j = 0 then pure block
    else do
      releaseBlock (pointerAt block j)
      releasePointers n (j + 1) (setPointerAt j 0 block)

/-- The pointer loop of `truncate_locked` and `decrease_file_size_recursively`. -/
def shrinkPointers (shrink : Nat → Nat → Prog Rfs2 Unit) (ptrBlocks toKeep : Nat) :
    Nat → Nat → Nat → Bytes → Prog Rfs2 Bytes
  | 0, _, _, block => pure block
  | n + 1, i, scannedBlocks, block =>
    if pointerAt block i = 0 then pure block
    else if scannedBlocks + ptrBlocks < toKeep then
      shrinkPointers shrink ptrBlocks toKeep n (i + 1) (scannedBlocks + ptrBlocks) block
    else do
      shrink (pointerAt block i) (toKeep - scannedBlocks)
      if toKeep ≤ scannedBlocks + ptrBlocks then
        releasePointers (n + 1) i block
      else shrinkPointers shrink ptrBlocks toKeep n (i + 1) (scannedBlocks + ptrBlocks) block

def decreaseFileSizeRecursively : Nat → Nat → Nat → Prog Rfs2 Unit
  | 0, _, _ => pure ()
  | currentLevel + 1, blockPtr, leftToKeep => do
    let workingBlock ← WorkingBlock.new
    let data ← partitionRead (blockPtr * blockSizeSectors) blockSizeSectors workingBlock.data
    let data ← shrinkPointers (decreaseFileSizeRecursively currentLevel) (ptrsPerBlock ^ currentLevel) leftToKeep
      ptrsPerBlock 0 0 data
    partitionWrite (blockPtr * blockSizeSectors) blockSizeSectors data
    workingBlock.drop

def undepthLoop : Nat → Bytes → Prog Rfs2 Bytes
  | 0, workingBlock => pure workingBlock
  | n + 1, workingBlock => do
    let firstPtr := pointerAt workingBlock 0
    let workingBlock ← partitionRead (firstPtr * blockSizeSectors) blockSizeSectors workingBlock
    releaseBlock firstPtr
    undepthLoop n workingBlock

def decreaseFileDepth (fileRoot : Nat) (decreaseBy : Int) : Prog Rfs2 Unit := do
  if decreaseBy ≤ 0 then
    return
  let workingBlock ← WorkingBlock.new
  let data ← readRootArea fileRoot (workingBlock.data.blit 0 4096 Bytes.zero)
  let data ← undepthLoop decreaseBy.toNat data
  writeRootArea fileRoot data
  workingBlock.drop

def truncateLocked (fileRoot newSizeBytes : Nat) : Prog Rfs2 Unit := do
  let fileInfo ← getFileInfo fileRoot
  let currentBlocks := (fileInfo.size + 4095) / 4096
  let currentLevels := fileInfo.levels
  let neededBlocks := (newSizeBytes + 4095) / 4096
  if neededBlocks ≥ currentBlocks then
    return
  let needed := if newSizeBytes ≤ (blockSizeSectors - 1) * 512 then 0 else neededLevels neededBlocks 1
  decreaseFileDepth fileRoot ((currentLevels : Int) - needed)
  let currentLevels := min currentLevels needed
  if currentLevels = 0 then
    setFileInfo fileRoot { fileInfo with size := newSizeBytes, levels := 0 }
    return
  let workingBlock ← WorkingBlock.new
  let data ← readRootArea fileRoot workingBlock.data
  let data ← shrinkPointers (decreaseFileSizeRecursively (currentLevels - 1)) (ptrsPerBlock ^ (currentLevels - 1))
    neededBlocks ptrsPerBlock 0 0 data
  writeRootArea fileRoot data
  setFileInfo fileRoot { fileInfo with size := newSizeBytes, levels := currentLevels }
  { workingBlock with changed := true }.forgetMemBinding

/-! ## The file system's `read` and `write` -/

inductive FileReadResult where
  | normal | temporaryEof | permanentEof | invalid
  deriving DecidableEq, Repr

/-- `vfs::Inode`, without the device and the extra data of other file systems. -/
structure VfsInode where
  index : Nat
  typeMode : Nat
  linkCnt : Nat
  uid : Nat
  gid : Nat
  size : Nat
  accessTime : Nat
  modificationTime : Nat
  statChangeTime : Nat
  internalSynchronization : Bool
  requiresAlignedPosition : Bool
  deriving DecidableEq, Repr

def InodeInfo.intoVfs (info : InodeInfo) (index : Nat) : VfsInode where
  index := index
  typeMode := info.typeFlags
  linkCnt := info.linkCount
  uid := info.ownerUid
  gid := info.ownerGid
  size := info.size
  accessTime := 0
  modificationTime := info.modificationSecondsSinceEpoch
  statChangeTime := info.statChangeSecondsSinceEpoch
  internalSynchronization := false
  requiresAlignedPosition := true

def getFileRootBlock (fuel inodeIndex : Nat) : Prog Rfs2 (Except KernelErrorCode Nat) := do
  match ← BTreeNode.findInodeRoot fuel inodeIndex with
  | none => return .error .inodeNotPresent
  | some blockIndex => return .ok blockIndex

def read (fuel inode offsetBytes sizeBytes : Nat) (buffer : Pages) :
    Prog Rfs2 (Except KernelErrorCode (Nat × FileReadResult × Bytes)) := do
  if offsetBytes % 4096 ≠ 0 then
    Prog.panic
  if buffer.addresses.any (· % 4096 != 0) then
    return .error .invalidArgument
  match ← getFileRootBlock fuel (inode % 2 ^ 32) with
  | .error e => return .error e
  | .ok fileRoot =>
    match ← readLocked fileRoot (offsetBytes / 4096) sizeBytes buffer with
    | .error e => return .error e
    | .ok (read, data) => return .ok (read, .invalid, data)

def write (fuel inode offsetBytes size : Nat) (buffer : Pages) :
    Prog Rfs2 (Except KernelErrorCode (VfsInode × Nat)) := do
  if offsetBytes % 4096 ≠ 0 then
    Prog.panic
  if buffer.addresses.any (· % 4096 != 0) then
    return .error .invalidArgument
  match ← getFileRootBlock fuel (inode % 2 ^ 32) with
  | .error e => return .error e
  | .ok fileRoot =>
    match ← writeLocked fileRoot (offsetBytes / 4096) size buffer with
    | .error e => return .error e
    | .ok written =>
      let fileInfo ← getFileInfo fileRoot
      return .ok (fileInfo.intoVfs (inode % 2 ^ 32), written)

end MeowOs.Rfs2
