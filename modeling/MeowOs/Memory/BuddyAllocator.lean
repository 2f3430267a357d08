import MeowOs.Machine.Interleaving
import MeowOs.Memory.Heap

/-! # The physical page allocator

The allocator keeps one bit per page of RAM in the last level of an implicit
binary tree, and above it the conjunctions of the levels below, so that a clear
root means that some page is free.  The tree lives in physical memory, in pages
that `init` cuts off one of the usable regions of the bootloader's memory map.

Physical memory is modelled as a whole (`Bytes`): the tree is read and written
there, one byte at a time, and the owners of allocated pages write to the same
memory.  Recursions of the source carry a fuel argument; `none` is a panic or a
call that does not return.  The debug assertions of the source are compiled in
or out, by `debugAssertions`.
-/

namespace MeowOs.Memory.PhysicalAllocator

open MeowOs.Machine

/-! ## The memory map -/

def limineMemmapUsable : Nat := 0

def limineMemmapBootloaderReclaimable : Nat := 5

structure MemoryMapEntry where
  base : Nat
  length : Nat
  entryType : Nat
deriving DecidableEq, Repr

namespace MemoryMapEntry

def isUsable (entry : MemoryMapEntry) : Bool := entry.entryType == limineMemmapUsable

def canBeUsable (entry : MemoryMapEntry) : Bool :=
  entry.isUsable || entry.entryType == limineMemmapBootloaderReclaimable

def endAddr (entry : MemoryMapEntry) : Nat := entry.base + entry.length

end MemoryMapEntry

/-- The end of the last region that is or becomes usable; the sum must fit in 64 bits. -/
def findMaxRamAddress (memoryRegions : List MemoryMapEntry) : Option Nat :=
  memoryRegions.foldlM (fun highest region =>
    if region.canBeUsable then
      if region.endAddr < 2 ^ 64 then some region.endAddr else none
    else some highest) 0

def findMemRegionToShrink (memoryRegions : List MemoryMapEntry) (spaceNeededBytes : Nat) : Option Nat :=
  (memoryRegions.zipIdx.reverse.find? fun region =>
    region.1.isUsable && decide (spaceNeededBytes ≤ region.1.length)).map Prod.snd

def getBinaryTreeElementCnt (nPages : Nat) : Nat := 1 <<< log2RoundedUp nPages

/-! ## The tree -/

structure BuddyAllocator where
  nPages : Nat
  binaryTreeSize : Nat
  allocatedPages : Nat
  treeAllocator : Nat
deriving DecidableEq, Repr

namespace BuddyAllocator

def getAtIndex (self : BuddyAllocator) (memory : Bytes) (index : Nat) : Bool :=
  let num := memory (self.treeAllocator + index / 8)
  decide (num &&& (1 <<< UInt8.ofNat (index % 8)) > 0)

def setAtIndex (self : BuddyAllocator) (index : Nat) (allocated : Bool) (memory : Bytes) : Bytes :=
  let num := memory (self.treeAllocator + index / 8)
  let num := match allocated with
    | true => num ||| (1 <<< UInt8.ofNat (index % 8))
    | false => num &&& ~~~(1 <<< UInt8.ofNat (index % 8))
  Function.update memory (self.treeAllocator + index / 8) num

def updateAll (self : BuddyAllocator) (memory : Bytes) : Bytes :=
  loopDown (fun i memory =>
    self.setAtIndex i (self.getAtIndex memory (2 * i) && self.getAtIndex memory (2 * i + 1)) memory)
    1 (self.binaryTreeSize / 2 - 1) memory

def updateFromLower (self : BuddyAllocator) : Nat → Nat → Bytes → Option Bytes
  | 0, _, _ => none
  | fuel + 1, index, memory =>
    if index = 0 then some memory
    else
      let allAllocated := self.getAtIndex memory (2 * index) && self.getAtIndex memory (2 * index + 1)
      self.updateFromLower fuel (index / 2) (self.setAtIndex index allAllocated memory)

def updateFromHigher (self : BuddyAllocator) (allocated : Bool) : Nat → Nat → Bytes → Option Bytes
  | 0, _, _ => none
  | fuel + 1, index, memory =>
    if self.nPages + self.binaryTreeSize / 2 ≤ index then some memory
    else do
      let memory := self.setAtIndex index allocated memory
      let memory ← self.updateFromHigher allocated fuel (2 * index) memory
      self.updateFromHigher allocated fuel (2 * index + 1) memory

def markIndex (self : BuddyAllocator) (index : Nat) (allocated : Bool) (memory : Bytes) : Option Bytes := do
  let memory := self.setAtIndex index allocated memory
  let memory ← self.updateFromLower (index + 1) (index / 2) memory
  self.updateFromHigher allocated (self.nPages + self.binaryTreeSize) (2 * index) memory

/-! ## Searches -/

variable (debugAssertions : Bool)

/-- The two descents to an empty frame: `first` is the child tried first. -/
def findEmptyFrameRecursively (first second : Nat → Nat) (self : BuddyAllocator) (memory : Bytes) :
    Nat → Nat → Option Nat
  | 0, _ => none
  | fuel + 1, currIndex =>
    if self.binaryTreeSize / 2 ≤ currIndex then some currIndex
    else if debugAssertions && self.getAtIndex memory currIndex then none
    else if !self.getAtIndex memory (first currIndex) then
      findEmptyFrameRecursively first second self memory fuel (first currIndex)
    else findEmptyFrameRecursively first second self memory fuel (second currIndex)

def findEmptyFrame (first second : Nat → Nat) (self : BuddyAllocator) (memory : Bytes) : Option Nat :=
  if self.getAtIndex memory 1 then none
  else findEmptyFrameRecursively debugAssertions first second self memory (self.binaryTreeSize + 1) 1

def findEmptyFrameHigh : BuddyAllocator → Bytes → Option Nat :=
  findEmptyFrame debugAssertions (fun i => 2 * i + 1) (fun i => 2 * i)

def findEmptyFrameLow : BuddyAllocator → Bytes → Option Nat :=
  findEmptyFrame debugAssertions (fun i => 2 * i) (fun i => 2 * i + 1)

def checkAllEmpty (self : BuddyAllocator) (memory : Bytes) : Nat → Nat → Option Bool
  | 0, _ => none
  | fuel + 1, nodeIndex =>
    if self.binaryTreeSize / 2 ≤ nodeIndex then some !self.getAtIndex memory nodeIndex
    else if self.getAtIndex memory nodeIndex then some false
    else do
      if ← self.checkAllEmpty memory fuel (2 * nodeIndex) then
        self.checkAllEmpty memory fuel (2 * nodeIndex + 1)
      else some false

def getLastLevelIndex (self : BuddyAllocator) : Nat → Nat → Option Nat
  | 0, _ => none
  | fuel + 1, nodeIndex =>
    if nodeIndex < self.binaryTreeSize / 2 then self.getLastLevelIndex fuel (2 * nodeIndex)
    else some nodeIndex

def findContigiousEmptyRecursivelyHigh (self : BuddyAllocator) (memory : Bytes) (order : Nat) :
    Nat → Nat → Option (Option Nat)
  | 0, _ => none
  | fuel + 1, currIndex =>
    if self.binaryTreeSize / (1 <<< (order + 1)) ≤ currIndex then do
      if ← self.checkAllEmpty memory (self.binaryTreeSize + 1) currIndex then
        let index ← self.getLastLevelIndex (self.binaryTreeSize + 1) currIndex
        some (some index)
      else some none
    else if !self.getAtIndex memory (2 * currIndex + 1) then do
      match ← self.findContigiousEmptyRecursivelyHigh memory order fuel (2 * currIndex + 1) with
      | some index => some (some index)
      | none => self.findContigiousEmptyRecursivelyHigh memory order fuel (2 * currIndex)
    else self.findContigiousEmptyRecursivelyHigh memory order fuel (2 * currIndex)

def findContigiousEmptyHigh (self : BuddyAllocator) (memory : Bytes) (nPages : Nat) : Option Nat :=
  if nPages = 0 then some (self.binaryTreeSize / 2)
  else do
    ← self.findContigiousEmptyRecursivelyHigh memory (log2RoundedUp nPages) (self.binaryTreeSize + 1) 1

end BuddyAllocator

/-! ## Allocating and freeing -/

/-- The allocator behind its lock, and physical memory. -/
structure Frames where
  allocator : BuddyAllocator
  memory : Bytes

namespace Frames

variable (debugAssertions : Bool)

def reads {α : Type} (method : BuddyAllocator → Bytes → Option α) : Prog Frames α := fun s =>
  (method s.allocator s.memory).map fun a => (a, s)

def markIndex (index : Nat) (allocated : Bool) : Prog Frames Unit := fun s =>
  (s.allocator.markIndex index allocated s.memory).map fun memory => ((), { s with memory })

def allocateFrameBy (find : BuddyAllocator → Bytes → Option Nat) : Prog Frames Nat := do
  let s ← Prog.get
  Prog.assert (s.allocator.allocatedPages != s.allocator.binaryTreeSize / 2)
  Prog.modify fun s => { s with allocator := { s.allocator with allocatedPages := s.allocator.allocatedPages + 1 } }
  let index ← reads find
  markIndex index true
  pure ((index - s.allocator.binaryTreeSize / 2) * 4096)

def allocateFrame : Prog Frames Nat := allocateFrameBy (BuddyAllocator.findEmptyFrameHigh debugAssertions)

def allocateFrameLow : Prog Frames Nat := allocateFrameBy (BuddyAllocator.findEmptyFrameLow debugAssertions)

def allocateContiguius (nPages : Nat) : Prog Frames Nat := do
  let index ← reads fun allocator memory => allocator.findContigiousEmptyHigh memory nPages
  Prog.forUp (fun i => markIndex i true) index nPages
  Prog.modify fun s =>
    { s with allocator := { s.allocator with allocatedPages := s.allocator.allocatedPages + nPages } }
  let s ← Prog.get
  let address := (index - s.allocator.binaryTreeSize / 2) * 4096
  Prog.assert (!debugAssertions || decide (address ≤ s.allocator.nPages * 4096))
  pure address

def markAddr (addr : Nat) (allocated : Bool) : Prog Frames Unit := do
  Prog.assert (!debugAssertions || addr % 4096 == 0)
  let s ← Prog.get
  markIndex (addr / 4096 + s.allocator.binaryTreeSize / 2) allocated

def deallocateFrame (addr : Nat) : Prog Frames Unit := do
  markAddr debugAssertions addr false
  let s ← Prog.get
  Prog.assert (s.allocator.allocatedPages != 0)
  Prog.modify fun s => { s with allocator := { s.allocator with allocatedPages := s.allocator.allocatedPages - 1 } }

end Frames

structure PhysRange where
  start : Nat
  nPages : Nat
deriving DecidableEq, Repr

def PhysRange.getAddresses (range : PhysRange) : List Nat :=
  (List.range range.nPages).map fun i => range.start + i * 4096

def Frames.deallocate (debugAssertions : Bool) (range : PhysRange) : Prog Frames Unit :=
  if range.nPages = 0 ∨ range.start = 0 then pure ()
  else Prog.forUp (fun i => Frames.deallocateFrame debugAssertions (range.start + i * 4096)) 0 range.nPages

/-! ## Setting up -/

/-- The loop of `init` over the pages of one usable region. -/
def BuddyAllocator.clearRegion (self : BuddyAllocator) (entry : MemoryMapEntry) (memory : Bytes) : Bytes :=
  loopUp (fun k memory =>
    self.setAtIndex ((entry.base + k * 4096) / 4096 + self.binaryTreeSize / 2) false memory)
    0 (divCeil entry.length 4096) memory

/-- The loop of `init` over the memory map, with the number of pages it counts. -/
def BuddyAllocator.clearUsable (self : BuddyAllocator) (memoryRegions : List MemoryMapEntry) (memory : Bytes) :
    Nat × Bytes :=
  memoryRegions.foldl (fun done entry =>
    if !entry.isUsable then done
    else (done.1 + divCeil entry.length 4096, self.clearRegion entry done.2)) (0, memory)

/-- The second half of `init`: clear the leaves of the usable pages, then compute the inner nodes. -/
def Frames.setUp (nPages binaryTreeSizeElements treeAllocator : Nat) (memoryRegions : List MemoryMapEntry)
    (memory : Bytes) : Frames :=
  let allocator : BuddyAllocator :=
    { nPages, binaryTreeSize := binaryTreeSizeElements * 2, allocatedPages := 0, treeAllocator }
  let cleared := allocator.clearUsable memoryRegions memory
  let allocator := { allocator with allocatedPages := 0, nPages := cleared.1 }
  { allocator, memory := allocator.updateAll cleared.2 }

def MemoryMapEntry.shrink (region : MemoryMapEntry) (pages : Nat) : MemoryMapEntry :=
  { region with base := region.base + pages * 4096, length := region.length - pages * 4096 }

/-- The bytes of the tree are set to `0xFF`: everything is used at first. -/
def fillTree (treeAllocator spaceNeededBytes : Nat) (memory : Bytes) : Bytes :=
  loopUp (fun i memory => Function.update memory (treeAllocator + i) 0xFF) 0 spaceNeededBytes memory

def Frames.init (maxRamAddr : Nat) (memoryRegions : List MemoryMapEntry) (memory : Bytes) : Option Frames :=
  let nPages := maxRamAddr / 4096
  -- the logarithm of zero underflows
  if nPages = 0 then none
  else do
    let binaryTreeSizeElements := getBinaryTreeElementCnt nPages
    let spaceNeededBytes := binaryTreeSizeElements / 8 * 2
    let entryToShrink ← findMemRegionToShrink memoryRegions spaceNeededBytes
    let region ← memoryRegions[entryToShrink]?
    let allocatorPages := divCeil spaceNeededBytes 4096
    if region.length < allocatorPages * 4096 then none
    else
      let memory := fillTree region.base spaceNeededBytes memory
      let memoryRegions := memoryRegions.set entryToShrink (region.shrink allocatorPages)
      some (setUp nPages binaryTreeSizeElements region.base memoryRegions memory)

/-! ## The module behind its callers -/

/-- `MAX_RAM_ADDR`, the allocator and the allocations that have not been freed. -/
structure PhysicalMemory where
  maxRamAddr : Nat
  frames : Frames
  live : List PhysRange

namespace PhysicalMemory

variable (debugAssertions : Bool)

def init (memoryRegions : List MemoryMapEntry) (memory : Bytes) : Option PhysicalMemory := do
  let highest ← findMaxRamAddress memoryRegions
  let nPages := highest / 4096
  let maxRamAddr := nPages * 4096
  let frames ← Frames.init maxRamAddr memoryRegions memory
  some { maxRamAddr, frames, live := [] }

def isOnRam (s : PhysicalMemory) (addr : Nat) : Bool := decide (addr ≤ s.maxRamAddr)

def handOut (s : PhysicalMemory) (allocation : Prog Frames Nat) (nPages : Nat) : Option PhysicalMemory := do
  let (start, frames) ← allocation s.frames
  some { s with frames, live := s.live ++ [{ start, nPages }] }

/-- `_deallocate_by_ref`, which `drop` calls for a range that does not start at address 0. -/
def dropRange (s : PhysicalMemory) (range : PhysRange) : Option PhysicalMemory :=
  if range.start = 0 then some s
  else if range.nPages = 0 ∨ range.start = 0 then some s
  else if !s.isOnRam range.start then some s
  else do
    let (_, frames) ← Frames.deallocate debugAssertions range s.frames
    some { s with frames }

/-- What the kernel does with physical pages. -/
inductive Call where
  | allocate
  | reserveLow
  | allocateContiguous (nPages : UInt32)
  | free (position : Nat)
  /-- `break_into_individual`: the pages of an allocation get owners of their own. -/
  | breakIntoIndividual (position : Nat)
  | write (position page offset : Nat) (value : UInt8)
deriving DecidableEq, Repr

def step (s : PhysicalMemory) : Call → Option PhysicalMemory
  | .allocate => s.handOut (Frames.allocateFrame debugAssertions) 1
  | .reserveLow => s.handOut (Frames.allocateFrameLow debugAssertions) 1
  | .allocateContiguous nPages =>
    s.handOut (Frames.allocateContiguius debugAssertions nPages.toNat) nPages.toNat
  | .free position => do
    let range ← s.live[position]?
    dropRange debugAssertions { s with live := s.live.eraseIdx position } range
  | .breakIntoIndividual position => do
    let range ← s.live[position]?
    some { s with live := s.live.eraseIdx position ++ range.getAddresses.map fun start => { start, nPages := 1 } }
  | .write position page offset value => do
    let range ← s.live[position]?
    let start ← range.getAddresses[page]?
    if offset < 4096 then
      some { s with frames := { s.frames with memory := Function.update s.frames.memory (start + offset) value } }
    else none

end PhysicalMemory

end MeowOs.Memory.PhysicalAllocator
