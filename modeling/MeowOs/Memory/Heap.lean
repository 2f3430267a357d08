import MeowOs.Machine.Bytes
import MeowOs.Machine.Prog

/-! # The kernel heap

`Heap` keeps one `HeapAllocationData` for each object size from 16 to 1024
bytes.  Every page of a size class starts with a `HeapPageMetadata`; the rest of
it is cut into objects, and the free objects of all pages of a class form one
circular list threaded through their own first 16 bytes (`EmptyBlock`).  A
request of more than 1024 bytes is served by whole pages.

The state of the machine as the heap sees it is a `HeapRam`: the bytes of
memory, the pages that were obtained from the page allocator and not given back
yet, the address the page allocator gives to its next caller, and a log of every
range of bytes the heap writes.  Debug assertions and overflow checks are those
of the development profile: each of them stops the run.
-/

namespace MeowOs.Memory

open MeowOs.Machine
open Prog (assert modify)

def log2RoundedUp (num : Nat) : Nat :=
  if num = 1 then 0 else Nat.log2 (num * 2 - 1)

def divCeil (a b : Nat) : Nat := (a + b - 1) / b

structure HeapRam where
  bytes : Bytes
  held : Nat → Bool
  answer : Nat
  written : List (Nat × Nat)

namespace HeapRam

def load (addr w : Nat) : Prog HeapRam Nat := fun s => some (s.bytes.readLE addr w, s)

def store (addr w value : Nat) : Prog HeapRam Unit :=
  modify fun s =>
    { s with bytes := s.bytes.writeLE addr w value, written := (addr, w) :: s.written }

/-- `physical_allocator::allocate_contiguous(n_pages)`, seen through the direct map. -/
def allocatePages (nPages : Nat) : Prog HeapRam Nat := fun s =>
  some (s.answer, { s with
    held := fun q => (s.answer / 4096 ≤ q && q < s.answer / 4096 + nPages) || s.held q })

def deallocatePages (start nPages : Nat) : Prog HeapRam Unit :=
  modify fun s =>
    { s with held := fun q => !(start / 4096 ≤ q && q < start / 4096 + nPages) && s.held q }

end HeapRam

open HeapRam

/-! ## Free objects and page headers -/

def ptrToPrev (b : Bytes) (a : Nat) : Nat := b.readLE a 8

def ptrToNext (b : Bytes) (a : Nat) : Nat := b.readLE (a + 8) 8

structure HeapPageMetadata where
  sizeOrderOfObjects : Nat
  numberOfAllocations : Nat
  maxAllocations : Nat
  ptrToFirst : Nat
  ptrToLast : Nat

namespace HeapPageMetadata

/-- The header at the start of the page at `p` (`repr(C)`, 24 bytes). -/
def load (p : Nat) : Prog HeapRam HeapPageMetadata := do
  let sizeOrderOfObjects ← HeapRam.load p 1
  let numberOfAllocations ← HeapRam.load (p + 1) 1
  let maxAllocations ← HeapRam.load (p + 2) 1
  let ptrToFirst ← HeapRam.load (p + 8) 8
  let ptrToLast ← HeapRam.load (p + 16) 8
  pure ⟨sizeOrderOfObjects, numberOfAllocations, maxAllocations, ptrToFirst, ptrToLast⟩

def store (p : Nat) (metadata : HeapPageMetadata) : Prog HeapRam Unit := do
  HeapRam.store p 1 metadata.sizeOrderOfObjects
  HeapRam.store (p + 1) 1 metadata.numberOfAllocations
  HeapRam.store (p + 2) 1 metadata.maxAllocations
  HeapRam.store (p + 8) 8 metadata.ptrToFirst
  HeapRam.store (p + 16) 8 metadata.ptrToLast

def populateBlock (addrOfFirst sizeOfObject k : Nat) : Prog HeapRam Unit := do
  let i := addrOfFirst + k * sizeOfObject
  HeapRam.store i 8 (i - sizeOfObject)
  HeapRam.store (i + 8) 8 (i + sizeOfObject)
  assert (0x100 ≤ i - sizeOfObject && 0x100 ≤ i && 0x100 ≤ i + sizeOfObject)

/-- Link all objects of a fresh page into one circular list. -/
def populate (self : HeapPageMetadata) (pageAddr : Nat) : Prog HeapRam HeapPageMetadata := do
  let sizeOfObject := 2 ^ self.sizeOrderOfObjects
  let addrOfFirst := pageAddr + (4096 - sizeOfObject * self.maxAllocations)
  assert (pageAddr + 4096 < 2 ^ 64)
  -- `(addr_of_first..page_addr + 4096).step_by(size_of_object)`
  Prog.forUp (populateBlock addrOfFirst sizeOfObject) 0
    (divCeil (pageAddr + 4096 - addrOfFirst) sizeOfObject)
  let addrOfLast := pageAddr + 4096 - sizeOfObject
  HeapRam.store addrOfFirst 8 addrOfLast
  HeapRam.store (addrOfLast + 8) 8 addrOfFirst
  assert (0x100 ≤ addrOfFirst && 0x100 ≤ addrOfLast)
  pure { self with ptrToFirst := addrOfFirst, ptrToLast := addrOfLast }

end HeapPageMetadata

/-! ## One size class -/

structure HeapAllocationData where
  sizeOrderOfObjects : Nat
  freeObjects : Nat
  ptrToFirst : Nat

namespace HeapAllocationData

/-- The part of `allocate` that gets a new page when no object is free. -/
def refill (self : HeapAllocationData) : Prog HeapRam HeapAllocationData :=
  if self.freeObjects = 0 then do
    let newPage ← allocatePages 1
    let metadata : HeapPageMetadata :=
      { sizeOrderOfObjects := self.sizeOrderOfObjects
        numberOfAllocations := 0
        maxAllocations := (4096 - 24) / 2 ^ self.sizeOrderOfObjects % 256
        ptrToFirst := 0
        ptrToLast := 0 }
    let metadata ← metadata.populate newPage
    metadata.store newPage
    pure { self with freeObjects := metadata.maxAllocations, ptrToFirst := metadata.ptrToFirst }
  else pure self

def countAllocation (allocated : Nat) : Prog HeapRam Unit := do
  let page := allocated / 4096 * 4096
  let metadata ← HeapPageMetadata.load page
  assert (metadata.numberOfAllocations + 1 < 256)
  HeapRam.store (page + 1) 1 (metadata.numberOfAllocations + 1)
  if metadata.numberOfAllocations + 1 < metadata.maxAllocations then do
    let after ← HeapRam.load (allocated + 8) 8
    assert (0x100 ≤ after)
    HeapRam.store (page + 8) 8 after

def unlinkFirst (self : HeapAllocationData) : Prog HeapRam HeapAllocationData := do
  let allocated := self.ptrToFirst
  if self.freeObjects - 1 > 0 then do
    let before ← HeapRam.load allocated 8
    let after ← HeapRam.load (allocated + 8) 8
    HeapRam.store (before + 8) 8 after
    HeapRam.store after 8 before
    pure { self with freeObjects := self.freeObjects - 1, ptrToFirst := after }
  else pure { self with freeObjects := self.freeObjects - 1 }

def allocate (self : HeapAllocationData) : Prog HeapRam (Nat × HeapAllocationData) := do
  let self ← self.refill
  let allocated := self.ptrToFirst
  countAllocation allocated
  assert (1 ≤ self.freeObjects)
  let self ← self.unlinkFirst
  pure (allocated, self)

/-- The blocks between which a freed object of a class with free objects goes. -/
def neighbours (self : HeapAllocationData) (metadata : HeapPageMetadata) : Prog HeapRam (Nat × Nat) :=
  if metadata.maxAllocations = metadata.numberOfAllocations then do
    let beforeNextBlock ← HeapRam.load self.ptrToFirst 8
    pure (beforeNextBlock, self.ptrToFirst)
  else do
    let pastLastBlock ← HeapRam.load (metadata.ptrToLast + 8) 8
    pure (metadata.ptrToLast, pastLastBlock)

/-- The part of `deallocate` for a class with no free object. -/
def startList (self : HeapAllocationData) (metadata : HeapPageMetadata) (page addr : Nat) :
    Prog HeapRam HeapAllocationData := do
  HeapRam.store addr 8 addr
  HeapRam.store (addr + 8) 8 addr
  HeapRam.store (page + 8) 8 addr
  HeapRam.store (page + 16) 8 addr
  assert (1 ≤ metadata.numberOfAllocations)
  HeapRam.store (page + 1) 1 (metadata.numberOfAllocations - 1)
  pure { self with freeObjects := self.freeObjects + 1, ptrToFirst := addr }

/-- The part of `deallocate` for a class that has free objects. -/
def linkIn (self : HeapAllocationData) (metadata : HeapPageMetadata) (page addr : Nat) :
    Prog HeapRam HeapAllocationData := do
  let (lastBlock, pastLastBlock) ← self.neighbours metadata
  assert (1 ≤ metadata.numberOfAllocations)
  HeapRam.store (page + 1) 1 (metadata.numberOfAllocations - 1)
  let next ← HeapRam.load (lastBlock + 8) 8
  -- the back pointer is the page's last block even when that block is not the one in front
  HeapRam.store addr 8 metadata.ptrToLast
  HeapRam.store (addr + 8) 8 next
  HeapRam.store (lastBlock + 8) 8 addr
  HeapRam.store pastLastBlock 8 addr
  HeapRam.store (page + 16) 8 addr
  let lastPrev ← HeapRam.load lastBlock 8
  assert (0x100 ≤ lastPrev && 0x100 ≤ addr)
  pure { self with freeObjects := self.freeObjects + 1 }

def deallocate (self : HeapAllocationData) (addr : Nat) : Prog HeapRam HeapAllocationData := do
  let page := addr / 4096 * 4096
  let metadata ← HeapPageMetadata.load page
  if self.freeObjects = 0 then self.startList metadata page addr
  else self.linkIn metadata page addr

end HeapAllocationData

/-! ## The heap -/

structure Heap where
  allocationData : Nat → HeapAllocationData
  selfAddr : Nat

namespace Heap

def new (selfAddr : Nat) : Heap :=
  { allocationData := fun index => ⟨index + 4, 0, 0⟩, selfAddr }

def setClass (self : Heap) (index : Nat) (data : HeapAllocationData) : Heap :=
  { self with allocationData := Function.update self.allocationData index data }

def allocate (self : Heap) (size : Nat) : Prog HeapRam (Nat × Heap) :=
  if size = 0 then pure (self.selfAddr, self)
  else if size > 1024 then do
    let nOfPages := divCeil size 4096
    -- `n_pages as u32`
    let start ← allocatePages (nOfPages % 2 ^ 32)
    pure (start, self)
  else do
    let index := max 4 (log2RoundedUp size) - 4
    assert (index < 7)
    let (addr, data) ← (self.allocationData index).allocate
    pure (addr, self.setClass index data)

def deallocate (self : Heap) (addr size : Nat) : Prog HeapRam Heap :=
  if size = 0 then pure self
  else if size > 1024 then do
    deallocatePages (addr / 4096 * 4096) (divCeil size 4096)
    pure self
  else do
    let metadata ← HeapPageMetadata.load (addr / 4096 * 4096)
    assert (4 ≤ metadata.sizeOrderOfObjects)
    let index := metadata.sizeOrderOfObjects - 4
    assert (index < 7)
    let data ← (self.allocationData index).deallocate addr
    pure (self.setClass index data)

end Heap

end MeowOs.Memory
