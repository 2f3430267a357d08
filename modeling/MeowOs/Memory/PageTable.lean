import MeowOs.Machine.Prog

/-! # Page tables

A page table is a frame of 512 entries.  `TableMem` holds the entries of every
frame by the frame's physical address, the frames that the page allocator will
hand out next, which frames are handed out, how often each frame was given back,
and the direct map through which the kernel reaches a frame.

Table levels are numbered as in the source, from 4 at the root down to 1.
-/

namespace MeowOs.Memory

open MeowOs.Machine
open Prog (assert forUp modify panic)
open Function (update)

/-! ## Entries -/

namespace PageTableEntry

def present (e : Nat) : Bool := e.testBit 0

def hugePage (e : Nat) : Bool := e.testBit 7

def address (e : Nat) : Nat := e &&& 0xFFFFFFFFFF000

def clearPresent (e : Nat) : Nat := e / 2 * 2

def setPatWB (e : Nat) : Nat := e &&& 0xFFFFFFFFFFFFFFE7

/-- Its mask is 4 bits shorter than that of `address`. -/
def new (physAddress : Nat) (userMode : Bool) : Nat :=
  let entry := (physAddress &&& 0xFFFFFFFFF000) ||| 0b000000011 ||| 2 ^ 63
  setPatWB (if userMode then entry ||| 4 else entry)

end PageTableEntry

open PageTableEntry

/-- The higher-half direct map of physical memory, as the bootloader sets it up. -/
structure Hhdm where
  addr : Nat
  len : Nat
  higher : 2 ^ 64 - 2 ^ 47 ≤ addr
  fits : addr + len ≤ 2 ^ 64

structure TableMem where
  entries : Nat → Nat → Nat
  pool : List Nat
  inUse : Nat → Bool
  hhdm : Hhdm
  /-- The number of times each frame was given back; the allocator keeps no such count. -/
  frees : Nat → Nat := fun _ => 0

namespace TableMem

def entry (table index : Nat) : Prog TableMem Nat := fun s => some (s.entries table index, s)

def setEntry (table index value : Nat) : Prog TableMem Unit :=
  modify fun s =>
    { s with entries := update s.entries table (update (s.entries table) index value) }

def allocate : Prog TableMem Nat := fun s =>
  match s.pool with
  | [] => none
  | frame :: rest => some (frame, { s with pool := rest, inUse := update s.inUse frame true })

/-- `VirtAddr::from(PhysAddr)`, by which every table is reached, asserts `is_phys_in_hhdm`. -/
def direct (frame : Nat) : Prog TableMem Unit := fun s => if frame < s.hhdm.len then some ((), s) else none

def zeroFrame (frame : Nat) : Prog TableMem Unit := do
  direct frame
  modify fun s => { s with entries := update s.entries frame fun _ => 0 }

def free (frame : Nat) : Prog TableMem Unit :=
  modify fun s =>
    if frame = 0 then s
    else { s with
      inUse := update s.inUse frame false
      frees := update s.frees frame (s.frees frame + 1) }

end TableMem

open TableMem

def mapLeaf (table physAddr virtAddr startIndex i : Nat) : Prog TableMem Unit := do
  let e ← entry table i
  assert (!present e)
  let addrOffset := (i - startIndex) * 0x1000
  assert (physAddr + addrOffset < 2 ^ 64)
  setEntry table i (PageTableEntry.new (physAddr + addrOffset) false)
  assert (virtAddr + addrOffset < 2 ^ 64)

def lowerTable (table index : Nat) : Prog TableMem Nat := do
  let e ← entry table index
  if !present e then do
    let newFrame ← allocate
    zeroFrame newFrame
    setEntry table index (PageTableEntry.new newFrame false)
    pure newFrame
  else do
    assert (!hugePage e)
    direct (address e)
    pure (address e)

def mapLoop (lower : Nat → Nat → Nat → Nat → Nat → Prog TableMem ((Nat × Nat) × Nat))
    (table physAddr virtAddr nPages nodeVirt shift : Nat) :
    Nat → Nat → Nat → Option (Nat × Nat) → Prog TableMem (Option (Nat × Nat) × Nat)
  | 0, _, allocated, first => pure (first, allocated)
  | todo + 1, index, allocated, first =>
    if allocated < nPages then do
      let newTable ← lowerTable table index
      assert (physAddr + allocated * 0x1000 < 2 ^ 64)
      assert (virtAddr + allocated * 0x1000 < 2 ^ 64)
      let (first', newly) ← lower newTable (physAddr + allocated * 0x1000) (virtAddr + allocated * 0x1000)
        (nPages - allocated) (nodeVirt + index * 2 ^ shift)
      mapLoop lower table physAddr virtAddr nPages nodeVirt shift todo (index + 1) (allocated + newly)
        (first.or (some first'))
    else pure (first, allocated)

/-- The place of the first entry, and the number of mapped pages. -/
def kernelManualMap : Nat → Nat → Nat → Nat → Nat → Nat → Prog TableMem ((Nat × Nat) × Nat)
  | 0, _, _, _, _, _ => panic
  | level + 1, table, physAddr, virtAddr, nPages, nodeVirt => do
    assert (0 < nPages)
    assert (nodeVirt ≤ virtAddr)
    let startIndex := (virtAddr - nodeVirt) / 2 ^ (12 + 9 * level) % 512
    if level = 0 then do
      let maxIndex := min (startIndex + nPages) 512
      forUp (mapLeaf table physAddr virtAddr startIndex) startIndex (maxIndex - startIndex)
      pure ((table, startIndex), maxIndex - startIndex)
    else do
      let (first, allocated) ← mapLoop (kernelManualMap level) table physAddr virtAddr nPages nodeVirt
        (12 + 9 * level) (512 - startIndex) startIndex 0 none
      let first ← Prog.ofOption first
      pure (first, allocated)

/-! ## Unmapping -/

def unmapLeaf (table virtAddr startIndex i : Nat) : Prog TableMem Unit := do
  let e ← entry table i
  assert (present e)
  setEntry table i (clearPresent e)
  assert (virtAddr + (i - startIndex) * 0x1000 < 2 ^ 64)

def isEmpty (table : Nat) : Prog TableMem Bool := fun s =>
  some ((List.range 512).all fun i => !present (s.entries table i), s)

/-- An entry whose lower table has become empty is cleared, and the table is given back. -/
def dropEmpty (table index lower : Nat) : Prog TableMem Unit := do
  let empty ← isEmpty lower
  if empty then do
    let e ← entry table index
    setEntry table index (clearPresent e)
    free lower

def unmapLoop (lower : Nat → Nat → Nat → Nat → Prog TableMem Nat)
    (table virtAddr nPages nodeVirt shift : Nat) : Nat → Nat → Nat → Prog TableMem Nat
  | 0, _, freed => pure freed
  | todo + 1, index, freed =>
    if freed < nPages then do
      let e ← entry table index
      assert (present e)
      assert (!hugePage e)
      direct (address e)
      assert (virtAddr + freed * 0x1000 < 2 ^ 64)
      let newly ← lower (address e) (virtAddr + freed * 0x1000) (nPages - freed) (nodeVirt + index * 2 ^ shift)
      dropEmpty table index (address e)
      unmapLoop lower table virtAddr nPages nodeVirt shift todo (index + 1) (freed + newly)
    else pure freed

def kernelManualUnmap : Nat → Nat → Nat → Nat → Nat → Prog TableMem Nat
  | 0, _, _, _, _ => panic
  | level + 1, table, virtAddr, nPages, nodeVirt => do
    assert (0 < nPages)
    assert (nodeVirt ≤ virtAddr)
    let startIndex := (virtAddr - nodeVirt) / 2 ^ (12 + 9 * level) % 512
    if level = 0 then do
      let maxIndex := min (startIndex + nPages) 512
      forUp (unmapLeaf table virtAddr startIndex) startIndex (maxIndex - startIndex)
      pure (maxIndex - startIndex)
    else
      unmapLoop (kernelManualUnmap level) table virtAddr nPages nodeVirt (12 + 9 * level)
        (512 - startIndex) startIndex 0

/-! ## Translating -/

/-- The walk of `translate_virt_phys_addr` from the table of `level` at `pageAddr` on. -/
def translateFrom (entries : Nat → Nat → Nat) (addr : Nat) : Nat → Nat → Option Nat
  | 0, pageAddr => some (pageAddr + addr % 2 ^ 12)
  | level + 1, pageAddr =>
    let offset := addr / 2 ^ ((level + 1) * 9) % 2 ^ 12 / 8
    let pageEntry := entries pageAddr offset
    if !present pageEntry then none
    -- `final_mask` has lost 9 bits for every level so far
    else if hugePage pageEntry then some (address pageEntry + addr % 2 ^ (12 + 9 * level))
    else translateFrom entries addr level (address pageEntry)

/-- The walk reads its tables through the direct map, where all tables lie. -/
def translateVirtPhysAddr (hhdm : Hhdm) (entries : Nat → Nat → Nat) (addr root : Nat) : Option Nat :=
  if hhdm.addr ≤ addr ∧ addr < hhdm.addr + hhdm.len then some (addr - hhdm.addr)
  else translateFrom entries addr 4 root

def copyHigherHalf (existingTree newTree : Nat) : Prog TableMem Unit :=
  modify fun s =>
    { s with entries := update s.entries newTree fun i =>
        if 256 ≤ i ∧ i < 512 then s.entries existingTree i else s.entries newTree i }

def prepareEntry (root i : Nat) : Prog TableMem Unit := do
  let e ← entry root i
  if present e then pure ()
  else do
    let frame ← allocate
    zeroFrame frame
    setEntry root i (PageTableEntry.new frame false)

def prepareHigherHalf (root : Nat) : Prog TableMem Unit := forUp (prepareEntry root) 256 256

/-- A new page tree: `MemoryNamespace::create_empty` and the copy of the running tree's higher half. -/
def newTree (existingTree : Nat) : Prog TableMem Nat := do
  let root ← allocate
  zeroFrame root
  copyHigherHalf existingTree root
  pure root

end MeowOs.Memory
