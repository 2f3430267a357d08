import MeowOs.Machine.SwapRemove
import MeowOs.Memory.PageTable

/-! # Memory namespaces

A memory namespace is a page tree together with the list of regions mapped into
it; a region is a subtree of page tables that several namespaces may link.  The
memory system calls create regions, map and unmap pages in them, remove them and
copy whole namespaces.

The root table of a namespace is kept in the namespace, apart from the tables in
`TableMem`: the allocator hands out every frame once, so that no table below is
a root table.  An error code is `none` where the source has a `KernelError`, and
a system call that fails returns `u64::MAX`; that several calls still hold the
lock of the process when they store the return value is not modelled.
-/

namespace MeowOs.Memory

open MeowOs.Machine PageTableEntry TableMem
open Prog (assert forUp modify panic)

/-! ## Entry flags -/

namespace PageTableEntry

def setBit (e i : Nat) (value : Bool) : Nat := if e.testBit i = value then e else e ^^^ 2 ^ i

def writeable (e : Nat) : Bool := e.testBit 1

def noExecute (e : Nat) : Bool := e.testBit 63

def setWriteable (e : Nat) (value : Bool) : Nat := setBit e 1 value

def setNoExecute (e : Nat) (value : Bool) : Nat := setBit e 63 value

end PageTableEntry

/-! ## Ranges -/

inductive VirtualMemoryRangeCapacity where
  | c4KB | c2MB | c1GB | c05TB
  deriving DecidableEq

namespace VirtualMemoryRangeCapacity

def fromLevel : Nat → Option VirtualMemoryRangeCapacity
  | 0 => some c4KB
  | 1 => some c2MB
  | 2 => some c1GB
  | 3 => some c05TB
  | _ => none

def intoLevel : VirtualMemoryRangeCapacity → Nat
  | c4KB => 0
  | c2MB => 1
  | c1GB => 2
  | c05TB => 3

def size (c : VirtualMemoryRangeCapacity) : Nat := 4096 * 512 ^ c.intoLevel

-- the source masks with `!(size - 1)`; the size is a power of 2
def alignUp (c : VirtualMemoryRangeCapacity) (addr : Nat) : Nat := (addr + c.size - 1) / c.size * c.size

def alignDown (c : VirtualMemoryRangeCapacity) (addr : Nat) : Nat := addr / c.size * c.size

end VirtualMemoryRangeCapacity

inductive GrowDirection where
  | up | down
  deriving DecidableEq

inductive ManagementMode where
  | managed (grow : GrowDirection)
  | manual
  deriving DecidableEq

def ManagementMode.fromU64 (value : Nat) : Option ManagementMode :=
  match value / 2 ^ 32, value % 2 ^ 32 with
  | 0, 0 => some (.managed .up)
  | 0, 1 => some (.managed .down)
  | 0, _ => none
  | 1, _ => some .manual
  | _, _ => none

inductive MemoryRangeType where
  | stack | code | rwData | shared | staticData
  deriving DecidableEq

def MemoryRangeType.fromU32 : Nat → Option MemoryRangeType
  | 0 => some .stack
  | 1 => some .code
  | 2 => some .rwData
  | 3 => some .shared
  | 4 => some .staticData
  | _ => none

/-- A range; the number of its allocated pages is kept in the `Space`, by its `node`. -/
structure VirtualMemoryRange where
  node : Nat
  capacity : VirtualMemoryRangeCapacity
  perms : Nat
  mode : ManagementMode

namespace VirtualMemoryRange

def level (range : VirtualMemoryRange) : Nat := range.capacity.intoLevel

def create (capacity : VirtualMemoryRangeCapacity) (perms : Nat) (mode : ManagementMode) :
    Prog TableMem VirtualMemoryRange := do
  let tableAddr ← allocate
  zeroFrame tableAddr
  pure { node := tableAddr, capacity := capacity, perms := perms, mode := mode }

end VirtualMemoryRange

/-! ## Page tables of a range -/

namespace PageTable

/-- One iteration of the loop of `userspace_map`. -/
def userspaceMapEntry (lower : Nat → Nat → Prog TableMem Unit)
    (table perms tableLevel tablePageIndex pagesPerEntry i : Nat) : Prog TableMem Unit := do
  let e ← entry table i
  if tableLevel = 1 then
    if present e then pure ()
    else do
      let entryPhys ← allocate
      setEntry table i (setNoExecute (setWriteable (PageTableEntry.new entryPhys true) (perms.testBit 0))
        (!perms.testBit 1))
  else do
    if !present e then do
      let newFrame ← allocate
      zeroFrame newFrame
      setEntry table i (PageTableEntry.new newFrame true)
    else assert (!hugePage e)
    let e ← entry table i
    let e := setWriteable e (writeable e || perms.testBit 0)
    let e := setNoExecute e (noExecute e && !perms.testBit 1)
    setEntry table i e
    direct (address e)
    lower (address e) (tablePageIndex + i * pagesPerEntry)

def userspaceMap (start stop perms : Nat) : Nat → Nat → Nat → Prog TableMem Unit
  | 0, _, _ => panic
  | level + 1, table, tablePageIndex =>
    if stop ≤ start then pure ()
    else do
      let pagesPerEntry := 512 ^ level
      let startPage := max start tablePageIndex
      let endPage := min stop (tablePageIndex + pagesPerEntry * 512)
      assert (tablePageIndex ≤ endPage)
      let startIndex := (startPage - tablePageIndex) / pagesPerEntry
      let endIndex := (endPage - tablePageIndex + pagesPerEntry - 1) / pagesPerEntry
      forUp (userspaceMapEntry (userspaceMap start stop perms level) table perms (level + 1) tablePageIndex
        pagesPerEntry) startIndex (endIndex - startIndex)

/-- One iteration of the loop of `userspace_unmap`. -/
def userspaceUnmapEntry (lower : Nat → Nat → Prog TableMem Unit)
    (table tableLevel tablePageIndex pagesPerEntry i : Nat) : Prog TableMem Unit := do
  let e ← entry table i
  if !present e then pure ()
  -- the pages are collected in a vector that nobody reads
  else if tableLevel = 1 then setEntry table i 0
  else do
    assert (!hugePage e)
    direct (address e)
    lower (address e) (tablePageIndex + i * pagesPerEntry)
    let empty ← isEmpty (address e)
    if empty then do
      setEntry table i 0
      free (address e)

def userspaceUnmap (start stop : Nat) : Nat → Nat → Nat → Prog TableMem Unit
  | 0, _, _ => panic
  | level + 1, table, tablePageIndex =>
    if stop ≤ start then pure ()
    else do
      let pagesPerEntry := 512 ^ level
      let startPage := max start tablePageIndex
      let endPage := min stop (tablePageIndex + pagesPerEntry * 512)
      assert (tablePageIndex ≤ endPage)
      let startIndex := (startPage - tablePageIndex) / pagesPerEntry
      let endIndex := (endPage - tablePageIndex + pagesPerEntry - 1) / pagesPerEntry
      forUp (userspaceUnmapEntry (userspaceUnmap start stop level) table (level + 1) tablePageIndex
        pagesPerEntry) startIndex (endIndex - startIndex)

/-- What `set_prot` makes of an entry: above the pages, rights are only ever added. -/
def protEntry (perms tableLevel e : Nat) : Nat :=
  if tableLevel = 1 ∨ hugePage e = true then setNoExecute (setWriteable e (perms.testBit 0)) (!perms.testBit 1)
  else
    let e := setWriteable e (writeable e || perms.testBit 0)
    setNoExecute e (noExecute e && !perms.testBit 1)

/-- `PageTable::set_prot` on the addresses from `start` to `stop`. -/
def setProt (start stop perms : Nat) : Nat → Nat → Nat → Prog TableMem Unit
  | 0, _, _ => panic
  | level + 1, table, tableAddr =>
    if stop ≤ start then pure ()
    else do
      let bytesPerEntry := 512 ^ level * 4096
      let startAddr := max start tableAddr
      let endAddr := min stop (tableAddr + bytesPerEntry * 512)
      let startIndex := (startAddr - tableAddr) / bytesPerEntry
      let endIndex := (endAddr - tableAddr + bytesPerEntry - 1) / bytesPerEntry
      forUp (fun i => do
        let e ← entry table i
        if !present e then pure ()
        else do
          setEntry table i (protEntry perms (level + 1) e)
          if level + 1 = 1 ∨ hugePage e = true then pure ()
          else do
            direct (address e)
            setProt start stop perms level (address e) (tableAddr + i * bytesPerEntry)) startIndex (endIndex - startIndex)

def delete : Nat → Nat → Prog TableMem Unit
  | 0, _ => pure ()
  | 1, table => free table
  | level + 2, table => do
    direct table
    forUp (fun i => do
      let e ← entry table i
      if !present e || hugePage e then pure () else delete (level + 1) (address e)) 0 512
    free table

/-- What `get_page_table_entry` stores for a missing table. -/
def missingEntry (virtAddr newFrame : Nat) : Nat :=
  setNoExecute (setWriteable (PageTableEntry.new newFrame (decide (virtAddr < 2 ^ 48))) true) false

/-- The table and index of the entry at `desiredLevel`. -/
def getPageTableEntry (virtAddr desiredLevel : Nat) (allocateMissing : Bool) :
    Nat → Nat → Nat → Prog TableMem (Option (Nat × Nat))
  | 0, _, _ => panic
  | level + 1, table, nodeVirt => do
    assert (nodeVirt ≤ virtAddr)
    let index := (virtAddr - nodeVirt) / 2 ^ (12 + 9 * level) % 512
    if level + 1 = desiredLevel then pure (some (table, index))
    else do
      let e ← entry table index
      if !present e && !allocateMissing then pure none
      else do
        if !present e then do
          let newFrame ← allocate
          zeroFrame newFrame
          setEntry table index (missingEntry virtAddr newFrame)
        let e ← entry table index
        if hugePage e then pure none
        else do
          direct (address e)
          getPageTableEntry virtAddr desiredLevel allocateMissing level (address e)
            (nodeVirt + index * 2 ^ (12 + 9 * level))

end PageTable

/-! ## Namespaces -/

structure OwnedVirtualMemoryRange where
  sharedRange : VirtualMemoryRange
  name : String
  rangeType : MemoryRangeType
  mapAddress : Nat
  rangeId : Nat

def OwnedVirtualMemoryRange.stop (r : OwnedVirtualMemoryRange) : Nat :=
  r.mapAddress + r.sharedRange.capacity.size

structure MemoryNamespace where
  id : Nat
  pageTreeRoot : Nat
  top : Nat → Nat
  memoryRanges : List OwnedVirtualMemoryRange
  rangeCounter : Nat

namespace MemoryNamespace

inductive Place where
  | top (index : Nat)
  | below (table index : Nat)

def readPlace (ns : MemoryNamespace) : Place → Prog TableMem Nat
  | .top index => pure (ns.top index)
  | .below table index => entry table index

def writePlace (ns : MemoryNamespace) (value : Nat) : Place → Prog TableMem MemoryNamespace
  | .top index => pure { ns with top := Function.update ns.top index value }
  | .below table index => do
    setEntry table index value
    pure ns

def rootTable (ns : MemoryNamespace) (virtAddr index : Nat) : Prog TableMem MemoryNamespace :=
  if present (ns.top index) then pure ns
  else do
    let newFrame ← allocate
    zeroFrame newFrame
    pure { ns with top := Function.update ns.top index (PageTable.missingEntry virtAddr newFrame) }

def getPageTableEntryAtLevel (ns : MemoryNamespace) (virtAddr level : Nat) (allocateMissing : Bool) :
    Prog TableMem (MemoryNamespace × Option Place) := do
  assert (1 ≤ level && level ≤ 4)
  let index := virtAddr / 2 ^ 39 % 512
  if level = 4 then pure (ns, some (.top index))
  else if !present (ns.top index) && !allocateMissing then pure (ns, none)
  else do
    let ns ← rootTable ns virtAddr index
    if hugePage (ns.top index) then pure (ns, none)
    else do
      direct (address (ns.top index))
      let place ← PageTable.getPageTableEntry virtAddr level allocateMissing 3 (address (ns.top index))
        (index * 2 ^ 39)
      pure (ns, place.map fun p => .below p.1 p.2)

def illegalMap (ns : MemoryNamespace) (name : String) (start stop : Nat) : Bool :=
  ns.memoryRanges.any fun r => r.name == name || (decide (r.mapAddress < stop) && decide (start < r.stop))

/-- `add_mem_range`, with the namespace as it is afterwards and the id of the new region. -/
def addMemRange (ns : MemoryNamespace) (range : VirtualMemoryRange) (name : String) (rangeType : MemoryRangeType)
    (mapAddress : Nat) : Prog TableMem (MemoryNamespace × Option Nat) := do
  let stop := mapAddress + range.capacity.size
  -- as the development build has it; a release build goes on with the wrapped sum
  assert (stop < 2 ^ 64)
  -- "disallow mapping in kernel space"
  if 2 ^ 48 ≤ stop then pure (ns, none)
  else if ns.illegalMap name mapAddress stop then pure (ns, none)
  else do
    let (ns, place) ← getPageTableEntryAtLevel ns mapAddress (range.level + 1) true
    match place with
    | none => pure (ns, none)
    | some place => do
      let e ← readPlace ns place
      if present e then pure (ns, none)
      else do
        let ns ← writePlace ns (setWriteable (setNoExecute (PageTableEntry.new range.node true) false) true) place
        let counter := ns.rangeCounter
        assert (counter + 1 < 2 ^ 32)
        pure ({ ns with
          memoryRanges := ns.memoryRanges ++ [⟨range, name, rangeType, mapAddress, counter⟩]
          rangeCounter := counter + 1 }, some counter)

/-- The entry of a region is cleared, if it still leads to the region. -/
def clearEntry (ns : MemoryNamespace) (range : OwnedVirtualMemoryRange) : Prog TableMem MemoryNamespace := do
  let (ns, place) ← getPageTableEntryAtLevel ns range.mapAddress (range.sharedRange.level + 1) false
  match place with
  | none => pure ns
  | some place => do
    let e ← readPlace ns place
    if address e ≠ range.sharedRange.node then pure ns
    else writePlace ns 0 place

/-- What `remove_mem_range_by_id` and `remove_mem_range_by_name` find a region by. -/
inductive RegionKey where
  | id (rangeId : Nat)
  | name (name : String)

def RegionKey.matches : RegionKey → OwnedVirtualMemoryRange → Bool
  | .id wanted, r => r.rangeId == wanted
  | .name wanted, r => r.name == wanted

def removeMemRange (ns : MemoryNamespace) (key : RegionKey) :
    Prog TableMem (MemoryNamespace × Option OwnedVirtualMemoryRange) :=
  match ns.memoryRanges.findIdx? key.matches with
  | none => pure (ns, none)
  | some index =>
    match ns.memoryRanges[index]? with
    | none => panic
    | some range => do
      let ns ← clearEntry { ns with memoryRanges := swapRemove ns.memoryRanges index } range
      pure (ns, some range)

def removeMemRangeById (ns : MemoryNamespace) (id : Nat) :
    Prog TableMem (MemoryNamespace × Option OwnedVirtualMemoryRange) := ns.removeMemRange (.id id)

def setProt (ns : MemoryNamespace) (start stop perms : Nat) : Prog TableMem MemoryNamespace :=
  if stop ≤ start then pure ns
  else do
    let startIndex := start / 2 ^ 39
    let endIndex := (min stop (2 ^ 48) + 2 ^ 39 - 1) / 2 ^ 39
    forUp (fun i =>
      if !present (ns.top i) || hugePage (ns.top i) then pure ()
      else do
        direct (address (ns.top i))
        PageTable.setProt start stop perms 3 (address (ns.top i)) (i * 2 ^ 39)) startIndex (endIndex - startIndex)
    pure { ns with
      top := fun i =>
        if startIndex ≤ i ∧ i < endIndex ∧ present (ns.top i) = true then PageTable.protEntry perms 4 (ns.top i)
        else ns.top i }

/-- The `'repeat` loop of `find_hole` from `currentAddr` on. -/
def findHoleFrom (ns : MemoryNamespace) (size : VirtualMemoryRangeCapacity) : Nat → Nat → Option (Option Nat)
  | 0, _ => none
  | fuel + 1, currentAddr =>
    let start := size.alignUp currentAddr
    let stop := start + size.size
    if 2 ^ 48 ≤ stop then some none
    else match ns.memoryRanges.find? (fun r => decide (r.mapAddress < stop) && decide (start < r.stop)) with
      | some r => findHoleFrom ns size fuel r.stop
      | none => some (some start)

/-- Every round of its loop moves on by a page at least. -/
def findHole (ns : MemoryNamespace) (size : VirtualMemoryRangeCapacity) : Option (Option Nat) :=
  findHoleFrom ns size (2 ^ 36) 1

def getRangeFromAddress (ns : MemoryNamespace) (addr : Nat) : Option (VirtualMemoryRange × Nat) :=
  (ns.memoryRanges.find? fun r => decide (r.mapAddress ≤ addr) && decide (addr < r.stop)).map fun r =>
    (r.sharedRange, r.mapAddress)

def getRangeFromId (ns : MemoryNamespace) (id : Nat) : Option (VirtualMemoryRange × Nat) :=
  (ns.memoryRanges.find? fun r => r.rangeId == id).map fun r => (r.sharedRange, r.mapAddress)

def createEmpty (id : Nat) : Prog TableMem MemoryNamespace := do
  let pageTreeRoot ← allocate
  direct pageTreeRoot
  pure { id := id, pageTreeRoot := pageTreeRoot, top := fun _ => 0, memoryRanges := [], rangeCounter := 1 }

def addMemRanges : MemoryNamespace → List OwnedVirtualMemoryRange → Prog TableMem (MemoryNamespace × Bool)
  | ns, [] => pure (ns, true)
  | ns, r :: rest => do
    let (ns, res) ← addMemRange ns r.sharedRange r.name r.rangeType r.mapAddress
    match res with
    | none => pure (ns, false)
    | some _ => addMemRanges ns rest

def clearEntries : MemoryNamespace → List OwnedVirtualMemoryRange → Prog TableMem MemoryNamespace
  | ns, [] => pure ns
  | ns, r :: rest => do
    let ns ← clearEntry ns r
    clearEntries ns rest

def deletePageTable (ns : MemoryNamespace) : Prog TableMem Unit := do
  forUp (fun i =>
    if !present (ns.top i) || hugePage (ns.top i) then pure () else PageTable.delete 3 (address (ns.top i))) 0 512
  free ns.pageTreeRoot

/-- `Drop for MemoryNamespace`; the ranges themselves are still referenced elsewhere. -/
def drop (ns : MemoryNamespace) : Prog TableMem Unit := do
  let ns ← clearEntries { ns with memoryRanges := [] } ns.memoryRanges
  ns.deletePageTable

def createFrom (id : Nat) (other : MemoryNamespace) : Prog TableMem (Option MemoryNamespace) := do
  let newNamespace ← createEmpty id
  let (newNamespace, accepted) ←
    addMemRanges { newNamespace with rangeCounter := other.rangeCounter } other.memoryRanges
  if accepted then pure (some newNamespace)
  else do
    drop newNamespace
    pure none

end MemoryNamespace

/-! ## System calls -/

/-- The page tables, the page counts of the ranges, and the memory namespaces of a process by their id. -/
structure Space where
  tables : TableMem
  allocated : Nat → Nat
  namespaces : Nat → Option MemoryNamespace
  /-- The id of the namespace in use, which is also meant by the id 0. -/
  current : Nat
  namespaceIdCounter : Nat

namespace Space

def onTables {α : Type} (p : Prog TableMem α) : Prog Space α := fun sp =>
  (p sp.tables).map fun r => (r.1, { sp with tables := r.2 })

def getNamespace (id : Nat) : Prog Space (Option MemoryNamespace) := fun sp =>
  some (sp.namespaces (if id = 0 then sp.current else id), sp)

/-- `get_namespace_holder`, for which 0 is an id like any other. -/
def getNamespaceHolder (id : Nat) : Prog Space (Option MemoryNamespace) := fun sp => some (sp.namespaces id, sp)

def setNamespace (ns : MemoryNamespace) : Prog Space Unit :=
  modify fun sp => { sp with namespaces := Function.update sp.namespaces ns.id (some ns) }

def addPages (node n : Nat) : Prog Space Unit :=
  modify fun sp =>
    { sp with allocated := Function.update sp.allocated node (min (sp.allocated node + n) (2 ^ 32 - 1)) }

def removePages (node n : Nat) : Prog Space Unit :=
  modify fun sp => { sp with allocated := Function.update sp.allocated node (sp.allocated node - n) }

def failed : List Nat := [2 ^ 64 - 1]

structure MakeRegion where
  namespaceId : Nat
  startAddr : Nat
  sizeOrder : Nat
  permissions : Nat
  regionType : Nat
  managementMode : Nat
  /-- What the caller's memory holds for the name: `none` if it cannot be read or is not UTF-8. -/
  regionName : Option String

def MakeRegion.parse (args : MakeRegion) :
    Option (String × VirtualMemoryRangeCapacity × MemoryRangeType × ManagementMode) := do
  let regionName ← args.regionName
  let capacity ← VirtualMemoryRangeCapacity.fromLevel (args.sizeOrder % 2 ^ 8)
  let regionType ← MemoryRangeType.fromU32 (args.regionType % 2 ^ 32)
  let managementMode ← ManagementMode.fromU64 args.managementMode
  pure (regionName, capacity, regionType, managementMode)

/-- The address of a new region: the wanted one, or for 0 a hole. -/
def regionStart (ns : MemoryNamespace) (capacity : VirtualMemoryRangeCapacity) (startAddr : Nat) :
    Prog Space (Option Nat) :=
  if capacity.alignDown startAddr = 0 then Prog.ofOption (ns.findHole capacity)
  else pure (some (capacity.alignDown startAddr))

def makeRegion (args : MakeRegion) : Prog Space (List Nat) :=
  match args.parse with
  | none => pure failed
  | some (name, capacity, rangeType, mode) => do
    let ns ← getNamespace args.namespaceId
    match ns with
    | none => pure failed
    | some ns => do
      let start ← regionStart ns capacity args.startAddr
      match start with
      | none => pure failed
      | some start => do
        let range ← onTables (VirtualMemoryRange.create capacity (args.permissions % 2 ^ 8) mode)
        let (ns, res) ← onTables (ns.addMemRange range name rangeType start)
        setNamespace ns
        match res with
        | none => do
          -- the range is dropped again
          onTables (PageTable.delete range.level range.node)
          pure failed
        | some id => pure [id, start]

def dropRange (range : VirtualMemoryRange) : Prog Space Unit := fun sp =>
  if ∃ id, id < sp.namespaceIdCounter ∧ (sp.namespaces id).any (fun ns =>
    ns.memoryRanges.any fun r => r.sharedRange.node == range.node) = true then some ((), sp)
  else onTables (PageTable.delete range.level range.node) sp

def removeRegion (namespaceId regionId : Nat) : Prog Space (List Nat) := do
  let ns ← getNamespace namespaceId
  match ns with
  | none => pure failed
  | some ns => do
    let (ns, removed) ← onTables (ns.removeMemRangeById (regionId % 2 ^ 32))
    setNamespace ns
    match removed with
    | none => pure failed
    | some removed => do
      dropRange removed.sharedRange
      pure [0]

/-- The range that `mmap` and `munmap` mean, and the offset into it. -/
def selectRange (ns : MemoryNamespace) (regionId offset : Nat) : Option (VirtualMemoryRange × Nat) :=
  if regionId = 0 then (ns.getRangeFromAddress offset).map fun r => (r.1, offset - r.2)
  else (ns.getRangeFromId regionId).map fun r => (r.1, offset)

/-- The common part of `mmap` and `munmap`: `pages` works on the range from page `start` to page `stop`. -/
def onPages (pages : VirtualMemoryRange → Nat → Nat → Prog Space Bool)
    (namespaceId regionId offset numPages : Nat) : Prog Space (List Nat) := do
  let ns ← getNamespace namespaceId
  match ns.bind fun ns => selectRange ns (regionId % 2 ^ 32) offset with
  | none => pure failed
  | some (range, offset) => do
    let pagesStart := offset % 2 ^ 32 / 0x1000
    assert (pagesStart + numPages % 2 ^ 32 < 2 ^ 32)
    let ok ← pages range pagesStart (pagesStart + numPages % 2 ^ 32)
    pure (if ok then [0] else failed)

/-- The common part of `allocate_manual` and `free_manual`; the number of pages is a difference of `u32`s. -/
def manual (change : VirtualMemoryRange → Nat → Nat → Prog TableMem Unit) (count : Nat → Nat → Prog Space Unit)
    (range : VirtualMemoryRange) (start stop : Nat) : Prog Space Bool := do
  assert (start ≤ stop)
  if range.level = 0 then
    if start ≠ 0 ∨ stop ≠ 1 then pure false
    else do
      count range.node (stop - start)
      pure true
  else do
    onTables do
      direct range.node
      change range start stop
    count range.node (stop - start)
    pure true

def allocateManual : VirtualMemoryRange → Nat → Nat → Prog Space Bool :=
  manual (fun range start stop => PageTable.userspaceMap start stop range.perms range.level range.node 0) addPages

def freeManual : VirtualMemoryRange → Nat → Nat → Prog Space Bool :=
  manual (fun range start stop => PageTable.userspaceUnmap start stop range.level range.node 0) removePages

def allocateManualExternal (range : VirtualMemoryRange) (start stop : Nat) : Prog Space Bool :=
  if range.mode ≠ .manual then pure false else allocateManual range start stop

def freeManualExternal (range : VirtualMemoryRange) (start stop : Nat) : Prog Space Bool :=
  if range.mode ≠ .manual then pure false else freeManual range start stop

def mmap (namespaceId regionId offset numPages : Nat) : Prog Space (List Nat) :=
  onPages allocateManualExternal namespaceId regionId offset numPages

def munmap (namespaceId regionId offset numPages : Nat) : Prog Space (List Nat) :=
  onPages freeManualExternal namespaceId regionId offset numPages

def newNamespaceId : Prog Space Nat := fun sp =>
  some (sp.namespaceIdCounter, { sp with namespaceIdCounter := sp.namespaceIdCounter + 1 })

def mknamespace (existing : Nat) : Prog Space (List Nat) :=
  if existing = 0 then do
    let id ← newNamespaceId
    let ns ← onTables (MemoryNamespace.createEmpty id)
    setNamespace ns
    pure [0]
  else do
    let other ← getNamespaceHolder existing
    match other with
    | none => pure failed
    | some other => do
      let id ← newNamespaceId
      let ns ← onTables (MemoryNamespace.createFrom id other)
      match ns with
      | none => pure failed
      | some ns => do
        setNamespace ns
        pure [0]

end Space

end MeowOs.Memory
