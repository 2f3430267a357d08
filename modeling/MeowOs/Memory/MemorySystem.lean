import MeowOs.Memory.Namespace
import MeowOs.Memory.SharedKernelHalf

/-! # Ranges and namespaces as one system

The operations on virtual memory ranges and on memory namespaces, in any order:
ranges are created, grown, shrunk and mapped by hand, linked into namespaces and
removed from them, and dropped with their last reference; namespaces are
created, copied and dropped, and the rights of their pages are changed.

A range is shared by reference counting.  The references are the regions of the
namespaces and the `handles` that code outside of them holds.  Before each
operation the page allocator picks the frames it is going to hand out, which may
be any frames that are not in use.
-/

namespace MeowOs.Memory

open MeowOs.Machine PageTableEntry TableMem

/-! ## Pages of a range -/

def VirtualMemoryRangeCapacity.pages (c : VirtualMemoryRangeCapacity) : Nat := 512 ^ c.intoLevel

namespace Space

def currentSizePages (range : VirtualMemoryRange) : Prog Space Nat := fun sp => some (sp.allocated range.node, sp)

def expandTo (range : VirtualMemoryRange) (nPages : Nat) : Prog Space Bool :=
  match range.mode with
  | .manual => pure false
  | .managed grow => do
    let max := range.capacity.pages
    let current ← currentSizePages range
    if max < nPages then pure false
    else if nPages ≤ current then pure false
    else match grow with
      | .up => allocateManual range current nPages
      | .down => allocateManual range (max - nPages) (max - current)

def expandBy (range : VirtualMemoryRange) (nPages : Nat) : Prog Space Bool := do
  let current ← currentSizePages range
  expandTo range (min (current + nPages) (2 ^ 32 - 1))

/-- `current_range` of a managed range: its first address, and one past its last. -/
def currentRange (range : VirtualMemoryRange) (grow : GrowDirection) (startAddr : Nat) : Prog Space (Nat × Nat) := do
  let current ← currentSizePages range
  match grow with
  | .up => do
    Prog.assert (startAddr + current * 4096 < 2 ^ 64)
    pure (startAddr, startAddr + current * 4096)
  | .down => do
    let endAddr := startAddr + range.capacity.pages * 4096
    Prog.assert (endAddr < 2 ^ 64)
    Prog.assert (current * 4096 ≤ endAddr)
    pure (endAddr - current * 4096, endAddr)

/-- The page numbers are cut to 32 bits. -/
def expandToAddress (range : VirtualMemoryRange) (mappedAddr newEndAddr maxNewPages : Nat) : Prog Space Bool := do
  let aligned := newEndAddr / 4096 * 4096
  Prog.assert (mappedAddr + range.capacity.size < 2 ^ 64)
  if newEndAddr < mappedAddr ∨ mappedAddr + range.capacity.size ≤ newEndAddr then pure false
  else match range.mode with
    | .manual => pure false
    | .managed grow => do
      let (start, stop) ← currentRange range grow mappedAddr
      if aligned < start then
        let newPages := start / 4096 % 2 ^ 32 - aligned / 4096 % 2 ^ 32
        if maxNewPages < newPages then pure false else expandBy range newPages
      else if stop ≤ aligned then do
        Prog.assert (0 < stop)
        let newPages := aligned / 4096 % 2 ^ 32 - (stop - 1) / 4096 % 2 ^ 32
        if maxNewPages < newPages then pure false else expandBy range newPages
      else pure true

def shrinkTo (range : VirtualMemoryRange) (nPages : Nat) : Prog Space Bool :=
  match range.mode with
  | .manual => pure false
  | .managed grow => do
    let max := range.capacity.pages
    let current ← currentSizePages range
    match grow with
    | .up => freeManual range nPages current
    | .down => freeManual range (max - current) (max - nPages)

def shrinkBy (range : VirtualMemoryRange) (nPages : Nat) : Prog Space Bool := do
  let current ← currentSizePages range
  shrinkTo range (current - nPages)

end Space

inductive RangeOp where
  | expandTo (nPages : Nat)
  | expandBy (nPages : Nat)
  | expandToAddress (mappedAddr newEndAddr maxNewPages : Nat)
  | shrinkTo (nPages : Nat)
  | shrinkBy (nPages : Nat)
  | allocateManualExternal (start stop : Nat)
  | freeManualExternal (start stop : Nat)

def RangeOp.run (range : VirtualMemoryRange) : RangeOp → Prog Space Bool
  | .expandTo nPages => Space.expandTo range nPages
  | .expandBy nPages => Space.expandBy range nPages
  | .expandToAddress mappedAddr newEndAddr maxNewPages => Space.expandToAddress range mappedAddr newEndAddr maxNewPages
  | .shrinkTo nPages => Space.shrinkTo range nPages
  | .shrinkBy nPages => Space.shrinkBy range nPages
  | .allocateManualExternal start stop => Space.allocateManualExternal range start stop
  | .freeManualExternal start stop => Space.freeManualExternal range start stop

namespace MemoryNamespace

def copyHigherHalf (ns : MemoryNamespace) (kernelHalf : Nat → Nat) : MemoryNamespace :=
  { ns with top := fun i => if 256 ≤ i ∧ i < 512 then kernelHalf i else ns.top i }

end MemoryNamespace

/-! ## The system -/

structure MemorySystem where
  space : Space
  /-- The references to ranges that are held outside of the namespaces. -/
  handles : List VirtualMemoryRange
  kernelHalf : Nat → Nat
  /-- For the statements: how often the allocator has handed out each frame. -/
  handedOut : Nat → Nat
  /-- For the statements: namespace, level and address of every region that was ever accepted. -/
  history : List (Nat × Nat × Nat)

namespace MemorySystem

def Live (sys : MemorySystem) (range : VirtualMemoryRange) : Prop :=
  range ∈ sys.handles ∨ ∃ id ns r, sys.space.namespaces id = some ns ∧ r ∈ ns.memoryRanges ∧ r.sharedRange = range

def withTables (sys : MemorySystem) (tables : TableMem) : MemorySystem :=
  { sys with space := { sys.space with tables := tables } }

def setNamespace (sys : MemorySystem) (id : Nat) (ns : Option MemoryNamespace) : MemorySystem :=
  { sys with space := { sys.space with namespaces := Function.update sys.space.namespaces id ns } }

def countNamespace (sys : MemorySystem) : MemorySystem :=
  { sys with space := { sys.space with namespaceIdCounter := sys.space.namespaceIdCounter + 1 } }

def addRange (sys : MemorySystem) (range : VirtualMemoryRange) : MemorySystem :=
  { sys with
    handles := range :: sys.handles
    space := { sys.space with allocated := Function.update sys.space.allocated range.node 0 } }

end MemorySystem

/-- A reference to a range, if there is one, is dropped: with the last one goes the range, and with it its tables. -/
inductive Release : Option VirtualMemoryRange → MemorySystem → MemorySystem → Prop
  | nothing {sys : MemorySystem} : Release none sys sys
  | shared {sys : MemorySystem} {range : VirtualMemoryRange} (live : sys.Live range) : Release (some range) sys sys
  | last {sys : MemorySystem} {range : VirtualMemoryRange} {tables : TableMem} (gone : ¬ sys.Live range)
      (run : PageTable.delete range.level range.node sys.space.tables = some ((), tables)) :
      Release (some range) sys (sys.withTables tables)

/-- The loop of `remove_all_mem_ranges`: every region is taken from the list, its entry is cleared, and its reference
is dropped. -/
inductive RemoveAll (id : Nat) : MemorySystem → MemorySystem → Prop
  | nil {sys : MemorySystem} {ns : MemoryNamespace} (found : sys.space.namespaces id = some ns)
      (empty : ns.memoryRanges = []) : RemoveAll id sys sys
  | cons {sys mid sys' : MemorySystem} {ns ns' : MemoryNamespace} {r : OwnedVirtualMemoryRange}
      {rest : List OwnedVirtualMemoryRange} {tables : TableMem} (found : sys.space.namespaces id = some ns)
      (regions : ns.memoryRanges = r :: rest)
      (run : MemoryNamespace.clearEntry { ns with memoryRanges := rest } r sys.space.tables = some (ns', tables))
      (release : Release (some r.sharedRange) ((sys.withTables tables).setNamespace id (some ns')) mid)
      (others : RemoveAll id mid sys') : RemoveAll id sys sys'

inductive MemoryOp where
  | create (capacity : VirtualMemoryRangeCapacity) (perms : Nat) (mode : ManagementMode)
  | release (range : VirtualMemoryRange)
  | pages (range : VirtualMemoryRange) (op : RangeOp)
  | add (id : Nat) (range : VirtualMemoryRange) (name : String) (rangeType : MemoryRangeType) (mapAddress : Nat)
  | remove (id : Nat) (key : MemoryNamespace.RegionKey)
  | createEmpty
  /-- `build_empty_memory_namespace`, for the first namespace of a process. -/
  | buildEmpty
  | createFrom (id : Nat)
  | drop (id : Nat)
  | setProt (id start stop perms : Nat)

/-- What an operation does, with the frames of the page allocator that `tables.pool` lists. -/
inductive OpStep : MemorySystem → MemoryOp → MemorySystem → Prop
  | create {sys : MemorySystem} {capacity : VirtualMemoryRangeCapacity} {perms : Nat} {mode : ManagementMode}
      {range : VirtualMemoryRange} {tables : TableMem}
      (run : VirtualMemoryRange.create capacity perms mode sys.space.tables = some (range, tables)) :
      OpStep sys (.create capacity perms mode) ((sys.withTables tables).addRange range)
  | release {sys sys' : MemorySystem} {range : VirtualMemoryRange} {before after : List VirtualMemoryRange}
      (held : sys.handles = before ++ range :: after)
      (release : Release (some range) { sys with handles := before ++ after } sys') : OpStep sys (.release range) sys'
  | pages {sys : MemorySystem} {range : VirtualMemoryRange} {op : RangeOp} {ok : Bool} {space : Space}
      (live : sys.Live range) (run : op.run range sys.space = some (ok, space)) :
      OpStep sys (.pages range op) { sys with space := space }
  | add {sys : MemorySystem} {id : Nat} {range : VirtualMemoryRange} {name : String} {rangeType : MemoryRangeType}
      {mapAddress : Nat} {ns ns' : MemoryNamespace} {res : Option Nat} {tables : TableMem} (live : sys.Live range)
      (found : sys.space.namespaces id = some ns)
      (run : ns.addMemRange range name rangeType mapAddress sys.space.tables = some ((ns', res), tables)) :
      OpStep sys (.add id range name rangeType mapAddress)
        { (sys.withTables tables).setNamespace id (some ns') with
          history := if res.isSome then (id, range.level, mapAddress) :: sys.history else sys.history }
  | remove {sys sys' : MemorySystem} {id : Nat} {key : MemoryNamespace.RegionKey} {ns ns' : MemoryNamespace}
      {removed : Option OwnedVirtualMemoryRange} {tables : TableMem} (found : sys.space.namespaces id = some ns)
      (run : ns.removeMemRange key sys.space.tables = some ((ns', removed), tables))
      (release : Release (removed.map (·.sharedRange)) ((sys.withTables tables).setNamespace id (some ns')) sys') :
      OpStep sys (.remove id key) sys'
  | createEmpty {sys : MemorySystem} {ns : MemoryNamespace} {tables : TableMem}
      (run : MemoryNamespace.createEmpty sys.space.namespaceIdCounter sys.space.tables = some (ns, tables)) :
      OpStep sys .createEmpty
        ((sys.withTables tables).setNamespace sys.space.namespaceIdCounter (some ns)).countNamespace
  | buildEmpty {sys : MemorySystem} {ns : MemoryNamespace} {tables : TableMem}
      (run : MemoryNamespace.createEmpty sys.space.namespaceIdCounter sys.space.tables = some (ns, tables)) :
      OpStep sys .buildEmpty
        ((sys.withTables tables).setNamespace sys.space.namespaceIdCounter
          (some (ns.copyHigherHalf sys.kernelHalf))).countNamespace
  | createFrom {sys : MemorySystem} {id : Nat} {other : MemoryNamespace} {copy : Option MemoryNamespace}
      {tables : TableMem} (found : sys.space.namespaces id = some other)
      (run : MemoryNamespace.createFrom sys.space.namespaceIdCounter other sys.space.tables = some (copy, tables)) :
      OpStep sys (.createFrom id)
        { ((sys.withTables tables).setNamespace sys.space.namespaceIdCounter copy).countNamespace with
          history := (copy.elim [] fun ns => ns.memoryRanges.map fun r =>
            (sys.space.namespaceIdCounter, r.sharedRange.level, r.mapAddress)) ++ sys.history }
  | drop {sys mid : MemorySystem} {id : Nat} {ns : MemoryNamespace} {tables : TableMem} (removed : RemoveAll id sys mid)
      (found : mid.space.namespaces id = some ns) (run : ns.deletePageTable mid.space.tables = some ((), tables)) :
      OpStep sys (.drop id) ((mid.withTables tables).setNamespace id none)
  | setProt {sys : MemorySystem} {id start stop perms : Nat} {ns ns' : MemoryNamespace} {tables : TableMem}
      (found : sys.space.namespaces id = some ns)
      (run : ns.setProt start stop perms sys.space.tables = some (ns', tables)) :
      OpStep sys (.setProt id start stop perms) ((sys.withTables tables).setNamespace id (some ns'))

/-- The frames that the allocator can hand out next; 0 stands for no frame. -/
structure Offered (sys : MemorySystem) (pool : List Nat) : Prop where
  offers : Offers sys.space.tables pool
  nonzero : 0 ∉ pool

namespace MemorySystem

def withPool (sys : MemorySystem) (pool : List Nat) : MemorySystem :=
  sys.withTables { sys.space.tables with pool := pool }

def countTaken (sys : MemorySystem) (pool : List Nat) : MemorySystem :=
  { sys with
    handedOut := fun f => sys.handedOut f + (pool.take (pool.length - sys.space.tables.pool.length)).count f }

end MemorySystem

inductive MemoryStep (sys : MemorySystem) (pool : List Nat) (op : MemoryOp) : MemorySystem → Prop
  | mk {sys' : MemorySystem} (offered : Offered sys pool) (step : OpStep (sys.withPool pool) op sys') :
      MemoryStep sys pool op (sys'.countTaken pool)

/-- A sequence of operations, all of which are `allowed` where they happen. -/
inductive MemoryRun (allowed : MemorySystem → MemoryOp → Prop) :
    MemorySystem → List (List Nat × MemoryOp) → MemorySystem → Prop
  | nil (sys : MemorySystem) : MemoryRun allowed sys [] sys
  | snoc {sys mid sys' : MemorySystem} {ops : List (List Nat × MemoryOp)} {pool : List Nat} {op : MemoryOp}
      (before : MemoryRun allowed sys ops mid) (ok : allowed mid op) (step : MemoryStep mid pool op sys') :
      MemoryRun allowed sys (ops ++ [(pool, op)]) sys'

end MeowOs.Memory
