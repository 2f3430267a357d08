import MeowOs.Machine.OrdSet

/-! # Kernel virtual areas

`allocation_area` hands out ranges of pages of the kernel half.  The free areas
are kept twice, ordered by size and ordered by address; the used areas are kept
by address, and a new used area is merged with the used areas next to it.

An area is the packed `AllocArea` (48 bits of start page, flags above them)
together with its number of pages.  Both orders look at the start page and the
number of pages only, so `SizeSortedAllocArea` and `AddrSortedAllocArea` are one
type here and the two sets differ in their key.
-/

namespace MeowOs.Memory

open MeowOs.Machine

structure Area where
  startPageIndex : Nat
  flagBits : Nat
  nPages : Nat
deriving DecidableEq

namespace Area

def raw (a : Area) : Nat := a.startPageIndex + a.flagBits * 2 ^ 48

/-- `AllocArea::flags`, with the shift to the left that the source has. -/
def flags (a : Area) : Nat := (a.raw <<< 48) % 2 ^ 64 &&& 0b111111

def addrKey (a : Area) : Nat := a.startPageIndex

def sizeKey (a : Area) : Nat ×ₗ Nat := toLex (a.nPages, a.startPageIndex)

end Area

abbrev AddrSet := OrdSet Area.addrKey
abbrev SizeSet := OrdSet Area.sizeKey

structure AllocationInfo where
  freeSizeSorted : SizeSet
  freeAddrSorted : AddrSet
  used : AddrSet

def noMergeInfo (flags : Nat) : Bool := flags.testBit 5

def minAddr : Nat := 0x800000000000

namespace AllocationInfo

def new : AllocationInfo := ⟨.empty, .empty, .empty⟩

/-- One range of the loop of `init`; `none` is the overflow of `n_pages * 0x1000`. -/
def addRange (info : AllocationInfo) (range : Nat × Nat) : Option AllocationInfo :=
  let addr := range.1
  let nPages := range.2
  if addr < minAddr then some info
  else
    let minAddrDiff := minAddr - addr
    let addr := addr + minAddrDiff
    let nPages := nPages - minAddrDiff / 4096
    if nPages = 0 then some info
    else if nPages * 0x1000 < 2 ^ 64 then
      let nPages := if addr + nPages * 0x1000 < 2 ^ 64 then nPages else nPages - 1
      let area : Area := ⟨addr / 4096 % 2 ^ 48, 0, nPages⟩
      some { info with freeSizeSorted := info.freeSizeSorted.insert area
                       freeAddrSorted := info.freeAddrSorted.insert area }
    else none

def init (info : AllocationInfo) (emptyAreas : List (Nat × Nat)) : Option AllocationInfo :=
  emptyAreas.foldlM addRange { info with freeSizeSorted := .empty, freeAddrSorted := .empty }

/-! ## Merging -/

/-- The area that starts where `area` ends joins it, if `joins` allows it. -/
def absorbAfter (joins : Area → Area → Bool) (set : AddrSet) (area : Area) : AddrSet × Area × Option Area :=
  match set.get ((area.startPageIndex + area.nPages) % 2 ^ 48) with
  | some entry =>
    if joins area entry then
      (set.remove entry.addrKey, { area with nPages := area.nPages + entry.nPages }, some entry)
    else (set, area, none)
  | none => (set, area, none)

/-- The area that ends where `area` starts joins it, if `joins` allows it. -/
def absorbBefore (joins : Area → Area → Bool) (set : AddrSet) (area : Area) : AddrSet × Area × Option Area :=
  match set.lastBelow area.addrKey with
  | some entry =>
    if entry.startPageIndex + entry.nPages = area.startPageIndex && joins area entry then
      (set.remove entry.addrKey,
        { area with startPageIndex := entry.startPageIndex, nPages := area.nPages + entry.nPages }, some entry)
    else (set, area, none)
  | none => (set, area, none)

def sameFlags (area entry : Area) : Bool := area.flags == entry.flags

def always (_ _ : Area) : Bool := true

/-- An absorbed area also leaves the set ordered by size. -/
def dropAbsorbed (set : SizeSet) : Option Area → SizeSet
  | some entry => set.remove entry.sizeKey
  | none => set

/-! ## Allocating and freeing -/

def extendAddr (addr : Nat) : Nat := if addr.testBit 47 then addr ||| 0xFFFF000000000000 else addr

def trimAddrExtension (addr : Nat) : Nat := addr &&& 0x0000FFFFFFFFFFFF

/-- The free area `entry` without its first `nPages` pages. -/
def splitFree (info : AllocationInfo) (entry : Area) (nPages : Nat) : AllocationInfo :=
  let freeSizeSorted := info.freeSizeSorted.remove entry.sizeKey
  let freeAddrSorted := info.freeAddrSorted.remove entry.addrKey
  let newEmpty : Area :=
    { entry with startPageIndex := (entry.startPageIndex + nPages) % 2 ^ 48, nPages := entry.nPages - nPages }
  if newEmpty.nPages > 0 then
    { info with freeSizeSorted := freeSizeSorted.insert newEmpty
                freeAddrSorted := freeAddrSorted.insert newEmpty }
  else { info with freeSizeSorted, freeAddrSorted }

def addUsed (used : AddrSet) (newAlloc : Area) (flags : Nat) : AddrSet :=
  if noMergeInfo flags then used.insert newAlloc
  else
    let (used, newAlloc, _) := absorbAfter sameFlags used newAlloc
    let (used, newAlloc, _) := absorbBefore sameFlags used newAlloc
    used.insert newAlloc

def allocateArea (info : AllocationInfo) (nPages flags : Nat) : Option Nat × AllocationInfo :=
  match info.freeSizeSorted.firstFrom (toLex (nPages, 0)) with
  | none => (none, info)
  | some entry =>
    let info := info.splitFree entry nPages
    let newAlloc : Area := ⟨entry.startPageIndex, flags &&& 0b111111, nPages⟩
    (some (extendAddr (entry.startPageIndex * 0x1000)), { info with used := addUsed info.used newAlloc flags })

def usedEntry (info : AllocationInfo) (page : Nat) : Option Area :=
  match info.used.lastUpTo page with
  | none => none
  | some entry => if entry.startPageIndex + entry.nPages ≤ page then none else some entry

/-- The used areas after `nPages` pages from `page` on were cut out of `entry`. -/
def cutUsed (used : AddrSet) (entry : Area) (page nPages : Nat) : AddrSet :=
  let used := used.remove entry.addrKey
  -- the distance is one of pages already, and is divided by the page size once more
  let leftInFront := (page - entry.startPageIndex) / 0x1000
  let leftAfter := entry.nPages - leftInFront - nPages
  let used := if leftInFront > 0 then used.insert { entry with nPages := leftInFront } else used
  if leftAfter > 0 then
    used.insert { entry with startPageIndex := (page + nPages) % 2 ^ 48, nPages := leftAfter }
  else used

def addFree (info : AllocationInfo) (newFree : Area) : AllocationInfo :=
  let (freeAddrSorted, newFree, after) := absorbAfter always info.freeAddrSorted newFree
  let (freeAddrSorted, newFree, before) := absorbBefore always freeAddrSorted newFree
  { info with
    freeAddrSorted := freeAddrSorted.insert newFree
    freeSizeSorted := (dropAbsorbed (dropAbsorbed info.freeSizeSorted after) before).insert newFree }

def freedPages (entry : Area) (page : Nat) (nPages : Option Nat) : Nat :=
  min (nPages.getD (2 ^ 64 - 1)) (entry.startPageIndex + entry.nPages - page)

/-- `none` is the failed assertion on an area that is not allocated. -/
def freeArea (info : AllocationInfo) (addr : Nat) (nPages : Option Nat) : Option AllocationInfo :=
  let addrPage := trimAddrExtension addr / 4096
  match info.usedEntry addrPage with
  | none => none
  | some entry =>
    let nPages := freedPages entry addrPage nPages
    let info := { info with used := cutUsed info.used entry addrPage nPages }
    some (info.addFree ⟨addrPage, 0, nPages⟩)

end AllocationInfo

end MeowOs.Memory
