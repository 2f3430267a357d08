import MeowOs.Memory.Namespace

/-! # What the memory system calls do to the two halves of an address space

The root table's entries 256 to 511 are the kernel's half, the addresses from
`2 ^ 47` on.  A step lemma for each function on a namespace says which entry of
the root it may write and which regions it may add; from these a run of system
calls keeps every region in the lower half and leaves the kernel's half as it
was, as long as no call asks for a region between `2 ^ 47` and `2 ^ 48`, or for
one that ends at `2 ^ 64`.
-/

namespace MeowOs.Memory

open MeowOs.Machine PageTableEntry TableMem Prog
open Option (bind_eq_some_iff elim_none elim_some map_eq_some_iff mem_unique some)

/-! ## Holes -/

namespace VirtualMemoryRangeCapacity

theorem size_pos (c : VirtualMemoryRangeCapacity) : 4096 ≤ c.size := by
  cases c with
  | c4KB => decide
  | c2MB => decide
  | c1GB => decide
  | c05TB => decide

theorem dvd_alignUp (c : VirtualMemoryRangeCapacity) (addr : Nat) : c.size ∣ c.alignUp addr :=
  Nat.dvd_mul_left _ _

theorem le_alignUp (c : VirtualMemoryRangeCapacity) (addr : Nat) : addr ≤ c.alignUp addr := by
  have positive := c.size_pos
  have division := Nat.div_add_mod (addr + c.size - 1) c.size
  have remainder := Nat.mod_lt (addr + c.size - 1) (show 0 < c.size by omega)
  unfold alignUp
  rw [Nat.mul_comm]
  omega

theorem alignUp_le {c : VirtualMemoryRangeCapacity} {addr b : Nat} (aligned : c.size ∣ b) (le : addr ≤ b) :
    c.alignUp addr ≤ b := by
  obtain ⟨k, rfl⟩ := aligned
  have positive := c.size_pos
  have quotient : (addr + c.size - 1) / c.size ≤ k := by
    rw [← Nat.lt_succ_iff, Nat.div_lt_iff_lt_mul (by omega), Nat.succ_mul, Nat.mul_comm]
    omega
  unfold alignUp
  rw [Nat.mul_comm]
  exact Nat.mul_le_mul_left _ quotient

end VirtualMemoryRangeCapacity

namespace MemoryNamespace

/-- A region of capacity `c` fits at `a` between the regions that are there. -/
structure Fits (ns : MemoryNamespace) (c : VirtualMemoryRangeCapacity) (a : Nat) : Prop where
  aligned : c.size ∣ a
  positive : 0 < a
  apart : ∀ r ∈ ns.memoryRanges, r.stop ≤ a ∨ a + c.size ≤ r.mapAddress

variable {ns ns' : MemoryNamespace} {index id fuel cur virtAddr : Nat} {t t' : TableMem} {res : Option Nat}
  {a b c : MemoryNamespace}

theorem findHoleFrom_spec {c : VirtualMemoryRangeCapacity} (positive : 0 < cur)
    (run : ns.findHoleFrom c fuel cur = some res) : (∀ a ∈ res, ns.Fits c a ∧ a + c.size < 2 ^ 48) ∧
      ∀ b, ns.Fits c b → cur ≤ b → b + c.size < 2 ^ 48 → ∃ a ∈ res, a ≤ b := by
  induction fuel generalizing cur with
  | zero => cases run
  | succ fuel ih =>
    simp only [findHoleFrom] at run
    split at run
    next high =>
      cases run
      refine ⟨nofun, fun b other from_cur below => ?_⟩
      have := VirtualMemoryRangeCapacity.alignUp_le other.aligned from_cur
      omega
    next low =>
    split at run
    next r found =>
      have meets := List.find?_some found
      simp only [Bool.and_eq_true, decide_eq_true_eq] at meets
      have member := List.mem_of_find?_eq_some found
      refine (ih (by omega) run).imp_right fun least b other from_cur => least b other ?_
      -- nothing fits between `cur` and the end of the region in the way
      have := VirtualMemoryRangeCapacity.alignUp_le other.aligned from_cur
      obtain before | behind := other.apart r member
      · exact before
      · omega
    next free =>
      cases run
      have start := c.le_alignUp cur
      refine ⟨?_, fun b other from_cur _ => ⟨_, rfl, VirtualMemoryRangeCapacity.alignUp_le other.aligned from_cur⟩⟩
      rintro a ⟨⟩
      refine ⟨⟨c.dvd_alignUp cur, by omega, fun r member => ?_⟩, by omega⟩
      have clear := List.find?_eq_none.mp free r member
      simp only [Bool.and_eq_true, decide_eq_true_eq, not_and, not_lt] at clear
      by_cases below : r.mapAddress < c.alignUp cur + c.size
      · exact .inl (clear below)
      · exact .inr (by omega)

theorem findHoleFrom_total (ns : MemoryNamespace) (c : VirtualMemoryRangeCapacity)
    (enough : 2 ^ 48 ≤ c.alignUp cur + fuel * 4096) (positive : 0 < fuel) :
    ∃ res, ns.findHoleFrom c fuel cur = some res := by
  induction fuel generalizing cur with
  | zero => omega
  | succ fuel ih =>
    have size := c.size_pos
    simp only [findHoleFrom]
    split
    · exact ⟨none, rfl⟩
    next low =>
    split
    · next r found =>
      have meets := List.find?_some found
      simp only [Bool.and_eq_true, decide_eq_true_eq] at meets
      -- the next aligned address lies a whole size further on
      have next : c.alignUp cur + c.size ≤ c.alignUp r.stop := by
        obtain ⟨k, here⟩ := c.dvd_alignUp cur
        obtain ⟨m, there⟩ := c.dvd_alignUp r.stop
        have passed := c.le_alignUp r.stop
        have later : k < m := by
          by_contra before
          have := Nat.mul_le_mul_left c.size (not_lt.mp before)
          omega
        have := Nat.mul_le_mul_left c.size later
        linarith [Nat.mul_succ c.size k]
      exact ih (by omega) (by omega)
    · exact ⟨_, rfl⟩

/-- `find_hole` ends, and returns the lowest place where the region fits below `2 ^ 48`, or that there is none. -/
theorem findHole_first_fit (ns : MemoryNamespace) (c : VirtualMemoryRangeCapacity) :
    ∃ res, ns.findHole c = some res ∧ (∀ a ∈ res, IsLeast {b | ns.Fits c b ∧ b + c.size < 2 ^ 48} a) ∧
      (res = none → ∀ b, ns.Fits c b → 2 ^ 48 ≤ b + c.size) := by
  obtain ⟨res, run⟩ : ∃ res, ns.findHole c = some res := findHoleFrom_total ns c (by omega) (by omega)
  obtain ⟨sound, first⟩ := findHoleFrom_spec (by omega) run
  refine ⟨res, run, fun a found => ⟨sound a found, fun b ⟨fits, below⟩ => ?_⟩, fun none b fits => ?_⟩
  · obtain ⟨a', found', le⟩ := first b fits fits.positive below
    rwa [mem_unique found found']
  by_contra below
  obtain ⟨a, found, -⟩ := first b fits fits.positive (by omega)
  rw [none] at found
  cases found

/-! ## One namespace -/

/-- What a change of a namespace may do: it keeps the kernel's half of the root, and all new regions are below `2 ^ 47`. -/
structure Within (ns ns' : MemoryNamespace) : Prop where
  id : ns'.id = ns.id
  top : ∀ i, 256 ≤ i → i < 512 → ns'.top i = ns.top i
  regions : ∀ r ∈ ns'.memoryRanges, r ∈ ns.memoryRanges ∨ r.stop ≤ 2 ^ 47

theorem Within.refl (ns : MemoryNamespace) : ns.Within ns :=
  ⟨rfl, fun _ _ _ => rfl, fun _ member => .inl member⟩

theorem Within.trans (first : a.Within b) (second : b.Within c) : a.Within c where
  id := second.id.trans first.id
  top i low high := (second.top i low high).trans (first.top i low high)
  regions r member := (second.regions r member).elim (first.regions r) .inr

structure TopWrite (index : Nat) (ns ns' : MemoryNamespace) : Prop where
  id : ns'.id = ns.id
  top : ∀ i, i ≠ index → ns'.top i = ns.top i
  regions : ns'.memoryRanges = ns.memoryRanges

theorem TopWrite.refl (index : Nat) (ns : MemoryNamespace) : TopWrite index ns ns :=
  ⟨rfl, fun _ _ => rfl, rfl⟩

theorem TopWrite.trans (first : TopWrite index a b) (second : TopWrite index b c) : TopWrite index a c where
  id := second.id.trans first.id
  top i other := (second.top i other).trans (first.top i other)
  regions := second.regions.trans first.regions

theorem TopWrite.within (write : TopWrite index ns ns') (low : index < 256) : ns.Within ns' where
  id := write.id
  top i high _ := write.top i (by omega)
  regions r member := .inl (write.regions ▸ member)

theorem topWrite_update (ns : MemoryNamespace) (index value : Nat) :
    TopWrite index ns { ns with top := Function.update ns.top index value } :=
  ⟨rfl, fun _ other => Function.update_of_ne other _ _, rfl⟩

theorem rootTable_spec (run : ns.rootTable virtAddr index t = some (ns', t')) : TopWrite index ns ns' := by
  unfold rootTable at run
  split at run
  · cases run
    exact TopWrite.refl index ns
  · obtain ⟨frame, _, _, _, _, _, run⟩ := bind₂_eq_some.mp run
    cases run
    exact topWrite_update ns index _

theorem getPageTableEntryAtLevel_spec {level : Nat} {allocateMissing : Bool} {place : Option Place}
    (run : ns.getPageTableEntryAtLevel virtAddr level allocateMissing t = some ((ns', place), t')) :
    TopWrite (virtAddr / 2 ^ 39 % 512) ns ns' ∧ ∀ index, place = some (.top index) → index = virtAddr / 2 ^ 39 % 512 := by
  obtain ⟨_, run⟩ := assert_bind_eq_some.mp run
  split at run
  · cases run
    exact ⟨TopWrite.refl _ ns, fun index same => by cases same; rfl⟩
  split at run
  · cases run
    exact ⟨TopWrite.refl _ ns, nofun⟩
  obtain ⟨rooted, _, root, run⟩ := bind_eq_some.mp run
  have written := rootTable_spec root
  split at run
  · cases run
    exact ⟨written, nofun⟩
  obtain ⟨_, _, _, below, _, _, run⟩ := bind₂_eq_some.mp run
  cases run
  refine ⟨written, fun index same => ?_⟩
  cases below with
  | none => cases same
  | some p => cases same

theorem writePlace_spec {place : Place} {value : Nat} (entry : ∀ i, some place = some (Place.top i) → i = index)
    (run : ns.writePlace value place t = some (ns', t')) : TopWrite index ns ns' := by
  cases place with
  | top i =>
    obtain rfl := entry i rfl
    cases run
    exact topWrite_update ns i value
  | below table i =>
    cases run
    exact TopWrite.refl index ns

theorem topIndex_lt {addr : Nat} (low : addr < 2 ^ 47) : addr / 2 ^ 39 % 512 < 256 := by
  omega

theorem addMemRange_within {range : VirtualMemoryRange} {name : String} {rangeType : MemoryRangeType} {mapAddress : Nat}
    (bound : mapAddress + range.capacity.size ≤ 2 ^ 47 ∨ 2 ^ 48 ≤ mapAddress + range.capacity.size)
    (run : ns.addMemRange range name rangeType mapAddress t = some ((ns', res), t')) : ns.Within ns' := by
  obtain ⟨_, run⟩ := assert_bind_eq_some.mp run
  split at run
  · cases run
    exact Within.refl ns
  next accepted =>
  have low : mapAddress + range.capacity.size ≤ 2 ^ 47 := by omega
  have size := range.capacity.size_pos
  have index := topIndex_lt (show mapAddress < 2 ^ 47 by omega)
  split at run
  · cases run
    exact Within.refl ns
  obtain ⟨⟨walked, place⟩, _, walk, run⟩ := bind_eq_some.mp run
  obtain ⟨walkWrite, atTop⟩ := getPageTableEntryAtLevel_spec walk
  cases place with
  | none =>
    cases run
    exact walkWrite.within index
  | some place =>
    obtain ⟨e, _, _, run⟩ := bind_eq_some.mp run
    split at run
    · cases run
      exact walkWrite.within index
    obtain ⟨written, _, write, run⟩ := bind_eq_some.mp run
    have both := walkWrite.trans (writePlace_spec atTop write)
    obtain ⟨_, run⟩ := assert_bind_eq_some.mp run
    cases run
    refine ⟨both.id, (both.within index).top, fun r member => ?_⟩
    obtain old | new := List.mem_append.mp member
    · exact .inl (both.regions ▸ old)
    · obtain rfl := List.mem_singleton.mp new
      exact .inr low

theorem clearEntry_topWrite {range : OwnedVirtualMemoryRange} (run : ns.clearEntry range t = some (ns', t')) :
    TopWrite (range.mapAddress / 2 ^ 39 % 512) ns ns' := by
  obtain ⟨⟨walked, place⟩, _, walk, run⟩ := bind_eq_some.mp run
  obtain ⟨walkWrite, atTop⟩ := getPageTableEntryAtLevel_spec walk
  cases place with
  | none =>
    cases run
    exact walkWrite
  | some place =>
    obtain ⟨e, _, _, run⟩ := bind_eq_some.mp run
    split at run
    · cases run
      exact walkWrite
    · exact walkWrite.trans (writePlace_spec atTop run)

theorem removeMemRange_eq_some {key : RegionKey} {removed : Option OwnedVirtualMemoryRange}
    (run : ns.removeMemRange key t = some ((ns', removed), t')) : (removed = none ∧ ns' = ns ∧ t' = t) ∨
      ∃ r kept, removed = some r ∧ key.matches r = true ∧ ns.memoryRanges.Perm (r :: kept) ∧
        clearEntry { ns with memoryRanges := kept } r t = some (ns', t') := by
  unfold removeMemRange at run
  cases position : ns.memoryRanges.findIdx? key.matches with
  | none =>
    rw [position] at run
    cases run
    exact .inl ⟨rfl, rfl, rfl⟩
  | some index =>
    obtain ⟨inside, passes, -⟩ := List.findIdx?_eq_some_iff_getElem.mp position
    have there := List.getElem?_eq_getElem inside
    simp only [position, there] at run
    obtain ⟨cleared, _, clear, run⟩ := bind_eq_some.mp run
    cases run
    exact .inr ⟨_, _, rfl, passes, swapRemove_perm_cons there, clear⟩

theorem removeMemRange_within {key : RegionKey} {removed : Option OwnedVirtualMemoryRange}
    (below : ∀ r ∈ ns.memoryRanges, r.stop ≤ 2 ^ 47)
    (run : ns.removeMemRange key t = some ((ns', removed), t')) : ns.Within ns' := by
  obtain ⟨-, rfl, -⟩ | ⟨r, kept, -, -, perm, clear⟩ := removeMemRange_eq_some run
  · exact Within.refl _
  -- the region is in the lower half, and so is its entry
  have low := below r (perm.mem_iff.mpr (.head _))
  have size := r.sharedRange.capacity.size_pos
  unfold OwnedVirtualMemoryRange.stop at low
  have within := (clearEntry_topWrite clear).within (topIndex_lt (show r.mapAddress < 2 ^ 47 by omega))
  exact ⟨within.id, within.top, fun r member => (within.regions r member).imp_left fun stays =>
    perm.mem_iff.mpr (.tail _ stays)⟩

theorem addMemRanges_within {ranges : List OwnedVirtualMemoryRange} {accepted : Bool}
    (below : ∀ r ∈ ranges, r.stop ≤ 2 ^ 47)
    (run : addMemRanges ns ranges t = some ((ns', accepted), t')) : ns.Within ns' := by
  induction ranges generalizing ns t with
  | nil =>
    cases run
    exact Within.refl _
  | cons r rest ih =>
    obtain ⟨⟨added, res⟩, _, add, run⟩ := bind_eq_some.mp run
    have first := addMemRange_within (.inl (below r (.head _))) add
    cases res with
    | none =>
      cases run
      exact first
    | some id => exact first.trans (ih (fun r' member => below r' (.tail _ member)) run)

structure LowerOnly (ns : MemoryNamespace) (id : Nat) : Prop where
  id : ns.id = id
  top : ∀ i, 256 ≤ i → i < 512 → ns.top i = 0
  regions : ∀ r ∈ ns.memoryRanges, r.stop ≤ 2 ^ 47

theorem createEmpty_lowerOnly (run : createEmpty id t = some (ns, t')) : ns.LowerOnly id := by
  obtain ⟨root, _, _, _, _, _, run⟩ := bind₂_eq_some.mp run
  cases run
  exact ⟨rfl, fun _ _ _ => rfl, nofun⟩

theorem createFrom_lowerOnly {other : MemoryNamespace} (below : ∀ r ∈ other.memoryRanges, r.stop ≤ 2 ^ 47)
    (run : createFrom id other t = some (some ns, t')) : ns.LowerOnly id := by
  obtain ⟨empty, _, create, ⟨filled, accepted⟩, _, fill, run⟩ := bind₂_eq_some.mp run
  have fresh := createEmpty_lowerOnly create
  have within := addMemRanges_within below fill
  cases accepted with
  | true =>
    cases run
    exact ⟨within.id.trans fresh.id, fun i low high => (within.top i low high).trans (fresh.top i low high),
      fun r member => (within.regions r member).elim (fresh.regions r) (fun low => low)⟩
  | false =>
    obtain ⟨_, _, _, run⟩ := bind_eq_some.mp run
    cases run

end MemoryNamespace

/-! ## System calls -/

inductive MemCall where
  | makeRegion (args : Space.MakeRegion)
  | removeRegion (namespaceId regionId : Nat)
  | mmap (namespaceId regionId offset numPages : Nat)
  | munmap (namespaceId regionId offset numPages : Nat)
  | mknamespace (existing : Nat)

def MemCall.run : MemCall → Prog Space (List Nat)
  | .makeRegion args => Space.makeRegion args
  | .removeRegion namespaceId regionId => Space.removeRegion namespaceId regionId
  | .mmap namespaceId regionId offset numPages => Space.mmap namespaceId regionId offset numPages
  | .munmap namespaceId regionId offset numPages => Space.munmap namespaceId regionId offset numPages
  | .mknamespace existing => Space.mknamespace existing

namespace Space

def RegionsInUserHalf (sp : Space) : Prop :=
  ∀ id ns, sp.namespaces id = some ns → ∀ r ∈ ns.memoryRanges, r.stop ≤ 2 ^ 47

structure Filed (sp : Space) : Prop where
  named : ∀ id ns, sp.namespaces id = some ns → ns.id = id
  fresh : ∀ id, sp.namespaceIdCounter ≤ id → sp.namespaces id = none

/-- No namespace is lost, its root's entries 256 to 511 are unchanged, and those of a new namespace are blank. -/
structure KernelHalfKept (sp sp' : Space) : Prop where
  kept : ∀ id ns, sp.namespaces id = some ns →
    ∃ ns', sp'.namespaces id = some ns' ∧ ∀ i, 256 ≤ i → i < 512 → ns'.top i = ns.top i
  blank : ∀ id ns', sp.namespaces id = none → sp'.namespaces id = some ns' → ∀ i, 256 ≤ i → i < 512 → ns'.top i = 0

theorem KernelHalfKept.trans {a b c : Space} (first : KernelHalfKept a b) (second : KernelHalfKept b c) :
    KernelHalfKept a c where
  kept id ns found := by
    obtain ⟨ns', found', top⟩ := first.kept id ns found
    obtain ⟨ns'', found'', top'⟩ := second.kept id ns' found'
    exact ⟨ns'', found'', fun i low high => (top' i low high).trans (top i low high)⟩
  blank id ns'' missing found i low high := by
    cases middle : b.namespaces id with
    | none => exact second.blank id ns'' middle found i low high
    | some ns' =>
      obtain ⟨_, again, top⟩ := second.kept id ns' middle
      obtain rfl := some.inj (again.symm.trans found)
      exact (top i low high).trans (first.blank id ns' missing middle i low high)

structure StepKeeps (sp sp' : Space) : Prop where
  regions : sp'.RegionsInUserHalf
  filed : sp'.Filed
  half : KernelHalfKept sp sp'

structure SameNamespaces (sp sp' : Space) : Prop where
  namespaces : sp'.namespaces = sp.namespaces
  counter : sp'.namespaceIdCounter = sp.namespaceIdCounter

theorem SameNamespaces.refl (sp : Space) : SameNamespaces sp sp := ⟨rfl, rfl⟩

theorem SameNamespaces.trans {a b c : Space} (first : SameNamespaces a b) (second : SameNamespaces b c) :
    SameNamespaces a c :=
  ⟨second.namespaces.trans first.namespaces, second.counter.trans first.counter⟩

variable {sp sp' : Space}

theorem onTables_eq_some {α : Type} {p : Prog TableMem α} {a : α} (run : onTables p sp = some (a, sp')) :
    (∃ t, p sp.tables = some (a, t)) ∧ SameNamespaces sp sp' := by
  obtain ⟨⟨a', t⟩, ran, same⟩ := map_eq_some_iff.mp run
  cases same
  exact ⟨⟨t, ran⟩, rfl, rfl⟩

variable {mid : Space} {ns : MemoryNamespace} {c : VirtualMemoryRangeCapacity} {out : List Nat}
  {namespaceId regionId offset numPages : Nat} {args : MakeRegion}

def named (sp : Space) (id : Nat) : Option MemoryNamespace := sp.namespaces (if id = 0 then sp.current else id)

/-- The region asked for stays in the lower half, or is refused.  For the address 0 a place has to be left there. -/
def PlaceLow (ns : MemoryNamespace) (c : VirtualMemoryRangeCapacity) (start : Nat) : Prop :=
  if start = 0 then (∃ a, ns.Fits c a ∧ a + c.size < 2 ^ 48) → ∃ a, ns.Fits c a ∧ a + c.size ≤ 2 ^ 47
  -- an end of `2 ^ 64` is not refused: the sum panics, or wraps to 0 in a release build
  else start + c.size ≤ 2 ^ 47 ∨ 2 ^ 48 ≤ start + c.size ∧ start + c.size < 2 ^ 64

def StaysLow (sp : Space) : MemCall → Prop
  | .makeRegion args => ∀ ns c, sp.named args.namespaceId = some ns →
      VirtualMemoryRangeCapacity.fromLevel (args.sizeOrder % 2 ^ 8) = some c → PlaceLow ns c (c.alignDown args.startAddr)
  | _ => True

theorem regionStart_spec {startAddr : Nat} {res : Option Nat} (low : PlaceLow ns c (c.alignDown startAddr))
    (run : regionStart ns c startAddr sp = some (res, sp')) :
    (∀ start ∈ res, start + c.size ≤ 2 ^ 47 ∨ 2 ^ 48 ≤ start + c.size) ∧ sp' = sp := by
  unfold regionStart at run
  split at run
  next zero =>
    rw [PlaceLow, if_pos zero] at low
    obtain ⟨found, rfl⟩ := ofOption_eq_some.mp run
    obtain ⟨sound, least⟩ := MemoryNamespace.findHoleFrom_spec (by omega) found
    refine ⟨fun start isStart => ?_, rfl⟩
    obtain ⟨a, fitsLow, below⟩ := low ⟨start, sound start isStart⟩
    obtain ⟨first, isFirst, le⟩ := least a fitsLow fitsLow.positive (by omega)
    rw [mem_unique isStart isFirst]
    exact .inl (by omega)
  next wanted =>
    rw [PlaceLow, if_neg wanted] at low
    cases run
    refine ⟨?_, rfl⟩
    rintro start ⟨⟩
    exact low.imp_right And.left

theorem getNamespace_eq_some {id : Nat} {ns : Option MemoryNamespace}
    (run : getNamespace id sp = some (ns, sp')) : ns = sp.named id ∧ sp' = sp := by
  cases run
  exact ⟨rfl, rfl⟩

theorem MakeRegion.capacity_of_parse {name : String}
    {rangeType : MemoryRangeType} {mode : ManagementMode} (parsed : args.parse = some (name, c, rangeType, mode)) :
    VirtualMemoryRangeCapacity.fromLevel (args.sizeOrder % 2 ^ 8) = some c := by
  obtain ⟨_, _, parsed⟩ := bind_eq_some_iff.mp parsed
  obtain ⟨_, capacity, parsed⟩ := bind_eq_some_iff.mp parsed
  obtain ⟨_, _, parsed⟩ := bind_eq_some_iff.mp parsed
  obtain ⟨_, _, parsed⟩ := bind_eq_some_iff.mp parsed
  cases parsed
  exact capacity

theorem dropRange_same {range : VirtualMemoryRange} (run : dropRange range sp = some ((), sp')) :
    SameNamespaces sp sp' := by
  unfold dropRange at run
  split at run
  · cases run
    exact SameNamespaces.refl _
  · exact (onTables_eq_some run).2

theorem manual_same {change : VirtualMemoryRange → Nat → Nat → Prog TableMem Unit} {count : Nat → Nat → Prog Space Unit}
    {range : VirtualMemoryRange} {start stop : Nat} {ok : Bool}
    (counts : ∀ node n u u', count node n u = some ((), u') → SameNamespaces u u')
    (run : manual change count range start stop sp = some (ok, sp')) : SameNamespaces sp sp' := by
  obtain ⟨_, run⟩ := assert_bind_eq_some.mp run
  split at run
  · split at run
    · cases run
      exact SameNamespaces.refl _
    · obtain ⟨_, _, counted, run⟩ := bind_eq_some.mp run
      cases run
      exact counts _ _ _ _ counted
  · obtain ⟨_, _, changed, _, _, counted, run⟩ := bind₂_eq_some.mp run
    cases run
    exact (onTables_eq_some changed).2.trans (counts _ _ _ _ counted)

theorem allocateManualExternal_same {range : VirtualMemoryRange} {start stop : Nat} {ok : Bool}
    (run : allocateManualExternal range start stop sp = some (ok, sp')) : SameNamespaces sp sp' := by
  unfold allocateManualExternal at run
  split at run
  · cases run
    exact SameNamespaces.refl _
  · refine manual_same (fun node n u u' counted => ?_) run
    cases counted
    exact ⟨rfl, rfl⟩

theorem freeManualExternal_same {range : VirtualMemoryRange} {start stop : Nat} {ok : Bool}
    (run : freeManualExternal range start stop sp = some (ok, sp')) : SameNamespaces sp sp' := by
  unfold freeManualExternal at run
  split at run
  · cases run
    exact SameNamespaces.refl _
  · refine manual_same (fun node n u u' counted => ?_) run
    cases counted
    exact ⟨rfl, rfl⟩

theorem onPages_same {pages : VirtualMemoryRange → Nat → Nat → Prog Space Bool}
    (run : onPages pages namespaceId regionId offset numPages sp = some (out, sp'))
    (same : ∀ range start stop ok u u', pages range start stop u = some (ok, u') → SameNamespaces u u') :
    SameNamespaces sp sp' := by
  obtain ⟨ns, _, get, remaining⟩ := bind_eq_some.mp run
  obtain ⟨-, rfl⟩ := getNamespace_eq_some get
  cases selected : ns.bind fun ns => selectRange ns (regionId % 2 ^ 32) offset with
  | none =>
    simp only [selected] at remaining
    cases remaining
    exact SameNamespaces.refl _
  | some range =>
    simp only [selected] at remaining
    obtain ⟨_, remaining⟩ := assert_bind_eq_some.mp remaining
    obtain ⟨ok, _, work, remaining⟩ := bind_eq_some.mp remaining
    cases remaining
    exact same _ _ _ _ _ _ work

/-! ### Each call -/

section

variable (regions : sp.RegionsInUserHalf) (filed : sp.Filed) {ns' : MemoryNamespace}

include regions filed

theorem keeps_of_counter_le (same : sp'.namespaces = sp.namespaces) (counter : sp.namespaceIdCounter ≤ sp'.namespaceIdCounter) :
    StepKeeps sp sp' where
  regions id ns found := regions id ns (same ▸ found)
  filed := ⟨fun id ns found => filed.named id ns (same ▸ found), fun id above => by
    rw [same]
    exact filed.fresh id (counter.trans above)⟩
  half := ⟨fun id ns found => ⟨ns, same ▸ found, fun _ _ _ => rfl⟩, fun id ns' missing found => by
    rw [same, missing] at found
    cases found⟩

theorem SameNamespaces.keeps (same : SameNamespaces sp sp') : StepKeeps sp sp' :=
  keeps_of_counter_le regions filed same.namespaces same.counter.ge

theorem setNamespace_keeps (same : mid.namespaces = sp.namespaces) (counter : sp.namespaceIdCounter ≤ mid.namespaceIdCounter)
    (used : ns'.id < mid.namespaceIdCounter) (low : ∀ r ∈ ns'.memoryRanges, r.stop ≤ 2 ^ 47)
    (top : ∀ i, 256 ≤ i → i < 512 → ns'.top i = (sp.namespaces ns'.id).elim 0 fun ns => ns.top i)
    (run : setNamespace ns' mid = some ((), sp')) : StepKeeps sp sp' := by
  cases run
  have here : Function.update mid.namespaces ns'.id (some ns') ns'.id = some ns' := Function.update_self _ _ _
  have elsewhere : ∀ id, id ≠ ns'.id → Function.update mid.namespaces ns'.id (some ns') id = sp.namespaces id :=
    fun id other => by rw [Function.update_of_ne other, same]
  refine ⟨fun id ns found => ?_, ⟨fun id ns found => ?_, fun id above => ?_⟩,
    ⟨fun id ns found => ?_, fun id ns missing found => ?_⟩⟩
  · obtain rfl | other := eq_or_ne id ns'.id
    · obtain rfl := some.inj (here.symm.trans found)
      exact low
    · exact regions id ns ((elsewhere id other).symm.trans found)
  · obtain rfl | other := eq_or_ne id ns'.id
    · rw [some.inj (here.symm.trans found)]
    · exact filed.named id ns ((elsewhere id other).symm.trans found)
  · have above' : mid.namespaceIdCounter ≤ id := above
    exact (elsewhere id (by omega)).trans (filed.fresh id (by omega))
  · obtain rfl | other := eq_or_ne id ns'.id
    · exact ⟨ns', here, fun i high bound => by rw [top i high bound, found, elim_some]⟩
    · exact ⟨ns, (elsewhere id other).trans found, fun _ _ _ => rfl⟩
  obtain rfl | other := eq_or_ne id ns'.id
  · obtain rfl := some.inj (here.symm.trans found)
    exact fun i high bound => by rw [top i high bound, missing, elim_none]
  · have old := (elsewhere id other).symm.trans found
    rw [missing] at old
    cases old

theorem replace_keeps {id : Nat} (found : sp.namespaces id = some ns) (within : ns.Within ns') (same : SameNamespaces sp mid)
    (run : setNamespace ns' mid = some ((), sp')) : StepKeeps sp sp' := by
  have named : ns'.id = id := within.id.trans (filed.named id ns found)
  have used : id < sp.namespaceIdCounter := by
    by_contra above
    rw [filed.fresh id (not_lt.mp above)] at found
    cases found
  refine setNamespace_keeps regions filed same.namespaces same.counter.ge (by rw [named, same.counter]; exact used)
    (fun r member => (within.regions r member).elim (regions id ns found r) (fun low => low)) (fun i high bound => ?_) run
  rw [named, found, within.top i high bound, elim_some]

theorem create_keeps (lower : ns.LowerOnly sp.namespaceIdCounter) (same : mid.namespaces = sp.namespaces)
    (counter : mid.namespaceIdCounter = sp.namespaceIdCounter + 1) (run : setNamespace ns mid = some ((), sp')) :
    StepKeeps sp sp' := by
  refine setNamespace_keeps regions filed same (by omega) (by rw [lower.id]; omega) lower.regions
    (fun i high bound => ?_) run
  rw [lower.id, filed.fresh _ (le_refl _), lower.top i high bound, elim_none]

theorem StepKeeps.refl : StepKeeps sp sp :=
  (SameNamespaces.refl sp).keeps regions filed

omit regions filed in
theorem StepKeeps.same (keeps : StepKeeps sp mid) (same : SameNamespaces mid sp') : StepKeeps sp sp' := by
  have after := same.keeps keeps.regions keeps.filed
  exact ⟨after.regions, after.filed, keeps.half.trans after.half⟩

theorem makeRegion_keeps (low : sp.StaysLow (.makeRegion args)) (run : makeRegion args sp = some (out, sp')) : StepKeeps sp sp' := by
  unfold makeRegion at run
  cases parsed : args.parse with
  | none =>
    simp only [parsed] at run
    cases run
    exact StepKeeps.refl regions filed
  | some values =>
    obtain ⟨name, c, rangeType, mode⟩ := values
    have capacity := MakeRegion.capacity_of_parse parsed
    simp only [parsed] at run
    obtain ⟨ns, _, get, run⟩ := bind_eq_some.mp run
    obtain ⟨found, rfl⟩ := getNamespace_eq_some get
    cases ns with
    | none =>
      cases run
      exact StepKeeps.refl regions filed
    | some ns =>
      obtain ⟨start, _, choose, run⟩ := bind_eq_some.mp run
      obtain ⟨bound, rfl⟩ := regionStart_spec (low ns c found.symm capacity) choose
      cases start with
      | none =>
        cases run
        exact StepKeeps.refl regions filed
      | some start =>
        obtain ⟨range, _, create, ⟨ns', res⟩, _, add, run⟩ := bind₂_eq_some.mp run
        obtain ⟨⟨_, create⟩, same⟩ := onTables_eq_some create
        obtain ⟨⟨_, add⟩, same'⟩ := onTables_eq_some add
        have capacity : range.capacity = c := by
          obtain ⟨_, _, _, _, _, _, create⟩ := bind₂_eq_some.mp create
          cases create
          rfl
        have within := MemoryNamespace.addMemRange_within (capacity ▸ bound start rfl) add
        obtain ⟨_, stored, store, run⟩ := bind_eq_some.mp run
        have keeps := replace_keeps regions filed found.symm within (same.trans same') store
        cases res with
        | none =>
          obtain ⟨_, _, delete, run⟩ := bind_eq_some.mp run
          cases run
          exact keeps.same (onTables_eq_some delete).2
        | some id =>
          cases run
          exact keeps

theorem removeRegion_keeps (run : removeRegion namespaceId regionId sp = some (out, sp')) : StepKeeps sp sp' := by
  obtain ⟨ns, _, get, run⟩ := bind_eq_some.mp run
  obtain ⟨found, rfl⟩ := getNamespace_eq_some get
  cases ns with
  | none =>
    cases run
    exact StepKeeps.refl regions filed
  | some ns =>
    obtain ⟨⟨ns', removed⟩, _, remove, run⟩ := bind_eq_some.mp run
    obtain ⟨⟨_, remove⟩, same⟩ := onTables_eq_some remove
    have within := MemoryNamespace.removeMemRange_within (regions _ ns found.symm) remove
    obtain ⟨_, stored, store, run⟩ := bind_eq_some.mp run
    have keeps := replace_keeps regions filed found.symm within same store
    cases removed with
    | none =>
      cases run
      exact keeps
    | some removed =>
      obtain ⟨_, _, dropped, run⟩ := bind_eq_some.mp run
      cases run
      exact keeps.same (dropRange_same dropped)

theorem mknamespace_keeps {existing : Nat} (run : mknamespace existing sp = some (out, sp')) : StepKeeps sp sp' := by
  unfold mknamespace at run
  split at run
  · obtain ⟨id, _, next, run⟩ := bind_eq_some.mp run
    cases next
    obtain ⟨ns, mid, create, run⟩ := bind_eq_some.mp run
    obtain ⟨⟨_, create⟩, same⟩ := onTables_eq_some create
    obtain ⟨_, _, store, run⟩ := bind_eq_some.mp run
    cases run
    exact create_keeps regions filed (MemoryNamespace.createEmpty_lowerOnly create) same.namespaces same.counter store
  · obtain ⟨other, _, holder, run⟩ := bind_eq_some.mp run
    simp only [getNamespaceHolder, some.injEq, Prod.mk.injEq] at holder
    obtain ⟨found, rfl⟩ := holder
    cases other with
    | none =>
      cases run
      exact StepKeeps.refl regions filed
    | some other =>
      obtain ⟨id, _, next, run⟩ := bind_eq_some.mp run
      cases next
      obtain ⟨ns, mid, create, run⟩ := bind_eq_some.mp run
      obtain ⟨⟨_, create⟩, same⟩ := onTables_eq_some create
      cases ns with
      | none =>
        cases run
        exact keeps_of_counter_le regions filed same.namespaces (same.counter ▸ Nat.le_succ _)
      | some ns =>
        obtain ⟨_, _, store, run⟩ := bind_eq_some.mp run
        cases run
        exact create_keeps regions filed
          (MemoryNamespace.createFrom_lowerOnly (regions existing other found) create) same.namespaces same.counter store

theorem call_keeps {call : MemCall} (low : sp.StaysLow call) (run : call.run sp = some (out, sp')) : StepKeeps sp sp' := by
  cases call with
  | makeRegion args => exact makeRegion_keeps regions filed low run
  | removeRegion namespaceId regionId => exact removeRegion_keeps regions filed run
  | mmap => exact (onPages_same run fun _ _ _ _ _ _ => allocateManualExternal_same).keeps regions filed
  | munmap => exact (onPages_same run fun _ _ _ _ _ _ => freeManualExternal_same).keeps regions filed
  | mknamespace existing => exact mknamespace_keeps regions filed run

end

end Space

inductive MemRun (P : Space → MemCall → Prop) : Space → Space → Prop where
  | refl (sp : Space) : MemRun P sp sp
  | step {sp mid sp' : Space} {call : MemCall} {out : List Nat} :
      MemRun P sp mid → P mid call → call.run mid = some (out, sp') → MemRun P sp sp'

/-- As long as no call asks for a region between `2 ^ 47` and `2 ^ 48`, or leaves the choice to the kernel when the
lower half is full, every region stays in the lower half and the kernel's half of every root stays as it was. -/
theorem regions_stay_in_user_half {sp sp' : Space} (regions : sp.RegionsInUserHalf) (filed : sp.Filed)
    (run : MemRun Space.StaysLow sp sp') : sp'.RegionsInUserHalf ∧ Space.KernelHalfKept sp sp' := by
  suffices keeps : Space.StepKeeps sp sp' from ⟨keeps.regions, keeps.half⟩
  induction run with
  | refl => exact Space.StepKeeps.refl regions filed
  | step _ low call ih =>
    have after := Space.call_keeps ih.regions ih.filed low call
    exact ⟨after.regions, after.filed, ih.half.trans after.half⟩

/-! ## Two runs -/

def freshSpace : Space where
  tables := ⟨fun _ _ => 0, (List.range 10).map fun i => 0x1000 * (i + 1), fun _ => false,
    ⟨2 ^ 64 - 2 ^ 47, 2 ^ 40, by decide, by decide⟩, fun _ => 0⟩
  allocated := fun _ => 0
  namespaces := fun id => if id = 1 then some ⟨1, 0x100000, fun _ => 0, [], 1⟩ else none
  current := 1
  namespaceIdCounter := 2

theorem freshSpace_regions : freshSpace.RegionsInUserHalf := by
  intro id ns found
  simp only [freshSpace] at found
  split at found
  · cases found
    exact nofun
  · cases found

theorem freshSpace_filed : freshSpace.Filed := by
  refine ⟨fun id ns found => ?_, fun id above => ?_⟩
  · simp only [freshSpace] at found
    split at found
    next one =>
      cases found
      exact one.symm
    · cases found
  · simp only [freshSpace] at above ⊢
    exact if_neg (by omega)

def regionAt (startAddr sizeOrder : Nat) : MemCall :=
  .makeRegion ⟨0, startAddr, sizeOrder, 1, 2, 2 ^ 32, some "data"⟩

/-- A region of 2 MB, one page mapped in it, and a copy of the namespace. -/
theorem regions_stay_in_user_half_copy : ∃ sp, MemRun Space.StaysLow freshSpace sp ∧ sp.namespaceIdCounter = 3 ∧
    sp.RegionsInUserHalf ∧ Space.KernelHalfKept freshSpace sp := by
  let calls : Prog Space (List Nat) := do
    let _ ← (regionAt 0x200000 1).run
    let _ ← (MemCall.mmap 0 1 0 1).run
    (MemCall.mknamespace 1).run
  have runs : ((calls freshSpace).map fun r => r.2.namespaceIdCounter) = some 3 := by
    decide +kernel
  obtain ⟨⟨out, sp⟩, run, counter⟩ := map_eq_some_iff.mp runs
  obtain ⟨_, a, make, _, b, map, copy⟩ := bind₂_eq_some.mp run
  have low : freshSpace.StaysLow (regionAt 0x200000 1) := by
    intro ns c _ capacity
    cases capacity
    exact .inl (by decide)
  have mapLow : a.StaysLow (.mmap 0 1 0 1) := trivial
  have copyLow : b.StaysLow (.mknamespace 1) := trivial
  have all : MemRun Space.StaysLow freshSpace sp :=
    (((MemRun.refl freshSpace).step low make).step mapLow map).step copyLow copy
  exact ⟨sp, all, counter, regions_stay_in_user_half freshSpace_regions freshSpace_filed all⟩

/-- A region at the first address of the kernel's half is accepted, and its link is entry 256 of the root. -/
theorem region_in_kernel_half : ∃ sp, MemRun (fun _ _ => True) freshSpace sp ∧ ¬ sp.RegionsInUserHalf ∧
    ¬ Space.KernelHalfKept freshSpace sp := by
  have runs : (((regionAt (2 ^ 47) 3).run freshSpace).map fun r =>
      ((r.2.namespaces 1).map fun ns => (ns.memoryRanges.map fun r => r.stop, ns.top 256 == 0))) =
      some (some ([2 ^ 47 + 2 ^ 39], false)) := by
    decide +kernel
  obtain ⟨⟨out, sp⟩, run, seen⟩ := map_eq_some_iff.mp runs
  obtain ⟨ns, found, seen⟩ := map_eq_some_iff.mp seen
  obtain ⟨stops, written⟩ := Prod.mk.inj seen
  refine ⟨sp, (MemRun.refl freshSpace).step trivial run, fun regions => ?_, fun kept => ?_⟩
  · obtain ⟨r, member, stop⟩ := List.mem_map.mp (stops ▸ List.mem_singleton_self (2 ^ 47 + 2 ^ 39))
    have := regions 1 ns found r member
    omega
  obtain ⟨ns', found', top⟩ := kept.kept 1 _ rfl
  obtain rfl := some.inj (found.symm.trans found')
  have same := top 256 (le_refl _) (by omega)
  rw [same] at written
  cases written

end MeowOs.Memory
