import MeowOs.Memory.AllocationArea

/-! # The virtual areas partition what `init` was given

`Tiles set P` says that the areas of a set cut the pages `P` into disjoint
pieces.  The used areas tile one set of pages and the free areas another; an
allocation moves pages from the free to the used ones and `free_area` moves
them back, so that together they always tile the managed pages.
-/

namespace MeowOs.Memory

open MeowOs.Machine AllocationInfo

def Area.pages (a : Area) : Set Nat := Set.Ico a.startPageIndex (a.startPageIndex + a.nPages)

theorem Area.mem_pages {a : Area} {p : Nat} :
    p ∈ a.pages ↔ a.startPageIndex ≤ p ∧ p < a.startPageIndex + a.nPages := Iff.rfl

/-- The areas of the set are non-empty, and cut the pages `P` into disjoint pieces. -/
structure Tiles (set : AddrSet) (P : Set Nat) : Prop where
  covers : ∀ p, p ∈ P ↔ ∃ a ∈ set, p ∈ a.pages
  disjoint : ∀ a ∈ set, ∀ b ∈ set, a ≠ b → Disjoint a.pages b.pages
  nonempty : ∀ a ∈ set, 0 < a.nPages
  below : ∀ a ∈ set, a.startPageIndex + a.nPages ≤ 2 ^ 36

structure Area.Fresh (a : Area) (P : Set Nat) : Prop where
  disjoint : Disjoint P a.pages
  nonempty : 0 < a.nPages
  below : a.startPageIndex + a.nPages ≤ 2 ^ 36

namespace Tiles

variable {set : AddrSet} {P : Set Nat} {a b : Area}

theorem empty : Tiles .empty ∅ := by
  refine ⟨fun p => ?_, ?_, ?_, ?_⟩
  · simp only [Set.mem_empty_iff_false, false_iff]
    rintro ⟨a, mem, -⟩
    exact OrdSet.not_mem_empty mem
  all_goals exact fun a mem => absurd mem OrdSet.not_mem_empty

theorem subset (tiles : Tiles set P) (mem : a ∈ set) : a.pages ⊆ P := fun p has =>
  (tiles.covers p).mpr ⟨a, mem, has⟩

theorem mem_remove (mem : a ∈ set) : b ∈ set.remove a.addrKey ↔ b ∈ set ∧ b ≠ a := by
  rw [OrdSet.mem_remove]
  refine and_congr_right fun memB => not_congr ⟨OrdSet.eq_of_key memB mem, ?_⟩
  rintro rfl
  rfl

theorem remove (tiles : Tiles set P) (mem : a ∈ set) : Tiles (set.remove a.addrKey) (P \ a.pages) := by
  refine ⟨fun p => ?_, ?_, ?_, ?_⟩
  · rw [Set.mem_sdiff, tiles.covers p]
    constructor
    · rintro ⟨⟨b, memB, has⟩, out⟩
      refine ⟨b, (mem_remove mem).mpr ⟨memB, ?_⟩, has⟩
      rintro rfl
      exact out has
    · rintro ⟨b, memB, has⟩
      obtain ⟨memB, ne⟩ := (mem_remove mem).mp memB
      exact ⟨⟨b, memB, has⟩, fun hasA => Set.disjoint_left.mp (tiles.disjoint b memB a mem ne) has hasA⟩
  · intro b memB c memC
    exact tiles.disjoint b ((mem_remove mem).mp memB).1 c ((mem_remove mem).mp memC).1
  · exact fun b memB => tiles.nonempty b ((mem_remove mem).mp memB).1
  · exact fun b memB => tiles.below b ((mem_remove mem).mp memB).1

theorem start_mem (nonempty : 0 < a.nPages) : a.startPageIndex ∈ a.pages :=
  ⟨Nat.le_refl _, by omega⟩

theorem fresh_key (tiles : Tiles set P) (fresh : a.Fresh P) : ∀ b ∈ set, b.addrKey ≠ a.addrKey := by
  intro b memB same
  have inB : a.startPageIndex ∈ b.pages := by
    rw [← show b.startPageIndex = a.startPageIndex from same]
    exact start_mem (tiles.nonempty b memB)
  exact Set.disjoint_left.mp fresh.disjoint (tiles.subset memB inB) (start_mem fresh.nonempty)

theorem mem_insert (tiles : Tiles set P) (fresh : a.Fresh P) :
    b ∈ set.insert a ↔ b = a ∨ b ∈ set := OrdSet.mem_insert_of_fresh (tiles.fresh_key fresh)

theorem insert (tiles : Tiles set P) (fresh : a.Fresh P) : Tiles (set.insert a) (P ∪ a.pages) := by
  have mem_insert : ∀ {b : Area}, b ∈ set.insert a ↔ b = a ∨ b ∈ set := tiles.mem_insert fresh
  have apart : ∀ b ∈ set, Disjoint b.pages a.pages := fun b memB =>
    fresh.disjoint.mono_left (tiles.subset memB)
  refine ⟨fun p => ?_, ?_, ?_, ?_⟩
  · simp only [Set.mem_union, tiles.covers, mem_insert, or_and_right, exists_or, exists_eq_left]
    exact or_comm
  · intro b memB c memC ne
    rcases mem_insert.mp memB with rfl | oldB <;> rcases mem_insert.mp memC with rfl | oldC
    · exact absurd rfl ne
    · exact (apart c oldC).symm
    · exact apart b oldB
    · exact tiles.disjoint b oldB c oldC ne
  · exact fun b memB => (mem_insert.mp memB).elim (· ▸ fresh.nonempty) (tiles.nonempty b)
  · exact fun b memB => (mem_insert.mp memB).elim (· ▸ fresh.below) (tiles.below b)

end Tiles

/-! ## Merging -/

/-- What `absorbAfter` and `absorbBefore` do: nothing, or one area of the set becomes part of `area`. -/
inductive Absorbs (set : AddrSet) (area : Area) : AddrSet × Area × Option Area → Prop where
  | nothing : Absorbs set area (set, area, none)
  | one {entry joined : Area} : entry ∈ set → joined.pages = area.pages ∪ entry.pages →
      joined.nPages = area.nPages + entry.nPages → joined.startPageIndex + joined.nPages ≤ 2 ^ 36 →
      Absorbs set area (set.remove entry.addrKey, joined, some entry)

namespace Absorbs

variable {set : AddrSet} {P : Set Nat} {area : Area} {r : AddrSet × Area × Option Area}

theorem tiles (absorbs : Absorbs set area r) (tiles : Tiles set P) (fresh : area.Fresh P) :
    ∃ Q, Tiles r.1 Q ∧ r.2.1.Fresh Q ∧ Q ∪ r.2.1.pages = P ∪ area.pages ∧ area.pages ⊆ r.2.1.pages := by
  cases absorbs with
  | nothing => exact ⟨P, tiles, fresh, rfl, subset_rfl⟩
  | @one entry joined mem pages count below =>
    have sub := tiles.subset mem
    refine ⟨P \ entry.pages, tiles.remove mem, ⟨?_, ?_, below⟩, ?_, ?_⟩
    · rw [pages, Set.disjoint_union_right]
      exact ⟨fresh.disjoint.mono_left Set.sdiff_subset, Set.disjoint_sdiff_left⟩
    · have := fresh.nonempty
      show 0 < joined.nPages
      omega
    · rw [pages]
      ext p
      simp only [Set.mem_union, Set.mem_sdiff]
      tauto
    · rw [pages]
      exact Set.subset_union_left

theorem absorbed_subset (absorbs : Absorbs set area r) {entry : Area} (absorbed : r.2.2 = some entry) :
    entry.pages ⊆ r.2.1.pages := by
  cases absorbs with
  | nothing => cases absorbed
  | one mem pages =>
    cases absorbed
    rw [pages]
    exact Set.subset_union_right

theorem kept_or_absorbed (absorbs : Absorbs set area r) {entry : Area} :
    entry ∈ set ↔ entry ∈ r.1 ∨ r.2.2 = some entry := by
  cases absorbs with
  | nothing => simp
  | @one other joined memOther =>
    rw [Tiles.mem_remove memOther, Option.some.injEq]
    constructor
    · exact fun mem => or_iff_not_imp_right.mpr fun ne => ⟨mem, Ne.symm ne⟩
    · rintro (⟨mem, -⟩ | rfl)
      · exact mem
      · exact memOther

end Absorbs

section Absorb

variable (joins : Area → Area → Bool) {set : AddrSet} {P : Set Nat} {area : Area}

theorem end_mod (fresh : area.Fresh P) :
    (area.startPageIndex + area.nPages) % 2 ^ 48 = area.startPageIndex + area.nPages := by
  have := fresh.below
  omega

theorem absorbAfter_spec (tiles : Tiles set P) (fresh : area.Fresh P) :
    Absorbs set area (absorbAfter joins set area) ∧ (absorbAfter joins set area).2.1.flagBits = area.flagBits ∧
      (absorbAfter joins set area).2.1.startPageIndex = area.startPageIndex ∧
      ∀ e, (absorbAfter joins set area).2.2 = some e → e.startPageIndex = area.startPageIndex + area.nPages := by
  unfold absorbAfter
  rw [end_mod fresh]
  split
  case h_2 => exact ⟨.nothing, rfl, rfl, nofun⟩
  case h_1 entry found =>
  obtain ⟨mem, key⟩ := OrdSet.get_eq_some.mp found
  have start : entry.startPageIndex = area.startPageIndex + area.nPages := key
  have below := tiles.below entry mem
  split
  case isFalse => exact ⟨.nothing, rfl, rfl, nofun⟩
  case isTrue =>
  refine ⟨.one mem ?_ rfl (by simp only; omega), rfl, rfl, fun e absorbed => Option.some.inj absorbed ▸ start⟩
  ext p
  simp only [Set.mem_union, Area.mem_pages]
  omega

theorem absorbBefore_spec (set : AddrSet) (fresh : area.Fresh P) :
    Absorbs set area (absorbBefore joins set area) ∧ (absorbBefore joins set area).2.1.flagBits = area.flagBits ∧
      ∀ e, (absorbBefore joins set area).2.2 = some e → e.startPageIndex + e.nPages = area.startPageIndex := by
  unfold absorbBefore
  split
  case h_2 => exact ⟨.nothing, rfl, nofun⟩
  case h_1 entry found =>
  obtain ⟨mem, -, -⟩ := OrdSet.lastWith_eq_some found
  split
  case isFalse => exact ⟨.nothing, rfl, nofun⟩
  case isTrue touches =>
  have ends : entry.startPageIndex + entry.nPages = area.startPageIndex := by
    simp only [Bool.and_eq_true, decide_eq_true_eq] at touches
    exact touches.1
  have below := fresh.below
  refine ⟨.one mem ?_ rfl (by simp only; omega), rfl, fun e absorbed => Option.some.inj absorbed ▸ ends⟩
  ext p
  simp only [Set.mem_union, Area.mem_pages]
  omega

theorem absorbAfter_always (fresh : area.Fresh P) {entry : Area} (mem : entry ∈ set)
    (touches : entry.startPageIndex = area.startPageIndex + area.nPages) :
    (absorbAfter always set area).2.2 = some entry := by
  unfold absorbAfter
  rw [end_mod fresh, OrdSet.get_eq_some.mpr ⟨mem, touches⟩]
  rfl

theorem absorbBefore_always (tiles : Tiles set P) {entry : Area} (mem : entry ∈ set)
    (touches : entry.startPageIndex + entry.nPages = area.startPageIndex) :
    (absorbBefore always set area).2.2 = some entry := by
  have nonempty := tiles.nonempty entry mem
  have below : entry.addrKey < area.addrKey := by
    show entry.startPageIndex < area.startPageIndex
    omega
  unfold absorbBefore
  split
  case h_2 none => exact absurd (OrdSet.lastWith_eq_none none entry mem) (by simpa using below)
  case h_1 last found =>
  obtain ⟨memLast, belowLast, greatest⟩ := OrdSet.lastWith_eq_some found
  have lastBelow : last.startPageIndex < area.startPageIndex := of_decide_eq_true belowLast
  have above : entry.startPageIndex ≤ last.startPageIndex := greatest entry mem (by simpa using below)
  -- an area that starts later would start inside `entry`
  have same : last = entry := by
    by_contra ne
    have inLast : last.startPageIndex ∈ last.pages := Tiles.start_mem (tiles.nonempty last memLast)
    have inEntry : last.startPageIndex ∈ entry.pages := ⟨above, by omega⟩
    exact Set.disjoint_left.mp (tiles.disjoint last memLast entry mem ne) inLast inEntry
  rw [same, if_pos (by simp [always, touches])]

end Absorb

variable {U F M : Set Nat} {info info' : AllocationInfo} {entry : Area} {n addr : Nat} {used : AddrSet}
  {nPages : Option Nat} {ranges : List (Nat × Nat)} {s t : AreaState}

theorem addUsed_tiles {newAlloc : Area} (flags : Nat) (tiles : Tiles used U)
    (fresh : newAlloc.Fresh U) : Tiles (addUsed used newAlloc flags) (U ∪ newAlloc.pages) := by
  unfold addUsed
  split
  case isTrue => exact tiles.insert fresh
  case isFalse =>
  obtain ⟨Q, tilesQ, freshQ, sameQ, -⟩ := (absorbAfter_spec sameFlags tiles fresh).1.tiles tiles fresh
  obtain ⟨R, tilesR, freshR, sameR, -⟩ :=
    (absorbBefore_spec sameFlags _ freshQ).1.tiles tilesQ freshQ
  have inserted := tilesR.insert freshR
  rwa [sameR, sameQ] at inserted

/-! ## The two sets of free areas -/

/-- Both sets of free areas hold the same areas, which tile `F`. -/
structure FreeTiles (info : AllocationInfo) (F : Set Nat) : Prop where
  tiles : Tiles info.freeAddrSorted F
  same : ∀ a, a ∈ info.freeSizeSorted ↔ a ∈ info.freeAddrSorted

section Free

variable {size : SizeSet} {addr : AddrSet} {F : Set Nat} {a : Area}

theorem same_remove (same : ∀ b, b ∈ size ↔ b ∈ addr) (mem : a ∈ addr) (b : Area) :
    b ∈ size.remove a.sizeKey ↔ b ∈ addr.remove a.addrKey := by
  rw [OrdSet.mem_remove, Tiles.mem_remove mem, same b]
  refine and_congr_right fun memB => not_congr ⟨?_, ?_⟩
  · exact OrdSet.eq_of_key ((same b).mpr memB) ((same a).mpr mem)
  · rintro rfl
    rfl

theorem same_insert (same : ∀ b, b ∈ size ↔ b ∈ addr) (tiles : Tiles addr F) (fresh : a.Fresh F) (b : Area) :
    b ∈ size.insert a ↔ b ∈ addr.insert a := by
  have freshSize : ∀ c ∈ size, c.sizeKey ≠ a.sizeKey := by
    intro c mem eq
    have start : c.addrKey = a.addrKey := congrArg (fun k => (ofLex k).2) eq
    exact tiles.fresh_key fresh c ((same c).mp mem) start
  rw [OrdSet.mem_insert_of_fresh freshSize, tiles.mem_insert fresh, same b]

theorem same_absorbed (same : ∀ b, b ∈ size ↔ b ∈ addr) {r : AddrSet × Area × Option Area}
    (absorbs : Absorbs addr a r) (b : Area) : b ∈ dropAbsorbed size r.2.2 ↔ b ∈ r.1 := by
  cases absorbs with
  | nothing => exact same b
  | one mem => exact same_remove same mem b

end Free

/-- The area that starts at `page` with `n` pages was merged with the free areas next to it. -/
def MergedWithNeighbours (before after : AllocationInfo) (page n : Nat) : Prop :=
  ∃ f ∈ after.freeAddrSorted, Set.Ico page (page + n) ⊆ f.pages ∧
    ∀ e ∈ before.freeAddrSorted, e.startPageIndex = page + n ∨ e.startPageIndex + e.nPages = page → e.pages ⊆ f.pages

theorem addFree_tiles {newFree : Area} (free : FreeTiles info F) (fresh : newFree.Fresh F) :
    FreeTiles (info.addFree newFree) (F ∪ newFree.pages) ∧ (info.addFree newFree).used = info.used ∧
      MergedWithNeighbours info (info.addFree newFree) newFree.startPageIndex newFree.nPages := by
  obtain ⟨after, -, start, -⟩ := absorbAfter_spec always free.tiles fresh
  obtain ⟨Q, tilesQ, freshQ, sameQ, subQ⟩ := after.tiles free.tiles fresh
  have before := (absorbBefore_spec always (absorbAfter always info.freeAddrSorted newFree).1 freshQ).1
  obtain ⟨R, tilesR, freshR, sameR, subR⟩ := before.tiles tilesQ freshQ
  refine ⟨⟨?_, ?_⟩, rfl, _, (tilesR.mem_insert freshR).mpr (.inl rfl), subQ.trans subR, ?_⟩
  · have inserted := tilesR.insert freshR
    rwa [sameR, sameQ] at inserted
  · exact same_insert (same_absorbed (same_absorbed free.same after) before) tilesR freshR
  rintro e mem (behind | inFront)
  · exact (after.absorbed_subset (absorbAfter_always fresh mem behind)).trans subR
  · cases after.kept_or_absorbed.mp mem with
    | inl kept => exact before.absorbed_subset (absorbBefore_always tilesQ kept (by rw [start]; exact inFront))
    | inr absorbed => exact (after.absorbed_subset absorbed).trans subR

/-! ## Cutting pages off an area -/

def Area.rest (a : Area) (n : Nat) : Area :=
  { a with startPageIndex := a.startPageIndex + n, nPages := a.nPages - n }

section Cut

variable {set : AddrSet} {P : Set Nat} {entry : Area} {n : Nat}

theorem Tiles.rest_fresh (tiles : Tiles set P) (mem : entry ∈ set) (some : 0 < entry.nPages - n) :
    (entry.rest n).Fresh (P \ entry.pages) := by
  have below := tiles.below entry mem
  refine ⟨Set.disjoint_left.mpr ?_, some, by simp only [Area.rest]; omega⟩
  rintro p ⟨-, out⟩ inside
  simp only [Area.mem_pages, Area.rest] at inside out
  omega

theorem Tiles.sdiff_front (tiles : Tiles set P) (mem : entry ∈ set) (enough : n ≤ entry.nPages) :
    P \ entry.pages ∪ (entry.rest n).pages = P \ Set.Ico entry.startPageIndex (entry.startPageIndex + n) := by
  ext p
  have inP : p ∈ entry.pages → p ∈ P := fun has => tiles.subset mem has
  simp only [Set.mem_union, Set.mem_sdiff, Area.mem_pages, Set.mem_Ico, Area.rest] at inP ⊢
  by_cases has : p ∈ P
  · simp only [has, true_and]
    omega
  have out : ¬ (entry.startPageIndex ≤ p ∧ p < entry.startPageIndex + entry.nPages) :=
    fun inside => has (inP inside)
  simp only [has, false_and, false_or, iff_false]
  omega

theorem Tiles.sdiff_all (enough : n ≤ entry.nPages) (none : ¬ 0 < entry.nPages - n) :
    entry.pages = Set.Ico entry.startPageIndex (entry.startPageIndex + n) := by
  rw [Area.pages, show entry.nPages = n by omega]

end Cut

theorem splitFree_tiles (free : FreeTiles info F) (mem : entry ∈ info.freeAddrSorted) (enough : n ≤ entry.nPages) :
    FreeTiles (info.splitFree entry n) (F \ Set.Ico entry.startPageIndex (entry.startPageIndex + n)) := by
  have removed := free.tiles.remove mem
  have sameRemoved := same_remove free.same mem
  have below := free.tiles.below entry mem
  have start : (entry.startPageIndex + n) % 2 ^ 48 = entry.startPageIndex + n := Nat.mod_eq_of_lt (by omega)
  unfold splitFree
  simp only [start]
  split
  case isTrue some =>
    have fresh := free.tiles.rest_fresh mem some
    have inserted := removed.insert fresh
    rw [free.tiles.sdiff_front mem enough] at inserted
    exact ⟨inserted, same_insert sameRemoved removed fresh⟩
  case isFalse none =>
    rw [Tiles.sdiff_all enough none] at removed
    exact ⟨removed, sameRemoved⟩

/-- A used area gives up its first pages; what is left in front is computed as `0`, rightly. -/
theorem cutUsed_tiles (tiles : Tiles used U) (mem : entry ∈ used) (enough : n ≤ entry.nPages) :
    Tiles (cutUsed used entry entry.startPageIndex n)
      (U \ Set.Ico entry.startPageIndex (entry.startPageIndex + n)) := by
  have removed := tiles.remove mem
  have below := tiles.below entry mem
  have start : (entry.startPageIndex + n) % 2 ^ 48 = entry.startPageIndex + n := Nat.mod_eq_of_lt (by omega)
  unfold cutUsed
  simp only [start, Nat.sub_self, Nat.zero_div, Nat.sub_zero, Nat.lt_irrefl, if_false, gt_iff_lt]
  split
  case isTrue some =>
    have inserted := removed.insert (tiles.rest_fresh mem some)
    rwa [tiles.sdiff_front mem enough] at inserted
  case isFalse none => rwa [Tiles.sdiff_all enough none] at removed

/-! ## The partition -/

/-- Used and free areas cut the managed pages `M` into disjoint pieces, and both sets of free areas hold
the same areas. -/
structure Partition (info : AllocationInfo) (M : Set Nat) : Prop where
  covers : ∀ p, p ∈ M ↔ (∃ a ∈ info.used, p ∈ a.pages) ∨ ∃ a ∈ info.freeAddrSorted, p ∈ a.pages
  usedDisjoint : ∀ a ∈ info.used, ∀ b ∈ info.used, a ≠ b → Disjoint a.pages b.pages
  freeDisjoint : ∀ a ∈ info.freeAddrSorted, ∀ b ∈ info.freeAddrSorted, a ≠ b → Disjoint a.pages b.pages
  apart : ∀ a ∈ info.used, ∀ b ∈ info.freeAddrSorted, Disjoint a.pages b.pages
  same : ∀ a, a ∈ info.freeSizeSorted ↔ a ∈ info.freeAddrSorted

structure AreaInv (info : AllocationInfo) (M U : Set Nat) : Prop where
  inside : U ⊆ M
  used : Tiles info.used U
  free : FreeTiles info (M \ U)

theorem AreaInv.partition (inv : AreaInv info M U) : Partition info M := by
  refine ⟨fun p => ?_, inv.used.disjoint, inv.free.tiles.disjoint, ?_, inv.free.same⟩
  · rw [← inv.used.covers p, ← inv.free.tiles.covers p, Set.mem_sdiff]
    have := @inv.inside p
    tauto
  · intro a memA b memB
    refine Set.disjoint_left.mpr fun p inA inB => ?_
    exact (inv.free.tiles.subset memB inB).2 (inv.used.subset memA inA)

theorem splitFree_used (info : AllocationInfo) (entry : Area) (n : Nat) :
    (info.splitFree entry n).used = info.used := by
  unfold splitFree
  simp only
  split <;> rfl

theorem AreaInv.first (inv : AreaInv info M U) (found : info.freeSizeSorted.firstFrom (toLex (n, 0)) = some entry) :
    entry ∈ info.freeAddrSorted ∧ n ≤ entry.nPages ∧
      Set.Ico entry.startPageIndex (entry.startPageIndex + n) ⊆ M \ U := by
  obtain ⟨mem, large⟩ := OrdSet.firstFrom_eq_some found
  have memAddr := (inv.free.same entry).mp mem
  have enough : n ≤ entry.nPages := by
    rcases Prod.Lex.toLex_le_toLex.mp large with lt | ⟨eq, -⟩
    · omega
    · omega
  refine ⟨memAddr, enough, Set.Subset.trans ?_ (inv.free.tiles.subset memAddr)⟩
  exact Set.Ico_subset_Ico_right (by omega)

theorem AreaInv.first_fresh (inv : AreaInv info M U)
    (found : info.freeSizeSorted.firstFrom (toLex (n, 0)) = some entry) (pos : 0 < n) (flagBits : Nat) :
    Area.Fresh ⟨entry.startPageIndex, flagBits, n⟩ U := by
  obtain ⟨mem, enough, front⟩ := inv.first found
  have below := inv.free.tiles.below entry mem
  exact ⟨Set.disjoint_left.mpr fun p inU inNew => (front inNew).2 inU, pos, by simp only; omega⟩

theorem AreaInv.allocate (inv : AreaInv info M U)
    (pos : 0 < n) (flags : Nat) : ∃ U', AreaInv (info.allocateArea n flags).2 M U' := by
  unfold allocateArea
  split
  case h_1 => exact ⟨U, inv⟩
  case h_2 entry found =>
  obtain ⟨mem, enough, front⟩ := inv.first found
  have split := splitFree_tiles inv.free mem enough
  refine ⟨U ∪ Set.Ico entry.startPageIndex (entry.startPageIndex + n), ?_, ?_, ?_, split.same⟩
  · exact Set.union_subset inv.inside fun p inNew => (front inNew).1
  · simp only [splitFree_used]
    exact addUsed_tiles flags inv.used (inv.first_fresh found pos _)
  · rw [← Set.sdiff_sdiff]
    exact split.tiles

def pageOf (addr : Nat) : Nat := trimAddrExtension addr / 4096

def freedCount (info : AllocationInfo) (addr : Nat) (nPages : Option Nat) : Nat :=
  match info.usedEntry (pageOf addr) with
  | some entry => freedPages entry (pageOf addr) nPages
  | none => 0

theorem usedEntry_of_start (tiles : Tiles info.used U)
    (mem : entry ∈ info.used) : info.usedEntry entry.startPageIndex = some entry := by
  have nonempty := tiles.nonempty entry mem
  unfold usedEntry
  split
  case h_1 none =>
    have := OrdSet.lastWith_eq_none none entry mem
    simp [Area.addrKey] at this
  case h_2 last found =>
  obtain ⟨memLast, upTo, greatest⟩ := OrdSet.lastWith_eq_some found
  have le : last.startPageIndex ≤ entry.startPageIndex := of_decide_eq_true upTo
  have ge : entry.startPageIndex ≤ last.startPageIndex :=
    greatest entry mem (decide_eq_true (Nat.le_refl entry.startPageIndex))
  obtain rfl : last = entry := OrdSet.eq_of_key memLast mem (Nat.le_antisymm le ge)
  rw [if_neg (by omega)]

/-- `free_area` at the start of a used area keeps the partition and merges what it frees. -/
theorem AreaInv.free_area (inv : AreaInv info M U) (pos : ∀ n, nPages = some n → 0 < n) (mem : entry ∈ info.used)
    (start : entry.startPageIndex = pageOf addr) (run : info.freeArea addr nPages = some info') :
    AreaInv info' M (U \ Set.Ico (pageOf addr) (pageOf addr + freedCount info addr nPages)) ∧
      MergedWithNeighbours info info' (pageOf addr) (freedCount info addr nPages) := by
  have found := usedEntry_of_start inv.used mem
  have nonempty := inv.used.nonempty entry mem
  have below := inv.used.below entry mem
  unfold freedCount
  unfold freeArea at run
  rw [show trimAddrExtension addr / 4096 = pageOf addr from rfl] at run
  rw [← start] at run ⊢
  simp only [found, Option.some.injEq] at run ⊢
  have count : freedPages entry entry.startPageIndex nPages ≤ entry.nPages ∧
      0 < freedPages entry entry.startPageIndex nPages := by
    unfold freedPages
    cases nPages with
    | none => simp only [Option.getD_none]; omega
    | some n => have := pos n rfl; simp only [Option.getD_some]; omega
  generalize freedPages entry entry.startPageIndex nPages = n at run count ⊢
  obtain ⟨enough, some⟩ := count
  have front : Set.Ico entry.startPageIndex (entry.startPageIndex + n) ⊆ U :=
    Set.Subset.trans (Set.Ico_subset_Ico_right (by omega)) (inv.used.subset mem)
  have fresh : Area.Fresh ⟨entry.startPageIndex, 0, n⟩ (M \ U) :=
    ⟨Set.disjoint_left.mpr fun p notUsed inNew => notUsed.2 (front inNew), some, by simp only; omega⟩
  have cut := cutUsed_tiles inv.used mem enough
  have freeBefore : FreeTiles { info with used := cutUsed info.used entry entry.startPageIndex n } (M \ U) :=
    ⟨inv.free.tiles, inv.free.same⟩
  obtain ⟨free', used', merged⟩ := addFree_tiles freeBefore fresh
  subst run
  refine ⟨⟨?_, ?_, ?_, free'.same⟩, merged⟩
  · exact Set.Subset.trans Set.sdiff_subset inv.inside
  · rw [used']
    exact cut
  have eq : M \ (U \ Set.Ico entry.startPageIndex (entry.startPageIndex + n)) =
      M \ U ∪ Set.Ico entry.startPageIndex (entry.startPageIndex + n) := by
    ext p
    have inM := @inv.inside p
    simp only [Set.mem_sdiff, Set.mem_union]
    tauto
  rw [eq]
  exact free'.tiles

/-! ## The initial areas -/

def rangePages (range : Nat × Nat) : Set Nat := Set.Ico (range.1 / 4096) (range.1 / 4096 + range.2)

def managed (ranges : List (Nat × Nat)) : Set Nat :=
  {p | ∃ range ∈ ranges, minAddr ≤ range.1 ∧ p ∈ rangePages range}

/-- Page-aligned ranges of the 48-bit address space that do not overlap. -/
structure FreeRanges (ranges : List (Nat × Nat)) : Prop where
  aligned : ∀ range ∈ ranges, 4096 ∣ range.1
  below : ∀ range ∈ ranges, range.1 + 4096 * range.2 ≤ 2 ^ 48
  disjoint : ranges.Pairwise fun r r' => Disjoint (rangePages r) (rangePages r')

theorem managed_cons (range : Nat × Nat) (ranges : List (Nat × Nat)) :
    managed (range :: ranges) = managed [range] ∪ managed ranges := by
  ext p
  simp [managed]

theorem addRange_tiles {range : Nat × Nat}
    (free : FreeTiles info F) (aligned : 4096 ∣ range.1) (below : range.1 + 4096 * range.2 ≤ 2 ^ 48)
    (apart : Disjoint F (rangePages range)) (run : info.addRange range = some info') :
    FreeTiles info' (F ∪ managed [range]) ∧ info'.used = info.used := by
  have single : ∀ p, p ∈ managed [range] ↔ minAddr ≤ range.1 ∧ p ∈ rangePages range := by
    intro p
    simp [managed]
  have none : (¬ minAddr ≤ range.1 ∨ range.2 = 0) → F ∪ managed [range] = F := by
    intro refused
    refine Set.union_eq_self_of_subset_right fun p inRange => ?_
    obtain ⟨accepted, lo, hi⟩ := (single p).mp inRange
    cases refused with
    | inl low => exact absurd accepted low
    | inr zero => omega
  unfold addRange at run
  simp only at run
  split at run
  case isTrue low =>
    cases run
    rw [none (.inl (by omega))]
    exact ⟨free, rfl⟩
  case isFalse high =>
  have diff : minAddr - range.1 = 0 := by omega
  simp only [diff, Nat.add_zero, Nat.zero_div, Nat.sub_zero] at run
  split at run
  case isTrue zero =>
    cases run
    rw [none (.inr zero)]
    exact ⟨free, rfl⟩
  case isFalse some =>
    rw [if_pos (by omega), if_pos (by omega), Nat.mod_eq_of_lt (by omega)] at run
    cases run
    have all : managed [range] = Area.pages ⟨range.1 / 4096, 0, range.2⟩ := by
      ext p
      rw [single p]
      exact ⟨fun h => h.2, fun h => ⟨by omega, h⟩⟩
    have fresh : Area.Fresh ⟨range.1 / 4096, 0, range.2⟩ F :=
      ⟨apart, Nat.pos_of_ne_zero some, by simp only; omega⟩
    rw [all]
    exact ⟨⟨free.tiles.insert fresh, same_insert free.same free.tiles fresh⟩, rfl⟩

theorem addRanges_tiles (free : FreeTiles info F) (ok : FreeRanges ranges)
    (apart : ∀ range ∈ ranges, Disjoint F (rangePages range)) (run : ranges.foldlM addRange info = some info') :
    FreeTiles info' (F ∪ managed ranges) ∧ info'.used = info.used := by
  induction ranges generalizing info F with
  | nil =>
    cases run
    have empty : managed [] = ∅ := by simp [managed]
    rw [empty, Set.union_empty]
    exact ⟨free, rfl⟩
  | cons range ranges ih =>
    obtain ⟨mid, first, rest⟩ := Option.bind_eq_some_iff.mp run
    obtain ⟨headDisjoint, tailDisjoint⟩ := List.pairwise_cons.mp ok.disjoint
    obtain ⟨freeMid, usedMid⟩ := addRange_tiles free (ok.aligned range (.head _))
      (ok.below range (.head _)) (apart range (.head _)) first
    have okTail : FreeRanges ranges :=
      ⟨fun r mem => ok.aligned r (.tail _ mem), fun r mem => ok.below r (.tail _ mem), tailDisjoint⟩
    have apartMid : ∀ r ∈ ranges, Disjoint (F ∪ managed [range]) (rangePages r) := by
      intro r mem
      refine Set.disjoint_union_left.mpr ⟨apart r (.tail _ mem), ?_⟩
      refine (headDisjoint r mem).mono_left fun p inRange => ?_
      obtain ⟨r', memR, -, has⟩ := inRange
      rwa [List.mem_singleton.mp memR] at has
    obtain ⟨freeEnd, usedEnd⟩ := ih freeMid okTail apartMid rest
    rw [managed_cons, ← Set.union_assoc]
    exact ⟨freeEnd, usedEnd.trans usedMid⟩

theorem init_inv (ok : FreeRanges ranges)
    (run : AllocationInfo.new.init ranges = some info) : AreaInv info (managed ranges) ∅ := by
  have start : FreeTiles { AllocationInfo.new with freeSizeSorted := .empty, freeAddrSorted := .empty } ∅ :=
    ⟨.empty, fun a => iff_of_false OrdSet.not_mem_empty OrdSet.not_mem_empty⟩
  obtain ⟨free, used⟩ := addRanges_tiles start ok (fun _ _ => Set.empty_disjoint _) run
  rw [Set.empty_union] at free
  refine ⟨Set.empty_subset _, ?_, by rwa [Set.sdiff_empty]⟩
  rw [used]
  exact .empty

/-! ## Runs -/

/-- The allocator and the areas it handed out, as addresses and numbers of pages. -/
structure AreaState where
  info : AllocationInfo
  live : List (Nat × Nat)

inductive AreaOp where
  | allocate (nPages flags : Nat)
  | free (addr : Nat) (nPages : Option Nat)

def stillLive (live : List (Nat × Nat)) (page n : Nat) : List (Nat × Nat) :=
  live.filter fun area => !(page ≤ pageOf area.1 && pageOf area.1 + area.2 ≤ page + n)

/-- One call. A live area is freed with its own number of pages, or with none. -/
inductive AreaStep (s : AreaState) : AreaOp → AreaState → Prop where
  | allocate {nPages flags addr : Nat} {info : AllocationInfo} : s.info.allocateArea nPages flags = (some addr, info) →
      AreaStep s (.allocate nPages flags) ⟨info, (addr, nPages) :: s.live⟩
  | refuse {nPages flags : Nat} {info : AllocationInfo} : s.info.allocateArea nPages flags = (none, info) →
      AreaStep s (.allocate nPages flags) ⟨info, s.live⟩
  | free {addr n : Nat} {nPages : Option Nat} {info : AllocationInfo} :
      (addr, n) ∈ s.live → nPages = some n ∨ nPages = none → s.info.freeArea addr nPages = some info →
      AreaStep s (.free addr nPages) ⟨info, stillLive s.live (pageOf addr) (freedCount s.info addr nPages)⟩

inductive AreaRun (allowed : AreaState → AreaOp → Prop) (s : AreaState) : AreaState → Prop where
  | start : AreaRun allowed s s
  | step {t t' : AreaState} {op : AreaOp} : AreaRun allowed s t → allowed t op → AreaStep t op t' → AreaRun allowed s t'

/-- An allocation of at least one page; a free of an area that no used area has merged in front of. -/
def AreaState.Regular (s : AreaState) : AreaOp → Prop
  | .allocate nPages _ => 0 < nPages
  | .free addr _ => ∃ entry ∈ s.info.used, entry.startPageIndex = pageOf addr

theorem freed_pos {live : List (Nat × Nat)} (sizes : ∀ area ∈ live, 0 < area.2)
    (mem : (addr, n) ∈ live) (own : nPages = some n ∨ nPages = none) : ∀ m, nPages = some m → 0 < m := by
  rintro m rfl
  obtain rfl : m = n := by simpa using own
  exact sizes _ mem

theorem areaStep_inv {op : AreaOp} (inv : AreaInv s.info M U)
    (sizes : ∀ area ∈ s.live, 0 < area.2) (regular : s.Regular op) (step : AreaStep s op t) :
    (∃ U', AreaInv t.info M U') ∧ ∀ area ∈ t.live, 0 < area.2 := by
  cases step with
  | @allocate nPages flags addr info run =>
    have next := inv.allocate regular flags
    rw [run] at next
    exact ⟨next, List.forall_mem_cons.mpr ⟨regular, sizes⟩⟩
  | @refuse nPages flags info run =>
    have next := inv.allocate regular flags
    rw [run] at next
    exact ⟨next, sizes⟩
  | @free addr n nPages info live own run =>
    obtain ⟨entry, mem, start⟩ := regular
    exact ⟨⟨_, (inv.free_area (freed_pos sizes live own) mem start run).1⟩, fun area mem => sizes area (List.mem_filter.mp mem).1⟩

theorem areaRun_inv (inv : AreaInv s.info M U)
    (sizes : ∀ area ∈ s.live, 0 < area.2) (run : AreaRun AreaState.Regular s t) :
    (∃ U', AreaInv t.info M U') ∧ ∀ area ∈ t.live, 0 < area.2 := by
  induction run with
  | start => exact ⟨⟨U, inv⟩, sizes⟩
  | step _ regular step ih =>
    obtain ⟨⟨U', inv'⟩, sizes'⟩ := ih
    exact areaStep_inv inv' sizes' regular step

/-- In every state reached by regular calls the areas partition the managed pages, and a regular free
merges what it frees with the free areas next to it. -/
theorem areas_partition {ranges : List (Nat × Nat)} {info : AllocationInfo} {s : AreaState} (ok : FreeRanges ranges)
    (start : AllocationInfo.new.init ranges = some info) (run : AreaRun AreaState.Regular ⟨info, []⟩ s) :
    Partition s.info (managed ranges) ∧ ∀ addr nPages t, s.Regular (.free addr nPages) →
      AreaStep s (.free addr nPages) t →
        MergedWithNeighbours s.info t.info (pageOf addr) (freedCount s.info addr nPages) := by
  obtain ⟨⟨U, inv⟩, sizes⟩ := areaRun_inv (init_inv ok start) (by simp) run
  refine ⟨inv.partition, fun addr nPages t regular step => ?_⟩
  obtain ⟨entry, mem, first⟩ := regular
  cases step with
  | @free _ n _ info' live own freed =>
    exact (inv.free_area (freed_pos sizes live own) mem first freed).2

def fourPages : List (Nat × Nat) := [(0x800000000000, 4)]

theorem fourPages_free : FreeRanges fourPages :=
  ⟨by decide, by decide, List.pairwise_singleton _ _⟩

def areasOf (free : Area) (used : Option Area) : AllocationInfo :=
  { freeSizeSorted := ⟨[free], List.pairwise_singleton _ _⟩
    freeAddrSorted := ⟨[free], List.pairwise_singleton _ _⟩
    used := match used with
      | some area => ⟨[area], List.pairwise_singleton _ _⟩
      | none => .empty }

theorem fourPages_init : AllocationInfo.new.init fourPages = some (areasOf ⟨0x800000000, 0, 4⟩ none) := rfl

theorem first_area_allocated : AreaStep ⟨areasOf ⟨0x800000000, 0, 4⟩ none, []⟩ (.allocate 1 1)
    ⟨areasOf ⟨0x800000001, 0, 3⟩ (some ⟨0x800000000, 1, 1⟩), [(0xFFFF800000000000, 1)]⟩ := .allocate rfl

theorem second_area_allocated : AreaStep
    ⟨areasOf ⟨0x800000001, 0, 3⟩ (some ⟨0x800000000, 1, 1⟩), [(0xFFFF800000000000, 1)]⟩ (.allocate 1 1)
    ⟨areasOf ⟨0x800000002, 0, 2⟩ (some ⟨0x800000000, 1, 2⟩), [(0xFFFF800000001000, 1), (0xFFFF800000000000, 1)]⟩ :=
  .allocate rfl

/-- Two areas are merged, and freed from the front: all pages are one free area again. -/
theorem areas_partition_merged : ∃ s, AreaRun AreaState.Regular ⟨areasOf ⟨0x800000000, 0, 4⟩ none, []⟩ s ∧
    s.info.freeAddrSorted.elems = [⟨0x800000000, 0, 4⟩] ∧ Partition s.info (managed fourPages) := by
  have script : ((areasOf ⟨0x800000002, 0, 2⟩ (some ⟨0x800000000, 1, 2⟩)).freeArea 0xFFFF800000000000 (some 1)).bind
      (fun info => (info.freeArea 0xFFFF800000001000 none).map fun last =>
        (info.used.elems, last.freeAddrSorted.elems)) = some ([⟨0x800000001, 1, 1⟩], [⟨0x800000000, 0, 4⟩]) := by
    decide +kernel
  simp only [Option.bind_eq_some_iff, Option.map_eq_some_iff, Prod.mk.injEq] at script
  obtain ⟨info, freed, last, freedLast, used, whole⟩ := script
  have allocates {s : AreaState} : s.Regular (.allocate 1 1) := Nat.one_pos
  have frees {live} : AreaState.Regular ⟨areasOf ⟨0x800000002, 0, 2⟩ (some ⟨0x800000000, 1, 2⟩), live⟩
      (.free 0xFFFF800000000000 (some 1)) := ⟨⟨0x800000000, 1, 2⟩, .head _, rfl⟩
  have freesLast {live} : AreaState.Regular ⟨info, live⟩ (.free 0xFFFF800000001000 none) :=
    ⟨⟨0x800000001, 1, 1⟩, show _ ∈ info.used.elems by rw [used]; exact .head _, rfl⟩
  have run := AreaRun.step (.step (.step (.step .start allocates first_area_allocated) allocates second_area_allocated)
    frees (.free (.tail _ (.head _)) (.inl rfl) freed)) freesLast (.free (.head _) (.inr rfl) freedLast)
  exact ⟨_, run, whole, (areas_partition fourPages_free fourPages_init run).1⟩

theorem second_area_freed : (areasOf ⟨0x800000002, 0, 2⟩ (some ⟨0x800000000, 1, 2⟩)).freeArea
    0xFFFF800000001000 (some 1) = some (areasOf ⟨0x800000001, 0, 3⟩ (some ⟨0x800000002, 1, 1⟩)) := by
  have page : trimAddrExtension 0xFFFF800000001000 / 4096 = 0x800000001 := rfl
  have entry : (areasOf ⟨0x800000002, 0, 2⟩ (some ⟨0x800000000, 1, 2⟩)).usedEntry 0x800000001 =
      some ⟨0x800000000, 1, 2⟩ := rfl
  have count : freedPages ⟨0x800000000, 1, 2⟩ 0x800000001 (some 1) = 1 := rfl
  simp only [freeArea, page, entry, count]
  rfl

/-- Two neighbouring one-page areas become one used area; freeing the second one loses the first. -/
theorem merged_area_lost : ¬ ∀ (ranges : List (Nat × Nat)) (info : AllocationInfo) (s : AreaState), FreeRanges ranges →
      AllocationInfo.new.init ranges = some info → AreaRun (fun _ _ => True) ⟨info, []⟩ s →
        Partition s.info (managed ranges) := by
  intro all
  have partition := all _ _ _ fourPages_free fourPages_init
    (.step (.step (.step .start trivial first_area_allocated) trivial second_area_allocated) trivial
      (.free (.head _) (.inl rfl) second_area_freed))
  have inside : 0x800000000 ∈ managed fourPages :=
    ⟨_, List.mem_singleton.mpr rfl, Nat.le_refl _, Nat.le_refl _, by decide⟩
  rcases (partition.covers 0x800000000).mp inside with ⟨a, mem, has⟩ | ⟨a, mem, has⟩
  · obtain rfl : a = ⟨0x800000002, 1, 1⟩ := List.mem_singleton.mp mem
    exact absurd has.1 (by decide)
  · obtain rfl : a = ⟨0x800000001, 0, 3⟩ := List.mem_singleton.mp mem
    exact absurd has.1 (by decide)

end MeowOs.Memory
