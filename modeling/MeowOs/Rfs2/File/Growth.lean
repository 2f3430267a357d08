import MeowOs.Rfs2.BlockAllocationSoundness
import MeowOs.Rfs2.File.Layout

/-! # Growing a file

`increase_file_size` works for files whose pointers fit into the root block.  A
growth that needs a second level never returns, since
`increase_file_size_recursively` drops a working block (`increaseFileSize_deep`).

When an inline file that is not empty becomes a file of level 1, the block with
its old bytes is lost: `increase_file_depth` writes the pointer to it into the
header.  That block still counts, so one pointer fewer is allocated than needed.
-/

namespace MeowOs.Rfs2

open MeowOs.Machine Prog

/-! ## What growing keeps -/

/-- From `v` to `v'` the blocks in use grew from `A` to `A'`, and none of `A` changed outside `R`. -/
structure Extends (R : Set Nat) (v : Rfs2) (A : Set Nat) (v' : Rfs2) (A' : Set Nat) : Prop where
  alloc : AllocatorInv v' A'
  sub : A ⊆ A'
  superblock : v'.superblock = v.superblock
  size : v'.partition.sizeSectors = v.partition.sizeSectors
  same : ∀ c ∈ A, c ∉ R → Bytes.SameBlock v.disk v'.disk c

section Extends

variable {R : Set Nat} {v v' v'' u : Rfs2} {A A' A'' : Set Nat} {b : Nat}

theorem Extends.trans (h : Extends R v A v' A') (h' : Extends R v' A' v'' A'') : Extends R v A v'' A'' :=
  ⟨h'.alloc, h.sub.trans h'.sub, h'.superblock.trans h.superblock, h'.size.trans h.size,
    fun c cMem rNotMem => (h.same c cMem rNotMem).trans (h'.same c (h.sub cMem) rNotMem)⟩

theorem Extends.mono {R' : Set Nat} (h : Extends R v A v' A') (sub : R ⊆ R') : Extends R' v A v' A' :=
  ⟨h.alloc, h.sub, h.superblock, h.size, fun c cMem rNotMem => h.same c cMem fun mem => rNotMem (sub mem)⟩

theorem Extends.hasBlock (h : Extends R v A v' A') (hasB : v.HasBlock b) : v'.HasBlock b := by
  simpa [HasBlock, h.size] using hasB

theorem Extends.of_frame (h : AllocatorInv v A) (frame : Frame R v v') (rAll : ∀ n ∈ R, ¬ IsGroupBitmap n) :
    Extends R v A v' A :=
  ⟨h.of_frame frame rAll, Set.Subset.rfl, frame.superblock, frame.size, fun c _ cNotMem => frame.same c cNotMem⟩

theorem Extends.tick (h : AllocatorInv v A) : Extends R v A v.tick A := by
  have frame : Frame ∅ v v.tick := Frame.of_tick (Frame.refl ∅ v.tick)
  exact (Extends.of_frame h frame fun n nMem => nMem.elim).mono (Set.empty_subset R)

theorem Extends.andTick (h : Extends R v A u A') : Extends R v A u.tick A' :=
  h.trans (Extends.tick h.alloc)

theorem allocate_extends {d : Bytes} (h : AllocatorInv v A) (alloc : allocateBlock v = some (b, u)) :
    Extends R v A (u.setBlock b d) (insert b A) ∧ b ∉ A ∧ b ≠ 0 ∧ b < 256 ^ 8 := by
  have spec := allocateBlock_spec alloc
  have data := h.free_data b spec.free
  have inv := allocates_inv h spec
  have fresh := h.fresh spec.free
  have write : Frame {b} u (u.setBlock b d) := Frame.setBlock (Set.mem_singleton b)
  refine ⟨⟨inv.of_frame write ?_, Set.subset_insert b A, write.superblock.trans spec.frame.superblock,
    write.size.trans spec.frame.size, ?_⟩, fresh, ?_, spec.free.lt⟩
  · intro n nMem
    exact nMem ▸ data.not_bitmap
  · intro c cMem _
    have bitmap : c ∉ ({bitmapOf b} : Set Nat) := fun mem => by
      refine (h.used_data c cMem).1.not_bitmap ?_
      rw [mem]
      exact Nat.mul_mod_left _ _
    refine (spec.frame.same c bitmap).trans (write.same c fun mem => fresh ?_)
    exact mem ▸ cMem
  · intro zero
    exact data.not_bitmap (zero ▸ Nat.zero_mod _)

end Extends

/-! ## Pointer tables -/

structure PointerTable (A : Set Nat) (root : Nat) (p : Nat → Nat) : Prop where
  owned : ∀ i, i < 448 → p i ≠ 0 → p i ∈ A ∧ p i ≠ root
  distinct : ∀ i j, i < 448 → j < 448 → p i ≠ 0 → p i = p j → i = j

variable {A : Set Nat} {root i ptr : Nat} {b : Bytes} {block : Bytes}

theorem PointerTable.congr {p q : Nat → Nat} (h : PointerTable A root p)
    (eq : ∀ i < 448, q i = p i) : PointerTable A root q := by
  constructor
  · intro i iLt ne
    rw [eq i iLt] at ne ⊢
    exact h.owned i iLt ne
  intro i j iLt jLt ne same
  rw [eq i iLt] at ne
  rw [eq i iLt, eq j jLt] at same
  exact h.distinct i j iLt jLt ne same

theorem pointerAt_set_same (ptrLt : ptr < 256 ^ 8) : pointerAt (setPointerAt i ptr b) i = ptr := by
  rw [pointerAt, setPointerAt, Bytes.readLE_writeLE, Nat.mod_eq_of_lt ptrLt]

theorem pointerAt_set_other {j : Nat} (ne : j ≠ i) : pointerAt (setPointerAt i ptr b) j = pointerAt b j :=
  Bytes.readLE_writeLE_disjoint (by omega)

theorem PointerTable.set {b : Nat}
    (h : PointerTable A root (pointerAt block)) (rootMem : root ∈ A) (fresh : b ∉ A) (lt : b < 256 ^ 8) :
    PointerTable (insert b A) root (pointerAt (setPointerAt i b block)) := by
  constructor
  · intro j jLt ne
    by_cases same : j = i
    · rw [same, pointerAt_set_same lt]
      exact ⟨Set.mem_insert b A, fun eq => fresh (eq ▸ rootMem)⟩
    · rw [pointerAt_set_other same] at ne ⊢
      obtain ⟨mem, other⟩ := h.owned j jLt ne
      exact ⟨Set.mem_insert_of_mem b mem, other⟩
  · intro j k jLt kLt ne sameEq
    by_cases same : j = i
    · by_cases kIsI : k = i
      · rw [same, kIsI]
      · rw [same, pointerAt_set_same lt, pointerAt_set_other kIsI] at sameEq
        rw [same, pointerAt_set_same lt, sameEq] at ne
        exact absurd (h.owned k kLt ne).1 (sameEq ▸ fresh)
    · rw [pointerAt_set_other same] at ne sameEq
      by_cases kIsI : k = i
      · rw [kIsI, pointerAt_set_same lt] at sameEq
        exact absurd (h.owned j jLt ne).1 (sameEq.symm ▸ fresh)
      · rw [pointerAt_set_other kIsI] at sameEq
        exact h.distinct j k jLt kLt ne sameEq

/-! ## The pointer loop on the lowest level -/

section Loop

variable {v v' : Rfs2} {A : Set Nat} {root left : Nat} {block : Bytes}

/-- Next to `Extends`: the pointers there were stay, and the table stays one. -/
structure Grows (root : Nat) (v : Rfs2) (A : Set Nat) (block : Bytes) (v' : Rfs2) (A' : Set Nat)
    (block' : Bytes) : Prop where
  extended : Extends ∅ v A v' A'
  table : PointerTable A' root (pointerAt block')
  kept : ∀ i, i < 448 → pointerAt block i ≠ 0 → pointerAt block' i = pointerAt block i
  fresh : ∀ i, i < 448 → pointerAt block i = 0 → pointerAt block' i ∉ A ∨ pointerAt block' i = 0

theorem Grows.refl (alloc : AllocatorInv v A) (table : PointerTable A root (pointerAt block)) :
    Grows root v A block v A block :=
  ⟨⟨alloc, Set.Subset.rfl, rfl, rfl, fun _ _ _ => Bytes.SameBlock.refl _ _⟩, table, fun _ _ _ => rfl, fun _ _ zero => .inr zero⟩

theorem Grows.trans {v'' : Rfs2} {A' A'' : Set Nat} {block' block'' : Bytes}
    (h : Grows root v A block v' A' block') (h' : Grows root v' A' block' v'' A'' block'') :
    Grows root v A block v'' A'' block'' := by
  refine ⟨h.extended.trans h'.extended, h'.table, fun i iLt ne => ?_, fun i iLt zero => ?_⟩
  · have mid := h.kept i iLt ne
    exact (h'.kept i iLt (mid ▸ ne)).trans mid
  by_cases mid : pointerAt block' i = 0
  · cases h'.fresh i iLt mid with
    | inl absent => exact .inl fun mem => absent (h.extended.sub mem)
    | inr zero' => exact .inr zero'
  · rw [h'.kept i iLt mid]
    exact h.fresh i iLt zero

theorem allocate_grows {i b : Nat} {u : Rfs2} (alloc : AllocatorInv v A) (rootMem : root ∈ A)
    (table : PointerTable A root (pointerAt block)) (zero : pointerAt block i = 0)
    (run : allocateBlock v = some (b, u)) :
    Grows root v A block (u.tick.setBlock b Bytes.zero) (insert b A) (setPointerAt i b block) ∧
      pointerAt (setPointerAt i b block) i = b ∧ b ≠ 0 := by
  obtain ⟨ext, fresh, ne, lt⟩ := allocate_extends alloc run
  refine ⟨⟨ext.andTick, table.set rootMem fresh lt, ?_, ?_⟩, pointerAt_set_same lt, ne⟩
  · intro j jLt isSet
    refine pointerAt_set_other fun same => isSet ?_
    rw [same, zero]
  intro j jLt unset
  by_cases same : j = i
  · rw [same, pointerAt_set_same lt]
    exact .inl fresh
  · rw [pointerAt_set_other same]
    exact .inr unset

theorem growLeaf_new {ptr r : Nat} (h : increaseFileSizeRecursively 0 ptr left true v = some (r, v')) :
    r = 1 ∧ v' = v.tick.setBlock ptr Bytes.zero := by
  obtain ⟨_, u, frame, h₁⟩ := bind_eq_some.mp h
  cases frame
  obtain ⟨⟨⟩, u', write, run2⟩ := bind_eq_some.mp h₁
  obtain ⟨-, rfl⟩ := partitionWrite_block.mp write
  cases run2
  exact ⟨rfl, rfl⟩

theorem subtractChecked_eq_some {here r : Nat} (h : subtractChecked left here v = some (r, v')) :
    r = left - here ∧ v' = v := by
  obtain ⟨-, h₁⟩ := assert_bind_eq_some.mp h
  cases h₁
  exact ⟨rfl, rfl⟩

/-- The loop from index `i` on with `left` blocks to allocate: no pointer is missing below `i`, and if
none is missing from `i` up to `c` either, then none is missing below `max i c + left` in the end.  Where there was
no pointer at all, there are `left` more in the end. -/
theorem growPointers_spec {n : Nat} : ∀ {i left allocated r : Nat} {block block' : Bytes} {v v' : Rfs2} {A : Set Nat},
    i + n = 448 → 0 < left → AllocatorInv v A → root ∈ A → PointerTable A root (pointerAt block) →
    (∀ j < i, pointerAt block j ≠ 0) →
    growPointers (increaseFileSizeRecursively 0) subtractChecked n i left allocated block v = some ((r, block'), v') →
    ∃ A', Grows root v A block v' A' block' ∧
      (∀ c, (∀ j, i ≤ j → j < c → pointerAt block j ≠ 0) → ∀ j < 448, j < max i c + left → pointerAt block' j ≠ 0) ∧
      ((∀ j, i ≤ j → j < 448 → pointerAt block j = 0) → ∀ j < 448, i + left ≤ j → pointerAt block' j = 0) := by
  induction n with
  | zero =>
    intro i left allocated r block block' v v' A iEq _ alloc _ table low run
    cases run
    exact ⟨A, Grows.refl alloc table, fun c _ j jLt _ => low j (by omega), fun _ j jLt _ => absurd jLt (by omega)⟩
  | succ n ih =>
    intro i left allocated r block block' v v' A iEq leftPos alloc rootMem table low run
    simp only [growPointers] at run
    by_cases zero : pointerAt block i = 0
    · -- a missing pointer is allocated, and one block fewer is left to do
      simp only [zero, beq_self_eq_true, if_true] at run
      obtain ⟨b, u0, bEq, block1, u, isSet, h₁⟩ := bind₂_eq_some.mp run
      cases isSet
      obtain ⟨here, u1, grow, run2⟩ := bind_eq_some.mp h₁
      obtain ⟨grows, ptr, bNe⟩ := allocate_grows alloc rootMem table zero bEq
      rw [ptr] at grow
      obtain ⟨rfl, rfl⟩ := growLeaf_new grow
      obtain ⟨left1, u2, sub, run3⟩ := bind_eq_some.mp run2
      obtain ⟨rfl, rfl⟩ := subtractChecked_eq_some sub
      have low1 : ∀ j < i + 1, pointerAt (setPointerAt i b block) j ≠ 0 := fun j jLt => by
        by_cases same : j = i
        · rw [same, ptr]
          exact bNe
        · rw [pointerAt_set_other same]
          exact low j (by omega)
      have blank1 : (∀ j, i ≤ j → j < 448 → pointerAt block j = 0) →
          ∀ j, i + 1 ≤ j → j < 448 → pointerAt (setPointerAt i b block) j = 0 := fun blank j lo hi => by
        rw [pointerAt_set_other (by omega)]
        exact blank j (by omega) hi
      split at run3
      · cases run3
        refine ⟨_, grows, fun c cAll j jLt lt => low1 j ?_, fun blank j jLt lo => blank1 blank j (by omega) jLt⟩
        have other : ¬ i < c := fun icLt => cAll i (Nat.le_refl i) icLt zero
        omega
      · obtain ⟨A', rest, fill, lost⟩ := ih (by omega) (by omega) grows.extended.alloc
          (grows.extended.sub rootMem) grows.table low1 run3
        refine ⟨A', grows.trans rest, fun c cAll j jLt lt => ?_, fun blank j jLt lo => ?_⟩
        · have other : ¬ i < c := fun icLt => cAll i (Nat.le_refl i) icLt zero
          exact fill 0 (nofun) j jLt (by omega)
        · exact lost (blank1 blank) j jLt (by omega)
    · have sameBit : (pointerAt block i == 0) = false := beq_eq_false_iff_ne.mpr zero
      simp only [sameBit, Bool.false_eq_true, if_false] at run
      obtain ⟨block1, u, isSet, h₁⟩ := bind_eq_some.mp run
      cases isSet
      obtain ⟨here, u1, grow, run2⟩ := bind_eq_some.mp h₁
      cases grow
      obtain ⟨left1, u2, sub, run3⟩ := bind_eq_some.mp run2
      obtain ⟨sameEq, rfl⟩ := subtractChecked_eq_some sub
      rw [sameEq, if_neg (by omega)] at run3
      have low1 : ∀ j < i + 1, pointerAt block j ≠ 0 := fun j jLt => by
        by_cases same : j = i
        · exact same ▸ zero
        · exact low j (by omega)
      obtain ⟨A', rest, fill, -⟩ := ih (by omega) leftPos alloc rootMem table low1 run3
      refine ⟨A', rest, fun c cAll j jLt lt => fill c (fun k kLe => cAll k (by omega)) j jLt (by omega), fun blank => ?_⟩
      exact absurd (blank i (Nat.le_refl i) (by omega)) zero

end Loop

section Root

variable {v v' : Rfs2} {A : Set Nat} {root : Nat} {block : Bytes} {k : Int}

theorem lastPtr_of_zero {i : Nat} (iLt : i < 512) (zero : pointerAt block i = 0) : lastPtr block = 0 := by
  cases find : (pointerSlice block 0 ptrsPerBlock).find? (· == 0) with
  | none =>
    have mem : pointerAt block i ∈ pointerSlice block 0 ptrsPerBlock :=
      mem_pointerSlice.mpr ⟨i, iLt, by rw [Nat.zero_add]⟩
    have isNone := List.find?_eq_none.mp find _ mem
    simp [zero] at isNone
  | some q =>
    have qEq : q = 0 := by simpa using List.find?_some find
    rw [lastPtr, find, qEq]
    rfl

theorem lastPtr_of_full (full : ∀ i < 512, pointerAt block i ≠ 0) : lastPtr block = 511 := by
  have isNone : (pointerSlice block 0 ptrsPerBlock).find? (· == 0) = none := by
    refine List.find?_eq_none.mpr fun q qMem => ?_
    obtain ⟨j, jLt, rfl⟩ := mem_pointerSlice.mp qMem
    rw [Nat.zero_add]
    simpa using full j jLt
  rw [lastPtr, isNone]
  rfl

theorem growRoot_spec {left r : Nat} {data data' : Bytes} (leftPos : 0 < left) (alloc : AllocatorInv v A)
    (rootMem : root ∈ A) (table : PointerTable A root (pointerAt data))
    (run : growPointers (increaseFileSizeRecursively 0) subtractChecked (ptrsInRoot - lastPtr data) (lastPtr data)
      left 0 data v = some ((r, data'), v')) : ∃ A', Grows root v A data v' A' data' ∧
      (∀ c, (∀ j < c, pointerAt data j ≠ 0) → ∀ j < 448, j < c + left → pointerAt data' j ≠ 0) ∧
      ((∀ j < 448, pointerAt data j = 0) → ∀ j < 448, left ≤ j → pointerAt data' j = 0) := by
  by_cases zero : ∃ i < 512, pointerAt data i = 0
  · obtain ⟨i, iLt, ptr⟩ := zero
    rw [lastPtr_of_zero iLt ptr] at run
    obtain ⟨A', grows, fill, lost⟩ := growPointers_spec rfl leftPos alloc rootMem table
      (fun j jLt => absurd jLt (Nat.not_lt_zero j)) run
    exact ⟨A', grows, fun c cAll j jLt lt => fill c (fun k _ kLt => cAll k kLt) j jLt (by omega),
      fun blank j jLt lo => lost (fun k _ kLt => blank k kLt) j jLt (by omega)⟩
  · have full : ∀ i < 512, pointerAt data i ≠ 0 := fun i iLt ptr => zero ⟨i, iLt, ptr⟩
    rw [lastPtr_of_full full] at run
    cases run
    exact ⟨A, Grows.refl alloc table, fun _ _ j jLt _ => full j (by omega),
      fun blank => absurd (blank 0 (by omega)) (full 0 (by omega))⟩

/-! ## increase_file_depth -/

theorem depthLoop_spec {n : Nat} : ∀ {data data' : Bytes} {v v' : Rfs2} {A : Set Nat}, AllocatorInv v A →
    depthLoop (n + 1) data v = some (data', v') → ∃ A', Extends ∅ v A v' A' ∧ ∀ a, 8 ≤ a → a < 4096 → data' a = 0 := by
  induction n with
  | zero =>
    intro data data' v v' A alloc run
    obtain ⟨b, u, bEq, ⟨⟩, u1, write, run2⟩ := bind₂_eq_some.mp run
    obtain ⟨-, rfl⟩ := partitionWrite_block.mp write
    cases run2
    refine ⟨_, (allocate_extends alloc bEq).1, fun a lo hi => ?_⟩
    rw [setPointerAt, Bytes.writeLE_outside (by omega), Bytes.blit_inside (by omega) (by omega)]
    rfl
  | succ n ih =>
    intro data data' v v' A alloc run
    obtain ⟨b, u, bEq, ⟨⟩, u1, write, run2⟩ := bind₂_eq_some.mp run
    obtain ⟨-, rfl⟩ := partitionWrite_block.mp write
    have ext := (allocate_extends (R := ∅) (d := data) alloc bEq).1
    obtain ⟨A', rest, zero⟩ := ih ext.alloc run2
    exact ⟨A', ext.trans rest, zero⟩

/-- A file that got deeper has no pointers: the one it should have went into the header. -/
theorem increaseFileDepth_spec (kPos : 0 < k) (alloc : AllocatorInv v A) (rootMem : root ∈ A)
    (run : increaseFileDepth root k v = some ((), v')) :
    ∃ A', Extends {root} v A v' A' ∧ ∀ i < 448, v'.rootPointer root i = 0 := by
  have dataOk := (alloc.used_data root rootMem).1
  rw [increaseFileDepth, if_neg (by omega)] at run
  obtain ⟨w, u, new, h₁⟩ := bind_eq_some.mp run
  cases new
  obtain ⟨area, u1, areaEq, run2⟩ := bind_eq_some.mp h₁
  rw [readRootArea_run (v := v.tick) dataOk.inside] at areaEq
  cases areaEq
  obtain ⟨data, u2, loop, ⟨⟩, u3, write, run4⟩ := bind₂_eq_some.mp run2
  obtain ⟨-, rfl⟩ := partitionWrite_block.mp write
  cases run4
  obtain ⟨n, nEq⟩ : ∃ n, k.toNat = n + 1 := ⟨k.toNat - 1, by omega⟩
  rw [nEq] at loop
  have tick : Extends ∅ v A v.tick A := Extends.tick alloc
  obtain ⟨A', ext, zero⟩ := depthLoop_spec tick.alloc loop
  have ext' : Extends ∅ v A u2 A' := tick.trans ext
  have written : Extends {root} u2 A' (u2.setBlock root data) A' := by
    refine Extends.of_frame ext'.alloc (Frame.setBlock (Set.mem_singleton root)) fun n mem => ?_
    rw [mem]
    exact dataOk.not_bitmap
  refine ⟨A', (ext'.mono (Set.empty_subset _)).trans written, fun i iLt => ?_⟩
  refine Bytes.readLE_eq_zero fun j jLt => ?_
  rw [setBlock_disk, Bytes.setBlock_same (by omega)]
  exact zero _ (by omega) (by omega)

end Root

/-! ## increase_file_size -/

/-- A file of level 0 or 1 with root block `root`, on a volume with the blocks `A` in use.  Every block of
a file of level 1 has its pointer; there may be more pointers than blocks.  Files that were inline and have grown are
not like this (`inline_growth_loses_block`). -/
structure FileAt (v : Rfs2) (A : Set Nat) (root : Nat) : Prop where
  alloc : AllocatorInv v A
  mem : root ∈ A
  levels : (v.infoOf root).levels ≤ 1
  inline : (v.infoOf root).levels = 0 → (v.infoOf root).size < 3584
  size : (v.infoOf root).levels = 1 → 0 < (v.infoOf root).size ∧ (v.infoOf root).size ≤ 448 * 4096
  used : (v.infoOf root).levels = 1 → ∀ i, i * 4096 < (v.infoOf root).size → v.rootPointer root i ≠ 0
  table : (v.infoOf root).levels = 1 → PointerTable A root (v.rootPointer root)

section Increase

variable {v v' : Rfs2} {A : Set Nat} {root newSize blocks level : Nat}

theorem FileAt.hasRoot (h : FileAt v A root) : v.HasBlock root := (h.alloc.used_data root h.mem).1.inside

theorem FileAt.root_not_bitmap (h : FileAt v A root) : ∀ n ∈ ({root} : Set Nat), ¬ IsGroupBitmap n :=
  fun _ nMem => nMem ▸ (h.alloc.used_data root h.mem).1.not_bitmap

theorem infoOf_fits (v : Rfs2) (root : Nat) : (v.infoOf root).Fits := by
  constructor <;> exact Bytes.readLE_lt _ _ _

theorem setInfo_fits {size levels : Nat} (sizeLt : size < 256 ^ 8) (levelsLt : levels < 256) :
    ({ v.infoOf root with size, levels } : InodeInfo).Fits := by
  obtain ⟨-, -, run3, run4, run5, run6, run7, run8, run9⟩ := infoOf_fits v root
  exact ⟨sizeLt, levelsLt, run3, run4, run5, run6, run7, run8, run9⟩

theorem increaseFileSize_small (h : FileAt v A root) (small : newSize < 3584)
    (run : increaseFileSize root newSize v = some ((), v')) :
    Extends {root} v A v' A ∧ v'.infoOf root = { v.infoOf root with size := newSize } ∧
      ∀ a, 512 ≤ a → v'.disk.block root a = v.disk.block root a := by
  have limit : newSize < (blockSizeSectors - 1) * 512 := small
  rw [increaseFileSize, bind_of_eq_some (getFileInfo_run h.hasRoot), if_pos limit,
    bind_of_eq_some (setFileInfo_run (v := v.tick) h.hasRoot)] at run
  cases run
  have levels := h.levels
  have frame : Frame {root} v (v.tick.tick.patch (root * 4096) 512
      (({ v.infoOf root with size := newSize } : InodeInfo).store (v.tick.frames 0))) :=
    Frame.of_tick (Frame.of_tick patch_header_frame)
  refine ⟨Extends.of_frame h.alloc frame h.root_not_bitmap, ?_, fun a aLe => area_patch_header aLe⟩
  exact infoOf_patch_header (setInfo_fits (Nat.lt_trans small (by norm_num)) (by omega))

theorem increaseFileSize_enough (h : FileAt v A root) (small : ¬ newSize < 3584)
    (enough : (newSize + 4095) / 4096 ≤ ((v.infoOf root).size + 4095) / 4096) :
    increaseFileSize root newSize v = some ((), v.tick) := by
  have limit : ¬ newSize < (blockSizeSectors - 1) * 512 := small
  rw [increaseFileSize, bind_of_eq_some (getFileInfo_run h.hasRoot), if_neg limit]
  exact congrFun (if_pos enough) v.tick

theorem le_neededLevels (blocks levels : Nat) : levels ≤ neededLevels blocks levels := by
  fun_induction neededLevels blocks levels with
  | case1 blocks levels _ _ ih => omega
  | case2 => exact Nat.le_refl _

theorem neededLevels_one (h : blocks ≤ 448) : neededLevels blocks 1 = 1 := by
  have absent : ¬ ptrsInRoot < blocks := Nat.not_lt.mpr h
  rw [neededLevels, dif_neg absent]

theorem two_le_neededLevels (h : 448 < blocks) : 2 ≤ neededLevels blocks 1 := by
  have lt : ptrsInRoot < blocks := h
  rw [neededLevels, dif_pos lt]
  exact le_neededLevels _ 2

/-- Above the lowest level the working block is always dropped. -/
theorem growNode_none {ptr left : Nat} {new : Bool} :
    increaseFileSizeRecursively (level + 1) ptr left new v = none := by
  cases run : increaseFileSizeRecursively (level + 1) ptr left new v with
  | none => rfl
  | some r =>
    cases new <;>
      simp only [increaseFileSizeRecursively, if_true, Bool.false_eq_true, if_false, bind_eq_some] at run <;>
      obtain ⟨_, _, -, _, _, -, _, _, -, _, _, drop, -⟩ := run <;>
      cases drop

/-- The steps of a growth: `u` is the volume once the file is deep enough, and `data` the pointers there;
`w` is the volume once the blocks are allocated, and `data'` the pointers then. -/
theorem increaseFileSize_cut (h : FileAt v A root) (large : ¬ newSize < 3584)
    (more : ¬ (newSize + 4095) / 4096 ≤ ((v.infoOf root).size + 4095) / 4096)
    (run : increaseFileSize root newSize v = some ((), v')) :
    ∃ needed levels u data r data' w, needed = neededLevels ((newSize + 4095) / 4096) 1 ∧
      levels = max (v.infoOf root).levels needed ∧
      increaseFileDepth root ((needed : Int) - (v.infoOf root).levels) v.tick = some ((), u) ∧
      data = (u.frames 0).blit 0 3584 ((u.disk.block root).shift 512) ∧
      growPointers (increaseFileSizeRecursively (levels - 1)) subtractChecked (ptrsInRoot - lastPtr data) (lastPtr data)
        ((newSize + 4095) / 4096 - ((v.infoOf root).size + 4095) / 4096) 0 data u.tick = some ((r, data'), w) ∧
      v' = (w.patch (root * 4096 + 512) 3584 data').tick.patch (root * 4096) 512
        (({ v.infoOf root with size := newSize, levels := levels } : InodeInfo).store (w.frames 0)) := by
  have limit : ¬ newSize < (blockSizeSectors - 1) * 512 := large
  rw [increaseFileSize, bind_of_eq_some (getFileInfo_run h.hasRoot), if_neg limit] at run
  simp only [if_neg more] at run
  obtain ⟨⟨⟩, u, depth, wb, u1, new, run2⟩ := bind₂_eq_some.mp run
  cases new
  obtain ⟨area, u2, areaEq, run3⟩ := bind_eq_some.mp run2
  obtain ⟨-, rfl, rfl⟩ := readRootArea_eq_some.mp areaEq
  obtain ⟨⟨r, data'⟩, w, grow, ⟨⟩, w1, write, run5⟩ := bind₂_eq_some.mp run3
  obtain ⟨block, rfl⟩ := writeRootArea_eq_some.mp write
  have block' : (w.patch (root * 4096 + 512) 3584 data').HasBlock root := block
  rw [bind_of_eq_some (setFileInfo_run block')] at run5
  cases run5
  exact ⟨_, _, u, _, r, data', w, rfl, rfl, depth, rfl, grow, rfl⟩

theorem growPointers_none {n i left allocated : Nat} (zero : pointerAt block i = 0) :
    growPointers (increaseFileSizeRecursively (level + 1)) subtractChecked (n + 1) i left allocated block v = none := by
  simp [growPointers, zero, bind_run, pure_run, growNode_none]

/-- Growing past the pointers of the root block never returns. -/
theorem increaseFileSize_deep (h : FileAt v A root) (deep : 448 < (newSize + 4095) / 4096)
    (more : ¬ (newSize + 4095) / 4096 ≤ ((v.infoOf root).size + 4095) / 4096) :
    increaseFileSize root newSize v = none := by
  cases run : increaseFileSize root newSize v with
  | none => rfl
  | some r =>
    obtain ⟨needed, levels, u, data, r, data', w, neededEq, levelsEq, depth, dataEq, grow, -⟩ :=
      increaseFileSize_cut h (by omega) more run
    have two : 2 ≤ needed := neededEq ▸ two_le_neededLevels deep
    have old := h.levels
    have tick : Extends {root} v A v.tick A := Extends.tick h.alloc
    obtain ⟨A', -, zero⟩ := increaseFileDepth_spec (by omega) tick.alloc h.mem depth
    have first : pointerAt data 0 = 0 := by
      rw [dataEq, pointerAt_rootArea (by omega)]
      exact zero 0 (by omega)
    obtain ⟨level, levelEq⟩ : ∃ level, levels - 1 = level + 1 := ⟨levels - 2, by omega⟩
    have count : ptrsInRoot - 0 = 447 + 1 := rfl
    rw [lastPtr_of_zero (by omega) first, levelEq, count, growPointers_none first] at grow
    cases grow

structure Grown (v : Rfs2) (A : Set Nat) (root newSize : Nat) (v' : Rfs2) (A' : Set Nat) : Prop where
  extended : Extends {root} v A v' A'
  info : v'.infoOf root = { v.infoOf root with size := newSize, levels := 1 }
  table : PointerTable A' root (v'.rootPointer root)
  kept : (v.infoOf root).levels = 1 → ∀ i, i < 448 → v.rootPointer root i ≠ 0 →
    v'.rootPointer root i = v.rootPointer root i
  fresh : ∀ i, i < 448 → v'.rootPointer root i ∉ A ∨ v'.rootPointer root i = 0 ∨
    (v.infoOf root).levels = 1 ∧ v'.rootPointer root i = v.rootPointer root i
  filled : ∀ i, (i + 1) * 4096 < newSize → v'.rootPointer root i ≠ 0
  full : (v.infoOf root).levels = 1 ∨ (v.infoOf root).size = 0 → ∀ i, i * 4096 < newSize → v'.rootPointer root i ≠ 0
  -- the block of an inline file is counted, and its pointer went into the header
  lost : (v.infoOf root).levels = 0 → 0 < (v.infoOf root).size → v'.rootPointer root ((newSize - 1) / 4096) = 0

theorem increaseFileSize_grown (h : FileAt v A root) (large : ¬ newSize < 3584)
    (more : ¬ (newSize + 4095) / 4096 ≤ ((v.infoOf root).size + 4095) / 4096)
    (run : increaseFileSize root newSize v = some ((), v')) :
    newSize ≤ 448 * 4096 ∧ ∃ A', Grown v A root newSize v' A' := by
  have fits : (newSize + 4095) / 4096 ≤ 448 := by
    by_contra deep
    rw [increaseFileSize_deep h (by omega) more] at run
    cases run
  refine ⟨by omega, ?_⟩
  obtain ⟨needed, levels, u, data, r, data', w, neededEq, levelsEq, depth, dataEq, grow, vEq'⟩ :=
    increaseFileSize_cut h large more run
  have one : levels = 1 := by
    have old := h.levels
    have needed' := neededLevels_one fits
    omega
  subst one
  have tick : Extends {root} v A v.tick A := Extends.tick h.alloc
  -- the volume and the pointers once the file has level 1
  have deep : ∃ A1, Extends {root} v A u A1 ∧ PointerTable A1 root (u.rootPointer root) ∧
      ((v.infoOf root).levels = 1 → ∀ i < 448, u.rootPointer root i = v.rootPointer root i) ∧
      ((v.infoOf root).levels ≠ 1 → ∀ i < 448, u.rootPointer root i = 0) := by
    by_cases level : (v.infoOf root).levels = 1
    · rw [increaseFileDepth, if_pos (by omega)] at depth
      cases depth
      exact ⟨A, tick, h.table level, fun _ _ _ => rfl, fun ne => absurd level ne⟩
    obtain ⟨A1, ext, zero⟩ := increaseFileDepth_spec (by omega) tick.alloc h.mem depth
    refine ⟨A1, tick.trans ext, ⟨fun i iLt ne => absurd (zero i iLt) ne, fun i j iLt _ ne => ?_⟩,
      fun run1 => absurd run1 level, fun _ => zero⟩
    exact absurd (zero i iLt) ne
  obtain ⟨A1, ext1, table1, kept1, zero1⟩ := deep
  have ptr : ∀ i < 448, pointerAt data i = u.rootPointer root i := fun i iLt => by
    rw [dataEq, pointerAt_rootArea iLt]
  have tick1 : Extends {root} u A1 u.tick A1 := Extends.tick ext1.alloc
  obtain ⟨A', grows, fill, lost⟩ := growRoot_spec (by omega) tick1.alloc (ext1.sub h.mem) (table1.congr ptr) grow
  have old : (v.infoOf root).levels = 1 → ∀ j < ((v.infoOf root).size + 4095) / 4096, pointerAt data j ≠ 0 :=
    fun level j jLt => by
      have jLt448 : j < 448 := by omega
      rw [ptr j jLt448, kept1 level j jLt448]
      exact h.used level j (by omega)
  have ends : ∀ i < 448, v'.rootPointer root i = pointerAt data' i := fun i iLt => by
    rw [vEq', rootPointer_congr iLt fun a aLe _ => area_patch_header aLe]
    exact rootPointer_patch_area iLt
  have frame : Frame {root} w v' := by
    rw [vEq']
    have area : Frame {root} w (w.patch (root * 4096 + 512) 3584 data') := patch_frame (by omega)
    exact area.trans (Frame.of_tick patch_header_frame)
  have extW : Extends {root} v A w A' :=
    (ext1.trans tick1).trans (grows.extended.mono (Set.empty_subset _))
  refine ⟨A', extW.trans (Extends.of_frame extW.alloc frame h.root_not_bitmap), ?_, grows.table.congr ends, ?_,
    ?_, ?_, ?_, ?_⟩
  · rw [vEq']
    exact infoOf_patch_header (setInfo_fits (Nat.lt_of_le_of_lt (by omega : newSize ≤ 448 * 4096) (by norm_num))
      (by norm_num))
  · intro level i iLt ne
    have same := kept1 level i iLt
    rw [ends i iLt, grows.kept i iLt (by rwa [ptr i iLt, same]), ptr i iLt, same]
  · intro i iLt
    rw [ends i iLt]
    by_cases ptr0 : pointerAt data i = 0
    · cases grows.fresh i iLt ptr0 with
      | inl absent => exact .inl fun mem => absent (ext1.sub mem)
      | inr zero => exact .inr (.inl zero)
    have level : (v.infoOf root).levels = 1 := by
      by_contra level
      exact ptr0 ((ptr i iLt).trans (zero1 level i iLt))
    exact .inr (.inr ⟨level, by rw [grows.kept i iLt ptr0, ptr i iLt, kept1 level i iLt]⟩)
  · intro i iLt
    rw [ends i (by omega)]
    by_cases level : (v.infoOf root).levels = 1
    · exact fill (((v.infoOf root).size + 4095) / 4096) (old level) i (by omega) (by omega)
    · have inline := h.inline (by have old := h.levels; omega)
      exact fill 0 (nofun) i (by omega) (by omega)
  · intro which i iLt
    rw [ends i (by omega)]
    refine fill (((v.infoOf root).size + 4095) / 4096) ?_ i (by omega) (by omega)
    cases which with
    | inl level => exact old level
    | inr empty =>
      intro j jLt
      omega
  · intro inline pos
    have small := h.inline inline
    rw [ends _ (by omega)]
    refine lost (fun j jLt => ?_) _ (by omega) (by omega)
    rw [ptr j jLt]
    exact zero1 (by omega) j jLt

/-- A non-empty inline file that grows past one block is left without a pointer to its last block.  What is written to
that block goes to block 0, which holds the first bitmap. -/
theorem inline_growth_loses_block (h : FileAt v A root) (inline : (v.infoOf root).levels = 0)
    (pos : 0 < (v.infoOf root).size) (large : 4096 < newSize) (run : increaseFileSize root newSize v = some ((), v')) :
    (v'.infoOf root).size = newSize ∧ v'.rootPointer root ((newSize - 1) / 4096) = 0 ∧ ∀ A', ¬ FileAt v' A' root := by
  have small := h.inline inline
  obtain ⟨-, A', grown⟩ := increaseFileSize_grown h (by omega) (by omega) run
  have lost := grown.lost inline pos
  have size : (v'.infoOf root).size = newSize := by rw [grown.info]
  refine ⟨size, lost, fun A'' file => file.used (by rw [grown.info]) ((newSize - 1) / 4096) ?_ lost⟩
  omega

end Increase

end MeowOs.Rfs2
