import MeowOs.Rfs2.FormatSoundness
import MeowOs.Rfs2.InodeAllocation

/-! # Inode numbers over whole runs

A run carries the set of the live inode numbers next to the volume: a number
joins it when `allocate_inode` returns it and leaves it when it is released.
As long as no call has to append a bitmap, the first bitmap says exactly which
numbers are live.  Behind the first appended bitmap nothing of this holds: the
superblock has lost the old one.
-/

namespace MeowOs.Rfs2

open MeowOs.Machine

/-- One call of a run; `allocate_inode` is called in states that meet `cond` only. -/
inductive InodeStep (cond : Rfs2 → Prop) : Rfs2 × Set Nat → Rfs2 × Set Nat → Prop
  | allocate {v v' : Rfs2} {live : Set Nat} {fuel i : Nat} :
      cond v → allocateInode fuel v = some (i, v') → InodeStep cond (v, live) (v', insert i live)
  | release {v v' : Rfs2} {live : Set Nat} {i : Nat} :
      i ∈ live → releaseInode i v = some ((), v') → InodeStep cond (v, live) (v', live \ {i})

abbrev InodeRun (cond : Rfs2 → Prop) := Relation.ReflTransGen (InodeStep cond)

/-! ## The invariant -/

structure InodeInv (v : Rfs2) (live : Set Nat) : Prop where
  bitmap : v.HasBitmap
  last : v.LastBitmap
  bits : ∀ i, i < inodesPerBitmask → (v.inodeBit i = true ↔ i ∈ live ∨ i < 2)
  range : ∀ i ∈ live, 2 ≤ i ∧ i < inodesPerBitmask

section Steps

variable {v v' : Rfs2} {live : Set Nat} {fuel i j : Nat} {s s' : Rfs2 × Set Nat}

theorem TakesLowest.le (tTakesLowest : TakesLowest v i v') (clear : v.inodeBit j = false) : i ≤ j := by
  by_contra lt
  have isSet := tTakesLowest.below j (Nat.lt_of_not_le lt)
  rw [clear] at isSet
  cases isSet

theorem InodeInv.not_live (h : InodeInv v live) (iLt : i < inodesPerBitmask) (clear : v.inodeBit i = false) :
    i ∉ live ∧ 2 ≤ i := by
  have absent : ¬ (i ∈ live ∨ i < 2) := fun either => by
    rw [(h.bits i iLt).mpr either] at clear
    cases clear
  rw [not_or] at absent
  exact ⟨absent.1, Nat.le_of_not_lt absent.2⟩

theorem InodeInv.clear (h : InodeInv v live) (iLt : i < inodesPerBitmask) (absent : i ∉ live) (two : 2 ≤ i) :
    v.inodeBit i = false := by
  cases bit : v.inodeBit i with
  | false => rfl
  | true =>
    cases (h.bits i iLt).mp bit with
    | inl liveMem => exact absurd liveMem absent
    | inr lt => omega

theorem InodeInv.takesLowest (h : InodeInv v live) (tTakesLowest : TakesLowest v i v') : InodeInv v' (insert i live) := by
  obtain ⟨-, two⟩ := h.not_live tTakesLowest.lt tTakesLowest.clear
  refine ⟨h.bitmap.of_frame tTakesLowest.frame, tTakesLowest.last h.last, ?_, ?_⟩
  · intro j jLt
    rw [tTakesLowest.bits j jLt]
    by_cases same : j = i
    · simp [same]
    · simp [same, h.bits j jLt]
  · intro j jLt
    cases jLt with
    | inl same => exact same ▸ ⟨two, tTakesLowest.lt⟩
    | inr liveMem => exact h.range j liveMem

theorem InodeInv.release (h : InodeInv v live) (iMem : i ∈ live) :
    ∃ v', releaseInode i v = some ((), v') ∧ InodeInv v' (live \ {i}) := by
  obtain ⟨two, lt⟩ := h.range i iMem
  obtain ⟨v', run, frame, bits, last⟩ := releaseInode_first h.bitmap lt
  refine ⟨v', run, h.bitmap.of_frame frame, last h.last, ?_, fun j jMem => h.range j jMem.1⟩
  intro j jMem
  rw [bits j jMem]
  by_cases same : j = i
  · have absent : ¬ i < 2 := Nat.not_lt.mpr two
    simp [same, absent]
  · simp [same, h.bits j jMem]

/-- A call with room returns the lowest free number, with a bound of one bitmap or more. -/
theorem InodeInv.allocate (h : InodeInv v live) (room : v.HasRoom) :
    ∃ e v', TakesLowest v e v' ∧ InodeInv v' (insert e live) ∧ ∀ fuel, allocateInode (fuel + 1) v = some (e, v') := by
  obtain ⟨e, v', tTakesLowest, run⟩ := allocateInode_room h.bitmap room
  exact ⟨e, v', tTakesLowest, h.takesLowest tTakesLowest, run⟩

theorem allocateInode_zero (h : v.HasBitmap) : allocateInode 0 v = none := by
  rw [allocateInode_run h]
  rfl

theorem InodeInv.allocated (h : InodeInv v live) (room : v.HasRoom)
    (run : allocateInode fuel v = some (i, v')) : TakesLowest v i v' := by
  cases fuel with
  | zero =>
    rw [allocateInode_zero h.bitmap] at run
    cases run
  | succ fuel =>
    obtain ⟨e, u, tTakesLowest, -, all⟩ := h.allocate room
    rw [all fuel] at run
    cases run
    exact tTakesLowest

theorem inodeStep_inv (h : InodeInv s.1 s.2) (step : InodeStep HasRoom s s') : InodeInv s'.1 s'.2 := by
  cases step with
  | allocate room run => exact h.takesLowest (h.allocated room run)
  | release iMem run =>
    obtain ⟨u, run', inv⟩ := h.release iMem
    rw [run'] at run
    cases run
    exact inv

theorem inodeRun_inv (h : InodeInv s.1 s.2) (run : InodeRun HasRoom s s') : InodeInv s'.1 s'.2 := by
  induction run with
  | refl => exact h
  | tail _ step ih => exact inodeStep_inv ih step

/-! ## Uniqueness -/

/-- Also the call that appends a bitmap returns a new number: the first one behind the full bitmap. -/
theorem InodeInv.fresh (h : InodeInv v live) (run : allocateInode fuel v = some (i, v')) : i ∉ live := by
  by_cases room : v.HasRoom
  · have tTakesLowest := h.allocated room run
    exact (h.not_live tTakesLowest.lt tTakesLowest.clear).1
  cases fuel with
  | zero =>
    rw [allocateInode_zero h.bitmap] at run
    cases run
  | succ fuel =>
    cases fuel with
    | zero =>
      rw [allocateInode_full_short h.bitmap room h.last] at run
      cases run
    | succ fuel =>
      obtain ⟨_, _, _, -, -, -, -, iEq, -⟩ := (allocateInode_full h.bitmap room h.last).mp run
      intro liveMem
      have lt := (h.range i liveMem).2
      omega

def clearBelow (v : Rfs2) (i : Nat) : Finset Nat := (Finset.range i).filter fun j => v.inodeBit j = false

theorem mem_clearBelow : j ∈ v.clearBelow i ↔ j < i ∧ v.inodeBit j = false := by
  rw [clearBelow, Finset.mem_filter, Finset.mem_range]

/-- While `i` is free, allocation alone reaches it. -/
theorem InodeInv.returned (iLt : i < inodesPerBitmask) (two : 2 ≤ i) (h : InodeInv v live) (absent : i ∉ live) :
    ∃ u live' u', InodeRun HasRoom (v, live) (u, live') ∧ Frame {v.superblock.inodeMaskPtr} v u ∧ u.HasRoom ∧
      allocateInode 1 u = some (i, u') := by
  -- by induction on the free numbers below `i`: a call takes the lowest one, or `i` itself
  induction card : (v.clearBelow i).card using Nat.strong_induction_on generalizing v live with
  | _ n ih =>
    have clear := h.clear iLt absent two
    have room : v.HasRoom := ⟨i, iLt, clear⟩
    obtain ⟨e, v', tTakesLowest, inv, run⟩ := h.allocate room
    rcases (tTakesLowest.le clear).lt_or_eq with eiLt | rfl
    · have erase : v'.clearBelow i = (v.clearBelow i).erase e := by
        ext k
        simp only [mem_clearBelow, Finset.mem_erase]
        by_cases kLt : k < i
        · rw [tTakesLowest.bits k (by omega)]
          by_cases same : k = e <;> simp [same, kLt]
        · simp [kLt]
      have less : (v'.clearBelow i).card < n := by
        rw [erase, ← card]
        exact Finset.card_erase_lt_of_mem (mem_clearBelow.mpr ⟨eiLt, tTakesLowest.clear⟩)
      have absent' : i ∉ insert e live := fun mem => mem.elim eiLt.ne' absent
      obtain ⟨u, live', u', rest, frame, last⟩ := ih _ less inv absent' rfl
      rw [tTakesLowest.frame.superblock] at frame
      exact ⟨u, live', u', rest.head (InodeStep.allocate room (run 0)), tTakesLowest.frame.trans frame, last⟩
    · exact ⟨v, live, v', Relation.ReflTransGen.refl, Frame.refl _ v, room, run 0⟩

end Steps

theorem bit_firstInodeBitmap {i : Nat} (iLt : i < inodesPerBitmask) :
    firstInodeBitmap.bit i = true ↔ i ∈ ({rootInodeIndex} : Set Nat) ∨ i < 2 := by
  by_cases low : i < 8
  · interval_cases i <;> decide
  have byte : firstInodeBitmap (i / 8) = 0 := Function.update_of_ne (by omega) _ _
  have root : i ≠ 2 := by omega
  simp only [Bytes.bit, byte, Set.mem_singleton_iff, rootInodeIndex]
  simp [root]
  omega

theorem formatted_inodeInv {v v' : Rfs2} {sinceEpoch : Nat} (h : format sinceEpoch v = some (.ok (), v')) :
    InodeInv v' {rootInodeIndex} := by
  have size := format_ok_size h
  have cFormatted := format_contents h
  have ptr : v'.superblock.inodeMaskPtr = 3 := by rw [cFormatted.superblock]; rfl
  refine ⟨⟨by omega, ?_⟩, ?_, ?_, ?_⟩
  · simp only [wholeBlocks, blockSizeSectors] at size
    simp only [HasBlock, ptr, cFormatted.inside.size]
    omega
  · refine Bytes.readLE_eq_zero fun k kLt => ?_
    rw [ptr, cFormatted.inodeBitmap _ (by simp only [InodeBtmask.words]; omega), firstInodeBitmap,
      Function.update_of_ne (by simp only [InodeBtmask.words]; omega)]
    rfl
  · intro i iLt
    have same : v'.inodeBit i = firstInodeBitmap.bit i := by
      rw [inodeBit, ptr, Bytes.bit, cFormatted.inodeBitmap _ (by simp only [inodesPerBitmask] at iLt; omega)]
      rfl
    rw [same, bit_firstInodeBitmap iLt]
  · intro i iLt
    cases iLt
    decide

section Exhaustion

variable {v v' : Rfs2}

theorem allocateInode_lowest {e : Nat} (h : v.HasBitmap) (eLt : e < inodesPerBitmask)
    (clear : v.inodeBit e = false) (below : ∀ i < e, v.inodeBit i = true) :
    ∃ v', TakesLowest v e v' ∧ allocateInode 1 v = some (e, v') := by
  obtain ⟨r, v', tTakesLowest, run⟩ := allocateInode_room h ⟨e, eLt, clear⟩
  have same : r = e := (tTakesLowest.le clear).antisymm (Nat.le_of_not_lt fun lt => by
    have isSet := below r lt
    rw [tTakesLowest.clear] at isSet
    cases isSet)
  exact ⟨v', same ▸ tTakesLowest, same ▸ run 0⟩

theorem allocateInode_extends {b : Nat} (h : v.HasBitmap) (full : ¬ v.HasRoom) (last : v.LastBitmap)
    (free : v.IsFree b) (data : ∀ c, v.IsFree c → v.HasBlock c ∧ c ≠ 0)
    (copies : ∀ g < v.groups, v.HasBlock (1 + g * groupSizeBlocks)) :
    ∃ v', allocateInode 2 v = some (inodesPerBitmask, v') ∧ v'.HasBitmap ∧
      ∀ i < inodesPerBitmask, v'.inodeBit i = decide (i = 0) := by
  obtain ⟨c, u, alloc⟩ : ∃ c u, v.tick.allocateBlock = some (c, u) :=
    allocateBlockFrom_total (Nat.zero_add _) free (Nat.zero_le _)
  have spec := allocateBlock_spec alloc
  obtain ⟨block, ne⟩ := data c spec.free
  have size : u.partition.sizeSectors = v.partition.sizeSectors := spec.frame.size
  have old : u.HasBlock v.superblock.inodeMaskPtr := by
    have inside := h.inside
    simpa [HasBlock, size] using inside
  have groups : u.groups = v.groups := spec.frame.groups_eq
  obtain ⟨w, update⟩ := updateSuperblock_total (v := u.setBlock v.superblock.inodeMaskPtr
    (InodeBtmask.setPtr c (bitmapFrame v))) (v.withBitmap c) (groups ▸ Nat.zero_lt_of_lt free.1) (fun k kLt => by
      have kLt' : k < (u.groups + 63) / 64 := kLt
      have inside := copies (64 * k) (by omega)
      simpa [HasBlock, copyBlock, size] using inside)
  have frame := updateSuperblock_spec update
  have sizeW : w.partition.sizeSectors = v.partition.sizeSectors := frame.size.trans size
  have ptr : w.superblock.inodeMaskPtr = c := by rw [frame.superblock]; rfl
  have new : w.HasBlock c := by simpa only [HasBlock, sizeW] using block
  have run : ∃ v', allocateInode (0 + 2) v = some (inodesPerBitmask, v') ∧ v' = w.setBlock c
      (InodeBtmask.set 0 ((InodeBtmask.setPtr c (bitmapFrame v)).blit 0 4096 InodeBtmask.new)) :=
    ⟨_, (allocateInode_full h full last).mpr ⟨c, u, w, alloc, old, update, new, rfl, rfl⟩, rfl⟩
  obtain ⟨v', run, rfl⟩ := run
  refine ⟨_, run, ⟨ptr ▸ ne, ptr.symm ▸ new⟩, ?_⟩
  intro i iLt
  have inside : i < groupSizeBlocks := by
    simp only [inodesPerBitmask, groupSizeBlocks] at *
    omega
  rw [inodeBit, setBlock_superblock, ptr, setBlock_disk, bit_setBlock inside, InodeBtmask.set, Bitmask.bit_set,
    bit_blit_block inside]
  by_cases zero : i = 0
  · simp [zero]
  · simp [zero, InodeBtmask.new, Bytes.bit, Bytes.zero]

end Exhaustion

end MeowOs.Rfs2
