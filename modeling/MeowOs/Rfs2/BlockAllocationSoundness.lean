import MeowOs.Rfs2.BlockAllocation

/-! # Block allocation over whole runs

A run is any sequence of `allocate_block` calls and of `release_block` calls on
blocks that are allocated at that moment.  Next to the volume it carries the set
`A` of the blocks that are allocated as far as the callers know: a block joins
it when it is handed out and leaves it when it is released, whatever the bitmaps
say.  `AllocatorInv` ties the two together.
-/

namespace MeowOs.Rfs2

open MeowOs.Machine

/-- A block inside the partition that holds neither a group bitmap nor a superblock copy. -/
structure DataBlock (v : Rfs2) (b : Nat) : Prop where
  inside : v.HasBlock b
  not_bitmap : ¬ IsGroupBitmap b
  not_superblock : ¬ IsSuperblockCopy b

structure AllocatorInv (v : Rfs2) (A : Set Nat) : Prop where
  free_data : ∀ b, v.IsFree b → v.DataBlock b
  used_data : ∀ b ∈ A, v.DataBlock b ∧ b / groupSizeBlocks < v.groups ∧ v.marked b = true

inductive BlockStep : Rfs2 × Set Nat → Rfs2 × Set Nat → Prop
  | allocate {v v' : Rfs2} {A : Set Nat} {b : Nat} : allocateBlock v = some (b, v') → BlockStep (v, A) (v', insert b A)
  | release {v v' : Rfs2} {A : Set Nat} {b : Nat} :
      b ∈ A → releaseBlock b v = some ((), v') → BlockStep (v, A) (v', A \ {b})

def FreesExactly (v : Rfs2) (b : Nat) (v' : Rfs2) : Prop := ∀ c, v'.IsFree c ↔ v.IsFree c ∨ c = b

/-! ## The invariant -/

variable {v v' : Rfs2} {b : Nat} {A : Set Nat} {s s' : Rfs2 × Set Nat} {S : Set Nat}

theorem DataBlock.of_frame (h : v.DataBlock b) (frame : Frame S v v') : v'.DataBlock b :=
  ⟨by simpa only [HasBlock, frame.size] using h.inside, h.not_bitmap, h.not_superblock⟩

theorem AllocatorInv.fresh (inv : AllocatorInv v A) (free : v.IsFree b) : b ∉ A :=
  fun bMem => free.not_marked (inv.used_data b bMem).2.2

theorem allocates_inv (inv : AllocatorInv v A) (h : Allocates v b v') : AllocatorInv v' (insert b A) := by
  constructor
  · rintro c ⟨group, clear⟩
    rw [h.marked] at clear
    split at clear
    · cases clear
    · exact (inv.free_data c ⟨h.frame.groups_eq ▸ group, clear⟩).of_frame h.frame
  intro c cMem
  rw [h.marked, h.frame.groups_eq]
  cases cMem with
  | inl same =>
    subst same
    exact ⟨(inv.free_data c h.free).of_frame h.frame, h.free.1, if_pos rfl⟩
  | inr cAMem =>
    obtain ⟨data, group, marked⟩ := inv.used_data c cAMem
    refine ⟨data.of_frame h.frame, group, ?_⟩
    split
    · rfl
    · exact marked

theorem AllocatorInv.of_frame (h : AllocatorInv v A) (frame : Frame S v v')
    (sAll : ∀ n ∈ S, ¬ IsGroupBitmap n) : AllocatorInv v' A := by
  have marked := marked_of_frame frame sAll
  refine ⟨fun b free => ?_, fun b bMem => ?_⟩
  · refine (h.free_data b ⟨?_, ?_⟩).of_frame frame
    · exact frame.groups_eq ▸ free.1
    · exact (marked b).symm.trans free.2
  · obtain ⟨data, group, isSet⟩ := h.used_data b bMem
    exact ⟨data.of_frame frame, frame.groups_eq.symm ▸ group, (marked b).trans isSet⟩

theorem release_inv (inv : AllocatorInv v A) (bMem : b ∈ A)
    (h : releaseBlock b v = some ((), v')) : AllocatorInv v' (A \ {b}) := by
  by_cases refused : Refused b
  · -- nothing happened: `b` stays marked, but no caller counts on it any more
    rw [releaseBlock_refused refused] at h
    cases h
    exact ⟨inv.free_data, fun c cMem => inv.used_data c cMem.1⟩
  obtain ⟨frame, marked⟩ := releaseBlock_spec refused h
  constructor
  · rintro c ⟨group, clear⟩
    rw [marked] at clear
    split at clear
    · rename_i same
      subst same
      exact (inv.used_data c bMem).1.of_frame frame
    · exact (inv.free_data c ⟨frame.groups_eq ▸ group, clear⟩).of_frame frame
  · intro c cMem
    obtain ⟨data, group, isSet⟩ := inv.used_data c cMem.1
    refine ⟨data.of_frame frame, frame.groups_eq ▸ group, ?_⟩
    have same : c ≠ b := cMem.2
    rw [marked, if_neg same, isSet]

theorem blockStep_inv (inv : AllocatorInv s.1 s.2) (h : BlockStep s s') : AllocatorInv s'.1 s'.2 := by
  cases h with
  | allocate alloc => exact allocates_inv inv (allocateBlock_spec alloc)
  | release bMem released => exact release_inv inv bMem released

theorem blockRun_inv (inv : AllocatorInv s.1 s.2)
    (h : Relation.ReflTransGen BlockStep s s') : AllocatorInv s'.1 s'.2 := by
  induction h with
  | refl => exact inv
  | tail _ step ih => exact blockStep_inv ih step

theorem releaseBlock_total (group : b / groupSizeBlocks < v.groups) : ∃ v', releaseBlock b v = some ((), v') := by
  by_cases refused : Refused b
  · exact ⟨v, releaseBlock_refused refused⟩
  have cond : ¬ (b / groupSizeBlocks &&& 64 = 0 ∧ b % groupSizeBlocks = 1) := refused
  have block : v.tick.HasBlock (b / groupSizeBlocks * groupSizeBlocks) :=
    hasBlock_bitmap group
  simp only [releaseBlock, if_neg cond, WorkingBlock.new, allocateFrame, WorkingBlock.getAsMut,
    WorkingBlock.assignToDiskBlock, Prog.bind_run, Option.bind_some, Prog.pure_run]
  rw [partitionRead_block.mpr ⟨block, rfl, rfl⟩]
  exact ⟨_, writeAndDealloc_eq_some.mpr ⟨block, rfl⟩⟩

theorem freesExactly_iff (group : b / groupSizeBlocks < v.groups)
    (marked : v.marked b = true) (h : releaseBlock b v = some ((), v')) : v.FreesExactly b v' ↔ ¬ Refused b := by
  constructor
  · intro frees refused
    rw [releaseBlock_refused refused] at h
    cases h
    exact ((frees b).mpr (.inr rfl)).not_marked marked
  · intro freed c
    obtain ⟨frame, bits⟩ := releaseBlock_spec freed h
    simp only [IsFree, frame.groups_eq, bits]
    by_cases same : c = b
    · simp [same, group]
    · simp [same]

/-- Two groups, all of whose blocks are in use but one. -/
def crowdedVolume (b : Nat) : Rfs2 where
  partition :=
    { bytes := fun a =>
        if a = bitmapOf b * 4096 + b % groupSizeBlocks / 8 then UInt8.ofNat (0xFF - 2 ^ (b % groupSizeBlocks % 8)) else 0xFF
      sizeSectors := 2 * 32768 * 8 }
  superblock :=
    { inodeMaskPtr := 3, inodeTreeRootPtr := 2, fsSize := 65536, rootInodeIndex := 2, checksum := 0 }
  frames := fun _ => Bytes.zero

theorem crowdedVolume_free {c : Nat} (h : (crowdedVolume b).IsFree c) : c = b := by
  obtain ⟨-, clear⟩ := h
  have bit : (if c / 32768 * 32768 * 4096 + c % 32768 / 8 = b / 32768 * 32768 * 4096 + b % 32768 / 8 then
      UInt8.ofNat (0xFF - 2 ^ (b % 32768 % 8)) else 0xFF).toNat.testBit (c % 32768 % 8) = false := clear
  have same : ∀ k < 8, ∀ m < 8, (UInt8.ofNat (0xFF - 2 ^ m)).toNat.testBit k = false → k = m := by decide
  have ones : ∀ k < 8, (0xFF : UInt8).toNat.testBit k = true := by decide
  have lt := Nat.mod_lt (c % 32768) (show 8 > 0 by decide)
  split at bit
  next addr =>
    have kEq := same _ lt _ (Nat.mod_lt _ (by decide)) bit
    omega
  next =>
    rw [ones _ lt] at bit
    cases bit

theorem crowdedVolume_inv (inside : b < 2 * 32768) (bitmap : ¬ IsGroupBitmap b) (copy : ¬ IsSuperblockCopy b) :
    AllocatorInv (crowdedVolume b) ∅ := by
  constructor
  · intro c free
    rw [crowdedVolume_free free]
    refine ⟨?_, bitmap, copy⟩
    show b * 8 + 8 ≤ 2 * 32768 * 8
    omega
  · intro c cMem
    cases cMem

end MeowOs.Rfs2
