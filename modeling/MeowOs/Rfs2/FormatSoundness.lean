import MeowOs.Rfs2.Format

/-! # What formatting establishes

`format_exact_iff` settles for which partition sizes the bitmaps of a new volume
describe it exactly: the number of whole blocks has to be a multiple of eight,
and the last superblock group must not be a later one that is cut short.  On
those sizes block allocation starts from `AllocatorInv`.
-/

namespace MeowOs.Rfs2

open MeowOs.Machine

/-- The blocks `format` puts to use: bitmaps, superblock copies, inode tree, inode bitmap and root inode. -/
def IsMetadata (b : Nat) : Prop := IsGroupBitmap b ∨ IsSuperblockCopy b ∨ b = 2 ∨ b = 3 ∨ b = 4

def MarkedFree (v : Rfs2) (b : Nat) : Prop :=
  b / groupSizeBlocks < (v.wholeBlocks + (groupSizeBlocks - 1)) / groupSizeBlocks ∧ v.marked b = false

structure FormatExact (v v' : Rfs2) : Prop where
  inside : Inside v v'
  free : ∀ b, v'.MarkedFree b ↔ b < v.wholeBlocks ∧ ¬ IsMetadata b

/-- The partition sizes on which `format` gets all bitmaps right. -/
def ExactSize (v : Rfs2) : Prop :=
  v.wholeBlocks % 8 = 0 ∧ ¬ (v.wholeBlocks / groupSizeBlocks % 64 = 0 ∧
    64 ≤ v.wholeBlocks / groupSizeBlocks ∧ 0 < v.wholeBlocks % groupSizeBlocks)

/-! ## The bits of a formatted volume -/

section Bits

variable {sinceEpoch : Nat} {v v' : Rfs2}

theorem bit_groupBitmap {wholeBlocks g i : Nat} (aligned : wholeBlocks % 8 = 0)
    (gLt : g * groupSizeBlocks < wholeBlocks) (iLt : i < groupSizeBlocks) :
    (groupBitmap wholeBlocks g).bit i = (decide (wholeBlocks ≤ g * groupSizeBlocks + i) || decide (i = 0)) := by
  have group : groupSizeBlocks = 32768 := rfl
  rw [groupBitmap]
  split
  · rename_i whole
    have inside : ¬ wholeBlocks ≤ g * groupSizeBlocks + i := by
      rw [group] at whole iLt ⊢
      omega
    rw [bit_wholeBitmap, decide_eq_false inside, Bool.false_or]
  · rename_i last
    have rEq : wholeBlocks % groupSizeBlocks % 8 = 0 := by
      rw [group]
      omega
    have equiv : wholeBlocks % groupSizeBlocks ≤ i ↔ wholeBlocks ≤ g * groupSizeBlocks + i := by
      rw [group] at last gLt ⊢
      omega
    rw [bit_markInvalid _ (Nat.mod_lt _ (by norm_num [group])) rEq iLt, bit_wholeBitmap]
    simp [equiv]

theorem formatted_marked_first (h : Formatted sinceEpoch v v') {b : Nat} (bLt : b < groupSizeBlocks) :
    v'.marked b = if b < 8 then decide (b < 5)
      else (groupBitmap v.wholeBlocks (lastCopyGroup v.wholeBlocks)).bit b := by
  have group : groupSizeBlocks = 32768 := rfl
  have byte : b / 8 < 4096 := by omega
  have map : bitmapOf b = 0 := by rw [bitmapOf, Nat.div_eq_of_lt bLt, Nat.zero_mul]
  have bits : ∀ j, (0b11111 : UInt8).toNat.testBit j = decide (j < 5) := fun j =>
    Nat.testBit_two_pow_sub_one 5 j
  have bit : v'.marked b = Bytes.bit (Function.update
      (groupBitmap v.wholeBlocks (lastCopyGroup v.wholeBlocks)) 0 0b11111) b := by
    simp only [marked, map, Nat.mod_eq_of_lt bLt]
    rw [Bytes.bit, Bytes.bit, h.firstBitmap _ byte]
  rw [bit, bit_update]
  by_cases low : b < 8
  · have div : b / 8 = 0 ∧ b % 8 = b := by omega
    rw [if_pos low, if_pos div.1, bits, div.2]
  · rw [if_neg low, if_neg (by omega)]

theorem formatted_marked_later (h : Formatted sinceEpoch v v') {b : Nat} (first : groupSizeBlocks ≤ b)
    (groups : bitmapOf b < v.wholeBlocks) :
    v'.marked b = (decide (b / groupSizeBlocks % 64 = 0 ∧ b % groupSizeBlocks < 2) ||
      (groupBitmap v.wholeBlocks (b / groupSizeBlocks)).bit (b % groupSizeBlocks)) := by
  have group : groupSizeBlocks = 32768 := rfl
  have byte : b % groupSizeBlocks / 8 < 4096 := by
    rw [group]
    omega
  have pos : 0 < b / groupSizeBlocks := Nat.div_pos first (by norm_num [group])
  have block := h.bitmaps (b / groupSizeBlocks) pos groups _ byte
  simp only [marked, bitmapOf]
  rw [Bytes.bit, block]
  split
  · rename_i copy
    simp only [copy, true_and]
    exact bit_markFirstTwo _ _
  · rename_i copy
    simp only [copy, false_and, decide_false, Bool.false_or]
    rfl

end Bits

/-! ## Which sizes are exact -/

variable {sinceEpoch : Nat} {v v' : Rfs2}

theorem formatted_exact (size : 5 ≤ v.wholeBlocks) (ok : v.ExactSize)
    (h : Formatted sinceEpoch v v') : FormatExact v v' := by
  have group : groupSizeBlocks = 32768 := rfl
  obtain ⟨aligned, cut⟩ := ok
  refine ⟨h.inside, fun b => ?_⟩
  have whole : v'.wholeBlocks = v.wholeBlocks := by simp only [wholeBlocks, h.inside.size]
  have groups : b / groupSizeBlocks < (v.wholeBlocks + (groupSizeBlocks - 1)) / groupSizeBlocks ↔
      bitmapOf b < v.wholeBlocks := by
    rw [bitmapOf, group]
    omega
  simp only [MarkedFree, whole, groups, IsMetadata, IsGroupBitmap, IsSuperblockCopy]
  by_cases first : b < groupSizeBlocks
  · -- group 0, whose bitmap carries over the bytes of the last superblock group
    have map : bitmapOf b = 0 := by rw [bitmapOf, Nat.div_eq_of_lt first, Nat.zero_mul]
    rw [formatted_marked_first h first, map, Nat.div_eq_of_lt first, Nat.mod_eq_of_lt first]
    by_cases low : b < 8
    · rw [if_pos low]
      simp only [decide_eq_false_iff_not, and_true]
      omega
    have last : lastCopyGroup v.wholeBlocks * groupSizeBlocks < v.wholeBlocks := by
      simp only [lastCopyGroup, group]
      omega
    have same : v.wholeBlocks ≤ lastCopyGroup v.wholeBlocks * groupSizeBlocks + b ↔ v.wholeBlocks ≤ b := by
      simp only [lastCopyGroup, group] at first cut last ⊢
      omega
    rw [if_neg low, bit_groupBitmap aligned last first]
    simp only [Bool.or_eq_false_iff, decide_eq_false_iff_not, same]
    omega
  · have back : bitmapOf b + b % groupSizeBlocks = b := Nat.div_add_mod' b groupSizeBlocks
    have lt : b % groupSizeBlocks < groupSizeBlocks := Nat.mod_lt _ (by norm_num [group])
    by_cases map : bitmapOf b < v.wholeBlocks
    · rw [formatted_marked_later h (by omega) map, bit_groupBitmap aligned map lt]
      simp only [Bool.or_eq_false_iff, decide_eq_false_iff_not]
      simp only [bitmapOf] at back
      omega
    · simp only [map, false_and, false_iff]
      omega

theorem not_exact_of_cut_byte (cut : v.wholeBlocks % 8 ≠ 0) (h : Formatted sinceEpoch v v') : ¬ FormatExact v v' := by
  have group : groupSizeBlocks = 32768 := rfl
  intro isExact
  have rLt : v.wholeBlocks % groupSizeBlocks < groupSizeBlocks := Nat.mod_lt _ (by norm_num [group])
  have rNe8 : v.wholeBlocks % groupSizeBlocks % 8 ≠ 0 := by
    rw [group]
    omega
  have bitmap : groupBitmap v.wholeBlocks (v.wholeBlocks / groupSizeBlocks) =
      markInvalid (v.wholeBlocks % groupSizeBlocks) wholeBitmap := if_neg (by omega)
  -- the block of the last bit of that byte
  obtain ⟨b, bEq⟩ : ∃ b, b = 8 * (v.wholeBlocks / 8) + 7 := ⟨_, rfl⟩
  have div : b / groupSizeBlocks = v.wholeBlocks / groupSizeBlocks := by
    rw [group]
    omega
  have mod : b % groupSizeBlocks = 8 * (v.wholeBlocks % groupSizeBlocks / 8) + 7 := by
    rw [group]
    omega
  have bit := bit_markInvalid_cut wholeBitmap rLt rNe8
  have clear : v'.marked b = false := by
    by_cases first : b < groupSizeBlocks
    · have last : lastCopyGroup v.wholeBlocks = v.wholeBlocks / groupSizeBlocks := by
        simp only [lastCopyGroup, group] at first ⊢
        omega
      rw [formatted_marked_first h first]
      split
      · exact decide_eq_false (by omega)
      · rw [last, bitmap, ← Nat.mod_eq_of_lt first, mod, bit]
    · have map : bitmapOf b < v.wholeBlocks := by
        rw [bitmapOf, group]
        omega
      rw [formatted_marked_later h (by omega) map, div, bitmap, mod, bit]
      simp
  have whole : v'.wholeBlocks = v.wholeBlocks := by simp only [wholeBlocks, h.inside.size]
  have free : v'.MarkedFree b := by
    refine ⟨?_, clear⟩
    rw [whole, group]
    omega
  have inside := ((isExact.free b).mp free).1
  omega

/-- If the last superblock group is a later one that is cut short, group 0 inherits its end. -/
theorem not_exact_of_cut_group (aligned : v.wholeBlocks % 8 = 0)
    (copy : v.wholeBlocks / groupSizeBlocks % 64 = 0) (later : 64 ≤ v.wholeBlocks / groupSizeBlocks)
    (cut : 0 < v.wholeBlocks % groupSizeBlocks) (h : Formatted sinceEpoch v v') : ¬ FormatExact v v' := by
  have group : groupSizeBlocks = 32768 := rfl
  intro isExact
  have last : lastCopyGroup v.wholeBlocks = v.wholeBlocks / groupSizeBlocks := by
    simp only [lastCopyGroup, group] at copy cut ⊢
    omega
  have inside : v.wholeBlocks / groupSizeBlocks * groupSizeBlocks < v.wholeBlocks := by
    rw [group] at cut ⊢
    omega
  have marked : v'.marked 32767 = true := by
    rw [formatted_marked_first h (by norm_num [group]), if_neg (by norm_num), last,
      bit_groupBitmap aligned inside (by norm_num [group]), decide_eq_true (by rw [group]; omega)]
    rfl
  have free : v'.MarkedFree 32767 := by
    refine (isExact.free 32767).mpr ⟨by rw [group] at later; omega, ?_⟩
    norm_num [IsMetadata, IsGroupBitmap, IsSuperblockCopy, group]
  rw [free.2] at marked
  cases marked

theorem format_allocatorInv (size : 5 ≤ v.wholeBlocks) (ok : v.ExactSize)
    (run : format sinceEpoch v = some (.ok (), v')) : AllocatorInv v' ∅ := by
  have contents := format_contents run
  have isExact := formatted_exact size ok contents
  have size' : v'.partition.sizeSectors = v.partition.sizeSectors := contents.inside.size
  refine ⟨fun b free => ?_, fun b bMem => bMem.elim⟩
  -- the groups the mounted volume knows of are among those on disk
  have groupsLe : v'.groups ≤ (v'.wholeBlocks + (groupSizeBlocks - 1)) / groupSizeBlocks := by
    simp only [groups, blocks, wholeBlocks, blockSizeSectors, groupSizeBlocks]
    omega
  obtain ⟨inside, data⟩ := (isExact.free b).mp ⟨Nat.lt_of_lt_of_le free.1 groupsLe, free.2⟩
  refine ⟨?_, fun map => data (.inl map), fun copy => data (.inr (.inl copy))⟩
  simp only [wholeBlocks, blockSizeSectors] at inside
  simp only [HasBlock, size']
  omega

end MeowOs.Rfs2
