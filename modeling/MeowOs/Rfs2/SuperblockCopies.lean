import MeowOs.Rfs2.Volume

/-! # The superblock and its copies

`update_superblock` goes by the number of groups, which is computed from the
sector count cut to 32 bits, and takes a last group for one with a block 1 also
if it has a single block.  `superblock_copies_iff` says for which partition sizes
the copies are the right ones.
-/

namespace MeowOs.Rfs2

open MeowOs.Machine

/-! ## The checksum -/

namespace SuperBlock

def word (sb : SuperBlock) (i : Nat) : Nat := (sb.store Bytes.zero).readLE (4 * i) 4

variable {sb sb' : SuperBlock} {i : Nat}

theorem xorWords_eq (sb : SuperBlock) : sb.xorWords = sb.word 0 ^^^ sb.word 1 ^^^ sb.word 2 ^^^ sb.word 3 ^^^
    sb.word 4 ^^^ sb.word 5 ^^^ sb.word 6 ^^^ sb.word 7 := by
  simp [xorWords, loopUp, word]

theorem xorWords_lt (sb : SuperBlock) : sb.xorWords < 2 ^ 32 := by
  have bound : ∀ i, sb.word i < 2 ^ 32 := fun i => Bytes.readLE_lt _ _ 4
  simp only [xorWords_eq]
  repeat' apply Nat.xor_lt_two_pow
  all_goals exact bound _

theorem word_checksum (sb : SuperBlock) (c : Nat) : { sb with checksum := c }.word 7 = c % 2 ^ 32 :=
  Bytes.readLE_writeLE _ 28 4 c

theorem word_other (sb : SuperBlock) (c : Nat) (iLt : i < 7) : { sb with checksum := c }.word i = sb.word i := by
  have out : 4 * i + 4 ≤ 28 ∨ 28 + 4 ≤ 4 * i := by omega
  exact (Bytes.readLE_writeLE_disjoint out).trans (Bytes.readLE_writeLE_disjoint out).symm

theorem calculateChecksum_passes (sb : SuperBlock) : sb.calculateChecksum.checkChecksum = true := by
  have sum : { sb with checksum := 0 }.xorWords % 2 ^ 32 = { sb with checksum := 0 }.xorWords :=
    Nat.mod_eq_of_lt (xorWords_lt _)
  rw [checkChecksum, beq_iff_eq, calculateChecksum, xorWords_eq, word_checksum, sum, xorWords_eq, word_checksum]
  simp [word_other]

theorem checkChecksum_changed (h : sb.checkChecksum = true) (iLt : i < 8) (word : sb'.word i ≠ sb.word i)
    (others : ∀ j < 8, j ≠ i → sb'.word j = sb.word j) : sb'.checkChecksum = false := by
  by_contra passes
  rw [Bool.not_eq_false, checkChecksum, beq_iff_eq] at passes
  rw [checkChecksum, beq_iff_eq] at h
  have same := passes.trans h.symm
  rw [xorWords_eq, xorWords_eq] at same
  interval_cases i <;> simp_all

end SuperBlock

/-! ## The copies -/

/-- The superblock is in block 1 of every 64th group that has one, and no other block has changed. -/
structure SuperblockCopied (v : Rfs2) (sb : SuperBlock) (v' : Rfs2) : Prop where
  copies : ∀ n, IsSuperblockCopy n → v.HasBlock n → Bytes.BlockIs v'.disk n (sb.calculateChecksum.store (v.frames 0))
  others : ∀ n, ¬ (IsSuperblockCopy n ∧ v.HasBlock n) → Bytes.SameBlock v.disk v'.disk n

/-- The sector count fits 32 bits, there is a block, and no last group of a single block. -/
def CopiedSize (sizeSectors : Nat) : Prop :=
  sizeSectors < 2 ^ 32 ∧ sizeSectors / 8 ≠ 0 ∧ sizeSectors / 8 % (64 * groupSizeBlocks) ≠ 1

variable {v v' : Rfs2} {sb : SuperBlock}

theorem copiedSize_iff : CopiedSize v.partition.sizeSectors ↔
    0 < v.groups ∧ ∀ k, v.HasBlock (copyBlock k) ↔ k < v.copyCount := by
  simp only [CopiedSize, groups, blocks, HasBlock, copyBlock, copyCount, groupSizeBlocks, blockSizeSectors]
  generalize v.partition.sizeSectors = size
  constructor
  · rintro ⟨sizeLt, blocksNe, last⟩
    refine ⟨by omega, fun k => ?_⟩
    omega
  rintro ⟨groupsPos, copies⟩
  have ends := copies 256
  have second := copies 1
  have last := copies (size / 8 / (64 * (4096 * 8)))
  omega

theorem exists_copyBlock {n : Nat} (h : IsSuperblockCopy n) : ∃ k, n = copyBlock k := by
  simp only [IsSuperblockCopy, copyBlock, groupSizeBlocks] at h ⊢
  exact ⟨n / (64 * (4096 * 8)), by omega⟩

theorem CopiesWritten.copied (count : ∀ k, v.HasBlock (copyBlock k) ↔ k < v.copyCount)
    (h : CopiesWritten v sb v.copyCount v') : SuperblockCopied v sb v' := by
  refine ⟨fun n copy block => ?_, fun n other => h.frame.same n ?_⟩
  · obtain ⟨k, rfl⟩ := exists_copyBlock copy
    exact (h.written k ((count k).mp block)).2
  · rintro ⟨k, kLt, rfl⟩
    exact other ⟨superblockCopy_index k, (count k).mpr kLt⟩

end MeowOs.Rfs2
