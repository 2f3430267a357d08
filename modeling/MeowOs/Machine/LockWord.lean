import Mathlib.Data.Nat.Bitwise

/-! # Readers-writer lock words

A 16-bit word with the number of readers in its lower fifteen bits and a writer
flag in the highest bit, and what the usual updates of such a word do to the two.

`Coherent` is the discipline of a readers-writer lock over such a word: at most
one writer has set the flag, and once that writer is active there are no
readers.  There is one rule for each way a reader or a writer comes and goes.
-/

namespace MeowOs.Machine

/-- The word stands for `readers` readers and, if `writer` is set, for a writer. -/
structure Encodes (word : UInt16) (readers : Nat) (writer : Prop) [Decidable writer] : Prop where
  value : word.toNat = readers + if writer then 0x8000 else 0
  few : readers < 0x8000

namespace Encodes

variable {word : UInt16} {readers : Nat} {writer : Prop} [Decidable writer]

theorem readers_eq (encodes : Encodes word readers writer) : word.toNat % 0x8000 = readers := by
  have value := encodes.value
  have few := encodes.few
  split at value <;> omega

theorem writer_iff (encodes : Encodes word readers writer) : 0x8000 ≤ word.toNat ↔ writer := by
  have value := encodes.value
  have few := encodes.few
  by_cases set : writer
  · simp only [set, if_true] at value
    exact iff_of_true (by omega) set
  · simp only [set, if_false] at value
    exact iff_of_false (by omega) set

theorem and_writerBit_eq_zero : word &&& 0x8000 = 0 ↔ word.toNat < 0x8000 := by
  have bound : word.toNat < 2 ^ 16 := word.toNat_lt
  have bit : (0x8000 : UInt16).toNat = 2 ^ 15 := rfl
  rw [← UInt16.toNat_inj, UInt16.toNat_and, bit, Nat.and_two_pow, Nat.testBit_eq_decide_div_mod_eq]
  simp only [UInt16.toNat_zero, Nat.mul_eq_zero, Bool.toNat_eq_zero, decide_eq_false_iff_not]
  omega

theorem writerBit_iff (encodes : Encodes word readers writer) : word &&& 0x8000 ≠ 0 ↔ writer := by
  rw [← encodes.writer_iff, Ne, and_writerBit_eq_zero]
  omega

theorem eq_iff (encodes : Encodes word readers writer) (other : UInt16) :
    word = other ↔ other.toNat = readers + if writer then 0x8000 else 0 := by
  rw [← UInt16.toNat_inj, encodes.value]
  exact eq_comm

theorem congr (encodes : Encodes word readers writer) {other : Prop} [Decidable other] (same : writer ↔ other) :
    Encodes word readers other := by
  refine ⟨?_, encodes.few⟩
  rw [encodes.value]
  by_cases set : writer
  · rw [if_pos set, if_pos (same.mp set)]
  · rw [if_neg set, if_neg (fun holds => set (same.mpr holds))]

theorem zero : Encodes 0 0 False := ⟨by decide, by decide⟩

theorem oneReader : Encodes 1 1 False := ⟨by decide, by decide⟩

theorem addReader (encodes : Encodes word readers writer) (few : readers + 1 < 0x8000) :
    Encodes (word + 1) (readers + 1) writer := by
  refine ⟨?_, few⟩
  have value := encodes.value
  have one : (1 : UInt16).toNat = 1 := rfl
  rw [UInt16.toNat_add, one]
  split at value
  · rw [if_pos ‹_›]
    omega
  · rw [if_neg ‹_›]
    omega

theorem dropReader (encodes : Encodes word (readers + 1) writer) : Encodes (word - 1) readers writer := by
  refine ⟨?_, Nat.lt_of_succ_lt encodes.few⟩
  have value := encodes.value
  have few := encodes.few
  have one : (1 : UInt16).toNat = 1 := rfl
  rw [UInt16.toNat_sub, one]
  split at value
  · rw [if_pos ‹_›]
    omega
  · rw [if_neg ‹_›]
    omega

theorem setWriter (encodes : Encodes word readers writer) : Encodes (word ||| 0x8000) readers True := by
  refine ⟨?_, encodes.few⟩
  have value := encodes.value
  have few : readers < 2 ^ 15 := encodes.few
  have bit : (0x8000 : UInt16).toNat = 1 <<< 15 := rfl
  have joined : readers ||| 1 <<< 15 = readers + 0x8000 := by
    rw [Nat.or_comm, ← Nat.shiftLeft_add_eq_or_of_lt few]
    omega
  rw [UInt16.toNat_or, bit, value, if_pos trivial]
  by_cases set : writer
  · rw [if_pos set, ← joined, Nat.or_assoc, Nat.or_self]
  · rw [if_neg set, Nat.add_zero, joined]

end Encodes

/-- The word counts the readers and shows the writer, of which there is at most one, and where a writer is active
there are no readers. -/
structure Coherent (word : UInt16) (readers writers active : Nat) : Prop where
  encodes : Encodes word readers (0 < writers)
  oneWriter : writers ≤ 1
  exclusive : 0 < active → readers = 0
  activeWriter : active ≤ writers

namespace Coherent

variable {word : UInt16} {readers writers active : Nat}

theorem zero : Coherent 0 0 0 0 :=
  ⟨Encodes.zero.congr (by decide), Nat.zero_le 1, fun _ => rfl, Nat.le_refl 0⟩

theorem no_writer (coherent : Coherent word readers writers active) (free : word &&& 0x8000 = 0) : writers = 0 := by
  have noWriter : ¬ 0 < writers := fun writer => coherent.encodes.writerBit_iff.mpr writer free
  omega

theorem ne_writerOnly (coherent : Coherent word readers writers active) (positive : 0 < readers) : word ≠ 0x8000 := by
  have few := coherent.encodes.few
  have target : (0x8000 : UInt16).toNat = 0x8000 := rfl
  rw [Ne, coherent.encodes.eq_iff, target]
  split <;> omega

theorem enterRead (coherent : Coherent word readers writers active) (free : word &&& 0x8000 = 0)
    (few : readers + 1 < 0x8000) : Coherent (word + 1) (readers + 1) writers active := by
  have noWriter := coherent.no_writer free
  have activeWriter := coherent.activeWriter
  exact ⟨coherent.encodes.addReader few, coherent.oneWriter, fun positive => by omega, activeWriter⟩

theorem leaveRead (coherent : Coherent word (readers + 1) writers active) :
    Coherent (word - 1) readers writers active := by
  refine ⟨coherent.encodes.dropReader, coherent.oneWriter, fun positive => ?_, coherent.activeWriter⟩
  have none := coherent.exclusive positive
  omega

theorem announce (coherent : Coherent word readers writers active) (free : word &&& 0x8000 = 0) :
    Coherent (word ||| 0x8000) readers (writers + 1) active := by
  have noWriter := coherent.no_writer free
  have activeWriter := coherent.activeWriter
  exact ⟨coherent.encodes.setWriter.congr (iff_of_true trivial (Nat.succ_pos writers)), by omega,
    fun positive => by omega, by omega⟩

theorem activate (coherent : Coherent 0x8000 readers (writers + 1) active) (others : active ≤ writers) :
    Coherent 0x8000 readers (writers + 1) (active + 1) := by
  refine ⟨coherent.encodes, coherent.oneWriter, fun _ => ?_, ?_⟩
  · by_contra positive
    exact coherent.ne_writerOnly (Nat.pos_of_ne_zero positive) rfl
  omega

section

variable (coherent : Coherent word readers (writers + 1) (active + 1))

include coherent

/-- What an active writer leaves: nobody. -/
theorem alone : word = 0x8000 ∧ readers = 0 ∧ writers = 0 ∧ active = 0 := by
  have oneWriter := coherent.oneWriter
  have activeWriter := coherent.activeWriter
  obtain rfl : readers = 0 := coherent.exclusive (Nat.succ_pos active)
  refine ⟨?_, rfl, by omega, by omega⟩
  rw [coherent.encodes.eq_iff, if_pos (Nat.succ_pos writers)]
  decide

theorem leaveWrite : Coherent 0 readers writers active := by
  obtain ⟨-, rfl, rfl, rfl⟩ := coherent.alone
  exact zero

theorem downgrade : Coherent 1 (readers + 1) writers active := by
  obtain ⟨-, rfl, rfl, rfl⟩ := coherent.alone
  exact ⟨Encodes.oneReader.congr (by decide), Nat.zero_le 1, fun positive => absurd positive (Nat.lt_irrefl 0),
    Nat.le_refl 0⟩

end

end Coherent

end MeowOs.Machine
