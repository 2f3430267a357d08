import MeowOs.Machine.Prog
import MeowOs.Machine.Bytes

/-! # Bitmaps (`rfs2/bitmask.rs`)

Both bitmap types are arrays of 64-bit words with the same four operations, and
differ in their number of words: an `InodeBtmask` gives its last word to the
pointer to the next bitmap of the chain.  The operations are stated on the bytes
of the block that holds the bitmap and proved to act on single bits of it.
-/

namespace MeowOs.Rfs2

open MeowOs.Machine

/-! ## The operations on words -/

namespace Bitmask

def word (b : Bytes) (i : Nat) : Nat := b.readLE (8 * i) 8

def isSet (b : Bytes) (index : Nat) : Bool :=
  word b (index / 64) &&& (1 <<< (index % 64)) != 0

def set (index : Nat) (b : Bytes) : Bytes :=
  b.writeLE (8 * (index / 64)) 8 (word b (index / 64) ||| (1 <<< (index % 64)))

def clear (index : Nat) (b : Bytes) : Bytes :=
  b.writeLE (8 * (index / 64)) 8 (word b (index / 64) &&& ((2 ^ 64 - 1) ^^^ (1 <<< (index % 64))))

/-- `for j in 0..64`, from `j` on with `n` bits left. -/
def findEmptyBit (block j : Nat) : Nat → Option Nat
  | 0 => none
  | n + 1 => if block &&& (1 <<< j) = 0 then some j else findEmptyBit block (j + 1) n

/-- The scan over the words, from word `i` on with `n` words left. -/
def findEmptyFrom (b : Bytes) (i : Nat) : Nat → Option Nat
  | 0 => none
  | n + 1 =>
    if word b i ≠ 2 ^ 64 - 1 then
      match findEmptyBit (word b i) 0 64 with
      | some j => some (i * 64 + j)
      | none => findEmptyFrom b (i + 1) n
    else findEmptyFrom b (i + 1) n

/-! ## The operations on bits -/

variable {j i index words block n : Nat} {b : Bytes}

theorem and_one_shiftLeft_eq_zero {v : Nat} : v &&& (1 <<< j) = 0 ↔ v.testBit j = false := by
  rw [Nat.one_shiftLeft, Nat.and_two_pow]
  cases v.testBit j <;> simp

theorem testBit_word (b : Bytes) (jLt : j < 64) : (word b i).testBit j = b.bit (64 * i + j) := by
  have idx : 8 * i + j / 8 = (64 * i + j) / 8 ∧ j % 8 = (64 * i + j) % 8 := by omega
  simp only [word, Bytes.testBit_readLE, Bytes.bit, Bytes.shift_apply, idx.1, idx.2]
  simp [jLt]

theorem bit_writeLE_word (b : Bytes) {v : Nat} {x : Bool} (same : v.testBit (index % 64) = x)
    (other : ∀ j < 64, j ≠ index % 64 → v.testBit j = (word b (index / 64)).testBit j) (i : Nat) :
    (b.writeLE (8 * (index / 64)) 8 v).bit i = if i = index then x else b.bit i := by
  rw [Bytes.bit_writeLE]
  by_cases inside : 8 * (8 * (index / 64)) ≤ i ∧ i < 8 * (8 * (index / 64) + 8)
  · have jLt : i - 8 * (8 * (index / 64)) < 64 := by omega
    have back : 64 * (index / 64) + (i - 8 * (8 * (index / 64))) = i := by omega
    rw [if_pos inside]
    by_cases iEq : i = index
    · have mod : i - 8 * (8 * (index / 64)) = index % 64 := by omega
      rw [if_pos iEq, mod, same]
    · rw [if_neg iEq, other _ jLt (by omega), testBit_word b jLt, back]
  · have iEq : i ≠ index := by omega
    rw [if_neg inside, if_neg iEq]

theorem bit_set (b : Bytes) (index i : Nat) : (set index b).bit i = if i = index then true else b.bit i := by
  apply bit_writeLE_word
  · simp [Nat.testBit_or, Nat.one_shiftLeft]
  · intro j _ ne
    simp [Nat.testBit_or, Nat.one_shiftLeft, ne.symm]

theorem testBit_not_one_shiftLeft {k : Nat} (jLt : j < 64) :
    ((2 ^ 64 - 1) ^^^ (1 <<< k)).testBit j = decide (j ≠ k) := by
  rw [Nat.testBit_xor, Nat.testBit_two_pow_sub_one, Nat.one_shiftLeft, Nat.testBit_two_pow]
  cases Nat.decEq j k with
  | isTrue same => simp [jLt, ← same]
  | isFalse same => simp [jLt, same, Ne.symm same]

theorem bit_clear (b : Bytes) (index i : Nat) : (clear index b).bit i = if i = index then false else b.bit i := by
  have lt : index % 64 < 64 := Nat.mod_lt _ (by norm_num)
  apply bit_writeLE_word
  · rw [Nat.testBit_and, testBit_not_one_shiftLeft lt]
    simp
  · intro j jLt ne
    rw [Nat.testBit_and, testBit_not_one_shiftLeft jLt]
    simp [ne]

/-! ## The search for a clear bit -/

theorem findEmptyBit_some {r : Nat} (h : findEmptyBit block j n = some r) :
    j ≤ r ∧ r < j + n ∧ block.testBit r = false ∧ ∀ k, j ≤ k → k < r → block.testBit k = true := by
  induction n generalizing j with
  | zero => simp [findEmptyBit] at h
  | succ n ih =>
    simp only [findEmptyBit] at h
    split at h
    · rename_i clear
      cases h
      refine ⟨by omega, by omega, and_one_shiftLeft_eq_zero.mp clear, ?_⟩
      intro k lo hi
      omega
    · rename_i isSet
      obtain ⟨lo, hi, clear, below⟩ := ih h
      refine ⟨by omega, by omega, clear, ?_⟩
      intro k kLe krLt
      by_cases same : k = j
      · rw [and_one_shiftLeft_eq_zero] at isSet
        simpa [same] using isSet
      · exact below k (by omega) krLt

theorem findEmptyBit_none (h : findEmptyBit block j n = none) : ∀ k, j ≤ k → k < j + n → block.testBit k = true := by
  induction n generalizing j with
  | zero => intro k lo hi; omega
  | succ n ih =>
    simp only [findEmptyBit] at h
    split at h
    · cases h
    rename_i isSet
    intro k lo hi
    by_cases same : k = j
    · rw [and_one_shiftLeft_eq_zero] at isSet
      simpa [same] using isSet
    · exact ih h k (by omega) (by omega)

theorem word_full (h : word b i = 2 ^ 64 - 1 ∨ findEmptyBit (word b i) 0 64 = none) :
    ∀ k, 64 * i ≤ k → k < 64 * (i + 1) → b.bit k = true := by
  intro k lo hi
  have jLt : k - 64 * i < 64 := by omega
  have bit := testBit_word b (i := i) jLt
  rw [show 64 * i + (k - 64 * i) = k by omega] at bit
  rw [← bit]
  cases h with
  | inl full => rw [full, Nat.testBit_two_pow_sub_one]; simpa using jLt
  | inr isNone => exact findEmptyBit_none isNone _ (by omega) (by omega)

theorem findEmptyFrom_succ (b : Bytes) (i n : Nat) :
    (∃ r, findEmptyFrom b i (n + 1) = some r ∧ 64 * i ≤ r ∧ r < 64 * (i + 1) ∧ b.bit r = false ∧
      ∀ k, 64 * i ≤ k → k < r → b.bit k = true) ∨
    (findEmptyFrom b i (n + 1) = findEmptyFrom b (i + 1) n ∧ ∀ k, 64 * i ≤ k → k < 64 * (i + 1) → b.bit k = true) := by
  rw [findEmptyFrom]
  split
  · split
    · rename_i j jEq
      obtain ⟨-, lt, clear, below⟩ := findEmptyBit_some jEq
      refine .inl ⟨_, rfl, by omega, by omega, ?_, fun k lo hi => ?_⟩
      · rwa [testBit_word b (by omega), Nat.mul_comm] at clear
      · have isSet := below (k - 64 * i) (by omega) (by omega)
        rwa [testBit_word b (by omega), show 64 * i + (k - 64 * i) = k by omega] at isSet
    · rename_i isNone
      exact .inr ⟨rfl, word_full (.inr isNone)⟩
  · rename_i full
    exact .inr ⟨rfl, word_full (.inl (not_not.mp full))⟩

theorem findEmptyFrom_some {r : Nat} (h : findEmptyFrom b i n = some r) :
    64 * i ≤ r ∧ r < 64 * (i + n) ∧ b.bit r = false ∧ ∀ k, 64 * i ≤ k → k < r → b.bit k = true := by
  induction n generalizing i with
  | zero => cases h
  | succ n ih =>
    rcases findEmptyFrom_succ b i n with ⟨e, find, lo, hi, clear, below⟩ | ⟨next, full⟩
    · cases find.symm.trans h
      exact ⟨lo, by omega, clear, below⟩
    obtain ⟨lo, hi, clear, below⟩ := ih (next.symm.trans h)
    refine ⟨by omega, by omega, clear, fun k kLe krLt => ?_⟩
    by_cases word : k < 64 * (i + 1)
    · exact full k kLe word
    · exact below k (by omega) krLt

theorem findEmptyFrom_none (h : findEmptyFrom b i n = none) : ∀ k, 64 * i ≤ k → k < 64 * (i + n) → b.bit k = true := by
  induction n generalizing i with
  | zero => intro k lo hi; omega
  | succ n ih =>
    intro k lo hi
    rcases findEmptyFrom_succ b i n with ⟨e, find, -⟩ | ⟨next, full⟩
    · cases find.symm.trans h
    · by_cases word : k < 64 * (i + 1)
      · exact full k lo word
      · exact ih (next.symm.trans h) k (by omega) (by omega)

end Bitmask

/-! ## `BlockBitmask`: one bit for each block of a group -/

namespace BlockBitmask

def words : Nat := 4096 / 8

def new : Bytes := Bytes.zero

def isSet (b : Bytes) (index : Nat) : Bool := Bitmask.isSet b index

def set (index : Nat) (b : Bytes) : Bytes := Bitmask.set index b

def clear (index : Nat) (b : Bytes) : Bytes := Bitmask.clear index b

def findEmpty (b : Bytes) : Option Nat := Bitmask.findEmptyFrom b 0 words

end BlockBitmask

/-! ## `InodeBtmask`: one bit for each inode number, and the next bitmap -/

namespace InodeBtmask

def words : Nat := 4096 / 8 - 1

def new : Bytes := Bytes.zero

def set (index : Nat) (b : Bytes) : Bytes := Bitmask.set index b

def clear (index : Nat) (b : Bytes) : Bytes := Bitmask.clear index b

def get (b : Bytes) (index : Nat) : Bool := Bitmask.isSet b index

def findEmpty (b : Bytes) : Option Nat := Bitmask.findEmptyFrom b 0 words

def getPtr (b : Bytes) : Nat := b.readLE (8 * words) 8

def setPtr (ptr : Nat) (b : Bytes) : Bytes := b.writeLE (8 * words) 8 ptr

end InodeBtmask

def inodesPerBitmask : Nat := (4096 - 8) * 8

end MeowOs.Rfs2
