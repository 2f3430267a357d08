import Mathlib.Data.Nat.Bitwise
import Mathlib.Tactic.NormNum

/-! # Byte memories and little-endian words

A memory is a total function from addresses to bytes.  Frames, disk blocks and
whole disks are all memories; what lies outside the part a program owns is
simply never mentioned.

* `readLE`/`writeLE` are the loads and stores of a `w`-byte little-endian word,
  with the usual read-over-write laws;
* `blit` copies a range of bytes, `shift` moves the origin;
* `bit` is one bit of a memory read as a bit string, which is how a bitmap is
  indexed whether it is viewed as bytes or as machine words
  (`testBit_readLE`).
-/

namespace MeowOs.Machine

abbrev Bytes := Nat → UInt8

namespace Bytes

def zero : Bytes := fun _ => 0

/-- The little-endian number in the `w` bytes from `off` on. -/
def readLE (b : Bytes) (off : Nat) : Nat → Nat
  | 0 => 0
  | w + 1 => (b off).toNat + 256 * readLE b (off + 1) w

def leByte (v k : Nat) : UInt8 := UInt8.ofNat (v / 256 ^ k)

/-- Store the low `w` bytes of `v` at `off`. -/
def writeLE (b : Bytes) (off w v : Nat) : Bytes := fun a =>
  if off ≤ a ∧ a < off + w then leByte v (a - off) else b a

/-- Copy the first `n` bytes of `src` to `off`. -/
def blit (dst : Bytes) (off n : Nat) (src : Bytes) : Bytes := fun a =>
  if off ≤ a ∧ a < off + n then src (a - off) else dst a

def shift (b : Bytes) (off : Nat) : Bytes := fun a => b (off + a)

/-- Bit `i` of the memory read as one bit string. -/
def bit (b : Bytes) (i : Nat) : Bool := (b (i / 8)).toNat.testBit (i % 8)

/-! ## Copies -/

@[simp] theorem zero_apply (a : Nat) : zero a = 0 := rfl

@[simp] theorem shift_apply (b : Bytes) (off a : Nat) : b.shift off a = b (off + a) := rfl

variable {dst src b : Bytes} {off a w : Nat} {n : Nat}

theorem blit_inside (lo : off ≤ a) (hi : a < off + n) : dst.blit off n src a = src (a - off) := by
  simp only [blit, if_pos (And.intro lo hi)]

theorem blit_front (h : a < n) : dst.blit 0 n src a = src a :=
  blit_inside (Nat.zero_le a) ((Nat.zero_add n).symm ▸ h)

theorem blit_outside (h : a < off ∨ off + n ≤ a) : dst.blit off n src a = dst a := by
  have out : ¬ (off ≤ a ∧ a < off + n) := by omega
  simp only [blit, if_neg out]

/-! ## Words -/

theorem readLE_lt (b : Bytes) (off w : Nat) : b.readLE off w < 256 ^ w := by
  induction w generalizing off with
  | zero => simp [readLE]
  | succ w ih =>
    have byte : (b off).toNat < 256 := (b off).toNat_lt
    have tail := ih (off + 1)
    simp only [readLE, Nat.pow_succ]
    omega

theorem readLE_congr {b' : Bytes} {off' : Nat}
    (h : ∀ k < w, b (off + k) = b' (off' + k)) : b.readLE off w = b'.readLE off' w := by
  induction w generalizing off off' with
  | zero => rfl
  | succ w ih =>
    have head := h 0 (by omega)
    have tail : b.readLE (off + 1) w = b'.readLE (off' + 1) w := by
      apply ih
      intro k kLt
      have := h (k + 1) (by omega)
      rwa [show off + 1 + k = off + (k + 1) by omega, show off' + 1 + k = off' + (k + 1) by omega]
    simp only [Nat.add_zero] at head
    simp [readLE, head, tail]

theorem readLE_eq_zero (h : ∀ k < w, b (off + k) = 0) : b.readLE off w = 0 := by
  induction w generalizing off with
  | zero => rfl
  | succ w ih =>
    have head : b off = 0 := h 0 (by omega)
    have tail : b.readLE (off + 1) w = 0 :=
      ih fun k kLt => by rw [show off + 1 + k = off + (k + 1) by omega]; exact h (k + 1) (by omega)
    simp [readLE, head, tail]

theorem readLE_of_leByte {v : Nat} (h : ∀ j < w, b (off + j) = leByte v j) : b.readLE off w = v % 256 ^ w := by
  induction w generalizing off v with
  | zero => simp [readLE, Nat.mod_one]
  | succ w ih =>
    have head : b off = leByte v 0 := h 0 (by omega)
    have tail : b.readLE (off + 1) w = v / 256 % 256 ^ w := by
      refine ih fun j jLt => ?_
      rw [show off + 1 + j = off + (j + 1) by omega, h (j + 1) (by omega), leByte, leByte, Nat.pow_succ',
        Nat.div_div_eq_div_mul]
    rw [readLE, head, tail, Nat.pow_succ', Nat.mod_mul]
    simp [leByte]

theorem readLE_writeLE (b : Bytes) (off w v : Nat) : (b.writeLE off w v).readLE off w = v % 256 ^ w := by
  refine readLE_of_leByte fun j jLt => ?_
  have inside : off ≤ off + j ∧ off + j < off + w := by omega
  rw [writeLE, if_pos inside, Nat.add_sub_cancel_left]

theorem writeLE_outside {v : Nat} (h : a < off ∨ off + w ≤ a) : b.writeLE off w v a = b a := by
  have out : ¬ (off ≤ a ∧ a < off + w) := by omega
  simp only [writeLE, if_neg out]

theorem readLE_writeLE_disjoint {v off' w' : Nat} (h : off' + w' ≤ off ∨ off + w ≤ off') :
    (b.writeLE off w v).readLE off' w' = b.readLE off' w' :=
  readLE_congr fun _ _ => writeLE_outside (by omega)

theorem testBit_readLE (b : Bytes) (off w i : Nat) :
    (b.readLE off w).testBit i = (decide (i < 8 * w) && (b.shift off).bit i) := by
  induction w generalizing off i with
  | zero => simp [readLE]
  | succ w ih =>
    have byte : (b off).toNat < 2 ^ 8 := (b off).toNat_lt
    have parts : b.readLE off (w + 1) = 2 ^ 8 * b.readLE (off + 1) w + (b off).toNat := by
      simp only [readLE]; omega
    rw [parts, Nat.testBit_two_pow_mul_add _ byte]
    by_cases iLt : i < 8
    · have low : i / 8 = 0 ∧ i % 8 = i := by omega
      have lt : i < 8 * (w + 1) := by omega
      simp [iLt, lt, bit, low.1, low.2]
    have idx : off + 1 + (i - 8) / 8 = off + i / 8 ∧ (i - 8) % 8 = i % 8 := by omega
    have lt : decide (i - 8 < 8 * w) = decide (i < 8 * (w + 1)) := by
      simp only [decide_eq_decide]; omega
    rw [if_neg iLt, ih, lt]
    simp [bit, shift_apply, idx.1, idx.2]

theorem bit_writeLE (b : Bytes) (off w v i : Nat) : (b.writeLE off w v).bit i =
      if 8 * off ≤ i ∧ i < 8 * (off + w) then v.testBit (i - 8 * off) else b.bit i := by
  by_cases inside : 8 * off ≤ i ∧ i < 8 * (off + w)
  · have byte : off ≤ i / 8 ∧ i / 8 < off + w := by omega
    have pow : 256 ^ (i / 8 - off) = 2 ^ (8 * (i / 8 - off)) := by
      rw [show (256 : Nat) = 2 ^ 8 by norm_num, ← Nat.pow_mul]
    have idx : 8 * (i / 8 - off) + i % 8 = i - 8 * off := by omega
    have lt : i % 8 < 8 := Nat.mod_lt _ (by omega)
    simp only [bit, writeLE, if_pos byte, if_pos inside, leByte, UInt8.toNat_ofNat', pow]
    rw [Nat.testBit_mod_two_pow, Nat.testBit_div_two_pow, Nat.add_comm (i % 8), idx]
    simp [lt]
  · have byte : ¬ (off ≤ i / 8 ∧ i / 8 < off + w) := by omega
    simp only [bit, writeLE, if_neg byte, if_neg inside]

end Bytes

end MeowOs.Machine
