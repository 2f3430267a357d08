import MeowOs.Vfs.FsSyscalls

/-! # Checks of user pointers

A system call gets a start address and a length from a process, and checks them
before it touches that memory.  The sums are 64-bit sums of a release build,
which wrap around; in a development build they panic, as `SyscallSafety` has it.

`fread` compares the wrapped end of its buffer with the start, so that a range
that wraps is refused.  The copy routines look at the first and at the last byte
only: a range that wraps all the way around passes (`user_checks_sound_iff`).
-/

namespace MeowOs.Memory.UserPointers

open MeowOs.Files.Syscalls

def isUserspacePtr (addr : UInt64) : Bool := addr < 0x0000_8000_0000_0000

structure Copy where
  dst : UInt64
  src : UInt64
  len : UInt64

def safeMemcpyFromUser (dst src len : UInt64) : Option Copy :=
  let srcEnd := src + len - 1
  if !isUserspacePtr src || !isUserspacePtr srcEnd then none else some ⟨dst, src, len⟩

def safeMemcpyToUser (dst src len : UInt64) : Option Copy :=
  let dstEnd := dst + len - 1
  if !isUserspacePtr dst || !isUserspacePtr dstEnd then none else some ⟨dst, src, len⟩

/-- The copy of `string_from_args` into a new box; a box of `2 ^ 63` bytes or more is a panic. -/
def stringFromArgs (box ptr len : UInt64) : Option Copy :=
  if 2 ^ 63 ≤ len.toNat then none else safeMemcpyFromUser box ptr len

def freadCheck (env : Surroundings) (bufPtr size : UInt64) : Bool :=
  verifyMemoryRange env bufPtr.toNat (bufPtr + size).toNat

/-- Who asks for a range of user memory; the kernel's side of a copy is the box or buffer at `other`. -/
inductive Request where
  | freadBuffer (env : Surroundings)
  | toUser (other : UInt64)
  | fromUser (other : UInt64)
  | string (other : UInt64)

def Request.accepts (start len : UInt64) : Request → Bool
  | .freadBuffer env => freadCheck env start len
  | .toUser other => (safeMemcpyToUser start other len).isSome
  | .fromUser other => (safeMemcpyFromUser other start len).isSome
  | .string other => (stringFromArgs other start len).isSome

/-- The request is a bare copy, whose length is not limited by a sum that is compared or a box that is made. -/
def Request.isCopy : Request → Bool
  | .toUser _ => true
  | .fromUser _ => true
  | _ => false

def InUserHalf (start len : UInt64) : Prop := ∀ i, i < len.toNat → start.toNat + i < 2 ^ 47

theorem inUserHalf_iff {start len : UInt64} (nonempty : len ≠ 0) :
    InUserHalf start len ↔ start.toNat + len.toNat ≤ 2 ^ 47 := by
  have pos : 0 < len.toNat := Nat.pos_of_ne_zero fun zero => nonempty (UInt64.toNat_inj.mp zero)
  constructor
  · intro below
    have last := below (len.toNat - 1) (by omega)
    omega
  · intro fits i lt
    omega

theorem userRange_iff {start len : UInt64} (nonempty : len ≠ 0) :
    (isUserspacePtr start = true ∧ isUserspacePtr (start + len - 1) = true) ↔
      start.toNat + len.toNat ≤ 2 ^ 47 ∨ (start.toNat < 2 ^ 47 ∧ 2 ^ 64 < start.toNat + len.toNat) := by
  have pos : 0 < len.toNat := Nat.pos_of_ne_zero fun zero => nonempty (UInt64.toNat_inj.mp zero)
  have size := len.toNat_lt
  have last : (start + len - 1).toNat = (start.toNat + len.toNat - 1) % 2 ^ 64 := by
    rw [UInt64.toNat_sub, UInt64.toNat_add, UInt64.toNat_one]
    omega
  simp only [isUserspacePtr, decide_eq_true_eq, UInt64.lt_iff_toNat_lt, last]
  rw [show (0x0000_8000_0000_0000 : UInt64).toNat = 2 ^ 47 from rfl]
  omega

theorem freadCheck_fits {env : Surroundings} {start len : UInt64} (valid : freadCheck env start len = true) :
    start.toNat + len.toNat ≤ 2 ^ 47 := by
  have size := len.toNat_lt
  unfold freadCheck verifyMemoryRange kernelStartAddr at valid
  rw [UInt64.toNat_add] at valid
  split at valid
  · cases valid
  · omega

theorem accepts_copy (start len : UInt64) (request : Request) (copies : request.isCopy = true) :
    request.accepts start len = true ↔ isUserspacePtr start = true ∧ isUserspacePtr (start + len - 1) = true := by
  cases request with
  | toUser other => simp [Request.accepts, safeMemcpyToUser]
  | fromUser other => simp [Request.accepts, safeMemcpyFromUser]
  | freadBuffer env => cases copies
  | string other => cases copies

/-- A check accepts ranges of the user half only, exactly if it is that of `fread` or of a string, or the range starts
outside of the user half or ends at `2 ^ 64` or before. -/
theorem user_checks_sound_iff (request : Request) (start len : UInt64) (nonempty : len ≠ 0) :
    (request.accepts start len = true → InUserHalf start len) ↔
      (request.isCopy = true → 2 ^ 47 ≤ start.toNat ∨ start.toNat + len.toNat ≤ 2 ^ 64) := by
  rw [inUserHalf_iff nonempty]
  cases copies : request.isCopy with
  | true =>
    rw [accepts_copy start len request copies, userRange_iff nonempty, forall_prop_of_true rfl]
    omega
  | false =>
    refine ⟨nofun, fun _ accepted => ?_⟩
    cases request with
    | toUser other => cases copies
    | fromUser other => cases copies
    | freadBuffer env => exact freadCheck_fits accepted
    | string other =>
      change (stringFromArgs other start len).isSome = true at accepted
      unfold stringFromArgs at accepted
      split at accepted
      · cases accepted
      next small =>
      -- a box is too small for a range that wraps
      have fits := (userRange_iff nonempty).mp ((accepts_copy start len (.fromUser other) rfl).mp accepted)
      omega

theorem user_checks_sound_iff_sixteen : (Request.fromUser 0).accepts 0x1000 16 = true ∧ InUserHalf 0x1000 16 :=
  ⟨by decide, (user_checks_sound_iff (.fromUser 0) 0x1000 16 (by decide)).mpr (fun _ => .inr (by decide)) (by decide)⟩

/-- From the second page on, one byte more than all the rest of the address space: the last byte is the first one of all. -/
theorem wrapping_range_accepted : safeMemcpyFromUser 0 0x1000 (0 - 0xFFF) = some ⟨0, 0x1000, 0 - 0xFFF⟩ ∧
      (safeMemcpyToUser 0x1000 0 (0 - 0xFFF)).isSome = true ∧ ¬ InUserHalf 0x1000 (0 - 0xFFF) := by
  refine ⟨rfl, rfl, ?_⟩
  rw [inUserHalf_iff (by decide)]
  decide

end MeowOs.Memory.UserPointers
