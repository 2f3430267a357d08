import MeowOs.Vfs.FsSyscalls

/-! # Which file system syscalls bring the kernel down

A handler or its task fails when it panics (an overflow, an `expect` or `unwrap`
on nothing, an allocation that is not there, the explicit `panic!` of `fwrite`),
or when it waits for a lock its own caller holds.  `Kernel` opens the
`Surroundings` of a syscall as far as its arguments reach: the strings and the
ranges of user memory are computed as the source computes them, and only what
the hardware, the allocators and the file system answer stays a parameter.  Of
the file system nothing is assumed but that it answers, with `Ok` or `Err`.

`finishes_iff` says for every syscall and all arguments which surroundings it
survives.  It is about a development build, where a sum that overflows panics;
in a release build `fread` and `fseek` survive theirs, and so does the copy of a
path.  Allocations whose size the process does not choose are taken to
succeed.
-/

namespace MeowOs.Files.Syscalls

open MeowOs.Machine

def userspaceInodeSize : Nat := 64

structure Kernel where
  pid : Nat
  heapAllocates : Nat → Bool
  allocates : Nat → Bool
  /-- `probe_memcpy` gets through a range of user memory, given by its start and its length. -/
  probeMemcpy : Nat → Nat → Bool
  /-- The bytes of such a range, if they are UTF-8. -/
  userString : Nat → Nat → Option String
  probePointerRange : Nat → Nat → Bool
  /-- The namespace when the handler runs and when its task goes on after the file system. -/
  fsNamespace : UInt64 → Option Namespace
  fsNamespaceLater : UInt64 → Option Namespace
  openFile : Except KernelErrorCode Unit
  readFile : Except KernelErrorCode (Nat × FileReadResult)
  writeFile : Except KernelErrorCode Nat
  /-- `create_file`, `link_file` or `unlink_file`. -/
  changeDirectory : Except KernelErrorCode Unit
  fileSize : Nat
  /-- The process can still be reached when the task upgrades its reference, and when the task ends. -/
  upgraded : Bool
  alive : Bool
  upgraded_of_alive : alive = true → upgraded = true

namespace Kernel

/-- `safe_memcpy_to_user` or `safe_memcpy_from_user` of a range of user memory; the address `start + len - 1` of its last
byte is computed first. -/
def safeMemcpy (k : Kernel) (start len : Nat) : Option Bool :=
  if 2 ^ 64 ≤ start + len ∨ start + len = 0 then none
  else if kernelStartAddr ≤ start ∨ kernelStartAddr ≤ start + len - 1 then some false
  else some (k.probeMemcpy start len)

/-- A slice has less than `2 ^ 63` bytes. -/
def stringFromArgs (k : Kernel) (ptr len : UInt64) : Option (Option String) :=
  if 2 ^ 63 ≤ len.toNat ∨ k.heapAllocates len.toNat = false then none
  else match k.safeMemcpy ptr.toNat len.toNat with
    | none => none
    | some false => some none
    | some true => some (k.userString ptr.toNat len.toNat)

def fileHandle (k : Kernel) (args : SyscallCpuState) (fd : UInt64) : Option Handle :=
  (k.fsNamespace args.namespaceId).bind fun ns => ns.openFiles fd.toNat

def copy (k : Kernel) (args : SyscallCpuState) : FsSyscall → Option Bool
  | .fread =>
    match k.fileHandle args (args.arg 0), k.readFile with
    | some handle, .ok (bytesRead, _) => k.safeMemcpy (args.arg 2).toNat (bytesRead - handle.extraOffset)
    | _, _ => some true
  | .fwrite => k.safeMemcpy (args.arg 2).toNat (args.arg 1).toNat
  | .fstat => k.safeMemcpy (args.arg 1).toNat userspaceInodeSize
  | _ => some true

def surroundings (k : Kernel) (syscall : FsSyscall) (args : SyscallCpuState) : Surroundings where
  pid := k.pid
  stringFromArgs := k.stringFromArgs
  probePointerRange := k.probePointerRange
  fsNamespace := k.fsNamespace
  fsNamespaceLater := k.fsNamespaceLater
  allocates := k.allocates
  openFile := some k.openFile
  readFile := some k.readFile
  writeFile := some k.writeFile
  changeDirectory := some k.changeDirectory
  statFile := some k.fileSize
  copy := k.copy args syscall
  upgraded := k.upgraded
  alive := k.alive
  upgraded_of_alive := k.upgraded_of_alive

end Kernel

/-! ## Running to the end -/

def Finishes (started : Option Started) : Prop :=
  ∃ s, started = some s ∧ ∀ task, s = .sleeping task → ∃ log, task [] = some ((), log)

def Task.Ends (task : Task) (before : List Effect) : Prop := ∃ log, task before = some ((), log)

variable {env : Surroundings} {args : SyscallCpuState} {before : List Effect}

theorem finishes_returned (values : List Nat) : Finishes (some (.returned values)) :=
  ⟨_, rfl, nofun⟩

theorem not_finishes_none : ¬ Finishes none := by
  rintro ⟨_, started, -⟩
  cases started

theorem finishes_sleeping {task : Task} : Finishes (some (.sleeping task)) ↔ task.Ends [] := by
  constructor
  · rintro ⟨_, started, ends⟩
    cases started
    exact ends task rfl
  intro ends
  refine ⟨_, rfl, ?_⟩
  rintro _ ⟨⟩
  exact ends

variable {fd ptr len : UInt64} {rest : Unit → Task} {syscall : FsSyscall} {handle : Handle}

theorem ends_ofOption_bind {α : Type} {o : Option α} {rest : α → Task} :
    Task.Ends (Prog.ofOption o >>= rest) before ↔ ∃ a, o = some a ∧ Task.Ends (rest a) before := by
  simp only [Task.Ends, Prog.ofOption_bind_eq_some]
  exact ⟨fun ⟨log, a, found, run⟩ => ⟨a, found, log, run⟩, fun ⟨a, found, log, run⟩ => ⟨log, a, found, run⟩⟩

theorem ends_assert_bind {c : Bool} :
    Task.Ends (Prog.assert c >>= rest) before ↔ c = true ∧ Task.Ends (rest ()) before := by
  simp only [Task.Ends, Prog.assert_bind_eq_some, exists_and_left]

theorem ends_emit_bind {effect : Effect} :
    Task.Ends (emit effect >>= rest) before ↔ Task.Ends (rest ()) (before ++ [effect]) := Iff.rfl

theorem ends_emit (effect : Effect) : Task.Ends (emit effect) before := ⟨_, rfl⟩

theorem ends_finish (values : List Nat) : Task.Ends (finish env values) before := ⟨_, rfl⟩

theorem ends_whenUpgraded {rest : Task} :
    Task.Ends (whenUpgraded env rest) before ↔ (env.upgraded = true → Task.Ends rest before) := by
  rw [whenUpgraded]
  cases env.upgraded with
  | false => exact iff_of_true ⟨before, rfl⟩ (by simp)
  | true => simp

theorem ends_alignPosition_bind (before : List Effect) (handle : Handle) :
    ∃ after, Task.Ends (alignPosition handle >>= rest) before ↔ Task.Ends (rest ()) after := by
  rw [alignPosition]
  split
  · exact ⟨before, Iff.rfl⟩
  · exact ⟨_, Iff.rfl⟩

/-! ## Ranges of user memory -/

variable {k : Kernel}

def RangeFits (start len : Nat) : Prop := 0 < start + len ∧ start + len < 2 ^ 64

theorem safeMemcpy_eq_none {start len : Nat} : k.safeMemcpy start len = none ↔ ¬ RangeFits start len := by
  rw [Kernel.safeMemcpy, RangeFits]
  split
  · simp
    omega
  split
  · simp
    omega
  · simp
    omega

theorem exists_safeMemcpy {start len : Nat} : (∃ valid, k.safeMemcpy start len = some valid) ↔ RangeFits start len := by
  rw [← Option.isSome_iff_exists, ← not_iff_not, ← safeMemcpy_eq_none (k := k)]
  simp

structure StringFits (k : Kernel) (ptr len : UInt64) : Prop where
  short : len.toNat < 2 ^ 63
  heap : k.heapAllocates len.toNat = true
  range : RangeFits ptr.toNat len.toNat

def stringAt (k : Kernel) (ptr len : UInt64) : Option String :=
  if k.safeMemcpy ptr.toNat len.toNat = some true then k.userString ptr.toNat len.toNat else none

theorem stringFromArgs_eq_some {s : Option String} :
    k.stringFromArgs ptr len = some s ↔ StringFits k ptr len ∧ stringAt k ptr len = s := by
  rw [Kernel.stringFromArgs]
  split
  next big =>
    refine ⟨nofun, fun ⟨fits, _⟩ => ?_⟩
    rcases big with long | full
    · exact absurd fits.short (Nat.not_lt.mpr long)
    · rw [fits.heap] at full
      cases full
  next small =>
    rw [stringAt]
    rw [not_or, Nat.not_le, Bool.not_eq_false] at small
    cases copied : k.safeMemcpy ptr.toNat len.toNat with
    | none => exact ⟨nofun, fun ⟨fits, _⟩ => absurd fits.range (safeMemcpy_eq_none.mp copied)⟩
    | some valid =>
      have fits : StringFits k ptr len := ⟨small.1, small.2, exists_safeMemcpy.mp ⟨valid, copied⟩⟩
      cases valid with
      | false => simp [fits]
      | true => simp [fits]

/-! ## The tasks -/

def KnowsNamespace (k : Kernel) (args : SyscallCpuState) : Prop := ∃ ns, k.fsNamespace args.namespaceId = some ns

def Namespace.HasRoom (ns : Namespace) (requested : Option Nat) : Prop :=
  (∃ fd, requested = some fd ∧ ns.openFiles fd = none) ∨ ns.fileHandleCounter + 1 < 2 ^ 64

theorem exists_openFileHandle {ns : Namespace} {requested : Option Nat} :
    (∃ fd, ns.openFileHandle requested = some fd) ↔ ns.HasRoom requested := by
  unfold Namespace.openFileHandle Namespace.HasRoom
  cases requested with
  | none => simp
  | some fd =>
    cases found : ns.openFiles fd with
    | none => simp [found]
    | some handle => simp [found]

theorem fopenTask_ends {fd : Option Nat} : Task.Ends (fopenTask (k.surroundings syscall args) args fd) before ↔
      (k.upgraded = true → k.openFile = .ok () →
        ∃ later, k.fsNamespaceLater args.namespaceId = some later ∧ later.HasRoom fd) := by
  rw [fopenTask, ends_ofOption_bind]
  simp only [Kernel.surroundings, Option.some.injEq, exists_eq_left', ends_whenUpgraded]
  refine imp_congr_right fun _ => ?_
  cases k.openFile with
  | error e => exact iff_of_true ⟨_, rfl⟩ nofun
  | ok done =>
    simp only [forall_const, ends_ofOption_bind]
    refine exists_congr fun later => and_congr_right fun _ => ?_
    rw [← exists_openFileHandle]
    exact exists_congr fun fd => and_iff_left ⟨_, rfl⟩

def seekTarget (mode : FileSeekMode) (offset : Int) (position fSize : Nat) : Int :=
  match mode with
  | .start => offset
  | .current => asI64 position + offset
  | .end => asI64 fSize + offset

theorem fseekTask_ends {mode : FileSeekMode} {offset : Int} :
    Task.Ends (fseekTask (k.surroundings syscall args) mode offset handle) before ↔
      -2 ^ 63 ≤ seekTarget mode offset handle.position k.fileSize ∧
        seekTarget mode offset handle.position k.fileSize < 2 ^ 63 := by
  rw [fseekTask, ends_ofOption_bind]
  simp only [Kernel.surroundings, Option.some.injEq, exists_eq_left', ends_assert_bind, decide_eq_true_eq,
    ends_emit_bind, ends_whenUpgraded]
  exact and_iff_left fun _ => ends_finish _

theorem changeDirectoryTask_ends : Task.Ends (changeDirectoryTask (k.surroundings syscall args)) before := by
  rw [changeDirectoryTask, ends_ofOption_bind]
  refine ⟨_, rfl, ends_whenUpgraded.mpr fun _ => ?_⟩
  cases k.changeDirectory with
  | error | ok => exact ends_finish _

theorem fstatTask_ends : Task.Ends (fstatTask (k.surroundings .fstat args)) before ↔
    (k.upgraded = true → RangeFits (args.arg 1).toNat userspaceInodeSize) := by
  rw [fstatTask, ends_ofOption_bind]
  simp only [Kernel.surroundings, Option.some.injEq, exists_eq_left', ends_whenUpgraded, ends_ofOption_bind,
    Kernel.copy]
  refine imp_congr_right fun _ => ?_
  rw [← exists_safeMemcpy]
  refine exists_congr fun valid => and_iff_left ?_
  cases valid with
  | false => exact ends_emit _
  | true => exact ends_finish _

theorem freadTask_ends {size : Nat} (found : k.fileHandle args (args.arg 0) = some handle)
    (small : size ≤ kernelStartAddr) : Task.Ends (freadTask (k.surroundings .fread args) size handle) before ↔
      k.allocates ((size + handle.extraOffset + 4095) / 4096 % 2 ^ 32) = true ∧
        (k.upgraded = true → ∀ bytesRead result, k.readFile = .ok (bytesRead, result) →
          handle.extraOffset ≤ bytesRead → RangeFits (args.arg 2).toNat (bytesRead - handle.extraOffset)) := by
  have offset : handle.extraOffset < 4096 := by
    rw [Handle.extraOffset]
    split
    · decide
    · omega
  obtain ⟨after, aligned⟩ := ends_alignPosition_bind before handle
  rw [freadTask, aligned]
  simp only [ends_assert_bind, decide_eq_true_eq, ends_ofOption_bind, Kernel.surroundings, Option.some.injEq,
    exists_eq_left', ends_whenUpgraded]
  rw [and_iff_right (by unfold kernelStartAddr at small; omega)]
  refine and_congr_right fun _ => imp_congr_right fun _ => ?_
  cases read : k.readFile with
  | error e => exact iff_of_true (ends_finish _) (by simp)
  | ok value =>
    dsimp only
    split
    · refine iff_of_true ⟨_, rfl⟩ ?_
      rintro _ _ ⟨⟩ enough
      omega
    next long =>
    rw [ends_ofOption_bind]
    simp only [Kernel.copy, found, read]
    constructor
    · rintro ⟨valid, copied, -⟩ _ _ ⟨⟩ -
      exact exists_safeMemcpy.mp ⟨valid, copied⟩
    intro fits
    obtain ⟨valid, copied⟩ := exists_safeMemcpy.mpr (fits _ _ rfl (Nat.not_lt.mp long))
    refine ⟨valid, copied, ?_⟩
    cases valid with
    | false | true => exact ends_finish _

theorem fwriteTask_ends (positive : (args.arg 1).toNat ≠ 0)
    (small : (args.arg 2).toNat + (args.arg 1).toNat ≤ kernelStartAddr) :
    Task.Ends (fwriteTask (k.surroundings .fwrite args) (args.arg 1).toNat handle) before ↔
      handle.extraOffset = 0 ∧ k.allocates (((args.arg 1).toNat + 4095) / 4096 % 2 ^ 32) = true := by
  have fits : RangeFits (args.arg 2).toNat (args.arg 1).toNat := by
    unfold kernelStartAddr at small
    unfold RangeFits
    omega
  obtain ⟨after, aligned⟩ := ends_alignPosition_bind before handle
  rw [fwriteTask, aligned]
  simp only [ends_assert_bind, decide_eq_true_eq, beq_iff_eq, ends_ofOption_bind, Kernel.surroundings, Kernel.copy]
  constructor
  · rintro ⟨-, onBoundary, allocates, -⟩
    exact ⟨onBoundary, allocates⟩
  rintro ⟨onBoundary, allocates⟩
  obtain ⟨valid, copied⟩ := exists_safeMemcpy.mpr fits
  refine ⟨by unfold kernelStartAddr at small; omega, onBoundary, allocates, valid, copied, ?_⟩
  cases valid with
  | false => exact ends_emit _
  | true =>
    rw [Bool.not_true, if_neg Bool.false_ne_true, ends_ofOption_bind]
    refine ⟨_, rfl, ends_whenUpgraded.mpr fun _ => ?_⟩
    cases k.writeFile with
    | error | ok => exact ends_finish _

/-! ## The pack -/

/-- What a syscall needs in order to finish. -/
def SurvivesWhen (k : Kernel) (args : SyscallCpuState) : FsSyscall → Prop
  | .fopen =>
    StringFits k (args.arg 1) (args.arg 0) ∧ ((stringAt k (args.arg 1) (args.arg 0)).isSome = true →
      KnowsNamespace k args ∧ ((args.arg 2).toNat = u64Max ∨ (k.fileHandle args (args.arg 2)).isSome = true) ∧
      (k.upgraded = true → k.openFile = .ok () → ∃ later, k.fsNamespaceLater args.namespaceId = some later ∧
          later.HasRoom (if (args.arg 4).toNat = u64Max then none else some (args.arg 4).toNat)))
  | .fclose => KnowsNamespace k args
  | .fread =>
    let size := (args.arg 1).toNat
    let bufPtr := (args.arg 2).toNat
    size ≠ 0 → bufPtr + size < 2 ^ 64 ∧ (verifyMemoryRange (k.surroundings .fread args) bufPtr (bufPtr + size) = true →
      KnowsNamespace k args ∧ ∀ handle, k.fileHandle args (args.arg 0) = some handle →
        k.allocates ((size + handle.extraOffset + 4095) / 4096 % 2 ^ 32) = true ∧
        (k.upgraded = true → ∀ bytesRead result, k.readFile = .ok (bytesRead, result) →
          handle.extraOffset ≤ bytesRead → RangeFits bufPtr (bytesRead - handle.extraOffset)))
  | .fwrite =>
    let size := (args.arg 1).toNat
    let bufPtr := (args.arg 2).toNat
    size ≠ 0 → verifyMemoryRange (k.surroundings .fwrite args) bufPtr (min (bufPtr + size) u64Max) = true →
      KnowsNamespace k args ∧ ∀ handle, k.fileHandle args (args.arg 0) = some handle →
        handle.extraOffset = 0 ∧ k.allocates ((size + 4095) / 4096 % 2 ^ 32) = true
  | .fseek =>
    ∀ mode, FileSeekMode.fromU64 (args.arg 2).toNat = some mode → KnowsNamespace k args ∧
      ∀ handle, k.fileHandle args (args.arg 0) = some handle →
        -2 ^ 63 ≤ seekTarget mode (asI64 (args.arg 1).toNat) handle.position k.fileSize ∧
          seekTarget mode (asI64 (args.arg 1).toNat) handle.position k.fileSize < 2 ^ 63
  | .fcreate =>
    isInodeType ((args.arg 3).toNat % 2 ^ 32) = true → StringFits k (args.arg 1) (args.arg 0) ∧
      ((stringAt k (args.arg 1) (args.arg 0)).isSome = true → KnowsNamespace k args)
  | .flink | .funlink =>
    StringFits k (args.arg 1) (args.arg 0) ∧
    ((stringAt k (args.arg 1) (args.arg 0)).isSome = true → KnowsNamespace k args)
  | .fstat =>
    KnowsNamespace k args ∧ ((k.fileHandle args (args.arg 0)).isSome = true → k.upgraded = true →
      RangeFits (args.arg 1).toNat userspaceInodeSize)

theorem finishes_handle {next : Handle → Option Started} :
    Finishes (withHandle (k.surroundings syscall args) args fd next) ↔
      KnowsNamespace k args ∧ ∀ handle, k.fileHandle args fd = some handle → Finishes (next handle) := by
  rw [withHandle, KnowsNamespace, Kernel.fileHandle]
  simp only [Kernel.surroundings]
  cases k.fsNamespace args.namespaceId with
  | none => simp [not_finishes_none]
  | some ns =>
    cases found : ns.openFiles fd.toNat with
    | none => simp [finishes_returned, found]
    | some handle => simp [found]

theorem finishes_string {next : String → Option Started} {rest : Prop}
    (finishes : ∀ string, Finishes (next string) ↔ rest) :
    Finishes (withString (k.surroundings syscall args) ptr len next) ↔
      StringFits k ptr len ∧ ((stringAt k ptr len).isSome = true → rest) := by
  rw [withString]
  simp only [Kernel.surroundings]
  cases given : k.stringFromArgs ptr len with
  | none =>
    refine iff_of_false not_finishes_none fun accepts => ?_
    rw [stringFromArgs_eq_some.mpr ⟨accepts.1, rfl⟩] at given
    cases given
  | some s =>
    obtain ⟨fits, rfl⟩ := stringFromArgs_eq_some.mp given
    rw [and_iff_right fits]
    cases stringAt k ptr len with
    | none => exact iff_of_true (finishes_returned _) (by simp)
    | some string => simp [finishes]

theorem finishes_changeDirectory : Finishes (withHandle (k.surroundings syscall args) args fd fun _ =>
      some (.sleeping (changeDirectoryTask (k.surroundings syscall args)))) ↔ KnowsNamespace k args := by
  rw [finishes_handle]
  exact and_iff_left fun _ _ => finishes_sleeping.mpr changeDirectoryTask_ends

theorem fopen_finishes_iff : Finishes (fopen (k.surroundings .fopen args) args) ↔ SurvivesWhen k args .fopen := by
  refine finishes_string fun _ => ?_
  rw [KnowsNamespace, Kernel.fileHandle]
  simp only [Kernel.surroundings]
  cases k.fsNamespace args.namespaceId with
  | none => simp [not_finishes_none]
  | some ns =>
    dsimp only [Option.bind_some]
    have known : ∃ other, some ns = some other := ⟨ns, rfl⟩
    rw [and_iff_right known]
    split
    next unknown =>
      refine iff_of_false not_finishes_none fun survives => ?_
      rcases survives.1 with cwd | opened
      · exact unknown.1 cwd
      · rw [Option.isNone_iff_eq_none.mp unknown.2] at opened
        cases opened
    next usable =>
      have directory : (args.arg 2).toNat = u64Max ∨ (ns.openFiles (args.arg 2).toNat).isSome = true := by
        rwa [not_and_or, not_not, Option.isNone_iff_eq_none, ← ne_eq, ← Option.isSome_iff_ne_none] at usable
      rw [and_iff_right directory, finishes_sleeping]
      exact fopenTask_ends

theorem verifyMemoryRange_le {memStart memEnd : Nat} (valid : verifyMemoryRange env memStart memEnd = true) :
    memStart ≤ memEnd ∧ memEnd ≤ kernelStartAddr := by
  unfold verifyMemoryRange at valid
  split at valid
  · cases valid
  · omega

theorem fread_finishes_iff : Finishes (fread (k.surroundings .fread args) args) ↔ SurvivesWhen k args .fread := by
  unfold SurvivesWhen
  dsimp only [fread]
  split
  next empty =>
    exact iff_of_true (finishes_returned _) (fun nonempty => absurd empty nonempty)
  next empty =>
  rw [imp_iff_right empty]
  by_cases overflow : 2 ^ 64 ≤ (args.arg 2).toNat + (args.arg 1).toNat
  · rw [if_pos overflow]
    exact iff_of_false not_finishes_none fun survives => absurd survives.1 (Nat.not_lt.mpr overflow)
  rw [if_neg overflow, and_iff_right (Nat.not_le.mp overflow)]
  cases valid : verifyMemoryRange (k.surroundings .fread args) (args.arg 2).toNat
      ((args.arg 2).toNat + (args.arg 1).toNat) with
  | false => exact iff_of_true (finishes_returned _) nofun
  | true =>
    have small : (args.arg 1).toNat ≤ kernelStartAddr := by
      have := verifyMemoryRange_le valid
      omega
    rw [Bool.not_true, if_neg Bool.false_ne_true, imp_iff_right rfl, finishes_handle]
    refine and_congr_right fun _ => forall_congr' fun handle => forall_congr' fun found => ?_
    rw [finishes_sleeping, freadTask_ends found small]

theorem fwrite_finishes_iff : Finishes (fwrite (k.surroundings .fwrite args) args) ↔ SurvivesWhen k args .fwrite := by
  unfold SurvivesWhen
  dsimp only [fwrite]
  split
  next empty =>
    exact iff_of_true (finishes_returned _) (fun nonempty => absurd empty nonempty)
  next empty =>
  rw [imp_iff_right empty]
  cases valid : verifyMemoryRange (k.surroundings .fwrite args) (args.arg 2).toNat
      (min ((args.arg 2).toNat + (args.arg 1).toNat) u64Max) with
  | false => exact iff_of_true (finishes_returned _) nofun
  | true =>
    -- a saturated sum would lie in the kernel's half
    have small : (args.arg 2).toNat + (args.arg 1).toNat ≤ kernelStartAddr := by
      have := verifyMemoryRange_le valid
      unfold kernelStartAddr u64Max at *
      omega
    rw [Bool.not_true, if_neg Bool.false_ne_true, imp_iff_right rfl, finishes_handle]
    refine and_congr_right fun _ => forall_congr' fun handle => forall_congr' fun found => ?_
    rw [finishes_sleeping, fwriteTask_ends empty small]

theorem fseek_finishes_iff : Finishes (fseek (k.surroundings .fseek args) args) ↔ SurvivesWhen k args .fseek := by
  unfold SurvivesWhen
  rw [fseek]
  cases FileSeekMode.fromU64 (args.arg 2).toNat with
  | none => exact iff_of_true (finishes_returned _) (by simp)
  | some mode =>
    rw [finishes_handle]
    simp [finishes_sleeping, fseekTask_ends]

theorem fcreate_finishes_iff :
    Finishes (fcreate (k.surroundings .fcreate args) args) ↔ SurvivesWhen k args .fcreate := by
  unfold SurvivesWhen
  rw [fcreate]
  cases isInodeType ((args.arg 3).toNat % 2 ^ 32) with
  | false => exact iff_of_true (finishes_returned _) (by simp)
  | true =>
    rw [Bool.not_true, if_neg Bool.false_ne_true, imp_iff_right rfl]
    exact finishes_string fun _ => finishes_changeDirectory

theorem flink_finishes_iff : Finishes (flink (k.surroundings .flink args) args) ↔ SurvivesWhen k args .flink := by
  refine finishes_string fun _ => ?_
  rw [finishes_handle]
  exact and_iff_left_of_imp fun known _ _ => finishes_changeDirectory.mpr known

/-- The handler of a file system syscall and its task come to their end exactly under these conditions. -/
theorem finishes_iff (syscall : FsSyscall) (k : Kernel) (args : SyscallCpuState) :
    Finishes (handler syscall (k.surroundings syscall args) args) ↔ SurvivesWhen k args syscall := by
  cases syscall with
  | fopen => exact fopen_finishes_iff
  | fclose => exact finishes_handle.trans (and_iff_left fun _ _ => finishes_returned _)
  | fread => exact fread_finishes_iff
  | fwrite => exact fwrite_finishes_iff
  | fseek => exact fseek_finishes_iff
  | fcreate => exact fcreate_finishes_iff
  | flink => exact flink_finishes_iff
  | funlink => exact finishes_string fun _ => finishes_changeDirectory
  | fstat =>
    change Finishes (fstat (k.surroundings .fstat args) args) ↔ _
    rw [fstat, finishes_handle]
    simp only [finishes_sleeping, fstatTask_ends, SurvivesWhen, Option.isSome_iff_exists, forall_exists_index]

/-- A kernel in which everything that can be asked for is there, with one open file at position 5. -/
def generousKernel : Kernel where
  pid := 7
  heapAllocates _ := true
  allocates _ := true
  probeMemcpy _ _ := true
  userString _ _ := some "a"
  probePointerRange _ _ := true
  fsNamespace id := if id = 0 then some ⟨fun fd => if fd = 0 then some ⟨5, true⟩ else none, 1⟩ else none
  fsNamespaceLater id := if id = 0 then some ⟨fun fd => if fd = 0 then some ⟨5, true⟩ else none, 1⟩ else none
  openFile := .ok ()
  readFile := .ok (4096, .normal)
  writeFile := .ok 4096
  changeDirectory := .ok ()
  fileSize := 4096
  upgraded := true
  alive := true
  upgraded_of_alive _ := rfl

/-- Five ways to bring the kernel down: a buffer at the end of the address space, a write in the middle of a page, an
offset that overflows, an unknown namespace, and an unknown descriptor for the directory of `fopen`. -/
theorem arguments_crash :
    ¬ Finishes (handler .fread (generousKernel.surroundings .fread ⟨0, fun i => if i = 0 then 0 else 0x8000000000000000⟩)
      ⟨0, fun i => if i = 0 then 0 else 0x8000000000000000⟩) ∧
    ¬ Finishes (handler .fwrite (generousKernel.surroundings .fwrite ⟨0, fun i => if i = 0 then 0 else 1⟩)
      ⟨0, fun i => if i = 0 then 0 else 1⟩) ∧ ¬ Finishes (handler .fseek (generousKernel.surroundings .fseek
      ⟨0, fun i => if i = 0 then 0 else if i = 1 then 0x7FFFFFFFFFFFFFFF else 1⟩)
      ⟨0, fun i => if i = 0 then 0 else if i = 1 then 0x7FFFFFFFFFFFFFFF else 1⟩) ∧
    ¬ Finishes (handler .fclose (generousKernel.surroundings .fclose ⟨9, fun _ => 0⟩) ⟨9, fun _ => 0⟩) ∧
    ¬ Finishes (handler .fopen (generousKernel.surroundings .fopen ⟨0, fun _ => 1⟩) ⟨0, fun _ => 1⟩) := by
  refine ⟨not_finishes_none, ?_, ?_, not_finishes_none, not_finishes_none⟩
  all_goals
    rintro ⟨_, started, ends⟩
    cases started
    obtain ⟨_, run⟩ := ends _ rfl
    cases run

end MeowOs.Files.Syscalls
