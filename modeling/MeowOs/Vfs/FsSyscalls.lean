import MeowOs.KernelError
import MeowOs.Machine.Prog

/-! # File system syscalls (`vfs/fs_syscall_pack.rs`)

A handler of the file system pack checks its arguments and then either sets its
return values at once, or spawns an asynchronous task and puts the process to
sleep until the task wakes it.  What the handlers and tasks find out from the
rest of the kernel (the strings and ranges of user memory, the descriptors of
the namespace, the results of the file system, of copies and of upgrading the
weak reference to the process) is given as `Surroundings`; a task is then the
list of what it does.  `none` is a panic, or an operation that never completes.

The process is lost if its task ends without waking it.  `completes_iff` says
for each syscall when that cannot happen: three ends of tasks set a return value
but do not wake the process.
-/

namespace MeowOs.Files.Syscalls

open MeowOs.Machine Prog

structure SyscallCpuState where
  namespaceId : UInt64
  arg : Nat → UInt64

def u64Max : Nat := 2 ^ 64 - 1

inductive Effect where
  | setSyscallReturn (values : List Nat)
  | wakeProcess (pid : Nat)
  | storePosition (position : Nat)
  | storeReachedEof (reachedEof : Bool)
  | openFileHandle (fd : Nat)
deriving DecidableEq, Repr

abbrev Task := Prog (List Effect) Unit

def emit (effect : Effect) : Task := modify (· ++ [effect])

structure Handle where
  position : Nat
  requiresAlignedPosition : Bool
deriving DecidableEq, Repr

/-- `FilesystemNamespace`, as far as the handlers use it. -/
structure Namespace where
  openFiles : Nat → Option Handle
  fileHandleCounter : Nat

/-- The requested descriptor if it is free, or the next one, behind which the counter must not
overflow. -/
def Namespace.openFileHandle (ns : Namespace) (requested : Option Nat) : Option Nat :=
  let next := if ns.fileHandleCounter + 1 < 2 ^ 64 then some ns.fileHandleCounter else none
  match requested with
  | some fd => if (ns.openFiles fd).isSome then next else some fd
  | none => next

inductive FileReadResult where
  | normal | temporaryEof | permanentEof | invalid
deriving DecidableEq, Repr

def FileReadResult.toNat : FileReadResult → Nat
  | normal => 0
  | temporaryEof => 1
  | permanentEof => 2
  | invalid => 3

/-- What the rest of the kernel answers during a syscall and its task. -/
structure Surroundings where
  pid : Nat
  stringFromArgs : UInt64 → UInt64 → Option (Option String)
  probePointerRange : Nat → Nat → Bool
  /-- The namespace when the handler runs and when its task goes on after the file system. -/
  fsNamespace : UInt64 → Option Namespace
  fsNamespaceLater : UInt64 → Option Namespace
  allocates : Nat → Bool
  openFile : Option (Except KernelErrorCode Unit)
  readFile : Option (Except KernelErrorCode (Nat × FileReadResult))
  writeFile : Option (Except KernelErrorCode Nat)
  /-- `create_file`, `link_file` or `unlink_file`. -/
  changeDirectory : Option (Except KernelErrorCode Unit)
  statFile : Option Nat
  /-- `safe_memcpy_to_user` or `safe_memcpy_from_user`. -/
  copy : Option Bool
  /-- The process can still be reached when the task upgrades its reference, and when the task ends. -/
  upgraded : Bool
  alive : Bool
  upgraded_of_alive : alive = true → upgraded = true

/-- How a handler ends: it returns to the process, or the process sleeps until the task wakes it. -/
inductive Started where
  | returned (values : List Nat)
  | sleeping (task : Task)

/-! ## Pieces of the handlers -/

def kernelStartAddr : Nat := 2 ^ 47

def verifyMemoryRange (env : Surroundings) (memStart memEnd : Nat) : Bool :=
  if memStart > memEnd ∨ memEnd > kernelStartAddr then false
  else env.probePointerRange memStart memEnd

def withHandle (env : Surroundings) (args : SyscallCpuState) (fd : UInt64) (next : Handle → Option Started) :
    Option Started :=
  match env.fsNamespace args.namespaceId with
  | none => none
  | some ns =>
    match ns.openFiles fd.toNat with
    | none => some (.returned [u64Max])
    | some handle => next handle

def withString (env : Surroundings) (ptr len : UInt64) (next : String → Option Started) : Option Started :=
  match env.stringFromArgs ptr len with
  | none => none
  | some none => some (.returned [u64Max])
  | some (some string) => next string

/-- The rest of a task after upgrading the reference to the process; without a process there is nothing to do. -/
def whenUpgraded (env : Surroundings) (rest : Task) : Task :=
  if env.upgraded then rest else pure ()

def finish (env : Surroundings) (values : List Nat) : Task := do
  emit (.setSyscallReturn values)
  emit (.wakeProcess env.pid)

/-- The bytes from the page boundary to the position of a handle that is read in whole pages. -/
def Handle.extraOffset (handle : Handle) : Nat :=
  if !handle.requiresAlignedPosition then 0 else handle.position - handle.position / 4096 * 4096

def alignPosition (handle : Handle) : Task :=
  if !handle.requiresAlignedPosition then pure ()
  else emit (.storePosition (handle.position / 4096 * 4096))

/-! ## The handlers -/

def fopenTask (env : Surroundings) (args : SyscallCpuState) (fd : Option Nat) : Task := do
  let handle ← ofOption env.openFile
  whenUpgraded env do
    match handle with
    | .ok () =>
      let ns ← ofOption (env.fsNamespaceLater args.namespaceId)
      let fDescriptor ← ofOption (ns.openFileHandle fd)
      emit (.openFileHandle fDescriptor)
      emit (.setSyscallReturn [fDescriptor])
    | .error _ => emit (.setSyscallReturn [u64Max])
    emit (.wakeProcess env.pid)

/-- An unknown descriptor of the directory is found while the process is locked, and setting the
return values then waits for that lock forever. -/
def fopen (env : Surroundings) (args : SyscallCpuState) : Option Started :=
  let fdRel := args.arg 2
  let fd := if (args.arg 4).toNat = u64Max then none else some (args.arg 4).toNat
  withString env (args.arg 1) (args.arg 0) fun _ =>
    match env.fsNamespace args.namespaceId with
    | none => none
    | some ns =>
      if fdRel.toNat ≠ u64Max ∧ (ns.openFiles fdRel.toNat).isNone then none
      else some (.sleeping (fopenTask env args fd))

def freadTask (env : Surroundings) (size : Nat) (handle : Handle) : Task := do
  let extraOffset := handle.extraOffset
  alignPosition handle
  assert (decide (size + extraOffset < 2 ^ 64))
  assert (env.allocates ((size + extraOffset + 4095) / 4096 % 2 ^ 32))
  let readResult ← ofOption env.readFile
  whenUpgraded env do
    match readResult with
    | .error _ => finish env [u64Max]
    | .ok (bytesRead, readResult) =>
      if bytesRead < extraOffset then do
        emit (.storePosition handle.position)
        emit (.setSyscallReturn [0, 0])
      else do
        let validCopy ← ofOption env.copy
        if !validCopy then finish env [u64Max]
        else finish env [bytesRead - extraOffset, readResult.toNat]

/-- The sum of pointer and size is checked. -/
def fread (env : Surroundings) (args : SyscallCpuState) : Option Started :=
  let size := (args.arg 1).toNat
  let bufPtr := (args.arg 2).toNat
  if size = 0 then some (.returned [0])
  else if 2 ^ 64 ≤ bufPtr + size then none
  else if !verifyMemoryRange env bufPtr (bufPtr + size) then some (.returned [u64Max])
  else withHandle env args (args.arg 0) fun handle => some (.sleeping (freadTask env size handle))

def fwriteTask (env : Surroundings) (size : Nat) (handle : Handle) : Task := do
  let extraOffset := handle.extraOffset
  alignPosition handle
  assert (decide (size + extraOffset < 2 ^ 64))
  -- writes from the middle of a page are not handled
  assert (extraOffset == 0)
  assert (env.allocates ((size + 4095) / 4096 % 2 ^ 32))
  let copyValid ← ofOption env.copy
  if !copyValid then emit (.setSyscallReturn [u64Max])
  else do
    let writeResult ← ofOption env.writeFile
    whenUpgraded env do
      match writeResult with
      | .error _ => finish env [u64Max]
      | .ok bytesWritten => finish env [bytesWritten]

/-- The sum of pointer and size saturates. -/
def fwrite (env : Surroundings) (args : SyscallCpuState) : Option Started :=
  let size := (args.arg 1).toNat
  let bufPtr := (args.arg 2).toNat
  if size = 0 then some (.returned [0])
  else if !verifyMemoryRange env bufPtr (min (bufPtr + size) u64Max) then some (.returned [u64Max])
  else withHandle env args (args.arg 0) fun handle => some (.sleeping (fwriteTask env size handle))

inductive FileSeekMode where
  | start | current | «end»
deriving DecidableEq, Repr

def FileSeekMode.fromU64 (value : Nat) : Option FileSeekMode :=
  match value with
  | 0 => some .start
  | 1 => some .current
  | 2 => some .end
  | _ => none

def asI64 (value : Nat) : Int :=
  if value % 2 ^ 64 < 2 ^ 63 then value % 2 ^ 64 else value % 2 ^ 64 - 2 ^ 64

def fseekTask (env : Surroundings) (mode : FileSeekMode) (offset : Int) (handle : Handle) : Task := do
  let fSize ← ofOption env.statFile
  let newPos : Int := match mode with
    | .start => offset
    | .current => asI64 handle.position + offset
    | .end => asI64 fSize + offset
  assert (decide (-2 ^ 63 ≤ newPos ∧ newPos < 2 ^ 63))
  let newPos := (min (max newPos 0) (asI64 fSize)).toNat
  emit (.storePosition newPos)
  emit (.storeReachedEof false)
  whenUpgraded env (finish env [newPos])

def fseek (env : Surroundings) (args : SyscallCpuState) : Option Started :=
  match FileSeekMode.fromU64 (args.arg 2).toNat with
  | none => some (.returned [u64Max])
  | some mode => withHandle env args (args.arg 0) fun handle =>
      some (.sleeping (fseekTask env mode (asI64 (args.arg 1).toNat) handle))

def changeDirectoryTask (env : Surroundings) : Task := do
  let res ← ofOption env.changeDirectory
  whenUpgraded env do
    match res with
    | .error _ => finish env [u64Max]
    | .ok () => finish env [0]

def isInodeType (id : Nat) : Bool := decide (id ≤ 6)

def fcreate (env : Surroundings) (args : SyscallCpuState) : Option Started :=
  if !isInodeType ((args.arg 3).toNat % 2 ^ 32) then some (.returned [u64Max])
  else withString env (args.arg 1) (args.arg 0) fun _ =>
    withHandle env args (args.arg 2) fun _ => some (.sleeping (changeDirectoryTask env))

def flink (env : Surroundings) (args : SyscallCpuState) : Option Started :=
  withString env (args.arg 1) (args.arg 0) fun _ =>
    withHandle env args (args.arg 2) fun _ =>
      withHandle env args (args.arg 3) fun _ => some (.sleeping (changeDirectoryTask env))

def funlink (env : Surroundings) (args : SyscallCpuState) : Option Started :=
  withString env (args.arg 1) (args.arg 0) fun _ =>
    withHandle env args (args.arg 2) fun _ => some (.sleeping (changeDirectoryTask env))

def fstatTask (env : Surroundings) : Task := do
  let _ ← ofOption env.statFile
  whenUpgraded env do
    let validCopy ← ofOption env.copy
    if !validCopy then emit (.setSyscallReturn [u64Max])
    else finish env [0]

def fstat (env : Surroundings) (args : SyscallCpuState) : Option Started :=
  withHandle env args (args.arg 0) fun _ => some (.sleeping (fstatTask env))

/-- `fclose`, which does not sleep. -/
def fclose (env : Surroundings) (args : SyscallCpuState) : Option Started :=
  withHandle env args (args.arg 0) fun _ => some (.returned [0])

inductive FsSyscall where
  | fopen | fclose | fread | fwrite | fseek | fcreate | flink | funlink | fstat
deriving DecidableEq, Repr

def handler : FsSyscall → Surroundings → SyscallCpuState → Option Started
  | .fopen => fopen
  | .fclose => fclose
  | .fread => fread
  | .fwrite => fwrite
  | .fseek => fseek
  | .fcreate => fcreate
  | .flink => flink
  | .funlink => funlink
  | .fstat => fstat

/-! ## Waking the process -/

def Woken (env : Surroundings) (log : List Effect) : Prop :=
  (∃ values, Effect.setSyscallReturn values ∈ log) ∧ Effect.wakeProcess env.pid ∈ log

/-- If the handler puts the process to sleep and its task ends while the process is alive, the task has set a return
value and woken the process. -/
def Completes (env : Surroundings) (started : Option Started) : Prop :=
  ∀ task, started = some (.sleeping task) → ∀ log, task [] = some ((), log) → env.alive = true → Woken env log

def Task.Wakes (env : Surroundings) (task : Task) : Prop :=
  ∀ before log, task before = some ((), log) → env.alive = true → Woken env log

variable {env : Surroundings} {args : SyscallCpuState} {task : Task}

theorem wakes_finish (values : List Nat) : Task.Wakes env (finish env values) := by
  intro before log run _
  cases run
  simp [Woken]

theorem wakes_bind {α : Type} {first : Prog (List Effect) α} {rest : α → Task}
    (wakes : ∀ a before after, first before = some (a, after) → Task.Wakes env (rest a)) :
    Task.Wakes env (first >>= rest) := by
  intro before log run alive
  obtain ⟨a, after, ran, run⟩ := bind_eq_some.mp run
  exact wakes a before after ran after log run alive

theorem wakes_whenUpgraded {rest : Task} (wakes : Task.Wakes env rest) : Task.Wakes env (whenUpgraded env rest) := by
  intro before log run alive
  rw [whenUpgraded, if_pos (env.upgraded_of_alive alive)] at run
  exact wakes before log run alive

theorem wakes_fopenTask (fd : Option Nat) : Task.Wakes env (fopenTask env args fd) := by
  refine wakes_bind fun handle _ _ _ => wakes_whenUpgraded ?_
  intro before log run _
  cases handle with
  | ok done =>
    obtain ⟨ns, -, run⟩ := ofOption_bind_eq_some.mp run
    obtain ⟨fd, -, run⟩ := ofOption_bind_eq_some.mp run
    cases run
    simp [Woken]
  | error e =>
    cases run
    simp [Woken]

theorem wakes_fseekTask (mode : FileSeekMode) (offset : Int) (handle : Handle) :
    Task.Wakes env (fseekTask env mode offset handle) := by
  refine wakes_bind fun fSize _ _ _ => wakes_bind fun _ _ _ _ => wakes_bind fun _ _ _ _ => wakes_bind fun _ _ _ _ => ?_
  exact wakes_whenUpgraded (wakes_finish _)

theorem wakes_changeDirectoryTask : Task.Wakes env (changeDirectoryTask env) := by
  refine wakes_bind fun res _ _ _ => wakes_whenUpgraded ?_
  cases res with
  | ok | error => exact wakes_finish _

/-! ## The tasks that may forget to wake -/

theorem alignPosition_run (handle : Handle) :
    ∃ log, alignPosition handle [] = some ((), log) ∧ ∀ pid, Effect.wakeProcess pid ∉ log := by
  rw [alignPosition]
  split
  · exact ⟨[], rfl, fun _ => by simp⟩
  · exact ⟨_, rfl, fun _ => by simp⟩

theorem not_woken {log : List Effect} (silent : ∀ pid, Effect.wakeProcess pid ∉ log) (more : List Effect)
    (silentMore : ∀ pid, Effect.wakeProcess pid ∉ more) : ¬ Woken env (log ++ more) := by
  rintro ⟨-, woken⟩
  rcases List.mem_append.mp woken with first | second
  · exact silent _ first
  · exact silentMore _ second

theorem freadTask_iff (size : Nat) (handle : Handle) :
    (∀ log, freadTask env size handle [] = some ((), log) → env.alive = true → Woken env log) ↔
      (env.alive = true → size + handle.extraOffset < 2 ^ 64 →
        env.allocates ((size + handle.extraOffset + 4095) / 4096 % 2 ^ 32) = true →
        ∀ bytesRead result, env.readFile = some (.ok (bytesRead, result)) → handle.extraOffset ≤ bytesRead) := by
  constructor
  · intro wakes alive fits allocates bytesRead result read
    by_contra short
    obtain ⟨aligned, alignRun, silent⟩ := alignPosition_run handle
    have run : freadTask env size handle [] =
        some ((), aligned ++ [.storePosition handle.position, .setSyscallReturn [0, 0]]) := by
      rw [freadTask, bind_of_eq_some alignRun, assert_bind_run (decide_eq_true fits),
        assert_bind_run allocates, bind_of_eq_some (ofOption_eq_some.mpr ⟨read, rfl⟩), whenUpgraded,
        if_pos (env.upgraded_of_alive alive)]
      dsimp only
      rw [if_pos (Nat.lt_of_not_le short)]
      simp [emit, bind_run, modify_run]
    exact not_woken silent _ (by simp) (wakes _ run alive)
  · intro enough log run alive
    obtain ⟨_, aligned, -, run⟩ := bind_eq_some.mp run
    obtain ⟨fits, run⟩ := assert_bind_eq_some.mp run
    obtain ⟨allocates, run⟩ := assert_bind_eq_some.mp run
    obtain ⟨read, readFile, run⟩ := ofOption_bind_eq_some.mp run
    refine wakes_whenUpgraded ?_ aligned log run alive
    match read with
    | .error e => exact wakes_finish _
    | .ok (bytesRead, result) =>
      have long := enough alive (of_decide_eq_true fits) allocates bytesRead result readFile
      dsimp only
      rw [if_neg (Nat.not_lt.mpr long)]
      refine wakes_bind fun validCopy _ _ _ => ?_
      cases validCopy with
      | false | true => exact wakes_finish _

theorem fwriteTask_iff (size : Nat) (handle : Handle) :
    (∀ log, fwriteTask env size handle [] = some ((), log) → env.alive = true → Woken env log) ↔
      (env.alive = true → size + handle.extraOffset < 2 ^ 64 → handle.extraOffset = 0 →
        env.allocates ((size + 4095) / 4096 % 2 ^ 32) = true → env.copy ≠ some false) := by
  constructor
  · intro wakes alive fits onBoundary allocates failed
    obtain ⟨aligned, alignRun, silent⟩ := alignPosition_run handle
    have run : fwriteTask env size handle [] = some ((), aligned ++ [.setSyscallReturn [u64Max]]) := by
      rw [fwriteTask, bind_of_eq_some alignRun, assert_bind_run (decide_eq_true fits),
        assert_bind_run (beq_iff_eq.mpr onBoundary), assert_bind_run allocates,
        bind_of_eq_some (ofOption_eq_some.mpr ⟨failed, rfl⟩)]
      rfl
    exact not_woken silent _ (by simp) (wakes _ run alive)
  · intro copies log run alive
    obtain ⟨_, aligned, -, run⟩ := bind_eq_some.mp run
    obtain ⟨fits, run⟩ := assert_bind_eq_some.mp run
    obtain ⟨onBoundary, run⟩ := assert_bind_eq_some.mp run
    obtain ⟨allocates, run⟩ := assert_bind_eq_some.mp run
    obtain ⟨copyValid, copied, run⟩ := ofOption_bind_eq_some.mp run
    cases copyValid with
    | false => exact absurd copied (copies alive (of_decide_eq_true fits) (beq_iff_eq.mp onBoundary) allocates)
    | true =>
      refine wakes_bind (fun written _ _ _ => wakes_whenUpgraded ?_) aligned log run alive
      cases written with
      | error | ok => exact wakes_finish _

theorem fstatTask_iff : (∀ log, fstatTask env [] = some ((), log) → env.alive = true → Woken env log) ↔
      (env.alive = true → env.statFile.isSome = true → env.copy ≠ some false) := by
  constructor
  · intro wakes alive locked failed
    obtain ⟨size, stat⟩ := Option.isSome_iff_exists.mp locked
    have run : fstatTask env [] = some ((), [] ++ [.setSyscallReturn [u64Max]]) := by
      rw [fstatTask, bind_of_eq_some (ofOption_eq_some.mpr ⟨stat, rfl⟩), whenUpgraded,
        if_pos (env.upgraded_of_alive alive), bind_of_eq_some (ofOption_eq_some.mpr ⟨failed, rfl⟩)]
      rfl
    exact not_woken (by simp) _ (by simp) (wakes _ run alive)
  · intro copies log run alive
    obtain ⟨size, stat, run⟩ := ofOption_bind_eq_some.mp run
    refine wakes_whenUpgraded ?_ [] log run alive
    intro before log run alive
    obtain ⟨validCopy, copied, run⟩ := ofOption_bind_eq_some.mp run
    cases validCopy with
    | false => exact absurd copied (copies alive (by rw [stat]; rfl))
    | true => exact wakes_finish _ before log run alive

/-! ## The pack -/

def Surroundings.fileHandle (env : Surroundings) (args : SyscallCpuState) (fd : UInt64) : Option Handle :=
  (env.fsNamespace args.namespaceId).bind fun ns => ns.openFiles fd.toNat

theorem completes_withHandle {fd : UInt64} {next : Handle → Option Started} :
    Completes env (withHandle env args fd next) ↔
      ∀ handle, env.fileHandle args fd = some handle → Completes env (next handle) := by
  rw [withHandle, Surroundings.fileHandle]
  cases env.fsNamespace args.namespaceId with
  | none => exact ⟨nofun, nofun⟩
  | some ns =>
    dsimp only [Option.bind_some]
    cases ns.openFiles fd.toNat with
    | none => exact ⟨nofun, nofun⟩
    | some handle =>
      constructor
      · rintro completes _ ⟨⟩
        exact completes
      · intro completes
        exact completes handle rfl

theorem completes_withString {ptr len : UInt64} {next : String → Option Started}
    (completes : ∀ string, Completes env (next string)) : Completes env (withString env ptr len next) := by
  rw [withString]
  match env.stringFromArgs ptr len with
  | none => exact nofun
  | some none => exact nofun
  | some (some string) => exact completes string

theorem completes_returned (values : List Nat) : Completes env (some (.returned values)) :=
  nofun

theorem completes_sleeping : Completes env (some (.sleeping task)) ↔
    ∀ log, task [] = some ((), log) → env.alive = true → Woken env log := by
  constructor
  · intro completes
    exact completes task rfl
  · rintro wakes _ ⟨⟩
    exact wakes

theorem completes_of_wakes (wakes : Task.Wakes env task) : Completes env (some (.sleeping task)) :=
  completes_sleeping.mpr fun log run alive => wakes [] log run alive

/-- When the process of a syscall is woken: `fread` must get at least the bytes before the position of its handle, and
the copies of `fwrite` and `fstat` must succeed, whenever they get so far. -/
def WakesWhen (env : Surroundings) (args : SyscallCpuState) : FsSyscall → Prop
  | .fread =>
    let size := (args.arg 1).toNat
    let bufPtr := (args.arg 2).toNat
    size ≠ 0 → bufPtr + size < 2 ^ 64 → verifyMemoryRange env bufPtr (bufPtr + size) = true →
    ∀ handle, env.fileHandle args (args.arg 0) = some handle → env.alive = true → size + handle.extraOffset < 2 ^ 64 →
    env.allocates ((size + handle.extraOffset + 4095) / 4096 % 2 ^ 32) = true →
    ∀ bytesRead result, env.readFile = some (.ok (bytesRead, result)) → handle.extraOffset ≤ bytesRead
  | .fwrite =>
    let size := (args.arg 1).toNat
    let bufPtr := (args.arg 2).toNat
    size ≠ 0 → verifyMemoryRange env bufPtr (min (bufPtr + size) u64Max) = true →
    ∀ handle, env.fileHandle args (args.arg 0) = some handle → env.alive = true →
    size + handle.extraOffset < 2 ^ 64 → handle.extraOffset = 0 →
    env.allocates ((size + 4095) / 4096 % 2 ^ 32) = true → env.copy ≠ some false
  | .fstat =>
    ∀ handle, env.fileHandle args (args.arg 0) = some handle → env.alive = true →
    env.statFile.isSome = true → env.copy ≠ some false
  | _ => True

theorem fread_completes_iff : Completes env (fread env args) ↔ WakesWhen env args .fread := by
  unfold WakesWhen
  dsimp only [fread]
  split
  next empty =>
    exact ⟨fun _ nonempty => absurd empty nonempty, fun _ => completes_returned _⟩
  next empty =>
  by_cases overflow : 2 ^ 64 ≤ (args.arg 2).toNat + (args.arg 1).toNat
  · rw [if_pos overflow]
    exact ⟨fun _ _ fits => absurd fits (by omega), nofun⟩
  rw [if_neg overflow]
  cases valid : verifyMemoryRange env (args.arg 2).toNat ((args.arg 2).toNat + (args.arg 1).toNat) with
  | false => exact ⟨nofun, fun _ => completes_returned _⟩
  | true =>
    rw [Bool.not_true, if_neg Bool.false_ne_true, completes_withHandle]
    simp only [completes_sleeping, freadTask_iff]
    exact ⟨fun all _ _ _ => all, fun all => all empty (by omega) trivial⟩

theorem fwrite_completes_iff : Completes env (fwrite env args) ↔ WakesWhen env args .fwrite := by
  unfold WakesWhen
  dsimp only [fwrite]
  split
  next empty =>
    exact ⟨fun _ nonempty => absurd empty nonempty, fun _ => completes_returned _⟩
  next empty =>
  cases valid : verifyMemoryRange env (args.arg 2).toNat (min ((args.arg 2).toNat + (args.arg 1).toNat) u64Max) with
  | false => exact ⟨nofun, fun _ => completes_returned _⟩
  | true =>
    rw [Bool.not_true, if_neg Bool.false_ne_true, completes_withHandle]
    simp only [completes_sleeping, fwriteTask_iff]
    exact ⟨fun all _ _ => all, fun all => all empty trivial⟩

theorem fopen_completes : Completes env (fopen env args) := by
  refine completes_withString fun _ => ?_
  cases env.fsNamespace args.namespaceId with
  | none => exact nofun
  | some ns =>
    dsimp only
    split
    · exact nofun
    · exact completes_of_wakes (wakes_fopenTask _)

theorem fcreate_completes : Completes env (fcreate env args) := by
  rw [fcreate]
  split
  · exact completes_returned _
  · exact completes_withString fun _ =>
      completes_withHandle.mpr fun _ _ => completes_of_wakes wakes_changeDirectoryTask

theorem fseek_completes : Completes env (fseek env args) := by
  rw [fseek]
  split
  · exact completes_returned _
  · exact completes_withHandle.mpr fun _ _ => completes_of_wakes (wakes_fseekTask _ _ _)

/-- A process that a file system syscall puts to sleep is woken by the task exactly under these conditions. -/
theorem completes_iff (syscall : FsSyscall) (env : Surroundings) (args : SyscallCpuState) :
    Completes env (handler syscall env args) ↔ WakesWhen env args syscall := by
  cases syscall with
  | fopen => exact iff_of_true fopen_completes trivial
  | fclose => exact iff_of_true (completes_withHandle.mpr fun _ _ => completes_returned _) trivial
  | fread => exact fread_completes_iff
  | fwrite => exact fwrite_completes_iff
  | fseek => exact iff_of_true fseek_completes trivial
  | fcreate => exact iff_of_true fcreate_completes trivial
  | flink =>
    exact iff_of_true (completes_withString fun _ => completes_withHandle.mpr fun _ _ =>
      completes_withHandle.mpr fun _ _ => completes_of_wakes wakes_changeDirectoryTask) trivial
  | funlink =>
    exact iff_of_true (completes_withString fun _ =>
      completes_withHandle.mpr fun _ _ => completes_of_wakes wakes_changeDirectoryTask) trivial
  | fstat =>
    change Completes env (fstat env args) ↔ _
    rw [fstat, completes_withHandle]
    simp only [completes_sleeping, fstatTask_iff]
    exact Iff.rfl

/-- Descriptor 0 stands in the middle of a page of a file that ends before the position, descriptor 1 at the start of
a file; user memory is unmapped while the task runs. -/
def memoryGone : Surroundings where
  pid := 7
  stringFromArgs _ _ := some none
  probePointerRange _ _ := true
  fsNamespace _ := some { openFiles := fun fd => if fd = 0 then some ⟨5, true⟩ else some ⟨0, true⟩, fileHandleCounter := 2 }
  fsNamespaceLater _ := none
  allocates _ := true
  openFile := none
  readFile := some (.ok (0, .temporaryEof))
  writeFile := none
  changeDirectory := none
  statFile := some 0
  copy := some false
  upgraded := true
  alive := true
  upgraded_of_alive _ := rfl

/-- Three tasks end without waking the process. -/
theorem sleeps_forever : ¬ Completes memoryGone (handler .fread memoryGone ⟨0, fun i => if i = 0 then 0 else 4096⟩) ∧
    ¬ Completes memoryGone (handler .fwrite memoryGone ⟨0, fun i => if i = 0 then 1 else 4096⟩) ∧
    ¬ Completes memoryGone (handler .fstat memoryGone ⟨0, fun _ => 1⟩) := by
  refine ⟨?_, ?_, ?_⟩
  all_goals
    intro completes
    have woken := completes _ rfl _ rfl rfl
    exact absurd woken.2 (by decide)

end MeowOs.Files.Syscalls
