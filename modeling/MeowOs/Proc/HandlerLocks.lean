import MeowOs.Proc.ProcNamespaces

/-! # The process lock in the system call handlers

A handler of the memory, syscall management or namespace management pack works
on the mutable part of its process, which a spin lock guards.  The lock is not
reentrant: a handler that takes it while its own guard lives spins forever.
`set_syscall_return` takes it too, so what matters is where each path of a
handler drops its guard.

A handler is modelled by what it does with the lock on its path.  The path
depends on the arguments and on what the called functions answer, and these
answers are arbitrary: none of the called functions takes the lock.  A function
that may panic answers an `Option`; the path ends there, the kernel aborts.
Sums wrap around, as in a release build; in a development build one that
overflows is a panic, and its path ends before it takes the lock again.
-/

namespace MeowOs.Proc.HandlerLocks

open MeowOs.Memory Space
open Namespaces.NamespaceType (fromId)

inductive Act where
  | lock
  | unlock
  | store (values : List Nat)
deriving DecidableEq

def relocks : (held : Bool) → List Act → Bool
  | _, [] => false
  | held, .lock :: rest => held || relocks true rest
  | _, .unlock :: rest => relocks false rest
  | held, .store _ :: rest => relocks held rest

def setSyscallReturn (values : List Nat) : List Act := [.lock, .store values, .unlock]

def fail : List Act := setSyscallReturn failed

def succeed : List Act := setSyscallReturn [0]

/-- What the functions that the handlers call answer, in the state of the call. -/
structure Kernel where
  /-- Whether the process has the namespace, 0 being the one in use. -/
  memoryNamespace : (id : Nat) → Bool
  syscallNamespace : (id : Nat) → Bool
  namespaceHolder : (id : Nat) → Bool
  ownedNamespaces : Nat
  stringFromArgs : (ptr len : Nat) → Option (Option String)
  safeMemcpyToUser : (dst len : Nat) → Option Bool
  findHole : (id : Nat) → VirtualMemoryRangeCapacity → Option (Option Nat)
  addMemRange : (id : Nat) → (capacity : VirtualMemoryRangeCapacity) → (permissions : Nat) → ManagementMode →
    (name : String) → MemoryRangeType → (start : Nat) → Option (Option Nat)
  removeMemRangeById : (id region : Nat) → Option Bool
  getRangeFromAddress : (id addr : Nat) → Option Nat
  getRangeFromId : (id region : Nat) → Option Nat
  allocateManualExternal : (base first last : Nat) → Option Bool
  freeManualExternal : (base first last : Nat) → Option Bool
  mappedSyscalls : (id : Nat) → Nat
  allPackInfo : Nat
  getSyscallPack : (name : String) → Option Nat
  mapSyscallPack : (id base pack : Nat) → Option Bool
  unmapSyscallPackByOffset : (id offset : Nat) → Option Bool
  disableSyscallByMask : (id offset mask : Nat) → Option Bool
  createEmptyNamespace : Namespaces.NamespaceType → Option Bool
  createFrom : (existing : Nat) → Option Bool
  removeNamespace : (id : Nat) → Bool
  changeNamespace : (id : Nat) → Bool

structure Args where
  namespaceId : Nat
  arg : Nat → Nat

section Handlers

variable (k : Kernel) (args : Args)

def answer (work : Option Bool) (done : List Act) : List Act :=
  match work with
  | none => []
  | some false => fail
  | some true => done

/-- The handlers whose guard lives to their end: look the namespace up, work on it, answer. -/
def guarded (known : Bool) (work : Option Bool) : List Act :=
  .lock :: (if known then answer work succeed else fail) ++ [.unlock]

/-- The handlers that drop the guard once the namespace is found, but not when there is none. -/
def lookedUp (known : Bool) (rest : List Act) : List Act :=
  .lock :: (if known then .unlock :: rest else fail ++ [.unlock])

def copyEntries (ptr size : Nat) : List Nat → Option Bool
  | [] => some true
  | i :: rest =>
    match k.safeMemcpyToUser ((ptr + i * size) % 2 ^ 64) size with
    | some true => copyEntries ptr size rest
    | failure => failure

def copyTable (size total : Nat) : Option Bool :=
  copyEntries k (args.arg 1) size (List.range (min total (args.arg 0)))

def list (size total : Nat) : List Act :=
  answer (copyTable k args size total) (setSyscallReturn [min total (args.arg 0), total])

def makeRegion : List Act :=
  match k.stringFromArgs (args.arg 6) (args.arg 5) with
  | none => []
  | some regionName =>
    match MakeRegion.parse ⟨args.namespaceId, args.arg 0, args.arg 1, args.arg 2, args.arg 3, args.arg 4, regionName⟩ with
    | none => fail
    | some (name, capacity, rangeType, mode) =>
      [.lock, .unlock] ++ if !k.memoryNamespace args.namespaceId then fail
        else
          let start := if capacity.alignDown (args.arg 0) = 0 then k.findHole args.namespaceId capacity
            else some (some (capacity.alignDown (args.arg 0)))
          match start with
          | none => []
          | some none => fail
          | some (some start) =>
            match k.addMemRange args.namespaceId capacity (args.arg 2 % 2 ^ 8) mode name rangeType start with
            | none => []
            | some none => fail
            | some (some id) => setSyscallReturn [id, start]

def changePages (change : Nat → Nat → Nat → Option Bool) : Option Bool :=
  let region := args.arg 0 % 2 ^ 32
  let range := if region = 0 then k.getRangeFromAddress args.namespaceId (args.arg 1)
    else k.getRangeFromId args.namespaceId region
  match range with
  | none => some false
  | some base =>
    let offset := if region = 0 then args.arg 1 - base else args.arg 1
    let pagesStart := offset % 2 ^ 32 / 0x1000
    change base pagesStart ((pagesStart + args.arg 2) % 2 ^ 32)

/-- What `map_pack` looks up before it takes the lock: nothing, if it panics, or the pack. -/
def packOfArgs : Option (Option Nat) :=
  if (args.arg 2 + 32) % 2 ^ 64 > 2 ^ 32 - 1 then some none
  else (k.stringFromArgs (args.arg 1) (args.arg 0)).map (·.bind k.getSyscallPack)

def mapPack : List Act :=
  match packOfArgs k args with
  | none => []
  | some none => fail
  | some (some pack) =>
    lookedUp (k.syscallNamespace args.namespaceId)
      (answer (k.mapSyscallPack args.namespaceId (args.arg 2 % 2 ^ 32) pack) succeed)

def mknamespace : List Act :=
  match fromId (args.arg 0) with
  | none => fail
  | some type =>
    -- the new namespace is added under a guard that ends with its statement
    let added := [.lock, .unlock] ++ succeed
    if args.arg 1 = 0 then answer (k.createEmptyNamespace type) added
    else if !k.namespaceHolder (args.arg 1) then .lock :: fail ++ [.unlock]
    else
      match k.createFrom (args.arg 1) with
      | none => [.lock]
      | some false => .lock :: fail ++ [.unlock]
      | some true => [.lock, .unlock] ++ added

/-- The handlers that change the namespaces in the condition of an `if`, which drops its guard before either branch. -/
def changed (done : Bool) : List Act := [.lock, .unlock] ++ if done then succeed else fail

end Handlers

inductive Handler where
  | makeRegion | removeRegion | listRegions | setProt | mmap | munmap
  | lspacks | lsallpacks | mapPack | unmapPack | restrict
  | mknamespace | rmnamespace | chnamespace | lsnamespace
deriving DecidableEq

def Handler.path (k : Kernel) (args : Args) : Handler → List Act
  | .makeRegion => HandlerLocks.makeRegion k args
  | .removeRegion =>
    guarded (k.memoryNamespace args.namespaceId) (k.removeMemRangeById args.namespaceId (args.arg 0 % 2 ^ 32))
  -- both are still to be written and panic
  | .listRegions | .setProt => []
  | .mmap => guarded (k.memoryNamespace args.namespaceId) (changePages k args k.allocateManualExternal)
  | .munmap => guarded (k.memoryNamespace args.namespaceId) (changePages k args k.freeManualExternal)
  | .lspacks => lookedUp (k.syscallNamespace args.namespaceId) (list k args 40 (k.mappedSyscalls args.namespaceId))
  | .lsallpacks => list k args 32 k.allPackInfo
  | .mapPack => HandlerLocks.mapPack k args
  | .unmapPack =>
    guarded (k.syscallNamespace args.namespaceId) (k.unmapSyscallPackByOffset args.namespaceId (args.arg 0))
  | .restrict =>
    guarded (k.syscallNamespace args.namespaceId)
      (k.disableSyscallByMask args.namespaceId (args.arg 0 % 2 ^ 32) (args.arg 1 % 2 ^ 32))
  | .mknamespace => HandlerLocks.mknamespace k args
  | .rmnamespace => changed (k.removeNamespace (args.arg 0))
  | .chnamespace => changed (k.changeNamespace (args.arg 0))
  | .lsnamespace => .lock :: list k args 16 k.ownedNamespaces ++ [.unlock]

/-! ## Paths that take the lock twice -/

section Paths

variable {known : Bool} {work : Option Bool} {rest done : List Act} {values : List Nat}

theorem relocks_setSyscallReturn (held : Bool) :
    relocks held (setSyscallReturn values ++ rest) = (held || relocks false rest) := by
  simp [setSyscallReturn, relocks]

@[simp] theorem relocks_return (held : Bool) : relocks held (setSyscallReturn values) = held := by
  simp [setSyscallReturn, relocks]

@[simp] theorem relocks_free (act : List Act) : relocks false (.lock :: .unlock :: act) = relocks false act := by
  simp [relocks]

theorem relocks_answer (safe : relocks false done = false) : relocks false (answer work done) = false := by
  rcases work with _ | _ | _ <;> simp [answer, fail, safe, relocks]

theorem relocks_under_guard :
    relocks false (.lock :: answer work (setSyscallReturn values) ++ [.unlock]) = false ↔ work = none := by
  rcases work with _ | _ | _ <;> simp [answer, fail, relocks, relocks_setSyscallReturn]

theorem relocks_guarded : relocks false (guarded known work) = false ↔ known = true ∧ work = none := by
  cases known with
  | false => simp [guarded, fail, relocks, relocks_setSyscallReturn]
  | true => simpa [guarded, succeed] using relocks_under_guard

theorem relocks_lookedUp (safe : relocks false rest = false) :
    relocks false (lookedUp known rest) = false ↔ known = true := by
  cases known <;> simp [lookedUp, fail, relocks, relocks_setSyscallReturn, safe]

theorem relocks_changed (done : Bool) : relocks false (changed done) = false := by
  cases done <;> simp [changed, succeed, fail]

variable {k : Kernel} {args : Args}

theorem relocks_list (size total : Nat) : relocks false (list k args size total) = false :=
  relocks_answer (relocks_return false)

theorem relocks_makeRegion : relocks false (makeRegion k args) = false := by
  unfold makeRegion
  -- the guard is dropped before the lookup's answer is used
  split
  · rfl
  split
  · simp [fail]
  simp only [List.cons_append, List.nil_append, relocks_free]
  split
  · simp [fail]
  split
  · rfl
  · simp [fail]
  · split <;> simp [fail, relocks]

theorem relocks_mapPack : relocks false (mapPack k args) = false ↔
      ∀ pack, packOfArgs k args = some (some pack) → k.syscallNamespace args.namespaceId = true := by
  unfold mapPack
  rcases packOfArgs k args with _ | _ | pack
  · simp [relocks]
  · simp [fail]
  · simpa [succeed] using relocks_lookedUp (relocks_answer (relocks_return false))

theorem relocks_mknamespace : relocks false (mknamespace k args) = false ↔
      (fromId (args.arg 0) ≠ none → args.arg 1 ≠ 0 →
        k.namespaceHolder (args.arg 1) = true ∧ k.createFrom (args.arg 1) ≠ some false) := by
  unfold mknamespace
  rcases fromId (args.arg 0) with _ | -
  · simp [fail]
  by_cases fresh : args.arg 1 = 0
  · simpa [fresh] using relocks_answer (by simp [succeed])
  cases k.namespaceHolder (args.arg 1)
  · simp [fresh, fail, relocks, relocks_setSyscallReturn]
  · rcases k.createFrom (args.arg 1) with _ | _ | _ <;>
      simp [fresh, fail, succeed, relocks, relocks_setSyscallReturn]

end Paths

/-- When a handler drops its guard before it stores the return values, or panics while it holds it. -/
def Handler.DropsFirst (k : Kernel) (args : Args) : Handler → Prop
  | .removeRegion => k.memoryNamespace args.namespaceId = true ∧
      k.removeMemRangeById args.namespaceId (args.arg 0 % 2 ^ 32) = none
  | .mmap => k.memoryNamespace args.namespaceId = true ∧ changePages k args k.allocateManualExternal = none
  | .munmap => k.memoryNamespace args.namespaceId = true ∧ changePages k args k.freeManualExternal = none
  | .lspacks => k.syscallNamespace args.namespaceId = true
  | .mapPack => ∀ pack, packOfArgs k args = some (some pack) → k.syscallNamespace args.namespaceId = true
  | .unmapPack => k.syscallNamespace args.namespaceId = true ∧
      k.unmapSyscallPackByOffset args.namespaceId (args.arg 0) = none
  | .restrict => k.syscallNamespace args.namespaceId = true ∧
      k.disableSyscallByMask args.namespaceId (args.arg 0 % 2 ^ 32) (args.arg 1 % 2 ^ 32) = none
  | .mknamespace => fromId (args.arg 0) ≠ none → args.arg 1 ≠ 0 →
      k.namespaceHolder (args.arg 1) = true ∧ k.createFrom (args.arg 1) ≠ some false
  | .lsnamespace => copyTable k args 16 k.ownedNamespaces = none
  | _ => True

/-- **A handler locks its process once at a time** exactly when it drops its guard first. -/
theorem handler_never_relocks_iff (k : Kernel) (args : Args) (handler : Handler) :
    relocks false (handler.path k args) = false ↔ handler.DropsFirst k args := by
  cases handler with
  | makeRegion => exact iff_of_true relocks_makeRegion trivial
  | listRegions | setProt => exact iff_of_true rfl trivial
  | lsallpacks => exact iff_of_true (relocks_list _ _) trivial
  | rmnamespace | chnamespace => exact iff_of_true (relocks_changed _) trivial
  | removeRegion | mmap | munmap | unmapPack | restrict => exact relocks_guarded
  | lspacks => exact relocks_lookedUp (relocks_list _ _)
  | mapPack => exact relocks_mapPack
  | mknamespace => exact relocks_mknamespace
  | lsnamespace => exact relocks_under_guard

def removesRegions : Kernel where
  memoryNamespace _ := true
  syscallNamespace _ := true
  namespaceHolder _ := true
  ownedNamespaces := 3
  stringFromArgs _ _ := none
  safeMemcpyToUser _ _ := some true
  findHole _ _ := none
  addMemRange _ _ _ _ _ _ _ := none
  removeMemRangeById _ _ := some true
  getRangeFromAddress _ _ := none
  getRangeFromId _ _ := none
  allocateManualExternal _ _ _ := none
  freeManualExternal _ _ _ := none
  mappedSyscalls _ := 0
  allPackInfo := 0
  getSyscallPack _ := none
  mapSyscallPack _ _ _ := none
  unmapSyscallPackByOffset _ _ := none
  disableSyscallByMask _ _ _ := none
  createEmptyNamespace _ := none
  createFrom _ := none
  removeNamespace _ := true
  changeNamespace _ := true

/-- A `remove_region` that succeeds stores its 0 under its own guard. -/
theorem remove_region_relocks : ∃ k : Kernel, k.removeMemRangeById 0 1 = some true ∧
      relocks false (Handler.removeRegion.path k ⟨0, fun _ => 1⟩) = true :=
  ⟨removesRegions, rfl, rfl⟩

end MeowOs.Proc.HandlerLocks
