import MeowOs.Machine.Interleaving
import MeowOs.Machine.LockWord

/-! # The asynchronous readers-writer lock

`AsyncRWlock` of `async_rw_lock.rs` and any number of tasks that use it.  A poll
of a lock future, the drop of a guard and a downgrade are each one step, so a
`compare_exchange` that follows a load in the same poll does not fail.

A task is asleep when its last poll returned `Pending` and its waker has not
been invoked since.  A poll made by `block_task` queues no waker and is made
again without one, so it puts no task to sleep.
-/

namespace MeowOs.Sync

open MeowOs.Machine

/-- `AsyncRWlock` without its data.  The wakers are those of the tasks, the last one queued first. -/
structure AsyncRwLock where
  state : UInt16
  wakers : List Nat

inductive Poll (α : Type) where
  | ready (value : α)
  | pending

structure Context where
  waker : Nat
  isBlockingTask : Bool

namespace AsyncRwLock

def new : AsyncRwLock := ⟨0, []⟩

def wait (lock : AsyncRwLock) (cx : Context) : AsyncRwLock :=
  if cx.isBlockingTask then lock else { lock with wakers := cx.waker :: lock.wakers }

/-- The wakers that are invoked, and the lock after it. -/
def wakeAllTasks (lock : AsyncRwLock) : List Nat × AsyncRwLock := (lock.wakers, { lock with wakers := [] })

def pollRead (lock : AsyncRwLock) (cx : Context) : Poll Unit × AsyncRwLock :=
  let state := lock.state
  if state &&& 0x8000 ≠ 0 then (.pending, lock.wait cx)
  else (.ready (), { lock with state := state + 1 })

def pollBeforeSet (lock : AsyncRwLock) (cx : Context) : Poll Unit × AsyncRwLock :=
  let current := lock.state
  if current &&& 0x8000 ≠ 0 then (.pending, lock.wait cx)
  else (.ready (), { lock with state := current ||| 0x8000 })

def pollAfterSet (upgrading : Bool) (lock : AsyncRwLock) (cx : Context) : Poll Unit × AsyncRwLock :=
  let target := if upgrading then 0x8001 else 0x8000
  if lock.state ≠ target then (.pending, lock.wait cx) else (.ready (), lock)

/-- `drop` of a guard of either mode: the wakers it invokes, and the lock after it. -/
def dropGuard (lock : AsyncRwLock) : List Nat × AsyncRwLock :=
  let currentState := lock.state
  if currentState = 0x8000 then { lock with state := 0 }.wakeAllTasks
  else
    let lock := { lock with state := currentState - 1 }
    -- other readers still exist
    if lock.state ≠ 0 then ([], lock) else lock.wakeAllTasks

def downgradeToRead (lock : AsyncRwLock) : List Nat × AsyncRwLock := { lock with state := 1 }.wakeAllTasks

end AsyncRwLock

/-! ## Tasks -/

/-- What a task has of the lock.  A write future is past its first wait once it has set the writer bit; an upgrade
keeps its read guard until it returns. -/
inductive Phase where
  | idle
  | reading
  | writing (set : Bool)
  | upgrading (set : Bool)
  | readGuard
  | writeGuard
  deriving DecidableEq

namespace Phase

def holdsReadGuard : Phase → Bool
  | idle | reading | writing _ | writeGuard => false
  | upgrading _ | readGuard => true

def holdsWriteGuard : Phase → Bool
  | idle | reading | writing _ | upgrading _ | readGuard => false
  | writeGuard => true

def holdsGuard (phase : Phase) : Bool := phase.holdsReadGuard || phase.holdsWriteGuard

def isWriter : Phase → Bool
  | idle | reading | readGuard => false
  | writing set | upgrading set => set
  | writeGuard => true

end Phase

inductive LockAction where
  | pollLockRead (isBlockingTask : Bool)
  | pollLockWrite (isBlockingTask : Bool)
  | pollUpgrade (isBlockingTask : Bool)
  | downgrade
  | drop
  deriving DecidableEq

structure RwSystem where
  lock : AsyncRwLock
  tasks : List Phase
  asleep : Nat → Bool

/-- What a step of one task comes to: its new phase, the lock, the wakers invoked, and whether it is put to sleep. -/
structure Outcome where
  phase : Phase
  lock : AsyncRwLock
  woken : List Nat
  sleeps : Bool

namespace Outcome

@[simps]
def pending (phase : Phase) (lock : AsyncRwLock) (cx : Context) : Outcome := ⟨phase, lock, [], !cx.isBlockingTask⟩

@[simps]
def running (phase : Phase) (lock : AsyncRwLock) (woken : List Nat) : Outcome := ⟨phase, lock, woken, false⟩

end Outcome

def pollLockRead (lock : AsyncRwLock) (cx : Context) : Outcome :=
  match lock.pollRead cx with
  | (.ready _, lock) => .running .readGuard lock []
  | (.pending, lock) => .pending .reading lock cx

/-- The second wait of `lock_write` and of `upgrade_to_write`.  An upgrade drops its read guard when it returns. -/
def pollSecondWait (upgrading : Bool) (lock : AsyncRwLock) (cx : Context) : Outcome :=
  match lock.pollAfterSet upgrading cx with
  | (.ready _, lock) =>
    if upgrading then .running .writeGuard lock.dropGuard.2 lock.dropGuard.1
    else .running .writeGuard lock []
  | (.pending, lock) => .pending (if upgrading then .upgrading true else .writing true) lock cx

/-- The first wait, and the second one where the first is over. -/
def pollFirstWait (upgrading : Bool) (lock : AsyncRwLock) (cx : Context) : Outcome :=
  match lock.pollBeforeSet cx with
  | (.ready _, lock) => pollSecondWait upgrading lock cx
  | (.pending, lock) => .pending (if upgrading then .upgrading false else .writing false) lock cx

def taskStep (lock : AsyncRwLock) (task : Nat) : Phase → LockAction → Option Outcome
  | .idle, .pollLockRead blocking => some (pollLockRead lock ⟨task, blocking⟩)
  | .reading, .pollLockRead blocking => some (pollLockRead lock ⟨task, blocking⟩)
  | .idle, .pollLockWrite blocking => some (pollFirstWait false lock ⟨task, blocking⟩)
  | .writing set, .pollLockWrite blocking =>
    some (if set then pollSecondWait false lock ⟨task, blocking⟩ else pollFirstWait false lock ⟨task, blocking⟩)
  | .readGuard, .pollUpgrade blocking => some (pollFirstWait true lock ⟨task, blocking⟩)
  | .upgrading set, .pollUpgrade blocking =>
    some (if set then pollSecondWait true lock ⟨task, blocking⟩ else pollFirstWait true lock ⟨task, blocking⟩)
  | .writeGuard, .downgrade => some (.running .readGuard lock.downgradeToRead.2 lock.downgradeToRead.1)
  | .readGuard, .drop => some (.running .idle lock.dropGuard.2 lock.dropGuard.1)
  | .writeGuard, .drop => some (.running .idle lock.dropGuard.2 lock.dropGuard.1)
  | _, _ => none

namespace RwSystem

def start (taskCount : Nat) : RwSystem := ⟨.new, List.replicate taskCount .idle, fun _ => false⟩

def apply (system : RwSystem) (task : Nat) (outcome : Outcome) : RwSystem where
  lock := outcome.lock
  tasks := system.tasks.set task outcome.phase
  asleep other := if other = task then outcome.sleeps else !outcome.woken.contains other && system.asleep other

def step (system : RwSystem) (move : Nat × LockAction) : Option RwSystem := do
  let phase ← system.tasks[move.1]?
  let outcome ← taskStep system.lock move.1 phase move.2
  some (system.apply move.1 outcome)

def readGuards (system : RwSystem) : Nat := system.tasks.countP Phase.holdsReadGuard

def writeGuards (system : RwSystem) : Nat := system.tasks.countP Phase.holdsWriteGuard

def writers (system : RwSystem) : Nat := system.tasks.countP Phase.isWriter

end RwSystem

end MeowOs.Sync
