import MeowOs.Sync.AsyncRwLock

/-! # The asynchronous spinlock

`AsyncSpinlock` of `async_lock.rs` and any number of tasks.  A poll, the drop of
a guard and the drop of a pending future are each one step.  In the source a
poll that fails makes two accesses, the `compare_exchange` and the push of its
waker; a drop in between, which misses the waker, is not a run of this model.

A guard's drop wakes one waiting task, the last one queued, and leaves the
others asleep.  The wake is lost when it goes to a future that was dropped in
the meantime (`LosesWake`); `spinlock_wakes_one` is about the runs in which that
does not happen.
-/

namespace MeowOs.Sync

open MeowOs.Machine

structure AsyncSpinlock where
  state : UInt8
  wakers : List Nat

namespace AsyncSpinlock

def new : AsyncSpinlock := ⟨0, []⟩

/-- `poll` of `AsyncSpinLockFuture`. -/
def poll (lock : AsyncSpinlock) (cx : Context) : Poll Unit × AsyncSpinlock :=
  if lock.state = 0 then (.ready (), { lock with state := 1 })
  else (.pending, if cx.isBlockingTask then lock else { lock with wakers := cx.waker :: lock.wakers })

/-- `drop` of the guard: the waker it invokes, and the lock after it. -/
def dropGuard (lock : AsyncSpinlock) : Option Nat × AsyncSpinlock :=
  match lock.wakers with
  | [] => (none, ⟨0, []⟩)
  | node :: next => (some node, ⟨0, next⟩)

end AsyncSpinlock

inductive LockPhase where
  | idle
  | waiting
  | guard
  deriving DecidableEq

inductive AsyncLockAction where
  | poll (isBlockingTask : Bool)
  | dropGuard
  /-- The drop of a lock future that is still pending.  The future has no `Drop`, so its wakers stay queued. -/
  | dropFuture
  deriving DecidableEq

/-- The lock, what each task has of it, which tasks are asleep, and whom the last drop of a guard has woken. -/
structure AsyncLockSystem where
  lock : AsyncSpinlock
  tasks : List LockPhase
  asleep : Nat → Bool
  lastWoken : Option Nat

namespace AsyncLockSystem

def start (taskCount : Nat) : AsyncLockSystem := ⟨.new, List.replicate taskCount .idle, fun _ => false, none⟩

def setAsleep (asleep : Nat → Bool) (task : Nat) (value : Bool) : Nat → Bool := Function.update asleep task value

def pollBy (system : AsyncLockSystem) (task : Nat) (isBlockingTask : Bool) : AsyncLockSystem :=
  match system.lock.poll ⟨task, isBlockingTask⟩ with
  | (.ready _, lock) => { system with
      lock := lock
      tasks := system.tasks.set task .guard
      asleep := setAsleep system.asleep task false }
  | (.pending, lock) => { system with
      lock := lock
      tasks := system.tasks.set task .waiting
      asleep := setAsleep system.asleep task (!isBlockingTask) }

def dropBy (system : AsyncLockSystem) (task : Nat) : AsyncLockSystem where
  lock := system.lock.dropGuard.2
  tasks := system.tasks.set task .idle
  asleep := match system.lock.dropGuard.1 with
    | none => system.asleep
    | some woken => setAsleep system.asleep woken false
  lastWoken := system.lock.dropGuard.1

def cancelBy (system : AsyncLockSystem) (task : Nat) : AsyncLockSystem :=
  { system with tasks := system.tasks.set task .idle, asleep := setAsleep system.asleep task false }

def step (system : AsyncLockSystem) (move : Nat × AsyncLockAction) : Option AsyncLockSystem :=
  match system.tasks[move.1]?, move.2 with
  | some .idle, .poll blocking => some (system.pollBy move.1 blocking)
  | some .waiting, .poll blocking => some (system.pollBy move.1 blocking)
  | some .guard, .dropGuard => some (system.dropBy move.1)
  | some .waiting, .dropFuture => some (system.cancelBy move.1)
  | _, _ => none

/-! ## Steps -/

variable {system next : AsyncLockSystem} {move : Nat × AsyncLockAction}

/-- What a step does, with the guard it needs. -/
inductive StepKind (system : AsyncLockSystem) (task : Nat) : AsyncLockAction → AsyncLockSystem → Prop where
  | acquires {blocking : Bool} (free : system.lock.state = 0)
      (before : system.tasks[task]? = some .idle ∨ system.tasks[task]? = some .waiting) :
      StepKind system task (.poll blocking)
        { system with
          lock := { system.lock with state := 1 }
          tasks := system.tasks.set task .guard
          asleep := setAsleep system.asleep task false }
  | queues (taken : system.lock.state ≠ 0)
      (before : system.tasks[task]? = some .idle ∨ system.tasks[task]? = some .waiting) :
      StepKind system task (.poll false)
        { system with
          lock := { system.lock with wakers := task :: system.lock.wakers }
          tasks := system.tasks.set task .waiting
          asleep := setAsleep system.asleep task true }
  | spins (taken : system.lock.state ≠ 0)
      (before : system.tasks[task]? = some .idle ∨ system.tasks[task]? = some .waiting) :
      StepKind system task (.poll true)
        { system with
          tasks := system.tasks.set task .waiting
          asleep := setAsleep system.asleep task false }
  | releases (before : system.tasks[task]? = some .guard) : StepKind system task .dropGuard (system.dropBy task)
  | cancels (before : system.tasks[task]? = some .waiting) : StepKind system task .dropFuture (system.cancelBy task)

variable {task other : Nat} {asleep : Nat → Bool}

theorem pollBy_kind (blocking : Bool)
    (before : system.tasks[task]? = some .idle ∨ system.tasks[task]? = some .waiting) :
    StepKind system task (.poll blocking) (system.pollBy task blocking) := by
  by_cases free : system.lock.state = 0
  · rw [pollBy, AsyncSpinlock.poll]
    simp only [free, if_true]
    exact .acquires free before
  rw [pollBy, AsyncSpinlock.poll]
  simp only [free, if_false]
  cases blocking with
  | false => exact .queues free before
  | true => exact .spins free before

theorem step_kind (stepped : system.step move = some next) : StepKind system move.1 move.2 next := by
  obtain ⟨task, action⟩ := move
  simp only [step] at stepped
  split at stepped
  next blocking found =>
    cases stepped
    exact pollBy_kind blocking (.inl found)
  next blocking found =>
    cases stepped
    exact pollBy_kind blocking (.inr found)
  next found =>
    cases stepped
    exact .releases found
  next found =>
    cases stepped
    exact .cancels found
  next => cases stepped

@[simp] theorem setAsleep_self (asleep : Nat → Bool) (task : Nat) (value : Bool) :
    setAsleep asleep task value task = value := Function.update_self _ _ _

theorem setAsleep_other (different : other ≠ task) (value : Bool) :
    setAsleep asleep task value other = asleep other := Function.update_of_ne different _ _

theorem setAsleep_false (sleeps : setAsleep asleep task false other = true) : other ≠ task ∧ asleep other = true := by
  by_cases self : other = task
  · rw [self, setAsleep_self] at sleeps
    cases sleeps
  · exact ⟨self, by rwa [setAsleep_other self] at sleeps⟩

theorem setAsleep_false_of_awake (awake : asleep other = false) : setAsleep asleep task false other = false := by
  by_cases self : other = task
  · rw [self, setAsleep_self]
  · rw [setAsleep_other self, awake]

/-- A sleeping task is queued, and where the lock is free another one has been woken. -/
structure Queued (system : AsyncLockSystem) : Prop where
  queued : ∀ task, system.asleep task = true → task ∈ system.lock.wakers
  woken : system.lock.state = 0 → ∀ task, system.asleep task = true →
    ∃ woken, system.lastWoken = some woken ∧ system.asleep woken = false

theorem queued_start (taskCount : Nat) : (start taskCount).Queued :=
  ⟨fun _ asleep => absurd asleep Bool.false_ne_true, fun _ _ asleep => absurd asleep Bool.false_ne_true⟩

theorem queued_dropBy (queued : system.Queued) (task : Nat) : (system.dropBy task).Queued := by
  cases wakers : system.lock.wakers with
  | nil =>
    have awake : ∀ other, (system.dropBy task).asleep other ≠ true := by
      intro other asleep
      simp only [dropBy, AsyncSpinlock.dropGuard, wakers] at asleep
      have member := queued.queued other asleep
      rw [wakers] at member
      cases member
    exact ⟨fun other asleep => absurd asleep (awake other), fun _ other asleep => absurd asleep (awake other)⟩
  | cons node rest =>
    constructor
    · intro other asleep
      simp only [dropBy, AsyncSpinlock.dropGuard, wakers] at asleep ⊢
      obtain ⟨different, asleep⟩ := setAsleep_false asleep
      have member := queued.queued other asleep
      rw [wakers] at member
      exact (List.mem_cons.mp member).resolve_left different
    · intro _ other _
      refine ⟨node, ?_, ?_⟩
      · simp [dropBy, AsyncSpinlock.dropGuard, wakers]
      · simp [dropBy, AsyncSpinlock.dropGuard, wakers, setAsleep_self]

theorem queued_step (queued : system.Queued) (stepped : system.step move = some next) : next.Queued := by
  obtain ⟨turn, action⟩ := move
  cases step_kind stepped with
  | acquires free before =>
    refine ⟨fun task asleep => queued.queued task (setAsleep_false asleep).2, fun stillFree => ?_⟩
    cases stillFree
  | queues taken before =>
    refine ⟨fun task asleep => ?_, fun free => absurd free taken⟩
    by_cases self : task = turn
    · rw [self]
      exact .head _
    · exact .tail _ (queued.queued task ((setAsleep_other self true).symm.trans asleep))
  | spins taken before =>
    exact ⟨fun task asleep => queued.queued task (setAsleep_false asleep).2, fun free => absurd free taken⟩
  | releases before => exact queued_dropBy queued turn
  | cancels before =>
    refine ⟨fun task asleep => queued.queued task (setAsleep_false asleep).2, fun free task asleep => ?_⟩
    obtain ⟨woken, last, awake⟩ := queued.woken free task (setAsleep_false asleep).2
    exact ⟨woken, last, setAsleep_false_of_awake awake⟩

/-! ## Lost wakes -/

/-- The wake goes to a future that no longer waits, while another task sleeps. -/
def LosesWake (system : AsyncLockSystem) (move : Nat × AsyncLockAction) : Prop :=
  match move.2 with
  | .poll _ => False
  | .dropGuard => ∃ node, system.lock.wakers.head? = some node ∧ system.tasks[node]? ≠ some .waiting ∧
      ∃ task, task ≠ node ∧ system.asleep task = true
  -- the future that the last drop of a guard has woken, and that was not polled since
  | .dropFuture => system.lock.state = 0 ∧ system.lastWoken = some move.1 ∧
      ∃ task, task ≠ move.1 ∧ system.asleep task = true

/-- Where the lock is free while a task sleeps, the task that was woken last waits for it. -/
structure Attended (system : AsyncLockSystem) : Prop where
  queued : system.Queued
  waits : system.lock.state = 0 → ∀ task, system.asleep task = true →
    ∀ woken, system.lastWoken = some woken → system.tasks[woken]? = some .waiting

theorem attended_dropBy (attended : system.Attended) {turn : Nat} (before : system.tasks[turn]? = some .guard)
    (handsOn : ¬ system.LosesWake (turn, .dropGuard)) : (system.dropBy turn).Attended := by
  refine ⟨queued_dropBy attended.queued turn, fun _ task asleep woken last => ?_⟩
  cases wakers : system.lock.wakers with
  | nil => simp [dropBy, AsyncSpinlock.dropGuard, wakers] at last
  | cons node rest =>
    simp only [dropBy, AsyncSpinlock.dropGuard, wakers, Option.some.injEq] at asleep last ⊢
    subst last
    have waiting : system.tasks[node]? = some .waiting := by
      by_contra gone
      exact handsOn ⟨node, by rw [wakers]; rfl, gone, task, setAsleep_false asleep⟩
    have different : turn ≠ node := by
      rintro rfl
      rw [before] at waiting
      cases waiting
    rwa [List.getElem?_set_ne different]

theorem attended_step (attended : system.Attended) (handsOn : ¬ system.LosesWake move)
    (stepped : system.step move = some next) : next.Attended := by
  have queued := queued_step attended.queued stepped
  obtain ⟨turn, action⟩ := move
  cases step_kind stepped with
  | acquires free before => exact ⟨queued, fun stillFree => by cases stillFree⟩
  | queues taken before | spins taken before => exact ⟨queued, fun free => absurd free taken⟩
  | releases before => exact attended_dropBy attended before handsOn
  | cancels before =>
    refine ⟨queued, fun free task asleep woken last => ?_⟩
    obtain ⟨different, asleep⟩ := setAsleep_false asleep
    have stays : turn ≠ woken := by
      rintro rfl
      exact handsOn ⟨free, last, task, different, asleep⟩
    exact (List.getElem?_set_ne stays).trans (attended.waits free task asleep woken last)

def WakesAll (system : AsyncLockSystem) (move : Nat × AsyncLockAction) : Prop :=
  move.2 = .dropGuard → ∀ task, system.asleep task = true → system.lock.wakers.head? = some task

def AllAwake (system : AsyncLockSystem) : Prop := system.lock.state = 0 → ∀ task, system.asleep task = false

theorem allAwake_step (inv : system.AllAwake) (wakes : system.WakesAll move) (stepped : system.step move = some next) :
    next.AllAwake := by
  obtain ⟨turn, action⟩ := move
  cases step_kind stepped with
  | acquires free before => exact fun stillFree => by cases stillFree
  | queues taken before | spins taken before => exact fun free => absurd free taken
  | releases before =>
    intro _ task
    by_contra asleep
    rw [Bool.not_eq_false] at asleep
    cases wakers : system.lock.wakers with
    | nil =>
      simp only [dropBy, AsyncSpinlock.dropGuard, wakers] at asleep
      have first := wakes rfl task asleep
      rw [wakers] at first
      cases first
    | cons node rest =>
      simp only [dropBy, AsyncSpinlock.dropGuard, wakers] at asleep
      obtain ⟨different, asleep⟩ := setAsleep_false asleep
      have first := wakes rfl task asleep
      rw [wakers] at first
      cases first
      exact different rfl
  | cancels before => exact fun free task => setAsleep_false_of_awake (inv free task)

/-- In a state with the lock free, a task that sleeps is queued.  If no step of the run has lost a wake, another task
waits for the lock that has been woken and not polled since; if every drop has woken all sleepers, none sleeps. -/
theorem spinlock_wakes_one (taskCount : Nat) (moves : List (Nat × AsyncLockAction)) (system : AsyncLockSystem)
    (run : runs step (start taskCount) moves = some system) (free : system.lock.state = 0) :
    (∀ task, system.asleep task = true → task ∈ system.lock.wakers) ∧
      (EachStep step (fun system move => ¬ system.LosesWake move) (start taskCount) moves →
        ∀ task, system.asleep task = true →
          ∃ woken, woken ≠ task ∧ system.tasks[woken]? = some .waiting ∧ system.asleep woken = false) ∧
      (EachStep step WakesAll (start taskCount) moves → ∀ task, system.asleep task = false) := by
  have queued : system.Queued := runs_keeps Queued queued_step run (queued_start taskCount)
  refine ⟨queued.queued, fun handsOn task asleep => ?_, fun wakes => ?_⟩
  · have attended : system.Attended := runs_keeps_while Attended attended_step handsOn run
      ⟨queued_start taskCount, fun _ _ asleep => absurd asleep Bool.false_ne_true⟩
    obtain ⟨woken, last, awake⟩ := queued.woken free task asleep
    refine ⟨woken, ?_, attended.waits free task asleep woken last, awake⟩
    rintro rfl
    rw [awake] at asleep
    cases asleep
  · exact runs_keeps_while AllAwake allAwake_step wakes run (fun _ _ => rfl) free

def wakesAnother : List (Nat × AsyncLockAction) :=
  [(0, .poll false), (1, .poll false), (2, .poll false), (3, .poll false), (1, .dropFuture), (0, .dropGuard)]

theorem spinlock_wakes_one_of_two : ∃ system, runs step (start 4) wakesAnother = some system ∧ system.lock.state = 0 ∧
    system.asleep 2 = true ∧ ∃ woken, woken ≠ 2 ∧ system.tasks[woken]? = some .waiting ∧
      system.asleep woken = false := by
  have handsOn : EachStep step (fun system move => ¬ system.LosesWake move) (start 4) wakesAnother := by
    iterate 4
      refine ⟨id, fun _ ran => ?_⟩
      cases ran
    refine ⟨fun lost => absurd lost.1 (by decide), fun _ ran => ?_⟩
    cases ran
    refine ⟨?_, fun _ _ => trivial⟩
    rintro ⟨node, first, gone, -⟩
    cases first
    exact gone rfl
  exact ⟨_, rfl, rfl, rfl, (spinlock_wakes_one 4 wakesAnother _ rfl rfl).2.1 handsOn 2 rfl⟩

def wakesDropped : List (Nat × AsyncLockAction) :=
  [(0, .poll false), (1, .poll false), (2, .poll false), (2, .dropFuture), (0, .dropGuard)]

/-- The lock is free and no task has a guard.  Task 1 waits and sleeps, and no task that waits has been woken. -/
theorem spinlock_wakes_dropped_future : ∃ system, runs step (start 3) wakesDropped = some system ∧
    system.lock.state = 0 ∧ system.tasks = [.idle, .waiting, .idle] ∧ system.asleep 1 = true :=
  ⟨_, rfl, rfl, rfl, rfl⟩

/-! ## Exclusion -/

def guards (tasks : List LockPhase) : Nat := tasks.countP (· = .guard)

theorem guards_set {tasks : List LockPhase} {old : LockPhase} (before : tasks[task]? = some old) (new : LockPhase) :
    guards (tasks.set task new) + (decide (old = .guard)).toNat = guards tasks + (decide (new = .guard)).toNat := by
  rw [guards, guards, countP_of_getElem? _ before, countP_set_of_getElem? _ before]
  omega

def Guarded (system : AsyncLockSystem) : Prop := guards system.tasks = if system.lock.state = 0 then 0 else 1

theorem guarded_step (inv : system.Guarded) (stepped : system.step move = some next) : next.Guarded := by
  unfold Guarded at inv ⊢
  obtain ⟨turn, action⟩ := move
  cases step_kind stepped with
  | acquires free before =>
    rw [if_pos free] at inv
    rcases before with before | before
    all_goals simpa [inv] using guards_set before .guard
  | queues taken before | spins taken before =>
    rw [← inv]
    rcases before with before | before
    all_goals exact guards_set before .waiting
  | releases before =>
    have count : guards (system.dropBy turn).tasks + 1 = guards system.tasks := guards_set before .idle
    have free : (system.dropBy turn).lock.state = 0 := by
      unfold dropBy AsyncSpinlock.dropGuard
      split <;> rfl
    refine (?_ : guards (system.dropBy turn).tasks = 0).trans (if_pos free).symm
    split at inv <;> omega
  | cancels before => exact (guards_set before .idle).trans inv

/-- However the tasks poll, drop their guards and give up waiting: as long as the lock is free no task has a guard, and
otherwise one task has. -/
theorem asyncSpinlock_excludes (taskCount : Nat) (moves : List (Nat × AsyncLockAction)) :
    (runs step (start taskCount) moves).map (fun system => guards system.tasks) =
      (runs step (start taskCount) moves).map fun system => if system.lock.state = 0 then 0 else 1 :=
  Option.map_congr fun _ run => runs_keeps Guarded guarded_step run (by simp [Guarded, guards, start, AsyncSpinlock.new])

end AsyncLockSystem

end MeowOs.Sync
