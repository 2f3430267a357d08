import MeowOs.Sync.AsyncRwLock

/-! # The asynchronous readers-writer lock: exclusion and wake-ups

`taskStep_kind` says once what a step of a task can do; the two invariants are
read off from it.  `Coherent` ties the lock word to the guards.  `Attended` adds
that a sleeping task is queued and that somebody holds a guard as long as a
task sleeps or a writer has announced itself.

The second invariant breaks at one step: a read guard is dropped as the last
one while a writer waits for it.  The drop sees the writer bit in the word,
takes it for other readers and wakes nobody.
-/

namespace MeowOs.Sync

open MeowOs.Machine
open Phase (holdsGuard holdsReadGuard holdsWriteGuard isWriter)

/-! ## What a step does -/

/-- The steps of a task in phase `old`, by what they do to the lock. -/
inductive StepKind (lock : AsyncRwLock) (task : Nat) : Phase → LockAction → Outcome → Prop where
  /-- A writer is in the way, or the task is the writer and readers are. -/
  | waits {old new : Phase} {action : LockAction} {blocking : Bool}
      (sameRead : new.holdsReadGuard = old.holdsReadGuard) (sameWriter : new.isWriter = old.isWriter)
      (inactive : old.holdsWriteGuard = false ∧ new.holdsWriteGuard = false)
      (blocked : lock.state &&& 0x8000 ≠ 0 ∨ old.isWriter = true) :
      StepKind lock task old action (.pending new (lock.wait ⟨task, blocking⟩) ⟨task, blocking⟩)
  | acquiresRead {old : Phase} {blocking : Bool} (fresh : old = .idle ∨ old = .reading)
      (free : lock.state &&& 0x8000 = 0) :
      StepKind lock task old (.pollLockRead blocking) (.running .readGuard { lock with state := lock.state + 1 } [])
  /-- The writer bit is set, and there are readers to wait for. -/
  | announces {old new : Phase} {action : LockAction} {blocking : Bool}
      (sameRead : new.holdsReadGuard = old.holdsReadGuard) (writer : old.isWriter = false ∧ new.isWriter = true)
      (inactive : old.holdsWriteGuard = false ∧ new.holdsWriteGuard = false) (free : lock.state &&& 0x8000 = 0)
      (readers : old.holdsReadGuard = false → lock.state ||| 0x8000 ≠ 0x8000) : StepKind lock task old action
        (.pending new (({ lock with state := lock.state ||| 0x8000 } : AsyncRwLock).wait ⟨task, blocking⟩)
          ⟨task, blocking⟩)
  | acquiresWrite {old : Phase} {action : LockAction} (inactive : old.holdsWriteGuard = false)
      (bit : old.isWriter = true ∨ lock.state &&& 0x8000 = 0)
      (alone : lock.state ||| 0x8000 = if old.holdsReadGuard then 0x8001 else 0x8000) :
      StepKind lock task old action (.running .writeGuard { lock with state := 0x8000 } [])
  | downgrades : StepKind lock task .writeGuard .downgrade
      (.running .readGuard { state := 1, wakers := [] } lock.wakers)
  | drops {old : Phase} (guard : old = .readGuard ∨ old = .writeGuard) :
      StepKind lock task old .drop (.running .idle lock.dropGuard.2 lock.dropGuard.1)

section Kinds

variable {lock : AsyncRwLock} {task : Nat} {blocking : Bool} {action : LockAction} {old : Phase}

theorem pollLockRead_kind (fresh : old = .idle ∨ old = .reading) :
    StepKind lock task old (.pollLockRead blocking) (pollLockRead lock ⟨task, blocking⟩) := by
  rw [pollLockRead, AsyncRwLock.pollRead]
  by_cases bit : lock.state &&& 0x8000 = 0
  · simp only [bit, ne_eq, not_true_eq_false, if_false]
    exact .acquiresRead fresh bit
  simp only [bit, ne_eq, not_false_eq_true, if_true]
  rcases fresh with rfl | rfl
  · exact .waits rfl rfl ⟨rfl, rfl⟩ (.inl bit)
  · exact .waits rfl rfl ⟨rfl, rfl⟩ (.inl bit)

theorem pollSecondWait_eq (upgrading : Bool) (lock : AsyncRwLock) (cx : Context) : pollSecondWait upgrading lock cx =
      if lock.state = (if upgrading then 0x8001 else 0x8000) then
        .running .writeGuard { lock with state := 0x8000 } []
      else .pending (if upgrading then .upgrading true else .writing true) (lock.wait cx) cx := by
  obtain ⟨state, -⟩ := lock
  rw [pollSecondWait, AsyncRwLock.pollAfterSet]
  cases upgrading with
  | false =>
    by_cases alone : state = 0x8000
    · subst alone
      rfl
    · simp [alone]
  | true =>
    by_cases alone : state = 0x8001
    · subst alone
      have less : (0x8001 : UInt16) - 1 = 0x8000 := by decide
      simp [AsyncRwLock.dropGuard, less]
    · simp [alone]

theorem pollSecondWait_kind (upgrading : Bool) :
    StepKind lock task (if upgrading then .upgrading true else .writing true) action
      (pollSecondWait upgrading lock ⟨task, blocking⟩) := by
  rw [pollSecondWait_eq]
  by_cases alone : lock.state = if upgrading then 0x8001 else 0x8000
  · rw [if_pos alone]
    cases upgrading with
    | false => exact .acquiresWrite rfl (.inl rfl) (by rw [alone]; decide)
    | true => exact .acquiresWrite rfl (.inl rfl) (by rw [alone]; decide)
  · rw [if_neg alone]
    refine .waits rfl rfl ?_ (.inr ?_)
    · cases upgrading <;> exact ⟨rfl, rfl⟩
    · cases upgrading <;> rfl

theorem pollFirstWait_kind (upgrading : Bool) (fresh : old = (if upgrading then .readGuard else .idle) ∨
      old = if upgrading then .upgrading false else .writing false) :
    StepKind lock task old action (pollFirstWait upgrading lock ⟨task, blocking⟩) := by
  obtain ⟨notWriter, readGuard, inactive⟩ :
      old.isWriter = false ∧ old.holdsReadGuard = upgrading ∧ old.holdsWriteGuard = false := by
    rcases fresh with rfl | rfl <;> cases upgrading <;> exact ⟨rfl, rfl, rfl⟩
  rw [pollFirstWait, AsyncRwLock.pollBeforeSet]
  by_cases bit : lock.state &&& 0x8000 = 0
  · simp only [bit, ne_eq, not_true_eq_false, if_false]
    rw [pollSecondWait_eq]
    by_cases alone : lock.state ||| 0x8000 = if upgrading then 0x8001 else 0x8000
    · rw [if_pos alone]
      exact .acquiresWrite inactive (.inr bit) (by rw [readGuard]; exact alone)
    rw [if_neg alone]
    refine .announces ?_ ⟨notWriter, ?_⟩ ⟨inactive, ?_⟩ bit ?_
    · rw [readGuard]
      cases upgrading <;> rfl
    · cases upgrading <;> rfl
    · cases upgrading <;> rfl
    intro reads
    rw [readGuard] at reads
    subst reads
    exact alone
  · simp only [bit, ne_eq, not_false_eq_true, if_true]
    refine .waits ?_ ?_ ⟨inactive, ?_⟩ (.inl bit)
    · rw [readGuard]
      cases upgrading <;> rfl
    · rw [notWriter]
      cases upgrading <;> rfl
    · cases upgrading <;> rfl

theorem taskStep_kind {outcome : Outcome} (steps : taskStep lock task old action = some outcome) :
    StepKind lock task old action outcome := by
  cases old <;> cases action <;> cases steps
  case idle.pollLockRead => exact pollLockRead_kind (.inl rfl)
  case idle.pollLockWrite => exact pollFirstWait_kind false (.inl rfl)
  case reading.pollLockRead => exact pollLockRead_kind (.inr rfl)
  case writing.pollLockWrite set _ =>
    cases set with
    | false => exact pollFirstWait_kind false (.inr rfl)
    | true => exact pollSecondWait_kind false
  case upgrading.pollUpgrade set _ =>
    cases set with
    | false => exact pollFirstWait_kind true (.inr rfl)
    | true => exact pollSecondWait_kind true
  case readGuard.pollUpgrade => exact pollFirstWait_kind true (.inl rfl)
  case readGuard.drop => exact .drops (.inl rfl)
  case writeGuard.downgrade => exact .downgrades
  case writeGuard.drop => exact .drops (.inr rfl)

end Kinds

/-! ## The lock word and the guards -/

theorem wait_state (lock : AsyncRwLock) (cx : Context) : (lock.wait cx).state = lock.state := by
  rw [AsyncRwLock.wait]
  split <;> rfl

/-- A drop that leaves the word zero wakes the whole queue, any other wakes nobody. -/
theorem dropGuard_cases (lock : AsyncRwLock) :
    ((lock.state = 0x8000 ∨ lock.state - 1 = 0) ∧ lock.dropGuard = (lock.wakers, ⟨0, []⟩)) ∨
      (lock.state ≠ 0x8000 ∧ lock.state - 1 ≠ 0 ∧ lock.dropGuard = ([], { lock with state := lock.state - 1 })) := by
  rw [AsyncRwLock.dropGuard]
  by_cases write : lock.state = 0x8000
  · simp [write, AsyncRwLock.wakeAllTasks]
  · by_cases last : lock.state - 1 = 0
    · simp [write, last, AsyncRwLock.wakeAllTasks]
    · simp [write, last]

theorem dropGuard_state (lock : AsyncRwLock) :
    lock.dropGuard.2.state = if lock.state = 0x8000 then 0 else lock.state - 1 := by
  rcases dropGuard_cases lock with ⟨write | last, drop⟩ | ⟨read, -, drop⟩
  · rw [drop, if_pos write]
  · rw [drop, last, ite_self]
  · rw [drop, if_neg read]

section Steps

variable {lock : AsyncRwLock} {task : Nat} {old : Phase} {action : LockAction} {outcome : Outcome}
variable {readers writers active : Nat}

theorem StepKind.announced (before : Coherent lock.state readers (writers + old.isWriter.toNat) active)
    (bit : old.isWriter = true ∨ lock.state &&& 0x8000 = 0) :
    Coherent (lock.state ||| 0x8000) readers (writers + 1) active := by
  cases writer : old.isWriter with
  | true =>
    rw [writer] at before
    refine ⟨before.encodes.setWriter.congr (iff_of_true trivial (Nat.succ_pos writers)), before.oneWriter,
      before.exclusive, before.activeWriter⟩
  | false =>
    rw [writer] at before
    refine before.announce (bit.resolve_left ?_)
    rw [writer]
    exact Bool.false_ne_true

theorem StepKind.coherent (kind : StepKind lock task old action outcome) (others : active ≤ writers)
    (before : Coherent lock.state (readers + old.holdsReadGuard.toNat) (writers + old.isWriter.toNat)
      (active + old.holdsWriteGuard.toNat))
    (few : readers + outcome.phase.holdsReadGuard.toNat < 0x8000) :
    Coherent outcome.lock.state (readers + outcome.phase.holdsReadGuard.toNat)
      (writers + outcome.phase.isWriter.toNat) (active + outcome.phase.holdsWriteGuard.toNat) := by
  cases kind with
  | waits sameRead sameWriter inactive blocked =>
    simp only [Outcome.pending_phase, Outcome.pending_lock, wait_state, sameRead, sameWriter, inactive] at before ⊢
    exact before
  | acquiresRead fresh free =>
    rcases fresh with rfl | rfl
    · exact before.enterRead free few
    · exact before.enterRead free few
  | announces sameRead writer inactive free readers =>
    simp only [Outcome.pending_phase, Outcome.pending_lock, wait_state, sameRead, writer, inactive] at before ⊢
    exact before.announce free
  | acquiresWrite inactive bit alone =>
    rw [inactive] at before
    have announced := StepKind.announced before bit
    rw [alone] at announced
    cases reads : old.holdsReadGuard with
    | false =>
      rw [reads] at announced
      exact announced.activate others
    | true =>
      -- the upgrade gives up its own read guard
      rw [reads] at announced
      exact announced.leaveRead.activate others
  | downgrades => exact before.downgrade
  | drops guard =>
    rcases guard with rfl | rfl
    · change Coherent lock.dropGuard.2.state readers writers active
      rw [dropGuard_state, if_neg (before.ne_writerOnly (Nat.succ_pos readers))]
      exact before.leaveRead
    · change Coherent lock.dropGuard.2.state readers writers active
      rw [dropGuard_state, if_pos before.alone.1]
      exact before.leaveWrite

theorem StepKind.few (kind : StepKind lock task old action outcome)
    (before : Coherent lock.state (readers + old.holdsReadGuard.toNat) (writers + old.isWriter.toNat)
      (active + old.holdsWriteGuard.toNat))
    (room : ∀ blocking, action = .pollLockRead blocking → readers + old.holdsReadGuard.toNat < 0x7fff) :
    readers + outcome.phase.holdsReadGuard.toNat < 0x8000 := by
  have few := before.encodes.few
  cases kind with
  | waits sameRead | announces sameRead =>
    rw [Outcome.pending_phase, sameRead]
    exact few
  | acquiresRead fresh free =>
    have room := room _ rfl
    change readers + 1 < 0x8000
    omega
  | acquiresWrite | drops =>
    change readers + 0 < 0x8000
    omega
  | downgrades =>
    obtain rfl : readers = 0 := before.exclusive (Nat.succ_pos active)
    change 0 + 1 < 0x8000
    omega

end Steps

/-! ## Systems -/

namespace RwSystem

variable {system next : RwSystem} {task : Nat} {old : Phase} {move : Nat × LockAction}

def Fits (system : RwSystem) : Prop :=
  Coherent system.lock.state system.readGuards system.writers system.writeGuards

theorem fits_start (taskCount : Nat) : (start taskCount).Fits := by
  rw [Fits, readGuards, writers, writeGuards, start]
  simp only [List.countP_replicate]
  exact Coherent.zero

theorem step_eq_some (stepped : system.step move = some next) :
    ∃ old outcome, system.tasks[move.1]? = some old ∧ StepKind system.lock move.1 old move.2 outcome ∧
      next = system.apply move.1 outcome := by
  obtain ⟨old, found, stepped⟩ := Option.bind_eq_some_iff.mp stepped
  obtain ⟨outcome, taken, stepped⟩ := Option.bind_eq_some_iff.mp stepped
  cases stepped
  exact ⟨old, outcome, found, taskStep_kind taken, rfl⟩

def others (system : RwSystem) (task : Nat) (property : Phase → Bool) : Nat :=
  (system.tasks.eraseIdx task).countP property

theorem others_active_le (system : RwSystem) (task : Nat) :
    system.others task holdsWriteGuard ≤ system.others task isWriter := by
  apply List.countP_mono_left
  intro phase _ active
  cases phase <;> first | rfl | cases active

theorem fits_iff_others (found : system.tasks[task]? = some old) : system.Fits ↔ Coherent system.lock.state
      (system.others task holdsReadGuard + old.holdsReadGuard.toNat)
      (system.others task isWriter + old.isWriter.toNat)
      (system.others task holdsWriteGuard + old.holdsWriteGuard.toNat) := by
  simp only [Fits, readGuards, writers, writeGuards, others, countP_of_getElem? _ found]

theorem apply_fits_iff (found : system.tasks[task]? = some old) (outcome : Outcome) :
    (system.apply task outcome).Fits ↔ Coherent outcome.lock.state
      (system.others task holdsReadGuard + outcome.phase.holdsReadGuard.toNat)
      (system.others task isWriter + outcome.phase.isWriter.toNat)
      (system.others task holdsWriteGuard + outcome.phase.holdsWriteGuard.toNat) := by
  simp only [Fits, readGuards, writers, writeGuards, apply, others, countP_set_of_getElem? _ found]

theorem fits_step (fits : system.Fits) (stepped : system.step move = some next) (few : next.readGuards < 0x8000) :
    next.Fits := by
  obtain ⟨old, outcome, found, kind, rfl⟩ := step_eq_some stepped
  rw [readGuards, apply, countP_set_of_getElem? _ found] at few
  rw [apply_fits_iff found]
  exact kind.coherent (system.others_active_le move.1) ((fits_iff_others found).mp fits) few

theorem Fits.holdsGuard_eq_false (fits : system.Fits) {writer other : Nat} {phase : Phase} (different : writer ≠ other)
    (found : system.tasks[writer]? = some .writeGuard) (otherFound : system.tasks[other]? = some phase) :
    phase.holdsGuard = false := by
  have active : 0 < system.writeGuards := countP_pos_of_getElem? found rfl
  have noReaders : system.readGuards = 0 := fits.exclusive active
  cases guard : phase.holdsGuard with
  | false => rfl
  | true =>
    rw [holdsGuard, Bool.or_eq_true] at guard
    rcases guard with reads | writes
    · have positive : 0 < system.readGuards := countP_pos_of_getElem? otherFound reads
      omega
    have two : 2 ≤ system.writers := by
      refine two_le_countP found rfl otherFound ?_ different
      cases phase <;> first | rfl | cases writes
    have one := fits.oneWriter
    omega

/-- In every run with fewer than 32768 readers, a write guard excludes every other guard, and the lock word counts the
read guards and shows whether a writer has announced itself or is active. -/
theorem rwLock_excludes (taskCount : Nat) (moves : List (Nat × LockAction)) (system : RwSystem)
    (few : EachState step (fun state => state.readGuards < 32768) (start taskCount) moves)
    (run : runs step (start taskCount) moves = some system) :
    (∀ (writer other : Nat) (phase : Phase), writer ≠ other → system.tasks[writer]? = some .writeGuard →
      system.tasks[other]? = some phase → phase.holdsGuard = false) ∧
    system.lock.state.toNat % 0x8000 = system.readGuards ∧ (0x8000 ≤ system.lock.state.toNat ↔ 0 < system.writers) := by
  have fits : system.Fits := by
    refine runs_keeps_while Fits ?_ few.steps run (fits_start taskCount)
    intro state move next fits allowed stepped
    exact fits_step fits stepped (allowed next stepped)
  refine ⟨?_, fits.encodes.readers_eq, fits.encodes.writer_iff⟩
  intro writer other phase different found otherFound
  exact fits.holdsGuard_eq_false different found otherFound

def readerThenWriter : List (Nat × LockAction) :=
  [(0, .pollLockRead false), (1, .pollLockWrite false), (0, .drop), (1, .pollLockWrite false), (1, .downgrade),
    (1, .pollUpgrade false)]

theorem rwLock_excludes_readerThenWriter :
    ∃ system, runs step (start 2) readerThenWriter = some system ∧ system.tasks = [.idle, .writeGuard] ∧
      system.lock.state.toNat % 0x8000 = system.readGuards ∧ (0x8000 ≤ system.lock.state.toNat ↔ 0 < system.writers) :=
  ⟨_, rfl, rfl, (rwLock_excludes 2 readerThenWriter _ (by decide) rfl).2⟩

/-! ## Wake-ups -/

/-- The step does not drop the last read guard under a waiting writer, and does not overflow the reader count. -/
def WakesWaiters (system : RwSystem) (move : Nat × LockAction) : Prop :=
  match move.2 with
  | .pollLockRead _ => system.readGuards < 32767
  | .drop => system.tasks[move.1]? = some .readGuard → system.lock.state ≠ 0x8001
  | _ => True

/-- Sleeping tasks are queued, and as long as there is one, or an announced writer, there is a guard. -/
structure Attended (system : RwSystem) : Prop where
  fits : system.Fits
  queued : ∀ task, system.asleep task = true → task ∈ system.lock.wakers
  guarded : ∀ task, system.asleep task = true → 0 < system.readGuards + system.writeGuards
  announced : 0 < system.writers → 0 < system.readGuards + system.writeGuards

theorem attended_start (taskCount : Nat) : (start taskCount).Attended := by
  refine ⟨fits_start taskCount, fun _ asleep => absurd asleep Bool.false_ne_true,
    fun _ asleep => absurd asleep Bool.false_ne_true, ?_⟩
  intro announced
  rw [writers, start, List.countP_replicate] at announced
  exact absurd announced (Nat.lt_irrefl 0)

end RwSystem

variable {lock : AsyncRwLock} {cx : Context} {task : Nat} {old : Phase} {action : LockAction} {outcome : Outcome}

theorem mem_wait (queued : task ∈ lock.wakers) : task ∈ (lock.wait cx).wakers := by
  rw [AsyncRwLock.wait]
  split
  · exact queued
  · exact .tail _ queued

theorem waker_mem_wait (sleeps : (!cx.isBlockingTask) = true) : cx.waker ∈ (lock.wait cx).wakers := by
  have executor : cx.isBlockingTask = false := by simpa using sleeps
  rw [AsyncRwLock.wait, executor]
  exact .head _

/-- A waker leaves the queue only by being invoked, and a task that is put to sleep is in the queue. -/
theorem StepKind.queue (kind : StepKind lock task old action outcome) :
    (∀ other ∈ lock.wakers, other ∈ outcome.woken ∨ other ∈ outcome.lock.wakers) ∧
      (outcome.sleeps = true → task ∈ outcome.lock.wakers) := by
  cases kind with
  | waits | announces => exact ⟨fun other queued => .inr (mem_wait queued), waker_mem_wait⟩
  | acquiresRead | acquiresWrite => exact ⟨fun other queued => .inr queued, nofun⟩
  | downgrades => exact ⟨fun other queued => .inl queued, nofun⟩
  | drops guard =>
    refine ⟨fun other queued => ?_, nofun⟩
    rcases dropGuard_cases lock with ⟨-, drop⟩ | ⟨-, -, drop⟩
    · rw [drop]
      exact .inl queued
    · rw [drop]
      exact .inr queued

theorem StepKind.attends
    {readers writers active : Nat} (kind : StepKind lock task old action outcome)
    (before : Coherent lock.state (readers + old.holdsReadGuard.toNat) (writers + old.isWriter.toNat)
      (active + old.holdsWriteGuard.toNat))
    (announced : 0 < writers + old.isWriter.toNat →
      0 < readers + old.holdsReadGuard.toNat + (active + old.holdsWriteGuard.toNat))
    (wakes : action = .drop → old = .readGuard → lock.state ≠ 0x8001) :
    0 < readers + outcome.phase.holdsReadGuard.toNat + (active + outcome.phase.holdsWriteGuard.toNat) ∨
      outcome.woken = lock.wakers ∧ outcome.sleeps = false ∧ writers + outcome.phase.isWriter.toNat = 0 := by
  have encodes := before.encodes
  cases kind with
  | waits sameRead sameWriter inactive blocked =>
    left
    rw [Outcome.pending_phase, sameRead, inactive.2, ← inactive.1]
    apply announced
    rcases blocked with bit | writer
    · exact encodes.writerBit_iff.mp bit
    · rw [writer]
      exact Nat.succ_pos writers
  | acquiresRead | downgrades =>
    left
    change 0 < readers + 1 + (active + 0)
    omega
  | announces sameRead writer inactive free others =>
    left
    rw [Outcome.pending_phase, sameRead]
    cases reads : old.holdsReadGuard with
    | true =>
      change 0 < readers + 1 + _
      omega
    | false =>
      have others := others reads
      rw [Ne, encodes.setWriter.eq_iff, if_pos trivial, reads] at others
      have target : (0x8000 : UInt16).toNat = 0x8000 := rfl
      omega
  | acquiresWrite =>
    left
    change 0 < readers + 0 + (active + 1)
    omega
  | drops guard =>
    rcases guard with rfl | rfl
    · -- the last reader: no writer is announced, so the word becomes zero
      by_cases more : 0 < readers
      · left
        omega
      right
      obtain rfl : readers = 0 := by omega
      change Encodes lock.state 1 (0 < writers) at encodes
      have noWriter : ¬ 0 < writers := by
        intro writer
        refine wakes rfl rfl ((encodes.eq_iff _).mpr ?_)
        rw [if_pos writer]
        rfl
      have one : lock.state = 1 := by
        rw [encodes.eq_iff, if_neg noWriter]
        rfl
      rcases dropGuard_cases lock with ⟨-, drop⟩ | ⟨-, more, -⟩
      · rw [drop]
        exact ⟨rfl, rfl, by change writers + 0 = 0; omega⟩
      · rw [one] at more
        exact absurd rfl more
    · right
      obtain ⟨alone, -, rfl, -⟩ := before.alone
      rcases dropGuard_cases lock with ⟨-, drop⟩ | ⟨read, -, -⟩
      · rw [drop]
        exact ⟨rfl, rfl, rfl⟩
      · exact absurd alone read

namespace RwSystem

variable {system next : RwSystem} {task : Nat} {old : Phase} {move : Nat × LockAction}

theorem apply_asleep {outcome : Outcome} {other : Nat} (asleep : (system.apply task outcome).asleep other = true) :
    (other = task ∧ outcome.sleeps = true) ∨ (other ∉ outcome.woken ∧ system.asleep other = true) := by
  by_cases self : other = task
  · simp only [apply, self, if_true] at asleep
    exact .inl ⟨self, asleep⟩
  · simp only [apply, self, if_false, Bool.and_eq_true, Bool.not_eq_true', List.contains_eq_mem,
      decide_eq_false_iff_not] at asleep
    exact .inr asleep

theorem attended_step (attended : system.Attended) (wakes : system.WakesWaiters move)
    (stepped : system.step move = some next) : next.Attended := by
  obtain ⟨old, outcome, found, kind, rfl⟩ := step_eq_some stepped
  have before := (fits_iff_others found).mp attended.fits
  have announced := attended.announced
  have readGuards : system.readGuards = _ := countP_of_getElem? holdsReadGuard found
  have writers : system.writers = _ := countP_of_getElem? isWriter found
  have writeGuards : system.writeGuards = _ := countP_of_getElem? holdsWriteGuard found
  have room : ∀ blocking, move.2 = .pollLockRead blocking →
      system.others move.1 holdsReadGuard + old.holdsReadGuard.toNat < 0x7fff := by
    intro blocking poll
    rw [WakesWaiters, poll] at wakes
    rwa [readGuards] at wakes
  have last : move.2 = .drop → old = .readGuard → system.lock.state ≠ 0x8001 := by
    rintro drop rfl
    rw [WakesWaiters, drop] at wakes
    exact wakes found
  rw [readGuards, writers, writeGuards] at announced
  have attends := kind.attends before announced last
  obtain ⟨queued, sleeper⟩ := kind.queue
  have fits := kind.coherent (system.others_active_le move.1) before (kind.few before room)
  have newGuards : (system.apply move.1 outcome).readGuards + (system.apply move.1 outcome).writeGuards = _ :=
    congrArg₂ (· + ·) (countP_set_of_getElem? holdsReadGuard found outcome.phase)
      (countP_set_of_getElem? holdsWriteGuard found outcome.phase)
  have newWriters : (system.apply move.1 outcome).writers = _ :=
    countP_set_of_getElem? isWriter found outcome.phase
  refine ⟨(apply_fits_iff found outcome).mpr fits, ?_, ?_, ?_⟩
  · intro other asleep
    rcases apply_asleep asleep with ⟨rfl, sleeps⟩ | ⟨notWoken, asleep⟩
    · exact sleeper sleeps
    · exact (queued other (attended.queued other asleep)).resolve_left notWoken
  · intro other asleep
    rw [newGuards]
    rcases attends with guarded | ⟨woken, running, -⟩
    · exact guarded
    -- everybody in the queue was woken, and the task itself runs
    rcases apply_asleep asleep with ⟨-, sleeps⟩ | ⟨notWoken, asleep⟩
    · rw [running] at sleeps
      cases sleeps
    · rw [woken] at notWoken
      exact absurd (attended.queued other asleep) notWoken
  · intro announced
    rw [newGuards]
    rcases attends with guarded | ⟨-, -, none⟩
    · exact guarded
    · rw [newWriters] at announced
      exact absurd none (Nat.ne_of_gt announced)

/-- In every run that never drops the last read guard under a waiting writer and never has more than 32767 readers,
no task is left asleep while nobody holds a guard. -/
theorem rwLock_wakes (taskCount : Nat) (moves : List (Nat × LockAction)) (system : RwSystem)
    (wakes : EachStep step WakesWaiters (start taskCount) moves)
    (run : runs step (start taskCount) moves = some system) (task : Nat) (asleep : system.asleep task = true) :
    ∃ phase ∈ system.tasks, phase.holdsGuard = true := by
  have attended : system.Attended :=
    runs_keeps_while Attended attended_step wakes run (attended_start taskCount)
  have guarded := attended.guarded task asleep
  by_cases reads : 0 < system.readGuards
  · obtain ⟨phase, member, holds⟩ := List.countP_pos_iff.mp reads
    exact ⟨phase, member, by rw [holdsGuard, holds, Bool.true_or]⟩
  · have writes : 0 < system.writeGuards := by omega
    obtain ⟨phase, member, holds⟩ := List.countP_pos_iff.mp writes
    exact ⟨phase, member, by rw [holdsGuard, holds, Bool.or_true]⟩

instance (system : RwSystem) : DecidablePred system.WakesWaiters
  | (_, .pollLockRead _) => inferInstanceAs (Decidable (_ < _))
  | (_, .drop) => inferInstanceAs (Decidable (_ → _))
  | (_, .pollLockWrite _) | (_, .pollUpgrade _) | (_, .downgrade) => inferInstanceAs (Decidable True)

theorem rwLock_wakes_reader :
    ∃ system, runs step (start 2) [(0, .pollLockWrite false), (1, .pollLockRead false)] = some system ∧
      system.asleep 1 = true ∧ ∃ phase ∈ system.tasks, phase.holdsGuard = true :=
  ⟨_, rfl, rfl, rwLock_wakes 2 [(0, .pollLockWrite false), (1, .pollLockRead false)] _ (by decide) rfl 1 rfl⟩

/-- A writer waits for a reader, the reader drops its guard, and nobody wakes the writer. -/
theorem rwLock_loses_wakeup :
    ∃ system, runs step (start 2) [(0, .pollLockRead false), (1, .pollLockWrite false), (0, .drop)] = some system ∧
      system.asleep 1 = true ∧ ¬ ∃ phase ∈ system.tasks, phase.holdsGuard = true :=
  ⟨_, rfl, rfl, by decide⟩

end RwSystem

end MeowOs.Sync
