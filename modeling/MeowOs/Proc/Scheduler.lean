import MeowOs.Machine.Interleaving
import MeowOs.Machine.SwapRemove

/-! # The process scheduler

`scheduler.rs`: the table of processes, and the three lists a process may be in.
Every call holds the lock of the scheduler; `set_sleeping(true)` is a single
store by the process that runs.

`Phase` is the life of one process as its users think of it, and
`step_simulates` shows that every call moves one process along that life and
leaves the others where they are.
-/

namespace MeowOs.Proc

open MeowOs.Machine
open Function (update update_of_ne update_self)

abbrev Pid := Nat

structure ProcessData where
  sleeping : Bool
  deriving DecidableEq

structure Scheduler where
  tasks : Pid → Option ProcessData
  sleepingTasks : List Pid
  activeTasks : List (Pid × Nat)
  readyToRun : List Pid

namespace Scheduler

def new : Scheduler := ⟨fun _ => none, [], [], []⟩

def acceptNewProcess (pid : Pid) (process : ProcessData) (scheduler : Scheduler) : Scheduler :=
  { scheduler with
    tasks := update scheduler.tasks pid (some process)
    readyToRun := scheduler.readyToRun ++ [pid] }

/-- `ProcessData::set_sleeping` through the `Arc` of the process, which outlives its entry in the table. -/
def setSleeping (pid : Pid) (sleeping : Bool) (scheduler : Scheduler) : Scheduler :=
  { scheduler with
    tasks := update scheduler.tasks pid ((scheduler.tasks pid).map fun _ => ⟨sleeping⟩) }

/-- Returns the process, if it was in the table.  One that is running stays in the list of the running ones. -/
def removeProcess (pid : Pid) (scheduler : Scheduler) : Option ProcessData × Scheduler :=
  (scheduler.tasks pid, { scheduler with
      sleepingTasks := swapRemoveFirst (· == pid) scheduler.sleepingTasks
      readyToRun := swapRemoveFirst (· == pid) scheduler.readyToRun
      tasks := update scheduler.tasks pid none })

def wakeProc (pid : Pid) (scheduler : Scheduler) : Scheduler :=
  let known := (scheduler.tasks pid).isSome
  let scheduler := scheduler.setSleeping pid false
  if pid ∈ scheduler.sleepingTasks then
    let scheduler := { scheduler with sleepingTasks := swapRemoveFirst (· == pid) scheduler.sleepingTasks }
    if known then { scheduler with readyToRun := scheduler.readyToRun ++ [pid] }
    else (scheduler.removeProcess pid).2
  else scheduler

/-- Returns the process that `cpu` runs next. -/
def schedule (cpu : Nat) (scheduler : Scheduler) : Option Pid × Scheduler :=
  match scheduler.readyToRun with
  | [] => (none, scheduler)
  | pid :: rest =>
    let scheduler := { scheduler with readyToRun := rest }
    if (scheduler.tasks pid).isSome then
      (some pid, { scheduler with activeTasks := scheduler.activeTasks ++ [(pid, cpu)] })
    else (none, scheduler)

def active (scheduler : Scheduler) : List Pid := scheduler.activeTasks.map Prod.fst

def releaseProcess (pid : Pid) (scheduler : Scheduler) : Scheduler :=
  let scheduler :=
    if pid ∈ scheduler.active then
      { scheduler with activeTasks := swapRemoveFirst (·.1 == pid) scheduler.activeTasks }
    else (scheduler.removeProcess pid).2
  match scheduler.tasks pid with
  | none => scheduler
  | some process =>
    if process.sleeping then { scheduler with sleepingTasks := scheduler.sleepingTasks ++ [pid] }
    else { scheduler with readyToRun := scheduler.readyToRun ++ [pid] }

/-- In how many places of the three lists the process is. -/
def places (scheduler : Scheduler) (pid : Pid) : Nat :=
  scheduler.readyToRun.count pid + scheduler.active.count pid + scheduler.sleepingTasks.count pid

def Live (scheduler : Scheduler) (pid : Pid) : Prop := (scheduler.tasks pid).isSome

end Scheduler

/-! ## The life of a process -/

inductive Phase where
  | unknown
  | ready
  /-- On a CPU; `asleep` once it has announced to sleep and nobody has woken it. -/
  | running (asleep : Bool)
  | sleeping
  | killed
  | gone
  deriving DecidableEq

inductive Event where
  | accepted
  | scheduled
  | sleeps
  | woken
  | released
  | removed
  deriving DecidableEq

namespace Phase

/-- Where an event leads, and where it is possible. -/
def after : Event → Phase → Option Phase
  | .accepted, .unknown => some .ready
  | .accepted, _ => none
  | .scheduled, .ready => some (.running false)
  | .scheduled, _ => none
  | .sleeps, .running _ => some (.running true)
  | .sleeps, .killed => some .killed
  | .sleeps, _ => none
  | .woken, .running _ => some (.running false)
  | .woken, .sleeping => some .ready
  | .woken, phase => some phase
  | .released, .running true => some .sleeping
  | .released, .running false => some .ready
  | .released, .killed => some .gone
  | .released, _ => none
  | .removed, .ready | .removed, .sleeping => some .gone
  | .removed, .running _ => some .killed
  | .removed, phase => some phase

def task : Phase → Option ProcessData
  | .ready => some ⟨false⟩
  | .running asleep => some ⟨asleep⟩
  | .sleeping => some ⟨true⟩
  | .unknown | .killed | .gone => none

def ready? : Phase → Nat
  | .ready => 1
  | _ => 0

def active? : Phase → Nat
  | .running _ | .killed => 1
  | _ => 0

def sleeping? : Phase → Nat
  | .sleeping => 1
  | _ => 0

theorem awake_after {event : Event} {phase next : Phase} (awake : phase.task ≠ some ⟨true⟩) (moved : after event phase = some next)
    (quiet : event ≠ .sleeps) : next.task ≠ some ⟨true⟩ := by
  cases event with
  | sleeps => exact absurd rfl quiet
  | released =>
    cases phase with
    | running asleep =>
      cases asleep with
      | true => exact absurd rfl awake
      | false => cases moved; decide
    | _ => cases moved <;> decide
  | accepted | scheduled | woken | removed => cases phase <;> cases moved <;> decide

theorem awake_of_woken {phase next : Phase} (moved : after .woken phase = some next) : next.task ≠ some ⟨true⟩ := by
  cases phase <;> cases moved <;> decide

end Phase

structure Shows (scheduler : Scheduler) (pid : Pid) (phase : Phase) : Prop where
  task : scheduler.tasks pid = phase.task
  ready : scheduler.readyToRun.count pid = phase.ready?
  active : scheduler.active.count pid = phase.active?
  sleeping : scheduler.sleepingTasks.count pid = phase.sleeping?

/-- All processes but one are shown as before. -/
structure Frame (scheduler next : Scheduler) (pid : Pid) : Prop where
  task : ∀ other, other ≠ pid → next.tasks other = scheduler.tasks other
  ready : ∀ other, other ≠ pid → next.readyToRun.count other = scheduler.readyToRun.count other
  active : ∀ other, other ≠ pid → next.active.count other = scheduler.active.count other
  sleeping : ∀ other, other ≠ pid → next.sleepingTasks.count other = scheduler.sleepingTasks.count other

structure Moves (scheduler next : Scheduler) (pid : Pid) (event : Event) : Prop where
  moved : ∀ phase phase', Shows scheduler pid phase → Phase.after event phase = some phase' → Shows next pid phase'
  frame : Frame scheduler next pid

namespace Frame

variable {scheduler middle next : Scheduler} {pid other : Pid} {phase : Phase}

theorem shows (frame : Frame scheduler next pid) (different : other ≠ pid) (shown : Shows scheduler other phase) :
    Shows next other phase where
  task := (frame.task other different).trans shown.task
  ready := (frame.ready other different).trans shown.ready
  active := (frame.active other different).trans shown.active
  sleeping := (frame.sleeping other different).trans shown.sleeping

theorem trans (first : Frame scheduler middle pid) (second : Frame middle next pid) : Frame scheduler next pid where
  task other different := (second.task other different).trans (first.task other different)
  ready other different := (second.ready other different).trans (first.ready other different)
  active other different := (second.active other different).trans (first.active other different)
  sleeping other different := (second.sleeping other different).trans (first.sleeping other different)

end Frame

section Counts

variable {pid other : Pid} {l : List Pid}

@[simp] theorem count_push_self : (l ++ [pid]).count pid = l.count pid + 1 := by
  rw [List.count_append, List.count_singleton_self]

theorem count_push_other (different : other ≠ pid) : (l ++ [pid]).count other = l.count other := by
  rw [List.count_append, List.count_singleton, beq_false_of_ne different.symm, if_neg Bool.false_ne_true, Nat.add_zero]

@[simp] theorem count_drop_self : (swapRemoveFirst (· == pid) l).count pid = l.count pid - 1 := by
  rw [count_swapRemoveFirst, if_pos rfl]

theorem count_drop_other (different : other ≠ pid) : (swapRemoveFirst (· == pid) l).count other = l.count other := by
  rw [count_swapRemoveFirst, if_neg different.symm, Nat.sub_zero]

end Counts

namespace Scheduler

variable (pid : Pid) (scheduler : Scheduler)

/-! ## What the calls do -/

theorem pushReady_frame : Frame scheduler { scheduler with readyToRun := scheduler.readyToRun ++ [pid] } pid :=
  ⟨fun _ _ => rfl, fun _ different => count_push_other different, fun _ _ => rfl, fun _ _ => rfl⟩

theorem pushSleeping_frame : Frame scheduler { scheduler with sleepingTasks := scheduler.sleepingTasks ++ [pid] } pid :=
  ⟨fun _ _ => rfl, fun _ _ => rfl, fun _ _ => rfl, fun _ different => count_push_other different⟩

theorem acceptNewProcess_moves : Moves scheduler (scheduler.acceptNewProcess pid ⟨false⟩) pid .accepted where
  moved phase phase' shown moved := by
    cases phase <;> cases moved
    exact ⟨update_self pid _ _, count_push_self.trans (congrArg (· + 1) shown.ready), shown.active, shown.sleeping⟩
  frame := ⟨fun _ different => update_of_ne different _ _, fun _ different => count_push_other different,
    fun _ _ => rfl, fun _ _ => rfl⟩

theorem setSleeping_frame (sleeping : Bool) : Frame scheduler (scheduler.setSleeping pid sleeping) pid :=
  ⟨fun _ different => update_of_ne different _ _, fun _ _ => rfl, fun _ _ => rfl, fun _ _ => rfl⟩

theorem setSleeping_task (sleeping : Bool) :
    (scheduler.setSleeping pid sleeping).tasks pid = (scheduler.tasks pid).map fun _ => ⟨sleeping⟩ :=
  update_self pid _ _

theorem setSleeping_moves : Moves scheduler (scheduler.setSleeping pid true) pid .sleeps where
  moved phase phase' shown moved := by
    have task := setSleeping_task pid scheduler true
    rw [shown.task] at task
    cases phase <;> cases moved
    all_goals exact ⟨task, shown.ready, shown.active, shown.sleeping⟩
  frame := setSleeping_frame pid scheduler true

theorem removeProcess_frame : Frame scheduler (scheduler.removeProcess pid).2 pid :=
  ⟨fun _ different => update_of_ne different _ _, fun _ different => count_drop_other different,
    fun _ _ => rfl, fun _ different => count_drop_other different⟩

theorem removeProcess_moves : Moves scheduler (scheduler.removeProcess pid).2 pid .removed where
  moved phase phase' shown moved := by
    have task : (scheduler.removeProcess pid).2.tasks pid = none := update_self pid _ _
    have ready : (scheduler.removeProcess pid).2.readyToRun.count pid = phase.ready? - 1 :=
      count_drop_self.trans (congrArg (· - 1) shown.ready)
    have sleeping : (scheduler.removeProcess pid).2.sleepingTasks.count pid = phase.sleeping? - 1 :=
      count_drop_self.trans (congrArg (· - 1) shown.sleeping)
    cases phase <;> cases moved <;> exact ⟨task, ready, shown.active, sleeping⟩
  frame := removeProcess_frame pid scheduler

theorem wakeProc_frame : Frame scheduler (scheduler.wakeProc pid) pid := by
  have stored := setSleeping_frame pid scheduler false
  rw [wakeProc]
  split
  · have dropped : Frame (scheduler.setSleeping pid false)
        { scheduler.setSleeping pid false with
          sleepingTasks := swapRemoveFirst (· == pid) (scheduler.setSleeping pid false).sleepingTasks } pid :=
      ⟨fun _ _ => rfl, fun _ _ => rfl, fun _ _ => rfl, fun _ different => count_drop_other different⟩
    split
    · exact (stored.trans dropped).trans (pushReady_frame pid _)
    · exact (stored.trans dropped).trans (removeProcess_frame pid _)
  · exact stored

theorem wakeProc_moves : Moves scheduler (scheduler.wakeProc pid) pid .woken where
  moved phase phase' shown moved := by
    have task := setSleeping_task pid scheduler false
    rw [shown.task] at task
    have known : (scheduler.tasks pid).isSome = phase.task.isSome := by rw [shown.task]
    -- only a sleeping process is found in the list
    have found : pid ∈ (scheduler.setSleeping pid false).sleepingTasks ↔ 0 < phase.sleeping? := by
      rw [← shown.sleeping]
      exact List.count_pos_iff.symm
    simp only [wakeProc, found, known]
    cases phase with
    | sleeping =>
      cases moved
      exact ⟨task, count_push_self.trans (congrArg (· + 1) shown.ready), shown.active,
        count_drop_self.trans (congrArg (· - 1) shown.sleeping)⟩
    | _ =>
      cases moved
      exact ⟨task, shown.ready, shown.active, shown.sleeping⟩
  frame := wakeProc_frame pid scheduler

theorem releaseProcess_moves (running : pid ∈ scheduler.active) :
    Moves scheduler (scheduler.releaseProcess pid) pid .released := by
  let dropped : Scheduler :=
    { scheduler with activeTasks := swapRemoveFirst (·.1 == pid) scheduler.activeTasks }
  have count (other : Pid) : dropped.active.count other = scheduler.active.count other - if pid = other then 1 else 0 :=
    count_map_swapRemoveFirst Prod.fst pid other scheduler.activeTasks
  have body : scheduler.releaseProcess pid = match dropped.tasks pid with
      | none => dropped
      | some process =>
        if process.sleeping then { dropped with sleepingTasks := dropped.sleepingTasks ++ [pid] }
        else { dropped with readyToRun := dropped.readyToRun ++ [pid] } := by
    rw [releaseProcess, if_pos running]
  have left : Frame scheduler dropped pid := by
    refine ⟨fun _ _ => rfl, fun _ _ => rfl, fun other different => ?_, fun _ _ => rfl⟩
    rw [count, if_neg different.symm, Nat.sub_zero]
  rw [body]
  constructor
  · intro phase phase' shown moved
    have active : dropped.active.count pid = phase.active? - 1 := by rw [count, if_pos rfl, shown.active]
    have task : dropped.tasks pid = phase.task := shown.task
    rw [task]
    cases phase with
    | running asleep =>
      cases asleep with
      | true =>
        cases moved
        exact ⟨task, shown.ready, active, count_push_self.trans (congrArg (· + 1) shown.sleeping)⟩
      | false =>
        cases moved
        exact ⟨task, count_push_self.trans (congrArg (· + 1) shown.ready), active, shown.sleeping⟩
    | killed =>
      cases moved
      exact ⟨task, shown.ready, active, shown.sleeping⟩
    | _ => cases moved
  · split
    · exact left
    · split
      · exact left.trans (pushSleeping_frame pid dropped)
      · exact left.trans (pushReady_frame pid dropped)

theorem schedule_moves {rest : List Pid} (cpu : Nat) (first : scheduler.readyToRun = pid :: rest)
    (known : (scheduler.tasks pid).isSome) : Moves scheduler (scheduler.schedule cpu).2 pid .scheduled := by
  have body : (scheduler.schedule cpu).2 =
      { scheduler with readyToRun := rest, activeTasks := scheduler.activeTasks ++ [(pid, cpu)] } := by
    simp [schedule, first, known]
  have active : (scheduler.schedule cpu).2.active = scheduler.active ++ [pid] := by
    rw [body, Scheduler.active, List.map_append]
    rfl
  have ready (other : Pid) : scheduler.readyToRun.count other = rest.count other + if pid = other then 1 else 0 := by
    rw [first, List.count_cons]
    simp
  constructor
  · intro phase phase' shown moved
    cases phase <;> cases moved
    have one := (ready pid).symm.trans shown.ready
    rw [if_pos rfl] at one
    refine ⟨by rw [body]; exact shown.task, ?_, ?_, by rw [body]; exact shown.sleeping⟩
    · rw [body]
      exact Nat.succ.inj one
    · rw [active]
      exact count_push_self.trans (congrArg (· + 1) shown.active)
  · refine ⟨fun _ _ => by rw [body], fun other different => ?_, fun other different => ?_, fun _ _ => by rw [body]⟩
    · rw [ready, if_neg different.symm, body, Nat.add_zero]
    · rw [active, count_push_other different]

end Scheduler

/-! ## Runs -/

structure SchedulerSystem where
  scheduler : Scheduler
  used : List Pid

inductive SchedulerCall where
  | acceptNewProcess (pid : Pid)
  | schedule (cpu : Nat)
  | releaseProcess (pid : Pid)
  | setSleeping (pid : Pid)
  | wakeProc (pid : Pid)
  | removeProcess (pid : Pid)
  deriving DecidableEq

namespace SchedulerSystem

def new : SchedulerSystem := ⟨.new, []⟩

/-- A new process has a fresh pid and is awake; only a running process is released or announces to sleep. -/
def step (system : SchedulerSystem) : SchedulerCall → Option SchedulerSystem
  | .acceptNewProcess pid =>
    if pid ∈ system.used then none
    else some ⟨system.scheduler.acceptNewProcess pid ⟨false⟩, pid :: system.used⟩
  | .schedule cpu => some { system with scheduler := (system.scheduler.schedule cpu).2 }
  | .releaseProcess pid =>
    if pid ∈ system.scheduler.active then some { system with scheduler := system.scheduler.releaseProcess pid }
    else none
  | .setSleeping pid =>
    if pid ∈ system.scheduler.active then some { system with scheduler := system.scheduler.setSleeping pid true }
    else none
  | .wakeProc pid => some { system with scheduler := system.scheduler.wakeProc pid }
  | .removeProcess pid => some { system with scheduler := (system.scheduler.removeProcess pid).2 }

/-- The processes are shown in these phases, and fresh pids are unknown. -/
structure Follows (system : SchedulerSystem) (phases : Pid → Phase) : Prop where
  shown : ∀ pid, Shows system.scheduler pid (phases pid)
  fresh : ∀ pid, pid ∉ system.used → phases pid = .unknown

theorem Follows.new : Follows new fun _ => .unknown := ⟨fun _ => ⟨rfl, rfl, rfl, rfl⟩, fun _ _ => rfl⟩

def eventOf (system : SchedulerSystem) : SchedulerCall → Option (Pid × Event)
  | .acceptNewProcess pid => some (pid, .accepted)
  | .schedule _ => system.scheduler.readyToRun.head?.map fun pid => (pid, .scheduled)
  | .releaseProcess pid => some (pid, .released)
  | .setSleeping pid => some (pid, .sleeps)
  | .wakeProc pid => some (pid, .woken)
  | .removeProcess pid => some (pid, .removed)

inductive Advances (phases : Pid → Phase) : Option (Pid × Event) → (Pid → Phase) → Prop where
  | idle : Advances phases none phases
  | move {pid : Pid} {event : Event} {phase : Phase} (possible : Phase.after event (phases pid) = some phase) :
      Advances phases (some (pid, event)) (update phases pid phase)

variable {system next finish : SchedulerSystem} {phases : Pid → Phase} {pid : Pid} {call : SchedulerCall}
  {actions : List SchedulerCall}

section

variable (follows : Follows system phases)

include follows

theorem Follows.move {next : Scheduler} {event : Event} {phase : Phase}
    (moves : Moves system.scheduler next pid event) (possible : Phase.after event (phases pid) = some phase)
    {used : List Pid} (fresh : ∀ other, other ∉ used → other ∉ system.used ∧ (other = pid → event ≠ .accepted)) :
    Follows ⟨next, used⟩ (update phases pid phase) where
  shown other := by
    by_cases same : other = pid
    · subst same
      rw [update_self]
      exact moves.moved _ _ (follows.shown other) possible
    · rw [update_of_ne same]
      exact moves.frame.shows same (follows.shown other)
  fresh other unused := by
    obtain ⟨unused, notAccepted⟩ := fresh other unused
    by_cases same : other = pid
    · subst same
      rw [update_self]
      rw [follows.fresh other unused] at possible
      cases event with
      | accepted => exact absurd rfl (notAccepted rfl)
      | woken | removed => exact (Option.some.inj possible).symm
      | scheduled | sleeps | released => cases possible
    · rw [update_of_ne same]
      exact follows.fresh other unused

theorem Follows.running
    (active : pid ∈ system.scheduler.active) : (∃ asleep, phases pid = .running asleep) ∨ phases pid = .killed := by
  have count := List.count_pos_iff.mpr active
  rw [(follows.shown pid).active] at count
  cases phase : phases pid with
  | running asleep => exact .inl ⟨asleep, rfl⟩
  | killed => exact .inr rfl
  | _ =>
    rw [phase] at count
    cases count

theorem Follows.ready
    (listed : pid ∈ system.scheduler.readyToRun) : phases pid = .ready := by
  have count := List.count_pos_iff.mpr listed
  rw [(follows.shown pid).ready] at count
  cases phase : phases pid with
  | ready => rfl
  | _ =>
    rw [phase] at count
    cases count

theorem step_simulates (stepped : system.step call = some next) :
    ∃ phases', Advances phases (system.eventOf call) phases' ∧ Follows next phases' := by
  cases call with
  | acceptNewProcess pid =>
    obtain ⟨unused, stepped⟩ := Option.ite_none_left_eq_some.mp stepped
    cases stepped
    have possible : Phase.after .accepted (phases pid) = some .ready := by rw [follows.fresh pid unused]; rfl
    refine ⟨_, .move possible, follows.move (system.scheduler.acceptNewProcess_moves pid) possible fun other outside => ?_⟩
    rw [List.mem_cons, not_or] at outside
    exact ⟨outside.2, fun same => absurd same outside.1⟩
  | schedule cpu =>
    cases stepped
    cases listed : system.scheduler.readyToRun with
    | nil =>
      have same : (system.scheduler.schedule cpu).2 = system.scheduler := by simp only [Scheduler.schedule, listed]
      rw [eventOf, listed, same]
      exact ⟨phases, .idle, follows⟩
    | cons pid rest =>
      have ready := follows.ready (listed ▸ List.mem_cons_self)
      have known : (system.scheduler.tasks pid).isSome := by rw [(follows.shown pid).task, ready]; rfl
      have possible : Phase.after .scheduled (phases pid) = some (.running false) := by rw [ready]; rfl
      rw [eventOf, listed]
      exact ⟨_, .move possible, follows.move (system.scheduler.schedule_moves pid cpu listed known) possible (by simp)⟩
  | releaseProcess pid =>
    obtain ⟨active, stepped⟩ := Option.ite_none_right_eq_some.mp stepped
    cases stepped
    obtain ⟨phase, possible⟩ : ∃ phase, Phase.after .released (phases pid) = some phase := by
      obtain ⟨asleep, phase⟩ | phase := follows.running active <;> rw [phase]
      · cases asleep <;> exact ⟨_, rfl⟩
      · exact ⟨_, rfl⟩
    exact ⟨_, .move possible, follows.move (system.scheduler.releaseProcess_moves pid active) possible (by simp)⟩
  | setSleeping pid =>
    obtain ⟨active, stepped⟩ := Option.ite_none_right_eq_some.mp stepped
    cases stepped
    obtain ⟨phase, possible⟩ : ∃ phase, Phase.after .sleeps (phases pid) = some phase := by
      obtain ⟨asleep, phase⟩ | phase := follows.running active <;> rw [phase]
      all_goals exact ⟨_, rfl⟩
    exact ⟨_, .move possible, follows.move (system.scheduler.setSleeping_moves pid) possible (by simp)⟩
  | wakeProc pid =>
    cases stepped
    obtain ⟨phase, possible⟩ : ∃ phase, Phase.after .woken (phases pid) = some phase := by
      cases phases pid <;> exact ⟨_, rfl⟩
    exact ⟨_, .move possible, follows.move (system.scheduler.wakeProc_moves pid) possible (by simp)⟩
  | removeProcess pid =>
    cases stepped
    obtain ⟨phase, possible⟩ : ∃ phase, Phase.after .removed (phases pid) = some phase := by
      cases phases pid <;> exact ⟨_, rfl⟩
    exact ⟨_, .move possible, follows.move (system.scheduler.removeProcess_moves pid) possible (by simp)⟩

omit follows in
theorem runs_follows (run : runs step new actions = some finish) : ∃ phases, Follows finish phases := by
  refine runs_keeps (fun system => ∃ phases, Follows system phases) (fun ⟨phases, follows⟩ stepped => ?_) run
    ⟨_, Follows.new⟩
  obtain ⟨phases', -, follows⟩ := step_simulates follows stepped
  exact ⟨phases', follows⟩

/-! ## Nobody is lost -/

theorem Follows.places_eq_one (live : system.scheduler.Live pid) : system.scheduler.places pid = 1 := by
  have shown := follows.shown pid
  rw [Scheduler.Live, shown.task] at live
  rw [Scheduler.places, shown.ready, shown.active, shown.sleeping]
  cases phase : phases pid with
  | ready | running | sleeping => rfl
  | _ =>
    rw [phase] at live
    cases live

theorem step_awake (stepped : system.step call = some next)
    (awake : call = .wakeProc pid ∨ (phases pid).task ≠ some ⟨true⟩ ∧ call ≠ .setSleeping pid) :
    ∃ phases', Follows next phases' ∧ (phases' pid).task ≠ some ⟨true⟩ := by
  obtain ⟨phases', advances, follows⟩ := step_simulates follows stepped
  refine ⟨phases', follows, ?_⟩
  obtain rfl | ⟨awake, quiet⟩ := awake
  · cases advances with
    | move possible =>
      rw [update_self]
      exact Phase.awake_of_woken possible
  generalize event : system.eventOf call = event at advances
  cases advances with
  | idle => exact awake
  | @move moved kind phase possible =>
    by_cases same : pid = moved
    · subst same
      rw [update_self]
      refine Phase.awake_after awake possible ?_
      rintro rfl
      cases call with
      | setSleeping other =>
        cases event
        exact quiet rfl
      | schedule cpu => simp [eventOf] at event
      | _ => cases event
    · rwa [update_of_ne same]

theorem runs_awake (awake : (phases pid).task ≠ some ⟨true⟩)
    (quiet : .setSleeping pid ∉ actions) (run : runs step system actions = some finish) :
    ∃ phases', Follows finish phases' ∧ (phases' pid).task ≠ some ⟨true⟩ := by
  induction actions generalizing system phases with
  | nil =>
    cases run
    exact ⟨phases, follows, awake⟩
  | cons call rest ih =>
    obtain ⟨next, first, run⟩ := Option.bind_eq_some_iff.mp run
    rw [List.mem_cons, not_or] at quiet
    obtain ⟨phases', follows, awake⟩ := step_awake follows first (.inr ⟨awake, Ne.symm quiet.1⟩)
    exact ih follows awake quiet.2 run

end

/-- A live process is in one place, and one that was woken since it last announced to sleep is ready when it does not run. -/
theorem scheduler_loses_nobody (actions : List SchedulerCall) (finish : SchedulerSystem)
    (run : runs step new actions = some finish) : (∀ pid, finish.scheduler.Live pid → finish.scheduler.places pid = 1) ∧
      ∀ pid before after, finish.scheduler.Live pid → actions = before ++ .wakeProc pid :: after →
        .setSleeping pid ∉ after → pid ∉ finish.scheduler.active → pid ∈ finish.scheduler.readyToRun := by
  refine ⟨fun pid live => ?_, fun pid before after live split quiet released => ?_⟩
  · obtain ⟨phases, follows⟩ := runs_follows run
    exact follows.places_eq_one live
  rw [split, runs_append] at run
  obtain ⟨system, reached, run⟩ := Option.bind_eq_some_iff.mp run
  obtain ⟨next, woken, run⟩ := Option.bind_eq_some_iff.mp run
  obtain ⟨phases, follows⟩ := runs_follows reached
  obtain ⟨phases, follows, awake⟩ := step_awake follows woken (.inl rfl)
  obtain ⟨phases, follows, awake⟩ := runs_awake follows awake quiet run
  have one := follows.places_eq_one live
  rw [Scheduler.places, List.count_eq_zero.mpr released] at one
  -- it does not sleep either, so the one place is among the ready ones
  have notSleeping : finish.scheduler.sleepingTasks.count pid = 0 := by
    rw [(follows.shown pid).sleeping]
    cases phase : phases pid with
    | sleeping =>
      rw [phase] at awake
      exact absurd rfl awake
    | _ => rfl
  exact List.count_pos_iff.mp (by omega)

/-- A process announces to sleep and is woken before its release; another one is killed. -/
theorem scheduler_loses_nobody_wokenFirst :
    ∃ finish, runs step new [.acceptNewProcess 4, .acceptNewProcess 7, .schedule 0, .setSleeping 4, .wakeProc 4,
        .removeProcess 7, .releaseProcess 4] = some finish ∧
      finish.scheduler.Live 4 ∧ finish.scheduler.places 4 = 1 ∧ 4 ∈ finish.scheduler.readyToRun := by
  have kept := scheduler_loses_nobody [.acceptNewProcess 4, .acceptNewProcess 7, .schedule 0, .setSleeping 4, .wakeProc 4,
    .removeProcess 7, .releaseProcess 4] _ rfl
  exact ⟨_, rfl, rfl, kept.1 4 rfl, kept.2 4 [.acceptNewProcess 4, .acceptNewProcess 7, .schedule 0, .setSleeping 4]
    [.removeProcess 7, .releaseProcess 4] rfl rfl (by decide) (by decide)⟩

end SchedulerSystem

end MeowOs.Proc
