import MeowOs.Collections.DataQueue
import MeowOs.Proc.Scheduler

/-! # The task executor

`task_runner.rs` on one CPU.  The lists are only touched while interrupts are
disabled, so what `process_tasks` does between two polls are single steps, and
the steps of tasks and interrupts (adding and waking tasks, the end of a process)
fall between them.  A poll is open from `pollStart` until it returns.

The history of a run is kept newest first.
-/

namespace MeowOs.Tasks

open MeowOs.Machine MeowOs.Collections
open MeowOs.Proc (Pid)

structure AsyncTask where
  procId : Option Pid
  id : Nat
  deriving DecidableEq

inductive Phase where
  | idle
  | looping
  /-- With a task taken from the list, before it looks for the task's process. -/
  | popped (task : AsyncTask)
  | polling (task : AsyncTask)

inductive Record where
  | added (id : Nat) (procId : Option Pid)
  | woken (id : Nat)
  | exited (pid : Pid)
  | runStart
  | runEnd
  | popped (id : Nat)
  | pollStart (id : Nat)
  | dropped (id : Nat)
  | finished (id : Nat)
  deriving DecidableEq

/-- `AsyncTaskData` of a CPU, with the state of `process_tasks` and of the processes. -/
structure Executor where
  apicId : Nat
  taskIdCounter : Nat
  taskList : DataQueueHead AsyncTask
  tasksToWake : List Nat
  waitingTasks : List (Nat × AsyncTask)
  hasTasksToProcess : Bool
  phase : Phase
  gone : List Pid
  history : List Record

namespace Executor

def new (apicId : Nat) : Executor where
  apicId := apicId
  taskIdCounter := 0
  taskList := .new 100000
  tasksToWake := []
  waitingTasks := []
  hasTasksToProcess := false
  phase := .idle
  gone := []
  history := []

def addTask (procId : Option Pid) (executor : Executor) : Option Executor := do
  let id := executor.taskIdCounter
  let taskList ← executor.taskList.push ⟨procId, id⟩
  some { executor with
    taskIdCounter := id + 1
    taskList := taskList
    history := .added id procId :: executor.history }

/-- The waker of a task carries the number of the CPU that polled it; `wake_task` insists on the first CPU. -/
def wakeTask (taskId : Nat) (executor : Executor) : Option Executor :=
  if executor.apicId ≠ 0 then none
  else some { executor with
    tasksToWake := executor.tasksToWake ++ [taskId]
    hasTasksToProcess := true
    history := .woken taskId :: executor.history }

def sleepTask (task : AsyncTask) (executor : Executor) : Executor :=
  { executor with waitingTasks := executor.waitingTasks ++ [(task.id, task)] }

/-- The loop of `wake_tasks_in_list` over the ids it has taken. -/
def wakeEach : List Nat → Executor → Option Executor
  | [], executor => some executor
  | taskId :: rest, executor =>
    match executor.waitingTasks.findIdx? fun waiting => waiting.1 == taskId with
    -- a task that does not wait is only reported
    | none => wakeEach rest executor
    | some position => do
      let (_, task) ← executor.waitingTasks[position]?
      let taskList ← executor.taskList.push task
      wakeEach rest { executor with taskList := taskList, waitingTasks := executor.waitingTasks.eraseIdx position }

def wakeTasksInList (executor : Executor) : Option Executor :=
  wakeEach executor.tasksToWake { executor with tasksToWake := [] }

def processTasks (executor : Executor) : Option Executor :=
  match executor.phase with
  | .idle => do
    let executor ← wakeTasksInList { executor with hasTasksToProcess := false }
    some { executor with phase := .looping, history := .runStart :: executor.history }
  | _ => none

def getFirst (executor : Executor) : Option Executor :=
  match executor.phase with
  | .looping =>
    match executor.taskList.getFirst with
    | (none, taskList) => some { executor with
        taskList := taskList, phase := .idle, history := .runEnd :: executor.history }
    | (some task, taskList) => some { executor with
        taskList := taskList, phase := .popped task, history := .popped task.id :: executor.history }
  | _ => none

/-- `proc::get_proc` finds the process of a task, or the task has none. -/
def procAlive (executor : Executor) (task : AsyncTask) : Bool :=
  match task.procId with
  | none => true
  | some pid => !executor.gone.contains pid

def checkProcess (executor : Executor) : Option Executor :=
  match executor.phase with
  | .popped task =>
    if executor.procAlive task then
      some { executor with phase := .polling task, history := .pollStart task.id :: executor.history }
    else some { executor with phase := .looping, history := .dropped task.id :: executor.history }
  | _ => none

def pollEnds (ready : Bool) (executor : Executor) : Option Executor :=
  match executor.phase with
  | .polling task =>
    if ready then some { executor with phase := .looping, history := .finished task.id :: executor.history }
    else some { executor.sleepTask task with phase := .looping }
  | _ => none

inductive Action where
  | addTask (procId : Option Pid)
  | wakeTask (taskId : Nat)
  | exit (pid : Pid)
  | processTasks
  | getFirst
  | checkProcess
  | pollEnds (ready : Bool)
  deriving DecidableEq

def step (executor : Executor) : Action → Option Executor
  | .addTask procId => executor.addTask procId
  | .wakeTask taskId => executor.wakeTask taskId
  | .exit pid => some { executor with gone := pid :: executor.gone, history := .exited pid :: executor.history }
  | .processTasks => executor.processTasks
  | .getFirst => executor.getFirst
  | .checkProcess => executor.checkProcess
  | .pollEnds ready => executor.pollEnds ready

/-- The action is one that the executor can take next: polls are not nested, and the wakers belong to the first CPU. -/
def Enabled (executor : Executor) : Action → Prop
  | .addTask _ => executor.taskIdCounter + 1 < 100000
  | .wakeTask _ => executor.apicId = 0
  | .exit _ => True
  | .processTasks => executor.phase = .idle
  | .getFirst => executor.phase = .looping
  | .checkProcess => ∃ task, executor.phase = .popped task
  | .pollEnds _ => ∃ task, executor.phase = .polling task

/-! ## Where the tasks are -/

def held (executor : Executor) : List AsyncTask :=
  match executor.phase with
  | .idle | .looping => []
  | .popped task | .polling task => [task]

/-- In how many places a task is: the run queue, the poll in progress, and the waiting list. -/
def places (executor : Executor) (id : Nat) : Nat :=
  (executor.taskList.nodes.map (·.id)).count id + (executor.held.map (·.id)).count id +
    (executor.waitingTasks.map (·.2.id)).count id

end Executor

/-! ## Histories -/

def Record.task? : Record → Option Nat
  | .added id _ | .popped id | .pollStart id | .dropped id | .finished id => some id
  | .woken _ | .exited _ | .runStart | .runEnd => none

def Record.adds : Record → Bool
  | .added _ _ => true
  | _ => false

def Record.pops : Record → Bool
  | .popped _ => true
  | _ => false

def WokenSincePoll (history : List Record) (id : Nat) : Prop :=
  ∃ newer older procId, history = newer ++ .woken id :: older ∧ .pollStart id ∉ newer ∧ .added id procId ∈ older

def Alive (history : List Record) (procId : Option Pid) : Prop := ∀ pid, procId = some pid → .exited pid ∉ history

theorem wokenSincePoll_cons {history : List Record} {record : Record} {id : Nat}
    (woken : WokenSincePoll (record :: history) id) : (record = .woken id ∧ ∃ procId, .added id procId ∈ history) ∨
      (record ≠ .pollStart id ∧ WokenSincePoll history id) := by
  obtain ⟨newer, older, procId, split, quiet, added⟩ := woken
  cases newer with
  | nil =>
    cases split
    exact .inl ⟨rfl, procId, added⟩
  | cons first rest =>
    cases split
    rw [List.mem_cons, not_or] at quiet
    exact .inr ⟨Ne.symm quiet.1, rest, older, procId, rfl, quiet.2, added⟩

theorem WokenSincePoll.added {history : List Record} {id : Nat} (woken : WokenSincePoll history id) :
    ∃ procId, .added id procId ∈ history := by
  obtain ⟨-, older, procId, rfl, -, added⟩ := woken
  exact ⟨procId, List.mem_append_right _ (.tail _ added)⟩

def sinceStart (history : List Record) : List Record := history.takeWhile (· != .runStart)

def beforeStart (history : List Record) : List Record := (history.dropWhile (· != .runStart)).tail

section Starts

variable {history : List Record} {record : Record}

@[simp] theorem sinceStart_runStart : sinceStart (.runStart :: history) = [] := by
  simp [sinceStart]

@[simp] theorem beforeStart_runStart : beforeStart (.runStart :: history) = history := by
  simp [beforeStart]

theorem sinceStart_cons (other : record ≠ .runStart) : sinceStart (record :: history) = record :: sinceStart history := by
  rw [sinceStart, List.takeWhile_cons, if_pos (bne_iff_ne.mpr other)]
  rfl

theorem beforeStart_cons (other : record ≠ .runStart) : beforeStart (record :: history) = beforeStart history := by
  rw [beforeStart, List.dropWhile_cons, if_pos (bne_iff_ne.mpr other)]
  rfl

theorem split_at_start (earlier : List Record) {later : List Record} (unbroken : .runStart ∉ later) :
    sinceStart (later ++ .runStart :: earlier) = later ∧ beforeStart (later ++ .runStart :: earlier) = earlier := by
  induction later with
  | nil => exact ⟨sinceStart_runStart, beforeStart_runStart⟩
  | cons record rest ih =>
    rw [List.mem_cons, not_or] at unbroken
    obtain ⟨since, before⟩ := ih unbroken.2
    rw [List.cons_append, sinceStart_cons (Ne.symm unbroken.1), beforeStart_cons (Ne.symm unbroken.1), since, before]
    exact ⟨rfl, rfl⟩

end Starts

end MeowOs.Tasks
