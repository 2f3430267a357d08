import MeowOs.Tasks.Executor

/-! # The executor loses no task

Three invariants carry the result.  `Census` is about all tasks together,
wherever they are: moving a task from one place to another does not change it.
`Counted` bounds the node count of the run queue, which `get_first` never lowers,
so that pushing always returns.  `Wakes` says where a woken task is to be found,
and how far it is from the front of the queue while a run lasts.
-/

namespace MeowOs.Tasks

open MeowOs.Machine MeowOs.Collections
open Record (adds pollStart pops)
open List (append_assoc append_nil count_cons count_cons_of_ne count_eq_zero map_append map_cons map_map mem_append
  mem_append_right mem_cons mem_map not_mem_nil perm_middle prefix_rfl)
open MeowOs.Proc (Pid)

/-! ## All tasks together -/

/-- Every task that was added is among `all` once, or has finished, or was dropped with its process. -/
structure Census (all : List AsyncTask) (history : List Record) (counter : Nat) : Prop where
  onePlace : ∀ id < counter, (all.map (·.id)).count id + history.count (.finished id) + history.count (.dropped id) = 1
  born : ∀ record ∈ history, ∀ id, record.task? = some id → id < counter
  known : ∀ task ∈ all, .added task.id task.procId ∈ history
  addedOnce : ∀ id procId other, .added id procId ∈ history → .added id other ∈ history → procId = other
  dropped : ∀ id, .dropped id ∈ history → ∃ pid, .added id (some pid) ∈ history ∧ .exited pid ∈ history
  few : all.length ≤ counter
  added : history.countP adds = counter
  notPolledAgain : ∀ newer older id, history = newer ++ .finished id :: older → .pollStart id ∉ newer

namespace Census

variable {all rest : List AsyncTask} {history : List Record} {counter : Nat} {task : AsyncTask} {record : Record}

theorem nil : Census [] [] 0 where
  onePlace := nofun
  born := nofun
  known := nofun
  addedOnce := nofun
  dropped := nofun
  few := Nat.le_refl 0
  added := rfl
  notPolledAgain newer older id split := by simp at split

section

variable (census : Census all history counter) {id : Nat}

include census

theorem perm (same : all.Perm rest) : Census rest history counter where
  onePlace id low := by rw [← (same.map _).count_eq]; exact census.onePlace id low
  born := census.born
  known task inside := census.known task (same.mem_iff.mpr inside)
  addedOnce := census.addedOnce
  dropped := census.dropped
  few := by rw [← same.length_eq]; exact census.few
  added := census.added
  notPolledAgain := census.notPolledAgain

theorem id_lt (inside : task ∈ all) : task.id < counter :=
  census.born _ (census.known task inside) _ rfl

theorem unfinished (inside : task ∈ all) : .finished task.id ∉ history ∧ .dropped task.id ∉ history := by
  have one := census.onePlace task.id (census.id_lt inside)
  have here : 0 < (all.map (·.id)).count task.id := List.count_pos_iff.mpr (List.mem_map_of_mem inside)
  exact ⟨count_eq_zero.mp (by omega), count_eq_zero.mp (by omega)⟩

theorem distinct : (all.map (·.id)).Nodup := by
  rw [List.nodup_iff_count_le_one]
  intro id
  by_cases low : id < counter
  · have one := census.onePlace id low
    omega
  have nowhere : (all.map (·.id)).count id = 0 := count_eq_zero.mpr fun inside => by
    obtain ⟨task, here, rfl⟩ := mem_map.mp inside
    exact low (census.id_lt here)
  omega

theorem mem_of_open {procId : Option Pid}
    (added : .added id procId ∈ history) (unfinished : .finished id ∉ history) (kept : .dropped id ∉ history) :
    id ∈ all.map (·.id) := by
  have one := census.onePlace id (census.born _ added id rfl)
  rw [count_eq_zero.mpr unfinished, count_eq_zero.mpr kept] at one
  exact List.count_pos_iff.mp (by omega)

theorem notPolledAgain_cons (fresh : ∀ id, record = .pollStart id → .finished id ∉ history) {newer older : List Record}
    (split : record :: history = newer ++ .finished id :: older) : .pollStart id ∉ newer := by
  cases newer with
  | nil => exact not_mem_nil
  | cons first more =>
    obtain ⟨rfl, rest⟩ := List.cons.inj split
    rw [mem_cons, not_or]
    refine ⟨fun same => fresh id same.symm ?_, census.notPolledAgain more older id rest⟩
    rw [rest]
    exact mem_append_right _ (.head _)

theorem extend (notAdded : record.adds = false)
    (onePlace : ∀ id < counter, (rest.map (·.id)).count id + (record :: history).count (.finished id) +
      (record :: history).count (.dropped id) = 1)
    (left : rest.Sublist all) (born : ∀ id, record.task? = some id → id < counter)
    (gone : ∀ id, record = .dropped id → ∃ pid, .added id (some pid) ∈ history ∧ .exited pid ∈ history)
    (fresh : ∀ id, record = .pollStart id → .finished id ∉ history) : Census rest (record :: history) counter where
  onePlace := onePlace
  born other inside id same := by
    obtain rfl | inside := mem_cons.mp inside
    · exact born id same
    · exact census.born other inside id same
  known task inside := .tail _ (census.known task (left.subset inside))
  addedOnce id procId other first second := by
    have quiet : ∀ procId, Record.added id procId ≠ record := by
      rintro procId rfl
      cases notAdded
    exact census.addedOnce id procId other ((mem_cons.mp first).resolve_left (quiet procId))
      ((mem_cons.mp second).resolve_left (quiet other))
  dropped id inside := by
    obtain ⟨pid, added, exited⟩ := (mem_cons.mp inside).elim (fun same => gone id same.symm) (census.dropped id)
    exact ⟨pid, .tail _ added, .tail _ exited⟩
  few := Nat.le_trans left.length_le census.few
  added := by rw [List.countP_cons_of_neg (by simp [notAdded])]; exact census.added
  notPolledAgain newer older id split := census.notPolledAgain_cons fresh split

theorem note (born : ∀ id, record.task? = some id → id < counter)
    (notAdded : record.adds = false) (notEnded : ∀ id, record ≠ .finished id ∧ record ≠ .dropped id)
    (fresh : ∀ id, record = .pollStart id → .finished id ∉ history) : Census all (record :: history) counter := by
  refine census.extend notAdded (fun id low => ?_) (.refl _) born (fun id same => absurd same (notEnded id).2) fresh
  rw [count_cons_of_ne (notEnded id).1, count_cons_of_ne (notEnded id).2]
  exact census.onePlace id low

theorem add (procId : Option Pid) :
    Census (⟨procId, counter⟩ :: all) (.added counter procId :: history) (counter + 1) where
  onePlace id low := by
    by_cases new : counter = id
    · subst new
      have absent : ∀ record ∈ history, record.task? ≠ some counter := fun record inside same =>
        absurd (census.born record inside counter same) (Nat.lt_irrefl counter)
      have nowhere : (all.map (·.id)).count counter = 0 := count_eq_zero.mpr fun inside => by
        obtain ⟨task, inside, same⟩ := mem_map.mp inside
        exact absurd (census.id_lt inside) (by omega)
      have notFinished : history.count (.finished counter) = 0 :=
        count_eq_zero.mpr fun inside => absent _ inside rfl
      have notDropped : history.count (.dropped counter) = 0 :=
        count_eq_zero.mpr fun inside => absent _ inside rfl
      simp [nowhere, notFinished, notDropped]
    · have one := census.onePlace id (by omega)
      simpa [new] using one
  born record inside id same := by
    obtain rfl | inside := mem_cons.mp inside
    · cases same
      omega
    · exact Nat.lt_succ_of_lt (census.born record inside id same)
  known task inside := by
    obtain rfl | inside := mem_cons.mp inside
    · exact .head _
    · exact .tail _ (census.known task inside)
  addedOnce id procId other first second := by
    have old {procId : Option Pid} (inside : .added id procId ∈ history) : id < counter :=
      census.born _ inside id rfl
    obtain first | first := mem_cons.mp first
    · cases first
      obtain second | second := mem_cons.mp second
      · cases second
        rfl
      · exact absurd (old second) (Nat.lt_irrefl _)
    · obtain second | second := mem_cons.mp second
      · cases second
        exact absurd (old first) (Nat.lt_irrefl _)
      · exact census.addedOnce id procId other first second
  dropped id inside := by
    obtain ⟨pid, added, exited⟩ := census.dropped id ((mem_cons.mp inside).resolve_left (by simp))
    exact ⟨pid, .tail _ added, .tail _ exited⟩
  few := Nat.succ_le_succ census.few
  added := by rw [List.countP_cons_of_pos rfl, census.added]
  notPolledAgain newer older id split := census.notPolledAgain_cons (by simp) split

end

theorem leave (census : Census (task :: all) history counter) (ends : record = .finished task.id ∨
      record = .dropped task.id ∧ ∃ pid, .added task.id (some pid) ∈ history ∧ .exited pid ∈ history) :
    Census all (record :: history) counter := by
  have sub : all.Sublist (task :: all) := List.sublist_cons_self ..
  have old := census.id_lt (.head _)
  obtain rfl | ⟨rfl, gone⟩ := ends
  · refine census.extend rfl (fun id low => ?_) sub (by rintro id ⟨⟩; exact old) (by simp) (by simp)
    have one := census.onePlace id low
    rw [map_cons, count_cons] at one
    rw [count_cons, count_cons_of_ne (by simp)]
    simp only [beq_iff_eq, Record.finished.injEq] at one ⊢
    omega
  · refine census.extend rfl (fun id low => ?_) sub (by rintro id ⟨⟩; exact old) (by rintro id ⟨⟩; exact gone) (by simp)
    have one := census.onePlace id low
    rw [map_cons, count_cons] at one
    rw [count_cons_of_ne (by simp), count_cons]
    simp only [beq_iff_eq, Record.dropped.injEq] at one ⊢
    omega

end Census

/-! ## The node count of the run queue -/

structure Counted (queue : DataQueueHead AsyncTask) (counter : Nat) : Prop where
  limit : queue.maxNodes = 100000
  last : queue.nodes ≠ [] → queue.hasLast = true
  count : queue.currNodes ≤ counter

/-- What is queued between two runs, and what waits, are different tasks. -/
def Spare (queue : DataQueueHead AsyncTask) (waiting counter : Nat) : Prop :=
  queue.nodes ≠ [] → queue.currNodes + waiting ≤ counter

namespace Counted

variable {queue : DataQueueHead AsyncTask} {counter : Nat}

theorem link_spec (counted : Counted queue counter) (task : AsyncTask) :
    (queue.link task).nodes = queue.nodes ++ [task] ∧
      (queue.link task).currNodes = if queue.nodes = [] then 1 else queue.currNodes + 1 := by
  by_cases empty : queue.nodes = []
  · have last := queue.last_of_empty empty
    simp [DataQueueHead.link, last, empty]
  · simp [DataQueueHead.link, counted.last empty, empty]

theorem link (counted : Counted queue counter) (task : AsyncTask) {bound : Nat} (positive : 1 ≤ bound)
    (room : queue.nodes ≠ [] → queue.currNodes + 1 ≤ bound) : Counted (queue.link task) bound where
  limit := counted.limit
  last _ := rfl
  count := by
    rw [(counted.link_spec task).2]
    split
    · exact positive
    next nonempty => exact room nonempty

theorem push (counted : Counted queue counter) (few : counter < 100000) (task : AsyncTask) :
    queue.push task = some (queue.link task) := by
  have limit := counted.limit
  have count := counted.count
  rw [DataQueueHead.push, if_neg (by omega)]

theorem pushed {after : DataQueueHead AsyncTask} {task : AsyncTask} (done : queue.push task = some after) :
    after = queue.link task := by
  rw [DataQueueHead.push] at done
  split at done
  · cases done
  · exact (Option.some.inj done).symm

theorem withoutFirst (counted : Counted queue counter) : Counted queue.withoutFirst counter where
  limit := counted.limit
  last nonempty := by
    have nonempty : queue.nodes.tail ≠ [] := nonempty
    have whole : queue.nodes ≠ [] := by
      intro empty
      simp [empty] at nonempty
    simp only [DataQueueHead.withoutFirst, List.isEmpty_iff, nonempty, if_false]
    exact counted.last whole
  count := counted.count

end Counted

namespace Executor

variable {executor next : Executor}

/-! ## Waking -/

structure Listed (executor : Executor) : Prop where
  counted : Counted executor.taskList executor.taskIdCounter
  spare : Spare executor.taskList executor.waitingTasks.length executor.taskIdCounter
  few : executor.waitingTasks.length ≤ executor.taskIdCounter
  keyed : ∀ waiting ∈ executor.waitingTasks, waiting.1 = waiting.2.id
  distinct : (executor.waitingTasks.map Prod.fst).Nodup

/-- Tasks have moved from the waiting list to the end of the run queue, and nothing else has changed. -/
structure Requeued (executor next : Executor) : Prop where
  rest : ∃ taskList waitingTasks, next = { executor with taskList := taskList, waitingTasks := waitingTasks }
  perm : (executor.taskList.nodes ++ executor.waitingTasks.map Prod.snd).Perm
    (next.taskList.nodes ++ next.waitingTasks.map Prod.snd)
  queued : executor.taskList.nodes <+: next.taskList.nodes
  waiting : next.waitingTasks.Sublist executor.waitingTasks

theorem Requeued.refl (executor : Executor) : Requeued executor executor :=
  ⟨⟨_, _, rfl⟩, List.Perm.refl _, prefix_rfl, List.Sublist.refl _⟩

theorem Requeued.trans {middle : Executor} (first : Requeued executor middle) (second : Requeued middle next) :
    Requeued executor next := by
  obtain ⟨_, _, rfl⟩ := first.rest
  obtain ⟨_, _, rfl⟩ := second.rest
  exact ⟨⟨_, _, rfl⟩, first.perm.trans second.perm, first.queued.trans second.queued, second.waiting.trans first.waiting⟩

def requeue (executor : Executor) (position : Nat) (task : AsyncTask) : Executor :=
  { executor with
    taskList := executor.taskList.link task
    waitingTasks := executor.waitingTasks.eraseIdx position }

theorem requeue_spec (listed : executor.Listed) {position : Nat} {key : Nat} {task : AsyncTask}
    (found : executor.waitingTasks[position]? = some (key, task)) :
    (executor.requeue position task).Listed ∧ Requeued executor (executor.requeue position task) := by
  obtain ⟨inside, here⟩ := List.getElem?_eq_some_iff.mp found
  have perm := List.getElem_cons_eraseIdx_perm inside
  rw [here] at perm
  have sublist := List.eraseIdx_sublist executor.waitingTasks position
  have shorter : (executor.waitingTasks.eraseIdx position).length + 1 = executor.waitingTasks.length := perm.length_eq
  have few := listed.few
  obtain ⟨nodes, currNodes⟩ := listed.counted.link_spec task
  constructor
  · constructor
    · refine listed.counted.link task (show 1 ≤ executor.taskIdCounter by omega) fun nonempty => ?_
      have spare := listed.spare nonempty
      show executor.taskList.currNodes + 1 ≤ executor.taskIdCounter
      omega
    · intro _
      show (executor.taskList.link task).currNodes + (executor.waitingTasks.eraseIdx position).length ≤
        executor.taskIdCounter
      rw [currNodes]
      split
      · omega
      next nonempty =>
        have spare := listed.spare nonempty
        omega
    · show (executor.waitingTasks.eraseIdx position).length ≤ executor.taskIdCounter
      omega
    · exact fun waiting member => listed.keyed waiting (sublist.subset member)
    · exact listed.distinct.sublist (sublist.map _)
  · refine ⟨⟨_, _, rfl⟩, ?_, ?_, sublist⟩
    · show List.Perm _ ((executor.taskList.link task).nodes ++ (executor.waitingTasks.eraseIdx position).map Prod.snd)
      rw [nodes, append_assoc]
      exact (perm.symm.map Prod.snd).append_left _
    · show _ <+: (executor.taskList.link task).nodes
      rw [nodes]
      exact List.prefix_append _ _

theorem wakeEach_cons (executor : Executor) (taskId : Nat) (rest : List Nat) :
    (taskId ∉ executor.waitingTasks.map Prod.fst ∧ wakeEach (taskId :: rest) executor = wakeEach rest executor) ∨
      ∃ position task, executor.waitingTasks[position]? = some (taskId, task) ∧
        wakeEach (taskId :: rest) executor = (executor.taskList.push task).bind fun taskList =>
          wakeEach rest { executor with taskList := taskList, waitingTasks := executor.waitingTasks.eraseIdx position } := by
  cases found : executor.waitingTasks.findIdx? fun waiting => waiting.1 == taskId with
  | none =>
    refine .inl ⟨fun inside => ?_, by simp only [wakeEach, found]⟩
    obtain ⟨waiting, member, same⟩ := mem_map.mp inside
    exact absurd (List.findIdx?_eq_none_iff.mp found waiting member) (by simp [same])
  | some position =>
    obtain ⟨inside, same, -⟩ := List.findIdx?_eq_some_iff_getElem.mp found
    have here := List.getElem?_eq_getElem inside
    generalize executor.waitingTasks[position] = waiting at same here
    obtain ⟨key, task⟩ := waiting
    obtain rfl : key = taskId := beq_iff_eq.mp same
    exact .inr ⟨position, task, here, by simp only [wakeEach, found, here]; rfl⟩

theorem wakeEach_spec {ids : List Nat} (listed : executor.Listed) (done : wakeEach ids executor = some next) :
    next.Listed ∧ Requeued executor next ∧ ∀ id ∈ ids, id ∉ next.waitingTasks.map Prod.fst := by
  induction ids generalizing executor with
  | nil =>
    cases done
    exact ⟨listed, Requeued.refl _, nofun⟩
  | cons taskId rest ih =>
    obtain ⟨absent, body⟩ | ⟨position, task, found, body⟩ := wakeEach_cons executor taskId rest
    · rw [body] at done
      obtain ⟨nextListed, moved, woken⟩ := ih listed done
      refine ⟨nextListed, moved, fun id member => ?_⟩
      obtain rfl | member := mem_cons.mp member
      · exact fun inside => absent ((moved.waiting.map _).subset inside)
      · exact woken id member
    rw [body] at done
    obtain ⟨taskList, pushed, done⟩ := Option.bind_eq_some_iff.mp done
    obtain rfl := Counted.pushed pushed
    obtain ⟨middleListed, step⟩ := requeue_spec listed found
    obtain ⟨nextListed, moved, woken⟩ := ih middleListed done
    refine ⟨nextListed, step.trans moved, fun id member => ?_⟩
    obtain rfl | member := mem_cons.mp member
    · -- its entry was the only one with its key
      intro inside
      have left : id ∈ (executor.waitingTasks.eraseIdx position).map Prod.fst := (moved.waiting.map _).subset inside
      obtain ⟨there, here⟩ := List.getElem?_eq_some_iff.mp found
      have perm := (List.getElem_cons_eraseIdx_perm there).map Prod.fst
      rw [here, map_cons] at perm
      exact (List.nodup_cons.mp (perm.nodup_iff.mpr listed.distinct)).1 left
    · exact woken id member

theorem wakeEach_isSome (ids : List Nat) (listed : executor.Listed) (few : executor.taskIdCounter < 100000) :
    (wakeEach ids executor).isSome := by
  induction ids generalizing executor with
  | nil => rfl
  | cons taskId rest ih =>
    obtain ⟨_, body⟩ | ⟨position, task, found, body⟩ := wakeEach_cons executor taskId rest
    · rw [body]
      exact ih listed few
    · rw [body, listed.counted.push few task, Option.bind_some]
      exact ih (requeue_spec listed found).1 few

end Executor

/-! ## Where woken tasks are -/

/-- The task is in the queue, and the places before it and the tasks taken in this run are fewer than the tasks there
were when the run started. -/
def InQueueSoon (nodes : List AsyncTask) (history : List Record) (id : Nat) : Prop :=
  ∃ front task back, nodes = front ++ task :: back ∧ task.id = id ∧
    front.length + (sinceStart history).countP pops < (beforeStart history).countP adds

namespace InQueueSoon

variable {nodes more : List AsyncTask} {history : List Record} {record : Record} {id : Nat}

theorem append (soon : InQueueSoon nodes history id) : InQueueSoon (nodes ++ more) history id := by
  obtain ⟨front, task, back, rfl, same, near⟩ := soon
  exact ⟨front, task, back ++ more, by rw [append_assoc, List.cons_append], same, near⟩

theorem cons (soon : InQueueSoon nodes history id) (other : record ≠ .runStart) (notPop : record.pops = false) :
    InQueueSoon nodes (record :: history) id := by
  obtain ⟨front, task, back, split, same, near⟩ := soon
  refine ⟨front, task, back, split, same, ?_⟩
  rwa [sinceStart_cons other, beforeStart_cons other, List.countP_cons_of_neg (by simp [notPop])]

theorem mem (soon : InQueueSoon nodes history id) : id ∈ nodes.map (·.id) := by
  obtain ⟨-, -, -, rfl, rfl, -⟩ := soon
  exact List.mem_map_of_mem (mem_append_right _ (.head _))

end InQueueSoon

/-- The task was woken before the run started, and has not been polled in it. -/
structure Due (history : List Record) (id : Nat) : Prop where
  started : .runStart ∈ history
  woken : WokenSincePoll (beforeStart history) id
  unfinished : .finished id ∉ beforeStart history
  notPolled : .pollStart id ∉ sinceStart history

variable {history : List Record} {record : Record}

theorem Due.of_cons {id : Nat} (other : record ≠ .runStart)
    (due : Due (record :: history) id) : Due history id ∧ record ≠ .pollStart id := by
  obtain ⟨started, woken, unfinished, notPolled⟩ := due
  rw [beforeStart_cons other] at woken unfinished
  rw [sinceStart_cons other, mem_cons, not_or] at notPolled
  exact ⟨⟨(mem_cons.mp started).resolve_left other.symm, woken, unfinished, notPolled.2⟩, Ne.symm notPolled.1⟩

namespace Executor

variable {executor next : Executor} {record : Record} {procId : Option Pid} {action : Action} {id : Nat}

def Ready (executor : Executor) (id : Nat) : Prop :=
  id ∈ executor.tasksToWake ∨ id ∈ executor.taskList.nodes.map (·.id) ∨ ∃ task, executor.phase = .popped task ∧ task.id = id

def Soon (executor : Executor) (id : Nat) : Prop :=
  match executor.phase with
  | .idle => False
  | .looping | .polling _ => InQueueSoon executor.taskList.nodes executor.history id
  | .popped task => InQueueSoon executor.taskList.nodes executor.history id ∨ task.id = id ∧
      (sinceStart executor.history).countP pops ≤ (beforeStart executor.history).countP adds

structure Wakes (executor : Executor) : Prop where
  woken : ∀ id, WokenSincePoll executor.history id →
    .finished id ∈ executor.history ∨ .dropped id ∈ executor.history ∨ executor.Ready id
  due : ∀ id, Due executor.history id →
    .finished id ∉ executor.history ∧ (.dropped id ∈ executor.history ∨ executor.Soon id)

def all (executor : Executor) : List AsyncTask :=
  executor.taskList.nodes ++ executor.held ++ executor.waitingTasks.map Prod.snd

structure Kept (executor : Executor) : Prop where
  census : Census executor.all executor.history executor.taskIdCounter
  keyed : ∀ waiting ∈ executor.waitingTasks, waiting.1 = waiting.2.id
  gone : ∀ pid ∈ executor.gone, .exited pid ∈ executor.history
  counted : Counted executor.taskList executor.taskIdCounter
  spare : executor.phase = .idle → Spare executor.taskList executor.waitingTasks.length executor.taskIdCounter
  running : executor.phase ≠ .idle → .runEnd ∉ sinceStart executor.history
  wakes : executor.Wakes

theorem Kept.new (apicId : Nat) : (new apicId).Kept where
  census := Census.nil
  keyed := nofun
  gone := nofun
  counted := ⟨rfl, fun nonempty => absurd rfl nonempty, Nat.le_refl 0⟩
  spare _ nonempty := absurd rfl nonempty
  running _ := not_mem_nil
  wakes := by
    constructor
    · rintro id ⟨newer, older, procId, split, -⟩
      simp [Executor.new] at split
    · rintro id ⟨started, -⟩
      exact absurd started not_mem_nil

/-! ## Adding, waking, and the end of a process -/

/-- The rule for a step that is no start of a run: it is enough to follow the tasks that are ready, and those that are
due, unless the step is the poll that they wait for. -/
theorem Wakes.advance (wakes : executor.Wakes) (history : next.history = record :: executor.history)
    (other : record ≠ .runStart) (wokenNow : ∀ id, record = .woken id → next.Ready id)
    (unfinished : ∀ id, .dropped id ∈ executor.history ∨ executor.Soon id → record ≠ .finished id)
    (ready : ∀ id, record ≠ .pollStart id → executor.Ready id → .dropped id ∈ next.history ∨ next.Ready id)
    (soon : ∀ id, record ≠ .pollStart id → executor.Soon id → .dropped id ∈ next.history ∨ next.Soon id) :
    next.Wakes := by
  constructor
  · intro id woken
    rw [history] at woken
    obtain ⟨now, -⟩ | ⟨notPolled, before⟩ := wokenSincePoll_cons woken
    · exact .inr (.inr (wokenNow id now))
    obtain finished | dropped | here := wakes.woken id before
    · exact .inl (history ▸ .tail _ finished)
    · exact .inr (.inl (history ▸ .tail _ dropped))
    · exact .inr (ready id notPolled here)
  · intro id due
    rw [history] at due
    obtain ⟨before, notPolled⟩ := due.of_cons other
    obtain ⟨notYet, place⟩ := wakes.due id before
    constructor
    · rw [history, mem_cons, not_or]
      exact ⟨(unfinished id place).symm, notYet⟩
    · obtain dropped | here := place
      · exact .inl (history ▸ .tail _ dropped)
      · exact soon id notPolled here

theorem Wakes.grow (wakes : executor.Wakes) (history : next.history = record :: executor.history)
    (other : record ≠ .runStart) (notPop : record.pops = false) (notEnd : ∀ id, record ≠ .finished id)
    (phase : next.phase = executor.phase) (toWake : executor.tasksToWake ⊆ next.tasksToWake)
    (nodes : executor.taskList.nodes <+: next.taskList.nodes) (wokenNow : ∀ id, record = .woken id → next.Ready id) :
    next.Wakes := by
  refine wakes.advance history other wokenNow (fun id _ => notEnd id) (fun id _ ready => .inr ?_) fun id _ soon => .inr ?_
  · obtain listed | queued | popped := ready
    · exact .inl (toWake listed)
    · exact .inr (.inl ((nodes.sublist.map _).subset queued))
    · exact .inr (.inr (phase ▸ popped))
  have queued (soon : InQueueSoon executor.taskList.nodes executor.history id) :
      InQueueSoon next.taskList.nodes next.history id := by
    obtain ⟨more, same⟩ := nodes
    rw [history, ← same]
    exact (soon.append).cons other notPop
  rw [Soon] at soon ⊢
  rw [phase]
  generalize executor.phase = here at soon
  cases here with
  | idle => exact soon
  | looping => exact queued soon
  | polling task => exact queued soon
  | popped task =>
    refine soon.imp queued fun ⟨same, near⟩ => ⟨same, ?_⟩
    rw [history, sinceStart_cons other, beforeStart_cons other, List.countP_cons_of_neg (by simp [notPop])]
    exact near

section Kept

variable (kept : executor.Kept)

include kept

theorem Kept.advance (history : next.history = record :: executor.history)
    (gone : ∀ pid ∈ next.gone, pid ∈ executor.gone ∨ record = .exited pid)
    (waiting : next.waitingTasks = executor.waitingTasks) (other : record ≠ .runStart)
    (running : next.phase ≠ .idle → executor.phase ≠ .idle ∧ record ≠ .runEnd)
    (census : Census next.all next.history next.taskIdCounter) (counted : Counted next.taskList next.taskIdCounter)
    (spare : next.phase = .idle → Spare next.taskList next.waitingTasks.length next.taskIdCounter)
    (wakes : next.Wakes) : next.Kept where
  census := census
  keyed := waiting ▸ kept.keyed
  gone pid member := by
    rw [history]
    obtain before | rfl := gone pid member
    · exact .tail _ (kept.gone pid before)
    · exact .head _
  counted := counted
  spare := spare
  running busy := by
    obtain ⟨wasBusy, goesOn⟩ := running busy
    rw [history, sinceStart_cons other, mem_cons, not_or]
    exact ⟨goesOn.symm, kept.running wasBusy⟩
  wakes := wakes

theorem Kept.length_waiting_le : executor.waitingTasks.length ≤ executor.taskIdCounter := by
  have few := kept.census.few
  simp only [all, List.length_append, List.length_map] at few
  omega

theorem addTask_keeps (done : executor.addTask procId = some next) :
    next.Kept := by
  obtain ⟨taskList, pushed, done⟩ := Option.bind_eq_some_iff.mp done
  obtain rfl := Counted.pushed pushed
  cases done
  obtain ⟨nodes, currNodes⟩ := kept.counted.link_spec ⟨procId, executor.taskIdCounter⟩
  have waiting := kept.length_waiting_le
  have count := kept.counted.count
  refine kept.advance rfl (fun _ => .inl) rfl (by simp) (fun busy => ⟨busy, by simp⟩) ?_ ?_ ?_ ?_
  · refine (kept.census.add procId).perm ?_
    show List.Perm _ ((executor.taskList.link _).nodes ++ executor.held ++ executor.waitingTasks.map Prod.snd)
    rw [nodes, all]
    simp only [append_assoc, List.singleton_append]
    exact perm_middle.symm
  · refine kept.counted.link _ (Nat.le_add_left 1 _) fun _ => ?_
    show executor.taskList.currNodes + 1 ≤ executor.taskIdCounter + 1
    omega
  · intro idle _
    show (executor.taskList.link _).currNodes + executor.waitingTasks.length ≤ executor.taskIdCounter + 1
    rw [currNodes]
    split
    · omega
    next nonempty =>
      have spare := kept.spare idle nonempty
      omega
  · refine kept.wakes.grow rfl (by simp) rfl (by simp) rfl (List.Subset.refl _) ?_ (by simp)
    rw [nodes]
    exact List.prefix_append _ _

theorem wakeTask_keeps {taskId : Nat} (done : executor.wakeTask taskId = some next) :
    next.Kept := by
  rw [wakeTask] at done
  split at done
  · cases done
  cases done
  refine kept.advance rfl (fun _ => .inl) rfl (by simp) (fun busy => ⟨busy, by simp⟩)
    (kept.census.note (by simp [Record.task?]) rfl (by simp) (by simp)) kept.counted kept.spare ?_
  refine kept.wakes.grow rfl (by simp) rfl (by simp) rfl (List.subset_append_left _ _) prefix_rfl fun id same => ?_
  cases same
  exact .inl (mem_append_right _ (.head _))

theorem exit_keeps (pid : Pid) :
    Kept { executor with gone := pid :: executor.gone, history := .exited pid :: executor.history } :=
  kept.advance rfl (fun _ member => (mem_cons.mp member).symm.imp_right fun | rfl => rfl) rfl (by simp)
    (fun busy => ⟨busy, by simp⟩) (kept.census.note (by simp [Record.task?]) rfl (by simp) (by simp)) kept.counted kept.spare
    (kept.wakes.grow rfl (by simp) rfl (by simp) rfl (List.Subset.refl _) prefix_rfl (by simp))

/-! ## A run -/

theorem Kept.listed (idle : executor.phase = .idle) :
    Listed { executor with hasTasksToProcess := false, tasksToWake := [] } where
  counted := kept.counted
  spare := kept.spare idle
  few := kept.length_waiting_le
  keyed := kept.keyed
  distinct := by
    have keys : executor.waitingTasks.map Prod.fst = (executor.waitingTasks.map Prod.snd).map (·.id) := by
      rw [map_map]
      exact List.map_congr_left kept.keyed
    rw [keys]
    refine kept.census.distinct.sublist (List.Sublist.map _ ?_)
    exact List.sublist_append_right _ _

theorem processTasks_keeps (done : executor.processTasks = some next) : next.Kept := by
  rw [processTasks] at done
  split at done
  next idle =>
    obtain ⟨middle, woken, done⟩ := Option.bind_eq_some_iff.mp done
    cases done
    obtain ⟨listed, moved, awake⟩ := wakeEach_spec (kept.listed idle) woken
    obtain ⟨taskList, waitingTasks, rfl⟩ := moved.rest
    have nobody : executor.held = [] := by rw [held, idle]
    have census : Census (taskList.nodes ++ waitingTasks.map Prod.snd) executor.history executor.taskIdCounter := by
      refine kept.census.perm ?_
      rw [all, nobody, append_nil]
      exact moved.perm
    constructor
    · refine Census.note (census.perm ?_) (by simp [Record.task?]) rfl (by simp) (by simp)
      rw [all, held, append_nil]
    · exact listed.keyed
    · exact fun pid member => .tail _ (kept.gone pid member)
    · exact listed.counted
    · intro busy
      cases busy
    · intro _
      exact not_mem_nil
    -- a woken task was on the list, and so it is in the queue now
    have queued : ∀ id, WokenSincePoll executor.history id → .finished id ∈ executor.history ∨
        .dropped id ∈ executor.history ∨ id ∈ taskList.nodes.map (·.id) := by
      intro id wasWoken
      by_cases finished : .finished id ∈ executor.history
      · exact .inl finished
      by_cases dropped : .dropped id ∈ executor.history
      · exact .inr (.inl dropped)
      refine .inr (.inr ?_)
      obtain wrong | wrong | toWake | inQueue | ⟨task, wrong, -⟩ := kept.wakes.woken id wasWoken
      · exact absurd wrong finished
      · exact absurd wrong dropped
      · obtain ⟨procId, added⟩ := wasWoken.added
        have somewhere := census.mem_of_open added finished dropped
        rw [map_append, mem_append] at somewhere
        refine somewhere.resolve_right fun waits => awake id toWake ?_
        obtain ⟨task, parked, rfl⟩ := mem_map.mp waits
        obtain ⟨waiting, entry, rfl⟩ := mem_map.mp parked
        rw [← listed.keyed waiting entry]
        exact List.mem_map_of_mem entry
      · exact (moved.queued.sublist.map _).subset inQueue
      · rw [idle] at wrong
        cases wrong
    constructor
    · intro id wasWoken
      obtain ⟨wrong, -⟩ | ⟨-, wasWoken⟩ := wokenSincePoll_cons wasWoken
      · cases wrong
      obtain finished | dropped | here := queued id wasWoken
      · exact .inl (.tail _ finished)
      · exact .inr (.inl (.tail _ dropped))
      · exact .inr (.inr (.inr (.inl here)))
    · rintro id ⟨-, wasWoken, unfinished, -⟩
      refine ⟨by simpa using unfinished, ?_⟩
      obtain finished | dropped | here := queued id wasWoken
      · exact absurd finished unfinished
      · exact .inl (.tail _ dropped)
      obtain ⟨task, here, same⟩ := mem_map.mp here
      obtain ⟨front, back, split⟩ := List.append_of_mem here
      refine .inr ⟨front, task, back, split, same, ?_⟩
      have few := census.few
      rw [sinceStart_runStart, beforeStart_runStart, census.added]
      rw [split] at few
      simp only [List.length_append, List.length_cons] at few
      rw [List.countP_nil]
      omega
  next => cases done

theorem getFirst_keeps (done : executor.getFirst = some next) : next.Kept := by
  rw [getFirst] at done
  split at done
  next looping =>
    have nobody : executor.held = [] := by rw [held, looping]
    cases nodes : executor.taskList.nodes with
    | nil =>
      rw [DataQueueHead.getFirst, nodes] at done
      cases done
      have still : executor.taskList.withoutFirst.nodes = [] := congrArg List.tail nodes
      refine kept.advance rfl (fun _ => .inl) rfl (by simp) (fun busy => absurd rfl busy) ?_ kept.counted.withoutFirst
        (fun _ nonempty => absurd still nonempty) ?_
      · refine Census.note (kept.census.perm ?_) (by simp [Record.task?]) rfl (by simp) (by simp)
        rw [all, all, nobody, nodes, still]
        exact List.Perm.refl _
      -- nothing is left in the queue, so nothing is due
      refine kept.wakes.advance rfl (by simp) (by simp) (by simp) (fun id _ ready => .inr ?_) fun id _ soon => ?_
      · obtain toWake | queued | ⟨task, wrong, -⟩ := ready
        · exact .inl toWake
        · rw [nodes] at queued
          cases queued
        · cases looping.symm.trans wrong
      · rw [Soon, looping] at soon
        have here := soon.mem
        rw [nodes] at here
        cases here
    | cons task rest =>
      rw [DataQueueHead.getFirst, nodes] at done
      cases done
      have shifted : executor.taskList.withoutFirst.nodes = rest := congrArg List.tail nodes
      have member : task ∈ executor.all := by simp [all, nodes]
      refine kept.advance rfl (fun _ => .inl) rfl (by simp) (fun _ => ⟨by simp [looping], by simp⟩) ?_
        kept.counted.withoutFirst (by simp) ?_
      · refine Census.note (kept.census.perm ?_) ?_ rfl (by simp) (by simp)
        · rw [all, all, nobody, nodes, shifted, held]
          simp only [append_nil, List.cons_append, append_assoc]
          exact perm_middle.symm
        · intro id same
          cases same
          exact kept.census.id_lt member
      · refine kept.wakes.advance rfl (by simp) (by simp) (by simp) (fun id _ ready => .inr ?_) fun id _ soon => .inr ?_
        · obtain toWake | queued | ⟨task, wrong, -⟩ := ready
          · exact .inl toWake
          · rw [nodes, map_cons, mem_cons] at queued
            obtain rfl | queued := queued
            · exact .inr (.inr ⟨task, rfl, rfl⟩)
            · exact .inr (.inl (by rw [shifted]; exact queued))
          · cases looping.symm.trans wrong
        · rw [Soon, looping] at soon
          obtain ⟨front, found, back, split, same, near⟩ := soon
          rw [nodes] at split
          cases front with
          | nil =>
            cases split
            refine .inr ⟨same, ?_⟩
            rw [sinceStart_cons (by simp), beforeStart_cons (by simp), List.countP_cons_of_pos rfl]
            omega
          | cons skipped front =>
            cases split
            refine .inl ⟨front, found, back, shifted, same, ?_⟩
            rw [sinceStart_cons (by simp), beforeStart_cons (by simp), List.countP_cons_of_pos rfl]
            simp only [List.length_cons] at near
            omega
  next => cases done

theorem Kept.census_held (task : AsyncTask) (hand : executor.held = [task]) :
    Census (task :: (executor.taskList.nodes ++ executor.waitingTasks.map Prod.snd)) executor.history
      executor.taskIdCounter := by
  refine kept.census.perm ?_
  rw [all, hand, append_assoc]
  exact perm_middle

theorem checkProcess_keeps (done : executor.checkProcess = some next) : next.Kept := by
  rw [checkProcess] at done
  split at done
  next task popped =>
    have census := kept.census_held task (by rw [held, popped])
    split at done
    · cases done
      refine kept.advance rfl (fun _ => .inl) rfl (by simp) (fun _ => ⟨by simp [popped], by simp⟩) ?_ kept.counted
        nofun ?_
      · refine Census.note (kept.census.perm ?_) ?_ rfl (by simp) ?_
        · rw [all, all, held, held, popped]
        · intro id same
          cases same
          exact census.id_lt (.head _)
        · intro id same
          cases same
          exact (census.unfinished (.head _)).1
      · refine kept.wakes.advance rfl (by simp) (by simp) (by simp) (fun id other ready => .inr ?_) fun id other soon => .inr ?_
        · obtain toWake | queued | ⟨found, phase, same⟩ := ready
          · exact .inl toWake
          · exact .inr (.inl queued)
          · cases popped.symm.trans phase
            exact absurd (congrArg pollStart same) other
        · rw [Soon, popped] at soon
          obtain soon | ⟨same, -⟩ := soon
          · exact soon.cons (by simp) rfl
          · exact absurd (congrArg pollStart same) other
    next dead =>
      cases done
      refine kept.advance rfl (fun _ => .inl) rfl (by simp) (fun _ => ⟨by simp [popped], by simp⟩) ?_ kept.counted
        nofun ?_
      · refine (census.leave (.inr ⟨rfl, ?_⟩)).perm ?_
        · -- the process was looked up and not found
          have known := census.known task (.head _)
          rw [procAlive] at dead
          split at dead
          next => exact absurd rfl dead
          next pid some =>
          rw [some] at known
          refine ⟨pid, known, kept.gone pid ?_⟩
          simpa using dead
        · rw [all, held, append_nil]
      · refine kept.wakes.advance rfl (by simp) (by simp) (by simp) (fun id _ ready => ?_) fun id _ soon => ?_
        · obtain toWake | queued | ⟨found, phase, rfl⟩ := ready
          · exact .inr (.inl toWake)
          · exact .inr (.inr (.inl queued))
          · cases popped.symm.trans phase
            exact .inl (.head _)
        · rw [Soon, popped] at soon
          obtain soon | ⟨rfl, -⟩ := soon
          · exact .inr (soon.cons (by simp) rfl)
          · exact .inl (.head _)
  next => cases done

theorem pollEnds_keeps {ready : Bool} (done : executor.pollEnds ready = some next) : next.Kept := by
  rw [pollEnds] at done
  split at done
  next task polling =>
    have census := kept.census_held task (by rw [held, polling])
    split at done
    · cases done
      refine kept.advance rfl (fun _ => .inl) rfl (by simp) (fun _ => ⟨by simp [polling], by simp⟩) ?_ kept.counted
        nofun ?_
      · refine (census.leave (.inl rfl)).perm ?_
        rw [all, held, append_nil]
      refine kept.wakes.advance rfl (by simp) (by simp) (fun id place same => ?_) (fun id _ ready => .inr ?_)
        fun id _ soon => .inr ?_
      · -- the task in hand is neither queued nor dropped
        cases same
        rw [Soon, polling] at place
        obtain dropped | soon := place
        · exact (census.unfinished (.head _)).2 dropped
        · have distinct := census.distinct
          rw [map_cons, List.nodup_cons, map_append, mem_append, not_or] at distinct
          exact distinct.1.1 soon.mem
      · obtain toWake | queued | ⟨found, phase, -⟩ := ready
        · exact .inl toWake
        · exact .inr (.inl queued)
        · cases polling.symm.trans phase
      · rw [Soon, polling] at soon
        exact soon.cons (by simp) rfl
    · cases done
      constructor
      · refine census.perm ?_
        show List.Perm _ (executor.taskList.nodes ++ [] ++ (executor.waitingTasks ++ [(task.id, task)]).map Prod.snd)
        rw [append_nil, map_append, ← append_assoc]
        exact (List.perm_append_singleton task _).symm
      · intro waiting member
        obtain member | member := mem_append.mp member
        · exact kept.keyed waiting member
        · cases List.mem_singleton.mp member
          rfl
      · exact kept.gone
      · exact kept.counted
      · intro busy
        cases busy
      · exact fun _ => kept.running (by simp [polling])
      constructor
      · intro id wasWoken
        obtain finished | dropped | toWake | queued | ⟨found, phase, -⟩ := kept.wakes.woken id wasWoken
        · exact .inl finished
        · exact .inr (.inl dropped)
        · exact .inr (.inr (.inl toWake))
        · exact .inr (.inr (.inr (.inl queued)))
        · cases polling.symm.trans phase
      · intro id due
        obtain ⟨unfinished, place⟩ := kept.wakes.due id due
        rw [Soon, polling] at place
        exact ⟨unfinished, place⟩
  next => cases done

theorem step_keeps (stepped : executor.step action = some next) : next.Kept := by
  cases action with
  | addTask procId => exact addTask_keeps kept stepped
  | wakeTask taskId => exact wakeTask_keeps kept stepped
  | exit pid =>
    cases stepped
    exact exit_keeps kept pid
  | processTasks => exact processTasks_keeps kept stepped
  | getFirst => exact getFirst_keeps kept stepped
  | checkProcess => exact checkProcess_keeps kept stepped
  | pollEnds ready => exact pollEnds_keeps kept stepped

theorem step_isSome (few : executor.taskIdCounter < 100000)
    (enabled : executor.Enabled action) : (executor.step action).isSome := by
  cases action with
  | addTask procId =>
    simp [step, addTask, kept.counted.push few]
  | wakeTask taskId =>
    have first : executor.apicId = 0 := enabled
    simp [step, wakeTask, first]
  | exit pid => rfl
  | processTasks =>
    have idle : executor.phase = .idle := enabled
    obtain ⟨after, woken⟩ := Option.isSome_iff_exists.mp (wakeEach_isSome executor.tasksToWake (kept.listed idle) few)
    have body : executor.processTasks = some { after with phase := .looping, history := .runStart :: after.history } := by
      rw [processTasks]
      split
      next => exact Option.bind_eq_some_iff.mpr ⟨after, woken, rfl⟩
      next busy => exact absurd idle busy
    rw [step, body]
    rfl
  | getFirst =>
    have looping : executor.phase = .looping := enabled
    rw [step, getFirst, looping]
    obtain ⟨_ | task, taskList⟩ := executor.taskList.getFirst
    · rfl
    · rfl
  | checkProcess =>
    obtain ⟨task, popped⟩ := enabled
    rw [step, checkProcess, popped]
    dsimp only
    split
    · rfl
    · rfl
  | pollEnds ready =>
    obtain ⟨task, polling⟩ := enabled
    rw [step, pollEnds, polling]
    dsimp only
    split
    · rfl
    · rfl

/-! ## What a run promises -/

/-- The promises about the state and the history that a run has reached. -/
structure LosesNothing (executor : Executor) : Prop where
  /-- A task whose process lives is in one place until it finishes. -/
  onePlace : ∀ id procId, .added id procId ∈ executor.history → .finished id ∉ executor.history →
    Alive executor.history procId → executor.places id = 1
  finishedNotPolled : ∀ newer older id, executor.history = newer ++ .finished id :: older → .pollStart id ∉ newer
  /-- A task that was woken when a run started has been polled when that run has ended. -/
  wokenPolled : ∀ earlier later id procId, executor.history = later ++ .runStart :: earlier → .runStart ∉ later →
    WokenSincePoll earlier id → .finished id ∉ earlier → .added id procId ∈ earlier →
    Alive executor.history procId → .runEnd ∈ later → .pollStart id ∈ later
  /-- And the run does not have to end: as many tasks as were there at its start may be taken up first. -/
  wokenSoon : ∀ earlier later id procId, executor.history = later ++ .runStart :: earlier → .runStart ∉ later →
    WokenSincePoll earlier id → .finished id ∉ earlier → .added id procId ∈ earlier →
    Alive executor.history procId → earlier.countP adds < later.countP pops → .pollStart id ∈ later

theorem Kept.notDropped
    (added : .added id procId ∈ executor.history) (alive : Alive executor.history procId) :
    .dropped id ∉ executor.history := by
  intro dropped
  obtain ⟨pid, addedFor, exited⟩ := kept.census.dropped id dropped
  exact alive pid (kept.census.addedOnce id procId _ added addedFor) exited

theorem Kept.soon {earlier later : List Record}
    (split : executor.history = later ++ .runStart :: earlier) (unbroken : .runStart ∉ later)
    (woken : WokenSincePoll earlier id) (unfinished : .finished id ∉ earlier) (added : .added id procId ∈ earlier)
    (alive : Alive executor.history procId) (notPolled : .pollStart id ∉ later) : executor.Soon id := by
  obtain ⟨since, before⟩ := split_at_start earlier unbroken
  have due : Due executor.history id := by
    rw [split]
    exact ⟨mem_append_right _ (.head _), by rwa [before], by rwa [before], by rwa [since]⟩
  have known : .added id procId ∈ executor.history := by
    rw [split]
    exact mem_append_right _ (.tail _ added)
  exact (kept.wakes.due id due).2.resolve_left (kept.notDropped known alive)

theorem Kept.losesNothing : executor.LosesNothing where
  onePlace id procId added unfinished alive := by
    have one := kept.census.onePlace id (kept.census.born _ added id rfl)
    rw [count_eq_zero.mpr unfinished, count_eq_zero.mpr (kept.notDropped added alive)] at one
    simp only [all, map_append, List.count_append, map_map] at one
    exact one
  finishedNotPolled := kept.census.notPolledAgain
  wokenPolled earlier later id procId split unbroken woken unfinished added alive ended := by
    by_contra notPolled
    have soon := kept.soon split unbroken woken unfinished added alive notPolled
    have idle : executor.phase = .idle := by
      by_contra busy
      have running := kept.running busy
      rw [split, (split_at_start earlier unbroken).1] at running
      exact running ended
    rwa [Soon, idle] at soon
  wokenSoon earlier later id procId split unbroken woken unfinished added alive many := by
    by_contra notPolled
    have soon := kept.soon split unbroken woken unfinished added alive notPolled
    obtain ⟨since, before⟩ := split_at_start earlier unbroken
    have queued (soon : InQueueSoon executor.taskList.nodes executor.history id) : False := by
      obtain ⟨front, task, back, -, -, near⟩ := soon
      rw [split, since, before] at near
      omega
    rw [Soon] at soon
    split at soon
    · exact soon
    · exact queued soon
    · exact queued soon
    obtain soon | ⟨-, near⟩ := soon
    · exact queued soon
    · rw [split, since, before] at near
      omega

end Kept

/-- In every run the executor loses no task, and with fewer than 100000 tasks none of its steps waits for ever. -/
theorem executor_loses_nothing (apicId : Nat) (actions : List Action) (finish : Executor)
    (run : runs step (new apicId) actions = some finish) : finish.LosesNothing ∧ (finish.taskIdCounter < 100000 →
      ∀ action, finish.Enabled action → (finish.step action).isSome) := by
  have kept : finish.Kept := runs_keeps Kept step_keeps run (Kept.new apicId)
  exact ⟨kept.losesNothing, fun few action enabled => step_isSome kept few enabled⟩

/-- A task is woken during its first poll, parks, and is polled in the next run. -/
theorem executor_loses_nothing_wokenInPoll :
    ∃ finish, runs step (new 0) [.addTask none, .processTasks, .getFirst, .checkProcess, .wakeTask 0, .pollEnds false,
        .getFirst, .processTasks, .getFirst, .checkProcess] = some finish ∧
      finish.LosesNothing ∧ .pollStart 0 ∈ sinceStart finish.history ∧ (finish.step (.pollEnds true)).isSome :=
  ⟨_, rfl, (executor_loses_nothing 0 [.addTask none, .processTasks, .getFirst, .checkProcess, .wakeTask 0, .pollEnds false,
    .getFirst, .processTasks, .getFirst, .checkProcess] _ rfl).1, by decide, by decide⟩

end Executor

end MeowOs.Tasks
