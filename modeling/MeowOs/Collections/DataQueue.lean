import Mathlib.Data.List.Basic

/-! # The bounded queue

`DataQueueHead` of `queue.rs`: a chain of nodes with a pointer to the last one
and a node count that is kept apart from the chain.  The loops that drop old
nodes are given a number of rounds; `push_eq_some` and `append_eq_some` say
that a number of rounds is enough exactly where the loop has nothing to do,
since `get_first` leaves the count alone.
-/

namespace MeowOs.Collections

/-- The count is never below the number of nodes, and it is above it once the pointer to the last
node of a chain is lost. -/
structure DataQueueHead (α : Type) where
  /-- The data of the chain that `first_node` owns. -/
  nodes : List α
  /-- Whether `last_node` is set.  It then points at the last node of the chain. -/
  hasLast : Bool
  maxNodes : Nat
  currNodes : Nat
  last_of_empty : nodes = [] → hasLast = false
  counted : nodes.length ≤ currNodes
  overcounted : nodes ≠ [] → hasLast = false → nodes.length < currNodes

namespace DataQueueHead

variable {α : Type} {queue after : DataQueueHead α} {other : DataQueueHead α}

def new (maxNodes : Nat) : DataQueueHead α where
  nodes := []
  hasLast := false
  maxNodes := maxNodes
  currNodes := 0
  last_of_empty _ := rfl
  counted := Nat.le_refl 0
  overcounted nonempty := absurd rfl nonempty

def len (queue : DataQueueHead α) : Nat := queue.currNodes

def isEmpty (queue : DataQueueHead α) : Bool := queue.currNodes == 0

def withoutFirst (queue : DataQueueHead α) : DataQueueHead α where
  nodes := queue.nodes.tail
  hasLast := if queue.nodes.tail.isEmpty then false else queue.hasLast
  maxNodes := queue.maxNodes
  currNodes := queue.currNodes
  last_of_empty empty := by simp [empty]
  counted := by
    have counted := queue.counted
    rw [List.length_tail]
    omega
  overcounted nonempty lost := by
    have whole : queue.nodes ≠ [] := by
      intro empty
      simp [empty] at nonempty
    have lost : queue.hasLast = false := by simpa [nonempty] using lost
    have overcounted := queue.overcounted whole lost
    rw [List.length_tail]
    omega

def getFirst (queue : DataQueueHead α) : Option α × DataQueueHead α := (queue.nodes.head?, queue.withoutFirst)

/-- `while full(self) { let _ = self.get_first(); }`, for at most `rounds` tests of the condition. -/
def dropOldestWhile (full : DataQueueHead α → Bool) : Nat → DataQueueHead α → Option (DataQueueHead α)
  | 0, _ => none
  | rounds + 1, queue => if full queue then dropOldestWhile full rounds queue.getFirst.2 else some queue

/-- What `push` does once there is room.  A queue without `last_node` starts a new chain. -/
def link (queue : DataQueueHead α) (data : α) : DataQueueHead α where
  nodes := if queue.hasLast then queue.nodes ++ [data] else [data]
  hasLast := true
  maxNodes := queue.maxNodes
  currNodes := if queue.hasLast then queue.currNodes + 1 else 1
  last_of_empty empty := by cases last : queue.hasLast <;> simp [last] at empty
  counted := by
    have counted := queue.counted
    cases last : queue.hasLast with
    | false => simp
    | true => simpa using counted
  overcounted _ lost := by cases lost

def pushWithin (rounds : Nat) (queue : DataQueueHead α) (data : α) : Option (DataQueueHead α) :=
  (dropOldestWhile (fun queue => queue.maxNodes ≤ queue.currNodes) rounds queue).map (·.link data)

def splice (queue other : DataQueueHead α) (nonempty : queue.nodes ≠ []) (counting : other.currNodes ≠ 0) :
    DataQueueHead α where
  nodes := queue.nodes ++ other.nodes
  hasLast := other.hasLast
  maxNodes := queue.maxNodes
  currNodes := queue.currNodes + other.currNodes
  last_of_empty empty := by simp [nonempty] at empty
  counted := by
    have first := queue.counted
    have second := other.counted
    rw [List.length_append]
    omega
  overcounted _ lost := by
    have first := queue.counted
    have second := other.counted
    rw [List.length_append]
    by_cases drained : other.nodes = []
    · simp only [drained, List.length_nil]
      omega
    · have strict := other.overcounted drained lost
      omega

def appendWithin (rounds : Nat) (queue other : DataQueueHead α) : Option (DataQueueHead α) :=
  if counting : other.currNodes = 0 then some queue
  else do
    let maxNodes := queue.maxNodes
    let queue ← dropOldestWhile
      (fun queue => maxNodes < queue.currNodes + other.currNodes && 0 < queue.currNodes) rounds queue
    if empty : queue.nodes = [] then
      dropOldestWhile (fun queue => maxNodes < queue.currNodes) rounds { other with maxNodes := maxNodes }
    else if queue.hasLast then some (queue.splice other empty counting)
    -- `unreachable!()`
    else none

def takeQueue (queue : DataQueueHead α) : DataQueueHead α × DataQueueHead α := (queue, new queue.maxNodes)

/-! ## The loops -/

/-- A condition on the limit and the count is the same after `get_first`, so the loop ends at once or never. -/
theorem dropOldestWhile_succ (full : Nat → Nat → Bool) (rounds : Nat) (queue : DataQueueHead α) :
    dropOldestWhile (fun queue => full queue.maxNodes queue.currNodes) (rounds + 1) queue =
      if full queue.maxNodes queue.currNodes then none else some queue := by
  induction rounds generalizing queue with
  | zero => simp only [dropOldestWhile]
  | succ rounds ih =>
    rw [dropOldestWhile, ih]
    have sameMax : queue.getFirst.2.maxNodes = queue.maxNodes := rfl
    have sameCount : queue.getFirst.2.currNodes = queue.currNodes := rfl
    rw [sameMax, sameCount]
    cases full queue.maxNodes queue.currNodes with
    | false => rfl
    | true => rfl

def push (queue : DataQueueHead α) (data : α) : Option (DataQueueHead α) :=
  if queue.maxNodes ≤ queue.currNodes then none else some (queue.link data)

theorem pushWithin_succ (rounds : Nat) (queue : DataQueueHead α) (data : α) :
    queue.pushWithin (rounds + 1) data = queue.push data := by
  rw [pushWithin, dropOldestWhile_succ (fun limit count => limit ≤ count), push]
  by_cases full : queue.maxNodes ≤ queue.currNodes
  · simp [full]
  · simp [full]

theorem push_eq_some {data : α} :
    queue.push data = some after ↔ ∃ rounds, queue.pushWithin rounds data = some after := by
  constructor
  · intro pushed
    exact ⟨1, by rw [pushWithin_succ, pushed]⟩
  rintro ⟨rounds, pushed⟩
  cases rounds with
  | zero => cases pushed
  | succ rounds => rwa [pushWithin_succ] at pushed

theorem push_cases {data : α} (pushed : queue.push data = some after) :
    queue.currNodes < queue.maxNodes ∧ after = queue.link data := by
  rw [push] at pushed
  split at pushed
  · cases pushed
  next room => exact ⟨Nat.not_le.mp room, (Option.some.inj pushed).symm⟩

def append (queue other : DataQueueHead α) : Option (DataQueueHead α) :=
  if counting : other.currNodes = 0 then some queue
  else if queue.maxNodes < queue.currNodes + other.currNodes && 0 < queue.currNodes then none
  else if empty : queue.nodes = [] then
    if queue.maxNodes < other.currNodes then none else some { other with maxNodes := queue.maxNodes }
  else if queue.hasLast then some (queue.splice other empty counting)
  else none

theorem appendWithin_succ (rounds : Nat) (queue other : DataQueueHead α) :
    queue.appendWithin (rounds + 1) other = queue.append other := by
  rw [appendWithin, append]
  by_cases counting : other.currNodes = 0
  · simp [counting]
  simp only [counting, dite_false]
  rw [dropOldestWhile_succ (fun _ count => queue.maxNodes < count + other.currNodes && 0 < count)]
  by_cases full : (queue.maxNodes < queue.currNodes + other.currNodes && 0 < queue.currNodes) = true
  · rw [if_pos full, if_pos full]
    rfl
  · rw [if_neg full, if_neg full, Option.bind_eq_bind, Option.bind_some,
      dropOldestWhile_succ (fun _ count => queue.maxNodes < count)]
    simp

theorem append_eq_some : queue.append other = some after ↔ ∃ rounds, queue.appendWithin rounds other = some after := by
  constructor
  · intro appended
    exact ⟨1, by rw [appendWithin_succ, appended]⟩
  rintro ⟨rounds, appended⟩
  cases rounds with
  | succ rounds => rwa [appendWithin_succ] at appended
  | zero =>
    rw [appendWithin] at appended
    rw [append]
    by_cases counting : other.currNodes = 0
    · simpa [counting] using appended
    · simp [counting, dropOldestWhile] at appended

theorem append_cases (appended : queue.append other = some after) : (other.currNodes = 0 ∧ after = queue) ∨
      (queue.nodes = [] ∧ other.currNodes ≤ queue.maxNodes ∧ after = { other with maxNodes := queue.maxNodes }) ∨
      ∃ nonempty counting, queue.currNodes + other.currNodes ≤ queue.maxNodes ∧
        after = queue.splice other nonempty counting := by
  rw [append] at appended
  split at appended
  next counting => exact .inl ⟨counting, (Option.some.inj appended).symm⟩
  next counting =>
  split at appended
  · cases appended
  next fits =>
  split at appended
  next empty =>
    split at appended
    · cases appended
    next room => exact .inr (.inl ⟨empty, Nat.not_lt.mp room, (Option.some.inj appended).symm⟩)
  next nonempty =>
    split at appended
    · have positive := List.length_pos_of_ne_nil nonempty
      have counted := queue.counted
      rw [Bool.and_eq_true, decide_eq_true_eq, decide_eq_true_eq] at fits
      exact .inr (.inr ⟨nonempty, counting, by omega, (Option.some.inj appended).symm⟩)
    · cases appended

/-! ## Calls and the list they stand for -/

/-- The stored elements are `stored`, the count is right and the limit is kept. -/
structure Stores (queue : DataQueueHead α) (stored : List α) : Prop where
  nodes : queue.nodes = stored
  len : queue.len = stored.length
  bounded : stored.length ≤ queue.maxNodes

theorem Stores.new (maxNodes : Nat) : (new maxNodes : DataQueueHead α).Stores [] := ⟨rfl, rfl, Nat.zero_le _⟩

theorem Stores.hasLast {stored : List α} (stores : queue.Stores stored)
    (nonempty : stored ≠ []) : queue.hasLast = true := by
  rw [← stores.nodes] at nonempty
  cases last : queue.hasLast with
  | true => rfl
  | false =>
    have strict := queue.overcounted nonempty last
    have len := stores.len
    rw [← stores.nodes, DataQueueHead.len] at len
    omega

end DataQueueHead

open DataQueueHead

/-- A call on a queue.  `append` takes any other queue. -/
inductive QueueCall (α : Type) where
  | push (data : α)
  | getFirst
  | append (other : DataQueueHead α)
  | takeQueue

inductive QueueAnswer (α : Type) where
  | done
  | first (data : Option α)
  | queue (taken : DataQueueHead α)

variable {α : Type} {stored : List α} {queue after : DataQueueHead α}

def DataQueueHead.callWithin (rounds : Nat) (queue : DataQueueHead α) :
    QueueCall α → Option (QueueAnswer α × DataQueueHead α)
  | .push data => (queue.pushWithin rounds data).map fun after => (.done, after)
  | .getFirst => some (.first queue.getFirst.1, queue.getFirst.2)
  | .append other => (queue.appendWithin rounds other).map fun after => (.done, after)
  | .takeQueue => some (.queue queue.takeQueue.1, queue.takeQueue.2)

def keepNewest (maxNodes : Nat) (stored : List α) : List α := stored.drop (stored.length - maxNodes)

def listAfter (maxNodes : Nat) (stored : List α) : QueueCall α → List α
  | .push data => keepNewest maxNodes (stored ++ [data])
  | .getFirst => stored.tail
  | .append other => keepNewest maxNodes (stored ++ other.nodes)
  | .takeQueue => []

def AnswersAs (stored : List α) : QueueCall α → QueueAnswer α → Prop
  | .push _, .done => True
  | .getFirst, .first data => data = stored.head?
  | .append _, .done => True
  | .takeQueue, .queue taken => taken.Stores stored
  | _, _ => False

/-- One call returns, answers as the bounded list does, and leaves `after` with the right elements and count. -/
def CallBehaves (queue : DataQueueHead α) (stored : List α) (call : QueueCall α) (after : DataQueueHead α) : Prop :=
  ∃ rounds answer, queue.callWithin rounds call = some (answer, after) ∧ AnswersAs stored call answer ∧
    after.Stores (listAfter queue.maxNodes stored call)

def BehavesAsList : DataQueueHead α → List α → List (QueueCall α) → Prop
  | _, _, [] => True
  | queue, stored, call :: rest => ∃ after, CallBehaves queue stored call after ∧
      BehavesAsList after (listAfter queue.maxNodes stored call) rest

/-- The call neither removes a node nor has to drop one, and a queue it appends counts its nodes right. -/
def RemovesNothing (maxNodes : Nat) (stored : List α) : QueueCall α → Prop
  | .push _ => stored.length < maxNodes
  | .getFirst => stored = []
  | .append other => other.len = other.nodes.length ∧ (other.nodes = [] ∨ stored.length + other.nodes.length ≤ maxNodes)
  | .takeQueue => True

def NeverRemoves (maxNodes : Nat) : List α → List (QueueCall α) → Prop
  | _, [] => True
  | stored, call :: rest => RemovesNothing maxNodes stored call ∧
      NeverRemoves maxNodes (listAfter maxNodes stored call) rest

theorem keepNewest_of_le {maxNodes : Nat} (fits : stored.length ≤ maxNodes) : keepNewest maxNodes stored = stored := by
  rw [keepNewest, Nat.sub_eq_zero_of_le fits, List.drop_zero]

section Calls

variable {queue after : DataQueueHead α} {stored : List α}

section

variable (stores : queue.Stores stored) {other : DataQueueHead α}

include stores

theorem push_behaves (data : α) : CallBehaves queue stored (.push data) after ↔
      stored.length < queue.maxNodes ∧ after = queue.link data := by
  have count : queue.currNodes = stored.length := stores.len
  constructor
  · rintro ⟨rounds, answer, returns, -, -⟩
    obtain ⟨linked, pushed, same⟩ := Option.map_eq_some_iff.mp returns
    obtain ⟨room, rfl⟩ := push_cases (push_eq_some.mpr ⟨rounds, pushed⟩)
    cases same
    exact ⟨by omega, rfl⟩
  rintro ⟨room, rfl⟩
  have pushed : queue.push data = some (queue.link data) := by
    rw [push, if_neg (by omega)]
  refine ⟨1, .done, by rw [callWithin, pushWithin_succ, pushed]; rfl, trivial, ?_⟩
  rw [listAfter, keepNewest_of_le (by rw [List.length_append]; exact room)]
  -- the count is reset to one where the chain is empty, and there it is right
  by_cases empty : stored = []
  · have last : queue.hasLast = false := queue.last_of_empty (stores.nodes.trans empty)
    subst empty
    exact ⟨by simp [link, last], by simp [link, len, last], room⟩
  have last := stores.hasLast empty
  refine ⟨by simp [link, last, stores.nodes], by simp [link, len, last, count], ?_⟩
  rw [List.length_append]
  exact room

theorem getFirst_behaves : CallBehaves queue stored .getFirst after ↔ stored = [] ∧ after = queue.withoutFirst := by
  have count : queue.currNodes = stored.length := stores.len
  constructor
  · rintro ⟨rounds, answer, returns, -, left⟩
    cases returns
    have len : queue.currNodes = stored.tail.length := left.len
    cases stored with
    | nil => exact ⟨rfl, rfl⟩
    | cons first rest =>
      rw [count] at len
      simp at len
  · rintro ⟨rfl, rfl⟩
    refine ⟨0, _, rfl, ?_, ?_, ?_, Nat.zero_le _⟩
    · rw [AnswersAs, getFirst, stores.nodes]
    · simp [withoutFirst, stores.nodes, listAfter]
    · simp [withoutFirst, len, count, listAfter]

theorem takeQueue_behaves : CallBehaves queue stored .takeQueue after ↔ after = new queue.maxNodes := by
  constructor
  · rintro ⟨rounds, answer, returns, -, -⟩
    cases returns
    rfl
  · rintro rfl
    exact ⟨0, _, rfl, stores, Stores.new _⟩

theorem removesNothing_of_append (appended : queue.append other = some after)
    (left : after.Stores (listAfter queue.maxNodes stored (.append other))) :
    RemovesNothing queue.maxNodes stored (.append other) := by
  have count : queue.currNodes = stored.length := stores.len
  have counted := other.counted
  have shorter : (keepNewest queue.maxNodes (stored ++ other.nodes)).length ≤ _ := (List.drop_sublist _ _).length_le
  have len := left.len
  rw [List.length_append] at shorter
  rw [listAfter, DataQueueHead.len] at len
  obtain ⟨counting, -⟩ | ⟨empty, room, rfl⟩ | ⟨nonempty, counting, fits, rfl⟩ := append_cases appended
  · have empty : other.nodes = [] := List.eq_nil_of_length_eq_zero (by omega)
    exact ⟨by rw [DataQueueHead.len, counting, empty]; rfl, .inl empty⟩
  · have noneStored : stored.length = 0 := by rw [← stores.nodes, empty]; rfl
    simp only at len
    exact ⟨by rw [DataQueueHead.len]; omega, .inr (by omega)⟩
  · simp only [splice] at len
    exact ⟨by rw [DataQueueHead.len]; omega, .inr (by omega)⟩

theorem append_stores
    (fits : RemovesNothing queue.maxNodes stored (.append other)) : ∃ after, queue.append other = some after ∧
      after.Stores (listAfter queue.maxNodes stored (.append other)) := by
  have count : queue.currNodes = stored.length := stores.len
  obtain ⟨exactCount, fits⟩ := fits
  rw [DataQueueHead.len] at exactCount
  by_cases drained : other.nodes = []
  · have counting : other.currNodes = 0 := by rw [exactCount, drained]; rfl
    refine ⟨queue, by rw [append, dif_pos counting], ?_⟩
    rw [listAfter, drained, List.append_nil, keepNewest_of_le stores.bounded]
    exact stores
  have fits : stored.length + other.nodes.length ≤ queue.maxNodes := fits.resolve_left drained
  have positive : 0 < other.nodes.length := List.length_pos_of_ne_nil drained
  have counting : ¬ other.currNodes = 0 := by omega
  have room : ¬ (queue.maxNodes < queue.currNodes + other.currNodes && 0 < queue.currNodes) = true := by
    rw [Bool.and_eq_true, decide_eq_true_eq]
    omega
  rw [listAfter, keepNewest_of_le (by rw [List.length_append]; exact fits)]
  by_cases empty : queue.nodes = []
  · obtain rfl : stored = [] := stores.nodes.symm.trans empty
    refine ⟨{ other with maxNodes := queue.maxNodes }, ?_, rfl, exactCount, by simpa using fits⟩
    rw [append, dif_neg counting, if_neg room, dif_pos empty, if_neg (by simp at fits; omega)]
  have last := stores.hasLast (by rwa [stores.nodes] at empty)
  refine ⟨queue.splice other empty counting, ?_, ?_, ?_, ?_⟩
  · rw [append, dif_neg counting, if_neg room, dif_neg empty, if_pos last]
  · show queue.nodes ++ other.nodes = _
    rw [stores.nodes]
  · show queue.currNodes + other.currNodes = _
    rw [List.length_append, count, exactCount]
  · rw [List.length_append]
    exact fits

theorem append_behaves : (∃ after, CallBehaves queue stored (.append other) after) ↔
      RemovesNothing queue.maxNodes stored (.append other) := by
  constructor
  · rintro ⟨after, rounds, answer, returns, -, left⟩
    obtain ⟨joined, appended, same⟩ := Option.map_eq_some_iff.mp returns
    cases same
    exact removesNothing_of_append stores (append_eq_some.mpr ⟨rounds, appended⟩) left
  · intro fits
    obtain ⟨after, appended, left⟩ := append_stores stores fits
    exact ⟨after, 1, .done, by rw [callWithin, appendWithin_succ, appended]; rfl, trivial, left⟩

theorem call_behaves (call : QueueCall α) :
    (∃ after, CallBehaves queue stored call after) ↔ RemovesNothing queue.maxNodes stored call := by
  cases call with
  | push data => simp only [push_behaves stores, RemovesNothing, exists_and_left, exists_eq, and_true]
  | getFirst => simp only [getFirst_behaves stores, RemovesNothing, exists_and_left, exists_eq, and_true]
  | append other => exact append_behaves stores
  | takeQueue => simp only [takeQueue_behaves stores, RemovesNothing, exists_eq]

end

end Calls

theorem callWithin_maxNodes {rounds : Nat} {call : QueueCall α}
    {answer : QueueAnswer α} (returns : queue.callWithin rounds call = some (answer, after)) :
    after.maxNodes = queue.maxNodes := by
  cases call with
  | push data =>
    obtain ⟨linked, pushed, same⟩ := Option.map_eq_some_iff.mp returns
    cases same
    obtain ⟨-, rfl⟩ := push_cases (push_eq_some.mpr ⟨rounds, pushed⟩)
    rfl
  | getFirst =>
    cases returns
    rfl
  | append other =>
    obtain ⟨joined, appended, same⟩ := Option.map_eq_some_iff.mp returns
    cases same
    obtain ⟨-, rfl⟩ | ⟨-, -, rfl⟩ | ⟨_, _, -, rfl⟩ := append_cases (append_eq_some.mpr ⟨rounds, appended⟩)
    all_goals rfl
  | takeQueue =>
    cases returns
    rfl

theorem behavesAsList_of_stores (calls : List (QueueCall α))
    (stores : queue.Stores stored) : BehavesAsList queue stored calls ↔ NeverRemoves queue.maxNodes stored calls := by
  induction calls generalizing queue stored with
  | nil => exact Iff.rfl
  | cons call rest ih =>
    -- whatever queue a call that behaves leaves, the rest behaves on it under the same condition
    have later : ∀ after, CallBehaves queue stored call after →
        (BehavesAsList after (listAfter queue.maxNodes stored call) rest ↔
          NeverRemoves queue.maxNodes (listAfter queue.maxNodes stored call) rest) := by
      rintro after ⟨rounds, answer, returns, -, left⟩
      have sameMax := callWithin_maxNodes returns
      have rest := ih left
      rwa [sameMax] at rest
    constructor
    · rintro ⟨after, behaves, rest⟩
      exact ⟨(call_behaves stores call).mp ⟨after, behaves⟩, (later after behaves).mp rest⟩
    · rintro ⟨removes, rest⟩
      obtain ⟨after, behaves⟩ := (call_behaves stores call).mpr removes
      exact ⟨after, behaves, (later after behaves).mpr rest⟩

/-- A queue behaves as a bounded list over a sequence of calls exactly if no call takes a node off the chain. -/
theorem behavesAsList_iff_neverRemoves (maxNodes : Nat) (calls : List (QueueCall α)) :
    BehavesAsList (new maxNodes) [] calls ↔ NeverRemoves maxNodes [] calls :=
  behavesAsList_of_stores calls (Stores.new maxNodes)

/-- After one push and one `get_first` the length is still one; a second push onto a full queue never returns. -/
theorem queue_keeps_removed_count :
    ¬ BehavesAsList (new 1) [] [.push 7, .getFirst] ∧ ¬ BehavesAsList (new 1) [] [.push 7, .push 8] := by
  constructor
  · rintro ⟨after, ⟨rounds, answer, pushed, -, stores⟩, last, ⟨_, _, taken, -, left⟩, -⟩
    cases taken
    have before : after.currNodes = 1 := stores.len
    have len : after.currNodes = 0 := left.len
    omega
  · rintro ⟨after, ⟨rounds, answer, pushed, -, stores⟩, last, ⟨more, _, again, -⟩, -⟩
    have before : after.currNodes = 1 := stores.len
    have limit : after.maxNodes = 1 := callWithin_maxNodes pushed
    obtain ⟨linked, again, -⟩ := Option.map_eq_some_iff.mp again
    have room := (push_cases (push_eq_some.mpr ⟨more, again⟩)).1
    omega

end MeowOs.Collections
