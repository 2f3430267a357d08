import MeowOs.Machine.BinarySearch
import MeowOs.Machine.Interleaving

/-! # The event timer

`lapic_timer.rs` on one CPU: the list of scheduled events, its callers, and the
timer interrupt.  Callers work with interrupts disabled, so each call is one
step.  The timer interrupt is two, since it reads the clock before it disables
interrupts: others may schedule, cancel or handle events in between.

What the timer did is kept as a history.  `Justified` is the abstract account of
it: which record may follow which history.  `EventTimer.step_keeps` shows that
the timer only ever adds justified records; what users rely on follows from the
history alone.
-/

namespace MeowOs.Clocks

open MeowOs.Machine

/-! ## Histories of a timer -/

inductive TimerRecord where
  | scheduled (id time : Nat)
  | cancelled (id : Nat)
  /-- The callback ran; `reading` is the clock it was found due at. -/
  | ran (id time reading : Nat)
  /-- `handle_scheduled_events` returned, with this last reading of the clock. -/
  | handled (reading : Nat)
  deriving DecidableEq

namespace TimerRecord

def id? : TimerRecord → Option Nat
  | .scheduled id _ | .cancelled id | .ran id _ _ => some id
  | .handled _ => none

def ends? : TimerRecord → Option Nat
  | .cancelled id | .ran id _ _ => some id
  | .scheduled _ _ | .handled _ => none

def runs (id : Nat) : TimerRecord → Bool
  | .ran other _ _ => other == id
  | _ => false

theorem id?_of_ends? {record : TimerRecord} {id : Nat} (ends : record.ends? = some id) : record.id? = some id := by
  cases record with
  | cancelled | ran => exact ends
  | scheduled | handled => cases ends

theorem ends?_of_runs {record : TimerRecord} {id : Nat} (ran : record.runs id = true) : record.ends? = some id := by
  cases record with
  | ran other time reading => exact congrArg some (beq_iff_eq.mp ran)
  | _ => cases ran

end TimerRecord

/-- The event was scheduled for `time`, and has neither run nor been cancelled. -/
structure Pending (history : List TimerRecord) (id time : Nat) : Prop where
  scheduled : .scheduled id time ∈ history
  notEnded : ∀ record ∈ history, record.ends? ≠ some id

def Justified (before : List TimerRecord) : TimerRecord → Prop
  | .scheduled id _ => ∀ record ∈ before, record.id? ≠ some id
  | .cancelled id => ∃ time, Pending before id time
  | .ran id time reading =>
    Pending before id time ∧ time ≤ reading ∧ ∀ other otherTime, Pending before other otherTime → time ≤ otherTime
  | .handled reading => ∀ id time, Pending before id time → reading < time

abbrev Sound : List TimerRecord → Prop := EachRecord Justified

variable {history : List TimerRecord} {id time ticks : Nat} {record : TimerRecord}

theorem pending_snoc : Pending (history ++ [record]) id time ↔
      (.scheduled id time ∈ history ∨ record = .scheduled id time) ∧ (∀ old ∈ history, old.ends? ≠ some id) ∧
        record.ends? ≠ some id := by
  have scheduled : .scheduled id time ∈ history ++ [record] ↔ .scheduled id time ∈ history ∨ record = .scheduled id time := by
    rw [List.mem_append, List.mem_singleton, eq_comm]
  have isOpen := @List.forall_mem_append _ (fun old : TimerRecord => old.ends? ≠ some id) history [record]
  rw [List.forall_mem_singleton] at isOpen
  rw [← scheduled, ← isOpen]
  exact ⟨fun pending => ⟨pending.scheduled, pending.notEnded⟩, fun pending => ⟨pending.1, pending.2⟩⟩

theorem pending_snoc_ends {ended : Nat} (ends : record.ends? = some ended) :
    Pending (history ++ [record]) id time ↔ Pending history id time ∧ id ≠ ended := by
  have notScheduled : record ≠ .scheduled id time := by
    rintro rfl
    cases ends
  rw [pending_snoc, ends]
  constructor
  · rintro ⟨scheduled, isOpen, other⟩
    exact ⟨⟨scheduled.resolve_right notScheduled, isOpen⟩, fun same => other (congrArg some same.symm)⟩
  · rintro ⟨⟨scheduled, isOpen⟩, other⟩
    exact ⟨.inl scheduled, isOpen, fun same => other (Option.some.inj same).symm⟩

theorem pending_snoc_handled {reading : Nat} :
    Pending (history ++ [.handled reading]) id time ↔ Pending history id time := by
  rw [pending_snoc]
  constructor
  · rintro ⟨scheduled, isOpen, -⟩
    exact ⟨scheduled.resolve_right (by simp), isOpen⟩
  · rintro ⟨scheduled, isOpen⟩
    exact ⟨.inl scheduled, isOpen, by simp [TimerRecord.ends?]⟩

theorem pending_snoc_scheduled {fresh freshTime : Nat} (unused : ∀ record ∈ history, record.id? ≠ some fresh) :
    Pending (history ++ [.scheduled fresh freshTime]) id time ↔
      (id = fresh ∧ time = freshTime) ∨ Pending history id time := by
  rw [pending_snoc]
  constructor
  · rintro ⟨scheduled | same, isOpen, -⟩
    · exact .inr ⟨scheduled, isOpen⟩
    · cases same
      exact .inl ⟨rfl, rfl⟩
  · rintro (⟨rfl, rfl⟩ | ⟨scheduled, isOpen⟩)
    · refine ⟨.inr rfl, fun old inside ends => ?_, by simp [TimerRecord.ends?]⟩
      exact unused old inside (TimerRecord.id?_of_ends? ends)
    · exact ⟨.inl scheduled, isOpen, by simp [TimerRecord.ends?]⟩

theorem Justified.open_of_runs (justified : Justified history record) (ran : record.runs id = true) :
    ∀ old ∈ history, old.ends? ≠ some id := by
  cases record with
  | ran other time reading =>
    obtain rfl : other = id := beq_iff_eq.mp ran
    exact justified.1.notEnded
  | _ => cases ran

namespace Sound

variable {history : List TimerRecord}

variable {id time reading : Nat}

theorem scheduled_of_ran (sound : Sound history) (inside : .ran id time reading ∈ history) :
    .scheduled id time ∈ history := by
  obtain ⟨before, after, rfl⟩ := List.append_of_mem inside
  exact List.mem_append_left _ (sound before _ after rfl).1.scheduled

theorem notEarly (sound : Sound history) (inside : .ran id time reading ∈ history) : time ≤ reading := by
  obtain ⟨before, after, split⟩ := List.append_of_mem inside
  exact (sound before _ after split).2.1

theorem scheduled_unique (sound : Sound history) {other : Nat} (inside : .scheduled id time ∈ history)
    (otherInside : .scheduled id other ∈ history) : time = other := by
  induction history using List.reverseRecOn with
  | nil => cases inside
  | append_singleton history record ih =>
    obtain ⟨sound, last⟩ := EachRecord.of_snoc sound
    simp only [List.mem_append, List.mem_singleton] at inside otherInside
    -- the id of a new event is in no earlier record
    obtain inside | rfl := inside
    · obtain otherInside | rfl := otherInside
      · exact ih sound inside otherInside
      · exact absurd rfl (last _ inside)
    obtain otherInside | same := otherInside
    · exact absurd rfl (last _ otherInside)
    · cases same
      rfl

theorem countP_runs_eq_zero (isOpen : ∀ record ∈ history, record.ends? ≠ some id) :
    history.countP (TimerRecord.runs id) = 0 :=
  List.countP_eq_zero.mpr fun record inside ran => isOpen record inside (TimerRecord.ends?_of_runs ran)

theorem runs_le_one (sound : Sound history) (id : Nat) : history.countP (TimerRecord.runs id) ≤ 1 := by
  induction history using List.reverseRecOn with
  | nil => exact Nat.zero_le 1
  | append_singleton history record ih =>
    obtain ⟨sound, last⟩ := EachRecord.of_snoc sound
    rw [List.countP_append, List.countP_singleton]
    split
    next ran => rw [countP_runs_eq_zero (last.open_of_runs ran)]
    next => exact ih sound

theorem runs_eq_zero_of_cancelled (sound : Sound history) (inside : .cancelled id ∈ history) :
    history.countP (TimerRecord.runs id) = 0 := by
  induction history using List.reverseRecOn with
  | nil => cases inside
  | append_singleton history record ih =>
    obtain ⟨sound, last⟩ := EachRecord.of_snoc sound
    rw [List.countP_append, List.countP_singleton]
    simp only [List.mem_append, List.mem_singleton] at inside
    obtain inside | rfl := inside
    · rw [ih sound inside, Nat.zero_add]
      split
      next ran => exact absurd rfl (last.open_of_runs ran _ inside)
      next => rfl
    · obtain ⟨time, pending⟩ := last
      rw [countP_runs_eq_zero pending.notEnded]
      rfl

/-- Of two pending events the one with the later time does not run first. -/
theorem inTimeOrder (sound : Sound history) {early late before between after : List TimerRecord}
    {first second firstTime secondTime time₁ time₂ reading₁ reading₂ : Nat} (start : history = early ++ late)
    (firstPending : Pending early first firstTime) (secondPending : Pending early second secondTime)
    (earlier : firstTime < secondTime) :
    history ≠ before ++ .ran second time₂ reading₂ :: (between ++ .ran first time₁ reading₁ :: after) := by
  intro split
  have ran : TimerRecord.ran second time₂ reading₂ ∈ history := by simp [split]
  -- the second event was pending at `early`, so its run comes later
  have prefixes : early <+: before := by
    have both : early <+: history := ⟨late, start.symm⟩
    have other : before ++ [.ran second time₂ reading₂] <+: history :=
      ⟨between ++ .ran first time₁ reading₁ :: after, by rw [split, List.append_assoc, List.singleton_append]⟩
    have notYet : TimerRecord.ran second time₂ reading₂ ∉ early := fun member => secondPending.notEnded _ member rfl
    obtain inside | inside := List.prefix_or_prefix_of_prefix other both
    · exact absurd (inside.subset (by simp)) notYet
    obtain same | inside := List.prefix_concat_iff.mp inside
    · exact absurd (by simp [same]) notYet
    · exact inside
  have sameTime : time₂ = secondTime :=
    sound.scheduled_unique (sound.scheduled_of_ran ran)
      (by rw [start]; exact List.mem_append_left _ secondPending.scheduled)
  have runsLater : Pending (before ++ .ran second time₂ reading₂ :: between) first time₁ :=
    (sound _ (.ran first time₁ reading₁) after (by rw [split, List.append_assoc, List.cons_append])).1
  have stillPending : Pending before first firstTime :=
    ⟨prefixes.subset firstPending.scheduled, fun record inside => runsLater.notEnded record (List.mem_append_left _ inside)⟩
  have := (sound before _ _ split).2.2 first firstTime stillPending
  omega

end Sound

/-! ## The timer -/

/-- Times are nanoseconds since the epoch; a callback acts on what is outside the timer. -/
structure ScheduledEvent (σ : Type) where
  time : Nat
  callback : σ → σ

structure AcceptedScheduledEvent (σ : Type) where
  event : ScheduledEvent σ
  id : Nat

variable {σ : Type}

def compareTime (a b : AcceptedScheduledEvent σ) : Ordering := compare a.event.time b.event.time

/-- The part of `CpuLocals` that the timer works on, with the registers it writes. -/
structure EventTimer (σ : Type) where
  scheduledEventIdCounter : Nat
  scheduledEvents : List (AcceptedScheduledEvent σ)
  divideConfiguration : Nat
  initialCount : Nat
  readings : Nat
  /-- The timer interrupts that have read the clock and not yet disabled interrupts, the innermost first. -/
  entered : List Nat
  /-- What the callbacks act on. -/
  world : σ
  history : List TimerRecord

def saturate (n : Nat) : Nat := min n (2 ^ 64 - 1)

def leadingZeros (n : Nat) : Nat := if n = 0 then 64 else 63 - n.log2

def dividedTicks (ticks : Nat) : Nat × Nat :=
  let zeros := leadingZeros ticks
  if 32 ≤ zeros then (0b1011, ticks)
  else match zeros with
    | 31 => (0b0000, ticks / 2)
    | 30 => (0b0001, ticks / 4)
    | 29 => (0b0010, ticks / 8)
    | 28 => (0b0011, ticks / 16)
    | 27 => (0b1000, ticks / 32)
    | 26 => (0b1001, ticks / 64)
    | 25 => (0b1010, ticks / 128)
    -- more than ten minutes
    | _ => (0b1010, 2 ^ 32 - 1)

def divisor : Nat → Nat
  | 0b0000 => 2
  | 0b0001 => 4
  | 0b0010 => 8
  | 0b0011 => 16
  | 0b1000 => 32
  | 0b1001 => 64
  | 0b1010 => 128
  | _ => 1

theorem leadingZeros_le_iff (bits : Nat) (word : ticks < 2 ^ 64) (few : bits ≤ 64) :
    64 - bits ≤ leadingZeros ticks ↔ ticks < 2 ^ bits := by
  unfold leadingZeros
  split
  next zero =>
    subst zero
    exact ⟨fun _ => Nat.two_pow_pos bits, fun _ => Nat.sub_le 64 bits⟩
  next nonzero =>
  have below : ticks.log2 < 64 := (Nat.log2_lt nonzero).mpr word
  rw [← Nat.log2_lt nonzero]
  omega

theorem dividedTicks_spec (word : ticks < 2 ^ 64) :
    (dividedTicks ticks).2 < 2 ^ 32 ∧ ((dividedTicks ticks).2 = 0 → ticks = 0) ∧ 0 < divisor (dividedTicks ticks).1 ∧
      (dividedTicks ticks).2 * divisor (dividedTicks ticks).1 ≤ ticks ∧ (ticks < 2 ^ 39 →
        ticks < (dividedTicks ticks).2 * divisor (dividedTicks ticks).1 + divisor (dividedTicks ticks).1) := by
  have bits32 := leadingZeros_le_iff 32 word (by omega)
  have bits33 := leadingZeros_le_iff 33 word (by omega)
  have bits34 := leadingZeros_le_iff 34 word (by omega)
  have bits35 := leadingZeros_le_iff 35 word (by omega)
  have bits36 := leadingZeros_le_iff 36 word (by omega)
  have bits37 := leadingZeros_le_iff 37 word (by omega)
  have bits38 := leadingZeros_le_iff 38 word (by omega)
  have bits39 := leadingZeros_le_iff 39 word (by omega)
  simp only [dividedTicks]
  split
  · simp only [divisor]; omega
  · split <;> simp only [divisor, Nat.reduceSub, imp_false] at * <;> omega

namespace EventTimer

def new (world : σ) : EventTimer σ where
  scheduledEventIdCounter := 0
  scheduledEvents := []
  divideConfiguration := 0
  initialCount := 0
  readings := 0
  entered := []
  world := world
  history := []

def setTimeout (frequency duration : Nat) (timer : EventTimer σ) : EventTimer σ :=
  let seconds := duration / 1000000000
  let nanos := duration % 1000000000
  let ticksSeconds := saturate (seconds * frequency)
  let ticksNanos := saturate (nanos * frequency) / 1000000000
  let (division, ticks) := dividedTicks (saturate (ticksSeconds + ticksNanos))
  { timer with divideConfiguration := division, initialCount := ticks % 2 ^ 32 }

section Clock

-- the clock may read anything at each reading; the frequency was measured at boot
variable (clock : Nat → Nat) (frequency : Nat)

def now (timer : EventTimer σ) : Nat × EventTimer σ :=
  (clock timer.readings, { timer with readings := timer.readings + 1 })

/-- The loop of `handle_scheduled_events` over the events that are left. -/
def runDue : List (AcceptedScheduledEvent σ) → Nat → EventTimer σ → Nat × EventTimer σ
  | [], reading, timer => (reading, { timer with scheduledEvents := [] })
  | event :: rest, reading, timer =>
    if event.event.time > reading then (reading, { timer with scheduledEvents := event :: rest })
    else
      let timer := { timer with
        world := event.event.callback timer.world
        history := timer.history ++ [.ran event.id event.event.time reading] }
      let (reading, timer) := now clock timer
      runDue rest reading timer

/-- `handle_scheduled_events` after its first reading of the clock. -/
def handleFrom (reading : Nat) (timer : EventTimer σ) : Option (EventTimer σ) :=
  let (reading, timer) := runDue clock timer.scheduledEvents reading timer
  let timer := { timer with history := timer.history ++ [TimerRecord.handled reading] }
  match timer.scheduledEvents with
  | [] => some timer
  | next :: _ =>
    -- the subtraction of the instants panics when it would be negative
    if next.event.time < reading then none else some (timer.setTimeout frequency (next.event.time - reading))

def handleScheduledEvents (timer : EventTimer σ) : Option (EventTimer σ) :=
  let (reading, timer) := now clock timer
  timer.handleFrom clock frequency reading

/-- Returns the id of the event; the counter panics when it overflows. -/
def scheduleEvent (event : ScheduledEvent σ) (timer : EventTimer σ) : Option (Nat × EventTimer σ) :=
  let id := timer.scheduledEventIdCounter
  if 2 ^ 64 ≤ id + 1 then none
  else do
    let timer ← handleScheduledEvents clock frequency { timer with
      scheduledEventIdCounter := id + 1
      scheduledEvents := insertSearched compareTime timer.scheduledEvents ⟨event, id⟩
      history := timer.history ++ [.scheduled id event.time] }
    some (id, timer)

def cancelScheduledEvent (id : Nat) (timer : EventTimer σ) : Option (Bool × EventTimer σ) :=
  match timer.scheduledEvents.findIdx? fun event => event.id == id with
  | none => some (false, timer)
  | some position => do
    let timer ← handleScheduledEvents clock frequency { timer with
      scheduledEvents := timer.scheduledEvents.eraseIdx position
      history := timer.history ++ [.cancelled id] }
    some (true, timer)

inductive Action (σ : Type) where
  | schedule (event : ScheduledEvent σ)
  | cancel (id : Nat)
  | interrupt
  /-- The innermost `apic_interrupt_handler` disables interrupts and handles the events. -/
  | proceed

def step (timer : EventTimer σ) : Action σ → Option (EventTimer σ)
  | .schedule event => (timer.scheduleEvent clock frequency event).map Prod.snd
  | .cancel id => (timer.cancelScheduledEvent clock frequency id).map Prod.snd
  | .interrupt =>
    let (reading, timer) := now clock timer
    some { timer with entered := reading :: timer.entered }
  | .proceed =>
    match timer.entered with
    | [] => none
    | reading :: rest => handleFrom clock frequency reading { timer with entered := rest }

end Clock

/-! ## The list holds what is pending -/

/-- The list is sorted by time and holds exactly the pending events of a sound history. -/
structure Tracks (history : List TimerRecord) (events : List (AcceptedScheduledEvent σ)) (counter : Nat) : Prop where
  sound : Sound history
  sorted : SortedBy (fun event : AcceptedScheduledEvent σ => event.event.time) events
  distinct : (events.map (·.id)).Nodup
  pending : ∀ id time, Pending history id time ↔ ∃ event ∈ events, event.id = id ∧ event.event.time = time
  fresh : ∀ record ∈ history, ∀ id, record.id? = some id → id < counter

namespace Tracks

variable {history : List TimerRecord} {events rest : List (AcceptedScheduledEvent σ)} {counter reading : Nat}
  {event : AcceptedScheduledEvent σ}

theorem nil : Tracks [] ([] : List (AcceptedScheduledEvent σ)) 0 where
  sound _ _ _ split := by simp at split
  sorted := List.Pairwise.nil
  distinct := List.nodup_nil
  pending id time := ⟨fun pending => absurd pending.scheduled (by simp), fun ⟨event, inside, _⟩ => absurd inside (by simp)⟩
  fresh record inside := absurd inside (by simp)

variable (tracks : Tracks history events counter)

include tracks

theorem pending_of_mem (inside : event ∈ events) : Pending history event.id event.event.time :=
  (tracks.pending _ _).mpr ⟨event, inside, rfl, rfl⟩

theorem accept (event : ScheduledEvent σ) :
    Tracks (history ++ [.scheduled counter event.time]) (insertSearched compareTime events ⟨event, counter⟩)
      (counter + 1) := by
  have unused : ∀ record ∈ history, record.id? ≠ some counter := fun record inside same =>
    absurd (tracks.fresh record inside counter same) (Nat.lt_irrefl counter)
  have perm := insertSearched_perm compareTime events ⟨event, counter⟩
  constructor
  · exact tracks.sound.snoc unused
  · exact insertSearched_sorted (fun _ _ => rfl) tracks.sorted _
  · rw [(perm.map _).nodup_iff, List.map_cons, List.nodup_cons]
    refine ⟨fun inside => ?_, tracks.distinct⟩
    obtain ⟨other, inside, same⟩ := List.mem_map.mp inside
    exact unused _ (tracks.pending_of_mem inside).scheduled (congrArg some same)
  · intro id time
    rw [pending_snoc_scheduled unused, tracks.pending]
    simp [perm.mem_iff, eq_comm]
  refine List.forall_mem_append.mpr ⟨fun record inside id same => ?_, List.forall_mem_singleton.mpr fun id same => ?_⟩
  · exact Nat.lt_succ_of_lt (tracks.fresh record inside id same)
  · cases same
    omega

theorem leave (perm : events.Perm (event :: rest)) (sublist : rest.Sublist events)
    {record : TimerRecord} (ends : record.ends? = some event.id) (justified : Justified history record) :
    Tracks (history ++ [record]) rest counter := by
  have distinct : (event.id :: rest.map (·.id)).Nodup := by
    rw [← List.map_cons, ← (perm.map _).nodup_iff]
    exact tracks.distinct
  constructor
  · exact tracks.sound.snoc justified
  · exact List.Pairwise.sublist sublist tracks.sorted
  · exact (List.nodup_cons.mp distinct).2
  · intro id time
    rw [pending_snoc_ends ends, tracks.pending]
    constructor
    · rintro ⟨⟨other, inside, rfl, rfl⟩, different⟩
      obtain rfl | inside := List.mem_cons.mp (perm.mem_iff.mp inside)
      · exact absurd rfl different
      · exact ⟨other, inside, rfl, rfl⟩
    · rintro ⟨other, inside, rfl, rfl⟩
      refine ⟨⟨other, sublist.subset inside, rfl, rfl⟩, fun same => ?_⟩
      exact (List.nodup_cons.mp distinct).1 (same ▸ List.mem_map_of_mem inside)
  · refine List.forall_mem_append.mpr ⟨tracks.fresh, List.forall_mem_singleton.mpr fun id same => ?_⟩
    obtain rfl : event.id = id := Option.some.inj ((TimerRecord.id?_of_ends? ends).symm.trans same)
    have pending := tracks.pending_of_mem (perm.mem_iff.mpr (.head _))
    exact tracks.fresh _ pending.scheduled _ rfl

omit tracks in
theorem runFirst (tracks : Tracks history (event :: rest) counter) (due : event.event.time ≤ reading) :
    Tracks (history ++ [.ran event.id event.event.time reading]) rest counter := by
  refine tracks.leave (List.Perm.refl _) (List.sublist_cons_self event rest) rfl
    ⟨tracks.pending_of_mem (.head _), due, fun other otherTime pending => ?_⟩
  obtain ⟨later, inside, -, rfl⟩ := (tracks.pending other otherTime).mp pending
  obtain rfl | inside := List.mem_cons.mp inside
  · omega
  · exact (List.pairwise_cons.mp tracks.sorted).1 later inside

theorem cancel {position : Nat} (found : (events.findIdx? fun event => event.id == id) = some position) :
    Tracks (history ++ [.cancelled id]) (events.eraseIdx position) counter := by
  obtain ⟨inside, same, -⟩ := List.findIdx?_eq_some_iff_getElem.mp found
  have same : events[position].id = id := beq_iff_eq.mp same
  have pending := tracks.pending_of_mem (List.getElem_mem inside)
  rw [same] at pending
  exact tracks.leave (List.getElem_cons_eraseIdx_perm inside).symm (List.eraseIdx_sublist events position)
    (congrArg some same.symm) ⟨_, pending⟩

theorem handled (noneDue : ∀ event ∈ events, reading < event.event.time) :
    Tracks (history ++ [.handled reading]) events counter := by
  constructor
  · refine tracks.sound.snoc fun id time pending => ?_
    obtain ⟨event, inside, -, rfl⟩ := (tracks.pending id time).mp pending
    exact noneDue event inside
  · exact tracks.sorted
  · exact tracks.distinct
  · intro id time
    rw [pending_snoc_handled, tracks.pending]
  · exact List.forall_mem_append.mpr ⟨tracks.fresh, List.forall_mem_singleton.mpr nofun⟩

end Tracks

/-! ## What a step does -/

def Good (timer : EventTimer σ) : Prop := Tracks timer.history timer.scheduledEvents timer.scheduledEventIdCounter

structure LoopResult (timer : EventTimer σ) (reading : Nat) (result : EventTimer σ) : Prop where
  good : result.Good
  grows : timer.history <+: result.history
  noneDue : ∀ event ∈ result.scheduledEvents, reading < event.event.time

variable (clock : Nat → Nat) (frequency : Nat)

variable {timer : EventTimer σ}

theorem runDue_spec {events : List (AcceptedScheduledEvent σ)} (reading : Nat)
    (tracks : Tracks timer.history events timer.scheduledEventIdCounter) :
    LoopResult timer (runDue clock events reading timer).1 (runDue clock events reading timer).2 := by
  induction events generalizing reading timer with
  | nil => exact ⟨tracks, List.prefix_rfl, fun event inside => absurd inside (by simp [runDue])⟩
  | cons event rest ih =>
    rw [runDue]
    split
    next later =>
      refine ⟨tracks, List.prefix_rfl, fun other inside => ?_⟩
      obtain rfl | inside := List.mem_cons.mp inside
      · exact later
      · exact Nat.lt_of_lt_of_le later ((List.pairwise_cons.mp tracks.sorted).1 other inside)
    next due =>
      let ran : EventTimer σ := { timer with
        world := event.event.callback timer.world
        history := timer.history ++ [.ran event.id event.event.time reading]
        readings := timer.readings + 1 }
      have runs : Tracks ran.history rest ran.scheduledEventIdCounter := tracks.runFirst (Nat.le_of_not_lt due)
      have result := ih (clock timer.readings) runs
      exact ⟨result.good, (List.prefix_append _ _).trans result.grows, result.noneDue⟩

theorem handleFrom_spec (reading : Nat) (good : timer.Good) :
    ∃ next, timer.handleFrom clock frequency reading = some next ∧ next.Good ∧ timer.history <+: next.history := by
  obtain ⟨last, after, loop⟩ : ∃ last after, runDue clock timer.scheduledEvents reading timer = (last, after) :=
    ⟨_, _, rfl⟩
  have result : LoopResult timer last after := by
    have result := runDue_spec clock reading good
    rwa [loop] at result
  let handled : EventTimer σ := { after with history := after.history ++ [.handled last] }
  have good : handled.Good := result.good.handled result.noneDue
  have grows : timer.history <+: handled.history := result.grows.trans (List.prefix_append _ _)
  have body : timer.handleFrom clock frequency reading = match handled.scheduledEvents with
      | [] => some handled
      | next :: _ =>
        if next.event.time < last then none else some (handled.setTimeout frequency (next.event.time - last)) := by
    rw [handleFrom, loop]
  rw [body]
  cases events : handled.scheduledEvents with
  | nil => exact ⟨handled, rfl, good, grows⟩
  | cons next rest =>
    have later : last < next.event.time := result.noneDue next (by rw [show after.scheduledEvents = _ from events]; simp)
    exact ⟨_, if_neg (Nat.not_lt_of_lt later), good, grows⟩

theorem handleScheduledEvents_spec (good : timer.Good) :
    ∃ next, timer.handleScheduledEvents clock frequency = some next ∧ next.Good ∧ timer.history <+: next.history :=
  handleFrom_spec clock frequency (clock timer.readings) (show (now clock timer).2.Good from good)

theorem scheduleEvent_spec (event : ScheduledEvent σ) (good : timer.Good)
    (room : timer.scheduledEventIdCounter + 1 < 2 ^ 64) :
    ∃ next, timer.scheduleEvent clock frequency event = some (timer.scheduledEventIdCounter, next) ∧ next.Good ∧
      timer.history ++ [.scheduled timer.scheduledEventIdCounter event.time] <+: next.history := by
  let accepted : EventTimer σ := { timer with
    scheduledEventIdCounter := timer.scheduledEventIdCounter + 1
    scheduledEvents := insertSearched compareTime timer.scheduledEvents ⟨event, timer.scheduledEventIdCounter⟩
    history := timer.history ++ [.scheduled timer.scheduledEventIdCounter event.time] }
  have acceptedGood : accepted.Good := Tracks.accept good event
  obtain ⟨next, returned, good, grows⟩ := handleScheduledEvents_spec clock frequency acceptedGood
  refine ⟨next, ?_, good, grows⟩
  rw [scheduleEvent, if_neg (Nat.not_le_of_lt room)]
  exact Option.bind_eq_some_iff.mpr ⟨next, returned, rfl⟩

theorem cancelScheduledEvent_spec (id : Nat) (good : timer.Good) :
    timer.cancelScheduledEvent clock frequency id = some (false, timer) ∨
      ∃ next, timer.cancelScheduledEvent clock frequency id = some (true, next) ∧ next.Good ∧
        timer.history ++ [.cancelled id] <+: next.history := by
  rw [cancelScheduledEvent]
  split
  next => exact .inl rfl
  next position found =>
  let removed : EventTimer σ := { timer with
    scheduledEvents := timer.scheduledEvents.eraseIdx position
    history := timer.history ++ [.cancelled id] }
  have removedGood : removed.Good := Tracks.cancel good found
  obtain ⟨next, returned, good, grows⟩ := handleScheduledEvents_spec clock frequency removedGood
  exact .inr ⟨next, Option.bind_eq_some_iff.mpr ⟨next, returned, rfl⟩, good, grows⟩

theorem step_cases (good : timer.Good) (action : Action σ) : (timer.step clock frequency action = none ∧
        (2 ^ 64 ≤ timer.scheduledEventIdCounter + 1 ∨ action = .proceed ∧ timer.entered = [])) ∨
      ∃ next, timer.step clock frequency action = some next ∧ next.Good ∧ timer.history <+: next.history := by
  cases action with
  | schedule event =>
    by_cases room : timer.scheduledEventIdCounter + 1 < 2 ^ 64
    · obtain ⟨next, returned, nextGood, grows⟩ := scheduleEvent_spec clock frequency event good room
      exact .inr ⟨next, by rw [step, returned]; rfl, nextGood, (List.prefix_append _ _).trans grows⟩
    · have full := Nat.le_of_not_lt room
      exact .inl ⟨by rw [step, scheduleEvent, if_pos full]; rfl, .inl full⟩
  | cancel id =>
    obtain returned | ⟨next, returned, nextGood, grows⟩ := cancelScheduledEvent_spec clock frequency id good
    · exact .inr ⟨timer, by rw [step, returned]; rfl, good, List.prefix_rfl⟩
    · exact .inr ⟨next, by rw [step, returned]; rfl, nextGood, (List.prefix_append _ _).trans grows⟩
  | interrupt => exact .inr ⟨_, rfl, good, List.prefix_rfl⟩
  | proceed =>
    rw [step]
    split
    next idle => exact .inl ⟨rfl, .inr ⟨rfl, idle⟩⟩
    next reading rest _ => exact .inr (handleFrom_spec clock frequency reading (show Good { timer with entered := rest } from good))

theorem step_keeps {next : EventTimer σ} {action : Action σ} (good : timer.Good)
    (stepped : timer.step clock frequency action = some next) : next.Good ∧ timer.history <+: next.history := by
  obtain ⟨stuck, -⟩ | ⟨_, again, kept⟩ := step_cases clock frequency good action
  · cases stuck.symm.trans stepped
  · cases again.symm.trans stepped
    exact kept

theorem runs_keeps_good {finish : EventTimer σ} {actions : List (Action σ)} (good : timer.Good)
    (run : runs (step clock frequency) timer actions = some finish) : finish.Good ∧ timer.history <+: finish.history :=
  runs_keeps (fun state => state.Good ∧ timer.history <+: state.history)
    (fun ⟨good, grows⟩ stepped =>
      have kept := step_keeps clock frequency good stepped
      ⟨kept.1, grows.trans kept.2⟩)
    run ⟨good, List.prefix_rfl⟩

/-- The promises of the timer, about the history of a run. -/
structure Correct (history : List TimerRecord) : Prop where
  /-- An event runs at most once, and as it was scheduled. -/
  runsOnce : ∀ id, history.countP (TimerRecord.runs id) ≤ 1
  asScheduled : ∀ id time reading, .ran id time reading ∈ history → .scheduled id time ∈ history
  notEarly : ∀ id time reading, .ran id time reading ∈ history → time ≤ reading
  /-- Of two events that were pending together, the one with the later time does not run before the other. -/
  inTimeOrder : ∀ early late first second firstTime secondTime, history = early ++ late →
    Pending early first firstTime → Pending early second secondTime → firstTime < secondTime →
    ∀ before between after time₁ time₂ reading₁ reading₂,
      history ≠ before ++ .ran second time₂ reading₂ :: (between ++ .ran first time₁ reading₁ :: after)
  /-- No event that is due is pending when `handle_scheduled_events` returns. -/
  noneDue : ∀ before after reading id time, history = before ++ .handled reading :: after → Pending before id time →
    reading < time

theorem Good.correct (good : timer.Good) : Correct timer.history where
  runsOnce := good.sound.runs_le_one
  asScheduled _ _ _ := good.sound.scheduled_of_ran
  notEarly _ _ _ := good.sound.notEarly
  inTimeOrder _ _ _ _ _ _ start firstPending secondPending earlier _ _ _ _ _ _ _ :=
    good.sound.inTimeOrder start firstPending secondPending earlier
  noneDue before after _ id time split pending := good.sound before _ after split id time pending

theorem eventTimer_correct (world : σ) (actions : List (Action σ)) (finish : EventTimer σ)
    (run : runs (step clock frequency) (new world) actions = some finish) : Correct finish.history ∧
      ∀ id next rest last, finish.cancelScheduledEvent clock frequency id = some (true, next) →
        runs (step clock frequency) next rest = some last → last.history.countP (TimerRecord.runs id) = 0 := by
  have good : finish.Good := (runs_keeps_good clock frequency (show (new world).Good from Tracks.nil) run).1
  refine ⟨good.correct, fun id next rest last returned run => ?_⟩
  obtain again | ⟨_, again, nextGood, grows⟩ := cancelScheduledEvent_spec clock frequency id good
  · cases returned.symm.trans again
  cases returned.symm.trans again
  obtain ⟨lastGood, further⟩ := runs_keeps_good clock frequency nextGood run
  have cancelled : TimerRecord.cancelled id ∈ last.history := (grows.trans further).subset (by simp)
  exact lastGood.sound.runs_eq_zero_of_cancelled cancelled

/-- Two events; a timer interrupt runs the one that is due, and the other is cancelled. -/
theorem eventTimer_correct_twoEvents :
    ∃ finish next, runs (step (fun n => 10 * n) 1000) (new 0) [.schedule ⟨100, (· + 1)⟩, .schedule ⟨15, (· + 2)⟩,
        .interrupt, .proceed] = some finish ∧ .ran 1 15 20 ∈ finish.history ∧ Correct finish.history ∧
      finish.cancelScheduledEvent (fun n => 10 * n) 1000 0 = some (true, next) ∧
      next.history.countP (TimerRecord.runs 0) = 0 := by
  have reached : (runs (step (fun n => 10 * n) 1000) (new 0) [.schedule ⟨100, (· + 1)⟩, .schedule ⟨15, (· + 2)⟩,
      .interrupt, .proceed]).map (fun finish => (finish.history,
        (finish.cancelScheduledEvent (fun n => 10 * n) 1000 0).map Prod.fst)) =
      some ([.scheduled 0 100, .handled 0, .scheduled 1 15, .handled 10, .ran 1 15 20, .handled 30], some true) := by decide +kernel
  obtain ⟨finish, run, same⟩ := Option.map_eq_some_iff.mp reached
  obtain ⟨history, answer⟩ := Prod.mk.inj same
  obtain ⟨⟨_, next⟩, returned, rfl⟩ := Option.map_eq_some_iff.mp answer
  have correct := eventTimer_correct (fun n => 10 * n) 1000 0 _ finish run
  exact ⟨finish, next, run, by rw [history]; decide, correct.1, returned, correct.2 0 next [] next returned rfl⟩

/-! ## What is programmed -/

/-- The registers stand for an interval that ends when `remaining` nanoseconds, rounded up to one tick, have passed, or
slightly before. -/
structure Armed (remaining : Nat) (timer : EventTimer σ) : Prop where
  nonzero : timer.initialCount ≠ 0
  fits : timer.initialCount < 2 ^ 32
  notLonger : timer.initialCount * divisor timer.divideConfiguration ≤ (remaining * frequency + 999999999) / 1000000000
  notMuchShorter : remaining * frequency < 2 ^ 39 * 1000000000 → (remaining * frequency + 999999999) / 1000000000 <
    timer.initialCount * divisor timer.divideConfiguration + 2 * divisor timer.divideConfiguration

theorem saturated_ticks (fast : frequency ≤ 10000000000) (duration : Nat) :
    saturate (saturate (duration / 1000000000 * frequency) + saturate (duration % 1000000000 * frequency) / 1000000000) =
      saturate (duration * frequency / 1000000000) := by
  have parts : duration * frequency =
      duration / 1000000000 * frequency * 1000000000 + duration % 1000000000 * frequency := by
    rw [Nat.mul_right_comm, ← Nat.add_mul, Nat.div_add_mod']
  have small : duration % 1000000000 * frequency ≤ 999999999 * 10000000000 := Nat.mul_le_mul (by omega) fast
  unfold saturate
  omega

theorem setTimeout_armed_iff (fast : frequency ≤ 10000000000) (duration : Nat) :
    (timer.setTimeout frequency duration).Armed frequency duration ↔ 1000000000 ≤ duration * frequency := by
  rw [setTimeout, saturated_ticks frequency fast]
  obtain ⟨fits, zero, positive, notLonger, close⟩ :=
    dividedTicks_spec (show saturate (duration * frequency / 1000000000) < 2 ^ 64 by unfold saturate; omega)
  generalize dividedTicks _ = programmed at *
  obtain ⟨division, count⟩ := programmed
  unfold saturate at zero notLonger close
  dsimp only at *
  rw [Nat.mod_eq_of_lt fits]
  refine ⟨fun armed => ?_, fun long => ⟨?_, fits, ?_, ?_⟩⟩
  · have positive : 0 < count * divisor division := Nat.mul_pos (Nat.pos_of_ne_zero armed.nonzero) positive
    omega
  all_goals
    dsimp only
    omega

/-- `handle_scheduled_events` with its first reading of the clock, and the last one that it made. -/
theorem handleFrom_armed_iff (fast : frequency ≤ 10000000000) (timer next : EventTimer σ) (reading last : Nat)
    (event : AcceptedScheduledEvent σ) (rest : List (AcceptedScheduledEvent σ))
    (returned : timer.handleFrom clock frequency reading = some next) (left : next.scheduledEvents = event :: rest)
    (read : next.history.getLast? = some (.handled last)) :
    next.Armed frequency (event.event.time - last) ↔ 1000000000 ≤ (event.event.time - last) * frequency := by
  rw [handleFrom] at returned
  generalize runDue clock timer.scheduledEvents reading timer = loop at returned
  dsimp only at returned
  split at returned
  next nothing =>
    cases returned
    cases nothing.symm.trans left
  next first others found =>
  split at returned
  next => cases returned
  next =>
  cases returned
  cases found.symm.trans left
  obtain rfl : loop.1 = last := by simpa [setTimeout] using read
  exact setTimeout_armed_iff frequency fast _

def oneEvent (time : Nat) : EventTimer Unit := { new () with scheduledEvents := [⟨⟨time, fun _ => ()⟩, 0⟩] }

theorem handleFrom_armed_iff_tick :
    ∃ next, (oneEvent 1000).handleFrom (fun _ => 0) 1000000 0 = some next ∧ next.Armed 1000000 1000 :=
  ⟨_, rfl, (handleFrom_armed_iff (fun _ => 0) 1000000 (by decide) (oneEvent 1000) _ 0 0 _ [] rfl rfl rfl).mpr
    (Nat.le_refl _)⟩

/-- An event that is due in less than one tick is left pending, and the timer is stopped. -/
theorem handleFrom_stops :
    ∃ next, (oneEvent 999).handleFrom (fun _ => 0) 1000000 0 = some next ∧ next.scheduledEvents.length = 1 ∧
      next.initialCount = 0 :=
  ⟨_, rfl, rfl, rfl⟩

end EventTimer

end MeowOs.Clocks
