import MeowOs.Machine.Interleaving

/-! # Terminal input

Typed lines wait in `done_streams` until a read takes them.  `get_input` takes
the line typed last, puts what a short read leaves of it in front of all lines
and forgets its end-of-file, and a reader looks only at the number of bytes to
see whether something waits.  `terminal_is_stream` says when this is not noticed.

The keys give ASCII characters, so every position is a character boundary.  Every
step is taken as a whole, under its locks: a poll takes the wait queue's and then
the terminal's, a finished line takes them the other way around, and the deadlock
that two CPUs can run into there is left out.
-/

namespace MeowOs.Drivers

open MeowOs.Machine

inductive FileReadResult where
  | normal
  | temporaryEof
  | permanentEof
  deriving DecidableEq

/-- Where a `read` is: before `get_input`, before the poll of its `TtyWaiter`, in the wait queue, or behind its end. -/
inductive ReadPhase where
  | asking
  | polling
  | waiting
  | done (bytes : List UInt8) (result : FileReadResult)
  deriving DecidableEq

structure TtyRead where
  sizeBytes : Nat
  pages : Nat
  blocking : Bool
  phase : ReadPhase
  deriving DecidableEq

/-- The terminal and its reads, and what was typed and returned: `none` stands for an end-of-file. -/
structure TtyState where
  doneStreams : List (List UInt8 × Bool) := []
  inputBuffer : List UInt8 := []
  reads : List TtyRead := []
  typed : List (Option UInt8) := []
  returned : List (Option UInt8) := []
  deriving DecidableEq

def marked (line : List UInt8 × Bool) : List (Option UInt8) := line.1.map some ++ if line.2 then [none] else []

namespace TtyState

def dataLen (tty : TtyState) : Nat := (tty.doneStreams.map (·.1.length)).sum

def getInput (tty : TtyState) (maxSize : Nat) : Option ((List UInt8 × Bool) × List (List UInt8 × Bool)) :=
  tty.doneStreams.getLast?.map fun (stream, eof) =>
    if stream.length > maxSize then
      ((stream.take maxSize, false), (stream.drop maxSize, false) :: tty.doneStreams.dropLast)
    else ((stream, eof), tty.doneStreams.dropLast)

def copied : Nat → List UInt8 → List UInt8
  | 0, _ => []
  | pages + 1, stream => if stream = [] then [] else stream.take 4096 ++ copied pages (stream.drop 4096)

/-- `send_line`, with the hook that wakes the readers. -/
def sendLine (tty : TtyState) (eofLine : Bool) : TtyState :=
  let line := (tty.inputBuffer ++ if eofLine then [] else [10], eofLine)
  { tty with
    doneStreams := tty.doneStreams ++ [line]
    inputBuffer := []
    reads := tty.reads.map fun read => if read.phase = .waiting then { read with phase := .polling } else read
    typed := tty.typed ++ marked line }

def setPhase (tty : TtyState) (index : Nat) (phase : ReadPhase) : TtyState :=
  { tty with reads := tty.reads.modify index ({ · with phase }) }

inductive Move where
  | press (char : UInt8)
  | backspace
  | sendLine (eofLine : Bool)
  | read (sizeBytes pages : Nat) (blocking : Bool)
  | proceed (index : Nat)
  deriving DecidableEq

def answer (tty : TtyState) (index pages : Nat) (line : List UInt8 × Bool) (rest : List (List UInt8 × Bool)) : TtyState :=
  let bytes := copied pages line.1
  { tty.setPhase index (.done bytes (if line.2 then .permanentEof else .normal)) with
    doneStreams := rest
    returned := tty.returned ++ marked (bytes, line.2) }

def proceed (tty : TtyState) (index : Nat) (read : TtyRead) : Option TtyState :=
  match read.phase with
  | .asking =>
    match tty.getInput read.sizeBytes with
    | some (line, rest) => some (tty.answer index read.pages line rest)
    | none => some (tty.setPhase index (if read.blocking then .polling else .done [] .temporaryEof))
  | .polling => some (tty.setPhase index (if tty.dataLen > 0 then .asking else .waiting))
  | _ => none

def step (tty : TtyState) : Move → Option TtyState
  | .press char => some { tty with inputBuffer := tty.inputBuffer ++ [char] }
  | .backspace => some { tty with inputBuffer := tty.inputBuffer.dropLast }
  | .sendLine eofLine => some (tty.sendLine eofLine)
  | .read sizeBytes pages blocking => some { tty with reads := tty.reads ++ [⟨sizeBytes, pages, blocking, .asking⟩] }
  | .proceed index => do tty.proceed index (← tty.reads[index]?)

/-- What was returned and what waits is what was typed, and no reader waits while a line does. -/
structure Streams (tty : TtyState) : Prop where
  stream : tty.returned ++ tty.doneStreams.flatMap marked = tty.typed
  awake : ∀ read ∈ tty.reads, read.phase = .waiting → tty.doneStreams = []

def Filled (tty : TtyState) : Prop := ∀ stream, (stream, false) ∈ tty.doneStreams → stream ≠ []

/-- No read proceeds while two lines wait, or an end-of-file behind nothing or behind more bytes than the read asks for,
and the buffer of a read holds what it asks for. -/
def Gentle (tty : TtyState) : Move → Prop
  | .proceed index => tty.doneStreams.length ≤ 1 ∧ ∀ read ∈ tty.reads[index]?, read.sizeBytes ≤ 4096 * read.pages ∧
      ∀ line ∈ tty.doneStreams, line.2 = true → 0 < line.1.length ∧ line.1.length ≤ read.sizeBytes
  | _ => True

instance (tty : TtyState) : DecidablePred tty.Gentle
  | .proceed _ => inferInstanceAs (Decidable (_ ∧ _))
  | .press _ | .backspace | .sendLine _ | .read .. => inferInstanceAs (Decidable True)

variable {tty next : TtyState} {pages index : Nat} {read : TtyRead}

theorem copied_eq {stream : List UInt8} (fits : stream.length ≤ 4096 * pages) : copied pages stream = stream := by
  induction pages generalizing stream with
  | zero => simp_all [copied]
  | succ pages ih =>
    rw [copied, ih (by rw [List.length_drop]; omega), List.take_append_drop]
    split <;> simp_all

theorem mem_setPhase {phase : ReadPhase} (member : read ∈ (tty.setPhase index phase).reads) :
    read ∈ tty.reads ∨ read.phase = phase := by
  obtain ⟨i, found⟩ := List.mem_iff_getElem?.mp member
  rw [setPhase, List.getElem?_modify] at found
  obtain ⟨old, there, rfl⟩ := Option.map_eq_some_iff.mp found
  split
  · exact .inr rfl
  · exact .inl (List.mem_of_getElem? there)

theorem streams_answer {line : List UInt8 × Bool} {rest : List (List UInt8 × Bool)}
    (awake : ∀ read ∈ tty.reads, read.phase ≠ .waiting) (fits : line.1.length ≤ 4096 * pages)
    (stream : tty.returned ++ (marked line ++ rest.flatMap marked) = tty.typed) :
    (tty.answer index pages line rest).Streams := by
  refine ⟨?_, fun read member waits => ?_⟩
  · rw [answer, copied_eq fits]
    exact (List.append_assoc ..).trans stream
  · rcases mem_setPhase member with old | new
    · exact absurd waits (awake read old)
    · cases new.symm.trans waits

theorem streams_proceed (inv : tty.Streams) (filled : tty.Filled)
    (few : tty.doneStreams.length ≤ 1) (holds : read.sizeBytes ≤ 4096 * read.pages)
    (ends : ∀ line ∈ tty.doneStreams, line.2 = true → 0 < line.1.length ∧ line.1.length ≤ read.sizeBytes)
    (stepped : tty.proceed index read = some next) : next.Streams ∧ next.Filled := by
  obtain ⟨stream, awake⟩ := inv
  have whole := filled
  unfold Filled at filled
  match lines : tty.doneStreams, few with
  | [], _ =>
    simp only [proceed, getInput, lines] at stepped
    split at stepped <;> cases stepped <;> exact ⟨⟨stream, fun _ _ _ => lines⟩, whole⟩
  | [(line, eof)], _ =>
    rw [lines] at stream ends filled
    have noWaiter : ∀ read ∈ tty.reads, read.phase ≠ .waiting := fun read member waits =>
      nomatch lines.symm.trans (awake read member waits)
    simp only [proceed, getInput, lines, List.getLast?_singleton, Option.map_some, List.dropLast_singleton] at stepped
    split at stepped
    case h_1 =>
      split at stepped
      case isTrue long =>
        -- the rest of the line stays, and it has no end-of-file to lose
        cases eof with
        | true =>
          exact absurd (ends _ List.mem_cons_self rfl).2 (Nat.not_le_of_gt long)
        | false =>
          cases stepped
          refine ⟨streams_answer noWaiter ?_ ?_, fun rest member => ?_⟩
          · simp only [List.length_take]
            omega
          · simpa [marked, ← List.map_append] using stream
          · simp only [answer, List.mem_singleton, Prod.mk.injEq, and_true] at member
            simp only [member, ne_eq, List.drop_eq_nil_iff]
            omega
      case isFalse =>
        cases stepped
        exact ⟨streams_answer noWaiter (by simp only; omega) stream, nofun⟩
    case h_2 =>
      cases stepped
      refine ⟨⟨lines ▸ stream, fun other member waits => ?_⟩, whole⟩
      rcases mem_setPhase member with old | new
      · exact awake other old waits
      have filled : 0 < tty.dataLen := by
        cases eof <;> simp_all [dataLen, List.length_pos_iff]
      rw [new, if_pos filled] at waits
      cases waits
    case h_3 => cases stepped

theorem streams_step {move : Move} (inv : tty.Streams ∧ tty.Filled) (gentle : tty.Gentle move)
    (stepped : tty.step move = some next) : next.Streams ∧ next.Filled := by
  have ⟨⟨stream, awake⟩, filled⟩ := inv
  cases move with
  | press char | backspace =>
    cases stepped
    exact ⟨⟨stream, awake⟩, filled⟩
  | sendLine eofLine =>
    cases stepped
    refine ⟨⟨by simp [sendLine, ← stream], ?_⟩, fun line member => ?_⟩
    · simp only [sendLine, List.mem_map]
      rintro _ ⟨read, -, rfl⟩ waits
      split at waits
      · cases waits
      · contradiction
    · rcases List.mem_append.mp member with old | new
      · exact filled line old
      · simp only [List.mem_singleton, Prod.mk.injEq] at new
        simp [new.1, ← new.2]
  | read sizeBytes pages blocking =>
    cases stepped
    refine ⟨⟨stream, fun read member waits => ?_⟩, filled⟩
    rcases List.mem_append.mp member with old | new
    · exact awake read old waits
    · rw [List.mem_singleton.mp new] at waits
      cases waits
  | proceed index =>
    obtain ⟨read, found, stepped⟩ := Option.bind_eq_some_iff.mp stepped
    exact streams_proceed inv.1 filled gentle.1 (gentle.2 read found).1 (gentle.2 read found).2 stepped

end TtyState

/-- In every run whose steps are gentle, terminal input is one stream of bytes and ends, and no reader waits in vain. -/
theorem terminal_is_stream (moves : List TtyState.Move) (tty : TtyState)
    (gentle : EachStep TtyState.step TtyState.Gentle {} moves) (run : runs TtyState.step {} moves = some tty) :
    tty.Streams :=
  (runs_keeps_while (fun tty => tty.Streams ∧ tty.Filled) TtyState.streams_step gentle run
    ⟨⟨rfl, nofun⟩, nofun⟩).1

def readLine : List TtyState.Move :=
  [.read 5 1 true, .proceed 0, .proceed 0, .press 97, .sendLine false, .proceed 0, .proceed 0]

theorem terminal_is_stream_readLine : ∃ tty, runs TtyState.step {} readLine = some tty ∧
    tty.returned = [some 97, some 10] ∧ tty.Streams :=
  ⟨_, rfl, rfl, terminal_is_stream readLine _ (by decide) rfl⟩

theorem last_line_comes_first : ¬ ∀ (moves : List TtyState.Move) (tty : TtyState),
    runs TtyState.step {} moves = some tty → tty.Streams := by
  intro always
  have stream := (always [.press 97, .sendLine false, .press 98, .sendLine false, .read 5 1 true, .proceed 0] _ rfl).stream
  exact absurd stream (by decide)

end MeowOs.Drivers
