import MeowOs.Sync.AsyncRwLock
import MeowOs.Vfs.RelativePaths

/-! # Linking files

`link_file` locks the parent directory for writing and the target for reading,
and upgrades its lock of the target once the filesystem has made the link.  Any
number of calls run at the same time.  A step is one poll of what a call awaits,
with the code up to the next await; of a lock only its word matters here.

A call that names one inode twice waits for itself, and two calls can wait for
each other.  Where parents and targets are kept apart (`LinkCall.Apart`), a call
only ever waits for its parent, and the call that has it can go on.
-/

namespace MeowOs.Files

open MeowOs.Machine MeowOs.Sync AsyncRwLock
open Function (update update_of_ne update_eq_self)

structure LinkCall where
  parent : InodeIdentifier
  flags : FileFlags
  target : InodeIdentifier

/-- No inode is a parent of one of the calls and a target of the other, or a target below two parents. -/
def LinkCall.Apart (first second : LinkCall) : Prop :=
  first.parent ≠ second.target ∧ second.parent ≠ first.target ∧
    (first.parent ≠ second.parent → first.target ≠ second.target)

theorem LinkCall.Apart.symm {first second : LinkCall} (apart : first.Apart second) : second.Apart first :=
  ⟨apart.2.1, apart.1, fun ne => (apart.2.2 ne.symm).symm⟩

inductive LinkPhase where
  | ended
  /-- The two waits of `lock_write` for the parent. -/
  | parentBit
  | parentDrain
  | targetRead
  | linking
  /-- The two waits of `upgrade_to_write` for the target. -/
  | targetBit
  | targetDrain
deriving DecidableEq

namespace LinkPhase

/-- The call has the parent's lock, or has announced itself to those that have it. -/
def inside : LinkPhase → Bool
  | ended | parentBit => false
  | _ => true

def reads : LinkPhase → Bool
  | linking | targetBit | targetDrain => true
  | _ => false

def targetWord : LinkPhase → UInt16
  | linking | targetBit => 1
  | targetDrain => 0x8001
  | _ => 0

end LinkPhase

/-- What comes between the locks and the upgrade: the filesystem is not ready, it fails, like the checks and lookups
before it, or it has made the link. -/
inductive LinkAnswer where
  | pending
  | failed
  | linked

inductive LinkMove where
  | start
  | poll (answer : LinkAnswer)

structure LinkState where
  words : InodeIdentifier → UInt16
  phase : Nat → LinkPhase

namespace LinkState

def new : LinkState := ⟨fun _ => 0, fun _ => .ended⟩

def goOn (s : LinkState) (i : Nat) (phase : LinkPhase) : LinkState := { s with phase := update s.phase i phase }

def lock (s : LinkState) (inode : InodeIdentifier) : AsyncRwLock := ⟨s.words inode, []⟩

def withLock (s : LinkState) (inode : InodeIdentifier) (lock : AsyncRwLock) : LinkState :=
  { s with words := update s.words inode lock.state }

def drop (s : LinkState) (inode : InodeIdentifier) : LinkState := s.withLock inode (s.lock inode).dropGuard.2

section Calls

variable (calls : Nat → LinkCall)

def awaits (s : LinkState) (i : Nat) : Option (InodeIdentifier × (AsyncRwLock → Context → Poll Unit × AsyncRwLock)) :=
  match s.phase i with
  | .parentBit => some ((calls i).parent, pollBeforeSet)
  | .parentDrain => some ((calls i).parent, pollAfterSet false)
  | .targetRead => some ((calls i).target, pollRead)
  | .targetBit => some ((calls i).target, pollBeforeSet)
  | .targetDrain => some ((calls i).target, pollAfterSet true)
  | .ended | .linking => none

def finish (s : LinkState) (i : Nat) : LinkState := ((s.drop (calls i).target).drop (calls i).parent).goOn i .ended

/-- What a call does once its future is ready, up to the next await. -/
def resume (s : LinkState) (i : Nat) : LinkPhase → LinkState
  | .parentBit => s.goOn i .parentDrain
  | .parentDrain => s.goOn i .targetRead
  | .targetRead => s.goOn i .linking
  | .targetBit => s.goOn i .targetDrain
  -- the upgrade drops its read guard, and the call the new write guard
  | .targetDrain => (s.drop (calls i).target).finish calls i
  | .ended | .linking => s

def poll (s : LinkState) (i : Nat) (answer : LinkAnswer) : LinkState :=
  match s.awaits calls i with
  | some (inode, future) =>
    match future (s.lock inode) ⟨i, false⟩ with
    | (.pending, _) => s
    | (.ready _, lock) => (s.withLock inode lock).resume calls i (s.phase i)
  | none =>
    match s.phase i, answer with
    | .linking, .failed => s.finish calls i
    | .linking, .linked => s.goOn i .targetBit
    | _, _ => s

def step (s : LinkState) : Nat × LinkMove → Option LinkState
  | (i, .start) =>
    if s.phase i = .ended then
      some (if (calls i).flags.write && (calls i).flags.dir then s.goOn i .parentBit else s)
    else none
  | (i, .poll answer) => some (s.poll calls i answer)

def waitsFor (s : LinkState) (i : Nat) : Option InodeIdentifier :=
  (s.awaits calls i).bind fun (inode, future) =>
    match (future (s.lock inode) ⟨i, false⟩).1 with
    | .pending => some inode
    | .ready _ => none

def Holds (s : LinkState) (i : Nat) (inode : InodeIdentifier) : Prop :=
  inode = (calls i).parent ∧ (s.phase i).inside ∨ inode = (calls i).target ∧ (s.phase i).reads

def Stuck (s : LinkState) : Prop :=
  ∃ i inode, s.waitsFor calls i = some inode ∧ ∀ j, s.Holds calls j inode → (s.waitsFor calls j).isSome

/-- A call that starts keeps apart from itself and from every call that is not over. -/
def KeepsApart (s : LinkState) : Nat × LinkMove → Prop
  | (i, .start) => ∀ j, s.phase j ≠ .ended ∨ j = i → (calls i).Apart (calls j)
  | (_, .poll _) => True

/-! ## Calls that keep apart -/

/-- Each inode has at most one owner, a call that is inside, and the words of the locks show it. -/
structure Ordered (owner : InodeIdentifier → Option Nat) (s : LinkState) : Prop where
  apart : ∀ {i j}, s.phase i ≠ .ended → s.phase j ≠ .ended → (calls i).Apart (calls j)
  owns : ∀ {i}, (s.phase i).inside → owner (calls i).parent = some i ∧ owner (calls i).target = some i
  owned : ∀ {x i}, owner x = some i → (s.phase i).inside ∧ (x = (calls i).parent ∨ x = (calls i).target)
  words : ∀ {i}, (s.phase i).inside → s.words (calls i).parent = 0x8000 ∧
    s.words (calls i).target = (s.phase i).targetWord
  free : ∀ {x}, owner x = none → s.words x = 0

variable {calls} {s : LinkState} {i : Nat} {phase : LinkPhase} {owner : InodeIdentifier → Option Nat}

theorem busy_of_inside (inside : phase.inside) : phase ≠ .ended := by
  rintro rfl
  cases inside

theorem withLock_self (s : LinkState) (inode : InodeIdentifier) : s.withLock inode (s.lock inode) = s := by
  unfold withLock lock
  rw [update_eq_self]

section Ordered

variable (ordered : Ordered calls owner s) {lock : AsyncRwLock}

include ordered

theorem Ordered.not_blocked (inside : (s.phase i).inside) : s.waitsFor calls i = none := by
  obtain ⟨parent, target⟩ := ordered.words inside
  unfold waitsFor awaits lock
  cases here : s.phase i <;> rw [here] at inside target
  case ended | parentBit => cases inside
  case parentDrain => simp [pollAfterSet, parent]
  case targetRead => simp [pollRead, target, LinkPhase.targetWord]
  case linking => rfl
  case targetBit => simp [pollBeforeSet, target, LinkPhase.targetWord, show (1 &&& 0x8000 : UInt16) = 0 from rfl]
  case targetDrain => simp [pollAfterSet, target, LinkPhase.targetWord]

theorem Ordered.not_stuck : ¬ s.Stuck calls := by
  rintro ⟨i, inode, blocked, allBlocked⟩
  have outside : ¬ (s.phase i).inside := fun inside => by
    rw [ordered.not_blocked inside] at blocked
    cases blocked
  unfold waitsFor awaits lock at blocked
  cases here : s.phase i <;> rw [here] at outside blocked
  case ended => cases blocked
  case parentDrain | targetRead | linking | targetBit | targetDrain => exact outside rfl
  case parentBit =>
  -- the call that set the bit is inside the parent, and can go on
  by_cases clear : s.words (calls i).parent &&& 0x8000 = 0
  · simp [pollBeforeSet, clear] at blocked
  obtain rfl : (calls i).parent = inode := by simpa [pollBeforeSet, clear] using blocked
  cases holder : owner (calls i).parent with
  | none => exact clear (by rw [ordered.free holder]; rfl)
  | some j =>
    obtain ⟨inside, same | same⟩ := ordered.owned holder
    · have waits := allBlocked j (.inl ⟨same, inside⟩)
      rw [ordered.not_blocked inside] at waits
      cases waits
    · exact (ordered.apart (by simp [here]) (busy_of_inside inside)).1 same

/-! ## Steps -/

theorem Ordered.advance (inside : (s.phase i).inside) (still : phase.inside)
    (word : lock.state = phase.targetWord) : Ordered calls owner ((s.withLock (calls i).target lock).goOn i phase) := by
  have busy := busy_of_inside inside
  have different := (ordered.apart busy busy).1
  obtain ⟨apart, owns, owned, words, free⟩ := ordered
  unfold withLock LinkState.goOn
  constructor <;> grind

theorem Ordered.finish (inside : (s.phase i).inside) (last : lock.state = 1 ∨ lock.state = 0x8000) :
    Ordered calls (fun x => if owner x = some i then none else owner x)
      ((s.withLock (calls i).target lock).finish calls i) := by
  have busy := busy_of_inside inside
  have different := (ordered.apart busy busy).1
  obtain ⟨parent, -⟩ := ordered.words inside
  have left : (s.withLock (calls i).target lock).finish calls i =
      ⟨update (update s.words (calls i).target 0) (calls i).parent 0, update s.phase i .ended⟩ := by
    rcases last with last | last <;>
      simp [LinkState.finish, drop, withLock, LinkState.lock, last, update_of_ne different, parent, dropGuard, wakeAllTasks,
        LinkState.goOn]
  obtain ⟨apart, owns, owned, words, free⟩ := ordered
  rw [left]
  constructor <;> grind [LinkPhase.inside]

theorem Ordered.enter (here : s.phase i = .parentBit) (clear : s.words (calls i).parent &&& 0x8000 = 0) :
    Ordered calls (update (update owner (calls i).target (some i)) (calls i).parent (some i))
      ((s.withLock (calls i).parent ⟨s.words (calls i).parent ||| 0x8000, []⟩).goOn i .parentDrain) := by
  have busy : s.phase i ≠ .ended := by simp [here]
  -- whoever has one of the two inodes has the parent, and would have set the bit
  have nobody : ∀ x, x = (calls i).parent ∨ x = (calls i).target → owner x = none := by
    intro x names
    cases owned : owner x with
    | none => rfl
    | some j =>
      obtain ⟨inside, theirs⟩ := ordered.owned owned
      have parents : (calls i).parent ≠ (calls j).parent := fun same => by
        rw [same, (ordered.words inside).1] at clear
        cases clear
      have apart := ordered.apart busy (busy_of_inside inside)
      grind [LinkCall.Apart]
  have word : s.words (calls i).parent ||| 0x8000 = 0x8000 := by
    rw [ordered.free (nobody _ (.inl rfl))]
    rfl
  have different := (ordered.apart busy busy).1
  obtain ⟨apart, owns, owned, words, free⟩ := ordered
  unfold withLock LinkState.goOn
  constructor <;> grind [LinkPhase.inside, LinkPhase.targetWord]

theorem Ordered.start (ended : s.phase i = .ended) (keeps : ∀ j, s.phase j ≠ .ended ∨ j = i → (calls i).Apart (calls j)) :
    Ordered calls owner (s.goOn i .parentBit) := by
  have symm := @LinkCall.Apart.symm
  obtain ⟨apart, owns, owned, words, free⟩ := ordered
  unfold LinkState.goOn
  constructor <;> grind [LinkPhase.inside]

theorem Ordered.poll (answer : LinkAnswer) : ∃ owner', Ordered calls owner' (s.poll calls i answer) := by
  unfold LinkState.poll awaits
  cases here : s.phase i
  case ended => exact ⟨owner, ordered⟩
  case parentBit =>
    by_cases clear : s.words (calls i).parent &&& 0x8000 = 0
    · simp only [pollBeforeSet, lock, clear, ne_eq, not_true_eq_false, if_false]
      exact ⟨_, ordered.enter here clear⟩
    · simp only [pollBeforeSet, lock, clear, ne_eq, not_false_eq_true, if_true]
      exact ⟨owner, ordered⟩
  all_goals
    have inside : (s.phase i).inside := by rw [here]; rfl
    obtain ⟨parent, target⟩ := ordered.words inside
    rw [here] at target
    have same := withLock_self s (calls i).target
  case parentDrain =>
    have ready : pollAfterSet false (s.lock (calls i).parent) ⟨i, false⟩ = (.ready (), s.lock (calls i).parent) :=
      if_neg (not_not.mpr parent)
    simp only [ready, withLock_self]
    exact ⟨_, same ▸ ordered.advance inside rfl target⟩
  case targetRead =>
    simp only [pollRead, lock, target]
    exact ⟨_, ordered.advance inside rfl rfl⟩
  case linking =>
    cases answer
    case pending => exact ⟨owner, ordered⟩
    case failed => exact ⟨_, same ▸ ordered.finish inside (.inl target)⟩
    case linked => exact ⟨_, same ▸ ordered.advance inside rfl target⟩
  case targetBit =>
    simp only [pollBeforeSet, lock, target]
    exact ⟨_, ordered.advance inside rfl rfl⟩
  case targetDrain =>
  have ready : pollAfterSet true (s.lock (calls i).target) ⟨i, false⟩ = (.ready (), s.lock (calls i).target) :=
    if_neg (not_not.mpr target)
  simp only [ready, same]
  refine ⟨_, ordered.finish inside (.inr ?_)⟩
  rw [lock, target]
  rfl

end Ordered

/-- **Linking never deadlocks** in a run whose calls keep apart. -/
theorem links_never_stuck (calls : Nat → LinkCall) (moves : List (Nat × LinkMove)) (finish : LinkState)
    (each : EachStep (step calls) (KeepsApart calls) new moves) (run : runs (step calls) new moves = some finish) :
    ¬ finish.Stuck calls := by
  have start : Ordered calls (fun _ => none) new := by constructor <;> simp [new, LinkPhase.inside]
  refine (runs_keeps_while (fun s => ∃ owner, Ordered calls owner s) (fun {s move next} ⟨owner, ordered⟩ keeps taken => ?_)
    each run ⟨_, start⟩).elim fun owner ordered => ordered.not_stuck
  match move with
  | (i, .start) =>
    obtain ⟨ended, taken⟩ := Option.ite_none_right_eq_some.mp taken
    cases taken
    split
    · exact ⟨owner, ordered.start ended keeps⟩
    · exact ⟨owner, ordered⟩
  | (i, .poll answer) =>
    cases taken
    exact ordered.poll answer

def linkCall (parent target : Nat) : LinkCall := ⟨⟨0, parent⟩, ⟨true, true, false, true⟩, ⟨0, target⟩⟩

theorem links_never_stuck_siblings : ∃ finish, runs (step fun i => linkCall 1 (i + 2)) new
      [(0, .start), (0, .poll .pending), (1, .start)] = some finish ∧
    finish.waitsFor (fun i => linkCall 1 (i + 2)) 1 = some ⟨0, 1⟩ ∧ ¬ finish.Stuck fun i => linkCall 1 (i + 2) := by
  refine ⟨_, rfl, rfl, links_never_stuck _ [(0, .start), (0, .poll .pending), (1, .start)] _ ?_ rfl⟩
  have apart : ∀ i j, (linkCall 1 (i + 2)).Apart (linkCall 1 (j + 2)) := by simp [LinkCall.Apart, linkCall]
  exact ⟨fun j _ => apart 0 j, fun _ _ => ⟨trivial, fun _ _ => ⟨fun j _ => apart 1 j, fun _ _ => trivial⟩⟩⟩

/-- A call whose parent is its target waits for itself. -/
theorem link_to_itself_stuck : ∃ finish, runs (step fun _ => linkCall 1 1) new
      [(0, .start), (0, .poll .pending), (0, .poll .pending)] = some finish ∧ finish.Stuck fun _ => linkCall 1 1 := by
  refine ⟨_, rfl, 0, ⟨0, 1⟩, rfl, fun j holds => ?_⟩
  cases j with
  | zero => rfl
  | succ j =>
    obtain ⟨-, inside⟩ | ⟨-, reads⟩ := holds
    · exact nomatch (show false = true from inside)
    · exact nomatch (show false = true from reads)

end Calls

end LinkState

end MeowOs.Files
