import MeowOs.Machine.Interleaving
import MeowOs.Machine.LockWord

/-! # The readers-writer spinlock

`RWSpinlock` of `rw_lock.rs` and any number of threads.  Every atomic access to
the lock word is a step of its own, and a thread stands between two accesses.

A drop decides from a load of the word which release it makes, so a read guard
that is dropped while an upgrade has set the writer bit stores zero over the
other readers and the writer.  Two upgrades at once end with two write guards.
`spinlock_excludes` is about the runs in which neither happens.
-/

namespace MeowOs.Sync

open MeowOs.Machine

/-! ## Threads -/

/-- Where a thread stands.  The states that carry a word remember what the last load returned. -/
inductive SpinThread where
  | idle
  | readLoad
  | readExchange (state : UInt16)
  | writeLoad
  | writeExchange
  | readGuard
  | writeGuard
  /-- In `upgrade_to_write`, before the `fetch_or`, before the `fetch_sub`, and in the loop that waits. -/
  | upgradeOr
  | upgradeSub
  | upgradeWait
  | downgradeStore
  | dropRead (state : UInt16)
  | dropWrite (state : UInt16)
  deriving DecidableEq

inductive SpinAction where
  | lockRead
  | lockWrite
  | upgradeToWrite
  | downgradeToRead
  | drop
  | proceed
  deriving DecidableEq

/-- The loads of `lock_read`: both loops come back to a load. -/
def loadForRead (word : UInt16) : SpinThread := if word &&& 0x8000 ≠ 0 then .readLoad else .readExchange word

def loadForWrite (word : UInt16) : SpinThread := if word ≠ 0 then .writeLoad else .writeExchange

/-- The release of `drop`, chosen by the word that was loaded before. -/
def release (loaded word : UInt16) : UInt16 := if loaded &&& 0x8000 ≠ 0 then 0 else word - 1

/-- One access of a thread.  With `debugAssertions` a failed `debug_assert!` stops the kernel. -/
def spinMove (debugAssertions : Bool) (word : UInt16) : SpinThread → SpinAction → Option (SpinThread × UInt16)
  | .idle, .lockRead => some (loadForRead word, word)
  | .readLoad, .proceed => some (loadForRead word, word)
  | .readExchange state, .proceed => some (if word = state then (.readGuard, state + 1) else (.readLoad, word))
  | .idle, .lockWrite => some (loadForWrite word, word)
  | .writeLoad, .proceed => some (loadForWrite word, word)
  | .writeExchange, .proceed => some (if word = 0 then (.writeGuard, 0x8000) else (.writeLoad, word))
  | .readGuard, .upgradeToWrite =>
    if debugAssertions && !(word &&& 0x8000 == 0 && 1 ≤ word) then none else some (.upgradeOr, word)
  | .upgradeOr, .proceed => some (.upgradeSub, word ||| 0x8000)
  | .upgradeSub, .proceed => some (.upgradeWait, word - 1)
  | .upgradeWait, .proceed => some (if word ≠ 0x8000 then .upgradeWait else .writeGuard, word)
  | .writeGuard, .downgradeToRead =>
    if debugAssertions && word &&& 0x8000 != 0x8000 then none else some (.downgradeStore, word)
  | .downgradeStore, .proceed => some (.readGuard, 1)
  | .readGuard, .drop => some (.dropRead word, word)
  | .writeGuard, .drop => some (.dropWrite word, word)
  | .dropRead state, .proceed => some (.idle, release state word)
  | .dropWrite state, .proceed => some (.idle, release state word)
  | _, _ => none

namespace SpinThread

def counted : SpinThread → Bool
  | readGuard | upgradeOr | upgradeSub | dropRead _ => true
  | _ => false

def isWriter : SpinThread → Bool
  | writeGuard | upgradeSub | upgradeWait | downgradeStore | dropWrite _ => true
  | _ => false

def holdsWriteGuard : SpinThread → Bool
  | writeGuard | downgradeStore | dropWrite _ => true
  | _ => false

/-- The thread has a guard, or is inside a call that consumes one. -/
def holdsGuard (thread : SpinThread) : Bool := thread.counted || thread.isWriter

/-- What a thread knows from its last load. -/
def Informed : SpinThread → Prop
  | readExchange state => state &&& 0x8000 = 0
  | dropRead state => state &&& 0x8000 = 0
  | dropWrite state => state &&& 0x8000 ≠ 0
  | _ => True

end SpinThread

abbrev SpinSystem := Team UInt16 SpinThread

namespace SpinSystem

def start (threadCount : Nat) : SpinSystem := ⟨0, List.replicate threadCount .idle⟩

def step (debugAssertions : Bool) : SpinSystem → Nat × SpinAction → Option SpinSystem :=
  Team.step (spinMove debugAssertions)

def readers (system : SpinSystem) : Nat := system.members.countP SpinThread.counted

def writers (system : SpinSystem) : Nat := system.members.countP SpinThread.isWriter

def active (system : SpinSystem) : Nat := system.members.countP SpinThread.holdsWriteGuard

end SpinSystem

/-! ## One access -/

/-- The access does not drop a read guard on a load that shows the writer bit, and sets the bit only where it is
clear. -/
def Undisturbed (word : UInt16) (thread : SpinThread) (action : SpinAction) : Prop :=
  (thread = .readGuard ∧ action = .drop ∨ thread = .upgradeOr ∧ action = .proceed) → word &&& 0x8000 = 0

instance (word : UInt16) (thread : SpinThread) (action : SpinAction) : Decidable (Undisturbed word thread action) :=
  inferInstanceAs (Decidable (_ → _))

/-- The invariant of the system as one thread sees it, with `readers`, `writers` and `active` counting the others. -/
structure SpinThread.Sound (thread : SpinThread) (word : UInt16) (readers writers active : Nat) : Prop where
  coherent : Coherent word (readers + thread.counted.toNat) (writers + thread.isWriter.toNat)
    (active + thread.holdsWriteGuard.toNat)
  informed : thread.Informed

section Access

variable {debugAssertions : Bool} {word after : UInt16} {old new : SpinThread} {action : SpinAction}
variable {readers writers active : Nat}

theorem sound_loadForRead (coherent : Coherent word readers writers active) :
    (loadForRead word).Sound word readers writers active := by
  rw [loadForRead]
  split
  · exact ⟨coherent, trivial⟩
  next set => exact ⟨coherent, not_not.mp set⟩

theorem sound_loadForWrite (coherent : Coherent word readers writers active) :
    (loadForWrite word).Sound word readers writers active := by
  rw [loadForWrite]
  split
  · exact ⟨coherent, trivial⟩
  · exact ⟨coherent, trivial⟩

theorem spinMove_sound (others : active ≤ writers) (before : old.Sound word readers writers active)
    (undisturbed : Undisturbed word old action) (moved : spinMove debugAssertions word old action = some (new, after))
    (few : readers + new.counted.toNat < 0x8000) : new.Sound after readers writers active := by
  obtain ⟨coherent, informed⟩ := before
  cases old <;> cases action <;> try cases moved
  case idle.lockRead | readLoad.proceed => exact sound_loadForRead coherent
  case idle.lockWrite | writeLoad.proceed => exact sound_loadForWrite coherent
  case readExchange.proceed =>
    replace moved := Option.some.inj moved
    split at moved
    next same =>
      cases moved
      subst same
      exact ⟨coherent.enterRead informed few, trivial⟩
    · cases moved
      exact ⟨coherent, trivial⟩
  case writeExchange.proceed =>
    replace moved := Option.some.inj moved
    split at moved
    next free =>
      cases moved
      subst free
      exact ⟨(coherent.announce rfl).activate others, trivial⟩
    · cases moved
      exact ⟨coherent, trivial⟩
  case readGuard.upgradeToWrite | writeGuard.downgradeToRead =>
    obtain ⟨-, moved⟩ := Option.ite_none_left_eq_some.mp moved
    cases moved
    exact ⟨coherent, trivial⟩
  case readGuard.drop => exact ⟨coherent, undisturbed (.inl ⟨rfl, rfl⟩)⟩
  case writeGuard.drop => exact ⟨coherent, coherent.encodes.writerBit_iff.mpr (Nat.succ_pos writers)⟩
  case upgradeOr.proceed => exact ⟨coherent.announce (undisturbed (.inr ⟨rfl, rfl⟩)), trivial⟩
  case upgradeSub.proceed => exact ⟨coherent.leaveRead, trivial⟩
  case upgradeWait.proceed =>
    split
    · exact ⟨coherent, trivial⟩
    next alone =>
      obtain rfl : word = 0x8000 := not_not.mp alone
      exact ⟨coherent.activate others, trivial⟩
  case downgradeStore.proceed => exact ⟨coherent.downgrade, trivial⟩
  case dropRead.proceed =>
    rw [release, if_neg (fun set => set informed)]
    exact ⟨coherent.leaveRead, trivial⟩
  case dropWrite.proceed state =>
  have set : state &&& 0x8000 ≠ 0 := informed
  rw [release, if_pos set]
  exact ⟨coherent.leaveWrite, trivial⟩

end Access

/-! ## Runs -/

namespace SpinSystem

variable {debugAssertions : Bool} {system next : SpinSystem} {turn : Nat × SpinAction}

structure Sound (system : SpinSystem) : Prop where
  coherent : Coherent system.shared system.readers system.writers system.active
  informed : ∀ thread ∈ system.members, thread.Informed

theorem sound_start (threadCount : Nat) : (start threadCount).Sound := by
  constructor
  · rw [readers, writers, active, start]
    simp only [List.countP_replicate]
    exact Coherent.zero
  · intro thread member
    rw [List.eq_of_mem_replicate member]
    trivial

def TurnUndisturbed (system : SpinSystem) (turn : Nat × SpinAction) : Prop :=
  ∀ thread, system.members[turn.1]? = some thread → Undisturbed system.shared thread turn.2

theorem sound_step (sound : system.Sound) (undisturbed : system.TurnUndisturbed turn)
    (stepped : system.step debugAssertions turn = some next) (few : next.readers < 0x8000) : next.Sound := by
  obtain ⟨old, new, after, found, moved, rfl⟩ := Team.step_eq_some stepped
  have others : (system.members.eraseIdx turn.1).countP SpinThread.holdsWriteGuard ≤
      (system.members.eraseIdx turn.1).countP SpinThread.isWriter := by
    apply List.countP_mono_left
    intro thread _ holds
    cases thread <;> first | rfl | cases holds
  have before : old.Sound system.shared ((system.members.eraseIdx turn.1).countP SpinThread.counted)
      ((system.members.eraseIdx turn.1).countP SpinThread.isWriter)
      ((system.members.eraseIdx turn.1).countP SpinThread.holdsWriteGuard) := by
    refine ⟨?_, sound.informed old (List.mem_of_getElem? found)⟩
    simpa only [readers, writers, active, countP_of_getElem? _ found] using sound.coherent
  rw [readers, countP_set_of_getElem? _ found] at few
  have sounds := spinMove_sound others before (undisturbed old found) moved few
  constructor
  · simpa only [readers, writers, active, countP_set_of_getElem? _ found] using sounds.coherent
  intro thread member
  rcases List.mem_or_eq_of_mem_set member with member | rfl
  · exact sound.informed thread member
  · exact sounds.informed

theorem Sound.holdsGuard_eq_false (sound : system.Sound) {writer other : Nat} {holder thread : SpinThread}
    (different : writer ≠ other) (found : system.members[writer]? = some holder)
    (writes : holder.holdsWriteGuard = true) (otherFound : system.members[other]? = some thread) :
    thread.holdsGuard = false := by
  have active : 0 < system.active := countP_pos_of_getElem? found writes
  have noReaders : system.readers = 0 := sound.coherent.exclusive active
  cases guard : thread.holdsGuard with
  | false => rfl
  | true =>
    rw [SpinThread.holdsGuard, Bool.or_eq_true] at guard
    rcases guard with counted | isWriter
    · have positive : 0 < system.readers := countP_pos_of_getElem? otherFound counted
      omega
    have two : 2 ≤ system.writers := by
      refine two_le_countP found ?_ otherFound isWriter different
      cases holder <;> first | rfl | cases writes
    have one := sound.coherent.oneWriter
    omega

theorem Sound.word_eq_zero (sound : system.Sound) (free : ∀ thread ∈ system.members, thread.holdsGuard = false) :
    system.shared = 0 := by
  have none : ∀ property : SpinThread → Bool, (∀ thread, property thread = true → thread.holdsGuard = true) →
      system.members.countP property = 0 := by
    intro property guard
    rw [List.countP_eq_zero]
    intro thread member holds
    have held := guard thread holds
    rw [free thread member] at held
    cases held
  have readers : system.readers = 0 := none _ fun thread holds => by rw [SpinThread.holdsGuard, holds, Bool.true_or]
  have writers : system.writers = 0 := none _ fun thread holds => by rw [SpinThread.holdsGuard, holds, Bool.or_true]
  rw [sound.coherent.encodes.eq_iff, readers, writers]
  decide

/-- In every run in which no read guard is dropped on a load that shows the writer bit and no upgrade sets a bit that
is set, a write guard excludes every other guard and the last guard leaves the word zero. -/
theorem spinlock_excludes (debugAssertions : Bool) (threadCount : Nat) (turns : List (Nat × SpinAction))
    (system : SpinSystem)
    (few : EachState (step debugAssertions) (fun state => state.readers < 32768) (start threadCount) turns)
    (undisturbed : EachStep (step debugAssertions) TurnUndisturbed (start threadCount) turns)
    (run : runs (step debugAssertions) (start threadCount) turns = some system) :
    (∀ (writer other : Nat) (holder thread : SpinThread), writer ≠ other →
      system.members[writer]? = some holder → holder.holdsWriteGuard = true →
      system.members[other]? = some thread → thread.holdsGuard = false) ∧
    ((∀ thread ∈ system.members, thread.holdsGuard = false) → system.shared = 0) := by
  have sound : system.Sound := by
    refine runs_keeps_while Sound ?_ (few.steps.and undisturbed) run (sound_start threadCount)
    rintro state turn next sound ⟨few, undisturbed⟩ stepped
    exact sound_step sound undisturbed stepped (few next stepped)
  refine ⟨?_, sound.word_eq_zero⟩
  intro writer other holder thread different found writes otherFound
  exact sound.holdsGuard_eq_false different found writes otherFound

instance (system : SpinSystem) : DecidablePred system.TurnUndisturbed := fun turn =>
  match found : system.members[turn.1]? with
  | none => .isTrue fun thread inside => by
      rw [found] at inside
      cases inside
  | some thread => decidable_of_iff (Undisturbed system.shared thread turn.2) (by simp [TurnUndisturbed, found])

def upgradeAlone : List (Nat × SpinAction) :=
  [(0, .lockRead), (0, .proceed), (0, .upgradeToWrite), (0, .proceed), (0, .proceed), (0, .proceed),
    (0, .downgradeToRead), (0, .proceed), (0, .drop), (0, .proceed)]

theorem spinlock_excludes_upgradeAlone :
    ∃ system, runs (step true) (start 2) upgradeAlone = some system ∧ system.shared = 0 :=
  ⟨_, rfl, (spinlock_excludes true 2 upgradeAlone _ (by decide) (by decide) rfl).2 (by decide)⟩

def upgradeUnderReader : List (Nat × SpinAction) :=
  [(0, .lockRead), (0, .proceed), (1, .lockRead), (1, .proceed), (0, .upgradeToWrite), (0, .proceed), (0, .proceed),
    (1, .drop), (1, .proceed), (2, .lockWrite), (2, .proceed), (0, .proceed)]

theorem spinlock_two_writers : ∃ system, runs (step true) (start 3) upgradeUnderReader = some system ∧
      system.members[0]? = some .writeGuard ∧ system.members[2]? = some .writeGuard :=
  ⟨_, rfl, rfl, rfl⟩

end SpinSystem

end MeowOs.Sync
