import MeowOs.Machine.Interleaving

/-! # Shared ownership

`Arc` and `Weak` of `arc.rs` on one allocation.  Every access to a counter is a
step of its own, so a handle may be in the middle of a clone, an upgrade or a
drop.  Calls that borrow a handle may overlap on it; the drop takes it by value
and so begins only when no call is left that borrows it.

The counters do not wrap: a handle takes eight bytes of a 64-bit address space.
-/

namespace MeowOs.Sync

open MeowOs.Machine

/-- A handle, with the calls that are in the middle of their accesses. -/
inductive ArcHandle where
  /-- An `Arc`, and the number of its clones that have counted the reference but not the strong one. -/
  | arc (clones : Nat)
  /-- A `Weak`, the counts its upgrades have loaded, and the number of upgrades that have the strong count but have not
  counted the reference. -/
  | weak (loaded : List Nat) (claimed : Nat)
  | dropValue
  /-- An `Arc` in `drop`, about to give up its reference. -/
  | dropReference
  | free
  | gone
  deriving DecidableEq

inductive ArcAction where
  | cloneReference
  | cloneStrong
  | downgrade
  | cloneWeak
  | upgradeLoad
  | upgradeExchange (call : Nat)
  | upgradeReference
  | drop
  | proceed
  deriving DecidableEq

/-- `ArcInner`, what has been done to it, and the handles. -/
structure ArcState where
  strongCount : Nat
  allRefCount : Nat
  valueDrops : Nat
  frees : Nat
  handles : List ArcHandle
  deriving DecidableEq

namespace ArcState

def new : ArcState := ⟨1, 1, 0, 0, [.arc 0]⟩

def setHandle (state : ArcState) (index : Nat) (handle : ArcHandle) (fresh : List ArcHandle) : ArcState :=
  { state with handles := state.handles.set index handle ++ fresh }

/-- The last steps of either drop, after `all_ref_count.fetch_sub`. -/
def releaseReference (state : ArcState) (index : Nat) : ArcState :=
  { state with allRefCount := state.allRefCount - 1 }.setHandle index
    (if state.allRefCount = 1 then .free else .gone) []

/-- The body of the loop of `upgrade`, with the count that was loaded last. -/
def exchange (state : ArcState) (index call : Nat) (loaded : List Nat) (claimed current : Nat) : ArcState :=
  if state.strongCount = current then
    { state with strongCount := current + 1 }.setHandle index (.weak (loaded.eraseIdx call) (claimed + 1)) []
  -- the loop goes round with the count it has found, and returns `None` on zero
  else if state.strongCount = 0 then state.setHandle index (.weak (loaded.eraseIdx call) claimed) []
  else state.setHandle index (.weak (loaded.set call state.strongCount) claimed) []

def access (state : ArcState) (index : Nat) : ArcHandle → ArcAction → Option ArcState
  | .arc clones, .cloneReference =>
    some ({ state with allRefCount := state.allRefCount + 1 }.setHandle index (.arc (clones + 1)) [])
  | .arc (clones + 1), .cloneStrong =>
    some ({ state with strongCount := state.strongCount + 1 }.setHandle index (.arc clones) [.arc 0])
  | .arc clones, .downgrade =>
    some ({ state with allRefCount := state.allRefCount + 1 }.setHandle index (.arc clones) [.weak [] 0])
  | .weak loaded claimed, .cloneWeak =>
    some ({ state with allRefCount := state.allRefCount + 1 }.setHandle index (.weak loaded claimed) [.weak [] 0])
  | .weak loaded claimed, .upgradeLoad =>
    some (state.setHandle index
      (.weak (if state.strongCount = 0 then loaded else state.strongCount :: loaded) claimed) [])
  | .weak loaded claimed, .upgradeExchange call =>
    (loaded[call]?).map fun current => state.exchange index call loaded claimed current
  | .weak loaded (claimed + 1), .upgradeReference =>
    some ({ state with allRefCount := state.allRefCount + 1 }.setHandle index (.weak loaded claimed) [.arc 0])
  | .arc 0, .drop =>
    some ({ state with strongCount := state.strongCount - 1 }.setHandle index
      (if state.strongCount = 1 then .dropValue else .dropReference) [])
  | .weak [] 0, .drop => some (state.releaseReference index)
  | .dropValue, .proceed =>
    some ({ state with valueDrops := state.valueDrops + 1 }.setHandle index .dropReference [])
  | .dropReference, .proceed => some (state.releaseReference index)
  | .free, .proceed => some ({ state with frees := state.frees + 1 }.setHandle index .gone [])
  | _, _ => none

def step (state : ArcState) (move : Nat × ArcAction) : Option ArcState := do
  let handle ← state.handles[move.1]?
  state.access move.1 handle move.2

end ArcState

namespace ArcHandle

@[simp] def strong : ArcHandle → Nat
  | arc _ => 1
  | weak _ claimed => claimed
  | dropValue | dropReference | free | gone => 0

@[simp] def references : ArcHandle → Nat
  | arc clones => 1 + clones
  | weak _ _ | dropValue | dropReference => 1
  | free | gone => 0

@[simp] def holdsValue : ArcHandle → Nat
  | dropValue => 1
  | arc _ | weak _ _ | dropReference | free | gone => 0

@[simp] def holdsAllocation : ArcHandle → Nat
  | free => 1
  | arc _ | weak _ _ | dropValue | dropReference | gone => 0

/-- The upgrades of a handle have loaded counts of living `Arc`s. -/
def Hopeful : ArcHandle → Prop
  | weak loaded _ => ∀ current ∈ loaded, current ≠ 0
  | _ => True

end ArcHandle

/-! ## The counters -/

/-- The counters are those of `strong` and `references` handles, and there is one value and one allocation: in use,
about to be given up, or given up. -/
structure Accounted (state : ArcState) (strong references values allocations : Nat) : Prop where
  strongCount : state.strongCount = strong
  allRefCount : state.allRefCount = references
  valueKept : strong ≠ 0 → state.valueDrops + values = 0
  valueOnce : strong = 0 → state.valueDrops + values = 1
  allocationKept : references ≠ 0 → state.frees + allocations = 0
  allocationOnce : references = 0 → state.frees + allocations = 1

namespace ArcState

open ArcHandle (holdsValue holdsAllocation)

variable {state next : ArcState} {index : Nat} {old : ArcHandle} {action : ArcAction}
variable {strong references values allocations : Nat} {loaded : List Nat}

structure Settles (state : ArcState) (index : Nat) (next : ArcState) (strong references values allocations : Nat)
    (new : ArcHandle) (fresh : List ArcHandle) : Prop where
  handles : next.handles = state.handles.set index new ++ fresh
  accounted : Accounted next (strong + new.strong + total ArcHandle.strong fresh)
    (references + new.references + total ArcHandle.references fresh)
    (values + new.holdsValue + total holdsValue fresh)
    (allocations + new.holdsAllocation + total holdsAllocation fresh)
  hopeful : new.Hopeful
  freshHopeful : ∀ handle ∈ fresh, handle.Hopeful

theorem releaseReference_settles (before : Accounted state strong (references + 1) values allocations) :
    ∃ new fresh, Settles state index (state.releaseReference index) strong references values allocations new fresh := by
  cases before
  refine ⟨_, [], rfl, ?_, ?_, nofun⟩
  · by_cases last : state.allRefCount = 1
    · constructor <;> simp [releaseReference, setHandle, last] <;> omega
    · constructor <;> simp [releaseReference, setHandle, last] <;> omega
  · split <;> trivial

theorem fresh_arc_hopeful : ∀ handle ∈ [ArcHandle.arc 0], handle.Hopeful := List.forall_mem_singleton.mpr trivial

theorem fresh_weak_hopeful : ∀ handle ∈ [ArcHandle.weak [] 0], handle.Hopeful := List.forall_mem_singleton.mpr nofun

theorem arc_settles {clones : Nat} (before : Accounted state (strong + 1) (references + (1 + clones)) values allocations)
    (accessed : state.access index (.arc clones) action = some next) :
    ∃ new fresh, Settles state index next strong references values allocations new fresh := by
  cases before
  cases action with
  | cloneReference =>
    cases accessed
    refine ⟨.arc (clones + 1), [], rfl, ?_, trivial, nofun⟩
    constructor <;> simp [setHandle] <;> omega
  | cloneStrong =>
    cases clones <;> cases accessed
    refine ⟨_, [.arc 0], rfl, ?_, trivial, fresh_arc_hopeful⟩
    constructor <;> simp [setHandle] <;> omega
  | downgrade =>
    cases accessed
    refine ⟨.arc clones, [.weak [] 0], rfl, ?_, trivial, fresh_weak_hopeful⟩
    constructor <;> simp [setHandle] <;> omega
  | drop =>
    cases clones <;> cases accessed
    -- the last strong count takes the value with it
    by_cases last : state.strongCount = 1
    · refine ⟨.dropValue, [], by simp only [setHandle, last, if_true], ?_, trivial, nofun⟩
      constructor <;> simp [setHandle] <;> omega
    · refine ⟨.dropReference, [], by simp only [setHandle, last, if_false], ?_, trivial, nofun⟩
      constructor <;> simp [setHandle] <;> omega
  | _ => cases accessed

theorem exchange_settles {claimed call current : Nat}
    (before : Accounted state (strong + claimed) (references + 1) values allocations)
    (hopeful : ∀ current ∈ loaded, current ≠ 0) (found : loaded[call]? = some current) :
    ∃ new fresh, Settles state index (state.exchange index call loaded claimed current) strong references values
      allocations new fresh := by
  cases before
  have positive : current ≠ 0 := hopeful current (List.mem_of_getElem? found)
  rw [exchange]
  split
  · refine ⟨.weak (loaded.eraseIdx call) (claimed + 1), [], rfl, ?_, ?_, nofun⟩
    · constructor <;> simp [setHandle] <;> omega
    · exact fun value inside => hopeful value (List.mem_of_mem_eraseIdx inside)
  by_cases dead : state.strongCount = 0
  · rw [if_pos dead]
    refine ⟨.weak (loaded.eraseIdx call) claimed, [], rfl, ?_, ?_, nofun⟩
    · constructor <;> simp [setHandle] <;> omega
    · exact fun value inside => hopeful value (List.mem_of_mem_eraseIdx inside)
  · rw [if_neg dead]
    refine ⟨.weak (loaded.set call state.strongCount) claimed, [], rfl, ?_, ?_, nofun⟩
    · constructor <;> simp [setHandle] <;> omega
    intro value inside
    rcases List.mem_or_eq_of_mem_set inside with inside | rfl
    · exact hopeful value inside
    · exact dead

theorem weak_settles {claimed : Nat} (before : Accounted state (strong + claimed) (references + 1) values allocations)
    (hopeful : ∀ current ∈ loaded, current ≠ 0)
    (accessed : state.access index (.weak loaded claimed) action = some next) :
    ∃ new fresh, Settles state index next strong references values allocations new fresh := by
  have whole := before
  cases before
  cases action with
  | cloneWeak =>
    cases accessed
    refine ⟨.weak loaded claimed, [.weak [] 0], rfl, ?_, hopeful, fresh_weak_hopeful⟩
    constructor <;> simp [setHandle] <;> omega
  | upgradeLoad =>
    cases accessed
    refine ⟨_, [], rfl, ?_, ?_, nofun⟩
    · constructor <;> simp [setHandle] <;> omega
    split
    · exact hopeful
    next dead =>
      exact List.forall_mem_cons.mpr ⟨dead, hopeful⟩
  | upgradeExchange call =>
    obtain ⟨current, found, rfl⟩ := Option.map_eq_some_iff.mp accessed
    exact exchange_settles whole hopeful found
  | upgradeReference =>
    cases claimed <;> cases accessed
    refine ⟨_, [.arc 0], rfl, ?_, hopeful, fresh_arc_hopeful⟩
    constructor <;> simp [setHandle] <;> omega
  | drop =>
    cases loaded <;> cases claimed <;> cases accessed
    exact releaseReference_settles whole
  | _ => cases accessed

theorem access_settles (before : Accounted state (strong + old.strong) (references + old.references)
      (values + old.holdsValue) (allocations + old.holdsAllocation))
    (hopeful : old.Hopeful) (accessed : state.access index old action = some next) :
    ∃ new fresh, Settles state index next strong references values allocations new fresh := by
  cases old with
  | arc clones => exact arc_settles before accessed
  | weak loaded claimed => exact weak_settles before hopeful accessed
  | dropValue | free =>
    cases before
    cases action <;> cases accessed
    refine ⟨_, [], rfl, ?_, trivial, nofun⟩
    constructor <;> simp [setHandle] at * <;> omega
  | dropReference =>
    cases action <;> cases accessed
    exact releaseReference_settles before
  | gone => cases action <;> cases accessed

/-! ## Runs -/

variable {move : Nat × ArcAction}

def liveArcs (state : ArcState) : Nat := total ArcHandle.strong state.handles

structure Sound (state : ArcState) : Prop where
  accounted : Accounted state state.liveArcs (total ArcHandle.references state.handles)
    (total holdsValue state.handles) (total holdsAllocation state.handles)
  hopeful : ∀ handle ∈ state.handles, handle.Hopeful

theorem sound_new : new.Sound := by
  exact ⟨⟨rfl, rfl, fun _ => rfl, nofun, fun _ => rfl, nofun⟩, fresh_arc_hopeful⟩

theorem sound_step (sound : state.Sound) (stepped : state.step move = some next) : next.Sound := by
  obtain ⟨old, found, accessed⟩ := Option.bind_eq_some_iff.mp stepped
  have before := sound.accounted
  simp only [liveArcs, total_of_getElem? _ found] at before
  obtain ⟨new, fresh, settles⟩ :=
    access_settles before (sound.hopeful old (List.mem_of_getElem? found)) accessed
  have totals : ∀ weight, total weight next.handles =
      total weight (state.handles.eraseIdx move.1) + weight new + total weight fresh := by
    intro weight
    rw [settles.handles, total_append, total_set_of_getElem? weight found]
  constructor
  · rw [liveArcs, totals, totals, totals, totals]
    exact settles.accounted
  intro handle member
  rw [settles.handles, List.mem_append] at member
  rcases member with member | member
  · rcases List.mem_or_eq_of_mem_set member with member | rfl
    · exact sound.hopeful handle member
    · exact settles.hopeful
  · exact settles.freshHopeful handle member

def UpgradeSucceeds (state : ArcState) (move : Nat × ArcAction) : Prop :=
  ∃ loaded claimed call, state.handles[move.1]? = some (.weak loaded claimed) ∧ move.2 = .upgradeExchange call ∧
    loaded[call]? = some state.strongCount

theorem Sound.valueDrops_iff (sound : state.Sound) :
    state.valueDrops ≤ 1 ∧ (state.valueDrops = 1 ↔ state.liveArcs = 0 ∧ .dropValue ∉ state.handles) := by
  have kept := sound.accounted.valueKept
  have once := sound.accounted.valueOnce
  have pending : .dropValue ∈ state.handles → 1 ≤ total holdsValue state.handles :=
    fun member => weight_le_total holdsValue member
  have none : .dropValue ∉ state.handles → total holdsValue state.handles = 0 := by
    intro absent
    refine total_eq_zero fun handle member => ?_
    cases handle <;> first | rfl | exact absurd member absent
  refine ⟨by omega, fun dropped => ⟨by omega, fun member => ?_⟩, fun ⟨dead, absent⟩ => ?_⟩
  · have pending := pending member
    omega
  · have none := none absent
    omega

theorem Sound.frees_iff (sound : state.Sound) :
    state.frees ≤ 1 ∧ (state.frees = 1 ↔ ∀ handle ∈ state.handles, handle = .gone) := by
  have kept := sound.accounted.allocationKept
  have once := sound.accounted.allocationOnce
  refine ⟨by omega, fun freed handle member => ?_, fun gone => ?_⟩
  · have references := weight_le_total ArcHandle.references member
    have allocations := weight_le_total holdsAllocation member
    cases handle with
    | arc clones =>
      change 1 + clones ≤ _ at references
      omega
    | weak | dropValue | dropReference =>
      change 1 ≤ _ at references
      omega
    | free =>
      change 1 ≤ _ at allocations
      omega
    | gone => rfl
  · have references : total ArcHandle.references state.handles = 0 :=
      total_eq_zero fun handle member => by rw [gone handle member]; rfl
    have allocations : total holdsAllocation state.handles = 0 :=
      total_eq_zero fun handle member => by rw [gone handle member]; rfl
    omega

/-- In every run the value is dropped once the last `Arc` is gone, and once only; the allocation is freed once every
handle is gone, and once only; and an upgrade succeeds only while an `Arc` is alive. -/
theorem arc_life_cycle (moves : List (Nat × ArcAction)) (state : ArcState) (run : runs step new moves = some state) :
    (state.valueDrops ≤ 1 ∧ (state.valueDrops = 1 ↔ state.liveArcs = 0 ∧ .dropValue ∉ state.handles)) ∧
    (state.frees ≤ 1 ∧ (state.frees = 1 ↔ ∀ handle ∈ state.handles, handle = .gone)) ∧
    (∀ move, state.UpgradeSucceeds move → 0 < state.liveArcs) := by
  have sound : state.Sound := runs_keeps Sound sound_step run sound_new
  refine ⟨sound.valueDrops_iff, sound.frees_iff, ?_⟩
  rintro move ⟨loaded, claimed, call, found, -, same⟩
  have positive := sound.hopeful _ (List.mem_of_getElem? found) state.strongCount (List.mem_of_getElem? same)
  have count := sound.accounted.strongCount
  omega

def upgradeDuringDrop : List (Nat × ArcAction) :=
  [(0, .downgrade), (1, .upgradeLoad), (1, .upgradeExchange 0), (0, .drop), (0, .proceed), (1, .upgradeReference),
    (2, .drop), (2, .proceed), (2, .proceed), (1, .drop), (1, .proceed)]

theorem arc_life_cycle_upgradeDuringDrop :
    ∃ state, runs step new upgradeDuringDrop = some state ∧ state.valueDrops = 1 ∧ state.frees = 1 := by
  have reached : runs step new upgradeDuringDrop = some ⟨0, 0, 1, 1, [.gone, .gone, .gone]⟩ := by decide
  have cycle := arc_life_cycle upgradeDuringDrop _ reached
  exact ⟨_, reached, cycle.1.2.mpr (by decide), cycle.2.1.2.mpr (by decide)⟩

end ArcState

end MeowOs.Sync
