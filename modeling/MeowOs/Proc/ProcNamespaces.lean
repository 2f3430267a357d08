import MeowOs.KernelError
import MeowOs.Machine.BinarySearch
import MeowOs.Machine.Interleaving
import MeowOs.Memory.MemorySystem

/-! # The namespaces of a process

`namespaces/mod.rs` and `namespace_management_pack.rs`: a process owns a list of
namespaces, sorted by their ids, and uses one of each type.  The root of the page
tree it runs on is a field of its own, which the dispatcher reads.

A namespace is known by its id here, and what is inside of memory namespaces is
in the memory system.  A memory namespace is dropped with the last reference to
it; other processes may hold references too.
-/

namespace MeowOs.Proc.Namespaces

open MeowOs.Machine MeowOs.Memory

inductive NamespaceType where
  | syscall
  | mem
  | fs
deriving DecidableEq

def NamespaceType.fromId : Nat → Option NamespaceType
  | 0 => some .syscall
  | 1 => some .mem
  | 2 => some .fs
  | _ => none

structure NamespaceHolder where
  type : NamespaceType
  id : Nat
deriving DecidableEq

structure ProcNamespaces where
  ownedNamespaces : List NamespaceHolder
  memoryNamespace : Nat
  syscallNamespace : Nat
  filesystemNamespace : Nat
deriving DecidableEq

namespace ProcNamespaces

def new (memoryNamespace syscallNamespace filesystemNamespace : Nat) : ProcNamespaces where
  ownedNamespaces := List.insertionSort (fun a b => a.id ≤ b.id)
    [⟨.mem, memoryNamespace⟩, ⟨.syscall, syscallNamespace⟩, ⟨.fs, filesystemNamespace⟩]
  memoryNamespace := memoryNamespace
  syscallNamespace := syscallNamespace
  filesystemNamespace := filesystemNamespace

def search (namespaces : ProcNamespaces) (namespaceId : Nat) : Option Nat :=
  (binarySearch (fun holder => compare holder.id namespaceId) namespaces.ownedNamespaces).toOption

def getNamespaceHolder (namespaces : ProcNamespaces) (namespaceId : Nat) : Option NamespaceHolder :=
  (namespaces.search namespaceId).bind fun index => namespaces.ownedNamespaces[index]?

/-- `change_namespace`, with the memory namespace whose root the returned function is going to store in the process. -/
def changeNamespace (namespaces : ProcNamespaces) (namespaceId : Nat) : Option (ProcNamespaces × Option Nat) :=
  (namespaces.getNamespaceHolder namespaceId).map fun holder =>
    match holder.type with
    | .syscall => ({ namespaces with syscallNamespace := holder.id }, none)
    | .mem => ({ namespaces with memoryNamespace := holder.id }, some holder.id)
    | .fs => ({ namespaces with filesystemNamespace := holder.id }, none)

def addNamespace (namespaces : ProcNamespaces) (holder : NamespaceHolder) : ProcNamespaces :=
  { namespaces with
    ownedNamespaces := insertSearched (fun a b => compare a.id b.id) namespaces.ownedNamespaces holder }

def isInUse (namespaces : ProcNamespaces) (namespaceId : Nat) : Bool :=
  namespaces.syscallNamespace == namespaceId || namespaces.memoryNamespace == namespaceId

def removeNamespace (namespaces : ProcNamespaces) (namespaceId : Nat) : Option (ProcNamespaces × NamespaceHolder) :=
  (namespaces.search namespaceId).bind fun index =>
    if namespaces.isInUse namespaceId then none
    else (namespaces.ownedNamespaces[index]?).map fun holder =>
      ({ namespaces with ownedNamespaces := namespaces.ownedNamespaces.eraseIdx index }, holder)

/-- `clone_from_ids`, where an id of 0 stands for the namespace in use. -/
def cloneFromIds (namespaces : ProcNamespaces) (memoryNamespace syscallNamespace filesystemNamespace : Nat) :
    Except KernelErrorCode ProcNamespaces :=
  let find (id default : Nat) := namespaces.getNamespaceHolder (if id = 0 then default else id)
  match find memoryNamespace namespaces.memoryNamespace, find syscallNamespace namespaces.syscallNamespace,
    find filesystemNamespace namespaces.filesystemNamespace with
  | some ⟨.mem, memory⟩, some ⟨.syscall, syscall⟩, some ⟨.fs, filesystem⟩ => .ok (.new memory syscall filesystem)
  | _, _, _ => .error .invalidArgument

def Holds (namespaces : ProcNamespaces) (id : Nat) : Prop :=
  namespaces.memoryNamespace = id ∨ ⟨.mem, id⟩ ∈ namespaces.ownedNamespaces

/-! ## The namespaces in use are owned -/

section Lists

variable {namespaces namespaces' : ProcNamespaces} {holder other : NamespaceHolder} {id : Nat}

theorem mem_addNamespace : other ∈ (namespaces.addNamespace holder).ownedNamespaces ↔
    other = holder ∨ other ∈ namespaces.ownedNamespaces := by
  rw [addNamespace, mem_insertSearched]

theorem search_eq_some {index : Nat} (found : namespaces.search id = some index) :
    ∃ holder, namespaces.ownedNamespaces[index]? = some holder ∧ holder.id = id := by
  unfold search Except.toOption at found
  split at found
  next searched =>
    cases found
    obtain ⟨holder, there, equal⟩ := binarySearch_ok searched
    exact ⟨holder, there, compare_eq_iff_eq.mp equal⟩
  next => cases found

theorem removeNamespace_spec (removed : namespaces.removeNamespace id = some (namespaces', holder)) :
    holder.id = id ∧ namespaces.isInUse id = false ∧ ∃ index, namespaces.ownedNamespaces[index]? = some holder ∧
      namespaces' = { namespaces with ownedNamespaces := namespaces.ownedNamespaces.eraseIdx index } := by
  obtain ⟨index, found, run⟩ := Option.bind_eq_some_iff.mp removed
  obtain ⟨unused, run⟩ := Option.ite_none_left_eq_some.mp run
  obtain ⟨_, here, isRemoved⟩ := Option.map_eq_some_iff.mp run
  cases isRemoved
  obtain ⟨_, there, isId⟩ := search_eq_some found
  cases here.symm.trans there
  exact ⟨isId, Bool.eq_false_iff.mpr unused, index, here, rfl⟩

end Lists

structure Owns (namespaces : ProcNamespaces) : Prop where
  sorted : SortedBy (fun holder : NamespaceHolder => holder.id) namespaces.ownedNamespaces
  distinct : (namespaces.ownedNamespaces.map (·.id)).Nodup
  memory : ⟨.mem, namespaces.memoryNamespace⟩ ∈ namespaces.ownedNamespaces
  syscall : ⟨.syscall, namespaces.syscallNamespace⟩ ∈ namespaces.ownedNamespaces
  filesystem : ⟨.fs, namespaces.filesystemNamespace⟩ ∈ namespaces.ownedNamespaces

inductive ListCall where
  | add (holder : NamespaceHolder)
  | change (namespaceId : Nat)
  | remove (namespaceId : Nat)

def step (namespaces : ProcNamespaces) : ListCall → Option ProcNamespaces
  | .add holder => some (namespaces.addNamespace holder)
  | .change id => some ((namespaces.changeNamespace id).elim namespaces Prod.fst)
  | .remove id => some ((namespaces.removeNamespace id).elim namespaces Prod.fst)

/-- A new namespace has a fresh id, and the namespace of files in use is not removed. -/
def KeepsFs (namespaces : ProcNamespaces) : ListCall → Prop
  | .add holder => ∀ other ∈ namespaces.ownedNamespaces, other.id ≠ holder.id
  | .change _ => True
  | .remove id => id ≠ namespaces.filesystemNamespace

instance (namespaces : ProcNamespaces) : DecidablePred namespaces.KeepsFs := by
  rintro (_ | _ | _) <;> unfold KeepsFs <;> infer_instance

namespace Owns

variable {namespaces : ProcNamespaces} {memory syscall filesystem : Nat}

theorem new (apart : [memory, syscall, filesystem].Nodup) : (ProcNamespaces.new memory syscall filesystem).Owns := by
  have perm := List.perm_insertionSort (fun a b : NamespaceHolder => a.id ≤ b.id)
    [⟨.mem, memory⟩, ⟨.syscall, syscall⟩, ⟨.fs, filesystem⟩]
  exact ⟨List.pairwise_insertionSort _ _, (perm.map _).nodup_iff.mpr apart, perm.mem_iff.mpr (by simp [ProcNamespaces.new]),
    perm.mem_iff.mpr (by simp [ProcNamespaces.new]), perm.mem_iff.mpr (by simp [ProcNamespaces.new])⟩

variable (owns : namespaces.Owns)

include owns

theorem find {holder : NamespaceHolder} (member : holder ∈ namespaces.ownedNamespaces) :
    namespaces.getNamespaceHolder holder.id = some holder := by
  cases searched : binarySearch (fun other => compare other.id holder.id) namespaces.ownedNamespaces with
  | error pos =>
    have missing := (binarySearch_missing (owns.sorted.ascends_key holder.id) searched).2 holder member
    exact absurd (compare_eq_iff_eq.mpr rfl) missing
  | ok pos =>
    have found : namespaces.search holder.id = some pos := by
      rw [search, searched]
      rfl
    obtain ⟨other, there, same⟩ := search_eq_some found
    have only := List.inj_on_of_nodup_map owns.distinct (List.mem_of_getElem? there) member same
    rw [getNamespaceHolder, found, Option.bind_some, there, only]

theorem cloneFromIds : namespaces.cloneFromIds 0 0 0 =
    .ok (.new namespaces.memoryNamespace namespaces.syscallNamespace namespaces.filesystemNamespace) := by
  simp only [ProcNamespaces.cloneFromIds, if_true, owns.find owns.memory, owns.find owns.syscall, owns.find owns.filesystem]

theorem step {call : ListCall} {next : ProcNamespaces} (keeps : namespaces.KeepsFs call)
    (stepped : namespaces.step call = some next) : next.Owns := by
  cases call with
  | add holder =>
    cases stepped
    have perm := insertSearched_perm (fun a b => compare a.id b.id) namespaces.ownedNamespaces holder
    refine ⟨insertSearched_sorted (fun _ _ => rfl) owns.sorted holder, (perm.map _).nodup_iff.mpr ?_,
      mem_addNamespace.mpr (.inr owns.memory), mem_addNamespace.mpr (.inr owns.syscall),
      mem_addNamespace.mpr (.inr owns.filesystem)⟩
    exact List.nodup_cons.mpr ⟨fun old => (List.mem_map.mp old).elim fun other there => keeps other there.1 there.2, owns.distinct⟩
  | change id =>
    cases stepped
    unfold changeNamespace
    cases found : namespaces.getNamespaceHolder id with
    | none => exact owns
    | some holder =>
      obtain ⟨index, -, here⟩ := Option.bind_eq_some_iff.mp found
      have member := List.mem_of_getElem? here
      obtain ⟨type, id⟩ := holder
      cases type with
      | mem => exact ⟨owns.sorted, owns.distinct, member, owns.syscall, owns.filesystem⟩
      | syscall => exact ⟨owns.sorted, owns.distinct, owns.memory, member, owns.filesystem⟩
      | fs => exact ⟨owns.sorted, owns.distinct, owns.memory, owns.syscall, member⟩
  | remove id =>
    cases stepped
    cases removed : namespaces.removeNamespace id with
    | none => exact owns
    | some result =>
      obtain ⟨rfl, unused, index, here, isRest⟩ := removeNamespace_spec removed
      have stays : ∀ {other}, other ∈ namespaces.ownedNamespaces → other.id ≠ result.2.id →
          other ∈ namespaces.ownedNamespaces.eraseIdx index := by
        intro other member ne
        obtain ⟨i, there⟩ := List.mem_iff_getElem?.mp member
        refine List.mem_eraseIdx_iff_getElem?.mpr ⟨i, ?_, there⟩
        rintro rfl
        cases here.symm.trans there
        exact ne rfl
      simp only [isInUse, Bool.or_eq_false_iff, beq_eq_false_iff_ne] at unused
      have fewer := List.eraseIdx_sublist namespaces.ownedNamespaces index
      rw [Option.elim_some, isRest]
      exact ⟨owns.sorted.sublist fewer, owns.distinct.sublist (fewer.map _), stays owns.memory unused.2,
        stays owns.syscall unused.1, stays owns.filesystem keeps.symm⟩

end Owns

theorem current_stay_owned {memory syscall filesystem : Nat} (apart : [memory, syscall, filesystem].Nodup)
    (calls : List ListCall) (finish : ProcNamespaces) (each : EachStep step KeepsFs (new memory syscall filesystem) calls)
    (run : runs step (new memory syscall filesystem) calls = some finish) :
    finish.Owns ∧ ∃ clone, finish.cloneFromIds 0 0 0 = .ok clone := by
  have owns : finish.Owns := runs_keeps_while Owns (fun owns => owns.step) each run (.new apart)
  exact ⟨owns, _, owns.cloneFromIds⟩

theorem current_stay_owned_removed : ∃ finish, runs step (new 1 2 3) [.add ⟨.fs, 4⟩, .change 4, .remove 3] = some finish ∧
    ∃ clone, finish.cloneFromIds 0 0 0 = .ok clone :=
  ⟨_, rfl, (current_stay_owned (by decide) [.add ⟨.fs, 4⟩, .change 4, .remove 3] _ (by decide) rfl).2⟩

/-- The namespace of files in use is removed. -/
theorem removed_while_in_use : runs step (new 1 2 3) [.remove 3] = some ⟨[⟨.mem, 1⟩, ⟨.syscall, 2⟩], 1, 2, 3⟩ ∧
    (new 1 2 3).cloneFromIds 0 0 0 = .ok (new 1 2 3) ∧
    (⟨[⟨.mem, 1⟩, ⟨.syscall, 2⟩], 1, 2, 3⟩ : ProcNamespaces).cloneFromIds 0 0 0 = .error .invalidArgument :=
  ⟨by decide, by decide, by decide⟩

end ProcNamespaces

structure ProcessData where
  pageTreeRoot : Nat
  namespaces : ProcNamespaces
deriving DecidableEq

namespace ProcessData

def new (namespaces : ProcNamespaces) (root : Nat) : ProcessData := ⟨root, namespaces⟩

def addNamespace (proc : ProcessData) (holder : NamespaceHolder) : ProcessData :=
  { proc with namespaces := proc.namespaces.addNamespace holder }

/-- `chnamespace`, with the value it returns: it asks whether `change_namespace` has worked, and drops the function that it
gets back. -/
def chnamespace (proc : ProcessData) (namespaceId : Nat) : ProcessData × Nat :=
  match proc.namespaces.changeNamespace namespaceId with
  | some (namespaces, _) => ({ proc with namespaces := namespaces }, 0)
  | none => (proc, 2 ^ 64 - 1)

end ProcessData

/-! ## Syscalls -/

structure ProcState where
  memory : MemorySystem
  proc : ProcessData

namespace ProcState

def nextId (state : ProcState) : Nat := state.memory.space.namespaceIdCounter

def addOther (state : ProcState) (type : NamespaceType) : ProcState :=
  ⟨state.memory.countNamespace, state.proc.addNamespace ⟨type, state.nextId⟩⟩

def create (memory : MemorySystem) (id : Nat) (ns : MemoryNamespace) : ProcState where
  memory := memory.countNamespace.countNamespace
  proc := .new (.new id memory.space.namespaceIdCounter (memory.space.namespaceIdCounter + 1)) ns.pageTreeRoot

end ProcState

inductive NamespaceCall where
  | mknamespace (namespaceType existingNamespace : Nat)
  | rmnamespace (namespaceId : Nat)
  | chnamespace (namespaceId : Nat)

/-- What a call does, with the frames `pool` on offer, and what it returns.  A call that fails while `mknamespace` looks at
the namespaces of the process waits forever: it returns its result under the lock that it holds. -/
inductive CallStep (pool : List Nat) : ProcState → NamespaceCall → Option Nat → ProcState → Prop
  | unknownType {state : ProcState} {t e : Nat} (bad : NamespaceType.fromId t = none) :
      CallStep pool state (.mknamespace t e) (some (2 ^ 64 - 1)) state
  | emptySyscall {state : ProcState} {t : Nat} (type : NamespaceType.fromId t = some .syscall) :
      CallStep pool state (.mknamespace t 0) (some 0) (state.addOther .syscall)
  | emptyMem {state : ProcState} {t : Nat} {memory : MemorySystem} (type : NamespaceType.fromId t = some .mem)
      (step : MemoryStep state.memory pool .createEmpty memory) :
      CallStep pool state (.mknamespace t 0) (some 0) ⟨memory, state.proc.addNamespace ⟨.mem, state.nextId⟩⟩
  | emptyFs {state : ProcState} {t : Nat} (type : NamespaceType.fromId t = some .fs) :
      CallStep pool state (.mknamespace t 0) (some (2 ^ 64 - 1)) { state with memory := state.memory.countNamespace }
  | unknown {state : ProcState} {t e : Nat} {type : NamespaceType} (known : NamespaceType.fromId t = some type)
      (nonzero : e ≠ 0) (missing : state.proc.namespaces.getNamespaceHolder e = none) :
      CallStep pool state (.mknamespace t e) none state
  /-- A copy is of the type of the other namespace, whatever type is asked for. -/
  | copyOther {state : ProcState} {t e : Nat} {type : NamespaceType} {holder : NamespaceHolder}
      (known : NamespaceType.fromId t = some type) (nonzero : e ≠ 0)
      (found : state.proc.namespaces.getNamespaceHolder e = some holder) (other : holder.type ≠ .mem) :
      CallStep pool state (.mknamespace t e) (some 0) (state.addOther holder.type)
  | copyMem {state : ProcState} {t e : Nat} {type : NamespaceType} {holder : NamespaceHolder} {memory : MemorySystem}
      (known : NamespaceType.fromId t = some type) (nonzero : e ≠ 0)
      (found : state.proc.namespaces.getNamespaceHolder e = some holder) (mem : holder.type = .mem)
      (step : MemoryStep state.memory pool (.createFrom holder.id) memory)
      (copied : memory.space.namespaces state.nextId ≠ none) :
      CallStep pool state (.mknamespace t e) (some 0) ⟨memory, state.proc.addNamespace ⟨.mem, state.nextId⟩⟩
  | copyFailed {state : ProcState} {t e : Nat} {type : NamespaceType} {holder : NamespaceHolder} {memory : MemorySystem}
      (known : NamespaceType.fromId t = some type) (nonzero : e ≠ 0)
      (found : state.proc.namespaces.getNamespaceHolder e = some holder) (mem : holder.type = .mem)
      (step : MemoryStep state.memory pool (.createFrom holder.id) memory)
      (failed : memory.space.namespaces state.nextId = none) :
      CallStep pool state (.mknamespace t e) none { state with memory := memory }
  | removeRefused {state : ProcState} {id : Nat} (refused : state.proc.namespaces.removeNamespace id = none) :
      CallStep pool state (.rmnamespace id) (some (2 ^ 64 - 1)) state
  /-- The namespace is not one of memory, or somebody else holds it. -/
  | removeShared {state : ProcState} {id : Nat} {namespaces : ProcNamespaces} {holder : NamespaceHolder}
      (removed : state.proc.namespaces.removeNamespace id = some (namespaces, holder)) :
      CallStep pool state (.rmnamespace id) (some 0) { state with proc := { state.proc with namespaces := namespaces } }
  | removeLast {state : ProcState} {id : Nat} {namespaces : ProcNamespaces} {holder : NamespaceHolder}
      {memory : MemorySystem} (removed : state.proc.namespaces.removeNamespace id = some (namespaces, holder))
      (mem : holder.type = .mem) (last : ¬ namespaces.Holds holder.id)
      (step : MemoryStep state.memory pool (.drop holder.id) memory) :
      CallStep pool state (.rmnamespace id) (some 0) ⟨memory, { state.proc with namespaces := namespaces }⟩
  | change {state : ProcState} {id : Nat} : CallStep pool state (.chnamespace id) (some (state.proc.chnamespace id).2)
        { state with proc := (state.proc.chnamespace id).1 }

inductive ProcEvent where
  | call (call : NamespaceCall)
  | memory (op : MemoryOp)

/-- Nobody drops a namespace that the process holds. -/
inductive ProcStep (pool : List Nat) (state : ProcState) : ProcEvent → ProcState → Prop
  | call {call : NamespaceCall} {value : Nat} {state' : ProcState} (step : CallStep pool state call (some value) state') :
      ProcStep pool state (.call call) state'
  | memory {op : MemoryOp} {memory : MemorySystem} (step : MemoryStep state.memory pool op memory)
      (kept : ∀ id, op = .drop id → ¬ state.proc.namespaces.Holds id) :
      ProcStep pool state (.memory op) { state with memory := memory }

inductive ProcRun (allowed : ProcState → ProcEvent → Prop) : ProcState → List (List Nat × ProcEvent) → ProcState → Prop
  | nil (state : ProcState) : ProcRun allowed state [] state
  | snoc {state mid state' : ProcState} {events : List (List Nat × ProcEvent)} {pool : List Nat} {event : ProcEvent}
      (before : ProcRun allowed state events mid) (ok : allowed mid event) (step : ProcStep pool mid event state') :
      ProcRun allowed state (events ++ [(pool, event)]) state'

end MeowOs.Proc.Namespaces
