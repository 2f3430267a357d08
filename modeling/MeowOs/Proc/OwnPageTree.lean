import MeowOs.Memory.MemoryScripts
import MeowOs.Proc.ProcNamespaces

/-! # The page tree a process runs on

A process that never changes to another memory namespace runs on the tree of its
own one, which is there and contains the kernel's half (`runs_on_own_tree`).
`chnamespace` to another memory namespace changes the namespace, and leaves the
process on the old tree; `rmnamespace` then frees that (`change_strands_process`).
-/

namespace MeowOs.Proc.Namespaces

open MeowOs.Machine MeowOs.Memory PageTableEntry

/-- The process runs on the tree of its memory namespace, whose root was not given back, and the tree contains the
kernel's half. -/
def RunsOnOwnTree (state : ProcState) : Prop :=
  ∃ ns, state.memory.space.namespaces state.proc.namespaces.memoryNamespace = some ns ∧
    state.proc.pageTreeRoot = ns.pageTreeRoot ∧ state.memory.space.tables.inUse ns.pageTreeRoot = true ∧
    ∀ i, 256 ≤ i → i < 512 → ns.top i = state.memory.kernelHalf i

def ProcEvent.Keeps (state : ProcState) : ProcEvent → Prop
  | .call (.chnamespace id) => ∀ holder, state.proc.namespaces.getNamespaceHolder id = some holder →
      holder.type = .mem → holder.id = state.proc.namespaces.memoryNamespace
  | .call _ => True
  | .memory op => op.Regular state.memory

/-! ## The invariant -/

/-- The process runs on its own tree, and the other memory namespaces that it owns are there, without the kernel's half. -/
structure OwnTree (state : ProcState) (A : Atlas) : Prop where
  sound : Sound none state.memory A
  current : ∃ ns, state.memory.space.namespaces state.proc.namespaces.memoryNamespace = some ns ∧
    state.proc.pageTreeRoot = ns.pageTreeRoot ∧ ∀ i, 256 ≤ i → i < 512 → ns.top i = state.memory.kernelHalf i
  owned : ∀ holder ∈ state.proc.namespaces.ownedNamespaces, holder.type = .mem →
    holder.id ≠ state.proc.namespaces.memoryNamespace →
    ∃ ns, state.memory.space.namespaces holder.id = some ns ∧ ∀ i, 256 ≤ i → i < 512 → present (ns.top i) = false

theorem OwnTree.runs {state : ProcState} {A : Atlas} (own : OwnTree state A) : RunsOnOwnTree state := by
  obtain ⟨ns, found, root, half⟩ := own.current
  exact ⟨ns, found, root, (own.sound.chart.frames (own.sound.filed found).2).2, half⟩

section Steps

variable {state : ProcState} {A : Atlas} {memory : MemorySystem} {pool : List Nat} {op : MemoryOp}

variable (own : OwnTree state A) {namespaces : ProcNamespaces}

include own

theorem OwnTree.memoryStep
    (step : MemoryStep state.memory pool op memory) (regular : op.Regular state.memory)
    (current : namespaces.memoryNamespace = state.proc.namespaces.memoryNamespace)
    (stays : ∀ id, op = .drop id → ¬ namespaces.Holds id)
    (owned : ∀ holder ∈ namespaces.ownedNamespaces, holder ∈ state.proc.namespaces.ownedNamespaces ∨
      ∃ ns, memory.space.namespaces holder.id = some ns ∧ ∀ i, 256 ≤ i → i < 512 → present (ns.top i) = false) :
    ∃ A', OwnTree ⟨memory, { state.proc with namespaces := namespaces }⟩ A' := by
  obtain ⟨A', sound'⟩ := memoryStep_sound step regular own.sound
  refine ⟨A', sound', ?_, fun holder member isMem ne => ?_⟩
  · obtain ⟨ns, found, root, half⟩ := own.current
    obtain ⟨ns', found', root', half'⟩ := memoryStep_half step regular own.sound found
      fun isDrop => stays _ isDrop (.inl current)
    refine ⟨ns', current ▸ found', root.trans root'.symm, fun i high low => ?_⟩
    rw [half' i high, half i high low, step.kernelHalf]
  · rcases owned holder member with old | new
    · obtain ⟨ns, found, blank⟩ := own.owned holder old isMem (current ▸ ne)
      obtain ⟨ns', found', -, half'⟩ := memoryStep_half step regular own.sound found
        fun isDrop => stays _ isDrop (.inr (isMem ▸ member))
      exact ⟨ns', found', fun i high low => by rw [half' i high]; exact blank i high low⟩
    · exact new

theorem OwnTree.makes (step : MemoryStep state.memory pool op memory)
    (makes : op = .createEmpty ∨ ∃ id, op = .createFrom id) (made : memory.space.namespaces state.nextId ≠ none) :
    ∃ A', OwnTree ⟨memory, state.proc.addNamespace ⟨.mem, state.nextId⟩⟩ A' := by
  have regular : op.Regular state.memory := by
    rcases makes with rfl | ⟨id, rfl⟩ <;> trivial
  refine own.memoryStep step regular rfl ?_ ?_
  · rintro id rfl
    rcases makes with no | ⟨_, no⟩ <;> cases no
  intro holder member
  rcases ProcNamespaces.mem_addNamespace.mp member with rfl | old
  · obtain ⟨ns, found⟩ := Option.ne_none_iff_exists'.mp made
    refine .inr ⟨ns, found, fun i high _ => ?_⟩
    suffices zero : ns.top i = 0 by
      rw [zero]
      rfl
    cases step with
    | mk offered step =>
      cases step with
      | createEmpty run =>
        obtain ⟨f, rest, -, -, rfl, rfl⟩ := createEmpty_eq_some.mp run
        cases MemorySystem.setNamespace_self.symm.trans found
        rfl
      | createFrom there run =>
        obtain ⟨-, -, -, half⟩ := (own.sound.withPool offered).createFrom there run
        exact half ns (MemorySystem.setNamespace_self.symm.trans found) i high
      | _ => rcases makes with no | ⟨_, no⟩ <;> cases no
  · exact .inl old

theorem OwnTree.withNamespaces
    (current : namespaces.memoryNamespace = state.proc.namespaces.memoryNamespace)
    (owned : ∀ holder ∈ namespaces.ownedNamespaces, holder.type = .mem → holder ∈ state.proc.namespaces.ownedNamespaces) :
    OwnTree { state with proc := { state.proc with namespaces := namespaces } } A := by
  refine ⟨own.sound, ?_, fun holder member isMem ne => own.owned holder (owned holder member isMem) isMem (current ▸ ne)⟩
  rw [current]
  exact own.current

theorem OwnTree.countNamespace : OwnTree { state with memory := state.memory.countNamespace } A :=
  ⟨own.sound.countNamespace, own.current, own.owned⟩

theorem OwnTree.addOther {type : NamespaceType} (other : type ≠ .mem) : OwnTree (state.addOther type) A := by
  refine own.countNamespace.withNamespaces rfl fun holder member isMem => ?_
  rcases ProcNamespaces.mem_addNamespace.mp member with rfl | old
  · exact absurd isMem other
  · exact old

theorem OwnTree.regular_drop {holder : NamespaceHolder}
    (member : holder ∈ state.proc.namespaces.ownedNamespaces) (isMem : holder.type = .mem)
    (unused : holder.id ≠ state.proc.namespaces.memoryNamespace) : (MemoryOp.drop holder.id).Regular state.memory := by
  obtain ⟨ns, found, blank⟩ := own.owned holder member isMem unused
  intro ns' found'
  cases found.symm.trans found'
  exact blank

theorem OwnTree.chnamespace {id : Nat} (keeps : (ProcEvent.call (.chnamespace id)).Keeps state) :
    OwnTree { state with proc := (state.proc.chnamespace id).1 } A := by
  unfold ProcessData.chnamespace ProcNamespaces.changeNamespace
  cases found : state.proc.namespaces.getNamespaceHolder id with
  | none => exact own
  | some holder =>
    obtain ⟨type, holderId⟩ := holder
    cases type with
    | mem => exact own.withNamespaces (keeps _ found rfl) fun _ member _ => member
    | syscall | fs => exact own.withNamespaces rfl fun _ member _ => member

theorem OwnTree.step {event : ProcEvent} {state' : ProcState} (keeps : event.Keeps state)
    (step : ProcStep pool state event state') : ∃ A', OwnTree state' A' := by
  cases step with
  | memory step stays => exact own.memoryStep step keeps rfl stays fun _ member => .inl member
  | call step =>
    cases step with
    | unknownType | removeRefused => exact ⟨A, own⟩
    | emptySyscall => exact ⟨A, own.addOther (by decide)⟩
    | emptyFs => exact ⟨A, own.countNamespace⟩
    | copyOther _ _ _ other => exact ⟨A, own.addOther other⟩
    | emptyMem _ step =>
      refine own.makes step (.inl rfl) ?_
      cases step with
      | mk _ step =>
        cases step with
        | createEmpty run =>
          exact fun no => nomatch MemorySystem.setNamespace_self.symm.trans no
    | copyMem _ _ _ _ step copied => exact own.makes step (.inr ⟨_, rfl⟩) copied
    | removeShared removed =>
      obtain ⟨-, -, index, -, rfl⟩ := ProcNamespaces.removeNamespace_spec removed
      exact ⟨A, own.withNamespaces rfl fun _ member _ => List.mem_of_mem_eraseIdx member⟩
    | removeLast removed isMem last step =>
      obtain ⟨rfl, unused, index, here, rfl⟩ := ProcNamespaces.removeNamespace_spec removed
      have notMemory := (Bool.or_eq_false_iff.mp unused).2
      refine own.memoryStep step (own.regular_drop (List.mem_of_getElem? here) isMem (beq_eq_false_iff_ne.mp notMemory).symm)
        rfl ?_ fun _ member => .inl (List.mem_of_mem_eraseIdx member)
      rintro - ⟨⟩
      exact last
    | change => exact ⟨A, own.chnamespace keeps⟩

end Steps

theorem OwnTree.create {memory : MemorySystem} {A : Atlas} {id : Nat} {ns : MemoryNamespace} (sound : Sound none memory A)
    (found : memory.space.namespaces id = some ns) (half : ∀ i, 256 ≤ i → i < 512 → ns.top i = memory.kernelHalf i) :
    OwnTree (.create memory id ns) A := by
  refine ⟨sound.countNamespace.countNamespace, ⟨ns, found, rfl, half⟩, fun holder member isMem ne => ?_⟩
  have cases' := (List.perm_insertionSort _ _).mem_iff.mp member
  simp only [List.mem_cons, List.not_mem_nil, or_false] at cases'
  rcases cases' with rfl | rfl | rfl
  · exact absurd rfl ne
  · cases isMem
  · cases isMem

/-- A process that starts on the tree of its memory namespace runs on the tree of its memory namespace as long as it does not
change to another one, whatever namespaces it makes and removes, and whatever else happens in memory. -/
theorem runs_on_own_tree {sys memory : MemorySystem} {ops : List (List Nat × MemoryOp)} (fresh : Fresh sys)
    (before : MemoryRun (fun sys op => op.Regular sys) sys ops memory) {id : Nat} {ns : MemoryNamespace}
    (found : memory.space.namespaces id = some ns) (half : ∀ i, 256 ≤ i → i < 512 → ns.top i = memory.kernelHalf i)
    {events : List (List Nat × ProcEvent)} {state : ProcState}
    (run : ProcRun (fun state event => event.Keeps state) (.create memory id ns) events state) : RunsOnOwnTree state := by
  obtain ⟨A, sound⟩ := before.sound fresh
  have own : ∃ A', OwnTree state A' := by
    induction run with
    | nil => exact ⟨A, .create sound found half⟩
    | snoc _ keeps step ih =>
      obtain ⟨A', own⟩ := ih
      exact own.step keeps step
  obtain ⟨A', own⟩ := own
  exact own.runs

def firstNamespace : List (List Nat × MemoryOp) := [([0x2000], .buildEmpty)]

theorem runs_on_own_tree_first : ∃ memory ns state, MemoryRun (fun sys op => op.Regular sys) bareSystem firstNamespace memory ∧
    memory.space.namespaces 1 = some ns ∧
    ProcRun (fun state event => event.Keeps state) (.create memory 1 ns) [([0x3000], .call (.mknamespace 1 0))] state ∧
    RunsOnOwnTree state := by
  have runs : (bareSystem.runScript (fun sys op => op.isRegular sys) firstNamespace).bind (fun memory =>
      (memory.space.namespaces 1).bind fun ns =>
        (memory.countNamespace.countNamespace.runScript (fun _ _ => true) [([0x3000], .createEmpty)]).map fun _ =>
          (List.range 256).all fun i => ns.top (256 + i) == memory.kernelHalf (256 + i)) = some true := by
    decide +kernel
  obtain ⟨memory, run, seen⟩ := Option.bind_eq_some_iff.mp runs
  obtain ⟨ns, found, seen⟩ := Option.bind_eq_some_iff.mp seen
  obtain ⟨memory', made, isHalf⟩ := Option.map_eq_some_iff.mp seen
  have half : ∀ i, 256 ≤ i → i < 512 → ns.top i = memory.kernelHalf i := by
    intro i high low
    have same := List.all_eq_true.mp isHalf (i - 256) (List.mem_range.mpr (by omega))
    rwa [beq_iff_eq, Nat.add_sub_cancel' high] at same
  have before : MemoryRun (fun sys op => op.Regular sys) bareSystem firstNamespace memory :=
    runScript_run MemoryOp.regular_of_isRegular bareSystem_filed run
  have filed := (runScript_filed bareSystem_filed run).countNamespace.countNamespace
  have step : ProcStep [0x3000] (.create memory 1 ns) (.call (.mknamespace 1 0)) _ :=
    .call (.emptyMem rfl (runScript_step filed made))
  have isRun : ProcRun (fun state event => event.Keeps state) (.create memory 1 ns) _ _ :=
    (ProcRun.nil _).snoc (by trivial) step
  exact ⟨memory, ns, _, before, found, isRun, runs_on_own_tree bareSystem_fresh before found half isRun⟩

def changeAndRemove : List (List Nat × ProcEvent) :=
  [([0x3000], .call (.mknamespace 1 0)), ([], .call (.chnamespace 4)), ([], .call (.rmnamespace 1))]

def ownsFour (memoryNamespace : Nat) : ProcessData :=
  ⟨0x2000, [⟨.mem, 1⟩, ⟨.syscall, 2⟩, ⟨.fs, 3⟩, ⟨.mem, 4⟩], memoryNamespace, 2, 3⟩

/-- The process runs on a root that was given back, while the root of its memory namespace is another one. -/
theorem change_strands_process : ∃ memory ns state,
    MemoryRun (fun sys op => op.Regular sys) bareSystem firstNamespace memory ∧ memory.space.namespaces 1 = some ns ∧
    ProcRun (fun _ _ => True) (.create memory 1 ns) changeAndRemove state ∧
    state.proc.pageTreeRoot = 0x2000 ∧ state.memory.space.tables.inUse 0x2000 = false ∧
    (∃ ns', state.memory.space.namespaces state.proc.namespaces.memoryNamespace = some ns' ∧
      ns'.pageTreeRoot = 0x3000) ∧ ¬ RunsOnOwnTree state := by
  have runs : (bareSystem.runScript (fun sys op => op.isRegular sys) firstNamespace).bind (fun memory =>
      (memory.space.namespaces 1).bind fun ns =>
        (memory.countNamespace.countNamespace.runScript (fun _ _ => true) [([0x3000], .createEmpty)]).bind fun memory₁ =>
          (memory₁.runScript (fun _ _ => true) [([], .drop 1)]).bind fun memory₂ =>
            (memory₂.space.namespaces 4).map fun ns' => (memory.space.namespaceIdCounter, ns.pageTreeRoot,
              memory₂.space.tables.inUse 0x2000, ns'.pageTreeRoot)) = some (2, 0x2000, false, 0x3000) := by
    decide +kernel
  obtain ⟨memory, run, seen⟩ := Option.bind_eq_some_iff.mp runs
  obtain ⟨ns, found, seen⟩ := Option.bind_eq_some_iff.mp seen
  obtain ⟨memory₁, made, seen⟩ := Option.bind_eq_some_iff.mp seen
  obtain ⟨memory₂, dropped, seen⟩ := Option.bind_eq_some_iff.mp seen
  obtain ⟨ns', found', seen⟩ := Option.map_eq_some_iff.mp seen
  simp only [Prod.mk.injEq] at seen
  obtain ⟨counter, root, freed, root'⟩ := seen
  have filed := (runScript_filed bareSystem_filed run).countNamespace.countNamespace
  have nextId : (ProcState.create memory 1 ns).nextId = 4 := by
    change memory.space.namespaceIdCounter + 1 + 1 = 4
    rw [counter]
  have proc₁ : (ProcState.create memory 1 ns).proc.addNamespace ⟨.mem, (ProcState.create memory 1 ns).nextId⟩ =
      ownsFour 1 := by
    rw [nextId]
    unfold ProcState.create
    dsimp only
    rw [counter, root]
    decide
  have made₁ : ProcStep [0x3000] (.create memory 1 ns) (.call (.mknamespace 1 0)) ⟨memory₁, ownsFour 1⟩ := by
    rw [← proc₁]
    exact .call (.emptyMem rfl (runScript_step filed made))
  have proc₂ : ((ownsFour 1).chnamespace 4).1 = ownsFour 4 := by decide
  have proc₃ : (ownsFour 4).namespaces.removeNamespace 1 =
      some (⟨[⟨.syscall, 2⟩, ⟨.fs, 3⟩, ⟨.mem, 4⟩], 4, 2, 3⟩, ⟨.mem, 1⟩) := by decide
  have changed : ProcStep [] ⟨memory₁, ownsFour 1⟩ (.call (.chnamespace 4)) ⟨memory₁, ownsFour 4⟩ := by
    rw [← proc₂]
    exact .call .change
  have removed : ProcStep [] ⟨memory₁, ownsFour 4⟩ (.call (.rmnamespace 1))
      ⟨memory₂, ⟨0x2000, [⟨.syscall, 2⟩, ⟨.fs, 3⟩, ⟨.mem, 4⟩], 4, 2, 3⟩⟩ := by
    refine .call (.removeLast proc₃ rfl ?_ (runScript_step (runScript_filed filed made) dropped))
    unfold ProcNamespaces.Holds
    decide
  refine ⟨memory, ns, _, runScript_run MemoryOp.regular_of_isRegular bareSystem_filed run, found,
    (((ProcRun.nil _).snoc trivial made₁).snoc trivial changed).snoc trivial removed, rfl, freed, ⟨ns', found', root'⟩, ?_⟩
  rintro ⟨other, there, same, -⟩
  cases (show memory₂.space.namespaces 4 = some other from there).symm.trans found'
  rw [← same] at root'
  cases root'

end MeowOs.Proc.Namespaces
