import MeowOs.Memory.PageWalks

/-! # What a fresh page contains

Ranges and namespaces are created and grow, twice with the same frames on offer,
but with other contents in the frames.  Nothing depends on these contents: both
runs build the same tables (`grow_alike`).  A page of a range that is larger
than a page still has what its frame contained at the start, as mapping a page
does not clear its frame (`fresh_word_same_iff`).
-/

namespace MeowOs.Memory

open MeowOs.Machine PageTableEntry TableMem
open Function (update update_of_ne update_self)

/-! ## Operations that grow -/

def RangeOp.grows : RangeOp → Bool
  | .expandTo _ | .expandBy _ | .expandToAddress .. | .allocateManualExternal .. => true
  | .shrinkTo _ | .shrinkBy _ | .freeManualExternal .. => false

theorem RangeOp.unmaps_eq_none {op : RangeOp} (grows : op.grows = true) (range : VirtualMemoryRange) (current : Nat) :
    op.unmaps range current = none := by
  cases op with
  | expandTo | expandBy | expandToAddress | allocateManualExternal => rfl
  | shrinkTo | shrinkBy | freeManualExternal => cases grows

def MemoryOp.grows : MemoryOp → Bool
  | .create .. | .add .. | .createEmpty | .buildEmpty => true
  | .pages _ op => op.grows
  | .release _ | .remove .. | .createFrom _ | .drop _ | .setProt .. => false

/-- An operation that grows, its effect on the map of the frames and on the contents of pages, and the same operation on
a memory with other contents. -/
structure Grown (sys : MemorySystem) (A : Atlas) (op : MemoryOp) (sys' : MemorySystem) (A' : Atlas) : Prop where
  sound : Sound none sys' A'
  kept : ∀ {x p}, A.place x = some p → A'.place x = some p
  pages : ∀ f, (∀ o l n, A'.place f ≠ some ⟨o, l + 1, n⟩) →
    (sys'.space.tables.entries f = sys.space.tables.entries f ∧ A'.ranges f = A.ranges f) ∨
      ((∃ range, A'.ranges f = some range ∧ range.level = 0) ∧ sys'.space.tables.entries f = fun _ => 0)
  twin : ∀ u, Twin A.place sys.space.tables u →
    ∃ u', OpStep (sys.withTables u) op (sys'.withTables u') ∧ Twin A'.place sys'.space.tables u'

section Growth

variable {sys sys' : MemorySystem} {A : Atlas} {op : MemoryOp}

theorem Sound.grow_create {capacity : VirtualMemoryRangeCapacity} {perms : Nat} {mode : ManagementMode}
    {range : VirtualMemoryRange} {tables : TableMem} (sound : Sound none sys A)
    (run : VirtualMemoryRange.create capacity perms mode sys.space.tables = some (range, tables)) :
    Grown sys A (.create capacity perms mode) ((sys.withTables tables).addRange range) (A.plant range) := by
  have sound' := (sound.create run).1
  obtain ⟨f, rest, offer, direct, rfl, rfl⟩ := create_eq_some.mp run
  have new := sound.chart.fresh (offer ▸ List.mem_cons_self)
  refine ⟨sound', fun placed => (update_of_placed placed new).2, fun x page => ?_, fun u twin => ⟨_, ?_, twin.take (c := False) nofun⟩⟩
  · by_cases same : x = f
    · subst same
      refine .inr ⟨⟨_, update_self .., ?_⟩, update_self ..⟩
      by_contra tall
      obtain ⟨l, isLevel⟩ := Nat.exists_eq_succ_of_ne_zero tall
      refine page (.range x) l 0 ?_
      rw [← Nat.succ_eq_add_one, ← isLevel]
      exact update_self ..
    · exact .inl ⟨update_of_ne same _ _, update_of_ne same _ _⟩
  · refine OpStep.create (create_eq_some.mpr ⟨f, rest, ?_, ?_, rfl, rfl⟩)
    · exact twin.pool.trans offer
    · exact twin.hhdm ▸ direct

theorem Sound.grow_install {ns : MemoryNamespace} {f : Nat} {rest : List Nat} (sound : Sound none sys A)
    (offer : sys.space.tables.pool = f :: rest) (root : ns.pageTreeRoot = f) (regions : ns.memoryRanges = [])
    (blank : ∀ i < 256, present (ns.top i) = false)
    (step : ∀ u, Twin A.place sys.space.tables u → OpStep (sys.withTables u) op (sys.installed u ns f rest)) :
    Grown sys A op (sys.installed sys.space.tables ns f rest) (A.install sys.space.namespaceIdCounter f) := by
  have new := sound.chart.fresh (offer ▸ List.mem_cons_self)
  obtain ⟨sound', -⟩ := sound.install ns offer root regions blank
  exact ⟨sound', fun placed => (update_of_placed placed new).2, fun x _ => .inl ⟨rfl, rfl⟩,
    fun u twin => ⟨_, step u twin, twin.take (c := True) fun _ tall => absurd tall.2 (lt_irrefl 4)⟩⟩

theorem opStep_grown (step : OpStep sys op sys') (regular : op.Regular sys) (grows : op.grows = true)
    (sound : Sound none sys A) : ∃ A', Grown sys A op sys' A' := by
  cases step with
  | create run => exact ⟨_, sound.grow_create run⟩
  | @pages range op ok space live run =>
    obtain ⟨place', sound', -, done⟩ := sound.pages live run
    obtain ⟨job, -, isGrowing, -, touches⟩ := done.touches
    have grow := isGrowing (op.unmaps_eq_none grows _ _)
    refine ⟨_, sound', fun placed => touches.kept sound.chart grow placed, fun f page => .inl ⟨?_, rfl⟩, fun u twin => ?_⟩
    · exact touches.pages sound.chart grow page
    · obtain ⟨u', run', twin'⟩ := done.twin u twin
      exact ⟨u', .pages live run', twin'⟩
  | @add id range name rangeType mapAddress ns ns' res tables live found run =>
    obtain ⟨place', sound', frames, -, -, -, twins⟩ := sound.add live found regular.1 regular.2 run
    refine ⟨_, sound', frames.kept, fun f page => .inl ⟨frames.pages f page, rfl⟩, fun u twin => ?_⟩
    obtain ⟨u', run', twin'⟩ := twins u twin
    exact ⟨u', .add live found run', twin'⟩
  | createEmpty run =>
    obtain ⟨f, rest, offer, direct, rfl, rfl⟩ := createEmpty_eq_some.mp run
    refine ⟨_, sound.grow_install offer rfl rfl (fun _ _ => (by decide : present 0 = false)) fun u twin => ?_⟩
    refine OpStep.createEmpty (createEmpty_eq_some.mpr ⟨f, rest, ?_, ?_, rfl, rfl⟩)
    · exact twin.pool.trans offer
    · exact twin.hhdm ▸ direct
  | buildEmpty run =>
    obtain ⟨f, rest, offer, direct, rfl, rfl⟩ := createEmpty_eq_some.mp run
    refine ⟨_, sound.grow_install offer rfl rfl
      (fun i low => (congrArg present (if_neg (by omega))).trans (by decide : present 0 = false)) fun u twin => ?_⟩
    refine OpStep.buildEmpty (createEmpty_eq_some.mpr ⟨f, rest, ?_, ?_, rfl, rfl⟩)
    · exact twin.pool.trans offer
    · exact twin.hhdm ▸ direct
  | release | remove | createFrom | drop | setProt => cases grows

theorem OpStep.eq_of_grows {other : MemorySystem} (grows : op.grows = true) (step : OpStep sys op sys')
    (again : OpStep sys op other) : other = sys' := by
  cases step with
  | create run | createEmpty run | buildEmpty run =>
    cases again with
    | _ run' =>
      cases run.symm.trans run'
      rfl
  | pages _ run =>
    cases again with
    | pages _ run' =>
      cases run.symm.trans run'
      rfl
  | add _ found run =>
    cases again with
    | add _ found' run' =>
      cases found.symm.trans found'
      cases run.symm.trans run'
      rfl
  | release | remove | createFrom | drop | setProt => cases grows

end Growth

/-! ## One run -/

/-- Frames that are no tables have what they had at the start, except for the ranges of one page, which are cleared. -/
def Contents (start sys : MemorySystem) (A : Atlas) : Prop :=
  ∀ f, (∀ o l n, A.place f ≠ some ⟨o, l + 1, n⟩) →
    ((∃ range, A.ranges f = some range ∧ range.level = 0) → sys.space.tables.entries f = fun _ => 0) ∧
    ((¬ ∃ range, A.ranges f = some range ∧ range.level = 0) → sys.space.tables.entries f = start.space.tables.entries f)

variable {start sys : MemorySystem} {A : Atlas} {op : MemoryOp} {σ : Setting} {s : TableMem} {place : Places}
  {r : OwnedVirtualMemoryRange} {id a phys : Nat}

theorem Grown.contents {sys' : MemorySystem} {A' : Atlas} (grown : Grown sys A op sys' A')
    (contents : Contents start sys A) : Contents start sys' A' := by
  intro f page
  obtain ⟨cleared, same⟩ := contents f fun o l n placed => page o l n (grown.kept placed)
  rcases grown.pages f page with ⟨entries, ranges⟩ | ⟨isPage, entries⟩
  · rw [entries, ranges]
    exact ⟨cleared, same⟩
  · exact ⟨fun _ => entries, fun no => absurd isPage no⟩

def Growing (sys : MemorySystem) (op : MemoryOp) : Prop := op.Regular sys ∧ op.grows = true

def MemorySystem.word (sys : MemorySystem) (phys : Nat) : Nat :=
  sys.space.tables.entries (phys / 4096 * 4096) (phys % 4096 / 8)

theorem descend_page {node l n t c f : Nat} (isChart : Chart σ s place) (placed : place t = some ⟨.range node, l, n⟩)
    (walk : TableForest.descend 512 (σ.next s.entries place) l t c = some f) :
    ∃ m, place f = some ⟨.range node, 0, m⟩ := by
  induction l generalizing t n with
  | zero =>
    cases walk
    exact ⟨n, placed⟩
  | succ l ih =>
    obtain ⟨g, step, walk⟩ := Option.bind_eq_some_iff.mp walk
    exact ih ((isChart.forest.down placed (Nat.mod_lt _ (by omega)) step).resolve_left isChart.not_link) walk

theorem Sound.word_eq {ns : MemoryNamespace} (sound : Sound none sys A)
    (contents : Contents start sys A) (found : sys.space.namespaces id = some ns) (member : r ∈ ns.memoryRanges)
    (page : translateFrom sys.space.tables.entries a r.sharedRange.level r.sharedRange.node = some phys) :
    sys.word phys = if r.sharedRange.level = 0 then 0 else start.word phys := by
  have live := sys.live_of_region found member
  have node := sound.node live
  rw [translateFrom_eq_descend sound.chart r.sharedRange.level_le (fun _ _ => rfl) node] at page
  obtain ⟨f, walk, rfl⟩ := Option.map_eq_some_iff.mp page
  obtain ⟨m, placed⟩ := descend_page sound.chart node walk
  obtain ⟨k, rfl⟩ := (sound.chart.frames placed).1.aligned
  have isFrame : (4096 * k + a % 4096) / 4096 * 4096 = 4096 * k := by omega
  -- the frame is the node of a range of one page exactly if it is the node of this range, and that is of one page
  have small : (∃ range, A.ranges (4096 * k) = some range ∧ range.level = 0) ↔ r.sharedRange.level = 0 := by
    constructor
    · rintro ⟨range, known, isPage⟩
      have root := (sound.held known).2.2
      rw [placed, Option.some.injEq, TablePlace.mk.injEq, Owner.range.injEq] at root
      rw [← root.1, sound.live live, Option.some.injEq] at known
      rw [known, isPage]
    · intro isPage
      rw [isPage, TableForest.descend, Option.some.injEq] at walk
      exact ⟨_, walk ▸ sound.live live, isPage⟩
  obtain ⟨cleared, same⟩ := contents (4096 * k) fun o l n table => by
    rw [placed] at table
    cases table
  unfold MemorySystem.word
  rw [isFrame]
  by_cases isPage : r.sharedRange.level = 0
  · rw [if_pos isPage, cleared (small.mpr isPage)]
  · rw [if_neg isPage, same fun no => isPage (small.mp no)]

/-! ## Two runs -/

/-- Two states that differ in the contents of pages and free frames at most. -/
structure Alike (A : Atlas) (sys₁ sys₂ : MemorySystem) : Prop where
  same : sys₂ = sys₁.withTables sys₂.space.tables
  twin : Twin A.place sys₁.space.tables sys₂.space.tables

section Pairs

variable {start₁ start₂ sys₁ sys₂ sys1' sys2' : MemorySystem} {A : Atlas} {ops : List (List Nat × MemoryOp)}
  {pool : List Nat} {op : MemoryOp}

theorem step_alike (sound : Sound none sys₁ A) (contents : Contents start₁ sys₁ A) (alike : Alike A sys₁ sys₂)
    (growing : Growing sys₁ op) (step1 : MemoryStep sys₁ pool op sys1') (step2 : MemoryStep sys₂ pool op sys2') :
    ∃ A', Sound none sys1' A' ∧ Contents start₁ sys1' A' ∧ Alike A' sys1' sys2' := by
  obtain ⟨regular, grows⟩ := growing
  cases step1 with
  | @mk mid1 offered step1 =>
    cases step2 with
    | @mk mid2 _ step2 =>
      obtain ⟨A', grown⟩ := opStep_grown step1 (regular.withPool pool) grows (sound.withPool offered)
      have contents' : Contents start₁ (sys₁.withPool pool) A := contents
      have twin : Twin A.place (sys₁.withPool pool).space.tables (sys₂.withPool pool).space.tables :=
        ⟨rfl, alike.twin.inUse, alike.twin.frees, alike.twin.hhdm, alike.twin.tables⟩
      obtain ⟨u', step', twin'⟩ := grown.twin _ twin
      have sameStart : (sys₁.withPool pool).withTables (sys₂.withPool pool).space.tables = sys₂.withPool pool := by
        rw [alike.same]
        rfl
      rw [sameStart] at step'
      obtain rfl := step'.eq_of_grows grows step2
      refine ⟨A', grown.sound.countTaken pool, grown.contents contents', ?_, twin'⟩
      have taken : u'.pool.length = mid1.space.tables.pool.length := by rw [twin'.pool]
      unfold MemorySystem.countTaken MemorySystem.withTables
      rw [taken]

theorem grow_alike (fresh : Fresh start₁) (same : start₂ = start₁.withTables start₂.space.tables)
    (twin : Twin (fun _ => none) start₁.space.tables start₂.space.tables) (run₁ : MemoryRun Growing start₁ ops sys₁)
    (run₂ : MemoryRun Growing start₂ ops sys₂) :
    ∃ A, Sound none sys₁ A ∧ Contents start₁ sys₁ A ∧ Alike A sys₁ sys₂ := by
  induction run₁ generalizing sys₂ with
  | nil =>
    generalize isNil : [] = none at run₂
    cases run₂ with
    | nil => exact ⟨_, fresh.sound, fun f _ => ⟨fun ⟨_, no, _⟩ => (nomatch no), fun _ => rfl⟩, same, twin⟩
    | snoc => simp at isNil
  | snoc before ok step ih =>
    obtain ⟨mid2, before2, -, step2⟩ := run₂.last
    obtain ⟨A, sound, contents, alike⟩ := ih before2
    exact step_alike sound contents alike ok step step2

end Pairs

theorem translateFrom_alike {u : TableMem} {o : Owner} {a l n t : Nat}
    (isChart : Chart σ s place) (twin : Twin place s u) (lower : l ≤ 3) (placed : place t = some ⟨o, l, n⟩) :
    translateFrom u.entries a l t = translateFrom s.entries a l t := by
  rw [translateFrom_eq_descend isChart lower (fun table low => twin.tables table ⟨Nat.succ_pos _, Nat.succ_lt_succ low⟩) placed]
  exact (translateFrom_eq_descend isChart lower (fun _ _ => rfl) placed).symm

/-- What a process reads at an address of a region after the same operations on two memories: the same word exactly if
the region is of one page, or the frame had the same word at the start. -/
theorem fresh_word_same_iff {start₁ start₂ sys₁ sys₂ : MemorySystem} {ops : List (List Nat × MemoryOp)} (fresh : Fresh start₁)
    (same : ∃ E, start₂ = start₁.withTables { start₁.space.tables with entries := E })
    (run₁ : MemoryRun Growing start₁ ops sys₁) (run₂ : MemoryRun Growing start₂ ops sys₂)
    {ns : MemoryNamespace} (found : sys₁.space.namespaces id = some ns)
    (member : r ∈ ns.memoryRanges) (inside : r.mapAddress ≤ a ∧ a < r.stop)
    (page : translateVirtPhysAddr sys₁.space.tables.hhdm (ns.tree sys₁.space.tables.entries) a ns.pageTreeRoot = some phys) :
    sys₂.space.namespaces id = some ns ∧
    translateVirtPhysAddr sys₂.space.tables.hhdm (ns.tree sys₂.space.tables.entries) a ns.pageTreeRoot = some phys ∧
    (sys₁.word phys = sys₂.word phys ↔ r.sharedRange.capacity = .c4KB ∨ start₁.word phys = start₂.word phys) := by
  obtain ⟨E, isStart⟩ := same
  have fresh₂ : Fresh start₂ := by
    rw [isStart]
    exact ⟨fresh.namespaces, fresh.handles, fresh.history, fresh.pool⟩
  have twin : Twin (fun _ => none) start₁.space.tables start₂.space.tables := by
    rw [isStart]
    exact ⟨rfl, rfl, rfl, rfl, nofun⟩
  obtain ⟨A, sound, contents, alike⟩ := grow_alike fresh (by rw [isStart]; rfl) twin run₁ run₂
  obtain ⟨A₂, sound₂, contents₂, -⟩ := grow_alike fresh₂ rfl (.refl _ _) run₂ run₂
  have found₂ : sys₂.space.namespaces id = some ns := by
    rw [alike.same]
    exact found
  have node := sound.node (sys₁.live_of_region found member)
  rw [sound.translate_region found member inside] at page
  rw [sound₂.translate_region found₂ member inside,
    translateFrom_alike sound.chart alike.twin r.sharedRange.level_le node]
  have page₂ := page
  rw [← translateFrom_alike sound.chart alike.twin r.sharedRange.level_le node] at page₂
  rw [sound.word_eq contents found member page, sound₂.word_eq contents₂ found₂ member page₂]
  refine ⟨found₂, page, ?_⟩
  rw [← VirtualMemoryRange.level_eq_zero]
  by_cases small : r.sharedRange.level = 0
  · rw [if_pos small, if_pos small]
    exact iff_of_true rfl (.inl small)
  · rw [if_neg small, if_neg small]
    exact (or_iff_right small).symm

theorem growing_of_check (passes : (op.isRegular sys && op.grows) = true) : Growing sys op := by
  obtain ⟨regular, grows⟩ := Bool.and_eq_true_iff.mp passes
  exact ⟨MemoryOp.regular_of_isRegular regular, grows⟩

def dirtySystem : MemorySystem := bareSystem.withTables { bareSystem.space.tables with entries := fun _ _ => 5 }

/-- A region of one page does not show what was in its frame. -/
theorem fresh_word_same_iff_page : ∃ sys₁ sys₂, MemoryRun Growing bareSystem (oneRegion .c4KB 3) sys₁ ∧
    MemoryRun Growing dirtySystem (oneRegion .c4KB 3) sys₂ ∧ sys₁.word 0x2000 = sys₂.word 0x2000 := by
  obtain ⟨sys₁, ns, isRun₁, found, ⟨r, isRegion, inside, isRange⟩, page⟩ :
      ∃ sys₁ ns, MemoryRun Growing bareSystem (oneRegion .c4KB 3) sys₁ ∧ sys₁.space.namespaces 1 = some ns ∧
        (∃ r ∈ ns.memoryRanges, (r.mapAddress ≤ 0x200000 ∧ 0x200000 < r.stop) ∧ r.sharedRange.capacity = .c4KB) ∧
        translateVirtPhysAddr sys₁.space.tables.hhdm (ns.tree sys₁.space.tables.entries) 0x200000 ns.pageTreeRoot =
          some 0x2000 :=
    runScript_holds growing_of_check bareSystem_filed (by decide +kernel)
  have runs₂ : (dirtySystem.runScript (fun sys op => op.isRegular sys && op.grows) (oneRegion .c4KB 3)).isSome = true := by
    decide +kernel
  obtain ⟨sys₂, run₂⟩ := Option.isSome_iff_exists.mp runs₂
  have isRun₂ : MemoryRun Growing dirtySystem (oneRegion .c4KB 3) sys₂ :=
    runScript_run growing_of_check bareSystem_filed run₂
  have same := fresh_word_same_iff bareSystem_fresh ⟨_, rfl⟩ isRun₁ isRun₂ found isRegion inside page
  exact ⟨sys₁, sys₂, isRun₁, isRun₂, same.2.2.mpr (.inl isRange)⟩

/-- A larger region shows what was in the frame of its page. -/
theorem fresh_page_leaks : ∃ sys₁ sys₂ ns₁ ns₂, MemoryRun Growing bareSystem (oneRegion .c2MB 3) sys₁ ∧
    MemoryRun Growing dirtySystem (oneRegion .c2MB 3) sys₂ ∧
    sys₁.space.namespaces 1 = some ns₁ ∧ sys₂.space.namespaces 1 = some ns₂ ∧
    translateVirtPhysAddr sys₁.space.tables.hhdm (ns₁.tree sys₁.space.tables.entries) 0x200000 ns₁.pageTreeRoot =
      some 0x7000 ∧
    translateVirtPhysAddr sys₂.space.tables.hhdm (ns₂.tree sys₂.space.tables.entries) 0x200000 ns₂.pageTreeRoot =
      some 0x7000 ∧ sys₁.word 0x7000 = 0 ∧ sys₂.word 0x7000 = 5 := by
  have shows (sys : MemorySystem) (start : sys = bareSystem ∨ sys = dirtySystem) :
      ∃ sys' ns, MemoryRun Growing sys (oneRegion .c2MB 3) sys' ∧ sys'.space.namespaces 1 = some ns ∧
        translateVirtPhysAddr sys'.space.tables.hhdm (ns.tree sys'.space.tables.entries) 0x200000 ns.pageTreeRoot =
          some 0x7000 ∧ sys'.word 0x7000 = sys.word 0x7000 := by
    obtain rfl | rfl := start
    · exact runScript_holds growing_of_check bareSystem_filed (by decide +kernel)
    · exact runScript_holds growing_of_check bareSystem_filed (by decide +kernel)
  obtain ⟨sys₁, ns₁, isRun₁, found₁, page₁, word₁⟩ := shows bareSystem (.inl rfl)
  obtain ⟨sys₂, ns₂, isRun₂, found₂, page₂, word₂⟩ := shows dirtySystem (.inr rfl)
  exact ⟨sys₁, sys₂, ns₁, ns₂, isRun₁, isRun₂, found₁, found₂, page₁, page₂, word₁, word₂⟩

end MeowOs.Memory
