import MeowOs.Memory.PageWalks

/-! # Frames are taken and given back

A frame of a live tree is one that a walk from the node of a live range or from
the root of a namespace comes to.  In a run in which no page is mapped where
pages are unmapped or a range is dropped, the frames in use are exactly those,
and every frame was given back as often as it was handed out, except for the
current use (`frames_are_conserved`).

Pages themselves are never given back: unmapping a page drops the list of the
pages it has collected, and dropping a range gives back its tables only
(`unmapped_page_is_lost`).
-/

namespace MeowOs.Memory

open MeowOs.Machine PageTableEntry TableMem

/-- The frames of the trees that are still there, with their levels; the kernel's half belongs to no namespace. -/
inductive TreeFrame (sys : MemorySystem) : Nat → Nat → Prop
  | node {range : VirtualMemoryRange} (live : sys.Live range) : TreeFrame sys range.level range.node
  | root {id : Nat} {ns : MemoryNamespace} (found : sys.space.namespaces id = some ns) : TreeFrame sys 4 ns.pageTreeRoot
  | top {id i : Nat} {ns : MemoryNamespace} (found : sys.space.namespaces id = some ns) (lower : i < 256)
      (there : present (ns.top i) = true) : TreeFrame sys 3 (address (ns.top i))
  | child {l t i : Nat} (table : TreeFrame sys (l + 1) t) (lower : l + 1 < 4) (lt : i < 512)
      (there : present (sys.space.tables.entries t i) = true) : TreeFrame sys l (address (sys.space.tables.entries t i))

/-- What a run from `start` has to keep: a frame was handed out as often as it was given back, once more if it is in use;
the frames of live trees are in use; and so is no other frame that was not in use before. -/
structure Conserved (start sys : MemorySystem) : Prop where
  account : ∀ f, sys.handedOut f + (if start.space.tables.inUse f then 1 else 0) =
    sys.space.tables.frees f + (if sys.space.tables.inUse f then 1 else 0)
  referenced : ∀ {l f}, TreeFrame sys l f → sys.space.tables.inUse f = true
  owned : ∀ {f}, sys.space.tables.inUse f = true → start.space.tables.inUse f = false → ∃ l, TreeFrame sys l f

section Trees

variable {sys : MemorySystem} {A : Atlas}

theorem Sound.placed_of_treeFrame (sound : Sound none sys A) {l f : Nat} (frame : TreeFrame sys l f) :
    ∃ o n, A.place f = some ⟨o, l, n⟩ := by
  induction frame with
  | node live => exact ⟨_, 0, sound.node live⟩
  | root found => exact ⟨_, 0, (sound.filed found).2⟩
  | @top id i ns found lower there =>
    have rooted := sound.rooted found
    refine sound.chart.child rooted.root (show i < 512 by omega) (next_eq_some_iff.mpr ?_)
    rw [rooted.view lower]
    exact ⟨there, rfl⟩
  | child _ lower lt there ih =>
    obtain ⟨o, n, table⟩ := ih
    refine sound.chart.child table lt (next_eq_some_iff.mpr ?_)
    rw [view_lower table (by omega)]
    exact ⟨there, rfl⟩

theorem Sound.range_height (sound : Sound none sys A) {node l f n : Nat} (placed : A.place f = some ⟨.range node, l, n⟩) :
    (sys.setting A.ranges).height (.range node) ≤ 3 := by
  obtain ⟨range, known⟩ := sound.owned placed
  obtain ⟨rfl, -⟩ := sound.held known
  exact (sys.height_range known).trans_le range.level_le

theorem Sound.treeFrame_of_placed (sound : Sound none sys A) {o : Owner} {d l f n : Nat}
    (tall : (sys.setting A.ranges).height o = l + d) (placed : A.place f = some ⟨o, l, n⟩) : TreeFrame sys l f := by
  induction d generalizing l f n with
  | zero =>
    rcases sound.chart.forest.up placed with ⟨-, rfl⟩ | ⟨below, -⟩
    · cases o with
      | range node =>
        obtain ⟨range, known⟩ := sound.owned placed
        obtain ⟨rfl, live, root⟩ := sound.held known
        rw [sys.height_range known] at tall
        obtain rfl : range.level = l := tall
        rw [sound.chart.forest.single placed root]
        exact .node (live.resolve_right nofun)
      | space id =>
        obtain ⟨ns, found⟩ := sound.spaces placed
        obtain rfl : 4 = l := tall
        rw [sound.chart.forest.single placed (sound.filed found).2]
        exact .root found
    · omega
  | succ d ih =>
    rcases sound.chart.forest.up placed with ⟨top, -⟩ | ⟨-, t, table, step⟩
    · omega
    have frame := ih (by omega) table
    rw [next_eq_some_iff] at step
    obtain ⟨there, rfl⟩ := step
    by_cases isRoot : l + 1 = 4
    · obtain rfl : l = 3 := by omega
      cases o with
      | range node =>
        have := sound.range_height placed
        omega
      | space id =>
        obtain ⟨ns, found⟩ := sound.spaces placed
        have rooted := sound.rooted found
        rw [sound.chart.forest.root_number table] at table
        obtain rfl := sound.chart.forest.single table rooted.root
        by_cases low : n % 512 < 256
        · rw [rooted.view low] at there ⊢
          exact .top found low there
        unfold Setting.view at there
        rw [rooted.root] at there
        simp only [if_true, low, if_false] at there
        exact absurd there (by decide)
    · rw [view_lower table isRoot] at there ⊢
      have : (sys.setting A.ranges).height o ≤ 4 := by
        cases o with
        | range node => exact Nat.le_succ_of_le (sound.range_height placed)
        | space id => exact le_refl 4
      exact .child frame (by omega) (Nat.mod_lt _ (by omega)) there

end Trees

/-! ## Ranges without pages -/

def MemorySystem.Bare (sys : MemorySystem) (range : VirtualMemoryRange) : Prop :=
  ∀ a, translateFrom sys.space.tables.entries a range.level range.node = none

/-- No page that the operation unmaps is mapped; a range of one page only counts it. -/
def MemorySystem.Unmapped (sys : MemorySystem) (range : VirtualMemoryRange) (taken : Option (Nat × Nat)) : Prop :=
  range.level ≠ 0 → ∀ span ∈ taken, ∀ c, span.1 ≤ c → c < span.2 →
    translateFrom sys.space.tables.entries (4096 * c) range.level range.node = none

section Bare

variable {sys sys' : MemorySystem} {A : Atlas} {range : VirtualMemoryRange} {op : MemoryOp}

theorem Sound.not_placed (sound : Sound none sys A) (live : sys.Live range) {c f : Nat}
    (absent : translateFrom sys.space.tables.entries (4096 * c) range.level range.node = none) :
    A.place f ≠ some ⟨.range range.node, 0, c⟩ := by
  intro placed
  have node := sound.node live
  have isPage : 4096 * c / 4096 = c := Nat.mul_div_cancel_left c (by decide)
  have tall := sys.height_range (sound.live live)
  have walk := sound.chart.forest.descend_placed (tall.symm ▸ node)
    (show A.place f = some ⟨.range range.node, 0, c / 512 ^ 0⟩ by rw [pow_zero, Nat.div_one]; exact placed)
  rw [translateFrom_eq_descend sound.chart range.level_le (fun _ _ => rfl) node, isPage, ← tall, walk] at absent
  cases absent

theorem Sound.atlas_bare (sound : Sound none sys A) (live : sys.Live range) (bare : sys.Bare range) : A.Bare range :=
  fun _ c => sound.not_placed live (bare (4096 * c))

theorem Sound.tight (sound : Sound none sys A) (step : OpStep sys op sys') (tight : op.Tight sys sys.Bare sys.Unmapped) :
    op.Tight sys A.Bare A.Unmapped := by
  cases step with
  | release held release =>
    intro before after isHeld
    have live : sys.Live _ := .inl (isHeld ▸ List.mem_append_right before (.head _))
    exact (tight before after isHeld).imp_right (sound.atlas_bare live)
  | pages live run =>
    intro large span member c above below f
    exact sound.not_placed live (tight large span member c above below)
  | remove found run release =>
    intro ns r kept found passes perm
    have live := sys.live_of_region found (perm.mem_iff.mpr (.head _))
    exact (tight ns r kept found passes perm).imp_right (sound.atlas_bare live)
  | drop removed found run =>
    intro ns found r member
    exact (tight ns found r member).imp_right (sound.atlas_bare (sys.live_of_region found member))
  | create | add | createEmpty | buildEmpty | createFrom | setProt => trivial

end Bare

/-! ## Runs -/

structure Balanced (start sys : MemorySystem) (A : Atlas) : Prop where
  sound : Sound none sys A
  account : ∀ f, sys.handedOut f + (if start.space.tables.inUse f then 1 else 0) =
    sys.space.tables.frees f + (if sys.space.tables.inUse f then 1 else 0)
  filled : ∀ f, sys.space.tables.inUse f = true → A.place f = none → start.space.tables.inUse f = true

variable {sys sys' : MemorySystem} {pool : List Nat} {op : MemoryOp}

theorem handedOut_step {f : Nat} (handed : sys'.handedOut = sys.handedOut)
    (same : SameAccount (sys.withPool pool).space.tables sys'.space.tables) :
    (sys'.countTaken pool).handedOut f + (sys.space.tables.frees f + (if sys.space.tables.inUse f then 1 else 0)) =
      sys.handedOut f + (sys'.space.tables.frees f + (if sys'.space.tables.inUse f then 1 else 0)) := by
  obtain ⟨taken, isPool⟩ := same.pool
  have isPool : taken ++ sys'.space.tables.pool = pool := isPool
  have isTaken : pool.take (pool.length - sys'.space.tables.pool.length) = taken := by
    rw [← isPool, List.length_append, Nat.add_sub_cancel, List.take_left]
  have counts : pool.count f = taken.count f + sys'.space.tables.pool.count f := by rw [← isPool, List.count_append]
  have before : account (sys.withPool pool).space.tables f =
      sys.space.tables.frees f + (if sys.space.tables.inUse f then 1 else 0) + pool.count f := rfl
  have after : account sys'.space.tables f = sys'.space.tables.frees f +
      (if sys'.space.tables.inUse f then 1 else 0) + sys'.space.tables.pool.count f := rfl
  have counted : (sys'.countTaken pool).handedOut f = sys.handedOut f + taken.count f := by
    rw [MemorySystem.countTaken, isTaken, handed]
  have := same.account f
  omega

theorem Balanced.step {start : MemorySystem} {A : Atlas}
    (balanced : Balanced start sys A) (regular : op.Regular sys) (tight : op.Tight sys sys.Bare sys.Unmapped)
    (step : MemoryStep sys pool op sys') : ∃ A', Balanced start sys' A' := by
  cases step with
  | @mk after offered step =>
    have sound := balanced.sound.withPool offered
    obtain ⟨A', sound', kept⟩ := opStep_sound step (regular.withPool pool) sound
    refine ⟨A', sound'.countTaken pool, fun f => ?_, fun f used unplaced => ?_⟩
    · have counted := handedOut_step (f := f) (show after.handedOut = sys.handedOut from step.unchanged.1) kept.account
      have before := balanced.account f
      change _ = after.space.tables.frees f + (if after.space.tables.inUse f then 1 else 0)
      omega
    · obtain ⟨usedBefore, unplacedBefore⟩ := kept.filled (sound.tight step (by cases op <;> exact tight)) f used unplaced
      exact balanced.filled f usedBefore unplacedBefore

/-- In every run in which no mapped page is unmapped or dropped, and no tree with the kernel's half, frames are
conserved. -/
theorem frames_are_conserved {sys sys' : MemorySystem} {ops : List (List Nat × MemoryOp)} (fresh : Fresh sys)
    (untouched : ∀ f, sys.handedOut f = sys.space.tables.frees f)
    (run : MemoryRun (fun sys op => op.Regular sys ∧ op.Tight sys sys.Bare sys.Unmapped) sys ops sys') :
    Conserved sys sys' := by
  have balanced : ∃ A, Balanced sys sys' A := by
    induction run with
    | nil => exact ⟨_, fresh.sound, fun f => by rw [untouched], fun _ used _ => used⟩
    | snoc _ ok step ih =>
      obtain ⟨A, before⟩ := ih
      exact before.step ok.1 ok.2 step
  obtain ⟨A, balanced⟩ := balanced
  refine ⟨balanced.account, fun frame => ?_, fun {f} used unused => ?_⟩
  · obtain ⟨o, n, placed⟩ := balanced.sound.placed_of_treeFrame frame
    exact (balanced.sound.chart.frames placed).2
  cases placed : A.place f with
  | none =>
    rw [balanced.filled f used placed] at unused
    cases unused
  | some p =>
    obtain ⟨d, tall⟩ := Nat.exists_eq_add_of_le (balanced.sound.chart.forest.level_le placed)
    exact ⟨_, balanced.sound.treeFrame_of_placed tall placed⟩

def MemoryOp.isTight (sys : MemorySystem) : MemoryOp → Bool
  | .pages range op => (op.unmaps range (sys.space.allocated range.node)).isNone
  | .remove id _ | .drop id =>
    (sys.space.namespaces id).all fun ns => ns.memoryRanges.all fun r => decide (r.sharedRange ∈ sys.handles)
  | .release _ => false
  | _ => true

theorem MemoryOp.tight_of_isTight (tight : op.isTight sys = true) : op.Tight sys sys.Bare sys.Unmapped := by
  cases op with
  | pages range op =>
    intro _ span member
    rw [Option.isNone_iff_eq_none.mp tight] at member
    cases member
  | remove id key =>
    intro ns r kept found _ perm
    simp only [isTight, found, Option.all_some, List.all_eq_true, decide_eq_true_eq] at tight
    exact .inl (.inl (.inl (tight r (perm.mem_iff.mpr (.head _)))))
  | drop id =>
    intro ns found r member
    simp only [isTight, found, Option.all_some, List.all_eq_true, decide_eq_true_eq] at tight
    exact .inl (.inl (tight r member))
  | release => cases tight
  | create | add | createEmpty | buildEmpty | createFrom | setProt => trivial

def removeAndDrop : List (List Nat × MemoryOp) :=
  oneRegion .c2MB 3 ++ [([], .remove 1 (.name "data")), ([], .drop 1)]

/-- The root of the namespace is given back, and the page of the range, which somebody still holds, is not. -/
theorem frames_are_conserved_dropped : ∃ sys',
    MemoryRun (fun sys op => op.Regular sys ∧ op.Tight sys sys.Bare sys.Unmapped) bareSystem removeAndDrop sys' ∧
    Conserved bareSystem sys' ∧ (sys'.handedOut 0x3000 = 1 ∧ sys'.space.tables.frees 0x3000 = 1) ∧
    sys'.handedOut 0x7000 = 1 ∧ sys'.space.tables.frees 0x7000 = 0 := by
  have runs : (bareSystem.runScript (fun sys op => op.isRegular sys && op.isTight sys) removeAndDrop).map (fun sys =>
      (sys.handedOut 0x3000, sys.space.tables.frees 0x3000, sys.handedOut 0x7000, sys.space.tables.frees 0x7000)) =
        some (1, 1, 1, 0) := by
    decide +kernel
  obtain ⟨sys', run, seen⟩ := Option.map_eq_some_iff.mp runs
  simp only [Prod.mk.injEq] at seen
  obtain ⟨rootHanded, rootGiven, handed, given⟩ := seen
  have isRun : MemoryRun (fun sys op => op.Regular sys ∧ op.Tight sys sys.Bare sys.Unmapped) bareSystem removeAndDrop
      sys' := by
    refine runScript_run (fun {mid op} passes => ?_) bareSystem_filed run
    obtain ⟨regular, tight⟩ := Bool.and_eq_true_iff.mp passes
    exact ⟨MemoryOp.regular_of_isRegular regular, MemoryOp.tight_of_isTight tight⟩
  exact ⟨sys', isRun, frames_are_conserved bareSystem_fresh (fun _ => rfl) isRun, ⟨rootHanded, rootGiven⟩, handed, given⟩

def mapAndUnmap : List (List Nat × MemoryOp) :=
  let range : VirtualMemoryRange := ⟨0x2000, .c2MB, 3, .manual⟩
  [([0x2000], .create .c2MB 3 .manual), ([0x3000], .pages range (.allocateManualExternal 0 1)),
    ([], .pages range (.freeManualExternal 0 1)), ([], .release range)]

/-- Nothing is left, and the frame of the page was not given back. -/
theorem unmapped_page_is_lost : ∃ sys', MemoryRun (fun sys op => op.Regular sys) bareSystem mapAndUnmap sys' ∧
    (∀ l f, ¬ TreeFrame sys' l f) ∧ sys'.handedOut 0x3000 = 1 ∧ sys'.space.tables.frees 0x3000 = 0 ∧
    ¬ Conserved bareSystem sys' := by
  have runs : (bareSystem.runScript (fun sys op => op.isRegular sys) mapAndUnmap).map (fun sys =>
      (sys.handles, sys.space.namespaceIdCounter, (sys.space.namespaces 0).isNone, sys.handedOut 0x3000,
        sys.space.tables.frees 0x3000, sys.space.tables.inUse 0x3000)) = some ([], 1, true, 1, 0, true) := by
    decide +kernel
  obtain ⟨sys', run, seen⟩ := Option.map_eq_some_iff.mp runs
  simp only [Prod.mk.injEq] at seen
  obtain ⟨handles, counter, first, handed, given, used⟩ := seen
  have absent : ∀ id, sys'.space.namespaces id = none := by
    intro id
    cases id with
    | zero => exact Option.isNone_iff_eq_none.mp first
    | succ id => exact runScript_filed bareSystem_filed run _ (by omega)
  have noTree : ∀ l f, ¬ TreeFrame sys' l f := by
    intro l f frame
    induction frame with
    | node live =>
      rcases live with held | ⟨id, ns, r, found, -⟩
      · rw [handles] at held
        cases held
      · rw [absent] at found
        cases found
    | root found | top found =>
      rw [absent] at found
      cases found
    | child _ _ _ _ ih => exact ih
  refine ⟨sys', runScript_run MemoryOp.regular_of_isRegular bareSystem_filed run, noTree, handed, given, fun conserved => ?_⟩
  obtain ⟨l, frame⟩ := conserved.owned used rfl
  exact noTree l _ frame

end MeowOs.Memory
