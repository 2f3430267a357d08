import MeowOs.Memory.NamespaceTrees

/-! # The invariant of the memory system

`Sound` ties a state of the system to a map of its frames: the chart holds for
the root tables and links of the namespaces, every namespace and every range has
its tree and every tree its namespace or range, and the regions of a namespace
are aligned, in the lower half and apart from each other.  Each operation keeps
it (`opStep_sound`), as long as regions are added at multiples of their size in
the lower half, and no tree that contains the kernel's half is dropped.
-/

namespace MeowOs.Memory

open MeowOs.Machine PageTableEntry TableMem Prog MemorySystem
open List (mem_append mem_append_left mem_append_right mem_cons mem_map mem_singleton)
open Function (update update_eq_self update_idem update_of_ne update_self)

/-! ## The invariant -/

/-- Where the frames are, and which ranges there are. -/
structure Atlas where
  place : Places
  ranges : Nat → Option VirtualMemoryRange

def MemorySystem.setting (sys : MemorySystem) (ranges : Nat → Option VirtualMemoryRange) : Setting where
  tops := fun id => (sys.space.namespaces id).elim (fun _ => 0) (·.top)
  ranges := ranges
  link := fun o l c g => ∃ id ns r, o = .space id ∧ sys.space.namespaces id = some ns ∧ r ∈ ns.memoryRanges ∧
    r.Links l c g

/-- The state fits the map.  A range that has just lost a reference, if there is one, may have lost its last one. -/
structure Sound (loose : Option VirtualMemoryRange) (sys : MemorySystem) (A : Atlas) : Prop where
  chart : Chart (sys.setting A.ranges) sys.space.tables A.place
  filed : ∀ {id ns}, sys.space.namespaces id = some ns →
    id < sys.space.namespaceIdCounter ∧ A.place ns.pageTreeRoot = some ⟨.space id, 4, 0⟩
  spaces : ∀ {f id l c}, A.place f = some ⟨.space id, l, c⟩ → ∃ ns, sys.space.namespaces id = some ns
  live : ∀ {range}, sys.Live range → A.ranges range.node = some range
  held : ∀ {node range}, A.ranges node = some range → range.node = node ∧ (sys.Live range ∨ loose = some range) ∧
    A.place node = some ⟨.range node, range.level, 0⟩
  owned : ∀ {f node l c}, A.place f = some ⟨.range node, l, c⟩ → ∃ range, A.ranges node = some range
  proper : ∀ {id ns}, sys.space.namespaces id = some ns → ∀ r ∈ ns.memoryRanges, r.Proper
  apart : ∀ {id ns}, sys.space.namespaces id = some ns → ns.memoryRanges.Pairwise OwnedVirtualMemoryRange.Apart
  /-- A table of a namespace was made on the way to a region. -/
  origin : ∀ {f id l c}, A.place f = some ⟨.space id, l, c⟩ → l < 4 →
    ∃ k a, (id, k, a) ∈ sys.history ∧ k < l ∧ blockAt l a = c
  /-- The table of a region stays when the region is removed. -/
  traces : ∀ {id k a}, (id, k, a) ∈ sys.history → id < sys.space.namespaceIdCounter ∧
    ∀ ns, sys.space.namespaces id = some ns → ∃ f, A.place f = some ⟨.space id, k + 1, blockAt (k + 1) a⟩

/-- What an operation does to the frames: none is given back that was not in use, and, if the operation is `tight`,
none is in use afterwards without a place that had one before. -/
structure Kept (tight : Prop) (sys : MemorySystem) (A : Atlas) (sys' : MemorySystem) (A' : Atlas) : Prop where
  account : SameAccount sys.space.tables sys'.space.tables
  filled : tight → ∀ f, sys'.space.tables.inUse f = true → A'.place f = none →
    sys.space.tables.inUse f = true ∧ A.place f = none

variable {sys sys' : MemorySystem} {A A' : Atlas} {pool : List Nat} {op : MemoryOp} {tight tight' : Prop} {id : Nat}
  {ns : MemoryNamespace} {v : Option MemoryNamespace} {R : Nat → Option VirtualMemoryRange}
  {r : OwnedVirtualMemoryRange} {p : TablePlace Owner} {place' : Places} {rest : List Nat}

theorem Kept.refl (tight : Prop) (sys : MemorySystem) (A : Atlas) : Kept tight sys A sys A :=
  ⟨.refl _, fun _ _ used unplaced => ⟨used, unplaced⟩⟩

theorem Kept.trans {mid : MemorySystem} {B : Atlas}
    (first : Kept tight sys A mid B) (second : Kept tight' mid B sys' A') : Kept (tight ∧ tight') sys A sys' A' where
  account := first.account.trans second.account
  filled := fun ⟨isTight, isTight'⟩ f used unplaced =>
    let ⟨usedMid, unplacedMid⟩ := second.filled isTight' f used unplaced
    first.filled isTight f usedMid unplacedMid

theorem Kept.weaken (kept : Kept tight sys A sys' A')
    (imp : tight' → tight) : Kept tight' sys A sys' A' := ⟨kept.account, fun isTight => kept.filled (imp isTight)⟩

section Basic

variable {loose : Option VirtualMemoryRange} {sys sys' : MemorySystem} {A : Atlas} {id : Nat}
  {ns ns' : MemoryNamespace} {range : VirtualMemoryRange} {R : Nat → Option VirtualMemoryRange} {o : Owner}
  {tables : TableMem}

theorem Sound.rooted (sound : Sound loose sys A) (found : sys.space.namespaces id = some ns) :
    Rooted (sys.setting A.ranges) A.place id ns := by
  refine ⟨?_, (sound.filed found).2⟩
  simp [setting, found]

theorem MemorySystem.link_iff (found : sys.space.namespaces id = some ns) (l c g : Nat) :
    (sys.setting R).link (.space id) l c g ↔ ∃ r ∈ ns.memoryRanges, r.Links l c g := by
  constructor
  · rintro ⟨id', ns', r, eq, found', member, links⟩
    cases eq
    cases found.symm.trans found'
    exact ⟨r, member, links⟩
  · rintro ⟨r, member, links⟩
    exact ⟨id, ns, r, rfl, found, member, links⟩

theorem MemorySystem.height_range (known : R range.node = some range) :
    (sys.setting R).height (.range range.node) = range.level := by
  simp [setting, Setting.height, known]

theorem MemorySystem.live_of_region (found : sys.space.namespaces id = some ns)
    (member : r ∈ ns.memoryRanges) : sys.Live r.sharedRange := .inr ⟨id, ns, r, found, member, rfl⟩

theorem Sound.node (sound : Sound loose sys A) (live : sys.Live range) :
    A.place range.node = some ⟨.range range.node, range.level, 0⟩ := (sound.held (sound.live live)).2.2

namespace MemorySystem

@[simp] theorem setNamespace_self {v : Option MemoryNamespace} : (sys.setNamespace id v).space.namespaces id = v :=
  update_self ..

theorem setNamespace_of_ne {other : Nat} (ne : other ≠ id) :
    (sys.setNamespace id v).space.namespaces other = sys.space.namespaces other := update_of_ne ne _ _

end MemorySystem

theorem MemorySystem.link_setNamespace {l c g : Nat} :
    (((sys.withTables tables).setNamespace id (some ns')).setting R).link o l c g ↔
      (o = .space id ∧ ∃ r ∈ ns'.memoryRanges, r.Links l c g) ∨ (o ≠ .space id ∧ (sys.setting R).link o l c g) := by
  constructor
  · rintro ⟨id', other, r, rfl, found, member, links⟩
    by_cases same : id' = id
    · subst same
      cases setNamespace_self.symm.trans found
      exact .inl ⟨rfl, r, member, links⟩
    · rw [setNamespace_of_ne same] at found
      exact .inr ⟨fun eq => same (Owner.space.inj eq), id', other, r, rfl, found, member, links⟩
  · rintro (⟨rfl, r, member, links⟩ | ⟨ne, id', other, r, rfl, found, member, links⟩)
    · exact ⟨id, ns', r, rfl, setNamespace_self, member, links⟩
    · refine ⟨id', other, r, rfl, ?_, member, links⟩
      exact (setNamespace_of_ne fun eq => ne (congrArg Owner.space eq)).trans found

theorem MemorySystem.tops_setNamespace :
    ((sys.setNamespace id (some ns')).setting R).tops = update (sys.setting R).tops id ns'.top := by
  funext id'
  by_cases same : id' = id
  · subst same
    simp [setting, setNamespace]
  · simp [setting, setNamespace, same]

def MemorySystem.LiveOutside (sys : MemorySystem) (id : Nat) (range : VirtualMemoryRange) : Prop :=
  range ∈ sys.handles ∨
    ∃ other ns r, other ≠ id ∧ sys.space.namespaces other = some ns ∧ r ∈ ns.memoryRanges ∧ r.sharedRange = range

theorem MemorySystem.live_iff (id : Nat) : sys.Live range ↔ sys.LiveOutside id range ∨
    ∃ ns r, sys.space.namespaces id = some ns ∧ r ∈ ns.memoryRanges ∧ r.sharedRange = range := by
  constructor
  · rintro (held | ⟨other, ns, r, found, rest⟩)
    · exact .inl (.inl held)
    · by_cases eq : other = id
      · exact .inr ⟨ns, r, eq ▸ found, rest⟩
      · exact .inl (.inr ⟨other, ns, r, eq, found, rest⟩)
  · rintro ((held | ⟨other, ns, r, -, rest⟩) | ⟨ns, r, rest⟩)
    · exact .inl held
    · exact .inr ⟨other, ns, r, rest⟩
    · exact .inr ⟨id, ns, r, rest⟩

theorem MemorySystem.liveOutside_update (handles : sys'.handles = sys.handles)
    (namespaces : sys'.space.namespaces = update sys.space.namespaces id v) :
    sys'.LiveOutside id range ↔ sys.LiveOutside id range := by
  unfold LiveOutside
  rw [handles, namespaces]
  refine or_congr_right (exists_congr fun other => exists_congr fun ns => exists_congr fun r => ?_)
  exact and_congr_right fun ne => by rw [update_of_ne ne]

theorem MemorySystem.setNamespace_eq_self (found : sys.space.namespaces id = some ns) :
    sys.setNamespace id (some ns) = sys := by
  unfold setNamespace
  rw [← found, update_eq_self]

theorem MemorySystem.setting_update {node : Nat} {v : Option VirtualMemoryRange} (other : o ≠ .range node) :
    (sys'.setting (update R node v)).height o = (sys.setting R).height o ∧
      (sys'.setting (update R node v)).rights o = (sys.setting R).rights o := by
  cases o with
  | range node' =>
    have away : node' ≠ node := fun eq => other (congrArg Owner.range eq)
    exact ⟨by simp [setting, Setting.height, away], by funext l; simp [setting, Setting.rights, away]⟩
  | space id => exact ⟨rfl, rfl⟩

theorem MemorySystem.chart_setNamespace {link : Owner → Nat → Nat → Nat → Prop}
    (isChart : Chart ⟨update (sys.setting R).tops id ns'.top, R, link⟩ tables place')
    (links : ∀ o l c g, (o = .space id ∧ ∃ r ∈ ns'.memoryRanges, r.Links l c g) ∨
      (o ≠ .space id ∧ (sys.setting R).link o l c g) ↔ link o l c g) :
    Chart (((sys.withTables tables).setNamespace id (some ns')).setting R) tables place' := by
  obtain rfl : (((sys.withTables tables).setNamespace id (some ns')).setting R).link = link := by
    funext o l c g
    exact propext (link_setNamespace.trans (links o l c g))
  exact (congrArg (Chart ⟨·, R, _⟩ tables place') tops_setNamespace).mpr isChart

end Basic

theorem Sound.withPool (sound : Sound none sys A) (offered : Offered sys pool) : Sound none (sys.withPool pool) A :=
  { sound with
    chart := { sound.chart with
      frames := fun placed =>
        let ⟨good, used⟩ := sound.chart.frames placed
        ⟨⟨good.aligned, good.direct, good.nonzero⟩, used⟩
      distinct := offered.offers.nodup
      pool := fun {f} member => ⟨⟨offered.offers.aligned f member, offered.offers.direct f member,
        fun zero => offered.nonzero (zero ▸ member)⟩, offered.offers.free f member⟩ } }

theorem Kept.take {f : Nat}
    (sound : Sound none sys A) (offer : sys.space.tables.pool = f :: rest) (pool : sys'.space.tables.pool = rest)
    (inUse : sys'.space.tables.inUse = update sys.space.tables.inUse f true)
    (frees : sys'.space.tables.frees = sys.space.tables.frees) :
    Kept True sys A sys' ⟨update A.place f (some p), R⟩ := by
  refine ⟨.take offer (sound.chart.pool (offer ▸ .head _)).2 pool inUse frees, fun _ x used unplaced => ?_⟩
  dsimp only at unplaced
  by_cases same : x = f
  · rw [same, update_self] at unplaced
    cases unplaced
  · rw [inUse, update_of_ne same] at used
    exact ⟨used, (update_of_ne same _ _).symm.trans unplaced⟩

theorem Sound.ofRanges {loose loose' : Option VirtualMemoryRange} (sound : Sound loose sys A)
    (namespaces : sys'.space.namespaces = sys.space.namespaces)
    (counter : sys'.space.namespaceIdCounter = sys.space.namespaceIdCounter) (history : sys'.history = sys.history)
    (isChart : Chart (sys'.setting A'.ranges) sys'.space.tables A'.place)
    (same : ∀ {x id l c}, A'.place x = some ⟨.space id, l, c⟩ ↔ A.place x = some ⟨.space id, l, c⟩)
    (live : ∀ {range}, sys'.Live range → A'.ranges range.node = some range)
    (held : ∀ {node range}, A'.ranges node = some range → range.node = node ∧ (sys'.Live range ∨ loose' = some range) ∧
      A'.place node = some ⟨.range node, range.level, 0⟩)
    (owned : ∀ {f node l c}, A'.place f = some ⟨.range node, l, c⟩ → ∃ range, A'.ranges node = some range) :
    Sound loose' sys' A' := by
  refine ⟨isChart, ?_, ?_, live, held, owned, ?_, ?_, ?_, ?_⟩
  all_goals simp only [namespaces, counter, history, same]
  · exact sound.filed
  · exact sound.spaces
  · exact sound.proper
  · exact sound.apart
  · exact sound.origin
  · exact sound.traces

/-! ## Ranges -/

section Ranges

variable {sys sys' : MemorySystem} {A : Atlas} {range : VirtualMemoryRange} {capacity : VirtualMemoryRangeCapacity}
  {perms : Nat} {mode : ManagementMode} {tables : TableMem}

theorem create_eq_some {s s' : TableMem} : VirtualMemoryRange.create capacity perms mode s = some (range, s') ↔
      ∃ f rest, s.pool = f :: rest ∧ f < s.hhdm.len ∧ range = ⟨f, capacity, perms, mode⟩ ∧
        s' = { s with pool := rest, inUse := update s.inUse f true, entries := update s.entries f fun _ => 0 } := by
  unfold VirtualMemoryRange.create
  rw [allocate_bind_eq_some]
  refine exists_congr fun f => exists_congr fun rest => and_congr_right fun _ => ?_
  rw [zeroFrame_bind_eq_some]
  simp [eq_comm]

def Atlas.plant (A : Atlas) (range : VirtualMemoryRange) : Atlas :=
  ⟨update A.place range.node (some ⟨.range range.node, range.level, 0⟩), update A.ranges range.node (some range)⟩

theorem Sound.create (sound : Sound none sys A)
    (run : VirtualMemoryRange.create capacity perms mode sys.space.tables = some (range, tables)) :
    Sound none ((sys.withTables tables).addRange range) (A.plant range) ∧
      Kept True sys A ((sys.withTables tables).addRange range) (A.plant range) := by
  obtain ⟨f, rest, offer, direct, rfl, rfl⟩ := create_eq_some.mp run
  have member : f ∈ sys.space.tables.pool := offer ▸ .head _
  have new := sound.chart.fresh member
  have unknown : A.ranges f = none := by
    cases known : A.ranges f with
    | none => rfl
    | some range =>
      rw [(sound.held known).2.2] at new
      cases new
  have ne : ∀ {range : VirtualMemoryRange}, sys.Live range → range.node ≠ f := by
    rintro range live rfl
    rw [sound.live live] at unknown
    cases unknown
  have kept : ∀ {x p}, A.place x = some p → x ≠ f ∧
      update A.place f (some ⟨.range f, capacity.intoLevel, 0⟩) x = some p :=
    fun placed => update_of_placed placed new
  have isMap : A.plant ⟨f, capacity, perms, mode⟩ = ⟨update A.place f (some ⟨.range f, capacity.intoLevel, 0⟩),
    update A.ranges f (some ⟨f, capacity, perms, mode⟩)⟩ := rfl
  rw [isMap]
  refine ⟨sound.ofRanges rfl rfl rfl ?_ ?_ ?_ ?_ ?_, .take sound offer rfl rfl rfl⟩
  · refine sound.chart.plant offer ?_ ?_ (fun _ other => (setting_update other).1)
      (fun _ other => (setting_update other).2) rfl (by simp) rfl rfl rfl ?_ ?_
    · rintro x ⟨o, l, n⟩ placed rfl
      obtain ⟨range, known⟩ := sound.owned placed
      cases unknown.symm.trans known
    · simp [setting, Setting.height, VirtualMemoryRange.level]
    · intro x p placed j
      exact view_congr placed (kept placed).2 (congrFun (update_of_ne (kept placed).1 _ _) j)
    intro _ j _
    rw [view_range (update_self f _ A.place)]
    simp only [MemorySystem.addRange, withTables, update_self]
    rfl
  · exact ⟨fun placed => (update_eq_some.mp placed).elim (fun own => by cases own.2) And.right,
      fun placed => (kept placed).2⟩
  · rintro range (head | region)
    · rcases mem_cons.mp head with rfl | held
      · exact update_self ..
      · exact (update_of_ne (ne (.inl held)) _ _).trans (sound.live (.inl held))
    · exact (update_of_ne (ne (.inr region)) _ _).trans (sound.live (.inr region))
  · intro node range known
    rcases update_eq_some.mp known with ⟨rfl, rfl⟩ | ⟨-, before⟩
    · exact ⟨rfl, .inl (.inl (.head _)), update_self ..⟩
    · obtain ⟨isNode, live, placed⟩ := sound.held before
      exact ⟨isNode, live.imp_left (Or.imp_left (.tail _)), (kept placed).2⟩
  · intro x node l c placed
    rcases update_eq_some.mp placed with ⟨-, isNew⟩ | ⟨-, before⟩
    · cases isNew
      exact ⟨_, update_self ..⟩
    · obtain ⟨range, known⟩ := sound.owned before
      exact ⟨range, (update_of_placed known unknown).2⟩

def Places.without (place : Places) (o : Owner) : Places := fun x =>
  match place x with
  | none => none
  | some p => if p.owner = o then none else some p

variable {o : Owner}

theorem Places.without_eq_some {place : Places} {x : Nat} :
    place.without o x = some p ↔ place x = some p ∧ p.owner ≠ o := by
  unfold Places.without
  cases placed : place x with
  | none => simp
  | some q =>
    dsimp only
    split
    next own =>
      simp only [Option.some.injEq, false_iff, not_and, not_not, reduceCtorEq]
      rintro rfl
      exact own
    next other =>
      simp only [Option.some.injEq, iff_self_and]
      rintro rfl
      exact other

theorem Sound.kept_without {loose : Option VirtualMemoryRange} {tight : Prop} {D : Nat → Prop}
    (sound : Sound loose sys A)
    (frees : Frees D sys.space.tables sys'.space.tables) (own : ∀ f, D f → ∃ l c, A.place f = some ⟨o, l, c⟩)
    (all : tight → ∀ f l c, A.place f = some ⟨o, l, c⟩ → D f) : Kept tight sys A sys' ⟨A.place.without o, R⟩ := by
  refine ⟨frees.sameAccount fun f inside => ?_, fun isTight f used unplaced => ?_⟩
  · obtain ⟨l, c, placed⟩ := own f inside
    exact (sound.chart.frames placed).2
  have outside : ¬ D f := fun inside => by
    rw [(frees.freed f inside).1] at used
    cases used
  refine ⟨(frees.kept f outside).1.symm.trans used, Option.eq_none_iff_forall_ne_some.mpr fun p placed => ?_⟩
  by_cases own : p.owner = o
  · exact outside (all isTight f p.level p.number (own ▸ placed))
  · cases unplaced.symm.trans (Places.without_eq_some.mpr ⟨placed, own⟩)

def Atlas.Bare (A : Atlas) (range : VirtualMemoryRange) : Prop :=
  ∀ f c, A.place f ≠ some ⟨.range range.node, 0, c⟩

theorem Sound.releaseLast (sound : Sound (some range) sys A) (known : A.ranges range.node = some range)
    (gone : ¬ sys.Live range) (run : PageTable.delete range.level range.node sys.space.tables = some ((), tables)) :
    ∃ A', Sound none (sys.withTables tables) A' ∧
      Kept (A.Bare range) sys A (sys.withTables tables) A' ∧ ∀ {x p}, A'.place x = some p → A.place x = some p := by
  obtain ⟨-, -, node⟩ := sound.held known
  have level : range.level ≤ 3 := range.capacity.intoLevel_le
  have height := sys.height_range known
  -- the tables of the tree are given back, and its pages are not
  obtain ⟨D, frees, tablesOnly, allTables⟩ : ∃ D, Frees D sys.space.tables tables ∧
      (∀ f, D f → ∃ l c, A.place f = some ⟨.range range.node, l, c⟩) ∧
      ∀ f l c, A.place f = some ⟨.range range.node, l + 1, c⟩ → D f := by
    cases isLevel : range.level with
    | zero =>
      rw [isLevel] at run
      cases run
      refine ⟨fun _ => False, .none fun _ => not_false, fun _ => False.elim, fun f l c placed => ?_⟩
      have := sound.chart.forest.level_le placed
      omega
    | succ l =>
      rw [isLevel] at run node
      obtain ⟨u, ran, frees⟩ := delete_spec sound.chart (fun l c g => sound.chart.not_link) (by omega) node rfl rfl
      cases run.symm.trans ran
      refine ⟨_, frees, fun f ⟨⟨k, c, placed, _⟩, _⟩ => ⟨k, c, placed⟩, fun f k c placed => ⟨?_, k, c, placed⟩⟩
      have below := sound.chart.forest.below_root placed
      rwa [height, isLevel] at below
  have same : ∀ {x p}, Places.without A.place (.range range.node) x = some p → A.place x = some p :=
    fun placed => (Places.without_eq_some.mp placed).1
  have stays : ∀ {x p}, A.place x = some p → p.owner ≠ .range range.node →
      Places.without A.place (.range range.node) x = some p := fun placed other => Places.without_eq_some.mpr ⟨placed, other⟩
  have away : ∀ {other}, sys.Live other → other.node ≠ range.node := by
    intro other live eq
    have isOther := sound.live live
    rw [eq, known, Option.some.injEq] at isOther
    exact gone (isOther ▸ live)
  refine ⟨⟨Places.without A.place (.range range.node), update A.ranges range.node none⟩,
    sound.ofRanges rfl rfl rfl ?_ ⟨same, fun placed => stays placed nofun⟩ ?_ ?_ ?_,
    sound.kept_without frees tablesOnly fun bare f l c placed => ?_, same⟩
  · refine sound.chart.fell (fun _ _ => Places.without_eq_some) (fun _ _ _ => sound.chart.not_link) ?_
      (fun _ other => (setting_update other).1) (fun _ other => (setting_update other).2) (fun _ _ _ _ => Iff.rfl)
      (fun placed j => view_congr (same placed) placed ?_) frees.pool frees.hhdm (frees.inUse tablesOnly)
    · -- a link leads to a range that a region holds
      rintro p k c g ⟨id, ns, r, -, found, member, -, -, rfl⟩ q placed
      have live := sys.live_of_region found member
      cases (sound.node live).symm.trans placed
      exact fun eq => away live (Owner.range.inj eq)
    · rw [withTables, frees.entries]
  · intro other live
    exact (update_of_ne (away live) _ _).trans (sound.live live)
  · intro node' other known'
    dsimp only at known' ⊢
    by_cases eq : node' = range.node
    · rw [eq, update_self] at known'
      cases known'
    rw [update_of_ne eq] at known'
    obtain ⟨isNode, live, placed⟩ := sound.held known'
    refine ⟨isNode, .inl (live.resolve_right fun isLoose => ?_), stays placed fun same => eq (Owner.range.inj same)⟩
    rw [Option.some.injEq] at isLoose
    exact eq (isLoose ▸ isNode.symm)
  · intro f node' l c placed
    obtain ⟨old, other⟩ := Places.without_eq_some.mp placed
    obtain ⟨range', known'⟩ := sound.owned old
    exact ⟨range', (update_of_ne (fun eq => other (congrArg Owner.range eq)) _ _).trans known'⟩
  · cases l with
    | zero => exact absurd placed (bare f c)
    | succ l => exact allTables f l c placed

theorem Sound.release {loose : Option VirtualMemoryRange} (sound : Sound loose sys A)
    (known : ∀ range, loose = some range → A.ranges range.node = some range) (release : Release loose sys sys') :
    ∃ A', Sound none sys' A' ∧ Kept (∀ range, loose = some range → sys.Live range ∨ A.Bare range) sys A sys' A' ∧
      ∀ {x p}, A'.place x = some p → A.place x = some p := by
  cases release with
  | nothing => exact ⟨A, sound, .refl .., fun placed => placed⟩
  | @shared _ range live =>
    refine ⟨A, { sound with held := fun {node other} isKnown => ?_ }, .refl .., fun placed => placed⟩
    obtain ⟨isNode, held, placed⟩ := sound.held isKnown
    refine ⟨isNode, .inl (held.elim (fun held => held) fun eq => ?_), placed⟩
    cases eq
    exact live
  | @last _ range tables gone run =>
    obtain ⟨A', sound', kept, places⟩ := sound.releaseLast (known range rfl) gone run
    exact ⟨A', sound', kept.weaken fun tight => (tight range rfl).resolve_left gone, places⟩

def Atlas.Unmapped (A : Atlas) (range : VirtualMemoryRange) (taken : Option (Nat × Nat)) : Prop :=
  range.level ≠ 0 → ∀ span ∈ taken, ∀ c, span.1 ≤ c → c < span.2 → ∀ f, A.place f ≠ some ⟨.range range.node, 0, c⟩

theorem Sound.pages {op : RangeOp} {ok : Bool} {space : Space} (sound : Sound none sys A) (live : sys.Live range)
    (run : op.run range sys.space = some (ok, space)) :
    ∃ place', Sound none { sys with space := space } ⟨place', A.ranges⟩ ∧
      Kept (A.Unmapped range (op.unmaps range (sys.space.allocated range.node))) sys A { sys with space := space }
        ⟨place', A.ranges⟩ ∧
      PagesDone (sys.setting A.ranges) range (op.unmaps range (sys.space.allocated range.node)) (op.run range) sys.space
        A.place ok space place' := by
  obtain ⟨place', done⟩ := rangeOp_done sound.chart (sound.live live) (sound.node live) run
  obtain ⟨job, owner, -, clears, touches⟩ := done.touches
  have isChart := touches.chart sound.chart
  have namespaces : space.namespaces = sys.space.namespaces := by rw [done.same]
  have sameSetting : ({ sys with space := space } : MemorySystem).setting A.ranges = sys.setting A.ranges := by
    unfold setting
    rw [namespaces]
  have sameLive : ∀ other, ({ sys with space := space } : MemorySystem).Live other ↔ sys.Live other := by
    intro other
    unfold MemorySystem.Live
    rw [namespaces]
  refine ⟨place', sound.ofRanges namespaces (by rw [done.same]) rfl ?_ ⟨fun placed => ?_, fun placed => ?_⟩ ?_ ?_ ?_,
    ⟨touches.account sound.chart, ?_⟩, done⟩
  · rw [sameSetting]
    exact isChart
  · refine (touches.old_or_own sound.chart placed).resolve_left ?_
    rw [owner]
    nofun
  · refine (touches.foreign sound.chart placed ?_).1
    rw [owner]
    nofun
  · exact fun live => sound.live ((sameLive _).mp live)
  · intro node other known
    obtain ⟨isNode, held, placed⟩ := sound.held known
    refine ⟨isNode, held.imp_left (sameLive _).mpr, ?_⟩
    have height : (sys.setting A.ranges).height (.range node) = other.level := isNode ▸ sys.height_range (isNode ▸ known)
    rw [← height] at placed ⊢
    exact touches.root sound.chart placed
  · intro f node l c placed
    rcases touches.old_or_own sound.chart placed with own | before
    · rw [owner, Owner.range.injEq] at own
      exact ⟨range, own ▸ sound.live live⟩
    · exact sound.owned before
  · intro unmapped f used unplaced
    refine (touches.lost sound.chart used unplaced).resolve_right ?_
    rintro ⟨-, c, cleared, placed⟩
    obtain ⟨tall, span, isSpan, lo, hi⟩ := clears c cleared
    rw [owner] at placed
    exact unmapped tall span isSpan c lo hi f placed

end Ranges

/-! ## Regions -/

section Regions

variable {sys sys' : MemorySystem} {A : Atlas} {id : Nat} {ns ns' : MemoryNamespace} {tables : TableMem}

namespace MemorySystem

def replaced (sys : MemorySystem) (id : Nat) (ns' : MemoryNamespace) (tables : TableMem)
    (history : List (Nat × Nat × Nat)) : MemorySystem :=
  { (sys.withTables tables).setNamespace id (some ns') with history := history }

theorem liveOutside_replaced {history : List (Nat × Nat × Nat)} {range : VirtualMemoryRange} :
    (sys.replaced id ns' tables history).LiveOutside id range ↔ sys.LiveOutside id range := liveOutside_update rfl rfl

end MemorySystem

theorem Sound.exchange {loose : Option VirtualMemoryRange}
    (sound : Sound none sys A) (namespaces : sys'.space.namespaces = update sys.space.namespaces id v)
    (handles : sys'.handles = sys.handles) (counter : sys.space.namespaceIdCounter ≤ sys'.space.namespaceIdCounter)
    (isChart : Chart (sys'.setting A.ranges) sys'.space.tables place')
    (kept : ∀ {x p}, A.place x = some p → (p.owner = .space id → v ≠ none) → place' x = some p)
    (new : ∀ {x p}, place' x = some p → (p.owner = .space id → v ≠ none) ∧ (A.place x = some p ∨ p.owner = .space id ∧
      (p.level < 4 → ∃ k a, (id, k, a) ∈ sys'.history ∧ k < p.level ∧ blockAt p.level a = p.number)))
    (past : ∀ e ∈ sys.history, e ∈ sys'.history) (traces : ∀ e ∈ sys'.history, e ∈ sys.history ∨
      ∃ k a f, e = (id, k, a) ∧ place' f = some ⟨.space id, k + 1, blockAt (k + 1) a⟩)
    (was : v ≠ none → (∃ ns, sys.space.namespaces id = some ns) ∨ sys.space.namespaceIdCounter ≤ id)
    (here : ∀ ns', v = some ns' → id < sys'.space.namespaceIdCounter ∧
      place' ns'.pageTreeRoot = some ⟨.space id, 4, 0⟩ ∧ (∀ r ∈ ns'.memoryRanges, r.Proper ∧ sys.Live r.sharedRange) ∧
      ns'.memoryRanges.Pairwise OwnedVirtualMemoryRange.Apart)
    (held : ∀ ns r, sys.space.namespaces id = some ns → r ∈ ns.memoryRanges →
      sys'.Live r.sharedRange ∨ loose = some r.sharedRange) : Sound loose sys' ⟨place', A.ranges⟩ := by
  have cases' : ∀ {i ns}, sys'.space.namespaces i = some ns →
      (i = id ∧ v = some ns) ∨ (i ≠ id ∧ sys.space.namespaces i = some ns) := by
    intro i ns found
    rw [namespaces] at found
    by_cases eq : i = id
    · exact .inl ⟨eq, by rwa [eq, update_self] at found⟩
    · exact .inr ⟨eq, by rwa [update_of_ne eq] at found⟩
  have away : ∀ {i l c x}, A.place x = some ⟨.space i, l, c⟩ → i ≠ id → place' x = some ⟨.space i, l, c⟩ :=
    fun placed ne => kept placed fun eq => absurd (Owner.space.inj eq) ne
  have filed : ∀ {i ns}, sys'.space.namespaces i = some ns →
      i < sys'.space.namespaceIdCounter ∧ place' ns.pageTreeRoot = some ⟨.space i, 4, 0⟩ := by
    intro i ns found
    rcases cases' found with ⟨rfl, isNew⟩ | ⟨ne, old⟩
    · exact ⟨(here _ isNew).1, (here _ isNew).2.1⟩
    · exact ⟨(sound.filed old).1.trans_le counter, away (sound.filed old).2 ne⟩
  have spaces : ∀ {f i l c}, place' f = some ⟨.space i, l, c⟩ → ∃ ns, sys'.space.namespaces i = some ns := by
    intro f i l c placed
    obtain ⟨some, from'⟩ := new placed
    rw [namespaces]
    by_cases eq : i = id
    · subst eq
      rw [update_self]
      exact Option.ne_none_iff_exists'.mp (some rfl)
    · rw [update_of_ne eq]
      exact from'.elim sound.spaces fun own => absurd (Owner.space.inj own.1) eq
  refine ⟨isChart, filed, spaces, fun live => ?_, ?_, ?_, ?_, ?_, ?_, ?_⟩
  · rcases (live_iff id).mp live with outside | ⟨ns, r, found, member, rfl⟩
    · exact sound.live ((live_iff id).mpr (.inl ((liveOutside_update handles namespaces).mp outside)))
    · rcases cases' found with ⟨-, isNew⟩ | ⟨ne, -⟩
      · exact sound.live ((here _ isNew).2.2.1 r member).2
      · exact absurd rfl ne
  · intro node range known
    obtain ⟨isNode, isLive, placed⟩ := sound.held known
    refine ⟨isNode, ?_, kept placed nofun⟩
    rcases (live_iff id).mp (isLive.resolve_right nofun) with outside | ⟨ns, r, found, member, rfl⟩
    · exact .inl ((live_iff id).mpr (.inl ((liveOutside_update handles namespaces).mpr outside)))
    · exact held ns r found member
  · exact fun placed => (new placed).2.elim sound.owned (nomatch ·.1)
  · intro i ns found r member
    rcases cases' found with ⟨-, isNew⟩ | ⟨-, old⟩
    · exact ((here _ isNew).2.2.1 r member).1
    · exact sound.proper old r member
  · intro i ns found
    rcases cases' found with ⟨-, isNew⟩ | ⟨-, old⟩
    · exact (here _ isNew).2.2.2
    · exact sound.apart old
  · intro f i l c placed lower
    rcases (new placed).2 with old | ⟨own, made⟩
    · obtain ⟨k, a, member, rest⟩ := sound.origin old lower
      exact ⟨k, a, past _ member, rest⟩
    · cases own
      exact made lower
  intro i k a member
  rcases traces _ member with old | ⟨k', a', f, same, table⟩
  · obtain ⟨known, table⟩ := sound.traces old
    refine ⟨known.trans_le counter, fun ns found => ?_⟩
    rcases cases' found with ⟨rfl, isNew⟩ | ⟨ne, before⟩
    · have isSome : v ≠ none := by simp [isNew]
      rcases was isSome with ⟨ns, found⟩ | late
      · exact (table ns found).imp fun _ placed => kept placed fun _ => isSome
      · exact absurd known (Nat.not_lt.mpr late)
    · exact (table ns before).imp fun _ placed => away placed ne
  · cases same
    obtain ⟨ns, found⟩ := spaces table
    exact ⟨(filed found).1, fun _ _ => ⟨f, table⟩⟩

/-- `add_mem_range` at a multiple of the size, in the lower half. -/
theorem Sound.add {range : VirtualMemoryRange} {name : String} {rangeType : MemoryRangeType} {mapAddress : Nat}
    {res : Option Nat} (sound : Sound none sys A) (live : sys.Live range) (found : sys.space.namespaces id = some ns)
    (aligned : range.capacity.size ∣ mapAddress) (low : mapAddress + range.capacity.size ≤ 2 ^ 47)
    (run : ns.addMemRange range name rangeType mapAddress sys.space.tables = some ((ns', res), tables)) :
    ∃ place', Sound none (sys.replaced id ns' tables
        (if res.isSome then (id, range.level, mapAddress) :: sys.history else sys.history)) ⟨place', A.ranges⟩ ∧
      OnlyTables sys.space.tables A.place tables place' ∧ (∀ i, 256 ≤ i → ns'.top i = ns.top i) ∧
      ns'.pageTreeRoot = ns.pageTreeRoot ∧
      ((res = none ∧ ns' = ns ∧ tables = sys.space.tables) ∨ ∃ rangeId, res = some rangeId ∧
        ns'.memoryRanges = ns.memoryRanges ++ [⟨range, name, rangeType, mapAddress, rangeId⟩]) ∧
      ∀ u, Twin A.place sys.space.tables u → ∃ u', ns.addMemRange range name rangeType mapAddress u =
        some ((ns', res), u') ∧ Twin place' tables u' := by
  have rooted := sound.rooted found
  rcases addMemRange_spec name rangeType sound.chart rooted (sys.link_iff found) (sound.proper found) low
    (sys.height_range (sound.live live)) (sound.node live) with
    ⟨fails, -⟩ | ⟨same, -, twin⟩ | ⟨_, _, place', same, -, added, twin⟩
  · cases run.symm.trans fails
  · cases run.symm.trans same
    refine ⟨A.place, ?_, .refl _ _, fun _ _ => rfl, rfl, .inl ⟨rfl, rfl, rfl⟩, twin⟩
    have same : sys.replaced id ns sys.space.tables sys.history = sys := sys.setNamespace_eq_self found
    rw [if_neg (by simp), same]
    exact sound
  cases run.symm.trans same
  have regions : ns'.memoryRanges = ns.memoryRanges ++ [⟨range, name, rangeType, mapAddress, ns.rangeCounter⟩] := by
    rw [added.same]
  have root : ns'.pageTreeRoot = ns.pageTreeRoot := by rw [added.same]
  refine ⟨place', sound.exchange rfl rfl (le_refl _) ?_ (fun placed _ => added.kept placed) ?_ ?_ ?_
    (fun _ => .inl ⟨ns, found⟩) ?_ ?_, added.frames, added.half, root, .inr ⟨ns.rangeCounter, rfl, regions⟩, twin⟩
  · rw [if_pos (by simp)]
    refine chart_setNamespace added.chart fun o l c g => ?_
    rw [regions]
    by_cases own : o = .space id
    · subst own
      simp only [sys.link_iff found, mem_append, mem_singleton, or_and_right, exists_or, exists_eq_left,
        true_and, ne_eq, not_true_eq_false, false_and, or_false, OwnedVirtualMemoryRange.Links]
      refine or_congr_right ?_
      constructor
      · rintro ⟨rfl, rfl, rfl⟩
        exact ⟨rfl, rfl, rfl⟩
      · rintro ⟨rfl, rfl, rfl⟩
        exact ⟨rfl, rfl, rfl⟩
    · simp [own]
  · intro x q placed
    refine ⟨by simp, (added.new placed).imp_right ?_⟩
    rintro ⟨l, below, _, rfl⟩
    exact ⟨rfl, fun _ => ⟨range.level, mapAddress, .head _, below, rfl⟩⟩
  · exact fun e => List.mem_cons_of_mem _
  · intro e member
    rcases mem_cons.mp member with rfl | old
    · obtain ⟨f, table⟩ := added.table
      exact .inr ⟨range.level, mapAddress, f, rfl, table⟩
    · exact .inl old
  · intro _ same
    cases same
    rw [root, regions, List.pairwise_append]
    refine ⟨(sound.filed found).1, added.kept (sound.filed found).2, fun r member => ?_, sound.apart found,
      List.pairwise_singleton _ _, fun r member r' new => ?_⟩
    · rcases mem_append.mp member with old | new
      · exact ⟨sound.proper found r old, sys.live_of_region found old⟩
      · rw [mem_singleton.mp new]
        exact ⟨⟨aligned, low⟩, live⟩
    · rw [mem_singleton.mp new]
      exact (added.apart r member).symm
  · intro ns1 r there member
    cases found.symm.trans there
    exact .inl (live_of_region setNamespace_self (by rw [regions]; exact mem_append_left _ member))

theorem Sound.clear {kept : List OwnedVirtualMemoryRange} (sound : Sound none sys A)
    (found : sys.space.namespaces id = some ns) (perm : ns.memoryRanges.Perm (r :: kept))
    (run : MemoryNamespace.clearEntry { ns with memoryRanges := kept } r sys.space.tables = some (ns', tables)) :
    Sound (some r.sharedRange) (sys.replaced id ns' tables sys.history) A ∧
      Kept True sys A (sys.replaced id ns' tables sys.history) A ∧ ns'.memoryRanges = kept ∧
      ns'.pageTreeRoot = ns.pageTreeRoot ∧ ∀ i, 256 ≤ i → ns'.top i = ns.top i := by
  have member : r ∈ ns.memoryRanges := perm.mem_iff.mpr (.head _)
  have proper : ∀ r' ∈ r :: kept, r'.Proper := fun r' member' => sound.proper found r' (perm.mem_iff.mpr member')
  have apart : (r :: kept).Pairwise OwnedVirtualMemoryRange.Apart :=
    (perm.pairwise_iff fun {_ _} away => away.symm).mp (sound.apart found)
  rw [List.pairwise_cons] at apart
  have rooted : Rooted (sys.setting A.ranges) A.place id { ns with memoryRanges := kept } :=
    ⟨(sound.rooted found).top, (sound.rooted found).root⟩
  obtain ⟨ns1, s1, ran, cleared⟩ := clearEntry_spec sound.chart rooted
    (sound.proper found r member).start_lt ((sys.link_iff found _ _ _).mpr ⟨r, member, rfl, rfl, rfl⟩)
  cases run.symm.trans ran
  have regions : ns'.memoryRanges = kept := by rw [cleared.same]
  have root : ns'.pageTreeRoot = ns.pageTreeRoot := by rw [cleared.same]
  refine ⟨sound.exchange rfl rfl (le_refl _) ?_ (fun placed _ => placed) (fun placed => ⟨nofun, .inl placed⟩)
    (fun _ old => old) (fun _ => .inl) (fun _ => .inl ⟨ns, found⟩) ?_ ?_,
    ⟨.of_eq cleared.pool cleared.inUse cleared.frees, fun _ f used unplaced => ⟨cleared.inUse ▸ used, unplaced⟩⟩,
    regions, root, cleared.half⟩
  · refine chart_setNamespace cleared.chart fun o l c g => ?_
    rw [regions]
    by_cases own : o = .space id
    · subst own
      rw [← links_tail proper apart.1 l c g]
      simp [sys.link_iff found, perm.mem_iff]
    · simp [own]
  · intro _ same
    cases same
    rw [root, regions]
    refine ⟨(sound.filed found).1, (sound.filed found).2, fun r' inKept => ⟨proper r' (.tail _ inKept), ?_⟩, apart.2⟩
    exact sys.live_of_region found (perm.mem_iff.mpr (.tail _ inKept))
  · intro ns1 r' there member'
    cases found.symm.trans there
    rcases mem_cons.mp (perm.mem_iff.mp member') with rfl | inKept
    · exact .inr rfl
    · exact .inl (live_of_region setNamespace_self (regions ▸ inKept))

/-- `remove_mem_range_by_id` and `remove_mem_range_by_name`, before the reference to the range is dropped. -/
theorem Sound.remove {key : MemoryNamespace.RegionKey} {removed : Option OwnedVirtualMemoryRange}
    (sound : Sound none sys A) (found : sys.space.namespaces id = some ns)
    (run : ns.removeMemRange key sys.space.tables = some ((ns', removed), tables)) :
    Sound (removed.map (·.sharedRange)) (sys.replaced id ns' tables sys.history) A ∧
      Kept True sys A (sys.replaced id ns' tables sys.history) A ∧
      (∀ r ∈ removed, key.matches r = true ∧ ns.memoryRanges.Perm (r :: ns'.memoryRanges)) ∧
      ns'.pageTreeRoot = ns.pageTreeRoot ∧ ∀ i, 256 ≤ i → ns'.top i = ns.top i := by
  obtain ⟨rfl, rfl, rfl⟩ | ⟨r, left, rfl, passes, perm, clear⟩ := MemoryNamespace.removeMemRange_eq_some run
  · have same : sys.replaced id ns' sys.space.tables sys.history = sys := sys.setNamespace_eq_self found
    rw [same]
    exact ⟨sound, .refl .., nofun, rfl, fun _ _ => rfl⟩
  · obtain ⟨sound', kept, regions, root, half⟩ := sound.clear found perm clear
    refine ⟨sound', kept, fun r' same => ?_, root, half⟩
    cases same
    exact ⟨passes, regions ▸ perm⟩

end Regions

/-! ## Page trees -/

section PageTrees

variable {sys sys' : MemorySystem} {A : Atlas} {id : Nat} {ns ns' : MemoryNamespace} {tables : TableMem}

def Atlas.install (A : Atlas) (id f : Nat) : Atlas := ⟨update A.place f (some ⟨.space id, 4, 0⟩), A.ranges⟩

def MemorySystem.installed (sys : MemorySystem) (u : TableMem) (ns : MemoryNamespace) (f : Nat) (rest : List Nat) :
    MemorySystem :=
  ((sys.withTables { u with pool := rest, inUse := update u.inUse f true }).setNamespace
    sys.space.namespaceIdCounter (some ns)).countNamespace

theorem Sound.install {f : Nat} (sound : Sound none sys A) (ns' : MemoryNamespace)
    (offer : sys.space.tables.pool = f :: rest) (root : ns'.pageTreeRoot = f) (regions : ns'.memoryRanges = [])
    (blank : ∀ i < 256, present (ns'.top i) = false) :
    Sound none (sys.installed sys.space.tables ns' f rest) (A.install sys.space.namespaceIdCounter f) ∧
      Kept True sys A (sys.installed sys.space.tables ns' f rest) (A.install sys.space.namespaceIdCounter f) := by
  have member : f ∈ sys.space.tables.pool := offer ▸ .head _
  have new := sound.chart.fresh member
  have ne : ∀ {i ns}, sys.space.namespaces i = some ns → i ≠ sys.space.namespaceIdCounter := fun there =>
    (sound.filed there).1.ne
  have kept : ∀ {x p}, A.place x = some p → x ≠ f ∧
      update A.place f (some ⟨.space sys.space.namespaceIdCounter, 4, 0⟩) x = some p :=
    fun placed => update_of_placed placed new
  have tops : ((sys.installed sys.space.tables ns' f rest).setting A.ranges).tops =
      update (sys.setting A.ranges).tops sys.space.namespaceIdCounter ns'.top := tops_setNamespace
  refine ⟨sound.exchange rfl rfl (Nat.le_succ _) ?_ (fun placed _ => (kept placed).2) (fun placed => ⟨nofun, ?_⟩)
    (fun _ past => past) (fun _ => .inl) (fun _ => .inr (le_refl _)) ?_ (fun _ _ there => absurd rfl (ne there)),
    .take sound offer rfl rfl rfl⟩
  · refine sound.chart.plant offer ?_ rfl ?_ (fun o _ => ?_) ?_
      (fun _ _ => by omega) rfl rfl rfl ?_ ?_
    · rintro x ⟨o, l, n⟩ placed rfl
      obtain ⟨ns, there⟩ := sound.spaces placed
      exact ne there rfl
    · rintro (node | i) - <;> rfl
    · cases o <;> rfl
    · funext o l c g
      refine propext (link_setNamespace.trans ?_)
      rw [regions]
      simp only [List.not_mem_nil, false_and, exists_false, and_false, false_or, and_iff_right_iff_imp]
      rintro ⟨i, ns, r, rfl, there, -⟩ eq
      exact ne there (Owner.space.inj eq)
    · intro x p placed j
      obtain ⟨away, placed'⟩ := kept placed
      refine (view_congr placed placed' rfl).trans (view_of_tops placed fun i owner => ?_)
      obtain ⟨o, l, n⟩ := p
      obtain rfl : o = .space i := owner
      rw [tops, update_of_ne (ne (sound.spaces placed).choose_spec)]
    · intro _ j _
      by_cases low : j < 256
      · rw [view_root (update_self f _ A.place) low, tops, update_self]
        exact blank j low
      unfold Setting.view
      rw [update_self]
      dsimp only
      rw [if_pos rfl, if_neg low]
      rfl
  · rcases update_eq_some.mp placed with ⟨-, rfl⟩ | ⟨-, before⟩
    · exact .inr ⟨rfl, fun low => absurd low (lt_irrefl 4)⟩
    · exact .inl before
  intro _ same
  cases same
  rw [root, regions]
  exact ⟨Nat.lt_succ_self _, update_self .., nofun, .nil⟩

variable {history : List (Nat × Nat × Nat)} {s' : TableMem}

theorem Sound.withHistory {loose : Option VirtualMemoryRange} (sound : Sound loose sys A)
    (same : ∀ {id ns}, sys.space.namespaces id = some ns → ∀ k a, (id, k, a) ∈ history ↔ (id, k, a) ∈ sys.history)
    (past : ∀ {id k a}, (id, k, a) ∈ history → id < sys.space.namespaceIdCounter) :
    Sound loose { sys with history := history } A :=
  { sound with
    origin := fun placed lower => by
      obtain ⟨ns, found⟩ := sound.spaces placed
      obtain ⟨k, a, member, rest⟩ := sound.origin placed lower
      exact ⟨k, a, (same found k a).mpr member, rest⟩
    traces := fun {id k a} member =>
      ⟨past member, fun ns found => (sound.traces ((same found k a).mp member)).2 ns found⟩ }

theorem Sound.dropTree (sound : Sound none sys A) (found : sys.space.namespaces id = some ns)
    (regions : ns.memoryRanges = []) (lower : ∀ i, 256 ≤ i → i < 512 → present (ns.top i) = false)
    (run : ns.deletePageTable sys.space.tables = some ((), tables)) :
    ∃ A', Sound none ((sys.withTables tables).setNamespace id none) A' ∧
      Kept True sys A ((sys.withTables tables).setNamespace id none) A' := by
  have unlinked : ∀ l c g, ¬ (sys.setting A.ranges).link (.space id) l c g := by
    intro l c g isLink
    obtain ⟨r, member, -⟩ := (sys.link_iff found l c g).mp isLink
    rw [regions] at member
    cases member
  obtain ⟨s', ran, frees⟩ := deletePageTable_spec sound.chart (sound.rooted found) unlinked lower
  cases run.symm.trans ran
  -- all frames of the tree are tables, and all of them are given back
  have gone : ∀ f, TablesBelow A.place (.space id) 4 0 f ↔ ∃ l c, A.place f = some ⟨.space id, l, c⟩ := by
    intro f
    refine ⟨fun ⟨⟨k, c, placed, _⟩, _⟩ => ⟨k, c, placed⟩, ?_⟩
    rintro ⟨l, c, placed⟩
    obtain ⟨k, rfl⟩ : ∃ k, l = k + 1 := Nat.exists_eq_succ_of_ne_zero fun zero =>
      sound.chart.leafless f id c (zero ▸ placed)
    exact ⟨sound.chart.forest.below_root placed, k, c, placed⟩
  have same : ∀ {x p}, Places.without A.place (.space id) x = some p → A.place x = some p :=
    fun placed => (Places.without_eq_some.mp placed).1
  have there : ∀ {i other}, ((sys.withTables tables).setNamespace id none).space.namespaces i = some other ↔
      i ≠ id ∧ sys.space.namespaces i = some other := update_none_eq_some
  have noRegion : ∀ {i other r}, sys.space.namespaces i = some other → r ∈ other.memoryRanges → i ≠ id := by
    rintro i other r before member rfl
    cases found.symm.trans before
    rw [regions] at member
    cases member
  refine ⟨⟨Places.without A.place (.space id), A.ranges⟩,
    sound.exchange rfl rfl (le_refl _) ?_ (fun placed other => Places.without_eq_some.mpr ⟨placed, (other · rfl)⟩)
      (fun placed => ⟨fun own => absurd own (Places.without_eq_some.mp placed).2, .inl (same placed)⟩)
      (fun _ past => past) (fun _ => .inl) (absurd rfl) nofun
      (fun _ _ before member => absurd rfl (noRegion before member)),
    sound.kept_without frees (fun f => (gone f).mp) fun _ f l c placed => (gone f).mpr ⟨l, c, placed⟩⟩
  · refine sound.chart.fell (fun _ _ => Places.without_eq_some) unlinked ?_
      (by rintro (node | i) - <;> rfl) (fun o _ => by cases o <;> rfl) ?_ ?_ frees.pool frees.hhdm
      (frees.inUse fun f => (gone f).mp)
    · rintro p k c x ⟨i, other, r, -, before, member, -, -, rfl⟩ q placed
      rw [sound.node (sys.live_of_region before member), Option.some.injEq] at placed
      rw [← placed]
      simp
    · intro p k c x
      constructor
      · rintro ⟨i, other, r, rfl, isThere, member, links⟩
        exact ⟨i, other, r, rfl, (there.mp isThere).2, member, links⟩
      · rintro ⟨i, other, r, rfl, before, member, links⟩
        exact ⟨i, other, r, rfl, there.mpr ⟨noRegion before member, before⟩, member, links⟩
    · intro x p placed j
      obtain ⟨placedOld, other⟩ := Places.without_eq_some.mp placed
      refine (view_congr placedOld placed (congrFun (congrFun frees.entries x) j)).trans
        (view_of_tops placedOld fun i owner => ?_)
      have ne : i ≠ id := fun eq => other (owner.trans (congrArg Owner.space eq))
      simp only [setting, setNamespace_of_ne ne]
      rfl

theorem Release.same {range : Option VirtualMemoryRange} (release : Release range sys sys') :
    sys' = sys.withTables sys'.space.tables := by
  cases release <;> rfl

theorem Sound.removeAll (removed : RemoveAll id sys sys') (sound : Sound none sys A) : ∃ A', Sound none sys' A' ∧
      Kept (∀ ns, sys.space.namespaces id = some ns → ∀ r ∈ ns.memoryRanges,
        sys.LiveOutside id r.sharedRange ∨ A.Bare r.sharedRange) sys A sys' A' ∧
      ∃ ns ns', sys.space.namespaces id = some ns ∧ sys'.space.namespaces id = some ns' ∧ ns'.memoryRanges = [] ∧
        ns'.pageTreeRoot = ns.pageTreeRoot ∧ (∀ i, 256 ≤ i → ns'.top i = ns.top i) ∧
        ∀ other, other ≠ id → sys'.space.namespaces other = sys.space.namespaces other := by
  induction removed generalizing A with
  | @nil sys ns found empty =>
    exact ⟨A, sound, .refl .., ns, ns, found, found, empty, rfl, fun _ _ => rfl, fun _ _ => rfl⟩
  | @cons sys mid sys' ns ns1 r rest tables found regions run release others ih =>
    obtain ⟨sound1, kept1, regions1, root1, half1⟩ := sound.clear found (by rw [regions]) run
    have known : ∀ range, some r.sharedRange = some range → A.ranges range.node = some range := by
      rintro range eq
      cases eq
      exact sound.live (sys.live_of_region found (by rw [regions]; exact .head _))
    obtain ⟨A2, sound2, kept2, places2⟩ := sound1.release known release
    obtain ⟨A', sound', kept', ns2, ns', found2, found', empty, root', half', elsewhere⟩ := ih sound2
    have same := release.same
    have namespaces : mid.space.namespaces = update sys.space.namespaces id (some ns1) := by
      rw [same]
      rfl
    obtain rfl : ns1 = ns2 := by
      rwa [namespaces, update_self, Option.some.injEq] at found2
    refine ⟨A', sound', ?_, ns, ns', found, found', empty, root'.trans root1,
      fun i high => (half' i high).trans (half1 i high), fun other ne => ?_⟩
    · refine ((kept1.trans kept2).trans kept').weaken fun tight => ⟨⟨trivial, ?_⟩, ?_⟩
      · intro range eq
        cases eq
        refine (tight ns found r (by rw [regions]; exact .head _)).imp_left fun outside => ?_
        exact (live_iff id).mpr (.inl (liveOutside_replaced.mpr outside))
      · intro ns2 there r' member
        cases found2.symm.trans there
        refine (tight ns found r' (by rw [regions]; exact .tail _ (regions1 ▸ member))).imp
          (liveOutside_update (by rw [same]; rfl) namespaces).mpr ?_
        exact fun bare f c placed => bare f c (places2 placed)
    · rw [elsewhere other ne, namespaces, update_of_ne ne]

theorem Sound.clearAll (sound : Sound none sys A) (found : sys.space.namespaces id = some ns)
    (shared : ∀ r ∈ ns.memoryRanges, sys.LiveOutside id r.sharedRange)
    (run : MemoryNamespace.clearEntries { ns with memoryRanges := [] } ns.memoryRanges sys.space.tables =
      some (ns', s')) :
    Sound none (sys.replaced id ns' s' sys.history) A ∧ Kept True sys A (sys.replaced id ns' s' sys.history) A ∧
      ns'.memoryRanges = [] ∧ ∀ i, 256 ≤ i → ns'.top i = ns.top i := by
  have rooted : Rooted (sys.setting A.ranges) A.place id { ns with memoryRanges := [] } :=
    ⟨(sound.rooted found).top, (sound.rooted found).root⟩
  obtain ⟨ns1, s1, ran, isChart, same, half, pool, inUse, frees, hhdm⟩ := clearEntries_spec sound.chart rooted
    (sys.link_iff found) (sound.proper found) (sound.apart found)
  cases run.symm.trans ran
  have regions : ns'.memoryRanges = [] := by rw [same]
  have root : ns'.pageTreeRoot = ns.pageTreeRoot := by rw [same]
  refine ⟨sound.exchange rfl rfl (le_refl _) ?_ (fun placed _ => placed) (fun placed => ⟨nofun, .inl placed⟩)
    (fun _ old => old) (fun _ => .inl) (fun _ => .inl ⟨ns, found⟩) ?_ ?_,
    ⟨.of_eq pool inUse frees, fun _ f used unplaced => ⟨inUse ▸ used, unplaced⟩⟩, regions, half⟩
  · refine chart_setNamespace isChart fun o l c g => ?_
    rw [regions]
    simp only [List.not_mem_nil, false_and, exists_false, and_false, false_or]
    exact and_comm
  · intro _ same
    cases same
    rw [root, regions]
    exact ⟨(sound.filed found).1, (sound.filed found).2, nofun, .nil⟩
  · intro ns1 r there member
    cases found.symm.trans there
    exact .inl ((live_iff id).mpr (.inl (liveOutside_replaced.mpr (shared r member))))

theorem MemorySystem.replaced_replaced {history' : List (Nat × Nat × Nat)} :
    (sys.replaced id ns tables history).replaced id ns' s' history' = sys.replaced id ns' s' history' := by
  simp [replaced, setNamespace, withTables, update_idem]

/-- What the loop of `create_from` has done. -/
structure Copied (sys : MemorySystem) (A : Atlas) (id : Nat) (ns ns' : MemoryNamespace) (tables : TableMem)
    (place' : Places) (history : List (Nat × Nat × Nat)) : Prop where
  sound : Sound none (sys.replaced id ns' tables history) ⟨place', A.ranges⟩
  kept : Kept True sys A (sys.replaced id ns' tables history) ⟨place', A.ranges⟩
  half : ∀ i, 256 ≤ i → ns'.top i = ns.top i
  past : ∀ e ∈ sys.history, e ∈ history
  new : ∀ e ∈ history, e ∈ sys.history ∨ ∃ r ∈ ns'.memoryRanges, e = (id, r.sharedRange.level, r.mapAddress)
  all : (∀ r ∈ ns.memoryRanges, (id, r.sharedRange.level, r.mapAddress) ∈ sys.history) →
    ∀ r ∈ ns'.memoryRanges, (id, r.sharedRange.level, r.mapAddress) ∈ history
  more : ∀ r ∈ ns.memoryRanges, r ∈ ns'.memoryRanges
  shared : ∀ r ∈ ns'.memoryRanges, r ∈ ns.memoryRanges ∨ sys.LiveOutside id r.sharedRange

theorem Copied.refl (sound : Sound none sys A) (found : sys.space.namespaces id = some ns) :
    Copied sys A id ns ns sys.space.tables A.place sys.history := by
  have same : sys.replaced id ns sys.space.tables sys.history = sys := sys.setNamespace_eq_self found
  refine ⟨?_, ?_, fun _ _ => rfl, fun _ old => old, fun _ => .inl, fun all => all, fun _ member => member, fun _ => .inl⟩
  · rw [same]
    exact sound
  · rw [same]
    exact .refl ..

theorem Copied.trans {ns1 ns2 : MemoryNamespace} {s1 s2 : TableMem} {place1 place2 : Places}
    {history1 history2 : List (Nat × Nat × Nat)} (first : Copied sys A id ns ns1 s1 place1 history1)
    (second : Copied (sys.replaced id ns1 s1 history1) ⟨place1, A.ranges⟩ id ns1 ns2 s2 place2 history2) :
    Copied sys A id ns ns2 s2 place2 history2 := by
  refine ⟨?_, ?_, fun i high => (second.half i high).trans (first.half i high),
    fun e old => second.past e (first.past e old), fun e member => ?_, fun all => second.all (first.all all),
    fun r member => second.more r (first.more r member), fun r member => ?_⟩
  · have sound := second.sound
    rwa [replaced_replaced] at sound
  · have kept := first.kept.trans second.kept
    rw [replaced_replaced] at kept
    exact kept.weaken fun _ => ⟨trivial, trivial⟩
  · rcases second.new e member with mid | new
    · exact (first.new e mid).imp_right fun ⟨r, isRegion, same⟩ => ⟨r, second.more r isRegion, same⟩
    · exact .inr new
  · rcases second.shared r member with mid | outside
    · exact first.shared r mid
    · exact .inr (liveOutside_replaced.mp outside)

theorem Sound.addMemRanges {rs : List OwnedVirtualMemoryRange} {accepted : Bool} (sound : Sound none sys A)
    (found : sys.space.namespaces id = some ns) (each : ∀ r ∈ rs, sys.LiveOutside id r.sharedRange ∧ r.Proper)
    (run : ns.addMemRanges rs sys.space.tables = some ((ns', accepted), tables)) :
    ∃ place' history, Copied sys A id ns ns' tables place' history := by
  induction rs generalizing sys A ns with
  | nil =>
    cases run
    exact ⟨_, _, .refl sound found⟩
  | cons r rest ih =>
    obtain ⟨⟨ns1, res⟩, s1, first, run⟩ := bind_eq_some.mp run
    obtain ⟨outside, proper⟩ := each r (.head _)
    obtain ⟨place1, sound1, frames, half, -, regions, -⟩ :=
      sound.add (outside.imp_right fun ⟨other, ns, r, _, there⟩ => ⟨other, ns, r, there⟩) found proper.aligned proper.low first
    rcases regions with ⟨rfl, rfl, rfl⟩ | ⟨rangeId, rfl, more⟩
    · cases run
      exact ⟨_, _, .refl sound found⟩
    have one : Copied sys A id ns ns1 s1 place1 ((id, r.sharedRange.level, r.mapAddress) :: sys.history) := by
      refine ⟨sound1, ⟨frames.account, fun _ => frames.filled⟩, half, fun _ => List.mem_cons_of_mem _, ?_, ?_, ?_, ?_⟩
      · intro e member
        refine (mem_cons.mp member).symm.imp_right fun same =>
          ⟨⟨r.sharedRange, r.name, r.rangeType, r.mapAddress, rangeId⟩, ?_, same⟩
        rw [more]
        exact mem_append_right _ (List.mem_singleton_self _)
      · intro all r' member
        rw [more] at member
        rcases mem_append.mp member with old | new
        · exact .tail _ (all r' old)
        · rw [mem_singleton.mp new]
          exact .head _
      · intro r' member
        rw [more]
        exact mem_append_left _ member
      intro r' member
      rw [more] at member
      refine (mem_append.mp member).imp_right fun new => ?_
      rw [mem_singleton.mp new]
      exact outside
    have rest' : ∀ r' ∈ rest, (sys.replaced id ns1 s1 ((id, r.sharedRange.level, r.mapAddress) ::
        sys.history)).LiveOutside id r'.sharedRange ∧ r'.Proper := fun r' member =>
      let ⟨outside', proper'⟩ := each r' (.tail _ member)
      ⟨liveOutside_replaced.mpr outside', proper'⟩
    obtain ⟨place', history, others⟩ := ih one.sound setNamespace_self rest' run
    exact ⟨place', history, one.trans others⟩

theorem createEmpty_eq_some {s : TableMem} : MemoryNamespace.createEmpty id s = some (ns, s') ↔
    ∃ f rest, s.pool = f :: rest ∧ f < s.hhdm.len ∧
      ns = { id := id, pageTreeRoot := f, top := fun _ => 0, memoryRanges := [], rangeCounter := 1 } ∧
      s' = { s with pool := rest, inUse := update s.inUse f true } := by
  unfold MemoryNamespace.createEmpty
  rw [allocate_bind_eq_some]
  refine exists_congr fun f => exists_congr fun rest => and_congr_right fun _ => ?_
  rw [direct_bind_eq_some]
  simp [eq_comm]

def MemorySystem.copied (sys : MemorySystem) (copy : Option MemoryNamespace) (tables : TableMem) : MemorySystem :=
  { ((sys.withTables tables).setNamespace sys.space.namespaceIdCounter copy).countNamespace with
    history := (copy.elim [] fun ns => ns.memoryRanges.map fun r =>
      (sys.space.namespaceIdCounter, r.sharedRange.level, r.mapAddress)) ++ sys.history }

/-- `create_from`: the copy has all regions of the other namespace, or there is no copy and nothing is left of it. -/
theorem Sound.createFrom {other : MemoryNamespace} {copy : Option MemoryNamespace} (sound : Sound none sys A)
    (found : sys.space.namespaces id = some other)
    (run : MemoryNamespace.createFrom sys.space.namespaceIdCounter other sys.space.tables = some (copy, tables)) :
    ∃ A', Sound none (sys.copied copy tables) A' ∧ Kept True sys A (sys.copied copy tables) A' ∧
      ∀ ns ∈ copy, ∀ i, 256 ≤ i → ns.top i = 0 := by
  obtain ⟨ns0, s0, first, run⟩ := bind_eq_some.mp run
  obtain ⟨f, rest, offer, direct, rfl, rfl⟩ := createEmpty_eq_some.mp first
  obtain ⟨⟨ns1, accepted⟩, s1, second, run⟩ := bind_eq_some.mp run
  have ne : id ≠ sys.space.namespaceIdCounter := (sound.filed found).1.ne
  -- the namespace is entered into the system before its regions are added
  obtain ⟨sound0, kept0⟩ := sound.install
    { id := sys.space.namespaceIdCounter, pageTreeRoot := f, top := fun _ => 0, memoryRanges := [],
      rangeCounter := other.rangeCounter }
    offer rfl rfl (fun _ _ => (by decide : present 0 = false))
  generalize isSys0 : installed _ _ _ _ _ = sys0 at sound0 kept0
  have found0 : sys0.space.namespaces sys.space.namespaceIdCounter = some
      { id := sys.space.namespaceIdCounter, pageTreeRoot := f, top := fun _ => 0, memoryRanges := [],
        rangeCounter := other.rangeCounter } := by
    rw [← isSys0]
    exact setNamespace_self
  have shared : ∀ r ∈ other.memoryRanges, sys0.LiveOutside sys.space.namespaceIdCounter r.sharedRange ∧ r.Proper := by
    intro r member
    refine ⟨.inr ⟨id, other, r, ne, ?_, member, rfl⟩, sound.proper found r member⟩
    rw [← isSys0]
    exact (setNamespace_of_ne ne).trans found
  have history0 : sys0.history = sys.history := by rw [← isSys0]; rfl
  have counter0 : sys0.space.namespaceIdCounter = sys.space.namespaceIdCounter + 1 := by rw [← isSys0]; rfl
  obtain ⟨place1, history, copied⟩ := sound0.addMemRanges found0 shared (by rw [← isSys0]; exact second)
  have half : ∀ i, 256 ≤ i → ns1.top i = 0 := copied.half
  cases accepted with
  | true =>
    cases run
    have shape : sys.copied (some ns1) tables = { sys0.replaced sys.space.namespaceIdCounter ns1 tables history with
        history := (ns1.memoryRanges.map fun r => (sys.space.namespaceIdCounter, r.sharedRange.level, r.mapAddress)) ++
          sys.history } := by
      rw [← isSys0]
      simp [MemorySystem.copied, installed, replaced, setNamespace, countNamespace, withTables, update_idem]
    rw [shape]
    refine ⟨⟨place1, A.ranges⟩, copied.sound.withHistory (fun {i _} _ k a => ?_) (fun {i k a} member => ?_),
      ⟨kept0.account.trans copied.kept.account, (kept0.trans copied.kept).filled ∘ fun _ => ⟨trivial, trivial⟩⟩,
      fun ns eq => by cases eq; exact half⟩
    · rw [mem_append, mem_map]
      constructor
      · rintro (⟨r, isRegion, same⟩ | old)
        · exact same ▸ copied.all nofun r isRegion
        · exact copied.past _ (history0 ▸ old)
      intro member
      rcases copied.new _ member with old | ⟨r, isRegion, same⟩
      · exact .inr (history0 ▸ old)
      · exact .inl ⟨r, isRegion, same.symm⟩
    · change i < sys0.space.namespaceIdCounter
      rw [counter0]
      rcases mem_append.mp member with new | old
      · obtain ⟨r, -, same⟩ := mem_map.mp new
        cases same
        omega
      · exact Nat.lt_succ_of_lt (sound.traces old).1
  | false =>
    obtain ⟨_, s2, dropped, run⟩ := bind_eq_some.mp run
    cases run
    obtain ⟨ns2, s3, cleared, deleted⟩ := bind_eq_some.mp dropped
    obtain ⟨sound2, kept2, regions2, half2⟩ := copied.sound.clearAll setNamespace_self
      (fun r member => liveOutside_replaced.mpr
        ((copied.shared r member).resolve_left nofun)) cleared
    obtain ⟨A', sound', kept'⟩ := sound2.dropTree setNamespace_self regions2
      (fun i high _ => by rw [half2 i high, half i high]; decide) deleted
    have shape : sys.copied none tables = { ((((sys0.replaced sys.space.namespaceIdCounter ns1 s1 history).replaced
        sys.space.namespaceIdCounter ns2 s3 history).withTables tables).setNamespace sys.space.namespaceIdCounter none) with
        history := sys.history } := by
      rw [← isSys0]
      simp [MemorySystem.copied, installed, replaced, setNamespace, countNamespace, withTables, update_idem]
    rw [shape]
    refine ⟨A', sound'.withHistory (fun {i ns} there k a => ?_) (fun {i k a} member => ?_),
      ⟨((kept0.account.trans copied.kept.account).trans kept2.account).trans kept'.account,
        (((kept0.trans copied.kept).trans kept2).trans kept').filled ∘ fun _ => ⟨⟨⟨trivial, trivial⟩, trivial⟩, trivial⟩⟩,
      nofun⟩
    · have other : i ≠ sys.space.namespaceIdCounter := by
        rintro rfl
        rw [setNamespace_self] at there
        cases there
      constructor
      · exact fun old => copied.past _ (history0 ▸ old)
      intro member
      rcases copied.new _ member with old | ⟨r, -, same⟩
      · exact history0 ▸ old
      · cases same
        exact absurd rfl other
    · change i < sys0.space.namespaceIdCounter
      rw [counter0]
      exact Nat.lt_succ_of_lt (sound.traces member).1

end PageTrees

/-! ## Rights -/

/-- Pages with the rights `perms` have the rights of the range; a page that is a range of its own has all. -/
structure VirtualMemoryRange.Grants (range : VirtualMemoryRange) (perms : Nat) : Prop where
  write : range.perms.testBit 0 = perms.testBit 0
  execute : range.perms.testBit 1 = perms.testBit 1
  page : range.level = 0 → perms.testBit 0 = true ∧ perms.testBit 1 = true

section Rights

variable {start stop perms : Nat} {ns ns' : MemoryNamespace} {tables : TableMem}

theorem protEntry_of_leads {e f level : Nat} {write execute : Bool} (leads : Leads e f write execute)
    (page : level = 1 → write = perms.testBit 0 ∧ execute = perms.testBit 1)
    (table : level ≠ 1 → write = true ∧ (perms.testBit 1 = true → execute = true)) :
    PageTable.protEntry perms level e = e := by
  unfold PageTable.protEntry
  rw [leads.small]
  by_cases isPage : level = 1
  · obtain ⟨rfl, rfl⟩ := page isPage
    rw [if_pos (.inl isPage), setWriteable, setBit_eq_self leads.writeable, setNoExecute, setBit_eq_self leads.noExecute]
  · obtain ⟨rfl, more⟩ := table isPage
    have kept : (noExecute e && !perms.testBit 1) = noExecute e := by
      rw [leads.noExecute]
      cases execute <;> simp_all
    have same : setWriteable e (writeable e || perms.testBit 0) = e := by
      rw [leads.writeable, Bool.true_or]
      exact setBit_eq_self leads.writeable
    rw [if_neg (by simp [isPage]), same]
    exact setBit_eq_self kept.symm

/-- `set_prot` changes nothing in tables whose entries it would leave as they are. -/
theorem setProt_same {K : Nat → Nat → Prop} {s s' : TableMem}
    (fits : ∀ {t l i}, K t (l + 1) → i < 512 → present (s.entries t i) = true →
      PageTable.protEntry perms (l + 1) (s.entries t i) = s.entries t i ∧ (l ≠ 0 → K (address (s.entries t i)) l))
    {level t tableAddr : Nat} (inside : K t level)
    (run : PageTable.setProt start stop perms level t tableAddr s = some ((), s')) : s' = s := by
  induction level generalizing t tableAddr s' with
  | zero => cases run
  | succ level ih =>
    unfold PageTable.setProt at run
    split at run
    · cases run
      rfl
    refine Prog.forUp_eq_some_ind (fun _ u => u = s) (fun i u u' above below same step => ?_) rfl run
    subst same
    have lt : i < 512 := by
      have last := endIndex_le stop tableAddr (show 0 < 512 ^ level * 4096 by positivity)
      exact lt_of_lt_of_le (by omega) last
    rw [entry_bind] at step
    cases there : present (u.entries t i) with
    | false =>
      rw [there] at step
      cases step
      rfl
    | true =>
      obtain ⟨same, lower⟩ := fits inside lt there
      rw [there, same] at step
      obtain ⟨_, mid, written, step⟩ := bind_eq_some.mp step
      obtain rfl : mid = u := by
        cases written
        exact put_eq_self ..
      split at step
      · cases step
        rfl
      next more =>
        obtain ⟨-, step⟩ := direct_bind_eq_some.mp step
        exact ih (lower fun zero => more (.inl (by omega))) step

def Atlas.Covers (A : Atlas) (id : Nat) (ns : MemoryNamespace) (t l : Nat) : Prop :=
  (l < 4 ∧ ∃ n, A.place t = some ⟨.space id, l, n⟩) ∨
    ∃ r ∈ ns.memoryRanges, ∃ n, A.place t = some ⟨.range r.sharedRange.node, l, n⟩

section

variable (sound : Sound none sys A) (found : sys.space.namespaces id = some ns)
  (grants : ∀ r ∈ ns.memoryRanges, r.sharedRange.Grants perms) {t l i n : Nat}

include sound found grants

theorem Sound.protEntry_space (placed : A.place t = some ⟨.space id, l + 1, n⟩) (lt : i < 512) {e : Nat}
    (isEntry : (sys.setting A.ranges).view sys.space.tables.entries A.place t i = e) (there : present e = true) :
    PageTable.protEntry perms (l + 1) e = e ∧ (l ≠ 0 → A.Covers id ns (address e) l) := by
  subst isEntry
  have leads := sound.chart.entries placed lt there
  have le := sound.chart.forest.level_le placed
  rcases sound.chart.forest.down placed lt (next_eq_some_iff.mpr ⟨there, rfl⟩) with isLink | child
  · obtain ⟨r, member, isLevel, -, isNode⟩ := (sys.link_iff found _ _ _).mp isLink
    refine ⟨protEntry_of_leads leads (fun isPage => ?_) fun _ => ⟨rfl, fun _ => rfl⟩, fun _ => .inr ⟨r, member, 0, ?_⟩⟩
    · obtain ⟨write, execute⟩ := (grants r member).page (by omega)
      exact ⟨write.symm, execute.symm⟩
    · rw [← isNode, ← isLevel]
      exact sound.node (sys.live_of_region found member)
  · have above : l ≠ 0 := by
      rintro rfl
      exact sound.chart.leafless _ _ _ child
    exact ⟨protEntry_of_leads leads (by omega) fun _ => ⟨rfl, fun _ => rfl⟩, fun _ => .inl ⟨le, _, child⟩⟩

theorem Sound.protEntry_covered (inside : A.Covers id ns t (l + 1)) (lt : i < 512)
    (there : present (sys.space.tables.entries t i) = true) :
    PageTable.protEntry perms (l + 1) (sys.space.tables.entries t i) = sys.space.tables.entries t i ∧
      (l ≠ 0 → A.Covers id ns (address (sys.space.tables.entries t i)) l) := by
  obtain ⟨lower, n, placed⟩ | ⟨r, member, n, placed⟩ := inside
  · exact sound.protEntry_space found grants placed lt (view_lower placed (by omega)) there
  · have leads := sound.chart.entries placed lt (by rwa [view_range placed])
    have known := sound.live (sys.live_of_region found member)
    have rights : (sys.setting A.ranges).rights (.range r.sharedRange.node) l =
        (decide (0 < l) || perms.testBit 0, perms.testBit 1) := by
      rw [← (grants r member).write, ← (grants r member).execute]
      simp [setting, Setting.rights, known]
    rw [view_range placed, rights] at leads
    refine ⟨protEntry_of_leads leads (fun isPage => ?_) (fun isTable => ?_), fun _ => .inr ⟨r, member, 512 * n + i, ?_⟩⟩
    · exact ⟨by simp [show l = 0 by omega], rfl⟩
    · exact ⟨by simp [show 0 < l by omega], fun execute => execute⟩
    · exact sound.chart.range_child placed lt there

/-- `set_prot` with the rights that the regions have already changes nothing. -/
theorem Sound.setProt_same (low : stop ≤ 2 ^ 47)
    (run : ns.setProt start stop perms sys.space.tables = some (ns', tables)) : ns' = ns ∧ tables = sys.space.tables := by
  have top : ∀ i < 256, present (ns.top i) = true →
      PageTable.protEntry perms 4 (ns.top i) = ns.top i ∧ A.Covers id ns (address (ns.top i)) 3 := by
    intro i small there
    have kept := sound.protEntry_space found grants (sound.filed found).2 (by omega) ((sound.rooted found).view small) there
    exact kept.imp_right fun below => below (by decide)
  unfold MemoryNamespace.setProt at run
  split at run
  · cases run
    exact ⟨rfl, rfl⟩
  obtain ⟨_, mid, loop, run⟩ := bind_eq_some.mp run
  cases run
  have last : (min stop (2 ^ 48) + 2 ^ 39 - 1) / 2 ^ 39 ≤ 256 := by omega
  refine ⟨?_, Prog.forUp_eq_some_ind (fun _ u => u = sys.space.tables) (fun i u u' _ below same step => ?_) rfl loop⟩
  · have tops : (fun i => if start / 2 ^ 39 ≤ i ∧ i < (min stop (2 ^ 48) + 2 ^ 39 - 1) / 2 ^ 39 ∧ present (ns.top i) = true
        then PageTable.protEntry perms 4 (ns.top i) else ns.top i) = ns.top := by
      funext i
      split
      next met => exact (top i (by omega) met.2.2).1
      next => rfl
    rw [tops]
  · subst same
    split at step
    · cases step
      rfl
    next more =>
      obtain ⟨-, step⟩ := direct_bind_eq_some.mp step
      have there : present (ns.top i) = true := by simpa using (not_or.mp (Bool.or_eq_true_iff.not.mp more)).1
      exact setProt_same (sound.protEntry_covered found grants) (top i (by omega) there).2 step

end

end Rights

/-! ## Operations -/

/-- Where an operation keeps the page trees in order: a region is added at a multiple of its size, below the upper half,
a namespace that is dropped does not contain the kernel's half, and `set_prot` asks for the rights that the regions of
the namespace have. -/
def MemoryOp.Regular (sys : MemorySystem) : MemoryOp → Prop
  | .add _ range _ _ mapAddress => range.capacity.size ∣ mapAddress ∧ mapAddress + range.capacity.size ≤ 2 ^ 47
  | .drop id => ∀ ns, sys.space.namespaces id = some ns → ∀ i, 256 ≤ i → i < 512 → present (ns.top i) = false
  | .setProt id _ stop perms => stop ≤ 2 ^ 47 ∧
      ∀ ns, sys.space.namespaces id = some ns → ∀ r ∈ ns.memoryRanges, r.sharedRange.Grants perms
  | _ => True

/-- The operation leaves no frame in use without a place: what is unmapped had no frames, and what loses its last
reference is `bare`. -/
def MemoryOp.Tight (sys : MemorySystem) (bare : VirtualMemoryRange → Prop)
    (unmapped : VirtualMemoryRange → Option (Nat × Nat) → Prop) : MemoryOp → Prop
  | .release range => ∀ before after, sys.handles = before ++ range :: after →
      ({ sys with handles := before ++ after } : MemorySystem).Live range ∨ bare range
  | .pages range op => unmapped range (op.unmaps range (sys.space.allocated range.node))
  | .remove id key => ∀ ns r kept, sys.space.namespaces id = some ns → key.matches r = true →
      ns.memoryRanges.Perm (r :: kept) →
      (sys.LiveOutside id r.sharedRange ∨ ∃ r' ∈ kept, r'.sharedRange = r.sharedRange) ∨ bare r.sharedRange
  | .drop id => ∀ ns, sys.space.namespaces id = some ns → ∀ r ∈ ns.memoryRanges,
      sys.LiveOutside id r.sharedRange ∨ bare r.sharedRange
  | _ => True

theorem Sound.dropHandle {range : VirtualMemoryRange}
    {before after : List VirtualMemoryRange} (sound : Sound none sys A) (held : sys.handles = before ++ range :: after) :
    Sound (some range) { sys with handles := before ++ after } A := by
  have fewer : ∀ other ∈ before ++ after, other ∈ sys.handles := by
    intro other member
    rw [held]
    rcases mem_append.mp member with left | right
    · exact mem_append_left _ left
    · exact mem_append_right _ (.tail _ right)
  refine { sound with live := fun live => sound.live (live.imp_left (fewer _)), held := fun {node other} known => ?_ }
  obtain ⟨isNode, isHeld, placed⟩ := sound.held known
  refine ⟨isNode, ?_, placed⟩
  rcases isHeld.resolve_right nofun with handle | region
  · rw [held] at handle
    rcases mem_append.mp handle with left | right
    · exact .inl (.inl (mem_append_left _ left))
    · rcases mem_cons.mp right with rfl | right
      · exact .inr rfl
      · exact .inl (.inl (mem_append_right _ right))
  · exact .inl (.inr region)

theorem OpStep.unchanged (step : OpStep sys op sys') :
    sys'.handedOut = sys.handedOut ∧ sys'.kernelHalf = sys.kernelHalf := by
  have released : ∀ {range} {before after : MemorySystem}, Release range before after →
      after.handedOut = before.handedOut ∧ after.kernelHalf = before.kernelHalf := by
    intro range before after release
    rw [release.same]
    exact ⟨rfl, rfl⟩
  cases step with
  | release _ release | remove _ _ release =>
    have unchanged := released release
    exact unchanged
  | drop removed found run =>
    clear found run
    induction removed with
    | nil => exact ⟨rfl, rfl⟩
    | cons _ _ _ release _ ih =>
      obtain ⟨handed, half⟩ := released release
      exact ⟨ih.1.trans handed, ih.2.trans half⟩
  | create | pages | add | createEmpty | buildEmpty | createFrom | setProt => exact ⟨rfl, rfl⟩

def MemorySystem.KeepsHalf (sys : MemorySystem) (id : Nat) (ns : MemoryNamespace) : Prop :=
  ∃ ns', sys.space.namespaces id = some ns' ∧ ns'.pageTreeRoot = ns.pageTreeRoot ∧ ∀ i, 256 ≤ i → ns'.top i = ns.top i

theorem MemorySystem.KeepsHalf.of_eq (found : sys.space.namespaces id = some ns) : sys.KeepsHalf id ns :=
  ⟨ns, found, rfl, fun _ _ => rfl⟩

theorem opStep_half (step : OpStep sys op sys') (regular : op.Regular sys) (sound : Sound none sys A)
    (found : sys.space.namespaces id = some ns) (stays : op ≠ .drop id) : sys'.KeepsHalf id ns := by
  have old : id ≠ sys.space.namespaceIdCounter := (sound.filed found).1.ne
  -- another namespace in the place of the same one
  have replaced : ∀ {other} {ns1 ns2 : MemoryNamespace} {tables : TableMem}, sys.space.namespaces other = some ns1 →
      ns2.pageTreeRoot = ns1.pageTreeRoot → (∀ i, 256 ≤ i → ns2.top i = ns1.top i) →
      ((sys.withTables tables).setNamespace other (some ns2)).KeepsHalf id ns := by
    intro other ns1 ns2 tables there root half
    by_cases same : id = other
    · subst same
      cases found.symm.trans there
      exact ⟨ns2, setNamespace_self, root, half⟩
    · exact .of_eq ((setNamespace_of_ne same).trans found)
  cases step with
  | create run => exact .of_eq found
  | release held release =>
    rw [release.same]
    exact .of_eq found
  | pages live run =>
    rw [rangeOp_same run]
    exact .of_eq found
  | add live there run =>
    obtain ⟨-, -, -, half, root, -⟩ := sound.add live there regular.1 regular.2 run
    exact replaced there root half
  | remove there run release =>
    obtain ⟨-, -, -, root, half⟩ := sound.remove there run
    rw [release.same]
    exact replaced there root half
  | createEmpty | buildEmpty | createFrom => exact .of_eq ((setNamespace_of_ne old).trans found)
  | @drop mid other last tables removed there run =>
    have away : id ≠ other := by
      rintro rfl
      exact stays rfl
    obtain ⟨-, -, -, -, -, -, -, -, -, -, others⟩ := Sound.removeAll removed sound
    exact .of_eq (((setNamespace_of_ne away).trans (others id away)).trans found)
  | setProt there run =>
    obtain ⟨rfl, rfl⟩ := sound.setProt_same there (regular.2 _ there) regular.1 run
    exact replaced there rfl fun _ _ => rfl

theorem opStep_sound (step : OpStep sys op sys') (regular : op.Regular sys) (sound : Sound none sys A) :
    ∃ A', Sound none sys' A' ∧ Kept (op.Tight sys A.Bare A.Unmapped) sys A sys' A' := by
  cases step with
  | create run =>
    obtain ⟨sound', kept⟩ := sound.create run
    exact ⟨_, sound', kept.weaken fun _ => trivial⟩
  | @release _ range before after held release =>
    have known : ∀ other, some range = some other → A.ranges other.node = some other := by
      rintro other eq
      cases eq
      exact sound.live (.inl (held ▸ mem_append_right _ (.head _)))
    obtain ⟨A', sound', kept, -⟩ := (sound.dropHandle held).release known release
    refine ⟨A', sound', ⟨kept.account, fun tight => kept.filled ?_⟩⟩
    rintro other eq
    cases eq
    exact tight before after held
  | pages live run =>
    obtain ⟨place', sound', kept, -⟩ := sound.pages live run
    exact ⟨_, sound', kept⟩
  | add live found run =>
    obtain ⟨place', sound', frames, -⟩ := sound.add live found regular.1 regular.2 run
    exact ⟨_, sound', frames.account, fun _ => frames.filled⟩
  | @remove _ id key ns ns' removed tables found run release =>
    obtain ⟨sound1, kept1, isRemoved, -⟩ := sound.remove found run
    have known : ∀ range, removed.map (·.sharedRange) = some range → A.ranges range.node = some range := by
      intro range eq
      obtain ⟨r, rfl, rfl⟩ := Option.map_eq_some_iff.mp eq
      refine sound.live (sys.live_of_region found ?_)
      exact (isRemoved r rfl).2.mem_iff.mpr (.head _)
    obtain ⟨A', sound', kept', -⟩ := sound1.release known release
    refine ⟨A', sound', (kept1.trans kept').weaken fun tight => ⟨trivial, fun range eq => ?_⟩⟩
    obtain ⟨r, rfl, rfl⟩ := Option.map_eq_some_iff.mp eq
    obtain ⟨passes, perm⟩ := isRemoved r rfl
    refine (tight ns r ns'.memoryRanges found passes perm).imp_left fun elsewhere => (live_iff id).mpr ?_
    exact elsewhere.imp liveOutside_replaced.mpr fun ⟨r', member, same⟩ => ⟨ns', r', setNamespace_self, member, same⟩
  | createEmpty run =>
    obtain ⟨f, rest, offer, -, rfl, rfl⟩ := createEmpty_eq_some.mp run
    refine ⟨_, And.imp_right (Kept.weaken · fun _ => trivial) (sound.install _ offer rfl rfl ?_)⟩
    exact fun _ _ => (by decide : present 0 = false)
  | buildEmpty run =>
    obtain ⟨f, rest, offer, -, rfl, rfl⟩ := createEmpty_eq_some.mp run
    refine ⟨_, And.imp_right (Kept.weaken · fun _ => trivial) (sound.install _ offer rfl rfl ?_)⟩
    exact fun i low => (congrArg present (if_neg (by omega))).trans (by decide : present 0 = false)
  | createFrom found run =>
    obtain ⟨A', sound', kept, -⟩ := sound.createFrom found run
    exact ⟨A', sound', kept.weaken fun _ => trivial⟩
  | drop removed found run =>
    obtain ⟨A1, sound1, kept1, ns, ns', before, after, empty, -, half, -⟩ := Sound.removeAll removed sound
    cases after.symm.trans found
    obtain ⟨A', sound', kept'⟩ := sound1.dropTree after empty
      (fun i high low => by rw [half i high]; exact regular ns before i high low) run
    exact ⟨A', sound', (kept1.trans kept').weaken fun tight => ⟨tight, trivial⟩⟩
  | setProt found run =>
    obtain ⟨rfl, rfl⟩ := sound.setProt_same found (regular.2 _ found) regular.1 run
    have same := sys.setNamespace_eq_self found
    exact ⟨A, same.symm ▸ sound, same.symm ▸ .refl ..⟩

/-! ## Runs -/

theorem Sound.countTaken (sound : Sound none sys A) (pool : List Nat) : Sound none (sys.countTaken pool) A :=
  { sound with }

theorem Sound.countNamespace (sound : Sound none sys A) : Sound none sys.countNamespace A :=
  { sound with
    filed := fun found => ⟨Nat.lt_succ_of_lt (sound.filed found).1, (sound.filed found).2⟩
    traces := fun past => ⟨Nat.lt_succ_of_lt (sound.traces past).1, (sound.traces past).2⟩ }

structure Fresh (sys : MemorySystem) : Prop where
  namespaces : ∀ id, sys.space.namespaces id = none
  handles : sys.handles = []
  history : sys.history = []
  pool : sys.space.tables.pool = []

theorem Fresh.sound (fresh : Fresh sys) : Sound none sys ⟨fun _ => none, fun _ => none⟩ := by
  have absent : ∀ {id ns}, sys.space.namespaces id ≠ some ns := fun {id ns} found => by
    rw [fresh.namespaces] at found
    cases found
  have unlinked : ∀ {o l c g}, ¬ (sys.setting fun _ => none).link o l c g := fun ⟨_, _, _, _, found, _⟩ => absent found
  have isChart : Chart (sys.setting fun _ => none) sys.space.tables fun _ => none := by
    refine ⟨⟨?_, ?_, ?_, fun isLink => absurd isLink unlinked, fun isLink => absurd isLink unlinked⟩, ?_, ?_, ?_, ?_,
      fun _ _ _ => by simp, fun isLink => absurd isLink unlinked⟩
    case refine_6 =>
      rw [fresh.pool]
      exact .nil
    case refine_7 =>
      intro f member
      rw [fresh.pool] at member
      cases member
    all_goals
      intros
      contradiction
  refine ⟨isChart, fun found => absurd found absent, ?_, ?_, ?_, ?_, fun found => absurd found absent,
    fun found => absurd found absent, ?_, ?_⟩
  case refine_2 =>
    rintro range (held | ⟨id, ns, r, found, -⟩)
    · rw [fresh.handles] at held
      cases held
    · exact absurd found absent
  case refine_6 =>
    intro id k a member
    rw [fresh.history] at member
    cases member
  all_goals
    intros
    contradiction

theorem MemoryOp.Regular.withPool (regular : op.Regular sys) (pool : List Nat) : op.Regular (sys.withPool pool) := by
  cases op <;> exact regular

theorem memoryStep_sound (step : MemoryStep sys pool op sys') (regular : op.Regular sys) (sound : Sound none sys A) :
    ∃ A', Sound none sys' A' := by
  cases step with
  | mk offered step =>
    obtain ⟨A', sound', -⟩ := opStep_sound step (regular.withPool pool) (sound.withPool offered)
    exact ⟨A', sound'.countTaken pool⟩

theorem memoryStep_half (step : MemoryStep sys pool op sys') (regular : op.Regular sys) (sound : Sound none sys A)
    (found : sys.space.namespaces id = some ns) (stays : op ≠ .drop id) : sys'.KeepsHalf id ns := by
  cases step with
  | mk offered step =>
    have half := opStep_half step (regular.withPool pool) (sound.withPool offered) found stays
    exact half

theorem MemoryStep.kernelHalf (step : MemoryStep sys pool op sys') : sys'.kernelHalf = sys.kernelHalf := by
  cases step with
  | mk _ step => exact step.unchanged.2

/-- Every state that regular operations lead to satisfies the invariant. -/
theorem MemoryRun.sound {ops : List (List Nat × MemoryOp)}
    (run : MemoryRun (fun sys op => op.Regular sys) sys ops sys') (fresh : Fresh sys) : ∃ A, Sound none sys' A := by
  induction run with
  | nil => exact ⟨_, fresh.sound⟩
  | snoc _ regular step ih =>
    obtain ⟨A, sound⟩ := ih
    exact memoryStep_sound step regular sound

end MeowOs.Memory
