import MeowOs.Memory.MemoryScripts

/-! # What the tree of a namespace means

The walk of an address through the tree of a namespace ends where the region of
the address has it, and nowhere if there is no such region
(`tree_is_union_of_regions`); and the rights that the entries on the way give
together are those of the range (`rights_are_enforced_iff`).

Both hold after every sequence of operations that adds regions at multiples of
their sizes below `2 ^ 47`.  Higher up, the namespaces of two processes share
their tables, and a region of one can end up inside of a region of the other
(`nested_regions_escape`).
-/

namespace MeowOs.Memory

open MeowOs.Machine PageTableEntry TableMem

/-- The tables as the processor finds them, with the root table of the namespace in its frame. -/
def MemoryNamespace.tree (ns : MemoryNamespace) (entries : Nat → Nat → Nat) : Nat → Nat → Nat :=
  Function.update entries ns.pageTreeRoot ns.top

/-! ## Addresses -/

theorem VirtualMemoryRange.level_eq_zero {range : VirtualMemoryRange} : range.level = 0 ↔ range.capacity = .c4KB := by
  unfold VirtualMemoryRange.level
  cases range.capacity <;> simp [VirtualMemoryRangeCapacity.intoLevel]

section Walk

variable {σ : Setting} {s : TableMem} {place : Places} {E : Nat → Nat → Nat} {a l n t : Nat} {o : Owner}

theorem translateFrom_succ (E : Nat → Nat → Nat) (a level t : Nat) : translateFrom E a (level + 1) t =
      if !present (E t (slotAt level a)) then none
      else if hugePage (E t (slotAt level a)) then some (address (E t (slotAt level a)) + a % 2 ^ (12 + 9 * level))
      else translateFrom E a level (address (E t (slotAt level a))) := by
  rw [translateFrom]
  simp only [offset_eq_slotAt]

theorem translateFrom_step (isChart : Chart σ s place) (table : place t = some ⟨o, l + 1, n⟩)
    (same : E t (slotAt l a) = σ.view s.entries place t (slotAt l a)) :
    translateFrom E a (l + 1) t = (σ.next s.entries place t (slotAt l a)).bind fun f => translateFrom E a l f := by
  rw [translateFrom_succ, same]
  cases there : present (σ.view s.entries place t (slotAt l a)) with
  | false =>
    rw [next_eq_none_iff.mpr there]
    rfl
  | true =>
    have leads := isChart.entries table (slotAt_lt l a) there
    rw [leads.small, (next_eq_some_iff (f := address (σ.view s.entries place t (slotAt l a)))).mpr ⟨there, rfl⟩]
    rfl

theorem Chart.child {i f : Nat} (isChart : Chart σ s place) (table : place t = some ⟨o, l + 1, n⟩)
    (lt : i < 512) (step : σ.next s.entries place t i = some f) : ∃ o' n', place f = some ⟨o', l, n'⟩ := by
  rcases isChart.forest.down table lt step with isLink | child
  · obtain ⟨o', -, -, root⟩ := isChart.forest.target isLink
    exact ⟨o', 0, root⟩
  · exact ⟨o, _, child⟩

theorem translateFrom_eq_descend (isChart : Chart σ s place) (lower : l ≤ 3)
    (same : ∀ {x o l n}, place x = some ⟨o, l + 1, n⟩ → l < 3 → E x = s.entries x) (placed : place t = some ⟨o, l, n⟩) :
    translateFrom E a l t = (TableForest.descend 512 (σ.next s.entries place) l t (a / 4096)).map (· + a % 4096) := by
  induction l generalizing t o n with
  | zero => rfl
  | succ l ih =>
    have view : E t (slotAt l a) = σ.view s.entries place t (slotAt l a) := by
      rw [view_lower placed (by omega), same placed lower]
    rw [translateFrom_step isChart placed view, TableForest.descend_succ, ← slotAt_eq]
    cases step : σ.next s.entries place t (slotAt l a) with
    | none => rfl
    | some f =>
      obtain ⟨o', n', child⟩ := isChart.child placed (slotAt_lt l a) step
      exact ih (by omega) child

theorem translateFrom_sub {c : VirtualMemoryRangeCapacity} {m : Nat} (aligned : c.size ∣ m) (le : m ≤ a) :
    ∀ {l : Nat} (t : Nat), l ≤ c.intoLevel → translateFrom E (a - m) l t = translateFrom E a l t := by
  obtain ⟨b, rfl⟩ := Nat.exists_eq_add_of_le le
  obtain ⟨k, rfl⟩ := aligned
  have shape : c.size * k + b = b + 2 ^ (12 + 9 * c.intoLevel) * k := by
    rw [two_pow_level, VirtualMemoryRangeCapacity.size, Nat.add_comm]
  rw [Nat.add_sub_cancel_left, shape]
  have multiple : ∀ {j}, j ≤ c.intoLevel →
      2 ^ (12 + 9 * c.intoLevel) * k = 2 ^ (12 + 9 * j) * (512 ^ (c.intoLevel - j) * k) := by
    intro j le
    rw [← Nat.mul_assoc, two_pow_level, two_pow_level, Nat.mul_assoc 4096 (512 ^ j), ← pow_add, Nat.add_sub_cancel' le]
  intro l
  induction l with
  | zero =>
    intro t _
    have page := multiple (Nat.zero_le c.intoLevel)
    rw [translateFrom, translateFrom, page, Nat.mul_zero, Nat.add_zero, Nat.add_mul_mod_self_left]
  | succ l ih =>
    intro t le
    have whole := multiple (Nat.le_of_succ_le le)
    have slot : slotAt l (b + 2 ^ (12 + 9 * c.intoLevel) * k) = slotAt l b := by
      obtain ⟨d, isLevel⟩ : ∃ d, c.intoLevel - l = d + 1 := ⟨c.intoLevel - l - 1, by omega⟩
      unfold slotAt
      rw [whole, Nat.add_mul_div_left _ _ (by positivity), isLevel, pow_succ, Nat.mul_comm (512 ^ d), Nat.mul_assoc,
        Nat.add_mul_mod_self_left]
    rw [translateFrom_succ, translateFrom_succ, slot, whole, Nat.add_mul_mod_self_left, ← whole]
    rw [ih _ (by omega)]

end Walk

section Regions

variable {sys sys' : MemorySystem} {A : Atlas} {id : Nat} {ns : MemoryNamespace} {a : Nat}

section

variable (sound : Sound none sys A) (found : sys.space.namespaces id = some ns) {r : OwnedVirtualMemoryRange}

include sound found

theorem Sound.link_inside (member : r ∈ ns.memoryRanges) :
    blockAt r.sharedRange.level r.mapAddress = blockAt r.sharedRange.level a ↔ r.mapAddress ≤ a ∧ a < r.stop :=
  blockAt_inside (sound.proper found r member).aligned

theorem Sound.tree_lower {x l n : Nat} {o : Owner} (placed : A.place x = some ⟨o, l + 1, n⟩) (lower : l < 3) :
    ns.tree sys.space.tables.entries x = sys.space.tables.entries x := by
  refine Function.update_of_ne ?_ _ _
  rintro rfl
  rw [(sound.filed found).2] at placed
  cases placed
  omega

theorem Sound.translate_eq_descend (low : a < 2 ^ 47) :
    translateVirtPhysAddr sys.space.tables.hhdm (ns.tree sys.space.tables.entries) a ns.pageTreeRoot =
      (TableForest.descend 512 ((sys.setting A.ranges).next sys.space.tables.entries A.place) 4 ns.pageTreeRoot
        (a / 4096)).map (· + a % 4096) := by
  have higher := sys.space.tables.hhdm.higher
  have rooted := sound.rooted found
  obtain ⟨-, small⟩ := slotAt_three low
  have view : ns.tree sys.space.tables.entries ns.pageTreeRoot (slotAt 3 a) =
      (sys.setting A.ranges).view sys.space.tables.entries A.place ns.pageTreeRoot (slotAt 3 a) := by
    rw [rooted.view small, MemoryNamespace.tree, Function.update_self]
  rw [translateVirtPhysAddr, if_neg (by omega), translateFrom_step sound.chart rooted.root view,
    TableForest.descend_succ, ← slotAt_eq]
  cases step : (sys.setting A.ranges).next sys.space.tables.entries A.place ns.pageTreeRoot (slotAt 3 a) with
  | none => rfl
  | some f =>
    obtain ⟨o, n, child⟩ := sound.chart.child rooted.root (slotAt_lt 3 a) step
    exact translateFrom_eq_descend sound.chart (le_refl 3) (sound.tree_lower found) child

theorem Sound.translate_region (member : r ∈ ns.memoryRanges) (inside : r.mapAddress ≤ a ∧ a < r.stop) :
    translateVirtPhysAddr sys.space.tables.hhdm (ns.tree sys.space.tables.entries) a ns.pageTreeRoot =
      translateFrom sys.space.tables.entries (a - r.mapAddress) r.sharedRange.level r.sharedRange.node := by
  have proper := sound.proper found r member
  have low := proper.low
  have isLink : (sys.setting A.ranges).link (.space id) r.sharedRange.level
      (a / 4096 / 512 ^ r.sharedRange.level) r.sharedRange.node :=
    (sys.link_iff found _ _ _).mpr ⟨r, member, rfl, (sound.link_inside found member).mpr inside, rfl⟩
  have node := sound.node (sys.live_of_region found member)
  have offset : translateFrom sys.space.tables.entries (a - r.mapAddress) r.sharedRange.level r.sharedRange.node =
      translateFrom sys.space.tables.entries a r.sharedRange.level r.sharedRange.node :=
    translateFrom_sub proper.aligned inside.1 _ (le_refl _)
  rw [sound.translate_eq_descend found (by omega), offset,
    translateFrom_eq_descend sound.chart r.sharedRange.level_le (fun _ _ => rfl) node]
  exact congrArg _ (sound.chart.forest.descend_link (sound.filed found).2 isLink)

theorem Sound.translate_outside
    (low : a < 2 ^ 47) (outside : ∀ r ∈ ns.memoryRanges, ¬ (r.mapAddress ≤ a ∧ a < r.stop)) :
    translateVirtPhysAddr sys.space.tables.hhdm (ns.tree sys.space.tables.entries) a ns.pageTreeRoot = none := by
  have root : A.place ns.pageTreeRoot = some ⟨.space id, 4, a / 4096 / 512 ^ 4⟩ := by
    rw [show a / 4096 / 512 ^ 4 = 0 from blockAt_four low]
    exact (sound.filed found).2
  rw [sound.translate_eq_descend found low, sound.chart.forest.descend_unlinked (by omega) ?_
    (fun x c => sound.chart.leafless x id c) root]
  · rfl
  · intro k g isLink
    obtain ⟨r, member, rfl, block, -⟩ := (sys.link_iff found _ _ _).mp isLink
    exact outside r member ((sound.link_inside found member).mp block)

end

end Regions

/-- After every sequence of regular operations, the tree of a namespace is the union of its regions: an address in a
region is found where the range has it, and an address in none is not found. -/
theorem tree_is_union_of_regions {sys sys' : MemorySystem} {ops : List (List Nat × MemoryOp)} (fresh : Fresh sys)
    (run : MemoryRun (fun sys op => op.Regular sys) sys ops sys') {id : Nat} {ns : MemoryNamespace}
    (found : sys'.space.namespaces id = some ns) {a : Nat} (low : a < 2 ^ 47) :
    (∀ r ∈ ns.memoryRanges, r.mapAddress ≤ a ∧ a < r.stop →
      translateVirtPhysAddr sys'.space.tables.hhdm (ns.tree sys'.space.tables.entries) a ns.pageTreeRoot =
        translateFrom sys'.space.tables.entries (a - r.mapAddress) r.sharedRange.level r.sharedRange.node) ∧
    ((∀ r ∈ ns.memoryRanges, ¬ (r.mapAddress ≤ a ∧ a < r.stop)) →
      translateVirtPhysAddr sys'.space.tables.hhdm (ns.tree sys'.space.tables.entries) a ns.pageTreeRoot = none) := by
  obtain ⟨A, sound⟩ := run.sound fresh
  exact ⟨fun r member inside => sound.translate_region found member inside, sound.translate_outside found low⟩

def oneRegion (capacity : VirtualMemoryRangeCapacity) (perms : Nat) : List (List Nat × MemoryOp) :=
  let range : VirtualMemoryRange := ⟨0x2000, capacity, perms, .manual⟩
  [([0x2000], .create capacity perms .manual), ([0x3000], .createEmpty),
    ([0x4000, 0x5000, 0x6000], .add 1 range "data" .rwData 0x200000),
    ([0x7000], .pages range (.allocateManualExternal 0 1))]

theorem tree_is_union_of_regions_data : ∃ sys' ns,
    MemoryRun (fun sys op => op.Regular sys) bareSystem (oneRegion .c2MB 3) sys' ∧ sys'.space.namespaces 1 = some ns ∧
    translateVirtPhysAddr sys'.space.tables.hhdm (ns.tree sys'.space.tables.entries) 0x200008 ns.pageTreeRoot =
      some 0x7008 ∧
    translateVirtPhysAddr sys'.space.tables.hhdm (ns.tree sys'.space.tables.entries) 0 ns.pageTreeRoot = none := by
  obtain ⟨sys', ns, isRun, found, ⟨r, isRegion, inside, page⟩, outside⟩ :
      ∃ sys' ns, MemoryRun (fun sys op => op.Regular sys) bareSystem (oneRegion .c2MB 3) sys' ∧
        sys'.space.namespaces 1 = some ns ∧ (∃ r ∈ ns.memoryRanges, (r.mapAddress ≤ 0x200008 ∧ 0x200008 < r.stop) ∧
          translateFrom sys'.space.tables.entries (0x200008 - r.mapAddress) r.sharedRange.level r.sharedRange.node =
            some 0x7008) ∧ ∀ r ∈ ns.memoryRanges, ¬ (r.mapAddress ≤ 0 ∧ 0 < r.stop) :=
    runScript_holds MemoryOp.regular_of_isRegular bareSystem_filed (by decide +kernel)
  refine ⟨sys', ns, isRun, found, ?_, ?_⟩
  · exact ((tree_is_union_of_regions bareSystem_fresh isRun found (by decide)).1 r isRegion inside).trans page
  · exact (tree_is_union_of_regions bareSystem_fresh isRun found (by decide)).2 outside

/-- Two processes that share the kernel's half: the first has 1 GB at the beginning of it, and the second 2 MB at the same
address, which are linked below the first one's tables.  Unmapping a page of the first frees the node of the second, which
becomes the lowest table for a page of the second at `0x1000`. -/
def nestedRegions : List (List Nat × MemoryOp) :=
  let outer : VirtualMemoryRange := ⟨0x2000, .c1GB, 3, .manual⟩
  let inner : VirtualMemoryRange := ⟨0x3000, .c2MB, 3, .manual⟩
  let page : VirtualMemoryRange := ⟨0x6000, .c4KB, 3, .manual⟩
  [([0x2000], .create .c1GB 3 .manual), ([0x3000], .create .c2MB 3 .manual), ([0x4000], .buildEmpty),
    ([0x5000], .buildEmpty), ([], .add 1 outer "outer" .rwData (2 ^ 47)), ([], .add 2 inner "inner" .rwData (2 ^ 47)),
    ([], .pages outer (.freeManualExternal 0 1)), ([0x6000], .create .c4KB 3 .manual),
    ([0x7000, 0x8000, 0x3000], .add 2 page "page" .rwData 0x1000), ([0x9000], .pages inner (.allocateManualExternal 0 1))]

def MemoryOp.Aligned : MemoryOp → Prop
  | .add _ range _ _ mapAddress => range.capacity.size ∣ mapAddress
  | _ => True

instance : DecidablePred MemoryOp.Aligned
  | .add .. => inferInstanceAs (Decidable (_ ∣ _))
  | .create .. | .pages .. | .release .. | .createEmpty | .buildEmpty | .createFrom .. | .remove .. | .drop .. | .setProt .. =>
    .isTrue trivial

/-- A page of one region shows up at an address where there is no region. -/
theorem nested_regions_escape : ∃ sys' ns, MemoryRun (fun _ op => op.Aligned) bareSystem nestedRegions sys' ∧
    sys'.space.namespaces 2 = some ns ∧ (∀ r ∈ ns.memoryRanges, ¬ (r.mapAddress ≤ 0 ∧ 0 < r.stop)) ∧
    translateVirtPhysAddr sys'.space.tables.hhdm (ns.tree sys'.space.tables.entries) 0 ns.pageTreeRoot = some 0x9000 :=
  runScript_holds of_decide_eq_true bareSystem_filed (by decide +kernel)

/-! ## Rights -/

/-- The walk of the processor, with the rights to write and to execute that the entries on the way give together. -/
def walkRights (E : Nat → Nat → Nat) (addr : Nat) : Nat → Nat → Option (Nat × Bool × Bool)
  | 0, page => some (page + addr % 2 ^ 12, true, true)
  | level + 1, table =>
    let e := E table (slotAt level addr)
    if !present e then none
    else if hugePage e then some (address e + addr % 2 ^ (12 + 9 * level), writeable e, !noExecute e)
    else (walkRights E addr level (address e)).map fun r => (r.1, writeable e && r.2.1, !noExecute e && r.2.2)

theorem walkRights_fst (E : Nat → Nat → Nat) (a l t : Nat) :
    (walkRights E a l t).map (·.1) = translateFrom E a l t := by
  induction l generalizing t with
  | zero => rfl
  | succ l ih =>
    rw [translateFrom_succ, walkRights]
    split
    next => rfl
    split
    next => rfl
    · rw [← ih, Option.map_map]
      rfl

section Rights

variable {σ : Setting} {s : TableMem} {place : Places} {E : Nat → Nat → Nat} {a : Nat} {w x : Bool} {l n t phys : Nat}

theorem walkRights_step {o : Owner} (isChart : Chart σ s place)
    (table : place t = some ⟨o, l + 1, n⟩) (same : E t (slotAt l a) = σ.view s.entries place t (slotAt l a))
    (walk : walkRights E a (l + 1) t = some (phys, w, x)) :
    ∃ f w' x', σ.next s.entries place t (slotAt l a) = some f ∧ walkRights E a l f = some (phys, w', x') ∧
      w = ((σ.rights o l).1 && w') ∧ x = ((σ.rights o l).2 && x') := by
  rw [walkRights, same] at walk
  cases there : present (σ.view s.entries place t (slotAt l a)) with
  | false =>
    rw [there] at walk
    cases walk
  | true =>
    have leads := isChart.entries table (slotAt_lt l a) there
    rw [there, leads.small, if_neg (by decide), if_neg (by decide), leads.writeable, leads.noExecute, Bool.not_not] at walk
    obtain ⟨⟨phys', w', x'⟩, rest, isEnd⟩ := Option.map_eq_some_iff.mp walk
    obtain ⟨rfl, rfl, rfl⟩ : phys' = phys ∧ ((σ.rights o l).1 && w') = w ∧ ((σ.rights o l).2 && x') = x := by
      simpa using isEnd
    exact ⟨_, w', x', next_eq_some_iff.mpr ⟨there, rfl⟩, rest, rfl, rfl⟩

theorem walkRights_range {range : VirtualMemoryRange} (isChart : Chart σ s place)
    (known : σ.ranges range.node = some range)
    (same : ∀ {x o l n}, place x = some ⟨o, l + 1, n⟩ → l < 3 → E x = s.entries x) (lower : l ≤ 3)
    (placed : place t = some ⟨.range range.node, l, n⟩) (walk : walkRights E a l t = some (phys, w, x)) :
    (w, x) = if l = 0 then (true, true) else (range.perms.testBit 0, range.perms.testBit 1) := by
  induction l generalizing t n w x with
  | zero =>
    cases walk
    rfl
  | succ l ih =>
    have view : E t (slotAt l a) = σ.view s.entries place t (slotAt l a) := by
      rw [view_range placed, same placed lower]
    obtain ⟨f, w', x', step, rest, rfl, rfl⟩ := walkRights_step isChart placed view walk
    have child := (isChart.forest.down placed (slotAt_lt l a) step).resolve_left isChart.not_link
    have below := ih (by omega) child rest
    have rights : σ.rights (.range range.node) l =
        (decide (0 < l) || range.perms.testBit 0, range.perms.testBit 1) := by
      simp [Setting.rights, known]
    rw [rights, if_neg (Nat.succ_ne_zero l)]
    cases l with
    | zero =>
      cases below
      simp
    | succ l =>
      cases below
      simp

end Rights

theorem Sound.walkRights_space {sys : MemorySystem} {A : Atlas} {id a l t phys : Nat} {ns : MemoryNamespace} {w x : Bool}
    (sound : Sound none sys A) (found : sys.space.namespaces id = some ns) (low : a < 2 ^ 47)
    (placed : A.place t = some ⟨.space id, l, blockAt l a⟩)
    (walk : walkRights (ns.tree sys.space.tables.entries) a l t = some (phys, w, x)) :
    ∃ r ∈ ns.memoryRanges, (r.mapAddress ≤ a ∧ a < r.stop) ∧ (w, x) = if r.sharedRange.level = 0 then (true, true)
        else (r.sharedRange.perms.testBit 0, r.sharedRange.perms.testBit 1) := by
  induction l generalizing t w x with
  | zero => exact absurd placed (sound.chart.leafless _ _ _)
  | succ l ih =>
    have le := sound.chart.forest.level_le placed
    have view : ns.tree sys.space.tables.entries t (slotAt l a) =
        (sys.setting A.ranges).view sys.space.tables.entries A.place t (slotAt l a) := by
      by_cases top : l = 3
      · subst top
        rw [blockAt_four low] at placed
        have rooted := sound.rooted found
        rw [sound.chart.forest.single placed rooted.root, rooted.view (slotAt_three low).2,
          MemoryNamespace.tree, Function.update_self]
      · have lower : l < 3 := Nat.lt_of_le_of_ne (Nat.le_of_succ_le_succ le) top
        rw [view_lower placed (by omega), sound.tree_lower found placed lower]
    -- the entries of a namespace give all rights
    obtain ⟨f, w', x', step, rest, isWrite, isExecute⟩ := walkRights_step sound.chart placed view walk
    obtain rfl : w = w' := isWrite
    obtain rfl : x = x' := isExecute
    have down := sound.chart.forest.down placed (slotAt_lt l a) step
    rw [blockAt_split] at down
    rcases down with isLink | child
    · obtain ⟨r, member, isLevel, block, rfl⟩ := (sys.link_iff found _ _ _).mp isLink
      subst isLevel
      have live := sys.live_of_region found member
      exact ⟨r, member, (sound.link_inside found member).mp block,
        walkRights_range sound.chart (sound.live live) (sound.tree_lower found) r.sharedRange.level_le (sound.node live) rest⟩
    · exact ih child rest

/-- After every sequence of regular operations, a page of a region that is present can be written and executed exactly
as the region allows if the region is larger than a page, or allows both. -/
theorem rights_are_enforced_iff {sys sys' : MemorySystem} {ops : List (List Nat × MemoryOp)} (fresh : Fresh sys)
    (run : MemoryRun (fun sys op => op.Regular sys) sys ops sys') {id : Nat} {ns : MemoryNamespace}
    (found : sys'.space.namespaces id = some ns) {r : OwnedVirtualMemoryRange} (member : r ∈ ns.memoryRanges) {a : Nat}
    (inside : r.mapAddress ≤ a ∧ a < r.stop) {phys : Nat} {write execute : Bool}
    (page : walkRights (ns.tree sys'.space.tables.entries) a 4 ns.pageTreeRoot = some (phys, write, execute)) :
    (write = r.sharedRange.perms.testBit 0 ∧ execute = r.sharedRange.perms.testBit 1) ↔
      r.sharedRange.capacity ≠ .c4KB ∨ (r.sharedRange.perms.testBit 0 = true ∧ r.sharedRange.perms.testBit 1 = true) := by
  obtain ⟨A, sound⟩ := run.sound fresh
  have low : a < 2 ^ 47 := Nat.lt_of_lt_of_le inside.2 (sound.proper found r member).low
  have root : A.place ns.pageTreeRoot = some ⟨.space id, 4, blockAt 4 a⟩ := by
    rw [blockAt_four low]
    exact (sound.filed found).2
  obtain ⟨r', member', inside', rights⟩ := sound.walkRights_space found low root page
  -- regions are apart, so that the walk went through this one
  obtain rfl : r' = r := by
    by_contra ne
    have : Std.Symm OwnedVirtualMemoryRange.Apart := ⟨fun _ _ away => away.symm⟩
    have away := (sound.apart found).forall member' member ne
    unfold OwnedVirtualMemoryRange.Apart at away
    omega
  rw [Ne, ← VirtualMemoryRange.level_eq_zero]
  split at rights
  next small =>
    rw [Prod.mk.injEq] at rights
    rw [rights.1, rights.2]
    simp only [small, not_true_eq_false, false_or, eq_comm]
  next small =>
    rw [Prod.mk.injEq] at rights
    exact iff_of_true rights (.inl small)

theorem rights_are_enforced_iff_writeable : ∃ sys' ns phys write execute,
    MemoryRun (fun sys op => op.Regular sys) bareSystem (oneRegion .c2MB 1) sys' ∧ sys'.space.namespaces 1 = some ns ∧
    walkRights (ns.tree sys'.space.tables.entries) 0x200000 4 ns.pageTreeRoot = some (phys, write, execute) ∧
    write = true ∧ execute = false := by
  obtain ⟨sys', ns, isRun, found, ⟨r, isRegion, inside, isRange⟩, isPage⟩ :
      ∃ sys' ns, MemoryRun (fun sys op => op.Regular sys) bareSystem (oneRegion .c2MB 1) sys' ∧
        sys'.space.namespaces 1 = some ns ∧ (∃ r ∈ ns.memoryRanges, (r.mapAddress ≤ 0x200000 ∧ 0x200000 < r.stop) ∧
          r.sharedRange = ⟨0x2000, .c2MB, 1, .manual⟩) ∧
        (walkRights (ns.tree sys'.space.tables.entries) 0x200000 4 ns.pageTreeRoot).isSome = true :=
    runScript_holds MemoryOp.regular_of_isRegular bareSystem_filed (by decide +kernel)
  obtain ⟨⟨phys, write, execute⟩, page⟩ := Option.isSome_iff_exists.mp isPage
  have enforced := rights_are_enforced_iff bareSystem_fresh isRun found isRegion inside page
  rw [isRange] at enforced
  exact ⟨sys', ns, phys, write, execute, isRun, found, page, enforced.mpr (.inl (by decide))⟩

/-- The page of a 4 KB region that allows neither can be written and executed. -/
theorem small_region_grants_all : ∃ sys' ns,
    MemoryRun (fun sys op => op.Regular sys) bareSystem (oneRegion .c4KB 0) sys' ∧ sys'.space.namespaces 1 = some ns ∧
    (∃ r ∈ ns.memoryRanges, (r.mapAddress ≤ 0x200000 ∧ 0x200000 < r.stop) ∧ r.sharedRange.perms = 0) ∧
    walkRights (ns.tree sys'.space.tables.entries) 0x200000 4 ns.pageTreeRoot = some (0x2000, true, true) :=
  runScript_holds MemoryOp.regular_of_isRegular bareSystem_filed (by decide +kernel)

-- What the builder of a process does for a segment of code: the page of a region that allows writing only can be
-- executed, and not written.
example : ∃ sys' ns, MemoryRun (fun _ op => op.Aligned) bareSystem
      (oneRegion .c2MB 1 ++ [([], .setProt 1 0x200000 0x201000 2)]) sys' ∧
    sys'.space.namespaces 1 = some ns ∧ (∀ r ∈ ns.memoryRanges, r.sharedRange.perms = 1) ∧
    walkRights (ns.tree sys'.space.tables.entries) 0x200000 4 ns.pageTreeRoot = some (0x7000, false, true) :=
  runScript_holds of_decide_eq_true bareSystem_filed (by decide +kernel)

end MeowOs.Memory
