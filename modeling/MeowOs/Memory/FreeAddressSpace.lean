import MeowOs.Memory.MemoryScripts

/-! # Holes that cannot be used

`find_hole` looks at the list of regions, `add_mem_range` also at the entry of
the page tree.  The tables on the way to a region stay when the region is
removed, so that the entry for a larger region in their place leads to a table.
With enough frames on offer, a hole takes a region exactly if no smaller region
was ever accepted inside of it (`hole_takes_region_iff`).
-/

namespace MeowOs.Memory

open MeowOs.Machine PageTableEntry TableMem

/-! ## What is left in a hole -/

theorem Sound.table_iff_history {sys : MemorySystem} {A : Atlas} {id l a : Nat} {ns : MemoryNamespace}
    (sound : Sound none sys A) (found : sys.space.namespaces id = some ns) (lower : l < 4) :
    (∃ f, A.place f = some ⟨.space id, l, blockAt l a⟩) ↔
      ∃ k b, (id, k, b) ∈ sys.history ∧ k < l ∧ blockAt l b = blockAt l a := by
  constructor
  · rintro ⟨f, placed⟩
    exact sound.origin placed lower
  rintro ⟨k, b, member, below, block⟩
  obtain ⟨f, table⟩ := (sound.traces member).2 ns found
  have above := sound.chart.ancestor table (show k + 1 ≤ l by omega) (by omega)
  rwa [block] at above

theorem Sound.entry_iff_table {sys : MemorySystem} {A : Atlas} {id l a : Nat} (sound : Sound none sys A) (lower : l < 4)
    (unlinked : ∀ g, ¬ (sys.setting A.ranges).link (.space id) l (blockAt l a) g) :
    (∃ t, A.place t = some ⟨.space id, l + 1, blockAt (l + 1) a⟩ ∧
        present ((sys.setting A.ranges).view sys.space.tables.entries A.place t (slotAt l a)) = true) ↔
      ∃ f, A.place f = some ⟨.space id, l, blockAt l a⟩ := by
  constructor
  · rintro ⟨t, table, there⟩
    have down := sound.chart.forest.down table (slotAt_lt l a) (next_eq_some_iff.mpr ⟨there, rfl⟩)
    rw [blockAt_split] at down
    exact ⟨_, down.resolve_left (unlinked _)⟩
  · rintro ⟨f, placed⟩
    rcases sound.chart.forest.up placed with ⟨top, -⟩ | ⟨-, t, table, step⟩
    · change l = 4 at top
      omega
    · rw [← blockAt_succ] at table
      rw [← slotAt_eq_blockAt, next_eq_some_iff] at step
      exact ⟨t, table, step.1⟩

/-- After every sequence of regular operations, a hole in the lower half takes a region under an unused name exactly if
no smaller region was ever accepted inside of it. -/
theorem hole_takes_region_iff {sys sys' : MemorySystem} {ops : List (List Nat × MemoryOp)} (fresh : Fresh sys)
    (run : MemoryRun (fun sys op => op.Regular sys) sys ops sys') {id a : Nat} {ns : MemoryNamespace}
    {range : VirtualMemoryRange} {name : String} {rangeType : MemoryRangeType} {pool : List Nat}
    (found : sys'.space.namespaces id = some ns) (live : sys'.Live range)
    (hole : ns.findHole range.capacity = some (some a)) (unused : ∀ r ∈ ns.memoryRanges, r.name ≠ name)
    (low : a + range.capacity.size ≤ 2 ^ 47) (offered : Offered sys' pool) (enough : 3 ≤ pool.length)
    (counter : ns.rangeCounter + 1 < 2 ^ 32) :
    (∃ ns' rangeId tables, ns.addMemRange range name rangeType a { sys'.space.tables with pool := pool } =
        some ((ns', some rangeId), tables)) ↔
      ∀ k b, (id, k, b) ∈ sys'.history → k < range.level → ¬ (a ≤ b ∧ b < a + range.capacity.size) := by
  obtain ⟨A, sound⟩ := run.sound fresh
  replace sound := sound.withPool offered
  obtain ⟨fits, -⟩ := (MemoryNamespace.findHoleFrom_spec (by omega) hole).1 a rfl
  have size := range.capacity.size_pos
  have lower : range.level < 4 := Nat.lt_succ_of_le range.level_le
  have found' : (sys'.withPool pool).space.namespaces id = some ns := found
  have links := (sys'.withPool pool).link_iff (R := A.ranges) found'
  have proper := sound.proper found'
  have unlinked := not_linked_of_apart links proper (by omega)
    fun r member => (fits.apart r member).symm
  have legal : ns.illegalMap name a (a + range.capacity.size) = false := by
    refine List.any_eq_false.mpr fun r member => ?_
    have apart := fits.apart r member
    simp only [Bool.or_eq_true, beq_iff_eq, unused r member, Bool.and_eq_true, decide_eq_true_eq, false_or]
    omega
  -- a refusal comes from the entry, and that is present for a table which a smaller region has left
  have refused : Refused ((sys'.withPool pool).setting A.ranges) id ns range name a (sys'.withPool pool).space.tables A.place ↔
      ∃ k b, (id, k, b) ∈ sys'.history ∧ k < range.level ∧ blockAt range.level b = blockAt range.level a := by
    unfold Refused
    rw [legal, sound.entry_iff_table lower (unlinked _), sound.table_iff_history found' lower]
    simp only [Bool.false_eq_true, false_or]
    rfl
  have block : ∀ b, blockAt range.level b = blockAt range.level a ↔ a ≤ b ∧ b < a + range.capacity.size :=
    fun b => eq_comm.trans (blockAt_inside fits.aligned)
  have clear : ¬ Refused ((sys'.withPool pool).setting A.ranges) id ns range name a (sys'.withPool pool).space.tables
      A.place ↔ ∀ k b, (id, k, b) ∈ sys'.history → k < range.level → ¬ (a ≤ b ∧ b < a + range.capacity.size) := by
    rw [refused]
    simp [block]
  rw [← clear]
  rcases addMemRange_spec name rangeType sound.chart (sound.rooted found') links proper low
    (MemorySystem.height_range (sound.live live)) (sound.node live) with
    ⟨-, few | many⟩ | ⟨run, no, -⟩ | ⟨ns', tables, place', run, yes, -⟩
  · exact absurd enough (Nat.not_le_of_lt few)
  · omega
  · refine iff_of_false ?_ (not_not_intro no)
    rintro ⟨ns'', rangeId, tables', accepted⟩
    cases run.symm.trans accepted
  · exact iff_of_true ⟨ns', ns.rangeCounter, tables, run⟩ yes

def leftTable (mapAddress : Nat) : List (List Nat × MemoryOp) :=
  let page : VirtualMemoryRange := ⟨0x2000, .c4KB, 3, .manual⟩
  [([0x2000], .create .c4KB 3 .manual), ([0x3000], .createEmpty),
    ([0x4000, 0x5000, 0x6000], .add 1 page "page" .rwData mapAddress), ([], .remove 1 (.name "page")),
    ([0x7000], .create .c2MB 3 .manual)]

theorem hole_takes_region_iff_beside : ∃ sys' ns, MemoryRun (fun sys op => op.Regular sys) bareSystem (leftTable 0x1000) sys' ∧
    sys'.space.namespaces 1 = some ns ∧ ns.findHole .c2MB = some (some 0x200000) ∧
    ∃ ns' rangeId tables, ns.addMemRange ⟨0x7000, .c2MB, 3, .manual⟩ "new" .rwData 0x200000
      { sys'.space.tables with pool := [0x8000, 0x9000, 0xa000] } = some ((ns', some rangeId), tables) := by
  obtain ⟨sys', ns, isRun, found, unused, counter, hole, held, offered, history⟩ :
      ∃ sys' ns, MemoryRun (fun sys op => op.Regular sys) bareSystem (leftTable 0x1000) sys' ∧
        sys'.space.namespaces 1 = some ns ∧ (∀ r ∈ ns.memoryRanges, r.name ≠ "new") ∧ ns.rangeCounter + 1 < 2 ^ 32 ∧
        ns.findHole .c2MB = some (some 0x200000) ∧ ⟨0x7000, .c2MB, 3, .manual⟩ ∈ sys'.handles ∧
        Offered sys' [0x8000, 0x9000, 0xa000] ∧ sys'.history = [(1, 0, 0x1000)] :=
    runScript_holds MemoryOp.regular_of_isRegular bareSystem_filed (by decide +kernel)
  refine ⟨sys', ns, isRun, found, hole, ?_⟩
  refine (hole_takes_region_iff bareSystem_fresh isRun found (.inl held) hole unused (by decide) offered (by decide)
    counter).mpr fun k b member _ inside => ?_
  obtain ⟨-, -, rfl⟩ : 1 = 1 ∧ k = 0 ∧ b = 0x1000 := by simpa [history] using member
  exact absurd inside.1 (by decide)

/-- The hole around it does not take a region of 2 MB, although there is no region in the namespace. -/
theorem left_table_blocks_hole : ∃ sys' ns, MemoryRun (fun sys op => op.Regular sys) bareSystem (leftTable 0x201000) sys' ∧
    sys'.space.namespaces 1 = some ns ∧ ns.memoryRanges = [] ∧ sys'.Live ⟨0x7000, .c2MB, 3, .manual⟩ ∧
    ns.findHole .c2MB = some (some 0x200000) ∧
    ∃ ns' tables, ns.addMemRange ⟨0x7000, .c2MB, 3, .manual⟩ "new" .rwData 0x200000
      { sys'.space.tables with pool := [0x8000, 0x9000, 0xa000] } = some ((ns', none), tables) := by
  obtain ⟨sys', ns, isRun, found, regions, held, hole, added⟩ :
      ∃ sys' ns, MemoryRun (fun sys op => op.Regular sys) bareSystem (leftTable 0x201000) sys' ∧ sys'.space.namespaces 1 = some ns ∧
        ns.memoryRanges.length = 0 ∧ ⟨0x7000, .c2MB, 3, .manual⟩ ∈ sys'.handles ∧ ns.findHole .c2MB = some (some 0x200000) ∧
        (ns.addMemRange ⟨0x7000, .c2MB, 3, .manual⟩ "new" .rwData 0x200000
          { sys'.space.tables with pool := [0x8000, 0x9000, 0xa000] }).map (·.1.2) = some none :=
    runScript_holds MemoryOp.regular_of_isRegular bareSystem_filed (by decide +kernel)
  obtain ⟨⟨⟨ns', -⟩, tables⟩, added, rfl⟩ := Option.map_eq_some_iff.mp added
  exact ⟨sys', ns, isRun, found, List.length_eq_zero_iff.mp regions, .inl held, hole, ns', tables, added⟩

end MeowOs.Memory
