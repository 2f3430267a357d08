import MeowOs.Memory.BuddySoundness

/-! # Setting up the page allocator, and page exclusivity

`init` marks every page as used, clears the leaves of the pages of the usable
regions, without the pages it cut off for the tree, and computes the inner
nodes from the bottom up.  On a memory map as the bootloader guarantees it this
establishes the pool of `BuddySoundness` (`init_refines`), and every run of
calls keeps it, so that no page has two owners, every page handed out is usable
RAM and the tree itself is never handed out.
-/

namespace MeowOs.Memory.PhysicalAllocator

open MeowOs.Machine

/-- Of two regions that are or become usable the first ends before the second begins, if one of them is usable. -/
def MemoryMapEntry.Before (a b : MemoryMapEntry) : Prop :=
  a.isUsable = true ∨ b.isUsable = true → a.canBeUsable = true → b.canBeUsable = true → a.endAddr ≤ b.base

instance (a b : MemoryMapEntry) : Decidable (a.Before b) :=
  inferInstanceAs (Decidable (_ → _))

def MemoryMapEntry.PageAligned (entry : MemoryMapEntry) : Prop :=
  entry.base % 4096 = 0 ∧ entry.length % 4096 = 0

instance (entry : MemoryMapEntry) : Decidable entry.PageAligned :=
  inferInstanceAs (Decidable (_ ∧ _))

/-- What the bootloader guarantees: the entries are sorted by address, and a usable entry is page aligned and
overlaps no entry that is or becomes usable. -/
structure Guaranteed (memoryRegions : List MemoryMapEntry) : Prop where
  sorted : memoryRegions.Pairwise fun a b => a.base ≤ b.base
  aligned : ∀ entry ∈ memoryRegions, entry.isUsable = true → entry.PageAligned
  disjoint : memoryRegions.Pairwise MemoryMapEntry.Before

def InUsable (memoryRegions : List MemoryMapEntry) (addr : Nat) : Prop :=
  ∃ entry ∈ memoryRegions, entry.isUsable = true ∧ entry.base ≤ addr ∧ addr + 4096 ≤ entry.endAddr

variable {entry : MemoryMapEntry} {memoryRegions : List MemoryMapEntry} {highest : Nat} {memory : Bytes}

theorem MemoryMapEntry.canBeUsable_of_isUsable (usable : entry.isUsable = true) : entry.canBeUsable = true := by
  rw [canBeUsable, usable, Bool.true_or]

theorem MemoryMapEntry.PageAligned.divCeil_length (aligned : entry.PageAligned) :
    divCeil entry.length 4096 = entry.length / 4096 := by
  have := aligned.2
  unfold divCeil
  omega

/-! ## The end of RAM -/

theorem le_findMaxRamAddress {start : Nat} (disjoint : memoryRegions.Pairwise MemoryMapEntry.Before)
    (run : memoryRegions.foldlM (fun highest region =>
      if region.canBeUsable then
        if region.endAddr < 2 ^ 64 then some region.endAddr else none
      else some highest) start = some highest) :
    (∀ entry ∈ memoryRegions, entry.isUsable = true → entry.endAddr ≤ highest) ∧
    ∀ bound ≤ start, (∀ entry ∈ memoryRegions, entry.canBeUsable = true → bound ≤ entry.base) → bound ≤ highest := by
  induction memoryRegions generalizing start with
  | nil =>
    cases run
    exact ⟨nofun, fun bound le _ => le⟩
  | cons first rest later =>
    rw [List.pairwise_cons] at disjoint
    rw [List.foldlM_cons] at run
    obtain ⟨next, stepped, run⟩ := Option.bind_eq_some_iff.mp run
    obtain ⟨ends, bounds⟩ := later disjoint.2 run
    split at stepped
    case isTrue counts =>
      split at stepped
      case isFalse => cases stepped
      case isTrue =>
      cases stepped
      refine ⟨List.forall_mem_cons.mpr ⟨fun usable => ?_, ends⟩, ?_⟩
      · exact bounds _ (Nat.le_refl _) fun other inRest canBe =>
          disjoint.1 other inRest (.inl usable) counts canBe
      intro bound _ below
      have here := below first (.head _) counts
      refine bounds bound (Nat.le_trans here (Nat.le_add_right _ _)) ?_
      exact fun entry inRest => below entry (.tail _ inRest)
    case isFalse skipped =>
      cases stepped
      refine ⟨List.forall_mem_cons.mpr ⟨fun usable => ?_, ends⟩, ?_⟩
      · exact absurd (MemoryMapEntry.canBeUsable_of_isUsable usable) skipped
      · intro bound le below
        exact bounds bound le fun entry inRest => below entry (.tail _ inRest)

theorem Guaranteed.le_maxRam (guaranteed : Guaranteed memoryRegions)
    (run : findMaxRamAddress memoryRegions = some highest)
    (member : entry ∈ memoryRegions) (usable : entry.isUsable = true) : entry.endAddr ≤ highest / 4096 * 4096 := by
  have le := (le_findMaxRamAddress guaranteed.disjoint run).1 entry member usable
  obtain ⟨base, length⟩ := guaranteed.aligned entry member usable
  unfold MemoryMapEntry.endAddr at le ⊢
  omega

/-! ## Cutting off the tree -/

theorem findMemRegionToShrink_eq_some {space position : Nat}
    (found : findMemRegionToShrink memoryRegions space = some position) :
    ∃ before region after, memoryRegions = before ++ region :: after ∧ before.length = position ∧
      region.isUsable = true ∧ space ≤ region.length := by
  obtain ⟨⟨region, index⟩, search, rfl⟩ := Option.map_eq_some_iff.mp found
  have chosen := List.find?_some search
  have member := List.mem_reverse.mp (List.mem_of_find?_eq_some search)
  obtain ⟨inside, rfl⟩ := List.getElem?_eq_some_iff.mp (List.mk_mem_zipIdx_iff_getElem?.mp member)
  simp only [Bool.and_eq_true, decide_eq_true_eq] at chosen
  refine ⟨memoryRegions.take index, memoryRegions[index], memoryRegions.drop (index + 1), ?_, ?_, chosen.1, chosen.2⟩
  · rw [← List.drop_eq_getElem_cons inside, List.take_append_drop]
  · rw [List.length_take]
    omega

theorem MemoryMapEntry.endAddr_shrink {region : MemoryMapEntry} {pages : Nat}
    (fits : pages * 4096 ≤ region.length) : (region.shrink pages).endAddr = region.endAddr := by
  simp only [shrink, endAddr]
  omega

/-- A map whose usable pages lie apart and below a limit. -/
structure Managed (memoryRegions : List MemoryMapEntry) (limit : Nat) : Prop where
  aligned : ∀ entry ∈ memoryRegions, entry.isUsable = true → entry.PageAligned
  disjoint : memoryRegions.Pairwise MemoryMapEntry.Before
  below : ∀ entry ∈ memoryRegions, entry.isUsable = true → entry.endAddr ≤ limit * 4096

section Shrink

variable {before after : List MemoryMapEntry} {region : MemoryMapEntry} {pages limit : Nat}

theorem Managed.shrink (managed : Managed (before ++ region :: after) limit) (usable : region.isUsable = true)
    (fits : pages * 4096 ≤ region.length) : Managed (before ++ region.shrink pages :: after) limit := by
  have sameEnd := MemoryMapEntry.endAddr_shrink fits
  have later : region.base ≤ (region.shrink pages).base := Nat.le_add_right _ _
  obtain ⟨aligned, disjoint, below⟩ := managed
  rw [List.forall_mem_append, List.forall_mem_cons] at aligned below
  rw [List.pairwise_append, List.pairwise_cons] at disjoint
  obtain ⟨left, ⟨behind, right⟩, across⟩ := disjoint
  refine ⟨?_, ?_, ?_⟩
  · rw [List.forall_mem_append, List.forall_mem_cons]
    refine ⟨aligned.1, fun _ => ?_, aligned.2.2⟩
    obtain ⟨base, length⟩ := aligned.2.1 usable
    simp only [MemoryMapEntry.PageAligned, MemoryMapEntry.shrink]
    omega
  · rw [List.pairwise_append, List.pairwise_cons]
    refine ⟨left, ⟨fun entry member => ?_, right⟩, fun entry member => ?_⟩
    · exact fun one first second => sameEnd.trans_le (behind entry member one first second)
    · obtain ⟨front, rest⟩ := List.forall_mem_cons.mp (across entry member)
      exact List.forall_mem_cons.mpr ⟨fun one first second => (front one first second).trans later, rest⟩
  · rw [List.forall_mem_append, List.forall_mem_cons]
    exact ⟨below.1, fun _ => sameEnd.trans_le (below.2.1 usable), below.2.2⟩

theorem Managed.inUsable_of_shrink (managed : Managed (before ++ region :: after) limit)
    (usable : region.isUsable = true) (fits : pages * 4096 ≤ region.length) {addr : Nat}
    (inUsable : InUsable (before ++ region.shrink pages :: after) addr) :
    InUsable (before ++ region :: after) addr ∧ (addr + 4096 ≤ region.base ∨ region.base + pages * 4096 ≤ addr) := by
  obtain ⟨entry, member, usableEntry, lower, upper⟩ := inUsable
  have canBe := MemoryMapEntry.canBeUsable_of_isUsable usable
  have canBeEntry := MemoryMapEntry.canBeUsable_of_isUsable usableEntry
  have order := managed.disjoint
  rw [List.pairwise_append, List.pairwise_cons] at order
  obtain ⟨-, ⟨behind, -⟩, across⟩ := order
  rcases List.mem_append.mp member with left | right
  · have apart := across entry left region (.head _) (.inl usableEntry) canBeEntry canBe
    exact ⟨⟨entry, List.mem_append_left _ left, usableEntry, lower, upper⟩, .inl (by omega)⟩
  rcases List.mem_cons.mp right with rfl | right
  · rw [MemoryMapEntry.endAddr_shrink fits] at upper
    simp only [MemoryMapEntry.shrink] at lower
    exact ⟨⟨region, List.mem_append_right _ (.head _), usable, by omega, upper⟩, .inr (by omega)⟩
  · have apart := behind entry right (.inl usable) canBe canBeEntry
    unfold MemoryMapEntry.endAddr at apart
    exact ⟨⟨entry, List.mem_append_right _ (.tail _ right), usableEntry, lower, upper⟩, .inr (by omega)⟩

end Shrink

/-! ## Clearing the usable pages -/

namespace BuddyAllocator

variable {self : BuddyAllocator} {memory : Bytes}

def InRegion (self : BuddyAllocator) (entry : MemoryMapEntry) (index : Nat) : Prop :=
  entry.base / 4096 + self.binaryTreeSize / 2 ≤ index ∧
    index < entry.base / 4096 + self.binaryTreeSize / 2 + divCeil entry.length 4096

theorem getAtIndex_clearRegion (self : BuddyAllocator) (entry : MemoryMapEntry) (memory : Bytes) (index : Nat) :
    self.getAtIndex (self.clearRegion entry memory) index = false ↔
      self.getAtIndex memory index = false ∨ self.InRegion entry index := by
  rw [InRegion, ← Nat.zero_add (divCeil entry.length 4096)]
  refine loopUp_ind (fun k now => self.getAtIndex now index = false ↔ self.getAtIndex memory index = false ∨
    (entry.base / 4096 + self.binaryTreeSize / 2 ≤ index ∧
      index < entry.base / 4096 + self.binaryTreeSize / 2 + k)) (fun k now _ _ before => ?_) ?_
  · rw [getAtIndex_setAtIndex, Function.update_apply, show (entry.base + k * 4096) / 4096 = entry.base / 4096 + k by omega]
    split
    case isTrue same =>
      simp only [true_iff]
      exact .inr (by omega)
    case isFalse other =>
    rw [before]
    apply or_congr_right
    omega
  · simp only [Nat.add_zero]
    exact ⟨.inl, fun clear => clear.resolve_right (by omega)⟩

theorem getAtIndex_clearUsable (self : BuddyAllocator) (memoryRegions : List MemoryMapEntry) (memory : Bytes)
    (index : Nat) : self.getAtIndex (self.clearUsable memoryRegions memory).2 index = false ↔
      self.getAtIndex memory index = false ∨
        ∃ entry ∈ memoryRegions, entry.isUsable = true ∧ self.InRegion entry index := by
  unfold clearUsable
  generalize 0 = count
  induction memoryRegions generalizing count memory with
  | nil => simp
  | cons entry rest ih =>
    rw [List.foldl_cons]
    split
    case isTrue skipped =>
      rw [Bool.not_eq_true'] at skipped
      rw [ih]
      simp [skipped]
    case isFalse usable =>
      rw [Bool.not_eq_true', Bool.not_eq_false] at usable
      rw [ih, getAtIndex_clearRegion, List.exists_mem_cons_iff, or_assoc]
      simp [usable]

theorem clearUsable_count {memoryRegions : List MemoryMapEntry} {limit : Nat} (managed : Managed memoryRegions limit) :
    (self.clearUsable memoryRegions memory).1 ≤ limit := by
  have general : ∀ (regions : List MemoryMapEntry) (low count : Nat) (memory : Bytes), Managed regions limit →
      count ≤ low → low ≤ limit → (∀ entry ∈ regions, entry.isUsable = true → low * 4096 ≤ entry.base) →
      (regions.foldl (fun done entry => if !entry.isUsable then done
        else (done.1 + divCeil entry.length 4096, self.clearRegion entry done.2)) (count, memory)).1 ≤ limit := by
    intro regions
    induction regions with
    | nil => intro low count memory _ le inside _; exact Nat.le_trans le inside
    | cons entry rest ih =>
      intro low count memory managed le inside above
      obtain ⟨aligned, disjoint, below⟩ := managed
      rw [List.pairwise_cons] at disjoint
      have managedRest : Managed rest limit :=
        ⟨fun e member => aligned e (.tail _ member), disjoint.2, fun e member => below e (.tail _ member)⟩
      rw [List.foldl_cons]
      split
      case isTrue =>
        exact ih low count memory managedRest le inside fun e member => above e (.tail _ member)
      case isFalse usable =>
      rw [Bool.not_eq_true', Bool.not_eq_false] at usable
      have start := above entry (.head _) usable
      have stop := below entry (.head _) usable
      unfold MemoryMapEntry.endAddr at stop
      have pages := (aligned entry (.head _) usable).divCeil_length
      -- the count grows by the pages of the region, and the regions behind start where it ends
      have grown : count + divCeil entry.length 4096 ≤ (entry.base + entry.length) / 4096 := by
        omega
      refine ih ((entry.base + entry.length) / 4096) _ _ managedRest grown (by omega) fun e member usableE => ?_
      have apart : entry.base + entry.length ≤ e.base := disjoint.1 e member (.inl usable)
        (MemoryMapEntry.canBeUsable_of_isUsable usable) (MemoryMapEntry.canBeUsable_of_isUsable usableE)
      exact Nat.le_trans (Nat.div_mul_le_self _ _) apart
  exact general memoryRegions 0 0 memory managed (Nat.le_refl 0) (Nat.zero_le _) fun _ _ _ => by omega

theorem updateAll_spec (self : BuddyAllocator) (memory : Bytes) {leaves : Nat} (size : self.binaryTreeSize = 2 * leaves) :
    AndTree leaves (self.getAtIndex (self.updateAll memory)) ∧
      ∀ i, leaves ≤ i → self.getAtIndex (self.updateAll memory) i = self.getAtIndex memory i := by
  -- the nodes above the loop's position obey the law
  refine loopDown_ind (fun j now => (∀ i, j < i → i < leaves → self.getAtIndex now i =
        (self.getAtIndex now (2 * i) && self.getAtIndex now (2 * i + 1))) ∧
      ∀ i, leaves ≤ i → self.getAtIndex now i = self.getAtIndex memory i) (fun j now inside before => ?_) ?_
  · obtain ⟨law, leavesKept⟩ := before
    rw [getAtIndex_setAtIndex]
    refine ⟨fun i above inner => ?_, fun i isLeaf => ?_⟩
    · rw [Function.update_of_ne (show 2 * i ≠ 1 + j by omega), Function.update_of_ne (show 2 * i + 1 ≠ 1 + j by omega)]
      by_cases here : i = 1 + j
      · rw [here, Function.update_self]
      · rw [Function.update_of_ne here]
        exact law i (by omega) inner
    · rw [Function.update_of_ne (by omega)]
      exact leavesKept i isLeaf
  · exact ⟨fun i above inner => by omega, fun _ _ => rfl⟩

end BuddyAllocator

/-! ## The pool that `init` sets up -/

theorem getAtIndex_filled (self : BuddyAllocator) (memory : Bytes) {space index : Nat} (inside : index / 8 < space) :
    self.getAtIndex (fillTree self.treeAllocator space memory) index = true := by
  have filled : ∀ i < 0 + space, fillTree self.treeAllocator space memory (self.treeAllocator + i) = 0xFF := by
    refine loopUp_ind (fun (k : Nat) (now : Bytes) => ∀ i < k, now (self.treeAllocator + i) = 0xFF) (fun k now _ _ before => ?_) ?_
    · intro i below
      by_cases last : i = k
      · rw [last, Function.update_self]
      · rw [Function.update_of_ne (by omega)]
        exact before i (by omega)
    · intro i below
      omega
  rw [BuddyAllocator.getAtIndex_eq_testBit, filled _ (by omega)]
  have small : index % 8 < 8 := Nat.mod_lt _ (by omega)
  generalize index % 8 = k at small
  interval_cases k <;> rfl

def Allocatable (memoryRegions : List MemoryMapEntry) (addr : Nat) : Prop :=
  addr % 4096 = 0 ∧ InUsable memoryRegions addr

theorem inRegion_iff {self : BuddyAllocator} (aligned : entry.PageAligned) {addr : Nat}
    (onPage : addr % 4096 = 0) : self.InRegion entry (addr / 4096 + self.binaryTreeSize / 2) ↔
      entry.base ≤ addr ∧ addr + 4096 ≤ entry.endAddr := by
  unfold BuddyAllocator.InRegion MemoryMapEntry.endAddr
  rw [aligned.divCeil_length]
  obtain ⟨base, length⟩ := aligned
  omega

theorem setUp_spec (layout : Layout) (nPages : Nat) (managed : Managed memoryRegions (2 ^ layout.depth))
    (filled : ∀ (self : BuddyAllocator) index, self.treeAllocator = layout.treeAllocator →
      index < 2 * 2 ^ layout.depth → self.getAtIndex memory index = true)
    (usable : ∀ addr, layout.usable addr ↔ Allocatable memoryRegions addr) :
    Fits layout (Frames.setUp nPages (2 ^ layout.depth) layout.treeAllocator memoryRegions memory) ∧
      ∀ addr, layout.usable addr ↔
        FreeFrame layout (Frames.setUp nPages (2 ^ layout.depth) layout.treeAllocator memoryRegions memory) addr := by
  let allocator : BuddyAllocator :=
    { nPages, binaryTreeSize := 2 ^ layout.depth * 2, allocatedPages := 0, treeAllocator := layout.treeAllocator }
  let cleared := allocator.clearUsable memoryRegions memory
  have size : allocator.binaryTreeSize = 2 * 2 ^ layout.depth := Nat.mul_comm _ _
  obtain ⟨tree, leaves⟩ := BuddyAllocator.updateAll_spec { allocator with nPages := cleared.1 } cleared.2 size
  refine ⟨⟨size, rfl, BuddyAllocator.clearUsable_count managed, tree⟩, fun addr => ?_⟩
  -- after the clearing a leaf is clear if its page is allocatable, and the inner nodes do not change that
  have leaf : ∀ page < 2 ^ layout.depth, (({ allocator with nPages := cleared.1 } : BuddyAllocator).getAtIndex
        (({ allocator with nPages := cleared.1 } : BuddyAllocator).updateAll cleared.2) (page + 2 ^ layout.depth) = false ↔
      ∃ entry ∈ memoryRegions, entry.isUsable = true ∧ allocator.InRegion entry (page + 2 ^ layout.depth)) := by
    intro page inside
    rw [leaves _ (by omega)]
    refine (allocator.getAtIndex_clearUsable memoryRegions memory _).trans (or_iff_right ?_)
    rw [filled allocator _ rfl (by omega)]
    exact nofun
  have half : allocator.binaryTreeSize / 2 = 2 ^ layout.depth := by omega
  constructor
  · intro isUsable
    obtain ⟨onPage, entry, member, usableEntry, place⟩ := (usable addr).mp isUsable
    have inside := layout.inside addr isUsable
    refine ⟨onPage, inside, (leaf _ inside).mpr ⟨entry, member, usableEntry, ?_⟩⟩
    rw [← half]
    exact (inRegion_iff (managed.aligned entry member usableEntry) onPage).mpr place
  · rintro ⟨onPage, inside, clear⟩
    obtain ⟨entry, member, usableEntry, place⟩ := (leaf _ inside).mp clear
    rw [← half, inRegion_iff (managed.aligned entry member usableEntry) onPage] at place
    exact (usable addr).mpr ⟨onPage, entry, member, usableEntry, place⟩

theorem Frames.init_eq_some {maxRamAddr : Nat} {frames : Frames}
    (run : Frames.init maxRamAddr memoryRegions memory = some frames) :
    ∃ before region after elements space, memoryRegions = before ++ region :: after ∧ region.isUsable = true ∧
      elements = getBinaryTreeElementCnt (maxRamAddr / 4096) ∧ space = elements / 8 * 2 ∧
      divCeil space 4096 * 4096 ≤ region.length ∧ frames = Frames.setUp (maxRamAddr / 4096) elements region.base
        (before ++ region.shrink (divCeil space 4096) :: after) (fillTree region.base space memory) := by
  rw [Frames.init] at run
  split at run
  case isTrue => cases run
  case isFalse =>
  obtain ⟨position, found, run⟩ := Option.bind_eq_some_iff.mp run
  obtain ⟨region, atPosition, run⟩ := Option.bind_eq_some_iff.mp run
  dsimp only at run
  split at run
  case isTrue => cases run
  case isFalse fits =>
  obtain ⟨before, chosen, after, rfl, rfl, usable, space⟩ := findMemRegionToShrink_eq_some found
  rw [List.getElem?_append_right (Nat.le_refl _), Nat.sub_self, List.getElem?_cons_zero] at atPosition
  cases atPosition
  refine ⟨before, region, after, _, _, rfl, usable, rfl, rfl, Nat.le_of_not_lt fits, ?_⟩
  rw [List.set_append_right _ _ (Nat.le_refl _), Nat.sub_self, List.set_cons_zero, Option.some.injEq] at run
  exact run.symm

/-- On a guaranteed map of at least eight pages `init` sets up the allocator with every page of the shrunk map free:
those pages are usable, and none of them holds a byte of the tree. -/
theorem init_refines {s : PhysicalMemory}
    (guaranteed : Guaranteed memoryRegions) (found : findMaxRamAddress memoryRegions = some highest)
    (eight : 8 ≤ highest / 4096) (run : PhysicalMemory.init memoryRegions memory = some s) :
    ∃ layout, Refines layout s (Pool.fresh layout.usable) ∧ ∀ addr, layout.usable addr → InUsable memoryRegions addr ∧
        (addr + 4096 ≤ s.frames.allocator.treeAllocator ∨
          s.frames.allocator.treeAllocator + divCeil (s.frames.allocator.binaryTreeSize / 8) 4096 * 4096 ≤ addr) := by
  rw [PhysicalMemory.init, found] at run
  obtain ⟨_, same, run⟩ := Option.bind_eq_some_iff.mp run
  cases same
  obtain ⟨frames, initialised, answer⟩ := Option.bind_eq_some_iff.mp run
  cases answer
  obtain ⟨before, region, after, elements, space, rfl, usable, elementsEq, spaceEq, fits, rfl⟩ :=
    Frames.init_eq_some initialised
  -- the tree has a leaf for every page, and at least eight
  rw [Nat.mul_div_cancel _ (by omega), getBinaryTreeElementCnt, Nat.one_shiftLeft] at elementsEq
  have enough : highest / 4096 ≤ 2 ^ log2RoundedUp (highest / 4096) := le_two_pow_log2RoundedUp (by omega)
  generalize log2RoundedUp (highest / 4096) = depth at elementsEq enough
  obtain ⟨eighth, eighthEq⟩ : 8 ∣ 2 ^ depth := by
    have deep : 3 ≤ depth := by
      by_contra shallow
      have := Nat.pow_le_pow_right (show 0 < 2 by omega) (show depth ≤ 2 by omega)
      omega
    exact Nat.pow_dvd_pow 2 deep
  have managed : Managed (before ++ region :: after) (2 ^ depth) := by
    refine ⟨guaranteed.aligned, guaranteed.disjoint, fun entry member usableEntry => ?_⟩
    exact Nat.le_trans (guaranteed.le_maxRam found member usableEntry) (Nat.mul_le_mul_right 4096 enough)
  have shrunk := managed.shrink usable fits
  have stop := managed.below region (List.mem_append_right _ (.head _)) usable
  have pages : space ≤ divCeil space 4096 * 4096 := by unfold divCeil; omega
  unfold MemoryMapEntry.endAddr at stop
  have away : ∀ addr, Allocatable (before ++ region.shrink (divCeil space 4096) :: after) addr →
      InUsable (before ++ region :: after) addr ∧
        (addr + 4096 ≤ region.base ∨ region.base + divCeil space 4096 * 4096 ≤ addr) :=
    fun addr allocatable => managed.inUsable_of_shrink usable fits allocatable.2
  generalize before ++ region.shrink (divCeil space 4096) :: after = regions at shrunk away
  have inside : ∀ addr, Allocatable regions addr → addr / 4096 < 2 ^ depth := by
    rintro addr ⟨-, entry, member, usableEntry, -, upper⟩
    have := shrunk.below entry member usableEntry
    omega
  have apart : ∀ addr index, Allocatable regions addr → index < 2 * 2 ^ depth →
      region.base + index / 8 < addr ∨ addr + 4096 ≤ region.base + index / 8 := by
    intro addr index allocatable within
    have := (away addr allocatable).2
    omega
  have kept : ∃ page < 2 ^ depth, ¬ Allocatable regions (page * 4096) := by
    refine ⟨region.base / 4096, by omega, fun allocatable => ?_⟩
    have := (away _ allocatable).2
    omega
  let layout : Layout :=
    { depth
      treeAllocator := region.base
      usable := Allocatable regions
      aligned := fun addr allocatable => allocatable.1
      inside, apart, kept }
  have filled : ∀ (self : BuddyAllocator) index, self.treeAllocator = layout.treeAllocator →
      index < 2 * 2 ^ layout.depth → self.getAtIndex (fillTree region.base space memory) index = true := by
    intro self index same inside
    change index < 2 * 2 ^ depth at inside
    rw [show region.base = self.treeAllocator from same.symm]
    exact getAtIndex_filled self memory (by omega)
  subst elementsEq
  obtain ⟨fitsLayout, free_iff⟩ := setUp_spec layout (highest / 4096) shrunk filled fun _ => Iff.rfl
  refine ⟨layout, ⟨fitsLayout, free_iff, rfl, Nat.zero_le _⟩, fun addr allocatable => ?_⟩
  have treeBytes : 2 ^ depth * 2 / 8 = space := by omega
  change _ ∧ (addr + 4096 ≤ region.base ∨ region.base + divCeil (2 ^ depth * 2 / 8) 4096 * 4096 ≤ addr)
  rw [treeBytes]
  exact away addr allocatable

/-- After `init` on a memory map of at least eight pages as the bootloader guarantees it, in every run of allocations
and frees the pages of different live allocations are different, every page handed out lies in a usable region of the
map, and no page of the allocator's tree is handed out. -/
theorem pages_exclusive (debugAssertions : Bool) (memoryRegions : List MemoryMapEntry) (memory : Bytes)
    (start finish : PhysicalMemory) (calls : List PhysicalMemory.Call) (highest : Nat)
    (guaranteed : Guaranteed memoryRegions) (found : findMaxRamAddress memoryRegions = some highest)
    (eight : 8 ≤ highest / 4096) (initialised : PhysicalMemory.init memoryRegions memory = some start)
    (run : runs (PhysicalMemory.step debugAssertions) start calls = some finish) :
    finish.live.Pairwise (fun a b => a.getAddresses.Disjoint b.getAddresses) ∧
    ∀ range ∈ finish.live, ∀ addr ∈ range.getAddresses, InUsable memoryRegions addr ∧
      (addr + 4096 ≤ finish.frames.allocator.treeAllocator ∨ finish.frames.allocator.treeAllocator +
          divCeil (finish.frames.allocator.binaryTreeSize / 8) 4096 * 4096 ≤ addr) := by
  obtain ⟨layout, refinesStart, places⟩ := init_refines guaranteed found eight initialised
  obtain ⟨pool, refines⟩ := refinesStart.runs run
  have exclusive := pool.exclusive
  rw [refines.live, List.nodup_flatten, List.pairwise_map] at exclusive
  refine ⟨exclusive.2, fun range member addr onPage => ?_⟩
  have usable : layout.usable addr := by
    apply (pool.live_usable addr _).1
    rw [refines.live, List.mem_flatten]
    exact ⟨_, List.mem_map.mpr ⟨range, member, rfl⟩, onPage⟩
  -- the tree stays where `init` put it
  rw [refines.fits.place, refines.fits.size, ← refinesStart.fits.place, ← refinesStart.fits.size]
  exact places addr usable

def mapWithHole : List MemoryMapEntry :=
  [⟨0, 4096 * 4, limineMemmapUsable⟩, ⟨4096 * 4, 4096, 1⟩, ⟨4096 * 5, 4096 * 4, limineMemmapUsable⟩,
    ⟨4096 * 9, 100, limineMemmapBootloaderReclaimable⟩]

theorem pages_exclusive_mapWithHole : ∃ start finish, PhysicalMemory.init mapWithHole Bytes.zero = some start ∧
    runs (PhysicalMemory.step true) start [.reserveLow, .allocateContiguous 2, .breakIntoIndividual 1, .free 1,
      .write 0 0 5 7, .allocate, .allocate] = some finish ∧
    finish.live = [⟨0, 1⟩, ⟨4096 * 7, 1⟩, ⟨4096 * 8, 1⟩, ⟨4096 * 6, 1⟩] ∧
    finish.frames.allocator.treeAllocator = 4096 * 5 ∧
    finish.live.Pairwise (fun a b => a.getAddresses.Disjoint b.getAddresses) := by
  have reached : ((PhysicalMemory.init mapWithHole Bytes.zero).bind fun start =>
      runs (PhysicalMemory.step true) start [.reserveLow, .allocateContiguous 2, .breakIntoIndividual 1, .free 1,
        .write 0 0 5 7, .allocate, .allocate]).map (fun s => (s.live, s.frames.allocator.treeAllocator)) =
      some ([⟨0, 1⟩, ⟨4096 * 7, 1⟩, ⟨4096 * 8, 1⟩, ⟨4096 * 6, 1⟩], 4096 * 5) := by
    decide +kernel
  obtain ⟨finish, ran, shows⟩ := Option.map_eq_some_iff.mp reached
  obtain ⟨start, initialised, run⟩ := Option.bind_eq_some_iff.mp ran
  obtain ⟨live, place⟩ := Prod.mk.inj shows
  have guaranteed : Guaranteed mapWithHole := ⟨by decide, by decide, by decide⟩
  exact ⟨start, finish, initialised, run, live, place,
    (pages_exclusive true mapWithHole Bytes.zero start finish _ (4096 * 9 + 100) guaranteed (by decide) (by decide)
      initialised run).1⟩

end MeowOs.Memory.PhysicalAllocator
