import MeowOs.Machine.BitTree
import MeowOs.Memory.BuddyAllocator
import MeowOs.Memory.HeapSoundness

/-! # Every page has one owner

The abstract model of the allocator is a `Pool`: a set of free pages and the
list of the groups of pages that are handed out, with the fact that no page is
in two places.  The allocator refines it: the leaf of a page is clear exactly
when the page is free (`Refines`), because every allocation finds clear leaves
and sets them, and a free clears leaves of pages that were handed out.

The tree above the leaves only steers the searches.  The single-frame searches
rely on it (a clear root leads to a clear leaf), the contiguous search checks
the leaves themselves.
-/

namespace MeowOs.Memory.PhysicalAllocator

open MeowOs.Machine Prog
open Option (bind_eq_some_iff)
open PhysRange (getAddresses)
open Function (update update_apply update_of_ne update_self)

/-! ## Resources handed out in groups -/

/-- The free resources and the groups in use, none of which share a member. -/
structure Pool {α : Type} (usable : α → Prop) where
  free : α → Prop
  live : List (List α)
  free_usable : ∀ a, free a → usable a
  live_usable : ∀ a ∈ live.flatten, usable a ∧ ¬ free a
  exclusive : live.flatten.Nodup

namespace Pool

variable {α : Type} {usable : α → Prop}

def fresh (usable : α → Prop) : Pool usable where
  free := usable
  live := []
  free_usable _ isFree := isFree
  live_usable _ member := nomatch member
  exclusive := List.nodup_nil

def grant (pool : Pool usable) (group : List α) (isFree : ∀ a ∈ group, pool.free a) (nodup : group.Nodup) :
    Pool usable where
  free a := pool.free a ∧ a ∉ group
  live := pool.live ++ [group]
  free_usable a held := pool.free_usable a held.1
  live_usable a member := by
    rw [List.flatten_append, List.flatten_singleton, List.mem_append] at member
    rcases member with old | new
    · exact ⟨(pool.live_usable a old).1, fun held => (pool.live_usable a old).2 held.1⟩
    · exact ⟨pool.free_usable a (isFree a new), fun held => held.2 new⟩
  exclusive := by
    rw [List.flatten_append, List.flatten_singleton]
    refine List.Nodup.append pool.exclusive nodup ?_
    intro a old new
    exact (pool.live_usable a old).2 (isFree a new)

theorem flatten_eraseIdx {live : List (List α)} {position : Nat} {group : List α}
    (found : live[position]? = some group) : live.flatten.Perm (group ++ (live.eraseIdx position).flatten) := by
  obtain ⟨inside, rfl⟩ := List.getElem?_eq_some_iff.mp found
  exact (List.getElem_cons_eraseIdx_perm inside).symm.flatten

section Release

variable (pool : Pool usable) {position : Nat} {group : List α} (found : pool.live[position]? = some group)
include found

theorem mem_live_of_mem_group {a : α} (member : a ∈ group) : a ∈ pool.live.flatten :=
  (flatten_eraseIdx found).mem_iff.mpr (List.mem_append_left _ member)

theorem group_disjoint : (group ++ (pool.live.eraseIdx position).flatten).Nodup :=
  (flatten_eraseIdx found).nodup_iff.mp pool.exclusive

def release (returned : α → Prop) (own : ∀ a, returned a → a ∈ group) : Pool usable where
  free a := pool.free a ∨ returned a
  live := pool.live.eraseIdx position
  free_usable a held := by
    rcases held with held | back
    · exact pool.free_usable a held
    · exact (pool.live_usable a (pool.mem_live_of_mem_group found (own a back))).1
  live_usable a member := by
    have before : a ∈ pool.live.flatten := (flatten_eraseIdx found).mem_iff.mpr (List.mem_append_right _ member)
    refine ⟨(pool.live_usable a before).1, ?_⟩
    rintro (held | back)
    · exact (pool.live_usable a before).2 held
    · exact (List.nodup_append'.mp (pool.group_disjoint found)).2.2 (own a back) member
  exclusive := (List.nodup_append'.mp (pool.group_disjoint found)).2.1

def scatter : Pool usable where
  free := pool.free
  live := pool.live.eraseIdx position ++ group.map fun a => [a]
  free_usable := pool.free_usable
  live_usable a member := by
    apply pool.live_usable a
    rw [(flatten_eraseIdx found).mem_iff]
    simp only [List.flatten_append, List.mem_append, List.mem_flatten, List.mem_map] at member ⊢
    rcases member with rest | ⟨_, ⟨b, inGroup, rfl⟩, single⟩
    · exact .inr rest
    · exact .inl (List.mem_singleton.mp single ▸ inGroup)
  exclusive := by
    have singles : (group.map fun a => [a]).flatten = group := List.flatMap_singleton' group
    rw [List.flatten_append, singles]
    exact (List.perm_append_comm.nodup_iff).mp (pool.group_disjoint found)

end Release

end Pool

namespace BuddyAllocator

variable {self : BuddyAllocator} {memory : Bytes}

variable {k leaves index : Nat}

private theorem toNat_mask (small : k < 8) : (1 <<< UInt8.ofNat k : UInt8).toNat = 2 ^ k := by
  interval_cases k <;> rfl

theorem getAtIndex_eq_testBit (self : BuddyAllocator) (memory : Bytes) (index : Nat) :
    self.getAtIndex memory index = (memory (self.treeAllocator + index / 8)).toNat.testBit (index % 8) := by
  rw [getAtIndex, Bool.eq_iff_iff, decide_eq_true_iff, gt_iff_lt, UInt8.lt_iff_toNat_lt, UInt8.toNat_and,
    toNat_mask (by omega), UInt8.toNat_zero, Nat.and_two_pow]
  cases (memory (self.treeAllocator + index / 8)).toNat.testBit (index % 8) <;> simp

private theorem testBit_and_not_mask (num : UInt8) {j : Nat} (small : k < 8) (inside : j < 8) :
    (num &&& ~~~(1 <<< UInt8.ofNat k)).toNat.testBit j = (!decide (k = j) && num.toNat.testBit j) := by
  have complement : UInt8.size - 1 - 2 ^ k = 2 ^ 8 - (2 ^ k + 1) := by
    simp only [UInt8.size]
    omega
  rw [UInt8.toNat_and, UInt8.toNat_not, toNat_mask small, Nat.testBit_and, complement,
    Nat.testBit_two_pow_sub_succ (Nat.pow_lt_pow_right (by omega) small), Nat.testBit_two_pow]
  simp [inside, Bool.and_comm]

theorem getAtIndex_setAtIndex (self : BuddyAllocator) (memory : Bytes) (index : Nat) (allocated : Bool) :
    self.getAtIndex (self.setAtIndex index allocated memory) = update (self.getAtIndex memory) index allocated := by
  funext other
  rw [getAtIndex_eq_testBit]
  by_cases sameByte : other / 8 = index / 8
  · have bit : decide (index % 8 = other % 8) = decide (other = index) := by
      rw [decide_eq_decide]
      omega
    have value : (self.setAtIndex index allocated memory (self.treeAllocator + other / 8)).toNat.testBit (other % 8) =
        if other = index then allocated else self.getAtIndex memory other := by
      rw [getAtIndex_eq_testBit, sameByte]
      unfold setAtIndex
      cases allocated with
      | true =>
        simp only [update_self]
        rw [UInt8.toNat_or, toNat_mask (by omega), Nat.testBit_or, Nat.testBit_two_pow, Bool.or_comm, bit]
        by_cases same : other = index <;> simp [same]
      | false =>
        simp only [update_self]
        rw [testBit_and_not_mask _ (by omega) (by omega), bit]
        by_cases same : other = index <;> simp [same]
    rw [value, update_apply]
  · rw [update_of_ne (by omega), getAtIndex_eq_testBit]
    unfold setAtIndex
    rw [update_of_ne (by omega)]

/-- The walk to the root closes the gap that a changed leaf leaves, and touches no leaf. -/
theorem updateFromLower_spec {fuel : Nat} (enough : index < fuel) (inner : index < leaves)
    (tree : AndTreeExcept leaves (self.getAtIndex memory) index) :
    ∃ memory', self.updateFromLower fuel index memory = some memory' ∧ AndTree leaves (self.getAtIndex memory') ∧
      ∀ i, leaves ≤ i → self.getAtIndex memory' i = self.getAtIndex memory i := by
  induction fuel generalizing index memory with
  | zero => omega
  | succ fuel climb =>
    rw [updateFromLower]
    by_cases top : index = 0
    · subst top
      exact ⟨memory, if_pos rfl, fun i pos inner => tree i pos inner (by omega), fun _ _ => rfl⟩
    rw [if_neg top]
    have pos : 0 < index := by omega
    have repaired := tree.recompute pos
    rw [← getAtIndex_setAtIndex] at repaired
    obtain ⟨memory', walk, law, leavesKept⟩ := climb (by omega) (by omega) repaired
    refine ⟨memory', walk, law, fun i isLeaf => ?_⟩
    rw [leavesKept i isLeaf, getAtIndex_setAtIndex, update_of_ne (by omega)]

theorem markIndex_spec (tree : AndTree leaves (self.getAtIndex memory))
    (size : self.binaryTreeSize = 2 * leaves) (few : self.nPages ≤ leaves) (pos : 0 < leaves)
    (isLeaf : leaves ≤ index) (inside : index < 2 * leaves) (allocated : Bool) :
    ∃ memory', self.markIndex index allocated memory = some memory' ∧ AndTree leaves (self.getAtIndex memory') ∧
      ∀ i, leaves ≤ i → self.getAtIndex memory' i = update (self.getAtIndex memory) index allocated i := by
  have gap := tree.update_leaf isLeaf allocated
  rw [← getAtIndex_setAtIndex] at gap
  obtain ⟨memory', walk, law, leavesKept⟩ :=
    updateFromLower_spec (show index / 2 < index + 1 by omega) (by omega) gap
  -- the children of a leaf are out of bounds
  have stops : self.updateFromHigher allocated (self.nPages + self.binaryTreeSize) (2 * index) memory' = some memory' := by
    obtain ⟨fuel, positive⟩ : ∃ fuel, self.nPages + self.binaryTreeSize = fuel + 1 :=
      ⟨self.nPages + self.binaryTreeSize - 1, by omega⟩
    rw [positive, updateFromHigher, if_pos (by omega)]
  refine ⟨memory', ?_, law, fun i leaf => ?_⟩
  · rw [markIndex, walk]
    exact stops
  · rw [leavesKept i leaf, getAtIndex_setAtIndex]

/-! ## Searches -/

section Searches

variable {depth : Nat} (size : self.binaryTreeSize = 2 * 2 ^ depth)
include size

theorem half_size : self.binaryTreeSize / 2 = 2 ^ depth := by
  omega

variable {fuel node index height : Nat} {first second : Nat → Nat}

theorem findEmptyFrameRecursively_sound {debugAssertions : Bool}
    (children : ∀ i, (first i = 2 * i ∧ second i = 2 * i + 1) ∨ (first i = 2 * i + 1 ∧ second i = 2 * i))
    (tree : AndTree (2 ^ depth) (self.getAtIndex memory)) (pos : 0 < node)
    (inside : node < 2 * 2 ^ depth) (clear : self.getAtIndex memory node = false)
    (run : findEmptyFrameRecursively debugAssertions first second self memory fuel node = some index) :
    2 ^ depth ≤ index ∧ index < 2 * 2 ^ depth ∧ self.getAtIndex memory index = false := by
  induction fuel generalizing node with
  | zero => cases run
  | succ fuel descend =>
    rw [findEmptyFrameRecursively, half_size size] at run
    split at run
    case isTrue leaf =>
      cases run
      exact ⟨leaf, inside, clear⟩
    case isFalse inner =>
    rw [clear, Bool.and_false, if_neg Bool.false_ne_true] at run
    have below := tree _ pos (by omega)
    rw [clear, eq_comm, Bool.and_eq_false_iff] at below
    split at run
    case isTrue firstClear =>
      rw [Bool.not_eq_true'] at firstClear
      have place := children node
      exact descend (by omega) (by omega) firstClear run
    case isFalse firstSet =>
      rw [Bool.not_eq_true', Bool.not_eq_false] at firstSet
      -- the preferred child is full, so the other one is not
      rcases children node with ⟨left, right⟩ | ⟨left, right⟩
      all_goals
        rw [left] at firstSet
        rw [right] at run
        rw [firstSet] at below
        exact descend (by omega) (by omega) (by simpa using below) run

theorem findEmptyFrame_sound {debugAssertions : Bool}
    (children : ∀ i, (first i = 2 * i ∧ second i = 2 * i + 1) ∨ (first i = 2 * i + 1 ∧ second i = 2 * i))
    (tree : AndTree (2 ^ depth) (self.getAtIndex memory))
    (run : findEmptyFrame debugAssertions first second self memory = some index) :
    2 ^ depth ≤ index ∧ index < 2 * 2 ^ depth ∧ self.getAtIndex memory index = false := by
  rw [findEmptyFrame] at run
  split at run
  case isTrue => cases run
  case isFalse clear =>
  have := Nat.two_pow_pos depth
  exact findEmptyFrameRecursively_sound size children tree (by omega) (by omega)
    (Bool.eq_false_of_not_eq_true clear) run

theorem checkAllEmpty_sound (placed : AtHeight depth height node)
    (run : self.checkAllEmpty memory fuel node = some true) :
    ∀ offset < 2 ^ height, self.getAtIndex memory (node * 2 ^ height + offset) = false := by
  induction fuel generalizing height node with
  | zero => cases run
  | succ fuel below =>
    intro offset inside
    rw [checkAllEmpty, half_size size] at run
    cases height with
    | zero =>
      rw [if_pos placed.isLeaf.1, Option.some.injEq, Bool.not_eq_true'] at run
      rw [Nat.pow_zero] at inside ⊢
      rwa [show node * 1 + offset = node by omega]
    | succ height =>
      have inner : node < 2 ^ depth := placed.lt_two_pow (Nat.succ_pos height)
      rw [if_neg (by omega)] at run
      split at run
      case isTrue => cases run
      case isFalse =>
      obtain ⟨left, leftRun, rest⟩ := bind_eq_some_iff.mp run
      cases left with
      | false => cases rest
      | true =>
        rcases leaf_cases node height offset inside with ⟨low, lowInside, place⟩ | ⟨high, highInside, place⟩
        · rw [place]
          exact below placed.left leftRun low lowInside
        · rw [place]
          exact below placed.right rest high highInside

theorem getLastLevelIndex_eq (placed : AtHeight depth height node)
    (run : self.getLastLevelIndex fuel node = some index) : index = node * 2 ^ height := by
  induction fuel generalizing height node with
  | zero => cases run
  | succ fuel below =>
    rw [getLastLevelIndex, half_size size] at run
    cases height with
    | zero =>
      rw [if_neg (by have := placed.isLeaf.1; omega)] at run
      cases run
      omega
    | succ height =>
      have inner : node < 2 ^ depth := placed.lt_two_pow (Nat.succ_pos height)
      rw [if_pos inner] at run
      rw [below placed.left run, Nat.pow_succ]
      ring

/-- A contiguous search ends at a node none of whose leaves is set; the node is large enough, or the search
stopped at the root because the whole tree is too small. -/
theorem findContigiousEmptyRecursivelyHigh_sound {order : Nat}
    (placed : AtHeight depth height node) (large : order ≤ height ∨ height = depth)
    (run : self.findContigiousEmptyRecursivelyHigh memory order fuel node = some (some index)) :
    ∃ found top, AtHeight depth top found ∧ (order ≤ top ∨ top = depth) ∧ index = found * 2 ^ top ∧
      ∀ offset < 2 ^ top, self.getAtIndex memory (index + offset) = false := by
  induction fuel generalizing node height with
  | zero => cases run
  | succ fuel search =>
    rw [findContigiousEmptyRecursivelyHigh] at run
    split at run
    case isTrue stop =>
      obtain ⟨empty, emptyRun, rest⟩ := bind_eq_some_iff.mp run
      cases empty with
      | false => cases rest
      | true =>
        obtain ⟨last, lastRun, answer⟩ := bind_eq_some_iff.mp rest
        cases answer
        have place := getLastLevelIndex_eq size placed lastRun
        refine ⟨node, height, placed, large, place, fun offset inside => ?_⟩
        rw [place]
        exact checkAllEmpty_sound size placed emptyRun offset inside
    case isFalse goOn =>
      -- the search goes on only above the level it looks for
      have above : order < height := by
        by_contra low
        have level : self.binaryTreeSize / (1 <<< (order + 1)) ≤ 2 ^ (depth - height) := by
          rw [size, Nat.one_shiftLeft, Nat.pow_succ, Nat.mul_comm 2, Nat.mul_div_mul_right _ _ (by omega)]
          rw [Nat.div_le_iff_le_mul_add_pred (Nat.two_pow_pos _)]
          have grows : 2 ^ depth ≤ 2 ^ (order + (depth - height)) := Nat.pow_le_pow_right (by omega) (by omega)
          rw [Nat.pow_add] at grows
          omega
        exact goOn (Nat.le_trans level placed.lower)
      obtain ⟨below, rfl⟩ : ∃ below, height = below + 1 := ⟨height - 1, by omega⟩
      have leftSearch := fun run => search placed.left (.inl (by omega)) run
      have rightSearch := fun run => search placed.right (.inl (by omega)) run
      split at run
      case isTrue =>
        obtain ⟨right, rightRun, rest⟩ := bind_eq_some_iff.mp run
        cases right with
        | some found =>
          cases rest
          exact rightSearch rightRun
        | none => exact leftSearch rest
      case isFalse => exact leftSearch run

end Searches

end BuddyAllocator

/-! ## The tree and the pages it manages -/

/-- Where the tree lies and which pages it hands out.  The pages of the tree are pages of the managed range that
are never handed out. -/
structure Layout where
  depth : Nat
  treeAllocator : Nat
  usable : Nat → Prop
  aligned : ∀ addr, usable addr → addr % 4096 = 0
  inside : ∀ addr, usable addr → addr / 4096 < 2 ^ depth
  apart : ∀ addr index, usable addr → index < 2 * 2 ^ depth →
    treeAllocator + index / 8 < addr ∨ addr + 4096 ≤ treeAllocator + index / 8
  kept : ∃ page, page < 2 ^ depth ∧ ¬ usable (page * 4096)

/-- The allocator has the tree of the layout, and it is well formed. -/
structure Fits (layout : Layout) (s : Frames) : Prop where
  size : s.allocator.binaryTreeSize = 2 * 2 ^ layout.depth
  place : s.allocator.treeAllocator = layout.treeAllocator
  few : s.allocator.nPages ≤ 2 ^ layout.depth
  tree : AndTree (2 ^ layout.depth) (s.allocator.getAtIndex s.memory)

structure FreeFrame (layout : Layout) (s : Frames) (addr : Nat) : Prop where
  aligned : addr % 4096 = 0
  inside : addr / 4096 < 2 ^ layout.depth
  clear : s.allocator.getAtIndex s.memory (addr / 4096 + 2 ^ layout.depth) = false

variable {layout : Layout} {s s' : Frames} {debugAssertions : Bool} {page start index : Nat}

theorem Fits.half (fits : Fits layout s) : s.allocator.binaryTreeSize / 2 = 2 ^ layout.depth :=
  BuddyAllocator.half_size fits.size

theorem Fits.recount (fits : Fits layout s) (allocatedPages : Nat) :
    Fits layout { s with allocator := { s.allocator with allocatedPages } } :=
  ⟨fits.size, fits.place, fits.few, fits.tree⟩

theorem freeFrame_recount (allocatedPages addr : Nat) :
    FreeFrame layout { s with allocator := { s.allocator with allocatedPages } } addr ↔ FreeFrame layout s addr :=
  ⟨fun free => ⟨free.aligned, free.inside, free.clear⟩, fun free => ⟨free.aligned, free.inside, free.clear⟩⟩

theorem markIndex_frames (fits : Fits layout s) (inside : page < 2 ^ layout.depth) (allocated : Bool) :
    ∃ s', Frames.markIndex (page + 2 ^ layout.depth) allocated s = some ((), s') ∧ s'.allocator = s.allocator ∧
      Fits layout s' ∧ ∀ addr, FreeFrame layout s' addr ↔
        if addr = page * 4096 then allocated = false else FreeFrame layout s addr := by
  obtain ⟨memory', run, tree, leaves⟩ :=
    BuddyAllocator.markIndex_spec fits.tree fits.size fits.few (Nat.two_pow_pos _)
      (show 2 ^ layout.depth ≤ page + 2 ^ layout.depth by omega) (by omega) allocated
  refine ⟨{ s with memory := memory' }, by rw [Frames.markIndex, run]; rfl, rfl,
    ⟨fits.size, fits.place, fits.few, tree⟩, fun addr => ?_⟩
  have leaf := leaves (addr / 4096 + 2 ^ layout.depth) (by omega)
  split
  case isTrue same =>
    rw [show addr / 4096 = page by omega, update_self] at leaf
    constructor
    · intro free
      have clear := free.clear
      rwa [show addr / 4096 = page by omega, leaf] at clear
    · rintro rfl
      exact ⟨by omega, by omega, by rwa [show addr / 4096 = page by omega]⟩
  case isFalse other =>
    constructor
    · rintro ⟨aligned, within, clear⟩
      rw [leaf, update_of_ne (by omega)] at clear
      exact ⟨aligned, within, clear⟩
    rintro ⟨aligned, within, clear⟩
    refine ⟨aligned, within, ?_⟩
    rw [leaf, update_of_ne (by omega)]
    exact clear

variable {range : PhysRange} {nPages : Nat}

theorem mem_getAddresses (aligned : range.start % 4096 = 0) {addr : Nat} : addr ∈ range.getAddresses ↔
      addr % 4096 = 0 ∧ range.start / 4096 ≤ addr / 4096 ∧ addr / 4096 < range.start / 4096 + range.nPages := by
  simp only [getAddresses, List.mem_map, List.mem_range]
  constructor
  · rintro ⟨i, inside, rfl⟩
    omega
  · rintro ⟨onPage, lower, upper⟩
    exact ⟨addr / 4096 - range.start / 4096, by omega, by omega⟩

theorem length_getAddresses (range : PhysRange) : range.getAddresses.length = range.nPages := by
  simp [getAddresses]

theorem getAddresses_single (start : Nat) : getAddresses { start, nPages := 1 } = [start] := by
  simp [getAddresses]

theorem start_mem_getAddresses (nonempty : range.nPages ≠ 0) : range.start ∈ range.getAddresses := by
  simp only [getAddresses, List.mem_map, List.mem_range]
  exact ⟨0, by omega, by omega⟩

/-! ## What an allocation does -/

structure Takes (layout : Layout) (s s' : Frames) (range : PhysRange) : Prop where
  fits : Fits layout s'
  counted : s'.allocator.allocatedPages = s.allocator.allocatedPages + range.nPages
  wasFree : ∀ addr ∈ range.getAddresses, FreeFrame layout s addr
  free_iff : ∀ addr, FreeFrame layout s' addr ↔ FreeFrame layout s addr ∧ addr ∉ range.getAddresses

theorem allocateFrameBy_takes {first second : Nat → Nat}
    (children : ∀ i, (first i = 2 * i ∧ second i = 2 * i + 1) ∨ (first i = 2 * i + 1 ∧ second i = 2 * i))
    (fits : Fits layout s)
    (run : Frames.allocateFrameBy (BuddyAllocator.findEmptyFrame debugAssertions first second) s = some (start, s')) :
    Takes layout s s' { start, nPages := 1 } := by
  rw [Frames.allocateFrameBy, get_bind] at run
  obtain ⟨-, run⟩ := assert_bind_eq_some.mp run
  rw [modify_bind] at run
  obtain ⟨index, _, search, run⟩ := bind_eq_some.mp run
  obtain ⟨found, searched, same⟩ := Option.map_eq_some_iff.mp search
  cases same
  have recounted := fits.recount (s.allocator.allocatedPages + 1)
  obtain ⟨lower, upper, clear⟩ := BuddyAllocator.findEmptyFrame_sound recounted.size children recounted.tree searched
  -- the page whose leaf was found
  obtain ⟨page, rfl⟩ : ∃ page, index = page + 2 ^ layout.depth := ⟨index - 2 ^ layout.depth, by omega⟩
  obtain ⟨marked, marks, sameAllocator, fits', free_iff⟩ :=
    markIndex_frames recounted (show page < 2 ^ layout.depth by omega) true
  rw [bind_of_eq_some marks] at run
  cases run
  have startEq : (page + 2 ^ layout.depth - s.allocator.binaryTreeSize / 2) * 4096 = page * 4096 := by
    rw [fits.half]
    omega
  rw [startEq]
  refine ⟨fits', by rw [sameAllocator], ?_, ?_⟩
  · intro addr member
    rw [getAddresses_single, List.mem_singleton] at member
    subst member
    refine ⟨by omega, by omega, ?_⟩
    rwa [show page * 4096 / 4096 = page by omega]
  · intro addr
    rw [free_iff, getAddresses_single, List.mem_singleton, freeFrame_recount]
    by_cases same : addr = page * 4096 <;> simp [same]

theorem findContigiousEmptyHigh_sound (fits : Fits layout s)
    (sound : ∀ addr, FreeFrame layout s addr → layout.usable addr)
    (run : s.allocator.findContigiousEmptyHigh s.memory nPages = some index) :
    2 ^ layout.depth ≤ index ∧ index + nPages ≤ 2 * 2 ^ layout.depth ∧
      (∀ offset < nPages, s.allocator.getAtIndex s.memory (index + offset) = false) ∧
      (nPages ≠ 0 → log2RoundedUp nPages ≤ layout.depth ∧ 2 ^ log2RoundedUp nPages ∣ index) := by
  rw [BuddyAllocator.findContigiousEmptyHigh] at run
  split at run
  case isTrue empty =>
    cases run
    rw [fits.half]
    exact ⟨Nat.le_refl _, by omega, fun offset inside => by omega, fun nonempty => absurd empty nonempty⟩
  case isFalse nonempty =>
  obtain ⟨result, search, answer⟩ := bind_eq_some_iff.mp run
  subst answer
  obtain ⟨found, top, placed, large, rfl, clear⟩ :=
    BuddyAllocator.findContigiousEmptyRecursivelyHigh_sound fits.size ⟨Nat.le_refl _, by simp, by simp⟩ (.inr rfl) search
  have split : 2 ^ (layout.depth - top) * 2 ^ top = 2 ^ layout.depth := by
    rw [← Nat.pow_add, Nat.sub_add_cancel placed.height_le]
  -- the whole tree is never empty: the tree itself lies in the managed pages
  have large : log2RoundedUp nPages ≤ top := by
    refine large.resolve_right fun whole => ?_
    rw [whole] at placed clear
    obtain ⟨page, inside, notUsable⟩ := layout.kept
    have root : found = 1 := by
      have lower := placed.lower
      have upper := placed.upper
      rw [Nat.sub_self, Nat.pow_zero] at lower upper
      omega
    apply notUsable
    apply sound
    refine ⟨by omega, by omega, ?_⟩
    have leaf := clear page inside
    rw [root, Nat.one_mul] at leaf
    rwa [Nat.mul_div_cancel _ (by omega), Nat.add_comm]
  have enough : nPages ≤ 2 ^ top :=
    Nat.le_trans (le_two_pow_log2RoundedUp (by omega)) (Nat.pow_le_pow_right (by omega) large)
  have lower := Nat.mul_le_mul_right (2 ^ top) placed.lower
  have upper := Nat.mul_le_mul_right (2 ^ top) (Nat.succ_le_of_lt placed.upper)
  rw [Nat.mul_assoc, split, Nat.succ_mul] at upper
  exact ⟨by omega, by omega, fun offset inside => clear offset (by omega), fun _ => ⟨large.trans placed.height_le,
    Dvd.dvd.mul_left (pow_dvd_pow 2 large) _⟩⟩

theorem markLeaves_spec (fits : Fits layout s) (isLeaf : 2 ^ layout.depth ≤ index)
    (inside : index + nPages ≤ 2 * 2 ^ layout.depth) :
    ∃ s', Prog.forUp (fun i => Frames.markIndex i true) index nPages s = some ((), s') ∧
      s'.allocator = s.allocator ∧ Fits layout s' ∧ ∀ addr, FreeFrame layout s' addr ↔ FreeFrame layout s addr ∧
        ¬ (index ≤ addr / 4096 + 2 ^ layout.depth ∧ addr / 4096 + 2 ^ layout.depth < index + nPages) := by
  apply forUp_total fun i t => t.allocator = s.allocator ∧ Fits layout t ∧
    ∀ addr, FreeFrame layout t addr ↔ FreeFrame layout s addr ∧
      ¬ (index ≤ addr / 4096 + 2 ^ layout.depth ∧ addr / 4096 + 2 ^ layout.depth < i)
  · rintro i t lower upper ⟨same, fitsT, freeT⟩
    obtain ⟨page, rfl⟩ : ∃ page, i = page + 2 ^ layout.depth := ⟨i - 2 ^ layout.depth, by omega⟩
    obtain ⟨t', run, same', fits', free'⟩ := markIndex_frames fitsT (show page < 2 ^ layout.depth by omega) true
    refine ⟨t', run, same'.trans same, fits', fun addr => ?_⟩
    rw [free']
    split
    case isTrue this =>
      simp only [Bool.true_eq_false, false_iff, not_and]
      intro
      omega
    case isFalse other =>
      rw [freeT]
      constructor
      · rintro ⟨free, outside⟩
        have := free.aligned
        exact ⟨free, by omega⟩
      · rintro ⟨free, outside⟩
        exact ⟨free, by omega⟩
  · exact ⟨rfl, fits, fun addr => ⟨fun free => ⟨free, by omega⟩, fun free => free.1⟩⟩

theorem allocateContiguius_takes (fits : Fits layout s) (sound : ∀ addr, FreeFrame layout s addr → layout.usable addr)
    (run : Frames.allocateContiguius debugAssertions nPages s = some (start, s')) :
    Takes layout s s' { start, nPages } ∧
      (nPages ≠ 0 → log2RoundedUp nPages ≤ layout.depth ∧ 2 ^ log2RoundedUp nPages * 4096 ∣ start) := by
  obtain ⟨index, _, search, run⟩ := bind_eq_some.mp run
  obtain ⟨found, searched, same⟩ := Option.map_eq_some_iff.mp search
  cases same
  obtain ⟨isLeaf, inside, clear, aligned⟩ := findContigiousEmptyHigh_sound fits sound searched
  obtain ⟨marked, marks, sameAllocator, fits', free_iff⟩ := markLeaves_spec fits isLeaf inside
  rw [bind_of_eq_some marks, modify_bind, get_bind] at run
  obtain ⟨-, run⟩ := assert_bind_eq_some.mp run
  cases run
  have half : marked.allocator.binaryTreeSize / 2 = 2 ^ layout.depth := fits'.half
  have member : ∀ addr, addr ∈ getAddresses
      { start := (index - marked.allocator.binaryTreeSize / 2) * 4096, nPages } ↔ addr % 4096 = 0 ∧
        (index ≤ addr / 4096 + 2 ^ layout.depth ∧ addr / 4096 + 2 ^ layout.depth < index + nPages) := by
    intro addr
    rw [mem_getAddresses (Nat.mul_mod_left _ _)]
    simp only [half, Nat.mul_div_cancel _ (show 0 < 4096 by omega)]
    omega
  refine ⟨⟨fits'.recount _, by rw [← sameAllocator], ?_, ?_⟩, fun nonempty => ⟨(aligned nonempty).1, ?_⟩⟩
  · intro addr taken
    obtain ⟨aligned, lower, upper⟩ := (member addr).mp taken
    refine ⟨aligned, by omega, ?_⟩
    have leaf := clear (addr / 4096 + 2 ^ layout.depth - index) (by omega)
    rwa [show index + (addr / 4096 + 2 ^ layout.depth - index) = addr / 4096 + 2 ^ layout.depth by omega] at leaf
  · intro addr
    rw [freeFrame_recount, free_iff, member]
    constructor
    · rintro ⟨free, outside⟩
      exact ⟨free, fun taken => outside taken.2⟩
    · rintro ⟨free, outside⟩
      exact ⟨free, fun taken => outside ⟨free.aligned, taken⟩⟩
  · obtain ⟨le, multiple⟩ := aligned nonempty
    rw [half]
    exact Nat.mul_dvd_mul_right (Nat.dvd_sub multiple (pow_dvd_pow 2 le)) 4096

theorem deallocateFrame_spec (fits : Fits layout s) (inside : page < 2 ^ layout.depth)
    (counted : s.allocator.allocatedPages ≠ 0) :
    ∃ s', Frames.deallocateFrame debugAssertions (page * 4096) s = some ((), s') ∧ Fits layout s' ∧
      s'.allocator.allocatedPages = s.allocator.allocatedPages - 1 ∧
      ∀ addr, FreeFrame layout s' addr ↔ addr = page * 4096 ∨ FreeFrame layout s addr := by
  obtain ⟨marked, run, sameAllocator, fits', free'⟩ := markIndex_frames fits inside false
  have marks : Frames.markAddr debugAssertions (page * 4096) false s = some ((), marked) := by
    rw [Frames.markAddr, assert_bind_run]
    · rw [bind_of_eq_some (Prog.get_run s), fits.half, Nat.mul_div_cancel _ (by omega)]
      exact run
    · simp
  refine ⟨{ marked with allocator := { marked.allocator with
    allocatedPages := marked.allocator.allocatedPages - 1 } }, ?_, fits'.recount _, ?_, fun addr => ?_⟩
  · rw [Frames.deallocateFrame, bind_of_eq_some marks, bind_of_eq_some (Prog.get_run marked), assert_bind_run]
    · rfl
    · rwa [sameAllocator, bne_iff_ne]
  · change marked.allocator.allocatedPages - 1 = _
    rw [sameAllocator]
  · rw [freeFrame_recount, free']
    split <;> simp_all

theorem deallocate_spec (debugAssertions : Bool) (fits : Fits layout s) (aligned : range.start % 4096 = 0)
    (inside : ∀ addr ∈ range.getAddresses, addr / 4096 < 2 ^ layout.depth)
    (counted : range.nPages ≤ s.allocator.allocatedPages) (nonempty : range.nPages ≠ 0) (nonzero : range.start ≠ 0) :
    ∃ s', Frames.deallocate debugAssertions range s = some ((), s') ∧ Fits layout s' ∧
      s'.allocator.allocatedPages = s.allocator.allocatedPages - range.nPages ∧
      ∀ addr, FreeFrame layout s' addr ↔ FreeFrame layout s addr ∨ addr ∈ range.getAddresses := by
  have loop : ∃ s', Prog.forUp (fun i => Frames.deallocateFrame debugAssertions (range.start + i * 4096)) 0
      range.nPages s = some ((), s') ∧ Fits layout s' ∧
      s'.allocator.allocatedPages = s.allocator.allocatedPages - (0 + range.nPages) ∧
      ∀ addr, FreeFrame layout s' addr ↔ FreeFrame layout s addr ∨ (addr % 4096 = 0 ∧
        range.start / 4096 ≤ addr / 4096 ∧ addr / 4096 < range.start / 4096 + (0 + range.nPages)) := by
    apply forUp_total fun i t => Fits layout t ∧ t.allocator.allocatedPages = s.allocator.allocatedPages - i ∧
      ∀ addr, FreeFrame layout t addr ↔ FreeFrame layout s addr ∨ (addr % 4096 = 0 ∧
        range.start / 4096 ≤ addr / 4096 ∧ addr / 4096 < range.start / 4096 + i)
    · rintro i t - upper ⟨fitsT, countT, freeT⟩
      have page : range.start + i * 4096 = (range.start / 4096 + i) * 4096 := by omega
      have pageInside : range.start / 4096 + i < 2 ^ layout.depth := by
        have member : range.start + i * 4096 ∈ range.getAddresses :=
          List.mem_map.mpr ⟨i, List.mem_range.mpr (by omega), rfl⟩
        have := inside _ member
        omega
      obtain ⟨t', run, fits', count', free'⟩ := deallocateFrame_spec fitsT pageInside (by omega)
      rw [page]
      refine ⟨t', run, fits', by omega, fun addr => ?_⟩
      rw [free', freeT]
      constructor
      · rintro (rfl | free | ⟨onPage, lower, below⟩)
        · exact .inr ⟨by omega, by omega, by omega⟩
        · exact .inl free
        · exact .inr ⟨onPage, lower, by omega⟩
      · rintro (free | ⟨onPage, lower, below⟩)
        · exact .inr (.inl free)
        · by_cases last : addr / 4096 = range.start / 4096 + i
          · exact .inl (by omega)
          · exact .inr (.inr ⟨onPage, lower, by omega⟩)
    · exact ⟨fits, rfl, fun addr => ⟨.inl, fun free => free.resolve_right (by omega)⟩⟩
  obtain ⟨s', run, fits', count, free_iff⟩ := loop
  rw [Nat.zero_add] at count free_iff
  refine ⟨s', ?_, fits', count, fun addr => ?_⟩
  · rw [Frames.deallocate, if_neg (by omega)]
    exact run
  · rw [free_iff, mem_getAddresses aligned]

/-! ## The pool behind the allocator -/

/-- The allocator and the live allocations show the pool: its free pages are those with clear leaves. -/
structure Refines (layout : Layout) (s : PhysicalMemory) (pool : Pool layout.usable) : Prop where
  fits : Fits layout s.frames
  free_iff : ∀ addr, pool.free addr ↔ FreeFrame layout s.frames addr
  live : pool.live = s.live.map getAddresses
  counted : pool.live.flatten.length ≤ s.frames.allocator.allocatedPages

section Steps

variable {s next : PhysicalMemory} {pool : Pool layout.usable}

variable (refines : Refines layout s pool)

include refines

theorem Refines.sound (addr : Nat) (free : FreeFrame layout s.frames addr) : layout.usable addr :=
  pool.free_usable addr ((refines.free_iff addr).mpr free)

theorem Refines.handOut {allocation : Prog Frames Nat}
    (takes : ∀ start frames, allocation s.frames = some (start, frames) →
      Takes layout s.frames frames { start, nPages })
    (run : s.handOut allocation nPages = some next) : ∃ pool', Refines layout next pool' := by
  obtain ⟨⟨start, frames⟩, allocated, answer⟩ := bind_eq_some_iff.mp run
  cases answer
  have took := takes start frames allocated
  refine ⟨pool.grant (getAddresses { start, nPages })
    (fun addr member => (refines.free_iff addr).mpr (took.wasFree addr member))
    (List.Nodup.map (fun i j same => by omega) List.nodup_range), took.fits, fun addr => ?_, ?_, ?_⟩
  · rw [took.free_iff addr, ← refines.free_iff addr]
    rfl
  · simp [Pool.grant, refines.live]
  have counted := refines.counted
  simp only [Pool.grant, List.flatten_append, List.flatten_singleton, List.length_append, length_getAddresses,
    took.counted]
  omega

variable {position addr : Nat} {range : PhysRange}

theorem Refines.found
    (found : s.live[position]? = some range) : pool.live[position]? = some range.getAddresses := by
  rw [refines.live, List.getElem?_map, found]
  rfl

section Live

variable (found : s.live[position]? = some range)

include found

theorem Refines.usable
    (member : addr ∈ range.getAddresses) : layout.usable addr :=
  (pool.live_usable addr (pool.mem_live_of_mem_group (refines.found found) member)).1

theorem Refines.count_split :
    range.nPages + (pool.live.eraseIdx position).flatten.length ≤ s.frames.allocator.allocatedPages := by
  have length := (Pool.flatten_eraseIdx (refines.found found)).length_eq
  have counted := refines.counted
  rw [List.length_append, length_getAddresses] at length
  omega

/-- Dropping a live allocation returns, and is a release of the pool. -/
theorem Refines.free (debugAssertions : Bool)
    : ∃ next pool', PhysicalMemory.dropRange debugAssertions { s with live := s.live.eraseIdx position } range =
      some next ∧ Refines layout next pool' := by
  have inPool := refines.found found
  have count := refines.count_split found
  have liveRest : pool.live.eraseIdx position = (s.live.eraseIdx position).map getAddresses := by
    rw [refines.live, List.eraseIdx_map]
  -- where nothing is given back, the pages stay out of the pool
  have leaks : Refines layout { s with live := s.live.eraseIdx position }
      (pool.release inPool (fun _ => False) (fun _ no => no.elim)) := by
    refine ⟨refines.fits, fun addr => ?_, liveRest, ?_⟩
    · change (pool.free addr ∨ False) ↔ _
      rw [or_false, refines.free_iff addr]
    · change (pool.live.eraseIdx position).flatten.length ≤ s.frames.allocator.allocatedPages
      omega
  rw [PhysicalMemory.dropRange]
  split
  case isTrue => exact ⟨_, _, rfl, leaks⟩
  case isFalse nonzero =>
  split
  case isTrue => exact ⟨_, _, rfl, leaks⟩
  case isFalse nonempty =>
  split
  case isTrue => exact ⟨_, _, rfl, leaks⟩
  case isFalse =>
  have aligned : range.start % 4096 = 0 :=
    layout.aligned _ (refines.usable found (start_mem_getAddresses (by omega)))
  obtain ⟨frames, run, fits', count', free'⟩ := deallocate_spec debugAssertions
    refines.fits aligned (fun addr member => layout.inside addr (refines.usable found member))
    (by omega) (by omega) nonzero
  refine ⟨{ s with frames, live := s.live.eraseIdx position },
    pool.release inPool (· ∈ range.getAddresses) (fun _ member => member), ?_, fits', fun addr => ?_, liveRest, ?_⟩
  · change (Frames.deallocate debugAssertions range s.frames).bind _ = _
    rw [run]
    rfl
  · rw [free', ← refines.free_iff addr]
    rfl
  · change (pool.live.eraseIdx position).flatten.length ≤ frames.allocator.allocatedPages
    omega

theorem Refines.breakIntoIndividual
    : ∃ pool', Refines layout
      { s with live := s.live.eraseIdx position ++ range.getAddresses.map fun start => { start, nPages := 1 } }
      pool' := by
  have inPool := refines.found found
  refine ⟨pool.scatter inPool, refines.fits, refines.free_iff, ?_, ?_⟩
  · change pool.live.eraseIdx position ++ _ = List.map _ (_ ++ _)
    rw [List.map_append, List.map_map, refines.live, List.eraseIdx_map]
    congr 1
  have count := refines.count_split found
  change (pool.live.eraseIdx position ++ range.getAddresses.map fun a => [a]).flatten.length ≤
    s.frames.allocator.allocatedPages
  have singles : (range.getAddresses.map fun a => [a]).flatten = range.getAddresses := List.flatMap_singleton' _
  rw [List.flatten_append, singles, List.length_append, length_getAddresses]
  omega

end Live

theorem Refines.write {offset : Nat} (usable : layout.usable addr)
    (inside : offset < 4096) (value : UInt8) : Refines layout
      { s with frames := { s.frames with memory := update s.frames.memory (addr + offset) value } } pool := by
  have bits : ∀ index < 2 * 2 ^ layout.depth,
      s.frames.allocator.getAtIndex (update s.frames.memory (addr + offset) value) index =
        s.frames.allocator.getAtIndex s.frames.memory index := by
    intro index within
    have away := layout.apart addr index usable within
    rw [BuddyAllocator.getAtIndex, refines.fits.place, update_of_ne (by omega), ← refines.fits.place]
    rfl
  refine ⟨⟨refines.fits.size, refines.fits.place, refines.fits.few, ?_⟩, fun other => ?_, refines.live, refines.counted⟩
  · intro i pos inner
    rw [bits i (by omega), bits (2 * i) (by omega), bits (2 * i + 1) (by omega)]
    exact refines.fits.tree i pos inner
  rw [refines.free_iff other]
  constructor
  · rintro ⟨aligned, within, clear⟩
    exact ⟨aligned, within, (bits _ (by omega)).trans clear⟩
  · rintro ⟨aligned, within, clear⟩
    exact ⟨aligned, within, (bits _ (by omega)).symm.trans clear⟩

theorem Refines.step {call : PhysicalMemory.Call}
    (run : PhysicalMemory.step debugAssertions s call = some next) : ∃ pool', Refines layout next pool' := by
  cases call with
  | allocate =>
    exact refines.handOut (fun _ _ allocated =>
      allocateFrameBy_takes (fun _ => .inr ⟨rfl, rfl⟩) refines.fits allocated) run
  | reserveLow =>
    exact refines.handOut (fun _ _ allocated =>
      allocateFrameBy_takes (fun _ => .inl ⟨rfl, rfl⟩) refines.fits allocated) run
  | allocateContiguous nPages =>
    exact refines.handOut (fun _ _ allocated => (allocateContiguius_takes refines.fits refines.sound allocated).1) run
  | free position =>
    obtain ⟨range, found, dropped⟩ := bind_eq_some_iff.mp run
    obtain ⟨after, pool', returns, kept⟩ := refines.free found debugAssertions
    cases dropped.symm.trans returns
    exact ⟨pool', kept⟩
  | breakIntoIndividual position =>
    obtain ⟨range, found, broken⟩ := bind_eq_some_iff.mp run
    cases broken
    exact refines.breakIntoIndividual found
  | write position page offset value =>
    obtain ⟨range, found, rest⟩ := bind_eq_some_iff.mp run
    obtain ⟨addr, onPage, rest⟩ := bind_eq_some_iff.mp rest
    split at rest
    case isTrue inside =>
      cases rest
      exact ⟨pool, refines.write (refines.usable found (List.mem_of_getElem? onPage)) inside value⟩
    case isFalse => cases rest

theorem Refines.runs {calls : List PhysicalMemory.Call}
    (run : runs (PhysicalMemory.step debugAssertions) s calls = some next) : ∃ pool', Refines layout next pool' :=
  runs_keeps (fun state => ∃ pool', Refines layout state pool')
    (fun ⟨_, held⟩ stepped => held.step stepped) run ⟨pool, refines⟩

end Steps

end MeowOs.Memory.PhysicalAllocator
