import MeowOs.Memory.PageExclusivity

/-! # Alignment of heap blocks

A small block takes its alignment from its place in a page, a large one from the
block of the buddy tree that the page allocator cuts it from.  The number of
pages of a large request is passed on in 32 bits, so a request that does not fit
gets a block of another size (`truncated_request_misaligned`).
-/

namespace MeowOs.Memory

open MeowOs.Machine Prog PhysicalAllocator

/-- A large request is answered by the page allocator after some history of its own, and the answer is seen through the
direct map. -/
def HeapOp.Served (debugAssertions : Bool) (start : PhysicalMemory) (hhdm : Nat) : HeapOp → Prop
  | .allocate size answer => 1024 < size → ∃ calls s allocated frames,
      runs (PhysicalMemory.step debugAssertions) start calls = some s ∧ answer = hhdm + allocated ∧
      Frames.allocateContiguius debugAssertions (divCeil size 4096 % 2 ^ 32) s.frames = some (allocated, frames)
  | .deallocate _ => True
  | .kernelWrites _ => True

def Block.Aligned (blk : Block) : Prop := ∀ k, 2 ^ k ≤ 2 ^ Nat.clog 2 blk.size → 2 ^ k ∣ blk.addr

theorem Block.aligned_of_dvd {blk : Block} (order : Nat) (large : blk.size ≤ 2 ^ order) (multiple : 2 ^ order ∣ blk.addr) :
    blk.Aligned := by
  intro k le
  have small : k ≤ Nat.clog 2 blk.size := (Nat.pow_le_pow_iff_right (by decide)).mp le
  exact (pow_dvd_pow 2 (small.trans (Nat.clog_le_of_le_pow large))).trans multiple

theorem HeapInv.small_aligned {s : HeapState} {C : Nat → SizeClass} {blk : Block} (inv : HeapInv s C)
    (live : blk ∈ s.live) (le : blk.size ≤ 1024) : blk.Aligned := by
  by_cases zero : blk.size = 0
  · exact Block.aligned_of_dvd 0 (by omega) (one_dvd _)
  obtain ⟨p, -, slot, -⟩ := inv.small blk live (by omega) le
  have large := le_capacity (inv.fits blk live)
  rw [capacity_small (by omega) le] at large
  exact Block.aligned_of_dvd _ large slot.2.2

theorem served_aligned {debugAssertions : Bool} {start : PhysicalMemory} {layout : Layout} {pool : Pool layout.usable}
    {hhdm size answer : Nat} (refines : Refines layout start pool) (direct : 2 ^ layout.depth * 4096 ∣ hhdm)
    (served : (HeapOp.allocate size answer).Served debugAssertions start hhdm)
    (fits : (HeapOp.allocate size answer).Fits) (large : 1024 < size) : Block.Aligned ⟨answer, size⟩ := by
  obtain ⟨calls, s, allocated, frames, run, rfl, allocates⟩ := served large
  obtain ⟨_, refines⟩ := refines.runs run
  have few : divCeil size 4096 < 2 ^ 32 ∧ 0 < divCeil size 4096 ∧ size ≤ divCeil size 4096 * 4096 := by
    unfold HeapOp.Fits at fits
    unfold divCeil
    omega
  rw [Nat.mod_eq_of_lt few.1] at allocates
  obtain ⟨le, multiple⟩ := (allocateContiguius_takes refines.fits refines.sound allocates).2 (by omega)
  have enough := le_two_pow_log2RoundedUp few.2.1
  refine Block.aligned_of_dvd (log2RoundedUp (divCeil size 4096) + 12) ?_ ?_
  · rw [pow_add]
    exact few.2.2.trans (Nat.mul_le_mul_right 4096 enough)
  · rw [pow_add]
    exact Nat.dvd_add ((Nat.mul_dvd_mul_right (pow_dvd_pow 2 le) 4096).trans direct) multiple

/-- On a memory map of at least eight pages as the bootloader guarantees it, with a direct map aligned to the largest
block, every block that the heap hands out is aligned as its request demands, as long as the number of pages of every
request fits in 32 bits. -/
theorem heap_blocks_aligned {debugAssertions : Bool} {memoryRegions : List MemoryMapEntry} {memory : Bytes}
    {start : PhysicalMemory} {highest hhdm selfAddr : Nat} {bytes : Bytes} {ops : List HeapOp} {s : HeapState}
    (guaranteed : Guaranteed memoryRegions) (found : findMaxRamAddress memoryRegions = some highest)
    (eight : 8 ≤ highest / 4096) (booted : PhysicalMemory.init memoryRegions memory = some start)
    (direct : start.frames.allocator.binaryTreeSize / 2 * 4096 ∣ hhdm)
    (run : HeapRun (.boot selfAddr bytes) ops s) (fits : ∀ op ∈ ops, op.Fits)
    (served : ∀ op ∈ ops, op.Served debugAssertions start hhdm) : ∀ blk ∈ s.live, blk.Aligned := by
  obtain ⟨layout, refines, -⟩ := init_refines guaranteed found eight booted
  rw [refines.fits.half] at direct
  intro blk live
  by_cases small : blk.size ≤ 1024
  · obtain ⟨C, inv⟩ := heapRun_inv (HeapInv.boot selfAddr bytes) fits run
    exact inv.small_aligned live small
  -- a large block is where it was when it was handed out
  induction run with
  | start => cases live
  | step _ last ih =>
    have earlier := ih (fun op mem => fits op (.tail _ mem)) (fun op mem => served op (.tail _ mem))
    cases last with
    | allocate _ ran =>
      rcases List.mem_cons.mp live with rfl | old
      · have large : 1024 < _ := Nat.lt_of_not_le small
        dsimp only at large
        unfold Heap.allocate at ran
        rw [if_neg (by omega), if_pos large] at ran
        cases ran
        exact served_aligned refines direct (served _ (.head _)) (fits _ (.head _)) large
      · exact earlier old
    | deallocate _ _ => exact earlier (List.mem_of_mem_erase live)
    | kernelWrites _ => exact earlier live

theorem served_first (size answer : Nat) (reached : ((PhysicalMemory.init mapWithHole Bytes.zero).bind fun start =>
      Frames.allocateContiguius false (divCeil size 4096 % 2 ^ 32) start.frames).map Prod.fst = some answer) :
    ∃ start, PhysicalMemory.init mapWithHole Bytes.zero = some start ∧
      ∀ op ∈ [HeapOp.allocate size answer], op.Served false start 0 := by
  obtain ⟨⟨_, frames⟩, ran, rfl⟩ := Option.map_eq_some_iff.mp reached
  obtain ⟨start, booted, allocates⟩ := Option.bind_eq_some_iff.mp ran
  refine ⟨start, booted, fun op mem => ?_⟩
  obtain rfl := List.mem_singleton.mp mem
  exact fun _ => ⟨[], start, _, frames, rfl, (Nat.zero_add _).symm, allocates⟩

theorem heap_blocks_aligned_mapWithHole :
    ∃ s, HeapRun (.boot 0 Bytes.zero) [.allocate 5000 (4096 * 6)] s ∧ s.live ≠ [] ∧ ∀ blk ∈ s.live, blk.Aligned := by
  obtain ⟨start, booted, served⟩ := served_first 5000 (4096 * 6) (by decide +kernel)
  have run : HeapRun (.boot 0 Bytes.zero) [.allocate 5000 (4096 * 6)] _ :=
    .step .start (.allocate ⟨by decide, fun _ _ _ => rfl⟩ rfl)
  refine ⟨_, run, List.cons_ne_nil _ _, heap_blocks_aligned ⟨by decide, by decide, by decide⟩
    (show findMaxRamAddress mapWithHole = some (4096 * 9 + 100) by decide) (by decide) booted (dvd_zero _) run ?_ served⟩
  intro op mem
  obtain rfl := List.mem_singleton.mp mem
  simp [HeapOp.Fits]

/-- A request whose number of pages is `2 ^ 32 + 1` is served with a single page. -/
theorem truncated_request_misaligned : ¬ ∀ (start : PhysicalMemory) (hhdm selfAddr : Nat) (bytes : Bytes)
    (ops : List HeapOp) (s : HeapState), PhysicalMemory.init mapWithHole Bytes.zero = some start →
    start.frames.allocator.binaryTreeSize / 2 * 4096 ∣ hhdm → HeapRun (.boot selfAddr bytes) ops s →
    (∀ op ∈ ops, op.Served false start hhdm) → ∀ blk ∈ s.live, blk.Aligned := by
  intro always
  obtain ⟨start, booted, served⟩ := served_first (2 ^ 44 + 1) (4096 * 8) (by decide +kernel)
  have run : HeapRun (.boot 0 Bytes.zero) [.allocate (2 ^ 44 + 1) (4096 * 8)] _ :=
    .step .start (.allocate ⟨by decide, fun _ _ _ => rfl⟩ rfl)
  have aligned := always start 0 0 Bytes.zero _ _ booted (dvd_zero _) run served _ (.head _)
  exact absurd (aligned 16 (Nat.pow_le_pow_right (by decide)
    ((Nat.lt_clog_iff_pow_lt (by decide)).mpr (by decide)).le)) (by decide)

end MeowOs.Memory
