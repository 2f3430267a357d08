import MeowOs.Memory.HeapOperations

/-! # Live blocks of the heap are exclusive

A run of the heap is a sequence of allocations, deallocations of live blocks
with their own size, and writes by the rest of the kernel, which may change every
byte of a live block and every byte of a page the heap does not hold.  Of the
page allocator it is assumed that the pages it hands out are aligned and not
held already.

`HeapState.Sound` is the property: the extents of the live blocks are pairwise
disjoint, each is as large as requested and lies in held pages, and the last
operation wrote to none of them.
-/

namespace MeowOs.Memory

open MeowOs.Machine HeapRam Prog

structure Block where
  addr : Nat
  size : Nat
deriving DecidableEq

/-- The bytes that the heap sets aside for a request. -/
def capacity (size : Nat) : Nat :=
  if size = 0 then 0
  else if size > 1024 then 4096 * (divCeil size 4096 % 2 ^ 32)
  else 2 ^ max 4 (log2RoundedUp size)

def Block.Has (blk : Block) (x : Nat) : Prop := blk.addr ≤ x ∧ x < blk.addr + capacity blk.size

structure HeapState where
  heap : Heap
  ram : HeapRam
  live : List Block

inductive HeapOp where
  | allocate (size answer : Nat)
  | deallocate (blk : Block)
  | kernelWrites (bytes : Bytes)

def pagesAsked (size : Nat) : Nat := if size > 1024 then divCeil size 4096 % 2 ^ 32 else 1

/-- The page allocator's answer to a request for `n` pages: aligned, and none of them is held. -/
def FreePages (ram : HeapRam) (answer n : Nat) : Prop :=
  4096 ∣ answer ∧ ∀ q, answer / 4096 ≤ q → q < answer / 4096 + n → ram.held q = false

inductive HeapStep (s : HeapState) : HeapOp → HeapState → Prop where
  | allocate {size answer addr : Nat} {heap : Heap} {ram : HeapRam} : FreePages s.ram answer (pagesAsked size) →
      s.heap.allocate size { s.ram with answer := answer, written := [] } = some ((addr, heap), ram) →
      HeapStep s (.allocate size answer) ⟨heap, ram, ⟨addr, size⟩ :: s.live⟩
  | deallocate {blk : Block} {heap : Heap} {ram : HeapRam} : blk ∈ s.live →
      s.heap.deallocate blk.addr blk.size { s.ram with written := [] } = some (heap, ram) →
      HeapStep s (.deallocate blk) ⟨heap, ram, s.live.erase blk⟩
  | kernelWrites {bytes : Bytes} :
      (∀ x, s.ram.held (x / 4096) = true → (∀ blk ∈ s.live, ¬ blk.Has x) → bytes x = s.ram.bytes x) →
      HeapStep s (.kernelWrites bytes) { s with ram := { s.ram with bytes := bytes, written := [] } }

inductive HeapRun (s : HeapState) : List HeapOp → HeapState → Prop where
  | start : HeapRun s [] s
  | step {ops : List HeapOp} {t t' : HeapState} {op : HeapOp} :
      HeapRun s ops t → HeapStep t op t' → HeapRun s (op :: ops) t'

def HeapState.boot (selfAddr : Nat) (bytes : Bytes) : HeapState :=
  ⟨Heap.new selfAddr, ⟨bytes, fun _ => false, 0, []⟩, []⟩

structure HeapState.Sound (s : HeapState) : Prop where
  disjoint : s.live.Pairwise fun blk blk' => ∀ x, blk.Has x → ¬ blk'.Has x
  large : ∀ blk ∈ s.live, blk.size ≤ capacity blk.size
  backed : ∀ blk ∈ s.live, ∀ x, blk.Has x → s.ram.held (x / 4096) = true

/-- The heap wrote no byte of a block that was live before the step and is live after it. -/
def Untouched (s t : HeapState) : Prop :=
  ∀ w ∈ t.ram.written, ∀ blk ∈ s.live, blk ∈ t.live → ∀ x, w.1 ≤ x → x < w.1 + w.2 → ¬ blk.Has x

/-! ## Sizes -/

def classOf (size : Nat) : Nat := max 4 (log2RoundedUp size) - 4

variable {size : Nat}

theorem le_two_pow_log2RoundedUp (pos : 0 < size) : size ≤ 2 ^ log2RoundedUp size := by
  unfold log2RoundedUp
  split
  case isTrue one => simp [one]
  case isFalse =>
    have := @Nat.lt_log2_self (size * 2 - 1)
    omega

theorem log2RoundedUp_le (small : size ≤ 1024) : log2RoundedUp size ≤ 10 := by
  unfold log2RoundedUp
  split
  case isTrue => omega
  case isFalse =>
  by_cases zero : size * 2 - 1 = 0
  · rw [zero]
    decide
  · have := (Nat.log2_lt zero).mpr (show size * 2 - 1 < 2 ^ 11 by omega)
    omega

theorem classOf_lt (small : size ≤ 1024) : classOf size < 7 := by
  have := log2RoundedUp_le small
  unfold classOf
  omega

theorem classOf_order {index : Nat} (lt : index < 7) : IsOrder (index + 4) := ⟨by omega, by omega⟩

theorem capacity_small (pos : 0 < size) (small : size ≤ 1024) : capacity size = 2 ^ (classOf size + 4) := by
  unfold capacity classOf
  rw [if_neg (by omega), if_neg (by omega)]
  congr 1
  omega

theorem capacity_large (large : 1024 < size) : capacity size = 4096 * (divCeil size 4096 % 2 ^ 32) := by
  unfold capacity
  rw [if_neg (by omega), if_pos large]

theorem le_capacity (fits : divCeil size 4096 < 2 ^ 32) : size ≤ capacity size := by
  by_cases zero : size = 0
  · simp [zero]
  by_cases large : 1024 < size
  · rw [capacity_large large, Nat.mod_eq_of_lt fits]
    unfold divCeil
    omega
  · rw [capacity_small (by omega) (by omega)]
    calc size ≤ 2 ^ log2RoundedUp size := le_two_pow_log2RoundedUp (by omega)
      _ ≤ 2 ^ (classOf size + 4) := Nat.pow_le_pow_right (by omega) (by unfold classOf; omega)

/-! ## The invariant -/

/-- The memory represents the classes `C`, and the live blocks lie outside their books. -/
structure HeapInv (s : HeapState) (C : Nat → SizeClass) : Prop where
  classes : ∀ k, k < 7 → ClassInv s.ram.bytes (k + 4) (s.heap.allocationData k) (C k)
  held : ∀ k, k < 7 → ∀ p, (C k).pages p → s.ram.held (p / 4096) = true
  apart : ∀ j k, j < 7 → k < 7 → ∀ p, (C j).pages p → (C k).pages p → j = k
  small : ∀ blk ∈ s.live, 0 < blk.size → blk.size ≤ 1024 → ∃ p, (C (classOf blk.size)).pages p ∧
    Slot (classOf blk.size + 4) p blk.addr ∧ blk.addr ∉ (C (classOf blk.size)).slots p
  large : ∀ blk ∈ s.live, 1024 < blk.size → 4096 ∣ blk.addr ∧ ∀ q, blk.addr / 4096 ≤ q →
    q < blk.addr / 4096 + divCeil blk.size 4096 → s.ram.held q = true ∧ ∀ k, k < 7 → ¬ (C k).pages (q * 4096)
  fits : ∀ blk ∈ s.live, divCeil blk.size 4096 < 2 ^ 32
  disjoint : s.live.Pairwise fun blk blk' => ∀ x, blk.Has x → ¬ blk'.Has x

namespace HeapInv

variable {s : HeapState} {C : Nat → SizeClass} {blk : Block} {x : Nat}

variable (inv : HeapInv s C)

include inv

theorem owner (live : blk ∈ s.live) (has : blk.Has x) :
    (0 < blk.size ∧ blk.size ≤ 1024 ∧ (C (classOf blk.size)).pages (x / 4096 * 4096)) ∨
      (1024 < blk.size ∧ s.ram.held (x / 4096) = true ∧ ∀ k < 7, ¬ (C k).pages (x / 4096 * 4096)) := by
  obtain ⟨lo, hi⟩ := has
  by_cases large : 1024 < blk.size
  · rw [capacity_large large, Nat.mod_eq_of_lt (inv.fits blk live)] at hi
    obtain ⟨aligned, pages⟩ := inv.large blk live large
    exact .inr ⟨large, pages (x / 4096) (by omega) (by omega)⟩
  by_cases zero : blk.size = 0
  · simp only [capacity, if_pos zero] at hi
    omega
  obtain ⟨p, page, slot, -⟩ := inv.small blk live (by omega) (by omega)
  have lt := classOf_lt (show blk.size ≤ 1024 by omega)
  rw [capacity_small (by omega) (by omega)] at hi
  have base := slot.base ((inv.classes _ lt).page p page).1 lo hi
  exact .inl ⟨by omega, by omega, by rwa [base]⟩

theorem owner_held (live : blk ∈ s.live) (has : blk.Has x) : s.ram.held (x / 4096) = true := by
  cases inv.owner live has with
  | inl small =>
    obtain ⟨-, le, page⟩ := small
    have := inv.held _ (classOf_lt le) _ page
    rwa [Nat.mul_div_cancel _ (by omega)] at this
  | inr large => exact large.2.1

variable {k : Nat} {d' : HeapAllocationData} {ram' : HeapRam} {c' : SizeClass} {live' : List Block}

theorem slot_of_overlap (live : blk ∈ s.live) (has : blk.Has x) {p a : Nat}
    (lt : k < 7) (page : (C k).pages p) (slot : Slot (k + 4) p a) (lo : a ≤ x) (hi : x < a + 2 ^ (k + 4)) :
    blk.addr = a ∧ classOf blk.size = k := by
  have aligned := ((inv.classes k lt).page p page).1
  have base := slot.base aligned lo hi
  rcases inv.owner live has with ⟨pos, le, owner⟩ | ⟨-, -, none⟩
  · have ltBlk := classOf_lt le
    have same : classOf blk.size = k := inv.apart _ _ ltBlk lt p (by rwa [base] at owner) page
    obtain ⟨q, -, slotQ, -⟩ := inv.small blk live pos le
    obtain ⟨loBlk, hiBlk⟩ := has
    rw [capacity_small pos le] at hiBlk
    rw [same] at slotQ hiBlk
    refine ⟨?_, same⟩
    by_contra ne
    have := slotQ.apart slot ne
    omega
  · exact absurd page (by rw [← base]; exact none k lt)

theorem books_clear (live : blk ∈ s.live) (has : blk.Has x) (lt : k < 7) : ¬ (C k).Books x := by
  intro books
  have cls := inv.classes k lt
  obtain ⟨size, -, -⟩ := (classOf_order lt).two_pow
  rcases books with ⟨p, page, lo, hi⟩ | ⟨a, free, lo, hi⟩
  · have aligned := (cls.page p page).1
    have base : x / 4096 * 4096 = p := by omega
    rcases inv.owner live has with ⟨pos, le, owner⟩ | ⟨-, -, none⟩
    · have ltBlk := classOf_lt le
      obtain ⟨q, pageQ, slotQ, -⟩ := inv.small blk live pos le
      obtain ⟨loBlk, hiBlk⟩ := has
      rw [capacity_small pos le] at hiBlk
      have := slotQ.away_header ((inv.classes _ ltBlk).page q pageQ).1 aligned
      omega
    · exact none k lt (by rwa [base])
  · obtain ⟨p, page, slot⟩ := cls.free_slot free
    obtain ⟨rfl, rfl⟩ := inv.slot_of_overlap live has lt page slot lo (by omega)
    rcases inv.owner live has with ⟨pos, le, -⟩ | ⟨-, -, none⟩
    · obtain ⟨q, pageQ, slotQ, notFree⟩ := inv.small blk live pos le
      exact notFree ((cls.mem_free_iff pageQ slotQ).mp free)
    · exact none _ lt (by rwa [slot.base (cls.page p page).1 lo (by omega)])

theorem sound : s.Sound where
  disjoint := inv.disjoint
  large := fun blk live => le_capacity (inv.fits blk live)
  backed := fun _ live _ has => inv.owner_held live has

theorem update (lt : k < 7) (cls : ClassInv ram'.bytes (k + 4) d' c')
    (outside : ∀ x, ¬ c'.pages (x / 4096 * 4096) → ram'.bytes x = s.ram.bytes x)
    (new : ∀ p, c'.pages p → (C k).pages p ∨ s.ram.held (p / 4096) = false)
    (heldNew : ∀ p, c'.pages p → ram'.held (p / 4096) = true) (heldOld : ∀ q, s.ram.held q = true → ram'.held q = true)
    (here : ∀ blk ∈ live', 0 < blk.size → blk.size ≤ 1024 → classOf blk.size = k →
      ∃ p, c'.pages p ∧ Slot (k + 4) p blk.addr ∧ blk.addr ∉ c'.slots p)
    (others : ∀ blk ∈ live', (0 < blk.size ∧ blk.size ≤ 1024 ∧ classOf blk.size = k) ∨ blk.size = 0 ∨ blk ∈ s.live)
    (disjoint : live'.Pairwise fun blk blk' => ∀ x, blk.Has x → ¬ blk'.Has x) :
    HeapInv ⟨s.heap.setClass k d', ram', live'⟩ (Function.update C k c') := by
  have apartNew : ∀ j < 7, j ≠ k → ∀ p, (C j).pages p → ¬ c'.pages p := by
    intro j ltJ ne p pageJ pageK
    cases new p pageK with
    | inl old => exact ne (inv.apart j k ltJ lt p pageJ old)
    | inr free =>
      rw [inv.held j ltJ p pageJ] at free
      cases free
  have whose : ∀ {j p}, (Function.update C k c' j).pages p → (j = k ∧ c'.pages p) ∨ (j ≠ k ∧ (C j).pages p) := by
    intro j p page
    by_cases eq : j = k
    · exact .inl ⟨eq, by rwa [eq, Function.update_self] at page⟩
    · exact .inr ⟨eq, by rwa [Function.update_of_ne eq] at page⟩
  refine ⟨?_, ?_, ?_, ?_, ?_, ?_, disjoint⟩
  · intro j ltJ
    by_cases eq : j = k
    · subst eq
      simpa [Heap.setClass] using cls
    simp only [Heap.setClass, Function.update_of_ne eq]
    refine (inv.classes j ltJ).congr ?_
    intro x books
    exact outside x (apartNew j ltJ eq _ ((inv.classes j ltJ).books_base (by omega) books))
  · intro j ltJ p page
    rcases whose page with ⟨-, new⟩ | ⟨-, old⟩
    · exact heldNew p new
    · exact heldOld _ (inv.held j ltJ p old)
  · intro i j ltI ltJ p pageI pageJ
    rcases whose pageI with ⟨rfl, newI⟩ | ⟨neI, oldI⟩ <;> rcases whose pageJ with ⟨rfl, newJ⟩ | ⟨neJ, oldJ⟩
    · rfl
    · exact absurd newI (apartNew j ltJ neJ p oldJ)
    · exact absurd newJ (apartNew i ltI neI p oldI)
    · exact inv.apart i j ltI ltJ p oldI oldJ
  · intro blk live pos le
    by_cases eq : classOf blk.size = k
    · rw [eq, Function.update_self]
      exact here blk live pos le eq
    rw [Function.update_of_ne eq]
    rcases others blk live with ⟨-, -, same⟩ | zero | old
    · exact absurd same eq
    · omega
    · exact inv.small blk old pos le
  · intro blk live large
    rcases others blk live with ⟨-, le, -⟩ | zero | old
    · omega
    · omega
    obtain ⟨aligned, pages⟩ := inv.large blk old large
    refine ⟨aligned, fun q lo hi => ⟨heldOld q (pages q lo hi).1, fun j ltJ page => ?_⟩⟩
    rcases whose page with ⟨rfl, newPage⟩ | ⟨-, oldPage⟩
    · cases new _ newPage with
      | inl oldPage => exact (pages q lo hi).2 j ltJ oldPage
      | inr free =>
        rw [Nat.mul_div_cancel _ (by omega), (pages q lo hi).1] at free
        cases free
    · exact (pages q lo hi).2 j ltJ oldPage
  · intro blk live
    rcases others blk live with ⟨-, le, -⟩ | zero | old
    · have : divCeil blk.size 4096 ≤ 1 := by unfold divCeil; omega
      omega
    · rw [zero]
      decide
    · exact inv.fits blk old

theorem rework (lt : k < 7)
    (cls : ClassInv ram'.bytes (k + 4) d' c') (pages : c'.pages = (C k).pages) (writes : Writes c'.Books s.ram ram')
    (here : ∀ blk ∈ live', 0 < blk.size → blk.size ≤ 1024 → classOf blk.size = k →
      ∃ p, (C k).pages p ∧ Slot (k + 4) p blk.addr ∧ blk.addr ∉ c'.slots p)
    (others : ∀ blk ∈ live', (0 < blk.size ∧ blk.size ≤ 1024 ∧ classOf blk.size = k) ∨ blk.size = 0 ∨ blk ∈ s.live)
    (disjoint : live'.Pairwise fun blk blk' => ∀ x, blk.Has x → ¬ blk'.Has x) :
    ∃ C', HeapInv ⟨s.heap.setClass k d', ram', live'⟩ C' ∧ Writes (C' k).Books s.ram ram' := by
  refine ⟨_, inv.update lt cls ?_ ?_ ?_ ?_ (by rwa [pages]) others disjoint, by rwa [Function.update_self]⟩
  · exact fun x out => writes.outside x fun books => out (cls.books_base (classOf_order lt).1 books)
  · exact fun q page => .inl (pages ▸ page)
  · rw [pages, writes.held]
    exact inv.held k lt
  · rw [writes.held]
    exact fun q held => held

theorem withAnswer (answer : Nat) (written : List (Nat × Nat)) :
    HeapInv { s with ram := { s.ram with answer := answer, written := written } } C :=
  ⟨inv.classes, inv.held, inv.apart, inv.small, inv.large, inv.fits, inv.disjoint⟩

theorem refill (lt : k < 7) (pages : FreePages s.ram s.ram.answer 1)
    (unwritten : s.ram.written = []) (run : (s.heap.allocationData k).refill s.ram = some (d', ram')) :
    ∃ c', HeapInv ⟨s.heap.setClass k d', ram', s.live⟩ (Function.update C k c') ∧ c'.free ≠ [] ∧
      ∀ w ∈ ram'.written, ∀ x, w.1 ≤ x → x < w.1 + w.2 → s.ram.held (x / 4096) = false := by
  have cls := inv.classes k lt
  have order := classOf_order lt
  by_cases empty : (C k).free = []
  · obtain ⟨aligned, free⟩ := pages
    obtain ⟨cls', writes⟩ := cls.refill order empty aligned run
    have notHeld : ∀ x, s.ram.answer ≤ x → x < s.ram.answer + 4096 → s.ram.held (x / 4096) = false :=
      fun x lo hi => free (x / 4096) (by omega) (by omega)
    have heldEq : ∀ q, ram'.held q = (decide (q = s.ram.answer / 4096) || s.ram.held q) := by
      intro q
      rw [writes.held]
      simp only [HeapRam.withPages]
      congr 1
      by_cases eq : q = s.ram.answer / 4096 <;> simp [eq]
      omega
    refine ⟨_, inv.update lt cls' ?_ ?_ ?_ ?_ ?_ ?_ inv.disjoint, ?_, ?_⟩
    · intro x out
      refine writes.outside x fun inside => out (.inl ?_)
      omega
    · intro p page
      rcases page with rfl | old
      · exact .inr (free _ (by omega) (by omega))
      · exact .inl old
    · intro p page
      rw [heldEq]
      rcases page with rfl | old
      · simp
      · simp [inv.held k lt p old]
    · intro q held
      simp [heldEq, held]
    · intro blk live pos le same
      obtain ⟨p, page, slot, notFree⟩ := inv.small blk live pos le
      rw [same] at page slot notFree
      refine ⟨p, .inr page, slot, ?_⟩
      have ne : p ≠ s.ram.answer := by
        rintro rfl
        have held := inv.held k lt _ page
        rw [free _ (by omega) (by omega)] at held
        cases held
      simpa only [Function.update_of_ne ne] using notFree
    · exact fun blk live => .inr (.inr live)
    · have pos := order.perPage_pos.1
      have length : (objects (k + 4) s.ram.answer).length = perPage (k + 4) := by simp [objects]
      simp only [SizeClass.free, List.flatMap_cons, List.flatMap_nil, Function.update_self, List.append_nil]
      exact List.ne_nil_of_length_pos (by omega)
    · intro w mem x lo hi
      cases writes.logged w mem with
      | inl old =>
        rw [show (s.ram.withPages 1).written = [] from unwritten] at old
        cases old
      | inr inside =>
        obtain ⟨lo', hi'⟩ := inside x lo hi
        exact notHeld x lo' hi'
  · have some : (s.heap.allocationData k).freeObjects ≠ 0 := by
      rw [cls.count]
      exact fun zero => empty (List.eq_nil_of_length_eq_zero zero)
    unfold HeapAllocationData.refill at run
    rw [if_neg some] at run
    cases run
    refine ⟨C k, ?_, empty, ?_⟩
    · rw [Function.update_eq_self]
      have same : s.heap.setClass k (s.heap.allocationData k) = s.heap := by
        simp [Heap.setClass, Function.update_eq_self]
      rw [same]
      exact inv
    · rw [unwritten]
      exact fun w mem => absurd mem (by simp)

theorem take (pos : 0 < size) (le : size ≤ 1024) (some : (C (classOf size)).free ≠ []) {u : HeapRam}
    (count : HeapAllocationData.countAllocation (s.heap.allocationData (classOf size)).ptrToFirst s.ram = .some ((), u))
    (unlink : (s.heap.allocationData (classOf size)).unlinkFirst u = .some (d', ram')) :
    ∃ C', HeapInv ⟨s.heap.setClass (classOf size) d', ram',
        ⟨(s.heap.allocationData (classOf size)).ptrToFirst, size⟩ :: s.live⟩ C' ∧
      Writes (C' (classOf size)).Books s.ram ram' := by
  have lt := classOf_lt le
  have order := classOf_order lt
  have cls := inv.classes _ lt
  obtain ⟨p, ps, bs, orderEq, slots, cls', writes⟩ := cls.take order some count unlink
  have page : (C (classOf size)).pages p := cls.inPages p (by simp [slots])
  have slot := cls.slot p (s.heap.allocationData (classOf size)).ptrToFirst (by simp [slots])
  have distinct : p ∉ ps := by
    have := cls.distinct
    rw [orderEq] at this
    exact (List.nodup_cons.mp this).1
  have freeEq := SizeClass.popped_free orderEq slots distinct
  have free : (s.heap.allocationData (classOf size)).ptrToFirst ∈ (C (classOf size)).free := by
    rw [freeEq]
    exact .head _
  refine inv.rework lt cls' rfl writes (List.forall_mem_cons.mpr ⟨fun _ _ _ => ⟨p, page, slot, ?_⟩, ?_⟩)
    (List.forall_mem_cons.mpr ⟨.inl ⟨pos, le, rfl⟩, fun blk old => .inr (.inr old)⟩)
    (List.pairwise_cons.mpr ⟨?_, inv.disjoint⟩)
  · have nodup := cls.ring.distinct
    rw [freeEq] at nodup
    exact fun mem => (List.nodup_cons.mp nodup).1 ((cls'.mem_free_iff page slot).mpr mem)
  · intro blk old posB leB same
    obtain ⟨q, pageQ, slotQ, notFree⟩ := inv.small blk old posB leB
    rw [same] at pageQ slotQ notFree
    refine ⟨q, pageQ, slotQ, fun mem => notFree ?_⟩
    refine (cls.mem_free_iff pageQ slotQ).mp ?_
    rw [freeEq]
    exact .tail _ ((cls'.mem_free_iff pageQ slotQ).mpr mem)
  · intro blk live x hasNew hasOld
    obtain ⟨lo, hi⟩ := hasNew
    rw [capacity_small pos le] at hi
    obtain ⟨same, -⟩ := inv.slot_of_overlap live hasOld lt page slot lo hi
    -- the object was free, so its first byte is no byte of a live block
    have first : blk.Has blk.addr := ⟨Nat.le_refl _, by have := hasOld.1; have := hasOld.2; omega⟩
    exact inv.books_clear live first lt (.inr ⟨_, free, by omega, by omega⟩)

theorem disjoint_erase (live : blk ∈ s.live) {other : Block}
    (liveOther : other ∈ s.live.erase blk) (has : blk.Has x) : ¬ other.Has x := by
  have pairwise : (blk :: s.live.erase blk).Pairwise fun a b => ∀ x, a.Has x → ¬ b.Has x :=
    ((List.perm_cons_erase live).pairwise_iff fun h x hb ha => h x ha hb).mp inv.disjoint
  exact (List.pairwise_cons.mp pairwise).1 other liveOther x has

theorem give (live : blk ∈ s.live) (pos : 0 < blk.size) (le : blk.size ≤ 1024)
    (run : (s.heap.allocationData (classOf blk.size)).deallocate blk.addr s.ram = some (d', ram')) :
    ∃ C', HeapInv ⟨s.heap.setClass (classOf blk.size) d', ram', s.live.erase blk⟩ C' ∧
      Writes (C' (classOf blk.size)).Books s.ram ram' := by
  have lt := classOf_lt le
  have order := classOf_order lt
  have cls := inv.classes _ lt
  obtain ⟨p, page, slot, notFree⟩ := inv.small blk live pos le
  obtain ⟨cls', writes⟩ := cls.give order page slot notFree run
  refine inv.rework lt cls' rfl writes ?_ (fun other liveOther => .inr (.inr (List.mem_of_mem_erase liveOther)))
    (inv.disjoint.sublist List.erase_sublist)
  · intro other liveOther posO leO same
    obtain ⟨q, pageQ, slotQ, notFreeQ⟩ := inv.small other (List.mem_of_mem_erase liveOther) posO leO
    rw [same] at pageQ slotQ notFreeQ
    refine ⟨q, pageQ, slotQ, ?_⟩
    -- the freed block is disjoint from the others, so no other block starts where it does
    have ne : other.addr ≠ blk.addr := by
      intro eq
      have sizes : 0 < capacity blk.size ∧ 0 < capacity other.size := by
        rw [capacity_small pos le, capacity_small posO leO]
        exact ⟨Nat.two_pow_pos _, Nat.two_pow_pos _⟩
      have hasBlk : blk.Has blk.addr := ⟨Nat.le_refl _, by omega⟩
      exact inv.disjoint_erase live liveOther hasBlk ⟨by omega, by omega⟩
    have grownSlots : ((C (classOf blk.size)).grown p blk.addr).slots =
        Function.update (C (classOf blk.size)).slots p ((C (classOf blk.size)).slots p ++ [blk.addr]) := rfl
    rw [grownSlots]
    by_cases eq : q = p
    · subst eq
      simpa [ne] using notFreeQ
    · simpa [Function.update_of_ne eq] using notFreeQ

theorem erase (blk : Block) : HeapInv { s with live := s.live.erase blk } C :=
  { inv with
    small := fun other mem => inv.small other (List.mem_of_mem_erase mem)
    large := fun other mem => inv.large other (List.mem_of_mem_erase mem)
    fits := fun other mem => inv.fits other (List.mem_of_mem_erase mem)
    disjoint := inv.disjoint.sublist List.erase_sublist }

theorem takePages (large : 1024 < size) (fits : divCeil size 4096 < 2 ^ 32)
    (pages : FreePages s.ram s.ram.answer (divCeil size 4096)) :
    HeapInv ⟨s.heap, s.ram.withPages (divCeil size 4096), ⟨s.ram.answer, size⟩ :: s.live⟩ C := by
  obtain ⟨aligned, free⟩ := pages
  have heldOld : ∀ q, s.ram.held q = true → (s.ram.withPages (divCeil size 4096)).held q = true := by
    intro q held
    simp [HeapRam.withPages, held]
  refine ⟨inv.classes, fun k lt p page => heldOld _ (inv.held k lt p page), inv.apart,
    List.forall_mem_cons.mpr ⟨fun _ le => absurd le (Nat.not_le_of_lt large), inv.small⟩,
    List.forall_mem_cons.mpr ⟨fun _ => ⟨aligned, fun q lo hi => ⟨?_, fun k lt page => ?_⟩⟩, fun blk old largeB => ?_⟩,
    List.forall_mem_cons.mpr ⟨fits, inv.fits⟩, List.pairwise_cons.mpr ⟨?_, inv.disjoint⟩⟩
  · simp [HeapRam.withPages, lo, hi]
  · have held := inv.held k lt _ page
    rw [Nat.mul_div_cancel _ (by omega), free q lo hi] at held
    cases held
  · obtain ⟨alignedB, pagesB⟩ := inv.large blk old largeB
    exact ⟨alignedB, fun q lo hi => ⟨heldOld q (pagesB q lo hi).1, (pagesB q lo hi).2⟩⟩
  intro blk live x hasNew hasOld
  obtain ⟨lo, hi⟩ := hasNew
  rw [capacity_large large, Nat.mod_eq_of_lt fits] at hi
  have held := inv.owner_held live hasOld
  simp only at lo hi
  rw [free (x / 4096) (by omega) (by omega)] at held
  cases held

theorem givePages (live : blk ∈ s.live) (large : 1024 < blk.size) :
    HeapInv ⟨s.heap, { s.ram with held := fun q => !(decide (blk.addr / 4096 ≤ q) &&
        decide (q < blk.addr / 4096 + divCeil blk.size 4096)) && s.ram.held q }, s.live.erase blk⟩ C := by
  obtain ⟨aligned, pages⟩ := inv.large blk live large
  have kept : ∀ q, s.ram.held q = true → ¬ (blk.addr / 4096 ≤ q ∧ q < blk.addr / 4096 + divCeil blk.size 4096) →
      (!(decide (blk.addr / 4096 ≤ q) && decide (q < blk.addr / 4096 + divCeil blk.size 4096)) &&
        s.ram.held q) = true := by
    intro q held out
    simp only [held, Bool.and_true, Bool.not_eq_true', Bool.and_eq_false_iff, decide_eq_false_iff_not]
    omega
  refine { inv.erase blk with held := ?_, large := ?_ }
  · intro k lt p page
    refine kept _ (inv.held k lt p page) ?_
    rintro ⟨lo, hi⟩
    have alignedP := ((inv.classes k lt).page p page).1
    exact (pages _ lo hi).2 k lt (by rwa [Nat.div_mul_cancel alignedP])
  intro other liveOther largeO
  obtain ⟨alignedO, pagesO⟩ := inv.large other (List.mem_of_mem_erase liveOther) largeO
  refine ⟨alignedO, fun q lo hi => ⟨kept q (pagesO q lo hi).1 ?_, (pagesO q lo hi).2⟩⟩
  rintro ⟨lo', hi'⟩
  have fitsO := inv.fits other (List.mem_of_mem_erase liveOther)
  have fits := inv.fits blk live
  have hasBlk : blk.Has (q * 4096) := by
    unfold Block.Has
    rw [capacity_large large, Nat.mod_eq_of_lt fits]
    omega
  have hasOther : other.Has (q * 4096) := by
    unfold Block.Has
    rw [capacity_large largeO, Nat.mod_eq_of_lt fitsO]
    omega
  exact inv.disjoint_erase live liveOther hasBlk hasOther

theorem kernelWrites {bytes : Bytes}
    (same : ∀ x, s.ram.held (x / 4096) = true → (∀ blk ∈ s.live, ¬ blk.Has x) → bytes x = s.ram.bytes x) :
    HeapInv { s with ram := { s.ram with bytes := bytes, written := [] } } C := by
  refine { inv with classes := ?_ }
  intro k lt
  refine (inv.classes k lt).congr ?_
  intro x books
  refine same x ?_ fun blk live has => inv.books_clear live has lt books
  have held := inv.held k lt _ ((inv.classes k lt).books_base (by omega) books)
  rwa [Nat.mul_div_cancel _ (by omega)] at held

omit inv in
theorem boot (selfAddr : Nat) (bytes : Bytes) :
    HeapInv (.boot selfAddr bytes) fun _ => ⟨fun _ => False, [], fun _ => []⟩ := by
  refine ⟨fun k lt => ?_, fun _ _ _ page => page.elim, fun _ _ _ _ _ page => page.elim, nofun, nofun, nofun, .nil⟩
  exact ⟨rfl, rfl, by simp [SizeClass.free], .nil, by simp, .nil, by simp, by simp, by simp⟩

end HeapInv

/-! ## Steps and runs -/

/-- The number of pages of the request fits the 32 bits in which it is passed on. -/
def HeapOp.Fits : HeapOp → Prop
  | .allocate size _ => size ≤ 4096 * (2 ^ 32 - 1)
  | .deallocate _ => True
  | .kernelWrites _ => True

section Steps

variable {s t : HeapState} {C : Nat → SizeClass}

theorem HeapInv.emptyBlock (inv : HeapInv s C) (addr : Nat) : HeapInv { s with live := ⟨addr, 0⟩ :: s.live } C := by
  refine
    { inv with
      small := List.forall_mem_cons.mpr ⟨nofun, inv.small⟩
      large := List.forall_mem_cons.mpr ⟨nofun, inv.large⟩
      fits := List.forall_mem_cons.mpr ⟨by simp [divCeil], inv.fits⟩
      disjoint := List.pairwise_cons.mpr ⟨?_, inv.disjoint⟩ }
  · rintro blk live x ⟨lo, hi⟩
    exact absurd lo (Nat.not_le_of_lt hi)

variable {ram : HeapRam} {heap : Heap}

theorem HeapInv.takeSmall (inv : HeapInv s C) {addr : Nat} {d : HeapAllocationData}
    (pos : 0 < size) (le : size ≤ 1024) (pages : FreePages s.ram s.ram.answer 1) (unwritten : s.ram.written = [])
    (run : (s.heap.allocationData (classOf size)).allocate s.ram = some ((addr, d), ram)) :
    (∃ C', HeapInv ⟨s.heap.setClass (classOf size) d, ram, ⟨addr, size⟩ :: s.live⟩ C') ∧
      Untouched s ⟨s.heap.setClass (classOf size) d, ram, ⟨addr, size⟩ :: s.live⟩ := by
  have lt := classOf_lt le
  obtain ⟨d1, ram1, refilled, ⟨⟩, ram2, counted, run⟩ := bind₂_eq_some.mp run
  obtain ⟨-, run⟩ := assert_bind_eq_some.mp run
  obtain ⟨d2, ram4, unlinked, run⟩ := bind_eq_some.mp run
  cases run
  obtain ⟨c1, inv1, some, fresh⟩ := inv.refill lt pages unwritten refilled
  have data : (s.heap.setClass (classOf size) d1).allocationData (classOf size) = d1 :=
    Function.update_self _ _ _
  have twice : (s.heap.setClass (classOf size) d1).setClass (classOf size) d = s.heap.setClass (classOf size) d := by
    simp [Heap.setClass, Function.update_idem]
  obtain ⟨C', inv', writes⟩ := inv1.take pos le (by rwa [Function.update_self])
    (by rw [data]; exact counted) (by rw [data]; exact unlinked)
  simp only [data, twice] at inv'
  refine ⟨⟨C', inv'⟩, ?_⟩
  intro w mem blk live live' x lo hi has
  cases writes.logged w mem with
  | inl old =>
    have held := inv.owner_held live has
    rw [fresh w old x lo hi] at held
    cases held
  | inr books => exact inv'.books_clear live' has lt (books x lo hi)

theorem allocate_inv {answer addr : Nat} (inv : HeapInv s C)
    (fits : divCeil size 4096 < 2 ^ 32) (pages : FreePages s.ram answer (pagesAsked size))
    (run : s.heap.allocate size { s.ram with answer := answer, written := [] } = some ((addr, heap), ram)) :
    (∃ C', HeapInv ⟨heap, ram, ⟨addr, size⟩ :: s.live⟩ C') ∧ Untouched s ⟨heap, ram, ⟨addr, size⟩ :: s.live⟩ := by
  have inv0 := inv.withAnswer answer []
  unfold Heap.allocate at run
  split at run
  next zero =>
    cases run
    subst zero
    exact ⟨⟨C, inv0.emptyBlock _⟩, fun w mem => absurd mem (by simp)⟩
  · by_cases large : size > 1024
    · rw [if_pos large, bind_of_eq_some (allocatePages_run _ _), Nat.mod_eq_of_lt fits] at run
      rw [pagesAsked, if_pos large, Nat.mod_eq_of_lt fits] at pages
      cases run
      exact ⟨⟨C, inv0.takePages large fits pages⟩, fun w mem => absurd mem (by simp [HeapRam.withPages])⟩
    · rw [if_neg large] at run
      rw [pagesAsked, if_neg large] at pages
      obtain ⟨-, run⟩ := assert_bind_eq_some.mp run
      obtain ⟨⟨a, d⟩, v, alloc, run⟩ := bind_eq_some.mp run
      cases run
      exact inv0.takeSmall (by omega) (by omega) pages rfl alloc

theorem deallocate_inv {blk : Block} (inv : HeapInv s C) (live : blk ∈ s.live)
    (run : s.heap.deallocate blk.addr blk.size { s.ram with written := [] } = some (heap, ram)) :
    (∃ C', HeapInv ⟨heap, ram, s.live.erase blk⟩ C') ∧ Untouched s ⟨heap, ram, s.live.erase blk⟩ := by
  have inv0 := inv.withAnswer s.ram.answer []
  unfold Heap.deallocate at run
  split at run
  · cases run
    exact ⟨⟨C, inv0.erase blk⟩, fun w mem => absurd mem (by simp)⟩
  by_cases large : blk.size > 1024
  · have start : blk.addr / 4096 * 4096 = blk.addr := Nat.div_mul_cancel (inv.large blk live large).1
    rw [if_pos large, start] at run
    cases run
    exact ⟨⟨C, inv0.givePages live large⟩, fun w mem => absurd mem (by simp)⟩
  rw [if_neg large] at run
  have pos : 0 < blk.size := by omega
  have le : blk.size ≤ 1024 := by omega
  have lt := classOf_lt le
  obtain ⟨p, page, slot, -⟩ := inv.small blk live pos le
  obtain ⟨aligned, -, books⟩ := (inv.classes _ lt).page p page
  -- the header of the block's page names the class of the block
  rw [slot.page_eq aligned, bind_of_eq_some (metadata_load_run _ _)] at run
  have order : (metadataAt s.ram.bytes p).sizeOrderOfObjects = classOf blk.size + 4 := books.sizeOrder
  simp only [order, Nat.add_sub_cancel] at run
  obtain ⟨⟨⟩, u, check, ⟨⟩, u', check', run⟩ := bind₂_eq_some.mp run
  rw [assert_run, if_pos (by simpa using lt)] at check'
  cases check
  cases check'
  obtain ⟨d, v, freed, run⟩ := bind_eq_some.mp run
  cases run
  obtain ⟨C', inv', writes⟩ := inv0.give live pos le freed
  refine ⟨⟨C', inv'⟩, ?_⟩
  intro w mem other _ live' x lo hi has
  cases writes.logged w mem with
  | inl old => cases old
  | inr inside => exact inv'.books_clear live' has lt (inside x lo hi)

theorem heapStep_inv {op : HeapOp} (inv : HeapInv s C) (fits : op.Fits) (step : HeapStep s op t) :
    (∃ C', HeapInv t C') ∧ Untouched s t := by
  cases step with
  | allocate pages run =>
    refine allocate_inv inv ?_ pages run
    simp only [HeapOp.Fits] at fits
    unfold divCeil
    omega
  | deallocate live run => exact deallocate_inv inv live run
  | kernelWrites same => exact ⟨⟨C, inv.kernelWrites same⟩, fun w mem => absurd mem (by simp)⟩

theorem heapRun_inv {ops : List HeapOp} (inv : HeapInv s C) (fits : ∀ op ∈ ops, op.Fits)
    (run : HeapRun s ops t) : ∃ C', HeapInv t C' := by
  induction run with
  | start => exact ⟨C, inv⟩
  | step _ last ih =>
    obtain ⟨C', inv'⟩ := ih fun op mem => fits op (.tail _ mem)
    exact (heapStep_inv inv' (fits _ (.head _)) last).1

end Steps

/-- In every state the heap reaches its live blocks are exclusive, and the next operation leaves them
alone. -/
theorem heap_blocks_exclusive {selfAddr : Nat} {bytes : Bytes} {ops : List HeapOp} {s : HeapState}
    (run : HeapRun (.boot selfAddr bytes) ops s) (fits : ∀ op ∈ ops, op.Fits) :
    s.Sound ∧ ∀ op t, op.Fits → HeapStep s op t → Untouched s t := by
  obtain ⟨C, inv⟩ := heapRun_inv (HeapInv.boot selfAddr bytes) fits run
  exact ⟨inv.sound, fun op t fitsOp step => (heapStep_inv inv fitsOp step).2⟩

/-- Two blocks of one page, the first of which is given back before the next request. -/
theorem heap_blocks_exclusive_reused : ∃ s, HeapRun (.boot 0 Bytes.zero)
    [.allocate 1024 131072, .deallocate ⟨66560, 1024⟩, .allocate 1024 131072, .allocate 1024 65536] s ∧
      s.live.length = 2 ∧ s.Sound := by
  have script : (((Heap.new 0).allocate 1024 ⟨Bytes.zero, fun _ => false, 65536, []⟩).bind fun first =>
      (first.1.2.allocate 1024 { first.2 with answer := 131072, written := [] }).bind fun second =>
      (second.1.2.deallocate 66560 1024 { second.2 with written := [] }).bind fun freed =>
      (freed.1.allocate 1024 { freed.2 with answer := 131072, written := [] }).map fun _ =>
        (first.1.1, second.1.1, first.2.held 32, freed.2.held 32)) = some (66560, 67584, false, false) := by
    decide +kernel
  simp only [Option.bind_eq_some_iff, Option.map_eq_some_iff] at script
  obtain ⟨⟨⟨_, heap₁⟩, ram₁⟩, first, ⟨⟨_, heap₂⟩, ram₂⟩, second, ⟨heap₃, ram₃⟩, freed, ⟨⟨addr, heap₄⟩, ram₄⟩, third,
    values⟩ := script
  simp only [Prod.mk.injEq] at values
  obtain ⟨rfl, rfl, free₁, free₃⟩ := values
  -- the page at 131072 is offered to the later requests, and not taken
  have offered {ram : HeapRam} (free : ram.held 32 = false) : FreePages ram 131072 (pagesAsked 1024) :=
    ⟨by decide, fun q lo hi => by
      obtain rfl : q = 32 := by
        rw [pagesAsked, if_neg (by decide)] at hi
        omega
      exact free⟩
  have live : (⟨66560, 1024⟩ : Block) ∈ [⟨67584, 1024⟩, ⟨66560, 1024⟩] := by simp
  have run : HeapRun (.boot 0 Bytes.zero) _ ⟨heap₄, ram₄, [⟨addr, 1024⟩, ⟨67584, 1024⟩]⟩ :=
    .step (.step (.step (.step .start (.allocate ⟨by decide, fun _ _ _ => rfl⟩ first)) (.allocate (offered free₁) second))
      (.deallocate live freed)) (.allocate (offered free₃) third)
  refine ⟨_, run, rfl, (heap_blocks_exclusive run ?_).1⟩
  simp [HeapOp.Fits]

/-- A request whose number of pages is `2 ^ 32 + 1` is served with a single page. -/
theorem truncated_request_too_small : ¬ ∀ (selfAddr : Nat) (bytes : Bytes) (ops : List HeapOp) (s : HeapState),
      HeapRun (.boot selfAddr bytes) ops s → s.Sound := by
  intro all
  have run : HeapRun (.boot 0 Bytes.zero) [.allocate (2 ^ 44 + 1) 65536]
      ⟨Heap.new 0, (⟨Bytes.zero, fun _ => false, 65536, []⟩ : HeapRam).withPages 1, [⟨65536, 2 ^ 44 + 1⟩]⟩ :=
    .step .start (.allocate ⟨by decide, fun _ _ _ => rfl⟩ rfl)
  have large := (all 0 Bytes.zero _ _ run).large ⟨65536, 2 ^ 44 + 1⟩ (by simp)
  exact absurd large (by decide)

end MeowOs.Memory
