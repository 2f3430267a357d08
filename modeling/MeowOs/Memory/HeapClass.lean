import MeowOs.Machine.Ring
import MeowOs.Memory.Heap

/-! # One size class of the heap

`SizeClass` is what a size class is for: a set of pages, and for each page the
queue of its free objects; the queues of the pages that have one, one after the
other, are the free list.  `ClassInv` says that the bytes of memory represent
such a class.  The free list is a `Ring`, so an object's back pointer is only
trusted once the object is the first of the list.

`Books` are the bytes that belong to the representation: the page headers and
the first 16 bytes of every free object.  `Writes` says that a program wrote
inside a given set of bytes only.
-/

namespace MeowOs.Memory

open MeowOs.Machine HeapRam

/-! ## What a program writes -/

/-- The run from `s` to `s'` wrote inside `W` only, and kept the pages it holds. -/
structure Writes (W : Nat → Prop) (s s' : HeapRam) : Prop where
  outside : ∀ x, ¬ W x → s'.bytes x = s.bytes x
  logged : ∀ w ∈ s'.written, w ∈ s.written ∨ ∀ x, w.1 ≤ x → x < w.1 + w.2 → W x
  held : s'.held = s.held

namespace Writes

variable {W : Nat → Prop} {s s' s'' : HeapRam}

theorem refl : Writes W s s := ⟨fun _ _ => rfl, fun _ mem => .inl mem, rfl⟩

theorem trans (fst : Writes W s s') (snd : Writes W s' s'') : Writes W s s'' := by
  refine ⟨fun x out => (snd.outside x out).trans (fst.outside x out), ?_, snd.held.trans fst.held⟩
  intro w mem
  cases snd.logged w mem with
  | inl old => exact fst.logged w old
  | inr inside => exact .inr inside

theorem mono {V : Nat → Prop} (writes : Writes W s s') (sub : ∀ x, W x → V x) : Writes V s s' := by
  refine ⟨fun x out => writes.outside x fun inside => out (sub x inside), ?_, writes.held⟩
  intro w mem
  cases writes.logged w mem with
  | inl old => exact .inl old
  | inr inside => exact .inr fun x lo hi => sub x (inside x lo hi)

end Writes

def HeapRam.stored (s : HeapRam) (addr w value : Nat) : HeapRam :=
  { s with bytes := s.bytes.writeLE addr w value, written := (addr, w) :: s.written }

theorem store_run (s : HeapRam) (addr w value : Nat) : store addr w value s = some ((), s.stored addr w value) := rfl

theorem load_run (s : HeapRam) (addr w : Nat) : load addr w s = some (s.bytes.readLE addr w, s) := rfl

@[simp] theorem stored_bytes (s : HeapRam) (addr w value : Nat) :
    (s.stored addr w value).bytes = s.bytes.writeLE addr w value := rfl

theorem stored_writes {W : Nat → Prop} {s : HeapRam} {addr w value : Nat}
    (inside : ∀ x, addr ≤ x → x < addr + w → W x) : Writes W s (s.stored addr w value) := by
  refine ⟨fun x out => Bytes.writeLE_outside ?_, List.forall_mem_cons.mpr ⟨.inr inside, fun _ => .inl⟩, rfl⟩
  by_contra inRange
  exact out (inside x (by omega) (by omega))

/-! ## Objects -/

def Slot (o p a : Nat) : Prop := p + 24 ≤ a ∧ a + 2 ^ o ≤ p + 4096 ∧ 2 ^ o ∣ a

def IsOrder (o : Nat) : Prop := 4 ≤ o ∧ o ≤ 10

variable {o p a number x : Nat} {b b' : Bytes} {d : HeapAllocationData} {c : SizeClass}

theorem IsOrder.two_pow (order : IsOrder o) : 16 ≤ 2 ^ o ∧ 2 ^ o ≤ 1024 ∧ 2 ^ o ∣ 4096 := by
  obtain ⟨lo, hi⟩ := order
  interval_cases o <;> decide

def perPage (o : Nat) : Nat := 4072 / 2 ^ o

theorem IsOrder.perPage_pos (order : IsOrder o) : 1 ≤ perPage o ∧ perPage o < 256 := by
  obtain ⟨lo, hi⟩ := order
  interval_cases o <;> decide

theorem Slot.page_eq (slot : Slot o p a) (aligned : 4096 ∣ p) : a / 4096 * 4096 = p := by
  obtain ⟨lo, hi, -⟩ := slot
  have pos : 0 < 2 ^ o := Nat.two_pow_pos o
  omega

theorem Slot.base (slot : Slot o p a) (aligned : 4096 ∣ p) (lo : a ≤ x) (hi : x < a + 2 ^ o) : x / 4096 * 4096 = p := by
  obtain ⟨above, inside, -⟩ := slot
  omega

theorem Slot.apart {q b : Nat} (slotA : Slot o p a) (slotB : Slot o q b) (ne : a ≠ b) :
    a + 2 ^ o ≤ b ∨ b + 2 ^ o ≤ a := by
  obtain ⟨i, rfl⟩ := slotA.2.2
  obtain ⟨j, rfl⟩ := slotB.2.2
  rcases Nat.lt_or_gt_of_ne (fun eq : i = j => ne (by rw [eq])) with lt | gt
  · left
    calc 2 ^ o * i + 2 ^ o = 2 ^ o * (i + 1) := by rw [Nat.mul_succ]
      _ ≤ 2 ^ o * j := Nat.mul_le_mul_left _ lt
  · right
    calc 2 ^ o * j + 2 ^ o = 2 ^ o * (j + 1) := by rw [Nat.mul_succ]
      _ ≤ 2 ^ o * i := Nat.mul_le_mul_left _ gt

/-! ## The class -/

structure SizeClass where
  pages : Nat → Prop
  order : List Nat
  slots : Nat → List Nat

namespace SizeClass

def free (c : SizeClass) : List Nat := c.order.flatMap c.slots

def Books (c : SizeClass) (x : Nat) : Prop :=
  (∃ p, c.pages p ∧ p ≤ x ∧ x < p + 24) ∨ ∃ a ∈ c.free, a ≤ x ∧ x < a + 16

theorem mem_free : a ∈ c.free ↔ ∃ p ∈ c.order, a ∈ c.slots p := by
  simp [free]

end SizeClass

/-- The header of the page at `p` says what is free in it. -/
structure PageBooks (b : Bytes) (o p : Nat) (free : List Nat) : Prop where
  sizeOrder : b.readLE p 1 = o
  number : b.readLE (p + 1) 1 + free.length = perPage o
  max : b.readLE (p + 2) 1 = perPage o
  last : ∀ a, free.getLast? = some a → b.readLE (p + 16) 8 = a

/-- The bytes `b` and the record `d` represent the class `c` of objects of `2 ^ o` bytes. -/
structure ClassInv (b : Bytes) (o : Nat) (d : HeapAllocationData) (c : SizeClass) : Prop where
  sizeOrder : d.sizeOrderOfObjects = o
  count : d.freeObjects = c.free.length
  first : ∀ a, c.free.head? = some a → d.ptrToFirst = a
  ring : Ring (ptrToNext b) (ptrToPrev b) c.free
  listed : ∀ p, p ∈ c.order ↔ c.slots p ≠ []
  distinct : c.order.Nodup
  inPages : ∀ p, c.slots p ≠ [] → c.pages p
  slot : ∀ p, ∀ a ∈ c.slots p, Slot o p a
  page : ∀ p, c.pages p → 4096 ∣ p ∧ p + 4096 < 2 ^ 64 ∧ PageBooks b o p (c.slots p)

namespace PageBooks

variable {b b' : Bytes} {o p : Nat} {free : List Nat}

theorem congr (books : PageBooks b o p free) (same : ∀ x, p ≤ x → x < p + 24 → b' x = b x) : PageBooks b' o p free := by
  have word : ∀ off w, off + w ≤ 24 → b'.readLE (p + off) w = b.readLE (p + off) w := fun off w fits =>
    Bytes.readLE_congr fun k lt => same _ (by omega) (by omega)
  refine ⟨(word 0 1 (by omega)).trans books.sizeOrder, ?_, (word 2 1 (by omega)).trans books.max, ?_⟩
  · rw [word 1 1 (by omega)]
    exact books.number
  · intro a last
    rw [word 16 8 (by omega)]
    exact books.last a last

end PageBooks

namespace ClassInv

variable {b b' : Bytes} {o : Nat} {d : HeapAllocationData} {c : SizeClass}

theorem free_slot (inv : ClassInv b o d c) (mem : a ∈ c.free) : ∃ p, c.pages p ∧ Slot o p a := by
  obtain ⟨p, listed, mem⟩ := SizeClass.mem_free.mp mem
  exact ⟨p, inv.inPages p ((inv.listed p).mp listed), inv.slot p a mem⟩

theorem books_base (inv : ClassInv b o d c) (order : 4 ≤ o) {x : Nat} (books : c.Books x) :
    c.pages (x / 4096 * 4096) := by
  have size : 2 ^ 4 ≤ 2 ^ o := Nat.pow_le_pow_right (by omega) order
  rcases books with ⟨p, page, lo, hi⟩ | ⟨a, free, lo, hi⟩
  · have aligned := (inv.page p page).1
    rwa [show x / 4096 * 4096 = p by omega]
  · obtain ⟨p, page, slot⟩ := inv.free_slot free
    rwa [slot.base (inv.page p page).1 lo (by omega)]

theorem mem_free_iff (inv : ClassInv b o d c) (page : c.pages p) (slot : Slot o p a) : a ∈ c.free ↔ a ∈ c.slots p := by
  constructor
  · intro mem
    obtain ⟨q, listed, mem⟩ := SizeClass.mem_free.mp mem
    have pageQ := inv.inPages q ((inv.listed q).mp listed)
    have eqP := slot.page_eq (inv.page p page).1
    have eqQ := (inv.slot q a mem).page_eq (inv.page q pageQ).1
    rwa [← eqP, eqQ]
  · intro mem
    exact SizeClass.mem_free.mpr ⟨p, (inv.listed p).mpr (List.ne_nil_of_mem mem), mem⟩

theorem ring_congr {l : List Nat} (ring : Ring (ptrToNext b) (ptrToPrev b) l)
    (same : ∀ a ∈ l, ∀ x, a ≤ x → x < a + 16 → b' x = b x) : Ring (ptrToNext b') (ptrToPrev b') l := by
  refine ring.congr (fun a mem => ?_) fun a mem => ?_
  all_goals exact Bytes.readLE_congr fun k lt => same a mem _ (by omega) (by omega)

theorem congr (inv : ClassInv b o d c) (same : ∀ x, c.Books x → b' x = b x) : ClassInv b' o d c := by
  refine { inv with ring := ?_, page := ?_ }
  · exact ring_congr inv.ring fun a mem x lo hi => same x (.inr ⟨a, mem, lo, hi⟩)
  · intro p page
    obtain ⟨aligned, below, books⟩ := inv.page p page
    exact ⟨aligned, below, books.congr fun x lo hi => same x (.inl ⟨p, page, lo, hi⟩)⟩

end ClassInv

/-! ## Pointers after a store -/

section Pointers

variable {b : Bytes} {x y v off : Nat}

theorem ptrToNext_writeNext_self (small : v < 2 ^ 64) : ptrToNext (b.writeLE (x + 8) 8 v) x = v := by
  unfold ptrToNext
  rw [Bytes.readLE_writeLE]
  omega

theorem ptrToPrev_writePrev_self (small : v < 2 ^ 64) : ptrToPrev (b.writeLE x 8 v) x = v := by
  unfold ptrToPrev
  rw [Bytes.readLE_writeLE]
  omega

theorem ptrToNext_write_other {w : Nat} (away : off + w ≤ x ∨ x + 16 ≤ off) :
    ptrToNext (b.writeLE off w v) x = ptrToNext b x := Bytes.readLE_writeLE_disjoint (by omega)

theorem ptrToPrev_write_other {w : Nat} (away : off + w ≤ x ∨ x + 16 ≤ off) :
    ptrToPrev (b.writeLE off w v) x = ptrToPrev b x := Bytes.readLE_writeLE_disjoint (by omega)

theorem ptrToNext_writePrev (away : x = y ∨ x + 16 ≤ y ∨ y + 16 ≤ x) :
    ptrToNext (b.writeLE y 8 v) x = ptrToNext b x := Bytes.readLE_writeLE_disjoint (by omega)

theorem ptrToPrev_writeNext (away : x = y ∨ x + 16 ≤ y ∨ y + 16 ≤ x) :
    ptrToPrev (b.writeLE (y + 8) 8 v) x = ptrToPrev b x := Bytes.readLE_writeLE_disjoint (by omega)

end Pointers

def Spaced (l : List Nat) : Prop := ∀ x ∈ l, x < 2 ^ 64 ∧ ∀ y ∈ l, x = y ∨ x + 16 ≤ y ∨ y + 16 ≤ x

theorem ClassInv.spaced (order : IsOrder o) (inv : ClassInv b o d c) : Spaced c.free := by
  intro x memX
  obtain ⟨p, pageP, slotX⟩ := inv.free_slot memX
  have below := (inv.page p pageP).2.1
  have size := order.two_pow.1
  refine ⟨by have := slotX.2.1; omega, ?_⟩
  intro y memY
  obtain ⟨q, -, slotY⟩ := inv.free_slot memY
  by_cases eq : x = y
  · exact .inl eq
  · have := slotX.apart slotY eq
    exact .inr (by omega)

theorem ClassInv.first_page (inv : ClassInv b o d c) (some : c.free ≠ []) :
    ∃ p ps a bs, c.order = p :: ps ∧ c.slots p = a :: bs ∧ p ∉ ps ∧ d.ptrToFirst = a := by
  cases order : c.order with
  | nil => exact absurd (by simp [SizeClass.free, order]) some
  | cons p ps =>
    have listed : c.slots p ≠ [] := (inv.listed p).mp (by simp [order])
    obtain ⟨a, bs, slots⟩ := List.exists_cons_of_ne_nil listed
    have distinct := inv.distinct
    rw [order] at distinct
    refine ⟨p, ps, a, bs, rfl, slots, (List.nodup_cons.mp distinct).1, ?_⟩
    exact inv.first a (by simp [SizeClass.free, order, slots])

/-! ## Changes of a header and of a queue -/

def metadataAt (b : Bytes) (p : Nat) : HeapPageMetadata :=
  ⟨b.readLE p 1, b.readLE (p + 1) 1, b.readLE (p + 2) 1, b.readLE (p + 8) 8, b.readLE (p + 16) 8⟩

theorem metadata_load_run (s : HeapRam) (p : Nat) : HeapPageMetadata.load p s = some (metadataAt s.bytes p, s) := rfl

/-- The header at `p` of `b'` is that of `b` with another number of allocations, and maybe another
pointer to the first free object. -/
structure Recount (b b' : Bytes) (p number : Nat) : Prop where
  sizeOrder : b'.readLE p 1 = b.readLE p 1
  number : b'.readLE (p + 1) 1 = number
  max : b'.readLE (p + 2) 1 = b.readLE (p + 2) 1
  last : b'.readLE (p + 16) 8 = b.readLE (p + 16) 8

theorem Recount.of_number (b : Bytes) (p : Nat) (small : number < 256) :
    Recount b (b.writeLE (p + 1) 1 number) p number := by
  refine ⟨Bytes.readLE_writeLE_disjoint (by omega), ?_, Bytes.readLE_writeLE_disjoint (by omega),
    Bytes.readLE_writeLE_disjoint (by omega)⟩
  rw [Bytes.readLE_writeLE]
  omega

theorem Recount.writeFirst {v : Nat} (recount : Recount b b' p number) : Recount b (b'.writeLE (p + 8) 8 v) p number :=
  ⟨(Bytes.readLE_writeLE_disjoint (by omega)).trans recount.sizeOrder,
    (Bytes.readLE_writeLE_disjoint (by omega)).trans recount.number,
    (Bytes.readLE_writeLE_disjoint (by omega)).trans recount.max,
    (Bytes.readLE_writeLE_disjoint (by omega)).trans recount.last⟩

theorem PageBooks.recount {free free' : List Nat} (books : PageBooks b o p free) (recount : Recount b b' p number)
    (total : number + free'.length = perPage o)
    (last : ∀ a, free'.getLast? = some a → free.getLast? = some a) : PageBooks b' o p free' := by
  refine ⟨recount.sizeOrder.trans books.sizeOrder, ?_, recount.max.trans books.max, ?_⟩
  · rw [recount.number]
    exact total
  · intro a lastA
    rw [recount.last]
    exact books.last a (last a lastA)

theorem Slot.away_header {q : Nat} (slot : Slot o p a) (alignedP : 4096 ∣ p) (alignedQ : 4096 ∣ q) :
    a + 2 ^ o ≤ q ∨ q + 24 ≤ a := by
  obtain ⟨above, inside, -⟩ := slot
  omega

/-- The pointers of the free objects lie outside every header. -/
theorem ClassInv.clear {q : Nat} (order : IsOrder o) (inv : ClassInv b o d c) (aligned : 4096 ∣ q) (mem : a ∈ c.free) :
    a + 16 ≤ q ∨ q + 24 ≤ a := by
  obtain ⟨p, page, slot⟩ := inv.free_slot mem
  have size := order.two_pow.1
  have := slot.away_header (inv.page p page).1 aligned
  omega

theorem ClassInv.reslot {d' : HeapAllocationData} {pages' : Nat → Prop} {order' bs : List Nat} (inv : ClassInv b o d c)
    (pages : ∀ q, pages' q ↔ q = p ∨ c.pages q) (distinct : order'.Nodup)
    (others : ∀ q, q ≠ p → (q ∈ order' ↔ q ∈ c.order)) (here : p ∈ order' ↔ bs ≠ []) (slots : ∀ a ∈ bs, Slot o p a)
    (books : 4096 ∣ p ∧ p + 4096 < 2 ^ 64 ∧ PageBooks b' o p bs)
    (headers : ∀ q, c.pages q → q ≠ p → ∀ x, q ≤ x → x < q + 24 → b' x = b x) (sizeOrder : d'.sizeOrderOfObjects = o)
    (count : d'.freeObjects = (order'.flatMap (Function.update c.slots p bs)).length)
    (first : ∀ a, (order'.flatMap (Function.update c.slots p bs)).head? = some a → d'.ptrToFirst = a)
    (ring : Ring (ptrToNext b') (ptrToPrev b') (order'.flatMap (Function.update c.slots p bs))) :
    ClassInv b' o d' ⟨pages', order', Function.update c.slots p bs⟩ := by
  refine ⟨sizeOrder, count, first, ring, ?_, distinct, ?_, ?_, ?_⟩
  · intro q
    by_cases eq : q = p
    · subst eq
      simpa using here
    · simpa [Function.update_of_ne eq] using (others q eq).trans (inv.listed q)
  · intro q nonempty
    refine (pages q).mpr ?_
    by_cases eq : q = p
    · exact .inl eq
    · exact .inr (inv.inPages q (by simpa [Function.update_of_ne eq] using nonempty))
  · intro q a mem
    by_cases eq : q = p
    · subst eq
      exact slots a (by simpa using mem)
    · exact inv.slot q a (by simpa [Function.update_of_ne eq] using mem)
  · intro q pageQ
    by_cases eq : q = p
    · subst eq
      simpa using books
    have old : c.pages q := ((pages q).mp pageQ).resolve_left eq
    obtain ⟨aligned, below, booksQ⟩ := inv.page q old
    refine ⟨aligned, below, ?_⟩
    simpa [Function.update_of_ne eq] using booksQ.congr (headers q old eq)

end MeowOs.Memory
