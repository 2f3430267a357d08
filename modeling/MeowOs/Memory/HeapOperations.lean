import MeowOs.Memory.HeapClass

/-! # The operations of one size class

`ClassInv.take`, `ClassInv.refill` and `ClassInv.give` are what the parts of
`HeapAllocationData::allocate` and `deallocate` do to the represented class.
Each of them also says that nothing but the books of the class was written.
-/

namespace MeowOs.Memory

open MeowOs.Machine HeapRam Prog
open HeapAllocationData (countAllocation deallocate unlinkFirst)

/-! ## Taking an object -/

variable {s s' : HeapRam} {d d' : HeapAllocationData} {a p o : Nat} {c : SizeClass} {m : HeapPageMetadata}

theorem unlinkFirst_spec {l : List Nat}
    (ring : Ring (ptrToNext s.bytes) (ptrToPrev s.bytes) (a :: l)) (spaced : Spaced (a :: l))
    (first : d.ptrToFirst = a) (count : d.freeObjects = l.length + 1) (run : d.unlinkFirst s = some (d', s')) :
    Ring (ptrToNext s'.bytes) (ptrToPrev s'.bytes) l ∧ d'.freeObjects = l.length ∧
      (∀ x, l.head? = some x → d'.ptrToFirst = x) ∧ d'.sizeOrderOfObjects = d.sizeOrderOfObjects ∧
      Writes (fun x => ∃ y ∈ l, y ≤ x ∧ x < y + 16) s s' := by
  unfold unlinkFirst at run
  rw [first, count] at run
  cases l with
  | nil =>
    cases run
    exact ⟨.nil, rfl, by simp, rfl, .refl⟩
  | cons b l =>
    rw [if_pos (by simp)] at run
    -- the two blocks that are relinked are still in the list
    have afterMem : ptrToNext s.bytes a ∈ b :: l := by
      have after : (b :: l ++ [a]).head? = some (ptrToNext s.bytes a) :=
        @Ring.next_eq Nat _ _ a a [] (b :: l) ring rfl
      have : ptrToNext s.bytes a = b := by simpa using after.symm
      simp [this]
    have beforeMem : ptrToPrev s.bytes a ∈ b :: l := by
      have last := ring.back a rfl
      exact List.mem_of_getLast? last
    obtain ⟨beforeSmall, beforeAway⟩ := spaced _ (List.mem_cons_of_mem a beforeMem)
    obtain ⟨afterSmall, -⟩ := spaced _ (List.mem_cons_of_mem a afterMem)
    have popped : ∀ b', b' = ((s.stored (ptrToPrev s.bytes a + 8) 8 (ptrToNext s.bytes a)).stored
        (ptrToNext s.bytes a) 8 (ptrToPrev s.bytes a)).bytes →
        Ring (ptrToNext b') (ptrToPrev b') (b :: l) ∧ (b :: l).head? = some (ptrToNext s.bytes a) := by
      rintro b' rfl
      rw [stored_bytes, stored_bytes]
      refine ring.pop (by simp) ?_ (ptrToPrev_writePrev_self beforeSmall) ?_
      · rw [ptrToNext_writePrev (beforeAway _ (List.mem_cons_of_mem a afterMem)), ptrToNext_writeNext_self afterSmall]
      intro x memX ne
      have awayX := (spaced x (List.mem_cons_of_mem a memX)).2
      rw [ptrToNext_writePrev (awayX _ (List.mem_cons_of_mem a afterMem))]
      have := awayX _ (List.mem_cons_of_mem a beforeMem)
      exact ptrToNext_write_other (by omega)
    have writes : Writes (fun x => ∃ y ∈ b :: l, y ≤ x ∧ x < y + 16) s
        ((s.stored (ptrToPrev s.bytes a + 8) 8 (ptrToNext s.bytes a)).stored
          (ptrToNext s.bytes a) 8 (ptrToPrev s.bytes a)) := by
      refine (stored_writes ?_).trans (stored_writes ?_)
      · exact fun x lo hi => ⟨_, beforeMem, by omega, by omega⟩
      · exact fun x lo hi => ⟨_, afterMem, by omega, by omega⟩
    obtain ⟨ring', head⟩ := popped _ rfl
    cases run
    refine ⟨ring', rfl, ?_, rfl, writes⟩
    intro x headX
    rw [head] at headX
    cases headX
    rfl

theorem countAllocation_spec (page : a / 4096 * 4096 = p) (run : countAllocation a s = some ((), s')) :
    Recount s.bytes s'.bytes p (s.bytes.readLE (p + 1) 1 + 1) ∧ Writes (fun x => p ≤ x ∧ x < p + 24) s s' := by
  unfold countAllocation at run
  rw [page, bind_of_eq_some (metadata_load_run s p)] at run
  obtain ⟨small, run⟩ := assert_bind_eq_some.mp run
  have counted := Recount.of_number s.bytes p (of_decide_eq_true small)
  have writes : Writes (fun x => p ≤ x ∧ x < p + 24) s
      (s.stored (p + 1) 1 (s.bytes.readLE (p + 1) 1 + 1)) :=
    stored_writes fun x lo hi => ⟨by omega, by omega⟩
  rw [bind_of_eq_some (store_run _ _ _ _)] at run
  split at run
  case isFalse =>
    cases run
    exact ⟨counted, writes⟩
  case isTrue =>
  rw [bind_of_eq_some (load_run _ _ _)] at run
  obtain ⟨-, run⟩ := assert_bind_eq_some.mp run
  cases run
  exact ⟨counted.writeFirst, writes.trans (stored_writes fun x lo hi => ⟨by omega, by omega⟩)⟩

namespace SizeClass

def popped (c : SizeClass) (p : Nat) (ps bs : List Nat) : SizeClass :=
  { c with order := if bs = [] then ps else p :: ps, slots := Function.update c.slots p bs }

theorem flatMap_update_of_notMem (slots : Nat → List Nat) {p : Nat} {ps : List Nat} (bs : List Nat)
    (fresh : p ∉ ps) : ps.flatMap (Function.update slots p bs) = ps.flatMap slots := by
  refine List.flatMap_congr ?_
  intro q mem
  refine Function.update_of_ne ?_ _ _
  rintro rfl
  exact fresh mem

theorem popped_free {c : SizeClass} {p a : Nat} {ps bs : List Nat} (order : c.order = p :: ps)
    (slots : c.slots p = a :: bs) (fresh : p ∉ ps) : c.free = a :: (c.popped p ps bs).free := by
  have rest := flatMap_update_of_notMem c.slots bs fresh
  cases bs with
  | nil => simp [free, popped, order, slots, rest]
  | cons b bs => simp [free, popped, order, slots, rest]

end SizeClass

/-- `HeapAllocationData::allocate` on a class with a free object. -/
theorem ClassInv.take {u : HeapRam} (order : IsOrder o) (inv : ClassInv s.bytes o d c) (some : c.free ≠ [])
    (count : countAllocation d.ptrToFirst s = .some ((), u))
    (unlink : d.unlinkFirst u = .some (d', s')) : ∃ p ps bs, c.order = p :: ps ∧ c.slots p = d.ptrToFirst :: bs ∧
      ClassInv s'.bytes o d' (c.popped p ps bs) ∧ Writes (c.popped p ps bs).Books s s' := by
  obtain ⟨p, ps, a, bs, orderEq, slots, fresh, rfl⟩ := inv.first_page some
  refine ⟨p, ps, bs, orderEq, slots, ?_⟩
  have pageP : c.pages p := inv.inPages p (by simp [slots])
  obtain ⟨alignedP, belowP, booksP⟩ := inv.page p pageP
  have slotA : Slot o p d.ptrToFirst := inv.slot p _ (by simp [slots])
  obtain ⟨recount, writesCount⟩ := countAllocation_spec (slotA.page_eq alignedP) count
  have freeEq := SizeClass.popped_free orderEq slots fresh
  have spaced := inv.spaced order
  -- the header is outside every free object, so the ring is still there for `unlinkFirst`
  have ring : Ring (ptrToNext u.bytes) (ptrToPrev u.bytes) c.free := by
    refine ClassInv.ring_congr inv.ring fun x memX y lo hi => writesCount.outside y ?_
    have := inv.clear order alignedP memX
    omega
  have countEq := inv.count
  rw [freeEq] at ring spaced countEq
  obtain ⟨ring', count', first', sizeOrder', writesUnlink⟩ :=
    unlinkFirst_spec ring spaced rfl (by simpa using countEq) unlink
  have header : ∀ q, c.pages q → ∀ x, q ≤ x → x < q + 24 → s'.bytes x = u.bytes x := by
    intro q pageQ x lo hi
    refine writesUnlink.outside x ?_
    rintro ⟨y, memY, loY, hiY⟩
    have := inv.clear order (inv.page q pageQ).1 (by rw [freeEq]; exact .tail _ memY)
    omega
  refine ⟨inv.reslot (fun q => ⟨.inr, fun h => h.elim (fun eq => eq ▸ pageP) id⟩) ?_ ?_ ?_ ?_
    ⟨alignedP, belowP, ?_⟩ ?_ (sizeOrder'.trans inv.sizeOrder) count' first' ring', ?_⟩
  · have distinct := inv.distinct
    rw [orderEq] at distinct
    split
    · exact (List.nodup_cons.mp distinct).2
    · exact distinct
  · intro q ne
    rw [orderEq]
    split <;> simp [ne]
  · split <;> simp_all
  · exact fun x memX => inv.slot p x (by rw [slots]; exact .tail _ memX)
  · have total := booksP.number
    rw [slots] at booksP total
    have counted : PageBooks u.bytes o p bs := by
      refine booksP.recount recount ?_ ?_
      · simp only [List.length_cons] at total
        omega
      · intro x last
        rw [List.getLast?_cons, last]
        rfl
    exact counted.congr (header p pageP)
  · intro q pageQ ne x lo hi
    have := (inv.page q pageQ).1
    exact (header q pageQ x lo hi).trans (writesCount.outside x (by omega))
  · refine (writesCount.mono ?_).trans (writesUnlink.mono ?_)
    · exact fun x inside => .inl ⟨p, pageP, inside⟩
    · exact fun x ⟨y, memY, inside⟩ => .inr ⟨y, memY, inside⟩

/-! ## Filling a fresh page -/

def objectAt (o p k : Nat) : Nat := p + (4096 - 2 ^ o * perPage o) + k * 2 ^ o

def objects (o p : Nat) : List Nat := (List.range (perPage o)).map (objectAt o p)

theorem perPage_le (o : Nat) : 2 ^ o * perPage o ≤ 4072 := Nat.mul_div_le 4072 (2 ^ o)

theorem objectAt_succ (o p k : Nat) : objectAt o p (k + 1) = objectAt o p k + 2 ^ o := by
  unfold objectAt
  rw [Nat.succ_mul]
  omega

theorem objectAt_add_le {o p j k : Nat} (lt : j < k) : objectAt o p j + 2 ^ o ≤ objectAt o p k := by
  rw [← objectAt_succ]
  exact Nat.add_le_add_left (Nat.mul_le_mul_right _ lt) _

theorem objectAt_perPage (o p : Nat) : objectAt o p (perPage o) = p + 4096 := by
  have le := perPage_le o
  unfold objectAt
  rw [Nat.mul_comm (perPage o)]
  omega

theorem objectAt_bounds {o p k : Nat} (lt : k < perPage o) :
    p + 24 ≤ objectAt o p k ∧ objectAt o p k + 2 ^ o ≤ p + 4096 := by
  refine ⟨?_, ?_⟩
  · have le := perPage_le o
    unfold objectAt
    omega
  · rw [← objectAt_perPage o p]
    exact objectAt_add_le lt

theorem objectAt_slot {k : Nat} (order : IsOrder o) (aligned : 4096 ∣ p) (lt : k < perPage o) :
    Slot o p (objectAt o p k) := by
  obtain ⟨lo, hi⟩ := @objectAt_bounds o p k lt
  refine ⟨lo, hi, ?_⟩
  have page : 2 ^ o ∣ p := order.two_pow.2.2.trans aligned
  have rest : 2 ^ o ∣ 4096 - 2 ^ o * perPage o := Nat.dvd_sub order.two_pow.2.2 (Nat.dvd_mul_right _ _)
  exact Nat.dvd_add (Nat.dvd_add page rest) (Nat.dvd_mul_left _ _)

theorem populateBlock_spec {k : Nat} (below : p + 4096 < 2 ^ 64) (lt : k < perPage o)
    (run : HeapPageMetadata.populateBlock (objectAt o p 0) (2 ^ o) k s = some ((), s')) :
    ptrToNext s'.bytes (objectAt o p k) = objectAt o p (k + 1) ∧
      Writes (fun x => objectAt o p k ≤ x ∧ x < objectAt o p k + 16) s s' := by
  have here : objectAt o p 0 + k * 2 ^ o = objectAt o p k := by simp [objectAt]
  have bounds := @objectAt_bounds o p k lt
  unfold HeapPageMetadata.populateBlock at run
  rw [here] at run
  obtain ⟨⟨⟩, u, prev, ⟨⟩, v, next, run⟩ := bind₂_eq_some.mp run
  cases prev
  cases next
  rw [assert_run] at run
  split at run
  case isFalse => cases run
  case isTrue =>
  cases run
  refine ⟨?_, (stored_writes ?_).trans (stored_writes ?_)⟩
  · rw [objectAt_succ]
    exact ptrToNext_writeNext_self (by omega)
  · exact fun x lo hi => ⟨lo, by omega⟩
  · exact fun x lo hi => ⟨by omega, by omega⟩

theorem populateLoop_spec (order : IsOrder o) (below : p + 4096 < 2 ^ 64)
    (run : Prog.forUp (HeapPageMetadata.populateBlock (objectAt o p 0) (2 ^ o)) 0 (perPage o) s = some ((), s')) :
    (∀ k < perPage o, ptrToNext s'.bytes (objectAt o p k) = objectAt o p (k + 1)) ∧
      Writes (fun x => p + 24 ≤ x ∧ x < p + 4096) s s' := by
  have size := order.two_pow.1
  -- after `i` rounds the first `i` objects are linked
  have inv := forUp_eq_some_ind (fun i t =>
    (∀ k < i, ptrToNext t.bytes (objectAt o p k) = objectAt o p (k + 1)) ∧
      Writes (fun x => p + 24 ≤ x ∧ x < p + 4096) s t) ?_ ⟨fun k lt => absurd lt (by omega), .refl⟩ run
  · simpa using inv
  intro i t t' _ lt ⟨linked, writes⟩ body
  have lt : i < perPage o := by omega
  have bounds := @objectAt_bounds o p i lt
  obtain ⟨here, wrote⟩ := populateBlock_spec below lt body
  refine ⟨?_, writes.trans (wrote.mono fun x inside => by omega)⟩
  intro k ltK
  cases Nat.lt_succ_iff_lt_or_eq.mp ltK with
  | inl before =>
    have away := @objectAt_add_le o p k i before
    refine Eq.trans (Bytes.readLE_congr fun j ltJ => wrote.outside _ ?_) (linked k before)
    omega
  | inr eq => exact eq ▸ here

theorem populate_spec {m' : HeapPageMetadata} (order : IsOrder o)
    (sizeOrder : m.sizeOrderOfObjects = o) (max : m.maxAllocations = perPage o) (run : m.populate p s = some (m', s')) :
    p + 4096 < 2 ^ 64 ∧ m' = ⟨o, m.numberOfAllocations, perPage o, objectAt o p 0, objectAt o p (perPage o - 1)⟩ ∧
      Ring (ptrToNext s'.bytes) (ptrToPrev s'.bytes) (objects o p) ∧
      Writes (fun x => p + 24 ≤ x ∧ x < p + 4096) s s' := by
  obtain ⟨size, -, -⟩ := order.two_pow
  obtain ⟨pos, -⟩ := order.perPage_pos
  have le := perPage_le o
  have first : p + (4096 - 2 ^ o * perPage o) = objectAt o p 0 := by simp [objectAt]
  have last : p + 4096 - 2 ^ o = objectAt o p (perPage o - 1) := by
    have succ := objectAt_succ o p (perPage o - 1)
    rw [Nat.sub_add_cancel pos, objectAt_perPage] at succ
    omega
  have rounds : divCeil (p + 4096 - objectAt o p 0) (2 ^ o) = perPage o := by
    have span : p + 4096 - objectAt o p 0 = 2 ^ o * perPage o := by
      omega
    unfold divCeil
    rw [span, Nat.add_sub_assoc (by omega), Nat.mul_add_div (by omega), Nat.div_eq_of_lt (by omega)]
    rfl
  have boundsFirst := @objectAt_bounds o p 0 (by omega)
  unfold HeapPageMetadata.populate at run
  simp only [sizeOrder, max, first, last, rounds] at run
  obtain ⟨below, run⟩ := assert_bind_eq_some.mp run
  have below : p + 4096 < 2 ^ 64 := of_decide_eq_true below
  obtain ⟨⟨⟩, v, loop, run⟩ := bind_eq_some.mp run
  obtain ⟨linked, writes⟩ := populateLoop_spec order below loop
  obtain ⟨⟨⟩, w, prev, ⟨⟩, x, next, run⟩ := bind₂_eq_some.mp run
  obtain ⟨-, run⟩ := assert_bind_eq_some.mp run
  cases run
  cases prev
  cases next
  have apart : ∀ j k, j = k ∨ objectAt o p j + 16 ≤ objectAt o p k ∨ objectAt o p k + 16 ≤ objectAt o p j := by
    intro j k
    rcases Nat.lt_trichotomy j k with lt | eq | gt
    · exact .inr (.inl (by have := @objectAt_add_le o p j k lt; omega))
    · exact .inl eq
    · exact .inr (.inr (by have := @objectAt_add_le o p k j gt; omega))
  have apart' : ∀ j k, objectAt o p j = objectAt o p k ∨
      objectAt o p j + 16 ≤ objectAt o p k ∨ objectAt o p k + 16 ≤ objectAt o p j :=
    fun j k => (apart j k).imp_left (congrArg (objectAt o p))
  refine ⟨below, rfl, Ring.of_row ?_ pos ?_ ?_ ?_, writes.trans ((stored_writes ?_).trans (stored_writes ?_))⟩
  · intro i j _ _ eq
    exact (apart i j).resolve_right (by omega)
  · intro k lt
    have ne := (apart k (perPage o - 1)).resolve_left (by omega)
    refine (ptrToNext_write_other (by omega)).trans ?_
    exact (ptrToNext_writePrev (apart' k 0)).trans (linked k (by omega))
  · exact ptrToNext_writeNext_self (by omega)
  · refine (ptrToPrev_writeNext (apart' 0 (perPage o - 1))).trans ?_
    exact ptrToPrev_writePrev_self (by omega)
  · exact fun x lo hi => ⟨by omega, by omega⟩
  · exact fun x lo hi => ⟨by omega, by omega⟩

def HeapRam.withPages (s : HeapRam) (nPages : Nat) : HeapRam :=
  { s with held := fun q => (s.answer / 4096 ≤ q && q < s.answer / 4096 + nPages) || s.held q }

theorem allocatePages_run (s : HeapRam) (nPages : Nat) :
    allocatePages nPages s = some (s.answer, s.withPages nPages) := rfl

theorem metadata_store_spec {s s' : HeapRam} {m : HeapPageMetadata} {o p : Nat} {free : List Nat}
    (order : IsOrder o) (sizeOrder : m.sizeOrderOfObjects = o) (max : m.maxAllocations = perPage o)
    (number : m.numberOfAllocations + free.length = perPage o)
    (last : ∀ a, free.getLast? = some a → m.ptrToLast = a ∧ a < 2 ^ 64) (run : m.store p s = some ((), s')) :
    PageBooks s'.bytes o p free ∧ Writes (fun x => p ≤ x ∧ x < p + 24) s s' := by
  have small := order.perPage_pos.2
  cases run
  refine ⟨⟨?_, ?_, ?_, ?_⟩, ?_⟩
  · simp (disch := omega) only [Bytes.readLE_writeLE_disjoint, Bytes.readLE_writeLE, sizeOrder]
    have := order.2
    omega
  · simp (disch := omega) only [Bytes.readLE_writeLE_disjoint, Bytes.readLE_writeLE]
    rw [Nat.mod_eq_of_lt (by omega)]
    exact number
  · simp (disch := omega) only [Bytes.readLE_writeLE_disjoint, Bytes.readLE_writeLE, max]
    omega
  · intro a lastA
    obtain ⟨eq, below⟩ := last a lastA
    simp only [Bytes.readLE_writeLE, eq]
    omega
  · refine (stored_writes ?_).trans ((stored_writes ?_).trans ((stored_writes ?_).trans
      ((stored_writes ?_).trans (stored_writes ?_)))) <;> exact fun x lo hi => ⟨by omega, by omega⟩

theorem ClassInv.unlisted {b : Bytes} (inv : ClassInv b o d c) (empty : c.free = []) {q : Nat} : q ∉ c.order := by
  intro mem
  obtain ⟨a, memA⟩ := List.exists_mem_of_ne_nil _ ((inv.listed q).mp mem)
  have : a ∈ c.free := SizeClass.mem_free.mpr ⟨q, mem, memA⟩
  rw [empty] at this
  cases this

theorem ClassInv.refill (order : IsOrder o) (inv : ClassInv s.bytes o d c) (empty : c.free = [])
    (aligned : 4096 ∣ s.answer) (run : d.refill s = some (d', s')) :
    ClassInv s'.bytes o d' ⟨fun q => q = s.answer ∨ c.pages q, [s.answer],
        Function.update c.slots s.answer (objects o s.answer)⟩ ∧
      Writes (fun x => s.answer ≤ x ∧ x < s.answer + 4096) (s.withPages 1) s' := by
  obtain ⟨pos, small⟩ := order.perPage_pos
  have size := order.two_pow.1
  have none : d.freeObjects = 0 := by rw [inv.count, empty]; rfl
  have maxEq : (4096 - 24) / 2 ^ o % 256 = perPage o := Nat.mod_eq_of_lt small
  unfold HeapAllocationData.refill at run
  rw [if_pos none, inv.sizeOrder, maxEq, bind_of_eq_some (allocatePages_run s 1)] at run
  obtain ⟨m, u, populated, run⟩ := bind_eq_some.mp run
  obtain ⟨below, rfl, ring, writes⟩ := populate_spec order rfl rfl populated
  obtain ⟨⟨⟩, v, stored, run⟩ := bind_eq_some.mp run
  have bounds := @objectAt_bounds o s.answer (perPage o - 1) (by omega)
  have length : (objects o s.answer).length = perPage o := by simp [objects]
  obtain ⟨books, wroteHeader⟩ := @metadata_store_spec u v _ o s.answer (objects o s.answer) order rfl rfl
    (by simp [length]) (by
      intro a last
      obtain ⟨n, eq⟩ : ∃ n, perPage o = n + 1 := ⟨perPage o - 1, by omega⟩
      have : objectAt o s.answer n = a := by simpa [objects, eq, List.range_succ] using last
      subst this
      rw [eq] at bounds ⊢
      exact ⟨rfl, by simp only [Nat.add_sub_cancel] at bounds; omega⟩) stored
  cases run
  have slots : ∀ a ∈ objects o s.answer, Slot o s.answer a := by
    intro a mem
    obtain ⟨k, lt, rfl⟩ := List.mem_map.mp mem
    exact objectAt_slot order aligned (List.mem_range.mp lt)
  have free : [s.answer].flatMap (Function.update c.slots s.answer (objects o s.answer)) = objects o s.answer := by simp
  have wrote : Writes (fun x => s.answer ≤ x ∧ x < s.answer + 4096) (s.withPages 1) s' :=
    (writes.mono fun x inside => ⟨by omega, inside.2⟩).trans
      (wroteHeader.mono fun x inside => ⟨inside.1, by omega⟩)
  refine ⟨inv.reslot (fun q => Iff.rfl) (by simp) ?_ ?_ slots ⟨aligned, below, books⟩ ?_ rfl ?_ ?_ ?_, wrote⟩
  · exact fun q ne => by simp [ne, inv.unlisted empty]
  · simp only [List.mem_singleton, true_iff]
    exact List.ne_nil_of_length_pos (by omega)
  · intro q pageQ ne x lo hi
    have alignedQ := (inv.page q pageQ).1
    exact wrote.outside x (by omega)
  · rw [free, length]
  · rw [free]
    intro a head
    obtain ⟨n, eq⟩ : ∃ n, perPage o = n + 1 := ⟨perPage o - 1, by omega⟩
    simpa [objects, eq, List.range_succ_eq_map] using head
  · rw [free]
    refine ClassInv.ring_congr ring fun a mem x lo hi => wroteHeader.outside x ?_
    have := (slots a mem).1
    omega

/-! ## Giving an object back -/

namespace SizeClass

/-- The object `a` of the page at `p` is free again, as the last one of its page. -/
def grown (c : SizeClass) (p a : Nat) : SizeClass :=
  { c with order := if p ∈ c.order then c.order else c.order ++ [p]
           slots := Function.update c.slots p (c.slots p ++ [a]) }

theorem grown_free_of_full {c : SizeClass} {p a : Nat} (unlisted : p ∉ c.order) (full : c.slots p = []) :
    (c.grown p a).free = c.free ++ [a] := by
  have rest := flatMap_update_of_notMem c.slots (c.slots p ++ [a]) unlisted
  simp only [free, grown, if_neg unlisted, List.flatMap_append, rest]
  simp [full]

theorem grown_free_of_listed {c : SizeClass} {p a : Nat} {ps qs : List Nat}
    (order : c.order = ps ++ p :: qs) (distinct : c.order.Nodup) :
    c.free = (ps.flatMap c.slots ++ c.slots p) ++ qs.flatMap c.slots ∧
      (c.grown p a).free = (ps.flatMap c.slots ++ c.slots p) ++ a :: qs.flatMap c.slots := by
  have listed : p ∈ c.order := by simp [order]
  rw [order] at distinct
  have before : p ∉ ps := fun mem => (List.nodup_append.mp distinct).2.2 p mem p (by simp) rfl
  have after : p ∉ qs := (List.nodup_cons.mp (List.nodup_append.mp distinct).2.1).1
  refine ⟨by simp [free, order], ?_⟩
  simp only [free, grown, if_pos listed]
  rw [order, List.flatMap_append, List.flatMap_cons, flatMap_update_of_notMem _ _ before,
    flatMap_update_of_notMem _ _ after]
  simp

end SizeClass

theorem ClassInv.neighbours {s s' : HeapRam} {o p a z past : Nat} {d : HeapAllocationData} {c : SizeClass}
    (inv : ClassInv s.bytes o d c) (some : c.free ≠ []) (page : c.pages p)
    (run : d.neighbours (metadataAt s.bytes p) s = .some ((z, past), s')) :
    s' = s ∧ ∃ l1 l2, c.free = l1 ++ z :: l2 ∧ (c.grown p a).free = l1 ++ z :: a :: l2 ∧
      past = ptrToNext s.bytes z := by
  obtain ⟨-, -, books⟩ := inv.page p page
  have total := books.number
  have max := books.max
  unfold HeapAllocationData.neighbours metadataAt at run
  split at run
  case isTrue full =>
    have empty : c.slots p = [] := List.eq_nil_of_length_eq_zero (by simp only at full; omega)
    have unlisted : p ∉ c.order := fun mem => (inv.listed p).mp mem empty
    have head : c.free.head? = .some d.ptrToFirst := by
      obtain ⟨first, rest, cons⟩ := List.exists_cons_of_ne_nil some
      have head : c.free.head? = .some first := by simp [cons]
      rw [head, inv.first first head]
    obtain ⟨front, split⟩ := List.getLast?_eq_some_iff.mp (inv.ring.back _ head)
    have ring := inv.ring
    rw [split] at ring head
    have close : d.ptrToFirst = ptrToNext s.bytes (ptrToPrev s.bytes d.ptrToFirst) :=
      Option.some.inj (ring.next_eq head)
    have grownEq : (c.grown p a).free = front ++ ptrToPrev s.bytes d.ptrToFirst :: [a] := by
      rw [SizeClass.grown_free_of_full unlisted empty, split, List.append_assoc]
      rfl
    obtain ⟨⟨rfl, rfl⟩, rfl⟩ := run
    exact ⟨rfl, front, [], split, grownEq, close⟩
  case isFalse notFull =>
    have nonempty : c.slots p ≠ [] := by
      intro empty
      rw [empty] at total
      simp only [List.length_nil] at total
      exact notFull (by simp only; omega)
    obtain ⟨ps, qs, order⟩ := List.append_of_mem ((inv.listed p).mpr nonempty)
    obtain ⟨freeEq, grownEq⟩ := @SizeClass.grown_free_of_listed c p a ps qs order inv.distinct
    have last : (c.slots p).getLast? = .some (s.bytes.readLE (p + 16) 8) := by
      rw [List.getLast?_eq_some_getLast nonempty]
      exact congrArg Option.some (books.last _ (List.getLast?_eq_some_getLast nonempty)).symm
    obtain ⟨front, split⟩ := List.getLast?_eq_some_iff.mp last
    rw [bind_of_eq_some (load_run _ _ _), pure_run, Option.some.injEq, Prod.mk.injEq, Prod.mk.injEq] at run
    obtain ⟨⟨rfl, rfl⟩, rfl⟩ := run
    refine ⟨rfl, ps.flatMap c.slots ++ front, qs.flatMap c.slots, ?_, ?_, rfl⟩
    · rw [freeEq, split]
      simp
    · rw [grownEq, split]
      simp

/-- The stores of `linkIn`, between the blocks `z` and `past`. -/
def HeapRam.linked (s : HeapRam) (p number back next z past a : Nat) : HeapRam :=
  (((((s.stored (p + 1) 1 number).stored a 8 back).stored (a + 8) 8 next).stored (z + 8) 8 a).stored
    past 8 a).stored (p + 16) 8 a

theorem linkIn_run (run : d.linkIn m p a s = some (d', s')) :
    ∃ z past u, d.neighbours m s = some ((z, past), u) ∧ 1 ≤ m.numberOfAllocations ∧
      d' = { d with freeObjects := d.freeObjects + 1 } ∧ s' = u.linked p (m.numberOfAllocations - 1) m.ptrToLast
        ((u.bytes.writeLE (p + 1) 1 (m.numberOfAllocations - 1)).readLE (z + 8) 8) z past a := by
  obtain ⟨⟨z, past⟩, u, found, run⟩ := bind_eq_some.mp run
  obtain ⟨pos, run⟩ := assert_bind_eq_some.mp run
  refine ⟨z, past, u, found, of_decide_eq_true pos, ?_⟩
  simp only [bind_of_eq_some (store_run _ _ _ _), bind_of_eq_some (load_run _ _ _)] at run
  obtain ⟨-, run⟩ := assert_bind_eq_some.mp run
  cases run
  exact ⟨rfl, rfl⟩

section Linked

variable {s : HeapRam} {p number back next z past a : Nat}

theorem linked_books {o : Nat} {free : List Nat} (books : PageBooks s.bytes o p free)
    (total : number + (free ++ [a]).length = perPage o) (small : perPage o < 256) (belowA : a < 2 ^ 64)
    (awayA : a + 16 ≤ p ∨ p + 24 ≤ a) (awayZ : z + 16 ≤ p ∨ p + 24 ≤ z) (awayPast : past + 16 ≤ p ∨ p + 24 ≤ past) :
    PageBooks (s.linked p number back next z past a).bytes o p (free ++ [a]) := by
  refine ⟨?_, ?_, ?_, ?_⟩ <;>
    simp (disch := omega) only [linked, stored_bytes, Bytes.readLE_writeLE_disjoint, Bytes.readLE_writeLE]
  · exact books.sizeOrder
  · rwa [Nat.mod_eq_of_lt (by omega)]
  · exact books.max
  · intro x last
    obtain rfl : a = x := by simpa using last
    omega

theorem linked_ring {l1 l2 : List Nat} (ring : Ring (ptrToNext s.bytes) (ptrToPrev s.bytes) (l1 ++ z :: l2))
    (fresh : a ∉ l1 ++ z :: l2) (spaced : Spaced (l1 ++ z :: l2)) (apart : ∀ x ∈ l1 ++ z :: l2, a + 16 ≤ x ∨ x + 16 ≤ a)
    (headerA : a + 16 ≤ p ∨ p + 24 ≤ a) (headerOf : ∀ x ∈ l1 ++ z :: l2, x + 16 ≤ p ∨ p + 24 ≤ x)
    (pastEq : past = ptrToNext s.bytes z) (belowA : a < 2 ^ 64) :
    Ring (ptrToNext (s.linked p number back past z past a).bytes)
      (ptrToPrev (s.linked p number back past z past a).bytes) (l1 ++ z :: a :: l2) := by
  have memZ : z ∈ l1 ++ z :: l2 := by simp
  have memPast : past ∈ l1 ++ z :: l2 := pastEq ▸ ring.next_mem memZ
  have ofParts : ∀ x ∈ l1 ++ l2, x ∈ l1 ++ z :: l2 ∧ x ≠ z := by
    intro x mem
    refine ⟨List.mem_append.mpr ((List.mem_append.mp mem).imp_right (List.mem_cons_of_mem z)), ?_⟩
    rintro rfl
    exact (List.nodup_cons.mp (List.nodup_middle.mp ring.distinct)).1 mem
  have headerZ := headerOf z memZ
  have headerPast := headerOf past memPast
  have apartZ := apart z memZ
  have apartPast := apart past memPast
  have between := (spaced z memZ).2 past memPast
  refine ring.insert fresh ?_ ?_ ?_ ?_ ?_
  · simp (disch := omega) only [linked, stored_bytes, ptrToNext_write_other, ptrToNext_writePrev,
      ptrToNext_writeNext_self]
  · have belowPast := (spaced past memPast).1
    rw [← pastEq]
    simp (disch := omega) only [linked, stored_bytes, ptrToNext_write_other, ptrToNext_writeNext_self]
  · rw [← pastEq]
    simp (disch := omega) only [linked, stored_bytes, ptrToPrev_write_other, ptrToPrev_writePrev_self]
  · intro x mem
    obtain ⟨memX, ne⟩ := ofParts x mem
    have headerX := headerOf x memX
    have apartX := apart x memX
    have awayZ := ((spaced x memX).2 z memZ).resolve_left ne
    have awayPast := (spaced x memX).2 past memPast
    simp (disch := omega) only [linked, stored_bytes, ptrToNext_write_other, ptrToNext_writePrev]
  · intro x mem ne
    have headerX := headerOf x mem
    have apartX := apart x mem
    have awayZ := (spaced x mem).2 z memZ
    rw [← pastEq] at ne
    have awayPast := ((spaced x mem).2 past memPast).resolve_left ne
    simp (disch := omega) only [linked, stored_bytes, ptrToPrev_write_other, ptrToPrev_writeNext]

theorem linked_writes {W : Nat → Prop} (header : ∀ x, p ≤ x → x < p + 24 → W x)
    (blocks : ∀ y, y = a ∨ y = z ∨ y = past → ∀ x, y ≤ x → x < y + 16 → W x) :
    Writes W s (s.linked p number back next z past a) := by
  refine (stored_writes ?_).trans ((stored_writes ?_).trans ((stored_writes ?_).trans
    ((stored_writes ?_).trans ((stored_writes ?_).trans (stored_writes ?_)))))
  · exact fun x lo hi => header x (by omega) (by omega)
  · exact fun x lo hi => blocks a (.inl rfl) x lo (by omega)
  · exact fun x lo hi => blocks a (.inl rfl) x (by omega) (by omega)
  · exact fun x lo hi => blocks z (.inr (.inl rfl)) x (by omega) (by omega)
  · exact fun x lo hi => blocks past (.inr (.inr rfl)) x lo (by omega)
  · exact fun x lo hi => header x (by omega) (by omega)

end Linked

section Give

variable {s s' : HeapRam} {o p a : Nat} {d d' : HeapAllocationData} {c : SizeClass}

variable (inv : ClassInv s.bytes o d c)

include inv

theorem ClassInv.regrow (page : c.pages p) (slot : Slot o p a) (books : PageBooks s'.bytes o p (c.slots p ++ [a]))
    (headers : ∀ q, c.pages q → q ≠ p → ∀ x, q ≤ x → x < q + 24 → s'.bytes x = s.bytes x)
    (sizeOrder : d'.sizeOrderOfObjects = d.sizeOrderOfObjects) (count : d'.freeObjects = (c.grown p a).free.length)
    (first : ∀ x, (c.grown p a).free.head? = some x → d'.ptrToFirst = x)
    (ring : Ring (ptrToNext s'.bytes) (ptrToPrev s'.bytes) (c.grown p a).free) :
    ClassInv s'.bytes o d' (c.grown p a) := by
  obtain ⟨aligned, below, -⟩ := inv.page p page
  refine inv.reslot (fun q => ⟨.inr, fun h => h.elim (fun eq => eq ▸ page) id⟩) ?_ ?_ ?_ ?_
    ⟨aligned, below, books⟩ headers (sizeOrder.trans inv.sizeOrder) count first ring
  · split
    case isTrue => exact inv.distinct
    case isFalse unlisted =>
      exact inv.distinct.append (List.nodup_singleton p) (List.disjoint_singleton.mpr unlisted)
  · intro q ne
    split <;> simp [ne]
  · split <;> simp_all
  intro x mem
  cases List.mem_append.mp mem with
  | inl old => exact inv.slot p x old
  | inr new =>
    obtain rfl : x = a := by simpa using new
    exact slot

theorem ClassInv.taken_apart (order : IsOrder o) (page : c.pages p)
    (slot : Slot o p a) (notFree : a ∉ c.slots p) : a ∉ c.free ∧ ∀ x ∈ c.free, a + 16 ≤ x ∨ x + 16 ≤ a := by
  have unlisted : a ∉ c.free := fun mem => notFree ((inv.mem_free_iff page slot).mp mem)
  refine ⟨unlisted, ?_⟩
  intro x mem
  obtain ⟨q, -, slotX⟩ := inv.free_slot mem
  have size := order.two_pow.1
  have := slot.apart slotX (by rintro rfl; exact unlisted mem)
  omega

theorem ClassInv.startList (order : IsOrder o) (empty : c.free = [])
    (page : c.pages p) (slot : Slot o p a) (run : d.startList (metadataAt s.bytes p) p a s = some (d', s')) :
    ClassInv s'.bytes o d' (c.grown p a) ∧ Writes (c.grown p a).Books s s' := by
  obtain ⟨aligned, below, books⟩ := inv.page p page
  obtain ⟨above, inside, -⟩ := id slot
  have size := order.two_pow.1
  have small := order.perPage_pos.2
  have total := books.number
  have none : c.slots p = [] := not_ne_iff.mp fun nonempty => inv.unlisted empty ((inv.listed p).mpr nonempty)
  have free : (c.grown p a).free = [a] := by
    rw [SizeClass.grown_free_of_full (inv.unlisted empty) none, empty]
    rfl
  unfold HeapAllocationData.startList metadataAt at run
  simp only [bind_of_eq_some (store_run _ _ _ _)] at run
  obtain ⟨pos, run⟩ := assert_bind_eq_some.mp run
  have pos : 1 ≤ s.bytes.readLE (p + 1) 1 := of_decide_eq_true pos
  rw [none, List.length_nil] at total
  have writes : Writes (c.grown p a).Books s (((((s.stored a 8 a).stored (a + 8) 8 a).stored
      (p + 8) 8 a).stored (p + 16) 8 a).stored (p + 1) 1 (s.bytes.readLE (p + 1) 1 - 1)) := by
    have head : ∀ x, p ≤ x → x < p + 24 → (c.grown p a).Books x := fun x lo hi =>
      .inl ⟨p, page, lo, hi⟩
    have block : ∀ x, a ≤ x → x < a + 16 → (c.grown p a).Books x := fun x lo hi =>
      .inr ⟨a, by simp [free], lo, hi⟩
    refine (stored_writes ?_).trans ((stored_writes ?_).trans ((stored_writes ?_).trans
      ((stored_writes ?_).trans (stored_writes ?_))))
    · exact fun x lo hi => block x lo (by omega)
    · exact fun x lo hi => block x (by omega) (by omega)
    · exact fun x lo hi => head x (by omega) (by omega)
    · exact fun x lo hi => head x (by omega) (by omega)
    · exact fun x lo hi => head x (by omega) (by omega)
  obtain ⟨rfl, rfl⟩ := run
  refine ⟨inv.regrow page slot ?_ ?_ rfl ?_ ?_ ?_, writes⟩
  · rw [none]
    refine ⟨?_, ?_, ?_, ?_⟩ <;>
      simp (disch := omega) only [stored_bytes, Bytes.readLE_writeLE_disjoint, Bytes.readLE_writeLE]
    · exact books.sizeOrder
    · rw [Nat.mod_eq_of_lt (by omega)]
      simp only [List.nil_append, List.length_singleton]
      omega
    · exact books.max
    · intro x last
      obtain rfl : a = x := by simpa using last
      omega
  · intro q pageQ ne x lo hi
    have alignedQ := (inv.page q pageQ).1
    simp only [stored_bytes]
    iterate 5 rw [Bytes.writeLE_outside (by omega)]
  · rw [free, inv.count, empty]
    rfl
  · intro x head
    rw [free] at head
    exact Option.some.inj head
  rw [free]
  refine .singleton ?_ ?_
  · simp (disch := omega) only [stored_bytes, ptrToNext_write_other, ptrToNext_writeNext_self]
  · simp (disch := omega) only [stored_bytes, ptrToPrev_write_other, ptrToPrev_writeNext, ptrToPrev_writePrev_self]

theorem ClassInv.linkIn (order : IsOrder o) (some : c.free ≠ []) (page : c.pages p)
    (slot : Slot o p a) (notFree : a ∉ c.slots p) (run : d.linkIn (metadataAt s.bytes p) p a s = .some (d', s')) :
    ClassInv s'.bytes o d' (c.grown p a) ∧ Writes (c.grown p a).Books s s' := by
  obtain ⟨aligned, below, books⟩ := inv.page p page
  have size := order.two_pow.1
  have belowA : a < 2 ^ 64 := by have := slot.2.1; omega
  obtain ⟨fresh, apart⟩ := inv.taken_apart order page slot notFree
  have spaced := inv.spaced order
  obtain ⟨z, past, u, found, pos, rfl, ends⟩ := linkIn_run run
  obtain ⟨same, l1, l2, freeEq, grownEq, pastEq⟩ := @neighbours s u o p a z past d c inv some page found
  rw [same] at ends
  simp only [metadataAt] at ends pos
  have headerA := slot.away_header aligned aligned
  have headerOf : ∀ x ∈ c.free, x + 16 ≤ p ∨ p + 24 ≤ x := fun x => inv.clear order aligned
  have memZ : z ∈ c.free := by simp [freeEq]
  have memPast : past ∈ c.free := pastEq ▸ inv.ring.next_mem memZ
  have nextEq : (s.bytes.writeLE (p + 1) 1 (s.bytes.readLE (p + 1) 1 - 1)).readLE (z + 8) 8 = past := by
    have := headerOf z memZ
    rw [pastEq]
    exact Bytes.readLE_writeLE_disjoint (by omega)
  rw [nextEq] at ends
  subst ends
  have headers : ∀ q, c.pages q → q ≠ p → ∀ x, q ≤ x → x < q + 24 →
      (s.linked p (s.bytes.readLE (p + 1) 1 - 1) (s.bytes.readLE (p + 16) 8) past z past a).bytes x = s.bytes x := by
    intro q pageQ ne x lo hi
    have alignedQ := (inv.page q pageQ).1
    have awayA := slot.away_header aligned alignedQ
    have awayZ := inv.clear order alignedQ memZ
    have awayPast := inv.clear order alignedQ memPast
    simp only [linked, stored_bytes]
    iterate 6 rw [Bytes.writeLE_outside (by omega)]
  have total : s.bytes.readLE (p + 1) 1 - 1 + (c.slots p ++ [a]).length = perPage o := by
    have := books.number
    simp only [List.length_append, List.length_singleton]
    omega
  refine ⟨inv.regrow page slot (linked_books books total order.perPage_pos.2 belowA (by omega)
    (headerOf z memZ) (headerOf past memPast)) headers rfl ?_ ?_ ?_, linked_writes ?_ ?_⟩
  · simp only [inv.count, freeEq, grownEq, List.length_append, List.length_cons]
    omega
  · intro x head
    refine inv.first x ?_
    rw [grownEq] at head
    rw [freeEq]
    cases l1 <;> exact head
  · have ring := inv.ring
    rw [freeEq] at ring fresh spaced apart headerOf
    rw [grownEq]
    exact linked_ring ring fresh spaced apart (by omega) headerOf pastEq belowA
  · exact fun x lo hi => .inl ⟨p, page, lo, hi⟩
  intro y which x lo hi
  refine .inr ⟨y, ?_, lo, hi⟩
  rw [grownEq]
  rw [freeEq] at memPast
  rcases which with rfl | rfl | rfl
  · simp
  · simp
  · simp only [List.mem_append, List.mem_cons] at memPast ⊢
    exact memPast.imp_right (Or.imp_right .inr)

theorem ClassInv.give (order : IsOrder o) (page : c.pages p)
    (slot : Slot o p a) (notFree : a ∉ c.slots p) (run : d.deallocate a s = some (d', s')) :
    ClassInv s'.bytes o d' (c.grown p a) ∧ Writes (c.grown p a).Books s s' := by
  unfold deallocate at run
  rw [slot.page_eq (inv.page p page).1, bind_of_eq_some (metadata_load_run s p)] at run
  split at run
  case isTrue none =>
    have empty : c.free = [] := List.eq_nil_of_length_eq_zero (by rw [← inv.count, none])
    exact inv.startList order empty page slot run
  case isFalse some =>
    have nonempty : c.free ≠ [] := fun empty => some (by rw [inv.count, empty]; rfl)
    exact inv.linkIn order nonempty page slot notFree run

end Give

end MeowOs.Memory
