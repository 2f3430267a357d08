import MeowOs.Memory.PageTable

/-! # Page trees

`lookup` is what a tree of tables means: the entry that an address ends at, and
the level of that entry.  The translation of an address is read off it.

`Tree E ℓ t S` says that the table `t` and the tables below it form a tree with
the frames `S`, no frame of which is reached twice.  Only the entries in the
frames `S` matter to such a tree, so that a change in one subtree leaves its
siblings alone.  `Remap` describes a change of a tree: a row of pages gets new
entries and everything else stays.

Levels count from 0 here: a table of level `ℓ` is a table of level `ℓ + 1` of
the source.
-/

namespace MeowOs.Memory

open MeowOs.Machine PageTableEntry
open Function (forall_update_iff update update_of_ne update_self)

/-! ## Entries -/

def frameOf (physAddr : Nat) : Nat := physAddr / 4096 % 2 ^ 36 * 4096

theorem and_shifted_ones (x w : Nat) : x &&& ((2 ^ w - 1) <<< 12) = x / 4096 % 2 ^ w * 4096 := by
  apply Nat.eq_of_testBit_eq
  intro i
  have pow : x / 4096 % 2 ^ w * 4096 = (x >>> 12 % 2 ^ w) <<< 12 := by
    rw [Nat.shiftRight_eq_div_pow, Nat.shiftLeft_eq]
  rw [pow, Nat.testBit_and, Nat.testBit_shiftLeft, Nat.testBit_shiftLeft, Nat.testBit_two_pow_sub_one,
    Nat.testBit_mod_two_pow, Nat.testBit_shiftRight]
  by_cases le : 12 ≤ i
  · rw [show 12 + (i - 12) = i by omega]
    simp [le, Bool.and_comm]
  · simp [le]

theorem new_eq (physAddr : Nat) : PageTableEntry.new physAddr false = frameOf physAddr ||| 3 ||| 2 ^ 63 := by
  have mask : (0xFFFFFFFFF000 : Nat) = (2 ^ 36 - 1) <<< 12 := by decide
  have kept : (0xFFFFFFFFF000 : Nat) &&& 0xFFFFFFFFFFFFFFE7 = 0xFFFFFFFFF000 := by decide
  simp only [PageTableEntry.new, setPatWB, Bool.false_eq_true, if_false]
  rw [Nat.and_or_distrib_right, Nat.and_or_distrib_right, Nat.and_assoc, kept, mask, and_shifted_ones]
  rfl

theorem frameOf_testBit_low (physAddr : Nat) {i : Nat} (low : i < 12) : (frameOf physAddr).testBit i = false := by
  have pow : frameOf physAddr = (physAddr / 4096 % 2 ^ 36) <<< 12 := by rw [Nat.shiftLeft_eq]; rfl
  rw [pow, Nat.testBit_shiftLeft]
  simp [low]

@[simp] theorem present_new (physAddr : Nat) : present (PageTableEntry.new physAddr false) = true := by
  rw [new_eq, present, Nat.testBit_or, Nat.testBit_or]
  simp

@[simp] theorem hugePage_new (physAddr : Nat) : hugePage (PageTableEntry.new physAddr false) = false := by
  rw [new_eq, hugePage, Nat.testBit_or, Nat.testBit_or, frameOf_testBit_low physAddr (by omega)]
  decide

@[simp] theorem address_new (physAddr : Nat) : address (PageTableEntry.new physAddr false) = frameOf physAddr := by
  have mask : (0xFFFFFFFFFF000 : Nat) = (2 ^ 40 - 1) <<< 12 := by decide
  have low : (3 : Nat) &&& 0xFFFFFFFFFF000 = 0 := by decide
  have high : (2 ^ 63 : Nat) &&& 0xFFFFFFFFFF000 = 0 := by decide
  rw [new_eq, address, Nat.and_or_distrib_right, Nat.and_or_distrib_right, low, high, mask,
    and_shifted_ones, Nat.or_zero, Nat.or_zero]
  unfold frameOf
  omega

@[simp] theorem present_clearPresent (e : Nat) : present (clearPresent e) = false := by
  unfold present clearPresent
  simp

def Linked (e : Nat) : Prop := present e = true ∧ hugePage e = false

instance (e : Nat) : Decidable (Linked e) := inferInstanceAs (Decidable (_ ∧ _))

theorem linked_new (physAddr : Nat) : Linked (PageTableEntry.new physAddr false) :=
  ⟨present_new _, hugePage_new _⟩

/-! ## Positions -/

/-- The entry of a table of level `ℓ` that an address goes through. -/
def slotAt (ℓ addr : Nat) : Nat := addr / 2 ^ (12 + 9 * ℓ) % 512

def pos (ℓ addr : Nat) : Nat := addr / 4096 % 512 ^ (ℓ + 1)

theorem slotAt_lt (ℓ addr : Nat) : slotAt ℓ addr < 512 := Nat.mod_lt _ (by omega)

theorem pos_lt (ℓ addr : Nat) : pos ℓ addr < 512 ^ (ℓ + 1) := Nat.mod_lt _ (Nat.pow_pos (by omega))

theorem two_pow_level (ℓ : Nat) : 2 ^ (12 + 9 * ℓ) = 4096 * 512 ^ ℓ := by
  rw [Nat.pow_add, Nat.pow_mul]

theorem slotAt_eq (ℓ addr : Nat) : slotAt ℓ addr = addr / 4096 / 512 ^ ℓ % 512 := by
  unfold slotAt
  rw [two_pow_level, Nat.div_div_eq_div_mul]

theorem pos_zero (addr : Nat) : pos 0 addr = slotAt 0 addr := by
  simp [pos, slotAt_eq]

theorem pos_succ (ℓ addr : Nat) : pos (ℓ + 1) addr = slotAt (ℓ + 1) addr * 512 ^ (ℓ + 1) + pos ℓ addr := by
  unfold pos
  rw [slotAt_eq, Nat.pow_succ 512 (ℓ + 1), Nat.mod_mul, Nat.add_comm, Nat.mul_comm (512 ^ (ℓ + 1))]

theorem slotAt_succ_eq_div (ℓ addr : Nat) : slotAt (ℓ + 1) addr = pos (ℓ + 1) addr / 512 ^ (ℓ + 1) := by
  rw [pos_succ, Nat.mul_comm, Nat.mul_add_div (Nat.pow_pos (by omega)), Nat.div_eq_of_lt (pos_lt ℓ addr)]
  rfl

theorem pos_eq_mod (ℓ addr : Nat) : pos ℓ addr = pos (ℓ + 1) addr % 512 ^ (ℓ + 1) := by
  rw [pos_succ, Nat.mul_comm, Nat.mul_add_mod, Nat.mod_eq_of_lt (pos_lt ℓ addr)]

theorem pos_add {ℓ addr k : Nat} (fits : pos ℓ addr + k < 512 ^ (ℓ + 1)) :
    pos ℓ (addr + k * 4096) = pos ℓ addr + k := by
  have pages : (addr + k * 4096) / 4096 = addr / 4096 + k := Nat.add_mul_div_right _ _ (by omega)
  unfold pos at fits ⊢
  rw [pages, Nat.add_mod, Nat.mod_eq_of_lt (show k < 512 ^ (ℓ + 1) by omega), Nat.mod_eq_of_lt fits]

/-! ## What a tree of tables means -/

/-- The entry an address ends at, with its level. -/
def lookup (E : Nat → Nat → Nat) : Nat → Nat → Nat → Option (Nat × Nat)
  | 0, t, addr => if present (E t (slotAt 0 addr)) then some (0, E t (slotAt 0 addr)) else none
  | ℓ + 1, t, addr =>
    if present (E t (slotAt (ℓ + 1) addr)) then
      if hugePage (E t (slotAt (ℓ + 1) addr)) then some (ℓ + 1, E t (slotAt (ℓ + 1) addr))
      else lookup E ℓ (address (E t (slotAt (ℓ + 1) addr))) addr
    else none

/-- The physical address that an entry of level `ℓ` gives to an address. -/
def physOf (addr : Nat) (r : Nat × Nat) : Nat := address r.2 + addr % 2 ^ (12 + 9 * r.1)

theorem offset_eq_slotAt (ℓ addr : Nat) : addr / 2 ^ ((ℓ + 1) * 9) % 2 ^ 12 / 8 = slotAt ℓ addr := by
  unfold slotAt
  rw [show (2 : Nat) ^ 12 = 8 * 512 by rfl, Nat.mod_mul_right_div_self, Nat.div_div_eq_div_mul,
    show 12 + 9 * ℓ = (ℓ + 1) * 9 + 3 by omega, Nat.pow_add]

/-- The source's walk is the lookup. -/
theorem translateFrom_eq (E : Nat → Nat → Nat) (addr ℓ t : Nat) :
    translateFrom E addr (ℓ + 1) t = (lookup E ℓ t addr).map (physOf addr) := by
  have slot := fun ℓ => offset_eq_slotAt ℓ addr
  induction ℓ generalizing t with
  | zero =>
    simp only [translateFrom, slot, lookup]
    cases present (E t (slotAt 0 addr)) with
    | false => rfl
    | true => cases hugePage (E t (slotAt 0 addr)) <;> rfl
  | succ ℓ ih =>
    rw [translateFrom]
    simp only [slot, lookup]
    cases present (E t (slotAt (ℓ + 1) addr)) with
    | false => rfl
    | true =>
      cases hugePage (E t (slotAt (ℓ + 1) addr)) with
      | true => rfl
      | false => exact ih _

theorem lookup_congr_pos {E : Nat → Nat → Nat} {ℓ t addr addr' : Nat} (same : pos ℓ addr = pos ℓ addr') :
    lookup E ℓ t addr = lookup E ℓ t addr' := by
  induction ℓ generalizing t with
  | zero =>
    rw [pos_zero, pos_zero] at same
    simp [lookup, same]
  | succ ℓ ih =>
    have slot : slotAt (ℓ + 1) addr = slotAt (ℓ + 1) addr' := by rw [slotAt_succ_eq_div, slotAt_succ_eq_div, same]
    have lower : pos ℓ addr = pos ℓ addr' := by rw [pos_eq_mod, pos_eq_mod ℓ addr', same]
    simp [lookup, slot, ih lower]

/-! ## Trees -/

/-- The frames `S` are `t` and, disjoint from it and from each other, the frames `sub i` below the linked
entries of `t`. -/
structure Branches (E : Nat → Nat → Nat) (child : Nat → Set Nat → Prop) (t : Nat) (S : Set Nat)
    (sub : Nat → Set Nat) : Prop where
  union : ∀ x, x ∈ S ↔ x = t ∨ ∃ i, i < 512 ∧ x ∈ sub i
  root : ∀ i, i < 512 → t ∉ sub i
  disjoint : ∀ i j, i < 512 → j < 512 → i ≠ j → Disjoint (sub i) (sub j)
  linked : ∀ i, i < 512 → Linked (E t i) → child (address (E t i)) (sub i)
  blank : ∀ i, i < 512 → ¬ Linked (E t i) → sub i = ∅

/-- The tables from `t` on, of level `ℓ`, form a tree with the frames `S`. -/
def Tree (E : Nat → Nat → Nat) : Nat → Nat → Set Nat → Prop
  | 0, t, S => S = {t}
  | ℓ + 1, t, S => ∃ sub, Branches E (Tree E ℓ) t S sub

section Tree

variable {E E' : Nat → Nat → Nat} {ℓ t addr : Nat} {S : Set Nat} {child : Nat → Set Nat → Prop} {sub : Nat → Set Nat}

theorem Tree.root_mem (tree : Tree E ℓ t S) : t ∈ S := by
  cases ℓ with
  | zero => rw [show S = {t} from tree]; exact Set.mem_singleton t
  | succ ℓ =>
    obtain ⟨sub, branches⟩ := tree
    exact (branches.union t).mpr (.inl rfl)

theorem Branches.sub_subset (branches : Branches E child t S sub) {i : Nat} (lt : i < 512) : sub i ⊆ S := fun x mem =>
  (branches.union x).mpr (.inr ⟨i, lt, mem⟩)

theorem Branches.imp {child' : Nat → Set Nat → Prop} (branches : Branches E child t S sub)
    (here : E' t = E t) (lower : ∀ i < 512, Linked (E t i) → child' (address (E t i)) (sub i)) :
    Branches E' child' t S sub := by
  refine ⟨branches.union, branches.root, branches.disjoint, ?_, ?_⟩
  · rwa [here]
  · rw [here]
    exact branches.blank

theorem Tree.congr (tree : Tree E ℓ t S) (same : ∀ x ∈ S, E' x = E x) : Tree E' ℓ t S := by
  induction ℓ generalizing t S with
  | zero => exact tree
  | succ ℓ ih =>
    obtain ⟨sub, branches⟩ := id tree
    exact ⟨sub, branches.imp (same t tree.root_mem) fun i lt linked =>
      ih (branches.linked i lt linked) fun x mem => same x (branches.sub_subset lt mem)⟩

theorem Branches.congr (branches : Branches E (Tree E ℓ) t S sub)
    (same : ∀ x ∈ S, E' x = E x) : Branches E' (Tree E' ℓ) t S sub :=
  branches.imp (same t ((branches.union t).mpr (.inl rfl))) fun i lt linked =>
    (branches.linked i lt linked).congr fun x mem => same x (branches.sub_subset lt mem)

theorem lookup_congr (here : E' t (slotAt (ℓ + 1) addr) = E t (slotAt (ℓ + 1) addr))
    (lower : Linked (E t (slotAt (ℓ + 1) addr)) → lookup E' ℓ (address (E t (slotAt (ℓ + 1) addr))) addr =
      lookup E ℓ (address (E t (slotAt (ℓ + 1) addr))) addr) : lookup E' (ℓ + 1) t addr = lookup E (ℓ + 1) t addr := by
  simp only [lookup, here]
  cases present : present (E t (slotAt (ℓ + 1) addr)) with
  | false => rfl
  | true =>
    cases huge : hugePage (E t (slotAt (ℓ + 1) addr)) with
    | true => rfl
    | false => exact lower ⟨present, huge⟩

theorem Tree.lookup_congr (tree : Tree E ℓ t S) (same : ∀ x ∈ S, E' x = E x) (addr : Nat) :
    lookup E' ℓ t addr = lookup E ℓ t addr := by
  induction ℓ generalizing t S with
  | zero => simp only [lookup, same t tree.root_mem]
  | succ ℓ ih =>
    obtain ⟨sub, branches⟩ := id tree
    have lt := slotAt_lt (ℓ + 1) addr
    refine Memory.lookup_congr (by rw [same t tree.root_mem]) fun linked => ?_
    exact ih (branches.linked _ lt linked) fun x mem => same x (branches.sub_subset lt mem)

theorem lookup_linked (linked : Linked (E t (slotAt (ℓ + 1) addr))) :
    lookup E (ℓ + 1) t addr = lookup E ℓ (address (E t (slotAt (ℓ + 1) addr))) addr := by
  simp only [lookup]
  rw [if_pos linked.1, if_neg (by simp [linked.2])]

theorem lookup_blank (blank : present (E t (slotAt (ℓ + 1) addr)) = false) : lookup E (ℓ + 1) t addr = none := by
  simp [lookup, blank]

theorem lookup_empty (empty : ∀ i < 512, present (E t i) = false) (addr : Nat) : lookup E ℓ t addr = none := by
  cases ℓ with
  | zero => simp [lookup, empty _ (slotAt_lt 0 addr)]
  | succ ℓ => exact lookup_blank (empty _ (slotAt_lt _ addr))

theorem tree_empty (empty : ∀ i < 512, present (E t i) = false) : Tree E ℓ t {t} := by
  cases ℓ with
  | zero => rfl
  | succ ℓ =>
    have unlinked : ∀ i < 512, ¬ Linked (E t i) := by
      rintro i lt ⟨present, -⟩
      rw [empty i lt] at present
      cases present
    refine ⟨fun _ => ∅, ?_, by simp, by simp, fun i lt linked => absurd linked (unlinked i lt), by simp⟩
    intro x
    simp

/-- The table `x` is reached from the table `t` of level `ℓ`. -/
def Refers (E : Nat → Nat → Nat) : Nat → Nat → Nat → Prop
  | 0, t, x => x = t
  | ℓ + 1, t, x => x = t ∨ ∃ i, i < 512 ∧ Linked (E t i) ∧ Refers E ℓ (address (E t i)) x

theorem Tree.mem_of_refers (tree : Tree E ℓ t S) {x : Nat} (refers : Refers E ℓ t x) : x ∈ S := by
  induction ℓ generalizing t S with
  | zero => exact refers ▸ tree.root_mem
  | succ ℓ ih =>
    rcases refers with rfl | ⟨i, lt, linked, lower⟩
    · exact tree.root_mem
    · obtain ⟨sub, branches⟩ := tree
      exact branches.sub_subset lt (ih (branches.linked i lt linked) lower)

end Tree

section Replace

variable {E E' : Nat → Nat → Nat} {ℓ t j : Nat} {S Sj : Set Nat} {sub : Nat → Set Nat}

theorem Branches.replace (branches : Branches E (Tree E ℓ) t S sub) (table : ∀ i, i ≠ j → E' t i = E t i)
    (others : ∀ i < 512, i ≠ j → ∀ x ∈ sub i, E' x = E x)
    (linked : Linked (E' t j) → Tree E' ℓ (address (E' t j)) Sj) (blank : ¬ Linked (E' t j) → Sj = ∅)
    (root : t ∉ Sj) (apart : ∀ i < 512, i ≠ j → Disjoint (sub i) Sj) :
    Branches E' (Tree E' ℓ) t {x | x = t ∨ ∃ i < 512, x ∈ update sub j Sj i}
      (update sub j Sj) := by
  refine ⟨fun x => Iff.rfl, ?_, ?_, ?_, ?_⟩
  · exact (forall_update_iff sub fun i Si => i < 512 → t ∉ Si).mpr ⟨fun _ => root, fun i _ => branches.root i⟩
  · intro i k ltI ltK ne
    by_cases eqI : i = j
    · subst eqI
      rw [update_self, update_of_ne ne.symm]
      exact (apart k ltK ne.symm).symm
    by_cases eqK : k = j
    · subst eqK
      rw [update_self, update_of_ne ne]
      exact apart i ltI ne
    · rw [update_of_ne eqI, update_of_ne eqK]
      exact branches.disjoint i k ltI ltK ne
  · refine (forall_update_iff sub fun i Si => i < 512 → Linked (E' t i) → Tree E' ℓ (address (E' t i)) Si).mpr
      ⟨fun _ => linked, fun i ne lt linkedI => ?_⟩
    rw [table i ne] at linkedI ⊢
    exact (branches.linked i lt linkedI).congr (others i lt ne)
  · refine (forall_update_iff sub fun i Si => i < 512 → ¬ Linked (E' t i) → Si = ∅).mpr
      ⟨fun _ => blank, fun i ne lt unlinked => ?_⟩
    rw [table i ne] at unlinked
    exact branches.blank i lt unlinked

theorem Branches.mem_update {child : Nat → Set Nat → Prop} (branches : Branches E child t S sub) (lt : j < 512)
    {x : Nat} : (x = t ∨ ∃ i < 512, x ∈ update sub j Sj i) ↔ (x ∈ S ∧ x ∉ sub j) ∨ x ∈ Sj := by
  rw [branches.union]
  constructor
  · rintro (rfl | ⟨i, ltI, mem⟩)
    · exact .inl ⟨.inl rfl, branches.root j lt⟩
    by_cases eq : i = j
    · rw [eq, update_self] at mem
      exact .inr mem
    · rw [update_of_ne eq] at mem
      exact .inl ⟨.inr ⟨i, ltI, mem⟩, Set.disjoint_left.mp (branches.disjoint i j ltI lt eq) mem⟩
  · rintro (⟨rfl | ⟨i, ltI, mem⟩, out⟩ | mem)
    · exact .inl rfl
    · refine .inr ⟨i, ltI, ?_⟩
      rwa [update_of_ne]
      rintro rfl
      exact out mem
    · exact .inr ⟨j, lt, by rwa [update_self]⟩

theorem Branches.lookup_other (branches : Branches E (Tree E ℓ) t S sub) (table : ∀ i, i ≠ j → E' t i = E t i)
    (others : ∀ i < 512, i ≠ j → ∀ x ∈ sub i, E' x = E x) {addr : Nat} (ne : slotAt (ℓ + 1) addr ≠ j) :
    lookup E' (ℓ + 1) t addr = lookup E (ℓ + 1) t addr := by
  have lt := slotAt_lt (ℓ + 1) addr
  exact lookup_congr (table _ ne) fun linked => (branches.linked _ lt linked).lookup_congr (others _ lt ne) addr

end Replace

/-! ## Rows of pages -/

/-- From `E` to `E'`, the `m` pages from position `q` on got the entries `f`, and nothing else changed. -/
def Remap (E E' : Nat → Nat → Nat) (ℓ t q m : Nat) (f : Nat → Option (Nat × Nat)) : Prop :=
  ∀ addr, lookup E' ℓ t addr = if q ≤ pos ℓ addr ∧ pos ℓ addr < q + m then f (pos ℓ addr - q) else lookup E ℓ t addr

section Remap

variable {E E' E'' : Nat → Nat → Nat} {ℓ t q m m' addr : Nat} {f : Nat → Option (Nat × Nat)}

theorem Remap.refl (E : Nat → Nat → Nat) (ℓ t q : Nat) (f : Nat → Option (Nat × Nat)) : Remap E E ℓ t q 0 f := by
  intro addr
  rw [if_neg (by omega)]

theorem Remap.inside (remap : Remap E E' ℓ t q m f) (lo : q ≤ pos ℓ addr)
    (hi : pos ℓ addr < q + m) : lookup E' ℓ t addr = f (pos ℓ addr - q) := by
  rw [remap addr, if_pos ⟨lo, hi⟩]

theorem Remap.outside (remap : Remap E E' ℓ t q m f)
    (out : ¬ (q ≤ pos ℓ addr ∧ pos ℓ addr < q + m)) : lookup E' ℓ t addr = lookup E ℓ t addr := by
  rw [remap addr, if_neg out]

theorem Remap.trans (fst : Remap E E' ℓ t q m f) (snd : Remap E' E'' ℓ t (q + m) m' fun i => f (m + i)) :
    Remap E E'' ℓ t q (m + m') f := by
  intro addr
  by_cases inSnd : q + m ≤ pos ℓ addr ∧ pos ℓ addr < q + m + m'
  · rw [snd.inside inSnd.1 inSnd.2, if_pos (by omega)]
    congr 1
    omega
  rw [snd.outside inSnd]
  by_cases inFst : q ≤ pos ℓ addr ∧ pos ℓ addr < q + m
  · rw [fst.inside inFst.1 inFst.2, if_pos (by omega)]
  · rw [fst.outside inFst, if_neg (by omega)]

theorem Remap.lift {S : Set Nat} {sub : Nat → Set Nat} {j : Nat} (branches : Branches E (Tree E ℓ) t S sub)
    (linked : Linked (E t j)) (here : E' t = E t) (others : ∀ i < 512, i ≠ j → ∀ x ∈ sub i, E' x = E x)
    (remap : Remap E E' ℓ (address (E t j)) q m f) (fits : q + m ≤ 512 ^ (ℓ + 1)) :
    Remap E E' (ℓ + 1) t (j * 512 ^ (ℓ + 1) + q) m f := by
  intro addr
  have split := pos_succ ℓ addr
  have small := pos_lt ℓ addr
  by_cases slot : slotAt (ℓ + 1) addr = j
  · rw [slot] at split
    rw [lookup_linked (by rwa [here, slot]), lookup_linked (by rwa [slot]), here, slot, remap addr, split]
    split
    · rw [if_pos (by omega)]
      congr 1
      omega
    · rw [if_neg (by omega)]
  · rw [branches.lookup_other (fun i _ => by rw [here]) others slot, if_neg]
    -- another slot is a whole table away
    rintro ⟨lo, hi⟩
    rcases Nat.lt_or_gt_of_ne slot with lt | gt
    · have := Nat.mul_le_mul_right (512 ^ (ℓ + 1)) lt
      rw [Nat.succ_mul] at this
      omega
    · have := Nat.mul_le_mul_right (512 ^ (ℓ + 1)) gt
      rw [Nat.succ_mul] at this
      omega

end Remap

def Row (E : Nat → Nat → Nat) (ℓ t q n : Nat) (P : Option (Nat × Nat) → Prop) : Prop :=
  ∀ addr, q ≤ pos ℓ addr → pos ℓ addr < q + n → P (lookup E ℓ t addr)

section Row

variable {E E' : Nat → Nat → Nat} {ℓ t q n m : Nat} {P : Option (Nat × Nat) → Prop}

theorem Row.rest {f : Nat → Option (Nat × Nat)} (row : Row E ℓ t q n P) (remap : Remap E E' ℓ t q m f)
    (le : m ≤ n) : Row E' ℓ t (q + m) (n - m) P := by
  intro addr lo hi
  rw [remap.outside (by omega)]
  exact row addr (by omega) (by omega)

theorem Row.lower {index : Nat} (row : Row E (ℓ + 1) t q n P) (at_index : q / 512 ^ (ℓ + 1) = index)
    (lt : index < 512) (linked : Linked (E t index)) : Row E ℓ (address (E t index)) (q % 512 ^ (ℓ + 1)) n P := by
  intro addr lo hi
  have here : index * 512 ^ (ℓ + 1) + q % 512 ^ (ℓ + 1) = q := by
    rw [← at_index, Nat.mul_comm]
    exact Nat.div_add_mod q _
  have last := Nat.mul_le_mul_right (512 ^ (ℓ + 1)) lt
  rw [Nat.succ_mul] at last
  have small := pos_lt ℓ addr
  -- the page at the same place below the entry `index`
  let page := (index * 512 ^ (ℓ + 1) + pos ℓ addr) * 4096
  have atPage : pos (ℓ + 1) page = index * 512 ^ (ℓ + 1) + pos ℓ addr := by
    simp only [page, pos]
    rw [Nat.mul_div_cancel _ (by omega), Nat.mod_eq_of_lt]
    omega
  have slot : slotAt (ℓ + 1) page = index := by
    rw [slotAt_succ_eq_div, atPage, Nat.mul_comm, Nat.mul_add_div (Nat.pow_pos (by omega)),
      Nat.div_eq_of_lt small, Nat.add_zero]
  have lower : pos ℓ page = pos ℓ addr := by
    rw [pos_eq_mod, atPage, Nat.mul_comm, Nat.mul_add_mod, Nat.mod_eq_of_lt small]
  have found := row page (by omega) (by omega)
  rwa [lookup_linked (by rwa [slot]), slot, lookup_congr_pos lower] at found

end Row

end MeowOs.Memory
