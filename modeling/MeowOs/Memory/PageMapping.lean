import MeowOs.Memory.PageTree

/-! # Mapping pages

What `kernel_manual_map` does to a page tree.  A call works on one table; its
loop hands every entry of the range to the table below.  The walk is verified by
induction on the level, with an inner induction on the entries still to go, and
the two meet in `Maps`, which composes along the loop and lifts from a table to
the one above.

`kernelManualMap_spec` is about the calls that return, and
`kernelManualMap_total` says when a call returns: on unmapped pages, with frames
for the new tables and without an overflow of the addresses.
-/

namespace MeowOs.Memory

open MeowOs.Machine PageTableEntry TableMem Prog
open Function (update update_of_ne update_self)

/-! ## Frames -/

/-- The frames the allocator has left are usable as tables, all different and outside the tables `S`, and all
of these lie in the direct map. -/
structure Frames (s : TableMem) (S : Set Nat) : Prop where
  nodup : s.pool.Nodup
  aligned : ∀ f ∈ s.pool, 4096 ∣ f
  apart : ∀ f ∈ s.pool, f ∉ S
  direct : ∀ f ∈ s.pool, f < s.hhdm.len
  tables : ∀ x ∈ S, x < s.hhdm.len

variable {s u s' : TableMem} {S S' U : Set Nat} {ℓ virtAddr nodeVirt q m j t start i p index n k m' c : Nat}
  {g : Nat → Nat} {lower : Nat → Nat → Nat → Nat → Nat → Prog TableMem ((Nat × Nat) × Nat)} {sub : Nat → Set Nat}
  {Sj : Set Nat}

theorem Frames.mono (frames : Frames s S') (subset : S ⊆ S') : Frames s S :=
  ⟨frames.nodup, frames.aligned, fun f mem out => frames.apart f mem (subset out), frames.direct,
    fun x mem => frames.tables x (subset mem)⟩

theorem Frames.frameOf_eq (frames : Frames s S) {f : Nat} (mem : f ∈ s.pool) : frameOf f = f := by
  obtain ⟨k, rfl⟩ := frames.aligned f mem
  have low := frames.direct _ mem
  have higher := s.hhdm.higher
  have fits := s.hhdm.fits
  unfold frameOf
  omega

/-- From `s` to `s'` the frames `S` of a tree became `S'` with at most `b` frames of the allocator, and only
frames of the tree changed. -/
structure Grow (b : Nat) (s s' : TableMem) (S S' : Set Nat) : Prop where
  taken : ∃ taken : List Nat, taken.length ≤ b ∧ s.pool = taken ++ s'.pool ∧
    (∀ x, x ∈ S' ↔ x ∈ S ∨ x ∈ taken) ∧ ∀ x, s'.inUse x = true ↔ s.inUse x = true ∨ x ∈ taken
  outside : ∀ x, x ∉ S' → s'.entries x = s.entries x
  hhdm : s'.hhdm = s.hhdm

section Grow

variable {b b' : Nat} {s u s' : TableMem} {S U S' : Set Nat}

theorem Grow.subset (grow : Grow b s s' S S') : S ⊆ S' := by
  obtain ⟨taken, -, -, members, -⟩ := grow.taken
  exact fun x mem => (members x).mpr (.inl mem)

theorem Grow.mono (grow : Grow b s s' S S') (le : b ≤ b') : Grow b' s s' S S' := by
  obtain ⟨taken, length, rest⟩ := grow.taken
  exact ⟨⟨taken, length.trans le, rest⟩, grow.outside, grow.hhdm⟩

theorem Grow.frames (grow : Grow b s s' S S') (frames : Frames s S) : Frames s' S' := by
  obtain ⟨taken, -, pool, members, -⟩ := grow.taken
  have nodup := frames.nodup
  rw [pool] at nodup
  have old : ∀ f ∈ s'.pool, f ∈ s.pool := fun f mem => by
    rw [pool]
    exact List.mem_append_right taken mem
  refine ⟨(List.nodup_append.mp nodup).2.1, fun f mem => frames.aligned f (old f mem), ?_, ?_, ?_⟩
  · intro f mem inside
    rcases (members f).mp inside with before | new
    · exact frames.apart f (old f mem) before
    · exact (List.nodup_append.mp nodup).2.2 f new f mem rfl
  · intro f mem
    rw [grow.hhdm]
    exact frames.direct f (old f mem)
  intro x mem
  rw [grow.hhdm]
  rcases (members x).mp mem with before | new
  · exact frames.tables x before
  · refine frames.direct x ?_
    rw [pool]
    exact List.mem_append_left _ new

theorem Grow.pool_length (grow : Grow b s s' S S') : s.pool.length ≤ b + s'.pool.length := by
  obtain ⟨taken, length, pool, -⟩ := grow.taken
  rw [pool, List.length_append]
  omega

theorem Grow.refl (S : Set Nat) (pool : s'.pool = s.pool) (inUse : s'.inUse = s.inUse)
    (hhdm : s'.hhdm = s.hhdm) (outside : ∀ x, x ∉ S → s'.entries x = s.entries x) : Grow 0 s s' S S :=
  ⟨⟨[], by simp [pool, inUse]⟩, outside, hhdm⟩

theorem Grow.trans (fst : Grow b s u S U) (snd : Grow b' u s' U S') : Grow (b + b') s s' S S' := by
  obtain ⟨taken, length, pool, members, used⟩ := fst.taken
  obtain ⟨taken', length', pool', members', used'⟩ := snd.taken
  refine ⟨⟨taken ++ taken', ?_, ?_, ?_, ?_⟩, ?_, snd.hhdm.trans fst.hhdm⟩
  · rw [List.length_append]
    omega
  · rw [pool, pool', List.append_assoc]
  · intro x
    rw [members', members, List.mem_append, or_assoc]
  · intro x
    rw [used', used, List.mem_append, or_assoc]
  · intro x out
    rw [snd.outside x out, fst.outside x fun mem => out (snd.subset mem)]

theorem Grow.lift {child : Nat → Set Nat → Prop}
    (branches : Branches s.entries child t S sub) (lt : j < 512) (grow : Grow b s s' (sub j) Sj) :
    Grow b s s' S {x | x = t ∨ ∃ i < 512, x ∈ update sub j Sj i} := by
  obtain ⟨taken, length, pool, frames, used⟩ := grow.taken
  have members : ∀ x, (x = t ∨ ∃ i < 512, x ∈ update sub j Sj i) ↔ x ∈ S ∨ x ∈ taken := by
    intro x
    have inTree : x ∈ sub j → x ∈ S := (branches.sub_subset lt ·)
    rw [branches.mem_update lt, frames]
    tauto
  refine ⟨⟨taken, length, pool, members, used⟩, ?_, grow.hhdm⟩
  intro x out
  refine grow.outside x fun mem => out (.inr ⟨j, lt, ?_⟩)
  rwa [update_self]

end Grow

/-! ## Writing an entry -/

namespace TableMem

def put (s : TableMem) (table index value : Nat) : TableMem :=
  { s with entries := update s.entries table (update (s.entries table) index value) }

variable {s : TableMem} {table index value : Nat}

theorem setEntry_run (s : TableMem) (table index value : Nat) :
    setEntry table index value s = some ((), s.put table index value) := rfl

variable {β : Type} {frame : Nat} {r : β × TableMem}

theorem entry_bind (f : Nat → Prog TableMem β) (s : TableMem) (table index : Nat) :
    (entry table index >>= f) s = f (s.entries table index) s := rfl

theorem direct_bind_eq_some {f : Unit → Prog TableMem β} :
    (direct frame >>= f) s = some r ↔ frame < s.hhdm.len ∧ f () s = some r := by
  by_cases low : frame < s.hhdm.len
  · simp [direct, low]
  · simp [direct, low]

theorem allocate_bind_eq_some {q : Nat → Prog TableMem β} : (allocate >>= q) s = some r ↔
      ∃ f rest, s.pool = f :: rest ∧ q f { s with pool := rest, inUse := update s.inUse f true } = some r := by
  cases offer : s.pool with
  | nil => simp [allocate, offer]
  | cons f rest => simp [allocate, offer]

theorem zeroFrame_bind_eq_some {f : Nat} {q : Unit → Prog TableMem β} : (zeroFrame f >>= q) s = some r ↔
      f < s.hhdm.len ∧ q () { s with entries := update s.entries f fun _ => 0 } = some r := by
  by_cases low : f < s.hhdm.len
  · simp [zeroFrame, direct, low]
  · simp [zeroFrame, direct, low]

theorem direct_bind_run (f : Unit → Prog TableMem β) (low : frame < s.hhdm.len) : (direct frame >>= f) s = f () s := by
  simp [direct, low]

theorem put_other {x : Nat} (ne : x ≠ table) : (s.put table index value).entries x = s.entries x := by
  simp [put, update_of_ne ne]

theorem put_self : (s.put table index value).entries table index = value := by
  simp [put]

theorem put_index (ne : i ≠ index) : (s.put table index value).entries table i = s.entries table i := by
  simp [put, update_of_ne ne]

end TableMem

/-! ## The start of a walk -/

theorem startIndex_eq (le : nodeVirt ≤ virtAddr) (aligned : 2 ^ (12 + 9 * (ℓ + 1)) ∣ nodeVirt) :
    (virtAddr - nodeVirt) / 2 ^ (12 + 9 * ℓ) % 512 = slotAt ℓ virtAddr := by
  obtain ⟨k, rfl⟩ := aligned
  have pow : 2 ^ (12 + 9 * (ℓ + 1)) * k = 2 ^ (12 + 9 * ℓ) * (512 * k) := by
    rw [show 12 + 9 * (ℓ + 1) = 12 + 9 * ℓ + 9 by omega, Nat.pow_add, Nat.mul_assoc]
  obtain ⟨d, rfl⟩ := Nat.exists_eq_add_of_le le
  unfold slotAt
  rw [Nat.add_sub_cancel_left, pow, Nat.mul_add_div (Nat.two_pow_pos _), Nat.mul_add_mod]

/-- The pages below the entry `j` of a table of level `ℓ` meet the row of `m` pages from position `q` on. -/
def Meets (ℓ q m j : Nat) : Prop := q < (j + 1) * 512 ^ ℓ ∧ j * 512 ^ ℓ < q + m

theorem Meets.mono_left (meets : Meets ℓ q m j) (m' : Nat) : Meets ℓ q (m + m') j :=
  ⟨meets.1, by have := meets.2; omega⟩

theorem Meets.mono_right (meets : Meets ℓ (q + m) m' j) : Meets ℓ q (m + m') j :=
  ⟨by have := meets.1; omega, by have := meets.2; omega⟩

theorem Meets.of_div (at_index : q / 512 ^ ℓ = j) (some_pages : 0 < m) : Meets ℓ q m j := by
  have positive : 0 < 512 ^ ℓ := Nat.pow_pos (by omega)
  have low := Nat.div_mul_le_self q (512 ^ ℓ)
  rw [at_index] at low
  refine ⟨?_, by omega⟩
  rw [← Nat.div_lt_iff_lt_mul positive]
  omega

/-! ## A lowest table -/

/-- The lowest table while a loop over its entries runs: the entries from `start` to `i` have the values `g`. -/
structure LeafWritten (s : TableMem) (t : Nat) (g : Nat → Nat) (start i : Nat) (u : TableMem) : Prop where
  pool : u.pool = s.pool
  inUse : u.inUse = s.inUse
  hhdm : u.hhdm = s.hhdm
  others : ∀ x, x ≠ t → u.entries x = s.entries x
  table : ∀ k, u.entries t k = if start ≤ k ∧ k < i then g k else s.entries t k

theorem LeafWritten.init (s : TableMem) (t : Nat) (g : Nat → Nat) (start : Nat) : LeafWritten s t g start start s :=
  ⟨rfl, rfl, rfl, fun _ _ => rfl, fun k => by rw [if_neg (by omega)]⟩

theorem LeafWritten.step (le : start ≤ i)
    (written : LeafWritten s t g start i u) : LeafWritten s t g start (i + 1) (u.put t i (g i)) := by
  refine ⟨written.pool, written.inUse, written.hhdm, ?_, ?_⟩
  · intro x ne
    rw [put_other ne, written.others x ne]
  intro k
  by_cases eq : k = i
  · rw [eq, put_self, if_pos (by omega)]
  rw [put_index eq, written.table k]
  by_cases inside : start ≤ k ∧ k < i
  · rw [if_pos inside, if_pos (by omega)]
  · rw [if_neg inside, if_neg (by omega)]

theorem LeafWritten.entries (written : LeafWritten s t g start (start + m) u) (j : Nat) :
    u.entries t j = s.entries t j ∨ (u.entries t j = g j ∧ Meets 0 start m j) := by
  rw [written.table j]
  split
  · exact .inr ⟨rfl, by simp only [Meets]; omega⟩
  · exact .inl rfl

theorem LeafWritten.todo (written : LeafWritten s t g start i u) : u.entries t i = s.entries t i := by
  rw [written.table i, if_neg (by omega)]

theorem lookup_page {E : Nat → Nat → Nat} (lt : i < 512) :
    lookup E 0 t (i * 4096) = if present (E t i) then some (0, E t i) else none := by
  have page : slotAt 0 (i * 4096) = i := by unfold slotAt; omega
  simp [lookup, page]

theorem pos_page (lt : i < 512) : pos 0 (i * 4096) = i := by
  unfold pos
  omega

/-! ## Mapping -/

def leafEntry (p start k : Nat) : Nat := PageTableEntry.new (p + (k - start) * 4096) false

/-- From `s` to `s'` the tree at `t` got the `m` pages from position `q` on, mapped from `p` on. -/
structure Maps (ℓ t p q m : Nat) (s s' : TableMem) (S S' : Set Nat) : Prop where
  tree : Tree s'.entries ℓ t S'
  grow : Grow (ℓ * m) s s' S S'
  blank : ∀ j, s'.entries t j = s.entries t j ∨ (present (s.entries t j) = false ∧ Meets ℓ q m j)
  remap : Remap s.entries s'.entries ℓ t q m fun i => some (0, PageTableEntry.new (p + i * 4096) false)

theorem Maps.refl (tree : Tree s.entries ℓ t S) (p q : Nat) : Maps ℓ t p q 0 s s S S :=
  ⟨tree, .refl S rfl rfl rfl fun _ _ => rfl, fun _ => .inl rfl, .refl _ _ _ _ _⟩

theorem Maps.trans (fst : Maps ℓ t p q m s u S U) (snd : Maps ℓ t (p + m * 4096) (q + m) m' u s' U S') :
    Maps ℓ t p q (m + m') s s' S S' := by
  refine ⟨snd.tree, ?_, ?_, fst.remap.trans ?_⟩
  · rw [Nat.mul_add]
    exact fst.grow.trans snd.grow
  · intro j
    rcases fst.blank j with same | ⟨absent, meets⟩
    · rcases snd.blank j with same' | ⟨absent, meets⟩
      · exact .inl (same'.trans same)
      · rw [same] at absent
        exact .inr ⟨absent, meets.mono_right⟩
    · exact .inr ⟨absent, meets.mono_left m'⟩
  · have same : ∀ i, p + (m + i) * 4096 = p + m * 4096 + i * 4096 := fun i => by ring
    simp only [same]
    exact snd.remap

theorem LeafWritten.maps (tree : Tree s.entries 0 t S)
    (blank : ∀ k, start ≤ k → k < start + m → present (s.entries t k) = false)
    (written : LeafWritten s t (leafEntry p start) start (start + m) u) : Maps 0 t p start m s u S S := by
  have root : S = {t} := tree
  refine ⟨tree, ?_, ?_, ?_⟩
  · rw [Nat.zero_mul]
    refine .refl S written.pool written.inUse written.hhdm ?_
    intro x out
    exact written.others x fun eq => out (by rw [root]; exact eq)
  · intro j
    refine (written.entries j).imp_right fun changed => ⟨blank j ?_ ?_, changed.2⟩
    · have := changed.2.1
      omega
    · have := changed.2.2
      omega
  · intro addr
    simp only [lookup, pos_zero, written.table, leafEntry]
    by_cases inside : start ≤ slotAt 0 addr ∧ slotAt 0 addr < start + m
    · rw [if_pos inside, if_pos inside, if_pos (present_new _)]
    · rw [if_neg inside, if_neg inside]

theorem mapLeaf_eq_some {u' : TableMem} (run : mapLeaf t p virtAddr start i u = some ((), u')) :
    present (u.entries t i) = false ∧ u' = u.put t i (leafEntry p start i) := by
  unfold mapLeaf at run
  rw [entry_bind] at run
  obtain ⟨blank, run⟩ := assert_bind_eq_some.mp run
  obtain ⟨-, run⟩ := assert_bind_eq_some.mp run
  simp only [bind_run, setEntry_run, Option.bind_some, assert_run] at run
  split at run
  case isFalse => cases run
  case isTrue =>
    simp only [Option.some.injEq, Prod.mk.injEq, true_and] at run
    exact ⟨by simpa using blank, run.symm⟩

theorem mapLeaf_run (blank : present (u.entries t i) = false)
    (physFits : p + (i - start) * 4096 < 2 ^ 64) (virtFits : virtAddr + (i - start) * 4096 < 2 ^ 64) :
    mapLeaf t p virtAddr start i u = some ((), u.put t i (leafEntry p start i)) := by
  unfold mapLeaf
  simp only [bind_run, entry, setEntry_run, Option.bind_some, assert_run, blank, Bool.not_false,
    if_true, decide_eq_true physFits, decide_eq_true virtFits, leafEntry]

def withLower (s : TableMem) (t j f : Nat) : TableMem :=
  { s with
    entries := update s.entries f fun _ => 0
    pool := s.pool.tail
    inUse := update s.inUse f true : TableMem }.put t j (PageTableEntry.new f false)

theorem lowerTable_eq_some (run : lowerTable t j s = some (c, u)) :
    (Linked (s.entries t j) ∧ c = address (s.entries t j) ∧ u = s) ∨
      (present (s.entries t j) = false ∧ s.pool = c :: s.pool.tail ∧ u = withLower s t j c) := by
  unfold lowerTable at run
  rw [entry_bind] at run
  cases here : present (s.entries t j) with
  | true =>
    rw [here, if_neg (by simp)] at run
    obtain ⟨small, run⟩ := assert_bind_eq_some.mp run
    obtain ⟨-, run⟩ := direct_bind_eq_some.mp run
    cases run
    exact .inl ⟨⟨here, by simpa using small⟩, rfl, rfl⟩
  | false =>
    rw [here, if_pos (by simp)] at run
    obtain ⟨frame, rest, pool, run⟩ := allocate_bind_eq_some.mp run
    obtain ⟨-, run⟩ := zeroFrame_bind_eq_some.mp run
    cases run
    exact .inr ⟨rfl, by rw [pool, List.tail_cons], by rw [withLower, pool, List.tail_cons]; rfl⟩

theorem lowerTable_run (frames : Frames s S)
    (usable : present (s.entries t j) = true → Linked (s.entries t j) ∧ address (s.entries t j) ∈ S)
    (left : 0 < s.pool.length) : ∃ c u, lowerTable t j s = some (c, u) := by
  cases here : present (s.entries t j) with
  | true =>
    obtain ⟨linked, inTree⟩ := usable here
    have low := frames.tables _ inTree
    exact ⟨address (s.entries t j), s, by simp [lowerTable, entry, here, linked.2, direct, low]⟩
  | false =>
    cases pool : s.pool with
    | nil => simp [pool] at left
    | cons frame rest =>
      have low : frame < s.hhdm.len := frames.direct frame (by simp [pool])
      exact ⟨frame, withLower s t j frame,
        by simp [lowerTable, entry, here, allocate, pool, zeroFrame, direct, low, setEntry_run, withLower]⟩

section WithLower

variable {ℓ t j f : Nat} {s : TableMem} {S : Set Nat}

theorem withLower_table (away : f ≠ t) (ne : i ≠ j) : (withLower s t j f).entries t i = s.entries t i := by
  unfold withLower
  rw [put_index ne]
  simp [update_of_ne away.symm]

theorem withLower_frame (away : f ≠ t) (i : Nat) : (withLower s t j f).entries f i = 0 := by
  unfold withLower
  rw [put_other away]
  simp

theorem withLower_other {x : Nat} (ne : x ≠ t) (neFrame : x ≠ f) : (withLower s t j f).entries x = s.entries x := by
  unfold withLower
  rw [put_other ne]
  simp [update_of_ne neFrame]

theorem withLower_self : (withLower s t j f).entries t j = PageTableEntry.new f false := put_self

theorem withLower_spec (tree : Tree s.entries (ℓ + 1) t S) (frames : Frames s S) (lt : j < 512)
    (blank : present (s.entries t j) = false) (pool : s.pool = f :: s.pool.tail) :
    ∃ sub U, Branches (withLower s t j f).entries (Tree (withLower s t j f).entries ℓ) t U sub ∧
      Grow 1 s (withLower s t j f) S U ∧
      ∀ addr, lookup (withLower s t j f).entries (ℓ + 1) t addr = lookup s.entries (ℓ + 1) t addr := by
  obtain ⟨sub, branches⟩ := id tree
  have first : f ∈ s.pool := by rw [pool]; exact .head _
  have unlinked : ¬ Linked (s.entries t j) := fun linked => by rw [linked.1] at blank; cases blank
  have noFrames : sub j = ∅ := branches.blank j lt unlinked
  have away : f ≠ t := fun eq => frames.apart f first (eq ▸ tree.root_mem)
  have table : ∀ i, i ≠ j → (withLower s t j f).entries t i = s.entries t i := fun i ne =>
    withLower_table away ne
  have others : ∀ i < 512, i ≠ j → ∀ x ∈ sub i, (withLower s t j f).entries x = s.entries x := by
    intro i ltI _ x mem
    refine withLower_other ?_ ?_
    · rintro rfl
      exact branches.root i ltI mem
    · rintro rfl
      exact frames.apart x first (branches.sub_subset ltI mem)
  have linked : Linked ((withLower s t j f).entries t j) := by rw [withLower_self]; exact linked_new _
  have target : address ((withLower s t j f).entries t j) = f := by
    rw [withLower_self, address_new, frames.frameOf_eq first]
  have empty : ∀ i < 512, present ((withLower s t j f).entries f i) = false := by
    intro i _
    rw [withLower_frame away]
    decide
  have replaced := branches.replace table others
    (fun _ => by rw [target]; exact tree_empty empty) (fun not => absurd linked not)
    (fun mem => away (mem).symm)
    fun i ltI _ => Set.disjoint_singleton_right.mpr fun mem => frames.apart f first (branches.sub_subset ltI mem)
  have members : ∀ x, (x = t ∨ ∃ i < 512, x ∈ update sub j {f} i) ↔ x ∈ S ∨ x ∈ [f] := by
    intro x
    rw [branches.mem_update lt, noFrames]
    simp
  refine ⟨_, _, replaced, ⟨⟨[f], le_refl 1, pool, members, ?_⟩, ?_, rfl⟩, ?_⟩
  · intro x
    by_cases eq : x = f
    · subst eq
      simp [withLower, put]
    · simp [withLower, put, eq]
  · intro x out
    rw [Set.mem_ofPred_eq, members, not_or] at out
    exact withLower_other (fun eq => out.1 (eq ▸ tree.root_mem)) fun eq => out.2 (List.mem_singleton.mpr eq)
  intro addr
  by_cases slot : slotAt (ℓ + 1) addr = j
  · rw [lookup_linked (by rwa [slot]), slot, target, lookup_empty empty, lookup_blank (by rwa [slot])]
  · exact branches.lookup_other table others slot

end WithLower

theorem lowerTable_spec (tree : Tree s.entries (ℓ + 1) t S)
    (frames : Frames s S) (lt : j < 512) (run : lowerTable t j s = some (c, u)) :
    ∃ sub U, Branches u.entries (Tree u.entries ℓ) t U sub ∧ Grow 1 s u S U ∧ Linked (u.entries t j) ∧
      address (u.entries t j) = c ∧ (∀ i, u.entries t i = s.entries t i ∨ (present (s.entries t i) = false ∧ i = j)) ∧
      ∀ addr, lookup u.entries (ℓ + 1) t addr = lookup s.entries (ℓ + 1) t addr := by
  rcases lowerTable_eq_some run with ⟨linked, rfl, rfl⟩ | ⟨blank, pool, rfl⟩
  · obtain ⟨sub, branches⟩ := tree
    exact ⟨sub, S, branches, .mono (.refl S rfl rfl rfl fun _ _ => rfl) (by omega), linked, rfl,
      fun _ => .inl rfl, fun _ => rfl⟩
  have first : c ∈ s.pool := by rw [pool]; exact .head _
  obtain ⟨sub, U, branches, grow, same⟩ := withLower_spec tree frames lt blank pool
  refine ⟨sub, U, branches, grow, ?_, ?_, ?_, same⟩
  · rw [withLower_self]
    exact linked_new _
  · rw [withLower_self, address_new, frames.frameOf_eq first]
  intro i
  by_cases eq : i = j
  · exact .inr ⟨eq ▸ blank, eq⟩
  · refine .inl (withLower_table ?_ eq)
    rintro rfl
    exact frames.apart c first tree.root_mem

theorem Maps.lift
    (branches : Branches u.entries (Tree u.entries ℓ) t U sub) (frames : Frames u U) (lt : j < 512)
    (linked : Linked (u.entries t j)) (fits : q + m ≤ 512 ^ (ℓ + 1)) (some_pages : 0 < m) (grow : Grow 1 s u S U)
    (blank : ∀ i, u.entries t i = s.entries t i ∨ (present (s.entries t i) = false ∧ i = j))
    (same : ∀ addr, lookup u.entries (ℓ + 1) t addr = lookup s.entries (ℓ + 1) t addr)
    (maps : Maps ℓ (address (u.entries t j)) p q m u s' (sub j) Sj) : Maps (ℓ + 1) t p (j * 512 ^ (ℓ + 1) + q) m s s' S
      {x | x = t ∨ ∃ i < 512, x ∈ update sub j Sj i} := by
  obtain ⟨taken, -, pool, members, -⟩ := maps.grow.taken
  -- the frames of the lower call are its own or new
  have notIn : ∀ {x}, x ∈ U → x ∉ sub j → x ∉ Sj := by
    intro x mem out inside
    rcases (members x).mp inside with old | new
    · exact out old
    · exact frames.apart x (by rw [pool]; exact List.mem_append_left _ new) mem
  have root : t ∉ Sj := notIn ((branches.union t).mpr (.inl rfl)) (branches.root j lt)
  have here : s'.entries t = u.entries t := maps.grow.outside t root
  have apart : ∀ i < 512, i ≠ j → Disjoint (sub i) Sj := by
    intro i ltI ne
    rw [Set.disjoint_left]
    intro x mem
    exact notIn (branches.sub_subset ltI mem) (Set.disjoint_left.mp (branches.disjoint i j ltI lt ne) mem)
  have others : ∀ i < 512, i ≠ j → ∀ x ∈ sub i, s'.entries x = u.entries x := fun i ltI ne x mem =>
    maps.grow.outside x (Set.disjoint_left.mp (apart i ltI ne) mem)
  have table : ∀ i, i ≠ j → s'.entries t i = u.entries t i := fun i _ => by rw [here]
  have row := maps.remap.lift branches linked here others fits
  refine ⟨⟨_, branches.replace table others ?_ ?_ root apart⟩, ?_, ?_, fun addr => by rw [row addr, same addr]⟩
  · intro _
    rw [here]
    exact maps.tree
  · rw [here]
    exact fun not => absurd linked not
  · refine (grow.trans (maps.grow.lift branches lt)).mono ?_
    rw [Nat.succ_mul]
    omega
  intro i
  rw [here]
  refine (blank i).imp_right fun changed => ⟨changed.1, Meets.of_div ?_ some_pages⟩
  rw [changed.2, Nat.mul_comm, Nat.mul_add_div (Nat.pow_pos (by omega)), Nat.div_eq_of_lt (by omega), Nat.add_zero]

def MapSpec (ℓ : Nat) (call : Nat → Nat → Nat → Nat → Nat → Prog TableMem ((Nat × Nat) × Nat)) : Prop :=
  ∀ {t p virtAddr n nodeVirt r s s' S}, Tree s.entries ℓ t S → Frames s S →
    2 ^ (12 + 9 * (ℓ + 1)) ∣ nodeVirt → call t p virtAddr n nodeVirt s = some (r, s') →
    r.2 = min n (512 ^ (ℓ + 1) - pos ℓ virtAddr) ∧ ∃ S', Maps ℓ t p (pos ℓ virtAddr) r.2 s s' S S'

/-- The loop over the entries of a table of level `ℓ + 1` has done `done` of the `n` pages from `virtAddr` on, and
stands at the entry of the next one. -/
structure Stands (ℓ virtAddr nodeVirt n done index : Nat) : Prop where
  aligned : 2 ^ (12 + 9 * (ℓ + 1)) ∣ nodeVirt + index * 2 ^ (12 + 9 * (ℓ + 1))
  page : pos (ℓ + 1) (virtAddr + done * 4096) = pos (ℓ + 1) virtAddr + done
  slot : slotAt (ℓ + 1) (virtAddr + done * 4096) = index
  lower : pos ℓ (virtAddr + done * 4096) = (pos (ℓ + 1) virtAddr + done) % 512 ^ (ℓ + 1)
  here : index * 512 ^ (ℓ + 1) + pos ℓ (virtAddr + done * 4096) = pos (ℓ + 1) virtAddr + done
  -- what is left after the pages below the entry starts at the next one
  rest : ∀ newly, newly = min (n - done) (512 ^ (ℓ + 1) - pos ℓ (virtAddr + done * 4096)) →
    newly + min (n - (done + newly)) (512 * 512 ^ (ℓ + 1) - (pos (ℓ + 1) virtAddr + (done + newly))) =
      min (n - done) (512 * 512 ^ (ℓ + 1) - (pos (ℓ + 1) virtAddr + done)) ∧
    (done + newly < n → (pos (ℓ + 1) virtAddr + (done + newly)) / 512 ^ (ℓ + 1) = index + 1)

section Walk

variable {todo done : Nat}

theorem Stands.of_index (aligned : 2 ^ (12 + 9 * (ℓ + 2)) ∣ nodeVirt)
    (at_index : (pos (ℓ + 1) virtAddr + done) / 512 ^ (ℓ + 1) = index) (lt : index < 512) :
    Stands ℓ virtAddr nodeVirt n done index := by
  have positive : 0 < 512 ^ (ℓ + 1) := Nat.pow_pos (by omega)
  have whole := Nat.div_add_mod (pos (ℓ + 1) virtAddr + done) (512 ^ (ℓ + 1))
  rw [at_index, Nat.mul_comm] at whole
  have last := Nat.mul_le_mul_right (512 ^ (ℓ + 1)) lt
  rw [Nat.succ_mul] at last
  have page : pos (ℓ + 1) (virtAddr + done * 4096) = pos (ℓ + 1) virtAddr + done := pos_add (by
    omega)
  have lower := pos_eq_mod ℓ (virtAddr + done * 4096)
  rw [page] at lower
  have lowerAligned : 2 ^ (12 + 9 * (ℓ + 1)) ∣ nodeVirt := Dvd.dvd.trans (Nat.pow_dvd_pow 2 (by omega)) aligned
  refine ⟨Nat.dvd_add lowerAligned (Nat.dvd_mul_left _ _), page, by rw [slotAt_succ_eq_div, page, at_index], lower,
    by rw [lower, whole], fun newly count => ?_⟩
  refine ⟨by omega, fun more => ?_⟩
  have next : pos (ℓ + 1) virtAddr + (done + newly) = 512 ^ (ℓ + 1) * (index + 1) := by
    rw [Nat.mul_comm, Nat.succ_mul]
    omega
  rw [next, Nat.mul_div_cancel_left _ positive]

/-- No page of the row is left behind the last entry. -/
theorem walk_end (at_end : done < n → (pos (ℓ + 1) virtAddr + done) / 512 ^ (ℓ + 1) = 512) :
    0 = min (n - done) (512 * 512 ^ (ℓ + 1) - (pos (ℓ + 1) virtAddr + done)) := by
  by_cases more : done < n
  · have : 512 * 512 ^ (ℓ + 1) ≤ pos (ℓ + 1) virtAddr + done := by
      rw [← Nat.le_div_iff_mul_le (Nat.pow_pos (by omega)), at_end more]
    omega
  · omega

/-- One entry of the loop: there is a lower table, and the pages below the entry are mapped there. -/
theorem MapSpec.entry {r : (Nat × Nat) × Nat} (spec : MapSpec ℓ lower) (aligned : 2 ^ (12 + 9 * (ℓ + 1)) ∣ nodeVirt)
    (tree : Tree s.entries (ℓ + 1) t S) (frames : Frames s S) (lt : index < 512) (some_pages : 0 < n)
    (table : lowerTable t index s = some (c, u)) (call : lower c p virtAddr n nodeVirt u = some (r, s')) :
    r.2 = min n (512 ^ (ℓ + 1) - pos ℓ virtAddr) ∧
      ∃ S', Maps (ℓ + 1) t p (index * 512 ^ (ℓ + 1) + pos ℓ virtAddr) r.2 s s' S S' := by
  obtain ⟨sub, U, branches, grow, linked, rfl, blank, same⟩ := lowerTable_spec tree frames lt table
  have framesU := grow.frames frames
  obtain ⟨count, Sj, maps⟩ := spec (branches.linked index lt linked) (framesU.mono (branches.sub_subset lt)) aligned call
  have small := pos_lt ℓ virtAddr
  exact ⟨count, _, maps.lift branches framesU lt linked (by omega) (by omega) grow blank same⟩

theorem mapLoop_spec (spec : MapSpec ℓ lower) (aligned : 2 ^ (12 + 9 * (ℓ + 2)) ∣ nodeVirt)
    {first : Option (Nat × Nat)} {r : Option (Nat × Nat) × Nat} (all : index + todo = 512)
    (at_index : done < n → (pos (ℓ + 1) virtAddr + done) / 512 ^ (ℓ + 1) = index)
    (tree : Tree s.entries (ℓ + 1) t S) (frames : Frames s S)
    (run : mapLoop lower t p virtAddr n nodeVirt (12 + 9 * (ℓ + 1)) todo index done first s = some (r, s')) :
    ∃ m S', r.2 = done + m ∧ m = min (n - done) (512 * 512 ^ (ℓ + 1) - (pos (ℓ + 1) virtAddr + done)) ∧
      Maps (ℓ + 1) t (p + done * 4096) (pos (ℓ + 1) virtAddr + done) m s s' S S' := by
  induction todo generalizing index done first s S with
  | zero =>
    obtain ⟨rfl, rfl⟩ := run
    exact ⟨0, S, rfl, walk_end fun more => (at_index more).trans all, .refl tree _ _⟩
  | succ todo ih =>
    rw [mapLoop] at run
    split at run
    next more =>
      obtain ⟨c, u, table, run⟩ := bind_eq_some.mp run
      obtain ⟨-, run⟩ := assert_bind_eq_some.mp run
      obtain ⟨-, run⟩ := assert_bind_eq_some.mp run
      obtain ⟨⟨first', newly⟩, v, call, remaining⟩ := bind_eq_some.mp run
      have stands : Stands ℓ virtAddr nodeVirt n done index := .of_index aligned (at_index more) (by omega)
      obtain ⟨count, U, whole⟩ := spec.entry stands.aligned tree frames (by omega) (by omega) table call
      rw [stands.here] at whole
      obtain ⟨total, next⟩ := stands.rest newly count
      obtain ⟨m, S', end_eq, m_eq, rest⟩ := ih (by omega) next whole.tree (whole.grow.frames frames) remaining
      rw [show p + (done + newly) * 4096 = p + done * 4096 + newly * 4096 by ring, ← Nat.add_assoc] at rest
      exact ⟨newly + m, S', by omega, by rw [m_eq, total], whole.trans rest⟩
    · obtain ⟨rfl, rfl⟩ := run
      exact ⟨0, S, rfl, by omega, .refl tree _ _⟩

end Walk

theorem kernelManualMap_spec (ℓ : Nat) : MapSpec ℓ (kernelManualMap (ℓ + 1)) := by
  induction ℓ with
  | zero =>
    intro t p virtAddr n nodeVirt r s s' S tree frames aligned run
    simp only [kernelManualMap] at run
    obtain ⟨-, run⟩ := assert_bind_eq_some.mp run
    obtain ⟨le, run⟩ := assert_bind_eq_some.mp run
    rw [startIndex_eq (of_decide_eq_true le) aligned, if_pos trivial, ← pos_zero] at run
    obtain ⟨⟨⟩, u, loop, run⟩ := bind_eq_some.mp run
    obtain ⟨rfl, rfl⟩ := run
    obtain ⟨written, blank⟩ := forUp_eq_some_ind
      (fun i u => LeafWritten s t (leafEntry p (pos 0 virtAddr)) (pos 0 virtAddr) i u ∧
        ∀ k, pos 0 virtAddr ≤ k → k < i → present (s.entries t k) = false)
      (by
        rintro i v v' lo - ⟨written, blank⟩ run
        obtain ⟨absent, rfl⟩ := mapLeaf_eq_some run
        refine ⟨written.step lo, fun k le lt => ?_⟩
        by_cases eq : k = i
        · rwa [eq, ← written.todo]
        · exact blank k le (by omega))
      ⟨.init s t _ _, fun k le lt => by omega⟩ loop
    refine ⟨?_, S, written.maps tree blank⟩
    omega
  | succ ℓ ih =>
    intro t p virtAddr n nodeVirt r s s' S tree frames aligned run
    obtain ⟨-, run⟩ := assert_bind_eq_some.mp run
    obtain ⟨le, run⟩ := assert_bind_eq_some.mp run
    rw [startIndex_eq (of_decide_eq_true le) aligned, if_neg (by omega)] at run
    obtain ⟨⟨first, allocated⟩, u, loop, run⟩ := bind_eq_some.mp run
    obtain ⟨entry, -, run⟩ := ofOption_bind_eq_some.mp run
    obtain ⟨rfl, rfl⟩ := run
    have slot := slotAt_lt (ℓ + 1) virtAddr
    obtain ⟨m, S', count, m_eq, maps⟩ := mapLoop_spec ih aligned (by omega)
      (fun _ => (slotAt_succ_eq_div ℓ virtAddr).symm) tree frames loop
    simp only [Nat.zero_mul, Nat.add_zero, Nat.zero_add, Nat.sub_zero] at count m_eq maps
    refine ⟨?_, S', ?_⟩
    · rw [count, m_eq, Nat.pow_succ 512 (ℓ + 1), Nat.mul_comm]
    · rw [count]
      exact maps

theorem kernelManualMap_pages {r : ((Nat × Nat) × Nat) × TableMem}
    (run : kernelManualMap (ℓ + 1) t p virtAddr n nodeVirt s = some r) : 0 < n := by
  obtain ⟨check, -⟩ := assert_bind_eq_some.mp run
  exact of_decide_eq_true check

theorem lower_start (le : nodeVirt ≤ virtAddr)
    (aligned : 2 ^ (12 + 9 * (ℓ + 1)) ∣ nodeVirt) (slot : slotAt ℓ virtAddr = index) :
    nodeVirt + index * 2 ^ (12 + 9 * ℓ) ≤ virtAddr := by
  have start := startIndex_eq le aligned
  have whole : index * 2 ^ (12 + 9 * ℓ) ≤ virtAddr - nodeVirt := by
    refine (Nat.mul_le_mul_right _ ?_).trans (Nat.div_mul_le_self (virtAddr - nodeVirt) (2 ^ (12 + 9 * ℓ)))
    rw [← slot, ← start]
    exact Nat.mod_le _ _
  omega

def MapTotal (ℓ : Nat) (call : Nat → Nat → Nat → Nat → Nat → Prog TableMem ((Nat × Nat) × Nat)) : Prop :=
  ∀ {t p virtAddr n nodeVirt s S}, Tree s.entries ℓ t S → Frames s S →
    2 ^ (12 + 9 * (ℓ + 1)) ∣ nodeVirt → nodeVirt ≤ virtAddr → 0 < n →
    Row s.entries ℓ t (pos ℓ virtAddr) n (· = none) → ℓ * n ≤ s.pool.length → p + n * 4096 ≤ 2 ^ 64 →
    virtAddr + n * 4096 ≤ 2 ^ 64 → ∃ r s', call t p virtAddr n nodeVirt s = some (r, s')

theorem mapLoop_total (spec : MapSpec ℓ lower) (total : MapTotal ℓ lower) (aligned : 2 ^ (12 + 9 * (ℓ + 2)) ∣ nodeVirt)
    (le : nodeVirt ≤ virtAddr) (physFits : p + n * 4096 ≤ 2 ^ 64) (virtFits : virtAddr + n * 4096 ≤ 2 ^ 64)
    (todo index allocated : Nat) (first : Option (Nat × Nat)) (all : index + todo = 512)
    (at_index : allocated < n → (pos (ℓ + 1) virtAddr + allocated) / 512 ^ (ℓ + 1) = index)
    (tree : Tree s.entries (ℓ + 1) t S) (frames : Frames s S)
    (unmapped : Row s.entries (ℓ + 1) t (pos (ℓ + 1) virtAddr + allocated) (n - allocated) (· = none))
    (enough : (ℓ + 1) * (n - allocated) ≤ s.pool.length) (entered : first.isSome ∨ (allocated < n ∧ 0 < todo)) :
    ∃ first' m s', mapLoop lower t p virtAddr n nodeVirt (12 + 9 * (ℓ + 1)) todo index allocated first s =
      some ((some first', m), s') := by
  induction todo generalizing index allocated first s S with
  | zero =>
    obtain ⟨entry, rfl⟩ := Option.isSome_iff_exists.mp (entered.resolve_right (by omega))
    exact ⟨entry, allocated, s, rfl⟩
  | succ todo ih =>
    rw [mapLoop]
    split
    next more =>
      have stands : Stands ℓ virtAddr nodeVirt n allocated index := .of_index aligned (at_index more) (by omega)
      -- the first page is unmapped, so that no huge page is in the way
      have usable : present (s.entries t index) = true →
          Linked (s.entries t index) ∧ address (s.entries t index) ∈ S := by
        intro here
        have firstPage := unmapped (virtAddr + allocated * 4096) stands.page.ge (by rw [stands.page]; omega)
        simp only [lookup, stands.slot, here, if_true] at firstPage
        obtain ⟨sub, branches⟩ := tree
        cases huge : hugePage (s.entries t index) with
        | true => simp [huge] at firstPage
        | false =>
          have linked : Linked (s.entries t index) := ⟨here, huge⟩
          exact ⟨linked, branches.sub_subset (by omega) (branches.linked index (by omega) linked).root_mem⟩
      have pages : (ℓ + 1) * (n - allocated) = ℓ * (n - allocated) + (n - allocated) := Nat.succ_mul _ _
      obtain ⟨c, u, table⟩ := lowerTable_run frames usable (by omega)
      rw [bind_of_eq_some table]
      obtain ⟨sub, U, branches, grow, linked, rfl, -, same⟩ := lowerTable_spec tree frames (by omega) table
      have lengthU := grow.pool_length
      have rowU : Row u.entries (ℓ + 1) t (pos (ℓ + 1) virtAddr + allocated) (n - allocated) (· = none) := by
        intro addr lo hi
        rw [same]
        exact unmapped addr lo hi
      have rowLower := rowU.lower (at_index more) (by omega) linked
      rw [← stands.lower] at rowLower
      obtain ⟨⟨first', newly⟩, v, call⟩ := total (branches.linked index (by omega) linked)
        ((grow.frames frames).mono (branches.sub_subset (by omega))) stands.aligned
        (lower_start (by omega) aligned stands.slot) (by omega) rowLower (by omega)
        (show p + allocated * 4096 + (n - allocated) * 4096 ≤ 2 ^ 64 by omega) (by omega)
      rw [assert_bind_run (decide_eq_true (by omega)), assert_bind_run (decide_eq_true (by omega)),
        bind_of_eq_some call]
      obtain ⟨count, S', whole⟩ := spec.entry stands.aligned tree frames (by omega) (by omega) table call
      dsimp only at count whole
      rw [stands.here] at whole
      obtain ⟨-, next⟩ := stands.rest newly count
      have lengthV := whole.grow.pool_length
      have split : (ℓ + 1) * (n - allocated) = (ℓ + 1) * newly + (ℓ + 1) * (n - allocated - newly) := by
        rw [← Nat.mul_add, Nat.add_sub_cancel' (by omega)]
      refine ih _ _ _ (by omega) next whole.tree (whole.grow.frames frames) ?_ (by rw [← Nat.sub_sub]; omega)
        (.inl (by cases first <;> rfl))
      rw [← Nat.add_assoc, ← Nat.sub_sub]
      exact unmapped.rest whole.remap (by omega)
    · obtain ⟨entry, rfl⟩ := Option.isSome_iff_exists.mp (entered.resolve_right (by omega))
      exact ⟨entry, allocated, s, rfl⟩

theorem kernelManualMap_total (ℓ : Nat) : MapTotal ℓ (kernelManualMap (ℓ + 1)) := by
  induction ℓ with
  | zero =>
    intro t p virtAddr n nodeVirt s S tree frames aligned le some_pages unmapped enough physFits virtFits
    rw [kernelManualMap, assert_bind_run (decide_eq_true some_pages),
      assert_bind_run (decide_eq_true le), startIndex_eq le aligned, if_pos rfl, ← pos_zero]
    obtain ⟨s', loop⟩ : ∃ s', Prog.forUp (mapLeaf t p virtAddr (pos 0 virtAddr)) (pos 0 virtAddr)
        (min (pos 0 virtAddr + n) 512 - pos 0 virtAddr) s = some ((), s') := by
      refine (forUp_total (LeafWritten s t (leafEntry p (pos 0 virtAddr)) (pos 0 virtAddr)) ?_
        (.init s t _ _)).imp fun s' written => written.1
      intro i u lo hi written
      have page := pos_page (i := i) (by omega)
      have blank : present (s.entries t i) = false := by
        simpa [lookup_page (show i < 512 by omega)] using unmapped (i * 4096) (by omega) (by omega)
      exact ⟨_, mapLeaf_run (by rwa [written.todo]) (by omega) (by omega), written.step lo⟩
    rw [bind_of_eq_some loop]
    exact ⟨_, _, rfl⟩
  | succ ℓ ih =>
    intro t p virtAddr n nodeVirt s S tree frames aligned le some_pages unmapped enough physFits virtFits
    rw [kernelManualMap, assert_bind_run (decide_eq_true some_pages),
      assert_bind_run (decide_eq_true le), startIndex_eq le aligned, if_neg (by omega)]
    have slot := slotAt_lt (ℓ + 1) virtAddr
    obtain ⟨first, m, s', loop⟩ := mapLoop_total (kernelManualMap_spec ℓ) ih aligned le physFits virtFits
      (512 - slotAt (ℓ + 1) virtAddr) (slotAt (ℓ + 1) virtAddr) 0 none (by omega)
      (fun _ => (slotAt_succ_eq_div ℓ virtAddr).symm) tree frames unmapped enough
      (.inr ⟨some_pages, by omega⟩)
    rw [bind_of_eq_some loop]
    exact ⟨_, _, rfl⟩

end MeowOs.Memory
