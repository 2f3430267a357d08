import MeowOs.Memory.PageMapping

/-! # Unmapping pages

What `kernel_manual_unmap` does to a page tree, in the same shape as for
mapping: `Unmaps` composes along the loop and lifts from a table to the one
above, where a lower table that has become empty is given back.
-/

namespace MeowOs.Memory

open MeowOs.Machine PageTableEntry TableMem Prog
open Function (update update_of_ne update_self)

/-! ## The spec -/

/-- From `s` to `s'` the `m` pages from position `q` on were unmapped, and frames that are no longer in the
tree may have been given back. -/
structure Unmaps (ℓ t q m : Nat) (s s' : TableMem) (S S' : Set Nat) : Prop where
  tree : Tree s'.entries ℓ t S'
  subset : S' ⊆ S
  outside : ∀ x, x ∉ S → s'.entries x = s.entries x
  kept : ∀ x, x ∈ S' ∨ x ∉ S → s'.inUse x = s.inUse x
  pool : s'.pool = s.pool
  hhdm : s'.hhdm = s.hhdm
  cleared : ∀ j, s'.entries t j = s.entries t j ∨ (present (s'.entries t j) = false ∧ Meets ℓ q m j)
  remap : Remap s.entries s'.entries ℓ t q m fun _ => none

section Unmaps

variable {ℓ t q m m' : Nat} {s u s' : TableMem} {S U S' : Set Nat}

theorem Unmaps.refl (tree : Tree s.entries ℓ t S) (q : Nat) : Unmaps ℓ t q 0 s s S S :=
  ⟨tree, subset_rfl, fun _ _ => rfl, fun _ _ => rfl, rfl, rfl, fun _ => .inl rfl, .refl _ _ _ _ _⟩

theorem Unmaps.trans (fst : Unmaps ℓ t q m s u S U) (snd : Unmaps ℓ t (q + m) m' u s' U S') :
    Unmaps ℓ t q (m + m') s s' S S' := by
  refine ⟨snd.tree, snd.subset.trans fst.subset, ?_, ?_, snd.pool.trans fst.pool, snd.hhdm.trans fst.hhdm, ?_,
    fst.remap.trans snd.remap⟩
  · intro x out
    rw [snd.outside x fun mem => out (fst.subset mem), fst.outside x out]
  · rintro x (mem | out)
    · rw [snd.kept x (.inl mem), fst.kept x (.inl (snd.subset mem))]
    · rw [snd.kept x (.inr fun mem => out (fst.subset mem)), fst.kept x (.inr out)]
  intro j
  rcases snd.cleared j with same | ⟨absent, meets⟩
  · rw [same]
    exact (fst.cleared j).imp_right fun changed => ⟨changed.1, changed.2.mono_left m'⟩
  · exact .inr ⟨absent, meets.mono_right⟩

theorem LeafWritten.unmaps {start : Nat} (tree : Tree s.entries 0 t S)
    (written : LeafWritten s t (fun k => clearPresent (s.entries t k)) start (start + m) u) :
    Unmaps 0 t start m s u S S := by
  have root : S = {t} := tree
  refine ⟨tree, subset_rfl, ?_, fun _ _ => by rw [written.inUse], written.pool, written.hhdm, ?_, ?_⟩
  · intro x out
    exact written.others x fun eq => out (by rw [root]; exact eq)
  · intro j
    refine (written.entries j).imp_right fun changed => ⟨?_, changed.2⟩
    rw [changed.1, present_clearPresent]
  intro addr
  simp only [lookup, pos_zero, written.table]
  by_cases inside : start ≤ slotAt 0 addr ∧ slotAt 0 addr < start + m
  · rw [if_pos inside, if_pos inside, if_neg (by simp)]
  · rw [if_neg inside, if_neg inside]

variable {j : Nat}

theorem Unmaps.lift {Sj : Set Nat} {sub : Nat → Set Nat} (branches : Branches s.entries (Tree s.entries ℓ) t S sub)
    (lt : j < 512) (linked : Linked (s.entries t j)) (fits : q + m ≤ 512 ^ (ℓ + 1))
    (unmaps : Unmaps ℓ (address (s.entries t j)) q m s u (sub j) Sj) : Unmaps (ℓ + 1) t (j * 512 ^ (ℓ + 1) + q) m s u S
      {x | x = t ∨ ∃ i < 512, x ∈ update sub j Sj i} := by
  have here : u.entries t = s.entries t := unmaps.outside t (branches.root j lt)
  have apart : ∀ i < 512, i ≠ j → Disjoint (sub i) (sub j) := fun i ltI ne =>
    branches.disjoint i j ltI lt ne
  have others : ∀ i < 512, i ≠ j → ∀ x ∈ sub i, u.entries x = s.entries x := fun i ltI ne x mem =>
    unmaps.outside x (Set.disjoint_left.mp (apart i ltI ne) mem)
  have table : ∀ i, i ≠ j → u.entries t i = s.entries t i := fun i _ => by rw [here]
  have members : ∀ {x}, (x = t ∨ ∃ i < 512, x ∈ update sub j Sj i) ↔ (x ∈ S ∧ x ∉ sub j) ∨ x ∈ Sj :=
    branches.mem_update lt
  refine ⟨⟨_, branches.replace table others ?_ ?_ ?_ ?_⟩, ?_, ?_, ?_, unmaps.pool,
    unmaps.hhdm, fun i => .inl (by rw [here]), unmaps.remap.lift branches linked here others fits⟩
  · intro _
    rw [here]
    exact unmaps.tree
  · rw [here]
    exact fun not => absurd linked not
  · exact fun mem => branches.root j lt (unmaps.subset mem)
  · exact fun i ltI ne => (apart i ltI ne).mono_right unmaps.subset
  · intro x mem
    exact (members.mp mem).elim (·.1) fun lower => branches.sub_subset lt (unmaps.subset lower)
  · intro x out
    exact unmaps.outside x fun mem => out (branches.sub_subset lt mem)
  · rintro x (mem | out)
    · exact unmaps.kept x ((members.mp mem).symm.imp_right (·.2))
    · exact unmaps.kept x (.inr fun mem => out (branches.sub_subset lt mem))

def withoutLower (u : TableMem) (t j : Nat) : TableMem :=
  let lower := address (u.entries t j)
  if lower = 0 then u.put t j (clearPresent (u.entries t j))
  else { u.put t j (clearPresent (u.entries t j)) with
    inUse := update u.inUse lower false
    frees := update u.frees lower (u.frees lower + 1) }

theorem withoutLower_same (u : TableMem) (t j : Nat) :
    (withoutLower u t j).entries = (u.put t j (clearPresent (u.entries t j))).entries ∧
      (withoutLower u t j).pool = u.pool ∧ (withoutLower u t j).hhdm = u.hhdm := by
  unfold withoutLower
  simp only
  split
  · exact ⟨rfl, rfl, rfl⟩
  · exact ⟨rfl, rfl, rfl⟩

theorem withoutLower_inUse {x : Nat} (ne : x ≠ address (u.entries t j)) : (withoutLower u t j).inUse x = u.inUse x := by
  unfold withoutLower
  simp only
  split
  · rfl
  · simp [update_of_ne ne]

theorem dropEmpty_eq_some (run : dropEmpty t j (address (u.entries t j)) u = some ((), s')) :
    s' = u ∨ ((∀ i < 512, present (u.entries (address (u.entries t j)) i) = false) ∧ s' = withoutLower u t j) := by
  unfold dropEmpty at run
  simp only [bind_run, isEmpty, Option.bind_some] at run
  split at run
  case isTrue empty =>
    refine .inr ⟨fun i lt => ?_, ?_⟩
    · have all := List.all_eq_true.mp empty i (List.mem_range.mpr lt)
      simpa using all
    · rw [entry_bind, bind_of_eq_some (setEntry_run _ _ _ _)] at run
      simp only [free, Prog.modify_run, Option.some.injEq, Prod.mk.injEq, true_and] at run
      exact run.symm
  case isFalse =>
    simp only [pure_run, Option.some.injEq, Prod.mk.injEq, true_and] at run
    exact .inl run.symm

theorem dropEmpty_run (j : Nat) : ∃ u', dropEmpty t j (address (u.entries t j)) u = some ((), u') := by
  unfold dropEmpty
  simp only [bind_run, isEmpty, Option.bind_some]
  split
  case isTrue => exact ⟨_, rfl⟩
  case isFalse => exact ⟨_, rfl⟩

/-- An empty lower table is given back at the end of a row that meets its entry. -/
theorem Unmaps.drop (before : Unmaps (ℓ + 1) t q m s u S U) (lt : j < 512) (meets : Meets (ℓ + 1) q m j)
    (linked : Linked (u.entries t j)) (empty : ∀ i < 512, present (u.entries (address (u.entries t j)) i) = false) :
    ∃ S', Unmaps (ℓ + 1) t q m s (withoutLower u t j) S S' := by
  obtain ⟨sub, branches⟩ := before.tree
  obtain ⟨entries, pool, hhdm⟩ := withoutLower_same u t j
  have table : ∀ i, i ≠ j → (withoutLower u t j).entries t i = u.entries t i := fun i ne => by
    rw [entries, put_index ne]
  have others : ∀ i < 512, i ≠ j → ∀ x ∈ sub i, (withoutLower u t j).entries x = u.entries x := by
    intro i ltI _ x mem
    rw [entries, put_other]
    rintro rfl
    exact branches.root i ltI mem
  have blank : present ((withoutLower u t j).entries t j) = false := by
    rw [entries, put_self, present_clearPresent]
  have unlinked : ¬ Linked ((withoutLower u t j).entries t j) := fun not => by
    rw [not.1] at blank
    cases blank
  have lower : address (u.entries t j) ∈ sub j := (branches.linked j lt linked).root_mem
  have members : ∀ {x}, (x = t ∨ ∃ i < 512, x ∈ update sub j ∅ i) → x ∈ U ∧ x ∉ sub j := fun mem =>
    ((branches.mem_update lt).mp mem).resolve_right (Set.notMem_empty _)
  refine ⟨_, ⟨_, branches.replace table others (fun not => absurd not unlinked) (fun _ => rfl)
    (Set.notMem_empty t) fun i _ _ => Set.disjoint_empty _⟩, fun x mem => before.subset (members mem).1, ?_, ?_,
    pool.trans before.pool, hhdm.trans before.hhdm, ?_, ?_⟩
  · intro x out
    rw [entries, put_other, before.outside x out]
    rintro rfl
    exact out (before.subset before.tree.root_mem)
  · intro x which
    rw [withoutLower_inUse, before.kept x (which.imp_left fun mem => (members mem).1)]
    rintro rfl
    rcases which with mem | out
    · exact (members mem).2 lower
    · exact out (before.subset (branches.sub_subset lt lower))
  · intro i
    by_cases eq : i = j
    · exact .inr ⟨eq ▸ blank, eq ▸ meets⟩
    · rw [table i eq]
      exact before.cleared i
  · intro addr
    -- the entry led to nothing before
    have same : lookup (withoutLower u t j).entries (ℓ + 1) t addr = lookup u.entries (ℓ + 1) t addr := by
      by_cases slot : slotAt (ℓ + 1) addr = j
      · rw [lookup_blank (by rwa [slot]), lookup_linked (by rwa [slot]), slot, lookup_empty empty]
      · exact branches.lookup_other table others slot
    rw [same]
    exact before.remap addr

end Unmaps

def UnmapSpec (ℓ : Nat) (call : Nat → Nat → Nat → Nat → Prog TableMem Nat) : Prop :=
  ∀ {t virtAddr n nodeVirt m s s' S}, Tree s.entries ℓ t S → 2 ^ (12 + 9 * (ℓ + 1)) ∣ nodeVirt →
    call t virtAddr n nodeVirt s = some (m, s') →
    m = min n (512 ^ (ℓ + 1) - pos ℓ virtAddr) ∧ ∃ S', Unmaps ℓ t (pos ℓ virtAddr) m s s' S S'

variable {ℓ t virtAddr n nodeVirt index todo freed start : Nat} {s u s' : TableMem} {S : Set Nat}
  {lower : Nat → Nat → Nat → Nat → Prog TableMem Nat}

/-- One entry of the loop: the lower table is unmapped, and given back if that leaves it empty. -/
theorem UnmapSpec.entry {newly : Nat} (spec : UnmapSpec ℓ lower) (aligned : 2 ^ (12 + 9 * (ℓ + 1)) ∣ nodeVirt)
    (tree : Tree s.entries (ℓ + 1) t S) (lt : index < 512) (linked : Linked (s.entries t index)) (some_pages : 0 < n)
    (call : lower (address (s.entries t index)) virtAddr n nodeVirt s = some (newly, u))
    (drop : dropEmpty t index (address (s.entries t index)) u = some ((), s')) :
    newly = min n (512 ^ (ℓ + 1) - pos ℓ virtAddr) ∧
      ∃ S', Unmaps (ℓ + 1) t (index * 512 ^ (ℓ + 1) + pos ℓ virtAddr) newly s s' S S' := by
  obtain ⟨sub, branches⟩ := id tree
  obtain ⟨count, Sj, unmaps⟩ := spec (branches.linked index lt linked) aligned call
  have small := pos_lt ℓ virtAddr
  have whole := unmaps.lift branches lt linked (by omega)
  have here : u.entries t = s.entries t := unmaps.outside t (branches.root index lt)
  rw [← here] at drop linked
  refine ⟨count, ?_⟩
  rcases dropEmpty_eq_some drop with rfl | ⟨empty, rfl⟩
  · exact ⟨_, whole⟩
  · refine whole.drop lt (Meets.of_div ?_ (by omega)) linked empty
    rw [Nat.mul_comm, Nat.mul_add_div (Nat.pow_pos (by omega)), Nat.div_eq_of_lt small, Nat.add_zero]

theorem unmapLoop_spec (spec : UnmapSpec ℓ lower) (aligned : 2 ^ (12 + 9 * (ℓ + 2)) ∣ nodeVirt) {r : Nat}
    (all : index + todo = 512) (at_index : freed < n → (pos (ℓ + 1) virtAddr + freed) / 512 ^ (ℓ + 1) = index)
    (tree : Tree s.entries (ℓ + 1) t S)
    (run : unmapLoop lower t virtAddr n nodeVirt (12 + 9 * (ℓ + 1)) todo index freed s = some (r, s')) :
    ∃ m S', r = freed + m ∧ m = min (n - freed) (512 * 512 ^ (ℓ + 1) - (pos (ℓ + 1) virtAddr + freed)) ∧
      Unmaps (ℓ + 1) t (pos (ℓ + 1) virtAddr + freed) m s s' S S' := by
  induction todo generalizing index freed s S with
  | zero =>
    obtain ⟨rfl, rfl⟩ := run
    exact ⟨0, S, rfl, walk_end fun more => (at_index more).trans all, .refl tree _⟩
  | succ todo ih =>
    rw [unmapLoop] at run
    split at run
    next more =>
      rw [entry_bind] at run
      obtain ⟨present, run⟩ := assert_bind_eq_some.mp run
      obtain ⟨small, run⟩ := assert_bind_eq_some.mp run
      obtain ⟨-, run⟩ := direct_bind_eq_some.mp run
      obtain ⟨-, run⟩ := assert_bind_eq_some.mp run
      obtain ⟨newly, u, call, ⟨⟩, v, drop, remaining⟩ := bind₂_eq_some.mp run
      have stands : Stands ℓ virtAddr nodeVirt n freed index := .of_index aligned (at_index more) (by omega)
      have linked : Linked (s.entries t index) := ⟨present, by simpa using small⟩
      obtain ⟨count, U, whole⟩ := spec.entry stands.aligned tree (by omega) linked (by omega) call drop
      rw [stands.here] at whole
      obtain ⟨total, next⟩ := stands.rest newly count
      obtain ⟨m, S', end_eq, m_eq, rest⟩ := ih (by omega) next whole.tree remaining
      rw [← Nat.add_assoc] at rest
      exact ⟨newly + m, S', by omega, by rw [m_eq, total], whole.trans rest⟩
    · obtain ⟨rfl, rfl⟩ := run
      exact ⟨0, S, rfl, by omega, .refl tree _⟩

theorem unmapLeaf_eq_some {i : Nat} {u' : TableMem} (run : unmapLeaf t virtAddr start i u = some ((), u')) :
    u' = u.put t i (clearPresent (u.entries t i)) := by
  unfold unmapLeaf at run
  rw [entry_bind] at run
  obtain ⟨-, run⟩ := assert_bind_eq_some.mp run
  simp only [bind_run, setEntry_run, Option.bind_some, assert_run] at run
  split at run
  case isFalse => cases run
  case isTrue =>
    simp only [Option.some.injEq, Prod.mk.injEq, true_and] at run
    exact run.symm

theorem unmapLeaf_run {i : Nat} (mapped : present (u.entries t i) = true)
    (fits : virtAddr + (i - start) * 4096 < 2 ^ 64) :
    unmapLeaf t virtAddr start i u = some ((), u.put t i (clearPresent (u.entries t i))) := by
  unfold unmapLeaf
  rw [entry_bind, assert_bind_run mapped, bind_of_eq_some (setEntry_run _ _ _ _), assert_run,
    decide_eq_true fits, if_pos rfl]

theorem kernelManualUnmap_spec (ℓ : Nat) : UnmapSpec ℓ (kernelManualUnmap (ℓ + 1)) := by
  induction ℓ with
  | zero =>
    intro t virtAddr n nodeVirt m s s' S tree aligned run
    simp only [kernelManualUnmap] at run
    obtain ⟨-, run⟩ := assert_bind_eq_some.mp run
    obtain ⟨le, run⟩ := assert_bind_eq_some.mp run
    rw [startIndex_eq (of_decide_eq_true le) aligned, if_pos trivial, ← pos_zero] at run
    obtain ⟨⟨⟩, u, loop, run⟩ := bind_eq_some.mp run
    obtain ⟨rfl, rfl⟩ := run
    have written := forUp_eq_some_ind
      (LeafWritten s t (fun k => clearPresent (s.entries t k)) (pos 0 virtAddr))
      (fun i v v' lo _ before run => by
        rw [unmapLeaf_eq_some run, before.todo]
        exact before.step lo)
      (.init s t _ _) loop
    exact ⟨by omega, S, written.unmaps tree⟩
  | succ ℓ ih =>
    intro t virtAddr n nodeVirt m s s' S tree aligned run
    obtain ⟨-, run⟩ := assert_bind_eq_some.mp run
    obtain ⟨le, run⟩ := assert_bind_eq_some.mp run
    rw [startIndex_eq (of_decide_eq_true le) aligned, if_neg (by omega)] at run
    have slot := slotAt_lt (ℓ + 1) virtAddr
    obtain ⟨k, S', count, k_eq, unmaps⟩ := unmapLoop_spec ih aligned (by omega)
      (fun _ => (slotAt_succ_eq_div ℓ virtAddr).symm) tree run
    simp only [Nat.add_zero, Nat.zero_add, Nat.sub_zero] at count k_eq unmaps
    subst count
    refine ⟨?_, S', unmaps⟩
    rw [k_eq, Nat.pow_succ 512 (ℓ + 1), Nat.mul_comm]

/-! ## Unmapping returns -/

def IsPage (found : Option (Nat × Nat)) : Prop := ∃ e, found = some (0, e)

theorem IsPage.linked {E : Nat → Nat → Nat} {addr : Nat} (page : IsPage (lookup E (ℓ + 1) t addr)) :
    Linked (E t (slotAt (ℓ + 1) addr)) := by
  obtain ⟨e, found⟩ := page
  simp only [lookup] at found
  cases present : present (E t (slotAt (ℓ + 1) addr)) with
  | false => simp [present] at found
  | true =>
    cases huge : hugePage (E t (slotAt (ℓ + 1) addr)) with
    | true => simp [present, huge] at found
    | false => exact ⟨present, huge⟩

def UnmapTotal (ℓ : Nat) (call : Nat → Nat → Nat → Nat → Prog TableMem Nat) : Prop :=
  ∀ {t virtAddr n nodeVirt s S}, Tree s.entries ℓ t S → 2 ^ (12 + 9 * (ℓ + 1)) ∣ nodeVirt →
    (∀ x ∈ S, x < s.hhdm.len) → nodeVirt ≤ virtAddr → 0 < n → Row s.entries ℓ t (pos ℓ virtAddr) n IsPage →
    virtAddr + n * 4096 ≤ 2 ^ 64 → ∃ m s', call t virtAddr n nodeVirt s = some (m, s')

theorem unmapLoop_total (spec : UnmapSpec ℓ lower) (total : UnmapTotal ℓ lower)
    (aligned : 2 ^ (12 + 9 * (ℓ + 2)) ∣ nodeVirt) (le : nodeVirt ≤ virtAddr) (virtFits : virtAddr + n * 4096 ≤ 2 ^ 64)
    (all : index + todo = 512) (at_index : freed < n → (pos (ℓ + 1) virtAddr + freed) / 512 ^ (ℓ + 1) = index)
    (tree : Tree s.entries (ℓ + 1) t S) (tables : ∀ x ∈ S, x < s.hhdm.len)
    (mapped : Row s.entries (ℓ + 1) t (pos (ℓ + 1) virtAddr + freed) (n - freed) IsPage) :
    ∃ m s', unmapLoop lower t virtAddr n nodeVirt (12 + 9 * (ℓ + 1)) todo index freed s = some (m, s') := by
  induction todo generalizing index freed s S with
  | zero => exact ⟨freed, s, rfl⟩
  | succ todo ih =>
    rw [unmapLoop]
    split
    next more =>
      have stands : Stands ℓ virtAddr nodeVirt n freed index := .of_index aligned (at_index more) (by omega)
      have linked : Linked (s.entries t index) := by
        rw [← stands.slot]
        exact (mapped (virtAddr + freed * 4096) stands.page.ge (by rw [stands.page]; omega)).linked
      have rowLower := mapped.lower (at_index more) (by omega) linked
      rw [← stands.lower] at rowLower
      obtain ⟨sub, branches⟩ := id tree
      have low : ∀ x ∈ sub index, x < s.hhdm.len := fun x mem => tables x (branches.sub_subset (by omega) mem)
      have treeLower := branches.linked index (by omega) linked
      obtain ⟨newly, u, call⟩ := total treeLower stands.aligned low
        (lower_start (by omega) aligned stands.slot) (by omega) rowLower (by omega)
      have untouched : u.entries t = s.entries t := by
        obtain ⟨-, Sj, unmaps⟩ := spec treeLower stands.aligned call
        exact unmaps.outside t (branches.root index (by omega))
      obtain ⟨v, drop⟩ := dropEmpty_run (u := u) index
      rw [untouched] at drop
      rw [entry_bind, assert_bind_run linked.1, assert_bind_run (by rw [linked.2]; rfl),
        direct_bind_run _ (low _ treeLower.root_mem), assert_bind_run (decide_eq_true (by omega)),
        bind_of_eq_some call, bind_of_eq_some drop]
      obtain ⟨count, U, whole⟩ := spec.entry stands.aligned tree (by omega) linked (by omega) call drop
      rw [stands.here] at whole
      obtain ⟨-, next⟩ := stands.rest newly count
      refine ih (by omega) next whole.tree ?_ ?_
      · intro x mem
        rw [whole.hhdm]
        exact tables x (whole.subset mem)
      · rw [← Nat.add_assoc, ← Nat.sub_sub]
        exact mapped.rest whole.remap (by omega)
    · exact ⟨freed, s, rfl⟩

theorem kernelManualUnmap_total (ℓ : Nat) : UnmapTotal ℓ (kernelManualUnmap (ℓ + 1)) := by
  induction ℓ with
  | zero =>
    intro t virtAddr n nodeVirt s S tree aligned tables le some_pages mapped virtFits
    rw [kernelManualUnmap, assert_bind_run (decide_eq_true some_pages),
      assert_bind_run (decide_eq_true le), startIndex_eq le aligned, if_pos rfl, ← pos_zero]
    obtain ⟨s', loop⟩ : ∃ s', Prog.forUp (unmapLeaf t virtAddr (pos 0 virtAddr)) (pos 0 virtAddr)
        (min (pos 0 virtAddr + n) 512 - pos 0 virtAddr) s = some ((), s') := by
      refine (forUp_total (LeafWritten s t (fun k => clearPresent (s.entries t k)) (pos 0 virtAddr)) ?_
        (.init s t _ _)).imp fun s' written => written.1
      intro i u lo hi written
      have page := pos_page (i := i) (by omega)
      have there : present (s.entries t i) = true := by
        obtain ⟨e, found⟩ := mapped (i * 4096) (by omega) (by omega)
        rw [lookup_page (by omega)] at found
        by_contra absent
        simp [absent] at found
      have leaf : unmapLeaf t virtAddr (pos 0 virtAddr) i u = _ :=
        unmapLeaf_run (by rwa [written.todo]) (by omega)
      rw [written.todo] at leaf
      exact ⟨_, leaf, written.step lo⟩
    rw [bind_of_eq_some loop]
    exact ⟨_, _, rfl⟩
  | succ ℓ ih =>
    intro t virtAddr n nodeVirt s S tree aligned tables le some_pages mapped virtFits
    rw [kernelManualUnmap, assert_bind_run (decide_eq_true some_pages),
      assert_bind_run (decide_eq_true le), startIndex_eq le aligned, if_neg (by omega)]
    have slot := slotAt_lt (ℓ + 1) virtAddr
    exact unmapLoop_total (kernelManualUnmap_spec ℓ) ih aligned le virtFits (by omega)
      (fun _ => (slotAt_succ_eq_div ℓ virtAddr).symm) tree tables mapped

end MeowOs.Memory
