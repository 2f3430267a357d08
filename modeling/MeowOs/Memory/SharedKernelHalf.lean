import MeowOs.Memory.PageTranslation

/-! # The kernel half that all page trees share

`copy_higher_half` copies the upper 256 entries of a root table, so that all
page trees share the tables below them.  Kernel mappings are made and undone
through one root only.  They stay in step in all trees as long as no entry of a
root table itself changes: `SharedHalf` is the invariant, and `AllSeeIt` says of
a step that it leaves the root's entries alone.

A step that empties the table below a root entry does not: the entry is cleared
in one root, and the table that it led to is given back while all other roots
still lead to it.
-/

namespace MeowOs.Memory

open MeowOs.Machine PageTableEntry TableMem Prog
open Function (update update_of_ne update_self)

/-! ## Steps -/

structure Trees where
  mem : TableMem
  roots : List Nat

inductive KernelOp where
  | copy (existingTree : Nat)
  | map (root physAddr virtAddr nPages : Nat)
  | unmap (root virtAddr nPages : Nat)

/-- Frames that the allocator may hand out: none of them is in use. -/
structure Offers (s : TableMem) (pool : List Nat) : Prop where
  nodup : pool.Nodup
  aligned : ∀ f ∈ pool, 4096 ∣ f
  direct : ∀ f ∈ pool, f < s.hhdm.len
  free : ∀ f ∈ pool, s.inUse f = false

structure KernelRange (virt n : Nat) : Prop where
  aligned : 4096 ∣ virt
  higher : 2 ^ 64 - 2 ^ 47 ≤ virt
  fits : virt + 4096 * n ≤ 2 ^ 64

inductive KernelStep : Trees → KernelOp → Trees → Prop
  | copy {st : Trees} {existing new : Nat} {pool : List Nat} {s' : TableMem} (known : existing ∈ st.roots)
      (offers : Offers st.mem pool) (run : newTree existing { st.mem with pool := pool } = some (new, s')) :
      KernelStep st (.copy existing) ⟨s', new :: st.roots⟩
  | map {st : Trees} {root p virt n : Nat} {r : (Nat × Nat) × Nat} {pool : List Nat} {s' : TableMem}
      (known : root ∈ st.roots) (range : KernelRange virt n) (offers : Offers st.mem pool)
      (run : kernelManualMap 4 root p virt n 0 { st.mem with pool := pool } = some (r, s')) :
      KernelStep st (.map root p virt n) ⟨s', st.roots⟩
  | unmap {st : Trees} {root virt n freed : Nat} {s' : TableMem} (known : root ∈ st.roots)
      (range : KernelRange virt n) (run : kernelManualUnmap 4 root virt n 0 st.mem = some (freed, s')) :
      KernelStep st (.unmap root virt n) ⟨s', st.roots⟩

inductive KernelRun (allowed : Trees → KernelOp → Prop) : Trees → List KernelOp → Trees → Prop
  | nil (st : Trees) : KernelRun allowed st [] st
  | cons {st mid st' : Trees} {op : KernelOp} {ops : List KernelOp} (ok : allowed st op)
      (step : KernelStep st op mid) (rest : KernelRun allowed mid ops st') : KernelRun allowed st (op :: ops) st'

/-- No entry of a root table has to change: a mapping finds a table below each entry of its range, and an
unmapping leaves some other page mapped below each entry of its range. -/
def AllSeeIt (st : Trees) : KernelOp → Prop
  | .copy _ => True
  | .map root _ virt n => ∀ i, i < n → present (st.mem.entries root (slotAt 3 (virt + 4096 * i))) = true
  | .unmap root virt n => ∀ i, i < n → ∃ addr, slotAt 3 addr = slotAt 3 (virt + 4096 * i) ∧
      ¬ InRange virt n addr ∧ lookup st.mem.entries 3 root addr ≠ none

/-- All trees translate the higher half alike, and none leads to a table that is not in use. -/
structure HalfInStep (st : Trees) : Prop where
  same : ∀ r ∈ st.roots, ∀ r' ∈ st.roots, ∀ addr, 2 ^ 64 - 2 ^ 47 ≤ addr → addr < 2 ^ 64 →
    translate st.mem r addr = translate st.mem r' addr
  live : ∀ r ∈ st.roots, ∀ x, Refers st.mem.entries 3 r x → st.mem.inUse x = true

/-! ## The invariant -/

def below (K : Nat → Set Nat) (L : Nat → Nat → Set Nat) (r i : Nat) : Set Nat :=
  if i < 256 then L r i else K i

def tables (K : Nat → Set Nat) (L : Nat → Nat → Set Nat) (r : Nat) : Set Nat :=
  {x | x = r ∨ ∃ i, i < 512 ∧ x ∈ below K L r i}

def Own (L : Nat → Nat → Set Nat) (r x : Nat) : Prop := x = r ∨ ∃ i, i < 256 ∧ x ∈ L r i

/-- The trees share the tables `K` below equal entries of the higher half and are otherwise apart, with the
tables `L` in the lower halves; all tables are in use and in the direct map. -/
structure SharedHalf (st : Trees) (K : Nat → Set Nat) (L : Nat → Nat → Set Nat) : Prop where
  tree : ∀ r ∈ st.roots, Branches st.mem.entries (Tree st.mem.entries 2) r (tables K L r) (below K L r)
  same : ∀ r ∈ st.roots, ∀ r' ∈ st.roots, ∀ i, 256 ≤ i → i < 512 → st.mem.entries r i = st.mem.entries r' i
  apart : ∀ r ∈ st.roots, ∀ r' ∈ st.roots, r ≠ r' → ∀ x ∈ tables K L r, ¬ Own L r' x
  live : ∀ r ∈ st.roots, ∀ x ∈ tables K L r, st.mem.inUse x = true ∧ x < st.mem.hhdm.len

section SharedHalf

variable {st : Trees} {K : Nat → Set Nat} {L : Nat → Nat → Set Nat}

variable {r x i : Nat} {sub : Nat → Set Nat} {E : Nat → Nat → Nat} {S : Set Nat}

theorem below_low (lt : i < 256) : below K L r i = L r i := if_pos lt

theorem below_high (le : 256 ≤ i) : below K L r i = K i := if_neg (by omega)

theorem mem_tables : x ∈ tables K L r ↔ Own L r x ∨ ∃ i, 256 ≤ i ∧ i < 512 ∧ x ∈ K i := by
  constructor
  · rintro (rfl | ⟨i, lt, mem⟩)
    · exact .inl (.inl rfl)
    by_cases low : i < 256
    · exact .inl (.inr ⟨i, low, by rwa [below_low low] at mem⟩)
    · have le : 256 ≤ i := by omega
      exact .inr ⟨i, le, lt, by rwa [below_high le] at mem⟩
  · rintro ((rfl | ⟨i, lt, mem⟩) | ⟨i, le, lt, mem⟩)
    · exact .inl rfl
    · exact .inr ⟨i, by omega, (below_low lt).symm ▸ mem⟩
    · exact .inr ⟨i, lt, (below_high le).symm ▸ mem⟩

theorem Own.mem_tables (own : Own L r x) : x ∈ tables K L r := Memory.mem_tables.mpr (.inl own)

theorem own_update {root : Nat} (ne : r ≠ root) : Own (update L root sub) r x ↔ Own L r x := by
  rw [Own, Own, update_of_ne ne]

theorem Branches.not_own {child : Nat → Set Nat → Prop}
    (branches : Branches E child r (tables K L r) (below K L r)) (le : 256 ≤ i) (lt : i < 512) (mem : x ∈ K i) :
    ¬ Own L r x := by
  have there : x ∈ below K L r i := by rwa [below_high le]
  rintro (rfl | ⟨j, ltJ, memJ⟩)
  · exact branches.root i lt there
  · have here : x ∈ below K L r j := by rwa [below_low ltJ]
    exact Set.disjoint_left.mp (branches.disjoint i j lt (by omega) (by omega)) there here

theorem Branches.join {t : Nat} {low : Nat → Set Nat}
    (high : Branches E (Tree E 2) t S sub) (shared : ∀ i, 256 ≤ i → K i = sub i) (same : L r = low)
    (entry : ∀ i, 256 ≤ i → i < 512 → E r i = E t i) (out : ∀ x, (x = r ∨ ∃ i < 256, x ∈ low i) → x ∉ S)
    (root : ∀ i < 256, r ∉ low i) (disjoint : ∀ i j, i < 256 → j < 256 → i ≠ j → Disjoint (low i) (low j))
    (linked : ∀ i < 256, Linked (E r i) → Tree E 2 (address (E r i)) (low i))
    (blank : ∀ i < 256, ¬ Linked (E r i) → low i = ∅) : Branches E (Tree E 2) r (tables K L r) (below K L r) := by
  subst same
  have upper : ∀ {i}, ¬ i < 256 → below K L r i = sub i := fun notLow => (if_neg notLow).trans (shared _ (by omega))
  refine ⟨fun x => Iff.rfl, ?_, ?_, ?_, ?_⟩
  · intro i lt
    by_cases isLow : i < 256
    · rw [below_low isLow]
      exact root i isLow
    · rw [upper isLow]
      exact fun mem => out r (.inl rfl) (high.sub_subset lt mem)
  · intro i j ltI ltJ ne
    by_cases lowI : i < 256
    · rw [below_low lowI]
      by_cases lowJ : j < 256
      · rw [below_low lowJ]
        exact disjoint i j lowI lowJ ne
      · rw [upper lowJ, Set.disjoint_left]
        exact fun x mem mem' => out x (.inr ⟨i, lowI, mem⟩) (high.sub_subset ltJ mem')
    · rw [upper lowI]
      by_cases lowJ : j < 256
      · rw [below_low lowJ, Set.disjoint_left]
        exact fun x mem mem' => out x (.inr ⟨j, lowJ, mem'⟩) (high.sub_subset ltI mem)
      · rw [upper lowJ]
        exact high.disjoint i j ltI ltJ ne
  · intro i lt isLinked
    by_cases isLow : i < 256
    · rw [below_low isLow]
      exact linked i isLow isLinked
    · rw [upper isLow]
      rw [entry i (by omega) lt] at isLinked ⊢
      exact high.linked i lt isLinked
  · intro i lt unlinked
    by_cases isLow : i < 256
    · rw [below_low isLow]
      exact blank i isLow unlinked
    · rw [upper isLow]
      rw [entry i (by omega) lt] at unlinked
      exact high.blank i lt unlinked

theorem SharedHalf.tree_at (inv : SharedHalf st K L) (known : r ∈ st.roots) :
    Tree st.mem.entries 3 r (tables K L r) := ⟨_, inv.tree r known⟩

theorem slotAt_higher {addr : Nat} (lo : 2 ^ 64 - 2 ^ 47 ≤ addr) (hi : addr < 2 ^ 64) : 256 ≤ slotAt 3 addr := by
  unfold slotAt
  omega

theorem SharedHalf.inStep (inv : SharedHalf st K L) : HalfInStep st := by
  refine ⟨?_, ?_⟩
  · intro r known r' known' addr lo hi
    have entry := inv.same r known r' known' (slotAt 3 addr) (slotAt_higher lo hi) (slotAt_lt 3 addr)
    have found : lookup st.mem.entries 3 r addr = lookup st.mem.entries 3 r' addr := by
      simp [lookup, entry]
    unfold translate translateVirtPhysAddr
    rw [translateFrom_eq, translateFrom_eq, found]
  · intro r known x refers
    exact (inv.live r known x ((inv.tree_at known).mem_of_refers refers)).1

theorem sharedHalf_single {s : TableMem} {root : Nat} (tree : Tree s.entries 3 root S)
    (live : ∀ x ∈ S, s.inUse x = true ∧ x < s.hhdm.len) : ∃ K L, SharedHalf ⟨s, [root]⟩ K L := by
  obtain ⟨sub, branches⟩ := tree
  have same : below sub (fun _ => sub) root = sub := by
    funext i
    simp [below]
  have all : tables sub (fun _ => sub) root = S := by
    ext x
    rw [branches.union, tables, same]
    rfl
  refine ⟨sub, fun _ => sub, ?_, ?_, ?_, ?_⟩
  · intro r known
    obtain rfl := List.mem_singleton.mp known
    rwa [all, same]
  · intro r known r' known' i _ _
    rw [List.mem_singleton.mp known, List.mem_singleton.mp known']
  · intro r known r' known' ne
    rw [List.mem_singleton.mp known, List.mem_singleton.mp known'] at ne
    exact absurd rfl ne
  · intro r known
    obtain rfl := List.mem_singleton.mp known
    rwa [all]

end SharedHalf

/-! ## A change through one root -/

/-- An operation on the tree at `root` that leaves the higher half of the root table alone, takes only frames
that were not in use, and touches nothing else that is in use. -/
structure RootChange (st : Trees) (K : Nat → Set Nat) (L : Nat → Nat → Set Nat) (root : Nat) (s' : TableMem)
    (S' : Set Nat) (sub : Nat → Set Nat) : Prop where
  branches : Branches s'.entries (Tree s'.entries 2) root S' sub
  top : ∀ i, 256 ≤ i → i < 512 → s'.entries root i = st.mem.entries root i
  fresh : ∀ x ∈ S', x ∈ tables K L root ∨ st.mem.inUse x = false
  outside : ∀ x, x ∉ tables K L root → st.mem.inUse x = true → s'.entries x = st.mem.entries x ∧ s'.inUse x = true
  live : ∀ x ∈ S', s'.inUse x = true ∧ x < s'.hhdm.len
  hhdm : s'.hhdm = st.mem.hhdm

section RootChange

variable {st : Trees} {K : Nat → Set Nat} {L : Nat → Nat → Set Nat} {root : Nat} {s' : TableMem}
  {S' : Set Nat} {sub : Nat → Set Nat}

variable {r x i : Nat}

theorem below_root : below sub (update L root sub) root = sub := by
  funext i
  simp [below]

variable (change : RootChange st K L root s' S' sub)

include change

theorem RootChange.tables_root : tables sub (update L root sub) root = S' := by
  ext x
  rw [change.branches.union, tables, below_root]
  rfl

theorem RootChange.tree : Branches s'.entries (Tree s'.entries 2) root (tables sub (update L root sub) root)
    (below sub (update L root sub) root) := by
  rw [change.tables_root, below_root]
  exact change.branches

variable (inv : SharedHalf st K L) (known : root ∈ st.roots)

include inv known

theorem RootChange.own (knownR : r ∈ st.roots) (ne : r ≠ root) (own : Own L r x) :
    x ∉ S' ∧ s'.entries x = st.mem.entries x ∧ s'.inUse x = true := by
  have away : x ∉ tables K L root := fun mem => inv.apart root known r knownR ne.symm x mem own
  have used := (inv.live r knownR x own.mem_tables).1
  refine ⟨fun mem => ?_, change.outside x away used⟩
  rcases change.fresh x mem with inside | unused
  · exact away inside
  · rw [used] at unused
    cases unused

theorem RootChange.entry (knownR : r ∈ st.roots) (le : 256 ≤ i) (lt : i < 512) : s'.entries r i = s'.entries root i := by
  by_cases eq : r = root
  · rw [eq]
  · rw [(change.own inv known knownR eq (.inl rfl)).2.1, change.top i le lt, inv.same r knownR root known i le lt]

theorem RootChange.other_tree (knownR : r ∈ st.roots) (ne : r ≠ root) :
    Branches s'.entries (Tree s'.entries 2) r (tables sub (update L root sub) r) (below sub (update L root sub) r) := by
  have old := inv.tree r knownR
  have low : ∀ {i}, i < 256 → below K L r i = L r i := below_low
  have out : ∀ {x}, Own L r x → _ := fun own => change.own inv known knownR ne own
  have rootOut := (out (.inl rfl)).2.1
  refine .join change.branches (fun _ _ => rfl) (update_of_ne ne _ _) (fun i => change.entry inv known knownR)
    (fun x own => (out own).1) ?_ ?_ ?_ ?_
  · exact fun i lt => low lt ▸ old.root i (by omega)
  · exact fun i j ltI ltJ neIJ => low ltI ▸ low ltJ ▸ old.disjoint i j (by omega) (by omega) neIJ
  · intro i lt linked
    rw [rootOut] at linked ⊢
    have tree := old.linked i (by omega) linked
    rw [low lt] at tree
    exact tree.congr fun x mem => (out (.inr ⟨i, lt, mem⟩)).2.1
  · intro i lt unlinked
    rw [rootOut] at unlinked
    exact low lt ▸ old.blank i (by omega) unlinked

theorem RootChange.apart {r' : Nat} (knownR : r ∈ st.roots) (knownR' : r' ∈ st.roots) (ne : r ≠ r')
    (mem : x ∈ tables sub (update L root sub) r) : ¬ Own (update L root sub) r' x := by
  intro own
  by_cases eq' : r' = root
  · subst eq'
    rcases mem_tables.mp mem with ownR | ⟨i, le, lt, memI⟩
    · exact (change.own inv known knownR ne ((own_update ne).mp ownR)).1 (change.tables_root ▸ own.mem_tables)
    · exact change.tree.not_own le lt memI own
  · have ownR' := (own_update eq').mp own
    have out := (change.own inv known knownR' eq' ownR').1
    by_cases eq : r = root
    · subst eq
      rw [change.tables_root] at mem
      exact out mem
    · rcases mem_tables.mp mem with ownR | ⟨i, le, lt, memI⟩
      · exact inv.apart r knownR r' knownR' ne x ((own_update eq).mp ownR).mem_tables ownR'
      · exact out (change.branches.sub_subset lt memI)

theorem SharedHalf.update : SharedHalf ⟨s', st.roots⟩ sub (update L root sub) := by
  refine ⟨?_, ?_, ?_, ?_⟩
  · intro r knownR
    by_cases eq : r = root
    · subst eq
      exact change.tree
    · exact change.other_tree inv known knownR eq
  · intro r knownR r' knownR' i le lt
    rw [change.entry inv known knownR le lt, change.entry inv known knownR' le lt]
  · intro r knownR r' knownR' ne x mem
    exact change.apart inv known knownR knownR' ne mem
  intro r knownR x mem
  by_cases eq : r = root
  · subst eq
    rw [change.tables_root] at mem
    exact change.live x mem
  rcases mem_tables.mp mem with own | ⟨i, -, lt, memI⟩
  · rw [own_update eq] at own
    refine ⟨(change.own inv known knownR eq own).2.2, ?_⟩
    rw [show s'.hhdm = st.mem.hhdm from change.hhdm]
    exact (inv.live r knownR x own.mem_tables).2
  · exact change.live x (change.branches.sub_subset lt memI)

end RootChange

/-! ## The steps -/

variable {virt n root i : Nat} {st st' : Trees} {s' s : TableMem}

theorem KernelRange.canonical (range : KernelRange virt n) : CanonicalRange virt n :=
  ⟨range.aligned, .inr ⟨range.higher, range.fits⟩⟩

theorem Meets.page {j : Nat} (range : CanonicalRange virt n) (some_pages : 0 < n) (meets : Meets 3 (pos 3 virt) n j) :
    ∃ i < n, slotAt 3 (virt + 4096 * i) = j := by
  obtain ⟨lo, hi⟩ := meets
  have start : ∀ i < n, slotAt 3 (virt + 4096 * i) = (pos 3 virt + i) / 512 ^ 3 := by
    intro i lt
    rw [slotAt_succ_eq_div 2, ← pos_range range lt (show 0 < 4096 by omega)]
    rfl
  -- the first page of the range, or the first page below the entry
  by_cases before : pos 3 virt ≤ j * 512 ^ 3
  · refine ⟨j * 512 ^ 3 - pos 3 virt, by omega, ?_⟩
    rw [start _ (by omega)]
    omega
  · refine ⟨0, by omega, ?_⟩
    rw [start 0 (by omega)]
    omega

section Steps

variable {st : Trees} {K : Nat → Set Nat} {L : Nat → Nat → Set Nat} {root virt n : Nat} {s' : TableMem}

variable {pool : List Nat} {existing new r i : Nat}

section

variable (inv : SharedHalf st K L) (known : root ∈ st.roots)

include inv known

theorem SharedHalf.frames (offers : Offers st.mem pool) : Frames { st.mem with pool := pool } (tables K L root) := by
  refine ⟨offers.nodup, offers.aligned, ?_, offers.direct, fun x mem => (inv.live root known x mem).2⟩
  intro f offered inside
  have used := (inv.live root known f inside).1
  rw [offers.free f offered] at used
  cases used

theorem SharedHalf.map (range : KernelRange virt n) (offers : Offers st.mem pool) {p : Nat} {r : (Nat × Nat) × Nat}
    (prepared : ∀ i < n, present (st.mem.entries root (slotAt 3 (virt + 4096 * i))) = true)
    (run : kernelManualMap 4 root p virt n 0 { st.mem with pool := pool } = some (r, s')) :
    ∃ K' L', SharedHalf ⟨s', st.roots⟩ K' L' := by
  have canonical := range.canonical
  have fits := canonical.fits.1
  have some_pages := kernelManualMap_pages run
  have frames := inv.frames known offers
  have tree : Tree ({ st.mem with pool := pool } : TableMem).entries 3 root (tables K L root) :=
    inv.tree_at known
  obtain ⟨count, S', maps⟩ := kernelManualMap_spec 3 tree frames (dvd_zero _) run
  rw [show min n (512 ^ (3 + 1) - pos 3 virt) = n by omega] at count
  rw [count] at maps
  obtain ⟨taken, -, pool_eq, members, used⟩ := maps.grow.taken
  obtain ⟨sub, branches⟩ := maps.tree
  have unused : ∀ x ∈ taken, st.mem.inUse x = false := by
    intro x mem
    refine offers.free x ?_
    rw [show pool = taken ++ s'.pool from pool_eq]
    exact List.mem_append_left _ mem
  refine ⟨_, _, inv.update ⟨branches, ?_, ?_, ?_, ?_, maps.grow.hhdm⟩ known⟩
  · intro i _ _
    refine (maps.blank i).resolve_right ?_
    rintro ⟨absent, meets⟩
    obtain ⟨k, lt, rfl⟩ := meets.page canonical some_pages
    simp only [prepared k lt] at absent
    cases absent
  · intro x mem
    exact ((members x).mp mem).imp_right fun new => unused x new
  · intro x out live
    refine ⟨maps.grow.outside x fun mem => ?_, (used x).mpr (.inl live)⟩
    rcases (members x).mp mem with old | new
    · exact out old
    · rw [unused x new] at live
      cases live
  · intro x mem
    refine ⟨(used x).mpr ?_, (maps.grow.frames frames).tables x mem⟩
    exact ((members x).mp mem).imp_left fun old => (inv.live root known x old).1

theorem SharedHalf.unmap (range : KernelRange virt n)
    {freed : Nat} (remains : ∀ i < n, ∃ addr, slotAt 3 addr = slotAt 3 (virt + 4096 * i) ∧
      ¬ InRange virt n addr ∧ lookup st.mem.entries 3 root addr ≠ none)
    (run : kernelManualUnmap 4 root virt n 0 st.mem = some (freed, s')) : ∃ K' L', SharedHalf ⟨s', st.roots⟩ K' L' := by
  have canonical := range.canonical
  have fits := canonical.fits.1
  have some_pages : 0 < n := of_decide_eq_true (assert_bind_eq_some.mp run).1
  obtain ⟨count, S', unmaps⟩ := kernelManualUnmap_spec 3 (inv.tree_at known) (dvd_zero _) run
  obtain rfl : freed = n := by omega
  obtain ⟨sub, branches⟩ := unmaps.tree
  refine ⟨_, _, inv.update ⟨branches, ?_, fun x mem => .inl (unmaps.subset mem), ?_, ?_, unmaps.hhdm⟩ known⟩
  · intro i _ _
    refine (unmaps.cleared i).resolve_right ?_
    rintro ⟨absent, meets⟩
    -- a page that is still mapped is below this entry
    obtain ⟨k, lt, rfl⟩ := meets.page canonical some_pages
    obtain ⟨addr, slot, out, mapped⟩ := remains k lt
    rw [inRange_iff canonical] at out
    rw [← unmaps.remap.outside out, lookup_blank (by rwa [slot])] at mapped
    exact mapped rfl
  · intro x out live
    exact ⟨unmaps.outside x out, (unmaps.kept x (.inr out)).trans live⟩
  intro x mem
  have old := inv.live root known x (unmaps.subset mem)
  refine ⟨(unmaps.kept x (.inl mem)).trans old.1, ?_⟩
  rw [unmaps.hhdm]
  exact old.2

end

theorem newTree_copies {s : TableMem} (run : newTree existing s = some (new, s')) :
    new ∈ s.pool ∧ s'.hhdm = s.hhdm ∧ s'.inUse = update s.inUse new true ∧ (∀ x, x ≠ new → s'.entries x = s.entries x) ∧
      (existing ≠ new → ∀ i, s'.entries new i = if 256 ≤ i ∧ i < 512 then s.entries existing i else 0) := by
  unfold newTree at run
  cases pool : s.pool with
  | nil => simp [allocate, pool] at run
  | cons frame rest =>
    simp only [bind_run, allocate, pool, Option.bind_some, zeroFrame, direct] at run
    split at run
    case isFalse => cases run
    case isTrue =>
    obtain ⟨rfl, rfl⟩ := run
    refine ⟨.head _, rfl, rfl, ?_, ?_⟩
    · intro x ne
      simp [update_of_ne ne]
    · intro ne i
      simp [update_of_ne ne]

theorem tables_copied (ne : r ≠ new) : below K (update L new fun _ => ∅) r = below K L r ∧
      tables K (update L new fun _ => ∅) r = tables K L r := by
  have same : below K (update L new fun _ => ∅) r = below K L r := by
    funext i
    rw [below, below, update_of_ne ne]
  refine ⟨same, ?_⟩
  rw [tables, tables, same]

theorem own_copy {x : Nat} : Own (update L new fun _ => ∅) new x ↔ x = new := by
  simp [Own]

theorem SharedHalf.copy_tree (inv : SharedHalf st K L) (known : existing ∈ st.roots)
    (elsewhere : ∀ x, x ≠ new → s'.entries x = st.mem.entries x) (fresh : ∀ x ∈ tables K L existing, x ≠ new)
    (higher : ∀ i, 256 ≤ i → i < 512 → s'.entries new i = st.mem.entries existing i)
    (lower : ∀ i < 256, s'.entries new i = 0) :
    Branches s'.entries (Tree s'.entries 2) new (tables K (Function.update L new fun _ => ∅) new)
      (below K (Function.update L new fun _ => ∅) new) := by
  refine .join ((inv.tree existing known).congr fun x mem => elsewhere x (fresh x mem)) (fun i le => (below_high le).symm)
    (update_self ..) (fun i le lt => ?_) ?_ (fun _ _ => Set.notMem_empty _) (fun _ _ _ _ _ => Set.empty_disjoint _)
    (fun i lt linked => ?_) (fun _ _ _ => rfl)
  · rw [higher i le lt, elsewhere existing (fresh _ (.inl rfl))]
  · rintro x (rfl | ⟨i, -, mem⟩) inside
    · exact fresh x inside rfl
    · exact Set.notMem_empty x mem
  · rw [lower i lt] at linked
    exact absurd linked.1 (by decide)

theorem SharedHalf.copy (inv : SharedHalf st K L) (known : existing ∈ st.roots) (offers : Offers st.mem pool)
    (run : newTree existing { st.mem with pool := pool } = some (new, s')) :
    SharedHalf ⟨s', new :: st.roots⟩ K (Function.update L new fun _ => ∅) := by
  obtain ⟨offered, hhdm, used, elsewhere, copied⟩ := newTree_copies run
  have notTable : ∀ {r}, r ∈ st.roots → ∀ x ∈ tables K L r, x ≠ new := by
    rintro r knownR x mem rfl
    have live := (inv.live r knownR x mem).1
    rw [offers.free x offered] at live
    cases live
  have old : ∀ {r}, r ∈ st.roots → r ≠ new := fun knownR => notTable knownR _ (.inl rfl)
  have higher : ∀ i, 256 ≤ i → i < 512 → s'.entries new i = st.mem.entries existing i := by
    intro i le lt
    rw [copied (old known), if_pos ⟨le, lt⟩]
  have keeps : ∀ {r}, r ∈ st.roots → ∀ x ∈ tables K L r, s'.inUse x = true ∧ x < s'.hhdm.len := by
    intro r knownR x mem
    rw [used, update_of_ne (notTable knownR x mem), hhdm]
    exact inv.live r knownR x mem
  have entry : ∀ r ∈ new :: st.roots, ∀ i, 256 ≤ i → i < 512 → s'.entries r i = st.mem.entries existing i := by
    intro r knownR i le lt
    rcases List.mem_cons.mp knownR with rfl | knownR
    · exact higher i le lt
    · rw [elsewhere r (old knownR)]
      exact inv.same r knownR existing known i le lt
  refine ⟨?_, ?_, ?_, ?_⟩
  · intro r knownR
    rcases List.mem_cons.mp knownR with rfl | knownR
    · exact inv.copy_tree known elsewhere (notTable known) higher
        fun i lt => by rw [copied (old known), if_neg (by omega)]
    · obtain ⟨sameBelow, sameTables⟩ := tables_copied (old knownR)
      rw [sameBelow, sameTables]
      exact (inv.tree r knownR).congr fun x mem => elsewhere x (notTable knownR x mem)
  · intro r knownR r' knownR' i le lt
    rw [entry r knownR i le lt, entry r' knownR' i le lt]
  · intro r knownR r' knownR' ne x mem own
    rcases List.mem_cons.mp knownR' with rfl | oldR'
    · -- the new tree has only its root for itself
      rcases List.mem_cons.mp knownR with eq | oldR
      · exact ne eq
      · rw [(tables_copied (old oldR)).2] at mem
        exact notTable oldR x mem (own_copy.mp own)
    · have ownR' := (own_update (old oldR')).mp own
      rcases List.mem_cons.mp knownR with rfl | oldR
      · rcases mem_tables.mp mem with own | ⟨i, le, lt, memI⟩
        · exact notTable oldR' x ownR'.mem_tables (own_copy.mp own)
        · exact (inv.tree r' oldR').not_own le lt memI ownR'
      · rw [(tables_copied (old oldR)).2] at mem
        exact inv.apart r oldR r' oldR' ne x mem ownR'
  · intro r knownR x mem
    rcases List.mem_cons.mp knownR with rfl | knownR
    · rcases mem_tables.mp mem with own | shared
      · obtain rfl := own_copy.mp own
        refine ⟨by rw [used, update_self], ?_⟩
        rw [hhdm]
        exact offers.direct x offered
      · exact keeps known x (mem_tables.mpr (.inr shared))
    · rw [(tables_copied (old knownR)).2] at mem
      exact keeps knownR x mem

end Steps

theorem kernelStep_inv {op : KernelOp} {K : Nat → Set Nat} {L : Nat → Nat → Set Nat}
    (inv : SharedHalf st K L) (ok : AllSeeIt st op) (step : KernelStep st op st') : ∃ K' L', SharedHalf st' K' L' := by
  cases step with
  | copy known offers run => exact ⟨_, _, inv.copy known offers run⟩
  | map known range offers run => exact inv.map known range offers ok run
  | unmap known range run => exact inv.unmap known range ok run

theorem kernelRun_inv {ops : List KernelOp} (run : KernelRun AllSeeIt st ops st')
    (inv : ∃ K L, SharedHalf st K L) : ∃ K L, SharedHalf st' K L := by
  induction run with
  | nil => exact inv
  | cons ok step _ ih =>
    obtain ⟨K, L, inv⟩ := inv
    exact ih (kernelStep_inv inv ok step)

/-- Page trees that share their higher half stay in step, however they are used, as long as no entry of a root
table changes. -/
theorem shared_half_in_step {st st' : Trees} {K : Nat → Set Nat} {L : Nat → Nat → Set Nat} {ops : List KernelOp}
    (shared : SharedHalf st K L) (run : KernelRun AllSeeIt st ops st') : HalfInStep st' := by
  obtain ⟨K', L', inv⟩ := kernelRun_inv run ⟨K, L, shared⟩
  exact inv.inStep

theorem prepareEntry_present (apart : root ∉ s.pool) (run : prepareEntry root i s = some ((), s')) :
    root ∉ s'.pool ∧ present (s'.entries root i) = true ∧
      ∀ j, present (s.entries root j) = true → present (s'.entries root j) = true := by
  unfold prepareEntry at run
  rw [entry_bind] at run
  split at run
  case isTrue here =>
    cases run
    exact ⟨apart, here, fun _ there => there⟩
  case isFalse =>
  cases pool : s.pool with
  | nil => simp [allocate, pool] at run
  | cons frame rest =>
    rw [pool, List.mem_cons, not_or] at apart
    simp only [bind_run, allocate, pool, Option.bind_some, zeroFrame, direct] at run
    split at run
    case isFalse => cases run
    case isTrue =>
    simp only [Option.bind_some, Prog.modify_run, setEntry_run, Option.some.injEq, Prod.mk.injEq, true_and] at run
    subst run
    refine ⟨apart.2, by rw [put_self, present_new], fun j there => ?_⟩
    by_cases eq : j = i
    · rw [eq, put_self, present_new]
    · rw [put_index eq]
      simp only [update_of_ne apart.1]
      exact there

theorem prepareHigherHalf_present (apart : root ∉ s.pool)
    (run : prepareHigherHalf root s = some ((), s')) : ∀ i, 256 ≤ i → i < 512 → present (s'.entries root i) = true := by
  have all := forUp_eq_some_ind
    (fun i u => root ∉ u.pool ∧ ∀ j, 256 ≤ j → j < i → present (u.entries root j) = true)
    (by
      rintro i u u' - - ⟨apartU, done⟩ step
      obtain ⟨apartU', here, kept⟩ := prepareEntry_present apartU step
      refine ⟨apartU', fun j le lt => ?_⟩
      by_cases eq : j = i
      · rwa [eq]
      · exact kept j (done j le (by omega)))
    ⟨apart, fun j le lt => by omega⟩ run
  exact fun i le lt => all.2 i le (by omega)

theorem allSeeIt_of_prepared {p : Nat} (apart : root ∉ s.pool) (prepared : prepareHigherHalf root s = some ((), st.mem))
    (range : KernelRange virt n) : AllSeeIt st (.map root p virt n) := by
  intro i lt
  have higher := range.higher
  have fits := range.fits
  exact prepareHigherHalf_present apart prepared _ (slotAt_higher (by omega) (by omega)) (slotAt_lt 3 _)

/-! ## Two trees -/

/-- A root at 0x1000 after `prepare_higher_half`: the entry `i` of the higher half leads to an empty table. -/
def preparedTables : TableMem where
  entries := fun t i =>
    if t = 0x1000 ∧ 256 ≤ i ∧ i < 512 then PageTableEntry.new (0x100000 + 0x1000 * i) false else 0
  pool := []
  inUse := fun x => x == 0x1000 || (decide (0x200000 ≤ x) && decide (x < 0x300000))
  hhdm := blankTables.hhdm

theorem preparedTables_blank {t : Nat} (ne : ¬ (t = 0x1000 ∧ 256 ≤ i ∧ i < 512)) :
    present (preparedTables.entries t i) = false := by
  simp only [preparedTables, if_neg ne]
  decide

theorem preparedTables_entry (le : 256 ≤ i) (lt : i < 512) :
    preparedTables.entries 0x1000 i = PageTableEntry.new (0x100000 + 0x1000 * i) false := by
  simp only [preparedTables, true_and]
  rw [if_pos ⟨le, lt⟩]

theorem preparedTables_shared : ∃ K L, SharedHalf ⟨preparedTables, [0x1000]⟩ K L := by
  let sub : Nat → Set Nat := fun i => {x | 256 ≤ i ∧ x = 0x100000 + 0x1000 * i}
  have branches : Branches preparedTables.entries (Tree preparedTables.entries 2) 0x1000
      {x | x = 0x1000 ∨ ∃ i < 512, x ∈ sub i} sub := by
    refine ⟨fun x => Iff.rfl, ?_, ?_, ?_, ?_⟩
    · rintro i lt ⟨le, eq⟩
      omega
    · intro i j _ _ ne
      rw [Set.disjoint_left]
      rintro x ⟨-, eqI⟩ ⟨-, eqJ⟩
      omega
    · intro i lt linked
      by_cases le : 256 ≤ i
      · have frame : frameOf (0x100000 + 0x1000 * i) = 0x100000 + 0x1000 * i := by
          unfold frameOf
          omega
        have only : sub i = {0x100000 + 0x1000 * i} := by
          ext x
          simp [sub, le]
        rw [preparedTables_entry le lt, address_new, frame, only]
        exact tree_empty fun j _ => preparedTables_blank (by omega)
      · have blank := preparedTables_blank (t := 0x1000) (i := i) (by omega)
        rw [linked.1] at blank
        cases blank
    · intro i lt unlinked
      by_cases le : 256 ≤ i
      · rw [preparedTables_entry le lt] at unlinked
        exact absurd (linked_new _) unlinked
      · ext x
        simp [sub, le]
  refine sharedHalf_single ⟨sub, branches⟩ ?_
  rintro x (rfl | ⟨i, lt, le, rfl⟩)
  · exact ⟨by decide, by decide⟩
  · simp only [preparedTables, blankTables, Bool.or_eq_true, beq_iff_eq, Bool.and_eq_true, decide_eq_true_eq]
    omega

def twoTrees : TableMem :=
  match newTree 0x1000 { preparedTables with pool := [0x3000] } with
  | some (_, s) => s
  | none => preparedTables

def mapUnmapFirst (n : Nat) : Prog TableMem Unit := do
  let _ ← kernelManualMap 4 0x1000 0x9000 (2 ^ 64 - 2 ^ 47) n 0
  let _ ← kernelManualUnmap 4 0x1000 (2 ^ 64 - 2 ^ 47) 1 0
  pure ()

theorem first_range (small : n ≤ 2) : KernelRange (2 ^ 64 - 2 ^ 47) n :=
  ⟨by decide, by omega, by omega⟩

theorem run_of_mapUnmapFirst (allowed : Trees → KernelOp → Prop) (small : n ≤ 2)
    (returns : mapUnmapFirst n { twoTrees with pool := [0x4000, 0x5000] } = some ((), s'))
    (copyOk : allowed ⟨preparedTables, [0x1000]⟩ (.copy 0x1000))
    (mapOk : allowed ⟨twoTrees, [0x3000, 0x1000]⟩ (.map 0x1000 0x9000 (2 ^ 64 - 2 ^ 47) n))
    (unmapOk : ∀ r s, kernelManualMap 4 0x1000 0x9000 (2 ^ 64 - 2 ^ 47) n 0
      { twoTrees with pool := [0x4000, 0x5000] } = some (r, s) →
      allowed ⟨s, [0x3000, 0x1000]⟩ (.unmap 0x1000 (2 ^ 64 - 2 ^ 47) 1)) :
    KernelRun allowed ⟨preparedTables, [0x1000]⟩ [.copy 0x1000, .map 0x1000 0x9000 (2 ^ 64 - 2 ^ 47) n,
      .unmap 0x1000 (2 ^ 64 - 2 ^ 47) 1] ⟨s', [0x3000, 0x1000]⟩ := by
  obtain ⟨r, s, map, freed, u, unmap, rest⟩ := bind₂_eq_some.mp returns
  cases rest
  have second : 0x1000 ∈ [0x3000, 0x1000] := by decide
  have offered : Offers preparedTables [0x3000] := ⟨by decide, by decide, by decide, by decide⟩
  refine .cons copyOk (.copy (.head _) offered rfl) ?_
  have offers : Offers twoTrees [0x4000, 0x5000] := ⟨by decide, by decide, by decide +kernel, by decide +kernel⟩
  refine .cons mapOk (.map second (first_range small) offers map) ?_
  exact .cons (unmapOk r s map) (.unmap second (first_range (by omega)) unmap) (.nil _)

theorem shared_half_in_step_two : ∃ st', KernelRun AllSeeIt ⟨preparedTables, [0x1000]⟩
    [.copy 0x1000, .map 0x1000 0x9000 (2 ^ 64 - 2 ^ 47) 2, .unmap 0x1000 (2 ^ 64 - 2 ^ 47) 1] st' ∧ HalfInStep st' := by
  obtain ⟨K, L, shared⟩ := preparedTables_shared
  have returned : (mapUnmapFirst 2 { twoTrees with pool := [0x4000, 0x5000] }).isSome = true := by decide +kernel
  obtain ⟨⟨⟨⟩, s'⟩, returns⟩ := Option.isSome_iff_exists.mp returned
  have prepared : ∀ i, i < 2 → present (twoTrees.entries 0x1000 (slotAt 3 (2 ^ 64 - 2 ^ 47 + 4096 * i))) = true := by
    decide +kernel
  have remains : (kernelManualMap 4 0x1000 0x9000 (2 ^ 64 - 2 ^ 47) 2 0
      { twoTrees with pool := [0x4000, 0x5000] }).map
      (fun r => (lookup r.2.entries 3 0x1000 (2 ^ 64 - 2 ^ 47 + 4096)).isSome) = some true := by decide +kernel
  have run := run_of_mapUnmapFirst AllSeeIt (by omega) returns trivial prepared (by
    intro r s map i lt
    obtain rfl : i = 0 := by omega
    refine ⟨2 ^ 64 - 2 ^ 47 + 4096, by decide, ?_, ?_⟩
    · rintro ⟨j, ltJ, same⟩
      obtain rfl : j = 0 := by omega
      revert same
      decide
    · rw [map, Option.map_some, Option.some.injEq, Option.isSome_iff_ne_none] at remains
      exact remains)
  exact ⟨_, run, shared_half_in_step shared run⟩

/-- Unmapping the only page of an entry leaves the copy with a table that is not in use. -/
theorem emptied_table_referenced : ∃ st st' K L ops, SharedHalf st K L ∧
    KernelRun (fun _ _ => True) st ops st' ∧ ¬ HalfInStep st' := by
  obtain ⟨K, L, shared⟩ := preparedTables_shared
  -- the copy still leads to the table at 0x200000
  have freed : (mapUnmapFirst 1 { twoTrees with pool := [0x4000, 0x5000] }).map
      (fun r => (decide (Linked (r.2.entries 0x3000 256)), address (r.2.entries 0x3000 256), r.2.inUse 0x200000)) =
      some (true, 0x200000, false) := by decide +kernel
  rw [Option.map_eq_some_iff] at freed
  obtain ⟨⟨⟨⟩, s'⟩, returns, table⟩ := freed
  simp only [Prod.mk.injEq, decide_eq_true_eq] at table
  obtain ⟨linked, target, unused⟩ := table
  refine ⟨_, _, K, L, _, shared, run_of_mapUnmapFirst _ (by omega) returns trivial trivial fun _ _ _ => trivial, ?_⟩
  intro inStep
  have used := inStep.live 0x3000 (.head _) 0x200000
    (.inr ⟨256, by omega, linked, .inl target.symm⟩)
  rw [show s'.inUse 0x200000 = false from unused] at used
  cases used

end MeowOs.Memory
