import MeowOs.Memory.PageUnmapping

/-! # Translations across a mapping and its undoing

The contract of `kernel_manual_map` and `kernel_manual_unmap` in terms of the
translations that a page tree gives.  It holds exactly for physical ranges that
end below 2^48: `PageTableEntry::new` cuts the address it stores to 48 bits,
while `address()` and the walk read 52.
-/

namespace MeowOs.Memory

open MeowOs.Machine PageTableEntry TableMem

/-! ## The contract -/

/-- `n` pages from `virt` on, on one side of the gap between the two halves of the address space. -/
structure CanonicalRange (virt n : Nat) : Prop where
  aligned : 4096 ∣ virt
  half : virt + 4096 * n ≤ 2 ^ 47 ∨ (2 ^ 64 - 2 ^ 47 ≤ virt ∧ virt + 4096 * n ≤ 2 ^ 64)

def translate (s : TableMem) (root addr : Nat) : Option Nat :=
  translateVirtPhysAddr s.hhdm s.entries addr root

/-- The address is in one of the `n` pages from `virt` on; only its low 48 bits name its page. -/
def InRange (virt n addr : Nat) : Prop := ∃ i, i < n ∧ pos 3 addr = pos 3 (virt + 4096 * i)

/-- Mapping `n` pages from `virt` on to `p` and unmapping them again does to the translations what it should. -/
def MapsAndUnmaps (s : TableMem) (root virt n p : Nat) : Prop :=
  ∃ first s₁ freed s₂, kernelManualMap 4 root p virt n 0 s = some ((first, n), s₁) ∧
    (∀ i, i < n → ∀ o, o < 4096 → translate s₁ root (virt + 4096 * i + o) = some (p + 4096 * i + o)) ∧
    (∀ addr, ¬ InRange virt n addr → translate s₁ root addr = translate s root addr) ∧
    kernelManualUnmap 4 root virt n 0 s₁ = some (freed, s₂) ∧ ∀ addr, translate s₂ root addr = translate s root addr

/-! ## Ranges as rows -/

variable {virt n addr root : Nat} {s : TableMem}

theorem CanonicalRange.fits (range : CanonicalRange virt n) : pos 3 virt + n ≤ 512 ^ 4 ∧ virt + n * 4096 ≤ 2 ^ 64 := by
  have half := range.half
  unfold pos
  omega

theorem pos_range {i o : Nat} (range : CanonicalRange virt n) (lt : i < n) (small : o < 4096) :
    pos 3 (virt + 4096 * i + o) = pos 3 virt + i := by
  have fits := range.fits.1
  obtain ⟨k, rfl⟩ := range.aligned
  have page : (4096 * k + 4096 * i + o) / 4096 = (4096 * k + i * 4096) / 4096 := by omega
  have start : pos 3 (4096 * k + i * 4096) = pos 3 (4096 * k) + i := pos_add (by omega)
  rw [← start]
  unfold pos
  rw [page]

theorem inRange_iff (range : CanonicalRange virt n) :
    InRange virt n addr ↔ pos 3 virt ≤ pos 3 addr ∧ pos 3 addr < pos 3 virt + n := by
  have start : ∀ i < n, pos 3 (virt + 4096 * i) = pos 3 virt + i := fun i lt =>
    pos_range range lt (show 0 < 4096 by omega)
  constructor
  · rintro ⟨i, lt, same⟩
    rw [start i lt] at same
    omega
  rintro ⟨lo, hi⟩
  refine ⟨pos 3 addr - pos 3 virt, by omega, ?_⟩
  rw [start _ (by omega)]
  omega

theorem translate_eq (away : ¬ (s.hhdm.addr ≤ addr ∧ addr < s.hhdm.addr + s.hhdm.len)) :
    translate s root addr = (lookup s.entries 3 root addr).map (physOf addr) := by
  rw [translate, translateVirtPhysAddr, if_neg away, translateFrom_eq]

theorem not_direct_of_unmapped (unmapped : translate s root addr = none) :
    ¬ (s.hhdm.addr ≤ addr ∧ addr < s.hhdm.addr + s.hhdm.len) := by
  intro direct
  rw [translate, translateVirtPhysAddr, if_pos direct] at unmapped
  cases unmapped

theorem translate_congr {s' : TableMem} (hhdm : s'.hhdm = s.hhdm)
    (same : lookup s'.entries 3 root addr = lookup s.entries 3 root addr) :
    translate s' root addr = translate s root addr := by
  unfold translate translateVirtPhysAddr
  rw [hhdm, translateFrom_eq, translateFrom_eq, same]

theorem physOf_page {e : Nat} : physOf addr (0, e) = address e + addr % 4096 := rfl

section Contract

variable {s : TableMem} {S : Set Nat} {root virt n p : Nat}

theorem row_of_unmapped (range : CanonicalRange virt n)
    (unmapped : ∀ i < n, ∀ o < 4096, translate s root (virt + 4096 * i + o) = none) :
    Row s.entries 3 root (pos 3 virt) n (· = none) := by
  intro addr lo hi
  have page := pos_range range (show pos 3 addr - pos 3 virt < n by omega) (show 0 < 4096 by omega)
  have none := unmapped (pos 3 addr - pos 3 virt) (by omega) 0 (by omega)
  rw [translate_eq (not_direct_of_unmapped none), Option.map_eq_none_iff] at none
  rw [← none]
  exact lookup_congr_pos (by omega)

theorem translate_mapped (range : CanonicalRange virt n)
    (unmapped : ∀ i < n, ∀ o < 4096, translate s root (virt + 4096 * i + o) = none)
    {s₁ : TableMem} {S₁ : Set Nat} (maps : Maps 3 root p (pos 3 virt) n s s₁ S S₁) {i o : Nat} (lt : i < n)
    (small : o < 4096) : translate s₁ root (virt + 4096 * i + o) = some (frameOf (p + 4096 * i) + o) := by
  have page := pos_range range lt small
  have away := not_direct_of_unmapped (unmapped i lt o small)
  rw [← maps.grow.hhdm] at away
  have offset : (virt + 4096 * i + o) % 4096 = o := by
    obtain ⟨k, rfl⟩ := range.aligned
    omega
  rw [translate_eq away, maps.remap.inside (by omega) (by omega), page, Nat.add_sub_cancel_left,
    Option.map_some, physOf_page, address_new, offset, Nat.mul_comm i]

/-- The pages are stored whole exactly if the physical range is aligned and ends below 2^48. -/
theorem frames_kept_iff (some_pages : 0 < n) :
    (∀ i < n, frameOf (p + 4096 * i) = p + 4096 * i) ↔ 4096 ∣ p ∧ p + 4096 * n ≤ 2 ^ 48 := by
  unfold frameOf
  constructor
  · intro kept
    have last := kept (n - 1) (by omega)
    omega
  · rintro ⟨⟨k, rfl⟩, fits⟩ i lt
    omega

/-- Out of frames, mapping panics; three for every page are always enough. -/
theorem map_translate_unmap (tree : Tree s.entries 3 root S) (frames : Frames s S)
    (memory : 3 * n ≤ s.pool.length ∨ (kernelManualMap 4 root p virt n 0 s).isSome) (range : CanonicalRange virt n)
    (unmapped : ∀ i, i < n → ∀ o, o < 4096 → translate s root (virt + 4096 * i + o) = none) :
    MapsAndUnmaps s root virt n p ↔ 0 < n ∧ 4096 ∣ p ∧ p + 4096 * n ≤ 2 ^ 48 := by
  obtain ⟨inTable, virtFits⟩ := range.fits
  have aligned : 2 ^ (12 + 9 * (3 + 1)) ∣ 0 := dvd_zero _
  constructor
  · rintro ⟨first, s₁, freed, s₂, map, pages, -⟩
    have some_pages := kernelManualMap_pages map
    obtain ⟨-, S₁, maps⟩ := kernelManualMap_spec 3 tree frames aligned map
    refine ⟨some_pages, (frames_kept_iff some_pages).mp fun i lt => ?_⟩
    have wanted := pages i lt 0 (by omega)
    rw [translate_mapped range unmapped maps lt (by omega)] at wanted
    simpa using wanted
  · rintro ⟨some_pages, physical⟩
    have row := row_of_unmapped range unmapped
    have returns : ∃ r s₁, kernelManualMap 4 root p virt n 0 s = some (r, s₁) := by
      rcases memory with enough | returned
      · have physFits : p + n * 4096 ≤ 2 ^ 64 := by
          omega
        exact kernelManualMap_total 3 tree frames aligned (Nat.zero_le _) some_pages row enough physFits virtFits
      · obtain ⟨⟨r, s₁⟩, run⟩ := Option.isSome_iff_exists.mp returned
        exact ⟨r, s₁, run⟩
    obtain ⟨⟨first, m⟩, s₁, map⟩ := returns
    obtain ⟨count, S₁, maps⟩ := kernelManualMap_spec 3 tree frames aligned map
    obtain rfl : m = n := by omega
    have mapped : Row s₁.entries 3 root (pos 3 virt) m IsPage := fun addr lo hi =>
      ⟨_, maps.remap.inside lo hi⟩
    obtain ⟨freed, s₂, unmap⟩ := kernelManualUnmap_total 3 maps.tree aligned (maps.grow.frames frames).tables
      (Nat.zero_le _) some_pages mapped virtFits
    obtain ⟨freed_eq, S₂, unmaps⟩ := kernelManualUnmap_spec 3 maps.tree aligned unmap
    obtain rfl : freed = m := by omega
    refine ⟨first, s₁, freed, s₂, map, ?_, ?_, unmap, ?_⟩
    · intro i lt o small
      rw [translate_mapped range unmapped maps lt small, (frames_kept_iff some_pages).mpr physical i lt]
    · intro addr out
      rw [inRange_iff range] at out
      exact translate_congr maps.grow.hhdm (maps.remap.outside out)
    intro addr
    refine translate_congr (unmaps.hhdm.trans maps.grow.hhdm) ?_
    by_cases inside : pos 3 virt ≤ pos 3 addr ∧ pos 3 addr < pos 3 virt + freed
    · rw [unmaps.remap.inside inside.1 inside.2, row addr inside.1 inside.2]
    · rw [unmaps.remap.outside inside, maps.remap.outside inside]

end Contract

/-! ## A page in an empty tree -/

def blankTables : TableMem where
  entries := fun _ _ => 0
  pool := [0x2000, 0x3000, 0x4000]
  inUse := fun x => x == 0x1000
  hhdm := ⟨2 ^ 64 - 2 ^ 46, 2 ^ 46, by omega, by omega⟩

theorem blankTables_blank : ∀ i < 512, present (blankTables.entries 0x1000 i) = false := fun _ _ =>
  show present 0 = false by decide

theorem blankTables_tree : Tree blankTables.entries 3 0x1000 {0x1000} := tree_empty blankTables_blank

theorem blankTables_frames : Frames blankTables {0x1000} := by
  refine ⟨by decide, by decide, ?_, by decide, ?_⟩
  · intro f mem root
    subst root
    revert mem
    decide
  · intro x mem
    subst mem
    decide

theorem firstPage_range : CanonicalRange (2 ^ 64 - 2 ^ 47) 1 := ⟨by decide, by omega⟩

theorem firstPage_unmapped : ∀ i < 1, ∀ o < 4096,
    translate blankTables 0x1000 (2 ^ 64 - 2 ^ 47 + 4096 * i + o) = none := by
  intro i lt o small
  rw [translate_eq, lookup_empty blankTables_blank]
  · rfl
  · simp only [blankTables]
    omega

theorem map_translate_unmap_first : MapsAndUnmaps blankTables 0x1000 (2 ^ 64 - 2 ^ 47) 1 0x5000 :=
  (map_translate_unmap blankTables_tree blankTables_frames (.inl (by decide)) firstPage_range
    firstPage_unmapped).mpr ⟨by omega, by decide, by omega⟩

/-- The page at 2^48 is stored as the page at 0. -/
theorem high_page_lost : ∃ s S root virt n p, Tree s.entries 3 root S ∧ Frames s S ∧ 3 * n ≤ s.pool.length ∧
    CanonicalRange virt n ∧ (∀ i, i < n → ∀ o, o < 4096 → translate s root (virt + 4096 * i + o) = none) ∧
    0 < n ∧ 4096 ∣ p ∧ p + 4096 * n < 2 ^ 52 ∧ ¬ MapsAndUnmaps s root virt n p := by
  refine ⟨blankTables, {0x1000}, 0x1000, 2 ^ 64 - 2 ^ 47, 1, 2 ^ 48, blankTables_tree, blankTables_frames,
    by decide, firstPage_range, firstPage_unmapped, by omega, by decide, by omega, ?_⟩
  rintro ⟨first, s₁, -, s₂, map, pages, -⟩
  obtain ⟨-, S₁, maps⟩ := kernelManualMap_spec 3 blankTables_tree blankTables_frames (dvd_zero _) map
  have wanted := pages 0 (by omega) 0 (by omega)
  rw [translate_mapped firstPage_range firstPage_unmapped maps (by omega) (by omega)] at wanted
  revert wanted
  decide

end MeowOs.Memory
