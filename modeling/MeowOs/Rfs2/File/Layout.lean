import MeowOs.Rfs2.File.Operations

/-! # How a file lies on disk, and reading it

`fileByte` says which byte of the disk stands for a byte of a file of level 0 or
1.  `readLocked_readable` proves that reading returns these bytes, for files
whose pointers are distinct and inside the partition.
-/

namespace MeowOs.Rfs2

open MeowOs.Machine Prog
open Bytes (blit_front blit_inside blit_outside block_apply readLE_congr)

def patch (v : Rfs2) (a n : Nat) (src : Bytes) : Rfs2 :=
  { v with partition := { v.partition with bytes := v.disk.blit a n src } }

def infoOf (v : Rfs2) (root : Nat) : InodeInfo := InodeInfo.load (v.disk.block root)

def rootPointer (v : Rfs2) (root i : Nat) : Nat := (v.disk.block root).readLE (512 + 8 * i) 8

def fileByte (v : Rfs2) (root x : Nat) : UInt8 :=
  if (v.infoOf root).levels = 0 then v.disk.block root (512 + x)
  else v.disk.block (v.rootPointer root (x / 4096)) (x % 4096)

theorem sectors_bytes (n : Nat) : n * blockSizeSectors * 512 = n * 4096 := by
  simp only [blockSizeSectors]
  omega

/-! ## Accesses to a root block -/

section Root

variable {v v' : Rfs2} {root : Nat}

def HasHeader (v : Rfs2) (root : Nat) : Prop := root * blockSizeSectors + 1 ≤ v.partition.sizeSectors

theorem HasBlock.hasHeader (h : v.HasBlock root) : v.HasHeader root := by
  simp only [HasBlock, HasHeader, blockSizeSectors] at *
  omega

theorem getFileInfo_header (inside : v.HasHeader root) : getFileInfo root v = some (v.infoOf root, v.tick) := by
  have read : partitionRead (root * blockSizeSectors) 1 (v.frames 0) v.tick =
      some ((v.frames 0).blit 0 512 (v.disk.block root), v.tick) :=
    partitionRead_eq_some.mpr ⟨inside, by rw [sectors_bytes]; rfl, rfl⟩
  have load : InodeInfo.load ((v.frames 0).blit 0 512 (v.disk.block root)) = v.infoOf root := by
    refine InodeInfo.load_congr fun a aLt => ?_
    rw [blit_front (by omega)]
  simp [getFileInfo, WorkingBlock.new, allocateFrame, bind_run, pure_run, read, WorkingBlock.forgetMemBinding, load]

theorem getFileInfo_run (h : v.HasBlock root) : getFileInfo root v = some (v.infoOf root, v.tick) :=
  getFileInfo_header h.hasHeader

variable {info : InodeInfo} {buffer src : Bytes} {i n off len : Nat}

theorem setFileInfo_header (inside : v.HasHeader root) : setFileInfo root info v =
    some ((), v.tick.patch (root * 4096) 512 (info.store (v.frames 0))) := by
  have write : partitionWrite (root * blockSizeSectors) 1 (info.store (v.frames 0)) v.tick =
      some ((), v.tick.patch (root * 4096) 512 (info.store (v.frames 0))) :=
    partitionWrite_eq_some.mpr ⟨inside, by rw [patch, ← sectors_bytes]⟩
  simp only [setFileInfo, WorkingBlock.new, allocateFrame, bind_run, Option.bind_some, pure_run,
    WorkingBlock.getAsMut, write, WorkingBlock.forgetMemBinding]
  rfl

theorem setFileInfo_run (h : v.HasBlock root) : setFileInfo root info v =
    some ((), v.tick.patch (root * 4096) 512 (info.store (v.frames 0))) := setFileInfo_header h.hasHeader

theorem hasHeader_of_setFileInfo (h : setFileInfo root info v = some ((), v')) : v.HasHeader root := by
  obtain ⟨w, u, new, ⟨⟩, _, write, -⟩ := bind₂_eq_some.mp h
  cases new
  exact (partitionWrite_eq_some.mp write).1

theorem rootArea_place (root : Nat) : (root * blockSizeSectors + 1) * 512 = root * 4096 + 512 ∧
    (blockSizeSectors - 1) * 512 = 3584 ∧ root * blockSizeSectors + 1 + (blockSizeSectors - 1) = root * 8 + 8 := by
  refine ⟨?_, rfl, rfl⟩
  simp only [blockSizeSectors]
  omega

theorem readRootArea_eq_some {out : Bytes} : readRootArea root buffer v = some (out, v') ↔
    v.HasBlock root ∧ out = buffer.blit 0 3584 ((v.disk.block root).shift 512) ∧ v' = v := by
  obtain ⟨addr, len, inside⟩ := rootArea_place root
  have src : v.disk.shift (root * 4096 + 512) = (v.disk.block root).shift 512 := by
    funext a
    simp only [Bytes.shift_apply, block_apply, Nat.add_assoc]
  rw [readRootArea, partitionRead_eq_some, addr, len, inside, src]
  rfl

theorem readRootArea_run (h : v.HasBlock root) : readRootArea root buffer v =
    some (buffer.blit 0 3584 ((v.disk.block root).shift 512), v) :=
  readRootArea_eq_some.mpr ⟨h, rfl, rfl⟩

theorem writeRootArea_eq_some : writeRootArea root buffer v = some ((), v') ↔
    v.HasBlock root ∧ v' = v.patch (root * 4096 + 512) 3584 buffer := by
  obtain ⟨addr, len, inside⟩ := rootArea_place root
  rw [writeRootArea, partitionWrite_eq_some, addr, len, inside]
  rfl

theorem pointerAt_rootArea (iLt : i < 448) :
    pointerAt (buffer.blit 0 3584 ((v.disk.block root).shift 512)) i = v.rootPointer root i := by
  refine readLE_congr fun k kLt => ?_
  rw [blit_inside (by omega) (by omega), Bytes.shift_apply]
  congr 1
  omega

theorem patch_block_same {a : Nat} : (v.patch (n * 4096 + off) len src).disk.block n a =
      if off ≤ a ∧ a < off + len then src (a - off) else v.disk.block n a := by
  split
  · simp only [patch, disk, block_apply]
    rw [blit_inside (by omega) (by omega)]
    congr 1
    omega
  · simp only [patch, disk, block_apply]
    rw [blit_outside (by omega)]

theorem patch_frame (inside : off + len ≤ 4096) : Frame {n} v (v.patch (n * 4096 + off) len src) :=
  ⟨rfl, rfl, fun m (mNe : m ≠ n) a aLt => by
    simp only [patch, disk, block_apply]
    rw [blit_outside (by omega)]⟩

theorem patch_header_frame : Frame {n} v (v.patch (n * 4096) 512 src) := by
  rw [← Nat.add_zero (n * 4096)]
  exact patch_frame (by omega)

theorem infoOf_congr (h : ∀ a < 48, v'.disk.block root a = v.disk.block root a) :
    v'.infoOf root = v.infoOf root := InodeInfo.load_congr h

theorem rootPointer_congr (iLt : i < 448) (h : ∀ a, 512 ≤ a → a < 4096 → v'.disk.block root a = v.disk.block root a) :
    v'.rootPointer root i = v.rootPointer root i :=
  readLE_congr fun k kLt => h (512 + 8 * i + k) (by omega) (by omega)

theorem infoOf_patch_header {frame : Bytes} (h : info.Fits) :
    (v.patch (root * 4096) 512 (info.store frame)).infoOf root = info := by
  refine (InodeInfo.load_congr fun a aLt => ?_).trans (InodeInfo.load_store h frame)
  rw [← Nat.add_zero (root * 4096), patch_block_same, if_pos (by omega), Nat.sub_zero]

theorem infoOf_patch_area : (v.patch (root * 4096 + 512) 3584 buffer).infoOf root = v.infoOf root :=
  infoOf_congr fun a aLt => by rw [patch_block_same, if_neg (by omega)]

theorem area_patch_header {a : Nat} (aLe : 512 ≤ a) :
    (v.patch (root * 4096) 512 src).disk.block root a = v.disk.block root a := by
  rw [← Nat.add_zero (root * 4096), patch_block_same, if_neg (by omega)]

theorem rootPointer_patch_area (iLt : i < 448) :
    (v.patch (root * 4096 + 512) 3584 buffer).rootPointer root i = pointerAt buffer i := by
  refine readLE_congr fun k kLt => ?_
  rw [patch_block_same, if_pos (by omega)]
  exact congrArg buffer (by omega)

end Root

/-! ## Reading through pointers -/

section Pointers

variable {v : Rfs2} {pages : Nat} {ptrs : List Nat}

theorem readRun_run {p index size : Nat} {buffer : Bytes} (pagesLe : index + size ≤ pages)
    (inside : (p + size) * 8 ≤ v.partition.sizeSectors) : readRun pages p index size buffer v =
      some (buffer.blit (index * 4096) (size * 4096) (v.disk.block p), v) := by
  have read : partitionRead (p * blockSizeSectors) (size * blockSizeSectors) (buffer.shift (index * 4096)) v =
      some ((buffer.shift (index * 4096)).blit 0 (size * 4096) (v.disk.block p), v) := by
    refine partitionRead_eq_some.mpr ⟨?_, ?_, rfl⟩
    · simp only [blockSizeSectors]
      omega
    · simp [sectors_bytes, Bytes.block]
  have assert : (Prog.assert (decide (index + size ≤ pages)) : Prog Rfs2 Unit) v = some ((), v) := by
    simp only [assert_run, decide_eq_true pagesLe, if_true]
  rw [readRun, bind_of_eq_some assert, bind_of_eq_some read]
  have same : buffer.blit (index * 4096) (size * 4096)
      ((buffer.shift (index * 4096)).blit 0 (size * 4096) (v.disk.block p)) =
        buffer.blit (index * 4096) (size * 4096) (v.disk.block p) := by
    funext a
    by_cases aIn : index * 4096 ≤ a ∧ a < index * 4096 + size * 4096
    · rw [blit_inside aIn.1 aIn.2, blit_inside aIn.1 aIn.2, blit_inside (by omega) (by omega), Nat.sub_zero]
    · rw [blit_outside (by omega), blit_outside (by omega)]
  rw [same]
  rfl

def PageIs (v : Rfs2) (buffer : Bytes) (j p : Nat) : Prop :=
  ∀ y, y < 4096 → buffer (j * 4096 + y) = v.disk.block p y

theorem pageIs_blit {index size k : Nat} (buffer : Bytes) (p : Nat) (kLt : k < size) :
    PageIs v (buffer.blit (index * 4096) (size * 4096) (v.disk.block p)) (index + k) (p + k) := by
  intro y yLt
  have addr : (index + k) * 4096 + y - index * 4096 = k * 4096 + y := by omega
  rw [blit_inside (by omega) (by omega), addr, block_apply, block_apply]
  exact congrArg v.disk (by omega)

/-- What the loop of `read_locked_pointers` adds to the buffer from page `index` on. -/
structure ReadsFrom (v : Rfs2) (index p size : Nat) (ptrs : List Nat) (before after : Bytes) : Prop where
  before : ∀ a, a < index * 4096 → after a = before a
  run : ∀ k, k < size → PageIs v after (index + k) (p + k)
  rest : ∀ j q, ptrs[j]? = some q → PageIs v after (index + size + j) q

theorem readPointersFrom_run : ∀ (p index size : Nat) (buffer : Bytes),
    size = 1 ∨ size = 2 ∧ p + 1 ∉ ptrs → (p :: ptrs).Nodup → (∀ q ∈ ptrs, v.HasBlock q) →
    (p + size) * 8 ≤ v.partition.sizeSectors → index + size + ptrs.length ≤ pages →
    ∃ after, readPointersFrom pages ptrs p index size buffer v = some (after, v) ∧
      ReadsFrom v index p size ptrs buffer after := by
  induction ptrs with
  | nil =>
    intro p index size buffer _ _ _ run pagesLe
    refine ⟨_, readRun_run pagesLe run, ?_, fun k kLt => pageIs_blit buffer p kLt, ?_⟩
    · intro a aLt
      rw [blit_outside (by omega)]
    · intro j q qEq
      cases qEq
  | cons q ptrs ih =>
    intro p index size buffer sizeCases nodup inside run pagesLe
    have len : (q :: ptrs).length = ptrs.length + 1 := rfl
    rw [List.nodup_cons] at nodup
    have qEq : v.HasBlock q := inside q (.head _)
    have inside' : ∀ r ∈ ptrs, v.HasBlock r := fun r rMem => inside r (List.mem_cons_of_mem q rMem)
    simp only [HasBlock] at qEq
    by_cases next : q = p + 1
    · -- a run of two blocks is never extended: its second pointer does not come again
      cases sizeCases with
      | inr two => exact absurd (next ▸ .head _) two.2
      | inl one =>
        subst one
        have absent : q ∉ ptrs := (List.nodup_cons.mp nodup.2).1
        have nodup' : (p :: ptrs).Nodup := List.nodup_cons.mpr
          ⟨fun pMem => nodup.1 (List.mem_cons_of_mem q pMem), (List.nodup_cons.mp nodup.2).2⟩
        obtain ⟨after, afterEq, spec⟩ := ih p index 2 buffer
          (.inr ⟨rfl, next ▸ absent⟩) nodup' inside' (by omega) (by omega)
        refine ⟨after, ?_, spec.before, fun k kLt => spec.run k (by omega), ?_⟩
        · rw [readPointersFrom, if_pos next]
          exact afterEq
        intro j r rMem
        cases j with
        | zero =>
          cases rMem
          rw [next]
          exact spec.run 1 (by omega)
        | succ j =>
          rw [show index + 1 + (j + 1) = index + 2 + j by omega]
          exact spec.rest j r rMem
    · obtain ⟨after, afterEq, spec⟩ := ih q (index + size) 1
        (buffer.blit (index * 4096) (size * 4096) (v.disk.block p)) (.inl rfl) nodup.2 inside'
        (by omega) (by omega)
      refine ⟨after, ?_, ?_, ?_, ?_⟩
      · rw [readPointersFrom, if_neg next, bind_of_eq_some (readRun_run (by omega) run)]
        exact afterEq
      · intro a aLt
        have lt : a < (index + size) * 4096 := Nat.lt_of_lt_of_le aLt (Nat.mul_le_mul_right 4096 (Nat.le_add_right _ _))
        rw [spec.before a lt, blit_outside (.inl aLt)]
      · intro k kLt y yLt
        rw [spec.before _ (by omega)]
        exact pageIs_blit buffer p kLt y yLt
      intro j r rMem
      cases j with
      | zero =>
        cases rMem
        simpa using spec.run 0 (by omega)
      | succ j =>
        rw [show index + size + (j + 1) = index + size + 1 + j by omega]
        exact spec.rest j r rMem

theorem readLockedPointers_run (buffer : Bytes) (ne : ptrs ≠ []) (nodup : ptrs.Nodup)
    (inside : ∀ q ∈ ptrs, v.HasBlock q) (pagesLe : ptrs.length ≤ pages) :
    ∃ after, readLockedPointers ptrs pages buffer v = some (after, v) ∧
      ∀ j q, ptrs[j]? = some q → PageIs v after j q := by
  cases ptrs with
  | nil => exact absurd rfl ne
  | cons p ptrs =>
    have len : (p :: ptrs).length = ptrs.length + 1 := rfl
    have hasP : v.HasBlock p := inside p (.head _)
    simp only [HasBlock] at hasP
    obtain ⟨after, afterEq, spec⟩ := readPointersFrom_run p 0 1 buffer (.inl rfl) nodup
      (fun q qMem => inside q (List.mem_cons_of_mem p qMem)) (by omega) (show 0 + 1 + ptrs.length ≤ pages by omega)
    refine ⟨after, afterEq, ?_⟩
    intro j q qMem
    cases j with
    | zero =>
      cases qMem
      simpa using spec.run 0 (by omega)
    | succ j =>
      rw [show j + 1 = 0 + 1 + j by omega]
      exact spec.rest j q qMem

end Pointers

variable {range : Bytes} {first count : Nat}

theorem getElem?_pointerSlice {j q : Nat} :
    (pointerSlice range first count)[j]? = some q ↔ j < count ∧ q = pointerAt range (first + j) := by
  simp only [pointerSlice, List.getElem?_map, Option.map_eq_some_iff]
  by_cases jLt : j < count
  · simp [jLt, eq_comm]
  · simp [jLt]

theorem mem_pointerSlice {q : Nat} :
    q ∈ pointerSlice range first count ↔ ∃ j < count, q = pointerAt range (first + j) := by
  simp only [List.mem_iff_getElem?, getElem?_pointerSlice]

theorem nodup_pointerSlice
    (h : ∀ i j, first ≤ i → i < first + count → first ≤ j → j < first + count →
      pointerAt range i = pointerAt range j → i = j) : (pointerSlice range first count).Nodup := by
  refine List.Nodup.map_on ?_ List.nodup_range'
  intro i iMem j jMem eq
  rw [List.mem_range'_1] at iMem jMem
  exact h i j iMem.1 iMem.2 jMem.1 jMem.2 eq

/-! ## Reading a file -/

def rootArea (v : Rfs2) (root : Nat) : Bytes := (v.tick.frames 0).blit 0 3584 ((v.disk.block root).shift 512)

/-- What `read_locked` needs: a file of level 0 or 1 whose pointers in use are distinct and inside the
partition. -/
structure Readable (v : Rfs2) (root : Nat) : Prop where
  hasRoot : v.HasBlock root
  levels : (v.infoOf root).levels ≤ 1
  inline : (v.infoOf root).levels = 0 → (v.infoOf root).size ≤ 3584
  size : (v.infoOf root).levels = 1 → (v.infoOf root).size ≤ 448 * 4096
  inside : (v.infoOf root).levels = 1 → ∀ i, i * 4096 < (v.infoOf root).size → v.HasBlock (v.rootPointer root i)
  distinct : (v.infoOf root).levels = 1 → ∀ i j, i * 4096 < (v.infoOf root).size → j * 4096 < (v.infoOf root).size →
    v.rootPointer root i = v.rootPointer root j → i = j

section Read

variable {v : Rfs2} {root off m : Nat} {buffer : Pages}

theorem readLevels_run (range : Bytes) (buffer : Pages) {last : Nat} (lastLe : off ≤ last)
    (pages : last + 1 - off ≤ buffer.addresses.length) (inside : ∀ i, off ≤ i → i ≤ last → v.HasBlock (pointerAt range i))
    (distinct : ∀ i j, off ≤ i → i ≤ last → off ≤ j → j ≤ last → pointerAt range i = pointerAt range j → i = j) :
    ∃ data, readLevels buffer.addresses.length off last buffer.data 0 range 0 v = some (data, v) ∧
      ∀ j, off + j ≤ last → PageIs v data j (pointerAt range (off + j)) := by
  have ne : pointerSlice range off (last + 1 - off) ≠ [] := by
    intro nil
    have mem : pointerAt range (off + 0) ∈ pointerSlice range off (last + 1 - off) :=
      mem_pointerSlice.mpr ⟨0, by omega, rfl⟩
    rw [nil] at mem
    cases mem
  have len : (pointerSlice range off (last + 1 - off)).length = last + 1 - off := by
    simp [pointerSlice]
  obtain ⟨data, read, dataAll⟩ := readLockedPointers_run buffer.data ne
    (nodup_pointerSlice fun i j iLe iLt' jLe jLt' => distinct i j iLe (by omega) jLe (by omega))
    (fun q qMem => by
      obtain ⟨j, jLe, rfl⟩ := mem_pointerSlice.mp qMem
      exact inside _ (by omega) (by omega))
    (len.le.trans pages)
  refine ⟨data, ?_, fun j jLe => dataAll j _ (getElem?_pointerSlice.mpr ⟨by omega, rfl⟩)⟩
  simp only [readLevels, pow_zero, Nat.div_one, Nat.sub_zero]
  exact read

theorem rootArea_apply {k : Nat} (kLt : k < 3584) : v.rootArea root k = v.disk.block root (512 + k) :=
  blit_front kLt

theorem readLocked_front (hasRoot : v.HasBlock root) (mPos : 0 < m) (offLe : off * 4096 ≤ (v.infoOf root).size)
    (pages : (m + 4095) / 4096 ≤ buffer.addresses.length) :
    readLocked root off m buffer v = (if (v.infoOf root).levels = 0 then
      (pure (.ok (min (v.infoOf root).size m, buffer.data.blit 0 m (v.rootArea root))) :
        Prog Rfs2 (Except KernelErrorCode (Nat × Bytes)))
    else do
      let data ← readLevels buffer.addresses.length off
        (min (off + (m - 1) / 4096) (((v.infoOf root).size - 1) / 4096)) buffer.data ((v.infoOf root).levels - 1)
        (v.rootArea root) 0
      return .ok ((min (off + (m - 1) / 4096) (((v.infoOf root).size - 1) / 4096) + 1 - off) * 4096, data))
      v.tick.tick := by
  have frame : allocateFrame v.tick = some (v.tick.frames 0, v.tick.tick) := rfl
  have area : readRootArea root (v.tick.frames 0) v.tick.tick = some (v.rootArea root, v.tick.tick) :=
    readRootArea_run hasRoot
  rw [readLocked, if_neg (by omega), if_neg (by omega), bind_of_eq_some (getFileInfo_run hasRoot), if_neg (by omega),
    bind_of_eq_some frame, bind_of_eq_some area]

theorem readLocked_paged (h : v.Readable root) (one : (v.infoOf root).levels = 1) (mPos : 0 < m)
    (inside : (off + (m - 1) / 4096) * 4096 < (v.infoOf root).size)
    (pages : (m + 4095) / 4096 ≤ buffer.addresses.length) :
    ∃ r data v', readLocked root off m buffer v = some (.ok (r, data), v') ∧
      ∀ x < ((m - 1) / 4096 + 1) * 4096, data x = v.fileByte root (off * 4096 + x) := by
  have size := h.size one
  have minEq : min (off + (m - 1) / 4096) (((v.infoOf root).size - 1) / 4096) = off + (m - 1) / 4096 := by omega
  have run := readLocked_front h.hasRoot mPos (show off * 4096 ≤ _ by omega) pages
  rw [if_neg (by omega), minEq, one] at run
  have ptr : ∀ i, i ≤ off + (m - 1) / 4096 → i * 4096 < (v.infoOf root).size ∧
      pointerAt (v.rootArea root) i = v.rootPointer root i := fun i iLe =>
    have lt := Nat.lt_of_le_of_lt (Nat.mul_le_mul_right 4096 iLe) inside
    ⟨lt, pointerAt_rootArea (by omega)⟩
  obtain ⟨data, read, dataAll⟩ := readLevels_run (v := v.tick.tick) (v.rootArea root) buffer
    (show off ≤ off + (m - 1) / 4096 by omega) (by omega)
    (fun i _ iLe => by
      rw [(ptr i iLe).2]
      exact h.inside one i (ptr i iLe).1)
    (fun i j _ iLe _ jLe => by
      rw [(ptr i iLe).2, (ptr j jLe).2]
      exact h.distinct one i j (ptr i iLe).1 (ptr j jLe).1)
  refine ⟨_, data, _, run.trans (bind_of_eq_some read), fun x xLt => ?_⟩
  have block : (off * 4096 + x) / 4096 = off + x / 4096 := by omega
  have byte : (off * 4096 + x) % 4096 = x % 4096 := by omega
  have page := dataAll (x / 4096) (by omega) (x % 4096) (Nat.mod_lt _ (by omega))
  rw [(ptr _ (by omega)).2] at page
  rw [fileByte, if_neg (by omega), block, byte]
  exact (congrArg data (by omega)).trans page

theorem readLocked_readable (h : v.Readable root) (mPos : 0 < m) (inside : off * 4096 + m ≤ (v.infoOf root).size)
    (pages : (m + 4095) / 4096 ≤ buffer.addresses.length) :
    ∃ r data v', readLocked root off m buffer v = some (.ok (r, data), v') ∧
      ∀ k < m, data k = v.fileByte root (off * 4096 + k) := by
  by_cases level : (v.infoOf root).levels = 0
  · have size := h.inline level
    have run := readLocked_front h.hasRoot mPos (Nat.le_trans (Nat.le_add_right _ _) inside) pages
    rw [if_pos level] at run
    refine ⟨_, _, _, run, fun k kLt => ?_⟩
    rw [blit_front kLt, rootArea_apply (by omega), fileByte, if_pos level]
    exact congrArg _ (by omega)
  · have one : (v.infoOf root).levels = 1 := by
      have le := h.levels
      omega
    obtain ⟨r, data, v', run, dataAll⟩ := readLocked_paged h one mPos (show (off + _) * 4096 < _ by omega) pages
    exact ⟨r, data, v', run, fun k kLt => dataAll k (by omega)⟩

end Read

end MeowOs.Rfs2
