import MeowOs.Rfs2.Directory.Operations
import MeowOs.Rfs2.File.Truncation

/-! # Reading and writing the entries of a directory

The lemmas are about directories that are kept inline, those of at most thirteen
entries.  The files of the runs that are verified are never larger: a
directory does not grow behind its thirteenth entry.
-/

namespace MeowOs.Rfs2

open MeowOs.Machine Prog

def dirEntry (v : Rfs2) (root k : Nat) : DirEntry := entryAt (v.fileByte root) k

def dirLength (v : Rfs2) (root : Nat) : Nat := (v.infoOf root).size / dirEntrySize

/-! ## Entries in memory -/

/-- The numbers are in the range of their machine types. -/
structure DirEntry.Fits (entry : DirEntry) : Prop where
  inode : entry.inode < 256 ^ 4
  len : entry.len < 256 ^ 1

theorem DirEntry.load_fits (b : Bytes) : (DirEntry.load b).Fits :=
  ⟨Bytes.readLE_lt _ _ _, Bytes.readLE_lt _ _ _⟩

variable {b b' : Bytes} {entry : DirEntry} {name : List UInt8} {v v' : Rfs2} {i : Nat} {entries : List DirEntry}
  {r : Bool}

theorem DirEntry.load_congr (h : ∀ a < 256, b' a = b a) : DirEntry.load b' = DirEntry.load b := by
  have word : ∀ off w, off + w ≤ 256 → b'.readLE off w = b.readLE off w := fun off w inside =>
    Bytes.readLE_congr fun k kLt => h (off + k) (by omega)
  have name : (fun j : Fin 251 => b' (5 + j)) = fun j : Fin 251 => b (5 + j) :=
    funext fun j => h (5 + j) (by omega)
  simp [DirEntry.load, word 0 4 (by omega), word 4 1 (by omega), name]

theorem DirEntry.load_bytes (h : entry.Fits) : DirEntry.load entry.bytes = entry := by
  have word : ∀ off w, off + w ≤ 5 → entry.bytes.readLE off w =
      ((Bytes.zero.writeLE 0 4 entry.inode).writeLE 4 1 entry.len).readLE off w := fun off w inside =>
    Bytes.readLE_congr fun k kLt => Bytes.blit_outside (by omega)
  have nameAll : ∀ j : Fin 251, entry.bytes (5 + j) = entry.name[j] := by
    intro j
    rw [DirEntry.bytes, Bytes.blit_inside (by omega) (by omega), Nat.add_sub_cancel_left]
    simp
  cases entry with
  | mk inode len name =>
    have inodeEq := Nat.mod_eq_of_lt h.inode
    have lenEq := Nat.mod_eq_of_lt h.len
    simp only [DirEntry.load, word 0 4 (by omega), word 4 1 (by omega), Bytes.readLE_writeLE,
      Bytes.readLE_writeLE_disjoint (show 0 + 4 ≤ 4 ∨ 4 + 1 ≤ 0 by omega), nameAll, inodeEq, lenEq]
    exact congrArg _ (Vector.ext fun j jLt => by simp)

theorem entryAt_congr (h : ∀ a < 256, b' (256 * i + a) = b (256 * i + a)) :
    entryAt b' i = entryAt b i := DirEntry.load_congr h

theorem entryAt_storeEntries
    (entryEq : entries[i]? = some entry) (h : entry.Fits) : entryAt (storeEntries entries b) i = entry := by
  refine (DirEntry.load_congr fun a aLt => ?_).trans (DirEntry.load_bytes h)
  have div : (dirEntrySize * i + a) / dirEntrySize = i := by
    simp only [dirEntrySize]
    omega
  have mod : (dirEntrySize * i + a) % dirEntrySize = a := by
    simp only [dirEntrySize]
    omega
  simp [Bytes.shift_apply, storeEntries, div, entryEq, mod]

theorem DirEntry.setName_eq_some {entry' : DirEntry}
    (h : entry.setName name v = some (entry', v')) : v' = v ∧ entry'.inode = entry.inode ∧ entry'.len < 256 ^ 1 := by
  obtain ⟨-, ret⟩ := assert_bind_eq_some.mp h
  cases ret
  exact ⟨rfl, rfl, Nat.mod_lt _ (by norm_num)⟩

theorem DirEntry.isName_eq_some (h : entry.isName name v = some (r, v')) : v' = v := by
  rw [DirEntry.isName] at h
  split at h
  · cases h
    rfl
  · obtain ⟨-, ret⟩ := assert_bind_eq_some.mp h
    cases ret
    rfl

theorem nameTaken_eq_some (h : nameTaken name entries v = some (r, v')) : v' = v := by
  induction entries generalizing v with
  | nil =>
    cases h
    rfl
  | cons entry entries ih =>
    rw [nameTaken] at h
    split at h
    · exact ih h
    obtain ⟨taken, u, nameEq, rest⟩ := bind_eq_some.mp h
    have uEq := DirEntry.isName_eq_some nameEq
    subst uEq
    cases taken with
    | true =>
      cases rest
      rfl
    | false => exact ih rest

/-! ## Inline directories on disk -/

/-- The file with root block `root` is an inline directory of `n` entries.  The block of an empty one may
be cut short by the end of the partition. -/
structure InlineDir (v : Rfs2) (root n : Nat) : Prop where
  header : v.HasHeader root
  hasRoot : 0 < n → v.HasBlock root
  levels : (v.infoOf root).levels = 0
  size_eq : (v.infoOf root).size = n * dirEntrySize
  short : n ≤ 13

section Inline

variable {v v' : Rfs2} {root n m : Nat} {buffer : Pages}

theorem InlineDir.of_info (h : InlineDir v root n) (size : v'.partition.sizeSectors = v.partition.sizeSectors)
    (info : v'.infoOf root = v.infoOf root) : InlineDir v' root n := by
  refine ⟨?_, ?_, by rw [info]; exact h.levels, by rw [info]; exact h.size_eq, h.short⟩
  · simpa [HasHeader, size] using h.header
  · simpa [HasBlock, size] using h.hasRoot

theorem InlineDir.dirLength (h : InlineDir v root n) : v.dirLength root = n := by
  rw [Rfs2.dirLength, h.size_eq]
  exact Nat.mul_div_cancel n (by norm_num [dirEntrySize])

theorem InlineDir.fileByte (h : InlineDir v root n) (x : Nat) : v.fileByte root x = v.disk.block root (512 + x) := by
  rw [Rfs2.fileByte, if_pos h.levels]

theorem readLocked_entries (buffer : Pages) (h : InlineDir v root n) (pages : 1 ≤ buffer.addresses.length) :
    ∃ r data v', readLocked root 0 (v.infoOf root).size buffer v = some (.ok (r, data), v') ∧ SameVolume v v' ∧
      ∀ k < n, entryAt data k = v.dirEntry root k := by
  have size := h.size_eq
  have short := h.short
  simp only [dirEntrySize] at size
  by_cases zero : n = 0
  · refine ⟨0, buffer.data, v, ?_, ⟨rfl, rfl⟩, fun k kLt => absurd kLt (by omega)⟩
    rw [readLocked, if_pos (by omega)]
    rfl
  have run : readLocked root 0 (v.infoOf root).size buffer v = _ :=
    readLocked_front (h.hasRoot (by omega)) (by omega) (by simp) (by omega)
  rw [if_pos h.levels] at run
  refine ⟨_, _, _, run, ⟨rfl, rfl⟩, fun k kLt => entryAt_congr fun a aLt => ?_⟩
  rw [Bytes.blit_front (by omega), rootArea_apply (by omega), h.fileByte]

structure ReadsEntries (v : Rfs2) (root n : Nat) (buffer : Pages) (entries : List DirEntry) (v' : Rfs2) : Prop where
  same : SameVolume v v'
  pages : buffer.addresses.length = 1
  length : entries.length = n + 1
  entry : ∀ k, k < n → entries[k]? = some (v.dirEntry root k)
  spare : ∃ last, entries.getLast? = some last ∧ last.inode = 0

theorem readDirentries_run (h : InlineDir v root n) : ∃ buffer entries v',
    readDirentries root v = some ((buffer, entries), v') ∧ ReadsEntries v root n buffer entries v' := by
  have size := h.size_eq
  have short := h.short
  have assert : (Prog.assert (decide ((v.infoOf root).size + dirEntrySize < 2 ^ 64)) : Prog Rfs2 Unit) v.tick =
      some ((), v.tick) := by
    rw [assert_run, if_pos]
    simp only [dirEntrySize] at size ⊢
    exact decide_eq_true (by omega)
  have pages : ((v.infoOf root).size + dirEntrySize + 4095) / 4096 % 2 ^ 32 = 1 := by
    simp only [dirEntrySize] at size ⊢
    omega
  have buf : allocateContiguous 1 v.tick = some (⟨[0], v.tick.frames 0⟩, v.tick.tick) := rfl
  have tick : InlineDir v.tick.tick root n := h.of_info rfl rfl
  obtain ⟨r, data, w, read, same, entry⟩ := readLocked_entries ⟨[0], v.tick.frames 0⟩ tick (Nat.le_refl 1)
  refine ⟨⟨[0], data⟩, (List.range n).map (entryAt data) ++ [spareEntry data n], w, ?_, same, rfl, by simp, ?_,
    ⟨spareEntry data n, List.getLast?_concat, rfl⟩⟩
  · rw [readDirentries, bind_of_eq_some (getFileInfo_header h.header), bind_of_eq_some assert]
    simp only [pages]
    refine (bind_of_eq_some buf).trans ((bind_of_eq_some read).trans ?_)
    have count : (v.infoOf root).size / dirEntrySize = n := h.dirLength
    simp only [count]
    rfl
  · intro k kLt
    rw [List.getElem?_append_left (by simpa using kLt), List.getElem?_map, List.getElem?_range kLt, Option.map_some,
      entry k kLt]
    rfl

structure WritesEntries (v : Rfs2) (root n : Nat) (data : Bytes) (v' : Rfs2) : Prop where
  frame : Frame {root} v v'
  info : v'.infoOf root = { v.infoOf root with size := n * dirEntrySize }
  entry : ∀ k, k < n → v'.dirEntry root k = entryAt data k

theorem writeDirentries_some (buffer : Pages) (h : InlineDir v root m) (block : v.HasBlock root) (nPos : 0 < n) (short : n ≤ 13)
    (pages : buffer.addresses.length = 1) :
    ∃ v', writeDirentries root buffer n v = some ((), v') ∧ WritesEntries v root n buffer.data v' := by
  have size : n * dirEntrySize < 3584 := by
    simp only [dirEntrySize]
    omega
  have pos : 0 < n * dirEntrySize := Nat.mul_pos nPos (by norm_num [dirEntrySize])
  have write := writeLocked_inline_run block h.levels pos size pages.ge
  have info : (v.withSize root (n * dirEntrySize)).infoOf root = _ := infoOf_withSize h.levels size
  obtain ⟨w, wEq⟩ : ∃ w, w = (v.withSize root (n * dirEntrySize)).tick.tick.patch (root * 4096 + 512) 3584 buffer.data :=
    ⟨_, rfl⟩
  rw [← wEq] at write
  have frame : Frame {root} v w := by
    rw [wEq]
    exact (patch_header_frame).of_tick.of_tick.trans
      (patch_frame (v := (v.withSize root (n * dirEntrySize)).tick.tick) (by omega)).of_tick.of_tick
  have info' : w.infoOf root = { v.infoOf root with size := n * dirEntrySize } := by
    rw [wEq, infoOf_patch_area, ← info]
    rfl
  have rootW : w.HasBlock root := by simpa only [HasBlock, frame.size] using block
  have truncate := truncateLocked_keep rootW.hasHeader (by rw [info'])
  refine ⟨w.tick, ?_, ⟨frame.superblock, frame.size, frame.same⟩, info', ?_⟩
  · rw [writeDirentries]
    exact (bind_of_eq_some write).trans truncate
  intro k kLt
  refine entryAt_congr fun a aLt => ?_
  have zero : (w.tick.infoOf root).levels = 0 := by
    refine (congrArg InodeInfo.levels info').trans h.levels
  rw [fileByte, if_pos zero]
  change w.disk.block root (512 + (256 * k + a)) = _
  rw [wEq, patch_block_same, if_pos (by omega)]
  exact congrArg buffer.data (by omega)

theorem writeDirentries_hasBlock (h : InlineDir v root m) (nPos : 0 < n) (short : n ≤ 13)
    (run : writeDirentries root buffer n v = some ((), v')) : v.HasBlock root := by
  have size : n * dirEntrySize < 3584 := by
    simp only [dirEntrySize]
    omega
  have pos : ¬ n * dirEntrySize = 0 := by
    simp only [dirEntrySize]
    omega
  obtain ⟨res, w, locked, run1⟩ := bind_eq_some.mp run
  rw [writeLocked, if_neg pos] at locked
  by_cases pages : (n * dirEntrySize + 4095) / 4096 > buffer.addresses.length
  · rw [if_pos pages] at locked
    cases locked
    cases run1
  have header : (v.withSize root (n * dirEntrySize)).HasHeader root := h.header
  rw [if_neg pages, bind_of_eq_some (increaseFileSize_inline_run h.header size),
    bind_of_eq_some (getFileInfo_header header)] at locked
  obtain ⟨_, _, frame, _, _, area, -⟩ := bind₂_eq_some.mp locked
  cases frame
  exact (readRootArea_eq_some.mp area).1

theorem writeDirentries_none (h : InlineDir v root 0) :
    ∃ v', writeDirentries root buffer 0 v = some ((), v') ∧ WritesEntries v root 0 buffer.data v' := by
  have size : (v.infoOf root).size = 0 := h.size_eq
  have write : writeLocked root 0 (0 * dirEntrySize) buffer v = some (.ok 0, v) := by
    rfl
  have truncate := truncateLocked_keep (n := 0 * dirEntrySize) h.header (by rw [size]; omega)
  refine ⟨v.tick, ?_, Frame.of_tick (Frame.refl _ _), ?_, nofun⟩
  · rw [writeDirentries]
    exact (bind_of_eq_some write).trans truncate
  · change v.infoOf root = _
    rw [Nat.zero_mul, ← size]

end Inline

section Keep

variable {v v' : Rfs2} {root n k : Nat}

theorem InlineDir.dirEntry_congr (h : InlineDir v root n) (levels : (v'.infoOf root).levels = 0) (kLt : k < n)
    (same : ∀ a, 512 ≤ a → a < 4096 → v'.disk.block root a = v.disk.block root a) :
    v'.dirEntry root k = v.dirEntry root k := by
  have short := h.short
  refine entryAt_congr fun a aLt => ?_
  rw [h.fileByte, Rfs2.fileByte, if_pos levels]
  exact same _ (by omega) (by omega)

theorem infoOf_of_same (same : Bytes.SameBlock v.disk v'.disk root) : v'.infoOf root = v.infoOf root :=
  infoOf_congr fun a aLt => same a (by omega)

theorem InlineDir.dirEntry_of_same (h : InlineDir v root n) (same : Bytes.SameBlock v.disk v'.disk root)
    (kLt : k < n) : v'.dirEntry root k = v.dirEntry root k :=
  h.dirEntry_congr (by rw [infoOf_of_same same]; exact h.levels) kLt fun a _ aLt => same a aLt

theorem InlineDir.setHeader (info : InodeInfo) (frame : Bytes) (h : InlineDir v root n) (fits : info.Fits)
    (levels : info.levels = 0) (size : info.size = n * dirEntrySize)
    (vEq' : v' = v.patch (root * 4096) 512 (info.store frame)) :
    v'.infoOf root = info ∧ InlineDir v' root n ∧ ∀ k < n, v'.dirEntry root k = v.dirEntry root k := by
  have infoEq : v'.infoOf root = info := by rw [vEq', infoOf_patch_header fits]
  have levels' : (v'.infoOf root).levels = 0 := by rw [infoEq, levels]
  refine ⟨infoEq, ⟨?_, ?_, levels', by rw [infoEq, size], h.short⟩, fun k kLt => h.dirEntry_congr levels' kLt ?_⟩
  · rw [vEq']
    exact h.header
  · rw [vEq']
    exact h.hasRoot
  · intro a aLe _
    rw [vEq', area_patch_header aLe]

end Keep

/-! ## What the operations do to the entries -/

section Operations

variable {v v' : Rfs2} {name : List UInt8} {n m child childRoot parent parentRoot : Nat}

/-- A new entry at the end of the directory, and one more link in the header of the child. -/
structure Links (v : Rfs2) (child childRoot parentRoot n : Nat) (v' : Rfs2) : Prop where
  inside : v.HasBlock parentRoot
  frame : Frame {parentRoot, childRoot} v v'
  info : ∀ root, root = parentRoot ∨ root = childRoot → v'.infoOf root = { v.infoOf root with
    size := if root = parentRoot then (n + 1) * dirEntrySize else (v.infoOf root).size
    linkCount := (v.infoOf root).linkCount + if root = childRoot then 1 else 0 }
  old : ∀ k, k < n → v'.dirEntry parentRoot k = v.dirEntry parentRoot k
  new : (v'.dirEntry parentRoot n).inode = child
  other : childRoot ≠ parentRoot → ∀ k, k < v.dirLength childRoot → v'.dirEntry childRoot k = v.dirEntry childRoot k

variable {root : Nat} {u w : Rfs2}

theorem SameVolume.inlineDir (h : SameVolume v u) (dir : InlineDir v root n) : InlineDir u root n :=
  dir.of_info (by rw [h.1]) (h.infoOf root)

theorem SameVolume.frame {S : Set Nat} (h : SameVolume v u) (frame : Frame S u v') : Frame S v v' := by
  obtain ⟨partition, superblock⟩ := h
  refine ⟨frame.superblock.trans superblock, frame.size.trans (by rw [partition]), fun c cNotMem => ?_⟩
  have same := frame.same c cNotMem
  rwa [disk, partition] at same

theorem getElem?_filled {entries : List DirEntry} (last : DirEntry) (length : entries.length = n + 1) :
    (entries.dropLast ++ [last]).length = n + 1 ∧ (entries.dropLast ++ [last])[n]? = some last ∧
      ∀ k < n, (entries.dropLast ++ [last])[k]? = entries[k]? := by
  have drop : entries.dropLast.length = n := by rw [List.length_dropLast, length, Nat.add_sub_cancel]
  refine ⟨?_, ?_, fun k kLt => ?_⟩
  · rw [List.length_append, drop, List.length_singleton]
  · rw [List.getElem?_append_right drop.le, drop, Nat.sub_self]
    rfl
  · rw [List.getElem?_append_left (by omega), List.getElem?_dropLast, if_pos (by omega)]

theorem WritesEntries.inlineDir {data : Bytes} (h : WritesEntries v root n data v')
    (dir : InlineDir v root m) (block : 0 < n → v.HasBlock root) (short : n ≤ 13) : InlineDir v' root n := by
  refine ⟨?_, ?_, by rw [h.info]; exact dir.levels, by rw [h.info], short⟩
  · simpa [HasHeader, h.frame.size] using dir.header
  · simpa [HasBlock, h.frame.size] using block

theorem countLink_eq_some {res : Except KernelErrorCode (VfsInode × VfsInode)}
    (childOk : InlineDir w childRoot m) (parentOk : w.HasHeader parentRoot)
    (run : countLink child childRoot parent parentRoot w = some (res, v')) : Frame {childRoot} w v' ∧
    v'.infoOf childRoot = { w.infoOf childRoot with linkCount := (w.infoOf childRoot).linkCount + 1 } ∧
      ∀ k < m, v'.dirEntry childRoot k = w.dirEntry childRoot k := by
  rw [countLink, bind_of_eq_some (getFileInfo_header childOk.header)] at run
  obtain ⟨limit, run1⟩ := assert_bind_eq_some.mp run
  rw [bind_of_eq_some (setFileInfo_header (v := w.tick) childOk.header)] at run1
  have parent' : (w.tick.tick.patch (childRoot * 4096) 512 (InodeInfo.store { w.infoOf childRoot with
      linkCount := (w.infoOf childRoot).linkCount + 1 } (w.tick.frames 0))).HasHeader parentRoot := parentOk
  rw [bind_of_eq_some (getFileInfo_header parent')] at run1
  cases run1
  have fits := infoOf_fits w childRoot
  have dir : InlineDir w.tick.tick.tick childRoot m := childOk.of_info rfl rfl
  obtain ⟨info, -, entry⟩ := InlineDir.setHeader { w.infoOf childRoot with
      linkCount := (w.infoOf childRoot).linkCount + 1 } (w.tick.frames 0) dir
    ⟨fits.size, fits.levels, fits.typeFlags, fits.ownerUid, fits.ownerGid, by norm_num at limit ⊢; exact limit,
      fits.creation, fits.modification, fits.statChange⟩ childOk.levels childOk.size_eq rfl
  exact ⟨(patch_header_frame).of_tick.of_tick.of_tick, info, entry⟩

theorem linkAt_links {res : VfsInode × VfsInode} (parentOk : InlineDir v parentRoot n) (room : n ≤ 12)
    (childOk : InlineDir v childRoot m) (range : child < 256 ^ 4)
    (run : linkAt child childRoot parent parentRoot name v = some (.ok res, v')) :
    Links v child childRoot parentRoot n v' := by
  obtain ⟨buffer, entries, _, read, spec⟩ := readDirentries_run parentOk
  rw [linkAt, bind_of_eq_some read] at run
  obtain ⟨taken, _, takenEq, run1⟩ := bind_eq_some.mp run
  cases nameTaken_eq_some takenEq
  cases taken with
  | true => cases run1
  | false =>
    obtain ⟨spare, _, spareEq, run2⟩ := bind_eq_some.mp run1
    obtain ⟨-, rfl⟩ := ofOption_eq_some.mp spareEq
    obtain ⟨last, u, nameEq, run3⟩ := bind_eq_some.mp run2
    obtain ⟨rfl, inode, len⟩ := DirEntry.setName_eq_some nameEq
    obtain ⟨length, lastEq, others⟩ := getElem?_filled last spec.length
    have parentU := spec.same.inlineDir parentOk
    have block : u.HasBlock parentRoot := by
      obtain ⟨⟨⟩, _, returns, -⟩ := bind_eq_some.mp run3
      rw [length] at returns
      exact writeDirentries_hasBlock parentU (Nat.succ_pos n) (Nat.succ_le_succ room) returns
    obtain ⟨w, write, written⟩ := writeDirentries_some (buffer.withEntries (entries.dropLast ++ [last]))
      parentU block (Nat.succ_pos n) (Nat.succ_le_succ room) spec.pages
    have parentW := written.inlineDir parentU (fun _ => block) (Nat.succ_le_succ room)
    rw [length, bind_of_eq_some write] at run3
    have old : ∀ k < n, w.dirEntry parentRoot k = v.dirEntry parentRoot k := fun k kLt => by
      have kEq' := (others k kLt).trans (spec.entry k kLt)
      rw [written.entry k (by omega)]
      exact entryAt_storeEntries kEq' (DirEntry.load_fits _)
    have new : (w.dirEntry parentRoot n).inode = child := by
      have fits : last.Fits := ⟨by rw [inode]; exact range, len⟩
      have entry : entryAt (storeEntries (entries.dropLast ++ [last]) buffer.data) n = last :=
        entryAt_storeEntries lastEq fits
      rw [written.entry n (Nat.lt_succ_self n)]
      exact (congrArg DirEntry.inode entry).trans inode
    have inside : v.HasBlock parentRoot := by simpa only [HasBlock, spec.same.1] using block
    have frame : Frame {parentRoot} v w := spec.same.frame written.frame
    have info : w.infoOf parentRoot = { v.infoOf parentRoot with size := (n + 1) * dirEntrySize } := by
      rw [written.info, spec.same.infoOf]
    by_cases same : childRoot = parentRoot
    · subst same
      obtain ⟨childFrame, childInfo, childEntry⟩ := countLink_eq_some parentW parentW.header run3
      refine ⟨inside, (frame.trans childFrame).mono (by simp), fun root rootCases => ?_, fun k kLt => ?_, ?_, fun ne => absurd rfl ne⟩
      · have root' : root = childRoot := by omega
        subst root'
        rw [childInfo, info, if_pos rfl, if_pos rfl]
      · rw [childEntry k (by omega), old k kLt]
      · rw [childEntry n (Nat.lt_succ_self n), new]
    · have keep : Bytes.SameBlock v.disk w.disk childRoot := frame.same _ same
      obtain ⟨childFrame, childInfo, childEntry⟩ := countLink_eq_some (childOk.of_info frame.size (infoOf_of_same keep)) parentW.header run3
      have parentKept : Bytes.SameBlock w.disk v'.disk parentRoot := childFrame.same _ (Ne.symm same)
      refine ⟨inside, (frame.mono (by simp)).trans (childFrame.mono (by simp)), fun root rootCases => ?_, fun k kLt => ?_, ?_,
        fun _ k kLt => ?_⟩
      · cases rootCases with
        | inl eq =>
          subst eq
          rw [infoOf_of_same parentKept, info, if_pos rfl, if_neg (Ne.symm same)]
          rfl
        | inr eq =>
          subst eq
          rw [childInfo, infoOf_of_same keep, if_neg same, if_pos rfl]
      · rw [parentW.dirEntry_of_same parentKept (by omega), old k kLt]
      · rw [parentW.dirEntry_of_same parentKept (Nat.lt_succ_self n), new]
      · rw [childOk.dirLength] at kLt
        rw [childEntry k kLt, childOk.dirEntry_of_same keep kLt]

structure Renames (v : Rfs2) (root n : Nat) (v' : Rfs2) : Prop where
  frame : Frame {root} v v'
  info : v'.infoOf root = v.infoOf root
  entry : ∀ k, k < n → (v'.dirEntry root k).inode = (v.dirEntry root k).inode

theorem writeDirentries_run (buffer : Pages) (h : InlineDir v root n) (pages : buffer.addresses.length = 1) :
    ∃ v', writeDirentries root buffer n v = some ((), v') ∧ WritesEntries v root n buffer.data v' := by
  cases n with
  | zero => exact writeDirentries_none h
  | succ n => exact writeDirentries_some buffer h (h.hasRoot (Nat.succ_pos n)) (Nat.succ_pos n) h.short pages

theorem rename_renames {inode : Nat} (dir : InlineDir v root n)
    (run : rename inode root name v = some (.ok (), v')) : Renames v root n v' := by
  obtain ⟨buffer, entries, u, read, spec⟩ := readDirentries_run dir
  rw [rename] at run
  split at run
  · cases run
  rw [bind_of_eq_some read] at run
  cases find : entries.findIdx? (·.inode == inode % 2 ^ 32) with
  | none =>
    simp only [find] at run
    cases run
  | some pos =>
    simp only [find] at run
    obtain ⟨entry, _, entryEq, run1⟩ := bind_eq_some.mp run
    obtain ⟨posEq, rfl⟩ := ofOption_eq_some.mp entryEq
    obtain ⟨entry', _, nameEq, run2⟩ := bind_eq_some.mp run1
    obtain ⟨rfl, inodeEq, len⟩ := DirEntry.setName_eq_some nameEq
    have dirU := spec.same.inlineDir dir
    obtain ⟨w, write, written⟩ := writeDirentries_run (buffer.withEntries (entries.set pos entry')) dirU spec.pages
    have length : (entries.set pos entry').length - 1 = n := by
      rw [List.length_set, spec.length, Nat.add_sub_cancel]
    rw [length, bind_of_eq_some write] at run2
    cases run2
    refine ⟨spec.same.frame written.frame, ?_, fun k kLt => ?_⟩
    · rw [written.info, spec.same.infoOf, ← dir.size_eq]
    have old := spec.entry k kLt
    rw [written.entry k kLt]
    by_cases same : k = pos
    · subst same
      rw [old] at posEq
      cases posEq
      have isSet : (entries.set k entry')[k]? = some entry' := by
        rw [List.getElem?_set_self (by rw [spec.length]; omega)]
      have fits : entry'.Fits := ⟨by rw [inodeEq]; exact (DirEntry.load_fits _).inode, len⟩
      exact (congrArg DirEntry.inode (entryAt_storeEntries isSet fits)).trans inodeEq
    · have isSet : (entries.set pos entry')[k]? = some (v.dirEntry root k) := by
        rw [List.getElem?_set_ne (Ne.symm same), old]
      exact congrArg DirEntry.inode (entryAt_storeEntries isSet (DirEntry.load_fits _))

end Operations

end MeowOs.Rfs2
