import MeowOs.Rfs2.File.ReadAfterWrite

/-! # Truncating a file

`truncate_locked` does what it should only if there is nothing to do below the
header.  A size in the last block is not stored at all.  A file that would lose a
level, or that has more than one, makes `decrease_file_depth` or
`decrease_file_size_recursively` drop a working block.  On level 1 the pointer
loop stops at the last block that is still needed, and releases that one too.
-/

namespace MeowOs.Rfs2

open MeowOs.Machine Prog

/-! ## Files of any level -/

def pathBelow (disk : Bytes) : Nat → Nat → Nat → List Nat
  | 0, ptr, _ => [ptr]
  | level + 1, ptr, k => ptr :: pathBelow disk level (pointerAt (disk.block ptr) (k / ptrsPerBlock ^ level))
      (k % ptrsPerBlock ^ level)

/-- The pointer blocks and the data block of block `k` of a file; an inline file has none. -/
def pathTo (v : Rfs2) (root k : Nat) : List Nat :=
  match (v.infoOf root).levels with
  | 0 => []
  | level + 1 => pathBelow v.disk level (v.rootPointer root (k / ptrsPerBlock ^ level)) (k % ptrsPerBlock ^ level)

def byteAt (v : Rfs2) (root x : Nat) : UInt8 :=
  match (v.pathTo root (x / 4096)).getLast? with
  | none => v.disk.block root (512 + x)
  | some block => v.disk.block block (x % 4096)

def blocksOf (v : Rfs2) (root n : Nat) : Set Nat := {b | ∃ k, k * 4096 < n ∧ b ∈ v.pathTo root k}

/-- A file whose blocks have their pointers.  The one of the last block may be missing, as it is in a file that was
inline and has grown. -/
structure IsFile (v : Rfs2) (root : Nat) : Prop where
  hasRoot : v.HasBlock root
  notBitmap : ¬ IsGroupBitmap root
  -- `current_levels as i8`
  small : (v.infoOf root).levels < 128
  inline : (v.infoOf root).levels = 0 → (v.infoOf root).size ≤ 3584
  stored : ∀ level, (v.infoOf root).levels = level + 1 →
    0 < (v.infoOf root).size ∧ (v.infoOf root).size ≤ 448 * ptrsPerBlock ^ level * 4096
  pointed : ∀ k, (k + 1) * 4096 < (v.infoOf root).size → 0 ∉ v.pathTo root k

/-- What a truncation to `n` bytes should leave: the file with `n` bytes, the first ones of before, no pointer to them is
lost, and of the blocks in use those that it does not need any more are released. -/
structure TruncatedTo (v : Rfs2) (root n : Nat) (v' : Rfs2) : Prop where
  file : v'.IsFile root
  size : (v'.infoOf root).size = n
  bytes : ∀ x, x < n → v'.byteAt root x = v.byteAt root x
  pointers : 0 ∉ v.blocksOf root n → 0 ∉ v'.blocksOf root n
  released : ∀ b, v'.marked b = true ↔
    v.marked b = true ∧ (b ∈ v.blocksOf root (v.infoOf root).size → b ∈ v'.blocksOf root n)

section Truncate

variable {v v' : Rfs2} {root n level ptrBlocks toKeep i j : Nat} {block block' : Bytes}

theorem zero_mem_pathTo {k : Nat} (kEq : i * ptrsPerBlock ^ level = k) (levelEq : (v.infoOf root).levels = level + 1)
    (zero : v.rootPointer root i = 0) : 0 ∈ v.pathTo root k := by
  have pos : 0 < ptrsPerBlock ^ level := Nat.pow_pos (by decide)
  simp only [pathTo, levelEq, ← kEq, Nat.mul_div_cancel _ pos, zero]
  cases level <;> simp [pathBelow]

theorem IsFile.pointed_of_less (h : v.IsFile root) (less : (n + 4095) / 4096 < ((v.infoOf root).size + 4095) / 4096) :
    0 ∉ v.blocksOf root n := by
  rintro ⟨k, kLt, path⟩
  replace kLt : k < (n + 4095) / 4096 := by omega
  exact h.pointed k (by omega) path

/-! ## What goes wrong -/

theorem truncateLocked_keep (h : v.HasHeader root) (keep : ((v.infoOf root).size + 4095) / 4096 ≤ (n + 4095) / 4096) :
    truncateLocked root n v = some ((), v.tick) := by
  have cond : (n + 4095) / 4096 ≥ ((v.infoOf root).size + 4095) / 4096 := keep
  rw [truncateLocked, bind_of_eq_some (getFileInfo_header h)]
  simp only [if_pos cond]
  rfl

theorem decreaseFileDepth_none {k : Int} (kPos : 0 < k) : decreaseFileDepth root k v = none := by
  cases run : decreaseFileDepth root k v with
  | none => rfl
  | some r =>
    rw [decreaseFileDepth, if_neg (by omega)] at run
    simp only [bind_eq_some] at run
    obtain ⟨_, _, -, _, _, -, _, _, -, _, _, -, drop⟩ := run
    cases drop

theorem decreaseFileSizeRecursively_none (ptr keep : Nat) :
    decreaseFileSizeRecursively (level + 1) ptr keep v = none := by
  cases run : decreaseFileSizeRecursively (level + 1) ptr keep v with
  | none => rfl
  | some r =>
    simp only [decreaseFileSizeRecursively, bind_eq_some] at run
    obtain ⟨_, _, -, _, _, -, _, _, -, _, _, -, drop⟩ := run
    cases drop

/-- The pointer loop goes on to the pointer with the last block to keep, and releases from there on. -/
theorem shrinkPointers_eq (shrink : Nat → Nat → Prog Rfs2 Unit) (low : i * ptrBlocks < toKeep)
    (high : toKeep ≤ (i + n) * ptrBlocks) (ptr : ∀ j, j * ptrBlocks < toKeep → pointerAt block j ≠ 0) :
    ∃ j left, j * ptrBlocks < toKeep ∧ toKeep ≤ (j + 1) * ptrBlocks ∧
      shrinkPointers shrink ptrBlocks toKeep n i (i * ptrBlocks) block = (do
        shrink (pointerAt block j) (toKeep - j * ptrBlocks)
        releasePointers (left + 1) j block) := by
  induction n generalizing i with
  | zero =>
    rw [Nat.add_zero] at high
    omega
  | succ n ih =>
    have next : i * ptrBlocks + ptrBlocks = (i + 1) * ptrBlocks := (Nat.succ_mul i ptrBlocks).symm
    rw [shrinkPointers, if_neg (ptr i low), next]
    by_cases more : (i + 1) * ptrBlocks < toKeep
    · rw [if_pos more]
      exact ih more (by rwa [Nat.add_right_comm])
    · refine ⟨i, n, low, Nat.not_lt.mp more, ?_⟩
      rw [if_neg more]
      simp only [if_pos (Nat.not_lt.mp more)]

theorem releasePointers_spec (run : releasePointers n j block v = some (block', v')) :
    (∀ i < j, pointerAt block' i = pointerAt block i) ∧ (0 < n → pointerAt block' j = 0) := by
  induction n generalizing j block v with
  | zero =>
    cases run
    exact ⟨fun _ _ => rfl, fun nPos => absurd nPos (Nat.lt_irrefl 0)⟩
  | succ n ih =>
    rw [releasePointers] at run
    split at run
    next zero =>
      cases run
      exact ⟨fun _ _ => rfl, fun _ => zero⟩
    next =>
    obtain ⟨⟨⟩, u, -, rest⟩ := bind_eq_some.mp run
    obtain ⟨kept, -⟩ := ih rest
    refine ⟨fun i iLt => ?_, fun _ => ?_⟩
    · rw [kept i (by omega), pointerAt_set_other (by omega)]
    · rw [kept j (by omega), pointerAt_set_same (by decide)]

/-! ## The law -/

theorem TruncatedTo.of_keep (h : v.IsFile root) : TruncatedTo v root (v.infoOf root).size v.tick :=
  ⟨⟨h.hasRoot, h.notBitmap, h.small, h.inline, h.stored, h.pointed⟩, rfl, fun _ _ => rfl, id,
    fun _ => ⟨fun bEq => ⟨bEq, id⟩, (·.1)⟩⟩

theorem blocksOf_inline (level : (v.infoOf root).levels = 0) : v.blocksOf root n = ∅ := by
  simp [blocksOf, pathTo, level]

theorem TruncatedTo.of_inline (h : v.IsFile root) (level : (v.infoOf root).levels = 0) :
    TruncatedTo v root 0 (v.withSize root 0) := by
  have info : (v.withSize root 0).infoOf root = _ := infoOf_withSize level (by norm_num)
  have level' : ((v.withSize root 0).infoOf root).levels = 0 := by rw [info, level]
  have size : ((v.withSize root 0).infoOf root).size = 0 := by rw [info]
  refine ⟨⟨h.hasRoot, h.notBitmap, by omega, by omega, by omega, by omega⟩, size, nofun, fun _ => ?_, fun b => ?_⟩
  · simp [blocksOf_inline level']
  · have same : (v.withSize root 0).marked b = v.marked b :=
      marked_congr (patch_header_frame.same _ fun bMem => h.notBitmap (bMem ▸ Nat.mul_mod_left _ _))
    simp [same, blocksOf_inline level]

theorem truncateLocked_empty (h : v.IsFile root) (level : (v.infoOf root).levels = 0)
    (size : (v.infoOf root).size ≠ 0) : truncateLocked root 0 v = some ((), v.withSize root 0) := by
  have less : ¬ (0 + 4095) / 4096 ≥ ((v.infoOf root).size + 4095) / 4096 := by omega
  have info : ({ v.infoOf root with size := 0, levels := 0 } : InodeInfo) = { v.infoOf root with size := 0 } := by
    rw [← level]
  have depth : decreaseFileDepth root ((0 : Nat) - (0 : Nat)) v.tick = some ((), v.tick) := by
    rfl
  rw [truncateLocked, bind_of_eq_some (getFileInfo_run h.hasRoot)]
  simp only [if_neg less, level, if_pos (Nat.zero_le _), Nat.min_self, if_true]
  refine (bind_of_eq_some depth).trans ?_
  rw [info, bind_of_eq_some (setFileInfo_run (v := v.tick) h.hasRoot)]
  rfl

/-- A truncation of a file with blocks that returns keeps the level: `area` are the pointers before the
loop over them, and `data` those that the file has in the end. -/
theorem truncateLocked_cut (h : v.IsFile root) (levelEq : (v.infoOf root).levels = level + 1)
    (less : (n + 4095) / 4096 < ((v.infoOf root).size + 4095) / 4096)
    (run : truncateLocked root n v = some ((), v')) :
    0 < n ∧ (v'.infoOf root).levels = level + 1 ∧ ∃ area data u u',
      shrinkPointers (decreaseFileSizeRecursively level) (ptrsPerBlock ^ level) ((n + 4095) / 4096) ptrsPerBlock 0 0
        area u = some (data, u') ∧
      ∀ j < 448, pointerAt area j = v.rootPointer root j ∧ v'.rootPointer root j = pointerAt data j := by
  rw [truncateLocked, bind_of_eq_some (getFileInfo_run h.hasRoot)] at run
  simp only [if_neg (Nat.not_le.mpr less), levelEq] at run
  obtain ⟨⟨⟩, u, depth, run1⟩ := bind_eq_some.mp run
  have deep : level + 1 ≤ if n ≤ (blockSizeSectors - 1) * 512 then 0 else neededLevels ((n + 4095) / 4096) 1 := by
    by_contra shallow
    rw [decreaseFileDepth_none (by omega)] at depth
    cases depth
  have large : ¬ n ≤ 3584 := fun (small : n ≤ (blockSizeSectors - 1) * 512) => by
    rw [if_pos small] at deep
    omega
  rw [decreaseFileDepth, if_pos (by omega)] at depth
  cases depth
  rw [Nat.min_eq_left deep, if_neg (Nat.succ_ne_zero level)] at run1
  obtain ⟨w, _, new, run2⟩ := bind_eq_some.mp run1
  cases new
  obtain ⟨area, _, areaEq, run3⟩ := bind_eq_some.mp run2
  obtain ⟨-, dataEq, rfl⟩ := readRootArea_eq_some.mp areaEq
  obtain ⟨data, u, shrink, run4⟩ := bind_eq_some.mp run3
  obtain ⟨⟨⟩, _, write, run5⟩ := bind_eq_some.mp run4
  obtain ⟨block, rfl⟩ := writeRootArea_eq_some.mp write
  rw [bind_of_eq_some (setFileInfo_run (v := u.patch (root * 4096 + 512) 3584 data) block)] at run5
  cases run5
  have size := (infoOf_fits v root).1
  have small := h.small
  have fit : ({ v.infoOf root with size := n, levels := level + 1 } : InodeInfo).Fits :=
    setInfo_fits (by omega) (by omega)
  refine ⟨by omega, congrArg InodeInfo.levels (infoOf_patch_header fit), area, data, _, u, shrink, fun j jLt => ⟨?_, ?_⟩⟩
  · rw [dataEq]
    exact pointerAt_rootArea jLt
  · exact (rootPointer_congr jLt fun a aLe _ => area_patch_header aLe).trans (rootPointer_patch_area jLt)

/-- A file with blocks that loses some of them is dropped on the way, or left without its last block. -/
theorem not_truncatedTo (h : v.IsFile root) (levelEq : (v.infoOf root).levels = level + 1)
    (less : (n + 4095) / 4096 < ((v.infoOf root).size + 4095) / 4096)
    (run : truncateLocked root n v = some ((), v')) : ¬ TruncatedTo v root n v' := by
  have fits := (h.stored level levelEq).2
  obtain ⟨nPos, levelEq', area, data, u, u', shrink, pointers⟩ := truncateLocked_cut h levelEq less run
  have within : ∀ j, j * ptrsPerBlock ^ level < (n + 4095) / 4096 → j < 448 := fun j jLt =>
    Nat.lt_of_mul_lt_mul_right (a := ptrsPerBlock ^ level) (by omega)
  have ptr : ∀ j, j * ptrsPerBlock ^ level < (n + 4095) / 4096 → pointerAt area j ≠ 0 := fun j jLt => by
    rw [(pointers j (within j jLt)).1]
    exact fun zero => h.pointed _ (by omega) (zero_mem_pathTo rfl levelEq zero)
  obtain ⟨j, left, jLt, -, eq⟩ := shrinkPointers_eq (decreaseFileSizeRecursively level) (i := 0) (n := ptrsPerBlock)
    (by omega) (by simp only [ptrsPerBlock] at *; omega) ptr
  rw [Nat.zero_mul] at eq
  rw [eq] at shrink
  obtain ⟨⟨⟩, u1, lower, release⟩ := bind_eq_some.mp shrink
  cases level with
  | succ level =>
    rw [decreaseFileSizeRecursively_none] at lower
    cases lower
  | zero =>
    intro meets
    -- the pointer to the last block is gone
    have gone := (pointers j (within j jLt)).2.trans ((releasePointers_spec release).2 (Nat.succ_pos left))
    rw [pow_zero] at jLt
    refine meets.pointers (h.pointed_of_less less) ⟨j, by omega, zero_mem_pathTo ?_ levelEq' gone⟩
    rw [pow_zero, Nat.mul_one]

/-- A truncation does what it should exactly if it keeps the size, or empties an inline file. -/
theorem truncate_exact_iff (h : v.IsFile root) (nLe : n ≤ (v.infoOf root).size) :
    (∃ v', truncateLocked root n v = some ((), v') ∧ TruncatedTo v root n v') ↔
      n = (v.infoOf root).size ∨ n = 0 ∧ (v.infoOf root).levels = 0 := by
  constructor
  · rintro ⟨v', run, meets⟩
    by_cases keep : ((v.infoOf root).size + 4095) / 4096 ≤ (n + 4095) / 4096
    · rw [truncateLocked_keep h.hasRoot.hasHeader keep] at run
      cases run
      exact .inl meets.size.symm
    cases levelEq : (v.infoOf root).levels with
    | zero =>
      have small := h.inline levelEq
      exact .inr ⟨by omega, rfl⟩
    | succ level => exact absurd meets (not_truncatedTo h levelEq (Nat.not_le.mp keep) run)
  · intro cond
    by_cases same : n = (v.infoOf root).size
    · subst same
      exact ⟨_, truncateLocked_keep h.hasRoot.hasHeader (Nat.le_refl _), .of_keep h⟩
    · obtain ⟨rfl, levelEq⟩ := cond.resolve_left same
      exact ⟨_, truncateLocked_empty h levelEq (Ne.symm same), .of_inline h levelEq⟩

end Truncate

/-! ## A file of one hundred bytes, and one of two blocks -/

theorem hundredBytes_isFile : (withHundredBytes (blankPartition 128)).IsFile 4 := by
  have level : ((withHundredBytes (blankPartition 128)).infoOf 4).levels = 0 := by
    rfl
  refine ⟨by unfold HasBlock; decide, by simp [IsGroupBitmap, groupSizeBlocks], by omega, fun _ => ?_, by omega, ?_⟩
  · rw [hundredBytes_info]
    decide
  · simp [pathTo, level]

-- the second block is without a pointer
def withTwoBlocks (v : Rfs2) : Rfs2 :=
  (v.patch (4 * 4096 + 512) 3584 (setPointerAt 0 5 Bytes.zero)).patch (4 * 4096) 512
    (({ hundredBytesInfo with size := 8192, levels := 1 } : InodeInfo).store Bytes.zero)

theorem twoBlocks_info (v : Rfs2) : (withTwoBlocks v).infoOf 4 = { hundredBytesInfo with size := 8192, levels := 1 } :=
  infoOf_patch_header (by constructor <;> decide)

theorem twoBlocks_isFile : (withTwoBlocks (blankPartition 128)).IsFile 4 := by
  have info := twoBlocks_info (blankPartition 128)
  refine ⟨by unfold HasBlock; decide, by simp [IsGroupBitmap, groupSizeBlocks], ?_, ?_, ?_, ?_⟩ <;> rw [info]
  · decide
  · simp
  · rintro level levelOk
    cases levelOk
    decide
  · intro k kLt
    obtain rfl : k = 0 := by
      dsimp only at kLt
      omega
    have path : (withTwoBlocks (blankPartition 128)).pathTo 4 0 = [5] := by decide +kernel
    simp [path]

theorem truncate_exact_iff_blocks : (∃ v', truncateLocked 4 0 (withHundredBytes (blankPartition 128)) = some ((), v') ∧
      TruncatedTo (withHundredBytes (blankPartition 128)) 4 0 v') ∧
    (∃ v', truncateLocked 4 8192 (withTwoBlocks (blankPartition 128)) = some ((), v') ∧
      TruncatedTo (withTwoBlocks (blankPartition 128)) 4 8192 v') ∧
    ¬ ∃ v', truncateLocked 4 4096 (withTwoBlocks (blankPartition 128)) = some ((), v') ∧
      TruncatedTo (withTwoBlocks (blankPartition 128)) 4 4096 v' := by
  have info := twoBlocks_info (blankPartition 128)
  refine ⟨(truncate_exact_iff hundredBytes_isFile (Nat.zero_le _)).mpr (.inr ⟨rfl, rfl⟩),
    (truncate_exact_iff twoBlocks_isFile ?_).mpr ?_, (truncate_exact_iff twoBlocks_isFile ?_).not.mpr ?_⟩ <;> rw [info]
  all_goals decide

/-- Ten bytes of it are not kept for themselves. -/
theorem truncate_keeps_size : ¬ ∀ (v : Rfs2) (root n : Nat), v.IsFile root → n ≤ (v.infoOf root).size →
    ∃ v', truncateLocked root n v = some ((), v') ∧ TruncatedTo v root n v' := by
  intro always
  have info := hundredBytes_info (blankPartition 128)
  obtain ⟨v', run, meets⟩ := always _ 4 10 hundredBytes_isFile (by rw [info]; decide)
  rw [truncateLocked_keep hundredBytes_isFile.hasRoot.hasHeader (by rw [info]; decide)] at run
  cases run
  have size : ((withHundredBytes (blankPartition 128)).infoOf 4).size = 10 := meets.size
  cases size

end MeowOs.Rfs2
