import MeowOs.Rfs2.BTree.MapLaw
import MeowOs.Rfs2.File.Growth

/-! # Reading back what was written

A write goes one of three ways.  Up to 3583 bytes in all only the size in the
header is set, also to a smaller one.  A file that has blocks enough keeps its
size and gets whole pages overwritten.  Otherwise the file grows first.
`read_after_write` says on which inputs the outcome is the one a caller expects.
-/

namespace MeowOs.Rfs2

open MeowOs.Machine Prog

/-! ## Writing pages through pointers -/

section Pages

variable {v v' : Rfs2} {range buffer : Bytes}

def pointerSet (range : Bytes) (first n : Nat) : Set Nat := {q | ∃ j, j < n ∧ q = pointerAt range (first + j)}

theorem writePointers_succ {first count index pages : Nat} :
    writePointers buffer (pointerSlice range first (count + 1)) index (pages + 1) v = some ((), v') ↔
      v.HasBlock (pointerAt range first) ∧ writePointers buffer (pointerSlice range (first + 1) count) (index + 1) pages
        (v.setBlock (pointerAt range first) (buffer.shift (index * 4096))) = some ((), v') := by
  have step : writePointers buffer (pointerSlice range first (count + 1)) index (pages + 1) = (do
      partitionWrite (pointerAt range first * blockSizeSectors) blockSizeSectors (buffer.shift (index * 4096))
      writePointers buffer (pointerSlice range (first + 1) count) (index + 1) pages) := rfl
  rw [step, bind_eq_some]
  constructor
  · rintro ⟨⟨⟩, u, write, rest⟩
    obtain ⟨inside, rfl⟩ := partitionWrite_block.mp write
    exact ⟨inside, rest⟩
  · rintro ⟨inside, rest⟩
    exact ⟨(), _, partitionWrite_block.mpr ⟨inside, rfl⟩, rest⟩

theorem writePointers_spec {count : Nat} : ∀ {first index pages : Nat} {v v' : Rfs2},
    (∀ i j, i < min count pages → j < min count pages →
      pointerAt range (first + i) = pointerAt range (first + j) → i = j) →
    writePointers buffer (pointerSlice range first count) index pages v = some ((), v') →
    Frame (pointerSet range first (min count pages)) v v' ∧ ∀ j < min count pages,
      Bytes.BlockIs v'.disk (pointerAt range (first + j)) (buffer.shift ((index + j) * 4096)) := by
  induction count with
  | zero =>
    intro first index pages v v' _ run
    cases run
    exact ⟨Frame.refl _ _, fun j jLt => by omega⟩
  | succ count ih =>
    intro first index pages v v' distinct run
    cases pages with
    | zero =>
      cases run
      exact ⟨Frame.refl _ _, fun j jLt => by omega⟩
    | succ pages =>
      obtain ⟨-, rest⟩ := writePointers_succ.mp run
      obtain ⟨frame, pagesEq⟩ := ih (fun i j iLt jLt eq => by
        have succ := distinct (i + 1) (j + 1) (by omega) (by omega) (by
          rwa [show first + (i + 1) = first + 1 + i by omega, show first + (j + 1) = first + 1 + j by omega])
        omega) rest
      have sub : pointerSet range (first + 1) (min count pages) ⊆
          pointerSet range first (min (count + 1) (pages + 1)) := by
        rintro q ⟨j, jLt, rfl⟩
        exact ⟨j + 1, by omega, by rw [show first + (j + 1) = first + 1 + j by omega]⟩
      have firstMem : pointerAt range first ∈ pointerSet range first (min (count + 1) (pages + 1)) :=
        ⟨0, by omega, by rw [Nat.add_zero]⟩
      refine ⟨(Frame.setBlock firstMem).trans (frame.mono sub), fun j jLt => ?_⟩
      cases j with
      | zero =>
        -- the later pages go to other blocks
        refine (setBlock_blockIs v _ _).of_same (frame.same _ ?_)
        rintro ⟨j, jLt', eq⟩
        have zero := distinct 0 (j + 1) (by omega) (by omega) (by
          rwa [Nat.add_zero, show first + (j + 1) = first + 1 + j by omega])
        omega
      | succ j =>
        rw [show first + (j + 1) = first + 1 + j by omega, show index + (j + 1) = index + 1 + j by omega]
        exact pagesEq j (by omega)

end Pages

section Body

variable {v u v' : Rfs2} {root k n : Nat} {buffer : Pages} {res : Except KernelErrorCode Nat} (nPos : 0 < n)
  (pagesEq : (n + 4095) / 4096 ≤ buffer.addresses.length)

include nPos pagesEq

section

variable (grew : increaseFileSize root (k * 4096 + n) v = some ((), u)) (hasRoot : u.HasBlock root)

include grew hasRoot

theorem writeLocked_front : writeLocked root k n buffer v = (if (u.infoOf root).levels = 0 then do
      writeRootArea root buffer.data
      return .ok (min (u.infoOf root).size n)
    else do
      writeLevels buffer k (min (k + n / 4096) ((u.infoOf root).size / 4096)) ((u.infoOf root).levels - 1)
        (u.rootArea root)
      return .ok ((min (k + n / 4096) ((u.infoOf root).size / 4096) - k) * 4096) :
        Prog Rfs2 (Except KernelErrorCode Nat)) u.tick.tick := by
  have frame : allocateFrame u.tick = some (u.tick.frames 0, u.tick.tick) := rfl
  have area : readRootArea root (u.tick.frames 0) u.tick.tick = some (u.rootArea root, u.tick.tick) :=
    readRootArea_run hasRoot
  rw [writeLocked, if_neg (by omega), if_neg (by omega), bind_of_eq_some grew,
    bind_of_eq_some (getFileInfo_run hasRoot), bind_of_eq_some frame, bind_of_eq_some area]

variable (run : writeLocked root k n buffer v = some (res, v'))

include run

theorem writeLocked_inline (level : (u.infoOf root).levels = 0) :
    v' = u.tick.tick.patch (root * 4096 + 512) 3584 buffer.data := by
  rw [writeLocked_front nPos pagesEq grew hasRoot, if_pos level] at run
  obtain ⟨⟨⟩, w, write, ret⟩ := bind_eq_some.mp run
  obtain ⟨-, rfl⟩ := writeRootArea_eq_some.mp write
  cases ret
  rfl

theorem writeLocked_paged (level : (u.infoOf root).levels = 1) :
    ∃ range, (∀ i < 448, pointerAt range i = u.rootPointer root i) ∧ writePointers buffer.data
        (pointerSlice range k (min (k + n / 4096) ((u.infoOf root).size / 4096) + 1 - k)) 0
        buffer.addresses.length u.tick.tick = some ((), v') := by
  rw [writeLocked_front nPos pagesEq grew hasRoot, if_neg (by omega), level] at run
  obtain ⟨⟨⟩, w, write, ret⟩ := bind_eq_some.mp run
  cases ret
  exact ⟨u.rootArea root, fun i iLt => pointerAt_rootArea iLt, by simpa [writeLevels] using write⟩

end

theorem writeLocked_grow (run : writeLocked root k n buffer v = some (res, v')) :
    ∃ u, increaseFileSize root (k * 4096 + n) v = some ((), u) := by
  rw [writeLocked, if_neg (by omega), if_neg (by omega)] at run
  obtain ⟨⟨⟩, u, grew, -⟩ := bind_eq_some.mp run
  exact ⟨u, grew⟩

end Body

/-! ## The file behind a write -/

/-- The file behind the write, and what the write keeps: `T` are blocks of others. -/
structure Outcome (v : Rfs2) (root : Nat) (T : Set Nat) (size : Nat) (byte : Nat → UInt8) (v' : Rfs2) : Prop where
  readable : v'.Readable root
  size_eq : (v'.infoOf root).size = size
  bytes : ∀ x, x < size → v'.fileByte root x = byte x
  superblock : v'.superblock = v.superblock
  sectors : v'.partition.sizeSectors = v.partition.sizeSectors
  same : ∀ c ∈ T, Bytes.SameBlock v.disk v'.disk c

structure Apart (v : Rfs2) (A : Set Nat) (root : Nat) (T : Set Nat) : Prop where
  sub : T ⊆ A
  root_not : root ∉ T
  pointers : (v.infoOf root).levels = 1 → ∀ i, i < 448 → v.rootPointer root i ∉ T

section Outcome

variable {v u v' : Rfs2} {A T : Set Nat} {root k n size : Nat} {buffer : Pages} {res : Except KernelErrorCode Nat}
  {data : Bytes} {A' : Set Nat}

theorem inline_outcome (hasRoot : u.HasBlock root) (level : (u.infoOf root).levels = 0)
    (sizeEq : (u.infoOf root).size = size) (small : size ≤ 3584) (tNotMem : root ∉ T)
    (vEq' : v' = u.patch (root * 4096 + 512) 3584 data) : Outcome u root T size data v' := by
  have info : v'.infoOf root = u.infoOf root := by rw [vEq', infoOf_patch_area]
  have frame : Frame {root} u v' := by
    rw [vEq']
    exact patch_frame (by omega)
  have absent : (v'.infoOf root).levels ≠ 1 := by
    rw [info, level]
    omega
  refine ⟨⟨?_, ?_, ?_, fun one => absurd one absent, fun one => absurd one absent, fun one => absurd one absent⟩,
    info ▸ sizeEq, ?_, frame.superblock, frame.size, ?_⟩
  · simpa [HasBlock, frame.size] using hasRoot
  · rw [info, level]
    omega
  · intro _
    rw [info, sizeEq]
    exact small
  · intro x xLt
    rw [fileByte, info, if_pos level, vEq', patch_block_same, if_pos (by omega)]
    exact congrArg data (by omega)
  · intro c cMem
    exact frame.same c fun mem => tNotMem (mem ▸ cMem)

theorem paged_outcome {count pages : Nat} {range : Bytes} (read : u.Readable root)
    (level : (u.infoOf root).levels = 1) (sizeEq : (u.infoOf root).size = size)
    (hasRoot : ∀ i, i * 4096 < size → u.rootPointer root i ≠ root) (tAll : ∀ i, i * 4096 < size → u.rootPointer root i ∉ T)
    (rangeAll : ∀ i < 448, pointerAt range i = u.rootPointer root i)
    (pagesEq : ∀ j < min count pages, (k + j) * 4096 < size)
    (write : writePointers data (pointerSlice range k count) 0 pages u = some ((), v')) :
    Outcome u root T size (fun x => if k ≤ x / 4096 ∧ x / 4096 < k + min count pages then data (x - k * 4096)
      else u.fileByte root x) v' := by
  have limit : size ≤ 448 * 4096 := sizeEq ▸ read.size level
  have ptr : ∀ j < min count pages, pointerAt range (k + j) = u.rootPointer root (k + j) := fun j jLt =>
    rangeAll (k + j) (by have inside := pagesEq j jLt; omega)
  have distinct : ∀ i j, i * 4096 < size → j * 4096 < size → u.rootPointer root i = u.rootPointer root j → i = j :=
    fun i j iLt jLt => read.distinct level i j (sizeEq ▸ iLt) (sizeEq ▸ jLt)
  obtain ⟨frame, blocks⟩ := writePointers_spec (fun i j iLt jLt eq => by
    rw [ptr i iLt, ptr j jLt] at eq
    have same := distinct _ _ (pagesEq i iLt) (pagesEq j jLt) eq
    omega) write
  have isSet : ∀ q ∈ pointerSet range k (min count pages), ∃ j < min count pages, q = u.rootPointer root (k + j) := by
    rintro q ⟨j, jLt, rfl⟩
    exact ⟨j, jLt, ptr j jLt⟩
  have keep : Bytes.SameBlock u.disk v'.disk root := frame.same root fun mem => by
    obtain ⟨j, jLt, eq⟩ := isSet root mem
    exact hasRoot _ (pagesEq j jLt) eq.symm
  have info : v'.infoOf root = u.infoOf root := infoOf_congr fun a aLt => keep a (by omega)
  have pointer : ∀ i, i * 4096 < size → v'.rootPointer root i = u.rootPointer root i := fun i iLt =>
    rootPointer_congr (by omega) fun a _ aLt => keep a aLt
  refine ⟨⟨?_, ?_, ?_, ?_, ?_, ?_⟩, info ▸ sizeEq, ?_, frame.superblock, frame.size, ?_⟩
  · simpa [HasBlock, frame.size] using read.hasRoot
  · rw [info]
    exact read.levels
  · rw [info]
    exact read.inline
  · rw [info]
    exact read.size
  · intro _ i iLt
    rw [info, sizeEq] at iLt
    have inside := read.inside level i (sizeEq ▸ iLt)
    rw [pointer i iLt]
    simpa [HasBlock, frame.size] using inside
  · intro _ i j iLt jLt
    rw [info, sizeEq] at iLt jLt
    rw [pointer i iLt, pointer j jLt]
    exact distinct i j iLt jLt
  · intro x xLt
    have block : x / 4096 * 4096 < size := by omega
    have byte : x % 4096 < 4096 := Nat.mod_lt _ (by omega)
    rw [fileByte, info, if_neg (by omega), pointer _ block]
    split
    · have page := blocks (x / 4096 - k) (by omega) (x % 4096) byte
      rw [ptr _ (by omega), show k + (x / 4096 - k) = x / 4096 by omega] at page
      rw [page, Bytes.shift_apply]
      exact congrArg data (by omega)
    · rw [fileByte, if_neg (by omega)]
      refine frame.same _ (fun mem => ?_) _ byte
      obtain ⟨j, jLt, eq⟩ := isSet _ mem
      have same := distinct _ _ block (pagesEq j jLt) eq
      omega
  · intro c cMem
    refine frame.same c fun mem => ?_
    obtain ⟨j, jLt, eq⟩ := isSet c mem
    exact tAll _ (pagesEq j jLt) (eq ▸ cMem)

theorem Outcome.of_extends {byte byte' : Nat → UInt8} (h : Outcome u root T size byte' v')
    (ext : Extends {root} v A u A') (apart : Apart v A root T) (byteAll : ∀ x < size, byte' x = byte x) :
    Outcome v root T size byte v' := by
  refine ⟨h.readable, h.size_eq, fun x xLt => (h.bytes x xLt).trans (byteAll x xLt), h.superblock.trans ext.superblock,
    h.sectors.trans ext.size, fun c cMem => ?_⟩
  refine (ext.same c (apart.sub cMem) fun mem => apart.root_not ?_).trans (h.same c cMem)
  exact mem ▸ cMem

theorem Readable.tick (h : v.Readable root) : v.tick.Readable root :=
  ⟨h.hasRoot, h.levels, h.inline, h.size, h.inside, h.distinct⟩

section

variable (h : FileAt v A root)

include h

theorem FileAt.readable : v.Readable root := by
  refine ⟨h.hasRoot, h.levels, fun zero => (h.inline zero).le, fun one => (h.size one).2, ?_, ?_⟩
  · intro one i iLt
    have size := (h.size one).2
    have mem := ((h.table one).owned i (by omega) (h.used one i iLt)).1
    exact (h.alloc.used_data _ mem).1.inside
  · intro one i j iLt jLt
    have size := (h.size one).2
    exact (h.table one).distinct i j (by omega) (by omega) (h.used one i iLt)

theorem FileAt.root_ne_zero : root ≠ 0 := fun zero =>
  (h.alloc.used_data root h.mem).1.not_bitmap (zero ▸ Nat.zero_mod _)

/-- Behind a growth the file can be read, though its last pointer may be missing and stand for block 0. -/
theorem Grown.readable {newSize : Nat} (gGrown : Grown v A root newSize u A')
    (max : newSize ≤ 448 * 4096) : u.Readable root := by
  have level : (u.infoOf root).levels = 1 := by rw [gGrown.info]
  have size : (u.infoOf root).size = newSize := by rw [gGrown.info]
  have hasRoot : u.HasBlock root := gGrown.extended.hasBlock h.hasRoot
  refine ⟨hasRoot, level.le, fun zero => ?_, fun _ => size.trans_le max, ?_, ?_⟩
  · rw [level] at zero
    cases zero
  · intro _ i iLt
    by_cases ptr : u.rootPointer root i = 0
    · rw [ptr]
      simp only [HasBlock] at hasRoot ⊢
      omega
    · have mem := (gGrown.table.owned i (by omega) ptr).1
      exact (gGrown.extended.alloc.used_data _ mem).1.inside
  · intro _ i j iLt jLt eq
    by_cases ptr : u.rootPointer root i = 0
    · -- only the last pointer can be missing
      have lastI : ¬ (i + 1) * 4096 < newSize := fun inside => gGrown.filled i inside ptr
      have lastJ : ¬ (j + 1) * 4096 < newSize := fun inside => gGrown.filled j inside (eq ▸ ptr)
      omega
    · exact gGrown.table.distinct i j (by omega) (by omega) ptr eq

variable (apart : Apart v A root T) (nPos : 0 < n) (pagesEq : buffer.addresses.length = (n + 4095) / 4096)
  (run : writeLocked root k n buffer v = some (res, v'))

include apart nPos pagesEq run

theorem writeLocked_small (small : k * 4096 + n < 3584) : Outcome v root T (k * 4096 + n) buffer.data v' := by
  obtain ⟨u, grew⟩ := writeLocked_grow nPos pagesEq.ge run
  obtain ⟨ext, info, area⟩ := increaseFileSize_small h small grew
  have hasRoot : u.HasBlock root := ext.hasBlock h.hasRoot
  have levels : (u.infoOf root).levels = (v.infoOf root).levels := by rw [info]
  have size : (u.infoOf root).size = k * 4096 + n := by rw [info]
  have tick := ext.andTick.andTick
  by_cases level : (v.infoOf root).levels = 0
  · have vEq' := writeLocked_inline nPos pagesEq.ge grew hasRoot run (levels.trans level)
    exact (inline_outcome (u := u.tick.tick) hasRoot (levels.trans level) size (by omega) apart.root_not
      vEq').of_extends tick apart fun _ _ => rfl
  have one : (v.infoOf root).levels = 1 := by
    have le := h.levels
    omega
  obtain ⟨pos, max⟩ := h.size one
  obtain ⟨range, rangeAll, write⟩ := writeLocked_paged nPos pagesEq.ge grew hasRoot run (levels.trans one)
  have ptr : ∀ i < 448, u.rootPointer root i = v.rootPointer root i := fun i iLt =>
    rootPointer_congr iLt fun a aLe _ => area a aLe
  -- only the first page is in use
  have first : ∀ i, i * 4096 < k * 4096 + n → i = 0 := fun i iLt => by omega
  have used : v.rootPointer root 0 ≠ 0 := h.used one 0 (by omega)
  obtain ⟨mem, ne⟩ := (h.table one).owned 0 (by omega) used
  have read : u.tick.tick.Readable root := by
    refine ⟨hasRoot, ?_, ?_, ?_, ?_, ?_⟩
    · exact (levels.trans one).le
    · intro zero
      exact absurd (levels.symm.trans zero) level
    · intro _
      exact size.le.trans (by omega)
    · intro _ i iLt
      have ptr0 : u.tick.tick.rootPointer root 0 = v.rootPointer root 0 := ptr 0 (by omega)
      rw [first i (size ▸ iLt), ptr0]
      exact tick.hasBlock (h.alloc.used_data _ mem).1.inside
    · intro _ i j iLt jLt _
      rw [first i (size ▸ iLt), first j (size ▸ jLt)]
  have count : min (min (k + n / 4096) ((u.infoOf root).size / 4096) + 1 - k) buffer.addresses.length = 1 := by
    omega
  have out := paged_outcome read (levels.trans one) size
    (fun i iLt => by
      rw [first i iLt]
      exact (ptr 0 (by omega)).trans_ne ne)
    (fun i iLt => by
      rw [first i iLt]
      have absent := apart.pointers one 0 (by omega)
      rwa [← ptr 0 (by omega)] at absent)
    rangeAll (fun j jLt => by
      rw [count, Nat.lt_one_iff] at jLt
      rw [jLt, Nat.add_zero]
      exact Nat.lt_add_of_pos_right nPos) write
  refine out.of_extends tick apart fun x xLt => ?_
  rw [count, if_pos (by omega)]
  exact congrArg buffer.data (by omega)

theorem writeLocked_inPlace (large : ¬ k * 4096 + n < 3584) (offset : k * 4096 ≤ (v.infoOf root).size)
    (enough : (k * 4096 + n + 4095) / 4096 ≤ ((v.infoOf root).size + 4095) / 4096) :
    Outcome v root T (v.infoOf root).size (fun x => if k ≤ x / 4096 ∧ x / 4096 < k + (n + 4095) / 4096 then
      buffer.data (x - k * 4096) else v.fileByte root x) v' := by
  have grew := increaseFileSize_enough h large enough
  have tick : Extends {root} v A v.tick.tick.tick A := (Extends.tick h.alloc).andTick.andTick
  have hasRoot : v.tick.HasBlock root := h.hasRoot
  have size : (v.tick.tick.tick.infoOf root).size = (v.infoOf root).size := rfl
  by_cases level : (v.infoOf root).levels = 0
  · have vEq' := writeLocked_inline nPos pagesEq.ge grew hasRoot run level
    have small := h.inline level
    refine (inline_outcome (u := v.tick.tick.tick) hasRoot level size small.le apart.root_not
      vEq').of_extends tick apart fun x xLt => ?_
    rw [if_pos (by omega)]
    exact congrArg buffer.data (by omega)
  have one : (v.infoOf root).levels = 1 := by
    have le := h.levels
    omega
  have max := (h.size one).2
  obtain ⟨range, rangeAll, write⟩ := writeLocked_paged nPos pagesEq.ge grew hasRoot run one
  have count : min (min (k + n / 4096) ((v.tick.infoOf root).size / 4096) + 1 - k) buffer.addresses.length =
      (n + 4095) / 4096 := by
    have same : (v.tick.infoOf root).size = (v.infoOf root).size := rfl
    rw [same, pagesEq]
    omega
  have out := paged_outcome (u := v.tick.tick.tick) (T := T) h.readable.tick.tick.tick one size
    (fun i iLt => ((h.table one).owned i (by omega) (h.used one i iLt)).2)
    (fun i iLt => apart.pointers one i (by omega)) rangeAll
    (fun j jLt => by
      have block : (k + j) * 4096 < (v.infoOf root).size := by omega
      exact block) write
  rw [count] at out
  exact out.of_extends tick apart fun _ _ => rfl

theorem writeLocked_grown (large : ¬ k * 4096 + n < 3584) (offset : k * 4096 ≤ (v.infoOf root).size)
    (more : ¬ (k * 4096 + n + 4095) / 4096 ≤ ((v.infoOf root).size + 4095) / 4096) :
    Outcome v root T (k * 4096 + n) (fun x => if k * 4096 ≤ x then buffer.data (x - k * 4096)
      else v.fileByte root x) v' := by
  obtain ⟨u, grew⟩ := writeLocked_grow nPos pagesEq.ge run
  obtain ⟨max, A', gGrown⟩ := increaseFileSize_grown h large more grew
  have read := gGrown.readable h max
  have level : (u.infoOf root).levels = 1 := by rw [gGrown.info]
  have size : (u.infoOf root).size = k * 4096 + n := by rw [gGrown.info]
  have tick := gGrown.extended.andTick.andTick
  obtain ⟨range, rangeAll, write⟩ := writeLocked_paged nPos pagesEq.ge grew read.hasRoot run level
  have count : min (min (k + n / 4096) ((u.infoOf root).size / 4096) + 1 - k) buffer.addresses.length =
      (n + 4095) / 4096 := by
    omega
  have out := paged_outcome read.tick.tick level size
    (fun i iLt eq => by
      by_cases ptr : u.rootPointer root i = 0
      · exact h.root_ne_zero (eq.symm.trans ptr)
      · exact (gGrown.table.owned i (by omega) ptr).2 eq)
    (fun i iLt mem => by
      obtain new | zero | ⟨one, old⟩ := gGrown.fresh i (by omega)
      · exact new (apart.sub mem)
      · have data := (h.alloc.used_data _ (apart.sub mem)).1
        exact data.not_bitmap (zero ▸ Nat.zero_mod _)
      · exact apart.pointers one i (by omega) (old ▸ mem))
    rangeAll
    (fun j jLt => by
      have block : (k + j) * 4096 < k * 4096 + n := by omega
      exact block) write
  refine out.of_extends tick apart fun x xLt => ?_
  by_cases inside : k * 4096 ≤ x
  · rw [if_pos inside, if_pos (by omega)]
  -- in front of the write the pointers and their blocks are the old ones
  have one : (v.infoOf root).levels = 1 := by
    by_contra ne
    have inline := h.inline (by have le := h.levels; omega)
    omega
  have ptr := h.used one (x / 4096) (by omega)
  have kept := gGrown.kept one (x / 4096) (by omega) ptr
  obtain ⟨mem, ne⟩ := (h.table one).owned (x / 4096) (by omega) ptr
  have ptr' : u.tick.tick.rootPointer root (x / 4096) = v.rootPointer root (x / 4096) := kept
  have level' : (u.tick.tick.infoOf root).levels = 1 := level
  rw [if_neg inside, if_neg (by omega), fileByte, if_neg (by omega), fileByte, if_neg (by omega), ptr']
  exact gGrown.extended.same _ mem ne _ (Nat.mod_lt _ (by omega))

end

end Outcome

/-! ## Files by inode number -/

def SameVolume (v u : Rfs2) : Prop := u.partition = v.partition ∧ u.superblock = v.superblock

/-- In every volume that agrees with `v` on the blocks `T`, the inode tree has `inode` at block `root`. -/
structure Lookup (v : Rfs2) (T : Set Nat) (inode root : Nat) : Prop where
  returns : ∀ u : Rfs2, u.superblock = v.superblock → u.partition.sizeSectors = v.partition.sizeSectors →
    (∀ c ∈ T, Bytes.SameBlock v.disk u.disk c) →
      ∃ N, ∀ fuel, N ≤ fuel → ∃ r, BTreeNode.findInodeRoot fuel inode u = some r
  found : ∀ u : Rfs2, u.superblock = v.superblock → u.partition.sizeSectors = v.partition.sizeSectors →
    (∀ c ∈ T, Bytes.SameBlock v.disk u.disk c) →
      ∀ fuel r u', BTreeNode.findInodeRoot fuel inode u = some (r, u') → r = some root ∧ SameVolume u u'

/-- A file of the volume: its inode is in the tree, whose blocks `T` are apart from the file's. -/
structure InodeFile (v : Rfs2) (A T : Set Nat) (inode root : Nat) : Prop where
  file : FileAt v A root
  apart : Apart v A root T
  lookup : Lookup v T (inode % 2 ^ 32) root

section Inode

variable {v u v' : Rfs2} {A T : Set Nat} {root inode fuel : Nat}

theorem SameVolume.eq (h : SameVolume v u) : u = { v with frames := u.frames } := by
  cases v
  cases u
  obtain ⟨rfl, rfl⟩ := h
  rfl

theorem SameVolume.infoOf (h : SameVolume v u) (root : Nat) : u.infoOf root = v.infoOf root := by
  rw [h.eq]
  rfl

theorem SameVolume.fileByte (h : SameVolume v u) (root x : Nat) : u.fileByte root x = v.fileByte root x := by
  rw [h.eq]
  rfl

theorem SameVolume.fileAt (h : SameVolume v u) (file : FileAt v A root) : FileAt u A root := by
  have frame : Frame ∅ v u := by
    rw [h.eq]
    exact ⟨rfl, rfl, fun n _ => .refl _ n⟩
  have alloc := file.alloc.of_frame frame fun n nPos => nPos.elim
  rw [h.eq] at alloc ⊢
  exact ⟨alloc, file.mem, file.levels, file.inline, file.size, file.used, file.table⟩

theorem SameVolume.apart (h : SameVolume v u) (apart : Apart v A root T) : Apart u A root T := by
  rw [h.eq]
  exact ⟨apart.sub, apart.root_not, apart.pointers⟩

theorem read_run {o m : Nat} (buffer : Pages) (lookup : Lookup v T (inode % 2 ^ 32) root)
    (sb : v'.superblock = v.superblock) (sectors : v'.partition.sizeSectors = v.partition.sizeSectors)
    (same : ∀ c ∈ T, Bytes.SameBlock v.disk v'.disk c) (reads : v'.Readable root) (oEq : o % 4096 = 0) (mPos : 0 < m)
    (inside : o + m ≤ (v'.infoOf root).size) (buf : ∀ a ∈ buffer.addresses, a % 4096 = 0)
    (pagesEq : (m + 4095) / 4096 ≤ buffer.addresses.length) :
    ∃ N, ∀ fuel, N ≤ fuel → ∃ r data u, read fuel inode o m buffer v' = some (.ok (r, .invalid, data), u) ∧
      ∀ i < m, data i = v'.fileByte root (o + i) := by
  obtain ⟨N, returns⟩ := lookup.returns v' sb sectors same
  refine ⟨N, fun fuel fuelLe => ?_⟩
  obtain ⟨⟨r, u⟩, find⟩ := returns fuel fuelLe
  obtain ⟨rfl, vol⟩ := lookup.found v' sb sectors same fuel r u find
  have read' : u.Readable root := by
    rw [vol.eq]
    exact ⟨reads.hasRoot, reads.levels, reads.inline, reads.size, reads.inside, reads.distinct⟩
  have off : o / 4096 * 4096 = o := by omega
  have inside' : o / 4096 * 4096 + m ≤ (u.infoOf root).size := by
    rw [off, vol.infoOf]
    exact inside
  obtain ⟨r, data, w, locked, dataAll⟩ := readLocked_readable read' mPos inside' pagesEq
  have any : ¬ (buffer.addresses.any (· % 4096 != 0)) = true := by
    simp only [List.any_eq_true, bne_iff_ne, not_exists, not_and, not_not]
    exact buf
  refine ⟨r, data, w, ?_, fun i iLt => ?_⟩
  · rw [read, if_neg (by omega), if_neg any]
    exact (bind_of_eq_some (bind_of_eq_some find)).trans (bind_of_eq_some locked)
  · rw [dataAll i iLt, off, vol.fileByte]

theorem write_cut {o n written : Nat} {buffer : Pages} {node : VfsInode} (lookup : Lookup v T (inode % 2 ^ 32) root)
    (run : write fuel inode o n buffer v = some (.ok (node, written), v')) : o % 4096 = 0 ∧ ∃ u w info, SameVolume v u ∧
      writeLocked root (o / 4096) n buffer u = some (.ok written, w) ∧ getFileInfo root w = some (info, v') := by
  have align : o % 4096 = 0 := by
    by_contra ne
    rw [write, if_pos ne] at run
    cases run
  rw [write, if_neg (by omega)] at run
  split at run
  · cases run
  obtain ⟨found, u, block, run1⟩ := bind_eq_some.mp run
  obtain ⟨r, u1, find, ret⟩ := bind_eq_some.mp block
  obtain ⟨rfl, vol⟩ := lookup.found v rfl rfl (fun c _ => Bytes.SameBlock.refl _ c) fuel r u1 find
  cases ret
  obtain ⟨res, w, locked, run2⟩ := bind_eq_some.mp run1
  cases res with
  | error e => cases run2
  | ok written' =>
    obtain ⟨info, w1, infoEq, ret⟩ := bind_eq_some.mp run2
    cases ret
    exact ⟨align, u, w, info, vol, locked, infoEq⟩

end Inode

/-! ## The law -/

/-- What a caller expects of a write of the `n` bytes of `d` at offset `o`: the file ends where it ended
or where the write ended, and every read inside it finds `d` where it was written and the old bytes elsewhere. -/
structure ReadsBack (v : Rfs2) (inode root o n : Nat) (d : Bytes) (v' : Rfs2) : Prop where
  size : (v'.infoOf root).size = max (v.infoOf root).size (o + n)
  reads : ∀ (off m : Nat) (buffer : Pages), off % 4096 = 0 → 0 < m → off + m ≤ (v'.infoOf root).size →
    (∀ a ∈ buffer.addresses, a % 4096 = 0) → (m + 4095) / 4096 ≤ buffer.addresses.length →
      ∃ N, ∀ fuel, N ≤ fuel → ∃ r data u, read fuel inode off m buffer v' = some (.ok (r, .invalid, data), u) ∧
        ∀ i, i < m → data i = if o ≤ off + i ∧ off + i < o + n then d (off + i - o) else v.fileByte root (off + i)

/-- The writes that do what is expected, by the old size and the old bytes of the file: those that do not
shrink an inline file; and on a larger file those that add blocks, or else end inside the file with a page
whose bytes behind the data are the old ones. -/
def WritesExactly (size o n : Nat) (d : Bytes) (old : Nat → UInt8) : Prop :=
  n = 0 ∨ if o + n < 3584 then size ≤ o + n
    else (o + n + 4095) / 4096 ≤ (size + 4095) / 4096 →
      o + n ≤ size ∧ ∀ x, o + n ≤ x → x < size → x / 4096 < (o + n + 4095) / 4096 → d (x - o) = old x

section Law

variable {v u v' : Rfs2} {A T : Set Nat} {root inode o n size : Nat} {d : Bytes} {byte old : Nat → UInt8}

theorem Outcome.readsBack_iff (lookup : Lookup v T (inode % 2 ^ 32) root)
    (h : Outcome v root T size byte v') : ReadsBack v inode root o n d v' ↔ size = max (v.infoOf root).size (o + n) ∧
        ∀ x < size, byte x = if o ≤ x ∧ x < o + n then d (x - o) else v.fileByte root x := by
  constructor
  · intro law
    refine ⟨h.size_eq.symm.trans law.size, fun x xLt => ?_⟩
    -- read the page of `x` up to `x`
    have offEq : x / 4096 * 4096 % 4096 = 0 := Nat.mul_mod_left _ _
    have inside : x / 4096 * 4096 + (x % 4096 + 1) ≤ (v'.infoOf root).size := by
      rw [h.size_eq]
      omega
    have buf : ∀ a ∈ [0], a % 4096 = 0 := by simp
    have len : (x % 4096 + 1 + 4095) / 4096 ≤ [0].length := by
      simp only [List.length_singleton]
      omega
    obtain ⟨N, expect⟩ := law.reads _ (x % 4096 + 1) ⟨[0], d⟩ offEq (by omega) inside buf len
    obtain ⟨M, actual⟩ := read_run ⟨[0], d⟩ lookup h.superblock h.sectors h.same h.readable offEq
      (by omega) inside buf len
    obtain ⟨r, data, w, run, dataAll⟩ := expect (max N M) (Nat.le_max_left _ _)
    obtain ⟨r', data', w', run', dataAll'⟩ := actual (max N M) (Nat.le_max_right _ _)
    rw [run] at run'
    cases run'
    have addr : x / 4096 * 4096 + x % 4096 = x := by omega
    have byteIn := dataAll (x % 4096) (by omega)
    rwa [dataAll' (x % 4096) (by omega), addr, h.bytes x xLt] at byteIn
  · rintro ⟨sizeEq, bytes⟩
    refine ⟨h.size_eq.trans sizeEq, fun off m buffer offEq mPos inside buf pagesEq => ?_⟩
    obtain ⟨N, actual⟩ := read_run buffer lookup h.superblock h.sectors h.same h.readable offEq mPos inside buf pagesEq
    refine ⟨N, fun fuel fuelLe => ?_⟩
    obtain ⟨r, data, w, run, dataAll⟩ := actual fuel fuelLe
    refine ⟨r, data, w, run, fun i iLt => ?_⟩
    have xLt : off + i < size := by
      rw [h.size_eq] at inside
      omega
    rw [dataAll i iLt, h.bytes _ xLt, bytes _ xLt]

theorem Outcome.of_write {w : Rfs2} {info : InodeInfo} (vol : SameVolume v u)
    (h : Outcome u root T size byte w) (infoEq : getFileInfo root w = some (info, v')) :
    Outcome v root T size byte v' := by
  rw [getFileInfo_run h.readable.hasRoot] at infoEq
  cases infoEq
  refine ⟨h.readable.tick, h.size_eq, h.bytes, h.superblock.trans vol.2, h.sectors.trans (by rw [vol.1]), ?_⟩
  intro c cMem
  have same := h.same c cMem
  rwa [disk, vol.1] at same

theorem small_iff (oEq : o % 4096 = 0) (nPos : 0 < n) (small : o + n < 3584) :
    (o + n = max size (o + n) ∧ ∀ x < o + n, d x = if o ≤ x ∧ x < o + n then d (x - o) else old x) ↔
      WritesExactly size o n d old := by
  have zero : o = 0 := by omega
  subst zero
  rw [WritesExactly, if_pos small]
  constructor
  · rintro ⟨sizeEq, -⟩
    exact .inr (by omega)
  · intro cond
    refine ⟨by omega, fun x xLt => ?_⟩
    rw [if_pos (by omega), Nat.sub_zero]

theorem inPlace_iff (oEq : o % 4096 = 0) (nPos : 0 < n) (large : ¬ o + n < 3584)
    (enough : (o + n + 4095) / 4096 ≤ (size + 4095) / 4096) : (size = max size (o + n) ∧ ∀ x < size,
      (if o / 4096 ≤ x / 4096 ∧ x / 4096 < o / 4096 + (n + 4095) / 4096 then d (x - o / 4096 * 4096) else old x) =
        if o ≤ x ∧ x < o + n then d (x - o) else old x) ↔ WritesExactly size o n d old := by
  have off : o / 4096 * 4096 = o := by omega
  rw [WritesExactly, if_neg large, off]
  constructor
  · rintro ⟨sizeEq, bytes⟩
    refine .inr fun _ => ⟨by omega, fun x lo hi page => ?_⟩
    have byte := bytes x hi
    rwa [if_pos (by omega), if_neg (by omega)] at byte
  · intro cond
    have cond' := cond.resolve_left (by omega) enough
    refine ⟨by omega, fun x xLt => ?_⟩
    by_cases inside : o ≤ x ∧ x < o + n
    · rw [if_pos inside, if_pos (by omega)]
    rw [if_neg inside]
    by_cases page : o / 4096 ≤ x / 4096 ∧ x / 4096 < o / 4096 + (n + 4095) / 4096
    · rw [if_pos page]
      exact cond'.2 x (by omega) xLt (by omega)
    · rw [if_neg page]

end Law

/-! ## Writes to an inline file -/

section Inline

variable {v : Rfs2} {A T : Set Nat} {root inode n : Nat} {buffer : Pages}

theorem lookup_of_treeInv {m : Nat → Option Nat} (h : BTreeNode.TreeInv v m) (hasRoot : m inode = some root) :
    Lookup v {v.superblock.inodeTreeRootPtr} inode root := by
  have same : ∀ u : Rfs2, u.superblock = v.superblock → u.partition.sizeSectors = v.partition.sizeSectors →
      (∀ c ∈ ({v.superblock.inodeTreeRootPtr} : Set Nat), Bytes.SameBlock v.disk u.disk c) →
        BTreeNode.TreeInv u m := fun u sb size block =>
    h.of_same sb size (block _ (Set.mem_singleton _))
  refine ⟨fun u sb size block => ⟨1, fun fuel fuelLe => ?_⟩, fun u sb size block fuel r u' find => ?_⟩
  · obtain ⟨f, rfl⟩ : ∃ f, fuel = f + 1 := ⟨fuel - 1, by omega⟩
    exact ⟨_, (same u sb size block).find inode⟩
  · obtain ⟨rfl, rfl⟩ := (same u sb size block).found find
    exact ⟨hasRoot, rfl, rfl⟩

def withSize (v : Rfs2) (root n : Nat) : Rfs2 :=
  v.tick.tick.patch (root * 4096) 512 (({ v.infoOf root with size := n } : InodeInfo).store (v.tick.frames 0))

theorem increaseFileSize_inline_run (hasRoot : v.HasHeader root) (small : n < 3584) :
    increaseFileSize root (0 * 4096 + n) v = some ((), v.withSize root n) := by
  have limit : 0 * 4096 + n < (blockSizeSectors - 1) * 512 := by
    rw [Nat.zero_mul, Nat.zero_add]
    exact small
  rw [increaseFileSize, bind_of_eq_some (getFileInfo_header hasRoot), if_pos limit, Nat.zero_mul, Nat.zero_add,
    bind_of_eq_some (setFileInfo_header (v := v.tick) hasRoot)]
  rfl

theorem infoOf_withSize (level : (v.infoOf root).levels = 0) (small : n < 3584) :
    (v.withSize root n).infoOf root = { v.infoOf root with size := n } :=
  infoOf_patch_header (setInfo_fits (Nat.lt_trans small (by norm_num)) (by rw [level]; norm_num))

theorem writeLocked_inline_run (hasRoot : v.HasBlock root) (level : (v.infoOf root).levels = 0) (nPos : 0 < n)
    (small : n < 3584) (pagesEq : 1 ≤ buffer.addresses.length) : writeLocked root 0 n buffer v =
      some (.ok n, (v.withSize root n).tick.tick.patch (root * 4096 + 512) 3584 buffer.data) := by
  have grew := increaseFileSize_inline_run hasRoot.hasHeader small
  have info : (v.withSize root n).infoOf root = _ := infoOf_withSize level small
  have rootU : (v.withSize root n).HasBlock root := hasRoot
  generalize v.withSize root n = u at grew info rootU
  have zero : (u.infoOf root).levels = 0 := by rw [info, level]
  have write : writeRootArea root buffer.data u.tick.tick = some ((), _) :=
    writeRootArea_eq_some.mpr ⟨rootU, rfl⟩
  rw [writeLocked_front nPos (by omega) grew rootU, if_pos zero, bind_of_eq_some write, info, Nat.min_self]
  rfl

end Inline

/-! ## A file of one hundred bytes -/

def hundredBytesInfo : InodeInfo where
  size := 100
  levels := 0
  typeFlags := 0o644
  ownerUid := 0
  ownerGid := 0
  linkCount := 1
  creationSecondsSinceEpoch := 0
  modificationSecondsSinceEpoch := 0
  statChangeSecondsSinceEpoch := 0

def withHundredBytes (v : Rfs2) : Rfs2 := v.patch (4 * 4096) 512 (hundredBytesInfo.store Bytes.zero)

theorem hundredBytes_info (v : Rfs2) : (withHundredBytes v).infoOf 4 = hundredBytesInfo :=
  infoOf_patch_header (by constructor <;> decide)

theorem hundredBytes_file {v : Rfs2} (h : format 0 (blankPartition 128) = some (.ok (), v)) :
    InodeFile (withHundredBytes v) {2, 3, 4} {2} 2 4 := by
  have free := (format_allocatorInv (by decide) ⟨by decide, by decide⟩ h).free_data
  have used : ∀ b ∈ ({2, 3, 4} : Set Nat), v.DataBlock b ∧ b / groupSizeBlocks < v.groups ∧ v.marked b = true := by
    have marked : (format 0 (blankPartition 128)).map (fun r => ([2, 3, 4].map r.2.marked, r.2.groups,
        r.2.partition.sizeSectors)) = some ([true, true, true], 1, 128) := by decide +kernel
    simp only [h, Option.map_some, List.map_cons, Option.some.injEq, Prod.mk.injEq, List.cons.injEq] at marked
    rintro b (rfl | rfl | rfl) <;> refine ⟨⟨?_, ?_, ?_⟩, ?_⟩ <;>
      simp [HasBlock, IsGroupBitmap, IsSuperblockCopy, groupSizeBlocks, marked]
  have info := hundredBytes_info v
  have frame : Frame {4} v (withHundredBytes v) := patch_header_frame
  have tree : v.superblock.inodeTreeRootPtr = 2 := by
    rw [(format_contents h).superblock]
    rfl
  have levels : ((withHundredBytes v).infoOf 4).levels = 0 := by rw [info]; rfl
  have absent : ((withHundredBytes v).infoOf 4).levels ≠ 1 := by
    rw [levels]
    omega
  refine ⟨⟨AllocatorInv.of_frame ⟨free, used⟩ frame fun n nPos => ?_, by simp, by omega, fun _ => ?_, fun one => absurd one absent,
    fun one => absurd one absent, fun one => absurd one absent⟩, ⟨by simp, by simp, fun one => absurd one absent⟩, ?_⟩
  · rw [nPos]
    simp [IsGroupBitmap, groupSizeBlocks]
  · rw [info]
    decide
  have inv' := (BTreeNode.format_treeInv h).of_same frame.superblock frame.size (frame.same _ (by rw [tree]; decide))
  have hasRoot : BTreeNode.newTree 2 = some 4 := by decide
  have lookup := lookup_of_treeInv inv' hasRoot
  rwa [frame.superblock, tree] at lookup

def onePage : Pages := ⟨[0], Bytes.zero⟩

theorem hundredBytes_write {n : Nat} (ok : ((format 0 (blankPartition 128)).bind fun r =>
    write 1 2 0 n onePage (withHundredBytes r.2)).map (·.1.isOk) = some true) : ∃ v fuel node written v',
    InodeFile v {2, 3, 4} {2} 2 4 ∧ v.infoOf 4 = hundredBytesInfo ∧
      write fuel 2 0 n onePage v = some (.ok (node, written), v') := by
  obtain ⟨v, formatted⟩ : ∃ v, format 0 (blankPartition 128) = some (.ok (), v) :=
    format_total (by decide) (by decide)
  rw [formatted] at ok
  obtain ⟨⟨_ | ⟨node, written⟩, v'⟩, run, ok⟩ := Option.map_eq_some_iff.mp ok
  · cases ok
  exact ⟨_, 1, node, written, v', hundredBytes_file formatted, hundredBytes_info v, run⟩

end MeowOs.Rfs2
