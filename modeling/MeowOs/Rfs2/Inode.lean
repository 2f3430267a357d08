import MeowOs.KernelError
import MeowOs.Rfs2.Volume

/-! # Inode headers (`rfs2/operations/mod.rs`)

The first sector of a file's root block holds its `InodeInfo`; the other seven
sectors hold the file's data or its block pointers.
-/

namespace MeowOs

namespace Rfs2

open MeowOs.Machine

def newDir (perms : Nat) : Nat := (1 <<< 24) ||| perms

def isDir (typeFlags : Nat) : Bool := typeFlags >>> 24 == 1

structure InodeInfo where
  size : Nat
  levels : Nat
  typeFlags : Nat
  ownerUid : Nat
  ownerGid : Nat
  linkCount : Nat
  creationSecondsSinceEpoch : Nat
  modificationSecondsSinceEpoch : Nat
  statChangeSecondsSinceEpoch : Nat
  deriving DecidableEq, Repr

namespace InodeInfo

/-- The record as it lies in memory (`repr(C)`), written over `b`. -/
def store (info : InodeInfo) (b : Bytes) : Bytes :=
  ((((((((b.writeLE 0 8 info.size).writeLE 8 1 info.levels).writeLE 12 4 info.typeFlags).writeLE
    16 2 info.ownerUid).writeLE 18 2 info.ownerGid).writeLE 20 2 info.linkCount).writeLE
    24 8 info.creationSecondsSinceEpoch).writeLE 32 8 info.modificationSecondsSinceEpoch).writeLE
    40 8 info.statChangeSecondsSinceEpoch

def load (b : Bytes) : InodeInfo where
  size := b.readLE 0 8
  levels := b.readLE 8 1
  typeFlags := b.readLE 12 4
  ownerUid := b.readLE 16 2
  ownerGid := b.readLE 18 2
  linkCount := b.readLE 20 2
  creationSecondsSinceEpoch := b.readLE 24 8
  modificationSecondsSinceEpoch := b.readLE 32 8
  statChangeSecondsSinceEpoch := b.readLE 40 8

/-- Every field is in the range of its machine type. -/
structure Fits (info : InodeInfo) : Prop where
  size : info.size < 256 ^ 8
  levels : info.levels < 256 ^ 1
  typeFlags : info.typeFlags < 256 ^ 4
  ownerUid : info.ownerUid < 256 ^ 2
  ownerGid : info.ownerGid < 256 ^ 2
  linkCount : info.linkCount < 256 ^ 2
  creation : info.creationSecondsSinceEpoch < 256 ^ 8
  modification : info.modificationSecondsSinceEpoch < 256 ^ 8
  statChange : info.statChangeSecondsSinceEpoch < 256 ^ 8

theorem load_store {info : InodeInfo} (h : info.Fits) (b : Bytes) : load (info.store b) = info := by
  obtain ⟨run1, run2, run3, run4, run5, run6, run7, run8, run9⟩ := h
  cases info
  simp only [load, store, Bytes.readLE_writeLE, Bytes.readLE_writeLE_disjoint, Nat.reduceAdd,
    Nat.reduceLeDiff, true_or, mk.injEq]
  exact ⟨Nat.mod_eq_of_lt run1, Nat.mod_eq_of_lt run2, Nat.mod_eq_of_lt run3, Nat.mod_eq_of_lt run4,
    Nat.mod_eq_of_lt run5, Nat.mod_eq_of_lt run6, Nat.mod_eq_of_lt run7, Nat.mod_eq_of_lt run8, Nat.mod_eq_of_lt run9⟩

theorem store_congr (info : InodeInfo) {b b' : Bytes} {a : Nat} (h : b' a = b a) :
    info.store b' a = info.store b a := by
  simp [store, Bytes.writeLE, h]

theorem load_congr {b b' : Bytes} (h : ∀ a < 48, b' a = b a) : load b' = load b := by
  have word : ∀ off w, off + w ≤ 48 → b'.readLE off w = b.readLE off w := fun off w inside =>
    Bytes.readLE_congr fun k kLt => h (off + k) (by omega)
  simp only [load, word _ _ (by norm_num : 0 + 8 ≤ 48), word _ _ (by norm_num : 8 + 1 ≤ 48),
    word _ _ (by norm_num : 12 + 4 ≤ 48), word _ _ (by norm_num : 16 + 2 ≤ 48),
    word _ _ (by norm_num : 18 + 2 ≤ 48), word _ _ (by norm_num : 20 + 2 ≤ 48),
    word _ _ (by norm_num : 24 + 8 ≤ 48), word _ _ (by norm_num : 32 + 8 ≤ 48), word _ _ (by norm_num : 40 + 8 ≤ 48)]

end InodeInfo

/-! ## Reading and writing the header -/

def getFileInfo (fileRoot : Nat) : Prog Rfs2 InodeInfo := do
  let workingBuffer ← WorkingBlock.new
  let data ← partitionRead (fileRoot * blockSizeSectors) 1 workingBuffer.data
  workingBuffer.forgetMemBinding
  return InodeInfo.load data

-- the whole first sector is written, header and whatever else the frame holds
def setFileInfo (fileRoot : Nat) (info : InodeInfo) : Prog Rfs2 Unit := do
  let workingBuffer ← WorkingBlock.new
  let workingBuffer := workingBuffer.getAsMut info.store
  partitionWrite (fileRoot * blockSizeSectors) 1 workingBuffer.data
  workingBuffer.forgetMemBinding

end Rfs2

end MeowOs
