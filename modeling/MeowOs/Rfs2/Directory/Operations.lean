import MeowOs.Rfs2.File.Operations
import MeowOs.Rfs2.InodeAllocation

/-! # Directories (`rfs2/operations/{mod,dir_ops}.rs`)

A directory is a file of 256-byte entries.  `read_direntries` reads them all,
with one more entry at the end for the caller to fill, and the caller writes the
buffer back.

In the source the entries are a slice of the buffer they were read into.  Here
they are a list, which `storeEntries` puts back into the buffer.

`link` looks up the root block of the parent.  `unlink` and `rename` do not:
they take the inode number of the parent for a block number.  `unlink` counts
the link down in a copy of the header that is never written.
-/

namespace MeowOs.Rfs2

open MeowOs.Machine

/-! ## Entries -/

structure DirEntry where
  inode : Nat
  len : Nat
  name : Vector UInt8 251
  deriving DecidableEq, Repr

namespace DirEntry

def load (b : Bytes) : DirEntry where
  inode := b.readLE 0 4
  len := b.readLE 4 1
  name := Vector.ofFn fun j => b (5 + j)

def bytes (entry : DirEntry) : Bytes :=
  ((Bytes.zero.writeLE 0 4 entry.inode).writeLE 4 1 entry.len).blit 5 251 fun j => entry.name[j]?.getD 0

-- the slice of the stored name panics behind its 251 bytes
def isName (name : List UInt8) (entry : DirEntry) : Prog Rfs2 Bool :=
  if name.length ≠ entry.len then pure false
  else do
    Prog.assert (name.length ≤ 251)
    return entry.name.toList.take name.length == name

def setName (name : List UInt8) (entry : DirEntry) : Prog Rfs2 DirEntry := do
  Prog.assert (name.length ≤ 251)
  return { entry with
    len := name.length % 2 ^ 8
    name := Vector.ofFn fun j => name[(j : Nat)]?.getD entry.name[j] }

end DirEntry

def dirEntrySize : Nat := 256

def entryAt (b : Bytes) (i : Nat) : DirEntry := DirEntry.load (b.shift (dirEntrySize * i))

def storeEntries (entries : List DirEntry) (b : Bytes) : Bytes := fun a =>
  match entries[a / dirEntrySize]? with
  | some entry => entry.bytes (a % dirEntrySize)
  | none => b a

/-! ## dir_ops.rs -/

def allocateContiguous (pages : Nat) : Prog Rfs2 Pages := do
  let frame ← allocateFrame
  return ⟨(List.range pages).map (· * 4096), frame⟩

/-- The entry for the caller to fill; its length is whatever the buffer held. -/
def spareEntry (b : Bytes) (i : Nat) : DirEntry :=
  { entryAt b i with inode := 0, name := Vector.replicate 251 0 }

def readDirentries (dirRoot : Nat) : Prog Rfs2 (Pages × List DirEntry) := do
  let dirInfo ← getFileInfo dirRoot
  Prog.assert (dirInfo.size + dirEntrySize < 2 ^ 64)
  let sizePages := (dirInfo.size + dirEntrySize + 4095) / 4096
  let buf ← allocateContiguous (sizePages % 2 ^ 32)
  match ← readLocked dirRoot 0 dirInfo.size buf with
  | .error _ => Prog.panic
  | .ok (_, data) =>
    let entries := dirInfo.size / dirEntrySize
    return ({ buf with data }, (List.range entries).map (entryAt data) ++ [spareEntry data entries])

def writeDirentries (dirRoot : Nat) (buffer : Pages) (numEntries : Nat) : Prog Rfs2 Unit := do
  match ← writeLocked dirRoot 0 (numEntries * dirEntrySize) buffer with
  | .error _ => Prog.panic
  | .ok _ => truncateLocked dirRoot (numEntries * dirEntrySize)

def Pages.withEntries (buffer : Pages) (entries : List DirEntry) : Pages :=
  { buffer with data := storeEntries entries buffer.data }

/-! ## mod.rs -/

def nameTaken (name : List UInt8) : List DirEntry → Prog Rfs2 Bool
  | [] => pure false
  | entry :: entries =>
    if entry.inode = 0 then nameTaken name entries
    else do
      match ← entry.isName name with
      | true => return true
      | false => nameTaken name entries

/-- `entries.iter_mut().position(|ent| ent.is_name(name))`, from index `i` on. -/
def namePosition (name : List UInt8) : Nat → List DirEntry → Prog Rfs2 (Option Nat)
  | _, [] => pure none
  | i, entry :: entries => do
    match ← entry.isName name with
    | true => return some i
    | false => namePosition name (i + 1) entries

/-- The checks in front of `link`, `unlink` and `rename`. -/
def validName (name : List UInt8) : Bool := name.length ≤ 256 && !name.isEmpty

def countLink (childInode childRoot parentInode parentRoot : Nat) :
    Prog Rfs2 (Except KernelErrorCode (VfsInode × VfsInode)) := do
  let childInfo ← getFileInfo childRoot
  Prog.assert (childInfo.linkCount + 1 < 2 ^ 16)
  let childInfo := { childInfo with linkCount := childInfo.linkCount + 1 }
  setFileInfo childRoot childInfo
  let parentInfo ← getFileInfo parentRoot
  return .ok (parentInfo.intoVfs parentInode, childInfo.intoVfs childInode)

/-- The part of `link` behind the lookups. -/
def linkAt (childInode childRoot parentInode parentRoot : Nat) (name : List UInt8) :
    Prog Rfs2 (Except KernelErrorCode (VfsInode × VfsInode)) := do
  let (binding, entries) ← readDirentries parentRoot
  match ← nameTaken name entries with
  | true => return .error .invalidArgument
  | false =>
    let last ← Prog.ofOption entries.getLast?
    let last ← { last with inode := childInode }.setName name
    let entries := entries.dropLast ++ [last]
    writeDirentries parentRoot (binding.withEntries entries) entries.length
    countLink childInode childRoot parentInode parentRoot

def link (fuel childInode parentInode : Nat) (name : List UInt8) :
    Prog Rfs2 (Except KernelErrorCode (VfsInode × VfsInode)) := do
  if !validName name then
    return .error .invalidArgument
  match ← BTreeNode.findInodeRoot fuel (childInode % 2 ^ 32) with
  | none => return .error .inodeNotPresent
  | some _ =>
    match ← getFileRootBlock fuel (parentInode % 2 ^ 32) with
    | .error e => return .error e
    | .ok parentRoot =>
      match ← getFileRootBlock fuel (childInode % 2 ^ 32) with
      | .error e => return .error e
      | .ok childRoot => linkAt (childInode % 2 ^ 32) childRoot (parentInode % 2 ^ 32) parentRoot name

def newInodeInfo (typeMode : UInt32) (uid gid : UInt16) (sinceEpoch : UInt64) : InodeInfo where
  size := 0
  levels := 0
  typeFlags := typeMode.toNat
  ownerUid := uid.toNat
  ownerGid := gid.toNat
  linkCount := 0
  creationSecondsSinceEpoch := sinceEpoch.toNat
  modificationSecondsSinceEpoch := sinceEpoch.toNat
  statChangeSecondsSinceEpoch := sinceEpoch.toNat

/-- When the link fails, the block and the number are given back, but the key stays in the inode
tree. -/
def create (fuel : Nat) (name : List UInt8) (parentDir : Nat) (typeMode : UInt32) (uid gid : UInt16)
    (sinceEpoch : UInt64) : Prog Rfs2 (Except KernelErrorCode (VfsInode × VfsInode)) := do
  let newBlock ← allocateBlock
  let newInode ← allocateInode fuel
  BTreeNode.insertInodeRoot fuel newInode newBlock
  setFileInfo newBlock (newInodeInfo typeMode uid gid sinceEpoch)
  match ← link fuel newInode parentDir name with
  | .error e =>
    releaseBlock newBlock
    releaseInode newInode
    return .error e
  | .ok inodes => return .ok inodes

def unlink (fuel parentInode : Nat) (name : List UInt8) : Prog Rfs2 (Except KernelErrorCode (VfsInode × VfsInode)) := do
  if !validName name then
    return .error .invalidArgument
  -- the inode number goes in as a block number
  let (binding, entries) ← readDirentries parentInode
  match ← namePosition name 0 entries with
  | none => return .error .inodeNotPresent
  | some pos =>
    let entry ← Prog.ofOption entries[pos]?
    let childInode := entry.inode
    Prog.assert (2 ≤ entries.length)
    let moved ← Prog.ofOption entries[entries.length - 2]?
    let entries := entries.set pos moved
    let last ← Prog.ofOption entries[entries.length - 1]?
    let entries := entries.set (entries.length - 2) last
    writeDirentries parentInode (binding.withEntries entries) (entries.length - 2)
    match ← getFileRootBlock fuel (parentInode % 2 ^ 32) with
    | .error e => return .error e
    | .ok parentRoot =>
      let parentInfo ← getFileInfo parentRoot
      match ← getFileRootBlock fuel childInode with
      | .error e => return .error e
      | .ok childRoot =>
        let childInfo ← getFileInfo childRoot
        Prog.assert (1 ≤ childInfo.linkCount)
        let childInfo := { childInfo with linkCount := childInfo.linkCount - 1 }
        return .ok (parentInfo.intoVfs (parentInode % 2 ^ 32), childInfo.intoVfs childInode)

def rename (inode parentInode : Nat) (name : List UInt8) : Prog Rfs2 (Except KernelErrorCode Unit) := do
  if !validName name then
    return .error .invalidArgument
  let (binding, entries) ← readDirentries parentInode
  match entries.findIdx? (·.inode == inode % 2 ^ 32) with
  | none => return .error .inodeNotPresent
  | some pos =>
    let entry ← Prog.ofOption entries[pos]?
    let entry ← entry.setName name
    let entries := entries.set pos entry
    writeDirentries parentInode (binding.withEntries entries) (entries.length - 1)
    return .ok ()

end MeowOs.Rfs2
