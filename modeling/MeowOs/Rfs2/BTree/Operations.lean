import MeowOs.Rfs2.BlockAllocation
import MeowOs.Rfs2.BTree.Node

/-! # Search, insertion and removal (`rfs2/btree/{find,insert,remove}.rs`)

The functions follow pointers that they read from disk, so a damaged tree may
keep them going for ever; the first argument of a recursive function is the
depth it may still descend, and a call that would go deeper does not return.

A node that the source changes through a reference into a working block is passed
in and returned here, and stored in the block where the block is written.
-/

namespace MeowOs.Rfs2

open MeowOs.Machine
open Prog (ofOption panic)

def WorkingBlock.saveNode (w : WorkingBlock) (node : BTreeNode) : Prog Rfs2 Unit :=
  (w.getAsMut node.store).writeAndDealloc

namespace BTreeNode

/-! ## find.rs -/

def findInode : Nat → BTreeNode → Nat → Prog Rfs2 (Option Nat)
  | 0, _, _ => panic
  | fuel + 1, self, inodeIndex =>
    -- behind the loop: the last child is returned as if it were the answer
    let last : Prog Rfs2 (Option Nat) :=
      if self.children btreeKeyCnt ≠ 0 then pure (some (self.children btreeKeyCnt)) else pure none
    match position fun i => self.keyIndexes i == 0 || decide (self.keyIndexes i > inodeIndex) ||
        self.keyIndexes i == inodeIndex with
    | none => last
    | some i =>
      if self.keyIndexes i = 0 then last
      else if self.keyIndexes i > inodeIndex then do
        let childPtr := self.children i
        if childPtr = 0 then
          return none
        let childBlock ← getDiskBlock childPtr
        let res ← findInode fuel (load childBlock.data) inodeIndex
        childBlock.forgetMemBinding
        return res
      else pure (some (self.keyPtrs i))

def findInodeRoot (fuel inodeIndex : Nat) : Prog Rfs2 (Option Nat) := do
  let superblock ← getSuperblock
  if superblock.inodeTreeRootPtr = 0 then
    panic
  let rootBlock ← getDiskBlock superblock.inodeTreeRootPtr
  let res ← findInode fuel (load rootBlock.data) inodeIndex
  rootBlock.forgetMemBinding
  return res

/-! ## insert.rs -/

inductive InsertResult where
  | nothing
  | updated
  /-- The pointer is the child to the right of the key. -/
  | tooBig (key : Key) (child : Nat)
  deriving DecidableEq

def insertKeyChild (self : BTreeNode) (key : Key) (block : Nat) : Option BTreeNode := do
  let position ← position fun i => decide (self.keyIndexes i > key.index) || self.keyIndexes i == 0
  let self := loopDown (fun i (self : BTreeNode) =>
    (self.setKey (i + 1) (self.keyIndexes i) (self.keyPtrs i)).setChild (i + 2) (self.children (i + 1)))
    position (btreeKeyCnt - 1 - position) self
  return (self.setKey position key.index key.ptr).setChild (position + 1) block

/-- `for i in (0..n).rev()` of `insert_leaf_non_full`, and the assignments behind the loop. -/
def insertLeafFrom (self : BTreeNode) (index block : Nat) : Nat → BTreeNode
  | 0 => self.setKey 0 index block
  | i + 1 =>
    if self.keyIndexes i = 0 then self.insertLeafFrom index block i
    else if self.keyIndexes i > index then
      -- the key moves up alone, its pointer stays behind
      insertLeafFrom { self with
        keyIndexes := Function.update self.keyIndexes (i + 1) (self.keyIndexes i) } index block i
    else self.setKey (i + 1) index block

def insertLeafNonFull (self : BTreeNode) (index block : Nat) : BTreeNode :=
  self.insertLeafFrom index block (btreeKeyCnt - 1)

def upperHalf (child newNode : BTreeNode) : BTreeNode :=
  let newNode := loopUp (fun i (newNode : BTreeNode) =>
    let newIndex := i - btreeKeyCnt / 2 - 1
    (newNode.setKey newIndex (child.keyIndexes i) (child.keyPtrs i)).setChild newIndex (child.children i))
    (btreeKeyCnt / 2 + 1) (btreeKeyCnt - (btreeKeyCnt / 2 + 1)) newNode
  newNode.setChild (btreeKeyCnt - btreeKeyCnt / 2) (child.children btreeKeyCnt)

def makeRoom (parent : BTreeNode) (childIndex : Nat) : BTreeNode :=
  loopDown (fun i (parent : BTreeNode) =>
    (parent.setKey i (parent.keyIndexes (i - 1)) (parent.keyPtrs (i - 1))).setChild (i + 1)
      (parent.children i)) (childIndex + 1) (btreeKeyCnt - (childIndex + 1)) parent

/-- Splits off the upper half of `child`; returns what happened to `parent`, and `parent`. -/
def split (parent : BTreeNode) (childIndex : Nat) (child : BTreeNode) : Prog Rfs2 (InsertResult × BTreeNode) := do
  let newNodeBlock ← newDiskBlock
  let newNodeDiskBlock ← ofOption newNodeBlock.diskBlock
  let newNode := (load newNodeBlock.data).zeroed
  let splitKeyIndex := child.keyIndexes (btreeKeyCnt / 2)
  let splitKeyPtr := child.keyPtrs (btreeKeyCnt / 2)
  newNodeBlock.saveNode (upperHalf child newNode)
  if parent.keyIndexes (btreeKeyCnt - 1) ≠ 0 then
    return (.tooBig { index := splitKeyIndex, ptr := splitKeyPtr } newNodeDiskBlock, parent)
  let parent := parent.makeRoom childIndex
  -- `parent.key_indexes[child_index]` is out of bounds for the last child
  if btreeKeyCnt ≤ childIndex then
    panic
  return (.updated, (parent.setKey childIndex splitKeyIndex splitKeyPtr).setChild (childIndex + 1) newNodeDiskBlock)

/-- `insert_inode` once the child at `position` reported `TooBig`. -/
def insertOverflow (self : BTreeNode) (position index : Nat) (childBlock : WorkingBlock)
    (childNode : BTreeNode) (insertFailKey : Key) (insertFailChild : Nat) : Prog Rfs2 (InsertResult × BTreeNode) := do
  if position > 0 then
    let leftSiblingBlock ← getDiskBlock (self.children (position - 1))
    match tryRotateRight self (position - 1) (load leftSiblingBlock.data) childNode with
    | some (self, leftSiblingNode, childNode) =>
      if self.keyIndexes (position - 1) > index then
        let leftSiblingNode ← ofOption (leftSiblingNode.insertKeyChild insertFailKey insertFailChild)
        leftSiblingBlock.saveNode leftSiblingNode
        childBlock.saveNode childNode
      else
        let childNode ← ofOption (childNode.insertKeyChild insertFailKey insertFailChild)
        leftSiblingBlock.saveNode leftSiblingNode
        childBlock.saveNode childNode
      return (.updated, self)
    | none => leftSiblingBlock.drop
  else
    let rightSiblingBlock ← getDiskBlock (self.children (position + 1))
    -- the right sibling is handed over as the left one
    match tryRotateRight self position (load rightSiblingBlock.data) childNode with
    | some (self, rightSiblingNode, childNode) =>
      if self.keyIndexes position < index then
        let rightSiblingNode ← ofOption (rightSiblingNode.insertKeyChild insertFailKey insertFailChild)
        rightSiblingBlock.saveNode rightSiblingNode
        childBlock.saveNode childNode
      else
        let childNode ← ofOption (childNode.insertKeyChild insertFailKey insertFailChild)
        rightSiblingBlock.saveNode rightSiblingNode
        childBlock.saveNode childNode
      return (.updated, self)
    | none => rightSiblingBlock.drop
  let (res, self) ← split self position childNode
  match res with
  | .nothing => panic
  | .tooBig newFailKey newFailChild =>
    if newFailKey.index > insertFailKey.index then
      let childNode ← ofOption (childNode.insertKeyChild insertFailKey insertFailChild)
      childBlock.saveNode childNode
    else
      let toInsertInto ← getDiskBlock newFailChild
      let toInsertIntoNode ← ofOption
        ((load toInsertInto.data).insertKeyChild insertFailKey insertFailChild)
      toInsertInto.saveNode toInsertIntoNode
      childBlock.saveNode childNode
    return (.tooBig newFailKey newFailChild, self)
  | .updated =>
    if self.keyIndexes position > insertFailKey.index then
      let childNode ← ofOption (childNode.insertKeyChild insertFailKey insertFailChild)
      childBlock.saveNode childNode
    else
      let rightSiblingBlock ← getDiskBlock (self.children (position + 1))
      let rightSiblingNode ← ofOption
        ((load rightSiblingBlock.data).insertKeyChild insertFailKey insertFailChild)
      rightSiblingBlock.saveNode rightSiblingNode
      childBlock.saveNode childNode
    return (.updated, self)

/-- `insert_inode` where the loop over the keys did not find `index`. -/
def insertNew (insertChild : BTreeNode → Prog Rfs2 (InsertResult × BTreeNode)) (self : BTreeNode)
    (index block : Nat) : Prog Rfs2 (InsertResult × BTreeNode) :=
  if self.getState.2 = .leaf then
    if self.getState.1 = .full then pure (.tooBig { index, ptr := block } 0, self)
    else pure (.updated, self.insertLeafNonFull index block)
  else do
    let position := (position fun i => decide (self.keyIndexes i > index)).getD btreeKeyCnt
    let childBlock ← getDiskBlock (self.children position)
    let (insertRes, childNode) ← insertChild (load childBlock.data)
    match insertRes with
    | .nothing =>
      let childBlock := childBlock.getAsMut childNode.store
      { childBlock with changed := false }.writeAndDealloc
      return (.nothing, self)
    | .updated =>
      childBlock.saveNode childNode
      return (.nothing, self)
    | .tooBig insertFailKey insertFailChild =>
      insertOverflow self position index childBlock childNode insertFailKey insertFailChild

def insertInode : Nat → BTreeNode → Nat → Nat → Prog Rfs2 (InsertResult × BTreeNode)
  | 0, _, _, _ => panic
  | fuel + 1, self, index, block =>
    let insertNew := insertNew (fun child => insertInode fuel child index block) self index block
    match position fun i => self.keyIndexes i == index || self.keyIndexes i == 0 with
    | none => insertNew
    | some i =>
      if self.keyIndexes i = index then
        pure (.updated, self.setPtr i block)
      else insertNew

/-- `insert_inode_root` once the root reported `TooBig`: a new root above the old one. -/
def insertRootOverflow (superblock : SuperBlock) (rootBlock : WorkingBlock) (rootNode : BTreeNode)
    (key : Key) (child : Nat) : Prog Rfs2 Unit := do
  let newBlock ← newDiskBlock
  let newBlockDiskBlock ← ofOption newBlock.diskBlock
  let newNode := (load newBlock.data).zeroed
  let newNode := newNode.setChild 0 superblock.inodeTreeRootPtr
  updateSuperblock { superblock with inodeTreeRootPtr := newBlockDiskBlock }
  let (_, newNode) ← split newNode 0 rootNode
  if newNode.keyIndexes 0 > key.index then
    let rootNode ← ofOption (rootNode.insertKeyChild key child)
    rootBlock.saveNode rootNode
  else
    let rightChild ← getDiskBlock (newNode.children 1)
    let rightNode ← ofOption ((load rightChild.data).insertKeyChild key child)
    rightChild.saveNode rightNode
    rootBlock.saveNode rootNode
  newBlock.saveNode newNode

def insertInodeRoot (fuel index block : Nat) : Prog Rfs2 Unit := do
  let superblock ← getSuperblock
  if superblock.inodeTreeRootPtr = 0 then
    panic
  let rootBlock ← getDiskBlock superblock.inodeTreeRootPtr
  let (res, rootNode) ← insertInode fuel (load rootBlock.data) index block
  match res with
  | .tooBig key child => insertRootOverflow superblock rootBlock rootNode key child
  | .updated => rootBlock.saveNode rootNode
  | .nothing =>
    let rootBlock := rootBlock.getAsMut rootNode.store
    { rootBlock with changed := false }.writeAndDealloc

/-! ## remove.rs -/

inductive RemoveResult where
  | nothing | updated | tooShort
  deriving DecidableEq

def shiftKeysDown (self : BTreeNode) (i : Nat) : BTreeNode :=
  loopUp (fun j (self : BTreeNode) => self.setKey j (self.keyIndexes (j + 1)) (self.keyPtrs (j + 1))) i
    (btreeKeyCnt - 1 - i) self

def removeLeafNonEmpty (self : BTreeNode) (index : Nat) : Option ((Nat × RemoveResult) × BTreeNode) :=
  match position fun i => self.keyIndexes i == index || self.keyIndexes i == 0 with
  | none => none
  | some i =>
    if self.keyIndexes i = index then
      let block := self.keyPtrs i
      let self := (self.shiftKeysDown i).setKey (btreeKeyCnt - 1) 0 0
      if self.keyIndexes (btreeKeyCnt / 2 - 1) = 0 then some ((block, .tooShort), self)
      else some ((block, .updated), self)
    else none

def tryMergeRtl (parent : BTreeNode) (keyIndex : Nat) (left right : BTreeNode) : Option (BTreeNode × BTreeNode) :=
  let leftKeyCnt := left.getNumKeys
  let rightKeyCnt := right.getNumKeys
  if leftKeyCnt + rightKeyCnt + 1 > btreeKeyCnt then none
  else
    let left := left.setKey leftKeyCnt (parent.keyIndexes keyIndex) (parent.keyPtrs keyIndex)
    let left := loopUp (fun i (left : BTreeNode) =>
      (left.setChild (i + leftKeyCnt + 1) (right.children i)).setKey (i + leftKeyCnt + 1)
        (right.keyIndexes i) (right.keyPtrs i)) 0 rightKeyCnt left
    let left := left.setChild (leftKeyCnt + 1 + rightKeyCnt) (right.children rightKeyCnt)
    let parent := loopUp (fun i (parent : BTreeNode) =>
      (parent.setKey i (parent.keyIndexes (i + 1)) (parent.keyPtrs (i + 1))).setChild (i + 1)
        (parent.children (i + 2))) keyIndex (btreeKeyCnt - 1 - keyIndex) parent
    some ((parent.setKey (btreeKeyCnt - 1) 0 0).setChild btreeKeyCnt 0, left)

/-- The left block becomes invalid; `right` takes over its merged contents. -/
def tryMergeLtr (parent : BTreeNode) (keyIndex : Nat) (left right : BTreeNode) :
    Option (BTreeNode × BTreeNode × BTreeNode) := do
  let rightPtr := parent.children (keyIndex + 1)
  let (parent, left) ← tryMergeRtl parent keyIndex left right
  return (parent.setChild keyIndex rightPtr, left, left)

/-- The state of `self` after `handle_short_child` merged two of its children. -/
def mergeResult (self : BTreeNode) : RemoveResult :=
  if self.getState.1 = .tooShort then .tooShort else .updated

def handleShortChild (self child : BTreeNode) (childIndex : Nat) :
    Prog Rfs2 (RemoveResult × BTreeNode × BTreeNode) := do
  if childIndex > 0 then
    let leftChildPtr := self.children (childIndex - 1)
    let leftChildBlock ← getDiskBlock leftChildPtr
    let leftChild := load leftChildBlock.data
    match tryRotateRight self (childIndex - 1) leftChild child with
    | some (self, leftChild, child) =>
      leftChildBlock.saveNode leftChild
      return (.updated, self, child)
    | none =>
      match tryMergeLtr self (childIndex - 1) leftChild child with
      | some (self, leftChild, child) =>
        releaseBlock leftChildPtr
        (leftChildBlock.getAsMut leftChild.store).forgetMemBinding
        return (self.mergeResult, self, child)
      | none => panic
  else
    let rightChildPtr := self.children (childIndex + 1)
    let rightChildBlock ← getDiskBlock rightChildPtr
    let rightChild := load rightChildBlock.data
    match tryRotateLeft self childIndex child rightChild with
    | some (self, child, rightChild) =>
      rightChildBlock.saveNode rightChild
      return (.updated, self, child)
    | none =>
      match tryMergeRtl self childIndex child rightChild with
      | some (self, child) =>
        releaseBlock rightChildPtr
        (rightChildBlock.getAsMut rightChild.store).forgetMemBinding
        return (self.mergeResult, self, child)
      | none => panic

def takeFirstFrom (self : BTreeNode) (i : Nat) : Nat → BTreeNode
  | 0 => self
  | n + 1 =>
    if self.keyIndexes (i + 1) = 0 then self.setKey i 0 0
    else (self.setKey i (self.keyIndexes (i + 1)) (self.keyPtrs (i + 1))).takeFirstFrom (i + 1) n

def takenKeyIndex (self : BTreeNode) (largest : Bool) : Nat :=
  if largest then (position fun i => self.keyIndexes i == 0).getD btreeKeyCnt - 1 else 0

def takeLeafKey (self : BTreeNode) (isLowerLimit largest : Bool) : (Key × RemoveResult) × BTreeNode :=
  let keyIndex := self.takenKeyIndex largest
  let key : Key := { index := self.keyIndexes keyIndex, ptr := self.keyPtrs keyIndex }
  let self := if largest then self.setKey keyIndex 0 0 else self.takeFirstFrom 0 (btreeKeyCnt - 1)
  ((key, if isLowerLimit then .tooShort else .updated), self)

def takeNonLeafKey (takeFromChild : BTreeNode → Prog Rfs2 (Option (Key × RemoveResult) × BTreeNode))
    (self : BTreeNode) (largest : Bool) : Prog Rfs2 (Option (Key × RemoveResult) × BTreeNode) := do
  let keyIndex := self.takenKeyIndex largest
  let childIndex := if largest then keyIndex + 1 else keyIndex
  let childBlock ← getDiskBlock (self.children childIndex)
  let (result, childNode) ← takeFromChild (load childBlock.data)
  let (key, removeResult) ← ofOption result
  match removeResult with
  | .tooShort =>
    let (childResult, self, childNode) ← handleShortChild self childNode childIndex
    childBlock.saveNode childNode
    return (some (key, childResult), self)
  | .updated =>
    childBlock.saveNode childNode
    return (some (key, .nothing), self)
  | .nothing =>
    (childBlock.getAsMut childNode.store).forgetMemBinding
    return (some (key, .nothing), self)

def takeKey (largest : Bool) : Nat → BTreeNode → Prog Rfs2 (Option (Key × RemoveResult) × BTreeNode)
  | 0, _ => panic
  | fuel + 1, self =>
    if self.getState.1 = .empty then pure (none, self)
    else if self.getState.2 = .leaf then
      let (taken, self) := self.takeLeafKey (self.getState.1 = .lowerLimit) largest
      pure (some taken, self)
    else takeNonLeafKey (takeKey largest fuel) self largest

def takeLargestKey : Nat → BTreeNode → Prog Rfs2 (Option (Key × RemoveResult) × BTreeNode) :=
  takeKey true

def takeSmallestKey : Nat → BTreeNode → Prog Rfs2 (Option (Key × RemoveResult) × BTreeNode) :=
  takeKey false

/-- `remove_key` where key `i` of an inner node is the one to remove. -/
def removeInner (fuel : Nat) (self : BTreeNode) (i : Nat) : Prog Rfs2 (Option (Nat × RemoveResult) × BTreeNode) := do
  let block := self.keyPtrs i
  let self := self.shiftKeysDown i
  let childBlock ← getDiskBlock (self.children i)
  let (childResult, childNode) ← takeLargestKey fuel (load childBlock.data)
  let (key, removeResult) ← ofOption childResult
  -- the key from below goes to the last slot, not to slot `i`
  let self := self.setKey (btreeKeyCnt - 1) key.index key.ptr
  match removeResult with
  | .tooShort =>
    let (handlingResult, self, childNode) ← handleShortChild self childNode i
    if handlingResult = .tooShort then
      childBlock.saveNode childNode
      return (some (block, .tooShort), self)
    childBlock.drop
    return (some (block, .updated), self)
  | .updated =>
    childBlock.saveNode childNode
    return (some (block, .updated), self)
  | .nothing =>
    (childBlock.getAsMut childNode.store).forgetMemBinding
    return (some (block, .updated), self)

/-- `remove_key` where the key belongs to the subtree left of key `i` of an inner node. -/
def removeBelow (removeFromChild : BTreeNode → Prog Rfs2 (Option (Nat × RemoveResult) × BTreeNode))
    (self : BTreeNode) (i : Nat) : Prog Rfs2 (Option (Nat × RemoveResult) × BTreeNode) := do
  let childBlock ← getDiskBlock (self.children i)
  let (result, childNode) ← removeFromChild (load childBlock.data)
  match result with
  | none =>
    (childBlock.getAsMut childNode.store).forgetMemBinding
    return (none, self)
  | some (block, .tooShort) =>
    let (childResult, self, childNode) ← handleShortChild self childNode i
    childBlock.saveNode childNode
    return (some (block, childResult), self)
  | some (block, .updated) =>
    childBlock.saveNode childNode
    return (some (block, .nothing), self)
  | some (block, .nothing) =>
    (childBlock.getAsMut childNode.store).forgetMemBinding
    return (some (block, .nothing), self)

def removeKey : Nat → BTreeNode → Nat → Prog Rfs2 (Option (Nat × RemoveResult) × BTreeNode)
  | 0, _, _ => panic
  | fuel + 1, self, index =>
    if self.getState.1 = .empty then pure (none, self)
    else if self.getState.2 = .leaf then
      match self.removeLeafNonEmpty index with
      | some (removed, self) => pure (some removed, self)
      | none => pure (none, self)
    else
      match position fun i => self.keyIndexes i == index || decide (self.keyIndexes i > index) ||
          self.keyIndexes i == 0 with
      | none => pure (none, self)
      | some i =>
        if self.keyIndexes i = index then removeInner fuel self i
        else if self.keyIndexes i > index then
          removeBelow (fun child => removeKey fuel child index) self i
        else pure (none, self)

def removeKeyRoot (fuel inodeIndex : Nat) : Prog Rfs2 (Option Nat) := do
  let superblock ← getSuperblock
  if superblock.inodeTreeRootPtr = 0 then
    panic
  let rootBlock ← getDiskBlock superblock.inodeTreeRootPtr
  let (result, rootNode) ← removeKey fuel (load rootBlock.data) inodeIndex
  -- the mutable borrow of the root marked its block as changed
  let rootBlock := rootBlock.getAsMut rootNode.store
  match result with
  | none =>
    rootBlock.forgetMemBinding
    return none
  | some (block, rmvRes) =>
    if rootNode.keyIndexes 0 = 0 then
      updateSuperblock { superblock with inodeTreeRootPtr := rootNode.children 0 }
      releaseBlock superblock.inodeTreeRootPtr
      rootBlock.forgetMemBinding
    else if rmvRes = .updated ∨ rmvRes = .tooShort then
      rootBlock.writeAndDealloc
    else
      rootBlock.forgetMemBinding
    return some block

end BTreeNode

end MeowOs.Rfs2
