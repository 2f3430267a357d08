import MeowOs.Machine.Interleaving
import MeowOs.Vfs.FsTree

/-! # Opening files relative to a directory

`open_file` resolves a path and records the chain of its inodes in the handle.
A path can also be opened relative to an open directory or to the current
directory of a process: the chain that the lookup starts from is then rebuilt
from the handle.  The chain in the handle already ends at the directory, and the
rebuilding appends the directory once more (`fileSource_of_names`), so the first
`..` that leaves the directory only drops the copy.  A relative path therefore
leads where the absolute path without that `..` leads (`reached_relative`).
-/

namespace MeowOs.Files

open MeowOs.Machine
open List (append_assoc append_nil cons_append length_append length_nil reverseRecOn)

/-! ## Opening (`vfs/operations.rs`, `vfs/file.rs`) -/

structure OpenFlags where
  read : Bool
  write : Bool
  append : Bool
  truncate : Bool
deriving DecidableEq, Repr

structure FileFlags where
  read : Bool
  write : Bool
  append : Bool
  dir : Bool
deriving DecidableEq, Repr

structure FileHandle where
  inode : InodeIdentifier
  parentChain : InodeIdentifierChain
  fileFlags : FileFlags
deriving DecidableEq, Repr

def getOpenFile (vfs : Vfs) (s : VfsState) (inodeId parentId : InodeIdentifier) : Except KernelErrorCode Inode :=
  match s.openFiles inodeId with
  | some inode => .ok inode
  | none =>
    match vfs.fileSystem inodeId.deviceId with
    | .error e => .error e
    | .ok fs => fs.stat inodeId.index parentId.index

def openResolved (vfs : Vfs) (s : VfsState) (openFlags : OpenFlags) (inodeIndex : InodeIdentifier)
    (inodeChain : InodeIdentifierChain) : Option (Except KernelErrorCode (Inode × FileHandle)) :=
  let chainLen := inodeChain.length
  let parentInChainIndex := if chainLen = 1 then 0 else chainLen - 2
  match inodeChain[parentInChainIndex]? with
  | none => none
  | some parent =>
    match getOpenFile vfs s inodeIndex parent with
    | .error e => some (.error e)
    | .ok inode =>
      match vfs.fileSystem inode.device with
      | .error e => some (.error e)
      | .ok fs =>
        match fs.fHandleOpen inodeIndex.index with
        | .error e => some (.error e)
        | .ok () =>
          let fileFlags : FileFlags :=
            { read := openFlags.read, write := openFlags.write, append := openFlags.append, dir := inode.isDir }
          some (.ok (inode, { inode := inodeIndex, parentChain := inodeChain, fileFlags }))

def finishOpen (vfs : Vfs) (openFlags : OpenFlags) (resolved : InodeIdentifier × InodeIdentifierChain) :
    Call FileHandle := fun s =>
  match openResolved vfs s openFlags resolved.1 resolved.2 with
  | none => none
  | some (.error e) => some (.error e, s)
  | some (.ok (inode, handle)) =>
    some (.ok handle, { s with openFiles := Function.update s.openFiles handle.inode (some inode) })

def openFile (vfs : Vfs) (path : ResolvedPath) (source : Option InodeIdentifierChain) (openFlags : OpenFlags) :
    Call FileHandle :=
  if openFlags.truncate then Call.ofExcept (.error .invalidOperation)
  else Call.andThen (getInodeChain vfs path source none) (finishOpen vfs openFlags)

/-! ## Chains of handles (`proc/namespaces/filesystem_namespace.rs`) -/

structure FilesystemNamespace where
  openFiles : Nat → Option FileHandle
  cwd : FileHandle

namespace FilesystemNamespace

def getWholeChain (ns : FilesystemNamespace) (fd : Nat) : Option InodeIdentifierChain :=
  match ns.openFiles fd with
  | none => none
  | some handle => some (handle.parentChain ++ [handle.inode])

def getCwdChain (ns : FilesystemNamespace) : InodeIdentifierChain :=
  ns.cwd.parentChain ++ [ns.cwd.inode]

/-- The chain that `fopen` starts from: `u64::MAX` stands for the current directory. -/
def fileSource (ns : FilesystemNamespace) (fdRel : Nat) : Option InodeIdentifierChain :=
  if fdRel = 2 ^ 64 - 1 then some ns.getCwdChain else ns.getWholeChain fdRel

def Names (ns : FilesystemNamespace) (fdRel : Nat) (handle : FileHandle) : Prop :=
  if fdRel = 2 ^ 64 - 1 then ns.cwd = handle else ns.openFiles fdRel = some handle

end FilesystemNamespace

def fopenRelative (vfs : Vfs) (ns : FilesystemNamespace) (path : List Char) (fdRel : Nat) (flags : OpenFlags) :
    Option (Call FileHandle) :=
  match ns.fileSource fdRel with
  | none => none
  | some fileSource => some (openFile vfs (resolvePath path) (some fileSource) flags)

def reached (run : Option (Except KernelErrorCode FileHandle × VfsState)) :
    Option (Except KernelErrorCode InodeIdentifier) :=
  run.map fun result => result.1.map FileHandle.inode

/-! ## Resolving in the tree -/

section Resolve

variable {vfs : Vfs} {namespaceMounts : Option Mounts} {chain : InodeIdentifierChain} {base : InodeIdentifierChain}
  {last : InodeIdentifier}

theorem Vfs.resolve_append (vfs : Vfs) (namespaceMounts : Option Mounts) (chain : InodeIdentifierChain)
    (first second : ResolvedPath) : vfs.resolve namespaceMounts chain (first ++ second) =
      match vfs.resolve namespaceMounts chain first with
      | none => none
      | some (.error e) => some (.error e)
      | some (.ok middle) => vfs.resolve namespaceMounts middle second := by
  induction first generalizing chain with
  | nil => rfl
  | cons component rest ih =>
    rw [cons_append, Vfs.resolve, Vfs.resolve]
    by_cases up : component = dotDot
    · rw [if_pos up, if_pos up]
      exact ih _
    rw [if_neg up, if_neg up]
    cases chain.getLast? with
    | none => rfl
    | some current =>
      dsimp only
      cases vfs.child namespaceMounts current component with
      | none => rfl
      | some answer =>
        cases answer with
        | error e => rfl
        | ok child => exact ih _

theorem Vfs.resolve_ne_nil {path : ResolvedPath} {result : InodeIdentifierChain} (nonempty : chain ≠ [])
    (run : vfs.resolve namespaceMounts chain path = some (.ok result)) : result ≠ [] := by
  induction path generalizing chain with
  | nil =>
    cases run
    exact nonempty
  | cons component rest ih =>
    rw [Vfs.resolve] at run
    split at run
    · refine ih ?_ run
      split
      next long => exact dropLast_ne_nil long
      · exact nonempty
    · split at run
      · cases run
      split at run
      · cases run
      · cases run
      · exact ih (List.append_ne_nil_of_right_ne_nil _ (List.cons_ne_nil _ _)) run

/-- The path without the first `..` that leaves the directory `height` levels above which the walk is. -/
def withoutFirstClimb : Nat → ResolvedPath → ResolvedPath
  | _, [] => []
  | height, component :: rest =>
    if component = dotDot then
      match height with
      | 0 => rest
      | height + 1 => component :: withoutFirstClimb height rest
    else component :: withoutFirstClimb (height + 1) rest

theorem withoutFirstClimb_name {component : Name} (down : component ≠ dotDot) (height : Nat) (rest : ResolvedPath) :
    withoutFirstClimb height (component :: rest) = component :: withoutFirstClimb (height + 1) rest := by
  simp only [withoutFirstClimb, if_neg down]

theorem withoutFirstClimb_leave (rest : ResolvedPath) : withoutFirstClimb 0 (dotDot :: rest) = rest := by
  simp [withoutFirstClimb]

theorem withoutFirstClimb_inside (height : Nat) (rest : ResolvedPath) :
    withoutFirstClimb (height + 1) (dotDot :: rest) = dotDot :: withoutFirstClimb height rest := by
  simp [withoutFirstClimb]

/-- Two chains agree if they are the same, or if one of them repeats the last inode of a common beginning. -/
def SameOrDoubled (base : InodeIdentifierChain) (first second : InodeIdentifierChain) : Prop :=
  first = second ∨ ∃ last extension, base.getLast? = some last ∧ first = base ++ last :: extension ∧
    second = base ++ extension

def ResolveAlike (base : InodeIdentifierChain) :
    Option (Except KernelErrorCode InodeIdentifierChain) → Option (Except KernelErrorCode InodeIdentifierChain) → Prop
  | some (.ok first), some (.ok second) => SameOrDoubled base first second
  | first, second => first = second

theorem ResolveAlike.refl (base : InodeIdentifierChain) (run : Option (Except KernelErrorCode InodeIdentifierChain)) :
    ResolveAlike base run run := by
  match run with
  | none => rfl
  | some (.error e) => rfl
  | some (.ok chain) => exact .inl rfl

theorem getLast?_doubled (ends : base.getLast? = some last)
    (extension : InodeIdentifierChain) : (base ++ last :: extension).getLast? = (base ++ extension).getLast? := by
  cases extension using reverseRecOn with
  | nil => rw [List.getLast?_concat, append_nil, ends]
  | append_singleton shorter inode =>
    rw [← cons_append, ← append_assoc, ← append_assoc, List.getLast?_concat, List.getLast?_concat]

theorem Vfs.resolve_doubled (vfs : Vfs) (namespaceMounts : Option Mounts)
    (ends : base.getLast? = some last) (path : ResolvedPath) (extension : InodeIdentifierChain) :
    ResolveAlike base (vfs.resolve namespaceMounts (base ++ last :: extension) path)
      (vfs.resolve namespaceMounts (base ++ extension) (withoutFirstClimb extension.length path)) := by
  have nonempty : base ≠ [] := by
    rintro rfl
    cases ends
  have long : 0 < base.length := List.length_pos_of_ne_nil nonempty
  induction path generalizing extension with
  | nil => exact .inr ⟨last, extension, ends, rfl, rfl⟩
  | cons component rest ih =>
    by_cases up : component = dotDot
    · subst up
      rw [Vfs.resolve, if_pos rfl, if_pos (by simp only [length_append, List.length_cons]; omega)]
      cases extension using reverseRecOn with
      | nil =>
        -- the climb drops the repeated inode only
        rw [List.dropLast_concat, append_nil, length_nil, withoutFirstClimb_leave]
        exact ResolveAlike.refl base _
      | append_singleton shorter inode =>
        have dropFirst : (base ++ last :: (shorter ++ [inode])).dropLast = base ++ last :: shorter := by
          rw [← cons_append, ← append_assoc, List.dropLast_concat]
        have dropSecond : (base ++ (shorter ++ [inode])).dropLast = base ++ shorter := by
          rw [← append_assoc, List.dropLast_concat]
        rw [length_append, List.length_singleton, withoutFirstClimb_inside, dropFirst, Vfs.resolve, if_pos rfl,
          if_pos (by simp only [length_append, List.length_cons]; omega), dropSecond]
        exact ih shorter
    · rw [withoutFirstClimb_name up, Vfs.resolve, Vfs.resolve, if_neg up, if_neg up, getLast?_doubled ends]
      cases (base ++ extension).getLast? with
      | none => rfl
      | some current =>
        dsimp only
        cases vfs.child namespaceMounts current component with
        | none => rfl
        | some answer =>
          cases answer with
          | error e => rfl
          | ok child =>
            have deeper := ih (extension ++ [child])
            rw [length_append, List.length_singleton] at deeper
            dsimp only
            rwa [append_assoc, cons_append, append_assoc]

end Resolve

/-! ## Opening in the tree -/

section Open

variable {vfs : Vfs} {s s' : VfsState} {openFlags : OpenFlags} {handle : FileHandle}

def openInode (vfs : Vfs) (s : VfsState) (inode parent : InodeIdentifier) : Except KernelErrorCode InodeIdentifier :=
  match getOpenFile vfs s inode parent with
  | .error e => .error e
  | .ok found =>
    match vfs.fileSystem found.device with
    | .error e => .error e
    | .ok fs =>
      match fs.fHandleOpen inode.index with
      | .error e => .error e
      | .ok () => .ok inode

def parentInChain (chain : InodeIdentifierChain) : Option InodeIdentifier :=
  chain[if chain.length = 1 then 0 else chain.length - 2]?

theorem openResolved_inode (vfs : Vfs) (s : VfsState) (openFlags : OpenFlags) (inode : InodeIdentifier)
    (chain : InodeIdentifierChain) :
    (openResolved vfs s openFlags inode chain).map (Except.map fun result => result.2.inode) =
      (parentInChain chain).map (openInode vfs s inode) := by
  rw [openResolved, parentInChain]
  cases chain[if chain.length = 1 then 0 else chain.length - 2]? with
  | none => rfl
  | some parent =>
    dsimp only [Option.map_some]
    rw [openInode]
    cases getOpenFile vfs s inode parent with
    | error e => rfl
    | ok found =>
      dsimp only
      cases vfs.fileSystem found.device with
      | error e => rfl
      | ok fs =>
        dsimp only
        cases fs.fHandleOpen inode.index with
        | error e => rfl
        | ok done => rfl

theorem parentInChain_concat {front : InodeIdentifierChain} (nonempty : front ≠ []) (inode : InodeIdentifier) :
    parentInChain (front ++ [inode]) = front.getLast? := by
  have long : 0 < front.length := List.length_pos_of_ne_nil nonempty
  rw [parentInChain, length_append, List.length_singleton, if_neg (by omega), List.getLast?_eq_getElem?,
    show front.length + 1 - 2 = front.length - 1 by omega, List.getElem?_append_left (by omega)]

theorem openInode_alike {base first second : InodeIdentifierChain} (alike : SameOrDoubled base first second)
    (live : ∀ last, base.getLast? = some last → (s.openFiles last).isSome) :
    (parentInChain first).map (openInode vfs s (withLast first).1) =
      (parentInChain second).map (openInode vfs s (withLast second).1) := by
  rcases alike with rfl | ⟨last, extension, ends, rfl, rfl⟩
  · rfl
  have nonempty : base ≠ [] := by
    rintro rfl
    cases ends
  cases extension using reverseRecOn with
  | nil =>
    -- both chains end at the open inode: its parent is not asked for
    obtain ⟨inode, isOpen⟩ := Option.isSome_iff_exists.mp (live last ends)
    obtain ⟨parent, hasParent⟩ : ∃ parent, parentInChain base = some parent := by
      have long : 0 < base.length := List.length_pos_of_ne_nil nonempty
      refine ⟨_, List.getElem?_eq_getElem ?_⟩
      split <;> omega
    have sameInode : (withLast (base ++ [last])).1 = (withLast base).1 := by
      simp [withLast, ends]
    have lastEq : (withLast base).1 = last := by
      simp [withLast, ends]
    rw [parentInChain_concat nonempty, ends, append_nil, hasParent, sameInode, lastEq]
    simp [openInode, getOpenFile, isOpen]
  | append_singleton shorter inode =>
    rw [show base ++ last :: (shorter ++ [inode]) = (base ++ last :: shorter) ++ [inode] by simp,
      show base ++ (shorter ++ [inode]) = (base ++ shorter) ++ [inode] by simp,
      parentInChain_concat (List.append_ne_nil_of_left_ne_nil nonempty _),
      parentInChain_concat (List.append_ne_nil_of_left_ne_nil nonempty _)]
    have sameInode : (withLast (base ++ last :: shorter ++ [inode])).1 = (withLast (base ++ shorter ++ [inode])).1 := by
      simp only [withLast, List.getLastD_eq_getLast?, List.getLast?_concat]
    rw [getLast?_doubled ends, sameInode]

def openTree (vfs : Vfs) (s : VfsState) (openFlags : OpenFlags) (chain : InodeIdentifierChain) (path : ResolvedPath) :
    Option (Except KernelErrorCode InodeIdentifier) :=
  if openFlags.truncate then some (.error .invalidOperation)
  else
    match vfs.resolve none chain path with
    | none => none
    | some (.error e) => some (.error e)
    | some (.ok result) => (parentInChain result).map (openInode vfs s (withLast result).1)

theorem reached_openFile (unique : vfs.NamesUnique) (coherent : Coherent vfs s) (path : ResolvedPath)
    (source : Option InodeIdentifierChain) (openFlags : OpenFlags) :
    reached (openFile vfs path source openFlags s) = openTree vfs s openFlags (startChain s source) path := by
  rw [openFile, openTree]
  split
  case isTrue => rfl
  case isFalse =>
  have follows := getInodeChain_eq none unique coherent path source
  cases resolved : vfs.resolve none (startChain s source) path with
  | none =>
    rw [resolved] at follows
    rw [Call.andThen_none follows]
    rfl
  | some answer =>
    rw [resolved] at follows
    obtain ⟨s', run, keeps⟩ := follows
    cases answer with
    | error e =>
      rw [Call.andThen_error run]
      rfl
    | ok result =>
      rw [Call.andThen_ok run]
      have opened := openResolved_inode vfs s' openFlags (withLast result).1 result
      rw [show openInode vfs s' (withLast result).1 = openInode vfs s (withLast result).1 from
        funext fun _ => by rw [openInode, openInode, getOpenFile, getOpenFile, keeps.openFiles]] at opened
      dsimp only
      rw [← opened]
      rw [finishOpen]
      match openResolved vfs s' openFlags (withLast result).1 result with
      | none => rfl
      | some (.error e) => rfl
      | some (.ok (inode, handle)) => rfl

theorem finishOpen_eq_ok {resolved : InodeIdentifier × InodeIdentifierChain}
    (run : finishOpen vfs openFlags resolved s = some (.ok handle, s')) :
    handle.inode = resolved.1 ∧ handle.parentChain = resolved.2 ∧ s'.inodes = s.inodes ∧ s'.root = s.root ∧
      (s'.openFiles handle.inode).isSome := by
  rw [finishOpen] at run
  split at run
  case h_1 => cases run
  case h_2 => cases run
  case h_3 inode opened done =>
  cases run
  rw [openResolved] at done
  repeat' split at done
  all_goals cases done
  refine ⟨rfl, rfl, rfl, rfl, ?_⟩
  simp

theorem openFile_eq_ok {path : ResolvedPath} (unique : vfs.NamesUnique)
    (coherent : Coherent vfs s) (run : openFile vfs path none openFlags s = some (.ok handle, s')) :
    vfs.resolve none [s.root] path = some (.ok handle.parentChain) ∧
      handle.parentChain.getLast? = some handle.inode ∧ Coherent vfs s' ∧ s'.root = s.root ∧
      (s'.openFiles handle.inode).isSome := by
  rw [openFile] at run
  split at run
  case isTrue => cases run
  case isFalse =>
  have follows := getInodeChain_eq none unique coherent path none
  change Follows vfs s _ ((vfs.resolve none [s.root] path).map _) at follows
  cases resolved : vfs.resolve none [s.root] path with
  | none =>
    rw [resolved] at follows
    cases (Call.andThen_none follows).symm.trans run
  | some answer =>
    rw [resolved] at follows
    obtain ⟨middle, ran, keeps⟩ := follows
    cases answer with
    | error e => cases (Call.andThen_error ran).symm.trans run
    | ok result =>
      have finished : finishOpen vfs openFlags (withLast result) middle = some (.ok handle, s') :=
        (Call.andThen_ok ran).symm.trans run
      have nonempty := Vfs.resolve_ne_nil (List.cons_ne_nil _ _) resolved
      obtain ⟨sameInode, sameChain, sameCache, sameRoot, isOpen⟩ := finishOpen_eq_ok finished
      have stillCoherent : Coherent vfs s' := by
        intro dir
        rw [sameCache]
        exact keeps.coherent dir
      refine ⟨by rw [sameChain]; rfl, ?_, stillCoherent, sameRoot.trans keeps.root, isOpen⟩
      rw [sameInode, sameChain]
      simp only [withLast, List.getLastD_eq_getLast?, List.getLast?_eq_some_getLast nonempty, Option.getD_some]

end Open

/-! ## Relative and absolute paths -/

variable {handle : FileHandle} {vfs : Vfs} {opening s after : VfsState} {path relative : ResolvedPath}
  {openFlags flags : OpenFlags}

theorem FilesystemNamespace.fileSource_of_names {ns : FilesystemNamespace} {fdRel : Nat}
    (names : ns.Names fdRel handle) : ns.fileSource fdRel = some (handle.parentChain ++ [handle.inode]) := by
  unfold Names at names
  unfold fileSource
  split at names
  case isTrue isCwd => rw [if_pos isCwd, getCwdChain, names]
  case isFalse isFd => rw [if_neg isFd, getWholeChain, names]

/-- A path relative to an open directory leads where the absolute path leads from which the first `..` that leaves the
directory is left out. -/
theorem reached_relative (unique : vfs.NamesUnique) (coherentOpening : Coherent vfs opening)
    (opened : openFile vfs path none openFlags opening = some (.ok handle, after)) (coherent : Coherent vfs s)
    (sameRoot : s.root = opening.root) (live : (s.openFiles handle.inode).isSome) :
    reached (openFile vfs relative (some (handle.parentChain ++ [handle.inode])) flags s) =
      reached (openFile vfs (path ++ withoutFirstClimb 0 relative) none flags s) := by
  obtain ⟨resolved, ends, -⟩ := openFile_eq_ok unique coherentOpening opened
  rw [reached_openFile unique coherent, reached_openFile unique coherent, openTree, openTree]
  have start : startChain s (some (handle.parentChain ++ [handle.inode])) = handle.parentChain ++ [handle.inode] := by
    simp [startChain]
  have absolute : vfs.resolve none (startChain s none) (path ++ withoutFirstClimb 0 relative) =
      vfs.resolve none handle.parentChain (withoutFirstClimb 0 relative) := by
    change vfs.resolve none [s.root] _ = _
    rw [Vfs.resolve_append, sameRoot, resolved]
  have alike := vfs.resolve_doubled none ends relative []
  rw [append_nil, length_nil] at alike
  rw [start, absolute]
  split
  case isTrue => rfl
  case isFalse =>
  revert alike
  match vfs.resolve none (handle.parentChain ++ [handle.inode]) relative,
    vfs.resolve none handle.parentChain (withoutFirstClimb 0 relative) with
  | some (.ok first), some (.ok second) =>
    intro alike
    exact openInode_alike alike fun last isLast => by
      rw [ends] at isLast
      cases isLast
      exact live
  | none, second => rintro rfl; rfl
  | some (.error e), second => rintro rfl; rfl
  | some (.ok first), none => exact nofun
  | some (.ok first), some (.error e) => exact nofun

def staysInside : Nat → ResolvedPath → Bool
  | _, [] => true
  | height, component :: rest =>
    if component = dotDot then
      match height with
      | 0 => false
      | height + 1 => staysInside height rest
    else staysInside (height + 1) rest

theorem withoutFirstClimb_of_staysInside {height : Nat} (inside : staysInside height path = true) :
    withoutFirstClimb height path = path := by
  induction path generalizing height with
  | nil => rfl
  | cons component rest ih =>
    by_cases up : component = dotDot
    · subst up
      cases height with
      | zero => simp [staysInside] at inside
      | succ height =>
        rw [withoutFirstClimb_inside, ih inside]
    · simp only [staysInside, if_neg up] at inside
      rw [withoutFirstClimb_name up, ih inside]

theorem reached_relative_of_staysInside (unique : vfs.NamesUnique) (coherentOpening : Coherent vfs opening)
    (opened : openFile vfs path none openFlags opening = some (.ok handle, after)) (coherent : Coherent vfs s)
    (sameRoot : s.root = opening.root) (live : (s.openFiles handle.inode).isSome)
    (inside : staysInside 0 relative = true) :
    reached (openFile vfs relative (some (handle.parentChain ++ [handle.inode])) flags s) =
      reached (openFile vfs (path ++ relative) none flags s) := by
  rw [reached_relative unique coherentOpening opened coherent sameRoot live, withoutFirstClimb_of_staysInside inside]

/-- Opening `relative` from the handle of a directory opened at `path` reaches the same inode as opening
`path/relative` from the root, or fails the same way, exactly if it makes no difference in the tree whether the first
`..` of `relative` that leaves the directory is left out of `path/relative`.  If there is no such `..`, it does. -/
theorem relative_agrees_iff (vfs : Vfs) (opening after s : VfsState) (path relative : List Char)
    (openFlags flags : OpenFlags) (handle : FileHandle) (ns : FilesystemNamespace) (fdRel : Nat)
    (unique : vfs.NamesUnique) (coherentOpening : Coherent vfs opening)
    (opened : openFile vfs (resolvePath path) none openFlags opening = some (.ok handle, after))
    (coherent : Coherent vfs s) (sameRoot : s.root = opening.root)
    (live : (s.openFiles handle.inode).isSome) (names : ns.Names fdRel handle) :
    ((fopenRelative vfs ns relative fdRel flags).map (fun call => reached (call s)) =
        some (reached (openFile vfs (resolvePath (path ++ '/' :: relative)) none flags s)) ↔
      openTree vfs s flags [s.root] (resolvePath path ++ withoutFirstClimb 0 (resolvePath relative)) =
        openTree vfs s flags [s.root] (resolvePath (path ++ '/' :: relative))) ∧
    (staysInside 0 (resolvePath relative) = true →
      (fopenRelative vfs ns relative fdRel flags).map (fun call => reached (call s)) =
        some (reached (openFile vfs (resolvePath (path ++ '/' :: relative)) none flags s))) := by
  have started : startChain s none = [s.root] := rfl
  rw [fopenRelative, FilesystemNamespace.fileSource_of_names names]
  dsimp only [Option.map_some]
  rw [Option.some.injEq]
  constructor
  · rw [reached_relative unique coherentOpening opened coherent sameRoot live, reached_openFile unique coherent,
      reached_openFile unique coherent, started]
  · intro inside
    rw [resolvePath_append]
    exact reached_relative_of_staysInside unique coherentOpening opened coherent sameRoot live inside

def twoDirectories : Vfs where
  devices device := if device = 1 then some 0 else none
  mountedFilesystems _ := some
    { readDir := fun index => .ok (if index = 2 then [⟨3, ['a']⟩] else if index = 3 then [⟨4, ['b']⟩] else [])
      stat := fun _ _ => .ok ⟨1, true⟩
      fHandleOpen := fun _ => .ok () }
  globalMounts := []

theorem twoDirectories_unique : twoDirectories.NamesUnique := by
  intro dir children listed
  by_cases known : dir.deviceId = 1
  · simp only [Vfs.listing, Vfs.fileSystem, twoDirectories, known] at listed
    cases listed
    split
    · simp
    · split <;> simp
  · simp [Vfs.listing, Vfs.fileSystem, twoDirectories, known] at listed

def nothingCached : VfsState := { inodes := fun _ => none, root := ⟨1, 2⟩, openFiles := fun _ => none }

theorem nothingCached_coherent : Coherent twoDirectories nothingCached := nofun

def readOnly : OpenFlags := ⟨true, false, false, false⟩

def handleOfA : FileHandle := ⟨⟨1, 3⟩, [⟨1, 2⟩, ⟨1, 3⟩], ⟨true, false, false, true⟩⟩

def insideA : FilesystemNamespace where
  openFiles fd := if fd = 0 then some handleOfA else none
  cwd := handleOfA

/-- From `a` the path `..` leads to `a` again, while `a/..` leads to the root. -/
theorem climb_stays_in_directory : ∃ after,
    openFile twoDirectories (resolvePath ['a']) none readOnly nothingCached = some (.ok handleOfA, after) ∧
    (∀ fdRel, fdRel = 0 ∨ fdRel = 2 ^ 64 - 1 → insideA.Names fdRel handleOfA ∧
      (fopenRelative twoDirectories insideA ['.', '.'] fdRel readOnly).map (fun call => reached (call after)) =
        some (some (.ok ⟨1, 3⟩))) ∧
    reached (openFile twoDirectories (resolvePath ['a', '/', '.', '.']) none readOnly after) = some (.ok ⟨1, 2⟩) := by
  refine ⟨_, rfl, ?_, rfl⟩
  rintro fdRel (rfl | rfl)
  · exact ⟨rfl, rfl⟩
  · exact ⟨rfl, rfl⟩

theorem relative_agrees_iff_back : ∃ after,
    openFile twoDirectories (resolvePath ['a']) none readOnly nothingCached = some (.ok handleOfA, after) ∧
    (fopenRelative twoDirectories insideA ['b', '/', '.', '.'] 0 readOnly).map (fun call => reached (call after)) =
      some (reached (openFile twoDirectories (resolvePath ['a', '/', 'b', '/', '.', '.']) none readOnly after)) := by
  obtain ⟨after, opened⟩ : ∃ after,
      openFile twoDirectories (resolvePath ['a']) none readOnly nothingCached = some (.ok handleOfA, after) := ⟨_, rfl⟩
  obtain ⟨-, -, coherentAfter, sameRoot, live⟩ := openFile_eq_ok twoDirectories_unique nothingCached_coherent opened
  refine ⟨after, opened, ?_⟩
  exact (relative_agrees_iff twoDirectories nothingCached after after ['a'] ['b', '/', '.', '.'] readOnly readOnly
    handleOfA insideA 0 twoDirectories_unique nothingCached_coherent opened coherentAfter sameRoot live rfl).2 rfl

/-! ## Opening one path after another -/

structure OpenCall where
  path : ResolvedPath
  source : Option InodeIdentifierChain
  flags : OpenFlags

def OpenCall.run (vfs : Vfs) (s : VfsState) (call : OpenCall) : Option (Except KernelErrorCode FileHandle × VfsState) :=
  openFile vfs call.path call.source call.flags s

theorem OpenCall.coherent {vfs : Vfs} {s s' : VfsState} {call : OpenCall} {result : Except KernelErrorCode FileHandle}
    (unique : vfs.NamesUnique) (coherent : Coherent vfs s) (run : call.run vfs s = some (result, s')) :
    Coherent vfs s' := by
  have follows := getInodeChain_eq none unique coherent call.path call.source
  unfold OpenCall.run openFile at run
  split at run
  · cases run
    exact coherent
  -- after the lookup only the open files change
  unfold Call.andThen finishOpen at run
  unfold Follows at follows
  obtain ⟨found, kept, same⟩ : ∃ found, Coherent vfs found ∧ s'.inodes = found.inodes := by grind [Keeps]
  rwa [Coherent, same]

/-- The cache does not show: after whatever calls, opening a path reaches what the tree holds there. -/
theorem opens_follow_tree {vfs : Vfs} (unique : vfs.NamesUnique) {start : VfsState} (coherent : Coherent vfs start)
    (calls : List OpenCall) (call : OpenCall) :
    let states := runs (fun s call => (OpenCall.run vfs s call).map Prod.snd) start calls
    states.map (fun s => reached (call.run vfs s)) =
      states.map fun s => openTree vfs s call.flags (startChain s call.source) call.path := by
  refine Option.map_congr fun s run => reached_openFile unique ?_ call.path call.source call.flags
  refine runs_keeps (Coherent vfs) (fun coherent stepped => ?_) run coherent
  obtain ⟨⟨result, next⟩, ran, rfl⟩ := Option.map_eq_some_iff.mp stepped
  exact OpenCall.coherent unique coherent ran

theorem opens_follow_tree_found :
    let calls : List OpenCall := [⟨[['a']], none, readOnly⟩, ⟨[['c']], none, readOnly⟩]
    let states := runs (fun s call => (OpenCall.run twoDirectories s call).map Prod.snd) nothingCached calls
    states.map (fun s => reached (OpenCall.run twoDirectories s ⟨[['a'], ['b']], none, readOnly⟩)) =
      some (some (.ok ⟨1, 4⟩)) := by
  intro calls states
  have follows := opens_follow_tree twoDirectories_unique nothingCached_coherent calls ⟨[['a'], ['b']], none, readOnly⟩
  exact follows.trans rfl

end MeowOs.Files
