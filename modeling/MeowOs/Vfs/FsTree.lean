import MeowOs.KernelError
import MeowOs.Machine.Prog

/-! # Looking up paths

A path is a list of components, and looking it up builds the chain of the
inodes from the root to the one it names: a name appends a child, `..` drops
the last inode.  Children are looked up in a cache of directory listings that is
filled on demand, and a child on which something is mounted is replaced by what
is mounted there.

The directory tree is what the file system drivers list.  As long as the cache
shows parts of it (`Coherent`), a lookup gives the same result with every cache
(`getChild_eq`, `getInodeChain_eq`), so that the rest of the development can
resolve paths in the tree itself (`Vfs.resolve`).
-/

namespace MeowOs.Files

open MeowOs.Machine

/-! ## Paths (`vfs/path.rs`) -/

abbrev Name := List Char

abbrev ResolvedPath := List Name

def dotDot : Name := ['.', '.']

def splitSlash : List Char → List Name
  | [] => [[]]
  | c :: rest =>
    if c = '/' then [] :: splitSlash rest
    else match splitSlash rest with
      | [] => [[c]]
      | chunk :: chunks => (c :: chunk) :: chunks

/-- Empty chunks and `.` are left out. -/
def resolvePath (path : List Char) : ResolvedPath :=
  (splitSlash path).filter fun chunk => !(chunk.isEmpty || chunk == ['.'])

/-! ## Inodes, file systems and the cache -/

structure InodeIdentifier where
  deviceId : Nat
  index : Nat
deriving DecidableEq, Repr

abbrev InodeIdentifierChain := List InodeIdentifier

structure DirEntry where
  inode : Nat
  name : Name
deriving DecidableEq, Repr

structure Inode where
  device : Nat
  isDir : Bool
deriving DecidableEq, Repr

/-- A file system driver, as far as looking up and opening files calls it. -/
structure FileSystem where
  readDir : Nat → Except KernelErrorCode (List DirEntry)
  stat : Nat → Nat → Except KernelErrorCode Inode
  fHandleOpen : Nat → Except KernelErrorCode Unit

abbrev Mounts := List (InodeIdentifier × InodeIdentifier)

/-- The devices, the mounted file systems and `GLOBAL_MOUNTS`, which the modelled calls only read. -/
structure Vfs where
  devices : Nat → Option Nat
  mountedFilesystems : Nat → Option FileSystem
  globalMounts : Mounts

def Vfs.fileSystem (vfs : Vfs) (device : Nat) : Except KernelErrorCode FileSystem :=
  match vfs.devices device with
  | none => .error .noEntry
  | some partition =>
    match vfs.mountedFilesystems partition with
    | none => .error .noEntry
    | some fs => .ok fs

/-- `INODE_CACHE`, and the live entries of `FILE_STORAGE`. -/
structure VfsState where
  inodes : InodeIdentifier → Option (List (Name × InodeIdentifier))
  root : InodeIdentifier
  openFiles : InodeIdentifier → Option Inode

/-- A call that may fail with an error; `none` is a call that does not return. -/
abbrev Call (α : Type) := Prog VfsState (Except KernelErrorCode α)

namespace Call

variable {α β : Type}

def andThen (x : Call α) (f : α → Call β) : Call β := fun s =>
  match x s with
  | none => none
  | some (.error e, s') => some (.error e, s')
  | some (.ok a, s') => f a s'

def ofExcept (e : Except KernelErrorCode α) : Call α := fun s => some (e, s)

variable {x : Call α} {f : α → Call β} {s s' : VfsState}

theorem andThen_none (run : x s = none) : andThen x f s = none := by
  simp [andThen, run]

theorem andThen_error {e : KernelErrorCode} (run : x s = some (.error e, s')) :
    andThen x f s = some (.error e, s') := by
  simp [andThen, run]

theorem andThen_ok {a : α} (run : x s = some (.ok a, s')) : andThen x f s = f a s' := by
  simp [andThen, run]

end Call

/-! ## Mounts (`vfs/fs_tree.rs`) -/

/-- The loop of `resolve_mount_point`: each round follows a global mount and then a namespace mount.  A walk that ends
follows each mount at most once. -/
def resolveMountPointLoop (globalMounts namespaceMounts : Mounts) :
    Nat → Option InodeIdentifier → InodeIdentifier → Option (Option InodeIdentifier × InodeIdentifier)
  | 0, _, _ => none
  | fuel + 1, prevInode, inode =>
    let afterGlobal := match globalMounts.lookup inode with
      | some mount => (true, some inode, mount)
      | none => (false, prevInode, inode)
    let afterNamespace := match namespaceMounts.lookup afterGlobal.2.2 with
      | some mount => (true, some afterGlobal.2.2, mount)
      | none => afterGlobal
    if !afterNamespace.1 then some (prevInode, inode)
    else resolveMountPointLoop globalMounts namespaceMounts fuel afterNamespace.2.1 afterNamespace.2.2

def resolveMountPoint (vfs : Vfs) (inode : InodeIdentifier) (namespaceMounts : Option Mounts) :
    Option (Option (InodeIdentifier × InodeIdentifier)) :=
  let namespaceMounts := namespaceMounts.getD []
  (resolveMountPointLoop vfs.globalMounts namespaceMounts
    (vfs.globalMounts.length + namespaceMounts.length + 1) none inode).map fun found =>
      found.1.map fun prev => (prev, found.2)

/-- The inode that stands for a child: itself, or what is mounted over it. -/
def overlaid (vfs : Vfs) (resolveMounts : Bool) (namespaceMounts : Option Mounts) (child : InodeIdentifier) :
    Option InodeIdentifier :=
  if !resolveMounts then some child
  else (resolveMountPoint vfs child namespaceMounts).map fun found =>
    match found with
    | none => child
    | some (_, overlaid) => overlaid

/-! ## Children -/

namespace VfsState

def cachedChild (s : VfsState) (parent : InodeIdentifier) (name : Name) : Option InodeIdentifier :=
  match s.inodes parent with
  | none => none
  | some children => (children.find? fun child => child.1 == name).map Prod.snd

def insert (s : VfsState) (inode : InodeIdentifier) (children : List (Name × InodeIdentifier)) : VfsState :=
  { s with inodes := Function.update s.inodes inode (some children) }

end VfsState

def Vfs.listing (vfs : Vfs) (dir : InodeIdentifier) : Except KernelErrorCode (List (Name × InodeIdentifier)) :=
  match vfs.fileSystem dir.deviceId with
  | .error e => .error e
  | .ok fs =>
    match fs.readDir dir.index with
    | .error e => .error e
    | .ok entries => .ok (entries.map fun entry => (entry.name, { deviceId := dir.deviceId, index := entry.inode }))

/-- Every entry gets a node without children, then the directory gets its children. -/
def loadDir (vfs : Vfs) (current : InodeIdentifier) : Call Unit := fun s =>
  match vfs.listing current with
  | .error e => some (.error e, s)
  | .ok children =>
    if children.isEmpty then some (.ok (), s)
    else some (.ok (), (children.foldl (fun s child => s.insert child.2 []) s).insert current children)

/-- The search that `get_child` makes before and after loading the directory. -/
def searchCache (vfs : Vfs) (parent : InodeIdentifier) (name : Name) (resolveMounts : Bool)
    (namespaceMounts : Option Mounts) (missing : Call InodeIdentifier) : Call InodeIdentifier := fun s =>
  match s.cachedChild parent name with
  | some child => (overlaid vfs resolveMounts namespaceMounts child).map fun inode => (.ok inode, s)
  | none => missing s

def getChild (vfs : Vfs) (parent : InodeIdentifier) (name : Name) (resolveMounts : Bool)
    (namespaceMounts : Option Mounts) : Call InodeIdentifier :=
  searchCache vfs parent name resolveMounts namespaceMounts
    (Call.andThen (loadDir vfs parent) fun _ =>
      searchCache vfs parent name resolveMounts namespaceMounts (Call.ofExcept (.error .noEntry)))

def getInodeChainLoop (vfs : Vfs) (namespaceMounts : Option Mounts) :
    ResolvedPath → InodeIdentifierChain → InodeIdentifier → Call (InodeIdentifier × InodeIdentifierChain)
  | [], chain, current => Call.ofExcept (.ok (current, chain))
  | component :: rest, chain, current =>
    if component = dotDot then
      if chain.length > 1 then
        match chain.dropLast.getLast? with
        | none => Prog.panic
        | some last => getInodeChainLoop vfs namespaceMounts rest chain.dropLast last
      else getInodeChainLoop vfs namespaceMounts rest chain current
    else Call.andThen (getChild vfs current component true namespaceMounts) fun child =>
      getInodeChainLoop vfs namespaceMounts rest (chain ++ [child]) child

def getInodeChain (vfs : Vfs) (path : ResolvedPath) (source : Option InodeIdentifierChain)
    (namespaceMounts : Option Mounts) : Call (InodeIdentifier × InodeIdentifierChain) := fun s =>
  let chain := source.getD []
  let chain := if chain.isEmpty then [s.root] else chain
  match chain.getLast? with
  | none => none
  | some current => getInodeChainLoop vfs namespaceMounts path chain current s

/-! ## The tree behind the cache -/

def Vfs.child (vfs : Vfs) (namespaceMounts : Option Mounts) (parent : InodeIdentifier) (name : Name) :
    Option (Except KernelErrorCode InodeIdentifier) :=
  match vfs.listing parent with
  | .error e => some (.error e)
  | .ok children =>
    match (children.find? fun child => child.1 == name).map Prod.snd with
    | none => some (.error .noEntry)
    | some child => (overlaid vfs true namespaceMounts child).map .ok

/-- The chain that a path leads to from a chain, in the tree. -/
def Vfs.resolve (vfs : Vfs) (namespaceMounts : Option Mounts) :
    InodeIdentifierChain → ResolvedPath → Option (Except KernelErrorCode InodeIdentifierChain)
  | chain, [] => some (.ok chain)
  | chain, component :: rest =>
    if component = dotDot then
      vfs.resolve namespaceMounts (if chain.length > 1 then chain.dropLast else chain) rest
    else
      match chain.getLast? with
      | none => none
      | some current =>
        match vfs.child namespaceMounts current component with
        | none => none
        | some (.error e) => some (.error e)
        | some (.ok child) => vfs.resolve namespaceMounts (chain ++ [child]) rest

def Vfs.NamesUnique (vfs : Vfs) : Prop :=
  ∀ dir children, vfs.listing dir = .ok children → (children.map Prod.fst).Nodup

def Coherent (vfs : Vfs) (s : VfsState) : Prop :=
  ∀ dir cached, s.inodes dir = some cached → ∀ child ∈ cached,
    ∃ children, vfs.listing dir = .ok children ∧ child ∈ children

section Lookups

variable {vfs : Vfs} {s s' : VfsState} {namespaceMounts : Option Mounts} {children : List (Name × InodeIdentifier)}
  {name : Name} {child : InodeIdentifier} {chain : InodeIdentifierChain}

theorem find?_of_mem (unique : (children.map Prod.fst).Nodup) (member : (name, child) ∈ children) :
    (children.find? fun entry => entry.1 == name).map Prod.snd = some child := by
  induction children with
  | nil => cases member
  | cons first rest ih =>
    rw [List.map_cons, List.nodup_cons] at unique
    rw [List.find?_cons]
    rcases List.mem_cons.mp member with rfl | inRest
    · simp
    have other : (first.1 == name) = false := by
      rw [beq_eq_false_iff_ne]
      rintro rfl
      exact unique.1 (List.mem_map.mpr ⟨_, inRest, rfl⟩)
    rw [other]
    exact ih unique.2 inRest

theorem Coherent.insert (coherent : Coherent vfs s) {dir : InodeIdentifier}
    (listed : ∀ child ∈ children, ∃ all, vfs.listing dir = .ok all ∧ child ∈ all) :
    Coherent vfs (s.insert dir children) := by
  intro other cached found child member
  simp only [VfsState.insert, Function.update_apply] at found
  split at found
  case isTrue same =>
    cases found
    rw [same]
    exact listed child member
  case isFalse => exact coherent other cached found child member

theorem Coherent.insert_entries (coherent : Coherent vfs s) (children : List (Name × InodeIdentifier)) :
    Coherent vfs (children.foldl (fun s child => s.insert child.2 []) s) ∧
      (children.foldl (fun s child => s.insert child.2 []) s).root = s.root ∧
      (children.foldl (fun s child => s.insert child.2 []) s).openFiles = s.openFiles := by
  induction children generalizing s with
  | nil => exact ⟨coherent, rfl, rfl⟩
  | cons first rest ih => exact ih (coherent.insert nofun)

/-- What changes along a lookup: nothing but the cache, which stays coherent. -/
structure Keeps (vfs : Vfs) (s s' : VfsState) : Prop where
  coherent : Coherent vfs s'
  root : s'.root = s.root
  openFiles : s'.openFiles = s.openFiles

theorem Keeps.trans {s1 s2 s3 : VfsState} (first : Keeps vfs s1 s2) (second : Keeps vfs s2 s3) : Keeps vfs s1 s3 :=
  ⟨second.coherent, second.root.trans first.root, second.openFiles.trans first.openFiles⟩

theorem loadDir_spec (coherent : Coherent vfs s) (current : InodeIdentifier) : ∃ s', Keeps vfs s s' ∧
      match vfs.listing current with
      | .error e => loadDir vfs current s = some (.error e, s')
      | .ok children => loadDir vfs current s = some (.ok (), s') ∧
          ∀ name, s'.cachedChild current name = (children.find? fun child => child.1 == name).map Prod.snd := by
  rw [loadDir]
  cases listed : vfs.listing current with
  | error e => exact ⟨s, ⟨coherent, rfl, rfl⟩, rfl⟩
  | ok children =>
    dsimp only
    split
    case isTrue empty =>
      refine ⟨s, ⟨coherent, rfl, rfl⟩, rfl, fun name => ?_⟩
      rw [List.isEmpty_iff] at empty
      -- a coherent cache knows no children of an empty directory
      rw [VfsState.cachedChild, empty]
      cases cached : s.inodes current with
      | none => rfl
      | some known =>
        cases known with
        | nil => rfl
        | cons child rest =>
          obtain ⟨_, listedAll, member⟩ := coherent current _ cached child (.head _)
          cases listed.symm.trans listedAll
          rw [empty] at member
          cases member
    case isFalse =>
      obtain ⟨kept, sameRoot, sameFiles⟩ := coherent.insert_entries children
      refine ⟨_, ⟨kept.insert fun child member => ⟨children, listed, member⟩, sameRoot, sameFiles⟩, rfl, fun name => ?_⟩
      simp [VfsState.cachedChild, VfsState.insert]

def Follows {α : Type} (vfs : Vfs) (s : VfsState) (run : Option (Except KernelErrorCode α × VfsState))
    (result : Option (Except KernelErrorCode α)) : Prop :=
  match result with
  | none => run = none
  | some answer => ∃ s', run = some (answer, s') ∧ Keeps vfs s s'

theorem follows_overlaid (keeps : Keeps vfs s s') (child : InodeIdentifier) :
    Follows vfs s ((overlaid vfs true namespaceMounts child).map fun inode => (.ok inode, s'))
      ((overlaid vfs true namespaceMounts child).map .ok) := by
  cases overlaid vfs true namespaceMounts child with
  | none => rfl
  | some inode => exact ⟨s', rfl, keeps⟩

theorem Coherent.listed (coherent : Coherent vfs s) {parent : InodeIdentifier}
    (cached : s.cachedChild parent name = some child) :
    ∃ children, vfs.listing parent = .ok children ∧ (name, child) ∈ children := by
  rw [VfsState.cachedChild] at cached
  split at cached
  case h_1 => cases cached
  case h_2 known lookup =>
  obtain ⟨entry, found, rfl⟩ := Option.map_eq_some_iff.mp cached
  have same : entry.1 = name := by simpa using List.find?_some found
  rw [← same]
  exact coherent parent known lookup entry (List.mem_of_find?_eq_some found)

theorem getChild_eq (namespaceMounts : Option Mounts) (unique : vfs.NamesUnique) (coherent : Coherent vfs s)
    (parent : InodeIdentifier) (name : Name) :
    Follows vfs s (getChild vfs parent name true namespaceMounts s) (vfs.child namespaceMounts parent name) := by
  rw [getChild, searchCache, Vfs.child]
  cases cached : s.cachedChild parent name with
  | some child =>
    obtain ⟨children, listed, member⟩ := coherent.listed cached
    rw [listed]
    dsimp only
    rw [find?_of_mem (unique parent children listed) member]
    exact follows_overlaid ⟨coherent, rfl, rfl⟩ child
  | none =>
    obtain ⟨s', keeps, loaded⟩ := loadDir_spec coherent parent
    cases listed : vfs.listing parent with
    | error e =>
      rw [listed] at loaded
      exact ⟨s', Call.andThen_error loaded, keeps⟩
    | ok children =>
      rw [listed] at loaded
      obtain ⟨loaded, known⟩ := loaded
      dsimp only
      rw [Call.andThen_ok loaded, searchCache, known name]
      cases (children.find? fun child => child.1 == name).map Prod.snd with
      | none => exact ⟨s', rfl, keeps⟩
      | some child => exact follows_overlaid keeps child

def withLast (chain : InodeIdentifierChain) : InodeIdentifier × InodeIdentifierChain :=
  (chain.getLastD ⟨0, 0⟩, chain)

theorem Follows.trans {α : Type} {run : Option (Except KernelErrorCode α × VfsState)}
    {result : Option (Except KernelErrorCode α)} (follows : Follows vfs s' run result) (keeps : Keeps vfs s s') :
    Follows vfs s run result := by
  cases result with
  | none => exact follows
  | some answer =>
    obtain ⟨s'', ran, later⟩ := follows
    exact ⟨s'', ran, keeps.trans later⟩

theorem dropLast_ne_nil (long : chain.length > 1) : chain.dropLast ≠ [] := by
  rw [← List.length_pos_iff, List.length_dropLast]
  omega

theorem getInodeChainLoop_eq (unique : vfs.NamesUnique) (coherent : Coherent vfs s) (path : ResolvedPath)
    {current : InodeIdentifier} (last : chain.getLast? = some current) :
    Follows vfs s (getInodeChainLoop vfs namespaceMounts path chain current s)
      ((vfs.resolve namespaceMounts chain path).map (Except.map withLast)) := by
  induction path generalizing chain current s with
  | nil =>
    refine ⟨s, ?_, coherent, rfl, rfl⟩
    simp only [getInodeChainLoop, Call.ofExcept, Except.map, withLast, List.getLastD_eq_getLast?, last,
      Option.getD_some]
  | cons component rest ih =>
    rw [Vfs.resolve, getInodeChainLoop]
    by_cases up : component = dotDot
    · rw [if_pos up, if_pos up]
      -- `..` drops the last inode, but never the first
      by_cases long : chain.length > 1
      · rw [if_pos long, if_pos long]
        have nonempty := dropLast_ne_nil long
        rw [List.getLast?_eq_some_getLast nonempty]
        exact ih coherent (List.getLast?_eq_some_getLast nonempty)
      · rw [if_neg long, if_neg long]
        exact ih coherent last
    · rw [if_neg up, if_neg up, last]
      have lookup := getChild_eq namespaceMounts unique coherent current component
      dsimp only
      cases step : vfs.child namespaceMounts current component with
      | none =>
        rw [step] at lookup
        exact Call.andThen_none lookup
      | some answer =>
        rw [step] at lookup
        obtain ⟨s', run, keeps⟩ := lookup
        cases answer with
        | error e => exact ⟨s', Call.andThen_error run, keeps⟩
        | ok child =>
          rw [Call.andThen_ok run]
          exact (ih keeps.coherent List.getLast?_concat).trans keeps

def startChain (s : VfsState) (source : Option InodeIdentifierChain) : InodeIdentifierChain :=
  if (source.getD []).isEmpty then [s.root] else source.getD []

theorem startChain_ne_nil (s : VfsState) (source : Option InodeIdentifierChain) : startChain s source ≠ [] := by
  unfold startChain
  split
  · exact List.cons_ne_nil _ _
  · rename_i isEmpty
    simpa using isEmpty

theorem getInodeChain_run (path : ResolvedPath) (source : Option InodeIdentifierChain)
    (namespaceMounts : Option Mounts) (s : VfsState) :
    getInodeChain vfs path source namespaceMounts s = getInodeChainLoop vfs namespaceMounts path (startChain s source)
      ((startChain s source).getLast (startChain_ne_nil s source)) s := by
  change (match (startChain s source).getLast? with
    | none => none
    | some current => getInodeChainLoop vfs namespaceMounts path (startChain s source) current s) = _
  rw [List.getLast?_eq_some_getLast (startChain_ne_nil s source)]

/-- `get_inode_chain` resolves the path in the tree. -/
theorem getInodeChain_eq (namespaceMounts : Option Mounts) (unique : vfs.NamesUnique) (coherent : Coherent vfs s)
    (path : ResolvedPath) (source : Option InodeIdentifierChain) :
    Follows vfs s (getInodeChain vfs path source namespaceMounts s)
      ((vfs.resolve namespaceMounts (startChain s source) path).map (Except.map withLast)) := by
  rw [getInodeChain_run]
  exact getInodeChainLoop_eq unique coherent path (List.getLast?_eq_some_getLast (startChain_ne_nil s source))

end Lookups

/-! ## Laws of lookups -/

def lookup (vfs : Vfs) (mounts : Option Mounts) (start : InodeIdentifierChain) (path : List Char) :
    Call (InodeIdentifier × InodeIdentifierChain) :=
  getInodeChain vfs (resolvePath path) (some start) mounts

theorem splitSlash_ne_nil (path : List Char) : splitSlash path ≠ [] := by
  cases path with
  | nil => nofun
  | cons c rest =>
    rw [splitSlash]
    split
    · nofun
    · split <;> nofun

theorem splitSlash_append (a b : List Char) : splitSlash (a ++ '/' :: b) = splitSlash a ++ splitSlash b := by
  induction a with
  | nil => rfl
  | cons c rest ih =>
    rw [List.cons_append, splitSlash, splitSlash, ih]
    obtain ⟨chunk, chunks, split⟩ := List.exists_cons_of_ne_nil (splitSlash_ne_nil rest)
    rw [split]
    split_ifs <;> rfl

theorem resolvePath_append (a b : List Char) : resolvePath (a ++ '/' :: b) = resolvePath a ++ resolvePath b := by
  rw [resolvePath, splitSlash_append, List.filter_append]
  rfl

section Laws

variable {vfs : Vfs} {mounts : Option Mounts} {chain : InodeIdentifierChain} {current : InodeIdentifier}
  {root : InodeIdentifier} {path : List Char} {s s' : VfsState}

theorem getInodeChainLoop_append (first second : ResolvedPath) (chain : InodeIdentifierChain)
    (current : InodeIdentifier) : getInodeChainLoop vfs mounts (first ++ second) chain current =
      Call.andThen (getInodeChainLoop vfs mounts first chain current) fun found =>
        getInodeChainLoop vfs mounts second found.2 found.1 := by
  induction first generalizing chain current with
  | nil => rfl
  | cons component rest ih =>
    rw [List.cons_append, getInodeChainLoop, getInodeChainLoop]
    split_ifs
    · cases chain.dropLast.getLast? with
      | none => rfl
      | some last => exact ih _ _
    · exact ih _ _
    · funext s
      simp only [Call.andThen]
      split
      · rfl
      · rfl
      · exact congrFun (ih _ _) _

theorem getInodeChainLoop_ends {path : ResolvedPath}
    {found : InodeIdentifier × InodeIdentifierChain} (starts : chain.head? = some root)
    (last : chain.getLast? = some current)
    (run : getInodeChainLoop vfs mounts path chain current s = some (.ok found, s')) :
    found.2.head? = some root ∧ found.2.getLast? = some found.1 := by
  induction path generalizing chain current s with
  | nil =>
    cases run
    exact ⟨starts, last⟩
  | cons component rest ih =>
    rw [getInodeChainLoop] at run
    split_ifs at run with up long
    · cases ends : chain.dropLast.getLast? with
      | none =>
        rw [ends] at run
        cases run
      | some last =>
        rw [ends] at run
        exact ih (by rw [List.head?_dropLast, if_pos long, starts]) ends run
    · exact ih starts last run
    · simp only [Call.andThen] at run
      split at run
      · cases run
      · cases run
      · exact ih (by rw [List.head?_append, starts]; rfl) List.getLast?_concat run

theorem lookup_eq (last : chain.getLast? = some current) :
    lookup vfs mounts chain path = getInodeChainLoop vfs mounts (resolvePath path) chain current := by
  have nonempty : chain.isEmpty = false := by
    cases chain with
    | nil => cases last
    | cons => rfl
  funext s
  simp [lookup, getInodeChain, nonempty, last]

theorem Follows.outcome {α : Type} {s : VfsState} {run : Option (Except KernelErrorCode α × VfsState)}
    {result : Option (Except KernelErrorCode α)} (follows : Follows vfs s run result) :
    run.map Prod.fst = result ∧ ∀ answer s', run = some (answer, s') → Coherent vfs s' := by
  cases result with
  | none =>
    rw [follows]
    exact ⟨rfl, nofun⟩
  | some answer =>
    obtain ⟨_, rfl, keeps⟩ := follows
    refine ⟨rfl, ?_⟩
    rintro _ _ ⟨⟩
    exact keeps.coherent

theorem lookup_slash (starts : chain.head? = some root) (last : chain.getLast? = some current)
    (a b : List Char) : lookup vfs mounts chain (a ++ '/' :: b) =
      Call.andThen (lookup vfs mounts chain a) fun found => lookup vfs mounts found.2 b := by
  funext s
  rw [lookup_eq last, lookup_eq last, resolvePath_append, getInodeChainLoop_append, Call.andThen, Call.andThen]
  cases run : getInodeChainLoop vfs mounts (resolvePath a) chain current s with
  | none => rfl
  | some result =>
    obtain ⟨_ | found, s'⟩ := result
    · rfl
    · exact congrFun (lookup_eq (getInodeChainLoop_ends starts last run).2).symm s'

theorem lookup_climb {root child : InodeIdentifier} {a : List Char}
    (starts : chain.head? = some root) (last : chain.getLast? = some current)
    (run : lookup vfs mounts chain a s = some (.ok (child, chain ++ [child]), s')) (b : List Char) :
    lookup vfs mounts chain (a ++ '/' :: (dotDot ++ '/' :: b)) s = lookup vfs mounts chain b s' := by
  have long : (chain ++ [child]).length > 1 := by
    cases chain with
    | nil => cases last
    | cons => simp
  have climb : resolvePath (dotDot ++ '/' :: b) = dotDot :: resolvePath b := resolvePath_append dotDot b
  rw [lookup_slash starts last, Call.andThen_ok run, lookup_eq last, lookup_eq List.getLast?_concat, climb,
    getInodeChainLoop, if_pos rfl, if_pos long, List.dropLast_concat, last]

/-- Looking up `a/b` is looking up `b` from where `a` leads; empty components and `.` change nothing; `a/..` leads back
if `a` leads to a child, so that what follows has the same answer as without it; and the chain keeps its first inode. -/
theorem lookup_laws (vfs : Vfs) (mounts : Option Mounts) (root : InodeIdentifier) (below : InodeIdentifierChain)
    (a b : List Char) : lookup vfs mounts (root :: below) (a ++ '/' :: b) =
        Call.andThen (lookup vfs mounts (root :: below) a) (fun found => lookup vfs mounts found.2 b) ∧
      (∀ dot ∈ [[], ['.']], lookup vfs mounts (root :: below) (dot ++ '/' :: b) = lookup vfs mounts (root :: below) b ∧
          lookup vfs mounts (root :: below) (a ++ '/' :: dot) = lookup vfs mounts (root :: below) a ∧
          lookup vfs mounts (root :: below) (a ++ '/' :: (dot ++ '/' :: b)) =
            lookup vfs mounts (root :: below) (a ++ '/' :: b)) ∧
      (∀ child s s', lookup vfs mounts (root :: below) a s = some (.ok (child, root :: below ++ [child]), s') →
        lookup vfs mounts (root :: below) (a ++ '/' :: (dotDot ++ '/' :: b)) s =
            lookup vfs mounts (root :: below) b s' ∧ (vfs.NamesUnique → Coherent vfs s →
            (lookup vfs mounts (root :: below) (a ++ '/' :: (dotDot ++ '/' :: b)) s).map Prod.fst =
              (lookup vfs mounts (root :: below) b s).map Prod.fst)) ∧
      ∀ found s s', lookup vfs mounts (root :: below) a s = some (.ok found, s') → found.2.head? = some root := by
  have last := List.getLast?_eq_some_getLast (List.cons_ne_nil root below)
  refine ⟨lookup_slash rfl last a b, fun dot isDot => ?_, fun child s s' run => ?_, fun found s s' run => ?_⟩
  · have skipped : resolvePath dot = [] := by
      revert dot
      decide
    simp only [lookup, resolvePath_append, skipped, List.nil_append, List.append_nil, and_self]
  · have climbed := lookup_climb rfl last run b
    refine ⟨climbed, fun unique coherent => ?_⟩
    -- the answer does not depend on the cache
    have answers := fun path {s} (coherent : Coherent vfs s) =>
      (getInodeChain_eq mounts unique coherent (resolvePath path) (some (root :: below))).outcome
    exact (congrArg _ climbed).trans ((answers b ((answers a coherent).2 _ _ run)).1.trans (answers b coherent).1.symm)
  · rw [lookup_eq last] at run
    exact (getInodeChainLoop_ends rfl last run).1

end Laws

end MeowOs.Files
