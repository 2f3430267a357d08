import MeowOs.Machine.Interleaving
import MeowOs.Vfs.FsTree

/-! # Mounting file systems

`resolve_mount_point` follows the table of mounts until it finds nothing more, so
it returns as long as the table has no cycle.  A mount closes one exactly if the
root of the new file system already leads to the mount point
(`Grounded.mountInode_iff`).  A mount at the root path always does: the new root
is made the root of the tree first, and then mounted on itself.  What does not
lead to that entry is resolved as before (`mounts_resolve_after_boot`).
-/

namespace MeowOs.Files.Mounting

open MeowOs.Machine

def rootInodeIndex : Nat := 2

/-- A file system that is to be mounted: its answers as it is found, those to `create`, and its answers from then on. -/
structure NewFilesystem where
  deviceId : Nat
  partId : Nat
  fs : FileSystem
  create : Name → Except KernelErrorCode Unit
  after : FileSystem

def NewFilesystem.root (new : NewFilesystem) : InodeIdentifier := ⟨new.deviceId, rootInodeIndex⟩

structure Adapter where
  deviceId : Nat
  partitionId : Nat
  fs : FileSystem

structure State where
  vfs : Vfs
  cache : VfsState

def requiredDirs : List Name :=
  [['t', 't', 'y'], ['p', 'r', 'o', 'c'], ['n', 'e', 't'], ['n', 'u', 'l', 'l'], ['i', 'n', 'p', 'u', 't'], ['f', 'b']]

/-- The names at which `mount_vfs_adapters` mounts; `doom` is not among the required directories. -/
def adapterMountpoints : List Name :=
  [['t', 't', 'y'], ['p', 'r', 'o', 'c'], ['n', 'u', 'l', 'l'], ['i', 'n', 'p', 'u', 't'], ['f', 'b'], ['d', 'o', 'o', 'm']]

def mountInode (mounts : Mounts) (parent child : InodeIdentifier) : Mounts :=
  (parent, child) :: mounts.filter fun mount => mount.1 != parent

def insertFilesystem (vfs : Vfs) (partId : Nat) (fs : FileSystem) : Vfs :=
  { vfs with mountedFilesystems := Function.update vfs.mountedFilesystems partId (some fs) }

def init (cache : VfsState) (root : InodeIdentifier) : VfsState :=
  { cache with inodes := fun inode => if inode = root then some [] else none, root := root }

def makeNewRootChecks (new : NewFilesystem) : Except KernelErrorCode Unit := do
  let _ ← new.fs.stat rootInodeIndex rootInodeIndex
  let rootDirs ← new.fs.readDir rootInodeIndex
  (requiredDirs.filter fun dir => !rootDirs.any fun entry => entry.name == dir).forM new.create

/-- A root that cannot be read or lacks a name is a panic. -/
def mountVfsAdapters (adapter : Name → Adapter) (new : NewFilesystem) (vfs : Vfs) : Option Vfs :=
  let vfs := adapterMountpoints.foldl (fun vfs name => insertFilesystem vfs (adapter name).partitionId (adapter name).fs) vfs
  match new.after.stat rootInodeIndex rootInodeIndex, new.after.readDir rootInodeIndex with
  | .ok _, .ok entries => adapterMountpoints.foldlM (fun (vfs : Vfs) name =>
      (entries.find? fun entry => entry.name == name).map fun entry =>
        { vfs with globalMounts :=
            (mountInode vfs.globalMounts ⟨new.deviceId, entry.inode⟩ ⟨(adapter name).deviceId, rootInodeIndex⟩) }) vfs
  | _, _ => none

def mountAt (mountpoint : ResolvedPath) (new : NewFilesystem) (fs : FileSystem) (s : State) :
    Option (Except KernelErrorCode Unit × State) :=
  match getInodeChain s.vfs mountpoint none none s.cache with
  | none => none
  | some (.error e, cache) => some (.error e, { s with cache })
  | some (.ok (parent, _), cache) =>
    some (.ok (), ⟨{ insertFilesystem s.vfs new.partId fs with
      globalMounts := mountInode s.vfs.globalMounts parent new.root }, cache⟩)

def mountFilesystem (adapter : Name → Adapter) (mountpoint : ResolvedPath) (new : NewFilesystem) (s : State) :
    Option (Except KernelErrorCode Unit × State) :=
  if mountpoint.isEmpty then
    let cache := init s.cache new.root
    match makeNewRootChecks new with
    | .error e => some (.error e, { s with cache })
    | .ok () => (mountVfsAdapters adapter new s.vfs).bind fun vfs => mountAt mountpoint new new.after ⟨vfs, cache⟩
  else mountAt mountpoint new new.fs s

/-- A mount, or anything that leaves the table of mounts alone: lookups, changes of the drives and of their files. -/
inductive Action where
  | mount (mountpoint : ResolvedPath) (new : NewFilesystem)
  | other (after : State)

def step (adapter : Name → Adapter) (s : State) : Action → Option State
  | .mount mountpoint new => (mountFilesystem adapter mountpoint new s).map Prod.snd
  | .other after => if after.vfs.globalMounts = s.vfs.globalMounts then some after else none

/-! ## Tables without a cycle -/

def Over (mounts : Mounts) (above inode : InodeIdentifier) : Prop := mounts.lookup inode = some above

def Grounded (mounts : Mounts) : Prop := WellFounded (Over mounts)

section Grounds

variable {mounts : Mounts} {parent child : InodeIdentifier}

theorem lookup_mountInode (mounts : Mounts) (parent child inode : InodeIdentifier) :
    (mountInode mounts parent child).lookup inode = if inode = parent then some child else mounts.lookup inode := by
  rw [mountInode, List.lookup_cons]
  by_cases same : inode = parent
  · simp [same]
  simp only [beq_eq_false_iff_ne.mpr same, if_neg same]
  induction mounts with
  | nil => rfl
  | cons mount rest ih =>
    obtain ⟨point, -⟩ := mount
    by_cases replaced : point = parent
    · simp [List.lookup_cons, replaced, beq_eq_false_iff_ne.mpr same, ih]
    · simp [List.lookup_cons, replaced, ih]

theorem over_mountInode {above inode : InodeIdentifier} :
    Over (mountInode mounts parent child) above inode ↔ if inode = parent then child = above else Over mounts above inode := by
  rw [Over, lookup_mountInode]
  split
  · exact Option.some_inj
  · rfl

theorem acc_mountInode {inode : InodeIdentifier} (apart : ¬ Relation.ReflTransGen (Over mounts) parent child)
    (ends : Acc (Over mounts) child) (acc : Acc (Over mounts) inode) : Acc (Over (mountInode mounts parent child)) inode := by
  -- first the inodes that do not lead to the parent, among them the child
  have free {inode} (acc : Acc (Over mounts) inode) (leadsNot : ¬ Relation.ReflTransGen (Over mounts) parent inode) :
      Acc (Over (mountInode mounts parent child)) inode := by
    induction acc with
    | intro inode _ ih =>
      refine ⟨_, fun above lies => ?_⟩
      rw [over_mountInode, if_neg (by rintro rfl; exact leadsNot .refl)] at lies
      exact ih above lies fun leads => leadsNot (leads.tail lies)
  induction acc with
  | intro inode _ ih =>
    refine ⟨_, fun above lies => ?_⟩
    rw [over_mountInode] at lies
    split at lies
    · exact lies ▸ free ends apart
    · exact ih above lies

/-- Mounting keeps the table free of cycles exactly if what is mounted does not lead to the mount point yet. -/
theorem Grounded.mountInode_iff (grounded : Grounded mounts) :
    Grounded (mountInode mounts parent child) ↔ ¬ Relation.ReflTransGen (Over mounts) parent child := by
  constructor
  · intro still leads
    -- the old way from the child to the parent is still there, and the new mount closes it
    have way {inode} (old : Relation.ReflTransGen (Over mounts) parent inode) :
        Relation.ReflTransGen (Over (mountInode mounts parent child)) parent inode := by
      induction old with
      | refl => exact .refl
      | @tail middle inode _ last ih =>
        by_cases back : inode = parent
        · rw [back]
        · exact ih.tail (over_mountInode.mpr (by rwa [if_neg back]))
    exact still.transGen.irrefl.irrefl parent (.tail' (way leads) (over_mountInode.mpr (by rw [if_pos rfl])))
  · exact fun apart => ⟨fun inode => acc_mountInode apart (grounded.apply child) (grounded.apply inode)⟩

theorem not_loop {inode : InodeIdentifier} (acc : Acc (Over mounts) inode) :
    ¬ Relation.TransGen (Over mounts) inode inode := by
  replace acc := acc.transGen
  induction acc with
  | intro inode _ ih => exact fun loop => ih inode loop loop

/-- No inode is visited twice, so there are at most as many rounds as mounts. -/
theorem resolveMountPointLoop_isSome {inode : InodeIdentifier} (acc : Acc (Over mounts) inode) (fuel : Nat)
    (seen : List InodeIdentifier) (prevInode : Option InodeIdentifier) (once : seen.Nodup)
    (mounted : ∀ earlier ∈ seen, earlier ∈ mounts.map Prod.fst ∧ Relation.TransGen (Over mounts) inode earlier)
    (enough : mounts.length < fuel + seen.length) :
    (resolveMountPointLoop mounts [] fuel prevInode inode).isSome = true := by
  induction fuel generalizing seen prevInode inode with
  | zero =>
    have few := (once.subperm fun earlier member => (mounted earlier member).1).length_le
    rw [List.length_map] at few
    omega
  | succ fuel ih =>
    rw [resolveMountPointLoop]
    cases lies : mounts.lookup inode with
    | none => rfl
    | some above =>
      have key : inode ∈ mounts.map Prod.fst := by
        by_contra missing
        rw [List.lookup_eq_none_iff.mpr fun mount member => ?_] at lies
        · cases lies
        · exact bne_iff_ne.mpr fun same => missing (List.mem_map.mpr ⟨mount, member, same.symm⟩)
      refine ih (acc.inv lies) (inode :: seen) (some inode) (once.cons fun again => ?_) ?_ ?_
      · exact not_loop acc (mounted inode again).2
      · intro earlier member
        rcases List.mem_cons.mp member with rfl | before
        · exact ⟨key, .single lies⟩
        · exact ⟨(mounted earlier before).1, .head lies (mounted earlier before).2⟩
      · rw [List.length_cons]
        omega

end Grounds

/-! ## Lookups and runs -/

section Runs

variable {vfs : Vfs} {s after : State} {adapter : Name → Adapter}

theorem resolveMountPoint_isSome {inode : InodeIdentifier} (acc : Acc (Over vfs.globalMounts) inode) :
    (resolveMountPoint vfs inode none).isSome = true := by
  rw [resolveMountPoint, Option.isSome_map]
  exact resolveMountPointLoop_isSome acc _ [] none .nil nofun (by simp)

/-- No child of a directory is the start of an endless walk, neither on the drives nor in the cache. -/
structure ChildrenEnd (vfs : Vfs) (cache : VfsState) : Prop where
  listed : ∀ dir children, vfs.listing dir = .ok children → ∀ child ∈ children, Acc (Over vfs.globalMounts) child.2
  cached : ∀ dir children, cache.inodes dir = some children → ∀ child ∈ children, Acc (Over vfs.globalMounts) child.2

section

variable {cache : VfsState} (childrenEnd : ChildrenEnd vfs cache)

include childrenEnd

theorem ChildrenEnd.insert {dir : InodeIdentifier} {children : List (Name × InodeIdentifier)}
    (ends : ∀ child ∈ children, Acc (Over vfs.globalMounts) child.2) : ChildrenEnd vfs (cache.insert dir children) := by
  refine ⟨childrenEnd.listed, fun other cached found => ?_⟩
  simp only [VfsState.insert, Function.update_apply] at found
  split at found
  · cases found
    exact ends
  · exact childrenEnd.cached other cached found

theorem ChildrenEnd.insert_entries (children : List (Name × InodeIdentifier)) :
    ChildrenEnd vfs (children.foldl (fun cache child => cache.insert child.2 []) cache) := by
  induction children generalizing cache with
  | nil => exact childrenEnd
  | cons first rest ih => exact ih (childrenEnd.insert (by simp))

theorem loadDir_childrenEnd (dir : InodeIdentifier) :
    ∃ answer found, loadDir vfs dir cache = some (answer, found) ∧ ChildrenEnd vfs found := by
  unfold loadDir
  split
  next => exact ⟨_, _, rfl, childrenEnd⟩
  next children listed =>
    split
    · exact ⟨_, _, rfl, childrenEnd⟩
    · exact ⟨_, _, rfl, (childrenEnd.insert_entries children).insert (childrenEnd.listed dir children listed)⟩

theorem searchCache_childrenEnd {missing : Call InodeIdentifier}
    (elsewhere : ∃ answer found, missing cache = some (answer, found) ∧ ChildrenEnd vfs found)
    (parent : InodeIdentifier) (name : Name) : ∃ answer found,
      searchCache vfs parent name true none missing cache = some (answer, found) ∧ ChildrenEnd vfs found := by
  rw [searchCache]
  split
  next child cached =>
    have ends : Acc (Over vfs.globalMounts) child := by
      unfold VfsState.cachedChild at cached
      split at cached
      next => cases cached
      next children found =>
        obtain ⟨entry, search, rfl⟩ := Option.map_eq_some_iff.mp cached
        exact childrenEnd.cached parent children found entry (List.mem_of_find?_eq_some search)
    obtain ⟨found, resolved⟩ := Option.isSome_iff_exists.mp (resolveMountPoint_isSome ends)
    rw [overlaid, if_neg (by decide), resolved]
    exact ⟨_, _, rfl, childrenEnd⟩
  next => exact elsewhere

theorem getChild_childrenEnd (parent : InodeIdentifier) (name : Name) :
    ∃ answer found, getChild vfs parent name true none cache = some (answer, found) ∧ ChildrenEnd vfs found := by
  refine searchCache_childrenEnd childrenEnd ?_ parent name
  obtain ⟨answer, found, loaded, childrenEnd'⟩ := loadDir_childrenEnd childrenEnd parent
  cases answer with
  | error e =>
    rw [Call.andThen_error loaded]
    exact ⟨_, _, rfl, childrenEnd'⟩
  | ok loadedAll =>
    rw [Call.andThen_ok loaded]
    exact searchCache_childrenEnd childrenEnd' ⟨_, _, rfl, childrenEnd'⟩ parent name

theorem getInodeChainLoop_isSome (path : ResolvedPath) (chain : InodeIdentifierChain) (current : InodeIdentifier) :
    (getInodeChainLoop vfs none path chain current cache).isSome = true := by
  induction path generalizing chain current cache with
  | nil => rfl
  | cons component rest ih =>
    rw [getInodeChainLoop]
    split
    · split
      case isTrue long =>
        rw [List.getLast?_eq_some_getLast (dropLast_ne_nil long)]
        exact ih childrenEnd _ _
      case isFalse => exact ih childrenEnd _ _
    · obtain ⟨answer, found, child, childrenEnd'⟩ := getChild_childrenEnd childrenEnd current component
      cases answer with
      | error e =>
        rw [Call.andThen_error child]
        rfl
      | ok inode =>
        rw [Call.andThen_ok child]
        exact ih childrenEnd' _ _

theorem getInodeChain_isSome (path : ResolvedPath) (source : Option InodeIdentifierChain) :
    (getInodeChain vfs path source none cache).isSome = true := by
  rw [getInodeChain_run]
  exact getInodeChainLoop_isSome childrenEnd path _ _

end

/-- The mount is not one of a root, and what it mounts does not lead to the mount point yet. -/
def Allowed (s : State) : Action → Prop
  | .mount mountpoint new => mountpoint ≠ [] ∧ ∀ parent chain cache,
      getInodeChain s.vfs mountpoint none none s.cache = some (.ok (parent, chain), cache) →
        ¬ Relation.ReflTransGen (Over s.vfs.globalMounts) parent new.root
  | .other _ => True

theorem acc_step {action : Action} {inode : InodeIdentifier} (allowed : Allowed s action)
    (ends : ∀ mountpoint new, action = .mount mountpoint new → Acc (Over s.vfs.globalMounts) new.root)
    (taken : step adapter s action = some after) (acc : Acc (Over s.vfs.globalMounts) inode) :
    Acc (Over after.vfs.globalMounts) inode := by
  cases action with
  | other later =>
    obtain ⟨same, taken⟩ := Option.ite_none_right_eq_some.mp taken
    cases taken
    rwa [same]
  | mount mountpoint new =>
    obtain ⟨notRoot, apart⟩ := allowed
    rw [step, mountFilesystem, if_neg (by simpa using notRoot), mountAt] at taken
    cases lookup : getInodeChain s.vfs mountpoint none none s.cache with
    | none =>
      rw [lookup] at taken
      cases taken
    | some answer =>
      obtain ⟨⟨e⟩ | ⟨parent, chain⟩, cache⟩ := answer <;> rw [lookup] at taken <;> cases taken
      · exact acc
      · exact acc_mountInode (apart parent chain cache lookup) (ends mountpoint new rfl) acc

/-- After any mounts that are allowed, in any order, every mount point is resolved and every path looked up. -/
theorem mounts_always_resolve (adapter : Name → Adapter) (start finish : State) (actions : List Action)
    (empty : start.vfs.globalMounts = []) (each : EachStep (step adapter) Allowed start actions)
    (run : runs (step adapter) start actions = some finish) :
    (∀ inode, (resolveMountPoint finish.vfs inode none).isSome = true) ∧
      ∀ path source, (getInodeChain finish.vfs path source none finish.cache).isSome = true := by
  have grounded : Grounded finish.vfs.globalMounts :=
    runs_keeps_while (fun s => Grounded s.vfs.globalMounts)
      (fun grounded allowed taken =>
        ⟨fun inode => acc_step allowed (fun _ new _ => grounded.apply new.root) taken (grounded.apply inode)⟩)
      each run (by
        rw [empty]
        exact ⟨fun inode => ⟨inode, nofun⟩⟩)
  exact ⟨fun inode => resolveMountPoint_isSome (grounded.apply inode),
    getInodeChain_isSome ⟨fun _ _ _ _ _ => grounded.apply _, fun _ _ _ _ _ => grounded.apply _⟩⟩

/-! ## After the root is mounted -/

/-- What stands on the device of the root is below a mount of another device. -/
def Outward (device : Nat) (mounts : Mounts) : Prop :=
  ∀ mount ∈ mounts, mount.1.deviceId = device ∧ mount.2.deviceId ≠ device

theorem Outward.mountInode {device : Nat} {mounts : Mounts} {parent child : InodeIdentifier} (outward : Outward device mounts)
    (inside : parent.deviceId = device) (outside : child.deviceId ≠ device) :
    Outward device (mountInode mounts parent child) :=
  List.forall_mem_cons.mpr ⟨⟨inside, outside⟩, fun mount member => outward mount (List.mem_filter.mp member).1⟩

theorem Outward.acc {mounts : Mounts} {root inode : InodeIdentifier} (outward : Outward root.deviceId mounts)
    (other : inode ≠ root) : Acc (Over (Mounting.mountInode mounts root root)) inode := by
  have listed {above inode} (lies : Over mounts above inode) : (inode, above) ∈ mounts := by
    obtain ⟨before, behind, rfl, -⟩ := List.lookup_eq_some_iff.mp lies
    simp
  refine ⟨_, fun above lies => ⟨_, fun further lies' => ?_⟩⟩
  rw [over_mountInode, if_neg other] at lies
  have away := (outward _ (listed lies)).2
  rw [over_mountInode, if_neg (by rintro rfl; exact away rfl)] at lies'
  exact absurd (outward _ (listed lies')).1 away

theorem mountVfsAdapters_outward {new : NewFilesystem} {vfs vfs' : Vfs}
    (foreign : ∀ name, (adapter name).deviceId ≠ new.deviceId) (outward : Outward new.deviceId vfs.globalMounts)
    (run : mountVfsAdapters adapter new vfs = some vfs') : Outward new.deviceId vfs'.globalMounts := by
  have inserted (names : List Name) (vfs : Vfs) : (names.foldl (fun vfs name =>
      insertFilesystem vfs (adapter name).partitionId (adapter name).fs) vfs).globalMounts = vfs.globalMounts := by
    induction names generalizing vfs with
    | nil => rfl
    | cons name rest ih => exact ih _
  unfold mountVfsAdapters at run
  rw [← inserted adapterMountpoints] at outward
  generalize adapterMountpoints.foldl (fun vfs name =>
    insertFilesystem vfs (adapter name).partitionId (adapter name).fs) vfs = vfs at outward run
  dsimp only at run
  split at run
  next entries _ _ =>
    generalize adapterMountpoints = names at run
    clear inserted
    induction names generalizing vfs with
    | nil =>
      cases run
      exact outward
    | cons name rest ih =>
      rw [List.foldlM_cons] at run
      obtain ⟨between, first, run⟩ := Option.bind_eq_some_iff.mp run
      obtain ⟨entry, -, rfl⟩ := Option.map_eq_some_iff.mp first
      exact ih _ (outward.mountInode rfl (foreign name)) run
  next => cases run

/-- The root of a boot is mounted on itself, and nothing else leads to a cycle. -/
theorem acc_of_boot {new : NewFilesystem} {start booted : State} (empty : start.vfs.globalMounts = [])
    (foreign : ∀ name, (adapter name).deviceId ≠ new.deviceId)
    (boot : mountFilesystem adapter [] new start = some (.ok (), booted)) {inode : InodeIdentifier}
    (other : inode ≠ new.root) : Acc (Over booted.vfs.globalMounts) inode := by
  rw [mountFilesystem, if_pos List.isEmpty_nil] at boot
  dsimp only at boot
  split at boot
  next => cases boot
  obtain ⟨vfs, mounted, boot⟩ := Option.bind_eq_some_iff.mp boot
  have outward := mountVfsAdapters_outward foreign (by rw [empty]; exact fun _ => nofun) mounted
  have table : booted.vfs.globalMounts = mountInode vfs.globalMounts new.root new.root := by
    cases boot
    rfl
  rw [table]
  exact outward.acc other

def AllowedAfterBoot (root : InodeIdentifier) (s : State) (action : Action) : Prop :=
  Allowed s action ∧ ∀ mountpoint new, action = .mount mountpoint new → new.root ≠ root

/-- After the mount of a root and any allowed mounts of other file systems, in any order: every mount point but the root
is resolved, and every path is looked up as long as no directory lists the root. -/
theorem mounts_resolve_after_boot (adapter : Name → Adapter) (new : NewFilesystem) (start booted finish : State)
    (actions : List Action) (empty : start.vfs.globalMounts = [])
    (foreign : ∀ name, (adapter name).deviceId ≠ new.deviceId)
    (boot : mountFilesystem adapter [] new start = some (.ok (), booted))
    (each : EachStep (step adapter) (AllowedAfterBoot new.root) booted actions)
    (run : runs (step adapter) booted actions = some finish) :
    (∀ inode, inode ≠ new.root → (resolveMountPoint finish.vfs inode none).isSome = true) ∧
      ((∀ dir children, finish.vfs.listing dir = .ok children → ∀ child ∈ children, child.2 ≠ new.root) →
      (∀ dir children, finish.cache.inodes dir = some children → ∀ child ∈ children, child.2 ≠ new.root) →
      ∀ path source, (getInodeChain finish.vfs path source none finish.cache).isSome = true) := by
  have ends : ∀ inode, inode ≠ new.root → Acc (Over finish.vfs.globalMounts) inode := by
    refine runs_keeps_while (fun s => ∀ inode, inode ≠ new.root → Acc (Over s.vfs.globalMounts) inode) ?_ each run
      fun inode => acc_of_boot empty foreign boot
    exact fun ends allowed taken inode other => acc_step allowed.1
      (fun mountpoint added same => ends _ (allowed.2 mountpoint added same)) taken (ends inode other)
  exact ⟨fun inode other => resolveMountPoint_isSome (ends inode other), fun listed cached => getInodeChain_isSome
    ⟨fun dir children found child member => ends _ (listed dir children found child member),
      fun dir children found child member => ends _ (cached dir children found child member)⟩⟩

end Runs

def sevenDirs : FileSystem where
  readDir _ := .ok [⟨3, ['t', 't', 'y']⟩, ⟨4, ['p', 'r', 'o', 'c']⟩, ⟨5, ['n', 'e', 't']⟩, ⟨6, ['n', 'u', 'l', 'l']⟩,
    ⟨7, ['i', 'n', 'p', 'u', 't']⟩, ⟨8, ['f', 'b']⟩, ⟨9, ['d', 'o', 'o', 'm']⟩]
  stat _ _ := .ok ⟨1, true⟩
  fHandleOpen _ := .ok ()

def onDevice (device : Nat) : NewFilesystem := ⟨device, device, sevenDirs, fun _ => .ok (), sevenDirs⟩

def sameAdapter (_ : Name) : Adapter := ⟨10, 10, sevenDirs⟩

def bareState : State where
  vfs := ⟨some, fun partition => if partition = 1 then some sevenDirs else none, []⟩
  cache := ⟨fun _ => none, ⟨1, 2⟩, fun _ => none⟩

theorem mounts_always_resolve_net :
    ∃ finish, runs (step sameAdapter) bareState [.mount [['n', 'e', 't']] (onDevice 2)] = some finish ∧
      finish.vfs.globalMounts = [(⟨1, 5⟩, ⟨2, 2⟩)] ∧
      ∀ inode, (resolveMountPoint finish.vfs inode none).isSome = true := by
  refine ⟨_, rfl, rfl, (mounts_always_resolve sameAdapter bareState _ [.mount [['n', 'e', 't']] (onDevice 2)] rfl
    ⟨⟨by decide, fun parent chain cache found leads => ?_⟩, fun _ _ => trivial⟩ rfl).1⟩
  cases found
  rcases leads.cases_tail with same | ⟨_, _, lies⟩
  · cases same
  · cases lies

example : ∃ booted finish, mountFilesystem sameAdapter [] (onDevice 1) bareState = some (.ok (), booted) ∧
    runs (step sameAdapter) booted [.mount [['n', 'e', 't']] (onDevice 2)] = some finish ∧
    ∀ inode, inode ≠ ⟨1, 2⟩ → (resolveMountPoint finish.vfs inode none).isSome = true := by
  refine ⟨_, _, rfl, rfl, (mounts_resolve_after_boot sameAdapter (onDevice 1) bareState _ _
    [.mount [['n', 'e', 't']] (onDevice 2)] rfl (fun _ => by simp [sameAdapter, onDevice]) rfl
    ⟨⟨⟨by decide, fun parent chain cache found leads => ?_⟩, ?_⟩, fun _ _ => trivial⟩ rfl).1⟩
  · cases found
    rcases leads.cases_tail with same | ⟨_, _, lies⟩
    · cases same
    · cases lies
  · rintro _ _ ⟨⟩
    decide

/-- A root that is mounted is mounted on itself, and a path through it is never resolved. -/
theorem root_mount_never_resolves : ∃ after, mountFilesystem sameAdapter [] (onDevice 1) bareState = some (.ok (), after) ∧
    (∀ fuel prevInode, resolveMountPointLoop after.vfs.globalMounts [] fuel prevInode ⟨1, 2⟩ = none) ∧
    ∃ again, mountFilesystem sameAdapter [['n', 'e', 't']] (onDevice 1) after = some (.ok (), again) ∧
      getInodeChain again.vfs [['n', 'e', 't']] none none again.cache = none := by
  refine ⟨_, rfl, fun fuel prevInode => ?_, _, rfl, rfl⟩
  induction fuel generalizing prevInode with
  | zero => rfl
  | succ fuel ih => exact ih _

end MeowOs.Files.Mounting
