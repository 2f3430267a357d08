import MeowOs.KernelError
import MeowOs.Machine.BinarySearch
import MeowOs.Machine.Interleaving

/-! # Syscall namespaces

`syscall_namespace.rs`: packs of syscalls are mapped at multiples of 32, and each
mapped pack has a mask of the syscalls that may be called.  `disable_syscall` and
`disable_syscall_by_mask` are meant to take syscalls away.  Both combine the mask
with an `or`, and since a pack is mapped with the full mask neither changes
anything; `disabling_effective_iff` says when that is what was asked for.  Dispatch
is exact (`syscall_dispatch_exact`), unmapping looks for the pack by its id in the
list that is sorted by base (`unmap_exact_iff`).
-/

namespace MeowOs.Proc

open MeowOs.Machine

variable {η : Type} {pos : Nat}

/-- A registered `SyscallPack`; the registry takes fewer than 32 handlers. -/
structure SyscallPack (η : Type) where
  handlers : List η
  few : handlers.length < 32

def SyscallPack.getHandler (pack : SyscallPack η) (index : Nat) : Option η := pack.handlers[index]?

structure MappedSyscallPack (η : Type) where
  base : Nat
  mask : BitVec 32
  packId : Nat
  pack : SyscallPack η

/-- The packs are sorted by their bases, which are multiples of 32. -/
structure SyscallNamespace (η : Type) where
  id : Nat
  mappedSyscalls : List (MappedSyscallPack η)
  sorted : mappedSyscalls.Pairwise fun a b => a.base < b.base
  aligned : ∀ mapped ∈ mappedSyscalls, mapped.base % 32 = 0 ∧ mapped.base ≤ 0xFFFFFFE0

namespace SyscallNamespace

def createEmpty (id : Nat) : SyscallNamespace η where
  id := id
  mappedSyscalls := []
  sorted := List.Pairwise.nil
  aligned := nofun

def createFrom (id : Nat) (other : SyscallNamespace η) : SyscallNamespace η := { other with id := id }

def searchBase (number : Nat) (packs : List (MappedSyscallPack η)) : Except Nat Nat :=
  binarySearch (fun mapped => compare mapped.base number) packs

theorem sortedBy_base (ns : SyscallNamespace η) :
    SortedBy (fun mapped : MappedSyscallPack η => mapped.base) ns.mappedSyscalls :=
  ns.sorted.imp Nat.le_of_lt

theorem insert_sorted {ns : SyscallNamespace η} {mapped : MappedSyscallPack η}
    (free : searchBase mapped.base ns.mappedSyscalls = .error pos) :
    (ns.mappedSyscalls.take pos ++ mapped :: ns.mappedSyscalls.drop pos).Pairwise fun a b => a.base < b.base := by
  obtain ⟨splits, noneEqual⟩ := binarySearch_missing (ns.sortedBy_base.ascends_key mapped.base) free
  refine pairwise_insert Nat.lt_trans ns.sorted (fun other member => ?_) fun other member => ?_
  · have order := splits.take member
    have different := noneEqual other (List.mem_of_mem_take member)
    rw [Ne, compare_gt_iff_gt] at order
    rw [Ne, compare_eq_iff_eq] at different
    omega
  · have order := splits.drop member
    have different := noneEqual other (List.mem_of_mem_drop member)
    rw [Ne, compare_lt_iff_lt] at order
    rw [Ne, compare_eq_iff_eq] at different
    omega

def mapSyscallPack (baseIndex : Nat) (pack : SyscallPack η) (packId : Nat) (ns : SyscallNamespace η) :
    Except KernelErrorCode (SyscallNamespace η) :=
  if high : baseIndex > 0xFFFFFFFF - 31 then .error .invalidArgument
  else if odd : baseIndex % 32 ≠ 0 then .error .invalidArgument
  else match free : searchBase baseIndex ns.mappedSyscalls with
    -- already mapped
    | .ok _ => .error .invalidArgument
    | .error pos => .ok
      { id := ns.id
        mappedSyscalls := ns.mappedSyscalls.take pos ++
          ⟨baseIndex, BitVec.allOnes 32, packId, pack⟩ :: ns.mappedSyscalls.drop pos
        sorted := insert_sorted free
        aligned := by
          intro mapped member
          obtain low | member := List.mem_append.mp member
          · exact ns.aligned mapped (List.mem_of_mem_take low)
          · obtain rfl | high := List.mem_cons.mp member
            · exact ⟨Decidable.not_not.mp odd, Nat.le_of_not_lt high⟩
            · exact ns.aligned mapped (List.mem_of_mem_drop high) }

/-- The search is by pack id, in the list that is sorted by base. -/
def unmapSyscallPackByOffset (offset : Nat) (ns : SyscallNamespace η) : Except KernelErrorCode (SyscallNamespace η) :=
  match binarySearch (fun mapped => compare mapped.packId offset) ns.mappedSyscalls with
  | .ok pos => .ok
    { id := ns.id
      mappedSyscalls := ns.mappedSyscalls.eraseIdx pos
      sorted := ns.sorted.sublist (List.eraseIdx_sublist _ pos)
      aligned := fun mapped member => ns.aligned mapped ((List.eraseIdx_sublist _ pos).subset member) }
  | .error _ => .error .invalidArgument

/-- The place of the pack that `get_pack` and `get_pack_mut` find for a syscall number. -/
def packPosition (number : Nat) (packs : List (MappedSyscallPack η)) : Option Nat :=
  let pos := match searchBase number packs with
    | .ok pos => pos
    | .error pos => pos - 1
  match packs[pos]? with
  | none => none
  | some found => if number < found.base ∨ number ≥ found.base + 32 then none else some pos

def withMask (ns : SyscallNamespace η) (pos : Nat) (change : MappedSyscallPack η → BitVec 32) : SyscallNamespace η where
  id := ns.id
  mappedSyscalls := ns.mappedSyscalls.modify pos fun mapped => { mapped with mask := change mapped }
  sorted := by
    have bases : (ns.mappedSyscalls.modify pos fun mapped => { mapped with mask := change mapped }).map (·.base) =
        ns.mappedSyscalls.map (·.base) := by
      refine List.ext_getElem? fun i => ?_
      rw [List.getElem?_map, List.getElem?_modify, List.getElem?_map]
      cases ns.mappedSyscalls[i]? with
      | none => rfl
      | some mapped => split <;> rfl
    have sorted : (ns.mappedSyscalls.map (·.base)).Pairwise (· < ·) := List.pairwise_map.mpr ns.sorted
    rw [← bases] at sorted
    exact List.pairwise_map.mp sorted
  aligned := by
    intro mapped member
    obtain ⟨i, there⟩ := List.mem_iff_getElem?.mp member
    rw [List.getElem?_modify] at there
    obtain ⟨old, here, rfl⟩ := Option.map_eq_some_iff.mp there
    have aligned := ns.aligned old (List.mem_of_getElem? here)
    split <;> exact aligned

def disableSyscall (number : Nat) (ns : SyscallNamespace η) : Except KernelErrorCode (SyscallNamespace η) :=
  match packPosition number ns.mappedSyscalls with
  | none => .error .invalidArgument
  | some pos => .ok (ns.withMask pos fun mapped => mapped.mask ||| ~~~(1#32 <<< (number - mapped.base)))

def disableSyscallByMask (packOffset : Nat) (mask : BitVec 32) (ns : SyscallNamespace η) :
    Except KernelErrorCode (SyscallNamespace η) :=
  match ns.mappedSyscalls.findIdx? fun mapped => mapped.base == packOffset with
  | none => .error .invalidArgument
  | some pos => .ok (ns.withMask pos fun mapped => mapped.mask ||| mask)

def getSyscallHandler (ns : SyscallNamespace η) (number : Nat) : Option η := do
  let pos ← packPosition number ns.mappedSyscalls
  let mapped ← ns.mappedSyscalls[pos]?
  let inPackIndex := number - mapped.base
  if mapped.mask &&& (1#32 <<< inPackIndex) = 0 then none else mapped.pack.getHandler inPackIndex

/-- The syscall `restrict` on the namespace that the caller names, if it has one by that id: what it returns, and the
namespace after it. -/
def restrict (offset mask : Nat) : Option (SyscallNamespace η) → Nat × Option (SyscallNamespace η)
  | none => (2 ^ 64 - 1, none)
  | some ns =>
    match ns.disableSyscallByMask (offset % 2 ^ 32) (BitVec.ofNat 32 mask) with
    | .error _ => (2 ^ 64 - 1, some ns)
    | .ok ns => (0, some ns)

/-! ## Dispatch -/

def Covers (mapped : MappedSyscallPack η) (number : Nat) : Prop := mapped.base ≤ number ∧ number < mapped.base + 32

variable {ns next : SyscallNamespace η} {number : Nat} {mapped : MappedSyscallPack η} {mask : BitVec 32}
  {pack : SyscallPack η} {offset : Nat}

theorem eq_of_covers {i j : Nat} {a b : MappedSyscallPack η} (first : ns.mappedSyscalls[i]? = some a)
    (second : ns.mappedSyscalls[j]? = some b) (byFirst : Covers a number) (bySecond : Covers b number) : i = j := by
  have alignedFirst := (ns.aligned a (List.mem_of_getElem? first)).1
  have alignedSecond := (ns.aligned b (List.mem_of_getElem? second)).1
  have sameBase : a.base = b.base := by
    obtain ⟨low, high⟩ := byFirst
    obtain ⟨otherLow, otherHigh⟩ := bySecond
    omega
  have strict {i j : Nat} {a b : MappedSyscallPack η} (first : ns.mappedSyscalls[i]? = some a)
      (second : ns.mappedSyscalls[j]? = some b) (lt : i < j) : a.base < b.base := by
    obtain ⟨hi, rfl⟩ := List.getElem?_eq_some_iff.mp first
    obtain ⟨hj, rfl⟩ := List.getElem?_eq_some_iff.mp second
    exact List.pairwise_iff_getElem.mp ns.sorted i j hi hj lt
  obtain lt | same | gt := Nat.lt_trichotomy i j
  · exact absurd (strict first second lt) (by omega)
  · exact same
  · exact absurd (strict second first gt) (by omega)

theorem packPosition_covers {packs : List (MappedSyscallPack η)}
    (found : packPosition number packs = some pos) : ∃ mapped, packs[pos]? = some mapped ∧ Covers mapped number := by
  simp only [packPosition] at found
  split at found
  next => cases found
  next mapped here =>
  split at found
  next => cases found
  · cases found
    exact ⟨mapped, here, by omega, by omega⟩

theorem packPosition_of_covers {i : Nat} (here : ns.mappedSyscalls[i]? = some mapped) (covers : Covers mapped number) :
    packPosition number ns.mappedSyscalls = some i := by
  obtain ⟨pos, other, there, low, near, search⟩ : ∃ pos other, ns.mappedSyscalls[pos]? = some other ∧
      other.base ≤ number ∧ mapped.base ≤ other.base ∧ (match searchBase number ns.mappedSyscalls with
        | .ok pos => pos
        | .error pos => pos - 1) = pos := by
    cases search : searchBase number ns.mappedSyscalls with
    | ok pos =>
      obtain ⟨other, there, equal⟩ := binarySearch_ok search
      rw [compare_eq_iff_eq] at equal
      exact ⟨pos, other, there, by omega, by rw [equal]; exact covers.1, rfl⟩
    | error pos =>
      obtain ⟨splits, noneEqual⟩ := binarySearch_missing (ns.sortedBy_base.ascends_key number) search
      have different := noneEqual mapped (List.mem_of_getElem? here)
      rw [Ne, compare_eq_iff_eq] at different
      -- the pack is below the number, so it is before the place where the number belongs
      have before : i < pos := by
        by_contra behind
        have order := splits.after i mapped here (by omega)
        rw [Ne, compare_lt_iff_lt] at order
        exact absurd covers.1 (by omega)
      have bounded := splits.le_length
      obtain ⟨other, there⟩ : ∃ other, ns.mappedSyscalls[pos - 1]? = some other :=
        ⟨_, List.getElem?_eq_getElem (show pos - 1 < ns.mappedSyscalls.length by omega)⟩
      have order := splits.before (pos - 1) other there (by omega)
      rw [Ne, compare_gt_iff_gt] at order
      exact ⟨pos - 1, other, there, by omega, ns.sortedBy_base.le_of_getElem? here there (by omega), rfl⟩
  have otherCovers : Covers other number := ⟨low, Nat.lt_of_lt_of_le covers.2 (by omega)⟩
  obtain rfl := eq_of_covers here there covers otherCovers
  simp only [packPosition, search, there]
  exact if_neg (by obtain ⟨_, high⟩ := otherCovers; omega)

theorem and_bit_eq_zero_iff (mask : BitVec 32) {index : Nat} (inside : index < 32) :
    mask &&& (1#32 <<< index) = 0 ↔ mask.getLsbD index = false := by
  constructor
  · intro zero
    have bit := congrArg (·.getLsbD index) zero
    simpa [inside] using bit
  intro clear
  refine BitVec.eq_of_getLsbD_eq fun i small => ?_
  by_cases same : i = index
  · subst same
    simp [clear]
  have unset : (1#32 <<< index).getLsbD i = false := by
    rw [BitVec.getLsbD_shiftLeft, BitVec.getLsbD_one]
    simp only [Bool.and_eq_false_iff, Bool.not_eq_false', decide_eq_true_eq, decide_eq_false_iff_not]
    omega
  rw [BitVec.getLsbD_and, unset, Bool.and_false]
  exact BitVec.getLsbD_zero.symm

theorem getSyscallHandler_of_covers
    (member : mapped ∈ ns.mappedSyscalls) (covers : Covers mapped number) : ns.getSyscallHandler number =
      if mapped.mask.getLsbD (number - mapped.base) then mapped.pack.handlers[number - mapped.base]? else none := by
  obtain ⟨i, here⟩ := List.mem_iff_getElem?.mp member
  have inside : number - mapped.base < 32 := by
    obtain ⟨_, high⟩ := covers
    omega
  simp only [getSyscallHandler, packPosition_of_covers here covers, here, Option.bind_eq_bind, Option.bind_some,
    and_bit_eq_zero_iff mapped.mask inside, SyscallPack.getHandler]
  cases mapped.mask.getLsbD (number - mapped.base) <;> rfl

theorem getSyscallHandler_of_not_covers
    (free : ∀ mapped ∈ ns.mappedSyscalls, ¬ Covers mapped number) : ns.getSyscallHandler number = none := by
  cases found : packPosition number ns.mappedSyscalls with
  | none => simp only [getSyscallHandler, found, Option.bind_eq_bind, Option.bind_none]
  | some pos =>
    obtain ⟨mapped, here, covers⟩ := packPosition_covers found
    exact absurd covers (free mapped (List.mem_of_getElem? here))

/-- Every namespace keeps its packs in order, so these are the answers behind every sequence of calls. -/
theorem syscall_dispatch_exact (ns : SyscallNamespace η) (number : Nat) :
    (∀ mapped ∈ ns.mappedSyscalls, Covers mapped number → ns.getSyscallHandler number =
      if mapped.mask.getLsbD (number - mapped.base) then mapped.pack.handlers[number - mapped.base]? else none) ∧
    ((∀ mapped ∈ ns.mappedSyscalls, ¬ Covers mapped number) → ns.getSyscallHandler number = none) ∧
    ns.mappedSyscalls.Pairwise fun a b => a.base + 32 ≤ b.base := by
  refine ⟨fun _ => getSyscallHandler_of_covers, getSyscallHandler_of_not_covers, ns.sorted.imp_of_mem ?_⟩
  intro a b first second less
  have alignedFirst := (ns.aligned a first).1
  have alignedSecond := (ns.aligned b second).1
  omega

/-- The pack at the offset goes, all others stay with their masks, and the call fails if there is none. -/
def UnmapsExactly (ns : SyscallNamespace η) (offset : Nat) : Prop :=
  match ns.unmapSyscallPackByOffset offset with
  | .ok next => (∃ mapped ∈ ns.mappedSyscalls, mapped.base = offset) ∧
      ∀ mapped, mapped ∈ next.mappedSyscalls ↔ mapped ∈ ns.mappedSyscalls ∧ mapped.base ≠ offset
  | .error _ => ∀ mapped ∈ ns.mappedSyscalls, mapped.base ≠ offset

theorem unmapSyscallPackByOffset_cases (ns : SyscallNamespace η) (offset : Nat) :
    (∃ pos mapped next, ns.unmapSyscallPackByOffset offset = .ok next ∧ ns.mappedSyscalls[pos]? = some mapped ∧
      mapped.packId = offset ∧ next.mappedSyscalls = ns.mappedSyscalls.eraseIdx pos) ∨
    ∃ place, ns.unmapSyscallPackByOffset offset = .error .invalidArgument ∧
      binarySearch (fun mapped => compare mapped.packId offset) ns.mappedSyscalls = .error place := by
  rw [unmapSyscallPackByOffset]
  cases search : binarySearch (fun mapped => compare mapped.packId offset) ns.mappedSyscalls with
  | ok pos =>
    obtain ⟨mapped, here, equal⟩ := binarySearch_ok search
    exact .inl ⟨pos, mapped, _, rfl, here, compare_eq_iff_eq.mp equal, rfl⟩
  | error place => exact .inr ⟨place, rfl, rfl⟩

/-- Unmapping is exact on a namespace if every pack is mapped at the offset that is its id. -/
theorem unmap_exact_iff (ns : SyscallNamespace η) :
    (∀ offset, ns.UnmapsExactly offset) ↔ ∀ mapped ∈ ns.mappedSyscalls, mapped.packId = mapped.base := by
  constructor
  · intro exact mapped member
    have unmaps := exact mapped.base
    rw [UnmapsExactly] at unmaps
    obtain ⟨pos, found, next, run, there, same, rest⟩ | ⟨-, run, -⟩ := ns.unmapSyscallPackByOffset_cases mapped.base
    · rw [run] at unmaps
      obtain ⟨i, here⟩ := List.mem_iff_getElem?.mp member
      by_cases other : i = pos
      · subst other
        cases here.symm.trans there
        exact same
      -- the pack would still be there
      have kept : mapped ∈ next.mappedSyscalls := by
        rw [rest]
        exact List.mem_eraseIdx_iff_getElem?.mpr ⟨i, other, here⟩
      exact absurd rfl ((unmaps.2 mapped).mp kept).2
    · rw [run] at unmaps
      exact absurd rfl (unmaps mapped member)
  · intro byId offset
    rw [UnmapsExactly]
    obtain ⟨pos, found, next, run, there, same, rest⟩ | ⟨place, run, search⟩ := ns.unmapSyscallPackByOffset_cases offset
    · rw [run]
      have inside := List.mem_of_getElem? there
      have base : found.base = offset := (byId found inside).symm.trans same
      refine ⟨⟨found, inside, base⟩, fun mapped => ?_⟩
      rw [rest, List.mem_eraseIdx_iff_getElem?]
      constructor
      · rintro ⟨i, other, here⟩
        refine ⟨List.mem_of_getElem? here, fun equal => other ?_⟩
        have covers : ∀ pack : MappedSyscallPack η, pack.base = offset → Covers pack offset := fun _ same =>
          ⟨same.le, by omega⟩
        exact eq_of_covers here there (covers mapped equal) (covers found base)
      · rintro ⟨member, different⟩
        obtain ⟨i, here⟩ := List.mem_iff_getElem?.mp member
        refine ⟨i, ?_, here⟩
        rintro rfl
        cases here.symm.trans there
        exact different base
    · rw [run]
      have sorted : SortedBy (fun mapped : MappedSyscallPack η => mapped.packId) ns.mappedSyscalls :=
        ns.sortedBy_base.imp_of_mem fun first second less => by
          simpa only [byId _ first, byId _ second] using less
      intro mapped member equal
      refine (binarySearch_missing (sorted.ascends_key offset) search).2 mapped member ?_
      rw [compare_eq_iff_eq, byId mapped member, equal]

/-! ## Runs -/

inductive Call (η : Type) where
  | map (baseIndex : Nat) (pack : SyscallPack η) (packId : Nat)
  | unmap (offset : Nat)
  | disableSyscall (number : Nat)
  | disableSyscallByMask (packOffset : Nat) (mask : BitVec 32)
  | restrict (offset mask : Nat)

def settle (ns : SyscallNamespace η) : Except KernelErrorCode (SyscallNamespace η) → SyscallNamespace η
  | .ok next => next
  | .error _ => ns

def step (ns : SyscallNamespace η) : Call η → Option (SyscallNamespace η)
  | .map baseIndex pack packId => some (ns.settle (ns.mapSyscallPack baseIndex pack packId))
  | .unmap offset => some (ns.settle (ns.unmapSyscallPackByOffset offset))
  | .disableSyscall number => some (ns.settle (ns.disableSyscall number))
  | .disableSyscallByMask packOffset mask => some (ns.settle (ns.disableSyscallByMask packOffset mask))
  | .restrict offset mask => (restrict offset mask (some ns)).2

/-- The namespaces that the kernel makes: new ones, copies, and what calls make of them. -/
inductive Reachable : SyscallNamespace η → Prop where
  | createEmpty (id : Nat) : Reachable (createEmpty id)
  | createFrom (id : Nat) {other : SyscallNamespace η} : Reachable other → Reachable (createFrom id other)
  | step {ns next : SyscallNamespace η} (call : Call η) : Reachable ns → ns.step call = some next → Reachable next

theorem mem_mapSyscallPack {baseIndex packId : Nat} (returned : ns.mapSyscallPack baseIndex pack packId = .ok next) :
    mapped ∈ next.mappedSyscalls ↔ mapped = ⟨baseIndex, BitVec.allOnes 32, packId, pack⟩ ∨ mapped ∈ ns.mappedSyscalls := by
  rw [mapSyscallPack] at returned
  split at returned
  next => cases returned
  split at returned
  next => cases returned
  split at returned
  next => cases returned
  · cases returned
    rw [List.perm_middle.mem_iff, List.take_append_drop, List.mem_cons]

def FullMasks (ns : SyscallNamespace η) : Prop := ∀ mapped ∈ ns.mappedSyscalls, mapped.mask = BitVec.allOnes 32

section

variable (full : ns.FullMasks)

include full

theorem withMask_eq_self (pos : Nat)
    (more : MappedSyscallPack η → BitVec 32) : (ns.withMask pos fun mapped => mapped.mask ||| more mapped) = ns := by
  have same : (ns.mappedSyscalls.modify pos fun mapped => { mapped with mask := mapped.mask ||| more mapped }) =
      ns.mappedSyscalls := by
    refine List.ext_getElem? fun i => ?_
    rw [List.getElem?_modify]
    cases here : ns.mappedSyscalls[i]? with
    | none => rfl
    | some mapped =>
      have kept : { mapped with mask := mapped.mask ||| more mapped } = mapped := by
        rw [full mapped (List.mem_of_getElem? here), BitVec.allOnes_or, ← full mapped (List.mem_of_getElem? here)]
      split
      · exact congrArg some kept
      · rfl
  simp only [withMask] at same ⊢
  congr

theorem disableSyscall_eq_self (returned : ns.disableSyscall number = .ok next) : next = ns := by
  rw [disableSyscall] at returned
  split at returned
  next => cases returned
  next pos _ =>
    cases returned
    exact withMask_eq_self full pos _

theorem disableSyscallByMask_eq_ok_iff {packOffset : Nat} : ns.disableSyscallByMask packOffset mask = .ok next ↔
      next = ns ∧ ∃ mapped ∈ ns.mappedSyscalls, mapped.base = packOffset := by
  rw [disableSyscallByMask]
  cases found : ns.mappedSyscalls.findIdx? fun mapped => mapped.base == packOffset with
  | none =>
    refine ⟨fun returned => ?_, fun ⟨_, mapped, member, same⟩ => ?_⟩
    · cases returned
    exact absurd (List.findIdx?_eq_none_iff.mp found mapped member) (by simp [same])
  | some pos =>
    obtain ⟨inside, same, -⟩ := List.findIdx?_eq_some_iff_getElem.mp found
    have mapped := And.intro (List.getElem_mem inside) (beq_iff_eq.mp same)
    simp only [withMask_eq_self full, Except.ok.injEq]
    exact ⟨fun returned => ⟨returned.symm, _, mapped⟩, fun ⟨returned, _⟩ => returned.symm⟩

theorem mapSyscallPack_full {baseIndex packId : Nat}
    (returned : ns.mapSyscallPack baseIndex pack packId = .ok next) : next.FullMasks := by
  intro mapped member
  obtain rfl | old := (mem_mapSyscallPack returned).mp member
  · rfl
  · exact full mapped old

theorem unmapSyscallPackByOffset_full
    (returned : ns.unmapSyscallPackByOffset offset = .ok next) : next.FullMasks := by
  rw [unmapSyscallPackByOffset] at returned
  split at returned
  next pos _ =>
    cases returned
    exact fun mapped member => full mapped ((List.eraseIdx_sublist _ pos).subset member)
  next => cases returned

theorem settle_full {answer : Except KernelErrorCode (SyscallNamespace η)}
    (keeps : ∀ next, answer = .ok next → next.FullMasks) : (ns.settle answer).FullMasks := by
  cases answer with
  | ok next => exact keeps next rfl
  | error code => exact full

theorem step_full {call : Call η} (stepped : ns.step call = some next) : next.FullMasks := by
  cases call with
  | map baseIndex pack packId =>
    cases stepped
    exact settle_full full fun next returned => mapSyscallPack_full full returned
  | unmap offset =>
    cases stepped
    exact settle_full full fun next returned => unmapSyscallPackByOffset_full full returned
  | disableSyscall number =>
    cases stepped
    exact settle_full full fun next returned => disableSyscall_eq_self full returned ▸ full
  | disableSyscallByMask packOffset mask =>
    cases stepped
    exact settle_full full fun next returned => ((disableSyscallByMask_eq_ok_iff full).mp returned).1 ▸ full
  | restrict offset mask =>
    rw [step, restrict] at stepped
    split at stepped
    · cases stepped
      exact full
    next next returned =>
      cases stepped
      exact ((disableSyscallByMask_eq_ok_iff full).mp returned).1 ▸ full

end

theorem Reachable.full (reachable : Reachable ns) : ns.FullMasks := by
  induction reachable with
  | createEmpty id => exact nofun
  | createFrom id _ full => exact full
  | step call _ stepped full => exact step_full full stepped

/-! ## What disabling does -/

structure OnlyRestricts (ns next : SyscallNamespace η) (base : Nat) : Prop where
  others : ∀ number, number < base ∨ base + 32 ≤ number → next.getSyscallHandler number = ns.getSyscallHandler number
  neverGrants : ∀ number, ns.getSyscallHandler number = none → next.getSyscallHandler number = none

/-- After `disable_syscall_by_mask` the syscalls of the pack with a bit in the mask are left. -/
structure KeepsMasked (ns next : SyscallNamespace η) (base : Nat) (mask : BitVec 32) : Prop where
  masked : ∀ index < 32, next.getSyscallHandler (base + index) =
    if mask.getLsbD index then ns.getSyscallHandler (base + index) else none
  restricts : OnlyRestricts ns next base

def Effective (ns : SyscallNamespace η) : Call η → Prop
  | .map _ _ _ | .unmap _ => True
  | .disableSyscall number => ∀ next, ns.disableSyscall number = .ok next →
      next.getSyscallHandler number = none ∧ OnlyRestricts ns next (number / 32 * 32)
  | .disableSyscallByMask packOffset mask => ∀ next, ns.disableSyscallByMask packOffset mask = .ok next →
      KeepsMasked ns next packOffset mask
  | .restrict offset mask => ∀ next, restrict offset mask (some ns) = (0, some next) →
      KeepsMasked ns next (offset % 2 ^ 32) (BitVec.ofNat 32 mask)

def MaskKeepsAll (ns : SyscallNamespace η) (base : Nat) (mask : BitVec 32) : Prop :=
  ∀ mapped ∈ ns.mappedSyscalls, mapped.base = base → ∀ index < mapped.pack.handlers.length, mask.getLsbD index = true

def NothingToDisable (ns : SyscallNamespace η) : Call η → Prop
  | .map _ _ _ | .unmap _ => True
  | .disableSyscall number => ∀ mapped ∈ ns.mappedSyscalls, Covers mapped number →
      mapped.pack.handlers.length ≤ number - mapped.base
  | .disableSyscallByMask packOffset mask => ns.MaskKeepsAll packOffset mask
  | .restrict offset mask => ns.MaskKeepsAll (offset % 2 ^ 32) (BitVec.ofNat 32 mask)

instance (mapped : MappedSyscallPack η) (number : Nat) : Decidable (Covers mapped number) :=
  inferInstanceAs (Decidable (_ ∧ _))

instance (ns : SyscallNamespace η) (base : Nat) (mask : BitVec 32) : Decidable (ns.MaskKeepsAll base mask) :=
  inferInstanceAs (Decidable (∀ mapped ∈ ns.mappedSyscalls, _))

instance (ns : SyscallNamespace η) : DecidablePred ns.NothingToDisable
  | .map _ _ _ | .unmap _ => isTrue trivial
  | .disableSyscall _ => inferInstanceAs (Decidable (∀ mapped ∈ ns.mappedSyscalls, _))
  | .disableSyscallByMask packOffset mask => inferInstanceAs (Decidable (ns.MaskKeepsAll packOffset mask))
  | .restrict offset mask => inferInstanceAs (Decidable (ns.MaskKeepsAll (offset % 2 ^ 32) (BitVec.ofNat 32 mask)))

theorem OnlyRestricts.refl (ns : SyscallNamespace η) (base : Nat) : OnlyRestricts ns ns base :=
  ⟨fun _ _ => rfl, fun _ missing => missing⟩

section

variable (full : ns.FullMasks)

include full

theorem getSyscallHandler_of_full (member : mapped ∈ ns.mappedSyscalls) (covers : Covers mapped number) :
    ns.getSyscallHandler number = mapped.pack.handlers[number - mapped.base]? := by
  have inside : number - mapped.base < 32 := by
    obtain ⟨_, high⟩ := covers
    omega
  rw [getSyscallHandler_of_covers member covers, full mapped member, BitVec.getLsbD_allOnes, decide_eq_true inside, if_pos rfl]

theorem getSyscallHandler_eq_none_iff (number : Nat) :
    ns.getSyscallHandler number = none ↔ ∀ mapped ∈ ns.mappedSyscalls, Covers mapped number →
      mapped.pack.handlers.length ≤ number - mapped.base := by
  constructor
  · intro missing mapped member covers
    rw [getSyscallHandler_of_full full member covers] at missing
    exact List.getElem?_eq_none_iff.mp missing
  intro short
  by_cases covered : ∃ mapped ∈ ns.mappedSyscalls, Covers mapped number
  · obtain ⟨mapped, member, covers⟩ := covered
    rw [getSyscallHandler_of_full full member covers]
    exact List.getElem?_eq_none_iff.mpr (short mapped member covers)
  · exact getSyscallHandler_of_not_covers fun mapped member covers => covered ⟨mapped, member, covers⟩

theorem keepsMasked_self_iff {base : Nat}
    (found : ∃ mapped ∈ ns.mappedSyscalls, mapped.base = base) : KeepsMasked ns ns base mask ↔ ns.MaskKeepsAll base mask := by
  constructor
  · rintro ⟨masked, -⟩ mapped member rfl index short
    have inside : index < 32 := short.trans mapped.pack.few
    have covers : Covers mapped (mapped.base + index) := ⟨by omega, by omega⟩
    have kept := masked index inside
    rw [getSyscallHandler_of_full full member covers, Nat.add_sub_cancel_left, List.getElem?_eq_getElem short] at kept
    by_contra unset
    rw [if_neg unset] at kept
    cases kept
  · intro keeps
    refine ⟨fun index inside => ?_, OnlyRestricts.refl ns base⟩
    obtain ⟨mapped, member, rfl⟩ := found
    split
    · rfl
    next unset =>
    have covers : Covers mapped (mapped.base + index) := ⟨by omega, by omega⟩
    rw [getSyscallHandler_of_full full member covers, Nat.add_sub_cancel_left]
    refine List.getElem?_eq_none_iff.mpr (Nat.le_of_not_lt fun short => ?_)
    exact unset (keeps mapped member rfl index short)

theorem masked_effective_iff (packOffset : Nat) (mask : BitVec 32) :
    (∀ next, ns.disableSyscallByMask packOffset mask = .ok next → KeepsMasked ns next packOffset mask) ↔
      ns.MaskKeepsAll packOffset mask := by
  by_cases found : ∃ mapped ∈ ns.mappedSyscalls, mapped.base = packOffset
  · rw [← keepsMasked_self_iff full found]
    refine ⟨fun effective => effective ns ((disableSyscallByMask_eq_ok_iff full).mpr ⟨rfl, found⟩), ?_⟩
    intro keeps next returned
    obtain ⟨rfl, -⟩ := (disableSyscallByMask_eq_ok_iff full).mp returned
    exact keeps
  · refine iff_of_true (fun next returned => ?_) fun mapped member same => absurd ⟨mapped, member, same⟩ found
    exact absurd ((disableSyscallByMask_eq_ok_iff full).mp returned).2 found

theorem call_effective_iff (call : Call η) : ns.Effective call ↔ ns.NothingToDisable call := by
  cases call with
  | map => exact Iff.rfl
  | unmap => exact Iff.rfl
  | disableSyscall number =>
    simp only [Effective, NothingToDisable, ← getSyscallHandler_eq_none_iff full]
    cases returned : ns.disableSyscall number with
    | error code =>
      refine iff_of_true (nofun) ?_
      -- the call fails where no pack covers the number
      refine getSyscallHandler_of_not_covers fun mapped member covers => ?_
      obtain ⟨i, here⟩ := List.mem_iff_getElem?.mp member
      rw [disableSyscall, packPosition_of_covers here covers] at returned
      cases returned
    | ok next =>
      obtain rfl := disableSyscall_eq_self full returned
      refine ⟨fun effective => (effective next rfl).1, fun missing other same => ?_⟩
      cases same
      exact ⟨missing, OnlyRestricts.refl next _⟩
  | disableSyscallByMask packOffset mask => exact masked_effective_iff full packOffset mask
  | restrict offset mask =>
    rw [NothingToDisable, ← masked_effective_iff full, Effective]
    have succeeds (next : SyscallNamespace η) : restrict offset mask (some ns) = (0, some next) ↔
        ns.disableSyscallByMask (offset % 2 ^ 32) (BitVec.ofNat 32 mask) = .ok next := by
      rw [restrict]
      cases ns.disableSyscallByMask (offset % 2 ^ 32) (BitVec.ofNat 32 mask) <;> simp
    simp [succeeds]

end

/-- In a run of calls on a namespace all of them do what they say exactly if none has anything to take away. -/
theorem disabling_effective_iff {ns : SyscallNamespace η} (reachable : Reachable ns) (calls : List (Call η)) :
    EachStep step Effective ns calls ↔ EachStep step NothingToDisable ns calls := by
  have full := reachable.full
  clear reachable
  induction calls generalizing ns with
  | nil => exact Iff.rfl
  | cons call rest ih =>
    refine and_congr (call_effective_iff full call) (forall_congr' fun next => forall_congr' fun stepped => ?_)
    exact ih (step_full full stepped)

def twoSyscalls : SyscallPack Nat := ⟨[70, 71], by decide⟩

theorem disabling_effective_iff_twoSyscalls : EachStep step Effective (createEmpty 1)
        [.map 64 twoSyscalls 5, .disableSyscallByMask 64 3#32, .disableSyscall 66] ∧
      ¬ EachStep step Effective (createEmpty 1) [.map 64 twoSyscalls 5, .restrict 64 2] :=
  ⟨(disabling_effective_iff (.createEmpty 1) _).mpr (by decide),
    fun effective => absurd ((disabling_effective_iff (.createEmpty 1) _).mp effective) (by decide)⟩

/-- The pack with id 5 that is mapped at 64 is not found there. -/
theorem unmap_misses_pack : ∃ ns : SyscallNamespace Nat, runs step (createEmpty 1) [.map 64 twoSyscalls 5] = some ns ∧
    (ns.unmapSyscallPackByOffset 64).toOption.isNone ∧ ¬ ns.UnmapsExactly 64 :=
  ⟨_, rfl, rfl, fun exact => exact _ (.head _) rfl⟩

/-- `disable_syscall(65)` succeeds, and 65 can still be called. -/
theorem disabled_syscall_still_called :
    ∃ ns next : SyscallNamespace Nat, runs step (createEmpty 1) [.map 64 twoSyscalls 5] = some ns ∧
      ns.disableSyscall 65 = .ok next ∧ next.getSyscallHandler 65 = some 71 ∧ ¬ ns.Effective (.disableSyscall 65) :=
  ⟨_, _, rfl, rfl, rfl, fun effective => absurd (effective _ rfl).1 (by decide)⟩

/-! ## Restrictions along a run -/

inductive PackCall (η : Type) where
  /-- `map_pack`, with what `get_syscall_pack` finds under the name. -/
  | mapPack (baseIndex : Nat) (found : Option (SyscallPack η × Nat))
  | restrict (offset mask : Nat)

def packStep (ns : SyscallNamespace η) : PackCall η → Option (SyscallNamespace η)
  | .mapPack baseIndex found =>
    -- the addition panics when it overflows, as in a development build
    if 2 ^ 64 ≤ baseIndex + 32 then none
    else if baseIndex + 32 > 0xFFFFFFFF then some ns
    else match found with
      | none => some ns
      | some (pack, packId) => ns.step (.map (baseIndex % 2 ^ 32) pack packId)
  | .restrict offset mask => ns.step (.restrict offset mask)

/-- The pack is mapped, and no mapping of it allows its syscall `index`. -/
structure MaskedOut (ns : SyscallNamespace η) (packId index : Nat) : Prop where
  small : index < 32
  isMapped : ∃ mapped ∈ ns.mappedSyscalls, mapped.packId = packId
  clear : ∀ mapped ∈ ns.mappedSyscalls, mapped.packId = packId → mapped.mask.getLsbD index = false

/-- A pack with masked out syscalls is not mapped again, and `restrict` is not given the bits of such syscalls. -/
def Respects (ns : SyscallNamespace η) : PackCall η → Prop
  | .mapPack _ found => ∀ pack packId, found = some (pack, packId) → ∀ index, ¬ ns.MaskedOut packId index
  | .restrict offset mask => ∀ mapped ∈ ns.mappedSyscalls, mapped.base = offset % 2 ^ 32 → ∀ index,
      ns.MaskedOut mapped.packId index → (BitVec.ofNat 32 mask).getLsbD index = false

theorem mem_withMask {change : MappedSyscallPack η → BitVec 32} : mapped ∈ (ns.withMask pos change).mappedSyscalls ↔
    ∃ i old, ns.mappedSyscalls[i]? = some old ∧ (if pos = i then { old with mask := change old } else old) = mapped := by
  simp [withMask, List.mem_iff_getElem?, List.getElem?_modify]

variable {packId index : Nat} (masked : ns.MaskedOut packId index)

include masked

theorem MaskedOut.map {baseIndex newId : Nat} (other : newId ≠ packId) :
    (ns.settle (ns.mapSyscallPack baseIndex pack newId)).MaskedOut packId index := by
  cases returned : ns.mapSyscallPack baseIndex pack newId with
  | error => exact masked
  | ok next =>
    refine ⟨masked.small, ?_, fun mapped member same => ?_⟩
    · exact masked.isMapped.imp fun _ => And.imp_left fun old => (mem_mapSyscallPack returned).mpr (.inr old)
    · obtain rfl | old := (mem_mapSyscallPack returned).mp member
      · exact absurd same other
      · exact masked.clear mapped old same

theorem MaskedOut.restrict (clear : ∀ mapped ∈ ns.mappedSyscalls, mapped.base = offset →
      mapped.packId = packId → mask.getLsbD index = false) (returned : ns.disableSyscallByMask offset mask = .ok next) :
    next.MaskedOut packId index := by
  rw [disableSyscallByMask] at returned
  split at returned
  next => cases returned
  next pos found =>
  cases returned
  obtain ⟨inside, base, -⟩ := List.findIdx?_eq_some_iff_getElem.mp found
  refine ⟨masked.small, ?_, fun mapped member same => ?_⟩
  · obtain ⟨old, member, same⟩ := masked.isMapped
    obtain ⟨i, here⟩ := List.mem_iff_getElem?.mp member
    exact ⟨_, mem_withMask.mpr ⟨i, old, here, rfl⟩, by split <;> exact same⟩
  obtain ⟨i, old, here, rfl⟩ := mem_withMask.mp member
  have kept := masked.clear old (List.mem_of_getElem? here)
  split at same
  next equal =>
    subst equal
    cases (List.getElem?_eq_getElem inside).symm.trans here
    rw [if_pos rfl, BitVec.getLsbD_or, kept same, clear _ (List.getElem_mem inside) (beq_iff_eq.mp base) same]
    rfl
  next other =>
    rw [if_neg other]
    exact kept same

theorem packStep_maskedOut {call : PackCall η} (respects : ns.Respects call) (stepped : ns.packStep call = some next) :
    next.MaskedOut packId index := by
  cases call with
  | mapPack baseIndex found =>
    simp only [packStep] at stepped
    split at stepped
    next => cases stepped
    split at stepped
    · cases stepped
      exact masked
    split at stepped
    · cases stepped
      exact masked
    next pack newId =>
    cases stepped
    refine masked.map fun same => ?_
    exact respects pack newId rfl index (same ▸ masked)
  | restrict offset mask =>
    rw [packStep, step, SyscallNamespace.restrict] at stepped
    split at stepped
    · cases stepped
      exact masked
    next returned =>
      cases stepped
      exact masked.restrict (fun mapped member base same => respects mapped member base index (same ▸ masked)) returned

theorem restrictions_stay (finish : SyscallNamespace η) (calls : List (PackCall η))
    (each : EachStep packStep Respects ns calls) (run : runs packStep ns calls = some finish) :
    ∀ mapped ∈ finish.mappedSyscalls, mapped.packId = packId → finish.getSyscallHandler (mapped.base + index) = none := by
  have stays : finish.MaskedOut packId index :=
    runs_keeps_while (MaskedOut · packId index) (fun masked => packStep_maskedOut masked) each run masked
  have small := masked.small
  intro mapped member same
  rw [getSyscallHandler_of_covers member ⟨by omega, by omega⟩, Nat.add_sub_cancel_left, stays.clear mapped member same]
  rfl

omit masked

def firstAllowed : SyscallNamespace Nat := ⟨1, [⟨64, 1#32, 5, twoSyscalls⟩], by simp, by simp⟩

theorem firstAllowed_maskedOut : firstAllowed.MaskedOut 5 1 := ⟨by decide, ⟨_, .head _, rfl⟩, by simp [firstAllowed]⟩

theorem restrictions_stay_beside : ∃ finish,
    runs packStep firstAllowed [.mapPack 96 (some (twoSyscalls, 6)), .restrict 64 1] = some finish ∧
      finish.getSyscallHandler 65 = none ∧ finish.getSyscallHandler 97 = some 71 := by
  have each : EachStep packStep Respects firstAllowed [.mapPack 96 (some (twoSyscalls, 6)), .restrict 64 1] := by
    refine ⟨?_, fun next stepped => ⟨?_, fun _ _ => trivial⟩⟩
    · rintro pack packId ⟨⟩ index masked
      obtain ⟨mapped, member, same⟩ := masked.isMapped
      rw [List.mem_singleton.mp member] at same
      cases same
    · have both : packStep firstAllowed (.mapPack 96 (some (twoSyscalls, 6))) = some ⟨1,
          [⟨64, 1#32, 5, twoSyscalls⟩, ⟨96, BitVec.allOnes 32, 6, twoSyscalls⟩], by simp, by simp⟩ := rfl
      cases both.symm.trans stepped
      intro mapped member base index masked
      have clear := masked.clear mapped member rfl
      obtain rfl | rfl := by simpa using member
      · exact clear
      · cases base
  exact ⟨_, rfl, restrictions_stay firstAllowed_maskedOut _ _ each rfl _ (.head _) rfl, by decide⟩

/-- The second mapping allows what was masked out. -/
theorem second_mapping_allows : firstAllowed.MaskedOut 5 1 ∧
    (runs packStep firstAllowed [.mapPack 96 (some (twoSyscalls, 5))]).map (·.getSyscallHandler 97) = some (some 71) :=
  ⟨firstAllowed_maskedOut, by decide⟩

end SyscallNamespace

end MeowOs.Proc
