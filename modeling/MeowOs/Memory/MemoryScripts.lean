import MeowOs.Memory.MemorySoundness

/-! # Scripts

The operations of the memory system as a function, for runs with given frames:
`runScript` follows a list of operations, and what it computes is a run of the
system (`runScript_run`).
-/

namespace MeowOs.Memory

open MeowOs.Machine PageTableEntry TableMem MemorySystem
open Option (bind_eq_some_iff map_eq_some_iff)

deriving instance DecidableEq for VirtualMemoryRange

namespace MemorySystem

def Filed (sys : MemorySystem) : Prop := ∀ id, sys.space.namespaceIdCounter ≤ id → sys.space.namespaces id = none

def holds (sys : MemorySystem) (range : VirtualMemoryRange) : Bool :=
  decide (range ∈ sys.handles) || (List.range sys.space.namespaceIdCounter).any fun id =>
    (sys.space.namespaces id).any fun ns => ns.memoryRanges.any fun r => decide (r.sharedRange = range)

def release (sys : MemorySystem) : Option VirtualMemoryRange → Option MemorySystem
  | none => some sys
  | some range =>
    if sys.holds range then some sys
    else (PageTable.delete range.level range.node sys.space.tables).map fun r => sys.withTables r.2

/-- `remove_all_mem_ranges`, for the regions that are listed. -/
def removeAll (sys : MemorySystem) (id : Nat) : List OwnedVirtualMemoryRange → Option MemorySystem
  | [] => some sys
  | r :: rest =>
    match sys.space.namespaces id with
    | none => none
    | some ns =>
      match MemoryNamespace.clearEntry { ns with memoryRanges := rest } r sys.space.tables with
      | none => none
      | some (ns', tables) =>
        (((sys.withTables tables).setNamespace id (some ns')).release (some r.sharedRange)).bind fun mid =>
          mid.removeAll id rest

end MemorySystem

namespace MemoryOp

def exec (sys : MemorySystem) : MemoryOp → Option MemorySystem
  | .create capacity perms mode =>
    (VirtualMemoryRange.create capacity perms mode sys.space.tables).map fun r => (sys.withTables r.2).addRange r.1
  | .release range =>
    if range ∈ sys.handles then ({ sys with handles := sys.handles.erase range } : MemorySystem).release (some range)
    else none
  | .pages range op =>
    if sys.holds range then (op.run range sys.space).map fun r => { sys with space := r.2 } else none
  | .add id range name rangeType mapAddress =>
    if sys.holds range then
      (sys.space.namespaces id).bind fun ns =>
        (ns.addMemRange range name rangeType mapAddress sys.space.tables).map fun r =>
          sys.replaced id r.1.1 r.2
            (if r.1.2.isSome then (id, range.level, mapAddress) :: sys.history else sys.history)
    else none
  | .remove id key =>
    (sys.space.namespaces id).bind fun ns =>
      (ns.removeMemRange key sys.space.tables).bind fun r =>
        ((sys.withTables r.2).setNamespace id (some r.1.1)).release (r.1.2.map (·.sharedRange))
  | .createEmpty =>
    (MemoryNamespace.createEmpty sys.space.namespaceIdCounter sys.space.tables).map fun r =>
      ((sys.withTables r.2).setNamespace sys.space.namespaceIdCounter (some r.1)).countNamespace
  | .buildEmpty =>
    (MemoryNamespace.createEmpty sys.space.namespaceIdCounter sys.space.tables).map fun r =>
      ((sys.withTables r.2).setNamespace sys.space.namespaceIdCounter
        (some (r.1.copyHigherHalf sys.kernelHalf))).countNamespace
  | .createFrom id =>
    (sys.space.namespaces id).bind fun other =>
      (MemoryNamespace.createFrom sys.space.namespaceIdCounter other sys.space.tables).map fun r => sys.copied r.1 r.2
  | .drop id =>
    (sys.space.namespaces id).bind fun ns => (sys.removeAll id ns.memoryRanges).bind fun mid =>
      (mid.space.namespaces id).bind fun ns => (ns.deletePageTable mid.space.tables).map fun r =>
        (mid.withTables r.2).setNamespace id none
  | .setProt id start stop perms =>
    (sys.space.namespaces id).bind fun ns => (ns.setProt start stop perms sys.space.tables).map fun r =>
      (sys.withTables r.2).setNamespace id (some r.1)

end MemoryOp

section Soundness

variable {sys sys' : MemorySystem} {range : VirtualMemoryRange}

variable {id : Nat} {ns : MemoryNamespace} {op : MemoryOp} {allowed : MemorySystem → MemoryOp → Prop}
  {check : MemorySystem → MemoryOp → Bool} {ops script : List (List Nat × MemoryOp)} {pool : List Nat}

section

variable (filed : sys.Filed) {loose : Option VirtualMemoryRange}

include filed

theorem MemorySystem.Filed.setNamespace {ns : Option MemoryNamespace}
    (known : id < sys.space.namespaceIdCounter) : (sys.setNamespace id ns).Filed := by
  intro i above
  change sys.space.namespaceIdCounter ≤ i at above
  rw [setNamespace_of_ne (by omega)]
  exact filed i above

theorem MemorySystem.Filed.countNamespace : sys.countNamespace.Filed := fun id above =>
  filed id (Nat.le_of_succ_le above)

theorem MemorySystem.Filed.withTables (tables : TableMem) : (sys.withTables tables).Filed := filed

theorem MemorySystem.Filed.known (found : sys.space.namespaces id = some ns) : id < sys.space.namespaceIdCounter := by
  by_contra above
  rw [filed id (by omega)] at found
  cases found

theorem MemorySystem.Filed.install {ns : Option MemoryNamespace} :
    (sys.setNamespace sys.space.namespaceIdCounter ns).countNamespace.Filed := by
  intro i above
  change sys.space.namespaceIdCounter + 1 ≤ i at above
  refine (setNamespace_of_ne ?_).trans (filed i ?_) <;> omega

theorem MemorySystem.Filed.release (release : Release loose sys sys') : sys'.Filed := by
  rw [release.same]
  exact filed

theorem MemorySystem.holds_iff : sys.holds range = true ↔ sys.Live range := by
  unfold MemorySystem.holds MemorySystem.Live
  simp only [Bool.or_eq_true, decide_eq_true_eq, List.any_eq_true, List.mem_range, Option.any_eq_true]
  refine or_congr_right ?_
  constructor
  · rintro ⟨id, -, ns, found, r, member, same⟩
    exact ⟨id, ns, r, found, member, same⟩
  · rintro ⟨id, ns, r, found, member, same⟩
    exact ⟨id, filed.known found, ns, found, r, member, same⟩

theorem MemorySystem.release_sound (run : sys.release loose = some sys') : Release loose sys sys' := by
  cases loose with
  | none =>
    cases run
    exact .nothing
  | some range =>
    simp only [MemorySystem.release] at run
    split at run
    next held =>
      cases run
      exact .shared ((holds_iff filed).mp held)
    next gone =>
      obtain ⟨⟨_, tables⟩, deleted, rfl⟩ := map_eq_some_iff.mp run
      exact .last (fun live => gone ((holds_iff filed).mpr live)) deleted

end

theorem MemorySystem.removeAll_sound {rs : List OwnedVirtualMemoryRange}
    (filed : sys.Filed) (found : sys.space.namespaces id = some ns) (regions : ns.memoryRanges = rs)
    (run : sys.removeAll id rs = some sys') : RemoveAll id sys sys' ∧ sys'.Filed := by
  induction rs generalizing sys ns with
  | nil =>
    cases run
    exact ⟨.nil found regions, filed⟩
  | cons r rest ih =>
    unfold MemorySystem.removeAll at run
    simp only [found] at run
    split at run
    next => cases run
    next ns' tables cleared =>
    obtain ⟨mid, released, others⟩ := bind_eq_some_iff.mp run
    have known := filed.known found
    have filed' : ((sys.withTables tables).setNamespace id (some ns')).Filed := (filed.withTables tables).setNamespace known
    have release := release_sound filed' released
    have foundMid : mid.space.namespaces id = some ns' := by
      rw [release.same]
      exact setNamespace_self
    obtain ⟨removed, filedEnd⟩ := ih (filed'.release release) foundMid (MemoryNamespace.clearEntry_topWrite cleared).regions others
    exact ⟨.cons found regions cleared release removed, filedEnd⟩

theorem MemoryOp.exec_step (filed : sys.Filed) (run : op.exec sys = some sys') : OpStep sys op sys' ∧ sys'.Filed := by
  cases op with
  | create capacity perms mode =>
    obtain ⟨⟨range, tables⟩, created, rfl⟩ := map_eq_some_iff.mp run
    exact ⟨.create created, filed⟩
  | release range =>
    obtain ⟨held, run⟩ := Option.ite_none_right_eq_some.mp run
    obtain ⟨before, after, -, isSplit, isErased⟩ := List.exists_erase_eq held
    rw [isErased] at run
    have filed' : ({ sys with handles := before ++ after } : MemorySystem).Filed := filed
    have release := release_sound filed' run
    exact ⟨.release isSplit release, filed'.release release⟩
  | pages range op =>
    obtain ⟨held, run⟩ := Option.ite_none_right_eq_some.mp run
    obtain ⟨⟨ok, space⟩, ran, rfl⟩ := map_eq_some_iff.mp run
    have same := rangeOp_same ran
    refine ⟨.pages ((holds_iff filed).mp held) ran, fun id above => ?_⟩
    rw [same] at above ⊢
    exact filed id above
  | add id range name rangeType mapAddress =>
    obtain ⟨held, run⟩ := Option.ite_none_right_eq_some.mp run
    obtain ⟨ns, found, run⟩ := bind_eq_some_iff.mp run
    obtain ⟨⟨⟨ns', res⟩, tables⟩, added, rfl⟩ := map_eq_some_iff.mp run
    exact ⟨.add ((holds_iff filed).mp held) found added, (filed.withTables tables).setNamespace (filed.known found)⟩
  | remove id key =>
    obtain ⟨ns, found, run⟩ := bind_eq_some_iff.mp run
    obtain ⟨⟨⟨ns', removed⟩, tables⟩, ran, run⟩ := bind_eq_some_iff.mp run
    have filed' : ((sys.withTables tables).setNamespace id (some ns')).Filed :=
      (filed.withTables tables).setNamespace (filed.known found)
    have release := release_sound filed' run
    exact ⟨.remove found ran release, filed'.release release⟩
  | createEmpty =>
    obtain ⟨⟨ns, tables⟩, created, rfl⟩ := map_eq_some_iff.mp run
    exact ⟨.createEmpty created, (filed.withTables tables).install⟩
  | buildEmpty =>
    obtain ⟨⟨ns, tables⟩, created, rfl⟩ := map_eq_some_iff.mp run
    exact ⟨.buildEmpty created, (filed.withTables tables).install⟩
  | createFrom id =>
    obtain ⟨other, found, run⟩ := bind_eq_some_iff.mp run
    obtain ⟨⟨copy, tables⟩, created, rfl⟩ := map_eq_some_iff.mp run
    exact ⟨.createFrom found created, (filed.withTables tables).install⟩
  | drop id =>
    obtain ⟨ns, found, run⟩ := bind_eq_some_iff.mp run
    obtain ⟨mid, removed, run⟩ := bind_eq_some_iff.mp run
    obtain ⟨ns', foundMid, run⟩ := bind_eq_some_iff.mp run
    obtain ⟨⟨_, tables⟩, deleted, rfl⟩ := map_eq_some_iff.mp run
    obtain ⟨removing, filedMid⟩ := removeAll_sound filed found rfl removed
    exact ⟨.drop removing foundMid deleted, (filedMid.withTables tables).setNamespace (filedMid.known foundMid)⟩
  | setProt id start stop perms =>
    obtain ⟨ns, found, run⟩ := bind_eq_some_iff.mp run
    obtain ⟨⟨ns', tables⟩, ran, rfl⟩ := map_eq_some_iff.mp run
    exact ⟨.setProt found ran, (filed.withTables tables).setNamespace (filed.known found)⟩

instance (sys : MemorySystem) (pool : List Nat) : Decidable (Offered sys pool) :=
  decidable_of_iff (pool.Nodup ∧ (∀ f ∈ pool, 4096 ∣ f) ∧ (∀ f ∈ pool, f < sys.space.tables.hhdm.len) ∧
      (∀ f ∈ pool, sys.space.tables.inUse f = false) ∧ 0 ∉ pool)
    ⟨fun ⟨nodup, aligned, direct, free, nonzero⟩ => ⟨⟨nodup, aligned, direct, free⟩, nonzero⟩,
      fun ⟨⟨nodup, aligned, direct, free⟩, nonzero⟩ => ⟨nodup, aligned, direct, free, nonzero⟩⟩

/-- The operations of a script one after the other, all of which have to pass a check. -/
def MemorySystem.runScript (check : MemorySystem → MemoryOp → Bool) (sys : MemorySystem) :
    List (List Nat × MemoryOp) → Option MemorySystem
  | [] => some sys
  | (pool, op) :: rest =>
    if Offered sys pool ∧ check sys op = true then
      (op.exec (sys.withPool pool)).bind fun mid => (mid.countTaken pool).runScript check rest
    else none

theorem MemoryRun.append {mid : MemorySystem}
    {ops' : List (List Nat × MemoryOp)} (first : MemoryRun allowed sys ops mid)
    (second : MemoryRun allowed mid ops' sys') : MemoryRun allowed sys (ops ++ ops') sys' := by
  induction second with
  | nil =>
    rw [List.append_nil]
    exact first
  | snoc _ ok step ih =>
    rw [← List.append_assoc]
    exact ih.snoc ok step

theorem MemoryRun.last (run : MemoryRun allowed sys (ops ++ [(pool, op)]) sys') :
    ∃ mid, MemoryRun allowed sys ops mid ∧ allowed mid op ∧ MemoryStep mid pool op sys' := by
  generalize isAll : ops ++ [(pool, op)] = all at run
  cases run with
  | nil => simp at isAll
  | snoc before ok step =>
    obtain ⟨rfl, eq⟩ := List.append_inj' isAll rfl
    obtain ⟨rfl, rfl⟩ : pool = _ ∧ op = _ := by simpa using eq
    exact ⟨_, before, ok, step⟩

theorem runScript_cons {rest : List (List Nat × MemoryOp)} (filed : sys.Filed)
    (run : sys.runScript check ((pool, op) :: rest) = some sys') : check sys op = true ∧
      ∃ mid, MemoryStep sys pool op mid ∧ mid.Filed ∧ mid.runScript check rest = some sys' := by
  obtain ⟨ok, run⟩ := Option.ite_none_right_eq_some.mp run
  obtain ⟨mid, ran, run⟩ := bind_eq_some_iff.mp run
  have filed' : (sys.withPool pool).Filed := filed
  obtain ⟨step, filedMid⟩ := op.exec_step filed' ran
  exact ⟨ok.2, _, .mk ok.1 step, filedMid, run⟩

theorem runScript_run (checked : ∀ {mid op}, check mid op = true → allowed mid op) (filed : sys.Filed)
    (run : sys.runScript check script = some sys') : MemoryRun allowed sys script sys' := by
  induction script generalizing sys with
  | nil =>
    cases run
    exact .nil _
  | cons entry rest ih =>
    obtain ⟨ok, mid, step, filedMid, run⟩ := runScript_cons filed run
    exact ((MemoryRun.nil sys).snoc (checked ok) step).append (ih filedMid run)

theorem runScript_holds {P : MemorySystem → MemoryNamespace → Prop} [∀ sys' ns, Decidable (P sys' ns)]
    (checked : ∀ {mid op}, check mid op = true → allowed mid op) (filed : sys.Filed)
    (holds : (sys.runScript check script).any (fun sys' => (sys'.space.namespaces id).any (P sys' ·)) = true) :
    ∃ sys' ns, MemoryRun allowed sys script sys' ∧ sys'.space.namespaces id = some ns ∧ P sys' ns := by
  obtain ⟨sys', run, shown⟩ := (Option.any_eq_true ..).mp holds
  obtain ⟨ns, found, shown⟩ := (Option.any_eq_true ..).mp shown
  exact ⟨sys', ns, runScript_run checked filed run, found, of_decide_eq_true shown⟩

theorem runScript_filed (filed : sys.Filed) (run : sys.runScript check script = some sys') : sys'.Filed := by
  induction script generalizing sys with
  | nil =>
    cases run
    exact filed
  | cons entry rest ih =>
    obtain ⟨-, mid, -, filedMid, run⟩ := runScript_cons filed run
    exact ih filedMid run

theorem runScript_step (filed : sys.Filed)
    (run : sys.runScript check [(pool, op)] = some sys') : MemoryStep sys pool op sys' := by
  obtain ⟨-, mid, step, -, run⟩ := runScript_cons filed run
  cases run
  exact step

end Soundness

/-! ## A system to start from -/

/-- Nothing exists but a table of the kernel, which entry 256 of its root table leads to. -/
def bareSystem : MemorySystem where
  space := {
    tables := ⟨fun _ _ => 0, [], fun f => f == 0x1000, freshSpace.tables.hhdm, fun _ => 0⟩
    allocated := fun _ => 0
    namespaces := fun _ => none
    current := 1
    namespaceIdCounter := 1 }
  handles := []
  kernelHalf := fun i => if i = 256 then PageTableEntry.new 0x1000 false else 0
  handedOut := fun _ => 0
  history := []

theorem bareSystem_fresh : Fresh bareSystem := ⟨fun _ => rfl, rfl, rfl, rfl⟩

theorem bareSystem_filed : bareSystem.Filed := fun _ _ => rfl

def MemoryOp.isRegular (sys : MemorySystem) : MemoryOp → Bool
  | .add _ range _ _ mapAddress => decide (range.capacity.size ∣ mapAddress ∧ mapAddress + range.capacity.size ≤ 2 ^ 47)
  | .drop id => (sys.space.namespaces id).all fun ns => (List.range 256).all fun i => !PageTableEntry.present (ns.top (256 + i))
  | .setProt .. => false
  | _ => true

theorem MemoryOp.regular_of_isRegular {sys : MemorySystem} {op : MemoryOp} (regular : op.isRegular sys = true) :
    op.Regular sys := by
  cases op with
  | add id range name rangeType mapAddress =>
    exact of_decide_eq_true (p := range.capacity.size ∣ mapAddress ∧ mapAddress + range.capacity.size ≤ 2 ^ 47) regular
  | drop id =>
    intro ns found i high low
    obtain ⟨j, rfl⟩ := Nat.exists_eq_add_of_le high
    simp only [isRegular, found, Option.all_some, List.all_eq_true, List.mem_range, Bool.not_eq_true_eq_eq_false] at regular
    exact regular j (by omega)
  | setProt => cases regular
  | _ => trivial

end MeowOs.Memory
