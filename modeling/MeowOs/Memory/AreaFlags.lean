import MeowOs.Memory.AllocationAreaSoundness

/-! # The flags of the virtual areas

`AllocArea::flags` shifts the flags out of the word, so that the flags of all
areas read as equal and `allocate_area` merges a new area with whatever is next
to it.  As long as only areas with the flags of the new one are next to it, the
pages of every live area keep their flags (`flags_are_kept`).
-/

namespace MeowOs.Memory

open MeowOs.Machine AllocationInfo

/-! ## Adding and removing a used area -/

def Area.Touches (a : Area) (page n : Nat) : Prop := a.startPageIndex = page + n ∨ a.startPageIndex + a.nPages = page

section Used

variable {used : AddrSet} {U M : Set Nat} {newAlloc entry : Area} {flags n : Nat} {info info' : AllocationInfo}

structure Joined (used : AddrSet) (newAlloc : Area) (flags : Nat) (used' : AddrSet) (joined : Area) : Prop where
  mem : joined ∈ used'
  pages : newAlloc.pages ⊆ joined.pages
  flagBits : joined.flagBits = newAlloc.flagBits
  alone : noMergeInfo flags = true → joined = newAlloc
  old : ∀ e ∈ used, e ∈ used' ∨ noMergeInfo flags = false ∧ e.pages ⊆ joined.pages ∧
    e.Touches newAlloc.startPageIndex newAlloc.nPages
  new : ∀ a ∈ used', a = joined ∨ a ∈ used

theorem addUsed_joined (flags : Nat) (tiles : Tiles used U) (fresh : newAlloc.Fresh U) :
    ∃ joined, Joined used newAlloc flags (addUsed used newAlloc flags) joined := by
  unfold addUsed
  split
  case isTrue alone =>
    have member : ∀ {b}, b ∈ used.insert newAlloc ↔ b = newAlloc ∨ b ∈ used := tiles.mem_insert fresh
    exact ⟨newAlloc, member.mpr (.inl rfl), subset_rfl, rfl, fun _ => rfl, fun e mem => .inl (member.mpr (.inr mem)),
      fun a mem => member.mp mem⟩
  case isFalse merges =>
  obtain ⟨after, flagsQ, start, behind⟩ := absorbAfter_spec sameFlags tiles fresh
  obtain ⟨Q, tilesQ, freshQ, -, inQ⟩ := after.tiles tiles fresh
  generalize absorbAfter sameFlags used newAlloc = r at *
  obtain ⟨used1, area1, e1⟩ := r
  dsimp only at *
  obtain ⟨before, flagsR, inFront⟩ := absorbBefore_spec sameFlags used1 freshQ
  obtain ⟨R, tilesR, freshR, -, inR⟩ := before.tiles tilesQ freshQ
  generalize absorbBefore sameFlags used1 area1 = r at *
  obtain ⟨used2, area2, e2⟩ := r
  have member : ∀ b, b ∈ used2.insert area2 ↔ b = area2 ∨ b ∈ used2 := fun b => tilesR.mem_insert freshR
  refine ⟨area2, (member _).mpr (.inl rfl), inQ.trans inR, flagsR.trans flagsQ, fun alone => absurd alone merges,
    fun e mem => ?_, fun a mem => ((member a).mp mem).imp_right fun old =>
      after.kept_or_absorbed.mpr (.inl (before.kept_or_absorbed.mpr (.inl old)))⟩
  rw [Bool.not_eq_true] at merges
  rcases after.kept_or_absorbed.mp mem with kept | absorbed
  · rcases before.kept_or_absorbed.mp kept with kept | absorbed
    · exact .inl ((member e).mpr (.inr kept))
    · exact .inr ⟨merges, before.absorbed_subset absorbed, .inr ((inFront e absorbed).trans start)⟩
  · exact .inr ⟨merges, (after.absorbed_subset absorbed).trans inR, .inl (behind e absorbed)⟩

theorem allocateArea_some {addr : Nat} (run : info.allocateArea n flags = (some addr, info')) :
    ∃ entry, info.freeSizeSorted.firstFrom (toLex (n, 0)) = some entry ∧
      addr = extendAddr (entry.startPageIndex * 0x1000) ∧
      info'.used = addUsed info.used ⟨entry.startPageIndex, flags &&& 0b111111, n⟩ flags := by
  unfold allocateArea at run
  split at run
  case h_1 => cases run
  case h_2 entry found =>
    cases run
    exact ⟨entry, found, rfl, by simp only [splitFree_used]⟩

theorem allocateArea_none (run : info.allocateArea n flags = (none, info')) : info' = info := by
  unfold allocateArea at run
  split at run <;> cases run
  rfl

theorem pageOf_extendAddr {page : Nat} (lt : page < 2 ^ 36) : pageOf (extendAddr (page * 0x1000)) = page := by
  have trim : ∀ a, trimAddrExtension a = a % 2 ^ 48 := fun a => Nat.and_two_pow_sub_one_eq_mod a 48
  have high : trimAddrExtension (extendAddr (page * 0x1000)) = page * 0x1000 := by
    unfold extendAddr
    split
    · rw [trimAddrExtension, Nat.and_or_distrib_right, ← trimAddrExtension, trim, Nat.mod_eq_of_lt (by omega)]
      exact Nat.or_zero _
    · rw [trim, Nat.mod_eq_of_lt (by omega)]
  rw [pageOf, high, Nat.mul_div_cancel _ (by omega)]

theorem mem_cutUsed (tiles : Tiles used U) (mem : entry ∈ used) {a : Area} :
    a ∈ cutUsed used entry entry.startPageIndex n ↔ (a ∈ used ∧ a ≠ entry) ∨ (0 < entry.nPages - n ∧ a = entry.rest n) := by
  have removed := tiles.remove mem
  have below := tiles.below entry mem
  unfold cutUsed
  simp only [Nat.sub_self, Nat.zero_div, Nat.sub_zero, Nat.lt_irrefl, if_false, gt_iff_lt]
  split
  case isTrue some =>
    have start : (entry.startPageIndex + n) % 2 ^ 48 = entry.startPageIndex + n := Nat.mod_eq_of_lt (by omega)
    rw [start, ← Area.rest, removed.mem_insert (tiles.rest_fresh mem some), Tiles.mem_remove mem]
    tauto
  case isFalse none =>
    rw [Tiles.mem_remove mem]
    tauto

end Used

@[simp] theorem noMergeInfo_and (flags : Nat) : noMergeInfo (flags &&& 0b111111) = noMergeInfo flags := by
  have : Nat.testBit 0b111111 5 = true := by decide
  simp only [noMergeInfo, Nat.testBit_and, this, Bool.and_true]

/-! ## Runs with the flags of the live areas -/

structure LiveArea where
  addr : Nat
  nPages : Nat
  flags : Nat

def LiveArea.pages (area : LiveArea) : Set Nat := Set.Ico (pageOf area.addr) (pageOf area.addr + area.nPages)

structure FlagState where
  info : AllocationInfo
  live : List LiveArea

/-- One call.  A live area is freed with its own number of pages, or with none. -/
inductive FlagStep (s : FlagState) : AreaOp → FlagState → Prop where
  | allocate {nPages flags addr : Nat} {info : AllocationInfo} : s.info.allocateArea nPages flags = (some addr, info) →
      FlagStep s (.allocate nPages flags) ⟨info, ⟨addr, nPages, flags⟩ :: s.live⟩
  | refuse {nPages flags : Nat} {info : AllocationInfo} : s.info.allocateArea nPages flags = (none, info) →
      FlagStep s (.allocate nPages flags) ⟨info, s.live⟩
  | free {area : LiveArea} {before behind : List LiveArea} {nPages : Option Nat} {info : AllocationInfo} :
      s.live = before ++ area :: behind → nPages = some area.nPages ∨ nPages = none →
      s.info.freeArea area.addr nPages = some info → FlagStep s (.free area.addr nPages) ⟨info, before ++ behind⟩

abbrev FlagRun (allowed : FlagState → AreaOp → Prop) :=
  Relation.ReflTransGen fun s t => ∃ op, allowed s op ∧ FlagStep s op t

/-- An allocation of at least one page, next to no used area with other flags unless it forbids to merge; a free of
an area that no used area has merged in front of, and none behind if the number of pages is left out. -/
def FlagState.Regular (s : FlagState) : AreaOp → Prop
  | .allocate nPages flags => 0 < nPages ∧ (noMergeInfo flags = false →
      ∀ entry, s.info.freeSizeSorted.firstFrom (toLex (nPages, 0)) = some entry →
        ∀ a ∈ s.info.used, a.Touches entry.startPageIndex nPages → a.flagBits = flags &&& 0b111111)
  | .free addr nPages => ∃ entry ∈ s.info.used, entry.startPageIndex = pageOf addr ∧ (nPages = none →
      ∀ area ∈ s.live, area.addr = addr → noMergeInfo area.flags = false → entry.nPages = area.nPages)

structure FlagInv (s : FlagState) (M U : Set Nat) : Prop where
  areas : AreaInv s.info M U
  recorded : ∀ area ∈ s.live, ∃ a ∈ s.info.used, area.pages ⊆ a.pages ∧ a.flagBits = area.flags &&& 0b111111 ∧
    (noMergeInfo area.flags = true → a.startPageIndex = pageOf area.addr ∧ a.nPages = area.nPages)
  some_pages : ∀ area ∈ s.live, 0 < area.nPages
  apart : s.live.Pairwise fun area area' => Disjoint area.pages area'.pages

section Steps

variable {s t : FlagState} {M U : Set Nat} {area : LiveArea} {n flags addr : Nat} {nPages : Option Nat}
  {info : AllocationInfo}

theorem LiveArea.first_mem (some_pages : 0 < area.nPages) : pageOf area.addr ∈ area.pages :=
  ⟨le_rfl, Nat.lt_add_of_pos_right some_pages⟩

variable (inv : FlagInv s M U)

include inv

theorem FlagInv.joined (regular : s.Regular (.allocate n flags))
    (run : s.info.allocateArea n flags = (some addr, info)) :
    ∃ newAlloc joined : Area, newAlloc.Fresh U ∧ newAlloc.startPageIndex = pageOf addr ∧ newAlloc.nPages = n ∧
      newAlloc.flagBits = flags &&& 0b111111 ∧ Joined s.info.used newAlloc flags info.used joined ∧
      ∀ a ∈ s.info.used, a.Touches newAlloc.startPageIndex n → noMergeInfo flags = false →
        a.flagBits = newAlloc.flagBits := by
  obtain ⟨entry, found, rfl, used⟩ := allocateArea_some run
  have fresh := inv.areas.first_fresh found regular.1 (flags &&& 0b111111)
  obtain ⟨joined, spec⟩ := addUsed_joined flags inv.areas.used fresh
  have below := fresh.below
  refine ⟨_, joined, fresh, (pageOf_extendAddr ?_).symm, rfl, rfl, used ▸ spec,
    fun a mem touches merges => regular.2 merges entry found a mem touches⟩
  have := regular.1
  change entry.startPageIndex + n ≤ 2 ^ 36 at below
  change entry.startPageIndex < 2 ^ 36
  omega

theorem FlagInv.allocate (regular : s.Regular (.allocate n flags))
    (run : s.info.allocateArea n flags = (some addr, info)) :
    ∃ U', FlagInv ⟨info, ⟨addr, n, flags⟩ :: s.live⟩ M U' := by
  obtain ⟨newAlloc, joined, fresh, start, count, isFlags, spec, alike⟩ := inv.joined regular run
  obtain ⟨U', areas⟩ := inv.areas.allocate regular.1 flags
  rw [run] at areas
  have isNew : LiveArea.pages ⟨addr, n, flags⟩ = newAlloc.pages := by rw [LiveArea.pages, Area.pages, start, count]
  refine ⟨U', areas, List.forall_mem_cons.mpr ⟨?_, fun area live => ?_⟩,
    List.forall_mem_cons.mpr ⟨regular.1, inv.some_pages⟩, List.pairwise_cons.mpr ⟨fun area live => ?_, inv.apart⟩⟩
  · exact ⟨joined, spec.mem, isNew ▸ spec.pages, spec.flagBits.trans isFlags, fun alone => spec.alone alone ▸ ⟨start, count⟩⟩
  · obtain ⟨a, mem, inside, same, alone⟩ := inv.recorded area live
    rcases spec.old a mem with kept | ⟨merges, sub, touches⟩
    · exact ⟨a, kept, inside, same, alone⟩
    have flagsEq := alike a mem (count ▸ touches) merges
    refine ⟨joined, spec.mem, inside.trans sub, spec.flagBits.trans (flagsEq.symm.trans same), fun forbids => ?_⟩
    rw [← noMergeInfo_and, ← same, flagsEq, isFlags, noMergeInfo_and, merges] at forbids
    cases forbids
  · obtain ⟨a, mem, inside, -⟩ := inv.recorded area live
    rw [isNew]
    exact (fresh.disjoint.mono_left (inside.trans (inv.areas.used.subset mem))).symm

theorem FlagInv.entry (live : area ∈ s.live) {entry : Area} (mem : entry ∈ s.info.used)
    (here : pageOf area.addr ∈ entry.pages) : area.pages ⊆ entry.pages ∧ entry.flagBits = area.flags &&& 0b111111 ∧
      (noMergeInfo area.flags = true → entry.nPages = area.nPages) := by
  obtain ⟨a, memA, inside, same, alone⟩ := inv.recorded area live
  obtain rfl : a = entry := by
    by_contra ne
    exact Set.disjoint_left.mp (inv.areas.used.disjoint a memA entry mem ne)
      (inside (LiveArea.first_mem (inv.some_pages area live))) here
  exact ⟨inside, same, fun forbids => (alone forbids).2⟩

theorem FlagInv.free {before behind : List LiveArea} (isLive : s.live = before ++ area :: behind)
    {entry : Area} (mem : entry ∈ s.info.used) (start : entry.startPageIndex = pageOf area.addr)
    (own : nPages = some area.nPages ∨ nPages = none ∧ entry.nPages = area.nPages) :
    ∃ info, s.info.freeArea area.addr nPages = some info ∧ FlagInv ⟨info, before ++ behind⟩ M (U \ area.pages) := by
  have live : area ∈ s.live := by simp [isLive]
  have positive := inv.some_pages area live
  have nonempty := inv.areas.used.nonempty entry mem
  obtain ⟨inside, same, -⟩ := inv.entry live mem ⟨start.le, by omega⟩
  have enough : area.nPages ≤ entry.nPages := by
    have last : pageOf area.addr + (area.nPages - 1) ∈ entry.pages := inside ⟨by omega, by omega⟩
    have := last.2
    omega
  have count : freedPages entry (pageOf area.addr) nPages = area.nPages := by
    unfold freedPages
    rcases own with rfl | ⟨rfl, whole⟩
    · simp only [Option.getD_some]
      omega
    · have := inv.areas.used.below entry mem
      simp only [Option.getD_none]
      omega
  have found : s.info.usedEntry (pageOf area.addr) = some entry := start ▸ usedEntry_of_start inv.areas.used mem
  obtain ⟨info, run, used⟩ : ∃ info, s.info.freeArea area.addr nPages = some info ∧
      info.used = cutUsed s.info.used entry (pageOf area.addr) area.nPages := by
    refine ⟨AllocationInfo.addFree { s.info with used := cutUsed s.info.used entry (pageOf area.addr) area.nPages }
      ⟨pageOf area.addr, 0, area.nPages⟩, ?_, rfl⟩
    rw [AllocationInfo.freeArea, show trimAddrExtension area.addr / 4096 = pageOf area.addr from rfl, found, ← count]
  have freed : freedCount s.info area.addr nPages = area.nPages := by rw [freedCount, found, ← count]
  have some_pages : ∀ n, nPages = some n → 0 < n := by
    rintro n rfl
    obtain rfl : n = area.nPages := by simpa using own
    exact positive
  have areas := (inv.areas.free_area some_pages mem start run).1
  rw [freed] at areas
  have apart := inv.apart
  rw [isLive, List.pairwise_middle fun {_ _} disjoint => Disjoint.symm disjoint, List.pairwise_cons] at apart
  have still : before ++ behind ⊆ s.live :=
    isLive ▸ ((List.sublist_cons_self area behind).append_left before).subset
  refine ⟨info, run, areas, fun area' stays => ?_, fun area' stays => inv.some_pages area' (still stays), apart.2⟩
  obtain ⟨a, memA, inside', same', alone'⟩ := inv.recorded area' (still stays)
  have other := Set.disjoint_left.mp (apart.1 area' stays)
  rw [used, ← start]
  by_cases eq : a = entry
  · subst eq
    have behind : ∀ p ∈ area'.pages, p ∈ (a.rest area.nPages).pages := fun p mem' => by
      have := inside' mem'
      have out : p ∉ area.pages := fun mem => other mem mem'
      simp only [Area.mem_pages, LiveArea.pages, Set.mem_Ico, Area.rest] at this out ⊢
      omega
    have first := LiveArea.first_mem (inv.some_pages area' (still stays))
    have some : 0 < a.nPages - area.nPages := by
      have := (behind _ first).1
      have := (behind _ first).2
      simp only [Area.rest] at *
      omega
    refine ⟨a.rest area.nPages, (mem_cutUsed inv.areas.used mem).mpr (.inr ⟨some, rfl⟩), behind, same', fun forbids => ?_⟩
    -- an area that forbids to merge is alone
    refine absurd ?_ (other (LiveArea.first_mem positive))
    rw [LiveArea.pages, ← (alone' forbids).1, ← (alone' forbids).2]
    exact inside (LiveArea.first_mem positive)
  · exact ⟨a, (mem_cutUsed inv.areas.used mem).mpr (.inl ⟨memA, eq⟩), inside', same', alone'⟩

theorem FlagInv.step {op : AreaOp} (regular : s.Regular op) (step : FlagStep s op t) : ∃ U', FlagInv t M U' := by
  cases step with
  | allocate run => exact inv.allocate regular run
  | refuse run =>
    cases allocateArea_none run
    exact ⟨U, inv⟩
  | @free area before behind nPages info isLive own run =>
    have live : area ∈ s.live := by simp [isLive]
    obtain ⟨entry, mem, start, alone⟩ := regular
    have whole : nPages = none → entry.nPages = area.nPages := fun none => by
      cases forbids : noMergeInfo area.flags with
      | true => exact (inv.entry live mem ⟨start.le, start ▸ Nat.lt_add_of_pos_right (inv.areas.used.nonempty _ mem)⟩).2.2 forbids
      | false => exact alone none area live rfl forbids
    obtain ⟨info', run', inv'⟩ := inv.free isLive mem start (own.imp_right fun none => ⟨none, whole none⟩)
    cases run.symm.trans run'
    exact ⟨_, inv'⟩

theorem FlagInv.run (run : FlagRun FlagState.Regular s t) : ∃ U', FlagInv t M U' := by
  induction run with
  | refl => exact ⟨U, inv⟩
  | tail _ step ih =>
    obtain ⟨U', inv'⟩ := ih
    obtain ⟨op, regular, step⟩ := step
    exact inv'.step regular step

end Steps

/-- In every state reached by regular calls: the pages of every live area are used, with the flags of the area;
a regular allocation merges areas with the same flags only, which all allow it; and freeing an area that forbids to
merge, without a number of pages, takes its pages from the used areas and gives them to the free ones. -/
theorem flags_are_kept {ranges : List (Nat × Nat)} {info : AllocationInfo} {s : FlagState} (ok : FreeRanges ranges)
    (start : AllocationInfo.new.init ranges = some info) (run : FlagRun FlagState.Regular ⟨info, []⟩ s) :
    (∀ area ∈ s.live, ∀ p ∈ area.pages, ∃ a ∈ s.info.used, p ∈ a.pages ∧ a.flagBits = area.flags &&& 0b111111) ∧
    (∀ n flags t, s.Regular (.allocate n flags) → FlagStep s (.allocate n flags) t →
      ∀ e ∈ s.info.used, ∀ a ∈ t.info.used, ¬ Disjoint e.pages a.pages →
        a = e ∨ a.flagBits = e.flagBits ∧ noMergeInfo e.flagBits = false) ∧
    ∀ area ∈ s.live, noMergeInfo area.flags = true → ∃ info, s.info.freeArea area.addr none = some info ∧
      (∀ p, (∃ a ∈ info.used, p ∈ a.pages) ↔ (∃ a ∈ s.info.used, p ∈ a.pages) ∧ p ∉ area.pages) ∧
      ∀ p, (∃ a ∈ info.freeAddrSorted, p ∈ a.pages) ↔ (∃ a ∈ s.info.freeAddrSorted, p ∈ a.pages) ∨ p ∈ area.pages := by
  obtain ⟨U, inv⟩ := FlagInv.run (U := ∅) ⟨init_inv ok start, by simp, by simp, .nil⟩ run
  refine ⟨fun area live p mem => ?_, ?_, ?_⟩
  · obtain ⟨a, memA, inside, same, -⟩ := inv.recorded area live
    exact ⟨a, memA, inside mem, same⟩
  · intro n flags t regular step e memE a memA overlap
    have same : ∀ {V used}, Tiles used V → e ∈ used → a ∈ used → a = e := fun tiles memE memA =>
      by_contra fun ne => overlap (tiles.disjoint a memA e memE ne).symm
    cases step with
    | refuse refused =>
      cases allocateArea_none refused
      exact .inl (same inv.areas.used memE memA)
    | allocate run =>
      obtain ⟨newAlloc, joined, -, -, count, isFlags, spec, alike⟩ := inv.joined regular run
      obtain ⟨U', inv'⟩ := inv.allocate regular run
      rcases spec.old e memE with kept | ⟨merges, -, touches⟩
      · exact .inl (same inv'.areas.used kept memA)
      have flagsEq := alike e memE (count ▸ touches) merges
      refine (spec.new a memA).symm.imp (same inv.areas.used memE) ?_
      rintro rfl
      refine ⟨spec.flagBits.trans flagsEq.symm, ?_⟩
      rw [flagsEq, isFlags, noMergeInfo_and, merges]
  · intro area live forbids
    obtain ⟨a, mem, inside, -, alone⟩ := inv.recorded area live
    obtain ⟨before, behind, isLive⟩ := List.append_of_mem live
    obtain ⟨info', run, inv'⟩ := inv.free isLive mem (alone forbids).1 (.inr ⟨rfl, (alone forbids).2⟩)
    refine ⟨info', run, fun p => ?_, fun p => ?_⟩
    · rw [← inv'.areas.used.covers, ← inv.areas.used.covers, Set.mem_sdiff]
    rw [← inv'.areas.free.tiles.covers, ← inv.areas.free.tiles.covers]
    have := fun own => inv.areas.inside (inv.areas.used.subset mem (@inside p own))
    simp only [Set.mem_sdiff]
    tauto

/-- Two areas are merged, a third one stays alone, and the first one is freed. -/
theorem flags_are_kept_freed : ∃ s, FlagRun FlagState.Regular ⟨areasOf ⟨0x800000000, 0, 4⟩ none, []⟩ s ∧
    s.live = [⟨0xFFFF800000002000, 1, 0b100001⟩, ⟨0xFFFF800000001000, 1, 1⟩] ∧
    ∀ area ∈ s.live, ∀ p ∈ area.pages, ∃ a ∈ s.info.used, p ∈ a.pages ∧ a.flagBits = area.flags &&& 0b111111 := by
  have first : FlagStep ⟨areasOf ⟨0x800000000, 0, 4⟩ none, []⟩ (.allocate 1 1)
      ⟨areasOf ⟨0x800000001, 0, 3⟩ (some ⟨0x800000000, 1, 1⟩), [⟨0xFFFF800000000000, 1, 1⟩]⟩ := .allocate rfl
  have second : FlagStep ⟨areasOf ⟨0x800000001, 0, 3⟩ (some ⟨0x800000000, 1, 1⟩), [⟨0xFFFF800000000000, 1, 1⟩]⟩
      (.allocate 1 1) ⟨areasOf ⟨0x800000002, 0, 2⟩ (some ⟨0x800000000, 1, 2⟩),
        [⟨0xFFFF800000001000, 1, 1⟩, ⟨0xFFFF800000000000, 1, 1⟩]⟩ := .allocate rfl
  have script : ∃ info, (areasOf ⟨0x800000002, 0, 2⟩ (some ⟨0x800000000, 1, 2⟩)).allocateArea 1 0b100001 =
      (some 0xFFFF800000002000, info) ∧ ⟨0x800000000, 1, 2⟩ ∈ info.used.elems ∧
        (info.freeArea 0xFFFF800000000000 (some 1)).isSome := ⟨_, rfl, by decide +kernel⟩
  obtain ⟨info, third, used, freed⟩ := script
  obtain ⟨last, freed⟩ := Option.isSome_iff_exists.mp freed
  have run : FlagRun FlagState.Regular ⟨areasOf ⟨0x800000000, 0, 4⟩ none, []⟩
      ⟨last, [⟨0xFFFF800000002000, 1, 0b100001⟩, ⟨0xFFFF800000001000, 1, 1⟩]⟩ := by
    refine .tail (.tail (.tail (.single ⟨_, ?_, first⟩) ⟨_, ?_, second⟩) ⟨.allocate 1 0b100001, ?_, .allocate third⟩)
      ⟨_, ?_, .free (show _ = [_, _] ++ (⟨0xFFFF800000000000, 1, 1⟩ : LiveArea) :: [] from rfl) (.inl rfl) freed⟩
    · exact ⟨Nat.one_pos, fun _ _ _ a mem => by cases mem⟩
    · exact ⟨Nat.one_pos, fun _ _ _ a mem _ => by rw [List.mem_singleton.mp mem]; rfl⟩
    · exact ⟨Nat.one_pos, fun merges => absurd merges (by decide)⟩
    · exact ⟨⟨0x800000000, 1, 2⟩, used, rfl, fun whole => by cases whole⟩
  exact ⟨_, run, rfl, (flags_are_kept fourPages_free fourPages_init run).1⟩

/-- The second area takes the pages of the first one, which get its flags. -/
theorem merging_changes_flags : ¬ ∀ (ranges : List (Nat × Nat)) (info : AllocationInfo) (s : FlagState),
    FreeRanges ranges → AllocationInfo.new.init ranges = some info → FlagRun (fun _ _ => True) ⟨info, []⟩ s →
      ∀ area ∈ s.live, ∀ p ∈ area.pages, ∃ a ∈ s.info.used, p ∈ a.pages ∧ a.flagBits = area.flags &&& 0b111111 := by
  intro all
  have second : FlagStep ⟨areasOf ⟨0x800000001, 0, 3⟩ (some ⟨0x800000000, 1, 1⟩), [⟨0xFFFF800000000000, 1, 1⟩]⟩
      (.allocate 1 0b10001) ⟨areasOf ⟨0x800000002, 0, 2⟩ (some ⟨0x800000000, 0b10001, 2⟩),
        [⟨0xFFFF800000001000, 1, 0b10001⟩, ⟨0xFFFF800000000000, 1, 1⟩]⟩ := .allocate rfl
  obtain ⟨a, mem, -, same⟩ := all _ _ _ fourPages_free fourPages_init (.tail
    (.single ⟨.allocate 1 1, trivial, .allocate rfl⟩) ⟨_, trivial, second⟩)
    ⟨0xFFFF800000000000, 1, 1⟩ (by simp) 0x800000000 ⟨by decide, by decide⟩
  obtain rfl : a = ⟨0x800000000, 0b10001, 2⟩ := List.mem_singleton.mp mem
  exact absurd same (by decide)

end MeowOs.Memory
