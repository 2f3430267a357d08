import MeowOs.Memory.PageAtlas

/-! # The tree of a range

`userspace_map` and `userspace_unmap` walk the tree of a range along its pages;
`delete` gives back the tables of a whole tree.  Each has one spec over charts:
the first two take the steps that `PageAtlas` allows, and the last frees exactly
the tables that are placed below its table, each once.
-/

namespace MeowOs.Memory

open MeowOs.Machine PageTableEntry TableMem Prog PageTable
open Space (allocateManual freeManual manual onTables)
open Function (update update_of_ne update_self)

/-! ## What a job leaves alone -/

section Frame

variable {σ : Setting} {job : Job} {s s' : TableMem} {place place' : Places} {x f : Nat} {p : TablePlace Owner}

theorem Touches.induct {I : TableMem → Places → Prop} (touches : Touches σ job (s, place) (s', place'))
    (isChart : Chart σ s place) (start : I s place)
    (graft : ∀ {u : TableMem} {q : Places} {t l n i f e : Nat} {rest : List Nat}, Chart σ u q → I u q → job.grows →
      q t = some ⟨job.owner, l + 1, n⟩ → i < 512 → q f = none → u.pool = f :: rest →
      I (u.grafted l t i f rest e) (update q f (some ⟨job.owner, l, 512 * n + i⟩)))
    (prune : ∀ {u : TableMem} {q : Places} {t l n i f : Nat}, Chart σ u q → I u q → ¬ job.grows →
      (l = 0 → job.clears (512 * n + i)) → q t = some ⟨job.owner, l + 1, n⟩ → i < 512 →
      q f = some ⟨job.owner, l, 512 * n + i⟩ → I (u.pruned l t i f) (update q f none)) : I s' place' := by
  suffices holds : ∀ y, Touches σ job (s, place) y → I y.1 y.2 from holds (s', place') touches
  intro y touches
  induction touches with
  | refl => exact start
  | tail before touch ih =>
    have mid := Touches.chart before isChart
    cases touch with
    | graft may table _ lt _ _ offer _ =>
      have new := mid.fresh (by rw [offer]; exact .head _)
      exact graft mid ih may table lt new offer
    | prune shrinks may table _ lt _ _ child _ => exact prune mid ih shrinks may table lt child

theorem update_none_of_placed {q : Places} {p' : TablePlace Owner} (placed : q x = some p)
    (child : q f = some p') (ne : p ≠ p') : x ≠ f ∧ update q f none x = some p := by
  have away : x ≠ f := by
    rintro rfl
    exact ne (Option.some.inj (placed.symm.trans child))
  exact ⟨away, update_none_eq_some.mpr ⟨away, placed⟩⟩

section

variable (touches : Touches σ job (s, place) (s', place')) (isChart : Chart σ s place)

include touches isChart

theorem Touches.foreign
    (placed : place x = some p) (other : p.owner ≠ job.owner) : place' x = some p ∧ s'.entries x = s.entries x := by
  have away : ∀ {q : Places} {t l n}, q x = some p → q t = some ⟨job.owner, l, n⟩ → x ≠ t := by
    rintro q t l n there table rfl
    cases table.symm.trans there
    exact other rfl
  refine touches.induct (I := fun u q => q x = some p ∧ u.entries x = s.entries x) isChart ⟨placed, rfl⟩ ?_ ?_
  · intro u q t l n i f e rest _ ih _ table _ new _
    obtain ⟨ne, there⟩ := update_of_placed ih.1 new
    exact ⟨there, (grafted_other ne (away ih.1 table)).trans ih.2⟩
  intro u q t l n i f _ ih _ _ table _ child
  obtain ⟨ne, there⟩ := update_none_of_placed ih.1 child fun same => other (congrArg TablePlace.owner same)
  refine ⟨there, ?_⟩
  rw [pruned_entries, put_other (away ih.1 table), ih.2]

theorem Touches.old_or_own (placed : place' x = some p) : p.owner = job.owner ∨ place x = some p := by
  refine touches.induct (I := fun _ q => q x = some p → p.owner = job.owner ∨ place x = some p) isChart .inr ?_ ?_
    placed
  · intro u q t l n i f e rest _ ih _ _ _ _ _ there
    rcases update_eq_some.mp there with ⟨-, rfl⟩ | ⟨-, before⟩
    · exact .inl rfl
    · exact ih before
  · intro u q t l n i f _ ih _ _ _ _ _ there
    exact ih (update_none_eq_some.mp there).2

theorem Touches.kept (grows : job.grows) (placed : place x = some p) : place' x = some p := by
  refine touches.induct (I := fun _ q => q x = some p) isChart placed ?_ ?_
  · intro u q t l n i f e rest _ ih _ _ _ new _
    exact (update_of_placed ih new).2
  · intro u q t l n i f _ _ shrinks
    exact absurd grows shrinks

theorem Touches.root {o : Owner} {n : Nat}
    (placed : place x = some ⟨o, σ.height o, n⟩) : place' x = some ⟨o, σ.height o, n⟩ := by
  refine touches.induct (I := fun _ q => q x = some ⟨o, σ.height o, n⟩) isChart placed ?_ ?_
  · intro u q t l m i f e rest _ ih _ _ _ new _
    exact (update_of_placed ih new).2
  intro u q t l m i f mid ih _ _ table _ child
  refine (update_none_of_placed ih child ?_).2
  rintro same
  obtain ⟨rfl, rfl, -⟩ := TablePlace.mk.inj same
  have := mid.forest.level_le table
  omega

end

def account (s : TableMem) (f : Nat) : Nat := s.frees f + (if s.inUse f then 1 else 0) + s.pool.count f

/-- Frames move between the offer, their use and the given back ones, and none is lost or doubled. -/
structure SameAccount (s s' : TableMem) : Prop where
  account : ∀ f, account s' f = account s f
  pool : s'.pool <:+ s.pool

theorem SameAccount.refl (s : TableMem) : SameAccount s s := ⟨fun _ => rfl, List.suffix_refl _⟩

theorem SameAccount.trans {s1 s2 s3 : TableMem} (first : SameAccount s1 s2) (second : SameAccount s2 s3) :
    SameAccount s1 s3 :=
  ⟨fun f => (second.account f).trans (first.account f), second.pool.trans first.pool⟩

theorem SameAccount.take {rest : List Nat} (offer : s.pool = f :: rest) (unused : s.inUse f = false)
    (pool : s'.pool = rest) (inUse : s'.inUse = update s.inUse f true) (frees : s'.frees = s.frees) :
    SameAccount s s' := by
  refine ⟨fun x => ?_, by rw [offer, pool]; exact List.suffix_cons f rest⟩
  unfold Memory.account
  rw [inUse, frees, offer, pool]
  by_cases same : x = f
  · subst same
    simp only [update_self, if_true, unused, Bool.false_eq_true, if_false, List.count_cons_self]
    omega
  · simp [same, Ne.symm same]

theorem SameAccount.of_eq (pool : s'.pool = s.pool) (inUse : s'.inUse = s.inUse) (frees : s'.frees = s.frees) :
    SameAccount s s' := by
  refine ⟨fun x => ?_, pool ▸ List.suffix_refl _⟩
  unfold Memory.account
  rw [inUse, frees, pool]

/-- Exactly the frames of `D` are given back, each once. -/
structure Frees (D : Nat → Prop) (s s' : TableMem) : Prop where
  entries : s'.entries = s.entries
  pool : s'.pool = s.pool
  hhdm : s'.hhdm = s.hhdm
  freed : ∀ f, D f → s'.inUse f = false ∧ s'.frees f = s.frees f + 1
  kept : ∀ f, ¬ D f → s'.inUse f = s.inUse f ∧ s'.frees f = s.frees f

section Frees

variable {D D' D'' : Nat → Prop} {s u v : TableMem}

theorem Frees.none (empty : ∀ f, ¬ D f) : Frees D s s :=
  ⟨rfl, rfl, rfl, fun f inside => absurd inside (empty f), fun _ _ => ⟨rfl, rfl⟩⟩

theorem Frees.congr (frees : Frees D s u) (same : ∀ f, D' f ↔ D f) : Frees D' s u :=
  ⟨frees.entries, frees.pool, frees.hhdm, fun f inside => frees.freed f ((same f).mp inside),
    fun f outside => frees.kept f fun inside => outside ((same f).mpr inside)⟩

theorem Frees.trans (first : Frees D s u) (second : Frees D' u v) (apart : ∀ f, D f → ¬ D' f)
    (all : ∀ f, D'' f ↔ D f ∨ D' f) : Frees D'' s v := by
  refine ⟨second.entries.trans first.entries, second.pool.trans first.pool, second.hhdm.trans first.hhdm, ?_, ?_⟩
  · intro f inside
    rcases (all f).mp inside with one | two
    · obtain ⟨unused, count⟩ := first.freed f one
      obtain ⟨unused', count'⟩ := second.kept f (apart f one)
      exact ⟨unused'.trans unused, count'.trans count⟩
    · obtain ⟨-, count⟩ := first.kept f fun one => apart f one two
      obtain ⟨unused', count'⟩ := second.freed f two
      exact ⟨unused', by rw [count', count]⟩
  · intro f outside
    obtain ⟨used, count⟩ := first.kept f fun one => outside ((all f).mpr (.inl one))
    obtain ⟨used', count'⟩ := second.kept f fun two => outside ((all f).mpr (.inr two))
    exact ⟨used'.trans used, count'.trans count⟩

theorem frees_freed (s : TableMem) (f : Nat) : Frees (· = f) s (s.freed f) := by
  refine ⟨rfl, rfl, rfl, ?_, fun g ne => ⟨update_of_ne ne _ _, update_of_ne ne _ _⟩⟩
  rintro g rfl
  exact ⟨update_self .., update_self ..⟩

theorem Frees.sameAccount (frees : Frees D s u) (used : ∀ f, D f → s.inUse f = true) : SameAccount s u := by
  refine ⟨fun f => ?_, frees.pool ▸ List.suffix_refl _⟩
  unfold Memory.account
  rw [frees.pool]
  by_cases inside : D f
  · simp [frees.freed f inside, used f inside]
  · simp [frees.kept f inside]

theorem Frees.inUse {o : Owner} (frees : Frees D s u) (own : ∀ f, D f → ∃ l c, place f = some ⟨o, l, c⟩) (f : Nat) :
    u.inUse f = s.inUse f ∨ (u.inUse f = false ∧ ∃ p, place f = some p ∧ p.owner = o) := by
  by_cases inside : D f
  · obtain ⟨l, c, placed⟩ := own f inside
    exact .inr ⟨(frees.freed f inside).1, _, placed, rfl⟩
  · exact .inl (frees.kept f inside).1

end Frees

section

variable (touches : Touches σ job (s, place) (s', place')) (isChart : Chart σ s place)

include touches isChart

theorem Touches.account : SameAccount s s' := by
  refine touches.induct (I := fun u _ => SameAccount s u) isChart (.refl s) ?_ ?_
  · intro u q t l n i f e rest mid ih _ _ _ _ offer
    exact ih.trans (.take offer (mid.pool (offer ▸ .head _)).2 rfl rfl rfl)
  intro u q t l n i f mid ih _ _ _ _ child
  refine ih.trans ?_
  unfold pruned
  split
  next => exact .of_eq rfl rfl rfl
  next =>
  have used : u.inUse f = true := (mid.frames child).2
  have cleared : SameAccount u (u.put t i 0) := .of_eq rfl rfl rfl
  exact cleared.trans ((frees_freed _ f).sameAccount fun g same => same ▸ used)

/-- A frame in use that has lost its place was a page that the job clears. -/
theorem Touches.lost (used : s'.inUse x = true) (unplaced : place' x = none) :
    (s.inUse x = true ∧ place x = none) ∨ ¬ job.grows ∧ ∃ c, job.clears c ∧ place x = some ⟨job.owner, 0, c⟩ := by
  refine (touches.induct (I := fun u q => (¬ job.grows → ∀ {y p}, q y = some p → place y = some p) ∧
    (u.inUse x = true → q x = none → (s.inUse x = true ∧ place x = none) ∨
      ¬ job.grows ∧ ∃ c, job.clears c ∧ place x = some ⟨job.owner, 0, c⟩))
    isChart ⟨fun _ {y p} placed => placed, fun used unplaced => .inl ⟨used, unplaced⟩⟩ ?_ ?_).2 used unplaced
  · intro u q t l n i f e rest _ ih may _ _ new _
    refine ⟨fun shrinks => absurd may shrinks, fun used unplaced => ?_⟩
    by_cases same : x = f
    · rw [same, update_self] at unplaced
      cases unplaced
    · rw [update_of_ne same] at unplaced
      rw [grafted_inUse, update_of_ne same] at used
      exact ih.2 used unplaced
  · intro u q t l n i f mid ih shrinks may _ _ child
    refine ⟨fun _ {y p} placed => ih.1 shrinks (update_none_eq_some.mp placed).2, fun used unplaced => ?_⟩
    by_cases same : x = f
    · subst same
      by_cases leaf : l = 0
      · subst leaf
        exact .inr ⟨shrinks, _, may rfl, ih.1 shrinks child⟩
      · rw [pruned, if_neg leaf, freed] at used
        simp only [update_self, Bool.false_eq_true] at used
    · rw [update_of_ne same] at unplaced
      rw [pruned_inUse same] at used
      exact ih.2 used unplaced

theorem Touches.pages (grows : job.grows)
    (page : ∀ o l n, place' x ≠ some ⟨o, l + 1, n⟩) : s'.entries x = s.entries x := by
  refine touches.induct (I := fun u q => (∀ o l n, q x ≠ some ⟨o, l + 1, n⟩) → u.entries x = s.entries x) isChart
    (fun _ => rfl) ?_ ?_ page
  · intro u q t l n i f e rest mid ih _ table _ new _ page
    have away : x ≠ t := by
      rintro rfl
      exact page _ _ _ (update_of_placed table new).2
    by_cases same : x = f
    · subst same
      have leaf : l = 0 := by
        by_contra tall
        obtain ⟨k, rfl⟩ := Nat.exists_eq_succ_of_ne_zero tall
        exact page _ _ _ (update_self ..)
      subst leaf
      rw [grafted, put_other away]
      exact ih fun o l n placed => nomatch new.symm.trans placed
    · rw [grafted_other same away]
      refine ih fun o l n placed => page o l n ?_
      exact (update_of_ne same _ _).trans placed
  · intro u q t l n i f _ _ shrinks
    exact absurd grows shrinks

end

end Frame

/-! ## Mapping pages -/

namespace TableMem

theorem put_put (s : TableMem) (t i e e' : Nat) : (s.put t i e).put t i e' = s.put t i e' := by
  simp [put]

theorem put_eq_self (s : TableMem) (t i : Nat) : s.put t i (s.entries t i) = s := by
  simp [put]

theorem allocate_bind {β : Type} {s : TableMem} {f : Nat} {rest : List Nat} (offer : s.pool = f :: rest)
    (q : Nat → Prog TableMem β) : (allocate >>= q) s = q f { s with pool := rest, inUse := update s.inUse f true } := by
  rw [bind_run, allocate, offer]
  rfl

theorem zeroFrame_bind {β : Type} {s : TableMem} {f : Nat} (direct : f < s.hhdm.len) (q : Unit → Prog TableMem β) :
    (zeroFrame f >>= q) s = q () { s with entries := update s.entries f fun _ => 0 } := by
  apply bind_of_eq_some
  rw [zeroFrame, direct_bind_run _ direct]
  rfl

end TableMem

theorem endIndex_le (stop tpi : Nat) {ppe : Nat} (pos : 0 < ppe) :
    (min stop (tpi + ppe * 512) - tpi + ppe - 1) / ppe ≤ 512 := by
  apply Nat.le_of_lt_succ
  rw [Nat.div_lt_iff_lt_mul pos]
  omega

theorem VirtualMemoryRangeCapacity.intoLevel_le (c : VirtualMemoryRangeCapacity) : c.intoLevel ≤ 3 := by
  cases c <;> decide

theorem VirtualMemoryRange.level_le (range : VirtualMemoryRange) : range.level ≤ 3 := range.capacity.intoLevel_le

section Map

variable {σ : Setting} {s s' : TableMem} {place place' : Places} {t i l n node perms tpi ppe f : Nat}
  {lower : Nat → Nat → Prog TableMem Unit} {range : VirtualMemoryRange}

def userEntry (f : Nat) (write execute : Bool) : Nat :=
  setNoExecute (setWriteable (PageTableEntry.new f true) write) (!execute)

theorem userspaceMapEntry_page : userspaceMapEntry lower t perms 1 tpi ppe i s =
      if present (s.entries t i) then some ((), s)
      else match s.pool with
        | [] => none
        | f :: rest => some ((), s.grafted 0 t i f rest (userEntry f (perms.testBit 0) (perms.testBit 1))) := by
  unfold userspaceMapEntry
  rw [entry_bind, if_pos rfl]
  split
  next => rfl
  rw [bind_run, allocate]
  cases s.pool with
  | nil => rfl
  | cons f rest => rfl

theorem userspaceMapEntry_blank {rest : List Nat} (blank : present (s.entries t i) = false)
    (offer : s.pool = f :: rest) (good : GoodFrame s f) : userspaceMapEntry lower t perms (l + 2) tpi ppe i s =
      lower f (tpi + i * ppe) (s.grafted (l + 1) t i f rest (userEntry f true (perms.testBit 1))) := by
  have first := leads_new_user f
  have leads : Leads (userEntry f true (perms.testBit 1)) f true (perms.testBit 1) := good.leads _ _
  have flags : setNoExecute (setWriteable (PageTableEntry.new f true)
        (writeable (PageTableEntry.new f true) || perms.testBit 0))
      (noExecute (setWriteable (PageTableEntry.new f true) (writeable (PageTableEntry.new f true) || perms.testBit 0)) &&
        !perms.testBit 1) = userEntry f true (perms.testBit 1) := by
    rw [first.writeable, Bool.true_or, (first.setWriteable true).noExecute]
    rfl
  unfold userspaceMapEntry
  rw [entry_bind, if_neg (by omega), blank]
  dsimp only
  rw [if_pos (by decide), allocate_bind offer, zeroFrame_bind (by exact good.direct),
    bind_of_eq_some (setEntry_run _ _ _ _), entry_bind, put_self, flags,
    bind_of_eq_some (setEntry_run _ _ _ _), put_put, direct_bind_run _ (by rw [leads.address]; exact good.direct),
    leads.address]
  simp [grafted]

theorem userspaceMapEntry_table (leads : Leads (s.entries t i) f true (perms.testBit 1))
    (direct : f < s.hhdm.len) : userspaceMapEntry lower t perms (l + 2) tpi ppe i s = lower f (tpi + i * ppe) s := by
  have flags : setNoExecute (setWriteable (s.entries t i) (writeable (s.entries t i) || perms.testBit 0))
      (noExecute (setWriteable (s.entries t i) (writeable (s.entries t i) || perms.testBit 0)) && !perms.testBit 1) =
        s.entries t i := by
    rw [leads.writeable, Bool.true_or, setWriteable, setBit_eq_self leads.writeable, leads.noExecute, Bool.and_self,
      setNoExecute, setBit_eq_self leads.noExecute]
  unfold userspaceMapEntry
  rw [entry_bind, if_neg (by omega), leads.present]
  dsimp only
  rw [if_neg (by decide), assert_bind_run (by rw [leads.small]; rfl), entry_bind, flags, bind_of_eq_some (setEntry_run _ _ _ _),
    put_eq_self, leads.address, direct_bind_run _ direct]

theorem userspaceMapEntry_outcome (known : σ.ranges node = some range)
    (isChart : Chart σ s place) (table : place t = some ⟨.range node, l + 1, n⟩) (lt : i < 512)
    (recurse : ∀ {f m s place s'}, 0 < l → Chart σ s place → place f = some ⟨.range node, l, m⟩ →
      lower f (tpi + i * ppe) s = some ((), s') →
        ∃ place', Outcome σ ⟨.range node, True, fun _ => False⟩ (lower f (tpi + i * ppe)) s place () s' place')
    (run : userspaceMapEntry lower t range.perms (l + 1) tpi ppe i s = some ((), s')) :
    ∃ place', Outcome σ ⟨.range node, True, fun _ => False⟩
        (userspaceMapEntry lower t range.perms (l + 1) tpi ppe i) s place () s' place' := by
  have small : l < 3 := by
    have le := isChart.forest.level_le table
    have height : σ.height (.range node) = range.level := by rw [Setting.height, known]; rfl
    have := range.level_le
    omega
  have here : ∀ u, Twin place s u → u.entries t i = s.entries t i := fun u twin => by
    rw [twin.tables table ⟨Nat.succ_pos l, show l + 1 < 4 by omega⟩]
  have rights : σ.rights (.range node) l = (decide (0 < l) || range.perms.testBit 0, range.perms.testBit 1) := by
    rw [Setting.rights, known]
    rfl
  -- a new frame behind the blank entry
  have graft : ∀ {f e rest}, present (s.entries t i) = false → s.pool = f :: rest →
      Leads e f (decide (0 < l) || range.perms.testBit 0) (range.perms.testBit 1) →
      Touch σ ⟨.range node, True, fun _ => False⟩ (s, place)
        (s.grafted l t i f rest e, update place f (some ⟨.range node, l, 512 * n + i⟩)) := by
    intro f e rest blank offer leads
    refine .graft trivial table small lt (fun id eq => ?_) blank offer ?_
    · cases eq
    · rw [rights]
      exact leads
  have good : ∀ {f rest}, s.pool = f :: rest → GoodFrame s f := fun offer => (isChart.pool (offer ▸ .head _)).1
  cases l with
  | zero =>
    rw [userspaceMapEntry_page] at run
    split at run
    next there =>
      cases run
      refine ⟨place, .same fun u twin => ?_⟩
      rw [userspaceMapEntry_page, here u twin, if_pos there]
    next there =>
      cases offer : s.pool with
      | nil =>
        rw [offer] at run
        cases run
      | cons f rest =>
        rw [offer] at run
        cases run
        have touch := graft (by simpa using there) offer ((good offer).leads _ _)
        refine ⟨_, .single touch, fun u twin => ⟨_, ?_, twin.graft⟩⟩
        rw [userspaceMapEntry_page, here u twin, if_neg there, twin.pool, offer]
  | succ l =>
    cases there : present (s.entries t i) with
    | true =>
      have leads := isChart.entries table lt (by rwa [view_range table])
      rw [view_range table, rights] at leads
      have child := isChart.range_child table lt there
      have direct := (isChart.frames child).1.direct
      rw [userspaceMapEntry_table leads direct] at run
      obtain ⟨place', outcome⟩ := recurse (Nat.succ_pos l) isChart child run
      refine ⟨place', .head (fun u twin => ?_) outcome⟩
      rw [userspaceMapEntry_table (by rw [here u twin]; exact leads) (by rw [twin.hhdm]; exact direct)]
    | false =>
      cases offer : s.pool with
      | nil =>
        rw [userspaceMapEntry, entry_bind, if_neg (by omega), there, if_pos (by decide), bind_run, allocate, offer] at run
        cases run
      | cons f rest =>
        have touch := graft there offer (by
          exact (good offer).leads true _)
        rw [userspaceMapEntry_blank there offer (good offer)] at run
        obtain ⟨place', outcome⟩ := recurse (Nat.succ_pos l) (touch.chart isChart) (update_self ..) run
        refine ⟨place', .head touch outcome.touches, fun u twin => ?_⟩
        obtain ⟨u', run', last⟩ := outcome.twin _ twin.graft
        refine ⟨u', ?_, last⟩
        rw [userspaceMapEntry_blank (by rw [here u twin]; exact there) (by rw [twin.pool]; exact offer)
          ((good offer).of_hhdm twin.hhdm)]
        exact run'

theorem userspaceMap_outcome (known : σ.ranges node = some range) {start stop : Nat} :
    ∀ {level t n tpi : Nat} {s s' : TableMem} {place : Places}, Chart σ s place →
      place t = some ⟨.range node, level, n⟩ → userspaceMap start stop range.perms level t tpi s = some ((), s') →
      ∃ place', Outcome σ ⟨.range node, True, fun _ => False⟩
          (userspaceMap start stop range.perms level t tpi) s place () s' place' := by
  intro level
  induction level with
  | zero => exact nofun
  | succ level ih =>
    intro t n tpi s s' place isChart table run
    unfold userspaceMap at run
    split at run
    next empty =>
      cases run
      refine ⟨place, .same fun u _ => ?_⟩
      rw [userspaceMap, if_pos empty]
      rfl
    next empty =>
    obtain ⟨inside, run⟩ := assert_bind_eq_some.mp run
    obtain ⟨place', outcome, -⟩ := Outcome.forUp (fun q => q t = some ⟨.range node, level + 1, n⟩)
      (fun i _ lt u q u' isChart' table round => by
        have bound : i < 512 := by
          have le := endIndex_le stop tpi (Nat.pow_pos (n := level) (show 0 < 512 by omega))
          omega
        obtain ⟨q', outcome⟩ := userspaceMapEntry_outcome known isChart' table bound
          (fun _ chart child call => ih chart child call) round
        exact ⟨q', outcome, outcome.touches.kept isChart' trivial table⟩)
      isChart table run
    refine ⟨place', .head (fun u _ => ?_) outcome⟩
    rw [userspaceMap, if_neg empty]
    exact assert_bind_run inside _ u

end Map

/-! ## Unmapping pages -/

section Unmap

variable {σ : Setting} {s s' : TableMem} {place place' : Places} {t i l n node tpi ppe : Nat}
  {lower : Nat → Nat → Prog TableMem Unit}

theorem userspaceUnmapEntry_blank (blank : present (s.entries t i) = false) :
    userspaceUnmapEntry lower t l tpi ppe i s = some ((), s) := by
  unfold userspaceUnmapEntry
  rw [entry_bind, blank, if_pos (by decide)]
  rfl

theorem userspaceUnmapEntry_page (there : present (s.entries t i) = true) :
    userspaceUnmapEntry lower t 1 tpi ppe i s = some ((), s.put t i 0) := by
  unfold userspaceUnmapEntry
  rw [entry_bind, there, if_neg (by decide), if_pos rfl]
  rfl

def isBlank (s : TableMem) (table : Nat) : Bool := (List.range 512).all fun i => !present (s.entries table i)

theorem userspaceUnmapEntry_table {f : Nat} (there : present (s.entries t i) = true)
    (small : hugePage (s.entries t i) = false) (leads : address (s.entries t i) = f) (direct : f < s.hhdm.len)
    (nonzero : f ≠ 0) : userspaceUnmapEntry lower t (l + 2) tpi ppe i s = (lower f (tpi + i * ppe) s).bind fun r =>
      some ((), if isBlank r.2 f then (r.2.put t i 0).freed f else r.2) := by
  unfold userspaceUnmapEntry
  rw [entry_bind, there, if_neg (by decide), if_neg (by omega), assert_bind_run (by rw [small]; rfl), leads,
    direct_bind_run _ direct, bind_run]
  cases lower f (tpi + i * ppe) s with
  | none => rw [Option.bind_none, Option.bind_none]
  | some r =>
    rw [Option.bind_some, Option.bind_some, bind_of_eq_some (show isEmpty f r.2 = some (isBlank r.2 f, r.2) from rfl)]
    cases isBlank r.2 f with
    | false => rfl
    | true => rw [if_pos rfl, if_pos rfl, bind_of_eq_some (setEntry_run _ _ _ _), free_run nonzero]

theorem userspaceUnmapEntry_outcome {clears : Nat → Prop} (isChart : Chart σ s place)
    (table : place t = some ⟨.range node, l + 1, n⟩) (lt : i < 512) (small : l < 3) (may : l = 0 → clears (512 * n + i))
    (recurse : ∀ {f s place s'}, 0 < l → Chart σ s place → place f = some ⟨.range node, l, 512 * n + i⟩ →
      lower f (tpi + i * ppe) s = some ((), s') → ∃ place',
        Outcome σ ⟨.range node, False, clears⟩ (lower f (tpi + i * ppe)) s place () s' place' ∧
        ∀ x p, place x = some p → l ≤ p.level → place' x = some p)
    (run : userspaceUnmapEntry lower t (l + 1) tpi ppe i s = some ((), s')) :
    ∃ place', Outcome σ ⟨.range node, False, clears⟩
        (userspaceUnmapEntry lower t (l + 1) tpi ppe i) s place () s' place' ∧
      ∀ x p, place x = some p → l + 1 ≤ p.level → place' x = some p := by
  have here : ∀ u, Twin place s u → u.entries t i = s.entries t i := fun u twin => by
    rw [twin.tables table ⟨Nat.succ_pos l, show l + 1 < 4 by omega⟩]
  cases there : present (s.entries t i) with
  | false =>
    rw [userspaceUnmapEntry_blank there] at run
    cases run
    refine ⟨place, .same fun u twin => ?_, fun x p placed _ => placed⟩
    exact userspaceUnmapEntry_blank (by rw [here u twin]; exact there)
  | true =>
    have child := isChart.range_child table lt there
    cases l with
    | zero =>
      rw [userspaceUnmapEntry_page there] at run
      cases run
      have touch : Touch σ ⟨.range node, False, clears⟩ (s, place)
          (s.pruned 0 t i (address (s.entries t i)), update place (address (s.entries t i)) none) :=
        .prune not_false may table small lt there rfl child fun pos => absurd pos (lt_irrefl 0)
      refine ⟨_, ⟨.single touch, fun u twin => ⟨_, ?_, twin.prune (l := 0) (t := t) (i := i)⟩⟩, fun x p placed tall => ?_⟩
      · exact userspaceUnmapEntry_page (by rw [here u twin]; exact there)
      · refine (update_none_of_placed placed child ?_).2
        rintro rfl
        cases tall
    | succ l =>
      have leads := isChart.entries table lt (by rw [view_range table]; exact there)
      rw [view_range table] at leads
      obtain ⟨goodFrame, -⟩ := isChart.frames child
      rw [userspaceUnmapEntry_table there leads.small rfl goodFrame.direct goodFrame.nonzero] at run
      obtain ⟨⟨_, s1⟩, call, run⟩ := Option.bind_eq_some_iff.mp run
      obtain ⟨place1, outcome, kept⟩ := recurse (Nat.succ_pos l) isChart child call
      have isChart1 := outcome.chart isChart
      have table1 := kept t _ table (by simp)
      have child1 := kept _ _ child (le_refl _)
      -- the entry still leads to the lower table, which is still there
      have step := isChart1.forest.step table1 lt child1
      rw [next_eq_some_iff, view_range table1] at step
      have twinRun : ∀ u, Twin place s u → ∃ u1, Twin place1 s1 u1 ∧
          userspaceUnmapEntry lower t (l + 1 + 1) tpi ppe i u =
            some ((), if isBlank s1 (address (s.entries t i)) then (u1.put t i 0).freed (address (s.entries t i))
              else u1) := by
        intro u twin
        obtain ⟨u1, call', twin1⟩ := outcome.twin u twin
        refine ⟨u1, twin1, ?_⟩
        have same : isBlank u1 (address (s.entries t i)) = isBlank s1 (address (s.entries t i)) := by
          unfold isBlank
          rw [twin1.tables child1 ⟨Nat.succ_pos l, show l + 1 < 4 by omega⟩]
        rw [userspaceUnmapEntry_table (by rw [here u twin]; exact there) (by rw [here u twin]; exact leads.small)
          (by rw [here u twin]) (by rw [twin.hhdm]; exact goodFrame.direct) goodFrame.nonzero, call', Option.bind_some,
          same]
      cases blank : isBlank s1 (address (s.entries t i)) with
      | false =>
        simp only [blank, Bool.false_eq_true, if_false] at run twinRun
        cases run
        refine ⟨place1, ⟨outcome.touches, fun u twin => ?_⟩, fun x p placed tall => kept x p placed (by omega)⟩
        obtain ⟨u1, twin1, run'⟩ := twinRun u twin
        exact ⟨u1, run', twin1⟩
      | true =>
        simp only [blank, if_true] at run twinRun
        cases run
        have touch : Touch σ ⟨.range node, False, clears⟩ (s1, place1)
            (s1.pruned (l + 1) t i (address (s.entries t i)), update place1 (address (s.entries t i)) none) :=
          .prune not_false (fun zero => absurd zero (Nat.succ_ne_zero l)) table1 small lt step.1 step.2 child1 fun _ =>
            by simpa [isBlank] using blank
        refine ⟨_, ⟨outcome.touches.tail touch, fun u twin => ?_⟩, fun x p placed tall => ?_⟩
        · obtain ⟨u1, twin1, run'⟩ := twinRun u twin
          exact ⟨_, run', twin1.prune (l := l + 1) (t := t) (i := i)⟩
        refine (update_none_of_placed (kept x p placed (by omega)) child1 ?_).2
        rintro rfl
        dsimp only at tall
        omega

theorem userspaceUnmap_outcome {start stop : Nat} :
    ∀ {level t n : Nat} {s s' : TableMem} {place : Places}, level ≤ 3 → Chart σ s place →
      place t = some ⟨.range node, level, n⟩ → userspaceUnmap start stop level t (n * 512 ^ level) s = some ((), s') →
      ∃ place', Outcome σ ⟨.range node, False, fun c => start ≤ c ∧ c < stop⟩
          (userspaceUnmap start stop level t (n * 512 ^ level)) s place () s' place' ∧
        ∀ x p, place x = some p → level ≤ p.level → place' x = some p := by
  intro level
  induction level with
  | zero => exact nofun
  | succ level ih =>
    intro t n s s' place small isChart table run
    unfold userspaceUnmap at run
    split at run
    next empty =>
      cases run
      refine ⟨place, .same fun u _ => ?_, fun x p placed _ => placed⟩
      rw [userspaceUnmap, if_pos empty]
      rfl
    next empty =>
    obtain ⟨inside, run⟩ := assert_bind_eq_some.mp run
    obtain ⟨place', outcome, kept⟩ := Outcome.forUp
      (fun q => ∀ x p, place x = some p → level + 1 ≤ p.level → q x = some p)
      (fun i le lt u q u' isChart' kept round => by
        have bound : i < 512 := by
          have le := endIndex_le stop (n * 512 ^ (level + 1))
            (Nat.pow_pos (n := level) (show 0 < 512 by omega))
          omega
        have pages : level = 0 → start ≤ 512 * n + i ∧ 512 * n + i < stop := by
          rintro rfl
          omega
        have number : n * 512 ^ (level + 1) + i * 512 ^ level = (512 * n + i) * 512 ^ level := by
          ring
        obtain ⟨q', outcome, more⟩ := userspaceUnmapEntry_outcome isChart' (kept t _ table (le_refl _)) bound
          (by omega) pages (fun _ chart child call => by
            rw [number] at call ⊢
            exact ih (by omega) chart child call) round
        exact ⟨q', outcome, fun x p placed tall => more x p (kept x p placed tall) tall⟩)
      isChart (fun x p placed _ => placed) run
    refine ⟨place', .head (fun u _ => ?_) outcome, kept⟩
    rw [userspaceUnmap, if_neg empty]
    exact assert_bind_run inside _ u

end Unmap

/-! ## Deleting a tree -/

def TablesBelow (place : Places) (o : Owner) (l n f : Nat) : Prop :=
  TableForest.Below 512 place o l n f ∧ ∃ k c, place f = some ⟨o, k + 1, c⟩

section Delete

variable {σ : Setting} {s u : TableMem} {place : Places} {o : Owner} {t l n : Nat}

theorem tablesBelow_succ (isChart : Chart σ s place) {f : Nat} (table : place t = some ⟨o, l + 1, n⟩) :
    TablesBelow place o (l + 1) n f ↔ (∃ i < 512, TablesBelow place o l (512 * n + i) f) ∨ f = t := by
  unfold TablesBelow
  rw [isChart.forest.below_succ (by omega) table]
  constructor
  · rintro ⟨same | ⟨i, lt, below⟩, tall⟩
    · exact .inr same
    · exact .inl ⟨i, lt, below, tall⟩
  · rintro (⟨i, lt, below, tall⟩ | rfl)
    · exact ⟨.inr ⟨i, lt, below⟩, tall⟩
    · exact ⟨.inl rfl, l, n, table⟩

def deleteEntry (level table i : Nat) : Prog TableMem Unit := do
  let e ← entry table i
  if !present e || hugePage e then pure () else PageTable.delete level (address e)

theorem tablesBelow_next {i f : Nat} : (∃ j < i + 1, TablesBelow place o l (512 * n + j) f) ↔
      (∃ j < i, TablesBelow place o l (512 * n + j) f) ∨ TablesBelow place o l (512 * n + i) f := by
  constructor
  · rintro ⟨j, lt, below⟩
    rcases Nat.lt_succ_iff_lt_or_eq.mp lt with before | rfl
    · exact .inl ⟨j, before, below⟩
    · exact .inr below
  · rintro (⟨j, before, below⟩ | below)
    · exact ⟨j, by omega, below⟩
    · exact ⟨i, by omega, below⟩

/-- A loop over the entries of a table that gives back the tables below each of them gives back all tables below the
table.  The memory `u` may have given back other tables already. -/
theorem deleteLoop_spec (isChart : Chart σ s place) (unlinked : ∀ l c g, ¬ σ.link o l c g)
    {body : Nat → Prog TableMem Unit} (table : place t = some ⟨o, l + 1, n⟩) (entries : u.entries = s.entries)
    (hhdm : u.hhdm = s.hhdm)
    (blank : ∀ i v, i < 512 → v.entries = s.entries → present (σ.view s.entries place t i) = false →
      body i v = some ((), v))
    (child : ∀ i v f, i < 512 → v.entries = s.entries → v.hhdm = s.hhdm →
      Leads (σ.view s.entries place t i) f (σ.rights o l).1 (σ.rights o l).2 → place f = some ⟨o, l, 512 * n + i⟩ →
      ∃ v', body i v = some ((), v') ∧ Frees (TablesBelow place o l (512 * n + i)) v v') :
    ∃ v, Prog.forUp body 0 512 u = some ((), v) ∧
      Frees (fun f => ∃ j < 512, TablesBelow place o l (512 * n + j) f) u v := by
  -- after `i` entries the tables below them are gone
  refine forUp_total (fun i v => Frees (fun f => ∃ j < i, TablesBelow place o l (512 * n + j) f) u v) ?_
    (.none fun f ⟨j, lt, _⟩ => absurd lt (Nat.not_lt_zero j))
  intro i v _ lt frees
  have lt' : i < 512 := by omega
  cases there : present (σ.view s.entries place t i) with
  | false =>
    refine ⟨v, blank i v lt' (frees.entries.trans entries) there,
      frees.congr fun f => tablesBelow_next.trans (or_iff_left ?_)⟩
    rintro ⟨below, -⟩
    refine isChart.forest.not_below table lt' (fun x step => ?_) below
    rw [next_eq_some_iff, there] at step
    cases step.1
  | true =>
    have lower := (isChart.forest.down table lt' (next_eq_some_iff.mpr ⟨there, rfl⟩)).resolve_left (unlinked _ _ _)
    obtain ⟨v', run, below⟩ := child i v _ lt' (frees.entries.trans entries) (frees.hhdm.trans hhdm)
      (isChart.entries table lt' there) lower
    refine ⟨v', run, frees.trans below ?_ fun f => tablesBelow_next⟩
    rintro f ⟨j, before, one, -⟩ ⟨two, -⟩
    have := TableForest.below_number one two
    omega

theorem Frees.table (isChart : Chart σ s place) {v : TableMem} (table : place t = some ⟨o, l + 2, n⟩)
    (frees : Frees (fun f => ∃ j < 512, TablesBelow place o (l + 1) (512 * n + j) f) u v) :
    Frees (TablesBelow place o (l + 2) n) u (v.freed t) := by
  refine frees.trans (frees_freed v t) ?_ fun f => tablesBelow_succ isChart table
  rintro f ⟨j, -, ⟨k, c, placed, low, -⟩, -⟩ rfl
  rw [table, Option.some.injEq, TablePlace.mk.injEq] at placed
  omega

theorem delete_spec (isChart : Chart σ s place) (unlinked : ∀ l c g, ¬ σ.link o l c g) :
    ∀ {l t n : Nat} {u : TableMem}, l < 3 → place t = some ⟨o, l + 1, n⟩ → u.entries = s.entries → u.hhdm = s.hhdm →
      ∃ u', PageTable.delete (l + 1) t u = some ((), u') ∧ Frees (TablesBelow place o (l + 1) n) u u' := by
  intro l
  induction l with
  | zero =>
    intro t n u _ table _ _
    refine ⟨u.freed t, free_run (isChart.frames table).1.nonzero, (frees_freed u t).congr fun f => ?_⟩
    refine (tablesBelow_succ isChart table).trans (or_iff_right ?_)
    rintro ⟨i, -, ⟨k, c, placed, low, -⟩, k', c', tall⟩
    rw [tall, Option.some.injEq, TablePlace.mk.injEq] at placed
    omega
  | succ l ih =>
    intro t n u small table entries hhdm
    obtain ⟨goodFrame, -⟩ := isChart.frames table
    have view : ∀ i, σ.view s.entries place t i = s.entries t i := fun i => view_lower table (by omega)
    obtain ⟨v, loop, frees⟩ : ∃ v, Prog.forUp (deleteEntry (l + 1) t) 0 512 u = some ((), v) ∧
        Frees (fun f => ∃ j < 512, TablesBelow place o (l + 1) (512 * n + j) f) u v := by
      refine deleteLoop_spec isChart unlinked table entries hhdm (fun i v _ same blank => ?_)
        fun i v f _ same direct leads child => ?_
      · rw [view] at blank
        rw [deleteEntry, entry_bind, same, blank]
        rfl
      · rw [view] at leads
        rw [deleteEntry, entry_bind, same, leads.present, leads.small, leads.address]
        exact ih (by omega) child same direct
    refine ⟨v.freed t, ?_, frees.table isChart table⟩
    exact (direct_bind_run _ (by rw [hhdm]; exact goodFrame.direct)).trans
      ((bind_of_eq_some loop).trans (free_run goodFrame.nonzero))

end Delete

/-! ## The operations on a range -/

namespace RangeOp

inductive Plan where
  | panic
  | answer (ok : Bool)
  | map (start stop : Nat)
  | unmap (start stop : Nat)

def Plan.exec (range : VirtualMemoryRange) : Plan → Prog Space Bool
  | .panic => Prog.panic
  | .answer ok => pure ok
  | .map start stop => allocateManual range start stop
  | .unmap start stop => freeManual range start stop

/-- The pages that an operation takes from a range with `current` pages: the first of them, and one past the last. -/
def unmaps (range : VirtualMemoryRange) (current : Nat) : RangeOp → Option (Nat × Nat)
  | .shrinkTo nPages => shrunk nPages
  | .shrinkBy nPages => shrunk (current - nPages)
  | .freeManualExternal start stop => some (start, stop)
  | _ => none
where
  shrunk (nPages : Nat) : Option (Nat × Nat) :=
    match range.mode with
    | .manual => none
    | .managed .up => some (nPages, current)
    | .managed .down => some (range.capacity.pages - current, range.capacity.pages - nPages)

section Plans

variable {range : VirtualMemoryRange} {current : Nat} {op : RangeOp} {p : Prog Space Bool}

/-- The program follows a plan that depends on the number of pages alone; `taken` are the pages it may unmap. -/
def Planned (range : VirtualMemoryRange) (current : Nat) (taken : Option (Nat × Nat)) (p : Prog Space Bool) : Prop :=
  ∃ plan : Plan, (∀ sp : Space, sp.allocated range.node = current → p sp = plan.exec range sp) ∧
    ∀ start stop, plan = .unmap start stop → taken = some (start, stop)

def Looks (range : VirtualMemoryRange) (current : Nat) {α : Type} (p : Prog Space α) : Prop :=
  ∃ v : Option α, ∀ sp : Space, sp.allocated range.node = current → p sp = v.map fun a => (a, sp)

variable {taken : Option (Nat × Nat)} {α β : Type}

theorem Looks.pure (a : α) : Looks range current (pure a) := ⟨some a, fun _ _ => rfl⟩

theorem Looks.assert (holds : Bool) : Looks range current (Prog.assert holds) := by
  cases holds with
  | true => exact ⟨some (), fun _ _ => rfl⟩
  | false => exact ⟨none, fun _ _ => rfl⟩

theorem Looks.currentSizePages : Looks range current (Space.currentSizePages range) :=
  ⟨some current, fun sp same => by rw [Space.currentSizePages, same]; rfl⟩

theorem Looks.bind {p : Prog Space α} {q : α → Prog Space β} (first : Looks range current p)
    (second : ∀ a, Looks range current (q a)) : Looks range current (p >>= q) := by
  obtain ⟨v, run⟩ := first
  cases v with
  | none => exact ⟨none, fun sp same => by rw [bind_run, run sp same]; rfl⟩
  | some a =>
    obtain ⟨w, run'⟩ := second a
    exact ⟨w, fun sp same => by rw [bind_of_eq_some (run sp same), run' sp same]⟩

theorem Looks.currentRange (grow : GrowDirection) (startAddr : Nat) :
    Looks range current (Space.currentRange range grow startAddr) := by
  refine Looks.currentSizePages.bind fun n => ?_
  cases grow with
  | up => exact (Looks.assert _).bind fun _ => .pure _
  | down => exact (Looks.assert _).bind fun _ => (Looks.assert _).bind fun _ => .pure _

theorem Planned.answer (ok : Bool) : Planned range current taken (pure ok) :=
  ⟨.answer ok, fun _ _ => rfl, nofun⟩

theorem Planned.map (start stop : Nat) : Planned range current taken (allocateManual range start stop) :=
  ⟨.map start stop, fun _ _ => rfl, nofun⟩

theorem Planned.unmap (start stop : Nat) : Planned range current (some (start, stop)) (freeManual range start stop) :=
  ⟨.unmap start stop, fun _ _ => rfl, fun _ _ eq => by cases eq; rfl⟩

theorem Planned.ite {P : Prop} [Decidable P] {q : Prog Space Bool} (yes : Planned range current taken p)
    (no : Planned range current taken q) : Planned range current taken (if P then p else q) := by
  split
  next => exact yes
  next => exact no

theorem Planned.bind {p : Prog Space α} {q : α → Prog Space Bool} (first : Looks range current p)
    (second : ∀ a, Planned range current taken (q a)) : Planned range current taken (p >>= q) := by
  obtain ⟨v, run⟩ := first
  cases v with
  | none => exact ⟨.panic, fun sp same => by rw [bind_run, run sp same]; rfl, nofun⟩
  | some a =>
    obtain ⟨plan, run', unmaps⟩ := second a
    exact ⟨plan, fun sp same => by rw [bind_of_eq_some (run sp same), run' sp same], unmaps⟩

theorem Planned.size {q : Nat → Prog Space Bool} (known : Planned range current taken (q current)) :
    Planned range current taken (Space.currentSizePages range >>= q) := by
  obtain ⟨plan, run, unmaps⟩ := known
  refine ⟨plan, fun sp same => ?_, unmaps⟩
  rw [← run sp same, ← same]
  rfl

theorem planned_expandTo (nPages : Nat) : Planned range current taken (Space.expandTo range nPages) := by
  unfold Space.expandTo
  cases range.mode with
  | manual => exact .answer false
  | managed grow =>
    refine .bind .currentSizePages fun n => .ite (.answer false) (.ite (.answer false) ?_)
    cases grow with
    | up => exact .map _ _
    | down => exact .map _ _

theorem planned_expandBy (nPages : Nat) : Planned range current taken (Space.expandBy range nPages) :=
  .bind .currentSizePages fun _ => planned_expandTo _

theorem planned_expandToAddress (mappedAddr newEndAddr maxNewPages : Nat) :
    Planned range current taken (Space.expandToAddress range mappedAddr newEndAddr maxNewPages) := by
  refine .bind (.assert _) fun _ => .ite (.answer false) ?_
  cases range.mode with
  | manual => exact .answer false
  | managed grow =>
    refine .bind (.currentRange _ _) fun span => ?_
    refine .ite (.ite (.answer false) (planned_expandBy _)) (.ite ?_ (.answer true))
    exact .bind (.assert _) fun _ => .ite (.answer false) (planned_expandBy _)

theorem planned_shrinkTo (nPages : Nat) :
    Planned range current (unmaps.shrunk range current nPages) (Space.shrinkTo range nPages) := by
  unfold Space.shrinkTo unmaps.shrunk
  cases range.mode with
  | manual => exact .answer false
  | managed grow =>
    refine .size ?_
    cases grow with
    | up => exact .unmap _ _
    | down => exact .unmap _ _

theorem planned (range : VirtualMemoryRange) (current : Nat) (op : RangeOp) :
    Planned range current (op.unmaps range current) (op.run range) := by
  cases op with
  | expandTo nPages => exact planned_expandTo _
  | expandBy nPages => exact planned_expandBy _
  | expandToAddress mappedAddr newEndAddr maxNewPages => exact planned_expandToAddress _ _ _
  | shrinkTo nPages => exact planned_shrinkTo _
  | shrinkBy nPages => exact .size (planned_shrinkTo _)
  | allocateManualExternal start stop => exact .ite (.answer false) (.map _ _)
  | freeManualExternal start stop => exact .ite (.answer false) (.unmap _ _)

end Plans

end RangeOp

theorem addPages_counts (node n : Nat) : ∃ g : (Nat → Nat) → Nat → Nat, ∀ u : Space,
    Space.addPages node n u = some ((), { u with allocated := g u.allocated }) :=
  ⟨fun allocated => update allocated node (min (allocated node + n) (2 ^ 32 - 1)), fun _ => rfl⟩

theorem removePages_counts (node n : Nat) : ∃ g : (Nat → Nat) → Nat → Nat, ∀ u : Space,
    Space.removePages node n u = some ((), { u with allocated := g u.allocated }) :=
  ⟨fun allocated => update allocated node (allocated node - n), fun _ => rfl⟩

theorem rangeOp_same {op : RangeOp} {range : VirtualMemoryRange} {sp sp' : Space} {ok : Bool}
    (run : op.run range sp = some (ok, sp')) : sp' = { sp with tables := sp'.tables, allocated := sp'.allocated } := by
  obtain ⟨plan, follows, -⟩ := op.planned range (sp.allocated range.node)
  rw [follows sp rfl] at run
  have manual : ∀ {change : VirtualMemoryRange → Nat → Nat → Prog TableMem Unit} {count : Nat → Nat → Prog Space Unit}
      {start stop : Nat}, (∃ g : (Nat → Nat) → Nat → Nat, ∀ u : Space,
        count range.node (stop - start) u = some ((), { u with allocated := g u.allocated })) →
      manual change count range start stop sp = some (ok, sp') →
      sp' = { sp with tables := sp'.tables, allocated := sp'.allocated } := by
    rintro change count start stop ⟨g, counted⟩ run
    obtain ⟨-, run⟩ := assert_bind_eq_some.mp run
    split at run
    · split at run
      · cases run
        rfl
      · rw [bind_of_eq_some (counted sp)] at run
        cases run
        rfl
    · obtain ⟨_, mid, first, run⟩ := bind_eq_some.mp run
      obtain ⟨r, -, isMid⟩ := Option.map_eq_some_iff.mp first
      cases isMid
      rw [bind_of_eq_some (counted _)] at run
      cases run
      rfl
  cases plan with
  | panic => cases run
  | answer answer =>
    cases run
    rfl
  | map start stop =>
    simp only [RangeOp.Plan.exec, allocateManual] at run
    exact manual (addPages_counts range.node (stop - start)) run
  | unmap start stop =>
    simp only [RangeOp.Plan.exec, freeManual] at run
    exact manual (removePages_counts range.node (stop - start)) run

structure PagesDone (σ : Setting) (range : VirtualMemoryRange) (taken : Option (Nat × Nat)) (p : Prog Space Bool) (sp : Space)
    (place : Places) (ok : Bool) (sp' : Space) (place' : Places) : Prop where
  same : sp' = { sp with tables := sp'.tables, allocated := sp'.allocated }
  touches : ∃ job : Job, job.owner = .range range.node ∧ (taken = none → job.grows) ∧
    (∀ c, job.clears c → range.level ≠ 0 ∧ ∃ span ∈ taken, span.1 ≤ c ∧ c < span.2) ∧
    Touches σ job (sp.tables, place) (sp'.tables, place')
  twin : ∀ u, Twin place sp.tables u →
    ∃ u', p { sp with tables := u } = some (ok, { sp' with tables := u' }) ∧ Twin place' sp'.tables u'

section Pages

variable {σ : Setting} {range : VirtualMemoryRange} {taken : Option (Nat × Nat)} {sp sp' : Space} {place : Places} {ok : Bool}

theorem PagesDone.idle {p : Prog Space Bool} (g : (Nat → Nat) → Nat → Nat)
    (runs : ∀ u : Space, u.allocated = sp.allocated → p u = some (ok, { u with allocated := g u.allocated })) :
    PagesDone σ range taken p sp place ok { sp with allocated := g sp.allocated } place :=
  ⟨rfl, ⟨⟨.range range.node, True, fun _ => False⟩, rfl, fun _ => trivial, fun _ => False.elim, .refl⟩,
    fun u twin => ⟨u, runs _ rfl, twin⟩⟩

theorem manual_done {change : VirtualMemoryRange → Nat → Nat → Prog TableMem Unit} {count : Nat → Nat → Prog Space Unit}
    {start stop : Nat} (job : Job) (isChart : Chart σ sp.tables place)
    (node : place range.node = some ⟨.range range.node, range.level, 0⟩)
    (counts : ∃ g : (Nat → Nat) → Nat → Nat, ∀ u : Space,
      count range.node (stop - start) u = some ((), { u with allocated := g u.allocated }))
    (owner : job.owner = .range range.node) (grows : taken = none → job.grows)
    (clears : ∀ c, job.clears c → ∃ span ∈ taken, span.1 ≤ c ∧ c < span.2)
    (changes : range.level ≠ 0 → ∀ s', change range start stop sp.tables = some ((), s') →
      ∃ place', Outcome σ job (change range start stop) sp.tables place () s' place')
    (run : manual change count range start stop sp = some (ok, sp')) :
    ∃ place', PagesDone σ range taken (manual change count range start stop) sp place ok sp' place' := by
  obtain ⟨g, counted⟩ := counts
  unfold manual at run ⊢
  obtain ⟨ordered, run⟩ := assert_bind_eq_some.mp run
  by_cases small : range.level = 0
  · rw [if_pos small] at run ⊢
    by_cases whole : start ≠ 0 ∨ stop ≠ 1
    · rw [if_pos whole] at run ⊢
      cases run
      exact ⟨place, .idle (fun allocated => allocated) fun u _ => assert_bind_run ordered _ u⟩
    rw [if_neg whole] at run ⊢
    rw [bind_of_eq_some (counted sp)] at run
    cases run
    refine ⟨place, .idle g fun u _ => ?_⟩
    rw [assert_bind_run ordered, bind_of_eq_some (counted u)]
    rfl
  · rw [if_neg small] at run ⊢
    obtain ⟨_, mid, first, run⟩ := bind_eq_some.mp run
    obtain ⟨s', changed, rfl⟩ : ∃ s', change range start stop sp.tables = some ((), s') ∧
        mid = { sp with tables := s' } := by
      unfold onTables at first
      rw [direct_bind_run _ (isChart.frames node).1.direct] at first
      cases changed : change range start stop sp.tables with
      | none =>
        rw [changed] at first
        cases first
      | some r =>
        rw [changed] at first
        cases first
        exact ⟨r.2, rfl, rfl⟩
    rw [bind_of_eq_some (counted _)] at run
    cases run
    obtain ⟨place', outcome⟩ := changes small s' changed
    refine ⟨place', rfl, ⟨job, owner, grows, fun c isCleared => ⟨small, clears c isCleared⟩, outcome.touches⟩, fun u twin => ?_⟩
    obtain ⟨u', ran, twin'⟩ := outcome.twin u twin
    refine ⟨u', ?_, twin'⟩
    have tables : onTables (direct range.node >>= fun _ => change range start stop) { sp with tables := u } =
        some ((), { sp with tables := u' }) := by
      unfold onTables
      rw [direct_bind_run _ (by rw [twin.hhdm]; exact (isChart.frames node).1.direct), ran]
      rfl
    rw [assert_bind_run ordered, bind_of_eq_some tables, bind_of_eq_some (counted _)]
    rfl

theorem rangeOp_done {op : RangeOp} (isChart : Chart σ sp.tables place) (known : σ.ranges range.node = some range)
    (node : place range.node = some ⟨.range range.node, range.level, 0⟩) (run : op.run range sp = some (ok, sp')) :
    ∃ place', PagesDone σ range (op.unmaps range (sp.allocated range.node)) (op.run range) sp place ok sp' place' := by
  obtain ⟨plan, follows, unmapped⟩ := op.planned range (sp.allocated range.node)
  suffices done : ∃ place', PagesDone σ range (op.unmaps range (sp.allocated range.node)) (plan.exec range) sp place ok
      sp' place' by
    obtain ⟨place', done⟩ := done
    refine ⟨place', done.same, done.touches, fun u twin => ?_⟩
    rw [follows { sp with tables := u } rfl]
    exact done.twin u twin
  rw [follows sp rfl] at run
  have level : range.level ≤ 3 := range.capacity.intoLevel_le
  cases plan with
  | panic => cases run
  | answer answer =>
    cases run
    exact ⟨place, .idle (fun allocated => allocated) fun _ _ => rfl⟩
  | map start stop =>
    simp only [RangeOp.Plan.exec, allocateManual] at run ⊢
    refine manual_done ⟨.range range.node, True, fun _ => False⟩ isChart node (addPages_counts _ _) rfl (fun _ => trivial)
      (fun _ => False.elim) (fun _ s' changed => ?_) run
    exact userspaceMap_outcome known isChart node changed
  | unmap start stop =>
    rw [unmapped start stop rfl]
    simp only [RangeOp.Plan.exec, freeManual] at run ⊢
    refine manual_done ⟨.range range.node, False, fun c => start ≤ c ∧ c < stop⟩ isChart node (removePages_counts _ _) rfl
      nofun (fun _ inside => ⟨(start, stop), rfl, inside⟩) (fun _ s' changed => ?_) run
    have zero : 0 = 0 * 512 ^ range.level := (Nat.zero_mul _).symm
    rw [zero] at changed
    obtain ⟨place', outcome, -⟩ := userspaceUnmap_outcome level isChart node changed
    rw [← zero] at outcome
    exact ⟨place', outcome⟩

end Pages

end MeowOs.Memory
