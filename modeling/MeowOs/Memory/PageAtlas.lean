import MeowOs.Machine.TableForest
import MeowOs.Memory.MemorySystem

/-! # A map of the frames in page trees

Every range and every namespace owns a tree of page tables, and a namespace
links the trees of its regions.  `Chart` says where each frame of these trees
is, that the entries carry the rights they should, and that the frames are in
use; what a link is and what the root tables hold is given by a `Setting`.

* Code that works below one owner takes two kinds of steps only (`Touch`): it
  puts a new frame behind a blank entry, or it clears the entry of a frame with
  nothing below it.  Both keep the chart (`Touches.chart`).
* `Twin` relates two memories that agree on the tables and may differ in the
  pages.  `Outcome` is the spec of a program: it takes such steps, and takes the
  same ones in a twin memory.
-/

namespace MeowOs.Memory

open MeowOs.Machine PageTableEntry TableMem
open Function (update update_of_ne update_self)

/-! ## Entries -/

namespace PageTableEntry

theorem testBit_setBit (e i : Nat) (value : Bool) (j : Nat) :
    (setBit e i value).testBit j = if j = i then value else e.testBit j := by
  unfold setBit
  split
  next set =>
    split
    next same => rw [same, set]
    next => rfl
  next set =>
    by_cases same : j = i
    · subst same
      cases value with
      | false => simpa using set
      | true => simpa using set
    · simp [same, Ne.symm same]

variable {e i : Nat} {value write execute : Bool}

theorem testBit_setBit_of_ne {j : Nat} (ne : j ≠ i) : (setBit e i value).testBit j = e.testBit j := by
  rw [testBit_setBit, if_neg ne]

theorem setBit_eq_self (set : e.testBit i = value) : setBit e i value = e := if_pos set

theorem setBit_and {m : Nat} (clear : m.testBit i = false) : setBit e i value &&& m = e &&& m := by
  apply Nat.eq_of_testBit_eq
  intro j
  rw [Nat.testBit_and, Nat.testBit_and, testBit_setBit]
  split
  next same => simp [same, clear]
  next => rfl

theorem new_user (physAddr : Nat) : PageTableEntry.new physAddr true = PageTableEntry.new physAddr false ||| 4 := by
  have kept : (4 : Nat) &&& 0xFFFFFFFFFFFFFFE7 = 4 := by decide
  simp only [PageTableEntry.new, setPatWB, if_true, Bool.false_eq_true, if_false]
  rw [Nat.and_or_distrib_right, kept]

theorem address_new_user (physAddr : Nat) : address (PageTableEntry.new physAddr true) = frameOf physAddr := by
  have hidden : (4 : Nat) &&& 0xFFFFFFFFFF000 = 0 := by decide
  rw [new_user, address, Nat.and_or_distrib_right, hidden, Nat.or_zero]
  exact address_new physAddr

/-- The entry leads to the frame `f`, with the given rights. -/
structure Leads (e f : Nat) (write execute : Bool) : Prop where
  present : present e = true
  small : hugePage e = false
  address : address e = f
  writeable : writeable e = write
  noExecute : noExecute e = !execute

theorem leads_new_user (physAddr : Nat) : Leads (PageTableEntry.new physAddr true) (frameOf physAddr) true false := by
  have flags : ∀ i, (PageTableEntry.new physAddr true).testBit i =
      (((frameOf physAddr).testBit i || Nat.testBit 3 i || Nat.testBit (2 ^ 63) i) || Nat.testBit 4 i) := by
    intro i
    rw [new_user, new_eq, Nat.testBit_or, Nat.testBit_or, Nat.testBit_or]
  refine ⟨?_, ?_, address_new_user physAddr, ?_, ?_⟩
  · rw [PageTableEntry.present, flags]
    simp
  · rw [hugePage, flags, frameOf_testBit_low physAddr (by omega)]
    decide
  · rw [PageTableEntry.writeable, flags]
    simp [show Nat.testBit 3 1 = true from rfl]
  · rw [PageTableEntry.noExecute, flags, Nat.testBit_two_pow_self]
    simp

theorem Leads.setWriteable {f : Nat} (leads : Leads e f write execute) (value : Bool) :
    Leads (setWriteable e value) f value execute where
  present := (testBit_setBit_of_ne (by decide)).trans leads.present
  small := (testBit_setBit_of_ne (by decide)).trans leads.small
  address := (setBit_and (by decide)).trans leads.address
  writeable := (testBit_setBit ..).trans (if_pos rfl)
  noExecute := (testBit_setBit_of_ne (by decide)).trans leads.noExecute

theorem Leads.setNoExecute {f : Nat} (leads : Leads e f write execute) (value : Bool) :
    Leads (setNoExecute e (!value)) f write value where
  present := (testBit_setBit_of_ne (by decide)).trans leads.present
  small := (testBit_setBit_of_ne (by decide)).trans leads.small
  address := (setBit_and (by decide)).trans leads.address
  writeable := (testBit_setBit_of_ne (by decide)).trans leads.writeable
  noExecute := (testBit_setBit ..).trans (if_pos rfl)

end PageTableEntry

/-- A frame that page tables can use: entries keep its address, and the direct map reaches it. -/
structure GoodFrame (s : TableMem) (f : Nat) : Prop where
  aligned : 4096 ∣ f
  direct : f < s.hhdm.len
  nonzero : f ≠ 0

variable {s : TableMem} {f : Nat} {σ : Setting} {place : Places} {job : Job} {p : TablePlace Owner} {place' : Places}

theorem GoodFrame.frameOf_eq (good : GoodFrame s f) : frameOf f = f := by
  obtain ⟨k, rfl⟩ := good.aligned
  have low := good.direct
  have higher := s.hhdm.higher
  have fits := s.hhdm.fits
  unfold frameOf
  rw [Nat.mul_div_cancel_left k (by omega), Nat.mod_eq_of_lt (by omega), Nat.mul_comm]

theorem GoodFrame.leads (good : GoodFrame s f) (write execute : Bool) :
    Leads (setNoExecute (setWriteable (PageTableEntry.new f true) write) (!execute)) f write execute := by
  have leads := leads_new_user f
  rw [good.frameOf_eq] at leads
  exact (leads.setWriteable write).setNoExecute execute

/-! ## Charts -/

inductive Owner where
  | range (node : Nat)
  | space (id : Nat)
  deriving DecidableEq

abbrev Places := Nat → Option (TablePlace Owner)

/-- What stays as it is while the tables below one owner are worked on. -/
structure Setting where
  tops : Nat → Nat → Nat
  ranges : Nat → Option VirtualMemoryRange
  /-- Which namespace links which node, with the level and the number of the node's place. -/
  link : Owner → Nat → Nat → Nat → Prop

namespace Setting

variable (σ : Setting)

def height : Owner → Nat
  | .range node => (σ.ranges node).elim 0 (·.level)
  | .space _ => 4

/-- The rights that an entry gives which leads to level `l` of an owner's tree; "restrictions apply at lower levels". -/
def rights : Owner → Nat → Bool × Bool
  | .range node, l => (σ.ranges node).elim (true, true) fun r => (decide (0 < l) || r.perms.testBit 0, r.perms.testBit 1)
  | .space _, _ => (true, true)

/-- The entries of a frame as its tree sees them: the root table of a namespace is kept in the namespace, and only its
lower half leads to tables of the namespace. -/
def view (E : Nat → Nat → Nat) (place : Places) (t i : Nat) : Nat :=
  match place t with
  | some ⟨.space id, level, _⟩ => if level = 4 then (if i < 256 then σ.tops id i else 0) else E t i
  | _ => E t i

def next (E : Nat → Nat → Nat) (place : Places) (t i : Nat) : Option Nat :=
  if present (σ.view E place t i) then some (address (σ.view E place t i)) else none

end Setting

/-- The frames are placed as `place` says. -/
structure Chart (σ : Setting) (s : TableMem) (place : Places) : Prop where
  forest : TableForest 512 (σ.next s.entries place) place σ.link σ.height
  entries : ∀ {t o l n i}, place t = some ⟨o, l + 1, n⟩ → i < 512 → present (σ.view s.entries place t i) = true →
    Leads (σ.view s.entries place t i) (address (σ.view s.entries place t i)) (σ.rights o l).1 (σ.rights o l).2
  frames : ∀ {f p}, place f = some p → GoodFrame s f ∧ s.inUse f = true
  distinct : s.pool.Nodup
  pool : ∀ {f}, f ∈ s.pool → GoodFrame s f ∧ s.inUse f = false
  leafless : ∀ f id c, place f ≠ some ⟨.space id, 0, c⟩
  spaces : ∀ {o l c g}, σ.link o l c g → ∃ id, o = .space id

section View

variable {σ : Setting} {E : Nat → Nat → Nat} {place : Places} {t i : Nat}

variable {n : Nat} {p : TablePlace Owner}

theorem view_lower {o : Owner} {l : Nat} (placed : place t = some ⟨o, l, n⟩) (lower : l ≠ 4) :
    σ.view E place t i = E t i := by
  unfold Setting.view
  rw [placed]
  cases o with
  | range node => rfl
  | space id => exact if_neg lower

theorem view_root {id : Nat} (placed : place t = some ⟨.space id, 4, n⟩) (low : i < 256) :
    σ.view E place t i = σ.tops id i := by
  unfold Setting.view
  rw [placed]
  exact (if_pos rfl).trans (if_pos low)

theorem view_range {node l : Nat} (placed : place t = some ⟨.range node, l, n⟩) : σ.view E place t i = E t i := by
  unfold Setting.view
  rw [placed]

theorem view_congr {E' : Nat → Nat → Nat} (placed : place t = some p)
    (placed' : place' t = some p) (same : E' t i = E t i) : σ.view E' place' t i = σ.view E place t i := by
  unfold Setting.view
  rw [placed, placed']
  obtain ⟨o, l, n⟩ := p
  cases o with
  | range node => exact same
  | space id =>
    dsimp only
    split
    next => rfl
    next => exact same

theorem view_of_tops {σ' : Setting} (placed : place t = some p)
    (same : ∀ id, p.owner = .space id → σ'.tops id = σ.tops id) : σ'.view E place t i = σ.view E place t i := by
  unfold Setting.view
  rw [placed]
  obtain ⟨o, l, n⟩ := p
  cases o with
  | range node => rfl
  | space id =>
    dsimp only
    rw [same id rfl]

theorem next_eq_none_iff : σ.next E place t i = none ↔ present (σ.view E place t i) = false := by
  unfold Setting.next
  cases present (σ.view E place t i) <;> simp

theorem next_eq_some_iff : σ.next E place t i = some f ↔
    present (σ.view E place t i) = true ∧ address (σ.view E place t i) = f := by
  unfold Setting.next
  cases present (σ.view E place t i) <;> simp

end View

theorem Chart.not_link {node l c g : Nat} (chart : Chart σ s place) : ¬ σ.link (.range node) l c g := by
  intro isLink
  obtain ⟨id, eq⟩ := chart.spaces isLink
  cases eq

theorem Chart.range_child {node t l n i : Nat} (chart : Chart σ s place) (table : place t = some ⟨.range node, l + 1, n⟩)
    (lt : i < 512) (there : present (s.entries t i) = true) :
    place (address (s.entries t i)) = some ⟨.range node, l, 512 * n + i⟩ := by
  refine (chart.forest.down table lt (next_eq_some_iff.mpr ?_)).resolve_left chart.not_link
  rw [view_range table]
  exact ⟨there, rfl⟩

theorem Chart.fresh (chart : Chart σ s place) (offered : f ∈ s.pool) : place f = none := by
  cases placed : place f with
  | none => rfl
  | some p =>
    have used := (chart.frames placed).2
    rw [(chart.pool offered).2] at used
    cases used

/-! ## Steps -/

namespace TableMem

def freed (s : TableMem) (f : Nat) : TableMem :=
  { s with
    inUse := update s.inUse f false
    frees := update s.frees f (s.frees f + 1) }

theorem free_run (nonzero : f ≠ 0) : free f s = some ((), s.freed f) := by
  simp [free, freed, nonzero]

/-- A new frame is put behind an entry; it is cleared when it is going to be a table. -/
def grafted (s : TableMem) (l t i f : Nat) (rest : List Nat) (e : Nat) : TableMem :=
  ({ s with
      pool := rest
      inUse := update s.inUse f true
      entries := if l = 0 then s.entries else update s.entries f fun _ => 0 } : TableMem).put t i e

/-- The entry of a frame is cleared; a table is given back, and a page is not. -/
def pruned (s : TableMem) (l t i f : Nat) : TableMem :=
  if l = 0 then s.put t i 0 else (s.put t i 0).freed f

variable {s : TableMem} {l t i f e x : Nat} {rest : List Nat}

@[simp] theorem grafted_pool : (s.grafted l t i f rest e).pool = rest := rfl
@[simp] theorem grafted_inUse : (s.grafted l t i f rest e).inUse = update s.inUse f true := rfl
theorem grafted_other (old : x ≠ f) (ne : x ≠ t) : (s.grafted l t i f rest e).entries x = s.entries x := by
  unfold grafted
  rw [put_other ne]
  split
  next => rfl
  next => exact update_of_ne old _ _

theorem grafted_index {j : Nat} (old : t ≠ f) (ne : j ≠ i) :
    (s.grafted l t i f rest e).entries t j = s.entries t j := by
  unfold grafted
  rw [put_index ne]
  dsimp only
  split
  next => rfl
  next => rw [update_of_ne old]

theorem grafted_new (old : t ≠ f) (tall : 0 < l) (j : Nat) : (s.grafted l t i f rest e).entries f j = 0 := by
  unfold grafted
  rw [put_other old.symm]
  dsimp only
  rw [if_neg (by omega), update_self]

@[simp] theorem pruned_entries : (s.pruned l t i f).entries = (s.put t i 0).entries := by
  unfold pruned
  split <;> rfl

@[simp] theorem pruned_pool : (s.pruned l t i f).pool = s.pool := by
  unfold pruned
  split <;> rfl

@[simp] theorem pruned_hhdm : (s.pruned l t i f).hhdm = s.hhdm := by
  unfold pruned
  split <;> rfl

theorem pruned_inUse (ne : x ≠ f) : (s.pruned l t i f).inUse x = s.inUse x := by
  unfold pruned
  split
  next => rfl
  next => exact update_of_ne ne _ _

end TableMem

/-- What code may do: whose tree it works on, whether it adds or removes frames, and which pages it may clear. -/
structure Job where
  owner : Owner
  grows : Prop
  clears : Nat → Prop

/-- A step of such code, below the root tables. -/
inductive Touch (σ : Setting) (job : Job) : TableMem × Places → TableMem × Places → Prop
  | graft {s : TableMem} {place : Places} {t l n i f e : Nat} {rest : List Nat} (may : job.grows)
      (table : place t = some ⟨job.owner, l + 1, n⟩) (lower : l < 3) (lt : i < 512)
      (leafy : ∀ id, job.owner = .space id → 0 < l) (blank : present (s.entries t i) = false)
      (offer : s.pool = f :: rest) (leads : Leads e f (σ.rights job.owner l).1 (σ.rights job.owner l).2) :
      Touch σ job (s, place) (s.grafted l t i f rest e, update place f (some ⟨job.owner, l, 512 * n + i⟩))
  | prune {s : TableMem} {place : Places} {t l n i f : Nat} (shrinks : ¬ job.grows)
      (may : l = 0 → job.clears (512 * n + i)) (table : place t = some ⟨job.owner, l + 1, n⟩) (lower : l < 3) (lt : i < 512)
      (there : present (s.entries t i) = true) (leads : address (s.entries t i) = f)
      (child : place f = some ⟨job.owner, l, 512 * n + i⟩)
      (empty : 0 < l → ∀ j, j < 512 → present (s.entries f j) = false) :
      Touch σ job (s, place) (s.pruned l t i f, update place f none)

def Touches (σ : Setting) (job : Job) : TableMem × Places → TableMem × Places → Prop :=
  Relation.ReflTransGen (Touch σ job)

section Changes

variable {σ : Setting} {o : Owner} {s s' : TableMem} {place place' : Places} {t l n i f e : Nat} {rest : List Nat}
  {tops' : Nat → Nat → Nat} {link' : Owner → Nat → Nat → Nat → Prop}

/-- A write to one entry, as the trees see it. -/
structure Written (σ : Setting) (s : TableMem) (place : Places) (tops' : Nat → Nat → Nat) (s' : TableMem)
    (place' : Places) (t i e : Nat) : Prop where
  here : ({ σ with tops := tops' } : Setting).view s'.entries place' t i = e
  others : ∀ {x p}, place x = some p → place' x = some p → ∀ j, x ≠ t ∨ j ≠ i →
    ({ σ with tops := tops' } : Setting).view s'.entries place' x j = σ.view s.entries place x j

theorem Written.next_here (written : Written σ s place tops' s' place' t i e) :
    ({ σ with tops := tops', link := link' } : Setting).next s'.entries place' t i =
      if present e then some (address e) else none := by
  rw [← written.here]
  rfl

theorem Written.next_others (written : Written σ s place tops' s' place' t i e) {x j : Nat}
    (placed : place x = some p) (placed' : place' x = some p) (away : x ≠ t ∨ j ≠ i) :
    ({ σ with tops := tops', link := link' } : Setting).next s'.entries place' x j = σ.next s.entries place x j := by
  unfold Setting.next
  rw [← written.others placed placed' j away]
  rfl

theorem GoodFrame.of_hhdm (hhdm : s'.hhdm = s.hhdm) {x : Nat} (good : GoodFrame s x) : GoodFrame s' x :=
  ⟨good.aligned, by rw [hhdm]; exact good.direct, good.nonzero⟩

section

variable (chart : Chart σ s place) {place' : Places} {σ' : Setting}

include chart

theorem Chart.same_frames (pool : s'.pool = s.pool) (inUse : s'.inUse = s.inUse)
    (hhdm : s'.hhdm = s.hhdm) : (∀ {x p}, place x = some p → GoodFrame s' x ∧ s'.inUse x = true) ∧ s'.pool.Nodup ∧
      ∀ {x}, x ∈ s'.pool → GoodFrame s' x ∧ s'.inUse x = false := by
  rw [pool, inUse]
  exact ⟨fun placed => (chart.frames placed).imp_left (.of_hhdm hhdm), chart.distinct,
    fun member => (chart.pool member).imp_left (.of_hhdm hhdm)⟩

theorem Chart.taken_frames (offer : s.pool = f :: rest) (pool : s'.pool = rest)
    (inUse : s'.inUse = update s.inUse f true) (hhdm : s'.hhdm = s.hhdm) {q : TablePlace Owner} :
    (∀ {x p}, update place f (some q) x = some p → GoodFrame s' x ∧ s'.inUse x = true) ∧ s'.pool.Nodup ∧
      ∀ {x}, x ∈ s'.pool → GoodFrame s' x ∧ s'.inUse x = false := by
  have distinct := chart.distinct
  rw [offer, List.nodup_cons] at distinct
  rw [pool, inUse]
  refine ⟨?_, distinct.2, ?_⟩
  · intro x p placed
    by_cases same : x = f
    · subst same
      exact ⟨.of_hhdm hhdm (chart.pool (offer ▸ .head _)).1, by rw [update_self]⟩
    · rw [update_of_ne same] at placed ⊢
      exact (chart.frames placed).imp_left (.of_hhdm hhdm)
  · intro x later
    have ne : x ≠ f := by
      rintro rfl
      exact distinct.1 later
    rw [update_of_ne ne]
    exact (chart.pool (offer ▸ List.mem_cons_of_mem f later)).imp_left (.of_hhdm hhdm)

theorem Chart.entries_written (written : Written σ s place tops' s' place' t i e) {x l' n' j : Nat}
    {o' : Owner} (placed : place x = some ⟨o', l' + 1, n'⟩) (placed' : place' x = some ⟨o', l' + 1, n'⟩) (ltJ : j < 512)
    (isPresent : present (({ σ with tops := tops' } : Setting).view s'.entries place' x j) = true)
    (here : x = t → present e = true → Leads e (address e) (σ.rights o' l').1 (σ.rights o' l').2) :
    Leads (({ σ with tops := tops' } : Setting).view s'.entries place' x j)
      (address (({ σ with tops := tops' } : Setting).view s'.entries place' x j)) (σ.rights o' l').1
      (σ.rights o' l').2 := by
  by_cases atWrite : x = t ∧ j = i
  · obtain ⟨rfl, rfl⟩ := atWrite
    rw [written.here] at isPresent ⊢
    exact here rfl isPresent
  · rw [written.others placed placed' j (by tauto)] at isPresent ⊢
    exact chart.entries placed ltJ isPresent

theorem Chart.graft_written (table : place t = some ⟨o, l + 1, n⟩) (lt : i < 512)
    (leafy : ∀ id, o = .space id → 0 < l) (blank : present (σ.view s.entries place t i) = false)
    (offer : s.pool = f :: rest) (leads : Leads e f (σ.rights o l).1 (σ.rights o l).2) (pool : s'.pool = rest)
    (inUse : s'.inUse = update s.inUse f true) (hhdm : s'.hhdm = s.hhdm)
    (written : Written σ s place tops' s' (update place f (some ⟨o, l, 512 * n + i⟩)) t i e)
    (cleared : 0 < l → ∀ j, ({ σ with tops := tops' } : Setting).view s'.entries
      (update place f (some ⟨o, l, 512 * n + i⟩)) f j = 0) :
    Chart { σ with tops := tops' } s' (update place f (some ⟨o, l, 512 * n + i⟩)) := by
  have offered : f ∈ s.pool := offer ▸ .head _
  have new := chart.fresh offered
  obtain ⟨frames, distinct, unused⟩ := chart.taken_frames offer pool inUse hhdm
  refine ⟨?_, ?_, frames, distinct, unused, ?_, chart.spaces⟩
  · refine chart.forest.graft table lt (next_eq_none_iff.mpr blank) new ?_
      (fun x p placed _ j _ => written.next_others placed (update_of_placed placed new).2) ?_
    · rw [written.next_here, leads.present, leads.address, if_pos rfl]
    · intro tall j _
      rw [next_eq_none_iff, cleared tall j]
      rfl
  · intro x o' l' n' j placed ltJ isPresent
    rcases update_eq_some.mp placed with ⟨rfl, isNew⟩ | ⟨-, before⟩
    · cases isNew
      rw [cleared (Nat.succ_pos _) j] at isPresent
      cases isPresent
    refine chart.entries_written written before placed ltJ isPresent fun isTable _ => ?_
    subst isTable
    cases table.symm.trans before
    rwa [leads.address]
  · intro x id c placed
    rcases update_eq_some.mp placed with ⟨-, isNew⟩ | ⟨-, before⟩
    · cases isNew
      exact absurd (leafy id rfl) (lt_irrefl 0)
    · exact chart.leafless x id c before

theorem Chart.attach_written {id node g : Nat} (table : place t = some ⟨.space id, l + 1, n⟩)
    (lt : i < 512) (blank : present (σ.view s.entries place t i) = false) (tall : σ.height (.range node) = l)
    (isRoot : place g = some ⟨.range node, l, 0⟩) (leads : Leads e g true true)
    (written : Written σ s place tops' s' place t i e) (pool : s'.pool = s.pool) (inUse : s'.inUse = s.inUse)
    (hhdm : s'.hhdm = s.hhdm)
    (links : ∀ p k c x, link' p k c x ↔ σ.link p k c x ∨ (p = .space id ∧ k = l ∧ c = 512 * n + i ∧ x = g)) :
    Chart { σ with tops := tops', link := link' } s' place := by
  obtain ⟨frames, distinct, unused⟩ := chart.same_frames pool inUse hhdm
  refine ⟨?_, ?_, frames, distinct, unused, chart.leafless, ?_⟩
  · refine chart.forest.attach table lt (next_eq_none_iff.mpr blank)
      (show (.range node : Owner) ≠ .space id by simp) tall isRoot ?_
      (fun x p placed _ j _ => written.next_others placed placed) links
    rw [written.next_here, leads.present, leads.address, if_pos rfl]
  · intro x o' l' n' j placed ltJ isPresent
    refine chart.entries_written written placed placed ltJ isPresent fun isTable _ => ?_
    subst isTable
    cases table.symm.trans placed
    rwa [leads.address]
  · intro p k c x isLink
    rcases (links p k c x).mp isLink with old | ⟨rfl, -⟩
    · exact chart.spaces old
    · exact ⟨id, rfl⟩

theorem Chart.detach_written {id g : Nat} (table : place t = some ⟨.space id, l + 1, n⟩)
    (lt : i < 512) (isLink : σ.link (.space id) l (512 * n + i) g) (written : Written σ s place tops' s' place t i 0)
    (pool : s'.pool = s.pool) (inUse : s'.inUse = s.inUse) (hhdm : s'.hhdm = s.hhdm)
    (links : ∀ p k c x, link' p k c x ↔ σ.link p k c x ∧ ¬ (p = .space id ∧ k = l ∧ c = 512 * n + i)) :
    Chart { σ with tops := tops', link := link' } s' place := by
  obtain ⟨frames, distinct, unused⟩ := chart.same_frames pool inUse hhdm
  have there : σ.next s.entries place t i = some g := by
    obtain ⟨t', table', step⟩ := chart.forest.linked isLink
    rw [TableForest.div_number lt] at table'
    rwa [TableForest.mod_number lt, chart.forest.single table' table] at step
  refine ⟨?_, ?_, frames, distinct, unused, chart.leafless, fun old => chart.spaces ((links _ _ _ _).mp old).1⟩
  · exact chart.forest.detach table lt there isLink written.next_here
      (fun x p placed _ j _ => written.next_others placed placed) links
  · exact fun placed ltJ isPresent => chart.entries_written written placed placed ltJ isPresent nofun

theorem Chart.plant {h : Nat} (offer : s.pool = f :: rest)
    (fresh : ∀ x p, place x = some p → p.owner ≠ o) (tall : σ'.height o = h)
    (heights : ∀ o', o' ≠ o → σ'.height o' = σ.height o')
    (rights : ∀ o', o' ≠ o → σ'.rights o' = σ.rights o') (links : σ'.link = σ.link)
    (leafy : ∀ id, o = .space id → 0 < h) (pool : s'.pool = rest) (inUse : s'.inUse = update s.inUse f true)
    (hhdm : s'.hhdm = s.hhdm) (views : ∀ {x p}, place x = some p → ∀ j,
      σ'.view s'.entries (update place f (some ⟨o, h, 0⟩)) x j = σ.view s.entries place x j)
    (cleared : 0 < h → ∀ j < 512, present (σ'.view s'.entries (update place f (some ⟨o, h, 0⟩)) f j) = false) :
    Chart σ' s' (update place f (some ⟨o, h, 0⟩)) := by
  have offered : f ∈ s.pool := offer ▸ .head _
  have new := chart.fresh offered
  obtain ⟨frames, distinct, unused⟩ := chart.taken_frames offer pool inUse hhdm
  refine ⟨?_, ?_, frames, distinct, unused, ?_, fun isLink => chart.spaces (links ▸ isLink)⟩
  · have sameNext : TableForest 512 (σ'.next s'.entries (update place f (some ⟨o, h, 0⟩))) place σ.link σ.height :=
      chart.forest.congr (fun x p placed _ j _ => by
        unfold Setting.next
        rw [views placed]) (by omega)
    rw [links]
    refine (sameNext.plant new fresh fun pos j lt => next_eq_none_iff.mpr (cleared pos j lt)).reheight ?_
    intro x p _
    by_cases own : p.owner = o
    · rw [own, tall, update_self]
    · rw [update_of_ne own, heights _ own]
  · intro x o' l' n' j placed ltJ isPresent
    rcases update_eq_some.mp placed with ⟨rfl, isNew⟩ | ⟨-, before⟩
    · cases isNew
      rw [cleared (Nat.succ_pos _) j ltJ] at isPresent
      cases isPresent
    · rw [views before] at isPresent ⊢
      rw [rights o' (fresh _ _ before)]
      exact chart.entries before ltJ isPresent
  · intro x id c placed
    rcases update_eq_some.mp placed with ⟨-, isNew⟩ | ⟨-, before⟩
    · cases isNew
      exact absurd (leafy id rfl) (lt_irrefl 0)
    · exact chart.leafless x id c before

theorem Chart.fell (rest : ∀ x p, place' x = some p ↔ place x = some p ∧ p.owner ≠ o)
    (outward : ∀ k c x, ¬ σ.link o k c x) (inward : ∀ p k c x, σ.link p k c x → ∀ q, place x = some q → q.owner ≠ o)
    (heights : ∀ o', o' ≠ o → σ'.height o' = σ.height o') (rights : ∀ o', o' ≠ o → σ'.rights o' = σ.rights o')
    (links : ∀ p k c x, σ'.link p k c x ↔ σ.link p k c x)
    (views : ∀ {x p}, place' x = some p → ∀ j, σ'.view s'.entries place' x j = σ.view s.entries place x j)
    (pool : s'.pool = s.pool) (hhdm : s'.hhdm = s.hhdm)
    (inUse : ∀ x, s'.inUse x = s.inUse x ∨ (s'.inUse x = false ∧ ∃ p, place x = some p ∧ p.owner = o)) :
    Chart σ' s' place' := by
  have sameLink : σ'.link = σ.link := by
    funext p k c x
    exact propext (links p k c x)
  refine ⟨?_, ?_, ?_, pool ▸ chart.distinct, ?_, fun x id c placed => chart.leafless x id c ((rest _ _).mp placed).1,
    fun isLink => chart.spaces ((links _ _ _ _).mp isLink)⟩
  · rw [sameLink]
    have felled : TableForest 512 (σ.next s.entries place) place' σ.link σ'.height :=
      (chart.forest.fell rest outward inward).reheight fun x p placed => heights _ ((rest _ _).mp placed).2
    refine felled.congr (fun x p placed _ j _ => ?_) (by omega)
    unfold Setting.next
    rw [views placed]
  · intro x o' l' n' j placed ltJ isPresent
    obtain ⟨placedOld, other⟩ := (rest _ _).mp placed
    rw [views placed] at isPresent ⊢
    rw [rights o' other]
    exact chart.entries placedOld ltJ isPresent
  · intro x p placed
    obtain ⟨placedOld, other⟩ := (rest _ _).mp placed
    obtain ⟨goodFrame, used⟩ := chart.frames placedOld
    refine ⟨.of_hhdm hhdm goodFrame, ?_⟩
    rcases inUse x with same | ⟨-, q, own, isOwn⟩
    · rw [same, used]
    · cases placedOld.symm.trans own
      exact absurd isOwn other
  · intro x member
    rw [pool] at member
    obtain ⟨goodFrame, unused⟩ := chart.pool member
    refine ⟨.of_hhdm hhdm goodFrame, ?_⟩
    rcases inUse x with same | ⟨free, -⟩
    · rw [same, unused]
    · exact free

theorem Chart.graft (table : place t = some ⟨o, l + 1, n⟩) (lower : l < 3) (lt : i < 512)
    (leafy : ∀ id, o = .space id → 0 < l) (blank : present (s.entries t i) = false) (offer : s.pool = f :: rest)
    (leads : Leads e f (σ.rights o l).1 (σ.rights o l).2) :
    Chart σ (s.grafted l t i f rest e) (update place f (some ⟨o, l, 512 * n + i⟩)) := by
  have new := chart.fresh (offer ▸ List.mem_cons_self)
  have apart : ∀ {x p}, place x = some p → x ≠ f := fun placed => (update_of_placed (v := none) placed new).1
  suffices changed : Chart { σ with tops := σ.tops } (s.grafted l t i f rest e)
    (update place f (some ⟨o, l, 512 * n + i⟩)) from changed
  refine chart.graft_written table lt leafy ?_ offer leads rfl rfl rfl ⟨?_, ?_⟩ ?_
  · rwa [view_lower table (by omega)]
  · have kept := (update_of_ne (apart table) (some ⟨o, l, 512 * n + i⟩) place).trans table
    exact (view_lower kept (by omega)).trans put_self
  · intro x p placed kept j away
    refine view_congr placed kept ?_
    by_cases same : x = t
    · subst same
      exact grafted_index (apart placed) (away.resolve_left fun ne => ne rfl)
    · rw [grafted_other (apart placed) same]
  · exact fun tall j => (view_lower (update_self f _ place) (by omega)).trans (grafted_new (apart table) tall j)

theorem Chart.prune (table : place t = some ⟨o, l + 1, n⟩) (lower : l < 3) (lt : i < 512)
    (there : present (s.entries t i) = true) (leads : address (s.entries t i) = f)
    (child : place f = some ⟨o, l, 512 * n + i⟩) (empty : 0 < l → ∀ j < 512, present (s.entries f j) = false) :
    Chart σ (s.pruned l t i f) (update place f none) := by
  have tf : t ≠ f := by
    rintro rfl
    rw [table, Option.some.injEq, TablePlace.mk.injEq] at child
    omega
  have written : Written σ s place σ.tops (s.pruned l t i f) (update place f none) t i 0 := by
    refine ⟨?_, fun {x p} placed placed' j away => view_congr placed placed' ?_⟩
    · exact (view_lower ((update_of_ne tf _ _).trans table) (by omega)).trans (by rw [pruned_entries, put_self])
    rw [pruned_entries]
    by_cases same : x = t
    · subst same
      exact put_index (away.resolve_left fun ne => ne rfl)
    · rw [put_other same]
  -- the view of the frame itself does not count any more, but the forest's law speaks of it
  have outside : ∀ x p, place x = some p → 0 < p.level → ∀ j < 512, x ≠ t ∨ j ≠ i →
      σ.next (s.pruned l t i f).entries (update place f none) x j = σ.next s.entries place x j := by
    intro x p placed tall j ltJ away
    by_cases same : x = f
    · subst same
      cases child.symm.trans placed
      have blank : present (s.entries x j) = false := empty tall j ltJ
      rw [next_eq_none_iff.mpr (by rwa [view_lower child (by omega)] : present (σ.view s.entries place x j) = false),
        next_eq_none_iff]
      unfold Setting.view
      rw [update_self, pruned_entries, put_other tf.symm]
      exact blank
    · exact written.next_others placed (update_none_eq_some.mpr ⟨same, placed⟩) away
  refine ⟨?_, ?_, ?_, ?_, ?_, ?_, chart.spaces⟩
  · refine chart.forest.prune table lt (next_eq_some_iff.mpr ?_) child ?_ written.next_here outside
    · rw [view_lower table (by omega)]
      exact ⟨there, leads⟩
    · intro tall j ltJ
      rw [next_eq_none_iff, view_lower child (by omega)]
      exact empty tall j ltJ
  · exact fun placed ltJ isPresent => chart.entries_written written (update_none_eq_some.mp placed).2 placed ltJ isPresent
      nofun
  · intro x p placed
    obtain ⟨ne, placedOld⟩ := update_none_eq_some.mp placed
    obtain ⟨good, used⟩ := chart.frames placedOld
    exact ⟨good.of_hhdm pruned_hhdm, (pruned_inUse ne).trans used⟩
  · rw [pruned_pool]
    exact chart.distinct
  · intro x member
    rw [pruned_pool] at member
    obtain ⟨good, unused⟩ := chart.pool member
    have ne : x ≠ f := by
      rintro rfl
      rw [(chart.frames child).2] at unused
      cases unused
    exact ⟨good.of_hhdm pruned_hhdm, (pruned_inUse ne).trans unused⟩
  · exact fun x id c placed => chart.leafless x id c (update_none_eq_some.mp placed).2

end

end Changes

theorem Touch.chart {s' : TableMem}
    (touch : Touch σ job (s, place) (s', place')) (chart : Chart σ s place) : Chart σ s' place' := by
  cases touch with
  | graft _ table lower lt leafy blank offer leads => exact chart.graft table lower lt leafy blank offer leads
  | prune _ _ table lower lt there leads child empty => exact chart.prune table lower lt there leads child empty

theorem Touches.chart {x y : TableMem × Places} (touches : Touches σ job x y)
    (chart : Chart σ x.1 x.2) : Chart σ y.1 y.2 := by
  induction touches with
  | refl => exact chart
  | tail _ touch ih => exact touch.chart ih

/-! ## Two memories -/

/-- Two memories that agree on the tables below the roots, which the namespaces hold themselves, and on what the allocator
knows. -/
structure Twin (place : Places) (s u : TableMem) : Prop where
  pool : u.pool = s.pool
  inUse : u.inUse = s.inUse
  frees : u.frees = s.frees
  hhdm : u.hhdm = s.hhdm
  tables : ∀ {t p}, place t = some p → 0 < p.level ∧ p.level < 4 → u.entries t = s.entries t

theorem Twin.refl (place : Places) (s : TableMem) : Twin place s s := ⟨rfl, rfl, rfl, rfl, fun _ _ => rfl⟩

section Twin

variable {o : Owner} {s u : TableMem} {place : Places} {t l n i f e : Nat} {rest : List Nat}

theorem Twin.put {value : Nat} (twin : Twin place s u) : Twin place (s.put t i value) (u.put t i value) := by
  refine ⟨twin.pool, twin.inUse, twin.frees, twin.hhdm, fun {x p} placed tall => ?_⟩
  have entries := twin.tables placed tall
  simp only [TableMem.put]
  by_cases same : x = t
  · subst same
    rw [update_self, update_self, entries]
  · rw [update_of_ne same, update_of_ne same, entries]

theorem Twin.take {c : Prop} [Decidable c] (twin : Twin place s u)
    (kept : c → ¬ (0 < p.level ∧ p.level < 4)) : Twin (update place f (some p))
      { s with
        pool := rest
        inUse := update s.inUse f true
        entries := if c then s.entries else update s.entries f fun _ => 0 }
      { u with
        pool := rest
        inUse := update u.inUse f true
        entries := if c then u.entries else update u.entries f fun _ => 0 } := by
  refine ⟨rfl, by dsimp only; rw [twin.inUse], twin.frees, twin.hhdm, fun {x q} placed tall => ?_⟩
  dsimp only
  by_cases same : x = f
  · subst same
    cases (update_self ..).symm.trans placed
    have clear : ¬ c := fun keep => kept keep tall
    rw [if_neg clear, if_neg clear, update_self, update_self]
  · rw [update_of_ne same] at placed
    have entries := twin.tables placed tall
    split
    · exact entries
    · rw [update_of_ne same, update_of_ne same, entries]

theorem Twin.graft (twin : Twin place s u) :
    Twin (update place f (some ⟨o, l, 512 * n + i⟩)) (s.grafted l t i f rest e) (u.grafted l t i f rest e) :=
  (twin.take fun page tall => by dsimp only at tall; omega).put

theorem Twin.prune (twin : Twin place s u) : Twin (update place f none) (s.pruned l t i f) (u.pruned l t i f) := by
  have written : Twin (update place f none) (s.put t i 0) (u.put t i 0) :=
    ⟨twin.pool, twin.inUse, twin.frees, twin.hhdm, fun placed => twin.put.tables (update_none_eq_some.mp placed).2⟩
  unfold pruned
  split
  · exact written
  · exact ⟨written.pool, by simp only [freed, written.inUse], by simp only [freed, written.frees], written.hhdm,
      written.tables⟩

end Twin

/-! ## Specs of programs -/

/-- The program takes the steps of a job, and takes the same ones in a twin memory. -/
structure Outcome (σ : Setting) (job : Job) {α : Type} (p : Prog TableMem α) (s : TableMem) (place : Places) (a : α)
    (s' : TableMem) (place' : Places) : Prop where
  touches : Touches σ job (s, place) (s', place')
  twin : ∀ u, Twin place s u → ∃ u', p u = some (a, u') ∧ Twin place' s' u'

namespace Outcome

variable {σ : Setting} {job : Job} {α β : Type} {s s1 s' : TableMem} {place place1 place' : Places}

variable {p : Prog TableMem α} {a : α}

theorem same (runs : ∀ u, Twin place s u → p u = some (a, u)) : Outcome σ job p s place a s place :=
  ⟨.refl, fun u twin => ⟨u, runs u twin, twin⟩⟩

theorem head {q : Prog TableMem α} (runs : ∀ u, Twin place s u → p u = q u)
    (outcome : Outcome σ job q s place a s' place') : Outcome σ job p s place a s' place' :=
  ⟨outcome.touches, fun u twin => by rw [runs u twin]; exact outcome.twin u twin⟩

theorem bind {q : α → Prog TableMem β} {b : β}
    (first : Outcome σ job p s place a s1 place1) (second : Outcome σ job (q a) s1 place1 b s' place') :
    Outcome σ job (p >>= q) s place b s' place' := by
  refine ⟨first.touches.trans second.touches, fun u twin => ?_⟩
  obtain ⟨v, run, middle⟩ := first.twin u twin
  obtain ⟨w, run', last⟩ := second.twin v middle
  exact ⟨w, Prog.bind_eq_some.mpr ⟨a, v, run, run'⟩, last⟩

theorem chart (outcome : Outcome σ job p s place a s' place') (chart : Chart σ s place) :
    Chart σ s' place' := outcome.touches.chart chart

/-- The rule of a counting loop: every round keeps `I`. -/
theorem forUp {body : Nat → Prog TableMem Unit} (I : Places → Prop) {lo n : Nat}
    (each : ∀ i, lo ≤ i → i < lo + n → ∀ s place s', Chart σ s place → I place → body i s = some ((), s') →
      ∃ place', Outcome σ job (body i) s place () s' place' ∧ I place')
    (isChart : Chart σ s place) (start : I place) (run : Prog.forUp body lo n s = some ((), s')) :
    ∃ place', Outcome σ job (Prog.forUp body lo n) s place () s' place' ∧ I place' := by
  induction n generalizing lo s place with
  | zero =>
    cases run
    exact ⟨place, .same fun _ _ => rfl, start⟩
  | succ n ih =>
    obtain ⟨_, mid, first, rest⟩ := Prog.bind_eq_some.mp run
    obtain ⟨place1, outcome, next⟩ := each lo (le_refl _) (by omega) s place mid isChart start first
    obtain ⟨place', others, done⟩ := ih (fun i le lt => each i (by omega) (by omega)) (outcome.chart isChart) next rest
    exact ⟨place', outcome.bind others, done⟩

end Outcome

end MeowOs.Memory
