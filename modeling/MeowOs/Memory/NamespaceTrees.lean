import MeowOs.Memory.RangeTrees
import MeowOs.Memory.NamespaceIsolation

/-! # The tree of a namespace

The tables of a namespace lead to the nodes of its regions.  A walk to the entry
of a region creates the tables that are missing (`getPageTableEntry_outcome`,
`entryAtLevel_located`), and then the entry is written or cleared.  All of this
is about addresses of the lower half.
-/

namespace MeowOs.Memory

open MeowOs.Machine PageTableEntry TableMem Prog MemoryNamespace
open PageTable (delete getPageTableEntry missingEntry)
open Function (update update_eq_self update_idem update_of_ne update_self)

/-! ## Numbers of blocks -/

/-- The block of level `l` that an address is in, where a block of level 0 is a page. -/
def blockAt (l addr : Nat) : Nat := addr / 4096 / 512 ^ l

theorem blockAt_eq (l addr : Nat) : blockAt l addr = addr / 2 ^ (12 + 9 * l) := by
  unfold blockAt
  rw [two_pow_level, Nat.div_div_eq_div_mul]

theorem blockAt_succ (l addr : Nat) : blockAt (l + 1) addr = blockAt l addr / 512 := by
  unfold blockAt
  rw [pow_succ, ← Nat.div_div_eq_div_mul]

theorem slotAt_eq_blockAt (l addr : Nat) : slotAt l addr = blockAt l addr % 512 := slotAt_eq l addr

theorem blockAt_split (l addr : Nat) : 512 * blockAt (l + 1) addr + slotAt l addr = blockAt l addr := by
  rw [blockAt_succ, slotAt_eq_blockAt, Nat.div_add_mod]

def blockStart (l addr : Nat) : Nat := blockAt l addr * 2 ^ (12 + 9 * l)

theorem index_eq_slotAt (l addr : Nat) : (addr - blockStart (l + 1) addr) / 2 ^ (12 + 9 * l) % 512 = slotAt l addr := by
  rw [blockStart, blockAt_eq, Nat.mul_comm, ← Nat.mod_eq_sub_mul_div, show 12 + 9 * (l + 1) = 12 + 9 * l + 9 by omega,
    Nat.pow_add, Nat.mod_mul_right_div_self, Nat.mod_mod]
  rfl

theorem blockStart_next (l addr : Nat) :
    blockStart (l + 1) addr + slotAt l addr * 2 ^ (12 + 9 * l) = blockStart l addr := by
  unfold blockStart
  rw [← blockAt_split l addr, show 12 + 9 * (l + 1) = 12 + 9 * l + 9 by omega, Nat.pow_add]
  ring

theorem blockStart_le (l addr : Nat) : blockStart l addr ≤ addr := by
  rw [blockStart, blockAt_eq]
  exact Nat.div_mul_le_self _ _

/-! ## The walk below the root -/

section Walk

variable {σ : Setting} {id virt desired : Nat}

/-- Where the walk of `get_page_table_entry` ends, and what it has added. -/
structure Reaches (σ : Setting) (id virt desired level : Nat) (s : TableMem) (place : Places) (t' : Nat) (s' : TableMem)
    (place' : Places) : Prop where
  table : place' t' = some ⟨.space id, desired, blockAt desired virt⟩
  kept : ∀ {x p}, place x = some p → place' x = some p
  new : ∀ {x p}, place' x = some p →
    place x = some p ∨ ∃ l, desired ≤ l ∧ l < level ∧ p = ⟨.space id, l, blockAt l virt⟩
  settled : (s' = s ∧ place' = place) ∨ ∀ j, j < 512 → present (s'.entries t' j) = false

variable {flag : Bool} {level t : Nat} {s : TableMem} {place : Places}

theorem Chart.ancestor {l k : Nat} (isChart : Chart σ s place)
    (placed : place t = some ⟨.space id, l, blockAt l virt⟩) (le : l ≤ k) (top : k ≤ 4) :
    ∃ f, place f = some ⟨.space id, k, blockAt k virt⟩ := by
  have above := isChart.forest.ancestor placed le top
  rw [blockAt, Nat.div_div_eq_div_mul, ← pow_add, Nat.add_sub_cancel' le] at above
  exact above

theorem missingEntry_eq (low : virt < 2 ^ 48) (f : Nat) : missingEntry virt f = userEntry f true true := by
  unfold missingEntry
  rw [decide_eq_true low]
  rfl

theorem getPageTableEntry_found (here : level + 1 = desired) :
    getPageTableEntry virt desired flag (level + 1) t (blockStart (level + 1) virt) s =
      some (some (t, slotAt level virt), s) := by
  unfold getPageTableEntry
  rw [assert_bind_run (decide_eq_true (blockStart_le _ _)), if_pos here, index_eq_slotAt]
  rfl

section

variable (above : level + 1 ≠ desired) {f : Nat}

include above

theorem getPageTableEntry_below (leads : Leads (s.entries t (slotAt level virt)) f true true)
    (direct : f < s.hhdm.len) : getPageTableEntry virt desired flag (level + 1) t (blockStart (level + 1) virt) s =
      getPageTableEntry virt desired flag level f (blockStart level virt) s := by
  rw [getPageTableEntry, assert_bind_run (decide_eq_true (blockStart_le _ _)), if_neg above, index_eq_slotAt,
    entry_bind, leads.present]
  dsimp only
  rw [Bool.not_true, Bool.false_and, if_neg (by decide), if_neg (by decide), entry_bind, leads.small,
    if_neg (by decide), leads.address, direct_bind_run _ direct, blockStart_next]

theorem getPageTableEntry_missing {rest : List Nat} (low : virt < 2 ^ 48)
    (blank : present (s.entries t (slotAt level virt)) = false) (offer : s.pool = f :: rest) (good : GoodFrame s f)
    (tall : 0 < level) : getPageTableEntry virt desired true (level + 1) t (blockStart (level + 1) virt) s =
      getPageTableEntry virt desired true level f (blockStart level virt)
        (s.grafted level t (slotAt level virt) f rest (userEntry f true true)) := by
  have leads : Leads (userEntry f true true) f true true := good.leads _ _
  rw [getPageTableEntry, assert_bind_run (decide_eq_true (blockStart_le _ _)), if_neg above, index_eq_slotAt,
    entry_bind, blank]
  dsimp only
  rw [Bool.not_false, Bool.not_true, Bool.and_false, if_neg (by decide), if_pos rfl, allocate_bind offer,
    zeroFrame_bind (by exact good.direct), bind_of_eq_some (setEntry_run _ _ _ _), entry_bind, put_self,
    missingEntry_eq low, leads.small, if_neg (by decide), leads.address, direct_bind_run _ (by exact good.direct),
    blockStart_next, grafted, if_neg (by omega)]

end

/-- The walk ends at the table of the wanted level, and on the way creates the tables that are missing; it fails only
if there is not a frame for every level. -/
theorem getPageTableEntry_outcome (low : virt < 2 ^ 48) (lowest : 0 < desired) :
    ∀ {level t : Nat} {s : TableMem} {place : Places}, level ≤ 3 → desired ≤ level →
      Chart σ s place → place t = some ⟨.space id, level, blockAt level virt⟩ →
      (∀ l g, desired ≤ l → ¬ σ.link (.space id) l (blockAt l virt) g) →
      (getPageTableEntry virt desired true level t (blockStart level virt) s = none ∧ desired + s.pool.length < level) ∨
      ∃ t' s' place', getPageTableEntry virt desired true level t (blockStart level virt) s =
          some (some (t', slotAt (desired - 1) virt), s') ∧ Reaches σ id virt desired level s place t' s' place' ∧
        ((∀ j < 512, present (s.entries t j) = false) → ∀ j < 512, present (s'.entries t' j) = false) ∧
        Outcome σ ⟨.space id, True, fun _ => False⟩
          (getPageTableEntry virt desired true level t (blockStart level virt))
          s place (some (t', slotAt (desired - 1) virt)) s' place' := by
  intro level
  induction level with
  | zero => exact fun _ le => by omega
  | succ level ih =>
    intro t s place small le isChart table unlinked
    have lt := slotAt_lt level virt
    by_cases found : level + 1 = desired
    · have runs : ∀ u, getPageTableEntry virt desired true (level + 1) t (blockStart (level + 1) virt) u =
          some (some (t, slotAt (desired - 1) virt), u) := by
        intro u
        rw [getPageTableEntry_found found, ← found]
        rfl
      exact .inr ⟨t, s, place, runs s, ⟨found ▸ table, fun placed => placed, .inl, .inl ⟨rfl, rfl⟩⟩,
        fun blank => blank, .same fun u _ => runs u⟩
    · have here : ∀ u, Twin place s u → u.entries t = s.entries t := fun u twin =>
        twin.tables table ⟨Nat.succ_pos level, show level + 1 < 4 by omega⟩
      have view : σ.view s.entries place t (slotAt level virt) = s.entries t (slotAt level virt) :=
        view_lower table (by omega)
      have number := blockAt_split level virt
      cases there : present (s.entries t (slotAt level virt)) with
      | true =>
        have leads := isChart.entries table lt (by rw [view]; exact there)
        rw [view] at leads
        have child : place (address (s.entries t (slotAt level virt))) = some ⟨.space id, level, blockAt level virt⟩ := by
          have down := isChart.forest.down table lt (next_eq_some_iff.mpr ⟨by rw [view]; exact there, rfl⟩)
          rw [view, number] at down
          exact down.resolve_left (unlinked level _ (by omega))
        have direct := (isChart.frames child).1.direct
        rw [getPageTableEntry_below found leads direct]
        obtain ⟨fails, few⟩ | ⟨t', s', place', run, reaches, -, outcome⟩ :=
          ih (by omega) (by omega) isChart child unlinked
        · exact .inl ⟨fails, by omega⟩
        refine .inr ⟨t', s', place', run, ⟨reaches.table, reaches.kept, fun placed => ?_, reaches.settled⟩,
          fun blank => ?_, .head (fun u twin => ?_) outcome⟩
        · exact (reaches.new placed).imp_right fun ⟨l, lo, hi, eq⟩ => ⟨l, lo, by omega, eq⟩
        · rw [blank _ lt] at there
          cases there
        · exact getPageTableEntry_below found (by rwa [here u twin]) (by rwa [twin.hhdm])
      | false =>
        cases offer : s.pool with
        | nil =>
          refine .inl ⟨?_, by rw [List.length_nil]; omega⟩
          rw [getPageTableEntry, assert_bind_run (decide_eq_true (blockStart_le _ _)), if_neg found,
            index_eq_slotAt, entry_bind, there, Bool.not_false, Bool.not_true, Bool.and_false, if_neg (by decide),
            if_pos rfl, bind_run, allocate, offer]
          rfl
        | cons f rest =>
          have member : f ∈ s.pool := offer ▸ .head _
          have good := (isChart.pool member).1
          have new := isChart.fresh member
          have tf : t ≠ f := (update_of_placed (v := none) table new).1
          rw [getPageTableEntry_missing found low there offer good (by omega)]
          have touch : Touch σ ⟨.space id, True, fun _ => False⟩ (s, place)
              (s.grafted level t (slotAt level virt) f rest (userEntry f true true),
                update place f (some ⟨.space id, level, 512 * blockAt (level + 1) virt + slotAt level virt⟩)) :=
            .graft trivial table (by omega) lt (fun _ _ => by omega) there offer (good.leads _ _)
          have child : update place f
              (some ⟨.space id, level, 512 * blockAt (level + 1) virt + slotAt level virt⟩) f =
                some ⟨.space id, level, blockAt level virt⟩ := by
            rw [update_self, number]
          obtain ⟨fails, few⟩ | ⟨t', s', place', run, reaches, fresh, outcome⟩ :=
            ih (by omega) (by omega) (touch.chart isChart) child unlinked
          · rw [grafted_pool] at few
            exact .inl ⟨fails, by rw [List.length_cons]; omega⟩
          -- the new table is blank, and so is every table created below it
          have blank : ∀ j < 512, present (s'.entries t' j) = false := fresh fun j _ => by
            rw [grafted_new tf (by omega)]
            rfl
          refine .inr ⟨t', s', place', run, ⟨reaches.table, fun placed => ?_, fun placed => ?_, .inr blank⟩,
            fun _ => blank, ⟨.head touch outcome.touches, fun u twin => ?_⟩⟩
          · exact reaches.kept (update_of_placed placed new).2
          · rcases reaches.new placed with old | ⟨l, lo, hi, eq⟩
            · rcases update_eq_some.mp old with ⟨-, rfl⟩ | ⟨-, before⟩
              · exact .inr ⟨level, by omega, by omega, by rw [number]⟩
              · exact .inl before
            · exact .inr ⟨l, lo, by omega, eq⟩
          · obtain ⟨u', run', last⟩ := outcome.twin _ (twin.graft)
            refine ⟨u', ?_, last⟩
            rw [getPageTableEntry_missing found low (by rwa [here u twin]) (by rwa [twin.pool])
              (good.of_hhdm twin.hhdm) (by omega), run']

theorem getPageTableEntry_placed (lowest : 0 < desired) :
    ∀ {level t t' : Nat} {s : TableMem} {place : Places}, level ≤ 3 → desired ≤ level → Chart σ s place →
      place t = some ⟨.space id, level, blockAt level virt⟩ →
      place t' = some ⟨.space id, desired, blockAt desired virt⟩ →
      getPageTableEntry virt desired flag level t (blockStart level virt) s =
        some (some (t', slotAt (desired - 1) virt), s) := by
  intro level
  induction level with
  | zero => exact fun _ le => by omega
  | succ level ih =>
    intro t t' s place small le isChart table target
    by_cases found : level + 1 = desired
    · rw [getPageTableEntry_found found]
      subst found
      rw [isChart.forest.single table target]
      rfl
    · have lt := slotAt_lt level virt
      have view : σ.view s.entries place t (slotAt level virt) = s.entries t (slotAt level virt) :=
        view_lower table (by omega)
      -- the table above the wanted one on the next level
      obtain ⟨f, child⟩ := isChart.ancestor target (show desired ≤ level by omega) (by omega)
      have step := isChart.forest.step table lt (by rw [blockAt_split]; exact child)
      rw [next_eq_some_iff, view] at step
      have leads := isChart.entries table lt (by rw [view]; exact step.1)
      rw [view, step.2] at leads
      rw [getPageTableEntry_below found leads (isChart.frames child).1.direct]
      exact ih (by omega) (by omega) isChart child target

end Walk

/-! ## The walk from the root -/

def Setting.withTop (σ : Setting) (id : Nat) (top : Nat → Nat) : Setting :=
  { σ with tops := update σ.tops id top }

structure Rooted (σ : Setting) (place : Places) (id : Nat) (ns : MemoryNamespace) : Prop where
  top : σ.tops id = ns.top
  root : place ns.pageTreeRoot = some ⟨.space id, 4, 0⟩

/-- The place of the entry for a block of a level below the `level` of its table. -/
inductive Spot (place : Places) (id virt : Nat) : Nat → Place → Prop
  | top : Spot place id virt 4 (.top (slotAt 3 virt))
  | below {level t : Nat} (lower : level < 4) (table : place t = some ⟨.space id, level, blockAt level virt⟩) :
      Spot place id virt level (.below t (slotAt (level - 1) virt))

section Root

variable {σ : Setting} {id virt level : Nat} {ns ns' : MemoryNamespace} {s s' : TableMem} {place place' : Places}
  {E : Nat → Nat → Nat} {p : Place}

theorem Rooted.view {i : Nat} (rooted : Rooted σ place id ns) (small : i < 256) :
    σ.view E place ns.pageTreeRoot i = ns.top i := by
  rw [view_root rooted.root small, rooted.top]

theorem withTop_self (top : σ.tops id = ns.top) : σ.withTop id ns.top = σ := by
  unfold Setting.withTop
  rw [← top, update_eq_self]

theorem slotAt_three (low : virt < 2 ^ 47) : slotAt 3 virt = blockAt 3 virt ∧ slotAt 3 virt < 256 := by
  have small : blockAt 3 virt < 256 := by
    rw [blockAt_eq]
    omega
  rw [slotAt_eq_blockAt, Nat.mod_eq_of_lt (by omega)]
  exact ⟨rfl, small⟩

theorem blockAt_four (low : virt < 2 ^ 47) : blockAt 4 virt = 0 := by
  rw [blockAt_eq]
  omega

/-- The table of a spot, and what reading and writing at the spot does. -/
structure SpotTable (σ : Setting) (id virt level : Nat) (ns : MemoryNamespace) (s : TableMem) (place : Places)
    (p : Place) (t : Nat) : Prop where
  table : place t = some ⟨.space id, level, blockAt level virt⟩
  read : ∀ u, Twin place s u → readPlace ns p u = some (σ.view s.entries place t (slotAt (level - 1) virt), u)
  write : ∀ value, ∃ ns' s', writePlace ns value p s = some (ns', s') ∧
    Written σ s place (update σ.tops id ns'.top) s' place t (slotAt (level - 1) virt) value ∧
    ns' = { ns with top := ns'.top } ∧ (∀ i, 256 ≤ i → ns'.top i = ns.top i) ∧
    s'.pool = s.pool ∧ s'.inUse = s.inUse ∧ s'.frees = s.frees ∧ s'.hhdm = s.hhdm ∧
    (∀ x, x ≠ t → s'.entries x = s.entries x) ∧
    ∀ u, Twin place s u → ∃ u', writePlace ns value p u = some (ns', u') ∧ Twin place s' u'

theorem view_update_top {q : TablePlace Owner} {x j : Nat} (isChart : Chart σ s place) (rooted : Rooted σ place id ns)
    (placed : place x = some q) (top' : Nat → Nat) (away : x ≠ ns.pageTreeRoot ∨ top' j = ns.top j) :
    ({ σ with tops := update σ.tops id top' } : Setting).view E place x j = σ.view E place x j := by
  unfold Setting.view
  rw [placed]
  obtain ⟨o, l, n⟩ := q
  cases o with
  | range node => rfl
  | space id' =>
    dsimp only
    split
    next isRoot =>
      by_cases same : id' = id
      · subst same isRoot
        obtain rfl := isChart.forest.root_number placed
        rw [update_self, rooted.top, away.resolve_left fun ne => ne (isChart.forest.single placed rooted.root)]
      · rw [update_of_ne same]
    next => rfl

theorem Spot.table (spot : Spot place id virt level p) (isChart : Chart σ s place)
    (rooted : Rooted σ place id ns) (low : virt < 2 ^ 47) (lowest : 0 < level) :
    ∃ t, SpotTable σ id virt level ns s place p t := by
  cases spot with
  | top =>
    obtain ⟨-, small⟩ := slotAt_three low
    have root : place ns.pageTreeRoot = some ⟨.space id, 4, blockAt 4 virt⟩ := by
      rw [blockAt_four low]
      exact rooted.root
    refine ⟨ns.pageTreeRoot, root, fun u _ => ?_, fun value => ?_⟩
    · rw [rooted.view small]
      rfl
    refine ⟨{ ns with top := update ns.top (slotAt 3 virt) value }, s, rfl, ⟨?_, ?_⟩, rfl, ?_, rfl, rfl, rfl,
      rfl, fun _ _ => rfl, fun u twin => ⟨u, rfl, twin⟩⟩
    · rw [view_root rooted.root small]
      dsimp only
      rw [update_self, update_self]
    · intro x q placed _ j away
      exact view_update_top isChart rooted placed _ (away.imp_right fun ne => update_of_ne ne _ _)
    · intro i high
      exact update_of_ne (by omega) _ _
  | @below _ t lower table =>
    have top : update σ.tops id ns.top = σ.tops := by rw [← rooted.top, update_eq_self]
    refine ⟨t, table, fun u twin => ?_, fun value => ?_⟩
    · rw [view_lower table (by omega), ← twin.tables table ⟨lowest, lower⟩]
      rfl
    refine ⟨ns, s.put t (slotAt (level - 1) virt) value, rfl, ⟨?_, ?_⟩, rfl, fun _ _ => rfl, rfl, rfl, rfl, rfl,
      fun x ne => put_other ne, fun u twin => ⟨_, rfl, twin.put⟩⟩
    · rw [view_lower table (by omega), put_self]
    rw [top]
    intro x q placed _ j away
    refine view_congr placed placed ?_
    by_cases same : x = t
    · subst same
      exact put_index (away.resolve_left fun ne => ne rfl)
    · rw [put_other same]

/-- Frames were taken for tables, and nothing but tables was written to. -/
structure OnlyTables (s : TableMem) (place : Places) (s' : TableMem) (place' : Places) : Prop where
  kept : ∀ {x q}, place x = some q → place' x = some q
  account : SameAccount s s'
  filled : ∀ f, s'.inUse f = true → place' f = none → s.inUse f = true ∧ place f = none
  pages : ∀ f, (∀ o l n, place' f ≠ some ⟨o, l + 1, n⟩) → s'.entries f = s.entries f

theorem OnlyTables.refl (s : TableMem) (place : Places) : OnlyTables s place s place :=
  ⟨fun placed => placed, .refl s, fun _ used unplaced => ⟨used, unplaced⟩, fun _ _ => rfl⟩

theorem OnlyTables.trans {s1 s2 s3 : TableMem} {place1 place2 place3 : Places} (first : OnlyTables s1 place1 s2 place2)
    (second : OnlyTables s2 place2 s3 place3) : OnlyTables s1 place1 s3 place3 where
  kept := fun placed => second.kept (first.kept placed)
  account := first.account.trans second.account
  filled := fun f used unplaced =>
    let ⟨usedMid, unplacedMid⟩ := second.filled f used unplaced
    first.filled f usedMid unplacedMid
  pages := fun f page => (second.pages f page).trans (first.pages f fun o l n placed => page o l n (second.kept placed))

theorem Touches.onlyTables {job : Job} (touches : Touches σ job (s, place) (s', place')) (isChart : Chart σ s place)
    (grows : job.grows) : OnlyTables s place s' place' where
  kept := fun placed => touches.kept isChart grows placed
  account := touches.account isChart
  filled := fun _ used unplaced => (touches.lost isChart used unplaced).resolve_right fun shrinks => shrinks.1 grows
  pages := fun _ page => touches.pages isChart grows page

structure Located (σ : Setting) (id virt level : Nat) (ns : MemoryNamespace) (s : TableMem) (place : Places)
    (ns' : MemoryNamespace) (p : Place) (s' : TableMem) (place' : Places) : Prop where
  spot : Spot place' id virt level p
  chart : Chart (σ.withTop id ns'.top) s' place'
  same : ns' = { ns with top := ns'.top }
  half : ∀ i, 256 ≤ i → ns'.top i = ns.top i
  kept : ∀ {x q}, place x = some q → place' x = some q
  new : ∀ {x q}, place' x = some q → place x = some q ∨ ∃ l, level ≤ l ∧ l ≤ 3 ∧ q = ⟨.space id, l, blockAt l virt⟩
  settled : (ns' = ns ∧ s' = s ∧ place' = place) ∨ ∀ t, place' t = some ⟨.space id, level, blockAt level virt⟩ →
      present ((σ.withTop id ns'.top).view s'.entries place' t (slotAt (level - 1) virt)) = false
  frames : OnlyTables s place s' place'

section

variable (isChart : Chart σ s place) (rooted : Rooted σ place id ns) (low : virt < 2 ^ 47) {flag : Bool}

include isChart rooted low

/-- The root table has an entry for the address afterwards, unless there is no frame left for the table it needs. -/
theorem rootTable_spec (unlinked : ∀ g, ¬ σ.link (.space id) 3 (blockAt 3 virt) g) :
    (ns.rootTable virt (slotAt 3 virt) s = none ∧ s.pool = []) ∨
    ∃ ns1 s1 place1 f, ns.rootTable virt (slotAt 3 virt) s = some (ns1, s1) ∧ s.pool.length ≤ s1.pool.length + 1 ∧
      Leads (ns1.top (slotAt 3 virt)) f true true ∧ place1 f = some ⟨.space id, 3, blockAt 3 virt⟩ ∧
      Chart (σ.withTop id ns1.top) s1 place1 ∧ ns1 = { ns with top := ns1.top } ∧
      (∀ i, 256 ≤ i → ns1.top i = ns.top i) ∧
      (∀ {x q}, place1 x = some q → place x = some q ∨ q = ⟨.space id, 3, blockAt 3 virt⟩) ∧
      ((ns1 = ns ∧ s1 = s ∧ place1 = place) ∨ ∀ j < 512, present (s1.entries f j) = false) ∧
      OnlyTables s place s1 place1 ∧
      ∀ u, Twin place s u → ∃ u1, ns.rootTable virt (slotAt 3 virt) u = some (ns1, u1) ∧ Twin place1 s1 u1 := by
  obtain ⟨number, small⟩ := slotAt_three low
  have view : σ.view s.entries place ns.pageTreeRoot (slotAt 3 virt) = ns.top (slotAt 3 virt) := rooted.view small
  by_cases there : present (ns.top (slotAt 3 virt)) = true
  · have runs : ∀ u, ns.rootTable virt (slotAt 3 virt) u = some (ns, u) := by
      intro u
      unfold rootTable
      rw [if_pos there]
      rfl
    have leads := isChart.entries rooted.root (show slotAt 3 virt < 512 by omega) (by rw [view]; exact there)
    have down := isChart.forest.down rooted.root (show slotAt 3 virt < 512 by omega)
      (next_eq_some_iff.mpr ⟨by rw [view]; exact there, rfl⟩)
    rw [view] at leads down
    rw [Nat.mul_zero, Nat.zero_add] at down
    rw [← number] at unlinked ⊢
    refine .inr ⟨ns, s, place, address (ns.top (slotAt 3 virt)), runs s, Nat.le_succ _, leads,
      down.resolve_left (unlinked _), ?_, rfl, fun _ _ => rfl, .inl, .inl ⟨rfl, rfl, rfl⟩,
      .refl s place, fun u twin => ⟨u, runs u, twin⟩⟩
    rw [withTop_self rooted.top]
    exact isChart
  · cases offer : s.pool with
    | nil =>
      refine .inl ⟨?_, rfl⟩
      unfold rootTable
      rw [if_neg there, bind_run, allocate, offer]
      rfl
    | cons f rest =>
      have member : f ∈ s.pool := offer ▸ .head _
      obtain ⟨good, unused⟩ := isChart.pool member
      have new := isChart.fresh member
      have leads : Leads (userEntry f true true) f true true := good.leads _ _
      have runs : ∀ u : TableMem, u.pool = s.pool → u.hhdm = s.hhdm → ns.rootTable virt (slotAt 3 virt) u =
          some ({ ns with top := update ns.top (slotAt 3 virt) (userEntry f true true) },
            { u with pool := rest, inUse := update u.inUse f true, entries := update u.entries f fun _ => 0 }) := by
        intro u pool hhdm
        unfold rootTable
        rw [if_neg there, allocate_bind (by rw [pool, offer]), zeroFrame_bind (by rw [hhdm]; exact good.direct),
          missingEntry_eq (by omega)]
        rfl
      have kept : ∀ {x q}, place x = some q →
          x ≠ f ∧ update place f (some ⟨.space id, 3, 512 * 0 + slotAt 3 virt⟩) x = some q :=
        fun placed => update_of_placed placed new
      refine .inr ⟨_, _, update place f (some ⟨.space id, 3, 512 * 0 + slotAt 3 virt⟩), f, runs s rfl rfl,
        le_refl _, ?_, ?_, ?_, rfl, ?_, ?_, .inr ?_, ⟨fun placed => (kept placed).2, .take offer unused rfl rfl rfl, ?_, ?_⟩, ?_⟩
      · dsimp only
        rw [update_self]
        exact leads
      · rw [update_self, Nat.mul_zero, Nat.zero_add, number]
      · refine isChart.graft_written rooted.root (by omega) (fun _ _ => by omega) (by rw [view]; simpa using there) offer
          leads rfl rfl rfl ⟨?_, ?_⟩ ?_
        · rw [view_root (kept rooted.root).2 small]
          dsimp only
          rw [update_self, update_self]
        · intro x q placed placed' j away
          refine Eq.trans (view_congr placed placed' ?_)
            (view_update_top isChart rooted placed _ (away.imp_right fun ne => update_of_ne ne _ _))
          exact congrFun (update_of_ne (kept placed).1 _ _) j
        · intro _ j
          rw [view_lower (update_self f _ place) (by omega)]
          dsimp only
          rw [update_self]
      · intro i high
        exact update_of_ne (by omega) _ _
      · intro x q placed
        rcases update_eq_some.mp placed with ⟨-, rfl⟩ | ⟨-, before⟩
        · exact .inr (by rw [Nat.mul_zero, Nat.zero_add, number])
        · exact .inl before
      · intro j _
        dsimp only
        rw [update_self]
        rfl
      · intro x used unplaced
        by_cases same : x = f
        · rw [same, update_self] at unplaced
          cases unplaced
        · exact ⟨(update_of_ne same _ _).symm.trans used, (update_of_ne same _ _).symm.trans unplaced⟩
      · intro x page
        refine update_of_ne ?_ _ _
        rintro rfl
        exact page _ _ _ (update_self ..)
      · exact fun u twin => ⟨_, runs u twin.pool twin.hhdm, twin.take (c := False) False.elim⟩

omit isChart rooted in
theorem entryAtLevel_below {ns1 : MemoryNamespace} {f : Nat} {u u1 : TableMem} (lowest : 0 < level)
    (lower : level < 4) (creates : flag = true ∨ present (ns.top (slotAt 3 virt)) = true)
    (first : ns.rootTable virt (slotAt 3 virt) u = some (ns1, u1)) (leads : Leads (ns1.top (slotAt 3 virt)) f true true)
    (direct : f < u1.hhdm.len) : ns.getPageTableEntryAtLevel virt level flag u =
      (getPageTableEntry virt level flag 3 f (blockStart 3 virt) >>= fun found =>
        pure (ns1, found.map fun p => Place.below p.1 p.2)) u1 := by
  have goes : ¬ (!present (ns.top (slotAt 3 virt)) && !flag) = true := by
    rcases creates with rfl | there
    · simp
    · simp [there]
  have start : slotAt 3 virt * 2 ^ 39 = blockStart 3 virt := by rw [(slotAt_three low).1, blockStart]
  unfold getPageTableEntryAtLevel
  rw [assert_bind_run (by simp; omega), show virt / 2 ^ 39 % 512 = slotAt 3 virt from rfl, if_neg (by omega), if_neg goes,
    bind_of_eq_some first, leads.small, if_neg (by decide), leads.address, direct_bind_run _ direct, start]

theorem entryAtLevel_located (lowest : 0 < level) (highest : level ≤ 4)
    (unlinked : ∀ l g, level ≤ l → ¬ σ.link (.space id) l (blockAt l virt) g) :
    (ns.getPageTableEntryAtLevel virt level true s = none ∧ s.pool.length < 3) ∨
    ∃ ns' p s' place', ns.getPageTableEntryAtLevel virt level true s = some ((ns', some p), s') ∧
      Located σ id virt level ns s place ns' p s' place' ∧
      ∀ u, Twin place s u → ∃ u', ns.getPageTableEntryAtLevel virt level true u = some ((ns', some p), u') ∧
        Twin place' s' u' := by
  by_cases isTop : level = 4
  · subst isTop
    have runs : ∀ u, ns.getPageTableEntryAtLevel virt 4 true u = some ((ns, some (.top (slotAt 3 virt))), u) :=
      fun _ => rfl
    refine .inr ⟨ns, _, s, place, runs s, ⟨.top, ?_, rfl, fun _ _ => rfl, fun placed => placed, .inl,
      .inl ⟨rfl, rfl, rfl⟩, .refl s place⟩, fun u twin => ⟨u, runs u, twin⟩⟩
    rw [withTop_self rooted.top]
    exact isChart
  · obtain ⟨fails, empty⟩ | ⟨ns1, s1, place1, f, first, left, leads, child, isChart1, same, half, new, settled, frames,
      twins⟩ := rootTable_spec isChart rooted low (fun g => unlinked 3 g (by omega))
    · refine .inl ⟨?_, by rw [empty, List.length_nil]; omega⟩
      unfold getPageTableEntryAtLevel
      rw [assert_bind_run (by simp; omega), if_neg isTop, Bool.not_true, Bool.and_false, if_neg (by decide), bind_run,
        show virt / 2 ^ 39 % 512 = slotAt 3 virt from rfl, fails]
      rfl
    have direct := (isChart1.frames child).1.direct
    have lower : level < 4 := by omega
    obtain ⟨fails, few⟩ | ⟨t', s', place', walk, reaches, fresh, outcome⟩ :=
      getPageTableEntry_outcome (by omega) lowest (le_refl 3) (by omega) isChart1 child unlinked
    · refine .inl ⟨?_, by omega⟩
      rw [entryAtLevel_below low lowest lower (.inl rfl) first leads direct, bind_run, fails]
      rfl
    have runs : ∀ {u u1 u'}, ns.rootTable virt (slotAt 3 virt) u = some (ns1, u1) → u1.hhdm = s1.hhdm →
        getPageTableEntry virt level true 3 f (blockStart 3 virt) u1 = some (some (t', slotAt (level - 1) virt), u') →
        ns.getPageTableEntryAtLevel virt level true u = some ((ns1, some (.below t' (slotAt (level - 1) virt))), u') := by
      intro u u1 u' first hhdm walk
      rw [entryAtLevel_below low lowest lower (.inl rfl) first leads (by rwa [hhdm]), bind_of_eq_some walk]
      rfl
    refine .inr ⟨ns1, .below t' (slotAt (level - 1) virt), s', place', runs first rfl walk,
      ⟨.below lower reaches.table, outcome.chart isChart1, same, half, fun placed => reaches.kept (frames.kept placed),
        fun placed => ?_, ?_, frames.trans (outcome.touches.onlyTables isChart1 trivial)⟩, fun u twin => ?_⟩
    · rcases reaches.new placed with old | ⟨l, lo, hi, eq⟩
      · exact (new old).imp_right fun eq => ⟨3, by omega, le_refl 3, eq⟩
      · exact .inr ⟨l, lo, by omega, eq⟩
    · -- either nothing was created, or the last table is new
      have blank : (∀ j < 512, present (s'.entries t' j) = false) → ∀ t,
          place' t = some ⟨.space id, level, blockAt level virt⟩ →
            present ((σ.withTop id ns1.top).view s'.entries place' t (slotAt (level - 1) virt)) = false := by
        intro clear t table
        rw [(outcome.chart isChart1).forest.single table reaches.table, view_lower reaches.table (by omega)]
        exact clear _ (slotAt_lt _ _)
      rcases settled with ⟨rfl, rfl, rfl⟩ | clear
      · rcases reaches.settled with ⟨sameMem, samePlace⟩ | clear
        · exact .inl ⟨rfl, sameMem, samePlace⟩
        · exact .inr (blank clear)
      · exact .inr (blank (fresh clear))
    · obtain ⟨u1, first', twin1⟩ := twins u twin
      obtain ⟨u', walk', twin'⟩ := outcome.twin u1 twin1
      exact ⟨u', runs first' twin1.hhdm walk', twin'⟩

theorem entryAtLevel_placed {t : Nat} (lowest : 0 < level) (highest : level ≤ 4)
    (table : place t = some ⟨.space id, level, blockAt level virt⟩) :
    ∃ p, ns.getPageTableEntryAtLevel virt level flag s = some ((ns, some p), s) ∧ Spot place id virt level p := by
  by_cases isTop : level = 4
  · subst isTop
    exact ⟨_, rfl, .top⟩
  obtain ⟨number, small⟩ := slotAt_three low
  have view : σ.view s.entries place ns.pageTreeRoot (slotAt 3 virt) = ns.top (slotAt 3 virt) := rooted.view small
  obtain ⟨f, child⟩ := isChart.ancestor table (by omega) (show 3 ≤ 4 by omega)
  have step := isChart.forest.step rooted.root (show slotAt 3 virt < 512 by omega)
    (by rw [Nat.mul_zero, Nat.zero_add, number]; exact child)
  rw [next_eq_some_iff, view] at step
  have leads := isChart.entries rooted.root (show slotAt 3 virt < 512 by omega) (by rw [view]; exact step.1)
  rw [view, step.2] at leads
  have rootRun : ns.rootTable virt (slotAt 3 virt) s = some (ns, s) := by
    unfold rootTable
    rw [if_pos step.1]
    rfl
  refine ⟨.below t (slotAt (level - 1) virt), ?_, .below (by omega) table⟩
  rw [entryAtLevel_below low lowest (by omega) (.inr step.1) rootRun leads (isChart.frames child).1.direct,
    bind_of_eq_some (getPageTableEntry_placed lowest (le_refl 3) (by omega) isChart child table)]
  rfl

end

end Root

/-! ## Regions -/

theorem blockAt_inside {c : VirtualMemoryRangeCapacity} {start addr : Nat} (aligned : c.size ∣ start) :
    blockAt c.intoLevel start = blockAt c.intoLevel addr ↔ start ≤ addr ∧ addr < start + c.size := by
  obtain ⟨k, rfl⟩ := aligned
  have pos : 0 < c.size := Nat.lt_of_lt_of_le (by omega) c.size_pos
  have block : ∀ x, blockAt c.intoLevel x = x / c.size := fun x => by
    unfold blockAt VirtualMemoryRangeCapacity.size
    rw [Nat.div_div_eq_div_mul]
  rw [block, block, Nat.mul_div_cancel_left k pos, eq_comm, Nat.div_eq_iff pos]
  constructor
  · rintro ⟨lo, hi⟩
    rw [Nat.mul_comm]
    omega
  · rintro ⟨lo, hi⟩
    rw [Nat.mul_comm] at lo hi
    omega

namespace OwnedVirtualMemoryRange

def Links (r : OwnedVirtualMemoryRange) (l c g : Nat) : Prop :=
  r.sharedRange.level = l ∧ blockAt l r.mapAddress = c ∧ r.sharedRange.node = g

structure Proper (r : OwnedVirtualMemoryRange) : Prop where
  aligned : r.sharedRange.capacity.size ∣ r.mapAddress
  low : r.stop ≤ 2 ^ 47

theorem Proper.start_lt {r : OwnedVirtualMemoryRange} (proper : r.Proper) : r.mapAddress < 2 ^ 47 := by
  have size := r.sharedRange.capacity.size_pos
  have low := proper.low
  unfold stop at low
  omega

def Apart (r r' : OwnedVirtualMemoryRange) : Prop := r.stop ≤ r'.mapAddress ∨ r'.stop ≤ r.mapAddress

end OwnedVirtualMemoryRange

section Regions

variable {σ : Setting} {id start stop e : Nat} {ns ns' : MemoryNamespace} {s s' u : TableMem} {place place' : Places}
  {range : VirtualMemoryRange} {name : String} {rangeType : MemoryRangeType} {mapAddress : Nat} {p : Place}
  {r : OwnedVirtualMemoryRange}

theorem illegalMap_eq_false (legal : ns.illegalMap name start stop = false) :
    ∀ r ∈ ns.memoryRanges, r.name ≠ name ∧ (stop ≤ r.mapAddress ∨ r.stop ≤ start) := by
  intro r member
  have not := List.any_eq_false.mp legal r member
  simp only [Bool.or_eq_true, beq_iff_eq, Bool.and_eq_true, decide_eq_true_eq, not_or, not_and_or, Nat.not_lt] at not
  exact not

theorem not_linked_of_apart (links : ∀ l c g, σ.link (.space id) l c g ↔ ∃ r ∈ ns.memoryRanges, r.Links l c g)
    (proper : ∀ r ∈ ns.memoryRanges, r.Proper) (inside : start < stop)
    (apart : ∀ r ∈ ns.memoryRanges, stop ≤ r.mapAddress ∨ r.stop ≤ start) (l g : Nat) :
    ¬ σ.link (.space id) l (blockAt l start) g := by
  intro isLink
  obtain ⟨r, member, rfl, block, -⟩ := (links _ _ _).mp isLink
  have within := (blockAt_inside (proper r member).aligned).mp block
  have away := apart r member
  unfold OwnedVirtualMemoryRange.stop at away
  omega

def linkRange (ns : MemoryNamespace) (range : VirtualMemoryRange) (name : String) (rangeType : MemoryRangeType)
    (mapAddress : Nat) (p : Place) : Prog TableMem (MemoryNamespace × Option Nat) := do
  let e ← ns.readPlace p
  if present e then pure (ns, none)
  else do
    let ns ← ns.writePlace (setWriteable (setNoExecute (PageTableEntry.new range.node true) false) true) p
    Prog.assert (ns.rangeCounter + 1 < 2 ^ 32)
    pure ({ ns with
      memoryRanges := ns.memoryRanges ++ [⟨range, name, rangeType, mapAddress, ns.rangeCounter⟩]
      rangeCounter := ns.rangeCounter + 1 }, some ns.rangeCounter)

theorem addMemRange_legal (low : mapAddress + range.capacity.size < 2 ^ 48)
    (legal : ns.illegalMap name mapAddress (mapAddress + range.capacity.size) = false) (u : TableMem) :
    ns.addMemRange range name rangeType mapAddress u =
      (ns.getPageTableEntryAtLevel mapAddress (range.level + 1) true >>= fun r => match r.2 with
        | none => pure (r.1, none)
        | some p => linkRange r.1 range name rangeType mapAddress p) u := by
  have fits : decide (mapAddress + range.capacity.size < 2 ^ 64) = true := decide_eq_true (by omega)
  unfold MemoryNamespace.addMemRange
  rw [assert_bind_run fits, if_neg (Nat.not_le.mpr low), legal, if_neg (by decide)]
  rfl

theorem linkRange_present (read : ns.readPlace p u = some (e, u))
    (there : present e = true) : linkRange ns range name rangeType mapAddress p u = some ((ns, none), u) := by
  unfold linkRange
  rw [bind_of_eq_some read, if_pos there]
  rfl

theorem linkRange_blank {u' : TableMem} (read : ns.readPlace p u = some (e, u)) (blank : present e = false)
    (write : ns.writePlace (setWriteable (setNoExecute (PageTableEntry.new range.node true) false) true) p u =
      some (ns', u')) : linkRange ns range name rangeType mapAddress p u = if ns'.rangeCounter + 1 < 2 ^ 32 then
        some (({ ns' with
          memoryRanges := ns'.memoryRanges ++ [⟨range, name, rangeType, mapAddress, ns'.rangeCounter⟩]
          rangeCounter := ns'.rangeCounter + 1 }, some ns'.rangeCounter), u')
      else none := by
  unfold linkRange
  rw [bind_of_eq_some read, blank, if_neg (by decide), bind_of_eq_some write, bind_run, assert_run]
  by_cases counter : ns'.rangeCounter + 1 < 2 ^ 32
  · rw [if_pos (decide_eq_true counter), if_pos counter]
    rfl
  · rw [if_neg (by simpa using counter), if_neg counter]
    rfl

structure Added (σ : Setting) (id : Nat) (ns : MemoryNamespace) (range : VirtualMemoryRange) (name : String)
    (rangeType : MemoryRangeType) (mapAddress : Nat) (s : TableMem) (place : Places) (ns' : MemoryNamespace)
    (s' : TableMem) (place' : Places) : Prop where
  chart : Chart { σ with
      tops := update σ.tops id ns'.top
      link := fun p k c x => σ.link p k c x ∨
        (p = .space id ∧ k = range.level ∧ c = blockAt range.level mapAddress ∧ x = range.node) } s' place'
  same : ns' = { ns with
    top := ns'.top
    memoryRanges := ns.memoryRanges ++ [⟨range, name, rangeType, mapAddress, ns.rangeCounter⟩]
    rangeCounter := ns.rangeCounter + 1 }
  half : ∀ i, 256 ≤ i → ns'.top i = ns.top i
  kept : ∀ {x q}, place x = some q → place' x = some q
  new : ∀ {x q}, place' x = some q →
    place x = some q ∨ ∃ l, range.level < l ∧ l ≤ 3 ∧ q = ⟨.space id, l, blockAt l mapAddress⟩
  table : ∃ x, place' x = some ⟨.space id, range.level + 1, blockAt (range.level + 1) mapAddress⟩
  apart : ∀ r ∈ ns.memoryRanges, mapAddress + range.capacity.size ≤ r.mapAddress ∨ r.stop ≤ mapAddress
  frames : OnlyTables s place s' place'

/-- Why a region in the lower half is refused: it meets another one or takes its name, or there is a table already
behind the entry it would need. -/
def Refused (σ : Setting) (id : Nat) (ns : MemoryNamespace) (range : VirtualMemoryRange) (name : String)
    (mapAddress : Nat) (s : TableMem) (place : Places) : Prop :=
  ns.illegalMap name mapAddress (mapAddress + range.capacity.size) = true ∨
    ∃ t, place t = some ⟨.space id, range.level + 1, blockAt (range.level + 1) mapAddress⟩ ∧
      present (σ.view s.entries place t (slotAt range.level mapAddress)) = true

/-- `add_mem_range` in the lower half: it refuses and changes nothing, or it links the range; it fails only without
frames for the tables or when the ids run out. -/
theorem addMemRange_spec (name : String) (rangeType : MemoryRangeType) (isChart : Chart σ s place)
    (rooted : Rooted σ place id ns) (links : ∀ l c g, σ.link (.space id) l c g ↔ ∃ r ∈ ns.memoryRanges, r.Links l c g)
    (proper : ∀ r ∈ ns.memoryRanges, r.Proper) (low : mapAddress + range.capacity.size ≤ 2 ^ 47)
    (tall : σ.height (.range range.node) = range.level)
    (node : place range.node = some ⟨.range range.node, range.level, 0⟩) :
    (ns.addMemRange range name rangeType mapAddress s = none ∧ (s.pool.length < 3 ∨ 2 ^ 32 ≤ ns.rangeCounter + 1)) ∨
      (ns.addMemRange range name rangeType mapAddress s = some ((ns, none), s) ∧
        Refused σ id ns range name mapAddress s place ∧
        ∀ u, Twin place s u → ∃ u', ns.addMemRange range name rangeType mapAddress u = some ((ns, none), u') ∧
          Twin place s u') ∨
      ∃ ns' s' place', ns.addMemRange range name rangeType mapAddress s = some ((ns', some ns.rangeCounter), s') ∧
        ¬ Refused σ id ns range name mapAddress s place ∧
        Added σ id ns range name rangeType mapAddress s place ns' s' place' ∧
        ∀ u, Twin place s u → ∃ u', ns.addMemRange range name rangeType mapAddress u =
          some ((ns', some ns.rangeCounter), u') ∧ Twin place' s' u' := by
  have size := range.capacity.size_pos
  have level : range.level ≤ 3 := range.capacity.intoLevel_le
  have low48 : mapAddress + range.capacity.size < 2 ^ 48 := by omega
  cases legal : ns.illegalMap name mapAddress (mapAddress + range.capacity.size) with
  | true =>
    have runs (u : TableMem) : ns.addMemRange range name rangeType mapAddress u = some ((ns, none), u) := by
      unfold MemoryNamespace.addMemRange
      rw [assert_bind_run (decide_eq_true (by omega)), if_neg (Nat.not_le.mpr low48), legal, if_pos rfl]
      rfl
    exact .inr (.inl ⟨runs s, .inl legal, fun u twin => ⟨u, runs u, twin⟩⟩)
  | false =>
    have apart := fun r member => (illegalMap_eq_false legal r member).2
    have unlinked := not_linked_of_apart links proper (show mapAddress < mapAddress + range.capacity.size by omega) apart
    obtain ⟨fails, few⟩ | ⟨ns1, p, s1, place1, walk, located, twins⟩ := entryAtLevel_located isChart rooted
      (show mapAddress < 2 ^ 47 by omega) (Nat.succ_pos range.level) (by omega) (fun l g _ => unlinked l g)
    · refine .inl ⟨?_, .inl few⟩
      rw [addMemRange_legal low48 legal, bind_run, fails]
      rfl
    -- the memory and its twins go on at the entry
    have goes : ∀ {u v}, ns.getPageTableEntryAtLevel mapAddress (range.level + 1) true u = some ((ns1, some p), v) →
        ns.addMemRange range name rangeType mapAddress u = linkRange ns1 range name rangeType mapAddress p v := by
      intro u v walk
      rw [addMemRange_legal low48 legal, bind_of_eq_some walk]
    have rooted' : Rooted (σ.withTop id ns1.top) place1 id ns1 :=
      ⟨update_self .., by rw [located.same]; exact located.kept rooted.root⟩
    obtain ⟨t, isTable, read, write⟩ := located.spot.table located.chart rooted' (by omega) (Nat.succ_pos _)
    have settled := located.settled
    rw [Nat.succ_sub_one] at settled
    cases there : present ((σ.withTop id ns1.top).view s1.entries place1 t (slotAt range.level mapAddress)) with
    | true =>
      obtain ⟨rfl, rfl, rfl⟩ := settled.resolve_right fun blank => by
        rw [blank t isTable] at there
        cases there
      have thereOld := there
      rw [withTop_self rooted.top] at thereOld
      refine .inr (.inl ⟨(goes walk).trans (linkRange_present (read _ (.refl _ _)) there), .inr ⟨t, isTable, thereOld⟩,
        fun u twin => ?_⟩)
      obtain ⟨v, walk', twin'⟩ := twins u twin
      exact ⟨v, (goes walk').trans (linkRange_present (read v twin') there), twin'⟩
    | false =>
      obtain ⟨ns2, s2, wrote, written, same, half, pool, inUse, frees, hhdm, others, writeTwin⟩ := write
        (setWriteable (setNoExecute (PageTableEntry.new range.node true) false) true)
      have counter : ns2.rangeCounter = ns.rangeCounter := by rw [same, located.same]
      have runs := (goes walk).trans (linkRange_blank (read s1 (.refl _ _)) there wrote)
      rw [counter] at runs
      by_cases small : ns.rangeCounter + 1 < 2 ^ 32
      · rw [if_pos small] at runs
        refine .inr (.inr ⟨_, _, place1, runs, ?_, ⟨?_, ?_, fun i high => (half i high).trans (located.half i high), located.kept,
          located.new, ⟨t, isTable⟩, apart, located.frames.trans ⟨fun placed => placed, .of_eq pool inUse frees,
            fun f used unplaced => ⟨inUse ▸ used, unplaced⟩, ?_⟩⟩, fun u twin => ?_⟩)
        · -- the table behind the entry would have been there before, and would still be
          rintro (illegal | ⟨t0, oldTable, present0⟩)
          · rw [legal] at illegal
            cases illegal
          have lt := slotAt_lt range.level mapAddress
          have down := isChart.forest.down oldTable lt (next_eq_some_iff.mpr ⟨present0, rfl⟩)
          rw [blockAt_split] at down
          have child := located.kept (down.resolve_left (unlinked _ _))
          have step := located.chart.forest.step isTable lt (by rw [blockAt_split]; exact child)
          rw [next_eq_some_iff, there] at step
          cases step.1
        · have leads := leads_new_user range.node
          rw [(isChart.frames node).1.frameOf_eq] at leads
          have attached := located.chart.attach_written isTable (slotAt_lt _ _) there tall (located.kept node)
            ((leads.setNoExecute true).setWriteable true) written pool inUse hhdm (fun _ _ _ _ => Iff.rfl)
          rw [blockAt_split] at attached
          simp only [Setting.withTop, update_idem] at attached
          exact attached
        · rw [same, located.same]
        · intro x page
          refine others x ?_
          rintro rfl
          exact page _ _ _ isTable
        · obtain ⟨v, walk', twin'⟩ := twins u twin
          obtain ⟨w, wrote', last⟩ := writeTwin v twin'
          refine ⟨w, (goes walk').trans ?_, last⟩
          rw [linkRange_blank (read v twin') there wrote', counter, if_pos small]
      · rw [if_neg small] at runs
        exact .inl ⟨runs, .inr (Nat.le_of_not_lt small)⟩

structure Cleared (σ : Setting) (id : Nat) (ns : MemoryNamespace) (r : OwnedVirtualMemoryRange) (s : TableMem)
    (place : Places) (ns' : MemoryNamespace) (s' : TableMem) : Prop where
  chart : Chart { σ with
      tops := update σ.tops id ns'.top
      link := fun p k c x => σ.link p k c x ∧
        ¬ (p = .space id ∧ k = r.sharedRange.level ∧ c = blockAt r.sharedRange.level r.mapAddress) } s' place
  same : ns' = { ns with top := ns'.top }
  half : ∀ i, 256 ≤ i → ns'.top i = ns.top i
  pool : s'.pool = s.pool
  inUse : s'.inUse = s.inUse
  frees : s'.frees = s.frees
  hhdm : s'.hhdm = s.hhdm

theorem clearEntry_spec (isChart : Chart σ s place) (rooted : Rooted σ place id ns) (low : r.mapAddress < 2 ^ 47)
    (isLink : σ.link (.space id) r.sharedRange.level (blockAt r.sharedRange.level r.mapAddress) r.sharedRange.node) :
    ∃ ns' s', ns.clearEntry r s = some (ns', s') ∧ Cleared σ id ns r s place ns' s' := by
  have level : r.sharedRange.level ≤ 3 := r.sharedRange.capacity.intoLevel_le
  obtain ⟨t, isTable, step⟩ := isChart.forest.linked isLink
  rw [← blockAt_succ] at isTable
  rw [← slotAt_eq_blockAt, next_eq_some_iff] at step
  have lowest : 0 < r.sharedRange.level + 1 := Nat.succ_pos _
  obtain ⟨p, walk, spot⟩ :
      ∃ p, ns.getPageTableEntryAtLevel r.mapAddress (r.sharedRange.level + 1) false s = some ((ns, some p), s) ∧
        Spot place id r.mapAddress (r.sharedRange.level + 1) p :=
    entryAtLevel_placed isChart rooted low lowest (by omega) isTable
  obtain ⟨t', isTable', read, write⟩ := spot.table isChart rooted low lowest
  obtain rfl := isChart.forest.single isTable' isTable
  rw [Nat.add_sub_cancel] at read write
  obtain ⟨ns', s', wrote, written, same, half, pool, inUse, frees, hhdm, -, -⟩ := write 0
  refine ⟨ns', s', ?_, ?_, same, half, pool, inUse, frees, hhdm⟩
  · unfold MemoryNamespace.clearEntry
    rw [bind_of_eq_some walk]
    dsimp only
    rw [bind_of_eq_some (read s (.refl _ _)), if_neg (by rw [step.2]; exact fun ne => ne rfl), wrote]
  · rw [← blockAt_split] at isLink ⊢
    exact isChart.detach_written isTable' (slotAt_lt _ _) isLink written pool inUse hhdm fun _ _ _ _ => Iff.rfl

theorem links_tail {rest : List OwnedVirtualMemoryRange}
    (proper : ∀ r' ∈ r :: rest, r'.Proper) (apart : ∀ r' ∈ rest, r.Apart r') (l c g : Nat) :
    ((∃ r' ∈ r :: rest, r'.Links l c g) ∧
        ¬ (l = r.sharedRange.level ∧ c = blockAt r.sharedRange.level r.mapAddress)) ↔ ∃ r' ∈ rest, r'.Links l c g := by
  constructor
  · rintro ⟨⟨r', member, links⟩, other⟩
    rcases List.mem_cons.mp member with rfl | inRest
    · exact absurd ⟨links.1.symm, links.1 ▸ links.2.1.symm⟩ other
    · exact ⟨r', inRest, links⟩
  · rintro ⟨r', inRest, links⟩
    refine ⟨⟨r', .tail _ inRest, links⟩, ?_⟩
    rintro ⟨rfl, rfl⟩
    -- two regions of one size in one block would meet
    have away := apart r' inRest
    obtain ⟨sameLevel, sameBlock, -⟩ := links
    rw [← sameLevel] at sameBlock
    have inside := (blockAt_inside (proper r' (.tail _ inRest)).aligned).mp sameBlock
    have size : 4096 ≤ r.sharedRange.capacity.size := r.sharedRange.capacity.size_pos
    unfold OwnedVirtualMemoryRange.Apart OwnedVirtualMemoryRange.stop at away
    omega

theorem clearEntries_spec {rs : List OwnedVirtualMemoryRange} (isChart : Chart σ s place) (rooted : Rooted σ place id ns)
    (links : ∀ l c g, σ.link (.space id) l c g ↔ ∃ r ∈ rs, r.Links l c g) (proper : ∀ r ∈ rs, r.Proper)
    (apart : rs.Pairwise OwnedVirtualMemoryRange.Apart) : ∃ ns' s', ns.clearEntries rs s = some (ns', s') ∧
      Chart { σ with
        tops := update σ.tops id ns'.top
        link := fun p k c x => σ.link p k c x ∧ p ≠ .space id } s' place ∧
      ns' = { ns with top := ns'.top } ∧ (∀ i, 256 ≤ i → ns'.top i = ns.top i) ∧ s'.pool = s.pool ∧
      s'.inUse = s.inUse ∧ s'.frees = s.frees ∧ s'.hhdm = s.hhdm := by
  induction rs generalizing σ ns s with
  | nil =>
    refine ⟨ns, s, rfl, ?_, rfl, fun _ _ => rfl, rfl, rfl, rfl, rfl⟩
    have same : (fun p k c x => σ.link p k c x ∧ p ≠ .space id) = σ.link := by
      funext p k c x
      refine propext (and_iff_left_of_imp ?_)
      rintro isLink rfl
      obtain ⟨r, member, -⟩ := (links _ _ _).mp isLink
      cases member
    rw [← rooted.top, update_eq_self, same]
    exact isChart
  | cons r rest ih =>
    obtain ⟨ns1, s1, first, cleared⟩ := clearEntry_spec isChart rooted (proper r (.head _)).start_lt
      ((links _ _ _).mpr ⟨r, .head _, rfl, rfl, rfl⟩)
    rw [List.pairwise_cons] at apart
    have root : place ns1.pageTreeRoot = some ⟨.space id, 4, 0⟩ := by
      rw [cleared.same]
      exact rooted.root
    obtain ⟨ns', s', others, isChart', same, half, pool, inUse, frees, hhdm⟩ := ih cleared.chart
      ⟨update_self .., root⟩
      (fun l c g => by
        dsimp only
        rw [links, ← links_tail proper apart.1 l c g]
        simp only [true_and])
      (fun r' member => proper r' (.tail _ member)) apart.2
    refine ⟨ns', s', ?_, ?_, ?_, fun i high => (half i high).trans (cleared.half i high), pool.trans cleared.pool,
      inUse.trans cleared.inUse, frees.trans cleared.frees, hhdm.trans cleared.hhdm⟩
    · unfold MemoryNamespace.clearEntries
      rw [bind_of_eq_some first, others]
    · have links' : (fun p k c x => (σ.link p k c x ∧ ¬ (p = .space id ∧ k = r.sharedRange.level ∧
          c = blockAt r.sharedRange.level r.mapAddress)) ∧ p ≠ .space id) =
          fun p k c x => σ.link p k c x ∧ p ≠ .space id := by
        funext p k c x
        refine propext ⟨fun ⟨⟨isLink, _⟩, other⟩ => ⟨isLink, other⟩, fun ⟨isLink, other⟩ => ⟨⟨isLink, ?_⟩, other⟩⟩
        exact fun here => other here.1
      simp only [update_idem] at isChart'
      rwa [links'] at isChart'
    · rw [same, cleared.same]

theorem deletePageTable_spec (isChart : Chart σ s place) (rooted : Rooted σ place id ns)
    (unlinked : ∀ l c g, ¬ σ.link (.space id) l c g) (lower : ∀ i, 256 ≤ i → i < 512 → present (ns.top i) = false) :
    ∃ s', ns.deletePageTable s = some ((), s') ∧ Frees (TablesBelow place (.space id) 4 0) s s' := by
  have high : ∀ i, ¬ i < 256 → σ.view s.entries place ns.pageTreeRoot i = 0 := fun i high => by
    unfold Setting.view
    rw [rooted.root]
    exact (if_pos rfl).trans (if_neg high)
  obtain ⟨v, loop, frees⟩ : ∃ v, Prog.forUp (fun i =>
        if !present (ns.top i) || hugePage (ns.top i) then pure () else delete 3 (address (ns.top i))) 0 512 s =
      some ((), v) ∧ Frees (fun f => ∃ j < 512, TablesBelow place (.space id) 3 (512 * 0 + j) f) s v := by
    refine deleteLoop_spec isChart unlinked rooted.root rfl rfl (fun i v lt same blank => ?_)
      fun i v f lt same hhdm leads child => ?_
    · have notPresent : present (ns.top i) = false := by
        by_cases low : i < 256
        · rwa [rooted.view low] at blank
        · exact lower i (by omega) lt
      rw [notPresent]
      rfl
    · have low : i < 256 := by
        by_contra notLow
        have present := leads.present
        rw [high i notLow] at present
        cases present
      rw [rooted.view low] at leads
      rw [leads.present, leads.small, leads.address]
      exact delete_spec isChart unlinked (by omega) child same hhdm
  refine ⟨v.freed ns.pageTreeRoot, ?_, frees.table isChart rooted.root⟩
  unfold MemoryNamespace.deletePageTable
  rw [bind_of_eq_some loop, free_run (isChart.frames rooted.root).1.nonzero]

end Regions

end MeowOs.Memory
