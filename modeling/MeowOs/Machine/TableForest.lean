import Mathlib.Logic.Function.Basic
import Mathlib.Data.Nat.Basic
import Mathlib.Tactic.Ring

/-! # Forests of tables

A table has `w` entries, each of which may lead to another frame.  Every owner
has one tree of tables, with its root at the owner's height and its leaves at
level 0; the frame behind the entry `i` of the table number `n` of level `l + 1`
is the number `w * n + i` of level `l`.  Instead of a frame of the same tree, an
entry may link the root of another owner's tree.

* `TableForest` is the law between the entries and a map from frames to their
  places; it is local, so that one write is checked against one table.
* `graft`, `prune`, `attach`, `detach`, `plant` and `fell` are the ways in which
  a forest changes.
* `descend` walks down along the digits of a number: it runs through the table
  that is placed at the number (`descend_placed`), enters a linked tree at its
  root (`descend_link`), and finds nothing where nothing is linked
  (`descend_unlinked`).
* `Below` is the part of a tree below a place, split by the entries of its table.
-/

namespace MeowOs.Machine

open Function (update update_of_ne update_self)
open Nat (div_div_eq_div_mul mod_lt succ_pos zero_lt_of_lt)

section

variable {F α : Type} [DecidableEq F] {place : F → Option α} {f x : F} {p q : α}

theorem update_eq_some : update place f (some q) x = some p ↔ (x = f ∧ q = p) ∨ (x ≠ f ∧ place x = some p) := by
  by_cases same : x = f
  · simp [same]
  · simp [same]

theorem update_none_eq_some : update place f none x = some p ↔ x ≠ f ∧ place x = some p := by
  by_cases same : x = f
  · simp [same]
  · simp [same]

theorem update_of_placed {v : Option α} (placed : place x = some p) (new : place f = none) :
    x ≠ f ∧ update place f v x = some p := by
  have ne : x ≠ f := by
    rintro rfl
    cases new.symm.trans placed
  exact ⟨ne, (update_of_ne ne _ _).trans placed⟩

end

/-- Where a frame is: in whose tree, how far above the leaves, and which one of its level. -/
structure TablePlace (O : Type) where
  owner : O
  level : Nat
  number : Nat

/-- The entries `next` form the trees that `place` tells, with the links `link`. -/
structure TableForest {F O : Type} (w : Nat) (next : F → Nat → Option F) (place : F → Option (TablePlace O))
    (link : O → Nat → Nat → F → Prop) (height : O → Nat) : Prop where
  single : ∀ {f g p}, place f = some p → place g = some p → f = g
  down : ∀ {t o l n i f}, place t = some ⟨o, l + 1, n⟩ → i < w → next t i = some f →
    link o l (w * n + i) f ∨ place f = some ⟨o, l, w * n + i⟩
  up : ∀ {f o l c}, place f = some ⟨o, l, c⟩ →
    (l = height o ∧ c = 0) ∨ (l < height o ∧ ∃ t, place t = some ⟨o, l + 1, c / w⟩ ∧ next t (c % w) = some f)
  linked : ∀ {o l c g}, link o l c g → ∃ t, place t = some ⟨o, l + 1, c / w⟩ ∧ next t (c % w) = some g
  target : ∀ {o l c g}, link o l c g → ∃ o', o' ≠ o ∧ height o' = l ∧ place g = some ⟨o', l, 0⟩

namespace TableForest

variable {F O : Type} {w : Nat} {next next' : F → Nat → Option F} {place : F → Option (TablePlace O)}
  {link link' : O → Nat → Nat → F → Prop} {height : O → Nat}
variable {t f g root x : F} {o : O} {l n i c m j k : Nat} {p : TablePlace O}

theorem div_number (lt : i < w) : (w * n + i) / w = n := by
  rw [Nat.mul_add_div (zero_lt_of_lt lt), Nat.div_eq_of_lt lt, Nat.add_zero]

theorem mod_number (lt : i < w) : (w * n + i) % w = i := by
  rw [Nat.mul_add_mod, Nat.mod_eq_of_lt lt]

theorem number_inj (lt : i < w) (ltJ : j < w) (same : w * n + i = w * m + j) : n = m ∧ i = j :=
  ⟨by rw [← div_number (n := n) lt, same, div_number ltJ], by rw [← mod_number (n := n) lt, same, mod_number ltJ]⟩

section

variable (forest : TableForest w next place link height) {l' c' : Nat}

include forest

theorem level_le (placed : place f = some ⟨o, l, c⟩) : l ≤ height o := by
  rcases forest.up placed with ⟨top, _⟩ | ⟨below, _⟩
  · exact top.le
  · exact below.le

theorem root_number (placed : place f = some ⟨o, height o, c⟩) : c = 0 := by
  rcases forest.up placed with ⟨-, zero⟩ | ⟨below, -⟩
  · exact zero
  · exact absurd below (lt_irrefl _)

theorem link_ne_child (table : place t = some ⟨o, l + 1, n⟩)
    (child : place f = some ⟨o, l, c⟩) {o' : O} (isLink : link o' l' c' g) : g ≠ f := by
  rintro rfl
  obtain ⟨owner, -, tall, placed⟩ := forest.target isLink
  have le := forest.level_le table
  cases child.symm.trans placed
  omega

theorem not_link_of_placed (child : place f = some ⟨o, l, c⟩) : ¬ link o l' c' f := by
  intro isLink
  obtain ⟨owner, ne, -, placed⟩ := forest.target isLink
  cases child.symm.trans placed
  exact ne rfl

theorem step (table : place t = some ⟨o, l + 1, n⟩) (lt : i < w)
    (child : place f = some ⟨o, l, w * n + i⟩) : next t i = some f := by
  rcases forest.up child with ⟨top, -⟩ | ⟨-, parent, above, step⟩
  · have := forest.level_le table
    omega
  · rw [div_number lt] at above
    rwa [mod_number lt, forest.single above table] at step

end

/-! ## Changes -/

theorem congr (forest : TableForest w next place link height)
    (same : ∀ x p, place x = some p → 0 < p.level → ∀ j < w, next' x j = next x j) (pos : 0 < w) :
    TableForest w next' place link height where
  single := forest.single
  down := fun table lt step => forest.down table lt (same _ _ table (succ_pos _) _ lt ▸ step)
  up := fun placed => (forest.up placed).imp_right fun ⟨below, t, table, step⟩ =>
    ⟨below, t, table, (same _ _ table (succ_pos _) _ (mod_lt _ pos)).trans step⟩
  linked := fun isLink => (forest.linked isLink).imp fun _ ⟨table, step⟩ =>
    ⟨table, (same _ _ table (succ_pos _) _ (mod_lt _ pos)).trans step⟩
  target := forest.target

theorem reheight (forest : TableForest w next place link height) {height' : O → Nat}
    (same : ∀ x p, place x = some p → height' p.owner = height p.owner) : TableForest w next place link height' where
  single := forest.single
  down := forest.down
  up := fun {f o l c} placed => by
    rw [same f _ placed]
    exact forest.up placed
  linked := forest.linked
  target := fun isLink => (forest.target isLink).imp fun _ ⟨foreign, tall, placed⟩ =>
    ⟨foreign, (same _ _ placed).trans tall, placed⟩

/-- The write changes one entry of one table. -/
def Writes (w : Nat) (next next' : F → Nat → Option F) (place : F → Option (TablePlace O)) (t : F) (i : Nat) : Prop :=
  ∀ x p, place x = some p → 0 < p.level → ∀ j, j < w → x ≠ t ∨ j ≠ i → next' x j = next x j

theorem Writes.step (writes : Writes w next next' place t i) (placed : place x = some p)
    (tall : 0 < p.level) (lt : j < w) (step : next x j = some f) (ne : next t i ≠ some f) :
    next' x j = some f := by
  rw [writes x p placed tall j lt, step]
  by_contra same
  push Not at same
  exact ne (same.1 ▸ same.2 ▸ step)

theorem Writes.back (writes : Writes w next next' place t i) (placed : place x = some p)
    (tall : 0 < p.level) (lt : j < w) (step : next' x j = some f) :
    (x = t ∧ j = i) ∨ (¬ (x = t ∧ j = i) ∧ next x j = some f) := by
  by_cases same : x = t ∧ j = i
  · exact .inl same
  · exact .inr ⟨same, (writes x p placed tall j lt (by tauto)).symm.trans step⟩

section

variable (forest : TableForest w next place link height) (table : place t = some ⟨o, l + 1, n⟩) (lt : i < w)

include forest table lt

theorem graft [DecidableEq F] (blank : next t i = none) (new : place f = none) (here : next' t i = some f)
    (others : Writes w next next' place t i) (clear : 0 < l → ∀ j < w, next' f j = none) :
    TableForest w next' (update place f (some ⟨o, l, w * n + i⟩)) link height := by
  have pos : 0 < w := zero_lt_of_lt lt
  have kept : ∀ {x p}, place x = some p → update place f (some ⟨o, l, w * n + i⟩) x = some p :=
    fun placed => (update_of_placed placed new).2
  have ne : ∀ {x : F}, next t i ≠ some x := fun {x} => by simp [blank]
  -- no other frame can have the new place: its parent would be `t`, and the entry was blank
  have vacant : ∀ {x}, place x ≠ some ⟨o, l, w * n + i⟩ := by
    intro x placed
    exact ne (forest.step table lt placed)
  refine ⟨?_, ?_, ?_, ?_, ?_⟩
  · intro x y p xEq yEq
    rcases update_eq_some.mp xEq with ⟨rfl, rfl⟩ | ⟨-, px⟩
    · rcases update_eq_some.mp yEq with ⟨rfl, -⟩ | ⟨-, py⟩
      · rfl
      · exact absurd py vacant
    · rcases update_eq_some.mp yEq with ⟨-, rfl⟩ | ⟨-, py⟩
      · exact absurd px vacant
      · exact forest.single px py
  · intro x o' l' n' j y xEq ltJ step
    rcases update_eq_some.mp xEq with ⟨rfl, isNew⟩ | ⟨-, placed⟩
    · cases isNew
      rw [clear (succ_pos _) j ltJ] at step
      cases step
    rcases others.back placed (succ_pos _) ltJ step with ⟨rfl, rfl⟩ | ⟨-, before⟩
    · cases table.symm.trans placed
      cases here.symm.trans step
      exact .inr (update_self ..)
    · exact (forest.down placed ltJ before).imp_right kept
  · intro x o' l' c' xEq
    rcases update_eq_some.mp xEq with ⟨rfl, isNew⟩ | ⟨-, placed⟩
    · cases isNew
      refine .inr ⟨forest.level_le table, t, ?_, ?_⟩
      · rw [div_number lt]
        exact kept table
      · rwa [mod_number lt]
    · refine (forest.up placed).imp_right fun ⟨below, parent, above, step⟩ => ⟨below, parent, kept above, ?_⟩
      exact others.step above (succ_pos _) (mod_lt _ pos) step ne
  · intro o' l' c' y isLink
    obtain ⟨parent, above, step⟩ := forest.linked isLink
    exact ⟨parent, kept above, others.step above (succ_pos _) (mod_lt _ pos) step ne⟩
  · intro o' l' c' y isLink
    exact (forest.target isLink).imp fun _ ⟨foreign, tall, placed⟩ => ⟨foreign, tall, kept placed⟩

theorem prune [DecidableEq F] (there : next t i = some f) (child : place f = some ⟨o, l, w * n + i⟩)
    (empty : 0 < l → ∀ j < w, next f j = none) (here : next' t i = none) (others : Writes w next next' place t i) :
    TableForest w next' (update place f none) link height := by
  have pos : 0 < w := zero_lt_of_lt lt
  have kept : ∀ {x p}, place x = some p → x ≠ f → update place f none x = some p :=
    fun placed ne => update_none_eq_some.mpr ⟨ne, placed⟩
  -- the frame was empty, so no step leaves it
  have stays : ∀ {x o' l' c' j y}, place x = some ⟨o', l' + 1, c'⟩ → j < w → next x j = some y → x ≠ f := by
    rintro x o' l' c' j y placed ltJ step rfl
    cases child.symm.trans placed
    rw [empty (succ_pos _) j ltJ] at step
    cases step
  refine ⟨fun xEq yEq => forest.single (update_none_eq_some.mp xEq).2 (update_none_eq_some.mp yEq).2, ?_, ?_, ?_, ?_⟩
  · intro x o' l' n' j y xEq ltJ step
    have placed := (update_none_eq_some.mp xEq).2
    rcases others.back placed (succ_pos _) ltJ step with ⟨rfl, rfl⟩ | ⟨other, before⟩
    · cases here.symm.trans step
    refine (forest.down placed ltJ before).imp_right fun lower => kept lower ?_
    rintro rfl
    rw [child, Option.some.injEq, TablePlace.mk.injEq] at lower
    obtain ⟨rfl, rfl, number⟩ := lower
    obtain ⟨rfl, rfl⟩ := number_inj lt ltJ number
    exact other ⟨forest.single placed table, rfl⟩
  · intro x o' l' c' xEq
    obtain ⟨ne, placed⟩ := update_none_eq_some.mp xEq
    refine (forest.up placed).imp_right fun ⟨below, parent, above, step⟩ => ⟨below, parent, ?_, ?_⟩
    · exact kept above (stays above (mod_lt _ pos) step)
    · exact others.step above (succ_pos _) (mod_lt _ pos) step (by rw [there]; simpa using ne.symm)
  · intro o' l' c' y isLink
    obtain ⟨parent, above, step⟩ := forest.linked isLink
    refine ⟨parent, kept above (stays above (mod_lt _ pos) step), ?_⟩
    refine others.step above (succ_pos _) (mod_lt _ pos) step ?_
    rw [there]
    simpa using (forest.link_ne_child table child isLink).symm
  · intro o' l' c' y isLink
    refine (forest.target isLink).imp fun _ ⟨foreign, tall, placed⟩ => ⟨foreign, tall, kept placed ?_⟩
    exact forest.link_ne_child table child isLink

theorem attach (blank : next t i = none) {o' : O} (foreign : o' ≠ o) (tall : height o' = l)
    (isRoot : place g = some ⟨o', l, 0⟩) (here : next' t i = some g) (others : Writes w next next' place t i)
    (links : ∀ p k c x, link' p k c x ↔ link p k c x ∨ (p = o ∧ k = l ∧ c = w * n + i ∧ x = g)) :
    TableForest w next' place link' height := by
  have pos : 0 < w := zero_lt_of_lt lt
  have ne : ∀ {x : F}, next t i ≠ some x := fun {x} => by simp [blank]
  refine ⟨forest.single, ?_, ?_, ?_, ?_⟩
  · intro x p k m j y placed ltJ step
    rcases others.back placed (succ_pos _) ltJ step with ⟨rfl, rfl⟩ | ⟨-, before⟩
    · cases table.symm.trans placed
      cases here.symm.trans step
      exact .inl ((links _ _ _ _).mpr (.inr ⟨rfl, rfl, rfl, rfl⟩))
    · exact (forest.down placed ltJ before).imp_left fun isLink => (links _ _ _ _).mpr (.inl isLink)
  · intro x p k c placed
    refine (forest.up placed).imp_right fun ⟨below, parent, above, step⟩ => ⟨below, parent, above, ?_⟩
    exact others.step above (succ_pos _) (mod_lt _ pos) step ne
  · intro p k c x isLink
    rcases (links _ _ _ _).mp isLink with old | ⟨rfl, rfl, rfl, rfl⟩
    · obtain ⟨parent, above, step⟩ := forest.linked old
      exact ⟨parent, above, others.step above (succ_pos _) (mod_lt _ pos) step ne⟩
    · exact ⟨t, by rwa [div_number lt], by rwa [mod_number lt]⟩
  · intro p k c x isLink
    rcases (links _ _ _ _).mp isLink with old | ⟨rfl, rfl, rfl, rfl⟩
    · exact forest.target old
    · exact ⟨o', foreign, tall, isRoot⟩

theorem detach (there : next t i = some g) (isLink : link o l (w * n + i) g) (here : next' t i = none)
    (others : Writes w next next' place t i)
    (links : ∀ p k c x, link' p k c x ↔ link p k c x ∧ ¬ (p = o ∧ k = l ∧ c = w * n + i)) :
    TableForest w next' place link' height := by
  have pos : 0 < w := zero_lt_of_lt lt
  refine ⟨forest.single, ?_, ?_, ?_, fun old => forest.target ((links _ _ _ _).mp old).1⟩
  · intro x p k m j y placed ltJ step
    rcases others.back placed (succ_pos _) ltJ step with ⟨rfl, rfl⟩ | ⟨other, before⟩
    · cases here.symm.trans step
    refine (forest.down placed ltJ before).imp_left fun old => (links _ _ _ _).mpr ⟨old, ?_⟩
    rintro ⟨rfl, rfl, number⟩
    obtain ⟨rfl, rfl⟩ := number_inj ltJ lt number
    exact other ⟨forest.single placed table, rfl⟩
  · intro x p k c placed
    refine (forest.up placed).imp_right fun ⟨below, parent, above, step⟩ => ⟨below, parent, above, ?_⟩
    by_cases same : parent = t ∧ c % w = i
    · -- the frame behind the entry is the root of another tree
      obtain ⟨rfl, index⟩ := same
      rw [index, there, Option.some.injEq] at step
      subst step
      cases table.symm.trans above
      exact absurd isLink (forest.not_link_of_placed placed)
    · rw [others parent _ above (succ_pos _) _ (mod_lt _ pos) (by tauto), step]
  · intro p k c x old
    obtain ⟨isOld, away⟩ := (links _ _ _ _).mp old
    obtain ⟨parent, above, step⟩ := forest.linked isOld
    refine ⟨parent, above, ?_⟩
    rw [others parent _ above (succ_pos _) _ (mod_lt _ pos) ?_, step]
    by_contra same
    push Not at same
    obtain ⟨rfl, rfl⟩ := same
    cases table.symm.trans above
    exact away ⟨rfl, rfl, (Nat.div_add_mod ..).symm⟩

end

theorem plant [DecidableEq F] [DecidableEq O] (forest : TableForest w next place link height) (new : place f = none)
    (fresh : ∀ x p, place x = some p → p.owner ≠ o) {h : Nat} (clear : 0 < h → ∀ j < w, next f j = none) :
    TableForest w next (update place f (some ⟨o, h, 0⟩)) link (update height o h) := by
  have kept : ∀ {x p}, place x = some p → update place f (some ⟨o, h, 0⟩) x = some p :=
    fun placed => (update_of_placed placed new).2
  have other : ∀ {x p}, update place f (some ⟨o, h, 0⟩) x = some p →
      (x = f ∧ (⟨o, h, 0⟩ : TablePlace O) = p) ∨ (p.owner ≠ o ∧ place x = some p) :=
    fun {x p} placed => (update_eq_some.mp placed).imp_right fun ⟨_, before⟩ => ⟨fresh x p before, before⟩
  refine ⟨?_, ?_, ?_, ?_, ?_⟩
  · intro x y p xEq yEq
    rcases other xEq with ⟨rfl, rfl⟩ | ⟨foreign, px⟩
    · rcases other yEq with ⟨same, -⟩ | ⟨foreign, -⟩
      · exact same.symm
      · exact absurd rfl foreign
    · rcases other yEq with ⟨-, rfl⟩ | ⟨-, py⟩
      · exact absurd rfl foreign
      · exact forest.single px py
  · intro x p k m j y xEq ltJ step
    rcases other xEq with ⟨rfl, place⟩ | ⟨-, placed⟩
    · cases place
      rw [clear (succ_pos _) j ltJ] at step
      cases step
    · exact (forest.down placed ltJ step).imp_right kept
  · intro x p k c xEq
    rcases other xEq with ⟨rfl, place⟩ | ⟨foreign, placed⟩
    · cases place
      rw [update_self]
      exact .inl ⟨rfl, rfl⟩
    · rw [update_of_ne foreign]
      exact (forest.up placed).imp_right fun ⟨below, parent, above, step⟩ => ⟨below, parent, kept above, step⟩
  · intro p k c x isLink
    exact (forest.linked isLink).imp fun _ ⟨above, step⟩ => ⟨kept above, step⟩
  intro p k c x isLink
  obtain ⟨p', foreign, tall, placed⟩ := forest.target isLink
  refine ⟨p', foreign, ?_, kept placed⟩
  rwa [update_of_ne (fresh x _ placed)]

theorem fell (forest : TableForest w next place link height) {place' : F → Option (TablePlace O)}
    (rest : ∀ x p, place' x = some p ↔ place x = some p ∧ p.owner ≠ o) (outward : ∀ k c x, ¬ link o k c x)
    (inward : ∀ p k c x, link p k c x → ∀ q, place x = some q → q.owner ≠ o) :
    TableForest w next place' link height := by
  have old : ∀ {x p}, place' x = some p → place x = some p := fun placed => ((rest _ _).mp placed).1
  have kept : ∀ {x p}, place x = some p → p.owner ≠ o → place' x = some p :=
    fun placed ne => (rest _ _).mpr ⟨placed, ne⟩
  refine ⟨fun xEq yEq => forest.single (old xEq) (old yEq), ?_, ?_, ?_, ?_⟩
  · intro x p k m j y xEq ltJ step
    obtain ⟨placed, foreign⟩ := (rest _ _).mp xEq
    exact (forest.down placed ltJ step).imp_right fun lower => kept lower foreign
  · intro x p k c xEq
    obtain ⟨placed, foreign⟩ := (rest _ _).mp xEq
    exact (forest.up placed).imp_right fun ⟨below, parent, above, step⟩ => ⟨below, parent, kept above foreign, step⟩
  · intro p k c x isLink
    obtain ⟨parent, above, step⟩ := forest.linked isLink
    refine ⟨parent, kept above ?_, step⟩
    rintro rfl
    exact outward _ _ _ isLink
  · intro p k c x isLink
    obtain ⟨p', foreign, tall, placed⟩ := forest.target isLink
    exact ⟨p', foreign, tall, kept placed (inward _ _ _ _ isLink _ placed)⟩

/-! ## Walks -/

/-- `d` steps down from a table, along the digits of `n` in base `w`. -/
def descend (w : Nat) (next : F → Nat → Option F) : Nat → F → Nat → Option F
  | 0, t, _ => some t
  | d + 1, t, n => (next t (n / w ^ d % w)).bind fun f => descend w next d f n

theorem descend_succ (w : Nat) (next : F → Nat → Option F) (d : Nat) (t : F) (n : Nat) :
    descend w next (d + 1) t n = (next t (n / w ^ d % w)).bind fun f => descend w next d f n := rfl

variable (forest : TableForest w next place link height)

include forest

theorem descend_placed (isRoot : place root = some ⟨o, height o, 0⟩)
    (placed : place t = some ⟨o, k, n / w ^ k⟩) : descend w next (height o) root n = descend w next k t n := by
  -- by induction on the distance to the root: the parent is placed at the number as well
  obtain ⟨d, dEq⟩ : ∃ d, height o = k + d := ⟨height o - k, by have := forest.level_le placed; omega⟩
  induction d generalizing k t with
  | zero =>
    obtain rfl : height o = k := dEq
    rw [forest.root_number placed] at placed
    rw [forest.single placed isRoot]
  | succ d ih =>
    rcases forest.up placed with ⟨top, -⟩ | ⟨-, parent, above, step⟩
    · omega
    · rw [div_div_eq_div_mul, ← pow_succ] at above
      rw [ih above (by omega), descend_succ, step]
      rfl

theorem descend_link (isRoot : place root = some ⟨o, height o, 0⟩)
    (isLink : link o l (n / w ^ l) g) : descend w next (height o) root n = descend w next l g n := by
  obtain ⟨parent, above, step⟩ := forest.linked isLink
  rw [div_div_eq_div_mul, ← pow_succ] at above
  rw [forest.descend_placed isRoot above, descend_succ, step]
  rfl

theorem descend_unlinked (pos : 0 < w)
    (unlinked : ∀ k x, ¬ link o k (n / w ^ k) x) (leafless : ∀ x c, place x ≠ some ⟨o, 0, c⟩)
    (placed : place t = some ⟨o, k, n / w ^ k⟩) : descend w next k t n = none := by
  induction k generalizing t with
  | zero => exact absurd placed (leafless _ _)
  | succ k ih =>
    rw [descend_succ]
    cases step : next t (n / w ^ k % w) with
    | none => rfl
    | some f =>
      have lower := forest.down placed (mod_lt _ pos) step
      have number : w * (n / w ^ (k + 1)) + n / w ^ k % w = n / w ^ k := by
        rw [pow_succ, ← div_div_eq_div_mul, Nat.div_add_mod]
      rw [number] at lower
      rcases lower with isLink | child
      · exact absurd isLink (unlinked k f)
      · exact ih child

/-! ## Subtrees -/

/-- The frames below the number `n` of level `l`, that frame included. -/
def Below (w : Nat) (place : F → Option (TablePlace O)) (o : O) (l n : Nat) (f : F) : Prop :=
  ∃ k c, place f = some ⟨o, k, c⟩ ∧ k ≤ l ∧ c / w ^ (l - k) = n

theorem ancestor (placed : place f = some ⟨o, k, c⟩)
    (le : k ≤ l) (top : l ≤ height o) : ∃ t, place t = some ⟨o, l, c / w ^ (l - k)⟩ := by
  obtain ⟨d, rfl⟩ := Nat.exists_eq_add_of_le le
  rw [Nat.add_sub_cancel_left]
  induction d with
  | zero => exact ⟨f, by simpa using placed⟩
  | succ d ih =>
    obtain ⟨t, table⟩ := ih (by omega) (by omega)
    rcases forest.up table with ⟨isTop, -⟩ | ⟨-, parent, above, -⟩
    · omega
    · rw [div_div_eq_div_mul, ← pow_succ] at above
      exact ⟨parent, above⟩

theorem below_root (placed : place f = some ⟨o, k, c⟩) : Below w place o (height o) 0 f := by
  have le := forest.level_le placed
  obtain ⟨root, top⟩ := forest.ancestor placed le (le_refl _)
  exact ⟨k, c, placed, le, forest.root_number top⟩

theorem below_succ (pos : 0 < w) (table : place t = some ⟨o, l + 1, n⟩) :
    Below w place o (l + 1) n f ↔ f = t ∨ ∃ i < w, Below w place o l (w * n + i) f := by
  constructor
  · rintro ⟨k, c, placed, le, number⟩
    rcases Nat.lt_or_ge l k with above | inside
    · obtain rfl : k = l + 1 := by omega
      rw [Nat.sub_self, pow_zero, Nat.div_one] at number
      subst number
      exact .inl (forest.single placed table)
    · refine .inr ⟨c / w ^ (l - k) % w, mod_lt _ pos, k, c, placed, inside, ?_⟩
      rw [Nat.succ_sub inside, pow_succ, ← div_div_eq_div_mul] at number
      rw [← number, Nat.div_add_mod]
  · rintro (rfl | ⟨i, lt, k, c, placed, le, number⟩)
    · exact ⟨l + 1, n, table, le_refl _, by simp⟩
    · refine ⟨k, c, placed, by omega, ?_⟩
      rw [Nat.succ_sub le, pow_succ, ← div_div_eq_div_mul, number, div_number lt]

theorem not_below (table : place t = some ⟨o, l + 1, n⟩) (lt : i < w)
    (away : ∀ x, next t i = some x → place x ≠ some ⟨o, l, w * n + i⟩) : ¬ Below w place o l (w * n + i) f := by
  rintro ⟨k, c, placed, le, number⟩
  have tall := forest.level_le table
  obtain ⟨x, lower⟩ := forest.ancestor placed le (by omega)
  rw [number] at lower
  exact away x (forest.step table lt lower) lower

omit forest in
theorem below_number (one : Below w place o l n f) (two : Below w place o l m f) : n = m := by
  obtain ⟨k, c, placed, -, rfl⟩ := one
  obtain ⟨k', c', placed', -, rfl⟩ := two
  cases placed.symm.trans placed'
  rfl

end TableForest

end MeowOs.Machine
