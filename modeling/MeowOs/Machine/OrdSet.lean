import Mathlib

/-! # Ordered sets

A set of elements that are compared by a key only, kept in the order of their
keys: what a B-tree set is to its users.  Two elements with the same key are the
same element to the set: `insert` keeps the one that is there.
-/

namespace MeowOs.Machine

open List (mem_append mem_cons mem_filter)

/-- Elements in the order of their keys, no key twice. -/
structure OrdSet {α κ : Type} [LinearOrder κ] (key : α → κ) where
  elems : List α
  sorted : elems.Pairwise fun a b => key a < key b

namespace OrdSet

variable {α κ : Type} [LinearOrder κ] {key : α → κ} {s : OrdSet key} {x y : α} {k : κ} {p : α → Bool}

instance : Membership α (OrdSet key) := ⟨fun s x => x ∈ s.elems⟩

theorem mem_elems : x ∈ s.elems ↔ x ∈ s := Iff.rfl

def empty : OrdSet key := ⟨[], .nil⟩

theorem not_mem_empty : x ∉ (empty : OrdSet key) := nofun

def get (s : OrdSet key) (k : κ) : Option α := s.elems.find? fun y => key y = k

def remove (s : OrdSet key) (k : κ) : OrdSet key :=
  ⟨s.elems.filter fun y => key y ≠ k, s.sorted.filter _⟩

/-- Insert `x`, unless there is an element with its key. -/
def insert (s : OrdSet key) (x : α) : OrdSet key :=
  if (s.get (key x)).isSome then s
  else
    { elems := s.elems.filter (fun y => key y < key x) ++ x :: s.elems.filter fun y => key x < key y
      sorted := by
        refine List.pairwise_append.mpr ⟨s.sorted.filter _, List.pairwise_cons.mpr ⟨?_, s.sorted.filter _⟩, ?_⟩
        · intro b mem
          simpa using (mem_filter.mp mem).2
        intro a memA b memB
        have below : key a < key x := by simpa using (mem_filter.mp memA).2
        cases mem_cons.mp memB with
        | inl eq => rwa [eq]
        | inr memB => exact lt_trans below (by simpa using (mem_filter.mp memB).2) }

/-- `range(k..).next()`. -/
def firstFrom (s : OrdSet key) (k : κ) : Option α := s.elems.find? fun y => k ≤ key y

def lastWith (s : OrdSet key) (p : α → Bool) : Option α := (s.elems.filter p).getLast?

/-- `range(..k).next_back()`. -/
def lastBelow (s : OrdSet key) (k : κ) : Option α := s.lastWith fun y => key y < k

/-- `range(..=k).next_back()`. -/
def lastUpTo (s : OrdSet key) (k : κ) : Option α := s.lastWith fun y => key y ≤ k

theorem eq_of_key (memX : x ∈ s) (memY : y ∈ s) (same : key x = key y) : x = y := by
  obtain ⟨before, after, split⟩ := List.append_of_mem memX
  have sorted := s.sorted
  have memY : y ∈ s.elems := memY
  rw [split] at sorted memY
  obtain ⟨-, sortedTail, sortedSeam⟩ := List.pairwise_append.mp sorted
  rcases mem_append.mp memY with inBefore | inTail
  · have lt := sortedSeam y inBefore x (.head _)
    rw [same] at lt
    exact absurd lt (lt_irrefl _)
  cases mem_cons.mp inTail with
  | inl eq => exact eq.symm
  | inr inAfter =>
    have lt := (List.pairwise_cons.mp sortedTail).1 y inAfter
    rw [same] at lt
    exact absurd lt (lt_irrefl _)

theorem get_eq_some : s.get k = some x ↔ x ∈ s ∧ key x = k := by
  constructor
  · intro found
    exact ⟨List.mem_of_find?_eq_some found, by simpa using List.find?_some found⟩
  rintro ⟨mem, rfl⟩
  cases found : s.get (key x) with
  | none => exact absurd (decide_eq_true rfl) (List.find?_eq_none.mp found x mem)
  | some y =>
    have memY : y ∈ s := List.mem_of_find?_eq_some found
    have same : key y = key x := by simpa using List.find?_some found
    rw [eq_of_key memY mem same]

theorem get_eq_none : s.get k = none ↔ ∀ x ∈ s, key x ≠ k := by
  unfold get
  rw [List.find?_eq_none]
  simp only [decide_eq_true_eq]
  rfl

theorem mem_remove : x ∈ s.remove k ↔ x ∈ s ∧ key x ≠ k := by
  unfold remove
  rw [← mem_elems, mem_filter]
  simp only [decide_eq_true_eq]
  rfl

theorem mem_insert_of_fresh (fresh : ∀ y ∈ s, key y ≠ key x) : y ∈ s.insert x ↔ y = x ∨ y ∈ s := by
  have none : (s.get (key x)).isSome = false := by rw [get_eq_none.mpr fresh]; rfl
  unfold insert
  rw [if_neg (by simp [none])]
  rw [← mem_elems, mem_append, mem_cons, mem_filter, mem_filter]
  simp only [decide_eq_true_eq]
  constructor
  · rintro (⟨mem, -⟩ | eq | ⟨mem, -⟩)
    · exact .inr mem
    · exact .inl eq
    · exact .inr mem
  · rintro (eq | mem)
    · exact .inr (.inl eq)
    · cases lt_or_gt_of_ne (fresh y mem) with
      | inl lt => exact .inl ⟨mem, lt⟩
      | inr gt => exact .inr (.inr ⟨mem, gt⟩)

theorem firstFrom_eq_some (found : s.firstFrom k = some x) : x ∈ s ∧ k ≤ key x :=
  ⟨List.mem_of_find?_eq_some found, by simpa using List.find?_some found⟩

theorem lastWith_eq_some (found : s.lastWith p = some x) :
    x ∈ s ∧ p x = true ∧ ∀ y ∈ s, p y = true → key y ≤ key x := by
  obtain ⟨front, split⟩ := List.getLast?_eq_some_iff.mp found
  have inFilter : x ∈ s.elems.filter p := by simp [split]
  refine ⟨(mem_filter.mp inFilter).1, (mem_filter.mp inFilter).2, ?_⟩
  intro y memY passes
  have sorted := s.sorted.filter p
  have inFilterY : y ∈ s.elems.filter p := mem_filter.mpr ⟨memY, passes⟩
  rw [split] at sorted inFilterY
  cases mem_append.mp inFilterY with
  | inl inFront => exact le_of_lt ((List.pairwise_append.mp sorted).2.2 y inFront x (by simp))
  | inr isLast => exact le_of_eq (by rw [List.mem_singleton.mp isLast])

theorem lastWith_eq_none (none : s.lastWith p = none) : ∀ y ∈ s, p y = false := by
  intro y mem
  have empty : s.elems.filter p = [] := List.getLast?_eq_none_iff.mp none
  simpa using List.filter_eq_nil_iff.mp empty y mem

end OrdSet

end MeowOs.Machine
