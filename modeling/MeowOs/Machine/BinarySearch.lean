import Mathlib

/-! # Binary search

The search of the standard library over a list that is sorted by a three-way
comparison, and the insertion at the place it finds.  `insertSearched_sorted`
says that a sorted list stays sorted, `mem_insertSearched` that nothing else
changes; sortedness is the whole precondition.
-/

namespace MeowOs.Machine

variable {α : Type}

/-- The loop of `binary_search_by`: `base` and `size` delimit what is left. -/
def searchLoop (cmp : α → Ordering) (l : List α) : Nat → Nat → Nat → Nat
  | 0, base, _ => base
  | fuel + 1, base, size =>
    if size ≤ 1 then base
    else
      let half := size / 2
      let mid := base + half
      let greater := (l[mid]?).any fun a => cmp a == .gt
      searchLoop cmp l fuel (if greater then base else mid) (size - half)

/-- `binary_search(..).unwrap_or_else(|e| e)`: where the element is, or else where it belongs. -/
def searchPosition (cmp : α → Ordering) (l : List α) : Nat :=
  match l[searchLoop cmp l l.length 0 l.length]? with
  | none => 0
  | some a =>
    let base := searchLoop cmp l l.length 0 l.length
    if cmp a = .lt then base + 1 else base

/-- `binary_search_by`: where an equal element is, or else where one belongs. -/
def binarySearch (cmp : α → Ordering) (l : List α) : Except Nat Nat :=
  let base := searchLoop cmp l l.length 0 l.length
  match l[base]? with
  | none => .error 0
  | some a =>
    match cmp a with
    | .eq => .ok base
    | .lt => .error (base + 1)
    | .gt => .error base

def insertSearched (cmp : α → α → Ordering) (l : List α) (a : α) : List α :=
  let pos := searchPosition (fun b => cmp b a) l
  l.take pos ++ a :: l.drop pos

/-! ## What the search finds -/

/-- The list splits at `pos`: nothing greater before it, nothing smaller from it on. -/
structure SplitsAt (cmp : α → Ordering) (l : List α) (pos : Nat) : Prop where
  le_length : pos ≤ l.length
  before : ∀ i a, l[i]? = some a → i < pos → cmp a ≠ .gt
  after : ∀ i a, l[i]? = some a → pos ≤ i → cmp a ≠ .lt

/-- Along the list the comparison goes from smaller over equal to greater. -/
structure Ascends (cmp : α → Ordering) (l : List α) : Prop where
  gt : ∀ (i j : Nat) (a b : α), l[i]? = some a → l[j]? = some b → i ≤ j → cmp a = .gt → cmp b = .gt
  lt : ∀ (i j : Nat) (a b : α), l[i]? = some a → l[j]? = some b → i ≤ j → cmp b = .lt → cmp a = .lt

/-- The part that is left holds the boundary: nothing before it is greater, and everything behind it is. -/
structure Encloses (cmp : α → Ordering) (l : List α) (base size : Nat) : Prop where
  inside : base + size ≤ l.length
  before : ∀ i a, l[i]? = some a → i < base → cmp a ≠ .gt
  behind : ∀ i a, l[i]? = some a → base + size ≤ i → cmp a = .gt

variable {cmp : α → Ordering} {l : List α} {pos : Nat}

theorem searchLoop_encloses (ascends : Ascends cmp l) {fuel base size : Nat}
    (positive : 0 < size) (enough : size ≤ fuel + 1) (encloses : Encloses cmp l base size) :
    Encloses cmp l (searchLoop cmp l fuel base size) 1 := by
  induction fuel generalizing base size with
  | zero =>
    obtain rfl : size = 1 := by omega
    exact encloses
  | succ fuel ih =>
    simp only [searchLoop]
    split
    · obtain rfl : size = 1 := by omega
      exact encloses
    have inside := encloses.inside
    obtain ⟨m, here⟩ : ∃ m, l[base + size / 2]? = some m :=
      ⟨_, List.getElem?_eq_getElem (show base + size / 2 < l.length by omega)⟩
    rw [here]
    simp only [Option.any_some, beq_iff_eq]
    split
    next greater =>
      refine ih (by omega) (by omega) ⟨by omega, encloses.before, fun i a there le => ?_⟩
      by_cases low : i < base + size
      · exact ascends.gt _ i m a here there (by omega) greater
      · exact encloses.behind i a there (by omega)
    next notGreater =>
      refine ih (by omega) (by omega) ⟨by omega, fun i a there lt greater => ?_, fun i a there le => ?_⟩
      · exact notGreater (ascends.gt i _ a m there here (by omega) greater)
      · exact encloses.behind i a there (by omega)

theorem search_encloses (ascends : Ascends cmp l) (positive : 0 < l.length) :
    Encloses cmp l (searchLoop cmp l l.length 0 l.length) 1 := by
  refine searchLoop_encloses ascends positive (by omega) ⟨by omega, fun i a _ lt => absurd lt (by omega), ?_⟩
  intro i a there le
  rw [List.getElem?_eq_none (by omega)] at there
  cases there

theorem searchPosition_splits (ascends : Ascends cmp l) : SplitsAt cmp l (searchPosition cmp l) := by
  cases empty : l with
  | nil => exact ⟨Nat.le_refl 0, fun i a there => by simp at there, fun i a there => by simp at there⟩
  | cons first rest =>
    rw [← empty]
    have positive : 0 < l.length := by simp [empty]
    have found := search_encloses ascends positive
    have inside := found.inside
    obtain ⟨m, here⟩ : ∃ m, l[searchLoop cmp l l.length 0 l.length]? = some m :=
      ⟨_, List.getElem?_eq_getElem (show _ < l.length by omega)⟩
    simp only [searchPosition, here]
    split
    next less =>
      refine ⟨by omega, fun i a there lt greater => ?_, fun i a there le => ?_⟩
      · have := ascends.gt i _ a m there here (by omega) greater
        rw [less] at this
        cases this
      · rw [found.behind i a there (by omega)]
        decide
    next notLess =>
      exact ⟨by omega, found.before, fun i a there le less => notLess (ascends.lt _ i m a here there le less)⟩

theorem binarySearch_ok (found : binarySearch cmp l = .ok pos) : ∃ a, l[pos]? = some a ∧ cmp a = .eq := by
  simp only [binarySearch] at found
  split at found
  next => cases found
  next a here =>
  split at found
  next equal =>
    cases found
    exact ⟨a, here, equal⟩
  next => cases found
  next => cases found

theorem binarySearch_error (missing : binarySearch cmp l = .error pos) : pos = searchPosition cmp l := by
  simp only [binarySearch] at missing
  simp only [searchPosition]
  split at missing
  · cases missing
    rfl
  split at missing
  next => cases missing
  next less =>
    cases missing
    rw [if_pos less]
  next greater =>
    cases missing
    rw [if_neg (by rw [greater]; decide)]

theorem searchLoop_not_gt (fuel base size : Nat) (low : base = 0 ∨ ∀ a, l[base]? = some a → cmp a ≠ .gt) :
    searchLoop cmp l fuel base size = 0 ∨ ∀ a, l[searchLoop cmp l fuel base size]? = some a → cmp a ≠ .gt := by
  induction fuel generalizing base size with
  | zero => exact low
  | succ fuel ih =>
    simp only [searchLoop]
    split
    · exact low
    refine ih _ _ ?_
    split
    · exact low
    next notGreater =>
    refine .inr fun a here greater => notGreater ?_
    rw [here, Option.any_some, greater]
    rfl

theorem binarySearch_missing (ascends : Ascends cmp l)
    (missing : binarySearch cmp l = .error pos) : SplitsAt cmp l pos ∧ ∀ a ∈ l, cmp a ≠ .eq := by
  refine ⟨binarySearch_error missing ▸ searchPosition_splits ascends, fun a member equal => ?_⟩
  obtain ⟨i, there⟩ := List.mem_iff_getElem?.mp member
  have inside : i < l.length := (List.getElem?_eq_some_iff.mp there).1
  have found := search_encloses ascends (by omega)
  have start := searchLoop_not_gt l.length 0 l.length (.inl rfl : 0 = 0 ∨ ∀ a, l[0]? = some a → cmp a ≠ .gt)
  simp only [binarySearch] at missing
  generalize searchLoop cmp l l.length 0 l.length = base at found start missing
  have bounded := found.inside
  obtain ⟨m, here⟩ : ∃ m, l[base]? = some m := ⟨_, List.getElem?_eq_getElem (show base < l.length by omega)⟩
  rw [here] at missing
  -- the equal element is not behind the place the loop stops at, and what stands there is not equal
  have before : i ≤ base := by
    by_contra behind
    rw [found.behind i a there (by omega)] at equal
    cases equal
  cases order : cmp m with
  | eq =>
    simp only [order] at missing
    cases missing
  | lt =>
    rw [ascends.lt i base a m there here before order] at equal
    cases equal
  | gt =>
    obtain rfl | low := start
    · obtain rfl : i = 0 := by omega
      cases there.symm.trans here
      rw [order] at equal
      cases equal
    · exact low m here order

theorem SplitsAt.take (splits : SplitsAt cmp l pos) {x : α} (member : x ∈ l.take pos) : cmp x ≠ .gt := by
  obtain ⟨i, there⟩ := List.mem_iff_getElem?.mp member
  rw [List.getElem?_take] at there
  split at there
  next lt => exact splits.before i x there lt
  next => cases there

theorem SplitsAt.drop (splits : SplitsAt cmp l pos) {x : α} (member : x ∈ l.drop pos) : cmp x ≠ .lt := by
  obtain ⟨i, there⟩ := List.mem_iff_getElem?.mp member
  rw [List.getElem?_drop] at there
  exact splits.after _ x there (Nat.le_add_right pos i)

theorem pairwise_insert {R : α → α → Prop} {a : α} (trans : ∀ {x y z}, R x y → R y z → R x z) (pairwise : l.Pairwise R)
    (lower : ∀ x ∈ l.take pos, R x a) (upper : ∀ x ∈ l.drop pos, R a x) :
    (l.take pos ++ a :: l.drop pos).Pairwise R := by
  refine List.pairwise_append.mpr ⟨pairwise.sublist (List.take_sublist pos l),
    List.pairwise_cons.mpr ⟨upper, pairwise.sublist (List.drop_sublist pos l)⟩, fun x low y high => ?_⟩
  obtain rfl | high := List.mem_cons.mp high
  · exact lower x low
  · exact trans (lower x low) (upper y high)

/-! ## Lists that are sorted by a key -/

section Keyed

variable {β : Type} [LinearOrder β] {key : α → β} {cmp : α → α → Ordering}

def SortedBy (key : α → β) (l : List α) : Prop := l.Pairwise fun a b => key a ≤ key b

variable {l : List α} {a : α}

theorem SortedBy.le_of_getElem? (sorted : SortedBy key l) {i j : Nat} {b : α} (aEq : l[i]? = some a)
    (bEq : l[j]? = some b) (le : i ≤ j) : key a ≤ key b := by
  obtain ⟨iLt, rfl⟩ := List.getElem?_eq_some_iff.mp aEq
  obtain ⟨jLt, rfl⟩ := List.getElem?_eq_some_iff.mp bEq
  obtain rfl | lt := Nat.eq_or_lt_of_le le
  · exact le_refl _
  · exact List.pairwise_iff_getElem.mp sorted i j iLt jLt lt

theorem SortedBy.ascends_key (sorted : SortedBy key l) (k : β) : Ascends (fun b => compare (key b) k) l where
  gt i j x y xEq yEq le greater := by
    simp only [compare_gt_iff_gt] at greater ⊢
    exact lt_of_lt_of_le greater (sorted.le_of_getElem? xEq yEq le)
  lt i j x y xEq yEq le less := by
    simp only [compare_lt_iff_lt] at less ⊢
    exact lt_of_le_of_lt (sorted.le_of_getElem? xEq yEq le) less

theorem insertSearched_sorted (agrees : ∀ x y, cmp x y = compare (key x) (key y))
    (sorted : SortedBy key l) (a : α) : SortedBy key (insertSearched cmp l a) := by
  have ascends : Ascends (fun b => cmp b a) l := by
    simp only [agrees]
    exact sorted.ascends_key (key a)
  have splits := searchPosition_splits ascends
  refine pairwise_insert le_trans sorted (fun x member => ?_) fun x member => ?_
  · have order := splits.take member
    rwa [agrees, Ne, compare_gt_iff_gt, not_lt] at order
  · have order := splits.drop member
    rwa [agrees, Ne, compare_lt_iff_lt, not_lt] at order

theorem SortedBy.append_singleton (sorted : SortedBy key l) (last : ∀ b ∈ l, key b ≤ key a) :
    SortedBy key (l ++ [a]) := by
  refine List.pairwise_append.mpr ⟨sorted, List.pairwise_singleton _ _, fun b member c other => ?_⟩
  obtain rfl := List.mem_singleton.mp other
  exact last b member

theorem insertSearched_perm (cmp : α → α → Ordering) (l : List α) (a : α) : (insertSearched cmp l a).Perm (a :: l) := by
  refine List.perm_middle.trans (List.Perm.cons a ?_)
  rw [List.take_append_drop]

theorem mem_insertSearched {x : α} : x ∈ insertSearched cmp l a ↔ x = a ∨ x ∈ l := by
  rw [(insertSearched_perm cmp l a).mem_iff, List.mem_cons]

theorem SortedBy.le_of_find? (sorted : SortedBy key l) {p : α → Bool} {b : α} (found : l.find? p = some a)
    (member : b ∈ l) (passes : p b = true) : key a ≤ key b := by
  induction l with
  | nil => cases member
  | cons x l ih =>
    obtain ⟨below, rest⟩ := List.pairwise_cons.mp sorted
    cases test : p x with
    | true =>
      rw [List.find?_cons_of_pos test] at found
      cases found
      obtain rfl | member := List.mem_cons.mp member
      · exact le_refl _
      · exact below b member
    | false =>
      rw [List.find?_cons_of_neg (by simp [test])] at found
      obtain rfl | member := List.mem_cons.mp member
      · rw [test] at passes
        cases passes
      · exact ih rest found member

end Keyed

end MeowOs.Machine
