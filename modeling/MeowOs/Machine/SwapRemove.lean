import Mathlib.Data.List.Perm.Basic

/-! # Removal without shifting

`Vec::swap_remove` fills the hole with the last element.  Up to the order of the
rest it removes one element, so whatever only counts elements does not see the
difference.
-/

namespace MeowOs.Machine

variable {α : Type}

/-- `l.swap_remove(index)`, without the element it returns. -/
def swapRemove (l : List α) (index : Nat) : List α :=
  match l.getLast? with
  | none => l
  | some last => (l.set index last).dropLast

/-- The first element that passes the test is removed, if there is one. -/
def swapRemoveFirst (test : α → Bool) (l : List α) : List α :=
  match l.findIdx? test with
  | none => l
  | some index => swapRemove l index

theorem swapRemove_perm {l : List α} {index : Nat} (inside : index < l.length) :
    (swapRemove l index).Perm (l.eraseIdx index) := by
  rcases List.eq_nil_or_concat l with rfl | ⟨front, last, rfl⟩
  · exact absurd inside (Nat.not_lt_zero index)
  rw [List.concat_eq_append] at inside ⊢
  simp only [swapRemove, List.getLast?_concat]
  rw [List.length_append, List.length_singleton] at inside
  obtain low | rfl : index < front.length ∨ index = front.length := by omega
  · -- the last element stands where the removed one was
    rw [List.set_append_left _ _ low, List.dropLast_concat, List.eraseIdx_append_of_lt_length low]
    have placed : index < (front.set index last).length := by rwa [List.length_set]
    have split := List.getElem_cons_eraseIdx_perm placed
    rw [List.getElem_set_self, List.eraseIdx_set_eq] at split
    exact split.symm.trans (List.perm_append_singleton last _).symm
  · rw [List.set_append_right _ _ (Nat.le_refl _), List.eraseIdx_append_of_length_le (Nat.le_refl _), Nat.sub_self]
    simp

theorem swapRemove_perm_cons {l : List α} {index : Nat} {a : α} (found : l[index]? = some a) :
    l.Perm (a :: swapRemove l index) := by
  obtain ⟨inside, rfl⟩ := List.getElem?_eq_some_iff.mp found
  exact (List.getElem_cons_eraseIdx_perm inside).symm.trans ((swapRemove_perm inside).symm.cons _)

theorem swapRemoveFirst_perm (test : α → Bool) (l : List α) : (swapRemoveFirst test l).Perm (l.eraseP test) := by
  rw [swapRemoveFirst, List.eraseP_eq_eraseIdx]
  cases found : l.findIdx? test with
  | none => exact List.Perm.refl l
  | some index =>
    obtain ⟨inside, -⟩ := List.findIdx?_eq_some_iff_getElem.mp found
    exact swapRemove_perm inside

theorem count_map_swapRemoveFirst {κ : Type} [DecidableEq κ] (key : α → κ) (wanted k : κ) (l : List α) :
    ((swapRemoveFirst (fun a => key a == wanted) l).map key).count k =
      (l.map key).count k - if wanted = k then 1 else 0 := by
  rw [((swapRemoveFirst_perm _ l).map key).count_eq]
  induction l with
  | nil => simp
  | cons first rest ih =>
    rw [List.eraseP_cons]
    by_cases here : key first = wanted
    · subst here
      simp only [beq_self_eq_true, cond_true, List.map_cons, List.count_cons, beq_iff_eq]
      split
      · omega
      · omega
    · simp only [beq_eq_false_iff_ne.mpr here, cond_false, List.map_cons, List.count_cons, ih, beq_iff_eq]
      by_cases other : key first = k
      · have different : wanted ≠ k := fun same => here (other.trans same.symm)
        simp [other, different]
      · simp [other]

theorem count_swapRemoveFirst [DecidableEq α] (wanted a : α) (l : List α) :
    (swapRemoveFirst (· == wanted) l).count a = l.count a - if wanted = a then 1 else 0 := by
  have counted := count_map_swapRemoveFirst id wanted a l
  rwa [List.map_id, List.map_id] at counted

end MeowOs.Machine
