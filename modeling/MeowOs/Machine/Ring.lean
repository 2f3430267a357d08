import Mathlib.Data.List.Chain
import Mathlib.Data.List.Nodup
import Mathlib.Data.List.Range

/-! # Circular lists with a single trusted back pointer

A list is threaded through memory by two pointer functions.  Following `next`
from the first element runs through the whole list and comes back to the first
element; of the back pointers only that of the first element has to be right.
This is what a queue needs whose elements leave at the front only: an element
is at the front only after its predecessor left, and that repairs its back
pointer.
-/

namespace MeowOs.Machine

variable {α : Type} {next prev next' prev' : α → α}

theorem isChain_congr_next {l : List α} (same : ∀ x ∈ l.dropLast, next' x = next x)
    (chain : l.IsChain fun a b => next a = b) : l.IsChain fun a b => next' a = b := by
  induction l with
  | nil => exact .nil
  | cons a l ih =>
    cases l with
    | nil => exact .singleton a
    | cons b l =>
      rw [List.isChain_cons_cons] at chain ⊢
      have here : next' a = next a := same a (by simp)
      exact ⟨here.trans chain.1, ih (fun x mem => same x (by simp [mem])) chain.2⟩

/-- The elements of `l`, in this order, form a circular list. -/
structure Ring (next prev : α → α) (l : List α) : Prop where
  distinct : l.Nodup
  forward : ∀ first ∈ l.head?, (l ++ [first]).IsChain fun a b => next a = b
  back : ∀ first ∈ l.head?, l.getLast? = some (prev first)

namespace Ring

theorem nil : Ring next prev ([] : List α) := ⟨.nil, by simp, by simp⟩

variable {a c : α} {l : List α}

theorem singleton (fwd : next a = a) (bwd : prev a = a) : Ring next prev [a] := by
  refine ⟨by simp, ?_, ?_⟩ <;> simp [fwd, bwd]

theorem congr (ring : Ring next prev l) (fwd : ∀ x ∈ l, next' x = next x)
    (bwd : ∀ x ∈ l, prev' x = prev x) : Ring next' prev' l := by
  refine ⟨ring.distinct, ?_, ?_⟩
  · intro first head
    exact isChain_congr_next (by simpa using fwd) (ring.forward first head)
  · intro first head
    rw [ring.back first head, bwd first (List.mem_of_mem_head? head)]

theorem next_eq {first c : α} {l1 l2 : List α} (ring : Ring next prev (l1 ++ c :: l2))
    (head : (l1 ++ c :: l2).head? = some first) : (l2 ++ [first]).head? = some (next c) := by
  have chain := ring.forward first head
  cases l2 with
  | nil => simp_all
  | cons d l2 => simp_all

theorem next_mem (ring : Ring next prev l) (mem : c ∈ l) : next c ∈ l := by
  obtain ⟨l1, l2, rfl⟩ := List.append_of_mem mem
  obtain ⟨first, rest, cons⟩ := List.exists_cons_of_ne_nil (List.ne_nil_of_mem mem)
  have after := List.mem_of_mem_head? (@next_eq α next prev first c l1 l2 ring (by rw [cons]; rfl))
  cases List.mem_append.mp after with
  | inl inTail => simp [inTail]
  | inr isFirst =>
    rw [cons, List.mem_singleton.mp isFirst]
    exact .head _

theorem of_row {f : Nat → α} {n : Nat} (inj : ∀ i j, i < n → j < n → f i = f j → i = j) (pos : 0 < n)
    (fwd : ∀ k, k + 1 < n → next (f k) = f (k + 1)) (close : next (f (n - 1)) = f 0)
    (bwd : prev (f 0) = f (n - 1)) : Ring next prev ((List.range n).map f) := by
  obtain ⟨m, rfl⟩ : ∃ m, n = m + 1 := ⟨n - 1, by omega⟩
  have last : ((List.range (m + 1)).map f).getLast? = some (f m) := by simp [List.range_succ]
  have head : ((List.range (m + 1)).map f).head? = some (f 0) := by simp [List.range_succ_eq_map]
  refine ⟨?_, ?_, ?_⟩
  · refine List.Nodup.map_on ?_ List.nodup_range
    intro i memI j memJ
    exact inj i j (List.mem_range.mp memI) (List.mem_range.mp memJ)
  · intro first headFirst
    rw [head] at headFirst
    cases headFirst
    rw [List.isChain_append, List.isChain_map, List.isChain_range_succ]
    refine ⟨fun k lt => fwd k (by omega), .singleton _, ?_⟩
    intro x lastX y headY
    rw [last] at lastX
    cases lastX
    cases headY
    exact close
  · intro first headFirst
    rw [head] at headFirst
    cases headFirst
    rw [last, bwd]
    rfl

/-- The first element leaves. -/
theorem pop (ring : Ring next prev (a :: l)) (nonempty : l ≠ [])
    (fwd : next' (prev a) = next a) (bwd : prev' (next a) = prev a) (same : ∀ x ∈ l, x ≠ prev a → next' x = next x) :
    Ring next' prev' l ∧ l.head? = some (next a) := by
  obtain ⟨b, l, rfl⟩ := List.exists_cons_of_ne_nil nonempty
  have second : next a = b := by
    have after : (b :: l ++ [a]).head? = some (next a) := @next_eq α next prev a a [] (b :: l) ring rfl
    simpa using after.symm
  have last : (b :: l).getLast? = some (prev a) := by
    have := ring.back a rfl
    rwa [List.getLast?_cons_cons] at this
  have distinct := (List.nodup_cons.mp ring.distinct).2
  refine ⟨⟨distinct, ?_, ?_⟩, by simp [second]⟩
  · intro first head
    obtain rfl : b = first := by simpa using head
    have chain := ring.forward a rfl
    rw [List.cons_append, List.cons_append, List.isChain_cons_cons, ← List.cons_append, List.isChain_append] at chain
    rw [List.isChain_append]
    refine ⟨isChain_congr_next ?_ chain.2.1, .singleton _, ?_⟩
    · intro x mem
      refine same x (List.dropLast_subset _ mem) ?_
      rintro rfl
      -- the last element is not among the ones before it
      obtain ⟨front, split⟩ := List.getLast?_eq_some_iff.mp last
      rw [split] at distinct mem
      rw [List.dropLast_concat] at mem
      exact (List.nodup_append.mp distinct).2.2 _ mem _ (by simp) rfl
    · intro x lastx y heady
      rw [last] at lastx
      cases lastx
      cases heady
      rw [fwd, second]
  · intro first head
    obtain rfl : b = first := by simpa using head
    rw [last, ← second, bwd]

/-- A new element `a` is linked in behind `c`. -/
theorem insert {l1 l2 : List α} (ring : Ring next prev (l1 ++ c :: l2)) (fresh : a ∉ l1 ++ c :: l2) (fwdC : next' c = a)
    (fwdA : next' a = next c) (bwd : prev' (next c) = a) (sameNext : ∀ x ∈ l1 ++ l2, next' x = next x)
    (samePrev : ∀ x ∈ l1 ++ c :: l2, x ≠ next c → prev' x = prev x) : Ring next' prev' (l1 ++ c :: a :: l2) := by
  have sameHead : (l1 ++ c :: a :: l2).head? = (l1 ++ c :: l2).head? := by
    cases l1 <;> rfl
  have perm : (l1 ++ c :: a :: l2).Perm (a :: (l1 ++ c :: l2)) := by
    rw [show l1 ++ c :: a :: l2 = (l1 ++ [c]) ++ a :: l2 by simp, show l1 ++ c :: l2 = (l1 ++ [c]) ++ l2 by simp]
    exact List.perm_middle
  refine ⟨perm.nodup_iff.mpr (List.nodup_cons.mpr ⟨fresh, ring.distinct⟩), ?_, ?_⟩
  · intro first head
    rw [sameHead] at head
    have chain := ring.forward first head
    have after := ring.next_eq head
    rw [List.append_assoc, List.cons_append, List.isChain_split] at chain
    rw [List.append_assoc, List.cons_append, List.isChain_split, List.cons_append, List.isChain_cons_cons]
    refine ⟨isChain_congr_next ?_ chain.1, fwdC, ?_⟩
    · intro x mem
      exact sameNext x (by rw [List.dropLast_concat] at mem; simp [mem])
    have rest : (l2 ++ [first]).IsChain fun x y => next' x = y :=
      isChain_congr_next (fun x mem => sameNext x (by rw [List.dropLast_concat] at mem; simp [mem]))
        chain.2.tail
    cases tail : l2 ++ [first] with
    | nil => simp at tail
    | cons d rest' =>
      rw [tail] at after rest
      cases after
      exact List.isChain_cons_cons.mpr ⟨fwdA, rest⟩
  · intro first head
    rw [sameHead] at head
    have after := ring.next_eq head
    cases l2 with
    | nil =>
      -- the new element is the last one, and the first element's pointer was redirected to it
      obtain rfl : first = next c := by simpa using after
      simp [bwd]
    | cons d l2 =>
      obtain rfl : d = next c := by simpa using after
      have ne : first ≠ next c := by
        intro same
        have distinct := ring.distinct
        rw [← same] at distinct
        cases l1 with
        | nil => cases head; simp at distinct
        | cons e l1 => cases head; simp at distinct
      have last := ring.back first head
      rw [samePrev first (List.mem_of_mem_head? head) ne, ← last]
      simp [List.getLast?_append, List.getLast?_cons_cons]

end Ring

end MeowOs.Machine
