import MeowOs.Rfs2.BTree.Operations

/-! # Leaves

A leaf with `n` keys holds them in its first `n` slots, in ascending order, and
zeros behind them.  `Represents` is the map such a leaf stands for.  The module
says what search, insertion and removal do to a leaf.

`insert_leaf_non_full` shifts the keys above the new one up by one slot but not
their pointers.  A leaf is taken for full at 102 keys, half of what it has room
for, since `get_state` looks at the first key only.
-/

namespace MeowOs.Rfs2.BTreeNode

open MeowOs.Machine Prog
open Function (update update_of_ne update_self)

structure Leaf (node : BTreeNode) (n : Nat) : Prop where
  pos : 0 < n
  le : n ≤ btreeKeyCnt / 2
  children : ∀ i, i ≤ btreeKeyCnt → node.children i = 0
  used : ∀ i, i < n → node.keyIndexes i ≠ 0
  sorted : ∀ i j, i < j → j < n → node.keyIndexes i < node.keyIndexes j
  unused : ∀ i, n ≤ i → i < btreeKeyCnt → node.keyIndexes i = 0 ∧ node.keyPtrs i = 0
  keyBound : ∀ i, i < n → node.keyIndexes i < 256 ^ 4
  ptrBound : ∀ i, i < n → node.keyPtrs i < 256 ^ 8

def Represents (node : BTreeNode) (n : Nat) (m : Nat → Option Nat) : Prop :=
  ∀ q p, m q = some p ↔ ∃ i, i < n ∧ node.keyIndexes i = q ∧ node.keyPtrs i = p

variable {node x : BTreeNode} {n q : Nat} {m : Nat → Option Nat} {v : Rfs2} {fuel : Nat}

theorem Leaf.lt (h : Leaf node n) : n < btreeKeyCnt := by
  have := h.le
  simp only [btreeKeyCnt] at *
  omega

theorem Leaf.of_slots {n' : Nat} (h : Leaf node n) (slot : Nat → Nat) (pos : 0 < n') (le : n' ≤ n)
    (children : ∀ i, i ≤ btreeKeyCnt → x.children i = node.children i) (mono : ∀ i j, i < j → slot i < slot j)
    (slotAll : ∀ i < n', slot i < n ∧ x.keyIndexes i = node.keyIndexes (slot i) ∧ x.keyPtrs i = node.keyPtrs (slot i))
    (unused : ∀ i, n' ≤ i → i < btreeKeyCnt → x.keyIndexes i = 0 ∧ x.keyPtrs i = 0) : Leaf x n' := by
  refine ⟨pos, le.trans h.le, fun i iLe => (children i iLe).trans (h.children i iLe), fun i iLe => ?_,
    fun i j ijLt jLt => ?_, unused, fun i iLe => ?_, fun i iLe => ?_⟩
  · rw [(slotAll i iLe).2.1]
    exact h.used _ (slotAll i iLe).1
  · rw [(slotAll i (ijLt.trans jLt)).2.1, (slotAll j jLt).2.1]
    exact h.sorted _ _ (mono i j ijLt) (slotAll j jLt).1
  · rw [(slotAll i iLe).2.1]
    exact h.keyBound _ (slotAll i iLe).1
  · rw [(slotAll i iLe).2.2]
    exact h.ptrBound _ (slotAll i iLe).1

theorem Leaf.congr (h : Leaf node n) (same : Same x node) : Leaf x n := by
  have lt := h.lt
  refine h.of_slots id h.pos (le_refl n) same.children (fun _ _ ijLt => ijLt)
    (fun i iLt => ⟨iLt, same.keyIndexes i (by omega), same.keyPtrs i (by omega)⟩) fun i niLe iLt => ?_
  rw [same.keyIndexes i iLt, same.keyPtrs i iLt]
  exact h.unused i niLe iLt

theorem Represents.congr (h : Represents node n m) (nLe : n ≤ btreeKeyCnt) (same : Same x node) : Represents x n m := by
  intro q p
  rw [h q p]
  refine exists_congr fun i => and_congr_right fun iLt => ?_
  rw [same.keyIndexes i (by omega), same.keyPtrs i (by omega)]

theorem Leaf.load_store (h : Leaf node n) (b : Bytes) : Same (load (node.store b)) node := by
  have key : ∀ i < btreeKeyCnt, node.keyIndexes i < 256 ^ 4 ∧ node.keyPtrs i < 256 ^ 8 := by
    intro i iLt
    by_cases inside : i < n
    · exact ⟨h.keyBound i inside, h.ptrBound i inside⟩
    · rw [(h.unused i (by omega) iLt).1, (h.unused i (by omega) iLt).2]
      norm_num
  refine ⟨fun i iLt => ?_, fun i iLt => ?_, fun i iLt => ?_⟩
  · rw [load_store_children node b iLt, h.children i iLt, Nat.zero_mod]
  · rw [load_store_keyIndexes node b iLt, Nat.mod_eq_of_lt (key i iLt).1]
  · rw [load_store_keyPtrs node b iLt, Nat.mod_eq_of_lt (key i iLt).2]

variable {i j k r p : Nat}

theorem Represents.eq_some (h : Represents node n m) (iLt : i < n) :
    m (node.keyIndexes i) = some (node.keyPtrs i) := (h _ _).mpr ⟨i, iLt, rfl, rfl⟩

theorem Represents.eq_none (h : Represents node n m) (qAll : ∀ i < n, node.keyIndexes i ≠ q) : m q = none := by
  cases mEq : m q with
  | none => rfl
  | some p =>
    obtain ⟨i, iLt, key, -⟩ := (h q p).mp mEq
    exact absurd key (qAll i iLt)

theorem Leaf.index_unique (h : Leaf node n) (iLt : i < n) (jLt : j < n)
    (eq : node.keyIndexes i = node.keyIndexes j) : i = j := by
  rcases Nat.lt_trichotomy i j with lt | rfl | gt
  · have := h.sorted i j lt jLt
    omega
  · rfl
  · have := h.sorted j i gt iLt
    omega

theorem Leaf.rank (h : Leaf node n) (new : ∀ i < n, node.keyIndexes i ≠ k) :
    ∃ r ≤ n, (∀ i < r, node.keyIndexes i < k) ∧ ∀ i, r ≤ i → i < n → k < node.keyIndexes i := by
  have exist : ∃ r, r = n ∨ k < node.keyIndexes r := ⟨n, .inl rfl⟩
  have min : ∀ i < Nat.find exist, ¬ (i = n ∨ k < node.keyIndexes i) := fun i iLt => Nat.find_min exist iLt
  have le : Nat.find exist ≤ n := Nat.find_le (.inl rfl)
  refine ⟨Nat.find exist, le, fun i iLt => ?_, fun i riLe iLt => ?_⟩
  · have absent := min i iLt
    have ne := new i (by omega)
    omega
  have first : k < node.keyIndexes (Nat.find exist) := by
    cases Nat.find_spec exist with
    | inl eq => omega
    | inr lt => exact lt
  rcases Nat.eq_or_lt_of_le riLe with eq | lt
  · rwa [← eq]
  · exact Nat.lt_trans first (h.sorted _ _ lt iLt)

/-! ## Search -/

theorem Leaf.state_leaf (h : Leaf node n) : node.getState.2 = .leaf := by
  simp [getState, h.children 0 (Nat.zero_le _)]

theorem Leaf.state_not_empty (h : Leaf node n) : node.getState.1 ≠ .empty := by
  have ne : (node.keyIndexes 0 == 0) = false := by simpa using h.used 0 h.pos
  simp only [getState, ne]
  split <;> simp_all

theorem Leaf.state_full (h : Leaf node n) : node.getState.1 = .full ↔ n = btreeKeyCnt / 2 := by
  have pos := h.pos
  have le := h.le
  have ne : (node.keyIndexes 0 == 0) = false := by simpa using h.used 0 pos
  have full : (node.keyIndexes 0 != 0) = true := by simpa using h.used 0 pos
  simp only [btreeKeyCnt] at le
  by_cases nEq : n = btreeKeyCnt / 2
  · have last : (node.keyIndexes (btreeKeyCnt / 2 - 1) == 0) = false := by
      simpa using h.used (btreeKeyCnt / 2 - 1) (by rw [nEq]; decide)
    simp [getState, ne, full, last, nEq]
  have last : (node.keyIndexes (btreeKeyCnt / 2 - 1) == 0) = true := by
    simp only [btreeKeyCnt] at nEq
    simpa using (h.unused (btreeKeyCnt / 2 - 1) (by simp only [btreeKeyCnt]; omega) (by decide)).1
  simp [getState, ne, last, nEq]

theorem findInode_some (h : Leaf node n) (iLt : i < n) :
    findInode (fuel + 1) node (node.keyIndexes i) v = some (some (node.keyPtrs i), v) := by
  have lt := h.lt
  have pos : (position fun j => node.keyIndexes j == 0 || decide (node.keyIndexes j > node.keyIndexes i) ||
      node.keyIndexes j == node.keyIndexes i) = some i := by
    refine position_eq_some.mpr ⟨by simp, by omega, fun j jLt => ?_⟩
    have low := h.sorted j i jLt iLt
    have used := h.used j (by omega)
    simp only [Bool.or_eq_false_iff, beq_eq_false_iff_ne, decide_eq_false_iff_not]
    omega
  have used := h.used i iLt
  simp only [findInode, pos, if_neg used, Nat.lt_irrefl, gt_iff_lt, if_false, pure_run]

theorem findInode_none (h : Leaf node n) (qAll : ∀ i < n, node.keyIndexes i ≠ q) :
    findInode (fuel + 1) node q v = some (none, v) := by
  have last : node.children btreeKeyCnt = 0 := h.children _ (Nat.le_refl _)
  cases pos : position fun j => node.keyIndexes j == 0 || decide (node.keyIndexes j > q) ||
      node.keyIndexes j == q with
  | none => simp [findInode, pos, last]
  | some i =>
    obtain ⟨stop, iLt, -⟩ := position_eq_some.mp pos
    by_cases zero : node.keyIndexes i = 0
    · simp [findInode, pos, last, zero]
    -- a used slot that is not `q` is above it, and a leaf has no child there
    have inside : i < n := by
      by_contra ge
      exact zero (h.unused i (by omega) iLt).1
    have ne := qAll i inside
    have gt : node.keyIndexes i > q := by
      simp only [Bool.or_eq_true, beq_iff_eq, decide_eq_true_eq] at stop
      omega
    simp only [findInode, pos, if_neg zero, if_pos gt, h.children i (by omega), if_true, pure_run]

theorem findInode_leaf (h : Leaf node n) (mRepresents : Represents node n m) (q : Nat) :
    findInode (fuel + 1) node q v = some (m q, v) := by
  by_cases notQ : ∃ i < n, node.keyIndexes i = q
  · obtain ⟨i, iLt, rfl⟩ := notQ
    rw [findInode_some h iLt, mRepresents.eq_some iLt]
  · have isNone : ∀ i < n, node.keyIndexes i ≠ q := fun i iLt eq => notQ ⟨i, iLt, eq⟩
    rw [findInode_none h isNone, mRepresents.eq_none isNone]

/-! ## Insertion -/

/-- The slots after a key was inserted at `r`: larger keys move up, no pointer moves. -/
def inserted (node : BTreeNode) (n r k p : Nat) : BTreeNode where
  children := node.children
  keyIndexes i := if i < r then node.keyIndexes i else if i = r then k
    else if i ≤ n then node.keyIndexes (i - 1) else node.keyIndexes i
  keyPtrs := update node.keyPtrs r p

/-- The loop of `insert_leaf_non_full` at counter `c`, with the keys from `c` up to `n` moved. -/
theorem insertLeafFrom_eq {base : BTreeNode} {c : Nat} (low : ∀ i < r, node.keyIndexes i ≠ 0 ∧ node.keyIndexes i < k)
    (high : ∀ i, r ≤ i → i < n → k < node.keyIndexes i)
    (zero : ∀ i, n ≤ i → i < btreeKeyCnt → node.keyIndexes i = 0) (rLe : r ≤ c) (cLt : c < btreeKeyCnt)
    (baseEq : base = { node with keyIndexes := fun i =>
      if c < i ∧ i ≤ n then node.keyIndexes (i - 1) else node.keyIndexes i }) :
    base.insertLeafFrom k p c = inserted node n r k p := by
  induction c generalizing base with
  | zero =>
    have rEq0 : r = 0 := by omega
    subst baseEq rEq0
    simp only [insertLeafFrom, setKey, inserted, mk.injEq, true_and, and_true]
    funext i
    by_cases iEq : i = 0
    · simp [iEq]
    · simp [iEq, Nat.pos_of_ne_zero iEq]
  | succ c ih =>
    have slot : base.keyIndexes c = node.keyIndexes c := by
      rw [baseEq]
      exact if_neg (by omega)
    simp only [insertLeafFrom, slot]
    by_cases same : r = c + 1
    · -- the slot below belongs to a smaller key: the new one goes here
      obtain ⟨ne, lt⟩ := low c (by omega)
      rw [if_neg ne, if_neg (by omega)]
      subst baseEq same
      simp only [setKey, inserted, mk.injEq, true_and, and_true]
      funext i
      by_cases iEq : i = c + 1
      · simp [iEq]
      rw [update_of_ne iEq, if_neg iEq]
      by_cases low' : i < c + 1
      · rw [if_pos low', if_neg (by omega)]
      rw [if_neg low']
      by_cases inside : i ≤ n
      · rw [if_pos inside, if_pos (by omega)]
      · rw [if_neg inside, if_neg (by omega)]
    · by_cases cnLt : c < n
      · have gt := high c (by omega) cnLt
        rw [if_neg (by omega), if_pos gt]
        refine ih (by omega) (by omega) ?_
        subst baseEq
        simp only [mk.injEq, true_and, and_true]
        funext i
        by_cases iEq : i = c + 1
        · rw [iEq, update_self, if_pos (by omega), Nat.add_sub_cancel]
        · have equiv : c + 1 < i ∧ i ≤ n ↔ c < i ∧ i ≤ n := by omega
          simp [update_of_ne iEq, equiv]
      · rw [if_pos (zero c (by omega) (by omega))]
        refine ih (by omega) (by omega) ?_
        rw [baseEq]
        simp only [mk.injEq, true_and, and_true]
        funext i
        rw [if_neg (by omega), if_neg (by omega)]

/-- The slot of a new key in a leaf with room, and the leaf that results. -/
structure Insertion (node : BTreeNode) (n r k p : Nat) : Prop where
  le : r ≤ n
  low : ∀ i, i < r → node.keyIndexes i < k
  high : ∀ i, r ≤ i → i < n → k < node.keyIndexes i
  eq : node.insertLeafNonFull k p = inserted node n r k p

theorem Leaf.insertion (h : Leaf node n) (p : Nat) (new : ∀ i < n, node.keyIndexes i ≠ k) :
    ∃ r, Insertion node n r k p := by
  obtain ⟨r, rLe, low, high⟩ := h.rank new
  have le := h.le
  simp only [btreeKeyCnt] at le
  refine ⟨r, rLe, low, high, ?_⟩
  refine insertLeafFrom_eq (fun i iLt => ⟨h.used i (by omega), low i iLt⟩) high
    (fun i iLt iLt' => (h.unused i iLt iLt').1) (by simp only [btreeKeyCnt]; omega) (by decide) ?_
  have same : (fun i => if btreeKeyCnt - 1 < i ∧ i ≤ n then node.keyIndexes (i - 1)
      else node.keyIndexes i) = node.keyIndexes := by
    funext i
    rw [if_neg (by simp only [btreeKeyCnt]; omega)]
  rw [same]

theorem Insertion.leaf (ins : Insertion node n r k p) (h : Leaf node n)
    (room : n < btreeKeyCnt / 2) (kNe : k ≠ 0) (kLt' : k < 256 ^ 4) (pLt : p < 256 ^ 8) :
    Leaf (inserted node n r k p) (n + 1) := by
  have rLe := ins.le
  refine ⟨Nat.succ_pos n, room, h.children, ?_, ?_, ?_, ?_, ?_⟩
  · intro i iLt
    simp only [inserted]
    split
    · exact h.used i (by omega)
    split
    · exact kNe
    · rw [if_pos (by omega)]
      exact h.used (i - 1) (by omega)
  · intro i j ijLt jLt
    -- both below, at, or above the new slot
    simp only [inserted]
    rcases Nat.lt_trichotomy i r with irLt | rfl | irLt
    · rw [if_pos irLt]
      rcases Nat.lt_trichotomy j r with jrLt | rfl | jrLt
      · rw [if_pos jrLt]
        exact h.sorted i j ijLt (by omega)
      · rw [if_neg (by omega), if_pos rfl]
        exact ins.low i irLt
      · rw [if_neg (by omega), if_neg (by omega), if_pos (by omega)]
        exact h.sorted i (j - 1) (by omega) (by omega)
    · rw [if_neg (by omega), if_pos rfl, if_neg (by omega), if_neg (by omega), if_pos (by omega)]
      exact ins.high (j - 1) (by omega) (by omega)
    · rw [if_neg (by omega), if_neg (by omega), if_pos (by omega), if_neg (by omega), if_neg (by omega),
        if_pos (by omega)]
      exact h.sorted (i - 1) (j - 1) (by omega) (by omega)
  · intro i niLe iLt
    simp only [inserted]
    rw [if_neg (by omega), if_neg (by omega), if_neg (by omega), update_of_ne (by omega)]
    exact h.unused i (by omega) iLt
  · intro i iLt
    simp only [inserted]
    split
    · exact h.keyBound i (by omega)
    split
    · exact kLt'
    · rw [if_pos (by omega)]
      exact h.keyBound (i - 1) (by omega)
  · intro i iLt
    simp only [inserted]
    by_cases irLt : i = r
    · rw [irLt, update_self]
      exact pLt
    rw [update_of_ne irLt]
    by_cases inside : i < n
    · exact h.ptrBound i inside
    · rw [(h.unused i (by omega) (by omega)).2]
      norm_num

theorem inserted_new (node : BTreeNode) (n r k p : Nat) :
    (inserted node n r k p).keyIndexes r = k ∧ (inserted node n r k p).keyPtrs r = p := by
  simp [inserted]

theorem inserted_low (node : BTreeNode) (k p : Nat) (iLt : i < r) :
    (inserted node n r k p).keyIndexes i = node.keyIndexes i ∧ (inserted node n r k p).keyPtrs i = node.keyPtrs i := by
  simp only [inserted, if_pos iLt, true_and]
  exact update_of_ne (by omega) _ _

theorem inserted_high (node : BTreeNode) (k p : Nat) (rLe : r ≤ i) (iLt : i < n) :
    (inserted node n r k p).keyIndexes (i + 1) = node.keyIndexes i ∧
      (inserted node n r k p).keyPtrs (i + 1) = node.keyPtrs (i + 1) := by
  simp only [inserted]
  rw [if_neg (by omega), if_neg (by omega), if_pos (by omega), Nat.add_sub_cancel, update_of_ne (by omega)]
  exact ⟨rfl, rfl⟩

theorem Insertion.represents (ins : Insertion node n r k p) (h : Leaf node n)
    (mRepresents : Represents node n m) (zero : ∀ i, r ≤ i → i < n → node.keyPtrs i = 0) :
    Represents (inserted node n r k p) (n + 1) (update m k (some p)) := by
  have rLe := ins.le
  have lt := h.lt
  have next : ∀ i, r ≤ i → i < n → node.keyPtrs (i + 1) = node.keyPtrs i := by
    intro i riLe iLt
    rw [zero i riLe iLt]
    by_cases inside : i + 1 < n
    · exact zero (i + 1) (by omega) inside
    · exact (h.unused (i + 1) (by omega) (by omega)).2
  obtain ⟨newKey, newPtr⟩ := inserted_new node n r k p
  intro q p'
  constructor
  · intro qEq
    by_cases same : q = k
    · subst same
      rw [update_self, Option.some.injEq] at qEq
      exact ⟨r, by omega, newKey, newPtr.trans qEq⟩
    rw [update_of_ne same] at qEq
    obtain ⟨i, iLt, key, ptr⟩ := (mRepresents q p').mp qEq
    by_cases irLt : i < r
    · obtain ⟨lIsK, lIsP⟩ := inserted_low node k p irLt
      exact ⟨i, by omega, lIsK.trans key, lIsP.trans ptr⟩
    · obtain ⟨movedKey, movedPtr⟩ := inserted_high node k p (Nat.not_lt.mp irLt) iLt
      exact ⟨i + 1, by omega, movedKey.trans key, (movedPtr.trans (next i (by omega) iLt)).trans ptr⟩
  · rintro ⟨i, iLt, key, ptr⟩
    rcases Nat.lt_trichotomy i r with irLt | rfl | irLt
    · obtain ⟨lIsK, lIsP⟩ := inserted_low node (n := n) k p irLt
      have low := ins.low i irLt
      rw [lIsK] at key
      rw [lIsP] at ptr
      rw [update_of_ne (by omega)]
      exact (mRepresents q p').mpr ⟨i, by omega, key, ptr⟩
    · rw [newKey] at key
      rw [newPtr] at ptr
      rw [← key, ← ptr, update_self]
    obtain ⟨j, rfl⟩ : ∃ j, i = j + 1 := ⟨i - 1, by omega⟩
    obtain ⟨movedKey, movedPtr⟩ := inserted_high node k p (n := n) (r := r) (i := j) (by omega) (by omega)
    have high := ins.high j (by omega) (by omega)
    rw [movedKey] at key
    rw [movedPtr, next j (by omega) (by omega)] at ptr
    rw [update_of_ne (by omega)]
    exact (mRepresents q p').mpr ⟨j, by omega, key, ptr⟩

theorem Leaf.ptr_zero (h : Leaf node n) (keeps : ∀ i, r ≤ i → i < n → node.keyPtrs (i + 1) = node.keyPtrs i) :
    ∀ i, r ≤ i → i < n → node.keyPtrs i = 0 := by
  have lt := h.lt
  have ends : node.keyPtrs n = 0 := (h.unused n (Nat.le_refl n) lt).2
  -- each pointer is the next one, and the slot behind the last key holds 0
  have down : ∀ d i, i + d = n → r ≤ i → node.keyPtrs i = 0 := by
    intro d
    induction d with
    | zero =>
      intro i iEq _
      rwa [show i = n by omega]
    | succ d ih =>
      intro i iEq rLe
      rw [← keeps i rLe (by omega)]
      exact ih (i + 1) (by omega) (by omega)
  intro i rLe iEq
  exact down (n - i) i (by omega) rLe

theorem setPtr_same (node : BTreeNode) (i p : Nat) : (node.setPtr i p).keyPtrs i = p :=
  update_self _ _ _

theorem setPtr_other (node : BTreeNode) (p : Nat) (ne : j ≠ i) :
    (node.setPtr i p).keyPtrs j = node.keyPtrs j := update_of_ne ne _ _

theorem Leaf.setPtr (h : Leaf node n) (iLt : i < n) (pLt : p < 256 ^ 8) : Leaf (node.setPtr i p) n := by
  refine ⟨h.pos, h.le, h.children, h.used, h.sorted, fun j njLe jLt => ?_, h.keyBound, fun j jLt => ?_⟩
  · obtain ⟨key, ptr⟩ := h.unused j njLe jLt
    exact ⟨key, (setPtr_other node p (by omega)).trans ptr⟩
  by_cases same : j = i
  · rw [same, setPtr_same]
    exact pLt
  · rw [setPtr_other node p same]
    exact h.ptrBound j jLt

theorem Represents.setPtr (mRepresents : Represents node n m) (h : Leaf node n) (p : Nat) (iLt : i < n) :
    Represents (node.setPtr i p) n (update m (node.keyIndexes i) (some p)) := by
  intro q p'
  by_cases qEq : q = node.keyIndexes i
  · subst qEq
    rw [update_self, Option.some.injEq]
    constructor
    · rintro rfl
      exact ⟨i, iLt, rfl, setPtr_same node i p⟩
    · rintro ⟨j, jLt, key, ptr⟩
      rwa [h.index_unique jLt iLt key, setPtr_same] at ptr
  · rw [update_of_ne qEq, mRepresents q p']
    refine exists_congr fun j => and_congr_right fun _ => and_congr_right fun key => ?_
    rw [setPtr_other node p fun (eq : j = i) => qEq (eq ▸ key.symm)]

theorem Leaf.ne_of_absent (h : Leaf node n) (kNe : k ≠ 0) (new : ∀ i < n, node.keyIndexes i ≠ k)
    (iLt : i < btreeKeyCnt) : node.keyIndexes i ≠ k := by
  by_cases inside : i < n
  · exact new i inside
  · rw [(h.unused i (by omega) iLt).1]
    exact kNe.symm

theorem Leaf.position_key (h : Leaf node n) (iLe : i ≤ n) :
    (position fun j => node.keyIndexes j == node.keyIndexes i || node.keyIndexes j == 0) = some i := by
  have lt := h.lt
  refine position_eq_some.mpr ⟨by simp, by omega, fun j jLt => ?_⟩
  have used := h.used j (by omega)
  have ne : node.keyIndexes j ≠ node.keyIndexes i := by
    by_cases inside : i < n
    · have := h.sorted j i jLt inside
      omega
    · rw [(h.unused i (by omega) (by omega)).1]
      exact used
  simp only [Bool.or_eq_false_iff, beq_eq_false_iff_ne]
  exact ⟨ne, used⟩

theorem insertInode_present (h : Leaf node n) (iLt : i < n) : insertInode (fuel + 1) node (node.keyIndexes i) p v =
      some ((.updated, node.setPtr i p), v) := by
  simp [insertInode, h.position_key (Nat.le_of_lt iLt), pure_run]

theorem insertInode_absent (h : Leaf node n) (kNe : k ≠ 0) (new : ∀ i < n, node.keyIndexes i ≠ k) :
    insertInode (fuel + 1) node k p v = if n = btreeKeyCnt / 2 then some ((.tooBig { index := k, ptr := p } 0, node), v)
      else some ((.updated, node.insertLeafNonFull k p), v) := by
  have rest : insertNew (fun child => insertInode fuel child k p) node k p v =
      if n = btreeKeyCnt / 2 then some ((.tooBig { index := k, ptr := p } 0, node), v)
      else some ((.updated, node.insertLeafNonFull k p), v) := by
    simp only [insertNew, if_pos h.state_leaf, h.state_full]
    split <;> rfl
  cases pos : position fun j => node.keyIndexes j == k || node.keyIndexes j == 0 with
  | none => simpa only [insertInode, pos] using rest
  | some i =>
    obtain ⟨-, iLt, -⟩ := position_eq_some.mp pos
    simpa only [insertInode, pos, if_neg (h.ne_of_absent kNe new iLt)] using rest

/-! ## Removal -/

theorem shiftKeysDown_slots (node : BTreeNode) (iLt : i < btreeKeyCnt) :
    (node.shiftKeysDown i).children = node.children ∧ ∀ j, (node.shiftKeysDown i).keyIndexes j =
        (if i ≤ j ∧ j < btreeKeyCnt - 1 then node.keyIndexes (j + 1) else node.keyIndexes j) ∧
      (node.shiftKeysDown i).keyPtrs j =
        (if i ≤ j ∧ j < btreeKeyCnt - 1 then node.keyPtrs (j + 1) else node.keyPtrs j) := by
  have ends : i + (btreeKeyCnt - 1 - i) = btreeKeyCnt - 1 := by
    omega
  rw [← ends]
  -- the slots between `i` and the loop index have moved
  refine loopUp_ind (fun c (x : BTreeNode) => x.children = node.children ∧ ∀ j,
    x.keyIndexes j = (if i ≤ j ∧ j < c then node.keyIndexes (j + 1) else node.keyIndexes j) ∧
    x.keyPtrs j = (if i ≤ j ∧ j < c then node.keyPtrs (j + 1) else node.keyPtrs j)) ?_ ?_
  · rintro c x icLe - ⟨children, slots⟩
    refine ⟨children, fun j => ?_⟩
    simp only [setKey]
    by_cases jEq : j = c
    · subst jEq
      have next := slots (j + 1)
      rw [if_neg (by omega), if_neg (by omega)] at next
      rw [update_self, update_self, if_pos (by omega), if_pos (by omega)]
      exact next
    · have equiv : i ≤ j ∧ j < c + 1 ↔ i ≤ j ∧ j < c := by omega
      simp only [update_of_ne jEq, equiv]
      exact slots j
  · refine ⟨rfl, fun j => ?_⟩
    rw [if_neg (by omega), if_neg (by omega)]
    exact ⟨rfl, rfl⟩

def removed (node : BTreeNode) (i : Nat) : BTreeNode :=
  (node.shiftKeysDown i).setKey (btreeKeyCnt - 1) 0 0

theorem removed_slot (node : BTreeNode) (iLt : i < btreeKeyCnt) (jLt : j + 1 < btreeKeyCnt) :
    (removed node i).keyIndexes j = node.keyIndexes (if j < i then j else j + 1) ∧
      (removed node i).keyPtrs j = node.keyPtrs (if j < i then j else j + 1) := by
  obtain ⟨key, ptr⟩ := (shiftKeysDown_slots node iLt).2 j
  simp only [removed, setKey]
  rw [update_of_ne (by omega), update_of_ne (by omega), key, ptr]
  by_cases jiLt : j < i
  · rw [if_pos jiLt, if_neg (by omega), if_neg (by omega)]
    exact ⟨rfl, rfl⟩
  · rw [if_neg jiLt, if_pos (by omega), if_pos (by omega)]
    exact ⟨rfl, rfl⟩

/-- The slots behind the keys stay clear, also when the first free slot is the one removed. -/
theorem removed_unused (h : Leaf node n) (njLe : n ≤ j + 1) (ijLe : i ≤ j) (jLt : j < btreeKeyCnt) :
    (removed node i).keyIndexes j = 0 ∧ (removed node i).keyPtrs j = 0 := by
  by_cases last : j = btreeKeyCnt - 1
  · rw [last]
    simp [removed, setKey]
  · obtain ⟨key, ptr⟩ := removed_slot node (i := i) (j := j) (by omega) (by omega)
    rw [key, ptr, if_neg (by omega)]
    exact h.unused (j + 1) njLe (by omega)

theorem Leaf.removed (h : Leaf node n) (iLt : i < n) (ne : (removed node i).keyIndexes 0 ≠ 0) :
    Leaf (removed node i) (n - 1) := by
  have lt := h.lt
  have many : 1 < n := by
    by_contra one
    exact ne (removed_unused h (by omega) (by omega) (by omega)).1
  refine h.of_slots (fun j => if j < i then j else j + 1) (by omega) (by omega) (fun j _ => ?_)
    (fun j j' jjLt' => ?_) (fun j jLt => ?_) fun j njLe jLt => removed_unused h (by omega) (by omega) jLt
  · exact congrFun (shiftKeysDown_slots node (by omega)).1 j
  · split <;> split <;> omega
  · refine ⟨?_, removed_slot node (by omega) (by omega)⟩
    split <;> omega

theorem Represents.removed (mRepresents : Represents node n m) (h : Leaf node n) (iLt : i < n) :
    Represents (removed node i) (n - 1) (update m (node.keyIndexes i) none) := by
  have lt := h.lt
  have slot := fun j (jLt : j < n - 1) => removed_slot node (i := i) (j := j) (by omega) (by omega)
  intro q p
  by_cases qEq : q = node.keyIndexes i
  · subst qEq
    rw [update_self]
    refine ⟨fun isNone => (by cases isNone), ?_⟩
    rintro ⟨j, jLt, key, -⟩
    -- the slot would hold a second copy of the removed key
    rw [(slot j jLt).1] at key
    have eq := h.index_unique (by split <;> omega) iLt key
    split at eq <;> omega
  · rw [update_of_ne qEq, mRepresents q p]
    constructor
    · rintro ⟨j, jLt, key, ptr⟩
      have ne : j ≠ i := by
        rintro rfl
        exact qEq key.symm
      obtain ⟨j', jLt', rfl⟩ : ∃ j' < n - 1, (if j' < i then j' else j' + 1) = j := by
        by_cases jiLt : j < i
        · exact ⟨j, by omega, if_pos jiLt⟩
        · exact ⟨j - 1, by omega, by rw [if_neg (by omega)]; omega⟩
      exact ⟨j', jLt', (slot j' jLt').1.trans key, (slot j' jLt').2.trans ptr⟩
    · rintro ⟨j, jLt, key, ptr⟩
      exact ⟨_, by split <;> omega, (slot j jLt).1.symm.trans key, (slot j jLt).2.symm.trans ptr⟩

theorem removeKey_slot (h : Leaf node n) (iLe : i ≤ n) :
    ∃ res, res ≠ .nothing ∧ removeKey (fuel + 1) node (node.keyIndexes i) v =
      some ((some (node.keyPtrs i, res), BTreeNode.removed node i), v) := by
  simp only [removeKey, if_neg h.state_not_empty, if_pos h.state_leaf, removeLeafNonEmpty, h.position_key iLe, if_true]
  split
  · exact ⟨.tooShort, by simp, rfl⟩
  · exact ⟨.updated, by simp, rfl⟩

theorem removeKey_absent (h : Leaf node n) (kNe : k ≠ 0) (new : ∀ i < n, node.keyIndexes i ≠ k) :
    removeKey (fuel + 1) node k v = some ((none, node), v) := by
  have isNone : node.removeLeafNonEmpty k = none := by
    unfold removeLeafNonEmpty
    cases pos : position fun j => node.keyIndexes j == k || node.keyIndexes j == 0 with
    | none => rfl
    | some i =>
      obtain ⟨-, iLt, -⟩ := position_eq_some.mp pos
      exact if_neg (h.ne_of_absent kNe new iLt)
  simp only [removeKey, if_neg h.state_not_empty, if_pos h.state_leaf, isNone, pure_run]

end MeowOs.Rfs2.BTreeNode
