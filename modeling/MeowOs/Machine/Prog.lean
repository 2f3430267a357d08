import Mathlib

/-! # Programs that may panic

A program over a state `σ` is a state transformer that may fail: `none` stands
for a panic of the running code, or for a call that never returns.  The module
gives the monad, the loops the modelled code uses, and the rules by which a
proof takes a run apart:

* `bind_eq_some` cuts a run at a `←`;
* `Yields.bind` carries a fact about returned values through a program;
* `forUp_eq_some_ind` and `forUp_total` are the invariant rules of a counting
  loop, for a run that is known to return and for one that is shown to;
* `loopUp`/`loopDown` are the loops that only rewrite a local value.
-/

namespace MeowOs.Machine

/-- A program over states `σ` that returns an `α` or panics. -/
def Prog (σ α : Type) : Type := σ → Option (α × σ)

namespace Prog

variable {σ α β : Type}

instance : Monad (Prog σ) where
  pure a := fun s => some (a, s)
  bind x f := fun s => (x s).bind fun r => f r.1 r.2

def panic : Prog σ α := fun _ => none

def get : Prog σ σ := fun s => some (s, s)

def modify (f : σ → σ) : Prog σ Unit := fun s => some ((), f s)

def assert (c : Bool) : Prog σ Unit := fun s => if c then some ((), s) else none

/-- The value of a computation on local data that may panic. -/
def ofOption (o : Option α) : Prog σ α := fun s => o.map fun a => (a, s)

@[simp] theorem pure_run (a : α) (s : σ) : (pure a : Prog σ α) s = some (a, s) := rfl

@[simp] theorem bind_run (x : Prog σ α) (f : α → Prog σ β) (s : σ) : (x >>= f) s = (x s).bind fun r => f r.1 r.2 := rfl

@[simp] theorem panic_run (s : σ) : (panic : Prog σ α) s = none := rfl

@[simp] theorem get_run (s : σ) : (get : Prog σ σ) s = some (s, s) := rfl

@[simp] theorem modify_run (f : σ → σ) (s : σ) : (modify f : Prog σ Unit) s = some ((), f s) := rfl

@[simp] theorem assert_run (c : Bool) (s : σ) : (assert c : Prog σ Unit) s = if c then some ((), s) else none := rfl

variable {s s' : σ} {f : α → Prog σ β} {r : β × σ} {o : Option α} {a : α} {x : Prog σ α} {c : Bool}
  {body : Nat → Prog σ Unit} {lo : Nat} {n : Nat}

theorem ofOption_eq_some : ofOption o s = some (a, s') ↔ o = some a ∧ s' = s := by
  cases o with
  | none => simp [ofOption]
  | some b => simp [ofOption, eq_comm]

theorem bind_eq_some : (x >>= f) s = some r ↔ ∃ a s', x s = some (a, s') ∧ f a s' = some r := by
  simp only [bind_run, Option.bind_eq_some_iff, Prod.exists]

theorem bind₂_eq_some {γ : Type} {y : α → Prog σ γ} {f : α → γ → Prog σ β} : (x >>= fun a => y a >>= f a) s = some r ↔
    ∃ a s1, x s = some (a, s1) ∧ ∃ b s2, y a s1 = some (b, s2) ∧ f a b s2 = some r := by
  simp only [bind_eq_some]

theorem assert_bind_eq_some {f : Unit → Prog σ β} : (assert c >>= f) s = some r ↔ c = true ∧ f () s = some r := by
  cases c with
  | false => simp
  | true => simp

theorem get_bind {f : σ → Prog σ β} : (get >>= f) s = f s s := rfl

theorem modify_bind {g : σ → σ} {f : Unit → Prog σ β} : (modify g >>= f) s = f () (g s) := rfl

theorem assert_bind_run (holds : c = true) (f : Unit → Prog σ β) (s : σ) : (assert c >>= f) s = f () s := by
  subst holds
  rfl

theorem ofOption_bind_eq_some : (ofOption o >>= f) s = some r ↔ ∃ a, o = some a ∧ f a s = some r := by
  cases o with
  | none => simp [ofOption]
  | some a => simp [ofOption]

theorem bind_of_eq_some (h : x s = some (a, s')) : (x >>= f) s = f a s' := by
  simp [bind_run, h]

/-! ## Values -/

variable {b : β} {P : β → Prop}

/-- Every value that the program returns satisfies `P`. -/
def Yields (x : Prog σ α) (P : α → Prop) : Prop := ∀ s a s', x s = some (a, s') → P a

theorem yields_pure (holds : P b) : Yields (pure b : Prog σ β) P := by
  rintro s _ _ ⟨⟩
  exact holds

theorem yields_panic : Yields (panic : Prog σ β) P := by
  simp [Yields]

theorem yields_ofOption : Yields (ofOption o : Prog σ α) fun a => o = some a :=
  fun _ _ _ run => (ofOption_eq_some.mp run).1

theorem Yields.bind {Q : α → Prop} (first : Yields x Q) (rest : ∀ a, Q a → Yields (f a) P) : Yields (x >>= f) P := by
  intro s b s' run
  obtain ⟨a, t, ran, run⟩ := bind_eq_some.mp run
  exact rest a (first s a t ran) t b s' run

theorem yields_bind (rest : ∀ a, Yields (f a) P) : Yields (x >>= f) P :=
  .bind (fun _ _ _ _ => trivial) fun a (_ : True) => rest a

theorem yields_ofOption_bind {g : α → Option β}
    (rest : ∀ a, o = some a → Yields (ofOption (g a) : Prog σ β) P) : Yields (ofOption (o >>= g) : Prog σ β) P := by
  cases o with
  | none => exact yields_panic
  | some a => exact rest a rfl

/-- `for i in lo..lo + n { body(i) }`. -/
def forUp (body : Nat → Prog σ Unit) (lo : Nat) : Nat → Prog σ Unit
  | 0 => pure ()
  | n + 1 => do
    body lo
    forUp body (lo + 1) n

theorem forUp_succ_eq_some : forUp body lo (n + 1) s = some ((), s') ↔
    ∃ t, forUp body lo n s = some ((), t) ∧ body (lo + n) t = some ((), s') := by
  induction n generalizing lo s with
  | zero =>
    refine bind_eq_some.trans ⟨fun ⟨_, t, bodyEq, rest⟩ => ⟨s, rfl, ?_⟩, fun ⟨t, loop, bodyEq⟩ => ⟨(), s', ?_, rfl⟩⟩
    · cases rest
      exact bodyEq
    · cases loop
      exact bodyEq
  | succ n ih =>
    rw [show lo + (n + 1) = lo + 1 + n by omega]
    constructor
    · intro run
      obtain ⟨_, t, first, rest⟩ := bind_eq_some.mp run
      obtain ⟨u, loop, last⟩ := ih.mp rest
      exact ⟨u, bind_eq_some.mpr ⟨_, t, first, loop⟩, last⟩
    · rintro ⟨u, run, last⟩
      obtain ⟨_, t, first, loop⟩ := bind_eq_some.mp run
      exact bind_eq_some.mpr ⟨_, t, first, ih.mpr ⟨u, loop, last⟩⟩

/-- A loop that returns keeps every invariant its body keeps. -/
theorem forUp_eq_some_ind (I : Nat → σ → Prop)
    (step : ∀ i t t', lo ≤ i → i < lo + n → I i t → body i t = some ((), t') → I (i + 1) t')
    (init : I lo s) (run : forUp body lo n s = some ((), s')) : I (lo + n) s' := by
  induction n generalizing lo s with
  | zero =>
    simp only [forUp, pure_run, Option.some.injEq, Prod.mk.injEq, true_and] at run
    exact run ▸ init
  | succ n ih =>
    obtain ⟨_, t, bodyEq, rest⟩ := bind_eq_some.mp run
    have next : I (lo + 1) t := step lo s t (by omega) (by omega) init bodyEq
    have ends : I (lo + 1 + n) s' :=
      ih (fun i u u' loLe hi => step i u u' (by omega) (by omega)) next rest
    rwa [show lo + (n + 1) = lo + 1 + n by omega]

theorem forUp_total (I : Nat → σ → Prop)
    (step : ∀ i t, lo ≤ i → i < lo + n → I i t → ∃ t', body i t = some ((), t') ∧ I (i + 1) t')
    (init : I lo s) : ∃ s', forUp body lo n s = some ((), s') ∧ I (lo + n) s' := by
  induction n generalizing lo s with
  | zero => exact ⟨s, rfl, init⟩
  | succ n ih =>
    obtain ⟨t, bodyEq, next⟩ := step lo s (by omega) (by omega) init
    obtain ⟨s', rest, ends⟩ := ih (fun i u loLe hi => step i u (by omega) (by omega)) next
    refine ⟨s', ?_, by rwa [show lo + (n + 1) = lo + 1 + n by omega]⟩
    simp only [forUp]
    rw [bind_of_eq_some bodyEq]
    exact rest

end Prog

/-- `for i in lo..lo + n { a = f(i, a) }`. -/
def loopUp {α : Type} (f : Nat → α → α) (lo : Nat) : Nat → α → α
  | 0, a => a
  | n + 1, a => loopUp f (lo + 1) n (f lo a)

/-- `for i in (lo..lo + n).rev() { a = f(i, a) }`. -/
def loopDown {α : Type} (f : Nat → α → α) (lo : Nat) : Nat → α → α
  | 0, a => a
  | n + 1, a => loopDown f lo n (f (lo + n) a)

theorem loopUp_ind {α : Type} {f : Nat → α → α} (I : Nat → α → Prop) {lo n : Nat} {a : α}
    (step : ∀ i x, lo ≤ i → i < lo + n → I i x → I (i + 1) (f i x)) (init : I lo a) : I (lo + n) (loopUp f lo n a) := by
  induction n generalizing lo a with
  | zero => exact init
  | succ n ih =>
    have next := step lo a (by omega) (by omega) init
    have ends := ih (fun i x loLe hi => step i x (by omega) (by omega)) next
    rwa [show lo + (n + 1) = lo + 1 + n by omega]

/-- The invariant of a downward loop is indexed by the iterations still to come. -/
theorem loopDown_ind {α : Type} {f : Nat → α → α} (I : Nat → α → Prop) {lo n : Nat} {a : α}
    (step : ∀ j x, j < n → I (j + 1) x → I j (f (lo + j) x)) (init : I n a) : I 0 (loopDown f lo n a) := by
  induction n generalizing a with
  | zero => exact init
  | succ n ih =>
    exact ih (fun j x jLt => step j x (by omega)) (step n a (by omega) init)

end MeowOs.Machine
