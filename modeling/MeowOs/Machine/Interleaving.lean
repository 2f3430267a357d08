import Mathlib

/-! # Interleaved runs

A system takes one action after another; an action that is not possible in a
state, or that never returns, has no next state.  `runs_keeps` and
`runs_keeps_while` are the invariant rules, the second for runs whose actions
all meet a condition in the state they are taken in.

A system may keep the history of what it did.  `EachRecord` says that every record
of it is justified by those before it.

The last part is about systems with any number of members, each in a local state:
how the number of members with a property changes when one member moves.
-/

namespace MeowOs.Machine

variable {σ α : Type}

/-- The state after a list of actions. -/
def runs (step : σ → α → Option σ) : σ → List α → Option σ
  | state, [] => some state
  | state, action :: rest => (step state action).bind fun next => runs step next rest

/-- Every action of the run meets `allowed` in the state it is taken in. -/
def EachStep (step : σ → α → Option σ) (allowed : σ → α → Prop) : σ → List α → Prop
  | _, [] => True
  | state, action :: rest => allowed state action ∧
      ∀ next, step state action = some next → EachStep step allowed next rest

/-- Every state of the run meets `good`. -/
def EachState (step : σ → α → Option σ) (good : σ → Prop) : σ → List α → Prop
  | state, [] => good state
  | state, action :: rest => good state ∧ ∀ next, step state action = some next → EachState step good next rest

instance EachStep.decidable (step : σ → α → Option σ) (allowed : σ → α → Prop) [∀ state, DecidablePred (allowed state)] :
    ∀ (state : σ) (actions : List α), Decidable (EachStep step allowed state actions)
  | _, [] => inferInstanceAs (Decidable True)
  | state, action :: rest =>
    match reached : step state action with
    | none => decidable_of_iff (allowed state action) (by simp [EachStep, reached])
    | some next =>
      have := EachStep.decidable step allowed next rest
      decidable_of_iff (allowed state action ∧ EachStep step allowed next rest) (by simp [EachStep, reached])

instance EachState.decidable (step : σ → α → Option σ) (good : σ → Prop) [DecidablePred good] :
    ∀ (state : σ) (actions : List α), Decidable (EachState step good state actions)
  | state, [] => inferInstanceAs (Decidable (good state))
  | state, action :: rest =>
    match reached : step state action with
    | none => decidable_of_iff (good state) (by simp [EachState, reached])
    | some next =>
      have := EachState.decidable step good next rest
      decidable_of_iff (good state ∧ EachState step good next rest) (by simp [EachState, reached])

section Runs

variable {step : σ → α → Option σ} {start finish : σ} {actions : List α} {good : σ → Prop}

theorem runs_append (first second : List α) :
    runs step start (first ++ second) = (runs step start first).bind fun state => runs step state second := by
  induction first generalizing start with
  | nil => rfl
  | cons action rest ih =>
    rw [List.cons_append, runs, runs]
    cases step start action with
    | none => rfl
    | some next => exact ih

theorem runs_keeps_while {allowed : σ → α → Prop} (invariant : σ → Prop)
    (keeps : ∀ {state action next}, invariant state → allowed state action → step state action = some next →
      invariant next)
    (each : EachStep step allowed start actions) (run : runs step start actions = some finish)
    (holds : invariant start) : invariant finish := by
  induction actions generalizing start with
  | nil =>
    cases run
    exact holds
  | cons action rest ih =>
    obtain ⟨next, first, run⟩ := Option.bind_eq_some_iff.mp run
    exact ih (each.2 next first) run (keeps holds each.1 first)

theorem runs_keeps (invariant : σ → Prop)
    (keeps : ∀ {state action next}, invariant state → step state action = some next → invariant next)
    (run : runs step start actions = some finish) (holds : invariant start) : invariant finish := by
  have each : EachStep step (fun _ _ => True) start actions := by
    clear run holds
    induction actions generalizing start with
    | nil => trivial
    | cons action rest ih => exact ⟨trivial, fun next _ => ih⟩
  exact runs_keeps_while invariant (fun holds _ first => keeps holds first) each run holds

theorem EachStep.and {first second : σ → α → Prop} (each : EachStep step first start actions)
    (also : EachStep step second start actions) :
    EachStep step (fun state action => first state action ∧ second state action) start actions := by
  induction actions generalizing start with
  | nil => trivial
  | cons action rest ih =>
    exact ⟨⟨each.1, also.1⟩, fun next taken => ih (each.2 next taken) (also.2 next taken)⟩

theorem EachState.at_start (each : EachState step good start actions) : good start := by
  cases actions with
  | nil => exact each
  | cons action rest => exact each.1

/-- A run through good states only is one whose steps all lead to good states. -/
theorem EachState.steps (each : EachState step good start actions) :
    EachStep step (fun state action => ∀ next, step state action = some next → good next) start actions := by
  induction actions generalizing start with
  | nil => trivial
  | cons action rest ih =>
    refine ⟨fun next first => (each.2 next first).at_start, fun next first => ?_⟩
    exact ih (each.2 next first)

end Runs

/-! ## Histories -/

/-- Every record of the history is justified by the records before it. -/
def EachRecord (justified : List α → α → Prop) (history : List α) : Prop :=
  ∀ before record after, history = before ++ record :: after → justified before record

section Histories

variable {justified : List α → α → Prop} {history : List α} {record : α}

theorem EachRecord.snoc (each : EachRecord justified history) (last : justified history record) :
    EachRecord justified (history ++ [record]) := by
  intro before found after split
  rcases List.eq_nil_or_concat after with rfl | ⟨rest, final, rfl⟩
  · obtain ⟨rfl, same⟩ := List.append_inj' split rfl
    cases same
    exact last
  · rw [List.concat_eq_append, ← List.cons_append, ← List.append_assoc] at split
    exact each before found rest (List.append_inj' split rfl).1

theorem EachRecord.of_snoc (each : EachRecord justified (history ++ [record])) :
    EachRecord justified history ∧ justified history record := by
  refine ⟨fun before found after split => ?_, each history record [] rfl⟩
  exact each before found (after ++ [record]) (by rw [split, List.append_assoc, List.cons_append])

end Histories

/-! ## Counting members -/

section Members

variable {members : List α} {index : Nat} {old : α} {property : α → Bool}

theorem countP_of_getElem? (property : α → Bool) (found : members[index]? = some old) :
    members.countP property = (members.eraseIdx index).countP property + (property old).toNat := by
  obtain ⟨inside, same⟩ := List.getElem?_eq_some_iff.mp found
  rw [← List.Perm.countP_eq property (List.getElem_cons_eraseIdx_perm inside), same, List.countP_cons]
  cases property old with
  | false => rfl
  | true => rfl

theorem countP_set_of_getElem? (property : α → Bool) (found : members[index]? = some old) (new : α) :
    (members.set index new).countP property = (members.eraseIdx index).countP property + (property new).toNat := by
  obtain ⟨inside, -⟩ := List.getElem?_eq_some_iff.mp found
  have moved : (members.set index new)[index]? = some new := List.getElem?_set_self inside
  rw [countP_of_getElem? property moved, List.eraseIdx_set_eq]

theorem countP_pos_of_getElem? (found : members[index]? = some old)
    (holds : property old = true) : 0 < members.countP property :=
  List.countP_pos_iff.mpr ⟨old, List.mem_of_getElem? found, holds⟩

theorem two_le_countP {other : Nat} {new : α} (found : members[index]? = some old)
    (holds : property old = true) (otherFound : members[other]? = some new) (otherHolds : property new = true)
    (different : index ≠ other) : 2 ≤ members.countP property := by
  induction members generalizing index other with
  | nil => cases found
  | cons first rest ih =>
    cases index with
    | zero =>
      cases found
      cases other with
      | zero => exact absurd rfl different
      | succ other =>
        have otherFound : rest[other]? = some new := otherFound
        have positive := countP_pos_of_getElem? otherFound otherHolds
        rw [List.countP_cons, if_pos holds]
        omega
    | succ index =>
      cases other with
      | zero =>
        cases otherFound
        have found : rest[index]? = some old := found
        have positive := countP_pos_of_getElem? found holds
        rw [List.countP_cons, if_pos otherHolds]
        omega
      | succ other =>
        have two := ih found otherFound (by omega)
        rw [List.countP_cons]
        omega

/-- What all members together weigh. -/
def total (weight : α → Nat) (members : List α) : Nat := (members.map weight).sum

section

variable (weight : α → Nat)

include weight

theorem total_of_getElem? (found : members[index]? = some old) :
    total weight members = total weight (members.eraseIdx index) + weight old := by
  obtain ⟨inside, same⟩ := List.getElem?_eq_some_iff.mp found
  rw [total, ← ((List.getElem_cons_eraseIdx_perm inside).map weight).sum_nat, same, List.map_cons, List.sum_cons,
    Nat.add_comm]
  rfl

theorem total_set_of_getElem? (found : members[index]? = some old) (new : α) :
    total weight (members.set index new) = total weight (members.eraseIdx index) + weight new := by
  obtain ⟨inside, -⟩ := List.getElem?_eq_some_iff.mp found
  have moved : (members.set index new)[index]? = some new := List.getElem?_set_self inside
  rw [total_of_getElem? weight moved, List.eraseIdx_set_eq]

theorem total_append (first second : List α) :
    total weight (first ++ second) = total weight first + total weight second := by
  rw [total, List.map_append, List.sum_append]
  rfl

@[simp] theorem total_nil : total weight [] = 0 := rfl
@[simp] theorem total_singleton (member : α) : total weight [member] = weight member := by
  rw [total, List.map_singleton, List.sum_singleton]

theorem weight_le_total {member : α} (inside : member ∈ members) : weight member ≤ total weight members := by
  obtain ⟨index, found⟩ := List.getElem?_of_mem inside
  rw [total_of_getElem? weight found]
  omega

end

theorem total_eq_zero {weight : α → Nat} (none : ∀ member ∈ members, weight member = 0) : total weight members = 0 := by
  induction members with
  | nil => rfl
  | cons first rest ih =>
    have rest := ih fun member inside => none member (.tail _ inside)
    rw [total, List.map_cons, List.sum_cons, none first (.head _), Nat.zero_add]
    exact rest

end Members

/-- A shared state, and the members that work on it. -/
structure Team (σ μ : Type) where
  shared : σ
  members : List μ

namespace Team

variable {μ : Type}

def step (move : σ → μ → α → Option (μ × σ)) (team : Team σ μ) (turn : Nat × α) : Option (Team σ μ) := do
  let member ← team.members[turn.1]?
  let (member, shared) ← move team.shared member turn.2
  some ⟨shared, team.members.set turn.1 member⟩

theorem step_eq_some {move : σ → μ → α → Option (μ × σ)} {team next : Team σ μ} {turn : Nat × α}
    (stepped : team.step move turn = some next) :
    ∃ old new shared, team.members[turn.1]? = some old ∧ move team.shared old turn.2 = some (new, shared) ∧
      next = ⟨shared, team.members.set turn.1 new⟩ := by
  obtain ⟨old, found, stepped⟩ := Option.bind_eq_some_iff.mp stepped
  obtain ⟨⟨new, shared⟩, moved, stepped⟩ := Option.bind_eq_some_iff.mp stepped
  cases stepped
  exact ⟨old, new, shared, found, moved, rfl⟩

end Team

end MeowOs.Machine
