import Mathlib.Order.Basic

/-! Runs of a deterministic system: a list of actions executed one after the other. What holds in
every state of a run, what is allowed at every step of it, and when the two agree. -/

namespace MetricBackend

variable {σ α : Type} (execute : σ → α → σ)

/-- The property holds in every state of the run, the first and the last too. -/
def Always (holds : σ → Prop) : σ → List α → Prop
  | state, [] => holds state
  | state, action :: actions => holds state ∧ Always holds (execute state action) actions

/-- Every action of the run is allowed in the state it is taken in. -/
def Throughout (allowed : σ → α → Prop) : σ → List α → Prop
  | _, [] => True
  | state, action :: actions =>
      allowed state action ∧ Throughout allowed (execute state action) actions

instance decidableThroughout {allowed : σ → α → Prop} [∀ state action, Decidable (allowed state action)] :
    ∀ (state : σ) (actions : List α), Decidable (Throughout execute allowed state actions)
  | _, [] => .isTrue trivial
  | state, action :: actions =>
      have : Decidable (Throughout execute allowed (execute state action) actions) :=
        decidableThroughout (execute state action) actions
      inferInstanceAs (Decidable (allowed state action
        ∧ Throughout execute allowed (execute state action) actions))

variable {execute} {holds invariant : σ → Prop} {allowed : σ → α → Prop}

/-- An invariant that allowed actions keep holds all along a run of them. -/
theorem always_of_throughout (himp : ∀ state, invariant state → holds state)
    (hstep : ∀ state action, invariant state → allowed state action →
      invariant (execute state action))
    (actions : List α) (state : σ) (hinit : invariant state)
    (hallowed : Throughout execute allowed state actions) : Always execute holds state actions := by
  induction actions generalizing state with
  | nil => exact himp state hinit
  | cons action actions ih =>
      exact ⟨himp state hinit, ih _ (hstep state action hinit hallowed.1) hallowed.2⟩

theorem throughout_of_forall (hall : ∀ state action, allowed state action) (state : σ)
    (actions : List α) : Throughout execute allowed state actions := by
  induction actions generalizing state with
  | nil => trivial
  | cons action actions ih => exact ⟨hall state action, ih (execute state action)⟩

theorem Throughout.and {other : σ → α → Prop} {state : σ} {actions : List α}
    (h : Throughout execute allowed state actions) (hother : Throughout execute other state actions) :
    Throughout execute (fun state action => allowed state action ∧ other state action) state actions := by
  induction actions generalizing state with
  | nil => trivial
  | cons action actions ih => exact ⟨⟨h.1, hother.1⟩, ih h.2 hother.2⟩

theorem Throughout.and_forall {property : α → Prop} {state : σ} {actions : List α}
    (h : Throughout execute allowed state actions) (hactions : ∀ action ∈ actions, property action) :
    Throughout execute (fun state action => property action ∧ allowed state action) state actions := by
  induction actions generalizing state with
  | nil => trivial
  | cons action actions ih =>
      rw [List.forall_mem_cons] at hactions
      exact ⟨⟨hactions.1, h.1⟩, ih h.2 hactions.2⟩

theorem Always.first {state : σ} {actions : List α} (h : Always execute holds state actions) :
    holds state := by
  cases actions with
  | nil => exact h
  | cons action actions => exact h.1

theorem Always.last {state : σ} {actions : List α} (h : Always execute holds state actions) :
    holds (actions.foldl execute state) := by
  induction actions generalizing state with
  | nil => exact h
  | cons action actions ih => exact ih h.2

/-- When an action that is not allowed breaks the property at once, the property holds along a run
exactly when the run is allowed. -/
theorem always_iff_throughout (himp : ∀ state, invariant state → holds state)
    (hstep : ∀ state action, invariant state → allowed state action →
      invariant (execute state action))
    (hbreak : ∀ state action, invariant state → ¬ allowed state action →
      ¬ holds (execute state action))
    (actions : List α) (state : σ) (hinit : invariant state) :
    Always execute holds state actions ↔ Throughout execute allowed state actions := by
  refine ⟨fun h => ?_, always_of_throughout himp hstep actions state hinit⟩
  induction actions generalizing state with
  | nil => trivial
  | cons action actions ih =>
      have hallowed : allowed state action := by
        by_contra hnot
        exact hbreak state action hinit hnot h.2.first
      exact ⟨hallowed, ih _ (hstep state action hinit hallowed) h.2⟩

end MetricBackend
