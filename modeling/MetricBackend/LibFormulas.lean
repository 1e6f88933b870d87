import Mathlib
import MetricBackend.LibFallible

/-! Boolean formulas over a type of predicates, with conjunctions and disjunctions of lists: folds, sizes,
values and changes of the predicates. -/

namespace MetricBackend

inductive Formula (α : Type) where
  | predicate (value : α)
  | not (value : Formula α)
  | and (values : List (Formula α))
  | or (values : List (Formula α))

namespace Formula

variable {α β γ ε : Type}

@[induction_eliminator]
theorem induction {motive : Formula α → Prop} (predicate : ∀ value, motive (.predicate value))
    (not : ∀ value, motive value → motive (.not value))
    (and : ∀ values, (∀ value ∈ values, motive value) → motive (.and values))
    (or : ∀ values, (∀ value ∈ values, motive value) → motive (.or values)) (formula : Formula α) :
    motive formula :=
  @Formula.rec α motive (fun values => ∀ value ∈ values, motive value)
    predicate not and or (fun _ h => absurd h List.not_mem_nil)
    (fun _ _ hhead htail => List.forall_mem_cons.mpr ⟨hhead, htail⟩) formula

/-! ### Folds -/

section Fold

variable (predicate : α → β) (not : β → β) (and or : List β → β)

mutual

/-- Puts an operation in the place of each constructor. -/
def fold : Formula α → β
  | .predicate value => predicate value
  | .not value => not (fold value)
  | .and values => and (foldList values)
  | .or values => or (foldList values)

def foldList : List (Formula α) → List β
  | [] => []
  | value :: values => fold value :: foldList values

end

theorem foldList_eq_map (values : List (Formula α)) :
    foldList predicate not and or values = values.map (fold predicate not and or) := by
  induction values with
  | nil => rfl
  | cons value values ih => rw [foldList, ih, List.map_cons]

theorem fold_predicate (value : α) : fold predicate not and or (.predicate value) = predicate value := rfl

theorem fold_not (value : Formula α) :
    fold predicate not and or (.not value) = not (fold predicate not and or value) := rfl

theorem fold_and (values : List (Formula α)) :
    fold predicate not and or (.and values) = and (values.map (fold predicate not and or)) := by
  rw [fold, foldList_eq_map]

theorem fold_or (values : List (Formula α)) :
    fold predicate not and or (.or values) = or (values.map (fold predicate not and or)) := by
  rw [fold, foldList_eq_map]

end Fold

/-! ### Sizes -/

/-- The predicates, from left to right. -/
def predicates : Formula α → List α := fold (fun value => [value]) id List.flatten List.flatten

@[simp] theorem predicates_predicate (value : α) : predicates (.predicate value) = [value] := rfl

@[simp] theorem predicates_not (value : Formula α) : predicates (.not value) = value.predicates := rfl

@[simp] theorem predicates_and (values : List (Formula α)) :
    predicates (.and values) = (values.map predicates).flatten := fold_and ..

@[simp] theorem predicates_or (values : List (Formula α)) :
    predicates (.or values) = (values.map predicates).flatten := fold_or ..

def predicateCount : Formula α → Nat := fold (fun _ => 1) id List.sum List.sum

@[simp] theorem predicateCount_predicate (value : α) : predicateCount (.predicate value) = 1 := rfl

@[simp] theorem predicateCount_not (value : Formula α) : predicateCount (.not value) = value.predicateCount :=
  rfl

@[simp] theorem predicateCount_and (values : List (Formula α)) :
    predicateCount (.and values) = (values.map predicateCount).sum := fold_and ..

@[simp] theorem predicateCount_or (values : List (Formula α)) :
    predicateCount (.or values) = (values.map predicateCount).sum := fold_or ..

def nodeCount : Formula α → Nat :=
  fold (fun _ => 1) (· + 1) (fun counts => counts.sum + 1) fun counts => counts.sum + 1

@[simp] theorem nodeCount_predicate (value : α) : nodeCount (.predicate value) = 1 := rfl

@[simp] theorem nodeCount_not (value : Formula α) : nodeCount (.not value) = value.nodeCount + 1 := rfl

@[simp] theorem nodeCount_and (values : List (Formula α)) :
    nodeCount (.and values) = (values.map nodeCount).sum + 1 := fold_and ..

@[simp] theorem nodeCount_or (values : List (Formula α)) :
    nodeCount (.or values) = (values.map nodeCount).sum + 1 := fold_or ..

/-- The alternatives of all disjunctions. -/
def orAlternatives : Formula α → Nat := fold (fun _ => 0) id List.sum fun counts => counts.length + counts.sum

@[simp] theorem orAlternatives_predicate (value : α) : orAlternatives (.predicate value) = 0 := rfl

@[simp] theorem orAlternatives_not (value : Formula α) : orAlternatives (.not value) = value.orAlternatives :=
  rfl

@[simp] theorem orAlternatives_and (values : List (Formula α)) :
    orAlternatives (.and values) = (values.map orAlternatives).sum := fold_and ..

@[simp] theorem orAlternatives_or (values : List (Formula α)) :
    orAlternatives (.or values) = values.length + (values.map orAlternatives).sum := by
  rw [orAlternatives, fold_or, List.length_map]

/-- Every conjunction and every disjunction has at least two members. -/
def branching : Formula α → Bool :=
  fold (fun _ => true) id (fun values => 2 ≤ values.length && values.all id)
    fun values => 2 ≤ values.length && values.all id

@[simp] theorem branching_predicate (value : α) : branching (.predicate value) = true := rfl

@[simp] theorem branching_not (value : Formula α) : branching (.not value) = value.branching := rfl

@[simp] theorem branching_and (values : List (Formula α)) :
    branching (.and values) = true ↔ 2 ≤ values.length ∧ ∀ value ∈ values, value.branching = true := by
  rw [branching, fold_and]
  simp

@[simp] theorem branching_or (values : List (Formula α)) :
    branching (.or values) = true ↔ 2 ≤ values.length ∧ ∀ value ∈ values, value.branching = true := by
  rw [branching, fold_or]
  simp

/-! ### Values -/

/-- The truth of a formula. -/
def eval (holds : α → Bool) : Formula α → Bool := fold holds (!·) (·.all id) (·.any id)

@[simp] theorem eval_predicate (holds : α → Bool) (value : α) : eval holds (.predicate value) = holds value :=
  rfl

@[simp] theorem eval_not (holds : α → Bool) (value : Formula α) :
    eval holds (.not value) = !eval holds value := rfl

@[simp] theorem eval_and (holds : α → Bool) (values : List (Formula α)) :
    eval holds (.and values) = values.all (eval holds) := by
  rw [eval, fold_and, List.all_map]
  rfl

@[simp] theorem eval_or (holds : α → Bool) (values : List (Formula α)) :
    eval holds (.or values) = values.any (eval holds) := by
  rw [eval, fold_or, List.any_map]
  rfl

/-! ### Changes of the predicates -/

def map (f : α → β) : Formula α → Formula β := fold (.predicate ∘ f) .not .and .or

@[simp] theorem map_predicate (f : α → β) (value : α) : map f (.predicate value) = .predicate (f value) := rfl

@[simp] theorem map_not (f : α → β) (value : Formula α) : map f (.not value) = .not (value.map f) := rfl

@[simp] theorem map_and (f : α → β) (values : List (Formula α)) :
    map f (.and values) = .and (values.map (map f)) := fold_and ..

@[simp] theorem map_or (f : α → β) (values : List (Formula α)) :
    map f (.or values) = .or (values.map (map f)) := fold_or ..

/-- Changes every predicate, or fails as the first one that cannot be changed. -/
def mapM (f : α → Except ε β) : Formula α → Except ε (Formula β) :=
  fold (fun value => .predicate <$> f value) (.not <$> ·) (fun results => .and <$> results.mapM id)
    fun results => .or <$> results.mapM id

theorem fold_map (f : α → β) (predicate : β → γ) (not : γ → γ) (and or : List γ → γ) (formula : Formula α) :
    fold predicate not and or (formula.map f) = fold (predicate ∘ f) not and or formula := by
  induction formula using Formula.induction with
  | predicate value => rfl
  | not value ih => exact congrArg not ih
  | and values ih =>
      rw [map_and, fold_and, fold_and, List.map_map]
      exact congrArg and (List.map_congr_left ih)
  | or values ih =>
      rw [map_or, fold_or, fold_or, List.map_map]
      exact congrArg or (List.map_congr_left ih)

section Map

variable (f : α → β) (formula : Formula α)

@[simp] theorem predicateCount_map : (formula.map f).predicateCount = formula.predicateCount := fold_map ..

@[simp] theorem nodeCount_map : (formula.map f).nodeCount = formula.nodeCount := fold_map ..

@[simp] theorem orAlternatives_map : (formula.map f).orAlternatives = formula.orAlternatives := fold_map ..

@[simp] theorem branching_map : (formula.map f).branching = formula.branching := fold_map ..

theorem predicates_map : (formula.map f).predicates = formula.predicates.map f := by
  induction formula using Formula.induction with
  | predicate value => rfl
  | not value ih => exact ih
  | and values ih =>
      simp only [map_and, predicates_and, List.map_flatten, List.map_map]
      exact congrArg List.flatten (List.map_congr_left ih)
  | or values ih =>
      simp only [map_or, predicates_or, List.map_flatten, List.map_map]
      exact congrArg List.flatten (List.map_congr_left ih)

end Map

theorem forall_mem_predicates_flatten {values : List (Formula α)} {post : α → Prop} :
    (∀ value ∈ (values.map predicates).flatten, post value)
      ↔ ∀ formula ∈ values, ∀ value ∈ formula.predicates, post value := by
  simp only [List.mem_flatten, List.mem_map]
  constructor
  · intro h formula hformula value hvalue
    exact h value ⟨_, ⟨formula, hformula, rfl⟩, hvalue⟩
  · rintro h value ⟨_, ⟨formula, hformula, rfl⟩, hvalue⟩
    exact h formula hformula value hvalue

section MapM

variable {f : α → Except ε β} {check : α → Prop} {value : α → β}

theorem mapM_and (values : List (Formula α)) : mapM f (.and values) = .and <$> (values.map (mapM f)).mapM id :=
  fold_and ..

theorem mapM_or (values : List (Formula α)) : mapM f (.or values) = .or <$> (values.map (mapM f)).mapM id :=
  fold_or ..

theorem mapM_list_eq_ok {values : List (Formula α)} {results : List (Formula β)}
    (ih : ∀ formula ∈ values, ∀ result, mapM f formula = .ok result
      ↔ (∀ item ∈ formula.predicates, check item) ∧ result = formula.map value) :
    (values.map (mapM f)).mapM id = .ok results
      ↔ (∀ item ∈ (values.map predicates).flatten, check item) ∧ results = values.map (map value) := by
  rw [List.mapM_map, forall_mem_predicates_flatten]
  exact mapM_eq_ok_iff_of_mem ih

/-- A change that can fail: every predicate passes its check, and each one has its value. -/
theorem mapM_eq_ok (hf : ∀ item result, f item = .ok result ↔ check item ∧ result = value item)
    {formula : Formula α} {result : Formula β} :
    mapM f formula = .ok result ↔ (∀ item ∈ formula.predicates, check item) ∧ result = formula.map value := by
  induction formula using Formula.induction generalizing result with
  | predicate item =>
      rw [mapM, fold_predicate]
      simp only [map_eq_ok, hf, predicates_predicate, List.forall_mem_singleton, map_predicate]
      constructor
      · rintro ⟨_, ⟨hitem, rfl⟩, rfl⟩
        exact ⟨hitem, rfl⟩
      · rintro ⟨hitem, rfl⟩
        exact ⟨_, ⟨hitem, rfl⟩, rfl⟩
  | not inner ih =>
      rw [mapM, fold_not, ← mapM]
      simp only [map_eq_ok, ih, predicates_not, map_not]
      constructor
      · rintro ⟨_, ⟨hinner, rfl⟩, rfl⟩
        exact ⟨hinner, rfl⟩
      · rintro ⟨hinner, rfl⟩
        exact ⟨_, ⟨hinner, rfl⟩, rfl⟩
  | and values ih =>
      rw [mapM_and]
      simp only [map_eq_ok, mapM_list_eq_ok fun formula hformula result => ih formula hformula, predicates_and,
        map_and]
      constructor
      · rintro ⟨_, ⟨hvalues, rfl⟩, rfl⟩
        exact ⟨hvalues, rfl⟩
      · rintro ⟨hvalues, rfl⟩
        exact ⟨_, ⟨hvalues, rfl⟩, rfl⟩
  | or values ih =>
      rw [mapM_or]
      simp only [map_eq_ok, mapM_list_eq_ok fun formula hformula result => ih formula hformula, predicates_or,
        map_or]
      constructor
      · rintro ⟨_, ⟨hvalues, rfl⟩, rfl⟩
        exact ⟨hvalues, rfl⟩
      · rintro ⟨hvalues, rfl⟩
        exact ⟨_, ⟨hvalues, rfl⟩, rfl⟩

/-- The value of a computation, or another one when it fails. -/
def okOr (fallback : β) : Except ε β → β
  | .ok value => value
  | .error _ => fallback

theorem mapM_eq_ok_okOr (fallback : β) {formula : Formula α} {result : Formula β} :
    mapM f formula = .ok result
      ↔ (∀ item ∈ formula.predicates, ∃ value, f item = .ok value)
        ∧ result = formula.map fun item => okOr fallback (f item) := by
  refine mapM_eq_ok fun item result => ?_
  cases f item with
  | ok value => simp [okOr, eq_comm]
  | error error => simp

end MapM

end Formula

end MetricBackend
