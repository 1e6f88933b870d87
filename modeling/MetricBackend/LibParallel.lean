import Mathlib.Data.List.Forall2

/-! Lists that are related element by element. -/

namespace MetricBackend

variable {α β γ : Type} {relation : α → β → Prop} {lefts : List α} {rights : List β}

theorem map_eq_of_forall₂ {f : α → γ} {g : β → γ} (hsame : ∀ left right, relation left right → f left = g right)
    (h : List.Forall₂ relation lefts rights) : lefts.map f = rights.map g := by
  induction h with
  | nil => rfl
  | cons hhead _ ih => rw [List.map_cons, List.map_cons, hsame _ _ hhead, ih]

theorem filterMap_eq_of_forall₂ {f : α → Option γ} {g : β → Option γ}
    (hsame : ∀ left right, relation left right → f left = g right) (h : List.Forall₂ relation lefts rights) :
    lefts.filterMap f = rights.filterMap g := by
  induction h with
  | nil => rfl
  | cons hhead _ ih => rw [List.filterMap_cons, List.filterMap_cons, hsame _ _ hhead, ih]

theorem zipIdx_of_forall₂ (h : List.Forall₂ relation lefts rights) (start : Nat) :
    List.Forall₂ (fun left right => relation left.1 right.1 ∧ left.2 = right.2) (lefts.zipIdx start)
      (rights.zipIdx start) := by
  induction h generalizing start with
  | nil => exact .nil
  | cons hhead _ ih => exact .cons ⟨hhead, rfl⟩ (ih (start + 1))

theorem flatMap_of_forall₂ {δ ε : Type} {inner : δ → ε → Prop} {f : α → List δ} {g : β → List ε}
    (hinner : ∀ left right, relation left right → List.Forall₂ inner (f left) (g right))
    (h : List.Forall₂ relation lefts rights) : List.Forall₂ inner (lefts.flatMap f) (rights.flatMap g) := by
  induction h with
  | nil => exact .nil
  | cons hhead _ ih =>
      rw [List.flatMap_cons, List.flatMap_cons]
      exact List.rel_append (hinner _ _ hhead) ih

/-- A search finds the only element that it looks for. -/
theorem find?_eq_some_of_unique {p : α → Bool} {items : List α} {item : α} (hmem : item ∈ items) (hitem : p item = true)
    (hunique : ∀ other ∈ items, p other = true → other = item) : items.find? p = some item := by
  cases hfind : items.find? p with
  | none => exact absurd hitem (List.find?_eq_none.mp hfind item hmem)
  | some other => rw [hunique other (List.mem_of_find?_eq_some hfind) (List.find?_some hfind)]

end MetricBackend
