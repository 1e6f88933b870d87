import Mathlib.Data.List.Basic
import MetricBackend.LibSplits

/-! Texts that are read back, and codes with marks: what stands before the first mark is determined, and so are the code words of a list with a
separator between them and a mark behind them. -/

namespace MetricBackend

/-- A property of all characters of a text, tested one by one. -/
theorem forall_mem_of_all {property : Char → Prop} [DecidablePred property] {text : Text}
    (h : text.all fun c => property c) : ∀ c ∈ text, property c := fun c hc =>
  of_decide_eq_true (List.all_eq_true.mp h c hc)

/-- What can be read back is written without collisions. -/
theorem injective_of_reads {α β : Type} {write : α → β} {read : β → Option α}
    (h : ∀ value, read (write value) = some value) : Function.Injective write := by
  intro left right heq
  have hread := h left
  rw [heq, h right, Option.some_inj] at hread
  exact hread.symm

section Marks

variable {γ : Type} {marked : γ → Prop}

/-- The first marks of equal texts are equal, and so is what stands around them. -/
theorem append_mark_inj {left right rest other : List γ} {c d : γ} (hleft : ∀ item ∈ left, ¬ marked item)
    (hright : ∀ item ∈ right, ¬ marked item) (hc : marked c) (hd : marked d)
    (h : left ++ c :: rest = right ++ d :: other) : left = right ∧ c = d ∧ rest = other := by
  induction left generalizing right with
  | nil =>
      cases right with
      | nil => exact ⟨rfl, List.cons.inj h⟩
      | cons item right =>
          have heq : c = item := (List.cons.inj h).1
          exact absurd (heq ▸ hc) (hright item List.mem_cons_self)
  | cons item left ih =>
      rw [List.forall_mem_cons] at hleft
      cases right with
      | nil =>
          have heq : item = d := (List.cons.inj h).1
          exact absurd hd (heq ▸ hleft.1)
      | cons second right =>
          rw [List.forall_mem_cons] at hright
          obtain ⟨rfl, hrest⟩ := List.cons.inj h
          obtain ⟨rfl, hmarks⟩ := ih hleft.2 hright.2 hrest
          exact ⟨rfl, hmarks⟩

/-- So are the last marks. -/
theorem mark_append_inj {left right rest other : List γ} {c d : γ} (hleft : ∀ item ∈ left, ¬ marked item)
    (hright : ∀ item ∈ right, ¬ marked item) (hc : marked c) (hd : marked d)
    (h : rest ++ c :: left = other ++ d :: right) : rest = other ∧ c = d ∧ left = right := by
  have hreverse := congrArg List.reverse h
  rw [List.reverse_append, List.reverse_append, List.reverse_cons, List.reverse_cons, List.append_assoc,
    List.append_assoc, List.singleton_append, List.singleton_append] at hreverse
  obtain ⟨hlast, hmark, hfirst⟩ := append_mark_inj (fun item hitem => hleft item (List.mem_reverse.mp hitem))
    (fun item hitem => hright item (List.mem_reverse.mp hitem)) hc hd hreverse
  exact ⟨List.reverse_injective hfirst, hmark, List.reverse_injective hlast⟩

end Marks

section Joined

variable {α γ : Type} {encode : α → List γ} {separator close : γ}

/-- The code word of a value is found again at the start of any text that begins with it. -/
def Delimited (encode : α → List γ) (left : α) : Prop :=
  ∀ ⦃right : α⦄ ⦃rest other : List γ⦄, encode left ++ rest = encode right ++ other → left = right ∧ rest = other

/-- The code words of a list, with a separator between them and a mark behind them, are found again. -/
theorem joined_inj (hne : separator ≠ close)
    (hfirst : ∀ value, ∃ first rest, encode value = first :: rest ∧ first ≠ close) {left right : List α}
    {rest other : List γ} (h : ∀ value ∈ left, Delimited encode value)
    (heq : ((left.map encode).intersperse [separator]).flatten ++ close :: rest
      = ((right.map encode).intersperse [separator]).flatten ++ close :: other) : left = right ∧ rest = other := by
  have hempty : ∀ {value : α} {values : List α} {rest other : List γ},
      close :: rest ≠ (((value :: values).map encode).intersperse [separator]).flatten ++ other := by
    intro value values rest other heq
    obtain ⟨first, word, hword, hmark⟩ := hfirst value
    cases values with
    | nil =>
        rw [List.map_singleton, joined_singleton, hword] at heq
        exact hmark (List.cons.inj heq).1.symm
    | cons second values =>
        rw [List.map_cons, List.map_cons, joined_cons, hword] at heq
        exact hmark (List.cons.inj heq).1.symm
  induction left generalizing right with
  | nil =>
      cases right with
      | nil => exact ⟨rfl, (List.cons.inj heq).2⟩
      | cons value right => exact absurd heq hempty
  | cons value left ih =>
      rw [List.forall_mem_cons] at h
      cases right with
      | nil => exact absurd heq.symm hempty
      | cons second right =>
          cases left with
          | nil =>
              cases right with
              | nil =>
                  rw [List.map_singleton, List.map_singleton, joined_singleton, joined_singleton] at heq
                  obtain ⟨rfl, hrest⟩ := h.1 heq
                  exact ⟨rfl, (List.cons.inj hrest).2⟩
              | cons third right =>
                  rw [List.map_singleton, joined_singleton, List.map_cons, List.map_cons, joined_cons,
                    List.append_assoc] at heq
                  exact absurd (List.cons.inj (h.1 heq).2).1.symm hne
          | cons next left =>
              cases right with
              | nil =>
                  rw [List.map_cons, List.map_cons, joined_cons, List.append_assoc, List.map_singleton,
                    joined_singleton] at heq
                  exact absurd (List.cons.inj (h.1 heq).2).1 hne
              | cons third right =>
                  rw [List.map_cons, List.map_cons, joined_cons, List.append_assoc, List.map_cons, List.map_cons,
                    joined_cons, List.append_assoc] at heq
                  obtain ⟨rfl, htail⟩ := h.1 heq
                  have hlast : (((next :: left).map encode).intersperse [separator]).flatten ++ close :: rest
                      = (((third :: right).map encode).intersperse [separator]).flatten ++ close :: other :=
                    (List.cons.inj htail).2
                  obtain ⟨hlists, hrest⟩ := ih h.2 hlast
                  rw [hlists]
                  exact ⟨rfl, hrest⟩

end Joined

end MetricBackend
