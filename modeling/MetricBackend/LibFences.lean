import Mathlib.Order.Basic
import Mathlib.Order.Nat

/-! Slots fenced by generations. The content of a slot is collected in two steps, a claim and the collection, and comes
back under the next generation only; a slot whose content is gone may be forgotten, and then starts over. Who holds an
old generation of a slot that is not forgotten never meets live content under it. -/

namespace MetricBackend

inductive SlotPhase where
  | live
  | claimed
  | gone
  | reserved
deriving DecidableEq

structure Slot where
  generation : Nat
  phase : SlotPhase
deriving DecidableEq

namespace Slot

variable {generation : Nat} {slot next : Option Slot}

inductive Step : Option Slot → Option Slot → Prop where
  | same (slot : Option Slot) : Step slot slot
  | create : Step none (some ⟨0, .live⟩)
  | claim (generation : Nat) : Step (some ⟨generation, .live⟩) (some ⟨generation, .claimed⟩)
  | collect (generation : Nat) : Step (some ⟨generation, .claimed⟩) (some ⟨generation, .gone⟩)
  | reserve (generation : Nat) : Step (some ⟨generation, .gone⟩) (some ⟨generation + 1, .reserved⟩)
  | restore (generation : Nat) : Step (some ⟨generation, .reserved⟩) (some ⟨generation, .live⟩)
  | forget (generation : Nat) : Step (some ⟨generation, .gone⟩) none

/-- The content of this generation is being collected, or it is gone. -/
def Past (generation : Nat) : Option Slot → Prop
  | none => False
  | some slot =>
      generation < slot.generation ∨ slot.generation = generation ∧ (slot.phase = .claimed ∨ slot.phase = .gone)

theorem past_claimed : Past generation (some ⟨generation, .claimed⟩) := .inr ⟨rfl, .inl rfl⟩

theorem not_past_none : ¬ Past generation none := id

theorem not_past_live : ¬ Past generation (some ⟨generation, .live⟩) := by
  rintro (hlt | ⟨-, hphase | hphase⟩)
  · exact absurd hlt (lt_irrefl _)
  · cases hphase
  · cases hphase

/-- A generation stays in the past until the slot is forgotten. -/
theorem Past.step (hstep : Step slot next) (hnext : next ≠ none) (h : Past generation slot) : Past generation next := by
  cases hstep with
  | same => exact h
  | create => exact absurd h not_past_none
  | claim current =>
      rcases h with hlt | ⟨rfl, -⟩
      · exact .inl hlt
      · exact past_claimed
  | collect current =>
      rcases h with hlt | ⟨rfl, -⟩
      · exact .inl hlt
      · exact .inr ⟨rfl, .inr rfl⟩
  | reserve current =>
      rcases h with hlt | ⟨rfl, -⟩
      · exact .inl (Nat.lt_succ_of_lt hlt)
      · exact .inl (Nat.lt_succ_self _)
  | restore current =>
      rcases h with hlt | ⟨-, hphase | hphase⟩
      · exact .inl hlt
      · cases hphase
      · cases hphase
  | forget => exact absurd rfl hnext

end Slot

end MetricBackend
