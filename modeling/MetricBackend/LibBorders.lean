import Mathlib.Data.List.Basic
import Mathlib.Data.List.Infix

/-! Beginnings of a pattern at the end of a text: how the longest one changes with one more character, and the
borders of the pattern it falls back to. -/

namespace MetricBackend

variable {α : Type} {pattern text : List α} {size other : ℕ} {character : α}

/-- The first `size` characters of the pattern end the text. -/
def Reaches (pattern text : List α) (size : ℕ) : Prop :=
  size ≤ pattern.length ∧ pattern.take size <:+ text

theorem Reaches.zero : Reaches pattern text 0 := ⟨Nat.zero_le _, by simp⟩

theorem Reaches.le_length (h : Reaches pattern text size) : size ≤ text.length := by
  have hle := h.2.length_le
  rwa [List.length_take_of_le h.1] at hle

theorem reaches_length : Reaches pattern text pattern.length ↔ pattern <:+ text := by
  simp [Reaches]

theorem take_eq_append {at_ : α} (h : pattern[size]? = some at_) :
    pattern.take (size + 1) = pattern.take size ++ [at_] := by
  rw [List.take_add_one, h, Option.toList_some]

/-- One more character of the pattern is reached with that character only. -/
theorem reaches_succ :
    Reaches pattern (text ++ [character]) (size + 1)
      ↔ Reaches pattern text size ∧ pattern[size]? = some character := by
  constructor
  · intro ⟨hle, hsuffix⟩
    obtain ⟨found, hfound⟩ : ∃ found, pattern[size]? = some found := ⟨_, List.getElem?_eq_getElem (by omega)⟩
    rw [take_eq_append hfound] at hsuffix
    obtain hnil | ⟨rest, happend, hrest⟩ := List.suffix_concat_iff.mp hsuffix
    · simp at hnil
    · obtain ⟨hrest', hcharacter⟩ := List.append_inj' happend rfl
      refine ⟨⟨by omega, by rwa [hrest']⟩, ?_⟩
      rw [hfound, List.singleton_inj.mp hcharacter]
  · intro ⟨⟨_, hsuffix⟩, hcharacter⟩
    have hlt : size < pattern.length := (List.getElem?_eq_some_iff.mp hcharacter).1
    refine ⟨hlt, ?_⟩
    rw [take_eq_append hcharacter]
    exact List.suffix_append_inj_of_length_eq rfl |>.mpr ⟨hsuffix, rfl⟩

/-- What two beginnings reach, the shorter reaches in the longer, the whole of it apart. -/
theorem Reaches.tail (h : Reaches pattern text size) (hother : Reaches pattern text other) (hlt : other < size) :
    Reaches pattern (pattern.take size).tail other := by
  have hsuffix : pattern.take other <:+ pattern.take size := by
    refine List.suffix_of_suffix_length_le hother.2 h.2 ?_
    rw [List.length_take_of_le hother.1, List.length_take_of_le h.1]
    exact hlt.le
  refine ⟨hother.1, ?_⟩
  cases htake : pattern.take size with
  | nil =>
      rw [htake] at hsuffix
      exact hsuffix
  | cons head rest =>
      rw [htake] at hsuffix
      obtain heq | hrest := List.suffix_cons_iff.mp hsuffix
      · have hlength : (pattern.take other).length = (pattern.take size).length := by rw [heq, htake]
        rw [List.length_take_of_le hother.1, List.length_take_of_le h.1] at hlength
        omega
      · exact hrest

/-- A border of a beginning that ends the text ends it as well. -/
theorem Reaches.of_tail (h : Reaches pattern text size) (hother : Reaches pattern (pattern.take size).tail other) :
    Reaches pattern text other :=
  ⟨hother.1, (hother.2.trans (List.tail_suffix _)).trans h.2⟩

/-- The borders of a beginning of the pattern: the shorter beginnings that end it. -/
theorem reaches_tail_iff (hpos : 0 < size) (hle : size ≤ pattern.length) :
    Reaches pattern (pattern.take size).tail other ↔ other < size ∧ pattern.take other <:+ pattern.take size := by
  constructor
  · intro h
    have hlength := h.le_length
    rw [List.length_tail, List.length_take_of_le hle] at hlength
    exact ⟨by omega, h.2.trans (List.tail_suffix _)⟩
  · intro ⟨hlt, hsuffix⟩
    exact Reaches.tail ⟨hle, List.suffix_refl _⟩ ⟨by omega, hsuffix⟩ hlt

/-- The longest beginning of the pattern that ends the text. -/
structure Longest (pattern text : List α) (size : ℕ) : Prop where
  reaches : Reaches pattern text size
  max : ∀ other, Reaches pattern text other → other ≤ size

theorem Longest.nil : Longest pattern [] 0 :=
  ⟨Reaches.zero, fun _ h => h.le_length⟩

theorem Longest.unique (h : Longest pattern text size) (hother : Longest pattern text other) : size = other :=
  Nat.le_antisymm (hother.max _ h.reaches) (h.max _ hother.reaches)

/-- The longest beginning that the character may continue. -/
structure Continues (pattern text : List α) (character : α) (size : ℕ) : Prop where
  reaches : Reaches pattern text size
  max : ∀ other, Reaches pattern text other → pattern[other]? = some character → other ≤ size

theorem Longest.continues (h : Longest pattern text size) : Continues pattern text character size :=
  ⟨h.reaches, fun other hother _ => h.max other hother⟩

/-- A beginning that the character does not continue gives way to its longest border. -/
theorem Continues.border (h : Continues pattern text character size) (hne : pattern[size]? ≠ some character)
    (hborder : Longest pattern (pattern.take size).tail other) : Continues pattern text character other := by
  refine ⟨h.reaches.of_tail hborder.reaches, fun shorter hshorter hcharacter => ?_⟩
  have hle := h.max shorter hshorter hcharacter
  have hlt : shorter < size := by
    refine lt_of_le_of_ne hle fun heq => ?_
    rw [heq] at hcharacter
    exact hne hcharacter
  exact hborder.max shorter (h.reaches.tail hshorter hlt)

theorem Continues.longest (h : Continues pattern text character size) (hcharacter : pattern[size]? = some character) :
    Longest pattern (text ++ [character]) (size + 1) := by
  refine ⟨reaches_succ.mpr ⟨h.reaches, hcharacter⟩, fun other hother => ?_⟩
  cases other with
  | zero => exact Nat.zero_le _
  | succ shorter =>
      obtain ⟨hshorter, hcontinued⟩ := reaches_succ.mp hother
      exact Nat.succ_le_succ (h.max shorter hshorter hcontinued)

theorem Continues.longest_zero (h : Continues pattern text character 0) (hne : pattern[0]? ≠ some character) :
    Longest pattern (text ++ [character]) 0 := by
  refine ⟨Reaches.zero, fun other hother => ?_⟩
  cases other with
  | zero => exact Nat.le_refl _
  | succ shorter =>
      obtain ⟨hshorter, hcontinued⟩ := reaches_succ.mp hother
      have hzero : shorter = 0 := Nat.le_zero.mp (h.max shorter hshorter hcontinued)
      rw [hzero] at hcontinued
      exact absurd hcontinued hne

end MetricBackend
