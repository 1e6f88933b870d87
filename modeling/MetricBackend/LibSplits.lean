import MetricBackend.LibText
import Mathlib.Algebra.Order.BigOperators.Group.List
import Mathlib.Algebra.Order.Group.Nat

/-! Texts cut at a character: `str::split_once`, `str::split` and the reading of decimal numbers. -/

namespace MetricBackend

section Splits

variable {separator : Char} {text left right : Text}

theorem splitOnce_eq_none : splitOnce separator text = none ↔ separator ∉ text := by
  induction text with
  | nil => simp [splitOnce]
  | cons c rest ih =>
      rw [splitOnce]
      split_ifs with hc
      · simp [hc]
      · rw [Option.map_eq_none_iff, ih, List.mem_cons, not_or]
        exact (and_iff_right (Ne.symm hc)).symm

theorem splitOnce_eq_some :
    splitOnce separator text = some (left, right) ↔ separator ∉ left ∧ text = left ++ separator :: right := by
  induction text generalizing left with
  | nil => simp [splitOnce]
  | cons c rest ih =>
      rw [splitOnce]
      split_ifs with hc
      · subst hc
        cases left with
        | nil => simp [eq_comm]
        | cons other left =>
            refine iff_of_false (by simp) ?_
            rintro ⟨hnot, heq⟩
            exact hnot ((List.cons.inj heq).1 ▸ List.mem_cons_self)
      · rw [Option.map_eq_some_iff]
        constructor
        · rintro ⟨⟨before, after⟩, hsplit, heq⟩
          cases heq
          obtain ⟨hnot, rfl⟩ := ih.mp hsplit
          exact ⟨fun hmem => (List.mem_cons.mp hmem).elim (fun heq => hc heq.symm) hnot, rfl⟩
        · rintro ⟨hnot, heq⟩
          cases left with
          | nil => exact absurd (List.cons.inj heq).1 hc
          | cons other left =>
              obtain ⟨rfl, hrest⟩ := List.cons.inj heq
              exact ⟨(left, right), ih.mpr ⟨fun hmem => hnot (List.mem_cons_of_mem _ hmem), hrest⟩, rfl⟩

end Splits

/-! ### Words -/

/-- No separator is in a part. -/
theorem not_separates_of_mem_splitOnP {α : Type} {separates : α → Bool} {items part : List α}
    (h : part ∈ items.splitOnP separates) : ∀ item ∈ part, separates item = false := by
  induction items generalizing part with
  | nil =>
      rw [List.splitOnP_nil, List.mem_singleton] at h
      subst h
      exact fun item hitem => absurd hitem List.not_mem_nil
  | cons first items ih =>
      rw [List.splitOnP_cons_eq_if_modifyHead] at h
      split_ifs at h with hfirst
      · obtain rfl | h := List.mem_cons.mp h
        · exact fun item hitem => absurd hitem List.not_mem_nil
        · exact ih h
      · cases hparts : items.splitOnP separates with
        | nil => exact absurd hparts (List.splitOnP_ne_nil _ _)
        | cons head parts =>
            rw [hparts, List.modifyHead_cons] at h
            rw [hparts] at ih
            obtain rfl | h := List.mem_cons.mp h
            · rw [List.forall_mem_cons]
              exact ⟨Bool.eq_false_iff.mpr hfirst, ih List.mem_cons_self⟩
            · exact ih (List.mem_cons_of_mem _ h)

section Joined

variable {α : Type} {separator : α} {first second : List α} {parts : List (List α)}

theorem joined_singleton : ([first].intersperse [separator]).flatten = first := by
  rw [List.intersperse_singleton, List.flatten_singleton]

theorem joined_cons : ((first :: second :: parts).intersperse [separator]).flatten
    = first ++ separator :: ((second :: parts).intersperse [separator]).flatten := by
  rw [List.intersperse_cons_cons, List.flatten_cons, List.flatten_cons, List.singleton_append]

end Joined

/-- Parts without separators come back from between separators. -/
theorem splitOnP_intersperse {α : Type} {separates : α → Bool} {separator : α}
    (hseparator : separates separator = true) {parts : List (List α)} (hne : parts ≠ [])
    (hparts : ∀ part ∈ parts, ∀ item ∈ part, separates item = false) :
    ((parts.intersperse [separator]).flatten).splitOnP separates = parts := by
  induction parts with
  | nil => exact absurd rfl hne
  | cons part parts ih =>
      obtain ⟨hpart, hparts⟩ := List.forall_mem_cons.mp hparts
      cases parts with
      | nil =>
          rw [joined_singleton]
          exact List.splitOnP_eq_singleton hpart
      | cons second parts =>
          rw [joined_cons, List.splitOnP_append_cons_of_forall_mem hpart separator hseparator,
            ih (List.cons_ne_nil _ _) hparts]

theorem eq_or_mem_of_mem_intersperse {α : Type} {separator item : α} {items : List α}
    (h : item ∈ items.intersperse separator) : item = separator ∨ item ∈ items := by
  induction items with
  | nil => exact .inr h
  | cons first items ih =>
      cases items with
      | nil => exact .inr h
      | cons second items =>
          rw [List.intersperse_cons_cons, List.mem_cons, List.mem_cons] at h
          obtain rfl | rfl | h := h
          · exact .inr List.mem_cons_self
          · exact .inl rfl
          · exact (ih h).imp id (List.mem_cons_of_mem first)

theorem splitAsciiWhitespace_intersperse {parts : List Text}
    (hparts : ∀ part ∈ parts, part ≠ [] ∧ ∀ c ∈ part, c.toNat ∉ [9, 10, 12, 13, 32]) :
    splitAsciiWhitespace (parts.intersperse [' ']).flatten = parts := by
  cases parts with
  | nil => rfl
  | cons first parts =>
      rw [splitAsciiWhitespace, splitOnP_intersperse (by decide) (List.cons_ne_nil _ _)
        fun part hpart c hc => decide_eq_false ((hparts part hpart).2 c hc)]
      refine List.filter_eq_self.mpr fun part hpart => ?_
      simpa using (hparts part hpart).1

theorem mem_splitAsciiWhitespace {text part : Text} (h : part ∈ splitAsciiWhitespace text) :
    part ≠ [] ∧ ∀ c ∈ part, c.toNat ∉ [9, 10, 12, 13, 32] := by
  obtain ⟨hmem, hne⟩ := List.mem_filter.mp h
  refine ⟨by simpa using hne, fun c hc => ?_⟩
  exact of_decide_eq_false (not_separates_of_mem_splitOnP hmem c hc)

/-- The length of parts with a character of one byte between them. -/
theorem byteLength_intersperse {separator : Char} (hsize : separator.utf8Size = 1) {parts : List Text}
    (hne : parts ≠ []) :
    byteLength (parts.intersperse [separator]).flatten + 1 = (parts.map fun part => byteLength part + 1).sum := by
  induction parts with
  | nil => exact absurd rfl hne
  | cons part parts ih =>
      cases parts with
      | nil => simp
      | cons second parts =>
          have hrest := ih (List.cons_ne_nil _ _)
          rw [joined_cons, byteLength_append, byteLength_cons, List.map_cons, List.sum_cons, ← hrest, hsize]
          omega

/-- The words of a text with single spaces between them are no longer than the text. -/
theorem byteLength_intersperse_splitAsciiWhitespace_le {text : Text} (hne : splitAsciiWhitespace text ≠ []) :
    byteLength ((splitAsciiWhitespace text).intersperse [' ']).flatten ≤ byteLength text := by
  have hsize : ∀ c : Char, decide (c.toNat ∈ [9, 10, 12, 13, 32]) = true → c.utf8Size = 1 := by
    intro c hc
    refine Char.utf8Size_eq_one_iff.mpr ?_
    have hc := of_decide_eq_true hc
    have : c.toNat ≤ 127 := by
      simp only [List.mem_cons, List.not_mem_nil, or_false] at hc
      omega
    exact this
  have hsum := sum_splitOnP hsize text
  have hle : ((splitAsciiWhitespace text).map fun part => byteLength part + 1).sum ≤ byteLength text + 1 := by
    rw [← hsum]
    exact (List.filter_sublist.map _).sum_le_sum fun _ _ => Nat.zero_le _
  have := byteLength_intersperse (rfl : ' '.utf8Size = 1) hne
  omega

/-! ### Decimal numbers -/

/-- The value of digits behind a number. -/
def appendDigits (start : Nat) (digits : Text) : Nat :=
  digits.foldl (fun value c => value * 10 + (c.toNat - 48)) start

theorem foldlM_digits {digits : Text} {start value : Nat} :
    digits.foldlM (fun value c => if c.isDigit then some (value * 10 + (c.toNat - 48)) else none) start = some value
      ↔ (∀ c ∈ digits, c.isDigit) ∧ value = appendDigits start digits := by
  induction digits generalizing start with
  | nil =>
      refine Option.some_inj.trans ⟨fun h => ⟨nofun, h.symm⟩, fun h => h.2.symm⟩
  | cons c digits ih =>
      rw [List.foldlM_cons, List.forall_mem_cons]
      split_ifs with hc
      · rw [Option.bind_eq_bind, Option.bind_some, ih, and_iff_right hc]
        rfl
      · simp [hc]

theorem decimal_eq_some {digits : Text} {value : Nat} :
    decimal digits = some value ↔ (∀ c ∈ digits, c.isDigit) ∧ value = appendDigits 0 digits :=
  foldlM_digits

theorem isDigit_of_decimal {digits : Text} {value : Nat} (h : decimal digits = some value) : ∀ c ∈ digits, c.isDigit :=
  (decimal_eq_some.mp h).1

/-- A numeral of a byte: decimal digits with a value below 256, and a plus sign before them or not. -/
def ByteNumeral (text : Text) (value : Nat) : Prop :=
  ∃ digits, (text = digits ∨ text = '+' :: digits) ∧ digits ≠ [] ∧ decimal digits = some value ∧ value ≤ 255

theorem parseU8_eq_some {text : Text} {value : Nat} : parseU8 text = some value ↔ ByteNumeral text value := by
  have hread : ∀ digits : Text, (if digits.isEmpty then none else (decimal digits).filter (· ≤ 255)) = some value
      ↔ digits ≠ [] ∧ decimal digits = some value ∧ value ≤ 255 := by
    intro digits
    rw [Option.ite_none_left_eq_some, List.isEmpty_iff, Option.filter_eq_some_iff, decide_eq_true_eq]
  obtain ⟨digits, hsign, hparse⟩ : ∃ digits, (text = '+' :: digits ∨ text = digits ∧ ∀ rest, text ≠ '+' :: rest)
      ∧ parseU8 text = if digits.isEmpty then none else (decimal digits).filter (· ≤ 255) := by
    by_cases hplus : ∃ rest, text = '+' :: rest
    · obtain ⟨rest, rfl⟩ := hplus
      exact ⟨rest, .inl rfl, rfl⟩
    · rw [not_exists] at hplus
      refine ⟨text, .inr ⟨rfl, hplus⟩, ?_⟩
      rw [parseU8]
      exact hplus
  rw [hparse, hread]
  obtain rfl | ⟨rfl, hplus⟩ := hsign
  · refine ⟨fun h => ⟨digits, .inr rfl, h⟩, ?_⟩
    rintro ⟨others, rfl | htext, hne, hvalue⟩
    · -- a plus sign is no digit
      exact absurd (isDigit_of_decimal hvalue.1 '+' List.mem_cons_self) (by decide)
    · exact (List.cons.inj htext).2 ▸ ⟨hne, hvalue⟩
  · refine ⟨fun h => ⟨text, .inl rfl, h⟩, ?_⟩
    rintro ⟨digits, rfl | rfl, h⟩
    · exact h
    · exact absurd rfl (hplus digits)

/-- The characters of a numeral. -/
theorem ByteNumeral.chars {text : Text} {value : Nat} (h : ByteNumeral text value) :
    ∀ c ∈ text, c = '+' ∨ c.isDigit := by
  obtain ⟨digits, rfl | rfl, -, hvalue, -⟩ := h
  · exact fun c hc => .inr (isDigit_of_decimal hvalue c hc)
  · rw [List.forall_mem_cons]
    exact ⟨.inl rfl, fun c hc => .inr (isDigit_of_decimal hvalue c hc)⟩

theorem ByteNumeral.ne_nil {text : Text} {value : Nat} (h : ByteNumeral text value) : text ≠ [] := by
  obtain ⟨digits, rfl | rfl, hne, -⟩ := h
  · exact hne
  · exact List.cons_ne_nil _ _

/-- A character that is neither a digit nor a plus sign is in no numeral. -/
theorem ByteNumeral.not_mem {c : Char} (hplus : c ≠ '+') (hdigit : c.isDigit = false) {text : Text} {value : Nat}
    (h : ByteNumeral text value) : c ∉ text := by
  intro hc
  obtain heq | hc := h.chars c hc
  · exact hplus heq
  · rw [hdigit] at hc
    cases hc

end MetricBackend
