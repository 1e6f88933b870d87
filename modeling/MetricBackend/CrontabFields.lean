import MetricBackend.DomainSchedules
import MetricBackend.LibSplits

/-! The grammar of a crontab field, and the numbers that it stands for. -/

namespace MetricBackend

/-- What an item of a field covers before its step: everything, one number, or the numbers from one to another. -/
inductive CronRange where
  | all
  | exact (number : Nat)
  | span (start last : Nat)
deriving DecidableEq, Repr

structure CronItem where
  range : CronRange
  step : Option Nat
deriving DecidableEq, Repr

namespace CronRange

def start (minimum : Nat) : CronRange → Nat
  | all => minimum
  | exact number => number
  | span start _ => start

def last (maximum : Nat) : CronRange → Nat
  | all => maximum
  | exact number => number
  | span _ last => last

/-- The texts of a range, whatever counts as a numeral. -/
def Reads (numeral : Text → Nat → Prop) (text : Text) : CronRange → Prop
  | all => text = ['*']
  | exact number => numeral text number
  | span start last => ∃ left right, numeral left start ∧ numeral right last ∧ text = left ++ '-' :: right

end CronRange

namespace CronItem

/-- `*`, `n` or `a-b`, and perhaps `/step`. -/
def Reads (numeral : Text → Nat → Prop) (text : Text) (item : CronItem) : Prop :=
  match item.step with
  | none => item.range.Reads numeral text
  | some step => ∃ base digits, item.range.Reads numeral base ∧ numeral digits step ∧ text = base ++ '/' :: digits

/-- The item is in the bounds of its field. -/
structure Fits (minimum maximum : Nat) (item : CronItem) : Prop where
  start : minimum ≤ item.range.start minimum
  ordered : item.range.start minimum ≤ item.range.last maximum
  last : item.range.last maximum ≤ maximum
  step : ∀ step ∈ item.step, 1 ≤ step

/-- A number of the arithmetic progression of an item. -/
def Selects (minimum maximum : Nat) (item : CronItem) (number : Nat) : Prop :=
  ∃ index, number = item.range.start minimum + index * item.step.getD 1 ∧ number ≤ item.range.last maximum

theorem Fits.bounds {minimum maximum number : Nat} {item : CronItem} (h : item.Fits minimum maximum)
    (hnumber : item.Selects minimum maximum number) : minimum ≤ number ∧ number ≤ maximum := by
  obtain ⟨index, heq, hle⟩ := hnumber
  exact ⟨by rw [heq]; exact Nat.le_add_right_of_le h.start, hle.trans h.last⟩

theorem Fits.selects_start {minimum maximum : Nat} {item : CronItem} (h : item.Fits minimum maximum) :
    item.Selects minimum maximum (item.range.start minimum) :=
  ⟨0, by omega, h.ordered⟩

end CronItem

/-- A numeral of a byte that is digits alone. -/
def PlainNumeral (text : Text) (value : Nat) : Prop := text ≠ [] ∧ decimal text = some value ∧ value ≤ 255

/-- A comma list of items that are in the bounds of their field. -/
structure CronField (numeral : Text → Nat → Prop) (minimum maximum : Nat) (value : Text) (items : List CronItem) :
    Prop where
  nonempty : items ≠ []
  reads : ∃ texts, List.Forall₂ (CronItem.Reads numeral) texts items ∧ value = [','].intercalate texts
  fits : ∀ item ∈ items, item.Fits minimum maximum

/-! ### One item -/

section Items

variable {minimum maximum : Nat} {text : Text}

section Characters

variable {numeral : Text → Nat → Prop} {c : Char} (hnumeral : ∀ text value, numeral text value → c ∉ text)
include hnumeral

theorem CronRange.Reads.not_mem {range : CronRange} (h : range.Reads numeral text) (hstar : c ≠ '*')
    (hdash : c ≠ '-') : c ∉ text := by
  cases range with
  | all =>
      rw [show text = ['*'] from h]
      simpa using hstar
  | exact number => exact hnumeral _ _ h
  | span start last =>
      obtain ⟨left, right, hleft, hright, rfl⟩ := h
      simp only [List.mem_append, List.mem_cons, not_or]
      exact ⟨hnumeral _ _ hleft, hdash, hnumeral _ _ hright⟩

theorem CronItem.Reads.not_mem {item : CronItem} (h : item.Reads numeral text) (hstar : c ≠ '*') (hdash : c ≠ '-')
    (hslash : c ≠ '/') : c ∉ text := by
  obtain ⟨range, step⟩ := item
  cases step with
  | none => exact (show range.Reads numeral text from h).not_mem hnumeral hstar hdash
  | some step =>
      obtain ⟨base, digits, hbase, hdigits, rfl⟩ := h
      simp only [List.mem_append, List.mem_cons, not_or]
      exact ⟨hbase.not_mem hnumeral hstar hdash, hslash, hnumeral _ _ hdigits⟩

end Characters

/-- The bounds of a base, as the grammar has them. -/
theorem parseRange_eq_ok {start last : Nat} :
    parseRange text minimum maximum = .ok (start, last) ↔ ∃ range : CronRange, range.Reads ByteNumeral text
      ∧ start = range.start minimum ∧ last = range.last maximum := by
  rw [parseRange]
  by_cases hstar : text = ['*']
  · rw [if_pos hstar]
    refine ⟨fun h => ⟨.all, hstar, ?_⟩, ?_⟩
    · exact ⟨(Prod.mk.inj (Except.ok.inj h)).1.symm, (Prod.mk.inj (Except.ok.inj h)).2.symm⟩
    · rintro ⟨range, hrange, rfl, rfl⟩
      cases range with
      | all => rfl
      | exact number => exact absurd (hstar ▸ List.mem_cons_self) (ByteNumeral.not_mem (by decide) rfl hrange)
      | span start last =>
          obtain ⟨left, right, -, -, heq⟩ := hrange
          have hdash : '-' ∈ text := heq ▸ List.mem_append_right _ List.mem_cons_self
          rw [hstar] at hdash
          exact absurd hdash (by decide)
  · rw [if_neg hstar]
    cases hsplit : splitOnce '-' text with
    | none =>
        have hdash := splitOnce_eq_none.mp hsplit
        dsimp only
        constructor
        · intro h
          split at h
          · next exact hexact =>
            obtain ⟨rfl, rfl⟩ := Prod.mk.inj (Except.ok.inj h)
            exact ⟨.exact exact, parseU8_eq_some.mp hexact, rfl, rfl⟩
          · cases h
        · rintro ⟨range, hrange, rfl, rfl⟩
          cases range with
          | all => exact absurd hrange hstar
          | exact number => rw [parseU8_eq_some.mpr hrange]; rfl
          | span start last =>
              obtain ⟨left, right, -, -, rfl⟩ := hrange
              exact absurd (List.mem_append_right _ List.mem_cons_self) hdash
    | some parts =>
        obtain ⟨left, right⟩ := parts
        obtain ⟨hleft, rfl⟩ := splitOnce_eq_some.mp hsplit
        dsimp only
        constructor
        · intro h
          split at h
          · next first second hfirst hsecond =>
            obtain ⟨rfl, rfl⟩ := Prod.mk.inj (Except.ok.inj h)
            exact ⟨.span first second,
              ⟨left, right, parseU8_eq_some.mp hfirst, parseU8_eq_some.mp hsecond, rfl⟩, rfl, rfl⟩
          · cases h
        · rintro ⟨range, hrange, rfl, rfl⟩
          cases range with
          | all => exact absurd hrange hstar
          | exact number =>
              exact absurd (List.mem_append_right _ List.mem_cons_self)
                (ByteNumeral.not_mem (by decide) rfl hrange)
          | span start last =>
              obtain ⟨first, second, hfirst, hsecond, heq⟩ := hrange
              have hother : splitOnce '-' (left ++ '-' :: right) = some (first, second) :=
                splitOnce_eq_some.mpr ⟨ByteNumeral.not_mem (by decide) rfl hfirst, heq⟩
              rw [hsplit] at hother
              obtain ⟨rfl, rfl⟩ := Prod.mk.inj (Option.some.inj hother)
              rw [parseU8_eq_some.mpr hfirst, parseU8_eq_some.mpr hsecond]
              rfl

/-- A number of a stepped range. -/
theorem mem_steppedRange {start last step number : Nat} (hstep : 1 ≤ step) (hle : start ≤ last) :
    number ∈ steppedRange start last step ↔ ∃ index, number = start + index * step ∧ number ≤ last := by
  simp only [steppedRange, List.mem_map, List.mem_range, Nat.lt_succ_iff]
  constructor
  · rintro ⟨index, hindex, rfl⟩
    refine ⟨index, rfl, ?_⟩
    have hmul := (Nat.le_div_iff_mul_le hstep).mp hindex
    omega
  · rintro ⟨index, rfl, hlast⟩
    exact ⟨index, (Nat.le_div_iff_mul_le hstep).mpr (by omega), rfl⟩

theorem CronItem.Fits.mem_steppedRange {item : CronItem} (h : item.Fits minimum maximum) {number : Nat} :
    number ∈ steppedRange (item.range.start minimum) (item.range.last maximum) (item.step.getD 1)
      ↔ item.Selects minimum maximum number := by
  refine MetricBackend.mem_steppedRange ?_ h.ordered
  cases hstep : item.step with
  | none => exact le_rfl
  | some step => exact h.step step hstep

/-- An item is accepted when the grammar reads it inside the bounds of the field. -/
theorem parseItem_eq_ok {numbers : List Nat} :
    parseItem text minimum maximum = .ok numbers ↔ ∃ item : CronItem, item.Reads ByteNumeral text
      ∧ item.Fits minimum maximum
      ∧ numbers = steppedRange (item.range.start minimum) (item.range.last maximum) (item.step.getD 1) := by
  have hread : ∀ base step, (do
      failIf (step = 0) MonitorValueError.invalidSchedule
      let bounds ← parseRange base minimum maximum
      failIf (bounds.1 < minimum ∨ maximum < bounds.2 ∨ bounds.2 < bounds.1) .invalidSchedule
      return steppedRange bounds.1 bounds.2 step) = .ok numbers ↔ step ≠ 0 ∧ ∃ range : CronRange, range.Reads ByteNumeral base
        ∧ (minimum ≤ range.start minimum ∧ range.start minimum ≤ range.last maximum ∧ range.last maximum ≤ maximum)
        ∧ numbers = steppedRange (range.start minimum) (range.last maximum) step := by
    intro base step
    simp only [bind_eq_ok, failIf_eq_ok, pure_eq_ok, not_or, not_lt]
    constructor
    · rintro ⟨-, hstep, ⟨start, last⟩, hrange, -, ⟨hminimum, hmaximum, hordered⟩, rfl⟩
      obtain ⟨range, hreads, rfl, rfl⟩ := parseRange_eq_ok.mp hrange
      exact ⟨hstep, range, hreads, ⟨hminimum, hordered, hmaximum⟩, rfl⟩
    · rintro ⟨hstep, range, hreads, ⟨hminimum, hordered, hmaximum⟩, rfl⟩
      exact ⟨(), hstep, _, parseRange_eq_ok.mpr ⟨range, hreads, rfl, rfl⟩, (), ⟨hminimum, hmaximum, hordered⟩, rfl⟩
  rw [parseItem]
  by_cases hempty : text = []
  · subst hempty
    refine iff_of_false (fun h => by cases h) ?_
    rintro ⟨⟨range, step⟩, hreads, -⟩
    cases step with
    | some step =>
        obtain ⟨base, digits, -, -, heq⟩ := hreads
        exact absurd heq (by simp)
    | none =>
        cases range with
        | all => exact absurd (show ([] : Text) = ['*'] from hreads) (List.cons_ne_nil _ _).symm
        | exact number => exact ByteNumeral.ne_nil hreads rfl
        | span start last =>
            obtain ⟨left, right, -, -, heq⟩ := hreads
            exact absurd heq (by simp)
  · have hne : ¬ text.isEmpty := by rwa [List.isEmpty_iff]
    rw [failIf, if_neg hne]
    cases hsplit : splitOnce '/' text with
    | none =>
        have hslash := splitOnce_eq_none.mp hsplit
        refine (hread text 1).trans ⟨?_, ?_⟩
        · rintro ⟨-, range, hreads, ⟨hminimum, hordered, hmaximum⟩, rfl⟩
          exact ⟨⟨range, none⟩, hreads, ⟨hminimum, hordered, hmaximum, fun _ hstep => by cases hstep⟩, rfl⟩
        · rintro ⟨⟨range, step⟩, hreads, hfits, rfl⟩
          cases step with
          | none => exact ⟨Nat.one_ne_zero, range, hreads, ⟨hfits.start, hfits.ordered, hfits.last⟩, rfl⟩
          | some step =>
              obtain ⟨base, digits, -, -, rfl⟩ := hreads
              exact absurd (List.mem_append_right _ List.mem_cons_self) hslash
    | some parts =>
        obtain ⟨base, digits⟩ := parts
        obtain ⟨hbase, rfl⟩ := splitOnce_eq_some.mp hsplit
        refine (hread base ((parseU8 digits).getD 0)).trans ⟨?_, ?_⟩
        · rintro ⟨hstep, range, hreads, ⟨hminimum, hordered, hmaximum⟩, rfl⟩
          cases hdigits : parseU8 digits with
          | none => exact absurd (by rw [hdigits]; rfl) hstep
          | some step =>
              rw [hdigits] at hstep
              refine ⟨⟨range, some step⟩, ⟨base, digits, hreads, parseU8_eq_some.mp hdigits, rfl⟩,
                ⟨hminimum, hordered, hmaximum, ?_⟩, rfl⟩
              rintro _ ⟨⟩
              exact Nat.one_le_iff_ne_zero.mpr hstep
        · rintro ⟨⟨range, step⟩, hreads, hfits, rfl⟩
          cases step with
          | none =>
              exact absurd (List.mem_append_right _ List.mem_cons_self)
                ((show range.Reads ByteNumeral _ from hreads).not_mem (c := '/')
                  (fun _ _ => ByteNumeral.not_mem (by decide) rfl) (by decide) (by decide))
          | some step =>
              obtain ⟨other, numeral, hother, hnumeral, heq⟩ := hreads
              have hslash : '/' ∉ other :=
                hother.not_mem (fun _ _ => ByteNumeral.not_mem (by decide) rfl) (by decide) (by decide)
              have hsame : splitOnce '/' (base ++ '/' :: digits) = some (other, numeral) :=
                splitOnce_eq_some.mpr ⟨hslash, heq⟩
              rw [hsplit] at hsame
              obtain ⟨rfl, rfl⟩ := Prod.mk.inj (Option.some.inj hsame)
              rw [parseU8_eq_some.mpr hnumeral]
              exact ⟨Nat.one_le_iff_ne_zero.mp (hfits.step step rfl), range, hother,
                ⟨hfits.start, hfits.ordered, hfits.last⟩, rfl⟩

end Items

/-! ### A field -/

section Fields

variable {minimum maximum : Nat}

theorem getLsbD_bit {number : Nat} (h : number < 64) (bit : Nat) :
    (1#64 <<< bit).getLsbD number = decide (number = bit) := by
  rw [BitVec.getLsbD_shiftLeft]
  by_cases heq : number = bit
  · subst heq
    simp [h]
  · by_cases hlt : number < bit
    · simp [hlt, heq]
    · have hsub : number - bit ≠ 0 := by omega
      simp [heq, hsub]

/-- The bit of a number is set. -/
theorem contains_iff {bits : BitVec 64} {number : Nat} : contains bits number = true ↔ bits.getLsbD number = true := by
  rw [contains, bne_iff_ne]
  by_cases h : number < 64
  · constructor
    · intro hne
      by_contra hbit
      refine hne (BitVec.eq_of_getLsbD_eq fun index hindex => ?_)
      rw [BitVec.getLsbD_and, getLsbD_bit hindex, BitVec.getLsbD_zero]
      by_cases heq : index = number
      · rw [heq, Bool.eq_false_iff.mpr hbit, Bool.false_and]
      · rw [decide_eq_false heq, Bool.and_false]
    · intro hbit hzero
      have hread : (bits &&& 1#64 <<< number).getLsbD number = (0#64).getLsbD number := by rw [hzero]
      rw [BitVec.getLsbD_and, getLsbD_bit h, hbit, BitVec.getLsbD_zero] at hread
      simp at hread
  · rw [not_lt] at h
    rw [BitVec.shiftLeft_eq_zero h, BitVec.and_zero, BitVec.getLsbD_of_ge _ _ h]
    simp

/-- The bits after the numbers of an item are set. -/
theorem getLsbD_setBits {numbers : List Nat} {bits : BitVec 64} {number : Nat} (h : number < 64) :
    (numbers.foldl (fun bits number => bits ||| (1#64 <<< number)) bits).getLsbD number
      = (bits.getLsbD number || decide (number ∈ numbers)) := by
  induction numbers generalizing bits with
  | nil => simp
  | cons first numbers ih =>
      rw [List.foldl_cons, ih, BitVec.getLsbD_or, getLsbD_bit h, Bool.or_assoc]
      simp only [List.mem_cons, Bool.decide_or]

/-- The bits of a list of items: those that were set, and those of the items. -/
theorem foldlM_items {texts : List Text} {bits result : BitVec 64} :
    texts.foldlM (fun bits item => do
      let numbers ← parseItem item minimum maximum
      return numbers.foldl (fun bits number => bits ||| (1#64 <<< number)) bits) bits = .ok result
      ↔ ∃ items, List.Forall₂ (CronItem.Reads ByteNumeral) texts items ∧ (∀ item ∈ items, item.Fits minimum maximum)
        ∧ ∀ number < 64, result.getLsbD number = true
            ↔ bits.getLsbD number = true ∨ ∃ item ∈ items, item.Selects minimum maximum number := by
  induction texts generalizing bits with
  | nil =>
      rw [List.foldlM_nil, pure_eq_ok]
      constructor
      · rintro rfl
        exact ⟨[], .nil, nofun, fun number _ => by simp⟩
      · rintro ⟨items, hreads, -, hbits⟩
        cases hreads
        refine BitVec.eq_of_getLsbD_eq fun number hnumber => ?_
        have hsame := hbits number hnumber
        simp only [List.not_mem_nil, false_and, exists_false, or_false] at hsame
        exact Bool.eq_iff_iff.mpr hsame.symm
  | cons text texts ih =>
      rw [List.foldlM_cons, bind_eq_ok]
      have hset : ∀ item : CronItem, item.Fits minimum maximum → ∀ number < 64,
          ((steppedRange (item.range.start minimum) (item.range.last maximum) (item.step.getD 1)).foldl
            (fun bits number => bits ||| (1#64 <<< number)) bits).getLsbD number = true
          ↔ bits.getLsbD number = true ∨ item.Selects minimum maximum number := by
        intro item hfits number hnumber
        rw [getLsbD_setBits hnumber, Bool.or_eq_true, decide_eq_true_eq, hfits.mem_steppedRange]
      constructor
      · rintro ⟨between, hbetween, hrest⟩
        obtain ⟨numbers, hnumbers, rfl⟩ := map_eq_ok.mp hbetween
        obtain ⟨item, hitem, hfits, rfl⟩ := parseItem_eq_ok.mp hnumbers
        obtain ⟨items, hreads, hall, hbits⟩ := ih.mp hrest
        refine ⟨item :: items, .cons hitem hreads, List.forall_mem_cons.mpr ⟨hfits, hall⟩, fun number hnumber => ?_⟩
        rw [hbits number hnumber, hset item hfits number hnumber, List.exists_mem_cons_iff, or_assoc]
      · rintro ⟨items, hreads, hall, hbits⟩
        obtain ⟨item, rest, hitem, hrest, rfl⟩ := List.forall₂_cons_left_iff.mp hreads
        obtain ⟨hfits, hall⟩ := List.forall_mem_cons.mp hall
        refine ⟨_, map_eq_ok.mpr ⟨_, parseItem_eq_ok.mpr ⟨item, hitem, hfits, rfl⟩, rfl⟩, ih.mpr ⟨rest, hrest, hall, ?_⟩⟩
        intro number hnumber
        rw [hbits number hnumber, hset item hfits number hnumber, List.exists_mem_cons_iff, or_assoc]

/-- The parser accepts a field when the grammar reads it, with the bits of the numbers that its items select. -/
theorem parseField_eq_ok (hmaximum : maximum < 64) {value : Text} {bits : BitVec 64} :
    parseField value minimum maximum = .ok bits ↔ ∃ items, CronField ByteNumeral minimum maximum value items
      ∧ ∀ number, bits.getLsbD number = true ↔ ∃ item ∈ items, item.Selects minimum maximum number := by
  rw [parseField, bind_eq_ok]
  constructor
  · rintro ⟨found, hfound, hbits⟩
    simp only [bind_eq_ok, failIf_eq_ok, pure_eq_ok] at hbits
    obtain ⟨-, -, rfl⟩ := hbits
    obtain ⟨items, hreads, hfits, hbits⟩ := foldlM_items.mp hfound
    refine ⟨items, ⟨?_, ⟨_, hreads, (List.intercalate_splitOn ',').symm⟩, hfits⟩, fun number => ?_⟩
    · rintro rfl
      cases hsplit : value.splitOn ',' with
      | nil => exact List.splitOnP_ne_nil _ _ hsplit
      | cons text texts =>
          rw [hsplit] at hreads
          cases hreads
    · by_cases hnumber : number < 64
      · simpa using hbits number hnumber
      · refine iff_of_false (by rw [BitVec.getLsbD_of_ge _ _ (not_lt.mp hnumber)]; exact Bool.false_ne_true) ?_
        rintro ⟨item, hitem, hselects⟩
        have := ((hfits item hitem).bounds hselects).2
        omega
  · rintro ⟨items, ⟨hne, ⟨texts, hreads, rfl⟩, hfits⟩, hbits⟩
    have htexts : texts ≠ [] := by
      rintro rfl
      cases hreads
      exact hne rfl
    have hcomma : ∀ text ∈ texts, ',' ∉ text := by
      intro text htext
      obtain ⟨item, hitem⟩ := exists_of_mem_forall₂ hreads.flip htext
      exact CronItem.Reads.not_mem (fun _ _ => ByteNumeral.not_mem (by decide) rfl) hitem (by decide) (by decide)
        (by decide)
    refine ⟨bits, ?_, ?_⟩
    · rw [List.splitOn_intercalate ',' hcomma htexts]
      refine foldlM_items.mpr ⟨items, hreads, hfits, fun number _ => ?_⟩
      rw [hbits number]
      simp
    · simp only [bind_eq_ok, failIf_eq_ok, pure_eq_ok]
      refine ⟨(), ?_, trivial⟩
      rintro rfl
      obtain ⟨item, items, rfl⟩ := List.exists_cons_of_ne_nil hne
      have hfirst := (hbits _).mpr ⟨item, List.mem_cons_self, (hfits item List.mem_cons_self).selects_start⟩
      simp at hfirst

/-- The grammar of a field reads items that select a number. -/
def FieldSelects (minimum maximum : Nat) (value : Text) (number : Nat) : Prop :=
  ∃ items, CronField ByteNumeral minimum maximum value items ∧ ∃ item ∈ items, item.Selects minimum maximum number

theorem exists_bits (hmaximum : maximum < 64) {items : List CronItem}
    (hfits : ∀ item ∈ items, item.Fits minimum maximum) : ∃ bits : BitVec 64, ∀ number,
      bits.getLsbD number = true ↔ ∃ item ∈ items, item.Selects minimum maximum number := by
  induction items with
  | nil => exact ⟨0#64, by simp⟩
  | cons item items ih =>
      obtain ⟨hitem, hitems⟩ := List.forall_mem_cons.mp hfits
      obtain ⟨bits, hbits⟩ := ih hitems
      refine ⟨(steppedRange (item.range.start minimum) (item.range.last maximum) (item.step.getD 1)).foldl
        (fun bits number => bits ||| (1#64 <<< number)) bits, fun number => ?_⟩
      rw [List.exists_mem_cons_iff, ← hbits number]
      by_cases hnumber : number < 64
      · rw [getLsbD_setBits hnumber, Bool.or_eq_true, decide_eq_true_eq, hitem.mem_steppedRange, or_comm]
      · rw [not_lt] at hnumber
        rw [BitVec.getLsbD_of_ge _ _ hnumber, BitVec.getLsbD_of_ge _ _ hnumber]
        refine iff_of_false Bool.false_ne_true ?_
        rintro (hselects | hfalse)
        · have := (hitem.bounds hselects).2
          omega
        · cases hfalse

/-- The bits of an accepted field are the numbers that it selects. -/
theorem contains_parseField (hmaximum : maximum < 64) {value : Text} {bits : BitVec 64}
    (h : parseField value minimum maximum = .ok bits) {number : Nat} :
    contains bits number = true ↔ FieldSelects minimum maximum value number := by
  rw [contains_iff]
  constructor
  · intro hbit
    obtain ⟨items, hfield, hbits⟩ := (parseField_eq_ok hmaximum).mp h
    exact ⟨items, hfield, (hbits number).mp hbit⟩
  · rintro ⟨items, hfield, hselected⟩
    obtain ⟨found, hfound⟩ := exists_bits hmaximum hfield.fits
    have hsame := (parseField_eq_ok hmaximum).mpr ⟨items, hfield, hfound⟩
    rw [h] at hsame
    obtain rfl := Except.ok.inj hsame
    exact (hfound number).mpr hselected

/-- An accepted field selects a number. -/
theorem exists_contains (hmaximum : maximum < 64) {value : Text} {bits : BitVec 64}
    (h : parseField value minimum maximum = .ok bits) :
    ∃ number, minimum ≤ number ∧ number ≤ maximum ∧ contains bits number = true := by
  obtain ⟨items, hfield, hbits⟩ := (parseField_eq_ok hmaximum).mp h
  obtain ⟨item, rest, rfl⟩ := List.exists_cons_of_ne_nil hfield.nonempty
  have hfits := hfield.fits item List.mem_cons_self
  have hbounds := hfits.bounds hfits.selects_start
  exact ⟨_, hbounds.1, hbounds.2, contains_iff.mpr ((hbits _).mpr ⟨item, List.mem_cons_self, hfits.selects_start⟩)⟩

/-- A star selects all numbers of its field. -/
theorem contains_star (hmaximum : maximum < 64) {bits : BitVec 64} (h : parseField ['*'] minimum maximum = .ok bits)
    {number : Nat} (hlow : minimum ≤ number) (hhigh : number ≤ maximum) : contains bits number = true := by
  refine (contains_parseField hmaximum h).mpr ⟨[⟨.all, none⟩], ⟨List.cons_ne_nil _ _, ?_, ?_⟩, ?_⟩
  · exact ⟨[['*']], .cons rfl .nil, rfl⟩
  · intro item hitem
    rw [List.mem_singleton.mp hitem]
    exact ⟨le_rfl, hlow.trans hhigh, le_rfl, nofun⟩
  · exact ⟨_, List.mem_cons_self, number - minimum, by simp [CronRange.start]; omega, hhigh⟩

/-- A character that no numeral and no mark of the grammar has is in no field. -/
theorem CronField.not_mem {numeral : Text → Nat → Prop} {c : Char}
    (hnumeral : ∀ text value, numeral text value → c ∉ text) {value : Text} {items : List CronItem}
    (h : CronField numeral minimum maximum value items) (hmarks : c ∉ ['*', '-', '/', ',']) : c ∉ value := by
  obtain ⟨texts, hreads, rfl⟩ := h.reads
  simp only [List.mem_cons, List.not_mem_nil, or_false, not_or] at hmarks
  obtain ⟨hstar, hdash, hslash, hcomma⟩ := hmarks
  intro hmem
  obtain ⟨part, hpart, hmem⟩ := List.mem_flatten.mp hmem
  obtain hpart | hpart := eq_or_mem_of_mem_intersperse hpart
  · exact hcomma (List.mem_singleton.mp (hpart ▸ hmem))
  · obtain ⟨item, hitem⟩ := exists_of_mem_forall₂ hreads.flip hpart
    exact CronItem.Reads.not_mem hnumeral hitem hstar hdash hslash hmem

end Fields

/-! ### An expression -/

/-- The five fields of an expression, compiled. -/
structure CompiledCrontab.Compiles (minutes hours days months weekdays : Text) (compiled : CompiledCrontab) : Prop where
  minute : parseField minutes 0 59 = .ok compiled.minute
  hour : parseField hours 0 23 = .ok compiled.hour
  day : parseField days 1 31 = .ok compiled.day
  month : parseField months 1 12 = .ok compiled.month
  weekday : parseField weekdays 0 6 = .ok compiled.weekday
  dayWildcard : compiled.dayWildcard = decide (days = ['*'])
  weekdayWildcard : compiled.weekdayWildcard = decide (weekdays = ['*'])

namespace MonitorSchedule

/-- An expression is accepted when it has five fields that are, and it is kept with single spaces. -/
theorem ofCrontab_eq_ok {expression : Text} {schedule : MonitorSchedule} :
    ofCrontab expression = .ok schedule ↔ (expression ≠ [] ∧ byteLength expression ≤ maxMonitorScheduleBytes)
      ∧ ∃ minute hour day month weekday compiled,
        splitAsciiWhitespace expression = [minute, hour, day, month, weekday]
        ∧ CompiledCrontab.Compiles minute hour day month weekday compiled
        ∧ schedule = .crontab ([minute, hour, day, month, weekday].intersperse [' ']).flatten compiled := by
  rw [ofCrontab, bind_eq_ok]
  simp only [failIf_eq_ok, List.isEmpty_iff, not_or, not_lt]
  constructor
  · rintro ⟨-, hlength, hparts⟩
    refine ⟨hlength, ?_⟩
    split at hparts
    · next minute hour day month weekday hsplit =>
      simp only [bind_eq_ok, pure_eq_ok] at hparts
      obtain ⟨minutes, hminute, hours, hhour, days, hday, months, hmonth, weekdays, hweekday, rfl⟩ := hparts
      exact ⟨minute, hour, day, month, weekday, _, hsplit, ⟨hminute, hhour, hday, hmonth, hweekday, rfl, rfl⟩, rfl⟩
    · cases hparts
  · rintro ⟨hlength, minute, hour, day, month, weekday, compiled, hsplit, hcompiles, rfl⟩
    refine ⟨(), hlength, ?_⟩
    rw [hsplit]
    simp only [bind_eq_ok, pure_eq_ok]
    refine ⟨_, hcompiles.minute, _, hcompiles.hour, _, hcompiles.day, _, hcompiles.month, _, hcompiles.weekday, ?_⟩
    rw [← hcompiles.dayWildcard, ← hcompiles.weekdayWildcard]

/-- What is stored of an accepted expression is accepted, as the same schedule. -/
theorem ofCrontab_value {expression : Text} {schedule : MonitorSchedule} (h : ofCrontab expression = .ok schedule) :
    ofCrontab schedule.value = .ok schedule := by
  obtain ⟨⟨-, hlength⟩, minute, hour, day, month, weekday, compiled, hsplit, hcompiles, rfl⟩ := ofCrontab_eq_ok.mp h
  have hsame : splitAsciiWhitespace ([minute, hour, day, month, weekday].intersperse [' ']).flatten
      = [minute, hour, day, month, weekday] :=
    splitAsciiWhitespace_intersperse fun part hpart => mem_splitAsciiWhitespace (hsplit ▸ hpart)
  have hle : byteLength ([minute, hour, day, month, weekday].intersperse [' ']).flatten ≤ byteLength expression := by
    rw [← hsplit]
    exact byteLength_intersperse_splitAsciiWhitespace_le (by rw [hsplit]; exact List.cons_ne_nil _ _)
  refine ofCrontab_eq_ok.mpr ⟨⟨?_, hle.trans hlength⟩, minute, hour, day, month, weekday, compiled, hsame, hcompiles, rfl⟩
  intro hnil
  rw [show ([minute, hour, day, month, weekday].intersperse [' ']).flatten = [] from hnil] at hsame
  cases hsame

/-- A leading plus sign, which the grammar of plain numerals does not have, is accepted. -/
theorem parseField_signed : parseField "+5".toList 0 59 = .ok (1#64 <<< 5)
    ∧ ¬ ∃ items, CronField PlainNumeral 0 59 "+5".toList items := by
  refine ⟨by decide, ?_⟩
  rintro ⟨items, hfield⟩
  have hsign : '+' ∉ "+5".toList := hfield.not_mem (fun text value h hmem => ?_) (by decide)
  · exact hsign (by decide)
  · exact absurd (isDigit_of_decimal h.2.1 '+' hmem) (by decide)

/-- Fields of crontab expressions denote what their grammar says, and expressions come back from a store. Numbers are
what `str::parse::<u8>` reads, a leading plus sign included. -/
theorem crontab_denotes : (∀ (value : Text) (minimum maximum : Nat) (bits : BitVec 64), maximum < 64 →
      (parseField value minimum maximum = .ok bits ↔ ∃ items, CronField ByteNumeral minimum maximum value items
        ∧ ∀ number, bits.getLsbD number = true ↔ ∃ item ∈ items, item.Selects minimum maximum number)
      ∧ (parseField value minimum maximum = .ok bits →
        ∀ number, bits.getLsbD number = true → minimum ≤ number ∧ number ≤ maximum))
    ∧ ∀ expression schedule, ofCrontab expression = .ok schedule → ofCrontab schedule.value = .ok schedule := by
  refine ⟨fun value minimum maximum bits hmaximum => ⟨parseField_eq_ok hmaximum, fun h number hnumber => ?_⟩,
    fun expression schedule h => ofCrontab_value h⟩
  obtain ⟨items, hfield, hbits⟩ := (parseField_eq_ok hmaximum).mp h
  obtain ⟨item, hitem, hselects⟩ := (hbits number).mp hnumber
  exact (hfield.fits item hitem).bounds hselects

theorem crontab_denotes_stepped : parseField "1-9/4".toList 0 59 = .ok 0x222#64 ∧ (0 ≤ 5 ∧ 5 ≤ 59)
    ∧ ofCrontab "30 4 * * 1".toList = ofCrontab " 30 4\t*  * 1".toList := by
  have hfield : parseField "1-9/4".toList 0 59 = .ok 0x222#64 := by decide
  obtain ⟨schedule, hschedule, hvalue⟩ : ∃ schedule, ofCrontab " 30 4\t*  * 1".toList = .ok schedule
      ∧ schedule.value = "30 4 * * 1".toList := by
    refine ⟨.crontab "30 4 * * 1".toList ⟨1#64 <<< 30, 16#64, 0xFFFFFFFE#64, 8190#64, 2#64, true, false⟩, ?_, rfl⟩
    decide
  refine ⟨hfield, (crontab_denotes.1 _ 0 59 _ (by decide)).2 hfield 5 (by decide), ?_⟩
  have hstored := crontab_denotes.2 _ _ hschedule
  rw [hvalue] at hstored
  exact hstored.trans hschedule.symm

end MonitorSchedule

end MetricBackend
