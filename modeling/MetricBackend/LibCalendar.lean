import Mathlib.Order.Monotone.Basic
import Mathlib.Tactic.IntervalCases
import Mathlib.Tactic.Ring
import Mathlib.Order.Nat

/-! The proleptic Gregorian calendar, counted in days from 1 March of year 0, so that a leap day ends its year. -/

namespace MetricBackend

namespace Calendar

/-- The day of 1 March of a year. -/
def yearStart (year : Int) : Int := 365 * year + year / 4 - year / 100 + year / 400

/-- The month and the day of the month of a day of the year, the first one being 1 March. -/
def monthDay (dayOfYear : Nat) : Nat × Nat :=
  let month := (5 * dayOfYear + 2) / 153
  (if month < 10 then month + 3 else month - 9, dayOfYear - (153 * month + 2) / 5 + 1)

theorem yearStart_succ (year : Int) :
    yearStart year + 365 ≤ yearStart (year + 1) ∧ yearStart (year + 1) ≤ yearStart year + 366 := by
  simp only [yearStart]
  omega

/-- Four hundred years have the same number of days. -/
theorem yearStart_era (era year : Int) : yearStart (400 * era + year) = 146097 * era + yearStart year := by
  simp only [yearStart]
  omega

/-- Every day lies in a year. -/
theorem exists_year (day : Int) : ∃ year, yearStart year ≤ day ∧ day < yearStart (year + 1) := by
  have hlow : yearStart (400 * (day / 146097) + (0 : Nat)) ≤ day := by
    rw [yearStart_era]
    simp only [yearStart]
    omega
  have hhigh : day < yearStart (400 * (day / 146097) + (400 : Nat)) := by
    rw [yearStart_era]
    simp only [yearStart]
    omega
  have hsearch : ∀ count : Nat, day < yearStart (400 * (day / 146097) + count) →
      ∃ year, yearStart year ≤ day ∧ day < yearStart (year + 1) := by
    intro count
    induction count with
    | zero => exact fun h => absurd hlow (not_le.mpr h)
    | succ count ih =>
        intro h
        by_cases hbegun : yearStart (400 * (day / 146097) + count) ≤ day
        · refine ⟨_, hbegun, ?_⟩
          rw [add_assoc, ← Nat.cast_succ]
          exact h
        · exact ih (not_le.mp hbegun)
  exact hsearch 400 hhigh

/-- A day of the year that every year has comes again within 366 days. -/
theorem exists_next (day : Int) {dayOfYear : Nat} (h : dayOfYear < 365) :
    ∃ year, day < yearStart year + dayOfYear ∧ yearStart year + dayOfYear ≤ day + 366 := by
  obtain ⟨year, hlow, hhigh⟩ := exists_year day
  have hnext := yearStart_succ year
  by_cases hlater : day < yearStart year + dayOfYear
  · exact ⟨year, hlater, by omega⟩
  · exact ⟨year + 1, by omega, by omega⟩

/-! ### Reading a year off a day of its era -/

/-- The year of an era that a day of the era lies in. -/
def yearOfEra (dayOfEra : Nat) : Nat :=
  (dayOfEra - dayOfEra / 1460 + dayOfEra / 36524 - dayOfEra / 146096) / 365

theorem yearOfEra_mono : Monotone yearOfEra := by
  refine monotone_nat_of_le_succ fun day => ?_
  refine Nat.div_le_div_right ?_
  omega

/-- The first day of a year of an era. -/
def eraStart (year : Nat) : Nat := 365 * year + year / 4 - year / 100

theorem yearOfEra_ends : ∀ year < 400, yearOfEra (eraStart year) = year
    ∧ yearOfEra (eraStart (year + 1) - (if year = 399 then 0 else 1)) = year := by
  decide +kernel

theorem yearOfEra_eq {year dayOfEra : Nat} (hyear : year < 400) (hlow : eraStart year ≤ dayOfEra)
    (hhigh : dayOfEra ≤ eraStart (year + 1) - if year = 399 then 0 else 1) : yearOfEra dayOfEra = year := by
  obtain ⟨hfirst, hlast⟩ := yearOfEra_ends year hyear
  have hle := yearOfEra_mono hlow
  have hge := yearOfEra_mono hhigh
  omega

/-! ### The days before a date, counted over the lengths of years and months -/

def IsLeapYear (year : Nat) : Prop := year % 4 = 0 ∧ (year % 100 ≠ 0 ∨ year % 400 = 0)

instance (year : Nat) : Decidable (IsLeapYear year) := inferInstanceAs (Decidable (_ ∧ _))

def yearLength (year : Nat) : Nat := if IsLeapYear year then 366 else 365

def monthLength (year : Nat) : Nat → Nat
  | 2 => if IsLeapYear year then 29 else 28
  | 4 | 6 | 9 | 11 => 30
  | _ => 31

/-- The days from 1 January of year 0 to a date. -/
def daysBefore (year month day : Nat) : Nat :=
  ((List.range year).map yearLength).sum + ((List.range (month - 1)).map fun index => monthLength year (index + 1)).sum
    + (day - 1)

theorem sum_yearLength (year : Nat) : ((List.range year).map yearLength).sum + (year + 99) / 100
    = 365 * year + (year + 3) / 4 + (year + 399) / 400 := by
  induction year with
  | zero => rfl
  | succ year ih =>
      rw [List.range_succ, List.map_append, List.sum_append, List.map_singleton, List.sum_singleton]
      by_cases hleap : IsLeapYear year
      · rw [yearLength, if_pos hleap]
        unfold IsLeapYear at hleap
        omega
      · rw [yearLength, if_neg hleap]
        unfold IsLeapYear at hleap
        omega

/-- The months before March have 60 days in a leap year and 59 in another, and the later ones are counted from
1 March. -/
theorem sum_monthLength (year : Nat) {month : Nat} (hmonth : 1 ≤ month ∧ month ≤ 12) :
    ((List.range (month - 1)).map fun index => monthLength year (index + 1)).sum
      + (if month ≤ 2 then 306 else 0)
      = (153 * ((month + 9) % 12) + 2) / 5 + if month ≤ 2 then 0 else if IsLeapYear year then 60 else 59 := by
  obtain ⟨hlow, hhigh⟩ := hmonth
  by_cases hleap : IsLeapYear year
  · interval_cases month <;> simp [List.range_succ, monthLength, hleap]
  · interval_cases month <;> simp [List.range_succ, monthLength, hleap]

/-- The count by lengths is the count of the years that begin on 1 March. -/
theorem daysBefore_eq (year : Nat) {month day : Nat} (hmonth : 1 ≤ month ∧ month ≤ 12) (hday : 1 ≤ day) :
    (daysBefore year month day : Int) = yearStart (year - if month ≤ 2 then 1 else 0)
      + (153 * ((month + 9) % 12 : Nat) + 2) / 5 + day + 59 := by
  have hyears := sum_yearLength year
  have hmonths := sum_monthLength year hmonth
  rw [daysBefore, yearStart]
  by_cases hearly : month ≤ 2
  · rw [if_pos hearly, if_pos hearly] at hmonths
    rw [if_pos hearly]
    omega
  · rw [if_neg hearly, if_neg hearly] at hmonths
    rw [if_neg hearly]
    by_cases hleap : IsLeapYear year
    · rw [if_pos hleap] at hmonths
      unfold IsLeapYear at hleap
      omega
    · rw [if_neg hleap] at hmonths
      unfold IsLeapYear at hleap
      omega

theorem daysBefore_epoch : daysBefore 1970 1 1 = 719528 := by
  have h := daysBefore_eq 1970 (by decide : 1 ≤ 1 ∧ 1 ≤ 12) (Nat.le_refl 1)
  have hyear : yearStart (1970 - 1) = 719162 := by decide
  simp only [show (1 : Nat) ≤ 2 from by decide, if_true, Nat.cast_ofNat, hyear] at h
  omega

end Calendar

end MetricBackend
