import MetricBackend.CrontabFields
import MetricBackend.LibCalendar

/-! The search for the next minute of a crontab expression: what it finds, and when it finds anything. -/

namespace MetricBackend

/-- The civil time satisfies the expression. Days of the month and weekdays are alternatives when neither is `*`. -/
def Satisfies (expression : Text) (time : CivilTime) : Prop :=
  ∃ minute hour day month weekday, splitAsciiWhitespace expression = [minute, hour, day, month, weekday]
    ∧ FieldSelects 0 59 minute time.minute ∧ FieldSelects 0 23 hour time.hour ∧ FieldSelects 1 12 month time.month
    ∧ if day ≠ ['*'] ∧ weekday ≠ ['*'] then FieldSelects 1 31 day time.day ∨ FieldSelects 0 6 weekday time.weekday
      else FieldSelects 1 31 day time.day ∧ FieldSelects 0 6 weekday time.weekday

namespace CompiledCrontab

/-- A compiled expression matches the times that satisfy the fields. -/
theorem Compiles.matchesTime_iff {minute hour day month weekday : Text} {compiled : CompiledCrontab}
    (h : Compiles minute hour day month weekday compiled) {expression : Text}
    (hsplit : splitAsciiWhitespace expression = [minute, hour, day, month, weekday]) {time : CivilTime} :
    compiled.matchesTime time = true ↔ Satisfies expression time := by
  have hfields : Satisfies expression time ↔ FieldSelects 0 59 minute time.minute
      ∧ FieldSelects 0 23 hour time.hour ∧ FieldSelects 1 12 month time.month
      ∧ if day ≠ ['*'] ∧ weekday ≠ ['*'] then FieldSelects 1 31 day time.day ∨ FieldSelects 0 6 weekday time.weekday
        else FieldSelects 1 31 day time.day ∧ FieldSelects 0 6 weekday time.weekday := by
    constructor
    · rintro ⟨_, _, _, _, _, hother, hsatisfied⟩
      rw [hsplit] at hother
      cases hother
      exact hsatisfied
    · exact fun hsatisfied => ⟨minute, hour, day, month, weekday, hsplit, hsatisfied⟩
  rw [hfields, ← contains_parseField (by decide) h.minute, ← contains_parseField (by decide) h.hour,
    ← contains_parseField (by decide) h.month, ← contains_parseField (by decide) h.day,
    ← contains_parseField (by decide) h.weekday, matchesTime, h.dayWildcard, h.weekdayWildcard]
  simp only [Bool.and_eq_true, and_assoc]
  refine and_congr_right fun _ => and_congr_right fun _ => and_congr_right fun _ => ?_
  by_cases hday : day = ['*']
  · simp [hday]
  · by_cases hweekday : weekday = ['*']
    · simp [hweekday]
    · simp [hday, hweekday]

/-- A scan ends without a match when all its candidates are calendar minutes that the expression does not select. -/
theorem scanFrom_eq_invalidSchedule {self : CompiledCrontab} {remaining : Nat} {seconds : Int} :
    self.scanFrom remaining seconds = .error .invalidSchedule ↔ ∀ skipped < remaining, ∃ value,
      fromUnixTimestamp (seconds + 60 * (skipped : Nat)) = some value ∧ self.matchesTime value = false := by
  refine ⟨fun h => ?_, scanFrom_eq_error⟩
  induction remaining generalizing seconds with
  | zero => exact fun skipped hskipped => absurd hskipped (Nat.not_lt_zero skipped)
  | succ remaining ih =>
      rw [scanFrom] at h
      split at h
      · cases h
      · next value hvalue =>
        split_ifs at h with hmatches
        · cases hmillis : Timestamp.fromUnixMillis (seconds * 1000) with
          | error error => rw [hmillis] at h; cases h
          | ok result => rw [hmillis] at h; cases h
        · intro skipped hskipped
          cases skipped with
          | zero => exact ⟨value, by simpa using hvalue, Bool.eq_false_iff.mpr hmatches⟩
          | succ skipped =>
              obtain ⟨other, hother, hunmatched⟩ := ih h skipped (Nat.lt_of_succ_lt_succ hskipped)
              refine ⟨other, ?_, hunmatched⟩
              rw [← hother]
              congr 1
              push_cast
              ring

end CompiledCrontab

namespace MonitorSchedule

/-- The civil time of a whole minute satisfies the expression. -/
def MinuteSatisfies (expression : Text) (minute : Int) : Prop :=
  ∃ time, fromUnixTimestamp (minute * 60) = some time ∧ Satisfies expression time

/-- The next time of a crontab expression is the first whole minute after the given time that satisfies it; no minute
of the following 732 days does when there is none; and later times have later next times. -/
theorem nextAfter_least_match {expression : Text} {schedule : MonitorSchedule}
    (h : ofCrontab expression = .ok schedule) :
    (∀ after result, schedule.nextAfter after = .ok result → after < result
      ∧ ∃ minute : Int, result.unixMillis = minute * 60000 ∧ MinuteSatisfies expression minute
        ∧ ∀ earlier < minute, after.unixMillis < earlier * 60000 → ¬ MinuteSatisfies expression earlier)
    ∧ (∀ after, schedule.nextAfter after = .error .invalidSchedule → ∀ minute : Int,
        after.unixMillis < minute * 60000 → minute * 60000 ≤ after.unixMillis + 732 * 86400000 →
          ¬ MinuteSatisfies expression minute)
    ∧ ∀ earlier later first second, earlier ≤ later → schedule.nextAfter earlier = .ok first →
        schedule.nextAfter later = .ok second → first ≤ second := by
  obtain ⟨-, minutes, hours, days, months, weekdays, compiled, hsplit, hcompiles, rfl⟩ := ofCrontab_eq_ok.mp h
  have hmatches : ∀ time, compiled.matchesTime time = true ↔ Satisfies expression time :=
    fun _ => hcompiles.matchesTime_iff hsplit
  have hselects : ∀ minute : Int, MinuteSatisfies expression minute ↔ compiled.Selects (minute * 60) := by
    intro minute
    exact exists_congr fun time => and_congr_right fun _ => (hmatches time).symm
  refine ⟨fun after result hresult => ?_, fun after hnone minute hlow hhigh => ?_, ?_⟩
  · refine ⟨CompiledCrontab.nextAfter_gt hresult, ?_⟩
    obtain ⟨skipped, heq, hfound, hskipped⟩ := CompiledCrontab.scanFrom_eq_ok hresult
    have hminute : CompiledCrontab.firstCandidate after + 60 * (skipped : Int)
        = (after.unixMillis / 1000 / 60 + 1 + skipped) * 60 := by
      rw [CompiledCrontab.firstCandidate]
      ring
    rw [hminute] at heq hfound
    refine ⟨after.unixMillis / 1000 / 60 + 1 + skipped, by rw [heq]; ring, (hselects _).mpr hfound, ?_⟩
    intro earlier hbefore hafter hsatisfies
    obtain ⟨count, hcount⟩ : ∃ count : Nat, earlier = after.unixMillis / 1000 / 60 + 1 + count :=
      ⟨(earlier - (after.unixMillis / 1000 / 60 + 1)).toNat, by omega⟩
    refine hskipped count (by omega) ?_
    rw [hselects, hcount] at hsatisfies
    rw [CompiledCrontab.firstCandidate]
    convert hsatisfies using 1
    ring
  · rw [hselects]
    rintro ⟨time, htime, hmatched⟩
    obtain ⟨count, hcount⟩ : ∃ count : Nat, minute = after.unixMillis / 1000 / 60 + 1 + count :=
      ⟨(minute - (after.unixMillis / 1000 / 60 + 1)).toNat, by omega⟩
    have hlimit : count < CompiledCrontab.scanLimit := by
      rw [CompiledCrontab.scanLimit]
      omega
    obtain ⟨value, hvalue, hunmatched⟩ := CompiledCrontab.scanFrom_eq_invalidSchedule.mp hnone count hlimit
    have hsame : CompiledCrontab.firstCandidate after + 60 * (count : Int) = minute * 60 := by
      rw [CompiledCrontab.firstCandidate, hcount]
      ring
    rw [hsame, htime] at hvalue
    cases hvalue
    rw [hmatched] at hunmatched
    cases hunmatched
  · exact fun earlier later first second => nextAfter_mono

theorem nextAfter_least_match_hourly : (⟨60000, by decide⟩ : Timestamp) < ⟨1800000, by decide⟩
    ∧ ¬ MinuteSatisfies "30 * * * *".toList 29 := by
  have hparsed : ofCrontab "30 * * * *".toList
      = .ok (.crontab "30 * * * *".toList ⟨1#64 <<< 30, 0xFFFFFF#64, 0xFFFFFFFE#64, 8190#64, 127#64, true, true⟩) := by
    decide
  obtain ⟨hafter, minute, hminute, -, hnone⟩ :=
    (nextAfter_least_match hparsed).1 ⟨60000, by decide⟩ ⟨1800000, by decide⟩ (by decide)
  dsimp only at hminute
  exact ⟨hafter, hnone 29 (by omega) (by decide)⟩

end MonitorSchedule

/-! ### Dates -/

open Calendar in
/-- The date of a day is the one that its place in its year has. -/
theorem civilDate_eq_monthDay {year : Int} {dayOfYear : Nat} (h : yearStart year + dayOfYear < yearStart (year + 1)) :
    civilDate (yearStart year + dayOfYear - 719468) = monthDay dayOfYear := by
  have hsplit : yearStart year = 146097 * (year / 400) + yearStart (year % 400) := by
    rw [← yearStart_era, Int.mul_ediv_add_emod]
  obtain ⟨yearOf, hyearOf⟩ : ∃ yearOf : Nat, year % 400 = yearOf := ⟨(year % 400).toNat, by omega⟩
  have hyear : yearOf < 400 := by omega
  have hstart : yearStart year = 146097 * (year / 400) + eraStart yearOf := by
    rw [hsplit, hyearOf]
    simp only [yearStart, eraStart]
    omega
  have hnext : yearStart (year + 1)
      = 146097 * (year / 400) + eraStart (yearOf + 1) + if yearOf = 399 then 1 else 0 := by
    have hsucc : year + 1 = 400 * (year / 400) + (yearOf + 1 : Nat) := by omega
    rw [hsucc, yearStart_era]
    simp only [yearStart, eraStart]
    split_ifs <;> omega
  have hday : ((yearStart year + dayOfYear - 719468 + 719468) % 146097).toNat = eraStart yearOf + dayOfYear := by
    have hlast : eraStart (yearOf + 1) + (if yearOf = 399 then 1 else 0) ≤ 146097 := by
      simp only [eraStart]
      split_ifs <;> omega
    split_ifs at hlast hnext <;> omega
  have hyearOfEra : yearOfEra (eraStart yearOf + dayOfYear) = yearOf := by
    refine yearOfEra_eq hyear (Nat.le_add_right _ _) ?_
    split_ifs at hnext ⊢ <;> omega
  show monthDay (((yearStart year + dayOfYear - 719468 + 719468) % 146097).toNat
    - eraStart (yearOfEra ((yearStart year + dayOfYear - 719468 + 719468) % 146097).toNat)) = monthDay dayOfYear
  rw [hday, hyearOfEra, Nat.add_sub_cancel_left]

/-- The longest that a month gets. -/
def daysInMonth (month : Nat) : Nat := [0, 31, 29, 31, 30, 31, 30, 31, 31, 30, 31, 30, 31].getD month 0

theorem bounds_of_date {month day : Nat} (h : 1 ≤ day ∧ day ≤ daysInMonth month) :
    1 ≤ month ∧ month ≤ 12 ∧ day ≤ 31 := by
  have hlongest : ∀ month < 13, daysInMonth month ≤ 31 := by decide
  by_cases hmonth : month < 13
  · refine ⟨Nat.one_le_iff_ne_zero.mpr ?_, Nat.le_of_lt_succ hmonth, h.2.trans (hlongest month hmonth)⟩
    rintro rfl
    exact absurd (h.1.trans h.2) (by decide)
  · have hnone : daysInMonth month = 0 := by
      rw [daysInMonth, List.getD_eq_getElem?_getD, List.getElem?_eq_none (by simpa using not_lt.mp hmonth)]
      rfl
    omega

/-- The first day of a month in a year that begins on 1 March. -/
def monthStart (month : Nat) : Nat := [0, 306, 337, 0, 31, 61, 92, 122, 153, 184, 214, 245, 275].getD month 0

/-- Every year has the dates but the leap day. -/
theorem monthDay_monthStart : ∀ month < 13, ∀ day < 32, (1 ≤ day ∧ day ≤ daysInMonth month) ∧ ¬ (month, day) = (2, 29) →
    monthStart month + (day - 1) < 365 ∧ Calendar.monthDay (monthStart month + (day - 1)) = (month, day) := by
  decide

/-- The parts of a time that some year has. -/
structure CivilTime.Valid (time : CivilTime) : Prop where
  day : 1 ≤ time.day ∧ time.day ≤ daysInMonth time.month
  weekday : time.weekday < 7
  hour : time.hour < 24
  minute : time.minute < 60

theorem day_monthDay : ∀ dayOfYear < 366, 1 ≤ (Calendar.monthDay dayOfYear).2
    ∧ (Calendar.monthDay dayOfYear).2 ≤ daysInMonth (Calendar.monthDay dayOfYear).1 := by
  decide +kernel

theorem fromUnixTimestamp_eq_some {seconds : Int} {time : CivilTime} : fromUnixTimestamp seconds = some time
    ↔ (minCalendarSeconds ≤ seconds ∧ seconds ≤ maxCalendarSeconds)
      ∧ time = ⟨(civilDate (seconds / 86400)).1, (civilDate (seconds / 86400)).2, ((seconds / 86400 + 4) % 7).toNat,
        (seconds % 86400).toNat / 3600, (seconds % 86400).toNat % 3600 / 60⟩ := by
  rw [fromUnixTimestamp]
  by_cases h : minCalendarSeconds ≤ seconds ∧ seconds ≤ maxCalendarSeconds
  · rw [if_pos h, and_iff_right h, eq_comm]
    exact Option.some_inj
  · rw [if_neg h]
    exact iff_of_false (fun hnone => nomatch hnone) fun hsome => h hsome.1

theorem valid_fromUnixTimestamp {seconds : Int} {time : CivilTime} (h : fromUnixTimestamp seconds = some time) :
    time.Valid := by
  obtain ⟨-, rfl⟩ := fromUnixTimestamp_eq_some.mp h
  obtain ⟨year, hlow, hhigh⟩ := Calendar.exists_year (seconds / 86400 + 719468)
  obtain ⟨dayOfYear, hday⟩ : ∃ dayOfYear : Nat, seconds / 86400 = Calendar.yearStart year + dayOfYear - 719468 :=
    ⟨(seconds / 86400 + 719468 - Calendar.yearStart year).toNat, by omega⟩
  have hyear := Calendar.yearStart_succ year
  have hdate : civilDate (seconds / 86400) = Calendar.monthDay dayOfYear := by
    rw [hday, civilDate_eq_monthDay (by omega)]
  refine ⟨?_, ?_, ?_, ?_⟩
  · show 1 ≤ (civilDate (seconds / 86400)).2 ∧ (civilDate (seconds / 86400)).2 ≤ daysInMonth (civilDate _).1
    rw [hdate]
    exact day_monthDay dayOfYear (by omega)
  · show ((seconds / 86400 + 4) % 7).toNat < 7
    omega
  · show (seconds % 86400).toNat / 3600 < 24
    omega
  · show (seconds % 86400).toNat % 3600 / 60 < 60
    omega

/-! ### Expressions that come again -/

namespace CompiledCrontab

/-- The part of `matches` that looks at the date. -/
def matchesDate (self : CompiledCrontab) (date : Nat × Nat) (weekday : Nat) : Bool :=
  contains self.month date.1 &&
    if self.dayWildcard || self.weekdayWildcard then contains self.day date.2 && contains self.weekday weekday
    else contains self.day date.2 || contains self.weekday weekday

theorem matchesTime_eq (self : CompiledCrontab) (time : CivilTime) : self.matchesTime time
    = (contains self.minute time.minute && contains self.hour time.hour
      && self.matchesDate (time.month, time.day) time.weekday) := by
  simp only [matchesTime, matchesDate, Bool.and_assoc]

/-- Some week of every year has a matching date, on whatever weekday the week begins. -/
def Recurs (self : CompiledCrontab) : Prop :=
  ∃ dayOfYear, ∀ weekday < 7, ∃ later < 7, dayOfYear + later < 365
    ∧ self.matchesDate (Calendar.monthDay (dayOfYear + later)) ((weekday + later) % 7) = true

section Recurrence

variable {minutes hours days months weekdays : Text} {self : CompiledCrontab}
  (h : Compiles minutes hours days months weekdays self)
include h

/-- Every month begins with a week of dates that no year lacks. -/
theorem Compiles.recurs_of_month {month : Nat} (hbounds : 1 ≤ month ∧ month ≤ 12)
    (hmonth : contains self.month month = true) (hfree : self.dayWildcard = true ∨ self.weekdayWildcard = false) :
    self.Recurs := by
  obtain ⟨weekday, -, hweekday, hcontains⟩ := exists_contains (by decide) h.weekday
  have hweek : ∀ month < 13, 1 ≤ month → ∀ later < 7,
      later + 1 ≤ daysInMonth month ∧ ¬ (month, later + 1) = (2, 29) := by
    decide
  refine ⟨monthStart month, fun first hfirst => ?_⟩
  obtain ⟨later, hlater⟩ : ∃ later, later = (weekday + 7 - first) % 7 := ⟨_, rfl⟩
  have hseven : later < 7 := hlater ▸ Nat.mod_lt _ (by decide)
  obtain ⟨hlong, hcommon⟩ := hweek month (by omega) hbounds.1 later hseven
  obtain ⟨hlast, hdate⟩ := monthDay_monthStart month (by omega) (later + 1) (by omega)
    ⟨⟨Nat.le_add_left 1 later, hlong⟩, hcommon⟩
  rw [Nat.add_sub_cancel] at hlast hdate
  refine ⟨later, hseven, hlast, ?_⟩
  rw [hdate, show (first + later) % 7 = weekday by omega, matchesDate, hmonth, hcontains,
    Bool.true_and, Bool.and_true, Bool.or_true]
  by_cases hday : self.dayWildcard = true
  · have hstar : days = ['*'] := of_decide_eq_true (h.dayWildcard ▸ hday)
    have hall := contains_star (by decide) (hstar ▸ h.day) (Nat.le_add_left 1 later) (by omega)
    rw [hday, Bool.true_or, if_pos rfl]
    exact hall
  · have hweekdays := hfree.resolve_left hday
    rw [Bool.eq_false_iff.mpr hday, hweekdays]
    rfl

/-- A date that no year lacks comes again on whatever weekday when weekdays are free. -/
theorem Compiles.recurs_of_date (hweekdays : self.weekdayWildcard = true) {date : Nat × Nat} {weekday : Nat}
    (hdate : 1 ≤ date.2 ∧ date.2 ≤ daysInMonth date.1) (hcommon : date ≠ (2, 29))
    (hmatches : self.matchesDate date weekday = true) : self.Recurs := by
  obtain ⟨-, hmonth, hday⟩ := bounds_of_date hdate
  obtain ⟨hlast, hplace⟩ := monthDay_monthStart date.1 (Nat.lt_succ_of_le hmonth) date.2 (Nat.lt_succ_of_le hday)
    ⟨hdate, hcommon⟩
  have hstar : weekdays = ['*'] := of_decide_eq_true (h.weekdayWildcard ▸ hweekdays)
  refine ⟨monthStart date.1 + (date.2 - 1), fun first hfirst => ⟨0, by decide, hlast, ?_⟩⟩
  have hall := contains_star (by decide) (hstar ▸ h.weekday) (Nat.zero_le first) (by omega)
  rw [matchesDate, hweekdays, Bool.or_true, if_pos rfl, Bool.and_eq_true, Bool.and_eq_true] at hmatches ⊢
  rw [Nat.add_zero, Nat.add_zero, hplace, Nat.mod_eq_of_lt hfirst]
  exact ⟨hmatches.1, hmatches.2.1, hall⟩

/-- Without a date in every year, weekdays are free. -/
theorem Compiles.weekdays_free (hrecurs : ¬ self.Recurs) {date : Nat × Nat} {weekday : Nat}
    (hdate : 1 ≤ date.2 ∧ date.2 ≤ daysInMonth date.1) (hmatches : self.matchesDate date weekday = true) :
    self.weekdayWildcard = true := by
  by_contra hweekdays
  have hmonth : contains self.month date.1 = true := (Bool.and_eq_true_iff.mp hmatches).1
  obtain ⟨hfirst, hlast, -⟩ := bounds_of_date hdate
  exact hrecurs (h.recurs_of_month ⟨hfirst, hlast⟩ hmonth (.inr (Bool.eq_false_iff.mpr hweekdays)))

/-- What does not come again in every year matches leap days at most. -/
theorem Compiles.leapDay_of_not_recurs (hrecurs : ¬ self.Recurs) {time : CivilTime} (hvalid : time.Valid)
    (hmatches : self.matchesTime time = true) : time.month = 2 ∧ time.day = 29 := by
  rw [matchesTime_eq, Bool.and_eq_true] at hmatches
  by_contra hother
  have hcommon : (time.month, time.day) ≠ (2, 29) := fun heq => hother (Prod.mk.inj heq)
  exact hrecurs (h.recurs_of_date (h.weekdays_free hrecurs hvalid.day hmatches.2) hvalid.day hcommon hmatches.2)

end Recurrence

/-- A scan finds something when one of its candidates is selected. -/
theorem isOk_scanFrom {self : CompiledCrontab} {remaining skipped : Nat} {seconds : Int}
    (hlow : minTimestampMillis ≤ seconds * 1000) (hskipped : skipped < remaining)
    (hselects : self.Selects (seconds + 60 * (skipped : Nat))) : (self.scanFrom remaining seconds).isOk = true := by
  induction skipped generalizing seconds remaining with
  | zero =>
      obtain ⟨remaining, rfl⟩ := Nat.exists_eq_succ_of_ne_zero (Nat.ne_of_gt hskipped)
      rw [Nat.cast_zero, mul_zero, add_zero] at hselects
      obtain ⟨time, htime, hmatches⟩ := hselects
      have hhigh := (fromUnixTimestamp_eq_some.mp htime).1.2
      rw [scanFrom, htime]
      dsimp only
      rw [if_pos hmatches, Timestamp.fromUnixMillis, dif_pos]
      · rfl
      · rw [maxCalendarSeconds] at hhigh
        rw [maxTimestampMillis]
        exact ⟨hlow, by omega⟩
  | succ skipped ih =>
      obtain ⟨remaining, rfl⟩ := Nat.exists_eq_succ_of_ne_zero (Nat.ne_of_gt (Nat.zero_lt_of_lt hskipped))
      have hnext : seconds + 60 * ((skipped + 1 : Nat) : Int) = seconds + 60 + 60 * (skipped : Int) := by
        push_cast
        ring
      rw [hnext] at hselects
      obtain ⟨last, hlast, hmatches⟩ := hselects
      have hhigh := (fromUnixTimestamp_eq_some.mp hlast).1.2
      have hrange : minCalendarSeconds ≤ seconds ∧ seconds ≤ maxCalendarSeconds := by
        rw [minTimestampMillis] at hlow
        rw [minCalendarSeconds]
        omega
      obtain ⟨time, htime⟩ : ∃ time, fromUnixTimestamp seconds = some time :=
        ⟨_, fromUnixTimestamp_eq_some.mpr ⟨hrange, rfl⟩⟩
      rw [scanFrom, htime]
      dsimp only
      by_cases hfirst : self.matchesTime time = true
      · rw [if_pos hfirst, Timestamp.fromUnixMillis, dif_pos]
        · rfl
        · rw [maxCalendarSeconds] at hhigh
          rw [maxTimestampMillis]
          exact ⟨hlow, by omega⟩
      · rw [if_neg hfirst]
        exact ih (by omega) (Nat.lt_of_succ_lt_succ hskipped) ⟨last, hlast, hmatches⟩

/-- What comes again in every year is found from any time on. -/
theorem Compiles.isOk_of_recurs {minutes hours days months weekdays : Text} {self : CompiledCrontab}
    (h : Compiles minutes hours days months weekdays self) (hrecurs : self.Recurs) {after : Timestamp}
    (hend : after.unixMillis + 732 * 86400000 ≤ maxTimestampMillis) : (self.nextAfter after).isOk = true := by
  obtain ⟨minute, -, hminute, hminutes⟩ := exists_contains (by decide) h.minute
  obtain ⟨hour, -, hhour, hhours⟩ := exists_contains (by decide) h.hour
  obtain ⟨dayOfYear, hweek⟩ := hrecurs
  obtain ⟨_, -, hlast, -⟩ := hweek 0 (by decide)
  obtain ⟨year, hnext, hsoon⟩ :=
    Calendar.exists_next (after.unixMillis / 1000 / 86400 + 719468) (Nat.lt_of_le_of_lt (Nat.le_add_right _ _) hlast)
  obtain ⟨first, hfirst⟩ : ∃ first : Int, first = Calendar.yearStart year + dayOfYear - 719468 := ⟨_, rfl⟩
  obtain ⟨later, hlater, hplace, hmatches⟩ := hweek ((first + 4) % 7).toNat (by omega)
  have hyear := Calendar.yearStart_succ year
  have hday : first + later = Calendar.yearStart year + (dayOfYear + later : Nat) - 719468 := by omega
  have hdate : civilDate (first + later) = Calendar.monthDay (dayOfYear + later) := by
    rw [hday]
    exact civilDate_eq_monthDay (by omega)
  obtain ⟨seconds, hseconds⟩ : ∃ seconds : Int, seconds = (first + later) * 86400 + hour * 3600 + minute * 60 :=
    ⟨_, rfl⟩
  obtain ⟨skipped, hskipped⟩ : ∃ skipped : Nat, firstCandidate after + 60 * (skipped : Int) = seconds := by
    refine ⟨((seconds - firstCandidate after) / 60).toNat, ?_⟩
    rw [firstCandidate]
    omega
  have hinRange := after.inRange
  simp only [minTimestampMillis, maxTimestampMillis] at hinRange hend
  refine @isOk_scanFrom self scanLimit skipped (firstCandidate after) ?_ ?_ ?_
  · rw [firstCandidate, minTimestampMillis]
    omega
  · rw [firstCandidate] at hskipped
    rw [scanLimit]
    omega
  · rw [hskipped]
    refine ⟨_, fromUnixTimestamp_eq_some.mpr ⟨?_, rfl⟩, ?_⟩
    · rw [minCalendarSeconds, maxCalendarSeconds]
      omega
    · have hdays : seconds / 86400 = first + later := by omega
      have hhourOf : (seconds % 86400).toNat / 3600 = hour := by omega
      have hminuteOf : (seconds % 86400).toNat % 3600 / 60 = minute := by omega
      have hweekday : ((first + later + 4) % 7).toNat = (((first + 4) % 7).toNat + later) % 7 := by omega
      rw [matchesTime_eq]
      simp only [hdays, hhourOf, hminuteOf, hminutes, hhours, hweekday, hdate, Bool.true_and]
      exact hmatches

/-- A time in the year matches what comes again, and it is no leap day. -/
theorem Compiles.exists_match_of_recurs {minutes hours days months weekdays : Text} {self : CompiledCrontab}
    (h : Compiles minutes hours days months weekdays self) (hrecurs : self.Recurs) :
    ∃ time : CivilTime, time.Valid ∧ self.matchesTime time = true ∧ ¬ (time.month = 2 ∧ time.day = 29) := by
  have hcommon : ∀ dayOfYear < 365, ¬ ((Calendar.monthDay dayOfYear).1 = 2 ∧ (Calendar.monthDay dayOfYear).2 = 29) := by
    decide +kernel
  obtain ⟨minute, -, hminute, hminutes⟩ := exists_contains (by decide) h.minute
  obtain ⟨hour, -, hhour, hhours⟩ := exists_contains (by decide) h.hour
  obtain ⟨dayOfYear, hweek⟩ := hrecurs
  obtain ⟨later, hlater, hplace, hmatches⟩ := hweek 0 (by decide)
  refine ⟨⟨(Calendar.monthDay (dayOfYear + later)).1, (Calendar.monthDay (dayOfYear + later)).2, (0 + later) % 7, hour,
    minute⟩, ⟨day_monthDay _ (by omega), Nat.mod_lt _ (by decide), Nat.lt_succ_of_le hhour, Nat.lt_succ_of_le hminute⟩,
    ?_, hcommon _ hplace⟩
  rw [matchesTime_eq]
  simp only [hminutes, hhours, Bool.true_and]
  exact hmatches

end CompiledCrontab

/-! ### An isolated leap day -/

/-- `0 0 29 2 *`. -/
def leapDay : CompiledCrontab where
  minute := 1#64
  hour := 1#64
  day := 1#64 <<< 29
  month := 1#64 <<< 2
  weekday := 127#64
  dayWildcard := false
  weekdayWildcard := true

theorem leapDay_parsed :
    MonitorSchedule.ofCrontab "0 0 29 2 *".toList = .ok (.crontab "0 0 29 2 *".toList leapDay) := by
  decide

example : civilDate 21243 = (2, 29) := by decide +kernel

/-- The two years after the leap day of 2028 have no other. -/
theorem not_leapDay : ∀ days < 734, days ≠ 0 →
    ¬ (contains leapDay.day (civilDate ((21243 + days : Nat) : Int)).2 = true
      ∧ contains leapDay.month (civilDate ((21243 + days : Nat) : Int)).1 = true) := by
  decide +kernel

theorem leapDay_nextAfter (after : Timestamp) (hfirst : 1835395200000 ≤ after.unixMillis)
    (hlast : after.unixMillis < 1835481600000) : leapDay.nextAfter after = .error .invalidSchedule := by
  refine CompiledCrontab.scanFrom_eq_error fun skipped hskipped => ?_
  have hskip : skipped ≤ 1054080 := Nat.lt_succ_iff.mp hskipped
  obtain ⟨seconds, hseconds⟩ : ∃ seconds, seconds = CompiledCrontab.firstCandidate after + 60 * (skipped : Int) :=
    ⟨_, rfl⟩
  have hbounds : 1835395260 ≤ seconds ∧ seconds ≤ 1898726400 ∧ seconds % 60 = 0 := by
    rw [hseconds, CompiledCrontab.firstCandidate]
    omega
  rw [← hseconds, fromUnixTimestamp, if_pos (by rw [minCalendarSeconds, maxCalendarSeconds]; omega)]
  refine ⟨_, rfl, ?_⟩
  obtain ⟨days, hdays⟩ : ∃ days : Nat, seconds / 86400 = ((21243 + days : Nat) : Int) :=
    ⟨(seconds / 86400 - 21243).toNat, by omega⟩
  have hlate : days < 734 := by omega
  rw [Bool.eq_false_iff]
  intro hmatches
  simp only [CompiledCrontab.matchesTime, leapDay, Bool.false_or, if_true, Bool.and_eq_true, hdays] at hmatches
  obtain ⟨⟨⟨hminute, hhour⟩, hmonth⟩, hday, -⟩ := hmatches
  by_cases hsame : days = 0
  · have hminutes : ∀ minute < 60, contains 1#64 minute = true → minute = 0 := by decide
    have hhours : ∀ hour < 24, contains 1#64 hour = true → hour = 0 := by decide
    have hminute := hminutes _ (by omega) hminute
    have hhour := hhours _ (by omega) hhour
    omega
  · exact not_leapDay days hlate hsame ⟨hday, hmonth⟩

/-- The expression satisfies leap days, and no other date. -/
def OnlyLeapDays (expression : Text) : Prop :=
  (∃ time : CivilTime, time.Valid ∧ Satisfies expression time)
    ∧ ∀ time : CivilTime, time.Valid → Satisfies expression time → time.month = 2 ∧ time.day = 29

namespace CompiledCrontab

/-- No minute of the 732 days after the leap day of 2028 is on a leap day. -/
theorem not_isOk_of_leapDays {self : CompiledCrontab}
    (h : ∀ time : CivilTime, time.Valid → self.matchesTime time = true → time.month = 2 ∧ time.day = 29) :
    (self.nextAfter ⟨1835481600000, by decide⟩).isOk = false := by
  have hdates : ∀ days < 734, ¬ ((civilDate ((21244 + days : Nat) : Int)).1 = 2
      ∧ (civilDate ((21244 + days : Nat) : Int)).2 = 29) := by
    decide +kernel
  have hnone : self.nextAfter ⟨1835481600000, by decide⟩ = .error .invalidSchedule := by
    refine scanFrom_eq_error fun skipped hskipped => ?_
    have hskip : skipped ≤ 1054080 := Nat.lt_succ_iff.mp hskipped
    obtain ⟨seconds, hseconds⟩ :
        ∃ seconds, seconds = firstCandidate ⟨1835481600000, by decide⟩ + 60 * (skipped : Int) := ⟨_, rfl⟩
    rw [← hseconds]
    simp only [firstCandidate] at hseconds
    obtain ⟨time, htime⟩ : ∃ time, fromUnixTimestamp seconds = some time :=
      ⟨_, fromUnixTimestamp_eq_some.mpr ⟨by rw [minCalendarSeconds, maxCalendarSeconds]; omega, rfl⟩⟩
    refine ⟨time, htime, Bool.eq_false_iff.mpr fun hmatches => ?_⟩
    obtain ⟨days, hdays⟩ : ∃ days : Nat, seconds / 86400 = ((21244 + days : Nat) : Int) :=
      ⟨(seconds / 86400 - 21244).toNat, by omega⟩
    have hleap := h time (valid_fromUnixTimestamp htime) hmatches
    obtain ⟨-, rfl⟩ := fromUnixTimestamp_eq_some.mp htime
    rw [hdays] at hleap
    exact hdates days (by omega) hleap
  rw [hnone]
  rfl

/-- The leap day of 2028 is found from the day before. -/
theorem Compiles.isOk_of_leapDay {minutes hours days months weekdays : Text} {self : CompiledCrontab}
    (h : Compiles minutes hours days months weekdays self) (hrecurs : ¬ self.Recurs) {time : CivilTime}
    (hvalid : time.Valid) (hmatches : self.matchesTime time = true) :
    (self.nextAfter ⟨1835308800000, by decide⟩).isOk = true := by
  obtain ⟨month, day, weekday, hour, minute⟩ := time
  obtain ⟨rfl, rfl⟩ : month = 2 ∧ day = 29 := h.leapDay_of_not_recurs hrecurs hvalid hmatches
  rw [matchesTime_eq, Bool.and_eq_true, Bool.and_eq_true] at hmatches
  obtain ⟨⟨hminutes, hhours⟩, hdate⟩ := hmatches
  have hweekdays := h.weekdays_free hrecurs hvalid.day hdate
  have hstar : weekdays = ['*'] := of_decide_eq_true (h.weekdayWildcard ▸ hweekdays)
  have htuesday : contains self.weekday 2 = true :=
    contains_star (by decide) (hstar ▸ h.weekday) (by decide) (by decide)
  have hminute : minute < 60 := hvalid.minute
  have hhour : hour < 24 := hvalid.hour
  refine @isOk_scanFrom self scanLimit (1439 + hour * 60 + minute) (firstCandidate ⟨1835308800000, by decide⟩) (by decide)
    (by rw [scanLimit]; omega) ?_
  have hseconds : firstCandidate ⟨1835308800000, by decide⟩ + 60 * ((1439 + hour * 60 + minute : Nat) : Int)
      = 1835395200 + hour * 3600 + minute * 60 := by
    simp only [firstCandidate]
    omega
  rw [hseconds]
  refine ⟨_, fromUnixTimestamp_eq_some.mpr ⟨by rw [minCalendarSeconds, maxCalendarSeconds]; omega, rfl⟩, ?_⟩
  have hdays : (1835395200 + hour * 3600 + minute * 60 : Int) / 86400 = 21243 := by omega
  have hhourOf : ((1835395200 + hour * 3600 + minute * 60 : Int) % 86400).toNat / 3600 = hour := by omega
  have hminuteOf : ((1835395200 + hour * 3600 + minute * 60 : Int) % 86400).toNat % 3600 / 60 = minute := by omega
  have hplace : civilDate 21243 = (2, 29) := by decide
  rw [matchesTime_eq]
  simp only [hdays, hhourOf, hminuteOf, hminutes, hhours, hplace, Bool.true_and]
  rw [matchesDate, hweekdays, Bool.or_true, if_pos rfl, Bool.and_eq_true, Bool.and_eq_true] at hdate ⊢
  exact ⟨hdate.1, hdate.2.1, htuesday⟩

end CompiledCrontab

namespace MonitorSchedule

/-- Whether a crontab expression has a next time depends on the day it is asked on exactly when the expression
satisfies nothing but leap days. -/
theorem nextAfter_isOk_iff {expression : Text} {schedule : MonitorSchedule} (h : ofCrontab expression = .ok schedule) :
    (∀ first second : Timestamp, first.unixMillis + 732 * 86400000 ≤ maxTimestampMillis →
        second.unixMillis + 732 * 86400000 ≤ maxTimestampMillis →
        ((schedule.nextAfter first).isOk = true ↔ (schedule.nextAfter second).isOk = true))
      ↔ ¬ OnlyLeapDays expression := by
  obtain ⟨-, minutes, hours, days, months, weekdays, compiled, hsplit, hcompiles, rfl⟩ := ofCrontab_eq_ok.mp h
  have hmatches : ∀ time, compiled.matchesTime time = true ↔ Satisfies expression time :=
    fun _ => hcompiles.matchesTime_iff hsplit
  constructor
  · rintro hsame ⟨⟨time, hvalid, hsatisfied⟩, hleap⟩
    have honly : ∀ time : CivilTime, time.Valid → compiled.matchesTime time = true → time.month = 2 ∧ time.day = 29 :=
      fun time hvalid hmatched => hleap time hvalid ((hmatches time).mp hmatched)
    have hrecurs : ¬ compiled.Recurs := by
      intro hrecurs
      obtain ⟨other, hother, hmatched, hcommon⟩ := hcompiles.exists_match_of_recurs hrecurs
      exact hcommon (honly other hother hmatched)
    have hfound := hcompiles.isOk_of_leapDay hrecurs hvalid ((hmatches time).mpr hsatisfied)
    have hlost := CompiledCrontab.not_isOk_of_leapDays honly
    have hboth : (compiled.nextAfter ⟨1835481600000, by decide⟩).isOk = true :=
      (hsame ⟨1835308800000, by decide⟩ ⟨1835481600000, by decide⟩ (by decide) (by decide)).mp hfound
    rw [hlost] at hboth
    cases hboth
  · intro hleap first second hfirst hsecond
    by_cases hrecurs : compiled.Recurs
    · exact iff_of_true (hcompiles.isOk_of_recurs hrecurs hfirst) (hcompiles.isOk_of_recurs hrecurs hsecond)
    · -- without a date in every year and without a leap day, nothing matches at all
      have hnone : ∀ after : Timestamp, ¬ (compiled.nextAfter after).isOk = true := by
        intro after hok
        obtain ⟨result, hresult⟩ := exists_ok_of_isOk hok
        obtain ⟨skipped, -, ⟨time, htime, hmatched⟩, -⟩ := CompiledCrontab.scanFrom_eq_ok hresult
        refine hleap ⟨⟨time, valid_fromUnixTimestamp htime, (hmatches time).mp hmatched⟩, ?_⟩
        intro other hother hsatisfied
        exact hcompiles.leapDay_of_not_recurs hrecurs hother ((hmatches other).mpr hsatisfied)
      exact iff_of_false (hnone first) (hnone second)

theorem leapDay_isOk : (leapDay.nextAfter ⟨1835308800000, by decide⟩).isOk = true
    ∧ (leapDay.nextAfter ⟨1835395200000, by decide⟩).isOk = false := by
  refine ⟨by decide +kernel, ?_⟩
  rw [leapDay_nextAfter _ (by decide) (by decide)]
  rfl

/-- The monitor of each leap day is accepted the day before one, and refused on it. -/
theorem nextAfter_isOk_leapDay : ¬ ∀ expression schedule, ofCrontab expression = .ok schedule →
    ∀ first second : Timestamp, first.unixMillis + 732 * 86400000 ≤ maxTimestampMillis →
      second.unixMillis + 732 * 86400000 ≤ maxTimestampMillis →
      ((schedule.nextAfter first).isOk = true ↔ (schedule.nextAfter second).isOk = true) := by
  intro hsame
  obtain ⟨hfound, hlost⟩ := leapDay_isOk
  have hboth : (leapDay.nextAfter ⟨1835395200000, by decide⟩).isOk = true :=
    (hsame _ _ leapDay_parsed ⟨1835308800000, by decide⟩ ⟨1835395200000, by decide⟩ (by decide) (by decide)).mp hfound
  rw [hlost] at hboth
  cases hboth

theorem nextAfter_isOk_iff_leapDay : OnlyLeapDays "0 0 29 2 *".toList := by
  by_contra hother
  obtain ⟨hfound, hlost⟩ := leapDay_isOk
  have hboth : (leapDay.nextAfter ⟨1835395200000, by decide⟩).isOk = true :=
    ((nextAfter_isOk_iff leapDay_parsed).mpr hother ⟨1835308800000, by decide⟩ ⟨1835395200000, by decide⟩ (by decide)
      (by decide)).mp hfound
  rw [hlost] at hboth
  cases hboth

end MonitorSchedule

end MetricBackend
