import MetricBackend.DomainValues
import MetricBackend.LibFallible
import Mathlib.Tactic.Ring

/-! Monitor schedules of `domain/src/monitors.rs`: fixed intervals and the bounded numeric crontab
subset. `time::OffsetDateTime` is read as the proleptic Gregorian calendar in UTC. -/

namespace MetricBackend

inductive MonitorValueError where
  | invalidText
  | invalidSchedule
  | invalidConfig
  | invalidStatus
  | invalidRun
  | invalidTime
  | invalidEndpoint
  | invalidHeader
deriving DecidableEq, Repr

def maxMonitorScheduleBytes : Nat := 128
def maxMonitorIntervalMinutes : Nat := 366 * 24 * 60

def addMillis (value : Timestamp) (delta : Int) : Except MonitorValueError Timestamp :=
  (Timestamp.fromUnixMillis (value.unixMillis + delta)).mapError fun _ => .invalidTime

/-! ### Calendar -/

/-- The parts of a UTC date and time that a crontab expression constrains, Sunday being day zero of
the week. -/
structure CivilTime where
  month : Nat
  day : Nat
  weekday : Nat
  hour : Nat
  minute : Nat
deriving DecidableEq

/-- Month and day of a day counted from 1970-01-01. -/
def civilDate (days : Int) : Nat × Nat :=
  let shifted := days + 719468
  let dayOfEra := (shifted % 146097).toNat
  let yearOfEra := (dayOfEra - dayOfEra / 1460 + dayOfEra / 36524 - dayOfEra / 146096) / 365
  let dayOfYear := dayOfEra - (365 * yearOfEra + yearOfEra / 4 - yearOfEra / 100)
  let shiftedMonth := (5 * dayOfYear + 2) / 153
  let day := dayOfYear - (153 * shiftedMonth + 2) / 5 + 1
  (if shiftedMonth < 10 then shiftedMonth + 3 else shiftedMonth - 9, day)

def minCalendarSeconds : Int := -377705116800
def maxCalendarSeconds : Int := 253402300799

/-- `OffsetDateTime::from_unix_timestamp`, defined for the years -9999 to 9999. -/
def fromUnixTimestamp (seconds : Int) : Option CivilTime :=
  if minCalendarSeconds ≤ seconds ∧ seconds ≤ maxCalendarSeconds then
    let days := seconds / 86400
    let secondOfDay := (seconds % 86400).toNat
    let (month, day) := civilDate days
    some {
      month := month
      day := day
      weekday := ((days + 4) % 7).toNat
      hour := secondOfDay / 3600
      minute := secondOfDay % 3600 / 60 }
  else none

example : fromUnixTimestamp 1709164800 = some ⟨2, 29, 4, 0, 0⟩ := by decide

/-! ### Crontab expressions -/

structure CompiledCrontab where
  minute : BitVec 64
  hour : BitVec 64
  day : BitVec 64
  month : BitVec 64
  weekday : BitVec 64
  dayWildcard : Bool
  weekdayWildcard : Bool
deriving DecidableEq

def contains (bits : BitVec 64) (value : Nat) : Bool := bits &&& (1#64 <<< value) != 0#64

/-- `(start..=end).step_by(step)` for a positive step. -/
def steppedRange (start last step : Nat) : List Nat :=
  (List.range ((last - start) / step + 1)).map fun index => start + index * step

/-- The bounds of an item of a crontab field: everything, a range, or one number twice. -/
def parseRange (base : Text) (minimum maximum : Nat) : Except MonitorValueError (Nat × Nat) :=
  if base = ['*'] then .ok (minimum, maximum)
  else match splitOnce '-' base with
    | some (start, last) =>
        match parseU8 start, parseU8 last with
        | some start, some last => .ok (start, last)
        | _, _ => .error .invalidSchedule
    | none =>
        match parseU8 base with
        | some exact => .ok (exact, exact)
        | none => .error .invalidSchedule

/-- One comma-separated item of a crontab field: the numbers it selects. -/
def parseItem (item : Text) (minimum maximum : Nat) : Except MonitorValueError (List Nat) := do
  failIf item.isEmpty .invalidSchedule
  let (base, step) := match splitOnce '/' item with
    | none => (item, 1)
    | some (base, step) => (base, (parseU8 step).getD 0)
  failIf (step = 0) .invalidSchedule
  let (start, last) ← parseRange base minimum maximum
  failIf (start < minimum ∨ maximum < last ∨ last < start) .invalidSchedule
  return steppedRange start last step

def parseField (value : Text) (minimum maximum : Nat) : Except MonitorValueError (BitVec 64) := do
  let bits ← (value.splitOn ',').foldlM (fun bits item => do
    let numbers ← parseItem item minimum maximum
    return numbers.foldl (fun bits number => bits ||| (1#64 <<< number)) bits) 0#64
  failIf (bits = 0#64) .invalidSchedule
  return bits

namespace CompiledCrontab

def matchesTime (self : CompiledCrontab) (value : CivilTime) : Bool :=
  let dayMatches := contains self.day value.day && contains self.weekday value.weekday
  let cronDayMatches :=
    if self.dayWildcard || self.weekdayWildcard then dayMatches
    else contains self.day value.day || contains self.weekday value.weekday
  contains self.minute value.minute && contains self.hour value.hour &&
    contains self.month value.month && cronDayMatches

/-- The scan of `next_after`, minute by minute from `seconds`. -/
def scanFrom (self : CompiledCrontab) : Nat → Int → Except MonitorValueError Timestamp
  | 0, _ => .error .invalidSchedule
  | remaining + 1, seconds =>
      match fromUnixTimestamp seconds with
      | none => .error .invalidTime
      | some value =>
          if self.matchesTime value then
            (Timestamp.fromUnixMillis (seconds * 1000)).mapError fun _ => .invalidTime
          else self.scanFrom remaining (seconds + 60)

/-- Number of candidate minutes: two years, both ends included. -/
def scanLimit : Nat := 2 * 366 * 24 * 60 + 1

def firstCandidate (after : Timestamp) : Int := (after.unixMillis / 1000 / 60 + 1) * 60

def nextAfter (self : CompiledCrontab) (after : Timestamp) : Except MonitorValueError Timestamp :=
  self.scanFrom scanLimit (firstCandidate after)

end CompiledCrontab

inductive MonitorSchedule where
  | interval (minutes : Nat)
  | crontab (expression : Text) (compiled : CompiledCrontab)
deriving DecidableEq

namespace MonitorSchedule

def ofInterval (minutes : Nat) : Except MonitorValueError MonitorSchedule :=
  if 1 ≤ minutes ∧ minutes ≤ maxMonitorIntervalMinutes then .ok (.interval minutes)
  else .error .invalidSchedule

def ofCrontab (expression : Text) : Except MonitorValueError MonitorSchedule := do
  failIf (expression.isEmpty ∨ maxMonitorScheduleBytes < byteLength expression) .invalidSchedule
  match splitAsciiWhitespace expression with
  | [minute, hour, day, month, weekday] =>
      let compiled : CompiledCrontab := {
        minute := ← parseField minute 0 59
        hour := ← parseField hour 0 23
        day := ← parseField day 1 31
        month := ← parseField month 1 12
        weekday := ← parseField weekday 0 6
        dayWildcard := day = ['*']
        weekdayWildcard := weekday = ['*'] }
      return .crontab ([minute, hour, day, month, weekday].intersperse [' ']).flatten compiled
  | _ => throw .invalidSchedule

/-- `MonitorSchedule::kind`. -/
def kind : MonitorSchedule → Text
  | interval _ => "interval".toList
  | crontab _ _ => "crontab".toList

/-- `MonitorSchedule::value`. -/
def value : MonitorSchedule → Text
  | interval minutes => Nat.toDigits 10 minutes
  | crontab expression _ => expression

def nextAfter (self : MonitorSchedule) (after : Timestamp) : Except MonitorValueError Timestamp :=
  match self with
  | interval minutes => addMillis after (minutes * 60000)
  | crontab _ compiled => compiled.nextAfter after

end MonitorSchedule

/-! ### Schedules move forward -/

theorem addMillis_eq_ok {value result : Timestamp} {delta : Int} :
    addMillis value delta = .ok result ↔ result.unixMillis = value.unixMillis + delta := by
  unfold addMillis
  rw [← Timestamp.fromUnixMillis_eq_ok]
  cases Timestamp.fromUnixMillis (value.unixMillis + delta) <;> simp [Except.mapError]

namespace CompiledCrontab

/-- The candidate is a calendar minute that the expression selects. -/
def Selects (self : CompiledCrontab) (seconds : Int) : Prop :=
  ∃ value, fromUnixTimestamp seconds = some value ∧ self.matchesTime value = true

/-- A successful scan stops at the first selected candidate. -/
theorem scanFrom_eq_ok {self : CompiledCrontab} {remaining : Nat} {seconds : Int}
    {result : Timestamp} (h : self.scanFrom remaining seconds = .ok result) :
    ∃ skipped : Nat, result.unixMillis = (seconds + 60 * skipped) * 1000 ∧
      self.Selects (seconds + 60 * skipped) ∧
      ∀ earlier < skipped, ¬ self.Selects (seconds + 60 * earlier) := by
  induction remaining generalizing seconds with
  | zero => cases h
  | succ remaining ih =>
      rw [scanFrom] at h
      split at h
      · cases h
      · next value hvalue =>
        split_ifs at h with hmatch
        · refine ⟨0, ?_, ⟨value, by simpa using hvalue, hmatch⟩, by omega⟩
          cases hmillis : Timestamp.fromUnixMillis (seconds * 1000) with
          | error e => simp [hmillis, Except.mapError] at h
          | ok found =>
              simp only [hmillis, Except.mapError, Except.ok.injEq] at h
              subst h
              simpa using Timestamp.fromUnixMillis_eq_ok.mp hmillis
        · obtain ⟨skipped, heq, hselects, hearlier⟩ := ih h
          have hshift : ∀ count : Nat, seconds + 60 + 60 * (count : Int)
              = seconds + 60 * ((count + 1 : Nat) : Int) := by
            intro count
            push_cast
            ring
          rw [hshift] at heq hselects
          refine ⟨skipped + 1, heq, hselects, ?_⟩
          intro earlier hlt
          cases earlier with
          | zero =>
              rintro ⟨other, hother, hselected⟩
              rw [Nat.cast_zero, mul_zero, add_zero, hvalue] at hother
              cases hother
              exact hmatch hselected
          | succ earlier =>
              rw [← hshift]
              exact hearlier earlier (by omega)

/-- A scan fails where the expression selects none of its candidates. -/
theorem scanFrom_eq_error {self : CompiledCrontab} {remaining : Nat} {seconds : Int}
    (h : ∀ skipped : Nat, skipped < remaining → ∃ value, fromUnixTimestamp (seconds + 60 * skipped) = some value
      ∧ self.matchesTime value = false) : self.scanFrom remaining seconds = .error .invalidSchedule := by
  induction remaining generalizing seconds with
  | zero => rfl
  | succ remaining ih =>
      obtain ⟨value, hvalue, hmatches⟩ := h 0 (Nat.zero_lt_succ _)
      rw [Nat.cast_zero, mul_zero, add_zero] at hvalue
      rw [scanFrom, hvalue]
      refine (if_neg (by rw [hmatches]; simp)).trans (ih fun skipped hskipped => ?_)
      obtain ⟨value, hvalue, hmatches⟩ := h (skipped + 1) (by omega)
      refine ⟨value, ?_, hmatches⟩
      rw [← hvalue]
      congr 1
      push_cast
      ring

theorem nextAfter_gt {self : CompiledCrontab} {after result : Timestamp}
    (h : self.nextAfter after = .ok result) : after < result := by
  obtain ⟨skipped, heq, -, -⟩ := scanFrom_eq_ok h
  rw [Timestamp.lt_iff, heq, firstCandidate]
  omega

theorem nextAfter_mono {self : CompiledCrontab} {earlier later first second : Timestamp}
    (hle : earlier ≤ later) (hfirst : self.nextAfter earlier = .ok first)
    (hsecond : self.nextAfter later = .ok second) : first ≤ second := by
  obtain ⟨skipped, heq, -, hnone⟩ := scanFrom_eq_ok hfirst
  obtain ⟨skipped', heq', hselects, -⟩ := scanFrom_eq_ok hsecond
  rw [Timestamp.le_iff] at hle ⊢
  by_contra hlt
  have hcandidate : ∃ count : Nat, firstCandidate later + 60 * skipped'
      = firstCandidate earlier + 60 * count ∧ count < skipped := by
    refine ⟨(later.unixMillis / 1000 / 60 - earlier.unixMillis / 1000 / 60).toNat + skipped', ?_, ?_⟩
    · simp only [firstCandidate]
      omega
    · simp only [firstCandidate] at heq heq'
      omega
  obtain ⟨count, hcount, hbefore⟩ := hcandidate
  exact hnone count hbefore (hcount ▸ hselects)

end CompiledCrontab

namespace MonitorSchedule

/-- The schedules that `encode_config` lets into a store: intervals of at least a minute. -/
def Positive : MonitorSchedule → Prop
  | interval minutes => 1 ≤ minutes
  | crontab _ _ => True

theorem nextAfter_gt {self : MonitorSchedule} (hpositive : self.Positive)
    {after result : Timestamp} (h : self.nextAfter after = .ok result) : after < result := by
  cases self with
  | interval minutes =>
      rw [nextAfter, addMillis_eq_ok] at h
      rw [Timestamp.lt_iff, h]
      change 1 ≤ minutes at hpositive
      omega
  | crontab expression compiled => exact CompiledCrontab.nextAfter_gt h

theorem nextAfter_mono {self : MonitorSchedule} {earlier later first second : Timestamp}
    (hle : earlier ≤ later) (hfirst : self.nextAfter earlier = .ok first)
    (hsecond : self.nextAfter later = .ok second) : first ≤ second := by
  cases self with
  | interval minutes =>
      rw [nextAfter, addMillis_eq_ok] at hfirst hsecond
      rw [Timestamp.le_iff] at hle ⊢
      omega
  | crontab expression compiled => exact CompiledCrontab.nextAfter_mono hle hfirst hsecond

end MonitorSchedule
end MetricBackend
