import MetricBackend.ApiCursors
import MetricBackend.QueryLanguage

/-! The time ranges of queries, `application/src/native_api.rs` and `application/src/search.rs`: which bounds are
derived where the client leaves them out. -/

namespace MetricBackend

namespace TimeRanges

def dayMillis : ℤ := 86400000
def maxRangeMillis : ℤ := 30 * dayMillis
def allTimeUntilMillis : ℤ := (2 ^ 63 - 1) / 1000000

/-- `i64::saturating_add`, and `saturating_sub` of the opposite. -/
def saturatingMillis (value : ℤ) : ℤ := max (-2 ^ 63) (min (2 ^ 63 - 1) value)

/-- `Timestamp::from_unix_millis` with `unwrap_or`. -/
def timestampOr (millis : ℤ) (default : Timestamp) : Timestamp :=
  (Timestamp.fromUnixMillis (saturatingMillis millis)).toOption.getD default

/-- `Timestamp::from_unix_millis` with `expect`: nothing where it panics. -/
def expectTimestamp (millis : ℤ) : Option Timestamp := (Timestamp.fromUnixMillis (saturatingMillis millis)).toOption

/-- What `validate_time_range` and its copies refuse. -/
def refusedRange (start finish : Timestamp) : Bool :=
  finish ≤ start || maxRangeMillis < saturatingMillis (finish.unixMillis - start.unixMillis)

/-- The bounds of a range. -/
abbrev Bounds : Type := Timestamp × Timestamp

/-! What a function returns is `none` where it panics. -/

def timeRange (now : Timestamp) (start finish : Option Timestamp) : Option (Except NativeApiError Bounds) :=
  let finish := finish.getD (timestampOr (now.unixMillis + 1) now)
  let start := start.getD (timestampOr (now.unixMillis - dayMillis) now)
  some (if refusedRange start finish then .error .invalidRequest else .ok (start, finish))

def eventTimeRange (now : Timestamp) (issueScoped : Bool) (start finish : Option Timestamp) :
    Option (Except NativeApiError Bounds) :=
  if issueScoped && start.isNone && finish.isNone then
    (expectTimestamp 0).map fun start => .ok (start, timestampOr (now.unixMillis + 1) now)
  else timeRange now start finish

def signalTimeRange (now : Timestamp) (start finish : Option Timestamp) (defaultRangeMillis : ℤ) :
    Option (Except NativeApiError Bounds) :=
  if start.isNone && finish.isNone then
    (expectTimestamp 0).map fun start => .ok (start, timestampOr (now.unixMillis + 1) now)
  else
    let finish := finish.getD now
    (start.elim (expectTimestamp (finish.unixMillis - defaultRangeMillis)) some).map fun start =>
      if refusedRange start finish then .error .invalidRequest else .ok (start, finish)

/-- The range that `unified_time_range` asks for. -/
def defaultRange (source : QueryLanguage.QuerySource) : ℤ := if source = .metrics then 7 * dayMillis else dayMillis

def unifiedTimeRange (now : Timestamp) (start finish : Option Timestamp) (source : QueryLanguage.QuerySource) :
    Option (Except NativeApiError Bounds) :=
  if start.isNone && finish.isNone then do
    let start ← expectTimestamp 0
    let finish ← expectTimestamp allTimeUntilMillis
    return .ok (start, finish)
  else signalTimeRange now start finish (defaultRange source)

def errorTimeRange (now : Timestamp) (start finish : Option Timestamp) : Option (Except SearchError Bounds) :=
  let finish := finish.getD (timestampOr (now.unixMillis + 1) now)
  let start := start.getD (timestampOr (finish.unixMillis - dayMillis) finish)
  some (if refusedRange start finish then .error .limitExceeded else .ok (start, finish))

/-! ### What they return -/

variable {ε : Type} {start finish : Timestamp} {millis : ℤ}

/-- The function returns an error or bounds in their order, and a bounded range where the client gave a bound. -/
def Resolves (given : Bool) (resolved : Option (Except ε Bounds)) : Prop :=
  ∃ outcome, resolved = some outcome ∧ ∀ start finish, outcome = .ok (start, finish) →
    start < finish ∧ (given = true → finish.unixMillis - start.unixMillis ≤ maxRangeMillis)

theorem resolves_some {given : Bool} {outcome : Except ε Bounds} : Resolves given (some outcome)
    ↔ ∀ start finish, outcome = .ok (start, finish) →
      start < finish ∧ (given = true → finish.unixMillis - start.unixMillis ≤ maxRangeMillis) := by
  simp [Resolves]

theorem not_resolves_none {given : Bool} : ¬ Resolves given (none : Option (Except ε Bounds)) := by
  rintro ⟨outcome, houtcome, -⟩
  cases houtcome

/-- A value in the range of timestamps does not saturate, and no other saturates into it. -/
theorem fromUnixMillis_saturating (millis : ℤ) :
    Timestamp.fromUnixMillis (saturatingMillis millis) = Timestamp.fromUnixMillis millis := by
  have hrange : minTimestampMillis ≤ saturatingMillis millis ∧ saturatingMillis millis ≤ maxTimestampMillis
      ↔ minTimestampMillis ≤ millis ∧ millis ≤ maxTimestampMillis := by
    unfold saturatingMillis minTimestampMillis maxTimestampMillis
    omega
  rw [Timestamp.fromUnixMillis, Timestamp.fromUnixMillis]
  by_cases h : minTimestampMillis ≤ millis ∧ millis ≤ maxTimestampMillis
  · rw [dif_pos h, dif_pos (hrange.mpr h)]
    congr
    obtain ⟨hlower, hupper⟩ := h
    unfold saturatingMillis minTimestampMillis maxTimestampMillis at *
    omega
  · rw [dif_neg h, dif_neg (mt hrange.mp h)]

theorem expectTimestamp_of_range (h : minTimestampMillis ≤ millis ∧ millis ≤ maxTimestampMillis) :
    expectTimestamp millis = some ⟨millis, h⟩ := by
  rw [expectTimestamp, fromUnixMillis_saturating, Timestamp.fromUnixMillis, dif_pos h]
  rfl

theorem expectTimestamp_of_not_range (h : ¬ (minTimestampMillis ≤ millis ∧ millis ≤ maxTimestampMillis)) :
    expectTimestamp millis = none := by
  rw [expectTimestamp, fromUnixMillis_saturating, Timestamp.fromUnixMillis, dif_neg h]
  rfl

theorem timestampOr_succ (now : Timestamp) :
    (timestampOr (now.unixMillis + 1) now).unixMillis = min (now.unixMillis + 1) maxTimestampMillis := by
  obtain ⟨hlower, hupper⟩ := now.inRange
  rw [timestampOr, fromUnixMillis_saturating, Timestamp.fromUnixMillis]
  by_cases h : now.unixMillis + 1 ≤ maxTimestampMillis
  · rw [dif_pos ⟨by omega, h⟩, min_eq_left h]
    rfl
  · rw [dif_neg fun hrange => h hrange.2, min_eq_right (by omega)]
    show now.unixMillis = maxTimestampMillis
    omega

/-- Bounds that are not refused are what a client may ask for. -/
theorem bounds_of_not_refused (h : refusedRange start finish = false) :
    start < finish ∧ finish.unixMillis - start.unixMillis ≤ maxRangeMillis := by
  rw [refusedRange, Bool.or_eq_false_iff, decide_eq_false_iff_not, decide_eq_false_iff_not, not_le, not_lt] at h
  refine ⟨h.1, ?_⟩
  have hle := h.2
  obtain ⟨hlower, hupper⟩ := start.inRange
  obtain ⟨hlower', hupper'⟩ := finish.inRange
  unfold saturatingMillis maxRangeMillis dayMillis minTimestampMillis maxTimestampMillis at *
  omega

theorem resolves_validated (given : Bool) (error : ε) (start finish : Timestamp) :
    Resolves given (some (if refusedRange start finish then .error error else .ok (start, finish))) := by
  rw [resolves_some]
  intro first last h
  split_ifs at h with hrefused
  obtain ⟨rfl, rfl⟩ := Prod.mk.inj (Except.ok.inj h)
  obtain ⟨hlt, hle⟩ := bounds_of_not_refused (Bool.eq_false_iff.mpr hrefused)
  exact ⟨hlt, fun _ => hle⟩

/-- From the epoch up to the clock there is a range when the clock is not before the epoch. -/
theorem resolves_epoch (now : Timestamp) :
    Resolves false ((expectTimestamp 0).map fun start =>
      (.ok (start, timestampOr (now.unixMillis + 1) now) : Except ε Bounds)) ↔ 0 ≤ now.unixMillis := by
  rw [expectTimestamp_of_range (by decide), Option.map_some, resolves_some]
  have hfinish := timestampOr_succ now
  constructor
  · intro h
    have hlt : (0 : ℤ) < (timestampOr (now.unixMillis + 1) now).unixMillis := (h _ _ rfl).1
    rw [hfinish] at hlt
    omega
  · intro h first last hbounds
    obtain ⟨rfl, rfl⟩ := Prod.mk.inj (Except.ok.inj hbounds)
    refine ⟨?_, nofun⟩
    show (0 : ℤ) < (timestampOr (now.unixMillis + 1) now).unixMillis
    rw [hfinish]
    unfold maxTimestampMillis
    omega

/-- What the bound that `signal_time_range` derives needs: the clock where the client gives no bound, and where it gives
the end only, that the range before it is one of timestamps. -/
def Derivable (now : Timestamp) (start finish : Option Timestamp) (defaultRangeMillis : ℤ) : Prop :=
  start = none → match finish with
    | none => 0 ≤ now.unixMillis
    | some finish => minTimestampMillis ≤ finish.unixMillis - defaultRangeMillis
        ∧ finish.unixMillis - defaultRangeMillis ≤ maxTimestampMillis

theorem signalTimeRange_iff (now : Timestamp) (start finish : Option Timestamp) (defaultRangeMillis : ℤ) :
    Resolves (start.isSome || finish.isSome) (signalTimeRange now start finish defaultRangeMillis)
      ↔ Derivable now start finish defaultRangeMillis := by
  unfold signalTimeRange Derivable
  cases start with
  | some start => exact iff_of_true (resolves_validated _ _ start (finish.getD now)) nofun
  | none =>
      cases finish with
      | none => exact (resolves_epoch now).trans ⟨fun h _ => h, fun h => h rfl⟩
      | some finish =>
          by_cases hrange : minTimestampMillis ≤ finish.unixMillis - defaultRangeMillis
              ∧ finish.unixMillis - defaultRangeMillis ≤ maxTimestampMillis
          · refine iff_of_true ?_ fun _ => hrange
            simp only [Option.isNone_none, Option.isNone_some, Bool.and_false, Bool.false_eq_true, if_false,
              Option.getD_some, Option.elim_none, expectTimestamp_of_range hrange, Option.map_some]
            exact resolves_validated _ _ _ finish
          · refine iff_of_false ?_ fun h => hrange (h rfl)
            simp only [Option.isNone_none, Option.isNone_some, Bool.and_false, Bool.false_eq_true, if_false,
              Option.getD_some, Option.elim_none, expectTimestamp_of_not_range hrange, Option.map_none]
            exact not_resolves_none

/-- Each function resolves its bounds without a panic exactly when the bounds that it derives are there. -/
theorem timeRanges_iff (now : Timestamp) (start finish : Option Timestamp) :
    Resolves (start.isSome || finish.isSome) (timeRange now start finish)
    ∧ Resolves (start.isSome || finish.isSome) (errorTimeRange now start finish)
    ∧ (∀ issueScoped, Resolves (start.isSome || finish.isSome) (eventTimeRange now issueScoped start finish)
        ↔ (issueScoped = true → start = none → finish = none → 0 ≤ now.unixMillis))
    ∧ (∀ defaultRangeMillis,
        Resolves (start.isSome || finish.isSome) (signalTimeRange now start finish defaultRangeMillis)
        ↔ Derivable now start finish defaultRangeMillis)
    ∧ ∀ source, Resolves (start.isSome || finish.isSome) (unifiedTimeRange now start finish source)
        ↔ (finish.isSome = true → Derivable now start finish (defaultRange source)) := by
  refine ⟨resolves_validated _ _ _ _, resolves_validated _ _ _ _, fun issueScoped => ?_,
    signalTimeRange_iff now start finish, fun source => ?_⟩
  · unfold eventTimeRange
    cases issueScoped with
    | false => exact iff_of_true (resolves_validated _ _ _ _) fun h => by cases h
    | true =>
        cases start with
        | some start => exact iff_of_true (resolves_validated _ _ _ _) fun _ h => by cases h
        | none =>
            cases finish with
            | some finish => exact iff_of_true (resolves_validated _ _ _ _) fun _ _ h => by cases h
            | none => exact (resolves_epoch now).trans ⟨fun h _ _ _ => h, fun h => h rfl rfl rfl⟩
  · unfold unifiedTimeRange
    cases start with
    | some start =>
        exact (signalTimeRange_iff now (some start) finish (defaultRange source)).trans
          (iff_of_true (fun h => by cases h) fun _ h => by cases h)
    | none =>
        cases finish with
        | none =>
            refine iff_of_true ?_ fun h => by cases h
            simp only [Option.isNone_none, Bool.and_self, if_true, Option.isSome_none, Bool.or_self,
              expectTimestamp_of_range (show minTimestampMillis ≤ 0 ∧ 0 ≤ maxTimestampMillis by decide),
              expectTimestamp_of_range
                (show minTimestampMillis ≤ allTimeUntilMillis ∧ allTimeUntilMillis ≤ maxTimestampMillis by decide)]
            refine resolves_some.mpr fun first last h => ?_
            obtain ⟨rfl, rfl⟩ := Prod.mk.inj (Except.ok.inj h)
            refine ⟨?_, fun h => by cases h⟩
            show (0 : ℤ) < allTimeUntilMillis
            decide
        | some finish =>
            exact (signalTimeRange_iff now none (some finish) _).trans ⟨fun h _ => h, fun h => h rfl⟩

/-- The end of a range given alone, at the least timestamp: the derived start panics. -/
theorem signalTimeRange_least :
    signalTimeRange ⟨0, by decide⟩ none (some ⟨minTimestampMillis, by decide⟩) dayMillis = none
      ∧ unifiedTimeRange ⟨0, by decide⟩ none (some ⟨minTimestampMillis, by decide⟩) .logs = none := by
  constructor <;> rfl

end TimeRanges

end MetricBackend
