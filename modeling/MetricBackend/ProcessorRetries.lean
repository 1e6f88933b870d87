import MetricBackend.LibRuns
import MetricBackend.EventProcessor

/-! What becomes of an accepted Event whose processing fails: every failure that the row of the Event takes
is either retried in time or the end of the Event. -/

namespace MetricBackend

namespace EventProcessor

/-- A failure that the row has taken, as the stages raised it and as it was written. -/
structure Recorded where
  failure : StageFailure
  now : Timestamp
  written : ProcessingFailure

structure EventHistory where
  row : EventRow
  log : List Recorded

/-- A call of `process`, with the pending Event as it was loaded, or the Event finalized by another one. -/
inductive ProcessorStep where
  | process (pending : PendingEvent) (course : Course) (ending : StateEnding)
  | finalize

section Steps

variable (config : ProcessorConfig)

def executeStep (history : EventHistory) : ProcessorStep → EventHistory
  | .process pending course ending =>
      let processed := process config pending course ending history.row
      match attempt config pending course, processed.taken with
      | .error failure, some written => ⟨processed.row, history.log ++ [⟨failure, course.now, written⟩]⟩
      | _, _ => ⟨processed.row, history.log⟩
  | .finalize => { history with row := { history.row with processingState := .finalized, nextAttemptAt := none } }

/-- The attempts that failed on their own account. -/
def genuine (log : List Recorded) : Nat := log.countP (·.failure.code ≠ .cancelled)

/-- What an accepted Event is promised for one failure, after `before` genuine attempts and the earlier
failures. -/
structure Keeps (before : Nat) (earlier : List Recorded) (entry : Recorded) : Prop where
  cancelled : entry.failure.code = .cancelled → ∃ time, entry.written.disposition = .retryAt time
  permanent : entry.written.disposition = .permanentlyFailed →
    entry.failure.failureClass = .permanent
      ∨ config.maxAttempts.toNat ≤ before + genuine (earlier ++ [entry])
  inTime : ∀ time, entry.written.disposition = .retryAt time →
    entry.now ≤ time ∧ time.unixMillis ≤ entry.now.unixMillis + config.retryMax.asMillis

def KeepsAll (before : Nat) (log : List Recorded) : Prop :=
  ∀ earlier entry, earlier ++ [entry] <+: log → Keeps config before earlier entry

/-- A temporary failure that the row takes comes before the last attempt, with a retry time that can be
written, or it is genuine and so are all the earlier ones. -/
def Spared (history : EventHistory) : ProcessorStep → Prop
  | .process pending course ending => ∀ failure, attempt config pending course = .error failure →
      failure.failureClass = .temporary → history.row.processingState = .pending →
      history.row.key = pending.key → history.row.attempts = pending.attempts.toNat → ending ≠ .lost false →
        pending.attempts.toNat + 1 < config.maxAttempts.toNat
            ∧ course.now.unixMillis + (retryDelay config (pending.attempts.toNat + 1)).asMillis ≤ maxTimestampMillis
          ∨ failure.code ≠ .cancelled ∧ genuine history.log = history.log.length
            ∧ config.maxAttempts.toNat ≤ pending.attempts.toNat + 1
  | .finalize => True

end Steps

/-! ### Retry times -/

section Times

variable {config : ProcessorConfig} {now : Timestamp} {attempts : Nat}

theorem retryAt_eq_some {time : Timestamp} : retryAt now attempts config = some time ↔
    time.unixMillis = now.unixMillis + (retryDelay config attempts).asMillis := by
  have hnow := now.inRange
  have hmin : minTimestampMillis = -62135596800000 := rfl
  have hmax : maxTimestampMillis = 253402300799999 := rfl
  have hi64 : (i64Max : Int) = 9223372036854775807 := rfl
  simp only [retryAt, Timestamp.fromUnixMillis]
  constructor
  · intro h
    split_ifs at h with hoverflow hrange <;> cases h
    rfl
  · intro htime
    have hrange := time.inRange
    rw [htime] at hrange
    rw [if_neg (by omega), dif_pos hrange]
    exact congrArg some (Timestamp.unixMillis_injective htime.symm)

theorem retryAt_isSome : (∃ time, retryAt now attempts config = some time) ↔
    now.unixMillis + (retryDelay config attempts).asMillis ≤ maxTimestampMillis := by
  simp only [retryAt_eq_some]
  have hnow := now.inRange
  constructor
  · rintro ⟨time, htime⟩
    rw [← htime]
    exact time.inRange.2
  · intro hle
    exact ⟨⟨_, by omega, hle⟩, rfl⟩

theorem retryAt_inTime {time : Timestamp} (h : retryAt now attempts config = some time) :
    now ≤ time ∧ time.unixMillis ≤ now.unixMillis + config.retryMax.asMillis := by
  have hdelay : (retryDelay config attempts).asMillis ≤ config.retryMax.asMillis :=
    Duration.asMillis_mono (min_le_right _ _)
  rw [retryAt_eq_some] at h
  rw [Timestamp.le_iff]
  omega

end Times

/-! ### One failure -/

section Failures

variable {config : ProcessorConfig} {pending : PendingEvent} {now : Timestamp} {failure : StageFailure}

theorem toNat_succ (hattempts : pending.attempts.toNat + 1 < 2 ^ 32) :
    (pending.attempts + 1).toNat = pending.attempts.toNat + 1 := by
  rw [BitVec.toNat_add, Nat.mod_eq_of_lt]
  · rfl
  · exact hattempts

theorem persistFailure_target : (persistFailure config pending now failure).key = pending.key
    ∧ (persistFailure config pending now failure).expectedAttempts = pending.attempts := by
  rw [persistFailure]
  dsimp only
  split_ifs
  · exact ⟨rfl, rfl⟩
  · exact ⟨rfl, rfl⟩
  · split <;> exact ⟨rfl, rfl⟩
  · exact ⟨rfl, rfl⟩

theorem persistFailure_newAttempts (hattempts : pending.attempts.toNat + 1 < 2 ^ 32) :
    (persistFailure config pending now failure).newAttempts.toNat = pending.attempts.toNat + 1 := by
  rw [← toNat_succ hattempts, persistFailure, if_neg (not_le.mpr hattempts)]
  dsimp only
  split_ifs
  · rfl
  · split <;> rfl
  · rfl

theorem persistFailure_permanent (hattempts : pending.attempts.toNat + 1 < 2 ^ 32)
    (hclass : failure.failureClass = .permanent) :
    (persistFailure config pending now failure).disposition = .permanentlyFailed := by
  rw [persistFailure, if_neg (not_le.mpr hattempts)]
  simp [hclass, writeFailure]

theorem persistFailure_exhausted (hattempts : pending.attempts.toNat + 1 < 2 ^ 32)
    (hlast : config.maxAttempts.toNat ≤ pending.attempts.toNat + 1) :
    (persistFailure config pending now failure).disposition = .permanentlyFailed := by
  have hle : config.maxAttempts ≤ pending.attempts + 1 := by
    rw [BitVec.le_def, toNat_succ hattempts]
    exact hlast
  rw [persistFailure, if_neg (not_le.mpr hattempts)]
  dsimp only
  split_ifs with hexhausted htemporary
  · rfl
  · exact absurd ⟨hle, htemporary⟩ hexhausted
  · rfl

theorem persistFailure_retried (hattempts : pending.attempts.toNat + 1 < 2 ^ 32)
    (hclass : failure.failureClass = .temporary)
    (hearly : pending.attempts.toNat + 1 < config.maxAttempts.toNat) :
    (persistFailure config pending now failure).disposition =
      ((retryAt now (pending.attempts.toNat + 1) config).map .retryAt).getD .permanentlyFailed := by
  have hlt : ¬ config.maxAttempts ≤ pending.attempts + 1 := by
    rw [BitVec.le_def, toNat_succ hattempts]
    exact not_le.mpr hearly
  rw [persistFailure, if_neg (not_le.mpr hattempts)]
  dsimp only
  rw [if_neg (fun h => hlt h.1), if_pos hclass, toNat_succ hattempts]
  cases retryAt now (pending.attempts.toNat + 1) config <;> rfl

/-- The row takes a failure of the attempt that it waits for. -/
theorem recordFailure_awaited {row : EventRow} {written : ProcessingFailure} {ending : StateEnding}
    (hnew : written.newAttempts.toNat ≤ PostgresEvents.i32Max)
    (hnext : written.expectedAttempts.toNat + 1 = written.newAttempts.toNat)
    (hrow : row.key = written.key ∧ row.processingState = .pending
      ∧ row.attempts = written.expectedAttempts.toNat) (hending : ending ≠ .lost false) :
    (recordFailure row written ending).row = PostgresEvents.failed row written
      ∧ (recordFailure row written ending).taken = some written := by
  rw [recordFailure, PostgresEvents.recordProcessingFailure_eq_ok.mpr ⟨hnew, hnext, rfl⟩, if_pos hrow]
  cases ending with
  | answered => exact ⟨rfl, rfl⟩
  | lost applied =>
      cases applied with
      | false => exact absurd rfl hending
      | true => exact ⟨rfl, rfl⟩

/-- It takes no other one, and none that is lost. -/
theorem recordFailure_refused {row : EventRow} {written : ProcessingFailure} {ending : StateEnding}
    (h : ¬ ((row.key = written.key ∧ row.processingState = .pending
      ∧ row.attempts = written.expectedAttempts.toNat) ∧ ending ≠ .lost false)) :
    (recordFailure row written ending).row = row ∧ (recordFailure row written ending).taken = none := by
  rw [recordFailure]
  cases hrecord : PostgresEvents.recordProcessingFailure row written with
  | error error => exact ⟨rfl, rfl⟩
  | ok result =>
      obtain ⟨-, -, rfl⟩ := PostgresEvents.recordProcessingFailure_eq_ok.mp hrecord
      cases ending with
      | lost applied =>
          cases applied with
          | false => exact ⟨rfl, rfl⟩
          | true => rw [if_neg fun hrow => h ⟨hrow, by simp⟩]; exact ⟨rfl, rfl⟩
      | answered => rw [if_neg fun hrow => h ⟨hrow, by simp⟩]; exact ⟨rfl, rfl⟩

end Failures

/-! ### Every run -/

section Runs

variable {config : ProcessorConfig} {before : Nat} {history : EventHistory} {pending : PendingEvent}
  {course : Course} {ending : StateEnding} {failure : StageFailure}

theorem keepsAll_append {log : List Recorded} {entry : Recorded} :
    KeepsAll config before (log ++ [entry]) ↔ KeepsAll config before log ∧ Keeps config before log entry := by
  constructor
  · intro h
    exact ⟨fun earlier old hbefore => h earlier old (hbefore.trans (List.prefix_append _ _)),
      h log entry List.prefix_rfl⟩
  · rintro ⟨hlog, hentry⟩ earlier old hbefore
    rcases List.prefix_concat_iff.mp hbefore with heq | hbefore
    · obtain ⟨rfl, hlast⟩ := List.append_inj' heq rfl
      cases hlast
      exact hentry
    · exact hlog earlier old hbefore

structure Consistent (config : ProcessorConfig) (before : Nat) (history : EventHistory) : Prop where
  keeps : KeepsAll config before history.log
  attempts : history.row.attempts = before + history.log.length
  early : history.row.processingState = .pending → history.row.attempts < config.maxAttempts.toNat

/-- The attempt of the call is the one that the row waits for. -/
def Awaited (history : EventHistory) (pending : PendingEvent) (ending : StateEnding) : Prop :=
  history.row.processingState = .pending ∧ history.row.key = pending.key
    ∧ history.row.attempts = pending.attempts.toNat ∧ ending ≠ .lost false

/-- A call whose failure the row does not wait for changes nothing. -/
theorem executeStep_refused (hnot : attempt config pending course = .ok () ∨ ¬ Awaited history pending ending) :
    executeStep config history (.process pending course ending) = history := by
  rw [executeStep, process]
  cases hattempt : attempt config pending course with
  | ok result => rfl
  | error failure =>
      have hunawaited := hnot.resolve_left (by rw [hattempt]; simp)
      have hrefused : ¬ ((history.row.key = (persistFailure config pending course.now failure).key
          ∧ history.row.processingState = .pending ∧ history.row.attempts =
            (persistFailure config pending course.now failure).expectedAttempts.toNat) ∧ ending ≠ .lost false) := by
        rw [persistFailure_target.1, persistFailure_target.2]
        exact fun h => hunawaited ⟨h.1.2.1, h.1.1, h.1.2.2, h.2⟩
      obtain ⟨hrow, htaken⟩ := recordFailure_refused hrefused
      simp only [hrow, htaken]

theorem Consistent.attempts_lt (hvalid : valid config) (h : Consistent config before history)
    (hawaited : Awaited history pending ending) : pending.attempts.toNat < config.maxAttempts.toNat
      ∧ pending.attempts.toNat + 1 ≤ hardMaxAttempts := by
  obtain ⟨hstate, -, hattempts, -⟩ := hawaited
  simp only [valid, decide_eq_true_eq] at hvalid
  have hearly := h.early hstate
  omega

/-- A call whose failure the row waits for. -/
theorem executeStep_awaited (hvalid : valid config) (h : Consistent config before history)
    (hattempt : attempt config pending course = .error failure) (hawaited : Awaited history pending ending) :
    executeStep config history (.process pending course ending) =
      ⟨PostgresEvents.failed history.row (persistFailure config pending course.now failure),
        history.log ++ [⟨failure, course.now, persistFailure config pending course.now failure⟩]⟩ := by
  have hsmall := (h.attempts_lt hvalid hawaited).2
  simp only [hardMaxAttempts] at hsmall
  have hnew : (persistFailure config pending course.now failure).newAttempts.toNat = pending.attempts.toNat + 1 :=
    persistFailure_newAttempts (by omega)
  obtain ⟨hstate, hkey, hattempts, hending⟩ := hawaited
  have hbound : (persistFailure config pending course.now failure).newAttempts.toNat ≤ PostgresEvents.i32Max := by
    rw [hnew, PostgresEvents.i32Max]
    omega
  have hmatches : history.row.key = (persistFailure config pending course.now failure).key
      ∧ history.row.processingState = .pending ∧ history.row.attempts =
        (persistFailure config pending course.now failure).expectedAttempts.toNat := by
    rw [persistFailure_target.1, persistFailure_target.2]
    exact ⟨hkey, hstate, hattempts⟩
  obtain ⟨hrow, htaken⟩ := recordFailure_awaited hbound (by rw [hnew, persistFailure_target.2]) hmatches hending
  simp only [executeStep, process, hattempt, hrow, htaken]

/-- A permanent failure is never a cancellation. -/
theorem attempt_permanent (h : attempt config pending course = .error failure)
    (hclass : failure.failureClass = .permanent) : failure.code ≠ .cancelled := by
  have hstage : ∀ {α : Type} {ending : StageEnding α}, runStage ending ≠ .error failure := by
    rintro α (_ | _ | _ | value) heq <;> cases heq <;> cases hclass
  have hmapped : ∀ {ε α : Type} {ending : StageEnding (Except ε α)} {mapError : ε → StageFailure},
      (∀ error, (mapError error).code ≠ .cancelled) → runFallible ending mapError = .error failure →
        failure.code ≠ .cancelled := by
    intro ε α ending mapError hcodes heq
    rw [runFallible, bind_eq_error] at heq
    obtain heq | ⟨result, -, heq⟩ := heq
    · exact absurd heq hstage
    · cases result with
      | ok value => cases heq
      | error error =>
          cases heq
          exact hcodes error
  have hproject : ∀ error, (mapProjectError error).code ≠ .cancelled := by
    rintro (_ | _ | _) <;> simp [mapProjectError, StageFailure.permanent, StageFailure.temporary]
  have hnormalization : ∀ error, (mapNormalizationError error).code ≠ .cancelled := by
    rintro (_ | _ | _ | _) <;> simp [mapNormalizationError, StageFailure.permanent]
  have hgrouping : ∀ error, (mapGroupingError error).code ≠ .cancelled := by
    rintro (_ | _) <;> simp [mapGroupingError, StageFailure.permanent]
  have hissue : ∀ error, (mapIssueError error).code ≠ .cancelled := by
    rintro (_ | _ | _ | _ | _ | _) <;> simp [mapIssueError, StageFailure.permanent]
  have hfinalizer : ∀ error, (mapFinalizerError error).code ≠ .cancelled := by
    rintro (_ | _ | _ | _ | _ | _ | _) <;>
      simp [mapFinalizerError, StageFailure.permanent, StageFailure.temporary]
  simp only [attempt, execute, bind_eq_error, failIf_eq_error] at h
  obtain hpermit | ⟨-, -, h⟩ := h
  · cases hending : course.permit <;> rw [hending] at hpermit <;> cases hpermit <;> cases hclass
  obtain h | ⟨project, -, h⟩ := h
  · exact hmapped hproject h
  obtain ⟨-, rfl⟩ | ⟨-, -, h⟩ := h
  · exact nofun
  obtain ⟨-, rfl⟩ | ⟨-, -, h⟩ := h
  · exact nofun
  obtain ⟨-, rfl⟩ | ⟨-, -, h⟩ := h
  · exact nofun
  obtain h | ⟨-, -, h⟩ := h
  · exact hmapped hnormalization h
  obtain h | ⟨disposition, -, h⟩ := h
  · exact absurd h hstage
  obtain ⟨-, rfl⟩ | ⟨-, -, h⟩ := h
  · cases hclass
  obtain h | ⟨-, -, h⟩ := h
  · exact hmapped hgrouping h
  obtain h | ⟨-, -, h⟩ := h
  · exact hmapped hissue h
  · exact hmapped hfinalizer h

theorem genuine_append (log : List Recorded) (entry : Recorded) :
    genuine (log ++ [entry]) = genuine log + (if entry.failure.code ≠ .cancelled then 1 else 0) := by
  simp [genuine, List.countP_append, List.countP_singleton]

/-- The promise for a failure that is taken. -/
theorem keeps_iff (hvalid : valid config) (h : Consistent config before history)
    (hattempt : attempt config pending course = .error failure) (hawaited : Awaited history pending ending) :
    Keeps config before history.log ⟨failure, course.now, persistFailure config pending course.now failure⟩ ↔
      Spared config history (.process pending course ending) := by
  obtain ⟨hlt, hsmall⟩ := h.attempts_lt hvalid hawaited
  simp only [hardMaxAttempts] at hsmall
  have hattempts : pending.attempts.toNat + 1 < 2 ^ 32 := by omega
  have hcount := h.attempts
  have hgenuine : genuine history.log ≤ history.log.length := List.countP_le_length
  obtain ⟨hstate, hkey, hequal, hending⟩ := hawaited
  have hspared : Spared config history (.process pending course ending) ↔ (failure.failureClass = .temporary →
      pending.attempts.toNat + 1 < config.maxAttempts.toNat
          ∧ course.now.unixMillis + (retryDelay config (pending.attempts.toNat + 1)).asMillis ≤ maxTimestampMillis
        ∨ failure.code ≠ .cancelled ∧ genuine history.log = history.log.length
          ∧ config.maxAttempts.toNat ≤ pending.attempts.toNat + 1) := by
    refine ⟨fun hspared hclass => hspared failure hattempt hclass hstate hkey hequal hending, ?_⟩
    intro hspared other hother hclass _ _ _ _
    obtain rfl := Except.error.inj (hattempt.symm.trans hother)
    exact hspared hclass
  rw [hspared]
  cases hclass : failure.failureClass with
  | permanent =>
      have hdisposition : (persistFailure config pending course.now failure).disposition = .permanentlyFailed :=
        persistFailure_permanent hattempts hclass
      refine ⟨fun _ => nofun, fun _ => ⟨fun hcode => ?_, fun _ => .inl hclass, fun time htime => ?_⟩⟩
      · exact absurd hcode (attempt_permanent hattempt hclass)
      · rw [hdisposition] at htime
        cases htime
  | temporary =>
      by_cases hearly : pending.attempts.toNat + 1 < config.maxAttempts.toNat
      · -- before the last attempt everything hangs on the retry time
        have hdisposition : (persistFailure config pending course.now failure).disposition =
            ((retryAt course.now (pending.attempts.toNat + 1) config).map .retryAt).getD .permanentlyFailed :=
          persistFailure_retried hattempts hclass hearly
        cases htime : retryAt course.now (pending.attempts.toNat + 1) config with
        | some time =>
            rw [htime] at hdisposition
            refine ⟨fun _ _ => .inl ⟨hearly, retryAt_isSome.mp ⟨time, htime⟩⟩, fun _ => ⟨fun _ => ⟨time, hdisposition⟩,
              fun hpermanent => ?_, fun other hother => ?_⟩⟩
            · rw [hdisposition] at hpermanent
              cases hpermanent
            · rw [hdisposition] at hother
              cases hother
              exact retryAt_inTime htime
        | none =>
            rw [htime] at hdisposition
            refine ⟨fun hkeeps => ?_, fun hroom => ?_⟩
            · have hlate := (hkeeps.permanent hdisposition).resolve_left (by rw [hclass]; simp)
              rw [genuine_append] at hlate
              split_ifs at hlate <;> omega
            · obtain ⟨-, hroom⟩ | ⟨-, -, hlate⟩ := hroom rfl
              · obtain ⟨time, hsome⟩ := retryAt_isSome.mpr hroom
                rw [htime] at hsome
                cases hsome
              · omega
      · -- the last attempt ends the Event
        have hdisposition : (persistFailure config pending course.now failure).disposition = .permanentlyFailed :=
          persistFailure_exhausted hattempts (not_lt.mp hearly)
        refine ⟨fun hkeeps _ => ?_, fun hroom => ?_⟩
        · have hcode : failure.code ≠ .cancelled := by
            intro hcode
            obtain ⟨time, htime⟩ := hkeeps.cancelled hcode
            rw [hdisposition] at htime
            cases htime
          have hlate := (hkeeps.permanent hdisposition).resolve_left (by rw [hclass]; simp)
          rw [genuine_append, if_pos hcode] at hlate
          exact .inr ⟨hcode, by omega, not_lt.mp hearly⟩
        · obtain ⟨hlt, -⟩ | ⟨hcode, hall, -⟩ := hroom rfl
          · exact absurd hlt hearly
          refine ⟨fun hcancelled => absurd hcancelled hcode, fun _ => .inr ?_, fun time htime => ?_⟩
          · rw [genuine_append, if_pos hcode]
            omega
          · rw [hdisposition] at htime
            cases htime

theorem failed_row (row : EventRow) (written : ProcessingFailure) :
    (PostgresEvents.failed row written).attempts = written.newAttempts.toNat
      ∧ ((PostgresEvents.failed row written).processingState = .pending →
        row.processingState = .pending ∧ ∃ time, written.disposition = .retryAt time) := by
  rw [PostgresEvents.failed]
  split
  · rename_i time htime
    exact ⟨rfl, fun hstate => ⟨hstate, time, htime⟩⟩
  · exact ⟨rfl, nofun⟩

/-- What a step keeps, and what breaks when it is not spared. -/
theorem Consistent.step (hvalid : valid config) (h : Consistent config before history) {step : ProcessorStep} :
    (Spared config history step → Consistent config before (executeStep config history step))
    ∧ (¬ Spared config history step → ¬ KeepsAll config before (executeStep config history step).log) := by
  cases step with
  | finalize => exact ⟨fun _ => ⟨h.keeps, h.attempts, nofun⟩, fun hnot => absurd trivial hnot⟩
  | process pending course ending =>
      cases hattempt : attempt config pending course with
      | ok result =>
          rw [executeStep_refused (.inl hattempt)]
          refine ⟨fun _ => h, fun hnot => absurd ?_ hnot⟩
          intro failure hfailure
          rw [hattempt] at hfailure
          cases hfailure
      | error failure =>
          by_cases hawaited : Awaited history pending ending
          · obtain ⟨-, hsmall⟩ := h.attempts_lt hvalid hawaited
            simp only [hardMaxAttempts] at hsmall
            have hattempts : pending.attempts.toNat + 1 < 2 ^ 32 := by omega
            obtain ⟨hcount, hstill⟩ := failed_row history.row (persistFailure config pending course.now failure)
            rw [persistFailure_newAttempts hattempts] at hcount
            rw [executeStep_awaited hvalid h hattempt hawaited, keepsAll_append, keeps_iff hvalid h hattempt hawaited]
            refine ⟨fun hspared => ⟨?_, ?_, fun hstate => ?_⟩, fun hnot hkeeps => hnot hkeeps.2⟩
            · exact keepsAll_append.mpr ⟨h.keeps, (keeps_iff hvalid h hattempt hawaited).mpr hspared⟩
            · rw [hcount, ← hawaited.2.2.1, h.attempts, List.length_append, List.length_singleton, Nat.add_assoc]
            · obtain ⟨-, time, htime⟩ := hstill hstate
              rw [hcount]
              by_contra hlast
              rw [persistFailure_exhausted hattempts (not_lt.mp hlast)] at htime
              cases htime
          · rw [executeStep_refused (.inr hawaited)]
            refine ⟨fun _ => h, fun hnot => absurd ?_ hnot⟩
            intro failure hfailure _ hstate hkey hequal hending
            exact absurd ⟨hstate, hkey, hequal, hending⟩ hawaited

end Runs

/-- Every failure of a run keeps its promise exactly when every temporary failure that is taken is spared. -/
theorem failures_kept_iff (config : ProcessorConfig) (hvalid : valid config) (row : EventRow)
    (hattempts : row.attempts < config.maxAttempts.toNat) (steps : List ProcessorStep) :
    Always (executeStep config) (fun history => KeepsAll config row.attempts history.log) ⟨row, []⟩ steps ↔
      Throughout (executeStep config) (Spared config) ⟨row, []⟩ steps := by
  have hinit : Consistent config row.attempts ⟨row, []⟩ := by
    refine ⟨fun earlier entry hbefore => ?_, rfl, fun _ => hattempts⟩
    exact absurd (List.prefix_nil.mp hbefore) (by simp)
  exact always_iff_throughout (fun _ h => h.keeps) (fun _ _ h hspared => (h.step hvalid).1 hspared)
    (fun _ _ h hnot => (h.step hvalid).2 hnot) steps _ hinit

/-- The row of an Event after failed attempts. -/
def weariedRow (attempts : Nat) : EventRow where
  projectId := ⟨7, ProjectId.positive_seven⟩
  eventId := ⟨8⟩
  receivedAt := ⟨1000, inRange_second⟩
  body := [1, 0]
  processingState := .pending
  attempts := attempts
  nextAttemptAt := some ⟨1000, inRange_second⟩
  lastErrorCode := some .projectUnavailable
  columns := none

/-- The next attempt, cut off by `cancel` while it waits for its permit. -/
def cancelledStep (attempts : BitVec 32) : ProcessorStep :=
  .process ⟨⟨⟨7, ProjectId.positive_seven⟩, ⟨8⟩, ⟨1000, inRange_second⟩, 1, ⟨[]⟩⟩, attempts⟩
    ⟨.cancelled, .cancelled, .cancelled, .cancelled, .cancelled, .cancelled, .cancelled, ⟨2000, inRange_nextSecond⟩⟩ .answered

/-- Two failures before the last attempt, the cancelled one is retried. -/
theorem failures_kept_iff_early :
    Always (executeStep defaultConfig) (fun history => KeepsAll defaultConfig 2 history.log)
      ⟨weariedRow 2, []⟩ [cancelledStep 2] := by
  refine (failures_kept_iff defaultConfig (by decide) (weariedRow 2) (by decide) _).mpr ⟨?_, trivial⟩
  intro failure _ _ _ _ _ _
  exact .inl ⟨by decide, by decide⟩

/-- The last attempt is lost when it is cancelled. -/
theorem cancelled_event_lost : valid defaultConfig
    ∧ ¬ Always (executeStep defaultConfig) (fun history => KeepsAll defaultConfig 4 history.log)
      ⟨weariedRow 4, []⟩ [cancelledStep 4] := by
  refine ⟨by decide, fun h => ?_⟩
  have hlog : KeepsAll defaultConfig 4 [⟨.temporary .cancelled, ⟨2000, by decide⟩,
      ⟨(weariedRow 4).key, 4, 5, .cancelled, .permanentlyFailed⟩⟩] := h.2
  obtain ⟨time, htime⟩ := (hlog [] _ List.prefix_rfl).cancelled rfl
  cases htime

end EventProcessor

end MetricBackend
