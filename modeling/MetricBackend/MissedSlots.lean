import MetricBackend.LibRuns
import MetricBackend.MonitorRows

/-! # Expected slots of one cron monitor

A run of the Postgres store seen from one cron monitor: every committed operation leaves marks in a
history, and the marks say which receipt times are covered, when the next check-in was expected and
which slots were recorded as missed. The next expected time is always derived from a time that the
monitor has seen, so that it moves forward only, past every covered receipt time. -/

namespace MetricBackend.PostgresMonitors
namespace MissedSlots

open IngestCheckIns

/-! ### Marks -/

inductive Mark where
  | received (time : Timestamp)
  | configured (time : Timestamp)
  | covered (time : Timestamp)
  | expected (next : Timestamp)
  | missed (slot : Timestamp)
deriving DecidableEq

/-- What an earlier mark requires of a later one: expected times do not decrease, and neither they
nor missed slots lie at or before a covered receipt time. -/
def Agrees : Mark → Mark → Prop
  | .covered time, .expected next => time < next
  | .covered time, .missed slot => time < slot
  | .expected earlier, .expected later => earlier ≤ later
  | _, _ => True

/-- A configuration adopted before the time, if the mark is one. -/
def Mark.ConfiguredBy (time : Timestamp) : Mark → Prop
  | .configured earlier => earlier ≤ time
  | _ => True

/-- A check-in, a configuration or a worker's pass before the time, if the mark is one. -/
def Mark.ReceivedBy (time : Timestamp) : Mark → Prop
  | .received earlier => earlier ≤ time
  | .configured earlier => earlier ≤ time
  | _ => True

instance decidableConfiguredBy (time : Timestamp) : (mark : Mark) → Decidable (mark.ConfiguredBy time)
  | .configured earlier => inferInstanceAs (Decidable (earlier ≤ time))
  | .received _ | .covered _ | .expected _ | .missed _ => .isTrue trivial

instance decidableReceivedBy (time : Timestamp) : (mark : Mark) → Decidable (mark.ReceivedBy time)
  | .received earlier => inferInstanceAs (Decidable (earlier ≤ time))
  | .configured earlier => inferInstanceAs (Decidable (earlier ≤ time))
  | .covered _ | .expected _ | .missed _ => .isTrue trivial

theorem Mark.ReceivedBy.configuredBy {time : Timestamp} {mark : Mark} (h : mark.ReceivedBy time) :
    mark.ConfiguredBy time := by
  cases mark with
  | configured earlier => exact h
  | _ => trivial

theorem Agrees.expected_mono {mark : Mark} {earlier later : Timestamp}
    (h : Agrees mark (.expected earlier)) (hle : earlier ≤ later) : Agrees mark (.expected later) := by
  cases mark with
  | covered time => exact lt_of_lt_of_le h hle
  | expected next => exact le_trans h hle
  | _ => trivial

/-! ### Runs -/

structure World where
  store : MonitorStore
  history : List Mark

inductive Action where
  | persist (updates : List MonitorUpdate)
  | upsert (now : Timestamp) (definition : MonitorDefinition)
  | timeout (now : Timestamp) (candidates : List MonitorRunId)
  | missed (now : Timestamp) (candidates : List MonitorId)
  | uptime (now leaseUntil : Timestamp) (candidates : List MonitorId)
  | projects (projects : Table ProjectId ProjectAcceptanceState)

/-- Updates come from check-ins, each normalized at its receipt time, and from uptime checks. -/
def Action.Submitted (blake3 : List (BitVec 8) → BitVec 256) : Action → Prop
  | .persist updates => ∀ update ∈ updates, IngestCheckIns.Submitted blake3 update
  | _ => True

/-- The update carries a configuration and the monitor is not owned by the web interface. -/
def Adopts (existing : Option StoredMonitor) (update : MonitorUpdate) : Prop :=
  update.definition.isSome ∧ existing.all (!·.definition.managedByWeb)

instance (existing : Option StoredMonitor) (update : MonitorUpdate) :
    Decidable (Adopts existing update) := inferInstanceAs (Decidable (_ ∧ _))

/-- The check-ins that set the next expected time: one whose configuration is adopted, and a new
terminal one that is not older than the last one seen. -/
def Covers (existing : Option StoredMonitor) (update : MonitorUpdate) (outcome : DurableOutcome) :
    Prop :=
  Adopts existing update ∨ (outcome = .accepted ∧ update.run.status.isTerminal = true ∧
    (existing.bind (·.definition.lastCheckInAt)).all (· ≤ update.run.receivedAt))

instance (existing : Option StoredMonitor) (update : MonitorUpdate) (outcome : DurableOutcome) :
    Decidable (Covers existing update outcome) := inferInstanceAs (Decidable (_ ∨ _))

section

variable (monitorId : MonitorId)

/-- The marks of one persisted update. -/
def checkInMarks (store : MonitorStore) (persisted : MonitorUpdate × DurableOutcome) : List Mark :=
  let (update, outcome) := persisted
  let existing := store.monitors[monitorId]?
  let time := update.run.receivedAt
  if update.run.monitorId = monitorId then
    .received time :: ((if Adopts existing update then [.configured time] else []) ++
      if Covers existing update outcome then [.covered time] else [])
  else []

/-- The slots of the missed runs that the second store has and the first has not. -/
def missedMarks (before after : MonitorStore) : List Mark :=
  after.runs.toList.filterMap fun row =>
    if row.2.monitorId = monitorId ∧ row.2.status = .missed ∧ before.runs[row.1]? ≠ some row.2 then
      row.2.scheduledFor.map .missed
    else none

/-- The world after an operation has committed: its marks, then the time expected next. -/
def World.record (world : World) (store : MonitorStore) (marks : List Mark) : World where
  store := store
  history := world.history ++ marks ++
    (store.monitors[monitorId]?.map fun row => .expected row.definition.nextExpectedAt).toList

/-- One operation. An operation that fails changes nothing. -/
def execute (blake3 : List (BitVec 8) → BitVec 256) (world : World) : Action → World
  | .persist updates =>
      match PostgresMonitors.persist world.store updates with
      | .ok (store, outcomes) => world.record monitorId store
          ((updates.zip outcomes).flatMap (checkInMarks monitorId world.store))
      | .error _ => world
  | .upsert now definition =>
      match PostgresMonitors.upsert world.store definition with
      | .ok store => world.record monitorId store
          (if definition.id = monitorId then [.received now, .configured now] else [])
      | .error _ => world
  | .timeout now candidates =>
      match workTimeout world.store now candidates with
      | .ok (store, _) => world.record monitorId store [.received now]
      | .error _ => world
  | .missed now candidates =>
      match workMissed blake3 world.store now candidates with
      | .ok (store, _) => world.record monitorId store
          (.received now :: missedMarks monitorId world.store store)
      | .error _ => world
  | .uptime now leaseUntil candidates =>
      match workUptime world.store now leaseUntil candidates with
      | .ok (store, _) => world.record monitorId store []
      | .error _ => world
  | .projects projects => { world with store := { world.store with projects := projects } }

variable (schedule : MonitorSchedule)

/-- A check-in keeps the schedule. It is persisted in order of receipt after every configuration
adopted before it, and after everything the monitor has seen when its own is adopted. -/
def AllowedCheckIn (world : World) (update : MonitorUpdate) : Prop :=
  (∀ definition ∈ update.definition, definition.config.schedule = schedule) ∧
  (∀ mark ∈ world.history, mark.ConfiguredBy update.run.receivedAt) ∧
  (Adopts world.store.monitors[monitorId]? update →
    ∀ mark ∈ world.history, mark.ReceivedBy update.run.receivedAt)

/-- An administrator's definition of the same cron monitor, made at `now` from a row read before. -/
def AllowedEdit (world : World) (now : Timestamp) (definition : MonitorDefinition) : Prop :=
  definition.uptime = none ∧ definition.config.schedule = schedule ∧
  schedule.nextAfter now = .ok definition.nextExpectedAt ∧
  (∀ time ∈ definition.lastCheckInAt, .received time ∈ world.history) ∧
  ∀ mark ∈ world.history, mark.ReceivedBy now

/-- The operations of a run: a call of `persist` has one check-in of the monitor at most, and the
clock of the timeout worker is not behind the configurations adopted. -/
def Allowed (world : World) : Action → Prop
  | .persist updates =>
      (updates.filter (·.run.monitorId = monitorId)).length ≤ 1 ∧
      ∀ update ∈ updates.filter (·.run.monitorId = monitorId),
        AllowedCheckIn monitorId schedule world update
  | .upsert now definition => definition.id = monitorId → AllowedEdit schedule world now definition
  | .timeout now _ => ∀ mark ∈ world.history, mark.ConfiguredBy now
  | _ => True

instance decidableAllowedCheckIn (world : World) (update : MonitorUpdate) :
    Decidable (AllowedCheckIn monitorId schedule world update) :=
  inferInstanceAs (Decidable (_ ∧ _ ∧ _))

instance decidableAllowed (world : World) :
    (action : Action) → Decidable (Allowed monitorId schedule world action)
  | .persist _ => inferInstanceAs (Decidable (_ ∧ _))
  | .upsert _ _ => inferInstanceAs (Decidable (_ → _ ∧ _ ∧ _ ∧ _ ∧ _))
  | .timeout now _ => inferInstanceAs (Decidable (∀ mark ∈ world.history, mark.ConfiguredBy now))
  | .missed _ _ | .uptime _ _ _ | .projects _ => .isTrue trivial

end

/-! ### The row of the monitor -/

/-- What holds of the row of the monitor. The next expected time is derived from a time that is not
after both the last check-in and every adopted configuration. -/
structure RowOk (schedule : MonitorSchedule) (history : List Mark) (row : StoredMonitor) : Prop where
  cron : row.definition.uptime = none
  schedule_eq : row.definition.config.schedule = schedule
  positive : schedule.Positive
  last : ∀ time ∈ row.definition.lastCheckInAt, .received time ∈ history
  derived : ∃ time, schedule.nextAfter time = .ok row.definition.nextExpectedAt ∧
    ∀ bound, (∀ last ∈ row.definition.lastCheckInAt, last ≤ bound) →
      (∀ mark ∈ history, mark.ConfiguredBy bound) → time ≤ bound
  agrees : ∀ mark ∈ history, Agrees mark (.expected row.definition.nextExpectedAt)

variable {schedule : MonitorSchedule} {history marks : List Mark} {row : StoredMonitor}

theorem RowOk.append (h : RowOk schedule history row)
    (hmarks : ∀ mark ∈ marks, Agrees mark (.expected row.definition.nextExpectedAt)) :
    RowOk schedule (history ++ marks) row := by
  refine ⟨h.cron, h.schedule_eq, h.positive, ?_, ?_, ?_⟩
  · intro time htime
    exact List.mem_append_left _ (h.last time htime)
  · obtain ⟨time, hnext, hbound⟩ := h.derived
    refine ⟨time, hnext, ?_⟩
    intro bound hlast hconfigured
    exact hbound bound hlast fun mark hmark => hconfigured mark (List.mem_append_left _ hmark)
  · intro mark hmark
    rcases List.mem_append.mp hmark with hmark | hmark
    · exact h.agrees mark hmark
    · exact hmarks mark hmark

/-- A time that the monitor has caught up with yields no earlier expectation. -/
theorem RowOk.next_le (h : RowOk schedule history row) {time next : Timestamp}
    (hlast : ∀ last ∈ row.definition.lastCheckInAt, last ≤ time)
    (hconfigured : ∀ mark ∈ history, mark.ConfiguredBy time)
    (hnext : schedule.nextAfter time = .ok next) : row.definition.nextExpectedAt ≤ next := by
  obtain ⟨earlier, hearlier, hbound⟩ := h.derived
  exact MonitorSchedule.nextAfter_mono (hbound time hlast hconfigured) hearlier hnext

/-- A configuration made at `time` for that time. -/
theorem rowOk_configured {time : Timestamp} (hcron : row.definition.uptime = none)
    (hschedule : row.definition.config.schedule = schedule) (hpositive : schedule.Positive)
    (hnext : schedule.nextAfter time = .ok row.definition.nextExpectedAt)
    (hlast : ∀ last ∈ row.definition.lastCheckInAt, .received last ∈ history)
    (hagrees : ∀ mark ∈ history, Agrees mark (.expected row.definition.nextExpectedAt)) :
    RowOk schedule (history ++ [.received time, .configured time]) row := by
  refine ⟨hcron, hschedule, hpositive, ?_, ?_, ?_⟩
  · intro last hmem
    exact List.mem_append_left _ (hlast last hmem)
  · refine ⟨time, hnext, ?_⟩
    intro bound _ hconfigured
    exact hconfigured (.configured time) (by simp)
  · intro mark hmark
    rcases List.mem_append.mp hmark with hmark | hmark
    · exact hagrees mark hmark
    · simp only [List.mem_cons, List.not_mem_nil, or_false] at hmark
      rcases hmark with rfl | rfl <;> trivial

/-- Projecting a run keeps the row in order when it does not move the expectation back. -/
theorem RowOk.project (h : RowOk schedule history row) {run : MonitorRun}
    {projected : StoredMonitor × Bool} (hprojected : projectRun row run = .ok projected)
    (hreceived : .received run.receivedAt ∈ history)
    (hforward : ∀ next, (∀ last ∈ row.definition.lastCheckInAt, last ≤ run.receivedAt) →
      schedule.nextAfter run.receivedAt = .ok next → row.definition.nextExpectedAt ≤ next) :
    RowOk schedule history projected.1 ∧
      row.definition.nextExpectedAt ≤ projected.1.definition.nextExpectedAt ∧
      (run.status.isTerminal = true → (∀ last ∈ row.definition.lastCheckInAt, last ≤ run.receivedAt) →
        run.receivedAt < projected.1.definition.nextExpectedAt) := by
  obtain ⟨holder, rfl⟩ | ⟨hnewer, next, lease, hnext, rfl⟩ := projectRun_eq_ok hprojected
  · refine ⟨h, le_rfl, ?_⟩
    intro _ hlast
    exact absurd holder (not_older_iff.mpr hlast)
  · rw [not_older_iff] at hnewer
    have hrow : ∀ last ∈ (projectedOn row.definition run next).lastCheckInAt,
        last = run.receivedAt := by
      intro last hlast
      exact (Option.some.inj hlast).symm
    unfold projectedNext at hnext
    split_ifs at hnext with hterminal
    · -- a terminal run sets the expectation from its own receipt time
      rw [invalid_eq_ok, h.schedule_eq] at hnext
      have hle := hforward next hnewer hnext
      refine ⟨⟨h.cron, h.schedule_eq, h.positive, ?_, ?_, ?_⟩, hle, ?_⟩
      · intro last hlast
        rw [hrow last hlast]
        exact hreceived
      · refine ⟨run.receivedAt, hnext, ?_⟩
        intro bound hlast _
        exact hlast run.receivedAt rfl
      · intro mark hmark
        exact (h.agrees mark hmark).expected_mono hle
      · intro _ _
        exact MonitorSchedule.nextAfter_gt h.positive hnext
    · -- a run in progress is noted, and the expectation stays
      cases hnext
      refine ⟨⟨h.cron, h.schedule_eq, h.positive, ?_, ?_, h.agrees⟩, le_rfl, ?_⟩
      · intro last hlast
        rw [hrow last hlast]
        exact hreceived
      · obtain ⟨time, htime, hbound⟩ := h.derived
        refine ⟨time, htime, ?_⟩
        intro bound hlast hconfigured
        refine hbound bound ?_ hconfigured
        intro last hmem
        exact (hnewer last hmem).trans (hlast run.receivedAt rfl)
      · intro hstatus
        exact absurd hstatus hterminal

/-! ### What holds along a run -/

/-- The invariant of a run, seen from the monitor. -/
structure Sound (blake3 : List (BitVec 8) → BitVec 256) (monitorId : MonitorId)
    (schedule : MonitorSchedule) (world : World) : Prop where
  keyed : Keyed world.store.monitors
  runs : RunsOk blake3 world.store.runs
  ordered : world.history.Pairwise Agrees
  row : ∀ row, world.store.monitors[monitorId]? = some row → RowOk schedule world.history row
  absent : world.store.monitors[monitorId]? = none →
    ∀ mark ∈ world.history, ∀ next, Agrees mark (.expected next)

variable {blake3 : List (BitVec 8) → BitVec 256} {monitorId : MonitorId} {world : World}
  {store : MonitorStore}

/-- The expected time is marked after every operation. -/
theorem Sound.record (h : Sound blake3 monitorId schedule ⟨store, world.history ++ marks⟩) :
    Sound blake3 monitorId schedule (world.record monitorId store marks) := by
  unfold World.record
  cases hget : store.monitors[monitorId]? with
  | none => simpa using h
  | some row =>
      have hrow := h.row row hget
      refine ⟨h.keyed, h.runs, ?_, ?_, ?_⟩
      · refine List.pairwise_append.mpr ⟨h.ordered, by simp, ?_⟩
        intro mark hmark expected hexpected
        rw [Option.map_some, Option.toList_some, List.mem_singleton] at hexpected
        subst hexpected
        exact hrow.agrees mark hmark
      · intro other hother
        cases hget.symm.trans hother
        refine hrow.append ?_
        intro mark hmark
        rw [Option.map_some, Option.toList_some, List.mem_singleton] at hmark
        subst hmark
        exact le_refl row.definition.nextExpectedAt
      · intro hnone
        cases hget.symm.trans hnone

/-- Marks that no earlier mark speaks about. -/
theorem pairwise_append_marks (h : history.Pairwise Agrees)
    (hmarks : ∀ mark ∈ marks, ∀ other, Agrees other mark) : (history ++ marks).Pairwise Agrees := by
  refine List.pairwise_append.mpr ⟨h, ?_, fun other _ mark hmark => hmarks mark hmark other⟩
  exact List.pairwise_of_forall_mem_list fun other _ mark hmark => hmarks mark hmark other

/-- An operation that leaves the row of the monitor alone. -/
theorem Sound.unchanged (h : Sound blake3 monitorId schedule world) (hkeyed : Keyed store.monitors)
    (hruns : RunsOk blake3 store.runs)
    (hsame : store.monitors[monitorId]? = world.store.monitors[monitorId]?)
    (hordered : (world.history ++ marks).Pairwise Agrees)
    (hmarks : ∀ mark ∈ marks, ∀ next, Agrees mark (.expected next)) :
    Sound blake3 monitorId schedule ⟨store, world.history ++ marks⟩ := by
  refine ⟨hkeyed, hruns, hordered, ?_, ?_⟩
  · intro row hrow
    rw [hsame] at hrow
    exact (h.row row hrow).append fun mark hmark => hmarks mark hmark _
  · intro hnone mark hmark next
    rw [hsame] at hnone
    rcases List.mem_append.mp hmark with hmark | hmark
    · exact h.absent hnone mark hmark next
    · exact hmarks mark hmark next

/-- An operation that leaves the row of the monitor alone and no marks. -/
theorem Sound.elsewhere (h : Sound blake3 monitorId schedule world) (hkeyed : Keyed store.monitors)
    (hruns : RunsOk blake3 store.runs)
    (hsame : store.monitors[monitorId]? = world.store.monitors[monitorId]?) :
    Sound blake3 monitorId schedule ⟨store, world.history ++ []⟩ :=
  h.unchanged hkeyed hruns hsame (by simpa using h.ordered) (by simp)

/-- An operation that moves the row of the monitor. -/
theorem sound_moved (hkeyed : Keyed store.monitors) (hruns : RunsOk blake3 store.runs)
    (hordered : (history ++ marks).Pairwise Agrees) (hget : store.monitors[monitorId]? = some row)
    (hrow : RowOk schedule (history ++ marks) row) :
    Sound blake3 monitorId schedule ⟨store, history ++ marks⟩ := by
  refine ⟨hkeyed, hruns, hordered, ?_, ?_⟩
  · intro other hother
    cases hget.symm.trans hother
    exact hrow
  · intro hnone
    cases hget.symm.trans hnone

/-! ### Check-ins -/

theorem encodeConfig_positive {definition : MonitorDefinition} {charged : Nat}
    (h : encodeConfig definition = .ok charged) : definition.config.schedule.Positive := by
  simp only [encodeConfig, bind_eq_ok] at h
  obtain ⟨_, -, _, hparsed, -⟩ := h
  cases hschedule : definition.config.schedule with
  | crontab expression compiled => trivial
  | interval minutes =>
      rw [hschedule, reparseSchedule, bind_eq_ok] at hparsed
      obtain ⟨_, hparsed, -⟩ := hparsed
      rw [invalid_eq_ok, MonitorSchedule.ofInterval] at hparsed
      split_ifs at hparsed with hrange
      exact hrange.1

/-- The definition of a submitted update expects the next check-in after its receipt. -/
theorem submitted_definition {update : MonitorUpdate} (h : IngestCheckIns.Submitted blake3 update)
    {definition : MonitorDefinition} (hdefinition : update.definition = some definition) :
    definition.uptime = none ∧ definition.lastCheckInAt = none ∧
      definition.config.schedule.nextAfter update.run.receivedAt = .ok definition.nextExpectedAt := by
  rcases h with ⟨projectId, retentionDays, receivedAt, fields, h⟩ |
    ⟨monitor, now, finishedAt, deleteAt, result, rfl⟩
  · simp only [normalizeCheckIn, bind_eq_ok] at h
    obtain ⟨_, -, _, -, found, hfound, _, -, _, -, _, -, h⟩ := h
    rw [pure_eq_ok] at h
    subst h
    cases hconfig : fields.monitorConfig with
    | none =>
        rw [hconfig] at hfound
        cases hfound
        cases hdefinition
    | some config =>
        rw [hconfig, Option.mapM_some, map_eq_ok] at hfound
        obtain ⟨made, hmade, rfl⟩ := hfound
        cases hdefinition
        simp only [monitorDefinition, bind_eq_ok, pure_eq_ok, orInvalid, mapError_eq_ok] at hmade
        obtain ⟨_, -, next, hnext, _, -, rfl⟩ := hmade
        exact ⟨rfl, rfl, hnext⟩
  · cases hdefinition

/-- The two ways in which the row of an update's monitor is resolved. -/
theorem resolveRow_cases {existing : Option StoredMonitor} {update : MonitorUpdate}
    {monitor : StoredMonitor} (h : resolveRow existing update = .ok (some monitor)) :
    (¬ Adopts existing update ∧ existing = some monitor) ∨
      ∃ definition charged, Adopts existing update ∧ update.definition = some definition ∧
        encodeConfig monitor.definition = .ok charged ∧
        monitor.definition.config = definition.config ∧
        monitor.definition.uptime = definition.uptime ∧
        monitor.definition.nextExpectedAt = definition.nextExpectedAt ∧
        monitor.definition.lastCheckInAt =
          (existing.map (·.definition.lastCheckInAt)).getD definition.lastCheckInAt := by
  unfold resolveRow at h
  split at h
  · next hnone =>
    refine Or.inl ⟨?_, Except.ok.inj h⟩
    simp [Adopts, hnone]
  · next incoming hincoming =>
    rw [bind_eq_ok] at h
    obtain ⟨adopted, hadopted, h⟩ := h
    rw [pure_eq_ok] at h
    unfold adoptDefinition at hadopted
    split at hadopted
    · simp only [bind_eq_ok, pure_eq_ok] at hadopted
      obtain ⟨charged, hcharged, rfl⟩ := hadopted
      cases h
      exact Or.inr ⟨incoming, charged, by simp [Adopts, hincoming], hincoming, hcharged, rfl, rfl, rfl,
        rfl⟩
    · next stored =>
      rw [bind_eq_ok] at hadopted
      obtain ⟨_, -, hadopted⟩ := hadopted
      split_ifs at hadopted with hweb
      · cases hadopted
        rw [Option.none_or] at h
        exact Or.inl ⟨by simp [Adopts, hweb], h⟩
      · simp only [bind_eq_ok, pure_eq_ok] at hadopted
        obtain ⟨_, -, charged, hcharged, rfl⟩ := hadopted
        cases h
        exact Or.inr ⟨incoming, charged, by simp [Adopts, hincoming, hweb], hincoming, hcharged, rfl, rfl,
          rfl, rfl⟩

/-- The marks of an update of the monitor up to its configuration. -/
def receiptMarks (existing : Option StoredMonitor) (update : MonitorUpdate) : List Mark :=
  .received update.run.receivedAt ::
    if Adopts existing update then [.configured update.run.receivedAt] else []

theorem silent_receiptMarks (existing : Option StoredMonitor) (update : MonitorUpdate) :
    ∀ mark ∈ receiptMarks existing update, ∀ other, Agrees other mark ∧ Agrees mark other := by
  intro mark hmark other
  unfold receiptMarks at hmark
  split_ifs at hmark
  all_goals
    simp only [List.mem_cons, List.not_mem_nil, or_false] at hmark
    rcases hmark with rfl | rfl <;> cases other <;> exact ⟨trivial, trivial⟩

theorem checkInMarks_own {update : MonitorUpdate} (hown : update.run.monitorId = monitorId)
    (outcome : DurableOutcome) : checkInMarks monitorId store (update, outcome)
      = receiptMarks store.monitors[monitorId]? update ++
        if Covers store.monitors[monitorId]? update outcome then [.covered update.run.receivedAt]
        else [] := by
  simp only [checkInMarks, receiptMarks, hown, if_true, List.cons_append]

theorem agrees_checkInMarks {update : MonitorUpdate} (hown : update.run.monitorId = monitorId)
    (outcome : DurableOutcome) :
    ∀ mark ∈ checkInMarks monitorId store (update, outcome), ∀ other, Agrees other mark := by
  intro mark hmark other
  rw [checkInMarks_own hown, List.mem_append] at hmark
  rcases hmark with hmark | hmark
  · exact (silent_receiptMarks _ _ mark hmark other).1
  · split_ifs at hmark
    · rw [List.mem_singleton.mp hmark]
      cases other <;> trivial
    · cases hmark

/-- The row once the definition of an update has been resolved. -/
theorem Sound.resolved (h : Sound blake3 monitorId schedule world) {update : MonitorUpdate}
    (hsubmitted : IngestCheckIns.Submitted blake3 update)
    (hallowed : AllowedCheckIn monitorId schedule world update) {monitor : StoredMonitor}
    (hresolved : resolveRow world.store.monitors[monitorId]? update = .ok (some monitor)) :
    RowOk schedule (world.history ++ receiptMarks world.store.monitors[monitorId]? update) monitor ∧
      (Adopts world.store.monitors[monitorId]? update →
        update.run.receivedAt < monitor.definition.nextExpectedAt) ∧
      (¬ Adopts world.store.monitors[monitorId]? update →
        world.store.monitors[monitorId]? = some monitor) := by
  rcases resolveRow_cases hresolved with ⟨hkept, hexisting⟩ |
    ⟨definition, charged, hadopts, hdefinition, hcharged, hconfig, huptime, hnext, hlast⟩
  · refine ⟨(h.row monitor hexisting).append ?_, fun hadopts => absurd hadopts hkept,
      fun _ => hexisting⟩
    intro mark hmark
    exact (silent_receiptMarks _ _ mark hmark _).2
  · obtain ⟨hcron, hnone, hafter⟩ := submitted_definition hsubmitted hdefinition
    have hschedule : monitor.definition.config.schedule = schedule := by
      rw [hconfig]
      exact hallowed.1 definition hdefinition
    have hpositive : schedule.Positive := hschedule ▸ encodeConfig_positive hcharged
    rw [← hconfig, hschedule, ← hnext] at hafter
    refine ⟨?_, fun _ => MonitorSchedule.nextAfter_gt hpositive hafter,
      fun hkept => absurd hadopts hkept⟩
    rw [receiptMarks, if_pos hadopts]
    refine rowOk_configured (huptime.trans hcron) hschedule hpositive hafter ?_ ?_
    · intro last hmem
      rw [hlast] at hmem
      cases hexisting : world.store.monitors[monitorId]? with
      | none =>
          rw [hexisting, Option.map_none, Option.getD_none, hnone] at hmem
          cases hmem
      | some existing =>
          rw [hexisting, Option.map_some, Option.getD_some] at hmem
          exact (h.row existing hexisting).last last hmem
    · intro mark hmark
      cases hexisting : world.store.monitors[monitorId]? with
      | none => exact h.absent hexisting mark hmark _
      | some existing =>
          have hrow := h.row existing hexisting
          refine (hrow.agrees mark hmark).expected_mono (hrow.next_le ?_ hallowed.2.1 hafter)
          intro last hmem
          exact hallowed.2.2 hadopts _ (hrow.last last hmem)

/-- The row once an update of the monitor has been persisted. -/
theorem Sound.checkedIn (h : Sound blake3 monitorId schedule world) {update : MonitorUpdate}
    (hsubmitted : IngestCheckIns.Submitted blake3 update)
    (hallowed : AllowedCheckIn monitorId schedule world update) {monitor : StoredMonitor}
    (hresolved : resolveRow world.store.monitors[monitorId]? update = .ok (some monitor))
    {merged : Option MonitorRun} (hmerged : MergesTo monitor update.run merged)
    (hrow : match merged with
      | none => row = monitor
      | some run => ∃ projected, projectRun monitor run = .ok projected ∧ row = projected.1)
    (hown : update.run.monitorId = monitorId) :
    RowOk schedule (world.history ++ checkInMarks monitorId world.store (update, outcomeOf merged))
      row := by
  obtain ⟨hmonitor, hadopted, hkept⟩ := h.resolved hsubmitted hallowed hresolved
  have hconfigured : ∀ mark ∈ world.history ++ receiptMarks world.store.monitors[monitorId]? update,
      mark.ConfiguredBy update.run.receivedAt := by
    intro mark hmark
    rcases List.mem_append.mp hmark with hmark | hmark
    · exact hallowed.2.1 mark hmark
    · unfold receiptMarks at hmark
      split_ifs at hmark
      all_goals
        simp only [List.mem_cons, List.not_mem_nil, or_false] at hmark
        rcases hmark with rfl | rfl
        all_goals first | trivial | exact le_refl update.run.receivedAt
  have hafter : RowOk schedule
      (world.history ++ receiptMarks world.store.monitors[monitorId]? update) row ∧
      (Covers world.store.monitors[monitorId]? update (outcomeOf merged) →
        update.run.receivedAt < row.definition.nextExpectedAt) := by
    cases merged with
    | none =>
        change row = monitor at hrow
        rw [hrow]
        refine ⟨hmonitor, ?_⟩
        rintro (hadopts | ⟨haccepted, -⟩)
        · exact hadopted hadopts
        · cases haccepted
    | some run =>
        obtain ⟨projected, hprojected, heq⟩ := hrow
        rw [heq]
        obtain ⟨-, hstatus, hreceivedAt⟩ := hmerged.fields
        obtain ⟨hrowOk, hle, hterminal⟩ := hmonitor.project hprojected
          (by rw [hreceivedAt]; exact List.mem_append_right _ List.mem_cons_self)
          (fun next hlast hnext => hmonitor.next_le hlast (hreceivedAt ▸ hconfigured) hnext)
        refine ⟨hrowOk, ?_⟩
        rintro (hadopts | ⟨-, hfinal, hlast⟩)
        · exact (hadopted hadopts).trans_le hle
        · by_cases hadopts : Adopts world.store.monitors[monitorId]? update
          · exact (hadopted hadopts).trans_le hle
          · rw [hstatus, hreceivedAt] at hterminal
            refine hterminal hfinal ?_
            intro last hmem
            rw [hkept hadopts, Option.bind_some, hmem, Option.all_some] at hlast
            exact of_decide_eq_true hlast
  rw [checkInMarks_own hown, ← List.append_assoc]
  refine hafter.1.append ?_
  intro mark hmark
  split_ifs at hmark with hcovers
  · rw [List.mem_singleton.mp hmark]
    exact hafter.2 hcovers
  · cases hmark

/-- A list with one element of a kind is split at it. -/
theorem split_at_single {α : Type} {p : α → Bool} {items : List α} {item : α}
    (hlength : (items.filter p).length ≤ 1) (hmem : item ∈ items) (hitem : p item = true) :
    ∃ before after, items = before ++ item :: after ∧ (∀ other ∈ before, p other = false) ∧
      ∀ other ∈ after, p other = false := by
  obtain ⟨before, after, rfl⟩ := List.append_of_mem hmem
  rw [List.filter_append, List.filter_cons_of_pos hitem, List.length_append, List.length_cons] at hlength
  have hbefore : before.filter p = [] := List.length_eq_zero_iff.mp (by omega)
  have hafter : after.filter p = [] := List.length_eq_zero_iff.mp (by omega)
  rw [List.filter_eq_nil_iff] at hbefore hafter
  exact ⟨before, after, rfl, fun other hother => Bool.eq_false_iff.mpr (hbefore other hother),
    fun other hother => Bool.eq_false_iff.mpr (hafter other hother)⟩

/-- Updates of other monitors leave no marks. -/
theorem flatMap_checkInMarks_of_ne {persisted : List (MonitorUpdate × DurableOutcome)}
    (h : ∀ item ∈ persisted, item.1.run.monitorId ≠ monitorId) :
    persisted.flatMap (checkInMarks monitorId store) = [] := by
  rw [List.flatMap_eq_nil_iff]
  intro item hitem
  exact if_neg (h item hitem)

theorem Sound.persist (h : Sound blake3 monitorId schedule world) {updates : List MonitorUpdate}
    (hsubmitted : ∀ update ∈ updates, IngestCheckIns.Submitted blake3 update)
    (hallowed : Allowed monitorId schedule world (.persist updates)) :
    Sound blake3 monitorId schedule (execute monitorId blake3 world (.persist updates)) := by
  simp only [execute]
  split
  · next store outcomes hpersist =>
    have hruns : RunsOk blake3 store.runs := h.runs.writes (persist_writes h.runs hsubmitted hpersist)
    apply Sound.record
    rcases persist_eq_ok hpersist with ⟨rfl, rfl, rfl⟩ | ⟨⟨persisted⟩⟩
    · exact h.elsewhere h.keyed h.runs rfl
    · have hkeyed := persisted.keyed_next h.keyed
      by_cases hown : ∃ update ∈ updates, update.run.monitorId = monitorId
      · obtain ⟨update, hmem, hid⟩ := hown
        obtain ⟨before, after, rfl, hbefore, hafter⟩ :=
          split_at_single hallowed.1 hmem (decide_eq_true hid)
        have hbefore : ∀ other ∈ before, other.run.monitorId ≠ monitorId :=
          fun other hother => of_decide_eq_false (hbefore other hother)
        have hafter : ∀ other ∈ after, other.run.monitorId ≠ monitorId :=
          fun other hother => of_decide_eq_false (hafter other hother)
        obtain ⟨monitor, merged, hresolved, hmerged, ⟨outcomesBefore, outcomesAfter, houtcomes, hlength⟩,
          hrow⟩ := persisted.single_update h.keyed (hid ▸ hbefore) (hid ▸ hafter)
        have hmarks : ((before ++ update :: after).zip outcomes).flatMap
            (checkInMarks monitorId world.store)
            = checkInMarks monitorId world.store (update, outcomeOf merged) := by
          rw [houtcomes, List.zip_append hlength.symm, List.zip_cons_cons, List.flatMap_append,
            List.flatMap_cons, flatMap_checkInMarks_of_ne, flatMap_checkInMarks_of_ne, List.nil_append,
            List.append_nil]
          · intro item hitem
            exact hafter item.1 (List.of_mem_zip hitem).1
          · intro item hitem
            exact hbefore item.1 (List.of_mem_zip hitem).1
        rw [hid] at hresolved hrow
        have hchecked : ∃ row, store.monitors[monitorId]? = some row ∧ RowOk schedule
            (world.history ++ checkInMarks monitorId world.store (update, outcomeOf merged)) row := by
          have hcheckIn := hallowed.2 update (List.mem_filter.mpr ⟨hmem, decide_eq_true hid⟩)
          cases merged with
          | none => exact ⟨monitor, hrow, h.checkedIn (hsubmitted update hmem) hcheckIn hresolved hmerged
              rfl hid⟩
          | some run =>
              obtain ⟨projected, hprojected, hget⟩ := hrow
              exact ⟨projected.1, hget, h.checkedIn (hsubmitted update hmem) hcheckIn hresolved hmerged
                ⟨projected, hprojected, rfl⟩ hid⟩
        obtain ⟨row, hget, hrowOk⟩ := hchecked
        rw [hmarks]
        exact sound_moved hkeyed hruns (pairwise_append_marks h.ordered (agrees_checkInMarks hid _)) hget
          hrowOk
      · have hne : ∀ update ∈ updates, update.run.monitorId ≠ monitorId :=
          fun update hmem hid => hown ⟨update, hmem, hid⟩
        rw [flatMap_checkInMarks_of_ne fun item hitem => hne item.1 (List.of_mem_zip hitem).1]
        exact h.elsewhere hkeyed hruns (persisted.monitor_row_of_ne h.keyed hne)
  · exact h

/-! ### Edits and workers -/

theorem Sound.upsert (h : Sound blake3 monitorId schedule world) {now : Timestamp}
    {definition : MonitorDefinition}
    (hallowed : Allowed monitorId schedule world (.upsert now definition)) :
    Sound blake3 monitorId schedule (execute monitorId blake3 world (.upsert now definition)) := by
  simp only [execute]
  split
  · next store hupsert =>
    apply Sound.record
    obtain ⟨⟨charged, hcharged⟩, lease, rfl⟩ := upsert_eq_ok hupsert
    have hkeyed : Keyed (world.store.monitors.insert definition.id ⟨definition, lease⟩) :=
      h.keyed.insert rfl
    split_ifs with hid
    · obtain ⟨hcron, hschedule, hafter, hlast, hreceived⟩ := hallowed hid
      have hpositive : schedule.Positive := hschedule ▸ encodeConfig_positive hcharged
      have hget : (world.store.monitors.insert definition.id ⟨definition, lease⟩)[monitorId]?
          = some ⟨definition, lease⟩ := by
        rw [← hid, Table.get_insert_self]
      refine sound_moved hkeyed h.runs (pairwise_append_marks h.ordered ?_) hget
        (rowOk_configured hcron hschedule hpositive hafter hlast ?_)
      · intro mark hmark other
        simp only [List.mem_cons, List.not_mem_nil, or_false] at hmark
        rcases hmark with rfl | rfl <;> cases other <;> trivial
      · intro mark hmark
        cases hexisting : world.store.monitors[monitorId]? with
        | none => exact h.absent hexisting mark hmark _
        | some existing =>
            have hrow := h.row existing hexisting
            refine (hrow.agrees mark hmark).expected_mono (hrow.next_le ?_ ?_ hafter)
            · intro last hmem
              exact hreceived _ (hrow.last last hmem)
            · intro other hother
              exact (hreceived other hother).configuredBy
    · exact h.elsewhere hkeyed h.runs (Table.get_insert_of_ne _ _ hid)
  · exact h

theorem silent_received (time : Timestamp) :
    ∀ mark ∈ [Mark.received time], ∀ other, Agrees other mark ∧ Agrees mark other := by
  intro mark hmark other
  rw [List.mem_singleton.mp hmark]
  cases other <;> exact ⟨trivial, trivial⟩

/-- The row once the timeout worker has projected runs on it. -/
theorem RowOk.timedOut (h : RowOk schedule history row) {now : Timestamp} {after : StoredMonitor}
    (hafter : TimedOutRow now row after) (hreceived : .received now ∈ history)
    (hconfigured : ∀ mark ∈ history, mark.ConfiguredBy now) : RowOk schedule history after := by
  induction hafter with
  | first hprojected =>
      exact (h.project hprojected hreceived
        fun next hlast hnext => h.next_le hlast hconfigured hnext).1
  | next _ hprojected ih =>
      exact (ih.project hprojected hreceived
        fun next hlast hnext => ih.next_le hlast hconfigured hnext).1

theorem Sound.timeout (h : Sound blake3 monitorId schedule world) {now : Timestamp}
    {candidates : List MonitorRunId}
    (hallowed : Allowed monitorId schedule world (.timeout now candidates)) :
    Sound blake3 monitorId schedule (execute monitorId blake3 world (.timeout now candidates)) := by
  simp only [execute]
  split
  · next store count hwork =>
    apply Sound.record
    have hruns : RunsOk blake3 store.runs := h.runs.writes (workTimeout_writes h.runs hwork)
    have hkeyed := workTimeout_keyed h.keyed hwork
    have hordered : (world.history ++ [Mark.received now]).Pairwise Agrees :=
      pairwise_append_marks h.ordered fun mark hmark other => (silent_received now mark hmark other).1
    rcases workTimeout_row h.keyed hwork monitorId with
      hsame | ⟨monitor, after, hmonitor, hafter, hstored⟩
    · exact h.unchanged hkeyed hruns hsame hordered
        fun mark hmark next => (silent_received now mark hmark _).2
    · have hrow : RowOk schedule (world.history ++ [.received now]) monitor :=
        (h.row monitor hmonitor).append fun mark hmark => (silent_received now mark hmark _).2
      refine sound_moved hkeyed hruns hordered hstored (hrow.timedOut hafter (by simp) ?_)
      intro mark hmark
      rcases List.mem_append.mp hmark with hmark | hmark
      · exact hallowed mark hmark
      · rw [List.mem_singleton.mp hmark]
        trivial
  · exact h

/-- A monitor is overdue after its expected time only. -/
theorem next_le_of_overdue {now : Timestamp} {old : StoredMonitor} (h : Overdue store now old) :
    old.definition.nextExpectedAt ≤ now := by
  have hdue := h.due
  unfold notDue at hdue
  split_ifs at hdue
  · cases hdue
  · rw [bind_eq_ok] at hdue
    obtain ⟨dueAt, hdueAt, hlt⟩ := hdue
    rw [pure_eq_ok, decide_eq_false_iff_not, not_lt] at hlt
    rw [due, if_neg (by simp [h.cron]), invalid_eq_ok, MonitorConfig.missedAt, addMillis_eq_ok] at hdueAt
    rw [Timestamp.le_iff] at hlt ⊢
    omega

/-- The missed worker marks the expected time of the monitor and no other slot. -/
theorem mem_missedMarks {next : MonitorStore} {now : Timestamp} {mark : Mark}
    (hruns : ∀ (id : MonitorRunId) (run : MonitorRun), next.runs[id]? = some run →
      store.runs[id]? = some run ∨ ∃ old deleteAt, Overdue store now old ∧
        run = missedRun blake3 old.definition now deleteAt)
    (h : mark ∈ missedMarks monitorId store next) :
    ∃ old, store.monitors[monitorId]? = some old ∧ mark = .missed old.definition.nextExpectedAt := by
  obtain ⟨⟨id, run⟩, hrow, hmark⟩ := List.mem_filterMap.mp h
  simp only at hmark
  split_ifs at hmark with hnew
  obtain ⟨hmonitor, -, hfresh⟩ := hnew
  rcases hruns id run (Table.mem_toList.mp hrow) with hstored | ⟨old, deleteAt, hoverdue, rfl⟩
  · exact absurd hstored hfresh
  · refine ⟨old, ?_, (Option.some.inj hmark).symm⟩
    rw [← hmonitor]
    exact hoverdue.stored

theorem Sound.missed (h : Sound blake3 monitorId schedule world) {now : Timestamp}
    {candidates : List MonitorId} :
    Sound blake3 monitorId schedule (execute monitorId blake3 world (.missed now candidates)) := by
  simp only [execute]
  split
  · next store count hwork =>
    apply Sound.record
    have hruns : RunsOk blake3 store.runs := h.runs.writes (workMissed_writes h.runs hwork)
    obtain ⟨hmonitors, hadded⟩ := workMissed_rows h.keyed h.runs hwork
    have hkeyed := workMissed_keyed h.keyed h.runs hwork
    have hquiet : ∀ mark ∈ .received now :: missedMarks monitorId world.store store, ∀ next,
        Agrees mark (.expected next) := by
      intro mark hmark next
      rcases List.mem_cons.mp hmark with rfl | hmark
      · trivial
      · obtain ⟨_, -, rfl⟩ := mem_missedMarks hadded hmark
        trivial
    have hordered : (world.history ++ .received now ::
        missedMarks monitorId world.store store).Pairwise Agrees := by
      have hslots : ∀ mark ∈ .received now :: missedMarks monitorId world.store store,
          ∀ other, (∀ time, other = .covered time → other ∈ world.history) → Agrees other mark := by
        intro mark hmark other hother
        rcases List.mem_cons.mp hmark with rfl | hmark
        · cases other <;> trivial
        · obtain ⟨old, hold, rfl⟩ := mem_missedMarks hadded hmark
          cases other with
          | covered time => exact (h.row old hold).agrees _ (hother time rfl)
          | _ => trivial
      refine List.pairwise_append.mpr ⟨h.ordered, ?_, ?_⟩
      · refine List.pairwise_of_forall_mem_list ?_
        intro other hother mark hmark
        refine hslots mark hmark other ?_
        rintro time rfl
        rcases List.mem_cons.mp hother with hother | hother
        · cases hother
        · obtain ⟨_, -, hother⟩ := mem_missedMarks hadded hother
          cases hother
      · intro other hother mark hmark
        exact hslots mark hmark other fun _ _ => hother
    rcases hmonitors monitorId with hsame | ⟨old, deleteAt, projected, hold, hoverdue, hprojected, hget⟩
    · exact h.unchanged hkeyed hruns hsame hordered hquiet
    · have hrow : RowOk schedule (world.history ++ .received now ::
          missedMarks monitorId world.store store) old :=
        (h.row old hold).append fun mark hmark => hquiet mark hmark _
      refine sound_moved hkeyed hruns hordered hget (hrow.project hprojected ?_ ?_).1
      · exact List.mem_append_right _ List.mem_cons_self
      · intro next _ hnext
        obtain ⟨time, htime, -⟩ := hrow.derived
        have hbefore : time ≤ now :=
          (MonitorSchedule.nextAfter_gt hrow.positive htime).le.trans (next_le_of_overdue hoverdue)
        exact MonitorSchedule.nextAfter_mono hbefore htime hnext
  · exact h

theorem Sound.uptime (h : Sound blake3 monitorId schedule world) {now leaseUntil : Timestamp}
    {candidates : List MonitorId} : Sound blake3 monitorId schedule
      (execute monitorId blake3 world (.uptime now leaseUntil candidates)) := by
  simp only [execute]
  split
  · next store claimed hwork =>
    apply Sound.record
    obtain ⟨hruns, hmonitors⟩ := workUptime_row h.keyed hwork
    have hkeyed := workUptime_keyed h.keyed hwork
    rcases hmonitors monitorId with hsame | ⟨old, hold, hstored⟩
    · exact h.elsewhere hkeyed (hruns ▸ h.runs) hsame
    · have hrow := h.row old hold
      have hordered : (world.history ++ []).Pairwise Agrees := by simpa using h.ordered
      refine sound_moved hkeyed (hruns ▸ h.runs) hordered hstored ?_
      rw [List.append_nil]
      exact ⟨hrow.cron, hrow.schedule_eq, hrow.positive, hrow.last, hrow.derived, hrow.agrees⟩
  · exact h

theorem Sound.execute (h : Sound blake3 monitorId schedule world) {action : Action}
    (hsubmitted : action.Submitted blake3) (hallowed : Allowed monitorId schedule world action) :
    Sound blake3 monitorId schedule (execute monitorId blake3 world action) := by
  cases action with
  | persist updates => exact h.persist hsubmitted hallowed
  | upsert now definition => exact h.upsert hallowed
  | timeout now candidates => exact h.timeout hallowed
  | missed now candidates => exact h.missed
  | uptime now leaseUntil candidates => exact h.uptime
  | projects projects => exact ⟨h.keyed, h.runs, h.ordered, h.row, h.absent⟩

/-- The marks of a run from an empty store agree: the next expected time of the monitor never
decreases, once a check-in that sets it has been persisted it lies after the receipt time, and no slot
at or before that time is recorded as missed any more. -/
theorem slots_after_covering_check_ins (blake3 : List (BitVec 8) → BitVec 256)
    (monitorId : MonitorId) (schedule : MonitorSchedule) (initial : MonitorStore)
    (hmonitors : initial.monitors = ∅) (hruns : initial.runs = ∅) (actions : List Action)
    (hsubmitted : ∀ action ∈ actions, action.Submitted blake3)
    (hallowed : Throughout (execute monitorId blake3) (Allowed monitorId schedule) ⟨initial, []⟩
      actions) :
    (actions.foldl (execute monitorId blake3) ⟨initial, []⟩).history.Pairwise Agrees := by
  have hinit : Sound blake3 monitorId schedule ⟨initial, []⟩ := by
    refine ⟨?_, ?_, List.Pairwise.nil, ?_, by simp⟩
    · intro id row hget
      simp [hmonitors] at hget
    · intro id run hget
      simp [hruns] at hget
    · intro row hget
      simp [hmonitors] at hget
  have halways : Always (MissedSlots.execute monitorId blake3) (·.history.Pairwise Agrees)
      ⟨initial, []⟩ actions :=
    always_of_throughout (fun _ h => Sound.ordered h)
      (fun _ _ h (hstep : _ ∧ _) => Sound.execute h hstep.1 hstep.2) actions _ hinit
      (hallowed.and_forall hsubmitted)
  exact halways.last

/-! ### A sample run -/

/-- A first check-in with the configuration, its success, and the pass of the missed worker after the
next slot. -/
def sampleActions : List Action := [
  .persist (sampleUpdates sampleStart (sampleFields 7 .inProgress true)),
  .persist (sampleUpdates ⟨1700000060000, inRange_sampleMinute⟩ (sampleFields 7 .success false)),
  .missed ⟨1700000500000, inRange_sampleScan⟩ [sampleMonitorId]]

theorem slots_after_covering_check_ins_nightly :
    .covered ⟨1700000060000, by decide⟩ ∈ (sampleActions.foldl (execute sampleMonitorId sampleBlake3)
      ⟨sampleStore, []⟩).history ∧
    .missed ⟨1700000360000, by decide⟩ ∈ (sampleActions.foldl (execute sampleMonitorId sampleBlake3)
      ⟨sampleStore, []⟩).history ∧
    (sampleActions.foldl (execute sampleMonitorId sampleBlake3) ⟨sampleStore, []⟩).history.Pairwise
      Agrees := by
  refine ⟨by decide, by decide, ?_⟩
  refine slots_after_covering_check_ins sampleBlake3 sampleMonitorId (.interval 5) sampleStore rfl rfl
    sampleActions ?_ (by decide)
  intro action haction
  simp only [sampleActions, List.mem_cons, List.not_mem_nil, or_false] at haction
  rcases haction with rfl | rfl | rfl
  · exact fun update hupdate => sampleUpdates_submitted hupdate
  · exact fun update hupdate => sampleUpdates_submitted hupdate
  · trivial

/-- The store after a first check-in of the sample monitor has succeeded, with a slot expected five
minutes later, and after another one has started ten seconds past that slot. -/
def sampleProgress : MonitorStore :=
  let started := checkIn sampleStore sampleStart (sampleFields 7 .inProgress true)
  let finished := checkIn started ⟨1700000060000, inRange_sampleMinute⟩ (sampleFields 7 .success false)
  checkIn finished ⟨1700000370000, by decide⟩ (sampleFields 8 .inProgress false)

/-- A check-in that is in progress and brings no configuration leaves the expected time where it was:
the slot before its receipt is recorded as missed all the same. -/
theorem slot_missed_despite_check_in_progress :
    sampleProgress.runs[(⟨0x4b0e4b4de86da3a8ff90e4c929e5c103⟩ : MonitorRunId)]?.map
        (fun run => (run.monitorId, run.receivedAt))
      = some (sampleMonitorId, ⟨1700000370000, by decide⟩) ∧
    sampleProgress.monitors[sampleMonitorId]?.map
        (fun row => (row.definition.enabled, row.definition.nextExpectedAt))
      = some (true, ⟨1700000360000, by decide⟩) ∧
    (committed sampleProgress (materializeDueMissed sampleBlake3 sampleProgress
        ⟨1700000500000, by decide⟩ 100)).runs[
          (⟨0x78555a6194628ac0f1ea5872dbed0bbc⟩ : MonitorRunId)]?.map
        (fun run => (run.status, run.monitorId, run.scheduledFor))
      = some (.missed, sampleMonitorId, some ⟨1700000360000, by decide⟩) := by
  decide

end MissedSlots
end MetricBackend.PostgresMonitors
