import MetricBackend.DomainMonitors

/-! The monitor updates that the application hands to a monitor store: `normalize_check_in` of
`application/src/ingest.rs`, from the fields it has read out of the payload on, and the outcome of a
claimed check in `UptimeScheduler::run_once`. -/

namespace MetricBackend

inductive IngestErrorKind where
  | invalid
  | unauthorized
  | tooLarge
  | rateLimited
  | unavailable
  | timeout
  | shuttingDown
  | scrubFailed
deriving DecidableEq, Repr

structure IngestError where
  kind : IngestErrorKind
  code : String
deriving DecidableEq, Repr

def IngestError.ofInvalid (code : String) : IngestError := ⟨.invalid, code⟩

/-- `map_err(|_| IngestError::invalid(code))`. -/
def orInvalid {ε α : Type} (code : String) (result : Except ε α) : Except IngestError α :=
  result.mapError fun _ => .ofInvalid code

namespace IngestCheckIns

/-- What `normalize_check_in` reads out of a check-in payload: the monitor configuration, when there
is one, with its schedule parsed and its margins in seconds. -/
structure CheckInFields where
  checkInId : BitVec 128
  slug : Text
  environment : Text
  environmentId : EnvironmentId
  status : MonitorRunStatus
  durationMs : Option Nat
  monitorConfig : Option MonitorConfig
  releaseId : Option ReleaseId
deriving DecidableEq

/-- `normalize_monitor_definition`, once the configuration is parsed. -/
def monitorDefinition (projectId : ProjectId) (receivedAt : Timestamp) (monitorId : MonitorId)
    (fields : CheckInFields) (config : MonitorConfig) : Except IngestError MonitorDefinition := do
  orInvalid "invalid_monitor_config" config.validate
  let nextExpectedAt ← orInvalid "invalid_monitor_schedule" (config.schedule.nextAfter receivedAt)
  let definition : MonitorDefinition := {
    id := monitorId
    projectId := projectId
    slug := fields.slug
    name := fields.slug
    environmentId := fields.environmentId
    environment := fields.environment
    enabled := true
    managedByWeb := false
    revision := 1
    config := config
    uptime := none
    nextExpectedAt := nextExpectedAt
    lastRunId := none
    lastStatus := none
    lastCheckInAt := none
    createdAt := receivedAt
    updatedAt := receivedAt }
  orInvalid "invalid_monitor_definition" definition.validate
  return definition

/-- A finished check-in started its duration before it was received. -/
def checkInStartedAt (receivedAt : Timestamp) (fields : CheckInFields) : Except IngestError Timestamp :=
  if fields.status = .inProgress then .ok receivedAt
  else orInvalid "invalid_check_in_duration"
    (Timestamp.fromUnixMillis (receivedAt.unixMillis - min (fields.durationMs.getD 0) i64Max))

/-- The deadline of an in-progress check-in that brings its own configuration. -/
def checkInTimeoutAt (definition : Option MonitorDefinition) (status : MonitorRunStatus)
    (startedAt : Timestamp) : Except IngestError (Option Timestamp) :=
  match definition with
  | none => .ok none
  | some definition =>
      if status = .inProgress then
        some <$> orInvalid "invalid_monitor_runtime" (definition.config.timeoutAt startedAt)
      else .ok none

/-- `normalize_check_in`, once the payload is read: the update of a check-in received at
`receivedAt`. -/
def normalizeCheckIn (blake3 : List (BitVec 8) → BitVec 256) (projectId : ProjectId)
    (retentionDays : Nat) (receivedAt : Timestamp) (fields : CheckInFields) :
    Except IngestError MonitorUpdate := do
  let monitorId := MonitorId.derive blake3 projectId fields.slug fields.environment
  failIf (fields.status = .timeout ∨ fields.status = .missed)
    (.ofInvalid "invalid_sdk_check_in_status")
  let startedAt ← checkInStartedAt receivedAt fields
  let definition ← fields.monitorConfig.mapM (monitorDefinition projectId receivedAt monitorId fields)
  let timeoutAt ← checkInTimeoutAt definition fields.status startedAt
  let deleteAt ← orInvalid "invalid_monitor_retention"
    (Timestamp.fromUnixMillis (receivedAt.unixMillis + retentionDays * 86400000))
  let update : MonitorUpdate := {
    definition := definition
    run := {
      id := MonitorRunId.sdk blake3 monitorId fields.checkInId
      projectId := projectId
      monitorId := monitorId
      checkInId := some fields.checkInId
      status := fields.status
      source := .sdk
      scheduledFor := none
      startedAt := startedAt
      finishedAt := if fields.status.isTerminal then some receivedAt else none
      durationMs := fields.durationMs
      receivedAt := receivedAt
      releaseId := fields.releaseId
      timeoutAt := timeoutAt
      deleteAt := some deleteAt
      httpStatus := none
      uptimeFailure := none } }
  orInvalid "invalid_check_in" update.validate
  return update

structure UptimeCheckResult where
  httpStatus : Option Nat
  failure : Option UptimeFailure
  durationMs : Nat
deriving DecidableEq

/-- The update that `run_once` persists for a claimed monitor, checked from `now` to `finishedAt`. -/
def uptimeUpdate (blake3 : List (BitVec 8) → BitVec 256) (monitor : MonitorDefinition)
    (now finishedAt deleteAt : Timestamp) (result : UptimeCheckResult) : MonitorUpdate where
  definition := none
  run := {
    id := MonitorRunId.uptime blake3 monitor.id monitor.nextExpectedAt
    projectId := monitor.projectId
    monitorId := monitor.id
    checkInId := none
    status := match result.failure with
      | none => .success
      | some .timeout => .timeout
      | some _ => .error
    source := .scheduler
    scheduledFor := some monitor.nextExpectedAt
    startedAt := now
    finishedAt := some finishedAt
    durationMs := some result.durationMs
    receivedAt := finishedAt
    releaseId := none
    timeoutAt := none
    deleteAt := some deleteAt
    httpStatus := result.httpStatus
    uptimeFailure := result.failure }

/-- The updates that reach a store: check-ins that were normalized and checks that were run. -/
def Submitted (blake3 : List (BitVec 8) → BitVec 256) (update : MonitorUpdate) : Prop :=
  (∃ projectId retentionDays receivedAt fields,
    normalizeCheckIn blake3 projectId retentionDays receivedAt fields = .ok update) ∨
  ∃ monitor now finishedAt deleteAt result,
    update = uptimeUpdate blake3 monitor now finishedAt deleteAt result

/-! ### A sample monitor

A cron monitor of project 42 that checks in every five minutes. -/

def sampleProject : ProjectId := ⟨42, ProjectId.positive_fortyTwo⟩

def sampleStart : Timestamp := ⟨1700000000000, by decide⟩

def sampleMonitorId : MonitorId := ⟨0xc3bb6e9530da8c2b04b72dedb56ccfbd⟩

/-- The digests of the identities that the sample run derives. -/
def sampleBlake3 (input : List (BitVec 8)) : BitVec 256 :=
  if input = hashInput "metric/cron-monitor/v1".toList
      [bigEndian 4 42, utf8Bytes "nightly".toList, utf8Bytes "production".toList] then
    0xc3bb6e9530da8c2b04b72dedb56ccfbd1248a867e9bdb5554cf8322b80815bbc
  else if input = hashInput "metric/cron-run/sdk/v1".toList
      [bigEndian 16 0xc3bb6e9530da8c2b04b72dedb56ccfbd, bigEndian 16 7] then
    0xc8bcf4a73399146d4e282634175480a58e52d8f8d6f7c2133a56210d290da7a8
  else if input = hashInput "metric/cron-run/sdk/v1".toList
      [bigEndian 16 0xc3bb6e9530da8c2b04b72dedb56ccfbd, bigEndian 16 8] then
    0x4b0e4b4de86da3a8ff90e4c929e5c103950c80ed1641e9b7ec74b18c92bf51aa
  else if input = hashInput "metric/cron-run/missed/v1".toList
      [bigEndian 16 0xc3bb6e9530da8c2b04b72dedb56ccfbd, bigEndian 8 1700000360000] then
    0x78555a6194628ac0f1ea5872dbed0bbc0fa01b05ecf766f560060721a7d213b9
  else 0

/-- A check-in of the sample monitor, with or without the monitor's configuration. -/
def sampleFields (checkInId : BitVec 128) (status : MonitorRunStatus) (config : Bool) :
    CheckInFields where
  checkInId := checkInId
  slug := "nightly".toList
  environment := "production".toList
  environmentId := ⟨4⟩
  status := status
  durationMs := none
  monitorConfig := if config then some ⟨.interval 5, 60, 600⟩ else none
  releaseId := none

/-- The updates of a check-in of the sample monitor: one, unless it is refused. -/
def sampleUpdates (receivedAt : Timestamp) (fields : CheckInFields) : List MonitorUpdate :=
  (normalizeCheckIn sampleBlake3 sampleProject 90 receivedAt fields).toOption.toList

theorem sampleUpdates_submitted {receivedAt : Timestamp} {fields : CheckInFields}
    {update : MonitorUpdate} (h : update ∈ sampleUpdates receivedAt fields) :
    Submitted sampleBlake3 update := by
  refine Or.inl ⟨sampleProject, 90, receivedAt, fields, ?_⟩
  unfold sampleUpdates at h
  cases hnormalized : normalizeCheckIn sampleBlake3 sampleProject 90 receivedAt fields with
  | error e => simp [hnormalized, Except.toOption] at h
  | ok normalized =>
      rw [hnormalized] at h
      rw [List.mem_singleton.mp h]

/-- The monitor after a first check-in that succeeded a minute after the start. -/
def sampleMonitor : MonitorDefinition where
  id := sampleMonitorId
  projectId := sampleProject
  slug := "nightly".toList
  name := "nightly".toList
  environmentId := ⟨4⟩
  environment := "production".toList
  enabled := true
  managedByWeb := false
  revision := 1
  config := ⟨.interval 5, 60, 600⟩
  uptime := none
  nextExpectedAt := ⟨1700000360000, by decide⟩
  lastRunId := some ⟨0xc8bcf4a73399146d4e282634175480a5⟩
  lastStatus := some .success
  lastCheckInAt := some ⟨1700000060000, by decide⟩
  createdAt := sampleStart
  updatedAt := ⟨1700000060000, by decide⟩

end IngestCheckIns
end MetricBackend
