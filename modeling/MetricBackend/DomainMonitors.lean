import MetricBackend.DomainSchedules
import MetricBackend.LibFallible

/-! Cron and uptime monitors of `domain/src/monitors.rs`: identities, configuration, definitions and
run records, with the checks of each. -/

namespace MetricBackend

def maxMonitorSlugBytes : Nat := 64
def maxMonitorNameBytes : Nat := 128
def maxMonitorEnvironmentBytes : Nat := 64
def maxMonitorMarginSeconds : Nat := 24 * 60 * 60
def maxMonitorRuntimeSeconds : Nat := 7 * 24 * 60 * 60
def maxUptimeHeaders : Nat := 16
def maxUptimeHeaderNameBytes : Nat := 64
def maxUptimeHeadersBytes : Nat := 8 * 1024
def maxUptimeTimeoutSeconds : Nat := 120
def maxUptimeRedirects : Nat := 3

/-! ### Identities -/

/-- `MonitorId::derive`, for cron monitors. -/
def MonitorId.derive (blake3 : List (BitVec 8) → BitVec 256) (projectId : ProjectId)
    (slug environment : Text) : MonitorId :=
  ⟨hash16 blake3 "metric/cron-monitor/v1".toList
    [bigEndian 4 projectId.get, utf8Bytes slug, utf8Bytes environment]⟩

namespace MonitorRunId

variable (blake3 : List (BitVec 8) → BitVec 256)

def sdk (monitorId : MonitorId) (checkInId : BitVec 128) : MonitorRunId :=
  ⟨hash16 blake3 "metric/cron-run/sdk/v1".toList
    [bigEndian 16 monitorId.asBytes.toNat, bigEndian 16 checkInId.toNat]⟩

def missed (monitorId : MonitorId) (scheduledFor : Timestamp) : MonitorRunId :=
  ⟨hash16 blake3 "metric/cron-run/missed/v1".toList
    [bigEndian 16 monitorId.asBytes.toNat, bigEndian 8 scheduledFor.unixMillis]⟩

def uptime (monitorId : MonitorId) (scheduledFor : Timestamp) : MonitorRunId :=
  ⟨hash16 blake3 "metric/uptime-run/v1".toList
    [bigEndian 16 monitorId.asBytes.toNat, bigEndian 8 scheduledFor.unixMillis]⟩

end MonitorRunId

inductive MonitorRunStatus where
  | inProgress
  | success
  | error
  | timeout
  | missed
deriving DecidableEq, Repr

def MonitorRunStatus.isTerminal : MonitorRunStatus → Bool
  | .inProgress => false
  | _ => true

inductive MonitorRunSource where
  | sdk
  | scheduler
deriving DecidableEq, Repr

inductive UptimeMethod where
  | get
  | head
deriving DecidableEq, Repr

def UptimeMethod.asStr : UptimeMethod → Text
  | .get => "GET".toList
  | .head => "HEAD".toList

inductive UptimeFailure where
  | dns
  | forbiddenAddress
  | connect
  | timeout
  | redirect
  | tooManyRedirects
  | responseTooLarge
  | unexpectedStatus
deriving DecidableEq, Repr

/-! ### Configuration -/

def validateText (value : Text) (maximum : Nat) : Except MonitorValueError Unit :=
  failIf (value.isEmpty ∨ maximum < byteLength value ∨ value.any isControl) .invalidText

def sensitiveUptimeHeader (name : Text) : Bool :=
  name ∈ ["authorization".toList, "proxy-authorization".toList, "cookie".toList,
    "set-cookie".toList, "x-api-key".toList, "x-auth-token".toList] ||
  textContains "token".toList name || textContains "secret".toList name ||
    textContains "api-key".toList name

def forbiddenUptimeHeader (name : Text) : Bool :=
  name ∈ ["host".toList, "content-length".toList, "transfer-encoding".toList, "connection".toList,
    "keep-alive".toList, "te".toList, "trailer".toList, "upgrade".toList, "forwarded".toList,
    "via".toList] ||
  "proxy-".toList.isPrefixOf name || "x-forwarded-".toList.isPrefixOf name

structure UptimeHeader where
  name : Text
  value : List (BitVec 8)
  sensitive : Bool
deriving DecidableEq

def UptimeHeader.validate (self : UptimeHeader) : Except MonitorValueError Unit :=
  failIf (self.name.isEmpty ∨ maxUptimeHeaderNameBytes < byteLength self.name ∨
    !(self.name.all fun c => ('a' ≤ c ∧ c ≤ 'z') ∨ c.isDigit ∨ c = '-') ∨
    forbiddenUptimeHeader self.name ∨ self.sensitive ≠ sensitiveUptimeHeader self.name) .invalidHeader

structure UptimeMonitorConfig where
  endpoint : Text
  method : UptimeMethod
  expectedStatusMin : Nat
  expectedStatusMax : Nat
  timeoutSeconds : Nat
  maxRedirects : Nat
  headers : List UptimeHeader
deriving DecidableEq

def UptimeMonitorConfig.validate (self : UptimeMonitorConfig) : Except MonitorValueError Unit := do
  failIf (maxUptimeHeaders < self.headers.length ∨
    ¬ (100 ≤ self.expectedStatusMin ∧ self.expectedStatusMin ≤ 599) ∨
    ¬ (self.expectedStatusMin ≤ self.expectedStatusMax ∧ self.expectedStatusMax ≤ 599) ∨
    ¬ (1 ≤ self.timeoutSeconds ∧ self.timeoutSeconds ≤ maxUptimeTimeoutSeconds) ∨
    maxUptimeRedirects < self.maxRedirects) .invalidConfig
  let (_, total) ← self.headers.foldlM (fun (names, total) header => do
    header.validate
    failIf (header.name ∈ names) .invalidHeader
    return (header.name :: names, total + byteLength header.name + header.value.length)) ([], 0)
  failIf (maxUptimeHeadersBytes + self.headers.length * 64 < total) .invalidHeader

structure MonitorConfig where
  schedule : MonitorSchedule
  checkinMarginSeconds : Nat
  maxRuntimeSeconds : Nat
deriving DecidableEq

namespace MonitorConfig

def validate (self : MonitorConfig) : Except MonitorValueError Unit :=
  failIf (maxMonitorMarginSeconds < self.checkinMarginSeconds ∨ self.maxRuntimeSeconds = 0 ∨
    maxMonitorRuntimeSeconds < self.maxRuntimeSeconds) .invalidConfig

def missedAt (self : MonitorConfig) (scheduledFor : Timestamp) : Except MonitorValueError Timestamp :=
  addMillis scheduledFor (self.checkinMarginSeconds * 1000)

def timeoutAt (self : MonitorConfig) (startedAt : Timestamp) : Except MonitorValueError Timestamp :=
  addMillis startedAt (self.maxRuntimeSeconds * 1000)

end MonitorConfig

/-! ### Definitions and runs -/

structure MonitorDefinition where
  id : MonitorId
  projectId : ProjectId
  slug : Text
  name : Text
  environmentId : EnvironmentId
  environment : Text
  enabled : Bool
  managedByWeb : Bool
  revision : Nat
  config : MonitorConfig
  uptime : Option UptimeMonitorConfig
  nextExpectedAt : Timestamp
  lastRunId : Option MonitorRunId
  lastStatus : Option MonitorRunStatus
  lastCheckInAt : Option Timestamp
  createdAt : Timestamp
  updatedAt : Timestamp
deriving DecidableEq

namespace MonitorDefinition

def validate (self : MonitorDefinition) : Except MonitorValueError Unit := do
  validateText self.slug maxMonitorSlugBytes
  validateText self.name maxMonitorNameBytes
  validateText self.environment maxMonitorEnvironmentBytes
  self.config.validate
  failIf (self.uptime.any fun uptime => !uptime.validate.isOk) .invalidConfig
  failIf (self.revision = 0 ∨ self.updatedAt < self.createdAt) .invalidConfig

def isUptime (self : MonitorDefinition) : Bool := self.uptime.isSome

end MonitorDefinition

structure MonitorRun where
  id : MonitorRunId
  projectId : ProjectId
  monitorId : MonitorId
  checkInId : Option (BitVec 128)
  status : MonitorRunStatus
  source : MonitorRunSource
  scheduledFor : Option Timestamp
  startedAt : Timestamp
  finishedAt : Option Timestamp
  durationMs : Option Nat
  receivedAt : Timestamp
  releaseId : Option ReleaseId
  timeoutAt : Option Timestamp
  deleteAt : Option Timestamp
  httpStatus : Option Nat
  uptimeFailure : Option UptimeFailure
deriving DecidableEq

/-- `MonitorRun::validate`. -/
def MonitorRun.validate (self : MonitorRun) : Except MonitorValueError Unit :=
  failIf (self.finishedAt.isSome ≠ self.status.isTerminal ∨
    self.finishedAt.any (· < self.startedAt) ∨
    self.durationMs.any (i64Max < ·) ∨
    decide (self.source = .sdk) ≠ self.checkInId.isSome ∨
    self.httpStatus.any (fun status => ¬ (100 ≤ status ∧ status ≤ 599)) ∨
    ((self.httpStatus.isSome ∨ self.uptimeFailure.isSome) ∧
      (self.source ≠ .scheduler ∨ !self.status.isTerminal))) .invalidRun

structure MonitorUpdate where
  definition : Option MonitorDefinition
  run : MonitorRun
deriving DecidableEq

def MonitorUpdate.validate (self : MonitorUpdate) : Except MonitorValueError Unit := do
  self.run.validate
  match self.definition with
  | none => return ()
  | some definition =>
      definition.validate
      failIf (definition.id ≠ self.run.monitorId ∨ definition.projectId ≠ self.run.projectId)
        .invalidRun

end MetricBackend
