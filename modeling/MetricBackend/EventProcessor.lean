import MetricBackend.PostgresMonitors
import MetricBackend.EventNormalizer
import MetricBackend.PostgresEvents

/-! The orchestration of `application/src/processor.rs` after an Event is accepted: the permit, the six
stages, and what a failure becomes. Every wait ends in one of the ways that its `select!` and its timeout
allow, so a call is a function of how its waits end. What a stage hands to the next one, the coalesced
project load and the metrics are left out. -/

namespace MetricBackend

structure ProcessorConfig where
  maxConcurrency : Nat
  maxAttempts : BitVec 32
  retryBase : Duration
  retryMax : Duration
  stageTimeout : Duration
  totalTimeout : Duration
  stateTimeout : Duration

inductive StageFailureClass where
  | temporary
  | permanent
deriving DecidableEq, Repr

structure StageFailure where
  failureClass : StageFailureClass
  code : ProcessingErrorCode
deriving DecidableEq, Repr

namespace StageFailure

def temporary (code : ProcessingErrorCode) : StageFailure := ⟨.temporary, code⟩

def permanent (code : ProcessingErrorCode) : StageFailure := ⟨.permanent, code⟩

end StageFailure

/-- The part that the processor reads. -/
structure ProcessingProject where
  projectId : ProjectId
  state : ProjectAcceptanceState
  errorEventsEnabled : Bool
deriving DecidableEq

inductive ProcessingProjectError where
  | notFound
  | invalidData
  | unavailable
deriving DecidableEq, Repr

inductive IssueServiceError where
  | invalidGroupingIdentity
  | invalidSummary
  | identityCollision
  | notFound
  | invalidData
  | unavailable
deriving DecidableEq, Repr

inductive FinalizerError where
  | invalidConfig
  | invalidBatch
  | duplicateEvent
  | invalidIdentity
  | outputTooLarge
  | identityCollision
  | unavailable
deriving DecidableEq, Repr

inductive ProcessorOutcome where
  | processed
  | retryScheduled
  | permanentlyFailed
  | staleOrCompleted
  | stateUnavailable
deriving DecidableEq, Repr

namespace EventProcessor

def hardMaxConcurrency : Nat := 4096
def hardMaxAttempts : Nat := 100
def hardMaxDuration : Duration := Duration.fromSecs (10 * 60)

/-- `ProcessorConfig::default`. -/
def defaultConfig : ProcessorConfig where
  maxConcurrency := 32
  maxAttempts := 5
  retryBase := Duration.fromSecs 1
  retryMax := Duration.fromSecs (5 * 60)
  stageTimeout := Duration.fromSecs 15
  totalTimeout := Duration.fromSecs 60
  stateTimeout := Duration.fromSecs 5

/-- The configurations that `validate` takes. -/
def valid (config : ProcessorConfig) : Bool :=
  1 ≤ config.maxConcurrency ∧ config.maxConcurrency ≤ hardMaxConcurrency
    ∧ 1 ≤ config.maxAttempts.toNat ∧ config.maxAttempts.toNat ≤ hardMaxAttempts
    ∧ ([config.retryBase, config.retryMax, config.stageTimeout, config.totalTimeout, config.stateTimeout].all
      fun duration => !duration.isZero ∧ duration ≤ hardMaxDuration)
    ∧ config.retryBase ≤ config.retryMax
    ∧ config.stageTimeout ≤ config.totalTimeout
    ∧ config.stateTimeout ≤ config.totalTimeout

/-! ### The stages -/

def mapProjectError : ProcessingProjectError → StageFailure
  | .notFound => .permanent .projectNotFound
  | .invalidData => .permanent .projectInvalidData
  | .unavailable => .temporary .projectUnavailable

def mapNormalizationError : NormalizationError → StageFailure
  | .invalidJson => .permanent .normalizationInvalidJson
  | .invalidRoot => .permanent .normalizationInvalidRoot
  | .tooComplex => .permanent .normalizationTooComplex
  | .identityFieldTooLarge => .permanent .normalizationIdentityTooLarge

def mapGroupingError : GroupingError → StageFailure
  | .unsupportedRevision => .permanent .groupingUnsupportedRevision
  | .inputLimitExceeded => .permanent .groupingInputLimit

def mapIssueError : IssueServiceError → StageFailure
  | .invalidGroupingIdentity => .permanent .issueInvalidIdentity
  | .invalidSummary => .permanent .issueInvalidSummary
  | .identityCollision | .notFound | .invalidData | .unavailable => .permanent .issueInvalidIdentity

def mapFinalizerError : FinalizerError → StageFailure
  | .unavailable => .temporary .finalizerUnavailable
  | .identityCollision => .permanent .finalizerIdentityCollision
  | .invalidConfig | .invalidBatch | .duplicateEvent | .invalidIdentity | .outputTooLarge =>
      .permanent .finalizerInvalidData

/-- How the wait for a permit ends. -/
inductive PermitEnding where
  | cancelled
  | closed
  | totalDeadline
  | acquired
deriving DecidableEq, Repr

/-- How the `select!` of a stage ends. -/
inductive StageEnding (α : Type) where
  | cancelled
  | stageDeadline
  | totalDeadline
  | returned (value : α)
deriving DecidableEq

/-- How the waits of one call of `process` end, and the clock when a failure is persisted. -/
structure Course where
  permit : PermitEnding
  project : StageEnding (Except ProcessingProjectError ProcessingProject)
  normalizer : StageEnding (Except NormalizationError Unit)
  symbolication : StageEnding SymbolicationDisposition
  grouper : StageEnding (Except GroupingError Unit)
  issueService : StageEnding (Except IssueServiceError Unit)
  finalizer : StageEnding (Except FinalizerError Unit)
  now : Timestamp

def runStage {α : Type} : StageEnding α → Except StageFailure α
  | .cancelled => .error (.temporary .cancelled)
  | .stageDeadline => .error (.temporary .stageDeadline)
  | .totalDeadline => .error (.temporary .totalDeadline)
  | .returned value => .ok value

/-- `run_stage(..).await?` and the mapped result of the stage. -/
def runFallible {ε α : Type} (ending : StageEnding (Except ε α)) (mapError : ε → StageFailure) :
    Except StageFailure α := do
  let result ← runStage ending
  result.mapError mapError

def acquirePermit : PermitEnding → Except StageFailure Unit
  | .cancelled | .closed => .error (.temporary .cancelled)
  | .totalDeadline => .error (.temporary .totalDeadline)
  | .acquired => .ok ()

def shouldRetrySymbolication (disposition : SymbolicationDisposition) (completedAttempts maximumAttempts : BitVec 32) :
    Bool :=
  disposition = .retryable ∧ min (completedAttempts.toNat + 1) (2 ^ 32 - 1) < maximumAttempts.toNat

def execute (config : ProcessorConfig) (pending : PendingEvent) (course : Course) : Except StageFailure Unit := do
  let project ← runFallible course.project mapProjectError
  failIf (project.projectId ≠ pending.event.projectId) (.permanent .projectInvalidData)
  failIf (project.state ≠ .active) (.permanent .projectFenced)
  failIf (!project.errorEventsEnabled) (.permanent .errorCapabilityDisabled)
  runFallible course.normalizer mapNormalizationError
  let disposition ← runStage course.symbolication
  failIf (shouldRetrySymbolication disposition pending.attempts config.maxAttempts)
    (.temporary .symbolicationRetryable)
  runFallible course.grouper mapGroupingError
  runFallible course.issueService mapIssueError
  runFallible course.finalizer mapFinalizerError

/-- What the permit and the stages of a call come to. -/
def attempt (config : ProcessorConfig) (pending : PendingEvent) (course : Course) : Except StageFailure Unit := do
  acquirePermit course.permit
  execute config pending course

/-! ### Failures -/

def retryDelay (config : ProcessorConfig) (attempts : Nat) : Duration :=
  min ((config.retryBase.checkedMul (2 ^ min (attempts - 1) 31)).getD config.retryMax) config.retryMax

def retryAt (now : Timestamp) (attempts : Nat) (config : ProcessorConfig) : Option Timestamp :=
  let millis : Int := (retryDelay config attempts).asMillis
  if (i64Max : Int) < millis ∨ (i64Max : Int) < now.unixMillis + millis then none
  else (Timestamp.fromUnixMillis (now.unixMillis + millis)).toOption

/-- `write_failure`. -/
def writeFailure (pending : PendingEvent) (failure : StageFailure) (newAttempts : BitVec 32)
    (retryAt : Option Timestamp) : ProcessingFailure where
  key := pending.key
  expectedAttempts := pending.attempts
  newAttempts := newAttempts
  code := failure.code
  disposition := (retryAt.map .retryAt).getD .permanentlyFailed

/-- `persist_failure`, up to the call of the store. -/
def persistFailure (config : ProcessorConfig) (pending : PendingEvent) (now : Timestamp) (failure : StageFailure) :
    ProcessingFailure :=
  if 2 ^ 32 ≤ pending.attempts.toNat + 1 then
    writeFailure pending (.permanent .retryExhausted) (BitVec.allOnes 32) none
  else
    let newAttempts := pending.attempts + 1
    if config.maxAttempts ≤ newAttempts ∧ failure.failureClass = .temporary then
      writeFailure pending { failure with failureClass := .permanent } newAttempts none
    else if failure.failureClass = .temporary then
      match retryAt now newAttempts.toNat config with
      | some time => writeFailure pending failure newAttempts (some time)
      | none => writeFailure pending (.permanent .retryExhausted) newAttempts none
    else writeFailure pending failure newAttempts none

/-- How the call of the store ends: in time, or not, and then the update may have been made all the same. -/
inductive StateEnding where
  | answered
  | lost (applied : Bool)
deriving DecidableEq, Repr

/-- The outcome of a written failure. -/
def stateOutcome (failure : ProcessingFailure) : Except ProcessingStateError ProcessingStateChange → ProcessorOutcome
  | .ok .updated =>
      match failure.disposition with
      | .retryAt _ => .retryScheduled
      | .permanentlyFailed => .permanentlyFailed
  | .ok .staleOrCompleted => .staleOrCompleted
  | .error _ => .stateUnavailable

/-- What a call leaves: its outcome, the row, and the failure that the row has taken. -/
structure Processed where
  outcome : ProcessorOutcome
  row : EventRow
  taken : Option ProcessingFailure

/-- The update of the row by the store. -/
def recordFailure (row : EventRow) (failure : ProcessingFailure) (ending : StateEnding) : Processed :=
  match PostgresEvents.recordProcessingFailure row failure with
  | .error _ => ⟨.stateUnavailable, row, none⟩
  | .ok (change, next) =>
      let taken := if change = .updated then some failure else none
      match ending with
      | .answered => ⟨stateOutcome failure (.ok change), next, taken⟩
      | .lost applied => if applied then ⟨.stateUnavailable, next, taken⟩ else ⟨.stateUnavailable, row, none⟩

def process (config : ProcessorConfig) (pending : PendingEvent) (course : Course) (ending : StateEnding)
    (row : EventRow) : Processed :=
  match attempt config pending course with
  | .ok () => ⟨.processed, row, none⟩
  | .error failure => recordFailure row (persistFailure config pending course.now failure) ending

end EventProcessor

end MetricBackend
