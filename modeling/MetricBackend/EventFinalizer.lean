import MetricBackend.EventProcessor
import MetricBackend.FinalizationCounts

/-! The finalizer of `application/src/finalizer.rs` over the store of PostgreSQL, and the batcher of
`application/src/processor.rs` in front of it. The preparation of a request and the metrics are left out. -/

namespace MetricBackend

structure FinalizerConfig where
  maxBatchEvents : Nat
  maxProcessedBodyBytes : Nat
  eventRetention : Duration
  hourlyRetention : Duration
  archiveEvents : Bool
  maxImplicitReleasesPerProjectDay : BitVec 32
  maxImplicitEnvironmentsPerProject : BitVec 32

namespace FinalizerConfig

/-- `FinalizerConfig::default`. -/
def defaultValue : FinalizerConfig where
  maxBatchEvents := 256
  maxProcessedBodyBytes := 2 * 1024 * 1024
  eventRetention := Duration.fromSecs (30 * 24 * 60 * 60)
  hourlyRetention := Duration.fromSecs (400 * 24 * 60 * 60)
  archiveEvents := false
  maxImplicitReleasesPerProjectDay := 1000
  maxImplicitEnvironmentsPerProject := 100

def hardMaxBatchEvents : Nat := 10000
def hardMaxProcessedBodyBytes : Nat := 4 * 1024 * 1024
def hardMaxRetention : Duration := Duration.fromSecs (10 * 365 * 24 * 60 * 60)

/-- The configurations that `validate` takes. -/
def valid (config : FinalizerConfig) : Bool :=
  1 ≤ config.maxBatchEvents ∧ config.maxBatchEvents ≤ hardMaxBatchEvents
    ∧ 1 ≤ config.maxProcessedBodyBytes ∧ config.maxProcessedBodyBytes ≤ hardMaxProcessedBodyBytes
    ∧ !config.eventRetention.isZero ∧ config.eventRetention ≤ hardMaxRetention
    ∧ !config.hourlyRetention.isZero ∧ config.hourlyRetention ≤ hardMaxRetention
    ∧ 0 < config.maxImplicitReleasesPerProjectDay ∧ 0 < config.maxImplicitEnvironmentsPerProject

def policy (config : FinalizerConfig) : FinalizationPolicy where
  eventRetention := config.eventRetention
  hourlyRetention := config.hourlyRetention
  archiveEvents := config.archiveEvents
  maxImplicitReleasesPerProjectDay := config.maxImplicitReleasesPerProjectDay
  maxImplicitEnvironmentsPerProject := config.maxImplicitEnvironmentsPerProject

end FinalizerConfig

structure FinalizerBatchConfig where
  channelCapacity : Nat
  maxWait : Duration
  maxEvents : Nat
  shutdownDrain : Duration

namespace EventFinalizer

open PostgresFinalization

/-! ### The finalizer -/

def validateEvent (event : FinalizeEvent) (maxBodyBytes : Nat) : Except FinalizerError Unit := do
  failIf (event.projectId ≠ event.issue.projectId ∨ event.eventId ≠ event.issue.eventId
    ∨ event.receivedAt ≠ event.issue.receivedAt ∨ event.occurredAt ≠ event.issue.occurredAt) .invalidIdentity
  failIf (maxBodyBytes < event.payload.length ∨ maxSearchTokensPerEvent < event.searchTokens.length) .outputTooLarge
  failIf (¬ event.searchTokens.Nodup) .invalidIdentity

/-- The loop over the Events of a batch, with the keys seen so far. -/
def validateEvents (maxBodyBytes : Nat) : List EventKey → List FinalizeEvent → Except FinalizerError Unit
  | _, [] => .ok ()
  | keys, event :: events => do
      failIf (event.key ∈ keys) .duplicateEvent
      validateEvent event maxBodyBytes
      validateEvents maxBodyBytes (event.key :: keys) events

def mapStoreError : FinalizationStoreError → FinalizerError
  | .invalidData => .invalidIdentity
  | .identityCollision => .identityCollision
  | .unavailable => .unavailable

/-- The checks of `Finalizer::finalize` before the store is called. -/
def validateBatch (config : FinalizerConfig) (events : List FinalizeEvent) : Except FinalizerError Unit := do
  failIf (events.isEmpty ∨ config.maxBatchEvents < events.length) .invalidBatch
  validateEvents config.maxProcessedBodyBytes [] events

/-- `Finalizer::finalize`. -/
def finalize (config : FinalizerConfig) (env : Environment) (tables : FinalizationTables) (ending : CallEnding)
    (events : List FinalizeEvent) : Except FinalizerError FinalizeResult := do
  validateBatch config events
  (answer env config.policy tables events ending).mapError mapStoreError

/-- The tables after the call: the store is called only with a batch that passes the checks. -/
def finalizedTables (config : FinalizerConfig) (env : Environment) (tables : FinalizationTables) (ending : CallEnding)
    (events : List FinalizeEvent) : FinalizationTables :=
  match validateBatch config events with
  | .ok () => executeStep env tables (.finalize config.policy events ending)
  | .error _ => tables

/-! ### The batcher -/

/-- What a request is answered. -/
abbrev FinalizerAnswer : Type := Except StageFailure Unit

/-- The one result of a batch, as all its requests get it. -/
def respond (config : FinalizerConfig) (env : Environment) (tables : FinalizationTables) (ending : CallEnding)
    (events : List FinalizeEvent) : FinalizerAnswer :=
  ((finalize config env tables ending events).map fun _ => ()).mapError EventProcessor.mapFinalizerError

/-- An answered request, with what it would have been answered in a batch of its own. -/
structure FinalizerResponse where
  event : FinalizeEvent
  answer : FinalizerAnswer
  alone : FinalizerAnswer

structure FinalizerBatcher where
  accepting : Bool
  queue : List FinalizeEvent
  tables : FinalizationTables
  responses : List FinalizerResponse

/-- Requests are sent, the task takes a batch from the front of the queue, it is closed, it gives up what is left
in the queue, and others change the tables. -/
inductive BatcherStep where
  | send (event : FinalizeEvent)
  | batch (count : Nat) (ending : CallEnding)
  | close
  | giveUp
  | other (step : FinalizationStep)

def unavailableAnswer : FinalizerAnswer := .error (.temporary .finalizerUnavailable)

/-- The requests that `finalize_one_batch` takes. -/
def taken (batching : FinalizerBatchConfig) (count : Nat) (batcher : FinalizerBatcher) : List FinalizeEvent :=
  batcher.queue.take (min count batching.maxEvents)

/-- `finalize_one_batch`. -/
def finalizeOneBatch (config : FinalizerConfig) (batching : FinalizerBatchConfig) (env : Environment)
    (batcher : FinalizerBatcher) (count : Nat) (ending : CallEnding) : FinalizerBatcher :=
  let requests := taken batching count batcher
  { batcher with
    queue := batcher.queue.drop (min count batching.maxEvents)
    tables := finalizedTables config env batcher.tables ending requests
    responses := batcher.responses ++ requests.map fun event =>
      ⟨event, respond config env batcher.tables ending requests, respond config env batcher.tables ending [event]⟩ }

/-- A request that is refused without a batch. -/
def refused (event : FinalizeEvent) : FinalizerResponse := ⟨event, unavailableAnswer, unavailableAnswer⟩

def stepBatcher (config : FinalizerConfig) (batching : FinalizerBatchConfig) (env : Environment)
    (batcher : FinalizerBatcher) : BatcherStep → FinalizerBatcher
  | .send event =>
      if batcher.accepting then { batcher with queue := batcher.queue ++ [event] }
      else { batcher with responses := batcher.responses ++ [refused event] }
  | .batch count ending => finalizeOneBatch config batching env batcher count ending
  | .close => { batcher with accepting := false }
  | .giveUp =>
      if batcher.accepting then batcher
      else { batcher with queue := [], responses := batcher.responses ++ batcher.queue.map refused }
  | .other step => { batcher with tables := executeStep env batcher.tables step }

end EventFinalizer

end MetricBackend
