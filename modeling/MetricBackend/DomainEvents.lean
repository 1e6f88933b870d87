import MetricBackend.DomainValues

/-! The accepted Event of `domain/src/lib.rs`, its key, and the pending Event and its failures of
`domain/src/processing.rs`. -/

namespace MetricBackend

/-- The twenty bytes of an Event identity: the project in four bytes, then the event. -/
structure EventKey where
  asBytes : BitVec 160
deriving DecidableEq

namespace EventKey

theorem toNat_injective : Function.Injective fun key : EventKey => key.asBytes.toNat := by
  rintro ⟨left⟩ ⟨right⟩ h
  exact congrArg _ (BitVec.eq_of_toNat_eq h)

instance : LinearOrder EventKey := LinearOrder.lift' _ toNat_injective

end EventKey

def EventKey.new (projectId : ProjectId) (eventId : EventId) : EventKey where
  asBytes := BitVec.ofInt 32 projectId.get ++ eventId.asBytes

/-- A scrubbed payload: the bytes that may be stored. -/
structure ScrubbedEventPayload where
  bytes : List (BitVec 8)
deriving DecidableEq

structure AcceptedEvent where
  projectId : ProjectId
  eventId : EventId
  receivedAt : Timestamp
  policyRevision : BitVec 64
  payload : ScrubbedEventPayload
deriving DecidableEq

structure PendingEvent where
  event : AcceptedEvent
  attempts : BitVec 32
deriving DecidableEq

namespace PendingEvent

def fresh (event : AcceptedEvent) : PendingEvent where
  event := event
  attempts := 0

def key (pending : PendingEvent) : EventKey :=
  EventKey.new pending.event.projectId pending.event.eventId

end PendingEvent

/-! ### Failures -/

inductive ProcessingErrorCode where
  | projectUnavailable
  | projectNotFound
  | projectFenced
  | errorCapabilityDisabled
  | projectInvalidData
  | cancelled
  | totalDeadline
  | stageDeadline
  | normalizationInvalidJson
  | normalizationInvalidRoot
  | normalizationTooComplex
  | normalizationIdentityTooLarge
  | symbolicationRetryable
  | groupingUnsupportedRevision
  | groupingInputLimit
  | issueInvalidIdentity
  | issueInvalidSummary
  | finalizerInvalidData
  | finalizerIdentityCollision
  | finalizerUnavailable
  | retryExhausted
deriving DecidableEq, Repr

inductive ProcessingFailureDisposition where
  | retryAt (time : Timestamp)
  | permanentlyFailed
deriving DecidableEq

structure ProcessingFailure where
  key : EventKey
  expectedAttempts : BitVec 32
  newAttempts : BitVec 32
  code : ProcessingErrorCode
  disposition : ProcessingFailureDisposition
deriving DecidableEq

inductive ProcessingStateChange where
  | updated
  | staleOrCompleted
deriving DecidableEq, Repr

inductive ProcessingStateError where
  | invalidData
  | unavailable
deriving DecidableEq, Repr

end MetricBackend
