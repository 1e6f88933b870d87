import MetricBackend.LibFallible
import MetricBackend.DomainFinalization

/-! The rows of `metric.error_events`, and the failures that `postgres/src/events.rs` records in them. The
blob references of an Event are left out. -/

namespace MetricBackend

/-- `processing_state`. -/
inductive ProcessingState where
  | pending
  | permanentlyFailed
  | finalized
deriving DecidableEq, Repr

/-- The columns that finalization fills. -/
structure FinalizedColumns where
  issueId : IssueId
  occurredAt : Timestamp
  level : Nat
  platform : Nat
  searchTokens : List SearchToken
  expireAt : Option Int
  archiveDue : Option Int
  releaseId : Option ReleaseId
  environmentId : Option EnvironmentId
  trace : Option (BitVec 128 × BitVec 64)
deriving DecidableEq

structure EventRow where
  projectId : ProjectId
  eventId : EventId
  receivedAt : Timestamp
  body : List (BitVec 8)
  processingState : ProcessingState
  attempts : Nat
  nextAttemptAt : Option Timestamp
  lastErrorCode : Option ProcessingErrorCode
  columns : Option FinalizedColumns
deriving DecidableEq

def EventRow.key (row : EventRow) : EventKey := EventKey.new row.projectId row.eventId

namespace PostgresEvents

def i32Max : Nat := 2 ^ 31 - 1

/-- The columns that a failure changes. -/
def failed (row : EventRow) (failure : ProcessingFailure) : EventRow :=
  match failure.disposition with
  | .retryAt time =>
      { row with
        attempts := failure.newAttempts.toNat
        nextAttemptAt := some time
        lastErrorCode := some failure.code }
  | .permanentlyFailed =>
      { row with
        processingState := .permanentlyFailed
        attempts := failure.newAttempts.toNat
        nextAttemptAt := none
        lastErrorCode := some failure.code }

/-- `record_processing_failure` on the row of the key. -/
def recordProcessingFailure (row : EventRow) (failure : ProcessingFailure) :
    Except ProcessingStateError (ProcessingStateChange × EventRow) := do
  failIf (i32Max < failure.expectedAttempts.toNat) .invalidData
  failIf (i32Max < failure.newAttempts.toNat) .invalidData
  failIf (failure.expectedAttempts.toNat + 1 ≠ failure.newAttempts.toNat) .invalidData
  if row.key = failure.key ∧ row.processingState = .pending ∧ row.attempts = failure.expectedAttempts.toNat then
    return (.updated, failed row failure)
  else return (.staleOrCompleted, row)

theorem recordProcessingFailure_eq_ok {row : EventRow} {failure : ProcessingFailure}
    {result : ProcessingStateChange × EventRow} :
    recordProcessingFailure row failure = .ok result ↔
      failure.newAttempts.toNat ≤ i32Max ∧ failure.expectedAttempts.toNat + 1 = failure.newAttempts.toNat
        ∧ result = if row.key = failure.key ∧ row.processingState = .pending
            ∧ row.attempts = failure.expectedAttempts.toNat then (.updated, failed row failure)
          else (.staleOrCompleted, row) := by
  simp only [recordProcessingFailure, bind_eq_ok, failIf_eq_ok, not_lt, not_not]
  constructor
  · rintro ⟨-, -, -, hnew, -, hnext, hresult⟩
    refine ⟨hnew, hnext, ?_⟩
    split_ifs at hresult ⊢ <;> exact (pure_eq_ok.mp hresult).symm
  · rintro ⟨hnew, hnext, rfl⟩
    refine ⟨(), by omega, (), hnew, (), hnext, ?_⟩
    split_ifs <;> rfl

end PostgresEvents

end MetricBackend
