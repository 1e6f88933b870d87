import MetricBackend.MongoNotifications

/-! The delivery operations of the `NotificationStore` port: claiming a due delivery under a lease and
completing an attempt. The operations act on one row at a time; a store that offers them carries what
each of them can do to the table of deliveries. -/

namespace MetricBackend

/-- The fields of a destination that the dispatcher and the stores read. -/
structure NotificationDestination where
  id : NotificationDestinationId
  projectId : ProjectId
  enabled : Bool
deriving DecidableEq

structure ClaimedNotificationDelivery where
  delivery : NotificationDelivery
  destination : NotificationDestination
  attempt : Nat
  attemptedAt : Timestamp
deriving DecidableEq

/-- What a worker writes at the end of an attempt: the arguments of `mark_delivered`,
`schedule_retry` or `mark_dead` after the delivery. -/
inductive Completion where
  | delivered (deliveredAt deleteAt : Timestamp)
  | retry (nextAttemptAt : Timestamp) (errorCode : Text)
  | dead (deadAt deleteAt : Timestamp) (errorCode : Text)
deriving DecidableEq

def validateError (value : Text) : Except NotificationStoreError Unit :=
  failIf (value.isEmpty ∨ 64 < byteLength value ∨ value.any isControl) .invalidData

namespace NotificationDelivery

def isDue (now : Timestamp) (row : NotificationDelivery) : Bool :=
  row.status = .pending ∧ row.nextAttemptAt ≤ now

def claimed (row : NotificationDelivery) (leaseUntil : Timestamp) : NotificationDelivery :=
  { row with
    attempts := row.attempts + 1
    nextAttemptAt := leaseUntil }

/-- The due time of a terminal row is dropped, and reads as its terminal time. -/
def terminal (row : NotificationDelivery) (status : NotificationDeliveryStatus)
    (terminalAt deleteAt : Timestamp) (error : Option Text) : NotificationDelivery :=
  { row with
    status := status
    nextAttemptAt := terminalAt
    lastError := error.or row.lastError
    deliveredAt := if status = .delivered then some terminalAt else none
    deleteAt := some deleteAt }

def rescheduled (row : NotificationDelivery) (nextAttemptAt : Timestamp) (errorCode : Text) :
    NotificationDelivery :=
  { row with
    nextAttemptAt := nextAttemptAt
    lastError := some errorCode }

def completed (row : NotificationDelivery) : Completion → NotificationDelivery
  | .delivered deliveredAt deleteAt => row.terminal .delivered deliveredAt deleteAt none
  | .retry nextAttemptAt errorCode => row.rescheduled nextAttemptAt errorCode
  | .dead deadAt deleteAt errorCode => row.terminal .dead deadAt deleteAt (some errorCode)

@[simp] theorem completed_attempts (row : NotificationDelivery) (completion : Completion) :
    (row.completed completion).attempts = row.attempts := by
  cases completion <;> rfl

/-- The due order of the claim queries. Rows of one due time keep the order of their identities. -/
def dueNoLater (left right : NotificationDeliveryId × NotificationDelivery) : Prop :=
  left.2.nextAttemptAt ≤ right.2.nextAttemptAt

instance : DecidableRel dueNoLater := fun left right =>
  inferInstanceAs (Decidable (left.2.nextAttemptAt ≤ right.2.nextAttemptAt))

end NotificationDelivery

abbrev Deliveries : Type := Table NotificationDeliveryId NotificationDelivery

/-- What `claim_due` can do: take one due row under the lease, whether or not the claim reaches the
caller, or nothing. -/
def ClaimEffect (before after : Deliveries) (now leaseUntil : Timestamp)
    (result : Except NotificationStoreError (Option ClaimedNotificationDelivery)) : Prop :=
  (after = before ∧ ∀ claim, result ≠ .ok (some claim)) ∨
    ∃ id row, before[id]? = some row ∧ row.isDue now = true ∧ now < leaseUntil ∧
      after = before.insert id (row.claimed leaseUntil) ∧
      ∀ claim, result = .ok (some claim) →
        claim.delivery = { row.claimed leaseUntil with id := id } ∧ claim.attempt = row.attempts + 1

/-- What a completion can do: write the row while it is pending, or nothing. -/
def CompletionEffect (before after : Deliveries) (id : NotificationDeliveryId)
    (completion : Completion) : Prop :=
  after = before ∨
    ∃ row, before[id]? = some row ∧ row.status = .pending ∧
      after = before.insert id (row.completed completion)

/-- What the other operations of a store can do: add pending rows. -/
def OtherEffect (before after : Deliveries) : Prop :=
  ∀ (id : NotificationDeliveryId), after[id]? = before[id]? ∨
    before[id]? = none ∧ ∀ row ∈ after[id]?, row.status = .pending

theorem OtherEffect.refl (deliveries : Deliveries) : OtherEffect deliveries deliveries :=
  fun _ => .inl rfl

theorem OtherEffect.insertIfNew {before after : Deliveries} (h : OtherEffect before after)
    (id : NotificationDeliveryId) {row : NotificationDelivery} (hpending : row.status = .pending) :
    OtherEffect before (after.insertIfNew id row) := by
  intro other
  rw [Std.ExtTreeMap.getElem?_insertIfNew]
  by_cases hnew : compare id other = .eq ∧ id ∉ after
  · rw [if_pos hnew]
    obtain ⟨heq, habsent⟩ := hnew
    obtain rfl := compare_eq_iff_eq.mp heq
    refine .inr ⟨?_, by simpa using hpending⟩
    rcases h id with hsame | ⟨hnone, -⟩
    · rw [← hsame]
      exact Std.ExtTreeMap.getElem?_eq_none habsent
    · exact hnone
  · rw [if_neg hnew]
    exact h other

/-- A store of deliveries. -/
structure DeliveryStore where
  State : Type
  /-- The operations beside claims and completions. -/
  Other : Type
  deliveries : State → Deliveries
  claimDue : State → Timestamp → Timestamp → Nat →
    State × Except NotificationStoreError (Option ClaimedNotificationDelivery)
  markDelivered : State → NotificationDeliveryId → Timestamp → Timestamp →
    State × Except NotificationStoreError Unit
  scheduleRetry : State → NotificationDeliveryId → Timestamp → Text →
    State × Except NotificationStoreError Unit
  markDead : State → NotificationDeliveryId → Timestamp → Timestamp → Text →
    State × Except NotificationStoreError Unit
  other : State → Other → State
  claim_effect : ∀ state now leaseUntil scanLimit,
    ClaimEffect (deliveries state) (deliveries (claimDue state now leaseUntil scanLimit).1) now
      leaseUntil (claimDue state now leaseUntil scanLimit).2
  delivered_effect : ∀ state id deliveredAt deleteAt,
    CompletionEffect (deliveries state) (deliveries (markDelivered state id deliveredAt deleteAt).1)
      id (.delivered deliveredAt deleteAt)
  retry_effect : ∀ state id nextAttemptAt errorCode,
    CompletionEffect (deliveries state) (deliveries (scheduleRetry state id nextAttemptAt errorCode).1)
      id (.retry nextAttemptAt errorCode)
  dead_effect : ∀ state id deadAt deleteAt errorCode,
    CompletionEffect (deliveries state) (deliveries (markDead state id deadAt deleteAt errorCode).1)
      id (.dead deadAt deleteAt errorCode)
  other_effect : ∀ state operation, OtherEffect (deliveries state) (deliveries (other state operation))

namespace DeliveryStore

def complete (port : DeliveryStore) (state : port.State) (id : NotificationDeliveryId) :
    Completion → port.State × Except NotificationStoreError Unit
  | .delivered deliveredAt deleteAt => port.markDelivered state id deliveredAt deleteAt
  | .retry nextAttemptAt errorCode => port.scheduleRetry state id nextAttemptAt errorCode
  | .dead deadAt deleteAt errorCode => port.markDead state id deadAt deleteAt errorCode

theorem complete_effect (port : DeliveryStore) (state : port.State) (id : NotificationDeliveryId)
    (completion : Completion) :
    CompletionEffect (port.deliveries state) (port.deliveries (port.complete state id completion).1) id
      completion := by
  cases completion with
  | delivered deliveredAt deleteAt => exact port.delivered_effect state id deliveredAt deleteAt
  | retry nextAttemptAt errorCode => exact port.retry_effect state id nextAttemptAt errorCode
  | dead deadAt deleteAt errorCode => exact port.dead_effect state id deadAt deleteAt errorCode

end DeliveryStore

end MetricBackend
