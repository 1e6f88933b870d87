import MetricBackend.PortsNotifications

/-! The deliveries of the Mongo notification store, `mongo/src/notifications.rs`: the claim is one
`find_one_and_update` guarded by the due time its candidate was read with, the completions are updates
guarded by the pending status. -/

namespace MetricBackend.MongoNotifications

structure DeliveryCollections where
  notifications : NotificationStore
  destinations : Table NotificationDestinationId NotificationDestination
  /-- Held in the memory of the process. -/
  fairnessCursor : Option (ProjectId × NotificationDestinationId)

def DeliveryCollections.deliveries (store : DeliveryCollections) : Deliveries :=
  store.notifications.deliveries

def DeliveryCollections.withDelivery (store : DeliveryCollections) (id : NotificationDeliveryId)
    (row : NotificationDelivery) : DeliveryCollections :=
  { store with
    notifications := { store.notifications with deliveries := store.deliveries.insert id row } }

/-! ### Claims -/

def dueDeliveries (store : DeliveryCollections) (now : Timestamp) (scanLimit : Nat) :
    List (NotificationDeliveryId × NotificationDelivery) :=
  ((store.deliveries.toList.filter fun row => row.2.isDue now).insertionSort
    NotificationDelivery.dueNoLater).take scanLimit

def chooseFairCandidate (candidates : List (NotificationDeliveryId × NotificationDelivery))
    (last : Option (ProjectId × NotificationDestinationId)) :
    Option (NotificationDeliveryId × NotificationDelivery) :=
  (((candidates.find? fun row => last.all fun key =>
        row.2.projectId ≠ key.1 ∧ row.2.destinationId ≠ key.2).or
      (candidates.find? fun row => last.all fun key => row.2.projectId ≠ key.1)).or
    (candidates.find? fun row => last.all fun key => row.2.destinationId ≠ key.2)).or
  candidates.head?

/-- The attempts of a document are a 64-bit count, those of a delivery a 32-bit one. -/
def decodeDelivery (id : NotificationDeliveryId) (document : NotificationDelivery) :
    Except NotificationStoreError NotificationDelivery := do
  failIf (2 ^ 32 ≤ document.attempts) .invalidData
  return { document with id := id }

/-- The claim handed to the worker, read after the document was updated. -/
def claimResult (store : DeliveryCollections) (id : NotificationDeliveryId)
    (document : NotificationDelivery) (now : Timestamp) :
    Except NotificationStoreError (Option ClaimedNotificationDelivery) := do
  let destination ← store.destinations[document.destinationId]?.elim (.error .invalidData) .ok
  let delivery ← decodeDelivery id document
  return some ⟨delivery, { destination with id := document.destinationId }, delivery.attempts, now⟩

/-- `claim_due_inner`, run without another update between its read and its write. -/
def claimDue (store : DeliveryCollections) (now leaseUntil : Timestamp) (scanLimit : Nat) :
    DeliveryCollections × Except NotificationStoreError (Option ClaimedNotificationDelivery) :=
  if ¬ (1 ≤ scanLimit ∧ scanLimit ≤ 1000) ∨ leaseUntil ≤ now then (store, .error .invalidData)
  else match chooseFairCandidate (dueDeliveries store now scanLimit) store.fairnessCursor with
    | none => (store, .ok none)
    | some (id, row) =>
        let store := store.withDelivery id (row.claimed leaseUntil)
        ({ store with fairnessCursor := some (row.projectId, row.destinationId) },
          claimResult store id (row.claimed leaseUntil) now)

theorem mem_of_chooseFairCandidate
    {candidates : List (NotificationDeliveryId × NotificationDelivery)}
    {last : Option (ProjectId × NotificationDestinationId)}
    {candidate : NotificationDeliveryId × NotificationDelivery}
    (h : chooseFairCandidate candidates last = some candidate) : candidate ∈ candidates := by
  simp only [chooseFairCandidate, Option.or_eq_some_iff] at h
  rcases h with ((h | ⟨-, h⟩) | ⟨-, h⟩) | ⟨-, h⟩
  · exact List.mem_of_find?_eq_some h
  · exact List.mem_of_find?_eq_some h
  · exact List.mem_of_find?_eq_some h
  · exact List.mem_of_head? h

theorem of_mem_dueDeliveries {store : DeliveryCollections} {now : Timestamp} {scanLimit : Nat}
    {row : NotificationDeliveryId × NotificationDelivery}
    (h : row ∈ dueDeliveries store now scanLimit) :
    store.deliveries[row.1]? = some row.2 ∧ row.2.isDue now = true := by
  have hmem := (List.mem_insertionSort _).mp (List.mem_of_mem_take h)
  have hfilter := List.mem_filter.mp hmem
  exact ⟨Table.mem_toList.mp hfilter.1, hfilter.2⟩

theorem claimDue_effect (store : DeliveryCollections) (now leaseUntil : Timestamp) (scanLimit : Nat) :
    ClaimEffect store.deliveries (claimDue store now leaseUntil scanLimit).1.deliveries now leaseUntil
      (claimDue store now leaseUntil scanLimit).2 := by
  unfold claimDue
  by_cases hinvalid : ¬ (1 ≤ scanLimit ∧ scanLimit ≤ 1000) ∨ leaseUntil ≤ now
  · rw [if_pos hinvalid]
    exact .inl ⟨rfl, by simp⟩
  rw [if_neg hinvalid]
  cases hchosen : chooseFairCandidate (dueDeliveries store now scanLimit) store.fairnessCursor with
  | none => exact .inl ⟨rfl, by simp⟩
  | some candidate =>
      obtain ⟨id, row⟩ := candidate
      obtain ⟨hrow, hdue⟩ := of_mem_dueDeliveries (mem_of_chooseFairCandidate hchosen)
      refine .inr ⟨id, row, hrow, hdue, not_le.mp (not_or.mp hinvalid).2, rfl, ?_⟩
      intro claim hclaim
      simp only [claimResult, decodeDelivery, bind_eq_ok, failIf_eq_ok, pure_eq_ok] at hclaim
      obtain ⟨destination, -, delivery, ⟨-, -, rfl⟩, heq⟩ := hclaim
      cases heq
      exact ⟨rfl, rfl⟩

/-! ### Completions -/

/-- An update by identity that matches the pending document only. -/
def updatePending (store : DeliveryCollections) (id : NotificationDeliveryId)
    (write : NotificationDelivery → NotificationDelivery) : DeliveryCollections :=
  match store.deliveries[id]? with
  | none => store
  | some row => if row.status = .pending then store.withDelivery id (write row) else store

def terminalUpdate (store : DeliveryCollections) (id : NotificationDeliveryId)
    (status : NotificationDeliveryStatus) (terminalAt deleteAt : Timestamp) (error : Option Text) :
    DeliveryCollections :=
  updatePending store id fun row => row.terminal status terminalAt deleteAt error

def markDelivered (store : DeliveryCollections) (id : NotificationDeliveryId)
    (deliveredAt deleteAt : Timestamp) : DeliveryCollections × Except NotificationStoreError Unit :=
  (terminalUpdate store id .delivered deliveredAt deleteAt none, .ok ())

def scheduleRetry (store : DeliveryCollections) (id : NotificationDeliveryId)
    (nextAttemptAt : Timestamp) (errorCode : Text) :
    DeliveryCollections × Except NotificationStoreError Unit :=
  match validateError errorCode with
  | .error error => (store, .error error)
  | .ok () => (updatePending store id fun row => row.rescheduled nextAttemptAt errorCode, .ok ())

def markDead (store : DeliveryCollections) (id : NotificationDeliveryId)
    (deadAt deleteAt : Timestamp) (errorCode : Text) :
    DeliveryCollections × Except NotificationStoreError Unit :=
  match validateError errorCode with
  | .error error => (store, .error error)
  | .ok () => (terminalUpdate store id .dead deadAt deleteAt (some errorCode), .ok ())

theorem updatePending_effect (store : DeliveryCollections) (id : NotificationDeliveryId)
    (completion : Completion) :
    CompletionEffect store.deliveries (updatePending store id (·.completed completion)).deliveries id
      completion := by
  unfold updatePending
  cases hrow : store.deliveries[id]? with
  | none => exact .inl rfl
  | some row =>
      by_cases hpending : row.status = .pending
      · simp only [if_pos hpending]
        exact .inr ⟨row, hrow, hpending, rfl⟩
      · simp only [if_neg hpending]
        exact .inl rfl

theorem scheduleRetry_effect (store : DeliveryCollections) (id : NotificationDeliveryId)
    (nextAttemptAt : Timestamp) (errorCode : Text) :
    CompletionEffect store.deliveries (scheduleRetry store id nextAttemptAt errorCode).1.deliveries id
      (.retry nextAttemptAt errorCode) := by
  unfold scheduleRetry
  cases validateError errorCode with
  | error error => exact .inl rfl
  | ok _ => exact updatePending_effect store id (.retry nextAttemptAt errorCode)

theorem markDead_effect (store : DeliveryCollections) (id : NotificationDeliveryId)
    (deadAt deleteAt : Timestamp) (errorCode : Text) :
    CompletionEffect store.deliveries (markDead store id deadAt deleteAt errorCode).1.deliveries id
      (.dead deadAt deleteAt errorCode) := by
  unfold markDead
  cases validateError errorCode with
  | error error => exact .inl rfl
  | ok _ => exact updatePending_effect store id (.dead deadAt deleteAt errorCode)

/-! ### Other operations -/

inductive Operation where
  | enqueueDelivery (delivery : NotificationDelivery)
  | upsertDestination (destination : NotificationDestination)

/-- `replace_one` with `upsert` writes a destination whatever project held its identity. -/
def operate (store : DeliveryCollections) : Operation → DeliveryCollections
  | .enqueueDelivery delivery =>
      { store with notifications := (enqueueDelivery store.notifications delivery).1 }
  | .upsertDestination destination =>
      { store with destinations := store.destinations.insert destination.id destination }

theorem enqueueDelivery_effect (store : NotificationStore) (delivery : NotificationDelivery) :
    OtherEffect store.deliveries (enqueueDelivery store delivery).1.deliveries := by
  unfold enqueueDelivery
  cases hencoded : encodeDelivery delivery with
  | error error =>
      dsimp only
      exact .refl _
  | ok document =>
      dsimp only
      simp only [encodeDelivery, bind_eq_ok, failIf_eq_ok, pure_eq_ok] at hencoded
      obtain ⟨-, -, rfl⟩ := hencoded
      exact (OtherEffect.refl _).insertIfNew _ rfl

theorem operate_effect (store : DeliveryCollections) (operation : Operation) :
    OtherEffect store.deliveries (operate store operation).deliveries := by
  cases operation with
  | enqueueDelivery delivery => exact enqueueDelivery_effect store.notifications delivery
  | upsertDestination destination => exact .refl _

def deliveryStore : DeliveryStore where
  State := DeliveryCollections
  Other := Operation
  deliveries := DeliveryCollections.deliveries
  claimDue := claimDue
  markDelivered := markDelivered
  scheduleRetry := scheduleRetry
  markDead := markDead
  other := operate
  claim_effect := claimDue_effect
  delivered_effect store id deliveredAt deleteAt :=
    updatePending_effect store id (.delivered deliveredAt deleteAt)
  retry_effect := scheduleRetry_effect
  dead_effect := markDead_effect
  other_effect := operate_effect

end MetricBackend.MongoNotifications
