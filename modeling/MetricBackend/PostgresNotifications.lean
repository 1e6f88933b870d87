import MetricBackend.PortsNotifications
import MetricBackend.PostgresMonitors

/-! The deliveries of the Postgres notification store, `postgres/src/notifications.rs`. An operation is
one transaction: it returns the store it commits, which is the store it began with when it fails before
the commit. -/

namespace MetricBackend.PostgresNotifications

def maxBatch : Nat := 10000
def batchBytes : Nat := 16 * 1024 * 1024

structure NotificationStore where
  projects : Table ProjectId ProjectAcceptanceState
  /-- The project of each rule. -/
  rules : Table AlertRuleId ProjectId
  destinations : Table NotificationDestinationId NotificationDestination
  deliveries : Deliveries
  lastProject : Option ProjectId
  lastDestination : Option NotificationDestinationId

def NotificationStore.isLive (store : NotificationStore) (project : ProjectId) : Bool :=
  store.projects[project]?.any (·.isLive)

/-- `guard`: a project that is not live reads as invalid data. -/
def guardProjects (store : NotificationStore) (projects : List ProjectId) :
    Except NotificationStoreError Unit :=
  failIf (¬ projects.all store.isLive) .invalidData

def bounded (value maximum : Nat) : Except NotificationStoreError Unit :=
  failIf (¬ (1 ≤ value ∧ value ≤ maximum)) .invalidData

/-! ### Enqueueing -/

def validateBatch (deliveries : List NotificationDelivery) : Except NotificationStoreError Unit := do
  failIf (maxBatch < deliveries.length) .invalidData
  failIf (batchBytes < (deliveries.map (·.payload.asBytes.length + 512)).sum) .invalidData

def sameIdentity (left right : NotificationDelivery) : Prop :=
  left.projectId = right.projectId ∧ left.issueId = right.issueId
    ∧ left.transitionId = right.transitionId ∧ left.ruleId = right.ruleId
    ∧ left.actionId = right.actionId ∧ left.destinationId = right.destinationId

instance (left right : NotificationDelivery) : Decidable (sameIdentity left right) :=
  inferInstanceAs (Decidable (_ ∧ _ ∧ _ ∧ _ ∧ _ ∧ _))

/-- One delivery of the loop that collects the batch by identity. -/
def collectUnique (unique : Deliveries) (value : NotificationDelivery) :
    Except NotificationStoreError Deliveries :=
  match unique[value.id]? with
  | some old => do
      failIf (¬ sameIdentity old value) .invalidData
      return unique
  | none => .ok (unique.insert value.id value)

/-- The columns of the `INSERT`: a pending row without a terminal time. -/
def insertedRow (value : NotificationDelivery) : NotificationDelivery :=
  { value with
    status := .pending
    lastError := none
    deliveredAt := none
    deleteAt := none }

/-- One row of the `INSERT … ON CONFLICT`: an existing row of the same identity stays as it is. -/
def insertDelivery (deliveries : Deliveries) (row : NotificationDeliveryId × NotificationDelivery) :
    Except NotificationStoreError Deliveries := do
  failIf (deliveries[row.1]?.any fun old => ¬ sameIdentity old row.2) .invalidData
  return deliveries.insertIfNew row.1 (insertedRow row.2)

/-- A rule or destination that exists belongs to the project of the delivery. -/
def ownTargets (store : NotificationStore) (value : NotificationDelivery) : Bool :=
  store.destinations[value.destinationId]?.all (·.projectId = value.projectId)
    && store.rules[value.ruleId]?.all (· = value.projectId)

def writeDeliveries (store : NotificationStore) (values : List NotificationDelivery) :
    Except NotificationStoreError Deliveries := do
  let unique ← values.foldlM collectUnique ∅
  failIf (¬ unique.toList.all fun row => ownTargets store row.2) .invalidData
  unique.toList.foldlM insertDelivery store.deliveries

def enqueued (store : NotificationStore) (values : List NotificationDelivery) :
    Except NotificationStoreError Deliveries := do
  validateBatch values
  guardProjects store (values.map (·.projectId))
  writeDeliveries store values

def enqueue (store : NotificationStore) (values : List NotificationDelivery) :
    NotificationStore × Except NotificationStoreError Unit :=
  match enqueued store values with
  | .ok deliveries => ({ store with deliveries := deliveries }, .ok ())
  | .error error => (store, .error error)

/-! ### Claims -/

/-- The candidates of `claim_delivery`: the first due rows of live projects. -/
def dueDeliveries (store : NotificationStore) (now : Timestamp) (limit : Nat) :
    List (NotificationDeliveryId × NotificationDelivery) :=
  ((store.deliveries.toList.filter fun row =>
      row.2.isDue now && store.isLive row.2.projectId).insertionSort
    NotificationDelivery.dueNoLater).take limit

def fairnessRank (store : NotificationStore) (row : NotificationDelivery) : Nat :=
  if store.lastProject ≠ some row.projectId ∧ store.lastDestination ≠ some row.destinationId then 0
  else if store.lastProject ≠ some row.projectId then 1
  else if store.lastDestination ≠ some row.destinationId then 2
  else 3

def fairerOrEqual (store : NotificationStore)
    (left right : NotificationDeliveryId × NotificationDelivery) : Prop :=
  fairnessRank store left.2 ≤ fairnessRank store right.2

instance (store : NotificationStore) : DecidableRel (fairerOrEqual store) := fun left right =>
  inferInstanceAs (Decidable (fairnessRank store left.2 ≤ fairnessRank store right.2))

/-- The destination the claim carries is the one of the delivery's own project. -/
def claimedDestination (store : NotificationStore) (row : NotificationDelivery) :
    Except NotificationStoreError NotificationDestination :=
  match store.destinations[row.destinationId]? with
  | some destination => do
      failIf (destination.projectId ≠ row.projectId) .invalidData
      return { destination with id := row.destinationId }
  | none => .error .invalidData

/-- `claim_delivery`. The ranking is stable over the due order. A missing destination is reported
after the commit, so the attempt counts. -/
def claimDelivery (store : NotificationStore) (now lease : Timestamp) (limit : Nat) :
    NotificationStore × Except NotificationStoreError (Option ClaimedNotificationDelivery) :=
  match bounded limit 1000 with
  | .error error => (store, .error error)
  | .ok () =>
      if lease ≤ now then (store, .error .invalidData)
      else match ((dueDeliveries store now limit).insertionSort (fairerOrEqual store)).head? with
        | none => (store, .ok none)
        | some (id, row) =>
            if row.attempts < 4294967295 then
              let claimed := { row.claimed lease with id := id }
              ({ store with
                  deliveries := store.deliveries.insert id (row.claimed lease)
                  lastProject := some row.projectId
                  lastDestination := some row.destinationId },
                (claimedDestination store row).map fun destination =>
                  some ⟨claimed, destination, claimed.attempts, now⟩)
            else (store, .error .invalidData)

theorem of_mem_dueDeliveries {store : NotificationStore} {now : Timestamp} {limit : Nat}
    {row : NotificationDeliveryId × NotificationDelivery} (h : row ∈ dueDeliveries store now limit) :
    store.deliveries[row.1]? = some row.2 ∧ row.2.isDue now = true := by
  have hmem := (List.mem_insertionSort _).mp (List.mem_of_mem_take h)
  have hfilter := List.mem_filter.mp hmem
  exact ⟨Table.mem_toList.mp hfilter.1, (Bool.and_eq_true _ _ ▸ hfilter.2).1⟩

theorem claimDelivery_effect (store : NotificationStore) (now lease : Timestamp) (limit : Nat) :
    ClaimEffect store.deliveries (claimDelivery store now lease limit).1.deliveries now lease
      (claimDelivery store now lease limit).2 := by
  unfold claimDelivery
  cases bounded limit 1000 with
  | error error => exact .inl ⟨rfl, by simp⟩
  | ok _ =>
      by_cases hlease : lease ≤ now
      · rw [if_pos hlease]
        exact .inl ⟨rfl, by simp⟩
      rw [if_neg hlease]
      cases hhead : ((dueDeliveries store now limit).insertionSort (fairerOrEqual store)).head? with
      | none => exact .inl ⟨rfl, by simp⟩
      | some candidate =>
          obtain ⟨id, row⟩ := candidate
          have hmem := (List.mem_insertionSort _).mp (List.mem_of_head? hhead)
          obtain ⟨hrow, hdue⟩ := of_mem_dueDeliveries hmem
          by_cases hattempts : row.attempts < 4294967295
          · simp only [if_pos hattempts]
            refine .inr ⟨id, row, hrow, hdue, not_le.mp hlease, rfl, ?_⟩
            intro claim hclaim
            obtain ⟨destination, -, heq⟩ := map_eq_ok.mp hclaim
            cases heq
            exact ⟨rfl, rfl⟩
          · simp only [if_neg hattempts]
            exact .inl ⟨rfl, by simp⟩

/-! ### Completions -/

/-- `mutate_delivery`: the error is validated first, a missing row is no error, and only a pending row
is written. -/
def mutateDelivery (store : NotificationStore) (id : NotificationDeliveryId) (error : Option Text)
    (write : NotificationDelivery → NotificationDelivery) :
    NotificationStore × Except NotificationStoreError Unit :=
  match error.elim (.ok ()) validateError with
  | .error error => (store, .error error)
  | .ok () =>
      match store.deliveries[id]? with
      | none => (store, .ok ())
      | some row =>
          match guardProjects store [row.projectId] with
          | .error error => (store, .error error)
          | .ok () =>
              if row.status = .pending then
                ({ store with deliveries := store.deliveries.insert id (write row) }, .ok ())
              else (store, .ok ())

def markDelivered (store : NotificationStore) (id : NotificationDeliveryId)
    (deliveredAt deleteAt : Timestamp) : NotificationStore × Except NotificationStoreError Unit :=
  mutateDelivery store id none fun row => row.terminal .delivered deliveredAt deleteAt none

def scheduleRetry (store : NotificationStore) (id : NotificationDeliveryId) (next : Timestamp)
    (error : Text) : NotificationStore × Except NotificationStoreError Unit :=
  mutateDelivery store id (some error) fun row => row.rescheduled next error

def markDead (store : NotificationStore) (id : NotificationDeliveryId)
    (deadAt deleteAt : Timestamp) (error : Text) :
    NotificationStore × Except NotificationStoreError Unit :=
  mutateDelivery store id (some error) fun row => row.terminal .dead deadAt deleteAt (some error)

theorem mutateDelivery_effect (store : NotificationStore) (id : NotificationDeliveryId)
    (error : Option Text) (completion : Completion) :
    CompletionEffect store.deliveries
      (mutateDelivery store id error (·.completed completion)).1.deliveries id completion := by
  unfold mutateDelivery
  cases error.elim (.ok ()) validateError with
  | error error => exact .inl rfl
  | ok _ =>
      cases hrow : store.deliveries[id]? with
      | none => exact .inl rfl
      | some row =>
          cases hguard : guardProjects store [row.projectId] with
          | error error => simp only [hguard]; exact .inl rfl
          | ok _ =>
              simp only [hguard]
              by_cases hpending : row.status = .pending
              · rw [if_pos hpending]
                exact .inr ⟨row, hrow, hpending, rfl⟩
              · rw [if_neg hpending]
                exact .inl rfl

/-! ### Other operations -/

/-- `ON CONFLICT(destination_id) DO UPDATE … WHERE project_id=EXCLUDED.project_id`. -/
def upsertDestination (store : NotificationStore) (value : NotificationDestination) :
    NotificationStore × Except NotificationStoreError Unit :=
  match guardProjects store [value.projectId] with
  | .error error => (store, .error error)
  | .ok () =>
      if store.destinations[value.id]?.all (·.projectId = value.projectId) then
        ({ store with destinations := store.destinations.insert value.id value }, .ok ())
      else (store, .error .invalidData)

/-- Operations beside the claims and completions, of this store and of the project store. -/
inductive Operation where
  | enqueue (values : List NotificationDelivery)
  | upsertDestination (value : NotificationDestination)
  | setProjectState (project : ProjectId) (state : ProjectAcceptanceState)

def operate (store : NotificationStore) : Operation → NotificationStore
  | .enqueue values => (enqueue store values).1
  | .upsertDestination value => (upsertDestination store value).1
  | .setProjectState project state => { store with projects := store.projects.insert project state }

theorem writeDeliveries_effect {store : NotificationStore} {values : List NotificationDelivery}
    {deliveries : Deliveries} (h : writeDeliveries store values = .ok deliveries) :
    OtherEffect store.deliveries deliveries := by
  simp only [writeDeliveries, bind_eq_ok, failIf_eq_ok] at h
  obtain ⟨unique, -, -, -, hfold⟩ := h
  refine foldlM_ok_induction (OtherEffect store.deliveries) _ _ _ hfold (.refl _) ?_
  intro before row after _ hbefore hinsert
  simp only [insertDelivery, bind_eq_ok, failIf_eq_ok, pure_eq_ok] at hinsert
  obtain ⟨-, -, rfl⟩ := hinsert
  exact hbefore.insertIfNew row.1 rfl

theorem operate_effect (store : NotificationStore) (operation : Operation) :
    OtherEffect store.deliveries (operate store operation).deliveries := by
  cases operation with
  | enqueue values =>
      simp only [operate, enqueue]
      split
      · rename_i deliveries hwritten
        simp only [enqueued, bind_eq_ok] at hwritten
        obtain ⟨-, -, -, -, hwritten⟩ := hwritten
        exact writeDeliveries_effect hwritten
      · exact .refl _
  | upsertDestination value =>
      simp only [operate, upsertDestination]
      cases guardProjects store [value.projectId] with
      | error error => exact .refl _
      | ok _ =>
          simp only
          split_ifs
          · exact .refl _
          · exact .refl _
  | setProjectState project state => exact .refl _

def deliveryStore : DeliveryStore where
  State := NotificationStore
  Other := Operation
  deliveries := NotificationStore.deliveries
  claimDue := claimDelivery
  markDelivered := markDelivered
  scheduleRetry := scheduleRetry
  markDead := markDead
  other := operate
  claim_effect := claimDelivery_effect
  delivered_effect store id deliveredAt deleteAt :=
    mutateDelivery_effect store id none (.delivered deliveredAt deleteAt)
  retry_effect store id next error := mutateDelivery_effect store id (some error) (.retry next error)
  dead_effect store id deadAt deleteAt error :=
    mutateDelivery_effect store id (some error) (.dead deadAt deleteAt error)
  other_effect := operate_effect

end MetricBackend.PostgresNotifications
