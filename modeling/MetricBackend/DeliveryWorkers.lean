import MetricBackend.NotificationDispatch
import MetricBackend.PostgresNotifications
import MetricBackend.MongoDeliveries

/-! The delivery side of `NotificationDispatcher` in `application/src/notifications.rs`: the claim loop,
the queue of claims and the workers that call the delivery adapter. Metrics counters are left out. The
digest function is a parameter. -/

namespace MetricBackend

structure NotificationConfig where
  queueCapacity : Nat
  workerConcurrency : Nat
  transitionBatchSize : Nat
  dueScanLimit : Nat
  pollInterval : Duration
  attemptTimeout : Duration
  attemptLease : Duration
  maxAttempts : Nat
  initialDelay : Duration
  maxDelay : Duration
  deliveredRetention : Duration
  deadRetention : Duration

/-- The condition under which `NotificationDispatcher::new` accepts a configuration. -/
def NotificationConfig.accepted (config : NotificationConfig) : Bool :=
  ¬ (config.queueCapacity = 0 ∨ config.workerConcurrency = 0
    ∨ config.queueCapacity < config.workerConcurrency ∨ config.transitionBatchSize = 0
    ∨ config.dueScanLimit = 0 ∨ config.pollInterval.isZero ∨ config.attemptTimeout.isZero
    ∨ config.attemptLease ≤ config.attemptTimeout ∨ config.maxAttempts = 0
    ∨ config.initialDelay.isZero ∨ config.maxDelay < config.initialDelay
    ∨ config.deliveredRetention.isZero ∨ config.deadRetention < config.deliveredRetention)

structure NotificationDeliveryReceipt where
  status : Nat
  retryAfter : Option Duration
deriving DecidableEq

inductive NotificationDeliveryError where
  | rejected
  | retryable
  | timeout
  | responseTooLarge
  | invalidSecret
deriving DecidableEq, Repr

/-- What the adapter answers within the attempt timeout, or the timeout. -/
abbrev AttemptResult : Type := Except NotificationDeliveryError NotificationDeliveryReceipt

inductive DeliveryDisposition where
  | delivered
  | retryable (code : Text) (retryAfter : Option Duration)
  | permanent (code : Text)

namespace DeliveryWorkers

def isSuccess (receipt : NotificationDeliveryReceipt) : Bool :=
  200 ≤ receipt.status ∧ receipt.status < 300

def classifyResult : AttemptResult → DeliveryDisposition
  | .ok receipt =>
      if isSuccess receipt then .delivered
      else if receipt.status = 408 ∨ receipt.status = 429 ∨ 500 ≤ receipt.status then
        .retryable "http_retryable".toList receipt.retryAfter
      else .permanent "http_rejected".toList
  | .error .retryable => .retryable "network_error".toList none
  | .error .timeout => .retryable "timeout".toList none
  | .error .responseTooLarge => .retryable "response_too_large".toList none
  | .error .rejected => .permanent "provider_rejected".toList
  | .error .invalidSecret => .permanent "invalid_secret".toList

/-! ### Delays -/

def addDuration (timestamp : Timestamp) (duration : Duration) : Except NotificationError Timestamp := do
  failIf (i64Max < duration.asMillis) .invalidData
  (Timestamp.fromUnixMillis (min (timestamp.unixMillis + duration.asMillis) i64Max)).mapError
    fun _ => .invalidData

def delayMultiplier : Nat → Nat
  | 0 | 1 => 1
  | 2 => 6
  | 3 => 24
  | 4 => 120
  | 5 => 360
  | _ => 720

variable (blake3 : List (BitVec 8) → BitVec 256)

/-- Between 800 and 1200, from the first two bytes of the digest of the delivery and the attempt. -/
def jitterMilli (claim : ClaimedNotificationDelivery) : Nat :=
  let digest := blake3 (claim.delivery.id.bytes ++ bigEndian 4 claim.attempt)
  800 + (digest.extractLsb' 240 16).toNat * 400 / 65535

def retryDelay (claim : ClaimedNotificationDelivery) (config : NotificationConfig) : Duration :=
  let base := min ((config.initialDelay.checkedMul (delayMultiplier claim.attempt)).getD config.maxDelay)
    config.maxDelay
  min (Duration.fromMillis (base.asMillis * jitterMilli blake3 claim / 1000)) config.maxDelay

/-- `Retry-After` can only move the attempt later, up to the longest delay. -/
def backoff (claim : ClaimedNotificationDelivery) (config : NotificationConfig)
    (retryAfter : Option Duration) : Duration :=
  let defaultBackoff := retryDelay blake3 claim config
  (retryAfter.map fun value => max (min value config.maxDelay) defaultBackoff).getD defaultBackoff

/-! ### One attempt -/

def deadCompletion (config : NotificationConfig) (now : Timestamp) (code : Text) :
    Except NotificationError Completion := do
  let deleteAt ← addDuration now config.deadRetention
  return .dead now deleteAt code

/-- The part of `deliver_claim` before the adapter call: what it writes without one. -/
def refuseClaim (config : NotificationConfig) (claim : ClaimedNotificationDelivery) (now : Timestamp) :
    Option (Except NotificationError Completion) :=
  if ¬ claim.destination.enabled then
    some (deadCompletion config now "destination_disabled".toList)
  else if config.maxAttempts < claim.attempt then
    some (deadCompletion config now "attempts_exhausted".toList)
  else none

/-- The part of `deliver_claim` after the adapter call. -/
def completeAttempt (config : NotificationConfig) (claim : ClaimedNotificationDelivery)
    (result : AttemptResult) (now : Timestamp) : Except NotificationError Completion :=
  match classifyResult result with
  | .delivered => do
      let deleteAt ← addDuration now config.deliveredRetention
      return .delivered now deleteAt
  | .permanent code => deadCompletion config now code
  | .retryable code retryAfter =>
      if config.maxAttempts ≤ claim.attempt then
        deadCompletion config now "attempts_exhausted".toList
      else do
        let nextAttemptAt ← addDuration now (backoff blake3 claim config retryAfter)
        return .retry nextAttemptAt code

/-! ### The claim loop, the queue and the workers -/

inductive Stage where
  | queued
  | calling (startedAt : Timestamp)
  | writing (now : Timestamp) (completion : Completion)
deriving DecidableEq

/-- A claim in the memory of a dispatcher. -/
structure Task where
  claim : ClaimedNotificationDelivery
  stage : Stage
deriving DecidableEq

/-- The delivery and the number of an attempt. -/
abbrev Attempt : Type := NotificationDeliveryId × Nat

def Task.id (task : Task) : NotificationDeliveryId := task.claim.delivery.id

def Task.attempt (task : Task) : Attempt := (task.id, task.claim.attempt)

def Task.isCalling (task : Task) : Bool :=
  match task.stage with
  | .calling _ => true
  | _ => false

/-- A retry that was written: the clock at the end of the attempt and the time of the next one. -/
structure ScheduledRetry where
  id : NotificationDeliveryId
  now : Timestamp
  nextAttemptAt : Timestamp

/-- The store, the claims in memory in the order they were queued, and what happened so far: the
adapter calls, the answers to them and the retries written. -/
structure World (port : DeliveryStore) where
  store : port.State
  clock : Timestamp
  tasks : List Task
  calls : List Attempt
  answers : List (Attempt × AttemptResult)
  retries : List ScheduledRetry

inductive Step (port : DeliveryStore) where
  | claim
  | start (index : Nat)
  | answer (index : Nat) (result : AttemptResult)
  | write (index : Nat)
  | other (operation : port.Other)

/-- A step and the clock it is taken at. -/
structure Action (port : DeliveryStore) where
  now : Timestamp
  step : Step port

namespace World

variable {port : DeliveryStore}

def initial (store : port.State) (clock : Timestamp) : World port where
  store := store
  clock := clock
  tasks := []
  calls := []
  answers := []
  retries := []

def row? (world : World port) (id : NotificationDeliveryId) : Option NotificationDelivery :=
  (port.deliveries world.store)[id]?

/-- The claim loop sends a claim that the store returned to the queue. -/
def send (world : World port) (store : port.State) :
    Except NotificationStoreError (Option ClaimedNotificationDelivery) → World port
  | .ok (some claim) =>
      { world with
        store := store
        tasks := world.tasks ++ [⟨claim, .queued⟩] }
  | _ => { world with store := store }

/-- `claim_once` and the `send` after it. -/
def claim (world : World port) (config : NotificationConfig) (now : Timestamp) : World port :=
  match addDuration now config.attemptLease with
  | .error _ => world
  | .ok leaseUntil =>
      let (store, result) := port.claimDue world.store now leaseUntil config.dueScanLimit
      world.send store result

/-- A worker takes a claim off the queue and calls the adapter, unless the claim is refused. -/
def start (world : World port) (config : NotificationConfig) (now : Timestamp) (index : Nat) :
    World port :=
  match world.tasks[index]? with
  | some ⟨claim, .queued⟩ =>
      match refuseClaim config claim now with
      | some (.ok completion) =>
          { world with tasks := world.tasks.set index ⟨claim, .writing now completion⟩ }
      | some (.error _) => { world with tasks := world.tasks.eraseIdx index }
      | none =>
          { world with
            tasks := world.tasks.set index ⟨claim, .calling now⟩
            calls := (claim.delivery.id, claim.attempt) :: world.calls }
  | _ => world

/-- The adapter call ends, with an answer or the timeout. -/
def answer (world : World port) (config : NotificationConfig) (now : Timestamp) (index : Nat)
    (result : AttemptResult) : World port :=
  match world.tasks[index]? with
  | some ⟨claim, .calling _⟩ =>
      let answers := ((claim.delivery.id, claim.attempt), result) :: world.answers
      match completeAttempt blake3 config claim result now with
      | .ok completion =>
          { world with
            tasks := world.tasks.set index ⟨claim, .writing now completion⟩
            answers := answers }
      | .error _ =>
          { world with
            tasks := world.tasks.eraseIdx index
            answers := answers }
  | _ => world

/-- The retry a completion schedules: none when the row is no longer pending. -/
def scheduled (world : World port) (id : NotificationDeliveryId) (now : Timestamp) :
    Completion → List ScheduledRetry
  | .retry nextAttemptAt _ =>
      if (world.row? id).any (·.status = .pending) then [⟨id, now, nextAttemptAt⟩] else []
  | _ => []

/-- The completion reaches the store, which may refuse it. The worker is done either way. -/
def write (world : World port) (index : Nat) : World port :=
  match world.tasks[index]? with
  | some ⟨claim, .writing now completion⟩ =>
      let id := claim.delivery.id
      { world with
        store := (port.complete world.store id completion).1
        tasks := world.tasks.eraseIdx index
        retries := world.scheduled id now completion ++ world.retries }
  | _ => world

def execute (config : NotificationConfig) (world : World port) (action : Action port) : World port :=
  let world := { world with clock := action.now }
  match action.step with
  | .claim => world.claim config action.now
  | .start index => world.start config action.now index
  | .answer index result => world.answer blake3 config action.now index result
  | .write index => world.write index
  | .other operation => { world with store := port.other world.store operation }

/-- What a step can do, with what its guards and the store's operations promise. -/
inductive Moves (config : NotificationConfig) (now : Timestamp) (world : World port) :
    Step port → World port → Prop
  /-- Nothing was claimed, no task was at the stage of the step, or another operation of the store
  ran. -/
  | quiet (step : Step port) (store : port.State)
      (heffect : OtherEffect (port.deliveries world.store) (port.deliveries store)) :
      Moves config now world step { world with store := store }
  /-- A row was claimed and the claim did not reach the queue. -/
  | lost (store : port.State) (id : NotificationDeliveryId) (row : NotificationDelivery)
      (leaseUntil : Timestamp) (hrow : world.row? id = some row) (hdue : row.isDue now = true)
      (hlease : now < leaseUntil)
      (heffect : port.deliveries store =
        (port.deliveries world.store).insert id (row.claimed leaseUntil)) :
      Moves config now world .claim { world with store := store }
  | claimed (store : port.State) (id : NotificationDeliveryId) (row : NotificationDelivery)
      (leaseUntil : Timestamp) (claim : ClaimedNotificationDelivery)
      (hrow : world.row? id = some row) (hdue : row.isDue now = true) (hlease : now < leaseUntil)
      (heffect : port.deliveries store =
        (port.deliveries world.store).insert id (row.claimed leaseUntil))
      (hdelivery : claim.delivery = { row.claimed leaseUntil with id := id })
      (hattempt : claim.attempt = row.attempts + 1) :
      Moves config now world .claim
        { world with store := store, tasks := world.tasks ++ [⟨claim, .queued⟩] }
  | refused (index : Nat) (claim : ClaimedNotificationDelivery) (completion : Completion)
      (htask : world.tasks[index]? = some ⟨claim, .queued⟩)
      (hrefuse : refuseClaim config claim now = some (.ok completion)) :
      Moves config now world (.start index)
        { world with tasks := world.tasks.set index ⟨claim, .writing now completion⟩ }
  | dropped (index : Nat) :
      Moves config now world (.start index) { world with tasks := world.tasks.eraseIdx index }
  | started (index : Nat) (claim : ClaimedNotificationDelivery)
      (htask : world.tasks[index]? = some ⟨claim, .queued⟩)
      (hcall : refuseClaim config claim now = none) :
      Moves config now world (.start index)
        { world with
          tasks := world.tasks.set index ⟨claim, .calling now⟩
          calls := (claim.delivery.id, claim.attempt) :: world.calls }
  | answered (index : Nat) (claim : ClaimedNotificationDelivery) (startedAt : Timestamp)
      (result : AttemptResult) (completion : Completion)
      (htask : world.tasks[index]? = some ⟨claim, .calling startedAt⟩)
      (hcomplete : completeAttempt blake3 config claim result now = .ok completion) :
      Moves config now world (.answer index result)
        { world with
          tasks := world.tasks.set index ⟨claim, .writing now completion⟩
          answers := ((claim.delivery.id, claim.attempt), result) :: world.answers }
  | abandoned (index : Nat) (claim : ClaimedNotificationDelivery) (result : AttemptResult) :
      Moves config now world (.answer index result)
        { world with
          tasks := world.tasks.eraseIdx index
          answers := ((claim.delivery.id, claim.attempt), result) :: world.answers }
  | written (index : Nat) (claim : ClaimedNotificationDelivery) (endedAt : Timestamp)
      (completion : Completion)
      (htask : world.tasks[index]? = some ⟨claim, .writing endedAt completion⟩)
      (heffect : CompletionEffect (port.deliveries world.store)
        (port.deliveries (port.complete world.store claim.delivery.id completion).1)
        claim.delivery.id completion) :
      Moves config now world (.write index)
        { world with
          store := (port.complete world.store claim.delivery.id completion).1
          tasks := world.tasks.eraseIdx index
          retries := world.scheduled claim.delivery.id endedAt completion ++ world.retries }

variable (config : NotificationConfig) (world : World port) (now : Timestamp)

theorem Moves.stay (step : Step port) : Moves blake3 config now world step world :=
  .quiet step world.store (.refl _)

theorem send_moves (leaseUntil : Timestamp) (store : port.State)
    (result : Except NotificationStoreError (Option ClaimedNotificationDelivery))
    (heffect : ClaimEffect (port.deliveries world.store) (port.deliveries store) now leaseUntil result) :
    Moves blake3 config now world .claim (world.send store result) := by
  rcases heffect with ⟨hsame, hnone⟩ | ⟨id, row, hrow, hdue, hlease, hinsert, hresult⟩
  · have hquiet : OtherEffect (port.deliveries world.store) (port.deliveries store) := hsame ▸ .refl _
    rcases result with error | _ | claim
    · exact .quiet _ store hquiet
    · exact .quiet _ store hquiet
    · exact absurd rfl (hnone claim)
  · rcases result with error | _ | claim
    · exact .lost store id row leaseUntil hrow hdue hlease hinsert
    · exact .lost store id row leaseUntil hrow hdue hlease hinsert
    · obtain ⟨hdelivery, hattempt⟩ := hresult claim rfl
      exact .claimed store id row leaseUntil claim hrow hdue hlease hinsert hdelivery hattempt

theorem claim_moves : Moves blake3 config now world .claim (world.claim config now) := by
  unfold claim
  cases addDuration now config.attemptLease with
  | error error => exact .stay ..
  | ok leaseUntil => exact send_moves _ _ _ _ leaseUntil _ _ (port.claim_effect ..)

theorem start_moves (index : Nat) :
    Moves blake3 config now world (.start index) (world.start config now index) := by
  unfold start
  cases htask : world.tasks[index]? with
  | none => exact .stay ..
  | some task =>
      obtain ⟨claim, stage⟩ := task
      cases stage with
      | calling startedAt => exact .stay ..
      | writing endedAt completion => exact .stay ..
      | queued =>
          cases hrefuse : refuseClaim config claim now with
          | none =>
              simp only [hrefuse]
              exact .started index claim htask hrefuse
          | some refusal =>
              cases refusal with
              | error error =>
                  simp only [hrefuse]
                  exact .dropped index
              | ok completion =>
                  simp only [hrefuse]
                  exact .refused index claim completion htask hrefuse

theorem answer_moves (index : Nat) (result : AttemptResult) :
    Moves blake3 config now world (.answer index result)
      (world.answer blake3 config now index result) := by
  unfold answer
  cases htask : world.tasks[index]? with
  | none => exact .stay ..
  | some task =>
      obtain ⟨claim, stage⟩ := task
      cases stage with
      | queued => exact .stay ..
      | writing endedAt completion => exact .stay ..
      | calling startedAt =>
          cases hcomplete : completeAttempt blake3 config claim result now with
          | error error =>
              simp only [hcomplete]
              exact .abandoned index claim result
          | ok completion =>
              simp only [hcomplete]
              exact .answered index claim startedAt result completion htask hcomplete

theorem write_moves (index : Nat) :
    Moves blake3 config now world (.write index) (world.write index) := by
  unfold write
  cases htask : world.tasks[index]? with
  | none => exact .stay ..
  | some task =>
      obtain ⟨claim, stage⟩ := task
      cases stage with
      | queued => exact .stay ..
      | calling startedAt => exact .stay ..
      | writing endedAt completion =>
          exact .written index claim endedAt completion htask (port.complete_effect ..)

theorem execute_moves (action : Action port) :
    Moves blake3 config action.now { world with clock := action.now } action.step
      (world.execute blake3 config action) := by
  obtain ⟨now, step⟩ := action
  cases step with
  | claim => exact claim_moves ..
  | start index => exact start_moves ..
  | answer index result => exact answer_moves ..
  | write index => exact write_moves ..
  | other operation => exact .quiet _ _ (port.other_effect world.store operation)

end World

end DeliveryWorkers

end MetricBackend
