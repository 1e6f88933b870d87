import MetricBackend.LibRuns
import MetricBackend.DeliveryLifecycle

/-! Adapter calls for one delivery that overlap in time. The lease of a claim starts when the claim is
taken, the attempt when a worker dequeues it: the lease covers the attempt only when the wait in the
queue left enough of it, and a retry written after a later claim cuts the later lease short. -/

namespace MetricBackend.DeliveryWorkers

variable {blake3 : List (BitVec 8) → BitVec 256} {config : NotificationConfig}

def Task.leaseUntil (task : Task) : Timestamp := task.claim.delivery.nextAttemptAt

/-- A call that started at `startedAt` may still run at `now`. -/
def WithinTimeout (config : NotificationConfig) (startedAt now : Timestamp) : Prop :=
  (now.unixMillis - startedAt.unixMillis) * 1000000 ≤ config.attemptTimeout.nanos

instance (startedAt now : Timestamp) : Decidable (WithinTimeout config startedAt now) :=
  inferInstanceAs (Decidable (_ ≤ _))

/-- A call that starts at `startedAt` ends before the lease. -/
def LeaseCovers (config : NotificationConfig) (startedAt leaseUntil : Timestamp) : Prop :=
  startedAt.unixMillis * 1000000 + config.attemptTimeout.nanos < leaseUntil.unixMillis * 1000000

instance (startedAt leaseUntil : Timestamp) : Decidable (LeaseCovers config startedAt leaseUntil) :=
  inferInstanceAs (Decidable (_ < _))

theorem LeaseCovers.lt {startedAt leaseUntil now : Timestamp}
    (hcovers : LeaseCovers config startedAt leaseUntil) (hwithin : WithinTimeout config startedAt now) :
    now < leaseUntil := by
  unfold LeaseCovers at hcovers
  unfold WithinTimeout at hwithin
  rw [Timestamp.lt_iff]
  omega

namespace World

variable {port : DeliveryStore} {world next : World port} {now : Timestamp}

/-- No two adapter calls in flight are for the same delivery. -/
def Disjoint (world : World port) : Prop :=
  ((world.tasks.filter Task.isCalling).map Task.id).Nodup

instance (world : World port) : Decidable world.Disjoint :=
  inferInstanceAs (Decidable (List.Nodup _))

/-- No call outlasts the attempt timeout. -/
def callWithin (config : NotificationConfig) (now : Timestamp) (task : Task) : Prop :=
  match task.stage with
  | .calling startedAt => WithinTimeout config startedAt now
  | _ => True

instance : ∀ task : Task, Decidable (callWithin config now task)
  | ⟨_, .queued⟩ => .isTrue trivial
  | ⟨_, .calling startedAt⟩ => inferInstanceAs (Decidable (WithinTimeout config startedAt now))
  | ⟨_, .writing _ _⟩ => .isTrue trivial

/-- The claim loop claims while the queue has room, and a free worker takes the first claim of the
queue. -/
def hasTurn (config : NotificationConfig) (world : World port) : Step port → Bool
  | .claim => world.tasks.countP (·.stage = .queued) < config.queueCapacity
  | .start index => world.tasks.findIdx? (·.stage = .queued) = some index ∧
      world.tasks.countP (·.stage ≠ .queued) < config.workerConcurrency
  | _ => true

/-- The steps of one dispatcher: the clock does not run back, no call outlasts the attempt timeout,
and the step has its turn. -/
def Scheduled (config : NotificationConfig) (world : World port) (action : Action port) : Prop :=
  world.clock ≤ action.now ∧ (∀ task ∈ world.tasks, callWithin config action.now task) ∧
    world.hasTurn config action.step = true

instance (action : Action port) : Decidable (Scheduled config world action) :=
  inferInstanceAs (Decidable (_ ∧ _ ∧ _))

/-- The lease of a claim that is dequeued still covers a whole attempt, and a retry is written before
its delivery is claimed again. -/
def timely (config : NotificationConfig) (world : World port) (action : Action port) : Bool :=
  match action.step with
  | .start index =>
      match world.tasks[index]? with
      | some ⟨claim, .queued⟩ => LeaseCovers config action.now claim.delivery.nextAttemptAt
      | _ => true
  | .write index =>
      match world.tasks[index]? with
      | some ⟨claim, .writing _ (.retry _ _)⟩ =>
          (world.row? claim.delivery.id).map (·.attempts) = some claim.attempt
      | _ => true
  | _ => true

/-- While its lease runs, a claim is the newest of its delivery, and a pending row is due when the
lease ends. -/
def Newest (world : World port) (task : Task) : Prop :=
  ∃ row, world.row? task.id = some row ∧ row.attempts = task.claim.attempt ∧
    (row.status = .pending → row.nextAttemptAt = task.leaseUntil)

/-- A call in flight started early enough for its lease, and has not timed out. -/
def Covered (config : NotificationConfig) (world : World port) (task : Task) : Prop :=
  ∀ startedAt, task.stage = .calling startedAt →
    LeaseCovers config startedAt task.leaseUntil ∧ WithinTimeout config startedAt world.clock

structure Exclusive (config : NotificationConfig) (world : World port) : Prop where
  newest : ∀ task ∈ world.tasks, world.clock < task.leaseUntil → world.Newest task
  covered : ∀ task ∈ world.tasks, world.Covered config task

theorem Exclusive.newest_of_calling (h : Exclusive config world) {task : Task}
    (htask : task ∈ world.tasks) (hcalling : task.isCalling = true) : world.Newest task := by
  obtain ⟨claim, stage⟩ := task
  cases stage with
  | queued => cases hcalling
  | writing endedAt completion => cases hcalling
  | calling startedAt =>
      obtain ⟨hcovers, hwithin⟩ := h.covered _ htask startedAt rfl
      exact h.newest _ htask (hcovers.lt hwithin)

/-- Two calls in flight for one delivery would be the same attempt. -/
theorem Exclusive.disjoint (h : Exclusive config world)
    (hdistinct : (world.tasks.map Task.attempt).Nodup) : world.Disjoint := by
  have hnodup : (world.tasks.filter Task.isCalling).Nodup :=
    (List.Nodup.of_map _ hdistinct).filter _
  refine hnodup.map_on ?_
  intro left hleft right hright hid
  obtain ⟨hleft, hcalling⟩ := List.mem_filter.mp hleft
  obtain ⟨hright, hcalling'⟩ := List.mem_filter.mp hright
  obtain ⟨row, hrow, hattempts, -⟩ := h.newest_of_calling hleft hcalling
  obtain ⟨stored, hstored, hattempts', -⟩ := h.newest_of_calling hright hcalling'
  rw [← hid, hrow] at hstored
  obtain rfl := Option.some.inj hstored
  exact List.inj_on_of_nodup_map hdistinct hleft hright
    (Prod.ext hid (hattempts.symm.trans hattempts'))

theorem Newest.congr {task : Task} {later : World port} (h : world.Newest task)
    (hrow : later.row? task.id = world.row? task.id) : later.Newest task := by
  obtain ⟨row, hstored, hattempts, hlease⟩ := h
  exact ⟨row, hrow.trans hstored, hattempts, hlease⟩

/-- A row that is due has no claim whose lease still runs. -/
theorem Exclusive.not_live_of_due (h : Exclusive config world) {id : NotificationDeliveryId}
    {row : NotificationDelivery} (hrow : world.row? id = some row)
    (hdue : row.isDue world.clock = true) {task : Task} (htask : task ∈ world.tasks)
    (hid : task.id = id) : ¬ world.clock < task.leaseUntil := by
  intro hlive
  obtain ⟨stored, hstored, -, hlease⟩ := h.newest task htask hlive
  rw [hid, hrow] at hstored
  obtain rfl := Option.some.inj hstored
  have hnext : row.nextAttemptAt ≤ world.clock := (of_decide_eq_true hdue).2
  rw [hlease (isPending_of_isDue hdue)] at hnext
  exact absurd hlive (not_lt.mpr hnext)

theorem Exclusive.claimedRow (h : Exclusive config world) {store : port.State}
    {id : NotificationDeliveryId} {row : NotificationDelivery} {leaseUntil : Timestamp}
    (hrow : world.row? id = some row) (hdue : row.isDue world.clock = true)
    (heffect : port.deliveries store =
      (port.deliveries world.store).insert id (row.claimed leaseUntil)) :
    Exclusive config { world with store := store } where
  newest task htask hlive := by
    have hne : id ≠ task.id := fun heq => h.not_live_of_due hrow hdue htask heq.symm hlive
    refine (h.newest task htask hlive).congr ?_
    show (port.deliveries store)[task.id]? = _
    rw [heffect, Table.get_insert_of_ne _ _ hne]
    rfl
  covered := h.covered

theorem Exclusive.dropped (h : Exclusive config world) (index : Nat) :
    Exclusive config { world with tasks := world.tasks.eraseIdx index } where
  newest task htask := h.newest task (List.mem_of_mem_eraseIdx htask)
  covered task htask := h.covered task (List.mem_of_mem_eraseIdx htask)

theorem Exclusive.moved (h : Exclusive config world) {index : Nat} {task : Task} (stage : Stage)
    (htask : world.tasks[index]? = some task) (hcovered : world.Covered config ⟨task.claim, stage⟩) :
    Exclusive config { world with tasks := world.tasks.set index ⟨task.claim, stage⟩ } where
  newest other hother hlive := by
    rcases mem_of_mem_set hother with rfl | ⟨position, -, hposition⟩
    · exact h.newest task (List.mem_of_getElem? htask) hlive
    · exact h.newest other (List.mem_of_getElem? hposition) hlive
  covered other hother := by
    rcases mem_of_mem_set hother with rfl | ⟨position, -, hposition⟩
    · exact hcovered
    · exact h.covered other (List.mem_of_getElem? hposition)

/-- The completion of a claim that is still the newest, or one that ends the delivery. -/
theorem Exclusive.written (h : Exclusive config world)
    (hdistinct : (world.tasks.map Task.attempt).Nodup) {index : Nat}
    {claim : ClaimedNotificationDelivery} {endedAt : Timestamp} {completion : Completion}
    (htask : world.tasks[index]? = some ⟨claim, .writing endedAt completion⟩) {store : port.State}
    (heffect : CompletionEffect (port.deliveries world.store) (port.deliveries store)
      claim.delivery.id completion)
    (hnewest : ∀ nextAttemptAt code, completion = .retry nextAttemptAt code →
      (world.row? claim.delivery.id).map (·.attempts) = some claim.attempt)
    (retries : List ScheduledRetry) :
    Exclusive config
      { world with store := store, tasks := world.tasks.eraseIdx index, retries := retries } where
  newest task hmem hlive := by
    obtain ⟨position, hne, hposition⟩ := mem_of_mem_eraseIdx_ne hmem
    have hbefore := h.newest task (List.mem_of_getElem? hposition) hlive
    rcases heffect with hsame | ⟨stored, hstored, hpending, hinsert⟩
    · refine hbefore.congr ?_
      show (port.deliveries store)[task.id]? = _
      rw [hsame]
      rfl
    by_cases hid : claim.delivery.id = task.id
    · obtain ⟨row, hrow, hattempts, hlease⟩ := hbefore
      rw [row?, ← hid, hstored] at hrow
      obtain rfl := Option.some.inj hrow
      refine ⟨stored.completed completion, ?_, (stored.completed_attempts _).trans hattempts, ?_⟩
      · show (port.deliveries store)[task.id]? = _
        rw [hinsert, ← hid, Table.get_insert_self]
      · intro hstill
        cases completion with
        | delivered deliveredAt deleteAt => cases hstill
        | dead deadAt deleteAt code => cases hstill
        | retry nextAttemptAt code =>
            have hnumber := hnewest nextAttemptAt code rfl
            rw [row?, hstored, Option.map_some, Option.some.injEq] at hnumber
            have hsame : task.attempt = (claim.delivery.id, claim.attempt) :=
              Prod.ext hid.symm (hattempts.symm.trans hnumber)
            exact absurd hsame (key_ne_of_nodup hdistinct htask hposition hne)
    · refine hbefore.congr ?_
      show (port.deliveries store)[task.id]? = _
      rw [hinsert, Table.get_insert_of_ne _ _ hid]
      rfl
  covered task hmem := h.covered task (List.mem_of_mem_eraseIdx hmem)

/-- The clock moves on: fewer leases run, and no call outlasted its timeout. -/
theorem Exclusive.ticked (h : Exclusive config world) (hclock : world.clock ≤ now)
    (hwithin : ∀ task ∈ world.tasks, callWithin config now task) :
    Exclusive config { world with clock := now } where
  newest task htask hlive := h.newest task htask (hclock.trans_lt hlive)
  covered task htask startedAt hcalling := by
    have hcall := hwithin task htask
    unfold callWithin at hcall
    rw [hcalling] at hcall
    exact ⟨(h.covered task htask startedAt hcalling).1, hcall⟩

theorem exclusive_initial (store : port.State) (clock : Timestamp) :
    Exclusive config (initial store clock) where
  newest task htask := by cases htask
  covered task htask := by cases htask

theorem withinTimeout_self (startedAt : Timestamp) : WithinTimeout config startedAt startedAt := by
  unfold WithinTimeout
  omega

theorem Exclusive.moves (h : Exclusive config world)
    (hdistinct : (world.tasks.map Task.attempt).Nodup) {step : Step port}
    (htimely : timely config world ⟨world.clock, step⟩ = true)
    (hmoves : Moves blake3 config world.clock world step next) : Exclusive config next := by
  cases hmoves with
  | quiet _ store heffect =>
      refine ⟨fun task htask hlive => ?_, h.covered⟩
      have hbefore := h.newest task htask hlive
      refine hbefore.congr ?_
      rcases heffect task.id with hsame | ⟨hnone, -⟩
      · exact hsame
      · obtain ⟨row, hrow, -⟩ := hbefore
        rw [row?, hnone] at hrow
        cases hrow
  | lost store id row leaseUntil hrow hdue _ heffect => exact h.claimedRow hrow hdue heffect
  | claimed store id row leaseUntil claim hrow hdue _ heffect hdelivery hattempt =>
      have hclaimed := h.claimedRow hrow hdue heffect
      refine ⟨fun task htask hlive => ?_, fun task htask => ?_⟩
      · rcases List.mem_append.mp htask with hold | hnew
        · exact hclaimed.newest task hold hlive
        · obtain rfl := List.mem_singleton.mp hnew
          refine ⟨row.claimed leaseUntil, ?_, hattempt.symm, fun _ => ?_⟩
          · show (port.deliveries store)[claim.delivery.id]? = _
            rw [hdelivery, heffect, Table.get_insert_self]
          · show leaseUntil = claim.delivery.nextAttemptAt
            rw [hdelivery]
            rfl
      · rcases List.mem_append.mp htask with hold | hnew
        · exact hclaimed.covered task hold
        · obtain rfl := List.mem_singleton.mp hnew
          intro startedAt hcalling
          cases hcalling
  | refused index claim completion htask hrefuse =>
      exact h.moved (.writing world.clock completion) htask (fun _ hcalling => by cases hcalling)
  | dropped index => exact h.dropped index
  | started index claim htask hcall =>
      have hmoved := h.moved (.calling world.clock) htask (by
        intro startedAt hcalling
        cases hcalling
        simp only [timely, htask, decide_eq_true_eq] at htimely
        exact ⟨htimely, withinTimeout_self _⟩)
      exact ⟨hmoved.newest, hmoved.covered⟩
  | answered index claim startedAt result completion htask hcomplete =>
      have hmoved :=
        h.moved (.writing world.clock completion) htask (fun _ hcalling => by cases hcalling)
      exact ⟨hmoved.newest, hmoved.covered⟩
  | abandoned index claim result => exact ⟨(h.dropped index).newest, (h.dropped index).covered⟩
  | written index claim endedAt completion htask heffect =>
      refine h.written hdistinct htask heffect ?_ _
      rintro nextAttemptAt code rfl
      simpa only [timely, htask, decide_eq_true_eq] using htimely

def Guarded (config : NotificationConfig) (start : Deliveries) (world : World port) : Prop :=
  Sound config start world ∧ Exclusive config world

theorem Guarded.disjoint {start : Deliveries} (h : Guarded config start world) : world.Disjoint :=
  h.2.disjoint h.1.distinct

theorem guarded_execute {start : Deliveries} (world : World port) (action : Action port)
    (h : Guarded config start world)
    (hallowed : Scheduled config world action ∧ timely config world action = true) :
    Guarded config start (world.execute blake3 config action) := by
  obtain ⟨hsound, hexclusive⟩ := h
  obtain ⟨⟨hclock, hwithin, -⟩, htimely⟩ := hallowed
  have hmoves := execute_moves blake3 config world action
  refine ⟨(hsound.ticked action.now).moves hmoves, ?_⟩
  exact (hexclusive.ticked hclock hwithin).moves hsound.distinct htimely hmoves

end World

/-- A dispatcher that dequeues every claim while its lease still covers a whole attempt, and writes
every retry before its delivery is claimed again, never has two adapter calls for one delivery in
flight. -/
theorem adapter_calls_disjoint (blake3 : List (BitVec 8) → BitVec 256) (config : NotificationConfig)
    (backend : Backend) (store : backend.deliveryStore.State) (clock : Timestamp)
    (actions : List (Action backend.deliveryStore))
    (hscheduled : Throughout (World.execute blake3 config) (World.Scheduled config)
      (World.initial store clock) actions)
    (htimely : Throughout (World.execute blake3 config)
      (fun world action => world.timely config action = true) (World.initial store clock) actions) :
    Always (World.execute blake3 config) World.Disjoint (World.initial store clock) actions := by
  exact always_of_throughout (fun _ => World.Guarded.disjoint) World.guarded_execute actions _
    ⟨World.sound_initial store clock, World.exclusive_initial store clock⟩ (hscheduled.and htimely)

/-! ### A claim that waits out its lease -/

/-- Two workers, and a lease one second longer than the attempt. -/
def tightConfig : NotificationConfig where
  queueCapacity := 2
  workerConcurrency := 2
  transitionBatchSize := 100
  dueScanLimit := 100
  pollInterval := .fromMillis 250
  attemptTimeout := .fromSecs 10
  attemptLease := .fromSecs 11
  maxAttempts := 8
  initialDelay := .fromSecs 5
  maxDelay := .fromSecs 3600
  deliveredRetention := .fromSecs 604800
  deadRetention := .fromSecs 2592000

def tightStart : Timestamp := ⟨1700000000000, inRange_sampleStart⟩

/-- Ten seconds later, when the first attempts end. -/
def tightAnswer : Timestamp := ⟨1700000010000, by decide⟩

/-- Eleven seconds later, when the first leases end. -/
def tightExpiry : Timestamp := ⟨1700000011000, by decide⟩

def tightProject : ProjectId := ⟨42, ProjectId.positive_fortyTwo⟩

def tightDestination : NotificationDestinationId := ⟨0x7a3c91⟩

def tightDelivery (id : NotificationDeliveryId) : NotificationDelivery where
  id := id
  projectId := tightProject
  issueId := ⟨0x51⟩
  transitionId := ⟨0x52⟩
  ruleId := ⟨0x53⟩
  actionId := tightDestination
  destinationId := tightDestination
  payload := ⟨[0x7b, 0x7d], NotificationPayload.valid_empty⟩
  status := .pending
  attempts := 0
  nextAttemptAt := tightStart
  lastError := none
  createdAt := tightStart
  deliveredAt := none
  deleteAt := none

def tightStore : PostgresNotifications.NotificationStore where
  projects := (∅ : Table ProjectId ProjectAcceptanceState).insert tightProject .active
  rules := ∅
  destinations := (∅ : Table NotificationDestinationId NotificationDestination).insert tightDestination
    ⟨tightDestination, tightProject, true⟩
  deliveries := (((∅ : Deliveries).insert ⟨1⟩ (tightDelivery ⟨1⟩)).insert ⟨2⟩
    (tightDelivery ⟨2⟩)).insert ⟨3⟩ (tightDelivery ⟨3⟩)
  lastProject := none
  lastDestination := none

def accepted : AttemptResult := .ok ⟨204, none⟩

/-- The third claim waits ten seconds for a worker. Its attempt starts one second before its lease
ends, and the delivery is claimed again while the attempt runs. -/
def tightRun : List (Action Backend.postgres.deliveryStore) := [
  ⟨tightStart, .claim⟩, ⟨tightStart, .start 0⟩, ⟨tightStart, .claim⟩, ⟨tightStart, .start 1⟩,
  ⟨tightStart, .claim⟩,
  ⟨tightAnswer, .answer 0 accepted⟩, ⟨tightAnswer, .write 0⟩, ⟨tightAnswer, .start 1⟩,
  ⟨tightAnswer, .answer 0 accepted⟩, ⟨tightAnswer, .write 0⟩,
  ⟨tightExpiry, .claim⟩, ⟨tightExpiry, .start 1⟩]

def tightWorld : World Backend.postgres.deliveryStore := World.initial tightStore tightStart

/-- The same run up to the dequeue of the third claim. -/
theorem adapter_calls_disjoint_tight :
    Always (World.execute (fun _ => 0) tightConfig) World.Disjoint tightWorld (tightRun.take 7) :=
  adapter_calls_disjoint (fun _ => 0) tightConfig .postgres tightStore tightStart (tightRun.take 7)
    (by decide) (by decide)

theorem tight_calls_overlap :
    tightConfig.accepted = true ∧
      Throughout (World.execute (fun _ => 0) tightConfig) (World.Scheduled tightConfig) tightWorld
        tightRun ∧
      ¬ Always (World.execute (fun _ => 0) tightConfig) World.Disjoint tightWorld tightRun := by
  refine ⟨by decide, by decide, ?_⟩
  intro halways
  have hlast : ¬ (tightRun.foldl (World.execute (fun _ => 0) tightConfig) tightWorld).Disjoint := by
    decide
  exact hlast halways.last

end MetricBackend.DeliveryWorkers
