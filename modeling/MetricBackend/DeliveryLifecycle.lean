import MetricBackend.LibIndexed
import MetricBackend.DeliveryWorkers

/-! The life of a delivery over every interleaving of claims, workers and stale completions. A claim
gives its attempt a number above every earlier one and a row never counts back, so an attempt is called
once; a row that is no longer pending is never written again. -/

namespace MetricBackend.DeliveryWorkers

variable {blake3 : List (BitVec 8) → BitVec 256} {config : NotificationConfig}

/-! ### Delays -/

theorem unixMillis_of_addDuration {timestamp result : Timestamp} {duration : Duration}
    (h : addDuration timestamp duration = .ok result) :
    result.unixMillis = timestamp.unixMillis + duration.asMillis := by
  simp only [addDuration, bind_eq_ok, failIf_eq_ok, mapError_eq_ok, Timestamp.fromUnixMillis_eq_ok] at h
  obtain ⟨-, -, hresult⟩ := h
  have hmax : maxTimestampMillis < (i64Max : Int) := by norm_num [maxTimestampMillis, i64Max]
  have hle : timestamp.unixMillis + duration.asMillis ≤ i64Max := by
    by_contra hnot
    rw [min_eq_right (not_le.mp hnot).le] at hresult
    exact absurd (hresult ▸ result.inRange.2) (not_le.mpr hmax)
  rw [hresult, min_eq_left hle]

variable (blake3 config) in
theorem retryDelay_le (claim : ClaimedNotificationDelivery) :
    retryDelay blake3 claim config ≤ config.maxDelay := by
  unfold retryDelay
  exact min_le_right _ _

theorem getD_clamped_le {longest delay : Duration} (h : delay ≤ longest) (requested : Option Duration) :
    (requested.map fun value => max (min value longest) delay).getD delay ≤ longest := by
  cases requested with
  | none => exact h
  | some value => exact max_le (min_le_right _ _) h

variable (blake3 config) in
theorem backoff_le (claim : ClaimedNotificationDelivery) (retryAfter : Option Duration) :
    backoff blake3 claim config retryAfter ≤ config.maxDelay := by
  unfold backoff
  exact getD_clamped_le (retryDelay_le blake3 config claim) retryAfter

/-- A time an attempt that ended at `now` may be retried at. -/
def RetryWindow (config : NotificationConfig) (now nextAttemptAt : Timestamp) : Prop :=
  now.unixMillis ≤ nextAttemptAt.unixMillis ∧
    nextAttemptAt.unixMillis ≤ now.unixMillis + config.maxDelay.asMillis

theorem deadCompletion_eq_ok {now : Timestamp} {code : Text} {completion : Completion}
    (h : deadCompletion config now code = .ok completion) :
    ∃ deleteAt, completion = .dead now deleteAt code := by
  simp only [deadCompletion, bind_eq_ok, pure_eq_ok] at h
  obtain ⟨deleteAt, -, rfl⟩ := h
  exact ⟨deleteAt, rfl⟩

theorem refuseClaim_eq_ok {claim : ClaimedNotificationDelivery} {now : Timestamp}
    {completion : Completion} (h : refuseClaim config claim now = some (.ok completion)) :
    ∃ deleteAt code, completion = .dead now deleteAt code := by
  unfold refuseClaim at h
  split_ifs at h
  · obtain ⟨deleteAt, hdead⟩ := deadCompletion_eq_ok (Option.some.inj h)
    exact ⟨deleteAt, _, hdead⟩
  · obtain ⟨deleteAt, hdead⟩ := deadCompletion_eq_ok (Option.some.inj h)
    exact ⟨deleteAt, _, hdead⟩

/-- What an attempt writes: a success only after a 2xx receipt, a retry only within the window. -/
theorem completeAttempt_eq_ok {claim : ClaimedNotificationDelivery} {result : AttemptResult}
    {now : Timestamp} {completion : Completion}
    (h : completeAttempt blake3 config claim result now = .ok completion) :
    (∃ receipt deleteAt, result = .ok receipt ∧ isSuccess receipt = true ∧
        completion = .delivered now deleteAt) ∨
      (∃ deleteAt code, completion = .dead now deleteAt code) ∨
      ∃ nextAttemptAt code, completion = .retry nextAttemptAt code ∧
        RetryWindow config now nextAttemptAt := by
  unfold completeAttempt at h
  cases hclass : classifyResult result with
  | delivered =>
      simp only [hclass, bind_eq_ok, pure_eq_ok] at h
      obtain ⟨deleteAt, -, rfl⟩ := h
      obtain ⟨receipt, rfl, hsuccess⟩ : ∃ receipt, result = .ok receipt ∧ isSuccess receipt = true := by
        unfold classifyResult at hclass
        split at hclass <;> try cases hclass
        rename_i receipt
        refine ⟨receipt, rfl, ?_⟩
        by_contra hnot
        rw [if_neg hnot] at hclass
        split_ifs at hclass
      exact .inl ⟨receipt, deleteAt, rfl, hsuccess, rfl⟩
  | permanent code =>
      simp only [hclass] at h
      obtain ⟨deleteAt, hdead⟩ := deadCompletion_eq_ok h
      exact .inr (.inl ⟨deleteAt, code, hdead⟩)
  | retryable code retryAfter =>
      simp only [hclass] at h
      split_ifs at h
      · obtain ⟨deleteAt, hdead⟩ := deadCompletion_eq_ok h
        exact .inr (.inl ⟨deleteAt, _, hdead⟩)
      · simp only [bind_eq_ok, pure_eq_ok] at h
        obtain ⟨nextAttemptAt, hadd, rfl⟩ := h
        have hmillis := unixMillis_of_addDuration hadd
        have hle := Duration.asMillis_mono (backoff_le blake3 config claim retryAfter)
        exact .inr (.inr ⟨nextAttemptAt, code, rfl, by omega, by omega⟩)

/-! ### Rows -/

/-- A row stays, its attempts never count back, and its status changes from pending only. -/
def RowsAdvance (before after : Deliveries) : Prop :=
  ∀ (id : NotificationDeliveryId) (row : NotificationDelivery), before[id]? = some row →
    ∃ next, after[id]? = some next ∧ row.attempts ≤ next.attempts ∧
      (row.status ≠ .pending → next.status = row.status)

theorem RowsAdvance.refl (deliveries : Deliveries) : RowsAdvance deliveries deliveries :=
  fun _ row hrow => ⟨row, hrow, le_rfl, fun _ => rfl⟩

theorem RowsAdvance.insert {before : Deliveries} {id : NotificationDeliveryId}
    {row next : NotificationDelivery} (hrow : before[id]? = some row)
    (hattempts : row.attempts ≤ next.attempts) (hpending : row.status = .pending) :
    RowsAdvance before (before.insert id next) := by
  intro other stored hstored
  by_cases heq : id = other
  · subst heq
    obtain rfl := Option.some.inj (hrow.symm.trans hstored)
    exact ⟨next, Table.get_insert_self .., hattempts, fun hnot => absurd hpending hnot⟩
  · rw [Table.get_insert_of_ne _ _ heq]
    exact ⟨stored, hstored, le_rfl, fun _ => rfl⟩

theorem OtherEffect.advance {before after : Deliveries} (h : OtherEffect before after) :
    RowsAdvance before after := by
  intro id row hrow
  rcases h id with hsame | ⟨hnone, -⟩
  · exact ⟨row, hsame.trans hrow, le_rfl, fun _ => rfl⟩
  · rw [hrow] at hnone
    cases hnone

theorem CompletionEffect.advance {before after : Deliveries} {id : NotificationDeliveryId}
    {completion : Completion} (h : CompletionEffect before after id completion) :
    RowsAdvance before after := by
  rcases h with rfl | ⟨row, hrow, hpending, rfl⟩
  · exact .refl _
  · exact .insert hrow (by simp) hpending

theorem isPending_of_isDue {row : NotificationDelivery} {now : Timestamp} (h : row.isDue now = true) :
    row.status = .pending :=
  (of_decide_eq_true h).1

namespace World

variable {port : DeliveryStore} {world next : World port} {now : Timestamp}

theorem claimed_advance {store : port.State} {id : NotificationDeliveryId} {row : NotificationDelivery}
    {leaseUntil : Timestamp} (hrow : world.row? id = some row) (hdue : row.isDue now = true)
    (heffect : port.deliveries store =
      (port.deliveries world.store).insert id (row.claimed leaseUntil)) :
    RowsAdvance (port.deliveries world.store) (port.deliveries store) :=
  heffect ▸ .insert hrow (Nat.le_succ _) (isPending_of_isDue hdue)

theorem Moves.advance {step : Step port} (h : Moves blake3 config now world step next) :
    RowsAdvance (port.deliveries world.store) (port.deliveries next.store) := by
  cases h with
  | quiet _ store heffect => exact OtherEffect.advance heffect
  | lost store id row leaseUntil hrow hdue _ heffect => exact claimed_advance hrow hdue heffect
  | claimed store id row leaseUntil claim hrow hdue _ heffect => exact claimed_advance hrow hdue heffect
  | written index claim endedAt completion _ heffect => exact CompletionEffect.advance heffect
  | refused => exact .refl _
  | dropped => exact .refl _
  | started => exact .refl _
  | answered => exact .refl _
  | abandoned => exact .refl _

/-! ### Attempts -/

/-- The row of the delivery has counted the attempt. -/
def Issued (deliveries : Deliveries) (attempt : Attempt) : Prop :=
  1 ≤ attempt.2 ∧ ∃ row, deliveries[attempt.1]? = some row ∧ attempt.2 ≤ row.attempts

theorem Issued.advance {before after : Deliveries} {attempt : Attempt} (h : Issued before attempt)
    (hadvance : RowsAdvance before after) : Issued after attempt := by
  obtain ⟨hpositive, row, hrow, hle⟩ := h
  obtain ⟨next, hnext, hattempts, -⟩ := hadvance _ row hrow
  exact ⟨hpositive, next, hnext, hle.trans hattempts⟩

/-- An adapter call for the delivery returned a 2xx receipt. -/
def Succeeded (world : World port) (id : NotificationDeliveryId) : Prop :=
  ∃ number receipt, ((id, number), .ok receipt) ∈ world.answers ∧ isSuccess receipt = true

/-- What a worker that is about to write knows. -/
def Grounded (config : NotificationConfig) (succeeded : NotificationDeliveryId → Prop) (task : Task) :
    Prop :=
  match task.stage with
  | .writing _ (.delivered _ _) => succeeded task.id
  | .writing endedAt (.retry nextAttemptAt _) => RetryWindow config endedAt nextAttemptAt
  | _ => True

theorem Grounded.mono {succeeded later : NotificationDeliveryId → Prop} {task : Task}
    (h : Grounded config succeeded task) (hlater : ∀ id, succeeded id → later id) :
    Grounded config later task := by
  obtain ⟨claim, stage⟩ := task
  cases stage with
  | queued => trivial
  | calling startedAt => trivial
  | writing endedAt completion =>
      cases completion with
      | delivered deliveredAt deleteAt => exact hlater _ h
      | retry nextAttemptAt code => exact h
      | dead deadAt deleteAt code => trivial

/-- Every attempt in memory or at the adapter was issued by a claim, none twice, and what the rows and
the workers hold has its cause. -/
structure Sound (config : NotificationConfig) (start : Deliveries) (world : World port) : Prop where
  distinct : (world.tasks.map Task.attempt).Nodup
  issued : ∀ task ∈ world.tasks, Issued (port.deliveries world.store) task.attempt
  uncalled : ∀ task ∈ world.tasks, task.stage = .queued → task.attempt ∉ world.calls
  calledOnce : world.calls.Nodup
  called : ∀ call ∈ world.calls,
    Issued (port.deliveries world.store) call ∧ call.2 ≤ config.maxAttempts
  grounded : ∀ task ∈ world.tasks, Grounded config world.Succeeded task
  delivered : ∀ (id : NotificationDeliveryId) (row : NotificationDelivery),
    world.row? id = some row → row.status = .delivered →
      (start[id]?).map (·.status) = some .delivered ∨ world.Succeeded id
  retries : ∀ retry ∈ world.retries, RetryWindow config retry.now retry.nextAttemptAt

variable {start : Deliveries}

theorem Sound.ticked (h : Sound config start world) (clock : Timestamp) :
    Sound config start { world with clock := clock } :=
  ⟨h.distinct, h.issued, h.uncalled, h.calledOnce, h.called, h.grounded, h.delivered, h.retries⟩

/-- A store whose rows advanced, with no row newly delivered. -/
theorem Sound.withStore (h : Sound config start world) {store : port.State}
    (hadvance : RowsAdvance (port.deliveries world.store) (port.deliveries store))
    (hdelivered : ∀ (id : NotificationDeliveryId) (row : NotificationDelivery),
      (port.deliveries store)[id]? = some row → row.status = .delivered →
        (world.row? id).map (·.status) = some .delivered ∨ world.Succeeded id) :
    Sound config start { world with store := store } where
  distinct := h.distinct
  issued task htask := (h.issued task htask).advance hadvance
  uncalled := h.uncalled
  calledOnce := h.calledOnce
  called call hcall := ⟨(h.called call hcall).1.advance hadvance, (h.called call hcall).2⟩
  grounded := h.grounded
  delivered := by
    intro id row hrow hstatus
    rcases hdelivered id row hrow hstatus with hbefore | hsucceeded
    · obtain ⟨stored, hstored, hold⟩ := Option.map_eq_some_iff.mp hbefore
      exact h.delivered id stored hstored hold
    · exact .inr hsucceeded
  retries := h.retries

/-- A task is gone. -/
theorem Sound.dropped (h : Sound config start world) (index : Nat) :
    Sound config start { world with tasks := world.tasks.eraseIdx index } where
  distinct := nodup_map_eraseIdx h.distinct index
  issued task htask := h.issued task (List.mem_of_mem_eraseIdx htask)
  uncalled task htask := h.uncalled task (List.mem_of_mem_eraseIdx htask)
  calledOnce := h.calledOnce
  called := h.called
  grounded task htask := h.grounded task (List.mem_of_mem_eraseIdx htask)
  delivered := h.delivered
  retries := h.retries

/-- A task moved on to another stage than the queue. -/
theorem Sound.moved (h : Sound config start world) {index : Nat} {task : Task} (stage : Stage)
    (htask : world.tasks[index]? = some task) (hstage : stage ≠ .queued)
    (hgrounded : Grounded config world.Succeeded ⟨task.claim, stage⟩) :
    Sound config start { world with tasks := world.tasks.set index ⟨task.claim, stage⟩ } where
  distinct := by
    have hkeys : (world.tasks.set index ⟨task.claim, stage⟩).map Task.attempt =
        world.tasks.map Task.attempt := map_set_of_key_eq htask rfl
    exact hkeys ▸ h.distinct
  issued other hother := by
    rcases mem_of_mem_set hother with rfl | ⟨position, -, hposition⟩
    · exact h.issued task (List.mem_of_getElem? htask)
    · exact h.issued other (List.mem_of_getElem? hposition)
  uncalled other hother hqueued := by
    rcases mem_of_mem_set hother with rfl | ⟨position, -, hposition⟩
    · exact absurd hqueued hstage
    · exact h.uncalled other (List.mem_of_getElem? hposition) hqueued
  calledOnce := h.calledOnce
  called := h.called
  grounded other hother := by
    rcases mem_of_mem_set hother with rfl | ⟨position, -, hposition⟩
    · exact hgrounded
    · exact h.grounded other (List.mem_of_getElem? hposition)
  delivered := h.delivered
  retries := h.retries

theorem Succeeded.answered {id : NotificationDeliveryId} (h : world.Succeeded id)
    (answer : Attempt × AttemptResult) :
    Succeeded { world with answers := answer :: world.answers } id := by
  obtain ⟨number, receipt, hmem, hsuccess⟩ := h
  exact ⟨number, receipt, List.mem_cons_of_mem _ hmem, hsuccess⟩

theorem Sound.answered (h : Sound config start world) (answer : Attempt × AttemptResult) :
    Sound config start { world with answers := answer :: world.answers } where
  distinct := h.distinct
  issued := h.issued
  uncalled := h.uncalled
  calledOnce := h.calledOnce
  called := h.called
  grounded task htask := (h.grounded task htask).mono fun _ hid => hid.answered answer
  delivered id row hrow hstatus := (h.delivered id row hrow hstatus).imp_right (·.answered answer)
  retries := h.retries

/-- The attempt a claim issues is above every attempt the row has counted. -/
theorem not_issued_next {deliveries : Deliveries} {id : NotificationDeliveryId}
    {row : NotificationDelivery} (hrow : deliveries[id]? = some row) :
    ¬ Issued deliveries (id, row.attempts + 1) := by
  rintro ⟨-, stored, hstored, hle⟩
  obtain rfl := Option.some.inj (hrow.symm.trans hstored)
  exact Nat.not_succ_le_self _ hle

theorem Sound.queued (h : Sound config start world) {claim : ClaimedNotificationDelivery}
    (hissued : Issued (port.deliveries world.store) (claim.delivery.id, claim.attempt))
    (htasks : ∀ task ∈ world.tasks, task.attempt ≠ (claim.delivery.id, claim.attempt))
    (hcalls : (claim.delivery.id, claim.attempt) ∉ world.calls) :
    Sound config start { world with tasks := world.tasks ++ [⟨claim, .queued⟩] } where
  distinct := by
    show ((world.tasks ++ [(⟨claim, .queued⟩ : Task)]).map Task.attempt).Nodup
    rw [List.map_append, List.nodup_append]
    refine ⟨h.distinct, List.nodup_singleton _, ?_⟩
    rintro attempt hattempt other hother rfl
    obtain ⟨task, htask, rfl⟩ := List.mem_map.mp hattempt
    exact htasks task htask (List.mem_singleton.mp hother)
  issued task htask := by
    rcases List.mem_append.mp htask with hold | hnew
    · exact h.issued task hold
    · obtain rfl := List.mem_singleton.mp hnew
      exact hissued
  uncalled task htask hqueued := by
    rcases List.mem_append.mp htask with hold | hnew
    · exact h.uncalled task hold hqueued
    · obtain rfl := List.mem_singleton.mp hnew
      exact hcalls
  calledOnce := h.calledOnce
  called := h.called
  grounded task htask := by
    rcases List.mem_append.mp htask with hold | hnew
    · exact h.grounded task hold
    · obtain rfl := List.mem_singleton.mp hnew
      trivial
  delivered := h.delivered
  retries := h.retries

/-- A claim takes the row of a pending delivery. -/
theorem Sound.claimedRow (h : Sound config start world) {store : port.State}
    {id : NotificationDeliveryId} {row : NotificationDelivery} {leaseUntil : Timestamp}
    (hrow : world.row? id = some row) (hdue : row.isDue now = true)
    (heffect : port.deliveries store =
      (port.deliveries world.store).insert id (row.claimed leaseUntil)) :
    Sound config start { world with store := store } := by
  refine h.withStore (claimed_advance hrow hdue heffect) ?_
  intro other stored hstored hdelivered
  rw [heffect] at hstored
  by_cases heq : id = other
  · subst heq
    rw [Table.get_insert_self] at hstored
    obtain rfl := Option.some.inj hstored
    have hpending : row.status = .pending := isPending_of_isDue hdue
    rw [show (row.claimed leaseUntil).status = row.status from rfl, hpending] at hdelivered
    cases hdelivered
  · rw [Table.get_insert_of_ne _ _ heq] at hstored
    exact .inl (by rw [row?, hstored, Option.map_some, hdelivered])

theorem Sound.claimed (h : Sound config start world) {store : port.State}
    {id : NotificationDeliveryId} {row : NotificationDelivery} {leaseUntil : Timestamp}
    {claim : ClaimedNotificationDelivery} (hrow : world.row? id = some row)
    (hdue : row.isDue now = true)
    (heffect : port.deliveries store =
      (port.deliveries world.store).insert id (row.claimed leaseUntil))
    (hdelivery : claim.delivery = { row.claimed leaseUntil with id := id })
    (hattempt : claim.attempt = row.attempts + 1) :
    Sound config start { world with store := store, tasks := world.tasks ++ [⟨claim, .queued⟩] } := by
  have hid : claim.delivery.id = id := by rw [hdelivery]
  have hfresh := not_issued_next hrow
  refine Sound.queued (h.claimedRow hrow hdue heffect) ?_ ?_ ?_
  · rw [hid, hattempt]
    refine ⟨Nat.le_add_left _ _, row.claimed leaseUntil, ?_, le_rfl⟩
    show (port.deliveries store)[id]? = _
    rw [heffect, Table.get_insert_self]
  · intro task htask heq
    rw [hid, hattempt] at heq
    exact hfresh (heq ▸ h.issued task htask)
  · intro hcall
    rw [hid, hattempt] at hcall
    exact hfresh (h.called _ hcall).1

theorem Sound.started (h : Sound config start world) {index : Nat}
    {claim : ClaimedNotificationDelivery} (htask : world.tasks[index]? = some ⟨claim, .queued⟩)
    (hcall : refuseClaim config claim now = none) :
    Sound config start
      { world with
        tasks := world.tasks.set index ⟨claim, .calling now⟩
        calls := (claim.delivery.id, claim.attempt) :: world.calls } := by
  have hmoved := h.moved (.calling now) htask (by simp) trivial
  have hmem := List.mem_of_getElem? htask
  have hmax : claim.attempt ≤ config.maxAttempts := by
    by_contra hlt
    unfold refuseClaim at hcall
    rw [if_pos (not_le.mp hlt)] at hcall
    split_ifs at hcall
  refine ⟨hmoved.distinct, hmoved.issued, ?_, ?_, ?_, hmoved.grounded, h.delivered, h.retries⟩
  · -- another task of the same attempt would have the same index
    intro task hother hqueued
    rcases mem_of_mem_set hother with rfl | ⟨position, hne, hposition⟩
    · cases hqueued
    · have hdiffers := key_ne_of_nodup h.distinct htask hposition hne
      rw [List.mem_cons, not_or]
      exact ⟨hdiffers, h.uncalled task (List.mem_of_getElem? hposition) hqueued⟩
  · exact List.nodup_cons.mpr ⟨h.uncalled _ hmem rfl, h.calledOnce⟩
  · intro call hcalls
    rcases List.mem_cons.mp hcalls with rfl | hold
    · exact ⟨h.issued _ hmem, hmax⟩
    · exact h.called call hold

/-- The completion reaches the store: a row it delivers has its receipt, a retry its window. -/
theorem Sound.written (h : Sound config start world) {index : Nat}
    {claim : ClaimedNotificationDelivery} {endedAt : Timestamp} {completion : Completion}
    (htask : world.tasks[index]? = some ⟨claim, .writing endedAt completion⟩) {store : port.State}
    (heffect : CompletionEffect (port.deliveries world.store) (port.deliveries store)
      claim.delivery.id completion) :
    Sound config start
      { world with
        store := store
        tasks := world.tasks.eraseIdx index
        retries := world.scheduled claim.delivery.id endedAt completion ++ world.retries } := by
  have hgrounded := h.grounded _ (List.mem_of_getElem? htask)
  have hstore : Sound config start { world with store := store } := by
    refine h.withStore (CompletionEffect.advance heffect) ?_
    intro id row hrow hdelivered
    rcases heffect with hsame | ⟨stored, hstored, hpending, hinsert⟩
    · rw [hsame] at hrow
      exact .inl (by rw [row?, hrow, Option.map_some, hdelivered])
    · rw [hinsert] at hrow
      by_cases heq : claim.delivery.id = id
      · subst heq
        rw [Table.get_insert_self] at hrow
        obtain rfl := Option.some.inj hrow
        cases completion with
        | delivered deliveredAt deleteAt => exact .inr hgrounded
        | retry nextAttemptAt code =>
            rw [show (stored.completed (.retry nextAttemptAt code)).status = stored.status from rfl,
              hpending] at hdelivered
            cases hdelivered
        | dead deadAt deleteAt code => cases hdelivered
      · rw [Table.get_insert_of_ne _ _ heq] at hrow
        exact .inl (by rw [row?, hrow, Option.map_some, hdelivered])
  have hdropped := hstore.dropped index
  refine ⟨hdropped.distinct, hdropped.issued, hdropped.uncalled, h.calledOnce, hdropped.called,
    hdropped.grounded, hdropped.delivered, ?_⟩
  intro retry hretry
  rcases List.mem_append.mp hretry with hnew | hold
  · cases completion with
    | delivered deliveredAt deleteAt => cases hnew
    | dead deadAt deleteAt code => cases hnew
    | retry nextAttemptAt code =>
        unfold scheduled at hnew
        split_ifs at hnew
        · obtain rfl := List.mem_singleton.mp hnew
          exact hgrounded
        · cases hnew
  · exact h.retries retry hold

theorem Sound.moves (h : Sound config start world) {step : Step port}
    (hmoves : Moves blake3 config now world step next) :
    Sound config start next := by
  cases hmoves with
  | quiet _ store heffect =>
      refine h.withStore (OtherEffect.advance heffect) ?_
      intro id row hrow hdelivered
      rcases heffect id with hsame | ⟨-, hpending⟩
      · exact .inl (by rw [row?, ← hsame, hrow, Option.map_some, hdelivered])
      · rw [hpending row hrow] at hdelivered
        cases hdelivered
  | lost store id row leaseUntil hrow hdue _ heffect => exact h.claimedRow hrow hdue heffect
  | claimed store id row leaseUntil claim hrow hdue _ heffect hdelivery hattempt =>
      exact h.claimed hrow hdue heffect hdelivery hattempt
  | refused index claim completion htask hrefuse =>
      obtain ⟨deleteAt, code, rfl⟩ := refuseClaim_eq_ok hrefuse
      exact h.moved (.writing now (.dead now deleteAt code)) htask (by simp) trivial
  | dropped index => exact h.dropped index
  | started index claim htask hcall => exact h.started htask hcall
  | answered index claim startedAt result completion htask hcomplete =>
      refine (h.answered ((claim.delivery.id, claim.attempt), result)).moved
        (.writing now completion) htask (by simp) ?_
      rcases completeAttempt_eq_ok hcomplete with
        ⟨receipt, deleteAt, rfl, hsuccess, rfl⟩ | ⟨deleteAt, code, rfl⟩ |
        ⟨nextAttemptAt, code, rfl, hwindow⟩
      · exact ⟨claim.attempt, receipt, List.mem_cons_self .., hsuccess⟩
      · trivial
      · exact hwindow
  | abandoned index claim result =>
      exact (h.answered ((claim.delivery.id, claim.attempt), result)).dropped index
  | written index claim endedAt completion htask heffect => exact h.written htask heffect

theorem sound_initial (store : port.State) (clock : Timestamp) :
    Sound config (port.deliveries store) (initial store clock) where
  distinct := List.nodup_nil
  issued task htask := by cases htask
  uncalled task htask := by cases htask
  calledOnce := List.nodup_nil
  called call hcall := by cases hcall
  grounded task htask := by cases htask
  delivered id row hrow hdelivered := .inl (by
    show ((port.deliveries store)[id]?).map _ = _
    rw [show (port.deliveries store)[id]? = some row from hrow, Option.map_some, hdelivered])
  retries retry hretry := by cases hretry

theorem sound_run (h : Sound config start world) (actions : List (Action port)) :
    Sound config start (actions.foldl (execute blake3 config) world) := by
  induction actions generalizing world with
  | nil => exact h
  | cons action actions ih => exact ih ((h.ticked action.now).moves (execute_moves ..))

def status? (world : World port) (id : NotificationDeliveryId) : Option NotificationDeliveryStatus :=
  (world.row? id).map (·.status)

/-- The numbers of the attempts of a delivery that called the adapter. -/
def attemptsOf (world : World port) (id : NotificationDeliveryId) : List Nat :=
  (world.calls.filter (·.1 = id)).map (·.2)

theorem mem_attemptsOf {id : NotificationDeliveryId} {number : Nat} :
    number ∈ world.attemptsOf id ↔ (id, number) ∈ world.calls := by
  simp [attemptsOf]

theorem Sound.nodup_attemptsOf (h : Sound config start world) (id : NotificationDeliveryId) :
    (world.attemptsOf id).Nodup := by
  refine List.Nodup.map_on ?_ (h.calledOnce.filter _)
  intro left hleft right hright heq
  have hleft := of_decide_eq_true (List.mem_filter.mp hleft).2
  have hright := of_decide_eq_true (List.mem_filter.mp hright).2
  exact Prod.ext (hleft.trans hright.symm) heq

/-- Distinct attempts between one and the maximum are no more than the maximum. -/
theorem Sound.length_attemptsOf (h : Sound config start world) (id : NotificationDeliveryId) :
    (world.attemptsOf id).length ≤ config.maxAttempts := by
  have hsubset : world.attemptsOf id ⊆ List.range' 1 config.maxAttempts := by
    intro number hnumber
    obtain ⟨⟨hpositive, -⟩, hmax⟩ := h.called _ (mem_attemptsOf.mp hnumber)
    exact List.mem_range'_1.mpr ⟨hpositive, by omega⟩
  calc (world.attemptsOf id).length
      ≤ (List.range' 1 config.maxAttempts).length :=
        ((h.nodup_attemptsOf id).subperm hsubset).length_le
    _ = config.maxAttempts := List.length_range'

theorem status_stays {id : NotificationDeliveryId} {status : NotificationDeliveryStatus}
    (hstatus : world.status? id = some status) (hterminal : status ≠ .pending)
    (actions : List (Action port)) :
    (actions.foldl (execute blake3 config) world).status? id = some status := by
  induction actions generalizing world with
  | nil => exact hstatus
  | cons action actions ih =>
      obtain ⟨row, hrow, rfl⟩ := Option.map_eq_some_iff.mp hstatus
      obtain ⟨next, hnext, -, hkept⟩ := (execute_moves blake3 config world action).advance id row hrow
      apply ih
      show ((port.deliveries _)[id]?).map _ = _
      rw [hnext, Option.map_some, hkept hterminal]

end World

/-! ### The two stores -/

inductive Backend where
  | postgres
  | mongo

def Backend.deliveryStore : Backend → DeliveryStore
  | postgres => PostgresNotifications.deliveryStore
  | mongo => MongoNotifications.deliveryStore

/-- Whatever the order of claims, attempts and completions, and however stale a completion is: the
adapter is called at most `max_attempts` times for a delivery, each time with another attempt number, a
terminal status stays, a delivery succeeds only after a 2xx receipt, and every retry is scheduled
within the longest delay of the clock its attempt ended at. -/
theorem delivery_state_machine (blake3 : List (BitVec 8) → BitVec 256) (config : NotificationConfig)
    (backend : Backend) (store : backend.deliveryStore.State) (clock : Timestamp)
    (actions later : List (Action backend.deliveryStore)) (id : NotificationDeliveryId) :
    let before := World.initial store clock
    let world := actions.foldl (World.execute blake3 config) before
    let after := later.foldl (World.execute blake3 config) world
    (world.attemptsOf id).length ≤ config.maxAttempts ∧
      (world.attemptsOf id).Nodup ∧
      (∀ status, world.status? id = some status → status ≠ .pending →
        after.status? id = some status) ∧
      (before.status? id ≠ some .delivered → world.status? id = some .delivered →
        world.Succeeded id) ∧
      ∀ retry ∈ world.retries, RetryWindow config retry.now retry.nextAttemptAt := by
  intro before world after
  have hsound : World.Sound config (backend.deliveryStore.deliveries store) world :=
    World.sound_run (World.sound_initial store clock) actions
  refine ⟨hsound.length_attemptsOf id, hsound.nodup_attemptsOf id, ?_, ?_, hsound.retries⟩
  · intro status hstatus hterminal
    exact World.status_stays hstatus hterminal later
  · intro hbefore hdelivered
    obtain ⟨row, hrow, hstatus⟩ := Option.map_eq_some_iff.mp hdelivered
    exact (hsound.delivered id row hrow hstatus).resolve_left hbefore

end MetricBackend.DeliveryWorkers
