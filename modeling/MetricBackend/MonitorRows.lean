import MetricBackend.MonitorLifecycle

/-! What the operations of the Postgres monitor store leave in the monitor table, row by row. After
`persist` a monitor has its adopted definition with the latest run of the batch projected on it; the
workers project the runs they terminalize or record; every other row stays. -/

namespace MetricBackend.PostgresMonitors

/-! ### `project_run` -/

/-- The definition once a run has been projected on it. -/
def projectedOn (definition : MonitorDefinition) (run : MonitorRun) (next : Timestamp) :
    MonitorDefinition := { definition with
  lastRunId := some run.id
  lastStatus := some run.status
  lastCheckInAt := some run.receivedAt
  updatedAt := run.receivedAt
  nextExpectedAt := next }

/-- A run older than the last one seen leaves the monitor alone; any other is projected on it. -/
theorem projectRun_eq_ok {monitor : StoredMonitor} {run : MonitorRun}
    {projected : StoredMonitor × Bool} (h : projectRun monitor run = .ok projected) :
    (monitor.definition.lastCheckInAt.any (run.receivedAt < ·) = true ∧
        projected = (monitor, false)) ∨
      (¬ monitor.definition.lastCheckInAt.any (run.receivedAt < ·) = true ∧
        ∃ next lease, projectedNext monitor.definition run = .ok next ∧
          projected = (⟨projectedOn monitor.definition run next, lease⟩, true)) := by
  unfold projectRun at h
  split_ifs at h with holder
  · exact Or.inl ⟨holder, (Except.ok.inj h).symm⟩
  · simp only [bind_eq_ok, pure_eq_ok] at h
    obtain ⟨next, hnext, _, -, h⟩ := h
    exact Or.inr ⟨holder, next, _, hnext, h.symm⟩

theorem not_older_iff {last : Option Timestamp} {time : Timestamp} :
    ¬ last.any (time < ·) = true ↔ ∀ earlier ∈ last, earlier ≤ time := by
  cases last with
  | none => simp
  | some earlier => simp

theorem projectRun_id {monitor : StoredMonitor} {run : MonitorRun} {projected : StoredMonitor × Bool}
    (h : projectRun monitor run = .ok projected) :
    projected.1.definition.id = monitor.definition.id := by
  obtain ⟨-, rfl⟩ | ⟨-, next, lease, -, rfl⟩ := projectRun_eq_ok h
  · rfl
  · rfl

theorem projectRun_projectId {monitor : StoredMonitor} {run : MonitorRun}
    {projected : StoredMonitor × Bool} (h : projectRun monitor run = .ok projected) :
    projected.1.definition.projectId = monitor.definition.projectId := by
  obtain ⟨-, rfl⟩ | ⟨-, next, lease, -, rfl⟩ := projectRun_eq_ok h
  · rfl
  · rfl

/-! ### The loops of `persist` over monitors -/

/-- The loops know monitors under their own ids, and one that is not to be written as it is stored. -/
structure Tracked (store : MonitorStore) (state : Monitors) : Prop where
  keyed : Keyed state.known
  stored : ∀ id ∉ state.changed, ∀ row, state.known[id]? = some row → store.monitors[id]? = some row

variable {store : MonitorStore} {state resolved : Monitors}

theorem Tracked.insert (h : Tracked store state) {id : MonitorId} {row : StoredMonitor}
    (hid : row.definition.id = id) :
    Tracked store ⟨state.known.insert id row, state.changed.insert id⟩ := by
  refine ⟨h.keyed.insert hid, ?_⟩
  intro other hother found hget
  rw [Std.ExtTreeSet.mem_insert, compare_eq_iff_eq, not_or] at hother
  rw [Table.get_insert_of_ne _ _ hother.1] at hget
  exact h.stored other hother.2 found hget

theorem adoptDefinition_id {existing : Option StoredMonitor} {incoming : MonitorDefinition}
    {adopted : StoredMonitor} (h : adoptDefinition existing incoming = .ok (some adopted)) :
    adopted.definition.id = incoming.id := by
  unfold adoptDefinition at h
  split at h
  · simp only [bind_eq_ok, pure_eq_ok, Option.some.injEq] at h
    obtain ⟨_, -, rfl⟩ := h
    rfl
  · rw [bind_eq_ok] at h
    obtain ⟨_, -, h⟩ := h
    split_ifs at h
    · cases h
    · simp only [bind_eq_ok, pure_eq_ok, Option.some.injEq] at h
      obtain ⟨_, -, _, -, rfl⟩ := h
      rfl

theorem Tracked.resolveDefinition (h : Tracked store state) {update : MonitorUpdate} {next : Monitors}
    (hnext : resolveDefinition state update = .ok next) : Tracked store next := by
  unfold PostgresMonitors.resolveDefinition at hnext
  split at hnext
  · cases hnext
    exact h
  · rw [bind_eq_ok] at hnext
    obtain ⟨adopted, hadopt, hnext⟩ := hnext
    cases adopted with
    | none =>
        cases hnext
        exact h
    | some adopted =>
        cases hnext
        exact h.insert (adoptDefinition_id hadopt)

theorem projectLatest_eq_ok {projection : MonitorId × MonitorRun} {next : Monitors}
    (h : projectLatest state projection = .ok next) :
    ∃ monitor projected, state.known[projection.1]? = some monitor ∧
      projectRun monitor projection.2 = .ok projected ∧
      next = ⟨state.known.insert projection.1 projected.1,
        if projected.2 then state.changed.insert projection.1 else state.changed⟩ := by
  unfold projectLatest at h
  split at h
  · cases h
  · next monitor hmonitor =>
    simp only [bind_eq_ok, pure_eq_ok] at h
    obtain ⟨projected, hprojected, rfl⟩ := h
    exact ⟨monitor, projected, hmonitor, hprojected, rfl⟩

theorem Tracked.projectLatest (h : Tracked store state) {projection : MonitorId × MonitorRun}
    {next : Monitors} (hnext : projectLatest state projection = .ok next) : Tracked store next := by
  obtain ⟨monitor, projected, hmonitor, hprojected, rfl⟩ := projectLatest_eq_ok hnext
  have hid : projected.1.definition.id = projection.1 :=
    (projectRun_id hprojected).trans (h.keyed _ _ hmonitor)
  obtain ⟨-, rfl⟩ | ⟨-, _, _, -, rfl⟩ := projectRun_eq_ok hprojected
  · refine ⟨h.keyed.insert hid, ?_⟩
    intro id hunchanged row hget
    rw [Table.get_insert] at hget
    split_ifs at hget with heq
    · cases hget
      subst heq
      exact h.stored _ hunchanged _ hmonitor
    · exact h.stored id hunchanged row hget
  · exact h.insert hid

/-- The projection loop projects on each monitor the run that the batch has for it. -/
theorem projectLatest_get {projections : List (MonitorId × MonitorRun)}
    (hnodup : (projections.map Prod.fst).Nodup)
    (h : projections.foldlM projectLatest state = .ok resolved) (id : MonitorId) :
    (id ∉ projections.map Prod.fst → resolved.known[id]? = state.known[id]?) ∧
      ∀ run, (id, run) ∈ projections → ∃ monitor projected, state.known[id]? = some monitor ∧
        projectRun monitor run = .ok projected ∧ resolved.known[id]? = some projected.1 := by
  induction projections generalizing state with
  | nil =>
      cases h
      exact ⟨fun _ => rfl, by simp⟩
  | cons projection projections ih =>
      rw [List.foldlM_cons, bind_eq_ok] at h
      obtain ⟨next, hnext, hrest⟩ := h
      rw [List.map_cons, List.nodup_cons] at hnodup
      obtain ⟨hkept, hprojections⟩ := ih hnodup.2 hrest
      obtain ⟨monitor, projected, hmonitor, hprojected, rfl⟩ := projectLatest_eq_ok hnext
      constructor
      · intro hnotmem
        rw [List.map_cons, List.mem_cons, not_or] at hnotmem
        rw [hkept hnotmem.2, Table.get_insert_of_ne _ _ (Ne.symm hnotmem.1)]
      · intro run hmem
        rcases List.mem_cons.mp hmem with rfl | hmem
        · refine ⟨monitor, projected, hmonitor, hprojected, ?_⟩
          rw [hkept hnodup.1, Table.get_insert_self]
        · have hne : projection.1 ≠ id := by
            rintro rfl
            exact hnodup.1 (List.mem_map.mpr ⟨_, hmem, rfl⟩)
          obtain ⟨other, after, hother, hafter, hget⟩ := hprojections run hmem
          rw [Table.get_insert_of_ne _ _ hne] at hother
          exact ⟨other, after, hother, hafter, hget⟩

theorem Keyed.sublist_ids {monitors : Table MonitorId StoredMonitor} (h : Keyed monitors)
    (ids : List MonitorId) :
    List.Sublist ((ids.filterMap (monitors[·]?)).map (·.definition.id)) ids := by
  induction ids with
  | nil => simp
  | cons id ids ih =>
      cases hget : monitors[id]? with
      | none =>
          rw [List.filterMap_cons_none hget]
          exact ih.cons id
      | some row =>
          rw [List.filterMap_cons_some hget, List.map_cons, h id row hget]
          exact ih.cons_cons id

/-- The written monitors: every monitor is stored as the loops know it. -/
theorem Tracked.written (h : Tracked store state) {next : Table MonitorId StoredMonitor}
    (hnext : writeMonitors store.monitors (state.changed.toList.filterMap (state.known[·]?)) = .ok next)
    (id : MonitorId) : next[id]? = state.known[id]?.or store.monitors[id]? := by
  have hvalue : ∀ value ∈ state.changed.toList.filterMap (state.known[·]?),
      value.definition.id ∈ state.changed ∧ state.known[value.definition.id]? = some value := by
    intro value hmem
    obtain ⟨key, hkey, hget⟩ := List.mem_filterMap.mp hmem
    rw [h.keyed key value hget]
    exact ⟨Std.ExtTreeSet.mem_toList.mp hkey, hget⟩
  have hnodup : ((state.changed.toList.filterMap (state.known[·]?)).map (·.definition.id)).Nodup :=
    (nodup_toList_set _).sublist (h.keyed.sublist_ids _)
  obtain ⟨hkept, hwritten⟩ := Table.get_foldl_insert_values _ _ store.monitors hnodup id
  rw [← writeMonitors_eq_foldl hnext] at hkept hwritten
  cases hget : state.known[id]? with
  | none =>
      rw [Option.none_or]
      apply hkept
      rw [List.mem_map]
      rintro ⟨value, hmem, rfl⟩
      rw [(hvalue value hmem).2] at hget
      cases hget
  | some row =>
      rw [Option.some_or]
      by_cases hchanged : id ∈ state.changed
      · refine hwritten row ?_ (h.keyed id row hget)
        exact List.mem_filterMap.mpr ⟨id, Std.ExtTreeSet.mem_toList.mpr hchanged, hget⟩
      · rw [← h.stored id hchanged row hget]
        apply hkept
        rw [List.mem_map]
        rintro ⟨value, hmem, rfl⟩
        exact hchanged (hvalue value hmem).1

/-! ### The loops of `persist` over updates -/

/-- A merged run belongs to the monitor of the incoming run and has its outcome. -/
theorem merge_some_fields {existing : Option MonitorRun} {incoming run : MonitorRun}
    (h : merge existing incoming = .ok (some run)) :
    run.monitorId = incoming.monitorId ∧ run.status = incoming.status ∧
      run.receivedAt = incoming.receivedAt := by
  simp only [merge, bind_eq_ok] at h
  obtain ⟨_, -, h⟩ := h
  cases existing with
  | none =>
      cases h
      exact ⟨rfl, rfl, rfl⟩
  | some stored =>
      have hrun := (mergeExisting_eq_some h).2.2.2.1
      simp only [mergeExisting, bind_eq_ok, failIf_eq_ok, not_or, not_not] at h
      obtain ⟨_, ⟨-, hmonitor, -, -⟩, -⟩ := h
      rw [hrun]
      exact ⟨hmonitor, rfl, rfl⟩

theorem mergeUpdate_eq_ok {monitors : Table MonitorId StoredMonitor} {batch next : Batch}
    {update : MonitorUpdate} (h : mergeUpdate monitors batch update = .ok next) :
    ∃ incoming merged, admitRun monitors update.run = .ok incoming ∧
      merge batch.runs[incoming.id]? incoming = .ok merged ∧ next = batch.record merged := by
  simp only [mergeUpdate, bind_eq_ok, pure_eq_ok] at h
  obtain ⟨incoming, hadmit, merged, hmerge, rfl⟩ := h
  exact ⟨incoming, merged, hadmit, hmerge, rfl⟩

/-- The outcome that `persist` reports for a merge. -/
def outcomeOf : Option MonitorRun → DurableOutcome
  | none => .duplicate
  | some _ => .accepted

theorem Batch.record_outcomes (batch : Batch) (merged : Option MonitorRun) :
    (batch.record merged).outcomes = batch.outcomes ++ [outcomeOf merged] := by
  cases merged <;> rfl

theorem Batch.record_projections_of_ne (batch : Batch) {merged : Option MonitorRun} {id : MonitorId}
    (hne : ∀ run ∈ merged, run.monitorId ≠ id) :
    (batch.record merged).projections[id]? = batch.projections[id]? := by
  cases merged with
  | none => rfl
  | some run =>
      simp only [Batch.record]
      split_ifs
      · exact Table.get_insert_of_ne _ _ (hne run rfl)
      · rfl

theorem mergeUpdate_projections_of_ne {monitors : Table MonitorId StoredMonitor} {batch next : Batch}
    {update : MonitorUpdate} (h : mergeUpdate monitors batch update = .ok next) {id : MonitorId}
    (hne : update.run.monitorId ≠ id) : next.projections[id]? = batch.projections[id]? := by
  obtain ⟨incoming, merged, hadmit, hmerge, rfl⟩ := mergeUpdate_eq_ok h
  apply Batch.record_projections_of_ne
  rintro run rfl
  obtain ⟨timeoutAt, rfl⟩ := admitRun_eq_ok hadmit
  rw [(merge_some_fields hmerge).1]
  exact hne

theorem foldlM_mergeUpdate_of_ne {monitors : Table MonitorId StoredMonitor} {batch next : Batch}
    {updates : List MonitorUpdate} (h : updates.foldlM (mergeUpdate monitors) batch = .ok next)
    {id : MonitorId} (hne : ∀ update ∈ updates, update.run.monitorId ≠ id) :
    next.projections[id]? = batch.projections[id]? :=
  foldlM_ok_induction (fun state => state.projections[id]? = batch.projections[id]?) _ _ _ h rfl
    fun _ update _ hmem heq hnext => (mergeUpdate_projections_of_ne hnext (hne update hmem)).trans heq

theorem foldlM_mergeUpdate_outcomes {monitors : Table MonitorId StoredMonitor} {batch next : Batch}
    {updates : List MonitorUpdate} (h : updates.foldlM (mergeUpdate monitors) batch = .ok next) :
    ∃ outcomes, next.outcomes = batch.outcomes ++ outcomes ∧ outcomes.length = updates.length := by
  induction updates generalizing batch with
  | nil =>
      cases h
      exact ⟨[], by simp, rfl⟩
  | cons update updates ih =>
      rw [List.foldlM_cons, bind_eq_ok] at h
      obtain ⟨merged, hmerged, hrest⟩ := h
      obtain ⟨outcomes, heq, hlength⟩ := ih hrest
      obtain ⟨_, run, -, -, rfl⟩ := mergeUpdate_eq_ok hmerged
      refine ⟨outcomeOf run :: outcomes, ?_, by simp [hlength]⟩
      rw [heq, Batch.record_outcomes]
      simp

theorem resolveDefinition_of_ne {update : MonitorUpdate} {next : Monitors}
    (h : resolveDefinition state update = .ok next) {id : MonitorId}
    (hne : ∀ definition ∈ update.definition, definition.id ≠ id) :
    next.known[id]? = state.known[id]? := by
  unfold resolveDefinition at h
  split at h
  · cases h
    rfl
  · next incoming hincoming =>
    rw [bind_eq_ok] at h
    obtain ⟨adopted, -, h⟩ := h
    cases adopted with
    | none =>
        cases h
        rfl
    | some adopted =>
        cases h
        exact Table.get_insert_of_ne _ _ (hne incoming hincoming)

/-- The definition loop as it acts on the monitor of one update. -/
def resolveRow (existing : Option StoredMonitor) (update : MonitorUpdate) :
    Except SignalStoreError (Option StoredMonitor) :=
  match update.definition with
  | none => .ok existing
  | some incoming => do
      let adopted ← adoptDefinition existing incoming
      return adopted.or existing

theorem validate_definition_id {update : MonitorUpdate} (h : update.validate = .ok ())
    {definition : MonitorDefinition} (hdefinition : update.definition = some definition) :
    definition.id = update.run.monitorId := by
  simp only [MonitorUpdate.validate, hdefinition, bind_eq_ok, failIf_eq_ok, not_or, not_not] at h
  obtain ⟨_, -, _, -, hid, -⟩ := h
  exact hid

theorem foldlM_resolveDefinition_of_ne {updates : List MonitorUpdate}
    (h : updates.foldlM resolveDefinition state = .ok resolved)
    (hvalid : ∀ update ∈ updates, update.validate = .ok ()) {id : MonitorId}
    (hne : ∀ update ∈ updates, update.run.monitorId ≠ id) :
    resolved.known[id]? = state.known[id]? := by
  refine foldlM_ok_induction (fun next => next.known[id]? = state.known[id]?) _ _ _ h rfl ?_
  intro before update next hmem heq hnext
  refine (resolveDefinition_of_ne hnext ?_).trans heq
  intro definition hdefinition
  rw [validate_definition_id (hvalid update hmem) hdefinition]
  exact hne update hmem

theorem resolveDefinition_row {update : MonitorUpdate} (hvalid : update.validate = .ok ())
    (h : resolveDefinition state update = .ok resolved) :
    resolveRow state.known[update.run.monitorId]? update
      = .ok resolved.known[update.run.monitorId]? := by
  cases hdefinition : update.definition with
  | none =>
      simp only [resolveDefinition, hdefinition] at h
      cases h
      simp only [resolveRow, hdefinition]
  | some incoming =>
      simp only [resolveDefinition, hdefinition, bind_eq_ok] at h
      obtain ⟨adopted, hadopted, h⟩ := h
      simp only [resolveRow, hdefinition, bind_eq_ok]
      rw [← validate_definition_id hvalid hdefinition]
      refine ⟨adopted, hadopted, ?_⟩
      cases adopted with
      | none =>
          cases h
          rfl
      | some adopted =>
          cases h
          rw [pure_eq_ok, Table.get_insert_self, Option.some_or]

theorem admitRun_known {monitors : Table MonitorId StoredMonitor} {run admitted : MonitorRun}
    (h : admitRun monitors run = .ok admitted) :
    ∃ monitor, monitors[run.monitorId]? = some monitor ∧
      monitor.definition.projectId = run.projectId ∧
      withTimeout monitor.definition.config run = .ok admitted := by
  unfold admitRun at h
  split at h
  · cases h
  · next monitor hmonitor =>
    simp only [bind_eq_ok, failIf_eq_ok, not_not] at h
    obtain ⟨_, hproject, h⟩ := h
    exact ⟨monitor, hmonitor, hproject, h⟩

/-- The run of an update, given a deadline by its monitor, merges into `merged`. -/
def MergesTo (monitor : StoredMonitor) (run : MonitorRun) (merged : Option MonitorRun) : Prop :=
  ∃ existing incoming, monitor.definition.projectId = run.projectId ∧
    withTimeout monitor.definition.config run = .ok incoming ∧ merge existing incoming = .ok merged

theorem MergesTo.fields {monitor : StoredMonitor} {run stored : MonitorRun}
    (h : MergesTo monitor run (some stored)) :
    stored.monitorId = run.monitorId ∧ stored.status = run.status ∧
      stored.receivedAt = run.receivedAt := by
  obtain ⟨existing, incoming, -, hincoming, hmerge⟩ := h
  have hfields := merge_some_fields hmerge
  obtain ⟨timeoutAt, rfl⟩ := withTimeout_eq_ok hincoming
  exact hfields

/-! ### `persist` -/

/-- What a call of `persist` that succeeded went through. -/
structure Persisted (store : MonitorStore) (updates : List MonitorUpdate) (next : MonitorStore)
    (outcomes : List DurableOutcome) where
  loaded : Table MonitorId StoredMonitor
  resolved : Monitors
  runs : Table MonitorRunId MonitorRun
  batch : Batch
  projected : Monitors
  length_le : updates.length ≤ maxBatch
  hvalid : ∀ update ∈ updates, update.validate = .ok ()
  hlock : lockProjects store (updates.map (·.run.projectId)) = .ok ()
  hloaded : loadMonitors store (updates.map (·.run.monitorId)) false = .ok loaded
  hresolved : updates.foldlM resolveDefinition ⟨loaded, ∅⟩ = .ok resolved
  hruns : loadRuns store (updates.map (·.run.id)) = .ok runs
  hbatch : updates.foldlM (mergeUpdate resolved.known) ⟨runs, ∅, ∅, []⟩ = .ok batch
  hprojected : batch.projections.toList.foldlM projectLatest resolved = .ok projected
  hmonitors : writeMonitors store.monitors (projected.changed.toList.filterMap (projected.known[·]?))
    = .ok next.monitors
  hwritten : writeRuns store.runs (batch.changedRuns.toList.map Prod.snd) = .ok next.runs
  outcomes_eq : outcomes = batch.outcomes
  rest : next = { store with monitors := next.monitors, runs := next.runs }

theorem chargeUpdate_valid {bytes charged : Nat} {update : MonitorUpdate}
    (h : chargeUpdate bytes update = .ok charged) : update.validate = .ok () := by
  simp only [chargeUpdate, bind_eq_ok, invalid_eq_ok] at h
  obtain ⟨_, hvalid, -⟩ := h
  exact hvalid

theorem foldlM_chargeUpdate_valid {updates : List MonitorUpdate} {bytes charged : Nat}
    (h : updates.foldlM chargeUpdate bytes = .ok charged) :
    ∀ update ∈ updates, update.validate = .ok () := by
  induction updates generalizing bytes with
  | nil => simp
  | cons update updates ih =>
      rw [List.foldlM_cons, bind_eq_ok] at h
      obtain ⟨next, hnext, hrest⟩ := h
      exact List.forall_mem_cons.mpr ⟨chargeUpdate_valid hnext, ih hrest⟩

theorem persist_eq_ok {next : MonitorStore} {updates : List MonitorUpdate}
    {outcomes : List DurableOutcome} (h : persist store updates = .ok (next, outcomes)) :
    (updates = [] ∧ next = store ∧ outcomes = []) ∨ Nonempty (Persisted store updates next outcomes) := by
  unfold persist at h
  split_ifs at h with hempty
  · cases h
    exact Or.inl ⟨List.isEmpty_iff.mp hempty, rfl, rfl⟩
  · simp only [admitBatch, persistBatch, bind_eq_ok, failIf_eq_ok, pure_eq_ok] at h
    obtain ⟨_, ⟨_, hlength, _, hcharged, -⟩, _, hlock, loaded, hloaded, resolved, hresolved, runs, hruns,
      batch, hbatch, projected, hprojected, monitors, hmonitors, written, hwritten, h⟩ := h
    cases h
    exact Or.inr ⟨loaded, resolved, runs, batch, projected, by omega,
      foldlM_chargeUpdate_valid hcharged, hlock, hloaded, hresolved, hruns, hbatch, hprojected, hmonitors,
      hwritten, rfl, rfl⟩

namespace Persisted

variable {updates : List MonitorUpdate} {next : MonitorStore} {outcomes : List DurableOutcome}

theorem tracked (hkeyed : Keyed store.monitors) (self : Persisted store updates next outcomes) :
    Tracked store self.resolved ∧ Tracked store self.projected := by
  have hloaded : Tracked store ⟨self.loaded, ∅⟩ := by
    refine ⟨?_, ?_⟩
    · intro id row hget
      exact hkeyed id row (loadMonitors_sound self.hloaded hget).1
    · intro id _ row hget
      exact (loadMonitors_sound self.hloaded hget).1
  have hresolved : Tracked store self.resolved :=
    foldlM_ok_induction (Tracked store) _ _ _ self.hresolved hloaded
      fun _ _ _ _ h hnext => h.resolveDefinition hnext
  refine ⟨hresolved, ?_⟩
  exact foldlM_ok_induction (Tracked store) _ _ _ self.hprojected hresolved
    fun _ _ _ _ h hnext => h.projectLatest hnext

theorem monitors_get (hkeyed : Keyed store.monitors) (self : Persisted store updates next outcomes)
    (id : MonitorId) :
    next.monitors[id]? = self.projected.known[id]?.or store.monitors[id]? :=
  (self.tracked hkeyed).2.written self.hmonitors id

theorem keyed_next (hkeyed : Keyed store.monitors) (self : Persisted store updates next outcomes) :
    Keyed next.monitors := by
  intro id row hget
  rw [self.monitors_get hkeyed, Option.or_eq_some_iff] at hget
  rcases hget with hknown | ⟨-, hstored⟩
  · exact (self.tracked hkeyed).2.keyed id row hknown
  · exact hkeyed id row hstored

/-- A monitor that the batch has no run for is stored as it was resolved; on any other the run that
the batch has for it was projected. -/
theorem monitor_row (hkeyed : Keyed store.monitors) (self : Persisted store updates next outcomes)
    (id : MonitorId) :
    (self.batch.projections[id]? = none ∧
        next.monitors[id]? = self.resolved.known[id]?.or store.monitors[id]?) ∨
      ∃ run monitor projected, self.batch.projections[id]? = some run ∧
        self.resolved.known[id]? = some monitor ∧ projectRun monitor run = .ok projected ∧
        next.monitors[id]? = some projected.1 := by
  obtain ⟨hkept, hprojected⟩ :=
    projectLatest_get (self.batch.projections.nodup_keys_toList) self.hprojected id
  rw [self.monitors_get hkeyed]
  cases hget : self.batch.projections[id]? with
  | none =>
      refine Or.inl ⟨rfl, ?_⟩
      rw [hkept]
      intro hmem
      obtain ⟨row, hrow, rfl⟩ := List.mem_map.mp hmem
      rw [Table.mem_toList.mp hrow] at hget
      cases hget
  | some run =>
      obtain ⟨monitor, projected, hmonitor, hrun, hknown⟩ := hprojected run (Table.mem_toList.mpr hget)
      refine Or.inr ⟨run, monitor, projected, rfl, hmonitor, hrun, ?_⟩
      rw [hknown, Option.some_or]

/-- A monitor without an update in the batch stays as it is. -/
theorem monitor_row_of_ne (hkeyed : Keyed store.monitors)
    (self : Persisted store updates next outcomes) {id : MonitorId}
    (hne : ∀ update ∈ updates, update.run.monitorId ≠ id) :
    next.monitors[id]? = store.monitors[id]? := by
  have hprojections : self.batch.projections[id]? = none := by
    rw [foldlM_mergeUpdate_of_ne self.hbatch hne]
    simp
  have hresolved : self.resolved.known[id]? = self.loaded[id]? :=
    foldlM_resolveDefinition_of_ne self.hresolved self.hvalid hne
  rcases self.monitor_row hkeyed id with ⟨-, hrow⟩ | ⟨run, _, _, hrun, -⟩
  · rw [hrow, hresolved]
    cases hloaded : self.loaded[id]? with
    | none => rw [Option.none_or]
    | some row => rw [(loadMonitors_sound self.hloaded hloaded).1, Option.some_or]
  · rw [hprojections] at hrun
    cases hrun

/-- What a batch does to a monitor that has a single update in it: the definition is resolved, the
run merged and, when it is new, projected. -/
theorem single_update (hkeyed : Keyed store.monitors)
    {before after : List MonitorUpdate} {update : MonitorUpdate}
    (self : Persisted store (before ++ update :: after) next outcomes)
    (hbefore : ∀ other ∈ before, other.run.monitorId ≠ update.run.monitorId)
    (hafter : ∀ other ∈ after, other.run.monitorId ≠ update.run.monitorId) :
    ∃ monitor merged, resolveRow store.monitors[update.run.monitorId]? update = .ok (some monitor) ∧
      MergesTo monitor update.run merged ∧
      (∃ outcomesBefore outcomesAfter, outcomes = outcomesBefore ++ outcomeOf merged :: outcomesAfter ∧
        outcomesBefore.length = before.length) ∧
      match merged with
      | none => next.monitors[update.run.monitorId]? = some monitor
      | some run => ∃ projected, projectRun monitor run = .ok projected ∧
          next.monitors[update.run.monitorId]? = some projected.1 := by
  have hresolved := self.hresolved
  have hbatch := self.hbatch
  rw [List.foldlM_append, bind_eq_ok] at hresolved hbatch
  obtain ⟨resolvedBefore, hresolvedBefore, hresolved⟩ := hresolved
  obtain ⟨batchBefore, hbatchBefore, hbatch⟩ := hbatch
  rw [List.foldlM_cons, bind_eq_ok] at hresolved hbatch
  obtain ⟨resolvedAt, hresolvedAt, hresolvedAfter⟩ := hresolved
  obtain ⟨batchAt, hbatchAt, hbatchAfter⟩ := hbatch
  have hrow : resolveRow store.monitors[update.run.monitorId]? update
      = .ok self.resolved.known[update.run.monitorId]? := by
    rw [foldlM_resolveDefinition_of_ne hresolvedAfter (fun other hother => self.hvalid other
        (List.mem_append_right _ (List.mem_cons_of_mem _ hother))) hafter,
      ← resolveDefinition_row (self.hvalid update (by simp)) hresolvedAt,
      foldlM_resolveDefinition_of_ne hresolvedBefore (fun other hother => self.hvalid other
        (List.mem_append_left _ hother)) hbefore,
      loadMonitors_complete self.hloaded (by simpa using self.length_le) (by simp)]
  obtain ⟨incoming, merged, hadmit, hmerge, hrecord⟩ := mergeUpdate_eq_ok hbatchAt
  obtain ⟨monitor, hmonitor, hproject, htimeout⟩ := admitRun_known hadmit
  rw [hmonitor] at hrow
  have hprojections : self.batch.projections[update.run.monitorId]? = merged := by
    rw [foldlM_mergeUpdate_of_ne hbatchAfter hafter, hrecord]
    have hfirst : batchBefore.projections[update.run.monitorId]? = none := by
      rw [foldlM_mergeUpdate_of_ne hbatchBefore hbefore]
      simp
    cases merged with
    | none => exact hfirst
    | some run =>
        have hid : run.monitorId = update.run.monitorId :=
          (MergesTo.fields ⟨_, _, hproject, htimeout, hmerge⟩).1
        simp [Batch.record, hid, hfirst]
  refine ⟨monitor, merged, hrow, ⟨_, _, hproject, htimeout, hmerge⟩, ?_, ?_⟩
  · obtain ⟨outcomesBefore, houtcomesBefore, hlengthBefore⟩ := foldlM_mergeUpdate_outcomes hbatchBefore
    obtain ⟨outcomesAfter, houtcomesAfter, -⟩ := foldlM_mergeUpdate_outcomes hbatchAfter
    refine ⟨outcomesBefore, outcomesAfter, ?_, hlengthBefore⟩
    rw [self.outcomes_eq, houtcomesAfter, hrecord, Batch.record_outcomes, houtcomesBefore]
    simp
  · rcases self.monitor_row hkeyed update.run.monitorId with
      ⟨hnone, hstored⟩ | ⟨run, known, projected, hsome, hknown, hprojected, hstored⟩
    · rw [hprojections] at hnone
      subst hnone
      rw [hmonitor, Option.some_or] at hstored
      exact hstored
    · rw [hprojections] at hsome
      subst hsome
      rw [hmonitor] at hknown
      cases hknown
      exact ⟨projected, hprojected, hstored⟩

end Persisted

/-! ### `upsert_monitor` and the workers -/

theorem upsert_eq_ok {next : MonitorStore} {definition : MonitorDefinition}
    (h : upsert store definition = .ok next) :
    (∃ charged, encodeConfig definition = .ok charged) ∧ ∃ lease, next =
      { store with monitors := store.monitors.insert definition.id ⟨definition, lease⟩ } := by
  simp only [upsert, bind_eq_ok, pure_eq_ok] at h
  obtain ⟨charged, hcharged, _, -, previous, -, _, -, monitors, hmonitors, rfl⟩ := h
  refine ⟨⟨charged, hcharged⟩, previous[definition.id]?.bind (·.lease), ?_⟩
  rw [writeMonitors_eq_foldl hmonitors]
  rfl

/-- A worker that collects rows under their ids changes the rows it collected only. -/
theorem worker_rows {monitors next collected : Table MonitorId StoredMonitor}
    {Changed : MonitorId → StoredMonitor → Prop} (hkeyed : Keyed collected)
    (hcollected : ∀ id row, collected[id]? = some row → Changed id row)
    (h : writeMonitors monitors (collected.toList.map Prod.snd) = .ok next) (id : MonitorId) :
    next[id]? = monitors[id]? ∨ ∃ row, Changed id row ∧ next[id]? = some row := by
  rw [writeMonitors_collected hkeyed h]
  cases hget : collected[id]? with
  | none => exact Or.inl (by rw [Option.none_or])
  | some row => exact Or.inr ⟨row, hcollected id row hget, by rw [Option.some_or]⟩

/-- The row after the timeout worker has projected some runs, timed out at `now`, on it. -/
inductive TimedOutRow (now : Timestamp) (monitor : StoredMonitor) : StoredMonitor → Prop
  | first {run : MonitorRun} {projected : StoredMonitor × Bool}
      (h : projectRun monitor (timedOut run now) = .ok projected) :
      TimedOutRow now monitor projected.1
  | next {row : StoredMonitor} {run : MonitorRun} {projected : StoredMonitor × Bool}
      (hrow : TimedOutRow now monitor row) (h : projectRun row (timedOut run now) = .ok projected) :
      TimedOutRow now monitor projected.1

theorem TimedOutRow.id_eq {now : Timestamp} {monitor row : StoredMonitor}
    (h : TimedOutRow now monitor row) : row.definition.id = monitor.definition.id := by
  induction h with
  | first h => exact projectRun_id h
  | next _ h ih => exact (projectRun_id h).trans ih

theorem workTimeout_row {next : MonitorStore} {now : Timestamp} {candidates : List MonitorRunId}
    {count : Nat} (hkeyed : Keyed store.monitors)
    (h : workTimeout store now candidates = .ok (next, count)) (id : MonitorId) :
    next.monitors[id]? = store.monitors[id]? ∨ ∃ monitor row, store.monitors[id]? = some monitor ∧
      TimedOutRow now monitor row ∧ next.monitors[id]? = some row := by
  simp only [workTimeout, bind_eq_ok, pure_eq_ok] at h
  obtain ⟨selected, -, monitors, hmonitors, done, hdone, written, hwritten, _, -, h⟩ := h
  cases h
  have hchanged : ∀ (id : MonitorId) (row : StoredMonitor), done.changed[id]? = some row →
      ∃ monitor, store.monitors[id]? = some monitor ∧ TimedOutRow now monitor row := by
    refine foldlM_ok_induction (fun state : Terminalized => ∀ id row, state.changed[id]? = some row →
      ∃ monitor, store.monitors[id]? = some monitor ∧ TimedOutRow now monitor row)
      _ _ _ hdone (by simp) ?_
    intro state run after _ hstate hstep
    unfold terminalizeRun at hstep
    split_ifs at hstep
    · cases hstep
      exact hstate
    · split at hstep
      · cases hstep
        exact hstate
      · next monitor hmonitor =>
        simp only [bind_eq_ok, pure_eq_ok] at hstep
        obtain ⟨_, -, _, -, projected, hprojected, rfl⟩ := hstep
        intro other row hother
        rw [Table.get_insert] at hother
        split_ifs at hother with heq
        · cases hother
          subst heq
          have hstored := (loadMonitors_sound hmonitors hmonitor).1
          refine ⟨monitor, hstored, ?_⟩
          cases hget : state.changed[run.monitorId]? with
          | none =>
              rw [hget, Option.getD_none] at hprojected
              exact .first hprojected
          | some changed =>
              rw [hget, Option.getD_some] at hprojected
              obtain ⟨old, hold, hrow⟩ := hstate _ _ hget
              cases hstored.symm.trans hold
              exact .next hrow hprojected
        · exact hstate other row hother
  have hkeys : Keyed done.changed := by
    intro other row hget
    obtain ⟨monitor, hmonitor, hrow⟩ := hchanged other row hget
    exact hrow.id_eq.trans (hkeyed other monitor hmonitor)
  rcases worker_rows hkeys hchanged hwritten id with hsame | ⟨row, ⟨monitor, hmonitor, hrow⟩, hget⟩
  · exact Or.inl hsame
  · exact Or.inr ⟨monitor, row, hmonitor, hrow, hget⟩

theorem workTimeout_keyed {next : MonitorStore} {now : Timestamp} {candidates : List MonitorRunId}
    {count : Nat} (hkeyed : Keyed store.monitors)
    (h : workTimeout store now candidates = .ok (next, count)) : Keyed next.monitors := by
  intro id row hget
  rcases workTimeout_row hkeyed h id with hsame | ⟨monitor, after, hmonitor, hafter, hstored⟩
  · exact hkeyed id row (hsame ▸ hget)
  · cases hget.symm.trans hstored
    exact hafter.id_eq.trans (hkeyed id monitor hmonitor)

/-- A cron monitor that the missed worker records a slot of. -/
structure Overdue (store : MonitorStore) (now : Timestamp) (old : StoredMonitor) : Prop where
  stored : store.monitors[old.definition.id]? = some old
  cron : old.definition.isUptime = false
  due : notDue store now old.definition = .ok false

section Missed

variable {blake3 : List (BitVec 8) → BitVec 256}

/-- The id of a missed run is free, or the slot has been recorded before. -/
theorem merge_missedRun {runs : Table MonitorRunId MonitorRun} (hok : RunsOk blake3 runs)
    {definition : MonitorDefinition} {now deleteAt : Timestamp} {run : MonitorRun}
    (h : merge runs[(missedRun blake3 definition now deleteAt).id]?
      (missedRun blake3 definition now deleteAt) = .ok (some run)) :
    run = missedRun blake3 definition now deleteAt ∧ runs[run.id]? = none := by
  obtain ⟨-, ⟨hnone, rfl⟩ | ⟨stored, hstored, hsource, hprogress, -⟩⟩ := merge_eq_some h
  · exact ⟨rfl, hnone⟩
  · have hsdk := (hok _ _ hstored).2.2.source_of_inProgress hprogress
    rw [hsdk] at hsource
    cases hsource

/-- What the loop of the missed worker has collected. -/
structure MissedRows (blake3 : List (BitVec 8) → BitVec 256) (store : MonitorStore) (now : Timestamp)
    (state : Terminalized) : Prop where
  monitors : ∀ (id : MonitorId) (row : StoredMonitor), state.changed[id]? = some row →
    ∃ old deleteAt projected,
    store.monitors[id]? = some old ∧ Overdue store now old ∧
    projectRun old (missedRun blake3 old.definition now deleteAt) = .ok projected ∧ row = projected.1
  runs : ∀ (id : MonitorRunId) (run : MonitorRun), state.changedRuns[id]? = some run →
    run.id = id ∧ store.runs[run.id]? = none ∧ ∃ old deleteAt, Overdue store now old ∧ run = missedRun blake3 old.definition now deleteAt

theorem MissedRows.materializeMissed {now : Timestamp} {missedRuns : Table MonitorRunId MonitorRun}
    {state next : Terminalized} {old : StoredMonitor} (hstate : MissedRows blake3 store now state)
    (hok : RunsOk blake3 store.runs) (hold : store.monitors[old.definition.id]? = some old)
    (hknown : old.definition.isUptime = false →
      missedRuns[MonitorRunId.missed blake3 old.definition.id old.definition.nextExpectedAt]? =
        store.runs[MonitorRunId.missed blake3 old.definition.id old.definition.nextExpectedAt]?)
    (h : materializeMissed blake3 store now missedRuns state old = .ok next) :
    MissedRows blake3 store now next := by
  simp only [PostgresMonitors.materializeMissed, bind_eq_ok] at h
  obtain ⟨skipped, hdue, h⟩ := h
  split_ifs at h with hskip
  · cases h
    exact hstate
  · rw [not_or, Bool.not_eq_true, Bool.not_eq_true] at hskip
    rw [hskip.1] at hdue
    have hoverdue : Overdue store now old := ⟨hold, hskip.2, hdue⟩
    simp only [recordMissed, bind_eq_ok, pure_eq_ok] at h
    obtain ⟨deleteAt, -, merged, hmerged, projected, hprojected, rfl⟩ := h
    constructor
    · intro id row hget
      rw [Table.get_insert] at hget
      split_ifs at hget with heq
      · cases hget
        exact ⟨old, deleteAt, projected, heq ▸ hold, hoverdue, hprojected, rfl⟩
      · exact hstate.monitors id row hget
    · cases merged with
      | none => exact hstate.runs
      | some run =>
          have hrun : merge store.runs[(missedRun blake3 old.definition now deleteAt).id]?
              (missedRun blake3 old.definition now deleteAt) = .ok (some run) := by
            rw [← hmerged]
            exact congrArg (merge · _) (hknown hskip.2).symm
          obtain ⟨rfl, hfree⟩ := merge_missedRun hok hrun
          intro id found hget
          simp only [Table.get_insert] at hget
          split_ifs at hget with heq
          · cases hget
            exact ⟨heq, hfree, old, deleteAt, hoverdue, rfl⟩
          · exact hstate.runs id found hget

/-- What the missed worker does: it projects a missed run on some overdue monitors, and every run it
adds is the missed run of an overdue monitor. -/
theorem workMissed_rows {next : MonitorStore} {now : Timestamp} {candidates : List MonitorId}
    {count : Nat} (hkeyed : Keyed store.monitors) (hok : RunsOk blake3 store.runs)
    (h : workMissed blake3 store now candidates = .ok (next, count)) :
    (∀ id : MonitorId, next.monitors[id]? = store.monitors[id]? ∨ ∃ old deleteAt projected,
      store.monitors[id]? = some old ∧ Overdue store now old ∧
      projectRun old (missedRun blake3 old.definition now deleteAt) = .ok projected ∧
      next.monitors[id]? = some projected.1) ∧
    ∀ (id : MonitorRunId) (run : MonitorRun), next.runs[id]? = some run →
      store.runs[id]? = some run ∨ ∃ old deleteAt, Overdue store now old ∧
        run = missedRun blake3 old.definition now deleteAt := by
  simp only [workMissed, bind_eq_ok, pure_eq_ok] at h
  obtain ⟨monitors, hmonitors, missedRuns, hmissed, done, hdone, written, hwritten, runs, hruns, h⟩ := h
  cases h
  have hchanged : MissedRows blake3 store now done := by
    refine foldlM_ok_induction (MissedRows blake3 store now) _ _ _ hdone
      ⟨by simp, by simp⟩ ?_
    intro state old after hmem hstate hstep
    obtain ⟨⟨id, _⟩, hrow, rfl⟩ := List.mem_map.mp ((List.mem_insertionSort _).mp hmem)
    have hstored := (loadMonitors_sound hmonitors (Table.mem_toList.mp hrow)).1
    have hid := hkeyed _ _ hstored
    refine hstate.materializeMissed hok (hid ▸ hstored) ?_ hstep
    intro hcron
    refine loadRuns_complete hmissed ?_ (List.mem_map.mpr ⟨_, List.mem_filter.mpr
      ⟨List.mem_map.mpr ⟨_, hrow, rfl⟩, by simp [hcron]⟩, rfl⟩)
    have hle := length_loadMonitors_le hmonitors
    have hfilter := List.length_filter_le (fun row => !row.definition.isUptime)
      (monitors.toList.map Prod.snd)
    rw [List.length_map] at hfilter ⊢
    omega
  constructor
  · have hkeys : Keyed done.changed := by
      intro id row hget
      obtain ⟨old, _, projected, hold, hoverdue, hprojected, rfl⟩ := hchanged.monitors id row hget
      exact (projectRun_id hprojected).trans (hkeyed id old hold)
    intro id
    rcases worker_rows hkeys hchanged.monitors hwritten id with
      hsame | ⟨row, ⟨old, deleteAt, projected, hold, hoverdue, hprojected, rfl⟩, hget⟩
    · exact Or.inl hsame
    · exact Or.inr ⟨old, deleteAt, projected, hold, hoverdue, hprojected, hget⟩
  · intro id run hget
    have hcollected : ∀ id run, done.changedRuns[id]? = some run → run.id = id ∧ Outcome store.runs run := by
      intro id run hrun
      obtain ⟨hid, hfree, -⟩ := hchanged.runs id run hrun
      refine ⟨hid, ?_⟩
      intro stored hstored
      rw [hfree] at hstored
      cases hstored
    rw [writeRuns_collected_get hcollected hruns, Option.or_eq_some_iff] at hget
    rcases hget with hrun | ⟨-, hrun⟩
    · exact Or.inr (hchanged.runs id run hrun).2.2
    · exact Or.inl hrun

theorem workMissed_keyed {next : MonitorStore} {now : Timestamp} {candidates : List MonitorId}
    {count : Nat} (hkeyed : Keyed store.monitors) (hok : RunsOk blake3 store.runs)
    (h : workMissed blake3 store now candidates = .ok (next, count)) : Keyed next.monitors := by
  intro id row hget
  rcases (workMissed_rows hkeyed hok h).1 id with
    hsame | ⟨old, _, projected, hold, -, hprojected, hstored⟩
  · exact hkeyed id row (hsame ▸ hget)
  · cases hget.symm.trans hstored
    exact (projectRun_id hprojected).trans (hkeyed id old hold)

end Missed

theorem workUptime_row {next : MonitorStore} {now leaseUntil : Timestamp}
    {candidates : List MonitorId} {claimed : List MonitorDefinition} (hkeyed : Keyed store.monitors)
    (h : workUptime store now leaseUntil candidates = .ok (next, claimed)) :
    next.runs = store.runs ∧ ∀ id : MonitorId, next.monitors[id]? = store.monitors[id]? ∨
      ∃ old, store.monitors[id]? = some old ∧
        next.monitors[id]? = some ⟨old.definition, some leaseUntil⟩ := by
  simp only [workUptime, bind_eq_ok, pure_eq_ok] at h
  obtain ⟨monitors, hmonitors, claims, hclaims, written, hwritten, h⟩ := h
  cases h
  refine ⟨rfl, ?_⟩
  have hclaimed : ∀ (id : MonitorId) (row : StoredMonitor), claims.1[id]? = some row →
      ∃ old, store.monitors[id]? = some old ∧ row = ⟨old.definition, some leaseUntil⟩ := by
    refine foldlM_ok_induction (fun state : Table MonitorId StoredMonitor × List MonitorDefinition =>
      ∀ (id : MonitorId) (row : StoredMonitor), state.1[id]? = some row →
        ∃ old, store.monitors[id]? = some old ∧ row = ⟨old.definition, some leaseUntil⟩)
      _ _ _ hclaims (by simp) ?_
    intro state old after hmem hstate hstep
    obtain ⟨⟨key, _⟩, hrow, rfl⟩ := List.mem_map.mp ((List.mem_insertionSort _).mp hmem)
    have hstored := (loadMonitors_sound hmonitors (Table.mem_toList.mp hrow)).1
    have hid := hkeyed _ _ hstored
    simp only [claimUptime, bind_eq_ok] at hstep
    obtain ⟨skipped, -, hstep⟩ := hstep
    split_ifs at hstep
    · cases hstep
      exact hstate
    · cases hstep
      intro other row hget
      rw [Table.get_insert] at hget
      split_ifs at hget with heq
      · cases hget
        exact ⟨_, heq ▸ hid ▸ hstored, rfl⟩
      · exact hstate other row hget
  have hkeys : Keyed claims.1 := by
    intro id row hget
    obtain ⟨old, hold, rfl⟩ := hclaimed id row hget
    exact hkeyed id old hold
  intro id
  rcases worker_rows hkeys hclaimed hwritten id with hsame | ⟨row, ⟨old, hold, rfl⟩, hget⟩
  · exact Or.inl hsame
  · exact Or.inr ⟨old, hold, hget⟩

theorem workUptime_keyed {next : MonitorStore} {now leaseUntil : Timestamp}
    {candidates : List MonitorId} {claimed : List MonitorDefinition} (hkeyed : Keyed store.monitors)
    (h : workUptime store now leaseUntil candidates = .ok (next, claimed)) : Keyed next.monitors := by
  intro id row hget
  rcases (workUptime_row hkeyed h).2 id with hsame | ⟨old, hold, hstored⟩
  · exact hkeyed id row (hsame ▸ hget)
  · cases hget.symm.trans hstored
    exact hkeyed id old hold

end MetricBackend.PostgresMonitors
