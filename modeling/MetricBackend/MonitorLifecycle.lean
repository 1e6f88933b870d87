import MetricBackend.PostgresTables
import MetricBackend.IngestCheckIns

/-! # Lifecycle of monitor runs

Every operation of the Postgres monitor store changes the run table by single writes, and each of
these either adds a run or gives an in-progress run its outcome. The lifecycle of runs over any
interleaving of the operations follows from what one such write does. -/

namespace MetricBackend.PostgresMonitors

open IngestCheckIns Relation

section Writes

variable (blake3 : List (BitVec 8) → BitVec 256)

/-- Where a run comes from. Runs of the scheduler are terminal and named after their slot. -/
inductive Origin (run : MonitorRun) : Prop
  | checkIn (hsource : run.source = .sdk) (hstatus : run.status ≠ .missed)
  | missed (slot : Timestamp) (hsource : run.source = .scheduler) (hstatus : run.status = .missed)
      (hslot : run.scheduledFor = some slot)
      (hid : run.id = MonitorRunId.missed blake3 run.monitorId slot)
  | uptime (slot : Timestamp) (hsource : run.source = .scheduler) (hstatus : run.status ≠ .missed)
      (hterminal : run.status.isTerminal = true) (hslot : run.scheduledFor = some slot)
      (hid : run.id = MonitorRunId.uptime blake3 run.monitorId slot)

/-- A run that may be written into the table: it is valid, and a row it replaces is in progress and
differs from it in the outcome at most. -/
structure Justified (runs : Table MonitorRunId MonitorRun) (run : MonitorRun) : Prop where
  valid : run.validate = .ok ()
  origin : Origin blake3 run
  replaces : ∀ stored, runs[run.id]? = some stored →
    stored.status = .inProgress ∧ run = withOutcome stored run

/-- The one way in which the run table changes. -/
def RunWrite (runs next : Table MonitorRunId MonitorRun) : Prop :=
  ∃ run, Justified blake3 runs run ∧ next = runs.insert run.id run

/-- What holds of every stored run. -/
def RunsOk (runs : Table MonitorRunId MonitorRun) : Prop :=
  ∀ id run, runs[id]? = some run → run.id = id ∧ run.validate = .ok () ∧ Origin blake3 run

variable {blake3} {runs next : Table MonitorRunId MonitorRun}

theorem Origin.source_of_inProgress {run : MonitorRun} (h : Origin blake3 run)
    (hstatus : run.status = .inProgress) : run.source = .sdk := by
  cases h with
  | checkIn hsource _ => exact hsource
  | missed slot _ hmissed _ _ => rw [hstatus] at hmissed; cases hmissed
  | uptime slot _ _ hterminal _ _ => rw [hstatus] at hterminal; cases hterminal

theorem Origin.status_of_sdk {run : MonitorRun} (h : Origin blake3 run) (hsource : run.source = .sdk) :
    run.status ≠ .missed := by
  cases h with
  | checkIn _ hstatus => exact hstatus
  | missed slot hscheduler _ _ _ => rw [hsource] at hscheduler; cases hscheduler
  | uptime slot hscheduler _ _ _ _ => rw [hsource] at hscheduler; cases hscheduler

theorem RunsOk.write (hok : RunsOk blake3 runs) (hwrite : RunWrite blake3 runs next) :
    RunsOk blake3 next := by
  obtain ⟨run, hrun, rfl⟩ := hwrite
  intro id stored hget
  rw [Table.get_insert] at hget
  split_ifs at hget with hid
  · cases hget
    exact ⟨hid, hrun.valid, hrun.origin⟩
  · exact hok id stored hget

/-- No write touches a terminal run. -/
theorem RunWrite.get_of_terminal (hwrite : RunWrite blake3 runs next) {id : MonitorRunId}
    {run : MonitorRun} (hget : runs[id]? = some run) (hterminal : run.status.isTerminal = true) :
    next[id]? = some run := by
  obtain ⟨written, hwritten, rfl⟩ := hwrite
  rw [Table.get_insert]
  split_ifs with hid
  · subst hid
    rw [(hwritten.replaces run hget).1] at hterminal
    cases hterminal
  · exact hget

theorem RunsOk.writes (hok : RunsOk blake3 runs) (hwrites : ReflTransGen (RunWrite blake3) runs next) :
    RunsOk blake3 next := by
  induction hwrites with
  | refl => exact hok
  | tail _ hwrite ih => exact ih.write hwrite

theorem get_of_terminal_writes (hwrites : ReflTransGen (RunWrite blake3) runs next)
    {id : MonitorRunId} {run : MonitorRun} (hget : runs[id]? = some run)
    (hterminal : run.status.isTerminal = true) : next[id]? = some run := by
  induction hwrites with
  | refl => exact hget
  | tail _ hwrite ih => exact hwrite.get_of_terminal ih hterminal

/-! ### `write_runs` -/

theorem Justified.outcome {run : MonitorRun} (h : Justified blake3 runs run) : Outcome runs run :=
  fun stored hstored => (h.replaces stored hstored).2

theorem writeRuns_justified {values : List MonitorRun} (hnodup : (values.map (·.id)).Nodup)
    (hvalues : ∀ run ∈ values, Justified blake3 runs run) (h : writeRuns runs values = .ok next) :
    ReflTransGen (RunWrite blake3) runs next := by
  induction values generalizing runs with
  | nil =>
      cases h
      exact .refl
  | cons run values ih =>
      rw [writeRuns, List.foldlM_cons, bind_eq_ok] at h
      obtain ⟨written, hwritten, hrest⟩ := h
      have hrun := hvalues run (by simp)
      have heq := writeRun_outcome hrun.outcome hwritten
      rw [List.map_cons, List.nodup_cons] at hnodup
      refine .head ⟨run, hrun, heq⟩ (ih hnodup.2 ?_ hrest)
      intro other hother
      have hne : run.id ≠ other.id := fun hid => hnodup.1 (List.mem_map.mpr ⟨other, hother, hid.symm⟩)
      obtain ⟨hvalid, horigin, hreplaces⟩ := hvalues other (List.mem_cons_of_mem _ hother)
      refine ⟨hvalid, horigin, ?_⟩
      rwa [heq, Table.get_insert_of_ne _ _ hne]

/-- The rows that an operation collected under their own ids may be written together. -/
theorem writeRuns_collected {collected : Table MonitorRunId MonitorRun}
    (hcollected : ∀ id run, collected[id]? = some run → run.id = id ∧ Justified blake3 runs run)
    (h : writeRuns runs (collected.toList.map Prod.snd) = .ok next) :
    ReflTransGen (RunWrite blake3) runs next := by
  have hrow : ∀ row ∈ collected.toList, row.2.id = row.1 ∧ Justified blake3 runs row.2 :=
    fun row hmem => hcollected row.1 row.2 (Table.mem_toList.mp hmem)
  refine writeRuns_justified ?_ ?_ h
  · have hids : (collected.toList.map Prod.snd).map (·.id) = collected.toList.map Prod.fst := by
      rw [List.map_map]
      exact List.map_congr_left fun row hmem => (hrow row hmem).1
    rw [hids]
    exact collected.nodup_keys_toList
  · intro run hrun
    obtain ⟨row, hmem, rfl⟩ := List.mem_map.mp hrun
    exact (hrow row hmem).2

end Writes

/-! ### `merge` -/

theorem mergeExisting_eq_some {stored incoming run : MonitorRun}
    (h : mergeExisting stored incoming = .ok (some run)) :
    stored.source = incoming.source ∧ stored.status = .inProgress ∧
      incoming.status.isTerminal = true ∧ run = mergedRun stored incoming ∧ run.validate = .ok () := by
  simp only [mergeExisting, bind_eq_ok, failIf_eq_ok, not_or, not_not] at h
  obtain ⟨-, ⟨-, -, -, hsource⟩, h⟩ := h
  split_ifs at h with hkept
  · cases h
  · rw [bind_eq_ok] at h
    obtain ⟨_, hvalid, h⟩ := h
    have heq := Option.some.inj (pure_eq_ok.mp h)
    rw [invalid_eq_ok, heq] at hvalid
    rw [not_or, not_not, Bool.not_eq_true', Bool.not_eq_false] at hkept
    exact ⟨hsource, hkept.1, hkept.2, heq.symm, hvalid⟩

theorem merge_eq_some {existing : Option MonitorRun} {incoming run : MonitorRun}
    (h : merge existing incoming = .ok (some run)) :
    incoming.validate = .ok () ∧ (existing = none ∧ run = incoming ∨
      ∃ stored, existing = some stored ∧ stored.source = incoming.source ∧
        stored.status = .inProgress ∧ incoming.status.isTerminal = true ∧
        run = mergedRun stored incoming ∧ run.validate = .ok ()) := by
  simp only [merge, bind_eq_ok, invalid_eq_ok] at h
  obtain ⟨_, hvalid, h⟩ := h
  refine ⟨hvalid, ?_⟩
  cases existing with
  | none => exact Or.inl ⟨rfl, (Option.some.inj (pure_eq_ok.mp h)).symm⟩
  | some stored => exact Or.inr ⟨stored, rfl, mergeExisting_eq_some h⟩

section Operations

variable {blake3 : List (BitVec 8) → BitVec 256} {runs : Table MonitorRunId MonitorRun}

/-- A merge with what is stored, or with a run that may itself be written, may be written. -/
theorem justified_merge {existing : Option MonitorRun} {incoming run : MonitorRun}
    (h : merge existing incoming = .ok (some run)) (horigin : Origin blake3 incoming)
    (hnone : existing = none → runs[incoming.id]? = none)
    (hsome : ∀ stored, existing = some stored → stored.id = incoming.id ∧ Origin blake3 stored ∧
      ∀ row, runs[incoming.id]? = some row → stored.status = .inProgress →
        row.status = .inProgress ∧ stored = withOutcome row stored) :
    run.id = incoming.id ∧ Justified blake3 runs run := by
  obtain ⟨hvalid, ⟨hexisting, rfl⟩ | ⟨stored, hexisting, hsource, hprogress, -, rfl, hmerged⟩⟩ :=
    merge_eq_some h
  · refine ⟨rfl, hvalid, horigin, ?_⟩
    intro row hrow
    rw [hnone hexisting] at hrow
    cases hrow
  · obtain ⟨hid, hstored, hrows⟩ := hsome stored hexisting
    have hsdk : stored.source = .sdk := hstored.source_of_inProgress hprogress
    refine ⟨hid, hmerged, .checkIn hsdk (horigin.status_of_sdk (hsource ▸ hsdk)), ?_⟩
    intro row hrow
    obtain ⟨hrowProgress, heq⟩ := hrows row (hid ▸ hrow) hprogress
    refine ⟨hrowProgress, ?_⟩
    rw [heq]
    rfl

theorem justified_merge_stored {incoming run : MonitorRun} (hok : RunsOk blake3 runs)
    (h : merge runs[incoming.id]? incoming = .ok (some run)) (horigin : Origin blake3 incoming) :
    run.id = incoming.id ∧ Justified blake3 runs run := by
  refine justified_merge h horigin id ?_
  intro stored hstored
  obtain ⟨hid, -, hstoredOrigin⟩ := hok _ _ hstored
  refine ⟨hid, hstoredOrigin, ?_⟩
  intro row hrow hprogress
  cases hstored.symm.trans hrow
  exact ⟨hprogress, rfl⟩

/-! ### `persist` -/

theorem submitted_origin {update : MonitorUpdate} (h : Submitted blake3 update) :
    Origin blake3 update.run := by
  rcases h with ⟨projectId, retentionDays, receivedAt, fields, h⟩ |
    ⟨monitor, now, finishedAt, deleteAt, result, rfl⟩
  · simp only [normalizeCheckIn, bind_eq_ok, failIf_eq_ok, not_or] at h
    obtain ⟨-, ⟨-, hmissed⟩, _, -, _, -, _, -, _, -, _, -, h⟩ := h
    rw [pure_eq_ok] at h
    subst h
    exact .checkIn rfl hmissed
  · refine .uptime monitor.nextExpectedAt rfl ?_ ?_ rfl rfl
    · cases hfailure : result.failure with
      | none => simp [uptimeUpdate, hfailure]
      | some failure => cases failure <;> simp [uptimeUpdate, hfailure]
    · cases hfailure : result.failure with
      | none => simp [uptimeUpdate, hfailure, MonitorRunStatus.isTerminal]
      | some failure => cases failure <;> simp [uptimeUpdate, hfailure, MonitorRunStatus.isTerminal]

theorem withTimeout_eq_ok {config : MonitorConfig} {run admitted : MonitorRun}
    (h : withTimeout config run = .ok admitted) :
    ∃ timeoutAt, admitted = { run with timeoutAt := timeoutAt } := by
  unfold withTimeout at h
  split_ifs at h with hmissing
  · rw [bind_eq_ok] at h
    obtain ⟨timeoutAt, -, h⟩ := h
    exact ⟨some timeoutAt, (pure_eq_ok.mp h).symm⟩
  · cases h
    exact ⟨run.timeoutAt, rfl⟩

theorem admitRun_eq_ok {monitors : Table MonitorId StoredMonitor} {run admitted : MonitorRun}
    (h : admitRun monitors run = .ok admitted) :
    ∃ timeoutAt, admitted = { run with timeoutAt := timeoutAt } := by
  unfold admitRun at h
  split at h
  · cases h
  · rw [bind_eq_ok] at h
    obtain ⟨-, -, h⟩ := h
    exact withTimeout_eq_ok h

theorem Origin.with_timeoutAt {run : MonitorRun} (h : Origin blake3 run) (timeoutAt : Option Timestamp) :
    Origin blake3 { run with timeoutAt := timeoutAt } := by
  cases h with
  | checkIn hsource hstatus => exact .checkIn hsource hstatus
  | missed slot hsource hstatus hslot hid => exact .missed slot hsource hstatus hslot hid
  | uptime slot hsource hstatus hterminal hslot hid =>
      exact .uptime slot hsource hstatus hterminal hslot hid

/-- The run loop of `persist` knows, under each id of the batch, the run it will write or else the
stored one, and every run it will write may be written. -/
structure BatchOk (blake3 : List (BitVec 8) → BitVec 256) (runs : Table MonitorRunId MonitorRun)
    (ids : List MonitorRunId) (batch : Batch) : Prop where
  known : ∀ id ∈ ids, batch.runs[id]? = (batch.changedRuns[id]?).or runs[id]?
  changed : ∀ id run, batch.changedRuns[id]? = some run → run.id = id ∧ Justified blake3 runs run

theorem BatchOk.mergeUpdate {ids : List MonitorRunId} {monitors : Table MonitorId StoredMonitor}
    {batch next : Batch} {update : MonitorUpdate} (hok : RunsOk blake3 runs)
    (hbatch : BatchOk blake3 runs ids batch) (hid : update.run.id ∈ ids)
    (horigin : Origin blake3 update.run) (h : mergeUpdate monitors batch update = .ok next) :
    BatchOk blake3 runs ids next := by
  simp only [PostgresMonitors.mergeUpdate, bind_eq_ok, pure_eq_ok] at h
  obtain ⟨incoming, hadmit, merged, hmerge, rfl⟩ := h
  have hincoming : incoming.id = update.run.id ∧ Origin blake3 incoming := by
    obtain ⟨timeoutAt, rfl⟩ := admitRun_eq_ok hadmit
    exact ⟨rfl, horigin.with_timeoutAt timeoutAt⟩
  cases merged with
  | none => exact ⟨hbatch.known, hbatch.changed⟩
  | some run =>
      have hknown := hbatch.known incoming.id (hincoming.1 ▸ hid)
      have hrun : run.id = incoming.id ∧ Justified blake3 runs run := by
        refine justified_merge hmerge hincoming.2 ?_ ?_
        · intro hnone
          rw [hknown, Option.or_eq_none_iff] at hnone
          exact hnone.2
        · intro stored hstored
          rw [hknown, Option.or_eq_some_iff] at hstored
          rcases hstored with hchanged | ⟨-, hrow⟩
          · obtain ⟨hstoredId, hjustified⟩ := hbatch.changed _ _ hchanged
            exact ⟨hstoredId, hjustified.origin,
              fun row hget _ => hjustified.replaces row (hstoredId ▸ hget)⟩
          · obtain ⟨hstoredId, -, hstoredOrigin⟩ := hok _ _ hrow
            refine ⟨hstoredId, hstoredOrigin, ?_⟩
            intro row hget hprogress
            cases hrow.symm.trans hget
            exact ⟨hprogress, rfl⟩
      constructor
      · intro id hmem
        simp only [Batch.record, Table.get_insert]
        split_ifs with heq
        · simp
        · exact hbatch.known id hmem
      · intro id other hget
        simp only [Batch.record, Table.get_insert] at hget
        split_ifs at hget with heq
        · cases hget
          exact ⟨heq, hrun.2⟩
        · exact hbatch.changed id other hget

theorem persist_writes {store next : MonitorStore} {updates : List MonitorUpdate}
    {outcomes : List DurableOutcome} (hok : RunsOk blake3 store.runs)
    (hsubmitted : ∀ update ∈ updates, Submitted blake3 update)
    (h : persist store updates = .ok (next, outcomes)) :
    ReflTransGen (RunWrite blake3) store.runs next.runs := by
  unfold persist at h
  split_ifs at h with hempty
  · cases h
    exact .refl
  · simp only [admitBatch, persistBatch, bind_eq_ok, failIf_eq_ok, pure_eq_ok] at h
    obtain ⟨_, ⟨_, hlength, -⟩, _, -, loaded, -, resolved, -, runs, hruns, batch, hbatch,
      projected, -, monitors, -, written, hwritten, h⟩ := h
    cases h
    have hinit : BatchOk blake3 store.runs (updates.map (·.run.id)) ⟨runs, ∅, ∅, []⟩ := by
      constructor
      · intro id hid
        rw [Table.get_empty, Option.none_or]
        exact loadRuns_complete hruns (by simpa using hlength) hid
      · intro id run hget
        simp at hget
    have hdone : BatchOk blake3 store.runs (updates.map (·.run.id)) batch := by
      refine foldlM_ok_induction _ _ _ _ hbatch hinit ?_
      intro state update after hmem hstate hstep
      exact hstate.mergeUpdate hok (List.mem_map.mpr ⟨update, hmem, rfl⟩)
        (submitted_origin (hsubmitted update hmem)) hstep
    exact writeRuns_collected hdone.changed hwritten

/-! ### Workers -/

theorem timedOut_justified {run : MonitorRun} {id : MonitorRunId} {now : Timestamp}
    (hok : RunsOk blake3 runs) (hget : runs[id]? = some run) (hprogress : run.status = .inProgress)
    (hvalid : (timedOut run now).validate = .ok ()) :
    run.id = id ∧ Justified blake3 runs (timedOut run now) := by
  obtain ⟨hid, -, horigin⟩ := hok id run hget
  refine ⟨hid, hvalid, .checkIn (horigin.source_of_inProgress hprogress) (by simp [timedOut]), ?_⟩
  intro stored hstored
  have hsame : runs[run.id]? = some stored := hstored
  rw [hid, hget] at hsame
  cases hsame
  exact ⟨hprogress, rfl⟩

theorem workTimeout_writes {store next : MonitorStore} {now : Timestamp}
    {candidates : List MonitorRunId} {count : Nat} (hok : RunsOk blake3 store.runs)
    (h : workTimeout store now candidates = .ok (next, count)) :
    ReflTransGen (RunWrite blake3) store.runs next.runs := by
  simp only [workTimeout, bind_eq_ok, pure_eq_ok] at h
  obtain ⟨selected, hselected, monitors, -, done, hdone, _, -, written, hwritten, h⟩ := h
  cases h
  refine writeRuns_collected ?_ hwritten
  refine foldlM_ok_induction (fun state : Terminalized => ∀ id run, state.changedRuns[id]? = some run →
    run.id = id ∧ Justified blake3 store.runs run) _ _ _ hdone (by simp) ?_
  intro state run after hmem hstate hstep
  obtain ⟨⟨id, _⟩, hrow, rfl⟩ := List.mem_map.mp hmem
  have hget := (loadRuns_sound hselected (Table.mem_toList.mp hrow)).1
  unfold terminalizeRun at hstep
  split_ifs at hstep with hskip
  · cases hstep
    exact hstate
  · rw [not_or, not_or, not_not] at hskip
    split at hstep
    · cases hstep
      exact hstate
    · simp only [bind_eq_ok, invalid_eq_ok, pure_eq_ok] at hstep
      obtain ⟨_, -, _, hvalid, _, -, rfl⟩ := hstep
      have htimed := timedOut_justified hok hget hskip.2.1 hvalid
      intro other run hother
      rw [Table.get_insert] at hother
      split_ifs at hother with heq
      · cases hother
        exact ⟨heq, htimed.2⟩
      · exact hstate other run hother

theorem missedRun_origin (definition : MonitorDefinition) (now deleteAt : Timestamp) :
    Origin blake3 (missedRun blake3 definition now deleteAt) :=
  .missed definition.nextExpectedAt rfl rfl rfl rfl

theorem workMissed_writes {store next : MonitorStore} {now : Timestamp}
    {candidates : List MonitorId} {count : Nat} (hok : RunsOk blake3 store.runs)
    (h : workMissed blake3 store now candidates = .ok (next, count)) :
    ReflTransGen (RunWrite blake3) store.runs next.runs := by
  simp only [workMissed, bind_eq_ok, pure_eq_ok] at h
  obtain ⟨monitors, hmonitors, missedRuns, hmissed, done, hdone, _, -, written, hwritten, h⟩ := h
  cases h
  refine writeRuns_collected ?_ hwritten
  refine foldlM_ok_induction (fun state : Terminalized => ∀ id run, state.changedRuns[id]? = some run →
    run.id = id ∧ Justified blake3 store.runs run) _ _ _ hdone (by simp) ?_
  intro state old after hmem hstate hstep
  have hold : old ∈ monitors.toList.map Prod.snd := (List.mem_insertionSort _).mp hmem
  simp only [materializeMissed, bind_eq_ok] at hstep
  obtain ⟨skipped, -, hstep⟩ := hstep
  split_ifs at hstep with hskip
  · cases hstep
    exact hstate
  · simp only [recordMissed, bind_eq_ok, pure_eq_ok] at hstep
    obtain ⟨deleteAt, -, merged, hmerged, _, -, rfl⟩ := hstep
    cases merged with
    | none => exact hstate
    | some run =>
        have hknown : missedRuns[(missedRun blake3 old.definition now deleteAt).id]?
            = store.runs[(missedRun blake3 old.definition now deleteAt).id]? := by
          refine loadRuns_complete hmissed ?_ (List.mem_map.mpr ⟨old, ?_, rfl⟩)
          · have hle := length_loadMonitors_le hmonitors
            have hfilter := List.length_filter_le (fun row => !row.definition.isUptime)
              (monitors.toList.map Prod.snd)
            rw [List.length_map] at hfilter ⊢
            omega
          · rw [not_or, Bool.not_eq_true] at hskip
            exact List.mem_filter.mpr ⟨hold, by simp [hskip.2]⟩
        rw [hknown] at hmerged
        have hrun := justified_merge_stored hok hmerged (missedRun_origin old.definition now deleteAt)
        intro other found hother
        simp only [Table.get_insert] at hother
        split_ifs at hother with heq
        · cases hother
          exact ⟨hrun.1.trans heq, hrun.2⟩
        · exact hstate other found hother

end Operations

/-! ### Runs of the store -/

section Steps

variable (blake3 : List (BitVec 8) → BitVec 256)

/-- One committed operation: a batch of submitted updates, an administrator's definition, one of the
three workers with any candidates, or a change of the project table. An operation that fails changes
nothing and is no step. -/
inductive Step (store : MonitorStore) : MonitorStore → Prop
  | persist {next : MonitorStore} (updates : List MonitorUpdate) (outcomes : List DurableOutcome)
      (hsubmitted : ∀ update ∈ updates, Submitted blake3 update)
      (h : PostgresMonitors.persist store updates = .ok (next, outcomes)) : Step store next
  | upsert {next : MonitorStore} (definition : MonitorDefinition)
      (h : PostgresMonitors.upsert store definition = .ok next) : Step store next
  | timeout {next : MonitorStore} (now : Timestamp) (candidates : List MonitorRunId) (count : Nat)
      (h : workTimeout store now candidates = .ok (next, count)) : Step store next
  | missed {next : MonitorStore} (now : Timestamp) (candidates : List MonitorId) (count : Nat)
      (h : workMissed blake3 store now candidates = .ok (next, count)) : Step store next
  | uptime {next : MonitorStore} (now leaseUntil : Timestamp) (candidates : List MonitorId)
      (claimed : List MonitorDefinition)
      (h : workUptime store now leaseUntil candidates = .ok (next, claimed)) : Step store next
  | projects (projects : Table ProjectId ProjectAcceptanceState) :
      Step store { store with projects := projects }

variable {blake3}

theorem Step.writes {store next : MonitorStore} (hok : RunsOk blake3 store.runs)
    (hstep : Step blake3 store next) : ReflTransGen (RunWrite blake3) store.runs next.runs := by
  cases hstep with
  | persist updates outcomes hsubmitted h => exact persist_writes hok hsubmitted h
  | upsert definition h =>
      simp only [PostgresMonitors.upsert, bind_eq_ok, pure_eq_ok] at h
      obtain ⟨_, -, _, -, _, -, _, -, _, -, rfl⟩ := h
      exact .refl
  | timeout now candidates count h => exact workTimeout_writes hok h
  | missed now candidates count h => exact workMissed_writes hok h
  | uptime now leaseUntil candidates claimed h =>
      simp only [workUptime, bind_eq_ok, pure_eq_ok] at h
      obtain ⟨_, -, _, -, _, -, h⟩ := h
      cases h
      exact .refl
  | projects projects => exact .refl

theorem steps_writes {store later : MonitorStore} (hok : RunsOk blake3 store.runs)
    (hsteps : ReflTransGen (Step blake3) store later) :
    RunsOk blake3 later.runs ∧ ReflTransGen (RunWrite blake3) store.runs later.runs := by
  induction hsteps with
  | refl => exact ⟨hok, .refl⟩
  | tail _ hstep ih =>
      have hwrites := hstep.writes ih.1
      exact ⟨ih.1.writes hwrites, ih.2.trans hwrites⟩

/-- A run that the scheduler recorded for a check it made. -/
def IsUptimeRun (run : MonitorRun) : Prop := run.source = .scheduler ∧ run.status ≠ .missed

theorem Origin.missed_id {run : MonitorRun} (h : Origin blake3 run) (hmissed : run.status = .missed) :
    ∃ slot, run.scheduledFor = some slot ∧ run.id = MonitorRunId.missed blake3 run.monitorId slot := by
  cases h with
  | checkIn _ hstatus => exact absurd hmissed hstatus
  | missed slot _ _ hslot hid => exact ⟨slot, hslot, hid⟩
  | uptime slot _ hstatus _ _ _ => exact absurd hmissed hstatus

theorem Origin.uptime_id {run : MonitorRun} (h : Origin blake3 run) (huptime : IsUptimeRun run) :
    ∃ slot, run.scheduledFor = some slot ∧ run.id = MonitorRunId.uptime blake3 run.monitorId slot := by
  cases h with
  | checkIn hsource _ => rw [huptime.1] at hsource; cases hsource
  | missed slot _ hstatus _ _ => exact absurd hstatus huptime.2
  | uptime slot _ _ _ hslot hid => exact ⟨slot, hslot, hid⟩

/-- Runs of a kind are stored at most once for a monitor and a slot. -/
def OncePerSlot (store : MonitorStore) (kind : MonitorRun → Prop) : Prop :=
  ∀ (id other : MonitorRunId) (run found : MonitorRun), store.runs[id]? = some run →
    store.runs[other]? = some found → kind run → kind found → run.monitorId = found.monitorId →
    run.scheduledFor = found.scheduledFor → id = other

/-- Runs that are named after their monitor and slot are stored once per slot. -/
theorem oncePerSlot_of_named {store : MonitorStore} {kind : MonitorRun → Prop}
    {name : MonitorId → Timestamp → MonitorRunId} (hok : RunsOk blake3 store.runs)
    (hname : ∀ run : MonitorRun, Origin blake3 run → kind run →
      ∃ slot, run.scheduledFor = some slot ∧ run.id = name run.monitorId slot) :
    OncePerSlot store kind := by
  intro id other run found hrun hfound hkind hkind' hmonitor hslot
  obtain ⟨hid, -, horigin⟩ := hok id run hrun
  obtain ⟨hid', -, horigin'⟩ := hok other found hfound
  obtain ⟨slot, hrunSlot, hrunId⟩ := hname run horigin hkind
  obtain ⟨slot', hfoundSlot, hfoundId⟩ := hname found horigin' hkind'
  rw [hslot, hfoundSlot] at hrunSlot
  cases hrunSlot
  rw [← hid, ← hid', hrunId, hfoundId, hmonitor]

/-- The lifecycle of monitor runs over every interleaving of operations, from a store without runs:
stored runs are valid, a terminal run is never changed again, and a monitor has at most one missed
run and at most one uptime run for a slot. -/
theorem monitor_run_lifecycle (initial store later : MonitorStore) (hinitial : initial.runs = ∅)
    (hreach : ReflTransGen (Step blake3) initial store)
    (hlater : ReflTransGen (Step blake3) store later) :
    (∀ (id : MonitorRunId) (run : MonitorRun), store.runs[id]? = some run → run.validate = .ok ()) ∧
    (∀ (id : MonitorRunId) (run : MonitorRun), store.runs[id]? = some run →
      run.status.isTerminal = true → later.runs[id]? = some run) ∧
    OncePerSlot store (fun run => run.status = .missed) ∧ OncePerSlot store IsUptimeRun := by
  have hempty : RunsOk blake3 initial.runs := by
    rw [hinitial]
    intro id run hget
    simp at hget
  have hok := (steps_writes hempty hreach).1
  refine ⟨fun id run hget => (hok id run hget).2.1, ?_, ?_, ?_⟩
  · intro id run hget hterminal
    exact get_of_terminal_writes (steps_writes hok hlater).2 hget hterminal
  · exact oncePerSlot_of_named hok fun run horigin hmissed => horigin.missed_id hmissed
  · exact oncePerSlot_of_named hok fun run horigin huptime => horigin.uptime_id huptime

end Steps

/-! ### A sample run -/

def sampleStore : MonitorStore where
  runsDays := 90
  projects := (∅ : Table ProjectId ProjectAcceptanceState).insert IngestCheckIns.sampleProject .active
  monitors := ∅
  runs := ∅

/-- Persists one normalized check-in by itself. -/
def checkIn (store : MonitorStore) (receivedAt : Timestamp) (fields : CheckInFields) : MonitorStore :=
  match normalizeCheckIn sampleBlake3 IngestCheckIns.sampleProject 90 receivedAt fields with
  | .ok update => committed store (persist store [update])
  | .error _ => store

theorem checkIn_step (store : MonitorStore) (receivedAt : Timestamp) (fields : CheckInFields) :
    ReflTransGen (Step sampleBlake3) store (checkIn store receivedAt fields) := by
  unfold checkIn
  split
  · next update hupdate =>
    cases hpersist : persist store [update] with
    | error e => exact .refl
    | ok result =>
        refine .single (.persist [update] result.2 ?_ hpersist)
        intro other hother
        rw [List.mem_singleton.mp hother]
        exact Or.inl ⟨_, _, _, _, hupdate⟩
  · exact .refl

/-- A check-in that starts and succeeds, and the missed slot after it. -/
theorem inRange_sampleScan : minTimestampMillis ≤ 1700000500000 ∧ 1700000500000 ≤ maxTimestampMillis := by decide

def sampleMissed : MonitorStore :=
  let started := checkIn sampleStore sampleStart (sampleFields 7 .inProgress true)
  let finished := checkIn started ⟨1700000060000, inRange_sampleMinute⟩ (sampleFields 7 .success false)
  committed finished (materializeDueMissed sampleBlake3 finished ⟨1700000500000, inRange_sampleScan⟩ 100)

theorem materializeDueMissed_step (blake3 : List (BitVec 8) → BitVec 256) (store : MonitorStore)
    (now : Timestamp) (batchSize : Nat) : ReflTransGen (Step blake3) store
      (committed store (materializeDueMissed blake3 store now batchSize)) := by
  cases hmissed : materializeDueMissed blake3 store now batchSize with
  | error e => exact .refl
  | ok result =>
      rw [materializeDueMissed, bind_eq_ok] at hmissed
      obtain ⟨-, -, hwork⟩ := hmissed
      exact .single (.missed now _ result.2 hwork)

theorem monitor_run_lifecycle_nightly :
    sampleMissed.runs[(⟨0x78555a6194628ac0f1ea5872dbed0bbc⟩ : MonitorRunId)]?.map (·.status)
      = some .missed ∧ OncePerSlot sampleMissed (fun run => run.status = .missed) := by
  have hreach : ReflTransGen (Step sampleBlake3) sampleStore sampleMissed := by
    unfold sampleMissed
    exact ((checkIn_step _ _ _).trans (checkIn_step _ _ _)).trans (materializeDueMissed_step _ _ _ _)
  refine ⟨by decide, ?_⟩
  exact (monitor_run_lifecycle sampleStore sampleMissed sampleMissed rfl hreach .refl).2.2.1

end MetricBackend.PostgresMonitors
