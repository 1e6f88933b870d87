import MetricBackend.MissedSlots
import MetricBackend.MonitorInterleaving
import MetricBackend.CrontabSearch

/-! One call of `materialize_due_missed` and the monitors of its batch: what a monitor without a next slot does to
the others. -/

namespace MetricBackend.PostgresMonitors

open Relation

/-! ### Rows that the store can write again -/

/-- What `write_monitors` checks of a row by itself. -/
structure Written (row : StoredMonitor) : Prop where
  encoded : ∃ size, encodeConfig row.definition = .ok size
  due : ∃ dueAt, due row.definition = .ok dueAt
  revision : ∃ revision, positive row.definition.revision = .ok revision

/-- What holds of every stored monitor. -/
def RowsOk (monitors : Table MonitorId StoredMonitor) : Prop :=
  ∀ (id : MonitorId) (row : StoredMonitor), monitors[id]? = some row → row.definition.id = id ∧ Written row

section Writes

variable {monitors next : Table MonitorId StoredMonitor} {values : List StoredMonitor}

theorem rowsOk_empty : RowsOk ∅ := by
  intro id row hget
  rw [Table.get_empty] at hget
  exact nomatch hget

theorem runsOk_empty {blake3 : List (BitVec 8) → BitVec 256} : RunsOk blake3 ∅ := by
  intro id run hget
  rw [Table.get_empty] at hget
  exact nomatch hget

theorem writeMonitors_written (h : writeMonitors monitors values = .ok next) : ∀ value ∈ values, Written value := by
  induction values generalizing monitors with
  | nil => exact fun _ hvalue => nomatch hvalue
  | cons value values ih =>
      rw [writeMonitors, List.foldlM_cons, bind_eq_ok] at h
      obtain ⟨written, hwritten, hrest⟩ := h
      simp only [writeMonitor, bind_eq_ok] at hwritten
      obtain ⟨size, hsize, dueAt, hdue, revision, hrevision, -⟩ := hwritten
      exact List.forall_mem_cons.mpr ⟨⟨⟨size, hsize⟩, ⟨dueAt, hdue⟩, ⟨revision, hrevision⟩⟩, ih hrest⟩

theorem RowsOk.write (hok : RowsOk monitors) (h : writeMonitors monitors values = .ok next) : RowsOk next := by
  have hwritten := writeMonitors_written h
  rw [writeMonitors_eq_foldl h]
  clear h
  induction values generalizing monitors with
  | nil => exact hok
  | cons value values ih =>
      obtain ⟨hvalue, hvalues⟩ := List.forall_mem_cons.mp hwritten
      refine ih ?_ hvalues
      intro id row hget
      rw [Table.get_insert] at hget
      split_ifs at hget with hid
      · obtain rfl := Option.some.inj hget
        exact ⟨hid, hvalue⟩
      · exact hok id row hget

/-- Rows under different ids, each as the store may have it, are written together. -/
theorem exists_writeMonitors (hnodup : (values.map (·.definition.id)).Nodup) (hwritten : ∀ value ∈ values, Written value)
    (hproject : ∀ value ∈ values, ∀ stored, monitors[value.definition.id]? = some stored →
      stored.definition.projectId = value.definition.projectId) :
    ∃ next, writeMonitors monitors values = .ok next := by
  induction values generalizing monitors with
  | nil => exact ⟨monitors, rfl⟩
  | cons value values ih =>
      obtain ⟨⟨⟨size, hsize⟩, ⟨dueAt, hdue⟩, ⟨revision, hrevision⟩⟩, hwritten⟩ := List.forall_mem_cons.mp hwritten
      obtain ⟨hvalue, hproject⟩ := List.forall_mem_cons.mp hproject
      obtain ⟨hfresh, hnodup⟩ := List.nodup_cons.mp hnodup
      have hwrite : writeMonitor monitors value = .ok (monitors.insert value.definition.id value) := by
        simp only [writeMonitor, bind_eq_ok, failIf_eq_ok, pure_eq_ok]
        refine ⟨size, hsize, dueAt, hdue, revision, hrevision, (), ?_, trivial⟩
        cases hstored : monitors[value.definition.id]? with
        | none => simp
        | some stored => simp [hvalue stored hstored]
      rw [writeMonitors, List.foldlM_cons, hwrite]
      refine ih hnodup hwritten (fun other hother stored hget => hproject other hother stored ?_)
      rwa [Table.get_insert_of_ne _ _ fun hid => hfresh (List.mem_map.mpr ⟨other, hother, hid.symm⟩)] at hget

theorem exists_writeRuns {runs : Table MonitorRunId MonitorRun} {values : List MonitorRun}
    (hnodup : (values.map (·.id)).Nodup) (hvalid : ∀ value ∈ values, value.validate = .ok ())
    (hfree : ∀ value ∈ values, runs[value.id]? = none) : ∃ next, writeRuns runs values = .ok next := by
  induction values generalizing runs with
  | nil => exact ⟨runs, rfl⟩
  | cons value values ih =>
      obtain ⟨hvalue, hvalid⟩ := List.forall_mem_cons.mp hvalid
      obtain ⟨hnone, hfree⟩ := List.forall_mem_cons.mp hfree
      obtain ⟨hfresh, hnodup⟩ := List.nodup_cons.mp hnodup
      have hwrite : writeRun runs value = .ok (runs.insert value.id value) := by
        rw [writeRun, hvalue, hnone]
        rfl
      rw [writeRuns, List.foldlM_cons, hwrite]
      refine ih hnodup hvalid fun other hother => ?_
      rw [Table.get_insert_of_ne _ _ fun hid => hfresh (List.mem_map.mpr ⟨other, hother, hid.symm⟩)]
      exact hfree other hother

variable {blake3 : List (BitVec 8) → BitVec 256} {store later : MonitorStore}

/-- Every step that changes monitors writes them through `write_monitors`. -/
theorem Step.written (hstep : Step blake3 store later) :
    later.monitors = store.monitors ∨ ∃ values, writeMonitors store.monitors values = .ok later.monitors := by
  cases hstep with
  | persist updates outcomes hsubmitted h =>
      rcases persist_eq_ok h with ⟨-, rfl, -⟩ | ⟨⟨persisted⟩⟩
      · exact .inl rfl
      · exact .inr ⟨_, persisted.hmonitors⟩
  | upsert definition h =>
      simp only [PostgresMonitors.upsert, bind_eq_ok, pure_eq_ok] at h
      obtain ⟨_, -, _, -, _, -, _, -, _, hwritten, rfl⟩ := h
      exact .inr ⟨_, hwritten⟩
  | timeout now candidates count h =>
      simp only [workTimeout, bind_eq_ok, pure_eq_ok, Prod.mk.injEq] at h
      obtain ⟨_, -, _, -, _, -, _, hwritten, _, -, rfl, -⟩ := h
      exact .inr ⟨_, hwritten⟩
  | missed now candidates count h =>
      simp only [workMissed, bind_eq_ok, pure_eq_ok, Prod.mk.injEq] at h
      obtain ⟨_, -, _, -, _, -, _, hwritten, _, -, rfl, -⟩ := h
      exact .inr ⟨_, hwritten⟩
  | uptime now leaseUntil candidates claimed h =>
      simp only [workUptime, bind_eq_ok, pure_eq_ok, Prod.mk.injEq] at h
      obtain ⟨_, -, _, -, _, hwritten, rfl, -⟩ := h
      exact .inr ⟨_, hwritten⟩
  | projects projects => exact .inl rfl

theorem steps_rows (hok : RowsOk store.monitors) (hsteps : ReflTransGen (Step blake3) store later) :
    RowsOk later.monitors := by
  induction hsteps with
  | refl => exact hok
  | tail _ hstep ih =>
      rcases hstep.written with hsame | ⟨values, hwritten⟩
      · rw [hsame]
        exact ih
      · exact ih.write hwritten

end Writes

/-! ### The batch of the worker -/

/-- The rows that a call of `materialize_due_missed` loads: due, under its limits of count and of bytes. -/
def missedBatch (store : MonitorStore) (now : Timestamp) (batchSize : Nat) : Table MonitorId StoredMonitor :=
  (loadMonitors store ((dueCandidates store now batchSize false).filter fun id =>
    store.monitors[id]?.any fun row => store.isLive row.definition.projectId) true).toOption.getD ∅

/-- Every monitor of the batch whose schedule has a next occurrence is expected at that next. -/
def AdvancesEach (blake3 : List (BitVec 8) → BitVec 256) (store : MonitorStore) (now : Timestamp) (batchSize : Nat) :
    Prop :=
  ∀ (id : MonitorId) (row : StoredMonitor), (missedBatch store now batchSize)[id]? = some row →
    ∀ next, row.definition.config.schedule.nextAfter now = .ok next →
      (committed store (materializeDueMissed blake3 store now batchSize)).monitors[id]?.map
        (·.definition.nextExpectedAt) = some next

/-- The check-in that the monitor saw last was received after the instant. -/
def SeenAfter (definition : MonitorDefinition) (now : Timestamp) : Prop :=
  definition.lastCheckInAt.any (now < ·) = true

/-- The next slot after the instant and its due time exist. -/
def HasSlot (definition : MonitorDefinition) (now : Timestamp) : Prop :=
  definition.createdAt ≤ now ∧ ∃ next dueAt, definition.config.schedule.nextAfter now = .ok next
    ∧ definition.config.missedAt next = .ok dueAt

/-- The id of the missed run of the current slot is not that of a run of something else. -/
def SlotFree (blake3 : List (BitVec 8) → BitVec 256) (store : MonitorStore) (definition : MonitorDefinition) : Prop :=
  ∀ stored, store.runs[MonitorRunId.missed blake3 definition.id definition.nextExpectedAt]? = some stored →
    stored.projectId = definition.projectId ∧ stored.monitorId = definition.id ∧ stored.checkInId = none
      ∧ stored.source = .scheduler

/-- The worker gets past the monitor. -/
def Passable (blake3 : List (BitVec 8) → BitVec 256) (store : MonitorStore) (now : Timestamp)
    (definition : MonitorDefinition) : Prop :=
  (addDays now store.runsDays).isOk ∧ SlotFree blake3 store definition
    ∧ (SeenAfter definition now ∨ HasSlot definition now)

section Batch

variable {blake3 : List (BitVec 8) → BitVec 256} {store : MonitorStore} {now : Timestamp} {batchSize : Nat}

theorem Written.validate {row : StoredMonitor} (h : Written row) : row.definition.validate = .ok () := by
  obtain ⟨size, hsize⟩ := h.encoded
  simp only [encodeConfig, bind_eq_ok, invalid_eq_ok] at hsize
  obtain ⟨_, hvalid, -⟩ := hsize
  exact hvalid

theorem exists_decodeMonitors {bytes : Nat} {rows : List (MonitorId × StoredMonitor)}
    {values : Table MonitorId StoredMonitor} (h : ∀ row ∈ rows, Written row.2) :
    ∃ loaded, decodeMonitors true bytes rows values = .ok loaded := by
  induction rows generalizing bytes values with
  | nil => exact ⟨values, rfl⟩
  | cons row rows ih =>
      obtain ⟨hrow, hrows⟩ := List.forall_mem_cons.mp h
      rw [decodeMonitors]
      by_cases hfull : maxBatchBytes < bytes + configSize row.2.definition + 512
      · exact ⟨values, (if_pos hfull).trans (if_pos rfl)⟩
      · have hdecoded : decodeMonitor row.2 = .ok row.2 := by
          obtain ⟨dueAt, hdue⟩ := hrow.due
          simp only [decodeMonitor, bind_eq_ok, invalid_eq_ok, pure_eq_ok]
          exact ⟨(), hrow.validate, dueAt, hdue, trivial⟩
        rw [if_neg hfull, hdecoded]
        exact ih hrows

theorem exists_loadMonitors (hok : RowsOk store.monitors) (ids : List MonitorId) :
    ∃ loaded, loadMonitors store ids true = .ok loaded :=
  exists_decodeMonitors fun _ hrow => (hok _ _ (Table.of_mem_selectAny hrow).1).2

theorem exists_loadRuns (hok : RunsOk blake3 store.runs) (ids : List MonitorRunId) :
    ∃ loaded, loadRuns store ids = .ok loaded := by
  refine foldlM_ok_of_forall _ _ fun state row hrow => ?_
  obtain ⟨-, hvalid, -⟩ := hok _ _ (Table.of_mem_selectAny hrow).1
  refine ⟨state.insert row.1 row.2, ?_⟩
  rw [decodeRun, hvalid]
  rfl

/-- A row of the batch is a stored cron monitor that is due. -/
theorem mem_missedBatch (hok : RowsOk store.monitors) {id : MonitorId} {row : StoredMonitor}
    (hget : (missedBatch store now batchSize)[id]? = some row) :
    store.monitors[id]? = some row ∧ Overdue store now row ∧ row.definition.nextExpectedAt ≤ now := by
  obtain ⟨loaded, hloaded⟩ := exists_loadMonitors hok ((dueCandidates store now batchSize false).filter fun id =>
    store.monitors[id]?.any fun row => store.isLive row.definition.projectId)
  rw [missedBatch, hloaded] at hget
  obtain ⟨hstored, hmem⟩ := loadMonitors_sound hloaded hget
  obtain ⟨hid, hwritten⟩ := hok _ _ hstored
  obtain ⟨found, hfound, hfoundId⟩ := List.mem_map.mp (List.mem_filter.mp hmem).1
  have hfilter := (List.mem_insertionSort _).mp (List.mem_of_mem_take hfound)
  obtain ⟨hrow, hselected⟩ := List.mem_filter.mp hfilter
  obtain ⟨⟨key, stored⟩, hkey, rfl⟩ := List.mem_map.mp hrow
  have hkeyStored := Table.mem_toList.mp hkey
  obtain rfl : key = id := (hok _ _ hkeyStored).1.symm.trans hfoundId
  obtain rfl : stored = row := Option.some.inj (hkeyStored.symm.trans hstored)
  simp only [decide_eq_true_iff] at hselected
  obtain ⟨hcron, henabled, hdue, -, hlive⟩ := hselected
  obtain ⟨dueAt, hdueAt⟩ := hwritten.due
  rw [hdueAt] at hdue
  have hle : dueAt ≤ now := by simpa [Except.toOption] using hdue
  have hoverdue : Overdue store now stored := by
    refine ⟨hid ▸ hstored, hcron, ?_⟩
    rw [notDue, if_neg (by simp [hlive, henabled]), hdueAt]
    exact congrArg Except.ok (decide_eq_false (not_lt.mpr hle))
  exact ⟨hstored, hoverdue, MissedSlots.next_le_of_overdue hoverdue⟩

theorem missedRun_validate {definition : MonitorDefinition} {deleteAt : Timestamp}
    (hslot : definition.nextExpectedAt ≤ now) : (missedRun blake3 definition now deleteAt).validate = .ok () := by
  rw [MonitorRun.validate, failIf_eq_ok]
  simp [missedRun, MonitorRunStatus.isTerminal]
  exact decide_eq_false (not_lt.mpr hslot)

theorem validate_projectedOn_of_lt {definition : MonitorDefinition} {run : MonitorRun} {next : Timestamp}
    (hvalid : definition.validate = .ok ()) (hcreated : definition.createdAt ≤ run.receivedAt) :
    (projectedOn definition run next).validate = .ok () := by
  simp only [MonitorDefinition.validate, bind_eq_ok, failIf_eq_ok] at hvalid ⊢
  obtain ⟨_, hslug, _, hname, _, henvironment, _, hconfig, _, huptime, hlast⟩ := hvalid
  refine ⟨(), hslug, (), hname, (), henvironment, (), hconfig, (), huptime, ?_⟩
  rw [not_or] at hlast ⊢
  exact ⟨hlast.1, not_lt.mpr hcreated⟩

/-- What the worker needs of a row before it writes: everything but a due time of the next slot. -/
def Recordable (blake3 : List (BitVec 8) → BitVec 256) (store : MonitorStore) (now : Timestamp)
    (definition : MonitorDefinition) : Prop :=
  (addDays now store.runsDays).isOk ∧ SlotFree blake3 store definition
    ∧ (SeenAfter definition now ∨ definition.createdAt ≤ now ∧ ∃ next, definition.config.schedule.nextAfter now = .ok next)

/-- What the worker collects for a row: the row itself where a later check-in was seen, and else the row with the
missed run projected on it. -/
def MissedCollected (blake3 : List (BitVec 8) → BitVec 256) (now : Timestamp) (old collected : StoredMonitor) : Prop :=
  (SeenAfter old.definition now ∧ collected = old)
    ∨ ¬ SeenAfter old.definition now ∧ old.definition.createdAt ≤ now ∧ ∃ deleteAt next lease,
      old.definition.config.schedule.nextAfter now = .ok next
        ∧ collected = ⟨projectedOn old.definition (missedRun blake3 old.definition now deleteAt) next, lease⟩

theorem projectRun_missed {old : StoredMonitor} {deleteAt : Timestamp} {projected : StoredMonitor × Bool}
    (h : projectRun old (missedRun blake3 old.definition now deleteAt) = .ok projected) :
    MissedCollected blake3 now old projected.1 := by
  unfold projectRun at h
  split_ifs at h with hseen
  · obtain rfl := Except.ok.inj h
    exact .inl ⟨hseen, rfl⟩
  · simp only [bind_eq_ok, invalid_eq_ok, pure_eq_ok] at h
    obtain ⟨next, hnext, _, hvalid, rfl⟩ := h
    simp only [MonitorDefinition.validate, bind_eq_ok, failIf_eq_ok] at hvalid
    obtain ⟨_, -, _, -, _, -, _, -, _, -, hlast⟩ := hvalid
    rw [not_or] at hlast
    exact .inr ⟨hseen, not_lt.mp hlast.2, deleteAt, next, _, invalid_eq_ok.mp hnext, rfl⟩

theorem exists_projectRun {old : StoredMonitor} (deleteAt : Timestamp) (hwritten : Written old)
    (h : SeenAfter old.definition now ∨ old.definition.createdAt ≤ now
      ∧ ∃ next, old.definition.config.schedule.nextAfter now = .ok next) :
    ∃ projected, projectRun old (missedRun blake3 old.definition now deleteAt) = .ok projected := by
  by_cases hseen : SeenAfter old.definition now
  · exact ⟨(old, false), if_pos hseen⟩
  · obtain ⟨hcreated, next, hnext⟩ := h.resolve_left hseen
    have hvalid : (projectedOn old.definition (missedRun blake3 old.definition now deleteAt) next).validate = .ok () :=
      validate_projectedOn_of_lt hwritten.validate hcreated
    have hprojected : projectedNext old.definition (missedRun blake3 old.definition now deleteAt) = .ok next :=
      (if_pos rfl).trans (invalid_eq_ok.mpr hnext)
    unfold projectRun
    split_ifs with hlater
    · exact absurd hlater hseen
    · simp only [bind_eq_ok, invalid_eq_ok, pure_eq_ok]
      exact ⟨_, next, hprojected, (), hvalid, rfl⟩

variable {missedRuns : Table MonitorRunId MonitorRun} {state next : Terminalized} {old : StoredMonitor}

theorem merge_missedRun_ok (deleteAt : Timestamp) (hok : RunsOk blake3 store.runs) {definition : MonitorDefinition}
    (hslot : definition.nextExpectedAt ≤ now) :
    (∃ merged, merge store.runs[MonitorRunId.missed blake3 definition.id definition.nextExpectedAt]?
      (missedRun blake3 definition now deleteAt) = .ok merged) ↔ SlotFree blake3 store definition := by
  simp only [merge, missedRun_validate hslot, invalid, Except.mapError]
  unfold SlotFree
  cases hstored : store.runs[MonitorRunId.missed blake3 definition.id definition.nextExpectedAt]? with
  | none => exact ⟨fun _ _ h => (by cases h), fun _ => ⟨_, rfl⟩⟩
  | some stored =>
      simp only [Option.some.injEq, forall_eq']
      constructor
      · rintro ⟨merged, hmerged⟩
        change mergeExisting stored _ = _ at hmerged
        simp only [mergeExisting, bind_eq_ok, failIf_eq_ok] at hmerged
        obtain ⟨_, hsame, -⟩ := hmerged
        simp only [not_or, not_not, ne_eq] at hsame
        exact hsame
      · rintro ⟨hproject, hmonitor, hcheckIn, hsource⟩
        have hterminal : stored.status ≠ .inProgress := by
          intro hprogress
          have hsdk := (hok _ _ hstored).2.2.source_of_inProgress hprogress
          exact absurd (hsdk.symm.trans hsource) (by decide)
        refine ⟨none, ?_⟩
        change mergeExisting stored _ = _
        simp only [mergeExisting, bind_eq_ok, failIf_eq_ok]
        refine ⟨(), ?_, if_pos (.inl hterminal)⟩
        simp only [not_or, not_not, ne_eq]
        exact ⟨hproject, hmonitor, hcheckIn, hsource⟩

/-- A pass of the worker over an overdue row. -/
theorem materializeMissed_overdue (hoverdue : Overdue store now old) :
    materializeMissed blake3 store now missedRuns state old = recordMissed blake3 store now missedRuns state old := by
  rw [materializeMissed, hoverdue.due]
  exact if_neg (by simp [hoverdue.cron])

theorem recordMissed_iff (hok : RunsOk blake3 store.runs) (hwritten : Written old)
    (hslot : old.definition.nextExpectedAt ≤ now)
    (hknown : missedRuns[MonitorRunId.missed blake3 old.definition.id old.definition.nextExpectedAt]?
      = store.runs[MonitorRunId.missed blake3 old.definition.id old.definition.nextExpectedAt]?) :
    (∃ next, recordMissed blake3 store now missedRuns state old = .ok next) ↔ Recordable blake3 store now old.definition := by
  constructor
  · rintro ⟨next, h⟩
    simp only [recordMissed, bind_eq_ok] at h
    obtain ⟨deleteAt, hdelete, merged, hmerged, projected, hprojected, -⟩ := h
    refine ⟨by rw [hdelete]; rfl, (merge_missedRun_ok deleteAt hok hslot).mp ⟨merged, ?_⟩, ?_⟩
    · rw [← hknown]
      exact hmerged
    · rcases projectRun_missed hprojected with ⟨hseen, -⟩ | ⟨-, hcreated, -, next, -, hnext, -⟩
      · exact .inl hseen
      · exact .inr ⟨hcreated, next, hnext⟩
  · rintro ⟨hdelete, hfree, hprojects⟩
    obtain ⟨deleteAt, hdelete⟩ := exists_ok_of_isOk hdelete
    obtain ⟨merged, hmerged⟩ := (merge_missedRun_ok deleteAt hok hslot).mpr hfree
    obtain ⟨projected, hprojected⟩ : ∃ projected,
        projectRun old (missedRun blake3 old.definition now deleteAt) = .ok projected :=
      exists_projectRun deleteAt hwritten hprojects
    rw [← hknown] at hmerged
    simp only [recordMissed, bind_eq_ok, pure_eq_ok]
    exact ⟨_, deleteAt, hdelete, merged, hmerged, projected, hprojected, rfl⟩

theorem recordMissed_changed (h : recordMissed blake3 store now missedRuns state old = .ok next) :
    ∃ collected, MissedCollected blake3 now old collected ∧ next.changed = state.changed.insert old.definition.id collected := by
  simp only [recordMissed, bind_eq_ok, pure_eq_ok] at h
  obtain ⟨deleteAt, -, merged, -, projected, hprojected, rfl⟩ := h
  exact ⟨projected.1, projectRun_missed hprojected, rfl⟩

/-- The loop collects something for each of its rows, and for nothing else. -/
theorem collected_of_loop {rows : List StoredMonitor} (hnodup : (rows.map (·.definition.id)).Nodup)
    (hoverdue : ∀ row ∈ rows, Overdue store now row)
    (h : rows.foldlM (materializeMissed blake3 store now missedRuns) state = .ok next) :
    (∀ row ∈ rows, ∃ collected, MissedCollected blake3 now row collected ∧ next.changed[row.definition.id]? = some collected)
      ∧ ∀ id : MonitorId, id ∉ rows.map (·.definition.id) → next.changed[id]? = state.changed[id]? := by
  induction rows generalizing state with
  | nil =>
      obtain rfl := Except.ok.inj h
      exact ⟨fun _ hrow => (nomatch hrow), fun _ _ => rfl⟩
  | cons row rows ih =>
      obtain ⟨hfresh, hnodup⟩ := List.nodup_cons.mp hnodup
      obtain ⟨hrow, hrows⟩ := List.forall_mem_cons.mp hoverdue
      rw [List.foldlM_cons, bind_eq_ok, materializeMissed_overdue hrow] at h
      obtain ⟨after, hafter, h⟩ := h
      obtain ⟨collected, hcollected, hchanged⟩ := recordMissed_changed hafter
      obtain ⟨heach, hrest⟩ := ih hnodup hrows h
      refine ⟨List.forall_mem_cons.mpr ⟨⟨collected, hcollected, ?_⟩, heach⟩, fun id hid => ?_⟩
      · rw [hrest _ hfresh, hchanged, Table.get_insert_self]
      · rw [List.map_cons, List.mem_cons, not_or] at hid
        rw [hrest id hid.2, hchanged, Table.get_insert_of_ne _ _ (Ne.symm hid.1)]

theorem changed_of_loop {rows : List StoredMonitor} (hnodup : (rows.map (·.definition.id)).Nodup)
    (hoverdue : ∀ row ∈ rows, Overdue store now row)
    (h : rows.foldlM (materializeMissed blake3 store now missedRuns) ⟨∅, ∅, 0⟩ = .ok next) {id : MonitorId}
    {value : StoredMonitor} (hget : next.changed[id]? = some value) :
    ∃ row ∈ rows, row.definition.id = id ∧ MissedCollected blake3 now row value := by
  obtain ⟨heach, hrest⟩ := collected_of_loop hnodup hoverdue h
  by_cases hmem : id ∈ rows.map (·.definition.id)
  · obtain ⟨row, hrow, rfl⟩ := List.mem_map.mp hmem
    obtain ⟨collected, hcollected, hstored⟩ := heach row hrow
    obtain rfl := Option.some.inj (hget.symm.trans hstored)
    exact ⟨row, hrow, rfl, hcollected⟩
  · rw [hrest id hmem, Table.get_empty] at hget
    exact nomatch hget

theorem loop_iff (state : Terminalized) (hok : RunsOk blake3 store.runs) {rows : List StoredMonitor}
    (hrows : ∀ row ∈ rows, Overdue store now row ∧ Written row ∧ row.definition.nextExpectedAt ≤ now
      ∧ missedRuns[MonitorRunId.missed blake3 row.definition.id row.definition.nextExpectedAt]?
        = store.runs[MonitorRunId.missed blake3 row.definition.id row.definition.nextExpectedAt]?) :
    (∃ next, rows.foldlM (materializeMissed blake3 store now missedRuns) state = .ok next)
      ↔ ∀ row ∈ rows, Recordable blake3 store now row.definition := by
  induction rows generalizing state with
  | nil => exact ⟨fun _ _ hrow => (nomatch hrow), fun _ => ⟨state, rfl⟩⟩
  | cons row rows ih =>
      obtain ⟨⟨hoverdue, hwritten, hslot, hknown⟩, hrows⟩ := List.forall_mem_cons.mp hrows
      rw [List.forall_mem_cons]
      simp only [List.foldlM_cons, bind_eq_ok, materializeMissed_overdue hoverdue]
      constructor
      · rintro ⟨next, after, hafter, hnext⟩
        exact ⟨(recordMissed_iff hok hwritten hslot hknown).mp ⟨after, hafter⟩, (ih after hrows).mp ⟨next, hnext⟩⟩
      · rintro ⟨hrecordable, hrest⟩
        obtain ⟨after, hafter⟩ := (recordMissed_iff hok hwritten hslot hknown).mpr hrecordable
        obtain ⟨next, hnext⟩ := (ih after hrows).mpr hrest
        exact ⟨next, after, hafter, hnext⟩

/-- The rows of the batch in the order of the worker. -/
def orderedBatch (store : MonitorStore) (now : Timestamp) (batchSize : Nat) : List StoredMonitor :=
  ((missedBatch store now batchSize).toList.map Prod.snd).insertionSort fun left right => dueBefore left right

theorem mem_orderedBatch (hok : RowsOk store.monitors) {row : StoredMonitor} :
    row ∈ orderedBatch store now batchSize ↔ (missedBatch store now batchSize)[row.definition.id]? = some row := by
  rw [orderedBatch, List.mem_insertionSort, List.mem_map]
  constructor
  · rintro ⟨⟨id, _⟩, hmem, rfl⟩
    have hget := Table.mem_toList.mp hmem
    rw [(hok _ _ (mem_missedBatch hok hget).1).1]
    exact hget
  · exact fun hget => ⟨_, Table.mem_toList.mpr hget, rfl⟩

theorem nodup_orderedBatch (hok : RowsOk store.monitors) :
    ((orderedBatch store now batchSize).map (·.definition.id)).Nodup := by
  have hkeyed : Keyed (missedBatch store now batchSize) := fun id row hget => (hok _ _ (mem_missedBatch hok hget).1).1
  refine ((List.perm_insertionSort _ _).map _).nodup_iff.mpr ?_
  rw [Table.map_keyOf_toList hkeyed]
  exact Table.nodup_keys_toList _

/-- What the worker has of the runs under the ids of its missed runs. -/
theorem loadRuns_batch (hok : RowsOk store.monitors) {missedRuns : Table MonitorRunId MonitorRun}
    (h : loadRuns store ((((missedBatch store now batchSize).toList.map Prod.snd).filter (!·.definition.isUptime)).map
      fun row => MonitorRunId.missed blake3 row.definition.id row.definition.nextExpectedAt) = .ok missedRuns) :
    ∀ row ∈ orderedBatch store now batchSize, Overdue store now row ∧ Written row ∧ row.definition.nextExpectedAt ≤ now
      ∧ missedRuns[MonitorRunId.missed blake3 row.definition.id row.definition.nextExpectedAt]?
        = store.runs[MonitorRunId.missed blake3 row.definition.id row.definition.nextExpectedAt]? := by
  intro row hrow
  have hget := (mem_orderedBatch hok).mp hrow
  obtain ⟨hstored, hoverdue, hslot⟩ := mem_missedBatch hok hget
  refine ⟨hoverdue, (hok _ _ hstored).2, hslot, loadRuns_complete h ?_ ?_⟩
  · obtain ⟨loaded, hloaded⟩ := exists_loadMonitors hok ((dueCandidates store now batchSize false).filter fun id =>
      store.monitors[id]?.any fun row => store.isLive row.definition.projectId)
    have hlength := length_loadMonitors_le hloaded
    have hbatch : missedBatch store now batchSize = loaded := by rw [missedBatch, hloaded]; rfl
    rw [hbatch, List.length_map]
    refine (List.length_filter_le _ _).trans ?_
    rw [List.length_map]
    exact hlength
  · refine List.mem_map.mpr ⟨row, List.mem_filter.mpr ⟨?_, by simp [hoverdue.cron]⟩, rfl⟩
    exact (List.mem_insertionSort _).mp hrow

/-- What is collected can be written. -/
theorem MissedCollected.written {row collected : StoredMonitor} (h : MissedCollected blake3 now row collected) (hwritten : Written row)
    (hcron : row.definition.isUptime = false) :
    Written collected ↔ SeenAfter row.definition now ∨ ∃ next dueAt, row.definition.config.schedule.nextAfter now = .ok next
      ∧ row.definition.config.missedAt next = .ok dueAt := by
  rcases h with ⟨hseen, rfl⟩ | ⟨hseen, hcreated, deleteAt, next, lease, hnext, rfl⟩
  · exact ⟨fun _ => .inl hseen, fun _ => hwritten⟩
  · have hdue : due (projectedOn row.definition (missedRun blake3 row.definition now deleteAt) next)
        = invalid (row.definition.config.missedAt next) := by
      rw [due, if_neg]
      · rfl
      · change ¬ row.definition.isUptime = true
        rw [hcron]
        simp
    constructor
    · intro hcollected
      obtain ⟨dueAt, hdueAt⟩ := hcollected.due
      rw [hdue, invalid_eq_ok] at hdueAt
      exact .inr ⟨next, dueAt, hnext, hdueAt⟩
    · intro hslot
      obtain ⟨next', dueAt, hnext', hdueAt⟩ := hslot.resolve_left hseen
      obtain rfl := Except.ok.inj (hnext.symm.trans hnext')
      refine ⟨?_, ⟨dueAt, by rw [hdue, hdueAt]; rfl⟩, hwritten.revision⟩
      obtain ⟨size, hsize⟩ := hwritten.encoded
      refine ⟨size, ?_⟩
      simp only [encodeConfig, bind_eq_ok, invalid_eq_ok] at hsize ⊢
      obtain ⟨_, hvalid, hrest⟩ := hsize
      exact ⟨(), validate_projectedOn_of_lt hvalid hcreated, hrest⟩

theorem MissedCollected.same {row collected : StoredMonitor} (h : MissedCollected blake3 now row collected) :
    collected.definition.id = row.definition.id ∧ collected.definition.projectId = row.definition.projectId := by
  rcases h with ⟨-, rfl⟩ | ⟨-, -, deleteAt, next, lease, -, rfl⟩
  · exact ⟨rfl, rfl⟩
  · exact ⟨rfl, rfl⟩

/-- A call that commits got past each row of its batch, and stores what it collected for it. -/
theorem materializeDueMissed_rows (hrows : RowsOk store.monitors) (hruns : RunsOk blake3 store.runs) {after : MonitorStore}
    {count : Nat} (h : materializeDueMissed blake3 store now batchSize = .ok (after, count)) :
    ∀ row ∈ orderedBatch store now batchSize, Passable blake3 store now row.definition
      ∧ ∃ collected, MissedCollected blake3 now row collected ∧ after.monitors[row.definition.id]? = some collected := by
  simp only [materializeDueMissed, workMissed, bind_eq_ok, pure_eq_ok, Prod.mk.injEq] at h
  obtain ⟨_, -, monitors, hmonitors, missedRuns, hmissed, done, hdone, written, hwritten, runs, -, rfl, -⟩ := h
  obtain rfl : monitors = missedBatch store now batchSize := by rw [missedBatch, hmonitors]; rfl
  change (orderedBatch store now batchSize).foldlM _ _ = _ at hdone
  have hbatch := loadRuns_batch hrows hmissed
  have hrecordable := (loop_iff _ hruns hbatch).mp ⟨done, hdone⟩
  obtain ⟨heach, hrest⟩ := collected_of_loop (nodup_orderedBatch hrows) (fun row hrow => (hbatch row hrow).1) hdone
  have hkeyed : Keyed done.changed := by
    intro id value hget
    obtain ⟨row, -, rfl, hcollected⟩ :=
      changed_of_loop (nodup_orderedBatch hrows) (fun row hrow => (hbatch row hrow).1) hdone hget
    exact hcollected.same.1
  intro row hrow
  obtain ⟨collected, hcollected, hstored⟩ := heach row hrow
  obtain ⟨hoverdue, hrowWritten, -⟩ := hbatch row hrow
  obtain ⟨hdelete, hfree, hprojects⟩ := hrecordable row hrow
  have hvalue : Written collected :=
    writeMonitors_written hwritten collected (List.mem_map.mpr ⟨_, Table.mem_toList.mpr hstored, rfl⟩)
  refine ⟨⟨hdelete, hfree, ?_⟩, collected, hcollected, ?_⟩
  · rcases (hcollected.written hrowWritten hoverdue.cron).mp hvalue with hseen | hslot
    · exact .inl hseen
    · exact hprojects.imp id fun hcreated => ⟨hcreated.1, hslot⟩
  · rw [writeMonitors_collected hkeyed hwritten, hstored, Option.some_or]

/-- A call that gets past each row of its batch commits. -/
theorem exists_materializeDueMissed (hrows : RowsOk store.monitors) (hruns : RunsOk blake3 store.runs)
    (hsize : 1 ≤ batchSize ∧ batchSize ≤ maxBatch)
    (h : ∀ row ∈ orderedBatch store now batchSize, Passable blake3 store now row.definition) :
    ∃ result, materializeDueMissed blake3 store now batchSize = .ok result := by
  obtain ⟨monitors, hmonitors⟩ := exists_loadMonitors hrows ((dueCandidates store now batchSize false).filter fun id =>
    store.monitors[id]?.any fun row => store.isLive row.definition.projectId)
  obtain rfl : monitors = missedBatch store now batchSize := by rw [missedBatch, hmonitors]; rfl
  obtain ⟨missedRuns, hmissed⟩ := exists_loadRuns hruns
    ((((missedBatch store now batchSize).toList.map Prod.snd).filter (!·.definition.isUptime)).map
      fun row => MonitorRunId.missed blake3 row.definition.id row.definition.nextExpectedAt)
  have hbatch := loadRuns_batch hrows hmissed
  obtain ⟨done, hdone⟩ := (loop_iff ⟨∅, ∅, 0⟩ hruns hbatch).mpr fun row hrow =>
    ⟨(h row hrow).1, (h row hrow).2.1, (h row hrow).2.2.imp id fun ⟨hcreated, next, _, hnext, _⟩ => ⟨hcreated, next, hnext⟩⟩
  have hchanged : ∀ id value, done.changed[id]? = some value →
      ∃ row ∈ orderedBatch store now batchSize, row.definition.id = id ∧ MissedCollected blake3 now row value :=
    fun id value => changed_of_loop (nodup_orderedBatch hrows) (fun row hrow => (hbatch row hrow).1) hdone
  have hkeyed : Keyed done.changed := by
    intro id value hget
    obtain ⟨row, -, rfl, hcollected⟩ := hchanged id value hget
    exact hcollected.same.1
  have hruns' : MissedRows blake3 store now done := by
    refine foldlM_ok_induction (MissedRows blake3 store now) _ _ _ hdone ⟨by simp, by simp⟩ ?_
    intro state row after hrow hstate hstep
    obtain ⟨hoverdue, -, -, hknown⟩ := hbatch row hrow
    exact hstate.materializeMissed hruns hoverdue.stored (fun _ => hknown) hstep
  have hvalues : ∀ value ∈ done.changed.toList.map Prod.snd, ∃ row ∈ orderedBatch store now batchSize,
      MissedCollected blake3 now row value := by
    intro value hvalue
    obtain ⟨entry, hentry, rfl⟩ := List.mem_map.mp hvalue
    obtain ⟨row, hrow, -, hcollected⟩ := hchanged entry.1 entry.2 (Table.mem_toList.mp hentry)
    exact ⟨row, hrow, hcollected⟩
  obtain ⟨written, hwritten⟩ : ∃ written, writeMonitors store.monitors (done.changed.toList.map Prod.snd) = .ok written := by
    refine exists_writeMonitors ?_ (fun value hvalue => ?_) fun value hvalue stored hstored => ?_
    · rw [Table.map_keyOf_toList hkeyed]
      exact Table.nodup_keys_toList _
    · obtain ⟨row, hrow, hcollected⟩ := hvalues value hvalue
      obtain ⟨hoverdue, hrowWritten, -⟩ := hbatch row hrow
      exact (hcollected.written hrowWritten hoverdue.cron).mpr ((h row hrow).2.2.imp id And.right)
    · obtain ⟨row, hrow, hcollected⟩ := hvalues value hvalue
      obtain ⟨hoverdue, -⟩ := hbatch row hrow
      obtain ⟨hid, hproject⟩ := hcollected.same
      rw [hid, hoverdue.stored] at hstored
      obtain rfl := Option.some.inj hstored
      exact hproject.symm
  obtain ⟨runs, hwrittenRuns⟩ : ∃ runs, writeRuns store.runs (done.changedRuns.toList.map Prod.snd) = .ok runs := by
    refine exists_writeRuns ?_ (fun run hrun => ?_) fun run hrun => ?_
    · rw [Table.map_keyOf_toList fun id run hget => (hruns'.runs id run hget).1]
      exact Table.nodup_keys_toList _
    · obtain ⟨entry, hentry, rfl⟩ := List.mem_map.mp hrun
      obtain ⟨-, -, old, deleteAt, hoverdue, heq⟩ := hruns'.runs entry.1 entry.2 (Table.mem_toList.mp hentry)
      rw [heq]
      exact missedRun_validate (MissedSlots.next_le_of_overdue hoverdue)
    · obtain ⟨entry, hentry, rfl⟩ := List.mem_map.mp hrun
      exact (hruns'.runs entry.1 entry.2 (Table.mem_toList.mp hentry)).2.1
  simp only [materializeDueMissed, workMissed, bind_eq_ok, pure_eq_ok]
  exact ⟨_, (), if_pos hsize, _, hmonitors, missedRuns, hmissed, done, hdone, written, hwritten, runs, hwrittenRuns, rfl⟩

/-- A call advances each monitor of its batch that has a next slot exactly when it has seen no later check-in of such a
monitor, and gets past every monitor of the batch. -/
theorem advancesEach_iff (hrows : RowsOk store.monitors) (hruns : RunsOk blake3 store.runs)
    (hsize : 1 ≤ batchSize ∧ batchSize ≤ maxBatch) :
    AdvancesEach blake3 store now batchSize ↔
      ∀ (id : MonitorId) (row : StoredMonitor), (missedBatch store now batchSize)[id]? = some row →
        ∀ next, row.definition.config.schedule.nextAfter now = .ok next → ¬ SeenAfter row.definition now
          ∧ ∀ (other : MonitorId) (stored : StoredMonitor), (missedBatch store now batchSize)[other]? = some stored →
            Passable blake3 store now stored.definition := by
  have hordered : ∀ {id : MonitorId} {row : StoredMonitor}, (missedBatch store now batchSize)[id]? = some row →
      row ∈ orderedBatch store now batchSize ∧ row.definition.id = id := by
    intro id row hget
    have hid := (hrows _ _ (mem_missedBatch hrows hget).1).1
    exact ⟨(mem_orderedBatch hrows).mpr (hid.symm ▸ hget), hid⟩
  constructor
  · intro heach id row hget next hnext
    have hafter := heach id row hget next hnext
    obtain ⟨hstored, hoverdue, hslot⟩ := mem_missedBatch hrows hget
    have hnot : row.definition.nextExpectedAt ≠ next := by
      obtain ⟨size, hsize⟩ := (hrows _ _ hstored).2.encoded
      exact (lt_of_le_of_lt hslot (MonitorSchedule.nextAfter_gt (MissedSlots.encodeConfig_positive hsize) hnext)).ne
    cases hcall : materializeDueMissed blake3 store now batchSize with
    | error error =>
        rw [hcall, committed, hstored] at hafter
        exact absurd (Option.some.inj hafter) hnot
    | ok result =>
        have hpassed := materializeDueMissed_rows hrows hruns hcall
        obtain ⟨hrow, hid⟩ := hordered hget
        obtain ⟨-, collected, hcollected, hwritten⟩ := hpassed row hrow
        refine ⟨fun hseen => ?_, fun other stored hother => (hpassed stored (hordered hother).1).1⟩
        rcases hcollected with ⟨-, rfl⟩ | ⟨hnotSeen, -⟩
        · rw [hcall, committed, ← hid, hwritten] at hafter
          exact hnot (Option.some.inj hafter)
        · exact hnotSeen hseen
  · intro hcondition id row hget next hnext
    obtain ⟨hnotSeen, hpassable⟩ := hcondition id row hget next hnext
    obtain ⟨result, hcall⟩ := exists_materializeDueMissed hrows hruns hsize fun stored hstored =>
      hpassable _ _ ((mem_orderedBatch hrows).mp hstored)
    obtain ⟨hrow, hid⟩ := hordered hget
    obtain ⟨-, collected, hcollected, hwritten⟩ := materializeDueMissed_rows hrows hruns hcall row hrow
    rcases hcollected with ⟨hseen, -⟩ | ⟨-, -, deleteAt, next', lease, hnext', rfl⟩
    · exact absurd hseen hnotSeen
    · obtain rfl := Except.ok.inj (hnext.symm.trans hnext')
      rw [hcall, committed, ← hid, hwritten]
      rfl

end Batch

end MetricBackend.PostgresMonitors

namespace MetricBackend.MongoMonitors

/-! ### The scan of the Mongo store -/

/-- A call that runs to its end with no other in between. -/
inductive Finishes (blake3 : List (BitVec 8) → BitVec 256) : Database → Call → Database → Prop where
  | last {db after : Database} {call : Call} (h : advance blake3 db call = (after, none)) : Finishes blake3 db call after
  | step {db between after : Database} {call following : Call} (h : advance blake3 db call = (between, some following))
      (hrest : Finishes blake3 between following after) : Finishes blake3 db call after

theorem Finishes.unique {blake3 : List (BitVec 8) → BitVec 256} {db first second : Database} {call : Call}
    (hfirst : Finishes blake3 db call first) (hsecond : Finishes blake3 db call second) : first = second := by
  induction hfirst with
  | last h =>
      cases hsecond with
      | last h' => exact congrArg Prod.fst (h.symm.trans h')
      | step h' hrest' => exact nomatch congrArg Prod.snd (h.symm.trans h')
  | step h hrest ih =>
      cases hsecond with
      | last h' => exact nomatch congrArg Prod.snd (h.symm.trans h')
      | step h' hrest' =>
          obtain ⟨rfl, hcall⟩ := Prod.mk.inj (h.symm.trans h')
          obtain rfl := Option.some.inj hcall
          exact ih hrest'

/-- The rows that a call of `missed_inner` scans. -/
def missedRows (db : Database) (now : Timestamp) (batchSize : Nat) : List (MonitorId × MonitorDocument) :=
  dueRows db (fun document => !document.uptimeKind && document.definition.enabled && document.due ≤ now) batchSize

/-- The scan gets past the row: its run can be inserted, and the slot after the instant has a due time. -/
def Proceeds (blake3 : List (BitVec 8) → BitVec 256) (runsDays : Nat) (now : Timestamp) (row : MonitorId × MonitorDocument) :
    Prop :=
  (missedInsertion blake3 runsDays now row).isOk ∧ ∃ next dueAt, row.2.definition.config.schedule.nextAfter now = .ok next
    ∧ row.2.definition.config.missedAt next = .ok dueAt

/-- Every monitor of the scan whose schedule has a later occurrence is expected at that next. -/
def AdvancesEach (after : Database) (now : Timestamp) (rows : List (MonitorId × MonitorDocument)) : Prop :=
  ∀ row ∈ rows, ∀ next, row.2.definition.config.schedule.nextAfter now = .ok next →
    row.2.definition.nextExpectedAt < next →
      after.monitors[row.1]?.map (·.definition.nextExpectedAt) = some next

section Scan

variable {blake3 : List (BitVec 8) → BitVec 256} {db : Database} {now : Timestamp} {row : MonitorId × MonitorDocument}
  {rows : List (MonitorId × MonitorDocument)}

theorem missedInsertion_eq_ok {runsDays : Nat} {monitor : MonitorDefinition} {run : MonitorRun} {encoded : RunDocument}
    (h : missedInsertion blake3 runsDays now row = .ok (monitor, run, encoded)) : monitor = row.2.definition := by
  simp only [missedInsertion, bind_eq_ok, pure_eq_ok, Prod.mk.injEq] at h
  obtain ⟨decoded, hdecoded, _, -, _, -, rfl, -⟩ := h
  exact decodeMonitor_eq_ok hdecoded

/-- The two commands for a row that the scan does not get past leave the monitors alone. -/
theorem finishes_of_not_proceeds (rows : List (MonitorId × MonitorDocument)) (h : ¬ Proceeds blake3 db.runsDays now row) :
    ∃ after, Finishes blake3 db (.missedInsert now (row :: rows)) after ∧ after.monitors = db.monitors := by
  cases hinsertion : missedInsertion blake3 db.runsDays now row with
  | error error =>
      refine ⟨db, .last ?_, rfl⟩
      rw [advance, hinsertion]
      rfl
  | ok inserted =>
      obtain ⟨monitor, run, encoded⟩ := inserted
      obtain rfl := missedInsertion_eq_ok hinsertion
      have hfirst : advance blake3 db (.missedInsert now (row :: rows))
          = (insertRun db run.id encoded, some (.missedAdvance now row.1 row.2.definition run rows)) := by
        rw [advance, hinsertion]
        rfl
      refine ⟨insertRun db run.id encoded, .step hfirst (.last ?_), rfl⟩
      rw [advance]
      cases hnext : row.2.definition.config.schedule.nextAfter now with
      | error error => rfl
      | ok next =>
          cases hdue : row.2.definition.config.missedAt next with
          | error error =>
              change onSuccess _ (invalid (row.2.definition.config.missedAt next)) _ = _
              rw [hdue]
              rfl
          | ok dueAt => exact absurd ⟨by rw [hinsertion]; rfl, next, dueAt, hnext, hdue⟩ h

/-- The two commands for a row that the scan gets past. -/
theorem advance_of_proceeds (rows : List (MonitorId × MonitorDocument)) (h : Proceeds blake3 db.runsDays now row) (hstored : db.monitors[row.1]? = some row.2) :
    ∃ between inserted next dueAt runId, advance blake3 db (.missedInsert now (row :: rows)) = (inserted, some between)
      ∧ row.2.definition.config.schedule.nextAfter now = .ok next
      ∧ advance blake3 inserted between
        = ({ inserted with monitors := db.monitors.insert row.1 (row.2.miss next dueAt now runId) },
          some (.missedInsert now rows))
      ∧ inserted.runsDays = db.runsDays := by
  obtain ⟨hok, next, dueAt, hnext, hdue⟩ := h
  obtain ⟨⟨monitor, run, encoded⟩, hinsertion⟩ := exists_ok_of_isOk hok
  obtain rfl := missedInsertion_eq_ok hinsertion
  refine ⟨.missedAdvance now row.1 row.2.definition run rows, insertRun db run.id encoded, next, dueAt, run.id, ?_, hnext, ?_, rfl⟩
  · rw [advance, hinsertion]
    rfl
  · have hset : setMissed (insertRun db run.id encoded) row.1 row.2.definition.nextExpectedAt next dueAt now run.id
        = { insertRun db run.id encoded with monitors := db.monitors.insert row.1 (row.2.miss next dueAt now run.id) } := by
      have hkept : (insertRun db run.id encoded).monitors[row.1]? = some row.2 := hstored
      unfold setMissed
      rw [hkept]
      exact if_pos rfl
    rw [advance, hnext]
    change onSuccess _ (invalid (row.2.definition.config.missedAt next)) _ = _
    rw [hdue]
    change (setMissed (insertRun db run.id encoded) row.1 row.2.definition.nextExpectedAt next dueAt now run.id, _) = _
    rw [hset]

/-- The scan ends, and has advanced the rows before the first one that it did not get past. -/
theorem exists_finishes (hnodup : (rows.map Prod.fst).Nodup) (hrows : ∀ row ∈ rows, db.monitors[row.1]? = some row.2) :
    ∃ after, Finishes blake3 db (.missedInsert now rows) after
      ∧ (∀ id : MonitorId, id ∉ rows.map Prod.fst → after.monitors[id]? = db.monitors[id]?)
      ∧ ∀ before row rest, rows = before ++ row :: rest →
        ((∀ passed ∈ before, Proceeds blake3 db.runsDays now passed) ∧ Proceeds blake3 db.runsDays now row →
          ∃ next, row.2.definition.config.schedule.nextAfter now = .ok next
            ∧ after.monitors[row.1]?.map (·.definition.nextExpectedAt) = some next)
        ∧ (¬ ((∀ passed ∈ before, Proceeds blake3 db.runsDays now passed) ∧ Proceeds blake3 db.runsDays now row) →
          after.monitors[row.1]? = some row.2) := by
  induction rows generalizing db with
  | nil => exact ⟨db, .last rfl, fun _ _ => rfl, fun before row rest hsplit => absurd hsplit (by simp)⟩
  | cons first rows ih =>
      obtain ⟨hfresh, hnodup⟩ := List.nodup_cons.mp hnodup
      obtain ⟨hstored, hrows'⟩ := List.forall_mem_cons.mp hrows
      by_cases hproceeds : Proceeds blake3 db.runsDays now first
      · obtain ⟨between, inserted, next, dueAt, runId, hinsert, hnext, hadvance, hdays⟩ :=
          advance_of_proceeds rows hproceeds hstored
        have hkept : ∀ id : MonitorId, id ≠ first.1 →
            (db.monitors.insert first.1 (first.2.miss next dueAt now runId))[id]? = db.monitors[id]? :=
          fun id hid => Table.get_insert_of_ne _ _ (Ne.symm hid)
        have hrest : ∀ row ∈ rows, row.1 ≠ first.1 :=
          fun row hrow hid => hfresh (List.mem_map.mpr ⟨row, hrow, hid⟩)
        obtain ⟨after, hfinishes, hothers, hspec⟩ :=
          @ih { inserted with monitors := db.monitors.insert first.1 (first.2.miss next dueAt now runId) } hnodup
            fun row hrow => (hkept row.1 (hrest row hrow)).trans (hrows' row hrow)
        simp only [hdays] at hspec
        refine ⟨after, .step hinsert (.step hadvance hfinishes), fun id hid => ?_, fun before row rest hsplit => ?_⟩
        · rw [List.map_cons, List.mem_cons, not_or] at hid
          exact (hothers id hid.2).trans (hkept id hid.1)
        · cases before with
          | nil =>
              obtain ⟨rfl, -⟩ := List.cons.inj hsplit
              refine ⟨fun _ => ⟨next, hnext, ?_⟩, fun hnot => absurd ⟨fun _ hpassed => (nomatch hpassed), hproceeds⟩ hnot⟩
              rw [hothers _ hfresh]
              change (db.monitors.insert first.1 (first.2.miss next dueAt now runId))[first.1]?.map _ = _
              rw [Table.get_insert_self]
              rfl
          | cons head before =>
              obtain ⟨rfl, htail⟩ := List.cons.inj hsplit
              obtain ⟨hgood, hbad⟩ := hspec before row rest htail
              exact ⟨fun hpassed => hgood ⟨fun passed hmem => hpassed.1 passed (List.mem_cons_of_mem _ hmem), hpassed.2⟩,
                fun hnot => hbad fun hpassed => hnot ⟨List.forall_mem_cons.mpr ⟨hproceeds, hpassed.1⟩, hpassed.2⟩⟩
      · obtain ⟨after, hfinishes, hmonitors⟩ := finishes_of_not_proceeds rows hproceeds
        refine ⟨after, hfinishes, fun id _ => by rw [hmonitors], fun before row rest hsplit => ⟨fun hpassed => ?_, fun _ => ?_⟩⟩
        · cases before with
          | nil =>
              obtain ⟨rfl, -⟩ := List.cons.inj hsplit
              exact absurd hpassed.2 hproceeds
          | cons head before =>
              obtain ⟨rfl, -⟩ := List.cons.inj hsplit
              exact absurd (hpassed.1 first List.mem_cons_self) hproceeds
        · rw [hmonitors]
          exact hrows row (hsplit ▸ List.mem_append_right _ List.mem_cons_self)

theorem nodup_missedRows {batchSize : Nat} : ((missedRows db now batchSize).map Prod.fst).Nodup := by
  rw [missedRows, dueRows]
  refine ((List.take_sublist _ _).map _).nodup ?_
  refine ((List.perm_insertionSort _ _).map _).nodup_iff.mpr ?_
  exact (List.filter_sublist.map _).nodup (Table.nodup_keys_toList _)

/-- A call advances each monitor of its scan that has a later occurrence exactly when it gets past that one and every
one before it. -/
theorem advancesEach_iff {batchSize : Nat} {after : Database}
    (hfinishes : Finishes blake3 db (.missedFind now batchSize) after) :
    AdvancesEach after now (missedRows db now batchSize) ↔
      ∀ before row rest, missedRows db now batchSize = before ++ row :: rest →
        (∃ next, row.2.definition.config.schedule.nextAfter now = .ok next ∧ row.2.definition.nextExpectedAt < next) →
          ∀ passed ∈ before ++ [row], Proceeds blake3 db.runsDays now passed := by
  have hrows : ∀ row ∈ missedRows db now batchSize, db.monitors[row.1]? = some row.2 := fun row hrow => mem_dueRows hrow
  obtain ⟨after', hfinishes', -, hspec⟩ := @exists_finishes blake3 db now _ nodup_missedRows hrows
  obtain rfl : after = after' := hfinishes.unique (.step rfl hfinishes')
  have hforall : ∀ before row, (∀ passed ∈ before ++ [row], Proceeds blake3 db.runsDays now passed)
      ↔ (∀ passed ∈ before, Proceeds blake3 db.runsDays now passed) ∧ Proceeds blake3 db.runsDays now row := by
    intro before row
    rw [List.forall_mem_append, List.forall_mem_singleton]
  constructor
  · rintro heach before row rest hsplit ⟨next, hnext, hlater⟩
    rw [hforall]
    by_contra hnot
    have hkept := (hspec before row rest hsplit).2 hnot
    have hmem : row ∈ missedRows db now batchSize := hsplit ▸ List.mem_append_right _ List.mem_cons_self
    have hafter := heach row hmem next hnext hlater
    rw [hkept] at hafter
    exact hlater.ne (Option.some.inj hafter)
  · intro hcondition row hrow next hnext hlater
    obtain ⟨before, rest, hsplit⟩ := List.append_of_mem hrow
    have hpassed := hcondition before row rest hsplit ⟨next, hnext, hlater⟩
    obtain ⟨next', hnext', hafter⟩ := (hspec before row rest hsplit).1 ((hforall before row).mp hpassed)
    obtain rfl := Except.ok.inj (hnext.symm.trans hnext')
    exact hafter

end Scan

end MetricBackend.MongoMonitors

namespace MetricBackend

open Relation IngestCheckIns PostgresMonitors

/-- When one call of `materialize_due_missed` advances every monitor of its batch that has a next occurrence. On
Postgres the batch is one transaction; on Mongo the scan stops at the first monitor that it does not get past. -/
theorem missed_isolated_iff (blake3 : List (BitVec 8) → BitVec 256) {initial store : MonitorStore}
    (hmonitors : initial.monitors = ∅) (hruns : initial.runs = ∅) (hsteps : ReflTransGen (Step blake3) initial store)
    (now : Timestamp) {batchSize : Nat} (hsize : 1 ≤ batchSize ∧ batchSize ≤ maxBatch) {db after : MongoMonitors.Database}
    (hfinishes : MongoMonitors.Finishes blake3 db (.missedFind now batchSize) after) :
    (AdvancesEach blake3 store now batchSize ↔
        ∀ (id : MonitorId) (row : StoredMonitor), (missedBatch store now batchSize)[id]? = some row →
          ∀ next, row.definition.config.schedule.nextAfter now = .ok next → ¬ SeenAfter row.definition now
            ∧ ∀ (other : MonitorId) (stored : StoredMonitor), (missedBatch store now batchSize)[other]? = some stored →
              Passable blake3 store now stored.definition)
      ∧ (MongoMonitors.AdvancesEach after now (MongoMonitors.missedRows db now batchSize) ↔
        ∀ before row rest, MongoMonitors.missedRows db now batchSize = before ++ row :: rest →
          (∃ next, row.2.definition.config.schedule.nextAfter now = .ok next ∧ row.2.definition.nextExpectedAt < next) →
            ∀ passed ∈ before ++ [row], MongoMonitors.Proceeds blake3 db.runsDays now passed) := by
  have hrowsOk : RowsOk initial.monitors := hmonitors.symm ▸ rowsOk_empty
  have hrunsOk : RunsOk blake3 initial.runs := hruns.symm ▸ runsOk_empty
  exact ⟨PostgresMonitors.advancesEach_iff (steps_rows hrowsOk hsteps) (steps_writes hrunsOk hsteps).1 hsize,
    MongoMonitors.advancesEach_iff hfinishes⟩

/-! A monitor for each leap day next to one that runs every five minutes, on the leap day of 2028. -/

def leapMonitor : MonitorDefinition where
  id := ⟨0x0a06154b6a5f2fa3a8698b6b10092373⟩
  projectId := IngestCheckIns.sampleProject
  slug := "leap-day".toList
  name := "leap-day".toList
  environmentId := ⟨4⟩
  environment := "production".toList
  enabled := true
  managedByWeb := true
  revision := 1
  config := ⟨.crontab "0 0 29 2 *".toList leapDay, 60, 600⟩
  uptime := none
  nextExpectedAt := ⟨1835395200000, by decide⟩
  lastRunId := none
  lastStatus := none
  lastCheckInAt := none
  createdAt := ⟨1835308800000, by decide⟩
  updatedAt := ⟨1835308800000, by decide⟩

def everyFiveMinutes : MonitorDefinition := { sampleMonitor with
  nextExpectedAt := ⟨1835395500000, by decide⟩
  lastCheckInAt := some ⟨1835395200000, by decide⟩
  updatedAt := ⟨1835395200000, by decide⟩ }

def leapStore : MonitorStore :=
  let created := (upsert sampleStore leapMonitor).toOption.getD sampleStore
  (upsert created everyFiveMinutes).toOption.getD created

/-- The digests of the two missed runs. -/
def leapBlake3 (input : List (BitVec 8)) : BitVec 256 :=
  if input = hashInput "metric/cron-run/missed/v1".toList
      [bigEndian 16 0xc3bb6e9530da8c2b04b72dedb56ccfbd, bigEndian 8 1835395500000] then
    0xe27a3b222ac4b7f7eea07bc31834942d710e8377fb21cbd1c97b710e88c3299f
  else if input = hashInput "metric/cron-run/missed/v1".toList
      [bigEndian 16 0x0a06154b6a5f2fa3a8698b6b10092373, bigEndian 8 1835395200000] then
    0x15df10f6c125ff8493f9a826bac49ffa320ed903def2f5cc186df32007b95b67
  else 0

def leapNow : Timestamp := ⟨1835397000000, by decide⟩

theorem upsert_step (blake3 : List (BitVec 8) → BitVec 256) (store : MonitorStore) (definition : MonitorDefinition) :
    ReflTransGen (Step blake3) store ((upsert store definition).toOption.getD store) := by
  cases hupsert : upsert store definition with
  | error error => exact .refl
  | ok next => exact .single (.upsert definition hupsert)

theorem leapStore_reached : ReflTransGen (Step leapBlake3) sampleStore leapStore :=
  (upsert_step leapBlake3 sampleStore leapMonitor).trans (upsert_step leapBlake3 _ everyFiveMinutes)

theorem everyFiveMinutes_nextAfter :
    everyFiveMinutes.config.schedule.nextAfter leapNow = .ok ⟨1835397300000, by decide⟩ := by
  decide

theorem leapStore_batch : (missedBatch leapStore leapNow 100)[leapMonitor.id]? = some ⟨leapMonitor, none⟩
    ∧ (missedBatch leapStore leapNow 100)[everyFiveMinutes.id]? = some ⟨everyFiveMinutes, none⟩ := by
  decide

theorem not_passable_leapMonitor : ¬ Passable leapBlake3 leapStore leapNow leapMonitor := by
  rintro ⟨-, -, hseen | ⟨-, next, -, hnext, -⟩⟩
  · exact nomatch hseen
  · have herror : leapMonitor.config.schedule.nextAfter leapNow = .error .invalidSchedule :=
      leapDay_nextAfter leapNow (by decide) (by decide)
    exact nomatch (herror.symm.trans hnext)

theorem missedRows_nightly : MongoMonitors.missedRows MongoMonitors.sampleDb leapNow 100
    = [(sampleMonitorId, ⟨sampleMonitor, false, ⟨1700000420000, by decide⟩, none⟩)] := by
  decide

theorem missed_isolated_iff_leap : ∃ after,
    MongoMonitors.Finishes leapBlake3 MongoMonitors.sampleDb (.missedFind leapNow 100) after
      ∧ MongoMonitors.AdvancesEach after leapNow (MongoMonitors.missedRows MongoMonitors.sampleDb leapNow 100)
      ∧ ¬ AdvancesEach leapBlake3 leapStore leapNow 100 := by
  have hrows : ∀ row ∈ MongoMonitors.missedRows MongoMonitors.sampleDb leapNow 100,
      MongoMonitors.sampleDb.monitors[row.1]? = some row.2 := fun row hrow => MongoMonitors.mem_dueRows hrow
  obtain ⟨after, hafter, -⟩ :=
    @MongoMonitors.exists_finishes leapBlake3 MongoMonitors.sampleDb leapNow _ MongoMonitors.nodup_missedRows hrows
  have hfinishes : MongoMonitors.Finishes leapBlake3 MongoMonitors.sampleDb (.missedFind leapNow 100) after :=
    .step rfl hafter
  have hscan := missed_isolated_iff leapBlake3 rfl rfl leapStore_reached leapNow ⟨by decide, by decide⟩ hfinishes
  refine ⟨after, hfinishes, hscan.2.mpr fun before row rest hsplit _ passed hpassed => ?_, fun hadvances => ?_⟩
  · have hmem : passed ∈ MongoMonitors.missedRows MongoMonitors.sampleDb leapNow 100 := by
      rw [hsplit, List.append_cons]
      exact List.mem_append_left _ hpassed
    rw [missedRows_nightly, List.mem_singleton] at hmem
    rw [hmem]
    exact ⟨by decide, ⟨1835397300000, by decide⟩, ⟨1835397360000, by decide⟩, by decide, by decide⟩
  · have hpassable := (hscan.1.mp hadvances _ _ leapStore_batch.2 _ everyFiveMinutes_nextAfter).2 _ _ leapStore_batch.1
    exact not_passable_leapMonitor hpassable

/-- The call fails as a whole and leaves the store as it is, so that the next one starts with the same two monitors. -/
theorem missed_stopped_by_leapMonitor : ReflTransGen (Step leapBlake3) sampleStore leapStore
    ∧ everyFiveMinutes.config.schedule.nextAfter leapNow = .ok ⟨1835397300000, by decide⟩
    ∧ committed leapStore (materializeDueMissed leapBlake3 leapStore leapNow 100) = leapStore
    ∧ ¬ AdvancesEach leapBlake3 leapStore leapNow 100 := by
  have hrows : RowsOk leapStore.monitors := steps_rows rowsOk_empty leapStore_reached
  have hruns : RunsOk leapBlake3 leapStore.runs := (steps_writes runsOk_empty leapStore_reached).1
  have hcommitted : committed leapStore (materializeDueMissed leapBlake3 leapStore leapNow 100) = leapStore := by
    cases hcall : materializeDueMissed leapBlake3 leapStore leapNow 100 with
    | error error => rfl
    | ok result =>
        have hmem : (⟨leapMonitor, none⟩ : StoredMonitor) ∈ orderedBatch leapStore leapNow 100 :=
          (mem_orderedBatch hrows).mpr leapStore_batch.1
        exact absurd (materializeDueMissed_rows hrows hruns hcall _ hmem).1 not_passable_leapMonitor
  refine ⟨leapStore_reached, everyFiveMinutes_nextAfter, hcommitted, fun hadvances => ?_⟩
  have hafter := hadvances _ _ leapStore_batch.2 _ everyFiveMinutes_nextAfter
  rw [hcommitted, (mem_missedBatch hrows leapStore_batch.2).1] at hafter
  exact absurd hafter (by decide)

end MetricBackend
