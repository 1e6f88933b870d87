import MetricBackend.PostgresMonitors

/-! What loading and writing the monitor and run tables does, row by row: a load returns stored rows
only and, within its limits, all the rows asked for; a write changes the rows of its values. -/

namespace MetricBackend.PostgresMonitors

/-! ### Loads -/

theorem decodeRun_eq_ok {row value : MonitorRun} (h : decodeRun row = .ok value) : value = row := by
  simp only [decodeRun, bind_eq_ok] at h
  obtain ⟨-, -, heq⟩ := h
  cases heq
  rfl

theorem loadRuns_sound {store : MonitorStore} {ids : List MonitorRunId}
    {loaded : Table MonitorRunId MonitorRun} (h : loadRuns store ids = .ok loaded)
    {id : MonitorRunId} {run : MonitorRun} (hget : loaded[id]? = some run) :
    store.runs[id]? = some run ∧ id ∈ ids := by
  have := (get_foldlM_insert (fun _ _ => decodeRun_eq_ok) h (Table.nodup_keys_selectAny _ _ _) id run).mp hget
  simp only [Table.get_empty, reduceCtorEq, and_false, or_false] at this
  exact Table.of_mem_selectAny this

theorem loadRuns_complete {store : MonitorStore} {ids : List MonitorRunId}
    {loaded : Table MonitorRunId MonitorRun} (h : loadRuns store ids = .ok loaded)
    (hlength : ids.length ≤ maxBatch) {id : MonitorRunId} (hid : id ∈ ids) :
    loaded[id]? = store.runs[id]? := by
  apply Option.ext
  intro run
  rw [get_foldlM_insert (fun _ _ => decodeRun_eq_ok) h (Table.nodup_keys_selectAny _ _ _) id run,
    Table.mem_selectAny hlength hid]
  simp

theorem decodeMonitor_eq_ok {row value : StoredMonitor} (h : decodeMonitor row = .ok value) :
    value = row := by
  simp only [decodeMonitor, bind_eq_ok] at h
  obtain ⟨-, -, -, -, heq⟩ := h
  cases heq
  rfl

theorem decodeMonitors_sound {truncate : Bool} {bytes : Nat} {rows : List (MonitorId × StoredMonitor)}
    {init loaded : Table MonitorId StoredMonitor}
    (h : decodeMonitors truncate bytes rows init = .ok loaded) {id : MonitorId} {row : StoredMonitor}
    (hget : loaded[id]? = some row) : (id, row) ∈ rows ∨ init[id]? = some row := by
  induction rows generalizing bytes init with
  | nil =>
      cases h
      exact Or.inr hget
  | cons first rows ih =>
      simp only [decodeMonitors] at h
      split_ifs at h with hbytes htruncate
      · cases h
        exact Or.inr hget
      · rw [bind_eq_ok] at h
        obtain ⟨value, hvalue, hrest⟩ := h
        rw [decodeMonitor_eq_ok hvalue] at hrest
        rcases ih hrest with hmem | hinit
        · exact Or.inl (List.mem_cons_of_mem _ hmem)
        · rw [Table.get_insert] at hinit
          split_ifs at hinit with hid
          · cases hinit
            exact Or.inl (hid ▸ List.mem_cons_self)
          · exact Or.inr hinit

theorem size_decodeMonitors_le {truncate : Bool} {bytes : Nat}
    {rows : List (MonitorId × StoredMonitor)} {init loaded : Table MonitorId StoredMonitor}
    (h : decodeMonitors truncate bytes rows init = .ok loaded) :
    loaded.size ≤ init.size + rows.length := by
  induction rows generalizing bytes init with
  | nil =>
      cases h
      simp
  | cons first rows ih =>
      simp only [decodeMonitors] at h
      split_ifs at h with hbytes htruncate
      · cases h
        omega
      · rw [bind_eq_ok] at h
        obtain ⟨value, -, hrest⟩ := h
        have hinsert : (init.insert first.1 value).size ≤ init.size + 1 :=
          Std.ExtTreeMap.size_insert_le
        have hle := ih hrest
        rw [List.length_cons]
        omega

theorem length_loadMonitors_le {store : MonitorStore} {ids : List MonitorId} {truncate : Bool}
    {loaded : Table MonitorId StoredMonitor} (h : loadMonitors store ids truncate = .ok loaded) :
    loaded.toList.length ≤ maxBatch := by
  have hsize := size_decodeMonitors_le h
  have htake : (store.monitors.selectAny ids maxBatch).length ≤ maxBatch := List.length_take_le _ _
  rw [Std.ExtTreeMap.size_empty] at hsize
  rw [Std.ExtTreeMap.length_toList]
  omega

theorem loadMonitors_sound {store : MonitorStore} {ids : List MonitorId} {truncate : Bool}
    {loaded : Table MonitorId StoredMonitor} (h : loadMonitors store ids truncate = .ok loaded)
    {id : MonitorId} {row : StoredMonitor} (hget : loaded[id]? = some row) :
    store.monitors[id]? = some row ∧ id ∈ ids := by
  rcases decodeMonitors_sound h hget with hmem | hnone
  · exact Table.of_mem_selectAny hmem
  · simp at hnone

/-- A load that is not cut short keeps every row it read. -/
theorem decodeMonitors_complete {bytes : Nat} {rows : List (MonitorId × StoredMonitor)}
    {init loaded : Table MonitorId StoredMonitor}
    (h : decodeMonitors false bytes rows init = .ok loaded) (hnodup : (rows.map Prod.fst).Nodup)
    (id : MonitorId) (row : StoredMonitor) :
    loaded[id]? = some row ↔
      (id, row) ∈ rows ∨ (id ∉ rows.map Prod.fst ∧ init[id]? = some row) := by
  induction rows generalizing bytes init with
  | nil =>
      cases h
      simp
  | cons first rows ih =>
      simp only [decodeMonitors, Bool.false_eq_true, if_false] at h
      split_ifs at h with hbytes
      rw [bind_eq_ok] at h
      obtain ⟨value, hvalue, hrest⟩ := h
      rw [decodeMonitor_eq_ok hvalue] at hrest
      obtain ⟨firstId, firstRow⟩ := first
      simp only [List.map_cons, List.nodup_cons] at hnodup
      rw [ih hrest hnodup.2, Table.get_insert]
      simp only [List.mem_cons, List.map_cons, Prod.mk.injEq, not_or]
      by_cases hid : firstId = id
      · subst hid
        have hnotmem : (firstId, row) ∉ rows := fun hmem =>
          hnodup.1 (List.mem_map.mpr ⟨_, hmem, rfl⟩)
        simp [hnodup.1, hnotmem, eq_comm]
      · simp [hid, Ne.symm hid]

theorem loadMonitors_complete {store : MonitorStore} {ids : List MonitorId}
    {loaded : Table MonitorId StoredMonitor} (h : loadMonitors store ids false = .ok loaded)
    (hlength : ids.length ≤ maxBatch) {id : MonitorId} (hid : id ∈ ids) :
    loaded[id]? = store.monitors[id]? := by
  apply Option.ext
  intro row
  rw [decodeMonitors_complete h (Table.nodup_keys_selectAny _ _ _) id row,
    Table.mem_selectAny hlength hid]
  simp

/-! ### Writes -/

/-- Monitor rows are stored under their own ids. -/
def Keyed (monitors : Table MonitorId StoredMonitor) : Prop :=
  ∀ (id : MonitorId) (row : StoredMonitor), monitors[id]? = some row → row.definition.id = id

theorem Keyed.insert {monitors : Table MonitorId StoredMonitor} (h : Keyed monitors)
    {id : MonitorId} {row : StoredMonitor} (hid : row.definition.id = id) :
    Keyed (monitors.insert id row) := by
  intro other found hget
  rw [Table.get_insert] at hget
  split_ifs at hget with heq
  · cases hget
    exact hid.trans heq
  · exact h other found hget

theorem writeMonitor_eq_ok {monitors next : Table MonitorId StoredMonitor} {value : StoredMonitor}
    (h : writeMonitor monitors value = .ok next) :
    next = monitors.insert value.definition.id value := by
  simp only [writeMonitor, bind_eq_ok, pure_eq_ok] at h
  obtain ⟨_, -, _, -, _, -, _, -, h⟩ := h
  exact h.symm

theorem writeMonitors_eq_foldl {monitors next : Table MonitorId StoredMonitor}
    {values : List StoredMonitor} (h : writeMonitors monitors values = .ok next) :
    next = values.foldl (fun stored value => stored.insert value.definition.id value) monitors := by
  induction values generalizing monitors with
  | nil =>
      cases h
      rfl
  | cons value values ih =>
      rw [writeMonitors, List.foldlM_cons, bind_eq_ok] at h
      obtain ⟨written, hwritten, hrest⟩ := h
      rw [ih hrest, writeMonitor_eq_ok hwritten, List.foldl_cons]

/-- Rows that an operation collected under their own ids are written under these ids. -/
theorem writeMonitors_collected {monitors next collected : Table MonitorId StoredMonitor}
    (hkeyed : Keyed collected) (h : writeMonitors monitors (collected.toList.map Prod.snd) = .ok next)
    (id : MonitorId) : next[id]? = collected[id]?.or monitors[id]? := by
  rw [writeMonitors_eq_foldl h]
  exact Table.get_foldl_insert_collected hkeyed monitors id

/-- The run differs from the row it replaces in the outcome at most, which is all that is written. -/
def Outcome (runs : Table MonitorRunId MonitorRun) (run : MonitorRun) : Prop :=
  ∀ stored, runs[run.id]? = some stored → run = withOutcome stored run

theorem writeRun_outcome {runs next : Table MonitorRunId MonitorRun} {run : MonitorRun}
    (hrun : Outcome runs run) (h : writeRun runs run = .ok next) : next = runs.insert run.id run := by
  simp only [writeRun, bind_eq_ok] at h
  obtain ⟨-, -, h⟩ := h
  split at h
  · exact (pure_eq_ok.mp h).symm
  · next row hrow =>
    rw [bind_eq_ok] at h
    obtain ⟨-, -, h⟩ := h
    rw [← hrun row hrow] at h
    exact (pure_eq_ok.mp h).symm

theorem writeRuns_eq_foldl {runs next : Table MonitorRunId MonitorRun} {values : List MonitorRun}
    (hnodup : (values.map (·.id)).Nodup) (hvalues : ∀ run ∈ values, Outcome runs run)
    (h : writeRuns runs values = .ok next) :
    next = values.foldl (fun stored value => stored.insert value.id value) runs := by
  induction values generalizing runs with
  | nil =>
      cases h
      rfl
  | cons run values ih =>
      rw [writeRuns, List.foldlM_cons, bind_eq_ok] at h
      obtain ⟨written, hwritten, hrest⟩ := h
      have heq := writeRun_outcome (hvalues run (by simp)) hwritten
      rw [List.map_cons, List.nodup_cons] at hnodup
      rw [List.foldl_cons, ← heq]
      refine ih hnodup.2 ?_ hrest
      intro other hother
      have hne : run.id ≠ other.id := fun hid => hnodup.1 (List.mem_map.mpr ⟨other, hother, hid.symm⟩)
      have houtcome := hvalues other (List.mem_cons_of_mem _ hother)
      rwa [Outcome, heq, Table.get_insert_of_ne _ _ hne]

theorem writeRuns_collected_get {runs next collected : Table MonitorRunId MonitorRun}
    (hcollected : ∀ id run, collected[id]? = some run → run.id = id ∧ Outcome runs run)
    (h : writeRuns runs (collected.toList.map Prod.snd) = .ok next) (id : MonitorRunId) :
    next[id]? = collected[id]?.or runs[id]? := by
  have hkeyed : ∀ (id : MonitorRunId) (run : MonitorRun), collected[id]? = some run → run.id = id :=
    fun id run hget => (hcollected id run hget).1
  rw [writeRuns_eq_foldl (Table.map_keyOf_toList hkeyed ▸ collected.nodup_keys_toList) ?_ h]
  · exact Table.get_foldl_insert_collected hkeyed runs id
  · intro run hrun
    obtain ⟨row, hmem, rfl⟩ := List.mem_map.mp hrun
    exact (hcollected row.1 row.2 (Table.mem_toList.mp hmem)).2

end MetricBackend.PostgresMonitors
