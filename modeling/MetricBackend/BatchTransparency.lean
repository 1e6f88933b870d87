import MetricBackend.BatchRuns

/-! # Micro-batches and single calls

A list of updates without definitions, persisted in one call and persisted one by one. The two leave
the same rows unless the batch is refused for an update that others do not depend on, or a monitor
has a terminal run before one in progress: only the last run of a batch is projected. -/

namespace MetricBackend.PostgresMonitors

/-! ### One call for each update -/

def persistOne (store : MonitorStore) (update : MonitorUpdate) : MonitorStore :=
  committed store (persist store [update])

def oneByOne (store : MonitorStore) (updates : List MonitorUpdate) : MonitorStore :=
  updates.foldl persistOne store

/-- The run of the update is new, and its project and its monitor can take it. -/
def Stores (store : MonitorStore) (update : MonitorUpdate) : Prop :=
  store.isLive update.run.projectId = true ∧
    ∃ run, absorb store.monitors store.runs update = .ok (some run) ∧
      ∀ row ∈ store.monitors[update.run.monitorId]?, Projects row.definition run

section

variable {store next : MonitorStore} {update : MonitorUpdate}

theorem loadMonitors_single (hstore : StoreOk store) (id : MonitorId) :
    ∃ loaded, loadMonitors store [id] false = .ok loaded := by
  have hrows : ∀ row ∈ store.monitors.selectAny [id] maxBatch,
      store.monitors[row.1]? = some row.2 ∧ row.1 = id := by
    rintro ⟨key, row⟩ hrow
    obtain ⟨hstored, hkey⟩ := Table.of_mem_selectAny hrow
    exact ⟨hstored, List.mem_singleton.mp hkey⟩
  have hnodup := store.monitors.nodup_keys_selectAny [id] maxBatch
  unfold loadMonitors
  match hselected : store.monitors.selectAny [id] maxBatch with
  | [] => exact ⟨∅, rfl⟩
  | [row] =>
      have hwritable := hstore.writable _ _ (hrows row (by rw [hselected]; simp)).1
      obtain ⟨size, hsize⟩ := hwritable.encoded
      simp only [encodeConfig, bind_eq_ok, failIf_eq_ok, not_lt] at hsize
      obtain ⟨_, -, _, -, _, hfits, -⟩ := hsize
      have hbytes : ¬ maxBatchBytes < 0 + configSize row.2.definition + 512 := by
        unfold maxConfig at hfits
        unfold maxBatchBytes
        omega
      obtain ⟨time, htime⟩ := hwritable.due
      have hdecoded : decodeMonitor row.2 = .ok row.2 := by
        simp only [decodeMonitor, bind_eq_ok, invalid_eq_ok]
        exact ⟨(), hwritable.validate, time, htime, rfl⟩
      simp only [decodeMonitors, if_neg hbytes, hdecoded]
      exact ⟨_, rfl⟩
  | first :: second :: rest =>
      have hfirst := (hrows first (by rw [hselected]; simp)).2
      have hsecond := (hrows second (by rw [hselected]; simp)).2
      rw [hselected] at hnodup
      simp [hfirst, hsecond] at hnodup

theorem Leaves.eq_of_nil (h : Leaves store [] next) : next = store := by
  have hmonitors : next.monitors = store.monitors := by
    apply Std.ExtTreeMap.ext_getElem?
    intro id
    rcases h.monitors id with ⟨-, hsame⟩ | ⟨run, _, _, hlast, -⟩
    · exact hsame
    · cases hlast
  rw [h.rest, hmonitors, h.runs]
  rfl

/-- A call with one update stores it and projects it, or it changes nothing. -/
theorem persistOne_cases (hstore : StoreOk store) (hbare : Bare [update]) :
    (∃ run, Stores store update ∧ absorb store.monitors store.runs update = .ok (some run) ∧
      Leaves store [run] (persistOne store update)) ∨
    (¬ Stores store update ∧ persistOne store update = store) := by
  have hsingle : ∀ merged, absorb store.monitors store.runs update = .ok merged →
      newRuns store.monitors store.runs [update] = .ok merged.toList := by
    intro merged hmerged
    simp only [newRuns, bind_eq_ok, pure_eq_ok]
    exact ⟨merged, hmerged, [], rfl, by simp⟩
  unfold persistOne
  cases hpersist : persist store [update] with
  | error e =>
      refine Or.inr ⟨?_, rfl⟩
      rintro ⟨hlive, run, hrun, hprojects⟩
      obtain ⟨loaded, hloaded⟩ := loadMonitors_single hstore update.run.monitorId
      obtain ⟨result, hresult⟩ := persist_of_news hstore hbare (by simp) (by simp [maxBatch])
        (by simpa using hlive) hloaded (hsingle _ hrun) (by
          intro id other hlast
          obtain ⟨hmem, rfl⟩ := mem_of_lastRun hlast
          rw [Option.toList_some, List.mem_singleton] at hmem
          subst hmem
          obtain ⟨row, -, hrow, -⟩ := absorb_eq_ok hrun
          have hid : other.monitorId = update.run.monitorId := congrArg Prod.fst (absorb_receipt hrun)
          rw [hid]
          exact ⟨row, hrow, hprojects row hrow⟩)
      rw [hpersist] at hresult
      cases hresult
  | ok result =>
      obtain ⟨after, outcomes⟩ := result
      obtain ⟨hempty, -⟩ | ⟨⟨persisted⟩⟩ := persist_eq_ok hpersist
      · cases hempty
      · obtain ⟨news, hnews, hleaves⟩ := persisted.leaves hstore hbare
        simp only [newRuns, bind_eq_ok, pure_eq_ok] at hnews
        obtain ⟨merged, hmerged, _, hnil, rfl⟩ := hnews
        cases hnil
        rw [List.append_nil] at hleaves
        cases merged with
        | none =>
            refine Or.inr ⟨?_, hleaves.eq_of_nil⟩
            rintro ⟨-, run, hrun, -⟩
            cases hmerged.symm.trans hrun
        | some run =>
            refine Or.inl ⟨run, ⟨?_, run, hmerged, ?_⟩, hmerged, hleaves⟩
            · exact lockProjects_iff.mp persisted.hlock _ (by simp)
            · intro row hrow
              have hid : run.monitorId = update.run.monitorId :=
                congrArg Prod.fst (absorb_receipt hmerged)
              rcases hleaves.monitors update.run.monitorId with
                ⟨hnone, -⟩ | ⟨found, stored, projected, hlast, hstored, hprojected, hget⟩
              · simp [lastRun, hid] at hnone
              · obtain ⟨hmem, -⟩ := mem_of_lastRun hlast
                rw [Option.toList_some, List.mem_singleton] at hmem
                subst hmem
                cases hstored.symm.trans hrow
                exact (projects_iff (hstore.writable _ _ hrow) row.lease).mpr
                  ⟨projected, hprojected, hleaves.ok.writable _ _ hget⟩

end

/-! ### A monitor after its runs, one by one -/

/-- The runs of the monitor that are not older than the last one it has seen. -/
def counted (definition : MonitorDefinition) (news : List MonitorRun) : List MonitorRun :=
  news.filter fun run => decide (run.monitorId = definition.id) &&
    !definition.lastCheckInAt.any (run.receivedAt < ·)

/-- The last terminal one of these runs. -/
def lastFinished (definition : MonitorDefinition) (news : List MonitorRun) : Option MonitorRun :=
  ((counted definition news).filter (·.status.isTerminal)).getLast?

def expectedAfter (definition : MonitorDefinition) (news : List MonitorRun) : Timestamp :=
  match lastFinished definition news with
  | none => definition.nextExpectedAt
  | some run => (definition.config.schedule.nextAfter run.receivedAt).toOption.getD
      definition.nextExpectedAt

def definitionAfter (definition : MonitorDefinition) (news : List MonitorRun) : MonitorDefinition :=
  match (counted definition news).getLast? with
  | none => definition
  | some run => projectedOn definition run (expectedAfter definition news)

section

variable {definition : MonitorDefinition} {news : List MonitorRun} {run : MonitorRun}

/-- Nothing but the outcome of its runs changes on a monitor. -/
theorem definitionAfter_fields (definition : MonitorDefinition) (news : List MonitorRun) :
    (definitionAfter definition news).id = definition.id ∧
    (definitionAfter definition news).projectId = definition.projectId ∧
    (definitionAfter definition news).config = definition.config ∧
    (definitionAfter definition news).uptime = definition.uptime ∧
    (definitionAfter definition news).createdAt = definition.createdAt := by
  unfold definitionAfter
  split <;> exact ⟨rfl, rfl, rfl, rfl, rfl⟩

theorem counted_append_skipped (h : run.monitorId = definition.id →
      definition.lastCheckInAt.any (run.receivedAt < ·) = true) :
    counted definition (news ++ [run]) = counted definition news := by
  unfold counted
  rw [List.filter_append, List.filter_singleton]
  by_cases hid : run.monitorId = definition.id
  · simp [hid, h hid]
  · simp [hid]

theorem counted_append_counted (hid : run.monitorId = definition.id)
    (hnewer : ¬ definition.lastCheckInAt.any (run.receivedAt < ·) = true) :
    counted definition (news ++ [run]) = counted definition news ++ [run] := by
  unfold counted
  rw [List.filter_append, List.filter_singleton]
  simp [hid, hnewer]

theorem definitionAfter_skipped (h : run.monitorId = definition.id →
      definition.lastCheckInAt.any (run.receivedAt < ·) = true) :
    definitionAfter definition (news ++ [run]) = definitionAfter definition news := by
  simp only [definitionAfter, expectedAfter, lastFinished, counted_append_skipped h]

theorem expectedAfter_append (hid : run.monitorId = definition.id)
    (hnewer : ¬ definition.lastCheckInAt.any (run.receivedAt < ·) = true) :
    expectedAfter definition (news ++ [run]) =
      if run.status.isTerminal then (definition.config.schedule.nextAfter run.receivedAt).toOption.getD
        definition.nextExpectedAt
      else expectedAfter definition news := by
  unfold expectedAfter lastFinished
  rw [counted_append_counted hid hnewer, List.filter_append, List.filter_singleton]
  by_cases hstatus : run.status.isTerminal = true
  · simp [hstatus]
  · simp [hstatus]

theorem definitionAfter_append (hid : run.monitorId = definition.id)
    (hnewer : ¬ definition.lastCheckInAt.any (run.receivedAt < ·) = true) :
    definitionAfter definition (news ++ [run]) =
      projectedOn definition run (expectedAfter definition (news ++ [run])) := by
  unfold definitionAfter
  rw [counted_append_counted hid hnewer, List.getLast?_append, List.getLast?_singleton,
    Option.some_or]

/-- A run that comes after the others is older than the last one seen now when it was so before. -/
theorem older_definitionAfter (hbefore : ∀ other ∈ news, other.receivedAt ≤ run.receivedAt) :
    (definitionAfter definition news).lastCheckInAt.any (run.receivedAt < ·) =
      definition.lastCheckInAt.any (run.receivedAt < ·) := by
  unfold definitionAfter
  cases hlast : (counted definition news).getLast? with
  | none => rfl
  | some last =>
      have hmem := List.mem_filter.mp (List.mem_of_getLast? hlast)
      have hle := hbefore last hmem.1
      have hnewer : ∀ earlier ∈ definition.lastCheckInAt, earlier ≤ last.receivedAt := by
        rw [← not_older_iff]
        simpa using (Bool.and_eq_true_iff.mp hmem.2).2
      have hfalse : ¬ definition.lastCheckInAt.any (run.receivedAt < ·) = true := by
        rw [not_older_iff]
        intro earlier hearlier
        exact (hnewer earlier hearlier).trans hle
      rw [Bool.eq_false_iff.mpr hfalse]
      simp [projectedOn, not_lt.mpr hle]

theorem projects_definitionAfter (hbefore : ∀ other ∈ news, other.receivedAt ≤ run.receivedAt) :
    Projects (definitionAfter definition news) run ↔ Projects definition run := by
  obtain ⟨-, -, hconfig, huptime, hcreated⟩ := definitionAfter_fields definition news
  simp only [Projects, older_definitionAfter hbefore, hcreated, hconfig, dueAt_congr hconfig huptime]

theorem expectedAfter_of_counted_nil (h : (counted definition news).getLast? = none) :
    expectedAfter definition news = definition.nextExpectedAt := by
  rw [List.getLast?_eq_none_iff] at h
  simp [expectedAfter, lastFinished, h]

/-- Projecting a further run. -/
theorem projectRun_definitionAfter {lease : Option Timestamp} {projected : StoredMonitor × Bool}
    (hbefore : ∀ other ∈ news, other.receivedAt ≤ run.receivedAt)
    (hid : run.monitorId = definition.id)
    (h : projectRun ⟨definitionAfter definition news, lease⟩ run = .ok projected) :
    projected.1.definition = definitionAfter definition (news ++ [run]) := by
  obtain ⟨holder, rfl⟩ | ⟨hnewer, next, after, hnext, rfl⟩ := projectRun_eq_ok h
  · rw [older_definitionAfter hbefore] at holder
    exact (definitionAfter_skipped fun _ => holder).symm
  · rw [older_definitionAfter hbefore] at hnewer
    rw [definitionAfter_append hid hnewer, expectedAfter_append hid hnewer]
    have hexpected : next = if run.status.isTerminal then
        (definition.config.schedule.nextAfter run.receivedAt).toOption.getD definition.nextExpectedAt
        else expectedAfter definition news := by
      obtain ⟨-, -, hconfig, -, -⟩ := definitionAfter_fields definition news
      unfold projectedNext at hnext
      split_ifs at hnext ⊢ with hstatus
      · rw [invalid_eq_ok, hconfig] at hnext
        rw [hnext]
        rfl
      · cases hnext
        unfold definitionAfter
        split
        · next hnone => exact (expectedAfter_of_counted_nil hnone).symm
        · rfl
    rw [← hexpected]
    unfold definitionAfter
    split <;> rfl

end

/-! ### One by one, when every run can be projected -/

/-- A store after the new runs have been persisted one by one. -/
structure After (store : MonitorStore) (news : List MonitorRun) (state : MonitorStore) : Prop where
  ok : StoreOk state
  projects : state.projects = store.projects
  runs : state.runs = recordRuns store.runs news
  monitors : ∀ id : MonitorId, state.monitors[id]?.map (·.definition) =
    store.monitors[id]?.map fun row => definitionAfter row.definition news

/-- Every one of the runs can be projected on its monitor. -/
def AllProject (store : MonitorStore) (news : List MonitorRun) : Prop :=
  ∀ run ∈ news, ∀ row ∈ store.monitors[run.monitorId]?, Projects row.definition run

section

variable {store state : MonitorStore} {news later : List MonitorRun} {update : MonitorUpdate}
  {updates : List MonitorUpdate}

theorem after_nil (hstore : StoreOk store) : After store [] store := by
  refine ⟨hstore, rfl, rfl, ?_⟩
  intro id
  rfl

theorem After.row (h : After store news state) {id : MonitorId} {row : StoredMonitor}
    (hrow : state.monitors[id]? = some row) :
    ∃ stored, store.monitors[id]? = some stored ∧
      row.definition = definitionAfter stored.definition news := by
  have hmap := h.monitors id
  rw [hrow, Option.map_some] at hmap
  obtain ⟨stored, hstored, heq⟩ := Option.map_eq_some_iff.mp hmap.symm
  exact ⟨stored, hstored, heq.symm⟩

theorem After.isLive (h : After store news state) (project : ProjectId) :
    state.isLive project = store.isLive project := by
  unfold MonitorStore.isLive
  rw [h.projects]

theorem After.absorb_eq (h : After store news state) (runs : Table MonitorRunId MonitorRun) :
    absorb state.monitors runs update = absorb store.monitors runs update := by
  refine absorb_congr ?_ rfl
  have hmap := congrArg (Option.map fun definition : MonitorDefinition =>
    (definition.projectId, definition.config)) (h.monitors update.run.monitorId)
  rw [Option.map_map, Option.map_map] at hmap
  refine hmap.trans ?_
  congr 1
  funext row
  obtain ⟨-, hproject, hconfig, -, -⟩ := definitionAfter_fields row.definition news
  exact Prod.ext hproject hconfig

theorem After.step (h : After store news state) (hstore : StoreOk store) (hbare : Bare [update])
    (hbefore : ∀ run ∈ news, run.receivedAt ≤ update.run.receivedAt)
    (hlive : store.isLive update.run.projectId = true) {merged : Option MonitorRun}
    (hmerged : absorb store.monitors state.runs update = .ok merged)
    (hprojects : AllProject store merged.toList) :
    After store (news ++ merged.toList) (persistOne state update) := by
  rw [← h.absorb_eq] at hmerged
  cases merged with
  | none =>
      rcases persistOne_cases h.ok hbare with ⟨run, -, hrun, -⟩ | ⟨-, hsame⟩
      · cases hmerged.symm.trans hrun
      · rw [hsame, Option.toList_none, List.append_nil]
        exact h
  | some run =>
      have hreceipt := absorb_receipt hmerged
      have hid : run.monitorId = update.run.monitorId := congrArg Prod.fst hreceipt
      have hat : run.receivedAt = update.run.receivedAt := congrArg (·.2.2) hreceipt
      rw [← hat] at hbefore
      have hstores : Stores state update := by
        refine ⟨h.isLive _ ▸ hlive, run, hmerged, ?_⟩
        intro row hrow
        obtain ⟨stored, hstored, heq⟩ := h.row hrow
        rw [heq, projects_definitionAfter hbefore]
        exact hprojects run (by simp) stored (hid ▸ hstored)
      rcases persistOne_cases h.ok hbare with ⟨found, -, hfound, hleaves⟩ | ⟨hnot, -⟩
      · cases hmerged.symm.trans hfound
        refine ⟨hleaves.ok, ?_, ?_, ?_⟩
        · rw [hleaves.rest]
          exact h.projects
        · rw [hleaves.runs, h.runs, ← recordRuns_append]
          rfl
        · intro id
          rcases hleaves.monitors id with
            ⟨hnone, hsame⟩ | ⟨other, row, projected, hlast, hrow, hprojected, hget⟩
          · have hne : run.monitorId ≠ id := by
              rintro rfl
              simp [lastRun] at hnone
            rw [hsame, h.monitors id]
            cases hstored : store.monitors[id]? with
            | none => rfl
            | some stored =>
                rw [Option.map_some, Option.map_some, Option.toList_some, definitionAfter_skipped]
                intro heq
                exact absurd (heq.trans (hstore.keyed id stored hstored)) hne
          · obtain ⟨hmem, rfl⟩ := mem_of_lastRun hlast
            cases List.mem_singleton.mp hmem
            obtain ⟨stored, hstored, heq⟩ := h.row hrow
            have hkeyed := hstore.keyed _ _ hstored
            rw [hget, hstored, Option.map_some, Option.map_some, Option.toList_some]
            have hstep : projectRun ⟨definitionAfter stored.definition news, row.lease⟩ run
                = .ok projected := by
              rw [← heq]
              exact hprojected
            exact congrArg some (projectRun_definitionAfter hbefore hkeyed.symm hstep)
      · exact absurd hstores hnot

/-- A further new run comes before the updates that are left. -/
theorem received_before_rest {merged : Option MonitorRun}
    (hordered : Ordered (update :: updates))
    (hbefore : ∀ run ∈ news, ∀ other ∈ update :: updates, run.receivedAt ≤ other.run.receivedAt)
    (hmerged : ∀ run ∈ merged, run.receivedAt = update.run.receivedAt) :
    ∀ run ∈ news ++ merged.toList, ∀ other ∈ updates, run.receivedAt ≤ other.run.receivedAt := by
  intro run hrun other hother
  rcases List.mem_append.mp hrun with hrun | hrun
  · exact hbefore run hrun other (List.mem_cons_of_mem _ hother)
  · rw [Option.mem_toList] at hrun
    rw [hmerged run hrun]
    exact (List.pairwise_cons.mp hordered).1 other hother

/-- Persisting further updates one by one records and projects their new runs. -/
theorem After.steps (h : After store news state) (hstore : StoreOk store) (hbare : Bare updates)
    (hbefore : ∀ run ∈ news, ∀ update ∈ updates, run.receivedAt ≤ update.run.receivedAt)
    (hlive : ∀ update ∈ updates, store.isLive update.run.projectId = true)
    (hlater : newRuns store.monitors state.runs updates = .ok later)
    (hprojects : AllProject store later) :
    After store (news ++ later) (oneByOne state updates) := by
  induction updates generalizing news state later with
  | nil =>
      cases hlater
      rw [List.append_nil]
      exact h
  | cons update updates ih =>
      simp only [newRuns, bind_eq_ok, pure_eq_ok] at hlater
      obtain ⟨merged, hmerged, rest, hrest, rfl⟩ := hlater
      have hsplit : AllProject store merged.toList ∧ AllProject store rest :=
        List.forall_mem_append.mp hprojects
      have hbounds : ∀ run ∈ news, run.receivedAt ≤ update.run.receivedAt :=
        fun run hrun => hbefore run hrun update (by simp)
      rw [List.forall_mem_cons] at hlive
      have hstep := h.step hstore hbare.head hbounds hlive.1 hmerged hsplit.1
      rw [← List.append_assoc]
      refine ih hstep hbare.tail ?_ hlive.2 ?_ hsplit.2
      · refine received_before_rest hbare.ordered hbefore ?_
        intro run hrun
        rw [hrun] at hmerged
        exact congrArg (·.2.2) (absorb_receipt hmerged)
      · rw [hstep.runs, recordRuns_append, ← h.runs]
        exact hrest

end

/-! ### The last run only -/

/-- When the last run of the monitor is in progress, the last terminal one before it, if there is one,
leads to the time that is expected anyway. -/
def Steady (definition : MonitorDefinition) (news : List MonitorRun) : Prop :=
  ∀ last ∈ (counted definition news).getLast?, last.status.isTerminal = false →
    ∀ finished ∈ lastFinished definition news, ∀ next,
      definition.config.schedule.nextAfter finished.receivedAt = .ok next →
        next = definition.nextExpectedAt

instance decidableSteady (definition : MonitorDefinition) (news : List MonitorRun) :
    Decidable (Steady definition news) :=
  decidable_of_iff (∀ last ∈ (counted definition news).getLast?, last.status.isTerminal = false →
    ∀ finished ∈ lastFinished definition news,
      (definition.config.schedule.nextAfter finished.receivedAt).toOption.all
        (· = definition.nextExpectedAt) = true) (by
    have hall : ∀ finished : MonitorRun,
        (definition.config.schedule.nextAfter finished.receivedAt).toOption.all
          (· = definition.nextExpectedAt) = true ↔
        ∀ next, definition.config.schedule.nextAfter finished.receivedAt = .ok next →
          next = definition.nextExpectedAt := by
      intro finished
      cases definition.config.schedule.nextAfter finished.receivedAt <;> simp [Except.toOption]
    simp only [hall]
    rfl)

section

variable {definition : MonitorDefinition} {news : List MonitorRun} {run : MonitorRun}

theorem counted_eq : counted definition news = (news.filter (·.monitorId = definition.id)).filter
    fun run => !definition.lastCheckInAt.any (run.receivedAt < ·) := by
  rw [List.filter_filter, counted]
  congr 1
  funext run
  exact Bool.and_comm _ _

/-- The runs of a monitor that has some end with the last one. -/
theorem filter_eq_append_lastRun (hlast : lastRun news definition.id = some run) :
    ∃ before, news.filter (·.monitorId = definition.id) = before ++ [run] :=
  List.getLast?_eq_some_iff.mp hlast

theorem counted_of_older (hordered : news.Pairwise (·.receivedAt ≤ ·.receivedAt))
    (hlast : lastRun news definition.id = some run)
    (holder : definition.lastCheckInAt.any (run.receivedAt < ·) = true) :
    counted definition news = [] := by
  obtain ⟨before, heq⟩ := filter_eq_append_lastRun hlast
  have hbefore : ∀ other ∈ before ++ [run], other.receivedAt ≤ run.receivedAt := by
    have hsorted : (before ++ [run]).Pairwise (·.receivedAt ≤ ·.receivedAt) := by
      rw [← heq]
      exact hordered.filter _
    intro other hother
    rcases List.mem_append.mp hother with hother | hother
    · exact (List.pairwise_append.mp hsorted).2.2 other hother run (by simp)
    · rw [List.mem_singleton.mp hother]
  rw [counted_eq, heq, List.filter_eq_nil_iff]
  intro other hother
  rw [Bool.not_eq_true', Bool.not_eq_false]
  obtain ⟨last, hmem, hlt⟩ := (Option.any_eq_true _ _).mp holder
  rw [hmem, Option.any_some]
  exact decide_eq_true ((hbefore other hother).trans_lt (of_decide_eq_true hlt))

theorem counted_of_newer (hlast : lastRun news definition.id = some run)
    (hnewer : ¬ definition.lastCheckInAt.any (run.receivedAt < ·) = true) :
    ∃ before, counted definition news = before ++ [run] := by
  obtain ⟨before, heq⟩ := filter_eq_append_lastRun hlast
  refine ⟨before.filter fun run => !definition.lastCheckInAt.any (run.receivedAt < ·), ?_⟩
  rw [counted_eq, heq, List.filter_append, List.filter_singleton]
  simp [hnewer]

/-- Projecting the last run alone leaves what projecting all of them in turn does, exactly when the
monitor is steady. -/
theorem projectRun_last_iff {lease : Option Timestamp} {projected : StoredMonitor × Bool}
    (hordered : news.Pairwise (·.receivedAt ≤ ·.receivedAt))
    (hlast : lastRun news definition.id = some run)
    (h : projectRun ⟨definition, lease⟩ run = .ok projected) :
    projected.1.definition = definitionAfter definition news ↔ Steady definition news := by
  obtain ⟨holder, rfl⟩ | ⟨hnewer, next, after, hnext, rfl⟩ := projectRun_eq_ok h
  · have hnil := counted_of_older hordered hlast holder
    refine iff_of_true ?_ ?_
    · simp [definitionAfter, hnil]
    · intro last hmem
      simp [hnil] at hmem
  · obtain ⟨before, hcounted⟩ := counted_of_newer hlast hnewer
    have hafter : definitionAfter definition news
        = projectedOn definition run (expectedAfter definition news) := by
      simp [definitionAfter, hcounted]
    have hexpected : projectedOn definition run next = definitionAfter definition news ↔
        next = expectedAfter definition news := by
      rw [hafter]
      constructor
      · intro heq
        exact congrArg MonitorDefinition.nextExpectedAt heq
      · intro heq
        rw [heq]
    refine hexpected.trans ?_
    unfold projectedNext at hnext
    split_ifs at hnext with hstatus
    · -- the last run is terminal and sets the expectation in both cases
      rw [invalid_eq_ok] at hnext
      refine iff_of_true ?_ ?_
      · simp only at hnext
        simp [expectedAfter, lastFinished, hcounted, hstatus, hnext, Except.toOption]
      · intro last hmem hprogress
        rw [hcounted, List.getLast?_concat] at hmem
        cases hmem
        rw [hstatus] at hprogress
        cases hprogress
    · -- the last run is in progress: what matters is the last terminal one before it
      cases hnext
      have hsteady : Steady definition news ↔ ∀ finished ∈ lastFinished definition news, ∀ next,
          definition.config.schedule.nextAfter finished.receivedAt = .ok next →
            next = definition.nextExpectedAt := by
        unfold Steady
        rw [hcounted, List.getLast?_concat]
        constructor
        · intro hsteady
          exact hsteady run rfl (Bool.eq_false_iff.mpr hstatus)
        · intro hfinished last _ _
          exact hfinished
      rw [hsteady, expectedAfter]
      cases lastFinished definition news with
      | none => simp
      | some finished =>
          cases hnext : definition.config.schedule.nextAfter finished.receivedAt with
          | error e => simp [hnext, Except.toOption]
          | ok next => simp [hnext, Except.toOption, eq_comm]

end

/-! ### The same rows -/

/-- The stored definitions and runs are the same; leases are not compared. -/
def SameRows (left right : MonitorStore) : Prop :=
  (∀ id : MonitorId, left.monitors[id]?.map (·.definition) = right.monitors[id]?.map (·.definition)) ∧
    left.runs = right.runs

/-- A batch of which every update can be stored: it is within the limits of a call, each update finds
its project and its monitor and merges with what is stored and with the updates before it, and new
runs can be projected. Its monitors are steady. -/
structure Whole (store : MonitorStore) (updates : List MonitorUpdate) (news : List MonitorRun) : Prop where
  length : updates.length ≤ maxBatch
  live : ∀ update ∈ updates, store.isLive update.run.projectId = true
  loads : ∃ loaded, loadMonitors store (updates.map (·.run.monitorId)) false = .ok loaded
  merges : newRuns store.monitors store.runs updates = .ok news
  projects : AllProject store news
  steady : ∀ (id : MonitorId) (row : StoredMonitor), store.monitors[id]? = some row →
    Steady row.definition news

/-- Nothing of the batch can be stored, or the whole of it. -/
def NoneOrWhole (store : MonitorStore) (updates : List MonitorUpdate) : Prop :=
  (∀ update ∈ updates, ¬ Stores store update) ∨ ∃ news, Whole store updates news

section

variable {store next state : MonitorStore} {updates : List MonitorUpdate} {news : List MonitorRun}

theorem sameRows_iff_steady (hstore : StoreOk store)
    (hordered : news.Pairwise (·.receivedAt ≤ ·.receivedAt)) (hleaves : Leaves store news next)
    (hafter : After store news state) :
    SameRows next state ↔ ∀ (id : MonitorId) (row : StoredMonitor), store.monitors[id]? = some row →
      Steady row.definition news := by
  have hrow : ∀ (id : MonitorId), next.monitors[id]?.map (·.definition) =
      state.monitors[id]?.map (·.definition) ↔
      ∀ row, store.monitors[id]? = some row → Steady row.definition news := by
    intro id
    rw [hafter.monitors id]
    rcases hleaves.monitors id with
      ⟨hnone, hsame⟩ | ⟨run, row, projected, hlast, hstored, hprojected, hget⟩
    · have hnil : ∀ row, store.monitors[id]? = some row → counted row.definition news = [] := by
        intro row hstored
        rw [counted_eq, hstore.keyed id row hstored, List.getLast?_eq_none_iff.mp hnone, List.filter_nil]
      refine iff_of_true ?_ ?_
      · rw [hsame]
        cases hstored : store.monitors[id]? with
        | none => rfl
        | some row => simp [definitionAfter, hnil row hstored]
      · intro row hstored last hmem
        rw [hnil row hstored] at hmem
        cases hmem
    · have hkeyed := hstore.keyed id row hstored
      have hiff := projectRun_last_iff hordered (hkeyed.symm ▸ hlast) hprojected
      rw [hget, hstored, Option.map_some, Option.map_some, Option.some.injEq]
      refine hiff.trans ⟨?_, ?_⟩
      · rintro hsteady other hother
        cases hother
        exact hsteady
      · intro hsteady
        exact hsteady row rfl
  constructor
  · rintro ⟨hmonitors, -⟩ id row hstored
    exact (hrow id).mp (hmonitors id) row hstored
  · intro hsteady
    refine ⟨fun id => (hrow id).mpr (hsteady id), ?_⟩
    rw [hleaves.runs, hafter.runs]

/-- What a call that commits leaves, also when it has no updates. -/
theorem persist_leaves (hstore : StoreOk store) (hbare : Bare updates)
    {outcomes : List DurableOutcome} (h : persist store updates = .ok (next, outcomes)) :
    ∃ news, newRuns store.monitors store.runs updates = .ok news ∧ Leaves store news next := by
  rcases persist_eq_ok h with ⟨rfl, rfl, -⟩ | ⟨⟨persisted⟩⟩
  · refine ⟨[], rfl, ⟨hstore, rfl, rfl, ?_⟩⟩
    intro id
    exact Or.inl ⟨rfl, rfl⟩
  · exact persisted.leaves hstore hbare

theorem sameRows_of_whole (hstore : StoreOk store) (hbare : Bare updates)
    (h : Whole store updates news) :
    SameRows (committed store (persist store updates)) (oneByOne store updates) := by
  have hafter : After store news (oneByOne store updates) :=
    (after_nil hstore).steps hstore hbare (by simp) h.live h.merges h.projects
  obtain ⟨⟨next, outcomes⟩, hpersist⟩ : ∃ result, persist store updates = .ok result := by
    by_cases hempty : updates = []
    · rw [hempty]
      exact ⟨_, rfl⟩
    · obtain ⟨loaded, hloaded⟩ := h.loads
      refine persist_of_news hstore hbare hempty h.length h.live hloaded h.merges ?_
      intro id run hlast
      obtain ⟨hmem, rfl⟩ := mem_of_lastRun hlast
      obtain ⟨row, hrow⟩ := newRuns_known hstore.runs h.merges hmem
      exact ⟨row, hrow, h.projects run hmem row hrow⟩
  obtain ⟨found, hfound, hleaves⟩ := persist_leaves hstore hbare hpersist
  cases h.merges.symm.trans hfound
  rw [hpersist]
  exact (sameRows_iff_steady hstore (newRuns_ordered h.merges hbare.ordered) hleaves hafter).mpr h.steady

theorem oneByOne_of_none_stores (hstore : StoreOk store) (hbare : Bare updates)
    (h : ∀ update ∈ updates, ¬ Stores store update) : oneByOne store updates = store := by
  induction updates with
  | nil => rfl
  | cons update updates ih =>
      rw [List.forall_mem_cons] at h
      rcases persistOne_cases hstore hbare.head with ⟨_, hstores, -⟩ | ⟨-, hsame⟩
      · exact absurd hstores h.1
      · rw [oneByOne, List.foldl_cons, hsame]
        exact ih hbare.tail h.2

theorem persist_limits {outcomes : List DurableOutcome}
    (h : persist store updates = .ok (next, outcomes)) :
    updates.length ≤ maxBatch ∧ (∀ update ∈ updates, store.isLive update.run.projectId = true) ∧
      ∃ loaded, loadMonitors store (updates.map (·.run.monitorId)) false = .ok loaded := by
  rcases persist_eq_ok h with ⟨rfl, -, -⟩ | ⟨⟨persisted⟩⟩
  · refine ⟨by simp, by simp, ∅, ?_⟩
    simp [loadMonitors, Table.selectAny, decodeMonitors]
  · refine ⟨persisted.length_le, ?_, persisted.loaded, persisted.hloaded⟩
    intro update hupdate
    exact lockProjects_iff.mp persisted.hlock _ (List.mem_map.mpr ⟨update, hupdate, rfl⟩)

/-- A batch of updates none of which can be stored stores nothing. -/
theorem committed_of_none_stores (hstore : StoreOk store) (hbare : Bare updates)
    (h : ∀ update ∈ updates, ¬ Stores store update) :
    committed store (persist store updates) = store := by
  cases hpersist : persist store updates with
  | error e => rfl
  | ok result =>
      obtain ⟨next, outcomes⟩ := result
      obtain ⟨news, hnews, hleaves⟩ := persist_leaves hstore hbare hpersist
      have hnil : news = [] := by
        by_contra hne
        obtain ⟨first, hfirst⟩ := List.exists_mem_of_ne_nil news hne
        obtain ⟨run, hlast⟩ : ∃ run, lastRun news first.monitorId = some run := by
          cases hlast : lastRun news first.monitorId with
          | none =>
              have hempty := List.filter_eq_nil_iff.mp (List.getLast?_eq_none_iff.mp hlast) first hfirst
              exact absurd (decide_eq_true rfl) hempty
          | some run => exact ⟨run, rfl⟩
        obtain ⟨update, hupdate, known, hextends, habsorb⟩ :=
          newRuns_mem hstore.runs (Extends.refl _) hnews (mem_of_lastRun hlast).1
        obtain ⟨alone, halone⟩ := absorb_of_extends hextends habsorb
        have hreceipt : receipt alone = receipt run :=
          (absorb_receipt halone).trans (absorb_receipt habsorb).symm
        have hid : update.run.monitorId = first.monitorId := by
          rw [← (mem_of_lastRun hlast).2]
          exact (congrArg Prod.fst (absorb_receipt habsorb)).symm
        refine h update hupdate ⟨(persist_limits hpersist).2.1 update hupdate, alone, halone, ?_⟩
        intro row hrow
        rw [hid] at hrow
        rcases hleaves.monitors first.monitorId with
          ⟨hnone, -⟩ | ⟨found, stored, projected, hfound, hstored, hprojected, hget⟩
        · cases hnone.symm.trans hlast
        · cases hfound.symm.trans hlast
          cases hstored.symm.trans hrow
          have hstatus : alone.status = run.status := congrArg (·.2.1) hreceipt
          rw [projects_congr (congrArg _ hstatus) (congrArg (·.2.2) hreceipt)]
          exact (projects_iff (hstore.writable _ _ hrow) row.lease).mpr
            ⟨projected, hprojected, hleaves.ok.writable _ _ hget⟩
      subst hnil
      exact hleaves.eq_of_nil

theorem sameRows_of_noneOrWhole (hstore : StoreOk store) (hbare : Bare updates)
    (h : NoneOrWhole store updates) :
    SameRows (committed store (persist store updates)) (oneByOne store updates) := by
  rcases h with hnone | ⟨news, hwhole⟩
  · rw [committed_of_none_stores hstore hbare hnone, oneByOne_of_none_stores hstore hbare hnone]
    exact ⟨fun _ => rfl, rfl⟩
  · exact sameRows_of_whole hstore hbare hwhole

end

/-! ### What the same rows say about a batch -/

section

open IngestCheckIns

variable {blake3 : List (BitVec 8) → BitVec 256} {store state : MonitorStore}
  {updates : List MonitorUpdate} {update : MonitorUpdate} {news : List MonitorRun}

/-- A run that one more call stores is recorded, and its monitor could take it from the first. -/
theorem After.step_any (h : After store news state) (hstore : StoreOk store)
    (hbare : Bare [update]) (hbefore : ∀ run ∈ news, run.receivedAt ≤ update.run.receivedAt) :
    ∃ merged : Option MonitorRun, After store (news ++ merged.toList) (persistOne state update) ∧
      ∀ run ∈ merged, absorb store.monitors state.runs update = .ok (some run) ∧
        ∀ row ∈ store.monitors[run.monitorId]?, Projects row.definition run := by
  rcases persistOne_cases h.ok hbare with ⟨run, ⟨hlive, found, hfound, hprojects⟩, hrun, -⟩ | ⟨-, hsame⟩
  · cases hrun.symm.trans hfound
    rw [h.absorb_eq] at hrun
    have hreceipt := absorb_receipt hrun
    have hid : run.monitorId = update.run.monitorId := congrArg Prod.fst hreceipt
    have hat : run.receivedAt = update.run.receivedAt := congrArg (·.2.2) hreceipt
    have hrow : ∀ row ∈ store.monitors[run.monitorId]?, Projects row.definition run := by
      intro stored hstored
      have hmap := h.monitors run.monitorId
      rw [hstored, Option.map_some] at hmap
      obtain ⟨row, hget, heq⟩ := Option.map_eq_some_iff.mp hmap
      have hproject := hprojects row (hid ▸ hget)
      rw [heq, projects_definitionAfter (hat.symm ▸ hbefore)] at hproject
      exact hproject
    refine ⟨some run, ?_, ?_⟩
    · refine h.step hstore hbare hbefore (h.isLive _ ▸ hlive) hrun ?_
      intro other hother
      rw [Option.toList_some, List.mem_singleton] at hother
      rw [hother]
      exact hrow
    · intro other hother
      cases hother
      exact ⟨hrun, hrow⟩
  · refine ⟨none, ?_, by simp⟩
    rw [hsame, Option.toList_none, List.append_nil]
    exact h

/-- Calls one by one finish stored runs at most. -/
theorem oneByOne_extends (hstate : StoreOk state) (hbare : Bare updates) :
    Extends state.runs (oneByOne state updates).runs := by
  induction updates generalizing state with
  | nil => exact Extends.refl _
  | cons update updates ih =>
      rw [oneByOne, List.foldl_cons]
      rcases persistOne_cases hstate hbare.head with ⟨run, -, hrun, hleaves⟩ | ⟨-, hsame⟩
      · have hnext : Extends state.runs (persistOne state update).runs := by
          rw [hleaves.runs]
          exact (Extends.refl _).absorb hstate.runs hrun
        exact hnext.trans (ih hleaves.ok hbare.tail)
      · rw [hsame]
        exact ih hstate hbare.tail

/-- A new run is never the one that was stored. -/
theorem absorb_ne_stored {runs : Table MonitorRunId MonitorRun} {monitors : Table MonitorId StoredMonitor}
    {run stored : MonitorRun} (h : absorb monitors runs update = .ok (some run))
    (hstored : runs[update.run.id]? = some stored) : ¬ Finishes run stored := by
  obtain ⟨_, incoming, -, -, -, -, hmerge⟩ := absorb_eq_ok h
  rw [hstored] at hmerge
  obtain ⟨-, ⟨hnone, -⟩ | ⟨existing, hexisting, -, hprogress, hterminal, rfl, -⟩⟩ := merge_eq_some hmerge
  · cases hnone
  · cases hexisting
    have hstatus : (mergedRun stored incoming).status.isTerminal = true := hterminal
    rintro (heq | ⟨hopen, -, -⟩)
    · rw [← heq, hprogress] at hstatus
      cases hstatus
    · rw [hopen] at hstatus
      cases hstatus

theorem oneByOne_changes (hstore : StoreOk store) (hbare : Bare updates)
    (h : ∃ update ∈ updates, Stores store update) : (oneByOne store updates).runs ≠ store.runs := by
  induction updates with
  | nil =>
      obtain ⟨_, hmem, -⟩ := h
      cases hmem
  | cons update updates ih =>
      rw [oneByOne, List.foldl_cons]
      rcases persistOne_cases hstore hbare.head with ⟨run, -, hrun, hleaves⟩ | ⟨hnot, hsame⟩
      · intro heq
        have hid := (absorb_some hstore.runs hrun).1
        have hget : (persistOne store update).runs[run.id]? = some run := by
          rw [hleaves.runs]
          exact Table.get_insert_self _ _ _
        obtain ⟨final, hfinal, hfinishes⟩ := oneByOne_extends hleaves.ok hbare.tail run.id run hget
        change (oneByOne (persistOne store update) updates).runs = store.runs at heq
        rw [heq, hid] at hfinal
        exact absorb_ne_stored hrun hfinal hfinishes
      · rw [hsame]
        refine ih hbare.tail ?_
        obtain ⟨other, hother, hstores⟩ := h
        rcases List.mem_cons.mp hother with rfl | hother
        · exact absurd hstores hnot
        · exact ⟨other, hother, hstores⟩

/-- What no update brings about under an id is not found there after any number of calls. -/
theorem After.never (h : After store news state) (hstore : StoreOk store) (hbare : Bare updates)
    (hbefore : ∀ run ∈ news, ∀ update ∈ updates, run.receivedAt ≤ update.run.receivedAt)
    {id : MonitorRunId} {property : MonitorRun → Prop}
    (hstate : ∀ run ∈ state.runs[id]?, ¬ property run)
    (hstep : ∀ update ∈ updates, ∀ (known : Table MonitorRunId MonitorRun) (run : MonitorRun),
      absorb store.monitors known update = .ok (some run) → update.run.id = id →
      (∀ row ∈ store.monitors[run.monitorId]?, Projects row.definition run) →
      (∀ stored ∈ known[id]?, ¬ property stored) → ¬ property run) :
    ∀ run ∈ (oneByOne state updates).runs[id]?, ¬ property run := by
  induction updates generalizing news state with
  | nil => exact hstate
  | cons update updates ih =>
      rw [List.forall_mem_cons] at hstep
      obtain ⟨merged, hafter, hmerged⟩ := h.step_any hstore hbare.head
        (fun run hrun => hbefore run hrun update (by simp))
      have hbounds := received_before_rest hbare.ordered hbefore fun run hrun =>
        congrArg (·.2.2) (absorb_receipt (hmerged run hrun).1)
      refine ih hafter hbare.tail hbounds ?_ hstep.2
      rw [hafter.runs, recordRuns_append, ← h.runs]
      cases merged with
      | none => exact hstate
      | some run =>
          obtain ⟨hrun, hprojects⟩ := hmerged run rfl
          have hid := (absorb_some h.ok.runs hrun).1
          intro found hfound
          have hget : (state.runs.insert run.id run)[id]? = some found := hfound
          rw [Table.get_insert] at hget
          split_ifs at hget with heq
          · cases hget
            exact hstep.1 state.runs run hrun (hid.symm.trans heq) hprojects hstate
          · exact hstate found hget

/-- A submitted update without a definition leaves the deadline to its monitor, and a run in progress
starts when it is received. -/
theorem submitted_bare (h : Submitted blake3 update) (hnone : update.definition = none) :
    update.run.timeoutAt = none ∧
      (update.run.status = .inProgress → update.run.startedAt = update.run.receivedAt) := by
  rcases h with ⟨projectId, retentionDays, receivedAt, fields, h⟩ |
    ⟨monitor, now, finishedAt, deleteAt, result, rfl⟩
  · simp only [normalizeCheckIn, bind_eq_ok] at h
    obtain ⟨_, -, startedAt, hstarted, definition, -, timeoutAt, htimeout, _, -, _, -, h⟩ := h
    rw [pure_eq_ok] at h
    subst h
    change definition = none at hnone
    subst hnone
    constructor
    · cases htimeout
      rfl
    · intro hstatus
      change fields.status = .inProgress at hstatus
      rw [checkInStartedAt, if_pos hstatus] at hstarted
      exact (Except.ok.inj hstarted).symm
  · refine ⟨rfl, ?_⟩
    intro hstatus
    have hterminal : (uptimeUpdate blake3 monitor now finishedAt deleteAt result).run.status.isTerminal
        = true := by
      cases hfailure : result.failure with
      | none => simp [uptimeUpdate, hfailure, MonitorRunStatus.isTerminal]
      | some failure => cases failure <;> simp [uptimeUpdate, hfailure, MonitorRunStatus.isTerminal]
    rw [hstatus] at hterminal
    cases hterminal

/-- The two ways in which an update leaves a new run. -/
theorem absorb_some_cases {monitors : Table MonitorId StoredMonitor}
    {runs : Table MonitorRunId MonitorRun} {run : MonitorRun}
    (h : absorb monitors runs update = .ok (some run)) :
    (runs[update.run.id]? = none ∧
      ∃ timeoutAt, run = { update.run with timeoutAt := timeoutAt } ∧
        (update.run.status = .inProgress → timeoutAt.isSome = true) ∧
        (update.run.status.isTerminal = true → timeoutAt = update.run.timeoutAt)) ∨
    ∃ stored, runs[update.run.id]? = some stored ∧ stored.status = .inProgress ∧
      run.status.isTerminal = true ∧ run = withOutcome stored run := by
  obtain ⟨monitor, incoming, -, -, htimeout, -, hmerge⟩ := absorb_eq_ok h
  obtain ⟨-, ⟨hnone, rfl⟩ | ⟨stored, hstored, -, hprogress, hterminal, rfl, -⟩⟩ := merge_eq_some hmerge
  · refine Or.inl ⟨hnone, run.timeoutAt, ?_⟩
    unfold withTimeout at htimeout
    split_ifs at htimeout with hmissing
    · rw [bind_eq_ok] at htimeout
      obtain ⟨timeoutAt, -, heq⟩ := htimeout
      rw [pure_eq_ok] at heq
      subst heq
      refine ⟨rfl, fun _ => rfl, ?_⟩
      intro hstatus
      rw [hmissing.1] at hstatus
      cases hstatus
    · cases htimeout
      refine ⟨rfl, ?_, fun _ => rfl⟩
      intro hstatus
      rw [not_and] at hmissing
      exact Option.isSome_iff_ne_none.mpr (hmissing hstatus)
  · exact Or.inr ⟨stored, hstored, hprogress, hterminal, rfl⟩

section Refused

variable (h : After store news state) (hstore : StoreOk store) (hbare : Bare updates)
  (hbefore : ∀ run ∈ news, ∀ update ∈ updates, run.receivedAt ≤ update.run.receivedAt)
  {run : MonitorRun} {row : StoredMonitor} (hrow : store.monitors[run.monitorId]? = some row)
  (hnot : ¬ Projects row.definition run)

include h hstore hbare hbefore hrow hnot

/-- A terminal run that cannot be projected is not stored by any later call either. -/
theorem not_finished_of_refused (hterminal : run.status.isTerminal = true)
    (hstate : ∀ found ∈ state.runs[run.id]?, found.status.isTerminal = false) :
    ∀ found ∈ (oneByOne state updates).runs[run.id]?, ¬ (found.monitorId = run.monitorId ∧
      found.status.isTerminal = true ∧ found.receivedAt = run.receivedAt) := by
  refine h.never hstore hbare hbefore ?_ ?_
  · rintro found hfound ⟨-, hstatus, -⟩
    rw [hstate found hfound] at hstatus
    cases hstatus
  · rintro update - known found - - hprojects - ⟨hmonitor, hstatus, hreceived⟩
    apply hnot
    rw [projects_congr (hterminal.trans hstatus.symm) hreceived.symm]
    exact hprojects row (hmonitor ▸ hrow)

/-- Nor is a run in progress: a later call may store its outcome, but not its start. -/
theorem not_started_of_refused (hprogress : run.status = .inProgress)
    (hsubmitted : ∀ update ∈ updates, Submitted blake3 update) (hfree : state.runs[run.id]? = none) :
    ∀ found ∈ (oneByOne state updates).runs[run.id]?, ¬ (found.monitorId = run.monitorId ∧
      found.startedAt = run.receivedAt ∧ found.timeoutAt.isSome = true) := by
  refine h.never hstore hbare hbefore ?_ ?_
  · intro found hfound
    rw [hfree] at hfound
    cases hfound
  · rintro update hupdate known found habsorb hid hprojects hknown ⟨hmonitor, hstarted, htimeout⟩
    obtain ⟨hdeadline, hstart⟩ := submitted_bare (hsubmitted update hupdate)
      (hbare.definition update hupdate)
    rcases absorb_some_cases habsorb with
      ⟨-, timeoutAt, rfl, -, hkept⟩ | ⟨stored, hstored, -, -, heq⟩
    · by_cases hstatus : update.run.status.isTerminal = true
      · rw [hkept hstatus, hdeadline] at htimeout
        cases htimeout
      · have hopen : update.run.status = .inProgress := by
          cases hcase : update.run.status with
          | inProgress => rfl
          | _ => simp [hcase, MonitorRunStatus.isTerminal] at hstatus
        apply hnot
        have hreceived : update.run.receivedAt = run.receivedAt := (hstart hopen).symm.trans hstarted
        have hsame := hprojects row (hmonitor ▸ hrow)
        rw [projects_congr (congrArg _ (hprogress.trans hopen.symm)) hreceived.symm]
        exact hsame
    · refine hknown stored (hid ▸ hstored) ?_
      rw [heq] at hmonitor hstarted htimeout
      exact ⟨hmonitor, hstarted, htimeout⟩

end Refused

/-- A run that the batch stores and that is refused by itself makes a difference: later calls never
store what the batch makes of it. -/
theorem After.refused_differs (h : After store news state) (hstore : StoreOk store)
    (hbare : Bare (update :: updates))
    (hsubmitted : ∀ other ∈ update :: updates, Submitted blake3 other)
    (hbefore : ∀ run ∈ news, ∀ other ∈ update :: updates, run.receivedAt ≤ other.run.receivedAt)
    {run : MonitorRun} (hmerged : absorb store.monitors state.runs update = .ok (some run))
    {row : StoredMonitor} (hrow : store.monitors[run.monitorId]? = some row)
    (hnot : ¬ Projects row.definition run) {rest : List MonitorRun}
    (hrest : newRuns store.monitors (recordRuns state.runs [run]) updates = .ok rest) :
    (oneByOne (persistOne state update) updates).runs ≠
      recordRuns (recordRuns state.runs [run]) rest := by
  intro hruns
  obtain ⟨stored, hafter, hstored⟩ := h.step_any hstore hbare.head
    fun run hrun => hbefore run hrun update (by simp)
  have hrefused : stored = none := by
    cases stored with
    | none => rfl
    | some other =>
        obtain ⟨hother, hproject⟩ := hstored other rfl
        cases hmerged.symm.trans hother
        exact absurd (hproject row hrow) hnot
  rw [hrefused, Option.toList_none, List.append_nil] at hafter
  have hsame : (persistOne state update).runs = state.runs := by
    rw [hafter.runs, h.runs]
  have hid := (absorb_some h.ok.runs hmerged).1
  have hlater : ∀ other ∈ news, ∀ next ∈ updates, other.receivedAt ≤ next.run.receivedAt :=
    fun other hother next hnext => hbefore other hother next (List.mem_cons_of_mem _ hnext)
  obtain ⟨final, hfinal, hfinishes⟩ := (newRuns_sound (h.ok.runs.absorb hmerged) (Extends.refl _) hrest).2
    run.id run (Table.get_insert_self _ _ _)
  change (recordRuns (recordRuns state.runs [run]) rest)[run.id]? = some final at hfinal
  rw [← hruns] at hfinal
  by_cases hterminal : run.status.isTerminal = true
  · have hkept : final = run := by
      rcases hfinishes with heq | ⟨hopen, -, -⟩
      · exact heq
      · rw [hopen] at hterminal
        cases hterminal
    have hopen : ∀ found ∈ (persistOne state update).runs[run.id]?,
        found.status.isTerminal = false := by
      intro found hfound
      rw [hsame, hid] at hfound
      rcases absorb_some_cases hmerged with ⟨hfree, -⟩ | ⟨existing, hexisting, hprogress, -⟩
      · rw [hfree] at hfound
        cases hfound
      · cases hexisting.symm.trans hfound
        rw [hprogress]
        rfl
    refine not_finished_of_refused hafter hstore hbare.tail hlater hrow hnot hterminal hopen final hfinal ?_
    rw [hkept]
    exact ⟨rfl, hterminal, rfl⟩
  · obtain ⟨hfree, timeoutAt, heq, hdeadline, -⟩ :=
      (absorb_some_cases hmerged).resolve_right fun ⟨_, _, _, hfinal, _⟩ => hterminal hfinal
    have hprogress : update.run.status = .inProgress := by
      rw [heq] at hterminal
      cases hcase : update.run.status with
      | inProgress => rfl
      | _ => simp [hcase, MonitorRunStatus.isTerminal] at hterminal
    obtain ⟨-, hstart⟩ := submitted_bare (hsubmitted update (by simp))
      (hbare.definition update (by simp))
    refine not_started_of_refused hafter hstore hbare.tail hlater hrow hnot (by rw [heq]; exact hprogress)
      (List.forall_mem_cons.mp hsubmitted).2 (by rw [hsame, hid]; exact hfree) final hfinal ?_
    rw [hfinishes.outcome, heq]
    exact ⟨rfl, hstart hprogress, hdeadline hprogress⟩

/-- When calls one by one store the runs that the batch finds, each of them can be projected. -/
theorem After.allProject (h : After store news state) (hstore : StoreOk store) (hbare : Bare updates)
    (hsubmitted : ∀ update ∈ updates, Submitted blake3 update)
    (hbefore : ∀ run ∈ news, ∀ update ∈ updates, run.receivedAt ≤ update.run.receivedAt)
    (hlive : ∀ update ∈ updates, store.isLive update.run.projectId = true) {later : List MonitorRun}
    (hlater : newRuns store.monitors state.runs updates = .ok later)
    (hruns : (oneByOne state updates).runs = recordRuns state.runs later) :
    AllProject store later := by
  induction updates generalizing news state later with
  | nil =>
      cases hlater
      intro run hrun
      cases hrun
  | cons update updates ih =>
      simp only [newRuns, bind_eq_ok, pure_eq_ok] at hlater
      obtain ⟨merged, hmerged, rest, hrest, rfl⟩ := hlater
      change (oneByOne (persistOne state update) updates).runs = _ at hruns
      rw [recordRuns_append] at hruns
      by_cases hprojects : AllProject store merged.toList
      · have hstep := h.step hstore hbare.head (fun run hrun => hbefore run hrun update (by simp))
          (hlive update (by simp)) hmerged hprojects
        have hnext : (persistOne state update).runs = recordRuns state.runs merged.toList := by
          rw [hstep.runs, recordRuns_append, ← h.runs]
        have hbounds : ∀ run ∈ news ++ merged.toList, ∀ other ∈ updates,
            run.receivedAt ≤ other.run.receivedAt := by
          refine received_before_rest hbare.ordered hbefore ?_
          intro run hrun
          rw [hrun] at hmerged
          exact congrArg (·.2.2) (absorb_receipt hmerged)
        rw [← hnext] at hrest hruns
        exact List.forall_mem_append.mpr ⟨hprojects, ih hstep hbare.tail
          (List.forall_mem_cons.mp hsubmitted).2 hbounds (List.forall_mem_cons.mp hlive).2 hrest hruns⟩
      · cases merged with
        | none => exact absurd (fun run hrun => by cases hrun) hprojects
        | some run =>
            simp only [AllProject, Option.toList_some, List.mem_singleton, forall_eq, not_forall]
              at hprojects
            obtain ⟨row, hrow, hnot⟩ := hprojects
            exact absurd hruns
              (h.refused_differs hstore hbare hsubmitted hbefore hmerged hrow hnot hrest)

theorem noneOrWhole_of_sameRows (hstore : StoreOk store) (hbare : Bare updates)
    (hsubmitted : ∀ update ∈ updates, Submitted blake3 update)
    (hsame : SameRows (committed store (persist store updates)) (oneByOne store updates)) :
    NoneOrWhole store updates := by
  by_cases hstores : ∃ update ∈ updates, Stores store update
  · refine Or.inr ?_
    cases hpersist : persist store updates with
    | error e =>
        rw [hpersist] at hsame
        exact absurd hsame.2.symm (oneByOne_changes hstore hbare hstores)
    | ok result =>
        obtain ⟨next, outcomes⟩ := result
        rw [hpersist] at hsame
        obtain ⟨news, hnews, hleaves⟩ := persist_leaves hstore hbare hpersist
        obtain ⟨hlength, hlive, hloads⟩ := persist_limits hpersist
        have hprojects : AllProject store news :=
          (after_nil hstore).allProject hstore hbare hsubmitted (by simp) hlive hnews
            (hsame.2.symm.trans hleaves.runs)
        have hafter : After store news (oneByOne store updates) :=
          (after_nil hstore).steps hstore hbare (by simp) hlive hnews hprojects
        refine ⟨news, hlength, hlive, hloads, hnews, hprojects, ?_⟩
        exact (sameRows_iff_steady hstore (newRuns_ordered hnews hbare.ordered) hleaves hafter).mp hsame
  · refine Or.inl ?_
    intro update hupdate hstore
    exact hstores ⟨update, hupdate, hstore⟩

open Relation in
/-- A batch leaves the rows that its updates leave one by one when nothing or the whole of it can be
stored and its monitors are steady; for updates that were submitted, only then. -/
theorem batch_same_rows_iff (blake3 : List (BitVec 8) → BitVec 256) (initial store : MonitorStore)
    (hmonitors : initial.monitors = ∅) (hruns : initial.runs = ∅)
    (hreach : ReflTransGen (Step blake3) initial store) (updates : List MonitorUpdate)
    (hbare : Bare updates) :
    (NoneOrWhole store updates →
      SameRows (committed store (persist store updates)) (oneByOne store updates)) ∧
    ((∀ update ∈ updates, Submitted blake3 update) →
      SameRows (committed store (persist store updates)) (oneByOne store updates) →
      NoneOrWhole store updates) := by
  have hstore := storeOk_of_steps hmonitors hruns hreach
  exact ⟨sameRows_of_noneOrWhole hstore hbare, noneOrWhole_of_sameRows hstore hbare⟩

end

/-! ### A sample batch -/

section

open IngestCheckIns

/-- The sample monitor, with a check-in that has started. -/
def sampleStarted : MonitorStore := checkIn sampleStore sampleStart (sampleFields 7 .inProgress true)

/-- The success of that check-in and another check-in ten seconds later. -/
def sampleBatch (status : MonitorRunStatus) : List MonitorUpdate :=
  sampleUpdates ⟨1700000060000, inRange_sampleMinute⟩ (sampleFields 7 .success false) ++
    sampleUpdates ⟨1700000070000, by decide⟩ (sampleFields 8 status false)

theorem sampleBatch_bare (status : MonitorRunStatus) (h : status = .success ∨ status = .inProgress) :
    Bare (sampleBatch status) := by
  rcases h with rfl | rfl
  · exact ⟨by decide, by decide, by unfold Ordered; decide⟩
  · exact ⟨by decide, by decide, by unfold Ordered; decide⟩

/-- The new runs of a sample batch. -/
def sampleNews (status : MonitorRunStatus) : List MonitorRun :=
  (newRuns sampleStarted.monitors sampleStarted.runs (sampleBatch status)).toOption.getD []

theorem batch_same_rows_iff_nightly :
    SameRows (committed sampleStarted (persist sampleStarted (sampleBatch .success)))
      (oneByOne sampleStarted (sampleBatch .success)) := by
  have hrows : ∀ entry ∈ sampleStarted.monitors.toList,
      Steady entry.2.definition (sampleNews .success) := by decide
  have hloads : (loadMonitors sampleStarted ((sampleBatch .success).map (·.run.monitorId))
      false).toOption.isSome = true := by decide
  refine (batch_same_rows_iff sampleBlake3 sampleStore sampleStarted rfl rfl (checkIn_step _ _ _)
    (sampleBatch .success) (sampleBatch_bare _ (Or.inl rfl))).1 ?_
  refine Or.inr ⟨sampleNews .success, by decide, by decide, ?_, by decide, ?_, ?_⟩
  · cases hloaded : loadMonitors sampleStarted ((sampleBatch .success).map (·.run.monitorId)) false with
    | error e =>
        rw [hloaded] at hloads
        cases hloads
    | ok loaded => exact ⟨loaded, rfl⟩
  · unfold AllProject
    decide
  · intro id row hrow
    exact hrows (id, row) (Table.mem_toList.mpr hrow)

/-- A success and a check-in in progress after it: the batch forgets when the next one is expected. -/
theorem batch_forgets_expectation :
    Bare (sampleBatch .inProgress) ∧ (∀ update ∈ sampleBatch .inProgress, Submitted sampleBlake3 update) ∧
    Relation.ReflTransGen (Step sampleBlake3) sampleStore sampleStarted ∧
    ¬ SameRows (committed sampleStarted (persist sampleStarted (sampleBatch .inProgress)))
      (oneByOne sampleStarted (sampleBatch .inProgress)) := by
  refine ⟨sampleBatch_bare _ (Or.inr rfl), ?_, checkIn_step _ _ _, ?_⟩
  · intro update hupdate
    rcases List.mem_append.mp hupdate with hupdate | hupdate
    · exact sampleUpdates_submitted hupdate
    · exact sampleUpdates_submitted hupdate
  · rintro ⟨hmonitors, -⟩
    have hnext := congrArg (Option.map MonitorDefinition.nextExpectedAt) (hmonitors sampleMonitorId)
    revert hnext
    decide

end

end MetricBackend.PostgresMonitors
