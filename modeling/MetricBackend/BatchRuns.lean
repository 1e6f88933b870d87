import MetricBackend.MonitorRows

/-! # Batches without definitions

What `persist` does with updates that carry no definition, said without its loops: the runs of the
batch that are new, in order, decide the tables that a call leaves and whether it succeeds. -/

namespace MetricBackend.PostgresMonitors

/-! ### What a store always has -/

/-- A definition that `write_monitors` lets through. -/
structure Writable (definition : MonitorDefinition) : Prop where
  encoded : ∃ size, encodeConfig definition = .ok size
  due : ∃ time, due definition = .ok time
  revision : ∃ value, positive definition.revision = .ok value

/-- Runs are stored under their own ids and pass their check. -/
def RunsValid (runs : Table MonitorRunId MonitorRun) : Prop :=
  ∀ (id : MonitorRunId) (run : MonitorRun), runs[id]? = some run →
    run.id = id ∧ run.validate = .ok ()

/-- What holds of the rows of every store that operations have filled. -/
structure StoreOk (store : MonitorStore) : Prop where
  keyed : Keyed store.monitors
  writable : ∀ (id : MonitorId) (row : StoredMonitor), store.monitors[id]? = some row →
    Writable row.definition
  runs : RunsValid store.runs

theorem writeMonitor_writable {monitors next : Table MonitorId StoredMonitor} {value : StoredMonitor}
    (h : writeMonitor monitors value = .ok next) : Writable value.definition := by
  simp only [writeMonitor, bind_eq_ok] at h
  obtain ⟨size, hsize, time, htime, revision, hrevision, -⟩ := h
  exact ⟨⟨size, hsize⟩, ⟨time, htime⟩, ⟨revision, hrevision⟩⟩

theorem writeMonitors_writable {monitors next : Table MonitorId StoredMonitor}
    {values : List StoredMonitor} (h : writeMonitors monitors values = .ok next)
    (hmonitors : ∀ (id : MonitorId) (row : StoredMonitor), monitors[id]? = some row →
      Writable row.definition) :
    ∀ (id : MonitorId) (row : StoredMonitor), next[id]? = some row → Writable row.definition := by
  refine foldlM_ok_induction (fun stored : Table MonitorId StoredMonitor =>
    ∀ (id : MonitorId) (row : StoredMonitor), stored[id]? = some row → Writable row.definition)
    _ _ _ h hmonitors ?_
  intro stored value after _ hstored hafter id row hget
  rw [writeMonitor_eq_ok hafter, Table.get_insert] at hget
  split_ifs at hget
  · cases hget
    exact writeMonitor_writable hafter
  · exact hstored id row hget

section Reachable

open Relation

variable {blake3 : List (BitVec 8) → BitVec 256} {store next : MonitorStore}

theorem Step.keyed (h : Step blake3 store next) (hruns : RunsOk blake3 store.runs)
    (hkeyed : Keyed store.monitors) : Keyed next.monitors := by
  cases h with
  | persist updates outcomes _ h =>
      rcases persist_eq_ok h with ⟨-, rfl, -⟩ | ⟨⟨persisted⟩⟩
      · exact hkeyed
      · exact persisted.keyed_next hkeyed
  | upsert definition h =>
      obtain ⟨-, lease, rfl⟩ := upsert_eq_ok h
      exact hkeyed.insert rfl
  | timeout now candidates count h => exact workTimeout_keyed hkeyed h
  | missed now candidates count h => exact workMissed_keyed hkeyed hruns h
  | uptime now leaseUntil candidates claimed h => exact workUptime_keyed hkeyed h
  | projects projects => exact hkeyed

theorem Step.writable (h : Step blake3 store next)
    (hstore : ∀ (id : MonitorId) (row : StoredMonitor), store.monitors[id]? = some row →
      Writable row.definition) :
    ∀ (id : MonitorId) (row : StoredMonitor), next.monitors[id]? = some row →
      Writable row.definition := by
  cases h with
  | persist updates outcomes _ h =>
      rcases persist_eq_ok h with ⟨-, rfl, -⟩ | ⟨⟨persisted⟩⟩
      · exact hstore
      · exact writeMonitors_writable persisted.hmonitors hstore
  | upsert definition h =>
      simp only [PostgresMonitors.upsert, bind_eq_ok, pure_eq_ok] at h
      obtain ⟨_, -, _, -, _, -, _, -, monitors, hmonitors, rfl⟩ := h
      exact writeMonitors_writable hmonitors hstore
  | timeout now candidates count h =>
      simp only [workTimeout, bind_eq_ok, pure_eq_ok] at h
      obtain ⟨_, -, _, -, _, -, monitors, hmonitors, _, -, h⟩ := h
      cases h
      exact writeMonitors_writable hmonitors hstore
  | missed now candidates count h =>
      simp only [workMissed, bind_eq_ok, pure_eq_ok] at h
      obtain ⟨_, -, _, -, _, -, monitors, hmonitors, _, -, h⟩ := h
      cases h
      exact writeMonitors_writable hmonitors hstore
  | uptime now leaseUntil candidates claimed h =>
      simp only [workUptime, bind_eq_ok, pure_eq_ok] at h
      obtain ⟨_, -, _, -, monitors, hmonitors, h⟩ := h
      cases h
      exact writeMonitors_writable hmonitors hstore
  | projects projects => exact hstore

/-- Every store that operations reach from empty tables is in order. -/
theorem storeOk_of_steps {initial : MonitorStore} (hmonitors : initial.monitors = ∅)
    (hruns : initial.runs = ∅) (hsteps : ReflTransGen (Step blake3) initial store) :
    StoreOk store := by
  have hinitial : RunsOk blake3 initial.runs := by
    intro id run hget
    simp [hruns] at hget
  have hok : Keyed store.monitors ∧
      (∀ (id : MonitorId) (row : StoredMonitor), store.monitors[id]? = some row →
        Writable row.definition) := by
    induction hsteps with
    | refl =>
        constructor
        · intro id row hget
          simp [hmonitors] at hget
        · intro id row hget
          simp [hmonitors] at hget
    | tail hsteps hstep ih =>
        exact ⟨hstep.keyed (steps_writes hinitial hsteps).1 ih.1, hstep.writable ih.2⟩
  refine ⟨hok.1, hok.2, ?_⟩
  intro id run hget
  obtain ⟨hid, hvalid, -⟩ := (steps_writes hinitial hsteps).1 id run hget
  exact ⟨hid, hvalid⟩

end Reachable

/-! ### Projections that succeed -/

/-- The time from which the monitor counts as due once `next` is expected. -/
def dueAt (definition : MonitorDefinition) (next : Timestamp) : Except SignalStoreError Timestamp :=
  due { definition with nextExpectedAt := next }

theorem dueAt_congr {definition other : MonitorDefinition} (hconfig : definition.config = other.config)
    (huptime : definition.uptime = other.uptime) (next : Timestamp) :
    dueAt definition next = dueAt other next := by
  unfold dueAt due MonitorDefinition.isUptime
  rw [hconfig, huptime]

/-- A run that can be projected: it is older than the last one seen, which leaves the monitor alone,
or it is not before the monitor was created and, when it is terminal, the schedule goes on. -/
def Projects (definition : MonitorDefinition) (run : MonitorRun) : Prop :=
  definition.lastCheckInAt.any (run.receivedAt < ·) = true ∨
    (definition.createdAt ≤ run.receivedAt ∧ (run.status.isTerminal = true → ∃ next time,
      definition.config.schedule.nextAfter run.receivedAt = .ok next ∧
      dueAt definition next = .ok time))

section Projections

variable {definition : MonitorDefinition} {run : MonitorRun} {next : Timestamp}

theorem exists_ok_iff {ε α : Type} {x : Except ε α} {property : α → Prop} [DecidablePred property] :
    (∃ value, x = .ok value ∧ property value) ↔ x.toOption.any property = true := by
  cases x <;> simp [Except.toOption]

instance decidableProjects : Decidable (Projects definition run) :=
  decidable_of_iff (definition.lastCheckInAt.any (run.receivedAt < ·) = true ∨
    (definition.createdAt ≤ run.receivedAt ∧ (run.status.isTerminal = true →
      (definition.config.schedule.nextAfter run.receivedAt).toOption.any
        (fun next => (dueAt definition next).toOption.isSome) = true))) (by
    unfold Projects
    have hdue : ∀ next, (∃ time, dueAt definition next = .ok time) ↔
        (dueAt definition next).toOption.isSome = true := by
      intro next
      cases dueAt definition next <;> simp [Except.toOption]
    simp only [exists_and_left, hdue, exists_ok_iff, Bool.decide_eq_true])

theorem validate_projectedOn (h : definition.validate = .ok ()) :
    (projectedOn definition run next).validate = .ok () ↔
      definition.createdAt ≤ run.receivedAt := by
  simp only [MonitorDefinition.validate, bind_eq_ok] at h ⊢
  obtain ⟨_, hslug, _, hname, _, henvironment, _, hconfig, _, huptime, hlast⟩ := h
  rw [failIf_eq_ok, not_or] at hlast
  constructor
  · rintro ⟨_, -, _, -, _, -, _, -, _, -, hlast⟩
    rw [failIf_eq_ok, not_or, not_lt] at hlast
    exact hlast.2
  · intro hcreated
    refine ⟨_, hslug, _, hname, _, henvironment, _, hconfig, _, huptime, ?_⟩
    rw [failIf_eq_ok, not_or, not_lt]
    exact ⟨hlast.1, hcreated⟩

theorem Writable.validate (h : Writable definition) : definition.validate = .ok () := by
  obtain ⟨size, hsize⟩ := h.encoded
  simp only [encodeConfig, bind_eq_ok, invalid_eq_ok] at hsize
  obtain ⟨_, hvalid, -⟩ := hsize
  exact hvalid

theorem Writable.projectedOn (h : Writable definition) (hcreated : definition.createdAt ≤ run.receivedAt)
    (hdue : ∃ time, dueAt definition next = .ok time) :
    Writable (projectedOn definition run next) := by
  refine ⟨?_, hdue, h.revision⟩
  obtain ⟨size, hsize⟩ := h.encoded
  simp only [encodeConfig, bind_eq_ok, invalid_eq_ok, failIf_eq_ok] at hsize ⊢
  obtain ⟨_, -, _, hparsed, _, hfits, -⟩ := hsize
  exact ⟨_, _, (validate_projectedOn h.validate).mpr hcreated, _, hparsed, (), hfits, rfl⟩

theorem projects_iff (h : Writable definition) (lease : Option Timestamp) :
    Projects definition run ↔ ∃ projected, projectRun ⟨definition, lease⟩ run = .ok projected ∧
      Writable projected.1.definition := by
  unfold Projects
  by_cases holder : definition.lastCheckInAt.any (run.receivedAt < ·) = true
  · refine iff_of_true (Or.inl holder) ⟨(⟨definition, lease⟩, false), ?_, h⟩
    exact if_pos holder
  · rw [or_iff_right holder]
    constructor
    · rintro ⟨hcreated, hterminal⟩
      obtain ⟨next, hnext, hdue⟩ : ∃ next, projectedNext definition run = .ok next ∧
          ∃ time, dueAt definition next = .ok time := by
        by_cases hstatus : run.status.isTerminal = true
        · obtain ⟨next, time, hnext, hdue⟩ := hterminal hstatus
          refine ⟨next, ?_, time, hdue⟩
          rw [projectedNext, if_pos hstatus, invalid_eq_ok]
          exact hnext
        · exact ⟨definition.nextExpectedAt, by rw [projectedNext, if_neg hstatus], h.due⟩
      have hvalid : (projectedOn definition run next).validate = .ok () :=
        (validate_projectedOn h.validate).mpr hcreated
      refine ⟨(⟨projectedOn definition run next,
        if run.status.isTerminal ∧ definition.isUptime then none else lease⟩, true), ?_,
        h.projectedOn hcreated hdue⟩
      rw [projectRun, if_neg holder, bind_eq_ok]
      refine ⟨next, hnext, bind_eq_ok.mpr ⟨(), invalid_eq_ok.mpr hvalid, rfl⟩⟩
    · rintro ⟨projected, hprojected, hwritable⟩
      obtain ⟨hold, -⟩ | ⟨-, next, after, hnext, rfl⟩ := projectRun_eq_ok hprojected
      · exact absurd hold holder
      · refine ⟨(validate_projectedOn h.validate).mp hwritable.validate, ?_⟩
        intro hstatus
        obtain ⟨time, hdue⟩ := hwritable.due
        rw [projectedNext, if_pos hstatus, invalid_eq_ok] at hnext
        exact ⟨next, time, hnext, hdue⟩

theorem projects_congr {other : MonitorRun} (hstatus : run.status.isTerminal = other.status.isTerminal)
    (hreceived : run.receivedAt = other.receivedAt) :
    Projects definition run ↔ Projects definition other := by
  unfold Projects
  rw [hstatus, hreceived]

end Projections

/-! ### New runs -/

/-- The run that an update leaves under its id, when that is a new one. -/
def absorb (monitors : Table MonitorId StoredMonitor) (runs : Table MonitorRunId MonitorRun)
    (update : MonitorUpdate) : Except SignalStoreError (Option MonitorRun) := do
  let incoming ← admitRun monitors update.run
  merge runs[incoming.id]? incoming

def recordRuns (runs : Table MonitorRunId MonitorRun) (news : List MonitorRun) :
    Table MonitorRunId MonitorRun := news.foldl (fun runs run => runs.insert run.id run) runs

/-- The new runs of a list of updates, each merged after those before it. -/
def newRuns (monitors : Table MonitorId StoredMonitor) :
    Table MonitorRunId MonitorRun → List MonitorUpdate → Except SignalStoreError (List MonitorRun)
  | _, [] => .ok []
  | runs, update :: updates => do
      let merged ← absorb monitors runs update
      let later ← newRuns monitors (recordRuns runs merged.toList) updates
      return merged.toList ++ later

/-- The last of the runs that a monitor has in the list. -/
def lastRun (news : List MonitorRun) (id : MonitorId) : Option MonitorRun :=
  (news.filter (·.monitorId = id)).getLast?

section NewRuns

variable {monitors others : Table MonitorId StoredMonitor}
  {runs known : Table MonitorRunId MonitorRun} {update : MonitorUpdate} {updates : List MonitorUpdate}
  {news : List MonitorRun}

theorem recordRuns_append (first second : List MonitorRun) :
    recordRuns runs (first ++ second) = recordRuns (recordRuns runs first) second :=
  List.foldl_append

/-- Runs are recorded over a table as over none. -/
theorem recordRuns_get (news : List MonitorRun) (runs : Table MonitorRunId MonitorRun)
    (id : MonitorRunId) : (recordRuns runs news)[id]? = (recordRuns ∅ news)[id]?.or runs[id]? := by
  induction news using List.reverseRecOn with
  | nil => simp [recordRuns]
  | append_singleton news run ih =>
      rw [recordRuns_append, recordRuns_append]
      simp only [recordRuns, List.foldl_cons, List.foldl_nil, Table.get_insert] at ih ⊢
      split_ifs
      · rfl
      · exact ih

theorem absorb_eq_ok {merged : Option MonitorRun} (h : absorb monitors runs update = .ok merged) :
    ∃ monitor incoming, monitors[update.run.monitorId]? = some monitor ∧
      monitor.definition.projectId = update.run.projectId ∧
      withTimeout monitor.definition.config update.run = .ok incoming ∧
      incoming.id = update.run.id ∧ merge runs[update.run.id]? incoming = .ok merged := by
  rw [absorb, bind_eq_ok] at h
  obtain ⟨incoming, hadmit, hmerge⟩ := h
  obtain ⟨monitor, hmonitor, hproject, htimeout⟩ := admitRun_known hadmit
  have hid : incoming.id = update.run.id := by
    obtain ⟨timeoutAt, rfl⟩ := withTimeout_eq_ok htimeout
    rfl
  exact ⟨monitor, incoming, hmonitor, hproject, htimeout, hid, hid ▸ hmerge⟩

/-- What an update leaves depends on the project and the configuration of its monitor and on the run
under its id. -/
theorem absorb_congr
    (hmonitors : monitors[update.run.monitorId]?.map (fun row => (row.definition.projectId,
        row.definition.config)) =
      others[update.run.monitorId]?.map (fun row => (row.definition.projectId, row.definition.config)))
    (hruns : runs[update.run.id]? = known[update.run.id]?) :
    absorb monitors runs update = absorb others known update := by
  have hadmit : admitRun monitors update.run = admitRun others update.run := by
    unfold admitRun
    cases hleft : monitors[update.run.monitorId]? with
    | none =>
        rw [hleft, Option.map_none] at hmonitors
        rw [Option.map_eq_none_iff.mp hmonitors.symm]
    | some left =>
        rw [hleft, Option.map_some] at hmonitors
        obtain ⟨right, hright, heq⟩ := Option.map_eq_some_iff.mp hmonitors.symm
        rw [hright]
        simp only [Prod.mk.injEq] at heq
        simp only [heq]
  rw [absorb, absorb, hadmit]
  cases hincoming : admitRun others update.run with
  | error e => rfl
  | ok incoming =>
      obtain ⟨timeoutAt, rfl⟩ := admitRun_eq_ok hincoming
      exact congrArg (merge · _) hruns

theorem newRuns_congr (hmonitors : ∀ update ∈ updates,
      monitors[update.run.monitorId]? = others[update.run.monitorId]?)
    (hruns : ∀ update ∈ updates, runs[update.run.id]? = known[update.run.id]?) :
    newRuns monitors runs updates = newRuns others known updates := by
  induction updates generalizing runs known with
  | nil => rfl
  | cons update updates ih =>
      rw [List.forall_mem_cons] at hmonitors hruns
      have habsorb : absorb monitors runs update = absorb others known update :=
        absorb_congr (by rw [hmonitors.1]) hruns.1
      rw [newRuns, newRuns, habsorb]
      cases absorb others known update with
      | error e => rfl
      | ok merged =>
          have hlater : newRuns monitors (recordRuns runs merged.toList) updates
              = newRuns others (recordRuns known merged.toList) updates := by
            refine ih hmonitors.2 ?_
            intro other hother
            rw [recordRuns_get, recordRuns_get merged.toList known, hruns.2 other hother]
          change (newRuns monitors (recordRuns runs merged.toList) updates >>= _) = _
          rw [hlater]
          rfl

/-- What the caller sees of a run when it is projected. -/
def receipt (run : MonitorRun) : MonitorId × MonitorRunStatus × Timestamp :=
  (run.monitorId, run.status, run.receivedAt)

theorem absorb_receipt {run : MonitorRun} (h : absorb monitors runs update = .ok (some run)) :
    receipt run = receipt update.run := by
  obtain ⟨monitor, incoming, -, hproject, htimeout, -, hmerge⟩ := absorb_eq_ok h
  obtain ⟨hmonitor, hstatus, hreceived⟩ := MergesTo.fields ⟨_, _, hproject, htimeout, hmerge⟩
  simp only [receipt, hmonitor, hstatus, hreceived]

/-- New runs come in the order of their updates. -/
theorem newRuns_sublist (h : newRuns monitors runs updates = .ok news) :
    List.Sublist (news.map receipt) (updates.map fun update => receipt update.run) := by
  induction updates generalizing runs news with
  | nil =>
      cases h
      simp
  | cons update updates ih =>
      simp only [newRuns, bind_eq_ok, pure_eq_ok] at h
      obtain ⟨merged, hmerged, later, hlater, rfl⟩ := h
      cases merged with
      | none => exact (ih hlater).cons _
      | some run =>
          simp only [Option.toList_some, List.singleton_append, List.map_cons, absorb_receipt hmerged]
          exact (ih hlater).cons_cons _

/-- Updates in the order of their receipt. -/
def Ordered (updates : List MonitorUpdate) : Prop :=
  updates.Pairwise (·.run.receivedAt ≤ ·.run.receivedAt)

theorem newRuns_ordered (h : newRuns monitors runs updates = .ok news) (hordered : Ordered updates) :
    news.Pairwise (·.receivedAt ≤ ·.receivedAt) := by
  have hreceipts : (updates.map fun update => receipt update.run).Pairwise (·.2.2 ≤ ·.2.2) :=
    List.pairwise_map.mpr hordered
  have hnews := hreceipts.sublist (newRuns_sublist h)
  rw [List.pairwise_map] at hnews
  exact hnews

/-- A stored run and what later updates have made of it: it is the same, or it was in progress and has
got its outcome. -/
def Finishes (stored run : MonitorRun) : Prop :=
  run = stored ∨ (stored.status = .inProgress ∧ run.status.isTerminal = true ∧
    run = withOutcome stored run)

theorem Finishes.trans {first second third : MonitorRun} (h : Finishes first second)
    (hnext : Finishes second third) : Finishes first third := by
  rcases h with rfl | ⟨hprogress, hterminal, heq⟩
  · exact hnext
  · rcases hnext with rfl | ⟨hstatus, -, -⟩
    · exact Or.inr ⟨hprogress, hterminal, heq⟩
    · rw [hstatus] at hterminal
      cases hterminal

theorem Finishes.outcome {stored run : MonitorRun} (h : Finishes stored run) :
    run = withOutcome stored run := by
  rcases h with rfl | ⟨-, -, heq⟩
  · rfl
  · exact heq

/-- The table has every run of `base` or what was made of it. -/
def Extends (base runs : Table MonitorRunId MonitorRun) : Prop :=
  ∀ (id : MonitorRunId) (stored : MonitorRun), base[id]? = some stored →
    ∃ run, runs[id]? = some run ∧ Finishes stored run

theorem Extends.refl (runs : Table MonitorRunId MonitorRun) : Extends runs runs :=
  fun _ stored hstored => ⟨stored, hstored, Or.inl rfl⟩

theorem Extends.trans {base middle : Table MonitorRunId MonitorRun} (h : Extends base middle)
    (hnext : Extends middle runs) : Extends base runs := by
  intro id stored hstored
  obtain ⟨run, hrun, hfinishes⟩ := h id stored hstored
  obtain ⟨later, hlater, hfinishes'⟩ := hnext id run hrun
  exact ⟨later, hlater, hfinishes.trans hfinishes'⟩

theorem absorb_some {run : MonitorRun} (hruns : RunsValid runs)
    (h : absorb monitors runs update = .ok (some run)) :
    run.id = update.run.id ∧ run.validate = .ok () := by
  obtain ⟨monitor, incoming, -, -, -, hid, hmerge⟩ := absorb_eq_ok h
  obtain ⟨hvalid, ⟨-, rfl⟩ | ⟨stored, hstored, -, -, -, rfl, hmerged⟩⟩ := merge_eq_some hmerge
  · exact ⟨hid, hvalid⟩
  · exact ⟨(hruns _ _ hstored).1, hmerged⟩

theorem RunsValid.absorb {merged : Option MonitorRun} (hruns : RunsValid runs)
    (h : absorb monitors runs update = .ok merged) : RunsValid (recordRuns runs merged.toList) := by
  cases merged with
  | none => exact hruns
  | some run =>
      intro id found hget
      simp only [recordRuns, Option.toList_some, List.foldl_cons, List.foldl_nil, Table.get_insert]
        at hget
      split_ifs at hget with hid
      · cases hget
        exact ⟨hid, (absorb_some hruns h).2⟩
      · exact hruns id found hget

theorem Extends.absorb {base : Table MonitorRunId MonitorRun} {merged : Option MonitorRun}
    (hextends : Extends base runs) (hruns : RunsValid runs)
    (h : absorb monitors runs update = .ok merged) :
    Extends base (recordRuns runs merged.toList) := by
  cases merged with
  | none => exact hextends
  | some run =>
      intro id stored hstored
      obtain ⟨found, hfound, heq⟩ := hextends id stored hstored
      simp only [recordRuns, Option.toList_some, List.foldl_cons, List.foldl_nil, Table.get_insert]
      split_ifs with hid
      · subst hid
        refine ⟨run, rfl, ?_⟩
        obtain ⟨_, incoming, -, -, -, -, hmerge⟩ := absorb_eq_ok h
        rw [← (absorb_some hruns h).1, hfound] at hmerge
        obtain ⟨-, ⟨hnone, -⟩ | ⟨existing, hexisting, -, hprogress, hterminal, rfl, -⟩⟩ :=
          merge_eq_some hmerge
        · cases hnone
        · cases hexisting
          exact heq.trans (Or.inr ⟨hprogress, hterminal, rfl⟩)
      · exact ⟨found, hfound, heq⟩

/-- What is new after other updates is new by itself. -/
theorem absorb_of_extends {base : Table MonitorRunId MonitorRun} {run : MonitorRun}
    (hextends : Extends base runs) (h : absorb monitors runs update = .ok (some run)) :
    ∃ alone, absorb monitors base update = .ok (some alone) := by
  rw [absorb, bind_eq_ok] at h
  obtain ⟨incoming, hadmit, hmerge⟩ := h
  cases hstored : base[incoming.id]? with
  | none =>
      refine ⟨incoming, ?_⟩
      rw [absorb, bind_eq_ok]
      refine ⟨incoming, hadmit, ?_⟩
      rw [hstored, merge, bind_eq_ok]
      exact ⟨(), invalid_eq_ok.mpr (merge_eq_some hmerge).1, rfl⟩
  | some stored =>
      obtain ⟨found, hfound, hfinishes⟩ := hextends incoming.id stored hstored
      obtain ⟨-, ⟨hnone, -⟩ | ⟨existing, hexisting, -, hprogress, -⟩⟩ := merge_eq_some hmerge
      · rw [hfound] at hnone
        cases hnone
      · cases hfound.symm.trans hexisting
        rcases hfinishes with rfl | ⟨-, hterminal, -⟩
        · refine ⟨run, ?_⟩
          rw [absorb, bind_eq_ok]
          exact ⟨incoming, hadmit, by rw [hstored, ← hfound]; exact hmerge⟩
        · rw [hprogress] at hterminal
          cases hterminal

theorem newRuns_sound {base : Table MonitorRunId MonitorRun} (hruns : RunsValid runs)
    (hextends : Extends base runs) (h : newRuns monitors runs updates = .ok news) :
    RunsValid (recordRuns runs news) ∧ Extends base (recordRuns runs news) := by
  induction updates generalizing runs news with
  | nil =>
      cases h
      exact ⟨hruns, hextends⟩
  | cons update updates ih =>
      simp only [newRuns, bind_eq_ok, pure_eq_ok] at h
      obtain ⟨merged, hmerged, later, hlater, rfl⟩ := h
      rw [recordRuns_append]
      exact ih (hruns.absorb hmerged) (hextends.absorb hruns hmerged) hlater

/-- Every new run is what some update leaves after those before it. -/
theorem newRuns_mem {base : Table MonitorRunId MonitorRun} (hruns : RunsValid runs)
    (hextends : Extends base runs) (h : newRuns monitors runs updates = .ok news) {run : MonitorRun}
    (hrun : run ∈ news) : ∃ update ∈ updates, ∃ known, Extends base known ∧
      absorb monitors known update = .ok (some run) := by
  induction updates generalizing runs news with
  | nil =>
      cases h
      cases hrun
  | cons update updates ih =>
      simp only [newRuns, bind_eq_ok, pure_eq_ok] at h
      obtain ⟨merged, hmerged, later, hlater, rfl⟩ := h
      rcases List.mem_append.mp hrun with hrun | hrun
      · rw [Option.mem_toList] at hrun
        rw [hrun] at hmerged
        exact ⟨update, by simp, runs, hextends, hmerged⟩
      · obtain ⟨other, hother, known, hknown, habsorb⟩ :=
          ih (hruns.absorb hmerged) (hextends.absorb hruns hmerged) hlater hrun
        exact ⟨other, List.mem_cons_of_mem _ hother, known, hknown, habsorb⟩

theorem newRuns_known (hruns : RunsValid runs) (h : newRuns monitors runs updates = .ok news)
    {run : MonitorRun} (hrun : run ∈ news) : ∃ row, monitors[run.monitorId]? = some row := by
  obtain ⟨update, -, known, -, habsorb⟩ := newRuns_mem hruns (Extends.refl _) h hrun
  obtain ⟨row, -, hrow, -⟩ := absorb_eq_ok habsorb
  have hid : run.monitorId = update.run.monitorId := congrArg Prod.fst (absorb_receipt habsorb)
  exact ⟨row, hid ▸ hrow⟩

/-! ### The run loop -/

/-- The run that is projected on a monitor: of two the later one, of two at one time the second. -/
def recordLatest (projections : Table MonitorId MonitorRun) (run : MonitorRun) :
    Table MonitorId MonitorRun :=
  if projections[run.monitorId]?.all (·.receivedAt ≤ run.receivedAt) then
    projections.insert run.monitorId run
  else projections

/-- What the run loop has collected once it has seen the new runs. -/
structure Collected (batch : Batch) (news : List MonitorRun) (final : Batch) : Prop where
  runs : final.runs = recordRuns batch.runs news
  changedRuns : final.changedRuns = recordRuns batch.changedRuns news
  projections : final.projections = news.foldl recordLatest batch.projections

theorem Batch.record_collected (batch : Batch) (merged : Option MonitorRun) :
    Collected batch merged.toList (batch.record merged) := by
  cases merged with
  | none => exact ⟨rfl, rfl, rfl⟩
  | some run => exact ⟨rfl, rfl, rfl⟩

theorem mergeUpdate_iff {batch final : Batch} : mergeUpdate monitors batch update = .ok final ↔
    ∃ merged, absorb monitors batch.runs update = .ok merged ∧ final = batch.record merged := by
  simp only [mergeUpdate, absorb, bind_eq_ok, pure_eq_ok]
  constructor
  · rintro ⟨incoming, hincoming, merged, hmerged, rfl⟩
    exact ⟨merged, ⟨incoming, hincoming, hmerged⟩, rfl⟩
  · rintro ⟨merged, ⟨incoming, hincoming, hmerged⟩, rfl⟩
    exact ⟨incoming, hincoming, merged, hmerged, rfl⟩

theorem foldlM_mergeUpdate_news {batch final : Batch}
    (h : updates.foldlM (mergeUpdate monitors) batch = .ok final) :
    ∃ news, newRuns monitors batch.runs updates = .ok news ∧ Collected batch news final := by
  induction updates generalizing batch with
  | nil =>
      cases h
      exact ⟨[], rfl, rfl, rfl, rfl⟩
  | cons update updates ih =>
      rw [List.foldlM_cons, bind_eq_ok] at h
      obtain ⟨next, hnext, hrest⟩ := h
      obtain ⟨merged, hmerged, rfl⟩ := mergeUpdate_iff.mp hnext
      obtain ⟨later, hlater, hcollected⟩ := ih hrest
      have hfirst := batch.record_collected merged
      rw [hfirst.runs] at hlater
      refine ⟨merged.toList ++ later, ?_, ?_, ?_, ?_⟩
      · simp only [newRuns, bind_eq_ok, pure_eq_ok]
        exact ⟨merged, hmerged, later, hlater, rfl⟩
      · rw [hcollected.runs, hfirst.runs, recordRuns_append]
      · rw [hcollected.changedRuns, hfirst.changedRuns, recordRuns_append]
      · rw [hcollected.projections, hfirst.projections, List.foldl_append]

theorem foldlM_mergeUpdate_of_news (batch : Batch)
    (h : newRuns monitors batch.runs updates = .ok news) :
    ∃ final, updates.foldlM (mergeUpdate monitors) batch = .ok final := by
  induction updates generalizing batch news with
  | nil => exact ⟨batch, rfl⟩
  | cons update updates ih =>
      simp only [newRuns, bind_eq_ok, pure_eq_ok] at h
      obtain ⟨merged, hmerged, later, hlater, rfl⟩ := h
      rw [← (batch.record_collected merged).runs] at hlater
      obtain ⟨final, hfinal⟩ := ih _ hlater
      refine ⟨final, ?_⟩
      rw [List.foldlM_cons, bind_eq_ok]
      exact ⟨_, mergeUpdate_iff.mpr ⟨merged, hmerged, rfl⟩, hfinal⟩

theorem lastRun_append (news : List MonitorRun) (run : MonitorRun) (id : MonitorId) :
    lastRun (news ++ [run]) id = if run.monitorId = id then some run else lastRun news id := by
  unfold lastRun
  rw [List.filter_append]
  split_ifs with hid
  · simp [hid]
  · simp [hid]

theorem mem_of_lastRun {run : MonitorRun} {id : MonitorId} (h : lastRun news id = some run) :
    run ∈ news ∧ run.monitorId = id := by
  have hmem := List.mem_filter.mp (List.mem_of_getLast? h)
  exact ⟨hmem.1, of_decide_eq_true hmem.2⟩

theorem newRuns_monitor (h : newRuns monitors runs updates = .ok news) {run : MonitorRun}
    {id : MonitorId} (hlast : lastRun news id = some run) :
    id ∈ updates.map (·.run.monitorId) := by
  obtain ⟨hmem, rfl⟩ := mem_of_lastRun hlast
  obtain ⟨update, hupdate, heq⟩ :=
    List.mem_map.mp ((newRuns_sublist h).subset (List.mem_map_of_mem hmem))
  exact List.mem_map.mpr ⟨update, hupdate, congrArg Prod.fst heq⟩

/-- When the runs come in order, the last one of each monitor is projected. -/
theorem foldl_recordLatest_get (hordered : news.Pairwise (·.receivedAt ≤ ·.receivedAt))
    (id : MonitorId) : (news.foldl recordLatest ∅)[id]? = lastRun news id := by
  induction news using List.reverseRecOn generalizing id with
  | nil => simp [lastRun]
  | append_singleton news run ih =>
      rw [List.pairwise_append] at hordered
      obtain ⟨hnews, -, hbefore⟩ := hordered
      have hlatest : (news.foldl recordLatest ∅)[run.monitorId]?.all (·.receivedAt ≤ run.receivedAt)
          = true := by
        rw [ih hnews]
        cases hlast : lastRun news run.monitorId with
        | none => rfl
        | some earlier =>
            exact decide_eq_true (hbefore earlier (mem_of_lastRun hlast).1 run (by simp))
      rw [List.foldl_append, List.foldl_cons, List.foldl_nil, recordLatest, if_pos hlatest,
        Table.get_insert, lastRun_append, ih hnews]
      by_cases hid : run.monitorId = id
      · rw [if_pos hid, if_pos hid]
      · rw [if_neg hid, if_neg hid]

end NewRuns

/-! ### What a call leaves -/

/-- What a call that finds these new runs leaves: the runs recorded, and on each monitor the last of
its runs projected. -/
structure Leaves (store : MonitorStore) (news : List MonitorRun) (next : MonitorStore) : Prop where
  ok : StoreOk next
  rest : next = { store with monitors := next.monitors, runs := next.runs }
  runs : next.runs = recordRuns store.runs news
  monitors : ∀ id : MonitorId,
    (lastRun news id = none ∧ next.monitors[id]? = store.monitors[id]?) ∨
      ∃ run row projected, lastRun news id = some run ∧ store.monitors[id]? = some row ∧
        projectRun row run = .ok projected ∧ next.monitors[id]? = some projected.1

/-- Updates as they reach the store without a definition. -/
structure Bare (updates : List MonitorUpdate) : Prop where
  valid : ∀ update ∈ updates, update.validate = .ok ()
  definition : ∀ update ∈ updates, update.definition = none
  ordered : Ordered updates

theorem Bare.head {update : MonitorUpdate} {updates : List MonitorUpdate}
    (h : Bare (update :: updates)) : Bare [update] :=
  ⟨fun other hother => h.valid other (by rw [List.mem_singleton.mp hother]; simp),
    fun other hother => h.definition other (by rw [List.mem_singleton.mp hother]; simp),
    List.pairwise_singleton _ _⟩

theorem Bare.tail {update : MonitorUpdate} {updates : List MonitorUpdate}
    (h : Bare (update :: updates)) : Bare updates :=
  ⟨(List.forall_mem_cons.mp h.valid).2, (List.forall_mem_cons.mp h.definition).2,
    (List.pairwise_cons.mp h.ordered).2⟩

section Calls

variable {store next : MonitorStore} {updates : List MonitorUpdate} {outcomes : List DurableOutcome}
  {news : List MonitorRun}

theorem foldlM_resolveDefinition_bare (hbare : ∀ update ∈ updates, update.definition = none)
    (state : Monitors) : updates.foldlM resolveDefinition state = .ok state := by
  induction updates with
  | nil => rfl
  | cons update updates ih =>
      rw [List.forall_mem_cons] at hbare
      rw [List.foldlM_cons, bind_eq_ok]
      exact ⟨state, by simp only [resolveDefinition, hbare.1], ih hbare.2⟩

/-- The rows that a call has loaded are those that its updates ask for. -/
theorem newRuns_loaded {loaded : Table MonitorId StoredMonitor} {runs : Table MonitorRunId MonitorRun}
    (hlength : updates.length ≤ maxBatch)
    (hloaded : loadMonitors store (updates.map (·.run.monitorId)) false = .ok loaded)
    (hruns : loadRuns store (updates.map (·.run.id)) = .ok runs) :
    newRuns loaded runs updates = newRuns store.monitors store.runs updates := by
  apply newRuns_congr
  · intro update hupdate
    exact loadMonitors_complete hloaded (by simpa using hlength)
      (List.mem_map.mpr ⟨update, hupdate, rfl⟩)
  · intro update hupdate
    exact loadRuns_complete hruns (by simpa using hlength) (List.mem_map.mpr ⟨update, hupdate, rfl⟩)

/-- The runs collected by a call may be written as they are. -/
theorem recordRuns_collected (hstore : RunsValid store.runs)
    (hnews : newRuns store.monitors store.runs updates = .ok news) {id : MonitorRunId}
    {run : MonitorRun} (hget : (recordRuns ∅ news)[id]? = some run) :
    run.id = id ∧ run.validate = .ok () ∧ Outcome store.runs run := by
  obtain ⟨hvalid, hextends⟩ := newRuns_sound hstore (Extends.refl _) hnews
  have hrecorded : (recordRuns store.runs news)[id]? = some run := by
    rw [recordRuns_get, hget, Option.some_or]
  obtain ⟨hid, hcheck⟩ := hvalid id run hrecorded
  refine ⟨hid, hcheck, ?_⟩
  intro stored hstored
  obtain ⟨found, hfound, heq⟩ := hextends run.id stored hstored
  rw [hid, hrecorded] at hfound
  cases hfound
  exact heq.outcome

theorem Persisted.leaves (hstore : StoreOk store) (hbare : Bare updates)
    (self : Persisted store updates next outcomes) :
    ∃ news, newRuns store.monitors store.runs updates = .ok news ∧ Leaves store news next := by
  have hresolved : self.resolved = ⟨self.loaded, ∅⟩ :=
    Except.ok.inj (self.hresolved.symm.trans (foldlM_resolveDefinition_bare hbare.definition _))
  obtain ⟨news, hnews, hcollected⟩ := foldlM_mergeUpdate_news self.hbatch
  rw [hresolved, newRuns_loaded self.length_le self.hloaded self.hruns] at hnews
  have hchanged : self.batch.changedRuns = recordRuns ∅ news := hcollected.changedRuns
  have hruns : next.runs = recordRuns store.runs news := by
    apply Std.ExtTreeMap.ext_getElem?
    intro id
    rw [writeRuns_collected_get ?_ self.hwritten, recordRuns_get, hchanged]
    intro id run hget
    rw [hchanged] at hget
    obtain ⟨hid, -, houtcome⟩ := recordRuns_collected hstore.runs hnews hget
    exact ⟨hid, houtcome⟩
  refine ⟨news, hnews, ⟨⟨self.keyed_next hstore.keyed,
    writeMonitors_writable self.hmonitors hstore.writable, ?_⟩, self.rest, hruns, ?_⟩⟩
  · rw [hruns]
    exact (newRuns_sound hstore.runs (Extends.refl _) hnews).1
  · intro id
    have hlatest : self.batch.projections[id]? = lastRun news id := by
      rw [hcollected.projections]
      exact foldl_recordLatest_get (newRuns_ordered hnews hbare.ordered) id
    rcases self.monitor_row hstore.keyed id with
      ⟨hnone, hrow⟩ | ⟨run, row, projected, hrun, hknown, hprojected, hrow⟩
    · refine Or.inl ⟨hlatest ▸ hnone, ?_⟩
      rw [hrow, hresolved]
      cases hloaded : self.loaded[id]? with
      | none => rw [Option.none_or]
      | some row => rw [(loadMonitors_sound self.hloaded hloaded).1, Option.some_or]
    · rw [hresolved] at hknown
      exact Or.inr ⟨run, row, projected, hlatest ▸ hrun, (loadMonitors_sound self.hloaded hknown).1,
        hprojected, hrow⟩

/-! ### When a call succeeds -/

theorem lockProjects_iff {projects : List ProjectId} : lockProjects store projects = .ok () ↔
    ∀ project ∈ projects, store.isLive project = true := by
  unfold lockProjects
  split_ifs with hlive
  · simpa using hlive
  · simpa using hlive

theorem admitBatch_bare (hbare : Bare updates) (hlength : updates.length ≤ maxBatch) :
    admitBatch updates = .ok () := by
  have hcharge : ∀ bytes, updates.foldlM chargeUpdate bytes = .ok bytes := by
    intro bytes
    have hvalid := hbare.valid
    have hdefinition := hbare.definition
    clear hbare hlength
    induction updates with
    | nil => rfl
    | cons update updates ih =>
        rw [List.forall_mem_cons] at hvalid hdefinition
        rw [List.foldlM_cons, bind_eq_ok]
        refine ⟨bytes, ?_, ih hvalid.2 hdefinition.2⟩
        simp only [chargeUpdate, hdefinition.1, bind_eq_ok, invalid_eq_ok]
        exact ⟨(), hvalid.1, rfl⟩
  have hbytes : updates.length * 512 ≤ maxBatchBytes := by
    unfold maxBatch at hlength
    unfold maxBatchBytes
    omega
  simp only [admitBatch, bind_eq_ok, failIf_eq_ok, not_lt]
  exact ⟨(), hlength, _, hcharge _, hbytes⟩

theorem loadRuns_ok (hruns : RunsValid store.runs) (ids : List MonitorRunId) :
    ∃ loaded, loadRuns store ids = .ok loaded := by
  refine foldlM_ok_of_forall _ _ ?_
  rintro values ⟨id, row⟩ hrow
  have hstored := (Table.of_mem_selectAny hrow).1
  simp only [decodeRun, bind_eq_ok, pure_eq_ok, invalid_eq_ok]
  exact ⟨_, _, ⟨(), (hruns _ _ hstored).2, rfl⟩, rfl⟩

theorem projectLatest_ok {projections : List (MonitorId × MonitorRun)} {state : Monitors}
    (hnodup : (projections.map Prod.fst).Nodup)
    (h : ∀ projection ∈ projections, ∃ row projected, state.known[projection.1]? = some row ∧
      projectRun row projection.2 = .ok projected) :
    ∃ final, projections.foldlM projectLatest state = .ok final := by
  induction projections generalizing state with
  | nil => exact ⟨state, rfl⟩
  | cons projection projections ih =>
      rw [List.map_cons, List.nodup_cons] at hnodup
      rw [List.forall_mem_cons] at h
      obtain ⟨⟨row, projected, hrow, hprojected⟩, hlater⟩ := h
      obtain ⟨next, hnext⟩ : ∃ next, projectLatest state projection = .ok next := by
        simp only [projectLatest, hrow, bind_eq_ok, hprojected, pure_eq_ok]
        exact ⟨_, projected, rfl, rfl⟩
      obtain ⟨_, _, -, -, hstate⟩ := projectLatest_eq_ok hnext
      have hothers : ∀ other ∈ projections, ∃ row projected, next.known[other.1]? = some row ∧
          projectRun row other.2 = .ok projected := by
        intro other hother
        obtain ⟨found, after, hfound, hafter⟩ := hlater other hother
        have hne : projection.1 ≠ other.1 := fun heq =>
          hnodup.1 (List.mem_map.mpr ⟨other, hother, heq.symm⟩)
        refine ⟨found, after, ?_, hafter⟩
        rw [hstate, Table.get_insert_of_ne _ _ hne]
        exact hfound
      obtain ⟨final, hfinal⟩ := ih hnodup.2 hothers
      refine ⟨final, ?_⟩
      rw [List.foldlM_cons, bind_eq_ok]
      exact ⟨_, hnext, hfinal⟩

theorem writeMonitors_ok {monitors : Table MonitorId StoredMonitor} {values : List StoredMonitor}
    (hnodup : (values.map (·.definition.id)).Nodup)
    (hvalues : ∀ value ∈ values, Writable value.definition ∧
      ∀ row ∈ monitors[value.definition.id]?, row.definition.projectId = value.definition.projectId) :
    ∃ next, writeMonitors monitors values = .ok next := by
  induction values generalizing monitors with
  | nil => exact ⟨monitors, rfl⟩
  | cons value values ih =>
      rw [List.map_cons, List.nodup_cons] at hnodup
      rw [List.forall_mem_cons] at hvalues
      obtain ⟨⟨hwritable, hproject⟩, hlater⟩ := hvalues
      have hwritten : writeMonitor monitors value
          = .ok (monitors.insert value.definition.id value) := by
        obtain ⟨⟨size, hsize⟩, ⟨time, htime⟩, ⟨revision, hrevision⟩⟩ := hwritable
        simp only [writeMonitor, bind_eq_ok, failIf_eq_ok]
        refine ⟨size, hsize, time, htime, revision, hrevision, (), ?_, rfl⟩
        cases hget : monitors[value.definition.id]? with
        | none => simp
        | some row => simp [hproject row hget]
      have hothers : ∀ other ∈ values, Writable other.definition ∧
          ∀ row ∈ (monitors.insert value.definition.id value)[other.definition.id]?,
            row.definition.projectId = other.definition.projectId := by
        intro other hother
        have hne : value.definition.id ≠ other.definition.id := fun heq =>
          hnodup.1 (List.mem_map.mpr ⟨other, hother, heq.symm⟩)
        rw [Table.get_insert_of_ne _ _ hne]
        exact hlater other hother
      obtain ⟨next, hnext⟩ := ih hnodup.2 hothers
      refine ⟨next, ?_⟩
      rw [writeMonitors, List.foldlM_cons, bind_eq_ok]
      exact ⟨_, hwritten, hnext⟩

theorem writeRuns_ok {runs : Table MonitorRunId MonitorRun} {values : List MonitorRun}
    (hnodup : (values.map (·.id)).Nodup)
    (hvalues : ∀ value ∈ values, value.validate = .ok () ∧ Outcome runs value) :
    ∃ next, writeRuns runs values = .ok next := by
  induction values generalizing runs with
  | nil => exact ⟨runs, rfl⟩
  | cons value values ih =>
      rw [List.map_cons, List.nodup_cons] at hnodup
      rw [List.forall_mem_cons] at hvalues
      obtain ⟨⟨hvalid, houtcome⟩, hlater⟩ := hvalues
      have hwritten : ∃ next, writeRun runs value = .ok next := by
        simp only [writeRun, bind_eq_ok, invalid_eq_ok]
        cases hget : runs[value.id]? with
        | none => exact ⟨_, (), hvalid, rfl⟩
        | some row =>
            have heq := houtcome row hget
            refine ⟨_, (), hvalid, bind_eq_ok.mpr ⟨(), ?_, rfl⟩⟩
            rw [failIf_eq_ok, heq]
            simp [withOutcome]
      obtain ⟨written, hwritten⟩ := hwritten
      have heq := writeRun_outcome houtcome hwritten
      have hothers : ∀ other ∈ values, other.validate = .ok () ∧ Outcome written other := by
        intro other hother
        have hne : value.id ≠ other.id := fun hid =>
          hnodup.1 (List.mem_map.mpr ⟨other, hother, hid.symm⟩)
        rw [Outcome, heq, Table.get_insert_of_ne _ _ hne]
        exact hlater other hother
      obtain ⟨next, hnext⟩ := ih hnodup.2 hothers
      refine ⟨next, ?_⟩
      rw [writeRuns, List.foldlM_cons, bind_eq_ok]
      exact ⟨written, hwritten, hnext⟩

/-- The projection loop succeeds and leaves monitors that can be written, each in its project. -/
theorem projections_ok (hstore : StoreOk store) {loaded : Table MonitorId StoredMonitor}
    {ids : List MonitorId} (hloaded : loadMonitors store ids false = .ok loaded)
    {projections : Table MonitorId MonitorRun}
    (hprojects : ∀ (id : MonitorId) (run : MonitorRun), projections[id]? = some run →
      ∃ row, loaded[id]? = some row ∧ Projects row.definition run) :
    ∃ projected, projections.toList.foldlM projectLatest ⟨loaded, ∅⟩ = .ok projected ∧
      Tracked store projected ∧
      ∀ (id : MonitorId) (row : StoredMonitor), projected.known[id]? = some row →
        Writable row.definition ∧
        ∀ stored ∈ store.monitors[id]?, stored.definition.projectId = row.definition.projectId := by
  have hrow : ∀ (id : MonitorId) (run : MonitorRun), projections[id]? = some run →
      ∃ row projected, loaded[id]? = some row ∧ projectRun row run = .ok projected ∧
        Writable projected.1.definition := by
    intro id run hrun
    obtain ⟨row, hrow, hprojects⟩ := hprojects id run hrun
    have hwritable := hstore.writable id row (loadMonitors_sound hloaded hrow).1
    obtain ⟨projected, hprojected, hafter⟩ := (projects_iff hwritable row.lease).mp hprojects
    exact ⟨row, projected, hrow, hprojected, hafter⟩
  obtain ⟨projected, hprojected⟩ : ∃ projected,
      projections.toList.foldlM projectLatest ⟨loaded, ∅⟩ = .ok projected := by
    refine projectLatest_ok projections.nodup_keys_toList ?_
    rintro ⟨id, run⟩ hmem
    obtain ⟨row, projected, hrow, hproject, -⟩ := hrow id run (Table.mem_toList.mp hmem)
    exact ⟨row, projected, hrow, hproject⟩
  refine ⟨projected, hprojected, ?_, ?_⟩
  · refine foldlM_ok_induction (Tracked store) _ _ _ hprojected ⟨?_, ?_⟩
      fun _ _ _ _ h hnext => h.projectLatest hnext
    · intro id row hget
      exact hstore.keyed id row (loadMonitors_sound hloaded hget).1
    · intro id _ row hget
      exact (loadMonitors_sound hloaded hget).1
  · intro id row hget
    obtain ⟨hkept, hmoved⟩ := projectLatest_get projections.nodup_keys_toList hprojected id
    cases hrun : projections[id]? with
    | none =>
        have hnotmem : id ∉ projections.toList.map Prod.fst := by
          intro hmem
          obtain ⟨entry, hentry, rfl⟩ := List.mem_map.mp hmem
          rw [Table.mem_toList.mp hentry] at hrun
          cases hrun
        rw [hkept hnotmem] at hget
        have hstored := (loadMonitors_sound hloaded hget).1
        refine ⟨hstore.writable id row hstored, ?_⟩
        intro stored hmem
        cases hstored.symm.trans hmem
        rfl
    | some run =>
        obtain ⟨monitor, after, hmonitor, hafter, hknown⟩ := hmoved run (Table.mem_toList.mpr hrun)
        obtain ⟨_, _, hsame, hproject, hwritable⟩ := hrow id run hrun
        cases hget.symm.trans hknown
        cases hmonitor.symm.trans hsame
        cases hafter.symm.trans hproject
        refine ⟨hwritable, ?_⟩
        intro stored hmem
        cases (loadMonitors_sound hloaded hmonitor).1.symm.trans hmem
        exact (projectRun_projectId hafter).symm

/-- A call succeeds when it is within its limits, its updates merge one after the other and the last
new run of each monitor can be projected. -/
theorem persist_of_news (hstore : StoreOk store) (hbare : Bare updates) (hne : updates ≠ [])
    (hlength : updates.length ≤ maxBatch)
    (hlive : ∀ update ∈ updates, store.isLive update.run.projectId = true)
    {loaded : Table MonitorId StoredMonitor}
    (hloaded : loadMonitors store (updates.map (·.run.monitorId)) false = .ok loaded)
    (hnews : newRuns store.monitors store.runs updates = .ok news)
    (hprojects : ∀ id run, lastRun news id = some run →
      ∃ row, store.monitors[id]? = some row ∧ Projects row.definition run) :
    ∃ result, persist store updates = .ok result := by
  obtain ⟨runs, hruns⟩ := loadRuns_ok hstore.runs (updates.map (·.run.id))
  have hmerges : newRuns loaded runs updates = .ok news := by
    rw [newRuns_loaded hlength hloaded hruns]
    exact hnews
  obtain ⟨batch, hbatch⟩ := foldlM_mergeUpdate_of_news ⟨runs, ∅, ∅, []⟩ hmerges
  obtain ⟨found, hfound, hcollected⟩ := foldlM_mergeUpdate_news hbatch
  cases hmerges.symm.trans hfound
  have hlatest : ∀ (id : MonitorId) (run : MonitorRun), batch.projections[id]? = some run →
      ∃ row, loaded[id]? = some row ∧ Projects row.definition run := by
    intro id run hrun
    rw [hcollected.projections, foldl_recordLatest_get (newRuns_ordered hnews hbare.ordered)] at hrun
    obtain ⟨row, hstored, hprojects⟩ := hprojects id run hrun
    refine ⟨row, ?_, hprojects⟩
    rw [loadMonitors_complete hloaded (by simpa using hlength) (newRuns_monitor hnews hrun), hstored]
  obtain ⟨projected, hprojected, htracked, hwritable⟩ := projections_ok hstore hloaded hlatest
  obtain ⟨monitors, hmonitors⟩ : ∃ monitors, writeMonitors store.monitors
      (projected.changed.toList.filterMap (projected.known[·]?)) = .ok monitors := by
    refine writeMonitors_ok ((nodup_toList_set _).sublist (htracked.keyed.sublist_ids _)) ?_
    intro value hvalue
    obtain ⟨id, -, hget⟩ := List.mem_filterMap.mp hvalue
    rw [htracked.keyed id value hget]
    exact hwritable id value hget
  have hchanged : batch.changedRuns = recordRuns ∅ news := hcollected.changedRuns
  have hcollect : ∀ (id : MonitorRunId) (run : MonitorRun), batch.changedRuns[id]? = some run →
      run.id = id ∧ run.validate = .ok () ∧ Outcome store.runs run :=
    fun id run hget => recordRuns_collected hstore.runs hnews (hchanged ▸ hget)
  obtain ⟨written, hwritten⟩ : ∃ written,
      writeRuns store.runs (batch.changedRuns.toList.map Prod.snd) = .ok written := by
    refine writeRuns_ok ?_ ?_
    · rw [Table.map_keyOf_toList fun id run hget => (hcollect id run hget).1]
      exact batch.changedRuns.nodup_keys_toList
    · intro value hvalue
      obtain ⟨entry, hentry, rfl⟩ := List.mem_map.mp hvalue
      exact (hcollect entry.1 entry.2 (Table.mem_toList.mp hentry)).2
  refine ⟨({ store with monitors := monitors, runs := written }, batch.outcomes), ?_⟩
  have hnonempty : ¬ updates.isEmpty = true := by simpa using hne
  simp only [persist, if_neg hnonempty, persistBatch, bind_eq_ok, pure_eq_ok]
  refine ⟨(), admitBatch_bare hbare hlength, (), lockProjects_iff.mpr ?_, loaded, hloaded, _,
    foldlM_resolveDefinition_bare hbare.definition _, runs, hruns, batch, hbatch, projected, hprojected,
    monitors, hmonitors, written, hwritten, rfl⟩
  intro project hproject
  obtain ⟨update, hupdate, rfl⟩ := List.mem_map.mp hproject
  exact hlive update hupdate

end Calls

end MetricBackend.PostgresMonitors
