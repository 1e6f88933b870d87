import MetricBackend.MongoMonitors
import MetricBackend.LibRuns
import MetricBackend.IngestCheckIns

/-! Interleavings of the operations of the Mongo monitor store. A world is the database with the calls
in flight; an action starts a call, runs the next command of one, stops one, or is an edit of the
administrator. The history keeps the edits and the missed runs that were inserted. -/

namespace MetricBackend.MongoMonitors

variable (blake3 : List (BitVec 8) → BitVec 256)

inductive Effect where
  /-- An `upsert_monitor` that succeeded. -/
  | edited (monitor : MonitorDefinition)
  /-- A missed run inserted for a slot, with the next expected time stored at that moment. -/
  | missed (id : MonitorId) (slot : Timestamp) (stored : Option Timestamp)
deriving DecidableEq

structure World where
  db : Database
  calls : List Call
  history : List Effect

inductive Action where
  | start (operation : Operation)
  | advance (call : Nat)
  | crash (call : Nat)
  | upsert (monitor : MonitorDefinition)

/-- The next expected time stored for a monitor. -/
def slot (db : Database) (id : MonitorId) : Option Timestamp :=
  db.monitors[id]?.map (·.definition.nextExpectedAt)

/-- The missed run that the next command of a call inserts. -/
def insertion (db : Database) : Call → List Effect
  | .missedInsert now (row :: _) =>
      match missedInsertion blake3 db.runsDays now row with
      | .ok (monitor, run, _) =>
          if db.runs[run.id]?.isNone then [.missed row.1 monitor.nextExpectedAt (slot db row.1)]
          else []
      | .error _ => []
  | _ => []

/-- The calls after one of them has run a command. -/
def replaceCall (calls : List Call) (index : Nat) : Option Call → List Call
  | some call => calls.set index call
  | none => calls.eraseIdx index

def execute (world : World) : Action → World
  | .start operation =>
      { world with calls := world.calls ++ operation.call.toList }
  | .advance index =>
      match world.calls[index]? with
      | none => world
      | some call =>
          { db := (advance blake3 world.db call).1
            calls := replaceCall world.calls index (advance blake3 world.db call).2
            history := insertion blake3 world.db call ++ world.history }
  | .crash index => { world with calls := world.calls.eraseIdx index }
  | .upsert monitor =>
      match upsertMonitor world.db monitor with
      | .ok db => { world with db := db, history := .edited monitor :: world.history }
      | .error _ => world

theorem mem_replaceCall {calls : List Call} {index : Nat} {next : Option Call} {call : Call}
    (h : call ∈ replaceCall calls index next) : call ∈ calls ∨ next = some call := by
  cases next with
  | none => exact .inl (List.mem_of_mem_eraseIdx h)
  | some updated =>
      rcases List.mem_or_eq_of_mem_set h with hold | rfl
      · exact .inl hold
      · exact .inr rfl

/-! ### Commands on monitors -/

/-- The run that the next command of a call projects, with the copy of its monitor. -/
def Call.projection : Call → Option (MonitorDefinition × MonitorRun)
  | .persistProject (run :: _) monitors => monitors[run.monitorId]?.map fun monitor => (monitor, run)
  | .timeoutProject _ run monitor _ => some (monitor, run)
  | _ => none

/-- What a command can do to the document of a monitor. -/
inductive MonitorWrite (id : MonitorId) (call : Call) (stored : Option MonitorDocument) :
    Option MonitorDocument → Prop where
  | unchanged : MonitorWrite id call stored stored
  /-- The bulk write of `persist_inner` puts back the copy it has read. -/
  | copied (updates : List MonitorUpdate) (monitors : Table MonitorId MonitorDefinition)
      (copy : MonitorDefinition) (dueAt : Timestamp) (hcall : call = .persistWrite updates monitors)
      (hcopy : monitors[id]? = some copy) :
      MonitorWrite id call stored (some (setMonitor copy dueAt stored))
  | projected (document : MonitorDocument) (monitor : MonitorDefinition) (run : MonitorRun)
      (times : Option (Timestamp × Timestamp)) (hstored : stored = some document)
      (hcall : call.projection = some (monitor, run)) (hid : run.monitorId = id)
      (hcurrent : document.definition.lastCheckInAt.all (· ≤ run.receivedAt) = true)
      (htimes : projectedTimes monitor run = .ok times) :
      MonitorWrite id call stored (some (document.project monitor run times))
  /-- The compare-and-set of `missed_inner`. -/
  | missed (document : MonitorDocument) (now next dueAt : Timestamp) (monitor : MonitorDefinition)
      (run : MonitorRun) (rows : List (MonitorId × MonitorDocument))
      (hstored : stored = some document) (hcall : call = .missedAdvance now id monitor run rows)
      (hslot : document.definition.nextExpectedAt = monitor.nextExpectedAt)
      (hnext : monitor.config.schedule.nextAfter now = .ok next) :
      MonitorWrite id call stored (some (document.miss next dueAt now run.id))
  | leased (document : MonitorDocument) (leaseUntil : Timestamp)
      (hstored : stored = some document) :
      MonitorWrite id call stored (some { document with lease := some leaseUntil })

variable {blake3} {db : Database} {id : MonitorId}

theorem keys_encodeMonitors {rows : List (MonitorId × MonitorDefinition)}
    {models : List (MonitorId × MonitorDefinition × Timestamp)}
    (h : encodeMonitors rows = .ok models) :
    models.map (fun model => (model.1, model.2.1)) = rows := by
  unfold encodeMonitors at h
  induction rows generalizing models with
  | nil =>
      cases h
      rfl
  | cons row rows ih =>
      simp only [List.mapM_cons, bind_eq_ok, pure_eq_ok] at h
      obtain ⟨_, ⟨dueAt, -, rfl⟩, rest, hrest, rfl⟩ := h
      rw [List.map_cons, ih hrest]

theorem writeMonitors_write {updates : List MonitorUpdate}
    {monitors : Table MonitorId MonitorDefinition}
    {models : List (MonitorId × MonitorDefinition × Timestamp)}
    (h : encodeMonitors monitors.toList = .ok models) :
    MonitorWrite id (.persistWrite updates monitors) db.monitors[id]?
      (writeMonitors db models).monitors[id]? := by
  have hkeys := keys_encodeMonitors h
  have hnodup : (models.map Prod.fst).Nodup := by
    have := monitors.nodup_keys_toList
    rw [← hkeys, List.map_map] at this
    exact this
  obtain ⟨hfresh, hwritten⟩ := Table.get_foldl_insert
    (fun (value : MonitorDefinition × Timestamp) => setMonitor value.1 value.2) models db.monitors
    hnodup id
  by_cases hmem : id ∈ models.map Prod.fst
  · obtain ⟨⟨key, copy, dueAt⟩, hmodel, rfl⟩ := List.mem_map.mp hmem
    have hcopy : monitors[key]? = some copy := by
      rw [← Table.mem_toList, ← hkeys]
      exact List.mem_map.mpr ⟨_, hmodel, rfl⟩
    unfold writeMonitors
    rw [hwritten _ hmodel]
    exact .copied updates monitors copy dueAt rfl hcopy
  · unfold writeMonitors
    rw [hfresh hmem]
    exact .unchanged

theorem setProjection_write {call : Call} {monitor : MonitorDefinition} {run : MonitorRun}
    {times : Option (Timestamp × Timestamp)} (hcall : call.projection = some (monitor, run))
    (htimes : projectedTimes monitor run = .ok times) :
    MonitorWrite id call db.monitors[id]? (setProjection db monitor run times).monitors[id]? := by
  unfold setProjection
  split
  · exact .unchanged
  · rename_i document hstored
    split_ifs with hcurrent
    · by_cases hid : run.monitorId = id
      · subst hid
        rw [Table.get_insert_self, hstored]
        exact .projected document monitor run times rfl hcall rfl hcurrent htimes
      · rw [Table.get_insert_of_ne _ _ hid]
        exact .unchanged
    · exact .unchanged

theorem setMissed_write {now next dueAt : Timestamp} {key : MonitorId} {monitor : MonitorDefinition}
    {run : MonitorRun} {rows : List (MonitorId × MonitorDocument)}
    (hnext : monitor.config.schedule.nextAfter now = .ok next) :
    MonitorWrite id (.missedAdvance now key monitor run rows) db.monitors[id]?
      (setMissed db key monitor.nextExpectedAt next dueAt now run.id).monitors[id]? := by
  unfold setMissed
  split
  · exact .unchanged
  · rename_i document hstored
    split_ifs with hslot
    · by_cases hid : key = id
      · subst hid
        rw [Table.get_insert_self, hstored]
        exact .missed document now next dueAt monitor run rows rfl rfl hslot hnext
      · rw [Table.get_insert_of_ne _ _ hid]
        exact .unchanged
    · exact .unchanged

theorem setLease_write {call : Call} {key : MonitorId} {dueAt now leaseUntil : Timestamp} :
    MonitorWrite id call db.monitors[id]? (setLease db key dueAt now leaseUntil).monitors[id]? := by
  unfold setLease
  split
  · exact .unchanged
  · rename_i document hstored
    split_ifs
    · by_cases hid : key = id
      · subst hid
        rw [Table.get_insert_self, hstored]
        exact .leased document leaseUntil rfl
      · rw [Table.get_insert_of_ne _ _ hid]
        exact .unchanged
    · exact .unchanged

theorem setTerminal_monitors (db : Database) (key : MonitorRunId) (run : MonitorRun) :
    (setTerminal db key run).monitors = db.monitors := by
  unfold setTerminal
  repeat' split
  all_goals rfl

theorem apply_monitors (models : List RunModel) (db : Database) :
    (models.foldl RunModel.apply db).monitors = db.monitors := by
  induction models generalizing db with
  | nil => rfl
  | cons model models ih =>
      rw [List.foldl_cons, ih]
      cases model with
      | terminal run => exact setTerminal_monitors db run.id run
      | insert run document => rfl

theorem decodeMonitor_eq_ok {document : MonitorDocument} {monitor : MonitorDefinition}
    (h : decodeMonitor document = .ok monitor) : monitor = document.definition := by
  simp only [decodeMonitor, bind_eq_ok, pure_eq_ok] at h
  obtain ⟨_, -, _, -, rfl⟩ := h
  rfl

theorem onSuccess_next {α : Type} {result : Except SignalStoreError α} {next : α → Advanced}
    {call : Call} (h : (onSuccess db result next).2 = some call) :
    ∃ value, result = .ok value ∧ (next value).2 = some call := by
  cases result with
  | error error => cases h
  | ok value => exact ⟨value, rfl, h⟩

/-- A computation that may stop before its command changes a monitor only as the command does. -/
theorem onSuccess_write {α : Type} {call : Call} {result : Except SignalStoreError α}
    {next : α → Advanced}
    (h : ∀ value, result = .ok value →
      MonitorWrite id call db.monitors[id]? (next value).1.monitors[id]?) :
    MonitorWrite id call db.monitors[id]? (onSuccess db result next).1.monitors[id]? := by
  cases result with
  | error error => exact .unchanged
  | ok value => exact h value rfl

theorem applyProjection_write {call : Call} {monitor : MonitorDefinition} {run : MonitorRun}
    {next : Database → Option Call} (hcall : call.projection = some (monitor, run)) :
    MonitorWrite id call db.monitors[id]? (onSuccess db (applyProjection db monitor run)
      fun projected => (projected, next projected)).1.monitors[id]? := by
  refine onSuccess_write fun projected hprojected => ?_
  simp only [applyProjection, bind_eq_ok, pure_eq_ok] at hprojected
  obtain ⟨times, htimes, rfl⟩ := hprojected
  exact setProjection_write hcall htimes

/-- Every command writes a monitor in one of the ways listed. -/
theorem advance_write (call : Call) :
    MonitorWrite id call db.monitors[id]? (advance blake3 db call).1.monitors[id]? := by
  cases call with
  | persistFind updates =>
      exact onSuccess_write fun found _ => onSuccess_write fun monitors _ => .unchanged
  | persistWrite updates monitors =>
      exact onSuccess_write fun models hmodels => writeMonitors_write hmodels
  | persistFindRuns updates monitors =>
      exact onSuccess_write fun existing _ => onSuccess_write fun batch _ => .unchanged
  | persistWriteRuns models projections monitors =>
      rw [advance, apply_monitors]
      exact .unchanged
  | persistProject projections monitors =>
      cases projections with
      | nil => exact .unchanged
      | cons run projections =>
          rw [advance]
          split
          · exact .unchanged
          · rename_i monitor hmonitor
            refine applyProjection_write ?_
            rw [Call.projection, hmonitor, Option.map_some]
  | missedFind now batchSize => exact .unchanged
  | missedInsert now rows =>
      cases rows with
      | nil => exact .unchanged
      | cons row rows => exact onSuccess_write fun _ _ => .unchanged
  | missedAdvance now key monitor run rows =>
      exact onSuccess_write fun next hnext => onSuccess_write fun dueAt _ =>
        setMissed_write (invalid_eq_ok.mp hnext)
  | timeoutFind now batchSize => exact .unchanged
  | timeoutSet now runs =>
      cases runs with
      | nil => exact .unchanged
      | cons document runs =>
          refine onSuccess_write fun run _ => ?_
          rw [setTerminal_monitors]
          exact .unchanged
  | timeoutLoad now run runs =>
      rw [advance]
      split
      · exact .unchanged
      · split_ifs
        · exact .unchanged
        · exact onSuccess_write fun _ _ => .unchanged
  | timeoutProject now run monitor runs => exact applyProjection_write rfl
  | uptimeFind now leaseUntil limit => exact .unchanged
  | uptimeClaim now leaseUntil candidates =>
      cases candidates with
      | nil => exact .unchanged
      | cons candidate candidates => exact setLease_write

theorem upsertMonitor_eq_ok {next : Database} {monitor : MonitorDefinition}
    (h : upsertMonitor db monitor = .ok next) :
    ∃ dueAt, next = { db with
      monitors := db.monitors.insert monitor.id (setMonitor monitor dueAt db.monitors[monitor.id]?) } := by
  simp only [upsertMonitor, bind_eq_ok, pure_eq_ok] at h
  obtain ⟨_, -, dueAt, -, _, -, rfl⟩ := h
  exact ⟨dueAt, rfl⟩

/-! ### The commands of a call -/

/-- The call that a command leaves, with what it has read. -/
inductive Follows (db : Database) : Call → Call → Prop where
  | persistFind (updates : List MonitorUpdate) (found monitors : Table MonitorId MonitorDefinition)
      (hfound : findMonitors db (updates.map (·.run.monitorId)) = .ok found)
      (hmonitors : resolveMonitors found updates = .ok monitors) :
      Follows db (.persistFind updates) (.persistWrite updates monitors)
  | persistWrite (updates : List MonitorUpdate) (monitors : Table MonitorId MonitorDefinition) :
      Follows db (.persistWrite updates monitors) (.persistFindRuns updates monitors)
  | persistFindRuns (updates : List MonitorUpdate) (monitors : Table MonitorId MonitorDefinition)
      (models : List RunModel) (projections : List MonitorRun) :
      Follows db (.persistFindRuns updates monitors) (.persistWriteRuns models projections monitors)
  | persistWriteRuns (models : List RunModel) (projections : List MonitorRun)
      (monitors : Table MonitorId MonitorDefinition) :
      Follows db (.persistWriteRuns models projections monitors) (.persistProject projections monitors)
  | persistProject (run : MonitorRun) (projections : List MonitorRun)
      (monitors : Table MonitorId MonitorDefinition) :
      Follows db (.persistProject (run :: projections) monitors) (.persistProject projections monitors)
  | missedFind (now : Timestamp) (batchSize : Nat) (rows : List (MonitorId × MonitorDocument))
      (hrows : ∀ row ∈ rows, db.monitors[row.1]? = some row.2) :
      Follows db (.missedFind now batchSize) (.missedInsert now rows)
  | missedInsert (now : Timestamp) (row : MonitorId × MonitorDocument)
      (rows : List (MonitorId × MonitorDocument)) (monitor : MonitorDefinition) (run : MonitorRun) :
      Follows db (.missedInsert now (row :: rows)) (.missedAdvance now row.1 monitor run rows)
  | missedAdvance (now : Timestamp) (id : MonitorId) (monitor : MonitorDefinition) (run : MonitorRun)
      (rows : List (MonitorId × MonitorDocument)) :
      Follows db (.missedAdvance now id monitor run rows) (.missedInsert now rows)
  | timeoutFind (now : Timestamp) (batchSize : Nat) (runs : List RunDocument) :
      Follows db (.timeoutFind now batchSize) (.timeoutSet now runs)
  | timeoutSet (now : Timestamp) (document : RunDocument) (run : MonitorRun)
      (runs : List RunDocument) :
      Follows db (.timeoutSet now (document :: runs)) (.timeoutLoad now run runs)
  | timeoutKept (now : Timestamp) (document : RunDocument) (runs : List RunDocument) :
      Follows db (.timeoutSet now (document :: runs)) (.timeoutSet now runs)
  | timeoutLoad (now : Timestamp) (run : MonitorRun) (monitor : MonitorDefinition)
      (runs : List RunDocument) :
      Follows db (.timeoutLoad now run runs) (.timeoutProject now run monitor runs)
  | timeoutProject (now : Timestamp) (run : MonitorRun) (monitor : MonitorDefinition)
      (runs : List RunDocument) :
      Follows db (.timeoutProject now run monitor runs) (.timeoutSet now runs)
  | uptimeFind (now leaseUntil : Timestamp) (limit : Nat) (candidates : List (MonitorId × Timestamp)) :
      Follows db (.uptimeFind now leaseUntil limit) (.uptimeClaim now leaseUntil candidates)
  | uptimeClaim (now leaseUntil : Timestamp) (candidate : MonitorId × Timestamp)
      (candidates : List (MonitorId × Timestamp)) :
      Follows db (.uptimeClaim now leaseUntil (candidate :: candidates))
        (.uptimeClaim now leaseUntil candidates)

theorem mem_dueRows {select : MonitorDocument → Bool} {limit : Nat}
    {row : MonitorId × MonitorDocument} (h : row ∈ dueRows db select limit) :
    db.monitors[row.1]? = some row.2 := by
  have hsorted := (List.mem_insertionSort _).mp (List.mem_of_mem_take h)
  exact Table.mem_toList.mp (List.mem_filter.mp hsorted).1

theorem advance_follows {call next : Call} (h : (advance blake3 db call).2 = some next) :
    Follows db call next := by
  cases call with
  | persistFind updates =>
      obtain ⟨found, hfound, h⟩ := onSuccess_next h
      obtain ⟨monitors, hmonitors, h⟩ := onSuccess_next h
      cases h
      exact .persistFind updates found monitors hfound hmonitors
  | persistWrite updates monitors =>
      obtain ⟨models, -, h⟩ := onSuccess_next h
      cases h
      exact .persistWrite updates monitors
  | persistFindRuns updates monitors =>
      obtain ⟨existing, -, h⟩ := onSuccess_next h
      obtain ⟨batch, -, h⟩ := onSuccess_next h
      cases h
      exact .persistFindRuns updates monitors _ _
  | persistWriteRuns models projections monitors =>
      cases h
      exact .persistWriteRuns models projections monitors
  | persistProject projections monitors =>
      cases projections with
      | nil => cases h
      | cons run projections =>
          rw [advance] at h
          split at h
          · cases h
          · obtain ⟨projected, -, h⟩ := onSuccess_next h
            cases h
            exact .persistProject run projections monitors
  | missedFind now batchSize =>
      cases h
      exact .missedFind now batchSize _ fun row hrow => mem_dueRows hrow
  | missedInsert now rows =>
      cases rows with
      | nil => cases h
      | cons row rows =>
          obtain ⟨inserted, -, h⟩ := onSuccess_next h
          cases h
          exact .missedInsert now row rows _ _
  | missedAdvance now id monitor run rows =>
      obtain ⟨next, -, h⟩ := onSuccess_next h
      obtain ⟨dueAt, -, h⟩ := onSuccess_next h
      cases h
      exact .missedAdvance now id monitor run rows
  | timeoutFind now batchSize =>
      cases h
      exact .timeoutFind now batchSize _
  | timeoutSet now runs =>
      cases runs with
      | nil => cases h
      | cons document runs =>
          obtain ⟨run, -, h⟩ := onSuccess_next h
          cases h
          split_ifs
          · exact .timeoutSet now document _ runs
          · exact .timeoutKept now document runs
  | timeoutLoad now run runs =>
      rw [advance] at h
      split at h
      · cases h
      · split_ifs at h
        · cases h
        · obtain ⟨monitor, -, h⟩ := onSuccess_next h
          cases h
          exact .timeoutLoad now run monitor runs
  | timeoutProject now run monitor runs =>
      obtain ⟨projected, -, h⟩ := onSuccess_next h
      cases h
      exact .timeoutProject now run monitor runs
  | uptimeFind now leaseUntil limit =>
      cases h
      exact .uptimeFind now leaseUntil limit _
  | uptimeClaim now leaseUntil candidates =>
      cases candidates with
      | nil => cases h
      | cons candidate candidates =>
          cases h
          exact .uptimeClaim now leaseUntil candidate candidates

/-- An operation starts with its first command. -/
theorem call_first {operation : Operation} {call : Call} (h : operation.call = some call) :
    (∃ updates, operation = .persist updates ∧ call = .persistFind updates)
      ∨ (∃ now batchSize, call = .missedFind now batchSize)
      ∨ (∃ now batchSize, call = .timeoutFind now batchSize)
      ∨ ∃ now leaseUntil limit, call = .uptimeFind now leaseUntil limit := by
  cases operation with
  | persist updates =>
      simp only [Operation.call] at h
      split_ifs at h
      cases h
      exact .inl ⟨updates, rfl, rfl⟩
  | missed now batchSize =>
      simp only [Operation.call] at h
      split_ifs at h
      cases h
      exact .inr (.inl ⟨now, batchSize, rfl⟩)
  | timeout now batchSize =>
      simp only [Operation.call] at h
      split_ifs at h
      cases h
      exact .inr (.inr (.inl ⟨now, batchSize, rfl⟩))
  | claimUptime now leaseUntil limit =>
      simp only [Operation.call] at h
      split_ifs at h
      cases h
      exact .inr (.inr (.inr ⟨now, leaseUntil, limit, rfl⟩))

/-! ### A sample database -/

open IngestCheckIns in
/-- The sample monitor, due at 1700000420000. -/
def sampleDb : Database where
  runsDays := 90
  monitors := (∅ : Table MonitorId MonitorDocument).insert sampleMonitorId
    ⟨sampleMonitor, false, ⟨1700000420000, by decide⟩, none⟩
  runs := ∅

open IngestCheckIns in
/-- A call of `persist_inner` with a check-in that succeeds after the monitor is due. -/
def sampleCheckIn : Action :=
  .start (.persist (sampleUpdates ⟨1700000431000, by decide⟩ (sampleFields 8 .success false)))

end MetricBackend.MongoMonitors
