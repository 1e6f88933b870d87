import MetricBackend.LibTable
import MetricBackend.PortsMonitors

/-! The Mongo monitor store of `mongo/src/monitors.rs`. A collection is a table of decoded documents in
`_id` order. An operation is a sequence of database commands, each atomic by itself: a call in flight
is the state between two of its commands, and advancing it runs the next one. A call that returns,
with a result or an error, is gone and keeps what it wrote. -/

namespace MetricBackend.MongoMonitors

/-- A monitor with the fields `k` (the kind), `d` (the due time) and `y` (the lease). -/
structure MonitorDocument where
  definition : MonitorDefinition
  uptimeKind : Bool
  due : Timestamp
  lease : Option Timestamp
deriving DecidableEq

/-- A run with the field `z`. -/
structure RunDocument where
  run : MonitorRun
  evaluatedAt : Option Timestamp
deriving DecidableEq

structure Database where
  runsDays : Nat
  monitors : Table MonitorId MonitorDocument
  runs : Table MonitorRunId RunDocument

/-! ### Documents -/

/-- `decode_monitor`. -/
def decodeMonitor (document : MonitorDocument) : Except SignalStoreError MonitorDefinition := do
  reparseSchedule document.definition.config.schedule
  invalid document.definition.validate
  return document.definition

/-- `encode_monitor`: its checks, and the due time it computes. -/
def encodeMonitor (monitor : MonitorDefinition) : Except SignalStoreError Timestamp := do
  invalid monitor.validate
  let dueAt ← due monitor
  failIf (i64Max < monitor.revision) .invalidData
  return dueAt

/-- `$set` of an encoded monitor. Fields that are absent from the encoding keep their value. -/
def setMonitor (monitor : MonitorDefinition) (dueAt : Timestamp) :
    Option MonitorDocument → MonitorDocument
  | none => ⟨monitor, monitor.isUptime, dueAt, none⟩
  | some stored => {
      definition := { monitor with
        uptime := monitor.uptime.or stored.definition.uptime
        lastRunId := monitor.lastRunId.or stored.definition.lastRunId
        lastStatus := monitor.lastStatus.or stored.definition.lastStatus
        lastCheckInAt := monitor.lastCheckInAt.or stored.definition.lastCheckInAt }
      uptimeKind := monitor.isUptime
      due := dueAt
      lease := stored.lease }

def decodeRun (document : RunDocument) : Except SignalStoreError MonitorRun := do
  invalid document.run.validate
  return document.run

/-- `encode_run`. -/
def encodeRun (run : MonitorRun) : Except SignalStoreError RunDocument := do
  invalid run.validate
  return ⟨run, none⟩

/-- `$setOnInsert` with `upsert`. -/
def insertRun (db : Database) (id : MonitorRunId) (document : RunDocument) : Database :=
  { db with runs := db.runs.insertIfNew id document }

/-- `$set` of the terminal fields of a run, on a run in progress. -/
def setTerminal (db : Database) (id : MonitorRunId) (run : MonitorRun) : Database :=
  match db.runs[id]? with
  | none => db
  | some stored =>
      if stored.run.status = .inProgress then
        let updated := { stored.run with
          status := run.status
          finishedAt := run.finishedAt
          receivedAt := run.receivedAt
          durationMs := run.durationMs.or stored.run.durationMs
          deleteAt := run.deleteAt.or stored.run.deleteAt }
        { db with runs := db.runs.insert id { stored with run := updated } }
      else db

/-! ### Projections -/

/-- The next expected time and the due time that a terminal run sets. -/
def projectedTimes (monitor : MonitorDefinition) (run : MonitorRun) :
    Except SignalStoreError (Option (Timestamp × Timestamp)) :=
  if run.status.isTerminal then do
    let next ← invalid (monitor.config.schedule.nextAfter run.receivedAt)
    let dueAt ← if monitor.isUptime then .ok next else invalid (monitor.config.missedAt next)
    return some (next, dueAt)
  else .ok none

/-- The document after the update of `apply_projection`. -/
def MonitorDocument.project (document : MonitorDocument) (monitor : MonitorDefinition)
    (run : MonitorRun) (times : Option (Timestamp × Timestamp)) : MonitorDocument :=
  { document with
    definition := { document.definition with
      lastRunId := some run.id
      lastStatus := some run.status
      lastCheckInAt := some run.receivedAt
      updatedAt := run.receivedAt
      nextExpectedAt := (times.map (·.1)).getD document.definition.nextExpectedAt }
    due := (times.map (·.2)).getD document.due
    lease := if monitor.isUptime ∧ run.status.isTerminal then none else document.lease }

/-- The filter and the update of `apply_projection`. -/
def setProjection (db : Database) (monitor : MonitorDefinition) (run : MonitorRun)
    (times : Option (Timestamp × Timestamp)) : Database :=
  match db.monitors[run.monitorId]? with
  | none => db
  | some document =>
      if document.definition.lastCheckInAt.all (· ≤ run.receivedAt) then
        { db with monitors := db.monitors.insert run.monitorId (document.project monitor run times) }
      else db

/-- `apply_projection` with the copy of the monitor that its caller holds. -/
def applyProjection (db : Database) (monitor : MonitorDefinition) (run : MonitorRun) :
    Except SignalStoreError Database := do
  return setProjection db monitor run (← projectedTimes monitor run)

/-! ### `persist_inner` -/

def findMonitors (db : Database) (ids : List MonitorId) :
    Except SignalStoreError (Table MonitorId MonitorDefinition) :=
  (db.monitors.selectAny ids ids.length).foldlM (fun values row => do
    return values.insert row.1 (← decodeMonitor row.2)) ∅

def findRuns (db : Database) (ids : List MonitorRunId) :
    Except SignalStoreError (Table MonitorRunId MonitorRun) :=
  (db.runs.selectAny ids ids.length).foldlM (fun values row => do
    return values.insert row.1 (← decodeRun row.2)) ∅

/-- One pass of the definition loop. -/
def resolveDefinition (monitors : Table MonitorId MonitorDefinition) (update : MonitorUpdate) :
    Table MonitorId MonitorDefinition :=
  match update.definition with
  | none => monitors
  | some definition =>
      match monitors[definition.id]? with
      | none => monitors.insert definition.id definition
      | some existing =>
          if existing.managedByWeb then monitors
          else monitors.insert definition.id { definition with
            createdAt := existing.createdAt
            revision := min (existing.revision + 1) (2 ^ 64 - 1)
            lastRunId := existing.lastRunId
            lastStatus := existing.lastStatus
            lastCheckInAt := existing.lastCheckInAt }

/-- The monitors that a call knows after its first read. -/
def resolveMonitors (monitors : Table MonitorId MonitorDefinition) (updates : List MonitorUpdate) :
    Except SignalStoreError (Table MonitorId MonitorDefinition) :=
  let resolved := updates.foldl resolveDefinition monitors
  if updates.all fun update => resolved[update.run.monitorId]?.isSome then .ok resolved
  else .error .notFound

/-- The models of the bulk write of monitors: one for every known monitor, changed or not. -/
def encodeMonitors (monitors : List (MonitorId × MonitorDefinition)) :
    Except SignalStoreError (List (MonitorId × MonitorDefinition × Timestamp)) :=
  monitors.mapM fun row => do return (row.1, row.2, ← encodeMonitor row.2)

def writeMonitors (db : Database) (models : List (MonitorId × MonitorDefinition × Timestamp)) :
    Database :=
  { db with monitors := models.foldl (fun stored model =>
      stored.insert model.1 (setMonitor model.2.1 model.2.2 stored[model.1]?)) db.monitors }

/-- A model of the bulk write of runs. -/
inductive RunModel where
  | terminal (run : MonitorRun)
  | insert (run : MonitorRun) (document : RunDocument)
deriving DecidableEq

def RunModel.apply (db : Database) : RunModel → Database
  | terminal run => setTerminal db run.id run
  | insert run document => insertRun db run.id document

/-- The loop state over the runs of a call. -/
structure RunBatch where
  existing : Table MonitorRunId MonitorRun
  models : List RunModel
  projections : Table MonitorId MonitorRun

def validateSameRun (existing incoming : MonitorRun) : Except SignalStoreError Unit :=
  failIf (existing.projectId ≠ incoming.projectId ∨ existing.monitorId ≠ incoming.monitorId ∨
    existing.checkInId ≠ incoming.checkInId ∨ existing.source ≠ incoming.source) .conflict

/-- The batch after a model has been added for an accepted run, which is projected unless a later one
is. -/
def RunBatch.accept (batch : RunBatch) (model : RunModel) (run : MonitorRun) : RunBatch where
  existing := batch.existing.insert run.id run
  models := batch.models ++ [model]
  projections :=
    if batch.projections[run.monitorId]?.all (·.receivedAt ≤ run.receivedAt) then
      batch.projections.insert run.monitorId run
    else batch.projections

/-- The merge of an incoming run with the one known under its identity. -/
def mergeRun (batch : RunBatch) (incoming : MonitorRun) : Except SignalStoreError RunBatch :=
  match batch.existing[incoming.id]? with
  | some existing => do
      validateSameRun existing incoming
      if existing.status = .inProgress ∧ incoming.status.isTerminal then
        failIf (incoming.finishedAt.any (· < existing.startedAt)) .invalidData
        failIf (incoming.finishedAt = none) .invalidData
        return batch.accept (.terminal incoming) incoming
      else return batch
  | none => do
      let document ← encodeRun incoming
      return batch.accept (.insert incoming document) incoming

/-- One pass of the run loop. -/
def mergeUpdate (monitors : Table MonitorId MonitorDefinition) (batch : RunBatch)
    (update : MonitorUpdate) : Except SignalStoreError RunBatch :=
  match monitors[update.run.monitorId]? with
  | none => .error .notFound
  | some monitor => do
      let incoming ← withTimeout monitor.config update.run
      mergeRun batch incoming

/-! ### Calls in flight -/

/-- A call between two of its commands, named by the command it runs next. -/
inductive Call where
  | persistFind (updates : List MonitorUpdate)
  | persistWrite (updates : List MonitorUpdate) (monitors : Table MonitorId MonitorDefinition)
  | persistFindRuns (updates : List MonitorUpdate) (monitors : Table MonitorId MonitorDefinition)
  | persistWriteRuns (models : List RunModel) (projections : List MonitorRun)
      (monitors : Table MonitorId MonitorDefinition)
  | persistProject (projections : List MonitorRun) (monitors : Table MonitorId MonitorDefinition)
  | missedFind (now : Timestamp) (batchSize : Nat)
  | missedInsert (now : Timestamp) (rows : List (MonitorId × MonitorDocument))
  | missedAdvance (now : Timestamp) (id : MonitorId) (monitor : MonitorDefinition)
      (run : MonitorRun) (rows : List (MonitorId × MonitorDocument))
  | timeoutFind (now : Timestamp) (batchSize : Nat)
  | timeoutSet (now : Timestamp) (runs : List RunDocument)
  | timeoutLoad (now : Timestamp) (run : MonitorRun) (runs : List RunDocument)
  | timeoutProject (now : Timestamp) (run : MonitorRun) (monitor : MonitorDefinition)
      (runs : List RunDocument)
  | uptimeFind (now leaseUntil : Timestamp) (limit : Nat)
  | uptimeClaim (now leaseUntil : Timestamp) (candidates : List (MonitorId × Timestamp))

/-- The database after a command and the call it leaves; a call that fails or ends leaves none. -/
abbrev Advanced : Type := Database × Option Call

def stop (db : Database) : Advanced := (db, none)

/-- Goes on with the result of a check, or stops at its error. -/
def onSuccess {α : Type} (db : Database) (result : Except SignalStoreError α) (next : α → Advanced) :
    Advanced :=
  match result with
  | .ok value => next value
  | .error _ => stop db

/-- The command after the run loop of `persist_inner`; an empty list of models is not written. -/
def afterMerge (monitors : Table MonitorId MonitorDefinition) (batch : RunBatch) : Call :=
  .persistWriteRuns batch.models (batch.projections.toList.map (·.2)) monitors

/-- The rows of a due scan: filter, sort by due time and identity, limit. -/
def dueRows (db : Database) (select : MonitorDocument → Bool) (limit : Nat) :
    List (MonitorId × MonitorDocument) :=
  ((db.monitors.toList.filter (select ·.2)).insertionSort fun left right =>
    left.2.due ≤ right.2.due).take limit

/-- The run that `missed_inner` inserts for a monitor. -/
def missedRun (blake3 : List (BitVec 8) → BitVec 256) (runsDays : Nat) (id : MonitorId)
    (monitor : MonitorDefinition) (now : Timestamp) : Except SignalStoreError MonitorRun := do
  return {
    id := MonitorRunId.missed blake3 id monitor.nextExpectedAt
    projectId := monitor.projectId
    monitorId := id
    checkInId := none
    status := .missed
    source := .scheduler
    scheduledFor := some monitor.nextExpectedAt
    startedAt := monitor.nextExpectedAt
    finishedAt := some now
    durationMs := none
    receivedAt := now
    releaseId := none
    timeoutAt := none
    deleteAt := some (← addDays now runsDays)
    httpStatus := none
    uptimeFailure := none }

/-- What `missed_inner` computes for a row of its scan before the first command for it. -/
def missedInsertion (blake3 : List (BitVec 8) → BitVec 256) (runsDays : Nat) (now : Timestamp)
    (row : MonitorId × MonitorDocument) :
    Except SignalStoreError (MonitorDefinition × MonitorRun × RunDocument) := do
  let monitor ← decodeMonitor row.2
  let run ← missedRun blake3 runsDays row.1 monitor now
  let encoded ← encodeRun run
  return (monitor, run, encoded)

/-- The document after the second command of `missed_inner` for a monitor. -/
def MonitorDocument.miss (document : MonitorDocument) (next dueAt now : Timestamp)
    (runId : MonitorRunId) : MonitorDocument :=
  { document with
    definition := { document.definition with
      nextExpectedAt := next
      lastRunId := some runId
      lastStatus := some .missed
      lastCheckInAt := some now
      updatedAt := now }
    due := dueAt }

/-- The compare-and-set of `missed_inner` on the slot that was read. -/
def setMissed (db : Database) (id : MonitorId) (slot next dueAt now : Timestamp)
    (runId : MonitorRunId) : Database :=
  match db.monitors[id]? with
  | none => db
  | some document =>
      if document.definition.nextExpectedAt = slot then
        { db with monitors := db.monitors.insert id (document.miss next dueAt now runId) }
      else db

def timeoutNoLater (left right : RunDocument) : Prop :=
  ∀ timeout ∈ left.run.timeoutAt, ∀ other ∈ right.run.timeoutAt, timeout ≤ other

instance : DecidableRel timeoutNoLater := fun left right =>
  inferInstanceAs (Decidable (∀ timeout ∈ left.run.timeoutAt, ∀ other ∈ right.run.timeoutAt,
    timeout ≤ other))

/-- The scan of `timeout_inner`. -/
def timedOutRows (db : Database) (now : Timestamp) (limit : Nat) : List RunDocument :=
  (((db.runs.toList.map (·.2)).filter fun document =>
    document.run.status = .inProgress && document.run.timeoutAt.any (· ≤ now)).insertionSort
      timeoutNoLater).take limit

/-- The run that `timeout_inner` writes. -/
def timedOut (run : MonitorRun) (now : Timestamp) : MonitorRun := { run with
  status := .timeout
  finishedAt := some now
  receivedAt := now
  durationMs := some (now.unixMillis - run.startedAt.unixMillis).toNat }

/-- `find_one_and_update` of `claim_uptime_inner`. -/
def setLease (db : Database) (id : MonitorId) (dueAt now leaseUntil : Timestamp) : Database :=
  match db.monitors[id]? with
  | none => db
  | some document =>
      if document.uptimeKind ∧ document.definition.enabled ∧ document.due = dueAt
          ∧ document.lease.all (· ≤ now) then
        { db with monitors := db.monitors.insert id { document with lease := some leaseUntil } }
      else db

/-- Runs the next command of a call, and the code up to the command after it. -/
def advance (blake3 : List (BitVec 8) → BitVec 256) (db : Database) : Call → Advanced
  | .persistFind updates =>
      onSuccess db (findMonitors db (updates.map (·.run.monitorId))) fun found =>
      onSuccess db (resolveMonitors found updates) fun monitors =>
      (db, some (.persistWrite updates monitors))
  | .persistWrite updates monitors =>
      onSuccess db (encodeMonitors monitors.toList) fun models =>
      (writeMonitors db models, some (.persistFindRuns updates monitors))
  | .persistFindRuns updates monitors =>
      onSuccess db (findRuns db (updates.map (·.run.id))) fun existing =>
      onSuccess db (updates.foldlM (mergeUpdate monitors) ⟨existing, [], ∅⟩) fun batch =>
      (db, some (afterMerge monitors batch))
  | .persistWriteRuns models projections monitors =>
      (models.foldl RunModel.apply db, some (.persistProject projections monitors))
  | .persistProject [] _ => stop db
  | .persistProject (run :: projections) monitors =>
      match monitors[run.monitorId]? with
      | none => stop db
      | some monitor =>
          onSuccess db (applyProjection db monitor run) fun projected =>
          (projected, some (.persistProject projections monitors))
  | .missedFind now batchSize =>
      (db, some (.missedInsert now (dueRows db (fun document =>
        !document.uptimeKind && document.definition.enabled && document.due ≤ now) batchSize)))
  | .missedInsert _ [] => stop db
  | .missedInsert now (row :: rows) =>
      onSuccess db (missedInsertion blake3 db.runsDays now row) fun (monitor, run, encoded) =>
      (insertRun db run.id encoded, some (.missedAdvance now row.1 monitor run rows))
  | .missedAdvance now id monitor run rows =>
      onSuccess db (invalid (monitor.config.schedule.nextAfter now)) fun next =>
      onSuccess db (invalid (monitor.config.missedAt next)) fun dueAt =>
      (setMissed db id monitor.nextExpectedAt next dueAt now run.id,
        some (.missedInsert now rows))
  | .timeoutFind now batchSize =>
      (db, some (.timeoutSet now (timedOutRows db now batchSize)))
  | .timeoutSet _ [] => stop db
  | .timeoutSet now (document :: runs) =>
      onSuccess db (decodeRun document) fun run =>
      let changed := db.runs[run.id]?.any (·.run.status = .inProgress)
      (setTerminal db run.id (timedOut run now),
        some (if changed then .timeoutLoad now (timedOut run now) runs else .timeoutSet now runs))
  | .timeoutLoad now run runs =>
      match db.monitors[run.monitorId]? with
      | none => stop db
      | some document =>
          if document.definition.projectId ≠ run.projectId then stop db
          else onSuccess db (decodeMonitor document) fun monitor =>
            (db, some (.timeoutProject now run monitor runs))
  | .timeoutProject now run monitor runs =>
      onSuccess db (applyProjection db monitor run) fun projected =>
      (projected, some (.timeoutSet now runs))
  | .uptimeFind now leaseUntil limit =>
      (db, some (.uptimeClaim now leaseUntil ((dueRows db (fun document =>
        document.uptimeKind && document.definition.enabled && document.due ≤ now
          && document.lease.all (· ≤ now)) limit).map fun row => (row.1, row.2.due))))
  | .uptimeClaim _ _ [] => stop db
  | .uptimeClaim now leaseUntil ((id, dueAt) :: candidates) =>
      (setLease db id dueAt now leaseUntil, some (.uptimeClaim now leaseUntil candidates))

/-! ### Operations -/

inductive Operation where
  | persist (updates : List MonitorUpdate)
  | missed (now : Timestamp) (batchSize : Nat)
  | timeout (now : Timestamp) (batchSize : Nat)
  | claimUptime (now leaseUntil : Timestamp) (limit : Nat)

/-- The call of an operation before its first command; an operation that is refused or has nothing to
do makes none. -/
def Operation.call : Operation → Option Call
  | persist updates =>
      if updates.isEmpty ∨ !updates.all (·.validate.isOk) then none else some (.persistFind updates)
  | missed now batchSize =>
      if batchSize = 0 ∨ 10000 < batchSize then none else some (.missedFind now batchSize)
  | timeout now batchSize =>
      if batchSize = 0 ∨ 10000 < batchSize then none else some (.timeoutFind now batchSize)
  | claimUptime now leaseUntil limit =>
      if limit = 0 ∨ 1000 < limit ∨ leaseUntil ≤ now then none
      else some (.uptimeFind now leaseUntil limit)

/-- `upsert_inner`: the stored document of another project is not matched, and inserting a second one
under its identity fails. -/
def upsertMonitor (db : Database) (monitor : MonitorDefinition) : Except SignalStoreError Database := do
  invalid monitor.validate
  let dueAt ← encodeMonitor monitor
  failIf (db.monitors[monitor.id]?.any (·.definition.projectId ≠ monitor.projectId)) .unavailable
  let stored := setMonitor monitor dueAt db.monitors[monitor.id]?
  return { db with monitors := db.monitors.insert monitor.id stored }

/-- The filter of `pending_alerts_inner`. -/
def RunDocument.alertPending (document : RunDocument) : Bool :=
  (document.run.status ∈ [.error, .timeout, .missed]
    ∨ (document.run.status = .success ∧ document.run.httpStatus.isSome))
    ∧ document.evaluatedAt = none

/-- `pending_alerts_inner` without its limit. -/
def pendingAlerts (db : Database) : List MonitorRun :=
  ((db.runs.toList.map (·.2)).filter (·.alertPending)).map (·.run)

end MetricBackend.MongoMonitors
