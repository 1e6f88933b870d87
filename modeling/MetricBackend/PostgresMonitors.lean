import MetricBackend.LibTable
import MetricBackend.PortsMonitors

/-! The Postgres monitor store of `postgres/src/monitors.rs`: definitions, run merges, projections and
the three workers, each a transaction on the monitor and run tables. A transaction that fails leaves
the tables as they were, so a failed operation is an error and no state. Configuration bodies are
kept decoded; only the size of their canonical JSON is computed. -/

namespace MetricBackend

inductive ProjectAcceptanceState where
  | active
  | disabled
  | pendingDelete
  | purging
  | deleted
deriving DecidableEq, Repr

/-- `state IN (0, 1)`. -/
def ProjectAcceptanceState.isLive : ProjectAcceptanceState → Bool
  | active => true
  | disabled => true
  | _ => false

namespace PostgresMonitors

def maxConfig : Nat := 64 * 1024
def maxBatch : Nat := 10000
def maxBatchBytes : Nat := 16 * 1024 * 1024

/-! ### Configuration size -/

/-- The canonical body of `encode_config`. -/
def configJson (monitor : MonitorDefinition) : Text :=
  let uptime := match monitor.uptime with
    | none => "null".toList
    | some uptime => jsonArray [
        jsonString uptime.endpoint,
        jsonString uptime.method.asStr,
        jsonNumber uptime.expectedStatusMin,
        jsonNumber uptime.expectedStatusMax,
        jsonNumber uptime.timeoutSeconds,
        jsonNumber uptime.maxRedirects,
        jsonArray (uptime.headers.map fun header => jsonArray [
          jsonString header.name,
          jsonArray (header.value.map fun byte => jsonNumber byte.toNat),
          jsonBool header.sensitive])]
  jsonArray [
    jsonString monitor.config.schedule.kind,
    jsonString monitor.config.schedule.value,
    jsonNumber monitor.config.checkinMarginSeconds,
    jsonNumber monitor.config.maxRuntimeSeconds,
    uptime]

def configSize (monitor : MonitorDefinition) : Nat := byteLength (configJson monitor)

/-- `encode_config`: the checks of a definition before it is written, and the size of its body. -/
def encodeConfig (monitor : MonitorDefinition) : Except SignalStoreError Nat := do
  invalid monitor.validate
  reparseSchedule monitor.config.schedule
  failIf (maxConfig < configSize monitor) .invalidData
  return configSize monitor

/-! ### Tables -/

structure StoredMonitor where
  definition : MonitorDefinition
  lease : Option Timestamp
deriving DecidableEq

structure MonitorStore where
  runsDays : Nat
  projects : Table ProjectId ProjectAcceptanceState
  monitors : Table MonitorId StoredMonitor
  runs : Table MonitorRunId MonitorRun

def MonitorStore.isLive (store : MonitorStore) (project : ProjectId) : Bool :=
  store.projects[project]?.any (·.isLive)

/-- `signal_storage::lock_projects`. -/
def lockProjects (store : MonitorStore) (projects : List ProjectId) : Except SignalStoreError Unit :=
  if projects.all store.isLive then .ok () else .error .notFound

def positive (value : Nat) : Except SignalStoreError Nat :=
  if value = 0 ∨ i64Max < value then .error .invalidData else .ok value

/-- `decode_monitor`, which checks a row again. -/
def decodeMonitor (row : StoredMonitor) : Except SignalStoreError StoredMonitor := do
  invalid row.definition.validate
  let _ ← due row.definition
  return row

def decodeRun (row : MonitorRun) : Except SignalStoreError MonitorRun := do
  invalid row.validate
  return row

/-- The row loop of `load_monitors`: `bytes` have been read before these rows. -/
def decodeMonitors (truncate : Bool) :
    Nat → List (MonitorId × StoredMonitor) → Table MonitorId StoredMonitor →
      Except SignalStoreError (Table MonitorId StoredMonitor)
  | _, [], values => .ok values
  | bytes, (id, row) :: rest, values =>
      let responseBytes := bytes + configSize row.definition + 512
      if maxBatchBytes < responseBytes then
        if truncate then .ok values else .error .capacity
      else do
        let value ← decodeMonitor row
        decodeMonitors truncate responseBytes rest (values.insert id value)

def loadMonitors (store : MonitorStore) (ids : List MonitorId) (truncate : Bool) :
    Except SignalStoreError (Table MonitorId StoredMonitor) :=
  decodeMonitors truncate 0 (store.monitors.selectAny ids maxBatch) ∅

def loadRuns (store : MonitorStore) (ids : List MonitorRunId) :
    Except SignalStoreError (Table MonitorRunId MonitorRun) :=
  (store.runs.selectAny ids maxBatch).foldlM (fun values row => do
    return values.insert row.1 (← decodeRun row.2)) ∅

/-- One row of `write_monitors`. -/
def writeMonitor (monitors : Table MonitorId StoredMonitor) (value : StoredMonitor) :
    Except SignalStoreError (Table MonitorId StoredMonitor) := do
  let _ ← encodeConfig value.definition
  let _ ← due value.definition
  let _ ← positive value.definition.revision
  failIf (monitors[value.definition.id]?.any (·.definition.projectId ≠ value.definition.projectId))
    .conflict
  return monitors.insert value.definition.id value

/-- The row with the outcome columns of another, which are all that `write_runs` updates. -/
def withOutcome (row value : MonitorRun) : MonitorRun := { row with
  status := value.status
  finishedAt := value.finishedAt
  durationMs := value.durationMs
  receivedAt := value.receivedAt
  deleteAt := value.deleteAt }

/-- One row of `write_runs`: a new row, or the outcome columns of the existing one. -/
def writeRun (runs : Table MonitorRunId MonitorRun) (value : MonitorRun) :
    Except SignalStoreError (Table MonitorRunId MonitorRun) := do
  invalid value.validate
  match runs[value.id]? with
  | none => return runs.insert value.id value
  | some row =>
      failIf (row.projectId ≠ value.projectId ∨ row.monitorId ≠ value.monitorId ∨
        row.source ≠ value.source ∨ row.checkInId ≠ value.checkInId) .conflict
      return runs.insert value.id (withOutcome row value)

def writeMonitors (monitors : Table MonitorId StoredMonitor) (values : List StoredMonitor) :
    Except SignalStoreError (Table MonitorId StoredMonitor) := values.foldlM writeMonitor monitors

def writeRuns (runs : Table MonitorRunId MonitorRun) (values : List MonitorRun) :
    Except SignalStoreError (Table MonitorRunId MonitorRun) := values.foldlM writeRun runs

/-! ### Run merges and projections -/

/-- The stored run once a terminal update has been merged into it: identity, start and source stay. -/
def mergedRun (existing incoming : MonitorRun) : MonitorRun := { existing with
  status := incoming.status
  finishedAt := incoming.finishedAt
  receivedAt := incoming.receivedAt
  durationMs := incoming.durationMs.or existing.durationMs
  deleteAt := incoming.deleteAt.or existing.deleteAt }

/-- `merge` with a stored run: nothing when the stored run stays. -/
def mergeExisting (existing incoming : MonitorRun) : Except SignalStoreError (Option MonitorRun) := do
  failIf (existing.projectId ≠ incoming.projectId ∨ existing.monitorId ≠ incoming.monitorId ∨
    existing.checkInId ≠ incoming.checkInId ∨ existing.source ≠ incoming.source) .conflict
  if existing.status ≠ .inProgress ∨ !incoming.status.isTerminal then
    return none
  else
    invalid (mergedRun existing incoming).validate
    return some (mergedRun existing incoming)

/-- `merge`: the run to store, or nothing when the stored one stays. -/
def merge (existing : Option MonitorRun) (incoming : MonitorRun) :
    Except SignalStoreError (Option MonitorRun) := do
  invalid incoming.validate
  match existing with
  | none => return some incoming
  | some existing => mergeExisting existing incoming

/-- The next expected time once a run is projected: only a terminal run moves it. -/
def projectedNext (definition : MonitorDefinition) (run : MonitorRun) :
    Except SignalStoreError Timestamp :=
  if run.status.isTerminal then invalid (definition.config.schedule.nextAfter run.receivedAt)
  else .ok definition.nextExpectedAt

/-- `project_run`: the monitor afterwards and whether the run was projected on it. -/
def projectRun (monitor : StoredMonitor) (run : MonitorRun) :
    Except SignalStoreError (StoredMonitor × Bool) :=
  if monitor.definition.lastCheckInAt.any (run.receivedAt < ·) then .ok (monitor, false)
  else do
    let next ← projectedNext monitor.definition run
    let definition := { monitor.definition with
      lastRunId := some run.id
      lastStatus := some run.status
      lastCheckInAt := some run.receivedAt
      updatedAt := run.receivedAt
      nextExpectedAt := next }
    invalid definition.validate
    return (⟨definition,
      if run.status.isTerminal ∧ definition.isUptime then none else monitor.lease⟩, true)

/-! ### `persist` -/

/-- The definition that replaces a stored one: history and creation time stay, the revision counts
on. -/
def supersede (existing incoming : MonitorDefinition) : MonitorDefinition := { incoming with
  createdAt := existing.createdAt
  revision := existing.revision + 1
  lastRunId := existing.lastRunId
  lastStatus := existing.lastStatus
  lastCheckInAt := existing.lastCheckInAt }

/-- Adopts the definition of an update over the monitor known so far, which keeps configuration owned
by the web interface. -/
def adoptDefinition (existing : Option StoredMonitor) (incoming : MonitorDefinition) :
    Except SignalStoreError (Option StoredMonitor) :=
  match existing with
  | none => do
      let _ ← encodeConfig incoming
      return some ⟨incoming, none⟩
  | some existing => do
      failIf (existing.definition.projectId ≠ incoming.projectId) .conflict
      if existing.definition.managedByWeb then
        return none
      else
        failIf (2 ^ 64 ≤ existing.definition.revision + 1) .invalidData
        let _ ← encodeConfig (supersede existing.definition incoming)
        return some ⟨supersede existing.definition incoming, existing.lease⟩

/-- The monitors known so far and those that have to be written. -/
structure Monitors where
  known : Table MonitorId StoredMonitor
  changed : Std.ExtTreeSet MonitorId compare

/-- One pass of the definition loop of `persist`. -/
def resolveDefinition (state : Monitors) (update : MonitorUpdate) : Except SignalStoreError Monitors :=
  match update.definition with
  | none => .ok state
  | some incoming => do
      match ← adoptDefinition state.known[incoming.id]? incoming with
      | none => return state
      | some adopted => return {
          known := state.known.insert incoming.id adopted
          changed := state.changed.insert incoming.id }

/-- The loop state of `persist` over the runs of a batch. -/
structure Batch where
  runs : Table MonitorRunId MonitorRun
  changedRuns : Table MonitorRunId MonitorRun
  projections : Table MonitorId MonitorRun
  outcomes : List DurableOutcome

/-- The batch after one merge: the stored run was kept, or it has to be written and projected. -/
def Batch.record (batch : Batch) : Option MonitorRun → Batch
  | none => { batch with outcomes := batch.outcomes ++ [.duplicate] }
  | some run => {
      runs := batch.runs.insert run.id run
      changedRuns := batch.changedRuns.insert run.id run
      projections :=
        if batch.projections[run.monitorId]?.all (·.receivedAt ≤ run.receivedAt) then
          batch.projections.insert run.monitorId run
        else batch.projections
      outcomes := batch.outcomes ++ [.accepted] }

/-- The run of an update as it is merged: its monitor is known and has given it a deadline. -/
def admitRun (monitors : Table MonitorId StoredMonitor) (run : MonitorRun) :
    Except SignalStoreError MonitorRun :=
  match monitors[run.monitorId]? with
  | none => .error .notFound
  | some monitor => do
      failIf (monitor.definition.projectId ≠ run.projectId) .conflict
      withTimeout monitor.definition.config run

/-- One pass of the run loop of `persist`. -/
def mergeUpdate (monitors : Table MonitorId StoredMonitor) (batch : Batch) (update : MonitorUpdate) :
    Except SignalStoreError Batch := do
  let incoming ← admitRun monitors update.run
  let merged ← merge batch.runs[incoming.id]? incoming
  return batch.record merged

/-- One pass of the projection loop of `persist`. -/
def projectLatest (state : Monitors) (projection : MonitorId × MonitorRun) :
    Except SignalStoreError Monitors :=
  match state.known[projection.1]? with
  | none => .error .notFound
  | some monitor => do
      let projected ← projectRun monitor projection.2
      return {
        known := state.known.insert projection.1 projected.1
        changed := if projected.2 then state.changed.insert projection.1 else state.changed }

/-- The bytes one update adds to what its batch is charged for. -/
def chargeUpdate (bytes : Nat) (update : MonitorUpdate) : Except SignalStoreError Nat := do
  invalid update.validate
  match update.definition with
  | none => return bytes
  | some definition => return bytes + (← encodeConfig definition)

/-- The checks of `persist` before its transaction. -/
def admitBatch (updates : List MonitorUpdate) : Except SignalStoreError Unit := do
  failIf (maxBatch < updates.length) .invalidData
  let bytes ← updates.foldlM chargeUpdate (updates.length * 512)
  failIf (maxBatchBytes < bytes) .capacity

/-- The transaction of `persist`. -/
def persistBatch (store : MonitorStore) (updates : List MonitorUpdate) :
    Except SignalStoreError (MonitorStore × List DurableOutcome) := do
  lockProjects store (updates.map (·.run.projectId))
  let loaded ← loadMonitors store (updates.map (·.run.monitorId)) false
  let resolved ← updates.foldlM resolveDefinition ⟨loaded, ∅⟩
  let runs ← loadRuns store (updates.map (·.run.id))
  let batch ← updates.foldlM (mergeUpdate resolved.known) ⟨runs, ∅, ∅, []⟩
  let projected ← batch.projections.toList.foldlM projectLatest resolved
  let monitors ← writeMonitors store.monitors
    (projected.changed.toList.filterMap (projected.known[·]?))
  let runs ← writeRuns store.runs (batch.changedRuns.toList.map Prod.snd)
  return ({ store with monitors := monitors, runs := runs }, batch.outcomes)

def persist (store : MonitorStore) (updates : List MonitorUpdate) :
    Except SignalStoreError (MonitorStore × List DurableOutcome) :=
  if updates.isEmpty then .ok (store, [])
  else do
    admitBatch updates
    persistBatch store updates

/-- The store after an operation: what it committed, or the same store when it failed. -/
def committed {α : Type} (store : MonitorStore)
    (result : Except SignalStoreError (MonitorStore × α)) : MonitorStore :=
  match result with
  | .ok (next, _) => next
  | .error _ => store

/-- `upsert_monitor`. -/
def upsert (store : MonitorStore) (definition : MonitorDefinition) :
    Except SignalStoreError MonitorStore := do
  let _ ← encodeConfig definition
  lockProjects store [definition.projectId]
  let previous ← loadMonitors store [definition.id] false
  failIf (previous[definition.id]?.any (·.definition.projectId ≠ definition.projectId)) .conflict
  let monitors ← writeMonitors store.monitors
    [⟨definition, previous[definition.id]?.bind (·.lease)⟩]
  return { store with monitors := monitors }

/-! ### Workers

Each worker takes the candidates its query found. The query runs before the transaction, which
checks every candidate again. -/

def workerLimit (limit maximum : Nat) : Except SignalStoreError Unit :=
  if 1 ≤ limit ∧ limit ≤ maximum then .ok () else .error .invalidData

/-- The order `(due_at, id)` of the queries and of the workers. -/
def dueBefore (left right : StoredMonitor) : Bool :=
  match (due left.definition).toOption, (due right.definition).toOption with
  | none, none => left.definition.id ≤ right.definition.id
  | none, some _ => true
  | some _, none => false
  | some leftDue, some rightDue =>
      leftDue < rightDue ∨ (leftDue = rightDue ∧ left.definition.id ≤ right.definition.id)

/-- The loop state of the timeout worker. -/
structure Terminalized where
  changed : Table MonitorId StoredMonitor
  changedRuns : Table MonitorRunId MonitorRun
  count : Nat

/-- The run as the timeout worker leaves it. -/
def timedOut (run : MonitorRun) (now : Timestamp) : MonitorRun := { run with
  status := .timeout
  finishedAt := some now
  receivedAt := now
  durationMs := some (now.unixMillis - run.startedAt.unixMillis).toNat }

/-- One pass of `Work::Timeout`. -/
def terminalizeRun (store : MonitorStore) (now : Timestamp)
    (monitors : Table MonitorId StoredMonitor) (state : Terminalized) (run : MonitorRun) :
    Except SignalStoreError Terminalized :=
  if !store.isLive run.projectId ∨ run.status ≠ .inProgress ∨ run.timeoutAt.all (now < ·) then
    .ok state
  else match monitors[run.monitorId]? with
    | none => .ok state
    | some monitor => do
        failIf (now.unixMillis < run.startedAt.unixMillis) .invalidData
        invalid (timedOut run now).validate
        let projected ← projectRun (state.changed[run.monitorId]?.getD monitor) (timedOut run now)
        return {
          changed := state.changed.insert run.monitorId projected.1
          changedRuns := state.changedRuns.insert run.id (timedOut run now)
          count := state.count + 1 }

/-- `work` with `Work::Timeout`. -/
def workTimeout (store : MonitorStore) (now : Timestamp) (candidates : List MonitorRunId) :
    Except SignalStoreError (MonitorStore × Nat) := do
  let allowed := candidates.filter fun id => store.runs[id]?.any fun run => store.isLive run.projectId
  let selected ← loadRuns store allowed
  let monitors ← loadMonitors store (selected.toList.map (·.2.monitorId)) true
  let done ← (selected.toList.map Prod.snd).foldlM (terminalizeRun store now monitors) ⟨∅, ∅, 0⟩
  let storedMonitors ← writeMonitors store.monitors (done.changed.toList.map Prod.snd)
  let storedRuns ← writeRuns store.runs (done.changedRuns.toList.map Prod.snd)
  return ({ store with monitors := storedMonitors, runs := storedRuns }, done.count)

/-- The run that records a slot nobody checked in for. -/
def missedRun (blake3 : List (BitVec 8) → BitVec 256) (definition : MonitorDefinition)
    (now deleteAt : Timestamp) : MonitorRun where
  id := MonitorRunId.missed blake3 definition.id definition.nextExpectedAt
  projectId := definition.projectId
  monitorId := definition.id
  checkInId := none
  status := .missed
  source := .scheduler
  scheduledFor := some definition.nextExpectedAt
  startedAt := definition.nextExpectedAt
  finishedAt := some now
  durationMs := none
  receivedAt := now
  releaseId := none
  timeoutAt := none
  deleteAt := some deleteAt
  httpStatus := none
  uptimeFailure := none

/-- Whether a worker passes over a monitor: its project is gone, it is disabled or not due yet. -/
def notDue (store : MonitorStore) (now : Timestamp) (definition : MonitorDefinition) :
    Except SignalStoreError Bool :=
  if !store.isLive definition.projectId ∨ !definition.enabled then .ok true
  else do
    let dueAt ← due definition
    return now < dueAt

/-- One pass of `Work::Missed` over a monitor that is due. -/
def recordMissed (blake3 : List (BitVec 8) → BitVec 256) (store : MonitorStore) (now : Timestamp)
    (missedRuns : Table MonitorRunId MonitorRun) (state : Terminalized) (old : StoredMonitor) :
    Except SignalStoreError Terminalized := do
  let deleteAt ← addDays now store.runsDays
  let run := missedRun blake3 old.definition now deleteAt
  let merged ← merge missedRuns[run.id]? run
  let projected ← projectRun old run
  return {
    changed := state.changed.insert old.definition.id projected.1
    changedRuns := match merged with
      | none => state.changedRuns
      | some merged => state.changedRuns.insert run.id merged
    count := state.count + 1 }

/-- One pass of `Work::Missed`. -/
def materializeMissed (blake3 : List (BitVec 8) → BitVec 256) (store : MonitorStore) (now : Timestamp)
    (missedRuns : Table MonitorRunId MonitorRun) (state : Terminalized) (old : StoredMonitor) :
    Except SignalStoreError Terminalized := do
  let skipped ← notDue store now old.definition
  if skipped ∨ old.definition.isUptime then
    return state
  else
    recordMissed blake3 store now missedRuns state old

/-- `work` with `Work::Missed`. -/
def workMissed (blake3 : List (BitVec 8) → BitVec 256) (store : MonitorStore) (now : Timestamp)
    (candidates : List MonitorId) : Except SignalStoreError (MonitorStore × Nat) := do
  let allowed := candidates.filter fun id =>
    store.monitors[id]?.any fun row => store.isLive row.definition.projectId
  let monitors ← loadMonitors store allowed true
  let rows := monitors.toList.map Prod.snd
  let missedRuns ← loadRuns store ((rows.filter (!·.definition.isUptime)).map fun row =>
    MonitorRunId.missed blake3 row.definition.id row.definition.nextExpectedAt)
  let done ← (rows.insertionSort fun left right => dueBefore left right).foldlM
    (materializeMissed blake3 store now missedRuns) ⟨∅, ∅, 0⟩
  let storedMonitors ← writeMonitors store.monitors (done.changed.toList.map Prod.snd)
  let storedRuns ← writeRuns store.runs (done.changedRuns.toList.map Prod.snd)
  return ({ store with monitors := storedMonitors, runs := storedRuns }, done.count)

/-- One pass of `Work::Uptime`. -/
def claimUptime (store : MonitorStore) (now leaseUntil : Timestamp)
    (state : Table MonitorId StoredMonitor × List MonitorDefinition) (old : StoredMonitor) :
    Except SignalStoreError (Table MonitorId StoredMonitor × List MonitorDefinition) := do
  let skipped ← notDue store now old.definition
  if skipped ∨ !old.definition.isUptime ∨ old.lease.any (now < ·) then
    return state
  else
    return (state.1.insert old.definition.id { old with lease := some leaseUntil },
      state.2 ++ [old.definition])

/-- `work` with `Work::Uptime`. -/
def workUptime (store : MonitorStore) (now leaseUntil : Timestamp) (candidates : List MonitorId) :
    Except SignalStoreError (MonitorStore × List MonitorDefinition) := do
  let allowed := candidates.filter fun id =>
    store.monitors[id]?.any fun row => store.isLive row.definition.projectId
  let monitors ← loadMonitors store allowed true
  let claims ←
    ((monitors.toList.map Prod.snd).insertionSort fun left right => dueBefore left right).foldlM
      (claimUptime store now leaseUntil) (∅, [])
  let storedMonitors ← writeMonitors store.monitors (claims.1.toList.map Prod.snd)
  return ({ store with monitors := storedMonitors }, claims.2)

/-! ### Worker queries -/

/-- The in-progress runs of live projects whose deadline has passed, earliest deadline first. -/
def timeoutCandidates (store : MonitorStore) (now : Timestamp) (limit : Nat) : List MonitorRunId :=
  let rows := (store.runs.toList.map Prod.snd).filter fun run =>
    run.status = .inProgress ∧ run.timeoutAt.any (· ≤ now) ∧ store.isLive run.projectId
  let ordered := rows.insertionSort fun left right =>
    left.timeoutAt.any fun leftAt => right.timeoutAt.any fun rightAt =>
      leftAt < rightAt ∨ (leftAt = rightAt ∧ left.id ≤ right.id)
  (ordered.take limit).map (·.id)

/-- The enabled monitors of one kind in live projects that are due, earliest first. -/
def dueCandidates (store : MonitorStore) (now : Timestamp) (limit : Nat) (uptime : Bool) :
    List MonitorId :=
  let rows := (store.monitors.toList.map Prod.snd).filter fun row =>
    row.definition.isUptime = uptime ∧ row.definition.enabled ∧
      (due row.definition).toOption.any (· ≤ now) ∧ (!uptime ∨ row.lease.all (· ≤ now)) ∧
      store.isLive row.definition.projectId
  ((rows.insertionSort fun left right => dueBefore left right).take limit).map (·.definition.id)

def terminalizeDueTimeouts (store : MonitorStore) (now : Timestamp) (batchSize : Nat) :
    Except SignalStoreError (MonitorStore × Nat) := do
  workerLimit batchSize maxBatch
  workTimeout store now (timeoutCandidates store now batchSize)

def materializeDueMissed (blake3 : List (BitVec 8) → BitVec 256) (store : MonitorStore)
    (now : Timestamp) (batchSize : Nat) : Except SignalStoreError (MonitorStore × Nat) := do
  workerLimit batchSize maxBatch
  workMissed blake3 store now (dueCandidates store now batchSize false)

def claimDueUptime (store : MonitorStore) (now leaseUntil : Timestamp) (limit : Nat) :
    Except SignalStoreError (MonitorStore × List MonitorDefinition) := do
  workerLimit limit 1000
  failIf (leaseUntil ≤ now) .invalidData
  workUptime store now leaseUntil (dueCandidates store now limit true)

end PostgresMonitors
end MetricBackend
