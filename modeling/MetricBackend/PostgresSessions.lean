import MetricBackend.PortsSessions
import MetricBackend.PostgresMonitors

/-! The Postgres session store of `postgres/src/sessions.rs`. A batch is one transaction: its result is
the store it commits, or the error it is rolled back with. -/

namespace MetricBackend.PostgresSessions

def maxBatch : Nat := 10000

abbrev SessionKey : Type := ProjectId ×ₗ SessionId

def SessionKey.of (projectId : ProjectId) (id : SessionId) : SessionKey := toLex (projectId, id)

def recordKey (record : SessionRecord) : SessionKey := .of record.projectId record.id

def updateKey (update : SessionUpdate) : SessionKey := .of update.projectId update.id

abbrev Sessions : Type := Table SessionKey SessionRecord

abbrev HealthStats : Type := Table HealthKey HealthRow

structure SessionStore where
  retention : SessionRetention
  projects : Table ProjectId ProjectAcceptanceState
  sessions : Sessions
  stats : HealthStats

def SessionStore.isLive (store : SessionStore) (project : ProjectId) : Bool :=
  store.projects[project]?.any (·.isLive)

def lockProjects (store : SessionStore) (projects : List ProjectId) : Except SignalStoreError Unit :=
  failIf (¬ projects.all store.isLive) .notFound

/-- The checks of a row, those of `decode` and those of the table. -/
def wellFormed (record : SessionRecord) : Bool :=
  ¬ (record.lastUpdate < record.startedAt
    ∨ record.state.isTerminal ≠ record.finishedAt.isSome
    ∨ record.finishedAt.any (fun time => time < record.startedAt ∨ record.lastUpdate < time)
    ∨ (record.finishedAt.isNone ∧ record.durationMs.isSome))

def decode (record : SessionRecord) : Except SignalStoreError SessionRecord := do
  failIf (¬ wellFormed record) .invalidData
  return record

/-! ### Merging a batch -/

/-- One `SELECT … FOR UPDATE`. -/
def loadSession (store : SessionStore) (before : Sessions) (key : SessionKey) :
    Except SignalStoreError Sessions :=
  match store.sessions[key]? with
  | none => .ok before
  | some row => do
      let record ← decode row
      return before.insert key record

structure Merge where
  records : Sessions
  changed : Std.ExtTreeSet SessionKey compare
  outcomes : List DurableOutcome

/-- The cutoff and the age of a stale batch. -/
abbrev Staleness : Type := Int × Int

/-- A terminalizing update, evaluated again on the record it finds under the lock. -/
def restale (record : SessionRecord) (age : Int) (update : SessionUpdate) :
    Except SignalStoreError SessionUpdate := do
  let updatedAt ← atMillis (record.lastUpdate.unixMillis + age)
  let elapsed := updatedAt.unixMillis - record.startedAt.unixMillis
  failIf (elapsed < 0) .invalidData
  return { update with
    startedAt := record.startedAt
    updatedAt := updatedAt
    sequence := record.sequence
    userDigest := record.userDigest
    durationMs := some elapsed.toNat }

/-- The update a record is merged with, or none when the record is no longer stale. -/
def refreshUpdate (stale : Option Staleness) (record : Option SessionRecord) (update : SessionUpdate) :
    Except SignalStoreError (Option SessionUpdate) :=
  match stale, record with
  | none, _ => .ok (some update)
  | some _, none => .ok none
  | some (cutoff, age), some record =>
      if record.state ≠ .ok ∨ cutoff < record.lastUpdate.unixMillis then .ok none
      else some <$> restale record age update

/-- The record after an update and whether it changed. -/
def mergeUpdate (record : Option SessionRecord) (update : SessionUpdate) :
    Except SignalStoreError (SessionRecord × Bool) :=
  match record with
  | some record => (record.merge update).mapError mergeError
  | none => do
      let record ← invalid (SessionRecord.fromUpdate update)
      return (record, true)

/-- One pass of the merge loop of `persist`. -/
def applyUpdate (stale : Option Staleness) (merge : Merge) (update : SessionUpdate) :
    Except SignalStoreError Merge := do
  let key := updateKey update
  match ← refreshUpdate stale merge.records[key]? update with
  | none => return { merge with outcomes := merge.outcomes ++ [.duplicate] }
  | some update =>
      let (record, applied) ← mergeUpdate merge.records[key]? update
      return {
        records := merge.records.insert key record
        changed := if applied then merge.changed.insert key else merge.changed
        outcomes := merge.outcomes ++ [if applied then .accepted else .duplicate] }

/-! ### Writing a batch -/

/-- A counter after an increment, which neither overflows nor falls below zero. -/
def addCount (value increment : Int) : Except SignalStoreError Int := do
  failIf (i64Max < value + increment ∨ value + increment < 0) .invalidData
  return value + increment

/-- The increment of the counter of a state. -/
def stateDelta (record : SessionRecord) (state : SessionState) (delta : Int) : Int :=
  if record.state = state then delta else 0

def emptyHealth (expireAt : Timestamp) : HealthRow where
  sessions := 0
  crashed := 0
  abnormal := 0
  exited := 0
  userSketch := 0
  crashedUserSketch := 0
  expireAt := expireAt

/-- The user bits of an increment. -/
def sketched (record : SessionRecord) (row : HealthRow) : HealthRow :=
  match record.userDigest with
  | none => row
  | some user =>
      { row with
        userSketch := UserSketch.insert row.userSketch user
        crashedUserSketch :=
          if record.state = .crashed then UserSketch.insert row.crashedUserSketch user
          else row.crashedUserSketch }

/-- The `SELECT … FOR UPDATE` and the `UPDATE` of `health_delta`, with the check of the table on the states. -/
def adjustHealth (stats : HealthStats) (record : SessionRecord) (delta : Int) :
    Except SignalStoreError HealthStats :=
  match stats[record.healthKey]? with
  | none => .error .invalidData
  | some row => do
      let sessions ← addCount row.sessions delta
      let crashed ← addCount row.crashed (stateDelta record .crashed delta)
      let abnormal ← addCount row.abnormal (stateDelta record .abnormal delta)
      let exited ← addCount row.exited (stateDelta record .exited delta)
      failIf (sessions < crashed + abnormal + exited) .invalidData
      let row := if 0 < delta then sketched record row else row
      return stats.insert record.healthKey { row with
        sessions := sessions
        crashed := crashed
        abnormal := abnormal
        exited := exited }

/-- `health_delta`: an increment creates the row of the hour first. -/
def healthDelta (retention : SessionRetention) (stats : HealthStats) (record : SessionRecord)
    (delta : Int) : Except SignalStoreError HealthStats :=
  if 0 < delta then do
    let expireAt ← expiry (hourOf record.startedAt) retention.sessionStatsHourlyDays
    adjustHealth (stats.insertIfNew record.healthKey (emptyHealth expireAt)) record delta
  else adjustHealth stats record delta

/-- A conflicting row keeps its release and environment. -/
def savedRow (stored : Option SessionRecord) (record : SessionRecord) : SessionRecord :=
  match stored with
  | none => record
  | some row => { record with releaseId := row.releaseId, environmentId := row.environmentId }

/-- `save`, with the expiry of a finished session and the checks of the table. -/
def save (retention : SessionRetention) (sessions : Sessions) (record : SessionRecord) :
    Except SignalStoreError Sessions := do
  let _ ← record.finishedAt.mapM fun time => expiry time.unixMillis retention.sessionsDays
  failIf (record.durationMs.any (i64Max < ·)) .invalidData
  failIf (¬ wellFormed record) .invalidData
  return sessions.insert (recordKey record) (savedRow sessions[recordKey record]? record)

structure Tables where
  sessions : Sessions
  stats : HealthStats

def SessionStore.tables (store : SessionStore) : Tables := ⟨store.sessions, store.stats⟩

/-- One pass of the write loop of `persist`: the counters lose the session as it was before the batch
and gain it as it is now. -/
def writeChanged (retention : SessionRetention) (before records : Sessions) (tables : Tables)
    (key : SessionKey) : Except SignalStoreError Tables := do
  let record ← records[key]?.elim (.error .invalidData) .ok
  let stats ← before[key]?.elim (.ok tables.stats) fun previous =>
    healthDelta retention tables.stats previous (-1)
  let sessions ← save retention tables.sessions record
  let stats ← healthDelta retention stats record 1
  return ⟨sessions, stats⟩

/-- The batch before anything is written: the records as stored and as merged. -/
def mergeBatch (store : SessionStore) (updates : List SessionUpdate) (stale : Option Staleness) :
    Except SignalStoreError (Sessions × Merge) := do
  failIf (maxBatch < updates.length) .invalidData
  updates.forM fun update => invalid update.validate
  lockProjects store (updates.map (·.projectId))
  let before ← (updates.map updateKey).foldlM (loadSession store) ∅
  let merge ← updates.foldlM (applyUpdate stale) ⟨before, ∅, []⟩
  return (before, merge)

def writeBatch (store : SessionStore) (before : Sessions) (merge : Merge) :
    Except SignalStoreError Tables :=
  merge.changed.toList.foldlM (writeChanged store.retention before merge.records) store.tables

/-- `persist`. -/
def persist (store : SessionStore) (updates : List SessionUpdate) (stale : Option Staleness) :
    Except SignalStoreError (SessionStore × List DurableOutcome) := do
  let (before, merge) ← mergeBatch store updates stale
  let tables ← writeBatch store before merge
  return ({ store with sessions := tables.sessions, stats := tables.stats }, merge.outcomes)

/-! ### Stale sessions -/

def staleNoLater (left right : SessionKey × SessionRecord) : Prop :=
  left.2.lastUpdate ≤ right.2.lastUpdate

instance : DecidableRel staleNoLater := fun left right =>
  inferInstanceAs (Decidable (left.2.lastUpdate ≤ right.2.lastUpdate))

/-- The active sessions of live projects up to the cutoff, the oldest first. -/
def staleSessions (store : SessionStore) (cutoff : Int) : List SessionRecord :=
  (((store.sessions.toList.filter fun row => row.2.state = .ok ∧ row.2.lastUpdate.unixMillis ≤ cutoff
      ∧ store.isLive row.2.projectId).insertionSort staleNoLater).take 10000).map Prod.snd

def terminalUpdate (record : SessionRecord) : SessionUpdate where
  id := record.id
  projectId := record.projectId
  releaseId := record.releaseId
  environmentId := record.environmentId
  startedAt := record.startedAt
  updatedAt := record.lastUpdate
  state := .abnormal
  sequence := record.sequence
  durationMs := none
  userDigest := record.userDigest

/-- `terminalize_stale_sessions`, with the maximum active age in milliseconds. -/
def terminalizeStaleSessions (store : SessionStore) (now : Timestamp) (age : Int) :
    Except SignalStoreError (SessionStore × Nat) := do
  failIf (age ≤ 0 ∨ i64Max < age) .invalidData
  let cutoff := now.unixMillis - age
  let _ ← atMillis cutoff
  let records ← (staleSessions store cutoff).mapM decode
  let (store, outcomes) ← persist store (records.map terminalUpdate) (some (cutoff, age))
  return (store, outcomes.count .accepted)

end MetricBackend.PostgresSessions
