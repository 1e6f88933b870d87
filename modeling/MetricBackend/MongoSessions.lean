import MetricBackend.PortsSessions

/-! The Mongo session store of `mongo/src/sessions.rs`. Its commands are not grouped in a transaction:
an operation that fails keeps what it wrote before, so it returns the store it leaves beside its
result. The `_id` of a statistics document is a digest of its project, release, environment and hour,
which stand for it here. -/

namespace MetricBackend.MongoSessions

/-- A session document: its fields and the field `x` of the TTL index. -/
structure SessionDocument where
  record : SessionRecord
  x : Option Timestamp
deriving DecidableEq

structure SessionStore where
  retention : SessionRetention
  sessions : Table SessionId SessionDocument
  stats : Table HealthKey HealthRow

/-- `timestamp_add_days`. -/
def timestampAddDays (timestamp : Timestamp) (days : Nat) : Except SignalStoreError Timestamp :=
  atMillis (timestamp.unixMillis + days * dayMillis)

/-! ### Rebuilding -/

/-- The project's sessions that started in the range, in the order of the cursor. -/
def startedIn (sessions : Table SessionId SessionDocument) (projectId : ProjectId) (start stop : Int) :
    List SessionRecord :=
  (sessions.toList.map (·.2.record)).filter fun record =>
    record.projectId = projectId ∧ start ≤ record.startedAt.unixMillis
      ∧ record.startedAt.unixMillis < stop

/-- The counts and sketches of a bucket of `rebuild_inner`. -/
structure HealthBucket where
  sessions : Nat
  crashed : Nat
  abnormal : Nat
  exited : Nat
  userSketch : UserSketch
  crashedUserSketch : UserSketch

def HealthBucket.empty : HealthBucket := ⟨0, 0, 0, 0, 0, 0⟩

def sketchUser (sketch : UserSketch) (record : SessionRecord) : UserSketch :=
  record.userDigest.elim sketch (UserSketch.insert sketch)

/-- One session of the loop of `rebuild_inner`. -/
def HealthBucket.add (bucket : HealthBucket) (record : SessionRecord) : HealthBucket where
  sessions := bucket.sessions + 1
  crashed := bucket.crashed + (decide (record.state = .crashed)).toNat
  abnormal := bucket.abnormal + (decide (record.state = .abnormal)).toNat
  exited := bucket.exited + (decide (record.state = .exited)).toNat
  userSketch := sketchUser bucket.userSketch record
  crashedUserSketch :=
    if record.state = .crashed then sketchUser bucket.crashedUserSketch record
    else bucket.crashedUserSketch

/-- `encode_health`. -/
def encodeHealth (hour : Int) (bucket : HealthBucket) (retentionDays : Nat) :
    Except SignalStoreError HealthRow := do
  let hour ← atMillis hour
  failIf (i64Max < bucket.sessions ∨ i64Max < bucket.crashed ∨ i64Max < bucket.abnormal
    ∨ i64Max < bucket.exited) .invalidData
  let expireAt ← timestampAddDays hour retentionDays
  return {
    sessions := bucket.sessions
    crashed := bucket.crashed
    abnormal := bucket.abnormal
    exited := bucket.exited
    userSketch := bucket.userSketch
    crashedUserSketch := bucket.crashedUserSketch
    expireAt := expireAt }

/-- The first and the last exclusive hour of a range: a bound inside an hour takes the whole hour in. -/
def wholeHours (start stop : Timestamp) : Int × Int :=
  (hourOf start, hourOf stop + if stop.unixMillis % hourMillis ≠ 0 then hourMillis else 0)

/-- The filter of `delete_many`. -/
def inRange (projectId : ProjectId) (hours : Int × Int) (key : HealthKey) : Prop :=
  key.project = projectId ∧ hours.1 ≤ key.hour ∧ key.hour < hours.2

instance (projectId : ProjectId) (hours : Int × Int) : DecidablePred (inRange projectId hours) :=
  fun _ => inferInstanceAs (Decidable (_ ∧ _ ∧ _))

def buckets (sessions : Table SessionId SessionDocument) (projectId : ProjectId) (hours : Int × Int) :
    Table HealthKey HealthBucket :=
  Table.groupFold SessionRecord.healthKey HealthBucket.empty HealthBucket.add ∅
    (startedIn sessions projectId hours.1 hours.2)

/-- The documents that `rebuild_inner` inserts. -/
def encodeBuckets (buckets : Table HealthKey HealthBucket) (retentionDays : Nat) :
    Except SignalStoreError (List (HealthKey × HealthRow)) :=
  buckets.toList.mapM fun bucket => do
    let row ← encodeHealth bucket.1.hour bucket.2 retentionDays
    return (bucket.1, row)

/-- `rebuild_inner`: the documents of the range are deleted before their replacements are encoded. -/
def rebuild (store : SessionStore) (projectId : ProjectId) (start stop : Timestamp) :
    SessionStore × Except SignalStoreError Unit :=
  if stop ≤ start then (store, .error .invalidData)
  else
    let hours := wholeHours start stop
    let kept := store.stats.filter fun key _ => ¬ inRange projectId hours key
    match encodeBuckets (buckets store.sessions projectId hours)
        store.retention.sessionStatsHourlyDays with
    | .error error => ({ store with stats := kept }, .error error)
    | .ok documents =>
        let stats := documents.foldl (fun stats row => stats.insert row.1 row.2) kept
        ({ store with stats := stats }, .ok ())

/-! ### Persisting -/

abbrev HealthRanges : Type := Table ProjectId (Timestamp × Timestamp)

/-- One update of the loop of `health_ranges`. -/
def widenRange (ranges : HealthRanges) (update : SessionUpdate) : Except SignalStoreError HealthRanges := do
  let start ← atMillis (hourOf update.startedAt)
  let stop ← atMillis (hourOf update.startedAt + hourMillis)
  return ranges.insert update.projectId
    (ranges[update.projectId]?.elim (start, stop) fun range => (min range.1 start, max range.2 stop))

def healthRanges (updates : List SessionUpdate) : Except SignalStoreError HealthRanges :=
  updates.foldlM widenRange ∅

def repairHealthRanges (store : SessionStore) (ranges : HealthRanges) :
    SessionStore × Except SignalStoreError Unit :=
  runUntilError (fun store range => rebuild store range.1 range.2.1 range.2.2) store ranges.toList

structure Merge where
  records : Table SessionId SessionRecord
  changed : Std.ExtTreeSet SessionId compare
  outcomes : List DurableOutcome

def mergeUpdate (record : Option SessionRecord) (update : SessionUpdate) :
    Except SignalStoreError (SessionRecord × Bool) :=
  match record with
  | some record => (record.merge update).mapError mergeError
  | none => do
      let record ← invalid (SessionRecord.fromUpdate update)
      return (record, true)

/-- One pass of the merge loop of `persist_inner`. -/
def applyUpdate (merge : Merge) (update : SessionUpdate) : Except SignalStoreError Merge := do
  let (record, changed) ← mergeUpdate merge.records[update.id]? update
  return {
    records := merge.records.insert update.id record
    changed := if changed then merge.changed.insert update.id else merge.changed
    outcomes := merge.outcomes ++ [if changed then .accepted else .duplicate] }

/-- The sessions found by the identities of the batch. -/
def loadSessions (store : SessionStore) (updates : List SessionUpdate) : Table SessionId SessionRecord :=
  (store.sessions.filter fun id _ => id ∈ updates.map (·.id)).map fun _ document => document.record

/-- `persist_inner` before its first write. -/
def mergeBatch (store : SessionStore) (updates : List SessionUpdate) :
    Except SignalStoreError (HealthRanges × Merge) := do
  updates.forM fun update => invalid update.validate
  let ranges ← healthRanges updates
  let merge ← updates.foldlM applyUpdate ⟨loadSessions store updates, ∅, []⟩
  return (ranges, merge)

/-- `encode_session`. -/
def encodeSession (record : SessionRecord) (retention : SessionRetention) :
    Except SignalStoreError SessionDocument := do
  failIf (record.sequence.any (i64Max < ·) ∨ record.durationMs.any (i64Max < ·)) .invalidData
  match record.finishedAt with
  | none => return ⟨record, none⟩
  | some finished =>
      let expireAt ← timestampAddDays finished retention.sessionsDays
      return ⟨record, if retention.archive then none else some expireAt⟩

def stateDelta (record : SessionRecord) (state : SessionState) (delta : Int) : Int :=
  if record.state = state then delta else 0

/-- The upsert of `apply_health_delta`. -/
def healthAfter (stored : Option HealthRow) (expireAt : Timestamp) (record : SessionRecord)
    (delta : Int) : HealthRow :=
  let row := stored.getD ⟨0, 0, 0, 0, 0, 0, expireAt⟩
  { row with
    sessions := row.sessions + delta
    crashed := row.crashed + stateDelta record .crashed delta
    abnormal := row.abnormal + stateDelta record .abnormal delta
    exited := row.exited + stateDelta record .exited delta
    userSketch := if 0 < delta then sketchUser row.userSketch record else row.userSketch
    crashedUserSketch :=
      if 0 < delta ∧ record.state = .crashed then sketchUser row.crashedUserSketch record
      else row.crashedUserSketch }

def applyHealthDelta (store : SessionStore) (step : SessionRecord × Int) :
    SessionStore × Except SignalStoreError Unit :=
  let (record, delta) := step
  let expireAt := do
    let hour ← atMillis (hourOf record.startedAt)
    timestampAddDays hour store.retention.sessionStatsHourlyDays
  match expireAt with
  | .error error => (store, .error error)
  | .ok expireAt =>
      let row := healthAfter store.stats[record.healthKey]? expireAt record delta
      ({ store with stats := store.stats.insert record.healthKey row }, .ok ())

/-- The deltas of `apply_health_transitions`: out of the old record, into the new one. -/
def healthTransitions (before : Table SessionId SessionRecord) (merge : Merge) :
    List (SessionRecord × Int) :=
  merge.changed.toList.flatMap fun id =>
    (before[id]?.toList.map (·, -1)) ++ merge.records[id]?.toList.map (·, 1)

/-- The bulk write of the changed sessions and the statistics after it. -/
def writeBatch (store : SessionStore) (updates : List SessionUpdate) (ranges : HealthRanges)
    (merge : Merge) : SessionStore × Except SignalStoreError Unit :=
  let documents := (merge.changed.toList.filterMap (merge.records[·]?)).mapM fun record => do
    let document ← encodeSession record store.retention
    return (record.id, document)
  match documents with
  | .error error => (store, .error error)
  | .ok documents =>
      let written := { store with
        sessions := documents.foldl (fun stored row => stored.insert row.1 row.2) store.sessions }
      match runUntilError applyHealthDelta written
          (healthTransitions (loadSessions store updates) merge) with
      | (after, .ok ()) => (after, .ok ())
      | (after, .error _) => repairHealthRanges after ranges

/-- `persist_inner`. -/
def persist (store : SessionStore) (updates : List SessionUpdate) :
    SessionStore × Except SignalStoreError (List DurableOutcome) :=
  match mergeBatch store updates with
  | .error error => (store, .error error)
  | .ok (ranges, merge) =>
      let (after, result) :=
        if merge.changed.isEmpty then repairHealthRanges store ranges
        else writeBatch store updates ranges merge
      (after, result.map fun _ => merge.outcomes)

/-! ### Expiry -/

/-- The TTL indexes remove the documents whose time has come. -/
def expire (store : SessionStore) (now : Timestamp) : SessionStore :=
  { store with
    sessions := store.sessions.filter fun _ document => document.x.all (now < ·)
    stats := store.stats.filter fun _ row => now < row.expireAt }

end MetricBackend.MongoSessions
