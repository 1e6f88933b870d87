import Mathlib.Data.Finset.Sort
import MetricBackend.LibTable
import MetricBackend.PostgresMonitors
import MetricBackend.PostgresEvents
import MetricBackend.PostgresIssues

/-! The durable finalization of `postgres/src/finalization.rs`. A call is one transaction that locks the
rows it reads, so calls act one after the other and a call that does not commit changes nothing. Parsing and
printing JSON and the compression are packages outside the repository and are parameters. Transitions and
activities of Issues, explicit releases and hidden environments are left out. -/

namespace MetricBackend

inductive FinalizationStoreError where
  | invalidData
  | identityCollision
  | unavailable
deriving DecidableEq, Repr

def maxReleaseProjects : Nat := 256

/-- The row of `metric.projects`, as finalization reads it. -/
structure ProjectRow where
  organizationId : OrganizationId
  state : ProjectAcceptanceState
deriving DecidableEq

/-- The row of `metric.project_catalog_usage`. -/
structure CatalogUsage where
  releaseDay : Option Int
  releaseCount : Nat
  environmentCount : Nat
deriving DecidableEq

/-- The values of `DEFAULT`. -/
def CatalogUsage.defaultValue : CatalogUsage := ⟨none, 0, 0⟩

/-- The row of `metric.issue_stats_hourly`. -/
structure HourlyRow where
  bucketId : HourBucketId
  occurrenceCount : Nat
  expireAt : Int
deriving DecidableEq

/-- The row of `metric.releases`. -/
structure ReleaseRow where
  version : Text
  createdAt : Timestamp
  activityAt : Timestamp
  firstSeen : Option Timestamp
  lastSeen : Option Timestamp
  firstEventKey : Option EventKey
  latestEventKey : Option EventKey
deriving DecidableEq

/-- The row of `metric.environments`. -/
structure EnvironmentRow where
  name : Text
  firstSeen : Timestamp
  lastSeen : Timestamp
deriving DecidableEq

abbrev IssueRef : Type := ProjectId ×ₗ IssueId
abbrev HourRef : Type := ProjectId ×ₗ IssueId ×ₗ Timestamp
abbrev ReleaseRef : Type := OrganizationId ×ₗ ReleaseId
abbrev EnvironmentRef : Type := ProjectId ×ₗ EnvironmentId

/-- The tables. The projects of a release are kept together, and `charges` remembers which project and day
every implicit release was admitted for. -/
structure FinalizationTables where
  projects : Table ProjectId ProjectRow
  usages : Table ProjectId CatalogUsage
  events : Table EventKey EventRow
  issues : Table IssueRef PostgresIssues.IssueRow
  hourly : Table HourRef HourlyRow
  releases : Table ReleaseRef ReleaseRow
  releaseProjects : Table ReleaseRef (Finset ProjectId)
  environments : Table EnvironmentRef EnvironmentRow
  charges : List (ProjectId × Int)

namespace PostgresFinalization

open Finalization

def maxBatch : Nat := 10000
def dayMillis : Int := 86400000

structure EventCodecConfig where
  compressionLevel : Int
  compressionMinSavings : Nat
  maxDecodedBodyBytes : Nat
  maxEncodedRowBytes : Nat
deriving DecidableEq

def EventCodecConfig.defaultValue : EventCodecConfig where
  compressionLevel := 3
  compressionMinSavings := 64
  maxDecodedBodyBytes := 1024 * 1024
  maxEncodedRowBytes := 2 * 1024 * 1024

/-- What the parsed payload of an Event is read for. -/
structure ParsedPayload where
  isObject : Bool
  canonical : List (BitVec 8)
  trace : Option (BitVec 128 × BitVec 64)
deriving DecidableEq

/-- The functions of packages, and the codecs that a store is made with. -/
structure Environment where
  blake3 : List (BitVec 8) → BitVec 256
  compress : PostgresIssues.Compressor
  parse : List (BitVec 8) → Option ParsedPayload
  eventCodec : EventCodecConfig
  issueCodec : PostgresIssues.IssueCodecConfig

structure Prepared where
  event : FinalizeEvent
  body : List (BitVec 8)
  expire : Int
  trace : Option (BitVec 128 × BitVec 64)
deriving DecidableEq

structure Scope where
  organization : OrganizationId
  usage : CatalogUsage
deriving DecidableEq

/-! ### Preparation -/

def validatePolicy (policy : FinalizationPolicy) : Except FinalizationStoreError Unit :=
  failIf (policy.eventRetention.isZero ∨ policy.hourlyRetention.isZero
    ∨ policy.maxImplicitReleasesPerProjectDay = 0 ∨ policy.maxImplicitEnvironmentsPerProject = 0
    ∨ i64Max < policy.eventRetention.asMillis ∨ i64Max < policy.hourlyRetention.asMillis) .invalidData

def addDuration (timestamp : Timestamp) (duration : Duration) : Except FinalizationStoreError Int := do
  let value := timestamp.unixMillis + duration.asMillis
  failIf (i64Max < duration.asMillis ∨ (i64Max : Int) < value) .invalidData
  failIf (value < minTimestampMillis ∨ maxTimestampMillis < value) .invalidData
  return value

def orInvalid {α : Type} : Option α → Except FinalizationStoreError α
  | some value => .ok value
  | none => .error .invalidData

/-- `codec::encode_json` for canonical bytes. -/
def encodeCanonical (env : Environment) (canonical : List (BitVec 8)) :
    Except FinalizationStoreError (List (BitVec 8)) := do
  failIf (env.eventCodec.maxDecodedBodyBytes < canonical.length) .invalidData
  let compressed ← orInvalid (env.compress env.eventCodec.compressionLevel canonical)
  if compressed.length + env.eventCodec.compressionMinSavings ≤ canonical.length then
    return 1 :: 1 :: compressed
  else return 1 :: 0 :: canonical

/-- The first check of `prepare`. -/
def consistent (env : Environment) (event : FinalizeEvent) : Bool :=
  event.issue.projectId = event.projectId ∧ event.issue.eventId = event.eventId
    ∧ event.issue.receivedAt = event.receivedAt ∧ event.issue.occurredAt = event.occurredAt
    ∧ Issues.verifyIssueId env.blake3 event.projectId event.issue.groupingKey event.issue.issueId
    ∧ event.searchTokens.length ≤ 16 ∧ event.searchTokens.Nodup
    ∧ (event.environment.all fun value => value ≠ [] ∧ byteLength value ≤ 64)
    ∧ event.payload.length ≤ env.eventCodec.maxDecodedBodyBytes

def prepare (env : Environment) (policy : FinalizationPolicy) (event : FinalizeEvent) :
    Except FinalizationStoreError Prepared := do
  failIf (!consistent env event) .invalidData
  let value ← orInvalid (env.parse event.payload)
  failIf (!value.isObject) .invalidData
  let body ← encodeCanonical env value.canonical
  failIf (value.canonical ≠ event.payload
    ∨ env.eventCodec.maxEncodedRowBytes < body.length + 256 + event.searchTokens.length * 8) .invalidData
  let expire ← addDuration event.receivedAt policy.eventRetention
  let _ ← addDuration (hourStart event.occurredAt) policy.hourlyRetention
  return ⟨event, body, expire, value.trace⟩

/-- The prepared Events of a batch by key, no two with one key. -/
def prepareAll (env : Environment) (policy : FinalizationPolicy) (batch : List FinalizeEvent) :
    Except FinalizationStoreError (Table EventKey Prepared) :=
  batch.foldlM (fun prepared event => do
    let value ← prepare env policy event
    failIf (prepared.contains value.event.key) .invalidData
    return prepared.insert value.event.key value) ∅

/-! ### Locks -/

/-- `state IN (0, 1)`. -/
def eligible (row : ProjectRow) : Bool := row.state.isLive

/-- The scopes of the live projects of a batch, with the usage rows that the call has made sure of. -/
def loadScopes (tables : FinalizationTables) (prepared : Table EventKey Prepared) : Table ProjectId Scope :=
  prepared.toList.foldl (fun scopes entry =>
    match tables.projects[entry.2.event.projectId]? with
    | some row =>
        if eligible row then
          scopes.insert entry.2.event.projectId
            ⟨row.organizationId, tables.usages[entry.2.event.projectId]?.getD .defaultValue⟩
        else scopes
    | none => scopes) ∅

/-- The usage rows after `INSERT … ON CONFLICT DO NOTHING`. -/
def ensureUsages (usages : Table ProjectId CatalogUsage) (scopes : Table ProjectId Scope) :
    Table ProjectId CatalogUsage :=
  scopes.toList.foldl (fun usages entry =>
    if usages.contains entry.1 then usages else usages.insert entry.1 .defaultValue) usages

/-- The stored row of a prepared Event that is still pending in a live project. -/
def pendingRow (tables : FinalizationTables) (scopes : Table ProjectId Scope) (entry : EventKey × Prepared) :
    Option (EventRow × Prepared) := do
  let row ← tables.events[entry.1]?
  if scopes.contains entry.2.event.projectId ∧ scopes.contains row.projectId ∧ row.processingState = .pending then
    some (row, entry.2)
  else none

def checkRow (entry : EventRow × Prepared) : Except FinalizationStoreError Prepared := do
  failIf (entry.2.event.projectId ≠ entry.1.projectId ∨ entry.2.event.eventId ≠ entry.1.eventId
    ∨ entry.2.event.receivedAt ≠ entry.1.receivedAt) .invalidData
  return entry.2

/-- The Events of the batch that are still pending, in key order. -/
def lockPending (tables : FinalizationTables) (prepared : Table EventKey Prepared)
    (scopes : Table ProjectId Scope) : Except FinalizationStoreError (List Prepared) :=
  (prepared.toList.filterMap (pendingRow tables scopes)).mapM checkRow

/-! ### Issues and hours -/

def issueError : IssueStoreError → FinalizationStoreError
  | .identityCollision => .identityCollision
  | .invalidData | .notFound => .invalidData
  | .unavailable => .unavailable

def issueRef (value : Prepared) : IssueRef := toLex (value.event.projectId, value.event.issue.issueId)

/-- The occurrences of a batch by Issue. -/
def occurrenceGroups (pending : List Prepared) : Table IssueRef (List IssueOccurrence) :=
  Table.groupFold issueRef [] (fun occurrences value => occurrences ++ [value.event.issue]) ∅ pending

def applyIssue (env : Environment) (issues : Table IssueRef PostgresIssues.IssueRow)
    (group : IssueRef × List IssueOccurrence) :
    Except FinalizationStoreError (Table IssueRef PostgresIssues.IssueRow) := do
  let written ← (PostgresIssues.applyBatch env.blake3 env.compress env.issueCodec issues[group.1]? group.2).mapError
    issueError
  return issues.insert group.1 written.row

def applyIssues (env : Environment) (issues : Table IssueRef PostgresIssues.IssueRow) (pending : List Prepared) :
    Except FinalizationStoreError (Table IssueRef PostgresIssues.IssueRow) :=
  (occurrenceGroups pending).toList.foldlM (applyIssue env) issues

def hourRef (value : Prepared) : HourRef :=
  toLex (value.event.projectId, toLex (value.event.issue.issueId, hourStart value.event.occurredAt))

def hourGroups (pending : List Prepared) : Table HourRef Nat :=
  Table.groupFold hourRef 0 (fun count _ => count + 1) ∅ pending

def updateHour (env : Environment) (policy : FinalizationPolicy) (hourly : Table HourRef HourlyRow)
    (group : HourRef × Nat) : Except FinalizationStoreError (Table HourRef HourlyRow) := do
  let (project, rest) := ofLex group.1
  let (issue, bucket) := ofLex rest
  let id := deriveHourBucketId env.blake3 project issue bucket
  let expire ← addDuration bucket policy.hourlyRetention
  match hourly[group.1]? with
  | none => return hourly.insert group.1 ⟨id, group.2, expire⟩
  | some row =>
      failIf (row.bucketId ≠ id) .identityCollision
      failIf (i64Max < row.occurrenceCount + group.2) .invalidData
      return hourly.insert group.1 { row with occurrenceCount := row.occurrenceCount + group.2 }

def updateHourly (env : Environment) (policy : FinalizationPolicy) (hourly : Table HourRef HourlyRow)
    (pending : List Prepared) : Except FinalizationStoreError (Table HourRef HourlyRow) :=
  (hourGroups pending).toList.foldlM (updateHour env policy) hourly

/-! ### Releases -/

/-- The rows that the catalogs change, and the scopes in memory. -/
structure Catalog where
  usages : Table ProjectId CatalogUsage
  scopes : Table ProjectId Scope
  releases : Table ReleaseRef ReleaseRow
  releaseProjects : Table ReleaseRef (Finset ProjectId)
  environments : Table EnvironmentRef EnvironmentRow
  charges : List (ProjectId × Int)

/-- A new usage of a project, in the scope and in its row. -/
def Catalog.putUsage (catalog : Catalog) (project : ProjectId) (scope : Scope) (usage : CatalogUsage) : Catalog :=
  { catalog with
    scopes := catalog.scopes.insert project { scope with usage := usage }
    usages := catalog.usages.insert project usage }

def releaseRef (env : Environment) (organization : OrganizationId) (version : IssueRelease) : ReleaseRef :=
  toLex (organization, deriveReleaseId env.blake3 organization version.asStr)

/-- An Event with a release, in the scope of its project. -/
def releasedIn (env : Environment) (scopes : Table ProjectId Scope) (value : Prepared) :
    Option (ReleaseRef × FinalizeEvent) := do
  let version ← value.event.issue.release
  let scope ← scopes[value.event.projectId]?
  return (releaseRef env scope.organization version, value.event)

/-- The Events of a batch by release. -/
def releaseGroups (env : Environment) (scopes : Table ProjectId Scope) (pending : List Prepared) :
    Table ReleaseRef (List FinalizeEvent) :=
  Table.groupFold Prod.fst [] (fun events entry => events ++ [entry.2]) ∅ (pending.filterMap (releasedIn env scopes))

/-- The receipt day of an Event. -/
def dayOf (event : FinalizeEvent) : Int := event.receivedAt.unixMillis / dayMillis * dayMillis

/-- The earliest receipt day of every project of a group. -/
def releaseDays (events : List FinalizeEvent) : Table ProjectId Int :=
  events.foldl (fun days event =>
    days.insert event.projectId ((days[event.projectId]?.map (min · (dayOf event))).getD (dayOf event))) ∅

def admits (scopes : Table ProjectId Scope) (limit : Nat) (entry : ProjectId × Int) : Bool :=
  scopes[entry.1]?.any fun scope => scope.usage.releaseDay ≠ some entry.2 ∨ scope.usage.releaseCount < limit

/-- The project and the day that a new release is admitted for. -/
def admitted (scopes : Table ProjectId Scope) (limit : Nat) (events : List FinalizeEvent) : Option (ProjectId × Int) :=
  (releaseDays events).toList.find? (admits scopes limit)

def seenKey (event : FinalizeEvent) : Timestamp ×ₗ EventKey := toLex (event.occurredAt, event.key)

/-- The pair of two nullable columns, when they are set. -/
def seenPair (time : Option Timestamp) (key : Option EventKey) : Option (Timestamp ×ₗ EventKey) := do
  return toLex (← time, ← key)

def insertedRelease (version : Text) (first latest : FinalizeEvent) : ReleaseRow where
  version := version
  createdAt := first.receivedAt
  activityAt := latest.occurredAt
  firstSeen := some first.occurredAt
  lastSeen := some latest.occurredAt
  firstEventKey := some first.key
  latestEventKey := some latest.key

/-- The `UPDATE` that widens what a release has seen. -/
def widenedRelease (row : ReleaseRow) (first latest : FinalizeEvent) : ReleaseRow :=
  let earlier := (seenPair row.firstSeen row.firstEventKey).all (seenKey first < ·)
  let later := (seenPair row.lastSeen row.latestEventKey).all (· < seenKey latest)
  { row with
    firstSeen := if earlier then some first.occurredAt else row.firstSeen
    firstEventKey := if earlier then some first.key else row.firstEventKey
    lastSeen := if later then some latest.occurredAt else row.lastSeen
    latestEventKey := if later then some latest.key else row.latestEventKey
    activityAt := max row.activityAt latest.occurredAt }

/-- The usage after one more release of a day. -/
def chargedUsage (usage : CatalogUsage) (day : Int) : CatalogUsage :=
  { usage with
    releaseDay := some day
    releaseCount := if usage.releaseDay = some day then usage.releaseCount + 1 else 1 }

/-- The admission of a release row that the call has inserted. -/
def chargeRelease (catalog : Catalog) (charge : Option (ProjectId × Int)) :
    Except FinalizationStoreError Catalog := do
  let (project, day) ← orInvalid charge
  let scope ← orInvalid catalog.scopes[project]?
  let usage := chargedUsage scope.usage day
  failIf (i64Max < usage.releaseCount) .invalidData
  return { catalog.putUsage project scope usage with charges := catalog.charges ++ [(project, day)] }

/-- `SELECT project_id … ORDER BY project_id LIMIT 257`. -/
def linkedProjects (catalog : Catalog) (ref : ReleaseRef) : Finset ProjectId :=
  (((catalog.releaseProjects[ref]?.getD ∅).sort).take 257).toFinset

/-- The links of a release to the projects of a group. -/
def linkProjects (catalog : Catalog) (ref : ReleaseRef) (projects : Finset ProjectId) :
    Except FinalizationStoreError Catalog := do
  failIf (maxReleaseProjects < (linkedProjects catalog ref ∪ projects).card) .invalidData
  return { catalog with
    releaseProjects := catalog.releaseProjects.insert ref ((catalog.releaseProjects[ref]?.getD ∅) ∪ projects) }

/-- The row of a release that exists or is admitted. -/
def writeRelease (catalog : Catalog) (ref : ReleaseRef) (version : Text) (first latest : FinalizeEvent)
    (charge : Option (ProjectId × Int)) : Except FinalizationStoreError Catalog := do
  match catalog.releases[ref]? with
  | some row =>
      failIf (row.version ≠ version) .identityCollision
      return { catalog with releases := catalog.releases.insert ref (widenedRelease row first latest) }
  | none =>
      let catalog ← chargeRelease catalog charge
      return { catalog with
        releases := catalog.releases.insert ref (widenedRelease (insertedRelease version first latest) first latest) }

def materializeRelease (limit : Nat) (catalog : Catalog) (group : ReleaseRef × List FinalizeEvent) :
    Except FinalizationStoreError Catalog := do
  let head ← orInvalid group.2.head?
  let version ← orInvalid head.issue.release
  failIf (group.2.any fun event => event.issue.release.map (·.asStr) ≠ some version.asStr) .identityCollision
  let charge := admitted catalog.scopes limit group.2
  if !catalog.releases.contains group.1 ∧ charge.isNone then return catalog
  let first ← orInvalid (Issues.minByKey seenKey group.2)
  let latest ← orInvalid (Issues.maxByKey seenKey group.2)
  let catalog ← writeRelease catalog group.1 version.asStr first latest charge
  linkProjects catalog group.1 (group.2.map (·.projectId)).toFinset

def materializeReleases (env : Environment) (limit : Nat) (catalog : Catalog) (pending : List Prepared) :
    Except FinalizationStoreError Catalog := do
  failIf (pending.any fun value => value.event.issue.release.isSome ∧ !catalog.scopes.contains value.event.projectId)
    .invalidData
  (releaseGroups env catalog.scopes pending).toList.foldlM (materializeRelease limit) catalog

/-! ### Environments -/

def environmentRef (env : Environment) (project : ProjectId) (name : Text) : EnvironmentRef :=
  toLex (project, deriveEnvironmentId env.blake3 project name)

def environmentIn (env : Environment) (value : Prepared) : Option (EnvironmentRef × FinalizeEvent) :=
  value.event.environment.map fun name => (environmentRef env value.event.projectId name, value.event)

def environmentGroups (env : Environment) (pending : List Prepared) : Table EnvironmentRef (List FinalizeEvent) :=
  Table.groupFold Prod.fst [] (fun events entry => events ++ [entry.2]) ∅ (pending.filterMap (environmentIn env))

/-- The row of an environment after a group. -/
def seenEnvironment (stored : Option EnvironmentRow) (name : Text) (first last : Timestamp) : EnvironmentRow :=
  match stored with
  | some row => { row with firstSeen := min row.firstSeen first, lastSeen := max row.lastSeen last }
  | none => ⟨name, first, last⟩

def chargeEnvironment (catalog : Catalog) (project : ProjectId) (scope : Scope) :
    Except FinalizationStoreError Catalog := do
  let count := scope.usage.environmentCount + 1
  failIf (i64Max < count) .invalidData
  return catalog.putUsage project scope { scope.usage with environmentCount := count }

def materializeEnvironment (limit : Nat) (catalog : Catalog) (group : EnvironmentRef × List FinalizeEvent) :
    Except FinalizationStoreError Catalog := do
  let project := (ofLex group.1).1
  let head ← orInvalid group.2.head?
  let name ← orInvalid head.environment
  failIf (group.2.any fun event => event.environment ≠ some name) .identityCollision
  let existing := catalog.environments[group.1]?
  failIf (existing.any fun row => row.name ≠ name) .identityCollision
  let scope ← orInvalid catalog.scopes[project]?
  if existing.isNone ∧ limit ≤ scope.usage.environmentCount then return catalog
  let first ← orInvalid (group.2.map (·.occurredAt)).min?
  let last ← orInvalid (group.2.map (·.occurredAt)).max?
  let catalog := { catalog with
    environments := catalog.environments.insert group.1 (seenEnvironment existing name first last) }
  if existing.isNone then chargeEnvironment catalog project scope else return catalog

def materializeEnvironments (env : Environment) (limit : Nat) (catalog : Catalog) (pending : List Prepared) :
    Except FinalizationStoreError Catalog :=
  (environmentGroups env pending).toList.foldlM (materializeEnvironment limit) catalog

/-! ### Finalization -/

def levelCode : EventLevel → Nat
  | .error => 0
  | .debug => 1
  | .info => 2
  | .warning => 3
  | .fatal => 4

def platformCode : EventPlatform → Nat
  | .python => 1
  | .javaScript | .node => 2
  | .native | .cocoa => 3
  | .java => 4
  | .php => 5
  | .ruby => 6
  | .dotNet => 7
  | .go => 8
  | .rust => 9
  | .other | .dart | .custom _ => 0

/-- The columns of a finalized Event. -/
def finalizedColumns (env : Environment) (scopes : Table ProjectId Scope) (policy : FinalizationPolicy)
    (value : Prepared) : FinalizedColumns where
  issueId := value.event.issue.issueId
  occurredAt := value.event.occurredAt
  level := levelCode value.event.level
  platform := platformCode value.event.platform
  searchTokens := value.event.searchTokens
  expireAt := if policy.archiveEvents then none else some value.expire
  archiveDue := if policy.archiveEvents then some value.expire else none
  releaseId := do
    let version ← value.event.issue.release
    let scope ← scopes[value.event.projectId]?
    return deriveReleaseId env.blake3 scope.organization version.asStr
  environmentId := value.event.environment.map (deriveEnvironmentId env.blake3 value.event.projectId)
  trace := value.trace

def finalizedRow (columns : FinalizedColumns) (body : List (BitVec 8)) (row : EventRow) : EventRow :=
  { row with
    processingState := .finalized
    nextAttemptAt := none
    lastErrorCode := none
    body := body
    columns := some columns }

def isPending (events : Table EventKey EventRow) (value : Prepared) : Bool :=
  events[value.event.key]?.any (·.processingState = .pending)

/-- The `UPDATE` of the pending rows. -/
def finalizeRows (env : Environment) (scopes : Table ProjectId Scope) (policy : FinalizationPolicy)
    (events : Table EventKey EventRow) (pending : List Prepared) : Table EventKey EventRow :=
  pending.foldl (fun events value =>
    match events[value.event.key]? with
    | some row =>
        if row.processingState = .pending then
          events.insert value.event.key (finalizedRow (finalizedColumns env scopes policy value) value.body row)
        else events
    | none => events) events

/-- What the call does to the pending Events of its batch. -/
def finalizePending (env : Environment) (policy : FinalizationPolicy) (tables : FinalizationTables)
    (scopes : Table ProjectId Scope) (pending : List Prepared) :
    Except FinalizationStoreError FinalizationTables := do
  let issues ← applyIssues env tables.issues pending
  let hourly ← updateHourly env policy tables.hourly pending
  let catalog : Catalog :=
    ⟨ensureUsages tables.usages scopes, scopes, tables.releases, tables.releaseProjects, tables.environments,
      tables.charges⟩
  let catalog ← materializeReleases env policy.maxImplicitReleasesPerProjectDay.toNat catalog pending
  let catalog ← materializeEnvironments env policy.maxImplicitEnvironmentsPerProject.toNat catalog pending
  failIf ((pending.filter (isPending tables.events)).length ≠ pending.length) .unavailable
  return { tables with
    usages := catalog.usages
    events := finalizeRows env scopes policy tables.events pending
    issues := issues
    hourly := hourly
    releases := catalog.releases
    releaseProjects := catalog.releaseProjects
    environments := catalog.environments
    charges := catalog.charges }

/-- `finalize_inner`: the result and the tables that it commits. -/
def finalizeInner (env : Environment) (policy : FinalizationPolicy) (tables : FinalizationTables)
    (batch : List FinalizeEvent) : Except FinalizationStoreError (FinalizeResult × FinalizationTables) := do
  validatePolicy policy
  failIf (batch.length < 1 ∨ maxBatch < batch.length) .invalidData
  let prepared ← prepareAll env policy batch
  let scopes := loadScopes tables prepared
  let pending ← lockPending tables prepared scopes
  if pending.isEmpty then return (⟨batch.length, 0, 0, batch.length⟩, tables)
  let next ← finalizePending env policy tables scopes pending
  return (⟨batch.length, pending.length, pending.length, batch.length - pending.length⟩, next)

end PostgresFinalization

end MetricBackend
