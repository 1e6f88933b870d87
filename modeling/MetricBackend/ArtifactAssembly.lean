import MetricBackend.PostgresArtifacts

/-! Assembly and generation-fenced collection of Artifact Bundles, from `application/src/artifacts.rs`, over the
Postgres store and an object store. Any number of assemblies and collections are in flight, and their storage calls
interleave in any order with requests, removals, project deletion and the expiry of rows. -/

namespace MetricBackend.ArtifactService

open PostgresArtifacts

inductive ArtifactError where
  | invalidRequest
  | notFound
  | malformedBundle
  | archiveLimit
  | unsupportedCompression
  | quota
  | conflict
  | busy
  | unavailable
deriving DecidableEq, Repr

namespace ArtifactError

def code : ArtifactError → Nat
  | invalidRequest => 1
  | notFound => 3
  | malformedBundle => 10
  | archiveLimit => 11
  | unsupportedCompression => 12
  | quota => 20
  | conflict => 21
  | busy => 22
  | unavailable => 30

/-- Whether a failed assembly is not tried again. -/
def isPermanent : ArtifactError → Bool
  | invalidRequest => true
  | malformedBundle => true
  | archiveLimit => true
  | unsupportedCompression => true
  | quota => true
  | conflict => true
  | _ => false

end ArtifactError

def mapStore : ArtifactStoreError → ArtifactError
  | .notFound => .notFound
  | .conflict => .conflict
  | .quota => .quota
  | .busy => .busy
  | .invalidData => .unavailable
  | .unavailable => .unavailable

/-- What assembly and collection read of the configuration. -/
structure ArtifactConfig where
  maximumBundleBytes : Nat
  claimLease : Duration
  blobOperationTimeout : Duration
  tombstoneRetention : Duration
  gcBatchSize : Nat
deriving DecidableEq

def addDuration (value : Timestamp) (duration : Duration) : Except ArtifactError Timestamp :=
  (Timestamp.fromUnixMillis (value.unixMillis + duration.asMillis)).mapError fun _ => .invalidRequest

/-- The digests of the `blake3` and `sha1` packages, and `validate_source_bundle` over the `zip` package: the debug
identifier of the bundle and those of its files. -/
structure BundleFormat where
  blake3 : List (BitVec 8) → BitVec 256
  sha1 : List (BitVec 8) → BitVec 160
  validateSourceBundle : List (BitVec 8) → Except ArtifactError (Option DebugId × List DebugId)

structure ValidatedBundle where
  bytes : List (BitVec 8)
  bundleDebugId : Option DebugId
  debugIds : List DebugId
deriving DecidableEq

/-! ### Objects -/

/-- The objects of a `BlobStore` by key. -/
abbrev Objects : Type := BlobKey → Option (List (BitVec 8))

/-- `commit`: an object that is there already is never replaced, and other bytes under its key are refused. -/
def commitObject (objects : Objects) (key : BlobKey) (bytes : List (BitVec 8)) : Except ArtifactError Objects :=
  match objects key with
  | none => .ok (Function.update objects key (some bytes))
  | some stored => if stored = bytes then .ok objects else .error .unavailable

def deleteObject (objects : Objects) (key : BlobKey) : Objects := Function.update objects key none

/-! ### Identities -/

def bundleId (format : BundleFormat) (organizationId : OrganizationId) (checksum : BitVec 256) : ArtifactBundleId where
  asBytes := (format.blake3 (utf8Bytes "artifact-bundle-id-v1".toList ++ bigEndian 8 organizationId.get
    ++ bigEndian 32 checksum.toNat)).extractLsb' 128 128

/-- `ArtifactDebugIdToken::derive`: the first eight bytes as an `i64`. -/
def debugIdToken (format : BundleFormat) (organizationId : OrganizationId) (debugId : DebugId) : Int :=
  ((format.blake3 (utf8Bytes "js-artifact-debug-id-v1".toList ++ bigEndian 8 organizationId.get
    ++ debugId.encode)).extractLsb' 192 64).toInt

def derivedBundleDebugId (checksum : BitVec 256) : DebugId := .uuid (checksum.extractLsb' 128 128) 0

/-! ### Assembly -/

/-- The checks of `assemble_bytes` on the content read from the chunks. -/
def checkBytes (format : BundleFormat) (config : ArtifactConfig) (upload : ArtifactUpload) (bytes : List (BitVec 8)) :
    Except ArtifactError ValidatedBundle := do
  failIf (config.maximumBundleBytes < bytes.length) .archiveLimit
  failIf (format.sha1 bytes ≠ upload.sha1 ∨ bytes = []) .invalidRequest
  let (bundleDebugId, debugIds) ← format.validateSourceBundle bytes
  failIf (debugIds.isEmpty ∧ upload.bindings.all (·.releaseId.isNone)) .invalidRequest
  return ⟨bytes, bundleDebugId, debugIds⟩

/-- The bundle that `assemble_bytes` publishes. -/
def assembledBundle (format : BundleFormat) (upload : ArtifactUpload) (validated : ValidatedBundle)
    (generation : BitVec 32) (now : Timestamp) : ArtifactBundle :=
  let checksum := format.blake3 validated.bytes
  { id := bundleId format upload.organizationId checksum
    organizationId := upload.organizationId
    bindings := upload.bindings
    bundleDebugId := validated.bundleDebugId.getD (derivedBundleDebugId checksum)
    debugIdTokens := distinctTokens (validated.debugIds.map (debugIdToken format upload.organizationId))
    checksum := checksum
    sha1 := upload.sha1
    size := validated.bytes.length
    uploadedAt := now
    generation := generation }

def bundleKey (bundle : ArtifactBundle) : BlobKey :=
  BlobKey.artifactBundle bundle.organizationId bundle.id bundle.generation

/-- `publish` starts with the canonical bindings of the bundle. -/
def preparePublication (bundle : ArtifactBundle) : Except ArtifactStoreError ArtifactBundle := do
  let bindings ← canonical bundle.bindings false
  failIf (maxArtifactDebugIds < bundle.debugIdTokens.length) .invalidData
  return { bundle with bindings := bindings }

/-- The attempts of one `publish`. -/
def publishAttempts : Nat := 16

/-- How far a call of `assemble_record` is. A bundle that was found stored is published again without an assembly. -/
inductive Publication where
  | recorded (record : ArtifactUploadRecord)
  | assembling (upload : ArtifactUpload)
  | numbered (upload : ArtifactUpload) (validated : ValidatedBundle) (generation : BitVec 32)
  | publishing (uploadId : BitVec 128) (bundle : ArtifactBundle) (attempts : Nat) (assembled : Bool)
  | failed (uploadId : BitVec 128) (error : ArtifactError)
deriving DecidableEq

/-- How far a call of `gc_claimed` is. -/
inductive Collection where
  | claimed (claim : ArtifactGcClaim)
  | validated (claim : ArtifactGcClaim)
  | deleted (claim : ArtifactGcClaim)
deriving DecidableEq

structure ArtifactSystem where
  tables : ArtifactTables
  objects : Objects
  publications : List Publication
  collections : List Collection

namespace ArtifactSystem

def setPublication (system : ArtifactSystem) (index : Nat) : Option Publication → ArtifactSystem
  | none => { system with publications := system.publications.eraseIdx index }
  | some publication => { system with publications := system.publications.set index publication }

def setCollection (system : ArtifactSystem) (index : Nat) : Option Collection → ArtifactSystem
  | none => { system with collections := system.collections.eraseIdx index }
  | some collection => { system with collections := system.collections.set index collection }

end ArtifactSystem

/-- Where a failure leaves an assembly: one that had begun settles the state of its upload first. -/
def failure (uploadId : BitVec 128) (assembled : Bool) (error : ArtifactError) : Option Publication :=
  if assembled then some (.failed uploadId error) else none

/-- Where a storage call that fails leaves a publication. -/
def Publication.failing (error : ArtifactError) : Publication → Option Publication
  | assembling upload => failure upload.id true error
  | numbered upload _ _ => failure upload.id true error
  | publishing uploadId _ _ assembled => failure uploadId assembled error
  | _ => none

section Steps

variable (format : BundleFormat) (config : ArtifactConfig) (quota : ArtifactQuota)

/-- `upsert_upload` of `assemble`. -/
def request (upload : ArtifactUpload) (system : ArtifactSystem) : ArtifactSystem :=
  match mergeUpload upload system.tables with
  | .error _ => system
  | .ok (tables, record) =>
      { system with tables := tables, publications := system.publications ++ [.recorded record] }

/-- `recover` takes up an upload whose assembly did not end. -/
def recover (id : BitVec 128) (system : ArtifactSystem) : ArtifactSystem :=
  match system.tables.uploads[id]?.filter fun row => row.state = .pending ∨ row.state = .assembling with
  | none => system
  | some row =>
      match readBindings row.bindings with
      | .error _ => system
      | .ok bindings =>
          { system with publications := system.publications ++ [.recorded (decodeUpload id row bindings)] }

def startAssembly (upload : ArtifactUpload) (now : Timestamp) (tables : ArtifactTables) :
    ArtifactTables × Option Publication :=
  match updateUpload upload.id .assembling now none none tables with
  | .error _ => (tables, none)
  | .ok tables => (tables, some (.assembling upload))

/-- A complete upload whose bundle is stored is published again, as of now; every other one is assembled. -/
def start (record : ArtifactUploadRecord) (now : Timestamp) (tables : ArtifactTables) :
    ArtifactTables × Option Publication :=
  if record.state = .complete then
    match bySha record.upload.organizationId record.upload.sha1 tables with
    | .error _ => (tables, none)
    | .ok none => startAssembly record.upload now tables
    | .ok (some bundle) =>
        match preparePublication { bundle with bindings := record.upload.bindings, uploadedAt := now } with
        | .error _ => (tables, none)
        | .ok bundle => (tables, some (.publishing record.upload.id bundle publishAttempts false))
  else startAssembly record.upload now tables

/-- The content is read and checked, and the publication gets its generation. -/
def number (upload : ArtifactUpload) (bytes : List (BitVec 8)) (now : Timestamp) (tables : ArtifactTables) :
    ArtifactTables × Option Publication :=
  let step : Except ArtifactError (ArtifactTables × Publication) := do
    let validated ← checkBytes format config upload bytes
    let «until» ← addDuration now config.claimLease
    let (tables, generation) ← (generation upload.organizationId upload.sha1 «until» tables).mapError mapStore
    return (tables, .numbered upload validated generation)
  match step with
  | .error error => (tables, failure upload.id true error)
  | .ok (tables, publication) => (tables, some publication)

/-- The object is committed under the generation. -/
def write (upload : ArtifactUpload) (validated : ValidatedBundle) (generation : BitVec 32) (now : Timestamp)
    (objects : Objects) : Objects × Option Publication :=
  let bundle := assembledBundle format upload validated generation now
  match commitObject objects (bundleKey bundle) validated.bytes with
  | .error error => (objects, failure upload.id true error)
  | .ok objects =>
      match preparePublication bundle with
      | .error error => (objects, failure upload.id true (mapStore error))
      | .ok bundle => (objects, some (.publishing upload.id bundle publishAttempts true))

/-- One attempt of a publication. -/
def publish (uploadId : BitVec 128) (bundle : ArtifactBundle) (attempts : Nat) (assembled : Bool)
    (bound : List ArtifactBinding) (tables : ArtifactTables) : ArtifactTables × Option Publication :=
  match publishAttempt quota uploadId bundle bound tables with
  | .error error => (tables, failure uploadId assembled (mapStore error))
  | .ok (some tables) => (tables, none)
  | .ok none =>
      if attempts ≤ 1 then (tables, failure uploadId assembled (mapStore .busy))
      else (tables, some (.publishing uploadId bundle (attempts - 1) assembled))

/-- The state of an upload after a failure. -/
def settle (uploadId : BitVec 128) (error : ArtifactError) (now : Timestamp) (tables : ArtifactTables) :
    ArtifactTables :=
  let state : ArtifactUploadState := if error.isPermanent then .failed else .pending
  let code := if error.isPermanent then some error.code else none
  match updateUpload uploadId state now none code tables with
  | .error _ => tables
  | .ok tables => tables

/-- `gc_once` claims what is due. -/
def claimDue (now : Timestamp) (held : BitVec 128) (candidates : List ArtifactBundleId) (tables : ArtifactTables) :
    ArtifactTables × List ArtifactGcClaim :=
  match addDuration now config.claimLease with
  | .error _ => (tables, [])
  | .ok «until» =>
      match claim now «until» held config.gcBatchSize candidates tables with
      | .error _ => (tables, [])
      | .ok claimed => claimed

/-- `gc_claimed` deletes only under a claim whose lease outlasts the deletion. -/
def validate (claim : ArtifactGcClaim) (now : Timestamp) (tables : ArtifactTables) : Option Collection :=
  match addDuration now config.blobOperationTimeout with
  | .error _ => none
  | .ok minimum =>
      if validateGcClaim claim.bundle.id claim.bundle.generation claim.claim minimum tables then
        some (.validated claim)
      else none

def finishClaim (claim : ArtifactGcClaim) (now : Timestamp) (tables : ArtifactTables) : ArtifactTables :=
  match addDuration now config.tombstoneRetention with
  | .error _ => tables
  | .ok «until» =>
      match finish claim.bundle.id claim.bundle.generation claim.claim «until» tables with
      | .error _ => tables
      | .ok (tables, _) => tables

end Steps

/-! ### Runs -/

/-- A step of the system. A storage call that fails has done nothing, or has done what it was asked and its answer is
lost: then the step of the call comes first, or is `publishUnanswered`. -/
inductive ArtifactAction where
  | insertProject (project : ProjectId) (row : ArtifactProject)
  | insertOrganization (organizationId : OrganizationId)
  | setProjectState (project : ProjectId) (state : ProjectAcceptanceState)
  | request (upload : ArtifactUpload)
  | recover (id : BitVec 128)
  | start (index : Nat) (now : Timestamp)
  | number (index : Nat) (bytes : List (BitVec 8)) (now : Timestamp)
  | write (index : Nat) (now : Timestamp)
  | publish (index : Nat) (bound : List ArtifactBinding)
  | publishUnanswered (index : Nat) (bound : List ArtifactBinding)
  | failPublication (index : Nat) (error : ArtifactError)
  | settle (index : Nat) (now : Timestamp)
  | dropPublication (index : Nat)
  | removeBinding (organizationId : OrganizationId) (id : ArtifactBundleId) (binding : ArtifactBinding)
      (orphan : Timestamp) (uploadedAt : Option Timestamp)
  | claim (now : Timestamp) (claim : BitVec 128) (candidates : List ArtifactBundleId)
  | validate (index : Nat) (now : Timestamp)
  | delete (index : Nat)
  | finish (index : Nat) (now : Timestamp)
  | dropCollection (index : Nat)
  | expireBundle (now : Timestamp) (id : ArtifactBundleId)
  | expireUpload (now : Timestamp) (id : BitVec 128)
  | unbindBundle (organizationId : OrganizationId) (project : ProjectId) (now : Timestamp) (operation : BitVec 128)
      (id : ArtifactBundleId)
  | unbindUpload (organizationId : OrganizationId) (project : ProjectId) (id : BitVec 128)

section Execute

variable (format : BundleFormat) (config : ArtifactConfig) (quota : ArtifactQuota)

/-- The step of a publication that is at this point; other points do not take it. -/
def stepPublication (system : ArtifactSystem) (index : Nat) : ArtifactAction → Publication → ArtifactSystem
  | .start _ now, .recorded record =>
      let (tables, next) := start record now system.tables
      { system with tables := tables }.setPublication index next
  | .number _ bytes now, .assembling upload =>
      let (tables, next) := number format config upload bytes now system.tables
      { system with tables := tables }.setPublication index next
  | .write _ now, .numbered upload validated generation =>
      let (objects, next) := write format upload validated generation now system.objects
      { system with objects := objects }.setPublication index next
  | .publish _ bound, .publishing uploadId bundle attempts assembled =>
      let (tables, next) := publish quota uploadId bundle attempts assembled bound system.tables
      { system with tables := tables }.setPublication index next
  | .publishUnanswered _ bound, .publishing uploadId bundle attempts assembled =>
      let (tables, _) := publish quota uploadId bundle attempts assembled bound system.tables
      { system with tables := tables }.setPublication index (failure uploadId assembled .unavailable)
  | .failPublication _ error, publication => system.setPublication index (publication.failing error)
  | .settle _ now, .failed uploadId error =>
      { system with tables := settle uploadId error now system.tables }.setPublication index none
  | .dropPublication _, _ => system.setPublication index none
  | _, _ => system

/-- The step of a collection that is at this point. A deletion that timed out may still happen. -/
def stepCollection (system : ArtifactSystem) (index : Nat) : ArtifactAction → Collection → ArtifactSystem
  | .validate _ now, .claimed claim => system.setCollection index (validate config claim now system.tables)
  | .delete _, .validated claim =>
      { system with objects := deleteObject system.objects (bundleKey claim.bundle) }.setCollection index
        (some (.deleted claim))
  | .finish _ now, .deleted claim =>
      { system with tables := finishClaim config claim now system.tables }.setCollection index none
  | .dropCollection _, _ => system.setCollection index none
  | _, _ => system

def onPublication (system : ArtifactSystem) (index : Nat) (action : ArtifactAction) : ArtifactSystem :=
  system.publications[index]?.elim system (stepPublication format config quota system index action)

def onCollection (system : ArtifactSystem) (index : Nat) (action : ArtifactAction) : ArtifactSystem :=
  system.collections[index]?.elim system (stepCollection config system index action)

def execute (system : ArtifactSystem) (action : ArtifactAction) : ArtifactSystem :=
  match action with
  | .insertProject project row =>
      if system.tables.projects.contains project then system
      else { system with tables := { system.tables with
        projects := system.tables.projects.insert project row } }
  | .insertOrganization organizationId =>
      if system.tables.organizations.contains organizationId then system
      else { system with tables := { system.tables with
        organizations := system.tables.organizations.insert organizationId ⟨0, 0⟩ } }
  | .setProjectState project state =>
      match system.tables.projects[project]? with
      | none => system
      | some row => { system with tables := { system.tables with
          projects := system.tables.projects.insert project { row with state := state } } }
  | .request upload => request upload system
  | .recover id => recover id system
  | .start index _ => onPublication format config quota system index action
  | .number index _ _ => onPublication format config quota system index action
  | .write index _ => onPublication format config quota system index action
  | .publish index _ => onPublication format config quota system index action
  | .publishUnanswered index _ => onPublication format config quota system index action
  | .failPublication index _ => onPublication format config quota system index action
  | .settle index _ => onPublication format config quota system index action
  | .dropPublication index => onPublication format config quota system index action
  | .removeBinding organizationId id binding orphan uploadedAt =>
      match remove organizationId id binding orphan uploadedAt system.tables with
      | .ok (some tables) => { system with tables := tables }
      | _ => system
  | .claim now held candidates =>
      let (tables, claims) := claimDue config now held candidates system.tables
      { system with tables := tables, collections := system.collections ++ claims.map .claimed }
  | .validate index _ => onCollection config system index action
  | .delete index => onCollection config system index action
  | .finish index _ => onCollection config system index action
  | .dropCollection index => onCollection config system index action
  | .expireBundle now id => { system with tables := PostgresArtifacts.expireBundle now id system.tables }
  | .expireUpload now id => { system with tables := PostgresArtifacts.expireUpload now id system.tables }
  | .unbindBundle organizationId project now operation id =>
      { system with tables := PostgresArtifacts.unbindBundle organizationId project now operation id system.tables }
  | .unbindUpload organizationId project id =>
      { system with tables := PostgresArtifacts.unbindUpload organizationId project id system.tables }

end Execute

/-- Nothing is published or under way, and no organization uses anything. -/
structure Initial (system : ArtifactSystem) : Prop where
  bundles : ∀ id : ArtifactBundleId, system.tables.bundles[id]? = none
  organizations : ∀ (organizationId : OrganizationId) (usage : ArtifactUsage),
    system.tables.organizations[organizationId]? = some usage → usage = ⟨0, 0⟩
  publications : system.publications = []
  collections : system.collections = []

def Publication.publishes : Publication → Option ArtifactBundleId
  | publishing _ bundle _ _ => some bundle.id
  | _ => none

def Collection.deletes : Collection → Option ArtifactBundleId
  | validated claim => some claim.bundle.id
  | _ => none

/-- A tombstone outlasts the publications and deletions of its bundle that began before it: its retention is that much
longer than the timeouts of both. -/
def Allowed (system : ArtifactSystem) : ArtifactAction → Prop
  | .expireBundle _ id =>
      (∀ publication ∈ system.publications, publication.publishes ≠ some id)
        ∧ ∀ collection ∈ system.collections, collection.deletes ≠ some id
  | _ => True

instance (system : ArtifactSystem) (action : ArtifactAction) : Decidable (Allowed system action) := by
  cases action <;> unfold Allowed <;> infer_instance

end MetricBackend.ArtifactService
