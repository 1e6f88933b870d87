import Mathlib.Data.Prod.Lex
import Mathlib.Order.WithBot
import Mathlib.Data.List.Lex
import Mathlib.Data.List.Sort
import MetricBackend.BlobKeys
import MetricBackend.DebugIdentifiers
import MetricBackend.PostgresMonitors

/-! Organization-deduplicated Artifact Bundle metadata, from `postgres/src/artifacts.rs`: uploads, publication by
generation, removal of bindings and garbage collection, each a transaction under the locks of its projects and its
organization. A transaction that fails leaves the tables as they were. -/

namespace MetricBackend

/-! ### Bindings -/

def maxArtifactBindings : Nat := 512
def maxArtifactDebugIds : Nat := 20000
def maxArtifactChunks : Nat := 64
def maxArtifactDistBytes : Nat := 64

structure ArtifactBinding where
  projectId : ProjectId
  releaseId : Option ReleaseId
  dist : Option Text
deriving DecidableEq

namespace ArtifactBinding

/-- What `ArtifactBinding::new` accepts: a distribution belongs to a release. -/
def isValid (binding : ArtifactBinding) : Bool :=
  !binding.dist.any fun value =>
    binding.releaseId.isNone || value.isEmpty || maxArtifactDistBytes < byteLength value || value.any isControl

/-- The derived order: by project, then by release and by distribution, absent ones first. -/
def sortKey (binding : ArtifactBinding) : ProjectId ×ₗ WithBot ReleaseId ×ₗ WithBot Text :=
  toLex (binding.projectId, toLex (binding.releaseId, binding.dist))

theorem sortKey_injective : Function.Injective sortKey := by
  intro left right h
  obtain ⟨leftProject, leftRelease, leftDist⟩ := left
  obtain ⟨rightProject, rightRelease, rightDist⟩ := right
  obtain ⟨hproject, hrest⟩ := Prod.mk.inj (toLex.injective h)
  obtain ⟨hrelease, hdist⟩ := Prod.mk.inj (toLex.injective hrest)
  rw [ArtifactBinding.mk.injEq]
  exact ⟨hproject, hrelease, hdist⟩

instance : LinearOrder ArtifactBinding := LinearOrder.lift' sortKey sortKey_injective

end ArtifactBinding

inductive ArtifactStoreError where
  | notFound
  | conflict
  | quota
  | busy
  | invalidData
  | unavailable
deriving DecidableEq, Repr

namespace PostgresArtifacts

def canonical (values : List ArtifactBinding) (empty : Bool) :
    Except ArtifactStoreError (List ArtifactBinding) := do
  failIf (maxArtifactBindings * 2 < values.length) .invalidData
  failIf (values.any fun binding => !binding.isValid) .invalidData
  let distinct := (values.insertionSort (· ≤ ·)).dedup
  failIf ((!empty && distinct.isEmpty) || maxArtifactBindings < distinct.length) .invalidData
  return distinct

/-- `bindings`: what a query of at most one row above the limit returns. -/
def readBindings (stored : List ArtifactBinding) : Except ArtifactStoreError (List ArtifactBinding) := do
  failIf (maxArtifactBindings < stored.length) .invalidData
  canonical stored true

/-- `insert_binding` of each: a binding that is stored already stays. -/
def insertBindings (stored added : List ArtifactBinding) : List ArtifactBinding :=
  stored ++ added.filter fun binding => binding ∉ stored

/-! ### Values and tables -/

inductive ArtifactUploadState where
  | pending
  | assembling
  | complete
  | failed
deriving DecidableEq, Repr

structure ArtifactBundle where
  id : ArtifactBundleId
  organizationId : OrganizationId
  bindings : List ArtifactBinding
  bundleDebugId : DebugId
  debugIdTokens : List Int
  checksum : BitVec 256
  sha1 : BitVec 160
  size : Nat
  uploadedAt : Timestamp
  generation : BitVec 32
deriving DecidableEq

structure ArtifactUpload where
  id : BitVec 128
  organizationId : OrganizationId
  sha1 : BitVec 160
  chunks : List (BitVec 160)
  bindings : List ArtifactBinding
  createdAt : Timestamp
  updatedAt : Timestamp
deriving DecidableEq

structure ArtifactUploadRecord where
  upload : ArtifactUpload
  state : ArtifactUploadState
  attempts : Nat
  finalId : Option ArtifactBundleId
  errorCode : Option Nat
deriving DecidableEq

structure ArtifactGcClaim where
  bundle : ArtifactBundle
  claim : BitVec 128
  leaseUntil : Timestamp
deriving DecidableEq

/-- Zero means no limit. -/
structure ArtifactQuota where
  maximumBytesPerOrganization : Nat
  maximumBundlesPerOrganization : Nat
deriving DecidableEq

/-- The `state`, `claim` and `due_at` of a bundle row, as the check of the table ties them: published, claimed by a
collector, deleted by it, and reserved for the next publication. -/
inductive BundleState where
  | published (dueAt : Option Timestamp)
  | claimed (claim : BitVec 128) (dueAt : Timestamp)
  | tombstone (dueAt : Timestamp)
  | reserved (dueAt : Timestamp)
deriving DecidableEq

/-- A row of `artifact_bundles` with its `artifact_bundle_bindings`. -/
structure StoredBundle where
  organizationId : OrganizationId
  sha1 : BitVec 160
  bundleDebugId : DebugId
  debugTokens : List Int
  checksum : BitVec 256
  size : Nat
  uploadedAt : Timestamp
  generation : BitVec 32
  state : BundleState
  deletionOperation : Option (BitVec 128)
  bindings : List ArtifactBinding
deriving DecidableEq

/-- A row of `artifact_uploads` with its `artifact_upload_bindings`. -/
structure StoredUpload where
  organizationId : OrganizationId
  sha1 : BitVec 160
  chunks : List (BitVec 160)
  state : ArtifactUploadState
  attempts : Nat
  finalId : Option ArtifactBundleId
  errorCode : Option Nat
  createdAt : Timestamp
  updatedAt : Timestamp
  expireAt : Option Timestamp
  bindings : List ArtifactBinding
deriving DecidableEq

structure ArtifactProject where
  organizationId : OrganizationId
  state : ProjectAcceptanceState
  artifactRevision : Nat
deriving DecidableEq

/-- What `organizations` keeps of the artifacts. -/
structure ArtifactUsage where
  artifactBytes : Nat
  artifactCount : Nat
deriving DecidableEq

instance : LinearOrder ArtifactBundleId := LinearOrder.lift' ArtifactBundleId.asBytes fun left right h => by
  cases left
  cases right
  exact congrArg _ h

structure ArtifactTables where
  projects : Table ProjectId ArtifactProject
  organizations : Table OrganizationId ArtifactUsage
  uploads : Table (BitVec 128) StoredUpload
  bundles : Table ArtifactBundleId StoredBundle

/-- The order of a `BTreeSet` of stored tokens. -/
def distinctTokens (tokens : List Int) : List Int := (tokens.insertionSort (· ≤ ·)).dedup

def orError {α : Type} (error : ArtifactStoreError) (value : Option α) : Except ArtifactStoreError α :=
  value.elim (.error error) .ok

/-- `bundle_by_sha`: the content hash is unique in an organization. -/
def bundleBySha (tables : ArtifactTables) (organizationId : OrganizationId) (sha1 : BitVec 160) :
    Option (ArtifactBundleId × StoredBundle) :=
  tables.bundles.toList.find? fun row => row.2.organizationId = organizationId ∧ row.2.sha1 = sha1

def decodeBundle (id : ArtifactBundleId) (row : StoredBundle) (bindings : List ArtifactBinding) :
    Except ArtifactStoreError ArtifactBundle := do
  failIf (maxArtifactDebugIds < row.debugTokens.length) .invalidData
  return {
    id := id
    organizationId := row.organizationId
    bindings := bindings
    bundleDebugId := row.bundleDebugId
    debugIdTokens := distinctTokens row.debugTokens
    checksum := row.checksum
    sha1 := row.sha1
    size := row.size
    uploadedAt := row.uploadedAt
    generation := row.generation }

def decodeUpload (id : BitVec 128) (row : StoredUpload) (bindings : List ArtifactBinding) :
    ArtifactUploadRecord where
  upload := {
    id := id
    organizationId := row.organizationId
    sha1 := row.sha1
    chunks := row.chunks
    bindings := bindings
    createdAt := row.createdAt
    updatedAt := row.updatedAt }
  state := row.state
  attempts := row.attempts
  finalId := row.finalId
  errorCode := row.errorCode

/-- `lock_projects`: the projects of `bindings` must be active; those of `bound`, already bound to stored content, may
be in any state. Returns the projects that were locked. -/
def lockProjects (tables : ArtifactTables) (organizationId : OrganizationId) (bindings bound : List ArtifactBinding) :
    Except ArtifactStoreError (List ProjectId) := do
  let ids := (bindings ++ bound).map (·.projectId)
  let rows := tables.projects.toList.filter fun row => row.1 ∈ ids ∧ row.2.organizationId = organizationId
  failIf (bindings.any fun binding =>
    !rows.any fun row => row.1 = binding.projectId ∧ row.2.state = .active) .notFound
  return rows.map Prod.fst

/-- `bump_revisions`. -/
def bumpRevision (tables : ArtifactTables) (project : ProjectId) : Except ArtifactStoreError ArtifactTables := do
  let row ← orError .unavailable tables.projects[project]?
  return { tables with
    projects := tables.projects.insert project { row with artifactRevision := row.artifactRevision + 1 } }

/-- When the row of an upload in this state expires. -/
def expiry (state : ArtifactUploadState) (now : Timestamp) : Except ArtifactStoreError (Option Timestamp) :=
  let after (days : Nat) : Except ArtifactStoreError (Option Timestamp) :=
    ((Timestamp.fromUnixMillis (now.unixMillis + days * 86400000)).mapError fun _ => .invalidData).map some
  match state with
  | .complete => after 1
  | .failed => after 7
  | _ => .ok none

/-! ### Uploads -/

/-- `merge_upload`: a second request for the same content adds its bindings to the first. Another upload of the same
content in the organization violates the unique index. -/
def mergeUpload (upload : ArtifactUpload) (tables : ArtifactTables) :
    Except ArtifactStoreError (ArtifactTables × ArtifactUploadRecord) := do
  let bindings ← canonical upload.bindings false
  failIf (upload.chunks.isEmpty ∨ maxArtifactChunks < upload.chunks.length) .invalidData
  let _ ← lockProjects tables upload.organizationId bindings []
  let row := tables.uploads[upload.id]?.getD {
    organizationId := upload.organizationId
    sha1 := upload.sha1
    chunks := upload.chunks
    state := .pending
    attempts := 0
    finalId := none
    errorCode := none
    createdAt := upload.createdAt
    updatedAt := upload.updatedAt
    expireAt := none
    bindings := [] }
  failIf (tables.uploads[upload.id]? = none ∧ tables.uploads.toList.any fun other =>
    other.2.organizationId = upload.organizationId ∧ other.2.sha1 = upload.sha1) .conflict
  failIf (row.organizationId ≠ upload.organizationId ∨ row.sha1 ≠ upload.sha1 ∨ row.chunks ≠ upload.chunks) .conflict
  let existing ← readBindings row.bindings
  let merged ← canonical (existing ++ bindings) false
  let added := merged.filter fun binding => binding ∉ existing
  let updatedAt := if existing ≠ merged then upload.updatedAt else row.updatedAt
  let stored := { row with bindings := insertBindings row.bindings added, updatedAt := updatedAt }
  return ({ tables with uploads := tables.uploads.insert upload.id stored }, decodeUpload upload.id stored merged)

/-- `update_upload`. -/
def updateUpload (id : BitVec 128) (state : ArtifactUploadState) (now : Timestamp) (finalId : Option ArtifactBundleId)
    (code : Option Nat) (tables : ArtifactTables) : Except ArtifactStoreError ArtifactTables := do
  failIf (code = some 0) .invalidData
  let expires ← expiry state now
  let row ← orError .notFound tables.uploads[id]?
  let attempts := if state = .assembling then row.attempts + 1 else row.attempts
  failIf (2 ^ 32 ≤ attempts) .invalidData
  return { tables with uploads := tables.uploads.insert id { row with
    state := state
    updatedAt := now
    finalId := finalId.or row.finalId
    errorCode := if state = .pending then none else code
    expireAt := expires
    attempts := attempts } }

/-! ### Publication -/

/-- `generation`: the next publication of deleted content takes a new generation, and reserves it. -/
def generation (organizationId : OrganizationId) (sha1 : BitVec 160) («until» : Timestamp) (tables : ArtifactTables) :
    Except ArtifactStoreError (ArtifactTables × BitVec 32) := do
  let _ ← orError .notFound tables.organizations[organizationId]?
  match bundleBySha tables organizationId sha1 with
  | none => return (tables, 0)
  | some (id, row) =>
      match row.state with
      | .published _ => return (tables, row.generation)
      | .reserved _ => return (tables, row.generation)
      | .claimed _ _ => .error .busy
      | .tombstone _ => do
          failIf (2 ^ 32 ≤ row.generation.toNat + 1) .invalidData
          let next := { row with state := .reserved «until», generation := row.generation + 1 }
          return ({ tables with bundles := tables.bundles.insert id next }, row.generation + 1)

/-- What a publication finds under the content hash. -/
inductive Existing where
  | absent
  | reserved (row : StoredBundle)
  | published (row : StoredBundle) (before : List ArtifactBinding)
deriving DecidableEq

/-- A row under the content hash must be of the same bundle and generation, and not in collection. -/
def findExisting (bundle : ArtifactBundle) (tables : ArtifactTables) : Except ArtifactStoreError Existing :=
  match bundleBySha tables bundle.organizationId bundle.sha1 with
  | none => do
      failIf (bundle.generation ≠ 0) .conflict
      return .absent
  | some (id, row) => do
      failIf (id ≠ bundle.id ∨ row.checksum ≠ bundle.checksum ∨ row.generation ≠ bundle.generation) .conflict
      match row.state with
      | .published _ => return .published row (← readBindings row.bindings)
      | .claimed _ _ => .error .busy
      | .tombstone _ => .error .busy
      | .reserved _ => return .reserved row

namespace Existing

def before : Existing → List ArtifactBinding
  | published _ bindings => bindings
  | _ => []

/-- Whether the publication counts as a new bundle. -/
def reserves : Existing → Bool
  | published _ _ => false
  | _ => true

/-- A newer upload time moves the bundle in the lookups of every project already bound. -/
def refreshed (existing : Existing) (uploadedAt : Timestamp) : Bool :=
  match existing with
  | published row _ => row.uploadedAt < uploadedAt
  | _ => false

end Existing

/-- The limits of `ArtifactQuota`; zero is the largest `i64`. -/
def limitOr (limit : Nat) : Nat := if limit = 0 then i64Max else limit

/-- One more bundle of this size in the organization. -/
def reserveUsage (quota : ArtifactQuota) (usage : ArtifactUsage) (size : Nat) :
    Except ArtifactStoreError ArtifactUsage := do
  failIf (limitOr quota.maximumBytesPerOrganization < usage.artifactBytes + size
    ∨ limitOr quota.maximumBundlesPerOrganization ≤ usage.artifactCount) .quota
  return ⟨usage.artifactBytes + size, usage.artifactCount + 1⟩

/-- The row after a publication, with the bindings it did not have before. -/
def publishedRow (bundle : ArtifactBundle) (added : List ArtifactBinding) : Existing → StoredBundle
  | .absent => {
      organizationId := bundle.organizationId
      sha1 := bundle.sha1
      bundleDebugId := bundle.bundleDebugId
      debugTokens := distinctTokens bundle.debugIdTokens
      checksum := bundle.checksum
      size := bundle.size
      uploadedAt := bundle.uploadedAt
      generation := bundle.generation
      state := .published none
      deletionOperation := none
      bindings := insertBindings [] added }
  | .reserved row => { row with
      bundleDebugId := bundle.bundleDebugId
      debugTokens := distinctTokens bundle.debugIdTokens
      checksum := bundle.checksum
      size := bundle.size
      uploadedAt := bundle.uploadedAt
      state := .published none
      deletionOperation := none
      bindings := insertBindings row.bindings added }
  | .published row _ => { row with
      uploadedAt := max row.uploadedAt bundle.uploadedAt
      state := .published none
      deletionOperation := none
      bindings := insertBindings row.bindings added }

/-- `publish_attempt`, with the bindings `bound` that were read before the project locks. No result when a project was
bound between the read and the locks. -/
def publishAttempt (quota : ArtifactQuota) (id : BitVec 128) (bundle : ArtifactBundle) (bound : List ArtifactBinding)
    (tables : ArtifactTables) : Except ArtifactStoreError (Option ArtifactTables) := do
  failIf (2 ^ 63 ≤ bundle.size) .invalidData
  let locked ← lockProjects tables bundle.organizationId bundle.bindings bound
  let usage ← orError .notFound tables.organizations[bundle.organizationId]?
  let upload ← orError .notFound tables.uploads[id]?
  failIf (upload.organizationId ≠ bundle.organizationId ∨ upload.sha1 ≠ bundle.sha1) .conflict
  let existing ← findExisting bundle tables
  let refreshed := if existing.refreshed bundle.uploadedAt then existing.before.map (·.projectId) else []
  if ¬ refreshed ⊆ locked then return none
  else do
    let merged ← canonical (existing.before ++ bundle.bindings) false
    let usage ← (if existing.reserves then reserveUsage quota usage bundle.size else pure usage)
    failIf (existing = .absent ∧ tables.bundles[bundle.id]? ≠ none) .conflict
    let added := merged.filter fun binding => binding ∉ existing.before
    let affected := ((refreshed ++ added.map (·.projectId)).insertionSort (· ≤ ·)).dedup
    let bumped ← affected.foldlM bumpRevision tables
    let expires ← expiry .complete bundle.uploadedAt
    return some { bumped with
      organizations := bumped.organizations.insert bundle.organizationId usage
      bundles := bumped.bundles.insert bundle.id (publishedRow bundle added existing)
      uploads := bumped.uploads.insert id { upload with
        state := .complete
        finalId := some bundle.id
        errorCode := none
        updatedAt := bundle.uploadedAt
        expireAt := expires } }

/-- `by_sha`: a published bundle. -/
def bySha (organizationId : OrganizationId) (sha1 : BitVec 160) (tables : ArtifactTables) :
    Except ArtifactStoreError (Option ArtifactBundle) :=
  match bundleBySha tables organizationId sha1 with
  | none => .ok none
  | some (id, row) =>
      match row.state with
      | .published _ => do return some (← decodeBundle id row (← readBindings row.bindings))
      | _ => .ok none

/-! ### Removal -/

/-- `remove`: the bundle that loses its last binding is due at `orphan`. A newer publication of the same content keeps
its binding. No result when there was nothing to remove. -/
def remove (organizationId : OrganizationId) (id : ArtifactBundleId) (binding : ArtifactBinding) (orphan : Timestamp)
    (uploadedAt : Option Timestamp) (tables : ArtifactTables) :
    Except ArtifactStoreError (Option ArtifactTables) := do
  let _ ← canonical [binding] false
  let project ← orError .notFound (tables.projects[binding.projectId]?.filter fun project =>
    project.organizationId = organizationId ∧ project.state.isLive)
  let _ ← orError .notFound tables.organizations[organizationId]?
  match tables.bundles[id]?.filter fun row => row.organizationId = organizationId with
  | none => return none
  | some row =>
      match row.state with
      | .published dueAt =>
          if uploadedAt.any (· ≠ row.uploadedAt) ∨ binding ∉ row.bindings then return none
          else
            let remaining := row.bindings.filter (· ≠ binding)
            let bundles := tables.bundles.insert id { row with
              bindings := remaining
              state := .published (if remaining.isEmpty then some orphan else dueAt) }
            let uploads := match tables.uploads.toList.find? fun upload =>
                upload.2.organizationId = organizationId ∧ upload.2.sha1 = row.sha1 with
              | none => tables.uploads
              | some (uploadId, upload) =>
                  let remaining := upload.bindings.filter (· ≠ binding)
                  if remaining.isEmpty then tables.uploads.erase uploadId
                  else tables.uploads.insert uploadId { upload with bindings := remaining }
            return some { tables with
              bundles := bundles
              uploads := uploads
              projects := tables.projects.insert binding.projectId
                { project with artifactRevision := project.artifactRevision + 1 } }
      | _ => return none

/-! ### Garbage collection -/

def gcResponseBytes : Nat := 4 * 1024 * 1024

/-- An unbound bundle whose time has come, or whose claim ran out. -/
def isDue (now : Timestamp) (row : StoredBundle) : Bool :=
  row.bindings.isEmpty && match row.state with
    | .published dueAt => dueAt.any (· ≤ now)
    | .claimed _ dueAt => dueAt ≤ now
    | _ => false

/-- The rows of `claim` under their locks: those of the candidates that are still due, up to the size of a response. -/
def claimCandidates (now «until» : Timestamp) (claim : BitVec 128) :
    List ArtifactBundleId → Nat → List ArtifactGcClaim → ArtifactTables →
      Except ArtifactStoreError (ArtifactTables × List ArtifactGcClaim)
  | [], _, result, tables => .ok (tables, result)
  | id :: candidates, bytes, result, tables =>
      match tables.bundles[id]?.filter (isDue now) with
      | none => claimCandidates now «until» claim candidates bytes result tables
      | some row => do
          let bundle ← decodeBundle id row []
          let bytes := bytes + bundle.debugIdTokens.length * 8 + 256
          if gcResponseBytes < bytes ∧ result ≠ [] then return (tables, result)
          else
            let held := { row with state := .claimed claim «until» }
            claimCandidates now «until» claim candidates bytes (result ++ [⟨bundle, claim, «until»⟩])
              { tables with bundles := tables.bundles.insert id held }

/-- `claim`, with the candidates its first query returned. -/
def claim (now «until» : Timestamp) (claim : BitVec 128) (limit : Nat) (candidates : List ArtifactBundleId)
    (tables : ArtifactTables) : Except ArtifactStoreError (ArtifactTables × List ArtifactGcClaim) := do
  failIf (limit < 1 ∨ 100 < limit ∨ «until» ≤ now) .invalidData
  claimCandidates now «until» claim (candidates.take limit) 0 [] tables

/-- A row that the claim holds. -/
def isClaimed (generation : BitVec 32) (claim : BitVec 128) (row : StoredBundle) : Bool :=
  row.bindings.isEmpty && row.generation = generation && match row.state with
    | .claimed held _ => held = claim
    | _ => false

/-- `validate_gc_claim`. -/
def validateGcClaim (id : ArtifactBundleId) (generation : BitVec 32) (claim : BitVec 128)
    (minimumLeaseUntil : Timestamp) (tables : ArtifactTables) : Bool :=
  tables.bundles[id]?.any fun row => isClaimed generation claim row && match row.state with
    | .claimed _ dueAt => minimumLeaseUntil < dueAt
    | _ => false

/-- `finish`: the object is gone. The result says whether the claim still held the row. -/
def finish (id : ArtifactBundleId) (generation : BitVec 32) (claim : BitVec 128) («until» : Timestamp)
    (tables : ArtifactTables) : Except ArtifactStoreError (ArtifactTables × Bool) :=
  match tables.bundles[id]? with
  | none => .ok (tables, false)
  | some row => do
      let usage ← orError .notFound tables.organizations[row.organizationId]?
      if isClaimed generation claim row then do
        failIf (usage.artifactCount = 0 ∨ usage.artifactBytes < row.size) .invalidData
        return ({ tables with
          organizations := tables.organizations.insert row.organizationId
            ⟨usage.artifactBytes - row.size, usage.artifactCount - 1⟩
          bundles := tables.bundles.insert id { row with
            state := .tombstone «until»
            deletionOperation := none } }, true)
      else return (tables, false)

/-! ### Expiry and project deletion -/

/-- A tombstone past its time, as the maintenance of expired rows selects it. -/
def isExpired (now : Timestamp) (row : StoredBundle) : Bool :=
  match row.state with
  | .tombstone dueAt => dueAt ≤ now
  | _ => false

def expireBundle (now : Timestamp) (id : ArtifactBundleId) (tables : ArtifactTables) : ArtifactTables :=
  if tables.bundles[id]?.any (isExpired now) then { tables with bundles := tables.bundles.erase id } else tables

def expireUpload (now : Timestamp) (id : BitVec 128) (tables : ArtifactTables) : ArtifactTables :=
  if tables.uploads[id]?.any fun row =>
      (row.state = .complete ∨ row.state = .failed) ∧ row.expireAt.any (· ≤ now)
  then { tables with uploads := tables.uploads.erase id }
  else tables

/-- The step of a project deletion for one bundle: its bindings of the project go, and a published bundle left without
any is due at once. -/
def unbindBundle (organizationId : OrganizationId) (project : ProjectId) (now : Timestamp) (operation : BitVec 128)
    (id : ArtifactBundleId) (tables : ArtifactTables) : ArtifactTables :=
  match tables.bundles[id]?.filter fun row => row.organizationId = organizationId with
  | none => tables
  | some row =>
      let remaining := row.bindings.filter (·.projectId ≠ project)
      let row := { row with bindings := remaining }
      let row := match row.state with
        | .published _ =>
            if remaining.isEmpty then
              { row with state := .published (some now), deletionOperation := some operation }
            else row
        | _ => row
      { tables with bundles := tables.bundles.insert id row }

/-- The same step for one upload, which goes with its last binding. -/
def unbindUpload (organizationId : OrganizationId) (project : ProjectId) (id : BitVec 128) (tables : ArtifactTables) :
    ArtifactTables :=
  match tables.uploads[id]?.filter fun row => row.organizationId = organizationId with
  | none => tables
  | some row =>
      let remaining := row.bindings.filter (·.projectId ≠ project)
      { tables with uploads :=
        if remaining.isEmpty then tables.uploads.erase id
        else tables.uploads.insert id { row with bindings := remaining } }

end PostgresArtifacts

end MetricBackend
