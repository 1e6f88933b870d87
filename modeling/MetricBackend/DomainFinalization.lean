import MetricBackend.DomainEvents
import MetricBackend.DomainIssues

/-! Durable finalization values and derived identities of `domain/src/finalization.rs`. The digest function
of the `blake3` package is a parameter. -/

namespace MetricBackend

def maxSearchTokensPerEvent : Nat := 16

/-- The eight bytes of an `i64`. -/
structure SearchToken where
  stored : BitVec 64
deriving DecidableEq

namespace SearchToken

theorem stored_injective : Function.Injective fun token : SearchToken => token.stored.toInt := by
  rintro ⟨left⟩ ⟨right⟩ h
  exact congrArg _ (BitVec.eq_of_toInt_eq h)

instance : LinearOrder SearchToken := LinearOrder.lift' _ stored_injective

end SearchToken

structure OrganizationId where
  get : Nat
  inRange : 0 < get ∧ get < 2 ^ 63
deriving DecidableEq

namespace OrganizationId

theorem inRange_one : 0 < 1 ∧ 1 < 2 ^ 63 := by decide

theorem get_injective : Function.Injective get := by
  rintro ⟨left, hleft⟩ ⟨right, hright⟩ h
  cases h
  rfl

instance : LinearOrder OrganizationId := LinearOrder.lift' get get_injective

end OrganizationId

structure HourBucketId where
  asBytes : BitVec 128
deriving DecidableEq

structure FinalizeEvent where
  projectId : ProjectId
  eventId : EventId
  receivedAt : Timestamp
  occurredAt : Timestamp
  level : EventLevel
  platform : EventPlatform
  issue : IssueOccurrence
  environment : Option Text
  searchTokens : List SearchToken
  payload : List (BitVec 8)
deriving DecidableEq

def FinalizeEvent.key (event : FinalizeEvent) : EventKey := EventKey.new event.projectId event.eventId

structure FinalizationPolicy where
  eventRetention : Duration
  hourlyRetention : Duration
  archiveEvents : Bool
  maxImplicitReleasesPerProjectDay : BitVec 32
  maxImplicitEnvironmentsPerProject : BitVec 32
deriving DecidableEq

structure FinalizeResult where
  requested : Nat
  pending : Nat
  finalized : Nat
  skippedCompleted : Nat
deriving DecidableEq

namespace Finalization

def hourMillis : Int := 60 * 60 * 1000

/-- The hour of a time in range starts in range. -/
def hourStart (timestamp : Timestamp) : Timestamp where
  unixMillis := timestamp.unixMillis / hourMillis * hourMillis
  inRange := by
    have hrange := timestamp.inRange
    simp only [minTimestampMillis, maxTimestampMillis, hourMillis] at hrange ⊢
    omega

section Digest

variable (blake3 : List (BitVec 8) → BitVec 256)

/-- `derive_digest`. -/
def deriveDigest (domain : Text) (values : List (List (BitVec 8))) : BitVec 256 :=
  blake3 ((utf8Bytes domain :: values).flatMap fun part => bigEndian 8 part.length ++ part)

/-- The first sixteen bytes. -/
def deriveId (domain : Text) (values : List (List (BitVec 8))) : BitVec 128 :=
  (deriveDigest blake3 domain values).extractLsb' 128 128

/-- The first eight bytes. -/
def token (domain : Text) (values : List (List (BitVec 8))) : SearchToken where
  stored := (deriveDigest blake3 domain values).extractLsb' 192 64

def deriveReleaseId (organizationId : OrganizationId) (exactVersion : Text) : ReleaseId :=
  ⟨deriveId blake3 "release-id/v1".toList [bigEndian 8 organizationId.get, utf8Bytes exactVersion]⟩

def deriveEnvironmentId (projectId : ProjectId) (exactName : Text) : EnvironmentId :=
  ⟨deriveId blake3 "environment-id/v1".toList [bigEndian 4 projectId.get, utf8Bytes exactName]⟩

def deriveHourBucketId (projectId : ProjectId) (issueId : IssueId) (bucketStart : Timestamp) : HourBucketId :=
  ⟨deriveId blake3 "issue-hour/v1".toList
    [bigEndian 4 projectId.get, issueId.bytes, bigEndian 8 bucketStart.unixMillis]⟩

def environmentToken (value : Text) : SearchToken := token blake3 "search/environment/v1".toList [utf8Bytes value]

def releaseToken (value : Text) : SearchToken := token blake3 "search/release/v1".toList [utf8Bytes value]

def userIdToken (value : Text) : SearchToken := token blake3 "search/user-id/v1".toList [utf8Bytes value]

end Digest

end Finalization

end MetricBackend
