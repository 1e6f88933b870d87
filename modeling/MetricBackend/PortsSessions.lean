import MetricBackend.LibTable
import MetricBackend.DomainSessions
import MetricBackend.PortsMonitors

/-! What the session stores share: the hours of release health, the user sketch of an hour and the
retention of the two kinds of rows. -/

namespace MetricBackend

def hourMillis : Int := 3600000

def dayMillis : Int := 86400000

/-- `unix_millis().div_euclid(HOUR) * HOUR`. -/
def hourOf (timestamp : Timestamp) : Int := timestamp.unixMillis / hourMillis * hourMillis

/-- The project, the release, the environment and the hour of a row of release health. -/
abbrev HealthKey : Type := ProjectId ×ₗ ReleaseId ×ₗ EnvironmentId ×ₗ Int

instance HealthKey.transCmp : Std.TransCmp (compare : HealthKey → HealthKey → Ordering) := inferInstance

def HealthKey.of (projectId : ProjectId) (releaseId : ReleaseId) (environmentId : EnvironmentId)
    (hour : Int) : HealthKey :=
  toLex (projectId, toLex (releaseId, toLex (environmentId, hour)))

def HealthKey.project (key : HealthKey) : ProjectId := (ofLex key).1

def HealthKey.hour (key : HealthKey) : Int := (ofLex (ofLex (ofLex key).2).2).2

namespace SessionRecord

/-- The hour a session counts in. -/
def healthKey (record : SessionRecord) : HealthKey :=
  .of record.projectId record.releaseId record.environmentId (hourOf record.startedAt)

end SessionRecord

def userSketchBits : Nat := 1024

/-- `UserSketch`: the bits of its 128 bytes. -/
abbrev UserSketch : Type := BitVec userSketchBits

/-- `UserSketch::insert`: the bit that the first two bytes of the digest pick. -/
def UserSketch.insert (sketch : UserSketch) (digest : BitVec 128) : UserSketch :=
  sketch ||| (BitVec.ofNat userSketchBits 1 <<< ((digest.extractLsb' 112 16).toNat % userSketchBits))

structure HealthRow where
  sessions : Int
  crashed : Int
  abnormal : Int
  exited : Int
  userSketch : UserSketch
  crashedUserSketch : UserSketch
  expireAt : Timestamp
deriving DecidableEq

structure SessionRetention where
  sessionsDays : Nat
  sessionStatsHourlyDays : Nat
  archive : Bool
deriving DecidableEq

/-- `at`. -/
def atMillis (value : Int) : Except SignalStoreError Timestamp := invalid (Timestamp.fromUnixMillis value)

/-- `expiry`: the time a row of `days` days of retention expires. -/
def expiry (time : Int) (days : Nat) : Except SignalStoreError Timestamp :=
  atMillis (time + days * dayMillis)

/-- `merge_error`. -/
def mergeError : SessionValueError → SignalStoreError
  | .conflict => .conflict
  | _ => .invalidData

end MetricBackend
