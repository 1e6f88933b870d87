import Mathlib.Order.Basic
import Mathlib.Order.Nat
import Mathlib.Data.Int.Order.Basic
import MetricBackend.LibText

/-! Foundation values of the `domain` crate: UTC timestamps in Unix milliseconds, positive
project identifiers and the sixteen-byte identities. A byte array `[u8; 16]` is the `BitVec 128`
it spells in big-endian order, so that the derived byte order is the unsigned order. -/

namespace MetricBackend

/-- `i64::MAX`. -/
def i64Max : Nat := 2 ^ 63 - 1

/-- The bounds of `i64`. -/
def InI64 (value : Int) : Prop := -2 ^ 63 ≤ value ∧ value < 2 ^ 63

instance (value : Int) : Decidable (InI64 value) := inferInstanceAs (Decidable (_ ∧ _))

def minTimestampMillis : Int := -62135596800000
def maxTimestampMillis : Int := 253402300799999

/-- UTC timestamp represented as Unix epoch milliseconds, inside the supported range. -/
structure Timestamp where
  unixMillis : Int
  inRange : minTimestampMillis ≤ unixMillis ∧ unixMillis ≤ maxTimestampMillis
deriving DecidableEq

inductive PrimitiveError where
  | timestampOutOfRange
  | invalidProjectId
deriving DecidableEq, Repr

namespace Timestamp

def fromUnixMillis (value : Int) : Except PrimitiveError Timestamp :=
  if h : minTimestampMillis ≤ value ∧ value ≤ maxTimestampMillis then .ok ⟨value, h⟩
  else .error .timestampOutOfRange

theorem unixMillis_injective : Function.Injective unixMillis := by
  rintro ⟨left, hleft⟩ ⟨right, hright⟩ h
  cases h
  rfl

instance : LinearOrder Timestamp := LinearOrder.lift' unixMillis unixMillis_injective

theorem le_iff {left right : Timestamp} : left ≤ right ↔ left.unixMillis ≤ right.unixMillis :=
  Iff.rfl

theorem lt_iff {left right : Timestamp} : left < right ↔ left.unixMillis < right.unixMillis :=
  Iff.rfl

theorem fromUnixMillis_eq_ok {value : Int} {result : Timestamp} :
    fromUnixMillis value = .ok result ↔ result.unixMillis = value := by
  unfold fromUnixMillis
  constructor
  · intro h
    split_ifs at h with hrange
    cases h
    rfl
  · intro h
    subst h
    rw [dif_pos result.inRange]

end Timestamp

/-- `std::time::Duration`: whole nanoseconds, with 64-bit seconds. -/
structure Duration where
  nanos : Nat
  inRange : nanos < 2 ^ 64 * 1000000000
deriving DecidableEq

namespace Duration

theorem nanos_injective : Function.Injective nanos := by
  rintro ⟨left, hleft⟩ ⟨right, hright⟩ h
  cases h
  rfl

instance : LinearOrder Duration := LinearOrder.lift' nanos nanos_injective

def isZero (duration : Duration) : Bool := duration.nanos = 0

def asMillis (duration : Duration) : Nat := duration.nanos / 1000000

/-- `u64::MAX` stands for every larger count of milliseconds. -/
def fromMillis (millis : Nat) : Duration where
  nanos := min millis (2 ^ 64 - 1) * 1000000
  inRange := by omega

def fromSecs (secs : Nat) : Duration := fromMillis (secs * 1000)

def checkedMul (duration : Duration) (factor : Nat) : Option Duration :=
  if h : duration.nanos * factor < 2 ^ 64 * 1000000000 then some ⟨duration.nanos * factor, h⟩
  else none

theorem asMillis_mono {left right : Duration} (h : left ≤ right) : left.asMillis ≤ right.asMillis :=
  Nat.div_le_div_right h

end Duration

/-- A project identifier is a positive 32-bit integer. -/
structure ProjectId where
  get : Int
  positive : 0 < get ∧ get < 2 ^ 31
deriving DecidableEq

namespace ProjectId

theorem get_injective : Function.Injective get := by
  rintro ⟨left, hleft⟩ ⟨right, hright⟩ h
  cases h
  rfl

instance : LinearOrder ProjectId := LinearOrder.lift' get get_injective

end ProjectId

/-! ### Identities -/

inductive IdentityKind where
  | release
  | environment
  | session
  | monitor
  | monitorRun
  | issue
  | issueTransition
  | event
  | alertRule
  | notificationDestination
  | notificationDelivery

/-- The sixteen bytes of an `opaque_id!`; identities of different kinds do not mix. -/
structure Identity (kind : IdentityKind) where
  asBytes : BitVec 128
deriving DecidableEq

namespace Identity

variable {kind : IdentityKind}

theorem toNat_injective : Function.Injective fun id : Identity kind => id.asBytes.toNat := by
  rintro ⟨left⟩ ⟨right⟩ h
  exact congrArg _ (BitVec.eq_of_toNat_eq h)

instance : LinearOrder (Identity kind) := LinearOrder.lift' _ toNat_injective

/-! Identities as keys, alone and after the key of their owner. -/

instance transCmp : Std.TransCmp (compare : Identity kind → Identity kind → Ordering) := inferInstance

instance transCmpOwned {A : Type} [LinearOrder A] :
    Std.TransCmp (compare : A ×ₗ Identity kind → A ×ₗ Identity kind → Ordering) := inferInstance

instance transCmpOwnedPart {A B : Type} [LinearOrder A] [LinearOrder B] :
    Std.TransCmp (compare : A ×ₗ Identity kind ×ₗ B → A ×ₗ Identity kind ×ₗ B → Ordering) := inferInstance

end Identity

abbrev ReleaseId : Type := Identity .release
abbrev EnvironmentId : Type := Identity .environment
abbrev SessionId : Type := Identity .session
abbrev MonitorId : Type := Identity .monitor
abbrev MonitorRunId : Type := Identity .monitorRun
abbrev IssueId : Type := Identity .issue
abbrev IssueTransitionId : Type := Identity .issueTransition
abbrev EventId : Type := Identity .event
abbrev AlertRuleId : Type := Identity .alertRule
abbrev NotificationDestinationId : Type := Identity .notificationDestination
abbrev NotificationDeliveryId : Type := Identity .notificationDelivery

/-! ### Sample values

Instants and project identifiers that the examples of several modules share. -/

theorem inRange_epoch : minTimestampMillis ≤ 0 ∧ 0 ≤ maxTimestampMillis := by decide

theorem inRange_second : minTimestampMillis ≤ 1000 ∧ 1000 ≤ maxTimestampMillis := by decide

theorem inRange_nextSecond : minTimestampMillis ≤ 2000 ∧ 2000 ≤ maxTimestampMillis := by decide

theorem inRange_sampleSetup : minTimestampMillis ≤ 1690000000000 ∧ 1690000000000 ≤ maxTimestampMillis := by decide

theorem inRange_sampleStart : minTimestampMillis ≤ 1700000000000 ∧ 1700000000000 ≤ maxTimestampMillis := by decide

theorem inRange_sampleMinute : minTimestampMillis ≤ 1700000060000 ∧ 1700000060000 ≤ maxTimestampMillis := by decide

namespace ProjectId

theorem positive_one : 0 < (1 : Int) ∧ (1 : Int) < 2 ^ 31 := by decide

theorem positive_two : 0 < (2 : Int) ∧ (2 : Int) < 2 ^ 31 := by decide

theorem positive_seven : 0 < (7 : Int) ∧ (7 : Int) < 2 ^ 31 := by decide

theorem positive_fortyTwo : 0 < (42 : Int) ∧ (42 : Int) < 2 ^ 31 := by decide

end ProjectId

end MetricBackend
