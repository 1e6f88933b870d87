import MetricBackend.DomainMonitors

/-! Alert rules, issue transitions and notification deliveries of `domain/src/notifications.rs` and
`domain/src/issue.rs`. A text or payload type carries the check its constructor makes. -/

namespace MetricBackend

def maxRuleNameBytes : Nat := 200
def maxRuleDestinations : Nat := 32
def maxNotificationPayloadBytes : Nat := 16 * 1024
def maxIssueTitleBytes : Nat := 512

inductive NotificationValueError where
  | empty
  | tooLarge
  | controlCharacter
  | emptyRule
deriving DecidableEq, Repr

def validateNotificationText (value : Text) (maximum : Nat) : Except NotificationValueError Unit := do
  failIf value.isEmpty .empty
  failIf (maximum < byteLength value) .tooLarge
  failIf (value.any isControl) .controlCharacter

structure RuleName where
  asStr : Text
  valid : validateNotificationText asStr maxRuleNameBytes = .ok ()
deriving DecidableEq

/-- `NotificationText::new(value, 200)`, the bound of the environment and release filters. -/
structure AlertFilterText where
  asStr : Text
  valid : validateNotificationText asStr 200 = .ok ()
deriving DecidableEq

/-- `bounded_issue_text!(IssueTitle, MAX_ISSUE_TITLE_BYTES)`. -/
structure IssueTitle where
  asStr : Text
  valid : asStr ≠ [] ∧ byteLength asStr ≤ maxIssueTitleBytes
deriving DecidableEq

structure NotificationPayload where
  asBytes : List (BitVec 8)
  valid : asBytes ≠ [] ∧ asBytes.length ≤ maxNotificationPayloadBytes
deriving DecidableEq

/-- An empty JSON object. -/
theorem NotificationPayload.valid_empty :
    [0x7b, 0x7d] ≠ ([] : List (BitVec 8))
      ∧ ([0x7b, 0x7d] : List (BitVec 8)).length ≤ maxNotificationPayloadBytes := by decide

def NotificationPayload.new (value : List (BitVec 8)) :
    Except NotificationValueError NotificationPayload :=
  if hempty : value = [] then .error .empty
  else if hlarge : maxNotificationPayloadBytes < value.length then .error .tooLarge
  else .ok ⟨value, hempty, not_lt.mp hlarge⟩

inductive IssueNotificationKind where
  | newIssue
  | regression
  | resolved
deriving DecidableEq, Repr

inductive ExploreDataset where
  | errors
  | logs
  | spans
  | metrics
deriving DecidableEq, Repr

def ExploreDataset.asStr : ExploreDataset → Text
  | errors => "errors".toList
  | logs => "logs".toList
  | spans => "spans".toList
  | metrics => "metrics".toList

/-! ### Alert rules -/

structure AggregateAlert where
  dataset : ExploreDataset
  lookbackMinutes : Nat
  evaluationIntervalMinutes : Nat
  threshold : Nat
  environment : Option AlertFilterText
  release : Option AlertFilterText
  notifyResolved : Bool
deriving DecidableEq

def AggregateAlert.validate (aggregate : AggregateAlert) : Except NotificationValueError Unit :=
  failIf (¬ (1 ≤ aggregate.lookbackMinutes ∧ aggregate.lookbackMinutes ≤ 30 * 24 * 60)
    ∨ ¬ (1 ≤ aggregate.evaluationIntervalMinutes ∧ aggregate.evaluationIntervalMinutes ≤ 24 * 60)
    ∨ aggregate.threshold = 0
    ∨ ((aggregate.dataset = .errors ∨ aggregate.dataset = .metrics)
      ∧ (aggregate.environment.isSome ∨ aggregate.release.isSome))) .tooLarge

structure MonitorAlert where
  monitorId : MonitorId
  outcomes : List MonitorRunStatus
  notifyResolved : Bool
deriving DecidableEq

def MonitorAlert.validate (monitor : MonitorAlert) : Except NotificationValueError Unit :=
  failIf (monitor.outcomes.isEmpty ∨ 3 < monitor.outcomes.length
    ∨ monitor.outcomes.any fun outcome => outcome ∉ [.error, .timeout, .missed]) .emptyRule

structure AlertRule where
  id : AlertRuleId
  projectId : ProjectId
  name : RuleName
  enabled : Bool
  triggers : List IssueNotificationKind
  aggregate : Option AggregateAlert
  monitor : Option MonitorAlert
  destinationIds : List NotificationDestinationId
  cooldownMinutes : Nat
  stormLimitPerHour : Nat
  nextEvaluationAt : Option Timestamp
  lastTriggeredAt : Option Timestamp
  stormWindowStartedAt : Option Timestamp
  stormCount : Nat
  thresholdMet : Bool
  createdAt : Timestamp
  updatedAt : Timestamp
deriving DecidableEq

namespace AlertRule

/-- The number of kinds of condition a rule carries. -/
def kinds (rule : AlertRule) : Nat :=
  (!rule.triggers.isEmpty).toNat + rule.aggregate.isSome.toNat + rule.monitor.isSome.toNat

def validate (rule : AlertRule) : Except NotificationValueError Unit := do
  failIf (rule.kinds ≠ 1 ∨ rule.destinationIds.isEmpty) .emptyRule
  failIf (maxRuleDestinations < rule.destinationIds.length) .tooLarge
  failIf (30 * 24 * 60 < rule.cooldownMinutes ∨ rule.stormLimitPerHour = 0
    ∨ 10000 < rule.stormLimitPerHour
    ∨ rule.aggregate.any (fun aggregate => !aggregate.validate.toBool)
    ∨ rule.monitor.any (fun monitor => !monitor.validate.toBool)) .tooLarge

end AlertRule

/-! ### Transitions and deliveries -/

structure IssueNotificationTransition where
  transitionId : IssueTransitionId
  projectId : ProjectId
  issueId : IssueId
  kind : IssueNotificationKind
  eventId : EventId
  createdAt : Timestamp
  title : IssueTitle
deriving DecidableEq

inductive NotificationDeliveryStatus where
  | pending
  | delivered
  | dead
deriving DecidableEq, Repr

structure NotificationDelivery where
  id : NotificationDeliveryId
  projectId : ProjectId
  issueId : IssueId
  transitionId : IssueTransitionId
  ruleId : AlertRuleId
  actionId : NotificationDestinationId
  destinationId : NotificationDestinationId
  payload : NotificationPayload
  status : NotificationDeliveryStatus
  attempts : Nat
  nextAttemptAt : Timestamp
  lastError : Option Text
  createdAt : Timestamp
  deliveredAt : Option Timestamp
  deleteAt : Option Timestamp
deriving DecidableEq

def Identity.bytes {kind : IdentityKind} (id : Identity kind) : List (BitVec 8) :=
  bigEndian 16 id.asBytes.toNat

/-- Every part is length-prefixed, the domain too. -/
def notificationDeliveryId (blake3 : List (BitVec 8) → BitVec 256)
    (transitionId : IssueTransitionId) (ruleId : AlertRuleId)
    (actionId : NotificationDestinationId) : NotificationDeliveryId :=
  ⟨hash16 blake3 [] [utf8Bytes "notification-delivery/v1".toList, transitionId.bytes, ruleId.bytes,
    actionId.bytes]⟩

@[simp] theorem length_bytes {kind : IdentityKind} (id : Identity kind) : id.bytes.length = 16 := by
  simp [Identity.bytes, bigEndian]

/-- A payload is refused for its size alone: no JSON body is empty. -/
theorem notificationPayload_new_eq_ok {value : List (BitVec 8)} (hempty : value ≠ [])
    (hsize : value.length ≤ maxNotificationPayloadBytes) :
    ∃ payload, NotificationPayload.new value = .ok payload ∧ payload.asBytes = value := by
  refine ⟨⟨value, hempty, hsize⟩, ?_, rfl⟩
  rw [NotificationPayload.new, dif_neg hempty, dif_neg (not_lt.mpr hsize)]

end MetricBackend
