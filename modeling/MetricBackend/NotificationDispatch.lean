import MetricBackend.MongoNotifications

/-! The notification workers of `application/src/notifications.rs` over the Mongo store: expansion of
issue transitions into deliveries, and evaluation of aggregate rules. Metrics counters are left out.
The digest function and the count an explore query answers are parameters. -/

namespace MetricBackend

def expansionRuleLimit : Nat := 256

inductive NotificationError where
  | invalidConfiguration
  | storageUnavailable
  | invalidData
  | forbidden
  | projectDisabled
  | projectDeletionPending
  | projectPurging
  | projectDeleted
deriving DecidableEq, Repr

/-- `From<NotificationStoreError>`. -/
def NotificationError.ofStore : NotificationStoreError → NotificationError
  | .invalidData => .invalidData
  | .unavailable => .storageUnavailable

namespace NotificationDispatch

open MongoNotifications

variable (blake3 : List (BitVec 8) → BitVec 256)

/-! ### Transition expansion -/

def kindName : IssueNotificationKind → Text
  | .newIssue => "new_issue".toList
  | .regression => "regression".toList
  | .resolved => "resolved".toList

/-- The object keys stand in the sorted order of `serde_json::Map`. -/
def notificationJson (transition : IssueNotificationTransition) (ruleId : AlertRuleId)
    (destinationId : NotificationDestinationId) : Text :=
  jsonObject [
    ("destination_id".toList, jsonString (hexEncode destinationId.bytes)),
    ("event_id".toList, jsonString (hexEncode transition.eventId.bytes)),
    ("issue_id".toList, jsonString (hexEncode transition.issueId.bytes)),
    ("occurred_at_ms".toList, jsonInteger transition.createdAt.unixMillis),
    ("project_id".toList, jsonInteger transition.projectId.get),
    ("rule_id".toList, jsonString (hexEncode ruleId.bytes)),
    ("title".toList, jsonString transition.title.asStr),
    ("transition_id".toList, jsonString (hexEncode transition.transitionId.bytes)),
    ("type".toList, jsonString (kindName transition.kind)),
    ("version".toList, jsonNumber 1)]

/-- `NotificationPayload::new`, with its error read as invalid data. -/
def payloadOf (json : Text) : Except NotificationError NotificationPayload :=
  (NotificationPayload.new (utf8Bytes json)).mapError fun _ => .invalidData

def notificationPayload (transition : IssueNotificationTransition) (ruleId : AlertRuleId)
    (destinationId : NotificationDestinationId) : Except NotificationError NotificationPayload :=
  payloadOf (notificationJson transition ruleId destinationId)

/-- A delivery is pending, without attempts, and due when it is created. -/
def pendingDelivery (id : NotificationDeliveryId) (projectId : ProjectId) (issueId : IssueId)
    (transitionId : IssueTransitionId) (ruleId : AlertRuleId)
    (destinationId : NotificationDestinationId) (payload : NotificationPayload)
    (createdAt : Timestamp) : NotificationDelivery where
  id := id
  projectId := projectId
  issueId := issueId
  transitionId := transitionId
  ruleId := ruleId
  actionId := destinationId
  destinationId := destinationId
  payload := payload
  status := .pending
  attempts := 0
  nextAttemptAt := createdAt
  lastError := none
  createdAt := createdAt
  deliveredAt := none
  deleteAt := none

/-- One pass of the loop over the destinations of a rule; an identity met before is skipped. -/
def addDelivery (transition : IssueNotificationTransition) (ruleId : AlertRuleId)
    (deliveries : List NotificationDelivery) (destinationId : NotificationDestinationId) :
    Except NotificationError (List NotificationDelivery) :=
  let id := notificationDeliveryId blake3 transition.transitionId ruleId destinationId
  if id ∈ deliveries.map (·.id) then .ok deliveries
  else do
    let payload ← notificationPayload transition ruleId destinationId
    return deliveries ++ [pendingDelivery id transition.projectId transition.issueId
      transition.transitionId ruleId destinationId payload transition.createdAt]

/-- The deliveries of a transition under the rules that match it. -/
def transitionDeliveries (transition : IssueNotificationTransition) (rules : List AlertRule) :
    Except NotificationError (List NotificationDelivery) :=
  rules.foldlM (fun deliveries rule => do
    rule.validate.mapError fun _ => NotificationError.invalidData
    rule.destinationIds.foldlM (addDelivery blake3 transition rule.id) deliveries) []

/-- The deliveries `expand_transition` writes. -/
def plannedDeliveries (store : NotificationStore) (transition : IssueNotificationTransition) :
    Except NotificationError (List NotificationDelivery) := do
  let rules ← (matchingRules store transition.projectId transition.kind
    expansionRuleLimit).mapError NotificationError.ofStore
  transitionDeliveries blake3 transition rules

/-- `NotificationDispatcher::expand_transition`. -/
def expand (store : NotificationStore) (transition : IssueNotificationTransition) :
    NotificationStore × Except NotificationError Unit :=
  match plannedDeliveries blake3 store transition with
  | .error error => (store, .error error)
  | .ok deliveries =>
      let (store, result) := expandTransition store transition deliveries
      (store, result.mapError NotificationError.ofStore)

/-- `NotificationDispatcher::expand_once`. -/
def expandOnce (store : NotificationStore) (transitionBatchSize : Nat) :
    NotificationStore × Except NotificationError Nat :=
  match pendingTransitions store transitionBatchSize with
  | .error error => (store, .error (.ofStore error))
  | .ok transitions =>
      let (store, result) := runUntilError (expand blake3) store transitions
      (store, result.map fun _ => transitions.length)

/-! ### Aggregate evaluation -/

inductive AggregateAction where
  | threshold
  | resolved
deriving DecidableEq, Repr

def AggregateAction.asStr : AggregateAction → Text
  | threshold => "aggregate_threshold".toList
  | resolved => "aggregate_resolved".toList

def addDuration (timestamp : Timestamp) (millis : Int) : Except NotificationError Timestamp :=
  (Timestamp.fromUnixMillis (timestamp.unixMillis + millis)).mapError fun _ => .invalidData

def aggregateTransitionId (ruleId : AlertRuleId) (window : Timestamp) (action : AggregateAction) :
    IssueTransitionId :=
  let input := utf8Bytes "metric/aggregate-alert/v1".toList ++ ruleId.bytes
    ++ bigEndian 8 window.unixMillis ++ utf8Bytes action.asStr
  ⟨(blake3 input).extractLsb' 128 128⟩

def aggregatePayload (rule : AlertRule) (aggregate : AggregateAlert)
    (destinationId : NotificationDestinationId) (action : AggregateAction) (count : Nat)
    (now : Timestamp) : Except NotificationError NotificationPayload :=
  payloadOf (jsonObject [
    ("count".toList, jsonNumber count),
    ("dataset".toList, jsonString aggregate.dataset.asStr),
    ("destination_id".toList, jsonString (hexEncode destinationId.bytes)),
    ("occurred_at_ms".toList, jsonInteger now.unixMillis),
    ("project_id".toList, jsonInteger rule.projectId.get),
    ("rule_id".toList, jsonString (hexEncode rule.id.bytes)),
    ("threshold".toList, jsonNumber aggregate.threshold),
    ("title".toList, jsonString rule.name.asStr),
    ("type".toList, jsonString action.asStr),
    ("version".toList, jsonNumber 1)])

/-- The window an evaluation stands for, `rule.next_evaluation_at.unwrap_or(now)`. -/
def evaluationWindow (rule : AlertRule) (now : Timestamp) : Timestamp :=
  rule.nextEvaluationAt.getD now

def windowExpired (rule : AlertRule) (now : Timestamp) : Bool :=
  rule.stormWindowStartedAt.all fun started => 3600000 ≤ now.unixMillis - started.unixMillis

def cooldownElapsed (rule : AlertRule) (now : Timestamp) : Bool :=
  rule.lastTriggeredAt.all fun last =>
    (rule.cooldownMinutes : Int) * 60000 ≤ now.unixMillis - last.unixMillis

/-- The deliveries of the current storm window. -/
def currentStorm (rule : AlertRule) (now : Timestamp) : Nat :=
  if windowExpired rule now then 0 else rule.stormCount

def chooseAction (rule : AlertRule) (aggregate : AggregateAlert) (now : Timestamp) (count : Nat) :
    Option AggregateAction :=
  let thresholdMet := decide (aggregate.threshold ≤ count)
  let belowLimit := decide (currentStorm rule now < rule.stormLimitPerHour)
  let firing := thresholdMet && cooldownElapsed rule now && belowLimit
  let resolving := !thresholdMet && rule.thresholdMet && aggregate.notifyResolved
  if firing then some .threshold
  else if resolving && belowLimit then some .resolved
  else none

def actionDelivery (rule : AlertRule) (aggregate : AggregateAlert) (now : Timestamp) (count : Nat)
    (action : AggregateAction) (destinationId : NotificationDestinationId) :
    Except NotificationError NotificationDelivery := do
  let transitionId := aggregateTransitionId blake3 rule.id (evaluationWindow rule now) action
  let payload ← aggregatePayload rule aggregate destinationId action count now
  return pendingDelivery (notificationDeliveryId blake3 transitionId rule.id destinationId)
    rule.projectId ⟨transitionId.asBytes⟩ transitionId rule.id destinationId payload now

/-- The count of the explore service for a rule between two instants. -/
abbrev Explore : Type := AlertRule → Timestamp → Timestamp → Except NotificationError Nat

/-- `evaluate_rule` up to its call of `complete_aggregate_rule`, whose arguments it returns. -/
def evaluateRule (explore : Explore) (rule : AlertRule) (now claimedUntil : Timestamp) :
    Except NotificationError (AggregateCompletion × List NotificationDelivery) := do
  let aggregate ← rule.aggregate.elim (.error .invalidData) .ok
  let since ← addDuration now (-(aggregate.lookbackMinutes * 60000))
  let count ← explore rule since now
  let action := chooseAction rule aggregate now count
  let deliveries ← match action with
    | none => .ok []
    | some action =>
        rule.destinationIds.mapM (actionDelivery blake3 rule aggregate now count action)
  let next ← addDuration now (aggregate.evaluationIntervalMinutes * 60000)
  return ({
    ruleId := rule.id
    claimedUntil := claimedUntil
    nextEvaluationAt := next
    thresholdMet := decide (aggregate.threshold ≤ count)
    lastTriggeredAt := if action.isSome then some now else rule.lastTriggeredAt
    stormWindowStartedAt := if windowExpired rule now then some now else rule.stormWindowStartedAt
    stormCount := if action.isSome then min (currentStorm rule now + 1) (2 ^ 32 - 1)
      else currentStorm rule now }, deliveries)

end NotificationDispatch
end MetricBackend
