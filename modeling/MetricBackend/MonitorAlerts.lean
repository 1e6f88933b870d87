import MetricBackend.DomainMonitors
import MetricBackend.NotificationDispatch

/-! Alerts on monitor runs: `expand_monitor_rule` of `application/src/notifications.rs`, and what the stores write
of a rule when such an alert is complete. -/

namespace MetricBackend

def MonitorRunStatus.asStr : MonitorRunStatus → Text
  | inProgress => "in_progress".toList
  | success => "success".toList
  | error => "error".toList
  | timeout => "timeout".toList
  | missed => "missed".toList

def UptimeFailure.asStr : UptimeFailure → Text
  | dns => "dns".toList
  | forbiddenAddress => "forbidden_address".toList
  | connect => "connect".toList
  | timeout => "timeout".toList
  | redirect => "redirect".toList
  | tooManyRedirects => "too_many_redirects".toList
  | responseTooLarge => "response_too_large".toList
  | unexpectedStatus => "unexpected_status".toList

/-- The arguments of `complete_monitor_alert` before the deliveries. -/
structure MonitorCompletion where
  ruleId : AlertRuleId
  lastTriggeredAt : Timestamp
  stormWindowStartedAt : Timestamp
  stormCount : Nat
  thresholdMet : Bool
deriving DecidableEq

/-- The row of the rule after `complete_monitor_alert`. -/
def AlertRule.completeMonitor (rule : AlertRule) (completion : MonitorCompletion) : AlertRule :=
  { rule with
    lastTriggeredAt := some completion.lastTriggeredAt
    stormWindowStartedAt := some completion.stormWindowStartedAt
    stormCount := completion.stormCount
    thresholdMet := completion.thresholdMet
    updatedAt := completion.lastTriggeredAt }

namespace NotificationDispatch

variable (blake3 : List (BitVec 8) → BitVec 256)

def monitorPayload (rule : AlertRule) (run : MonitorRun) (now : Timestamp) (resolving : Bool) :
    Except NotificationError NotificationPayload :=
  let kind := if run.httpStatus.isSome ∨ run.uptimeFailure.isSome then "uptime_monitor".toList else "cron_monitor".toList
  payloadOf (jsonObject [
    ("detected_at".toList, jsonInteger now.unixMillis),
    ("failure".toList, (run.uptimeFailure.map fun failure => jsonString failure.asStr).getD "null".toList),
    ("http_status".toList, (run.httpStatus.map jsonNumber).getD "null".toList),
    ("kind".toList, jsonString kind),
    ("monitor_id".toList, jsonString (hexEncode run.monitorId.bytes)),
    ("rule".toList, jsonString rule.name.asStr),
    ("run_id".toList, jsonString (hexEncode run.id.bytes)),
    ("schema".toList, jsonNumber 1),
    ("started_at".toList, jsonInteger run.startedAt.unixMillis),
    ("state".toList, jsonString (if resolving then "resolved".toList else "firing".toList)),
    ("status".toList, jsonString run.status.asStr)])

def monitorDelivery (rule : AlertRule) (run : MonitorRun) (now : Timestamp) (resolving : Bool)
    (destinationId : NotificationDestinationId) : Except NotificationError NotificationDelivery := do
  let transitionId : IssueTransitionId := ⟨run.id.asBytes⟩
  let payload ← monitorPayload rule run now resolving
  return pendingDelivery (notificationDeliveryId blake3 transitionId rule.id destinationId) run.projectId
    ⟨run.monitorId.asBytes⟩ transitionId rule.id destinationId payload now

/-- A firing is held back by the cooldown or by the storm limit. -/
def monitorSuppressed (rule : AlertRule) (now : Timestamp) (resolving : Bool) : Bool :=
  !resolving && (!cooldownElapsed rule now || rule.stormLimitPerHour ≤ currentStorm rule now)

/-- `expand_monitor_rule` up to its call of `complete_monitor_alert`, whose arguments it returns. -/
def expandMonitorRule (rule : AlertRule) (run : MonitorRun) (now : Timestamp) (resolving : Bool) :
    Except NotificationError (Option (MonitorCompletion × List NotificationDelivery)) :=
  if monitorSuppressed rule now resolving then .ok none
  else do
    let deliveries ← rule.destinationIds.mapM (monitorDelivery blake3 rule run now resolving)
    return some ({
      ruleId := rule.id
      lastTriggeredAt := now
      stormWindowStartedAt := if windowExpired rule now then now else rule.stormWindowStartedAt.getD now
      stormCount := if resolving then currentStorm rule now else min (currentStorm rule now + 1) (2 ^ 32 - 1)
      thresholdMet := !resolving }, deliveries)

end NotificationDispatch

end MetricBackend
