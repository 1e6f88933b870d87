import MetricBackend.LibTable
import MetricBackend.DomainNotifications

/-! The Mongo notification store of `mongo/src/notifications.rs`. A collection is a table of decoded
documents in `_id` order. Commands are not grouped in transactions: an operation that fails keeps what
it wrote before, so it returns the store it leaves beside its result. -/

namespace MetricBackend

inductive NotificationStoreError where
  | invalidData
  | unavailable
deriving DecidableEq, Repr

namespace MongoNotifications

/-- An element of the field `n` of an issue. -/
structure PendingTransition where
  id : IssueTransitionId
  kind : IssueNotificationKind
  eventId : EventId
  createdAt : Timestamp
deriving DecidableEq

/-- The fields `p`, `t`, `j` and `n` of an issue. -/
structure IssueDocument where
  projectId : ProjectId
  title : IssueTitle
  pending : Bool
  transitions : Option (List PendingTransition)
deriving DecidableEq

/-- A rule as `encode_rule` writes it, with `next_evaluation_at` in the field `x`, and the field `y`
that a claim adds. The identity of a rule is the key of its row. -/
structure RuleDocument where
  rule : AlertRule
  y : Option Timestamp
deriving DecidableEq

def RuleDocument.x (document : RuleDocument) : Option Timestamp := document.rule.nextEvaluationAt

structure NotificationStore where
  issues : Table IssueId IssueDocument
  alertRules : Table AlertRuleId RuleDocument
  deliveries : Table NotificationDeliveryId NotificationDelivery

/-! ### Transition expansion -/

def IssueDocument.transition (issue : IssueDocument) (issueId : IssueId)
    (transition : PendingTransition) : IssueNotificationTransition where
  transitionId := transition.id
  projectId := issue.projectId
  issueId := issueId
  kind := transition.kind
  eventId := transition.eventId
  createdAt := transition.createdAt
  title := issue.title

def decodeIssueTransitions (issueId : IssueId) (issue : IssueDocument)
    (output : List IssueNotificationTransition) (limit : Nat) :
    Except NotificationStoreError (List IssueNotificationTransition) := do
  let transitions ← issue.transitions.elim (.error .invalidData) .ok
  failIf (1024 < transitions.length) .invalidData
  return output ++ (transitions.take (limit - output.length)).map (issue.transition issueId)

def pendingTransitions (store : NotificationStore) (limit : Nat) :
    Except NotificationStoreError (List IssueNotificationTransition) := do
  failIf (¬ (1 ≤ limit ∧ limit ≤ 10000)) .invalidData
  let issues := (store.issues.toList.filter (·.2.pending)).take limit
  issues.foldlM (fun output issue =>
    if output.length = limit then .ok output
    else decodeIssueTransitions issue.1 issue.2 output limit) []

/-- The rule of a row: the claimed window stands before the lease. -/
def decoded (row : AlertRuleId × RuleDocument) : AlertRule :=
  { row.2.rule with id := row.1, nextEvaluationAt := row.2.y.or row.2.x }

def decodeRule (row : AlertRuleId × RuleDocument) : Except NotificationStoreError AlertRule := do
  (decoded row).validate.mapError fun _ => .invalidData
  return decoded row

theorem decodeRule_eq_ok (row : AlertRuleId × RuleDocument) (rule : AlertRule) :
    decodeRule row = .ok rule ↔ row.2.rule.validate = .ok () ∧ rule = decoded row := by
  simp only [decodeRule, bind_eq_ok, mapError_eq_ok, pure_eq_ok]
  constructor
  · rintro ⟨_, hvalid, rfl⟩
    exact ⟨hvalid, rfl⟩
  · rintro ⟨hvalid, rfl⟩
    exact ⟨(), hvalid, rfl⟩

/-- The filter of `matching_rules_inner`. -/
def RuleDocument.matchesKind (document : RuleDocument) (projectId : ProjectId)
    (kind : IssueNotificationKind) : Bool :=
  document.rule.projectId = projectId ∧ document.rule.enabled ∧ kind ∈ document.rule.triggers

def matchingRules (store : NotificationStore) (projectId : ProjectId) (kind : IssueNotificationKind)
    (limit : Nat) : Except NotificationStoreError (List AlertRule) := do
  failIf (¬ (1 ≤ limit ∧ limit ≤ 1000)) .invalidData
  let documents := (store.alertRules.toList.filter (·.2.matchesKind projectId kind)).take (limit + 1)
  let rules ← documents.mapM decodeRule
  failIf (limit < rules.length) .invalidData
  return rules

/-- `encode_delivery`, which writes a pending delivery. -/
def encodeDelivery (delivery : NotificationDelivery) :
    Except NotificationStoreError NotificationDelivery := do
  failIf delivery.payload.asBytes.isEmpty .invalidData
  return { delivery with
    status := .pending
    lastError := none
    deliveredAt := none
    deleteAt := none }

/-- `update_one` by identity with `$setOnInsert` and `upsert`. -/
def enqueueDelivery (store : NotificationStore) (delivery : NotificationDelivery) :
    NotificationStore × Except NotificationStoreError Unit :=
  match encodeDelivery delivery with
  | .error error => (store, .error error)
  | .ok document =>
      ({ store with deliveries := store.deliveries.insertIfNew delivery.id document }, .ok ())

/-- The pipeline update that drops a transition of an issue, and the fields `j` and `n` with the last
one. -/
def IssueDocument.remove (issue : IssueDocument) (transitions : List PendingTransition)
    (id : IssueTransitionId) : IssueDocument :=
  let rest := transitions.filter (·.id ≠ id)
  { issue with
    pending := !rest.isEmpty
    transitions := if rest.isEmpty then none else some rest }

def removeTransition (store : NotificationStore) (transition : IssueNotificationTransition) :
    NotificationStore :=
  match store.issues[transition.issueId]? with
  | none => store
  | some issue =>
      match issue.transitions with
      | none => store
      | some transitions =>
          if issue.projectId = transition.projectId
              ∧ transition.transitionId ∈ transitions.map (·.id) then
            let remaining := issue.remove transitions transition.transitionId
            { store with issues := store.issues.insert transition.issueId remaining }
          else store

def expandTransition (store : NotificationStore) (transition : IssueNotificationTransition)
    (deliveries : List NotificationDelivery) :
    NotificationStore × Except NotificationStoreError Unit :=
  let (store, result) := runUntilError (fun store (delivery : NotificationDelivery) =>
    if delivery.transitionId ≠ transition.transitionId ∨ delivery.projectId ≠ transition.projectId
        ∨ delivery.issueId ≠ transition.issueId then (store, .error .invalidData)
    else enqueueDelivery store delivery) store deliveries
  match result with
  | .error error => (store, .error error)
  | .ok () => (removeTransition store transition, .ok ())

/-! ### Aggregate rules -/

def dueNoLater (left right : AlertRuleId × RuleDocument) : Prop :=
  ∀ due ∈ left.2.x, ∀ other ∈ right.2.x, due ≤ other

instance : DecidableRel dueNoLater := fun left right =>
  inferInstanceAs (Decidable (∀ due ∈ left.2.x, ∀ other ∈ right.2.x, due ≤ other))

/-- The filter and the sort of `claim_due_aggregate_rule_inner`. -/
def dueAggregateRules (store : NotificationStore) (now : Timestamp) :
    List (AlertRuleId × RuleDocument) :=
  (store.alertRules.toList.filter fun row =>
      row.2.rule.enabled && row.2.rule.aggregate.isSome && row.2.x.any (· ≤ now)).insertionSort
    dueNoLater

def RuleDocument.claim (document : RuleDocument) (leaseUntil : Timestamp) : RuleDocument where
  rule := { document.rule with nextEvaluationAt := some leaseUntil }
  y := document.x

def claimDueAggregateRule (store : NotificationStore) (now leaseUntil : Timestamp) :
    NotificationStore × Except NotificationStoreError (Option AlertRule) :=
  if leaseUntil ≤ now then (store, .error .invalidData)
  else match (dueAggregateRules store now).head? with
    | none => (store, .ok none)
    | some (id, document) =>
        let claimed := document.claim leaseUntil
        ({ store with alertRules := store.alertRules.insert id claimed },
          (decodeRule (id, claimed)).map some)

/-- The arguments of `complete_aggregate_rule` after the deliveries. -/
structure AggregateCompletion where
  ruleId : AlertRuleId
  claimedUntil : Timestamp
  nextEvaluationAt : Timestamp
  thresholdMet : Bool
  lastTriggeredAt : Option Timestamp
  stormWindowStartedAt : Option Timestamp
  stormCount : Nat
deriving DecidableEq

/-- The filter of the last update of `complete_aggregate_rule_inner`: the claim is still held. -/
def claimHeld (store : NotificationStore) (completion : AggregateCompletion) : Bool :=
  store.alertRules[completion.ruleId]?.any fun document =>
    document.x = some completion.claimedUntil

def RuleDocument.complete (document : RuleDocument) (completion : AggregateCompletion) :
    RuleDocument where
  rule := { document.rule with
    nextEvaluationAt := some completion.nextEvaluationAt
    thresholdMet := completion.thresholdMet
    lastTriggeredAt := completion.lastTriggeredAt
    stormWindowStartedAt := completion.stormWindowStartedAt
    stormCount := completion.stormCount }
  y := none

/-- The last update of `complete_aggregate_rule_inner`. -/
def finishAggregateRule (store : NotificationStore) (completion : AggregateCompletion) :
    NotificationStore :=
  match store.alertRules[completion.ruleId]? with
  | none => store
  | some document =>
      if document.x = some completion.claimedUntil then
        let completed := document.complete completion
        { store with alertRules := store.alertRules.insert completion.ruleId completed }
      else store

def completeAggregateRule (store : NotificationStore) (completion : AggregateCompletion)
    (deliveries : List NotificationDelivery) :
    NotificationStore × Except NotificationStoreError Unit :=
  match runUntilError enqueueDelivery store deliveries with
  | (store, .error error) => (store, .error error)
  | (store, .ok ()) => (finishAggregateRule store completion, .ok ())

end MongoNotifications
end MetricBackend
