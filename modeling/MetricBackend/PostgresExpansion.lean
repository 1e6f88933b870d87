import MetricBackend.NotificationExpansion
import MetricBackend.PostgresNotifications

/-! Transition expansion over the Postgres store of `postgres/src/notifications.rs`: the page of pending
transitions, the rules that match one, and the transaction that writes its deliveries and drops it. The
loop of `expand_once` stops at the first transition that cannot be delivered here as well, and the store
refuses more than Mongo does: a batch beyond its bounds and a target of another project. -/

namespace MetricBackend.PostgresExpansion

open NotificationDispatch (transitionDeliveries transitionDeliveries_ok)
open PostgresNotifications (NotificationStore bounded guardProjects validateBatch writeDeliveries)

def readBytes : Nat := 8 * 1024 * 1024

/-- A rule and the sizes of its body: `config_size` and the bytes of the column `config`. -/
structure RuleRow where
  rule : AlertRule
  configSize : Nat
  configLength : Nat
deriving DecidableEq

structure TransitionRow where
  issueId : IssueId
  kind : IssueNotificationKind
  eventId : EventId
  createdAt : Timestamp
deriving DecidableEq

/-- The tables that expansion reads and writes; of an issue it reads the title. -/
structure ExpansionStore where
  projects : Table ProjectId ProjectAcceptanceState
  titles : Table (ProjectId ×ₗ IssueId) IssueTitle
  transitions : Table (ProjectId ×ₗ IssueTransitionId) TransitionRow
  rules : Table AlertRuleId RuleRow
  destinations : Table NotificationDestinationId NotificationDestination
  deliveries : Deliveries

/-- The tables of the deliveries; expansion does not read the cursor of the claims. -/
def ExpansionStore.notifications (store : ExpansionStore) : NotificationStore where
  projects := store.projects
  rules := store.rules.map fun _ row => row.rule.projectId
  destinations := store.destinations
  deliveries := store.deliveries
  lastProject := none
  lastDestination := none

def ExpansionStore.isLive (store : ExpansionStore) (project : ProjectId) : Bool :=
  store.notifications.isLive project

/-! ### Pending transitions -/

/-- A row of the join of the transitions with their issues. -/
def ExpansionStore.joined (store : ExpansionStore)
    (row : (ProjectId ×ₗ IssueTransitionId) × TransitionRow) : Option IssueNotificationTransition :=
  let (projectId, transitionId) := ofLex row.1
  store.titles[toLex (projectId, row.2.issueId)]?.map fun title => {
    transitionId := transitionId
    projectId := projectId
    issueId := row.2.issueId
    kind := row.2.kind
    eventId := row.2.eventId
    createdAt := row.2.createdAt
    title := title }

def createdNoLater (left right : IssueNotificationTransition) : Prop :=
  left.createdAt ≤ right.createdAt

instance : DecidableRel createdNoLater := fun left right =>
  inferInstanceAs (Decidable (left.createdAt ≤ right.createdAt))

/-- The rows come in the order of project and identity, and the sort by creation is stable. -/
def pendingTransitions (store : ExpansionStore) (limit : Nat) :
    Except NotificationStoreError (List IssueNotificationTransition) := do
  bounded limit 10000
  let transitions := (store.transitions.toList.filterMap store.joined).filter fun transition =>
    store.isLive transition.projectId
  return (transitions.insertionSort createdNoLater).take limit

/-! ### Matching rules -/

def ruleKind (rule : AlertRule) : Nat :=
  if rule.aggregate.isSome then 1
  else if rule.monitor.isSome then 2
  else 0

/-- The bit of a kind in a trigger mask. -/
def triggerBit : IssueNotificationKind → Nat
  | .newIssue => 1
  | .regression => 2
  | .resolved => 4

def mask (rule : AlertRule) : Nat :=
  rule.triggers.foldl (fun value kind => value ||| triggerBit kind) 0

def RuleRow.matchesKind (row : RuleRow) (projectId : ProjectId) (kind : IssueNotificationKind) : Bool :=
  row.rule.projectId = projectId ∧ ruleKind row.rule = 0 ∧ row.rule.enabled
    ∧ mask row.rule &&& triggerBit kind ≠ 0

/-- What a row adds to `response_bytes`. -/
def RuleRow.bytes (row : RuleRow) : Nat := max row.configSize row.configLength

/-- `decode_rule` over an answer, whose bytes `finish` cumulates: a body beyond them is withheld, and
its row does not decode. -/
def decodeRules (responseBytes : Nat) :
    List (AlertRuleId × RuleRow) → Except NotificationStoreError (List AlertRule)
  | [] => .ok []
  | (id, row) :: rows => do
      failIf (readBytes < responseBytes + row.bytes) .invalidData
      row.rule.validate.mapError fun _ => NotificationStoreError.invalidData
      let rules ← decodeRules (responseBytes + row.bytes) rows
      return { row.rule with id := id } :: rules

def matchingRules (store : ExpansionStore) (projectId : ProjectId) (kind : IssueNotificationKind)
    (limit : Nat) : Except NotificationStoreError (List AlertRule) := do
  bounded limit 1000
  let rows := (store.rules.toList.filter (·.2.matchesKind projectId kind)).take (limit + 1)
  failIf (limit < rows.length) .invalidData
  decodeRules (rows.length * 512) rows

/-! ### Expansion -/

variable (blake3 : List (BitVec 8) → BitVec 256)

def keyOf (transition : IssueNotificationTransition) : ProjectId ×ₗ IssueTransitionId :=
  toLex (transition.projectId, transition.transitionId)

def sameTransition (row : TransitionRow) (transition : IssueNotificationTransition) : Prop :=
  row.issueId = transition.issueId ∧ row.kind = transition.kind ∧ row.eventId = transition.eventId
    ∧ row.createdAt = transition.createdAt

instance (row : TransitionRow) (transition : IssueNotificationTransition) :
    Decidable (sameTransition row transition) :=
  inferInstanceAs (Decidable (_ ∧ _ ∧ _ ∧ _))

/-- The transaction of `expand`: the tables that it commits. -/
def expanded (store : ExpansionStore) (transition : IssueNotificationTransition)
    (deliveries : List NotificationDelivery) : Except NotificationStoreError ExpansionStore := do
  validateBatch deliveries
  failIf (deliveries.any fun delivery => delivery.projectId ≠ transition.projectId
    ∨ delivery.issueId ≠ transition.issueId
    ∨ delivery.transitionId ≠ transition.transitionId) .invalidData
  guardProjects store.notifications [transition.projectId]
  failIf (store.transitions[keyOf transition]?.any fun row => ¬ sameTransition row transition)
    .invalidData
  let written ← writeDeliveries store.notifications deliveries
  return { store with
    deliveries := written
    transitions := store.transitions.erase (keyOf transition) }

def expandTransition (store : ExpansionStore) (transition : IssueNotificationTransition)
    (deliveries : List NotificationDelivery) :
    ExpansionStore × Except NotificationStoreError Unit :=
  match expanded store transition deliveries with
  | .ok next => (next, .ok ())
  | .error error => (store, .error error)

/-- The deliveries `NotificationDispatcher::expand_transition` asks this store to write. -/
def plannedDeliveries (store : ExpansionStore) (transition : IssueNotificationTransition) :
    Except NotificationError (List NotificationDelivery) := do
  let rules ← (matchingRules store transition.projectId transition.kind
    expansionRuleLimit).mapError NotificationError.ofStore
  transitionDeliveries blake3 transition rules

/-- `NotificationDispatcher::expand_transition` over this store. -/
def expand (store : ExpansionStore) (transition : IssueNotificationTransition) :
    ExpansionStore × Except NotificationError Unit :=
  match plannedDeliveries blake3 store transition with
  | .error error => (store, .error error)
  | .ok deliveries =>
      let (store, result) := expandTransition store transition deliveries
      (store, result.mapError NotificationError.ofStore)

/-- `NotificationDispatcher::expand_once` over this store. -/
def expandOnce (store : ExpansionStore) (transitionBatchSize : Nat) :
    ExpansionStore × Except NotificationError Nat :=
  match pendingTransitions store transitionBatchSize with
  | .error error => (store, .error (.ofStore error))
  | .ok transitions =>
      let (store, result) := runUntilError (expand blake3) store transitions
      (store, result.map fun _ => transitions.length)

/-! ### When the rules load -/

variable {store next : ExpansionStore} {transition : IssueNotificationTransition}

/-- The rules for the kind of a transition in its project. -/
def matchingRows (store : ExpansionStore) (transition : IssueNotificationTransition) :
    List (AlertRuleId × RuleRow) :=
  store.rules.toList.filter fun row => row.2.rule.projectId = transition.projectId
    ∧ ruleKind row.2.rule = 0 ∧ row.2.rule.enabled ∧ transition.kind ∈ row.2.rule.triggers

/-- At most 256 rules match the transition, all are valid, and their bodies fit in one answer. -/
def Loads (store : ExpansionStore) (transition : IssueNotificationTransition) : Prop :=
  (matchingRows store transition).length ≤ expansionRuleLimit
    ∧ (∀ row ∈ matchingRows store transition, row.2.rule.validate = .ok ())
    ∧ ((matchingRows store transition).map fun row => row.2.bytes + 512).sum ≤ readBytes

theorem and_triggerBit_eq_zero {kind other : IssueNotificationKind} :
    triggerBit other &&& triggerBit kind = 0 ↔ kind ≠ other := by
  cases kind <;> cases other <;> decide

theorem foldl_triggerBit {kind : IssueNotificationKind} (triggers : List IssueNotificationKind) (value : Nat) :
    triggers.foldl (fun value kind => value ||| triggerBit kind) value &&& triggerBit kind = 0
      ↔ value &&& triggerBit kind = 0 ∧ kind ∉ triggers := by
  induction triggers generalizing value with
  | nil => simp
  | cons other rest ih =>
      rw [List.foldl_cons, ih, Nat.and_or_distrib_right, Nat.or_eq_zero_iff, and_triggerBit_eq_zero,
        List.mem_cons, not_or, and_assoc]

theorem matchesKind_eq {row : RuleRow} {projectId : ProjectId} {kind : IssueNotificationKind} :
    row.matchesKind projectId kind = decide (row.rule.projectId = projectId ∧ ruleKind row.rule = 0
      ∧ row.rule.enabled ∧ kind ∈ row.rule.triggers) := by
  unfold RuleRow.matchesKind mask
  refine decide_eq_decide.mpr (and_congr_right fun _ => and_congr_right fun _ => and_congr_right fun _ => ?_)
  rw [not_iff_comm, foldl_triggerBit]
  simp

theorem decodeRules_eq_ok {rows : List (AlertRuleId × RuleRow)} {responseBytes : Nat} {rules : List AlertRule} :
    decodeRules responseBytes rows = .ok rules ↔
      (rows ≠ [] → responseBytes + (rows.map (·.2.bytes)).sum ≤ readBytes)
        ∧ (∀ row ∈ rows, row.2.rule.validate = .ok ())
        ∧ rules = rows.map fun row => { row.2.rule with id := row.1 } := by
  induction rows generalizing responseBytes rules with
  | nil => simp [decodeRules, eq_comm]
  | cons row rows ih =>
      obtain ⟨id, row⟩ := row
      simp only [decodeRules, bind_eq_ok, failIf_eq_ok, mapError_eq_ok, pure_eq_ok, ih,
        List.map_cons, List.sum_cons, List.forall_mem_cons]
      constructor
      · rintro ⟨_, hfits, _, hvalid, _, ⟨hrest, hvalids, rfl⟩, rfl⟩
        refine ⟨fun _ => ?_, ⟨hvalid, hvalids⟩, rfl⟩
        cases rows with
        | nil => simpa using hfits
        | cons other rows =>
            have := hrest (by simp)
            omega
      · rintro ⟨hbytes, ⟨hvalid, hvalids⟩, rfl⟩
        have hfits := hbytes (by simp)
        exact ⟨(), by omega, (), hvalid, _, ⟨fun _ => by omega, hvalids, rfl⟩, rfl⟩

theorem sum_charges (rows : List (AlertRuleId × RuleRow)) :
    (rows.map fun row => row.2.bytes + 512).sum = rows.length * 512 + (rows.map (·.2.bytes)).sum := by
  induction rows with
  | nil => rfl
  | cons row rows ih =>
      rw [List.map_cons, List.sum_cons, ih, List.map_cons, List.sum_cons, List.length_cons]
      omega

theorem matchingRules_eq_ok {rules : List AlertRule} :
    matchingRules store transition.projectId transition.kind expansionRuleLimit = .ok rules ↔
      Loads store transition
        ∧ rules = (matchingRows store transition).map fun row => { row.2.rule with id := row.1 } := by
  have hrows : store.rules.toList.filter (·.2.matchesKind transition.projectId transition.kind)
      = matchingRows store transition := List.filter_congr fun row _ => matchesKind_eq
  simp only [matchingRules, bounded, bind_eq_ok, failIf_eq_ok, hrows, decodeRules_eq_ok]
  unfold Loads
  rw [sum_charges]
  constructor
  · rintro ⟨_, -, _, hlength, hbytes, hvalid, rfl⟩
    rw [List.length_take, not_lt] at hlength
    have hfew : (matchingRows store transition).length ≤ expansionRuleLimit := by omega
    rw [List.take_of_length_le (Nat.le_succ_of_le hfew)] at hbytes hvalid ⊢
    refine ⟨⟨hfew, hvalid, ?_⟩, rfl⟩
    by_cases hnil : matchingRows store transition = []
    · simp [hnil]
    · exact hbytes hnil
  · rintro ⟨⟨hfew, hvalid, hbytes⟩, rfl⟩
    rw [List.take_of_length_le (Nat.le_succ_of_le hfew)]
    exact ⟨(), by decide, (), by omega, fun _ => hbytes, hvalid, rfl⟩

/-- The deliveries of a transition can be planned exactly when its rules load. -/
theorem plannedDeliveries_ok :
    (∃ deliveries, plannedDeliveries blake3 store transition = .ok deliveries) ↔ Loads store transition := by
  simp only [plannedDeliveries, bind_eq_ok, mapError_eq_ok, matchingRules_eq_ok]
  constructor
  · rintro ⟨_, _, ⟨hloads, -⟩, -⟩
    exact hloads
  · intro hloads
    have hvalid : ∀ rule ∈ (matchingRows store transition).map fun row => { row.2.rule with id := row.1 },
        rule.validate = .ok () := by
      intro rule hrule
      obtain ⟨row, hrow, rfl⟩ := List.mem_map.mp hrule
      exact hloads.2.1 row hrow
    obtain ⟨deliveries, hdeliveries⟩ := transitionDeliveries_ok blake3 hvalid
    exact ⟨deliveries, _, ⟨hloads, rfl⟩, hdeliveries⟩

end MetricBackend.PostgresExpansion
