import MetricBackend.NotificationDispatch
import MetricBackend.LibRuns

/-! Identity of aggregate alerts across crashes. Workers claim due rules, evaluate them, write the
deliveries one by one and complete the claim; any of them can stop in between, and a claim whose
lease has run out is taken again. A claim moves the field `x` of the rule into `y` and puts its lease
into `x`, so the window that identifies the alert is the scheduled one only for the first claim after
a completion. -/

namespace MetricBackend.NotificationDispatch

open MongoNotifications

variable (blake3 : List (BitVec 8) → BitVec 256) (ruleId : AlertRuleId)

/-- What a worker does after `evaluate_rule` has called `complete_aggregate_rule`: the deliveries it
still writes, then the completion. -/
structure InFlight where
  completion : AggregateCompletion
  deliveries : List NotificationDelivery
deriving DecidableEq

/-- A claimed rule and the instant of its evaluation. -/
structure Evaluation where
  rule : AlertRule
  now : Timestamp
deriving DecidableEq

def Evaluation.window (evaluation : Evaluation) : Timestamp :=
  evaluationWindow evaluation.rule evaluation.now

/-- The store, the workers, and the evaluations of the rule since its last successful completion. -/
structure World where
  store : NotificationStore
  workers : List InFlight
  evaluations : List Evaluation

inductive Action where
  /-- One pass of `evaluate_once`; `answer` is what the explore query returns. -/
  | claim (now leaseUntil : Timestamp) (answer : Except NotificationError Nat)
  /-- A worker writes its next delivery. -/
  | deliver (worker : Nat)
  /-- A worker without deliveries left completes its claim. -/
  | complete (worker : Nat)
  /-- A worker stops. -/
  | crash (worker : Nat)

/-- The workers after a claim: an evaluation that fails leaves no worker. -/
def startWorker (workers : List InFlight) (rule : AlertRule) (now leaseUntil : Timestamp)
    (answer : Except NotificationError Nat) : List InFlight :=
  match evaluateRule blake3 (fun _ _ _ => answer) rule now leaseUntil with
  | .ok (completion, deliveries) => workers ++ [⟨completion, deliveries⟩]
  | .error _ => workers

def execute (world : World) : Action → World
  | .claim now leaseUntil answer =>
      match claimDueAggregateRule world.store now leaseUntil with
      | (store, .ok (some rule)) =>
          { store := store
            workers := startWorker blake3 world.workers rule now leaseUntil answer
            evaluations := if rule.id = ruleId then ⟨rule, now⟩ :: world.evaluations
              else world.evaluations }
      | (store, _) => { world with store := store }
  | .deliver worker =>
      match world.workers[worker]? with
      | some ⟨completion, delivery :: deliveries⟩ =>
          { world with
            store := (enqueueDelivery world.store delivery).1
            workers := world.workers.set worker ⟨completion, deliveries⟩ }
      | _ => world
  | .complete worker =>
      match world.workers[worker]? with
      | some ⟨completion, []⟩ =>
          { store := finishAggregateRule world.store completion
            workers := world.workers.eraseIdx worker
            evaluations := if completion.ruleId = ruleId ∧ claimHeld world.store completion then []
              else world.evaluations }
      | _ => world
  | .crash worker => { world with workers := world.workers.eraseIdx worker }

/-- All evaluations since the last successful completion stand for one window, so they derive the same
transition and the same deliveries for the same action. -/
def SameIdentity (world : World) : Prop :=
  ∀ first ∈ world.evaluations, ∀ second ∈ world.evaluations, first.window = second.window
    ∧ ∀ action destinationId,
      aggregateTransitionId blake3 ruleId first.window action
          = aggregateTransitionId blake3 ruleId second.window action
        ∧ notificationDeliveryId blake3 (aggregateTransitionId blake3 ruleId first.window action)
            ruleId destinationId
          = notificationDeliveryId blake3 (aggregateTransitionId blake3 ruleId second.window action)
            ruleId destinationId

/-- The action claims the rule while an earlier claim of it has not been completed. -/
def Reclaims (world : World) : Action → Prop
  | .claim now leaseUntil _ => now < leaseUntil ∧ ∃ document,
      (dueAggregateRules world.store now).head? = some (ruleId, document)
        ∧ document.rule.validate = .ok () ∧ document.y.isSome
  | _ => False

/-- Without a repeated claim: at most one evaluation since the last completion, of the window kept in
`y`, with the lease of its claim later than that window. -/
structure SingleClaim (world : World) : Prop where
  few : world.evaluations.length ≤ 1
  unclaimed : (world.store.alertRules[ruleId]?.bind (·.y)) = none → world.evaluations = []
  claimed : ∀ document window, world.store.alertRules[ruleId]? = some document →
    document.y = some window → (∃ lease, document.x = some lease ∧ window < lease)
      ∧ (document.rule.validate = .ok () → ∃ evaluation, world.evaluations = [evaluation]
        ∧ evaluation.window = window)

variable {blake3 ruleId} {world : World}

theorem sameIdentity_of_windows
    (h : ∀ first ∈ world.evaluations, ∀ second ∈ world.evaluations, first.window = second.window) :
    SameIdentity blake3 ruleId world := by
  intro first hfirst second hsecond
  have hwindow := h first hfirst second hsecond
  rw [hwindow]
  exact ⟨rfl, fun _ _ => ⟨rfl, rfl⟩⟩

theorem SingleClaim.sameIdentity (h : SingleClaim ruleId world) : SameIdentity blake3 ruleId world := by
  refine sameIdentity_of_windows fun first hfirst second hsecond => ?_
  obtain ⟨evaluation, hevaluation⟩ : ∃ evaluation, world.evaluations ⊆ [evaluation] := by
    cases hlist : world.evaluations with
    | nil => exact ⟨first, by simp⟩
    | cons evaluation rest =>
        have := h.few
        rw [hlist, List.length_cons] at this
        have hrest : rest = [] := List.eq_nil_of_length_eq_zero (by omega)
        exact ⟨evaluation, by rw [hrest]; exact List.Subset.refl _⟩
  rw [List.mem_singleton.mp (hevaluation hfirst), List.mem_singleton.mp (hevaluation hsecond)]

/-! ### Claims -/

/-- The rule a claim takes is stored and due. -/
theorem stored_of_head_due {store : NotificationStore} {now : Timestamp} {id : AlertRuleId}
    {document : RuleDocument} (h : (dueAggregateRules store now).head? = some (id, document)) :
    store.alertRules[id]? = some document ∧ ∃ due, document.x = some due ∧ due ≤ now := by
  have hmem := (List.mem_insertionSort _).mp (List.mem_of_head? h)
  obtain ⟨hrow, hfilter⟩ := List.mem_filter.mp hmem
  refine ⟨Table.mem_toList.mp hrow, ?_⟩
  simp only [Bool.and_eq_true, Option.any_eq_true, decide_eq_true_eq] at hfilter
  exact hfilter.2

variable (blake3 ruleId) in
/-- What a claim does to the world: nothing, or it moves one due rule under its lease and evaluates
it when it is valid. -/
theorem execute_claim (world : World) (now leaseUntil : Timestamp)
    (answer : Except NotificationError Nat) :
    ((leaseUntil ≤ now ∨ (dueAggregateRules world.store now).head? = none)
        ∧ execute blake3 ruleId world (.claim now leaseUntil answer) = world)
      ∨ ∃ id document, now < leaseUntil
        ∧ (dueAggregateRules world.store now).head? = some (id, document)
        ∧ (execute blake3 ruleId world (.claim now leaseUntil answer)).store.alertRules
          = world.store.alertRules.insert id (document.claim leaseUntil)
        ∧ (execute blake3 ruleId world (.claim now leaseUntil answer)).evaluations
          = if id = ruleId ∧ document.rule.validate = .ok () then
              ⟨decoded (id, document.claim leaseUntil), now⟩ :: world.evaluations
            else world.evaluations := by
  by_cases hlease : leaseUntil ≤ now
  · refine .inl ⟨.inl hlease, ?_⟩
    simp only [execute, claimDueAggregateRule, if_pos hlease]
  · cases hhead : (dueAggregateRules world.store now).head? with
    | none =>
        refine .inl ⟨.inr rfl, ?_⟩
        simp only [execute, claimDueAggregateRule, if_neg hlease, hhead]
    | some row =>
        obtain ⟨id, document⟩ := row
        right
        refine ⟨id, document, not_le.mp hlease, rfl, ?_⟩
        have hclaim : claimDueAggregateRule world.store now leaseUntil
            = ({ world.store with
                alertRules := world.store.alertRules.insert id (document.claim leaseUntil) },
              (decodeRule (id, document.claim leaseUntil)).map some) := by
          simp only [claimDueAggregateRule, if_neg hlease, hhead]
        cases hdecode : decodeRule (id, document.claim leaseUntil) with
        | error error =>
            have hinvalid : ¬ document.rule.validate = .ok () := by
              intro hvalid
              have := (decodeRule_eq_ok (id, document.claim leaseUntil) _).mpr ⟨hvalid, rfl⟩
              rw [hdecode] at this
              cases this
            simp only [execute, hclaim, hdecode, Except.map, hinvalid, and_false, if_false,
              and_self]
        | ok rule =>
            obtain ⟨hvalid, rfl⟩ := (decodeRule_eq_ok _ rule).mp hdecode
            have hvalid' : document.rule.validate = .ok () := hvalid
            simp only [execute, hclaim, hdecode, Except.map, hvalid', and_true, true_and]
            rfl

/-! ### Runs -/

theorem SingleClaim.congr {next : World} (h : SingleClaim ruleId world)
    (hrow : next.store.alertRules[ruleId]? = world.store.alertRules[ruleId]?)
    (hevaluations : next.evaluations = world.evaluations) : SingleClaim ruleId next where
  few := hevaluations ▸ h.few
  unclaimed := by
    rw [hrow, hevaluations]
    exact h.unclaimed
  claimed := by
    rw [hrow, hevaluations]
    exact h.claimed

/-- The window of an evaluation is the time the rule was due. -/
theorem window_of_claim {id : AlertRuleId} {document : RuleDocument} {due now leaseUntil : Timestamp}
    (hdue : document.x = some due) :
    Evaluation.window ⟨decoded (id, document.claim leaseUntil), now⟩ = due := by
  simp [Evaluation.window, evaluationWindow, decoded, RuleDocument.claim, hdue]

/-- A claimed row, with at most one evaluation and that of its window. -/
theorem SingleClaim.of_row {document : RuleDocument} {window lease : Timestamp}
    (hrow : world.store.alertRules[ruleId]? = some document) (hy : document.y = some window)
    (hx : document.x = some lease) (hlt : window < lease) (hfew : world.evaluations.length ≤ 1)
    (hlast : document.rule.validate = .ok () →
      ∃ evaluation, world.evaluations = [evaluation] ∧ evaluation.window = window) :
    SingleClaim ruleId world where
  few := hfew
  unclaimed := by
    rw [hrow, Option.bind_some, hy]
    rintro ⟨⟩
  claimed := by
    intro other otherWindow hother hwindow
    rw [hrow, Option.some.injEq] at hother
    subst hother
    rw [hy, Option.some.injEq] at hwindow
    subst hwindow
    exact ⟨⟨lease, hx, hlt⟩, hlast⟩

theorem singleClaim_claim {now leaseUntil : Timestamp} {answer : Except NotificationError Nat}
    (h : SingleClaim ruleId world) (hallowed : ¬ Reclaims ruleId world (.claim now leaseUntil answer)) :
    SingleClaim ruleId (execute blake3 ruleId world (.claim now leaseUntil answer)) := by
  rcases execute_claim blake3 ruleId world now leaseUntil answer with
    ⟨-, hsame⟩ | ⟨id, document, hlease, hhead, hrules, hevaluations⟩
  · rw [hsame]
    exact h
  obtain ⟨hstored, due, hdue, hnow⟩ := stored_of_head_due hhead
  by_cases hid : id = ruleId
  case neg =>
    refine h.congr ?_ ?_
    · rw [hrules, Table.get_insert_of_ne _ _ hid]
    · rw [hevaluations, if_neg fun hand => hid hand.1]
  case pos =>
    subst hid
    have hrow : (execute blake3 id world (.claim now leaseUntil answer)).store.alertRules[id]?
        = some (document.claim leaseUntil) := by
      rw [hrules, Table.get_insert_self]
    by_cases hvalid : document.rule.validate = .ok ()
    · have hfresh : document.y = none := by
        by_contra hy
        exact hallowed ⟨hlease, document, hhead, hvalid, Option.isSome_iff_ne_none.mpr hy⟩
      have hnone := h.unclaimed (by rw [hstored, Option.bind_some, hfresh])
      rw [if_pos ⟨rfl, hvalid⟩, hnone] at hevaluations
      refine .of_row hrow hdue rfl (hnow.trans_lt hlease) ?_ fun _ => ?_
      · rw [hevaluations]
        exact le_refl 1
      · exact ⟨_, hevaluations, window_of_claim hdue⟩
    · rw [if_neg fun hand => hvalid hand.2] at hevaluations
      refine .of_row hrow hdue rfl (hnow.trans_lt hlease) ?_ fun hclaimed => absurd hclaimed hvalid
      rw [hevaluations]
      exact h.few

theorem enqueueDelivery_alertRules (store : NotificationStore) (delivery : NotificationDelivery) :
    (enqueueDelivery store delivery).1.alertRules = store.alertRules := by
  unfold enqueueDelivery
  split <;> rfl

/-- A completion writes nothing unless its claim is still held. -/
theorem finishAggregateRule_alertRules (store : NotificationStore) (completion : AggregateCompletion) :
    (claimHeld store completion = false ∧ finishAggregateRule store completion = store)
      ∨ claimHeld store completion = true ∧ ∃ document : RuleDocument,
        (finishAggregateRule store completion).alertRules
          = store.alertRules.insert completion.ruleId (document.complete completion) := by
  unfold claimHeld finishAggregateRule
  cases hstored : store.alertRules[completion.ruleId]? with
  | none => exact .inl ⟨rfl, rfl⟩
  | some document =>
      by_cases hx : document.x = some completion.claimedUntil
      · exact .inr ⟨by simp [hx], document, by simp [hx]⟩
      · exact .inl ⟨by simp [hx], by simp [hx]⟩

theorem singleClaim_complete {worker : Nat} (h : SingleClaim ruleId world) :
    SingleClaim ruleId (execute blake3 ruleId world (.complete worker)) := by
  simp only [execute]
  split
  · rename_i completion _
    rcases finishAggregateRule_alertRules world.store completion with
      ⟨hheld, hsame⟩ | ⟨hheld, document, hrules⟩
    · refine h.congr ?_ ?_
      · rw [hsame]
      · simp [hheld]
    · by_cases hid : completion.ruleId = ruleId
      · have hrow : (finishAggregateRule world.store completion).alertRules[ruleId]?
            = some (document.complete completion) := by
          rw [hrules, hid, Table.get_insert_self]
        constructor
        · simp [hid, hheld]
        · simp [hid, hheld]
        · intro other window hother hwindow
          rw [hrow, Option.some.injEq] at hother
          subst hother
          cases hwindow
      · refine h.congr ?_ ?_
        · rw [hrules, Table.get_insert_of_ne _ _ hid]
        · simp [hid]
  · exact h

/-- Every action that does not claim the rule again keeps the single claim. -/
theorem singleClaim_execute (action : Action) (h : SingleClaim ruleId world)
    (hallowed : ¬ Reclaims ruleId world action) :
    SingleClaim ruleId (execute blake3 ruleId world action) := by
  cases action with
  | claim now leaseUntil answer => exact singleClaim_claim h hallowed
  | deliver worker =>
      simp only [execute]
      split
      · exact h.congr (by rw [enqueueDelivery_alertRules]) rfl
      · exact h
  | complete worker => exact singleClaim_complete h
  | crash worker => exact h.congr rfl rfl

/-- A repeated claim evaluates the rule under the lease of the claim before it. -/
theorem reclaim_changes_window {action : Action} (h : SingleClaim ruleId world)
    (hreclaim : Reclaims ruleId world action) :
    ¬ SameIdentity blake3 ruleId (execute blake3 ruleId world action) := by
  cases action with
  | claim now leaseUntil answer =>
      obtain ⟨hlease, document, hhead, hvalid, hy⟩ := hreclaim
      obtain ⟨window, hwindow⟩ := Option.isSome_iff_exists.mp hy
      obtain ⟨hstored, -⟩ := stored_of_head_due hhead
      obtain ⟨⟨lease, hx, hlt⟩, hevaluation⟩ := h.claimed document window hstored hwindow
      obtain ⟨evaluation, hevaluations, hfirst⟩ := hevaluation hvalid
      rcases execute_claim blake3 ruleId world now leaseUntil answer with
        ⟨hidle, -⟩ | ⟨id, taken, -, htaken, -, hnext⟩
      · rcases hidle with hidle | hidle
        · exact absurd hlease (not_lt.mpr hidle)
        · rw [hhead] at hidle
          cases hidle
      · rw [hhead, Option.some.injEq, Prod.mk.injEq] at htaken
        obtain ⟨rfl, rfl⟩ := htaken
        rw [if_pos ⟨rfl, hvalid⟩, hevaluations] at hnext
        intro hidentity
        have hwindows := (hidentity ⟨decoded (ruleId, document.claim leaseUntil), now⟩
          (by rw [hnext]; simp) evaluation (by rw [hnext]; simp)).1
        rw [window_of_claim hx, hfirst] at hwindows
        exact absurd hwindows hlt.ne'
  | deliver worker => exact hreclaim.elim
  | complete worker => exact hreclaim.elim
  | crash worker => exact hreclaim.elim

/-- From a rule without an open claim, in every run of claims, deliveries, completions and crashes: the
evaluations between two successful completions keep one identity exactly when no claim takes the rule
while an earlier claim of it is open. -/
theorem aggregate_identity_iff (blake3 : List (BitVec 8) → BitVec 256) (ruleId : AlertRuleId)
    (store : NotificationStore) (workers : List InFlight) (actions : List Action)
    (hinit : (store.alertRules[ruleId]?.bind (·.y)) = none) :
    Always (execute blake3 ruleId) (SameIdentity blake3 ruleId) ⟨store, workers, []⟩ actions ↔
      Throughout (execute blake3 ruleId) (fun world action => ¬ Reclaims ruleId world action)
        ⟨store, workers, []⟩ actions := by
  have hstart : SingleClaim ruleId ⟨store, workers, []⟩ := by
    refine ⟨Nat.zero_le 1, fun _ => rfl, fun document window hstored hy => ?_⟩
    change store.alertRules[ruleId]? = some document at hstored
    rw [hstored, Option.bind_some, hy] at hinit
    cases hinit
  exact always_iff_throughout (fun _ h => h.sameIdentity) (fun _ action h => singleClaim_execute action h)
    (fun _ _ h hnot => reclaim_changes_window h (not_not.mp hnot)) actions _ hstart

/-! A log alert due at 1700000000000. Its first worker writes the delivery and stops; a second one
claims the rule after the lease. -/

def alertRuleId : AlertRuleId := ⟨77⟩

def alertRule : AlertRule where
  id := alertRuleId
  projectId := ⟨7, ProjectId.positive_seven⟩
  name := ⟨"error logs".toList, by decide⟩
  enabled := true
  triggers := []
  aggregate := some ⟨.logs, 15, 5, 100, none, none, false⟩
  monitor := none
  destinationIds := [⟨5⟩]
  cooldownMinutes := 0
  stormLimitPerHour := 100
  nextEvaluationAt := some ⟨1700000000000, inRange_sampleStart⟩
  lastTriggeredAt := none
  stormWindowStartedAt := none
  stormCount := 0
  thresholdMet := false
  createdAt := ⟨1690000000000, inRange_sampleSetup⟩
  updatedAt := ⟨1690000000000, inRange_sampleSetup⟩

def alertStore : NotificationStore where
  issues := ∅
  alertRules := (∅ : Table AlertRuleId RuleDocument).insert alertRuleId ⟨alertRule, none⟩
  deliveries := ∅

/-- The digests of the two transitions and of their deliveries. -/
def alertBlake3 (input : List (BitVec 8)) : BitVec 256 :=
  let transitionInput (window : Int) : List (BitVec 8) :=
    utf8Bytes "metric/aggregate-alert/v1".toList ++ bigEndian 16 77 ++ bigEndian 8 window
      ++ utf8Bytes "aggregate_threshold".toList
  let deliveryInput (transitionId : Nat) : List (BitVec 8) :=
    hashInput [] [utf8Bytes "notification-delivery/v1".toList, bigEndian 16 transitionId,
      bigEndian 16 77, bigEndian 16 5]
  if input = transitionInput 1700000000000 then
    0xddcc8bb0eed14696c2337ceb74f8006fee9b205065cbaf2527afad721e24b369
  else if input = transitionInput 1700000061000 then
    0x24be62c55e0cd92f7b6c6937b89c0145c96695abe13b996b26e8fda5ff51f6d7
  else if input = deliveryInput 0xddcc8bb0eed14696c2337ceb74f8006f then
    0xa40c0332ae85243795ddef01344dd9cd9aa4fd9b681523574aae736960fa26c3
  else if input = deliveryInput 0x24be62c55e0cd92f7b6c6937b89c0145 then
    0xfb573b25209007078de53b18144869baffa88f7453e2be679513946c232bab05
  else 0

theorem inRange_alertClaim : minTimestampMillis ≤ 1700000001000 ∧ 1700000001000 ≤ maxTimestampMillis := by decide

theorem inRange_alertLease : minTimestampMillis ≤ 1700000061000 ∧ 1700000061000 ≤ maxTimestampMillis := by decide

def alertCrash : List Action := [
  .claim ⟨1700000001000, inRange_alertClaim⟩ ⟨1700000061000, inRange_alertLease⟩ (.ok 250),
  .deliver 0,
  .crash 0,
  .claim ⟨1700000062000, by decide⟩ ⟨1700000122000, by decide⟩ (.ok 250),
  .deliver 0]

theorem aggregate_identity_iff_alert :
    Always (execute alertBlake3 alertRuleId) (SameIdentity alertBlake3 alertRuleId)
        ⟨alertStore, [], []⟩ alertCrash ↔
      Throughout (execute alertBlake3 alertRuleId)
        (fun world action => ¬ Reclaims alertRuleId world action) ⟨alertStore, [], []⟩ alertCrash :=
  aggregate_identity_iff alertBlake3 alertRuleId alertStore [] alertCrash (by decide)

/-- The second worker stands for the window at which the lease of the first ran out, and the one
destination gets a second delivery. -/
theorem aggregate_identity_lost_after_crash :
    ¬ Always (execute alertBlake3 alertRuleId) (SameIdentity alertBlake3 alertRuleId)
        ⟨alertStore, [], []⟩ alertCrash
      ∧ (alertCrash.foldl (execute alertBlake3 alertRuleId)
        ⟨alertStore, [], []⟩).store.deliveries.toList.map (·.2.destinationId) = [⟨5⟩, ⟨5⟩] := by
  refine ⟨fun halways => ?_, by decide +kernel⟩
  have hlast := halways.last
  have hwindows : (alertCrash.foldl (execute alertBlake3 alertRuleId)
      ⟨alertStore, [], []⟩).evaluations.map (·.window.unixMillis)
        = [1700000061000, 1700000000000] := by
    decide +kernel
  obtain ⟨second, rest, hsecond, hsecondWindow, hrest⟩ := List.map_eq_cons_iff.mp hwindows
  obtain ⟨first, _, hfirst, hfirstWindow, -⟩ := List.map_eq_cons_iff.mp hrest
  have hsame := (hlast second (by simp [hsecond]) first (by simp [hsecond, hfirst])).1
  rw [hsame, hfirstWindow] at hsecondWindow
  exact absurd hsecondWindow (by decide)

end MetricBackend.NotificationDispatch
