import MetricBackend.AggregateAlerts
import MetricBackend.LibThrottle
import MetricBackend.MonitorAlerts

/-! The budgets of alert rules over whole histories: the cooldown and the storm limit of an aggregate rule, and
those of a rule on a monitor, are each a throttle that the evaluations of the rule run. -/

namespace MetricBackend.NotificationDispatch

open MongoNotifications Throttle

/-- The budget that a rule stores. -/
def budget (rule : AlertRule) : Throttle :=
  ⟨rule.lastTriggeredAt.map (·.unixMillis), rule.stormWindowStartedAt.map (·.unixMillis), rule.stormCount⟩

def budgetLimits (rule : AlertRule) : Limits := ⟨3600000, rule.cooldownMinutes * 60000, rule.stormLimitPerHour⟩

/-! ### Runs of one rule -/

/-- A step of a rule: the stored rule before it and after it, the instant, and what was done. -/
structure RuleStep (α : Type) where
  before : AlertRule
  now : Timestamp
  done : α
  after : AlertRule

/-- Steps of one rule one after the other, the latest first. -/
inductive RuleRun {α : Type} (Holds : RuleStep α → Prop) (first : AlertRule) : List (RuleStep α) → AlertRule → Prop where
  | start : RuleRun Holds first [] first
  | step {history : List (RuleStep α)} {next : RuleStep α} (hrun : RuleRun Holds first history next.before)
      (h : Holds next) : RuleRun Holds first (next :: history) next.after

/-- The clock does not go back. -/
def Forward {α : Type} (history : List (RuleStep α)) : Prop :=
  history.Pairwise fun later earlier => earlier.now ≤ later.now

/-- What does not change in a run. -/
def sameConfig (left right : AlertRule) : Prop :=
  left.cooldownMinutes = right.cooldownMinutes ∧ left.stormLimitPerHour = right.stormLimitPerHour

section Runs

variable {α ι : Type} {Holds : RuleStep α → Prop} {first rule last : AlertRule} {history later : List (RuleStep α)}

/-- Steps that are steps of the budget make a run of the budget. -/
theorem RuleRun.run (kind : α → Kind)
    (hsteps : ∀ step, Holds step → step.before.stormLimitPerHour ≤ 10000 →
      Step (budgetLimits step.before) (budget step.before) step.now.unixMillis (kind step.done) (budget step.after)
        ∧ sameConfig step.before step.after)
    (hlimit : first.stormLimitPerHour ≤ 10000) (hrun : RuleRun Holds first history rule) (hclock : Forward history) :
    Run (budgetLimits first) (budget first)
        (history.map fun step => ⟨step.now.unixMillis, kind step.done, budget step.after⟩) (budget rule)
      ∧ sameConfig first rule := by
  induction hrun with
  | start => exact ⟨.start, rfl, rfl⟩
  | @step history next hrun h ih =>
      obtain ⟨hnow, hclock⟩ := List.pairwise_cons.mp hclock
      obtain ⟨hrun, hcooldown, hstorm⟩ := ih hclock
      obtain ⟨hstep, hcooldown', hstorm'⟩ := hsteps next h (hstorm ▸ hlimit)
      have hlimits : budgetLimits next.before = budgetLimits first := by
        rw [budgetLimits, budgetLimits, hcooldown, hstorm]
      rw [hlimits] at hstep
      refine ⟨.step hrun ?_ hstep, hcooldown.trans hcooldown', hstorm.trans hstorm'⟩
      intro entry hentry
      obtain ⟨earlier, hearlier, rfl⟩ := List.mem_map.mp hentry
      exact hnow earlier hearlier

/-- The hourly window of a rule starts here at some point of the history. -/
def IsWindowStart (first : AlertRule) (history : List (RuleStep α)) (start : Timestamp) : Prop :=
  first.stormWindowStartedAt = some start ∨ ∃ step ∈ history, step.after.stormWindowStartedAt = some start

/-- How often something was done in the hour from a start. -/
def doneInHour (what : α → Bool) (history : List (RuleStep α)) (start : Timestamp) : Nat :=
  history.countP fun step => what step.done
    && decide (start.unixMillis ≤ step.now.unixMillis ∧ step.now.unixMillis < start.unixMillis + 3600000)

/-- Two of the steps are at least the cooldown of the rule apart. -/
def Apart (first : AlertRule) (what : α → Prop) (history : List (RuleStep α)) : Prop :=
  history.Pairwise fun later earlier => what later.done → what earlier.done →
    (first.cooldownMinutes : Int) * 60000 ≤ later.now.unixMillis - earlier.now.unixMillis

section Budget

variable (kind : α → Kind)
    (hsteps : ∀ step, Holds step → step.before.stormLimitPerHour ≤ 10000 →
      Step (budgetLimits step.before) (budget step.before) step.now.unixMillis (kind step.done) (budget step.after)
        ∧ sameConfig step.before step.after)
    (hlimit : first.stormLimitPerHour ≤ 10000) (hrun : RuleRun Holds first history rule) (hclock : Forward history)
include hsteps hlimit hrun hclock

theorem RuleRun.apart : Apart first (fun done => (kind done).isSpaced = true) history := by
  have hspaced := (hrun.run kind hsteps hlimit hclock).1.spaced
  rw [List.pairwise_map] at hspaced
  exact hspaced

theorem RuleRun.doneInHour_le {start : Timestamp} (hstart : IsWindowStart first history start) :
    doneInHour (fun done => (kind done).counts) history start ≤ first.stormLimitPerHour := by
  have hisStart : IsStart (budget first) (history.map fun step => ⟨step.now.unixMillis, kind step.done, budget step.after⟩)
      start.unixMillis := by
    refine hstart.imp (fun hfirst => ?_) fun ⟨kept, hkept, hafter⟩ => ⟨_, List.mem_map_of_mem hkept, ?_⟩
    · rw [budget, hfirst]
      rfl
    · dsimp only
      rw [budget, hafter]
      rfl
  have hle := (hrun.run kind hsteps hlimit hclock).1.emitted_le (by show (0 : Int) < 3600000; decide) hisStart
  rw [emitted, List.countP_map] at hle
  exact hle

end Budget

/-- Steps one after the other, as far as all of them succeed. -/
def runSteps (step : AlertRule → ι → Except NotificationError (RuleStep α)) :
    AlertRule → List (RuleStep α) → List ι → Except NotificationError (List (RuleStep α) × AlertRule)
  | rule, history, [] => .ok (history, rule)
  | rule, history, input :: rest => do
      let next ← step rule input
      runSteps step next.after (next :: history) rest

theorem RuleRun.runSteps {step : AlertRule → ι → Except NotificationError (RuleStep α)}
    (hstep : ∀ {rule input next}, step rule input = .ok next → Holds next ∧ next.before = rule) {inputs : List ι}
    (hrun : RuleRun Holds first history rule)
    (h : NotificationDispatch.runSteps step rule history inputs = .ok (later, last)) : RuleRun Holds first later last := by
  induction inputs generalizing rule history with
  | nil =>
      obtain ⟨rfl, rfl⟩ := Prod.mk.inj (Except.ok.inj h)
      exact hrun
  | cons input rest ih =>
      simp only [NotificationDispatch.runSteps, bind_eq_ok] at h
      obtain ⟨next, hnext, h⟩ := h
      obtain ⟨hholds, rfl⟩ := hstep hnext
      exact ih (.step hrun hholds) h

theorem RuleRun.holds (hrun : RuleRun Holds first history rule) : ∀ step ∈ history, Holds step := by
  induction hrun with
  | start => exact fun _ hstep => nomatch hstep
  | step hrun h ih => exact List.forall_mem_cons.mpr ⟨h, ih⟩

end Runs

/-! ### Aggregate rules -/

/-- One completed evaluation of a rule: `evaluate_rule` for some count under some claim, with its completion stored. -/
def Evaluated (blake3 : List (BitVec 8) → BitVec 256) (step : RuleStep (Option AggregateAction)) : Prop :=
  ∃ aggregate count window lease y completion deliveries, step.before.aggregate = some aggregate
    ∧ evaluateRule blake3 (fun _ _ _ => .ok count) { step.before with nextEvaluationAt := window } step.now
      lease = .ok (completion, deliveries)
    ∧ step.done = chooseAction step.before aggregate step.now count
    ∧ step.after = (RuleDocument.complete ⟨step.before, y⟩ completion).rule

structure EvaluationInput where
  now : Timestamp
  lease : Timestamp
  count : Nat

/-- An evaluation of a stored rule in its own window, with its completion stored. -/
def evaluateStored (blake3 : List (BitVec 8) → BitVec 256) (rule : AlertRule) (input : EvaluationInput) :
    Except NotificationError (RuleStep (Option AggregateAction)) := do
  let aggregate ← rule.aggregate.elim (.error .invalidData) .ok
  let (completion, _) ← evaluateRule blake3 (fun _ _ _ => .ok input.count) rule input.now input.lease
  return {
    before := rule
    now := input.now
    done := chooseAction rule aggregate input.now input.count
    after := (RuleDocument.complete ⟨rule, none⟩ completion).rule }

theorem evaluateStored_spec {blake3 : List (BitVec 8) → BitVec 256} {rule : AlertRule} {input : EvaluationInput}
    {next : RuleStep (Option AggregateAction)} (h : evaluateStored blake3 rule input = .ok next) :
    Evaluated blake3 next ∧ next.before = rule := by
  simp only [evaluateStored, bind_eq_ok, pure_eq_ok] at h
  obtain ⟨aggregate, haggregate, ⟨completion, deliveries⟩, hevaluate, rfl⟩ := h
  refine ⟨⟨aggregate, input.count, rule.nextEvaluationAt, input.lease, none, completion, deliveries, ?_, hevaluate, rfl, rfl⟩,
    rfl⟩
  cases hfound : rule.aggregate with
  | none =>
      rw [hfound] at haggregate
      exact nomatch haggregate
  | some found =>
      rw [hfound] at haggregate
      exact congrArg some (Except.ok.inj haggregate)

def actionKind : Option AggregateAction → Kind
  | none => .rolled
  | some action => .counted (action = .threshold)

section Steps

variable {blake3 : List (BitVec 8) → BitVec 256} {rule first : AlertRule} {now : Timestamp} {evaluated : RuleStep (Option AggregateAction)}

theorem expired_budget : (budget rule).expired (budgetLimits rule) now.unixMillis = windowExpired rule now := by
  rw [expired, windowExpired, budget]
  cases rule.stormWindowStartedAt <;> rfl

theorem ready_budget : (budget rule).ready (budgetLimits rule) now.unixMillis = cooldownElapsed rule now := by
  rw [ready, cooldownElapsed, budget]
  cases rule.lastTriggeredAt <;> rfl

theorem countAt_budget : (budget rule).countAt (budgetLimits rule) now.unixMillis = currentStorm rule now := by
  rw [countAt, expired_budget, currentStorm]
  rfl

theorem startAt_budget : (budget rule).startAt (budgetLimits rule) now.unixMillis
    = (if windowExpired rule now then some now else rule.stormWindowStartedAt).map (·.unixMillis) := by
  rw [startAt, expired_budget, budget]
  split_ifs <;> rfl

/-- A window that has not expired has a start. -/
theorem some_windowStart : some (if windowExpired rule now then now else rule.stormWindowStartedAt.getD now)
    = if windowExpired rule now then some now else rule.stormWindowStartedAt := by
  split_ifs with hexpired
  · rfl
  · cases hstart : rule.stormWindowStartedAt with
    | none => simp [windowExpired, hstart] at hexpired
    | some start => rfl

theorem limit_of_validate (h : rule.validate = .ok ()) : rule.stormLimitPerHour ≤ 10000 := by
  simp only [AlertRule.validate, bind_eq_ok, failIf_eq_ok] at h
  obtain ⟨-, -, -, -, h⟩ := h
  omega

/-- An action is chosen only below the storm limit, and a firing only after the cooldown. -/
theorem chooseAction_cases {aggregate : AggregateAlert} {count : Nat} {action : AggregateAction}
    (h : chooseAction rule aggregate now count = some action) :
    currentStorm rule now < rule.stormLimitPerHour ∧ (action = .threshold → cooldownElapsed rule now = true) := by
  unfold chooseAction at h
  dsimp only at h
  split_ifs at h with hfiring hresolving
  · simp only [Bool.and_eq_true, decide_eq_true_iff] at hfiring
    exact ⟨hfiring.2, fun _ => hfiring.1.2⟩
  · simp only [Bool.and_eq_true, decide_eq_true_iff] at hresolving
    refine ⟨hresolving.2, ?_⟩
    rintro rfl
    exact nomatch h

/-- What an evaluation stores. -/
theorem evaluateRule_completion {explore : Explore} {lease : Timestamp} {completion : AggregateCompletion}
    {deliveries : List NotificationDelivery} (h : evaluateRule blake3 explore rule now lease = .ok (completion, deliveries)) :
    ∃ aggregate count since, rule.aggregate = some aggregate ∧ explore rule since now = .ok count
      ∧ completion.thresholdMet = decide (aggregate.threshold ≤ count)
      ∧ completion.lastTriggeredAt
        = (if (chooseAction rule aggregate now count).isSome then some now else rule.lastTriggeredAt)
      ∧ completion.stormWindowStartedAt = (if windowExpired rule now then some now else rule.stormWindowStartedAt)
      ∧ completion.stormCount = (if (chooseAction rule aggregate now count).isSome then
          min (currentStorm rule now + 1) (2 ^ 32 - 1) else currentStorm rule now) := by
  simp only [evaluateRule, bind_eq_ok] at h
  obtain ⟨aggregate, haggregate, since, -, count, hcount, h⟩ := h
  have hrule : rule.aggregate = some aggregate := by
    cases hfound : rule.aggregate with
    | none =>
        rw [hfound] at haggregate
        exact nomatch haggregate
    | some found =>
        rw [hfound] at haggregate
        exact congrArg some (Except.ok.inj haggregate)
  refine ⟨aggregate, count, since, hrule, hcount, ?_⟩
  split at h <;> simp only [bind_eq_ok, pure_eq_ok, Prod.mk.injEq] at h
  all_goals
    obtain ⟨_, -, next, -, rfl, -⟩ := h
    exact ⟨rfl, rfl, rfl, rfl⟩

/-- An evaluation is a step of the budget of its rule. -/
theorem Evaluated.step (h : Evaluated blake3 evaluated) (hvalid : evaluated.before.stormLimitPerHour ≤ 10000) :
    Step (budgetLimits evaluated.before) (budget evaluated.before) evaluated.now.unixMillis (actionKind evaluated.done)
        (budget evaluated.after) ∧ sameConfig evaluated.before evaluated.after := by
  obtain ⟨aggregate, count, window, lease, y, completion, deliveries, haggregate, hevaluate, haction, hafter⟩ := h
  obtain ⟨found, counted, since, hfound, hcount, -, hlast, hstart, hstorm⟩ := evaluateRule_completion hevaluate
  obtain rfl : aggregate = found := Option.some.inj (haggregate.symm.trans hfound)
  obtain rfl : count = counted := Except.ok.inj hcount
  have hbudget : budget evaluated.after = ⟨completion.lastTriggeredAt.map (·.unixMillis),
      completion.stormWindowStartedAt.map (·.unixMillis), completion.stormCount⟩ := by
    rw [hafter]
    rfl
  refine ⟨?_, by rw [hafter]; exact ⟨rfl, rfl⟩⟩
  change completion.stormWindowStartedAt
    = (if windowExpired evaluated.before evaluated.now then some evaluated.now else evaluated.before.stormWindowStartedAt)
    at hstart
  rw [hbudget, hstart, ← startAt_budget]
  change completion.lastTriggeredAt
    = (if (chooseAction evaluated.before aggregate evaluated.now count).isSome then some evaluated.now
        else evaluated.before.lastTriggeredAt) at hlast
  change completion.stormCount
    = (if (chooseAction evaluated.before aggregate evaluated.now count).isSome then
        min (currentStorm evaluated.before evaluated.now + 1) (2 ^ 32 - 1)
        else currentStorm evaluated.before evaluated.now) at hstorm
  cases hchosen : chooseAction evaluated.before aggregate evaluated.now count with
  | none =>
      simp only [hchosen, Option.isSome_none, Bool.false_eq_true, if_false] at hlast hstorm
      rw [haction, hchosen, hlast, hstorm, ← countAt_budget]
      exact .rolled
  | some action =>
      obtain ⟨hroom, hready⟩ := chooseAction_cases hchosen
      simp only [hchosen, Option.isSome_some, if_true] at hlast hstorm
      rw [min_eq_left (by omega), ← countAt_budget] at hstorm
      rw [haction, hchosen, hlast, hstorm]
      refine .counted _ (fun hspaced => ?_) (by rw [countAt_budget]; exact hroom)
      rw [ready_budget]
      exact hready (of_decide_eq_true hspaced)

end Steps

/-! ### Rules on monitors -/

/-- What a call of `expand_monitor_rule` does: whether it emits, and whether that is a resolved notification. -/
structure Expansion where
  resolving : Bool
  emitted : Bool
deriving DecidableEq

/-- One call of `expand_monitor_rule` whose completion, if there is one, was stored. -/
def Expanded (blake3 : List (BitVec 8) → BitVec 256) (step : RuleStep Expansion) : Prop :=
  ∃ run result, expandMonitorRule blake3 step.before run step.now step.done.resolving = .ok result
    ∧ step.done.emitted = result.isSome
    ∧ step.after = (result.map fun completion => step.before.completeMonitor completion.1).getD step.before

structure ExpansionInput where
  now : Timestamp
  run : MonitorRun
  resolving : Bool

/-- A call of `expand_monitor_rule` on a stored rule, with its completion stored. -/
def expandStored (blake3 : List (BitVec 8) → BitVec 256) (rule : AlertRule) (input : ExpansionInput) :
    Except NotificationError (RuleStep Expansion) := do
  let result ← expandMonitorRule blake3 rule input.run input.now input.resolving
  return {
    before := rule
    now := input.now
    done := ⟨input.resolving, result.isSome⟩
    after := (result.map fun completion => rule.completeMonitor completion.1).getD rule }

theorem expandStored_spec {blake3 : List (BitVec 8) → BitVec 256} {rule : AlertRule} {input : ExpansionInput}
    {next : RuleStep Expansion} (h : expandStored blake3 rule input = .ok next) :
    Expanded blake3 next ∧ next.before = rule := by
  simp only [expandStored, bind_eq_ok, pure_eq_ok] at h
  obtain ⟨result, hexpand, rfl⟩ := h
  exact ⟨⟨input.run, result, hexpand, rfl, rfl⟩, rfl⟩

def Expansion.fires (expansion : Expansion) : Bool := expansion.emitted && !expansion.resolving

def Expansion.kind (expansion : Expansion) : Kind :=
  if expansion.fires then .counted true else if expansion.emitted then .uncounted else .idle

theorem Expansion.kind_isSpaced (expansion : Expansion) : expansion.kind.isSpaced = expansion.fires := by
  rw [kind]
  split_ifs with hfires hemitted
  · exact hfires.symm
  · exact (Bool.eq_false_iff.mpr hfires).symm
  · exact (Bool.eq_false_iff.mpr hfires).symm

theorem Expansion.kind_counts (expansion : Expansion) : expansion.kind.counts = expansion.fires := by
  rw [kind]
  split_ifs with hfires hemitted
  · exact hfires.symm
  · exact (Bool.eq_false_iff.mpr hfires).symm
  · exact (Bool.eq_false_iff.mpr hfires).symm

section MonitorSteps

variable {blake3 : List (BitVec 8) → BitVec 256} {expanded : RuleStep Expansion}

theorem Expanded.step (h : Expanded blake3 expanded) (hvalid : expanded.before.stormLimitPerHour ≤ 10000) :
    Step (budgetLimits expanded.before) (budget expanded.before) expanded.now.unixMillis expanded.done.kind
        (budget expanded.after) ∧ sameConfig expanded.before expanded.after := by
  obtain ⟨run, result, hexpand, hemitted, hafter⟩ := h
  unfold expandMonitorRule at hexpand
  split at hexpand
  · obtain rfl := Except.ok.inj hexpand
    have hkind : expanded.done.kind = .idle := by
      rw [Expansion.kind, Expansion.fires, hemitted]
      rfl
    rw [hafter, hkind]
    exact ⟨.idle, rfl, rfl⟩
  · rename_i hsuppressed
    simp only [bind_eq_ok, pure_eq_ok] at hexpand
    obtain ⟨deliveries, -, rfl⟩ := hexpand
    have hbudget : budget expanded.after = ⟨some expanded.now.unixMillis,
        (budget expanded.before).startAt (budgetLimits expanded.before) expanded.now.unixMillis,
        if expanded.done.resolving then currentStorm expanded.before expanded.now
        else min (currentStorm expanded.before expanded.now + 1) (2 ^ 32 - 1)⟩ := by
      rw [hafter, startAt_budget, ← some_windowStart]
      rfl
    refine ⟨?_, by rw [hafter]; exact ⟨rfl, rfl⟩⟩
    rw [hbudget, ← countAt_budget, Expansion.kind, Expansion.fires, hemitted]
    cases hresolving : expanded.done.resolving with
    | true => exact .uncounted
    | false =>
        simp only [monitorSuppressed, hresolving, Bool.not_false, Bool.true_and, Bool.or_eq_true, Bool.not_eq_true',
          decide_eq_true_iff, not_or, Bool.not_eq_false, not_le] at hsuppressed
        obtain ⟨hready, hroom⟩ := hsuppressed
        have hmin : min (currentStorm expanded.before expanded.now + 1) (2 ^ 32 - 1)
            = (budget expanded.before).countAt (budgetLimits expanded.before) expanded.now.unixMillis + 1 := by
          rw [min_eq_left (by omega), countAt_budget]
        rw [countAt_budget, hmin]
        refine .counted true (fun _ => ?_) (by rw [countAt_budget]; exact hroom)
        rw [ready_budget]
        exact hready

/-- A resolved notification leaves as much of the storm limit as there was. -/
theorem Expanded.resolved (h : Expanded blake3 expanded) (hresolving : expanded.done.resolving = true) :
    currentStorm expanded.after expanded.now = currentStorm expanded.before expanded.now := by
  obtain ⟨run, result, hexpand, -, hafter⟩ := h
  unfold expandMonitorRule at hexpand
  rw [if_neg (by simp [monitorSuppressed, hresolving])] at hexpand
  simp only [bind_eq_ok, pure_eq_ok] at hexpand
  obtain ⟨deliveries, -, rfl⟩ := hexpand
  have hcount : expanded.after.stormCount = currentStorm expanded.before expanded.now := by
    rw [hafter]
    exact if_pos hresolving
  have hstart : expanded.after.stormWindowStartedAt = if windowExpired expanded.before expanded.now then some expanded.now
      else expanded.before.stormWindowStartedAt := by
    rw [hafter, ← some_windowStart]
    rfl
  have hopen : windowExpired expanded.after expanded.now = false := by
    rw [windowExpired, hstart]
    split_ifs with hexpired
    · simp
    · exact Bool.eq_false_iff.mpr hexpired
  rw [currentStorm, hopen, ← hcount]
  rfl

end MonitorSteps

/-- Along any run of the evaluations of a rule two firings are a cooldown apart, and the hour from a start of the
storm window has at most as many actions as the rule allows. The same holds of the firings of a rule on a monitor,
whose resolved notifications use nothing of the limit. They do set `last_triggered_at`, so that the cooldown is
counted from them too: a firing that follows a resolved notification within the cooldown is held back. -/
theorem alert_budgets (blake3 : List (BitVec 8) → BitVec 256) {first rule monitorFirst monitorRule : AlertRule}
    {history : List (RuleStep (Option AggregateAction))} {expansions : List (RuleStep Expansion)}
    (hvalid : first.validate = .ok ()) (hrun : RuleRun (Evaluated blake3) first history rule) (hclock : Forward history)
    (hmonitorValid : monitorFirst.validate = .ok ())
    (hmonitorRun : RuleRun (Expanded blake3) monitorFirst expansions monitorRule) (hmonitorClock : Forward expansions) :
    (Apart first (· = some .threshold) history
        ∧ ∀ start, IsWindowStart first history start →
          doneInHour Option.isSome history start ≤ first.stormLimitPerHour)
      ∧ Apart monitorFirst (·.fires = true) expansions
      ∧ (∀ start, IsWindowStart monitorFirst expansions start →
          doneInHour Expansion.fires expansions start ≤ monitorFirst.stormLimitPerHour)
      ∧ ∀ expanded ∈ expansions, expanded.done.resolving = true →
          currentStorm expanded.after expanded.now = currentStorm expanded.before expanded.now := by
  have hspaced : (fun done => (actionKind done).isSpaced = true) = (· = some AggregateAction.threshold) := by
    funext done
    cases done with
    | none => simp [actionKind, Kind.isSpaced]
    | some action => simp [actionKind, Kind.isSpaced]
  have hcounts : (fun done => (actionKind done).counts) = Option.isSome := by
    funext done
    cases done <;> rfl
  have hfires : (fun done : Expansion => done.kind.isSpaced = true) = (·.fires = true) := by
    funext done
    rw [done.kind_isSpaced]
  have hfiresCount : (fun done : Expansion => done.kind.counts) = Expansion.fires := funext Expansion.kind_counts
  have hlimit := limit_of_validate hvalid
  have hmonitorLimit := limit_of_validate hmonitorValid
  refine ⟨⟨?_, fun start hstart => ?_⟩, ?_, fun start hstart => ?_, fun expanded hexpanded hresolving => ?_⟩
  · rw [← hspaced]
    exact hrun.apart actionKind (fun _ => Evaluated.step) hlimit hclock
  · rw [← hcounts]
    exact hrun.doneInHour_le actionKind (fun _ => Evaluated.step) hlimit hclock hstart
  · rw [← hfires]
    exact hmonitorRun.apart Expansion.kind (fun _ => Expanded.step) hmonitorLimit hmonitorClock
  · rw [← hfiresCount]
    exact hmonitorRun.doneInHour_le Expansion.kind (fun _ => Expanded.step) hmonitorLimit hmonitorClock hstart
  · exact (hmonitorRun.holds expanded hexpanded).resolved hresolving

/-! A log alert with a cooldown of an hour: it fires, is resolved, is met again within the cooldown, and is resolved
once more. And an alert on a monitor that misses, is up again, and misses within the cooldown. -/

def pairedRule : AlertRule :=
  { alertRule with aggregate := some ⟨.logs, 15, 5, 100, none, none, true⟩, cooldownMinutes := 60, stormLimitPerHour := 2 }

def pairedInputs : List EvaluationInput := [
  ⟨⟨1700000001000, inRange_alertClaim⟩, ⟨1700000061000, inRange_alertLease⟩, 250⟩,
  ⟨⟨1700000302000, by decide⟩, ⟨1700000362000, by decide⟩, 3⟩,
  ⟨⟨1700000603000, by decide⟩, ⟨1700000663000, by decide⟩, 180⟩,
  ⟨⟨1700003904000, by decide⟩, ⟨1700003964000, by decide⟩, 4⟩]

def missedRule : AlertRule :=
  { alertRule with
    id := ⟨78⟩
    aggregate := none
    monitor := some ⟨⟨6⟩, [.missed], true⟩
    nextEvaluationAt := none
    cooldownMinutes := 60
    stormLimitPerHour := 2 }

def missedRun (id : BitVec 128) (status : MonitorRunStatus) (instant : Timestamp) : MonitorRun where
  id := ⟨id⟩
  projectId := ⟨7, ProjectId.positive_seven⟩
  monitorId := ⟨6⟩
  checkInId := none
  status := status
  source := .scheduler
  scheduledFor := some instant
  startedAt := instant
  finishedAt := some instant
  durationMs := none
  receivedAt := instant
  releaseId := none
  timeoutAt := none
  deleteAt := none
  httpStatus := none
  uptimeFailure := none

def missedInputs : List ExpansionInput := [
  ⟨⟨1700000001000, inRange_alertClaim⟩, missedRun 9 .missed ⟨1700000000000, inRange_sampleStart⟩, false⟩,
  ⟨⟨1700000302000, by decide⟩, missedRun 10 .success ⟨1700000300000, by decide⟩, true⟩,
  ⟨⟨1700000603000, by decide⟩, missedRun 11 .missed ⟨1700000600000, by decide⟩, false⟩]

/-- The digests of the transitions and of the deliveries of the two rules. -/
def pairedBlake3 (input : List (BitVec 8)) : BitVec 256 :=
  let transitionInput (window : Int) (action : AggregateAction) : List (BitVec 8) :=
    utf8Bytes "metric/aggregate-alert/v1".toList ++ bigEndian 16 77 ++ bigEndian 8 window ++ utf8Bytes action.asStr
  let deliveryInput (transitionId rule : Nat) : List (BitVec 8) :=
    hashInput [] [utf8Bytes "notification-delivery/v1".toList, bigEndian 16 transitionId, bigEndian 16 rule,
      bigEndian 16 5]
  if input = transitionInput 1700000000000 .threshold then
    0xddcc8bb0eed14696c2337ceb74f8006fee9b205065cbaf2527afad721e24b369
  else if input = transitionInput 1700000301000 .resolved then
    0x9baded89d6f9e053a3a642d6b542b1c8e5398ff3506a4205238633cd69ffe54d
  else if input = transitionInput 1700000903000 .resolved then
    0xfc34c7765adc1a450720ca084ea63343cf00497436b5ebf883541c1fbbccc4ca
  else if input = deliveryInput 0xddcc8bb0eed14696c2337ceb74f8006f 77 then
    0xa40c0332ae85243795ddef01344dd9cd9aa4fd9b681523574aae736960fa26c3
  else if input = deliveryInput 0x9baded89d6f9e053a3a642d6b542b1c8 77 then
    0x8cad57e9a63f149308597d6e39a100516a067f3658255854b0ddb5f7178e5f8b
  else if input = deliveryInput 0xfc34c7765adc1a450720ca084ea63343 77 then
    0xe499ca3ad9dcef6397060564520054c78d60f9bdd56977dfcce7ae077171f020
  else if input = deliveryInput 9 78 then
    0xd5d2841fd2f7545e1c32511b718cb903582ccbe3910cfa069cbc35eb8c2f233d
  else if input = deliveryInput 10 78 then
    0x8bff2704fdb1a7d4b33c5a592a92a1967c1e081cf89fa2e69759b7ac9e03046d
  else 0

theorem exists_pairedRun : ∃ history rule, RuleRun (Evaluated pairedBlake3) pairedRule history rule ∧ Forward history
    ∧ history.map (·.done) = [some .resolved, none, some .resolved, some .threshold] := by
  have hok : (fun result => (result.1.map (·.now.unixMillis), result.1.map (·.done)))
        <$> runSteps (evaluateStored pairedBlake3) pairedRule [] pairedInputs
      = .ok ([1700003904000, 1700000603000, 1700000302000, 1700000001000],
        [some .resolved, none, some .resolved, some .threshold]) := by
    decide +kernel
  rw [map_eq_ok] at hok
  obtain ⟨⟨history, rule⟩, hruns, hboth⟩ := hok
  obtain ⟨hnow, hdone⟩ := Prod.mk.inj hboth
  have hsorted : (history.map (·.now.unixMillis)).Pairwise fun later earlier => earlier ≤ later := by
    rw [hnow]
    decide
  exact ⟨history, rule, RuleRun.runSteps evaluateStored_spec .start hruns, List.pairwise_map.mp hsorted, hdone⟩

theorem exists_missedRun : ∃ history rule, RuleRun (Expanded pairedBlake3) missedRule history rule ∧ Forward history
    ∧ history.map (·.done) = [⟨false, false⟩, ⟨true, true⟩, ⟨false, true⟩] := by
  have hok : (fun result => (result.1.map (·.now.unixMillis), result.1.map (·.done)))
        <$> runSteps (expandStored pairedBlake3) missedRule [] missedInputs
      = .ok ([1700000603000, 1700000302000, 1700000001000], [⟨false, false⟩, ⟨true, true⟩, ⟨false, true⟩]) := by
    decide +kernel
  rw [map_eq_ok] at hok
  obtain ⟨⟨history, rule⟩, hruns, hboth⟩ := hok
  obtain ⟨hnow, hdone⟩ := Prod.mk.inj hboth
  have hsorted : (history.map (·.now.unixMillis)).Pairwise fun later earlier => earlier ≤ later := by
    rw [hnow]
    decide
  exact ⟨history, rule, RuleRun.runSteps expandStored_spec .start hruns, List.pairwise_map.mp hsorted, hdone⟩

theorem alert_budgets_paired : ∃ history expansions,
    history.map (·.done) = [some .resolved, none, some .resolved, some .threshold]
      ∧ Apart pairedRule (· = some AggregateAction.threshold) history
      ∧ expansions.map (·.done) = [⟨false, false⟩, ⟨true, true⟩, ⟨false, true⟩]
      ∧ Apart missedRule (Expansion.fires · = true) expansions := by
  obtain ⟨history, rule, hrun, hclock, hdone⟩ := exists_pairedRun
  obtain ⟨expansions, monitorRule, hmonitorRun, hmonitorClock, hmonitorDone⟩ := exists_missedRun
  have h := alert_budgets pairedBlake3 (by decide) hrun hclock (by decide) hmonitorRun hmonitorClock
  exact ⟨history, expansions, hdone, h.1.1, hmonitorDone, h.2.1⟩

end MetricBackend.NotificationDispatch
