import MetricBackend.AlertBudgets

/-! Resolved notifications of an aggregate rule and what comes before them. A rule remembers that its threshold was
met also where the firing was held back, so a resolved notification answers to a newly met threshold and not
to a firing. -/

namespace MetricBackend.NotificationDispatch

open MongoNotifications

/-- Since the last resolved notification before each one, or since the start, there is a firing. -/
def Paired (history : List (RuleStep (Option AggregateAction))) : Prop :=
  ∀ newer resolved older, history = newer ++ resolved :: older → resolved.done = some .resolved →
    ∃ since fired earlier, older = since ++ fired :: earlier ∧ fired.done = some .threshold
      ∧ ∀ step ∈ since, step.done ≠ some .resolved

/-- The threshold is met at this step and was not before it. -/
def NewlyMet (step : RuleStep (Option AggregateAction)) : Prop :=
  step.before.thresholdMet = false ∧ step.after.thresholdMet = true

/-- The cooldown or the storm limit holds a firing back. -/
def HeldBack (rule : AlertRule) (now : Timestamp) : Prop :=
  cooldownElapsed rule now = false ∨ rule.stormLimitPerHour ≤ currentStorm rule now

section Runs

variable {blake3 : List (BitVec 8) → BitVec 256} {first rule : AlertRule}
  {step resolved : RuleStep (Option AggregateAction)} {history newer older : List (RuleStep (Option AggregateAction))}

/-- What a step decides from the count: whether the threshold is met, and what is emitted then. -/
theorem Evaluated.cases (h : Evaluated blake3 step) :
    (step.after.thresholdMet = true ∧ (step.done = some .threshold ∨ step.done = none ∧ HeldBack step.before step.now))
      ∨ step.after.thresholdMet = false ∧ step.done ≠ some .threshold
        ∧ (step.done = some .resolved → step.before.thresholdMet = true) := by
  obtain ⟨aggregate, count, window, lease, y, completion, deliveries, haggregate, hevaluate, haction, hafter⟩ := h
  obtain ⟨found, counted, since, hfound, hcount, hmet, -⟩ := evaluateRule_completion hevaluate
  obtain rfl : aggregate = found := Option.some.inj (haggregate.symm.trans hfound)
  obtain rfl : count = counted := Except.ok.inj hcount
  have hstored : step.after.thresholdMet = decide (aggregate.threshold ≤ count) := by
    rw [hafter]
    exact hmet
  rw [hstored, haction]
  unfold chooseAction HeldBack
  dsimp only
  by_cases hreached : aggregate.threshold ≤ count
  · left
    simp only [hreached, decide_true, Bool.true_and, Bool.not_true, Bool.false_and, Bool.false_eq_true, if_false]
    by_cases hboth : cooldownElapsed step.before step.now = true ∧ currentStorm step.before step.now < step.before.stormLimitPerHour
    · simp [hboth]
    · rw [not_and_or, Bool.not_eq_true, not_lt] at hboth
      refine ⟨trivial, .inr ⟨if_neg ?_, hboth⟩⟩
      rw [Bool.and_eq_true, decide_eq_true_iff]
      rintro ⟨hready, hroom⟩
      rcases hboth with hwaiting | hfull
      · exact absurd (hready.symm.trans hwaiting) (by decide)
      · omega
  · right
    simp only [hreached, decide_false, Bool.false_and, Bool.false_eq_true, if_false, Bool.not_false, Bool.true_and, true_and]
    refine ⟨?_, ?_⟩
    · split_ifs <;> simp
    · intro hresolved
      split_ifs at hresolved with hresolving
      simp only [Bool.and_eq_true] at hresolving
      exact hresolving.1.1

/-- While the threshold is met, it was newly met after the last resolved notification. -/
theorem exists_newlyMet (hfirst : first.thresholdMet = false) (hrun : RuleRun (Evaluated blake3) first history rule)
    (hmet : rule.thresholdMet = true) :
    ∃ since met earlier, history = since ++ met :: earlier ∧ NewlyMet met
      ∧ ∀ step ∈ since, step.done ≠ some .resolved := by
  induction hrun with
  | start => exact absurd (hfirst.symm.trans hmet) (by decide)
  | @step history next hrun h ih =>
      by_cases hbefore : next.before.thresholdMet = true
      · obtain ⟨since, met, earlier, rfl, hnewly, hsince⟩ := ih hbefore
        refine ⟨next :: since, met, earlier, rfl, hnewly, List.forall_mem_cons.mpr ⟨?_, hsince⟩⟩
        rcases h.cases with ⟨-, hdone | ⟨hdone, -⟩⟩ | ⟨hunmet, -⟩
        · rw [hdone]
          decide
        · rw [hdone]
          decide
        · exact absurd (hmet.symm.trans hunmet) (by decide)
      · exact ⟨[], next, history, rfl, ⟨Bool.not_eq_true _ ▸ hbefore, hmet⟩, fun _ hstep => nomatch hstep⟩

/-- A suffix of a run is a run to the rule before the step that follows it. -/
theorem RuleRun.of_append {α : Type} {Holds : RuleStep α → Prop} {next : RuleStep α} {newer older : List (RuleStep α)}
    (hrun : RuleRun Holds first (newer ++ next :: older) rule) : RuleRun Holds first older next.before ∧ Holds next := by
  generalize hsplit : newer ++ next :: older = history at hrun
  induction hrun generalizing newer with
  | start => exact absurd hsplit (by simp)
  | @step history latest hrun h ih =>
      cases newer with
      | nil =>
          obtain ⟨rfl, rfl⟩ := List.cons.inj hsplit
          exact ⟨hrun, h⟩
      | cons head tail =>
          obtain ⟨-, hsplit⟩ := List.cons.inj hsplit
          exact ih hsplit

end Runs

/-- Before each resolved notification, and after the one before it, the threshold was newly met, and the rule fired
then unless the cooldown or the storm limit held the firing back. -/
theorem newlyMet_before_resolved (blake3 : List (BitVec 8) → BitVec 256) {first rule : AlertRule}
    {history : List (RuleStep (Option AggregateAction))} (hfirst : first.thresholdMet = false)
    (hrun : RuleRun (Evaluated blake3) first history rule) :
    ∀ newer resolved older, history = newer ++ resolved :: older → resolved.done = some .resolved →
      ∃ since met earlier, older = since ++ met :: earlier ∧ NewlyMet met
        ∧ (met.done = some .threshold ∨ HeldBack met.before met.now)
        ∧ ∀ step ∈ since, step.done ≠ some .resolved := by
  rintro newer resolved older rfl hresolved
  obtain ⟨holder, h⟩ := hrun.of_append
  have hbefore : resolved.before.thresholdMet = true := by
    rcases h.cases with ⟨-, hdone | ⟨hdone, -⟩⟩ | ⟨-, -, hbefore⟩
    · exact absurd (hresolved.symm.trans hdone) (by decide)
    · exact absurd (hresolved.symm.trans hdone) (by decide)
    · exact hbefore hresolved
  obtain ⟨since, met, earlier, rfl, hnewly, hsince⟩ := exists_newlyMet hfirst holder hbefore
  refine ⟨since, met, earlier, rfl, hnewly, ?_, hsince⟩
  rcases (holder.holds met (by simp)).cases with ⟨-, hdone | ⟨-, hheld⟩⟩ | ⟨hunmet, -⟩
  · exact .inl hdone
  · exact .inr hheld
  · exact absurd (hnewly.2.symm.trans hunmet) (by decide)

/-- The sample rule fires and is resolved, and what it meets next is held back before it is resolved again. -/
theorem newlyMet_before_resolved_paired : ∃ history rule, RuleRun (Evaluated pairedBlake3) pairedRule history rule
    ∧ history.map (·.done) = [some .resolved, none, some .resolved, some .threshold]
    ∧ ∀ newer resolved older, history = newer ++ resolved :: older → resolved.done = some .resolved →
      ∃ since met earlier, older = since ++ met :: earlier ∧ NewlyMet met
        ∧ (met.done = some .threshold ∨ HeldBack met.before met.now)
        ∧ ∀ step ∈ since, step.done ≠ some .resolved := by
  obtain ⟨history, rule, hrun, -, hdone⟩ := exists_pairedRun
  exact ⟨history, rule, hrun, hdone, newlyMet_before_resolved pairedBlake3 (by rfl) hrun⟩

/-- Between the two resolved notifications of the rule the cooldown held the firing back. -/
theorem not_paired : ∃ history rule, RuleRun (Evaluated pairedBlake3) pairedRule history rule ∧ Forward history
    ∧ history.map (·.done) = [some .resolved, none, some .resolved, some .threshold] ∧ ¬ Paired history := by
  obtain ⟨history, rule, hrun, hclock, hdone⟩ := exists_pairedRun
  refine ⟨history, rule, hrun, hclock, hdone, fun hpaired => ?_⟩
  obtain ⟨second, rest, rfl, hsecond, hrest⟩ := List.map_eq_cons_iff.mp hdone
  obtain ⟨held, rest, rfl, hheld, hrest⟩ := List.map_eq_cons_iff.mp hrest
  obtain ⟨first, earlier, rfl, hfirst, -⟩ := List.map_eq_cons_iff.mp hrest
  obtain ⟨since, fired, before, hsplit, hfired, hsince⟩ := hpaired [] second _ rfl hsecond
  rcases since with _ | ⟨step, _ | ⟨step', since⟩⟩
  · obtain ⟨rfl, -⟩ := List.cons.inj hsplit
    exact absurd (hfired.symm.trans hheld) (by decide)
  · obtain ⟨rfl, htail⟩ := List.cons.inj hsplit
    obtain ⟨rfl, -⟩ := List.cons.inj htail
    exact absurd (hfired.symm.trans hfirst) (by decide)
  · obtain ⟨rfl, htail⟩ := List.cons.inj hsplit
    obtain ⟨rfl, -⟩ := List.cons.inj htail
    exact hsince first (by simp) hfirst

end MetricBackend.NotificationDispatch
