import Mathlib.Data.List.Induction
import MetricBackend.IssueAggregates

/-! The lifecycle of an Issue on Postgres: occurrence batches and commands in any order, and the
transitions that they record. -/

namespace MetricBackend

namespace PostgresIssues

open Issues

/-- The rows of one Issue, and how many commands have resolved it. -/
structure IssueTables where
  row : Option IssueRow
  transitions : List IssueTransition
  resolves : Nat

inductive IssueStep where
  | batch (occurrences : List IssueOccurrence)
  | command (issued : IssueCommand)

/-- `INSERT … ON CONFLICT(project_id,transition_id) DO NOTHING`. -/
def insertTransition (transitions : List IssueTransition) (transition : IssueTransition) :
    List IssueTransition :=
  if transitions.any (·.transitionId = transition.transitionId) then transitions
  else transitions ++ [transition]

def insertTransitions (transitions : List IssueTransition) (made : Option IssueTransition) :
    List IssueTransition :=
  made.toList.foldl insertTransition transitions

section Steps

variable (blake3 : List (BitVec 8) → BitVec 256) (compress : Compressor) (codec : IssueCodecConfig)

/-- A call that fails leaves its transaction without effect. -/
def executeStep (tables : IssueTables) : IssueStep → IssueTables
  | .batch occurrences =>
      match applyBatch blake3 compress codec tables.row occurrences with
      | .ok written =>
          { tables with
            row := some written.row
            transitions := insertTransitions tables.transitions written.transition }
      | .error _ => tables
  | .command command =>
      match applyCommand blake3 codec tables.row command with
      | .ok written =>
          { row := some written.row
            transitions := insertTransitions tables.transitions written.transition
            resolves :=
              if written.answer.applied ∧ command.action = .resolve then tables.resolves + 1
              else tables.resolves }
      | .error _ => tables

def runSteps (steps : List IssueStep) : IssueTables :=
  steps.foldl (executeStep blake3 compress codec) ⟨none, [], 0⟩

end Steps

/-! ### The identities of transitions -/

def IssueStep.occurrences : IssueStep → List IssueOccurrence
  | .batch occurrences => occurrences
  | .command _ => []

def IssueStep.commands : IssueStep → List IssueCommand
  | .batch _ => []
  | .command issued => [issued]

/-- The kinds and Events that a step may record a transition for. -/
def IssueStep.identities (step : IssueStep) : List (IssueNotificationKind × EventId) :=
  step.occurrences.map (fun occurrence => (.newIssue, occurrence.eventId))
    ++ step.occurrences.map (fun occurrence => (.regression, occurrence.eventId))
    ++ step.commands.map fun command => (.resolved, ⟨command.idempotencyKey⟩)

/-- The step is about this Issue. -/
def IssueStep.On (projectId : ProjectId) (issueId : IssueId) (step : IssueStep) : Prop :=
  (∀ occurrence ∈ step.occurrences, occurrence.projectId = projectId ∧ occurrence.issueId = issueId)
    ∧ ∀ command ∈ step.commands, command.projectId = projectId ∧ command.issueId = issueId

instance (projectId : ProjectId) (issueId : IssueId) (step : IssueStep) : Decidable (step.On projectId issueId) :=
  inferInstanceAs (Decidable (_ ∧ _))

/-- The steps of a run on one Issue: no Event and no command twice, and no two of the hashed identities
collide. -/
structure Distinct (blake3 : List (BitVec 8) → BitVec 256) (projectId : ProjectId) (issueId : IssueId)
    (steps : List IssueStep) : Prop where
  on : ∀ step ∈ steps, step.On projectId issueId
  events : ((steps.flatMap IssueStep.occurrences).map (·.eventId)).Nodup
  commands : ((steps.flatMap IssueStep.commands).map (·.idempotencyKey)).Nodup
  hashed : ∀ one ∈ steps.flatMap IssueStep.identities, ∀ other ∈ steps.flatMap IssueStep.identities,
    notificationTransitionId blake3 projectId issueId one.1 one.2 =
      notificationTransitionId blake3 projectId issueId other.1 other.2 → one = other

section Identities

variable {blake3 : List (BitVec 8) → BitVec 256} {projectId : ProjectId} {issueId : IssueId}
  {steps : List IssueStep} {step : IssueStep}

theorem Distinct.init (h : Distinct blake3 projectId issueId (steps ++ [step])) :
    Distinct blake3 projectId issueId steps := by
  have hevents := h.events
  have hcommands := h.commands
  have hhashed := h.hashed
  simp only [List.flatMap_append, List.map_append] at hevents hcommands hhashed
  refine ⟨fun step hstep => h.on step (List.mem_append_left _ hstep), hevents.of_append_left,
    hcommands.of_append_left, fun one hone other hother => ?_⟩
  exact hhashed one (List.mem_append_left _ hone) other (List.mem_append_left _ hother)

/-- A step offers no identity that an earlier one has offered. -/
theorem Distinct.fresh (h : Distinct blake3 projectId issueId (steps ++ [step]))
    {identity : IssueNotificationKind × EventId} (hold : identity ∈ steps.flatMap IssueStep.identities) :
    identity ∉ step.identities := by
  have hevents := h.events
  have hcommands := h.commands
  simp only [List.flatMap_append, List.map_append, List.flatMap_singleton, List.nodup_append] at hevents hcommands
  intro hnew
  obtain ⟨earlier, hearlier, hold⟩ := List.mem_flatMap.mp hold
  have hevent : ∀ {kind : IssueNotificationKind} {one other : IssueOccurrence},
      one ∈ earlier.occurrences → other ∈ step.occurrences →
        (kind, one.eventId) ≠ (kind, other.eventId) := by
    intro kind one other hone hother heq
    refine hevents.2.2 one.eventId ?_ other.eventId (List.mem_map_of_mem hother) (Prod.ext_iff.mp heq).2
    exact List.mem_map_of_mem (List.mem_flatMap.mpr ⟨earlier, hearlier, hone⟩)
  simp only [IssueStep.identities, List.mem_append, List.mem_map] at hold hnew
  obtain (⟨one, hone, rfl⟩ | ⟨one, hone, rfl⟩) | ⟨one, hone, rfl⟩ := hold
  · obtain (⟨other, hother, heq⟩ | ⟨other, -, heq⟩) | ⟨other, -, heq⟩ := hnew
    · exact hevent hone hother heq.symm
    · cases heq
    · cases heq
  · obtain (⟨other, -, heq⟩ | ⟨other, hother, heq⟩) | ⟨other, -, heq⟩ := hnew
    · cases heq
    · exact hevent hone hother heq.symm
    · cases heq
  · obtain (⟨other, -, heq⟩ | ⟨other, -, heq⟩) | ⟨other, hother, heq⟩ := hnew
    · cases heq
    · cases heq
    · refine hcommands.2.2 one.idempotencyKey ?_ other.idempotencyKey (List.mem_map_of_mem hother) ?_
      · exact List.mem_map_of_mem (List.mem_flatMap.mpr ⟨earlier, hearlier, hone⟩)
      · exact (congrArg (fun identity => identity.2.asBytes) heq).symm

end Identities

/-! ### What every run keeps -/

/-- The transitions of one kind. -/
def recorded (kind : IssueNotificationKind) (transitions : List IssueTransition) : Nat :=
  transitions.countP (·.kind = kind)

/-- The regressions that the row has counted. -/
def regressionTotal (issue : IssueSnapshot) : Nat := (issue.regression.map (·.count.get)).getD 0

structure Lawful (blake3 : List (BitVec 8) → BitVec 256) (projectId : ProjectId) (issueId : IssueId)
    (steps : List IssueStep) (tables : IssueTables) : Prop where
  empty : tables.row = none → tables.transitions = []
  identity : ∀ row ∈ tables.row, row.issue.projectId = projectId ∧ row.issue.issueId = issueId
  workflow : ∀ row ∈ tables.row, workflowConsistent row.issue
  created : ∀ row ∈ tables.row, recorded .newIssue tables.transitions = 1
  counted : ∀ row ∈ tables.row, regressionTotal row.issue = recorded .regression tables.transitions
  resolved : ∀ row ∈ tables.row,
    recorded .regression tables.transitions + (if row.issue.status = .resolved then 1 else 0) ≤ tables.resolves
  known : ∀ transition ∈ tables.transitions, (transition.kind, transition.eventId) ∈ steps.flatMap IssueStep.identities
    ∧ transition.transitionId = notificationTransitionId blake3 projectId issueId transition.kind transition.eventId

section Runs

variable {blake3 : List (BitVec 8) → BitVec 256} {compress : Compressor} {codec : IssueCodecConfig}
  {projectId : ProjectId} {issueId : IssueId} {steps : List IssueStep} {step : IssueStep} {tables : IssueTables}

/-- A transition of a new step is never taken for one that is there. -/
theorem Lawful.inserted (h : Lawful blake3 projectId issueId steps tables)
    (hdistinct : Distinct blake3 projectId issueId (steps ++ [step])) {transition : IssueTransition}
    (hoffered : (transition.kind, transition.eventId) ∈ step.identities)
    (hid : transition.transitionId =
      notificationTransitionId blake3 projectId issueId transition.kind transition.eventId) :
    insertTransitions tables.transitions (some transition) = tables.transitions ++ [transition] := by
  have hnone : ¬ tables.transitions.any (·.transitionId = transition.transitionId) := by
    intro hany
    obtain ⟨stored, hstored, heq⟩ := List.any_eq_true.mp hany
    obtain ⟨hold, hstoredId⟩ := h.known stored hstored
    have hsame : (stored.kind, stored.eventId) = (transition.kind, transition.eventId) := by
      refine hdistinct.hashed _ ?_ _ ?_ ?_
      · rw [List.flatMap_append]
        exact List.mem_append_left _ hold
      · rw [List.flatMap_append, List.flatMap_singleton]
        exact List.mem_append_right _ hoffered
      · rw [← hstoredId, ← hid]
        exact of_decide_eq_true heq
    exact hdistinct.fresh hold (hsame ▸ hoffered)
  simp only [insertTransitions, Option.toList, List.foldl_cons, List.foldl_nil, insertTransition, if_neg hnone]

theorem recorded_append (kind : IssueNotificationKind) (transitions : List IssueTransition)
    (transition : IssueTransition) :
    recorded kind (transitions ++ [transition]) =
      recorded kind transitions + (if transition.kind = kind then 1 else 0) := by
  simp [recorded, List.countP_append, List.countP_singleton]

/-- What is known of the transitions stays known after a step that records one or none. -/
theorem Lawful.known_insert (h : Lawful blake3 projectId issueId steps tables)
    (hdistinct : Distinct blake3 projectId issueId (steps ++ [step])) (made : Option IssueTransition)
    (hmade : ∀ transition ∈ made, (transition.kind, transition.eventId) ∈ step.identities
      ∧ transition.transitionId =
        notificationTransitionId blake3 projectId issueId transition.kind transition.eventId) :
    insertTransitions tables.transitions made = tables.transitions ++ made.toList
      ∧ ∀ transition ∈ tables.transitions ++ made.toList,
        (transition.kind, transition.eventId) ∈ (steps ++ [step]).flatMap IssueStep.identities
          ∧ transition.transitionId =
            notificationTransitionId blake3 projectId issueId transition.kind transition.eventId := by
  have hstored : ∀ transition ∈ tables.transitions,
      (transition.kind, transition.eventId) ∈ (steps ++ [step]).flatMap IssueStep.identities
        ∧ transition.transitionId =
          notificationTransitionId blake3 projectId issueId transition.kind transition.eventId := by
    intro transition hmem
    obtain ⟨hold, hid⟩ := h.known transition hmem
    rw [List.flatMap_append]
    exact ⟨List.mem_append_left _ hold, hid⟩
  cases made with
  | none => exact ⟨(List.append_nil _).symm, by simpa using hstored⟩
  | some made =>
      obtain ⟨hoffered, hid⟩ := hmade made rfl
      refine ⟨h.inserted hdistinct hoffered hid, fun transition hmem => ?_⟩
      rcases List.mem_append.mp hmem with hmem | hmem
      · exact hstored transition hmem
      · obtain rfl := List.mem_singleton.mp hmem
        rw [List.flatMap_append, List.flatMap_singleton]
        exact ⟨List.mem_append_right _ hoffered, hid⟩

theorem Lawful.created_step (h : Lawful blake3 projectId issueId steps tables) {occurrences : List IssueOccurrence}
    (hdistinct : Distinct blake3 projectId issueId (steps ++ [.batch occurrences])) (hrow : tables.row = none)
    {written : Written IssueMutationResult}
    (hwritten : applyBatch blake3 compress codec none occurrences = .ok written) :
    Lawful blake3 projectId issueId (steps ++ [.batch occurrences])
      { tables with
        row := some written.row
        transitions := insertTransitions tables.transitions written.transition } := by
  obtain ⟨batch, body, hadmitted, hcreate⟩ := applyBatch_eq_ok.mp hwritten
  obtain ⟨count, -, rfl⟩ := (createIssue_eq_ok hadmitted).mp hcreate
  have hon := (hdistinct.on _ (List.mem_append_right _ (List.mem_singleton_self _))).1
  have hsummary := hon _ (List.mem_of_mem_head? hadmitted.selected.summary)
  have hfirst := (minByKey_spec hadmitted.selected.first).1
  obtain ⟨hinserted, hknown⟩ := h.known_insert hdistinct (some (transitionOf blake3
      (insertedRow batch body count).issue .newIssue batch.first.eventId batch.first.receivedAt)) (by
    rintro transition ⟨⟩
    refine ⟨List.mem_append_left _ (List.mem_append_left _ (List.mem_map_of_mem hfirst)), ?_⟩
    rw [← hsummary.1, ← hsummary.2]
    rfl)
  rw [h.empty hrow] at hinserted hknown ⊢
  simp only [hinserted]
  refine ⟨by simp, ?_, ?_, ?_, ?_, ?_, hknown⟩ <;> rintro row ⟨⟩
  · exact hsummary
  · rfl
  · rfl
  · rfl
  · exact Nat.zero_le _

theorem Lawful.updated_step (h : Lawful blake3 projectId issueId steps tables) {occurrences : List IssueOccurrence}
    (hdistinct : Distinct blake3 projectId issueId (steps ++ [.batch occurrences])) {row : IssueRow}
    (hrow : tables.row = some row) {written : Written IssueMutationResult}
    (hwritten : applyBatch blake3 compress codec (some row) occurrences = .ok written) :
    Lawful blake3 projectId issueId (steps ++ [.batch occurrences])
      { tables with
        row := some written.row
        transitions := insertTransitions tables.transitions written.transition } := by
  obtain ⟨batch, body, hadmitted, hupdate⟩ := applyBatch_eq_ok.mp hwritten
  obtain ⟨-, -, next, hnext, rfl⟩ := updateIssue_eq_ok.mp hupdate
  obtain ⟨count, -, -, hnext⟩ := updated_eq_ok.mp hnext
  obtain ⟨hproject, hissue, -, -, -, hstatus, hworkflow, hregression⟩ := merged_kept batch count row.issue
  have hidentity := h.identity row hrow
  have hcounted := h.counted row hrow
  have hresolved := h.resolved row hrow
  have hcreated := h.created row hrow
  have hcandidate := (maxByKey_spec hadmitted.selected.candidate).1
  by_cases hregresses : regresses batch row.issue
  · -- the row was resolved, so one of the applied resolves is still without its regression
    rw [if_pos hregresses] at hnext
    obtain ⟨total, htotal, -, rfl⟩ := withRegression_eq_ok.mp hnext
    rw [hregression] at htotal
    rw [if_pos hregresses]
    simp only [regresses, decide_eq_true_eq] at hregresses
    rw [if_pos hregresses.1] at hresolved
    obtain ⟨hinserted, hknown⟩ := h.known_insert hdistinct (some (transitionOf blake3
        { merged batch count row.issue with
          status := .open
          workflow := none
          regression := some ⟨batch.candidate.receivedAt, batch.candidate.eventId, total,
            batch.candidate.release⟩ } .regression batch.candidate.eventId batch.candidate.receivedAt)) (by
      rintro transition ⟨⟩
      refine ⟨List.mem_append_left _ (List.mem_append_right _ (List.mem_map_of_mem hcandidate)), ?_⟩
      rw [← hidentity.1, ← hidentity.2, ← hproject, ← hissue]
      rfl)
    simp only [hinserted, Option.toList]
    refine ⟨by simp, ?_, ?_, ?_, ?_, ?_, hknown⟩ <;> rintro stored ⟨⟩
    · exact ⟨hproject.trans hidentity.1, hissue.trans hidentity.2⟩
    · rfl
    · rw [recorded_append, hcreated]
      rfl
    · rw [recorded_append, ← hcounted]
      exact htotal
    · rw [recorded_append]
      exact hresolved
  · rw [if_neg hregresses] at hnext
    subst hnext
    rw [if_neg hregresses]
    obtain ⟨hinserted, hknown⟩ := h.known_insert hdistinct none (by simp)
    simp only [hinserted, Option.toList, List.append_nil] at hknown ⊢
    refine ⟨by simp, ?_, ?_, ?_, ?_, ?_, hknown⟩ <;> rintro stored ⟨⟩
    · exact ⟨hproject.trans hidentity.1, hissue.trans hidentity.2⟩
    · rw [workflowConsistent, hstatus, hworkflow]
      exact h.workflow row hrow
    · exact hcreated
    · rw [regressionTotal, hregression]
      exact hcounted
    · rw [hstatus]
      exact hresolved

/-- What an applied command has made of the Issue. -/
theorem commanded_cases {command : IssueCommand} {issue next : IssueSnapshot}
    (h : commanded command issue = some next) :
    (command.action = .resolve ∧ issue.status = .open
      ∧ next = { issue with status := .resolved, workflow := some ⟨command.atTime, command.actor⟩ })
    ∨ (command.action = .ignore
      ∧ next = { issue with status := .ignored, workflow := some ⟨command.atTime, command.actor⟩ })
    ∨ (command.action = .reopen ∧ next = { issue with status := .open, workflow := none })
    ∨ ∃ assignee, command.action = .assign assignee ∧ next = { issue with assignee := assignee } := by
  rw [commanded] at h
  split at h <;> split_ifs at h with hstatus <;> cases h
  · exact .inl ⟨‹_›, hstatus, rfl⟩
  · exact .inr (.inl ⟨‹_›, rfl⟩)
  · exact .inr (.inr (.inl ⟨‹_›, rfl⟩))
  · exact .inr (.inr (.inr ⟨_, ‹_›, rfl⟩))

theorem Lawful.commanded_step (h : Lawful blake3 projectId issueId steps tables) {command : IssueCommand}
    (hdistinct : Distinct blake3 projectId issueId (steps ++ [.command command]))
    {written : Written IssueCommandResult}
    (hwritten : applyCommand blake3 codec tables.row command = .ok written) :
    Lawful blake3 projectId issueId (steps ++ [.command command])
      { row := some written.row
        transitions := insertTransitions tables.transitions written.transition
        resolves :=
          if written.answer.applied ∧ command.action = .resolve then tables.resolves + 1
          else tables.resolves } := by
  obtain ⟨row, hrow, -, rfl⟩ := applyCommand_eq_ok.mp hwritten
  have hidentity := h.identity row hrow
  have hworkflow := h.workflow row hrow
  have hcounted := h.counted row hrow
  have hresolved := h.resolved row hrow
  have hcreated := h.created row hrow
  cases hnext : commanded command row.issue with
  | none =>
      obtain ⟨hinserted, hknown⟩ := h.known_insert hdistinct none (by simp)
      simp only [hinserted, Option.toList, List.append_nil, Bool.false_eq_true, false_and, if_false] at hknown ⊢
      refine ⟨by simp, ?_, ?_, ?_, ?_, ?_, hknown⟩ <;> rintro stored ⟨⟩
      exacts [hidentity, hworkflow, hcreated, hcounted, hresolved]
  | some next =>
      obtain ⟨haction, hopen, rfl⟩ | hother := commanded_cases hnext
      · have hkey : (IssueNotificationKind.resolved, (⟨command.idempotencyKey⟩ : EventId)) ∈
            (IssueStep.command command).identities :=
          List.mem_append_right _ (List.mem_singleton_self _)
        obtain ⟨hinserted, hknown⟩ := h.known_insert hdistinct (some (transitionOf blake3
            { row.issue with status := .resolved, workflow := some ⟨command.atTime, command.actor⟩ } .resolved
              ⟨command.idempotencyKey⟩ command.atTime)) (by
          rintro transition ⟨⟩
          refine ⟨hkey, ?_⟩
          rw [← hidentity.1, ← hidentity.2]
          rfl)
        rw [hopen] at hresolved
        simp only [haction, if_true, and_self, hinserted, Option.toList]
        refine ⟨by simp, ?_, ?_, ?_, ?_, ?_, hknown⟩ <;> rintro stored ⟨⟩
        · exact hidentity
        · rfl
        · rw [recorded_append, hcreated]
          rfl
        · rw [recorded_append]
          exact hcounted
        · rw [recorded_append]
          exact Nat.add_le_add_right hresolved 1
      · -- no other command records a transition, and none of them resolves
        have hnot : command.action ≠ .resolve := by
          obtain ⟨haction, -⟩ | ⟨haction, -⟩ | ⟨assignee, haction, -⟩ := hother <;> rw [haction] <;> simp
        have hregressions : recorded .regression tables.transitions ≤ tables.resolves :=
          (Nat.le_add_right _ _).trans hresolved
        obtain ⟨hinserted, hknown⟩ := h.known_insert hdistinct none (by simp)
        simp only [hnot, if_false, and_false, hinserted, Option.toList, List.append_nil] at hknown ⊢
        obtain ⟨-, rfl⟩ | ⟨-, rfl⟩ | ⟨assignee, -, rfl⟩ := hother <;>
          refine ⟨by simp, ?_, ?_, ?_, ?_, ?_, hknown⟩ <;> rintro stored ⟨⟩
        exacts [hidentity, rfl, hcreated, hcounted, hregressions, hidentity, rfl, hcreated, hcounted,
          hregressions, hidentity, hworkflow, hcreated, hcounted, hresolved]

theorem runSteps_append (steps : List IssueStep) (step : IssueStep) :
    runSteps blake3 compress codec (steps ++ [step]) =
      executeStep blake3 compress codec (runSteps blake3 compress codec steps) step := by
  rw [runSteps, List.foldl_append]
  rfl

theorem Lawful.widen (h : Lawful blake3 projectId issueId steps tables) (step : IssueStep) :
    Lawful blake3 projectId issueId (steps ++ [step]) tables := by
  refine ⟨h.empty, h.identity, h.workflow, h.created, h.counted, h.resolved, fun transition hmem => ?_⟩
  obtain ⟨hold, hid⟩ := h.known transition hmem
  rw [List.flatMap_append]
  exact ⟨List.mem_append_left _ hold, hid⟩

theorem runSteps_lawful (steps : List IssueStep) (hdistinct : Distinct blake3 projectId issueId steps) :
    Lawful blake3 projectId issueId steps (runSteps blake3 compress codec steps) := by
  induction steps using List.reverseRecOn with
  | nil => exact ⟨fun _ => rfl, by simp [runSteps], by simp [runSteps], by simp [runSteps], by simp [runSteps],
      by simp [runSteps], by simp [runSteps]⟩
  | append_singleton steps step ih =>
      have h := ih hdistinct.init
      rw [runSteps_append]
      generalize runSteps blake3 compress codec steps = tables at h ⊢
      cases step with
      | batch occurrences =>
          rw [executeStep]
          split
          · rename_i written hwritten
            cases hrow : tables.row with
            | none => exact h.created_step hdistinct hrow (hrow ▸ hwritten)
            | some row => exact h.updated_step hdistinct hrow (hrow ▸ hwritten)
          · exact h.widen _
      | command command =>
          rw [executeStep]
          split
          · rename_i written hwritten
            exact h.commanded_step hdistinct hwritten
          · exact h.widen _

/-! ### Leaving a status -/

/-- Whether a batch is received after a time is decided by its candidate. -/
theorem candidate_received {occurrences : List IssueOccurrence} {batch : Batch}
    (h : SelectedBatch blake3 occurrences batch) (time : Timestamp) :
    time < batch.candidate.receivedAt ↔ ∃ occurrence ∈ occurrences, time < occurrence.receivedAt := by
  obtain ⟨hmem, hmax⟩ := maxByKey_spec h.candidate
  refine ⟨fun hlt => ⟨_, hmem, hlt⟩, ?_⟩
  rintro ⟨occurrence, hoccurrence, hlt⟩
  refine hlt.trans_le ?_
  rcases Prod.Lex.toLex_le_toLex.mp (hmax occurrence hoccurrence) with hless | ⟨heq, -⟩
  · exact hless.le
  · exact heq.le

/-- The status after a batch that finds the row. -/
theorem updated_status {batch : Batch} {issue next : IssueSnapshot} (h : updated batch issue = .ok next) :
    next.status = if regresses batch issue then .open else issue.status := by
  obtain ⟨count, -, -, hnext⟩ := updated_eq_ok.mp h
  split_ifs at hnext ⊢
  · obtain ⟨total, -, -, rfl⟩ := withRegression_eq_ok.mp hnext
    rfl
  · rw [hnext, (merged_kept batch count issue).2.2.2.2.2.1]

theorem batch_keeps_ignored {row : IssueRow} (hrow : tables.row = some row)
    (hignored : row.issue.status = .ignored) (occurrences : List IssueOccurrence) :
    ∃ next : IssueRow, executeStep blake3 compress codec tables (.batch occurrences) =
      { tables with row := some next } ∧ next.issue.status = .ignored := by
  rw [executeStep, hrow]
  split
  · rename_i written hwritten
    obtain ⟨batch, body, -, hupdate⟩ := applyBatch_eq_ok.mp hwritten
    obtain ⟨-, -, next, hnext, rfl⟩ := updateIssue_eq_ok.mp hupdate
    have hregresses : regresses batch row.issue = false := by simp [regresses, hignored]
    have hstatus := updated_status hnext
    rw [hregresses] at hstatus ⊢
    exact ⟨_, rfl, hstatus.trans hignored⟩
  · exact ⟨row, by rw [← hrow], hignored⟩

theorem command_keeps_ignored {row : IssueRow} (hrow : tables.row = some row)
    (hignored : row.issue.status = .ignored) {command : IssueCommand} (hreopen : command.action ≠ .reopen) :
    ∃ next, (executeStep blake3 compress codec tables (.command command)).row = some next
      ∧ next.issue.status = .ignored := by
  rw [executeStep, hrow]
  split
  · rename_i written hwritten
    obtain ⟨stored, hstored, -, rfl⟩ := applyCommand_eq_ok.mp hwritten
    cases hstored
    cases hnext : commanded command row.issue with
    | none => exact ⟨row, rfl, hignored⟩
    | some next =>
        obtain ⟨-, hopen, -⟩ | ⟨-, rfl⟩ | ⟨haction, -⟩ | ⟨assignee, -, rfl⟩ := commanded_cases hnext
        · rw [hignored] at hopen
          cases hopen
        · exact ⟨_, rfl, rfl⟩
        · exact absurd haction hreopen
        · exact ⟨_, rfl, hignored⟩
  · exact ⟨row, hrow, hignored⟩

theorem batch_reopens_iff {row : IssueRow} (hrow : tables.row = some row)
    (hresolved : row.issue.status = .resolved) (occurrences : List IssueOccurrence) :
    ∃ next, (executeStep blake3 compress codec tables (.batch occurrences)).row = some next
      ∧ (next.issue.status = .open ↔
        (∃ written, applyBatch blake3 compress codec (some row) occurrences = .ok written)
          ∧ ∃ occurrence ∈ occurrences, ∃ workflow ∈ row.issue.workflow,
            workflow.atTime < occurrence.receivedAt) := by
  rw [executeStep, hrow]
  split
  · rename_i written hwritten
    refine ⟨written.row, rfl, ?_⟩
    obtain ⟨batch, body, hadmitted, hupdate⟩ := applyBatch_eq_ok.mp hwritten
    obtain ⟨-, -, next, hnext, rfl⟩ := updateIssue_eq_ok.mp hupdate
    have hregresses : regresses batch row.issue ↔
        ∃ occurrence ∈ occurrences, ∃ workflow ∈ row.issue.workflow, workflow.atTime < occurrence.receivedAt := by
      simp only [regresses, hresolved, true_and, decide_eq_true_eq]
      cases row.issue.workflow with
      | none => simp
      | some workflow => simpa using candidate_received hadmitted.selected workflow.atTime
    simp only [updated_status hnext, hresolved]
    rw [← hregresses]
    split_ifs with hyes
    · exact ⟨fun _ => ⟨⟨_, hwritten⟩, hyes⟩, fun _ => rfl⟩
    · exact ⟨fun h => (by cases h), fun h => absurd h.2 hyes⟩
  · rename_i error herror
    refine ⟨row, hrow, ?_⟩
    rw [hresolved]
    refine ⟨fun h => (by cases h), ?_⟩
    rintro ⟨⟨written, hwritten⟩, -⟩
    rw [herror] at hwritten
    cases hwritten

end Runs

/-- The lifecycle of an Issue after any steps on it. -/
theorem issue_lifecycle (blake3 : List (BitVec 8) → BitVec 256) (compress : Compressor)
    (codec : IssueCodecConfig) (projectId : ProjectId) (issueId : IssueId) (steps : List IssueStep)
    (hdistinct : Distinct blake3 projectId issueId steps) :
    let tables := runSteps blake3 compress codec steps
    (tables.row = none → tables.transitions = [])
    ∧ ∀ row, tables.row = some row →
      (row.issue.workflow.isSome ↔ row.issue.status = .resolved ∨ row.issue.status = .ignored)
      ∧ recorded .newIssue tables.transitions = 1
      ∧ recorded .regression tables.transitions ≤ tables.resolves
      ∧ regressionTotal row.issue = recorded .regression tables.transitions
      ∧ (row.issue.status = .ignored →
        (∀ occurrences, ∃ next : IssueRow, executeStep blake3 compress codec tables (.batch occurrences) =
          { tables with row := some next } ∧ next.issue.status = .ignored)
        ∧ ∀ command : IssueCommand, command.action ≠ .reopen →
          ∃ next, (executeStep blake3 compress codec tables (.command command)).row = some next
            ∧ next.issue.status = .ignored)
      ∧ (row.issue.status = .resolved → ∀ occurrences,
        ∃ next, (executeStep blake3 compress codec tables (.batch occurrences)).row = some next
          ∧ (next.issue.status = .open ↔
            (∃ written, applyBatch blake3 compress codec (some row) occurrences = .ok written)
              ∧ ∃ occurrence ∈ occurrences, ∃ workflow ∈ row.issue.workflow,
                workflow.atTime < occurrence.receivedAt)) := by
  have h : Lawful blake3 projectId issueId steps (runSteps blake3 compress codec steps) :=
    runSteps_lawful steps hdistinct
  dsimp only
  generalize runSteps blake3 compress codec steps = tables at h ⊢
  refine ⟨h.empty, fun row hrow => ⟨?_, h.created row hrow, ?_, h.counted row hrow, fun hignored => ⟨?_, ?_⟩, ?_⟩⟩
  · have hworkflow := h.workflow row hrow
    rw [workflowConsistent] at hworkflow
    cases hstatus : row.issue.status <;> simp_all
  · exact (Nat.le_add_right _ _).trans (h.resolved row hrow)
  · exact batch_keeps_ignored hrow hignored
  · exact fun command hreopen => command_keeps_ignored hrow hignored hreopen
  · exact fun hresolved => batch_reopens_iff hrow hresolved

/-- The digests of the identities of the run below, by kind and last byte of the Event. -/
def lifecycleDigest (input : List (BitVec 8)) : BitVec 256 :=
  if input[73]? = some 1 ∧ input[97]? = some 3 then
    0xe4e012aa920c637925f3bd01464971721c4395f4a62d0a2b5d7741c1b3a8d14f
  else if input[73]? = some 2 ∧ input[97]? = some 3 then
    0x68f0625c29964fa62c3923cc8a443067d7179e8697f2daceb4985fde6021fda9
  else if input[73]? = some 3 ∧ input[97]? = some 5 then
    0x98f5af9b3fbbe547e6be220eab3b0285b55ce4db41c4833d2b5e24533580a898
  else if input[73]? = some 1 ∧ input[97]? = some 4 then
    0xf1f71837d89fe7fb0a969f54de5769cdeea23d14af89aefcbfa4dca6a4942d60
  else if input[73]? = some 2 ∧ input[97]? = some 4 then
    0x0f13264eb7854143417b0f285ca50ca10bc1b52bdd433b5353d4e2a221292e38
  else quotaDigest

/-- An Issue is created, resolved, and regresses. -/
def regressingSteps : List IssueStep :=
  [.batch [quotaOccurrence 3 ⟨1000, inRange_second⟩],
    .command ⟨⟨1, ProjectId.positive_one⟩, ⟨0x7e59fc8f23a517c59cb62e13ec9813d0⟩, 5, ⟨.user, 1⟩, ⟨1500, by decide⟩, .resolve⟩,
    .batch [quotaOccurrence 4 ⟨2000, inRange_nextSecond⟩]]

theorem issue_lifecycle_regression :
    recorded .regression
        (runSteps lifecycleDigest storedFrame IssueCodecConfig.defaultValue regressingSteps).transitions = 1
      ∧ recorded .newIssue
        (runSteps lifecycleDigest storedFrame IssueCodecConfig.defaultValue regressingSteps).transitions = 1 := by
  have hlifecycle := issue_lifecycle lifecycleDigest storedFrame IssueCodecConfig.defaultValue ⟨1, by decide⟩
    ⟨0x7e59fc8f23a517c59cb62e13ec9813d0⟩ regressingSteps
    ⟨by decide, by decide, by decide, by decide⟩
  have hrow : (runSteps lifecycleDigest storedFrame IssueCodecConfig.defaultValue regressingSteps).row.isSome := by
    decide
  obtain ⟨row, hrow⟩ := Option.isSome_iff_exists.mp hrow
  exact ⟨by decide, (hlifecycle.2 row hrow).2.1⟩

end PostgresIssues

end MetricBackend
