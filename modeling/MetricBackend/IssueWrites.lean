import MetricBackend.IssueDocuments
import MetricBackend.IssueSizes

/-! What an occurrence batch, a command and an expanded transition make of the document of an Issue. -/

namespace MetricBackend

namespace MongoIssues

open Issues BsonValue
open PostgresIssues (movesFirst movesLatest regresses workflowConsistent)

/-! ### Comparisons of the pipeline -/

theorem order_date {left right : Timestamp} : order (date left) (date right) = compare left right := by
  rw [date, date, order]
  rfl

theorem order_event {left right : EventId} :
    order (eventBinary left) (eventBinary right) = compare left right :=
  order_eventBinary

theorem moment_lt_iff {time other : Timestamp} {eventId otherId : EventId} :
    moment time eventId < moment other otherId ↔ time < other ∨ time = other ∧ eventId < otherId :=
  Prod.Lex.toLex_lt_toLex

theorem truthy_bool (value : Bool) : truthy (some (.bool value)) = value := rfl

section Reading

variable {batch : Batch} {root : BsonDocument} {issue : IssueSnapshot} {pending : List BsonValue}
  (h : Represents root issue pending)
include h

namespace Represents

theorem not_new : truthy (isMissing "$b" root) = false := by
  obtain ⟨content, hbody⟩ := h.body
  rw [truthy_isMissing, str_field "$b" "b" rfl, hbody]
  rfl

theorem oldLatestEvent_eq : oldLatestEvent root = some (eventBinary issue.latestEventId) := by
  rw [oldLatestEvent, Expr.ifNull, str_field "$v" "v" rfl, str_field "$e" "e" rfl, h.latestEvent,
    h.firstEvent, latestEventField]
  split_ifs with hsame
  · rw [hsame]
    rfl
  · rfl

theorem isFirst_eq : truthy (isFirst batch root) = movesFirst batch issue := by
  have hseen : str "$f" root = some (date issue.firstSeen) :=
    (str_field "$f" "f" rfl root).trans h.firstSeen
  have hevent : str "$e" root = some (eventBinary issue.firstEventId) :=
    (str_field "$e" "e" rfl root).trans h.firstEvent
  have hmissing : truthy (isMissing "$f" root) = false := by
    rw [truthy_isMissing, hseen]
    rfl
  rw [Bool.eq_iff_iff, movesFirst, decide_eq_true_iff, moment_lt_iff]
  simp only [isFirst, Expr.or, Expr.and, Expr.lt, Expr.eq, Expr.compared, Expr.literal, List.any_cons,
    List.any_nil, List.all_cons, List.all_nil, hmissing, hseen, hevent, orderResults, order_date,
    order_event, truthy_bool, Bool.false_or, Bool.or_false, Bool.and_true, Bool.or_eq_true, Bool.and_eq_true,
    beq_iff_eq, compare_lt_iff_lt, compare_eq_iff_eq]

theorem isLatest_eq : truthy (isLatest batch root) = movesLatest batch issue := by
  have hseen : str "$l" root = some (date issue.lastSeen) := (str_field "$l" "l" rfl root).trans h.lastSeen
  have hmissing : truthy (isMissing "$l" root) = false := by
    rw [truthy_isMissing, hseen]
    rfl
  rw [Bool.eq_iff_iff, movesLatest, decide_eq_true_iff, moment_lt_iff, eq_comm (a := issue.lastSeen)]
  simp only [isLatest, Expr.or, Expr.and, Expr.gt, Expr.eq, Expr.compared, Expr.literal, List.any_cons,
    List.any_nil, List.all_cons, List.all_nil, hmissing, hseen, h.oldLatestEvent_eq, orderResults, order_date,
    order_event, truthy_bool, Bool.false_or, Bool.or_false, Bool.and_true, Bool.or_eq_true, Bool.and_eq_true,
    beq_iff_eq, compare_gt_iff_gt, compare_eq_iff_eq]

theorem isRegression_eq (hconsistent : workflowConsistent issue = true) :
    truthy (isRegression batch root) = regresses batch issue := by
  have hstatus : str "$s" root = statusField issue.status := (str_field "$s" "s" rfl root).trans h.status
  have htime : str "$w.t" root = issue.workflow.map fun workflow => date workflow.atTime := by
    rw [str_inner "$w.t" "w" "t" rfl, h.workflow]
    cases issue.workflow <;> rfl
  have hopen : order (.int32 2) (.int32 1) = .gt := by decide
  have hresolved : order (.int32 1) (.int32 1) = .eq := by decide
  rw [Bool.eq_iff_iff]
  simp only [isRegression, Expr.and, Expr.gt, Expr.eq, Expr.compared, Expr.literal, List.all_cons,
    List.all_nil, hstatus, htime, truthy_bool, regresses, Bool.and_true, Bool.and_eq_true,
    beq_iff_eq, decide_eq_true_iff]
  cases hwas : issue.status with
  | «open» => simp [statusField, orderResults]
  | ignored => simp [statusField, orderResults, hopen]
  | resolved =>
      rw [workflowConsistent, hwas, if_neg (by decide), Option.isSome_iff_exists] at hconsistent
      obtain ⟨workflow, hworkflow⟩ := hconsistent
      simp only [hworkflow, statusField, orderResults, hresolved, Option.map_some, order_date,
        Option.any_some, decide_eq_true_iff, compare_gt_iff_gt, true_and]

theorem oldFirstRelease_eq : oldFirstRelease root = some (pairValue (releaseText issue.firstRelease)) := by
  have hstored : str "$fr" root = (releaseText issue.firstRelease).map .string :=
    (str_field "$fr" "fr" rfl root).trans h.firstRelease
  rw [oldFirstRelease, Expr.cond, truthy_isPresent, hstored]
  cases hfirst : releaseText issue.firstRelease with
  | none => rfl
  | some text =>
      rw [hfirst] at hstored
      simp only [Option.map_some, Option.isSome_some, if_true, Expr.object, List.filterMap_cons,
        List.filterMap_nil, Expr.literal, hstored, pairValue]

theorem oldLatestRelease_eq : oldLatestRelease root = some (pairValue (releaseText issue.lastRelease)) := by
  have hmark : truthy (Expr.eq (str "$m") (.literal (.bool true)) root) =
      decide ((releaseText issue.firstRelease).isSome ∧ (releaseText issue.lastRelease).isNone) := by
    rw [Expr.eq, Expr.compared, str_field "$m" "m" rfl, h.releaseMissing, releaseMissingField]
    split_ifs with hmissing
    · rw [decide_eq_true hmissing]
      rfl
    · rw [decide_eq_false hmissing]
      rfl
  have hlast : str "$lr" root =
      lastReleaseField (releaseText issue.firstRelease) (releaseText issue.lastRelease) :=
    (str_field "$lr" "lr" rfl root).trans h.lastRelease
  rw [oldLatestRelease, Expr.cond, hmark]
  cases hlatest : releaseText issue.lastRelease with
  | none =>
      cases hfirst : releaseText issue.firstRelease with
      | some first => rfl
      | none =>
          rw [hlatest, hfirst] at hlast
          rw [if_neg (by simp), Expr.cond, truthy_isPresent, hlast, if_neg (by simp [lastReleaseField]),
            h.oldFirstRelease_eq, hfirst]
  | some latest =>
      rw [if_neg (by simp), Expr.cond, truthy_isPresent, hlast, hlatest, lastReleaseField]
      by_cases hsame : some latest = releaseText issue.firstRelease
      · rw [if_pos hsame, if_neg (by simp), h.oldFirstRelease_eq, hsame]
      · have hstored : str "$lr" root = some (.string latest) := by
          rw [hlast, hlatest, lastReleaseField, if_neg hsame]
          rfl
        rw [if_neg hsame, if_pos (by simp)]
        simp only [Expr.object, List.filterMap_cons, List.filterMap_nil, Expr.literal, hstored, Option.map_some,
          pairValue]

/-- The count of the regressions before, and this one. -/
theorem regressionCount_eq (blake3 : List (BitVec 8) → BitVec 256) :
    regressionCount (selected blake3 batch root) =
      some (sum64 ((issue.regression.map (·.count.get)).getD 0 + 1)) := by
  have hwhole : str "$d" (selected blake3 batch root) = issue.regression.map regressionValue :=
    (selected_field "$d" "d" rfl rfl rfl).trans h.regression
  have hcount : str "$d.c" (selected blake3 batch root) =
      (issue.regression.map regressionValue).bind (follow ["c".toList]) := by
    rw [str_inner "$d.c" "d" "c" rfl, lookup_selected "d" rfl, lookup_marked "d" rfl, h.regression]
  have hone : sum64 (0 + 1) = .int64 1 := if_pos (by decide)
  rw [regressionCount, Expr.cond, truthy_isMissing, hwhole]
  cases hbefore : issue.regression with
  | none => exact congrArg some hone.symm
  | some regression =>
      obtain ⟨-, -, hmany, -⟩ := regressionFields_lookup regression
      rw [hbefore, Option.map_some, Option.bind_some, regressionValue, follow_field, hmany] at hcount
      rw [Option.map_some, Option.isNone_some, if_neg (by decide), Expr.add, Expr.ifNull, hcount]
      split_ifs with hlarge
      · rfl
      · have hsingle : regression.count.get = 1 := by
          have := regression.count.inRange
          omega
        simp only [Option.map_some, Option.getD_some, hsingle]
        rfl

theorem regression_eq (blake3 : List (BitVec 8) → BitVec 256)
    (hplain : ∀ release ∈ batch.candidate.release, ¬ dollared release.asStr) {count : NonZeroU64}
    (hcount : count.get = (issue.regression.map (·.count.get)).getD 0 + 1) (hfits : count.get ≤ i64Max) :
    MongoIssues.regression batch (selected blake3 batch root) =
      some (regressionValue ⟨batch.candidate.receivedAt, batch.candidate.eventId, count,
        batch.candidate.release⟩) := by
  have hstored : regressionCount (selected blake3 batch root) = some (.int64 count.get) := by
    rw [h.regressionCount_eq, ← Nat.cast_one, ← Nat.cast_add, ← hcount, sum64, if_pos]
    simp only [i64Max] at hfits
    omega
  have hmany : truthy (Expr.gt regressionCount (.literal (.int64 1)) (selected blake3 batch root)) =
      decide (1 < count.get) := by
    rw [Expr.gt, Expr.compared, hstored, Bool.eq_iff_iff, truthy_bool, decide_eq_true_iff, beq_iff_eq]
    simp only [Expr.literal, orderResults, order, rank, number]
    rw [Nat.compare_eq_eq.mpr rfl, Ordering.eq_then, compare_gt_iff_gt]
    omega
  rw [MongoIssues.regression, Expr.cond, hmany, regressionValue, regressionFields]
  simp only [Expr.object, List.filterMap_cons, List.filterMap_nil, Expr.literal, Option.map_some, hstored,
    orRemove_eval hplain, decide_eq_true_iff]
  split_ifs <;> cases batch.candidate.release <;> rfl

end Represents

end Reading

/-! ### The Issue after a batch -/

/-- What the row store makes of an Issue that a batch updates, field by field. -/
structure UpdatedBy (batch : Batch) (issue next : IssueSnapshot) : Prop where
  project : next.projectId = issue.projectId
  id : next.issueId = issue.issueId
  key : next.groupingKey = issue.groupingKey
  title : next.title = issue.title
  culprit : next.culprit = issue.culprit
  assignee : next.assignee = issue.assignee
  firstSeen : next.firstSeen = if movesFirst batch issue then batch.first.occurredAt else issue.firstSeen
  firstEvent : next.firstEventId = if movesFirst batch issue then batch.first.eventId else issue.firstEventId
  firstRelease : next.firstRelease =
    if movesFirst batch issue then batch.first.release else issue.firstRelease
  lastSeen : next.lastSeen = if movesLatest batch issue then batch.latest.occurredAt else issue.lastSeen
  latestEvent : next.latestEventId = if movesLatest batch issue then batch.latest.eventId else issue.latestEventId
  representative : next.representativeEventId =
    if movesLatest batch issue then batch.latest.eventId else issue.representativeEventId
  lastRelease : next.lastRelease = if movesLatest batch issue then batch.latest.release else issue.lastRelease
  count : next.occurrenceCount.get = issue.occurrenceCount.get + batch.increment
  countFits : next.occurrenceCount.get ≤ i64Max
  status : next.status = if regresses batch issue then .open else issue.status
  workflow : next.workflow = if regresses batch issue then none else issue.workflow
  regression : if regresses batch issue then
      ∃ count : NonZeroU64, count.get = (issue.regression.map (·.count.get)).getD 0 + 1 ∧ count.get ≤ i64Max
        ∧ next.regression = some ⟨batch.candidate.receivedAt, batch.candidate.eventId, count,
          batch.candidate.release⟩
    else next.regression = issue.regression

/-- The aggregates of a batch, before its lifecycle. -/
theorem merged_eq (batch : Batch) (count : NonZeroU64) (issue : IssueSnapshot) :
    PostgresIssues.merged batch count issue = { issue with
      occurrenceCount := count
      firstSeen := if movesFirst batch issue then batch.first.occurredAt else issue.firstSeen
      firstEventId := if movesFirst batch issue then batch.first.eventId else issue.firstEventId
      firstRelease := if movesFirst batch issue then batch.first.release else issue.firstRelease
      lastSeen := if movesLatest batch issue then batch.latest.occurredAt else issue.lastSeen
      latestEventId := if movesLatest batch issue then batch.latest.eventId else issue.latestEventId
      representativeEventId :=
        if movesLatest batch issue then batch.latest.eventId else issue.representativeEventId
      lastRelease := if movesLatest batch issue then batch.latest.release else issue.lastRelease } := by
  simp only [PostgresIssues.merged, PostgresIssues.withLatest, PostgresIssues.withFirst, movesFirst,
    movesLatest, decide_eq_true_iff]
  split_ifs <;> rfl

theorem updatedBy_of_updated {batch : Batch} {issue next : IssueSnapshot}
    (h : PostgresIssues.updated batch issue = .ok next) : UpdatedBy batch issue next := by
  obtain ⟨count, hcount, hfits, hnext⟩ := PostgresIssues.updated_eq_ok.mp h
  rw [merged_eq] at hnext
  by_cases hregresses : regresses batch issue
  · rw [if_pos hregresses] at hnext
    obtain ⟨times, htimes, hbound, rfl⟩ := PostgresIssues.withRegression_eq_ok.mp hnext
    constructor <;> simp only [hregresses, if_true]
    case count => exact hcount
    case countFits => exact hfits
    case regression => exact ⟨times, htimes, hbound, rfl⟩
  · rw [if_neg hregresses] at hnext
    subst hnext
    constructor <;> simp only [hregresses, Bool.false_eq_true, if_false]
    case count => exact hcount
    case countFits => exact hfits

/-! ### The document after a batch -/

section Updates

variable {blake3 : List (BitVec 8) → BitVec 256} {batch : Batch} {body : List (BitVec 8)} {root : BsonDocument}
  {issue next : IssueSnapshot} {pending : List BsonValue}

/-- The transition of a batch that reopens the Issue. -/
def reopenedTransition (blake3 : List (BitVec 8) → BitVec 256) (batch : Batch) (issue : IssueSnapshot) :
    Option BsonValue :=
  if regresses batch issue then some (regressionTransition blake3 batch) else none

section Selected

variable (h : Represents root issue pending) (hnext : UpdatedBy batch issue next)
include h hnext

theorem updated_firstEvent : (selected blake3 batch root).lookup "_fk_first_event".toList =
    some (eventBinary next.firstEventId) := by
  rw [selected_firstEvent, h.isFirst_eq, h.firstEvent, hnext.firstEvent]
  exact (apply_ite (fun id => some (eventBinary id)) _ _ _).symm

theorem updated_latestEvent : (selected blake3 batch root).lookup "_fk_latest_event".toList =
    some (eventBinary next.latestEventId) := by
  rw [selected_latestEvent, h.isLatest_eq, h.oldLatestEvent_eq, hnext.latestEvent]
  exact (apply_ite (fun id => some (eventBinary id)) _ _ _).symm

theorem updated_firstRelease (hplain : PlainTexts batch) :
    (selected blake3 batch root).lookup "_fk_first_release".toList =
      some (pairValue (releaseText next.firstRelease)) := by
  rw [selected_firstRelease hplain, h.isFirst_eq, h.oldFirstRelease_eq, hnext.firstRelease]
  exact (apply_ite (fun release => some (pairValue (releaseText release))) _ _ _).symm

theorem updated_latestRelease (hplain : PlainTexts batch) :
    (selected blake3 batch root).lookup "_fk_latest_release".toList =
      some (pairValue (releaseText next.lastRelease)) := by
  rw [selected_latestRelease hplain, h.isLatest_eq, h.oldLatestRelease_eq, hnext.lastRelease]
  exact (apply_ite (fun release => some (pairValue (releaseText release))) _ _ _).symm

end Selected

theorem madeTransition_stored (h : Represents root issue pending)
    (hconsistent : workflowConsistent issue = true) :
    madeTransition blake3 batch root = reopenedTransition blake3 batch issue := by
  rw [madeTransition, h.not_new, if_neg (by decide), h.isRegression_eq hconsistent, reopenedTransition]

/-- A batch that finds the document of an Issue writes the Issue that the row store updates. -/
theorem updated_represents (h : Represents root issue pending) (hnext : UpdatedBy batch issue next)
    (hconsistent : workflowConsistent issue = true) (hplain : PlainTexts batch)
    (hcandidate : ∀ release ∈ batch.candidate.release, ¬ dollared release.asStr) :
    Represents (runPipeline (occurrencePipeline blake3 batch body) root) next
      (pending ++ (reopenedTransition blake3 batch issue).toList) := by
  have hregress : truthy (isRegression batch root) = regresses batch issue := h.isRegression_eq hconsistent
  have hmade : madeTransition blake3 batch root = reopenedTransition blake3 batch issue :=
    madeTransition_stored h hconsistent
  have hfirstRelease : (selected blake3 batch root).lookup "_fk_first_release".toList =
      some (pairValue (releaseText next.firstRelease)) := updated_firstRelease h hnext hplain
  have hlatestRelease : (selected blake3 batch root).lookup "_fk_latest_release".toList =
      some (pairValue (releaseText next.lastRelease)) := updated_latestRelease h hnext hplain
  have hsum : sum64 (issue.occurrenceCount.get + batch.increment) = .int64 next.occurrenceCount.get := by
    have hfits := hnext.countFits
    rw [← Nat.cast_add, ← hnext.count, sum64, if_pos]
    simp only [i64Max] at hfits
    omega
  constructor
  case id => rw [written_kept "_id" rfl (by decide), h.id, hnext.id]
  case project => rw [written_project, h.project, hnext.project]; rfl
  case key => rw [written_key, h.key, hnext.key]; rfl
  case title => rw [written_title hplain.title, h.not_new, if_neg (by decide), h.title, hnext.title]
  case culprit => rw [written_culprit hplain.culprit, h.not_new, if_neg (by decide), h.culprit, hnext.culprit]
  case firstSeen =>
    rw [written_firstSeen, h.isFirst_eq, h.firstSeen, hnext.firstSeen]
    exact (apply_ite (fun time => some (date time)) _ _ _).symm
  case lastSeen =>
    rw [written_lastSeen, h.isLatest_eq, h.lastSeen, hnext.lastSeen]
    exact (apply_ite (fun time => some (date time)) _ _ _).symm
  case firstEvent =>
    rw [written_firstEvent, h.isFirst_eq, h.firstEvent, hnext.firstEvent]
    exact (apply_ite (fun id => some (eventBinary id)) _ _ _).symm
  case latestEvent => exact written_latestEvent (updated_firstEvent h hnext) (updated_latestEvent h hnext)
  case representative => rw [written_kept "r" rfl (by decide), h.representative]
  case count =>
    rw [written_count, h.count]
    exact congrArg some hsum
  case status =>
    rw [written_status, hregress, h.status, hnext.status]
    split_ifs <;> rfl
  case assignee => rw [written_kept "a" rfl (by decide), h.assignee, hnext.assignee]
  case workflow =>
    rw [written_workflow, hregress, h.workflow, hnext.workflow]
    split_ifs <;> rfl
  case regression =>
    have hwritten := hnext.regression
    rw [written_regression, hregress, h.regression]
    split_ifs at hwritten ⊢
    · obtain ⟨count, hcount, hfits, hnew⟩ := hwritten
      rw [h.regression_eq blake3 hcandidate hcount hfits, hnew]
      rfl
    · rw [hwritten]
  case firstRelease => exact written_firstRelease hfirstRelease
  case lastRelease => exact written_lastRelease hfirstRelease hlatestRelease
  case releaseMissing => exact written_releaseMissing hfirstRelease hlatestRelease
  case mark => rw [written_mark h.mark, hmade]
  case pending => rw [written_pending h.pending, hmade]
  case body =>
    obtain ⟨content, hcontent⟩ := h.body
    exact ⟨content, by rw [written_body, h.not_new, if_neg (by decide), hcontent]⟩
  case known => exact written_known h.known

end Updates

/-! ### Commands and expansions -/

section Changes

variable {root other : BsonDocument} {issue next : IssueSnapshot} {pending rest : List BsonValue}

/-- The fields that commands and expansions write. -/
def workflowNames : List Text := ["s".toList, "w".toList, "a".toList, "j".toList, "n".toList]

/-- The document of an Issue, with other fields of its workflow. -/
theorem Represents.changed (h : Represents root issue pending)
    (hnext : next = { issue with
      status := next.status, workflow := next.workflow, assignee := next.assignee })
    (hkept : ∀ name, name ∉ workflowNames → other.lookup name = root.lookup name)
    (hstatus : other.lookup "s".toList = statusField next.status)
    (hworkflow : other.lookup "w".toList = next.workflow.map workflowValue)
    (hassignee : other.lookup "a".toList = next.assignee.map actorBinary)
    (hmark : other.lookup "j".toList = pendingMark rest)
    (hpending : other.lookup "n".toList = pendingField rest) : Represents other next rest := by
  constructor
  case id => rw [hkept _ (by decide), h.id, hnext]
  case project => rw [hkept _ (by decide), h.project, hnext]
  case key => rw [hkept _ (by decide), h.key, hnext]
  case title => rw [hkept _ (by decide), h.title, hnext]
  case culprit => rw [hkept _ (by decide), h.culprit, hnext]
  case firstSeen => rw [hkept _ (by decide), h.firstSeen, hnext]
  case lastSeen => rw [hkept _ (by decide), h.lastSeen, hnext]
  case firstEvent => rw [hkept _ (by decide), h.firstEvent, hnext]
  case latestEvent => rw [hkept _ (by decide), h.latestEvent, hnext]
  case representative => rw [hkept _ (by decide), h.representative]
  case count => rw [hkept _ (by decide), h.count, hnext]
  case status => exact hstatus
  case assignee => exact hassignee
  case workflow => exact hworkflow
  case regression => rw [hkept _ (by decide), h.regression, hnext]
  case firstRelease => rw [hkept _ (by decide), h.firstRelease, hnext]
  case lastRelease => rw [hkept _ (by decide), h.lastRelease, hnext]
  case releaseMissing => rw [hkept _ (by decide), h.releaseMissing, hnext]
  case mark => exact hmark
  case pending => exact hpending
  case body =>
    obtain ⟨content, hcontent⟩ := h.body
    exact ⟨content, by rw [hkept _ (by decide), hcontent]⟩
  case known =>
    intro name hname
    by_cases hchanged : name ∈ workflowNames
    · exact (by decide : ∀ name ∈ workflowNames, name ∈ issueNames) name hchanged
    · rw [hkept name hchanged] at hname
      exact h.known name hname

theorem lookup_pushPending {item : BsonValue} (hpending : root.lookup "n".toList = pendingField pending)
    (name : Text) : (pushPending root item).lookup name =
      if name = "n".toList then pendingField (pending ++ [item]) else root.lookup name := by
  have hitems : pendingField (pending ++ [item]) = some (.array (pending ++ [item])) := if_neg (by simp)
  rw [pushPending, hpending, pendingField, hitems]
  split_ifs with hempty hname hname
  · rw [lookup_put, if_pos hname, hempty, List.nil_append]
  · rw [lookup_put, if_neg hname]
  · rw [lookup_put, if_pos hname]
  · rw [lookup_put, if_neg hname]

section Commands

variable (blake3 : List (BitVec 8) → BitVec 256) (command : IssueCommand)

/-- The transition of a command that resolves the Issue. -/
def resolvedTransition : Option BsonValue :=
  if command.action = .resolve then
    some (transition blake3 command.projectId command.issueId .resolved ⟨command.idempotencyKey⟩ command.atTime)
  else none

variable {blake3 command}

theorem isStatus_eq (h : Represents root issue pending) :
    isStatus 1 root = decide (issue.status = .resolved) ∧ isStatus 2 root = decide (issue.status = .ignored) := by
  rw [isStatus, isStatus, h.status]
  cases issue.status <;> decide

theorem order_actor {left right : ActorRef} :
    order (actorBinary left) (actorBinary right) = .eq ↔ left = right := by
  rw [actorBinary, actorBinary, binary, binary, order_binary, Nat.compare_eq_eq]
  exact ⟨fun heq => ActorRef.toBytes_injective (BitVec.eq_of_toNat_eq heq),
    fun heq => congrArg (fun actor => (ActorRef.toBytes actor).toNat) heq⟩

/-- The filter of a command finds the documents that the row store changes. -/
theorem commandMatches_eq (h : Represents root issue pending) :
    commandMatches command root = (PostgresIssues.commanded command issue).isSome := by
  obtain ⟨hresolved, hignored⟩ := isStatus_eq h
  cases haction : command.action with
  | resolve =>
      simp only [commandMatches, PostgresIssues.commanded, haction, h.status]
      cases issue.status <;> rfl
  | ignore =>
      simp only [commandMatches, PostgresIssues.commanded, haction, h.status, hresolved]
      cases issue.status <;> rfl
  | reopen =>
      simp only [commandMatches, PostgresIssues.commanded, haction, hresolved, hignored]
      cases issue.status <;> rfl
  | assign assignee =>
      cases assignee with
      | none =>
          simp only [commandMatches, PostgresIssues.commanded, haction, h.assignee]
          cases issue.assignee <;> rfl
      | some assignee =>
          simp only [commandMatches, PostgresIssues.commanded, haction, h.assignee]
          cases issue.assignee with
          | none => rfl
          | some actor =>
              simp only [Option.map_some, orderResults, ne_eq, order_actor, Option.some.injEq]
              split_ifs with hsame <;> simp [hsame]

theorem lookup_resolved (blake3 : List (BitVec 8) → BitVec 256) (h : Represents root issue pending)
    (hresolve : command.action = .resolve) (name : Text) :
    (commandUpdate blake3 command root).lookup name =
      if name = "n".toList then pendingField (pending ++ (resolvedTransition blake3 command).toList)
      else if name = "j".toList then some (.bool true)
      else if name = "w".toList then some (workflowDocument command)
      else if name = "s".toList then some (.int32 1)
      else root.lookup name := by
  have hpending : (((root.put "s".toList (some (.int32 1))).put "w".toList
      (some (workflowDocument command))).put "j".toList (some (.bool true))).lookup "n".toList =
        pendingField pending := by
    rw [lookup_put, if_neg (by decide), lookup_put, if_neg (by decide), lookup_put, if_neg (by decide), h.pending]
  simp only [commandUpdate, resolvedTransition, hresolve, if_true, lookup_pushPending hpending, lookup_put,
    Option.toList_some]

theorem notWorkflow_iff {name : Text} : name ∉ workflowNames ↔
    name ≠ "s".toList ∧ name ≠ "w".toList ∧ name ≠ "a".toList ∧ name ≠ "j".toList ∧ name ≠ "n".toList := by
  simp [workflowNames]

theorem resolved_represents (h : Represents root issue pending) (hresolve : command.action = .resolve) :
    Represents (commandUpdate blake3 command root)
      { issue with status := .resolved, workflow := some ⟨command.atTime, command.actor⟩ }
      (pending ++ (resolvedTransition blake3 command).toList) := by
  have hlookup := lookup_resolved blake3 h hresolve
  refine h.changed rfl ?_ ?_ ?_ ?_ ?_ ?_
  · intro name hname
    obtain ⟨hs, hw, -, hj, hn⟩ := notWorkflow_iff.mp hname
    rw [hlookup, if_neg hn, if_neg hj, if_neg hw, if_neg hs]
  · rw [hlookup, if_neg (by decide), if_neg (by decide), if_neg (by decide), if_pos rfl]
    rfl
  · rw [hlookup, if_neg (by decide), if_neg (by decide), if_pos rfl]
    rfl
  · rw [hlookup, if_neg (by decide), if_neg (by decide), if_neg (by decide), if_neg (by decide), h.assignee]
  · rw [hlookup, if_neg (by decide), if_pos rfl, resolvedTransition, if_pos hresolve, pendingMark,
      if_neg (by simp)]
  · rw [hlookup, if_pos rfl]

/-- Another status, without a transition. -/
theorem Represents.restated (h : Represents root issue pending) (status : IssueStatus)
    (workflow : Option IssueWorkflow) :
    Represents ((root.put "s".toList (statusField status)).put "w".toList (workflow.map workflowValue))
      { issue with status := status, workflow := workflow } pending := by
  refine h.changed rfl ?_ ?_ ?_ ?_ ?_ ?_
  · intro name hname
    obtain ⟨hs, hw, -⟩ := notWorkflow_iff.mp hname
    rw [lookup_put, if_neg hw, lookup_put, if_neg hs]
  · rw [lookup_put, if_neg (by decide), lookup_put, if_pos rfl]
  · rw [lookup_put, if_pos rfl]
  · rw [lookup_put, if_neg (by decide), lookup_put, if_neg (by decide), h.assignee]
  · rw [lookup_put, if_neg (by decide), lookup_put, if_neg (by decide), h.mark]
  · rw [lookup_put, if_neg (by decide), lookup_put, if_neg (by decide), h.pending]

theorem Represents.assigned (h : Represents root issue pending) (assignee : Option ActorRef) :
    Represents (root.put "a".toList (assignee.map actorBinary)) { issue with assignee := assignee } pending := by
  refine h.changed rfl ?_ ?_ ?_ ?_ ?_ ?_
  · intro name hname
    obtain ⟨-, -, ha, -⟩ := notWorkflow_iff.mp hname
    rw [lookup_put, if_neg ha]
  · rw [lookup_put, if_neg (by decide), h.status]
  · rw [lookup_put, if_neg (by decide), h.workflow]
  · rw [lookup_put, if_pos rfl]
  · rw [lookup_put, if_neg (by decide), h.mark]
  · rw [lookup_put, if_neg (by decide), h.pending]

/-- A command writes the Issue that the row store makes. -/
theorem commanded_represents (h : Represents root issue pending)
    (hnext : PostgresIssues.commanded command issue = some next) :
    Represents (commandUpdate blake3 command root) next (pending ++ (resolvedTransition blake3 command).toList) := by
  cases haction : command.action with
  | resolve =>
      simp only [PostgresIssues.commanded, haction] at hnext
      split_ifs at hnext
      cases hnext
      exact resolved_represents h haction
  | ignore =>
      simp only [PostgresIssues.commanded, haction] at hnext
      split_ifs at hnext
      cases hnext
      simp only [commandUpdate, resolvedTransition, haction, reduceCtorEq, if_false, Option.toList_none,
        List.append_nil]
      exact h.restated .ignored (some ⟨command.atTime, command.actor⟩)
  | reopen =>
      simp only [PostgresIssues.commanded, haction] at hnext
      split_ifs at hnext
      cases hnext
      simp only [commandUpdate, resolvedTransition, haction, reduceCtorEq, if_false, Option.toList_none,
        List.append_nil]
      exact h.restated .open none
  | assign assignee =>
      simp only [PostgresIssues.commanded, haction] at hnext
      split_ifs at hnext
      cases hnext
      cases assignee <;>
        simp only [commandUpdate, resolvedTransition, haction, reduceCtorEq, if_false, Option.toList_none,
        List.append_nil]
      · exact h.assigned none
      · exact h.assigned (some _)

end Commands

/-- Other pending transitions. -/
theorem Represents.queued (h : Represents root issue pending) (rest : List BsonValue) :
    Represents ((root.put "j".toList (pendingMark rest)).put "n".toList (pendingField rest)) issue rest := by
  refine h.changed rfl ?_ ?_ ?_ ?_ ?_ ?_
  · intro name hname
    obtain ⟨-, -, -, hj, hn⟩ := notWorkflow_iff.mp hname
    rw [lookup_put, if_neg hn, lookup_put, if_neg hj]
  · rw [lookup_put, if_neg (by decide), lookup_put, if_neg (by decide), h.status]
  · rw [lookup_put, if_neg (by decide), lookup_put, if_neg (by decide), h.workflow]
  · rw [lookup_put, if_neg (by decide), lookup_put, if_neg (by decide), h.assignee]
  · rw [lookup_put, if_neg (by decide), lookup_put, if_pos rfl]
  · rw [lookup_put, if_pos rfl]

/-- An expansion leaves the Issue, and the transitions with other identities. -/
theorem expanded_represents (h : Represents root issue pending) (id : IssueTransitionId) :
    Represents (removePending id root) issue (pending.filter (!hasTransitionId id ·)) := by
  have hqueued := h.queued (pending.filter (!hasTransitionId id ·))
  rw [removePending, h.pending, pendingField]
  by_cases hempty : pending = []
  · rw [if_pos hempty, hempty]
    rw [hempty] at h
    exact h
  rw [if_neg hempty]
  by_cases hfound : pending.any (hasTransitionId id)
  · simp only [hfound, if_true, List.isEmpty_iff]
    rw [pendingMark, pendingField] at hqueued
    split_ifs at hqueued ⊢
    · exact hqueued
    · exact hqueued
  · simp only [hfound, Bool.false_eq_true, if_false]
    have hall : pending.filter (!hasTransitionId id ·) = pending := by
      simpa [List.filter_eq_self] using hfound
    rw [hall]
    exact h

end Changes

/-! ### The validator of the collection -/

theorem isSome_lookup {name : Text} {value : BsonValue} {root : BsonDocument} (h : (name, value) ∈ root) :
    (root.lookup name).isSome := by
  induction root with
  | nil => cases h
  | cons field root ih =>
      obtain ⟨key, content⟩ := field
      rw [lookup_field]
      split_ifs with hname
      · rfl
      · rcases List.mem_cons.mp h with heq | hmem
        · cases heq
          exact absurd rfl hname
        · exact ih hmem

theorem objectSchema_eq_true {required : List String} {properties : List (String × (BsonValue → Bool))}
    {root : BsonDocument} : objectSchema required properties (.document root) = true ↔
      (∀ name ∈ required, (root.lookup name.toList).isSome)
        ∧ (∀ field ∈ root, ∃ property ∈ properties, property.1.toList = field.1)
        ∧ ∀ property ∈ properties, (root.lookup property.1.toList).all property.2 := by
  simp only [objectSchema, Bool.and_eq_true, List.all_eq_true, List.any_eq_true, decide_eq_true_iff, and_assoc]

section Validator

variable {root : BsonDocument} {issue : IssueSnapshot} {pending : List BsonValue}

theorem isNonemptyString_text {maximum : Nat} (text : IssueText maximum) :
    isNonemptyString (.string text.asStr) = true := by
  rw [isNonemptyString, Bool.not_eq_true', List.isEmpty_eq_false_iff]
  exact text.valid.1

/-- The schema of a regression. -/
def regressionSchema : BsonValue → Bool :=
  objectSchema ["t", "e"] [("t", isDate), ("e", isBinary), ("c", isLongFrom 2), ("r", isNonemptyString)]

theorem regressionValue_schema (regression : RegressionSummary) :
    regressionSchema (regressionValue regression) = true := by
  obtain ⟨htime, hevent, hcount, hrelease⟩ := regressionFields_lookup regression
  rw [regressionSchema, regressionValue, objectSchema_eq_true]
  refine ⟨?_, ?_, ?_⟩
  · simp only [List.forall_mem_cons, List.not_mem_nil, false_implies, implies_true, and_true, htime, hevent,
      Option.isSome_some]
  · unfold regressionFields
    split_ifs <;> cases regression.release <;> simp
  · simp only [List.forall_mem_cons, List.not_mem_nil, false_implies, implies_true, and_true, htime, hevent,
      hcount, hrelease]
    refine ⟨rfl, rfl, ?_, ?_⟩
    · split_ifs with hmany
      · rw [Option.all_some, isLongFrom, decide_eq_true_iff]
        omega
      · rfl
    · cases regression.release with
      | none => rfl
      | some release => exact isNonemptyString_text release

theorem pendingField_schema (hlength : pending.length ≤ maxPendingTransitions)
    (hitems : ∀ item ∈ pending, transitionSchema item = true) :
    (pendingField pending).all (arraySchema 1 maxPendingTransitions transitionSchema) = true := by
  rw [pendingField]
  split_ifs with hempty
  · rfl
  · have hsome : 1 ≤ pending.length := List.length_pos_of_ne_nil hempty
    simp only [Option.all_some, arraySchema, Bool.and_eq_true, decide_eq_true_iff, List.all_eq_true]
    exact ⟨⟨hsome, hlength⟩, hitems⟩

/-- What the validator asks of the fields of an Issue. -/
theorem issueSchema_represents (h : Represents root issue pending) (hlength : pending.length ≤ maxPendingTransitions)
    (hitems : ∀ item ∈ pending, transitionSchema item = true) : issueSchema (.document root) = true := by
  obtain ⟨content, hbody⟩ := h.body
  rw [issueSchema, objectSchema_eq_true]
  refine ⟨?_, ?_, ?_⟩
  · simp only [List.forall_mem_cons, List.not_mem_nil, false_implies, implies_true, and_true, h.id, h.project,
      h.key, h.title, h.firstSeen, h.lastSeen, h.firstEvent, h.count, hbody, Option.isSome_some]
  · intro field hfield
    have hname : field.1 ∈ issueNames := h.known field.1 (isSome_lookup hfield)
    exact (List.mem_map (f := fun property : String × (BsonValue → Bool) => property.1.toList)).mp hname
  · simp only [List.forall_mem_cons, List.not_mem_nil, false_implies, implies_true, and_true, h.id, h.project,
      h.key, h.title, h.culprit, h.firstSeen, h.lastSeen, h.firstEvent, h.latestEvent, h.representative, h.count,
      h.status, h.assignee, h.workflow, h.regression, h.firstRelease, h.lastRelease, h.releaseMissing, h.mark,
      h.pending, hbody]
    have hproject : isIntFrom 1 (.int32 issue.projectId.get) = true := by
      have := issue.projectId.positive
      rw [isIntFrom, decide_eq_true_iff]
      omega
    have htitle : isNonemptyString (.string issue.title.asStr) = true := by
      rw [isNonemptyString, Bool.not_eq_true', List.isEmpty_eq_false_iff]
      exact issue.title.valid.1
    have hcount : isLongFrom 1 (.int64 issue.occurrenceCount.get) = true := by
      have := issue.occurrenceCount.inRange
      rw [isLongFrom, decide_eq_true_iff]
      omega
    refine ⟨rfl, hproject, rfl, htitle, ?_, rfl, rfl, rfl, ?_, rfl, hcount, ?_, ?_, ?_, ?_, ?_, ?_, ?_, ?_,
      pendingField_schema hlength hitems, rfl⟩
    · cases issue.culprit with
      | none => rfl
      | some culprit => exact isNonemptyString_text culprit
    · unfold latestEventField
      split_ifs <;> rfl
    · cases issue.status <;> rfl
    · cases issue.assignee <;> rfl
    · cases issue.workflow <;> rfl
    · cases issue.regression with
      | none => rfl
      | some regression => exact regressionValue_schema regression
    · cases issue.firstRelease with
      | none => rfl
      | some release => exact isNonemptyString_text release
    · cases issue.lastRelease with
      | none =>
          unfold lastReleaseField
          split_ifs <;> rfl
      | some release =>
          unfold lastReleaseField
          split_ifs
          · rfl
          · exact isNonemptyString_text release
    · unfold releaseMissingField
      split_ifs <;> rfl
    · unfold pendingMark
      split_ifs <;> rfl

theorem hasStringBytes_text {maximum : Nat} (text : Option (IssueText maximum)) :
    whenPresent (hasStringBytes maximum) (text.map fun text => .string text.asStr) = true := by
  cases text with
  | none => rfl
  | some text => exact decide_eq_true text.valid.2

theorem issueExpression_represents (h : Represents root issue pending) : issueExpression root = true := by
  have hactor : follow ["w".toList, "a".toList] (.document root) =
      issue.workflow.map fun workflow => actorBinary workflow.actor := by
    rw [follow, h.workflow]
    cases issue.workflow <;> rfl
  have hrelease : follow ["d".toList, "r".toList] (.document root) =
      (issue.regression.bind (·.release)).map fun release => .string release.asStr := by
    rw [follow, h.regression]
    cases issue.regression with
    | none => rfl
    | some regression =>
        rw [Option.map_some, Option.bind_some, regressionValue, follow_field,
          (regressionFields_lookup regression).2.2.2]
        rfl
  have htitle : hasStringBytes 512 (some (.string issue.title.asStr)) = true :=
    decide_eq_true issue.title.valid.2
  simp only [issueExpression, h.id, h.key, h.firstEvent, h.title, h.culprit, h.latestEvent, h.representative,
    h.assignee, h.workflow, h.lastRelease, h.releaseMissing, h.firstRelease, h.mark, h.pending, hactor, hrelease,
    Bool.and_eq_true]
  refine ⟨⟨⟨⟨⟨⟨⟨⟨⟨⟨⟨⟨rfl, rfl⟩, rfl⟩, htitle⟩, ?_⟩, ?_⟩, rfl⟩, ?_⟩, ?_⟩, ?_⟩, ?_⟩, ?_⟩, ?_⟩
  · exact hasStringBytes_text issue.culprit
  · unfold latestEventField
    split_ifs <;> rfl
  · cases issue.assignee <;> rfl
  · cases issue.workflow <;> rfl
  · exact hasStringBytes_text (issue.regression.bind (·.release))
  · unfold lastReleaseField releaseMissingField
    cases releaseText issue.firstRelease <;> cases releaseText issue.lastRelease <;> simp
  · unfold releaseMissingField
    cases releaseText issue.firstRelease <;> simp
  · unfold pendingMark pendingField
    split_ifs <;> rfl

/-- The validator takes the document of an Issue with pending transitions that it has room for. -/
theorem issueValidator_represents (h : Represents root issue pending)
    (hlength : pending.length ≤ maxPendingTransitions) (hitems : ∀ item ∈ pending, transitionSchema item = true) :
    issueValidator root = true := by
  rw [issueValidator, issueSchema_represents h hlength hitems, issueExpression_represents h]
  rfl

/-- What the validator asks of the counts and of the pending transitions. -/
theorem schemas_of_valid (h : issueValidator root = true) :
    (root.lookup "c".toList).all (isLongFrom 1)
      ∧ (root.lookup "d".toList).all regressionSchema
      ∧ (root.lookup "n".toList).all (arraySchema 1 maxPendingTransitions transitionSchema) := by
  rw [issueValidator, issueSchema, Bool.and_eq_true, objectSchema_eq_true] at h
  obtain ⟨⟨-, -, hall⟩, -⟩ := h
  refine ⟨hall ("c", isLongFrom 1) ?_, hall ("d", regressionSchema) ?_,
    hall ("n", arraySchema 1 maxPendingTransitions transitionSchema) ?_⟩
  all_goals simp only [regressionSchema, List.mem_cons, true_or, or_true]

end Validator

section Refused

variable {blake3 : List (BitVec 8) → BitVec 256} {batch : Batch} {body : List (BitVec 8)} {root : BsonDocument}
  {issue : IssueSnapshot} {pending : List BsonValue}

theorem isLong_sum64 {minimum value : Int} (h : isLongFrom minimum (sum64 value) = true) :
    value ≤ i64Max := by
  unfold sum64 at h
  split_ifs at h with hfits
  · simp only [i64Max]
    omega
  · cases h

theorem positive_of_fits {value : Nat} (hpositive : 0 < value) (hfits : value ≤ i64Max) :
    0 < value ∧ value < 2 ^ 64 := by
  refine ⟨hpositive, lt_of_le_of_lt hfits ?_⟩
  rw [i64Max]
  decide

/-- A regression whose count does not fit is stored with a double, which the validator refuses. -/
theorem regression_fits (h : Represents root issue pending)
    (hplain : ∀ release ∈ batch.candidate.release, ¬ dollared release.asStr)
    (hvalid : (MongoIssues.regression batch (selected blake3 batch root)).all regressionSchema) :
    (issue.regression.map (·.count.get)).getD 0 + 1 ≤ i64Max := by
  by_contra hlarge
  have hstored : regressionCount (selected blake3 batch root) =
      some (.double ((issue.regression.map (·.count.get)).getD 0 + 1)) := by
    rw [h.regressionCount_eq, sum64, if_neg]
    simp only [i64Max] at hlarge
    omega
  have hmany : truthy (Expr.gt regressionCount (.literal (.int64 1)) (selected blake3 batch root)) = true := by
    rw [Expr.gt, Expr.compared, hstored, truthy_bool, beq_iff_eq]
    simp only [Expr.literal, orderResults, order, rank, number]
    rw [Nat.compare_eq_eq.mpr rfl, Ordering.eq_then, compare_gt_iff_gt]
    simp only [i64Max] at hlarge
    omega
  rw [MongoIssues.regression, Expr.cond, hmany, if_pos rfl] at hvalid
  simp only [Expr.object, List.filterMap_cons, List.filterMap_nil, Expr.literal, Option.map_some, hstored,
    orRemove_eval hplain, Option.all_some, regressionSchema, objectSchema_eq_true] at hvalid
  obtain ⟨-, -, hall⟩ := hvalid
  have hcount := hall ("c", isLongFrom 2) (by simp)
  cases batch.candidate.release <;> cases hcount

/-- What the validator takes after a batch, the row store takes too. -/
theorem updated_of_valid (h : Represents root issue pending) (hpositive : 0 < batch.increment)
    (hconsistent : workflowConsistent issue = true)
    (hplain : ∀ release ∈ batch.candidate.release, ¬ dollared release.asStr)
    (hvalid : issueValidator (runPipeline (occurrencePipeline blake3 batch body) root) = true) :
    ∃ next, PostgresIssues.updated batch issue = .ok next := by
  obtain ⟨hcount, hregression, -⟩ := schemas_of_valid hvalid
  have hsum : issue.occurrenceCount.get + batch.increment ≤ i64Max := by
    have hplus : plus (coalesce (some (.int64 issue.occurrenceCount.get)) (some (.int64 0)))
        (some (.int64 batch.increment)) = some (sum64 (issue.occurrenceCount.get + batch.increment)) := rfl
    rw [written_count, h.count, hplus, Option.all_some] at hcount
    exact_mod_cast isLong_sum64 hcount
  obtain ⟨count, hcount⟩ : ∃ count : NonZeroU64, count.get = issue.occurrenceCount.get + batch.increment :=
    ⟨⟨_, positive_of_fits (by omega) hsum⟩, rfl⟩
  by_cases hregresses : regresses batch issue
  · rw [written_regression, h.isRegression_eq hconsistent, if_pos hregresses] at hregression
    have hfits := regression_fits h hplain hregression
    obtain ⟨times, htimes⟩ : ∃ times : NonZeroU64, times.get = (issue.regression.map (·.count.get)).getD 0 + 1 :=
      ⟨⟨_, positive_of_fits (by omega) hfits⟩, rfl⟩
    have hregressed : ∃ next,
        PostgresIssues.withRegression batch (PostgresIssues.merged batch count issue) = .ok next := by
      obtain ⟨-, -, -, -, -, -, -, hkept⟩ := PostgresIssues.merged_kept batch count issue
      exact ⟨_, PostgresIssues.withRegression_eq_ok.mpr
        ⟨times, by rw [hkept, htimes], by rw [htimes]; exact hfits, rfl⟩⟩
    obtain ⟨next, hnext⟩ := hregressed
    refine ⟨next, PostgresIssues.updated_eq_ok.mpr ⟨count, hcount, by rw [hcount]; exact hsum, ?_⟩⟩
    rw [if_pos hregresses]
    exact hnext
  · refine ⟨PostgresIssues.merged batch count issue,
      PostgresIssues.updated_eq_ok.mpr ⟨count, hcount, by rw [hcount]; exact hsum, ?_⟩⟩
    rw [if_neg hregresses]

end Refused

end MongoIssues

end MetricBackend
