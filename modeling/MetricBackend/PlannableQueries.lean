import MetricBackend.ExplorePlanner
import MetricBackend.QueryPrinting

/-! Which of the queries that `ParsedQuery::parse` accepts the planner of Explore accepts too. -/

namespace MetricBackend

namespace QueryLanguage

open ExplorePlanner

section Plannable

variable (rfc3339 : Text → Option Int)

/-- The query has a typed expression, and with any rest that is accepted the planner refuses it for its cost at most. -/
def Plannable (query : ParsedQuery) : Prop :=
  ∃ expression, query.exploreExpression rfc3339 = .ok expression
    ∧ ∀ explore : ExploreQuery, exploreDataset query.source = some explore.dataset → explore.predicates = [] →
      explore.expression = expression → RestAccepted explore → ∀ displayF64 config projectId,
        plan displayF64 config projectId explore ≠ .error .invalidQuery

/-- The dataset has the field. -/
def FieldAccepted (dataset : ExploreDataset) (field : QueryField) : Prop :=
  ∃ explored, exploreField field = some explored ∧ explored.acceptedBy dataset = true

/-- The values that the planner has a stricter rule for than the parser. -/
def PlannableValue (predicate : QueryPredicate) : Prop :=
  if predicate.operator = .contains then byteLength predicate.value ≤ maxTextBytes
  else
    match predicate.field with
    | .timestamp | .receivedAt => ∃ millis, timestampMillis rfc3339 predicate.value = some millis
        ∧ minTimestampMillis ≤ millis ∧ millis ≤ maxTimestampMillis
    | .durationMs => ∃ number, parseF64 predicate.value = some number ∧ 0 ≤ number
    | .metricCount => ∃ count, parseU64 predicate.value = some count ∧ count < 2 ^ 63
    | .platform => predicate.value ∈ platformLabels
    | .operationClass => predicate.value ∈ operationClassLabels
    | .message | .environment | .release | .service | .operation | .name | .metricName | .unit =>
        byteLength predicate.value ≤ maxTextBytes
    | _ => True

variable {rfc3339}

theorem exists_elim_eq_ok {ε α β : Type} {found : Option α} {f : α → β} {error : ε} {post : β → Prop} :
    (∃ value, (found.map f).elim (Except.error error) Except.ok = .ok value ∧ post value)
      ↔ ∃ item, found = some item ∧ post (f item) := by
  cases found with
  | none => simp
  | some item => simp

theorem exists_eq_ok {ε α : Type} {item : α} {post : α → Prop} :
    (∃ value, (Except.ok item : Except ε α) = .ok value ∧ post value) ↔ post item := by
  simp

theorem filter_signed (count : Nat) :
    (some (count : Int)).filter (fun value => -2 ^ 63 ≤ value ∧ value < 2 ^ 63)
      = if count < 2 ^ 63 then some (count : Int) else none := by
  rw [Option.filter]
  by_cases hcount : count < 2 ^ 63
  · rw [if_pos hcount, if_pos (by simp only [decide_eq_true_eq]; omega)]
  · rw [if_neg hcount, if_neg (by simp only [decide_eq_true_eq]; omega)]

theorem parseI64_of_parseU64 {value : Text} {count : Nat} (h : parseU64 value = some count) :
    parseI64 value = if count < 2 ^ 63 then some (count : Int) else none := by
  rw [← filter_signed]
  unfold parseU64 at h
  split at h
  · obtain ⟨hdigits, -⟩ := Option.filter_eq_some_iff.mp h
    simp [parseI64, hdigits]
  · rename_i hplus
    obtain ⟨hdigits, -⟩ := Option.filter_eq_some_iff.mp h
    unfold parseI64
    split
    rename_i negative digits hparts
    split at hparts
    · cases hdigits
    · exact absurd rfl (hplus _)
    · obtain ⟨rfl, rfl⟩ := Prod.mk.inj hparts
      simp [hdigits]

/-- What becomes of a value that the parser accepts. -/
theorem exploreValue_matches {source : QuerySource} {dataset : ExploreDataset} {predicate : QueryPredicate}
    {field : ExploreField} (hdataset : exploreDataset source = some dataset)
    (haccepted : Acceptable rfc3339 source predicate) (hfield : exploreField predicate.field = some field) :
    (∃ value, exploreValue rfc3339 field predicate.value = .ok value ∧ valueMatches dataset field value = true)
      ↔ PlannableValue rfc3339 predicate := by
  have hvalue := haccepted.value
  obtain ⟨queried, operator, value⟩ := predicate
  have hcompared : operator ≠ .contains := haccepted.compared
  simp only [PlannableValue, if_neg hcompared]
  cases queried <;> simp only [exploreField, Option.some.injEq, reduceCtorEq] at hfield <;> subst hfield <;>
    simp only [validValue, exploreValue, valueMatches, ofString, exists_elim_eq_ok, exists_eq_ok,
      decide_eq_true_eq] at hvalue ⊢
  case timestamp | receivedAt =>
    refine exists_congr fun millis => and_congr_right fun _ => ?_
    rw [Timestamp.fromUnixMillis]
    split_ifs with hrange <;> simp [Except.isOk, Except.toBool, hrange]
  case level =>
    cases source <;> simp only [exploreDataset, Option.some.injEq, reduceCtorEq] at hdataset <;> subst hdataset
    all_goals simp_all [levelLabels]
  case status =>
    cases source <;> simp only [exploreDataset, Option.some.injEq, reduceCtorEq] at hdataset <;> subst hdataset
    all_goals simp_all [maxTextBytes]
  case isSegment =>
    simp only [List.mem_cons, List.not_mem_nil, or_false] at hvalue
    obtain rfl | rfl := hvalue
    · exact iff_true_intro ⟨true, rfl, trivial⟩
    · exact iff_true_intro ⟨false, rfl, trivial⟩
  case metricCount =>
    obtain ⟨count, hcount⟩ := Option.isSome_iff_exists.mp hvalue
    rw [parseI64_of_parseU64 hcount, hcount]
    split_ifs with hsigned
    · exact iff_of_true ⟨_, rfl, Int.natCast_nonneg count⟩ ⟨count, rfl, hsigned⟩
    · refine iff_of_false ?_ ?_
      · rintro ⟨_, h, -⟩
        cases h
      · rintro ⟨_, h, hfits⟩
        exact hsigned (Option.some.inj h ▸ hfits)
  case metricSum | metricMin | metricMax =>
    rw [← isSome_parseF64] at hvalue
    obtain ⟨number, hnumber⟩ := Option.isSome_iff_exists.mp hvalue
    exact iff_true_intro ⟨number, hnumber, trivial⟩
  case issueId | traceId | spanId | metricKind => exact iff_true_intro hvalue

theorem validPredicate_compared {queried : QueryField} {operator : QueryOperator} {field : ExploreField}
    (dataset : ExploreDataset) (value : ExploreValue) (hcompared : operator ≠ .contains)
    (hoperator : operatorAccepted queried operator = true) (hfield : exploreField queried = some field) :
    validPredicate dataset ⟨field, exploreOp operator, some value, none⟩ = valueMatches dataset field value := by
  have hnumeric : operator ≠ .equal → field.numeric = true := by
    intro hordered
    have hmem : queried ∈ orderedFields := by
      cases operator <;> simp_all [operatorAccepted]
    cases queried <;> simp_all [orderedFields, exploreField] <;> subst hfield <;> rfl
  cases operator <;> simp_all [validPredicate, exploreOp]

theorem toExplorePredicate_eq_ok {dataset : ExploreDataset} {predicate : QueryPredicate} {field : ExploreField}
    (hfield : exploreField predicate.field = some field) (haccepted : field.acceptedBy dataset = true)
    {result : ExplorePredicate} :
    toExplorePredicate rfc3339 dataset predicate = .ok result
      ↔ ∃ value, exploreValue rfc3339 field predicate.value = .ok value
        ∧ result = ⟨field, exploreOp predicate.operator, some value, none⟩ := by
  rw [toExplorePredicate, hfield]
  simp only [bind_eq_ok, failIf_eq_ok, pure_eq_ok]
  constructor
  · rintro ⟨_, -, value, hvalue, rfl⟩
    exact ⟨value, hvalue, rfl⟩
  · rintro ⟨value, hvalue, rfl⟩
    exact ⟨(), not_not.mpr haccepted, value, hvalue, rfl⟩

/-- A bare word is looked for in a text. -/
theorem bareTerms_searchable {source : QuerySource} {dataset : ExploreDataset} {predicate : QueryPredicate}
    {value : Text} {field : ExploreField} (hdataset : exploreDataset source = some dataset)
    (hbare : predicate ∈ bareTerms source value) (hfield : exploreField predicate.field = some field) :
    predicate.operator = .contains ∧ predicate.value = value ∧ textSearchable field = true
      ∧ exploreValue rfc3339 field value = .ok (.string value) := by
  cases source <;> simp only [exploreDataset, reduceCtorEq] at hdataset <;>
    simp only [bareTerms, List.mem_cons, List.not_mem_nil, or_false] at hbare
  case logs | metrics =>
    subst hbare
    obtain rfl := Option.some.inj hfield
    exact ⟨rfl, rfl, rfl, rfl⟩
  case traces =>
    obtain rfl | rfl := hbare <;> obtain rfl := Option.some.inj hfield <;> exact ⟨rfl, rfl, rfl, rfl⟩

/-- A predicate that the parser makes is typed and valid exactly when the planner has no stricter rule
that its value breaks. -/
theorem toExplorePredicate_valid {source : QuerySource} {dataset : ExploreDataset} {predicate : QueryPredicate}
    (hdataset : exploreDataset source = some dataset) (hreadable : Readable rfc3339 source predicate)
    (hfield : FieldAccepted dataset predicate.field) :
    (∃ result, toExplorePredicate rfc3339 dataset predicate = .ok result
        ∧ validTypedPredicate dataset result = true)
      ↔ PlannableValue rfc3339 predicate := by
  obtain ⟨field, hfield, haccepted⟩ := hfield
  simp only [toExplorePredicate_eq_ok hfield haccepted, validTypedPredicate]
  obtain hacceptable | ⟨value, hnonempty, hbare⟩ := hreadable
  · rw [← exploreValue_matches hdataset hacceptable hfield]
    constructor
    · rintro ⟨_, ⟨value, hvalue, rfl⟩, hvalid⟩
      rw [Bool.and_eq_true, validPredicate_compared dataset value hacceptable.compared hacceptable.operator hfield]
        at hvalid
      exact ⟨value, hvalue, hvalid.2⟩
    · rintro ⟨value, hvalue, hvalid⟩
      refine ⟨_, ⟨value, hvalue, rfl⟩, ?_⟩
      rw [haccepted, validPredicate_compared dataset value hacceptable.compared hacceptable.operator hfield, hvalid]
      rfl
  · obtain ⟨hoperator, rfl, hsearchable, hvalue⟩ :=
      bareTerms_searchable hdataset hbare hfield
    have hvalid : validPredicate dataset ⟨field, exploreOp predicate.operator, some (.string predicate.value), none⟩
        = decide (byteLength predicate.value ≤ maxTextBytes) := by
      simp [hoperator, exploreOp, validPredicate, hsearchable, ofString, hnonempty]
    rw [PlannableValue, if_pos hoperator, ← decide_eq_true_iff (p := byteLength predicate.value ≤ maxTextBytes),
      ← hvalid]
    constructor
    · rintro ⟨_, ⟨_, hother, rfl⟩, hboth⟩
      obtain rfl := Except.ok.inj (hvalue.symm.trans hother)
      exact (Bool.and_eq_true _ _ ▸ hboth).2
    · intro hbytes
      exact ⟨_, ⟨_, hvalue, rfl⟩, by rw [haccepted, hbytes]; rfl⟩

theorem validExpression_iff {dataset : ExploreDataset} {expression : ExploreExpression}
    (hbranching : expression.branching = true) :
    validExpression dataset expression = true
      ↔ ∀ predicate ∈ expression.predicates, validTypedPredicate dataset predicate = true := by
  induction expression using Formula.induction with
  | predicate value =>
      simp only [Formula.predicates_predicate, List.forall_mem_singleton]
      rfl
  | not value ih => exact ih hbranching
  | and values ih =>
      obtain ⟨-, hvalues⟩ := (Formula.branching_and values).mp hbranching
      rw [validExpression, Formula.fold_and, Formula.predicates_and, Formula.forall_mem_predicates_flatten,
        List.all_map, List.all_eq_true]
      exact forall₂_congr fun value hvalue => ih value hvalue (hvalues value hvalue)
  | or values ih =>
      obtain ⟨hlength, hvalues⟩ := (Formula.branching_or values).mp hbranching
      have hnonempty : (values.map (validExpression dataset)).isEmpty = false := by
        cases values with
        | nil => exact absurd hlength (by decide)
        | cons value values => rfl
      rw [validExpression, Formula.fold_or, ← validExpression, hnonempty, Formula.predicates_or,
        Formula.forall_mem_predicates_flatten, Bool.not_false, Bool.true_and, List.all_map, List.all_eq_true]
      exact forall₂_congr fun value hvalue => ih value hvalue (hvalues value hvalue)

/-- The parts of an accepted expression: its limits and its predicates. -/
theorem structureAccepted_iff {explore : ExploreQuery} {expression : ExploreExpression}
    (hbranching : expression.branching = true) (hexpression : explore.expression = some expression) :
    structureAccepted explore = true
      ↔ (expression.predicateCount ≤ maxExplorePredicates ∧ expression.nodeCount ≤ maxExploreExpressionNodes
        ∧ expression.orAlternatives ≤ maxExploreOrAlternatives)
        ∧ ∀ predicate ∈ expression.predicates, validTypedPredicate explore.dataset predicate = true := by
  rw [← validExpression_iff hbranching, structureAccepted, effectivePredicateCount, hexpression]
  simp [and_assoc]

/-- A query of an expression with nothing else in it. -/
def bareQuery (dataset : ExploreDataset) (expression : Option ExploreExpression) : ExploreQuery where
  dataset := dataset
  start := ⟨0, inRange_epoch⟩
  «until» := ⟨1000, inRange_second⟩
  predicates := []
  expression := expression
  aggregates := []
  groupBy := []
  interval := none
  cursor := none
  limit := 1

theorem bareQuery_rest (dataset : ExploreDataset) (expression : Option ExploreExpression) :
    RestAccepted (bareQuery dataset expression) where
  range := show (0 : Int) < 1000 by decide
  bounded := fun hstart => absurd rfl hstart
  aggregates := Nat.zero_le _
  groups := Nat.zero_le _
  limit := show 1 ≠ 0 ∧ 1 ≤ maxExploreRows by decide
  raw := fun _ => ⟨rfl, Bool.false_ne_true⟩
  unpaged := fun hempty => absurd rfl hempty
  groupable := rfl
  accepted := rfl
  aliases := List.nodup_nil

/-- Only the expression decides whether a query is plannable. -/
theorem plannable_iff_structureAccepted {query : ParsedQuery} : Plannable rfc3339 query ↔
    ∃ expression, query.exploreExpression rfc3339 = .ok expression
      ∧ ∀ explore : ExploreQuery, exploreDataset query.source = some explore.dataset → explore.predicates = [] →
        explore.expression = expression → structureAccepted explore = true := by
  refine exists_congr fun expression => and_congr_right fun _ => ⟨fun h explore hdataset hpredicates hexpression => ?_,
    fun h explore hdataset hpredicates hexpression hrest _ _ _ hplan => ?_⟩
  · have hbare := h (bareQuery explore.dataset expression) hdataset rfl rfl (bareQuery_rest _ _) (fun _ => [])
      ⟨0, 0, 0⟩ ⟨1, ProjectId.positive_one⟩
    rw [ne_eq, plan_eq_invalidQuery, not_not] at hbare
    rw [structureAccepted, effectivePredicateCount, hexpression, hpredicates]
    exact hbare.2
  · exact plan_eq_invalidQuery.mp hplan ⟨hrest, h explore hdataset hpredicates hexpression⟩

theorem exploreExpression_some {source : QuerySource} {dataset : ExploreDataset} (expression : QueryExpression)
    (normalized : Text) (hdataset : exploreDataset source = some dataset) :
    ParsedQuery.exploreExpression rfc3339 ⟨source, some expression, normalized⟩
      = some <$> toExploreExpression rfc3339 dataset expression := by
  simp only [ParsedQuery.exploreExpression, hdataset]

theorem plannable_expression_iff {source : QuerySource} {dataset : ExploreDataset} {expression : QueryExpression}
    {normalized : Text} (hdataset : exploreDataset source = some dataset)
    (hbranching : expression.branching = true)
    (hreadable : ∀ predicate ∈ expression.predicates, Readable rfc3339 source predicate)
    (hfields : ∀ predicate ∈ expression.predicates, FieldAccepted dataset predicate.field) :
    Plannable rfc3339 ⟨source, some expression, normalized⟩
      ↔ (∀ predicate ∈ expression.predicates, PlannableValue rfc3339 predicate)
        ∧ expression.predicateCount ≤ maxExplorePredicates ∧ expression.nodeCount ≤ maxExploreExpressionNodes
        ∧ expression.orAlternatives ≤ maxExploreOrAlternatives := by
  have hvalid := fun predicate hpredicate =>
    toExplorePredicate_valid hdataset (hreadable predicate hpredicate) (hfields predicate hpredicate)
  let fallback : ExplorePredicate := ⟨.timestamp, .exact, none, none⟩
  let explored := expression.map fun predicate => Formula.okOr fallback (toExplorePredicate rfc3339 dataset predicate)
  have hexplored : explored.branching = true := by rw [Formula.branching_map, hbranching]
  simp only [plannable_iff_structureAccepted, exploreExpression_some expression normalized hdataset, toExploreExpression, map_eq_ok,
    Formula.mapM_eq_ok_okOr fallback]
  constructor
  · rintro ⟨_, ⟨_, ⟨hok, rfl⟩, rfl⟩, haccepted⟩
    have hparts := (structureAccepted_iff hexplored rfl).mp (haccepted (bareQuery dataset (some explored)) hdataset rfl rfl)
    simp only [explored, Formula.predicateCount_map, Formula.nodeCount_map, Formula.orAlternatives_map,
      Formula.predicates_map, List.forall_mem_map] at hparts
    refine ⟨fun predicate hpredicate => ?_, hparts.1⟩
    obtain ⟨result, hresult⟩ := hok predicate hpredicate
    have htyped := hparts.2 predicate hpredicate
    rw [hresult] at htyped
    exact (hvalid predicate hpredicate).mp ⟨result, hresult, htyped⟩
  · rintro ⟨hvalues, hlimits⟩
    have htyped : ∀ predicate ∈ expression.predicates, ∃ result,
        toExplorePredicate rfc3339 dataset predicate = .ok result ∧ validTypedPredicate dataset result = true :=
      fun predicate hpredicate => (hvalid predicate hpredicate).mpr (hvalues predicate hpredicate)
    refine ⟨_, ⟨explored, ⟨fun predicate hpredicate => ?_, rfl⟩, rfl⟩, fun explore hsource _ hexpression => ?_⟩
    · obtain ⟨result, hresult, -⟩ := htyped predicate hpredicate
      exact ⟨result, hresult⟩
    · obtain rfl := Option.some.inj (hdataset.symm.trans hsource)
      rw [structureAccepted_iff hexplored hexpression]
      simp only [explored, Formula.predicateCount_map, Formula.nodeCount_map, Formula.orAlternatives_map,
        Formula.predicates_map, List.forall_mem_map]
      refine ⟨hlimits, fun predicate hpredicate => ?_⟩
      obtain ⟨result, hresult, hresultValid⟩ := htyped predicate hpredicate
      rw [hresult]
      exact hresultValid

theorem parse_source {source : QuerySource} {text : Text} {parsed : ParsedQuery}
    (h : ParsedQuery.parse rfc3339 source text = .ok parsed) : parsed.source = source := by
  simp only [ParsedQuery.parse, bind_eq_ok] at h
  obtain ⟨_, -, h⟩ := h
  split at h
  · rw [← pure_eq_ok.mp h]
  · simp only [bind_eq_ok, pure_eq_ok] at h
    obtain ⟨_, -, _, -, _, -, rfl⟩ := h
    rfl

theorem segment_readable : Readable rfc3339 .traces segmentPredicate :=
  .inl ⟨rfl, by decide, by decide, rfl, nofun, rfl⟩

theorem segment_plannable : PlannableValue rfc3339 segmentPredicate := by
  simp [PlannableValue, segmentPredicate]

theorem plannable_none {source : QuerySource} {dataset : ExploreDataset} {normalized : Text}
    (hdataset : exploreDataset source = some dataset) : Plannable rfc3339 ⟨source, none, normalized⟩ := by
  rw [plannable_iff_structureAccepted]
  refine ⟨none, by simp only [ParsedQuery.exploreExpression, hdataset], fun explore _ hpredicates hexpression => ?_⟩
  rw [structureAccepted, effectivePredicateCount, hexpression, hpredicates]
  rfl

theorem plannable_records_none {source : QuerySource} {dataset : ExploreDataset} {normalized : Text}
    (hdataset : exploreDataset source = some dataset) :
    Plannable rfc3339 ⟨source, recordsExpression ⟨source, none, normalized⟩, normalized⟩ := by
  by_cases htraces : source = .traces
  · subst htraces
    obtain rfl := Option.some.inj hdataset
    have hsegment : Plannable rfc3339 ⟨.traces, some (.predicate segmentPredicate), normalized⟩ := by
      refine (plannable_expression_iff hdataset rfl ?_ ?_).mpr ⟨?_, by decide, by decide, by decide⟩
      · exact List.forall_mem_singleton.mpr segment_readable
      · exact List.forall_mem_singleton.mpr ⟨.isSegment, rfl, rfl⟩
      · exact List.forall_mem_singleton.mpr segment_plannable
    exact hsegment
  · have hrecords : recordsExpression ⟨source, none, normalized⟩ = none := if_neg htraces
    rw [hrecords]
    exact plannable_none hdataset

/-- The records of traces need room for one more conjunct. -/
theorem plannable_records_iff {source : QuerySource} {dataset : ExploreDataset} {expression : QueryExpression}
    {normalized : Text} (hdataset : exploreDataset source = some dataset)
    (hbranching : expression.branching = true) (hlimits : WithinLimits expression)
    (hreadable : ∀ predicate ∈ expression.predicates, Readable rfc3339 source predicate)
    (hfields : ∀ predicate ∈ expression.predicates, FieldAccepted dataset predicate.field) :
    Plannable rfc3339 ⟨source, recordsExpression ⟨source, some expression, normalized⟩, normalized⟩
      ↔ (∀ predicate ∈ expression.predicates, PlannableValue rfc3339 predicate)
        ∧ (source = .traces → expression.predicateCount < maxExplorePredicates
          ∧ expression.nodeCount + 2 ≤ maxExploreExpressionNodes) := by
  by_cases htraces : source = .traces
  · subst htraces
    obtain rfl := Option.some.inj hdataset
    let conjunction : QueryExpression := .and [expression, .predicate segmentPredicate]
    have hpredicates : conjunction.predicates = expression.predicates ++ [segmentPredicate] := by
      simp [conjunction]
    have hconjunction : conjunction.branching = true := by
      simp [conjunction, hbranching]
    have hrecords : recordsExpression ⟨.traces, some expression, normalized⟩ = some conjunction := rfl
    rw [hrecords, plannable_expression_iff hdataset hconjunction]
    · rw [hpredicates]
      have hor : expression.orAlternatives ≤ maxExploreOrAlternatives := hlimits.orAlternatives
      have hpredicateCount : conjunction.predicateCount = expression.predicateCount + 1 := by simp [conjunction]
      have hnodeCount : conjunction.nodeCount = expression.nodeCount + 2 := by simp [conjunction]
      have horAlternatives : conjunction.orAlternatives = expression.orAlternatives := by simp [conjunction]
      rw [List.forall_mem_append, List.forall_mem_singleton, hpredicateCount, hnodeCount, horAlternatives]
      constructor
      · rintro ⟨⟨hvalues, -⟩, hpredicate, hnodes, -⟩
        exact ⟨hvalues, fun _ => ⟨hpredicate, hnodes⟩⟩
      · rintro ⟨hvalues, hroom⟩
        exact ⟨⟨hvalues, segment_plannable⟩, (hroom rfl).1, (hroom rfl).2, hor⟩
    · rw [hpredicates]
      exact List.forall_mem_append.mpr ⟨hreadable, List.forall_mem_singleton.mpr segment_readable⟩
    · rw [hpredicates]
      exact List.forall_mem_append.mpr ⟨hfields, List.forall_mem_singleton.mpr ⟨.isSegment, rfl, rfl⟩⟩
  · have hrecords : recordsExpression ⟨source, some expression, normalized⟩ = some expression := if_neg htraces
    rw [hrecords, plannable_expression_iff hdataset hbranching hreadable hfields]
    refine and_congr_right fun _ => iff_of_true ?_ fun h => absurd h htraces
    exact ⟨hlimits.predicates, hlimits.nodes, hlimits.orAlternatives⟩

end Plannable

/-- The queries that are accepted and planned: none of the stricter rules of the planner is broken, and a
query for traces has room for the conjunct that selects the segments. -/
theorem accepted_query_plannable_iff (rfc3339 : Text → Option Int) {source : QuerySource}
    {dataset : ExploreDataset} {text : Text} {parsed : ParsedQuery}
    (hdataset : exploreDataset source = some dataset)
    (hparse : ParsedQuery.parse rfc3339 source text = .ok parsed)
    (hfields : ∀ expression, parsed.expression = some expression →
      ∀ predicate ∈ expression.predicates, FieldAccepted dataset predicate.field) :
    (Plannable rfc3339 parsed ∧ Plannable rfc3339 { parsed with expression := recordsExpression parsed })
      ↔ ∀ expression, parsed.expression = some expression →
        (∀ predicate ∈ expression.predicates, PlannableValue rfc3339 predicate)
          ∧ (source = .traces → expression.predicateCount < maxExplorePredicates
            ∧ expression.nodeCount + 2 ≤ maxExploreExpressionNodes) := by
  obtain ⟨_, found, normalized⟩ := parsed
  obtain rfl : _ = source := parse_source hparse
  cases found with
  | none =>
      refine iff_of_true ⟨plannable_none hdataset, ?_⟩ fun _ h => nomatch h
      exact plannable_records_none hdataset
  | some expression =>
      obtain ⟨hbranching, hlimits, -, hreadable, -⟩ := parse_limits hparse rfl
      have hfields := hfields expression rfl
      rw [plannable_records_iff hdataset hbranching hlimits hreadable hfields,
        plannable_expression_iff hdataset hbranching hreadable hfields]
      constructor
      · rintro ⟨-, hrecords⟩ _ hexpression
        obtain rfl := Option.some.inj hexpression
        exact hrecords
      · intro h
        obtain ⟨hvalues, hroom⟩ := h expression rfl
        exact ⟨⟨hvalues, hlimits.predicates, hlimits.nodes, hlimits.orAlternatives⟩, hvalues, hroom⟩

/-- The text of one predicate. -/
def predicateText (predicate : QueryPredicate) : Text := print ⟨true, true⟩ (.predicate predicate)

theorem parse_predicateText (source : QuerySource) (predicate : QueryPredicate)
    (hacceptable : Acceptable (fun _ => none) source predicate)
    (hprintable : ∀ c ∈ predicate.value, isAsciiControl c = false)
    (hbytes : byteLength (predicateText predicate) ≤ maxQueryBytes) :
    ParsedQuery.parse (fun _ => none) source (predicateText predicate)
      = .ok ⟨source, some (.predicate predicate), normalizedQuery source (.predicate predicate)⟩ :=
  parse_print (fun _ => rfl) ⟨true, true⟩ rfl (List.forall_mem_singleton.mpr hacceptable)
    (List.forall_mem_singleton.mpr hprintable)
    ⟨by simp [maxQueryPredicates], by simp [maxQueryNodes], Nat.zero_le _⟩ (Nat.zero_le _) hbytes

theorem accepted_query_plannable_iff_level :
    Plannable (fun _ => none) ⟨.logs, some (.predicate ⟨.level, .equal, "error".toList⟩),
      normalizedQuery .logs (.predicate ⟨.level, .equal, "error".toList⟩)⟩ := by
  have hparse := parse_predicateText .logs ⟨.level, .equal, "error".toList⟩
    ⟨rfl, nofun, by decide, rfl, nofun, by decide⟩ (printable_of_all rfl) (by decide)
  refine ((accepted_query_plannable_iff (fun _ => none) rfl hparse ?_).mpr ?_).1
  · intro expression hexpression
    obtain rfl := Option.some.inj hexpression
    exact List.forall_mem_singleton.mpr ⟨.level, rfl, rfl⟩
  · intro expression hexpression
    obtain rfl := Option.some.inj hexpression
    exact ⟨List.forall_mem_singleton.mpr trivial, nofun⟩

/-- The first count that does not fit in a signed number of sixty-four bits. -/
def hugeCount : QueryPredicate := ⟨.metricCount, .equal, "9223372036854775808".toList⟩

/-- A platform that the parser takes for a text, and the planner has no code for. -/
def customPlatform : QueryPredicate := ⟨.platform, .equal, "custom".toList⟩

/-- As many conjuncts as a query may have. -/
def fullConjunction : QueryExpression :=
  .and (List.replicate maxQueryPredicates (.predicate ⟨.name, .equal, "a".toList⟩))

theorem fullConjunction_predicates :
    ∀ predicate ∈ fullConjunction.predicates, predicate = ⟨.name, .equal, "a".toList⟩ := by
  intro predicate hpredicate
  simp only [fullConjunction, Formula.predicates_and, List.map_replicate, List.mem_flatten] at hpredicate
  obtain ⟨_, hmember, hpredicate⟩ := hpredicate
  rw [List.eq_of_mem_replicate hmember] at hpredicate
  exact List.mem_singleton.mp hpredicate

theorem fullConjunction_acceptable :
    ∀ predicate ∈ fullConjunction.predicates, Acceptable (fun _ => none) .traces predicate := by
  intro predicate hpredicate
  rw [fullConjunction_predicates predicate hpredicate]
  exact ⟨rfl, nofun, by decide, rfl, nofun, by decide⟩

theorem fullConjunction_limits : WithinLimits fullConjunction :=
  ⟨by decide +kernel, by decide +kernel, by decide +kernel⟩

theorem fullConjunction_fields : ∀ predicate ∈ fullConjunction.predicates, FieldAccepted .spans predicate.field := by
  intro predicate hpredicate
  rw [fullConjunction_predicates predicate hpredicate]
  exact ⟨.name, rfl, rfl⟩

theorem parse_fullConjunction :
    ParsedQuery.parse (fun _ => none) .traces (print ⟨false, true⟩ fullConjunction)
      = .ok ⟨.traces, some fullConjunction, normalizedQuery .traces fullConjunction⟩ := by
  refine parse_print (fun _ => rfl) ⟨false, true⟩ (by decide +kernel) fullConjunction_acceptable ?_
    fullConjunction_limits (by decide +kernel) (by decide +kernel)
  intro predicate hpredicate
  rw [fullConjunction_predicates predicate hpredicate]
  exact printable_of_all rfl

theorem accepted_query_not_plannable :
    (ParsedQuery.parse (fun _ => none) .metrics (predicateText hugeCount)
        = .ok ⟨.metrics, some (.predicate hugeCount), normalizedQuery .metrics (.predicate hugeCount)⟩
      ∧ FieldAccepted .metrics .metricCount
      ∧ ¬ Plannable (fun _ => none)
        ⟨.metrics, some (.predicate hugeCount), normalizedQuery .metrics (.predicate hugeCount)⟩)
      ∧ (ParsedQuery.parse (fun _ => none) .errors (predicateText customPlatform)
          = .ok ⟨.errors, some (.predicate customPlatform), normalizedQuery .errors (.predicate customPlatform)⟩
        ∧ FieldAccepted .errors .platform
        ∧ ¬ Plannable (fun _ => none)
          ⟨.errors, some (.predicate customPlatform), normalizedQuery .errors (.predicate customPlatform)⟩)
      ∧ ParsedQuery.parse (fun _ => none) .traces (print ⟨false, true⟩ fullConjunction)
          = .ok ⟨.traces, some fullConjunction, normalizedQuery .traces fullConjunction⟩
        ∧ Plannable (fun _ => none) ⟨.traces, some fullConjunction, normalizedQuery .traces fullConjunction⟩
        ∧ ¬ Plannable (fun _ => none) ⟨.traces,
          recordsExpression ⟨.traces, some fullConjunction, normalizedQuery .traces fullConjunction⟩,
          normalizedQuery .traces fullConjunction⟩ := by
  refine ⟨⟨parse_predicateText .metrics hugeCount ?_ (printable_of_all rfl) (by decide), ⟨_, rfl, rfl⟩, ?_⟩,
    ⟨parse_predicateText .errors customPlatform ?_ (printable_of_all rfl) (by decide), ⟨_, rfl, rfl⟩, ?_⟩,
    parse_fullConjunction, ?_, ?_⟩
  · exact ⟨rfl, nofun, by decide, rfl, nofun, by decide⟩
  · rintro ⟨expression, hexpression, -⟩
    cases hexpression
  · exact ⟨rfl, nofun, by decide, rfl, nofun, by decide⟩
  · intro hplannable
    have hplatform := ((plannable_expression_iff rfl rfl ?_ ?_).mp hplannable).1 customPlatform
      (List.mem_singleton.mpr rfl)
    · have hlabel : "custom".toList ∈ platformLabels := hplatform
      revert hlabel
      decide
    · exact List.forall_mem_singleton.mpr
        (.inl ⟨rfl, nofun, by decide, rfl, nofun, by decide⟩)
    · exact List.forall_mem_singleton.mpr ⟨_, rfl, rfl⟩
  · refine (plannable_expression_iff rfl (by decide +kernel)
      (fun predicate hpredicate => .inl (fullConjunction_acceptable predicate hpredicate))
      fullConjunction_fields).mpr
      ⟨fun predicate hpredicate => ?_, fullConjunction_limits.predicates, fullConjunction_limits.nodes,
        fullConjunction_limits.orAlternatives⟩
    rw [fullConjunction_predicates predicate hpredicate]
    show byteLength "a".toList ≤ maxTextBytes
    decide
  · rw [plannable_records_iff rfl (by decide +kernel) fullConjunction_limits
      (fun predicate hpredicate => .inl (fullConjunction_acceptable predicate hpredicate)) fullConjunction_fields]
    rintro ⟨-, hroom⟩
    have hcount := (hroom rfl).1
    revert hcount
    decide +kernel

end QueryLanguage

end MetricBackend
