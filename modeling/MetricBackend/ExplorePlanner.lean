import MetricBackend.DomainExplore
import MetricBackend.QueryTrees

/-! From query texts to Explore plans: the typed expressions of `application/src/query.rs`, and the checks
and costs of `application/src/explore.rs`. -/

namespace MetricBackend

namespace QueryLanguage

/-! ### Typed expressions -/

def exploreDataset : QuerySource → Option ExploreDataset
  | .errors => some .errors
  | .logs => some .logs
  | .traces => some .spans
  | .metrics => some .metrics
  | _ => none

def exploreField : QueryField → Option ExploreField
  | .timestamp => some .timestamp
  | .receivedAt => some .receivedAt
  | .level => some .level
  | .platform => some .platform
  | .issueId => some .issueId
  | .message => some .message
  | .environment => some .environment
  | .release => some .release
  | .service => some .service
  | .traceId => some .traceId
  | .spanId => some .spanId
  | .durationMs => some .durationMs
  | .operationClass => some .operationClass
  | .operation => some .operation
  | .status => some .status
  | .name => some .name
  | .isSegment => some .isSegment
  | .metricName => some .name
  | .metricKind => some .metricKind
  | .unit => some .unit
  | .metricCount => some .metricCount
  | .metricSum => some .metricSum
  | .metricMin => some .metricMin
  | .metricMax => some .metricMax
  | _ => none

def exploreOp : QueryOperator → ExplorePredicateOp
  | .equal => .exact
  | .greater => .greater
  | .greaterOrEqual => .greaterOrEqual
  | .less => .less
  | .lessOrEqual => .lessOrEqual
  | .contains => .contains

section Conversion

variable (rfc3339 : Text → Option Int)

/-- A number of milliseconds, or a date and time whose milliseconds fit in sixty-four bits. -/
def timestampMillis (value : Text) : Option Int :=
  (parseI64 value).or <| ((rfc3339 value).map (· / 1000000)).filter fun millis => -2 ^ 63 ≤ millis ∧ millis < 2 ^ 63

/-- `str::parse::<bool>`. -/
def parseBool (value : Text) : Option Bool :=
  if value = "true".toList then some true else if value = "false".toList then some false else none

def exploreValue (field : ExploreField) (value : Text) : Except QueryError ExploreValue :=
  match field with
  | .timestamp | .receivedAt => ((timestampMillis rfc3339 value).map ExploreValue.integer).elim (.error .syntaxError) .ok
  | .durationMs | .metricSum | .metricMin | .metricMax =>
      ((parseF64 value).map ExploreValue.number).elim (.error .syntaxError) .ok
  | .metricCount => ((parseI64 value).map ExploreValue.integer).elim (.error .syntaxError) .ok
  | .isSegment => ((parseBool value).map ExploreValue.bool).elim (.error .syntaxError) .ok
  | _ => .ok (.string value)

def toExplorePredicate (dataset : ExploreDataset) (predicate : QueryPredicate) :
    Except QueryError ExplorePredicate := do
  match exploreField predicate.field with
  | none => .error .capabilityUnavailable
  | some field =>
      failIf (¬ field.acceptedBy dataset) .capabilityUnavailable
      return ⟨field, exploreOp predicate.operator, some (← exploreValue rfc3339 field predicate.value), none⟩

def toExploreExpression (dataset : ExploreDataset) : QueryExpression → Except QueryError ExploreExpression :=
  Formula.mapM (toExplorePredicate rfc3339 dataset)

def ParsedQuery.exploreExpression (query : ParsedQuery) : Except QueryError (Option ExploreExpression) :=
  match exploreDataset query.source with
  | none => .error .capabilityUnavailable
  | some dataset =>
      match query.expression with
      | none => .ok none
      | some expression => some <$> toExploreExpression rfc3339 dataset expression

end Conversion

/-- The conjunct of `query_explore_records`: the records of traces are their segments. -/
def segmentPredicate : QueryPredicate := ⟨.isSegment, .equal, "true".toList⟩

def recordsExpression (query : ParsedQuery) : Option QueryExpression :=
  if query.source = .traces then
    match query.expression with
    | some value => some (.and [value, .predicate segmentPredicate])
    | none => some (.predicate segmentPredicate)
  else query.expression

end QueryLanguage

namespace ExplorePlanner

def maxRangeMillis : Int := 30 * 86400000
def maxIntervals : Nat := 1000
def allTimeFromMillis : Int := 0

structure ExploreConfig where
  maximumCost : Nat
  maximumConcurrency : Nat
  queryTimeoutMillis : Nat
deriving DecidableEq

inductive ExploreError where
  | invalidQuery
  | costExceeded
  | capacity
  | unavailable
deriving DecidableEq, Repr

structure ExplorePlan where
  projectId : ProjectId
  query : ExploreQuery
  normalized : Text
  cost : Nat
  maximumTimeMillis : Nat

/-! ### Predicates -/

def levelLabels : ExploreDataset → List Text
  | .errors =>
      ["debug".toList, "info".toList, "warn".toList, "warning".toList, "error".toList, "fatal".toList]
  | .logs =>
      ["trace".toList, "debug".toList, "info".toList, "warn".toList, "warning".toList, "error".toList,
        "fatal".toList]
  | _ => []

def platformLabels : List Text :=
  ["other".toList, "python".toList, "javascript".toList, "node".toList, "native".toList, "cocoa".toList,
    "java".toList, "php".toList, "ruby".toList, "dotnet".toList, "go".toList, "rust".toList]

def operationClassLabels : List Text :=
  ["other".toList, "http.server".toList, "http.client".toList, "database".toList, "cache".toList,
    "queue".toList, "file".toList, "rpc".toList, "function".toList, "task".toList, "ui".toList,
    "resource".toList]

def metricKindLabels : List Text := ["counter".toList, "gauge".toList, "distribution".toList]

def maxTextBytes : Nat := 256

def textSearchable (field : ExploreField) : Bool :=
  field ∈ [.message, .environment, .release, .service, .operation, .status, .name, .unit]

def ofString (accepts : Text → Bool) : ExploreValue → Bool
  | .string value => accepts value
  | _ => false

def valueMatches (dataset : ExploreDataset) (field : ExploreField) (value : ExploreValue) : Bool :=
  match field with
  | .timestamp | .receivedAt =>
      match value with
      | .integer value => (Timestamp.fromUnixMillis value).isOk
      | _ => false
  | .durationMs | .metricCount =>
      match value with
      | .integer value => 0 ≤ value
      | .number value => 0 ≤ value
      | _ => false
  | .metricSum | .metricMin | .metricMax =>
      match value with
      | .integer _ | .number _ => true
      | _ => false
  | .isSegment =>
      match value with
      | .bool _ => true
      | _ => false
  | .traceId => ofString (QueryLanguage.validHex · 32) value
  | .spanId => ofString (QueryLanguage.validHex · 16) value
  | .issueId => ofString (QueryLanguage.validHex · 32) value
  | .level => ofString (· ∈ levelLabels dataset) value
  | .platform => ofString (· ∈ platformLabels) value
  | .operationClass => ofString (· ∈ operationClassLabels) value
  | .metricKind => ofString (· ∈ metricKindLabels) value
  | _ => ofString (byteLength · ≤ maxTextBytes) value

/-- An integer that is compared with a number becomes a double. -/
def valueLessThan : ExploreValue → ExploreValue → Bool
  | .integer lower, .integer upper => lower < upper
  | .number lower, .number upper => lower < upper
  | .integer lower, .number upper => roundDouble lower < upper
  | .number lower, .integer upper => lower < roundDouble upper
  | _, _ => false

def validPredicate (dataset : ExploreDataset) (predicate : ExplorePredicate) : Bool :=
  match predicate.op with
  | .present =>
      (match predicate.value with
        | some (.bool _) => true
        | _ => false) && predicate.upper.isNone
  | .exact => predicate.value.any (valueMatches dataset predicate.field) && predicate.upper.isNone
  | .contains | .startsWith | .endsWith =>
      textSearchable predicate.field
        && predicate.value.any (ofString fun value => !value.isEmpty && byteLength value ≤ maxTextBytes)
        && predicate.upper.isNone
  | .range =>
      predicate.field.numeric && predicate.value.any (valueMatches dataset predicate.field)
        && predicate.upper.any (valueMatches dataset predicate.field)
        && (match predicate.value, predicate.upper with
          | some lower, some upper => valueLessThan lower upper
          | _, _ => false)
  | .greater | .greaterOrEqual | .less | .lessOrEqual =>
      predicate.field.numeric && predicate.value.any (valueMatches dataset predicate.field)
        && predicate.upper.isNone

def validTypedPredicate (dataset : ExploreDataset) (predicate : ExplorePredicate) : Bool :=
  predicate.field.acceptedBy dataset && validPredicate dataset predicate

def validExpression (dataset : ExploreDataset) : ExploreExpression → Bool :=
  Formula.fold (validTypedPredicate dataset) id (·.all id) fun values => !values.isEmpty && values.all id

/-! ### Plans -/

def effectivePredicateCount (query : ExploreQuery) : Nat :=
  (query.expression.map Formula.predicateCount).getD query.predicates.length

/-- `u32::saturating_add` and `u32::saturating_mul`. -/
def saturated (value : Nat) : Nat := min value (2 ^ 32 - 1)

def aggregateAccepted (dataset : ExploreDataset) (aggregate : ExploreAggregate) : Bool :=
  (if aggregate.kind = .count then aggregate.field.isNone
    else aggregate.field.any fun field => field.acceptedBy dataset && field.numeric)
    && !aggregate.«alias».isEmpty && byteLength aggregate.«alias» ≤ 32
    && aggregate.«alias».all fun c => ('a' ≤ c && c ≤ 'z') || ('0' ≤ c && c ≤ '9') || c = '_'

/-- The expression of a query is within the limits of the planner and valid. -/
def structureAccepted (query : ExploreQuery) : Bool :=
  effectivePredicateCount query ≤ maxExplorePredicates
    && query.expression.all (fun value => value.nodeCount ≤ maxExploreExpressionNodes
      && value.orAlternatives ≤ maxExploreOrAlternatives)
    && (match query.expression with
      | some expression => validExpression query.dataset expression
      | none => query.predicates.all (validTypedPredicate query.dataset))

def intervalCount (query : ExploreQuery) (costedRange : Int) : Nat :=
  (query.interval.map fun interval =>
    saturated ((costedRange + (interval.millis - 1)) / interval.millis).toNat).getD 1

def planCost (query : ExploreQuery) (costedRange : Int) : Nat :=
  let rangeHours := saturated ((costedRange + 3599999) / 3600000).toNat
  let predicateCost := saturated (saturated (effectivePredicateCount query * 40)
    + saturated ((query.expression.map Formula.orAlternatives).getD 0 * 20))
  let groupFanout := query.groupBy.foldl (fun fanout field =>
    saturated (fanout * (field.maximumGroupCardinality query.dataset).getD (2 ^ 32 - 1))) 1
  let aggregateFanout := saturated (1 + query.aggregates.length * 2)
  let rowCost := if query.aggregates.isEmpty then saturated query.limit else intervalCount query costedRange
  saturated (saturated (saturated (100 + saturated (rangeHours * 2)) + predicateCost)
    + saturated (saturated (rowCost * groupFanout) * aggregateFanout))

def plan (displayF64 : Rat → Text) (config : ExploreConfig) (projectId : ProjectId) (query : ExploreQuery) :
    Except ExploreError ExplorePlan := do
  let range := query.until.unixMillis - query.start.unixMillis
  failIf (range ≤ 0 ∨ (query.start.unixMillis ≠ allTimeFromMillis ∧ maxRangeMillis < range)
    ∨ maxExploreAggregates < query.aggregates.length ∨ maxExploreGroups < query.groupBy.length
    ∨ query.limit = 0 ∨ maxExploreRows < query.limit
    ∨ (query.aggregates.isEmpty ∧ (¬ query.groupBy.isEmpty ∨ query.interval.isSome))
    ∨ (¬ query.aggregates.isEmpty ∧ query.cursor.isSome)) .invalidQuery
  failIf (¬ structureAccepted query) .invalidQuery
  failIf (¬ query.groupBy.all (·.groupable query.dataset)) .invalidQuery
  failIf (¬ query.aggregates.all (aggregateAccepted query.dataset)
    ∨ ¬ (query.aggregates.map (·.«alias»)).Nodup) .invalidQuery
  let costedRange := min range maxRangeMillis
  failIf (maxIntervals < intervalCount query costedRange) .costExceeded
  failIf (config.maximumCost < planCost query costedRange) .costExceeded
  return ⟨projectId, query, normalizeQuery displayF64 query, planCost query costedRange, config.queryTimeoutMillis⟩

/-- What `plan` asks of a query besides its predicates: the range, the limits, the groups and the aggregates. -/
structure RestAccepted (query : ExploreQuery) : Prop where
  range : query.start.unixMillis < query.until.unixMillis
  bounded : query.start.unixMillis ≠ allTimeFromMillis →
    query.until.unixMillis - query.start.unixMillis ≤ maxRangeMillis
  aggregates : query.aggregates.length ≤ maxExploreAggregates
  groups : query.groupBy.length ≤ maxExploreGroups
  limit : query.limit ≠ 0 ∧ query.limit ≤ maxExploreRows
  raw : query.aggregates.isEmpty → query.groupBy.isEmpty ∧ ¬ query.interval.isSome
  unpaged : ¬ query.aggregates.isEmpty → ¬ query.cursor.isSome
  groupable : query.groupBy.all (·.groupable query.dataset)
  accepted : query.aggregates.all (aggregateAccepted query.dataset)
  aliases : (query.aggregates.map (·.«alias»)).Nodup

section Checks

variable {displayF64 : Rat → Text} {config : ExploreConfig} {projectId : ProjectId} {query : ExploreQuery}

/-- The first check of `plan`. -/
def ShapeRefused (query : ExploreQuery) : Prop :=
  query.until.unixMillis - query.start.unixMillis ≤ 0
    ∨ (query.start.unixMillis ≠ allTimeFromMillis
      ∧ maxRangeMillis < query.until.unixMillis - query.start.unixMillis)
    ∨ maxExploreAggregates < query.aggregates.length ∨ maxExploreGroups < query.groupBy.length
    ∨ query.limit = 0 ∨ maxExploreRows < query.limit
    ∨ (query.aggregates.isEmpty ∧ (¬ query.groupBy.isEmpty ∨ query.interval.isSome))
    ∨ (¬ query.aggregates.isEmpty ∧ query.cursor.isSome)

theorem restAccepted_iff : RestAccepted query ↔ ¬ ShapeRefused query
    ∧ query.groupBy.all (·.groupable query.dataset)
    ∧ query.aggregates.all (aggregateAccepted query.dataset) ∧ (query.aggregates.map (·.«alias»)).Nodup := by
  simp only [ShapeRefused, not_or, not_and, not_le, not_lt, not_not, sub_pos]
  constructor
  · intro h
    exact ⟨⟨h.range, h.bounded, h.aggregates, h.groups, h.limit.1, h.limit.2, h.raw, h.unpaged⟩, h.groupable, h.accepted,
      h.aliases⟩
  · rintro ⟨⟨hrange, hbounded, haggregates, hgroups, hlimit, hrows, hraw, hunpaged⟩, hgroupable, haccepted, haliases⟩
    exact ⟨hrange, hbounded, haggregates, hgroups, ⟨hlimit, hrows⟩, hraw, hunpaged, hgroupable, haccepted, haliases⟩

/-- A query is invalid exactly when its predicates or the rest of it are not accepted: what it costs is looked at
last. -/
theorem plan_eq_invalidQuery :
    plan displayF64 config projectId query = .error .invalidQuery
      ↔ ¬ (RestAccepted query ∧ structureAccepted query = true) := by
  have hplanned : ∀ planned : ExplorePlan, (pure planned : Except ExploreError ExplorePlan) ≠ .error .invalidQuery :=
    fun planned h => by cases h
  simp only [plan, bind_eq_error, failIf_eq_error, failIf_eq_ok, reduceCtorEq, and_false, false_or, and_true,
    exists_const, restAccepted_iff, hplanned]
  rw [← ShapeRefused]
  by_cases hshape : ShapeRefused query
  · simp only [hshape, true_or, not_true, false_and, not_false_eq_true]
  · simp only [hshape, false_or, not_false_eq_true, true_and, not_not]
    tauto

end Checks

end ExplorePlanner

end MetricBackend
