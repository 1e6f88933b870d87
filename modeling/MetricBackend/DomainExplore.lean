import MetricBackend.DomainNotifications
import MetricBackend.LibDoubles
import MetricBackend.LibFormulas

/-! The query contract of Explore, `domain/src/explore.rs`: datasets, fields, typed expressions and their
normal form. A finite double is the rational it stands for. -/

namespace MetricBackend

def maxExplorePredicates : Nat := 128
def maxExploreAggregates : Nat := 4
def maxExploreGroups : Nat := 2
def maxExploreRows : Nat := 500
def maxExploreExpressionNodes : Nat := 256
def maxExploreOrAlternatives : Nat := 64

inductive ExploreField where
  | timestamp
  | receivedAt
  | level
  | platform
  | issueId
  | message
  | environment
  | release
  | service
  | traceId
  | spanId
  | durationMs
  | operationClass
  | operation
  | status
  | name
  | isSegment
  | metricKind
  | unit
  | metricCount
  | metricSum
  | metricMin
  | metricMax
deriving DecidableEq, Repr

namespace ExploreField

def asStr : ExploreField → Text
  | timestamp => "timestamp".toList
  | receivedAt => "received_at".toList
  | level => "level".toList
  | platform => "platform".toList
  | issueId => "issue_id".toList
  | message => "message".toList
  | environment => "environment".toList
  | release => "release".toList
  | service => "service".toList
  | traceId => "trace_id".toList
  | spanId => "span_id".toList
  | durationMs => "duration_ms".toList
  | operationClass => "operation_class".toList
  | operation => "operation".toList
  | status => "status".toList
  | name => "name".toList
  | isSegment => "is_segment".toList
  | metricKind => "metric_kind".toList
  | unit => "unit".toList
  | metricCount => "metric_count".toList
  | metricSum => "metric_sum".toList
  | metricMin => "metric_min".toList
  | metricMax => "metric_max".toList

def accepted : ExploreDataset → List ExploreField
  | .errors => [timestamp, receivedAt, level, platform, issueId]
  | .logs => [timestamp, receivedAt, level, message, environment, release, service, traceId, spanId]
  | .spans => [timestamp, receivedAt, durationMs, operationClass, environment, release, service, traceId,
      spanId, operation, status, name, isSegment]
  | .metrics => [timestamp, receivedAt, name, metricKind, unit, traceId, metricCount, metricSum, metricMin,
      metricMax]

def acceptedBy (field : ExploreField) (dataset : ExploreDataset) : Bool := field ∈ accepted dataset

def numeric (field : ExploreField) : Bool :=
  field ∈ [timestamp, receivedAt, durationMs, metricCount, metricSum, metricMin, metricMax]

def groupable (field : ExploreField) : ExploreDataset → Bool
  | .errors => field ∈ [level, platform]
  | .logs => field = level
  | .spans => field ∈ [operationClass, isSegment]
  | .metrics => field ∈ [name, metricKind, unit]

def maximumGroupCardinality (field : ExploreField) (dataset : ExploreDataset) : Option Nat :=
  match dataset, field with
  | .errors, level => some 5
  | .errors, platform => some 10
  | .logs, level => some 6
  | .spans, operationClass => some 12
  | .spans, isSegment => some 2
  | .metrics, name => some maxExploreRows
  | .metrics, metricKind => some 3
  | .metrics, unit => some 64
  | _, _ => none

end ExploreField

inductive ExploreValue where
  | string (value : Text)
  | number (value : Rat)
  | integer (value : Int)
  | bool (value : Bool)
  | null
deriving DecidableEq

inductive ExplorePredicateOp where
  | exact
  | contains
  | startsWith
  | endsWith
  | present
  | range
  | greater
  | greaterOrEqual
  | less
  | lessOrEqual
deriving DecidableEq, Repr

def ExplorePredicateOp.asStr : ExplorePredicateOp → Text
  | .exact => "eq".toList
  | .contains => "contains".toList
  | .startsWith => "starts_with".toList
  | .endsWith => "ends_with".toList
  | .present => "present".toList
  | .range => "range".toList
  | .greater => "gt".toList
  | .greaterOrEqual => "gte".toList
  | .less => "lt".toList
  | .lessOrEqual => "lte".toList

structure ExplorePredicate where
  field : ExploreField
  op : ExplorePredicateOp
  value : Option ExploreValue
  upper : Option ExploreValue
deriving DecidableEq

abbrev ExploreExpression : Type := Formula ExplorePredicate

inductive ExploreAggregateKind where
  | count
  | sum
  | min
  | max
  | avg
  | p50
  | p75
  | p90
  | p95
  | p99
deriving DecidableEq, Repr

def ExploreAggregateKind.asStr : ExploreAggregateKind → Text
  | .count => "count".toList
  | .sum => "sum".toList
  | .min => "min".toList
  | .max => "max".toList
  | .avg => "avg".toList
  | .p50 => "p50".toList
  | .p75 => "p75".toList
  | .p90 => "p90".toList
  | .p95 => "p95".toList
  | .p99 => "p99".toList

structure ExploreAggregate where
  kind : ExploreAggregateKind
  field : Option ExploreField
  «alias» : Text
deriving DecidableEq

inductive ExploreInterval where
  | minute
  | fiveMinutes
  | hour
  | day
deriving DecidableEq, Repr

def ExploreInterval.millis : ExploreInterval → Int
  | .minute => 60000
  | .fiveMinutes => 300000
  | .hour => 3600000
  | .day => 86400000

def ExploreInterval.asStr : ExploreInterval → Text
  | .minute => "1m".toList
  | .fiveMinutes => "5m".toList
  | .hour => "1h".toList
  | .day => "1d".toList

/-- A place in the descending order of a raw page. The first `idLen` of the twenty bytes are the key. -/
structure ExploreCursor where
  time : Int
  id : List (BitVec 8)
  idLen : Nat
deriving DecidableEq

structure ExploreQuery where
  dataset : ExploreDataset
  start : Timestamp
  «until» : Timestamp
  predicates : List ExplorePredicate
  expression : Option ExploreExpression
  aggregates : List ExploreAggregate
  groupBy : List ExploreField
  interval : Option ExploreInterval
  cursor : Option ExploreCursor
  limit : Nat

/-! ### The normal form -/

section Normal

variable (displayF64 : Rat → Text)

def ExploreValue.normalized : ExploreValue → Text
  | .string value =>
      Char.ofNat 34 :: (value.flatMap fun c =>
        if c.toNat ∈ [34, 92] then [Char.ofNat 92, c] else [c]) ++ [Char.ofNat 34]
  | .number value => displayF64 value
  | .integer value => jsonInteger value
  | .bool value => jsonBool value
  | .null => "null".toList

def ExplorePredicate.normalized (predicate : ExplorePredicate) : Text :=
  predicate.field.asStr ++ ':' :: predicate.op.asStr ++ ':' :: (predicate.value.map (·.normalized displayF64)).getD []
    ++ ':' :: (predicate.upper.map (·.normalized displayF64)).getD []

def ExploreExpression.normalized : ExploreExpression → Text :=
  Formula.fold (·.normalized displayF64) (fun value => "not(".toList ++ value ++ ")".toList)
    (fun values => "and(".toList ++ (values.map (· ++ [','])).flatten ++ ")".toList)
    fun values => "or(".toList ++ (values.map (· ++ [','])).flatten ++ ")".toList

def ExploreAggregate.normalized (aggregate : ExploreAggregate) : Text :=
  aggregate.kind.asStr ++ ':' :: (aggregate.field.map ExploreField.asStr).getD ['-'] ++ ':' :: aggregate.«alias»
    ++ [',']

def normalizeQuery (query : ExploreQuery) : Text :=
  (if query.expression.isSome then "v2|".toList else "v1|".toList)
    ++ query.dataset.asStr ++ '|' :: jsonInteger query.start.unixMillis ++ '|' :: jsonInteger query.until.unixMillis
    ++ "|limit:".toList ++ jsonNumber query.limit
    ++ "|interval:".toList ++ (query.interval.map ExploreInterval.asStr).getD ['-']
    ++ "|where:".toList
    ++ (match query.expression with
      | some expression => ExploreExpression.normalized displayF64 expression
      | none => (query.predicates.map fun predicate => predicate.normalized displayF64 ++ [',']).flatten)
    ++ "|aggregate:".toList ++ (query.aggregates.map (·.normalized)).flatten
    ++ "|group:".toList ++ (query.groupBy.map fun field => field.asStr ++ [',']).flatten

end Normal

end MetricBackend
