import Mathlib.Data.List.Basic
import MetricBackend.ExplorePlanner
import MetricBackend.LibPages

/-! The PostgreSQL store of raw Explore plans, `postgres/src/explore.rs`: the conditions that it compiles, with
their three-valued meaning, the rows that a plan selects and how they are decoded. Aggregate plans are left
out. `sha256` and the decimal that `f64::to_string` writes are parameters. -/

namespace MetricBackend

inductive ExploreStoreError where
  | invalidData
  | unavailable
deriving DecidableEq, Repr

namespace PostgresExplore

open ExplorePlanner

def responseBudget : Nat := 8 * 1024 * 1024

/-! ### Columns -/

inductive ValueType where
  | integer
  | number
  | bytes
  | hex
  | bool
  | code (field : ExploreField)
deriving DecidableEq, Repr

/-- `FIELDS`. -/
def fields : List ExploreField :=
  [.timestamp, .receivedAt, .level, .platform, .issueId, .message, .environment, .release, .service, .traceId,
    .spanId, .durationMs, .operationClass, .operation, .status, .name, .isSegment, .metricKind, .unit,
    .metricCount, .metricSum, .metricMin, .metricMax]

/-- The times of the dataset are in nanoseconds. -/
def nanos : ExploreDataset → Bool
  | .logs | .spans => true
  | .errors | .metrics => false

def columnName (dataset : ExploreDataset) : ExploreField → Text
  | .timestamp =>
      match dataset with
      | .errors => "occurred_at".toList
      | .logs => "occurred_at_ns".toList
      | .spans => "started_at_ns".toList
      | .metrics => "bucket_start".toList
  | .receivedAt => "received_at".toList
  | .level => if dataset = .errors then "level".toList else "severity".toList
  | .platform => "platform".toList
  | .issueId => "issue_id".toList
  | .message => "message".toList
  | .environment => "environment".toList
  | .release => "release".toList
  | .service => "service".toList
  | .traceId => "trace_id".toList
  | .spanId => "span_id".toList
  | .durationMs => "duration_ns".toList
  | .operationClass => "operation_class".toList
  | .operation => "operation".toList
  | .status => "status".toList
  | .name => "name".toList
  | .isSegment => "is_segment".toList
  | .metricKind => "kind".toList
  | .unit => "unit".toList
  | .metricCount => "measurement_count".toList
  | .metricSum => "aggregate_sum".toList
  | .metricMin => "minimum".toList
  | .metricMax => "maximum".toList

def column (dataset : ExploreDataset) (field : ExploreField) : Except ExploreStoreError Text := do
  failIf (¬ field.acceptedBy dataset) .invalidData
  return columnName dataset field

def valueType (dataset : ExploreDataset) (field : ExploreField) : ValueType :=
  match field with
  | .timestamp => if nanos dataset then .number else .integer
  | .receivedAt | .metricCount => .integer
  | .durationMs | .metricSum | .metricMin | .metricMax => .number
  | .level | .platform | .operationClass | .metricKind => .code field
  | .issueId | .traceId | .spanId => .hex
  | .isSegment => .bool
  | _ => .bytes

def codeBase (dataset : ExploreDataset) (field : ExploreField) : Int :=
  if field = .metricKind ∨ (field = .level ∧ dataset = .logs) then 1 else 0

def labels (dataset : ExploreDataset) : ExploreField → List Text
  | .level =>
      if dataset = .errors then
        ["error".toList, "debug".toList, "info".toList, "warning".toList, "fatal".toList]
      else
        ["trace".toList, "debug".toList, "info".toList, "warning".toList, "error".toList, "fatal".toList]
  | .platform =>
      ["other".toList, "python".toList, "javascript".toList, "native".toList, "java".toList, "php".toList,
        "ruby".toList, "dotnet".toList, "go".toList, "rust".toList]
  | .operationClass =>
      ["other".toList, "http.server".toList, "http.client".toList, "database".toList, "cache".toList,
        "queue".toList, "file".toList, "rpc".toList, "function".toList, "task".toList, "ui".toList,
        "resource".toList]
  | .metricKind => ["counter".toList, "gauge".toList, "distribution".toList]
  | _ => []

/-! ### Conditions -/

inductive SqlValue where
  | integer (value : Int)
  | numeric (value : Rat)
  | double (value : Rat)
  | bytes (value : List (BitVec 8))
  | bool (value : Bool)
deriving DecidableEq

inductive SqlOperator where
  | equal
  | greaterOrEqual
  | greater
  | less
  | lessOrEqual
deriving DecidableEq, Repr

def SqlOperator.holds {α : Type} [DecidableEq α] [LT α] [DecidableLT α] (operator : SqlOperator) (left right : α) :
    Bool :=
  match operator with
  | .equal => left = right
  | .greaterOrEqual => right < left || left = right
  | .greater => right < left
  | .less => left < right
  | .lessOrEqual => left < right || left = right

/-- A comparison of a column with a bound value. Next to a `numeric` an integer is one too, next to a `double
precision` it becomes one. -/
def SqlValue.compare (operator : SqlOperator) : SqlValue → SqlValue → Option Bool
  | .integer left, .integer right => some (operator.holds left right)
  | .integer left, .numeric right => some (operator.holds (left : Rat) right)
  | .integer left, .double right => some (operator.holds (roundDouble left) right)
  | .double left, .integer right => some (operator.holds left (roundDouble right))
  | .double left, .double right => some (operator.holds left right)
  | .bytes left, .bytes right => some (operator.holds left right)
  | .bool left, .bool right => some (operator.holds left right)
  | _, _ => none

/-- A function of a column that has bytes. -/
def SqlValue.ofBytes (test : List (BitVec 8) → Bool) : SqlValue → Option Bool
  | .bytes value => some (test value)
  | _ => none

inductive SqlTest where
  | isNull (column : Text)
  | isNotNull (column : Text)
  | contains (column : Text) (pattern : List (BitVec 8))
  | startsWith (column : Text) (start : List (BitVec 8))
  | endsWith (column : Text) (ending : List (BitVec 8))
  | nameKey (value : List (BitVec 8))
  | compare (column : Text) (operator : SqlOperator) (value : SqlValue)

inductive SqlCondition where
  | test (value : SqlTest)
  | truth
  | not (condition : SqlCondition)
  /-- `coalesce(condition,false)`. -/
  | coalesced (condition : SqlCondition)
  | and (left right : SqlCondition)
  | or (left right : SqlCondition)

structure Environment where
  sha256 : List (BitVec 8) → BitVec 256
  /-- The decimal number that `f64::to_string` writes. -/
  decimal : Rat → Rat

section Truth

variable (env : Environment)

/-- The truth of a test for a row, unknown for a column without a value. -/
def SqlTest.eval (row : Text → Option SqlValue) : SqlTest → Option Bool
  | .isNull column => some (row column).isNone
  | .isNotNull column => some (row column).isSome
  | .contains column pattern => (row column).bind (SqlValue.ofBytes fun value => decide (pattern <:+: value))
  | .startsWith column start => (row column).bind (SqlValue.ofBytes fun value => value.take start.length = start)
  | .endsWith column ending => (row column).bind
      (SqlValue.ofBytes fun value => value.drop (value.length - ending.length) = ending)
  | .nameKey value => (row (columnName .metrics .name)).bind (SqlValue.ofBytes fun name => env.sha256 name = env.sha256 value)
  | .compare column operator value => (row column).bind fun stored => stored.compare operator value

def sqlAnd : Option Bool → Option Bool → Option Bool
  | some false, _ | _, some false => some false
  | some true, some true => some true
  | _, _ => none

def sqlOr : Option Bool → Option Bool → Option Bool
  | some true, _ | _, some true => some true
  | some false, some false => some false
  | _, _ => none

def SqlCondition.eval (row : Text → Option SqlValue) : SqlCondition → Option Bool
  | .test value => value.eval env row
  | .truth => some true
  | .not condition => (condition.eval row).map (!·)
  | .coalesced condition => some ((condition.eval row).getD false)
  | .and left right => sqlAnd (left.eval row) (right.eval row)
  | .or left right => sqlOr (left.eval row) (right.eval row)

end Truth

/-! ### Compilation -/

/-- `i64::checked_mul`. -/
def checkedMul (left right : Int) : Except ExploreStoreError Int :=
  if -2 ^ 63 ≤ left * right ∧ left * right < 2 ^ 63 then .ok (left * right) else .error .invalidData

/-- `f64::round`: the nearest integer, away from zero between two. -/
def roundHalfAway (value : Rat) : Int :=
  if 0 ≤ value then (value + 1 / 2).floor else -(-value + 1 / 2).floor

/-- The stored label of a label of the query. -/
def storedLabel (field : ExploreField) (value : Text) : Text :=
  match field with
  | .level => if value = "warn".toList then "warning".toList else value
  | .platform =>
      if value = "node".toList then "javascript".toList
      else if value = "cocoa".toList then "native".toList
      else value
  | _ => value

section Compile

variable (env : Environment) (dataset : ExploreDataset)

def bindCount : ExploreValue → Except ExploreStoreError SqlValue
  | .integer value => .ok (.numeric value)
  | .number value => .ok (.numeric (env.decimal value))
  | _ => .error .invalidData

def bindCode (field : ExploreField) : ExploreValue → Except ExploreStoreError SqlValue
  | .string value =>
      ((labels dataset field).idxOf? (storedLabel field value)).elim (.error .invalidData) fun code =>
        .ok (.integer (code + codeBase dataset field))
  | _ => .error .invalidData

/-- Milliseconds of the query as stored nanoseconds. -/
def bindNanos (field : ExploreField) : ExploreValue → Except ExploreStoreError SqlValue
  | .integer value => .integer <$> checkedMul value 1000000
  | .number value =>
      if field = .durationMs then do
        let scaled := roundHalfAway (roundDouble (value * 1000000))
        failIf (scaled < 0 ∨ 2 ^ 63 ≤ scaled) .invalidData
        return .integer scaled
      else .error .invalidData
  | _ => .error .invalidData

def bindPlain (field : ExploreField) (value : ExploreValue) : Except ExploreStoreError SqlValue :=
  match valueType dataset field, value with
  | .bytes, .string value => .ok (.bytes (utf8Bytes value))
  | .hex, .string value => (hexDecode value).elim (.error .invalidData) fun bytes => .ok (.bytes bytes)
  | .bool, .bool value => .ok (.bool value)
  | .integer, .integer value | .number, .integer value => .ok (.integer value)
  | .integer, .number value | .number, .number value => .ok (.double value)
  | _, _ => .error .invalidData

def bindValue (field : ExploreField) (value : ExploreValue) : Except ExploreStoreError SqlValue :=
  if field = .metricCount then bindCount env value
  else
    match valueType dataset field with
    | .code field => bindCode dataset field value
    | _ =>
        if field = .durationMs ∨ (field = .timestamp ∧ nanos dataset) then bindNanos field value
        else bindPlain dataset field value

def sqlOperator : ExplorePredicateOp → Except ExploreStoreError SqlOperator
  | .exact => .ok .equal
  | .range | .greaterOrEqual => .ok .greaterOrEqual
  | .greater => .ok .greater
  | .less => .ok .less
  | .lessOrEqual => .ok .lessOrEqual
  | _ => .error .invalidData

def orInvalid {α : Type} (value : Option α) : Except ExploreStoreError α := value.elim (.error .invalidData) .ok

def textSql (column : Text) (op : ExplorePredicateOp) : ExploreValue → Except ExploreStoreError SqlCondition
  | .string value =>
      match op with
      | .contains => .ok (.test (.contains column (utf8Bytes value)))
      | .startsWith => .ok (.test (.startsWith column (utf8Bytes value)))
      | _ => .ok (.or (.test (.endsWith column (utf8Bytes value))) (.test (.endsWith column (utf8Bytes value ++ [10]))))
  | _ => .error .invalidData

/-- The condition on the stored digest of a name, in front of the one on the name. -/
def withNameKey (predicate : ExplorePredicate) (value : ExploreValue) (condition : SqlCondition) :
    Except ExploreStoreError SqlCondition :=
  if predicate.op = .exact ∧ dataset = .metrics ∧ predicate.field = .name then
    match value with
    | .string value => .ok (.and (.test (.nameKey (utf8Bytes value))) condition)
    | _ => .error .invalidData
  else .ok condition

def comparisonSql (column : Text) (predicate : ExplorePredicate) (value : ExploreValue) :
    Except ExploreStoreError SqlCondition := do
  let operator ← sqlOperator predicate.op
  let lower ← bindValue env dataset predicate.field value
  let condition ← withNameKey dataset predicate value (.test (.compare column operator lower))
  if predicate.op = .range then
    let upper ← bindValue env dataset predicate.field (← orInvalid predicate.upper)
    return .and condition (.test (.compare column .less upper))
  else return condition

def predicateSql (predicate : ExplorePredicate) : Except ExploreStoreError SqlCondition := do
  let column ← column dataset predicate.field
  if predicate.op = .present then
    match predicate.value with
    | some (.bool true) => return .test (.isNotNull column)
    | some (.bool false) => return .test (.isNull column)
    | _ => .error .invalidData
  else
    let value ← orInvalid predicate.value
    match predicate.op with
    | .contains | .startsWith | .endsWith => textSql column predicate.op value
    | _ => comparisonSql env dataset column predicate value

/-- The members with `AND` or `OR` between them. -/
def joinedSql (join : SqlCondition → SqlCondition → SqlCondition) : List SqlCondition → SqlCondition
  | [] => .truth
  | first :: rest => rest.foldl join first

def expressionSql : ExploreExpression → Except ExploreStoreError SqlCondition :=
  Formula.fold (predicateSql env dataset) (fun child => (fun sql => .not (.coalesced sql)) <$> child)
    (fun children => joinedSql .and <$> children.mapM id) fun children => joinedSql .or <$> children.mapM id

end Compile

/-! ### Validation -/

section Validate

variable (dataset : ExploreDataset)

def validValue (field : ExploreField) (value : ExploreValue) : Bool :=
  match valueType dataset field, value with
  | .bytes, .string value => byteLength value ≤ 256
  | .hex, .string value => QueryLanguage.validHex value (if field = .spanId then 16 else 32)
  | .code _, .string _ => true
  | .bool, .bool _ => true
  | .integer, .integer value | .number, .integer value =>
      if field ∈ [.timestamp, .receivedAt] then (Timestamp.fromUnixMillis value).isOk
      else field ∉ [.durationMs, .metricCount] || 0 ≤ value
  | .integer, .number value | .number, .number value =>
      field ∉ [.timestamp, .receivedAt] && (field ∉ [.durationMs, .metricCount] || 0 ≤ value)
  | _, _ => false

def validatePredicate (predicate : ExplorePredicate) : Bool :=
  predicate.field.acceptedBy dataset
    && match predicate.op with
      | .present =>
          (match predicate.value with
            | some (.bool _) => true
            | _ => false) && predicate.upper.isNone
      | .contains | .startsWith | .endsWith =>
          valueType dataset predicate.field = .bytes
            && predicate.value.any (ofString fun value => !value.isEmpty && byteLength value ≤ 256)
            && predicate.upper.isNone
      | .exact => predicate.value.any (validValue dataset predicate.field) && predicate.upper.isNone
      | .range =>
          predicate.field.numeric && predicate.value.any (validValue dataset predicate.field)
            && predicate.upper.any (validValue dataset predicate.field)
            && (match predicate.value, predicate.upper with
              | some lower, some upper => valueLessThan lower upper
              | _, _ => false)
      | .greater | .greaterOrEqual | .less | .lessOrEqual =>
          predicate.field.numeric && predicate.value.any (validValue dataset predicate.field)
            && predicate.upper.isNone

def validateExpression (expression : ExploreExpression) : Bool :=
  expression.nodeCount ≤ maxExploreExpressionNodes && expression.predicateCount ≤ maxExplorePredicates
    && expression.orAlternatives ≤ maxExploreOrAlternatives
    && Formula.fold (validatePredicate dataset) id (·.all id) (fun values => !values.isEmpty && values.all id)
      expression

end Validate

def validateConditions (query : ExploreQuery) : Bool :=
  match query.expression with
  | some expression => validateExpression query.dataset expression
  | none => query.predicates.all (validatePredicate query.dataset)

/-- The checks of a plan without aggregates. -/
def validate (plan : ExplorePlan) : Except ExploreStoreError Unit := do
  let query := plan.query
  failIf (query.limit < 1 ∨ maxExploreRows < query.limit ∨ query.until ≤ query.start
    ∨ (query.expression.isNone ∧ maxExplorePredicates < query.predicates.length)
    ∨ plan.maximumTimeMillis < 100 ∨ 30000 < plan.maximumTimeMillis
    ∨ ¬ query.groupBy.isEmpty ∨ query.interval.isSome) .invalidData
  failIf (query.cursor.any fun cursor => cursor.idLen ≠ if query.dataset = .errors then 20 else 16) .invalidData
  failIf (¬ validateConditions query) .invalidData

end PostgresExplore

end MetricBackend
