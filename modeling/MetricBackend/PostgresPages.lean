import Mathlib.Data.Prod.Lex
import MetricBackend.ApiCursors
import MetricBackend.LibBytes
import MetricBackend.PostgresExplore

/-! Raw Explore pages on PostgreSQL: the rows that a plan selects, how `decode` in `postgres/src/explore.rs`
cuts a page of them, and the pages that a caller reads with the cursors of `native_api.rs`. Following the
cursors returns every matching row once. -/

namespace MetricBackend

/-- `query.dataset as u8`. -/
def ExploreDataset.code : ExploreDataset → BitVec 8
  | errors => 0
  | logs => 1
  | spans => 2
  | metrics => 3

/-- The entries of the map of a row, in the order they are inserted. -/
abbrev ExploreRow : Type := List (Text × ExploreValue)

structure ExploreResult where
  rows : List ExploreRow
  next : Option ExploreCursor

def ExplorePlanner.ExplorePlan.withCursor (plan : ExplorePlanner.ExplorePlan) (cursor : Option ExploreCursor) :
    ExplorePlanner.ExplorePlan :=
  { plan with query := { plan.query with cursor := cursor } }

/-- The error of `execute` in `application/src/explore.rs`. -/
def ExploreStoreError.exploreError : ExploreStoreError → ExplorePlanner.ExploreError
  | .invalidData => .invalidQuery
  | .unavailable => .unavailable

namespace PostgresExplore

open ExplorePlanner ApiCursors

/-! ### Tables -/

structure StoredRow where
  projectId : ProjectId
  id : List (BitVec 8)
  /-- `processing_state=2`, for an error. -/
  finalized : Bool
  columns : Text → Option SqlValue

/-- The largest `octet_length` that the schema lets into a column. -/
def columnLimit (dataset : ExploreDataset) : ExploreField → Nat
  | .message => 32768
  | .environment | .operation => 512
  | .release | .service => 1024
  | .status => 256
  | .name => if dataset = .metrics then 524288 else 4096
  | .unit => 524288
  | _ => 16

/-- The values of a column: its type and its `CHECK`. The writers store the bytes of a text as UTF-8. -/
def Stores (dataset : ExploreDataset) (field : ExploreField) (value : SqlValue) : Prop :=
  match valueType dataset field, value with
  | .integer, .integer value => -2 ^ 63 ≤ value ∧ value < 2 ^ 63
  | .number, .integer value => field ∈ [.timestamp, .durationMs] ∧ -2 ^ 63 ≤ value ∧ value < 2 ^ 63
  | .number, .double _ => field ∉ [.timestamp, .durationMs]
  | .bytes, .bytes value => value.length ≤ columnLimit dataset field ∧ ∃ text, value = utf8Bytes text
  | .hex, .bytes _ | .bool, .bool _ => True
  | .code field, .integer value =>
      codeBase dataset field ≤ value ∧ value < codeBase dataset field + (labels dataset field).length
  | _, _ => False

/-- The rows of the table of a dataset. -/
structure ExploreTable (dataset : ExploreDataset) where
  rows : List StoredRow
  idLength : ∀ row ∈ rows, row.id.length = 16
  stores : ∀ row ∈ rows, ∀ field, field.acceptedBy dataset → ∀ value : SqlValue,
    row.columns (columnName dataset field) = some value → Stores dataset field value
  primaryKey : (rows.map fun row => (row.projectId, row.id)).Nodup

abbrev ExploreTables : Type := (dataset : ExploreDataset) → ExploreTable dataset

section Rows

variable (dataset : ExploreDataset)

/-- `page_time`. -/
def StoredRow.time (row : StoredRow) : Option Int :=
  match row.columns (columnName dataset .timestamp) with
  | some (.integer time) => some time
  | _ => none

/-- `page_id`: the key of an error has its project in front. -/
def StoredRow.pageId (row : StoredRow) : List (BitVec 8) :=
  if dataset = .errors then bigEndian 4 row.projectId.get ++ row.id else row.id

/-- What the pages are ordered by. -/
def StoredRow.key (row : StoredRow) : Int ×ₗ List (BitVec 8) := toLex ((row.time dataset).getD 0, row.id)

/-- The key of a row across projects. -/
def StoredRow.fullKey (row : StoredRow) : Int ×ₗ List (BitVec 8) :=
  toLex ((row.time dataset).getD 0, row.pageId dataset)

/-! ### Selection -/

/-- The condition of a cursor on the time and the identity of a row. -/
inductive CursorCondition where
  | below (time : Int) (id : List (BitVec 8))
  | upTo (time : Int)
  | before (time : Int)

def CursorCondition.holds : CursorCondition → Int → List (BitVec 8) → Bool
  | .below time id, rowTime, rowId => rowTime < time || (rowTime = time && rowId < id)
  | .upTo time, rowTime, _ => rowTime ≤ time
  | .before time, rowTime, _ => rowTime < time

structure Compiled where
  projectId : ProjectId
  conditions : List SqlCondition
  cursor : Option CursorCondition
  limit : Nat

def idLength : Nat := if dataset = .errors then 20 else 16

def cursorCondition (projectId : ProjectId) (cursor : ExploreCursor) : CursorCondition :=
  let start := bigEndian 4 projectId.get
  let key := cursor.id.take cursor.idLen
  if dataset ≠ .errors then .below cursor.time key
  else if start = cursor.id.take 4 then .below cursor.time (key.drop 4)
  else if start < cursor.id.take 4 then .upTo cursor.time
  else .before cursor.time

/-- The members of the filter, joined by `AND` with the other conditions. -/
def filterSql (env : Environment) (query : ExploreQuery) : Except ExploreStoreError (List SqlCondition) :=
  match query.expression with
  | some expression => List.singleton <$> expressionSql env query.dataset expression
  | none => query.predicates.mapM (predicateSql env query.dataset)

end Rows

section Run

variable (env : Environment)

/-- How many units of a stored time a millisecond has. -/
def scale (dataset : ExploreDataset) : Int := if nanos dataset then 1000000 else 1

def compile (plan : ExplorePlan) : Except ExploreStoreError Compiled := do
  let query := plan.query
  let start ← checkedMul query.start.unixMillis (scale query.dataset)
  let «until» ← checkedMul query.until.unixMillis (scale query.dataset)
  let time ← column query.dataset .timestamp
  let filter ← filterSql env query
  return {
    projectId := plan.projectId
    conditions := .test (.compare time .greaterOrEqual (.integer start))
      :: .test (.compare time .less (.integer «until»)) :: filter
    cursor := query.cursor.map (cursorCondition query.dataset plan.projectId)
    limit := query.limit + 1 }

/-- The `WHERE` clause. -/
def Compiled.selects (dataset : ExploreDataset) (compiled : Compiled) (row : StoredRow) : Bool :=
  row.projectId = compiled.projectId && (dataset ≠ .errors || row.finalized)
    && compiled.conditions.all (fun condition => condition.eval env row.columns = some true)
    && compiled.cursor.all fun cursor => (row.time dataset).any fun time => cursor.holds time row.id

def Compiled.select (dataset : ExploreDataset) (compiled : Compiled) (rows : List StoredRow) : List StoredRow :=
  (Page.descending (StoredRow.key dataset) (rows.filter (compiled.selects env dataset))).take compiled.limit

end Run

/-! ### Decoding -/

section Decode

variable (dataset : ExploreDataset)

/-- A column as it is selected. -/
def projected (field : ExploreField) : SqlValue → SqlValue
  | .integer value =>
      if valueType dataset field = .number ∧ field ∈ [.durationMs, .timestamp] then
        .double (roundDouble (roundDouble value / 1000000))
      else .integer value
  | value => value

def outputs : List ExploreField := fields.filter (·.acceptedBy dataset)

def decodeValue (kind : ValueType) : Option SqlValue → Except ExploreStoreError ExploreValue
  | none => .ok .null
  | some value =>
      match kind, value with
      | .integer, .integer value => .ok (.integer value)
      | .number, .double value => .ok (.number value)
      | .bool, .bool value => .ok (.bool value)
      | .hex, .bytes bytes => .ok (.string (hexEncode bytes))
      | .bytes, .bytes bytes => .string <$> orInvalid (fromUtf8 bytes)
      | .code field, .integer code => do
          let index := code - codeBase dataset field
          failIf (index < 0) .invalidData
          .string <$> orInvalid (labels dataset field)[index.toNat]?
      | _, _ => .error .invalidData

def decodeOutput (row : StoredRow) (field : ExploreField) : Except ExploreStoreError (Text × ExploreValue) :=
  Prod.mk field.asStr <$> decodeValue dataset (valueType dataset field)
    ((row.columns (columnName dataset field)).map (projected dataset field))

def decodeRow (row : StoredRow) : Except ExploreStoreError ExploreRow :=
  List.cons ("id".toList, .string (hexEncode (row.pageId dataset))) <$> (outputs dataset).mapM (decodeOutput dataset row)

/-- `coalesce(octet_length(column),0)` of a column of bytes. -/
def octetLength (row : StoredRow) (field : ExploreField) : Nat :=
  match valueType dataset field, row.columns (columnName dataset field) with
  | .bytes, some (.bytes bytes) => bytes.length
  | _, _ => 0

/-- What a row adds to `response_bytes`. -/
def responseBytes (row : StoredRow) : Nat := 1024 + ((outputs dataset).map (octetLength dataset row)).sum

/-- The cursor of a row. -/
def rowCursor (time : Int) (pageId : List (BitVec 8)) : ExploreCursor :=
  ⟨time, pageId ++ List.replicate (20 - pageId.length) 0, pageId.length⟩

/-- The loop of `decode`, at a row after rows of so many bytes. -/
def decodeRows (limit : Nat) :
    List StoredRow → Nat → ExploreResult → Option ExploreCursor → Except ExploreStoreError ExploreResult
  | [], _, result, _ => .ok result
  | row :: rest, bytes, result, last =>
      let bytes := bytes + responseBytes dataset row
      if responseBudget < bytes ∨ result.rows.length = limit then .ok { result with next := last }
      else do
        failIf ((row.pageId dataset).length ≠ idLength dataset) .invalidData
        let time ← orInvalid (row.time dataset)
        let values ← decodeRow dataset row
        decodeRows limit rest bytes { result with rows := result.rows ++ [values] }
          (some (rowCursor time (row.pageId dataset)))

end Decode

/-! ### Pages -/

section Pages

variable (env : Environment) (tables : ExploreTables)

/-- `validate` and `compile`. -/
def prepare (plan : ExplorePlan) : Except ExploreStoreError Compiled := do
  validate plan
  compile env plan

def run (plan : ExplorePlan) : Except ExploreStoreError ExploreResult := do
  let compiled ← prepare env plan
  decodeRows plan.query.dataset plan.query.limit
    (compiled.select env plan.query.dataset (tables plan.query.dataset).rows) 0 ⟨[], none⟩ none

/-- A page for a cursor of the caller, under the digest of its query. -/
def fetch (digest : List (BitVec 8)) (plan : ExplorePlan) (cursor : Option Text) :
    Except NativeApiError (Page ExploreRow Text) := do
  let cursor ← cursor.mapM (decodeExploreCursor · digest)
  let result ← (run env tables (plan.withCursor cursor)).mapError fun error => .explore error.exploreError
  return ⟨result.rows, result.next.map (encodeExploreCursor · digest)⟩

end Pages

end PostgresExplore

end MetricBackend
