import MetricBackend.ApiCursors
import MetricBackend.LibPages
import MetricBackend.LibTable
import MetricBackend.PostgresIssues
import MetricBackend.QueryPrinting

/-! Queries for Issues, `query_issues` of `application/src/native_api.rs`, with the list, the load and the
title search of the PostgreSQL store under it. Lower-casing a text, reading an RFC 3339 time, and how the
full-text index of PostgreSQL matches and ranks a title are parameters. -/

namespace MetricBackend

inductive InvestigationStoreError where
  | notFound
  | invalidData
  | unavailable
deriving DecidableEq, Repr

/-- The place of an Issue in the order of the list. -/
abbrev IssueAnchor : Type := Timestamp ×ₗ IssueId

def IssueSnapshot.anchor (issue : IssueSnapshot) : IssueAnchor := toLex (issue.lastSeen, issue.issueId)

namespace NativeApi

open QueryLanguage ApiCursors

/-! ### Predicates -/

/-- The first conjunct that compares the field, or searches the title. -/
def positivePredicate (field : QueryField) : QueryExpression → Option QueryPredicate :=
  Formula.fold
    (fun value =>
      if value.field = field ∧ (value.operator = .equal ∨ (field = .title ∧ value.operator = .contains))
        then some value else none)
    (fun _ => none) (fun found => found.findSome? id) fun _ => none

section Matching

variable (lowercase : Text → Text) (rfc3339 : Text → Option Int)

def stringMatches (value : Text) (predicate : QueryPredicate) : Bool :=
  match predicate.operator with
  | .equal => value = predicate.value
  | .contains => textContains (lowercase predicate.value) (lowercase value)
  | .greater | .greaterOrEqual | .less | .lessOrEqual => false

def numericMatches (left : Int) (right : Option Int) (operator : QueryOperator) : Bool :=
  match right with
  | none => false
  | some right =>
      match operator with
      | .equal => left = right
      | .greater => right < left
      | .greaterOrEqual => right ≤ left
      | .less => left < right
      | .lessOrEqual => left ≤ right
      | .contains => false

def statusName : IssueStatus → Text
  | .open => "open".toList
  | .resolved => "resolved".toList
  | .ignored => "ignored".toList

def issuePredicateMatches (issue : IssueSnapshot) (predicate : QueryPredicate) : Bool :=
  match predicate.field with
  | .issueId => stringMatches lowercase (hexEncode issue.issueId.bytes) predicate
  | .title => stringMatches lowercase issue.title.asStr predicate
  | .status => stringMatches lowercase (statusName issue.status) predicate
  | .timestamp =>
      numericMatches issue.lastSeen.unixMillis (timestampMillis rfc3339 predicate.value) predicate.operator
  | _ => false

def issueMatches (expression : Option QueryExpression) (issue : IssueSnapshot) : Bool :=
  expression.all (Formula.eval (issuePredicateMatches lowercase rfc3339 issue))

end Matching

def inTimeRange (value : Timestamp) (start «until» : Option Timestamp) : Bool :=
  start.all (· ≤ value) && «until».all (value ≤ ·)

def validateOptionalTimeRange (start «until» : Option Timestamp) : Except NativeApiError Unit :=
  match start, «until» with
  | some start, some «until» => failIf («until» ≤ start) .invalidRequest
  | _, _ => .ok ()

def parseIssueStatus (value : Text) : Except NativeApiError IssueStatus :=
  if value = "open".toList then .ok .open
  else if value = "resolved".toList then .ok .resolved
  else if value = "ignored".toList then .ok .ignored
  else .error (.query .syntaxError)

def hex16Text (value : Text) : Except NativeApiError (List (BitVec 8)) := do
  failIf (¬ validHex value 32) (.query .syntaxError)
  (hexDecode value).elim (.error (.query .syntaxError)) .ok

/-! ### The store -/

structure Environment where
  blake3 : List (BitVec 8) → BitVec 256
  codec : PostgresIssues.IssueCodecConfig
  rfc3339 : Text → Option Int
  lowercase : Text → Text
  /-- The index finds the title for the search. -/
  titleMatches : Text → IssueTitle → Bool
  /-- `ts_rank`. -/
  titleRank : Text → IssueTitle → Rat

variable (env : Environment)

abbrev IssueRef : Type := ProjectId ×ₗ IssueId

/-- The rows of `metric.issues`. -/
structure IssueTable where
  rows : Table IssueRef PostgresIssues.IssueRow
  keyed : ∀ (ref : IssueRef) (row : PostgresIssues.IssueRow), rows[ref]? = some row →
    ref = toLex (row.issue.projectId, row.issue.issueId)
  decodes : ∀ (ref : IssueRef) (row : PostgresIssues.IssueRow), rows[ref]? = some row →
    PostgresIssues.decode env.blake3 env.codec row = .ok row.issue

variable {env}

namespace IssueTable

def ofProject (store : IssueTable env) (projectId : ProjectId) : List PostgresIssues.IssueRow :=
  (store.rows.toList.filter fun row => (ofLex row.1).1 = projectId).map Prod.snd

def load (store : IssueTable env) (projectId : ProjectId) (issueId : IssueId) : Except IssueStoreError IssueSnapshot :=
  match store.rows[toLex (projectId, issueId)]? with
  | none => .error .notFound
  | some row => PostgresIssues.decode env.blake3 env.codec row

structure IssueListQuery where
  status : Option IssueStatus
  start : Option Timestamp
  «until» : Option Timestamp
  before : Option IssueAnchor
  limit : Nat

/-- The conditions of the `WHERE` clause, but for the cursor. -/
def listed (query : IssueListQuery) (issue : IssueSnapshot) : Bool :=
  query.status.all (issue.status = ·) && query.start.all (· ≤ issue.lastSeen) && query.until.all (issue.lastSeen < ·)

def listIssues (store : IssueTable env) (projectId : ProjectId) (query : IssueListQuery) :
    Except InvestigationStoreError (Page IssueSnapshot IssueAnchor) := do
  failIf (query.limit < 1 ∨ 100 < query.limit) .invalidData
  failIf (query.start.any fun start => query.until.any (· ≤ start)) .invalidData
  let key := fun row : PostgresIssues.IssueRow => row.issue.anchor
  let ordered := Page.descending key ((store.ofProject projectId).filter fun row => listed query row.issue)
  let rows := (Page.below key ordered query.before).take (query.limit + 1)
  let items ← rows.mapM fun row => (PostgresIssues.decode env.blake3 env.codec row).mapError fun _ => .invalidData
  return Page.first IssueSnapshot.anchor query.limit items

/-- The identities that the title search returns, best first. -/
def searchTitles (store : IssueTable env) (projectId : ProjectId) (text : Text) (limit : Nat) : List IssueId :=
  let found := (store.ofProject projectId).filter fun row => env.titleMatches text row.issue.title
  let ordered := found.insertionSort fun left right =>
    toLex (env.titleRank text right.issue.title, left.issue.issueId)
      ≤ toLex (env.titleRank text left.issue.title, right.issue.issueId)
  (ordered.take limit).map fun row => row.issue.issueId

end IssueTable

/-! ### Queries -/

def maxIssueSearchBytes : Nat := 512
def maxIssueSearchResults : Nat := 100

def mapIssueError : IssueStoreError → NativeApiError
  | .identityCollision => .conflict
  | .notFound => .notFound
  | .invalidData | .unavailable => .unavailable

def mapStoreError : InvestigationStoreError → NativeApiError
  | .notFound => .notFound
  | .invalidData | .unavailable => .unavailable

/-- The text that the cursor of a list is bound to. -/
def listScope (parsed : ParsedQuery) (start «until» : Option Timestamp) : Text :=
  parsed.normalized ++ "|from:".toList ++ jsonInteger (start.elim (-2 ^ 63) (·.unixMillis))
    ++ "|until:".toList ++ jsonInteger («until».elim (2 ^ 63 - 1) (·.unixMillis))

def decodeIssueAnchor (value : Text) (digest : List (BitVec 8)) : Except NativeApiError IssueAnchor := do
  let (lastSeen, id) ← (decodeCursor value .issue 16 digest).mapError fun _ => .invalidCursor
  return toLex (lastSeen, Identity.fromBytes id)

def encodeIssueAnchor (anchor : IssueAnchor) (digest : List (BitVec 8)) : Text :=
  encodeCursor .issue (ofLex anchor).1 (ofLex anchor).2.bytes digest

/-- `IssueSearchQuery::new`. -/
def validateSearch (text : Text) (limit : Nat) : Except NativeApiError Unit :=
  failIf (text.isEmpty ∨ maxIssueSearchBytes < byteLength text ∨ limit < 1 ∨ maxIssueSearchResults < limit)
    (.query .limitExceeded)

section Query

variable (store : IssueTable env) (projectId : ProjectId) (parsed : ParsedQuery) (start «until» : Option Timestamp)

/-- The Issue is inside the time range and satisfies the query. -/
def kept (issue : IssueSnapshot) : Bool :=
  inTimeRange issue.lastSeen start «until» && issueMatches env.lowercase env.rfc3339 parsed.expression issue

def queryIssueById (predicate : QueryPredicate) : Except NativeApiError (Page IssueSnapshot Text) := do
  let issueId := Identity.fromBytes (← hex16Text predicate.value)
  let issue ← (store.load projectId issueId).mapError mapIssueError
  return ⟨[issue].filter (@kept env parsed start «until»), none⟩

def queryIssuesByTitle (predicate : QueryPredicate) (cursor : Option Text) (limit : Nat) :
    Except NativeApiError (Page IssueSnapshot Text) := do
  failIf cursor.isSome (.query .invalidCursor)
  validateSearch predicate.value (min limit 100)
  let candidates := store.searchTitles projectId predicate.value (min limit 100)
  let items ← candidates.mapM fun issueId => (store.load projectId issueId).mapError mapIssueError
  return ⟨items.filter (@kept env parsed start «until»), none⟩

def queryIssueList (cursor : Option Text) (limit : Nat) : Except NativeApiError (Page IssueSnapshot Text) := do
  let digest := cursorDigest env.blake3 projectId (listScope parsed start «until») .issue
  let before ← cursor.mapM fun value => decodeIssueAnchor value digest
  let status ← (parsed.expression.bind (positivePredicate .status)).mapM fun value => parseIssueStatus value.value
  let page ← (store.listIssues projectId ⟨status, start, «until», before, min limit 100⟩).mapError mapStoreError
  return ⟨page.items.filter (issueMatches env.lowercase env.rfc3339 parsed.expression),
    page.next.map fun anchor => encodeIssueAnchor anchor digest⟩

def queryIssues (cursor : Option Text) (limit : Nat) : Except NativeApiError (Page IssueSnapshot Text) := do
  validateOptionalTimeRange start «until»
  match parsed.expression.bind (positivePredicate .issueId) with
  | some predicate => queryIssueById store projectId parsed start «until» predicate
  | none =>
      match parsed.expression.bind (positivePredicate .title) with
      | some predicate => queryIssuesByTitle store projectId parsed start «until» predicate cursor limit
      | none => queryIssueList store projectId parsed start «until» cursor limit

end Query

end NativeApi

end MetricBackend
