import MetricBackend.ArchiveSources
import MetricBackend.IssueQueries
import MetricBackend.TimeRanges

/-! The search of Errors, `application/src/search.rs`, over `search_candidates` of both stores, `postgres/src/api.rs` and
`mongo/src/api.rs`: the branches with their anchors, the candidates of the store, and the page of those that match. What
the driver of MongoDB finds is a parameter. -/

namespace MetricBackend

/-- The place of an Event in a timeline. -/
abbrev EventAnchor : Type := Timestamp ×ₗ EventKey

structure EventView where
  key : EventKey
  issueId : IssueId
  receivedAt : Timestamp
  occurredAt : Timestamp
  level : EventLevel
  platform : EventPlatform
  payload : List (BitVec 8)
deriving DecidableEq

def EventView.anchor (event : EventView) : EventAnchor := toLex (event.occurredAt, event.key)

structure EventPage where
  items : List EventView
  next : Option EventAnchor
  candidatesExamined : Nat

inductive SearchStorageAnchor where
  | projectTimeline
  | event (key : EventKey)
  | issue (id : IssueId)
  | token (token : SearchToken)
deriving DecidableEq

structure SearchStorageBranch where
  anchor : SearchStorageAnchor
  start : Timestamp
  «until» : Timestamp
deriving DecidableEq

structure SearchStorageQuery where
  branches : List SearchStorageBranch
  before : Option EventAnchor
  candidateLimit : Nat
deriving DecidableEq

namespace EventKey

/-- The number that `project_id` is made of. -/
def projectNumber (key : EventKey) : Int := (key.asBytes.extractLsb' 128 32).toInt

def eventId (key : EventKey) : EventId := ⟨key.asBytes.extractLsb' 0 128⟩

def fromBytes (bytes : List (BitVec 8)) : Option EventKey :=
  let key : EventKey := ⟨BitVec.ofNat 160 (readBigEndian bytes)⟩
  if 0 < key.projectNumber then some key else none

end EventKey

/-- `Value::get`. -/
def JsonValue.get (value : JsonValue) (key : Text) : Option JsonValue := value.asObject.bind (·.lookup key)

namespace ErrorSearch

open QueryLanguage ApiCursors TimeRanges Finalization ExplorePlanner

def maxCandidates : Nat := 10000
def defaultQueryRows : Nat := 50

structure SearchConfig where
  timeout : Duration
  maxCandidates : Nat
deriving DecidableEq

/-- `SearchConfig::default`. -/
def SearchConfig.defaultValue : SearchConfig where
  timeout := Duration.fromSecs 2
  maxCandidates := ErrorSearch.maxCandidates

/-- The configurations that `SearchService::new` takes. -/
def SearchConfig.valid (config : SearchConfig) : Bool :=
  !config.timeout.isZero && 1 ≤ config.maxCandidates && config.maxCandidates ≤ ErrorSearch.maxCandidates

structure SearchResultPage where
  items : List EventView
  nextCursor : Option Text
  candidatesExamined : Nat

/-- What `search` is called with. -/
structure SearchRequest where
  projectId : ProjectId
  parsed : ParsedQuery
  start : Option Timestamp
  «until» : Option Timestamp
  cursor : Option Text
  limit : Option Nat

/-- What a call of `search` finds outside: the time, and whether the store is slower than the time that it has. -/
structure SearchCall where
  now : Timestamp
  timedOut : Bool

/-- `search_candidates` of a store. -/
abbrev CandidateStore : Type := ProjectId → SearchStorageQuery → Except InvestigationStoreError EventPage

structure SearchService where
  store : CandidateStore
  config : SearchConfig
  valid : config.valid = true

/-! ### Branches -/

section Branches

variable (blake3 : List (BitVec 8) → BitVec 256) (projectId : ProjectId)

def parseHex16 (value : Text) : Option IssueId :=
  if validHex value 32 then (hexDecode value).map Identity.fromBytes else none

def predicateAnchor (predicate : QueryPredicate) : Option SearchStorageAnchor :=
  if predicate.operator = .equal then
    match predicate.field with
    | .eventId => (parseHexIdentifier predicate.value).map fun id => .event (EventKey.new projectId ⟨id⟩)
    | .issueId => (parseHex16 predicate.value).map .issue
    | .environment => some (.token (environmentToken blake3 predicate.value))
    | .release => some (.token (releaseToken blake3 predicate.value))
    | .userId => some (.token (userIdToken blake3 predicate.value))
    | _ => none
  else none

/-- The anchor of the first conjunct that has one. -/
def guaranteedAnchor : QueryExpression → Option SearchStorageAnchor :=
  Formula.fold (predicateAnchor blake3 projectId) (fun _ => none) (fun found => found.findSome? id) fun _ => none

/-- The alternatives at the top of an expression. -/
def topAlternatives : Option QueryExpression → List QueryExpression
  | some (.or values) => values
  | some value => [value]
  | none => []

def storageBranches (expression : Option QueryExpression) (start «until» : Timestamp) : List SearchStorageBranch :=
  let expressions := topAlternatives expression
  if expressions.isEmpty then [⟨.projectTimeline, start, «until»⟩]
  else expressions.map fun value =>
    ⟨(guaranteedAnchor blake3 projectId value).getD .projectTimeline, start, «until»⟩

end Branches

/-! ### Matching -/

section Matching

variable (fromSlice : List (BitVec 8) → Option JsonValue) (rfc3339 : Text → Option Int)

def compareI64 (left right : Int) : QueryOperator → Bool
  | .equal => left = right
  | .greater => right < left
  | .greaterOrEqual => right ≤ left
  | .less => left < right
  | .lessOrEqual => left ≤ right
  | .contains => false

/-- A text, or the empty one. -/
def textOrDefault (value : Option JsonValue) : Text := (value.bind JsonValue.asStr).getD []

/-- The `id` of a user. -/
def userIdText (user : Option JsonValue) : Text :=
  match user.bind (·.get "id".toList) with
  | some (.string value) => value
  | some (.number value) => value.spelling
  | _ => []

/-- What a field of an Event is compared with. -/
def candidateText (event : EventView) (payload : JsonValue) : QueryField → Option Text
  | .eventId => some (hexEncode event.key.eventId.bytes)
  | .issueId => some (hexEncode event.issueId.bytes)
  | .level => some event.level.asStr
  | .platform => some event.platform.asStr
  | .environment => some (textOrDefault (payload.get "environment".toList))
  | .release => some (textOrDefault (payload.get "release".toList))
  | .userId => some (userIdText (payload.get "user".toList))
  | _ => none

def matchesPredicate (event : EventView) (payload : JsonValue) (predicate : QueryPredicate) : Bool :=
  if predicate.field = .timestamp then
    (timestampMillis rfc3339 predicate.value).any fun value =>
      compareI64 event.occurredAt.unixMillis value predicate.operator
  else
    (candidateText event payload predicate.field).any fun candidate =>
      predicate.operator = .equal && candidate = predicate.value

def matchesExpression (event : EventView) (payload : JsonValue) : QueryExpression → Bool :=
  Formula.eval (matchesPredicate rfc3339 event payload)

def matchesEvent (expression : Option QueryExpression) (event : EventView) : Except SearchError Bool :=
  match expression with
  | none => .ok true
  | some expression =>
      match fromSlice event.payload with
      | none => .error .invalidData
      | some payload => .ok (matchesExpression rfc3339 event payload expression)

/-- The loop over the candidates, after some that match: it ends with one match more than a page has. -/
def collectMatches (expression : Option QueryExpression) (pageSize : Nat) :
    List EventView → List EventView → Except SearchError (List EventView)
  | found, [] => .ok found
  | found, event :: events => do
      if ← matchesEvent fromSlice rfc3339 expression event then
        if pageSize < (found ++ [event]).length then return found ++ [event]
        else collectMatches expression pageSize (found ++ [event]) events
      else collectMatches expression pageSize found events

end Matching

/-! ### The service -/

def mapStoreError : InvestigationStoreError → SearchError
  | .notFound => .notFound
  | .invalidData => .invalidData
  | .unavailable => .unavailable

def decodeEventCursor (encoded : Text) (digest : List (BitVec 8)) : Except SearchError EventAnchor := do
  let (occurredAt, id) ← decodeCursor encoded .event 20 digest
  let key ← (EventKey.fromBytes id).elim (.error .invalidCursor) .ok
  return toLex (occurredAt, key)

def encodeEventCursor (anchor : EventAnchor) (digest : List (BitVec 8)) : Text :=
  encodeCursor .event (ofLex anchor).1 (ofLex anchor).2.bytes digest

/-- The text that a cursor is bound to. -/
def searchText (parsed : ParsedQuery) (start «until» : Timestamp) : Text :=
  parsed.normalized ++ "|from:".toList ++ jsonInteger start.unixMillis ++ "|until:".toList
    ++ jsonInteger «until».unixMillis

/-- What `search` has before it calls the store. -/
structure PreparedSearch where
  pageSize : Nat
  digest : List (BitVec 8)
  query : SearchStorageQuery

section Search

variable (json : JsonCodec) (blake3 : List (BitVec 8) → BitVec 256) (rfc3339 : Text → Option Int)

/-- `search` up to the call of the store. The range is always there: `error_time_range` does not panic. -/
def prepare (config : SearchConfig) (now : Timestamp) (request : SearchRequest) : Except SearchError PreparedSearch := do
  failIf (request.parsed.source ≠ .errors) .fieldNotIndexed
  let pageSize := request.limit.getD defaultQueryRows
  failIf (pageSize < 1 ∨ maxQueryRows < pageSize) .limitExceeded
  let (start, «until») ← (errorTimeRange now request.start request.until).getD (.error .limitExceeded)
  let digest := cursorDigest blake3 request.projectId (searchText request.parsed start «until») .event
  let before ← request.cursor.mapM fun value => decodeEventCursor value digest
  return ⟨pageSize, digest,
    ⟨storageBranches blake3 request.projectId request.parsed.expression start «until», before, config.maxCandidates⟩⟩

/-- The page of the candidates that a store returned. -/
def page (config : SearchConfig) (expression : Option QueryExpression) (prepared : PreparedSearch)
    (candidates : EventPage) : Except SearchError SearchResultPage := do
  let found ← collectMatches json.fromSlice rfc3339 expression prepared.pageSize [] candidates.items
  failIf (found.length ≤ prepared.pageSize ∧ config.maxCandidates ≤ candidates.candidatesExamined) .tooBroad
  let kept := Page.first EventView.anchor prepared.pageSize found
  return ⟨kept.items, kept.next.map (encodeEventCursor · prepared.digest), candidates.candidatesExamined⟩

def SearchService.search (service : SearchService) (call : SearchCall) (request : SearchRequest) :
    Except SearchError SearchResultPage := do
  let prepared ← prepare blake3 service.config call.now request
  failIf (call.timedOut = true) .tooBroad
  let candidates ← (service.store request.projectId prepared.query).mapError mapStoreError
  page json rfc3339 service.config request.parsed.expression prepared candidates

end Search

end ErrorSearch

/-! ### The stores -/

def validateRange (start «until» : Timestamp) : Except InvestigationStoreError Unit :=
  failIf (¬ start < «until») .invalidData

/-- The checks that a store makes of a search. -/
def SearchStorageQuery.validate (query : SearchStorageQuery) (maxBranches maxCandidates : Nat) :
    Except InvestigationStoreError Unit := do
  failIf (query.branches.isEmpty ∨ maxBranches < query.branches.length ∨ query.candidateLimit < 1
    ∨ maxCandidates < query.candidateLimit) .invalidData
  query.branches.forM fun branch => validateRange branch.start branch.until

/-- The page of decoded rows. -/
def EventPage.ofItems (pageLimit : Nat) (items : List EventView) : EventPage :=
  let page := Page.first EventView.anchor pageLimit items
  ⟨page.items, page.next, items.length⟩

/-! ### PostgreSQL -/

namespace PostgresInvestigation

open PostgresFinalization PostgresArchive

/-- What `search_candidates` refuses. -/
def validateSearch (query : SearchStorageQuery) : Except InvestigationStoreError Unit := query.validate 8 10000

section Rows

variable (projectId : ProjectId) (row : EventRow)

/-- The condition of an anchor, on a row with the columns of a finalized Event. -/
def anchorSelects (columns : FinalizedColumns) : SearchStorageAnchor → Bool
  | .projectTimeline => true
  | .event key => key.projectNumber = projectId.get && row.eventId = key.eventId
  | .issue id => columns.issueId = id
  | .token token => token ∈ columns.searchTokens

def branchSelects (columns : FinalizedColumns) (branch : SearchStorageBranch) : Bool :=
  branch.start ≤ columns.occurredAt && columns.occurredAt < branch.until
    && anchorSelects projectId row columns branch.anchor

/-- `event_anchor`. -/
def precedes (columns : FinalizedColumns) (before : EventAnchor) : Bool :=
  if (ofLex before).2.projectNumber = projectId.get then
    toLex (columns.occurredAt, row.eventId) < toLex ((ofLex before).1, (ofLex before).2.eventId)
  else toLex (columns.occurredAt, row.key) < before

/-- The `WHERE` clause of `search_candidates`. -/
def selects (query : SearchStorageQuery) : Bool :=
  row.processingState = .finalized && row.projectId = projectId && row.columns.any fun columns =>
    query.branches.any (branchSelects projectId row columns) && query.before.all (precedes projectId row columns)

/-- What the rows are ordered by. -/
def timelineKey : Timestamp ×ₗ EventId :=
  toLex ((row.columns.map (·.occurredAt)).getD row.receivedAt, row.eventId)

end Rows

section Decode

variable (json : JsonCodec) (decompress : Decompressor) (codec : EventCodecConfig)

def orInvalid {α : Type} : Option α → Except InvestigationStoreError α
  | some value => .ok value
  | none => .error .invalidData

def levelOf (value : JsonValue) : Except InvestigationStoreError EventLevel :=
  match (value.get "level".toList).bind JsonValue.asStr with
  | none => .ok .error
  | some text => orInvalid ([EventLevel.debug, .info, .warning, .error, .fatal].find? (·.asStr = text))

def platformOf (value : JsonValue) : EventPlatform :=
  let text := ((value.get "platform".toList).bind JsonValue.asStr).getD "other".toList
  ([EventPlatform.javaScript, .node, .python, .java, .dotNet, .go, .rust, .php, .ruby, .cocoa, .native, .dart,
    .other].find? (·.asStr = text)).getD (.custom text)

/-- `decode_event`. A body that is too long is read as `NULL`. -/
def decodeEvent (row : EventRow) : Except InvestigationStoreError EventView := do
  failIf (codec.maxEncodedRowBytes < row.body.length + 256) .invalidData
  let payload ← orInvalid (decodeJson json decompress codec.maxDecodedBodyBytes row.body)
  let value ← orInvalid (json.fromSlice payload)
  failIf value.asObject.isNone .invalidData
  let level ← levelOf value
  let columns ← orInvalid row.columns
  return {
    key := row.key
    issueId := columns.issueId
    receivedAt := row.receivedAt
    occurredAt := columns.occurredAt
    level := level
    platform := platformOf value
    payload := payload }

def eventPage (databaseLimit pageLimit : Nat) (rows : List EventRow) : Except InvestigationStoreError EventPage := do
  let items ← (rows.take databaseLimit).mapM (decodeEvent json decompress codec)
  return .ofItems pageLimit items

def searchCandidates (events : Table EventKey EventRow) (projectId : ProjectId) (query : SearchStorageQuery) :
    Except InvestigationStoreError EventPage := do
  validateSearch query
  let found := (events.toList.map Prod.snd).filter fun row => selects projectId row query
  eventPage json decompress codec query.candidateLimit query.candidateLimit (Page.descending timelineKey found)

end Decode

end PostgresInvestigation

/-! ### MongoDB -/

namespace MongoInvestigation

/-- What `search_candidates_inner` refuses. -/
def validateSearch (query : SearchStorageQuery) : Except InvestigationStoreError Unit := query.validate 8 10000

/-- A member of `$or`. -/
structure BranchFilter where
  start : Timestamp
  «until» : Timestamp
  id : Option EventKey
  issueId : Option IssueId
  token : Option SearchToken

def branchFilter (branch : SearchStorageBranch) : BranchFilter :=
  match branch.anchor with
  | .projectTimeline => ⟨branch.start, branch.until, none, none, none⟩
  | .event key => ⟨branch.start, branch.until, some key, none, none⟩
  | .issue id => ⟨branch.start, branch.until, none, some id, none⟩
  | .token token => ⟨branch.start, branch.until, none, none, some token⟩

/-- The filter on the finalized Events of a project. -/
structure EventFilter where
  projectId : ProjectId
  branches : List BranchFilter
  before : Option EventAnchor

/-- The decoded documents that the driver finds, in their order, up to a limit. -/
abbrev FindEvents : Type := EventFilter → Nat → Except InvestigationStoreError (List EventView)

def findEvents (find : FindEvents) (filter : EventFilter) (databaseLimit pageLimit : Nat) :
    Except InvestigationStoreError EventPage := do
  let items ← find filter databaseLimit
  return .ofItems pageLimit items

def searchCandidates (find : FindEvents) (projectId : ProjectId) (query : SearchStorageQuery) :
    Except InvestigationStoreError EventPage := do
  validateSearch query
  findEvents find ⟨projectId, query.branches.map branchFilter, query.before⟩ query.candidateLimit query.candidateLimit

end MongoInvestigation

end MetricBackend
