import MetricBackend.LibPipelines
import MetricBackend.DomainEvents
import MetricBackend.DomainIssues

/-! The Issue store of `mongo/src/issue.rs`, for the document of one Issue, and the release pipeline of
`mongo/src/finalizer.rs`. The activity collection is left out, and so is reading a grouping body back. The
compression function of the `zstd` package is a parameter. -/

namespace MetricBackend

namespace MongoIssues

open Issues

def str (value : String) : Expr := .text value.toList

/-- `binary` of a byte array. -/
def binary {width : Nat} (size : Nat) (bytes : BitVec width) : BsonValue := .binary ⟨size, bytes.toNat⟩

def eventBinary (id : EventId) : BsonValue := binary 16 id.asBytes

def issueBinary (id : IssueId) : BsonValue := binary 16 id.asBytes

def keyBinary (key : GroupingKey) : BsonValue := binary 34 (key.revision ++ key.digest)

def actorBinary (actor : ActorRef) : BsonValue := binary 17 actor.toBytes

def date (timestamp : Timestamp) : BsonValue := .date timestamp.unixMillis

/-- `Binary` of a grouping body. -/
def bodyBinary (body : List (BitVec 8)) : BsonValue :=
  .binary ⟨body.length, body.foldl (fun total byte => total * 256 + byte.toNat) 0⟩

/-! ### The occurrence pipeline -/

def isMissing (path : String) : Expr := .eq (.type (str path)) (str "missing")

def isPresent (path : String) : Expr := .ne (.type (str path)) (str "missing")

def releasePair : Option IssueRelease → Expr
  | none => .object [("p".toList, .literal (.bool false)), ("v".toList, str "")]
  | some release => .object [("p".toList, .literal (.bool true)), ("v".toList, .text release.asStr)]

/-- An optional text; an absent one removes the field. -/
def orRemove {maximum : Nat} : Option (IssueText maximum) → Expr
  | none => str "$$REMOVE"
  | some text => .text text.asStr

section Transitions

variable (blake3 : List (BitVec 8) → BitVec 256)

def transitionFields (projectId : ProjectId) (issueId : IssueId) (kind : IssueNotificationKind)
    (eventId : EventId) (time : Timestamp) : BsonDocument :=
  [("i".toList, binary 16 (notificationTransitionId blake3 projectId issueId kind eventId).asBytes),
    ("k".toList, .int32 (notificationKindCode kind)),
    ("e".toList, eventBinary eventId),
    ("t".toList, date time)]

def transition (projectId : ProjectId) (issueId : IssueId) (kind : IssueNotificationKind)
    (eventId : EventId) (time : Timestamp) : BsonValue :=
  .document (transitionFields blake3 projectId issueId kind eventId time)

def newTransition (batch : Batch) : BsonValue :=
  transition blake3 batch.summary.projectId batch.summary.issueId .newIssue batch.first.eventId
    batch.first.receivedAt

def regressionTransition (batch : Batch) : BsonValue :=
  transition blake3 batch.summary.projectId batch.summary.issueId .regression batch.candidate.eventId
    batch.candidate.receivedAt

end Transitions

def isFirst (batch : Batch) : Expr :=
  .or [isMissing "$f",
    .lt (.literal (date batch.first.occurredAt)) (str "$f"),
    .and [.eq (.literal (date batch.first.occurredAt)) (str "$f"),
      .lt (.literal (eventBinary batch.first.eventId)) (str "$e")]]

def oldLatestEvent : Expr := .ifNull (str "$v") (str "$e")

def isLatest (batch : Batch) : Expr :=
  .or [isMissing "$l",
    .gt (.literal (date batch.latest.occurredAt)) (str "$l"),
    .and [.eq (.literal (date batch.latest.occurredAt)) (str "$l"),
      .gt (.literal (eventBinary batch.latest.eventId)) oldLatestEvent]]

def oldFirstRelease : Expr :=
  .cond (isPresent "$fr")
    (.object [("p".toList, .literal (.bool true)), ("v".toList, str "$fr")])
    (.object [("p".toList, .literal (.bool false)), ("v".toList, str "")])

def oldLatestRelease : Expr :=
  .cond (.eq (str "$m") (.literal (.bool true)))
    (.object [("p".toList, .literal (.bool false)), ("v".toList, str "")])
    (.cond (isPresent "$lr")
      (.object [("p".toList, .literal (.bool true)), ("v".toList, str "$lr")])
      oldFirstRelease)

def regressionCount : Expr :=
  .cond (isMissing "$d") (.literal (.int64 1))
    (.add (.ifNull (str "$d.c") (.literal (.int64 1))) (.literal (.int64 1)))

def regression (batch : Batch) : Expr :=
  .cond (.gt regressionCount (.literal (.int64 1)))
    (.object [("t".toList, .literal (date batch.candidate.receivedAt)),
      ("e".toList, .literal (eventBinary batch.candidate.eventId)), ("c".toList, regressionCount),
      ("r".toList, orRemove batch.candidate.release)])
    (.object [("t".toList, .literal (date batch.candidate.receivedAt)),
      ("e".toList, .literal (eventBinary batch.candidate.eventId)),
      ("r".toList, orRemove batch.candidate.release)])

/-- A resolved Issue was received again after its resolution. -/
def isRegression (batch : Batch) : Expr :=
  .and [.eq (str "$s") (.literal (.int32 1)),
    .gt (.literal (date batch.candidate.receivedAt)) (str "$w.t")]

/-- The first stage: what the batch changes, and what the document says now. -/
def markStage (batch : Batch) : List (Text × Expr) :=
  [("_fk_new".toList, isMissing "$b"),
    ("_fk_first".toList, isFirst batch),
    ("_fk_latest".toList, isLatest batch),
    ("_fk_regress".toList, isRegression batch),
    ("_fk_old_latest_event".toList, oldLatestEvent),
    ("_fk_old_first_release".toList, oldFirstRelease),
    ("_fk_old_latest_release".toList, oldLatestRelease)]

section Pipeline

variable (blake3 : List (BitVec 8) → BitVec 256)

/-- The second stage: the new ends of the Issue and its transition. -/
def selectStage (batch : Batch) : List (Text × Expr) :=
  [("_fk_first_event".toList,
      .cond (str "$_fk_first") (.literal (eventBinary batch.first.eventId)) (str "$e")),
    ("_fk_latest_event".toList,
      .cond (str "$_fk_latest") (.literal (eventBinary batch.latest.eventId)) (str "$_fk_old_latest_event")),
    ("_fk_first_release".toList,
      .cond (str "$_fk_first") (releasePair batch.first.release) (str "$_fk_old_first_release")),
    ("_fk_latest_release".toList,
      .cond (str "$_fk_latest") (releasePair batch.latest.release) (str "$_fk_old_latest_release")),
    ("_fk_transition".toList,
      .cond (str "$_fk_new") (.literal (newTransition blake3 batch))
        (.cond (str "$_fk_regress") (.literal (regressionTransition blake3 batch)) (str "$$REMOVE")))]

/-- The third stage: the fields of the Issue. -/
def writeStage (batch : Batch) (body : List (BitVec 8)) : List (Text × Expr) :=
  [("p".toList, .ifNull (str "$p") (.literal (.int32 batch.summary.projectId.get))),
    ("g".toList, .ifNull (str "$g") (.literal (keyBinary batch.summary.groupingKey))),
    ("t".toList, .cond (str "$_fk_new") (.text batch.summary.title.asStr) (str "$t")),
    ("q".toList, .cond (str "$_fk_new") (orRemove batch.summary.culprit) (str "$q")),
    ("f".toList, .cond (str "$_fk_first") (.literal (date batch.first.occurredAt)) (str "$f")),
    ("l".toList, .cond (str "$_fk_latest") (.literal (date batch.latest.occurredAt)) (str "$l")),
    ("e".toList, str "$_fk_first_event"),
    ("v".toList, .cond (.eq (str "$_fk_latest_event") (str "$_fk_first_event")) (str "$$REMOVE")
      (str "$_fk_latest_event")),
    ("c".toList, .add (.ifNull (str "$c") (.literal (.int64 0))) (.literal (.int64 batch.increment))),
    ("s".toList, .cond (str "$_fk_regress") (str "$$REMOVE") (str "$s")),
    ("w".toList, .cond (str "$_fk_regress") (str "$$REMOVE") (str "$w")),
    ("d".toList, .cond (str "$_fk_regress") (regression batch) (str "$d")),
    ("n".toList, .cond (isPresent "$_fk_transition")
      (.concatArrays (.ifNull (str "$n") (.array [])) (.array [str "$_fk_transition"])) (str "$n")),
    ("j".toList, .cond (isPresent "$_fk_transition") (.literal (.bool true)) (str "$j")),
    ("fr".toList, .cond (str "$_fk_first_release.p") (str "$_fk_first_release.v") (str "$$REMOVE")),
    ("lr".toList, .cond
      (.and [str "$_fk_latest_release.p",
        .or [.not (str "$_fk_first_release.p"),
          .ne (str "$_fk_latest_release.v") (str "$_fk_first_release.v")]])
      (str "$_fk_latest_release.v") (str "$$REMOVE")),
    ("m".toList, .cond (.and [str "$_fk_first_release.p", .not (str "$_fk_latest_release.p")])
      (.literal (.bool true)) (str "$$REMOVE")),
    ("b".toList, .cond (str "$_fk_new") (.literal (bodyBinary body)) (str "$b"))]

def temporaries : List Text :=
  ["_fk_new".toList, "_fk_first".toList, "_fk_latest".toList, "_fk_regress".toList,
    "_fk_old_latest_event".toList, "_fk_old_first_release".toList, "_fk_old_latest_release".toList,
    "_fk_first_event".toList, "_fk_latest_event".toList, "_fk_first_release".toList,
    "_fk_latest_release".toList, "_fk_transition".toList]

def occurrencePipeline (batch : Batch) (body : List (BitVec 8)) : List Stage :=
  [.set (markStage batch), .set (selectStage blake3 batch), .set (writeStage batch body),
    .unset temporaries]

/-- What an upsert starts with when no document matches its filter: the fields that the filter equates. -/
def upsertSeed (batch : Batch) : BsonDocument :=
  [("_id".toList, issueBinary batch.summary.issueId),
    ("p".toList, .int32 batch.summary.projectId.get),
    ("g".toList, keyBinary batch.summary.groupingKey)]

end Pipeline

/-! ### Reading a document -/

inductive IssueCodecError where
  | invalidDocument
deriving DecidableEq, Repr

def orInvalidDocument {α : Type} : Option α → Except IssueCodecError α
  | some value => .ok value
  | none => .error .invalidDocument

/-- The number that a binary field of the given size spells. -/
def fixedBinary (size : Nat) : Option BsonValue → Option Nat
  | some (.binary value) => if value.size = size then some value.content else none
  | _ => none

def eventOf (content : Nat) : EventId := ⟨BitVec.ofNat 128 content⟩

/-- A field that may be missing, read by a function when it is there. -/
def optionalField {α : Type} (read : BsonValue → Option α) : Option BsonValue → Except IssueCodecError (Option α)
  | none => .ok none
  | some value => (read value).elim (.error .invalidDocument) fun result => .ok (some result)

def readEvent (value : BsonValue) : Option EventId := (fixedBinary 16 (some value)).map eventOf

def readActor (value : BsonValue) : Option ActorRef :=
  (fixedBinary 17 (some value)).bind fun content => ActorRef.fromBytes (BitVec.ofNat 136 content)

def readText {maximum : Nat} : BsonValue → Option (IssueText maximum)
  | .string value => (IssueText.new value).toOption
  | _ => none

def readTitle : BsonValue → Option IssueTitle
  | .string value => (IssueTitle.new value).toOption
  | _ => none

def readDate : BsonValue → Option Timestamp
  | .date millis => (Timestamp.fromUnixMillis millis).toOption
  | _ => none

def readProject : BsonValue → Option ProjectId
  | .int32 value => if h : 0 < value ∧ value < 2 ^ 31 then some ⟨value, h⟩ else none
  | _ => none

/-- `GroupingKey::parse`. -/
def readKey (value : BsonValue) : Option GroupingKey :=
  (fixedBinary 34 (some value)).bind fun content =>
    let bytes := BitVec.ofNat 272 content
    let revision := bytes.extractLsb' 256 16
    if revision = 0 then none else some ⟨revision, bytes.extractLsb' 0 256⟩

/-- A positive `i64` of at least the given value. -/
def readCount (minimum : Int) : BsonValue → Option NonZeroU64
  | .int64 value => if minimum ≤ value then NonZeroU64.new value.toNat else none
  | _ => none

def readField {α : Type} (read : BsonValue → Option α) (root : BsonDocument) (name : String) :
    Except IssueCodecError α :=
  orInvalidDocument ((root.lookup name.toList).bind read)

def decodeStatus : Option BsonValue → Except IssueCodecError IssueStatus
  | none => .ok .open
  | some (.int32 value) =>
      if value = 1 then .ok .resolved else if value = 2 then .ok .ignored else .error .invalidDocument
  | some _ => .error .invalidDocument

def decodeWorkflow : BsonValue → Option IssueWorkflow
  | .document fields => do
      let time ← (fields.lookup "t".toList).bind readDate
      let actor ← (fields.lookup "a".toList).bind readActor
      return ⟨time, actor⟩
  | _ => none

/-- A missing count is one. -/
def decodeRegressionCount : Option BsonValue → Option NonZeroU64
  | none => some ⟨1, by decide⟩
  | some value => readCount 2 value

def decodeRegression : BsonValue → Option RegressionSummary
  | .document fields => do
      let count ← decodeRegressionCount (fields.lookup "c".toList)
      let time ← (fields.lookup "t".toList).bind readDate
      let eventId ← (fields.lookup "e".toList).bind readEvent
      let release ← (optionalField readText (fields.lookup "r".toList)).toOption
      return ⟨time, eventId, count, release⟩
  | _ => none

/-- `m`: the latest occurrence has no release although the first one has. -/
def decodeReleaseMissing : Option BsonValue → Except IssueCodecError Bool
  | none => .ok false
  | some (.bool true) => .ok true
  | some _ => .error .invalidDocument

def decodeLastRelease (root : BsonDocument) (firstRelease : Option IssueRelease) :
    Except IssueCodecError (Option IssueRelease) := do
  let releaseMissing ← decodeReleaseMissing (root.lookup "m".toList)
  if releaseMissing then
    failIf (firstRelease.isNone ∨ (root.lookup "lr".toList).isSome) .invalidDocument
    return none
  else
    let stored ← optionalField readText (root.lookup "lr".toList)
    return stored.or firstRelease

def decodeStatusWorkflow (root : BsonDocument) (status : IssueStatus) :
    Except IssueCodecError (Option IssueWorkflow) :=
  if status = .open then do
    failIf (root.lookup "w".toList).isSome .invalidDocument
    return none
  else do
    let workflow ← readField decodeWorkflow root "w"
    return some workflow

def decodeIssue (blake3 : List (BitVec 8) → BitVec 256) (root : BsonDocument) :
    Except IssueCodecError IssueSnapshot := do
  let issueId ← readField (fun value => (fixedBinary 16 (some value)).map fun content =>
    (⟨BitVec.ofNat 128 content⟩ : IssueId)) root "_id"
  let projectId ← readField readProject root "p"
  let groupingKey ← readField readKey root "g"
  failIf (!verifyIssueId blake3 projectId groupingKey issueId) .invalidDocument
  let firstEventId ← readField readEvent root "e"
  let latestEventId := (← optionalField readEvent (root.lookup "v".toList)).getD firstEventId
  let representativeEventId := (← optionalField readEvent (root.lookup "r".toList)).getD latestEventId
  let firstRelease ← optionalField readText (root.lookup "fr".toList)
  let lastRelease ← decodeLastRelease root firstRelease
  let status ← decodeStatus (root.lookup "s".toList)
  let workflow ← decodeStatusWorkflow root status
  let regression ← optionalField decodeRegression (root.lookup "d".toList)
  let occurrenceCount ← readField (readCount 1) root "c"
  let title ← readField readTitle root "t"
  let culprit ← optionalField readText (root.lookup "q".toList)
  let firstSeen ← readField readDate root "f"
  let lastSeen ← readField readDate root "l"
  let assignee ← optionalField readActor (root.lookup "a".toList)
  return {
    projectId := projectId
    issueId := issueId
    groupingKey := groupingKey
    title := title
    culprit := culprit
    firstSeen := firstSeen
    lastSeen := lastSeen
    firstEventId := firstEventId
    latestEventId := latestEventId
    representativeEventId := representativeEventId
    occurrenceCount := occurrenceCount
    status := status
    assignee := assignee
    workflow := workflow
    regression := regression
    firstRelease := firstRelease
    lastRelease := lastRelease }

/-! ### The validator of the collection -/

def isBinary : BsonValue → Bool
  | .binary _ => true
  | _ => false

def isDate : BsonValue → Bool
  | .date _ => true
  | _ => false

/-- A string of at least one character. -/
def isNonemptyString : BsonValue → Bool
  | .string value => !value.isEmpty
  | _ => false

def isIntFrom (minimum : Int) : BsonValue → Bool
  | .int32 value => minimum ≤ value
  | _ => false

def isIntOf (values : List Int) : BsonValue → Bool
  | .int32 value => value ∈ values
  | _ => false

def isLongFrom (minimum : Int) : BsonValue → Bool
  | .int64 value => minimum ≤ value
  | _ => false

def isTrue : BsonValue → Bool
  | .bool value => value
  | _ => false

/-- An object schema without additional properties. -/
def objectSchema (required : List String) (properties : List (String × (BsonValue → Bool))) :
    BsonValue → Bool
  | .document fields =>
      required.all (fun name => (fields.lookup name.toList).isSome)
        && fields.all (fun field => properties.any fun property => property.1.toList = field.1)
        && properties.all fun property => (fields.lookup property.1.toList).all property.2
  | _ => false

def arraySchema (minItems maxItems : Nat) (item : BsonValue → Bool) : BsonValue → Bool
  | .array items => minItems ≤ items.length && items.length ≤ maxItems && items.all item
  | _ => false

def maxPendingTransitions : Nat := 64

def transitionSchema : BsonValue → Bool :=
  objectSchema ["i", "k", "e", "t"]
    [("i", isBinary), ("k", isIntOf [1, 2, 3]), ("e", isBinary), ("t", isDate)]

def issueSchema : BsonValue → Bool :=
  objectSchema ["_id", "p", "g", "t", "f", "l", "e", "c", "b"]
    [("_id", isBinary), ("p", isIntFrom 1), ("g", isBinary), ("t", isNonemptyString),
      ("q", isNonemptyString), ("f", isDate), ("l", isDate), ("e", isBinary), ("v", isBinary),
      ("r", isBinary), ("c", isLongFrom 1), ("s", isIntOf [1, 2]), ("a", isBinary),
      ("w", objectSchema ["t", "a"] [("t", isDate), ("a", isBinary)]),
      ("d", objectSchema ["t", "e"]
        [("t", isDate), ("e", isBinary), ("c", isLongFrom 2), ("r", isNonemptyString)]),
      ("fr", isNonemptyString), ("lr", isNonemptyString), ("m", isTrue), ("j", isTrue),
      ("n", arraySchema 1 maxPendingTransitions transitionSchema), ("b", isBinary)]

/-- `$binarySize`, of a field that has to be a binary. -/
def hasBinarySize (size : Nat) : Option BsonValue → Bool
  | some (.binary value) => value.size = size
  | _ => false

/-- `$strLenBytes`, of a field that has to be a string. -/
def hasStringBytes (maximum : Nat) : Option BsonValue → Bool
  | some (.string value) => byteLength value ≤ maximum
  | _ => false

/-- The check is made only when the field is there. -/
def whenPresent (check : Option BsonValue → Bool) (value : Option BsonValue) : Bool :=
  value.isNone || check value

/-- The `$expr` of the validator. -/
def issueExpression (root : BsonDocument) : Bool :=
  hasBinarySize 16 (root.lookup "_id".toList)
    && hasBinarySize 34 (root.lookup "g".toList)
    && hasBinarySize 16 (root.lookup "e".toList)
    && hasStringBytes 512 (root.lookup "t".toList)
    && whenPresent (hasStringBytes 256) (root.lookup "q".toList)
    && whenPresent (hasBinarySize 16) (root.lookup "v".toList)
    && whenPresent (hasBinarySize 16) (root.lookup "r".toList)
    && whenPresent (hasBinarySize 17) (root.lookup "a".toList)
    && ((root.lookup "w".toList).isNone
      || hasBinarySize 17 (BsonValue.follow ["w".toList, "a".toList] (.document root)))
    && whenPresent (hasStringBytes 200) (BsonValue.follow ["d".toList, "r".toList] (.document root))
    && !((root.lookup "lr".toList).isSome && (root.lookup "m".toList).any isTrue)
    && (!(root.lookup "m".toList).any isTrue || (root.lookup "fr".toList).isSome)
    && (root.lookup "j".toList).any isTrue == (root.lookup "n".toList).isSome

def issueValidator (root : BsonDocument) : Bool := issueSchema (.document root) && issueExpression root

/-! ### Batches -/

/-- The limit of `IssueCodecConfig::default` that a body is checked against. -/
def maxDecodedBodyBytes : Nat := 64 * 1024

def compressionMinSavings : Nat := 64

def strategyCode : GroupingStrategy → Nat
  | .sdkFingerprint => 1
  | .exceptionStack => 2
  | .nativeStack => 3
  | .message => 4

def groupingValue (grouping : IssueGroupingDetail) : Text :=
  jsonObject [
    ("c".toList, jsonArray (grouping.components.map fun component =>
      jsonObject [
        ("k".toList, jsonNumber component.kind.byte.toNat),
        ("v".toList, jsonString component.value)])),
    ("s".toList, jsonNumber (strategyCode grouping.strategy)),
    ("x".toList, jsonString grouping.summary)]

def encodeGroupingBody (compress : List (BitVec 8) → Option (List (BitVec 8)))
    (grouping : IssueGroupingDetail) : Except IssueStoreError (List (BitVec 8)) := do
  let canonical := utf8Bytes (groupingValue grouping)
  failIf (maxDecodedBodyBytes < canonical.length) .invalidData
  let compressed ← orInvalidData (compress canonical)
  if compressed.length + compressionMinSavings ≤ canonical.length then return 1 :: 1 :: compressed
  else return 1 :: 0 :: canonical

/-- The filter of a batch, on the document with the identity of its Issue. -/
def matchesFilter (batch : Batch) (root : BsonDocument) : Bool :=
  BsonValue.orderResults (root.lookup "p".toList) (some (.int32 batch.summary.projectId.get)) = .eq
    ∧ BsonValue.orderResults (root.lookup "g".toList) (some (keyBinary batch.summary.groupingKey)) = .eq

section Store

variable (blake3 : List (BitVec 8) → BitVec 256) (compress : List (BitVec 8) → Option (List (BitVec 8)))

/-- `find_one_and_update` of a batch. When the document of the identity has another key, the upsert is a
duplicate. -/
def writeBatch (stored : Option BsonDocument) (occurrences : List IssueOccurrence) :
    Except IssueStoreError (Batch × BsonDocument) := do
  let batch ← selectBatch blake3 occurrences
  let body ← encodeGroupingBody compress batch.summary.grouping
  failIf (stored.any (!matchesFilter batch ·)) .identityCollision
  let root := runPipeline (occurrencePipeline blake3 batch body) (stored.getD (upsertSeed batch))
  failIf (!issueValidator root) .unavailable
  return (batch, root)

def mutationKind (batch : Batch) (issue : IssueSnapshot) : IssueMutationKind :=
  if issue.occurrenceCount.get = batch.increment then .created
  else if issue.status = .open ∧ issue.regression.any fun stored =>
      stored.eventId = batch.candidate.eventId ∧ stored.atTime = batch.candidate.receivedAt then .regressed
  else .updated

/-- The answer of `apply_occurrence_batch`. -/
def answerBatch (stored : Option BsonDocument) (occurrences : List IssueOccurrence) :
    Except IssueStoreError IssueMutationResult := do
  let (batch, root) ← writeBatch blake3 compress stored occurrences
  let issue ← (decodeIssue blake3 root).mapError fun _ => .invalidData
  return ⟨mutationKind batch issue, issue⟩

/-! ### Commands -/

def isStatus (value : Int) (root : BsonDocument) : Bool :=
  BsonValue.orderResults (root.lookup "s".toList) (some (.int32 value)) = .eq

/-- The filter of a command, on the document with its identity. -/
def commandMatches (command : IssueCommand) (root : BsonDocument) : Bool :=
  match command.action with
  | .resolve => (root.lookup "s".toList).isNone
  | .ignore => (root.lookup "s".toList).isNone || isStatus 1 root
  | .reopen => isStatus 1 root || isStatus 2 root
  | .assign (some assignee) =>
      BsonValue.orderResults (root.lookup "a".toList) (some (actorBinary assignee)) ≠ .eq
  | .assign none => (root.lookup "a".toList).isSome

def workflowDocument (command : IssueCommand) : BsonValue :=
  .document [("t".toList, date command.atTime), ("a".toList, actorBinary command.actor)]

/-- `$push` to the pending transitions. -/
def pushPending (root : BsonDocument) (item : BsonValue) : BsonDocument :=
  match root.lookup "n".toList with
  | some (.array items) => root.put "n".toList (some (.array (items ++ [item])))
  | _ => root.put "n".toList (some (.array [item]))

def commandUpdate (command : IssueCommand) (root : BsonDocument) : BsonDocument :=
  match command.action with
  | .resolve =>
      pushPending
        (((root.put "s".toList (some (.int32 1))).put "w".toList (some (workflowDocument command))).put
          "j".toList (some (.bool true)))
        (transition blake3 command.projectId command.issueId .resolved ⟨command.idempotencyKey⟩
          command.atTime)
  | .ignore => (root.put "s".toList (some (.int32 2))).put "w".toList (some (workflowDocument command))
  | .reopen => (root.put "s".toList none).put "w".toList none
  | .assign (some assignee) => root.put "a".toList (some (actorBinary assignee))
  | .assign none => root.put "a".toList none

/-- `find_one_and_update` of a command: whether it applied, and the document it leaves. -/
def writeCommand (stored : Option BsonDocument) (command : IssueCommand) :
    Except IssueStoreError (Bool × BsonDocument) :=
  match stored with
  | none => .error .notFound
  | some root =>
      if commandMatches command root then do
        let root := commandUpdate blake3 command root
        failIf (!issueValidator root) .unavailable
        return (true, root)
      else return (false, root)

/-- The answer of `apply_command_inner`. -/
def answerCommand (stored : Option BsonDocument) (command : IssueCommand) :
    Except IssueStoreError IssueCommandResult := do
  let (applied, root) ← writeCommand blake3 stored command
  let issue ← (decodeIssue blake3 root).mapError fun _ => .invalidData
  return ⟨applied, issue⟩

end Store

/-! ### Expanded transitions -/

/-- The transition of the document has the identity. -/
def hasTransitionId (id : IssueTransitionId) (item : BsonValue) : Bool :=
  BsonValue.orderResults (BsonValue.follow ["i".toList] item) (some (binary 16 id.asBytes)) = .eq

/-- The update of `mongo/src/notifications.rs` that removes an expanded transition. -/
def removePending (id : IssueTransitionId) (root : BsonDocument) : BsonDocument :=
  match root.lookup "n".toList with
  | some (.array items) =>
      let kept := items.filter (!hasTransitionId id ·)
      if items.any (hasTransitionId id) then
        if kept.isEmpty then (root.put "j".toList none).put "n".toList none
        else (root.put "j".toList (some (.bool true))).put "n".toList (some (.array kept))
      else root
  | _ => root

/-! ### The release pipeline -/

/-- What `release_pipeline` reads of a `FinalizeEvent`. -/
structure ReleaseEvent where
  key : EventKey
  occurredAt : Timestamp
  receivedAt : Timestamp

def releaseMarks (first latest : ReleaseEvent) : List (Text × Expr) :=
  [("_fk_first".toList, .or [isMissing "$first_seen",
      .lt (.literal (date first.occurredAt)) (str "$first_seen"),
      .and [.eq (.literal (date first.occurredAt)) (str "$first_seen"),
        .lt (.literal (binary 20 first.key.asBytes)) (str "$first_event_id")]]),
    ("_fk_latest".toList, .or [isMissing "$last_seen",
      .gt (.literal (date latest.occurredAt)) (str "$last_seen"),
      .and [.eq (.literal (date latest.occurredAt)) (str "$last_seen"),
        .gt (.literal (binary 20 latest.key.asBytes)) (str "$latest_event_id")]])]

def releaseFields (projectId : ProjectId) (organizationId : Nat) (version : Text)
    (first latest : ReleaseEvent) : List (Text × Expr) :=
  [("organization_id".toList, .ifNull (str "$organization_id") (.literal (.int64 organizationId))),
    ("version".toList, .ifNull (str "$version") (.text version)),
    ("status".toList, .ifNull (str "$status") (str "open")),
    ("project_ids".toList, .setUnion (.ifNull (str "$project_ids") (.array []))
      (.array [.literal (.int32 projectId.get)])),
    ("first_seen".toList, .cond (str "$_fk_first") (.literal (date first.occurredAt)) (str "$first_seen")),
    ("first_event_id".toList,
      .cond (str "$_fk_first") (.literal (binary 20 first.key.asBytes)) (str "$first_event_id")),
    ("last_seen".toList, .cond (str "$_fk_latest") (.literal (date latest.occurredAt)) (str "$last_seen")),
    ("latest_event_id".toList,
      .cond (str "$_fk_latest") (.literal (binary 20 latest.key.asBytes)) (str "$latest_event_id")),
    ("created_at".toList, .ifNull (str "$created_at") (.literal (date first.receivedAt))),
    ("activity_at".toList, .max (.ifNull (str "$activity_at") (.literal (date latest.occurredAt)))
      (.literal (date latest.occurredAt))),
    ("source".toList, .ifNull (str "$source") (str "event"))]

def releasePipeline (projectId : ProjectId) (organizationId : Nat) (version : Text)
    (first latest : ReleaseEvent) : List Stage :=
  [.set (releaseMarks first latest), .set (releaseFields projectId organizationId version first latest),
    .unset ["_fk_first".toList, "_fk_latest".toList]]

/-- The fields that the filter of the release upsert equates. -/
def releaseSeed (id : ReleaseId) (organizationId : Nat) (version : Text) : BsonDocument :=
  [("_id".toList, binary 16 id.asBytes), ("organization_id".toList, .int64 organizationId),
    ("version".toList, .string version)]

end MongoIssues

end MetricBackend
