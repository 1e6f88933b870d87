import Mathlib.Data.Finset.Sort
import MetricBackend.EventFinalizer
import MetricBackend.EventGrouping

/-! The payload of a finalized Event: a normalized body as JSON, of `application/src/normalizer.rs`, and the request
that `application/src/finalizer.rs` makes of it. Printing and reading JSON, and floating-point numbers, are parameters. -/

namespace MetricBackend

/-- What `serde_json` does with a value: its bytes, the value of bytes, the value that a spelling stands for, and
`unix_millis as f64 / 1000.0`. -/
structure JsonCodec where
  toVec : JsonValue → List (BitVec 8)
  fromSlice : List (BitVec 8) → Option JsonValue
  fromStr : Text → Option JsonValue
  seconds : Int → JsonNumber

/-- The number of an unsigned integer. -/
def JsonNumber.ofNat (value : Nat) : JsonNumber := ⟨jsonNumber value, some (BitVec.ofNat 64 value)⟩

namespace JsonFields

/-- `Map::insert`: a key that is there keeps its place. -/
def insert (key : Text) (value : JsonValue) : JsonFields → JsonFields
  | [] => [(key, value)]
  | (other, stored) :: fields =>
      if other = key then (key, value) :: fields else (other, stored) :: insert key value fields

/-- The insertions of the members that are there, one after the other. -/
def insertMembers (fields : JsonFields) (members : List (Text × Option JsonValue)) : JsonFields :=
  members.foldl (fun fields member => member.2.elim fields (insert member.1 · fields)) fields

theorem lookup_insert_of_ne {key other : Text} {value : JsonValue} {fields : JsonFields} (h : other ≠ key) :
    (insert key value fields).lookup other = fields.lookup other := by
  have hbeq : (other == key) = false := beq_eq_false_iff_ne.mpr h
  induction fields with
  | nil => rw [insert, List.lookup_cons, hbeq]
  | cons entry fields ih =>
      obtain ⟨stored, old⟩ := entry
      rw [insert]
      split_ifs with heq
      · subst heq
        rw [List.lookup_cons, List.lookup_cons, hbeq]
      · rw [List.lookup_cons, List.lookup_cons, ih]

/-- A key that no member has is where it was. -/
theorem lookup_insertMembers {key : Text} {fields : JsonFields} {members : List (Text × Option JsonValue)}
    (h : key ∉ members.map Prod.fst) : (insertMembers fields members).lookup key = fields.lookup key := by
  induction members generalizing fields with
  | nil => rfl
  | cons member members ih =>
      rw [List.map_cons, List.mem_cons, not_or] at h
      rw [insertMembers, List.foldl_cons, ← insertMembers, ih h.2]
      cases member.2 with
      | none => rfl
      | some value => exact lookup_insert_of_ne h.1

end JsonFields

namespace EventNormalizer

variable (json : JsonCodec)

mutual

def canonicalToValue : CanonicalValue → JsonValue
  | .null => .null
  | .bool value => .bool value
  | .number spelling => (json.fromStr spelling).getD .null
  | .string value => .string value
  | .array items => .array (canonicalItems items)
  | .object fields => .object (canonicalMapToJsonMap fields)

def canonicalItems : List CanonicalValue → List JsonValue
  | [] => []
  | item :: items => canonicalToValue item :: canonicalItems items

def canonicalMapToJsonMap : List (Text × CanonicalValue) → JsonFields
  | [] => []
  | (key, value) :: fields => (key, canonicalToValue value) :: canonicalMapToJsonMap fields

end

/-- An array of texts that is left out when it is empty. -/
def textArray (values : List Text) : Option JsonValue :=
  if values.isEmpty then none else some (.array (values.map .string))

/-- An object that is left out when it is empty. -/
def canonicalObject (fields : CanonicalFields) : Option JsonValue :=
  if fields.isEmpty then none else some (.object (canonicalMapToJsonMap json fields))

def integer (value : BitVec 64) : JsonValue := .number (.ofNat value.toNat)

def frameToValue (frame : NormalizedFrame) : JsonValue :=
  .object (JsonFields.insertMembers (canonicalMapToJsonMap json frame.unknown)
    [("filename".toList, frame.filename.map .string),
      ("abs_path".toList, frame.absolutePath.map .string),
      ("function".toList, frame.function.map .string),
      ("module".toList, frame.module.map .string),
      ("package".toList, frame.package.map .string),
      ("instruction_addr".toList, frame.instructionAddress.map .string),
      ("symbol_addr".toList, frame.symbolAddress.map .string),
      ("lineno".toList, frame.line.map integer),
      ("colno".toList, frame.column.map integer),
      ("in_app".toList, frame.inApp.map .bool),
      ("context_line".toList, frame.contextLine.map .string),
      ("pre_context".toList, textArray frame.preContext),
      ("post_context".toList, textArray frame.postContext),
      ("vars".toList, canonicalObject json frame.vars)])

def framesToValue (frames : List NormalizedFrame) : JsonValue :=
  .object [("frames".toList, .array (frames.map (frameToValue json)))]

/-- Frames that are left out when there are none. -/
def stacktraceMember (frames : List NormalizedFrame) : Option JsonValue :=
  if frames.isEmpty then none else some (framesToValue json frames)

def exceptionToValue (exception : NormalizedException) : JsonValue :=
  .object (JsonFields.insertMembers (canonicalMapToJsonMap json exception.unknown)
    [("type".toList, exception.ty.map .string),
      ("value".toList, exception.value.map .string),
      ("module".toList, exception.module.map .string),
      ("thread_id".toList, exception.threadId.map .string),
      ("mechanism".toList, exception.mechanism.map (canonicalToValue json)),
      ("stacktrace".toList, stacktraceMember json exception.stacktrace),
      ("raw_stacktrace".toList, stacktraceMember json exception.rawStacktrace)])

def breadcrumbToValue (breadcrumb : NormalizedBreadcrumb) : JsonValue :=
  .object (JsonFields.insertMembers (canonicalMapToJsonMap json breadcrumb.unknown)
    [("timestamp".toList, breadcrumb.timestamp.map fun time => .number (json.seconds time.unixMillis)),
      ("type".toList, breadcrumb.ty.map .string),
      ("category".toList, breadcrumb.category.map .string),
      ("level".toList, breadcrumb.level.map fun level => .string level.asStr),
      ("message".toList, breadcrumb.message.map .string),
      ("data".toList, canonicalObject json breadcrumb.data)])

/-- `{"values": [...]}`, left out when there are none. -/
def valuesMember {α : Type} (toValue : α → JsonValue) (values : List α) : Option JsonValue :=
  if values.isEmpty then none else some (.object [("values".toList, .array (values.map toValue))])

def tagToValue (tag : NormalizedTag) : JsonValue := .array [.string tag.key, .string tag.value]

/-- The members that a body has by name. -/
def bodyMembers (body : NormalizedEventBody) : List (Text × Option JsonValue) :=
  [("timestamp".toList, some (.number (json.seconds body.occurredAt.unixMillis))),
    ("platform".toList, if body.platform ≠ .other then some (.string body.platform.asStr) else none),
    ("level".toList, if body.level ≠ .error then some (.string body.level.asStr) else none),
    ("logger".toList, body.logger.map .string),
    ("message".toList, body.message.map .string),
    ("transaction".toList, body.transaction.map .string),
    ("release".toList, body.release.map .string),
    ("dist".toList, body.dist.map .string),
    ("environment".toList, body.environment.map .string),
    ("fingerprint".toList, textArray body.fingerprint),
    ("exception".toList, valuesMember (exceptionToValue json) body.exceptions),
    ("stacktrace".toList, stacktraceMember json body.stacktrace),
    ("tags".toList, if body.tags.isEmpty then none else some (.array (body.tags.map tagToValue))),
    ("request".toList, body.request.map (canonicalToValue json)),
    ("user".toList, body.user.map (canonicalToValue json)),
    ("contexts".toList, canonicalObject json body.contexts),
    ("breadcrumbs".toList, valuesMember (breadcrumbToValue json) body.breadcrumbs)]

/-- The object of `body_to_value`. -/
def bodyFields (body : NormalizedEventBody) : JsonFields :=
  (JsonFields.insertMembers [] (bodyMembers json body)).insertMembers
    (body.unknown.map fun entry => (entry.1, some (canonicalToValue json entry.2)))

end EventNormalizer

namespace EventFinalizer

open EventNormalizer Finalization

/-! ### The payload -/

def originValue : RawTraceOrigin → JsonValue
  | .event => .object [("kind".toList, .string "event".toList)]
  | .exception index =>
      .object [("kind".toList, .string "exception".toList), ("index".toList, .number (.ofNat index))]
  | .exceptionRaw index =>
      .object [("kind".toList, .string "exception_raw".toList), ("index".toList, .number (.ofNat index))]

def frameValue (includeSourceContext : Bool) (frame : SymbolicatedFrame) : JsonValue :=
  .object (JsonFields.insertMembers []
    [("original_index".toList, some (.number (.ofNat frame.originalIndex))),
      ("function".toList, frame.function.map .string),
      ("filename".toList, frame.filename.map .string),
      ("module".toList, frame.module.map .string),
      ("context_line".toList, if includeSourceContext then frame.contextLine.map .string else none),
      ("pre_context".toList, if includeSourceContext then textArray frame.preContext else none),
      ("post_context".toList, if includeSourceContext then textArray frame.postContext else none),
      ("line".toList, frame.line.map integer),
      ("column".toList, frame.column.map integer)])

/-- The member `_metric` of a payload. -/
def metricValue (event : NormalizedEvent) (symbolication : SymbolicationResult) (includeSourceContext : Bool) :
    JsonValue :=
  .object [("normalization".toList, .array (event.diagnostics.map fun diagnostic =>
      .object [("code".toList, .string diagnostic.code.asStr), ("path".toList, .string diagnostic.path.toList)])),
    ("symbolication".toList, .object [("kind".toList, .string symbolication.kind.asStr),
      ("status".toList, .string symbolication.status.asStr),
      ("disposition".toList, .string symbolication.disposition.asStr),
      ("derived".toList, .array (symbolication.derived.map fun trace =>
        .object [("origin".toList, originValue trace.origin),
          ("frames".toList, .array (trace.frames.map (frameValue includeSourceContext)))])),
      ("missing_debug_ids".toList, .array (symbolication.missingDebugIds.map .string)),
      ("diagnostics".toList, .array (symbolication.diagnostics.map fun diagnostic => .string diagnostic.asStr))])]

/-- The object of `processed_payload`. -/
def processedValue (json : JsonCodec) (event : NormalizedEvent) (symbolication : SymbolicationResult)
    (includeSourceContext : Bool) : JsonValue :=
  .object ((bodyFields json event.body).insert "_metric".toList (metricValue event symbolication includeSourceContext))

/-! ### Search tokens -/

def userId : CanonicalValue → Option Text
  | .object fields =>
      match fields.lookup "id".toList with
      | some (.string value) | some (.number value) => some value
      | _ => none
  | _ => none

def searchTokens (blake3 : List (BitVec 8) → BitVec 256) (event : NormalizedEvent) : List SearchToken :=
  ((event.body.release.map (releaseToken blake3)).toList ++ (event.body.environment.map (environmentToken blake3)).toList
    ++ ((event.body.user.bind userId).map (userIdToken blake3)).toList).toFinset.sort

/-! ### The request -/

/-- The payload with the source context, or without it where that is too long. -/
def chosenPayload (json : JsonCodec) (config : FinalizerConfig) (event : NormalizedEvent)
    (symbolication : SymbolicationResult) : JsonValue :=
  if config.maxProcessedBodyBytes < (json.toVec (processedValue json event symbolication true)).length then
    processedValue json event symbolication false
  else processedValue json event symbolication true

/-- `Finalizer::prepare`. -/
def prepare (json : JsonCodec) (blake3 : List (BitVec 8) → BitVec 256) (config : FinalizerConfig)
    (event : NormalizedEvent) (symbolication : SymbolicationResult) (grouping : GroupingResult)
    (issue : IssueOccurrence) : Except FinalizerError FinalizeEvent := do
  failIf (issue.issueId ≠ grouping.issueId ∨ issue.groupingKey ≠ grouping.key) .invalidIdentity
  let payload := json.toVec (chosenPayload json config event symbolication)
  failIf (config.maxProcessedBodyBytes < payload.length) .outputTooLarge
  let tokens := searchTokens blake3 event
  failIf (maxSearchTokensPerEvent < tokens.length) .outputTooLarge
  return {
    projectId := event.projectId
    eventId := event.eventId
    receivedAt := event.receivedAt
    occurredAt := event.body.occurredAt
    level := event.body.level
    platform := event.body.platform
    issue := issue
    environment := event.body.environment
    searchTokens := tokens
    payload := payload }

end EventFinalizer

end MetricBackend
