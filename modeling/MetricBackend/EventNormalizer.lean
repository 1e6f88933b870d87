import MetricBackend.LibFallible
import MetricBackend.LibText
import MetricBackend.DomainEvents
import MetricBackend.DomainNormalized

/-! The normalizer of `application/src/normalizer.rs`. An object of `serde_json` is the list of its entries
in key order. Decoding a payload, and reading a timestamp out of a value, are parameters. -/

namespace MetricBackend

/-- A JSON number: its spelling and its value when it is a `u64`. -/
structure JsonNumber where
  spelling : Text
  asU64 : Option (BitVec 64)

/-- `serde_json::Value`. -/
inductive JsonValue where
  | null
  | bool (value : Bool)
  | number (value : JsonNumber)
  | string (value : Text)
  | array (items : List JsonValue)
  | object (fields : List (Text × JsonValue))

abbrev JsonFields : Type := List (Text × JsonValue)

namespace JsonValue

def asObject : JsonValue → Option JsonFields
  | .object fields => some fields
  | _ => none

def asStr : JsonValue → Option Text
  | .string value => some value
  | _ => none

def asBool : JsonValue → Option Bool
  | .bool value => some value
  | _ => none

end JsonValue

structure NormalizerLimits where
  maxDepth : Nat
  maxNodes : Nat
  maxDiagnostics : Nat
  maxExceptions : Nat
  maxFrames : Nat
  maxTags : Nat
  maxBreadcrumbs : Nat
  maxFingerprint : Nat
  maxUnknownFields : Nat
  maxObjectFields : Nat
  maxArrayItems : Nat
  maxStringBytes : Nat

/-- The values of `Default`. -/
def NormalizerLimits.defaultValue : NormalizerLimits where
  maxDepth := 16
  maxNodes := 16384
  maxDiagnostics := 64
  maxExceptions := 64
  maxFrames := 512
  maxTags := 200
  maxBreadcrumbs := 100
  maxFingerprint := 32
  maxUnknownFields := 128
  maxObjectFields := 256
  maxArrayItems := 512
  maxStringBytes := 16 * 1024

inductive NormalizationError where
  | invalidJson
  | invalidRoot
  | tooComplex
  | identityFieldTooLarge
deriving DecidableEq, Repr

namespace EventNormalizer

def maxReleaseBytes : Nat := 200
def maxDistBytes : Nat := 64
def maxEnvironmentBytes : Nat := 64
def maxPlatformBytes : Nat := 64
def maxLoggerBytes : Nat := 256
def maxMessageBytes : Nat := 8 * 1024
def maxFieldBytes : Nat := 2 * 1024
def maxContextLineBytes : Nat := 4 * 1024
def maxTagKeyBytes : Nat := 200
def maxTagValueBytes : Nat := 200

structure Context where
  nodes : Nat
  diagnostics : List NormalizationDiagnostic

/-- The functions that take `&mut Context`. -/
abbrev Normalizing (α : Type) : Type := StateT Context (Except NormalizationError) α

variable (limits : NormalizerLimits)

/-- `Context::diagnostic`. -/
def diagnostic (code : NormalizationDiagnosticCode) (path : String) : Normalizing Unit :=
  modify fun context =>
    if context.diagnostics.length < limits.maxDiagnostics ∧ ⟨code, path⟩ ∉ context.diagnostics then
      { context with diagnostics := context.diagnostics ++ [⟨code, path⟩] }
    else context

def diagnosticIf (condition : Prop) [Decidable condition] (code : NormalizationDiagnosticCode)
    (path : String) : Normalizing Unit :=
  if condition then diagnostic limits code path else pure ()

/-- `Context::visit`. -/
def visit (depth : Nat) : Normalizing Unit := do
  let context ← get
  set { context with nodes := context.nodes + 1 }
  if limits.maxDepth < depth ∨ limits.maxNodes < context.nodes + 1 then throw .tooComplex

/-! ### Strings -/

def identityString (root : JsonFields) (key : String) (maximum : Nat) : Normalizing (Option Text) :=
  match root.lookup key.toList with
  | some (.string value) =>
      if value.isEmpty then pure none
      else if byteLength value ≤ maximum then pure (some value)
      else throw .identityFieldTooLarge
  | _ => pure none

def valueString (value : JsonValue) (maximum : Nat) (path : String) : Normalizing (Option Text) :=
  match value with
  | .null => pure none
  | .string value =>
      let maximum := min maximum limits.maxStringBytes
      if value.isEmpty then pure none
      else if byteLength value ≤ maximum then pure (some value)
      else do
        diagnostic limits .stringTruncated path
        return some (truncateUtf8 maximum value)
  | _ => do
      diagnostic limits .invalidFieldType path
      return none

def optionalString (fields : JsonFields) (key : String) (maximum : Nat) (path : String) :
    Normalizing (Option Text) :=
  match fields.lookup key.toList with
  | none => pure none
  | some value => valueString limits value maximum path

def boundedScalarString (value : JsonValue) (maximum : Nat) (path : String) : Normalizing (Option Text) :=
  match value with
  | .string value =>
      if byteLength value ≤ maximum then pure (some value)
      else do
        diagnostic limits .stringTruncated path
        return none
  | .number value => pure (if byteLength value.spelling ≤ maximum then some value.spelling else none)
  | .bool value => pure (some (jsonBool value))
  | _ => pure none

def optionalScalar (fields : JsonFields) (key : String) (maximum : Nat) (path : String) :
    Normalizing (Option Text) :=
  match fields.lookup key.toList with
  | none => pure none
  | some value => boundedScalarString limits value maximum path

/-- The plain string form, or the object form of a log entry. -/
def messageField (value : Option JsonValue) (path : String) : Normalizing (Option Text) :=
  match value with
  | none => pure none
  | some (.object entry) =>
      match (entry.lookup "formatted".toList).or (entry.lookup "message".toList) with
      | none => pure none
      | some value => valueString limits value maxMessageBytes path
  | some value => valueString limits value maxMessageBytes path

def normalizeMessage (root : JsonFields) : Normalizing (Option Text) := do
  match ← messageField limits (root.lookup "message".toList) "message" with
  | some message => return some message
  | none => messageField limits (root.lookup "logentry".toList) "logentry"

def platformOf (value : Text) : EventPlatform :=
  if value = "other".toList then .other
  else if value = "javascript".toList then .javaScript
  else if value = "node".toList then .node
  else if value = "python".toList then .python
  else if value = "java".toList ∨ value = "android".toList then .java
  else if value = "csharp".toList ∨ value = "dotnet".toList then .dotNet
  else if value = "go".toList then .go
  else if value = "rust".toList then .rust
  else if value = "php".toList then .php
  else if value = "ruby".toList then .ruby
  else if value = "cocoa".toList ∨ value = "objc".toList ∨ value = "swift".toList then .cocoa
  else if value = "native".toList ∨ value = "c".toList ∨ value = "cpp".toList then .native
  else if value = "dart".toList ∨ value = "flutter".toList then .dart
  else .custom value

def normalizePlatform : Option JsonValue → Normalizing EventPlatform
  | none => pure .other
  | some value => do
      let value ← valueString limits value maxPlatformBytes "platform"
      return (value.map platformOf).getD .other

def levelOf (value : Text) : Option EventLevel :=
  if value = "debug".toList then some .debug
  else if value = "info".toList ∨ value = "log".toList then some .info
  else if value = "warning".toList ∨ value = "warn".toList then some .warning
  else if value = "error".toList then some .error
  else if value = "fatal".toList then some .fatal
  else none

def normalizeLevel (value : Option JsonValue) (path : String) : Normalizing (Option EventLevel) :=
  match value with
  | none => pure none
  | some (.string value) =>
      match levelOf value with
      | some level => pure (some level)
      | none => do
          diagnostic limits .invalidLevel path
          return none
  | some _ => do
      diagnostic limits .invalidFieldType path
      return none

def normalizeStringArray (value : Option JsonValue) (maximum stringMaximum : Nat) (path : String) :
    Normalizing (List Text) :=
  match value with
  | none => pure []
  | some (.array values) => do
      diagnosticIf limits (maximum < values.length) .collectionTruncated path
      let texts ← (values.take maximum).mapM fun value => valueString limits value stringMaximum path
      return texts.filterMap id
  | some _ => do
      diagnostic limits .invalidFieldType path
      return []

/-! ### Canonical values -/

mutual

def canonicalize (depth : Nat) (path : String) : JsonValue → Normalizing CanonicalValue
  | .null => do
      visit limits depth
      return .null
  | .bool value => do
      visit limits depth
      return .bool value
  | .number value => do
      visit limits depth
      return .number value.spelling
  | .string value => do
      visit limits depth
      diagnosticIf limits (limits.maxStringBytes < byteLength value) .stringTruncated path
      return .string (truncateUtf8 limits.maxStringBytes value)
  | .array values => do
      visit limits depth
      diagnosticIf limits (limits.maxArrayItems < values.length) .collectionTruncated path
      return .array (← canonicalizeItems (depth + 1) path limits.maxArrayItems values)
  | .object fields => do
      visit limits depth
      diagnosticIf limits (limits.maxObjectFields < fields.length) .collectionTruncated path
      return .object (← canonicalizeFields (depth + 1) path limits.maxObjectFields fields)

/-- The first items, in order. -/
def canonicalizeItems (depth : Nat) (path : String) : Nat → List JsonValue → Normalizing (List CanonicalValue)
  | 0, _ => pure []
  | _, [] => pure []
  | count + 1, value :: values => do
      let first ← canonicalize depth path value
      let rest ← canonicalizeItems depth path count values
      return first :: rest

/-- The first entries, in order. -/
def canonicalizeFields (depth : Nat) (path : String) : Nat → JsonFields → Normalizing CanonicalFields
  | 0, _ => pure []
  | _, [] => pure []
  | count + 1, (key, value) :: fields => do
      let first ← canonicalize depth path value
      let rest ← canonicalizeFields depth path count fields
      return (key, first) :: rest

end

def optionalCanonical (fields : JsonFields) (key path : String) : Normalizing (Option CanonicalValue) :=
  match fields.lookup key.toList with
  | none => pure none
  | some value => some <$> canonicalize limits 1 path value

def normalizeUnknown (fields : JsonFields) (known : List String) (path : String) :
    Normalizing CanonicalFields := do
  let unknown := fields.filter fun field => ¬ field.1 ∈ known.map String.toList
  diagnosticIf limits (limits.maxUnknownFields < unknown.length) .unknownFieldsTruncated path
  canonicalizeFields limits 1 path limits.maxUnknownFields unknown

def normalizeOptionalObject (value : Option JsonValue) (path : String) :
    Normalizing (Option CanonicalValue) :=
  match value with
  | none | some .null => pure none
  | some (.object fields) => some <$> canonicalize limits 0 path (.object fields)
  | some _ => do
      diagnostic limits .invalidFieldType path
      return none

def normalizeNamedObject (value : Option JsonValue) (path : String) : Normalizing CanonicalFields :=
  match value with
  | none | some .null => pure []
  | some (.object fields) => do
      diagnosticIf limits (limits.maxObjectFields < fields.length) .collectionTruncated path
      canonicalizeFields limits 1 path limits.maxObjectFields fields
  | some _ => do
      diagnostic limits .invalidFieldType path
      return []

/-! ### Exceptions and frames -/

def normalizeFrame (frame : JsonFields) : Normalizing NormalizedFrame := do
  let filename ← optionalString limits frame "filename" maxFieldBytes "frame.filename"
  let absolutePath ← optionalString limits frame "abs_path" maxFieldBytes "frame.abs_path"
  let function ← optionalString limits frame "function" maxFieldBytes "frame.function"
  let module ← optionalString limits frame "module" maxFieldBytes "frame.module"
  let package ← optionalString limits frame "package" maxFieldBytes "frame.package"
  let instructionAddress ←
    optionalString limits frame "instruction_addr" maxFieldBytes "frame.instruction_addr"
  let symbolAddress ← optionalString limits frame "symbol_addr" maxFieldBytes "frame.symbol_addr"
  let contextLine ← optionalString limits frame "context_line" maxContextLineBytes "frame.context_line"
  let preContext ←
    normalizeStringArray limits (frame.lookup "pre_context".toList) 32 maxContextLineBytes "frame.pre_context"
  let postContext ←
    normalizeStringArray limits (frame.lookup "post_context".toList) 32 maxContextLineBytes
      "frame.post_context"
  let vars ← normalizeNamedObject limits (frame.lookup "vars".toList) "frame.vars"
  let unknown ← normalizeUnknown limits frame
    ["filename", "abs_path", "function", "module", "package", "instruction_addr", "symbol_addr", "lineno",
      "colno", "in_app", "context_line", "pre_context", "post_context", "vars"] "frame.unknown"
  return {
    filename := filename
    absolutePath := absolutePath
    function := function
    module := module
    package := package
    instructionAddress := instructionAddress
    symbolAddress := symbolAddress
    line := (frame.lookup "lineno".toList).bind nonnegativeInteger
    column := (frame.lookup "colno".toList).bind nonnegativeInteger
    inApp := (frame.lookup "in_app".toList).bind JsonValue.asBool
    contextLine := contextLine
    preContext := preContext
    postContext := postContext
    vars := vars
    unknown := unknown }
where
  nonnegativeInteger : JsonValue → Option (BitVec 64)
    | .number value => value.asU64
    | _ => none

/-- The list under a key of an object, or the value itself. -/
def nestedValues (key : String) (value : JsonValue) : JsonValue :=
  (value.asObject.bind (·.lookup key.toList)).getD value

def normalizeStacktrace (value : Option JsonValue) (path : String) : Normalizing (List NormalizedFrame) :=
  match value.map (nestedValues "frames") with
  | none => pure []
  | some (.array values) => do
      diagnosticIf limits (limits.maxFrames < values.length) .collectionTruncated path
      ((values.take limits.maxFrames).filterMap JsonValue.asObject).mapM (normalizeFrame limits)
  | some _ => do
      diagnostic limits .invalidFieldType path
      return []

def normalizeException (exception : JsonFields) : Normalizing NormalizedException := do
  let threadId ← optionalScalar limits exception "thread_id" maxFieldBytes "exception.thread_id"
  let ty ← optionalString limits exception "type" maxFieldBytes "exception.type"
  let value ← optionalString limits exception "value" maxMessageBytes "exception.value"
  let module ← optionalString limits exception "module" maxFieldBytes "exception.module"
  let mechanism ← optionalCanonical limits exception "mechanism" "exception.mechanism"
  let stacktrace ← normalizeStacktrace limits (exception.lookup "stacktrace".toList) "exception.stacktrace"
  let rawStacktrace ←
    normalizeStacktrace limits (exception.lookup "raw_stacktrace".toList) "exception.raw_stacktrace"
  let unknown ← normalizeUnknown limits exception
    ["type", "value", "module", "thread_id", "mechanism", "stacktrace", "raw_stacktrace"] "exception.unknown"
  return {
    ty := ty
    value := value
    module := module
    threadId := threadId
    mechanism := mechanism
    stacktrace := stacktrace
    rawStacktrace := rawStacktrace
    unknown := unknown }

def normalizeExceptions (value : Option JsonValue) : Normalizing (List NormalizedException) :=
  match value.map (nestedValues "values") with
  | none => pure []
  | some (.array values) => do
      diagnosticIf limits (limits.maxExceptions < values.length) .collectionTruncated "exception.values"
      ((values.take limits.maxExceptions).filterMap JsonValue.asObject).mapM (normalizeException limits)
  | some _ => do
      diagnostic limits .invalidFieldType "exception"
      return []

/-! ### Tags and breadcrumbs -/

/-- A text comes before another in the order of its bytes. -/
def textLess : Text → Text → Bool
  | [], [] => false
  | [], _ :: _ => true
  | _ :: _, [] => false
  | c :: rest, d :: other => c < d || (c == d && textLess rest other)

/-- `BTreeMap::insert` on the list of entries. -/
def insertTag (key value : Text) : List (Text × Text) → List (Text × Text)
  | [] => [(key, value)]
  | entry :: entries =>
      if entry.1 = key then (key, value) :: entries
      else if textLess key entry.1 then (key, value) :: entry :: entries
      else entry :: insertTag key value entries

def insertField (tags : List (Text × Text)) (field : Text × JsonValue) : Normalizing (List (Text × Text)) := do
  match ← boundedScalarString limits field.2 maxTagValueBytes "tags" with
  | some value => return insertTag field.1 value tags
  | none => return tags

def insertPair (state : List (Text × Text) × Bool) (value : JsonValue) :
    Normalizing (List (Text × Text) × Bool) :=
  match value with
  | .array (.string key :: .string value :: _) =>
      if key.isEmpty ∨ maxTagKeyBytes < byteLength key ∨ maxTagValueBytes < byteLength value then do
        diagnostic limits .stringTruncated "tags"
        return state
      else return (insertTag key value state.1, state.2 || state.1.any (·.1 = key))
  | _ => pure state

/-- The tags by key, and whether a key of a pair stood twice. -/
def collectTags : JsonValue → Normalizing (List (Text × Text) × Bool)
  | .object fields => do
      let tags ← fields.foldlM (insertField limits) []
      return (tags, false)
  | .array values => values.foldlM (insertPair limits) ([], false)
  | _ => do
      diagnostic limits .invalidFieldType "tags"
      return ([], false)

def keepTag (entry : Text × Text) : Normalizing (Option NormalizedTag) :=
  if entry.1.isEmpty ∨ maxTagKeyBytes < byteLength entry.1 ∨ maxTagValueBytes < byteLength entry.2 then do
    diagnostic limits .stringTruncated "tags"
    return none
  else return some ⟨entry.1, entry.2⟩

def normalizeTags (value : Option JsonValue) : Normalizing (List NormalizedTag) :=
  match value with
  | none => pure []
  | some value => do
      let (tags, duplicate) ← collectTags limits value
      diagnosticIf limits (duplicate = true) .duplicateTag "tags"
      diagnosticIf limits (limits.maxTags < tags.length) .collectionTruncated "tags"
      let kept ← (tags.take limits.maxTags).mapM (keepTag limits)
      return kept.filterMap id

variable (parseTimestamp : JsonValue → Option (Option Timestamp))

def breadcrumbTimestamp (breadcrumb : JsonFields) : Normalizing (Option Timestamp) :=
  match (breadcrumb.lookup "timestamp".toList).bind parseTimestamp with
  | none => pure none
  | some (some timestamp) => pure (some timestamp)
  | some none => do
      diagnostic limits .invalidTimestamp "breadcrumb.timestamp"
      return none

def normalizeBreadcrumb (breadcrumb : JsonFields) : Normalizing NormalizedBreadcrumb := do
  let timestamp ← breadcrumbTimestamp limits parseTimestamp breadcrumb
  let ty ← optionalString limits breadcrumb "type" maxFieldBytes "breadcrumb.type"
  let category ← optionalString limits breadcrumb "category" maxFieldBytes "breadcrumb.category"
  let level ← normalizeLevel limits (breadcrumb.lookup "level".toList) "breadcrumb.level"
  let message ← optionalString limits breadcrumb "message" maxMessageBytes "breadcrumb.message"
  let data ← normalizeNamedObject limits (breadcrumb.lookup "data".toList) "breadcrumb.data"
  let unknown ← normalizeUnknown limits breadcrumb
    ["timestamp", "type", "category", "level", "message", "data"] "breadcrumb.unknown"
  return {
    timestamp := timestamp
    ty := ty
    category := category
    level := level
    message := message
    data := data
    unknown := unknown }

def normalizeBreadcrumbs (value : Option JsonValue) : Normalizing (List NormalizedBreadcrumb) :=
  match value.map (nestedValues "values") with
  | none => pure []
  | some (.array values) => do
      diagnosticIf limits (limits.maxBreadcrumbs < values.length) .collectionTruncated "breadcrumbs"
      ((values.take limits.maxBreadcrumbs).filterMap JsonValue.asObject).mapM
        (normalizeBreadcrumb limits parseTimestamp)
  | some _ => do
      diagnostic limits .invalidFieldType "breadcrumbs"
      return []

/-! ### The event -/

def knownFields : List String :=
  ["event_id", "timestamp", "platform", "level", "logger", "message", "logentry", "transaction", "release",
    "dist", "environment", "fingerprint", "exception", "stacktrace", "tags", "request", "user", "contexts",
    "breadcrumbs"]

/-- A timestamp that cannot be read is replaced by the time of receipt. -/
def occurredAt (root : JsonFields) (receivedAt : Timestamp) : Normalizing Timestamp :=
  match root.lookup "timestamp".toList with
  | none => pure receivedAt
  | some value =>
      match (parseTimestamp value).join with
      | some timestamp => pure timestamp
      | none => do
          diagnostic limits .invalidTimestamp "timestamp"
          return receivedAt

def normalizeBody (root : JsonFields) (receivedAt : Timestamp) : Normalizing NormalizedEventBody := do
  let occurredAt ← occurredAt limits parseTimestamp root receivedAt
  let release ← identityString root "release" maxReleaseBytes
  let dist ← identityString root "dist" maxDistBytes
  let environment ← identityString root "environment" maxEnvironmentBytes
  let platform ← normalizePlatform limits (root.lookup "platform".toList)
  let level ← normalizeLevel limits (root.lookup "level".toList) "level"
  let logger ← optionalString limits root "logger" maxLoggerBytes "logger"
  let message ← normalizeMessage limits root
  let transaction ← optionalString limits root "transaction" maxFieldBytes "transaction"
  let fingerprint ← normalizeStringArray limits (root.lookup "fingerprint".toList) limits.maxFingerprint
    maxFieldBytes "fingerprint"
  let exceptions ← normalizeExceptions limits (root.lookup "exception".toList)
  let stacktrace ← normalizeStacktrace limits (root.lookup "stacktrace".toList) "stacktrace"
  let tags ← normalizeTags limits (root.lookup "tags".toList)
  let request ← normalizeOptionalObject limits (root.lookup "request".toList) "request"
  let user ← normalizeOptionalObject limits (root.lookup "user".toList) "user"
  let contexts ← normalizeNamedObject limits (root.lookup "contexts".toList) "contexts"
  let breadcrumbs ← normalizeBreadcrumbs limits parseTimestamp (root.lookup "breadcrumbs".toList)
  let unknown ← normalizeUnknown limits root knownFields "unknown"
  return {
    occurredAt := occurredAt
    platform := platform
    level := level.getD .error
    logger := logger
    message := message
    transaction := transaction
    release := release
    dist := dist
    environment := environment
    fingerprint := fingerprint
    exceptions := exceptions
    stacktrace := stacktrace
    tags := tags
    request := request
    user := user
    contexts := contexts
    breadcrumbs := breadcrumbs
    unknown := unknown }

variable (decode : List (BitVec 8) → Option JsonValue)

def normalize (event : AcceptedEvent) : Except NormalizationError NormalizedEvent :=
  match decode event.payload.bytes with
  | none => .error .invalidJson
  | some (.object root) => do
      let (body, context) ← (normalizeBody limits parseTimestamp root event.receivedAt).run ⟨0, []⟩
      return ⟨event.projectId, event.eventId, event.receivedAt, event.policyRevision, body,
        context.diagnostics⟩
  | some _ => .error .invalidRoot

end EventNormalizer

end MetricBackend
