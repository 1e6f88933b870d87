import MetricBackend.DomainValues

/-! The normalized Error Event of `domain/src/event.rs` and the symbolication result of
`domain/src/symbolication.rs`. A `BTreeMap` is the list of its entries in key order. -/

namespace MetricBackend

/-- A canonical JSON value. A number keeps its spelling. -/
inductive CanonicalValue where
  | null
  | bool (value : Bool)
  | number (spelling : Text)
  | string (value : Text)
  | array (items : List CanonicalValue)
  | object (fields : List (Text × CanonicalValue))

abbrev CanonicalFields : Type := List (Text × CanonicalValue)

inductive EventLevel where
  | debug
  | info
  | warning
  | error
  | fatal
deriving DecidableEq, Repr

inductive EventPlatform where
  | other
  | javaScript
  | node
  | python
  | java
  | dotNet
  | go
  | rust
  | php
  | ruby
  | cocoa
  | native
  | dart
  | custom (value : Text)
deriving DecidableEq

structure NormalizedFrame where
  filename : Option Text
  absolutePath : Option Text
  function : Option Text
  module : Option Text
  package : Option Text
  instructionAddress : Option Text
  symbolAddress : Option Text
  line : Option (BitVec 64)
  column : Option (BitVec 64)
  inApp : Option Bool
  contextLine : Option Text
  preContext : List Text
  postContext : List Text
  vars : CanonicalFields
  unknown : CanonicalFields

structure NormalizedException where
  ty : Option Text
  value : Option Text
  module : Option Text
  threadId : Option Text
  mechanism : Option CanonicalValue
  stacktrace : List NormalizedFrame
  rawStacktrace : List NormalizedFrame
  unknown : CanonicalFields

structure NormalizedTag where
  key : Text
  value : Text
deriving DecidableEq

structure NormalizedBreadcrumb where
  timestamp : Option Timestamp
  ty : Option Text
  category : Option Text
  level : Option EventLevel
  message : Option Text
  data : CanonicalFields
  unknown : CanonicalFields

structure NormalizedEventBody where
  occurredAt : Timestamp
  platform : EventPlatform
  level : EventLevel
  logger : Option Text
  message : Option Text
  transaction : Option Text
  release : Option Text
  dist : Option Text
  environment : Option Text
  fingerprint : List Text
  exceptions : List NormalizedException
  stacktrace : List NormalizedFrame
  tags : List NormalizedTag
  request : Option CanonicalValue
  user : Option CanonicalValue
  contexts : CanonicalFields
  breadcrumbs : List NormalizedBreadcrumb
  unknown : CanonicalFields

inductive NormalizationDiagnosticCode where
  | invalidTimestamp
  | invalidFieldType
  | invalidLevel
  | collectionTruncated
  | stringTruncated
  | duplicateTag
  | unknownFieldsTruncated
deriving DecidableEq, Repr

structure NormalizationDiagnostic where
  code : NormalizationDiagnosticCode
  path : String
deriving DecidableEq

structure NormalizedEvent where
  projectId : ProjectId
  eventId : EventId
  receivedAt : Timestamp
  policyRevision : BitVec 64
  body : NormalizedEventBody
  diagnostics : List NormalizationDiagnostic

namespace EventLevel

def asStr : EventLevel → Text
  | .debug => "debug".toList
  | .info => "info".toList
  | .warning => "warning".toList
  | .error => "error".toList
  | .fatal => "fatal".toList

end EventLevel

namespace EventPlatform

def asStr : EventPlatform → Text
  | .other => "other".toList
  | .javaScript => "javascript".toList
  | .node => "node".toList
  | .python => "python".toList
  | .java => "java".toList
  | .dotNet => "csharp".toList
  | .go => "go".toList
  | .rust => "rust".toList
  | .php => "php".toList
  | .ruby => "ruby".toList
  | .cocoa => "cocoa".toList
  | .native => "native".toList
  | .dart => "dart".toList
  | .custom value => value

end EventPlatform

def NormalizationDiagnosticCode.asStr : NormalizationDiagnosticCode → Text
  | .invalidTimestamp => "invalid_timestamp".toList
  | .invalidFieldType => "invalid_field_type".toList
  | .invalidLevel => "invalid_level".toList
  | .collectionTruncated => "collection_truncated".toList
  | .stringTruncated => "string_truncated".toList
  | .duplicateTag => "duplicate_tag".toList
  | .unknownFieldsTruncated => "unknown_fields_truncated".toList

/-! ### Symbolication results -/

inductive SymbolicationKind where
  | notRequired
  | native
  | javaScript
deriving DecidableEq, Repr

def SymbolicationKind.asStr : SymbolicationKind → Text
  | .notRequired => "not_required".toList
  | .native => "native".toList
  | .javaScript => "javascript".toList

inductive RawTraceOrigin where
  | event
  | exception (index : Nat)
  | exceptionRaw (index : Nat)
deriving DecidableEq

structure SymbolicatedFrame where
  originalIndex : Nat
  function : Option Text
  filename : Option Text
  module : Option Text
  line : Option (BitVec 64)
  column : Option (BitVec 64)
  contextLine : Option Text
  preContext : List Text
  postContext : List Text

structure SymbolicatedStacktrace where
  origin : RawTraceOrigin
  frames : List SymbolicatedFrame

inductive SymbolicationStatus where
  | notRequired
  | complete
  | partialResult
  | missing
  | malformed
  | timeout
  | unavailable
  | cancelled
deriving DecidableEq, Repr

def SymbolicationStatus.asStr : SymbolicationStatus → Text
  | .notRequired => "not_required".toList
  | .complete => "complete".toList
  | .partialResult => "partial".toList
  | .missing => "missing".toList
  | .malformed => "malformed".toList
  | .timeout => "timeout".toList
  | .unavailable => "unavailable".toList
  | .cancelled => "cancelled".toList

inductive SymbolicationDisposition where
  | continue
  | retryable
  | finalizeRaw
deriving DecidableEq, Repr

def SymbolicationDisposition.asStr : SymbolicationDisposition → Text
  | .continue => "continue".toList
  | .retryable => "retryable".toList
  | .finalizeRaw => "finalize_raw".toList

inductive SymbolicationDiagnosticCode where
  | backendPartial
  | missingDebugFile
  | malformedDebugFile
  | malformedBackendResponse
  | requestLimitExceeded
  | backendTimeout
  | backendUnavailable
  | cancelled
  | baselineBackendDisabled
deriving DecidableEq, Repr

def SymbolicationDiagnosticCode.asStr : SymbolicationDiagnosticCode → Text
  | .backendPartial => "backend_partial".toList
  | .missingDebugFile => "missing_debug_file".toList
  | .malformedDebugFile => "malformed_debug_file".toList
  | .malformedBackendResponse => "malformed_backend_response".toList
  | .requestLimitExceeded => "request_limit_exceeded".toList
  | .backendTimeout => "backend_timeout".toList
  | .backendUnavailable => "backend_unavailable".toList
  | .cancelled => "cancelled".toList
  | .baselineBackendDisabled => "baseline_backend_disabled".toList

structure SymbolicationResult where
  kind : SymbolicationKind
  status : SymbolicationStatus
  disposition : SymbolicationDisposition
  derived : List SymbolicatedStacktrace
  missingDebugIds : List Text
  diagnostics : List SymbolicationDiagnosticCode

end MetricBackend
