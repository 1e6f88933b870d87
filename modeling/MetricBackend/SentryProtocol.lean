import MetricBackend.LibFallible
import MetricBackend.LibText
import MetricBackend.DomainValues

/-! The envelope parser of `sentry-protocol/src/lib.rs`. A slice of the body is given by its bounds. The
decoders of the `serde_json` and `url` packages are parameters. `usize` has 64 bits. -/

namespace MetricBackend

abbrev Bytes : Type := List (BitVec 8)

/-- `b'\n'`. -/
def newline : BitVec 8 := 10

/-- `&body[start..stop]`. -/
def slice (body : Bytes) (start stop : Nat) : Bytes := (body.drop start).take (stop - start)

def u64Max : Nat := 2 ^ 64 - 1

/-- `u64::saturating_add`. -/
def saturatingAdd (left right : Nat) : Nat := min (left + right) u64Max

inductive ProtocolErrorKind where
  | invalid
  | tooLarge
deriving DecidableEq, Repr

structure ProtocolError where
  kind : ProtocolErrorKind
  code : String
deriving DecidableEq, Repr

namespace ProtocolError

def ofInvalid (code : String) : ProtocolError := ⟨.invalid, code⟩

def ofTooLarge (code : String) : ProtocolError := ⟨.tooLarge, code⟩

end ProtocolError

/-! ### Identifiers in texts -/

/-- `parse_hex_identifier`: sixteen bytes in thirty-two hexadecimal digits. -/
def parseHexIdentifier (value : Text) : Option (BitVec 128) :=
  if byteLength value = 32 then (hexadecimal value).map (BitVec.ofNat 128) else none

structure DsnKey where
  asBytes : BitVec 128
deriving DecidableEq

/-- `parse_ingest_project_id`: a positive 64-bit number in at most twenty digits. -/
def parseIngestProjectId (value : Text) : Option Nat :=
  if value = [] ∨ 20 < byteLength value then none
  else (decimal value).filter fun id => 0 < id ∧ id ≤ u64Max

structure DsnAuth where
  key : DsnKey
  projectId : Nat
deriving DecidableEq

/-! ### The envelope -/

structure EnvelopeLimits where
  maxItems : Nat
  maxEventBytes : Nat
  maxReplayBytes : Nat

structure AttachmentLimits where
  maxCount : Nat
  maxItemBytes : Nat
  maxTotalBytes : Nat

structure RawEvent where
  headerEventId : Option EventId
  bytes : Bytes
deriving DecidableEq

inductive RawSignalKind where
  | log
  | transaction
  | span
  | session
deriving DecidableEq, Repr

structure RawSignal where
  kind : RawSignalKind
  bytes : Bytes
deriving DecidableEq

structure RawMetricContainer where
  itemCount : Nat
  bytes : Bytes
deriving DecidableEq

structure RawReplay where
  event : Bytes
  recording : Bytes
deriving DecidableEq

structure RawCheckIn where
  bytes : Bytes
deriving DecidableEq

structure RawAttachment where
  position : Nat
  filename : Text
  contentType : Text
  attachmentType : Text
  bytes : Bytes
deriving DecidableEq

inductive DisabledCategory where
  | transaction
  | session
  | profile
  | replay
  | checkIn
  | span
  | statsd
  | attachment
  | otherKnown
deriving DecidableEq, Repr

structure DiscardedItem where
  category : Option DisabledCategory
  reason : String
deriving DecidableEq

structure ParsedEnvelope where
  eventId : Option EventId
  dsn : Option DsnAuth
  primary : Option RawEvent
  signals : List RawSignal
  metrics : List RawMetricContainer
  replays : List RawReplay
  checkIns : List RawCheckIn
  attachments : List RawAttachment
  discarded : List DiscardedItem
  clientReportQuantity : Nat
deriving DecidableEq

structure WireEnvelopeHeader where
  eventId : Option Text
  dsn : Option Text
deriving DecidableEq

structure WireItemHeader where
  kind : Option Text
  length : Option (BitVec 64)
  eventId : Option Text
  filename : Option Text
  contentType : Option Text
  attachmentType : Option Text
  itemCount : Option (BitVec 32)
deriving DecidableEq

structure WireClientReportEntry where
  reason : Text
  category : Text
  quantity : BitVec 64

structure WireClientReport where
  discardedEvents : List WireClientReportEntry

/-- What `parse_dsn` asks of a parsed URL. -/
structure ParsedUrl where
  scheme : Text
  username : Text
  lastSegment : Option Text

/-- The decoders of other packages: `serde_json::from_slice` at three types and `Url::parse`. -/
structure Decoders where
  envelopeHeader : Bytes → Option WireEnvelopeHeader
  itemHeader : Bytes → Option WireItemHeader
  clientReport : Bytes → Option WireClientReport
  url : Text → Option ParsedUrl

inductive ItemClass where
  | event
  | signal (kind : RawSignalKind)
  | metric
  | replayEvent
  | replayRecording
  | checkIn
  | clientReport
  | attachment
  | disabled (category : DisabledCategory)
  | unknown
deriving DecidableEq

namespace SentryProtocol

def maxHeaderBytes : Nat := 8 * 1024
def maxAuthBytes : Nat := 2 * 1024
def maxClientReportEntries : Nat := 100
def maxClientReportTextBytes : Nat := 64

def classifyItem (kind : Text) : ItemClass :=
  if kind = "event".toList ∨ kind = "feedback".toList then .event
  else if kind = "client_report".toList then .clientReport
  else if kind = "log".toList then .signal .log
  else if kind = "transaction".toList then .signal .transaction
  else if kind = "session".toList then .signal .session
  else if kind = "sessions".toList then .disabled .session
  else if kind = "profile".toList ∨ kind = "profile_chunk".toList then .disabled .profile
  else if kind = "replay_event".toList then .replayEvent
  else if kind = "replay_recording".toList then .replayRecording
  else if kind = "check_in".toList then .checkIn
  else if kind = "span".toList then .signal .span
  else if kind = "trace_metric".toList then .metric
  else if kind = "statsd".toList ∨ kind = "metric_buckets".toList then .disabled .statsd
  else if kind = "attachment".toList then .attachment
  else if kind = "view_hierarchy".toList then .disabled .attachment
  else if kind = "form_data".toList ∨ kind = "user_report".toList ∨ kind = "security".toList then
    .disabled .otherKnown
  else .unknown

/-- The compact form of an event identifier, or the hyphenated one. -/
def parseWireEventId (value : Text) : Except ProtocolError EventId :=
  match parseHexIdentifier value with
  | some bytes => .ok ⟨bytes⟩
  | none =>
      if isUuid value then
        match parseHexIdentifier (value.filter (· ≠ '-')) with
        | some bytes => .ok ⟨bytes⟩
        | none => .error (.ofInvalid "invalid_event_id")
      else .error (.ofInvalid "invalid_event_id")

def parseOptionalEventId : Option Text → Except ProtocolError (Option EventId)
  | none => .ok none
  | some value => (parseWireEventId value).map some

def boundedMetadata (value : Text) (code : String) : Except ProtocolError Text :=
  if 256 < byteLength value ∨ value.any isControl then .error (.ofTooLarge code) else .ok value

def orInvalid {α : Type} (code : String) : Option α → Except ProtocolError α
  | some value => .ok value
  | none => .error (.ofInvalid code)

variable (decoders : Decoders)

def parseDsn (value : Text) : Except ProtocolError DsnAuth := do
  failIf (maxAuthBytes < byteLength value) (.ofInvalid "dsn_too_large")
  let dsn ← orInvalid "invalid_dsn" (decoders.url value)
  failIf (¬ (dsn.scheme = "http".toList ∨ dsn.scheme = "https".toList)) (.ofInvalid "invalid_dsn_scheme")
  let key ← orInvalid "invalid_dsn_key" (parseHexIdentifier dsn.username)
  let project ← orInvalid "missing_dsn_project" dsn.lastSegment
  let projectId ← orInvalid "invalid_dsn_project" (parseIngestProjectId project)
  return ⟨⟨key⟩, projectId⟩

def parseOptionalDsn : Option Text → Except ProtocolError (Option DsnAuth)
  | none => .ok none
  | some value => (parseDsn decoders value).map some

def addEntry (quantity : Nat) (entry : WireClientReportEntry) : Except ProtocolError Nat := do
  failIf (maxClientReportTextBytes < byteLength entry.reason
    ∨ maxClientReportTextBytes < byteLength entry.category) (.ofTooLarge "client_report_field_too_large")
  return saturatingAdd quantity entry.quantity.toNat

def parseClientReport (payload : Bytes) : Except ProtocolError Nat := do
  let report ← orInvalid "invalid_client_report" (decoders.clientReport payload)
  failIf (maxClientReportEntries < report.discardedEvents.length) (.ofTooLarge "client_report_too_large")
  report.discardedEvents.foldlM addEntry 0

/-! ### Framing -/

/-- The line from `start`: its bytes and the position after its newline. -/
def lineAt (body : Bytes) (start : Nat) : Except ProtocolError (Bytes × Nat) := do
  failIf (body.length < start) (.ofInvalid "invalid_framing")
  let position ← orInvalid "missing_header_newline" ((body.drop start).findIdx? (· = newline))
  failIf (maxHeaderBytes < position) (.ofTooLarge "header_too_large")
  return (slice body start (start + position), start + position + 1)

/-- The end of a payload with a declared length, and the position after its separator. -/
def declaredPayload (body : Bytes) (start length : Nat) : Except ProtocolError (Nat × Nat) := do
  failIf (u64Max < start + length) (.ofTooLarge "item_length_overflow")
  let stop := start + length
  failIf (body.length < stop) (.ofInvalid "truncated_item")
  match body[stop]? with
  | none => return (stop, stop)
  | some byte =>
      failIf (byte ≠ newline) (.ofInvalid "missing_item_separator")
      return (stop, stop + 1)

/-- The end of a payload that runs to the next newline or to the end, and the position after it. -/
def lengthlessPayload (body : Bytes) (start maxBytes : Nat) : Except ProtocolError (Nat × Nat) := do
  failIf (body.length < start) (.ofInvalid "truncated_item")
  let remaining := body.drop start
  let bounded := min remaining.length (saturatingAdd maxBytes 1)
  match (remaining.take bounded).findIdx? (· = newline) with
  | some position => return (start + position, start + position + 1)
  | none =>
      failIf (maxBytes < remaining.length) (.ofTooLarge "lengthless_item_too_large")
      return (body.length, body.length)

def payloadAt (limits : EnvelopeLimits) (body : Bytes) (start : Nat) :
    Option (BitVec 64) → Except ProtocolError (Nat × Nat)
  | some length => declaredPayload body start length.toNat
  | none => lengthlessPayload body start limits.maxEventBytes

/-- One item of the body: where its header line starts, its decoded header, the bounds of its payload
and the position after it. -/
structure Frame where
  start : Nat
  header : WireItemHeader
  payloadStart : Nat
  payloadEnd : Nat
  next : Nat
deriving DecidableEq

def Frame.payload (frame : Frame) (body : Bytes) : Bytes := slice body frame.payloadStart frame.payloadEnd

def frameAt (limits : EnvelopeLimits) (body : Bytes) (cursor : Nat) : Except ProtocolError Frame := do
  let (headerBytes, payloadStart) ← lineAt body cursor
  let header ← orInvalid "invalid_item_header" (decoders.itemHeader headerBytes)
  let (payloadEnd, next) ← payloadAt limits body payloadStart header.length
  return ⟨cursor, header, payloadStart, payloadEnd, next⟩

/-! ### Lanes -/

/-- The locals of the item loop. -/
structure Lanes where
  primary : Option RawEvent
  signals : List RawSignal
  metrics : List RawMetricContainer
  replayEvents : List Bytes
  replayRecordings : List Bytes
  checkIns : List RawCheckIn
  attachments : List RawAttachment
  attachmentBytes : Nat
  discarded : List DiscardedItem
  clientReportQuantity : Nat
deriving DecidableEq

def Lanes.empty : Lanes where
  primary := none
  signals := []
  metrics := []
  replayEvents := []
  replayRecordings := []
  checkIns := []
  attachments := []
  attachmentBytes := 0
  discarded := []
  clientReportQuantity := 0

def metricContentType : Text := "application/vnd.sentry.items.trace-metric+json".toList

variable (limits : EnvelopeLimits) (attachmentLimits : AttachmentLimits)

/-- The attachment that an item header and a payload make. -/
def rawAttachment (itemCount : Nat) (header : WireItemHeader) (payload : Bytes) :
    Except ProtocolError RawAttachment := do
  failIf (2 ^ 32 ≤ itemCount) (.ofTooLarge "too_many_items")
  let filename ← boundedMetadata (header.filename.getD "attachment".toList)
    "attachment_filename_too_large"
  let contentType ← boundedMetadata (header.contentType.getD "application/octet-stream".toList)
    "attachment_content_type_too_large"
  let attachmentType ← boundedMetadata (header.attachmentType.getD "event.attachment".toList)
    "attachment_type_too_large"
  return ⟨itemCount, filename, contentType, attachmentType, payload⟩

/-- The match on the class of an item. -/
def consume (lanes : Lanes) (itemCount : Nat) (header : WireItemHeader) (payload : Bytes) :
    Except ProtocolError Lanes :=
  let length := payload.length
  match classifyItem (header.kind.getD "event".toList) with
  | .event => do
      failIf (limits.maxEventBytes < length) (.ofTooLarge "event_too_large")
      failIf (lanes.primary.isSome = true) (.ofInvalid "multiple_primary_events")
      let headerEventId ← parseOptionalEventId header.eventId
      return { lanes with primary := some ⟨headerEventId, payload⟩ }
  | .clientReport => do
      let quantity ← parseClientReport decoders payload
      return { lanes with clientReportQuantity := saturatingAdd lanes.clientReportQuantity quantity }
  | .attachment =>
      if attachmentLimits.maxCount = 0 then
        return { lanes with
          discarded := lanes.discarded ++ [⟨some .attachment, "attachment_policy_disabled"⟩] }
      else do
        failIf (attachmentLimits.maxCount ≤ lanes.attachments.length) (.ofTooLarge "too_many_attachments")
        failIf (attachmentLimits.maxItemBytes < length) (.ofTooLarge "attachment_too_large")
        let attachmentBytes := lanes.attachmentBytes + length
        failIf (u64Max < attachmentBytes) (.ofTooLarge "attachments_too_large")
        failIf (attachmentLimits.maxTotalBytes < attachmentBytes) (.ofTooLarge "attachments_too_large")
        let attachment ← rawAttachment itemCount header payload
        return { lanes with
          attachments := lanes.attachments ++ [attachment]
          attachmentBytes := attachmentBytes }
  | .signal kind => do
      failIf (limits.maxEventBytes < length) (.ofTooLarge "signal_too_large")
      return { lanes with signals := lanes.signals ++ [⟨kind, payload⟩] }
  | .metric => do
      failIf (limits.maxEventBytes < length) (.ofTooLarge "metric_container_too_large")
      failIf (header.contentType ≠ some metricContentType) (.ofInvalid "invalid_metric_content_type")
      let itemCount ← orInvalid "invalid_metric_item_count"
        ((header.itemCount.map BitVec.toNat).filter (0 < ·))
      return { lanes with metrics := lanes.metrics ++ [⟨itemCount, payload⟩] }
  | .replayEvent => do
      failIf (limits.maxEventBytes < length) (.ofTooLarge "replay_event_too_large")
      return { lanes with replayEvents := lanes.replayEvents ++ [payload] }
  | .replayRecording => do
      failIf (limits.maxReplayBytes < length) (.ofTooLarge "replay_recording_too_large")
      return { lanes with replayRecordings := lanes.replayRecordings ++ [payload] }
  | .checkIn => do
      failIf (limits.maxEventBytes < length) (.ofTooLarge "check_in_too_large")
      return { lanes with checkIns := lanes.checkIns ++ [⟨payload⟩] }
  | .disabled category =>
      return { lanes with discarded := lanes.discarded ++ [⟨some category, "feature_disabled"⟩] }
  | .unknown =>
      return { lanes with discarded := lanes.discarded ++ [⟨none, "unknown_item_type"⟩] }

/-- The item loop. A pass reads a header line, so there are at most as many passes as bytes. -/
def parseItems (body : Bytes) : Nat → Nat → Nat → Lanes → Except ProtocolError Lanes
  | 0, _, _, lanes => .ok lanes
  | passes + 1, cursor, itemCount, lanes =>
      if cursor < body.length then do
        failIf (limits.maxItems < itemCount + 1) (.ofTooLarge "too_many_items")
        let frame ← frameAt decoders limits body cursor
        let next ← consume decoders limits attachmentLimits lanes (itemCount + 1) frame.header
          (frame.payload body)
        parseItems body passes frame.next (itemCount + 1) next
      else .ok lanes

/-- Nothing was read. Attachments do not count. -/
def Lanes.isEmpty (lanes : Lanes) : Bool :=
  lanes.primary.isNone && lanes.signals.isEmpty && lanes.metrics.isEmpty && lanes.replayEvents.isEmpty
    && lanes.replayRecordings.isEmpty && lanes.checkIns.isEmpty && lanes.discarded.isEmpty
    && lanes.clientReportQuantity == 0

/-- The checks and the result after the loop. -/
def finishEnvelope (eventId : Option EventId) (dsn : Option DsnAuth) (lanes : Lanes) :
    Except ProtocolError ParsedEnvelope := do
  failIf (lanes.isEmpty = true) (.ofInvalid "empty_envelope")
  failIf (lanes.replayEvents.length ≠ lanes.replayRecordings.length) (.ofInvalid "incomplete_replay_pair")
  return {
    eventId := eventId
    dsn := dsn
    primary := lanes.primary
    signals := lanes.signals
    metrics := lanes.metrics
    replays := lanes.replayEvents.zipWith RawReplay.mk lanes.replayRecordings
    checkIns := lanes.checkIns
    attachments := lanes.attachments
    discarded := lanes.discarded
    clientReportQuantity := lanes.clientReportQuantity }

def parseEnvelopeWithAttachments (body : Bytes) : Except ProtocolError ParsedEnvelope := do
  let (headerBytes, cursor) ← lineAt body 0
  let header ← orInvalid "invalid_envelope_header" (decoders.envelopeHeader headerBytes)
  let eventId ← parseOptionalEventId header.eventId
  let dsn ← parseOptionalDsn decoders header.dsn
  let lanes ← parseItems decoders limits attachmentLimits body body.length cursor 0 .empty
  finishEnvelope eventId dsn lanes

end SentryProtocol

end MetricBackend
