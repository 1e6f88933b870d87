import MetricBackend.EventPayloads
import MetricBackend.CatalogLinks
import MetricBackend.SentryProtocol

/-! The reader of an archived Event in `postgres/src/archive.rs`: what it asks of the stored body. The compression is
a parameter. -/

namespace MetricBackend

inductive ArchiveStoreError where
  | invalidData
  | conflict
  | unavailable
deriving DecidableEq, Repr

structure ArchiveEvent where
  key : EventKey
  projectId : ProjectId
  receivedAt : Timestamp
  occurredAt : Timestamp
  issueId : Option IssueId
  canonicalPayload : List (BitVec 8)
deriving DecidableEq

namespace PostgresArchive

open PostgresFinalization

/-- The bytes that a frame holds, when they are no more than a maximum. -/
abbrev Decompressor : Type := Nat → List (BitVec 8) → Option (List (BitVec 8))

def maxEvent : Nat := 4 * 1024 * 1024

section Sources

variable (json : JsonCodec) (decompress : Decompressor) (codec : EventCodecConfig)

/-- The bytes of a stored body, before they are read. -/
def bodyBytes (maximum : Nat) : List (BitVec 8) → Option (List (BitVec 8))
  | 1 :: 0 :: bytes => if bytes.length ≤ maximum then some bytes else none
  | 1 :: 1 :: bytes => decompress maximum bytes
  | _ => none

/-- `codec::decode_json`: the bytes are those that their value is printed as. -/
def decodeJson (maximum : Nat) (body : List (BitVec 8)) : Option (List (BitVec 8)) := do
  let bytes ← bodyBytes decompress maximum body
  let value ← json.fromSlice bytes
  if json.toVec value = bytes then some bytes else none

/-- `json.get("event_id")`, read as an identifier. -/
def eventIdOf (value : JsonValue) : Option EventId := do
  let fields ← value.asObject
  let field ← fields.lookup "event_id".toList
  let text ← field.asStr
  return ⟨← parseHexIdentifier text⟩

def orInvalidData {α : Type} : Option α → Except ArchiveStoreError α
  | some value => .ok value
  | none => .error .invalidData

/-- `decode_source` for `ArchiveKind::Event`. A body that is too long is read as `NULL`. -/
def decodeSource (row : EventRow) : Except ArchiveStoreError ArchiveEvent := do
  failIf (min codec.maxEncodedRowBytes (2 * maxEvent + 2) < row.body.length) .invalidData
  let payload ← orInvalidData (decodeJson json decompress (min codec.maxDecodedBodyBytes maxEvent) row.body)
  let value ← orInvalidData (json.fromSlice payload)
  failIf (eventIdOf value ≠ some row.eventId) .invalidData
  return {
    key := row.key
    projectId := row.projectId
    receivedAt := row.receivedAt
    occurredAt := (row.columns.map (·.occurredAt)).getD row.receivedAt
    issueId := row.columns.map (·.issueId)
    canonicalPayload := payload }

end Sources

end PostgresArchive

end MetricBackend
