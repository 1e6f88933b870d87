import MetricBackend.EventNormalizer
import MetricBackend.LibBytes
import MetricBackend.LibDoubles
import MetricBackend.LibTable
import Mathlib.Algebra.BigOperators.Fin
import Mathlib.Data.Int.Log
import Mathlib.Data.List.Lex
import Mathlib.Data.Prod.Lex
import Mathlib.Data.Rat.Floor

/-! Application metrics of `domain/src/metrics.rs`, and the visitor of `application/src/ingest.rs` that folds the items
of an envelope into a batch. A finite `f64` is read as the number that it is, and the sums of an aggregate are exact. -/

namespace MetricBackend

inductive MetricKind where
  | counter
  | gauge
  | distribution
deriving DecidableEq, Repr

def MetricKind.asStr : MetricKind → Text
  | counter => "counter".toList
  | gauge => "gauge".toList
  | distribution => "distribution".toList

structure MetricSeries where
  projectId : ProjectId
  name : Text
  kind : MetricKind
  unit : Text
  tags : Table Text Text
deriving DecidableEq

namespace MetricSeries

/-- What is hashed of a series. -/
def idInput (self : MetricSeries) : List (BitVec 8) :=
  utf8Bytes "application-metric-series/v1".toList ++ bigEndian 4 self.projectId.get ++ utf8Bytes self.name ++ [0]
    ++ utf8Bytes self.kind.asStr ++ [0] ++ utf8Bytes self.unit
    ++ self.tags.toList.flatMap fun tag => [0] ++ utf8Bytes tag.1 ++ [0] ++ utf8Bytes tag.2

def id (blake3 : List (BitVec 8) → BitVec 256) (self : MetricSeries) : BitVec 128 :=
  (blake3 self.idInput).extractLsb' 128 128

end MetricSeries

def metricSketchBins : Nat := 64

/-- A sum of `u64` counters that saturates. -/
def saturatingCount (left right : Nat) : Nat := min (left + right) (2 ^ 64 - 1)

/-- A sum of `u32` counters that saturates. -/
def saturatingBin (left right : Nat) : Nat := min (left + right) (2 ^ 32 - 1)

inductive MetricAggregate where
  | counter (sum : ℚ) (count : Nat)
  | gauge (last min max sum : ℚ) (count : Nat)
  | distribution (min max sum : ℚ) (count : Nat) (bins : Fin metricSketchBins → Nat)
deriving DecidableEq

def sketchBin (value : ℚ) : Fin metricSketchBins :=
  if value = 0 then ⟨31, by decide⟩
  else
    let magnitude := max (-30) (min (Int.log 2 |value|) 31)
    ⟨(magnitude + 31).toNat, by rw [metricSketchBins]; omega⟩

namespace MetricAggregate

def fromMeasurement (kind : MetricKind) (value : ℚ) : MetricAggregate :=
  match kind with
  | .counter => .counter value 1
  | .gauge => .gauge value value value value 1
  | .distribution => .distribution value value value 1 (Pi.single (sketchBin value) 1)

/-- `merge`: nothing where the kinds differ, which leaves the aggregate as it is. -/
def merge : MetricAggregate → MetricAggregate → Option MetricAggregate
  | counter sum count, counter otherSum otherCount => some (.counter (sum + otherSum) (saturatingCount count otherCount))
  | gauge _ min max sum count, gauge otherLast otherMin otherMax otherSum otherCount =>
      some (.gauge otherLast (Min.min min otherMin) (Max.max max otherMax) (sum + otherSum)
        (saturatingCount count otherCount))
  | distribution min max sum count bins, distribution otherMin otherMax otherSum otherCount otherBins =>
      some (.distribution (Min.min min otherMin) (Max.max max otherMax) (sum + otherSum) (saturatingCount count otherCount)
        fun bin => saturatingBin (bins bin) (otherBins bin))
  | _, _ => none

end MetricAggregate

structure MetricDelta where
  series : MetricSeries
  bucketStart : Timestamp
  bucketWidthSeconds : Nat
  receivedAt : Timestamp
  traceId : Option (BitVec 128)
  aggregate : MetricAggregate

/-- The order of the keys is that of the bytes of the id, then that of the instants. -/
abbrev MetricKey : Type := BitVec 128 ×ₗ Int

instance MetricKey.transCmp : Std.TransCmp (compare : MetricKey → MetricKey → Ordering) := inferInstance

structure MetricDeltaBatch where
  deltas : Table MetricKey MetricDelta
  sourceMeasurements : Nat
  discardedMeasurements : Nat

namespace MetricDeltaBatch

variable (blake3 : List (BitVec 8) → BitVec 256)

/-- `MetricDeltaBatch::default`. -/
def empty : MetricDeltaBatch := ⟨∅, 0, 0⟩

def keyOf (delta : MetricDelta) : MetricKey := toLex (delta.series.id blake3, delta.bucketStart.unixMillis)

def push (self : MetricDeltaBatch) (delta : MetricDelta) : MetricDeltaBatch :=
  match self.deltas[keyOf blake3 delta]? with
  | none => { self with deltas := self.deltas.insert (keyOf blake3 delta) delta }
  | some current =>
      match current.aggregate.merge delta.aggregate with
      | none => self
      | some aggregate =>
          { self with
            deltas := self.deltas.insert (keyOf blake3 delta)
              { current with
                aggregate := aggregate
                receivedAt := delta.receivedAt
                traceId := delta.traceId.or current.traceId } }

def merge (self newer : MetricDeltaBatch) : MetricDeltaBatch :=
  (newer.deltas.toList.map Prod.snd).foldl (push blake3)
    { self with
      discardedMeasurements := saturatingBin self.discardedMeasurements newer.discardedMeasurements
      sourceMeasurements := saturatingBin self.sourceMeasurements newer.sourceMeasurements }

end MetricDeltaBatch

/-! ### Ingest -/

structure MetricIngestConfig where
  bucketWidthSeconds : Nat
  maxTags : Nat
  maxNameBytes : Nat
  maxUnitBytes : Nat
  maxTagKeyBytes : Nat
  maxTagValueBytes : Nat

/-- `MetricIngestConfig::default`. -/
def MetricIngestConfig.defaultValue : MetricIngestConfig where
  bucketWidthSeconds := 60
  maxTags := 16
  maxNameBytes := 200
  maxUnitBytes := 32
  maxTagKeyBytes := 64
  maxTagValueBytes := 128

def boundedMetricText (value : Text) (maximum : Nat) (allowEmpty : Bool) : Option Text :=
  let value := trimMatches isWhitespace value
  if (!allowEmpty && value.isEmpty) || maximum < byteLength value || value.contains '\x00' || value.any isControl then none
  else some value

/-- `TraceId::parse`. -/
def parseTraceId (value : Text) : Option (BitVec 128) :=
  if byteLength value ≠ 32 then none
  else do
    let bytes ← hexDecode value
    let id := BitVec.ofNat 128 (readBigEndian bytes)
    if id = 0 then none else some id

/-- `f64::round`: to the nearest integer, from halves away from zero. -/
def roundAway (value : ℚ) : Int := if 0 ≤ value then ⌊value + 1 / 2⌋ else ⌈value - 1 / 2⌉

/-- An attribute that an SDK adds by itself or that names a user. -/
def ignoredMetricAttribute (key : Text) : Bool :=
  key == "sentry.timestamp.sequence".toList || "user.".toList.isPrefixOf key || "sentry._internal.".toList.isPrefixOf key

def metricTagKey (key : Text) : Text := key.map fun c => if c = '.' || c = '$' then '_' else c

/-- One attribute of a measurement; nothing discards the measurement. -/
def addMetricTag (config : MetricIngestConfig) (tags : Table Text Text) (entry : Text × JsonValue) :
    Option (Table Text Text) :=
  if ignoredMetricAttribute entry.1 then some tags
  else do
    let key := metricTagKey (← boundedMetricText entry.1 config.maxTagKeyBytes false)
    let typed ← entry.2.asObject
    let tag ← match ← typed.lookup "value".toList with
      | .string value => boundedMetricText value config.maxTagValueBytes true
      | .bool value => some (if value then "true".toList else "false".toList)
      | .number value => boundedMetricText value.spelling config.maxTagValueBytes true
      | _ => none
    if tags.contains key || config.maxTags < (tags.insert key tag).size then none
    else some (tags.insert key tag)

def metricTags (config : MetricIngestConfig) (object : JsonFields) : Option (Table Text Text) :=
  match object.lookup "attributes".toList with
  | none => some ∅
  | some attributes => do
      let attributes ← attributes.asObject
      if config.maxTags * 4 < attributes.length then none
      else attributes.foldlM (addMetricTag config) ∅

def metricKind : Text → Option MetricKind := fun value =>
  if value = "counter".toList then some .counter
  else if value = "gauge".toList then some .gauge
  else if value = "distribution".toList then some .distribution
  else none

section Ingest

variable (blake3 : List (BitVec 8) → BitVec 256) (readF64 : JsonNumber → Option ℚ)

/-- `Value::as_f64` where the number is finite; reading a number is `serde_json`'s. -/
def JsonValue.asF64 : JsonValue → Option ℚ
  | .number value => readF64 value
  | _ => none

/-- `timestamp_millis`, which `as` keeps below `i64::MAX`. -/
def metricTimestampMillis (seconds : ℚ) : Option Int :=
  let millis := roundAway (roundDouble (seconds * 1000))
  if millis < -2 ^ 63 || 2 ^ 63 < millis then none else some (min millis (2 ^ 63 - 1))

/-- The start of the bucket that an instant lies in, with the product as `i64` has it in a release build: it wraps
around. -/
def bucketStartMillis (bucketWidthSeconds : Nat) (millis : Int) : Int :=
  let widthMillis : Int := bucketWidthSeconds * 1000
  (millis / widthMillis * widthMillis).bmod (2 ^ 64)

def metricBucketStart (config : MetricIngestConfig) (seconds : ℚ) : Option Timestamp := do
  let millis ← metricTimestampMillis seconds
  (Timestamp.fromUnixMillis (bucketStartMillis config.bucketWidthSeconds millis)).toOption

/-- The trace of a measurement; an id that is not one discards the measurement. -/
def metricTraceId (object : JsonFields) : Option (Option (BitVec 128)) :=
  match (object.lookup "trace_id".toList).bind JsonValue.asStr with
  | none => some none
  | some [] => some none
  | some value => (parseTraceId value).map some

def normalizeMetricMeasurement (projectId : ProjectId) (receivedAt : Timestamp) (config : MetricIngestConfig)
    (value : JsonValue) : Option MetricDelta := do
  let object ← value.asObject
  let bucketStart ← metricBucketStart config (← (← object.lookup "timestamp".toList).asF64 readF64)
  let name ← boundedMetricText (← (← object.lookup "name".toList).asStr) config.maxNameBytes false
  let kind ← metricKind (← (← object.lookup "type".toList).asStr)
  let unit ← boundedMetricText (((object.lookup "unit".toList).bind JsonValue.asStr).getD "none".toList)
    config.maxUnitBytes true
  let measurement ← (← object.lookup "value".toList).asF64 readF64
  let traceId ← metricTraceId object
  let tags ← metricTags config object
  return {
    series := ⟨projectId, name, kind, unit, tags⟩
    bucketStart := bucketStart
    bucketWidthSeconds := config.bucketWidthSeconds
    receivedAt := receivedAt
    traceId := traceId
    aggregate := .fromMeasurement kind measurement }

/-- One element of `MetricItemsVisitor::visit_seq`. -/
def visitMetricItem (projectId : ProjectId) (receivedAt : Timestamp) (config : MetricIngestConfig)
    (batch : MetricDeltaBatch) (value : JsonValue) : MetricDeltaBatch :=
  let counted := { batch with sourceMeasurements := saturatingBin batch.sourceMeasurements 1 }
  match normalizeMetricMeasurement readF64 projectId receivedAt config value with
  | some delta => counted.push blake3 delta
  | none => { counted with discardedMeasurements := saturatingBin counted.discardedMeasurements 1 }

/-- `fold_metric_container` on a container whose items have been read. -/
def foldMetricContainer (projectId : ProjectId) (receivedAt : Timestamp) (config : MetricIngestConfig)
    (items : List JsonValue) : Except Text MetricDeltaBatch :=
  if config.bucketWidthSeconds = 0 ∨ config.maxTags = 0 ∨ config.maxNameBytes = 0 ∨ config.maxUnitBytes = 0
      ∨ config.maxTagKeyBytes = 0 ∨ config.maxTagValueBytes = 0 then
    .error "invalid_metric_configuration".toList
  else .ok (items.foldl (visitMetricItem blake3 readF64 projectId receivedAt config) .empty)

end Ingest

end MetricBackend
