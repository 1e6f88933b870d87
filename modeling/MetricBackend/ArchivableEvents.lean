import MetricBackend.ArchiveSources

/-! Whether a finalized Event can be archived: the normalizer drops the identifier of an Event from its body, and the
reader of the archive asks for it there. -/

namespace MetricBackend

namespace EventNormalizer

variable {limits : NormalizerLimits}

/-- Every key of a canonical object was there before. -/
theorem canonicalizeFields_yields (depth : Nat) (path : String) (count : Nat) (fields : JsonFields) :
    Yields (canonicalizeFields limits depth path count fields) fun result =>
      ∀ entry ∈ result, entry.1 ∈ fields.map Prod.fst := by
  induction fields generalizing count with
  | nil => cases count <;> exact yields_pure nofun
  | cons field fields ih =>
      cases count with
      | zero => exact yields_pure nofun
      | succ count =>
          rw [canonicalizeFields]
          refine yields_andThen fun first => (ih count).bind fun rest hrest => yields_pure ?_
          rw [List.forall_mem_cons]
          exact ⟨List.mem_cons_self, fun entry hentry => List.mem_cons_of_mem _ (hrest entry hentry)⟩

theorem normalizeUnknown_yields (fields : JsonFields) (known : List String) (path : String) :
    Yields (normalizeUnknown limits fields known path) fun unknown =>
      ∀ entry ∈ unknown, entry.1 ∉ known.map String.toList := by
  refine yields_andThen fun _ => ?_
  intro state unknown final hunknown entry hentry
  obtain ⟨field, hfield, hkey⟩ := List.mem_map.mp (canonicalizeFields_yields _ _ _ _ state unknown final hunknown entry
    hentry)
  rw [← hkey]
  simpa using (List.mem_filter.mp hfield).2

theorem normalizeBody_unknown (parseTimestamp : JsonValue → Option (Option Timestamp)) (root : JsonFields)
    (receivedAt : Timestamp) :
    Yields (normalizeBody limits parseTimestamp root receivedAt) fun body =>
      ∀ entry ∈ body.unknown, entry.1 ∉ knownFields.map String.toList := by
  unfold normalizeBody
  refine yields_andThen fun _ => yields_andThen fun _ => yields_andThen fun _ => yields_andThen fun _ =>
    yields_andThen fun _ => yields_andThen fun _ => yields_andThen fun _ => yields_andThen fun _ =>
    yields_andThen fun _ => yields_andThen fun _ => yields_andThen fun _ => yields_andThen fun _ =>
    yields_andThen fun _ => yields_andThen fun _ => yields_andThen fun _ => yields_andThen fun _ =>
    yields_andThen fun _ => ?_
  exact (normalizeUnknown_yields _ _ _).bind fun unknown hunknown => yields_pure hunknown

/-- The fields that have a place of their own are not kept as unknown ones. -/
theorem normalize_unknown {parseTimestamp : JsonValue → Option (Option Timestamp)}
    {decode : List (BitVec 8) → Option JsonValue} {accepted : AcceptedEvent} {event : NormalizedEvent}
    (h : normalize limits parseTimestamp decode accepted = .ok event) :
    ∀ entry ∈ event.body.unknown, entry.1 ∉ knownFields.map String.toList := by
  unfold normalize at h
  split at h
  case h_1 => cases h
  case h_2 root _ =>
    simp only [bind_eq_ok, pure_eq_ok] at h
    obtain ⟨⟨body, context⟩, hbody, rfl⟩ := h
    exact normalizeBody_unknown _ _ _ _ body context hbody
  case h_3 => cases h

theorem bodyFields_eventId (json : JsonCodec) {body : NormalizedEventBody}
    (h : ∀ entry ∈ body.unknown, entry.1 ∉ knownFields.map String.toList) :
    (bodyFields json body).lookup "event_id".toList = none := by
  have hunknown : "event_id".toList ∉
      (body.unknown.map fun entry => (entry.1, some (canonicalToValue json entry.2))).map Prod.fst := by
    rw [List.map_map]
    intro hmem
    obtain ⟨entry, hentry, hkey⟩ := List.mem_map.mp hmem
    have hname : entry.1 = "event_id".toList := hkey
    refine h entry hentry ?_
    rw [hname]
    decide
  have hmembers : "event_id".toList ∉ (bodyMembers json body).map Prod.fst := by
    rw [bodyMembers]
    simp only [List.map_cons, List.map_nil]
    decide
  rw [bodyFields, JsonFields.lookup_insertMembers hunknown, JsonFields.lookup_insertMembers hmembers]
  rfl

end EventNormalizer

namespace EventFinalizer

open EventNormalizer

/-- A payload has no identifier. -/
theorem eventIdOf_processedValue (json : JsonCodec) {event : NormalizedEvent} (symbolication : SymbolicationResult)
    (includeSourceContext : Bool) (h : ∀ entry ∈ event.body.unknown, entry.1 ∉ knownFields.map String.toList) :
    PostgresArchive.eventIdOf (processedValue json event symbolication includeSourceContext) = none := by
  have hne : "event_id".toList ≠ "_metric".toList := by decide
  rw [processedValue, PostgresArchive.eventIdOf, JsonValue.asObject, Option.bind_eq_bind, Option.bind_some,
    JsonFields.lookup_insert_of_ne hne, bodyFields_eventId json h]
  rfl

/-- A request that the pipeline makes of an accepted Event, whatever its symbolication and its grouping. Its payload is
read as the value that it was printed from. -/
def FromPipeline (json : JsonCodec) (blake3 : List (BitVec 8) → BitVec 256) (config : FinalizerConfig)
    (request : FinalizeEvent) : Prop :=
  ∃ limits parseTimestamp decode accepted event symbolication grouping issue,
    normalize limits parseTimestamp decode accepted = .ok event
      ∧ prepare json blake3 config event symbolication grouping issue = .ok request
      ∧ json.fromSlice request.payload = some (chosenPayload json config event symbolication)

theorem FromPipeline.eventIdOf_payload {json : JsonCodec} {blake3 : List (BitVec 8) → BitVec 256}
    {config : FinalizerConfig} {request : FinalizeEvent} (h : FromPipeline json blake3 config request) :
    ∃ value, json.fromSlice request.payload = some value ∧ PostgresArchive.eventIdOf value = none := by
  obtain ⟨limits, parseTimestamp, decode, accepted, event, symbolication, grouping, issue, hnormalized, -, hread⟩ := h
  refine ⟨_, hread, ?_⟩
  rw [chosenPayload]
  split_ifs
  · exact eventIdOf_processedValue json symbolication false (normalize_unknown hnormalized)
  · exact eventIdOf_processedValue json symbolication true (normalize_unknown hnormalized)

end EventFinalizer

namespace PostgresFinalization

variable {env : Environment} {policy : FinalizationPolicy} {tables : FinalizationTables} {batch : List FinalizeEvent}

/-- The body of a prepared Event is the payload of a request, behind the two bytes of its encoding. -/
theorem prepare_body {event : FinalizeEvent} {value : Prepared} (h : prepare env policy event = .ok value) :
    value.body = 1 :: 0 :: event.payload
      ∨ ∃ frame, env.compress env.eventCodec.compressionLevel event.payload = some frame ∧ value.body = 1 :: 1 :: frame := by
  simp only [prepare, bind_eq_ok, failIf_eq_ok, pure_eq_ok] at h
  obtain ⟨-, -, payload, -, -, -, body, hbody, -, hcanonical, expire, -, -, -, rfl⟩ := h
  rw [not_or, not_not] at hcanonical
  simp only [encodeCanonical, bind_eq_ok] at hbody
  obtain ⟨-, -, frame, hframe, hbody⟩ := hbody
  rw [hcanonical.1] at hframe hbody
  split_ifs at hbody
  · refine .inr ⟨frame, ?_, (pure_eq_ok.mp hbody).symm⟩
    cases hcompressed : env.compress env.eventCodec.compressionLevel event.payload with
    | none =>
        rw [hcompressed] at hframe
        cases hframe
    | some other =>
        rw [hcompressed] at hframe
        cases hframe
        rfl
  · exact .inl (pure_eq_ok.mp hbody).symm

/-- Every prepared Event is made of one of the batch. -/
theorem prepareAll_made {prepared : Table EventKey Prepared} (h : prepareAll env policy batch = .ok prepared)
    {key : EventKey} {value : Prepared} (hvalue : prepared[key]? = some value) :
    ∃ event ∈ batch, prepare env policy event = .ok value := by
  refine foldlM_ok_induction (fun prepared : Table EventKey Prepared => ∀ key value, prepared[key]? = some value →
    ∃ event ∈ batch, prepare env policy event = .ok value) batch ∅ prepared h (by simp) ?_ key value hvalue
  intro stored event next hevent hstored hnext key value hvalue
  simp only [bind_eq_ok, failIf_eq_ok, pure_eq_ok] at hnext
  obtain ⟨made, hmade, -, -, rfl⟩ := hnext
  rw [Table.get_insert] at hvalue
  split_ifs at hvalue with hkey
  · obtain rfl := Option.some.inj hvalue
    exact ⟨event, hevent, hmade⟩
  · exact hstored key value hvalue

theorem lockPending_made {prepared : Table EventKey Prepared} {pending : List Prepared} {scopes : Table ProjectId Scope}
    (hprepared : prepareAll env policy batch = .ok prepared) (h : lockPending tables prepared scopes = .ok pending)
    {value : Prepared} (hvalue : value ∈ pending) : ∃ event ∈ batch, prepare env policy event = .ok value := by
  obtain ⟨-, rfl⟩ := (mapM_eq_ok_iff _ _ (fun _ _ => checkRow_eq_ok)).mp h
  obtain ⟨found, hfound, rfl⟩ := List.mem_map.mp hvalue
  obtain ⟨entry, hentry, hpending⟩ := List.mem_filterMap.mp hfound
  obtain ⟨row, -, -, rfl⟩ := pendingRow_eq_some.mp hpending
  exact prepareAll_made hprepared (Table.mem_toList.mp hentry)

/-- A row that a call finalizes is the one that is there, with the columns and the body of a prepared Event. -/
theorem finalizeRows_row {scopes : Table ProjectId Scope} {events : Table EventKey EventRow} {pending : List Prepared}
    (h : AllPending events pending) {key : EventKey} {row : EventRow}
    (hrow : (finalizeRows env scopes policy events pending)[key]? = some row) :
    events[key]? = some row ∨ ∃ value ∈ pending, value.event.key = key ∧ ∃ stored, events[key]? = some stored
      ∧ row = finalizedRow (finalizedColumns env scopes policy value) value.body stored := by
  induction pending generalizing events with
  | nil => exact .inl hrow
  | cons value pending ih =>
      obtain ⟨stored, hstored, hpending, -⟩ := h.rows value List.mem_cons_self
      have hnodup := h.nodup
      rw [List.map_cons, List.nodup_cons] at hnodup
      rw [finalizeRows_cons hstored hpending] at hrow
      obtain hold | ⟨other, hother, hkey, old, hold, hmade⟩ := ih h.tail hrow
      · rw [Table.get_insert] at hold
        split_ifs at hold with hkey
        · obtain rfl := Option.some.inj hold
          exact .inr ⟨value, List.mem_cons_self, hkey, stored, hkey ▸ hstored, rfl⟩
        · exact .inl hold
      · have hne : value.event.key ≠ key := by
          rintro rfl
          exact hnodup.1 (List.mem_map.mpr ⟨other, hother, hkey⟩)
        rw [Table.get_insert_of_ne _ _ hne] at hold
        exact .inr ⟨other, List.mem_cons_of_mem _ hother, hkey, old, hold, hmade⟩

end PostgresFinalization

namespace PostgresArchive

open PostgresFinalization EventFinalizer EventNormalizer

variable {json : JsonCodec} {decompress : Decompressor} {codec : EventCodecConfig}

/-- A row is refused when its body is read as a value without an identifier, or not read at all. -/
theorem decodeSource_refused {row : EventRow} {payload : List (BitVec 8)} {value : JsonValue}
    (hread : json.fromSlice payload = some value) (hvalue : eventIdOf value = none)
    (hbody : ∀ maximum bytes, bodyBytes decompress maximum row.body = some bytes → bytes = payload) :
    decodeSource json decompress codec row = .error .invalidData := by
  rw [decodeSource]
  by_cases hlong : min codec.maxEncodedRowBytes (2 * maxEvent + 2) < row.body.length
  · rw [failIf, if_pos hlong]
    rfl
  · rw [failIf, if_neg hlong]
    cases hdecoded : decodeJson json decompress (min codec.maxDecodedBodyBytes maxEvent) row.body with
    | none => rfl
    | some bytes =>
        obtain rfl : bytes = payload := by
          simp only [decodeJson, Option.bind_eq_bind, Option.bind_eq_some_iff] at hdecoded
          obtain ⟨found, hfound, stored, -, hsame⟩ := hdecoded
          split_ifs at hsame
          obtain rfl := Option.some.inj hsame
          exact hbody _ _ hfound
        have hmissing : eventIdOf value ≠ some row.eventId := by
          rw [hvalue]
          exact (Option.some_ne_none _).symm
        change (do
          let value ← orInvalidData (json.fromSlice bytes)
          failIf (eventIdOf value ≠ some row.eventId) ArchiveStoreError.invalidData
          pure _) = Except.error .invalidData
        rw [hread]
        change (do
          failIf (eventIdOf value ≠ some row.eventId) ArchiveStoreError.invalidData
          pure _) = Except.error .invalidData
        rw [failIf, if_pos hmissing]
        rfl

/-- No row that the pipeline finalizes is accepted by the reader of the archive. -/
theorem finalized_event_refused {config : FinalizerConfig} {env : Environment} {policy : FinalizationPolicy}
    {tables : FinalizationTables} {batch : List FinalizeEvent} {ending : CallEnding} {key : EventKey} {row : EventRow}
    (hbatch : ∀ request ∈ batch, FromPipeline json env.blake3 config request)
    (hzstd : ∀ level bytes frame maximum decoded, env.compress level bytes = some frame →
      decompress maximum frame = some decoded → decoded = bytes)
    (hbefore : ∀ old, tables.events[key]? = some old → old.processingState ≠ .finalized)
    (hrow : (executeStep env tables (.finalize policy batch ending)).events[key]? = some row)
    (hstate : row.processingState = .finalized) :
    decodeSource json decompress codec row = .error .invalidData := by
  have hnever : tables.events[key]? ≠ some row := fun hold => hbefore row hold hstate
  obtain heq | ⟨-, prepared, pending, next, hcommitted, heq⟩ := executeStep_finalize env tables policy batch ending
  · rw [heq] at hrow
    exact absurd hrow hnever
  · rw [heq, (finalizePending_eq_ok hcommitted.finalized).2.2] at hrow
    obtain hold | ⟨value, hvalue, -, stored, -, rfl⟩ := finalizeRows_row hcommitted.allPending hrow
    · exact absurd hold hnever
    · obtain ⟨request, hrequest, hprepare⟩ := lockPending_made hcommitted.offers hcommitted.locked hvalue
      obtain ⟨payload, hread, hmissing⟩ := (hbatch request hrequest).eventIdOf_payload
      refine decodeSource_refused hread hmissing fun maximum bytes hbytes => ?_
      change bodyBytes decompress maximum value.body = some bytes at hbytes
      obtain hplain | ⟨frame, hframe, hcompressed⟩ := prepare_body hprepare
      · rw [hplain] at hbytes
        have hstored : (if request.payload.length ≤ maximum then some request.payload else none) = some bytes := hbytes
        exact (Option.some.inj (Option.ite_none_right_eq_some.mp hstored).2).symm
      · rw [hcompressed] at hbytes
        exact hzstd _ _ _ _ _ hframe hbytes

/-! ### One Event -/

/-- The payload of the Event below. -/
@[irreducible] def boomPayload : List (BitVec 8) :=
  utf8Bytes ("\x7b\"timestamp\":1.0,\"message\":\"boom\",\"_metric\":\x7b\"normalization\":[],\"symbolication\":\x7b" ++
    "\"kind\":\"not_required\",\"status\":\"not_required\",\"disposition\":\"continue\",\"derived\":[]," ++
    "\"missing_debug_ids\":[],\"diagnostics\":[]\x7d\x7d\x7d").toList

def boomSymbolication : SymbolicationResult := ⟨.notRequired, .notRequired, .continue, [], [], []⟩

def boomBody : NormalizedEventBody where
  occurredAt := ⟨1000, inRange_second⟩
  platform := .other
  level := .error
  logger := none
  message := some "boom".toList
  transaction := none
  release := none
  dist := none
  environment := none
  fingerprint := []
  exceptions := []
  stacktrace := []
  tags := []
  request := none
  user := none
  contexts := []
  breadcrumbs := []
  unknown := []

def boomEvent : NormalizedEvent := ⟨⟨1, ProjectId.positive_one⟩, ⟨3⟩, ⟨1000, inRange_second⟩, 1, boomBody, []⟩

/-- The printing of the payload. -/
def boomPrinter : JsonCodec where
  toVec _ := boomPayload
  fromSlice _ := none
  fromStr _ := none
  seconds _ := ⟨"1.0".toList, none⟩

def boomValue : JsonValue := processedValue boomPrinter boomEvent boomSymbolication true

/-- The printing of the payload, and its reading. -/
def boomJson : JsonCodec :=
  { boomPrinter with fromSlice := fun bytes => if bytes = boomPayload then some boomValue else none }

/-- The Event as it is accepted, with its identifier. -/
def boomAccepted : AcceptedEvent where
  projectId := ⟨1, ProjectId.positive_one⟩
  eventId := ⟨3⟩
  receivedAt := ⟨1000, inRange_second⟩
  policyRevision := 1
  payload := ⟨utf8Bytes
    "\x7b\"event_id\":\"00000000000000000000000000000003\",\"message\":\"boom\"\x7d".toList⟩

def boomFields : JsonFields :=
  [("event_id".toList, .string "00000000000000000000000000000003".toList), ("message".toList, .string "boom".toList)]

def boomIssue : IssueOccurrence := PostgresIssues.quotaOccurrence 3 ⟨1000, inRange_second⟩

def boomGrouping : GroupingResult := ⟨boomIssue.groupingKey, boomIssue.issueId, .message, []⟩

def boomRequest : FinalizeEvent where
  projectId := ⟨1, ProjectId.positive_one⟩
  eventId := ⟨3⟩
  receivedAt := ⟨1000, inRange_second⟩
  occurredAt := ⟨1000, inRange_second⟩
  level := .error
  platform := .other
  issue := boomIssue
  environment := none
  searchTokens := []
  payload := boomPayload

/-- Frames of `zstd` that store what they are given as it is, behind nine bytes. -/
def boomEnvironment : Environment :=
  { quotaEnvironment with
    compress := fun level bytes =>
      if bytes.length = 207 then some ([0x28, 0xb5, 0x2f, 0xfd, 0x20, 0xcf, 0x79, 0x06, 0x00] ++ bytes)
      else quotaEnvironment.compress level bytes
    parse := fun bytes => if bytes = boomPayload then some ⟨true, boomPayload, none⟩ else none }

def storedBytes : Decompressor := fun maximum frame =>
  if (frame.drop 9).length ≤ maximum then some (frame.drop 9) else none

theorem storedBytes_compress (level : Int) (bytes frame : List (BitVec 8)) (maximum : Nat) (decoded : List (BitVec 8))
    (hframe : boomEnvironment.compress level bytes = some frame) (hdecoded : storedBytes maximum frame = some decoded) :
    decoded = bytes := by
  have hdrop : frame.drop 9 = bytes := by
    simp only [boomEnvironment, quotaEnvironment, PostgresIssues.storedFrame] at hframe
    split_ifs at hframe <;> obtain rfl := Option.some.inj hframe <;> rfl
  rw [storedBytes] at hdecoded
  split_ifs at hdecoded
  exact (Option.some.inj hdecoded).symm.trans hdrop

def boomTables : FinalizationTables :=
  { quotaTables with events := quotaTables.events.insert quotaRow.key quotaRow }

def archivingPolicy : FinalizationPolicy := { quotaPolicy with archiveEvents := true }

/-- The row after the Event is finalized. -/
def boomRow : EventRow :=
  { quotaRow with
    processingState := .finalized
    body := 1 :: 0 :: boomPayload
    columns := some ⟨boomIssue.issueId, ⟨1000, inRange_second⟩, 0, 0, [], none, some 2592001000, none, none, none⟩ }

theorem boomPayload_read : boomJson.fromSlice boomPayload = some boomValue := by
  show (if boomPayload = boomPayload then some boomValue else none) = some boomValue
  rw [if_pos rfl]

theorem boomValue_chosen : chosenPayload boomJson .defaultValue boomEvent boomSymbolication = boomValue := by
  have hlength : boomPayload.length = 207 := by decide +kernel
  have hshort : ¬ FinalizerConfig.defaultValue.maxProcessedBodyBytes
      < (boomJson.toVec (processedValue boomJson boomEvent boomSymbolication true)).length := by
    show ¬ 2 * 1024 * 1024 < boomPayload.length
    rw [hlength]
    decide
  rw [chosenPayload, if_neg hshort, boomValue, processedValue, processedValue, bodyFields, bodyFields]
  rfl

theorem boomRequest_fromPipeline : FromPipeline boomJson boomEnvironment.blake3 .defaultValue boomRequest := by
  refine ⟨.defaultValue, fun _ => none, fun _ => some (.object boomFields), boomAccepted, boomEvent, boomSymbolication,
    boomGrouping, boomIssue, rfl, ?_, ?_⟩
  · decide +kernel
  · have hpayload : boomRequest.payload = boomPayload := rfl
    rw [hpayload, boomValue_chosen]
    exact boomPayload_read

theorem boomRow_finalized :
    (executeStep boomEnvironment boomTables (.finalize archivingPolicy [boomRequest] (.committed true))).events[
      boomRequest.key]? = some boomRow := by
  decide +kernel

theorem finalized_event_refused_boom :
    decodeSource boomJson storedBytes .defaultValue boomRow = .error .invalidData := by
  have hbatch : ∀ request ∈ [boomRequest], FromPipeline boomJson boomEnvironment.blake3 .defaultValue request :=
    List.forall_mem_singleton.mpr boomRequest_fromPipeline
  refine @finalized_event_refused boomJson storedBytes .defaultValue .defaultValue boomEnvironment archivingPolicy
    boomTables [boomRequest] (.committed true) boomRequest.key boomRow hbatch storedBytes_compress ?_
    boomRow_finalized rfl
  intro old hold
  have hstored : boomTables.events[boomRequest.key]? = some quotaRow := by decide
  rw [hstored] at hold
  obtain rfl := Option.some.inj hold
  nofun

/-- The Event is finalized with archiving enabled, and the reader of the archive refuses its row. -/
theorem finalized_event_not_archivable :
    FromPipeline boomJson boomEnvironment.blake3 .defaultValue boomRequest
      ∧ (executeStep boomEnvironment boomTables (.finalize archivingPolicy [boomRequest] (.committed true))).events[
          boomRequest.key]? = some boomRow
      ∧ boomRow.processingState = .finalized
      ∧ ¬ (decodeSource boomJson storedBytes .defaultValue boomRow).isOk := by
  refine ⟨boomRequest_fromPipeline, boomRow_finalized, rfl, ?_⟩
  have hrefused : decodeSource boomJson storedBytes .defaultValue boomRow = .error .invalidData := by
    have hunknown : ∀ entry ∈ boomEvent.body.unknown, entry.1 ∉ knownFields.map String.toList :=
      fun entry hentry => absurd hentry List.not_mem_nil
    have hmissing : eventIdOf boomValue = none := eventIdOf_processedValue boomPrinter boomSymbolication true hunknown
    refine decodeSource_refused boomPayload_read hmissing ?_
    intro maximum bytes hbytes
    have hstored : (if boomPayload.length ≤ maximum then some boomPayload else none) = some bytes := hbytes
    exact (Option.some.inj (Option.ite_none_right_eq_some.mp hstored).2).symm
  rw [hrefused]
  decide

end PostgresArchive

end MetricBackend
