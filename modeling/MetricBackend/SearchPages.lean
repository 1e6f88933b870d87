import MetricBackend.PlannableQueries
import MetricBackend.SearchRows

/-! Every page of a search of Errors over PostgreSQL: a page keeps the candidates that match, its cursor continues after
the last one, and reading all pages finds every Event that matches, once, unless a call is too broad. -/

namespace MetricBackend

namespace ErrorSearch

open QueryLanguage ApiCursors TimeRanges PostgresFinalization PostgresInvestigation EventFinalizer

/-! ### One page -/

section Matching

variable {fromSlice : List (BitVec 8) → Option JsonValue} {rfc3339 : Text → Option Int}
  {expression : Option QueryExpression} {keep : EventView → Bool}

/-- The loop keeps the first of those that match, one more than a page has. -/
theorem collectMatches_eq {pageSize : Nat} {found events : List EventView}
    (hread : ∀ event ∈ events, matchesEvent fromSlice rfc3339 expression event = .ok (keep event))
    (hfound : found.length ≤ pageSize) : collectMatches fromSlice rfc3339 expression pageSize found events
      = .ok ((found ++ events.filter keep).take (pageSize + 1)) := by
  induction events generalizing found with
  | nil =>
      rw [collectMatches, List.filter_nil, List.append_nil, List.take_of_length_le (by omega)]
  | cons event events ih =>
      obtain ⟨hevent, hevents⟩ := List.forall_mem_cons.mp hread
      rw [collectMatches, hevent]
      change (if keep event = true then
          if pageSize < (found ++ [event]).length then pure (found ++ [event])
          else collectMatches fromSlice rfc3339 expression pageSize (found ++ [event]) events
        else collectMatches fromSlice rfc3339 expression pageSize found events) = _
      cases hkeep : keep event with
      | false =>
          rw [if_neg Bool.false_ne_true, ih hevents hfound, List.filter_cons_of_neg (Bool.eq_false_iff.mp hkeep)]
      | true =>
          have hshift : found ++ event :: events.filter keep = (found ++ [event]) ++ events.filter keep :=
            List.append_cons found event _
          rw [if_pos rfl, List.filter_cons_of_pos hkeep, hshift]
          split_ifs with hfull
          · have hlength : (found ++ [event]).length = pageSize + 1 := by
              rw [List.length_append, List.length_singleton] at hfull ⊢
              omega
            rw [← hlength, List.take_left]
            rfl
          · exact ih hevents (not_lt.mp hfull)

/-- The page of the candidates that a store returns is the page of all that match, or the search is too broad. -/
theorem page_candidates {json : JsonCodec} {config : SearchConfig} (prepared : PreparedSearch) {rows : List EventView}
    {candidates : EventPage} (hitems : candidates.items = rows.take config.maxCandidates)
    (hexamined : candidates.candidatesExamined = (rows.take config.maxCandidates).length)
    (hread : ∀ event ∈ rows, matchesEvent json.fromSlice rfc3339 expression event = .ok (keep event)) :
    (page json rfc3339 config expression prepared candidates = .error .tooBroad ∧ config.maxCandidates ≤ rows.length)
      ∨ page json rfc3339 config expression prepared candidates
        = .ok ⟨(Page.first EventView.anchor prepared.pageSize (rows.filter keep)).items,
          (Page.first EventView.anchor prepared.pageSize (rows.filter keep)).next.map
            (encodeEventCursor · prepared.digest), candidates.candidatesExamined⟩ := by
  have hcollected : collectMatches json.fromSlice rfc3339 expression prepared.pageSize [] candidates.items
      = .ok (((rows.take config.maxCandidates).filter keep).take (prepared.pageSize + 1)) := by
    rw [hitems, collectMatches_eq (fun event hevent => hread event (List.mem_of_mem_take hevent)) (Nat.zero_le _)]
    rfl
  by_cases hbroad : (((rows.take config.maxCandidates).filter keep).take (prepared.pageSize + 1)).length
      ≤ prepared.pageSize ∧ config.maxCandidates ≤ candidates.candidatesExamined
  · left
    rw [page, hcollected]
    refine ⟨bind_eq_error.mpr (.inr ⟨_, rfl, bind_eq_error.mpr (.inl (failIf_eq_error.mpr ⟨hbroad, rfl⟩))⟩), ?_⟩
    rw [hexamined] at hbroad
    exact hbroad.2.trans (List.length_take_le' _ _)
  · right
    have hfirst : Page.first EventView.anchor prepared.pageSize ((rows.take config.maxCandidates).filter keep)
        = Page.first EventView.anchor prepared.pageSize (rows.filter keep) := by
      by_cases hmore : prepared.pageSize < ((rows.take config.maxCandidates).filter keep).length
      · conv_rhs => rw [← List.take_append_drop config.maxCandidates rows, List.filter_append]
        rw [Page.first_append hmore]
      · rw [List.length_take, hexamined, List.length_take] at hbroad
        rw [List.take_of_length_le (by omega)]
    rw [page, hcollected]
    refine bind_eq_ok.mpr ⟨_, rfl, bind_eq_ok.mpr ⟨(), failIf_eq_ok.mpr hbroad, ?_⟩⟩
    rw [Page.first_take, hfirst]
    rfl

end Matching

/-! ### One call -/

/-- A page of a request, behind a cursor. -/
def SearchService.fetch (service : SearchService) (json : JsonCodec) (blake3 : List (BitVec 8) → BitVec 256)
    (rfc3339 : Text → Option Int) (request : SearchRequest) (call : SearchCall) (cursor : Option Text) :
    Except SearchError (Page EventView Text) :=
  (service.search json blake3 rfc3339 call { request with cursor := cursor }).map fun found =>
    ⟨found.items, found.nextCursor⟩

section Calls

variable {json : JsonCodec} {env : Environment} {decompress : PostgresArchive.Decompressor} {rfc3339 : Text → Option Int}
  {events : Table EventKey EventRow} {projectId : ProjectId} {parsed : ParsedQuery} {start «until» : Timestamp}
  {pageSize : Nat} {view : EventRow → EventView}

theorem errorTimeRange_given (now : Timestamp) (hlt : start < «until»)
    (hwide : «until».unixMillis - start.unixMillis ≤ TimeRanges.maxRangeMillis) :
    errorTimeRange now (some start) (some «until») = some (.ok (start, «until»)) := by
  have hspan : ¬ TimeRanges.maxRangeMillis < saturatingMillis («until».unixMillis - start.unixMillis) := by
    unfold saturatingMillis TimeRanges.maxRangeMillis TimeRanges.dayMillis at *
    omega
  rw [errorTimeRange, Option.getD_some, Option.getD_some, refusedRange, decide_eq_false (not_le.mpr hlt),
    decide_eq_false hspan]
  rfl

/-- The digest of the cursors of a search. -/
def searchDigest (blake3 : List (BitVec 8) → BitVec 256) (projectId : ProjectId) (parsed : ParsedQuery)
    (start «until» : Timestamp) : List (BitVec 8) :=
  cursorDigest blake3 projectId (searchText parsed start «until») .event

/-- A search that the service and the stores take. -/
structure Answerable (parsed : ParsedQuery) (start «until» : Timestamp) (pageSize : Nat) : Prop where
  source : parsed.source = .errors
  values : ∀ value ∈ parsed.expression, ∀ predicate ∈ value.predicates, predicate.value ≠ []
  alternatives : (topAlternatives parsed.expression).length ≤ 8
  ordered : start < «until»
  bounded : «until».unixMillis - start.unixMillis ≤ TimeRanges.maxRangeMillis
  pageSize : 1 ≤ pageSize ∧ pageSize ≤ maxQueryRows

/-- What `search` has of a search behind a place. -/
def placedSearch (blake3 : List (BitVec 8) → BitVec 256) (config : SearchConfig) (projectId : ProjectId)
    (parsed : ParsedQuery) (start «until» : Timestamp) (pageSize : Nat) (place : Option EventAnchor) : PreparedSearch :=
  ⟨pageSize, searchDigest blake3 projectId parsed start «until»,
    ⟨storageBranches blake3 projectId parsed.expression start «until», place, config.maxCandidates⟩⟩

/-- A search is prepared behind a place that its own cursor stands for. -/
theorem prepare_place (h : Answerable parsed start «until» pageSize) {blake3 : List (BitVec 8) → BitVec 256}
    {config : SearchConfig} {now : Timestamp} {place : Option EventAnchor} (hplace : InProject projectId place) :
    prepare blake3 config now ⟨projectId, parsed, some start, some «until»,
        place.map (encodeEventCursor · (searchDigest blake3 projectId parsed start «until»)), some pageSize⟩
      = .ok (placedSearch blake3 config projectId parsed start «until» pageSize place) := by
  simp only [prepare, bind_eq_ok, failIf_eq_ok, pure_eq_ok, not_not, not_or, not_lt, Option.getD_some]
  refine ⟨(), h.source, (), h.pageSize, (start, «until»), ?_, place, ?_, rfl⟩
  · rw [errorTimeRange_given now h.ordered h.bounded, Option.getD_some]
  · cases place with
    | none => rfl
    | some anchor =>
        obtain ⟨time, id, rfl⟩ := hplace anchor rfl
        rw [Option.map_some, Option.mapM_some, map_eq_ok]
        refine ⟨_, decodeEventCursor_encodeEventCursor ?_ (length_digestPrefix blake3 _), rfl⟩
        rw [ofLex_toLex, EventKey.projectNumber_new]
        exact projectId.positive.1

/-- What a store returns to a search that it takes. -/
theorem searchCandidates_eq (h : ProjectViews json env decompress events projectId view) {query : SearchStorageQuery}
    (hquery : validateSearch query = .ok ()) : ∃ candidates,
      searchCandidates json decompress env.eventCodec events projectId query = .ok candidates
        ∧ candidates.items = (candidateViews events projectId view query).take query.candidateLimit
        ∧ candidates.candidatesExamined = ((candidateViews events projectId view query).take query.candidateLimit).length := by
  set rows := Page.descending timelineKey ((events.toList.map Prod.snd).filter fun row => selects projectId row query)
    with hrows
  have hdecoded : ∀ row ∈ rows.take query.candidateLimit,
      decodeEvent json decompress env.eventCodec row = .ok (view row) := by
    intro row hrow
    have hselected := Page.mem_descending.mp (List.mem_of_mem_take hrow)
    rw [ProjectViews.filter_selects, List.mem_filter] at hselected
    obtain ⟨_, _, hview⟩ := h.viewed row hselected.1
    exact hview.decoded
  refine ⟨.ofItems query.candidateLimit ((rows.take query.candidateLimit).map view), ?_, ?_, ?_⟩
  · exact bind_eq_ok.mpr ⟨(), hquery, bind_eq_ok.mpr ⟨_, mapM_of_forall_mem hdecoded, rfl⟩⟩
  · rw [candidateViews, ← hrows, ← List.map_take]
    refine List.take_of_length_le ?_
    rw [List.length_map]
    exact List.length_take_le _ _
  · rw [candidateViews, ← hrows, ← List.map_take]
    rfl

variable {service : SearchService}

/-- A search whose store answers. -/
theorem search_eq {blake3 : List (BitVec 8) → BitVec 256} {call : SearchCall} {request : SearchRequest}
    {prepared : PreparedSearch} {candidates : EventPage}
    (hprepared : prepare blake3 service.config call.now request = .ok prepared)
    (hcandidates : service.store request.projectId prepared.query = .ok candidates) :
    service.search json blake3 rfc3339 call request = (do
      failIf (call.timedOut = true) .tooBroad
      page json rfc3339 service.config request.parsed.expression prepared candidates) := by
  rw [SearchService.search, hprepared]
  change (do
    failIf (call.timedOut = true) SearchError.tooBroad
    let candidates ← (service.store request.projectId prepared.query).mapError mapStoreError
    page json rfc3339 service.config request.parsed.expression prepared candidates) = _
  rw [hcandidates]
  rfl

/-- A call behind a place returns the page of the Events that are left to find, or it is too broad. -/
theorem fetch_place (h : ProjectViews json env decompress events projectId view)
    (hsearch : Answerable parsed start «until» pageSize)
    (hstore : service.store = searchCandidates json decompress env.eventCodec events) {place : Option EventAnchor}
    (hplace : InProject projectId place) (call : SearchCall) :
    let encode := (encodeEventCursor · (searchDigest env.blake3 projectId parsed start «until»))
    let fetched := service.fetch json env.blake3 rfc3339
      ⟨projectId, parsed, some start, some «until», none, some pageSize⟩ call (place.map encode)
    let left := Page.below EventView.anchor
      (matchingEvents json env decompress rfc3339 events projectId parsed.expression start «until») place
    (fetched = .error .tooBroad
        ∧ (call.timedOut = true ∨ service.config.maxCandidates ≤ (projectEvents events projectId).length))
      ∨ fetched = .ok ⟨(Page.first EventView.anchor pageSize left).items,
        (Page.first EventView.anchor pageSize left).next.map encode⟩ := by
  intro encode fetched left
  set prepared := placedSearch env.blake3 service.config projectId parsed start «until» pageSize place
  have hprepared : prepare env.blake3 service.config call.now
      ⟨projectId, parsed, some start, some «until», place.map encode, some pageSize⟩ = .ok prepared :=
    prepare_place hsearch hplace
  obtain ⟨candidates, hcandidates, hitems, hexamined⟩ :=
    searchCandidates_eq h ((validateSearch_prepared service.valid hprepared).1.mpr hsearch.alternatives)
  have hpage := @page_candidates rfc3339 parsed.expression _ json service.config prepared _ candidates hitems hexamined
    fun event hevent => h.matchesEvent_candidate hevent
  have hleft : (candidateViews events projectId view prepared.query).filter (isMatch json rfc3339 parsed.expression)
      = left := h.filter_candidateViews hsearch.values hplace
  rw [hleft] at hpage
  have hfetched : fetched = ((do
      failIf (call.timedOut = true) SearchError.tooBroad
      page json rfc3339 service.config parsed.expression prepared candidates).map fun found : SearchResultPage =>
        ⟨found.items, found.nextCursor⟩) := by
    have hresult := @search_eq json rfc3339 service _ _ _ _ _ hprepared (by rw [hstore, hcandidates])
    rw [← hresult]
    rfl
  rw [hfetched]
  cases htimedOut : call.timedOut with
  | true => exact .inl ⟨rfl, .inl rfl⟩
  | false =>
      obtain ⟨hbroad, hmany⟩ | hok := hpage
      · rw [hbroad]
        exact .inl ⟨rfl, .inr (hmany.trans ProjectViews.length_candidateViews_le)⟩
      · rw [hok]
        exact .inr rfl

/-- Reading all pages finds what is to be found, or a call is too broad. -/
theorem readCalls_fetch (h : ProjectViews json env decompress events projectId view)
    (hsearch : Answerable parsed start «until» pageSize)
    (hstore : service.store = searchCandidates json decompress env.eventCodec events) {calls : List SearchCall}
    (hcalls : (projectEvents events projectId).length < calls.length) :
    let read := Page.readCalls (service.fetch json env.blake3 rfc3339
      ⟨projectId, parsed, some start, some «until», none, some pageSize⟩) calls none
    (read = .error .tooBroad ∧ ((∃ call ∈ calls, call.timedOut = true)
        ∨ service.config.maxCandidates ≤ (projectEvents events projectId).length))
      ∨ read = .ok (some (matchingEvents json env decompress rfc3339 events projectId parsed.expression start «until»)) := by
  intro read
  set matching := matchingEvents json env decompress rfc3339 events projectId parsed.expression start «until»
  set encode := fun anchor => encodeEventCursor anchor (searchDigest env.blake3 projectId parsed start «until»)
  have hlength : (Page.below EventView.anchor matching none).length < calls.length :=
    lt_of_le_of_lt h.length_matchingEvents_le hcalls
  have hfetch : ∀ call ∈ calls, ∀ place, Page.IsPlace EventView.anchor matching place →
      (∃ error, (error = SearchError.tooBroad ∧ ((∃ call ∈ calls, call.timedOut = true)
          ∨ service.config.maxCandidates ≤ (projectEvents events projectId).length))
        ∧ service.fetch json env.blake3 rfc3339 ⟨projectId, parsed, some start, some «until», none, some pageSize⟩ call
          (place.map encode) = .error error)
      ∨ ∃ page, service.fetch json env.blake3 rfc3339 ⟨projectId, parsed, some start, some «until», none, some pageSize⟩
          call (place.map encode) = .ok page
        ∧ Page.IsStart EventView.anchor (fun _ => true) id encode (Page.below EventView.anchor matching place) page := by
    intro call hcall place hplace
    obtain ⟨hbroad, hwhy⟩ | hok := fetch_place h hsearch hstore (h.inProject hplace) call
    · exact .inl ⟨_, ⟨rfl, hwhy.imp_left fun htimedOut => ⟨call, hcall, htimedOut⟩⟩, hbroad⟩
    · have hstart : Page.IsStart EventView.anchor (fun _ => true) id encode (Page.below EventView.anchor matching place) _ :=
        Page.isStart_first (lt_of_lt_of_le Nat.zero_lt_one hsearch.pageSize.1) _
      rw [List.filter_true, List.map_id] at hstart
      exact .inr ⟨_, hok, hstart⟩
  obtain ⟨error, ⟨rfl, hwhy⟩, herror⟩ | hok := Page.readCalls_below _ h.ordered_matchingEvents hfetch (.inl rfl) hlength
  · exact .inl ⟨herror, hwhy⟩
  · rw [List.filter_true, List.map_id] at hok
    exact .inr hok

end Calls

/-! ### All pages -/

/-- The values of an accepted query are not empty. -/
theorem value_ne_nil {rfc3339 : Text → Option Int} {input : Text} {parsed : ParsedQuery}
    (h : ParsedQuery.parse rfc3339 .errors input = .ok parsed) :
    ∀ value ∈ parsed.expression, ∀ predicate ∈ value.predicates, predicate.value ≠ [] := by
  intro value hvalue predicate hpredicate
  obtain ⟨-, -, -, hreadable, -⟩ := parse_limits h hvalue
  obtain haccepted | ⟨text, -, hbare⟩ := hreadable predicate hpredicate
  · exact haccepted.nonempty
  · cases hbare

/-- Reading all pages of an accepted search of Errors over PostgreSQL finds every Event of the project that is in the
range and matches, once, the newest first, unless a call is too broad. The anchor of every alternative selects the Events
that satisfy it. -/
theorem error_search_exact {json : JsonCodec} {env : Environment} {decompress : PostgresArchive.Decompressor}
    (hframes : ReadsFrames env.compress decompress) {events : Table EventKey EventRow}
    (hevents : FinalizedEvents json env (NumberKept json) events) {rfc3339 : Text → Option Int} {input : Text}
    {parsed : ParsedQuery} (hparse : ParsedQuery.parse rfc3339 .errors input = .ok parsed)
    (halternatives : (topAlternatives parsed.expression).length ≤ 8) {start «until» : Timestamp} (hordered : start < «until»)
    (hbounded : «until».unixMillis - start.unixMillis ≤ TimeRanges.maxRangeMillis) {pageSize : Nat}
    (hsize : 1 ≤ pageSize ∧ pageSize ≤ maxQueryRows) (service : SearchService)
    (hstore : service.store = searchCandidates json decompress env.eventCodec events) (projectId : ProjectId)
    {calls : List SearchCall} (hcalls : (projectEvents events projectId).length < calls.length) :
    let read := Page.readCalls (service.fetch json env.blake3 rfc3339
      ⟨projectId, parsed, some start, some «until», none, some pageSize⟩) calls none
    ((read = .error .tooBroad ∧ ((∃ call ∈ calls, call.timedOut = true)
          ∨ service.config.maxCandidates ≤ (projectEvents events projectId).length))
        ∨ ∃ found, read = .ok (some found)
          ∧ (found.Pairwise fun newer older =>
            toLex (older.occurredAt, older.key.eventId) < toLex (newer.occurredAt, newer.key.eventId))
          ∧ ∀ view, view ∈ found ↔
            (∃ row ∈ projectEvents events projectId, decodeEvent json decompress env.eventCodec row = .ok view)
            ∧ start ≤ view.occurredAt ∧ view.occurredAt < «until»
            ∧ matchesEvent json.fromSlice rfc3339 parsed.expression view = .ok true)
      ∧ ∀ row ∈ projectEvents events projectId, ∃ columns payload view,
        decodeEvent json decompress env.eventCodec row = .ok view ∧ row.columns = some columns
          ∧ json.fromSlice view.payload = some payload
          ∧ ∀ value ∈ topAlternatives parsed.expression, matchesExpression rfc3339 view payload value = true →
            anchorSelects projectId row columns
              ((guaranteedAnchor env.blake3 projectId value).getD .projectTimeline) = true := by
  intro read
  have hsearch : Answerable parsed start «until» pageSize :=
    ⟨congrArg ParsedQuery.source (parse_normalized hparse), value_ne_nil hparse, halternatives, hordered, hbounded, hsize⟩
  obtain ⟨view, hviews⟩ := exists_projectViews hevents hframes projectId
  refine ⟨?_, fun row hrow => ?_⟩
  · refine (readCalls_fetch hviews hsearch hstore hcalls).imp_right fun hread =>
      ⟨_, hread, hviews.pairwise_matchingEvents, fun found => ?_⟩
    rw [hviews.mem_matchingEvents, wanted, isMatch]
    simp only [Bool.and_eq_true, decide_eq_true_iff, toOption_eq_some, and_assoc]
    refine and_congr_left fun _ => ⟨fun hfound => ?_, fun hfound => ?_⟩
    · obtain ⟨row, hrow, rfl⟩ := hfound
      obtain ⟨_, _, hview⟩ := hviews.viewed row hrow
      exact ⟨row, hrow, hview.decoded⟩
    · obtain ⟨row, hrow, hdecoded⟩ := hfound
      obtain ⟨_, _, hview⟩ := hviews.viewed row hrow
      exact ⟨row, hrow, Except.ok.inj (hview.decoded.symm.trans hdecoded)⟩
  · obtain ⟨columns, payload, hview⟩ := hviews.viewed row hrow
    refine ⟨columns, payload, view row, hview.decoded, hview.stored, hview.read, fun value hvalue hmatches => ?_⟩
    have hkey : (view row).key = EventKey.new projectId row.eventId := by
      rw [hview.key, EventRow.key, (of_mem_projectEvents hrow).2.1]
    refine branchAnchor_selects hkey hview.issueId hview.indexed (fun predicate hpredicate => ?_) hmatches
    obtain ⟨whole, hwhole, hpredicate⟩ := predicates_of_mem_topAlternatives hvalue hpredicate
    exact value_ne_nil hparse whole hwhole predicate hpredicate

section Samples

open Finalization EventNormalizer PostgresArchive

/-! ### Users that are numbers -/

/-- The payload of an Event whose user is a number. -/
@[irreducible] def numberPayload (printed : Text) : List (BitVec 8) :=
  utf8Bytes ("\x7b\"timestamp\":1.0,\"user\":\x7b\"id\":".toList ++ printed
    ++ ("\x7d,\"_metric\":\x7b\"normalization\":[],\"symbolication\":\x7b\"kind\":\"not_required\"," ++
      "\"status\":\"not_required\",\"disposition\":\"continue\",\"derived\":[],\"missing_debug_ids\":[]," ++
      "\"diagnostics\":[]\x7d\x7d\x7d").toList)

def numberEvent (spelling : Text) : NormalizedEvent :=
  { boomEvent with body := { boomBody with
      message := none
      user := some (.object [("id".toList, .number spelling)]) } }

/-- The printing of the payload, with the number that a spelling is read as. -/
def numberPrinter (spelling : Text) (number : JsonNumber) : JsonCodec :=
  { boomPrinter with
    toVec := fun _ => numberPayload number.spelling
    fromStr := fun text => if text = spelling then some (.number number) else none }

def numberValue (spelling : Text) (number : JsonNumber) : JsonValue :=
  processedValue (numberPrinter spelling number) (numberEvent spelling) boomSymbolication true

/-- The printing of the payload, and its reading. -/
def numberJson (spelling : Text) (number : JsonNumber) : JsonCodec :=
  { numberPrinter spelling number with
    fromSlice := fun bytes => if bytes = numberPayload number.spelling then some (numberValue spelling number) else none }

/-- The digests of the tokens of the users and of the cursors below. -/
def userDigests (input : List (BitVec 8)) : BitVec 256 :=
  if input[8]? = some 115 then
    if input[32]? = some 2 then 0x7cbd0185cb268898db6f9fe4ff780f41fe8e81cf8ddb1c336e9db0a3870ed2a4
    else if input[32]? = some 17 then 0x0815f63717afa1b1af2faafaebb0ababbe5a76571b5750fbc53c3794d3908527
    else 0x56df4e55c9bb7c5e0727a80a2fedadab4c36ddf1b70f012da7aeac5808b9da23
  else if input[8]? = some 112 then
    if input[32]? = some 47 then 0x70f37e532f4bf98cbfb58a9f256a01d7cdb172454327eb7f9500280b631c375f
    else 0x9d5eb1af911dd8489969d34e8923de1add10f126289c3df338c8aeed5fbebf82
  else quotaDigests input

/-- Frames of `zstd` that store up to two hundred and fifty-five bytes as they are. -/
def plainFrame : PostgresIssues.Compressor := fun _ bytes =>
  some ([0x28, 0xb5, 0x2f, 0xfd, 0x20, BitVec.ofNat 8 bytes.length, BitVec.ofNat 8 (8 * bytes.length + 1),
    BitVec.ofNat 8 ((8 * bytes.length + 1) / 256), 0x00] ++ bytes)

def numberEnvironment (number : JsonNumber) : Environment :=
  { quotaEnvironment with
    blake3 := userDigests
    compress := plainFrame
    parse := fun bytes => if bytes = numberPayload number.spelling then some ⟨true, bytes, none⟩ else none }

def numberRequest (spelling : Text) (number : JsonNumber) : FinalizeEvent :=
  { boomRequest with
    searchTokens := [userIdToken userDigests spelling]
    payload := numberPayload number.spelling }

/-- The Event as it is accepted. -/
def numberFields (number : JsonNumber) : JsonFields :=
  [("event_id".toList, .string "00000000000000000000000000000003".toList),
    ("user".toList, .object [("id".toList, .number number)])]

theorem readsFrames_plainFrame : ReadsFrames plainFrame storedBytes := by
  intro level bytes frame maximum hframe hlength
  obtain rfl := Option.some.inj hframe
  exact if_pos hlength

/-- The tables after the Event is finalized. -/
def numberTables (spelling : Text) (number : JsonNumber) : FinalizationTables :=
  executeStep (numberEnvironment number) boomTables
    (.finalize quotaPolicy [numberRequest spelling number] (.committed true))

def numberRow (spelling : Text) (number : JsonNumber) : EventRow :=
  { quotaRow with
    processingState := .finalized
    body := 1 :: 0 :: numberPayload number.spelling
    columns := some ⟨boomIssue.issueId, ⟨1000, inRange_second⟩, 0, 0, [userIdToken userDigests spelling], some 2592001000,
      none, none, none, none⟩ }

def numberView (number : JsonNumber) : EventView where
  key := quotaRow.key
  issueId := boomIssue.issueId
  receivedAt := ⟨1000, inRange_second⟩
  occurredAt := ⟨1000, inRange_second⟩
  level := .error
  platform := .other
  payload := numberPayload number.spelling

/-- The search of the user with the number, on the first day. -/
def numberQuery (number : JsonNumber) : ParsedQuery :=
  ⟨.errors, some (.predicate ⟨.userId, .equal, number.spelling⟩),
    normalizedQuery .errors (.predicate ⟨.userId, .equal, number.spelling⟩)⟩

def numberSearch (number : JsonNumber) : SearchRequest :=
  ⟨firstProject, numberQuery number, some (everyEvent firstProject).start, some (everyEvent firstProject).until, none,
    some 50⟩

def numberService (spelling : Text) (number : JsonNumber) : SearchService :=
  { emptyService with
    store := searchCandidates (numberJson spelling number) storedBytes .defaultValue (numberTables spelling number).events }

/-- What the search of the user returns. -/
def numberFound (spelling : Text) (number : JsonNumber) : Except SearchError (Option (List EventView)) :=
  Page.readCalls ((numberService spelling number).fetch (numberJson spelling number) userDigests (fun _ => none)
    (numberSearch number)) [⟨⟨0, inRange_epoch⟩, false⟩, ⟨⟨0, inRange_epoch⟩, false⟩] none

/-- The Event is finalized, its row is read and it matches the search of its user. -/
def NumberRun (spelling : Text) (number : JsonNumber) : Prop :=
  (numberPayload number.spelling).length ≤ 2 * 1024 * 1024
    ∧ EventFinalizer.prepare (numberJson spelling number) userDigests .defaultValue (numberEvent spelling)
      boomSymbolication boomGrouping boomIssue = .ok (numberRequest spelling number)
    ∧ projectEvents (numberTables spelling number).events firstProject = [numberRow spelling number]
    ∧ (decodeEvent (numberJson spelling number) storedBytes .defaultValue (numberRow spelling number)).toOption
      = some (numberView number)
    ∧ (matchesEvent (numberJson spelling number).fromSlice (fun _ => none) (numberQuery number).expression
      (numberView number)).toOption = some true

instance (spelling : Text) (number : JsonNumber) : Decidable (NumberRun spelling number) :=
  inferInstanceAs (Decidable (_ ∧ _))

section Numbers

variable {spelling : Text} {number : JsonNumber}

theorem numberPayload_read :
    (numberJson spelling number).fromSlice (numberPayload number.spelling) = some (numberValue spelling number) :=
  if_pos rfl

theorem numberValue_chosen (hshort : (numberPayload number.spelling).length ≤ 2 * 1024 * 1024) :
    chosenPayload (numberJson spelling number) .defaultValue (numberEvent spelling) boomSymbolication
      = numberValue spelling number := by
  have hfits : ¬ FinalizerConfig.defaultValue.maxProcessedBodyBytes < ((numberJson spelling number).toVec
      (processedValue (numberJson spelling number) (numberEvent spelling) boomSymbolication true)).length :=
    not_lt.mpr hshort
  rw [chosenPayload, if_neg hfits]
  rfl

theorem normalize_number (number : JsonNumber) : ∃ limits parseTimestamp decode accepted,
    normalize limits parseTimestamp decode accepted = .ok (numberEvent number.spelling) := by
  exact ⟨.defaultValue, fun _ => none, fun _ => some (.object (numberFields number)), boomAccepted, rfl⟩

theorem NumberRun.requested (h : NumberRun spelling number) : Requested (numberJson spelling number) userDigests
    (numberEvent spelling) (numberValue spelling number) (numberRequest spelling number) where
  normalized := normalize_number ⟨spelling, none⟩
  prepared := ⟨_, _, _, _, h.2.1, (numberValue_chosen h.1).symm⟩
  printed := numberPayload_read

theorem NumberRun.finalized (h : NumberRun spelling number) {kind : NormalizedEvent → Prop}
    (hkind : kind (numberEvent spelling)) :
    FinalizedEvents (numberJson spelling number) (numberEnvironment number) kind (numberTables spelling number).events := by
  have hpending : ∀ (key : EventKey) (row : EventRow), boomTables.events[key]? = some row →
      row.key = key ∧ row.processingState = .pending := by
    intro key row hrow
    have hevents : boomTables.events = (∅ : Table EventKey EventRow).insert quotaRow.key quotaRow := rfl
    rw [hevents, Table.get_insert] at hrow
    split_ifs at hrow with hkey
    · obtain rfl := Option.some.inj hrow
      exact ⟨hkey, rfl⟩
    · simp at hrow
  have hstart : FinalizedEvents (numberJson spelling number) (numberEnvironment number) kind boomTables.events := by
    refine ⟨fun key row hrow => (hpending key row hrow).1, fun key row hrow hstate => ?_⟩
    rw [(hpending key row hrow).2] at hstate
    cases hstate
  exact hstart.executeStep (List.forall_mem_singleton.mpr ⟨_, _, hkind, h.requested⟩) quotaPolicy (.committed true)

end Numbers

/-! ### A number that is kept -/

def keptNumber : JsonNumber := ⟨"42".toList, some 42⟩

theorem numberRun_kept : NumberRun "42".toList keptNumber := by decide +kernel

theorem numberKept_kept : NumberKept (numberJson "42".toList keptNumber) (numberEvent "42".toList) := by
  intro spelling hspelling
  obtain rfl := Option.some.inj hspelling
  exact ⟨keptNumber, rfl, rfl⟩

theorem error_search_exact_kept :
    ∃ found, numberFound "42".toList keptNumber = .ok (some found) ∧ numberView keptNumber ∈ found := by
  obtain ⟨-, -, hrows, hdecoded, hmatches⟩ := numberRun_kept
  have hparse : ParsedQuery.parse (fun _ => none) .errors (predicateText ⟨.userId, .equal, "42".toList⟩)
      = .ok (numberQuery keptNumber) :=
    parse_predicateText .errors _ ⟨rfl, by decide, by decide, rfl, by decide, by decide⟩ (printable_of_all rfl) (by decide)
  have hcalls : (projectEvents (numberTables "42".toList keptNumber).events firstProject).length < 2 := by
    rw [hrows]
    decide
  obtain ⟨⟨-, hbroad⟩ | ⟨found, hfound, -, hexact⟩, -⟩ := error_search_exact readsFrames_plainFrame
    (numberRun_kept.finalized numberKept_kept) hparse (by decide)
    (show (everyEvent firstProject).start < (everyEvent firstProject).until by decide) (by decide)
    (show 1 ≤ 50 ∧ 50 ≤ maxQueryRows by decide) (numberService "42".toList keptNumber) rfl firstProject
    (show _ < [(⟨⟨0, inRange_epoch⟩, false⟩ : SearchCall), ⟨⟨0, inRange_epoch⟩, false⟩].length from hcalls)
  · exfalso
    obtain ⟨call, hcall, htimedOut⟩ | hmany := hbroad
    · simp only [List.mem_cons, List.not_mem_nil, or_false, or_self] at hcall
      rw [hcall] at htimedOut
      cases htimedOut
    · have hlimit : (10000 : Nat) ≤ (projectEvents (numberTables "42".toList keptNumber).events firstProject).length := hmany
      omega
  · refine ⟨found, hfound, (hexact _).mpr ⟨⟨_, ?_, toOption_eq_some.mp hdecoded⟩, by decide, by decide,
      toOption_eq_some.mp hmatches⟩⟩
    rw [hrows]
    exact List.mem_singleton.mpr rfl

/-! ### A number that is not kept -/

/-- The number of the user as it is given. -/
def givenSpelling : Text := "9.200864349327219".toList

/-- The number as it is read again. -/
def driftedNumber : JsonNumber := ⟨"9.20086434932722".toList, none⟩

theorem numberRun_drifted : NumberRun givenSpelling driftedNumber
    ∧ (numberFound givenSpelling driftedNumber).toOption = some (some []) := by
  decide +kernel

theorem inRange_month : minTimestampMillis ≤ 31 * 86400000 ∧ 31 * 86400000 ≤ maxTimestampMillis := by decide

/-- A range of thirty-one days and a page of five hundred and one Events are refused, and an Event that matches is not
found under a number of its user that is read as another one. -/
theorem error_search_incomplete :
    (numberService "42".toList keptNumber).search (numberJson "42".toList keptNumber) userDigests (fun _ => none)
        ⟨⟨0, inRange_epoch⟩, false⟩ { numberSearch keptNumber with «until» := some ⟨31 * 86400000, inRange_month⟩ }
      = .error .limitExceeded
    ∧ (numberService "42".toList keptNumber).search (numberJson "42".toList keptNumber) userDigests (fun _ => none)
        ⟨⟨0, inRange_epoch⟩, false⟩ { numberSearch keptNumber with limit := some 501 } = .error .limitExceeded
    ∧ FinalizedEvents (numberJson givenSpelling driftedNumber) (numberEnvironment driftedNumber)
      (fun _ => True) (numberTables givenSpelling driftedNumber).events
    ∧ projectEvents (numberTables givenSpelling driftedNumber).events firstProject
      = [numberRow givenSpelling driftedNumber]
    ∧ decodeEvent (numberJson givenSpelling driftedNumber) storedBytes .defaultValue
      (numberRow givenSpelling driftedNumber) = .ok (numberView driftedNumber)
    ∧ matchesEvent (numberJson givenSpelling driftedNumber).fromSlice (fun _ => none)
      (numberQuery driftedNumber).expression (numberView driftedNumber) = .ok true
    ∧ numberFound givenSpelling driftedNumber = .ok (some []) := by
  obtain ⟨hrun, hfound⟩ := numberRun_drifted
  refine ⟨rfl, rfl, hrun.finalized trivial, ?_⟩
  obtain ⟨-, -, hrows, hdecoded, hmatches⟩ := hrun
  exact ⟨hrows, toOption_eq_some.mp hdecoded, toOption_eq_some.mp hmatches, toOption_eq_some.mp hfound⟩

end Samples

end ErrorSearch

end MetricBackend
