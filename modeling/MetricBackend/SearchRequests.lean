import MetricBackend.CursorBinding
import MetricBackend.ErrorSearch

/-! Which searches of Errors are accepted. The stores refuse more than eight branches, and a branch is made of every
alternative at the top of a query; a cursor is accepted for the query that it was issued for. -/

namespace MetricBackend

/-- What a store takes. -/
theorem SearchStorageQuery.validate_eq_ok {query : SearchStorageQuery} {maxBranches maxCandidates : Nat} :
    query.validate maxBranches maxCandidates = .ok () ↔ query.branches ≠ [] ∧ query.branches.length ≤ maxBranches
      ∧ 1 ≤ query.candidateLimit ∧ query.candidateLimit ≤ maxCandidates
      ∧ ∀ branch ∈ query.branches, branch.start < branch.until := by
  rw [SearchStorageQuery.validate, bind_eq_ok]
  simp only [failIf_eq_ok, forM_eq_ok, validateRange, not_or, List.isEmpty_iff, not_lt, exists_const,
    ← lt_iff_not_ge]
  constructor
  · rintro ⟨⟨hsome, hbranches, hlimit, hcandidates⟩, hall⟩
    exact ⟨hsome, hbranches, hlimit, hcandidates, hall⟩
  · rintro ⟨hsome, hbranches, hlimit, hcandidates, hall⟩
    exact ⟨⟨hsome, hbranches, hlimit, hcandidates⟩, hall⟩

theorem SearchStorageQuery.failsWith_validate (query : SearchStorageQuery) (maxBranches maxCandidates : Nat) :
    FailsWith (· = .invalidData) (query.validate maxBranches maxCandidates) := by
  refine FailsWith.bind (failsWith_failIf rfl) fun _ _ => FailsWith.forM (fun branch => ?_) query.branches
  exact failsWith_failIf rfl

/-- The length of the identifiers in the cursors of a kind. -/
def ApiCursors.CursorKind.idLength : ApiCursors.CursorKind → Nat
  | .event => 20
  | _ => 16

namespace ErrorSearch

open QueryLanguage ApiCursors TimeRanges

/-! ### The branches of a query -/

section Branches

variable {blake3 : List (BitVec 8) → BitVec 256} {projectId : ProjectId} {expression : Option QueryExpression}
  {start «until» : Timestamp}

theorem storageBranches_ne_nil : storageBranches blake3 projectId expression start «until» ≠ [] := by
  rw [storageBranches]
  split_ifs with hempty
  · simp
  · rwa [Ne, List.map_eq_nil_iff, ← List.isEmpty_iff]

/-- There is one branch for each alternative at the top, and at least one. -/
theorem length_storageBranches :
    (storageBranches blake3 projectId expression start «until»).length = max 1 (topAlternatives expression).length := by
  rw [storageBranches]
  split_ifs with hempty
  · rw [List.isEmpty_iff] at hempty
    rw [hempty]
    rfl
  · rw [List.length_map]
    rw [List.isEmpty_iff, ← List.length_eq_zero_iff] at hempty
    omega

theorem range_of_mem_storageBranches {branch : SearchStorageBranch}
    (h : branch ∈ storageBranches blake3 projectId expression start «until») :
    branch.start = start ∧ branch.until = «until» := by
  rw [storageBranches] at h
  split_ifs at h
  · rw [List.mem_singleton] at h
    subst h
    exact ⟨rfl, rfl⟩
  · obtain ⟨value, -, rfl⟩ := List.mem_map.mp h
    exact ⟨rfl, rfl⟩

end Branches

/-! ### The query of a search -/

section Prepared

variable {blake3 : List (BitVec 8) → BitVec 256} {config : SearchConfig} {now : Timestamp} {request : SearchRequest}
  {prepared : PreparedSearch} {bounds : Bounds}

/-- What `search` has before it calls the store. -/
theorem prepare_eq_ok (h : prepare blake3 config now request = .ok prepared) :
    request.parsed.source = .errors ∧ prepared.pageSize = request.limit.getD defaultQueryRows
      ∧ 1 ≤ prepared.pageSize ∧ prepared.pageSize ≤ maxQueryRows
      ∧ ∃ start finish, errorTimeRange now request.start request.until = some (.ok (start, finish))
        ∧ prepared.digest = cursorDigest blake3 request.projectId (searchText request.parsed start finish) .event
        ∧ request.cursor.mapM (fun value => decodeEventCursor value prepared.digest) = .ok prepared.query.before
        ∧ prepared.query.branches
          = storageBranches blake3 request.projectId request.parsed.expression start finish
        ∧ prepared.query.candidateLimit = config.maxCandidates := by
  simp only [prepare, bind_eq_ok, failIf_eq_ok, pure_eq_ok, not_not, not_or, not_lt] at h
  obtain ⟨-, hsource, -, hsize, ⟨start, finish⟩, hrange, before, hbefore, rfl⟩ := h
  refine ⟨hsource, rfl, hsize.1, hsize.2, start, finish, ?_, rfl, hbefore, rfl, rfl⟩
  rw [errorTimeRange] at hrange ⊢
  exact congrArg some hrange

/-- A first page of a range is prepared. -/
theorem exists_prepare_first (hsource : request.parsed.source = .errors)
    (hrange : errorTimeRange now request.start request.until = some (.ok bounds))
    (hsize : 1 ≤ request.limit.getD defaultQueryRows ∧ request.limit.getD defaultQueryRows ≤ maxQueryRows)
    (hfirst : request.cursor = none) : ∃ prepared, prepare blake3 config now request = .ok prepared := by
  simp only [prepare, bind_eq_ok, failIf_eq_ok, pure_eq_ok, not_not, not_or, not_lt]
  refine ⟨_, (), hsource, (), hsize, bounds, by rw [hrange, Option.getD_some], none, ?_, rfl⟩
  rw [hfirst]
  rfl

/-- A range that `error_time_range` gives has its bounds in their order. -/
theorem range_lt {start finish : Timestamp}
    (h : errorTimeRange now request.start request.until = some (.ok (start, finish))) : start < finish := by
  obtain ⟨outcome, houtcome, hordered⟩ := (timeRanges_iff now request.start request.until).2.1
  exact (hordered start finish (Option.some.inj (houtcome.symm.trans h))).1

/-- Both stores take a prepared search exactly when it has at most eight branches. -/
theorem validateSearch_prepared (hvalid : config.valid = true)
    (h : prepare blake3 config now request = .ok prepared) :
    (PostgresInvestigation.validateSearch prepared.query = .ok ()
        ↔ (topAlternatives request.parsed.expression).length ≤ 8)
      ∧ (MongoInvestigation.validateSearch prepared.query = .ok ()
        ↔ (topAlternatives request.parsed.expression).length ≤ 8) := by
  obtain ⟨-, -, -, -, start, finish, hrange, -, -, hbranches, hlimit⟩ := prepare_eq_ok h
  have hconfig : 1 ≤ config.maxCandidates ∧ config.maxCandidates ≤ 10000 := by
    rw [SearchConfig.valid, Bool.and_eq_true, Bool.and_eq_true, decide_eq_true_iff, decide_eq_true_iff] at hvalid
    exact ⟨hvalid.1.2, hvalid.2⟩
  have hiff : prepared.query.validate 8 10000 = .ok () ↔ (topAlternatives request.parsed.expression).length ≤ 8 := by
    rw [SearchStorageQuery.validate_eq_ok, hlimit, hbranches, length_storageBranches]
    constructor
    · rintro ⟨-, hlength, -⟩
      omega
    · intro hlength
      refine ⟨storageBranches_ne_nil, by omega, hconfig.1, hconfig.2, fun branch hbranch => ?_⟩
      obtain ⟨hstart, huntil⟩ := range_of_mem_storageBranches hbranch
      rw [hstart, huntil]
      exact range_lt hrange
  exact ⟨hiff, hiff⟩

end Prepared

/-! ### Searches -/

/-- The stores of a service. -/
inductive IsStore : CandidateStore → Prop where
  | postgres (json : JsonCodec) (decompress : PostgresArchive.Decompressor)
      (codec : PostgresFinalization.EventCodecConfig) (events : Table EventKey EventRow) :
      IsStore (PostgresInvestigation.searchCandidates json decompress codec events)
  | mongo (find : MongoInvestigation.FindEvents) : IsStore (MongoInvestigation.searchCandidates find)

/-- A search that a store refuses is answered as one with invalid data. -/
theorem IsStore.refused {store : CandidateStore} (h : IsStore store) {query : SearchStorageQuery}
    (hquery : query.validate 8 10000 ≠ .ok ()) (projectId : ProjectId) : store projectId query = .error .invalidData := by
  have hfailed : query.validate 8 10000 = .error .invalidData := by
    cases houtcome : query.validate 8 10000 with
    | ok result => exact absurd houtcome hquery
    | error error => rw [query.failsWith_validate 8 10000 error houtcome]
  cases h with
  | postgres json decompress codec events =>
      exact bind_eq_error.mpr (.inl hfailed)
  | mongo find => exact bind_eq_error.mpr (.inl hfailed)

/-- An accepted query can be executed exactly when it is not a disjunction of more than eight alternatives: then both
stores take what `search` makes of it, and else `search` fails with invalid data over either. -/
theorem search_executable_iff (blake3 : List (BitVec 8) → BitVec 256) {rfc3339 : Text → Option Int} {input : Text}
    {parsed : ParsedQuery} (hparse : ParsedQuery.parse rfc3339 .errors input = .ok parsed) (service : SearchService)
    (projectId : ProjectId) {now : Timestamp} {start «until» : Option Timestamp} {bounds : Bounds}
    (hrange : errorTimeRange now start «until» = some (.ok bounds)) {pageSize : Nat}
    (hsize : 1 ≤ pageSize ∧ pageSize ≤ maxQueryRows) :
    (∃ prepared, prepare blake3 service.config now ⟨projectId, parsed, start, «until», none, some pageSize⟩ = .ok prepared)
      ∧ ∀ cursor prepared,
        prepare blake3 service.config now ⟨projectId, parsed, start, «until», cursor, some pageSize⟩ = .ok prepared →
        (PostgresInvestigation.validateSearch prepared.query = .ok ()
            ∧ MongoInvestigation.validateSearch prepared.query = .ok ()
          ↔ (topAlternatives parsed.expression).length ≤ 8)
        ∧ (8 < (topAlternatives parsed.expression).length → IsStore service.store → ∀ json,
          service.search json blake3 rfc3339 ⟨now, false⟩ ⟨projectId, parsed, start, «until», cursor, some pageSize⟩
            = .error .invalidData) := by
  have hsource : parsed.source = .errors := congrArg ParsedQuery.source (parse_normalized hparse)
  refine ⟨exists_prepare_first hsource hrange hsize rfl, fun cursor prepared hprepared => ?_⟩
  obtain ⟨hpostgres, hmongo⟩ := validateSearch_prepared service.valid hprepared
  refine ⟨⟨fun h => hpostgres.mp h.1, fun h => ⟨hpostgres.mpr h, hmongo.mpr h⟩⟩, fun hmany hstore json => ?_⟩
  have hrefused := hstore.refused (fun h => absurd (hpostgres.mp h) (not_le.mpr hmany)) projectId
  rw [SearchService.search, hprepared]
  change (do
    failIf (false = true) SearchError.tooBroad
    let candidates ← (service.store projectId prepared.query).mapError mapStoreError
    page json rfc3339 service.config parsed.expression prepared candidates) = _
  rw [hrefused]
  rfl

/-! ### Nine alternatives -/

/-- A disjunction of nine alternatives. -/
def nineLevels : QueryExpression := .or (List.replicate 9 (.predicate ⟨.level, .equal, "error".toList⟩))

def nineLevelsQuery : ParsedQuery := ⟨.errors, some nineLevels, normalizedQuery .errors nineLevels⟩

theorem nineLevels_predicates : ∀ predicate ∈ nineLevels.predicates, predicate = ⟨.level, .equal, "error".toList⟩ := by
  intro predicate hpredicate
  simp only [nineLevels, Formula.predicates_or, List.map_replicate, List.mem_flatten] at hpredicate
  obtain ⟨_, hmember, hpredicate⟩ := hpredicate
  rw [List.eq_of_mem_replicate hmember] at hpredicate
  exact List.mem_singleton.mp hpredicate

theorem parse_nineLevels :
    ParsedQuery.parse (fun _ => none) .errors (print ⟨true, true⟩ nineLevels) = .ok nineLevelsQuery := by
  refine parse_print (fun _ => rfl) ⟨true, true⟩ (by decide) ?_ ?_ ⟨by decide, by decide, by decide⟩ (by decide) ?_
  · intro predicate hpredicate
    rw [nineLevels_predicates predicate hpredicate]
    exact ⟨rfl, by decide, by decide, rfl, by decide, by decide⟩
  · intro predicate hpredicate
    rw [nineLevels_predicates predicate hpredicate]
    exact printable_of_all rfl
  · set_option maxRecDepth 4000 in decide

/-- A service over an empty store. -/
def emptyService : SearchService := ⟨MongoInvestigation.searchCandidates fun _ _ => .ok [], .defaultValue, by decide⟩

/-- The nine alternatives in the first day. -/
def nineLevelsRequest (cursor : Option Text) : SearchRequest :=
  ⟨firstProject, nineLevelsQuery, some (everyEvent firstProject).start, some (everyEvent firstProject).until, cursor,
    some 50⟩

/-- A codec that reads nothing. -/
def blankJson : JsonCodec := ⟨fun _ => [], fun _ => none, fun _ => none, fun _ => ⟨"0.0".toList, none⟩⟩

theorem firstDay_range : errorTimeRange ⟨0, inRange_epoch⟩ (some (everyEvent firstProject).start)
    (some (everyEvent firstProject).until) = some (.ok ((everyEvent firstProject).start, (everyEvent firstProject).until)) := by
  decide

theorem search_executable_iff_nineLevels :
    emptyService.search blankJson (fun _ => 0) (fun _ => none) ⟨⟨0, inRange_epoch⟩, false⟩ (nineLevelsRequest none)
      = .error .invalidData := by
  obtain ⟨⟨prepared, hprepared⟩, hexact⟩ := search_executable_iff (fun _ => 0) parse_nineLevels emptyService
    firstProject firstDay_range (show 1 ≤ 50 ∧ 50 ≤ maxQueryRows by decide)
  exact (hexact none prepared hprepared).2 (by decide) (.mongo _) blankJson

/-- The parser accepts them and the stores do not. -/
theorem search_executable_fails : ¬ ∀ (blake3 : List (BitVec 8) → BitVec 256) (input : Text) (parsed : ParsedQuery),
    ParsedQuery.parse (fun _ => none) .errors input = .ok parsed →
    ∀ (now : Timestamp) (request : SearchRequest) (prepared : PreparedSearch), request.parsed = parsed →
      prepare blake3 emptyService.config now request = .ok prepared →
      PostgresInvestigation.validateSearch prepared.query = .ok ()
        ∧ MongoInvestigation.validateSearch prepared.query = .ok () := by
  intro h
  obtain ⟨prepared, hprepared⟩ : ∃ prepared, prepare (fun _ => 0) emptyService.config ⟨0, inRange_epoch⟩
      (nineLevelsRequest none) = .ok prepared :=
    exists_prepare_first rfl firstDay_range (by decide) rfl
  have haccepted := (h _ _ _ parse_nineLevels _ _ prepared rfl hprepared).1
  exact absurd ((validateSearch_prepared emptyService.valid hprepared).1.mp haccepted) (by decide)

/-! ### Cursors -/

section Cursors

variable {rfc3339 : Text → Option Int}

/-- The search that a request stands for at a time. -/
structure Asks (now : Timestamp) (request : SearchRequest) (query : SearchQuery rfc3339) : Prop where
  project : request.projectId = query.projectId
  parsed : request.parsed = query.parsed
  range : errorTimeRange now request.start request.until = some (.ok (query.start, query.until))

theorem Asks.digest {blake3 : List (BitVec 8) → BitVec 256} {config : SearchConfig} {now : Timestamp}
    {request : SearchRequest} {query : SearchQuery rfc3339} {prepared : PreparedSearch} (h : Asks now request query)
    (hprepared : prepare blake3 config now request = .ok prepared) : prepared.digest = query.digest blake3 .event := by
  obtain ⟨-, -, -, -, start, finish, hrange, hdigest, -⟩ := prepare_eq_ok hprepared
  obtain ⟨rfl, rfl⟩ := Prod.mk.inj (Except.ok.inj (Option.some.inj (hrange.symm.trans h.range)))
  rw [hdigest, h.project, h.parsed]
  rfl

/-- The cursor of a page is made for the search that returned it. -/
theorem search_nextCursor {json : JsonCodec} {blake3 : List (BitVec 8) → BitVec 256} {service : SearchService}
    {call : SearchCall} {request : SearchRequest} {found : SearchResultPage} {cursor : Text}
    (h : service.search json blake3 rfc3339 call request = .ok found) (hnext : found.nextCursor = some cursor) :
    ∃ prepared anchor, prepare blake3 service.config call.now request = .ok prepared
      ∧ cursor = encodeEventCursor anchor prepared.digest := by
  rw [SearchService.search, bind_eq_ok] at h
  obtain ⟨prepared, hprepared, h⟩ := h
  simp only [bind_eq_ok, page, pure_eq_ok] at h
  obtain ⟨-, -, candidates, -, kept, -, -, -, rfl⟩ := h
  obtain ⟨anchor, -, rfl⟩ := Option.map_eq_some_iff.mp hnext
  exact ⟨prepared, anchor, hprepared, rfl⟩

/-- A search reads its cursor under the digest that it has. -/
theorem isOk_of_prepare {blake3 : List (BitVec 8) → BitVec 256} {config : SearchConfig} {now : Timestamp}
    {request : SearchRequest} {prepared : PreparedSearch} {cursor : Text}
    (h : prepare blake3 config now request = .ok prepared) (hcursor : request.cursor = some cursor) :
    (decodeCursor cursor .event 20 prepared.digest).isOk := by
  obtain ⟨-, -, -, -, -, -, -, -, hbefore, -⟩ := prepare_eq_ok h
  rw [hcursor, Option.mapM_some, map_eq_ok] at hbefore
  obtain ⟨before, hdecoded, -⟩ := hbefore
  rw [decodeEventCursor, bind_eq_ok] at hdecoded
  obtain ⟨decoded, hdecoded, -⟩ := hdecoded
  rw [hdecoded]
  rfl

/-- Cursors are bound to their query, up to collisions of the hash: a cursor of a page is taken by no other search. -/
theorem search_cursors_bound (rfc3339 : Text → Option Int) (blake3 : List (BitVec 8) → BitVec 256)
    (inputs : Set (List (BitVec 8))) (hinjective : Set.InjOn (digestPrefix blake3) inputs) :
    (∀ (kind : CursorKind) (timestamp : Timestamp) (id digest : List (BitVec 8)), id.length = kind.idLength →
        digest.length = 16 →
        decodeCursor (encodeCursor kind timestamp id digest) kind kind.idLength digest = .ok (timestamp, id)
        ∧ ∀ (other : CursorKind) (idLen : Nat) (second : List (BitVec 8)),
          other ≠ kind ∨ idLen ≠ kind.idLength ∨ second ≠ digest →
          decodeCursor (encodeCursor kind timestamp id digest) other idLen second = .error .invalidCursor)
      ∧ Function.Injective normalizedExpression
      ∧ (∀ left right : SearchQuery rfc3339, left.text = right.text →
        left.parsed.normalized = right.parsed.normalized ∧ left.parsed = right.parsed ∧ left.start = right.start
          ∧ left.«until» = right.«until»)
      ∧ (∀ (issued asked : SearchQuery rfc3339) (kind other : CursorKind) (timestamp : Timestamp)
        (id : List (BitVec 8)) (idLen : Nat),
        digestInput issued.projectId issued.text kind ∈ inputs → digestInput asked.projectId asked.text other ∈ inputs →
        (decodeCursor (encodeCursor kind timestamp id (issued.digest blake3 kind)) other idLen
          (asked.digest blake3 other)).isOk → issued = asked ∧ kind = other)
      ∧ ∀ (json : JsonCodec) (service : SearchService) (call : SearchCall) (request : SearchRequest)
        (found : SearchResultPage) (cursor : Text) (issued : SearchQuery rfc3339), Asks call.now request issued →
        service.search json blake3 rfc3339 call request = .ok found → found.nextCursor = some cursor →
        ∀ (config : SearchConfig) (now : Timestamp) (other : SearchRequest) (prepared : PreparedSearch)
          (asked : SearchQuery rfc3339), Asks now other asked → other.cursor = some cursor →
        digestInput issued.projectId issued.text .event ∈ inputs →
        digestInput asked.projectId asked.text .event ∈ inputs →
        prepare blake3 config now other = .ok prepared → issued = asked := by
  refine ⟨?_, normalizedExpression_injective, ?_, ?_, ?_⟩
  · intro kind timestamp id digest hid hdigest
    have hbounded : id.length ≤ 37 := by
      rw [hid]
      cases kind <;> decide
    rw [← hid]
    exact ⟨decodeCursor_encodeCursor kind timestamp id hbounded hdigest,
      fun other idLen second => decodeCursor_refused hdigest⟩
  · intro left right htext
    obtain ⟨hparsed, hstart, huntil⟩ := SearchQuery.text_inj htext
    exact ⟨congrArg ParsedQuery.normalized hparsed, hparsed, hstart, huntil⟩
  · intro issued asked kind other timestamp id idLen
    exact SearchQuery.eq_of_accepted hinjective
  · intro json service call request found cursor issued hissued hfound hnext config now other prepared asked hasked
      hcursor hfirst hsecond hprepared
    obtain ⟨first, anchor, hmade, rfl⟩ := search_nextCursor hfound hnext
    have hok := isOk_of_prepare hprepared hcursor
    rw [encodeEventCursor, hissued.digest hmade, hasked.digest hprepared] at hok
    exact (SearchQuery.eq_of_accepted hinjective hfirst hsecond hok).1

end Cursors

/-- All Events of the first day, one on a page. -/
def everyEventRequest (projectId : ProjectId) (cursor : Option Text) : SearchRequest :=
  ⟨projectId, (everyEvent projectId).parsed, some (everyEvent projectId).start, some (everyEvent projectId).until,
    cursor, some 1⟩

def eventView (id : BitVec 128) : EventView :=
  ⟨EventKey.new firstProject ⟨id⟩, ⟨0⟩, ⟨0, inRange_epoch⟩, ⟨0, inRange_epoch⟩, .error, .other, []⟩

/-- A service that finds two Events. -/
def twoEventsService : SearchService :=
  ⟨fun _ _ => .ok ⟨[eventView 2, eventView 1], none, 2⟩, .defaultValue, by decide⟩

theorem asks_everyEvent (projectId : ProjectId) (cursor : Option Text) :
    Asks ⟨0, inRange_epoch⟩ (everyEventRequest projectId cursor) (everyEvent projectId) :=
  ⟨rfl, rfl, firstDay_range⟩

theorem search_cursors_bound_everyEvent : ∃ found cursor,
    twoEventsService.search blankJson everyEventHash (fun _ => none) ⟨⟨0, inRange_epoch⟩, false⟩
        (everyEventRequest firstProject none) = .ok found
      ∧ found.nextCursor = some cursor
      ∧ ¬ (prepare everyEventHash .defaultValue ⟨0, inRange_epoch⟩ (everyEventRequest secondProject (some cursor))).isOk := by
  have hprojects : firstProject ≠ secondProject := by decide
  obtain ⟨first, hfirst⟩ : ∃ first, prepare everyEventHash .defaultValue ⟨0, inRange_epoch⟩
      (everyEventRequest firstProject none) = .ok first := exists_prepare_first rfl firstDay_range (by decide) rfl
  have hsize : first.pageSize = 1 := (prepare_eq_ok hfirst).2.1
  have hsearch : twoEventsService.search blankJson everyEventHash (fun _ => none) ⟨⟨0, inRange_epoch⟩, false⟩
      (everyEventRequest firstProject none)
      = .ok ⟨[eventView 2], some (encodeEventCursor (eventView 2).anchor first.digest), 2⟩ := by
    obtain ⟨pageSize, digest, query⟩ := first
    obtain rfl : pageSize = 1 := hsize
    change (prepare everyEventHash .defaultValue ⟨0, inRange_epoch⟩ (everyEventRequest firstProject none) >>= _) = _
    rw [hfirst]
    rfl
  refine ⟨_, _, hsearch, rfl, fun hok => ?_⟩
  obtain ⟨prepared, hprepared⟩ := exists_ok_of_isOk hok
  have hissued : digestInput (everyEvent firstProject).projectId (everyEvent firstProject).text .event
      ∈ ({everyEventInput firstProject, everyEventInput secondProject} : Set (List (BitVec 8))) := .inl rfl
  have hasked : digestInput (everyEvent secondProject).projectId (everyEvent secondProject).text .event
      ∈ ({everyEventInput firstProject, everyEventInput secondProject} : Set (List (BitVec 8))) := .inr rfl
  have hbound := (search_cursors_bound (fun _ => none) everyEventHash _ everyEventHash_injOn).2.2.2.2 blankJson
    twoEventsService ⟨⟨0, inRange_epoch⟩, false⟩ (everyEventRequest firstProject none) _ _ (everyEvent firstProject)
    (asks_everyEvent firstProject none) hsearch rfl .defaultValue ⟨0, inRange_epoch⟩ _ prepared (everyEvent secondProject)
    (asks_everyEvent secondProject _) rfl hissued hasked hprepared
  exact hprojects (congrArg SearchQuery.projectId hbound)

end ErrorSearch

end MetricBackend
