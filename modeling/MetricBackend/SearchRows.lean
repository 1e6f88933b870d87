import MetricBackend.SearchIndex

/-! The finalized rows of PostgreSQL as a search of Errors reads them: every row that the pipeline finalized is read as
its Event, and the candidates of a store that match are the Events to find, in their order. -/

namespace MetricBackend

/-! ### Finalized rows -/

namespace PostgresFinalization

open EventFinalizer

/-- The row that a request of the pipeline is finalized into. -/
structure FinalizedRow (json : JsonCodec) (env : Environment) (event : NormalizedEvent) (row : EventRow) : Prop where
  state : row.processingState = .finalized
  made : ∃ payload request policy prepared columns, Requested json env.blake3 event payload request
    ∧ prepare env policy request = .ok prepared ∧ row.key = request.key ∧ row.body = prepared.body
    ∧ row.columns = some columns ∧ columns.issueId = request.issue.issueId ∧ columns.occurredAt = request.occurredAt
    ∧ columns.searchTokens = request.searchTokens

/-- Every finalized row is one that the pipeline made, of an Event of a kind. -/
structure FinalizedEvents (json : JsonCodec) (env : Environment) (kind : NormalizedEvent → Prop)
    (events : Table EventKey EventRow) : Prop where
  keyed : ∀ (key : EventKey) (row : EventRow), events[key]? = some row → row.key = key
  finalized : ∀ (key : EventKey) (row : EventRow), events[key]? = some row → row.processingState = .finalized →
    ∃ event, kind event ∧ FinalizedRow json env event row

/-- A prepared Event is in the limits of the reader. -/
theorem prepare_fits {env : Environment} {policy : FinalizationPolicy} {event : FinalizeEvent} {value : Prepared}
    (h : prepare env policy event = .ok value) : event.payload.length ≤ env.eventCodec.maxDecodedBodyBytes
      ∧ value.body.length + 256 ≤ env.eventCodec.maxEncodedRowBytes := by
  have hconsistent := (prepare_eq_ok h).2
  simp only [consistent, decide_eq_true_eq] at hconsistent
  simp only [prepare, bind_eq_ok, failIf_eq_ok, pure_eq_ok] at h
  obtain ⟨-, -, payload, -, -, -, body, -, -, hrow, expire, -, -, -, rfl⟩ := h
  rw [not_or, not_lt] at hrow
  exact ⟨hconsistent.2.2.2.2.2.2.2.2, le_trans (Nat.le_add_right _ _) hrow.2⟩

section Calls

variable {json : JsonCodec} {env : Environment} {kind : NormalizedEvent → Prop} {tables : FinalizationTables}

/-- A call that finalizes requests of the pipeline leaves such rows. -/
theorem FinalizedEvents.executeStep (h : FinalizedEvents json env kind tables.events) {batch : List FinalizeEvent}
    (hbatch : ∀ request ∈ batch, ∃ event payload, kind event ∧ Requested json env.blake3 event payload request)
    (policy : FinalizationPolicy) (ending : CallEnding) :
    FinalizedEvents json env kind (executeStep env tables (.finalize policy batch ending)).events := by
  obtain heq | ⟨-, prepared, pending, next, hcommitted, heq⟩ := executeStep_finalize env tables policy batch ending
  · rw [heq]
    exact h
  · rw [heq, (finalizePending_eq_ok hcommitted.finalized).2.2]
    have hrow : ∀ (key : EventKey) (row : EventRow),
        (finalizeRows env (loadScopes tables prepared) policy tables.events pending)[key]? = some row →
        row.key = key ∧ (row.processingState = .finalized → ∃ event, kind event ∧ FinalizedRow json env event row) := by
      intro key row hrow
      obtain hold | ⟨value, hvalue, hkey, stored, hstored, rfl⟩ := finalizeRows_row hcommitted.allPending hrow
      · exact ⟨h.keyed key row hold, h.finalized key row hold⟩
      · have hsame : stored.key = key := h.keyed key stored hstored
        refine ⟨hsame, fun _ => ?_⟩
        obtain ⟨request, hrequest, hprepare⟩ := lockPending_made hcommitted.offers hcommitted.locked hvalue
        obtain ⟨event, payload, hkind, hrequested⟩ := hbatch request hrequest
        obtain ⟨rfl, -⟩ := prepare_eq_ok hprepare
        exact ⟨event, hkind, rfl, payload, value.event, policy, value, _, hrequested, hprepare, hsame.trans hkey.symm, rfl,
          rfl, rfl, rfl, rfl⟩
    exact ⟨fun key row hfound => (hrow key row hfound).1, fun key row hfound => (hrow key row hfound).2⟩

end Calls

end PostgresFinalization

/-! ### Reading a row -/

namespace PostgresInvestigation

open EventNormalizer EventFinalizer PostgresFinalization PostgresArchive

/-- Frames are read back, up to the length that is asked for. -/
def ReadsFrames (compress : PostgresIssues.Compressor) (decompress : Decompressor) : Prop :=
  ∀ level bytes frame maximum, compress level bytes = some frame → bytes.length ≤ maximum →
    decompress maximum frame = some bytes

section Rows

variable {json : JsonCodec} {env : Environment} {decompress : Decompressor} {event : NormalizedEvent} {row : EventRow}

/-- The level of an Event is read from the payload that it is printed in. -/
theorem levelOf_payload {payload : JsonValue} {request : FinalizeEvent}
    (h : Requested json env.blake3 event payload request) : levelOf payload = .ok event.body.level := by
  have hget := h.get (by decide)
    (show ("level".toList, if event.body.level ≠ .error then some (.string event.body.level.asStr) else none) ∈ _ by
      simp [bodyMembers])
  rw [levelOf, hget]
  cases event.body.level <;> rfl

/-- A finalized row is read as the Event that it was made of. -/
theorem decodeEvent_finalized (hframes : ReadsFrames env.compress decompress) (h : FinalizedRow json env event row) :
    ∃ payload request columns view, Requested json env.blake3 event payload request ∧ row.columns = some columns
      ∧ columns.searchTokens = request.searchTokens
      ∧ decodeEvent json decompress env.eventCodec row = .ok view ∧ view.key = row.key
      ∧ view.issueId = columns.issueId ∧ view.occurredAt = columns.occurredAt
      ∧ json.fromSlice view.payload = some payload := by
  obtain ⟨payload, request, policy, prepared, columns, hrequested, hprepare, -, hbody, hcolumns, -, -, htokens⟩ := h.made
  have hread := hrequested.printed
  have hprinted : json.toVec payload = request.payload := hrequested.bytes.1.symm
  obtain ⟨hlength, hfits⟩ := prepare_fits hprepare
  rw [← hbody] at hfits
  have hbytes : bodyBytes decompress env.eventCodec.maxDecodedBodyBytes row.body = some request.payload := by
    rw [hbody]
    obtain hplain | ⟨frame, hframe, hcompressed⟩ := prepare_body hprepare
    · rw [hplain]
      exact if_pos hlength
    · rw [hcompressed]
      exact hframes _ _ _ _ hframe hlength
  have hdecoded : decodeJson json decompress env.eventCodec.maxDecodedBodyBytes row.body = some request.payload := by
    simp only [decodeJson, hbytes, hread, Option.bind_eq_bind, Option.bind_some, if_pos hprinted]
  have hobject : ¬ payload.asObject.isNone = true := by
    rw [Option.isNone_iff_eq_none, ← ne_eq, Option.ne_none_iff_isSome]
    exact hrequested.isObject
  refine ⟨payload, request, columns, ⟨row.key, columns.issueId, row.receivedAt, columns.occurredAt, event.body.level,
    platformOf payload, request.payload⟩, hrequested, hcolumns, htokens, ?_, rfl, rfl, rfl, hread⟩
  simp only [decodeEvent, bind_eq_ok, failIf_eq_ok, not_lt, hdecoded, hcolumns, orInvalid]
  refine ⟨(), hfits, request.payload, rfl, payload, ?_, (), hobject, event.body.level, levelOf_payload hrequested, columns,
    rfl, rfl⟩
  rw [hread]

end Rows

end PostgresInvestigation

namespace ErrorSearch

open QueryLanguage PostgresFinalization PostgresInvestigation EventFinalizer

/-! ### The rows of a search -/

section Rows

variable (json : JsonCodec) (env : Environment) (decompress : PostgresArchive.Decompressor)

/-- The finalized rows of a project. -/
def projectEvents (events : Table EventKey EventRow) (projectId : ProjectId) : List EventRow :=
  (events.toList.map Prod.snd).filter fun row => row.processingState = .finalized && row.projectId = projectId

/-- A row that is read as a view, and what they have in common. -/
structure Viewed (row : EventRow) (columns : FinalizedColumns) (payload : JsonValue) (view : EventView) : Prop where
  decoded : decodeEvent json decompress env.eventCodec row = .ok view
  stored : row.columns = some columns
  key : view.key = row.key
  issueId : view.issueId = columns.issueId
  occurredAt : view.occurredAt = columns.occurredAt
  read : json.fromSlice view.payload = some payload
  indexed : Indexed env.blake3 columns payload

variable {json env decompress} {events : Table EventKey EventRow} {projectId : ProjectId} {rfc3339 : Text → Option Int}
  {expression : Option QueryExpression} {row other : EventRow} {columns : FinalizedColumns} {payload : JsonValue}
  {view : EventView}

theorem of_mem_projectEvents (h : row ∈ projectEvents events projectId) :
    row.processingState = .finalized ∧ row.projectId = projectId ∧ ∃ key : EventKey, events[key]? = some row := by
  rw [projectEvents, List.mem_filter, Bool.and_eq_true, decide_eq_true_iff, decide_eq_true_iff] at h
  obtain ⟨hmem, hstate, hproject⟩ := h
  obtain ⟨⟨key, _⟩, hentry, rfl⟩ := List.mem_map.mp hmem
  exact ⟨hstate, hproject, key, Table.mem_toList.mp hentry⟩

/-- Every finalized row of a project is read. -/
theorem exists_viewed (h : FinalizedEvents json env (NumberKept json) events)
    (hframes : ReadsFrames env.compress decompress) (hrow : row ∈ projectEvents events projectId) :
    ∃ columns payload view, Viewed json env decompress row columns payload view := by
  obtain ⟨hstate, -, key, hstored⟩ := of_mem_projectEvents hrow
  obtain ⟨event, hkept, hfinalized⟩ := h.finalized key row hstored hstate
  obtain ⟨payload, request, columns, view, hrequested, hcolumns, htokens, hdecoded, hkey, hissue, htime, hread⟩ :=
    decodeEvent_finalized hframes hfinalized
  exact ⟨columns, payload, view, hdecoded, hcolumns, hkey, hissue, htime, hread,
    Indexed.of_requested hrequested hkept htokens⟩

/-- The rows of a project are apart by whatever tells their keys apart. -/
theorem nodup_map_projectEvents {α : Type} {f : EventRow → α}
    (hkeyed : ∀ (key : EventKey) (row : EventRow), events[key]? = some row → row.key = key)
    (hf : ∀ row ∈ projectEvents events projectId, ∀ other ∈ projectEvents events projectId, f row = f other →
      row.key = other.key) : ((projectEvents events projectId).map f).Nodup := by
  have hkeys : ((projectEvents events projectId).map EventRow.key).Nodup := by
    refine List.Nodup.sublist (List.filter_sublist.map _) ?_
    rw [Table.map_keyOf_toList hkeyed]
    exact events.nodup_keys_toList
  exact List.Nodup.map_on (fun row hrow other hother hsame =>
    List.inj_on_of_nodup_map hkeys hrow hother (hf row hrow other hother hsame)) hkeys.of_map

namespace Viewed

theorem timelineKey (h : Viewed json env decompress row columns payload view) :
    timelineKey row = toLex (view.occurredAt, row.eventId) := by
  rw [PostgresInvestigation.timelineKey, h.stored, h.occurredAt]
  rfl

theorem anchor (h : Viewed json env decompress row columns payload view) (hproject : row.projectId = projectId) :
    view.anchor = toLex (view.occurredAt, EventKey.new projectId row.eventId) := by
  rw [EventView.anchor, h.key, EventRow.key, hproject]

/-- Whether an Event matches is known. -/
theorem matchesEvent (h : Viewed json env decompress row columns payload view) :
    matchesEvent json.fromSlice rfc3339 expression view
      = .ok (expression.all (matchesExpression rfc3339 view payload)) := by
  cases expression with
  | none => rfl
  | some expression =>
      rw [ErrorSearch.matchesEvent, h.read]
      rfl

/-- The cursor of an Event of the project leaves the rows that come after it. -/
theorem precedes (h : Viewed json env decompress row columns payload view) (hproject : row.projectId = projectId)
    {time : Timestamp} {id : EventId} : precedes projectId row columns (toLex (time, EventKey.new projectId id)) = true
      ↔ view.anchor < toLex (time, EventKey.new projectId id) := by
  rw [PostgresInvestigation.precedes, ofLex_toLex, if_pos (EventKey.projectNumber_new projectId id), EventKey.eventId_new,
    decide_eq_true_iff, h.anchor hproject, h.occurredAt, Prod.Lex.toLex_lt_toLex, Prod.Lex.toLex_lt_toLex,
    EventKey.new_lt_new]

end Viewed

end Rows

/-! ### The rows of a call -/

section Calls

variable (json : JsonCodec) (env : Environment) (decompress : PostgresArchive.Decompressor) (rfc3339 : Text → Option Int)
  (events : Table EventKey EventRow) (projectId : ProjectId) (expression : Option QueryExpression)
  (start «until» : Timestamp)

/-- Whether `matches_event` returns that an Event matches. -/
def isMatch (view : EventView) : Bool := (matchesEvent json.fromSlice rfc3339 expression view).toOption = some true

/-- What a search is to find. -/
def wanted (view : EventView) : Bool :=
  start ≤ view.occurredAt && view.occurredAt < «until» && isMatch json rfc3339 expression view

/-- The views of a project that a search is to find, the newest first. -/
def matchingEvents : List EventView :=
  Page.descending EventView.anchor (((projectEvents events projectId).filterMap fun row =>
    (decodeEvent json decompress env.eventCodec row).toOption).filter (wanted json rfc3339 expression start «until»))

/-- Where a cursor of the project continues. -/
def InProject (projectId : ProjectId) (place : Option EventAnchor) : Prop :=
  ∀ anchor ∈ place, ∃ time id, anchor = toLex (time, EventKey.new projectId id)

variable {json env decompress rfc3339 events projectId expression start «until»}

theorem filterMap_decodeEvent {rows : List EventRow} {view : EventRow → EventView}
    (h : ∀ row ∈ rows, decodeEvent json decompress env.eventCodec row = .ok (view row)) :
    (rows.filterMap fun row => (decodeEvent json decompress env.eventCodec row).toOption) = rows.map view := by
  rw [← List.filterMap_eq_map]
  refine List.filterMap_congr fun row hrow => ?_
  rw [h row hrow]
  rfl

/-- A row of the project is selected when its Event is in the range and after the place, if its Event matches. -/
theorem selects_viewed {row : EventRow} {columns : FinalizedColumns} {payload : JsonValue} {view : EventView}
    (hrow : row ∈ projectEvents events projectId) (h : Viewed json env decompress row columns payload view)
    (hvalues : ∀ value ∈ expression, ∀ predicate ∈ value.predicates, predicate.value ≠ [])
    (hmatches : ∀ value ∈ expression, matchesExpression rfc3339 view payload value = true) {place : Option EventAnchor}
    (hplace : InProject projectId place) {limit : Nat} :
    selects projectId row ⟨storageBranches env.blake3 projectId expression start «until», place, limit⟩ = true
      ↔ (start ≤ view.occurredAt ∧ view.occurredAt < «until») ∧ ∀ anchor ∈ place, view.anchor < anchor := by
  obtain ⟨hstate, hproject, -⟩ := of_mem_projectEvents hrow
  have hbranches : (storageBranches env.blake3 projectId expression start «until»).any (branchSelects projectId row columns)
      = true ↔ start ≤ view.occurredAt ∧ view.occurredAt < «until» := by
    constructor
    · intro hany
      obtain ⟨branch, hbranch, hselects⟩ := List.any_eq_true.mp hany
      obtain ⟨hstart, huntil⟩ := range_of_mem_storageBranches hbranch
      rw [branchSelects, Bool.and_eq_true, Bool.and_eq_true, decide_eq_true_iff, decide_eq_true_iff, hstart, huntil,
        ← h.occurredAt] at hselects
      exact hselects.1
    · intro hrange
      rw [h.occurredAt] at hrange
      have hkey : view.key = EventKey.new projectId row.eventId := by
        rw [h.key, EventRow.key, hproject]
      exact exists_branchSelects hkey h.issueId h.indexed hrange hvalues hmatches
  have hprecedes : place.all (PostgresInvestigation.precedes projectId row columns) = true
      ↔ ∀ anchor ∈ place, view.anchor < anchor := by
    rw [Option.all_eq_true]
    refine forall₂_congr fun anchor hanchor => ?_
    obtain ⟨time, id, rfl⟩ := hplace anchor hanchor
    exact h.precedes hproject
  rw [selects, hstate, hproject, h.stored, Option.any_some, decide_eq_true rfl, decide_eq_true rfl, Bool.and_self,
    Bool.true_and, Bool.and_eq_true]
  exact and_congr hbranches hprecedes

/-- The views that a store finds, in the order of the timeline. -/
def candidateViews (events : Table EventKey EventRow) (projectId : ProjectId) (view : EventRow → EventView)
    (query : SearchStorageQuery) : List EventView :=
  (Page.descending timelineKey ((events.toList.map Prod.snd).filter fun row => selects projectId row query)).map view

/-- The rows of a project, and what each of them is read as. -/
structure ProjectViews (json : JsonCodec) (env : Environment) (decompress : PostgresArchive.Decompressor)
    (events : Table EventKey EventRow) (projectId : ProjectId) (view : EventRow → EventView) : Prop where
  keyed : ∀ (key : EventKey) (row : EventRow), events[key]? = some row → row.key = key
  viewed : ∀ row ∈ projectEvents events projectId, ∃ columns payload,
    Viewed json env decompress row columns payload (view row)

theorem exists_projectViews (h : FinalizedEvents json env (NumberKept json) events)
    (hframes : ReadsFrames env.compress decompress) (projectId : ProjectId) :
    ∃ view, ProjectViews json env decompress events projectId view := by
  have hviewed : ∀ row ∈ projectEvents events projectId, ∃ view columns payload,
      Viewed json env decompress row columns payload view := by
    intro row hrow
    obtain ⟨columns, payload, view, hview⟩ := exists_viewed h hframes hrow
    exact ⟨view, columns, payload, hview⟩
  have : Nonempty EventView := ⟨eventView 0⟩
  choose! view hview using hviewed
  exact ⟨view, h.keyed, hview⟩

namespace ProjectViews

variable {view : EventRow → EventView}

theorem nodup_timelineKey (h : ProjectViews json env decompress events projectId view) :
    ((projectEvents events projectId).map timelineKey).Nodup := by
  refine nodup_map_projectEvents h.keyed fun row hrow other hother hsame => ?_
  obtain ⟨_, _, hview⟩ := h.viewed row hrow
  obtain ⟨_, _, hotherView⟩ := h.viewed other hother
  rw [hview.timelineKey, hotherView.timelineKey, toLex_inj, Prod.mk.injEq] at hsame
  rw [EventRow.key, EventRow.key, (of_mem_projectEvents hrow).2.1, (of_mem_projectEvents hother).2.1, hsame.2]

theorem nodup_anchor (h : ProjectViews json env decompress events projectId view) :
    (((projectEvents events projectId).map view).map EventView.anchor).Nodup := by
  rw [List.map_map]
  refine nodup_map_projectEvents h.keyed fun row hrow other hother hsame => ?_
  obtain ⟨_, _, hview⟩ := h.viewed row hrow
  obtain ⟨_, _, hotherView⟩ := h.viewed other hother
  have hkey : (view row).key = (view other).key := congrArg (fun anchor => (ofLex anchor).2) hsame
  rwa [hview.key, hotherView.key] at hkey

theorem matchingEvents_eq (h : ProjectViews json env decompress events projectId view) :
    matchingEvents json env decompress rfc3339 events projectId expression start «until»
      = Page.descending EventView.anchor (((projectEvents events projectId).map view).filter
        (wanted json rfc3339 expression start «until»)) := by
  rw [matchingEvents, filterMap_decodeEvent fun row hrow => by
    obtain ⟨_, _, hview⟩ := h.viewed row hrow
    exact hview.decoded]

theorem ordered_matchingEvents (h : ProjectViews json env decompress events projectId view) :
    Page.Ordered EventView.anchor
      (matchingEvents json env decompress rfc3339 events projectId expression start «until») := by
  rw [h.matchingEvents_eq]
  exact Page.ordered_descending (h.nodup_anchor.sublist (List.filter_sublist.map _))

theorem length_matchingEvents_le (h : ProjectViews json env decompress events projectId view) :
    (matchingEvents json env decompress rfc3339 events projectId expression start «until»).length
      ≤ (projectEvents events projectId).length := by
  rw [h.matchingEvents_eq, Page.perm_descending.length_eq]
  exact (List.length_filter_le _ _).trans_eq (List.length_map _)

theorem mem_matchingEvents (h : ProjectViews json env decompress events projectId view) {found : EventView} :
    found ∈ matchingEvents json env decompress rfc3339 events projectId expression start «until»
      ↔ (∃ row ∈ projectEvents events projectId, view row = found)
        ∧ wanted json rfc3339 expression start «until» found = true := by
  rw [h.matchingEvents_eq, Page.mem_descending, List.mem_filter, List.mem_map]

/-- The Events to find are in strictly descending order of their time and identifier. -/
theorem pairwise_matchingEvents (h : ProjectViews json env decompress events projectId view) :
    (matchingEvents json env decompress rfc3339 events projectId expression start «until»).Pairwise fun newer older =>
      toLex (older.occurredAt, older.key.eventId) < toLex (newer.occurredAt, newer.key.eventId) := by
  refine h.ordered_matchingEvents.imp_of_mem fun hnewer holder hlt => ?_
  obtain ⟨⟨left, hleft, rfl⟩, -⟩ := h.mem_matchingEvents.mp hnewer
  obtain ⟨⟨right, hright, rfl⟩, -⟩ := h.mem_matchingEvents.mp holder
  obtain ⟨_, _, hfirst⟩ := h.viewed left hleft
  obtain ⟨_, _, hsecond⟩ := h.viewed right hright
  rw [hfirst.anchor (of_mem_projectEvents hleft).2.1, hsecond.anchor (of_mem_projectEvents hright).2.1,
    Prod.Lex.toLex_lt_toLex, EventKey.new_lt_new] at hlt
  rw [hfirst.key, hsecond.key, EventRow.key, EventRow.key, EventKey.eventId_new, EventKey.eventId_new,
    Prod.Lex.toLex_lt_toLex]
  exact hlt

/-- A place behind an Event of the project. -/
theorem inProject (h : ProjectViews json env decompress events projectId view) {place : Option EventAnchor}
    (hplace : Page.IsPlace EventView.anchor
      (matchingEvents json env decompress rfc3339 events projectId expression start «until») place) :
    InProject projectId place := by
  obtain rfl | ⟨found, hfound, rfl⟩ := hplace
  · exact fun anchor hanchor => by cases hanchor
  · rintro _ ⟨⟩
    obtain ⟨⟨row, hrow, rfl⟩, -⟩ := h.mem_matchingEvents.mp hfound
    obtain ⟨_, _, hview⟩ := h.viewed row hrow
    exact ⟨_, _, hview.anchor (of_mem_projectEvents hrow).2.1⟩

section Candidates

variable {place : Option EventAnchor} {limit : Nat} {query : SearchStorageQuery}

/-- A store selects among the rows of the project. -/
theorem filter_selects : ((events.toList.map Prod.snd).filter fun row => selects projectId row query)
    = (projectEvents events projectId).filter fun row => selects projectId row query := by
  rw [projectEvents, List.filter_filter]
  refine List.filter_congr fun row _ => ?_
  cases hselects : selects projectId row query with
  | false => rfl
  | true =>
      rw [selects, Bool.and_eq_true] at hselects
      rw [hselects.1, Bool.and_self]

theorem length_candidateViews_le :
    (candidateViews events projectId view query).length ≤ (projectEvents events projectId).length := by
  rw [candidateViews, List.length_map, Page.perm_descending.length_eq, filter_selects]
  exact List.length_filter_le _ _

theorem ordered_candidateViews (h : ProjectViews json env decompress events projectId view) :
    Page.Ordered EventView.anchor (candidateViews events projectId view query) := by
  have hordered := Page.ordered_descending (h.nodup_timelineKey.sublist (List.filter_sublist.map _) :
    (((projectEvents events projectId).filter fun row => selects projectId row query).map timelineKey).Nodup)
  rw [candidateViews, filter_selects, Page.Ordered, List.pairwise_map]
  refine hordered.imp_of_mem fun hleft hright hlt => ?_
  have hleft := (List.mem_filter.mp (Page.mem_descending.mp hleft)).1
  have hright := (List.mem_filter.mp (Page.mem_descending.mp hright)).1
  obtain ⟨_, _, hfirst⟩ := h.viewed _ hleft
  obtain ⟨_, _, hsecond⟩ := h.viewed _ hright
  rw [hfirst.timelineKey, hsecond.timelineKey, Prod.Lex.toLex_lt_toLex] at hlt
  rw [hfirst.anchor (of_mem_projectEvents hleft).2.1, hsecond.anchor (of_mem_projectEvents hright).2.1,
    Prod.Lex.toLex_lt_toLex, EventKey.new_lt_new]
  exact hlt

/-- Whether a candidate matches is known. -/
theorem matchesEvent_candidate (h : ProjectViews json env decompress events projectId view) {found : EventView}
    (hfound : found ∈ candidateViews events projectId view query) :
    matchesEvent json.fromSlice rfc3339 expression found
      = .ok (isMatch json rfc3339 expression found) := by
  rw [candidateViews, filter_selects] at hfound
  obtain ⟨row, hrow, rfl⟩ := List.mem_map.mp hfound
  obtain ⟨_, _, hview⟩ := h.viewed row (List.mem_filter.mp (Page.mem_descending.mp hrow)).1
  simp only [isMatch, hview.matchesEvent, Except.toOption, Option.some.injEq, Bool.decide_eq_true]

/-- The candidates of a store, where they match, are the Events that are left to find, in their order. -/
theorem filter_candidateViews (h : ProjectViews json env decompress events projectId view)
    (hvalues : ∀ value ∈ expression, ∀ predicate ∈ value.predicates, predicate.value ≠ [])
    (hplace : InProject projectId place) :
    (candidateViews events projectId view
      ⟨storageBranches env.blake3 projectId expression start «until», place, limit⟩).filter
        (isMatch json rfc3339 expression)
      = Page.below EventView.anchor (matchingEvents json env decompress rfc3339 events projectId expression start «until»)
        place := by
  refine Page.Ordered.eq_of_mem_iff (h.ordered_candidateViews.sublist List.filter_sublist)
    (h.ordered_matchingEvents.below place) fun found => ?_
  rw [Page.mem_below, h.mem_matchingEvents, List.mem_filter, candidateViews, List.mem_map]
  simp only [Page.mem_descending, filter_selects, List.mem_filter, wanted, Bool.and_eq_true, decide_eq_true_iff]
  have hselects : ∀ row ∈ projectEvents events projectId,
      isMatch json rfc3339 expression (view row) = true →
      (selects projectId row ⟨storageBranches env.blake3 projectId expression start «until», place, limit⟩ = true
        ↔ (start ≤ (view row).occurredAt ∧ (view row).occurredAt < «until»)
          ∧ ∀ anchor ∈ place, (view row).anchor < anchor) := by
    intro row hrow hmatches
    obtain ⟨columns, payload, hview⟩ := h.viewed row hrow
    rw [isMatch, decide_eq_true_iff, hview.matchesEvent, Except.toOption, Option.some.injEq, Option.all_eq_true]
      at hmatches
    exact selects_viewed hrow hview hvalues hmatches hplace
  constructor
  · rintro ⟨⟨row, ⟨hrow, hselected⟩, rfl⟩, hmatches⟩
    obtain ⟨hrange, hafter⟩ := (hselects row hrow hmatches).mp hselected
    exact ⟨⟨⟨row, hrow, rfl⟩, hrange, hmatches⟩, hafter⟩
  · rintro ⟨⟨⟨row, hrow, rfl⟩, hrange, hmatches⟩, hafter⟩
    exact ⟨⟨row, ⟨hrow, (hselects row hrow hmatches).mpr ⟨hrange, hafter⟩⟩, rfl⟩, hmatches⟩

end Candidates

end ProjectViews

end Calls

end ErrorSearch

end MetricBackend
