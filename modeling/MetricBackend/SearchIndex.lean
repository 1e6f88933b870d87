import MetricBackend.ArchivableEvents
import MetricBackend.BlobKeys
import MetricBackend.SearchRequests

/-! What the stored columns of a finalized Event say of its payload: the row is read as the payload that the finalizer
made, and the anchor of every query that the Event satisfies selects its row. -/

namespace MetricBackend

/-! ### Keys -/

namespace EventKey

variable (projectId : ProjectId) (left right : EventId)

theorem projectNumber_new : (EventKey.new projectId left).projectNumber = projectId.get := by
  have hpositive := projectId.positive
  have hhigh : (BitVec.ofInt 32 projectId.get ++ left.asBytes).extractLsb' 128 32 = BitVec.ofInt 32 projectId.get :=
    BitVec.extractLsb'_append_eq_left
  rw [projectNumber, EventKey.new, hhigh, BitVec.toInt_ofInt]
  exact Int.bmod_eq_of_le (by omega) (by omega)

theorem eventId_new : (EventKey.new projectId left).eventId = left := by
  have hlow : (BitVec.ofInt 32 projectId.get ++ left.asBytes).extractLsb' 0 128 = left.asBytes :=
    BitVec.extractLsb'_append_eq_right
  rw [eventId, EventKey.new, hlow]

/-- In one project the keys are in the order of the identifiers. -/
theorem new_lt_new : EventKey.new projectId left < EventKey.new projectId right ↔ left < right := by
  have hnat : ∀ id : EventId, (EventKey.new projectId id).asBytes.toNat
      = (BitVec.ofInt 32 projectId.get).toNat * 2 ^ 128 + id.asBytes.toNat := by
    intro id
    rw [EventKey.new, BitVec.toNat_append, ← Nat.shiftLeft_add_eq_or_of_lt id.asBytes.isLt, Nat.shiftLeft_eq]
  change (EventKey.new projectId left).asBytes.toNat < (EventKey.new projectId right).asBytes.toNat
    ↔ left.asBytes.toNat < right.asBytes.toNat
  rw [hnat, hnat]
  omega

theorem fromBytes_bytes {key : EventKey} (h : 0 < key.projectNumber) : fromBytes key.bytes = some key := by
  have hkey : BitVec.ofNat 160 (readBigEndian key.bytes) = key.asBytes := by
    rw [bytes, readBigEndian_bytes 20, BitVec.ofNat_toNat, BitVec.setWidth_eq]
  rw [fromBytes, hkey]
  exact if_pos h

end EventKey

namespace ErrorSearch

open QueryLanguage ApiCursors

/-- The cursor of an Event is read back. -/
theorem decodeEventCursor_encodeEventCursor {anchor : EventAnchor} {digest : List (BitVec 8)}
    (hkey : 0 < (ofLex anchor).2.projectNumber) (hdigest : digest.length = 16) :
    decodeEventCursor (encodeEventCursor anchor digest) digest = .ok anchor := by
  have hlength : (ofLex anchor).2.bytes.length = 20 := length_bigEndian 20 _
  have hread := decodeCursor_encodeCursor .event (ofLex anchor).1 (ofLex anchor).2.bytes (hlength.symm ▸ (by decide))
    hdigest
  rw [hlength] at hread
  rw [decodeEventCursor, encodeEventCursor, hread]
  change (do
    let key ← (EventKey.fromBytes (ofLex anchor).2.bytes).elim (.error .invalidCursor) .ok
    pure (toLex ((ofLex anchor).1, key)) : Except SearchError EventAnchor) = _
  rw [EventKey.fromBytes_bytes hkey]
  rfl

end ErrorSearch

/-! ### Payloads -/

namespace JsonFields

theorem lookup_insert_self {key : Text} {value : JsonValue} {fields : JsonFields} :
    (insert key value fields).lookup key = some value := by
  induction fields with
  | nil => rw [insert, List.lookup_cons_self]
  | cons entry fields ih =>
      obtain ⟨stored, old⟩ := entry
      rw [insert]
      split_ifs with heq
      · rw [List.lookup_cons_self]
      · have hbeq : (key == stored) = false := beq_eq_false_iff_ne.mpr (Ne.symm heq)
        rw [List.lookup_cons, hbeq, ih]

/-- A member that is there once has its value, when it has one. -/
theorem lookup_insertMembers_of_mem {key : Text} {value : Option JsonValue} {fields : JsonFields}
    {members : List (Text × Option JsonValue)} (hnodup : (members.map Prod.fst).Nodup) (h : (key, value) ∈ members) :
    (insertMembers fields members).lookup key = value.or (fields.lookup key) := by
  induction members generalizing fields with
  | nil => cases h
  | cons member members ih =>
      rw [List.map_cons, List.nodup_cons] at hnodup
      rw [insertMembers, List.foldl_cons, ← insertMembers]
      obtain heq | hmem := List.mem_cons.mp h
      · subst heq
        rw [lookup_insertMembers hnodup.1]
        cases value with
        | none => rfl
        | some value => exact lookup_insert_self
      · have hne : key ≠ member.1 := by
          rintro rfl
          exact hnodup.1 (List.mem_map.mpr ⟨_, hmem, rfl⟩)
        rw [ih hnodup.2 hmem]
        cases member.2 with
        | none => rfl
        | some other => exact congrArg value.or (lookup_insert_of_ne hne)

end JsonFields

namespace EventNormalizer

variable {json : JsonCodec} {body : NormalizedEventBody}

theorem nodup_bodyMembers : ((bodyMembers json body).map Prod.fst).Nodup := by
  rw [bodyMembers]
  simp only [List.map_cons, List.map_nil]
  decide

/-- A member of a body is in its object. -/
theorem lookup_bodyFields {key : Text} {value : Option JsonValue}
    (hunknown : ∀ entry ∈ body.unknown, entry.1 ∉ knownFields.map String.toList)
    (hknown : key ∈ knownFields.map String.toList) (h : (key, value) ∈ bodyMembers json body) :
    (bodyFields json body).lookup key = value := by
  have hapart : key ∉ (body.unknown.map fun entry => (entry.1, some (canonicalToValue json entry.2))).map Prod.fst := by
    rw [List.map_map]
    intro hmem
    obtain ⟨entry, hentry, rfl⟩ := List.mem_map.mp hmem
    exact hunknown entry hentry hknown
  rw [bodyFields, JsonFields.lookup_insertMembers hapart, JsonFields.lookup_insertMembers_of_mem nodup_bodyMembers h]
  exact Option.or_none

end EventNormalizer

namespace EventFinalizer

open EventNormalizer Finalization

/-- A request that the pipeline makes of a normalized Event, with the value that its payload is printed from and read as. -/
structure Requested (json : JsonCodec) (blake3 : List (BitVec 8) → BitVec 256) (event : NormalizedEvent)
    (payload : JsonValue) (request : FinalizeEvent) : Prop where
  normalized : ∃ limits parseTimestamp decode accepted, normalize limits parseTimestamp decode accepted = .ok event
  prepared : ∃ config symbolication grouping issue, prepare json blake3 config event symbolication grouping issue
    = .ok request ∧ payload = chosenPayload json config event symbolication
  printed : json.fromSlice request.payload = some payload

/-- The spelling of the number that identifies a user. -/
def userNumber : CanonicalValue → Option Text
  | .object fields =>
      match fields.lookup "id".toList with
      | some (.number spelling) => some spelling
      | _ => none
  | .number spelling => some spelling
  | _ => none

/-- The number of a user is read back under the spelling that it is printed with. -/
def NumberKept (json : JsonCodec) (event : NormalizedEvent) : Prop :=
  ∀ spelling, event.body.user.bind userNumber = some spelling →
    ∃ number, json.fromStr spelling = some (.number number) ∧ number.spelling = spelling

theorem lookup_canonicalMapToJsonMap (json : JsonCodec) (key : Text) (fields : List (Text × CanonicalValue)) :
    (canonicalMapToJsonMap json fields).lookup key = (fields.lookup key).map (canonicalToValue json) := by
  induction fields with
  | nil => rfl
  | cons field fields ih =>
      obtain ⟨name, value⟩ := field
      rw [canonicalMapToJsonMap, List.lookup_cons, List.lookup_cons, ih]
      cases key == name <;> rfl

theorem mem_searchTokens {blake3 : List (BitVec 8) → BitVec 256} {event : NormalizedEvent} {found : SearchToken} :
    found ∈ searchTokens blake3 event ↔ (∃ release, event.body.release = some release ∧ releaseToken blake3 release = found)
      ∨ (∃ environment, event.body.environment = some environment ∧ environmentToken blake3 environment = found)
      ∨ ∃ id, event.body.user.bind userId = some id ∧ userIdToken blake3 id = found := by
  rw [searchTokens, Finset.mem_sort, List.mem_toFinset]
  simp only [List.mem_append, Option.mem_toList, Option.map_eq_some_iff, or_assoc]

namespace Requested

variable {json : JsonCodec} {blake3 : List (BitVec 8) → BitVec 256} {event : NormalizedEvent} {payload : JsonValue}
  {request : FinalizeEvent}

theorem bytes (h : Requested json blake3 event payload request) : request.payload = json.toVec payload
    ∧ request.searchTokens = searchTokens blake3 event ∧ request.occurredAt = event.body.occurredAt := by
  obtain ⟨config, symbolication, grouping, issue, hprepare, rfl⟩ := h.prepared
  simp only [prepare, bind_eq_ok, pure_eq_ok] at hprepare
  obtain ⟨-, -, -, -, -, -, rfl⟩ := hprepare
  exact ⟨rfl, rfl, rfl⟩

/-- What the payload has under the name of a member of its body. -/
theorem get (h : Requested json blake3 event payload request) {key : Text} {value : Option JsonValue}
    (hknown : key ∈ knownFields.map String.toList) (hmember : (key, value) ∈ bodyMembers json event.body) :
    payload.get key = value := by
  obtain ⟨limits, parseTimestamp, decode, accepted, hnormalize⟩ := h.normalized
  obtain ⟨config, symbolication, grouping, issue, -, rfl⟩ := h.prepared
  have hne : key ≠ "_metric".toList := by
    rintro rfl
    exact absurd hknown (by decide)
  have hlookup := lookup_bodyFields (normalize_unknown hnormalize) hknown hmember
  have hvalue : ∀ includeSourceContext, (processedValue json event symbolication includeSourceContext).get key = value := by
    intro includeSourceContext
    rw [processedValue, JsonValue.get, JsonValue.asObject, Option.bind_some, JsonFields.lookup_insert_of_ne hne, hlookup]
  rw [chosenPayload]
  split_ifs
  · exact hvalue false
  · exact hvalue true

theorem isObject (h : Requested json blake3 event payload request) : payload.asObject.isSome := by
  obtain ⟨config, symbolication, grouping, issue, -, rfl⟩ := h.prepared
  rw [chosenPayload]
  split_ifs <;> rfl

end Requested

end EventFinalizer

/-! ### The index -/

namespace ErrorSearch

open QueryLanguage Finalization EventNormalizer EventFinalizer PostgresInvestigation

/-- The tokens of a row find what its payload says. -/
structure Indexed (blake3 : List (BitVec 8) → BitVec 256) (columns : FinalizedColumns) (payload : JsonValue) : Prop where
  environment : ∀ text, text ≠ [] → textOrDefault (payload.get "environment".toList) = text →
    environmentToken blake3 text ∈ columns.searchTokens
  release : ∀ text, text ≠ [] → textOrDefault (payload.get "release".toList) = text →
    releaseToken blake3 text ∈ columns.searchTokens
  userId : ∀ text, text ≠ [] → userIdText (payload.get "user".toList) = text →
    userIdToken blake3 text ∈ columns.searchTokens

section Indexing

variable {json : JsonCodec} {blake3 : List (BitVec 8) → BitVec 256} {event : NormalizedEvent} {payload : JsonValue}
  {request : FinalizeEvent} {columns : FinalizedColumns}

/-- The text of a member that is a text. -/
theorem eq_some_of_textOrDefault {member : Option Text} {text : Text} (hne : text ≠ [])
    (h : textOrDefault (member.map .string) = text) : member = some text := by
  cases member with
  | none => exact absurd h.symm hne
  | some value => exact congrArg some h

theorem userId_of_userIdText (hkept : NumberKept json event) {text : Text} (hne : text ≠ [])
    (h : userIdText (event.body.user.map (canonicalToValue json)) = text) :
    event.body.user.bind EventFinalizer.userId = some text := by
  cases huser : event.body.user with
  | none =>
      rw [huser] at h
      exact absurd h.symm hne
  | some user =>
      cases user with
      | object fields =>
          rw [huser, Option.map_some, canonicalToValue] at h
          rw [Option.bind_some, EventFinalizer.userId]
          have hget : (JsonValue.object (canonicalMapToJsonMap json fields)).get "id".toList
              = (fields.lookup "id".toList).map (canonicalToValue json) := lookup_canonicalMapToJsonMap json _ fields
          rw [userIdText, Option.bind_some, hget] at h
          cases hid : fields.lookup "id".toList with
          | none =>
              rw [hid] at h
              exact absurd h.symm hne
          | some id =>
              rw [hid, Option.map_some] at h
              cases id with
              | string value => exact congrArg some h
              | number spelling =>
                  obtain ⟨number, hread, hspelling⟩ := hkept spelling (by rw [huser, Option.bind_some, userNumber, hid])
                  rw [canonicalToValue, hread, Option.getD_some] at h
                  exact congrArg some (hspelling.symm.trans h)
              | null => exact absurd h.symm hne
              | bool value => exact absurd h.symm hne
              | array items => exact absurd h.symm hne
              | object inner => exact absurd h.symm hne
      | null =>
          rw [huser] at h
          exact absurd h.symm hne
      | bool value =>
          rw [huser] at h
          exact absurd h.symm hne
      | number spelling =>
          obtain ⟨number, hread, -⟩ := hkept spelling (by rw [huser, Option.bind_some, userNumber])
          rw [huser, Option.map_some, canonicalToValue, hread] at h
          exact absurd h.symm hne
      | string value =>
          rw [huser] at h
          exact absurd h.symm hne
      | array items =>
          rw [huser] at h
          exact absurd h.symm hne

/-- The tokens that the finalizer derives find the payload that it prints. -/
theorem Indexed.of_requested (h : Requested json blake3 event payload request) (hkept : NumberKept json event)
    (htokens : columns.searchTokens = request.searchTokens) : Indexed blake3 columns payload := by
  have hmem : ∀ found, found ∈ columns.searchTokens ↔ found ∈ searchTokens blake3 event := by
    intro found
    rw [htokens, h.bytes.2.1]
  refine ⟨fun text hne htext => ?_, fun text hne htext => ?_, fun text hne htext => ?_⟩
  · rw [h.get (by decide) (show ("environment".toList, event.body.environment.map .string) ∈ _ by simp [bodyMembers])]
      at htext
    exact (hmem _).mpr (mem_searchTokens.mpr (.inr (.inl ⟨text, eq_some_of_textOrDefault hne htext, rfl⟩)))
  · rw [h.get (by decide) (show ("release".toList, event.body.release.map .string) ∈ _ by simp [bodyMembers])] at htext
    exact (hmem _).mpr (mem_searchTokens.mpr (.inl ⟨text, eq_some_of_textOrDefault hne htext, rfl⟩))
  · rw [h.get (by decide)
      (show ("user".toList, event.body.user.map (canonicalToValue json)) ∈ _ by simp [bodyMembers])] at htext
    exact (hmem _).mpr (mem_searchTokens.mpr (.inr (.inr ⟨text, userId_of_userIdText hkept hne htext, rfl⟩)))

end Indexing

/-! ### Anchors -/

section Anchors

variable {blake3 : List (BitVec 8) → BitVec 256} {rfc3339 : Text → Option Int} {projectId : ProjectId} {row : EventRow}
  {columns : FinalizedColumns} {view : EventView} {payload : JsonValue} {anchor : SearchStorageAnchor}

/-- What a predicate that holds compares, but for times. -/
theorem candidateText_of_matches {predicate : QueryPredicate} (htime : predicate.field ≠ .timestamp)
    (h : matchesPredicate rfc3339 view payload predicate = true) :
    candidateText view payload predicate.field = some predicate.value := by
  rw [matchesPredicate, if_neg htime, Option.any_eq_true] at h
  obtain ⟨candidate, hcandidate, h⟩ := h
  rw [Bool.and_eq_true, decide_eq_true_iff, decide_eq_true_iff] at h
  rw [hcandidate, h.2]

/-- The anchor of a predicate selects the rows of the Events that satisfy it. -/
theorem anchorSelects_of_predicate (hkey : view.key = EventKey.new projectId row.eventId)
    (hissue : view.issueId = columns.issueId) (hindexed : Indexed blake3 columns payload) {predicate : QueryPredicate}
    (hvalue : predicate.value ≠ []) (hmatches : matchesPredicate rfc3339 view payload predicate = true)
    (hanchor : predicateAnchor blake3 projectId predicate = some anchor) :
    anchorSelects projectId row columns anchor = true := by
  obtain ⟨field, operator, value⟩ := predicate
  rw [predicateAnchor] at hanchor
  split_ifs at hanchor
  have hcandidate : field ≠ .timestamp → candidateText view payload field = some value := fun htime =>
    @candidateText_of_matches rfc3339 view payload ⟨field, operator, value⟩ htime hmatches
  cases field with
  | eventId =>
      have hid : value = hexIdentity row.eventId.asBytes := by
        have htext := Option.some.inj (hcandidate (by decide))
        rw [hkey, EventKey.eventId_new] at htext
        exact htext.symm
      rw [hid, parseHexIdentifier_hexIdentity] at hanchor
      obtain rfl := Option.some.inj hanchor
      simp only [anchorSelects, EventKey.projectNumber_new, EventKey.eventId_new, decide_true, Bool.and_self]
  | issueId =>
      obtain ⟨id, hid, rfl⟩ := Option.map_eq_some_iff.mp hanchor
      have htext : value = hexEncode view.issueId.bytes := (Option.some.inj (hcandidate (by decide))).symm
      rw [parseHex16, htext, hexDecode_hexEncode] at hid
      split_ifs at hid
      have hread : Identity.fromBytes view.issueId.bytes = id := Option.some.inj hid
      rw [ApiCursors.fromBytes_bytes] at hread
      rw [anchorSelects, ← hread, hissue, decide_eq_true_iff]
  | environment =>
      obtain rfl := Option.some.inj hanchor
      exact decide_eq_true (hindexed.environment value hvalue (Option.some.inj (hcandidate (by decide))))
  | release =>
      obtain rfl := Option.some.inj hanchor
      exact decide_eq_true (hindexed.release value hvalue (Option.some.inj (hcandidate (by decide))))
  | userId =>
      obtain rfl := Option.some.inj hanchor
      exact decide_eq_true (hindexed.userId value hvalue (Option.some.inj (hcandidate (by decide))))
  | _ => cases hanchor

/-- The anchor of an expression selects the rows of the Events that satisfy it. -/
theorem anchorSelects_of_matches (hkey : view.key = EventKey.new projectId row.eventId)
    (hissue : view.issueId = columns.issueId) (hindexed : Indexed blake3 columns payload) {expression : QueryExpression}
    (hvalues : ∀ predicate ∈ expression.predicates, predicate.value ≠ [])
    (hmatches : matchesExpression rfc3339 view payload expression = true)
    (hanchor : guaranteedAnchor blake3 projectId expression = some anchor) :
    anchorSelects projectId row columns anchor = true := by
  induction expression using Formula.induction with
  | predicate predicate =>
      exact anchorSelects_of_predicate hkey hissue hindexed (hvalues predicate (List.mem_singleton.mpr rfl)) hmatches
        hanchor
  | not value ih => cases hanchor
  | and values ih =>
      rw [guaranteedAnchor, Formula.fold_and, ← guaranteedAnchor, List.findSome?_map] at hanchor
      obtain ⟨value, hmem, hvalue⟩ := List.exists_of_findSome?_eq_some hanchor
      rw [matchesExpression, Formula.eval_and, List.all_eq_true] at hmatches
      rw [Formula.predicates_and] at hvalues
      refine ih value hmem (fun predicate hpredicate => hvalues predicate ?_) (hmatches value hmem) hvalue
      exact List.mem_flatten_of_mem (List.mem_map_of_mem hmem) hpredicate
  | or values ih =>
      rw [guaranteedAnchor, Formula.fold_or] at hanchor
      cases hanchor

/-- The anchor of a branch selects the rows of the Events that satisfy its alternative. -/
theorem branchAnchor_selects (hkey : view.key = EventKey.new projectId row.eventId)
    (hissue : view.issueId = columns.issueId) (hindexed : Indexed blake3 columns payload) {expression : QueryExpression}
    (hvalues : ∀ predicate ∈ expression.predicates, predicate.value ≠ [])
    (hmatches : matchesExpression rfc3339 view payload expression = true) :
    anchorSelects projectId row columns ((guaranteedAnchor blake3 projectId expression).getD .projectTimeline) = true := by
  cases hanchor : guaranteedAnchor blake3 projectId expression with
  | none => rfl
  | some anchor => exact anchorSelects_of_matches hkey hissue hindexed hvalues hmatches hanchor

/-- The alternatives at the top have the predicates of the expression. -/
theorem predicates_of_mem_topAlternatives {expression : Option QueryExpression} {value : QueryExpression}
    (h : value ∈ topAlternatives expression) {predicate : QueryPredicate} (hpredicate : predicate ∈ value.predicates) :
    ∃ whole ∈ expression, predicate ∈ whole.predicates := by
  cases expression with
  | none => cases h
  | some expression =>
      refine ⟨expression, rfl, ?_⟩
      cases expression with
      | or values =>
          rw [Formula.predicates_or]
          exact List.mem_flatten_of_mem (List.mem_map_of_mem h) hpredicate
      | _ =>
          obtain rfl := List.mem_singleton.mp h
          exact hpredicate

/-- An expression that holds has an alternative at the top that holds. -/
theorem exists_topAlternative {expression : QueryExpression}
    (h : matchesExpression rfc3339 view payload expression = true) :
    ∃ value ∈ topAlternatives (some expression), matchesExpression rfc3339 view payload value = true := by
  cases expression with
  | or values =>
      rw [matchesExpression, Formula.eval_or, List.any_eq_true] at h
      exact h
  | _ => exact ⟨_, List.mem_singleton.mpr rfl, h⟩

/-- Some branch of a search selects the row of an Event in its range that satisfies the query. -/
theorem exists_branchSelects (hkey : view.key = EventKey.new projectId row.eventId)
    (hissue : view.issueId = columns.issueId) (hindexed : Indexed blake3 columns payload)
    {expression : Option QueryExpression} {start «until» : Timestamp}
    (hrange : start ≤ columns.occurredAt ∧ columns.occurredAt < «until»)
    (hvalues : ∀ value ∈ expression, ∀ predicate ∈ value.predicates, predicate.value ≠ [])
    (hmatches : ∀ value ∈ expression, matchesExpression rfc3339 view payload value = true) :
    (storageBranches blake3 projectId expression start «until»).any (branchSelects projectId row columns) = true := by
  have hselects : ∀ anchor, anchorSelects projectId row columns anchor = true →
      branchSelects projectId row columns ⟨anchor, start, «until»⟩ = true := by
    intro anchor hanchor
    rw [branchSelects, hanchor, decide_eq_true hrange.1, decide_eq_true hrange.2]
    rfl
  rw [storageBranches]
  split_ifs with hempty
  · rw [List.any_eq_true]
    exact ⟨_, List.mem_singleton.mpr rfl, hselects .projectTimeline rfl⟩
  · cases expression with
    | none => exact absurd rfl hempty
    | some expression =>
        obtain ⟨value, hmem, hvalue⟩ := exists_topAlternative (hmatches expression rfl)
        rw [List.any_map, List.any_eq_true]
        refine ⟨value, hmem, hselects _ (branchAnchor_selects hkey hissue hindexed (fun predicate hpredicate => ?_) hvalue)⟩
        obtain ⟨whole, hwhole, hpredicate⟩ := predicates_of_mem_topAlternatives hmem hpredicate
        exact hvalues whole hwhole predicate hpredicate

end Anchors

end ErrorSearch

end MetricBackend
