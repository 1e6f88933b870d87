import MetricBackend.ApiCursors
import MetricBackend.LibMarks
import MetricBackend.QueryPrinting

/-! Cursors and the queries they were issued for: the normalized text of a query can be read in one way, so that equal
digests come from equal queries, and a cursor is refused under any other kind, identifier length or digest. -/

namespace MetricBackend

namespace QueryLanguage

/-! ### Unique reading of normalized text -/

section Reading

/-- The characters behind a name. -/
def isMark (c : Char) : Prop := c = ':' ∨ c = '('

theorem fieldName_unmarked (field : QueryField) : ∀ c ∈ field.asStr, ¬ isMark c := by
  unfold isMark
  apply forall_mem_of_all
  cases field <;> decide

theorem operatorName_unmarked (operator : QueryOperator) : ∀ c ∈ operator.asStr, ¬ isMark c := by
  unfold isMark
  apply forall_mem_of_all
  cases operator <;> decide

theorem operatorAsStr_injective : Function.Injective QueryOperator.asStr := by
  intro left right h
  cases left <;> cases right <;> first | rfl | exact absurd h (by decide)

theorem fieldAsStr_injective : Function.Injective QueryField.asStr := injective_of_reads resolveField_asStr

/-- A character inside a quotation. -/
def escapedChar (c : Char) : Text := if c = quote ∨ c = backslash then [backslash, c] else [c]

theorem escaped_eq (value : Text) : escaped value = quote :: (value.flatMap escapedChar ++ [quote]) := rfl

theorem escapedChar_delimited (c : Char) : Delimited escapedChar c := by
  intro d rest other h
  rw [escapedChar, escapedChar] at h
  split_ifs at h with hc hd hd
  · obtain ⟨rfl, hrest⟩ := List.cons.inj (List.cons.inj h).2
    exact ⟨rfl, hrest⟩
  · exact absurd (.inr (List.cons.inj h).1.symm) hd
  · exact absurd (.inr (List.cons.inj h).1) hc
  · obtain ⟨rfl, hrest⟩ := List.cons.inj h
    exact ⟨rfl, hrest⟩

theorem escapedChar_ne_quote (c : Char) (rest other : Text) : escapedChar c ++ rest ≠ quote :: other := by
  intro h
  rw [escapedChar] at h
  split_ifs at h with hc
  · exact absurd (List.cons.inj h).1 (by decide)
  · exact hc (.inl (List.cons.inj h).1)

/-- A quotation ends at the first quote that no backslash stands before. -/
theorem escaped_delimited (value : Text) : Delimited escaped value := by
  intro right rest other h
  rw [escaped_eq, escaped_eq, List.cons_append, List.cons_append, List.cons.injEq, List.append_assoc,
    List.append_assoc] at h
  have hbody := h.2
  clear h
  induction value generalizing right with
  | nil =>
      cases right with
      | nil => exact ⟨rfl, (List.cons.inj hbody).2⟩
      | cons d right =>
          rw [List.flatMap_nil, List.flatMap_cons, List.append_assoc] at hbody
          exact absurd hbody.symm (escapedChar_ne_quote d _ _)
  | cons c value ih =>
      cases right with
      | nil =>
          rw [List.flatMap_nil, List.flatMap_cons, List.append_assoc] at hbody
          exact absurd hbody (escapedChar_ne_quote c _ _)
      | cons d right =>
          rw [List.flatMap_cons, List.flatMap_cons, List.append_assoc, List.append_assoc] at hbody
          obtain ⟨rfl, htail⟩ := escapedChar_delimited c hbody
          obtain ⟨rfl, hrest⟩ := ih htail
          exact ⟨rfl, hrest⟩

/-- The name that an expression begins with, the mark behind the name, and what comes then. -/
def opened : QueryExpression → Text × Char × Text
  | .predicate value => (value.field.asStr, ':', value.operator.asStr ++ ':' :: escaped value.value)
  | .not value => ("not".toList, '(', normalizedExpression value ++ [')'])
  | .and values => ("and".toList, '(', ((values.map normalizedExpression).intersperse [',']).flatten ++ [')'])
  | .or values => ("or".toList, '(', ((values.map normalizedExpression).intersperse [',']).flatten ++ [')'])

theorem normalizedExpression_eq (expression : QueryExpression) :
    normalizedExpression expression = (opened expression).1 ++ (opened expression).2.1 :: (opened expression).2.2 := by
  cases expression with
  | predicate value =>
      rw [normalizedExpression, Formula.fold_predicate, normalizedPredicate, List.append_assoc, List.cons_append]
      rfl
  | not value => rfl
  | and values =>
      rw [normalizedExpression, Formula.fold_and]
      rfl
  | or values =>
      rw [normalizedExpression, Formula.fold_or]
      rfl

theorem opened_unmarked (expression : QueryExpression) : ∀ c ∈ (opened expression).1, ¬ isMark c := by
  cases expression with
  | predicate value => exact fieldName_unmarked value.field
  | _ =>
      unfold isMark
      apply forall_mem_of_all
      exact (by decide : ∀ name ∈ ["not".toList, "and".toList, "or".toList],
        name.all fun c => ¬ (c = ':' ∨ c = '(')) _ (by simp [opened])

theorem isMark_opened (expression : QueryExpression) : isMark (opened expression).2.1 := by
  cases expression with
  | predicate value => exact .inl rfl
  | _ => exact .inr rfl

/-- Two expressions that begin a text have the same name, the same mark and the same text behind it. -/
theorem opened_inj {left right : QueryExpression} {rest other : Text}
    (h : normalizedExpression left ++ rest = normalizedExpression right ++ other) :
    (opened left).1 = (opened right).1 ∧ (opened left).2.1 = (opened right).2.1
      ∧ (opened left).2.2 ++ rest = (opened right).2.2 ++ other := by
  rw [normalizedExpression_eq, normalizedExpression_eq right, List.append_assoc, List.append_assoc, List.cons_append,
    List.cons_append] at h
  exact append_mark_inj (opened_unmarked left) (opened_unmarked right) (isMark_opened left) (isMark_opened right) h

theorem exists_normalized_cons (expression : QueryExpression) :
    ∃ first rest, normalizedExpression expression = first :: rest ∧ first ≠ ')' := by
  rw [normalizedExpression_eq]
  cases expression with
  | predicate value =>
      obtain ⟨-, first, rest, hname, -, -, hclose, -⟩ := fieldName_spec value.field
      refine ⟨first, rest ++ ':' :: (value.operator.asStr ++ ':' :: escaped value.value), ?_, hclose⟩
      rw [opened, hname]
      rfl
  | _ => exact ⟨_, _, rfl, by decide⟩

/-- An expression ends where its text does, whatever comes behind. -/
theorem normalizedExpression_delimited (expression : QueryExpression) :
    Delimited normalizedExpression expression := by
  have hmarks : ':' ≠ '(' := by decide
  have hnotAnd : "not".toList ≠ "and".toList := by decide
  have hnotOr : "not".toList ≠ "or".toList := by decide
  have handOr : "and".toList ≠ "or".toList := by decide
  induction expression using Formula.induction with
  | predicate value =>
      intro right rest other h
      obtain ⟨hname, hmark, htail⟩ := opened_inj h
      cases right with
      | predicate second =>
          rw [opened, opened, List.append_assoc, List.append_assoc, List.cons_append, List.cons_append] at htail
          obtain ⟨hoperator, -, hvalue⟩ := append_mark_inj (operatorName_unmarked _) (operatorName_unmarked _)
            (.inl rfl) (.inl rfl) htail
          obtain ⟨hescaped, hrest⟩ := escaped_delimited _ hvalue
          have hfield := fieldAsStr_injective hname
          have hoperator := operatorAsStr_injective hoperator
          refine ⟨congrArg Formula.predicate ?_, hrest⟩
          cases value
          cases second
          rw [QueryPredicate.mk.injEq]
          exact ⟨hfield, hoperator, hescaped⟩
      | not second => exact absurd hmark hmarks
      | and others => exact absurd hmark hmarks
      | or others => exact absurd hmark hmarks
  | not value ih =>
      intro right rest other h
      obtain ⟨hname, hmark, htail⟩ := opened_inj h
      cases right with
      | predicate second => exact absurd hmark hmarks.symm
      | not second =>
          rw [opened, opened, List.append_assoc, List.append_assoc] at htail
          obtain ⟨rfl, hrest⟩ := ih htail
          exact ⟨rfl, (List.cons.inj hrest).2⟩
      | and others => exact absurd hname hnotAnd
      | or others => exact absurd hname hnotOr
  | and values ih =>
      intro right rest other h
      obtain ⟨hname, hmark, htail⟩ := opened_inj h
      cases right with
      | predicate second => exact absurd hmark hmarks.symm
      | not second => exact absurd hname.symm hnotAnd
      | and others =>
          rw [opened, opened, List.append_assoc, List.append_assoc] at htail
          obtain ⟨rfl, hrest⟩ := joined_inj (by decide) exists_normalized_cons ih htail
          exact ⟨rfl, hrest⟩
      | or others => exact absurd hname handOr
  | or values ih =>
      intro right rest other h
      obtain ⟨hname, hmark, htail⟩ := opened_inj h
      cases right with
      | predicate second => exact absurd hmark hmarks.symm
      | not second => exact absurd hname.symm hnotOr
      | and others => exact absurd hname.symm handOr
      | or others =>
          rw [opened, opened, List.append_assoc, List.append_assoc] at htail
          obtain ⟨rfl, hrest⟩ := joined_inj (by decide) exists_normalized_cons ih htail
          exact ⟨rfl, hrest⟩

theorem normalizedExpression_injective : Function.Injective normalizedExpression := by
  intro left right h
  have happend : normalizedExpression left ++ [] = normalizedExpression right ++ [] := by rw [h]
  exact (normalizedExpression_delimited left happend).1

theorem sourceAsStr_injective : Function.Injective QuerySource.asStr := by
  intro left right h
  cases left <;> cases right <;> first | rfl | exact absurd h (by decide)

/-- The normalized text of a query with an expression or without one. -/
def normalizedText (source : QuerySource) : Option QueryExpression → Text
  | none => "v2|".toList ++ source.asStr ++ "|all".toList
  | some expression => "v2|".toList ++ source.asStr ++ '|' :: normalizedExpression expression

theorem normalizedExpression_ne_all (expression : QueryExpression) :
    normalizedExpression expression ≠ "all".toList := by
  intro heq
  have hmark := isMark_opened expression
  have hmem : (opened expression).2.1 ∈ "all".toList := by
    rw [← heq, normalizedExpression_eq]
    exact List.mem_append_right _ List.mem_cons_self
  have hall : ∀ c ∈ "all".toList, ¬ (c = ':' ∨ c = '(') := forall_mem_of_all (by decide)
  exact hall _ hmem hmark

theorem normalizedText_inj {left right : QuerySource} {first second : Option QueryExpression}
    (h : normalizedText left first = normalizedText right second) : left = right ∧ first = second := by
  have hplain : ∀ source : QuerySource, ∀ c ∈ source.asStr, ¬ c = '|' := by
    intro source
    apply forall_mem_of_all
    cases source <;> decide
  have htext : ∀ source expression, ∃ rest, normalizedText source expression = "v2|".toList ++ (source.asStr ++ '|' :: rest)
      ∧ rest = expression.elim "all".toList normalizedExpression := by
    intro source expression
    cases expression with
    | none => exact ⟨_, List.append_assoc _ _ _, rfl⟩
    | some expression => exact ⟨_, List.append_assoc _ _ _, rfl⟩
  obtain ⟨rest, hleft, hrest⟩ := htext left first
  obtain ⟨other, hright, hother⟩ := htext right second
  rw [hleft, hright, List.append_cancel_left_eq] at h
  obtain ⟨hsource, -, hexpression⟩ := append_mark_inj (hplain left) (hplain right) rfl rfl h
  refine ⟨sourceAsStr_injective hsource, ?_⟩
  rw [hrest, hother] at hexpression
  cases first with
  | none =>
      cases second with
      | none => rfl
      | some second => exact absurd hexpression.symm (normalizedExpression_ne_all second)
  | some first =>
      cases second with
      | none => exact absurd hexpression (normalizedExpression_ne_all first)
      | some second => rw [normalizedExpression_injective hexpression]

end Reading

theorem parse_normalized {rfc3339 : Text → Option Int} {source : QuerySource} {input : Text} {parsed : ParsedQuery}
    (h : ParsedQuery.parse rfc3339 source input = .ok parsed) :
    parsed = ⟨source, parsed.expression, normalizedText source parsed.expression⟩ := by
  rw [ParsedQuery.parse, bind_eq_ok] at h
  obtain ⟨_, -, h⟩ := h
  split_ifs at h
  · rw [← pure_eq_ok.mp h]
    rfl
  · simp only [bind_eq_ok, pure_eq_ok] at h
    obtain ⟨tokens, -, ⟨expression, after⟩, -, _, -, rfl⟩ := h
    rfl

/-- Parsed queries with the same normalized text are equal. -/
theorem parsed_eq {rfc3339 : Text → Option Int} {source other : QuerySource} {input text : Text}
    {parsed second : ParsedQuery} (hparsed : ParsedQuery.parse rfc3339 source input = .ok parsed)
    (hsecond : ParsedQuery.parse rfc3339 other text = .ok second) (h : parsed.normalized = second.normalized) :
    parsed = second := by
  have hfirst := parse_normalized hparsed
  have hother := parse_normalized hsecond
  rw [hfirst, hother] at h
  obtain ⟨hsource, hexpression⟩ := normalizedText_inj h
  rw [hfirst, hother, hsource, hexpression]

end QueryLanguage

open QueryLanguage

namespace ApiCursors

/-! ### Cursors of searches -/

/-- An event search: a parsed query of a project in a time range. -/
structure SearchQuery (rfc3339 : Text → Option Int) where
  projectId : ProjectId
  parsed : ParsedQuery
  isParsed : ∃ source input, ParsedQuery.parse rfc3339 source input = .ok parsed
  start : Timestamp
  «until» : Timestamp

namespace SearchQuery

variable {rfc3339 : Text → Option Int}

/-- The text that the cursor of a search is bound to. -/
def text (query : SearchQuery rfc3339) : Text :=
  query.parsed.normalized ++ "|from:".toList ++ jsonInteger query.start.unixMillis ++ "|until:".toList
    ++ jsonInteger query.«until».unixMillis

def digest (blake3 : List (BitVec 8) → BitVec 256) (query : SearchQuery rfc3339) (kind : CursorKind) :
    List (BitVec 8) := cursorDigest blake3 query.projectId query.text kind

end SearchQuery

/-- What `cursor_digest` hashes. -/
def digestInput (projectId : ProjectId) (normalized : Text) (kind : CursorKind) : List (BitVec 8) :=
  utf8Bytes "metric/api-cursor/v1".toList ++ kind.code :: bigEndian 4 projectId.get
    ++ bigEndian 8 (byteLength normalized) ++ utf8Bytes normalized

theorem kindCode_injective : Function.Injective CursorKind.code := by
  intro left right h
  cases left <;> cases right <;> first | rfl | exact absurd h (by decide)

/-- The hashed bytes give the project, the text and the kind. -/
theorem digestInput_inj {project other : ProjectId} {left right : Text} {kind second : CursorKind}
    (h : digestInput project left kind = digestInput other right second) :
    project = other ∧ left = right ∧ kind = second := by
  have hproject := project.positive
  have hother := other.positive
  rw [digestInput, digestInput, List.append_assoc, List.append_assoc, List.append_assoc, List.append_assoc,
    List.append_cancel_left_eq, List.cons_append, List.cons_append, List.cons.injEq] at h
  obtain ⟨hkind, hrest⟩ := h
  obtain ⟨hbytes, hrest⟩ := List.append_inj hrest (by rw [length_bigEndian, length_bigEndian])
  obtain ⟨-, htext⟩ := List.append_inj hrest (by rw [length_bigEndian, length_bigEndian])
  have hget : (project.get.toNat : Int) = project.get ∧ (other.get.toNat : Int) = other.get := by omega
  rw [← hget.1, ← hget.2] at hbytes
  have hnat := bigEndian_injective (by omega) (by omega) hbytes
  exact ⟨ProjectId.get_injective (by omega), utf8Bytes_injective htext, kindCode_injective hkind⟩

/-- The bounds are read from the end of a text and the query is what is left. -/
theorem bounded_inj {left right : Text} {start «until» start' until' : Int}
    (h : left ++ "|from:".toList ++ jsonInteger start ++ "|until:".toList ++ jsonInteger «until»
      = right ++ "|from:".toList ++ jsonInteger start' ++ "|until:".toList ++ jsonInteger until') :
    left = right ∧ start = start' ∧ «until» = until' := by
  have hplain : ∀ value, ∀ c ∈ jsonInteger value, ¬ c = ':' := by
    rintro value c hc rfl
    rcases mem_jsonInteger hc with hminus | hdigit
    · exact absurd hminus (by decide)
    · exact absurd hdigit (by decide)
  have hlast : ∀ (name text : Text) value, text ++ (name ++ [':']) ++ jsonInteger value
      = text ++ name ++ ':' :: jsonInteger value := by
    intro name text value
    rw [← List.append_assoc, List.append_assoc, List.singleton_append]
  have hfrom : "|from:".toList = "|from".toList ++ [':'] := by decide
  have huntil : "|until:".toList = "|until".toList ++ [':'] := by decide
  rw [hfrom, huntil] at h
  simp only [hlast] at h
  obtain ⟨hfront, -, hbound⟩ := mark_append_inj (hplain _) (hplain _) rfl rfl h
  obtain ⟨hquery, -, hstart⟩ := mark_append_inj (hplain _) (hplain _) rfl rfl (List.append_cancel_right hfront)
  exact ⟨List.append_cancel_right hquery, jsonInteger_injective hstart, jsonInteger_injective hbound⟩

theorem SearchQuery.text_inj {rfc3339 : Text → Option Int} {left right : SearchQuery rfc3339}
    (h : left.text = right.text) :
    left.parsed = right.parsed ∧ left.start = right.start ∧ left.«until» = right.«until» := by
  obtain ⟨hnormalized, hstart, huntil⟩ := bounded_inj h
  obtain ⟨source, input, hleft⟩ := left.isParsed
  obtain ⟨other, text, hright⟩ := right.isParsed
  exact ⟨parsed_eq hleft hright hnormalized, Timestamp.unixMillis_injective hstart,
    Timestamp.unixMillis_injective huntil⟩

/-- A cursor is refused under another kind, another length of its identifier or another digest. -/
theorem decodeCursor_refused {kind other : CursorKind} {timestamp : Timestamp} {id digest second : List (BitVec 8)}
    {idLen : Nat} (hdigest : digest.length = 16) (h : other ≠ kind ∨ idLen ≠ id.length ∨ second ≠ digest) :
    decodeCursor (encodeCursor kind timestamp id digest) other idLen second = .error .invalidCursor := by
  have htime := length_bigEndian 8 timestamp.unixMillis
  have hlength : (1 :: kind.code :: bigEndian 8 timestamp.unixMillis ++ BitVec.ofNat 8 id.length :: id
      ++ digest).length = 27 + id.length := by
    simp only [List.cons_append, List.length_cons, List.length_append, htime, hdigest]
    omega
  have hdrop : (1 :: kind.code :: bigEndian 8 timestamp.unixMillis ++ BitVec.ofNat 8 id.length :: id
      ++ digest).drop (11 + id.length) = digest := by
    refine List.drop_left' ?_
    simp only [List.cons_append, List.length_cons, List.length_append, htime]
    omega
  have hkindAt : (1 :: kind.code :: bigEndian 8 timestamp.unixMillis ++ BitVec.ofNat 8 id.length :: id ++ digest)[1]?
      = some kind.code := rfl
  rw [decodeCursor, encodeCursor]
  generalize (1 :: kind.code :: bigEndian 8 timestamp.unixMillis ++ BitVec.ofNat 8 id.length :: id ++ digest) = value
    at hlength hdrop hkindAt ⊢
  by_cases hlong : 128 < byteLength (hexEncode value)
  · exact bind_eq_error.mpr (.inl (failIf_eq_error.mpr ⟨hlong, rfl⟩))
  · have hread : (hexDecode (hexEncode value)).elim (Except.error SearchError.invalidCursor) Except.ok = .ok value := by
      rw [hexDecode_hexEncode, Option.elim_some]
    refine bind_eq_error.mpr (.inr ⟨(), failIf_eq_ok.mpr hlong, bind_eq_error.mpr (.inr ⟨value, hread, ?_⟩)⟩)
    refine bind_eq_error.mpr (.inl (failIf_eq_error.mpr ⟨?_, rfl⟩))
    by_cases hid : idLen = id.length
    · subst hid
      rcases h with hkind | hid | hdigests
      · refine .inr (.inr (.inl fun heq => hkind (kindCode_injective ?_)))
        exact (Option.some.inj (hkindAt.symm.trans heq)).symm
      · exact absurd rfl hid
      · refine .inr (.inr (.inr (.inr ?_)))
        rw [hdrop]
        exact hdigests.symm
    · refine .inl ?_
      rw [hlength]
      omega

/-- A cursor is taken under no digest but the one of its query and kind. -/
theorem SearchQuery.eq_of_accepted {rfc3339 : Text → Option Int} {blake3 : List (BitVec 8) → BitVec 256}
    {inputs : Set (List (BitVec 8))} (hinjective : Set.InjOn (digestPrefix blake3) inputs)
    {issued asked : SearchQuery rfc3339} {kind other : CursorKind} {timestamp : Timestamp} {id : List (BitVec 8)}
    {idLen : Nat} (hissued : digestInput issued.projectId issued.text kind ∈ inputs)
    (hasked : digestInput asked.projectId asked.text other ∈ inputs)
    (hok : (decodeCursor (encodeCursor kind timestamp id (issued.digest blake3 kind)) other idLen
      (asked.digest blake3 other)).isOk) : issued = asked ∧ kind = other := by
  by_cases hdigests : asked.digest blake3 other = issued.digest blake3 kind
  · have hinputs := hinjective hasked hissued hdigests
    obtain ⟨hproject, htext, hkind⟩ := digestInput_inj hinputs
    obtain ⟨hparsed, hstart, huntil⟩ := SearchQuery.text_inj htext
    refine ⟨?_, hkind.symm⟩
    cases issued
    cases asked
    rw [SearchQuery.mk.injEq]
    exact ⟨hproject.symm, hparsed.symm, hstart.symm, huntil.symm⟩
  · have hlength : (issued.digest blake3 kind).length = 16 := length_digestPrefix blake3 _
    rw [decodeCursor_refused hlength (.inr (.inr hdigests))] at hok
    cases hok

/-- Cursors are bound to their query. No hash is injective on all inputs, so it is on those that are looked at. -/
theorem cursors_bound (rfc3339 : Text → Option Int) (blake3 : List (BitVec 8) → BitVec 256)
    (inputs : Set (List (BitVec 8))) (hinjective : Set.InjOn (digestPrefix blake3) inputs) :
    (∀ (kind : CursorKind) (timestamp : Timestamp) (id digest : List (BitVec 8)), id.length ≤ 37 → digest.length = 16 →
        decodeCursor (encodeCursor kind timestamp id digest) kind id.length digest = .ok (timestamp, id)
        ∧ ∀ (other : CursorKind) (idLen : Nat) (second : List (BitVec 8)),
          other ≠ kind ∨ idLen ≠ id.length ∨ second ≠ digest →
          decodeCursor (encodeCursor kind timestamp id digest) other idLen second = .error .invalidCursor)
      ∧ Function.Injective normalizedExpression
      ∧ (∀ left right : SearchQuery rfc3339, left.text = right.text →
        left.parsed = right.parsed ∧ left.start = right.start ∧ left.«until» = right.«until»)
      ∧ ∀ (issued asked : SearchQuery rfc3339) (kind other : CursorKind) (timestamp : Timestamp)
        (id : List (BitVec 8)) (idLen : Nat), id.length ≤ 37 →
        digestInput issued.projectId issued.text kind ∈ inputs → digestInput asked.projectId asked.text other ∈ inputs →
        (decodeCursor (encodeCursor kind timestamp id (issued.digest blake3 kind)) other idLen
            (asked.digest blake3 other)).isOk →
          issued = asked ∧ kind = other := by
  refine ⟨fun kind timestamp id digest hid hdigest => ⟨decodeCursor_encodeCursor kind timestamp id hid hdigest,
    fun other idLen second => decodeCursor_refused hdigest⟩, normalizedExpression_injective,
    fun left right => SearchQuery.text_inj, ?_⟩
  intro issued asked kind other timestamp id idLen hid hissued hasked hok
  exact SearchQuery.eq_of_accepted hinjective hissued hasked hok

/-- Every event of the first day, in one of two projects. -/
def everyEvent (projectId : ProjectId) : SearchQuery fun _ => none where
  projectId := projectId
  parsed := ⟨.errors, none, "v2|errors|all".toList⟩
  isParsed := ⟨.errors, [], rfl⟩
  start := ⟨0, inRange_epoch⟩
  «until» := ⟨86400000, by decide⟩

def firstProject : ProjectId := ⟨1, ProjectId.positive_one⟩
def secondProject : ProjectId := ⟨2, ProjectId.positive_two⟩

def everyEventInput (projectId : ProjectId) : List (BitVec 8) :=
  digestInput projectId (everyEvent projectId).text .event

/-- The hashes of the inputs of the two projects. -/
def everyEventHash (input : List (BitVec 8)) : BitVec 256 :=
  if input = everyEventInput firstProject then 0x75a7d866340cc6e2ea7da328ed6c3f463c7167cdaebe50981567f608b5317498
  else 0x482977f0546fd23304c3bc2270c8cecb485d95f7c793b9a3f80af6bc9b5937fb

theorem everyEventHash_injOn : Set.InjOn (digestPrefix everyEventHash)
    {everyEventInput firstProject, everyEventInput secondProject} := by
  have hprojects : firstProject ≠ secondProject := by decide
  have hinputs : everyEventInput secondProject ≠ everyEventInput firstProject :=
    fun heq => hprojects (digestInput_inj heq).1.symm
  have hfirst : everyEventHash (everyEventInput firstProject)
      = 0x75a7d866340cc6e2ea7da328ed6c3f463c7167cdaebe50981567f608b5317498 := if_pos rfl
  have hsecond : everyEventHash (everyEventInput secondProject)
      = 0x482977f0546fd23304c3bc2270c8cecb485d95f7c793b9a3f80af6bc9b5937fb := if_neg hinputs
  have hdigests : digestPrefix everyEventHash (everyEventInput firstProject)
      ≠ digestPrefix everyEventHash (everyEventInput secondProject) := by
    rw [digestPrefix, digestPrefix, hfirst, hsecond]
    decide
  rintro left (rfl | rfl) right (rfl | rfl) heq
  · rfl
  · exact absurd heq hdigests
  · exact absurd heq.symm hdigests
  · rfl

theorem cursors_bound_everyEvent : ¬ (decodeCursor
    (encodeCursor .event ⟨0, by decide⟩ (bigEndian 20 7) ((everyEvent firstProject).digest everyEventHash .event))
    .event 20 ((everyEvent secondProject).digest everyEventHash .event)).isOk := by
  have hprojects : firstProject ≠ secondProject := by decide
  intro hok
  have hbound := (cursors_bound _ everyEventHash _ everyEventHash_injOn).2.2.2 (everyEvent firstProject)
    (everyEvent secondProject) .event .event ⟨0, by decide⟩ (bigEndian 20 7) 20 (by decide) (.inl rfl) (.inr rfl) hok
  exact hprojects (congrArg SearchQuery.projectId hbound.1)

end ApiCursors

end MetricBackend
