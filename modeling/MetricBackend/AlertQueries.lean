import MetricBackend.NotificationDispatch
import MetricBackend.PlannableQueries

/-! The query of an aggregate alert rule, `AggregateAlertEvaluator::evaluate_rule`: the filters are spliced
into a query text, which is parsed and planned like one that a user writes. -/

namespace MetricBackend

namespace AlertQueries

open QueryLanguage ExplorePlanner

/-- `str::replace` of a character by itself after a backslash. -/
def escapeChar (escapedChar : Char) (value : Text) : Text :=
  value.flatMap fun c => if c = escapedChar then [backslash, c] else [c]

def quoteQueryValue (value : Text) : Text := quote :: escapeChar quote (escapeChar backslash value) ++ [quote]

def querySource : ExploreDataset → QuerySource
  | .errors => .errors
  | .logs => .logs
  | .spans => .traces
  | .metrics => .metrics

def filterText (name : Text) (value : AlertFilterText) : Text := name ++ ':' :: quoteQueryValue value.asStr

def queryText (aggregate : AggregateAlert) : Text :=
  List.intercalate [' '] ([aggregate.environment.map (filterText "env".toList),
    aggregate.release.map (filterText "rel".toList)].filterMap id)

def aggregateAlias : Text := "count".toList

section Evaluation

variable (rfc3339 : Text → Option Int)

def aggregateExpression (aggregate : AggregateAlert) : Except QueryError (Option ExploreExpression) := do
  let query ← ParsedQuery.parse rfc3339 (querySource aggregate.dataset) (queryText aggregate)
  query.exploreExpression rfc3339

def aggregateQuery (aggregate : AggregateAlert) (now : Timestamp) : Except NotificationError ExploreQuery := do
  let start ← (Timestamp.fromUnixMillis (now.unixMillis - aggregate.lookbackMinutes * 60000)).mapError fun _ =>
    NotificationError.invalidData
  let expression ← (aggregateExpression rfc3339 aggregate).mapError fun _ => NotificationError.invalidData
  return ⟨aggregate.dataset, start, now, [], expression, [⟨.count, none, aggregateAlias⟩], [], none, none, 1⟩

end Evaluation

/-! ### What the filters say -/

def filterPredicate (field : ExploreField) (value : AlertFilterText) : ExplorePredicate :=
  ⟨field, .exact, some (.string value.asStr), none⟩

/-- The records of the environment and of the release that the rule names. -/
def configuredFilter (aggregate : AggregateAlert) : Option ExploreExpression :=
  match aggregate.environment, aggregate.release with
  | none, none => none
  | some environment, none => some (.predicate (filterPredicate .environment environment))
  | none, some release => some (.predicate (filterPredicate .release release))
  | some environment, some release =>
      some (.and [.predicate (filterPredicate .environment environment),
        .predicate (filterPredicate .release release)])

/-- A text that a query takes for a comparison. -/
def startsWithOperator (value : Text) : Bool := value.head? = some '<' || value.head? = some '>' || value.head? = some '='

/-! ### Reading the filters -/

theorem quoteQueryValue_eq_escaped (value : Text) : quoteQueryValue value = escaped value := by
  have hboth : escapeChar quote (escapeChar backslash value)
      = value.flatMap fun c => if c = quote ∨ c = backslash then [backslash, c] else [c] := by
    rw [escapeChar, escapeChar, List.flatMap_assoc]
    refine congrArg (value.flatMap ·) (funext fun c => ?_)
    by_cases hbackslash : c = backslash
    · subst hbackslash
      rfl
    · by_cases hquote : c = quote
      · subst hquote
        rfl
      · simp [hbackslash, hquote]
  rw [quoteQueryValue, hboth, escaped]

section Parsing

variable {rfc3339 : Text → Option Int} {source : QuerySource}

theorem parseOr_predicate (field value : Text) :
    parseOr rfc3339 source (parseDepth [.predicate field value]) 0 ⟨[.predicate field value], 0, 0, 0⟩
      = (fun predicate => (.predicate predicate, ⟨[], 1, 1, 0⟩)) <$> parsePredicate rfc3339 source field value := by
  cases hparse : parsePredicate rfc3339 source field value with
  | error error =>
      simp [parseDepth, parseOr, parseAnd, parseConjuncts, parseUnary, endsConjunction, skipAnd, hparse, bind,
        Except.bind]
  | ok predicate =>
      simp [parseDepth, parseOr, parseAnd, parseConjuncts, parseUnary, parseAlternatives, endsConjunction, skipAnd,
        hparse, bind, Except.bind, pure, Except.pure, Parser.predicate, Parser.node, failIf, maxQueryPredicates,
        maxQueryNodes]

theorem parseOr_predicates (field value other otherValue : Text) :
    parseOr rfc3339 source (parseDepth [.predicate field value, .predicate other otherValue]) 0
        ⟨[.predicate field value, .predicate other otherValue], 0, 0, 0⟩
      = do
        let first ← parsePredicate rfc3339 source field value
        let second ← parsePredicate rfc3339 source other otherValue
        return (.and [.predicate first, .predicate second], ⟨[], 2, 3, 0⟩) := by
  cases hfirst : parsePredicate rfc3339 source field value with
  | error error =>
      simp [parseDepth, parseOr, parseAnd, parseConjuncts, parseUnary, endsConjunction, skipAnd, hfirst, bind,
        Except.bind]
  | ok first =>
      cases hsecond : parsePredicate rfc3339 source other otherValue with
      | error error =>
          simp [parseDepth, parseOr, parseAnd, parseConjuncts, parseUnary, endsConjunction, skipAnd,
            hfirst, hsecond, bind, Except.bind, pure, Except.pure, Parser.predicate, Parser.node, failIf,
            maxQueryPredicates, maxQueryNodes]
      | ok second =>
          simp [parseDepth, parseOr, parseAnd, parseConjuncts, parseUnary, parseAlternatives, endsConjunction,
            skipAnd, hfirst, hsecond, bind, Except.bind, pure, Except.pure, Parser.predicate, Parser.node, failIf,
            maxQueryPredicates, maxQueryNodes]

/-- A text whose tokens are known is read as these. -/
theorem parse_of_reads {text : Text} {tokens : List Token} (hreads : Reads text tokens) (htrimmed : Trimmed text)
    (hbytes : byteLength text ≤ maxQueryBytes) (htokens : tokens ≠ []) :
    ParsedQuery.parse rfc3339 source text = do
      let (expression, parser) ← parseOr rfc3339 source (parseDepth tokens) 0 ⟨tokens, 0, 0, 0⟩
      failIf (¬ parser.tokens.isEmpty) .syntaxError
      return ⟨source, some expression, normalizedQuery source expression⟩ := by
  obtain ⟨c, rest, hfirst, -⟩ := htrimmed.first
  have hscan : scan text = .ok tokens := by
    have hwhole := hreads []
    rw [List.append_nil] at hwhole
    rw [hwhole]
    show Except.ok (tokens ++ []) = _
    rw [List.append_nil]
  have htokenize : tokenize text = .ok tokens := by
    refine bind_eq_ok.mpr ⟨tokens, hscan, bind_eq_ok.mpr ⟨(), failIf_eq_ok.mpr ?_, rfl⟩⟩
    exact fun hempty => htokens (List.isEmpty_iff.mp hempty)
  have hnonempty : ¬ text.isEmpty = true := by
    rw [hfirst]
    exact Bool.false_ne_true
  rw [ParsedQuery.parse]
  simp only [htrimmed.trimMatches]
  rw [failIf, if_neg (Nat.not_lt.mpr hbytes), if_neg hnonempty, htokenize]
  rfl

theorem filterText_spec (value : AlertFilterText) :
    value.asStr ≠ [] ∧ byteLength value.asStr ≤ 200 ∧ ∀ c ∈ value.asStr, isAsciiControl c = false := by
  have hvalid := value.valid
  simp only [validateNotificationText, bind_eq_ok, failIf_eq_ok] at hvalid
  obtain ⟨_, hempty, _, hbytes, hcontrol⟩ := hvalid
  refine ⟨fun h => hempty (List.isEmpty_iff.mpr h), Nat.not_lt.mp hbytes, fun c hc => ?_⟩
  have hc : isControl c = false := by
    rw [Bool.eq_false_iff]
    exact fun h => hcontrol (List.any_eq_true.mpr ⟨c, hc, h⟩)
  revert hc
  unfold isControl isAsciiControl
  simp
  omega

theorem byteLength_escaped_le (value : Text) : byteLength (escaped value) ≤ 2 * byteLength value + 2 := by
  have hflat : byteLength (value.flatMap fun c => if c = quote ∨ c = backslash then [backslash, c] else [c])
      ≤ 2 * byteLength value := by
    induction value with
    | nil => exact Nat.le_refl _
    | cons c rest ih =>
        have hpos := c.utf8Size_pos
        have hbackslash : backslash.utf8Size = 1 := rfl
        rw [List.flatMap_cons, byteLength_append, byteLength_cons]
        split <;> simp only [byteLength_cons, byteLength_nil, hbackslash] <;> omega
  have hquote : quote.utf8Size = 1 := rfl
  rw [escaped, List.cons_append, byteLength_cons, byteLength_append, byteLength_cons, byteLength_nil, hquote]
  omega

/-- The names that the filters have in the text of the query. -/
structure FilterName (name : Text) (field : QueryField) : Prop where
  plain : PlainName name
  trimmed : ∃ c rest, name = c :: rest ∧ isWhitespace c = false
  short : byteLength name = 3
  resolved : resolveField name = some field
  text : field = .environment ∨ field = .release

theorem filterName_env : FilterName "env".toList .environment :=
  ⟨⟨List.all_eq_true.mp rfl, _, _, rfl, by decide⟩, ⟨_, _, rfl, by decide⟩, rfl, by decide, .inl rfl⟩

theorem filterName_rel : FilterName "rel".toList .release :=
  ⟨⟨List.all_eq_true.mp rfl, _, _, rfl, by decide⟩, ⟨_, _, rfl, by decide⟩, rfl, by decide, .inr rfl⟩

variable {name : Text} {field : QueryField}

theorem FilterName.reads (h : FilterName name field) (value : AlertFilterText) :
    Reads (filterText name value) [.predicate name value.asStr] := by
  obtain ⟨hnonempty, -, hprintable⟩ := filterText_spec value
  rw [filterText, quoteQueryValue_eq_escaped]
  exact reads_named h.plain hnonempty hprintable

theorem FilterName.trimmed_filterText (h : FilterName name field) (value : AlertFilterText) :
    Trimmed (filterText name value) := by
  obtain ⟨c, rest, hname, hc⟩ := h.trimmed
  constructor
  · exact ⟨c, rest ++ ':' :: quoteQueryValue value.asStr, by rw [filterText, hname]; rfl, hc⟩
  · exact ⟨name ++ ':' :: quote :: escapeChar quote (escapeChar backslash value.asStr), quote,
      by simp [filterText, quoteQueryValue], rfl⟩

theorem FilterName.byteLength_filterText_le (h : FilterName name field) (value : AlertFilterText) :
    byteLength (filterText name value) ≤ 406 := by
  obtain ⟨-, hbytes, -⟩ := filterText_spec value
  have hescaped := byteLength_escaped_le value.asStr
  have hcolon : (':' : Char).utf8Size = 1 := rfl
  rw [filterText, quoteQueryValue_eq_escaped, byteLength_append, byteLength_cons, h.short, hcolon]
  omega

theorem splitOperator_plain {value : Text} (h : startsWithOperator value = false) :
    splitOperator value = (.equal, value) := by
  unfold splitOperator
  split <;> simp_all [startsWithOperator]

theorem splitOperator_shorter {value : Text} (h : startsWithOperator value = true) :
    (splitOperator value).2.length < value.length := by
  unfold splitOperator
  split
  case h_6 hgreaterOrEqual hlessOrEqual hgreater hless hequal =>
    cases value with
    | nil => cases h
    | cons c rest =>
        simp only [startsWithOperator, List.head?_cons, Option.some.injEq, Bool.or_eq_true, decide_eq_true_eq] at h
        obtain (rfl | rfl) | rfl := h
        · exact absurd rfl (hless rest)
        · exact absurd rfl (hgreater rest)
        · exact absurd rfl (hequal rest)
  all_goals simp only [List.length_cons]; omega

theorem FilterName.parsePredicate_eq_ok (h : FilterName name field) {value : Text} {predicate : QueryPredicate}
    (hparse : parsePredicate rfc3339 source name value = .ok predicate) :
    predicate = ⟨field, (splitOperator value).1, (splitOperator value).2⟩ := by
  rw [parsePredicate, h.resolved] at hparse
  simp only [bind_eq_ok, pure_eq_ok] at hparse
  obtain ⟨_, -, _, -, _, -, rfl⟩ := hparse
  rfl

/-- A filter is read back exactly when it does not start like a comparison. -/
theorem FilterName.parsePredicate_iff (h : FilterName name field) (haccepted : fieldAccepted source field = true)
    (value : AlertFilterText) :
    parsePredicate rfc3339 source name value.asStr = .ok ⟨field, .equal, value.asStr⟩
      ↔ startsWithOperator value.asStr = false := by
  constructor
  · intro hparse
    rw [Bool.eq_false_iff]
    intro hstarts
    have hshorter := splitOperator_shorter hstarts
    have hvalue : value.asStr = (splitOperator value.asStr).2 :=
      congrArg QueryPredicate.value (h.parsePredicate_eq_ok hparse)
    rw [← hvalue] at hshorter
    exact Nat.lt_irrefl _ hshorter
  · intro hplain
    obtain ⟨hnonempty, hbytes, -⟩ := filterText_spec value
    have hbounded : byteLength value.asStr ≤ maxValueBytes := Nat.le_trans hbytes (by decide)
    have hvalid : validValue rfc3339 source field value.asStr = true := by
      obtain rfl | rfl := h.text <;> exact decide_eq_true hbounded
    rw [parsePredicate, h.resolved]
    simp only [bind_eq_ok, pure_eq_ok, failIf_eq_ok, splitOperator_plain hplain, validateValue]
    refine ⟨(), not_not.mpr haccepted, (), ?_, (), ?_, trivial⟩
    · simp [hnonempty, hbounded, operatorAccepted]
    · have hcompared : QueryOperator.equal ≠ .contains := by decide
      rw [if_neg hcompared, failIf_eq_ok]
      exact not_not.mpr hvalid

/-- The parsed filter is the configured one exactly when it does not start like a comparison. -/
theorem FilterName.filter_iff (h : FilterName name field) (haccepted : fieldAccepted source field = true)
    (explored : ExploreField) (value : AlertFilterText) :
    (∃ predicate, parsePredicate rfc3339 source name value.asStr = .ok predicate
        ∧ (⟨explored, exploreOp predicate.operator, some (.string predicate.value), none⟩ : ExplorePredicate)
          = filterPredicate explored value)
      ↔ startsWithOperator value.asStr = false := by
  rw [← h.parsePredicate_iff haccepted]
  constructor
  · rintro ⟨predicate, hparse, hpredicate⟩
    have hfield := congrArg QueryPredicate.field (h.parsePredicate_eq_ok hparse)
    obtain ⟨queried, operator, found⟩ := predicate
    simp only [filterPredicate, ExplorePredicate.mk.injEq, Option.some.injEq, ExploreValue.string.injEq] at hpredicate
    obtain ⟨-, hoperator, rfl, -⟩ := hpredicate
    have hequal : operator = .equal := by
      cases operator <;> first | rfl | cases hoperator
    rw [hparse, hequal, show queried = field from hfield]
  · intro hparse
    exact ⟨_, hparse, rfl⟩

theorem FilterName.toExplorePredicate (h : FilterName name field) {explored : ExploreField}
    (hexplored : exploreField field = some explored) (dataset : ExploreDataset)
    (haccepted : explored.acceptedBy dataset = true) {value : Text} {predicate : QueryPredicate}
    (hparse : parsePredicate rfc3339 source name value = .ok predicate) :
    QueryLanguage.toExplorePredicate rfc3339 dataset predicate
      = .ok ⟨explored, exploreOp predicate.operator, some (.string predicate.value), none⟩ := by
  have hfield : predicate.field = field := congrArg QueryPredicate.field (h.parsePredicate_eq_ok hparse)
  rw [toExplorePredicate_eq_ok (hfield ▸ hexplored) haccepted]
  refine ⟨_, ?_, rfl⟩
  obtain rfl | rfl := h.text <;> obtain rfl := Option.some.inj hexplored <;> rfl

/-- The expression of a rule with one filter. -/
theorem aggregateExpression_single (h : FilterName name field) {explored : ExploreField}
    (hexplored : exploreField field = some explored) {aggregate : AggregateAlert}
    (haccepted : explored.acceptedBy aggregate.dataset = true) {value : AlertFilterText}
    (htext : queryText aggregate = filterText name value) :
    aggregateExpression rfc3339 aggregate
      = (fun predicate => some (.predicate
          ⟨explored, exploreOp predicate.operator, some (.string predicate.value), none⟩))
        <$> parsePredicate rfc3339 (querySource aggregate.dataset) name value.asStr := by
  have hdataset : exploreDataset (querySource aggregate.dataset) = some aggregate.dataset := by
    cases aggregate.dataset <;> rfl
  have hbytes := h.byteLength_filterText_le value
  rw [aggregateExpression, htext, parse_of_reads (h.reads value) (h.trimmed_filterText value)
    (Nat.le_trans hbytes (by decide)) nofun, parseOr_predicate]
  cases hparse : parsePredicate rfc3339 (querySource aggregate.dataset) name value.asStr with
  | error error => rfl
  | ok predicate =>
      have htyped := h.toExplorePredicate hexplored _ haccepted hparse
      show ParsedQuery.exploreExpression rfc3339 ⟨_, some (.predicate predicate), _⟩ = _
      rw [exploreExpression_some _ _ hdataset, toExploreExpression, Formula.mapM, Formula.fold_predicate, htyped]
      rfl

/-- The expression of a rule with both filters. -/
theorem aggregateExpression_both {aggregate : AggregateAlert}
    (haccepted : aggregate.dataset = .logs ∨ aggregate.dataset = .spans) {environment release : AlertFilterText}
    (htext : queryText aggregate
      = filterText "env".toList environment ++ [' '] ++ filterText "rel".toList release) :
    aggregateExpression rfc3339 aggregate = do
      let first ← parsePredicate rfc3339 (querySource aggregate.dataset) "env".toList environment.asStr
      let second ← parsePredicate rfc3339 (querySource aggregate.dataset) "rel".toList release.asStr
      return some (.and [
        .predicate ⟨.environment, exploreOp first.operator, some (.string first.value), none⟩,
        .predicate ⟨.release, exploreOp second.operator, some (.string second.value), none⟩]) := by
  have hdataset : exploreDataset (querySource aggregate.dataset) = some aggregate.dataset := by
    cases aggregate.dataset <;> rfl
  have hreads := ((filterName_env.reads environment).append reads_space).append (filterName_rel.reads release)
  have htrimmed := (filterName_env.trimmed_filterText environment).append [' ']
    (filterName_rel.trimmed_filterText release)
  have hbytes : byteLength (filterText "env".toList environment ++ [' '] ++ filterText "rel".toList release)
      ≤ maxQueryBytes := by
    have hfirst := filterName_env.byteLength_filterText_le environment
    have hsecond := filterName_rel.byteLength_filterText_le release
    have hspace : byteLength [' '] = 1 := rfl
    have hlimit : maxQueryBytes = 32768 := rfl
    rw [byteLength_append, byteLength_append, hspace]
    omega
  rw [aggregateExpression, htext, parse_of_reads hreads htrimmed hbytes nofun]
  simp only [List.append_nil, List.singleton_append]
  rw [parseOr_predicates]
  cases hfirst : parsePredicate rfc3339 (querySource aggregate.dataset) "env".toList environment.asStr with
  | error error => rfl
  | ok first =>
      cases hsecond : parsePredicate rfc3339 (querySource aggregate.dataset) "rel".toList release.asStr with
      | error error => rfl
      | ok second =>
          have henvironment := filterName_env.toExplorePredicate rfl aggregate.dataset
            (by obtain h | h := haccepted <;> rw [h] <;> rfl) hfirst
          have hrelease := filterName_rel.toExplorePredicate rfl aggregate.dataset
            (by obtain h | h := haccepted <;> rw [h] <;> rfl) hsecond
          show ParsedQuery.exploreExpression rfc3339 ⟨_, some (.and [.predicate first, .predicate second]), _⟩ = _
          rw [exploreExpression_some _ _ hdataset, toExploreExpression, Formula.mapM_and]
          simp only [List.map_cons, List.map_nil, Formula.mapM, Formula.fold_predicate, henvironment, hrelease]
          rfl

end Parsing

/-! ### Rules -/

/-- The texts of the filters that a rule has. -/
def filterTexts (aggregate : AggregateAlert) : List AlertFilterText :=
  aggregate.environment.toList ++ aggregate.release.toList

/-- Only logs and spans are filtered. -/
theorem filtered_dataset {aggregate : AggregateAlert} (hvalid : aggregate.validate = .ok ())
    (hfilters : aggregate.environment.isSome = true ∨ aggregate.release.isSome = true) :
    aggregate.dataset = .logs ∨ aggregate.dataset = .spans := by
  simp only [AggregateAlert.validate, failIf_eq_ok, not_or, not_and] at hvalid
  have hdataset := fun h => hvalid.2.2.2 h
  cases hd : aggregate.dataset with
  | logs => exact .inl rfl
  | spans => exact .inr rfl
  | errors => exact absurd hfilters (by simpa using hdataset (.inl hd))
  | metrics => exact absurd hfilters (by simpa using hdataset (.inr hd))

section Rules

variable {rfc3339 : Text → Option Int} {aggregate : AggregateAlert}

theorem accepted_of_filtered (hdataset : aggregate.dataset = .logs ∨ aggregate.dataset = .spans) :
    fieldAccepted (querySource aggregate.dataset) .environment = true
      ∧ fieldAccepted (querySource aggregate.dataset) .release = true
      ∧ ExploreField.environment.acceptedBy aggregate.dataset = true
      ∧ ExploreField.release.acceptedBy aggregate.dataset = true := by
  obtain h | h := hdataset <;> rw [h] <;> exact ⟨rfl, rfl, rfl, rfl⟩

/-- The expression of the query is the configured filter exactly when no filter starts like a comparison. -/
theorem aggregateExpression_iff (hvalid : aggregate.validate = .ok ()) :
    aggregateExpression rfc3339 aggregate = .ok (configuredFilter aggregate)
      ↔ ∀ value ∈ filterTexts aggregate, startsWithOperator value.asStr = false := by
  have hdataset := filtered_dataset hvalid
  cases henvironment : aggregate.environment with
  | none =>
      cases hrelease : aggregate.release with
      | none =>
          have htext : queryText aggregate = [] := by simp [queryText, henvironment, hrelease]
          have hempty : ParsedQuery.parse rfc3339 (querySource aggregate.dataset) []
              = .ok ⟨querySource aggregate.dataset, none,
                "v2|".toList ++ (querySource aggregate.dataset).asStr ++ "|all".toList⟩ := rfl
          have hexpression : aggregateExpression rfc3339 aggregate = .ok none := by
            rw [aggregateExpression, htext, hempty]
            cases aggregate.dataset <;> rfl
          rw [hexpression, configuredFilter, henvironment, hrelease, filterTexts, henvironment, hrelease]
          exact iff_of_true rfl fun _ h => absurd h List.not_mem_nil
      | some release =>
          obtain ⟨-, hfield, -, haccepted⟩ := accepted_of_filtered (hdataset (.inr (by rw [hrelease]; rfl)))
          have htext : queryText aggregate = filterText "rel".toList release := by
            simp [queryText, henvironment, hrelease]
          rw [aggregateExpression_single filterName_rel rfl haccepted htext, configuredFilter, henvironment, hrelease,
            filterTexts, henvironment, hrelease, map_eq_ok]
          simp only [Option.some.injEq, Formula.predicate.injEq]
          rw [filterName_rel.filter_iff hfield]
          simp
  | some environment =>
      cases hrelease : aggregate.release with
      | none =>
          obtain ⟨hfield, -, haccepted, -⟩ := accepted_of_filtered (hdataset (.inl (by rw [henvironment]; rfl)))
          have htext : queryText aggregate = filterText "env".toList environment := by
            simp [queryText, henvironment, hrelease]
          rw [aggregateExpression_single filterName_env rfl haccepted htext, configuredFilter, henvironment, hrelease,
            filterTexts, henvironment, hrelease, map_eq_ok]
          simp only [Option.some.injEq, Formula.predicate.injEq]
          rw [filterName_env.filter_iff hfield]
          simp
      | some release =>
          have hdataset := hdataset (.inl (by rw [henvironment]; rfl))
          obtain ⟨henvironmentField, hreleaseField, -, -⟩ := accepted_of_filtered hdataset
          have htext : queryText aggregate
              = filterText "env".toList environment ++ [' '] ++ filterText "rel".toList release := by
            simp [queryText, henvironment, hrelease, List.intercalate, List.intersperse]
          have hboth : (∀ value ∈ filterTexts aggregate, startsWithOperator value.asStr = false)
              ↔ startsWithOperator environment.asStr = false ∧ startsWithOperator release.asStr = false := by
            simp [filterTexts, henvironment, hrelease]
          rw [aggregateExpression_both hdataset htext, configuredFilter, henvironment, hrelease, hboth,
            ← filterName_env.filter_iff henvironmentField .environment environment,
            ← filterName_rel.filter_iff hreleaseField .release release]
          simp only [bind_eq_ok, pure_eq_ok, Option.some.injEq, Formula.and.injEq, List.cons.injEq,
            Formula.predicate.injEq, and_true]
          constructor
          · rintro ⟨first, hfirst, second, hsecond, hsame, hother⟩
            exact ⟨⟨first, hfirst, hsame⟩, second, hsecond, hother⟩
          · rintro ⟨⟨first, hfirst, hsame⟩, second, hsecond, hother⟩
            exact ⟨first, hfirst, second, hsecond, hsame, hother⟩

theorem filterPredicate_valid (hdataset : aggregate.dataset = .logs ∨ aggregate.dataset = .spans)
    (value : AlertFilterText) {field : ExploreField} (hfield : field = .environment ∨ field = .release) :
    validTypedPredicate aggregate.dataset (filterPredicate field value) = true := by
  obtain ⟨-, hbytes, -⟩ := filterText_spec value
  have hbounded : byteLength value.asStr ≤ maxTextBytes := Nat.le_trans hbytes (by decide)
  have hmatches : valueMatches aggregate.dataset field (.string value.asStr) = true := by
    obtain rfl | rfl := hfield <;> exact decide_eq_true hbounded
  have haccepted : field.acceptedBy aggregate.dataset = true := by
    obtain rfl | rfl := hfield
    · exact (accepted_of_filtered hdataset).2.2.1
    · exact (accepted_of_filtered hdataset).2.2.2
  simp [validTypedPredicate, validPredicate, filterPredicate, haccepted, hmatches]

/-- The planner accepts the configured filter. -/
theorem configuredFilter_accepted (hvalid : aggregate.validate = .ok ()) {query : ExploreQuery}
    (hquery : query.dataset = aggregate.dataset) (hpredicates : query.predicates = [])
    (hexpression : query.expression = configuredFilter aggregate) : structureAccepted query = true := by
  have hdataset := filtered_dataset hvalid
  cases henvironment : aggregate.environment with
  | none =>
      cases hrelease : aggregate.release with
      | none =>
          rw [configuredFilter, henvironment, hrelease] at hexpression
          rw [structureAccepted, effectivePredicateCount, hexpression, hpredicates]
          rfl
      | some release =>
          have hdataset := hdataset (.inr (by rw [hrelease]; rfl))
          rw [configuredFilter, henvironment, hrelease] at hexpression
          rw [structureAccepted_iff rfl hexpression, hquery]
          exact ⟨⟨by simp [maxExplorePredicates], by simp [maxExploreExpressionNodes], Nat.zero_le _⟩,
            List.forall_mem_singleton.mpr (filterPredicate_valid hdataset release (.inr rfl))⟩
  | some environment =>
      have hdataset := hdataset (.inl (by rw [henvironment]; rfl))
      cases hrelease : aggregate.release with
      | none =>
          rw [configuredFilter, henvironment, hrelease] at hexpression
          rw [structureAccepted_iff rfl hexpression, hquery]
          exact ⟨⟨by simp [maxExplorePredicates], by simp [maxExploreExpressionNodes], Nat.zero_le _⟩,
            List.forall_mem_singleton.mpr (filterPredicate_valid hdataset environment (.inl rfl))⟩
      | some release =>
          rw [configuredFilter, henvironment, hrelease] at hexpression
          rw [structureAccepted_iff rfl hexpression, hquery]
          refine ⟨⟨by simp [maxExplorePredicates], by simp [maxExploreExpressionNodes], by simp⟩, ?_⟩
          simp only [Formula.predicates_and, List.map_cons, List.map_nil, Formula.predicates_predicate,
            List.flatten_cons, List.flatten_nil, List.append_nil, List.singleton_append, List.forall_mem_cons]
          exact ⟨filterPredicate_valid hdataset environment (.inl rfl),
            filterPredicate_valid hdataset release (.inr rfl), fun _ h => absurd h List.not_mem_nil⟩

end Rules

/-- An evaluation asks for the records of the configured environment and release, and the planner has
nothing against the question. -/
def FiltersFaithful (rfc3339 : Text → Option Int) (aggregate : AggregateAlert) : Prop :=
  ∀ now start : Timestamp, Timestamp.fromUnixMillis (now.unixMillis - aggregate.lookbackMinutes * 60000) = .ok start →
    ∃ query, aggregateQuery rfc3339 aggregate now = .ok query ∧ query.expression = configuredFilter aggregate
      ∧ structureAccepted query = true

theorem filtersFaithful_iff_expression {rfc3339 : Text → Option Int} {aggregate : AggregateAlert}
    (hvalid : aggregate.validate = .ok ()) :
    FiltersFaithful rfc3339 aggregate ↔ aggregateExpression rfc3339 aggregate = .ok (configuredFilter aggregate) := by
  constructor
  · intro hfaithful
    have hlookback : aggregate.lookbackMinutes ≤ 30 * 24 * 60 := by
      simp only [AggregateAlert.validate, failIf_eq_ok, not_or, not_not] at hvalid
      exact hvalid.1.2
    let epoch : Timestamp := ⟨0, by decide⟩
    have hrange : minTimestampMillis ≤ epoch.unixMillis - aggregate.lookbackMinutes * 60000
        ∧ epoch.unixMillis - aggregate.lookbackMinutes * 60000 ≤ maxTimestampMillis := by
      simp only [epoch, minTimestampMillis, maxTimestampMillis]
      omega
    obtain ⟨query, hquery, hexpression, -⟩ := hfaithful epoch ⟨_, hrange⟩ (Timestamp.fromUnixMillis_eq_ok.mpr rfl)
    simp only [aggregateQuery, bind_eq_ok, mapError_eq_ok, pure_eq_ok] at hquery
    obtain ⟨_, -, expression, hfound, rfl⟩ := hquery
    rw [hfound, ← hexpression]
  · intro hexpression now start hstart
    have hquery : aggregateQuery rfc3339 aggregate now = .ok ⟨aggregate.dataset, start, now, [],
        configuredFilter aggregate, [⟨.count, none, aggregateAlias⟩], [], none, none, 1⟩ := by
      rw [aggregateQuery, hstart, hexpression]
      rfl
    exact ⟨_, hquery, rfl, configuredFilter_accepted hvalid rfl rfl rfl⟩

/-- The filters of an accepted rule are the ones that its evaluation uses exactly when none of them starts
like a comparison. -/
theorem aggregate_filters_faithful_iff (rfc3339 : Text → Option Int) {rule : AlertRule} {aggregate : AggregateAlert}
    (hrule : rule.validate = .ok ()) (haggregate : rule.aggregate = some aggregate) :
    FiltersFaithful rfc3339 aggregate
      ↔ ∀ value ∈ filterTexts aggregate, startsWithOperator value.asStr = false := by
  have hvalid : aggregate.validate = .ok () := by
    simp only [AlertRule.validate, bind_eq_ok, failIf_eq_ok, not_or, haggregate, Option.any_some] at hrule
    obtain ⟨_, -, _, -, -, -, -, haggregate, -⟩ := hrule
    cases hresult : aggregate.validate with
    | ok value => rfl
    | error error =>
        rw [hresult] at haggregate
        exact absurd rfl haggregate
  rw [filtersFaithful_iff_expression hvalid, aggregateExpression_iff hvalid]

/-- A rule about the logs of an environment and a release. -/
def filteredRule (environment release : AlertFilterText) : AlertRule where
  id := ⟨78⟩
  projectId := ⟨7, ProjectId.positive_seven⟩
  name := ⟨"logs".toList, by decide⟩
  enabled := true
  triggers := []
  aggregate := some ⟨.logs, 15, 5, 100, some environment, some release, false⟩
  monitor := none
  destinationIds := [⟨5⟩]
  cooldownMinutes := 0
  stormLimitPerHour := 100
  nextEvaluationAt := none
  lastTriggeredAt := none
  stormWindowStartedAt := none
  stormCount := 0
  thresholdMet := false
  createdAt := ⟨1690000000000, inRange_sampleSetup⟩
  updatedAt := ⟨1690000000000, inRange_sampleSetup⟩

/-- A release with a space, parentheses and a quotation mark. -/
def quotedRelease : AlertFilterText := ⟨"2.0 (beta) ".toList ++ [quote], by decide⟩

theorem aggregate_filters_faithful_quoted :
    FiltersFaithful (fun _ => none)
      ⟨.logs, 15, 5, 100, some ⟨"prod".toList, by decide⟩, some quotedRelease, false⟩ :=
  (aggregate_filters_faithful_iff (fun _ => none)
    (show (filteredRule ⟨"prod".toList, by decide⟩ quotedRelease).validate = .ok () by decide) rfl).mpr (by decide)

theorem aggregate_filters_unfaithful :
    (filteredRule ⟨"=prod".toList, by decide⟩ quotedRelease).validate = .ok ()
      ∧ ((parsePredicate (fun _ => none) .logs "env".toList "=prod".toList).map (·.value) = .ok "prod".toList)
      ∧ ¬ FiltersFaithful (fun _ => none)
        ⟨.logs, 15, 5, 100, some ⟨"=prod".toList, by decide⟩, some quotedRelease, false⟩
      ∧ (filteredRule ⟨"<staging>".toList, by decide⟩ quotedRelease).validate = .ok ()
      ∧ ∀ now, aggregateQuery (fun _ => none)
        ⟨.logs, 15, 5, 100, some ⟨"<staging>".toList, by decide⟩, some quotedRelease, false⟩ now
          = .error .invalidData := by
  refine ⟨by decide, by decide, ?_, by decide, fun now => ?_⟩
  · rw [filtersFaithful_iff_expression (by decide), aggregateExpression_iff (by decide)]
    decide
  · have hexpression : aggregateExpression (fun _ => none)
        ⟨.logs, 15, 5, 100, some ⟨"<staging>".toList, by decide⟩, some quotedRelease, false⟩ = .error .syntaxError := by
      let environment : AlertFilterText := ⟨"<staging>".toList, by decide⟩
      have htext : queryText ⟨.logs, 15, 5, 100, some environment, some quotedRelease, false⟩
          = filterText "env".toList environment ++ [' '] ++ filterText "rel".toList quotedRelease := rfl
      exact aggregateExpression_both (.inl rfl) htext
    rw [aggregateQuery, hexpression]
    cases Timestamp.fromUnixMillis (now.unixMillis - (15 : Nat) * 60000) <;> rfl

end AlertQueries

end MetricBackend
