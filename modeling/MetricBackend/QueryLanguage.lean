import MetricBackend.LibFormulas
import MetricBackend.LibText

/-! The query language of `application/src/query.rs`: sources and their fields, the tokens, the parser
with its structural limits and the normalized text. The parser's position is the list of the tokens that
are left. Reading an RFC 3339 time is the one of the `time` package. -/

namespace MetricBackend

namespace QueryLanguage

def maxQueryBytes : Nat := 32 * 1024
def maxQueryNodes : Nat := 256
def maxQueryPredicates : Nat := 128
def maxQueryOrAlternatives : Nat := 64
def maxQueryNesting : Nat := 16
def maxQueryRows : Nat := 500

inductive QuerySource where
  | issues
  | errors
  | logs
  | traces
  | metrics
  | replays
  | feedback
  | releases
deriving DecidableEq, Repr

def QuerySource.asStr : QuerySource → Text
  | .issues => "issues".toList
  | .errors => "errors".toList
  | .logs => "logs".toList
  | .traces => "traces".toList
  | .metrics => "metrics".toList
  | .replays => "replays".toList
  | .feedback => "feedback".toList
  | .releases => "releases".toList

inductive QueryField where
  | eventId
  | issueId
  | feedbackId
  | replayId
  | timestamp
  | receivedAt
  | title
  | level
  | platform
  | message
  | environment
  | release
  | service
  | traceId
  | spanId
  | durationMs
  | operationClass
  | operation
  | status
  | name
  | url
  | userId
  | isSegment
  | metricName
  | metricKind
  | unit
  | metricCount
  | metricSum
  | metricMin
  | metricMax
deriving DecidableEq, Repr

def QueryField.asStr : QueryField → Text
  | .eventId => "event.id".toList
  | .issueId => "issue_id".toList
  | .feedbackId => "feedback_id".toList
  | .replayId => "replay_id".toList
  | .timestamp => "timestamp".toList
  | .receivedAt => "received_at".toList
  | .title => "title".toList
  | .level => "level".toList
  | .platform => "platform".toList
  | .message => "message".toList
  | .environment => "environment".toList
  | .release => "release".toList
  | .service => "service".toList
  | .traceId => "trace_id".toList
  | .spanId => "span_id".toList
  | .durationMs => "duration_ms".toList
  | .operationClass => "operation_class".toList
  | .operation => "operation".toList
  | .status => "status".toList
  | .name => "name".toList
  | .url => "url".toList
  | .userId => "user.id".toList
  | .isSegment => "is_segment".toList
  | .metricName => "metric_name".toList
  | .metricKind => "metric_kind".toList
  | .unit => "unit".toList
  | .metricCount => "metric_count".toList
  | .metricSum => "metric_sum".toList
  | .metricMin => "metric_min".toList
  | .metricMax => "metric_max".toList

inductive QueryOperator where
  | equal
  | greater
  | greaterOrEqual
  | less
  | lessOrEqual
  | contains
deriving DecidableEq, Repr

def QueryOperator.asStr : QueryOperator → Text
  | .equal => "eq".toList
  | .greater => "gt".toList
  | .greaterOrEqual => "gte".toList
  | .less => "lt".toList
  | .lessOrEqual => "lte".toList
  | .contains => "contains".toList

structure QueryPredicate where
  field : QueryField
  operator : QueryOperator
  value : Text
deriving DecidableEq

abbrev QueryExpression : Type := Formula QueryPredicate

inductive QueryError where
  | syntaxError
  | capabilityUnavailable
  | limitExceeded
  | costExceeded
  | capacity
  | invalidCursor
  | unavailable
deriving DecidableEq, Repr

/-! ### Fields -/

/-- The spellings of the fields. -/
def fieldNames : List (String × QueryField) :=
  [("event.id", .eventId), ("event_id", .eventId), ("issue", .issueId), ("issue_id", .issueId),
    ("feedback", .feedbackId), ("feedback_id", .feedbackId), ("replay", .replayId),
    ("replay_id", .replayId), ("timestamp", .timestamp), ("received_at", .receivedAt),
    ("title", .title), ("level", .level), ("platform", .platform), ("msg", .message),
    ("message", .message), ("env", .environment), ("environment", .environment), ("rel", .release),
    ("release", .release), ("version", .release), ("svc", .service), ("service", .service),
    ("trace", .traceId), ("trace_id", .traceId), ("span", .spanId), ("span_id", .spanId),
    ("dur", .durationMs), ("duration_ms", .durationMs), ("operation_class", .operationClass),
    ("op", .operation), ("operation", .operation), ("status", .status), ("name", .name),
    ("url", .url), ("user", .userId), ("user.id", .userId), ("is_segment", .isSegment),
    ("metric", .metricName), ("metric_name", .metricName), ("kind", .metricKind),
    ("metric_kind", .metricKind), ("unit", .unit), ("metric_count", .metricCount),
    ("metric_sum", .metricSum), ("metric_min", .metricMin), ("metric_max", .metricMax)]

def resolveField (value : Text) : Option QueryField :=
  (fieldNames.find? fun entry => entry.1.toList = value).map Prod.snd

def acceptedFields : QuerySource → List QueryField
  | .issues => [.issueId, .timestamp, .title, .status]
  | .errors => [.eventId, .issueId, .timestamp, .level, .platform, .environment, .release, .userId]
  | .logs => [.timestamp, .receivedAt, .level, .message, .environment, .release, .service, .traceId,
      .spanId]
  | .traces => [.timestamp, .receivedAt, .durationMs, .operationClass, .environment, .release, .service,
      .traceId, .spanId, .operation, .status, .name, .isSegment]
  | .metrics => [.timestamp, .receivedAt, .metricName, .metricKind, .unit, .traceId, .metricCount,
      .metricSum, .metricMin, .metricMax]
  | .replays => [.eventId, .replayId, .timestamp, .url, .environment, .release, .traceId]
  | .feedback => [.eventId, .feedbackId, .timestamp, .status, .message, .replayId, .traceId]
  | .releases => [.release, .timestamp]

def fieldAccepted (source : QuerySource) (field : QueryField) : Bool := field ∈ acceptedFields source

def orderedFields : List QueryField :=
  [.timestamp, .receivedAt, .durationMs, .metricCount, .metricSum, .metricMin, .metricMax]

def textFields : List QueryField := [.title, .message, .name, .operation, .url, .metricName]

def operatorAccepted (field : QueryField) : QueryOperator → Bool
  | .equal => true
  | .greater | .greaterOrEqual | .less | .lessOrEqual => field ∈ orderedFields
  | .contains => field ∈ textFields

/-! ### Values -/

def validHex (value : Text) (length : Nat) : Bool :=
  byteLength value = length ∧ value.all fun c => (hexValue c).isSome

def maxValueBytes : Nat := 16 * 1024

section Values

variable (rfc3339 : Text → Option Int)

/-- What a field accepts as the value of a comparison. -/
def validValue (source : QuerySource) (field : QueryField) (value : Text) : Bool :=
  match field with
  | .eventId | .issueId | .feedbackId | .replayId | .traceId => validHex value 32
  | .spanId => validHex value 16
  | .timestamp | .receivedAt => (parseI64 value).isSome || (rfc3339 value).isSome
  | .durationMs | .metricSum | .metricMin | .metricMax => isFiniteF64 value
  | .metricCount => (parseU64 value).isSome
  | .isSegment => value ∈ ["true".toList, "false".toList]
  | .level =>
      match source with
      | .errors =>
          value ∈ ["debug".toList, "info".toList, "warn".toList, "warning".toList, "error".toList,
            "fatal".toList]
      | .logs =>
          value ∈ ["trace".toList, "debug".toList, "info".toList, "warn".toList, "warning".toList,
            "error".toList, "fatal".toList]
      | _ => false
  | .status =>
      match source with
      | .issues => value ∈ ["open".toList, "resolved".toList, "ignored".toList]
      | .feedback => value ∈ ["open".toList, "resolved".toList, "spam".toList]
      | .traces => byteLength value ≤ 256
      | _ => false
  | .metricKind => value ∈ ["counter".toList, "gauge".toList, "distribution".toList]
  | _ => byteLength value ≤ maxValueBytes

def validateValue (source : QuerySource) (field : QueryField) (operator : QueryOperator) (value : Text) :
    Except QueryError Unit :=
  if operator = .contains then .ok ()
  else failIf (¬ validValue rfc3339 source field value) .syntaxError

/-- The operator at the start of a raw value, and the rest. -/
def splitOperator : Text → QueryOperator × Text
  | '>' :: '=' :: value => (.greaterOrEqual, value)
  | '<' :: '=' :: value => (.lessOrEqual, value)
  | '>' :: value => (.greater, value)
  | '<' :: value => (.less, value)
  | '=' :: value => (.equal, value)
  | value => (.equal, value)

def parsePredicate (source : QuerySource) (rawField rawValue : Text) :
    Except QueryError QueryPredicate := do
  match resolveField rawField with
  | none => .error .capabilityUnavailable
  | some field =>
      failIf (¬ fieldAccepted source field) .capabilityUnavailable
      let (operator, value) := splitOperator rawValue
      failIf (value.isEmpty ∨ maxValueBytes < byteLength value ∨ ¬ operatorAccepted field operator)
        .syntaxError
      validateValue rfc3339 source field operator value
      return ⟨field, operator, value⟩

end Values

/-! ### Tokens -/

inductive Token where
  | predicate (field value : Text)
  | bare (value : Text)
  | and
  | or
  | bang
  | left
  | right
deriving DecidableEq

/-- `u8::is_ascii_whitespace`. -/
def isAsciiWhitespace (c : Char) : Bool := c.toNat ∈ [9, 10, 12, 13, 32]

/-- `u8::is_ascii_control`. -/
def isAsciiControl (c : Char) : Bool := c.toNat < 32 || c.toNat = 127

def quote : Char := Char.ofNat 34
def backslash : Char := Char.ofNat 92

/-- The text up to the closing quotation mark, and what follows it. -/
def readQuotedFrom : Text → Except QueryError (Text × Text)
  | [] => .error .syntaxError
  | [c] => if c = quote then .ok ([], []) else .error .syntaxError
  | c :: next :: rest =>
      if c = quote then .ok ([], next :: rest)
      else if c = backslash ∧ (next = backslash ∨ next = quote) then do
        let (value, after) ← readQuotedFrom rest
        return (next :: value, after)
      else if isAsciiControl c then .error .syntaxError
      else do
        let (value, after) ← readQuotedFrom (next :: rest)
        return (c :: value, after)

/-- `read_quoted`, after the opening quotation mark. -/
def readQuoted (input : Text) : Except QueryError (Text × Text) := do
  let (value, rest) ← readQuotedFrom input
  failIf value.isEmpty .syntaxError
  return (value, rest)

def inWord (c : Char) : Bool := !isAsciiWhitespace c && c ∉ [':', '(', ')', '!']

def inValue (c : Char) : Bool := !isAsciiWhitespace c && c ∉ ['(', ')']

/-- The value of a predicate, after its colon. -/
def readValue : Text → Except QueryError (Text × Text)
  | [] => .error .syntaxError
  | c :: rest =>
      if c = quote then readQuoted rest
      else do
        let (value, rest) := (c :: rest).span inValue
        failIf value.isEmpty .syntaxError
        return (value, rest)

/-- The token at the start of a text that does not start with white space, and what follows it. -/
def readToken (c : Char) (rest : Text) : Except QueryError (Token × Text) :=
  if c = '(' then .ok (.left, rest)
  else if c = ')' then .ok (.right, rest)
  else if c = '!' then .ok (.bang, rest)
  else if c = quote then do
    let (value, rest) ← readQuoted rest
    return (.bare value, rest)
  else do
    let (word, rest) := (c :: rest).span inWord
    failIf word.isEmpty .syntaxError
    match rest with
    | ':' :: rest => do
        let (value, rest) ← readValue rest
        return (.predicate word value, rest)
    | rest =>
        if word = "AND".toList then return (.and, rest)
        else if word = "OR".toList then return (.or, rest)
        else return (.bare word, rest)

/-- The tokens of a text. Every round takes a character, so that as many rounds as the text has
characters are enough. -/
def readTokens : Nat → Text → Except QueryError (List Token)
  | _, [] => .ok []
  | 0, _ => .error .syntaxError
  | rounds + 1, c :: rest =>
      if isAsciiWhitespace c then readTokens rounds rest
      else do
        let (token, rest) ← readToken c rest
        return token :: (← readTokens rounds rest)

def tokenize (input : Text) : Except QueryError (List Token) := do
  let tokens ← readTokens input.length input
  failIf tokens.isEmpty .syntaxError
  return tokens

/-! ### Parser -/

structure Parser where
  tokens : List Token
  predicates : Nat
  nodes : Nat
  orAlternatives : Nat

namespace Parser

def node (parser : Parser) (value : QueryExpression) :
    Except QueryError (QueryExpression × Parser) := do
  failIf (maxQueryNodes < parser.nodes + 1) .limitExceeded
  return (value, { parser with nodes := parser.nodes + 1 })

def predicate (parser : Parser) (value : QueryPredicate) :
    Except QueryError (QueryExpression × Parser) := do
  failIf (maxQueryPredicates < parser.predicates + 1) .limitExceeded
  { parser with predicates := parser.predicates + 1 }.node (.predicate value)

/-- Counts the alternatives of an `OR`, and makes it a node. -/
def alternatives (parser : Parser) (values : List QueryExpression) :
    Except QueryError (QueryExpression × Parser) := do
  failIf (maxQueryOrAlternatives < parser.orAlternatives + values.length) .limitExceeded
  { parser with orAlternatives := parser.orAlternatives + values.length }.node (.or values)

def defaultExpression (source : QuerySource) (parser : Parser) (value : Text) :
    Except QueryError (QueryExpression × Parser) :=
  match source with
  | .issues => parser.predicate ⟨.title, .contains, value⟩
  | .logs => parser.predicate ⟨.message, .contains, value⟩
  | .traces => do
      let (name, parser) ← parser.predicate ⟨.name, .contains, value⟩
      let (operation, parser) ← parser.predicate ⟨.operation, .contains, value⟩
      parser.alternatives [name, operation]
  | .metrics => parser.predicate ⟨.metricName, .contains, value⟩
  | .replays => parser.predicate ⟨.url, .contains, value⟩
  | .feedback => parser.predicate ⟨.message, .contains, value⟩
  | .releases => parser.predicate ⟨.release, .equal, value⟩
  | .errors => .error .capabilityUnavailable

end Parser

/-- The token ends a conjunction. -/
def endsConjunction : List Token → Bool
  | [] | .or :: _ | .right :: _ => true
  | _ => false

/-- What stands between two conjuncts: nothing, or an `AND` that a conjunct precedes and one follows. -/
def skipAnd (first : Bool) : List Token → Except QueryError (List Token)
  | .and :: tokens => do
      failIf (first ∨ endsConjunction tokens ∨ tokens.head? = some .and) .syntaxError
      return tokens
  | tokens => .ok tokens

section Grammar

variable (rfc3339 : Text → Option Int) (source : QuerySource)

mutual

/-- One unit of `depth` is spent on each nested call and on each round of a loop. -/
def parseOr : Nat → Nat → Parser → Except QueryError (QueryExpression × Parser)
  | 0, _, _ => .error .syntaxError
  | depth + 1, nesting, parser => do
      let (value, parser) ← parseAnd depth nesting parser
      let (values, parser) ← parseAlternatives depth nesting parser
      if values.isEmpty then return (value, parser)
      else parser.alternatives (value :: values)

/-- The alternatives after the first. -/
def parseAlternatives : Nat → Nat → Parser → Except QueryError (List QueryExpression × Parser)
  | 0, _, _ => .error .syntaxError
  | depth + 1, nesting, parser =>
      match parser.tokens with
      | .or :: tokens => do
          let (value, parser) ← parseAnd depth nesting { parser with tokens := tokens }
          let (values, parser) ← parseAlternatives depth nesting parser
          return (value :: values, parser)
      | _ => .ok ([], parser)

def parseAnd : Nat → Nat → Parser → Except QueryError (QueryExpression × Parser)
  | 0, _, _ => .error .syntaxError
  | depth + 1, nesting, parser => do
      let (values, parser) ← parseConjuncts depth nesting true parser
      match values with
      | [] => .error .syntaxError
      | [value] => return (value, parser)
      | values => parser.node (.and values)

/-- The conjuncts up to an `OR`, a closing parenthesis or the end. -/
def parseConjuncts : Nat → Nat → Bool → Parser → Except QueryError (List QueryExpression × Parser)
  | 0, _, _, _ => .error .syntaxError
  | depth + 1, nesting, first, parser =>
      if endsConjunction parser.tokens then .ok ([], parser)
      else do
        let tokens ← skipAnd first parser.tokens
        let (value, parser) ← parseUnary depth nesting { parser with tokens := tokens }
        let (values, parser) ← parseConjuncts depth nesting false parser
        return (value :: values, parser)

def parseUnary : Nat → Nat → Parser → Except QueryError (QueryExpression × Parser)
  | 0, _, _ => .error .syntaxError
  | depth + 1, nesting, parser =>
      match parser.tokens with
      | .bang :: tokens => do
          let (value, parser) ← parseUnary depth nesting { parser with tokens := tokens }
          parser.node (.not value)
      | .left :: tokens => do
          failIf (maxQueryNesting ≤ nesting) .limitExceeded
          let (expression, parser) ← parseOr depth (nesting + 1) { parser with tokens := tokens }
          match parser.tokens with
          | .right :: tokens => return (expression, { parser with tokens := tokens })
          | _ => .error .syntaxError
      | .predicate field value :: tokens => do
          let value ← parsePredicate rfc3339 source field value
          { parser with tokens := tokens }.predicate value
      | .bare value :: tokens => { parser with tokens := tokens }.defaultExpression source value
      | _ => .error .syntaxError

end

end Grammar

/-! ### Normalized text -/

def escaped (value : Text) : Text :=
  quote :: (value.flatMap fun c => if c = quote ∨ c = backslash then [backslash, c] else [c]) ++ [quote]

def normalizedPredicate (predicate : QueryPredicate) : Text :=
  predicate.field.asStr ++ ':' :: predicate.operator.asStr ++ ':' :: escaped predicate.value

/-- The texts joined by commas. -/
def commaJoined (texts : List Text) : Text := (texts.intersperse [',']).flatten

/-- `QueryExpression::normalized`. -/
def normalizedExpression : QueryExpression → Text :=
  Formula.fold normalizedPredicate (fun value => "not(".toList ++ value ++ ")".toList)
    (fun values => "and(".toList ++ commaJoined values ++ ")".toList)
    fun values => "or(".toList ++ commaJoined values ++ ")".toList

structure ParsedQuery where
  source : QuerySource
  expression : Option QueryExpression
  normalized : Text

/-- The calls and rounds that a list of tokens can take. -/
def parseDepth (tokens : List Token) : Nat := 4 * tokens.length + 4

def ParsedQuery.parse (rfc3339 : Text → Option Int) (source : QuerySource) (input : Text) :
    Except QueryError ParsedQuery := do
  let input := trimMatches isWhitespace input
  failIf (maxQueryBytes < byteLength input) .limitExceeded
  if input.isEmpty then
    return ⟨source, none, "v2|".toList ++ source.asStr ++ "|all".toList⟩
  let tokens ← tokenize input
  let (expression, parser) ← parseOr rfc3339 source (parseDepth tokens) 0 ⟨tokens, 0, 0, 0⟩
  failIf (¬ parser.tokens.isEmpty) .syntaxError
  return ⟨source, some expression, "v2|".toList ++ source.asStr ++ '|' :: normalizedExpression expression⟩

end QueryLanguage

end MetricBackend
