import MetricBackend.QueryTrees

/-! Query expressions as texts, and how `ParsedQuery::parse` reads them: a tree is read back from the text
it is printed as, and every tree that is read is within the limits of the parser. -/

namespace MetricBackend

namespace QueryLanguage

/-! ### Printing -/

/-- The free choices in a text: whether `AND` is written, and whether a negation is an operand without
parentheses. -/
structure Style where
  explicitAnd : Bool
  bareNot : Bool

section Writing

variable {β : Type} (style : Style) (predicate : QueryPredicate → β) (bang parenthesized : β → β)
  (and or : List β → β)

/-- An expression, by itself and as an operand. -/
def written : QueryExpression → β × β :=
  Formula.fold (fun value => (predicate value, predicate value))
    (fun value => (bang value.2, if style.bareNot then bang value.2 else parenthesized (bang value.2)))
    (fun values => (and (values.map Prod.snd), parenthesized (and (values.map Prod.snd))))
    fun values => (or (values.map Prod.snd), parenthesized (or (values.map Prod.snd)))

theorem written_not (value : QueryExpression) :
    written style predicate bang parenthesized and or (.not value)
      = (bang (written style predicate bang parenthesized and or value).2,
          if style.bareNot then bang (written style predicate bang parenthesized and or value).2
          else parenthesized (bang (written style predicate bang parenthesized and or value).2)) := rfl

theorem written_and (values : List QueryExpression) :
    written style predicate bang parenthesized and or (.and values)
      = (and (values.map fun value => (written style predicate bang parenthesized and or value).2),
          parenthesized (and
            (values.map fun value => (written style predicate bang parenthesized and or value).2))) := by
  rw [written, Formula.fold_and, List.map_map]
  rfl

theorem written_or (values : List QueryExpression) :
    written style predicate bang parenthesized and or (.or values)
      = (or (values.map fun value => (written style predicate bang parenthesized and or value).2),
          parenthesized (or
            (values.map fun value => (written style predicate bang parenthesized and or value).2))) := by
  rw [written, Formula.fold_or, List.map_map]
  rfl

end Writing

/-- The start of a raw value that gives the operator. A text that contains something has none. -/
def operatorSign : QueryOperator → Text
  | .equal => ['=']
  | .greater => ['>']
  | .greaterOrEqual => ['>', '=']
  | .less => ['<']
  | .lessOrEqual => ['<', '=']
  | .contains => []

def printPredicate (predicate : QueryPredicate) : Text :=
  predicate.field.asStr ++ ':' :: escaped (operatorSign predicate.operator ++ predicate.value)

/-- What stands between two conjuncts. -/
def andText (style : Style) : Text := if style.explicitAnd then " AND ".toList else [' ']

/-- The texts of an expression, by itself and as an operand. -/
def printed (style : Style) : QueryExpression → Text × Text :=
  written style printPredicate ('!' :: ·) (fun text => '(' :: text ++ [')'])
    (List.intercalate (andText style)) (List.intercalate " OR ".toList)

def print (style : Style) (expression : QueryExpression) : Text := (printed style expression).1

/-- The parentheses of a text, one inside the other. -/
def printedDepth (style : Style) : QueryExpression → Nat × Nat :=
  written style (fun _ => 0) id (· + 1) largest largest

def andTokens (style : Style) : List Token := if style.explicitAnd then [.and] else []

/-- The tokens of a text. -/
def printedTokens (style : Style) : QueryExpression → List Token × List Token :=
  written style (fun value => [.predicate value.field.asStr (operatorSign value.operator ++ value.value)])
    (.bang :: ·) (fun tokens => .left :: tokens ++ [.right])
    (List.intercalate (andTokens style)) (List.intercalate [.or])

/-! ### Reading tokens -/

theorem readQuotedFrom_length {input value after : Text} (h : readQuotedFrom input = .ok (value, after)) :
    after.length ≤ input.length := by
  fun_induction readQuotedFrom input generalizing value after with
  | case1 => cases h
  | case2 =>
      obtain ⟨-, rfl⟩ := Prod.mk.inj (Except.ok.inj h)
      exact Nat.zero_le _
  | case3 => cases h
  | case4 next rest =>
      obtain ⟨-, rfl⟩ := Prod.mk.inj (Except.ok.inj h)
      exact Nat.le_succ _
  | case5 c next rest _ _ ih =>
      obtain ⟨⟨value, rest⟩, hrest, h⟩ := bind_eq_ok.mp h
      obtain ⟨-, rfl⟩ := Prod.mk.inj (pure_eq_ok.mp h)
      have := ih hrest
      simp only [List.length_cons]
      omega
  | case6 => cases h
  | case7 c next rest _ _ _ ih =>
      obtain ⟨⟨value, rest⟩, hrest, h⟩ := bind_eq_ok.mp h
      obtain ⟨-, rfl⟩ := Prod.mk.inj (pure_eq_ok.mp h)
      have := ih hrest
      simp only [List.length_cons] at this ⊢
      omega

theorem readQuoted_eq_ok {input value after : Text} :
    readQuoted input = .ok (value, after) ↔ readQuotedFrom input = .ok (value, after) ∧ value ≠ [] := by
  simp only [readQuoted, bind_eq_ok, failIf_eq_ok, pure_eq_ok]
  constructor
  · rintro ⟨⟨found, rest⟩, hfound, _, hnonempty, h⟩
    obtain ⟨rfl, rfl⟩ := Prod.mk.inj h
    exact ⟨hfound, fun hempty => hnonempty (List.isEmpty_iff.mpr hempty)⟩
  · rintro ⟨hfound, hnonempty⟩
    exact ⟨_, hfound, (), fun hempty => hnonempty (List.isEmpty_iff.mp hempty), rfl⟩

theorem readValue_length {input value after : Text} (h : readValue input = .ok (value, after)) :
    after.length ≤ input.length := by
  match input with
  | [] => cases h
  | c :: rest =>
      rw [readValue] at h
      split_ifs at h with hquote
      · have := readQuotedFrom_length (readQuoted_eq_ok.mp h).1
        exact Nat.le_succ_of_le this
      · rw [List.span_eq_takeWhile_dropWhile] at h
        simp only [bind_eq_ok, pure_eq_ok] at h
        obtain ⟨_, -, h⟩ := h
        obtain ⟨-, rfl⟩ := Prod.mk.inj h
        exact (List.dropWhile_suffix _).length_le

/-- A token takes its first character, and a bare word is not empty. -/
theorem readToken_spec {c : Char} {rest after : Text} {token : Token}
    (h : readToken c rest = .ok (token, after)) :
    after.length ≤ rest.length ∧ ∀ word, token = .bare word → word ≠ [] := by
  unfold readToken at h
  split_ifs at h
  iterate 3
    obtain ⟨rfl, rfl⟩ := Prod.mk.inj (Except.ok.inj h)
    exact ⟨Nat.le_refl _, fun word hword => by cases hword⟩
  · obtain ⟨⟨value, rest⟩, hvalue, h⟩ := bind_eq_ok.mp h
    obtain ⟨rfl, rfl⟩ := Prod.mk.inj (pure_eq_ok.mp h)
    obtain ⟨hvalue, hnonempty⟩ := readQuoted_eq_ok.mp hvalue
    refine ⟨readQuotedFrom_length hvalue, fun word hword => ?_⟩
    cases hword
    exact hnonempty
  · rw [List.span_eq_takeWhile_dropWhile] at h
    simp only [bind_eq_ok, failIf_eq_ok] at h
    obtain ⟨_, hword, h⟩ := h
    have hnonempty : (c :: rest).takeWhile inWord ≠ [] := fun hempty => hword (List.isEmpty_iff.mpr hempty)
    have hc : inWord c = true := by
      by_contra hc
      exact hnonempty (List.takeWhile_cons_of_neg hc)
    have hdrop : ((c :: rest).dropWhile inWord).length ≤ rest.length := by
      rw [List.dropWhile_cons_of_pos hc]
      exact (List.dropWhile_suffix _).length_le
    split at h
    next text htext =>
      obtain ⟨⟨value, last⟩, hvalue, h⟩ := bind_eq_ok.mp h
      obtain ⟨rfl, rfl⟩ := Prod.mk.inj (pure_eq_ok.mp h)
      have hlength := readValue_length hvalue
      rw [htext, List.length_cons] at hdrop
      refine ⟨?_, fun word hword => by cases hword⟩
      show last.length ≤ rest.length
      omega
    next =>
      split_ifs at h
      iterate 2
        obtain ⟨rfl, rfl⟩ := Prod.mk.inj (pure_eq_ok.mp h)
        exact ⟨hdrop, fun word hword => by cases hword⟩
      · obtain ⟨rfl, rfl⟩ := Prod.mk.inj (pure_eq_ok.mp h)
        refine ⟨hdrop, fun word hword => ?_⟩
        cases hword
        exact hnonempty

theorem readTokens_succ {rounds : Nat} {text : Text} (h : text.length ≤ rounds) :
    readTokens (rounds + 1) text = readTokens rounds text := by
  induction rounds generalizing text with
  | zero =>
      rw [List.length_eq_zero_iff.mp (Nat.le_zero.mp h)]
      rfl
  | succ rounds ih =>
      match text with
      | [] => rfl
      | c :: rest =>
          have hrest : rest.length ≤ rounds := Nat.le_of_succ_le_succ h
          rw [readTokens, readTokens]
          split_ifs
          · exact ih hrest
          · refine bind_congr_ok fun ⟨token, after⟩ htoken => ?_
            have hlength := (readToken_spec htoken).1
            dsimp only
            rw [ih (Nat.le_trans hlength hrest)]

/-- The tokens of a text: as many rounds as it has characters are enough. -/
def scan (text : Text) : Except QueryError (List Token) := readTokens text.length text

theorem readTokens_eq_scan {rounds : Nat} {text : Text} (h : text.length ≤ rounds) :
    readTokens rounds text = scan text := by
  obtain ⟨extra, rfl⟩ := Nat.exists_eq_add_of_le h
  clear h
  induction extra with
  | zero => rfl
  | succ extra ih => rw [← Nat.add_assoc, readTokens_succ (Nat.le_add_right _ _), ih]

theorem scan_whitespace {c : Char} (hc : isAsciiWhitespace c = true) (rest : Text) :
    scan (c :: rest) = scan rest := by
  rw [scan, List.length_cons, readTokens, if_pos hc]
  rfl

theorem scan_token {c : Char} {rest after : Text} {token : Token} (hc : isAsciiWhitespace c = false)
    (h : readToken c rest = .ok (token, after)) : scan (c :: rest) = (token :: ·) <$> scan after := by
  rw [scan, List.length_cons, readTokens, if_neg (by simp [hc]), h]
  show (do return token :: (← readTokens rest.length after)) = _
  rw [readTokens_eq_scan (readToken_spec h).1, map_eq_pure_bind]

theorem scan_words {text : Text} {tokens : List Token} (h : scan text = .ok tokens) :
    ∀ word, Token.bare word ∈ tokens → word ≠ [] := by
  induction hlength : text.length using Nat.strongRecOn generalizing text tokens with
  | _ length ih =>
      match text with
      | [] =>
          cases h
          exact fun word hword => absurd hword List.not_mem_nil
      | c :: rest =>
          subst hlength
          cases hc : isAsciiWhitespace c with
          | true =>
              rw [scan_whitespace hc] at h
              exact ih _ (Nat.lt_succ_self _) h rfl
          | false =>
              cases htoken : readToken c rest with
              | error error =>
                  rw [scan, List.length_cons, readTokens, if_neg (by simp [hc]), htoken] at h
                  cases h
              | ok result =>
                  obtain ⟨token, after⟩ := result
                  rw [scan_token hc htoken] at h
                  obtain ⟨others, hothers, rfl⟩ := map_eq_ok.mp h
                  obtain ⟨hshorter, hbare⟩ := readToken_spec htoken
                  intro word hword
                  obtain hword | hword := List.mem_cons.mp hword
                  · exact hbare word hword.symm
                  · exact ih _ (Nat.lt_succ_of_le hshorter) hothers rfl word hword

/-- The text is read as the tokens, whatever follows it. -/
def Reads (text : Text) (tokens : List Token) : Prop :=
  ∀ rest, scan (text ++ rest) = (tokens ++ ·) <$> scan rest

theorem Reads.nil : Reads [] [] := by
  intro rest
  rw [List.nil_append]
  exact (id_map (scan rest)).symm

theorem Reads.append {left right : Text} {first second : List Token} (hleft : Reads left first)
    (hright : Reads right second) : Reads (left ++ right) (first ++ second) := by
  intro rest
  rw [List.append_assoc, hleft, hright, ← comp_map]
  refine congrArg (fun change => change <$> scan rest) ?_
  funext tokens
  exact (List.append_assoc _ _ _).symm

theorem Reads.intercalate {texts : List Text} {parts : List (List Token)} {separator : Text}
    {between : List Token} (hseparator : Reads separator between) (h : List.Forall₂ Reads texts parts) :
    Reads (separator.intercalate texts) (between.intercalate parts) := by
  induction h with
  | nil => exact .nil
  | @cons text part texts parts hhead htail ih =>
      cases htail with
      | nil => simpa using hhead
      | cons hsecond hrest =>
          rw [List.intercalate_cons_cons, List.intercalate_cons_cons]
          exact (hhead.append hseparator).append ih

theorem reads_space : Reads [' '] [] := by
  intro rest
  exact (scan_whitespace rfl rest).trans (id_map (scan rest)).symm

theorem reads_singleton {c : Char} {token : Token} (hc : isAsciiWhitespace c = false)
    (h : ∀ rest, readToken c rest = .ok (token, rest)) : Reads [c] [token] :=
  fun rest => scan_token hc (h rest)

theorem reads_left : Reads ['('] [.left] := reads_singleton rfl fun _ => rfl

theorem reads_right : Reads [')'] [.right] := reads_singleton rfl fun _ => rfl

theorem reads_bang : Reads ['!'] [.bang] := reads_singleton rfl fun _ => rfl

theorem reads_and : Reads " AND ".toList [.and] := by
  have hword : ∀ rest, readToken 'A' ('N' :: 'D' :: ' ' :: rest) = .ok (.and, ' ' :: rest) := fun _ => rfl
  intro rest
  show scan (' ' :: 'A' :: 'N' :: 'D' :: ' ' :: rest) = _
  rw [scan_whitespace rfl, scan_token rfl (hword rest), scan_whitespace rfl]
  rfl

theorem reads_or : Reads " OR ".toList [.or] := by
  have hword : ∀ rest, readToken 'O' ('R' :: ' ' :: rest) = .ok (.or, ' ' :: rest) := fun _ => rfl
  intro rest
  show scan (' ' :: 'O' :: 'R' :: ' ' :: rest) = _
  rw [scan_whitespace rfl, scan_token rfl (hword rest), scan_whitespace rfl]
  rfl

/-! ### Reading quotations -/

/-- A quotation without control characters is read as it was written. -/
theorem readQuotedFrom_escaped {value : Text} (h : ∀ c ∈ value, isAsciiControl c = false) (rest : Text) :
    readQuotedFrom ((value.flatMap fun c => if c = quote ∨ c = backslash then [backslash, c] else [c])
      ++ quote :: rest) = .ok (value, rest) := by
  induction value with
  | nil =>
      cases rest with
      | nil => rfl
      | cons c rest => rfl
  | cons c value ih =>
      rw [List.forall_mem_cons] at h
      rw [List.flatMap_cons, List.append_assoc]
      have hrest := ih h.2
      split_ifs with hescape
      · have hnext : c = backslash ∨ c = quote := hescape.symm
        rw [List.cons_append, List.cons_append, List.nil_append, readQuotedFrom,
          if_neg (by decide), if_pos ⟨rfl, hnext⟩, hrest]
        rfl
      · rw [not_or] at hescape
        obtain ⟨next, tail, htail⟩ : ∃ next tail,
            (value.flatMap fun c => if c = quote ∨ c = backslash then [backslash, c] else [c])
              ++ quote :: rest = next :: tail := by
          cases hvalue : value.flatMap fun c => if c = quote ∨ c = backslash then [backslash, c] else [c] with
          | nil => exact ⟨quote, rest, rfl⟩
          | cons next tail => exact ⟨next, tail ++ quote :: rest, rfl⟩
        rw [List.cons_append, List.nil_append, htail, readQuotedFrom, if_neg hescape.1,
          if_neg (fun h => hescape.2 h.1), if_neg (by simp [h.1]), ← htail, hrest]
        rfl

/-- A name that a token can start with. -/
def PlainName (name : Text) : Prop :=
  (∀ c ∈ name, inWord c = true) ∧ ∃ c rest, name = c :: rest
    ∧ isAsciiWhitespace c = false ∧ c ≠ '(' ∧ c ≠ ')' ∧ c ≠ '!' ∧ c ≠ quote

theorem fieldName_spec (field : QueryField) : PlainName field.asStr := by
  cases field <;> exact ⟨List.all_eq_true.mp rfl, _, _, rfl, by decide⟩

theorem span_append {matched : Char → Bool} {left right : Text} {c : Char}
    (hleft : ∀ c ∈ left, matched c = true) (hc : matched c = false) :
    (left ++ c :: right).span matched = (left, c :: right) := by
  rw [List.span_eq_takeWhile_dropWhile, List.takeWhile_append_of_pos hleft,
    List.dropWhile_append_of_pos hleft, List.takeWhile_cons_of_neg (by simp [hc]),
    List.dropWhile_cons_of_neg (by simp [hc]), List.append_nil]

/-- A field name and the quotation of its value are one token. -/
theorem reads_named {name value : Text} (hplain : PlainName name) (hnonempty : value ≠ [])
    (h : ∀ c ∈ value, isAsciiControl c = false) :
    Reads (name ++ ':' :: escaped value) [.predicate name value] := by
  intro rest
  obtain ⟨hword, c, tail, hname, hspace, hc⟩ := hplain
  have hvalue : readValue (escaped value ++ rest) = .ok (value, rest) := by
    have hquoted := readQuotedFrom_escaped h rest
    have htext : escaped value ++ rest
        = quote :: ((value.flatMap fun c => if c = quote ∨ c = backslash then [backslash, c] else [c])
          ++ quote :: rest) := by
      simp [escaped]
    rw [htext, readValue, if_pos rfl]
    exact readQuoted_eq_ok.mpr ⟨hquoted, hnonempty⟩
  have hspan : (c :: (tail ++ ':' :: (escaped value ++ rest))).span inWord
      = (name, ':' :: (escaped value ++ rest)) := by
    rw [← List.cons_append, ← hname]
    exact span_append hword rfl
  have htoken : readToken c (tail ++ ':' :: (escaped value ++ rest))
      = .ok (.predicate name value, rest) := by
    rw [readToken, if_neg hc.1, if_neg hc.2.1, if_neg hc.2.2.1, if_neg hc.2.2.2, hspan]
    refine bind_eq_ok.mpr ⟨(), ?_, bind_eq_ok.mpr ⟨(value, rest), hvalue, rfl⟩⟩
    simp [hname]
  have htext : name ++ ':' :: escaped value ++ rest = c :: (tail ++ ':' :: (escaped value ++ rest)) := by
    rw [hname]
    simp
  rw [htext, scan_token hspace htoken]
  rfl

/-- A value that a quotation can hold. -/
def Quotable (value : Text) : Prop := value ≠ [] ∧ ∀ c ∈ value, isAsciiControl c = false

theorem printable_of_all {value : Text} (h : (value.all fun c => !isAsciiControl c) = true) :
    ∀ c ∈ value, isAsciiControl c = false := by
  intro c hc
  simpa using List.all_eq_true.mp h c hc

theorem operatorSign_printable (operator : QueryOperator) :
    ∀ c ∈ operatorSign operator, isAsciiControl c = false := by
  cases operator <;> exact printable_of_all rfl

theorem Quotable.raw {value : Text} (h : Quotable value) (operator : QueryOperator) :
    Quotable (operatorSign operator ++ value) := by
  refine ⟨fun hempty => h.1 (List.append_eq_nil_iff.mp hempty).2, ?_⟩
  intro c hc
  obtain hc | hc := List.mem_append.mp hc
  · exact operatorSign_printable operator c hc
  · exact h.2 c hc

theorem Reads.parenthesized {text : Text} {tokens : List Token} (h : Reads text tokens) :
    Reads ('(' :: text ++ [')']) (.left :: tokens ++ [.right]) :=
  (reads_left.append h).append reads_right

/-- A printed expression is read as its tokens. -/
theorem reads_printed (style : Style) {expression : QueryExpression}
    (h : ∀ predicate ∈ expression.predicates, Quotable predicate.value) :
    Reads (printed style expression).1 (printedTokens style expression).1
      ∧ Reads (printed style expression).2 (printedTokens style expression).2 := by
  induction expression using Formula.induction with
  | predicate predicate =>
      have hvalue := (h predicate (List.mem_singleton.mpr rfl)).raw predicate.operator
      have hreads := reads_named (fieldName_spec predicate.field) hvalue.1 hvalue.2
      exact ⟨hreads, hreads⟩
  | not value ih =>
      have hreads := reads_bang.append (ih h).2
      rw [printed, printedTokens, written_not, written_not]
      refine ⟨hreads, ?_⟩
      by_cases hbare : style.bareNot = true
      · rw [if_pos hbare, if_pos hbare]
        exact hreads
      · rw [if_neg hbare, if_neg hbare]
        exact hreads.parenthesized
  | and values ih =>
      have hoperands : List.Forall₂ Reads (values.map fun value => (printed style value).2)
          (values.map fun value => (printedTokens style value).2) := by
        rw [List.forall₂_map_left_iff, List.forall₂_map_right_iff, List.forall₂_same]
        intro value hvalue
        refine (ih value hvalue fun predicate hpredicate => h predicate ?_).2
        rw [Formula.predicates_and]
        exact List.mem_flatten_of_mem (List.mem_map_of_mem hvalue) hpredicate
      have hseparator : Reads (andText style) (andTokens style) := by
        unfold andText andTokens
        split_ifs
        · exact reads_and
        · exact reads_space
      have hreads := hseparator.intercalate hoperands
      rw [printed, printedTokens, written_and, written_and]
      exact ⟨hreads, hreads.parenthesized⟩
  | or values ih =>
      have hoperands : List.Forall₂ Reads (values.map fun value => (printed style value).2)
          (values.map fun value => (printedTokens style value).2) := by
        rw [List.forall₂_map_left_iff, List.forall₂_map_right_iff, List.forall₂_same]
        intro value hvalue
        refine (ih value hvalue fun predicate hpredicate => h predicate ?_).2
        rw [Formula.predicates_or]
        exact List.mem_flatten_of_mem (List.mem_map_of_mem hvalue) hpredicate
      have hreads := reads_or.intercalate hoperands
      rw [printed, printedTokens, written_or, written_or]
      exact ⟨hreads, hreads.parenthesized⟩

/-! ### Reading expressions -/

/-- The parser after some trees. -/
def advanced (parser : Parser) (rest : List Token) (values : List QueryExpression) : Parser where
  tokens := rest
  predicates := parser.predicates + (values.map Formula.predicateCount).sum
  nodes := parser.nodes + (values.map Formula.nodeCount).sum
  orAlternatives := parser.orAlternatives + (values.map Formula.orAlternatives).sum

theorem advanced_nil {parser : Parser} {rest : List Token} (h : parser.tokens = rest) :
    advanced parser rest [] = parser := by
  subst h
  rfl

theorem advanced_advanced (parser : Parser) (middle rest : List Token) (value : QueryExpression)
    (values : List QueryExpression) :
    advanced (advanced parser middle [value]) rest values = advanced parser rest (value :: values) := by
  simp [advanced, Nat.add_assoc]

/-- The limits leave room for the trees. -/
structure Room (parser : Parser) (values : List QueryExpression) : Prop where
  predicates : parser.predicates + (values.map Formula.predicateCount).sum ≤ maxQueryPredicates
  nodes : parser.nodes + (values.map Formula.nodeCount).sum ≤ maxQueryNodes
  orAlternatives : parser.orAlternatives + (values.map Formula.orAlternatives).sum ≤ maxQueryOrAlternatives

section Room

variable {parser : Parser} {value : QueryExpression} {values : List QueryExpression} {rest : List Token}

theorem Room.head (h : Room parser (value :: values)) : Room parser [value] := by
  obtain ⟨hpredicates, hnodes, halternatives⟩ := h
  simp only [List.map_cons, List.sum_cons] at hpredicates hnodes halternatives
  refine ⟨?_, ?_, ?_⟩
  all_goals
    simp only [List.map_cons, List.map_nil, List.sum_singleton]
    omega

theorem Room.tail (h : Room parser (value :: values)) : Room (advanced parser rest [value]) values := by
  obtain ⟨hpredicates, hnodes, halternatives⟩ := h
  simp only [List.map_cons, List.sum_cons] at hpredicates hnodes halternatives
  refine ⟨?_, ?_, ?_⟩
  all_goals
    simp only [advanced, List.map_cons, List.map_nil, List.sum_singleton]
    omega

theorem Room.tokens (h : Room parser values) (tokens : List Token) : Room { parser with tokens := tokens } values :=
  ⟨h.predicates, h.nodes, h.orAlternatives⟩

theorem Room.not (h : Room parser [.not value]) : Room parser [value] := by
  refine ⟨h.predicates, ?_, h.orAlternatives⟩
  have := h.nodes
  simp only [List.map_cons, List.map_nil, List.sum_singleton, Formula.nodeCount_not] at this ⊢
  omega

theorem Room.and (h : Room parser [.and values]) : Room parser values := by
  obtain ⟨hpredicates, hnodes, halternatives⟩ := h
  simp only [List.map_cons, List.map_nil, List.sum_singleton, Formula.predicateCount_and,
    Formula.nodeCount_and, Formula.orAlternatives_and] at hpredicates hnodes halternatives
  exact ⟨hpredicates, by omega, halternatives⟩

theorem Room.or (h : Room parser [.or values]) : Room parser values := by
  obtain ⟨hpredicates, hnodes, halternatives⟩ := h
  simp only [List.map_cons, List.map_nil, List.sum_singleton, Formula.predicateCount_or,
    Formula.nodeCount_or, Formula.orAlternatives_or] at hpredicates hnodes halternatives
  exact ⟨hpredicates, by omega, by omega⟩

theorem node_not_advanced (h : Room parser [.not value]) :
    (advanced parser rest [value]).node (.not value) = .ok (.not value, advanced parser rest [.not value]) := by
  have hnodes := h.nodes
  simp only [List.map_cons, List.map_nil, List.sum_singleton, Formula.nodeCount_not] at hnodes
  refine node_eq_ok.mpr ⟨?_, ?_⟩
  · simp only [advanced, List.map_cons, List.map_nil, List.sum_singleton]
    omega
  · simp [advanced, Nat.add_assoc]

theorem node_and_advanced (h : Room parser [.and values]) :
    (advanced parser rest values).node (.and values) = .ok (.and values, advanced parser rest [.and values]) := by
  have hnodes := h.nodes
  simp only [List.map_cons, List.map_nil, List.sum_singleton, Formula.nodeCount_and] at hnodes
  refine node_eq_ok.mpr ⟨?_, ?_⟩
  · simp only [advanced]
    omega
  · simp [advanced, Nat.add_assoc]

theorem alternatives_advanced (h : Room parser [.or values]) :
    (advanced parser rest values).alternatives values
      = .ok (.or values, advanced parser rest [.or values]) := by
  have hnodes := h.nodes
  have halternatives := h.orAlternatives
  simp only [List.map_cons, List.map_nil, List.sum_singleton, Formula.nodeCount_or,
    Formula.orAlternatives_or] at hnodes halternatives
  refine alternatives_eq_ok.mpr ⟨?_, ?_, ?_⟩
  · simp only [advanced]
    omega
  · simp only [advanced]
    omega
  · simp only [advanced, List.map_cons, List.map_nil, List.sum_singleton, Formula.predicateCount_or,
      Formula.nodeCount_or, Formula.orAlternatives_or, Prod.mk.injEq, Parser.mk.injEq, true_and]
    omega

end Room

/-- The first token of an operand. -/
def opensOperand : List Token → Bool
  | .predicate _ _ :: _ | .bang :: _ | .left :: _ => true
  | _ => false

theorem endsConjunction_of_opensOperand {tokens : List Token} (h : opensOperand tokens = true) :
    endsConjunction tokens = false := by
  unfold opensOperand at h
  split at h
  all_goals first | rfl | cases h

theorem skipAnd_operand {first : Bool} {tokens : List Token} (h : opensOperand tokens = true) :
    skipAnd first tokens = .ok tokens := by
  unfold opensOperand at h
  split at h
  all_goals first | rfl | cases h

theorem skipAnd_and {tokens : List Token} (h : opensOperand tokens = true) :
    skipAnd false (.and :: tokens) = .ok tokens := by
  unfold opensOperand at h
  split at h
  all_goals first | rfl | cases h

theorem endsConjunction_andTokens (style : Style) {tokens : List Token} (h : opensOperand tokens = true) :
    endsConjunction (andTokens style ++ tokens) = false := by
  unfold andTokens
  split_ifs
  · rfl
  · exact endsConjunction_of_opensOperand h

theorem skipAnd_andTokens (style : Style) {tokens : List Token} (h : opensOperand tokens = true) :
    skipAnd false (andTokens style ++ tokens) = .ok tokens := by
  unfold andTokens
  split_ifs
  · exact skipAnd_and h
  · exact skipAnd_operand h

theorem opensOperand_append {tokens : List Token} (rest : List Token) (h : opensOperand tokens = true) :
    opensOperand (tokens ++ rest) = true := by
  unfold opensOperand at h
  split at h
  all_goals first | rfl | cases h

theorem intercalate_cons {α : Type} (separator first : List α) (others : List (List α)) :
    separator.intercalate (first :: others) = first ++ (others.map (separator ++ ·)).flatten := by
  induction others generalizing first with
  | nil => simp
  | cons second others ih => simp [List.intercalate_cons_cons, ih]

section Reading

variable (rfc3339 : Text → Option Int) (source : QuerySource) (style : Style)

/-- The tokens are read as an operand, inside so many parentheses at least. -/
structure OperandParses (tokens : List Token) (needed : Nat) (value : QueryExpression) : Prop where
  opens : opensOperand tokens = true
  parse : ∀ {depth nesting parser rest}, 4 * tokens.length + 1 ≤ depth → needed + nesting ≤ maxQueryNesting →
    Room parser [value] → parser.tokens = tokens ++ rest →
    parseUnary rfc3339 source depth nesting parser = .ok (value, advanced parser rest [value])

/-- The tokens are read as an expression, before a closing parenthesis or the end. -/
def ExpressionParses (tokens : List Token) (needed : Nat) (value : QueryExpression) : Prop :=
  ∀ ⦃depth nesting parser rest⦄, 4 * tokens.length + 4 ≤ depth → needed + nesting ≤ maxQueryNesting →
    Room parser [value] → parser.tokens = tokens ++ rest → (rest = [] ∨ ∃ tokens, rest = .right :: tokens) →
    parseOr rfc3339 source depth nesting parser = .ok (value, advanced parser rest [value])

/-- The tokens of the operands after the first. -/
def tailTokens (separator : List Token) (values : List QueryExpression) : List Token :=
  (values.map fun value => separator ++ (printedTokens style value).2).flatten

/-- Every operand is read from the tokens it is printed as. -/
def OperandsParse (values : List QueryExpression) : Prop :=
  ∀ value ∈ values,
    OperandParses rfc3339 source (printedTokens style value).2 (printedDepth style value).2 value

variable {rfc3339 source style} {depth nesting needed : Nat} {parser : Parser} {tokens rest : List Token}
  {value : QueryExpression} {values : List QueryExpression}

theorem tailTokens_cons (separator : List Token) (value : QueryExpression) (values : List QueryExpression) :
    tailTokens style separator (value :: values)
      = separator ++ ((printedTokens style value).2 ++ tailTokens style separator values) := by
  simp [tailTokens]

theorem OperandParses.length_pos (h : OperandParses rfc3339 source tokens needed value) :
    0 < tokens.length := by
  have hopens := h.opens
  cases tokens with
  | nil => cases hopens
  | cons token tokens => exact Nat.succ_pos _

theorem endsConjunction_of_closed (hrest : rest = [] ∨ ∃ tokens, rest = .right :: tokens) :
    endsConjunction rest = true := by
  obtain rfl | ⟨tokens, rfl⟩ := hrest <;> rfl

/-- The first conjunct and the conjuncts after it are read alike. -/
theorem parseConjuncts_cons {first : Bool} {tail : List Token} {others : List QueryExpression}
    (hvalue : OperandParses rfc3339 source tokens needed value) (hdepth : 4 * tokens.length + 1 ≤ depth)
    (hnesting : needed + nesting ≤ maxQueryNesting) (hroom : Room parser [value])
    (hends : endsConjunction parser.tokens = false)
    (hskip : skipAnd first parser.tokens = .ok (tokens ++ tail))
    (hothers : parseConjuncts rfc3339 source depth nesting false (advanced parser tail [value])
      = .ok (others, advanced parser rest (value :: others))) :
    parseConjuncts rfc3339 source (depth + 1) nesting first parser
      = .ok (value :: others, advanced parser rest (value :: others)) := by
  have hunary : parseUnary rfc3339 source depth nesting { parser with tokens := tokens ++ tail }
      = .ok (value, advanced parser tail [value]) := hvalue.parse hdepth hnesting (hroom.tokens _) rfl
  rw [parseConjuncts, if_neg (by simp [hends]), hskip]
  exact bind_eq_ok.mpr ⟨_, rfl, bind_eq_ok.mpr ⟨_, hunary, bind_eq_ok.mpr ⟨_, hothers, rfl⟩⟩⟩

/-- The conjuncts after the first are read. -/
theorem parseConjuncts_tail (hvalues : OperandsParse rfc3339 source style values)
    (hdepth : 4 * (tailTokens style (andTokens style) values).length + 2 ≤ depth)
    (hnesting : ∀ value ∈ values, (printedDepth style value).2 + nesting ≤ maxQueryNesting)
    (hroom : Room parser values)
    (htokens : parser.tokens = tailTokens style (andTokens style) values ++ rest)
    (hrest : endsConjunction rest = true) :
    parseConjuncts rfc3339 source depth nesting false parser = .ok (values, advanced parser rest values) := by
  induction values generalizing depth parser with
  | nil =>
      obtain ⟨depth, rfl⟩ : ∃ fewer, depth = fewer + 1 := ⟨depth - 1, by omega⟩
      have hnone : parser.tokens = rest := htokens
      rw [parseConjuncts, hnone, if_pos hrest, advanced_nil hnone]
  | cons value values ih =>
      obtain ⟨depth, rfl⟩ : ∃ fewer, depth = fewer + 1 := ⟨depth - 1, by omega⟩
      obtain ⟨hvalue, hvalues⟩ := List.forall_mem_cons.mp hvalues
      rw [List.forall_mem_cons] at hnesting
      rw [tailTokens_cons, List.append_assoc, List.append_assoc] at htokens
      rw [tailTokens_cons, List.length_append, List.length_append] at hdepth
      have hpositive := hvalue.length_pos
      have hopens := opensOperand_append (tailTokens style (andTokens style) values ++ rest) hvalue.opens
      have hfewer : 4 * (tailTokens style (andTokens style) values).length + 2 ≤ depth := by omega
      have hothers := ih hvalues hfewer hnesting.2 hroom.tail rfl
      rw [advanced_advanced] at hothers
      refine parseConjuncts_cons hvalue (by omega) hnesting.1 hroom.head ?_ ?_ hothers
      · rw [htokens]
        exact endsConjunction_andTokens style hopens
      · rw [htokens]
        exact skipAnd_andTokens style hopens

/-- A conjunction with one member is the member. -/
theorem parseAnd_operand (hvalue : OperandParses rfc3339 source tokens needed value)
    (hdepth : 4 * tokens.length + 3 ≤ depth) (hnesting : needed + nesting ≤ maxQueryNesting)
    (hroom : Room parser [value]) (htokens : parser.tokens = tokens ++ rest)
    (hrest : endsConjunction rest = true) :
    parseAnd rfc3339 source depth nesting parser = .ok (value, advanced parser rest [value]) := by
  obtain ⟨depth, rfl⟩ : ∃ fewer, depth = fewer + 3 := ⟨depth - 3, by omega⟩
  have hopens := opensOperand_append rest hvalue.opens
  have hnone : parseConjuncts rfc3339 source (depth + 1) nesting false (advanced parser rest [value])
      = .ok ([], advanced parser rest [value]) := by
    rw [parseConjuncts]
    exact if_pos hrest
  have hends : endsConjunction parser.tokens = false := by
    rw [htokens]
    exact endsConjunction_of_opensOperand hopens
  have hskip : skipAnd true parser.tokens = .ok (tokens ++ rest) := by
    rw [htokens]
    exact skipAnd_operand hopens
  rw [parseAnd, parseConjuncts_cons hvalue (by omega) hnesting hroom hends hskip hnone]
  rfl

/-- The alternatives after the first are read. -/
theorem parseAlternatives_tail (hvalues : OperandsParse rfc3339 source style values)
    (hdepth : 4 * (tailTokens style [.or] values).length + 1 ≤ depth)
    (hnesting : ∀ value ∈ values, (printedDepth style value).2 + nesting ≤ maxQueryNesting)
    (hroom : Room parser values) (htokens : parser.tokens = tailTokens style [.or] values ++ rest)
    (hrest : rest = [] ∨ ∃ tokens, rest = .right :: tokens) :
    parseAlternatives rfc3339 source depth nesting parser = .ok (values, advanced parser rest values) := by
  induction values generalizing depth parser with
  | nil =>
      obtain ⟨depth, rfl⟩ : ∃ fewer, depth = fewer + 1 := ⟨depth - 1, by omega⟩
      have hnone : parser.tokens = rest := htokens
      rw [parseAlternatives, hnone, advanced_nil hnone]
      obtain rfl | ⟨tokens, rfl⟩ := hrest <;> rfl
  | cons value values ih =>
      obtain ⟨depth, rfl⟩ : ∃ fewer, depth = fewer + 1 := ⟨depth - 1, by omega⟩
      obtain ⟨hvalue, hvalues⟩ := List.forall_mem_cons.mp hvalues
      rw [List.forall_mem_cons] at hnesting
      rw [tailTokens_cons, List.append_assoc, List.append_assoc] at htokens
      rw [tailTokens_cons, List.length_append, List.length_append, List.length_singleton] at hdepth
      have hends : endsConjunction (tailTokens style [.or] values ++ rest) = true := by
        cases values with
        | nil => exact endsConjunction_of_closed hrest
        | cons second values => rfl
      have henough : 4 * (printedTokens style value).2.length + 3 ≤ depth := by omega
      have hfewer : 4 * (tailTokens style [.or] values).length + 1 ≤ depth := by omega
      have hfirst := parseAnd_operand hvalue henough hnesting.1
        (hroom.head.tokens ((printedTokens style value).2 ++ (tailTokens style [.or] values ++ rest))) rfl hends
      have hothers := ih hvalues hfewer hnesting.2 hroom.tail rfl
      rw [advanced_advanced] at hothers
      rw [parseAlternatives, htokens]
      exact bind_eq_ok.mpr ⟨_, hfirst, bind_eq_ok.mpr ⟨_, hothers, rfl⟩⟩

theorem parseAlternatives_none (hrest : parser.tokens = [] ∨ ∃ tokens, parser.tokens = .right :: tokens) :
    parseAlternatives rfc3339 source (depth + 1) nesting parser = .ok ([], parser) := by
  rw [parseAlternatives]
  obtain h | ⟨tokens, h⟩ := hrest
  · rw [h]
  · rw [h]

/-- An operand by itself is an expression. -/
theorem OperandParses.expression (h : OperandParses rfc3339 source tokens needed value) :
    ExpressionParses rfc3339 source tokens needed value := by
  intro depth nesting parser rest hdepth hnesting hroom htokens hrest
  obtain ⟨depth, rfl⟩ : ∃ fewer, depth = fewer + 2 := ⟨depth - 2, by omega⟩
  have henough : 4 * tokens.length + 3 ≤ depth + 1 := by omega
  have hfirst := parseAnd_operand h henough hnesting hroom htokens (endsConjunction_of_closed hrest)
  rw [parseOr]
  exact bind_eq_ok.mpr ⟨_, hfirst, bind_eq_ok.mpr ⟨_, parseAlternatives_none hrest, rfl⟩⟩

/-- An expression in parentheses is an operand. -/
theorem ExpressionParses.parenthesized (h : ExpressionParses rfc3339 source tokens needed value) :
    OperandParses rfc3339 source (.left :: tokens ++ [.right]) (needed + 1) value where
  opens := rfl
  parse := by
    intro depth nesting parser rest hdepth hnesting hroom htokens
    simp only [List.length_append, List.length_cons, List.length_nil] at hdepth
    obtain ⟨depth, rfl⟩ : ∃ fewer, depth = fewer + 1 := ⟨depth - 1, by omega⟩
    have hinside : needed + (nesting + 1) ≤ maxQueryNesting := by omega
    have henough : 4 * tokens.length + 4 ≤ depth := by omega
    have hinner := h henough hinside (hroom.tokens (tokens ++ .right :: rest)) rfl (.inr ⟨rest, rfl⟩)
    have hopened : parser.tokens = .left :: (tokens ++ .right :: rest) := by
      rw [htokens]
      simp
    rw [parseUnary, hopened]
    exact bind_eq_ok.mpr ⟨(), failIf_eq_ok.mpr (by omega), bind_eq_ok.mpr ⟨_, hinner, rfl⟩⟩

/-- A negation is read when its operand is. -/
theorem OperandParses.not (h : OperandParses rfc3339 source tokens needed value) :
    OperandParses rfc3339 source (.bang :: tokens) needed (.not value) where
  opens := rfl
  parse := by
    intro depth nesting parser rest hdepth hnesting hroom htokens
    rw [List.length_cons] at hdepth
    obtain ⟨depth, rfl⟩ : ∃ fewer, depth = fewer + 1 := ⟨depth - 1, by omega⟩
    have henough : 4 * tokens.length + 1 ≤ depth := by omega
    have hunary := h.parse henough hnesting (hroom.not.tokens (tokens ++ rest)) rfl
    rw [parseUnary, htokens]
    exact bind_eq_ok.mpr ⟨_, hunary, node_not_advanced (hroom.tokens _)⟩

theorem printedTokens_and_cons (style : Style) (first : QueryExpression) (others : List QueryExpression) :
    (printedTokens style (.and (first :: others))).1
      = (printedTokens style first).2 ++ tailTokens style (andTokens style) others := by
  rw [printedTokens, written_and, List.map_cons]
  show (andTokens style).intercalate _ = _
  rw [intercalate_cons, List.map_map]
  rfl

theorem printedTokens_or_cons (style : Style) (first : QueryExpression) (others : List QueryExpression) :
    (printedTokens style (.or (first :: others))).1
      = (printedTokens style first).2 ++ tailTokens style [.or] others := by
  rw [printedTokens, written_or, List.map_cons]
  show List.intercalate [Token.or] _ = _
  rw [intercalate_cons, List.map_map]
  rfl

theorem operand_le_printedDepth_and (hvalue : value ∈ values) :
    (printedDepth style value).2 ≤ (printedDepth style (.and values)).1 := by
  have hmember : (printedDepth style value).2 ∈ values.map fun value => (printedDepth style value).2 :=
    List.mem_map_of_mem hvalue
  rw [printedDepth, written_and]
  exact le_largest hmember

theorem operand_le_printedDepth_or (hvalue : value ∈ values) :
    (printedDepth style value).2 ≤ (printedDepth style (.or values)).1 := by
  have hmember : (printedDepth style value).2 ∈ values.map fun value => (printedDepth style value).2 :=
    List.mem_map_of_mem hvalue
  rw [printedDepth, written_or]
  exact le_largest hmember

/-- A conjunction is read when its members are. -/
theorem expressionParses_and (hvalues : OperandsParse rfc3339 source style values)
    (hlength : 2 ≤ values.length) :
    ExpressionParses rfc3339 source (printedTokens style (.and values)).1 (printedDepth style (.and values)).1
      (.and values) := by
  intro depth nesting parser rest hdepth hnesting hroom htokens hrest
  have hoperands : ∀ value ∈ values, (printedDepth style value).2 + nesting ≤ maxQueryNesting := fun _ hvalue =>
    Nat.le_trans (Nat.add_le_add_right (operand_le_printedDepth_and hvalue) nesting) hnesting
  match values with
  | first :: second :: others =>
      rw [printedTokens_and_cons] at hdepth htokens
      rw [List.length_append] at hdepth
      rw [List.append_assoc] at htokens
      obtain ⟨depth, rfl⟩ : ∃ fewer, depth = fewer + 4 := ⟨depth - 4, by omega⟩
      obtain ⟨hfirst, hothers⟩ := List.forall_mem_cons.mp hvalues
      obtain ⟨hnestingFirst, hnestingOthers⟩ := List.forall_mem_cons.mp hoperands
      have hmembers := hroom.and
      have hpositive := hfirst.length_pos
      have hopens := opensOperand_append
        (tailTokens style (andTokens style) (second :: others) ++ rest) hfirst.opens
      have hends : endsConjunction parser.tokens = false := by
        rw [htokens]
        exact endsConjunction_of_opensOperand hopens
      have hskip : skipAnd true parser.tokens = .ok ((printedTokens style first).2
          ++ (tailTokens style (andTokens style) (second :: others) ++ rest)) := by
        rw [htokens]
        exact skipAnd_operand hopens
      have hfewer : 4 * (tailTokens style (andTokens style) (second :: others)).length + 2 ≤ depth + 1 := by
        omega
      have htail := parseConjuncts_tail hothers hfewer hnestingOthers hmembers.tail rfl
        (endsConjunction_of_closed hrest)
      rw [advanced_advanced] at htail
      have hconjuncts := parseConjuncts_cons hfirst (by omega) hnestingFirst hmembers.head hends hskip htail
      have hand : parseAnd rfc3339 source (depth + 3) nesting parser
          = .ok (.and (first :: second :: others), advanced parser rest [.and (first :: second :: others)]) := by
        rw [parseAnd]
        exact bind_eq_ok.mpr ⟨_, hconjuncts, node_and_advanced hroom⟩
      rw [parseOr]
      exact bind_eq_ok.mpr ⟨_, hand, bind_eq_ok.mpr ⟨_, parseAlternatives_none hrest, rfl⟩⟩

/-- A disjunction is read when its members are. -/
theorem expressionParses_or (hvalues : OperandsParse rfc3339 source style values)
    (hlength : 2 ≤ values.length) :
    ExpressionParses rfc3339 source (printedTokens style (.or values)).1 (printedDepth style (.or values)).1
      (.or values) := by
  intro depth nesting parser rest hdepth hnesting hroom htokens hrest
  have hoperands : ∀ value ∈ values, (printedDepth style value).2 + nesting ≤ maxQueryNesting := fun _ hvalue =>
    Nat.le_trans (Nat.add_le_add_right (operand_le_printedDepth_or hvalue) nesting) hnesting
  match values with
  | first :: second :: others =>
      rw [printedTokens_or_cons] at hdepth htokens
      rw [List.length_append] at hdepth
      rw [List.append_assoc] at htokens
      obtain ⟨depth, rfl⟩ : ∃ fewer, depth = fewer + 1 := ⟨depth - 1, by omega⟩
      obtain ⟨hfirst, hothers⟩ := List.forall_mem_cons.mp hvalues
      obtain ⟨hnestingFirst, hnestingOthers⟩ := List.forall_mem_cons.mp hoperands
      have hmembers := hroom.or
      have henough : 4 * (printedTokens style first).2.length + 3 ≤ depth := by omega
      have hand := parseAnd_operand hfirst henough hnestingFirst hmembers.head htokens rfl
      have hfewer : 4 * (tailTokens style [.or] (second :: others)).length + 1 ≤ depth := by omega
      have htail := parseAlternatives_tail hothers hfewer hnestingOthers hmembers.tail rfl hrest
      rw [advanced_advanced] at htail
      rw [parseOr]
      exact bind_eq_ok.mpr ⟨_, hand, bind_eq_ok.mpr ⟨_, htail, alternatives_advanced hroom⟩⟩

end Reading

/-! ### Predicates -/

theorem resolveField_asStr (field : QueryField) : resolveField field.asStr = some field := by
  cases field <;> decide

theorem parseI64_equals (text : Text) : parseI64 ('=' :: text) = none := rfl

theorem parseU64_equals (text : Text) : parseU64 ('=' :: text) = none := rfl

theorem isFiniteF64_equals (text : Text) : isFiniteF64 ('=' :: text) = false := by
  have hspan : ∃ number exponent, ('=' :: text).span (fun c => c ≠ 'e' ∧ c ≠ 'E') = ('=' :: number, exponent) := by
    rw [List.span_eq_takeWhile_dropWhile, List.takeWhile_cons_of_pos (by decide)]
    exact ⟨_, _, rfl⟩
  obtain ⟨number, exponent, hspan⟩ := hspan
  have hparts : decimalParts ('=' :: text) = none := by
    rw [decimalParts, hspan]
    cases hsplit : splitOnce '.' number with
    | none =>
        have hwhole : splitOnce '.' ('=' :: number) = none := by
          rw [splitOnce, if_neg (by decide), hsplit]
          rfl
        dsimp only
        rw [hwhole]
        rfl
    | some parts =>
        have hwhole : splitOnce '.' ('=' :: number) = some ('=' :: parts.1, parts.2) := by
          rw [splitOnce, if_neg (by decide), hsplit]
          rfl
        dsimp only
        rw [hwhole]
        rfl
  simp [isFiniteF64, hparts]

/-- An operator is read from its sign: the values that follow a `<` or `>` do not start with `=`. -/
theorem splitOperator_sign {operator : QueryOperator} {value : Text} (hcompared : operator ≠ .contains)
    (hvalue : operator ≠ .equal → value.head? ≠ some '=') :
    splitOperator (operatorSign operator ++ value) = (operator, value) := by
  cases operator with
  | contains => exact absurd rfl hcompared
  | equal => rfl
  | greaterOrEqual => rfl
  | lessOrEqual => rfl
  | greater =>
      have hhead := hvalue nofun
      show splitOperator ('>' :: value) = _
      unfold splitOperator
      split <;> simp_all
  | less =>
      have hhead := hvalue nofun
      show splitOperator ('<' :: value) = _
      unfold splitOperator
      split <;> simp_all

/-- An ordered field has no value that starts with `=`. -/
theorem Acceptable.head_ne {rfc3339 : Text → Option Int} {source : QuerySource} {predicate : QueryPredicate}
    (hrfc3339 : ∀ text, rfc3339 ('=' :: text) = none) (h : Acceptable rfc3339 source predicate)
    (hoperator : predicate.operator ≠ .equal) : predicate.value.head? ≠ some '=' := by
  intro hhead
  obtain ⟨text, htext⟩ : ∃ text, predicate.value = '=' :: text := by
    cases hvalue : predicate.value with
    | nil => exact absurd hvalue h.nonempty
    | cons c text =>
        rw [hvalue] at hhead
        obtain rfl := Option.some.inj hhead
        exact ⟨text, rfl⟩
  have hordered : predicate.field ∈ orderedFields := by
    have haccepted := h.operator
    have hcompared := h.compared
    cases hop : predicate.operator with
    | equal => exact absurd hop hoperator
    | contains => exact absurd hop hcompared
    | _ =>
        rw [hop] at haccepted
        exact of_decide_eq_true haccepted
  have hvalid := h.value
  rw [htext] at hvalid
  simp only [orderedFields, List.mem_cons, List.not_mem_nil, or_false] at hordered
  obtain hfield | hfield | hfield | hfield | hfield | hfield | hfield := hordered
  all_goals
    rw [hfield] at hvalid
    simp [validValue, hrfc3339, parseI64_equals, parseU64_equals, isFiniteF64_equals] at hvalid

theorem parsePredicate_printed {rfc3339 : Text → Option Int} {source : QuerySource}
    {predicate : QueryPredicate} (hrfc3339 : ∀ text, rfc3339 ('=' :: text) = none)
    (h : Acceptable rfc3339 source predicate) :
    parsePredicate rfc3339 source predicate.field.asStr (operatorSign predicate.operator ++ predicate.value)
      = .ok predicate := by
  have hvalidated : validateValue rfc3339 source predicate.field predicate.operator predicate.value = .ok () := by
    rw [validateValue, if_neg h.compared, failIf_eq_ok, not_not]
    exact h.value
  have hlimits : ¬ (predicate.value.isEmpty ∨ maxValueBytes < byteLength predicate.value
      ∨ ¬ operatorAccepted predicate.field predicate.operator) := by
    rintro (hempty | hlong | hoperator)
    · exact h.nonempty (List.isEmpty_iff.mp hempty)
    · exact absurd h.bounded (Nat.not_le.mpr hlong)
    · exact hoperator h.operator
  rw [parsePredicate, resolveField_asStr]
  dsimp only
  rw [splitOperator_sign h.compared (h.head_ne hrfc3339)]
  refine bind_eq_ok.mpr ⟨(), failIf_eq_ok.mpr (not_not.mpr h.field), ?_⟩
  exact bind_eq_ok.mpr ⟨(), failIf_eq_ok.mpr hlimits, bind_eq_ok.mpr ⟨(), hvalidated, rfl⟩⟩

/-- Every expression of acceptable predicates is read from the tokens it is printed as. -/
theorem parses_printed {rfc3339 : Text → Option Int} {source : QuerySource} (style : Style)
    {expression : QueryExpression} (hrfc3339 : ∀ text, rfc3339 ('=' :: text) = none)
    (hbranching : expression.branching = true)
    (h : ∀ predicate ∈ expression.predicates, Acceptable rfc3339 source predicate) :
    OperandParses rfc3339 source (printedTokens style expression).2 (printedDepth style expression).2 expression
      ∧ ExpressionParses rfc3339 source (printedTokens style expression).1 (printedDepth style expression).1
        expression := by
  induction expression using Formula.induction with
  | predicate predicate =>
      have hparse := parsePredicate_printed hrfc3339 (h predicate (List.mem_singleton.mpr rfl))
      have hoperand : OperandParses rfc3339 source
          [.predicate predicate.field.asStr (operatorSign predicate.operator ++ predicate.value)] 0
          (.predicate predicate) := by
        refine ⟨rfl, fun {depth nesting parser rest} hdepth hnesting hroom htokens => ?_⟩
        obtain ⟨depth, rfl⟩ : ∃ fewer, depth = fewer + 1 := ⟨depth - 1, by omega⟩
        rw [parseUnary, htokens]
        refine bind_eq_ok.mpr ⟨_, hparse, predicate_eq_ok.mpr ⟨hroom.predicates, hroom.nodes, rfl⟩⟩
      exact ⟨hoperand, hoperand.expression⟩
  | not value ih =>
      have hvalue := (ih hbranching h).1
      have hexpression := hvalue.not.expression
      refine ⟨?_, hexpression⟩
      rw [printedTokens, printedDepth, written_not, written_not]
      by_cases hbare : style.bareNot = true
      · rw [if_pos hbare, if_pos hbare]
        exact hvalue.not
      · rw [if_neg hbare, if_neg hbare]
        exact hexpression.parenthesized
  | and values ih =>
      obtain ⟨hlength, hbranching⟩ := (Formula.branching_and values).mp hbranching
      rw [Formula.predicates_and] at h
      have hvalues : OperandsParse rfc3339 source style values := fun value hvalue =>
        (ih value hvalue (hbranching value hvalue) fun predicate hpredicate =>
          h predicate (List.mem_flatten_of_mem (List.mem_map_of_mem hvalue) hpredicate)).1
      have hexpression := expressionParses_and hvalues hlength
      refine ⟨?_, hexpression⟩
      have hparenthesized := hexpression.parenthesized
      rw [printedTokens, printedDepth, written_and, written_and] at hparenthesized ⊢
      exact hparenthesized
  | or values ih =>
      obtain ⟨hlength, hbranching⟩ := (Formula.branching_or values).mp hbranching
      rw [Formula.predicates_or] at h
      have hvalues : OperandsParse rfc3339 source style values := fun value hvalue =>
        (ih value hvalue (hbranching value hvalue) fun predicate hpredicate =>
          h predicate (List.mem_flatten_of_mem (List.mem_map_of_mem hvalue) hpredicate)).1
      have hexpression := expressionParses_or hvalues hlength
      refine ⟨?_, hexpression⟩
      have hparenthesized := hexpression.parenthesized
      rw [printedTokens, printedDepth, written_or, written_or] at hparenthesized ⊢
      exact hparenthesized

/-! ### Trimming -/

/-- The text starts and ends with characters that are not white space. -/
structure Trimmed (text : Text) : Prop where
  first : ∃ c rest, text = c :: rest ∧ isWhitespace c = false
  last : ∃ rest c, text = rest ++ [c] ∧ isWhitespace c = false

theorem Trimmed.trimMatches {text : Text} (h : Trimmed text) : trimMatches isWhitespace text = text := by
  obtain ⟨⟨c, rest, hfirst, hc⟩, ⟨before, last, hlast, hend⟩⟩ := h
  have hstart : text.dropWhile isWhitespace = text := by
    rw [hfirst, List.dropWhile_cons_of_neg (by simp [hc])]
  have hfinish : text.reverse.dropWhile isWhitespace = text.reverse := by
    rw [hlast, List.reverse_append, List.reverse_singleton, List.singleton_append,
      List.dropWhile_cons_of_neg (by simp [hend])]
  rw [MetricBackend.trimMatches, hstart, hfinish, List.reverse_reverse]

theorem Trimmed.append {left right : Text} (middle : Text) (hleft : Trimmed left) (hright : Trimmed right) :
    Trimmed (left ++ middle ++ right) := by
  obtain ⟨c, rest, rfl, hc⟩ := hleft.first
  obtain ⟨before, last, rfl, hlast⟩ := hright.last
  exact ⟨⟨c, _, rfl, hc⟩, ⟨c :: rest ++ middle ++ before, last, by simp, hlast⟩⟩

theorem Trimmed.cons {text : Text} {c : Char} (hc : isWhitespace c = false) (h : Trimmed text) :
    Trimmed (c :: text) := by
  obtain ⟨before, last, rfl, hlast⟩ := h.last
  exact ⟨⟨c, _, rfl, hc⟩, ⟨c :: before, last, rfl, hlast⟩⟩

theorem Trimmed.parenthesized (text : Text) : Trimmed ('(' :: text ++ [')']) :=
  ⟨⟨'(', _, rfl, rfl⟩, ⟨'(' :: text, ')', rfl, rfl⟩⟩

theorem Trimmed.intercalate {separator : Text} {texts : List Text} (hnonempty : texts ≠ [])
    (h : ∀ text ∈ texts, Trimmed text) : Trimmed (separator.intercalate texts) := by
  induction texts with
  | nil => exact absurd rfl hnonempty
  | cons text texts ih =>
      rw [List.forall_mem_cons] at h
      cases texts with
      | nil => simpa using h.1
      | cons second texts =>
          rw [List.intercalate_cons_cons]
          exact h.1.append separator (ih nofun h.2)

theorem trimmed_printPredicate (predicate : QueryPredicate) : Trimmed (printPredicate predicate) := by
  have hname : ∃ c rest, predicate.field.asStr = c :: rest ∧ isWhitespace c = false := by
    cases predicate.field <;> exact ⟨_, _, rfl, by decide⟩
  obtain ⟨c, rest, hname, hc⟩ := hname
  constructor
  · refine ⟨c, rest ++ ':' :: escaped (operatorSign predicate.operator ++ predicate.value), ?_, hc⟩
    rw [printPredicate, hname]
    rfl
  · refine ⟨predicate.field.asStr ++ ':' :: quote :: ((operatorSign predicate.operator ++ predicate.value).flatMap
      fun c => if c = quote ∨ c = backslash then [backslash, c] else [c]), quote, ?_, rfl⟩
    simp [printPredicate, escaped]

theorem trimmed_printed (style : Style) {expression : QueryExpression} (hbranching : expression.branching = true) :
    Trimmed (printed style expression).1 ∧ Trimmed (printed style expression).2 := by
  induction expression using Formula.induction with
  | predicate predicate => exact ⟨trimmed_printPredicate predicate, trimmed_printPredicate predicate⟩
  | not value ih =>
      have hbang := Trimmed.cons (c := '!') rfl (ih hbranching).2
      rw [printed, written_not]
      refine ⟨hbang, ?_⟩
      by_cases hbare : style.bareNot = true
      · rw [if_pos hbare]
        exact hbang
      · rw [if_neg hbare]
        exact .parenthesized _
  | and values ih =>
      obtain ⟨hlength, hbranching⟩ := (Formula.branching_and values).mp hbranching
      rw [printed, written_and]
      refine ⟨Trimmed.intercalate ?_ ?_, .parenthesized _⟩
      · intro hempty
        rw [List.map_eq_nil_iff.mp hempty] at hlength
        cases hlength
      · intro text htext
        obtain ⟨value, hvalue, rfl⟩ := List.mem_map.mp htext
        exact (ih value hvalue (hbranching value hvalue)).2
  | or values ih =>
      obtain ⟨hlength, hbranching⟩ := (Formula.branching_or values).mp hbranching
      rw [printed, written_or]
      refine ⟨Trimmed.intercalate ?_ ?_, .parenthesized _⟩
      · intro hempty
        rw [List.map_eq_nil_iff.mp hempty] at hlength
        cases hlength
      · intro text htext
        obtain ⟨value, hvalue, rfl⟩ := List.mem_map.mp htext
        exact (ih value hvalue (hbranching value hvalue)).2

/-! ### Round trip -/

/-- The limits of the parser, for a tree. -/
structure WithinLimits (expression : QueryExpression) : Prop where
  predicates : expression.predicateCount ≤ maxQueryPredicates
  nodes : expression.nodeCount ≤ maxQueryNodes
  orAlternatives : expression.orAlternatives ≤ maxQueryOrAlternatives

def normalizedQuery (source : QuerySource) (expression : QueryExpression) : Text :=
  "v2|".toList ++ source.asStr ++ '|' :: normalizedExpression expression

section RoundTrip

variable {rfc3339 : Text → Option Int} {source : QuerySource}

theorem parse_eq_ok {input : Text} {parsed : ParsedQuery} {expression : QueryExpression}
    (hexpression : parsed.expression = some expression) :
    ParsedQuery.parse rfc3339 source input = .ok parsed
      ↔ byteLength (trimMatches isWhitespace input) ≤ maxQueryBytes
        ∧ parsed = ⟨source, some expression, normalizedQuery source expression⟩
        ∧ ∃ tokens after, scan (trimMatches isWhitespace input) = .ok tokens ∧ tokens ≠ []
          ∧ parseOr rfc3339 source (parseDepth tokens) 0 ⟨tokens, 0, 0, 0⟩ = .ok (expression, after)
          ∧ after.tokens = [] := by
  rw [ParsedQuery.parse, bind_eq_ok]
  simp only [failIf_eq_ok, Nat.not_lt]
  constructor
  · rintro ⟨_, hbytes, h⟩
    split_ifs at h with hempty
    · rw [← pure_eq_ok.mp h] at hexpression
      cases hexpression
    · simp only [tokenize, bind_eq_ok, failIf_eq_ok, pure_eq_ok] at h
      obtain ⟨tokens, ⟨_, hscan, _, hnonempty, rfl⟩, ⟨found, after⟩, hparse, _, hend, rfl⟩ := h
      obtain rfl := Option.some.inj hexpression
      refine ⟨hbytes, rfl, _, after, hscan, ?_, hparse, ?_⟩
      · exact fun h => hnonempty (List.isEmpty_iff.mpr h)
      · exact List.isEmpty_iff.mp (not_not.mp hend)
  · rintro ⟨hbytes, rfl, tokens, after, hscan, hnonempty, hparse, hend⟩
    refine ⟨(), hbytes, ?_⟩
    have hinput : ¬ (trimMatches isWhitespace input).isEmpty = true := by
      intro hempty
      rw [List.isEmpty_iff.mp hempty] at hscan
      exact hnonempty (Except.ok.inj hscan).symm
    have htokenize : tokenize (trimMatches isWhitespace input) = .ok tokens :=
      bind_eq_ok.mpr ⟨tokens, hscan, bind_eq_ok.mpr
        ⟨(), failIf_eq_ok.mpr fun h => hnonempty (List.isEmpty_iff.mp h), rfl⟩⟩
    rw [if_neg hinput, htokenize]
    refine bind_eq_ok.mpr ⟨_, rfl, bind_eq_ok.mpr ⟨_, hparse, bind_eq_ok.mpr ⟨(), ?_, rfl⟩⟩⟩
    exact failIf_eq_ok.mpr fun h => h (List.isEmpty_iff.mpr hend)

theorem parse_print (hrfc3339 : ∀ text, rfc3339 ('=' :: text) = none) (style : Style)
    {expression : QueryExpression} (hbranching : expression.branching = true)
    (hacceptable : ∀ predicate ∈ expression.predicates, Acceptable rfc3339 source predicate)
    (hquotable : ∀ predicate ∈ expression.predicates, ∀ c ∈ predicate.value, isAsciiControl c = false)
    (hlimits : WithinLimits expression) (hdepth : (printedDepth style expression).1 ≤ maxQueryNesting)
    (hbytes : byteLength (print style expression) ≤ maxQueryBytes) :
    ParsedQuery.parse rfc3339 source (print style expression)
      = .ok ⟨source, some expression, normalizedQuery source expression⟩ := by
  have hreads := (reads_printed style fun predicate hpredicate =>
    ⟨(hacceptable predicate hpredicate).nonempty, hquotable predicate hpredicate⟩).1
  have hparses := (parses_printed style hrfc3339 hbranching hacceptable).2
  have htrimmed : trimMatches isWhitespace (print style expression) = print style expression :=
    (trimmed_printed style hbranching).1.trimMatches
  have hscan : scan (print style expression) = .ok (printedTokens style expression).1 := by
    have hwhole := hreads []
    rw [List.append_nil] at hwhole
    rw [print, hwhole]
    show Except.ok ((printedTokens style expression).1 ++ []) = _
    rw [List.append_nil]
  have hroom : Room ⟨(printedTokens style expression).1, 0, 0, 0⟩ [expression] := by
    refine ⟨?_, ?_, ?_⟩
    · simpa using hlimits.predicates
    · simpa using hlimits.nodes
    · simpa using hlimits.orAlternatives
  have hnesting : (printedDepth style expression).1 + 0 ≤ maxQueryNesting := hdepth
  have hrun := hparses (Nat.le_refl _) hnesting hroom (List.append_nil _).symm (.inl rfl)
  refine (parse_eq_ok rfl).mpr ⟨?_, rfl, _, _, ?_, ?_, hrun, rfl⟩
  · rw [htrimmed]
    exact hbytes
  · rw [htrimmed, hscan]
  · intro hempty
    rw [hempty] at hrun
    simp [parseOr, parseAnd, parseConjuncts, endsConjunction, bind, Except.bind] at hrun

/-- Every tree that is read is within the limits, and the counters of the parser are its own. -/
theorem parse_limits {input : Text} {parsed : ParsedQuery} {expression : QueryExpression}
    (h : ParsedQuery.parse rfc3339 source input = .ok parsed)
    (hexpression : parsed.expression = some expression) :
    expression.branching = true ∧ WithinLimits expression
      ∧ (parentheses expression).expression ≤ nestingBound source
      ∧ (∀ predicate ∈ expression.predicates, Readable rfc3339 source predicate)
      ∧ ∃ tokens, tokenize (trimMatches isWhitespace input) = .ok tokens
        ∧ parseOr rfc3339 source (parseDepth tokens) 0 ⟨tokens, 0, 0, 0⟩ = .ok (expression,
          ⟨[], expression.predicateCount, expression.nodeCount, expression.orAlternatives⟩) := by
  obtain ⟨-, -, tokens, after, hscan, hnonempty, hparse, hend⟩ := (parse_eq_ok hexpression).mp h
  obtain ⟨hconsumes, hneeded⟩ := (parserSpec rfc3339 source _).parseOr (Nat.zero_le _) hparse
  have hwithin := hconsumes.within ⟨Nat.zero_le _, Nat.zero_le _, Nat.zero_le _⟩
  have hpredicates : after.predicates = expression.predicateCount := by simpa using hconsumes.predicates
  have hnodes : after.nodes = expression.nodeCount := by simpa using hconsumes.nodes
  have halternatives : after.orAlternatives = expression.orAlternatives := by
    simpa using hconsumes.orAlternatives
  have hmember := List.mem_singleton.mpr (rfl : expression = expression)
  refine ⟨hconsumes.branching _ hmember, ⟨?_, ?_, ?_⟩, hneeded _ hmember,
    hconsumes.readable (scan_words hscan) _ hmember, tokens, ?_, ?_⟩
  · rw [← hpredicates]
    exact hwithin.predicates
  · rw [← hnodes]
    exact hwithin.nodes
  · rw [← halternatives]
    exact hwithin.orAlternatives
  · exact bind_eq_ok.mpr ⟨tokens, hscan, bind_eq_ok.mpr
      ⟨(), failIf_eq_ok.mpr fun h => hnonempty (List.isEmpty_iff.mp h), rfl⟩⟩
  · rw [hparse, ← hpredicates, ← hnodes, ← halternatives, ← hend]

end RoundTrip

/-- An expression that is within the limits is read back from its text, when the text is not too long,
and every tree that is read is within the limits, which the parser counts exactly. -/
theorem query_text_round_trip (rfc3339 : Text → Option Int) (hrfc3339 : ∀ text, rfc3339 ('=' :: text) = none)
    (source : QuerySource) :
    (∀ style expression, Formula.branching expression = true →
        (∀ predicate ∈ expression.predicates,
          Acceptable rfc3339 source predicate ∧ ∀ c ∈ predicate.value, isAsciiControl c = false) →
        WithinLimits expression → (printedDepth style expression).1 ≤ maxQueryNesting →
        byteLength (print style expression) ≤ maxQueryBytes →
        ParsedQuery.parse rfc3339 source (print style expression)
          = .ok ⟨source, some expression, normalizedQuery source expression⟩)
      ∧ ∀ input parsed expression, ParsedQuery.parse rfc3339 source input = .ok parsed →
        parsed.expression = some expression →
        expression.branching = true ∧ WithinLimits expression
          ∧ (parentheses expression).expression ≤ nestingBound source
          ∧ (∀ predicate ∈ expression.predicates, Readable rfc3339 source predicate)
          ∧ ∃ tokens, tokenize (trimMatches isWhitespace input) = .ok tokens
            ∧ parseOr rfc3339 source (parseDepth tokens) 0 ⟨tokens, 0, 0, 0⟩ = .ok (expression,
              ⟨[], expression.predicateCount, expression.nodeCount, expression.orAlternatives⟩) := by
  constructor
  · intro style expression hbranching hpredicates hlimits hdepth hbytes
    exact parse_print hrfc3339 style hbranching (fun predicate hpredicate => (hpredicates predicate hpredicate).1)
      (fun predicate hpredicate => (hpredicates predicate hpredicate).2) hlimits hdepth hbytes
  · intro input parsed expression h hexpression
    exact parse_limits h hexpression

/-- A disjunction of a value with a quotation mark and a negated conjunction. -/
def sampleExpression : QueryExpression :=
  .or [.predicate ⟨.environment, .equal, "a".toList ++ [quote, backslash] ++ " )(".toList⟩,
    .not (.and [.predicate ⟨.level, .equal, "error".toList⟩, .predicate ⟨.timestamp, .greater, "-5".toList⟩])]

theorem query_text_round_trip_sample :
    ParsedQuery.parse (fun _ => none) .errors (print ⟨true, false⟩ sampleExpression)
      = .ok ⟨.errors, some sampleExpression, normalizedQuery .errors sampleExpression⟩ := by
  refine (query_text_round_trip (fun _ => none) (fun _ => rfl) .errors).1 _ _ (by decide) ?_
    ⟨by decide, by decide, by decide⟩ (by decide) (by decide)
  have hpredicates : sampleExpression.predicates = [
      ⟨.environment, .equal, "a".toList ++ [quote, backslash] ++ " )(".toList⟩,
      ⟨.level, .equal, "error".toList⟩, ⟨.timestamp, .greater, "-5".toList⟩] := rfl
  rw [hpredicates]
  simp only [List.forall_mem_cons]
  refine ⟨⟨⟨rfl, nofun, by decide, rfl, nofun, by decide⟩, printable_of_all rfl⟩,
    ⟨⟨rfl, nofun, by decide, rfl, nofun, by decide⟩, printable_of_all rfl⟩,
    ⟨⟨rfl, nofun, by decide, rfl, nofun, by decide⟩, printable_of_all rfl⟩,
    fun _ h => absurd h List.not_mem_nil⟩

/-- A release of the length that a value may have, twice. -/
def longPredicate : QueryPredicate := ⟨.release, .equal, List.replicate maxValueBytes 'a'⟩

def longExpression : QueryExpression := .and [.predicate longPredicate, .predicate longPredicate]

theorem byteLength_replicate (count : Nat) (c : Char) : byteLength (List.replicate count c) = count * c.utf8Size := by
  rw [byteLength, List.map_replicate, List.sum_replicate_nat]

theorem le_byteLength_escaped (value : Text) : byteLength value ≤ byteLength (escaped value) := by
  have hflat : byteLength value
      ≤ byteLength (value.flatMap fun c => if c = quote ∨ c = backslash then [backslash, c] else [c]) := by
    induction value with
    | nil => exact Nat.le_refl _
    | cons c rest ih =>
        rw [List.flatMap_cons, byteLength_append, byteLength_cons]
        refine Nat.add_le_add ?_ ih
        split <;> simp
  rw [escaped, List.cons_append, byteLength_cons, byteLength_append]
  omega

theorem longExpression_acceptable : ∀ predicate ∈ longExpression.predicates,
    Acceptable (fun _ => none) .errors predicate ∧ ∀ c ∈ predicate.value, isAsciiControl c = false := by
  intro predicate hpredicate
  have heq : predicate = longPredicate := by
    have hboth : longExpression.predicates = [longPredicate, longPredicate] := rfl
    rw [hboth] at hpredicate
    simpa using hpredicate
  have hbytes : byteLength longPredicate.value = maxValueBytes := byteLength_replicate _ _
  subst heq
  refine ⟨⟨rfl, ?_, Nat.le_of_eq hbytes, rfl, nofun, ?_⟩, ?_⟩
  · rw [longPredicate, Ne, List.replicate_eq_nil_iff]
    decide
  · have hvalid : ∀ value, validValue (fun _ => none) .errors .release value
        = decide (byteLength value ≤ maxValueBytes) := fun _ => rfl
    rw [longPredicate, hvalid, decide_eq_true_eq]
    exact Nat.le_of_eq hbytes
  · intro c hc
    rw [List.eq_of_mem_replicate hc]
    rfl

theorem longExpression_refused (style : Style) :
    ParsedQuery.parse (fun _ => none) .errors (print style longExpression) = .error .limitExceeded := by
  have htrimmed : trimMatches isWhitespace (print style longExpression) = print style longExpression :=
    (trimmed_printed style rfl).1.trimMatches
  have hvalue : maxValueBytes ≤ byteLength (printPredicate longPredicate) := by
    have hbytes : byteLength longPredicate.value = maxValueBytes := byteLength_replicate _ _
    have hescaped := le_byteLength_escaped (operatorSign longPredicate.operator ++ longPredicate.value)
    rw [byteLength_append] at hescaped
    rw [printPredicate, byteLength_append, byteLength_cons]
    omega
  have hlong : maxQueryBytes < byteLength (print style longExpression) := by
    have htext : print style longExpression
        = printPredicate longPredicate ++ (andText style ++ (printPredicate longPredicate ++ [])) := by
      rw [print, printed, longExpression, written_and]
      rfl
    have hseparator : 0 < byteLength (andText style) := by
      rw [andText]
      split <;> decide
    rw [htext, List.append_nil, byteLength_append, byteLength_append]
    have htwo : maxQueryBytes = maxValueBytes + maxValueBytes := rfl
    omega
  rw [ParsedQuery.parse]
  simp only [htrimmed]
  rw [failIf, if_pos hlong]
  rfl

/-- A conjunction of a disjunction whose alternatives are conjunctions, to a depth. -/
def nestedText : Nat → Text
  | 0 => "level:error".toList
  | depth + 1 =>
      "level:error level:info OR level:error (".toList ++ nestedText depth ++ ")".toList

/-- The query was read, and every print of it is nested deeper than the parser reads. -/
def printsDeeper : Except QueryError ParsedQuery → Bool
  | .ok ⟨_, some expression, _⟩ => [⟨true, true⟩, ⟨true, false⟩, ⟨false, true⟩, ⟨false, false⟩].all fun style =>
      maxQueryNesting < (printedDepth style expression).1
  | _ => false

theorem exists_of_printsDeeper {result : Except QueryError ParsedQuery} (h : printsDeeper result = true) :
    ∃ parsed expression, result = .ok parsed ∧ parsed.expression = some expression
      ∧ ∀ style, maxQueryNesting < (printedDepth style expression).1 := by
  cases result with
  | error error => cases h
  | ok parsed =>
      obtain ⟨source, expression, normalized⟩ := parsed
      cases expression with
      | none => cases h
      | some expression =>
          refine ⟨_, expression, rfl, rfl, ?_⟩
          rintro ⟨explicitAnd, bareNot⟩
          cases explicitAnd <;> cases bareNot <;> simp_all [printsDeeper]

theorem query_text_round_trip_fails :
    (Formula.branching longExpression = true ∧ WithinLimits longExpression
        ∧ (∀ predicate ∈ longExpression.predicates,
          Acceptable (fun _ => none) .errors predicate ∧ ∀ c ∈ predicate.value, isAsciiControl c = false)
        ∧ ∀ style, (printedDepth style longExpression).1 ≤ maxQueryNesting
          ∧ ParsedQuery.parse (fun _ => none) .errors (print style longExpression) = .error .limitExceeded)
      ∧ (operatorAccepted .title .contains = true
        ∧ ∀ style, (ParsedQuery.parse (fun _ => none) .issues
          (print style (.predicate ⟨.title, .contains, ['x']⟩))).map (·.expression.map Formula.predicates)
            = .ok (some [⟨.title, .equal, ['x']⟩]))
      ∧ ∃ parsed expression, ParsedQuery.parse (fun _ => none) .errors (nestedText 9) = .ok parsed
        ∧ parsed.expression = some expression ∧ ∀ style, maxQueryNesting < (printedDepth style expression).1 := by
  refine ⟨⟨rfl, ⟨by decide, by decide, by decide⟩, longExpression_acceptable,
    fun style => ⟨?_, longExpression_refused style⟩⟩, ⟨rfl, ?_⟩, ?_⟩
  · cases style with
    | mk explicitAnd bareNot => cases explicitAnd <;> cases bareNot <;> decide
  · rintro ⟨explicitAnd, bareNot⟩
    cases explicitAnd <;> cases bareNot <;> decide +kernel
  · exact exists_of_printsDeeper (by decide +kernel)

end QueryLanguage

end MetricBackend
