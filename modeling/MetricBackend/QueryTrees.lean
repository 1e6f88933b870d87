import MetricBackend.QueryLanguage

/-! The trees that the query parser builds. What a call of the parser counts is what the trees it returns
have, it takes a token for each of them, and their predicates are those of the source. -/

namespace MetricBackend

namespace QueryLanguage

/-! ### Parentheses -/

/-- The parentheses that a tree needs where an expression, a conjunction and an operand may stand. -/
structure Parentheses where
  expression : Nat
  conjunction : Nat
  operand : Nat

/-- The largest of the numbers. -/
def largest (counts : List Nat) : Nat := counts.foldr max 0

theorem le_largest {counts : List Nat} {count : Nat} (h : count ∈ counts) : count ≤ largest counts := by
  induction counts with
  | nil => exact absurd h List.not_mem_nil
  | cons head counts ih =>
      rw [largest, List.foldr_cons]
      obtain rfl | h := List.mem_cons.mp h
      · exact Nat.le_max_left _ _
      · exact Nat.le_trans (ih h) (Nat.le_max_right _ _)

theorem largest_le {counts : List Nat} {bound : Nat} (h : ∀ count ∈ counts, count ≤ bound) :
    largest counts ≤ bound := by
  induction counts with
  | nil => exact Nat.zero_le _
  | cons head counts ih =>
      rw [List.forall_mem_cons] at h
      rw [largest, List.foldr_cons]
      exact Nat.max_le.mpr ⟨h.1, ih h.2⟩

/-- A conjunction needs parentheses as an operand, a disjunction also as a conjunct. -/
def parentheses : QueryExpression → Parentheses :=
  Formula.fold (fun _ => ⟨0, 0, 0⟩) (fun value => ⟨value.operand, value.operand, value.operand⟩)
    (fun values =>
      let depth := largest (values.map (·.operand))
      ⟨depth, depth, depth + 1⟩)
    fun values =>
      let depth := largest (values.map (·.conjunction))
      ⟨depth, depth + 1, depth + 1⟩

theorem parentheses_not (value : QueryExpression) :
    parentheses (.not value)
      = ⟨(parentheses value).operand, (parentheses value).operand, (parentheses value).operand⟩ := rfl

theorem parentheses_and (values : List QueryExpression) :
    parentheses (.and values)
      = ⟨largest (values.map fun value => (parentheses value).operand),
          largest (values.map fun value => (parentheses value).operand),
          largest (values.map fun value => (parentheses value).operand) + 1⟩ := by
  rw [parentheses, Formula.fold_and, List.map_map]
  rfl

theorem parentheses_or (values : List QueryExpression) :
    parentheses (.or values)
      = ⟨largest (values.map fun value => (parentheses value).conjunction),
          largest (values.map fun value => (parentheses value).conjunction) + 1,
          largest (values.map fun value => (parentheses value).conjunction) + 1⟩ := by
  rw [parentheses, Formula.fold_or, List.map_map]
  rfl

theorem expression_le_conjunction (value : QueryExpression) :
    (parentheses value).expression ≤ (parentheses value).conjunction := by
  cases value with
  | predicate value => exact Nat.le_refl _
  | not value => exact Nat.le_refl _
  | and values =>
      exact Nat.le_of_eq (by rw [parentheses_and])
  | or values =>
      rw [parentheses_or]
      exact Nat.le_succ _

theorem conjunction_le_operand (value : QueryExpression) :
    (parentheses value).conjunction ≤ (parentheses value).operand := by
  cases value with
  | predicate value => exact Nat.le_refl _
  | not value => exact Nat.le_refl _
  | and values =>
      rw [parentheses_and]
      exact Nat.le_succ _
  | or values =>
      exact Nat.le_of_eq (by rw [parentheses_or])

theorem operand_le_succ (value : QueryExpression) :
    (parentheses value).operand ≤ (parentheses value).expression + 1 := by
  cases value with
  | predicate value => exact Nat.zero_le _
  | not value => exact Nat.le_succ _
  | and values =>
      exact Nat.le_of_eq (by rw [parentheses_and])
  | or values =>
      exact Nat.le_of_eq (by rw [parentheses_or])

/-- A bare word of the traces is a disjunction without parentheses of its own. -/
def nestingBound (source : QuerySource) : Nat :=
  if source = .traces then maxQueryNesting + 1 else maxQueryNesting

/-! ### Predicates -/

section Predicates

variable (rfc3339 : Text → Option Int)

/-- `parse_predicate` accepts the comparison of the field with the value. -/
structure Acceptable (source : QuerySource) (predicate : QueryPredicate) : Prop where
  field : fieldAccepted source predicate.field = true
  nonempty : predicate.value ≠ []
  bounded : byteLength predicate.value ≤ maxValueBytes
  operator : operatorAccepted predicate.field predicate.operator = true
  compared : predicate.operator ≠ .contains
  value : validValue rfc3339 source predicate.field predicate.value = true

/-- The predicates that a bare word stands for. -/
def bareTerms (source : QuerySource) (value : Text) : List QueryPredicate :=
  match source with
  | .issues => [⟨.title, .contains, value⟩]
  | .logs => [⟨.message, .contains, value⟩]
  | .traces => [⟨.name, .contains, value⟩, ⟨.operation, .contains, value⟩]
  | .metrics => [⟨.metricName, .contains, value⟩]
  | .replays => [⟨.url, .contains, value⟩]
  | .feedback => [⟨.message, .contains, value⟩]
  | .releases => [⟨.release, .equal, value⟩]
  | .errors => []

/-- A predicate that a text of the source can stand for. -/
def Readable (source : QuerySource) (predicate : QueryPredicate) : Prop :=
  Acceptable rfc3339 source predicate ∨ ∃ value, value ≠ [] ∧ predicate ∈ bareTerms source value

theorem splitOperator_compared (rawValue : Text) : (splitOperator rawValue).1 ≠ .contains := by
  unfold splitOperator
  split <;> nofun

theorem parsePredicate_acceptable {source : QuerySource} {rawField rawValue : Text}
    {predicate : QueryPredicate} (h : parsePredicate rfc3339 source rawField rawValue = .ok predicate) :
    Acceptable rfc3339 source predicate := by
  unfold parsePredicate at h
  cases hfield : resolveField rawField with
  | none =>
      rw [hfield] at h
      cases h
  | some field =>
      rw [hfield] at h
      simp only [bind_eq_ok, failIf_eq_ok, pure_eq_ok, not_not, not_or, Nat.not_lt] at h
      obtain ⟨_, haccepted, _, ⟨hnonempty, hbounded, hoperator⟩, _, hvalid, rfl⟩ := h
      have hcompared := splitOperator_compared rawValue
      rw [validateValue, if_neg hcompared, failIf_eq_ok, not_not] at hvalid
      refine ⟨haccepted, ?_, hbounded, hoperator, hcompared, hvalid⟩
      intro hempty
      exact hnonempty (List.isEmpty_iff.mpr hempty)

end Predicates

/-! ### Runs of the parser -/

/-- The counters are inside their limits. -/
structure Within (parser : Parser) : Prop where
  predicates : parser.predicates ≤ maxQueryPredicates
  nodes : parser.nodes ≤ maxQueryNodes
  orAlternatives : parser.orAlternatives ≤ maxQueryOrAlternatives

/-- A part of a run of the parser, and the trees that it returns: the counters grow by what the trees
have, each tree takes a token, and its predicates are those of the source. -/
structure Consumes (rfc3339 : Text → Option Int) (source : QuerySource) (parser after : Parser)
    (values : List QueryExpression) : Prop where
  predicates : after.predicates = parser.predicates + (values.map Formula.predicateCount).sum
  nodes : after.nodes = parser.nodes + (values.map Formula.nodeCount).sum
  orAlternatives : after.orAlternatives = parser.orAlternatives + (values.map Formula.orAlternatives).sum
  within : Within parser → Within after
  tokens : after.tokens <:+ parser.tokens
  taken : after.tokens.length + values.length ≤ parser.tokens.length
  branching : ∀ value ∈ values, value.branching = true
  readable : (∀ word, Token.bare word ∈ parser.tokens → word ≠ []) →
    ∀ value ∈ values, ∀ predicate ∈ value.predicates, Readable rfc3339 source predicate

section Runs

variable {rfc3339 : Text → Option Int} {source : QuerySource} {parser middle after : Parser}
  {value expression : QueryExpression} {values : List QueryExpression}

theorem Consumes.none : Consumes rfc3339 source parser parser [] where
  predicates := rfl
  nodes := rfl
  orAlternatives := rfl
  within := id
  tokens := List.suffix_refl _
  taken := Nat.le_refl _
  branching := fun _ h => absurd h List.not_mem_nil
  readable := fun _ _ h => absurd h List.not_mem_nil

theorem Consumes.cons (hfirst : Consumes rfc3339 source parser middle [value])
    (hrest : Consumes rfc3339 source middle after values) :
    Consumes rfc3339 source parser after (value :: values) where
  predicates := by
    rw [hrest.predicates, hfirst.predicates]
    simp [Nat.add_assoc]
  nodes := by
    rw [hrest.nodes, hfirst.nodes]
    simp [Nat.add_assoc]
  orAlternatives := by
    rw [hrest.orAlternatives, hfirst.orAlternatives]
    simp [Nat.add_assoc]
  within := hrest.within ∘ hfirst.within
  tokens := hrest.tokens.trans hfirst.tokens
  taken := by
    have hleft := hfirst.taken
    have hright := hrest.taken
    simp only [List.length_cons, List.length_nil] at hleft ⊢
    omega
  branching := by
    refine List.forall_mem_cons.mpr ⟨?_, hrest.branching⟩
    exact hfirst.branching value (List.mem_singleton.mpr rfl)
  readable := by
    intro hwords
    refine List.forall_mem_cons.mpr ⟨?_, ?_⟩
    · exact hfirst.readable hwords value (List.mem_singleton.mpr rfl)
    · exact hrest.readable fun word hword => hwords word (hfirst.tokens.subset hword)

/-- A run that starts after a token is one that starts before it. -/
theorem Consumes.of_tail {token : Token} {tokens : List Token} (htokens : parser.tokens = token :: tokens)
    (h : Consumes rfc3339 source { parser with tokens := tokens } after values) :
    Consumes rfc3339 source parser after values where
  predicates := h.predicates
  nodes := h.nodes
  orAlternatives := h.orAlternatives
  within := fun hwithin => h.within ⟨hwithin.predicates, hwithin.nodes, hwithin.orAlternatives⟩
  tokens := by
    rw [htokens]
    exact h.tokens.trans (List.suffix_cons _ _)
  taken := by
    rw [htokens]
    exact Nat.le_succ_of_le h.taken
  branching := h.branching
  readable := by
    intro hwords
    refine h.readable fun word hword => hwords word ?_
    rw [htokens]
    exact List.mem_cons_of_mem _ hword

/-- A run may skip the token after it. -/
theorem Consumes.skip {token : Token} {tokens : List Token} (h : Consumes rfc3339 source parser after values)
    (htokens : after.tokens = token :: tokens) :
    Consumes rfc3339 source parser { after with tokens := tokens } values where
  predicates := h.predicates
  nodes := h.nodes
  orAlternatives := h.orAlternatives
  within := fun hwithin =>
    ⟨(h.within hwithin).predicates, (h.within hwithin).nodes, (h.within hwithin).orAlternatives⟩
  tokens := by
    have hsuffix := h.tokens
    rw [htokens] at hsuffix
    exact (List.suffix_cons _ _).trans hsuffix
  taken := by
    have htaken := h.taken
    rw [htokens, List.length_cons] at htaken
    show tokens.length + values.length ≤ parser.tokens.length
    omega
  branching := h.branching
  readable := h.readable

theorem node_eq_ok {result : QueryExpression × Parser} :
    parser.node value = .ok result
      ↔ parser.nodes < maxQueryNodes ∧ result = (value, { parser with nodes := parser.nodes + 1 }) := by
  simp only [Parser.node, bind_eq_ok, failIf_eq_ok, pure_eq_ok, Nat.not_lt]
  constructor
  · rintro ⟨_, hnodes, rfl⟩
    exact ⟨hnodes, rfl⟩
  · rintro ⟨hnodes, rfl⟩
    exact ⟨(), hnodes, rfl⟩

/-- Trees become the members of a node, which counts some alternatives. -/
theorem Consumes.node (extra : Nat) (h : Consumes rfc3339 source parser middle values)
    (hpredicates : expression.predicateCount = (values.map Formula.predicateCount).sum)
    (hnodes : expression.nodeCount = (values.map Formula.nodeCount).sum + 1)
    (halternatives : expression.orAlternatives = extra + (values.map Formula.orAlternatives).sum)
    (hnonempty : 0 < values.length) (hbranching : expression.branching = true)
    (hmembers : expression.predicates = (values.map Formula.predicates).flatten)
    (hlimit : middle.orAlternatives ≤ maxQueryOrAlternatives →
      middle.orAlternatives + extra ≤ maxQueryOrAlternatives)
    (hnode : middle.nodes < maxQueryNodes) :
    Consumes rfc3339 source parser
      { middle with nodes := middle.nodes + 1, orAlternatives := middle.orAlternatives + extra }
      [expression] where
  predicates := by
    rw [List.map_singleton, List.sum_singleton, hpredicates]
    exact h.predicates
  nodes := by
    show middle.nodes + 1 = _
    rw [h.nodes, List.map_singleton, List.sum_singleton, hnodes, Nat.add_assoc]
  orAlternatives := by
    show middle.orAlternatives + extra = _
    rw [h.orAlternatives, List.map_singleton, List.sum_singleton, halternatives]
    omega
  within := fun hwithin =>
    ⟨(h.within hwithin).predicates, hnode, hlimit (h.within hwithin).orAlternatives⟩
  tokens := h.tokens
  taken := by
    have htaken := h.taken
    show middle.tokens.length + 1 ≤ parser.tokens.length
    omega
  branching := by
    intro member hmember
    rw [List.mem_singleton.mp hmember]
    exact hbranching
  readable := by
    intro hwords member hmember predicate hpredicate
    rw [List.mem_singleton.mp hmember, hmembers] at hpredicate
    obtain ⟨_, hpredicates, hpredicate⟩ := List.mem_flatten.mp hpredicate
    obtain ⟨value, hvalue, rfl⟩ := List.mem_map.mp hpredicates
    exact h.readable hwords value hvalue predicate hpredicate

theorem Consumes.not (h : Consumes rfc3339 source parser middle [value])
    (hnode : middle.node (.not value) = .ok (expression, after)) :
    expression = .not value ∧ Consumes rfc3339 source parser after [expression] := by
  obtain ⟨hnodes, heq⟩ := node_eq_ok.mp hnode
  obtain ⟨rfl, rfl⟩ := Prod.mk.inj heq
  refine ⟨rfl, h.node 0 ?_ ?_ ?_ ?_ ?_ ?_ id hnodes⟩
  · simp
  · simp
  · simp
  · exact Nat.one_pos
  · exact h.branching value (List.mem_singleton.mpr rfl)
  · simp

theorem Consumes.and (h : Consumes rfc3339 source parser middle values) (hlength : 2 ≤ values.length)
    (hnode : middle.node (.and values) = .ok (expression, after)) :
    expression = .and values ∧ Consumes rfc3339 source parser after [expression] := by
  obtain ⟨hnodes, heq⟩ := node_eq_ok.mp hnode
  obtain ⟨rfl, rfl⟩ := Prod.mk.inj heq
  refine ⟨rfl, h.node 0 ?_ ?_ ?_ ?_ ?_ ?_ id hnodes⟩
  · simp
  · simp
  · simp
  · omega
  · exact (Formula.branching_and values).mpr ⟨hlength, h.branching⟩
  · simp

theorem alternatives_eq_ok {result : QueryExpression × Parser} :
    parser.alternatives values = .ok result
      ↔ parser.orAlternatives + values.length ≤ maxQueryOrAlternatives ∧ parser.nodes < maxQueryNodes
        ∧ result = (.or values, { parser with
            nodes := parser.nodes + 1
            orAlternatives := parser.orAlternatives + values.length }) := by
  simp only [Parser.alternatives, bind_eq_ok, failIf_eq_ok, node_eq_ok, Nat.not_lt]
  constructor
  · rintro ⟨_, hlimit, hnodes, rfl⟩
    exact ⟨hlimit, hnodes, rfl⟩
  · rintro ⟨hlimit, hnodes, rfl⟩
    exact ⟨(), hlimit, hnodes, rfl⟩

theorem Consumes.or (h : Consumes rfc3339 source parser middle values) (hlength : 2 ≤ values.length)
    (hnode : middle.alternatives values = .ok (expression, after)) :
    expression = .or values ∧ Consumes rfc3339 source parser after [expression] := by
  obtain ⟨hlimit, hnodes, heq⟩ := alternatives_eq_ok.mp hnode
  obtain ⟨rfl, rfl⟩ := Prod.mk.inj heq
  refine ⟨rfl, h.node values.length ?_ ?_ ?_ ?_ ?_ ?_ (fun _ => hlimit) hnodes⟩
  · simp
  · simp
  · simp
  · omega
  · exact (Formula.branching_or values).mpr ⟨hlength, h.branching⟩
  · simp

theorem predicate_eq_ok {predicate : QueryPredicate} {result : QueryExpression × Parser} :
    parser.predicate predicate = .ok result
      ↔ parser.predicates < maxQueryPredicates ∧ parser.nodes < maxQueryNodes
        ∧ result = (.predicate predicate, { parser with
            predicates := parser.predicates + 1
            nodes := parser.nodes + 1 }) := by
  simp only [Parser.predicate, bind_eq_ok, failIf_eq_ok, node_eq_ok, Nat.not_lt]
  constructor
  · rintro ⟨_, hlimit, hnodes, rfl⟩
    exact ⟨hlimit, hnodes, rfl⟩
  · rintro ⟨hlimit, hnodes, rfl⟩
    exact ⟨(), hlimit, hnodes, rfl⟩

/-- A token becomes a predicate. -/
theorem consumes_predicate {token : Token} {tokens : List Token} {predicate : QueryPredicate}
    (htokens : parser.tokens = token :: tokens)
    (hreadable : (∀ word, token = .bare word → word ≠ []) → Readable rfc3339 source predicate)
    (h : { parser with tokens := tokens }.predicate predicate = .ok (expression, after)) :
    expression = .predicate predicate ∧ Consumes rfc3339 source parser after [expression] := by
  obtain ⟨hlimit, hnodes, heq⟩ := predicate_eq_ok.mp h
  obtain ⟨rfl, rfl⟩ := Prod.mk.inj heq
  refine ⟨rfl, rfl, rfl, rfl, ?_, ?_, ?_, ?_, ?_⟩
  · exact fun hwithin => ⟨hlimit, hnodes, hwithin.orAlternatives⟩
  · rw [htokens]
    exact List.suffix_cons _ _
  · rw [htokens]
    exact Nat.le_refl _
  · intro member hmember
    rw [List.mem_singleton.mp hmember]
    rfl
  · intro hwords member hmember found hfound
    rw [List.mem_singleton.mp hmember] at hfound
    rw [List.mem_singleton.mp hfound]
    refine hreadable fun word hword => hwords word ?_
    rw [htokens, hword]
    exact List.mem_cons_self

/-- A bare word becomes what the source searches for it. -/
theorem consumes_defaultExpression {word : Text} {tokens : List Token}
    (htokens : parser.tokens = .bare word :: tokens)
    (h : { parser with tokens := tokens }.defaultExpression source word = .ok (expression, after)) :
    Consumes rfc3339 source parser after [expression]
      ∧ (parentheses expression).operand ≤ if source = .traces then 1 else 0 := by
  have hone : ∀ predicate, predicate ∈ bareTerms source word →
      { parser with tokens := tokens }.predicate predicate = .ok (expression, after) →
      Consumes rfc3339 source parser after [expression]
        ∧ (parentheses expression).operand ≤ if source = .traces then 1 else 0 := by
    intro predicate hmember hpredicate
    have hreadable : (∀ term, Token.bare word = .bare term → term ≠ []) →
        Readable rfc3339 source predicate := fun hword => .inr ⟨word, hword word rfl, hmember⟩
    obtain ⟨rfl, hconsumes⟩ := consumes_predicate htokens hreadable hpredicate
    exact ⟨hconsumes, Nat.zero_le _⟩
  cases source with
  | issues => exact hone _ (List.mem_singleton.mpr rfl) h
  | errors => cases h
  | logs => exact hone _ (List.mem_singleton.mpr rfl) h
  | metrics => exact hone _ (List.mem_singleton.mpr rfl) h
  | replays => exact hone _ (List.mem_singleton.mpr rfl) h
  | feedback => exact hone _ (List.mem_singleton.mpr rfl) h
  | releases => exact hone _ (List.mem_singleton.mpr rfl) h
  | traces =>
      simp only [Parser.defaultExpression, bind_eq_ok, predicate_eq_ok, alternatives_eq_ok] at h
      obtain ⟨_, ⟨-, -, rfl⟩, _, ⟨hlimit, -, rfl⟩, halternatives, hnodes, heq⟩ := h
      obtain ⟨rfl, rfl⟩ := Prod.mk.inj heq
      refine ⟨⟨rfl, rfl, rfl, ?_, ?_, ?_, ?_, ?_⟩, Nat.le_refl _⟩
      · exact fun _ => ⟨hlimit, hnodes, halternatives⟩
      · rw [htokens]
        exact List.suffix_cons _ _
      · rw [htokens]
        exact Nat.le_refl _
      · intro member hmember
        rw [List.mem_singleton.mp hmember]
        rfl
      · intro hwords member hmember found hfound
        rw [List.mem_singleton.mp hmember] at hfound
        refine .inr ⟨word, hwords word ?_, hfound⟩
        rw [htokens]
        exact List.mem_cons_self

end Runs

/-- A part of a run inside some parentheses, and the trees that it returns: what they need at their place
fits under the limit. -/
def Parses (rfc3339 : Text → Option Int) (source : QuerySource) (needed : Parentheses → Nat) (nesting : Nat)
    (parser after : Parser) (values : List QueryExpression) : Prop :=
  Consumes rfc3339 source parser after values
    ∧ ∀ value ∈ values, needed (parentheses value) + nesting ≤ nestingBound source

/-- What the functions of the parser return. -/
structure ParserSpec (rfc3339 : Text → Option Int) (source : QuerySource) (depth : Nat) : Prop where
  parseOr : ∀ {nesting parser expression after}, nesting ≤ maxQueryNesting →
    parseOr rfc3339 source depth nesting parser = .ok (expression, after) →
    Parses rfc3339 source (·.expression) nesting parser after [expression]
  parseAlternatives : ∀ {nesting parser values after}, nesting ≤ maxQueryNesting →
    parseAlternatives rfc3339 source depth nesting parser = .ok (values, after) →
    Parses rfc3339 source (·.conjunction) nesting parser after values
  parseAnd : ∀ {nesting parser expression after}, nesting ≤ maxQueryNesting →
    parseAnd rfc3339 source depth nesting parser = .ok (expression, after) →
    Parses rfc3339 source (·.conjunction) nesting parser after [expression]
  parseConjuncts : ∀ {nesting first parser values after}, nesting ≤ maxQueryNesting →
    parseConjuncts rfc3339 source depth nesting first parser = .ok (values, after) →
    Parses rfc3339 source (·.operand) nesting parser after values
  parseUnary : ∀ {nesting parser expression after}, nesting ≤ maxQueryNesting →
    parseUnary rfc3339 source depth nesting parser = .ok (expression, after) →
    Parses rfc3339 source (·.operand) nesting parser after [expression]

section Specification

variable {rfc3339 : Text → Option Int} {source : QuerySource} {depth nesting : Nat}
  {parser middle after : Parser} {expression value : QueryExpression} {values : List QueryExpression}
  {needed : Parentheses → Nat}

theorem Parses.none : Parses rfc3339 source needed nesting parser parser [] :=
  ⟨.none, fun _ h => absurd h List.not_mem_nil⟩

theorem Parses.cons (hfirst : Parses rfc3339 source needed nesting parser middle [value])
    (hrest : Parses rfc3339 source needed nesting middle after values) :
    Parses rfc3339 source needed nesting parser after (value :: values) := by
  refine ⟨hfirst.1.cons hrest.1, List.forall_mem_cons.mpr ⟨?_, hrest.2⟩⟩
  exact hfirst.2 value (List.mem_singleton.mpr rfl)

theorem Parses.of_tail {token : Token} {tokens : List Token} (htokens : parser.tokens = token :: tokens)
    (h : Parses rfc3339 source needed nesting { parser with tokens := tokens } after values) :
    Parses rfc3339 source needed nesting parser after values := ⟨h.1.of_tail htokens, h.2⟩

theorem maxQueryNesting_le_nestingBound (source : QuerySource) : maxQueryNesting ≤ nestingBound source := by
  unfold nestingBound
  split_ifs <;> omega

theorem largest_operands_le (h : Parses rfc3339 source needed nesting parser after values)
    (hnesting : nesting ≤ maxQueryNesting) :
    largest (values.map fun value => needed (parentheses value)) + nesting ≤ nestingBound source := by
  have hbound : largest (values.map fun value => needed (parentheses value)) ≤ nestingBound source - nesting := by
    refine largest_le fun count hcount => ?_
    obtain ⟨value, hvalue, rfl⟩ := List.mem_map.mp hcount
    have := h.2 value hvalue
    omega
  have := maxQueryNesting_le_nestingBound source
  omega

/-- What a conjunct needs is enough for a conjunction, and what that needs for an expression. -/
theorem Parses.weaken {other : Parentheses → Nat}
    (hweaken : ∀ value : QueryExpression, other (parentheses value) ≤ needed (parentheses value))
    (h : Parses rfc3339 source needed nesting parser after values) :
    Parses rfc3339 source other nesting parser after values := by
  refine ⟨h.1, fun value hvalue => ?_⟩
  have := h.2 value hvalue
  have := hweaken value
  omega

theorem parses_singleton :
    Parses rfc3339 source needed nesting parser after [expression]
      ↔ Consumes rfc3339 source parser after [expression]
        ∧ needed (parentheses expression) + nesting ≤ nestingBound source := by
  simp [Parses]

theorem ParserSpec.parseOr_succ (spec : ParserSpec rfc3339 source depth) (hnesting : nesting ≤ maxQueryNesting)
    (h : QueryLanguage.parseOr rfc3339 source (depth + 1) nesting parser = .ok (expression, after)) :
    Parses rfc3339 source (·.expression) nesting parser after [expression] := by
  rw [QueryLanguage.parseOr, bind_eq_ok] at h
  obtain ⟨⟨value, middle⟩, hvalue, h⟩ := h
  obtain ⟨⟨values, last⟩, hvalues, h⟩ := bind_eq_ok.mp h
  have hfirst := spec.parseAnd hnesting hvalue
  have hrest := spec.parseAlternatives hnesting hvalues
  have hall := hfirst.cons hrest
  cases values with
  | nil =>
      obtain ⟨rfl, rfl⟩ := Prod.mk.inj (pure_eq_ok.mp h)
      exact hall.weaken expression_le_conjunction
  | cons second values =>
      have hlength : 2 ≤ (value :: second :: values).length := by
        simp only [List.length_cons]
        omega
      obtain ⟨rfl, hconsumes⟩ := hall.1.or hlength h
      refine parses_singleton.mpr ⟨hconsumes, ?_⟩
      rw [parentheses_or]
      exact largest_operands_le hall hnesting

theorem ParserSpec.parseAlternatives_succ (spec : ParserSpec rfc3339 source depth)
    (hnesting : nesting ≤ maxQueryNesting)
    (h : QueryLanguage.parseAlternatives rfc3339 source (depth + 1) nesting parser = .ok (values, after)) :
    Parses rfc3339 source (·.conjunction) nesting parser after values := by
  rw [QueryLanguage.parseAlternatives] at h
  split at h
  next tokens htokens =>
    obtain ⟨⟨value, middle⟩, hvalue, h⟩ := bind_eq_ok.mp h
    obtain ⟨⟨values, last⟩, hvalues, h⟩ := bind_eq_ok.mp h
    obtain ⟨rfl, rfl⟩ := Prod.mk.inj (pure_eq_ok.mp h)
    have hfirst := (spec.parseAnd hnesting hvalue).of_tail htokens
    exact hfirst.cons (spec.parseAlternatives hnesting hvalues)
  next =>
    obtain ⟨rfl, rfl⟩ := Prod.mk.inj (Except.ok.inj h)
    exact .none

theorem ParserSpec.parseAnd_succ (spec : ParserSpec rfc3339 source depth) (hnesting : nesting ≤ maxQueryNesting)
    (h : QueryLanguage.parseAnd rfc3339 source (depth + 1) nesting parser = .ok (expression, after)) :
    Parses rfc3339 source (·.conjunction) nesting parser after [expression] := by
  rw [QueryLanguage.parseAnd, bind_eq_ok] at h
  obtain ⟨⟨values, middle⟩, hvalues, h⟩ := h
  have hall := spec.parseConjuncts hnesting hvalues
  cases values with
  | nil => cases h
  | cons first values =>
      cases values with
      | nil =>
          obtain ⟨rfl, rfl⟩ := Prod.mk.inj (pure_eq_ok.mp h)
          exact hall.weaken conjunction_le_operand
      | cons second values =>
          have hlength : 2 ≤ (first :: second :: values).length := by
            simp only [List.length_cons]
            omega
          obtain ⟨rfl, hconsumes⟩ := hall.1.and hlength h
          refine parses_singleton.mpr ⟨hconsumes, ?_⟩
          rw [parentheses_and]
          exact largest_operands_le hall hnesting

theorem skipAnd_eq_ok {first : Bool} {tokens rest : List Token} (h : skipAnd first tokens = .ok rest) :
    rest = tokens ∨ tokens = .and :: rest := by
  unfold skipAnd at h
  split at h
  · simp only [bind_eq_ok, pure_eq_ok] at h
    obtain ⟨_, -, rfl⟩ := h
    exact .inr rfl
  · exact .inl (Except.ok.inj h).symm

theorem ParserSpec.parseConjuncts_succ {first : Bool} (spec : ParserSpec rfc3339 source depth)
    (hnesting : nesting ≤ maxQueryNesting)
    (h : QueryLanguage.parseConjuncts rfc3339 source (depth + 1) nesting first parser = .ok (values, after)) :
    Parses rfc3339 source (·.operand) nesting parser after values := by
  rw [QueryLanguage.parseConjuncts] at h
  split_ifs at h with hends
  · obtain ⟨rfl, rfl⟩ := Prod.mk.inj (Except.ok.inj h)
    exact .none
  · obtain ⟨tokens, htokens, h⟩ := bind_eq_ok.mp h
    obtain ⟨⟨value, middle⟩, hvalue, h⟩ := bind_eq_ok.mp h
    obtain ⟨⟨values, last⟩, hvalues, h⟩ := bind_eq_ok.mp h
    obtain ⟨rfl, rfl⟩ := Prod.mk.inj (pure_eq_ok.mp h)
    have hunary := spec.parseUnary hnesting hvalue
    have hfirst : Parses rfc3339 source (·.operand) nesting parser middle [value] := by
      obtain rfl | hand := skipAnd_eq_ok htokens
      · exact hunary
      · exact hunary.of_tail hand
    exact hfirst.cons (spec.parseConjuncts hnesting hvalues)

theorem ParserSpec.parseUnary_succ (spec : ParserSpec rfc3339 source depth)
    (hnesting : nesting ≤ maxQueryNesting)
    (h : QueryLanguage.parseUnary rfc3339 source (depth + 1) nesting parser = .ok (expression, after)) :
    Parses rfc3339 source (·.operand) nesting parser after [expression] := by
  have hbound := maxQueryNesting_le_nestingBound source
  rw [QueryLanguage.parseUnary] at h
  split at h
  next tokens htokens =>
    obtain ⟨⟨value, middle⟩, hvalue, h⟩ := bind_eq_ok.mp h
    have hunary := (spec.parseUnary hnesting hvalue).of_tail htokens
    obtain ⟨rfl, hconsumes⟩ := hunary.1.not h
    refine parses_singleton.mpr ⟨hconsumes, ?_⟩
    rw [parentheses_not]
    exact hunary.2 value (List.mem_singleton.mpr rfl)
  next tokens htokens =>
    simp only [bind_eq_ok, failIf_eq_ok, Nat.not_le] at h
    obtain ⟨_, hdeeper, ⟨value, middle⟩, hvalue, h⟩ := h
    have hinner := (spec.parseOr hdeeper hvalue).of_tail htokens
    split at h
    next rest hrest =>
      obtain ⟨rfl, rfl⟩ := Prod.mk.inj (pure_eq_ok.mp h)
      refine parses_singleton.mpr ⟨hinner.1.skip hrest, ?_⟩
      have hneeded : (parentheses value).expression + (nesting + 1) ≤ nestingBound source :=
        hinner.2 value (List.mem_singleton.mpr rfl)
      have := operand_le_succ value
      show (parentheses value).operand + nesting ≤ _
      omega
    next => cases h
  next field value tokens htokens =>
    obtain ⟨predicate, hpredicate, h⟩ := bind_eq_ok.mp h
    have hreadable := parsePredicate_acceptable rfc3339 hpredicate
    obtain ⟨rfl, hconsumes⟩ := consumes_predicate htokens (fun _ => .inl hreadable) h
    refine parses_singleton.mpr ⟨hconsumes, ?_⟩
    show 0 + nesting ≤ _
    omega
  next word tokens htokens =>
    obtain ⟨hconsumes, hneeded⟩ := consumes_defaultExpression htokens h
    refine parses_singleton.mpr ⟨hconsumes, ?_⟩
    unfold nestingBound
    split_ifs at hneeded ⊢ <;> omega
  next => cases h

theorem parserSpec (rfc3339 : Text → Option Int) (source : QuerySource) (depth : Nat) :
    ParserSpec rfc3339 source depth := by
  induction depth with
  | zero =>
      refine ⟨?_, ?_, ?_, ?_, ?_⟩
      all_goals
        intros
        rename_i h
        simp only [parseOr, parseAlternatives, parseAnd, parseConjuncts, parseUnary, reduceCtorEq] at h
  | succ depth spec =>
      exact ⟨spec.parseOr_succ, spec.parseAlternatives_succ, spec.parseAnd_succ, spec.parseConjuncts_succ,
        spec.parseUnary_succ⟩

end Specification

/-! ### Depth

Four units of depth for each token are enough: more change nothing. -/

structure Settled (rfc3339 : Text → Option Int) (source : QuerySource) (depth : Nat) : Prop where
  parseOr : ∀ {nesting parser}, nesting ≤ maxQueryNesting → 4 * parser.tokens.length + 4 ≤ depth →
    parseOr rfc3339 source (depth + 1) nesting parser = parseOr rfc3339 source depth nesting parser
  parseAlternatives : ∀ {nesting parser}, nesting ≤ maxQueryNesting → 4 * parser.tokens.length + 1 ≤ depth →
    parseAlternatives rfc3339 source (depth + 1) nesting parser
      = parseAlternatives rfc3339 source depth nesting parser
  parseAnd : ∀ {nesting parser}, nesting ≤ maxQueryNesting → 4 * parser.tokens.length + 3 ≤ depth →
    parseAnd rfc3339 source (depth + 1) nesting parser = parseAnd rfc3339 source depth nesting parser
  parseConjuncts : ∀ {nesting first parser}, nesting ≤ maxQueryNesting →
    4 * parser.tokens.length + 2 ≤ depth →
    parseConjuncts rfc3339 source (depth + 1) nesting first parser
      = parseConjuncts rfc3339 source depth nesting first parser
  parseUnary : ∀ {nesting parser}, nesting ≤ maxQueryNesting → 4 * parser.tokens.length + 1 ≤ depth →
    parseUnary rfc3339 source (depth + 1) nesting parser = parseUnary rfc3339 source depth nesting parser

section Depth

variable {rfc3339 : Text → Option Int} {source : QuerySource} {depth nesting : Nat} {parser : Parser}

theorem Settled.parseOr_succ (settled : Settled rfc3339 source depth) (hnesting : nesting ≤ maxQueryNesting)
    (hdepth : 4 * parser.tokens.length + 4 ≤ depth + 1) :
    QueryLanguage.parseOr rfc3339 source (depth + 2) nesting parser
      = QueryLanguage.parseOr rfc3339 source (depth + 1) nesting parser := by
  rw [QueryLanguage.parseOr, QueryLanguage.parseOr, settled.parseAnd hnesting (by omega)]
  refine bind_congr_ok fun parsed hvalue => ?_
  obtain ⟨value, middle⟩ := parsed
  have hshorter := ((parserSpec rfc3339 source depth).parseAnd hnesting hvalue).1.tokens.length_le
  dsimp only
  rw [settled.parseAlternatives hnesting (by omega)]

theorem Settled.parseAlternatives_succ (settled : Settled rfc3339 source depth)
    (hnesting : nesting ≤ maxQueryNesting) (hdepth : 4 * parser.tokens.length + 1 ≤ depth + 1) :
    QueryLanguage.parseAlternatives rfc3339 source (depth + 2) nesting parser
      = QueryLanguage.parseAlternatives rfc3339 source (depth + 1) nesting parser := by
  rw [QueryLanguage.parseAlternatives, QueryLanguage.parseAlternatives]
  split
  next tokens htokens =>
    rw [htokens, List.length_cons] at hdepth
    rw [settled.parseAnd hnesting (by show 4 * tokens.length + 3 ≤ depth; omega)]
    refine bind_congr_ok fun parsed hvalue => ?_
    obtain ⟨value, middle⟩ := parsed
    have hshorter := ((parserSpec rfc3339 source depth).parseAnd hnesting hvalue).1.tokens.length_le
    dsimp only at hshorter ⊢
    rw [settled.parseAlternatives hnesting (by omega)]
  next => rfl

theorem Settled.parseAnd_succ (settled : Settled rfc3339 source depth) (hnesting : nesting ≤ maxQueryNesting)
    (hdepth : 4 * parser.tokens.length + 3 ≤ depth + 1) :
    QueryLanguage.parseAnd rfc3339 source (depth + 2) nesting parser
      = QueryLanguage.parseAnd rfc3339 source (depth + 1) nesting parser := by
  rw [QueryLanguage.parseAnd, QueryLanguage.parseAnd, settled.parseConjuncts hnesting (by omega)]

theorem Settled.parseConjuncts_succ {first : Bool} (settled : Settled rfc3339 source depth)
    (hnesting : nesting ≤ maxQueryNesting) (hdepth : 4 * parser.tokens.length + 2 ≤ depth + 1) :
    QueryLanguage.parseConjuncts rfc3339 source (depth + 2) nesting first parser
      = QueryLanguage.parseConjuncts rfc3339 source (depth + 1) nesting first parser := by
  rw [QueryLanguage.parseConjuncts, QueryLanguage.parseConjuncts]
  split_ifs with hends
  · rfl
  · refine bind_congr_ok fun tokens htokens => ?_
    have hlength : tokens.length ≤ parser.tokens.length := by
      obtain rfl | hand := skipAnd_eq_ok htokens
      · exact Nat.le_refl _
      · rw [hand]
        exact Nat.le_succ _
    rw [settled.parseUnary hnesting (by show 4 * tokens.length + 1 ≤ depth; omega)]
    refine bind_congr_ok fun parsed hvalue => ?_
    obtain ⟨value, middle⟩ := parsed
    have htaken := ((parserSpec rfc3339 source depth).parseUnary hnesting hvalue).1.taken
    dsimp only [List.length_singleton] at htaken ⊢
    rw [settled.parseConjuncts hnesting (by omega)]

theorem Settled.parseUnary_succ (settled : Settled rfc3339 source depth)
    (hnesting : nesting ≤ maxQueryNesting) (hdepth : 4 * parser.tokens.length + 1 ≤ depth + 1) :
    QueryLanguage.parseUnary rfc3339 source (depth + 2) nesting parser
      = QueryLanguage.parseUnary rfc3339 source (depth + 1) nesting parser := by
  rw [QueryLanguage.parseUnary, QueryLanguage.parseUnary]
  split
  next tokens htokens =>
    rw [htokens, List.length_cons] at hdepth
    rw [settled.parseUnary hnesting (by show 4 * tokens.length + 1 ≤ depth; omega)]
  next tokens htokens =>
    rw [htokens, List.length_cons] at hdepth
    refine bind_congr_ok fun _ hdeeper => ?_
    have hdeeper := Nat.not_le.mp (failIf_eq_ok.mp hdeeper)
    rw [settled.parseOr hdeeper (by show 4 * tokens.length + 4 ≤ depth; omega)]
  next => rfl
  next => rfl
  next => rfl

theorem settled (rfc3339 : Text → Option Int) (source : QuerySource) (depth : Nat) :
    Settled rfc3339 source depth := by
  induction depth with
  | zero =>
      refine ⟨?_, ?_, ?_, ?_, ?_⟩
      all_goals
        intros
        omega
  | succ depth settled =>
      exact ⟨settled.parseOr_succ, settled.parseAlternatives_succ, settled.parseAnd_succ,
        settled.parseConjuncts_succ, settled.parseUnary_succ⟩

theorem parseOr_parseDepth_add (hnesting : nesting ≤ maxQueryNesting) (extra : Nat) :
    parseOr rfc3339 source (parseDepth parser.tokens + extra) nesting parser
      = parseOr rfc3339 source (parseDepth parser.tokens) nesting parser := by
  induction extra with
  | zero => rfl
  | succ extra ih =>
      have hdepth : 4 * parser.tokens.length + 4 ≤ parseDepth parser.tokens + extra := Nat.le_add_right _ _
      rw [← Nat.add_assoc, (settled rfc3339 source _).parseOr hnesting hdepth, ih]

/-- The parser of the source has no bound on its depth: `parse` answers as a parser of any greater depth does. -/
theorem parse_eq_of_le (input : Text) {depth : List Token → Nat} (hdepth : ∀ tokens, parseDepth tokens ≤ depth tokens) :
    ParsedQuery.parse rfc3339 source input = (do
      let input := trimMatches isWhitespace input
      failIf (maxQueryBytes < byteLength input) .limitExceeded
      if input.isEmpty then
        return ⟨source, none, "v2|".toList ++ source.asStr ++ "|all".toList⟩
      let tokens ← tokenize input
      let (expression, parser) ← parseOr rfc3339 source (depth tokens) 0 ⟨tokens, 0, 0, 0⟩
      failIf (¬ parser.tokens.isEmpty) .syntaxError
      return ⟨source, some expression, "v2|".toList ++ source.asStr ++ '|' :: normalizedExpression expression⟩) := by
  have hsame : ∀ tokens, parseOr rfc3339 source (depth tokens) 0 ⟨tokens, 0, 0, 0⟩
      = parseOr rfc3339 source (parseDepth tokens) 0 ⟨tokens, 0, 0, 0⟩ := by
    intro tokens
    rw [← Nat.add_sub_cancel' (hdepth tokens)]
    exact @parseOr_parseDepth_add rfc3339 source 0 ⟨tokens, 0, 0, 0⟩ (Nat.zero_le _) _
  simp only [hsame]
  rfl

end Depth

end QueryLanguage

end MetricBackend
