import MetricBackend.QueryPrinting
import MetricBackend.QueryTrees

/-! How deep the calls of the query parser nest: parentheses are counted, but a `!` calls `parse_unary` again without
being counted, and its node is charged when the call has returned. -/

namespace MetricBackend

namespace QueryLanguage

section Calls

variable (rfc3339 : Text → Option Int) (source : QuerySource)

mutual

/-- The calls of `parse_or`, `parse_and` and `parse_unary` that are nested in a run of each function or loop, with the
call itself; the units of `depth` are those of the parser. -/
def orCalls : ℕ → ℕ → Parser → ℕ
  | 0, _, _ => 0
  | depth + 1, nesting, parser =>
      1 + max (andCalls depth nesting parser)
        (match parseAnd rfc3339 source depth nesting parser with
        | .ok (_, parser) => alternativesCalls depth nesting parser
        | .error _ => 0)

/-- The calls in the loop of `parse_or`. -/
def alternativesCalls : ℕ → ℕ → Parser → ℕ
  | 0, _, _ => 0
  | depth + 1, nesting, parser =>
      match parser.tokens with
      | .or :: tokens =>
          max (andCalls depth nesting { parser with tokens := tokens })
            (match parseAnd rfc3339 source depth nesting { parser with tokens := tokens } with
            | .ok (_, parser) => alternativesCalls depth nesting parser
            | .error _ => 0)
      | _ => 0

def andCalls : ℕ → ℕ → Parser → ℕ
  | 0, _, _ => 0
  | depth + 1, nesting, parser => 1 + conjunctsCalls depth nesting true parser

/-- The calls in the loop of `parse_and`. -/
def conjunctsCalls : ℕ → ℕ → Bool → Parser → ℕ
  | 0, _, _, _ => 0
  | depth + 1, nesting, first, parser =>
      if endsConjunction parser.tokens then 0
      else
        match skipAnd first parser.tokens with
        | .ok tokens =>
            max (unaryCalls depth nesting { parser with tokens := tokens })
              (match parseUnary rfc3339 source depth nesting { parser with tokens := tokens } with
              | .ok (_, parser) => conjunctsCalls depth nesting false parser
              | .error _ => 0)
        | .error _ => 0

def unaryCalls : ℕ → ℕ → Parser → ℕ
  | 0, _, _ => 0
  | depth + 1, nesting, parser =>
      1 + match parser.tokens with
        | .bang :: tokens => unaryCalls depth nesting { parser with tokens := tokens }
        | .left :: tokens =>
            if maxQueryNesting ≤ nesting then 0 else orCalls depth (nesting + 1) { parser with tokens := tokens }
        | _ => 0

end

/-- The depth of the nested calls during `ParsedQuery::parse`, with units of depth to spare. -/
def callDepth (spare : ℕ) (input : Text) : ℕ :=
  let input := trimMatches isWhitespace input
  if maxQueryBytes < byteLength input ∨ input.isEmpty then 0
  else
    match tokenize input with
    | .ok tokens => orCalls rfc3339 source (parseDepth tokens + spare) 0 ⟨tokens, 0, 0, 0⟩
    | .error _ => 0

end Calls

variable {rfc3339 : Text → Option Int} {source : QuerySource} {depth nesting limit : ℕ} {parser : Parser}

/-! ### The bound -/

/-- No more than so many `!` follow each other. -/
def BangRuns (limit : ℕ) (tokens : List Token) : Prop := ∀ count, List.replicate count .bang <:+: tokens → count ≤ limit

theorem BangRuns.of_infix {tokens others : List Token} (h : BangRuns limit tokens) (hpart : others <:+: tokens) :
    BangRuns limit others := fun count hcount => h count (hcount.trans hpart)

/-- The `!` at the start of the tokens. -/
def leadingBangs (tokens : List Token) : ℕ := (tokens.takeWhile (· = .bang)).length

theorem leadingBangs_le {tokens : List Token} (h : BangRuns limit tokens) : leadingBangs tokens ≤ limit := by
  have hreplicate : tokens.takeWhile (· = .bang) = List.replicate (leadingBangs tokens) .bang :=
    List.eq_replicate_of_mem fun token htoken => of_decide_eq_true (List.all_eq_true.mp List.all_takeWhile token htoken)
  exact h _ (hreplicate ▸ (List.takeWhile_prefix _).isInfix)

/-- What is below the calls of one level, where every parenthesis is `limit` `!` deep. -/
def deeper (limit nesting : ℕ) : ℕ := (limit + 3) * (maxQueryNesting - nesting)

theorem deeper_succ (h : nesting < maxQueryNesting) :
    limit + 3 + deeper limit (nesting + 1) = deeper limit nesting := by
  have hcount : maxQueryNesting - nesting = maxQueryNesting - (nesting + 1) + 1 := by omega
  rw [deeper, deeper, hcount, Nat.mul_succ, Nat.add_comm]

/-- Where no more than `limit` `!` follow each other. -/
structure CallBounds (rfc3339 : Text → Option Int) (source : QuerySource) (limit depth : ℕ) : Prop where
  or : ∀ {nesting parser}, nesting ≤ maxQueryNesting → BangRuns limit parser.tokens →
    orCalls rfc3339 source depth nesting parser ≤ limit + 3 + deeper limit nesting
  alternatives : ∀ {nesting parser}, nesting ≤ maxQueryNesting → BangRuns limit parser.tokens →
    alternativesCalls rfc3339 source depth nesting parser ≤ limit + 2 + deeper limit nesting
  and : ∀ {nesting parser}, nesting ≤ maxQueryNesting → BangRuns limit parser.tokens →
    andCalls rfc3339 source depth nesting parser ≤ limit + 2 + deeper limit nesting
  conjuncts : ∀ {nesting first parser}, nesting ≤ maxQueryNesting → BangRuns limit parser.tokens →
    conjunctsCalls rfc3339 source depth nesting first parser ≤ limit + 1 + deeper limit nesting
  unary : ∀ {nesting parser}, nesting ≤ maxQueryNesting → BangRuns limit parser.tokens →
    unaryCalls rfc3339 source depth nesting parser ≤ leadingBangs parser.tokens + 1 + deeper limit nesting

theorem CallBounds.or_succ (bounds : CallBounds rfc3339 source limit depth) (hnesting : nesting ≤ maxQueryNesting)
    (hruns : BangRuns limit parser.tokens) :
    orCalls rfc3339 source (depth + 1) nesting parser ≤ limit + 3 + deeper limit nesting := by
  have hand := bounds.and hnesting hruns
  rw [orCalls]
  cases hparse : parseAnd rfc3339 source depth nesting parser with
  | error error =>
      dsimp only
      omega
  | ok result =>
      have hsuffix := ((parserSpec rfc3339 source depth).parseAnd hnesting hparse).1.tokens
      have hrest := bounds.alternatives hnesting (hruns.of_infix hsuffix.isInfix)
      dsimp only
      omega

theorem CallBounds.alternatives_succ (bounds : CallBounds rfc3339 source limit depth)
    (hnesting : nesting ≤ maxQueryNesting) (hruns : BangRuns limit parser.tokens) :
    alternativesCalls rfc3339 source (depth + 1) nesting parser ≤ limit + 2 + deeper limit nesting := by
  rw [alternativesCalls]
  split
  next tokens htokens =>
    have htail : BangRuns limit tokens := hruns.of_infix (by rw [htokens]; exact (List.suffix_cons _ _).isInfix)
    have hand := @CallBounds.and _ _ _ _ bounds nesting { parser with tokens := tokens } hnesting htail
    cases hparse : parseAnd rfc3339 source depth nesting { parser with tokens := tokens } with
    | error error =>
        dsimp only
        omega
    | ok result =>
        have hsuffix := ((parserSpec rfc3339 source depth).parseAnd hnesting hparse).1.tokens
        have hrest := bounds.alternatives hnesting (htail.of_infix hsuffix.isInfix)
        dsimp only
        omega
  next => exact Nat.zero_le _

theorem CallBounds.and_succ (bounds : CallBounds rfc3339 source limit depth) (hnesting : nesting ≤ maxQueryNesting)
    (hruns : BangRuns limit parser.tokens) :
    andCalls rfc3339 source (depth + 1) nesting parser ≤ limit + 2 + deeper limit nesting := by
  have hconjuncts := @CallBounds.conjuncts _ _ _ _ bounds nesting true parser hnesting hruns
  rw [andCalls]
  omega

theorem CallBounds.conjuncts_succ {first : Bool} (bounds : CallBounds rfc3339 source limit depth)
    (hnesting : nesting ≤ maxQueryNesting) (hruns : BangRuns limit parser.tokens) :
    conjunctsCalls rfc3339 source (depth + 1) nesting first parser ≤ limit + 1 + deeper limit nesting := by
  rw [conjunctsCalls]
  split_ifs with hends
  · exact Nat.zero_le _
  · cases hskip : skipAnd first parser.tokens with
    | error error => exact Nat.zero_le _
    | ok tokens =>
        have htail : BangRuns limit tokens := by
          obtain rfl | hand := skipAnd_eq_ok hskip
          · exact hruns
          · exact hruns.of_infix (by rw [hand]; exact (List.suffix_cons _ _).isInfix)
        have hunary := @CallBounds.unary _ _ _ _ bounds nesting { parser with tokens := tokens } hnesting htail
        have hleading := leadingBangs_le htail
        dsimp only at hunary ⊢
        cases hparse : parseUnary rfc3339 source depth nesting { parser with tokens := tokens } with
        | error error =>
            dsimp only
            omega
        | ok result =>
            have hsuffix := ((parserSpec rfc3339 source depth).parseUnary hnesting hparse).1.tokens
            have hrest := @CallBounds.conjuncts _ _ _ _ bounds nesting false result.2 hnesting
              (htail.of_infix hsuffix.isInfix)
            dsimp only
            omega

theorem CallBounds.unary_succ (bounds : CallBounds rfc3339 source limit depth) (hnesting : nesting ≤ maxQueryNesting)
    (hruns : BangRuns limit parser.tokens) :
    unaryCalls rfc3339 source (depth + 1) nesting parser ≤ leadingBangs parser.tokens + 1 + deeper limit nesting := by
  rw [unaryCalls]
  split
  next tokens htokens =>
    have htail : BangRuns limit tokens := hruns.of_infix (by rw [htokens]; exact (List.suffix_cons _ _).isInfix)
    have hunary := @CallBounds.unary _ _ _ _ bounds nesting { parser with tokens := tokens } hnesting htail
    have hleading : leadingBangs parser.tokens = leadingBangs tokens + 1 := by
      rw [htokens, leadingBangs, List.takeWhile_cons_of_pos (by simp), List.length_cons, leadingBangs]
    dsimp only at hunary
    omega
  next tokens htokens =>
    split_ifs with hfull
    · omega
    · have htail : BangRuns limit tokens := hruns.of_infix (by rw [htokens]; exact (List.suffix_cons _ _).isInfix)
      have hor := @CallBounds.or _ _ _ _ bounds (nesting + 1) { parser with tokens := tokens } (by omega) htail
      rw [deeper_succ (Nat.not_le.mp hfull)] at hor
      omega
  next => omega

theorem callBounds (rfc3339 : Text → Option Int) (source : QuerySource) (limit depth : ℕ) :
    CallBounds rfc3339 source limit depth := by
  induction depth with
  | zero =>
      refine ⟨?_, ?_, ?_, ?_, ?_⟩
      all_goals
        intros
        simp only [orCalls, alternativesCalls, andCalls, conjunctsCalls, unaryCalls, Nat.zero_le]
  | succ depth bounds =>
      exact ⟨bounds.or_succ, bounds.alternatives_succ, bounds.and_succ, bounds.conjuncts_succ, bounds.unary_succ⟩

/-- The tokens of a query have no more than so many `!` after each other. -/
def LimitedBangs (limit : ℕ) (input : Text) : Prop :=
  ∀ tokens, tokenize (trimMatches isWhitespace input) = .ok tokens → BangRuns limit tokens

theorem callDepth_le (spare : ℕ) {input : Text} (h : LimitedBangs limit input) :
    callDepth rfc3339 source spare input ≤ (limit + 3) * (maxQueryNesting + 1) := by
  rw [callDepth]
  split_ifs
  · exact Nat.zero_le _
  · cases htokens : tokenize (trimMatches isWhitespace input) with
    | error error => exact Nat.zero_le _
    | ok tokens =>
        have hor := @CallBounds.or _ _ _ _ (callBounds rfc3339 source limit (parseDepth tokens + spare)) 0
          ⟨tokens, 0, 0, 0⟩ (Nat.zero_le _) (h tokens htokens)
        rw [deeper, Nat.sub_zero] at hor
        rw [Nat.mul_succ, Nat.add_comm]
        exact hor

/-! ### Queries that reach it -/

/-- `level:"error"` behind `count` `!`, `levels` times in parentheses behind as many. -/
def bangText (count : ℕ) : ℕ → Text
  | 0 => List.replicate count '!' ++ (QueryField.level.asStr ++ ':' :: escaped "error".toList)
  | levels + 1 => List.replicate count '!' ++ ('(' :: bangText count levels ++ [')'])

def bangTokens (count : ℕ) : ℕ → List Token
  | 0 => List.replicate count .bang ++ [.predicate QueryField.level.asStr "error".toList]
  | levels + 1 => List.replicate count .bang ++ (.left :: bangTokens count levels ++ [.right])

theorem Reads.bangs {text : Text} {tokens : List Token} (h : Reads text tokens) (count : ℕ) :
    Reads (List.replicate count '!' ++ text) (List.replicate count .bang ++ tokens) := by
  induction count with
  | zero => exact h
  | succ count ih => exact reads_bang.append ih

theorem reads_bangText (count levels : ℕ) : Reads (bangText count levels) (bangTokens count levels) := by
  induction levels with
  | zero =>
      have hnamed := @reads_named QueryField.level.asStr "error".toList (fieldName_spec .level) (by decide)
        (printable_of_all rfl)
      exact hnamed.bangs count
  | succ levels ih => exact ih.parenthesized.bangs count

theorem Trimmed.bangs {text : Text} (h : Trimmed text) (count : ℕ) : Trimmed (List.replicate count '!' ++ text) := by
  induction count with
  | zero => exact h
  | succ count ih => exact ih.cons rfl

theorem trimmed_bangText (count levels : ℕ) : Trimmed (bangText count levels) := by
  cases levels with
  | zero =>
      have htext : Trimmed (QueryField.level.asStr ++ ':' :: escaped "error".toList) :=
        ⟨⟨'l', _, rfl, rfl⟩, ⟨"level:\"error".toList, quote, rfl, rfl⟩⟩
      exact htext.bangs count
  | succ levels => exact (Trimmed.parenthesized _).bangs count

theorem byteLength_bangText (count levels : ℕ) :
    byteLength (bangText count levels) = (count + 2) * levels + count + 13 := by
  have hbangs : byteLength (List.replicate count '!') = count := by
    induction count with
    | zero => rfl
    | succ count ih =>
        rw [List.replicate_succ, byteLength_cons, ih]
        exact Nat.add_comm 1 count
  induction levels with
  | zero =>
      rw [bangText, byteLength_append, hbangs, Nat.mul_zero, Nat.zero_add]
      rfl
  | succ levels ih =>
      have hparentheses : byteLength ('(' :: bangText count levels ++ [')']) = byteLength (bangText count levels) + 2 := by
        rw [byteLength_append, byteLength_cons]
        show 1 + byteLength (bangText count levels) + 1 = _
        omega
      rw [bangText, byteLength_append, hbangs, hparentheses, ih, Nat.mul_succ]
      omega

theorem opensOperand_bangTokens (count levels : ℕ) (rest : List Token) :
    opensOperand (bangTokens count levels ++ rest) = true := by
  cases count <;> cases levels <;> rfl

theorem unaryCalls_bangs (count : ℕ) {tokens : List Token} (htokens : parser.tokens = List.replicate count .bang ++ tokens) :
    unaryCalls rfc3339 source (depth + count) nesting parser
      = count + unaryCalls rfc3339 source depth nesting { parser with tokens := tokens } := by
  induction count generalizing parser with
  | zero =>
      have hparser : { parser with tokens := tokens } = parser := by
        cases parser
        rw [Parser.mk.injEq]
        exact ⟨htokens.symm, rfl, rfl, rfl⟩
      rw [hparser, Nat.zero_add]
      rfl
  | succ count ih =>
      rw [List.replicate_succ, List.cons_append] at htokens
      rw [← Nat.add_assoc, unaryCalls, htokens]
      dsimp only
      rw [@ih { parser with tokens := List.replicate count .bang ++ tokens } rfl]
      dsimp only
      omega

/-- The calls down to the first operand. -/
theorem le_orCalls (hopens : opensOperand parser.tokens = true) :
    2 + unaryCalls rfc3339 source depth nesting parser ≤ orCalls rfc3339 source (depth + 3) nesting parser := by
  have hconjuncts : unaryCalls rfc3339 source depth nesting parser
      ≤ conjunctsCalls rfc3339 source (depth + 1) nesting true parser := by
    rw [conjunctsCalls, if_neg (by rw [endsConjunction_of_opensOperand hopens]; exact Bool.false_ne_true),
      skipAnd_operand hopens]
    exact Nat.le_max_left _ _
  have hand : andCalls rfc3339 source (depth + 2) nesting parser
      = 1 + conjunctsCalls rfc3339 source (depth + 1) nesting true parser := by rw [andCalls]
  rw [orCalls]
  omega

theorem le_orCalls_bangTokens (count levels : ℕ) {rest : List Token} (hnesting : nesting + levels ≤ maxQueryNesting)
    (hdepth : (count + 4) * (levels + 1) ≤ depth) (htokens : parser.tokens = bangTokens count levels ++ rest) :
    (count + 3) * (levels + 1) ≤ orCalls rfc3339 source depth nesting parser := by
  induction levels generalizing nesting depth parser rest with
  | zero =>
      obtain ⟨fewer, rfl⟩ : ∃ fewer, depth = fewer + 1 + count + 3 := ⟨depth - (count + 4), by omega⟩
      have hopens : opensOperand parser.tokens = true := by
        rw [htokens]
        exact opensOperand_bangTokens count 0 rest
      have hor := @le_orCalls rfc3339 source (fewer + 1 + count) nesting parser hopens
      rw [bangTokens, List.append_assoc] at htokens
      rw [unaryCalls_bangs count htokens, unaryCalls] at hor
      omega
  | succ levels ih =>
      have hlevels : (count + 4) * (levels + 1 + 1) = (count + 4) * (levels + 1) + (count + 4) := Nat.mul_succ _ _
      obtain ⟨fewer, rfl⟩ : ∃ fewer, depth = fewer + 1 + count + 3 := ⟨depth - (count + 4), by omega⟩
      have hopens : opensOperand parser.tokens = true := by
        rw [htokens]
        exact opensOperand_bangTokens count (levels + 1) rest
      have hor := @le_orCalls rfc3339 source (fewer + 1 + count) nesting parser hopens
      rw [bangTokens, List.append_assoc] at htokens
      rw [unaryCalls_bangs count htokens, unaryCalls] at hor
      dsimp only [List.cons_append] at hor
      rw [if_neg (by omega)] at hor
      have hinner := @ih fewer (nesting + 1) { parser with tokens := bangTokens count levels ++ [.right] ++ rest }
        ([.right] ++ rest) (by omega) (by omega) (List.append_assoc _ _ _)
      rw [Nat.mul_succ]
      omega

theorem length_bangTokens (count levels : ℕ) : (bangTokens count levels).length = (count + 2) * levels + count + 1 := by
  induction levels with
  | zero => simp [bangTokens]
  | succ levels ih =>
      rw [bangTokens, List.length_append, List.length_replicate, List.length_append, List.length_cons, ih,
        List.length_singleton, Nat.mul_succ]
      omega

theorem tokenize_bangText (count levels : ℕ) :
    tokenize (trimMatches isWhitespace (bangText count levels)) = .ok (bangTokens count levels) := by
  have hscan : scan (bangText count levels) = .ok (bangTokens count levels) := by
    have hreads := reads_bangText count levels []
    rw [List.append_nil] at hreads
    rw [hreads]
    show Except.ok (bangTokens count levels ++ []) = _
    rw [List.append_nil]
  have hnonempty : ¬ (bangTokens count levels).isEmpty = true := by
    intro hempty
    have hlength := length_bangTokens count levels
    rw [List.isEmpty_iff.mp hempty, List.length_nil] at hlength
    omega
  rw [(trimmed_bangText count levels).trimMatches]
  exact bind_eq_ok.mpr ⟨_, hscan, bind_eq_ok.mpr ⟨(), failIf_eq_ok.mpr hnonempty, rfl⟩⟩

/-- Every level of parentheses adds its `!` to the depth. -/
theorem le_callDepth (count levels spare : ℕ) (hlevels : levels ≤ maxQueryNesting)
    (hbytes : (count + 2) * levels + count + 13 ≤ maxQueryBytes) :
    (count + 3) * (levels + 1) ≤ callDepth rfc3339 source spare (bangText count levels) := by
  have htrimmed := (trimmed_bangText count levels).trimMatches
  have hguard : ¬ (maxQueryBytes < byteLength (trimMatches isWhitespace (bangText count levels))
      ∨ (trimMatches isWhitespace (bangText count levels)).isEmpty) := by
    rw [htrimmed, byteLength_bangText, not_or, Nat.not_lt]
    refine ⟨hbytes, fun hempty => ?_⟩
    have hlength := byteLength_bangText count levels
    rw [List.isEmpty_iff.mp hempty, byteLength_nil] at hlength
    omega
  rw [callDepth, if_neg hguard, tokenize_bangText]
  refine @le_orCalls_bangTokens rfc3339 source _ 0 ⟨bangTokens count levels, 0, 0, 0⟩ count levels [] (by omega) ?_
    (List.append_nil _).symm
  have hdepth : (count + 4) * (levels + 1) = (count + 2) * levels + 2 * levels + (count + 4) := by
    rw [Nat.mul_succ, ← Nat.add_mul]
  have hlevel : 2 * levels ≤ (count + 2) * levels := Nat.mul_le_mul_right _ (Nat.le_add_left _ _)
  rw [parseDepth, length_bangTokens, hdepth]
  omega

/-- Another token in between separates two runs. -/
theorem BangRuns.separated {left right : List Token} {token : Token} (hleft : BangRuns limit left)
    (hright : BangRuns limit right) (htoken : token ≠ .bang) : BangRuns limit (left ++ token :: right) := by
  intro count ⟨before, after, hrun⟩
  rw [List.append_assoc] at hrun
  rcases List.append_eq_append_iff.mp hrun with ⟨middle, rfl, hmiddle⟩ | ⟨middle, rfl, hmiddle⟩
  · rcases List.append_eq_append_iff.mp hmiddle with ⟨rest, rfl, _⟩ | ⟨rest, hreplicate, hrest⟩
    · exact hleft count ⟨before, rest, List.append_assoc _ _ _⟩
    · cases rest with
      | nil =>
          rw [List.append_nil] at hreplicate
          exact hleft count ⟨before, [], by rw [hreplicate, List.append_nil]⟩
      | cons head rest =>
          have hmem : token ∈ List.replicate count .bang := by
            rw [hreplicate, (List.cons.inj hrest).1]
            exact List.mem_append_right _ List.mem_cons_self
          exact absurd (List.eq_of_mem_replicate hmem) htoken
  · cases middle with
    | nil =>
        cases count with
        | zero => exact Nat.zero_le _
        | succ count => exact absurd (List.cons.inj hmiddle).1 htoken
    | cons head middle =>
        refine hright count ⟨middle, after, ?_⟩
        rw [List.append_assoc]
        exact (List.cons.inj hmiddle).2.symm

theorem bangRuns_bangTokens (count levels : ℕ) : BangRuns count (bangTokens count levels) := by
  have hrun : BangRuns count (List.replicate count .bang) := by
    intro other hother
    have hlength := hother.length_le
    rwa [List.length_replicate, List.length_replicate] at hlength
  have hnil : BangRuns count [] := by
    intro other hother
    have hlength := hother.length_le
    rw [List.length_replicate] at hlength
    exact Nat.le_trans hlength (Nat.zero_le _)
  induction levels with
  | zero => exact hrun.separated hnil nofun
  | succ levels ih => exact hrun.separated (ih.separated hnil nofun) nofun

theorem limitedBangs_bangText (count levels : ℕ) : LimitedBangs count (bangText count levels) := by
  intro tokens htokens
  rw [tokenize_bangText] at htokens
  rw [← Except.ok.inj htokens]
  exact bangRuns_bangTokens count levels

/-- The depth is bounded where the `!` that follow each other are: by as many of them before each of the parentheses,
and by no less. -/
theorem callDepth_le_iff (rfc3339 : Text → Option Int) {limit bound : ℕ}
    (hlimit : (limit + 2) * maxQueryNesting + limit + 13 ≤ maxQueryBytes) :
    (∀ source spare input, LimitedBangs limit input → callDepth rfc3339 source spare input ≤ bound)
      ↔ (limit + 3) * (maxQueryNesting + 1) ≤ bound := by
  constructor
  · intro h
    exact Nat.le_trans (le_callDepth limit maxQueryNesting 0 (Nat.le_refl _) hlimit)
      (h .logs 0 _ (limitedBangs_bangText limit maxQueryNesting))
  · intro h source spare input hinput
    exact Nat.le_trans (callDepth_le spare hinput) h

/-- Sixteen parentheses and no `!`. -/
theorem callDepth_parentheses : callDepth (fun _ => none) .logs 0 (bangText 0 16) ≤ 51 :=
  (callDepth_le_iff (fun _ => none) (by decide)).mpr (by decide) .logs 0 _ (limitedBangs_bangText 0 16)

/-- Thousands of `!` fit in a query, and each of them nests a call. -/
theorem callDepth_bangs :
    byteLength (bangText 32000 0) ≤ maxQueryBytes
      ∧ 2000 * maxQueryNesting < callDepth (fun _ => none) .logs 0 (bangText 32000 0) := by
  have hbytes : byteLength (bangText 32000 0) ≤ maxQueryBytes := by
    rw [byteLength_bangText]
    decide
  have hdepth := @le_callDepth (fun _ => none) .logs 32000 0 0 (Nat.zero_le _) (by decide)
  refine ⟨hbytes, Nat.lt_of_lt_of_le ?_ hdepth⟩
  decide

end QueryLanguage

end MetricBackend
