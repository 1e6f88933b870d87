import Mathlib.Data.List.Forall2
import MetricBackend.LibText

/-! The glob patterns of inbound filters, `domain/src/inbound_filter.rs`: the loop of `glob_matches` with its one
remembered star, the recursive reference of its test, and where the two agree. -/

namespace MetricBackend

namespace InboundGlobs

/-- `b'*'`. -/
def star : BitVec 8 := 42

/-- `b'?'`. -/
def question : BitVec 8 := 63

structure GlobState where
  patternIndex : Nat
  valueIndex : Nat
  star : Option Nat
  starValue : Nat

def GlobState.start : GlobState := ⟨0, 0, none, 0⟩

/-- The loop of `glob_matches`, for as many rounds. -/
def globMatches (pattern value : List (BitVec 8)) : Nat → GlobState → Option Bool
  | 0, _ => none
  | rounds + 1, state =>
      match value[state.valueIndex]? with
      | none => some ((pattern.drop state.patternIndex).all (· = star))
      | some byte =>
          if pattern[state.patternIndex]? = some question ∨ pattern[state.patternIndex]? = some byte then
            globMatches pattern value rounds
              { state with patternIndex := state.patternIndex + 1, valueIndex := state.valueIndex + 1 }
          else if pattern[state.patternIndex]? = some star then
            globMatches pattern value rounds
              { state with
                patternIndex := state.patternIndex + 1
                star := some state.patternIndex
                starValue := state.valueIndex }
          else
            match state.star with
            | some starIndex =>
                globMatches pattern value rounds
                  { state with
                    patternIndex := starIndex + 1
                    starValue := state.starValue + 1
                    valueIndex := state.starValue + 1 }
            | none => some false

/-- `reference`, in the test of `glob_matches`. -/
def reference : List (BitVec 8) → List (BitVec 8) → Bool
  | [], value => value.isEmpty
  | head :: rest, value =>
      if head = star then
        reference rest value
          || match value with
            | [] => false
            | _ :: tail => reference (head :: rest) tail
      else
        match value with
        | [] => false
        | byte :: tail => (head = question || head = byte) && reference rest tail
termination_by pattern value => pattern.length + value.length

/-! ### Divisions of a value -/

/-- The value is divided among the bytes of the pattern: each takes a part, in front of the rest. -/
inductive Divides (takes : BitVec 8 → List (BitVec 8) → List (BitVec 8) → Prop) :
    List (BitVec 8) → List (BitVec 8) → Prop where
  | nil : Divides takes [] []
  | cons {head : BitVec 8} {pattern part rest : List (BitVec 8)} (htakes : takes head part rest)
      (hrest : Divides takes pattern rest) : Divides takes (head :: pattern) (part ++ rest)

def standsFor (head : BitVec 8) (part : List (BitVec 8)) : Prop :=
  if head = star then True else if head = question then part.length = 1 else part = [head]

def Matches : List (BitVec 8) → List (BitVec 8) → Prop := Divides fun head part _ => standsFor head part

/-- A match in which a star that meets a star of the value stands for just that byte. -/
def MatchesStars : List (BitVec 8) → List (BitVec 8) → Prop :=
  Divides fun head part rest => standsFor head part ∧ (head = star → (part ++ rest).head? = some star → part = [star])

section Divisions

variable {takes : BitVec 8 → List (BitVec 8) → List (BitVec 8) → Prop}
  {head byte : BitVec 8} {pattern value part rest : List (BitVec 8)}

theorem divides_nil : Divides takes [] value ↔ value = [] := by
  constructor
  · rintro ⟨⟩
    rfl
  · rintro rfl
    exact .nil

theorem divides_cons :
    Divides takes (head :: pattern) value
      ↔ ∃ part rest, value = part ++ rest ∧ takes head part rest ∧ Divides takes pattern rest := by
  constructor
  · rintro (_ | ⟨htakes, hrest⟩)
    exact ⟨_, _, rfl, htakes, hrest⟩
  · rintro ⟨part, rest, rfl, htakes, hrest⟩
    exact .cons htakes hrest

theorem standsFor_byte (h : head ≠ star) : standsFor head part ↔ ∃ byte, part = [byte] ∧ (head = question ∨ head = byte) := by
  rw [standsFor, if_neg h]
  by_cases hquestion : head = question
  · rw [if_pos hquestion, List.length_eq_one_iff]
    simp [hquestion]
  · rw [if_neg hquestion]
    simp [hquestion]

/-- A byte of the pattern that is not a star takes one byte of the value. -/
theorem divides_byte (h : head ≠ star) (htakes : ∀ part rest, takes head part rest ↔ standsFor head part) :
    Divides takes (head :: pattern) value
      ↔ ∃ byte rest, value = byte :: rest ∧ (head = question ∨ head = byte) ∧ Divides takes pattern rest := by
  rw [divides_cons]
  constructor
  · rintro ⟨part, rest, rfl, hpart, hrest⟩
    obtain ⟨byte, rfl, hbyte⟩ := (standsFor_byte h).mp ((htakes part rest).mp hpart)
    exact ⟨byte, rest, rfl, hbyte, hrest⟩
  · rintro ⟨byte, rest, rfl, hbyte, hrest⟩
    exact ⟨[byte], rest, rfl, (htakes _ _).mpr ((standsFor_byte h).mpr ⟨byte, rfl, hbyte⟩), hrest⟩

theorem standsFor_star : standsFor star part := by
  rw [standsFor, if_pos rfl]
  trivial

/-- A star takes nothing, or one byte and then as a star again. -/
theorem matches_star :
    Matches (star :: pattern) value ↔ Matches pattern value ∨ ∃ byte rest, value = byte :: rest ∧ Matches (star :: pattern) rest := by
  constructor
  · intro h
    obtain ⟨part, rest, rfl, -, hrest⟩ := divides_cons.mp h
    cases part with
    | nil => exact .inl hrest
    | cons byte part => exact .inr ⟨byte, part ++ rest, rfl, .cons standsFor_star hrest⟩
  · rintro (h | ⟨byte, rest, rfl, h⟩)
    · exact divides_cons.mpr ⟨[], value, rfl, standsFor_star, h⟩
    · obtain ⟨part, rest, rfl, -, hrest⟩ := divides_cons.mp h
      exact divides_cons.mpr ⟨byte :: part, rest, rfl, standsFor_star, hrest⟩

theorem matches_byte (h : head ≠ star) :
    Matches (head :: pattern) value
      ↔ ∃ byte rest, value = byte :: rest ∧ (head = question ∨ head = byte) ∧ Matches pattern rest :=
  divides_byte h fun _ _ => Iff.rfl

theorem reference_iff (pattern value : List (BitVec 8)) : reference pattern value = true ↔ Matches pattern value := by
  fun_induction reference pattern value with
  | case1 value => rw [List.isEmpty_iff, Matches, divides_nil]
  | case2 rest value ihrest ihtail =>
      rw [matches_star, Bool.or_eq_true, ihrest]
      cases value with
      | nil => simp
      | cons byte tail => simpa using or_congr_right ihtail
  | case3 head rest hhead => simp [matches_byte hhead]
  | case4 head rest hhead byte tail ih => simp [matches_byte hhead, ih]

/-! ### Matches that keep the stars of the value -/

theorem matchesStars_byte (h : head ≠ star) :
    MatchesStars (head :: pattern) value
      ↔ ∃ byte rest, value = byte :: rest ∧ (head = question ∨ head = byte) ∧ MatchesStars pattern rest :=
  divides_byte h fun _ _ => and_iff_left fun hstar => absurd hstar h

theorem matchesStars_nil : MatchesStars [] value ↔ value = [] := divides_nil

/-- In front of a star of the value a star stands for it. -/
theorem matchesStars_star_star : MatchesStars (star :: pattern) (star :: value) ↔ MatchesStars pattern value := by
  rw [MatchesStars, divides_cons]
  constructor
  · rintro ⟨part, rest, hvalue, ⟨-, hpart⟩, hrest⟩
    obtain rfl := hpart rfl (by rw [← hvalue, List.head?_cons])
    obtain rfl := (List.cons.inj hvalue).2
    exact hrest
  · intro h
    exact ⟨[star], value, rfl, ⟨standsFor_star, fun _ _ => rfl⟩, h⟩

/-- Elsewhere it stands for any part. -/
theorem matchesStars_star (h : value.head? ≠ some star) :
    MatchesStars (star :: pattern) value ↔ ∃ count, MatchesStars pattern (value.drop count) := by
  rw [MatchesStars, divides_cons]
  constructor
  · rintro ⟨part, rest, rfl, -, hrest⟩
    exact ⟨part.length, by rwa [List.drop_left]⟩
  · rintro ⟨count, hrest⟩
    refine ⟨value.take count, value.drop count, (List.take_append_drop count value).symm, ⟨standsFor_star, ?_⟩, hrest⟩
    intro _ hstar
    rw [List.take_append_drop] at hstar
    exact absurd hstar h

theorem matchesStars_nil_value : MatchesStars pattern [] ↔ pattern.all (· = star) = true := by
  induction pattern with
  | nil => simp [matchesStars_nil]
  | cons head pattern ih =>
      by_cases hhead : head = star
      · subst hhead
        rw [matchesStars_star (by simp), List.all_cons, decide_eq_true rfl, Bool.true_and, ← ih]
        simp
      · simp [matchesStars_byte hhead, hhead]

/-- The first byte of a pattern takes some part. -/
theorem exists_drop_of_matchesStars (h : MatchesStars (head :: pattern) value) :
    ∃ count, MatchesStars pattern (value.drop count) := by
  obtain ⟨part, rest, rfl, -, hrest⟩ := divides_cons.mp h
  exact ⟨part.length, by rwa [List.drop_left]⟩

/-- A byte of the pattern that is not a star, or a star, in front of itself or after a question mark. -/
def taken (head byte : BitVec 8) : Prop := head = question ∨ head = byte

theorem matchesStars_taken (h : taken head byte) :
    MatchesStars (head :: pattern) (byte :: value) ↔ MatchesStars pattern value := by
  by_cases hstar : head = star
  · have hbyte : byte = star := by
      rcases h with h | h
      · exact absurd (hstar.symm.trans h) (by decide)
      · exact h.symm.trans hstar
    rw [hstar, hbyte, matchesStars_star_star]
  · rw [matchesStars_byte hstar]
    constructor
    · rintro ⟨_, _, ⟨⟩, -, hrest⟩
      exact hrest
    · intro hrest
      exact ⟨byte, value, rfl, h, hrest⟩

/-- After a run of taken bytes: what matches the pattern from the start of the run, or from later on, has a
match of what is left of the pattern from the end of the run, or from later on. -/
theorem exists_drop_of_run {run bytes : List (BitVec 8)} (hrun : List.Forall₂ taken run bytes) (count : Nat)
    (h : MatchesStars (run ++ pattern) ((bytes ++ value).drop count)) :
    ∃ count, MatchesStars pattern (value.drop count) := by
  induction hrun generalizing count with
  | nil => exact ⟨count, h⟩
  | @cons head byte run bytes htaken hrun ih =>
      rw [List.cons_append, List.cons_append] at h
      cases count with
      | zero => exact ih 0 ((matchesStars_taken htaken).mp h)
      | succ count =>
          obtain ⟨more, hrest⟩ := exists_drop_of_matchesStars h
          rw [List.drop_succ_cons, List.drop_drop] at hrest
          exact ih (count + more) hrest

end Divisions

/-! ### The loop -/

section Loop

variable {pattern value : List (BitVec 8)} {state : GlobState}

/-- What the loop still has to find out: a match from where it is, or from after the remembered star. -/
def Answer (pattern value : List (BitVec 8)) (state : GlobState) : Prop :=
  MatchesStars (pattern.drop state.patternIndex) (value.drop state.valueIndex)
    ∨ ∃ starIndex count, state.star = some starIndex ∧ state.starValue < count
        ∧ MatchesStars (pattern.drop (starIndex + 1)) (value.drop count)

/-- Since the remembered star the loop only took bytes. -/
structure AfterStar (pattern value : List (BitVec 8)) (state : GlobState) (starIndex : Nat) : Prop where
  inside : starIndex < pattern.length
  before : starIndex < state.patternIndex
  notAfter : state.starValue ≤ state.valueIndex
  run : ∃ run bytes, pattern.drop (starIndex + 1) = run ++ pattern.drop state.patternIndex
    ∧ value.drop state.starValue = bytes ++ value.drop state.valueIndex ∧ List.Forall₂ taken run bytes

def Invariant (pattern value : List (BitVec 8)) (state : GlobState) : Prop :=
  ∀ starIndex, state.star = some starIndex → AfterStar pattern value state starIndex

/-- A match from after the remembered star leaves one of what the loop has yet to take. -/
theorem exists_drop_of_answer (hinvariant : Invariant pattern value state) (h : Answer pattern value state) :
    ∃ count, MatchesStars (pattern.drop state.patternIndex) ((value.drop state.valueIndex).drop count) := by
  rcases h with h | ⟨starIndex, count, hstar, hcount, h⟩
  · exact ⟨0, h⟩
  · obtain ⟨run, bytes, hrun, hbytes, htaken⟩ := (hinvariant starIndex hstar).run
    have hdrop : value.drop count = (value.drop state.starValue).drop (count - state.starValue) := by
      rw [List.drop_drop]
      congr 1
      omega
    rw [hrun, hdrop, hbytes] at h
    exact exists_drop_of_run htaken _ h

/-- At the end of the value only stars may be left. -/
theorem answer_end (hinvariant : Invariant pattern value state) (h : value[state.valueIndex]? = none) :
    Answer pattern value state ↔ (pattern.drop state.patternIndex).all (· = star) = true := by
  have hnil : value.drop state.valueIndex = [] := List.drop_eq_nil_iff.mpr (List.getElem?_eq_none_iff.mp h)
  rw [← matchesStars_nil_value]
  constructor
  · intro hanswer
    obtain ⟨count, hmatch⟩ := exists_drop_of_answer hinvariant hanswer
    rwa [hnil, List.drop_nil] at hmatch
  · intro hmatch
    exact .inl (hnil ▸ hmatch)

theorem invariant_star (hhead : pattern[state.patternIndex]? = some star) :
    Invariant pattern value
      { state with patternIndex := state.patternIndex + 1, star := some state.patternIndex, starValue := state.valueIndex } := by
  rintro _ ⟨⟩
  obtain ⟨hlt, -⟩ := List.getElem?_eq_some_iff.mp hhead
  exact ⟨hlt, Nat.lt_succ_self _, Nat.le_refl _, [], [], rfl, rfl, .nil⟩

section Rounds

variable {byte : BitVec 8} (hbyte : value[state.valueIndex]? = some byte)

include hbyte

theorem drop_value : value.drop state.valueIndex = byte :: value.drop (state.valueIndex + 1) := by
  obtain ⟨hlt, rfl⟩ := List.getElem?_eq_some_iff.mp hbyte
  exact List.drop_eq_getElem_cons hlt

theorem answer_taken {head : BitVec 8} (hhead : pattern[state.patternIndex]? = some head) (htaken : taken head byte) :
    Answer pattern value state ↔ Answer pattern value
      { state with patternIndex := state.patternIndex + 1, valueIndex := state.valueIndex + 1 } := by
  obtain ⟨hlt, hget⟩ := List.getElem?_eq_some_iff.mp hhead
  have hmatch : MatchesStars (pattern.drop state.patternIndex) (value.drop state.valueIndex)
      ↔ MatchesStars (pattern.drop (state.patternIndex + 1)) (value.drop (state.valueIndex + 1)) := by
    rw [drop_value hbyte, List.drop_eq_getElem_cons hlt, hget, matchesStars_taken htaken]
  exact or_congr_left hmatch

theorem invariant_taken {head : BitVec 8} (hhead : pattern[state.patternIndex]? = some head) (htaken : taken head byte)
    (hinvariant : Invariant pattern value state) :
    Invariant pattern value
      { state with patternIndex := state.patternIndex + 1, valueIndex := state.valueIndex + 1 } := by
  intro starIndex hstar
  obtain ⟨hinside, hbefore, hnotAfter, run, bytes, hrun, hbytes, hall⟩ := hinvariant starIndex hstar
  obtain ⟨hlt, hget⟩ := List.getElem?_eq_some_iff.mp hhead
  refine ⟨hinside, Nat.lt_succ_of_lt hbefore, Nat.le_succ_of_le hnotAfter, run ++ [head],
    bytes ++ [byte], ?_, ?_, ?_⟩
  · rw [hrun, List.drop_eq_getElem_cons hlt, hget, List.append_assoc, List.singleton_append]
  · rw [hbytes, drop_value hbyte, List.append_assoc, List.singleton_append]
  · exact List.rel_append hall (.cons htaken .nil)

/-- A star that does not meet a star of the value replaces the remembered one. -/
theorem answer_star (hhead : pattern[state.patternIndex]? = some star) (hne : byte ≠ star)
    (hinvariant : Invariant pattern value state) :
    Answer pattern value state ↔ Answer pattern value
      { state with patternIndex := state.patternIndex + 1, star := some state.patternIndex, starValue := state.valueIndex } := by
  obtain ⟨hlt, hget⟩ := List.getElem?_eq_some_iff.mp hhead
  have hdrop : pattern.drop state.patternIndex = star :: pattern.drop (state.patternIndex + 1) := by
    rw [List.drop_eq_getElem_cons hlt, hget]
  have hstar : MatchesStars (pattern.drop state.patternIndex) (value.drop state.valueIndex)
      ↔ ∃ count, MatchesStars (pattern.drop (state.patternIndex + 1)) ((value.drop state.valueIndex).drop count) := by
    rw [hdrop]
    exact matchesStars_star (by rw [drop_value hbyte, List.head?_cons]; simpa using hne)
  constructor
  · intro hanswer
    obtain ⟨count, hmatch⟩ := exists_drop_of_answer hinvariant hanswer
    rw [hdrop] at hmatch
    obtain ⟨more, hmatch⟩ := exists_drop_of_matchesStars hmatch
    rw [List.drop_drop, List.drop_drop] at hmatch
    by_cases hzero : count = 0 ∧ more = 0
    · obtain ⟨rfl, rfl⟩ := hzero
      exact .inl hmatch
    · exact .inr ⟨state.patternIndex, _, rfl, by dsimp only; omega, hmatch⟩
  · rintro (hmatch | ⟨_, count, ⟨⟩, hcount, hmatch⟩)
    · exact .inl (hstar.mpr ⟨0, hmatch⟩)
    · refine .inl (hstar.mpr ⟨count - state.valueIndex, ?_⟩)
      dsimp only at hcount
      rwa [List.drop_drop, Nat.add_sub_cancel' (Nat.le_of_lt hcount)]

/-- Where the pattern takes no byte, only the remembered star is left. -/
theorem answer_stuck (htaken : ∀ head, pattern[state.patternIndex]? = some head → head ≠ star ∧ ¬ taken head byte) :
    Answer pattern value state ↔ ∃ starIndex count, state.star = some starIndex ∧ state.starValue < count
        ∧ MatchesStars (pattern.drop (starIndex + 1)) (value.drop count) := by
  refine or_iff_right fun hmatch => ?_
  rw [drop_value hbyte] at hmatch
  cases hhead : pattern[state.patternIndex]? with
  | none =>
      rw [List.drop_eq_nil_iff.mpr (List.getElem?_eq_none_iff.mp hhead), matchesStars_nil] at hmatch
      exact absurd hmatch (List.cons_ne_nil _ _)
  | some head =>
      obtain ⟨hstar, hnot⟩ := htaken head hhead
      obtain ⟨hlt, hget⟩ := List.getElem?_eq_some_iff.mp hhead
      rw [List.drop_eq_getElem_cons hlt, hget, matchesStars_byte hstar] at hmatch
      obtain ⟨_, _, ⟨⟩, htook, -⟩ := hmatch
      exact hnot htook

end Rounds

/-- The state that goes back to one byte after the last try of the remembered star. -/
def GlobState.back (state : GlobState) (starIndex : Nat) : GlobState :=
  { state with patternIndex := starIndex + 1, starValue := state.starValue + 1, valueIndex := state.starValue + 1 }

theorem answer_back {starIndex : Nat} (hstar : state.star = some starIndex) :
    Answer pattern value (state.back starIndex) ↔ ∃ starIndex count, state.star = some starIndex ∧ state.starValue < count
        ∧ MatchesStars (pattern.drop (starIndex + 1)) (value.drop count) := by
  constructor
  · rintro (hmatch | ⟨_, count, hsame, hcount, hmatch⟩)
    · exact ⟨starIndex, state.starValue + 1, hstar, Nat.lt_succ_self _, hmatch⟩
    · exact ⟨_, count, hsame, Nat.lt_of_succ_lt hcount, hmatch⟩
  · rintro ⟨other, count, hother, hcount, hmatch⟩
    obtain rfl : starIndex = other := Option.some.inj (hstar.symm.trans hother)
    by_cases hnext : count = state.starValue + 1
    · subst hnext
      exact .inl hmatch
    · refine .inr ⟨starIndex, count, hstar, ?_, hmatch⟩
      change state.starValue + 1 < count
      omega

theorem invariant_back {starIndex : Nat} (hinvariant : Invariant pattern value state) (hstar : state.star = some starIndex) :
    Invariant pattern value (state.back starIndex) := by
  intro other hother
  obtain rfl : starIndex = other := Option.some.inj (hstar.symm.trans hother)
  exact ⟨(hinvariant starIndex hstar).inside, Nat.lt_succ_self _, Nat.le_refl _, [], [], rfl, rfl, .nil⟩

/-! ### Termination -/

def GlobState.stars (state : GlobState) : Nat := state.star.elim 0 (· + 1)

/-- A bound on the rounds from a state on: the stars of the pattern that are left first, then the tries of the
remembered one, then the bytes of a try. -/
def remaining (pattern value : List (BitVec 8)) (state : GlobState) : Nat :=
  ((pattern.length - state.stars) * (value.length + 1) + (value.length - state.starValue)) * (value.length + 1)
    + (value.length - state.valueIndex)

theorem mul_add_lt {left right low high bound : Nat} (h : left < right) (hlow : low ≤ bound) :
    left * (bound + 1) + low < right * (bound + 1) + high := by
  have hmul : (left + 1) * (bound + 1) ≤ right * (bound + 1) := Nat.mul_le_mul_right _ h
  rw [Nat.succ_mul] at hmul
  omega

theorem remaining_star (hinvariant : Invariant pattern value state) (hlt : state.patternIndex < pattern.length) :
    remaining pattern value
      { state with patternIndex := state.patternIndex + 1, star := some state.patternIndex, starValue := state.valueIndex }
      < remaining pattern value state := by
  refine mul_add_lt (mul_add_lt ?_ (Nat.sub_le ..)) (Nat.sub_le ..)
  have hstars : state.stars ≤ state.patternIndex := by
    cases hstar : state.star with
    | none => simp [GlobState.stars, hstar]
    | some starIndex =>
        rw [GlobState.stars, hstar]
        exact (hinvariant starIndex hstar).before
  change pattern.length - (state.patternIndex + 1) < _
  omega

theorem remaining_back {starIndex : Nat} (hinvariant : Invariant pattern value state)
    (hstar : state.star = some starIndex) (hlt : state.valueIndex < value.length) :
    remaining pattern value (state.back starIndex) < remaining pattern value state := by
  refine mul_add_lt ?_ (Nat.sub_le ..)
  have hnotAfter := (hinvariant starIndex hstar).notAfter
  refine Nat.add_lt_add_left ?_ _
  change value.length - (state.starValue + 1) < _
  omega

/-- The loop returns, and says whether there is a match. -/
theorem globMatches_state {rounds : Nat} (hinvariant : Invariant pattern value state)
    (hrounds : remaining pattern value state < rounds) :
    ∃ result, globMatches pattern value rounds state = some result ∧ (result = true ↔ Answer pattern value state) := by
  induction rounds generalizing state with
  | zero => exact absurd hrounds (Nat.not_lt_zero _)
  | succ rounds ih =>
      cases hbyte : value[state.valueIndex]? with
      | none =>
          exact ⟨_, by rw [globMatches, hbyte], (answer_end hinvariant hbyte).symm⟩
      | some byte =>
          have hlt := (List.getElem?_eq_some_iff.mp hbyte).1
          by_cases htaken : pattern[state.patternIndex]? = some question ∨ pattern[state.patternIndex]? = some byte
          · obtain ⟨head, hhead, hhead'⟩ : ∃ head, pattern[state.patternIndex]? = some head ∧ taken head byte := by
              rcases htaken with h | h
              · exact ⟨_, h, .inl rfl⟩
              · exact ⟨_, h, .inr rfl⟩
            have hless : remaining pattern value
                { state with patternIndex := state.patternIndex + 1, valueIndex := state.valueIndex + 1 } < rounds := by
              refine Nat.lt_of_lt_of_le (Nat.add_lt_add_left ?_ _) (Nat.le_of_lt_succ hrounds)
              dsimp only
              omega
            obtain ⟨result, hresult, hanswer⟩ := ih (invariant_taken hbyte hhead hhead' hinvariant) hless
            refine ⟨result, ?_, hanswer.trans (answer_taken hbyte hhead hhead').symm⟩
            simp only [globMatches, hbyte, if_pos htaken]
            exact hresult
          · by_cases hstar : pattern[state.patternIndex]? = some star
            · have hne : byte ≠ star := fun h => htaken (.inr (h ▸ hstar))
              have hless := remaining_star hinvariant (List.getElem?_eq_some_iff.mp hstar).1
              obtain ⟨result, hresult, hanswer⟩ := ih (invariant_star hstar) (by omega)
              refine ⟨result, ?_, hanswer.trans (answer_star hbyte hstar hne hinvariant).symm⟩
              simp only [globMatches, hbyte, if_neg htaken, if_pos hstar]
              exact hresult
            · have hstuck := @answer_stuck pattern value state byte hbyte fun head hhead => by
                rw [hhead] at htaken hstar
                exact ⟨fun h => hstar (congrArg some h),
                  fun h => htaken (h.imp (congrArg some) (congrArg some))⟩
              cases hsaved : state.star with
              | none =>
                  refine ⟨false, ?_, ?_⟩
                  · simp only [globMatches, hbyte, if_neg htaken, if_neg hstar, hsaved]
                  · rw [hstuck, hsaved]
                    simp
              | some starIndex =>
                  have hless := remaining_back hinvariant hsaved hlt
                  obtain ⟨result, hresult, hanswer⟩ := ih (invariant_back hinvariant hsaved) (by omega)
                  refine ⟨result, ?_, hanswer.trans ((answer_back hsaved).trans hstuck.symm)⟩
                  simp only [globMatches, hbyte, if_neg htaken, if_neg hstar, hsaved]
                  rw [← hresult, GlobState.back, hsaved]

/-- The rounds that a match takes at most. -/
def globRounds (pattern value : List (BitVec 8)) : Nat := remaining pattern value .start + 1

theorem globMatches_start (pattern value : List (BitVec 8)) {rounds : Nat} (hrounds : globRounds pattern value ≤ rounds) :
    ∃ result, globMatches pattern value rounds .start = some result ∧ (result = true ↔ MatchesStars pattern value) := by
  have hinvariant : Invariant pattern value .start := fun _ h => nomatch h
  obtain ⟨result, hresult, hanswer⟩ := globMatches_state hinvariant hrounds
  refine ⟨result, hresult, hanswer.trans ⟨?_, .inl⟩⟩
  rintro (hmatch | ⟨_, _, ⟨⟩, -⟩)
  exact hmatch

theorem matches_of_matchesStars (h : MatchesStars pattern value) : Matches pattern value := by
  induction h with
  | nil => exact .nil
  | cons htakes _ ih => exact .cons htakes.1 ih

end Loop

/-- The loop always returns, and what it returns is the reference exactly when a value that the pattern matches
at all has a match in which a star of the pattern that meets a star of the value stands for that byte alone. -/
theorem globMatches_eq_reference_iff (pattern value : List (BitVec 8)) :
    ∃ result, (∀ rounds, globRounds pattern value ≤ rounds → globMatches pattern value rounds .start = some result)
      ∧ (result = reference pattern value ↔ (Matches pattern value → MatchesStars pattern value)) := by
  classical
  refine ⟨decide (MatchesStars pattern value), fun rounds hrounds => ?_, ?_⟩
  · obtain ⟨result, hresult, hiff⟩ := globMatches_start pattern value hrounds
    rw [hresult]
    exact congrArg some (Bool.eq_iff_iff.mpr (hiff.trans decide_eq_true_iff.symm))
  · rw [Bool.eq_iff_iff, decide_eq_true_iff, reference_iff]
    exact ⟨fun h => h.mpr, fun h => ⟨matches_of_matchesStars, h⟩⟩

/-- The pattern of one star refuses a value that starts with a star. -/
theorem star_refuses_star_value :
    (∀ rounds, globMatches [star] [star, 97] (rounds + 2) .start = some false) ∧ reference [star] [star, 97] = true := by
  refine ⟨fun rounds => rfl, ?_⟩
  simp [reference]

end InboundGlobs

end MetricBackend
