import Mathlib.Order.Bounds.Basic
import MetricBackend.LibBorders

/-! The substring search of inbound filters, `domain/src/inbound_filter.rs`: the table of `kmp_prefix` and the scan of
`kmp_contains`, with every index they read. -/

namespace MetricBackend

namespace InboundContains

/-- The `while` loop both functions share, for as many rounds: the length it ends with, where no index it reads is out
of bounds. -/
def fallBack (pattern : List (BitVec 8)) (table : List ℕ) (byte : BitVec 8) : ℕ → ℕ → Option ℕ
  | 0, _ => none
  | rounds + 1, matched =>
      if matched = 0 then some 0
      else do
        let expected ← pattern[matched]?
        if byte ≠ expected then
          let shorter ← table[matched - 1]?
          fallBack pattern table byte rounds shorter
        else some matched

/-- The body of the `for` loop of `kmp_prefix`: `matched` and the table. -/
def extendPrefix (pattern : List (BitVec 8)) (rounds : ℕ) (state : ℕ × List ℕ) (index : ℕ) : Option (ℕ × List ℕ) := do
  let byte ← pattern[index]?
  let matched ← fallBack pattern state.2 byte rounds state.1
  let expected ← pattern[matched]?
  let matched := if byte = expected then matched + 1 else matched
  if index < state.2.length then some (matched, state.2.set index matched) else none

def kmpPrefix (pattern : List (BitVec 8)) (rounds : ℕ) : Option (List ℕ) := do
  let state ← (List.range' 1 (pattern.length - 1)).foldlM (extendPrefix pattern rounds)
    (0, List.replicate pattern.length 0)
  some state.2

/-- The `for` loop of `kmp_contains`. -/
def scan (pattern : List (BitVec 8)) (table : List ℕ) (rounds : ℕ) : List (BitVec 8) → ℕ → Option Bool
  | [], _ => some false
  | byte :: rest, matched => do
      let matched ← fallBack pattern table byte rounds matched
      let expected ← pattern[matched]?
      if byte = expected then
        if matched + 1 = pattern.length then some true else scan pattern table rounds rest (matched + 1)
      else scan pattern table rounds rest matched

def kmpContains (value pattern : List (BitVec 8)) (table : List ℕ) (rounds : ℕ) : Option Bool :=
  scan pattern table rounds value 0

/-! ### The table -/

variable {pattern text : List (BitVec 8)} {table : List ℕ} {byte : BitVec 8} {rounds matched count : ℕ}

/-- The entries before `count` are the longest borders of the beginnings that end there. -/
def Tabulates (pattern : List (BitVec 8)) (table : List ℕ) (count : ℕ) : Prop :=
  ∀ index < count, ∃ border, table[index]? = some border ∧ Longest pattern (pattern.take (index + 1)).tail border

/-- The loop ends, within the table and the pattern, at the longest beginning the byte may continue: it continues it
or there is none. -/
theorem exists_fallBack (htable : Tabulates pattern table count) (hcontinues : Continues pattern text byte matched)
    (hcount : matched ≤ count) (hlt : matched < pattern.length) (hrounds : matched < rounds) :
    ∃ found, fallBack pattern table byte rounds matched = some found ∧ Continues pattern text byte found
      ∧ found ≤ matched ∧ (found = 0 ∨ pattern[found]? = some byte) := by
  induction rounds generalizing matched with
  | zero => exact absurd hrounds (Nat.not_lt_zero _)
  | succ rounds ih =>
      obtain ⟨expected, hexpected⟩ : ∃ expected, pattern[matched]? = some expected :=
        ⟨_, List.getElem?_eq_getElem hlt⟩
      unfold fallBack
      by_cases hzero : matched = 0
      · rw [if_pos hzero]
        rw [hzero] at hcontinues
        exact ⟨0, rfl, hcontinues, Nat.zero_le _, .inl rfl⟩
      · rw [if_neg hzero, hexpected, Option.bind_eq_bind, Option.bind_some]
        by_cases hbyte : byte = expected
        · rw [if_neg (not_not.mpr hbyte)]
          exact ⟨matched, rfl, hcontinues, Nat.le_refl _, .inr (by rw [hexpected, hbyte])⟩
        · obtain ⟨border, hborder, hlongest⟩ := htable (matched - 1) (by omega)
          rw [Nat.sub_add_cancel (Nat.pos_of_ne_zero hzero)] at hlongest
          rw [if_pos hbyte, hborder, Option.bind_eq_bind, Option.bind_some]
          have hshorter : border < matched := ((reaches_tail_iff (Nat.pos_of_ne_zero hzero) hlt.le).mp hlongest.reaches).1
          have hne : pattern[matched]? ≠ some byte := by
            rw [hexpected]
            exact fun heq => hbyte (Option.some.inj heq).symm
          obtain ⟨found, hfound, hnext, hle, hend⟩ :=
            ih (hcontinues.border hne hlongest) (by omega) (by omega) (by omega)
          exact ⟨found, hfound, hnext, by omega, hend⟩

/-- What a byte makes of the longest beginning, in both functions. -/
theorem exists_advance (htable : Tabulates pattern table count) (hlongest : Longest pattern text matched)
    (hcount : matched ≤ count) (hlt : matched < pattern.length) (hrounds : matched < rounds) :
    ∃ found expected, fallBack pattern table byte rounds matched = some found ∧ pattern[found]? = some expected
      ∧ found ≤ matched
      ∧ Longest pattern (text ++ [byte]) (if byte = expected then found + 1 else found) := by
  obtain ⟨found, hfound, hcontinues, hle, hend⟩ := exists_fallBack htable hlongest.continues hcount hlt hrounds
  obtain ⟨expected, hexpected⟩ : ∃ expected, pattern[found]? = some expected :=
    ⟨_, List.getElem?_eq_getElem (by omega)⟩
  refine ⟨found, expected, hfound, hexpected, hle, ?_⟩
  by_cases hbyte : byte = expected
  · rw [if_pos hbyte]
    exact hcontinues.longest (by rw [hexpected, hbyte])
  · have hne : pattern[found]? ≠ some byte := by
      rw [hexpected]
      exact fun heq => hbyte (Option.some.inj heq).symm
    have hzero : found = 0 := hend.resolve_right hne
    rw [if_neg hbyte, hzero]
    rw [hzero] at hcontinues hne
    exact hcontinues.longest_zero hne

/-- The state of `kmp_prefix` before it comes to `index`. -/
structure Building (pattern : List (BitVec 8)) (state : ℕ × List ℕ) (index : ℕ) : Prop where
  length : state.2.length = pattern.length
  tabulates : Tabulates pattern state.2 index
  longest : Longest pattern (pattern.take index).tail state.1

theorem Building.start (hpattern : pattern ≠ []) : Building pattern (0, List.replicate pattern.length 0) 1 := by
  have hpos : 0 < pattern.length := List.length_pos_iff.mpr hpattern
  have htail : (pattern.take 1).tail = [] := by
    refine List.eq_nil_of_length_eq_zero ?_
    rw [List.length_tail, List.length_take]
    omega
  refine ⟨List.length_replicate, fun index hindex => ⟨0, ?_, ?_⟩, ?_⟩
  · rw [List.getElem?_replicate, if_pos (by omega)]
  · rw [Nat.lt_one_iff.mp hindex, Nat.zero_add, htail]
    exact Longest.nil
  · rw [htail]
    exact Longest.nil

theorem take_tail_succ {index : ℕ} (hpos : 0 < index) (hbyte : pattern[index]? = some byte) :
    (pattern.take (index + 1)).tail = (pattern.take index).tail ++ [byte] := by
  rw [take_eq_append hbyte]
  refine List.tail_append_of_ne_nil fun hnil => ?_
  have hlt : index < pattern.length := (List.getElem?_eq_some_iff.mp hbyte).1
  have hlength : (pattern.take index).length = 0 := by rw [hnil, List.length_nil]
  rw [List.length_take_of_le hlt.le] at hlength
  omega

theorem Building.step {state : ℕ × List ℕ} {index : ℕ} (h : Building pattern state index) (hpos : 0 < index)
    (hlt : index < pattern.length) (hrounds : pattern.length ≤ rounds) :
    ∃ next, extendPrefix pattern rounds state index = some next ∧ Building pattern next (index + 1) := by
  obtain ⟨byte, hbyte⟩ : ∃ byte, pattern[index]? = some byte := ⟨_, List.getElem?_eq_getElem hlt⟩
  have hle : state.1 < index := ((reaches_tail_iff hpos hlt.le).mp h.longest.reaches).1
  obtain ⟨found, expected, hfound, hexpected, _, hlongest⟩ :=
    @exists_advance _ _ _ byte rounds _ _ h.tabulates h.longest hle.le (by omega) (by omega)
  rw [← take_tail_succ hpos hbyte] at hlongest
  have hindex : index < state.2.length := by
    rw [h.length]
    exact hlt
  refine ⟨(if byte = expected then found + 1 else found, state.2.set index (if byte = expected then found + 1 else found)),
    ?_, by rw [List.length_set, h.length], fun earlier hearlier => ?_, hlongest⟩
  · simp only [extendPrefix, hbyte, hfound, hexpected, Option.bind_eq_bind, Option.bind_some, if_pos hindex]
  · by_cases heq : earlier = index
    · rw [heq]
      exact ⟨_, List.getElem?_set_self hindex, hlongest⟩
    · obtain ⟨border, hborder, hentry⟩ := h.tabulates earlier (by omega)
      refine ⟨border, ?_, hentry⟩
      rw [List.getElem?_set_ne (fun h => heq h.symm)]
      exact hborder

theorem Building.run {state : ℕ × List ℕ} {index steps : ℕ} (h : Building pattern state index) (hpos : 0 < index)
    (hlength : index + steps = pattern.length) (hrounds : pattern.length ≤ rounds) :
    ∃ final, (List.range' index steps).foldlM (extendPrefix pattern rounds) state = some final
      ∧ Building pattern final pattern.length := by
  induction steps generalizing state index with
  | zero =>
      refine ⟨state, rfl, ?_⟩
      rw [← hlength]
      exact h
  | succ steps ih =>
      obtain ⟨next, hnext, hbuilding⟩ := h.step hpos (by omega) hrounds
      obtain ⟨final, hfinal, hdone⟩ := ih hbuilding (by omega) (by omega)
      refine ⟨final, ?_, hdone⟩
      rw [List.range'_succ, List.foldlM_cons, hnext]
      exact hfinal

theorem exists_kmpPrefix (hpattern : pattern ≠ []) (hrounds : pattern.length ≤ rounds) :
    ∃ table, kmpPrefix pattern rounds = some table ∧ table.length = pattern.length
      ∧ Tabulates pattern table pattern.length := by
  have hpos : 0 < pattern.length := List.length_pos_iff.mpr hpattern
  obtain ⟨final, hfinal, hdone⟩ :=
    (Building.start hpattern).run Nat.one_pos (Nat.add_sub_cancel' hpos) hrounds
  refine ⟨final.2, ?_, hdone.length, hdone.tabulates⟩
  rw [kmpPrefix, hfinal]
  rfl

/-! ### The scan -/

theorem scan_iff (htable : Tabulates pattern table pattern.length) (hrounds : pattern.length ≤ rounds)
    (rest : List (BitVec 8)) (hlongest : Longest pattern text matched) (hlt : matched < pattern.length) :
    ∃ found, scan pattern table rounds rest matched = some found
      ∧ (found = true ↔ ∃ part, part <+: rest ∧ pattern <:+ text ++ part) := by
  induction rest generalizing text matched with
  | nil =>
      refine ⟨false, rfl, ⟨nofun, fun ⟨part, hpart, hsuffix⟩ => ?_⟩⟩
      rw [List.prefix_nil.mp hpart, List.append_nil] at hsuffix
      exact absurd (hlongest.max _ (reaches_length.mpr hsuffix)) (by omega)
  | cons byte rest ih =>
      obtain ⟨found, expected, hfound, hexpected, hle, hnext⟩ :=
        @exists_advance _ _ _ byte rounds _ _ htable hlongest hlt.le hlt (by omega)
      have hpart : (∃ part, part <+: byte :: rest ∧ pattern <:+ text ++ part)
          ↔ ∃ part, part <+: rest ∧ pattern <:+ (text ++ [byte]) ++ part := by
        constructor
        · intro ⟨part, hprefix, hsuffix⟩
          obtain rfl | ⟨tail, rfl, htail⟩ := List.prefix_cons_iff.mp hprefix
          · rw [List.append_nil] at hsuffix
            exact absurd (hlongest.max _ (reaches_length.mpr hsuffix)) (by omega)
          · exact ⟨tail, htail, by rwa [List.append_assoc]⟩
        · intro ⟨part, hprefix, hsuffix⟩
          exact ⟨byte :: part, List.cons_prefix_cons.mpr ⟨rfl, hprefix⟩, by rwa [List.append_assoc] at hsuffix⟩
      rw [hpart]
      simp only [scan, hfound, hexpected, Option.bind_eq_bind, Option.bind_some]
      by_cases hbyte : byte = expected
      · rw [if_pos hbyte] at hnext
        rw [if_pos hbyte]
        by_cases hend : found + 1 = pattern.length
        · rw [if_pos hend]
          rw [hend] at hnext
          exact ⟨true, rfl, fun _ => ⟨[], List.nil_prefix, by
            rw [List.append_nil]
            exact reaches_length.mp hnext.reaches⟩, fun _ => rfl⟩
        · rw [if_neg hend]
          exact ih hnext (lt_of_le_of_ne hnext.reaches.1 hend)
      · rw [if_neg hbyte] at hnext
        rw [if_neg hbyte]
        exact ih hnext (by omega)

/-- With rounds for every fallback the table is the one of the longest borders, and the search finds exactly the
patterns the value has in it. -/
theorem kmpContains_iff (value : List (BitVec 8)) (hpattern : pattern ≠ []) (hrounds : pattern.length ≤ rounds) :
    ∃ table, kmpPrefix pattern rounds = some table ∧ table.length = pattern.length
      ∧ (∀ index < pattern.length, ∃ border, table[index]? = some border
        ∧ IsGreatest {size | size < index + 1 ∧ pattern.take size <:+ pattern.take (index + 1)} border)
      ∧ kmpContains value pattern table rounds = some (decide (pattern <:+: value)) := by
  obtain ⟨table, htable, hlength, htabulates⟩ := exists_kmpPrefix hpattern hrounds
  refine ⟨table, htable, hlength, fun index hindex => ?_, ?_⟩
  · obtain ⟨border, hborder, hlongest⟩ := htabulates index hindex
    have hreaches : ∀ size, Reaches pattern (pattern.take (index + 1)).tail size
        ↔ size < index + 1 ∧ pattern.take size <:+ pattern.take (index + 1) :=
      fun size => reaches_tail_iff (Nat.succ_pos index) hindex
    exact ⟨border, hborder, (hreaches border).mp hlongest.reaches,
      fun other hother => hlongest.max other ((hreaches other).mpr hother)⟩
  · obtain ⟨found, hfound, hiff⟩ :=
      scan_iff htabulates hrounds value Longest.nil (List.length_pos_iff.mpr hpattern)
    rw [kmpContains, hfound, Option.some_inj, Bool.eq_iff_iff, hiff, decide_eq_true_eq, List.infix_iff_suffix_prefix]
    simp only [List.nil_append]
    exact ⟨fun ⟨part, hprefix, hsuffix⟩ => ⟨part, hsuffix, hprefix⟩,
      fun ⟨part, hsuffix, hprefix⟩ => ⟨part, hprefix, hsuffix⟩⟩

/-- `aab` falls back twice in `aaab`. -/
theorem kmpContains_overlap :
    kmpPrefix [97, 97, 98] 3 = some [0, 1, 0] ∧ kmpContains [97, 97, 97, 98] [97, 97, 98] [0, 1, 0] 3 = some true := by
  obtain ⟨table, htable, _, _, hcontains⟩ :=
    @kmpContains_iff [97, 97, 98] 3 [97, 97, 97, 98] (by decide) (by decide)
  have hvalue : kmpPrefix [97, 97, 98] 3 = some [0, 1, 0] := by decide
  rw [hvalue, Option.some_inj] at htable
  rw [← htable] at hcontains
  exact ⟨hvalue, hcontains⟩

end InboundContains

end MetricBackend
