import MetricBackend.LibCodes

/-! ASCII letters of either case: lower-casing a text keeps its length and its other characters, and what is read from
hexadecimal digits does not depend on their case. -/

namespace MetricBackend

/-! ### Lower-casing -/

theorem upper_lowered {code : Nat} (hlow : 65 ≤ code) (hhigh : code ≤ 90) :
    (Char.ofNat (code + 32)).toNat = code + 32 := by
  have hvalid : (code + 32).isValidChar := .inl (by omega)
  rw [Char.ofNat, dif_pos hvalid]
  rfl

/-- A character that is no capital letter comes only from itself. -/
theorem lowerAscii_cases (c : Char) :
    lowerAscii c = c ∨ 65 ≤ c.toNat ∧ c.toNat ≤ 90 ∧ (lowerAscii c).toNat = c.toNat + 32 := by
  by_cases h : 'A' ≤ c ∧ c ≤ 'Z'
  · have hlow : 65 ≤ c.toNat := h.1
    have hhigh : c.toNat ≤ 90 := h.2
    rw [lowerAscii, if_pos h]
    exact .inr ⟨hlow, hhigh, upper_lowered hlow hhigh⟩
  · exact .inl (if_neg h)

theorem lowerAscii_of_not_upper {c : Char} (h : c.toNat < 65 ∨ 90 < c.toNat) : lowerAscii c = c := by
  rcases lowerAscii_cases c with hsame | ⟨hlow, hhigh, -⟩
  · exact hsame
  · omega

theorem lowerAscii_lowerAscii (c : Char) : lowerAscii (lowerAscii c) = lowerAscii c := by
  rcases lowerAscii_cases c with hsame | ⟨hlow, -, hlowered⟩
  · rw [hsame, hsame]
  · exact lowerAscii_of_not_upper (by omega)

/-- What is no small letter is not changed into. -/
theorem lowerAscii_eq_iff {c other : Char} (h : other.toNat < 65) : lowerAscii c = other ↔ c = other := by
  constructor
  · rintro rfl
    rcases lowerAscii_cases c with hsame | ⟨hlow, -, hlowered⟩
    · exact hsame.symm
    · omega
  · rintro rfl
    exact lowerAscii_of_not_upper (.inl h)

theorem utf8Size_lowerAscii (c : Char) : (lowerAscii c).utf8Size = c.utf8Size := by
  have hascii : ∀ {c : Char}, c.toNat < 128 → c.utf8Size = 1 := by
    intro c h
    rw [Char.utf8Size_eq_one_iff, UInt32.le_iff_toNat_le]
    exact Nat.le_of_lt_succ h
  rcases lowerAscii_cases c with hsame | ⟨-, hhigh, hlowered⟩
  · rw [hsame]
  · rw [hascii (by omega : c.toNat < 128), hascii (by omega : (lowerAscii c).toNat < 128)]

section Texts

variable {text : Text}

theorem toAsciiLowercase_idem (text : Text) : toAsciiLowercase (toAsciiLowercase text) = toAsciiLowercase text := by
  rw [toAsciiLowercase, toAsciiLowercase, List.map_map]
  exact List.map_congr_left fun c _ => lowerAscii_lowerAscii c

theorem byteLength_toAsciiLowercase (text : Text) : byteLength (toAsciiLowercase text) = byteLength text :=
  byteLength_map_of_utf8Size utf8Size_lowerAscii text

/-- Taking a separator out and lower-casing do not interfere. -/
theorem filter_toAsciiLowercase {separator : Char} (h : separator.toNat < 65) (text : Text) :
    (toAsciiLowercase text).filter (· ≠ separator) = toAsciiLowercase (text.filter (· ≠ separator)) := by
  rw [toAsciiLowercase, List.filter_map, toAsciiLowercase]
  refine congrArg (List.map lowerAscii) (List.filter_congr fun c _ => ?_)
  rw [Function.comp_apply, decide_eq_decide]
  exact not_congr (lowerAscii_eq_iff h)

/-- The parts of a lower-cased text at a separator are those of the text. -/
theorem toAsciiLowercase_eq_append {separator : Char} (h : separator.toNat < 65) {front back : Text}
    (htext : toAsciiLowercase text = front ++ separator :: back) :
    ∃ before after, text = before ++ separator :: after ∧ toAsciiLowercase before = front
      ∧ toAsciiLowercase after = back := by
  obtain ⟨before, rest, rfl, hbefore, hrest⟩ := List.map_eq_append_iff.mp htext
  obtain ⟨c, after, rfl, hc, hafter⟩ := List.map_eq_cons_iff.mp hrest
  obtain rfl := (lowerAscii_eq_iff h).mp hc
  exact ⟨before, after, rfl, hbefore, hafter⟩

end Texts

/-! ### Digits -/

theorem hexValue_lowerAscii (c : Char) : hexValue (lowerAscii c) = hexValue c := by
  have hcode : ∀ code < 128, hexValue (lowerAscii (Char.ofNat code)) = hexValue (Char.ofNat code) := by decide
  rcases lowerAscii_cases c with hsame | ⟨-, hhigh, -⟩
  · rw [hsame]
  · have hchar := hcode c.toNat (by omega)
    rwa [Char.ofNat_toNat] at hchar

/-- A digit in lower case is the one that is written for its value. -/
theorem hexValue_eq_some {c : Char} {value : Nat} :
    hexValue c = some value ↔ value < 16 ∧ lowerAscii c = Nat.digitChar value := by
  constructor
  · intro h
    have hcode : ∀ code < 128, ∀ value ∈ hexValue (Char.ofNat code),
        value < 16 ∧ lowerAscii (Char.ofNat code) = Nat.digitChar value := by decide
    have hlt : c.toNat < 128 := by
      have hsize := utf8Size_of_hexValue (Option.isSome_iff_exists.mpr ⟨value, h⟩)
      rw [Char.utf8Size_eq_one_iff, UInt32.le_iff_toNat_le] at hsize
      exact Nat.lt_succ_of_le hsize
    have hchar := hcode c.toNat hlt value
    rw [Char.ofNat_toNat] at hchar
    exact hchar h
  · rintro ⟨hvalue, h⟩
    rw [← hexValue_lowerAscii, h, hexValue_digitChar value hvalue]

theorem hexadecimal_toAsciiLowercase (digits : Text) : hexadecimal (toAsciiLowercase digits) = hexadecimal digits := by
  rw [hexadecimal, hexadecimal, toAsciiLowercase, List.mapM_map]
  refine congrArg (Option.map _) (congrArg (fun read => digits.mapM read) ?_)
  funext c
  exact hexValue_lowerAscii c

/-- Bytes are read from the texts that are their digits in lower case. -/
theorem hexDecode_eq_some {digits : Text} {bytes : List (BitVec 8)} :
    hexDecode digits = some bytes ↔ toAsciiLowercase digits = hexEncode bytes := by
  fun_induction hexDecode digits generalizing bytes with
  | case1 =>
      cases bytes with
      | nil => exact iff_of_true rfl rfl
      | cons byte bytes =>
          refine iff_of_false (fun h => ?_) fun h => ?_
          · cases Option.some.inj h
          · rw [hexEncode_cons] at h
            exact List.cons_ne_nil _ _ h.symm
  | case2 high low digits ih =>
      cases bytes with
      | nil =>
          refine iff_of_false (fun h => ?_) fun h => List.cons_ne_nil _ _ h
          simp only [Option.bind_eq_bind, Option.bind_eq_some_iff, Option.pure_def, Option.some.injEq] at h
          obtain ⟨_, -, _, -, _, -, h⟩ := h
          exact List.cons_ne_nil _ _ h
      | cons byte bytes =>
          have hbyte := byte.isLt
          have hlower : toAsciiLowercase (high :: low :: digits)
              = lowerAscii high :: lowerAscii low :: toAsciiLowercase digits := rfl
          rw [hlower, hexEncode_cons, List.cons_eq_cons, List.cons_eq_cons, ← ih]
          simp only [Option.bind_eq_bind, Option.bind_eq_some_iff, Option.pure_def, Option.some.injEq, List.cons.injEq]
          constructor
          · rintro ⟨first, hfirst, second, hsecond, rest, hrest, rfl, rfl⟩
            obtain ⟨hlt, hfirst⟩ := hexValue_eq_some.mp hfirst
            obtain ⟨hlt', hsecond⟩ := hexValue_eq_some.mp hsecond
            have hvalue : (BitVec.ofNat 8 (first * 16 + second)).toNat = first * 16 + second := by
              rw [BitVec.toNat_ofNat]
              omega
            have hquotient : (first * 16 + second) / 16 = first := by omega
            have hremainder : (first * 16 + second) % 16 = second := by omega
            rw [hvalue, hquotient, hremainder]
            exact ⟨hfirst, hsecond, hrest⟩
          · rintro ⟨hhigh, hlow, hrest⟩
            have hfirst := hexValue_eq_some.mpr ⟨(by omega : byte.toNat / 16 < 16), hhigh⟩
            have hsecond := hexValue_eq_some.mpr ⟨(by omega : byte.toNat % 16 < 16), hlow⟩
            refine ⟨_, hfirst, _, hsecond, _, hrest, ?_, rfl⟩
            rw [Nat.div_add_mod', BitVec.ofNat_toNat, BitVec.setWidth_eq]
  | case3 c =>
      refine iff_of_false (fun h => by cases h) fun h => ?_
      cases bytes with
      | nil => exact List.cons_ne_nil _ _ h
      | cons byte bytes =>
          rw [hexEncode_cons] at h
          exact List.cons_ne_nil _ _ (List.cons.inj h).2.symm

end MetricBackend
