import Mathlib.Tactic.Ring
import MetricBackend.LibBytes
import MetricBackend.LibSplits

/-! Slices of a text at byte positions. A position inside a text is described by what is left of the text there, and a
byte of the ASCII range stands only where its character does. -/

namespace MetricBackend

/-- The text from a byte position on; `none` past the end and inside a character. -/
def dropBytes : Nat → Text → Option Text
  | 0, text => some text
  | _ + 1, [] => none
  | count + 1, c :: rest => if c.utf8Size ≤ count + 1 then dropBytes (count + 1 - c.utf8Size) rest else none

/-- The first bytes of a text; `none` past the end and inside a character. -/
def takeBytes : Nat → Text → Option Text
  | 0, _ => some []
  | _ + 1, [] => none
  | count + 1, c :: rest =>
      if c.utf8Size ≤ count + 1 then (takeBytes (count + 1 - c.utf8Size) rest).map (c :: ·) else none

/-- `str::get` of a range. -/
def sliceBytes (text : Text) (start stop : Nat) : Option Text :=
  if start ≤ stop then (dropBytes start text).bind (takeBytes (stop - start)) else none

/-- `str::rsplit_once` at a character. -/
def rsplitOnce (separator : Char) (text : Text) : Option (Text × Text) :=
  (splitOnce separator text.reverse).map fun parts => (parts.2.reverse, parts.1.reverse)

/-- A byte literal `b'c'`. -/
def byteOf (c : Char) : BitVec 8 := BitVec.ofNat 8 c.toNat

/-- `u8::is_ascii_digit`. -/
def isAsciiDigit (byte : BitVec 8) : Bool := 48 ≤ byte.toNat && byte.toNat ≤ 57

/-- `str::parse::<u32>`: an optional plus sign and decimal digits with a value of 32 bits. -/
def parseU32 (text : Text) : Option Nat := (parseU64 text).filter (· < 2 ^ 32)

section Slices

variable {text part rest : Text} {count more start stop : Nat}

@[simp] theorem dropBytes_zero (text : Text) : dropBytes 0 text = some text := by
  rw [dropBytes]

theorem dropBytes_eq_some :
    dropBytes count text = some rest ↔ ∃ front, text = front ++ rest ∧ byteLength front = count := by
  constructor
  · intro h
    induction count, text using dropBytes.induct with
    | case1 text =>
        rw [dropBytes, Option.some_inj] at h
        exact ⟨[], h, rfl⟩
    | case2 => cases h
    | case3 count c text hle ih =>
        rw [dropBytes, if_pos hle] at h
        obtain ⟨front, rfl, hfront⟩ := ih h
        refine ⟨c :: front, rfl, ?_⟩
        rw [byteLength_cons]
        omega
    | case4 count c text hle =>
        rw [dropBytes, if_neg hle] at h
        cases h
  · rintro ⟨front, rfl, rfl⟩
    induction front with
    | nil => rw [byteLength_nil, dropBytes, List.nil_append]
    | cons c front ih =>
        obtain ⟨size, hsize⟩ := Nat.exists_eq_succ_of_ne_zero c.utf8Size_pos.ne'
        rw [byteLength_cons, hsize, Nat.succ_add, List.cons_append, dropBytes, if_pos (by omega), hsize,
          show size + byteLength front + 1 - size.succ = byteLength front by omega]
        exact ih

theorem takeBytes_eq_some :
    takeBytes count text = some part ↔ ∃ rest, text = part ++ rest ∧ byteLength part = count := by
  constructor
  · intro h
    induction count, text using takeBytes.induct generalizing part with
    | case1 text =>
        rw [takeBytes, Option.some_inj] at h
        exact ⟨text, by rw [← h, List.nil_append], by rw [← h, byteLength_nil]⟩
    | case2 => cases h
    | case3 count c text hle ih =>
        rw [takeBytes, if_pos hle, Option.map_eq_some_iff] at h
        obtain ⟨part, hpart, rfl⟩ := h
        obtain ⟨rest, rfl, hlength⟩ := ih hpart
        refine ⟨rest, rfl, ?_⟩
        rw [byteLength_cons]
        omega
    | case4 count c text hle =>
        rw [takeBytes, if_neg hle] at h
        cases h
  · rintro ⟨rest, rfl, rfl⟩
    induction part with
    | nil => rw [byteLength_nil, takeBytes]
    | cons c part ih =>
        obtain ⟨size, hsize⟩ := Nat.exists_eq_succ_of_ne_zero c.utf8Size_pos.ne'
        rw [byteLength_cons, hsize, Nat.succ_add, List.cons_append, takeBytes, if_pos (by omega), hsize,
          show size + byteLength part + 1 - size.succ = byteLength part by omega, ih]
        rfl

/-- What is left at a position is left from there on. -/
theorem dropBytes_add (h : dropBytes count text = some part) : dropBytes (count + more) text = dropBytes more part := by
  obtain ⟨front, rfl, rfl⟩ := dropBytes_eq_some.mp h
  refine Option.ext fun rest => ?_
  rw [dropBytes_eq_some, dropBytes_eq_some]
  constructor
  · rintro ⟨longer, hlonger, hlength⟩
    rcases List.append_eq_append_iff.mp hlonger with ⟨middle, rfl, hmiddle⟩ | ⟨middle, rfl, hrest⟩
    · exact ⟨middle, hmiddle, by rw [byteLength_append] at hlength; omega⟩
    · -- The longer start is no longer, so nothing is between the two.
      rw [byteLength_append] at hlength
      cases middle with
      | nil => exact ⟨[], hrest.symm, by rw [byteLength_nil] at hlength ⊢; omega⟩
      | cons c middle =>
          rw [byteLength_cons] at hlength
          have := c.utf8Size_pos
          omega
  · rintro ⟨middle, rfl, rfl⟩
    exact ⟨front ++ middle, (List.append_assoc _ _ _).symm, byteLength_append _ _⟩

theorem dropBytes_append (h : dropBytes count text = some (part ++ rest)) :
    dropBytes (count + byteLength part) text = some rest := by
  rw [dropBytes_add h, dropBytes_eq_some]
  exact ⟨part, rfl, rfl⟩

theorem byteLength_eq_zero : byteLength text = 0 ↔ text = [] := by
  cases text with
  | nil => exact iff_of_true rfl rfl
  | cons c rest =>
      refine iff_of_false ?_ (List.cons_ne_nil c rest)
      rw [byteLength_cons]
      have := c.utf8Size_pos
      omega

theorem drop_utf8Bytes (h : dropBytes count text = some rest) : (utf8Bytes text).drop count = utf8Bytes rest := by
  obtain ⟨front, rfl, rfl⟩ := dropBytes_eq_some.mp h
  rw [utf8Bytes_append, ← length_utf8Bytes]
  exact List.drop_left

theorem byteLength_of_dropBytes (h : dropBytes count text = some rest) :
    byteLength text = count + byteLength rest := by
  obtain ⟨front, rfl, rfl⟩ := dropBytes_eq_some.mp h
  exact byteLength_append front rest

theorem sliceBytes_eq_some : sliceBytes text start stop = some part
    ↔ ∃ rest, dropBytes start text = some (part ++ rest) ∧ start + byteLength part = stop := by
  rw [sliceBytes, Option.ite_none_right_eq_some, Option.bind_eq_some_iff]
  constructor
  · rintro ⟨hle, left, hleft, hpart⟩
    obtain ⟨rest, rfl, hlength⟩ := takeBytes_eq_some.mp hpart
    exact ⟨rest, hleft, by omega⟩
  · rintro ⟨rest, hleft, rfl⟩
    refine ⟨Nat.le_add_right _ _, _, hleft, takeBytes_eq_some.mpr ⟨rest, rfl, ?_⟩⟩
    omega

end Slices

/-! ### ASCII -/

section Ascii

variable {text rest digits : Text} {c : Char} {count : Nat}

theorem utf8Size_of_ascii (h : c.toNat < 128) : c.utf8Size = 1 := by
  rw [Char.utf8Size_eq_one_iff, UInt32.le_iff_toNat_le]
  exact Nat.le_of_lt_succ h

theorem utf8Bytes_ascii (h : c.toNat < 128) : utf8Bytes (c :: rest) = byteOf c :: utf8Bytes rest := by
  rw [utf8Bytes_cons, String.utf8EncodeChar_eq_singleton (utf8Size_of_ascii h)]
  rfl

/-- The byte of an ASCII character stands where the character does. -/
theorem getElem?_utf8Bytes (h : c.toNat < 128) :
    (utf8Bytes text)[count]? = some (byteOf c) ↔ ∃ rest, dropBytes count text = some (c :: rest) := by
  have hbytes : utf8Bytes [c] = [byteOf c] := utf8Bytes_ascii h
  constructor
  · intro hget
    obtain ⟨hlt, hbyte⟩ := List.getElem?_eq_some_iff.mp hget
    have hsplit : (utf8Bytes text).take count ++ utf8Bytes [c] ++ (utf8Bytes text).drop (count + 1)
        = utf8Bytes text := by
      rw [hbytes, ← hbyte, List.append_assoc, List.singleton_append, ← List.drop_eq_getElem_cons hlt,
        List.take_append_drop]
    obtain ⟨front, back, rfl, hfront, -⟩ := exists_of_utf8Bytes_infix (List.cons_ne_nil c []) hsplit
    refine ⟨back, dropBytes_eq_some.mpr ⟨front, by rw [List.append_assoc]; rfl, ?_⟩⟩
    rw [← length_utf8Bytes, hfront, List.length_take, Nat.min_eq_left hlt.le]
  · rintro ⟨rest, hrest⟩
    obtain ⟨front, rfl, rfl⟩ := dropBytes_eq_some.mp hrest
    rw [utf8Bytes_append, ← length_utf8Bytes, List.getElem?_append_right (Nat.le_refl _), Nat.sub_self,
      utf8Bytes_ascii h]
    rfl

theorem isDigit_iff : c.isDigit = true ↔ 48 ≤ c.toNat ∧ c.toNat ≤ 57 := by
  rw [Char.isDigit, Bool.and_eq_true, decide_eq_true_iff, decide_eq_true_iff, ge_iff_le, UInt32.le_iff_toNat_le,
    UInt32.le_iff_toNat_le]
  rfl

theorem ascii_of_isDigit (h : c.isDigit = true) : c.toNat < 128 := by
  rw [isDigit_iff] at h
  omega

theorem isAsciiDigit_byteOf (h : c.toNat < 128) : isAsciiDigit (byteOf c) = c.isDigit := by
  have htoNat : (byteOf c).toNat = c.toNat := by
    rw [byteOf, BitVec.toNat_ofNat]
    omega
  rw [Bool.eq_iff_iff, isDigit_iff, isAsciiDigit, htoNat, Bool.and_eq_true, decide_eq_true_iff, decide_eq_true_iff]

/-- A digit byte is the byte of a digit. -/
theorem exists_digit {byte : BitVec 8} (h : isAsciiDigit byte = true) :
    ∃ c : Char, c.isDigit = true ∧ byte = byteOf c := by
  rw [isAsciiDigit, Bool.and_eq_true, decide_eq_true_iff, decide_eq_true_iff] at h
  have hvalid : byte.toNat.isValidChar := .inl (by omega)
  have htoNat : (Char.ofNat byte.toNat).toNat = byte.toNat := by
    rw [Char.ofNat, dif_pos hvalid]
    rfl
  refine ⟨Char.ofNat byte.toNat, isDigit_iff.mpr (by omega), ?_⟩
  rw [byteOf, htoNat, BitVec.ofNat_toNat, BitVec.setWidth_eq]

theorem utf8Bytes_digit (h : c.isDigit = true) :
    utf8Bytes (c :: rest) = byteOf c :: utf8Bytes rest ∧ isAsciiDigit (byteOf c) = true :=
  ⟨utf8Bytes_ascii (ascii_of_isDigit h), (isAsciiDigit_byteOf (ascii_of_isDigit h)).trans h⟩

/-- No digit byte is the first one of another character. -/
theorem utf8Bytes_not_digit (h : ¬ c.isDigit = true) :
    ∃ byte back, utf8Bytes (c :: rest) = byte :: back ∧ ¬ isAsciiDigit byte = true := by
  obtain ⟨byte, back, hbytes, -⟩ := @exists_leads c rest
  refine ⟨byte, back, hbytes, fun hbyte => ?_⟩
  obtain ⟨digit, hdigit, rfl⟩ := exists_digit hbyte
  have hget : (utf8Bytes (c :: rest))[0]? = some (byteOf digit) := by
    rw [hbytes]
    rfl
  obtain ⟨others, hothers⟩ := (getElem?_utf8Bytes (ascii_of_isDigit hdigit)).mp hget
  rw [dropBytes, Option.some_inj, List.cons.injEq] at hothers
  exact h (hothers.1 ▸ hdigit)

/-- The digit bytes at the start of a text are those of its digits. -/
theorem takeWhile_utf8Bytes (text : Text) :
    (utf8Bytes text).takeWhile isAsciiDigit = (text.takeWhile Char.isDigit).map byteOf := by
  induction text with
  | nil => rfl
  | cons c rest ih =>
      by_cases hc : c.isDigit = true
      · obtain ⟨hbytes, hdigit⟩ := @utf8Bytes_digit rest c hc
        rw [hbytes, List.takeWhile_cons_of_pos hdigit, List.takeWhile_cons_of_pos hc, List.map_cons, ih]
      · obtain ⟨byte, back, hbytes, hbyte⟩ := @utf8Bytes_not_digit rest c hc
        rw [hbytes, List.takeWhile_cons_of_neg hbyte, List.takeWhile_cons_of_neg hc, List.map_nil]

/-- The bytes of a text are digits when its characters are. -/
theorem all_isAsciiDigit (text : Text) : (utf8Bytes text).all isAsciiDigit = text.all Char.isDigit := by
  induction text with
  | nil => rfl
  | cons c rest ih =>
      by_cases hc : c.isDigit = true
      · obtain ⟨hbytes, hdigit⟩ := @utf8Bytes_digit rest c hc
        rw [hbytes, List.all_cons, List.all_cons, ih, hdigit, hc]
      · obtain ⟨byte, back, hbytes, hbyte⟩ := @utf8Bytes_not_digit rest c hc
        rw [hbytes, List.all_cons, List.all_cons, Bool.eq_false_iff.mpr hbyte, Bool.eq_false_iff.mpr hc,
          Bool.false_and, Bool.false_and]

theorem byteLength_digits (h : ∀ c ∈ digits, c.isDigit = true) : byteLength digits = digits.length :=
  byteLength_of_utf8Size fun c hc => utf8Size_of_ascii (ascii_of_isDigit (h c hc))

end Ascii

/-! ### Numbers of digits -/

section Numbers

variable {digits : Text}

theorem appendDigits_eq (start : Nat) (digits : Text) :
    appendDigits start digits = start * 10 ^ digits.length + appendDigits 0 digits := by
  induction digits generalizing start with
  | nil => rw [List.length_nil, Nat.pow_zero, Nat.mul_one]; rfl
  | cons c digits ih =>
      have hleft := ih (start * 10 + (c.toNat - 48))
      have hright := ih (0 * 10 + (c.toNat - 48))
      have hcons : ∀ first, appendDigits first (c :: digits) = appendDigits (first * 10 + (c.toNat - 48)) digits :=
        fun first => rfl
      rw [hcons, hcons, hleft, hright, List.length_cons, Nat.pow_succ]
      ring

theorem appendDigits_append (left right : Text) :
    appendDigits 0 (left ++ right) = appendDigits 0 left * 10 ^ right.length + appendDigits 0 right := by
  rw [← appendDigits_eq, appendDigits, List.foldl_append]
  rfl

theorem appendDigits_lt (h : ∀ c ∈ digits, c.isDigit = true) : appendDigits 0 digits < 10 ^ digits.length := by
  induction digits with
  | nil => decide
  | cons c digits ih =>
      rw [List.forall_mem_cons] at h
      have hrest := ih h.2
      have hvalue : appendDigits 0 (c :: digits) = (c.toNat - 48) * 10 ^ digits.length + appendDigits 0 digits := by
        rw [← List.singleton_append, appendDigits_append]
        simp [appendDigits]
      have hdigit := isDigit_iff.mp h.1
      have hle : (c.toNat - 48) * 10 ^ digits.length ≤ 9 * 10 ^ digits.length := Nat.mul_le_mul_right _ (by omega)
      rw [hvalue, List.length_cons, Nat.pow_succ]
      omega

theorem digitsValue_digits (hne : digits ≠ []) (h : ∀ c ∈ digits, c.isDigit = true) :
    digitsValue digits = some (appendDigits 0 digits) := by
  rw [digitsValue, if_neg (by simpa using hne), decimal_eq_some.mpr ⟨h, rfl⟩]

theorem ne_cons_of_digits {sign : Char} (hsign : ¬ sign.isDigit = true) (h : ∀ c ∈ digits, c.isDigit = true)
    (rest : Text) : digits ≠ sign :: rest := by
  rintro rfl
  exact hsign (h sign List.mem_cons_self)

theorem parseU32_digits (hne : digits ≠ []) (h : ∀ c ∈ digits, c.isDigit = true)
    (hbound : appendDigits 0 digits < 2 ^ 32) : parseU32 digits = some (appendDigits 0 digits) := by
  have hparse : parseU64 digits = some (appendDigits 0 digits) := by
    rw [parseU64]
    · rw [digitsValue_digits hne h, Option.filter_some, if_pos]
      exact decide_eq_true (hbound.trans (by decide))
    · exact ne_cons_of_digits (by decide) h
  rw [parseU32, hparse, Option.filter_some, if_pos (decide_eq_true hbound)]

theorem parseI64_digits (hne : digits ≠ []) (h : ∀ c ∈ digits, c.isDigit = true)
    (hbound : appendDigits 0 digits < 2 ^ 63) : parseI64 digits = some (appendDigits 0 digits : Int) := by
  rw [parseI64]
  · rw [digitsValue_digits hne h]
    simpa using hbound
  · exact ne_cons_of_digits (by decide) h
  · exact ne_cons_of_digits (by decide) h

end Numbers

end MetricBackend
