import Mathlib.Data.List.Lex
import MetricBackend.LibCodes

/-! Strings of bytes: their lexicographic order, and the UTF-8 bytes of a text as a code, with how they are read
back and what a run of them inside the bytes of another text says about the two texts. -/

namespace MetricBackend

/-! ### Order -/

instance linearOrderBitVec (width : Nat) : LinearOrder (BitVec width) where
  le_refl := BitVec.le_refl
  le_trans _ _ _ := BitVec.le_trans
  lt_iff_le_not_ge _ _ := ⟨fun h => ⟨BitVec.le_of_lt h, BitVec.not_le.mpr h⟩, fun h => BitVec.not_le.mp h.2⟩
  le_antisymm _ _ := BitVec.le_antisymm
  le_total := BitVec.le_total
  toDecidableLE := inferInstance

instance transCmpIdentity : Std.TransCmp (compare : BitVec 128 → BitVec 128 → Ordering) := inferInstance

/-- Of strings with starts of one length, the starts are compared first. -/
theorem append_lt_append_iff {α : Type} [LinearOrder α] {left right left' right' : List α}
    (h : left.length = right.length) :
    left ++ left' < right ++ right' ↔ left < right ∨ left = right ∧ left' < right' := by
  induction left generalizing right with
  | nil =>
      obtain rfl : right = [] := List.length_eq_zero_iff.mp h.symm
      simp
  | cons first left ih =>
      cases right with
      | nil => simp at h
      | cons other right =>
          rw [List.cons_append, List.cons_append, List.cons_lt_cons_iff, List.cons_lt_cons_iff,
            ih (Nat.succ.inj h), List.cons.injEq]
          constructor
          · rintro (hlt | ⟨rfl, hlt | ⟨rfl, hlt⟩⟩)
            · exact .inl (.inl hlt)
            · exact .inl (.inr ⟨rfl, hlt⟩)
            · exact .inr ⟨⟨rfl, rfl⟩, hlt⟩
          · rintro ((hlt | ⟨rfl, hlt⟩) | ⟨⟨rfl, rfl⟩, hlt⟩)
            · exact .inl hlt
            · exact .inr ⟨rfl, .inl hlt⟩
            · exact .inr ⟨rfl, .inr ⟨rfl, hlt⟩⟩

/-! ### UTF-8 -/

def toByteArray (bytes : List (BitVec 8)) : ByteArray := ⟨(bytes.map UInt8.ofBitVec).toArray⟩

/-- `String::from_utf8`. -/
def fromUtf8 (bytes : List (BitVec 8)) : Option Text := (toByteArray bytes).utf8Decode?.map Array.toList

section Bytes

variable {text part : Text} {before after : List (BitVec 8)}

theorem utf8Bytes_append (left right : Text) : utf8Bytes (left ++ right) = utf8Bytes left ++ utf8Bytes right :=
  List.flatMap_append

theorem utf8Bytes_cons (c : Char) (rest : Text) :
    utf8Bytes (c :: rest) = (String.utf8EncodeChar c).map UInt8.toBitVec ++ utf8Bytes rest :=
  List.flatMap_cons

theorem toByteArray_append (left right : List (BitVec 8)) :
    toByteArray (left ++ right) = toByteArray left ++ toByteArray right := by
  apply ByteArray.ext
  simp [toByteArray, ByteArray.data_append]

theorem toByteArray_utf8Bytes (text : Text) : toByteArray (utf8Bytes text) = text.utf8Encode := by
  have hbytes : (utf8Bytes text).map UInt8.ofBitVec = text.flatMap String.utf8EncodeChar := by
    rw [utf8Bytes, List.map_flatMap]
    congr 1
    funext c
    rw [List.map_map]
    exact List.map_id _
  apply ByteArray.ext
  rw [toByteArray, hbytes, List.utf8Encode]
  simp

theorem fromUtf8_utf8Bytes (text : Text) : fromUtf8 (utf8Bytes text) = some text := by
  rw [fromUtf8, toByteArray_utf8Bytes, List.utf8Decode?_utf8Encode, Option.map_some]

theorem isPrefix_of_utf8Bytes (h : utf8Bytes part ++ after = utf8Bytes text) : part <+: text := by
  apply List.isPrefix_of_utf8Encode_append_eq_utf8Encode (toByteArray after)
  rw [← toByteArray_utf8Bytes, ← toByteArray_utf8Bytes, ← toByteArray_append, h]

/-- The first byte of a character. -/
def leads (byte : BitVec 8) : Prop := (UInt8.ofBitVec byte).IsUTF8FirstByte

/-- A byte of a character leads only at its start. -/
theorem leads_getElem {c : Char} {front back : List (BitVec 8)} {byte : BitVec 8}
    (h : (String.utf8EncodeChar c).map UInt8.toBitVec = front ++ byte :: back) : leads byte ↔ front = [] := by
  have hget : ((String.utf8EncodeChar c).map UInt8.toBitVec)[front.length]? = some byte := by
    rw [h]
    simp
  rw [List.getElem?_map, Option.map_eq_some_iff] at hget
  obtain ⟨encoded, hencoded, rfl⟩ := hget
  obtain ⟨hlt, rfl⟩ := List.getElem?_eq_some_iff.mp hencoded
  rw [leads, UInt8.ofBitVec_toBitVec, UInt8.isUTF8FirstByte_getElem_utf8EncodeChar, List.length_eq_zero_iff]

/-- A text starts with a byte that leads. -/
theorem exists_leads {c : Char} {rest : Text} : ∃ byte back, utf8Bytes (c :: rest) = byte :: back ∧ leads byte := by
  have hne : (String.utf8EncodeChar c).map UInt8.toBitVec ≠ [] := by simp
  obtain ⟨byte, back, hbytes⟩ := List.exists_cons_of_ne_nil hne
  refine ⟨byte, back ++ utf8Bytes rest, by rw [utf8Bytes_cons, hbytes, List.cons_append], ?_⟩
  have hfirst : (String.utf8EncodeChar c).map UInt8.toBitVec = [] ++ byte :: back := hbytes
  exact (leads_getElem hfirst).mpr rfl

/-- The bytes of a character are all in front of an occurrence, unless it starts there. -/
theorem exists_before_of_leads {c : Char} {rest back : List (BitVec 8)} {byte : BitVec 8} (hbyte : leads byte)
    (hbefore : before ≠ []) (h : before ++ byte :: back = (String.utf8EncodeChar c).map UInt8.toBitVec ++ rest) :
    ∃ before', before = (String.utf8EncodeChar c).map UInt8.toBitVec ++ before' ∧ before' ++ byte :: back = rest := by
  rcases List.append_eq_append_iff.mp h with ⟨inner, hchar, hinner⟩ | ⟨before', hbefore', hrest⟩
  · cases inner with
    | nil => exact ⟨[], by rw [hchar, List.append_nil, List.append_nil], hinner⟩
    | cons first inner =>
        obtain ⟨rfl, -⟩ := List.cons.inj hinner
        exact absurd ((leads_getElem hchar).mp hbyte) hbefore
  · exact ⟨before', hbefore', hrest.symm⟩

/-- The bytes of a text that is not empty occur in those of another text only at its occurrences. -/
theorem exists_of_utf8Bytes_infix (hpart : part ≠ []) (h : before ++ utf8Bytes part ++ after = utf8Bytes text) :
    ∃ front back, text = front ++ part ++ back ∧ utf8Bytes front = before ∧ utf8Bytes back = after := by
  obtain ⟨first, others, rfl⟩ := List.exists_cons_of_ne_nil hpart
  obtain ⟨byte, bytes, hbytes, hbyte⟩ := @exists_leads first others
  induction text generalizing before with
  | nil =>
      rw [hbytes] at h
      simp [utf8Bytes] at h
  | cons c rest ih =>
      by_cases hbefore : before = []
      · subst hbefore
        rw [List.nil_append] at h
        obtain ⟨back, hback⟩ := isPrefix_of_utf8Bytes h
        rw [← hback, utf8Bytes_append, List.append_cancel_left_eq] at h
        exact ⟨[], back, hback.symm, rfl, h.symm⟩
      · rw [List.append_assoc, hbytes, List.cons_append, utf8Bytes_cons] at h
        obtain ⟨before', rfl, hrest⟩ := exists_before_of_leads hbyte hbefore h
        rw [← List.cons_append, ← hbytes, ← List.append_assoc] at hrest
        obtain ⟨front, back, rfl, rfl, hback⟩ := ih hrest
        exact ⟨c :: front, back, rfl, utf8Bytes_cons c front, hback⟩

/-! ### Occurrences -/

end Bytes

end MetricBackend
