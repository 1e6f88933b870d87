import Mathlib.Data.List.Basic
import Mathlib.Tactic.Ring
import MetricBackend.LibText

/-! Codes that mark their own end. A code word followed by anything can be read back in one way, so that
code words may be written one after the other. Fixed-length codes, length-prefixed bytes, pairs and lists
of code words. -/

namespace MetricBackend

variable {α β γ : Type} {encode : α → List γ} {valid : α → Prop}

/-- A code word determines its value and where it ends, among the valid values. -/
def SelfDelimiting (encode : α → List γ) (valid : α → Prop) : Prop :=
  ∀ ⦃left right : α⦄ ⦃rest other : List γ⦄, valid left → valid right →
    encode left ++ rest = encode right ++ other → left = right ∧ rest = other

theorem SelfDelimiting.injective (h : SelfDelimiting encode valid) {left right : α} (hleft : valid left)
    (hright : valid right) (heq : encode left = encode right) : left = right := by
  have happend : encode left ++ [] = encode right ++ [] := by rw [heq]
  exact (h hleft hright happend).1

/-- A list of nonempty code words, up to the end of the input, can be read back in one way. -/
theorem SelfDelimiting.flatMap_injective (h : SelfDelimiting encode valid)
    (hnonempty : ∀ value, encode value ≠ []) {left right : List α} (hleft : ∀ value ∈ left, valid value)
    (hright : ∀ value ∈ right, valid value) (heq : left.flatMap encode = right.flatMap encode) :
    left = right := by
  induction left generalizing right with
  | nil =>
      cases right with
      | nil => rfl
      | cons value right =>
          rw [List.flatMap_nil, List.flatMap_cons] at heq
          exact absurd (List.append_eq_nil_iff.mp heq.symm).1 (hnonempty value)
  | cons value left ih =>
      cases right with
      | nil =>
          rw [List.flatMap_nil, List.flatMap_cons] at heq
          exact absurd (List.append_eq_nil_iff.mp heq).1 (hnonempty value)
      | cons other right =>
          rw [List.forall_mem_cons] at hleft hright
          rw [List.flatMap_cons, List.flatMap_cons] at heq
          obtain ⟨rfl, hrest⟩ := h hleft.1 hright.1 heq
          rw [ih hleft.2 hright.2 hrest]

/-! ### Numbers and texts -/

theorem length_bigEndian (width : Nat) (value : Int) : (bigEndian width value).length = width := by
  simp [bigEndian]

theorem bigEndian_succ (width value : Nat) :
    bigEndian (width + 1) value = BitVec.ofNat 8 (value / 256 ^ width) :: bigEndian width value := by
  have hpower : ((256 ^ width : Nat) : Int) = 256 ^ width := Int.natCast_pow 256 width
  have hdigit : BitVec.ofInt 8 ((value : Int) / 256 ^ width) = BitVec.ofNat 8 (value / 256 ^ width) := by
    rw [← hpower, ← Int.natCast_ediv, BitVec.ofInt_natCast]
  rw [bigEndian, List.range_succ_eq_map, List.map_cons, List.map_map, ← hdigit]
  refine congrArg _ (List.map_congr_left fun index _ => ?_)
  have hexponent : width + 1 - 1 - (index + 1) = width - 1 - index := by omega
  simp only [Function.comp_apply, Nat.succ_eq_add_one, hexponent]

theorem bigEndian_mod {width left right : Nat} (heq : bigEndian width left = bigEndian width right) :
    left % 256 ^ width = right % 256 ^ width := by
  induction width with
  | zero => simp [Nat.mod_one]
  | succ width ih =>
      rw [bigEndian_succ, bigEndian_succ, List.cons.injEq] at heq
      have hhead : left / 256 ^ width % 256 = right / 256 ^ width % 256 := by
        have := congrArg BitVec.toNat heq.1
        simpa using this
      rw [Nat.pow_succ, Nat.mod_mul, Nat.mod_mul, ih heq.2, hhead]

theorem bigEndian_injective {width left right : Nat} (hleft : left < 256 ^ width)
    (hright : right < 256 ^ width) (heq : bigEndian width left = bigEndian width right) :
    left = right := by
  have hmod := bigEndian_mod heq
  rwa [Nat.mod_eq_of_lt hleft, Nat.mod_eq_of_lt hright] at hmod

/-- Bytes after their length. -/
def lengthPrefixed (width : Nat) (bytes : List (BitVec 8)) : List (BitVec 8) :=
  bigEndian width bytes.length ++ bytes

theorem lengthPrefixed_selfDelimiting (width : Nat) :
    SelfDelimiting (lengthPrefixed width) fun bytes => bytes.length < 256 ^ width := by
  intro left right rest other hleft hright heq
  simp only [lengthPrefixed, List.append_assoc] at heq
  have hwidths : (bigEndian width left.length).length = (bigEndian width right.length).length := by
    rw [length_bigEndian, length_bigEndian]
  obtain ⟨hlength, hbytes⟩ := List.append_inj heq hwidths
  exact List.append_inj hbytes (bigEndian_injective hleft hright hlength)

theorem utf8Bytes_injective : Function.Injective utf8Bytes := by
  intro left right h
  have hlists : left.flatMap String.utf8EncodeChar = right.flatMap String.utf8EncodeChar := by
    have hmap : (left.flatMap String.utf8EncodeChar).map UInt8.toBitVec
        = (right.flatMap String.utf8EncodeChar).map UInt8.toBitVec := by
      rw [List.map_flatMap, List.map_flatMap]
      exact h
    exact List.map_injective_iff.mpr (fun _ _ => UInt8.toBitVec_inj.mp) hmap
  have hencode : left.utf8Encode = right.utf8Encode := by
    rw [List.utf8Encode, List.utf8Encode, hlists]
  have hstring : String.ofList left = String.ofList right := by
    apply String.toByteArray_inj.mp
    rw [String.toByteArray_ofList, String.toByteArray_ofList, hencode]
  exact String.ofList_inj.mp hstring

/-! ### Reading back -/

theorem hexValue_digitChar : ∀ digit < 16, hexValue (Nat.digitChar digit) = some digit := by decide

theorem hexEncode_cons (byte : BitVec 8) (rest : List (BitVec 8)) :
    hexEncode (byte :: rest)
      = Nat.digitChar (byte.toNat / 16) :: Nat.digitChar (byte.toNat % 16) :: hexEncode rest := rfl

theorem hexValue_high (byte : BitVec 8) : hexValue (Nat.digitChar (byte.toNat / 16)) = some (byte.toNat / 16) := by
  have hbyte : byte.toNat < 256 := byte.isLt
  exact hexValue_digitChar _ (by omega)

theorem hexValue_low (byte : BitVec 8) : hexValue (Nat.digitChar (byte.toNat % 16)) = some (byte.toNat % 16) :=
  hexValue_digitChar _ (by omega)

theorem hexDecode_hexEncode (bytes : List (BitVec 8)) : hexDecode (hexEncode bytes) = some bytes := by
  induction bytes with
  | nil => rfl
  | cons byte rest ih =>
      have hsum : BitVec.ofNat 8 (byte.toNat / 16 * 16 + byte.toNat % 16) = byte := by
        rw [Nat.div_add_mod', BitVec.ofNat_toNat, BitVec.setWidth_eq]
      rw [hexEncode_cons, hexDecode, hexValue_high, hexValue_low, ih]
      simp only [Option.bind_eq_bind, Option.bind_some, hsum]
      rfl

/-- The digits of a text are read as they were written. -/
theorem utf8Size_of_hexValue {c : Char} (h : (hexValue c).isSome) : c.utf8Size = 1 := by
  unfold hexValue at h
  have hle : c.val ≤ 0x7f := by
    split_ifs at h with hdigit hlower hupper
    · exact UInt32.le_trans hdigit.2 (by decide)
    · exact UInt32.le_trans hlower.2 (by decide)
    · exact UInt32.le_trans hupper.2 (by decide)
    · cases h
  exact if_pos hle

theorem byteLength_of_hexValue {digits : Text} (h : ∀ c ∈ digits, (hexValue c).isSome) :
    byteLength digits = digits.length :=
  byteLength_of_utf8Size fun c hc => utf8Size_of_hexValue (h c hc)

/-- Pairs of digits are bytes. -/
theorem exists_hexDecode : ∀ {digits : Text} (_ : ∀ c ∈ digits, (hexValue c).isSome) (_ : digits.length % 2 = 0),
    ∃ bytes, hexDecode digits = some bytes
  | [], _, _ => ⟨[], rfl⟩
  | [_], _, h => absurd h Nat.one_ne_zero
  | high :: low :: rest, hdigits, hlength => by
      simp only [List.forall_mem_cons] at hdigits
      obtain ⟨hhigh, hlow, hrest⟩ := hdigits
      obtain ⟨first, hfirst⟩ := Option.isSome_iff_exists.mp hhigh
      obtain ⟨second, hsecond⟩ := Option.isSome_iff_exists.mp hlow
      obtain ⟨bytes, hbytes⟩ := exists_hexDecode hrest (by simp only [List.length_cons] at hlength; omega)
      exact ⟨_, by rw [hexDecode, hfirst, hsecond, hbytes]; rfl⟩

theorem hexadecimal_hexEncode (bytes : List (BitVec 8)) :
    hexadecimal (hexEncode bytes) = some (readBigEndian bytes) := by
  have hdigits : (hexEncode bytes).mapM hexValue
      = some (bytes.flatMap fun byte => [byte.toNat / 16, byte.toNat % 16]) := by
    induction bytes with
    | nil => rfl
    | cons byte rest ih =>
        rw [hexEncode_cons, List.mapM_cons, List.mapM_cons, hexValue_high, hexValue_low, ih]
        rfl
  rw [hexadecimal, hdigits, Option.map_some, readBigEndian, List.foldl_flatMap]
  refine congrArg some (congrArg (fun step => bytes.foldl step 0) ?_)
  funext total byte
  simp only [List.foldl_cons, List.foldl_nil]
  omega

theorem readBigEndian_append_singleton (bytes : List (BitVec 8)) (byte : BitVec 8) :
    readBigEndian (bytes ++ [byte]) = readBigEndian bytes * 256 + byte.toNat := by
  rw [readBigEndian, List.foldl_append]
  rfl

theorem bigEndian_succ_append (width : Nat) (value : Int) :
    bigEndian (width + 1) value = bigEndian width (value / 256) ++ [BitVec.ofInt 8 value] := by
  rw [bigEndian, List.range_succ, List.map_append, bigEndian]
  congr 1
  · refine List.map_congr_left fun index hindex => ?_
    have hlt := List.mem_range.mp hindex
    have hexponent : width + 1 - 1 - index = width - 1 - index + 1 := by omega
    rw [hexponent, pow_succ', Int.ediv_ediv_of_nonneg (by omega)]
  · simp

/-- The bytes of a number are read back up to their width. -/
theorem readBigEndian_bigEndian (width : Nat) (value : Int) :
    (readBigEndian (bigEndian width value) : Int) = value % 256 ^ width := by
  induction width generalizing value with
  | zero => simp [bigEndian, readBigEndian]
  | succ width ih =>
      have hbyte : ((BitVec.ofInt 8 value).toNat : Int) = value % 256 := by
        rw [BitVec.toNat_ofInt]
        exact Int.toNat_of_nonneg (Int.emod_nonneg _ (by decide))
      have hquotient : value / 256 / 256 ^ width = value / (256 * 256 ^ width) :=
        Int.ediv_ediv_of_nonneg (by decide)
      rw [bigEndian_succ_append, readBigEndian_append_singleton, Nat.cast_add, Nat.cast_mul, ih, hbyte,
        pow_succ', Int.emod_def, Int.emod_def, Int.emod_def, hquotient]
      push_cast
      ring

end MetricBackend
