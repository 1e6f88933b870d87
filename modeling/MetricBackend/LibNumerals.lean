import Mathlib.Data.List.Induction
import Mathlib.Data.Nat.Digits.Defs
import MetricBackend.LibCodes
import MetricBackend.LibMarks
import MetricBackend.LibSlices

/-! Numbers written in a base and read back, and the big-endian bytes of a fixed width, which stand for one number
each. -/

namespace MetricBackend

/-! ### Numerals -/

/-- The number that digits spell in a base, when each of them is read. -/
def baseValue (read : Char → Option Nat) (base : Nat) (digits : Text) : Option Nat :=
  digits.foldlM (fun total c => (read c).map (total * base + ·)) 0

/-- The numeral of a number that is not zero; zero has no digits. -/
def numeral (write : Nat → Char) (base value : Nat) : Text := (Nat.digits base value).reverse.map write

section Numerals

variable {read : Char → Option Nat} {write : Nat → Char} {base value : Nat}

theorem baseValue_append_singleton (digits : Text) (c : Char) : baseValue read base (digits ++ [c])
    = (baseValue read base digits).bind fun total => (read c).map (total * base + ·) := by
  rw [baseValue, List.foldlM_append, baseValue]
  refine congrArg (Option.bind _) ?_
  funext total
  rw [List.foldlM_cons]
  cases read c with
  | none => rfl
  | some digit => rfl

theorem numeral_eq (hbase : 1 < base) (hvalue : 0 < value) :
    numeral write base value = numeral write base (value / base) ++ [write (value % base)] := by
  rw [numeral, Nat.digits_def' hbase hvalue, List.reverse_cons, List.map_append]
  rfl

/-- A numeral is read as its number. -/
theorem baseValue_numeral (hbase : 1 < base) (hdigit : ∀ digit < base, read (write digit) = some digit) (value : Nat) :
    baseValue read base (numeral write base value) = some value := by
  induction value using Nat.strong_induction_on with
  | _ value ih =>
    by_cases hvalue : value = 0
    · rw [hvalue, numeral, Nat.digits_zero]
      rfl
    · have hpos := Nat.pos_of_ne_zero hvalue
      rw [numeral_eq hbase hpos, baseValue_append_singleton, ih _ (Nat.div_lt_self hpos hbase), Option.bind_some,
        hdigit _ (Nat.mod_lt _ (by omega)), Option.map_some, Nat.div_add_mod']

theorem numeral_ne_nil (hvalue : value ≠ 0) (hbase : 1 < base) : numeral write base value ≠ [] := by
  rw [numeral_eq hbase (Nat.pos_of_ne_zero hvalue)]
  exact List.concat_ne_nil _ _

theorem mem_numeral (hbase : 1 < base) {c : Char} (h : c ∈ numeral write base value) :
    ∃ digit < base, c = write digit := by
  obtain ⟨digit, hdigit, rfl⟩ := List.mem_map.mp h
  exact ⟨digit, Nat.digits_lt_base hbase (List.mem_reverse.mp hdigit), rfl⟩

/-- The numerals of `fmt` are these, but for zero. -/
theorem toDigits_eq_numeral (hbase : 1 < base) (hvalue : value ≠ 0) :
    Nat.toDigits base value = numeral Nat.digitChar base value := by
  induction value using Nat.strong_induction_on with
  | _ value ih =>
    rw [numeral_eq hbase (Nat.pos_of_ne_zero hvalue)]
    by_cases hlt : value < base
    · rw [Nat.toDigits_of_lt_base hlt, Nat.div_eq_of_lt hlt, Nat.mod_eq_of_lt hlt, numeral, Nat.digits_zero]
      rfl
    · have hle := not_lt.mp hlt
      rw [Nat.toDigits_of_base_le hbase hle, ih _ (Nat.div_lt_self (Nat.pos_of_ne_zero hvalue) hbase)]
      exact (Nat.div_pos hle (by omega)).ne'

theorem baseValue_toDigits (hbase : 1 < base) (hdigit : ∀ digit < base, read (Nat.digitChar digit) = some digit)
    (value : Nat) : baseValue read base (Nat.toDigits base value) = some value := by
  by_cases hvalue : value = 0
  · have hzero : read '0' = some 0 := hdigit 0 (by omega)
    rw [hvalue, Nat.toDigits_zero, baseValue, List.foldlM_cons, hzero]
    simp
  · rw [toDigits_eq_numeral hbase hvalue, baseValue_numeral hbase hdigit]

theorem baseValue_zeros (hzero : read '0' = some 0) (count : Nat) (digits : Text) :
    baseValue read base (List.replicate count '0' ++ digits) = baseValue read base digits := by
  induction count with
  | zero => rfl
  | succ count ih =>
      rw [List.replicate_succ, List.cons_append, baseValue, List.foldlM_cons, hzero, Option.map_some,
        Option.bind_eq_bind, Option.bind_some, Nat.zero_mul, ← baseValue, ih]

end Numerals

theorem hexadecimal_eq_baseValue (digits : Text) : hexadecimal digits = baseValue hexValue 16 digits := by
  induction digits using List.reverseRecOn with
  | nil => rfl
  | append_singleton digits c ih =>
      rw [baseValue_append_singleton, ← ih, hexadecimal, hexadecimal, List.mapM_append]
      cases digits.mapM hexValue with
      | none => rfl
      | some values =>
          rw [List.mapM_cons]
          cases hexValue c with
          | none => rfl
          | some digit => simp

theorem hexadecimal_toDigits (value : Nat) : hexadecimal (Nat.toDigits 16 value) = some value := by
  rw [hexadecimal_eq_baseValue, baseValue_toDigits (by decide) hexValue_digitChar]

theorem hexadecimal_zeros (count : Nat) (digits : Text) :
    hexadecimal (List.replicate count '0' ++ digits) = hexadecimal digits := by
  rw [hexadecimal_eq_baseValue, baseValue_zeros rfl, hexadecimal_eq_baseValue]

theorem decimal_toDigits (value : Nat) : decimal (Nat.toDigits 10 value) = some value := by
  refine decimal_eq_some.mpr ⟨fun c hc => Nat.isDigit_of_mem_toDigits (by decide) (by decide) hc, ?_⟩
  have hread : appendDigits 0 (Nat.toDigits 10 value) = Nat.ofDigitChars 10 (Nat.toDigits 10 value) 0 := by
    rw [Nat.ofDigitChars_eq_foldl, appendDigits]
    congr 1
    funext total c
    rw [Nat.mul_comm]
    rfl
  rw [hread, Nat.ofDigitChars_ten_toDigits]

theorem isDigit_toDigits {value : Nat} {c : Char} (h : c ∈ Nat.toDigits 10 value) : c.isDigit = true :=
  Nat.isDigit_of_mem_toDigits (by decide) (by decide) h

theorem jsonNumber_injective : Function.Injective jsonNumber := injective_of_reads decimal_toDigits

theorem mem_jsonInteger {value : Int} {c : Char} (h : c ∈ jsonInteger value) : c = '-' ∨ c.isDigit = true := by
  rw [jsonInteger] at h
  split_ifs at h
  · exact (List.mem_cons.mp h).imp id isDigit_toDigits
  · exact .inr (isDigit_toDigits h)

theorem jsonInteger_injective : Function.Injective jsonInteger := by
  have hsign : ∀ left right, '-' :: jsonNumber left ≠ jsonNumber right := by
    intro left right heq
    have hdigit : '-'.isDigit = true := isDigit_toDigits (heq ▸ List.mem_cons_self)
    exact absurd hdigit (by decide)
  intro left right h
  rw [jsonInteger, jsonInteger] at h
  split_ifs at h with hleft hright hright
  · have := jsonNumber_injective (List.cons.inj h).2
    omega
  · exact absurd h (hsign _ _)
  · exact absurd h.symm (hsign _ _)
  · have := jsonNumber_injective h
    omega

theorem appendDigits_toDigits (value : Nat) : appendDigits 0 (Nat.toDigits 10 value) = value :=
  ((decimal_eq_some.mp (decimal_toDigits value)).2).symm

theorem parseU32_toDigits {value : Nat} (h : value < 2 ^ 32) : parseU32 (Nat.toDigits 10 value) = some value := by
  have hvalue := appendDigits_toDigits value
  rw [parseU32_digits Nat.toDigits_ne_nil (fun c hc => isDigit_toDigits hc) (hvalue.symm ▸ h), hvalue]

theorem parseI64_toDigits {value : Nat} (h : value < 2 ^ 63) :
    parseI64 (Nat.toDigits 10 value) = some (value : Int) := by
  have hvalue := appendDigits_toDigits value
  rw [parseI64_digits Nat.toDigits_ne_nil (fun c hc => isDigit_toDigits hc) (hvalue.symm ▸ h), hvalue]

theorem decimal_zeros (count : Nat) (digits : Text) :
    decimal (List.replicate count '0' ++ digits) = decimal digits := by
  induction count with
  | zero => rfl
  | succ count ih => exact ih

/-! ### Bytes of a fixed width -/

theorem readBigEndian_lt (bytes : List (BitVec 8)) : readBigEndian bytes < 256 ^ bytes.length := by
  induction bytes using List.reverseRecOn with
  | nil => decide
  | append_singleton bytes byte ih =>
      have hbyte := byte.isLt
      rw [readBigEndian_append_singleton, List.length_append, List.length_singleton, Nat.pow_succ]
      omega

theorem bigEndian_readBigEndian (bytes : List (BitVec 8)) : bigEndian bytes.length (readBigEndian bytes) = bytes := by
  induction bytes using List.reverseRecOn with
  | nil => rfl
  | append_singleton bytes byte ih =>
      have hbyte := byte.isLt
      have hquotient : ((readBigEndian bytes * 256 + byte.toNat : Nat) : Int) / 256 = (readBigEndian bytes : Nat) := by
        omega
      have hlast : BitVec.ofInt 8 ((readBigEndian bytes * 256 + byte.toNat : Nat) : Int) = byte := by
        rw [BitVec.ofInt_natCast]
        apply BitVec.eq_of_toNat_eq
        rw [BitVec.toNat_ofNat]
        omega
      rw [List.length_append, List.length_singleton, bigEndian_succ_append, readBigEndian_append_singleton, hquotient,
        ih, hlast]

theorem readBigEndian_bytes (width : Nat) {value : BitVec (8 * width)} :
    readBigEndian (bigEndian width value.toNat) = value.toNat := by
  have h := readBigEndian_bigEndian width value.toNat
  have hlt : value.toNat < 256 ^ width := by
    have := value.isLt
    rwa [show (256 : Nat) = 2 ^ 8 from rfl, ← pow_mul]
  have hpower : ((256 : Int) ^ width) = ((256 ^ width : Nat) : Int) := (Int.natCast_pow 256 width).symm
  rw [hpower, ← Int.natCast_emod, Nat.mod_eq_of_lt hlt] at h
  exact Int.ofNat.inj h

/-- The value of bytes of a width has these bytes. -/
theorem bigEndian_ofNat {bytes : List (BitVec 8)} {width : Nat} (h : bytes.length = width) :
    bigEndian width (BitVec.ofNat (8 * width) (readBigEndian bytes)).toNat = bytes := by
  have hlt : readBigEndian bytes < 2 ^ (8 * width) := by
    rw [pow_mul, ← h]
    exact readBigEndian_lt bytes
  rw [BitVec.toNat_ofNat, Nat.mod_eq_of_lt hlt, ← h, bigEndian_readBigEndian]

theorem ofNat_readBigEndian (width : Nat) (value : BitVec (8 * width)) :
    BitVec.ofNat (8 * width) (readBigEndian (bigEndian width value.toNat)) = value := by
  rw [readBigEndian_bytes, BitVec.ofNat_toNat, BitVec.setWidth_eq]

end MetricBackend
