import MetricBackend.LibText

/-! The URL-safe base64 code without padding: three bytes are four digits, and what is left at the end is written with
zero bits behind it. -/

namespace MetricBackend

def base64Alphabet : Text := "ABCDEFGHIJKLMNOPQRSTUVWXYZabcdefghijklmnopqrstuvwxyz0123456789-_".toList

def base64Char (digit : Nat) : Char := base64Alphabet.getD digit 'A'

def base64Value (c : Char) : Option Nat := base64Alphabet.findIdx? (· = c)

/-- The digits of bytes. -/
def base64Digits : List (BitVec 8) → List Nat
  | [] => []
  | [first] => [first.toNat / 4, first.toNat % 4 * 16]
  | [first, second] =>
      [first.toNat / 4, first.toNat % 4 * 16 + second.toNat / 16, second.toNat % 16 * 4]
  | first :: second :: third :: bytes =>
      [first.toNat / 4, first.toNat % 4 * 16 + second.toNat / 16, second.toNat % 16 * 4 + third.toNat / 64,
        third.toNat % 64] ++ base64Digits bytes

/-- The bytes of digits; the bits that no byte takes are zero. -/
def base64Bytes : List Nat → Option (List (BitVec 8))
  | [] => some []
  | [_] => none
  | [first, second] => if second % 16 = 0 then some [BitVec.ofNat 8 (first * 4 + second / 16)] else none
  | [first, second, third] =>
      if third % 4 = 0 then
        some [BitVec.ofNat 8 (first * 4 + second / 16), BitVec.ofNat 8 (second % 16 * 16 + third / 4)]
      else none
  | first :: second :: third :: fourth :: digits =>
      (base64Bytes digits).map fun bytes =>
        BitVec.ofNat 8 (first * 4 + second / 16) :: BitVec.ofNat 8 (second % 16 * 16 + third / 4)
          :: BitVec.ofNat 8 (third % 4 * 64 + fourth) :: bytes

def base64Encode (bytes : List (BitVec 8)) : Text := (base64Digits bytes).map base64Char

def base64Decode (text : Text) : Option (List (BitVec 8)) := (text.mapM base64Value).bind base64Bytes

/-! ### Reading back -/

theorem base64Value_base64Char : ∀ digit < 64, base64Value (base64Char digit) = some digit := by
  decide

theorem base64Digits_lt : ∀ bytes : List (BitVec 8), ∀ digit ∈ base64Digits bytes, digit < 64
  | [] => nofun
  | [first] => by
      have hfirst := first.isLt
      simp only [base64Digits, List.forall_mem_cons, List.not_mem_nil, false_implies, implies_true, and_true]
      omega
  | [first, second] => by
      have hfirst := first.isLt
      have hsecond := second.isLt
      simp only [base64Digits, List.forall_mem_cons, List.not_mem_nil, false_implies, implies_true, and_true]
      omega
  | first :: second :: third :: bytes => by
      have hfirst := first.isLt
      have hsecond := second.isLt
      have hthird := third.isLt
      simp only [base64Digits, List.cons_append, List.nil_append, List.forall_mem_cons]
      exact ⟨by omega, by omega, by omega, by omega, base64Digits_lt bytes⟩

theorem ofNat_eq {byte : BitVec 8} {value : Nat} (h : value = byte.toNat) : BitVec.ofNat 8 value = byte := by
  rw [h, BitVec.ofNat_toNat, BitVec.setWidth_eq]

theorem base64Bytes_base64Digits : ∀ bytes : List (BitVec 8), base64Bytes (base64Digits bytes) = some bytes
  | [] => rfl
  | [first] => by
      rw [base64Digits, base64Bytes, if_pos (by omega), @ofNat_eq first _ (by omega)]
  | [first, second] => by
      rw [base64Digits, base64Bytes, if_pos (by omega), @ofNat_eq first _ (by omega), @ofNat_eq second _ (by omega)]
  | first :: second :: third :: bytes => by
      rw [base64Digits, List.cons_append, List.cons_append, List.cons_append, List.cons_append, List.nil_append,
        base64Bytes, base64Bytes_base64Digits bytes, Option.map_some, @ofNat_eq first _ (by omega),
        @ofNat_eq second _ (by omega), @ofNat_eq third _ (by omega)]

theorem base64Decode_base64Encode (bytes : List (BitVec 8)) : base64Decode (base64Encode bytes) = some bytes := by
  have hdigits : ∀ digits : List Nat, (∀ digit ∈ digits, digit < 64) →
      (digits.map base64Char).mapM base64Value = some digits := by
    intro digits h
    induction digits with
    | nil => rfl
    | cons digit digits ih =>
        rw [List.forall_mem_cons] at h
        rw [List.map_cons, List.mapM_cons, base64Value_base64Char digit h.1, ih h.2]
        rfl
  rw [base64Decode, base64Encode, hdigits _ (base64Digits_lt bytes), Option.bind_some, base64Bytes_base64Digits]

theorem length_base64Digits : ∀ bytes : List (BitVec 8), (base64Digits bytes).length = (4 * bytes.length + 2) / 3
  | [] => rfl
  | [_] => by simp [base64Digits]
  | [_, _] => by simp [base64Digits]
  | first :: second :: third :: bytes => by
      simp only [base64Digits, List.cons_append, List.nil_append, List.length_cons, length_base64Digits bytes]
      omega

theorem exists_of_mem_base64Encode {bytes : List (BitVec 8)} {c : Char} (h : c ∈ base64Encode bytes) :
    ∃ digit < 64, c = base64Char digit := by
  obtain ⟨digit, hdigit, rfl⟩ := List.mem_map.mp h
  exact ⟨digit, base64Digits_lt bytes digit hdigit, rfl⟩

end MetricBackend
