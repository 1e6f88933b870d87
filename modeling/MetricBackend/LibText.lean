import Mathlib

/-! Texts and the bytes they are written as: Rust strings, big-endian numbers, length-prefixed hash
inputs and compact JSON. -/

namespace MetricBackend

/-- A Rust string: a sequence of Unicode scalar values. -/
abbrev Text : Type := List Char

instance lawfulBEqText : LawfulBEq (List Char) := inferInstance

instance transCmpText : Std.TransCmp (@compare (List Char) LinearOrder.toOrd) := inferInstance

/-- `str::len`, the length in UTF-8 bytes. -/
def byteLength (text : Text) : Nat := (text.map Char.utf8Size).sum

/-- `char::is_control`, the Unicode general category `Cc`. -/
def isControl (c : Char) : Bool := c.toNat < 32 || (127 ≤ c.toNat && c.toNat < 160)

/-- `str::contains` of a substring. -/
def textContains (pattern : Text) : Text → Bool
  | [] => pattern.isEmpty
  | c :: rest => pattern.isPrefixOf (c :: rest) || textContains pattern rest

/-- `str::split_once` at a character. -/
def splitOnce (separator : Char) : Text → Option (Text × Text)
  | [] => none
  | c :: rest =>
      if c = separator then some ([], rest)
      else (splitOnce separator rest).map fun parts => (c :: parts.1, parts.2)

/-- The value of a string of ASCII digits. -/
def decimal (digits : Text) : Option Nat :=
  digits.foldlM (fun value c => if c.isDigit then some (value * 10 + (c.toNat - 48)) else none) 0

/-- The value of a non-empty string of digits. -/
def digitsValue (digits : Text) : Option Nat := if digits.isEmpty then none else decimal digits

/-- `str::parse::<u8>`: an optional plus sign and decimal digits with a value below 256. -/
def parseU8 (text : Text) : Option Nat :=
  let digits := match text with
    | '+' :: rest => rest
    | text => text
  if digits.isEmpty then none else (decimal digits).filter (· ≤ 255)

/-- `str::parse::<u64>`: an optional plus sign and decimal digits with a value of 64 bits. -/
def parseU64 (text : Text) : Option Nat :=
  let digits := match text with
    | '+' :: rest => rest
    | text => text
  (digitsValue digits).filter (· < 2 ^ 64)

/-- `str::parse::<i64>`: an optional sign and decimal digits with a value of 64 bits. -/
def parseI64 (text : Text) : Option Int :=
  let (negative, digits) := match text with
    | '-' :: rest => (true, rest)
    | '+' :: rest => (false, rest)
    | text => (false, text)
  ((digitsValue digits).map fun value => if negative then -(value : Int) else value).filter fun value =>
    -2 ^ 63 ≤ value ∧ value < 2 ^ 63

/-- The exponent of a decimal number, from its letter on. -/
def decimalExponent : Text → Option Int
  | [] => some 0
  | _ :: '-' :: digits => (digitsValue digits).map fun value => -(value : Int)
  | _ :: '+' :: digits => (digitsValue digits).map fun value => (value : Int)
  | _ :: digits => (digitsValue digits).map fun value => (value : Int)

/-- The mantissa and the exponent of a decimal number without a sign. -/
def decimalParts (text : Text) : Option (Nat × Int) := do
  let (number, exponent) := text.span fun c => c ≠ 'e' ∧ c ≠ 'E'
  let (whole, fraction) := (splitOnce '.' number).getD (number, [])
  return (← digitsValue (whole ++ fraction), (← decimalExponent exponent) - fraction.length)

/-- `str::parse::<f64>` succeeds with a finite number: the text is a decimal number that does not round
to an infinity. -/
def isFiniteF64 (text : Text) : Bool :=
  let digits := match text with
    | '-' :: rest => rest
    | '+' :: rest => rest
    | text => text
  match decimalParts digits with
  | none => false
  | some (mantissa, exponent) =>
      if 0 ≤ exponent then mantissa * 10 ^ exponent.toNat < 2 ^ 1024 - 2 ^ 970
      else mantissa < (2 ^ 1024 - 2 ^ 970) * 10 ^ (-exponent).toNat

/-- `str::split_ascii_whitespace`. -/
def splitAsciiWhitespace (text : Text) : List Text :=
  (text.splitOnP fun c => c.toNat ∈ [9, 10, 12, 13, 32]).filter (!·.isEmpty)

/-- `char::is_whitespace`, the Unicode property `White_Space`. -/
def isWhitespace (c : Char) : Bool :=
  (9 ≤ c.toNat && c.toNat ≤ 13) || (0x2000 ≤ c.toNat && c.toNat ≤ 0x200A)
    || c.toNat ∈ [0x20, 0x85, 0xA0, 0x1680, 0x2028, 0x2029, 0x202F, 0x205F, 0x3000]

/-- `str::trim_matches`. -/
def trimMatches (matched : Char → Bool) (text : Text) : Text :=
  ((text.dropWhile matched).reverse.dropWhile matched).reverse

/-- `str::split_whitespace`. -/
def splitWhitespace (text : Text) : List Text := (text.splitOnP isWhitespace).filter (!·.isEmpty)

/-- `char::to_ascii_lowercase`. -/
def lowerAscii (c : Char) : Char := if 'A' ≤ c ∧ c ≤ 'Z' then Char.ofNat (c.toNat + 32) else c

/-- `str::to_ascii_lowercase`. -/
def toAsciiLowercase (text : Text) : Text := text.map lowerAscii

/-- `str::strip_prefix`. -/
def stripStart (start text : Text) : Option Text :=
  if start.isPrefixOf text then some (text.drop start.length) else none

/-- The longest start of a text with at most the given number of bytes. -/
def truncateUtf8 : Nat → Text → Text
  | _, [] => []
  | budget, c :: rest =>
      if c.utf8Size ≤ budget then c :: truncateUtf8 (budget - c.utf8Size) rest else []

/-- The value of a hexadecimal digit. -/
def hexValue (c : Char) : Option Nat :=
  if '0' ≤ c ∧ c ≤ '9' then some (c.toNat - 48)
  else if 'a' ≤ c ∧ c ≤ 'f' then some (c.toNat - 87)
  else if 'A' ≤ c ∧ c ≤ 'F' then some (c.toNat - 55)
  else none

/-- The value of a string of hexadecimal digits. -/
def hexadecimal (digits : Text) : Option Nat :=
  (digits.mapM hexValue).map fun values => values.foldl (fun total digit => total * 16 + digit) 0

/-- The thirty-two hexadecimal digits of a hyphenated UUID stand at their places. -/
def isUuid (value : Text) : Bool :=
  byteLength value = 36 ∧ value.zipIdx.all fun (c, index) =>
    if index ∈ [8, 13, 18, 23] then c = '-' else (hexValue c).isSome

/-! ### Bytes -/

/-- The `width` low bytes of a number, most significant first. -/
def bigEndian (width : Nat) (value : Int) : List (BitVec 8) :=
  (List.range width).map fun index => BitVec.ofInt 8 (value / 256 ^ (width - 1 - index))

/-- The first occurrence of a value that a list does not contain is right after the list. -/
theorem findIdx?_append_cons {α : Type} [DecidableEq α] {value : α} {before : List α}
    (hbefore : value ∉ before) (after : List α) :
    (before ++ value :: after).findIdx? (· = value) = some before.length := by
  induction before with
  | nil => simp [List.findIdx?_cons]
  | cons head before ih =>
      rw [List.mem_cons, not_or] at hbefore
      have hhead : ¬ head = value := fun h => hbefore.1 h.symm
      rw [List.cons_append, List.findIdx?_cons, if_neg (by simpa using hhead), ih hbefore.2]
      rfl

/-- `str::as_bytes`, the UTF-8 bytes of a text. -/
def utf8Bytes (text : Text) : List (BitVec 8) :=
  text.flatMap fun c => (String.utf8EncodeChar c).map UInt8.toBitVec

/-- The bytes of a domain and of length-prefixed parts. -/
def hashInput (domain : Text) (parts : List (List (BitVec 8))) : List (BitVec 8) :=
  utf8Bytes domain ++ parts.flatMap fun part => bigEndian 8 part.length ++ part

/-- The sixteen bytes kept of a digest. The digest function is the one of the `blake3` package. -/
def hash16 (blake3 : List (BitVec 8) → BitVec 256) (domain : Text)
    (parts : List (List (BitVec 8))) : BitVec 128 :=
  (blake3 (hashInput domain parts)).extractLsb' 128 128

/-! ### Compact JSON -/

def jsonEscape (c : Char) : Text :=
  if c.toNat = 34 then [Char.ofNat 92, Char.ofNat 34]
  else if c.toNat = 92 then [Char.ofNat 92, Char.ofNat 92]
  else if c.toNat = 8 then [Char.ofNat 92, 'b']
  else if c.toNat = 9 then [Char.ofNat 92, 't']
  else if c.toNat = 10 then [Char.ofNat 92, 'n']
  else if c.toNat = 12 then [Char.ofNat 92, 'f']
  else if c.toNat = 13 then [Char.ofNat 92, 'r']
  else if c.toNat < 32 then
    [Char.ofNat 92, 'u', '0', '0'] ++ [Nat.digitChar (c.toNat / 16), Nat.digitChar (c.toNat % 16)]
  else [c]

def jsonString (text : Text) : Text := Char.ofNat 34 :: (text.flatMap jsonEscape ++ [Char.ofNat 34])

def jsonNumber (value : Nat) : Text := Nat.toDigits 10 value

def jsonBool (value : Bool) : Text := if value then "true".toList else "false".toList

def jsonArray (items : List Text) : Text := '[' :: ((items.intersperse [',']).flatten ++ [']'])

def jsonInteger (value : Int) : Text :=
  if value < 0 then '-' :: jsonNumber value.natAbs else jsonNumber value.natAbs

def jsonMember (member : Text × Text) : Text := jsonString member.1 ++ ':' :: member.2

/-- An object whose members stand in the order given. -/
def jsonObject (members : List (Text × Text)) : Text :=
  Char.ofNat 123 :: (((members.map jsonMember).intersperse [',']).flatten ++ [Char.ofNat 125])

/-- `hex::encode`. -/
def hexEncode (bytes : List (BitVec 8)) : Text :=
  bytes.flatMap fun byte => [Nat.digitChar (byte.toNat / 16), Nat.digitChar (byte.toNat % 16)]

/-- `hex::decode`. -/
def hexDecode : Text → Option (List (BitVec 8))
  | [] => some []
  | high :: low :: rest => do
      let byte := BitVec.ofNat 8 ((← hexValue high) * 16 + (← hexValue low))
      return byte :: (← hexDecode rest)
  | [_] => none

/-- The unsigned number of big-endian bytes. -/
def readBigEndian (bytes : List (BitVec 8)) : Nat := bytes.foldl (fun total byte => total * 256 + byte.toNat) 0

/-! ### Sizes -/

theorem length_utf8Bytes (text : Text) : (utf8Bytes text).length = byteLength text := by
  induction text with
  | nil => rfl
  | cons c rest ih =>
      simp only [utf8Bytes, List.flatMap_cons, List.length_append, List.length_map,
        String.length_utf8EncodeChar, byteLength, List.map_cons, List.sum_cons] at ih ⊢
      omega

@[simp] theorem byteLength_nil : byteLength [] = 0 := rfl

@[simp] theorem byteLength_cons (c : Char) (rest : Text) :
    byteLength (c :: rest) = c.utf8Size + byteLength rest := by
  simp [byteLength]

@[simp] theorem byteLength_append (left right : Text) :
    byteLength (left ++ right) = byteLength left + byteLength right := by
  simp [byteLength]

theorem byteLength_flatten_intersperse_le (separator : Char) (items : List Text) :
    byteLength ((items.intersperse [separator]).flatten)
      ≤ (items.map fun item => byteLength item + separator.utf8Size).sum := by
  induction items with
  | nil => simp
  | cons item rest ih =>
      cases rest with
      | nil => simp
      | cons next rest =>
          rw [List.intersperse_cons_cons, List.map_cons, List.sum_cons]
          simp only [List.flatten_cons, byteLength_append, byteLength_cons, byteLength_nil]
            at ih ⊢
          omega

theorem utf8Size_digitChar : ∀ digit < 16, (Nat.digitChar digit).utf8Size = 1 := by decide

/-- An escape takes at most six bytes for each byte it stands for. -/
theorem byteLength_jsonEscape_le (c : Char) : byteLength (jsonEscape c) ≤ 6 * c.utf8Size := by
  have hpos := c.utf8Size_pos
  have hshort : ∀ letter : Char, letter.utf8Size = 1 →
      byteLength [Char.ofNat 92, letter] ≤ 6 * c.utf8Size := by
    intro letter hletter
    simp only [byteLength_cons, byteLength_nil, hletter]
    have : (Char.ofNat 92).utf8Size = 1 := rfl
    omega
  unfold jsonEscape
  split_ifs with _ _ _ _ _ _ _ hcontrol
  · exact hshort _ rfl
  · exact hshort _ rfl
  · exact hshort _ rfl
  · exact hshort _ rfl
  · exact hshort _ rfl
  · exact hshort _ rfl
  · exact hshort _ rfl
  · have hhigh := utf8Size_digitChar (c.toNat / 16) (by omega)
    have hlow := utf8Size_digitChar (c.toNat % 16) (by omega)
    have hlead : byteLength [Char.ofNat 92, 'u', '0', '0'] = 4 := rfl
    rw [byteLength_append, hlead]
    simp only [byteLength_cons, byteLength_nil, hhigh, hlow]
    omega
  · simp only [byteLength_cons, byteLength_nil]
    omega

theorem byteLength_jsonString_le (text : Text) :
    byteLength (jsonString text) ≤ 6 * byteLength text + 2 := by
  have hescaped : byteLength (text.flatMap jsonEscape) ≤ 6 * byteLength text := by
    induction text with
    | nil => simp
    | cons c rest ih =>
        have := byteLength_jsonEscape_le c
        simp only [List.flatMap_cons, byteLength_append, byteLength_cons]
        omega
  have hquote : (Char.ofNat 34).utf8Size = 1 := rfl
  simp only [jsonString, byteLength_cons, byteLength_append, byteLength_nil, hquote]
  omega

theorem byteLength_of_utf8Size {text : Text} (h : ∀ c ∈ text, c.utf8Size = 1) : byteLength text = text.length := by
  induction text with
  | nil => rfl
  | cons c text ih =>
      obtain ⟨hc, htext⟩ := List.forall_mem_cons.mp h
      rw [byteLength_cons, hc, ih htext, List.length_cons, Nat.add_comm]

/-- The digits of a number take one byte each. -/
theorem byteLength_toDigits_le {base value width : Nat} (hbase : 1 < base) (hsixteen : base ≤ 16)
    (h : value < base ^ width) (hwidth : 0 < width) : byteLength (Nat.toDigits base value) ≤ width := by
  have hdigits : ∀ value, byteLength (Nat.toDigits base value) = (Nat.toDigits base value).length := by
    intro value
    induction value using Nat.strongRecOn with
    | ind value ih =>
        by_cases hsmall : value < base
        · rw [Nat.toDigits_of_lt_base hsmall]
          exact utf8Size_digitChar value (by omega)
        · have hquotient : value / base < value := Nat.div_lt_self (by omega) hbase
          have hmod : value % base < base := Nat.mod_lt _ (by omega)
          have hrest := utf8Size_digitChar (value % base) (by omega)
          rw [Nat.toDigits_of_base_le hbase (by omega), byteLength_append, ih _ hquotient,
            List.length_append, byteLength_cons, byteLength_nil, hrest]
          rfl
  rw [hdigits]
  exact (Nat.length_toDigits_le_iff hbase hwidth).mpr h

theorem byteLength_jsonNumber_le {value width : Nat} (h : value < 10 ^ width) (hwidth : 0 < width) :
    byteLength (jsonNumber value) ≤ width :=
  byteLength_toDigits_le (by decide) (by decide) h hwidth

theorem byteLength_jsonInteger_le {value : Int} {width : Nat} (h : value.natAbs < 10 ^ width)
    (hwidth : 0 < width) : byteLength (jsonInteger value) ≤ width + 1 := by
  have hnumber := byteLength_jsonNumber_le h hwidth
  have hminus : '-'.utf8Size = 1 := rfl
  unfold jsonInteger
  split_ifs
  · rw [byteLength_cons]
    omega
  · omega

theorem byteLength_hexEncode (bytes : List (BitVec 8)) :
    byteLength (hexEncode bytes) = 2 * bytes.length := by
  induction bytes with
  | nil => rfl
  | cons byte rest ih =>
      have hhigh := utf8Size_digitChar (byte.toNat / 16) (by omega)
      have hlow := utf8Size_digitChar (byte.toNat % 16) (by omega)
      simp only [hexEncode, List.flatMap_cons, byteLength_append, byteLength_cons, byteLength_nil,
        List.length_cons] at ih ⊢
      omega

theorem byteLength_jsonMember_le (member : Text × Text) :
    byteLength (jsonMember member) ≤ 6 * byteLength member.1 + byteLength member.2 + 3 := by
  have hname := byteLength_jsonString_le member.1
  have hcolon : ':'.utf8Size = 1 := rfl
  simp only [jsonMember, byteLength_append, byteLength_cons]
  omega

theorem byteLength_jsonObject_le (members : List (Text × Text)) :
    byteLength (jsonObject members) ≤
      (members.map fun member => 6 * byteLength member.1 + byteLength member.2 + 4).sum + 2 := by
  have hjoined := byteLength_flatten_intersperse_le ',' (members.map jsonMember)
  have hcomma : ','.utf8Size = 1 := rfl
  have hopen : (Char.ofNat 123).utf8Size = 1 := rfl
  have hclose : (Char.ofNat 125).utf8Size = 1 := rfl
  have hmembers : ((members.map jsonMember).map fun item => byteLength item + 1).sum
      ≤ (members.map fun member => 6 * byteLength member.1 + byteLength member.2 + 4).sum := by
    induction members with
    | nil => simp
    | cons member rest ih =>
        have hmember := byteLength_jsonMember_le member
        simp only [List.map_cons, List.sum_cons]
        have := ih (byteLength_flatten_intersperse_le ',' (rest.map jsonMember))
        omega
  rw [hcomma] at hjoined
  simp only [jsonObject, byteLength_cons, byteLength_append, byteLength_nil, hopen, hclose]
  omega

theorem byteLength_le_of_sublist {left right : Text} (h : left.Sublist right) :
    byteLength left ≤ byteLength right := by
  induction h with
  | slnil => exact Nat.le_refl _
  | cons c _ ih =>
      rw [byteLength_cons]
      omega
  | cons_cons c _ ih =>
      rw [byteLength_cons, byteLength_cons]
      omega

theorem byteLength_truncateUtf8_le (budget : Nat) (text : Text) :
    byteLength (truncateUtf8 budget text) ≤ budget := by
  induction text generalizing budget with
  | nil => exact Nat.zero_le _
  | cons c rest ih =>
      rw [truncateUtf8]
      split_ifs with hfits
      · have hrest := ih (budget - c.utf8Size)
        rw [byteLength_cons]
        omega
      · exact Nat.zero_le _

theorem byteLength_map_of_utf8Size {f : Char → Char} (hf : ∀ c, (f c).utf8Size = c.utf8Size) (text : Text) :
    byteLength (text.map f) = byteLength text := by
  simp only [byteLength, List.map_map]
  exact congrArg _ (List.map_congr_left fun c _ => hf c)

theorem byteLength_trimMatches_le (matched : Char → Bool) (text : Text) :
    byteLength (trimMatches matched text) ≤ byteLength text := by
  refine byteLength_le_of_sublist ?_
  have hinner := (List.dropWhile_sublist matched (l := (text.dropWhile matched).reverse)).reverse
  rw [List.reverse_reverse] at hinner
  exact hinner.trans (List.dropWhile_sublist matched)

/-- The parts of a text and the separators between them make up the text. -/
theorem sum_splitOnP {separates : Char → Bool} (hsize : ∀ c, separates c = true → c.utf8Size = 1)
    (text : Text) :
    ((text.splitOnP separates).map fun part => byteLength part + 1).sum = byteLength text + 1 := by
  induction text with
  | nil => simp [List.splitOnP_nil]
  | cons c rest ih =>
      rw [List.splitOnP_cons_eq_if_modifyHead, byteLength_cons]
      split_ifs with hc
      · rw [List.map_cons, List.sum_cons, ih, hsize c hc, byteLength_nil]
        omega
      · cases hparts : rest.splitOnP separates with
        | nil => exact absurd hparts (List.splitOnP_ne_nil _ _)
        | cons part parts =>
            rw [hparts, List.map_cons, List.sum_cons] at ih
            simp only [List.modifyHead_cons, List.map_cons, List.sum_cons, byteLength_cons]
            omega

end MetricBackend
