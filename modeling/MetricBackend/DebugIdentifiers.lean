import MetricBackend.LibFallible
import MetricBackend.LibLetters
import MetricBackend.LibNumerals

/-! The identifiers of debug files, from `domain/src/debug_files.rs`: a debug id is a UUID with an appendix or the
timestamp and age of a PDB, and a code id is a string of hexadecimal digits. Both have a text and a storage key. -/

namespace MetricBackend

inductive DebugFileValueError where
  | invalidDebugId
  | invalidCodeId
deriving DecidableEq

/-- `u8::is_ascii_hexdigit`; no byte of another character than an ASCII one is a digit. -/
def isHexDigit (c : Char) : Bool := (hexValue c).isSome

/-- `u32::from_str_radix(value, 16)`. -/
def u32FromHex (value : Text) : Option (BitVec 32) :=
  let digits := match value with
    | '+' :: digits => digits
    | digits => digits
  if digits.isEmpty then none
  else ((hexadecimal digits).filter (· < 2 ^ 32)).map (BitVec.ofNat 32)

/-! ### Debug ids -/

inductive DebugId where
  | uuid (uuid : BitVec 128) (appendix : BitVec 32)
  | pdb20 (timestamp age : BitVec 32)
deriving DecidableEq

namespace DebugId

def refused {α : Type} : Except DebugFileValueError α := .error .invalidDebugId

def orRefused {α : Type} (value : Option α) : Except DebugFileValueError α := value.elim refused .ok

/-- The part of a UUID and the appendix. -/
def splitAppendix (value : Text) : Except DebugFileValueError (Text × BitVec 32) :=
  if 36 < byteLength value then do
    let (uuidText, appendix) ← orRefused ((splitOnce '-' value).bind fun _ => rsplitOnce '-' value)
    if byteLength uuidText ≠ 36 ∨ appendix = [] ∨ 8 < byteLength appendix then refused
    else return (uuidText, ← orRefused (u32FromHex appendix))
  else .ok (value, 0)

def parseUuid (value : Text) : Except DebugFileValueError DebugId := do
  let (uuidText, appendix) ← splitAppendix value
  let compact := uuidText.filter (· ≠ '-')
  if byteLength compact ≠ 32 ∨ compact.all isHexDigit = false then refused
  else
    let bytes ← orRefused (hexDecode compact)
    return .uuid (BitVec.ofNat 128 (readBigEndian bytes)) appendix

def parse (value : Text) : Except DebugFileValueError DebugId :=
  match splitOnce ':' value with
  | some (timestamp, age) =>
      if byteLength timestamp = 8 ∧ byteLength age ≤ 8 ∧ timestamp.all isHexDigit ∧ age.all isHexDigit then do
        let timestamp ← orRefused (u32FromHex timestamp)
        let age ← orRefused (u32FromHex age)
        return .pdb20 timestamp age
      else parseUuid value
  | none => parseUuid value

def encode : DebugId → List (BitVec 8)
  | .uuid id appendix =>
      if appendix = 0 then bigEndian 16 id.toNat else bigEndian 16 id.toNat ++ bigEndian 4 appendix.toNat
  | .pdb20 timestamp age => bigEndian 4 timestamp.toNat ++ bigEndian 4 age.toNat

/-- `u32::from_be_bytes`. -/
def readU32 (bytes : List (BitVec 8)) : BitVec 32 := BitVec.ofNat 32 (readBigEndian bytes)

def decode (bytes : List (BitVec 8)) : Except DebugFileValueError DebugId :=
  match bytes.length with
  | 16 => .ok (.uuid (BitVec.ofNat 128 (readBigEndian bytes)) 0)
  | 20 =>
      let appendix := readU32 (bytes.drop 16)
      if appendix ≠ 0 then .ok (.uuid (BitVec.ofNat 128 (readBigEndian (bytes.take 16))) appendix) else refused
  | 8 => .ok (.pdb20 (readU32 (bytes.take 4)) (readU32 (bytes.drop 4)))
  | _ => refused

/-- The thirty-two digits in their groups. -/
def grouped (encoded : Text) : Text :=
  encoded.take 8 ++ '-' :: ((encoded.drop 8).take 4 ++ '-' :: ((encoded.drop 12).take 4 ++ '-' ::
    ((encoded.drop 16).take 4 ++ '-' :: encoded.drop 20)))

/-- `{value:08x}`. -/
def padded (value : Nat) : Text :=
  List.replicate (8 - (Nat.toDigits 16 value).length) '0' ++ Nat.toDigits 16 value

def display : DebugId → Text
  | .uuid id appendix => grouped (hexEncode (bigEndian 16 id.toNat))
      ++ if appendix ≠ 0 then '-' :: Nat.toDigits 16 appendix.toNat else []
  | .pdb20 timestamp age => padded timestamp.toNat ++ ':' :: Nat.toDigits 16 age.toNat

end DebugId

/-! ### Reading debug ids back -/

section Texts

variable {digits front back : Text}

theorem isSome_of_hexadecimal {value : Nat} (h : hexadecimal digits = some value) :
    ∀ c ∈ digits, (hexValue c).isSome := by
  intro c hc
  obtain ⟨values, hvalues, -⟩ := Option.map_eq_some_iff.mp h
  induction digits generalizing values value with
  | nil => exact absurd hc List.not_mem_nil
  | cons first digits ih =>
      rw [List.mapM_cons] at hvalues
      obtain ⟨digit, hdigit, hrest⟩ := Option.bind_eq_some_iff.mp hvalues
      obtain ⟨others, hothers, -⟩ := Option.bind_eq_some_iff.mp hrest
      rcases List.mem_cons.mp hc with rfl | hc
      · rw [hdigit]
        rfl
      · exact ih (by rw [hexadecimal, hothers]; rfl) hc others hothers

theorem hexEncode_digits (bytes : List (BitVec 8)) : ∀ c ∈ hexEncode bytes, (hexValue c).isSome :=
  isSome_of_hexadecimal (hexadecimal_hexEncode bytes)

theorem ne_of_digit {c other : Char} (hother : hexValue other = none) (h : (hexValue c).isSome) : c ≠ other := by
  rintro rfl
  rw [hother] at h
  cases h

theorem rsplitOnce_append {separator : Char} (h : separator ∉ back) :
    rsplitOnce separator (front ++ separator :: back) = some (front, back) := by
  have hsplit : splitOnce separator (front ++ separator :: back).reverse = some (back.reverse, front.reverse) := by
    refine splitOnce_eq_some.mpr ⟨by rwa [List.mem_reverse], ?_⟩
    simp
  rw [rsplitOnce, hsplit, Option.map_some, List.reverse_reverse, List.reverse_reverse]

end Texts

namespace DebugId

section Groups

variable {encoded : Text}

/-- Without the dashes the groups are the digits. -/
theorem filter_grouped (h : ∀ c ∈ encoded, c ≠ '-') : (grouped encoded).filter (· ≠ '-') = encoded := by
  have hfilter : ∀ part : Text, (∀ c ∈ part, c ∈ encoded) → part.filter (· ≠ '-') = part := fun part hpart =>
    List.filter_eq_self.mpr fun c hc => decide_eq_true (h c (hpart c hc))
  have hjoin : ∀ start count : Nat, (encoded.drop start).take count ++ encoded.drop (start + count)
      = encoded.drop start := by
    intro start count
    rw [← List.drop_drop, List.take_append_drop]
  have hdash : ∀ rest : Text, ('-' :: rest).filter (· ≠ '-') = rest.filter (· ≠ '-') :=
    fun rest => List.filter_cons_of_neg (by decide)
  have htake : ∀ start count : Nat,
      ((encoded.drop start).take count).filter (· ≠ '-') = (encoded.drop start).take count :=
    fun start count => hfilter _ fun c hc => List.mem_of_mem_drop (List.mem_of_mem_take hc)
  rw [grouped, List.filter_append, hdash, List.filter_append, hdash, List.filter_append, hdash, List.filter_append,
    hdash, htake, htake, htake, hfilter _ fun c hc => List.mem_of_mem_take hc,
    hfilter _ fun c hc => List.mem_of_mem_drop hc, hjoin 16 4, hjoin 12 4, hjoin 8 4, List.take_append_drop]

theorem byteLength_grouped (h : ∀ c ∈ encoded, (hexValue c).isSome) (hlength : encoded.length = 32) :
    byteLength (grouped encoded) = 36 := by
  have hpart : ∀ part : Text, (∀ c ∈ part, c ∈ encoded) → byteLength part = part.length := fun part hpart =>
    byteLength_of_hexValue fun c hc => h c (hpart c hc)
  have htake : ∀ start count : Nat, byteLength ((encoded.drop start).take count) = min count (32 - start) := by
    intro start count
    rw [hpart _ fun c hc => List.mem_of_mem_drop (List.mem_of_mem_take hc), List.length_take, List.length_drop, hlength]
  have hfirst : byteLength (encoded.take 8) = 8 := by
    rw [hpart _ fun c hc => List.mem_of_mem_take hc, List.length_take, hlength]
    rfl
  have hlast : byteLength (encoded.drop 20) = 12 := by
    rw [hpart _ fun c hc => List.mem_of_mem_drop hc, List.length_drop, hlength]
  have hdash : '-'.utf8Size = 1 := rfl
  rw [grouped]
  simp only [byteLength_append, byteLength_cons, htake, hfirst, hlast, hdash]
  rfl

end Groups

variable {bytes : List (BitVec 8)} {id : DebugId}

theorem readU32_bigEndian (value : BitVec 32) : readU32 (bigEndian 4 value.toNat) = value :=
  ofNat_readBigEndian 4 value

theorem decode_encode (id : DebugId) : decode id.encode = .ok id := by
  cases id with
  | uuid id appendix =>
      have hid : BitVec.ofNat 128 (readBigEndian (bigEndian 16 id.toNat)) = id := ofNat_readBigEndian 16 id
      by_cases happendix : appendix = 0
      · rw [encode, if_pos happendix, decode, length_bigEndian]
        rw [hid, happendix]
        rfl
      · have hlength : (bigEndian 16 id.toNat ++ bigEndian 4 appendix.toNat).length = 20 := by
          rw [List.length_append, length_bigEndian, length_bigEndian]
        have htake : (bigEndian 16 id.toNat ++ bigEndian 4 appendix.toNat).take 16 = bigEndian 16 id.toNat :=
          List.take_left' (length_bigEndian 16 _)
        have hdrop : (bigEndian 16 id.toNat ++ bigEndian 4 appendix.toNat).drop 16 = bigEndian 4 appendix.toNat :=
          List.drop_left' (length_bigEndian 16 _)
        rw [encode, if_neg happendix, decode, hlength]
        rw [hdrop, htake, readU32_bigEndian, if_pos happendix, hid]
        rfl
  | pdb20 timestamp age =>
      have hlength : (bigEndian 4 timestamp.toNat ++ bigEndian 4 age.toNat).length = 8 := by
        rw [List.length_append, length_bigEndian, length_bigEndian]
      rw [encode, decode, hlength]
      rw [List.take_left' (length_bigEndian 4 _), List.drop_left' (length_bigEndian 4 _), readU32_bigEndian,
        readU32_bigEndian]
      rfl

theorem encode_of_decode (h : decode bytes = .ok id) : id.encode = bytes := by
  rw [decode] at h
  split at h
  · next hlength =>
    cases h
    rw [encode, if_pos rfl]
    exact bigEndian_ofNat hlength
  · next hlength =>
    have htake : (bytes.take 16).length = 16 := by
      rw [List.length_take, hlength]
      rfl
    have hdrop : (bytes.drop 16).length = 4 := by
      rw [List.length_drop, hlength]
    dsimp only at h
    split_ifs at h with happendix
    · cases h
      rw [encode, if_neg happendix, readU32, bigEndian_ofNat hdrop, bigEndian_ofNat htake, List.take_append_drop]
    · cases h
  · next hlength =>
    cases h
    have htake : (bytes.take 4).length = 4 := by
      rw [List.length_take, hlength]
      rfl
    have hdrop : (bytes.drop 4).length = 4 := by
      rw [List.length_drop, hlength]
    rw [encode, readU32, readU32, bigEndian_ofNat htake, bigEndian_ofNat hdrop, List.take_append_drop]
  · cases h

theorem hexValue_dash : hexValue '-' = none ∧ hexValue ':' = none := by decide

end DebugId

/-! ### The spellings of a debug id -/

theorem u32FromHex_eq_some {value : Text} {number : BitVec 32} :
    u32FromHex value = some number ↔ ∃ sign digits : Text, value = sign ++ digits ∧ (sign = [] ∨ sign = ['+'])
      ∧ digits ≠ [] ∧ hexadecimal digits = some number.toNat := by
  have hread : ∀ digits : Text, (if digits.isEmpty then none
      else ((hexadecimal digits).filter (· < 2 ^ 32)).map (BitVec.ofNat 32)) = some number
        ↔ digits ≠ [] ∧ hexadecimal digits = some number.toNat := by
    intro digits
    have hlt := number.isLt
    split_ifs with hempty
    · exact iff_of_false (fun h => by cases h) fun h => h.1 (List.isEmpty_iff.mp hempty)
    · rw [Option.map_eq_some_iff]
      constructor
      · rintro ⟨total, htotal, rfl⟩
        obtain ⟨htotal, hbound⟩ := Option.filter_eq_some_iff.mp htotal
        rw [BitVec.toNat_ofNat, Nat.mod_eq_of_lt (of_decide_eq_true hbound)]
        exact ⟨fun h => hempty (List.isEmpty_iff.mpr h), htotal⟩
      · rintro ⟨-, htotal⟩
        refine ⟨number.toNat, Option.filter_eq_some_iff.mpr ⟨htotal, decide_eq_true hlt⟩, ?_⟩
        rw [BitVec.ofNat_toNat, BitVec.setWidth_eq]
  unfold u32FromHex
  constructor
  · intro h
    split at h
    · next digits => exact ⟨['+'], digits, rfl, .inr rfl, (hread digits).mp h⟩
    · exact ⟨[], value, rfl, .inl rfl, (hread value).mp h⟩
  · rintro ⟨sign, digits, rfl, hsign, hne, hvalue⟩
    rcases hsign with rfl | rfl
    · split
      · next rest heq =>
        obtain rfl : digits = '+' :: rest := heq
        exact absurd (isSome_of_hexadecimal hvalue '+' List.mem_cons_self) (by decide)
      · exact (hread digits).mpr ⟨hne, hvalue⟩
    · exact (hread digits).mpr ⟨hne, hvalue⟩

namespace DebugId

/-- The digits of a UUID, of either case and with dashes at any places. -/
def Spells (digits : Text) (id : BitVec 128) : Prop :=
  toAsciiLowercase (digits.filter (· ≠ '-')) = hexEncode (bigEndian 16 id.toNat)

/-- The timestamp and the age of a PDB. -/
structure PdbText (time count : Text) (timestamp age : BitVec 32) : Prop where
  time_length : byteLength time = 8
  count_ne : count ≠ []
  count_length : byteLength count ≤ 8
  timestamp_eq : hexadecimal time = some timestamp.toNat
  age_eq : hexadecimal count = some age.toNat

/-- The texts of a debug id. The appendix and the age are read as numbers, with any zeros in front. -/
inductive Spelling : Text → DebugId → Prop
  | plain {digits : Text} {id : BitVec 128} (hlength : byteLength digits ≤ 36) (hdigits : Spells digits id) :
      Spelling digits (.uuid id 0)
  | appended {digits sign number : Text} {id : BitVec 128} {appendix : BitVec 32} (hlength : byteLength digits = 36)
      (hdigits : Spells digits id) (hsign : sign = [] ∨ sign = ['+']) (hne : number ≠ [])
      (hnumber : byteLength (sign ++ number) ≤ 8) (happendix : hexadecimal number = some appendix.toNat) :
      Spelling (digits ++ '-' :: (sign ++ number)) (.uuid id appendix)
  | pdb20 {time count : Text} {timestamp age : BitVec 32} (h : PdbText time count timestamp age) :
      Spelling (time ++ ':' :: count) (.pdb20 timestamp age)

variable {value digits : Text} {id : DebugId} {uuidText : Text} {appendix : BitVec 32}

theorem orRefused_eq_ok {α : Type} {found : Option α} {result : α} :
    orRefused found = .ok result ↔ found = some result := by
  cases found with
  | none => exact iff_of_false (fun h => by cases h) (fun h => by cases h)
  | some other => exact ⟨fun h => congrArg some (Except.ok.inj h), fun h => congrArg Except.ok (Option.some.inj h)⟩

theorem rsplitOnce_eq_some {separator : Char} {text front back : Text} :
    rsplitOnce separator text = some (front, back) ↔ separator ∉ back ∧ text = front ++ separator :: back := by
  constructor
  · intro h
    obtain ⟨⟨left, right⟩, hsplit, heq⟩ := Option.map_eq_some_iff.mp h
    obtain ⟨hleft, htext⟩ := splitOnce_eq_some.mp hsplit
    cases heq
    refine ⟨by rwa [List.mem_reverse], ?_⟩
    rw [← List.reverse_reverse text, htext, List.reverse_append, List.reverse_cons, List.append_assoc]
    rfl
  · rintro ⟨hback, rfl⟩
    exact rsplitOnce_append hback

theorem splitAppendix_eq_ok : splitAppendix value = .ok (uuidText, appendix) ↔
    (byteLength value ≤ 36 ∧ value = uuidText ∧ appendix = 0)
      ∨ ∃ number, value = uuidText ++ '-' :: number ∧ byteLength uuidText = 36 ∧ byteLength number ≤ 8
        ∧ u32FromHex number = some appendix := by
  have hplain : ∀ {number : Text}, u32FromHex number = some appendix → number ≠ [] ∧ '-' ∉ number := by
    intro number h
    obtain ⟨sign, digits, rfl, hsign, hne, hdigits⟩ := u32FromHex_eq_some.mp h
    refine ⟨List.append_ne_nil_of_right_ne_nil _ hne, fun hmem => ?_⟩
    rcases List.mem_append.mp hmem with hmem | hmem
    · rcases hsign with rfl | rfl
      · exact List.not_mem_nil hmem
      · exact absurd (List.mem_singleton.mp hmem) (by decide)
    · exact absurd (isSome_of_hexadecimal hdigits '-' hmem) (by decide)
  unfold splitAppendix
  split_ifs with hlong
  · simp only [bind_eq_ok, orRefused_eq_ok, Option.bind_eq_some_iff]
    constructor
    · rintro ⟨⟨front, number⟩, ⟨-, -, hsplit⟩, h⟩
      obtain ⟨-, rfl⟩ := rsplitOnce_eq_some.mp hsplit
      dsimp only at h
      split_ifs at h with hguard
      · cases h
      · simp only [bind_eq_ok, orRefused_eq_ok, pure_eq_ok, Prod.mk.injEq] at h
        obtain ⟨number', hnumber, rfl, rfl⟩ := h
        rw [not_or, not_or, not_not, not_lt] at hguard
        exact .inr ⟨number, rfl, hguard.1, hguard.2.2, hnumber⟩
    · rintro (⟨hshort, -⟩ | ⟨number, rfl, hfront, hback, hnumber⟩)
      · exact absurd hshort (Nat.not_le.mpr hlong)
      · obtain ⟨hne, hdash⟩ := hplain hnumber
        obtain ⟨parts, hparts⟩ : ∃ parts, splitOnce '-' (uuidText ++ '-' :: number) = some parts := by
          refine Option.ne_none_iff_exists'.mp fun hnone => splitOnce_eq_none.mp hnone ?_
          exact List.mem_append_right _ List.mem_cons_self
        refine ⟨(uuidText, number), ⟨parts, hparts, rsplitOnce_append hdash⟩, ?_⟩
        dsimp only
        rw [if_neg (by simp [hfront, hne, hback])]
        simp only [bind_eq_ok, orRefused_eq_ok, pure_eq_ok]
        exact ⟨appendix, hnumber, rfl⟩
  · constructor
    · intro h
      cases h
      exact .inl ⟨Nat.not_lt.mp hlong, rfl, rfl⟩
    · rintro (⟨-, rfl, rfl⟩ | ⟨number, rfl, hfront, -, -⟩)
      · rfl
      · rw [byteLength_append, byteLength_cons, hfront, show '-'.utf8Size = 1 from rfl] at hlong
        omega

/-- The digits of a UUID are read whatever their case and their dashes. -/
theorem parseUuid_eq_ok : parseUuid value = .ok id ↔
    ∃ uuidText appendix uuid, splitAppendix value = .ok (uuidText, appendix) ∧ Spells uuidText uuid
      ∧ .uuid uuid appendix = id := by
  have hread : ∀ (uuidText : Text) (appendix : BitVec 32),
      (do
        let compact := uuidText.filter (· ≠ '-')
        if byteLength compact ≠ 32 ∨ compact.all isHexDigit = false then refused
        else
          let bytes ← orRefused (hexDecode compact)
          return DebugId.uuid (BitVec.ofNat 128 (readBigEndian bytes)) appendix) = .ok id
        ↔ ∃ uuid, Spells uuidText uuid ∧ .uuid uuid appendix = id := by
    intro uuidText appendix
    dsimp only
    split_ifs with hguard
    · refine iff_of_false (fun h => by cases h) ?_
      rintro ⟨uuid, hspells, -⟩
      have hdigits : ∀ c ∈ uuidText.filter (· ≠ '-'), (hexValue c).isSome := by
        intro c hc
        have hlower : lowerAscii c ∈ hexEncode (bigEndian 16 uuid.toNat) := hspells ▸ List.mem_map_of_mem hc
        rw [← hexValue_lowerAscii]
        exact hexEncode_digits _ _ hlower
      have hlength : byteLength (uuidText.filter (· ≠ '-')) = 32 := by
        rw [← byteLength_toAsciiLowercase, hspells, byteLength_hexEncode, length_bigEndian]
      rcases hguard with hguard | hguard
      · exact hguard hlength
      · have hall : (uuidText.filter (· ≠ '-')).all isHexDigit = true := List.all_eq_true.mpr hdigits
        rw [hall] at hguard
        cases hguard
    · rw [not_or, not_not] at hguard
      simp only [bind_eq_ok, orRefused_eq_ok, pure_eq_ok, hexDecode_eq_some]
      constructor
      · rintro ⟨bytes, hbytes, rfl⟩
        have hlength : bytes.length = 16 := by
          have hsize := congrArg byteLength hbytes
          rw [byteLength_toAsciiLowercase, hguard.1, byteLength_hexEncode] at hsize
          omega
        exact ⟨_, hbytes.trans (congrArg hexEncode (bigEndian_ofNat hlength).symm), rfl⟩
      · rintro ⟨uuid, hspells, rfl⟩
        refine ⟨_, hspells, ?_⟩
        have huuid : BitVec.ofNat 128 (readBigEndian (bigEndian 16 uuid.toNat)) = uuid := ofNat_readBigEndian 16 uuid
        rw [huuid]
  unfold parseUuid
  rw [bind_eq_ok]
  constructor
  · rintro ⟨⟨uuidText, appendix⟩, hsplit, h⟩
    obtain ⟨uuid, hspells, hid⟩ := (hread uuidText appendix).mp h
    exact ⟨uuidText, appendix, uuid, hsplit, hspells, hid⟩
  · rintro ⟨uuidText, appendix, uuid, hsplit, hspells, hid⟩
    exact ⟨(uuidText, appendix), hsplit, (hread uuidText appendix).mpr ⟨uuid, hspells, hid⟩⟩

theorem Spells.chars {uuid : BitVec 128} (h : Spells digits uuid) : ∀ c ∈ digits, c = '-' ∨ (hexValue c).isSome := by
  intro c hc
  by_cases hdash : c = '-'
  · exact .inl hdash
  · have hmem : c ∈ digits.filter (· ≠ '-') := List.mem_filter.mpr ⟨hc, decide_eq_true hdash⟩
    have hlower : lowerAscii c ∈ hexEncode (bigEndian 16 uuid.toNat) := h ▸ List.mem_map_of_mem hmem
    rw [← hexValue_lowerAscii]
    exact .inr (hexEncode_digits _ _ hlower)

theorem not_mem_of_hexadecimal {c : Char} {number : Nat} (hc : hexValue c = none)
    (h : hexadecimal digits = some number) : c ∉ digits :=
  fun hmem => ne_of_digit hc (isSome_of_hexadecimal h c hmem) rfl

/-- Only the timestamp of a PDB stands before a colon. -/
theorem Spelling.colon (h : Spelling value id) :
    ':' ∉ value ∨ ∃ time count timestamp age, PdbText time count timestamp age ∧ ':' ∉ time
      ∧ value = time ++ ':' :: count ∧ id = .pdb20 timestamp age := by
  have hspelled : ∀ {digits : Text} {uuid : BitVec 128}, Spells digits uuid → ':' ∉ digits := by
    intro digits uuid h hmem
    rcases h.chars ':' hmem with hdash | hdigit
    · exact absurd hdash (by decide)
    · exact ne_of_digit hexValue_dash.2 hdigit rfl
  cases h with
  | plain _ hdigits => exact .inl (hspelled hdigits)
  | appended _ hdigits hsign _ _ happendix =>
      refine .inl fun hmem => ?_
      simp only [List.mem_append, List.mem_cons] at hmem
      rcases hmem with hmem | hmem | hmem | hmem
      · exact hspelled hdigits hmem
      · exact absurd hmem (by decide)
      · rcases hsign with rfl | rfl
        · exact List.not_mem_nil hmem
        · exact absurd (List.mem_singleton.mp hmem) (by decide)
      · exact not_mem_of_hexadecimal hexValue_dash.2 happendix hmem
  | pdb20 h => exact .inr ⟨_, _, _, _, h, not_mem_of_hexadecimal hexValue_dash.2 h.timestamp_eq, rfl, rfl⟩

theorem parseUuid_eq_ok_iff : parseUuid value = .ok id ↔ Spelling value id ∧ ':' ∉ value := by
  rw [parseUuid_eq_ok]
  constructor
  · rintro ⟨uuidText, appendix, uuid, hsplit, hspells, rfl⟩
    have hspelling : Spelling value (.uuid uuid appendix) := by
      rcases splitAppendix_eq_ok.mp hsplit with ⟨hshort, rfl, rfl⟩ | ⟨number, rfl, hfront, hback, hnumber⟩
      · exact .plain hshort hspells
      · obtain ⟨sign, count, rfl, hsign, hne, hcount⟩ := u32FromHex_eq_some.mp hnumber
        exact .appended hfront hspells hsign hne hback hcount
    rcases hspelling.colon with hcolon | ⟨_, _, _, _, -, -, -, hid⟩
    · exact ⟨hspelling, hcolon⟩
    · cases hid
  · rintro ⟨hspelling, hcolon⟩
    cases hspelling with
    | plain hlength hdigits => exact ⟨_, _, _, splitAppendix_eq_ok.mpr (.inl ⟨hlength, rfl, rfl⟩), hdigits, rfl⟩
    | appended hlength hdigits hsign hne hnumber happendix =>
        have hread := u32FromHex_eq_some.mpr ⟨_, _, rfl, hsign, hne, happendix⟩
        exact ⟨_, _, _, splitAppendix_eq_ok.mpr (.inr ⟨_, rfl, hlength, hnumber, hread⟩), hdigits, rfl⟩
    | pdb20 => exact absurd (List.mem_append_right _ List.mem_cons_self) hcolon

/-- Digits without a sign. -/
theorem u32FromHex_of_digits {number : BitVec 32} :
    (digits.all isHexDigit = true ∧ u32FromHex digits = some number)
      ↔ digits ≠ [] ∧ hexadecimal digits = some number.toNat := by
  rw [u32FromHex_eq_some]
  constructor
  · rintro ⟨hall, sign, rest, rfl, hsign, hne, hvalue⟩
    rcases hsign with rfl | rfl
    · exact ⟨hne, hvalue⟩
    · exact absurd (List.all_eq_true.mp hall '+' List.mem_cons_self) (by decide)
  · rintro ⟨hne, hvalue⟩
    exact ⟨List.all_eq_true.mpr (isSome_of_hexadecimal hvalue), [], digits, rfl, .inl rfl, hne, hvalue⟩

/-- A text is parsed as the debug id that it spells. -/
theorem parse_eq_ok : parse value = .ok id ↔ Spelling value id := by
  cases hsplit : splitOnce ':' value with
  | none =>
      rw [parse, hsplit]
      exact parseUuid_eq_ok_iff.trans (and_iff_left (splitOnce_eq_none.mp hsplit))
  | some parts =>
      obtain ⟨time, count⟩ := parts
      obtain ⟨hcolon, rfl⟩ := splitOnce_eq_some.mp hsplit
      have hmem : ':' ∈ time ++ ':' :: count := List.mem_append_right _ List.mem_cons_self
      have hspelling : Spelling (time ++ ':' :: count) id
          ↔ ∃ timestamp age, PdbText time count timestamp age ∧ .pdb20 timestamp age = id := by
        constructor
        · intro h
          rcases h.colon with hnone | ⟨time', count', timestamp, age, hpdb, hcolon', htext, rfl⟩
          · exact absurd hmem hnone
          · have hsame := splitOnce_eq_some.mpr ⟨hcolon', htext⟩
            rw [hsplit] at hsame
            cases hsame
            exact ⟨timestamp, age, hpdb, rfl⟩
        · rintro ⟨timestamp, age, hpdb, rfl⟩
          exact .pdb20 hpdb
      rw [hspelling, parse, hsplit]
      dsimp only
      split_ifs with hform
      · obtain ⟨htime, hcount, htimeAll, hcountAll⟩ := hform
        simp only [bind_eq_ok, orRefused_eq_ok, pure_eq_ok]
        constructor
        · rintro ⟨timestamp, htimestamp, age, hage, rfl⟩
          obtain ⟨-, htimestamp⟩ := u32FromHex_of_digits.mp ⟨htimeAll, htimestamp⟩
          obtain ⟨hne, hage⟩ := u32FromHex_of_digits.mp ⟨hcountAll, hage⟩
          exact ⟨timestamp, age, ⟨htime, hne, hcount, htimestamp, hage⟩, rfl⟩
        · rintro ⟨timestamp, age, hpdb, rfl⟩
          have hne : time ≠ [] := by
            rintro rfl
            cases htime
          exact ⟨timestamp, (u32FromHex_of_digits.mpr ⟨hne, hpdb.timestamp_eq⟩).2, age,
            (u32FromHex_of_digits.mpr ⟨hpdb.count_ne, hpdb.age_eq⟩).2, rfl⟩
      · refine iff_of_false (fun h => (parseUuid_eq_ok_iff.mp h).2 hmem) ?_
        rintro ⟨timestamp, age, hpdb, -⟩
        exact hform ⟨hpdb.time_length, hpdb.count_length,
          List.all_eq_true.mpr (isSome_of_hexadecimal hpdb.timestamp_eq),
          List.all_eq_true.mpr (isSome_of_hexadecimal hpdb.age_eq)⟩

/-- What is displayed is a spelling: the digits in groups, or the timestamp with its zeros. -/
theorem spelling_display (id : DebugId) : Spelling id.display id := by
  have hcount : ∀ number : BitVec 32, (∀ c ∈ Nat.toDigits 16 number.toNat, (hexValue c).isSome)
      ∧ (Nat.toDigits 16 number.toNat).length ≤ 8 := fun number =>
    ⟨isSome_of_hexadecimal (hexadecimal_toDigits number.toNat),
      (Nat.length_toDigits_le_iff (by decide) (by decide)).mpr number.isLt⟩
  cases id with
  | uuid id appendix =>
      have hdigits := hexEncode_digits (bigEndian 16 id.toNat)
      have hspells : Spells (grouped (hexEncode (bigEndian 16 id.toNat))) id := by
        rw [Spells, filter_grouped fun c hc => ne_of_digit hexValue_dash.1 (hdigits c hc)]
        exact hexDecode_eq_some.mp (hexDecode_hexEncode _)
      have hlength : byteLength (grouped (hexEncode (bigEndian 16 id.toNat))) = 36 := by
        refine byteLength_grouped hdigits ?_
        rw [← byteLength_of_hexValue hdigits, byteLength_hexEncode, length_bigEndian]
      rw [display]
      by_cases happendix : appendix = 0
      · rw [if_neg (not_not.mpr happendix), List.append_nil, happendix]
        exact .plain hlength.le hspells
      · obtain ⟨hnumber, hshort⟩ := hcount appendix
        rw [if_pos happendix]
        refine .appended hlength hspells (.inl rfl) Nat.toDigits_ne_nil ?_ (hexadecimal_toDigits appendix.toNat)
        exact (byteLength_of_hexValue hnumber).trans_le hshort
  | pdb20 timestamp age =>
      obtain ⟨hageDigits, hage⟩ := hcount age
      obtain ⟨-, htimestamp⟩ := hcount timestamp
      have hread : hexadecimal (padded timestamp.toNat) = some timestamp.toNat := by
        rw [padded, hexadecimal_zeros, hexadecimal_toDigits]
      refine .pdb20 ⟨?_, Nat.toDigits_ne_nil, ?_, hread, hexadecimal_toDigits age.toNat⟩
      · rw [byteLength_of_hexValue (isSome_of_hexadecimal hread), padded, List.length_append, List.length_replicate]
        omega
      · exact (byteLength_of_hexValue hageDigits).trans_le hage

theorem parse_display (id : DebugId) : parse id.display = .ok id := parse_eq_ok.mpr (spelling_display id)

theorem spells_toAsciiLowercase {digits : Text} {uuid : BitVec 128} :
    Spells (toAsciiLowercase digits) uuid ↔ Spells digits uuid := by
  rw [Spells, Spells, filter_toAsciiLowercase (by decide), toAsciiLowercase_idem]

theorem pdbText_toAsciiLowercase {time count : Text} {timestamp age : BitVec 32} :
    PdbText (toAsciiLowercase time) (toAsciiLowercase count) timestamp age ↔ PdbText time count timestamp age := by
  constructor
  · rintro ⟨htime, hne, hcount, htimestamp, hage⟩
    rw [byteLength_toAsciiLowercase] at htime hcount
    rw [hexadecimal_toAsciiLowercase] at htimestamp hage
    exact ⟨htime, fun h => hne (congrArg toAsciiLowercase h), hcount, htimestamp, hage⟩
  · rintro ⟨htime, hne, hcount, htimestamp, hage⟩
    rw [← byteLength_toAsciiLowercase] at htime hcount
    rw [← hexadecimal_toAsciiLowercase] at htimestamp hage
    exact ⟨htime, fun h => hne (List.map_eq_nil_iff.mp h), hcount, htimestamp, hage⟩

theorem toAsciiLowercase_append_cons {separator : Char} (h : separator.toNat < 65) (before after : Text) :
    toAsciiLowercase (before ++ separator :: after)
      = toAsciiLowercase before ++ separator :: toAsciiLowercase after := by
  rw [toAsciiLowercase, List.map_append, List.map_cons, (lowerAscii_eq_iff h).mpr rfl]
  rfl

/-- The case of the letters does not matter. -/
theorem spelling_toAsciiLowercase : Spelling (toAsciiLowercase value) id ↔ Spelling value id := by
  constructor
  · intro h
    generalize htext : toAsciiLowercase value = text at h
    cases h with
    | plain hlength hdigits =>
        subst htext
        exact .plain (byteLength_toAsciiLowercase value ▸ hlength) (spells_toAsciiLowercase.mp hdigits)
    | appended hlength hdigits hsign hne hnumber happendix =>
        obtain ⟨before, after, rfl, rfl, hafter⟩ := toAsciiLowercase_eq_append (by decide) htext
        obtain ⟨sign, number, rfl, rfl, rfl⟩ := List.map_eq_append_iff.mp hafter
        have hsame : sign = [] ∨ sign = ['+'] := by
          refine hsign.imp List.map_eq_nil_iff.mp fun hplus => ?_
          obtain ⟨c, rfl, hc⟩ := List.map_eq_singleton_iff.mp hplus
          rw [(lowerAscii_eq_iff (by decide)).mp hc]
        rw [← List.map_append] at hnumber
        refine .appended (byteLength_toAsciiLowercase before ▸ hlength) (spells_toAsciiLowercase.mp hdigits) hsame
          (fun h => hne (congrArg toAsciiLowercase h)) ?_ ?_
        · exact (byteLength_toAsciiLowercase _).symm.trans_le hnumber
        · exact (hexadecimal_toAsciiLowercase number).symm.trans happendix
    | pdb20 h =>
        obtain ⟨time, count, rfl, rfl, rfl⟩ := toAsciiLowercase_eq_append (by decide) htext
        exact .pdb20 (pdbText_toAsciiLowercase.mp h)
  · intro h
    cases h with
    | plain hlength hdigits =>
        exact .plain ((byteLength_toAsciiLowercase value).trans_le hlength) (spells_toAsciiLowercase.mpr hdigits)
    | @appended digits sign number _ _ hlength hdigits hsign hne hnumber happendix =>
        have hsame : toAsciiLowercase sign = sign := by
          rcases hsign with rfl | rfl
          · rfl
          · decide
        have hsplit : toAsciiLowercase (sign ++ number) = sign ++ toAsciiLowercase number := by
          rw [toAsciiLowercase, List.map_append]
          exact congrArg (· ++ _) hsame
        rw [toAsciiLowercase_append_cons (by decide), hsplit]
        refine .appended ((byteLength_toAsciiLowercase digits).trans hlength) (spells_toAsciiLowercase.mpr hdigits)
          hsign (fun h => hne (List.map_eq_nil_iff.mp h)) ?_ ((hexadecimal_toAsciiLowercase number).trans happendix)
        rw [← hsplit, byteLength_toAsciiLowercase]
        exact hnumber
    | pdb20 h =>
        rw [toAsciiLowercase_append_cons (by decide)]
        exact .pdb20 (pdbText_toAsciiLowercase.mpr h)

theorem parse_toAsciiLowercase : parse (toAsciiLowercase value) = .ok id ↔ parse value = .ok id := by
  rw [parse_eq_ok, parse_eq_ok, spelling_toAsciiLowercase]

end DebugId

/-! ### Code ids -/

/-- A code id is a text of hexadecimal digits in lower case. -/
structure CodeId where
  text : Text
  ne_nil : text ≠ []
  length_le : byteLength text ≤ 128
  digits : ∀ c ∈ text, (hexValue c).isSome
  lowercase : toAsciiLowercase text = text

namespace CodeId

def parse (value : Text) : Except DebugFileValueError CodeId :=
  if h : toAsciiLowercase value ≠ [] ∧ byteLength (toAsciiLowercase value) ≤ 128
      ∧ (toAsciiLowercase value).all isHexDigit = true then
    .ok ⟨toAsciiLowercase value, h.1, h.2.1, List.all_eq_true.mp h.2.2, toAsciiLowercase_idem value⟩
  else .error .invalidCodeId

/-- The value of a digit; the characters of a code id are all digits. -/
def nibble (c : Char) : Nat := (hexValue c).getD 0

/-- Two digits a byte, and a zero behind the last one of an odd number. -/
def pack : Text → List (BitVec 8)
  | [] => []
  | [high] => [BitVec.ofNat 8 (nibble high * 16)]
  | high :: low :: digits => BitVec.ofNat 8 (nibble high * 16 + nibble low) :: pack digits

def encode (id : CodeId) : List (BitVec 8) := BitVec.ofNat 8 (byteLength id.text % 2) :: pack id.text

/-- `hex_digit`. -/
def hexDigit (value : Nat) : Char := Nat.digitChar value

/-- The digits of packed bytes; of the last one the low digit is left out where the number is odd. -/
def unpack (flags : BitVec 8) : List (BitVec 8) → Text
  | [] => []
  | [byte] => hexDigit (byte.toNat / 16) :: if flags = 1 then [] else [hexDigit (byte.toNat % 16)]
  | byte :: bytes => hexDigit (byte.toNat / 16) :: hexDigit (byte.toNat % 16) :: unpack flags bytes

def decode : List (BitVec 8) → Except DebugFileValueError CodeId
  | [] => .error .invalidCodeId
  | flags :: packed =>
      if 1 < flags.toNat ∨ packed = [] ∨ (flags = 1 ∧ (packed.getLast?.map fun byte => byte.toNat % 16) ≠ some 0) then
        .error .invalidCodeId
      else parse (unpack flags packed)

/-! ### Reading code ids back -/

/-- A digit in lower case is what is written for its value. -/
theorem hexDigit_nibble {c : Char} (h : (hexValue c).isSome) (hlower : lowerAscii c = c) :
    nibble c < 16 ∧ hexDigit (nibble c) = c := by
  have hcode : ∀ code < 128, ((hexValue (Char.ofNat code)).isSome ∧ lowerAscii (Char.ofNat code) = Char.ofNat code) →
      nibble (Char.ofNat code) < 16 ∧ hexDigit (nibble (Char.ofNat code)) = Char.ofNat code := by
    decide
  have hascii : c.toNat < 128 := by
    have hsize := utf8Size_of_hexValue h
    rw [Char.utf8Size_eq_one_iff, UInt32.le_iff_toNat_le] at hsize
    exact Nat.lt_succ_of_le hsize
  have hchar := hcode c.toNat hascii
  rw [Char.ofNat_toNat] at hchar
  exact hchar ⟨h, hlower⟩

theorem nibble_hexDigit {value : Nat} (h : value < 16) : nibble (hexDigit value) = value := by
  rw [nibble, hexDigit, hexValue_digitChar value h]
  rfl

theorem hexDigit_lowercase {value : Nat} (h : value < 16) : lowerAscii (hexDigit value) = hexDigit value := by
  have hall : ∀ value < 16, lowerAscii (hexDigit value) = hexDigit value := by decide
  exact hall value h

theorem pack_ne_nil (c : Char) (digits : Text) : pack (c :: digits) ≠ [] := by
  cases digits with
  | nil => exact List.cons_ne_nil _ _
  | cons low digits => exact List.cons_ne_nil _ _

/-- The digits come back from their bytes; the flag tells whether their number is odd. -/
theorem unpack_pack {flags : BitVec 8} : ∀ {digits : Text}, (∀ c ∈ digits, (hexValue c).isSome ∧ lowerAscii c = c) →
    (flags = 1 ↔ digits.length % 2 = 1) → unpack flags (pack digits) = digits
  | [], _, _ => rfl
  | [high], hdigits, hflags => by
      obtain ⟨hlt, hhigh⟩ := (hexDigit_nibble (hdigits high List.mem_cons_self).1 (hdigits high List.mem_cons_self).2)
      have hbyte : (BitVec.ofNat 8 (nibble high * 16)).toNat = nibble high * 16 := by
        rw [BitVec.toNat_ofNat]
        omega
      rw [pack, unpack, hbyte, Nat.mul_div_cancel _ (by decide), hhigh, if_pos (hflags.mpr rfl)]
  | high :: low :: digits, hdigits, hflags => by
      rw [List.forall_mem_cons, List.forall_mem_cons] at hdigits
      obtain ⟨hhigh, hlow, hrest⟩ := hdigits
      obtain ⟨hhighLt, hhigh⟩ := hexDigit_nibble hhigh.1 hhigh.2
      obtain ⟨hlowLt, hlow⟩ := hexDigit_nibble hlow.1 hlow.2
      have hbyte : (BitVec.ofNat 8 (nibble high * 16 + nibble low)).toNat = nibble high * 16 + nibble low := by
        rw [BitVec.toNat_ofNat]
        omega
      have hquotient : (nibble high * 16 + nibble low) / 16 = nibble high := by omega
      have hremainder : (nibble high * 16 + nibble low) % 16 = nibble low := by omega
      have hparity : flags = 1 ↔ digits.length % 2 = 1 := by
        rw [hflags, List.length_cons, List.length_cons]
        omega
      have ih := unpack_pack hrest hparity
      cases digits with
      | nil =>
          have hflags : ¬ flags = 1 := fun hone => absurd (hparity.mp hone) (by decide)
          rw [pack, pack, unpack, hbyte, hquotient, hremainder, hhigh, hlow, if_neg hflags]
      | cons c digits =>
          rw [pack, unpack, hbyte, hquotient, hremainder, hhigh, hlow, ih]
          exact pack_ne_nil c digits

/-- The bytes come back from their digits, when the half that the flag leaves out is zero. -/
theorem pack_unpack {flags : BitVec 8} : ∀ {packed : List (BitVec 8)}, packed ≠ [] →
    (flags = 1 → (packed.getLast?.map fun byte => byte.toNat % 16) = some 0) →
    pack (unpack flags packed) = packed ∧ ((unpack flags packed).length % 2 = 1 ↔ flags = 1)
  | [], hne, _ => absurd rfl hne
  | [byte], _, hlast => by
      have hbyte := byte.isLt
      have hhigh : nibble (hexDigit (byte.toNat / 16)) = byte.toNat / 16 := nibble_hexDigit (by omega)
      have hlow : nibble (hexDigit (byte.toNat % 16)) = byte.toNat % 16 := nibble_hexDigit (by omega)
      by_cases hflags : flags = 1
      · have hzero : byte.toNat % 16 = 0 := Option.some.inj (hlast hflags)
        have hpacked : byte.toNat / 16 * 16 = byte.toNat := by omega
        rw [unpack, if_pos hflags, pack, hhigh, hpacked, BitVec.ofNat_toNat, BitVec.setWidth_eq]
        exact ⟨rfl, iff_of_true rfl hflags⟩
      · rw [unpack, if_neg hflags, pack, pack, hhigh, hlow, Nat.div_add_mod', BitVec.ofNat_toNat, BitVec.setWidth_eq]
        exact ⟨rfl, iff_of_false (by simp) hflags⟩
  | byte :: next :: packed, _, hlast => by
      have hbyte := byte.isLt
      have hhigh : nibble (hexDigit (byte.toNat / 16)) = byte.toNat / 16 := nibble_hexDigit (by omega)
      have hlow : nibble (hexDigit (byte.toNat % 16)) = byte.toNat % 16 := nibble_hexDigit (by omega)
      have hlater : flags = 1 → ((next :: packed).getLast?.map fun byte => byte.toNat % 16) = some 0 := by
        intro hflags
        rw [← hlast hflags, List.getLast?_cons_cons]
      obtain ⟨ih, hparity⟩ := pack_unpack (List.cons_ne_nil next packed) hlater
      rw [unpack, pack, hhigh, hlow, Nat.div_add_mod', BitVec.ofNat_toNat, BitVec.setWidth_eq, ih, ← hparity,
        List.length_cons, List.length_cons]
      · exact ⟨rfl, by omega⟩
      · exact List.cons_ne_nil next packed

/-- The last byte of an odd number of digits has a zero in its low half. -/
theorem getLast?_pack : ∀ {digits : Text}, digits.length % 2 = 1 →
    ((pack digits).getLast?.map fun byte => byte.toNat % 16) = some 0
  | [], h => absurd h Nat.zero_ne_one
  | [high], _ => by
      rw [pack, List.getLast?_singleton, Option.map_some, BitVec.toNat_ofNat]
      congr 1
      omega
  | high :: low :: digits, h => by
      have hrest : digits.length % 2 = 1 := by
        rw [List.length_cons, List.length_cons] at h
        omega
      have ih := getLast?_pack hrest
      cases digits with
      | nil => exact absurd hrest Nat.zero_ne_one
      | cons c digits =>
          obtain ⟨byte, bytes, hbytes⟩ := List.exists_cons_of_ne_nil (pack_ne_nil c digits)
          rw [pack, hbytes, List.getLast?_cons_cons, ← hbytes, ih]

theorem unpack_digits (flags : BitVec 8) (packed : List (BitVec 8)) :
    ∀ c ∈ unpack flags packed, (hexValue c).isSome ∧ lowerAscii c = c := by
  have hdigit : ∀ value < 16, (hexValue (hexDigit value)).isSome ∧ lowerAscii (hexDigit value) = hexDigit value := by
    intro value hvalue
    refine ⟨?_, hexDigit_lowercase hvalue⟩
    rw [hexDigit, hexValue_digitChar value hvalue]
    rfl
  fun_induction unpack flags packed with
  | case1 => exact nofun
  | case2 byte =>
      have hbyte := byte.isLt
      have hlow : ∀ c ∈ (if flags = 1 then [] else [hexDigit (byte.toNat % 16)]),
          (hexValue c).isSome ∧ lowerAscii c = c := by
        split_ifs with hflags
        · exact nofun
        · exact List.forall_mem_singleton.mpr (hdigit _ (by omega))
      exact List.forall_mem_cons.mpr ⟨hdigit _ (by omega), hlow⟩
  | case3 byte packed hne ih =>
      have hbyte := byte.isLt
      exact List.forall_mem_cons.mpr ⟨hdigit _ (by omega), List.forall_mem_cons.mpr ⟨hdigit _ (by omega), ih⟩⟩

theorem text_injective : Function.Injective text := by
  rintro ⟨left, _, _, _, _⟩ ⟨right, _, _, _, _⟩ h
  cases h
  rfl

theorem chars (id : CodeId) : ∀ c ∈ id.text, (hexValue c).isSome ∧ lowerAscii c = c := by
  intro c hc
  refine ⟨id.digits c hc, ?_⟩
  have hmap : id.text.map lowerAscii = id.text.map fun c => c := id.lowercase.trans (List.map_id' id.text).symm
  exact List.map_inj_left.mp hmap c hc

theorem lowercase_of_chars {text : Text} (h : ∀ c ∈ text, lowerAscii c = c) : toAsciiLowercase text = text :=
  calc text.map lowerAscii = text.map fun c => c := List.map_congr_left h
    _ = text := List.map_id' text

/-- A text is parsed as the code id that it is in lower case. -/
theorem parse_eq_ok {value : Text} {id : CodeId} : parse value = .ok id ↔ toAsciiLowercase value = id.text := by
  constructor
  · intro h
    rw [parse] at h
    split_ifs at h with hvalid
    rw [← Except.ok.inj h]
  · intro h
    have hall : (toAsciiLowercase value).all isHexDigit = true := h ▸ List.all_eq_true.mpr id.digits
    rw [parse, dif_pos ⟨h ▸ id.ne_nil, h ▸ id.length_le, hall⟩]
    exact congrArg _ (text_injective h)

theorem length_text (id : CodeId) : byteLength id.text = id.text.length := byteLength_of_hexValue id.digits

theorem decode_encode (id : CodeId) : decode id.encode = .ok id := by
  have hflag : (BitVec.ofNat 8 (id.text.length % 2)).toNat = id.text.length % 2 := by
    rw [BitVec.toNat_ofNat]
    omega
  have hone : BitVec.ofNat 8 (id.text.length % 2) = 1 ↔ id.text.length % 2 = 1 := by
    rw [← BitVec.toNat_inj, hflag]
    rfl
  obtain ⟨c, digits, htext⟩ := List.exists_cons_of_ne_nil id.ne_nil
  rw [encode, length_text, decode, if_neg, unpack_pack id.chars hone, parse_eq_ok.mpr id.lowercase]
  rw [hflag, hone, not_or, not_or, not_and]
  refine ⟨by omega, ?_, fun hodd => not_not.mpr (getLast?_pack hodd)⟩
  rw [htext]
  exact pack_ne_nil c digits

theorem encode_of_decode {bytes : List (BitVec 8)} {id : CodeId} (h : decode bytes = .ok id) : id.encode = bytes := by
  cases bytes with
  | nil => cases h
  | cons flags packed =>
      rw [decode] at h
      split_ifs at h with hguard
      rw [not_or, not_or, not_and, not_not] at hguard
      obtain ⟨hflags, hpacked, hlast⟩ := hguard
      obtain ⟨hpack, hparity⟩ := pack_unpack hpacked hlast
      have htext : id.text = unpack flags packed := by
        rw [← parse_eq_ok.mp h, lowercase_of_chars fun c hc => (unpack_digits flags packed c hc).2]
      have hflag : BitVec.ofNat 8 ((unpack flags packed).length % 2) = flags := by
        by_cases hone : flags = 1
        · rw [hparity.mpr hone, hone]
          rfl
        · have hzero : flags.toNat ≠ 1 := fun heq => hone (BitVec.eq_of_toNat_eq heq)
          have heven : (unpack flags packed).length % 2 = 0 := by
            have := mt hparity.mp hone
            omega
          apply BitVec.eq_of_toNat_eq
          rw [heven, BitVec.toNat_ofNat]
          omega
      rw [encode, length_text, htext, hflag, hpack]

end CodeId

/-- A storage key is read as the identifier that it was made for and as no other, no two identifiers have one key, and
a debug id is parsed from its text. The texts that are parsed as an identifier are its spellings, so two texts have one
key exactly when they spell one identifier. -/
theorem debugIdentifiers_keys :
    (∀ id : DebugId, DebugId.decode id.encode = .ok id ∧ DebugId.parse id.display = .ok id)
      ∧ (∀ (bytes : List (BitVec 8)) (id : DebugId), DebugId.decode bytes = .ok id ↔ id.encode = bytes)
      ∧ (∀ id : CodeId, CodeId.decode id.encode = .ok id)
      ∧ (∀ (bytes : List (BitVec 8)) (id : CodeId), CodeId.decode bytes = .ok id ↔ id.encode = bytes)
      ∧ (∀ left right : DebugId, left.encode = right.encode ↔ left = right)
      ∧ (∀ left right : CodeId, left.encode = right.encode ↔ left = right)
      ∧ (∀ (value : Text) (id : DebugId), (DebugId.parse value = .ok id ↔ DebugId.Spelling value id)
        ∧ (DebugId.parse (toAsciiLowercase value) = .ok id ↔ DebugId.parse value = .ok id))
      ∧ (∀ (left right : Text) (first second : DebugId), DebugId.parse left = .ok first →
        DebugId.parse right = .ok second →
          (first.encode = second.encode ↔ ∃ id, DebugId.Spelling left id ∧ DebugId.Spelling right id))
      ∧ (∀ (value : Text) (id : CodeId), CodeId.parse value = .ok id ↔ toAsciiLowercase value = id.text)
      ∧ ∀ (left right : Text) (first second : CodeId), CodeId.parse left = .ok first →
        CodeId.parse right = .ok second →
          (first.encode = second.encode ↔ toAsciiLowercase left = toAsciiLowercase right) := by
  have hdebug : ∀ (bytes : List (BitVec 8)) (id : DebugId), DebugId.decode bytes = .ok id ↔ id.encode = bytes :=
    fun bytes id => ⟨DebugId.encode_of_decode, fun h => h ▸ DebugId.decode_encode id⟩
  have hcode : ∀ (bytes : List (BitVec 8)) (id : CodeId), CodeId.decode bytes = .ok id ↔ id.encode = bytes :=
    fun bytes id => ⟨CodeId.encode_of_decode, fun h => h ▸ CodeId.decode_encode id⟩
  have hdebugKey : ∀ left right : DebugId, left.encode = right.encode ↔ left = right := by
    refine fun left right => ⟨fun h => ?_, congrArg _⟩
    exact Except.ok.inj (((hdebug _ _).mpr h).symm.trans (DebugId.decode_encode right))
  have hcodeKey : ∀ left right : CodeId, left.encode = right.encode ↔ left = right := by
    refine fun left right => ⟨fun h => ?_, congrArg _⟩
    exact Except.ok.inj (((hcode _ _).mpr h).symm.trans (CodeId.decode_encode right))
  refine ⟨fun id => ⟨DebugId.decode_encode id, DebugId.parse_display id⟩, hdebug, CodeId.decode_encode, hcode,
    hdebugKey, hcodeKey, fun value id => ⟨DebugId.parse_eq_ok, DebugId.parse_toAsciiLowercase⟩,
    fun left right first second hfirst hsecond => ?_, fun value id => CodeId.parse_eq_ok,
    fun left right first second hfirst hsecond => ?_⟩
  · rw [hdebugKey]
    constructor
    · rintro rfl
      exact ⟨first, DebugId.parse_eq_ok.mp hfirst, DebugId.parse_eq_ok.mp hsecond⟩
    · rintro ⟨id, hleft, hright⟩
      rw [DebugId.parse_eq_ok.mpr hleft] at hfirst
      rw [DebugId.parse_eq_ok.mpr hright] at hsecond
      exact (Except.ok.inj hfirst).symm.trans (Except.ok.inj hsecond)
  · rw [hcodeKey, CodeId.parse_eq_ok.mp hfirst, CodeId.parse_eq_ok.mp hsecond]
    exact ⟨congrArg CodeId.text, fun h => CodeId.text_injective h⟩

example : DebugId.parse "67E9247C814e392ba027dbde6748fcbf".toList
    = DebugId.parse "67e9247c-814e-392b-a027-dbde6748fcbf".toList := by
  decide +kernel

end MetricBackend
