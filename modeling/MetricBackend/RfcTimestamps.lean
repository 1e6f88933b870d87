import MetricBackend.DomainValues
import MetricBackend.LibCalendar
import MetricBackend.LibFallible
import MetricBackend.LibSlices
import Mathlib.Data.Rat.Floor
import Mathlib.Tactic.FieldSimp
import Mathlib.Tactic.Positivity

/-! The reader of RFC 3339 timestamps: the texts it takes, the instants they denote, and that none of its slices and
none of its arithmetic panics. -/

namespace MetricBackend

namespace RfcTimestamps

/-- A `&str`, which has at most `isize::MAX` bytes. -/
structure Str where
  text : Text
  size_le : byteLength text ≤ i64Max

/-- How the reader ends without a value. -/
inductive Halt where
  | failed (error : PrimitiveError)
  | panic
deriving DecidableEq

/-! ### The reader -/

def refuse {α : Type} : Except Halt α := .error (.failed .timestampOutOfRange)

/-- `ok_or(PrimitiveError::TimestampOutOfRange)`. -/
def okOr {α : Type} : Option α → Except Halt α
  | some value => .ok value
  | none => refuse

/-- The result of an operator on `i64`. -/
def plain (value : Int) : Except Halt Int := if InI64 value then .ok value else .error .panic

/-- The result of a `checked_` operation of `i64`. -/
def checked (value : Int) : Except Halt Int := if InI64 value then .ok value else refuse

/-- The sum of two `usize`. -/
def usizeAdd (left right : Nat) : Except Halt Nat :=
  if left + right < 2 ^ 64 then .ok (left + right) else .error .panic

/-- The difference of two `usize`. -/
def usizeSub (left right : Nat) : Except Halt Nat := if right ≤ left then .ok (left - right) else .error .panic

/-- The indexing `value[start..stop]`. -/
def slice (value : Text) (start stop : Nat) : Except Halt Text :=
  match sliceBytes value start stop with
  | some part => .ok part
  | none => .error .panic

def parseDigits (value : Text) (start length : Nat) : Except Halt Nat := do
  let stop ← usizeAdd start length
  okOr (((sliceBytes value start stop).filter fun value => (utf8Bytes value).all isAsciiDigit).bind parseU32)

def daysInMonth (year : Int) (month : Nat) : Nat :=
  if month = 4 ∨ month = 6 ∨ month = 9 ∨ month = 11 then 30
  else if month = 2 ∧ year.tmod 4 = 0 ∧ (year.tmod 100 ≠ 0 ∨ year.tmod 400 = 0) then 29
  else if month = 2 then 28
  else 31

def daysFromCivil (year : Int) (month day : Nat) : Except Halt Int := do
  let year ← plain (year - if month ≤ 2 then 1 else 0)
  let first ← (if 0 ≤ year then .ok year else plain (year - 399))
  let era := first.tdiv 400
  let yearOfEra ← plain (year - (← plain (era * 400)))
  let month ← plain (month + if 2 < month then -3 else 9)
  let dayOfYear ← plain ((← plain ((← plain ((← plain (153 * month)) + 2)).tdiv 5 + day)) - 1)
  let dayOfEra ← plain ((← plain (yearOfEra * 365)) + yearOfEra.tdiv 4)
  let dayOfEra ← plain ((← plain (dayOfEra - yearOfEra.tdiv 100)) + dayOfYear)
  plain ((← plain ((← plain (era * 146097)) + dayOfEra)) - 719468)

/-- The loop that moves the cursor over the digits. -/
def skipDigits : List (BitVec 8) → Nat → Except Halt Nat
  | [], cursor => .ok cursor
  | byte :: bytes, cursor =>
      if isAsciiDigit byte then do skipDigits bytes (← usizeAdd cursor 1)
      else .ok cursor

/-- The fraction of a second at the cursor: the position behind it and its milliseconds. -/
def parseFraction (value : Text) (cursor : Nat) : Except Halt (Nat × Int) :=
  if (utf8Bytes value)[cursor]? = some (byteOf '.') then do
    let start ← usizeAdd cursor 1
    let cursor ← skipDigits ((utf8Bytes value).drop start) start
    if cursor = start then refuse
    else
      let fraction ← slice value start cursor
      let firstThree ← slice fraction 0 (min (byteLength fraction) 3)
      let millis ← okOr (parseI64 firstThree)
      let power ← plain (10 ^ (← usizeSub 3 (byteLength firstThree)))
      return (cursor, ← plain (millis * power))
  else .ok (cursor, 0)

/-- The byte at a position is one of two. -/
def isEither (value : Text) (position : Nat) (left right : Char) : Bool :=
  (utf8Bytes value)[position]? = some (byteOf left) || (utf8Bytes value)[position]? = some (byteOf right)

/-- The guard of the first pattern of the zone. -/
def isUtc (value : Text) (cursor : Nat) : Except Halt Bool :=
  if isEither value cursor 'Z' 'z' then do return (← usizeAdd cursor 1) = byteLength value
  else .ok false

/-- The guard of the second pattern of the zone. -/
def isOffset (value : Text) (cursor : Nat) : Except Halt Bool :=
  if isEither value cursor '+' '-' then do
    if (← usizeAdd cursor 6) = byteLength value then
      return (utf8Bytes value)[← usizeAdd cursor 3]? = some (byteOf ':')
    else return false
  else .ok false

/-- The seconds of the zone at the cursor. -/
def parseOffset (value : Text) (cursor : Nat) : Except Halt Int := do
  if ← isUtc value cursor then return 0
  else if ← isOffset value cursor then
    let hours ← parseDigits value (← usizeAdd cursor 1) 2
    let minutes ← parseDigits value (← usizeAdd cursor 4) 2
    if 23 < hours ∨ 59 < minutes then refuse
    else
      let offset ← plain ((← plain (hours * 3600)) + (← plain (minutes * 60)))
      if (utf8Bytes value)[cursor]? = some (byteOf '-') then plain (-offset) else return offset
  else refuse

/-- The arithmetic at the end. -/
def unixMillis (days : Int) (hour minute second : Nat) (offset millis : Int) : Except Halt Int := do
  let days ← checked (days * 86400)
  let time ← plain ((← plain ((← plain (hour * 3600)) + (← plain (minute * 60)))) + second)
  let seconds ← checked ((← checked (days + time)) - offset)
  checked ((← checked (seconds * 1000)) + millis)

def parseRfc3339Millis (value : Text) : Except Halt Int := do
  if byteLength value < 20 ∨ (utf8Bytes value)[4]? ≠ some (byteOf '-') ∨ (utf8Bytes value)[7]? ≠ some (byteOf '-')
      ∨ ¬ (isEither value 10 'T' 't' ∨ (utf8Bytes value)[10]? = some (byteOf ' '))
      ∨ (utf8Bytes value)[13]? ≠ some (byteOf ':') ∨ (utf8Bytes value)[16]? ≠ some (byteOf ':') then refuse
  else
    let year ← parseDigits value 0 4
    let month ← parseDigits value 5 2
    let day ← parseDigits value 8 2
    let hour ← parseDigits value 11 2
    let minute ← parseDigits value 14 2
    let second ← parseDigits value 17 2
    if ¬ (1 ≤ month ∧ month ≤ 12) ∨ day = 0 ∨ daysInMonth year month < day ∨ 23 < hour ∨ 59 < minute
        ∨ 59 < second then refuse
    else
      let (cursor, millis) ← parseFraction value 19
      let offset ← parseOffset value cursor
      let days ← daysFromCivil year month day
      unixMillis days hour minute second offset millis

/-! ### What a timestamp is -/

/-- A text of so many digits. -/
structure Digits (count : Nat) (text : Text) : Prop where
  length : text.length = count
  all : ∀ c ∈ text, c.isDigit = true

/-- The number that digits spell. -/
abbrev number (digits : Text) : Nat := appendDigits 0 digits

inductive Zone where
  | utc (mark : Char)
  | offset (sign : Char) (hours minutes : Text)

namespace Zone

def text : Zone → Text
  | utc mark => [mark]
  | offset sign hours minutes => sign :: (hours ++ ':' :: minutes)

def Valid : Zone → Prop
  | utc mark => mark = 'Z' ∨ mark = 'z'
  | offset sign hours minutes => (sign = '+' ∨ sign = '-') ∧ Digits 2 hours ∧ Digits 2 minutes
      ∧ number hours ≤ 23 ∧ number minutes ≤ 59

/-- The seconds that its clocks are ahead. -/
def seconds : Zone → Int
  | utc _ => 0
  | offset sign hours minutes => (if sign = '-' then -1 else 1) * (number hours * 3600 + number minutes * 60)

end Zone

/-- A point is followed by a digit at least. -/
def FractionValid (fraction : Option Text) : Prop := ∀ digits ∈ fraction, digits ≠ [] ∧ ∀ c ∈ digits, c.isDigit = true

/-- A timestamp of RFC 3339. -/
structure Stamp where
  year : Text
  month : Text
  day : Text
  separator : Char
  hour : Text
  minute : Text
  second : Text
  fraction : Option Text
  zone : Zone
  year_digits : Digits 4 year
  month_digits : Digits 2 month
  day_digits : Digits 2 day
  separator_mem : separator = 'T' ∨ separator = 't' ∨ separator = ' '
  hour_digits : Digits 2 hour
  minute_digits : Digits 2 minute
  second_digits : Digits 2 second
  fraction_valid : FractionValid fraction
  month_mem : 1 ≤ number month ∧ number month ≤ 12
  day_mem : 1 ≤ number day ∧ number day ≤ Calendar.monthLength (number year) (number month)
  time_mem : number hour ≤ 23 ∧ number minute ≤ 59 ∧ number second ≤ 59
  zone_valid : zone.Valid

/-- The text of a fraction of a second. -/
def fractionText : Option Text → Text
  | none => []
  | some digits => '.' :: digits

namespace Stamp

def text (stamp : Stamp) : Text :=
  stamp.year ++ '-' :: (stamp.month ++ '-' :: (stamp.day ++ stamp.separator :: (stamp.hour ++ ':' ::
    (stamp.minute ++ ':' :: (stamp.second ++ (fractionText stamp.fraction ++ stamp.zone.text))))))

/-- The seconds from 1 January 1970 to the start of the second, in UTC. -/
def unixSeconds (stamp : Stamp) : Int :=
  ((Calendar.daysBefore (number stamp.year) (number stamp.month) (number stamp.day) : Int)
      - Calendar.daysBefore 1970 1 1) * 86400
    + number stamp.hour * 3600 + number stamp.minute * 60 + number stamp.second - stamp.zone.seconds

/-- The instant, in seconds of Unix time. -/
def instant (stamp : Stamp) : ℚ :=
  stamp.unixSeconds + stamp.fraction.elim 0 fun digits => (number digits : ℚ) / 10 ^ digits.length

end Stamp

/-! ### Arithmetic -/

theorem plain_eq {value : Int} (h : InI64 value) : plain value = .ok value := if_pos h

theorem checked_eq {value : Int} (h : InI64 value) : checked value = .ok value := if_pos h

theorem usizeAdd_eq {left right : Nat} (h : left + right < 2 ^ 64) : usizeAdd left right = .ok (left + right) :=
  if_pos h

theorem usizeSub_eq {left right : Nat} (h : right ≤ left) : usizeSub left right = .ok (left - right) := if_pos h

theorem ok_bind {α β : Type} (value : α) (next : α → Except Halt β) : (Except.ok value >>= next) = next value := rfl

theorem plain_bind {β : Type} {value : Int} {next : Int → Except Halt β} (h : InI64 value) :
    (plain value >>= next) = next value := by
  rw [plain_eq h]
  rfl

theorem checked_bind {β : Type} {value : Int} {next : Int → Except Halt β} (h : InI64 value) :
    (checked value >>= next) = next value := by
  rw [checked_eq h]
  rfl

theorem inI64_of_small {value : Int} (h : -2 ^ 62 ≤ value ∧ value ≤ 2 ^ 62) : InI64 value := by
  unfold InI64
  omega

theorem daysInMonth_eq (year month : Nat) : daysInMonth year month = Calendar.monthLength year month := by
  have hleap : ((year : Int).tmod 4 = 0 ∧ ((year : Int).tmod 100 ≠ 0 ∨ (year : Int).tmod 400 = 0))
      ↔ Calendar.IsLeapYear year := by
    rw [Int.tmod_eq_emod_of_nonneg (Int.natCast_nonneg year), Int.tmod_eq_emod_of_nonneg (Int.natCast_nonneg year),
      Int.tmod_eq_emod_of_nonneg (Int.natCast_nonneg year), Calendar.IsLeapYear]
    omega
  unfold daysInMonth
  simp only [hleap]
  fun_cases Calendar.monthLength year month
  case case7 hfebruary hapril hjune hseptember hnovember =>
    rw [if_neg (by rintro (h | h | h | h) <;> contradiction), if_neg fun h => hfebruary h.1, if_neg hfebruary]
  all_goals simp [*]

theorem daysFromCivil_eq {year month day : Nat} (hyear : year < 10000) (hmonth : 1 ≤ month ∧ month ≤ 12)
    (hday : 1 ≤ day ∧ day ≤ 31) :
    daysFromCivil year month day = .ok (Calendar.daysBefore year month day - Calendar.daysBefore 1970 1 1) := by
  have hmonths : ((month : Int) + if 2 < month then -3 else 9) = ((month + 9) % 12 : Nat) := by
    by_cases hlate : 2 < month
    · rw [if_pos hlate]
      omega
    · rw [if_neg hlate]
      omega
  rw [Calendar.daysBefore_epoch, Calendar.daysBefore_eq year hmonth hday.1, daysFromCivil, hmonths]
  generalize hshift : (month + 9) % 12 = shift
  have hshifted : shift < 12 := by omega
  generalize hstart : (year : Int) - (if month ≤ 2 then 1 else 0) = start
  have hstarted : -1 ≤ start ∧ start < 10000 := by
    rw [← hstart]
    split_ifs <;> omega
  have hcentury : (if 0 ≤ start then .ok start else plain (start - 399))
      = .ok (if 0 ≤ start then start else start - 399) := by
    split_ifs
    · rfl
    · rw [plain_eq (inI64_of_small (by omega))]
  rw [plain_eq (inI64_of_small (by omega)), ok_bind, hcentury, ok_bind]
  have hera : (if 0 ≤ start then start else start - 399).tdiv 400 = start / 400 := by
    by_cases hstart : 0 ≤ start
    · rw [if_pos hstart, Int.tdiv_eq_ediv_of_nonneg hstart]
    · obtain rfl : start = -1 := by omega
      decide
  rw [hera]
  have hyearOfEra : start - start / 400 * 400 = start % 400 := by omega
  have hquotient : ∀ divisor, (start % 400).tdiv divisor = start % 400 / divisor := fun divisor =>
    Int.tdiv_eq_ediv_of_nonneg (Int.emod_nonneg start (by decide))
  have hdayOfYear : (153 * (shift : Int) + 2).tdiv 5 = (153 * shift + 2) / 5 :=
    Int.tdiv_eq_ediv_of_nonneg (by omega)
  simp (disch := (unfold InI64; omega)) only [plain_bind, hyearOfEra, hquotient, hdayOfYear]
  rw [plain_eq (inI64_of_small (by omega)), Calendar.yearStart]
  congr 1
  omega

theorem unixMillis_eq {days offset millis : Int} {hour minute second : Nat}
    (hdays : -1000000 ≤ days ∧ days ≤ 10000000) (htime : hour ≤ 23 ∧ minute ≤ 59 ∧ second ≤ 59)
    (hoffset : -86400 ≤ offset ∧ offset ≤ 86400) (hmillis : 0 ≤ millis ∧ millis < 1000) :
    unixMillis days hour minute second offset millis
      = .ok ((days * 86400 + hour * 3600 + minute * 60 + second - offset) * 1000 + millis) := by
  rw [unixMillis]
  simp (disch := (unfold InI64; omega)) only [checked_bind, plain_bind]
  rw [checked_eq (inI64_of_small (by omega))]
  congr 1
  omega

/-! ### What is read at a position -/

theorem refuse_ne_ok {α : Type} {value : α} : (refuse : Except Halt α) ≠ .ok value := nofun

/-- A part of the reader refuses the text, or it returns a value with the property. -/
def Settles {α : Type} (x : Except Halt α) (post : α → Prop) : Prop := x = refuse ∨ ∃ value, x = .ok value ∧ post value

theorem settles_refuse {α : Type} {post : α → Prop} : Settles refuse post := .inl rfl

theorem settles_ok {α : Type} {value : α} {post : α → Prop} (h : post value) : Settles (.ok value) post :=
  .inr ⟨value, rfl, h⟩

theorem Settles.bind {α β : Type} {x : Except Halt α} {next : α → Except Halt β} {pre : α → Prop} {post : β → Prop}
    (hx : Settles x pre) (hnext : ∀ value, pre value → Settles (next value) post) : Settles (x >>= next) post := by
  rcases hx with rfl | ⟨value, rfl, hvalue⟩
  · exact settles_refuse
  · exact hnext value hvalue

theorem Settles.self {α : Type} {x : Except Halt α} {post : α → Prop} (h : Settles x post) :
    Settles x fun value => x = .ok value := by
  rcases h with h | ⟨value, h, -⟩
  · exact .inl h
  · exact .inr ⟨value, h, h⟩

theorem okOr_eq_ok {α : Type} {option : Option α} {value : α} : okOr option = .ok value ↔ option = some value := by
  cases option with
  | none => exact iff_of_false refuse_ne_ok nofun
  | some found =>
      rw [okOr, Option.some_inj]
      exact ⟨Except.ok.inj, congrArg _⟩

namespace Digits

variable {count : Nat} {text : Text}

theorem byteLength (h : Digits count text) : byteLength text = count := by
  rw [byteLength_digits h.all, h.length]

theorem number_lt (h : Digits count text) : number text < 10 ^ count := h.length ▸ appendDigits_lt h.all

theorem ne_nil (h : Digits count text) (hcount : count ≠ 0) : text ≠ [] := by
  rintro rfl
  exact hcount h.length.symm

end Digits

section Positions

variable {value left rest digits : Text} {start count cursor : Nat} {c : Char}

theorem dropBytes_char (hc : c.toNat < 128) (h : dropBytes start value = some (c :: rest)) :
    dropBytes (start + 1) value = some rest := by
  have hone : byteLength [c] = 1 := by
    rw [byteLength_cons, utf8Size_of_ascii hc, byteLength_nil]
  rw [← hone]
  exact dropBytes_append h

theorem dropBytes_digits (hdigits : Digits count digits) (h : dropBytes start value = some (digits ++ rest)) :
    dropBytes (start + count) value = some rest := by
  rw [← hdigits.byteLength]
  exact dropBytes_append h

/-- Digits are read where they stand. -/
theorem parseDigits_eq_ok {result : Nat} (hstart : start + count < 2 ^ 64) (hcount : count ≠ 0 ∧ count ≤ 9) :
    parseDigits value start count = .ok result
      ↔ ∃ digits rest, dropBytes start value = some (digits ++ rest) ∧ Digits count digits
        ∧ result = number digits := by
  have hparse : ∀ digits : Text, Digits count digits → parseU32 digits = some (number digits) := by
    intro digits hdigits
    refine parseU32_digits (hdigits.ne_nil hcount.1) hdigits.all (hdigits.number_lt.trans_le ?_)
    exact (Nat.pow_le_pow_right (by decide) hcount.2).trans (by decide)
  rw [parseDigits, usizeAdd_eq hstart, ok_bind, okOr_eq_ok, Option.bind_eq_some_iff]
  constructor
  · rintro ⟨digits, hslice, hvalue⟩
    rw [Option.filter_eq_some_iff, sliceBytes_eq_some, all_isAsciiDigit] at hslice
    obtain ⟨⟨rest, hrest, hlength⟩, hall⟩ := hslice
    have hdigits : ∀ c ∈ digits, c.isDigit = true := List.all_eq_true.mp hall
    have hcount' : Digits count digits := ⟨by rw [← byteLength_digits hdigits]; omega, hdigits⟩
    rw [hparse digits hcount', Option.some_inj] at hvalue
    exact ⟨digits, rest, hrest, hcount', hvalue.symm⟩
  · rintro ⟨digits, rest, hrest, hdigits, rfl⟩
    refine ⟨digits, ?_, hparse digits hdigits⟩
    rw [Option.filter_eq_some_iff, sliceBytes_eq_some, all_isAsciiDigit, hdigits.byteLength]
    exact ⟨⟨rest, hrest, rfl⟩, List.all_eq_true.mpr hdigits.all⟩

theorem parseDigits_settles (hstart : start + count < 2 ^ 64) (hcount : count ≠ 0 ∧ count ≤ 9) :
    Settles (parseDigits value start count) fun result => ∃ digits rest,
      dropBytes start value = some (digits ++ rest) ∧ Digits count digits ∧ result = number digits := by
  cases hread : parseDigits value start count with
  | ok result => exact settles_ok ((parseDigits_eq_ok hstart hcount).mp hread)
  | error halt =>
      rw [parseDigits, usizeAdd_eq hstart, ok_bind] at hread
      generalize (Option.bind _ parseU32) = parsed at hread
      cases parsed with
      | none =>
          cases hread
          exact settles_refuse
      | some found => cases hread

/-- The loop stops behind the digits. -/
theorem skipDigits_eq (bytes : List (BitVec 8)) (h : cursor + bytes.length < 2 ^ 64) :
    skipDigits bytes cursor = .ok (cursor + (bytes.takeWhile isAsciiDigit).length) := by
  induction bytes generalizing cursor with
  | nil => rfl
  | cons byte bytes ih =>
      rw [List.length_cons] at h
      by_cases hbyte : isAsciiDigit byte = true
      · rw [skipDigits, if_pos hbyte, usizeAdd_eq (by omega), ok_bind, ih (by omega),
          List.takeWhile_cons_of_pos hbyte, List.length_cons, Nat.add_assoc, Nat.add_comm 1]
      · rw [skipDigits, if_neg hbyte, List.takeWhile_cons_of_neg hbyte]
        rfl

/-- The milliseconds of the first three digits of a fraction. -/
def fractionMillis (digits : Text) : Nat := number (digits.take 3) * 10 ^ (3 - (digits.take 3).length)

theorem fractionMillis_lt (h : ∀ c ∈ digits, c.isDigit = true) : fractionMillis digits < 1000 := by
  have hnumber : number (digits.take 3) < 10 ^ (digits.take 3).length :=
    appendDigits_lt fun c hc => h c (List.mem_of_mem_take hc)
  have hlength : (digits.take 3).length ≤ 3 := List.length_take_le 3 digits
  calc fractionMillis digits < 10 ^ (digits.take 3).length * 10 ^ (3 - (digits.take 3).length) :=
        Nat.mul_lt_mul_of_pos_right hnumber (Nat.pow_pos (by decide))
    _ = 1000 := by rw [← Nat.pow_add, Nat.add_sub_cancel' hlength]

/-- The digits behind the third one are dropped. -/
theorem fractionMillis_eq_floor (h : ∀ c ∈ digits, c.isDigit = true) :
    (fractionMillis digits : ℤ) = ⌊(number digits : ℚ) / 10 ^ digits.length * 1000⌋ := by
  by_cases hshort : digits.length ≤ 3
  · have hpower : (10 : ℚ) ^ digits.length * 10 ^ (3 - digits.length) = 1000 := by
      rw [← pow_add, Nat.add_sub_cancel' hshort]
      norm_num
    have hvalue : (number digits : ℚ) / 10 ^ digits.length * 1000 = (fractionMillis digits : ℚ) := by
      rw [← hpower, ← mul_assoc, div_mul_cancel₀ _ (by positivity), fractionMillis, List.take_of_length_le hshort]
      push_cast
      rfl
    rw [hvalue, Int.floor_natCast]
  · have hlength : digits.length = (digits.drop 3).length + 3 := by
      rw [List.length_drop]
      omega
    have hnumber : number digits = number (digits.take 3) * 10 ^ (digits.drop 3).length + number (digits.drop 3) := by
      rw [← appendDigits_append, List.take_append_drop]
    have hrest : number (digits.drop 3) < 10 ^ (digits.drop 3).length :=
      appendDigits_lt fun c hc => h c (List.mem_of_mem_drop hc)
    have hmillis : fractionMillis digits = number (digits.take 3) := by
      rw [fractionMillis, List.length_take, Nat.min_eq_left (by omega), Nat.sub_self, Nat.pow_zero, Nat.mul_one]
    have hpos : (0 : ℚ) < 10 ^ (digits.drop 3).length := by positivity
    have hvalue : (number digits : ℚ) / 10 ^ digits.length * 1000
        = number (digits.take 3) + number (digits.drop 3) / 10 ^ (digits.drop 3).length := by
      rw [hnumber, hlength, pow_add]
      push_cast
      field_simp
      norm_num
    rw [hmillis, hvalue, eq_comm, Int.floor_eq_iff, Int.cast_natCast]
    refine ⟨le_add_of_nonneg_right (by positivity), (add_lt_add_iff_left _).mpr ((div_lt_one hpos).mpr ?_)⟩
    exact_mod_cast hrest

/-- Without a point there is no fraction. -/
theorem parseFraction_none (h : ∀ rest, dropBytes cursor value ≠ some ('.' :: rest)) :
    parseFraction value cursor = .ok (cursor, 0) := by
  refine if_neg fun hpoint => ?_
  obtain ⟨rest, hrest⟩ := (getElem?_utf8Bytes (by decide)).mp hpoint
  exact h rest hrest

/-- Behind a point the digits are the fraction. -/
theorem parseFraction_point (hsize : byteLength value ≤ i64Max) (h : dropBytes cursor value = some ('.' :: rest)) :
    parseFraction value cursor = if rest.takeWhile Char.isDigit = [] then refuse
      else .ok (cursor + 1 + (rest.takeWhile Char.isDigit).length,
        (fractionMillis (rest.takeWhile Char.isDigit) : Int)) := by
  have hstart := dropBytes_char (by decide) h
  have hlength := byteLength_of_dropBytes hstart
  have hdigits : ∀ c ∈ rest.takeWhile Char.isDigit, c.isDigit = true := List.all_eq_true.mp List.all_takeWhile
  have hcursor : skipDigits ((utf8Bytes value).drop (cursor + 1)) (cursor + 1)
      = .ok (cursor + 1 + (rest.takeWhile Char.isDigit).length) := by
    rw [drop_utf8Bytes hstart, skipDigits_eq, takeWhile_utf8Bytes, List.length_map]
    rw [length_utf8Bytes]
    unfold i64Max at hsize
    omega
  rw [parseFraction, if_pos ((getElem?_utf8Bytes (by decide)).mpr ⟨rest, h⟩),
    usizeAdd_eq (by unfold i64Max at hsize; omega), ok_bind, hcursor, ok_bind]
  generalize hall : rest.takeWhile Char.isDigit = digits at hdigits
  by_cases hempty : digits = []
  · rw [if_pos hempty, hempty, List.length_nil, Nat.add_zero, if_pos rfl]
  · have hpos : 0 < digits.length := List.length_pos_iff.mpr hempty
    have hfirst : ∀ c ∈ digits.take 3, c.isDigit = true := fun c hc => hdigits c (List.mem_of_mem_take hc)
    have hcount : (digits.take 3).length ≤ 3 := List.length_take_le 3 digits
    have hsplit : digits ++ rest.dropWhile Char.isDigit = rest := hall ▸ List.takeWhile_append_dropWhile
    have hfraction : slice value (cursor + 1) (cursor + 1 + digits.length) = .ok digits := by
      rw [slice, sliceBytes_eq_some.mpr
        ⟨rest.dropWhile Char.isDigit, hsplit.symm ▸ hstart, by rw [byteLength_digits hdigits]⟩]
    have hthree : slice digits 0 (min (byteLength digits) 3) = .ok (digits.take 3) := by
      rw [slice, sliceBytes_eq_some.mpr ⟨digits.drop 3, ?_, ?_⟩]
      · rw [List.take_append_drop, dropBytes_zero]
      · rw [byteLength_digits hfirst, byteLength_digits hdigits, List.length_take, Nat.zero_add, Nat.min_comm]
    have hnumber : number (digits.take 3) < 1000 :=
      (appendDigits_lt hfirst).trans_le (Nat.pow_le_pow_right (by decide) hcount)
    have hne : digits.take 3 ≠ [] := by
      rw [← List.length_pos_iff, List.length_take]
      omega
    have hpower : InI64 (10 ^ (3 - (digits.take 3).length)) := by
      have hle : 10 ^ (3 - (digits.take 3).length) ≤ 10 ^ 3 := Nat.pow_le_pow_right (by decide) (Nat.sub_le 3 _)
      have hcast : (10 : Int) ^ (3 - (digits.take 3).length) = (10 ^ (3 - (digits.take 3).length) : Nat) := by
        push_cast
        rfl
      rw [hcast]
      generalize 10 ^ (3 - (digits.take 3).length) = power at hle ⊢
      exact inI64_of_small (by omega)
    have hproduct : (number (digits.take 3) : Int) * 10 ^ (3 - (digits.take 3).length) = fractionMillis digits := by
      rw [fractionMillis]
      push_cast
      rfl
    have hmillis := fractionMillis_lt hdigits
    rw [if_neg hempty, if_neg (by omega), hfraction, ok_bind, hthree, ok_bind,
      parseI64_digits hne hfirst (hnumber.trans (by decide)), okOr, ok_bind, byteLength_digits hfirst,
      usizeSub_eq hcount, ok_bind, plain_bind hpower, hproduct, plain_bind (inI64_of_small (by omega))]
    rfl

theorem byteAt_iff (hc : c.toNat < 128) (h : dropBytes cursor value = some left) :
    (utf8Bytes value)[cursor]? = some (byteOf c) ↔ ∃ rest, left = c :: rest := by
  rw [getElem?_utf8Bytes hc, h]
  simp only [Option.some_inj]

theorem isEither_iff {other : Char} (hc : c.toNat < 128 ∧ other.toNat < 128) (h : dropBytes cursor value = some left) :
    isEither value cursor c other = true ↔ ∃ found rest, left = found :: rest ∧ (found = c ∨ found = other) := by
  rw [isEither, Bool.or_eq_true, decide_eq_true_iff, decide_eq_true_iff, byteAt_iff hc.1 h, byteAt_iff hc.2 h]
  constructor
  · rintro (⟨rest, hrest⟩ | ⟨rest, hrest⟩)
    · exact ⟨c, rest, hrest, .inl rfl⟩
    · exact ⟨other, rest, hrest, .inr rfl⟩
  · rintro ⟨found, rest, hrest, rfl | rfl⟩
    · exact .inl ⟨rest, hrest⟩
    · exact .inr ⟨rest, hrest⟩

theorem isUtc_eq (hsize : byteLength value ≤ i64Max) (h : dropBytes cursor value = some left) :
    isUtc value cursor = .ok (decide (left = ['Z'] ∨ left = ['z'])) := by
  have hlength := byteLength_of_dropBytes h
  by_cases hmark : isEither value cursor 'Z' 'z' = true
  · obtain ⟨mark, rest, rfl, hmarks⟩ := (isEither_iff (by decide) h).mp hmark
    have hsize' : mark.utf8Size = 1 := by
      rcases hmarks with rfl | rfl <;> rfl
    have hend : cursor + 1 = byteLength value ↔ mark :: rest = ['Z'] ∨ mark :: rest = ['z'] := by
      rw [hlength, byteLength_cons, hsize', List.cons.injEq, List.cons.injEq, ← or_and_right, and_iff_right hmarks,
        ← byteLength_eq_zero]
      omega
    rw [isUtc, if_pos hmark, usizeAdd_eq (by unfold i64Max at hsize; omega), ok_bind, ← decide_eq_decide.mpr hend]
    rfl
  · have hnone : ¬ (left = ['Z'] ∨ left = ['z']) := by
      rintro (rfl | rfl)
      · exact hmark ((isEither_iff (by decide) h).mpr ⟨_, _, rfl, .inl rfl⟩)
      · exact hmark ((isEither_iff (by decide) h).mpr ⟨_, _, rfl, .inr rfl⟩)
    rw [isUtc, if_neg hmark, decide_eq_false hnone]

/-- A signed zone has six bytes, and a colon as its fourth. -/
def Signed (left : Text) : Prop :=
  ∃ sign rest, left = sign :: rest ∧ (sign = '+' ∨ sign = '-') ∧ byteLength left = 6
    ∧ ∃ later, dropBytes 3 left = some (':' :: later)

theorem isOffset_eq (hsize : byteLength value ≤ i64Max) (h : dropBytes cursor value = some left) :
    ∃ guard : Bool, isOffset value cursor = .ok guard ∧ (guard = true ↔ Signed left) := by
  have hlength := byteLength_of_dropBytes h
  by_cases hsign : isEither value cursor '+' '-' = true
  · obtain ⟨sign, rest, hleft, hsigns⟩ := (isEither_iff (by decide) h).mp hsign
    rw [isOffset, if_pos hsign, usizeAdd_eq (by unfold i64Max at hsize; omega), ok_bind]
    by_cases hend : cursor + 6 = byteLength value
    · refine ⟨decide ((utf8Bytes value)[cursor + 3]? = some (byteOf ':')), ?_, ?_⟩
      · rw [if_pos hend, usizeAdd_eq (by unfold i64Max at hsize; omega), ok_bind]
        rfl
      · rw [decide_eq_true_iff, getElem?_utf8Bytes (by decide), dropBytes_add h]
        constructor
        · exact fun hcolon => ⟨sign, rest, hleft, hsigns, by omega, hcolon⟩
        · rintro ⟨_, _, -, -, -, hcolon⟩
          exact hcolon
    · refine ⟨false, by rw [if_neg hend]; rfl, iff_of_false Bool.false_ne_true ?_⟩
      rintro ⟨_, _, -, -, hsix, -⟩
      omega
  · refine ⟨false, if_neg hsign, iff_of_false Bool.false_ne_true ?_⟩
    rintro ⟨sign, rest, hleft, hsigns, -⟩
    exact hsign ((isEither_iff (by decide) h).mpr ⟨sign, rest, hleft, hsigns⟩)

theorem not_utc_of_signed (h : Signed left) : ¬ (left = ['Z'] ∨ left = ['z']) := by
  obtain ⟨_, _, -, -, hsix, -⟩ := h
  rintro (rfl | rfl)
  · exact absurd hsix (by decide)
  · exact absurd hsix (by decide)

/-- A signed zone is read as two numbers. -/
theorem parseOffset_signed {sign : Char} (hsize : byteLength value ≤ i64Max)
    (h : dropBytes cursor value = some (sign :: rest)) (hsigned : Signed (sign :: rest)) :
    parseOffset value cursor = (parseDigits value (cursor + 1) 2 >>= fun hours =>
      parseDigits value (cursor + 4) 2 >>= fun minutes =>
        if 23 < hours ∨ 59 < minutes then refuse
        else .ok ((if sign = '-' then -1 else 1) * (hours * 3600 + minutes * 60) : Int)) := by
  have hlength := byteLength_of_dropBytes h
  have hroom : cursor + 6 < 2 ^ 64 := by
    unfold i64Max at hsize
    omega
  obtain ⟨guard, hguard, htrue⟩ := isOffset_eq hsize h
  have hminus : (utf8Bytes value)[cursor]? = some (byteOf '-') ↔ sign = '-' := by
    rw [byteAt_iff (by decide) h]
    simp
  rw [parseOffset, isUtc_eq hsize h, decide_eq_false (not_utc_of_signed hsigned), ok_bind,
    if_neg Bool.false_ne_true, hguard, ok_bind, if_pos (htrue.mpr hsigned), usizeAdd_eq (by omega), ok_bind]
  refine bind_congr fun hours => ?_
  rw [usizeAdd_eq (by omega), ok_bind]
  refine bind_congr fun minutes => ?_
  by_cases hrange : 23 < hours ∨ 59 < minutes
  · rw [if_pos hrange, if_pos hrange]
  · rw [if_neg hrange, if_neg hrange, plain_bind (inI64_of_small (by omega)), plain_bind (inI64_of_small (by omega)),
      plain_bind (inI64_of_small (by omega))]
    by_cases hsign : sign = '-'
    · rw [if_pos (hminus.mpr hsign), plain_eq (inI64_of_small (by omega)), if_pos hsign, neg_one_mul]
    · rw [if_neg (mt hminus.mp hsign), if_neg hsign, one_mul]
      rfl

/-- What is no zone is refused. -/
theorem parseOffset_refused (hsize : byteLength value ≤ i64Max) (h : dropBytes cursor value = some left)
    (hutc : ¬ (left = ['Z'] ∨ left = ['z'])) (hsigned : ¬ Signed left) : parseOffset value cursor = refuse := by
  obtain ⟨guard, hguard, htrue⟩ := isOffset_eq hsize h
  rw [parseOffset, isUtc_eq hsize h, decide_eq_false hutc, ok_bind, if_neg Bool.false_ne_true, hguard, ok_bind,
    if_neg (mt htrue.mp hsigned)]

theorem ascii_of_sign {sign : Char} (h : sign = '+' ∨ sign = '-') : sign.toNat < 128 := by
  rcases h with rfl | rfl <;> decide

/-- An offset is read only where a zone stands at the end. -/
theorem parseOffset_settles (hsize : byteLength value ≤ i64Max) (h : dropBytes cursor value = some left) :
    Settles (parseOffset value cursor) fun seconds =>
      ∃ zone : Zone, zone.Valid ∧ left = zone.text ∧ seconds = zone.seconds := by
  by_cases hutc : left = ['Z'] ∨ left = ['z']
  · rw [parseOffset, isUtc_eq hsize h, decide_eq_true hutc]
    rcases hutc with rfl | rfl
    · exact settles_ok ⟨.utc 'Z', .inl rfl, rfl, rfl⟩
    · exact settles_ok ⟨.utc 'z', .inr rfl, rfl, rfl⟩
  · by_cases hsigned : Signed left
    · obtain ⟨sign, rest, rfl, hsign, hsix, later, hlater⟩ := id hsigned
      have hlength := byteLength_of_dropBytes h
      have hroom : cursor + 6 < 2 ^ 64 := by
        unfold i64Max at hsize
        omega
      have hrest := dropBytes_char (ascii_of_sign hsign) h
      rw [parseOffset_signed hsize h hsigned]
      refine (parseDigits_settles (by omega) (by decide)).bind ?_
      rintro _ ⟨hours, afterHours, hhours, hhoursDigits, rfl⟩
      refine (parseDigits_settles (by omega) (by decide)).bind ?_
      rintro _ ⟨minutes, afterMinutes, hminutes, hminutesDigits, rfl⟩
      rw [hrest, Option.some_inj] at hhours
      subst hhours
      have hcolon := dropBytes_digits hhoursDigits
        (dropBytes_char (ascii_of_sign hsign) (dropBytes_zero (sign :: (hours ++ afterHours))))
      rw [Nat.zero_add, hlater, Option.some_inj] at hcolon
      subst hcolon
      have hminutesRest := dropBytes_char (by decide) (dropBytes_digits hhoursDigits hrest)
      rw [hminutes, Option.some_inj] at hminutesRest
      subst hminutesRest
      have hnothing : afterMinutes = [] := by
        rw [byteLength_cons, byteLength_append, byteLength_cons, byteLength_append,
          utf8Size_of_ascii (ascii_of_sign hsign), hhoursDigits.byteLength, hminutesDigits.byteLength,
          utf8Size_of_ascii (by decide)] at hsix
        exact byteLength_eq_zero.mp (by omega)
      subst hnothing
      by_cases hrange : 23 < number hours ∨ 59 < number minutes
      · rw [if_pos hrange]
        exact settles_refuse
      · rw [if_neg hrange]
        refine settles_ok
          ⟨.offset sign hours minutes, ⟨hsign, hhoursDigits, hminutesDigits, by omega, by omega⟩, ?_, rfl⟩
        rw [Zone.text, List.append_nil]
    · rw [parseOffset_refused hsize h hutc hsigned]
      exact settles_refuse

theorem parseOffset_of_zone {zone : Zone} (hsize : byteLength value ≤ i64Max) (hvalid : zone.Valid)
    (h : dropBytes cursor value = some zone.text) : parseOffset value cursor = .ok zone.seconds := by
  cases zone with
  | utc mark =>
      have hutc : [mark] = ['Z'] ∨ [mark] = ['z'] := by
        rcases hvalid with rfl | rfl
        · exact .inl rfl
        · exact .inr rfl
      rw [parseOffset, isUtc_eq hsize h, Zone.text, decide_eq_true hutc]
      rfl
  | offset sign hours minutes =>
      obtain ⟨hsign, hhours, hminutes, hbounds⟩ := hvalid
      have hlength := byteLength_of_dropBytes h
      have hrest := dropBytes_char (ascii_of_sign hsign) h
      have hcolon := dropBytes_digits hhours
        (dropBytes_char (ascii_of_sign hsign) (dropBytes_zero (sign :: (hours ++ ':' :: minutes))))
      have hminutesAt := dropBytes_char (by decide) (dropBytes_digits hhours hrest)
      have hsix : byteLength (sign :: (hours ++ ':' :: minutes)) = 6 := by
        rw [byteLength_cons, byteLength_append, byteLength_cons, utf8Size_of_ascii (ascii_of_sign hsign),
          hhours.byteLength, hminutes.byteLength, utf8Size_of_ascii (by decide)]
      have hroom : cursor + 6 < 2 ^ 64 := by
        rw [Zone.text, hsix] at hlength
        unfold i64Max at hsize
        omega
      have hsigned : Signed (sign :: (hours ++ ':' :: minutes)) := ⟨sign, _, rfl, hsign, hsix, minutes, hcolon⟩
      have hhoursRead : parseDigits value (cursor + 1) 2 = .ok (number hours) :=
        (parseDigits_eq_ok (by omega) (by decide)).mpr ⟨hours, _, hrest, hhours, rfl⟩
      have hminutesRead : parseDigits value (cursor + 4) 2 = .ok (number minutes) :=
        (parseDigits_eq_ok (by omega) (by decide)).mpr
          ⟨minutes, [], by rw [List.append_nil]; exact hminutesAt, hminutes, rfl⟩
      rw [parseOffset_signed hsize h hsigned, hhoursRead, ok_bind, hminutesRead, ok_bind, if_neg (by omega)]
      rfl

theorem parseFraction_settles (hsize : byteLength value ≤ i64Max) (h : dropBytes cursor value = some left) :
    Settles (parseFraction value cursor) fun result => ∃ fraction after, FractionValid fraction
      ∧ left = fractionText fraction ++ after ∧ dropBytes result.1 value = some after
      ∧ result.2 = (fraction.elim 0 fractionMillis : Nat) := by
  by_cases hpoint : ∃ rest, dropBytes cursor value = some ('.' :: rest)
  · obtain ⟨rest, hrest⟩ := hpoint
    have hstart := dropBytes_char (by decide) hrest
    obtain rfl := Option.some.inj (h.symm.trans hrest)
    have hsplit : rest.takeWhile Char.isDigit ++ rest.dropWhile Char.isDigit = rest := List.takeWhile_append_dropWhile
    have hdigits : ∀ c ∈ rest.takeWhile Char.isDigit, c.isDigit = true := List.all_eq_true.mp List.all_takeWhile
    rw [parseFraction_point hsize hrest]
    by_cases hempty : rest.takeWhile Char.isDigit = []
    · rw [if_pos hempty]
      exact settles_refuse
    · rw [if_neg hempty]
      refine settles_ok ⟨some (rest.takeWhile Char.isDigit), rest.dropWhile Char.isDigit, ?_, ?_, ?_, rfl⟩
      · rintro _ ⟨⟩
        exact ⟨hempty, hdigits⟩
      · rw [fractionText, List.cons_append, hsplit]
      · exact dropBytes_digits ⟨rfl, hdigits⟩ (hsplit.symm ▸ hstart)
  · rw [parseFraction_none (not_exists.mp hpoint)]
    exact settles_ok ⟨none, left, nofun, rfl, h, rfl⟩

/-- A fraction is read up to the zone. -/
theorem parseFraction_of_text {fraction : Option Text} (hsize : byteLength value ≤ i64Max)
    (hfraction : FractionValid fraction) (hc : ¬ c.isDigit = true ∧ c ≠ '.')
    (h : dropBytes cursor value = some (fractionText fraction ++ c :: rest)) :
    ∃ next, parseFraction value cursor = .ok (next, ((fraction.elim 0 fractionMillis : Nat) : Int))
      ∧ dropBytes next value = some (c :: rest) := by
  cases fraction with
  | none =>
      refine ⟨cursor, parseFraction_none fun others hothers => hc.2 ?_, h⟩
      exact (List.cons.inj (Option.some.inj (h.symm.trans hothers))).1
  | some digits =>
      rw [fractionText, List.cons_append] at h
      obtain ⟨hne, hdigits⟩ := hfraction digits rfl
      have htake : (digits ++ c :: rest).takeWhile Char.isDigit = digits := by
        rw [List.takeWhile_append_of_pos hdigits, List.takeWhile_cons_of_neg hc.1, List.append_nil]
      refine ⟨cursor + 1 + digits.length, ?_, ?_⟩
      · rw [parseFraction_point hsize h, htake, if_neg hne]
        rfl
      · exact dropBytes_digits ⟨rfl, hdigits⟩ (dropBytes_char (by decide) h)

/-- The bytes that the reader looks at before it reads a number. -/
structure Framed (value : Text) : Prop where
  size : 20 ≤ byteLength value
  yearEnd : ∃ rest, dropBytes 4 value = some ('-' :: rest)
  monthEnd : ∃ rest, dropBytes 7 value = some ('-' :: rest)
  dayEnd : ∃ separator rest, dropBytes 10 value = some (separator :: rest)
    ∧ (separator = 'T' ∨ separator = 't' ∨ separator = ' ')
  hourEnd : ∃ rest, dropBytes 13 value = some (':' :: rest)
  minuteEnd : ∃ rest, dropBytes 16 value = some (':' :: rest)

theorem framed_iff : Framed value ↔ ¬ (byteLength value < 20 ∨ (utf8Bytes value)[4]? ≠ some (byteOf '-')
    ∨ (utf8Bytes value)[7]? ≠ some (byteOf '-')
    ∨ ¬ (isEither value 10 'T' 't' ∨ (utf8Bytes value)[10]? = some (byteOf ' '))
    ∨ (utf8Bytes value)[13]? ≠ some (byteOf ':') ∨ (utf8Bytes value)[16]? ≠ some (byteOf ':')) := by
  have hseparator : (isEither value 10 'T' 't' ∨ (utf8Bytes value)[10]? = some (byteOf ' '))
      ↔ ∃ separator rest, dropBytes 10 value = some (separator :: rest)
        ∧ (separator = 'T' ∨ separator = 't' ∨ separator = ' ') := by
    rw [isEither, Bool.or_eq_true, decide_eq_true_iff, decide_eq_true_iff, getElem?_utf8Bytes (by decide),
      getElem?_utf8Bytes (by decide), getElem?_utf8Bytes (by decide)]
    constructor
    · rintro ((⟨rest, hrest⟩ | ⟨rest, hrest⟩) | ⟨rest, hrest⟩)
      · exact ⟨_, rest, hrest, .inl rfl⟩
      · exact ⟨_, rest, hrest, .inr (.inl rfl)⟩
      · exact ⟨_, rest, hrest, .inr (.inr rfl)⟩
    · rintro ⟨_, rest, hrest, rfl | rfl | rfl⟩
      · exact .inl (.inl ⟨rest, hrest⟩)
      · exact .inl (.inr ⟨rest, hrest⟩)
      · exact .inr ⟨rest, hrest⟩
  have hdash : '-'.toNat < 128 := by decide
  have hcolon : ':'.toNat < 128 := by decide
  simp only [hseparator, ne_eq, getElem?_utf8Bytes hdash, getElem?_utf8Bytes hcolon, not_or, not_not, not_lt]
  constructor
  · rintro ⟨hsize, hyear, hmonth, hday, hhour, hminute⟩
    exact ⟨hsize, hyear, hmonth, hday, hhour, hminute⟩
  · rintro ⟨hsize, hyear, hmonth, hday, hhour, hminute⟩
    exact ⟨hsize, hyear, hmonth, hday, hhour, hminute⟩

/-- A text that starts with a date and a time. -/
structure Fields (value year month day : Text) (separator : Char) (hour minute second left : Text) : Prop where
  year_digits : Digits 4 year
  month_digits : Digits 2 month
  day_digits : Digits 2 day
  separator_mem : separator = 'T' ∨ separator = 't' ∨ separator = ' '
  hour_digits : Digits 2 hour
  minute_digits : Digits 2 minute
  second_digits : Digits 2 second
  text_eq : value
    = year ++ '-' :: (month ++ '-' :: (day ++ separator :: (hour ++ ':' :: (minute ++ ':' :: (second ++ left)))))

/-- The numbers of a date and a time are read. -/
structure Reads (value : Text) (year month day hour minute second : Nat) : Prop where
  year_eq : parseDigits value 0 4 = .ok year
  month_eq : parseDigits value 5 2 = .ok month
  day_eq : parseDigits value 8 2 = .ok day
  hour_eq : parseDigits value 11 2 = .ok hour
  minute_eq : parseDigits value 14 2 = .ok minute
  second_eq : parseDigits value 17 2 = .ok second

theorem ascii_of_separator {separator : Char} (h : separator = 'T' ∨ separator = 't' ∨ separator = ' ') :
    separator.toNat < 128 := by
  rcases h with rfl | rfl | rfl <;> decide

theorem Fields.reads {year month day hour minute second left : Text} {separator : Char}
    (h : Fields value year month day separator hour minute second left) (hleft : left ≠ []) :
    Framed value ∧ dropBytes 19 value = some left
      ∧ Reads value (number year) (number month) (number day) (number hour) (number minute) (number second) := by
  have hyear := (dropBytes_zero value).trans (congrArg some h.text_eq)
  have hyearEnd : dropBytes 4 value = _ := dropBytes_digits h.year_digits hyear
  have hmonth : dropBytes 5 value = _ := dropBytes_char (by decide) hyearEnd
  have hmonthEnd : dropBytes 7 value = _ := dropBytes_digits h.month_digits hmonth
  have hday : dropBytes 8 value = _ := dropBytes_char (by decide) hmonthEnd
  have hdayEnd : dropBytes 10 value = _ := dropBytes_digits h.day_digits hday
  have hhour : dropBytes 11 value = _ := dropBytes_char (ascii_of_separator h.separator_mem) hdayEnd
  have hhourEnd : dropBytes 13 value = _ := dropBytes_digits h.hour_digits hhour
  have hminute : dropBytes 14 value = _ := dropBytes_char (by decide) hhourEnd
  have hminuteEnd : dropBytes 16 value = _ := dropBytes_digits h.minute_digits hminute
  have hsecond : dropBytes 17 value = _ := dropBytes_char (by decide) hminuteEnd
  have hrest : dropBytes 19 value = _ := dropBytes_digits h.second_digits hsecond
  have hsize : 20 ≤ byteLength value := by
    have hpos := Nat.pos_of_ne_zero (mt byteLength_eq_zero.mp hleft)
    rw [byteLength_of_dropBytes hrest]
    omega
  have hread : ∀ {start count : Nat} {digits rest : Text}, start ≤ 17 → count ≠ 0 ∧ count ≤ 9 → Digits count digits →
      dropBytes start value = some (digits ++ rest) → parseDigits value start count = .ok (number digits) :=
    fun hstart hcount hdigits hdrop =>
      (parseDigits_eq_ok (by omega) hcount).mpr ⟨_, _, hdrop, hdigits, rfl⟩
  refine ⟨⟨hsize, ⟨_, hyearEnd⟩, ⟨_, hmonthEnd⟩, ⟨_, _, hdayEnd, h.separator_mem⟩, ⟨_, hhourEnd⟩, ⟨_, hminuteEnd⟩⟩,
    hrest, ?_⟩
  exact ⟨hread (by decide) (by decide) h.year_digits hyear, hread (by decide) (by decide) h.month_digits hmonth,
    hread (by decide) (by decide) h.day_digits hday, hread (by decide) (by decide) h.hour_digits hhour,
    hread (by decide) (by decide) h.minute_digits hminute, hread (by decide) (by decide) h.second_digits hsecond⟩

theorem Reads.fields {yearNumber monthNumber dayNumber hourNumber minuteNumber secondNumber : Nat}
    (h : Reads value yearNumber monthNumber dayNumber hourNumber minuteNumber secondNumber) (hframed : Framed value) :
    ∃ year month day separator hour minute second left, Fields value year month day separator hour minute second left
      ∧ dropBytes 19 value = some left ∧ yearNumber = number year ∧ monthNumber = number month ∧ dayNumber = number day
      ∧ hourNumber = number hour ∧ minuteNumber = number minute ∧ secondNumber = number second := by
  obtain ⟨year, afterYear, hyear, hyearDigits, hyearNumber⟩ := (parseDigits_eq_ok (by decide) (by decide)).mp h.year_eq
  obtain ⟨month, afterMonth, hmonth, hmonthDigits, hmonthNumber⟩ :=
    (parseDigits_eq_ok (by decide) (by decide)).mp h.month_eq
  obtain ⟨day, afterDay, hday, hdayDigits, hdayNumber⟩ := (parseDigits_eq_ok (by decide) (by decide)).mp h.day_eq
  obtain ⟨hour, afterHour, hhour, hhourDigits, hhourNumber⟩ := (parseDigits_eq_ok (by decide) (by decide)).mp h.hour_eq
  obtain ⟨minute, afterMinute, hminute, hminuteDigits, hminuteNumber⟩ :=
    (parseDigits_eq_ok (by decide) (by decide)).mp h.minute_eq
  obtain ⟨second, left, hsecond, hsecondDigits, hsecondNumber⟩ :=
    (parseDigits_eq_ok (by decide) (by decide)).mp h.second_eq
  obtain ⟨-, ⟨_, hyearEnd⟩, ⟨_, hmonthEnd⟩, ⟨separator, _, hdayEnd, hseparator⟩, ⟨_, hhourEnd⟩, ⟨_, hminuteEnd⟩⟩ :=
    hframed
  have hyearRest := (dropBytes_digits hyearDigits hyear).symm.trans hyearEnd
  have hmonthStart := (dropBytes_char (by decide) hyearEnd).symm.trans hmonth
  have hmonthRest := (dropBytes_digits hmonthDigits hmonth).symm.trans hmonthEnd
  have hdayStart := (dropBytes_char (by decide) hmonthEnd).symm.trans hday
  have hdayRest := (dropBytes_digits hdayDigits hday).symm.trans hdayEnd
  have hhourStart := (dropBytes_char (ascii_of_separator hseparator) hdayEnd).symm.trans hhour
  have hhourRest := (dropBytes_digits hhourDigits hhour).symm.trans hhourEnd
  have hminuteStart := (dropBytes_char (by decide) hhourEnd).symm.trans hminute
  have hminuteRest := (dropBytes_digits hminuteDigits hminute).symm.trans hminuteEnd
  have hsecondStart := (dropBytes_char (by decide) hminuteEnd).symm.trans hsecond
  refine ⟨year, month, day, separator, hour, minute, second, left,
    ⟨hyearDigits, hmonthDigits, hdayDigits, hseparator, hhourDigits, hminuteDigits, hsecondDigits, ?_⟩,
    dropBytes_digits hsecondDigits hsecond, hyearNumber, hmonthNumber, hdayNumber, hhourNumber, hminuteNumber,
    hsecondNumber⟩
  rw [← Option.some.inj hsecondStart, ← Option.some.inj hminuteRest, ← Option.some.inj hminuteStart,
    ← Option.some.inj hhourRest, ← Option.some.inj hhourStart, ← Option.some.inj hdayRest, ← Option.some.inj hdayStart,
    ← Option.some.inj hmonthRest, ← Option.some.inj hmonthStart, ← Option.some.inj hyearRest]
  rw [dropBytes_zero, Option.some_inj] at hyear
  exact hyear

end Positions

/-! ### The timestamps that are read -/

section Stamps

variable {value : Text} {year month day hour minute second : Nat}

theorem Zone.Valid.seconds_bounds {zone : Zone} (h : zone.Valid) : -86400 ≤ zone.seconds ∧ zone.seconds ≤ 86400 := by
  cases zone with
  | utc mark =>
      rw [Zone.seconds]
      decide
  | offset sign hours minutes =>
      obtain ⟨-, -, -, hhours, hminutes⟩ := h
      rw [Zone.seconds]
      split_ifs <;> omega

theorem FractionValid.millis_lt {fraction : Option Text} (h : FractionValid fraction) :
    fraction.elim 0 fractionMillis < 1000 := by
  cases fraction with
  | none => decide
  | some digits => exact fractionMillis_lt (h digits rfl).2

/-- The date exists, and the time is one of a day. -/
structure InCalendar (year month day hour minute second : Nat) : Prop where
  month_mem : 1 ≤ month ∧ month ≤ 12
  day_mem : 1 ≤ day ∧ day ≤ Calendar.monthLength year month
  time_mem : hour ≤ 23 ∧ minute ≤ 59 ∧ second ≤ 59

theorem inCalendar_iff : InCalendar year month day hour minute second
    ↔ ¬ (¬ (1 ≤ month ∧ month ≤ 12) ∨ day = 0 ∨ daysInMonth year month < day ∨ 23 < hour ∨ 59 < minute
      ∨ 59 < second) := by
  rw [daysInMonth_eq]
  constructor
  · rintro ⟨hmonth, hday, htime⟩
    omega
  · intro h
    exact ⟨by omega, by omega, by omega⟩

theorem monthLength_le (year month : Nat) : Calendar.monthLength year month ≤ 31 := by
  fun_cases Calendar.monthLength year month <;> decide

theorem daysBefore_lt (hyear : year < 10000) (h : InCalendar year month day hour minute second) :
    Calendar.daysBefore year month day < 4000000 := by
  have hdays := Calendar.daysBefore_eq year h.month_mem h.day_mem.1
  have hlong := h.day_mem.2.trans (monthLength_le year month)
  have hmonth := h.month_mem
  rw [Calendar.yearStart] at hdays
  split_ifs at hdays <;> omega

/-- The arithmetic behind the checks does not overflow. -/
theorem finish_eq {offset : Int} {millis : Nat} (hyear : year < 10000)
    (h : InCalendar year month day hour minute second) (hoffset : -86400 ≤ offset ∧ offset ≤ 86400)
    (hmillis : millis < 1000) :
    (daysFromCivil year month day >>= fun days => unixMillis days hour minute second offset millis)
      = .ok (((Calendar.daysBefore year month day - Calendar.daysBefore 1970 1 1 : Int) * 86400 + hour * 3600
        + minute * 60 + second - offset) * 1000 + millis) := by
  have hdays := daysBefore_lt hyear h
  have hepoch := Calendar.daysBefore_epoch
  rw [daysFromCivil_eq hyear h.month_mem ⟨h.day_mem.1, h.day_mem.2.trans (monthLength_le year month)⟩, ok_bind,
    unixMillis_eq (by omega) h.time_mem hoffset (by omega)]

/-- What is read is a timestamp, and everything else is refused. -/
theorem parseRfc3339Millis_settles (hsize : byteLength value ≤ i64Max) :
    Settles (parseRfc3339Millis value) fun _ => ∃ stamp : Stamp, value = stamp.text := by
  rw [parseRfc3339Millis]
  by_cases hframed : Framed value
  · rw [if_neg (framed_iff.mp hframed)]
    have hdigits : ∀ {start count : Nat}, start ≤ 17 → count ≠ 0 ∧ count ≤ 9 →
        Settles (parseDigits value start count) fun result => parseDigits value start count = .ok result :=
      fun hstart hcount => (parseDigits_settles (by omega) hcount).self
    refine (hdigits (by decide) (by decide)).bind fun year hyear => ?_
    refine (hdigits (by decide) (by decide)).bind fun month hmonth => ?_
    refine (hdigits (by decide) (by decide)).bind fun day hday => ?_
    refine (hdigits (by decide) (by decide)).bind fun hour hhour => ?_
    refine (hdigits (by decide) (by decide)).bind fun minute hminute => ?_
    refine (hdigits (by decide) (by decide)).bind fun second hsecond => ?_
    have hreads : Reads value year month day hour minute second := ⟨hyear, hmonth, hday, hhour, hminute, hsecond⟩
    obtain ⟨yearText, monthText, dayText, separator, hourText, minuteText, secondText, left, hfields, hleft, rfl,
      rfl, rfl, rfl, rfl, rfl⟩ := hreads.fields hframed
    by_cases hcalendar : InCalendar (number yearText) (number monthText) (number dayText) (number hourText)
        (number minuteText) (number secondText)
    · rw [if_neg (inCalendar_iff.mp hcalendar)]
      refine (parseFraction_settles hsize hleft).bind ?_
      rintro ⟨cursor, millis⟩ ⟨fraction, after, hfraction, rfl, hafter, hmillis⟩
      refine (parseOffset_settles hsize hafter).bind ?_
      rintro _ ⟨zone, hzone, rfl, rfl⟩
      obtain rfl : millis = _ := hmillis
      rw [finish_eq hfields.year_digits.number_lt hcalendar hzone.seconds_bounds hfraction.millis_lt]
      exact settles_ok ⟨⟨yearText, monthText, dayText, separator, hourText, minuteText, secondText, fraction, zone,
        hfields.year_digits, hfields.month_digits, hfields.day_digits, hfields.separator_mem, hfields.hour_digits,
        hfields.minute_digits, hfields.second_digits, hfraction, hcalendar.month_mem, hcalendar.day_mem,
        hcalendar.time_mem, hzone⟩, hfields.text_eq⟩
    · rw [if_pos (not_not.mp (mt inCalendar_iff.mpr hcalendar))]
      exact settles_refuse
  · rw [if_pos (not_not.mp (mt framed_iff.mpr hframed))]
    exact settles_refuse

namespace Stamp

variable (stamp : Stamp)

theorem fields : Fields stamp.text stamp.year stamp.month stamp.day stamp.separator stamp.hour stamp.minute stamp.second
    (fractionText stamp.fraction ++ stamp.zone.text) :=
  ⟨stamp.year_digits, stamp.month_digits, stamp.day_digits, stamp.separator_mem, stamp.hour_digits, stamp.minute_digits,
    stamp.second_digits, rfl⟩

theorem inCalendar : InCalendar (number stamp.year) (number stamp.month) (number stamp.day) (number stamp.hour)
    (number stamp.minute) (number stamp.second) :=
  ⟨stamp.month_mem, stamp.day_mem, stamp.time_mem⟩

theorem floor_instant : ⌊stamp.instant * 1000⌋
    = stamp.unixSeconds * 1000 + (stamp.fraction.elim 0 fractionMillis : Nat) := by
  have hfraction : ⌊(stamp.fraction.elim 0 fun digits => (number digits : ℚ) / 10 ^ digits.length) * 1000⌋
      = (stamp.fraction.elim 0 fractionMillis : Nat) := by
    have hvalid := stamp.fraction_valid
    generalize stamp.fraction = fraction at hvalid ⊢
    cases fraction with
    | none => simp
    | some digits => exact (fractionMillis_eq_floor (hvalid digits rfl).2).symm
  have hseconds : (stamp.unixSeconds : ℚ) * 1000 = (stamp.unixSeconds * 1000 : Int) := by
    push_cast
    rfl
  rw [instant, add_mul, hseconds, Int.floor_intCast_add, hfraction]

end Stamp

theorem Zone.Valid.exists_text {zone : Zone} (h : zone.Valid) :
    ∃ c rest, zone.text = c :: rest ∧ ¬ c.isDigit = true ∧ c ≠ '.' := by
  cases zone with
  | utc mark =>
      refine ⟨mark, [], rfl, ?_⟩
      rcases h with rfl | rfl <;> decide
  | offset sign hours minutes =>
      refine ⟨sign, _, rfl, ?_⟩
      rcases h.1 with rfl | rfl <;> decide

/-- A timestamp is read as the milliseconds of its instant. -/
theorem parseRfc3339Millis_text (stamp : Stamp) (hsize : byteLength stamp.text ≤ i64Max) :
    parseRfc3339Millis stamp.text = .ok ⌊stamp.instant * 1000⌋ := by
  obtain ⟨c, rest, hzone, hc⟩ := stamp.zone_valid.exists_text
  obtain ⟨hframed, hleft, hreads⟩ := stamp.fields.reads (by rw [hzone]; simp)
  rw [hzone] at hleft
  obtain ⟨cursor, hfraction, hcursor⟩ := parseFraction_of_text hsize stamp.fraction_valid hc hleft
  rw [← hzone] at hcursor
  rw [parseRfc3339Millis, if_neg (framed_iff.mp hframed), hreads.year_eq, ok_bind, hreads.month_eq, ok_bind,
    hreads.day_eq, ok_bind, hreads.hour_eq, ok_bind, hreads.minute_eq, ok_bind, hreads.second_eq, ok_bind,
    if_neg (inCalendar_iff.mp stamp.inCalendar), hfraction, ok_bind]
  dsimp only
  rw [parseOffset_of_zone hsize stamp.zone_valid hcursor, ok_bind,
    finish_eq stamp.year_digits.number_lt stamp.inCalendar stamp.zone_valid.seconds_bounds
      stamp.fraction_valid.millis_lt, stamp.floor_instant, Stamp.unixSeconds]

/-- The text is a timestamp of the instant. -/
def Denotes (value : Str) (instant : ℚ) : Prop := ∃ stamp : Stamp, value.text = stamp.text ∧ instant = stamp.instant

theorem Denotes.parse {value : Str} {instant : ℚ} (h : Denotes value instant) :
    parseRfc3339Millis value.text = .ok ⌊instant * 1000⌋ := by
  obtain ⟨stamp, htext, rfl⟩ := h
  have hsize := value.size_le
  rw [htext] at hsize ⊢
  exact parseRfc3339Millis_text stamp hsize

/-- A later floor is an integer in between. -/
theorem floor_lt_floor {left right : ℚ} : ⌊left⌋ < ⌊right⌋ ↔ ∃ tick : ℤ, left < tick ∧ tick ≤ right :=
  ⟨fun h => ⟨⌊right⌋, Int.floor_lt.mp h, Int.floor_le right⟩,
    fun ⟨_, hleft, hright⟩ => (Int.floor_lt.mpr hleft).trans_le (Int.le_floor.mpr hright)⟩

/-- The reader returns a number on timestamps only, and it is the milliseconds of the instant; it does not panic; and
of two timestamps the one has the smaller number when a millisecond begins after its instant and not after the
other's. -/
theorem parseRfc3339Millis_exact (value : Str) :
    parseRfc3339Millis value.text ≠ .error .panic
      ∧ (∀ millis, parseRfc3339Millis value.text = .ok millis
        ↔ ∃ instant, Denotes value instant ∧ millis = ⌊instant * 1000⌋)
      ∧ ∀ (other : Str) (instant otherInstant : ℚ), Denotes value instant → Denotes other otherInstant →
        ∃ millis otherMillis, parseRfc3339Millis value.text = .ok millis
          ∧ parseRfc3339Millis other.text = .ok otherMillis
          ∧ (millis < otherMillis ↔ ∃ tick : ℤ, instant * 1000 < tick ∧ tick ≤ otherInstant * 1000) := by
  have hsettles := parseRfc3339Millis_settles value.size_le
  refine ⟨?_, fun millis => ⟨fun h => ?_, ?_⟩, fun other instant otherInstant hvalue hother => ?_⟩
  · rcases hsettles with h | ⟨millis, h, -⟩
    · rw [h]
      exact nofun
    · rw [h]
      exact nofun
  · rcases hsettles with hrefused | ⟨_, -, stamp, htext⟩
    · rw [hrefused] at h
      exact absurd h refuse_ne_ok
    · have hdenotes : Denotes value stamp.instant := ⟨stamp, htext, rfl⟩
      exact ⟨stamp.instant, hdenotes, Except.ok.inj (h.symm.trans hdenotes.parse)⟩
  · rintro ⟨instant, hdenotes, rfl⟩
    exact hdenotes.parse
  · exact ⟨_, _, hvalue.parse, hother.parse, floor_lt_floor⟩

end Stamps

theorem digits_of_all {count : Nat} {text : Text} (hlength : text.length = count) (h : text.all Char.isDigit = true) :
    Digits count text :=
  ⟨hlength, List.all_eq_true.mp h⟩

/-- A timestamp of the first second of 1970. -/
def firstSecond (fraction : Text) (zone : Zone) (hne : fraction ≠ []) (hdigits : fraction.all Char.isDigit = true)
    (hzone : zone.Valid) : Stamp where
  year := "1970".toList
  month := "01".toList
  day := "01".toList
  separator := ' '
  hour := "00".toList
  minute := "00".toList
  second := "00".toList
  fraction := some fraction
  zone := zone
  year_digits := digits_of_all rfl rfl
  month_digits := digits_of_all rfl rfl
  day_digits := digits_of_all rfl rfl
  separator_mem := .inr (.inr rfl)
  hour_digits := digits_of_all rfl rfl
  minute_digits := digits_of_all rfl rfl
  second_digits := digits_of_all rfl rfl
  fraction_valid := fun _ h => Option.some.inj h ▸ ⟨hne, List.all_eq_true.mp hdigits⟩
  month_mem := by decide
  day_mem := by decide
  time_mem := by decide
  zone_valid := hzone

theorem instant_firstSecond {fraction : Text} {zone : Zone} (hne : fraction ≠ [])
    (hdigits : fraction.all Char.isDigit = true) (hzone : zone.Valid) :
    (firstSecond fraction zone hne hdigits hzone).instant
      = (number fraction : ℚ) / 10 ^ fraction.length - zone.seconds := by
  have hseconds : (firstSecond fraction zone hne hdigits hzone).unixSeconds = -zone.seconds := by
    show ((Calendar.daysBefore 1970 1 1 : Int) - Calendar.daysBefore 1970 1 1) * 86400 + (0 : Nat) * 3600
      + (0 : Nat) * 60 + (0 : Nat) - zone.seconds = -zone.seconds
    rw [sub_self]
    omega
  rw [Stamp.instant, hseconds, Int.cast_neg, neg_add_eq_sub]
  rfl

theorem parseRfc3339Millis_exact_firstSecond : ∃ millis otherMillis,
    parseRfc3339Millis "1970-01-01 00:00:00.0009Z".toList = .ok millis
      ∧ parseRfc3339Millis "1970-01-01 00:00:00.5-00:30".toList = .ok otherMillis
      ∧ (millis < otherMillis ↔ ∃ tick : ℤ, (9 / 10000 : ℚ) * 1000 < tick ∧ (tick : ℚ) ≤ (3601 / 2) * 1000) := by
  have hdigits : ['0', '0', '0', '9'].all Char.isDigit = true ∧ ['5'].all Char.isDigit = true := by decide
  have hzone : (Zone.offset '-' ['0', '0'] ['3', '0']).Valid :=
    ⟨.inr rfl, digits_of_all rfl rfl, digits_of_all rfl rfl, by decide, by decide⟩
  have hutc : (Zone.utc 'Z').Valid := .inl rfl
  have hseconds : (Zone.offset '-' ['0', '0'] ['3', '0']).seconds = -1800 := by decide
  have hnumbers : number ['0', '0', '0', '9'] = 9 ∧ number ['5'] = 5 := by decide
  refine (parseRfc3339Millis_exact ⟨"1970-01-01 00:00:00.0009Z".toList, by decide⟩).2.2
    ⟨"1970-01-01 00:00:00.5-00:30".toList, by decide⟩ _ _
    ⟨firstSecond _ _ (List.cons_ne_nil _ _) hdigits.1 hutc, rfl, ?_⟩
    ⟨firstSecond _ _ (List.cons_ne_nil _ _) hdigits.2 hzone, rfl, ?_⟩
  · rw [instant_firstSecond, hnumbers.1, Zone.seconds]
    norm_num
  · rw [instant_firstSecond, hnumbers.2, hseconds]
    norm_num

end RfcTimestamps

end MetricBackend
