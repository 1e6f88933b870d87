import MetricBackend.LibText

/-! Internet addresses as texts: the parser of `std::net` and the display of an address. -/

namespace MetricBackend

inductive IpAddr where
  | v4 (octets : List Nat)
  | v6 (segments : List Nat)
deriving DecidableEq, Repr

namespace IpAddr

/-! ### Parsing -/

/-- A part of the text and what follows it. -/
abbrev Reader (α : Type) : Type := Text → Option (α × Text)

/-- All the digits at the start of a text, no more than a number of them, with a value under a bound. -/
def readNumber (radix maxDigits bound : Nat) (allowZeroPrefix : Bool) : Reader Nat := fun text =>
  let (digits, rest) := text.span fun c => (hexValue c).any (· < radix)
  if digits.isEmpty || maxDigits < digits.length || (!allowZeroPrefix && digits.head? = some '0' && 1 < digits.length)
  then none
  else ((hexValues digits).map fun values => values.foldl (fun total digit => total * radix + digit) 0).bind
    fun value => if value < bound then some (value, rest) else none
where
  hexValues (digits : Text) : Option (List Nat) := digits.mapM hexValue

/-- Every part but the first stands after a separator. -/
def readSeparator {α : Type} (separator : Char) (index : Nat) (inner : Reader α) : Reader α := fun text =>
  if index = 0 then inner text
  else
    match text with
    | c :: rest => if c = separator then inner rest else none
    | [] => none

def readOctets : Nat → Nat → Reader (List Nat)
  | 0, _ => fun text => some ([], text)
  | count + 1, index => fun text => do
      let (octet, rest) ← readSeparator '.' index (readNumber 10 3 256 false) text
      let (octets, rest) ← readOctets count (index + 1) rest
      return (octet :: octets, rest)

def readIpv4Addr : Reader (List Nat) := readOctets 4 0

/-- The two segments that four octets make. -/
def octetSegments : List Nat → List Nat
  | [first, second, third, fourth] => [first * 256 + second, third * 256 + fourth]
  | _ => []

/-- The segments up to a limit, and whether the last two are an embedded IPv4 address. -/
def readGroups : Nat → Nat → Text → List Nat × Bool × Text
  | 0, _, text => ([], false, text)
  | limit + 1, index, text =>
      match (if limit = 0 then none else readSeparator ':' index readIpv4Addr text) with
      | some (octets, rest) => (octetSegments octets, true, rest)
      | none =>
          match readSeparator ':' index (readNumber 16 4 65536 true) text with
          | none => ([], false, text)
          | some (segment, rest) =>
              let (segments, embedded, rest) := readGroups limit (index + 1) rest
              (segment :: segments, embedded, rest)

def readIpv6Addr : Reader (List Nat) := fun text =>
  let (head, embedded, rest) := readGroups 8 0 text
  if head.length = 8 then some (head, rest)
  else if embedded then none
  else
    match rest with
    | ':' :: ':' :: rest =>
        let (tail, _, rest) := readGroups (8 - (head.length + 1)) 0 rest
        some (head ++ List.replicate (8 - head.length - tail.length) 0 ++ tail, rest)
    | _ => none

/-- `str::parse::<IpAddr>`. -/
def parse (text : Text) : Option IpAddr :=
  match readIpv4Addr text with
  | some (octets, rest) => if rest.isEmpty then some (.v4 octets) else none
  | none =>
      match readIpv6Addr text with
      | some (segments, rest) => if rest.isEmpty then some (.v6 segments) else none
      | none => none

/-! ### Display -/

/-- The start and the length of the first of the longest runs of zeros. -/
def longestZeros (segments : List Nat) : Nat × Nat :=
  (segments.zipIdx.foldl (fun (longest, current) (segment, index) =>
    if segment = 0 then
      let current := if current.2 = 0 then (index, 1) else (current.1, current.2 + 1)
      (if longest.2 < current.2 then current else longest, current)
    else (longest, (0, 0))) (((0, 0) : Nat × Nat), ((0, 0) : Nat × Nat))).1

def displaySegments (segments : List Nat) : Text := List.intercalate [':'] (segments.map (Nat.toDigits 16))

def displayOctets (octets : List Nat) : Text := List.intercalate ['.'] (octets.map (Nat.toDigits 10))

def display : IpAddr → Text
  | v4 octets => displayOctets octets
  | v6 segments =>
      if segments.take 6 = [0, 0, 0, 0, 0, 65535] then
        "::ffff:".toList ++ displayOctets ((segments.drop 6).flatMap fun segment => [segment / 256, segment % 256])
      else
        let (start, count) := longestZeros segments
        if 1 < count then
          displaySegments (segments.take start) ++ "::".toList ++ displaySegments (segments.drop (start + count))
        else displaySegments segments

/-! ### The characters of an address -/

/-- The characters that an address is written with. -/
def addressChar (c : Char) : Bool := c = ':' ∨ c = '.' ∨ (hexValue c).isSome

theorem addressChar_digitChar : ∀ digit < 16, addressChar (Nat.digitChar digit) = true := by decide

theorem addressChar_toDigits {base : Nat} (hone : 1 < base) (hbase : base ≤ 16) (value : Nat) :
    ∀ c ∈ Nat.toDigits base value, addressChar c = true := by
  induction value using Nat.strongRecOn with
  | ind value ih =>
      by_cases hsmall : value < base
      · rw [Nat.toDigits_of_lt_base hsmall]
        exact List.forall_mem_singleton.mpr (addressChar_digitChar value (by omega))
      · have hquotient : value / base < value := Nat.div_lt_self (by omega) hone
        have hmod : value % base < base := Nat.mod_lt _ (by omega)
        rw [Nat.toDigits_of_base_le hone (by omega)]
        exact List.forall_mem_append.mpr
          ⟨ih _ hquotient, List.forall_mem_singleton.mpr (addressChar_digitChar _ (by omega))⟩

theorem addressChar_intercalate {separator : Char} (hseparator : addressChar separator = true) {base : Nat}
    (hone : 1 < base) (hbase : base ≤ 16) (values : List Nat) :
    ∀ c ∈ List.intercalate [separator] (values.map (Nat.toDigits base)), addressChar c = true := by
  induction values with
  | nil => exact fun _ h => absurd h List.not_mem_nil
  | cons value values ih =>
      cases values with
      | nil => simpa using addressChar_toDigits hone hbase value
      | cons second values =>
          rw [List.map_cons, List.map_cons, List.intercalate_cons_cons]
          exact List.forall_mem_append.mpr ⟨List.forall_mem_append.mpr ⟨addressChar_toDigits hone hbase value,
            List.forall_mem_singleton.mpr hseparator⟩, ih⟩

theorem addressChar_displaySegments (segments : List Nat) : ∀ c ∈ displaySegments segments, addressChar c = true :=
  addressChar_intercalate rfl (by decide) (by decide) segments

theorem addressChar_displayOctets (octets : List Nat) : ∀ c ∈ displayOctets octets, addressChar c = true :=
  addressChar_intercalate rfl (by decide) (by decide) octets

theorem addressChar_display (address : IpAddr) : ∀ c ∈ address.display, addressChar c = true := by
  cases address with
  | v4 octets => exact addressChar_displayOctets octets
  | v6 segments =>
      have hcolons : ∀ c ∈ "::".toList, addressChar c = true := List.all_eq_true.mp rfl
      have hmapped : ∀ c ∈ "::ffff:".toList, addressChar c = true := List.all_eq_true.mp rfl
      rw [display]
      split_ifs
      · exact List.forall_mem_append.mpr ⟨hmapped, addressChar_displayOctets _⟩
      · dsimp only
        split_ifs
        · exact List.forall_mem_append.mpr ⟨List.forall_mem_append.mpr
            ⟨addressChar_displaySegments _, hcolons⟩, addressChar_displaySegments _⟩
        · exact addressChar_displaySegments _

end IpAddr

end MetricBackend
