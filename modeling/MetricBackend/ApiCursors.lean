import MetricBackend.DomainEvents
import MetricBackend.DomainNotifications
import MetricBackend.ExplorePlanner
import MetricBackend.LibNumerals

/-! The cursors of the API: the tokens of `application/src/search.rs` for pages of the stores, and those of
`application/src/native_api.rs` for raw Explore pages, with the errors of both files. A digest is the one of
the `blake3` package. Authorization, and the errors that only it has, are left out. -/

namespace MetricBackend

inductive SearchError where
  | syntaxError
  | fieldNotIndexed
  | limitExceeded
  | positiveAnchorRequired
  | invalidCursor
  | tooBroad
  | notFound
  | unavailable
  | invalidData
deriving DecidableEq, Repr

inductive NativeApiError where
  | invalidRequest
  | invalidCursor
  | notFound
  | conflict
  | search (error : SearchError)
  | explore (error : ExplorePlanner.ExploreError)
  | query (error : QueryLanguage.QueryError)
  | unavailable
deriving DecidableEq, Repr

def Identity.fromBytes {kind : IdentityKind} (bytes : List (BitVec 8)) : Identity kind :=
  ⟨BitVec.ofNat 128 (readBigEndian bytes)⟩

def EventKey.bytes (key : EventKey) : List (BitVec 8) := bigEndian 20 key.asBytes.toNat

namespace ApiCursors

inductive CursorKind where
  | issue
  | event
  | activity
  | release
  | environment
  | feedback
  | monitorRun
  | replay
deriving DecidableEq, Repr

def CursorKind.code : CursorKind → BitVec 8
  | issue => 1
  | event => 2
  | activity => 3
  | release => 4
  | environment => 5
  | feedback => 6
  | monitorRun => 7
  | replay => 8

/-- `i64::from_be_bytes`. -/
def readI64 (bytes : List (BitVec 8)) : Int := (BitVec.ofNat 64 (readBigEndian bytes)).toInt

section Digests

variable (blake3 : List (BitVec 8) → BitVec 256)

/-- The first sixteen bytes of a digest. -/
def digestPrefix (input : List (BitVec 8)) : List (BitVec 8) := (bigEndian 32 (blake3 input).toNat).take 16

def cursorDigest (projectId : ProjectId) (normalized : Text) (kind : CursorKind) : List (BitVec 8) :=
  digestPrefix blake3 (utf8Bytes "metric/api-cursor/v1".toList ++ kind.code :: bigEndian 4 projectId.get
    ++ bigEndian 8 (byteLength normalized) ++ utf8Bytes normalized)

def exploreCursorDigest (projectId : ProjectId) (normalized : Text) (dataset : BitVec 8) : List (BitVec 8) :=
  digestPrefix blake3 (utf8Bytes "metric/explore-cursor/v1".toList ++ dataset :: bigEndian 4 projectId.get
    ++ utf8Bytes normalized)

end Digests

def encodeCursor (kind : CursorKind) (timestamp : Timestamp) (id digest : List (BitVec 8)) : Text :=
  hexEncode (1 :: kind.code :: bigEndian 8 timestamp.unixMillis ++ BitVec.ofNat 8 id.length :: id ++ digest)

def decodeCursor (encoded : Text) (kind : CursorKind) (idLen : Nat) (digest : List (BitVec 8)) :
    Except SearchError (Timestamp × List (BitVec 8)) := do
  failIf (128 < byteLength encoded) .invalidCursor
  let value ← (hexDecode encoded).elim (.error .invalidCursor) .ok
  failIf (value.length ≠ 27 + idLen ∨ value[0]? ≠ some 1 ∨ value[1]? ≠ some kind.code
    ∨ (value[10]?.map BitVec.toNat) ≠ some idLen ∨ value.drop (11 + idLen) ≠ digest) .invalidCursor
  let timestamp ← (Timestamp.fromUnixMillis (readI64 ((value.drop 2).take 8))).mapError fun _ => .invalidCursor
  return (timestamp, (value.drop 11).take idLen)

def encodeExploreCursor (cursor : ExploreCursor) (digest : List (BitVec 8)) : Text :=
  hexEncode (1 :: bigEndian 8 cursor.time ++ BitVec.ofNat 8 cursor.idLen :: cursor.id ++ digest)

def decodeExploreCursor (encoded : Text) (digest : List (BitVec 8)) : Except NativeApiError ExploreCursor := do
  let bytes ← (hexDecode encoded).elim (.error .invalidCursor) .ok
  failIf (bytes.length ≠ 46 ∨ bytes[0]? ≠ some 1 ∨ (bytes[9]?.map BitVec.toNat) ∉ [some 16, some 20]
    ∨ bytes.drop 30 ≠ digest) .invalidCursor
  return ⟨readI64 ((bytes.drop 1).take 8), (bytes.drop 10).take 20, ((bytes[9]?.map BitVec.toNat).getD 0)⟩

/-! ### Reading cursors back -/

theorem length_digestPrefix (blake3 : List (BitVec 8) → BitVec 256) (input : List (BitVec 8)) :
    (digestPrefix blake3 input).length = 16 := by
  rw [digestPrefix, List.length_take, length_bigEndian]
  rfl

theorem fromBytes_bytes {kind : IdentityKind} (id : Identity kind) : Identity.fromBytes id.bytes = id := by
  rw [Identity.fromBytes, Identity.bytes, readBigEndian_bytes 16, BitVec.ofNat_toNat, BitVec.setWidth_eq]

theorem readI64_bigEndian {value : Int} (h : -2 ^ 63 ≤ value ∧ value < 2 ^ 63) : readI64 (bigEndian 8 value) = value := by
  have hread := readBigEndian_bigEndian 8 value
  have hof : BitVec.ofNat 64 (readBigEndian (bigEndian 8 value)) = BitVec.ofInt 64 value := by
    rw [← BitVec.ofInt_natCast, hread]
    apply BitVec.eq_of_toInt_eq
    rw [BitVec.toInt_ofInt, BitVec.toInt_ofInt]
    exact Int.emod_bmod ..
  rw [readI64, hof, BitVec.toInt_ofInt]
  exact Int.bmod_eq_of_le (by omega) (by omega)

theorem timestamp_inI64 (timestamp : Timestamp) : -2 ^ 63 ≤ timestamp.unixMillis ∧ timestamp.unixMillis < 2 ^ 63 := by
  have h := timestamp.inRange
  unfold minTimestampMillis maxTimestampMillis at h
  omega

theorem drop_past {time rest : List (BitVec 8)} {byte : BitVec 8} (htime : time.length = 8) (count : Nat) :
    (time ++ byte :: rest).drop (9 + count) = rest.drop count := by
  have hnine : (time ++ byte :: rest).drop 9 = rest := by
    rw [List.append_cons, List.drop_left' (by simp [htime])]
  rw [← List.drop_drop, hnine]

/-- A cursor that the API returned is read back under the same digest. -/
theorem decodeCursor_encodeCursor (kind : CursorKind) (timestamp : Timestamp) (id : List (BitVec 8))
    {digest : List (BitVec 8)} (hid : id.length ≤ 37) (hdigest : digest.length = 16) :
    decodeCursor (encodeCursor kind timestamp id digest) kind id.length digest = .ok (timestamp, id) := by
  have htime := length_bigEndian 8 timestamp.unixMillis
  have hlen : (BitVec.ofNat 8 id.length).toNat = id.length := by
    rw [BitVec.toNat_ofNat, Nat.mod_eq_of_lt (by omega)]
  have hread := readI64_bigEndian (timestamp_inI64 timestamp)
  unfold encodeCursor
  generalize bigEndian 8 timestamp.unixMillis = time at htime hread
  have hsize : byteLength (hexEncode (1 :: kind.code :: time ++ BitVec.ofNat 8 id.length :: id ++ digest)) ≤ 128 := by
    rw [byteLength_hexEncode]
    simp only [List.cons_append, List.length_cons, List.length_append, htime, hdigest]
    omega
  have hlength : (1 :: kind.code :: time ++ BitVec.ofNat 8 id.length :: id ++ digest).length = 27 + id.length := by
    simp only [List.cons_append, List.length_cons, List.length_append, htime, hdigest]
    omega
  have hten : (1 :: kind.code :: time ++ BitVec.ofNat 8 id.length :: id ++ digest)[10]?
      = some (BitVec.ofNat 8 id.length) := by
    simp [htime]
  have hdrop : ∀ count, (1 :: kind.code :: time ++ BitVec.ofNat 8 id.length :: id ++ digest).drop (11 + count)
      = (id ++ digest).drop count := by
    intro count
    have hshift : 11 + count = 9 + count + 1 + 1 := by omega
    rw [hshift, List.append_assoc, List.cons_append, List.cons_append, List.drop_succ_cons, List.drop_succ_cons]
    exact drop_past htime count
  simp only [decodeCursor, bind_eq_ok, failIf_eq_ok, pure_eq_ok, mapError_eq_ok]
  refine ⟨(), not_lt.mpr hsize, _, by rw [hexDecode_hexEncode, Option.elim_some], (), ?_, timestamp, ?_, ?_⟩
  · rw [hlength, hten, hdrop, List.drop_left]
    simp [hlen]
  · rw [Timestamp.fromUnixMillis_eq_ok, ← hread]
    simp [htime]
  · have h := hdrop 0
    rw [Nat.add_zero, List.drop_zero] at h
    rw [h, List.take_left]

/-- So is a cursor of a raw Explore page. -/
theorem decodeExploreCursor_encodeExploreCursor {cursor : ExploreCursor} {digest : List (BitVec 8)}
    (htime : -2 ^ 63 ≤ cursor.time ∧ cursor.time < 2 ^ 63) (hid : cursor.id.length = 20)
    (hidLen : cursor.idLen = 16 ∨ cursor.idLen = 20) (hdigest : digest.length = 16) :
    decodeExploreCursor (encodeExploreCursor cursor digest) digest = .ok cursor := by
  have hbytes := length_bigEndian 8 cursor.time
  have hread := readI64_bigEndian htime
  have hlen : (BitVec.ofNat 8 cursor.idLen).toNat = cursor.idLen := by
    rw [BitVec.toNat_ofNat, Nat.mod_eq_of_lt (by omega)]
  unfold encodeExploreCursor
  generalize bigEndian 8 cursor.time = time at hbytes hread
  have hnine : (1 :: time ++ BitVec.ofNat 8 cursor.idLen :: cursor.id ++ digest)[9]?
      = some (BitVec.ofNat 8 cursor.idLen) := by
    simp [hbytes]
  have hdrop : ∀ count, (1 :: time ++ BitVec.ofNat 8 cursor.idLen :: cursor.id ++ digest).drop (10 + count)
      = (cursor.id ++ digest).drop count := by
    intro count
    have hshift : 10 + count = 9 + count + 1 := by omega
    rw [hshift, List.append_assoc, List.cons_append, List.drop_succ_cons]
    exact drop_past hbytes count
  simp only [decodeExploreCursor, bind_eq_ok, failIf_eq_ok, pure_eq_ok]
  refine ⟨_, by rw [hexDecode_hexEncode, Option.elim_some], (), ?_, ?_⟩
  · have h := hdrop 20
    rw [List.drop_left' hid] at h
    rw [hnine, h, Option.map_some, hlen]
    rcases hidLen with h | h <;> simp [h, hbytes, hid, hdigest]
  · have h := hdrop 0
    rw [Nat.add_zero, List.drop_zero] at h
    rw [hnine, h, List.take_left' hid, Option.map_some, hlen, Option.getD_some]
    simp [hread, hbytes]

end ApiCursors

end MetricBackend
