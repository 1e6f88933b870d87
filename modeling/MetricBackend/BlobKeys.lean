import Mathlib.Data.Nat.Digits.Lemmas
import MetricBackend.DomainFinalization
import MetricBackend.LibBase64
import MetricBackend.LibNumerals
import MetricBackend.SentryProtocol

/-! The blob keys of `domain/src/blob.rs`: the formatted text of each constructor, the check of `BlobKey::new` and the
relations that read the owner back. -/

namespace MetricBackend

inductive BlobValueError where
  | invalidKey
  | invalidFilename
  | invalidContentType
deriving DecidableEq

@[ext]
structure BlobObjectId where
  asBytes : BitVec 128
deriving DecidableEq

@[ext]
structure DebugFileId where
  asBytes : BitVec 128
deriving DecidableEq

@[ext]
structure ArtifactBundleId where
  asBytes : BitVec 128
deriving DecidableEq

@[ext]
structure ArchiveSegmentId where
  asBytes : BitVec 128
deriving DecidableEq

inductive ArchiveKind where
  | event
  | log
  | span
  | session
  | metric
deriving DecidableEq

def ArchiveKind.directory : ArchiveKind → Text
  | .event => "events".toList
  | .log => "logs".toList
  | .span => "spans".toList
  | .session => "sessions".toList
  | .metric => "metrics".toList

def ArchiveKind.fromDirectory (value : Text) : Option ArchiveKind :=
  if value = "events".toList then some .event
  else if value = "logs".toList then some .log
  else if value = "spans".toList then some .span
  else if value = "sessions".toList then some .session
  else if value = "metrics".toList then some .metric
  else none

def ProjectId.new (value : Int) : Except PrimitiveError ProjectId :=
  if h : 0 < value ∧ value < 2 ^ 31 then .ok ⟨value, h⟩ else .error .invalidProjectId

/-- `hex::encode` of sixteen bytes. -/
def hexIdentity (bytes : BitVec 128) : Text := hexEncode (bigEndian 16 bytes.toNat)

/-- `URL_SAFE_NO_PAD.encode` of sixteen bytes. -/
def base64Identity (bytes : BitVec 128) : Text := base64Encode (bigEndian 16 bytes.toNat)

def base64IdentityOf (text : Text) : Option (BitVec 128) :=
  ((base64Decode text).filter (·.length = 16)).map fun bytes => BitVec.ofNat 128 (readBigEndian bytes)

/-! ### Numbers -/

def base36Alphabet : Text := "0123456789abcdefghijklmnopqrstuvwxyz".toList

def base36Char (digit : Nat) : Char := base36Alphabet.getD digit '0'

/-- The loop collects the low digit first and the digits are turned around; zero has none. -/
def base36 (value : Nat) : Text := numeral base36Char 36 value

/-- `char::to_digit` in base 36. -/
def base36Value (c : Char) : Option Nat :=
  if c.isDigit then some (c.toNat - 48)
  else if c.isLower then some (c.toNat - 87)
  else if c.isUpper then some (c.toNat - 55)
  else none

/-- `i32::from_str_radix` in base 36. -/
def i32FromBase36 (text : Text) : Option Int :=
  let (negative, digits) := match text with
    | '-' :: rest => (true, rest)
    | '+' :: rest => (false, rest)
    | text => (false, text)
  let value := if digits.isEmpty then none else baseValue base36Value 36 digits
  (value.map fun value : Nat => if negative then -(value : Int) else value).filter fun value =>
    -2 ^ 31 ≤ value ∧ value < 2 ^ 31

/-- `str::parse::<i32>`. -/
def parseI32 (text : Text) : Option Int := (parseI64 text).filter fun value => -2 ^ 31 ≤ value ∧ value < 2 ^ 31

/-- A decimal number with zeros before it up to a width. -/
def zeroPadded (width value : Nat) : Text :=
  List.replicate (width - (jsonNumber value).length) '0' ++ jsonNumber value

/-- `format!("{year:04}")`: the sign counts as one of the four. -/
def yearText (year : BitVec 32) : Text :=
  if year.toInt < 0 then '-' :: zeroPadded 3 year.toInt.natAbs else zeroPadded 4 year.toInt.natAbs

/-! ### Keys -/

def isKeyChar (c : Char) : Bool := c.isAlphanum || c = '-' || c = '_' || c = '.' || c = '@'

def validSegment (segment : Text) : Bool :=
  !segment.isEmpty && segment ≠ ".".toList && segment ≠ "..".toList && byteLength segment ≤ 128
    && segment.all isKeyChar

def maxBlobKeyBytes : Nat := 512

structure BlobKey where
  text : Text
deriving DecidableEq

namespace BlobKey

/-- `str::split('/')`. -/
def segments (key : BlobKey) : List Text := key.text.splitOnP (· = '/')

def new (value : Text) : Except BlobValueError BlobKey :=
  if !value.isEmpty && byteLength value ≤ maxBlobKeyBytes && value.head? ≠ some '/' && value.getLast? ≠ some '/'
      && !value.contains '\\' && (value.splitOnP (· = '/')).all validSegment then .ok ⟨value⟩
  else .error .invalidKey

def eventOwned (projectId : ProjectId) (eventId : EventId) (objectId : BlobObjectId) : BlobKey :=
  ⟨"projects/".toList ++ jsonInteger projectId.get ++ "/events/".toList ++ hexIdentity eventId.asBytes ++ "/".toList
    ++ hexIdentity objectId.asBytes⟩

def replayRecording (projectId : ProjectId) (replayId : EventId) (segmentId : BitVec 32) : BlobKey :=
  ⟨"projects/".toList ++ jsonInteger projectId.get ++ "/replays/".toList ++ hexIdentity replayId.asBytes ++ "/".toList
    ++ jsonNumber segmentId.toNat ++ ".rrweb".toList⟩

def debugChunk (organizationId : OrganizationId) (sha1 : BitVec 160) : BlobKey :=
  ⟨"debug-chunks/".toList ++ jsonNumber organizationId.get ++ "/".toList ++ hexEncode (bigEndian 20 sha1.toNat)⟩

def debugFile (projectId : ProjectId) (fileId : DebugFileId) : BlobKey :=
  ⟨"d/".toList ++ base36 projectId.get.toNat ++ "/".toList ++ base64Identity fileId.asBytes⟩

def artifactBundle (organizationId : OrganizationId) (bundleId : ArtifactBundleId) (generation : BitVec 32) : BlobKey :=
  let suffix := if generation = 0 then [] else "/".toList ++ base36 generation.toNat
  ⟨"a/".toList ++ base36 organizationId.get ++ "/".toList ++ base64Identity bundleId.asBytes ++ suffix⟩

def archive (kind : ArchiveKind) (projectId : ProjectId) (year : BitVec 32) (month day : BitVec 8)
    (segmentId : ArchiveSegmentId) : BlobKey :=
  ⟨"projects/".toList ++ jsonInteger projectId.get ++ "/archives/".toList ++ kind.directory ++ "/".toList
    ++ yearText year ++ "/".toList ++ zeroPadded 2 month.toNat ++ "/".toList ++ zeroPadded 2 day.toNat ++ "/".toList
    ++ hexIdentity segmentId.asBytes ++ ".parquet".toList⟩

def orInvalidKey {α : Type} : Option α → Except BlobValueError α
  | some value => .ok value
  | none => .error .invalidKey

def projectOf (segment : Text) : Except BlobValueError ProjectId :=
  orInvalidKey ((parseI32 segment).bind fun value => (ProjectId.new value).toOption)

def eventOf (segment : Text) : Except BlobValueError EventId :=
  orInvalidKey ((parseHexIdentifier segment).map Identity.mk)

/-- `BlobObjectId::parse`. -/
def objectOf (segment : Text) : Except BlobValueError BlobObjectId :=
  orInvalidKey ((parseHexIdentifier segment).map BlobObjectId.mk)

def eventRelation (key : BlobKey) : Except BlobValueError (ProjectId × EventId × BlobObjectId) :=
  match key.segments with
  | [first, project, third, event, object] => do
      failIf (first ≠ "projects".toList ∨ third ≠ "events".toList) .invalidKey
      return (← projectOf project, ← eventOf event, ← objectOf object)
  | _ => .error .invalidKey

def replayRelation (key : BlobKey) : Except BlobValueError (ProjectId × EventId × BitVec 32) :=
  match key.segments with
  | [first, project, third, replay, last] => do
      failIf (first ≠ "projects".toList ∨ third ≠ "replays".toList) .invalidKey
      let projectId ← projectOf project
      let replayId ← eventOf replay
      let segmentId ← orInvalidKey ((".rrweb".toList.isSuffixOf? last).bind parseU32)
      return (projectId, replayId, BitVec.ofNat 32 segmentId)
  | _ => .error .invalidKey

def debugFileRelation (key : BlobKey) : Except BlobValueError (ProjectId × DebugFileId) :=
  match key.segments with
  | [first, project, file] => do
      failIf (first ≠ "d".toList) .invalidKey
      let projectId ← orInvalidKey ((i32FromBase36 project).bind fun value => (ProjectId.new value).toOption)
      return (projectId, ← orInvalidKey ((base64IdentityOf file).map DebugFileId.mk))
  | _ => .error .invalidKey

def archiveRelation (key : BlobKey) : Except BlobValueError (ProjectId × ArchiveKind) :=
  match key.segments with
  | [first, project, third, directory, _, _, _, last] => do
      failIf (first ≠ "projects".toList ∨ third ≠ "archives".toList ∨ ¬ ".parquet".toList.isSuffixOf last) .invalidKey
      return (← projectOf project, ← orInvalidKey (ArchiveKind.fromDirectory directory))
  | _ => .error .invalidKey

end BlobKey

inductive BlobKind where
  | eventAttachment
  | minidump
  | debugChunk
  | debugFile
  | artifactBundle
  | eventArchive
  | logArchive
  | spanArchive
  | sessionArchive
  | metricArchive
  | replayRecording
deriving DecidableEq

inductive BlobNamespace where
  | eventOwned
  | debugChunks
  | debugFiles
  | artifactBundles
  | eventArchives
  | logArchives
  | spanArchives
  | sessionArchives
  | metricArchives
  | replayRecordings
deriving DecidableEq

/-- `archive_kind`. -/
def checkArchiveKind (key : BlobKey) (expected : ArchiveKind) : Except BlobValueError Unit := do
  let (_, actual) ← key.archiveRelation
  failIf (actual ≠ expected) .invalidKey

namespace BlobNamespace

/-- `BlobNamespace::prefix`. -/
def leading : BlobNamespace → Text
  | .debugChunks => "debug-chunks/".toList
  | .debugFiles => "d/".toList
  | .artifactBundles => "a/".toList
  | _ => "projects/".toList

def kindForKey (space : BlobNamespace) (key : BlobKey) : Except BlobValueError BlobKind := do
  failIf (¬ space.leading <+: key.text) .invalidKey
  match space with
  | .eventOwned => let _ ← key.eventRelation; return .eventAttachment
  | .debugChunks => return .debugChunk
  | .debugFiles => return .debugFile
  | .artifactBundles => return .artifactBundle
  | .eventArchives => checkArchiveKind key .event; return .eventArchive
  | .logArchives => checkArchiveKind key .log; return .logArchive
  | .spanArchives => checkArchiveKind key .span; return .spanArchive
  | .sessionArchives => checkArchiveKind key .session; return .sessionArchive
  | .metricArchives => checkArchiveKind key .metric; return .metricArchive
  | .replayRecordings => let _ ← key.replayRelation; return .replayRecording

end BlobNamespace

/-! ### Owners -/

/-- What a key is built from: a constructor of `BlobKey` with its arguments. -/
inductive BlobOwner where
  | event (projectId : ProjectId) (eventId : EventId) (objectId : BlobObjectId)
  | replay (projectId : ProjectId) (replayId : EventId) (segmentId : BitVec 32)
  | chunk (organizationId : OrganizationId) (sha1 : BitVec 160)
  | file (projectId : ProjectId) (fileId : DebugFileId)
  | bundle (organizationId : OrganizationId) (bundleId : ArtifactBundleId) (generation : BitVec 32)
  | archive (kind : ArchiveKind) (projectId : ProjectId) (year : BitVec 32) (month day : BitVec 8)
      (segmentId : ArchiveSegmentId)

namespace BlobOwner

def key : BlobOwner → BlobKey
  | event projectId eventId objectId => .eventOwned projectId eventId objectId
  | replay projectId replayId segmentId => .replayRecording projectId replayId segmentId
  | chunk organizationId sha1 => .debugChunk organizationId sha1
  | file projectId fileId => .debugFile projectId fileId
  | bundle organizationId bundleId generation => .artifactBundle organizationId bundleId generation
  | archive kind projectId year month day segmentId => .archive kind projectId year month day segmentId

def segments : BlobOwner → List Text
  | event projectId eventId objectId =>
      ["projects".toList, jsonInteger projectId.get, "events".toList, hexIdentity eventId.asBytes,
        hexIdentity objectId.asBytes]
  | replay projectId replayId segmentId =>
      ["projects".toList, jsonInteger projectId.get, "replays".toList, hexIdentity replayId.asBytes,
        jsonNumber segmentId.toNat ++ ".rrweb".toList]
  | chunk organizationId sha1 =>
      ["debug-chunks".toList, jsonNumber organizationId.get, hexEncode (bigEndian 20 sha1.toNat)]
  | file projectId fileId => ["d".toList, base36 projectId.get.toNat, base64Identity fileId.asBytes]
  | bundle organizationId bundleId generation =>
      ["a".toList, base36 organizationId.get, base64Identity bundleId.asBytes]
        ++ if generation = 0 then [] else [base36 generation.toNat]
  | archive kind projectId year month day segmentId =>
      ["projects".toList, jsonInteger projectId.get, "archives".toList, kind.directory, yearText year,
        zeroPadded 2 month.toNat, zeroPadded 2 day.toNat, hexIdentity segmentId.asBytes ++ ".parquet".toList]

/-- The text of a key is its segments with slashes between them. -/
theorem key_eq (owner : BlobOwner) : owner.key = ⟨(owner.segments.intersperse ['/']).flatten⟩ := by
  cases owner with
  | event projectId eventId objectId =>
      unfold key segments BlobKey.eventOwned
      refine congrArg BlobKey.mk ?_
      simp only [joined_cons, joined_singleton, List.append_assoc, List.cons_append, List.nil_append,
        String.reduceToList]
  | replay projectId replayId segmentId =>
      unfold key segments BlobKey.replayRecording
      refine congrArg BlobKey.mk ?_
      simp only [joined_cons, joined_singleton, List.append_assoc, List.cons_append, List.nil_append,
        String.reduceToList]
  | chunk organizationId sha1 =>
      unfold key segments BlobKey.debugChunk
      refine congrArg BlobKey.mk ?_
      simp only [joined_cons, joined_singleton, List.append_assoc, List.cons_append, List.nil_append,
        String.reduceToList]
  | file projectId fileId =>
      unfold key segments BlobKey.debugFile
      refine congrArg BlobKey.mk ?_
      simp only [joined_cons, joined_singleton, List.append_assoc, List.cons_append, List.nil_append,
        String.reduceToList]
  | bundle organizationId bundleId generation =>
      unfold key segments BlobKey.artifactBundle
      refine congrArg BlobKey.mk ?_
      by_cases hgeneration : generation = 0
      · simp only [if_pos hgeneration, joined_cons, joined_singleton, List.append_assoc, List.cons_append,
          List.nil_append, List.append_nil, String.reduceToList]
      · simp only [if_neg hgeneration, joined_cons, joined_singleton, List.append_assoc, List.cons_append,
          List.nil_append, String.reduceToList]
  | archive kind projectId year month day segmentId =>
      unfold key segments BlobKey.archive
      refine congrArg BlobKey.mk ?_
      simp only [joined_cons, joined_singleton, List.append_assoc, List.cons_append, List.nil_append,
        String.reduceToList]

end BlobOwner

/-! ### Segments without dots and slashes -/

/-- A letter, a digit, a hyphen or an underscore. -/
def isPlainChar (c : Char) : Bool := c.isAlphanum || c = '-' || c = '_'

/-- A text of such characters, and of forty of them at most. -/
structure PlainPart (text : Text) : Prop where
  nonempty : text ≠ []
  short : text.length ≤ 40
  chars : ∀ c ∈ text, isPlainChar c = true

instance (text : Text) : Decidable (PlainPart text) :=
  decidable_of_iff (text ≠ [] ∧ text.length ≤ 40 ∧ text.all isPlainChar = true)
    ⟨fun h => ⟨h.1, h.2.1, List.all_eq_true.mp h.2.2⟩, fun h => ⟨h.nonempty, h.short, List.all_eq_true.mpr h.chars⟩⟩

/-- A plain part, with the name of a format behind it or not. -/
def KeySegment (segment : Text) : Prop :=
  ∃ part suffix, segment = part ++ suffix ∧ PlainPart part ∧ suffix ∈ [[], ".rrweb".toList, ".parquet".toList]

section Plain

variable {c : Char} {text segment : Text}

theorem isKeyChar_of_isPlainChar (h : isPlainChar c = true) : isKeyChar c = true := by
  rw [isPlainChar] at h
  rw [isKeyChar, h, Bool.true_or, Bool.true_or]

theorem utf8Size_of_isKeyChar (h : isKeyChar c = true) : c.utf8Size = 1 := by
  refine utf8Size_of_ascii ?_
  have htoNat : c.toNat = c.val.toNat := rfl
  simp only [isKeyChar, Char.isAlphanum, Char.isAlpha, Char.isUpper, Char.isLower, Char.isDigit, Bool.or_eq_true,
    Bool.and_eq_true, decide_eq_true_eq, UInt32.le_iff_toNat_le, ge_iff_le] at h
  rcases h with (((((h | h) | h) | rfl) | rfl) | rfl) | rfl
  · exact htoNat ▸ h.2.trans_lt (by decide)
  · exact htoNat ▸ h.2.trans_lt (by decide)
  · exact htoNat ▸ h.2.trans_lt (by decide)
  all_goals decide

theorem KeySegment.chars (h : KeySegment segment) : ∀ c ∈ segment, isKeyChar c = true := by
  obtain ⟨part, suffix, rfl, hpart, hsuffix⟩ := h
  have hall : ∀ suffix ∈ [[], ".rrweb".toList, ".parquet".toList], suffix.all isKeyChar = true := by decide
  intro c hc
  rcases List.mem_append.mp hc with hc | hc
  · exact isKeyChar_of_isPlainChar (hpart.chars c hc)
  · exact List.all_eq_true.mp (hall suffix hsuffix) c hc

theorem KeySegment.length_le (h : KeySegment segment) : segment.length ≤ 48 := by
  obtain ⟨part, suffix, rfl, hpart, hsuffix⟩ := h
  have hall : ∀ suffix ∈ [[], ".rrweb".toList, ".parquet".toList], suffix.length ≤ 8 := by decide
  have hlength := hall suffix hsuffix
  have hshort := hpart.short
  rw [List.length_append]
  omega

theorem KeySegment.byteLength_le (h : KeySegment segment) : byteLength segment ≤ 48 := by
  rw [byteLength_of_utf8Size fun c hc => utf8Size_of_isKeyChar (h.chars c hc)]
  exact h.length_le

/-- The first character is no dot. -/
theorem KeySegment.exists_cons (h : KeySegment segment) : ∃ first rest, segment = first :: rest ∧ first ≠ '.' := by
  obtain ⟨part, suffix, rfl, hpart, -⟩ := h
  obtain ⟨first, rest, rfl⟩ := List.exists_cons_of_ne_nil hpart.nonempty
  refine ⟨first, rest ++ suffix, rfl, ?_⟩
  rintro rfl
  exact absurd (hpart.chars '.' List.mem_cons_self) (by decide)

theorem KeySegment.not_mem (h : KeySegment segment) {c : Char} (hc : isKeyChar c = false) : c ∉ segment := by
  intro hmem
  rw [h.chars c hmem] at hc
  cases hc

theorem KeySegment.valid (h : KeySegment segment) : validSegment segment = true := by
  obtain ⟨first, rest, heq, hfirst⟩ := h.exists_cons
  have hdot : segment ≠ ".".toList := fun hdot => hfirst (List.cons.inj (heq.symm.trans hdot)).1
  have hdots : segment ≠ "..".toList := fun hdots => hfirst (List.cons.inj (heq.symm.trans hdots)).1
  have hempty : segment.isEmpty = false := by rw [heq, List.isEmpty_cons]
  have hchars : segment.all isKeyChar = true := List.all_eq_true.mpr h.chars
  simp only [validSegment, hempty, hchars, decide_eq_true hdot, decide_eq_true hdots,
    decide_eq_true (h.byteLength_le.trans (by decide : 48 ≤ 128)), Bool.not_false, Bool.and_self]

theorem PlainPart.keySegment (h : PlainPart text) : KeySegment text :=
  ⟨text, [], (List.append_nil text).symm, h, List.mem_cons_self⟩

end Plain

section Segments

variable {segments : List Text}

theorem mem_joined (h : ∀ segment ∈ segments, KeySegment segment) {c : Char}
    (hc : c ∈ (segments.intersperse ['/']).flatten) : c = '/' ∨ isKeyChar c = true := by
  obtain ⟨part, hpart, hc⟩ := List.mem_flatten.mp hc
  rcases eq_or_mem_of_mem_intersperse hpart with rfl | hpart
  · exact .inl (List.mem_singleton.mp hc)
  · exact .inr ((h part hpart).chars c hc)

theorem exists_joined_concat (hne : segments ≠ []) (h : ∀ segment ∈ segments, KeySegment segment) :
    ∃ front last, (segments.intersperse ['/']).flatten = front ++ [last] ∧ isKeyChar last = true := by
  induction segments with
  | nil => exact absurd rfl hne
  | cons segment segments ih =>
      obtain ⟨hsegment, hsegments⟩ := List.forall_mem_cons.mp h
      cases segments with
      | nil =>
          obtain ⟨first, rest, heq, -⟩ := hsegment.exists_cons
          obtain ⟨front, last, hlast⟩ := List.eq_nil_or_concat' segment |>.resolve_left (heq ▸ List.cons_ne_nil _ _)
          refine ⟨front, last, by rw [joined_singleton, hlast], hsegment.chars last ?_⟩
          rw [hlast]
          exact List.mem_concat_self
      | cons second segments =>
          obtain ⟨front, last, hfront, hlast⟩ := ih (List.cons_ne_nil _ _) hsegments
          exact ⟨segment ++ '/' :: front, last, by rw [joined_cons, hfront, List.append_assoc, List.cons_append], hlast⟩

theorem exists_joined_cons (hne : segments ≠ []) (h : ∀ segment ∈ segments, KeySegment segment) :
    ∃ first rest, (segments.intersperse ['/']).flatten = first :: rest ∧ isKeyChar first = true := by
  obtain ⟨segment, segments, rfl⟩ := List.exists_cons_of_ne_nil hne
  obtain ⟨hsegment, -⟩ := List.forall_mem_cons.mp h
  obtain ⟨first, rest, rfl, -⟩ := hsegment.exists_cons
  have hfirst := hsegment.chars first List.mem_cons_self
  cases segments with
  | nil => exact ⟨first, rest, joined_singleton, hfirst⟩
  | cons second segments => exact ⟨first, _, joined_cons, hfirst⟩

theorem byteLength_joined_le (hne : segments ≠ []) (hlength : segments.length ≤ 8)
    (h : ∀ segment ∈ segments, KeySegment segment) : byteLength (segments.intersperse ['/']).flatten ≤ 392 := by
  have hsum := byteLength_intersperse (rfl : '/'.utf8Size = 1) hne
  have hle : (segments.map fun segment => byteLength segment + 1).sum ≤ (segments.map fun _ => 49).sum :=
    List.sum_le_sum fun segment hsegment => Nat.succ_le_succ (h segment hsegment).byteLength_le
  rw [List.map_const', List.sum_replicate_nat] at hle
  omega

/-- Segments with slashes between them are split at the slashes. -/
theorem splitOnP_joined (hne : segments ≠ []) (h : ∀ segment ∈ segments, KeySegment segment) :
    ((segments.intersperse ['/']).flatten).splitOnP (· = '/') = segments :=
  splitOnP_intersperse rfl hne fun segment hsegment c hc =>
    decide_eq_false fun heq => (h segment hsegment).not_mem (by decide : isKeyChar '/' = false) (heq ▸ hc)

/-- Segments with slashes between them are a key. -/
theorem new_joined (hne : segments ≠ []) (hlength : segments.length ≤ 8)
    (h : ∀ segment ∈ segments, KeySegment segment) :
    BlobKey.new (segments.intersperse ['/']).flatten = .ok ⟨(segments.intersperse ['/']).flatten⟩ := by
  have hslash : isKeyChar '/' = false := by decide
  obtain ⟨first, rest, hcons, hfirst⟩ := exists_joined_cons hne h
  obtain ⟨front, last, hconcat, hlast⟩ := exists_joined_concat hne h
  have hempty : (segments.intersperse ['/']).flatten.isEmpty = false := by rw [hcons, List.isEmpty_cons]
  have hstart : (segments.intersperse ['/']).flatten.head? ≠ some '/' := by
    rw [hcons, List.head?_cons]
    exact fun heq => Bool.eq_false_iff.mp hslash (Option.some.inj heq ▸ hfirst)
  have hend : (segments.intersperse ['/']).flatten.getLast? ≠ some '/' := by
    rw [hconcat, List.getLast?_concat]
    exact fun heq => Bool.eq_false_iff.mp hslash (Option.some.inj heq ▸ hlast)
  have hbackslash : (segments.intersperse ['/']).flatten.contains '\\' = false := by
    rw [Bool.eq_false_iff, ne_eq, List.contains_iff_mem]
    intro hmem
    rcases mem_joined h hmem with heq | hkey
    · exact absurd heq (by decide)
    · exact absurd hkey (by decide)
  have hsegments : ((segments.intersperse ['/']).flatten.splitOnP (· = '/')).all validSegment = true := by
    rw [splitOnP_joined hne h]
    exact List.all_eq_true.mpr fun segment hsegment => (h segment hsegment).valid
  have hbytes := (byteLength_joined_le hne hlength h).trans (by decide : 392 ≤ maxBlobKeyBytes)
  rw [BlobKey.new, hempty, hbackslash, hsegments, decide_eq_true hstart, decide_eq_true hend, decide_eq_true hbytes]
  rfl

end Segments

/-! ### Texts of numbers and identities -/

section Numbers

variable {value width : Nat}

theorem isPlainChar_of_isDigit {c : Char} (h : c.isDigit = true) : isPlainChar c = true := by
  rw [isPlainChar, Char.isAlphanum, h, Bool.or_true, Bool.true_or, Bool.true_or]

theorem plainPart_jsonNumber (h : value < 10 ^ 40) : PlainPart (jsonNumber value) where
  nonempty := Nat.toDigits_ne_nil
  short := (Nat.length_toDigits_le_iff (by decide) (by decide)).mpr h
  chars := fun c hc => isPlainChar_of_isDigit (isDigit_toDigits hc)

theorem isDigit_zeroPadded {c : Char} (h : c ∈ zeroPadded width value) : c.isDigit = true := by
  rcases List.mem_append.mp h with h | h
  · rw [List.eq_of_mem_replicate h]
    rfl
  · exact isDigit_toDigits h

theorem length_zeroPadded_le (hwidth : width ≤ 39) (h : value < 10 ^ 39) : (zeroPadded width value).length ≤ 39 := by
  have hlength : (jsonNumber value).length ≤ 39 := (Nat.length_toDigits_le_iff (by decide) (by decide)).mpr h
  rw [zeroPadded, List.length_append, List.length_replicate]
  omega

theorem decimal_zeroPadded (width value : Nat) : decimal (zeroPadded width value) = some value := by
  rw [zeroPadded, decimal_zeros, jsonNumber, decimal_toDigits]

theorem zeroPadded_injective (width : Nat) : Function.Injective (zeroPadded width) :=
  injective_of_reads (decimal_zeroPadded width)

theorem zeroPadded_ne_nil (width value : Nat) : zeroPadded width value ≠ [] :=
  List.append_ne_nil_of_right_ne_nil _ Nat.toDigits_ne_nil

theorem plainPart_zeroPadded (hwidth : width ≤ 39) (h : value < 10 ^ 39) : PlainPart (zeroPadded width value) where
  nonempty := zeroPadded_ne_nil width value
  short := (length_zeroPadded_le hwidth h).trans (by decide)
  chars := fun c hc => isPlainChar_of_isDigit (isDigit_zeroPadded hc)

theorem natAbs_year_lt (year : BitVec 32) : year.toInt.natAbs < 10 ^ 39 := by
  have hlower := BitVec.le_toInt year
  have hupper := @BitVec.toInt_lt 32 year
  omega

theorem plainPart_yearText (year : BitVec 32) : PlainPart (yearText year) := by
  have hbound := natAbs_year_lt year
  rw [yearText]
  split_ifs
  · have hpart := plainPart_zeroPadded (by decide : 3 ≤ 39) hbound
    refine ⟨List.cons_ne_nil _ _, ?_, List.forall_mem_cons.mpr ⟨by decide, hpart.chars⟩⟩
    exact Nat.succ_le_succ (length_zeroPadded_le (by decide) hbound)
  · exact plainPart_zeroPadded (by decide) hbound

theorem yearText_injective : Function.Injective yearText := by
  have hminus : ∀ left right, '-' :: zeroPadded 3 left ≠ zeroPadded 4 right := by
    intro left right heq
    have hdigit : '-'.isDigit = true := isDigit_zeroPadded (heq ▸ List.mem_cons_self)
    exact absurd hdigit (by decide)
  intro left right h
  apply BitVec.eq_of_toInt_eq
  rw [yearText, yearText] at h
  split_ifs at h with hleft hright hright
  · have := zeroPadded_injective 3 (List.cons.inj h).2
    omega
  · exact absurd h (hminus _ _)
  · exact absurd h.symm (hminus _ _)
  · have := zeroPadded_injective 4 h
    omega

/-! The digits of base 36. -/

theorem base36Value_base36Char : ∀ digit < 36, base36Value (base36Char digit) = some digit := by decide

theorem isPlainChar_base36Char : ∀ digit < 36, isPlainChar (base36Char digit) = true := by decide

theorem baseValue_base36 (value : Nat) : baseValue base36Value 36 (base36 value) = some value :=
  baseValue_numeral (by decide) base36Value_base36Char value

theorem base36_injective : Function.Injective base36 := injective_of_reads baseValue_base36

theorem plainPart_base36 (hvalue : value ≠ 0) (h : value < 36 ^ 40) : PlainPart (base36 value) where
  nonempty := numeral_ne_nil hvalue (by decide)
  short := by
    rw [base36, numeral, List.length_map, List.length_reverse]
    exact (Nat.digits_length_le_iff (by decide) value).mpr h
  chars := fun c hc => by
    obtain ⟨digit, hdigit, rfl⟩ := mem_numeral (by decide) hc
    exact isPlainChar_base36Char digit hdigit

theorem base36_ne_nil (hvalue : value ≠ 0) : base36 value ≠ [] := numeral_ne_nil hvalue (by decide)

theorem i32FromBase36_base36 (hvalue : value ≠ 0) (h : value < 2 ^ 31) :
    i32FromBase36 (base36 value) = some (value : Int) := by
  have hsign : ∀ sign, base36Value sign = none → ∀ rest, base36 value ≠ sign :: rest := by
    intro sign hsign rest heq
    obtain ⟨digit, hdigit, rfl⟩ := mem_numeral (by decide) (heq ▸ List.mem_cons_self : sign ∈ base36 value)
    rw [base36Value_base36Char digit hdigit] at hsign
    cases hsign
  have hempty : (base36 value).isEmpty = false := by simpa using base36_ne_nil hvalue
  rw [i32FromBase36]
  · simp only [hempty, baseValue_base36, Option.map_some, Bool.false_eq_true, ↓reduceIte]
    rw [Option.filter_some, if_pos (decide_eq_true (by omega))]
  · exact hsign '-' (by decide)
  · exact hsign '+' (by decide)

end Numbers

section Identities

variable {bytes : BitVec 128}

theorem sha1_injective {left right : BitVec 160}
    (h : hexEncode (bigEndian 20 left.toNat) = hexEncode (bigEndian 20 right.toNat)) : left = right := by
  have hbytes := injective_of_reads hexDecode_hexEncode h
  exact BitVec.eq_of_toNat_eq (bigEndian_injective left.isLt right.isLt hbytes)

theorem parseHexIdentifier_hexIdentity (bytes : BitVec 128) : parseHexIdentifier (hexIdentity bytes) = some bytes := by
  have hlength : byteLength (hexIdentity bytes) = 32 := by
    rw [hexIdentity, byteLength_hexEncode, length_bigEndian]
  rw [parseHexIdentifier, if_pos hlength, hexIdentity, hexadecimal_hexEncode, Option.map_some]
  exact congrArg some (ofNat_readBigEndian 16 bytes)

theorem hexIdentity_injective : Function.Injective hexIdentity := injective_of_reads parseHexIdentifier_hexIdentity

theorem plainPart_hexEncode {bytes : List (BitVec 8)} (hne : bytes ≠ []) (hlength : bytes.length ≤ 20) :
    PlainPart (hexEncode bytes) := by
  have hdigits : ∀ c ∈ hexEncode bytes, ∃ digit < 16, c = Nat.digitChar digit := by
    intro c hc
    obtain ⟨byte, -, hc⟩ := List.mem_flatMap.mp hc
    have hbyte := byte.isLt
    rcases List.mem_cons.mp hc with rfl | hc
    · exact ⟨_, by omega, rfl⟩
    · exact ⟨_, by omega, List.mem_singleton.mp hc⟩
  have hplain : ∀ digit < 16, isPlainChar (Nat.digitChar digit) = true := by decide
  have hchars : ∀ c ∈ hexEncode bytes, isPlainChar c = true := by
    intro c hc
    obtain ⟨digit, hdigit, rfl⟩ := hdigits c hc
    exact hplain digit hdigit
  have hsize : (hexEncode bytes).length = 2 * bytes.length := by
    rw [← byteLength_hexEncode,
      byteLength_of_utf8Size fun c hc => utf8Size_of_isKeyChar (isKeyChar_of_isPlainChar (hchars c hc))]
  have hpos := List.length_pos_of_ne_nil hne
  exact ⟨List.ne_nil_of_length_pos (by omega), by omega, hchars⟩

theorem base64IdentityOf_base64Identity (bytes : BitVec 128) :
    base64IdentityOf (base64Identity bytes) = some bytes := by
  rw [base64IdentityOf, base64Identity, base64Decode_base64Encode, Option.filter_some,
    if_pos (decide_eq_true (length_bigEndian 16 _)), Option.map_some]
  exact congrArg some (ofNat_readBigEndian 16 bytes)

theorem base64Identity_injective : Function.Injective base64Identity :=
  injective_of_reads base64IdentityOf_base64Identity

theorem isPlainChar_base64Char : ∀ digit < 64, isPlainChar (base64Char digit) = true := by decide +kernel

theorem plainPart_base64Identity (bytes : BitVec 128) : PlainPart (base64Identity bytes) := by
  have hlength : (base64Identity bytes).length = 22 := by
    rw [base64Identity, base64Encode, List.length_map, length_base64Digits, length_bigEndian]
  refine ⟨List.ne_nil_of_length_pos (by omega), by omega, fun c hc => ?_⟩
  obtain ⟨digit, hdigit, rfl⟩ := exists_of_mem_base64Encode hc
  exact isPlainChar_base64Char digit hdigit

end Identities

section Arguments

theorem jsonInteger_get (projectId : ProjectId) : jsonInteger projectId.get = jsonNumber projectId.get.toNat := by
  have hpositive := projectId.positive
  rw [jsonInteger, if_neg (by omega), show projectId.get.natAbs = projectId.get.toNat by omega]

theorem projectId_new (projectId : ProjectId) : ProjectId.new projectId.get = .ok projectId :=
  dif_pos projectId.positive

theorem projectOf_jsonInteger (projectId : ProjectId) :
    BlobKey.projectOf (jsonInteger projectId.get) = .ok projectId := by
  have hpositive := projectId.positive
  have hget : (projectId.get.toNat : Int) = projectId.get := by omega
  rw [BlobKey.projectOf, jsonInteger_get, parseI32, jsonNumber, parseI64_toDigits (by omega), Option.filter_some,
    if_pos (decide_eq_true (by omega)), Option.bind_some, hget, projectId_new]
  rfl

theorem eventOf_hexIdentity (eventId : EventId) : BlobKey.eventOf (hexIdentity eventId.asBytes) = .ok eventId := by
  rw [BlobKey.eventOf, parseHexIdentifier_hexIdentity]
  rfl

theorem objectOf_hexIdentity (objectId : BlobObjectId) :
    BlobKey.objectOf (hexIdentity objectId.asBytes) = .ok objectId := by
  rw [BlobKey.objectOf, parseHexIdentifier_hexIdentity]
  rfl

theorem fromDirectory_directory (kind : ArchiveKind) : ArchiveKind.fromDirectory kind.directory = some kind := by
  cases kind <;> decide

theorem plainPart_project (projectId : ProjectId) : PlainPart (jsonInteger projectId.get) := by
  have hpositive := projectId.positive
  rw [jsonInteger_get]
  exact plainPart_jsonNumber (by omega)

theorem plainPart_hexIdentity (bytes : BitVec 128) : PlainPart (hexIdentity bytes) := by
  have hlength := length_bigEndian 16 bytes.toNat
  exact plainPart_hexEncode (List.ne_nil_of_length_pos (by omega)) (by omega)

theorem plainPart_byte (byte : BitVec 8) : PlainPart (zeroPadded 2 byte.toNat) := by
  have hbyte := byte.isLt
  exact plainPart_zeroPadded (by decide) (by omega)

theorem plainPart_directory (kind : ArchiveKind) : PlainPart kind.directory := by
  cases kind <;> decide

end Arguments

namespace BlobOwner

theorem segments_ne_nil (owner : BlobOwner) : owner.segments ≠ [] := by
  cases owner <;> exact List.cons_ne_nil _ _

theorem length_segments_le (owner : BlobOwner) : owner.segments.length ≤ 8 := by
  cases owner with
  | bundle organizationId bundleId generation =>
      unfold segments
      rw [List.length_append]
      split_ifs <;> exact Nat.le_of_ble_eq_true rfl
  | _ => exact Nat.le_of_ble_eq_true rfl

theorem keySegments (owner : BlobOwner) : ∀ segment ∈ owner.segments, KeySegment segment := by
  have hprojects : PlainPart "projects".toList := by decide
  have horganization : ∀ organizationId : OrganizationId, PlainPart (jsonNumber organizationId.get)
      ∧ PlainPart (base36 organizationId.get) := by
    intro organizationId
    have hrange := organizationId.inRange
    exact ⟨plainPart_jsonNumber (by omega), plainPart_base36 (by omega) (by omega)⟩
  unfold segments
  cases owner with
  | event projectId eventId objectId =>
      have hevents : PlainPart "events".toList := by decide
      simp only [List.forall_mem_cons]
      exact ⟨hprojects.keySegment, (plainPart_project projectId).keySegment, hevents.keySegment,
        (plainPart_hexIdentity _).keySegment, (plainPart_hexIdentity _).keySegment, nofun⟩
  | replay projectId replayId segmentId =>
      have hreplays : PlainPart "replays".toList := by decide
      have hsegment := segmentId.isLt
      simp only [List.forall_mem_cons]
      exact ⟨hprojects.keySegment, (plainPart_project projectId).keySegment, hreplays.keySegment,
        (plainPart_hexIdentity _).keySegment,
        ⟨_, _, rfl, plainPart_jsonNumber (by omega), by decide⟩, nofun⟩
  | chunk organizationId sha1 =>
      have hchunks : PlainPart "debug-chunks".toList := by decide
      have hlength := length_bigEndian 20 sha1.toNat
      have hsha1 : PlainPart (hexEncode (bigEndian 20 sha1.toNat)) :=
        plainPart_hexEncode (List.ne_nil_of_length_pos (by omega)) (by omega)
      simp only [List.forall_mem_cons]
      exact ⟨hchunks.keySegment, (horganization organizationId).1.keySegment, hsha1.keySegment, nofun⟩
  | file projectId fileId =>
      have hfiles : PlainPart "d".toList := by decide
      have hpositive := projectId.positive
      have hproject : PlainPart (base36 projectId.get.toNat) := plainPart_base36 (by omega) (by omega)
      simp only [List.forall_mem_cons]
      exact ⟨hfiles.keySegment, hproject.keySegment, (plainPart_base64Identity _).keySegment, nofun⟩
  | bundle organizationId bundleId generation =>
      have hbundles : PlainPart "a".toList := by decide
      have hgeneration := generation.isLt
      rw [List.forall_mem_append]
      simp only [List.forall_mem_cons]
      refine ⟨⟨hbundles.keySegment, (horganization organizationId).2.keySegment,
        (plainPart_base64Identity _).keySegment, nofun⟩, ?_⟩
      split_ifs with hzero
      · nofun
      · have hne : generation.toNat ≠ 0 := fun heq => hzero (BitVec.eq_of_toNat_eq heq)
        exact List.forall_mem_singleton.mpr (plainPart_base36 hne (by omega)).keySegment
  | archive kind projectId year month day segmentId =>
      have harchives : PlainPart "archives".toList := by decide
      simp only [List.forall_mem_cons]
      exact ⟨hprojects.keySegment, (plainPart_project projectId).keySegment, harchives.keySegment,
        (plainPart_directory kind).keySegment, (plainPart_yearText year).keySegment, (plainPart_byte month).keySegment,
        (plainPart_byte day).keySegment, ⟨_, _, rfl, plainPart_hexIdentity _, by decide⟩, nofun⟩

theorem segments_key (owner : BlobOwner) : owner.key.segments = owner.segments := by
  rw [key_eq]
  exact splitOnP_joined owner.segments_ne_nil owner.keySegments

theorem new_key (owner : BlobOwner) : BlobKey.new owner.key.text = .ok owner.key := by
  rw [key_eq]
  exact new_joined owner.segments_ne_nil owner.length_segments_le owner.keySegments

/-- The generation stands behind three segments or not at all. -/
theorem segments_bundle (organizationId : OrganizationId) (bundleId : ArtifactBundleId) (generation : BitVec 32) :
    (bundle organizationId bundleId generation).segments
        = ["a".toList, base36 organizationId.get, base64Identity bundleId.asBytes] ∧ generation = 0
      ∨ (bundle organizationId bundleId generation).segments
        = ["a".toList, base36 organizationId.get, base64Identity bundleId.asBytes, base36 generation.toNat]
        ∧ generation ≠ 0 := by
  by_cases hgeneration : generation = 0
  · exact .inl ⟨congrArg (_ ++ ·) (if_pos hgeneration), hgeneration⟩
  · exact .inr ⟨congrArg (_ ++ ·) (if_neg hgeneration), hgeneration⟩

/-! ### Relations -/

theorem eventRelation_key (owner : BlobOwner) : owner.key.eventRelation = match owner with
    | event projectId eventId objectId => .ok (projectId, eventId, objectId)
    | _ => .error .invalidKey := by
  rw [BlobKey.eventRelation, segments_key]
  cases owner with
  | event projectId eventId objectId =>
      refine bind_eq_ok.mpr ⟨(), failIf_eq_ok.mpr ?_, bind_eq_ok.mpr ⟨_, projectOf_jsonInteger projectId,
        bind_eq_ok.mpr ⟨_, eventOf_hexIdentity eventId, bind_eq_ok.mpr ⟨_, objectOf_hexIdentity objectId, rfl⟩⟩⟩⟩
      exact not_or.mpr ⟨not_not.mpr rfl, not_not.mpr rfl⟩
  | replay projectId replayId segmentId =>
      exact bind_eq_error.mpr (.inl (failIf_eq_error.mpr ⟨.inr (by decide), rfl⟩))
  | bundle organizationId bundleId generation =>
      rcases segments_bundle organizationId bundleId generation with ⟨hsegments, -⟩ | ⟨hsegments, -⟩
      · rw [hsegments]
      · rw [hsegments]
  | _ => rfl

theorem replayRelation_key (owner : BlobOwner) : owner.key.replayRelation = match owner with
    | replay projectId replayId segmentId => .ok (projectId, replayId, segmentId)
    | _ => .error .invalidKey := by
  rw [BlobKey.replayRelation, segments_key]
  cases owner with
  | replay projectId replayId segmentId =>
      have hsuffix : ".rrweb".toList.isSuffixOf? (jsonNumber segmentId.toNat ++ ".rrweb".toList)
          = some (jsonNumber segmentId.toNat) := List.isSuffixOf?_eq_some_iff_append_eq.mpr rfl
      have hsegment : BlobKey.orInvalidKey ((".rrweb".toList.isSuffixOf? (jsonNumber segmentId.toNat
          ++ ".rrweb".toList)).bind parseU32) = .ok segmentId.toNat := by
        rw [hsuffix, Option.bind_some, jsonNumber, parseU32_toDigits segmentId.isLt]
        rfl
      refine bind_eq_ok.mpr ⟨(), failIf_eq_ok.mpr ?_, bind_eq_ok.mpr ⟨_, projectOf_jsonInteger projectId,
        bind_eq_ok.mpr ⟨_, eventOf_hexIdentity replayId, bind_eq_ok.mpr ⟨_, hsegment, ?_⟩⟩⟩⟩
      · exact not_or.mpr ⟨not_not.mpr rfl, not_not.mpr rfl⟩
      · rw [BitVec.ofNat_toNat, BitVec.setWidth_eq]
        rfl
  | event projectId eventId objectId =>
      exact bind_eq_error.mpr (.inl (failIf_eq_error.mpr ⟨.inr (by decide), rfl⟩))
  | bundle organizationId bundleId generation =>
      rcases segments_bundle organizationId bundleId generation with ⟨hsegments, -⟩ | ⟨hsegments, -⟩
      · rw [hsegments]
      · rw [hsegments]
  | _ => rfl

theorem debugFileRelation_key (owner : BlobOwner) : owner.key.debugFileRelation = match owner with
    | file projectId fileId => .ok (projectId, fileId)
    | _ => .error .invalidKey := by
  rw [BlobKey.debugFileRelation, segments_key]
  cases owner with
  | file projectId fileId =>
      have hpositive := projectId.positive
      have hget : (projectId.get.toNat : Int) = projectId.get := by omega
      have hproject : BlobKey.orInvalidKey ((i32FromBase36 (base36 projectId.get.toNat)).bind fun value =>
          (ProjectId.new value).toOption) = .ok projectId := by
        rw [i32FromBase36_base36 (by omega) (by omega), Option.bind_some, hget, projectId_new]
        rfl
      have hfile : BlobKey.orInvalidKey ((base64IdentityOf (base64Identity fileId.asBytes)).map DebugFileId.mk)
          = .ok fileId := by
        rw [base64IdentityOf_base64Identity]
        rfl
      exact bind_eq_ok.mpr ⟨(), failIf_eq_ok.mpr (not_not.mpr rfl), bind_eq_ok.mpr ⟨_, hproject,
        bind_eq_ok.mpr ⟨_, hfile, rfl⟩⟩⟩
  | chunk organizationId sha1 =>
      exact bind_eq_error.mpr (.inl (failIf_eq_error.mpr ⟨by decide, rfl⟩))
  | bundle organizationId bundleId generation =>
      rcases segments_bundle organizationId bundleId generation with ⟨hsegments, -⟩ | ⟨hsegments, -⟩
      · rw [hsegments]
        exact bind_eq_error.mpr (.inl (failIf_eq_error.mpr ⟨by decide, rfl⟩))
      · rw [hsegments]
  | _ => rfl

theorem archiveRelation_key (owner : BlobOwner) : owner.key.archiveRelation = match owner with
    | archive kind projectId _ _ _ _ => .ok (projectId, kind)
    | _ => .error .invalidKey := by
  rw [BlobKey.archiveRelation, segments_key]
  cases owner with
  | archive kind projectId year month day segmentId =>
      have hkind : BlobKey.orInvalidKey (ArchiveKind.fromDirectory kind.directory) = .ok kind := by
        rw [fromDirectory_directory]
        rfl
      refine bind_eq_ok.mpr ⟨(), failIf_eq_ok.mpr ?_, bind_eq_ok.mpr ⟨_, projectOf_jsonInteger projectId,
        bind_eq_ok.mpr ⟨_, hkind, rfl⟩⟩⟩
      refine not_or.mpr ⟨not_not.mpr rfl, not_or.mpr ⟨not_not.mpr rfl, not_not.mpr ?_⟩⟩
      exact List.isSuffixOf_iff_suffix.mpr (List.suffix_append _ _)
  | bundle organizationId bundleId generation =>
      rcases segments_bundle organizationId bundleId generation with ⟨hsegments, -⟩ | ⟨hsegments, -⟩
      · rw [hsegments]
      · rw [hsegments]
  | _ => rfl

/-- The generation is read off the segments: it is zero where there are three. -/
theorem bundle_injective {left right : OrganizationId} {leftBundle rightBundle : ArtifactBundleId}
    {leftGeneration rightGeneration : BitVec 32} (h : (bundle left leftBundle leftGeneration).segments
      = (bundle right rightBundle rightGeneration).segments) :
    bundle left leftBundle leftGeneration = bundle right rightBundle rightGeneration := by
  rcases segments_bundle left leftBundle leftGeneration with ⟨hleft, hzero⟩ | ⟨hleft, hzero⟩ <;>
    rcases segments_bundle right rightBundle rightGeneration with ⟨hright, hother⟩ | ⟨hright, hother⟩
  all_goals
    rw [hleft, hright] at h
    simp only [List.cons.injEq, true_and, and_true, reduceCtorEq, and_false] at h
  · obtain ⟨horganization, hbundle⟩ := h
    rw [OrganizationId.get_injective (base36_injective horganization),
      ArtifactBundleId.ext (base64Identity_injective hbundle), hzero, hother]
  · obtain ⟨horganization, hbundle, hgeneration⟩ := h
    rw [OrganizationId.get_injective (base36_injective horganization),
      ArtifactBundleId.ext (base64Identity_injective hbundle),
      BitVec.eq_of_toNat_eq (base36_injective hgeneration)]

/-- A key is built from one owner only. The relations tell most constructors apart; what they do not return is read off
the segments. -/
theorem key_injective : Function.Injective key := by
  intro left right h
  have hevent :=
    (eventRelation_key left).symm.trans ((congrArg BlobKey.eventRelation h).trans (eventRelation_key right))
  have hreplay :=
    (replayRelation_key left).symm.trans ((congrArg BlobKey.replayRelation h).trans (replayRelation_key right))
  have hfile :=
    (debugFileRelation_key left).symm.trans ((congrArg BlobKey.debugFileRelation h).trans (debugFileRelation_key right))
  have harchive :=
    (archiveRelation_key left).symm.trans ((congrArg BlobKey.archiveRelation h).trans (archiveRelation_key right))
  have hsegments : left.segments = right.segments := by rw [← segments_key, h, segments_key]
  have hfirst : "debug-chunks".toList ≠ "a".toList := by decide
  cases left with
  | event projectId eventId objectId =>
      cases right with
      | event => cases hevent; rfl
      | _ => cases hevent
  | replay projectId replayId segmentId =>
      cases right with
      | replay => cases hreplay; rfl
      | _ => cases hreplay
  | file projectId fileId =>
      cases right with
      | file => cases hfile; rfl
      | _ => cases hfile
  | archive kind projectId year month day segmentId =>
      cases right with
      | archive =>
          cases harchive
          unfold segments at hsegments
          simp only [List.cons.injEq, true_and, and_true, List.append_cancel_right_eq] at hsegments
          obtain ⟨hyear, hmonth, hday, hsegment⟩ := hsegments
          have hyear := yearText_injective hyear
          have hmonth := BitVec.eq_of_toNat_eq (zeroPadded_injective 2 hmonth)
          have hday := BitVec.eq_of_toNat_eq (zeroPadded_injective 2 hday)
          rw [hyear, hmonth, hday, ArchiveSegmentId.ext (hexIdentity_injective hsegment)]
      | _ => cases harchive
  | chunk organizationId sha1 =>
      cases right with
      | chunk =>
          unfold segments at hsegments
          simp only [List.cons.injEq, true_and, and_true] at hsegments
          obtain ⟨horganization, hsha1⟩ := hsegments
          rw [OrganizationId.get_injective (jsonNumber_injective horganization), sha1_injective hsha1]
      | bundle organizationId bundleId generation =>
          rcases segments_bundle organizationId bundleId generation with ⟨hright, -⟩ | ⟨hright, -⟩
          · exact absurd (List.cons.inj (hsegments.trans hright)).1 hfirst
          · exact absurd (List.cons.inj (hsegments.trans hright)).1 hfirst
      | event => cases hevent
      | replay => cases hreplay
      | file => cases hfile
      | archive => cases harchive
  | bundle organizationId bundleId generation =>
      cases right with
      | bundle => exact bundle_injective hsegments
      | chunk =>
          rcases segments_bundle organizationId bundleId generation with ⟨hleft, -⟩ | ⟨hleft, -⟩
          · exact absurd (List.cons.inj (hleft.symm.trans hsegments)).1.symm hfirst
          · exact absurd (List.cons.inj (hleft.symm.trans hsegments)).1.symm hfirst
      | event => cases hevent
      | replay => cases hreplay
      | file => cases hfile
      | archive => cases harchive

/-! ### Namespaces -/

/-- The namespace of an owner, and the kind of its blob. -/
def space : BlobOwner → BlobNamespace × BlobKind
  | event _ _ _ => (.eventOwned, .eventAttachment)
  | replay _ _ _ => (.replayRecordings, .replayRecording)
  | chunk _ _ => (.debugChunks, .debugChunk)
  | file _ _ => (.debugFiles, .debugFile)
  | bundle _ _ _ => (.artifactBundles, .artifactBundle)
  | archive .event _ _ _ _ _ => (.eventArchives, .eventArchive)
  | archive .log _ _ _ _ _ => (.logArchives, .logArchive)
  | archive .span _ _ _ _ _ => (.spanArchives, .spanArchive)
  | archive .session _ _ _ _ _ => (.sessionArchives, .sessionArchive)
  | archive .metric _ _ _ _ _ => (.metricArchives, .metricArchive)

theorem leading_isPrefix_text (owner : BlobOwner) : owner.space.1.leading <+: owner.key.text := by
  cases owner with
  | archive kind projectId year month day segmentId =>
      cases kind <;>
        (unfold key BlobKey.archive
         simp only [List.append_assoc]
         exact List.prefix_append _ _)
  | _ =>
      unfold key BlobKey.eventOwned
      simp only [List.append_assoc]
      exact List.prefix_append _ _

theorem leading_eq_of_isPrefix (left right : BlobNamespace) (h : left.leading <+: right.leading) :
    left.leading = right.leading := by
  revert h
  cases left <;> cases right <;> decide

/-- The leading text of a namespace is the one of the key or does not begin the key. -/
theorem leading_isPrefix (other : BlobNamespace) (owner : BlobOwner) :
    other.leading <+: owner.key.text ↔ other.leading = owner.space.1.leading := by
  have hown := leading_isPrefix_text owner
  constructor
  · intro h
    rcases List.prefix_or_prefix_of_prefix h hown with h | h
    · exact leading_eq_of_isPrefix _ _ h
    · exact (leading_eq_of_isPrefix _ _ h).symm
  · intro h
    rw [h]
    exact hown

theorem checkArchiveKind_key (owner : BlobOwner) (expected : ArchiveKind) :
    checkArchiveKind owner.key expected = match owner with
      | archive kind _ _ _ _ _ => failIf (kind ≠ expected) .invalidKey
      | _ => .error .invalidKey := by
  rw [checkArchiveKind, archiveRelation_key]
  cases owner <;> rfl

/-- A key is accepted by the namespace of its owner and by no other. -/
theorem kindForKey_key (other : BlobNamespace) (owner : BlobOwner) :
    other.kindForKey owner.key = if other = owner.space.1 then .ok owner.space.2 else .error .invalidKey := by
  unfold BlobNamespace.kindForKey
  simp only [leading_isPrefix, eventRelation_key, replayRelation_key, checkArchiveKind_key]
  cases owner with
  | archive kind projectId year month day segmentId => cases kind <;> cases other <;> rfl
  | _ => cases other <;> rfl

end BlobOwner

/-- Keys are valid, one owner has each of them, and every relation reads its own owners and no others. -/
theorem blobKeys_identify : (∀ owner : BlobOwner, BlobKey.new owner.key.text = .ok owner.key)
    ∧ Function.Injective BlobOwner.key
    ∧ ∀ owner : BlobOwner,
      (owner.key.eventRelation = match owner with
        | .event projectId eventId objectId => .ok (projectId, eventId, objectId)
        | _ => .error .invalidKey)
      ∧ (owner.key.replayRelation = match owner with
        | .replay projectId replayId segmentId => .ok (projectId, replayId, segmentId)
        | _ => .error .invalidKey)
      ∧ (owner.key.debugFileRelation = match owner with
        | .file projectId fileId => .ok (projectId, fileId)
        | _ => .error .invalidKey)
      ∧ (owner.key.archiveRelation = match owner with
        | .archive kind projectId _ _ _ _ => .ok (projectId, kind)
        | _ => .error .invalidKey) :=
  ⟨BlobOwner.new_key, BlobOwner.key_injective, fun owner => ⟨owner.eventRelation_key, owner.replayRelation_key,
    owner.debugFileRelation_key, owner.archiveRelation_key⟩⟩

end MetricBackend
