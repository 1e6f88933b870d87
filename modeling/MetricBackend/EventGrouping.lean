import Mathlib.Data.List.Sort
import MetricBackend.LibFallible
import MetricBackend.LibCodes
import MetricBackend.DomainNormalized

/-! Event grouping, `domain/src/grouping.rs`: the strategies, the components they select, the key and the
issue identifier. The summaries of the explanation are left out. The digest function of the `blake3`
package is a parameter. -/

namespace MetricBackend

/-- The two bytes of a revision and the digest of the component stream. -/
structure GroupingKey where
  revision : BitVec 16
  digest : BitVec 256
deriving DecidableEq

inductive GroupingStrategy where
  | sdkFingerprint
  | exceptionStack
  | nativeStack
  | message
deriving DecidableEq, Repr

namespace GroupingStrategy

def asStr : GroupingStrategy → Text
  | .sdkFingerprint => "sdk_fingerprint".toList
  | .exceptionStack => "exception_stack".toList
  | .nativeStack => "native_stack".toList
  | .message => "message".toList

def domain : GroupingStrategy → Text
  | .sdkFingerprint => "sdk_fingerprint/v1".toList
  | .exceptionStack => "exception_stack/v1".toList
  | .nativeStack => "native_stack/v1".toList
  | .message => "message/v1".toList

end GroupingStrategy

inductive GroupingComponentKind where
  | sdkFingerprint
  | defaultStrategy
  | defaultDigest
  | exceptionType
  | frame
  | frameFunction
  | frameModule
  | framePath
  | frameLine
  | nativeModule
  | nativeRelativeAddress
  | logger
  | message
deriving DecidableEq, Repr

/-- The discriminant of `#[repr(u8)]`. -/
def GroupingComponentKind.byte : GroupingComponentKind → BitVec 8
  | .sdkFingerprint => 1
  | .defaultStrategy => 2
  | .defaultDigest => 3
  | .exceptionType => 4
  | .frame => 5
  | .frameFunction => 6
  | .frameModule => 7
  | .framePath => 8
  | .frameLine => 9
  | .nativeModule => 10
  | .nativeRelativeAddress => 11
  | .logger => 12
  | .message => 13

structure GroupingComponent where
  kind : GroupingComponentKind
  value : Text
deriving DecidableEq

structure Selected where
  strategy : GroupingStrategy
  components : List GroupingComponent
deriving DecidableEq

structure GroupingResult where
  key : GroupingKey
  issueId : IssueId
  strategy : GroupingStrategy
  components : List GroupingComponent
deriving DecidableEq

inductive GroupingError where
  | unsupportedRevision
  | inputLimitExceeded
deriving DecidableEq, Repr

namespace EventGrouping

def maxComponents : Nat := 64
def maxComponentBytes : Nat := 2 * 1024
def maxGroupingFrames : Nat := 8
def maxExceptionTypes : Nat := 8

/-- `"\x7b\x7b default \x7d\x7d"`. -/
def defaultFingerprint : Text := "\x7b\x7b default \x7d\x7d".toList

/-! ### Keys -/

/-- The bytes of a key: revision, then digest. -/
def keyBytes (key : GroupingKey) : List (BitVec 8) :=
  bigEndian 2 key.revision.toNat ++ bigEndian 32 key.digest.toNat

/-- `Encoder::bytes`. A value of 2^32 bytes or more panics in the source. -/
def encodeBytes (bytes : List (BitVec 8)) : List (BitVec 8) := lengthPrefixed 4 bytes

def encodeComponent (component : GroupingComponent) : List (BitVec 8) :=
  component.kind.byte :: encodeBytes (utf8Bytes component.value)

/-- The bytes that `key_for` hashes. -/
def keyInput (revision : BitVec 16) (strategy : GroupingStrategy)
    (components : List GroupingComponent) : List (BitVec 8) :=
  encodeBytes (utf8Bytes strategy.domain) ++ encodeBytes (bigEndian 2 revision.toNat)
    ++ components.flatMap encodeComponent

/-- The bytes that `derive_issue_id` hashes. -/
def issueInput (projectId : ProjectId) (key : GroupingKey) : List (BitVec 8) :=
  encodeBytes (utf8Bytes "issue-id/v1".toList) ++ encodeBytes (bigEndian 4 projectId.get)
    ++ encodeBytes (keyBytes key)

section Digest

variable (blake3 : List (BitVec 8) → BitVec 256)

def keyFor (revision : BitVec 16) (strategy : GroupingStrategy)
    (components : List GroupingComponent) : GroupingKey where
  revision := revision
  digest := blake3 (keyInput revision strategy components)

/-- The digest of which `derive_issue_id` keeps sixteen bytes. -/
def issueDigest (projectId : ProjectId) (key : GroupingKey) : BitVec 256 :=
  blake3 (issueInput projectId key)

def deriveIssueId (projectId : ProjectId) (key : GroupingKey) : IssueId :=
  ⟨(issueDigest blake3 projectId key).extractLsb' 128 128⟩

end Digest

/-! ### Texts -/

def normalizeIdentifier (value : Text) : Text := toAsciiLowercase (trimMatches isWhitespace value)

/-- `Vec::join` with a separator. -/
def joinWith (separator : Char) (parts : List Text) : Text := (parts.intersperse [separator]).flatten

/-- The last two segments of a path, without its query. -/
def normalizePath (value : Text) : Text :=
  let normalized := value.map fun c => if c = Char.ofNat 92 then '/' else c
  let withoutQuery := normalized.takeWhile fun c => !(c == '?' || c == '#')
  let parts := (withoutQuery.splitOnP (· == '/')).filter (!·.isEmpty)
  toAsciiLowercase (joinWith '/' (parts.drop (parts.length - 2)))

def isAsciiAlphanumeric (c : Char) : Bool := c.isAlphanum

/-- An address: `0x` and at least six hexadecimal digits. -/
def isAddress (value : Text) : Bool :=
  ((stripStart "0x".toList value).or (stripStart "0X".toList value)).any fun digits =>
    6 ≤ byteLength digits ∧ digits.all fun c => (hexValue c).isSome

def normalizeMessageToken (token : Text) : Text :=
  let trimmed := trimMatches (fun c => !isAsciiAlphanumeric c && c != '-') token
  if isUuid trimmed then "\x7buuid\x7d".toList
  else if isAddress token then "\x7baddress\x7d".toList
  else if 6 ≤ byteLength trimmed ∧ trimmed.all Char.isDigit then "\x7bnumber\x7d".toList
  else if 16 ≤ byteLength trimmed ∧ trimmed.all isAsciiAlphanumeric ∧ trimmed.any Char.isAlpha
      ∧ trimmed.any Char.isDigit then "\x7bid\x7d".toList
  else toAsciiLowercase token

def normalizeMessage (value : Text) : Text :=
  truncateUtf8 maxComponentBytes (joinWith ' ' ((splitWhitespace value).map normalizeMessageToken))

/-! ### Frames -/

/-- What a significant frame contributes, raw or derived. -/
structure FrameIdentity where
  function : Option Text
  module : Option Text
  path : Option Text
  line : Option (BitVec 64)

def rawIdentity (frame : NormalizedFrame) : Option FrameIdentity :=
  if frame.instructionAddress.isNone ∧ frame.symbolAddress.isNone ∧ frame.inApp ≠ some false
      ∧ (frame.function.isSome ∨ frame.module.isSome ∨ frame.filename.isSome ∨ frame.absolutePath.isSome) then
    some
      { function := frame.function.map normalizeIdentifier
        module := frame.module.map normalizeIdentifier
        path := (frame.filename.or frame.absolutePath).map normalizePath
        line := if frame.function.isNone then frame.line else none }
  else none

def derivedIdentity (frame : SymbolicatedFrame) : Option FrameIdentity :=
  if frame.function.isSome ∨ frame.module.isSome ∨ frame.filename.isSome then
    some
      { function := frame.function.map normalizeIdentifier
        module := frame.module.map normalizeIdentifier
        path := frame.filename.map normalizePath
        line := if frame.function.isNone then frame.line else none }
  else none

/-- The last derived frame for an index wins. -/
def derivedAt (derived : List SymbolicatedFrame) (index : Nat) : Option SymbolicatedFrame :=
  derived.reverse.find? (·.originalIndex = index)

def frameIdentity (derived : List SymbolicatedFrame) (entry : NormalizedFrame × Nat) :
    Option FrameIdentity :=
  match derivedAt derived entry.2 with
  | some frame => derivedIdentity frame
  | none => rawIdentity entry.1

def significantFrames (raw : List NormalizedFrame) (derived : Option (List SymbolicatedFrame)) :
    List FrameIdentity :=
  (raw.zipIdx.reverse.filterMap (frameIdentity (derived.getD []))).take maxGroupingFrames

def derivedFrames (symbolication : Option SymbolicationResult) (origin : RawTraceOrigin) :
    Option (List SymbolicatedFrame) :=
  match symbolication with
  | none => none
  | some result =>
      if result.status = .complete ∨ result.status = .partialResult then
        (result.derived.find? (·.origin = origin)).map (·.frames)
      else none

def frameComponents (index : Nat) (frame : FrameIdentity) : List GroupingComponent :=
  ⟨.frame, jsonNumber index⟩ ::
    ((frame.function.map (GroupingComponent.mk .frameFunction)).toList
      ++ (frame.module.map (GroupingComponent.mk .frameModule)).toList
      ++ (frame.path.map (GroupingComponent.mk .framePath)).toList
      ++ (frame.line.map fun line => ⟨.frameLine, jsonNumber line.toNat⟩).toList)

def appendFrameComponents (frames : List FrameIdentity) : List GroupingComponent :=
  frames.zipIdx.flatMap fun (frame, index) => frameComponents index frame

/-! ### Strategies -/

def allFrames (body : NormalizedEventBody) : List NormalizedFrame :=
  body.exceptions.flatMap (·.stacktrace) ++ body.stacktrace

/-- The types of the last exceptions, oldest first. -/
def exceptionTypes (body : NormalizedEventBody) : List Text :=
  ((body.exceptions.reverse.filterMap (·.ty)).take maxExceptionTypes).reverse

def exceptionFrames (body : NormalizedEventBody) (symbolication : Option SymbolicationResult) :
    List (List FrameIdentity) :=
  (body.exceptions.zipIdx.reverse.map fun (exception, index) =>
      significantFrames exception.stacktrace (derivedFrames symbolication (.exception index)))
    ++ [significantFrames body.stacktrace (derivedFrames symbolication .event)]

theorem exceptionFrames_eq (body : NormalizedEventBody) (symbolication : Option SymbolicationResult) :
    exceptionFrames body symbolication
      = (body.exceptions.zipIdx.map fun exception =>
          significantFrames exception.1.stacktrace (derivedFrames symbolication (.exception exception.2))).reverse
        ++ [significantFrames body.stacktrace (derivedFrames symbolication .event)] := by
  rw [← List.map_reverse]
  rfl

/-- The last exception with a significant frame, else the trace of the event. Nothing when a frame has
an address. -/
def selectedFrames (body : NormalizedEventBody) (symbolication : Option SymbolicationResult) :
    Option (List FrameIdentity) :=
  if (allFrames body).any fun frame => frame.instructionAddress.isSome || frame.symbolAddress.isSome then
    none
  else (exceptionFrames body symbolication).find? (!·.isEmpty)

def exceptionStack (body : NormalizedEventBody) (symbolication : Option SymbolicationResult) :
    Option Selected :=
  (selectedFrames body symbolication).map fun frames =>
    { strategy := .exceptionStack
      components := (exceptionTypes body).map (GroupingComponent.mk .exceptionType)
        ++ appendFrameComponents frames }

/-- The digits of a number: the integer parsers take one plus sign before them. -/
def afterPlus : Text → Text
  | '+' :: rest => rest
  | value => value

/-- `u64::from_str_radix` with radix 16, after an optional `0x`. -/
def parseHexAddress (value : Text) : Option Nat :=
  let digits := afterPlus ((stripStart "0x".toList value).getD value)
  if digits.isEmpty then none else (hexadecimal digits).filter (· < 2 ^ 64)

structure NativeModule where
  identity : Text
  base : Nat
  size : Option Nat
deriving DecidableEq

/-- An end beyond 64 bits counts as no end. -/
def NativeModule.contains (module : NativeModule) (address : Nat) : Bool :=
  module.base ≤ address ∧
    ((module.size.map (module.base + ·)).filter (· < 2 ^ 64)).all fun stop => address < stop

def canonicalString : Option CanonicalValue → Option Text
  | some (.string value) => some value
  | _ => none

def canonicalU64 : Option CanonicalValue → Option Nat
  | some (.number spelling) =>
      let digits := afterPlus spelling
      if digits.isEmpty then none else (decimal digits).filter (· < 2 ^ 64)
  | _ => none

def nativeModule : CanonicalValue → Option NativeModule
  | .object image => do
      let identity ← (canonicalString (image.lookup "debug_id".toList)).or
        (canonicalString (image.lookup "code_id".toList))
      let base ← (canonicalString (image.lookup "image_addr".toList)).bind parseHexAddress
      return ⟨normalizeIdentifier identity, base, canonicalU64 (image.lookup "image_size".toList)⟩
  | _ => none

/-- The images of `debug_meta` that have an identity and an address, in the order of their bases. -/
def nativeModules (body : NormalizedEventBody) : List NativeModule :=
  match body.unknown.lookup "debug_meta".toList with
  | some (.object debugMeta) =>
      match debugMeta.lookup "images".toList with
      | some (.array images) =>
          (images.filterMap nativeModule).insertionSort fun left right => left.base ≤ right.base
      | _ => []
  | _ => []

/-- The module of an instruction address and the address inside it. -/
def resolveAddress (modules : List NativeModule) (frame : NormalizedFrame) : Option (Text × Nat) := do
  let address ← frame.instructionAddress.bind parseHexAddress
  let module ← modules.reverse.find? (·.contains address)
  return (module.identity, address - module.base)

def nativePairs (body : NormalizedEventBody) : List (Text × Nat) :=
  ((allFrames body).reverse.filterMap (resolveAddress (nativeModules body))).take maxGroupingFrames

def lastExceptionType (body : NormalizedEventBody) : Option Text :=
  body.exceptions.reverse.findSome? (·.ty)

/-- A number in lowercase hexadecimal digits. -/
def hexNumber (value : Nat) : Text := Nat.toDigits 16 value

def pairComponents (pair : Text × Nat) : List GroupingComponent :=
  [⟨.nativeModule, pair.1⟩, ⟨.nativeRelativeAddress, hexNumber pair.2⟩]

def nativeStack (body : NormalizedEventBody) : Option Selected :=
  let pairs := nativePairs body
  if pairs.isEmpty then none
  else
    some
      { strategy := .nativeStack
        components := ((lastExceptionType body).map (GroupingComponent.mk .exceptionType)).toList
          ++ pairs.flatMap pairComponents }

def messageStrategy (body : NormalizedEventBody) : Selected where
  strategy := .message
  components := (body.logger.map fun logger => ⟨.logger, normalizeIdentifier logger⟩).toList
    ++ [⟨.message, ((body.message.map normalizeMessage).filter (!·.isEmpty)).getD "<empty error>".toList⟩]

def selectDefault (body : NormalizedEventBody) (symbolication : Option SymbolicationResult) : Selected :=
  ((exceptionStack body symbolication).or (nativeStack body)).getD (messageStrategy body)

def validateComponents (components : List GroupingComponent) : Except GroupingError Unit :=
  failIf (components = [] ∨ maxComponents < components.length
    ∨ ∃ component ∈ components, maxComponentBytes < byteLength component.value) .inputLimitExceeded

section Digest

variable (blake3 : List (BitVec 8) → BitVec 256)

/-- The components of one fingerprint entry; the placeholder stands for the default selection. -/
def fingerprintComponents (default : Selected) (value : Text) : List GroupingComponent :=
  if value = defaultFingerprint then
    [⟨.defaultStrategy, default.strategy.asStr⟩,
      ⟨.defaultDigest,
        hexEncode (bigEndian 32 (keyFor blake3 1 default.strategy default.components).digest.toNat)⟩]
  else [⟨.sdkFingerprint, value⟩]

def selectFingerprint (body : NormalizedEventBody) (symbolication : Option SymbolicationResult) :
    Selected where
  strategy := .sdkFingerprint
  components := body.fingerprint.flatMap (fingerprintComponents blake3 (selectDefault body symbolication))

def groupRevision1 (projectId : ProjectId) (body : NormalizedEventBody)
    (symbolication : Option SymbolicationResult) : Except GroupingError GroupingResult := do
  let selected := if body.fingerprint.isEmpty then selectDefault body symbolication
    else selectFingerprint blake3 body symbolication
  validateComponents selected.components
  let key := keyFor blake3 1 selected.strategy selected.components
  return ⟨key, deriveIssueId blake3 projectId key, selected.strategy, selected.components⟩

def group (projectId : ProjectId) (pinnedRevision : BitVec 64) (body : NormalizedEventBody)
    (symbolication : Option SymbolicationResult) : Except GroupingError GroupingResult := do
  failIf (pinnedRevision ≠ 1) .unsupportedRevision
  groupRevision1 blake3 projectId body symbolication

end Digest

end EventGrouping

end MetricBackend
