import Mathlib.Algebra.Order.BigOperators.Group.List
import Mathlib.Tactic.IntervalCases
import MetricBackend.EventNormalizer
import MetricBackend.GroupingKeys
import MetricBackend.LibLetters

/-! Which normalized events the grouper takes. The normalizer bounds the texts of an event by the size of
a component, except the identifiers of native images; nothing bounds the texts of symbolicated frames. -/

namespace MetricBackend

namespace EventNormalizer

open EventGrouping

/-! ### What the normalizer bounds -/

/-- The text fits into a component. -/
def Short (text : Option Text) : Prop := ∀ value ∈ text, byteLength value ≤ maxComponentBytes

structure ShortFrame (frame : NormalizedFrame) : Prop where
  filename : Short frame.filename
  absolutePath : Short frame.absolutePath
  function : Short frame.function
  module : Short frame.module

structure ShortException (exception : NormalizedException) : Prop where
  ty : Short exception.ty
  stacktrace : ∀ frame ∈ exception.stacktrace, ShortFrame frame

/-- What the grouper relies on in a body. -/
structure ShortBody (body : NormalizedEventBody) : Prop where
  logger : Short body.logger
  count : body.fingerprint.length ≤ 32
  fingerprint : ∀ value ∈ body.fingerprint, byteLength value ≤ maxComponentBytes
  exceptions : ∀ exception ∈ body.exceptions, ShortException exception
  stacktrace : ∀ frame ∈ body.stacktrace, ShortFrame frame

variable {limits : NormalizerLimits}

theorem valueString_yields (value : JsonValue) (maximum : Nat) (path : String) :
    Yields (valueString limits value maximum path) fun text =>
      ∀ value ∈ text, byteLength value ≤ maximum := by
  unfold valueString
  split
  · exact yields_pure (by simp)
  · dsimp only
    split_ifs with hempty hfits
    · exact yields_pure (by simp)
    · refine yields_pure ?_
      rintro _ ⟨⟩
      omega
    · refine yields_andThen fun _ => yields_pure ?_
      rintro _ ⟨⟩
      exact (byteLength_truncateUtf8_le _ _).trans (Nat.min_le_left _ _)
  · exact yields_andThen fun _ => yields_pure (by simp)

theorem optionalString_yields (fields : JsonFields) (key : String) (maximum : Nat) (path : String) :
    Yields (optionalString limits fields key maximum path) fun text =>
      ∀ value ∈ text, byteLength value ≤ maximum := by
  unfold optionalString
  split
  · exact yields_pure (by simp)
  · exact valueString_yields _ _ _

theorem normalizeStringArray_yields (value : Option JsonValue) (maximum stringMaximum : Nat)
    (path : String) :
    Yields (normalizeStringArray limits value maximum stringMaximum path) fun texts =>
      texts.length ≤ maximum ∧ ∀ value ∈ texts, byteLength value ≤ stringMaximum := by
  unfold normalizeStringArray
  split
  · exact yields_pure (by simp)
  · refine yields_andThen fun _ =>
      (yields_mapM _ fun value => valueString_yields value stringMaximum path).bind fun texts htexts =>
        yields_pure ⟨?_, ?_⟩
    · have hlength := List.length_filterMap_le id texts
      rw [htexts.1, List.length_take] at hlength
      omega
    · intro text htext
      obtain ⟨_, hmem, rfl⟩ := List.mem_filterMap.mp htext
      exact htexts.2 _ hmem text rfl
  · exact yields_andThen fun _ => yields_pure (by simp)

theorem normalizeFrame_yields (frame : JsonFields) : Yields (normalizeFrame limits frame) ShortFrame := by
  unfold normalizeFrame
  refine (optionalString_yields _ _ _ _).bind fun filename hfilename => ?_
  refine (optionalString_yields _ _ _ _).bind fun absolutePath habsolutePath => ?_
  refine (optionalString_yields _ _ _ _).bind fun function hfunction => ?_
  refine (optionalString_yields _ _ _ _).bind fun module hmodule => ?_
  refine yields_andThen fun _ => yields_andThen fun _ => yields_andThen fun _ => yields_andThen fun _ =>
    yields_andThen fun _ => yields_andThen fun _ => yields_andThen fun _ => yields_andThen fun _ => ?_
  exact yields_pure ⟨hfilename, habsolutePath, hfunction, hmodule⟩

theorem normalizeStacktrace_yields (value : Option JsonValue) (path : String) :
    Yields (normalizeStacktrace limits value path) fun frames => ∀ frame ∈ frames, ShortFrame frame := by
  unfold normalizeStacktrace
  split
  · exact yields_pure (by simp)
  · refine yields_andThen fun _ => ?_
    exact fun state frames final h => (yields_mapM _ normalizeFrame_yields state frames final h).2
  · exact yields_andThen fun _ => yields_pure (by simp)

theorem normalizeException_yields (exception : JsonFields) :
    Yields (normalizeException limits exception) ShortException := by
  unfold normalizeException
  refine yields_andThen fun _ => ?_
  refine (optionalString_yields _ _ _ _).bind fun ty hty => ?_
  refine yields_andThen fun _ => yields_andThen fun _ => yields_andThen fun _ => ?_
  refine (normalizeStacktrace_yields _ _).bind fun stacktrace hstacktrace => ?_
  exact yields_andThen fun _ => yields_andThen fun _ => yields_pure ⟨hty, hstacktrace⟩

theorem normalizeExceptions_yields (value : Option JsonValue) :
    Yields (normalizeExceptions limits value) fun exceptions =>
      ∀ exception ∈ exceptions, ShortException exception := by
  unfold normalizeExceptions
  split
  · exact yields_pure (by simp)
  · refine yields_andThen fun _ => ?_
    exact fun state exceptions final h => (yields_mapM _ normalizeException_yields state exceptions final h).2
  · exact yields_andThen fun _ => yields_pure (by simp)

theorem normalizeBody_yields (hlimit : limits.maxFingerprint ≤ 32)
    (parseTimestamp : JsonValue → Option (Option Timestamp)) (root : JsonFields) (receivedAt : Timestamp) :
    Yields (normalizeBody limits parseTimestamp root receivedAt) ShortBody := by
  unfold normalizeBody
  refine yields_andThen fun _ => yields_andThen fun _ => yields_andThen fun _ => yields_andThen fun _ =>
    yields_andThen fun _ => yields_andThen fun _ => ?_
  refine (optionalString_yields _ _ _ _).bind fun logger hlogger => ?_
  refine yields_andThen fun _ => yields_andThen fun _ => ?_
  refine (normalizeStringArray_yields _ _ _ _).bind fun fingerprint hfingerprint => ?_
  refine (normalizeExceptions_yields _).bind fun exceptions hexceptions => ?_
  refine (normalizeStacktrace_yields _ _).bind fun stacktrace hstacktrace => ?_
  refine yields_andThen fun _ => yields_andThen fun _ => yields_andThen fun _ => yields_andThen fun _ =>
    yields_andThen fun _ => yields_andThen fun _ => yields_pure ?_
  refine ⟨fun value hvalue => ?_, hfingerprint.1.trans hlimit, hfingerprint.2, hexceptions, hstacktrace⟩
  exact (hlogger value hvalue).trans (by decide)

theorem normalize_short {parseTimestamp : JsonValue → Option (Option Timestamp)}
    {decode : List (BitVec 8) → Option JsonValue} {event : AcceptedEvent} {normalized : NormalizedEvent}
    (h : normalize .defaultValue parseTimestamp decode event = .ok normalized) :
    ShortBody normalized.body := by
  unfold normalize at h
  split at h
  case h_1 => cases h
  case h_2 root _ =>
    simp only [bind_eq_ok, pure_eq_ok] at h
    obtain ⟨⟨body, context⟩, hbody, rfl⟩ := h
    exact normalizeBody_yields (by decide) _ _ _ _ body context hbody
  case h_3 => cases h

end EventNormalizer

namespace EventGrouping

open EventNormalizer

/-! ### Texts do not grow -/

theorem byteLength_normalizeIdentifier_le (value : Text) :
    byteLength (normalizeIdentifier value) ≤ byteLength value := by
  rw [normalizeIdentifier, byteLength_toAsciiLowercase]
  exact byteLength_trimMatches_le _ _

theorem byteLength_normalizeMessage_le (value : Text) :
    byteLength (normalizeMessage value) ≤ maxComponentBytes :=
  byteLength_truncateUtf8_le _ _

/-! ### Components that fit -/

def Fits (component : GroupingComponent) : Prop := byteLength component.value ≤ maxComponentBytes

theorem validateComponents_eq_ok {components : List GroupingComponent} :
    validateComponents components = .ok () ↔
      components ≠ [] ∧ components.length ≤ maxComponents ∧ ∀ component ∈ components, Fits component := by
  simp only [validateComponents, failIf_eq_ok, not_or, not_exists, not_and, not_lt, Fits, ne_eq]

theorem forall_fits_toList_map {α : Type} {value : Option α} {component : α → GroupingComponent} :
    (∀ entry ∈ (value.map component).toList, Fits entry) ↔ ∀ entry ∈ value, Fits (component entry) := by
  cases value with
  | none => simp
  | some entry => simp

structure ShortIdentity (frame : FrameIdentity) : Prop where
  function : Short frame.function
  module : Short frame.module
  path : Short frame.path

theorem frameComponents_fit {index : Nat} (hindex : index < maxGroupingFrames) {frame : FrameIdentity} :
    (∀ component ∈ frameComponents index frame, Fits component) ↔ ShortIdentity frame := by
  have hposition : Fits ⟨.frame, jsonNumber index⟩ := by
    have hsize := byteLength_jsonNumber_le (hindex.trans (by decide : maxGroupingFrames < 10 ^ 1)) (by decide)
    exact hsize.trans (by decide)
  have hline : ∀ line ∈ frame.line, Fits ⟨.frameLine, jsonNumber line.toNat⟩ := by
    intro line _
    have hsize := byteLength_jsonNumber_le (line.isLt.trans (by decide : 2 ^ 64 < 10 ^ 20)) (by decide)
    exact hsize.trans (by decide)
  simp only [frameComponents, List.forall_mem_cons, List.forall_mem_append, forall_fits_toList_map]
  constructor
  · rintro ⟨-, ⟨⟨hfunction, hmodule⟩, hpath⟩, -⟩
    exact ⟨hfunction, hmodule, hpath⟩
  · rintro ⟨hfunction, hmodule, hpath⟩
    exact ⟨hposition, ⟨⟨hfunction, hmodule⟩, hpath⟩, hline⟩

theorem length_toList_le_one (value : Option GroupingComponent) : value.toList.length ≤ 1 := by
  cases value <;> simp

theorem length_frameComponents_le (index : Nat) (frame : FrameIdentity) :
    (frameComponents index frame).length ≤ 5 := by
  have hfunction := length_toList_le_one (frame.function.map (GroupingComponent.mk .frameFunction))
  have hmodule := length_toList_le_one (frame.module.map (GroupingComponent.mk .frameModule))
  have hpath := length_toList_le_one (frame.path.map (GroupingComponent.mk .framePath))
  have hline := length_toList_le_one (frame.line.map fun line => ⟨.frameLine, jsonNumber line.toNat⟩)
  simp only [frameComponents, List.length_cons, List.length_append]
  omega

theorem length_flatMap_le {α : Type} {components : α → List GroupingComponent} {bound : Nat}
    (hbound : ∀ entry, (components entry).length ≤ bound) (entries : List α) :
    (entries.flatMap components).length ≤ bound * entries.length := by
  induction entries with
  | nil => simp
  | cons entry entries ih =>
      have hentry := hbound entry
      rw [List.flatMap_cons, List.length_append, List.length_cons, Nat.mul_succ]
      omega

theorem appendFrameComponents_fit {frames : List FrameIdentity} (hlength : frames.length ≤ maxGroupingFrames) :
    (∀ component ∈ appendFrameComponents frames, Fits component) ↔ ∀ frame ∈ frames, ShortIdentity frame := by
  constructor
  · intro h frame hframe
    obtain ⟨index, hindex, rfl⟩ := List.getElem_of_mem hframe
    refine (frameComponents_fit (hindex.trans_le hlength)).mp fun component hcomponent => h component ?_
    refine List.mem_flatMap.mpr ⟨(frames[index], index), ?_, hcomponent⟩
    exact List.mk_mem_zipIdx_iff_getElem?.mpr (List.getElem?_eq_getElem hindex)
  · intro h component hcomponent
    obtain ⟨⟨frame, index⟩, hentry, hmem⟩ := List.mem_flatMap.mp hcomponent
    have hget := List.mk_mem_zipIdx_iff_getElem?.mp hentry
    obtain ⟨hindex, -⟩ := List.getElem?_eq_some_iff.mp hget
    exact (frameComponents_fit (hindex.trans_le hlength)).mpr (h frame (List.mem_of_getElem? hget))
      component hmem

/-! ### The default strategies -/

theorem exceptionTypes_fit {body : NormalizedEventBody} (hbody : ShortBody body) :
    ∀ component ∈ (exceptionTypes body).map (GroupingComponent.mk .exceptionType), Fits component := by
  intro component hcomponent
  obtain ⟨ty, hty, rfl⟩ := List.mem_map.mp hcomponent
  rw [exceptionTypes, List.mem_reverse] at hty
  obtain ⟨exception, hexception, hsome⟩ := List.mem_filterMap.mp (List.mem_of_mem_take hty)
  exact (hbody.exceptions exception (List.mem_reverse.mp hexception)).ty ty hsome

theorem selectedFrames_eq_some {body : NormalizedEventBody} {symbolication : Option SymbolicationResult}
    {frames : List FrameIdentity} (h : selectedFrames body symbolication = some frames) :
    frames ≠ [] ∧ frames.length ≤ maxGroupingFrames := by
  unfold selectedFrames at h
  split_ifs at h
  have hnonempty := List.find?_some h
  have hmem := List.mem_of_find?_eq_some h
  refine ⟨fun hnil => by simp [hnil] at hnonempty, ?_⟩
  have htake : ∀ raw derived, (significantFrames raw derived).length ≤ maxGroupingFrames :=
    fun raw derived => List.length_take_le _ _
  rw [exceptionFrames, List.mem_append, List.mem_map, List.mem_singleton] at hmem
  rcases hmem with ⟨_, _, rfl⟩ | rfl
  · exact htake _ _
  · exact htake _ _

theorem validate_exceptionStack {body : NormalizedEventBody} (hbody : ShortBody body)
    {symbolication : Option SymbolicationResult} {frames : List FrameIdentity}
    (h : selectedFrames body symbolication = some frames) :
    validateComponents ((exceptionTypes body).map (GroupingComponent.mk .exceptionType)
      ++ appendFrameComponents frames) = .ok () ↔ ∀ frame ∈ frames, ShortIdentity frame := by
  obtain ⟨hnonempty, hlength⟩ := selectedFrames_eq_some h
  have htypes : (exceptionTypes body).length ≤ maxExceptionTypes := by
    rw [exceptionTypes, List.length_reverse]
    exact List.length_take_le _ _
  have hframes : (appendFrameComponents frames).length ≤ 5 * frames.zipIdx.length := by
    refine length_flatMap_le ?_ frames.zipIdx
    rintro ⟨frame, index⟩
    exact length_frameComponents_le index frame
  rw [List.length_zipIdx] at hframes
  have hne : appendFrameComponents frames ≠ [] := by
    obtain ⟨frame, rest, rfl⟩ := List.exists_cons_of_ne_nil hnonempty
    simp [appendFrameComponents, frameComponents]
  rw [validateComponents_eq_ok, List.forall_mem_append, appendFrameComponents_fit hlength]
  constructor
  · exact fun hvalid => hvalid.2.2.2
  · intro hshort
    refine ⟨fun hnil => hne (List.append_eq_nil_iff.mp hnil).2, ?_, exceptionTypes_fit hbody, hshort⟩
    rw [List.length_append, List.length_map]
    simp only [maxExceptionTypes, maxGroupingFrames, maxComponents] at *
    omega

theorem nativePairs_lt {body : NormalizedEventBody} : ∀ pair ∈ nativePairs body, pair.2 < 2 ^ 64 := by
  intro pair hpair
  obtain ⟨frame, _, hresolve⟩ := List.mem_filterMap.mp (List.mem_of_mem_take hpair)
  simp only [resolveAddress, Option.bind_eq_bind, Option.bind_eq_some_iff, Option.pure_def] at hresolve
  obtain ⟨address, ⟨text, _, hparse⟩, module, _, hpairs⟩ := hresolve
  have hlt : address < 2 ^ 64 := by
    unfold parseHexAddress at hparse
    dsimp only at hparse
    split_ifs at hparse
    simpa using (Option.filter_eq_some_iff.mp hparse).2
  cases hpairs
  exact (Nat.sub_le _ _).trans_lt hlt

theorem pairComponents_fit {pair : Text × Nat} (hpair : pair.2 < 2 ^ 64) :
    (∀ component ∈ pairComponents pair, Fits component) ↔ byteLength pair.1 ≤ maxComponentBytes := by
  have haddress : Fits ⟨.nativeRelativeAddress, hexNumber pair.2⟩ := by
    have hsize := byteLength_toDigits_le (by decide : 1 < 16) (by decide)
      (hpair.trans_eq (by decide : 2 ^ 64 = 16 ^ 16)) (by decide)
    exact hsize.trans (by decide)
  simp only [pairComponents, List.forall_mem_cons, List.not_mem_nil, false_implies, implies_true, and_true]
  exact and_iff_left haddress

theorem validate_nativeStack {body : NormalizedEventBody} (hbody : ShortBody body)
    (hpairs : nativePairs body ≠ []) :
    validateComponents (((lastExceptionType body).map (GroupingComponent.mk .exceptionType)).toList
      ++ (nativePairs body).flatMap pairComponents) = .ok () ↔
      ∀ pair ∈ nativePairs body, byteLength pair.1 ≤ maxComponentBytes := by
  have htype : ∀ ty ∈ lastExceptionType body, Fits ⟨.exceptionType, ty⟩ := by
    intro ty hty
    obtain ⟨exception, hexception, hsome⟩ := List.exists_of_findSome?_eq_some hty
    exact (hbody.exceptions exception (List.mem_reverse.mp hexception)).ty ty hsome
  have hcount : (nativePairs body).length ≤ maxGroupingFrames := List.length_take_le _ _
  have hlength : ((nativePairs body).flatMap pairComponents).length ≤ 2 * (nativePairs body).length :=
    length_flatMap_le (fun _ => Nat.le_refl 2) _
  have hone := length_toList_le_one ((lastExceptionType body).map (GroupingComponent.mk .exceptionType))
  have hne : (nativePairs body).flatMap pairComponents ≠ [] := by
    obtain ⟨pair, rest, heq⟩ := List.exists_cons_of_ne_nil hpairs
    simp [heq, pairComponents]
  rw [validateComponents_eq_ok, List.forall_mem_append, forall_fits_toList_map]
  constructor
  · intro hvalid pair hpair
    refine (pairComponents_fit (nativePairs_lt pair hpair)).mp fun component hcomponent => ?_
    exact hvalid.2.2.2 component (List.mem_flatMap.mpr ⟨pair, hpair, hcomponent⟩)
  · intro hshort
    refine ⟨fun hnil => hne (List.append_eq_nil_iff.mp hnil).2, ?_, htype, ?_⟩
    · rw [List.length_append]
      simp only [maxGroupingFrames, maxComponents] at *
      omega
    · intro component hcomponent
      obtain ⟨pair, hpair, hmem⟩ := List.mem_flatMap.mp hcomponent
      exact (pairComponents_fit (nativePairs_lt pair hpair)).mpr (hshort pair hpair) component hmem

theorem validate_messageStrategy {body : NormalizedEventBody} (hbody : ShortBody body) :
    validateComponents (messageStrategy body).components = .ok () := by
  rw [validateComponents_eq_ok]
  refine ⟨by simp [messageStrategy], ?_, ?_⟩
  · simp only [messageStrategy, List.length_append, List.length_singleton]
    exact (Nat.add_le_add_right (length_toList_le_one _) 1).trans (by decide)
  · simp only [messageStrategy, List.forall_mem_append, forall_fits_toList_map, List.forall_mem_singleton]
    refine ⟨fun logger hlogger => ?_, ?_⟩
    · exact (byteLength_normalizeIdentifier_le logger).trans (hbody.logger logger hlogger)
    · cases hmessage : (body.message.map normalizeMessage).filter (!·.isEmpty) with
      | none =>
          unfold Fits
          decide
      | some text =>
          obtain ⟨hsome, -⟩ := Option.filter_eq_some_iff.mp hmessage
          obtain ⟨message, -, rfl⟩ := Option.map_eq_some_iff.mp hsome
          exact byteLength_normalizeMessage_le message

/-! ### Fingerprints -/

theorem fingerprintComponents_fit (blake3 : List (BitVec 8) → BitVec 256) (default : Selected) {value : Text}
    (hvalue : byteLength value ≤ maxComponentBytes) :
    ∀ component ∈ fingerprintComponents blake3 default value, Fits component := by
  unfold fingerprintComponents
  split_ifs
  · simp only [List.forall_mem_cons, List.not_mem_nil, false_implies, implies_true, and_true]
    refine ⟨?_, ?_⟩
    · unfold Fits
      cases default.strategy <;> decide
    · rw [Fits, byteLength_hexEncode, length_bigEndian]
      decide
  · simpa [Fits] using hvalue

theorem length_fingerprintComponents_le (blake3 : List (BitVec 8) → BitVec 256) (default : Selected)
    (value : Text) : (fingerprintComponents blake3 default value).length ≤ 2 := by
  unfold fingerprintComponents
  split_ifs <;> simp

theorem validate_selectFingerprint (blake3 : List (BitVec 8) → BitVec 256) {body : NormalizedEventBody}
    (hbody : ShortBody body) (hfingerprint : body.fingerprint ≠ [])
    (symbolication : Option SymbolicationResult) :
    validateComponents (selectFingerprint blake3 body symbolication).components = .ok () := by
  have hlength := length_flatMap_le
    (length_fingerprintComponents_le blake3 (selectDefault body symbolication)) body.fingerprint
  have hcount := hbody.count
  rw [validateComponents_eq_ok]
  refine ⟨?_, ?_, ?_⟩
  · obtain ⟨value, rest, heq⟩ := List.exists_cons_of_ne_nil hfingerprint
    simp only [selectFingerprint, heq, List.flatMap_cons, ne_eq, List.append_eq_nil_iff, not_and]
    unfold fingerprintComponents
    split_ifs <;> simp
  · simp only [selectFingerprint, maxComponents]
    omega
  · intro component hcomponent
    obtain ⟨value, hvalue, hmem⟩ := List.mem_flatMap.mp hcomponent
    exact fingerprintComponents_fit blake3 _ (hbody.fingerprint value hvalue) component hmem

/-! ### Events that can be grouped -/

/-- Nothing outside the bounds reaches the components: there is a fingerprint, or the frames selected
have texts that fit, or the images of the addressed frames have identifiers that fit. -/
def Groupable (body : NormalizedEventBody) (symbolication : Option SymbolicationResult) : Prop :=
  body.fingerprint ≠ [] ∨
    match selectedFrames body symbolication with
    | some frames => ∀ frame ∈ frames, ShortIdentity frame
    | none => ∀ pair ∈ nativePairs body, byteLength pair.1 ≤ maxComponentBytes

theorem validate_selectDefault {body : NormalizedEventBody} (hbody : ShortBody body)
    (hfingerprint : body.fingerprint = []) (symbolication : Option SymbolicationResult) :
    validateComponents (selectDefault body symbolication).components = .ok () ↔
      Groupable body symbolication := by
  rw [Groupable, or_iff_right (not_not.mpr hfingerprint), selectDefault, exceptionStack]
  cases hselected : selectedFrames body symbolication with
  | some frames => exact validate_exceptionStack hbody hselected
  | none =>
      rw [Option.map_none, Option.none_or, nativeStack]
      by_cases hpairs : nativePairs body = []
      · simp only [hpairs, List.isEmpty_nil, if_true, Option.getD_none, validate_messageStrategy hbody,
          List.not_mem_nil, false_implies, implies_true]
      · rw [if_neg (by simpa using hpairs)]
        exact validate_nativeStack hbody hpairs

theorem group_ok_iff_validate (blake3 : List (BitVec 8) → BitVec 256) (projectId : ProjectId)
    (body : NormalizedEventBody) (symbolication : Option SymbolicationResult) :
    (∃ result, group blake3 projectId 1 body symbolication = .ok result) ↔
      validateComponents (if body.fingerprint.isEmpty then selectDefault body symbolication
        else selectFingerprint blake3 body symbolication).components = .ok () := by
  simp only [group, groupRevision1, bind_eq_ok, failIf_eq_ok, pure_eq_ok]
  constructor
  · rintro ⟨_, ⟨⟩, -, ⟨⟩, hvalid, -⟩
    exact hvalid
  · exact fun hvalid => ⟨_, (), by simp, (), hvalid, rfl⟩

/-- The events that the grouper takes after the normalizer of the default limits. -/
theorem normalized_groups_iff (blake3 : List (BitVec 8) → BitVec 256)
    (parseTimestamp : JsonValue → Option (Option Timestamp)) (decode : List (BitVec 8) → Option JsonValue)
    (event : AcceptedEvent) (normalized : NormalizedEvent) (projectId : ProjectId)
    (symbolication : Option SymbolicationResult)
    (h : normalize .defaultValue parseTimestamp decode event = .ok normalized) :
    (∃ result, group blake3 projectId 1 normalized.body symbolication = .ok result) ↔
      Groupable normalized.body symbolication := by
  have hbody := normalize_short h
  rw [group_ok_iff_validate]
  by_cases hfingerprint : normalized.body.fingerprint = []
  · rw [if_pos (by simpa using hfingerprint)]
    exact validate_selectDefault hbody hfingerprint symbolication
  · rw [if_neg (by simpa using hfingerprint)]
    exact iff_of_true (validate_selectFingerprint blake3 hbody hfingerprint symbolication) (Or.inl hfingerprint)

/-- The `serde_json` value of one payload. -/
def decodePayload (payload : Text) (value : JsonValue) (bytes : List (BitVec 8)) : Option JsonValue :=
  if bytes = utf8Bytes payload then some value else none

def acceptedPayload (payload : Text) : AcceptedEvent where
  projectId := ⟨1, ProjectId.positive_one⟩
  eventId := ⟨1⟩
  receivedAt := ⟨0, inRange_epoch⟩
  policyRevision := 1
  payload := ⟨utf8Bytes payload⟩

/-- A trace with one address, in an image with the given identifier. -/
def imageValue (debugId : Text) : JsonValue :=
  .object
    [("debug_meta".toList, .object
      [("images".toList, .array [.object
        [("debug_id".toList, .string debugId),
          ("image_addr".toList, .string "0x1000".toList),
          ("image_size".toList, .number ⟨"4096".toList, some 4096⟩)]])]),
      ("stacktrace".toList, .object
        [("frames".toList, .array [.object [("instruction_addr".toList, .string "0x1010".toList)]])])]

def imagePayload (debugId : Text) : Text :=
  "\x7b\"debug_meta\":\x7b\"images\":[\x7b\"debug_id\":\"".toList ++ debugId
    ++ "\",\"image_addr\":\"0x1000\",\"image_size\":4096\x7d]\x7d,".toList
    ++ "\"stacktrace\":\x7b\"frames\":[\x7b\"instruction_addr\":\"0x1010\"\x7d]\x7d\x7d".toList

theorem normalized_groups_iff_image :
    ∃ result, ∃ normalized,
      normalize .defaultValue (fun _ => none)
        (decodePayload (imagePayload "c0ffee".toList) (imageValue "c0ffee".toList))
        (acceptedPayload (imagePayload "c0ffee".toList)) = .ok normalized
      ∧ nativePairs normalized.body = [("c0ffee".toList, 16)]
      ∧ group (fun _ => 0) ⟨1, by decide⟩ 1 normalized.body none = .ok result := by
  have hrun : ((normalize .defaultValue (fun _ => none)
      (decodePayload (imagePayload "c0ffee".toList) (imageValue "c0ffee".toList))
      (acceptedPayload (imagePayload "c0ffee".toList))).toOption.map fun normalized =>
        ((selectedFrames normalized.body none).isNone, nativePairs normalized.body))
      = some (true, [("c0ffee".toList, 16)]) := by
    set_option maxRecDepth 8000 in decide
  obtain ⟨normalized, hnormalized, hshape⟩ := Option.map_eq_some_iff.mp hrun
  rw [toOption_eq_some] at hnormalized
  obtain ⟨hselected, hpairs⟩ := Prod.mk.inj hshape
  have hgroupable : Groupable normalized.body none := by
    right
    rw [Option.isNone_iff_eq_none.mp hselected, hpairs]
    decide
  obtain ⟨result, hresult⟩ := (normalized_groups_iff (fun _ => 0) (fun _ => none) _ _ normalized ⟨1, by decide⟩ none
    hnormalized).mpr hgroupable
  exact ⟨result, normalized, hnormalized, hpairs, hresult⟩

/-- An image whose identifier has one byte too many. -/
def longImageValue : JsonValue := imageValue (List.replicate 2049 'a')

def longImagePayload : Text := imagePayload (List.replicate 2049 'a')

theorem long_image_rejected :
    ∃ normalized,
      normalize .defaultValue (fun _ => none) (decodePayload longImagePayload longImageValue)
        (acceptedPayload longImagePayload) = .ok normalized
      ∧ group (fun _ => 0) ⟨1, by decide⟩ 1 normalized.body none = .error .inputLimitExceeded := by
  have hrun : ((normalize .defaultValue (fun _ => none) (decodePayload longImagePayload longImageValue)
      (acceptedPayload longImagePayload)).toOption.map fun normalized =>
        group (fun _ => 0) ⟨1, by decide⟩ 1 normalized.body none) = some (.error .inputLimitExceeded) := by
    decide +kernel
  obtain ⟨normalized, hnormalized, hgroup⟩ := Option.map_eq_some_iff.mp hrun
  exact ⟨normalized, toOption_eq_some.mp hnormalized, hgroup⟩

end EventGrouping

end MetricBackend
