import MetricBackend.EventGrouping
import MetricBackend.LibParallel
import Mathlib.Data.List.Induction

/-! Exception grouping and the frames that it leaves out: frames that come to a trace without a part in its identity,
and symbolicated frames that stand in for raw ones. -/

namespace MetricBackend

namespace EventGrouping

def NormalizedFrame.HasAddress (frame : NormalizedFrame) : Prop :=
  frame.instructionAddress.isSome = true ∨ frame.symbolAddress.isSome = true

/-- No frame of the body has an address. -/
def NoAddresses (body : NormalizedEventBody) : Prop := ∀ frame ∈ allFrames body, ¬ NormalizedFrame.HasAddress frame

/-- A frame outside of the application, or without any name. -/
def Insignificant (frame : NormalizedFrame) : Prop :=
  frame.inApp = some false
    ∨ (frame.function = none ∧ frame.module = none ∧ frame.filename = none ∧ frame.absolutePath = none)

/-- Insignificant frames are inserted at any positions. -/
inductive Padded : List NormalizedFrame → List NormalizedFrame → Prop where
  | nil : Padded [] []
  | keep (frame : NormalizedFrame) {frames padded : List NormalizedFrame} (h : Padded frames padded) :
      Padded (frame :: frames) (frame :: padded)
  | insert {frame : NormalizedFrame} (hframe : Insignificant frame) {frames padded : List NormalizedFrame}
      (h : Padded frames padded) : Padded frames (frame :: padded)

/-- Insignificant frames are inserted at any positions, and any frames among those that are older than the eighth
newest significant frame. -/
inductive TraceInserted : List NormalizedFrame → List NormalizedFrame → Prop where
  | padded {frames inserted : List NormalizedFrame} (h : Padded frames inserted) : TraceInserted frames inserted
  | older {older olderInserted newer newerInserted : List NormalizedFrame} (holder : older.Sublist olderInserted)
      (hnewer : Padded newer newerInserted) (height : 8 ≤ (newer.filterMap rawIdentity).length) :
      TraceInserted (older ++ newer) (olderInserted ++ newerInserted)

structure ExceptionInserted (exception inserted : NormalizedException) : Prop where
  stacktrace : TraceInserted exception.stacktrace inserted.stacktrace
  ty : inserted.ty = exception.ty

/-- Frames are inserted into the traces of a body. -/
structure BodyInserted (body inserted : NormalizedEventBody) : Prop where
  exceptions : List.Forall₂ ExceptionInserted body.exceptions inserted.exceptions
  stacktrace : TraceInserted body.stacktrace inserted.stacktrace

/-! ### Insertion -/

theorem rawIdentity_eq_none {frame : NormalizedFrame} (h : Insignificant frame) : rawIdentity frame = none := by
  rw [rawIdentity, if_neg]
  rintro ⟨-, -, hinApp, hnamed⟩
  obtain hfalse | ⟨hfunction, hmodule, hfilename, hpath⟩ := h
  · exact hinApp hfalse
  · rw [hfunction, hmodule, hfilename, hpath] at hnamed
    simp at hnamed

theorem Padded.filterMap_eq {frames padded : List NormalizedFrame} (h : Padded frames padded) :
    padded.filterMap rawIdentity = frames.filterMap rawIdentity := by
  induction h with
  | nil => rfl
  | keep frame _ ih => rw [List.filterMap_cons, List.filterMap_cons, ih]
  | insert hframe _ ih => rw [List.filterMap_cons, rawIdentity_eq_none hframe, ih]

/-- Without derived frames the selection keeps the newest raw identities. -/
theorem significantFrames_none (raw : List NormalizedFrame) :
    significantFrames raw none = (raw.filterMap rawIdentity).reverse.take maxGroupingFrames := by
  have hraw : raw.zipIdx.filterMap (frameIdentity []) = raw.filterMap rawIdentity := by
    have hmap : raw.zipIdx.map Prod.fst = raw := List.zipIdx_map_fst 0 raw
    calc raw.zipIdx.filterMap (frameIdentity []) = raw.zipIdx.filterMap (rawIdentity ∘ Prod.fst) := rfl
      _ = raw.filterMap rawIdentity := by rw [← List.filterMap_map, hmap]
  rw [significantFrames, List.filterMap_reverse]
  exact congrArg (fun identities => identities.reverse.take maxGroupingFrames) hraw

theorem TraceInserted.significantFrames_eq {frames inserted : List NormalizedFrame} (h : TraceInserted frames inserted) :
    significantFrames inserted none = significantFrames frames none := by
  rw [significantFrames_none, significantFrames_none]
  cases h with
  | padded h => rw [h.filterMap_eq]
  | older _ hnewer height =>
      rw [List.filterMap_append, List.filterMap_append, hnewer.filterMap_eq, List.reverse_append, List.reverse_append]
      rw [List.take_append_of_le_length (by rwa [List.length_reverse]),
        List.take_append_of_le_length (by rwa [List.length_reverse])]

theorem selectedFrames_of_noAddresses {body : NormalizedEventBody} (h : NoAddresses body)
    (symbolication : Option SymbolicationResult) :
    selectedFrames body symbolication = (exceptionFrames body symbolication).find? (!·.isEmpty) := by
  rw [selectedFrames, if_neg]
  intro hany
  obtain ⟨frame, hframe, haddress⟩ := List.any_eq_true.mp hany
  exact h frame hframe (Bool.or_eq_true_iff.mp haddress)

theorem exceptionTypes_eq {body inserted : NormalizedEventBody}
    (h : body.exceptions.map (·.ty) = inserted.exceptions.map (·.ty)) : exceptionTypes inserted = exceptionTypes body := by
  have hread : ∀ body : NormalizedEventBody, exceptionTypes body
      = (((body.exceptions.map (·.ty)).reverse.filterMap id).take maxExceptionTypes).reverse := by
    intro body
    rw [exceptionTypes, ← List.map_reverse, List.filterMap_map]
    rfl
  rw [hread, hread, h]

theorem BodyInserted.exceptionStack_eq {body inserted : NormalizedEventBody} (h : BodyInserted body inserted)
    (hbody : NoAddresses body) (hinserted : NoAddresses inserted) :
    exceptionStack inserted none = exceptionStack body none := by
  have hframes : exceptionFrames inserted none = exceptionFrames body none := by
    have hmap : (body.exceptions.zipIdx.map fun exception =>
          significantFrames exception.1.stacktrace (derivedFrames none (.exception exception.2)))
        = inserted.exceptions.zipIdx.map fun exception =>
          significantFrames exception.1.stacktrace (derivedFrames none (.exception exception.2)) :=
      map_eq_of_forall₂ (fun _ _ hboth => hboth.1.stacktrace.significantFrames_eq.symm) (zipIdx_of_forall₂ h.exceptions 0)
    have hevent : significantFrames inserted.stacktrace (derivedFrames none .event)
        = significantFrames body.stacktrace (derivedFrames none .event) := h.stacktrace.significantFrames_eq
    rw [exceptionFrames_eq, exceptionFrames_eq, hmap, hevent]
  have htypes := exceptionTypes_eq (map_eq_of_forall₂ (fun _ _ hexception => hexception.ty.symm) h.exceptions)
  rw [exceptionStack, exceptionStack, selectedFrames_of_noAddresses hbody, selectedFrames_of_noAddresses hinserted,
    hframes, htypes]

/-! ### Symbolicated frames -/

/-- The slots of `significant_frames`, by the index of the raw frame. -/
def byIndex (count : Nat) (derived : List SymbolicatedFrame) : List (Option SymbolicatedFrame) :=
  derived.foldl (fun slots frame => slots.set frame.originalIndex (some frame)) (List.replicate count none)

/-- A raw frame with the names of a symbolicated one. -/
def standIn (frame : SymbolicatedFrame) : NormalizedFrame where
  filename := frame.filename
  absolutePath := none
  function := frame.function
  module := frame.module
  package := none
  instructionAddress := none
  symbolAddress := none
  line := frame.line
  column := frame.column
  inApp := none
  contextLine := frame.contextLine
  preContext := frame.preContext
  postContext := frame.postContext
  vars := []
  unknown := []

/-- The frames of a trace, those with a slot replaced. -/
def overlayTrace (raw : List NormalizedFrame) (derived : Option (List SymbolicatedFrame)) : List NormalizedFrame :=
  (raw.zip (byIndex raw.length (derived.getD []))).map fun (frame, slot) => (slot.map standIn).getD frame

/-- The body with its symbolicated frames in the place of the raw ones. -/
def overlayBody (body : NormalizedEventBody) (symbolication : Option SymbolicationResult) : NormalizedEventBody :=
  { body with
    exceptions := body.exceptions.zipIdx.map fun (exception, index) =>
      { exception with
        stacktrace := overlayTrace exception.stacktrace (derivedFrames symbolication (.exception index)) }
    stacktrace := overlayTrace body.stacktrace (derivedFrames symbolication .event) }

theorem rawIdentity_standIn (frame : SymbolicatedFrame) : rawIdentity (standIn frame) = derivedIdentity frame := by
  simp [rawIdentity, derivedIdentity, standIn]

theorem length_byIndex (count : Nat) (derived : List SymbolicatedFrame) : (byIndex count derived).length = count := by
  induction derived using List.reverseRecOn with
  | nil => exact List.length_replicate
  | append_singleton derived frame ih =>
      rw [byIndex, List.foldl_append, List.foldl_cons, List.foldl_nil, List.length_set]
      exact ih

/-- A slot holds the last derived frame for its index. -/
theorem getElem?_byIndex {count index : Nat} (h : index < count) (derived : List SymbolicatedFrame) :
    (byIndex count derived)[index]? = some (derivedAt derived index) := by
  induction derived using List.reverseRecOn with
  | nil =>
      rw [byIndex, List.foldl_nil, List.getElem?_replicate, if_pos h]
      rfl
  | append_singleton derived frame ih =>
      have hfold : byIndex count (derived ++ [frame])
          = (byIndex count derived).set frame.originalIndex (some frame) := by
        rw [byIndex, List.foldl_append]
        rfl
      rw [hfold, derivedAt, List.reverse_append, List.reverse_singleton, List.singleton_append, List.find?_cons]
      by_cases hindex : frame.originalIndex = index
      · rw [hindex, List.getElem?_set_self (by rwa [length_byIndex]), decide_eq_true rfl]
      · rw [List.getElem?_set_ne hindex, ih, decide_eq_false hindex]
        rfl

/-- A trace is selected from as its overlay is without derived frames. -/
theorem significantFrames_overlay (raw : List NormalizedFrame) (derived : Option (List SymbolicatedFrame)) :
    significantFrames raw derived = significantFrames (overlayTrace raw derived) none := by
  have hslots : byIndex raw.length (derived.getD []) = (List.range raw.length).map (derivedAt (derived.getD [])) := by
    refine List.ext_getElem? fun index => ?_
    by_cases hindex : index < raw.length
    · rw [getElem?_byIndex hindex, List.getElem?_map, List.getElem?_range hindex]
      rfl
    · rw [List.getElem?_eq_none (by rw [length_byIndex]; exact not_lt.mp hindex),
        List.getElem?_eq_none (by rw [List.length_map, List.length_range]; exact not_lt.mp hindex)]
  have hzip : raw.zip (byIndex raw.length (derived.getD []))
      = raw.zipIdx.map fun (frame, index) => (frame, derivedAt (derived.getD []) index) := by
    rw [hslots, List.zip_map_right, List.zipIdx_eq_zip_range', List.range_eq_range']
    rfl
  have hidentity : ∀ entry : NormalizedFrame × Nat, frameIdentity (derived.getD []) entry
      = rawIdentity (((derivedAt (derived.getD []) entry.2).map standIn).getD entry.1) := by
    intro entry
    rw [frameIdentity]
    cases derivedAt (derived.getD []) entry.2 with
    | none => rfl
    | some frame => exact (rawIdentity_standIn frame).symm
  rw [significantFrames_none, overlayTrace, hzip, List.map_map, List.filterMap_map, significantFrames,
    List.filterMap_reverse]
  exact congrArg (fun identity => (raw.zipIdx.filterMap identity).reverse.take maxGroupingFrames) (funext hidentity)

theorem not_hasAddress_overlayTrace {raw : List NormalizedFrame} {derived : Option (List SymbolicatedFrame)}
    (h : ∀ frame ∈ raw, ¬ NormalizedFrame.HasAddress frame) :
    ∀ frame ∈ overlayTrace raw derived, ¬ NormalizedFrame.HasAddress frame := by
  intro frame hframe
  obtain ⟨⟨original, slot⟩, hentry, rfl⟩ := List.mem_map.mp hframe
  cases slot with
  | none => exact h original (List.of_mem_zip hentry).1
  | some derived =>
      rintro (haddress | haddress)
      · cases haddress
      · cases haddress

theorem noAddresses_overlayBody {body : NormalizedEventBody} (h : NoAddresses body)
    (symbolication : Option SymbolicationResult) : NoAddresses (overlayBody body symbolication) := by
  intro frame hframe
  obtain hframe | hframe := List.mem_append.mp hframe
  · obtain ⟨exception, hexception, hframe⟩ := List.mem_flatMap.mp hframe
    obtain ⟨⟨original, index⟩, hentry, rfl⟩ := List.mem_map.mp hexception
    refine not_hasAddress_overlayTrace (fun other hother => h other (List.mem_append_left _ ?_)) frame hframe
    exact List.mem_flatMap.mpr ⟨original, List.fst_mem_of_mem_zipIdx hentry, hother⟩
  · exact not_hasAddress_overlayTrace (fun other hother => h other (List.mem_append_right _ hother)) frame hframe

/-- Symbolicated frames stand in for the raw frames they came from. -/
theorem exceptionStack_overlay {body : NormalizedEventBody} (h : NoAddresses body)
    (symbolication : Option SymbolicationResult) :
    exceptionStack body symbolication = exceptionStack (overlayBody body symbolication) none := by
  have hframes : exceptionFrames body symbolication = exceptionFrames (overlayBody body symbolication) none := by
    have hmap : (body.exceptions.zipIdx.map fun exception =>
          significantFrames exception.1.stacktrace (derivedFrames symbolication (.exception exception.2)))
        = (overlayBody body symbolication).exceptions.zipIdx.map fun exception =>
          significantFrames exception.1.stacktrace (derivedFrames none (.exception exception.2)) := by
      refine List.ext_getElem? fun index => ?_
      simp only [overlayBody, List.getElem?_map, List.getElem?_zipIdx, Option.map_map]
      refine congrArg (Option.map · _) (funext fun exception => ?_)
      simp only [Function.comp_apply, significantFrames_overlay exception.stacktrace (derivedFrames symbolication _)]
      rfl
    rw [exceptionFrames_eq, exceptionFrames_eq, hmap, significantFrames_overlay]
    rfl
  have htypes : exceptionTypes (overlayBody body symbolication) = exceptionTypes body := by
    refine exceptionTypes_eq ?_
    rw [overlayBody, List.map_map]
    exact (congrArg (List.map (·.ty)) (List.zipIdx_map_fst 0 body.exceptions)).symm.trans List.map_map
  rw [exceptionStack, exceptionStack, selectedFrames_of_noAddresses h,
    selectedFrames_of_noAddresses (noAddresses_overlayBody h symbolication), hframes, htypes]

def namedFrame (function : Option Text) (instructionAddress : Option Text) (inApp : Option Bool) : NormalizedFrame where
  filename := none
  absolutePath := none
  function := function
  module := none
  package := none
  instructionAddress := instructionAddress
  symbolAddress := none
  line := none
  column := none
  inApp := inApp
  contextLine := none
  preContext := []
  postContext := []
  vars := []
  unknown := []

def traceBody (frames : List NormalizedFrame) : NormalizedEventBody where
  occurredAt := ⟨0, by decide⟩
  platform := .python
  level := .error
  logger := none
  message := none
  transaction := none
  release := none
  dist := none
  environment := none
  fingerprint := []
  exceptions := []
  stacktrace := frames
  tags := []
  request := none
  user := none
  contexts := []
  breadcrumbs := []
  unknown := []

def mainFrame : NormalizedFrame := namedFrame (some "main".toList) none (some true)

theorem noAddresses_mainFrame : NoAddresses (traceBody [mainFrame]) := by
  intro frame hframe
  rw [List.mem_singleton.mp hframe]
  rintro (haddress | haddress) <;> cases haddress

/-- A frame of a library keeps the strategy from selecting anything when it comes with an address. -/
theorem exceptionStack_addressed : ¬ ∀ body inserted : NormalizedEventBody, NoAddresses body →
    BodyInserted body inserted → exceptionStack inserted none = exceptionStack body none := by
  intro h
  have hsame := h (traceBody [mainFrame])
    (traceBody [mainFrame, namedFrame none (some "0x10".toList) (some false)]) noAddresses_mainFrame
    ⟨.nil, .padded (.keep _ (.insert (.inl rfl) .nil))⟩
  exact absurd hsame (by decide)

/-- Exception grouping ignores frames that are not significant, and takes symbolicated frames for the raw frames that
they came from. -/
theorem insignificant_frames_ignored :
    (∀ body inserted : NormalizedEventBody, NoAddresses body → NoAddresses inserted → BodyInserted body inserted →
      exceptionStack inserted none = exceptionStack body none)
    ∧ (∀ (body : NormalizedEventBody) (symbolication : Option SymbolicationResult), NoAddresses body →
      exceptionStack body symbolication = exceptionStack (overlayBody body symbolication) none)
    ∧ ∀ frame : SymbolicatedFrame, rawIdentity (standIn frame) = derivedIdentity frame :=
  ⟨fun _ _ hbody hinserted h => h.exceptionStack_eq hbody hinserted, fun _ symbolication h =>
    exceptionStack_overlay h symbolication, rawIdentity_standIn⟩

theorem insignificant_frames_ignored_main :
    exceptionStack (traceBody [namedFrame (some "start".toList) none (some false), mainFrame, namedFrame none none none]) none
      = exceptionStack (traceBody [mainFrame]) none := by
  refine insignificant_frames_ignored.1 _ _ noAddresses_mainFrame (fun frame hframe => ?_)
    ⟨.nil, .padded (.insert (.inl rfl) (.keep _ (.insert (.inr ⟨rfl, rfl, rfl, rfl⟩) .nil)))⟩
  rintro (haddress | haddress)
  · obtain rfl | rfl | rfl := List.mem_cons.mp hframe |>.imp id fun h => (List.mem_cons.mp h).imp id List.mem_singleton.mp
    all_goals cases haddress
  · obtain rfl | rfl | rfl := List.mem_cons.mp hframe |>.imp id fun h => (List.mem_cons.mp h).imp id List.mem_singleton.mp
    all_goals cases haddress

end EventGrouping

end MetricBackend
