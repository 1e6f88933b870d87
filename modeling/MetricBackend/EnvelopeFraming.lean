import Mathlib.Data.List.Forall2
import MetricBackend.SentryProtocol

/-! The envelope parser against lists of items. A body that parses is tiled by its items, and each item
goes to exactly one lane. A rendered list of items is read back as that list. -/

namespace MetricBackend

namespace SentryProtocol

/-! ### What an item becomes -/

inductive Lane where
  | primary (event : RawEvent)
  | signal (signal : RawSignal)
  | metric (container : RawMetricContainer)
  | replayEvent (bytes : Bytes)
  | replayRecording (bytes : Bytes)
  | checkIn (checkIn : RawCheckIn)
  | attachment (attachment : RawAttachment)
  | discarded (item : DiscardedItem)
  | clientReport (quantity : Nat)
deriving DecidableEq

namespace Lane

def primary? : Lane → Option RawEvent
  | .primary event => some event
  | _ => none

def signal? : Lane → Option RawSignal
  | .signal value => some value
  | _ => none

def metric? : Lane → Option RawMetricContainer
  | .metric container => some container
  | _ => none

def replayEvent? : Lane → Option Bytes
  | .replayEvent bytes => some bytes
  | _ => none

def replayRecording? : Lane → Option Bytes
  | .replayRecording bytes => some bytes
  | _ => none

def checkIn? : Lane → Option RawCheckIn
  | .checkIn value => some value
  | _ => none

def attachment? : Lane → Option RawAttachment
  | .attachment value => some value
  | _ => none

def discarded? : Lane → Option DiscardedItem
  | .discarded item => some item
  | _ => none

def clientReport? : Lane → Option Nat
  | .clientReport quantity => some quantity
  | _ => none

/-- The payload that the lane keeps. Discarded items and client reports keep none. -/
def payload? : Lane → Option Bytes
  | .primary event => some event.bytes
  | .signal value => some value.bytes
  | .metric container => some container.bytes
  | .replayEvent bytes => some bytes
  | .replayRecording bytes => some bytes
  | .checkIn value => some value.bytes
  | .attachment value => some value.bytes
  | .discarded _ | .clientReport _ => none

/-- The size limit of the lane. -/
def within (limits : EnvelopeLimits) (attachmentLimits : AttachmentLimits) : Lane → Bool
  | .primary event => event.bytes.length ≤ limits.maxEventBytes
  | .signal value => value.bytes.length ≤ limits.maxEventBytes
  | .metric container => container.bytes.length ≤ limits.maxEventBytes
  | .replayEvent bytes => bytes.length ≤ limits.maxEventBytes
  | .replayRecording bytes => bytes.length ≤ limits.maxReplayBytes
  | .checkIn value => value.bytes.length ≤ limits.maxEventBytes
  | .attachment value => value.bytes.length ≤ attachmentLimits.maxItemBytes
  | .discarded _ | .clientReport _ => true

end Lane

variable (decoders : Decoders) (limits : EnvelopeLimits) (attachmentLimits : AttachmentLimits)

/-- The lane and the value of an item, by its kind. Nothing when its own data is refused. -/
def laneOf (position : Nat) (header : WireItemHeader) (payload : Bytes) : Option Lane :=
  match classifyItem (header.kind.getD "event".toList) with
  | .event => (parseOptionalEventId header.eventId).toOption.map fun id => .primary ⟨id, payload⟩
  | .clientReport => (parseClientReport decoders payload).toOption.map .clientReport
  | .attachment =>
      if attachmentLimits.maxCount = 0 then
        some (.discarded ⟨some .attachment, "attachment_policy_disabled"⟩)
      else (rawAttachment position header payload).toOption.map .attachment
  | .signal kind => some (.signal ⟨kind, payload⟩)
  | .metric =>
      if header.contentType = some metricContentType then
        ((header.itemCount.map BitVec.toNat).filter (0 < ·)).map fun count => .metric ⟨count, payload⟩
      else none
  | .replayEvent => some (.replayEvent payload)
  | .replayRecording => some (.replayRecording payload)
  | .checkIn => some (.checkIn ⟨payload⟩)
  | .disabled category => some (.discarded ⟨some category, "feature_disabled"⟩)
  | .unknown => some (.discarded ⟨none, "unknown_item_type"⟩)

def attachedBytes (list : List Lane) : Nat :=
  ((list.filterMap Lane.attachment?).map fun attachment => attachment.bytes.length).sum

/-- Every lane holds its items in order. -/
def Lanes.ofList (list : List Lane) : Lanes where
  primary := (list.filterMap Lane.primary?).head?
  signals := list.filterMap Lane.signal?
  metrics := list.filterMap Lane.metric?
  replayEvents := list.filterMap Lane.replayEvent?
  replayRecordings := list.filterMap Lane.replayRecording?
  checkIns := list.filterMap Lane.checkIn?
  attachments := list.filterMap Lane.attachment?
  attachmentBytes := attachedBytes list
  discarded := list.filterMap Lane.discarded?
  clientReportQuantity := (list.filterMap Lane.clientReport?).foldl saturatingAdd 0

/-- The limits on a list of items: their number, their sizes, one primary event, and the number and
total size of the attachments. -/
structure Fits (list : List Lane) : Prop where
  items : list.length ≤ limits.maxItems
  sized : ∀ lane ∈ list, lane.within limits attachmentLimits = true
  single : (list.filterMap Lane.primary?).length ≤ 1
  attachments : (list.filterMap Lane.attachment?).length ≤ attachmentLimits.maxCount
  total : attachedBytes list ≤ min attachmentLimits.maxTotalBytes u64Max

variable {limits attachmentLimits}

theorem fits_nil : Fits limits attachmentLimits [] :=
  ⟨Nat.zero_le _, by simp, Nat.zero_le _, Nat.zero_le _, Nat.zero_le _⟩

theorem attachedBytes_append (left right : List Lane) :
    attachedBytes (left ++ right) = attachedBytes left + attachedBytes right := by
  rw [attachedBytes, List.filterMap_append, List.map_append, List.sum_append]
  rfl

theorem Fits.of_append {left right : List Lane} (h : Fits limits attachmentLimits (left ++ right)) :
    Fits limits attachmentLimits left := by
  obtain ⟨hitems, hsized, hsingle, hattachments, htotal⟩ := h
  rw [List.length_append] at hitems
  rw [List.filterMap_append, List.length_append] at hsingle hattachments
  rw [attachedBytes_append] at htotal
  refine ⟨by omega, fun lane hlane => ?_, by omega, by omega, by omega⟩
  exact hsized lane (List.mem_append_left _ hlane)

/-- What a further item has to meet. -/
theorem fits_snoc_iff {list : List Lane} {lane : Lane} (hfits : Fits limits attachmentLimits list)
    (hitems : list.length + 1 ≤ limits.maxItems) :
    Fits limits attachmentLimits (list ++ [lane]) ↔
      lane.within limits attachmentLimits = true
        ∧ (lane.primary?.isSome = true → list.filterMap Lane.primary? = [])
        ∧ ∀ attachment, lane.attachment? = some attachment →
          (list.filterMap Lane.attachment?).length + 1 ≤ attachmentLimits.maxCount
            ∧ attachedBytes list + attachment.bytes.length
              ≤ min attachmentLimits.maxTotalBytes u64Max := by
  constructor
  · rintro ⟨-, hsized, hsingle, hattachments, htotal⟩
    refine ⟨hsized lane (by simp), fun hprimary => ?_, fun attachment hattachment => ?_⟩
    · obtain ⟨event, hevent⟩ := Option.isSome_iff_exists.mp hprimary
      rw [List.filterMap_append, List.length_append] at hsingle
      simp only [List.filterMap_cons, hevent, List.filterMap_nil, List.length_singleton] at hsingle
      exact List.eq_nil_of_length_eq_zero (by omega)
    · rw [List.filterMap_append, List.length_append] at hattachments
      rw [attachedBytes_append] at htotal
      simp only [attachedBytes, List.filterMap_cons, hattachment, List.filterMap_nil,
        List.length_singleton, List.map_cons, List.map_nil, List.sum_cons, List.sum_nil] at hattachments htotal
      exact ⟨hattachments, htotal⟩
  · rintro ⟨hwithin, hprimary, hattachment⟩
    obtain ⟨-, hsized, hsingle, hattachments, htotal⟩ := hfits
    refine ⟨by simpa using hitems, ?_, ?_, ?_, ?_⟩
    · intro other hother
      rcases List.mem_append.mp hother with hother | hother
      · exact hsized other hother
      · rw [List.mem_singleton.mp hother]
        exact hwithin
    · rw [List.filterMap_append, List.length_append]
      cases hevent : lane.primary? with
      | none => simpa [hevent] using hsingle
      | some event =>
          rw [hprimary (by rw [hevent]; rfl)]
          simp [hevent]
    · rw [List.filterMap_append, List.length_append]
      cases hcase : lane.attachment? with
      | none => simpa [hcase] using hattachments
      | some attachment =>
          simp only [List.filterMap_cons, hcase, List.filterMap_nil, List.length_singleton]
          exact (hattachment attachment hcase).1
    · rw [attachedBytes_append]
      cases hcase : lane.attachment? with
      | none => simpa [attachedBytes, hcase] using htotal
      | some attachment =>
          have hlast : attachedBytes [lane] = attachment.bytes.length := by
            simp [attachedBytes, hcase]
          rw [hlast]
          exact (hattachment attachment hcase).2

/-! ### One pass of the loop -/

theorem toOption_eq_some {ε α : Type} {x : Except ε α} {value : α} :
    x.toOption = some value ↔ x = .ok value := by
  cases x with
  | error error => simp [Except.toOption]
  | ok other => simp [Except.toOption]

theorem orInvalid_eq_ok {α : Type} {code : String} {x : Option α} {value : α} :
    orInvalid code x = .ok value ↔ x = some value := by
  cases x with
  | none => simp [orInvalid]
  | some other => simp [orInvalid]

theorem isSome_head?_iff {α : Type} {list : List α} : list.head?.isSome = true ↔ list ≠ [] := by
  cases list with
  | nil => simp
  | cons head rest => simp

/-- The lanes with one more item. -/
def Lanes.push (lanes : Lanes) : Lane → Lanes
  | .primary event => { lanes with primary := lanes.primary.or (some event) }
  | .signal value => { lanes with signals := lanes.signals ++ [value] }
  | .metric container => { lanes with metrics := lanes.metrics ++ [container] }
  | .replayEvent bytes => { lanes with replayEvents := lanes.replayEvents ++ [bytes] }
  | .replayRecording bytes => { lanes with replayRecordings := lanes.replayRecordings ++ [bytes] }
  | .checkIn value => { lanes with checkIns := lanes.checkIns ++ [value] }
  | .attachment value =>
      { lanes with
        attachments := lanes.attachments ++ [value]
        attachmentBytes := lanes.attachmentBytes + value.bytes.length }
  | .discarded item => { lanes with discarded := lanes.discarded ++ [item] }
  | .clientReport quantity =>
      { lanes with clientReportQuantity := saturatingAdd lanes.clientReportQuantity quantity }

theorem ofList_snoc (list : List Lane) (lane : Lane) :
    Lanes.ofList (list ++ [lane]) = (Lanes.ofList list).push lane := by
  cases lane <;>
    simp [Lanes.ofList, Lanes.push, attachedBytes, List.filterMap_cons, Lane.primary?, Lane.signal?,
      Lane.metric?, Lane.replayEvent?, Lane.replayRecording?, Lane.checkIn?, Lane.attachment?,
      Lane.discarded?, Lane.clientReport?]

theorem ofList_primary {list : List Lane} (hempty : list.filterMap Lane.primary? = []) (event : RawEvent) :
    Lanes.ofList (list ++ [.primary event]) = { Lanes.ofList list with primary := some event } := by
  have hprimary : (Lanes.ofList list).primary = none := by
    simp [Lanes.ofList, hempty]
  rw [ofList_snoc, Lanes.push, hprimary]
  rfl

theorem rawAttachment_bytes {position : Nat} {header : WireItemHeader} {payload : Bytes}
    {attachment : RawAttachment} (h : rawAttachment position header payload = .ok attachment) :
    attachment.bytes = payload := by
  simp only [rawAttachment, bind_eq_ok, pure_eq_ok] at h
  obtain ⟨⟨⟩, -, filename, -, contentType, -, attachmentType, -, rfl⟩ := h
  rfl

variable {decoders} {header : WireItemHeader} {payload : Bytes} {list : List Lane} {next : Lanes}

/-- The arms of the match that only bound the size of the payload. -/
theorem sized_eq_ok {bound : Nat} {code : String} {lanes : Lanes} {lane : Lane}
    (hwithin : lane.within limits attachmentLimits = true ↔ ¬ bound < payload.length)
    (hprimary : lane.primary? = none) (hattachment : lane.attachment? = none)
    (hlanes : lanes = .ofList (list ++ [lane])) :
    (do failIf (bound < payload.length) (ProtocolError.ofTooLarge code); return lanes) = .ok next
      ↔ ∃ value, some lane = some value ∧ (value.within limits attachmentLimits = true
          ∧ (value.primary?.isSome = true → list.filterMap Lane.primary? = [])
          ∧ ∀ attachment, value.attachment? = some attachment →
            (list.filterMap Lane.attachment?).length + 1 ≤ attachmentLimits.maxCount
              ∧ attachedBytes list + attachment.bytes.length
                ≤ min attachmentLimits.maxTotalBytes u64Max)
        ∧ next = .ofList (list ++ [value]) := by
  simp only [bind_eq_ok, failIf_eq_ok, pure_eq_ok, Option.some.injEq]
  constructor
  · rintro ⟨⟨⟩, hsize, rfl⟩
    refine ⟨lane, rfl, ⟨hwithin.mpr hsize, ?_, ?_⟩, hlanes⟩
    · rw [hprimary]
      exact fun h => absurd h (by simp)
    · rw [hattachment]
      exact fun _ h => absurd h (by simp)
  · rintro ⟨_, rfl, ⟨hsize, -, -⟩, rfl⟩
    exact ⟨(), hwithin.mp hsize, hlanes⟩

theorem unsized_eq_ok {lanes : Lanes} {item : DiscardedItem}
    (hlanes : lanes = (Lanes.ofList list).push (.discarded item)) :
    (return lanes : Except ProtocolError Lanes) = .ok next
      ↔ ∃ value, some (Lane.discarded item) = some value ∧ (value.within limits attachmentLimits = true
          ∧ (value.primary?.isSome = true → list.filterMap Lane.primary? = [])
          ∧ ∀ attachment, value.attachment? = some attachment →
            (list.filterMap Lane.attachment?).length + 1 ≤ attachmentLimits.maxCount
              ∧ attachedBytes list + attachment.bytes.length
                ≤ min attachmentLimits.maxTotalBytes u64Max)
        ∧ next = .ofList (list ++ [value]) := by
  rw [pure_eq_ok]
  constructor
  · rintro rfl
    refine ⟨_, rfl, ⟨rfl, fun h => absurd h (by simp [Lane.primary?]),
      fun _ h => absurd h (by simp [Lane.attachment?])⟩, ?_⟩
    rw [ofList_snoc, hlanes]
  · rintro ⟨_, ⟨⟩, -, rfl⟩
    rw [ofList_snoc, hlanes]

theorem consume_eq_ok (hfits : Fits limits attachmentLimits list)
    (hitems : list.length + 1 ≤ limits.maxItems) :
    consume decoders limits attachmentLimits (.ofList list) (list.length + 1) header payload = .ok next
      ↔ ∃ lane, laneOf decoders attachmentLimits (list.length + 1) header payload = some lane
        ∧ Fits limits attachmentLimits (list ++ [lane]) ∧ next = .ofList (list ++ [lane]) := by
  simp only [fits_snoc_iff hfits hitems]
  unfold consume laneOf
  cases hclass : classifyItem (header.kind.getD "event".toList) with
  | event =>
      simp only [bind_eq_ok, failIf_eq_ok, pure_eq_ok, Option.map_eq_some_iff, toOption_eq_some]
      constructor
      · rintro ⟨⟨⟩, hsize, ⟨⟩, hnone, headerEventId, hid, rfl⟩
        have hempty : list.filterMap Lane.primary? = [] := by
          by_contra hne
          exact hnone (isSome_head?_iff.mpr hne)
        refine ⟨_, ⟨headerEventId, hid, rfl⟩, ⟨by simpa [Lane.within] using hsize, fun _ => hempty, ?_⟩, ?_⟩
        · exact fun _ h => absurd h (by simp [Lane.attachment?])
        · exact (ofList_primary hempty _).symm
      · rintro ⟨_, ⟨headerEventId, hid, rfl⟩, ⟨hsize, hempty, -⟩, rfl⟩
        have hnil := hempty rfl
        refine ⟨(), by simpa [Lane.within] using hsize, (), ?_, headerEventId, hid, ?_⟩
        · simp [Lanes.ofList, hnil]
        · exact (ofList_primary hnil _).symm
  | clientReport =>
      simp only [bind_eq_ok, pure_eq_ok, Option.map_eq_some_iff, toOption_eq_some]
      constructor
      · rintro ⟨quantity, hquantity, rfl⟩
        exact ⟨_, ⟨quantity, hquantity, rfl⟩, ⟨rfl, fun h => absurd h (by simp [Lane.primary?]),
          fun _ h => absurd h (by simp [Lane.attachment?])⟩, (ofList_snoc list (.clientReport quantity)).symm⟩
      · rintro ⟨_, ⟨quantity, hquantity, rfl⟩, -, rfl⟩
        exact ⟨quantity, hquantity, (ofList_snoc list (.clientReport quantity)).symm⟩
  | attachment =>
      by_cases hcount : attachmentLimits.maxCount = 0
      · simp only [if_pos hcount]
        exact unsized_eq_ok rfl
      simp only [if_neg hcount, bind_eq_ok, failIf_eq_ok, pure_eq_ok, Option.map_eq_some_iff,
        toOption_eq_some]
      constructor
      · rintro ⟨⟨⟩, hfull, ⟨⟩, hsize, ⟨⟩, hoverflow, ⟨⟩, htotal, attachment, hattachment, rfl⟩
        have hbytes := rawAttachment_bytes hattachment
        refine ⟨_, ⟨attachment, hattachment, rfl⟩, ⟨?_, fun h => absurd h (by simp [Lane.primary?]), ?_⟩, ?_⟩
        · simpa [Lane.within, hbytes] using hsize
        · intro other hother
          cases hother
          rw [hbytes]
          simp only [Lanes.ofList] at hfull hoverflow htotal
          omega
        · rw [ofList_snoc]
          simp only [Lanes.push, hbytes]
      · rintro ⟨_, ⟨attachment, hattachment, rfl⟩, ⟨hsize, -, hroom⟩, rfl⟩
        have hbytes := rawAttachment_bytes hattachment
        obtain ⟨hfull, htotal⟩ := hroom attachment rfl
        rw [hbytes] at htotal
        simp only [Lane.within, hbytes, decide_eq_true_eq] at hsize
        simp only [Lanes.ofList]
        refine ⟨(), by omega, (), by omega, (), by omega, (), by omega, attachment, hattachment, ?_⟩
        rw [← Lanes.ofList, ofList_snoc]
        simp only [Lanes.push, hbytes]
        rfl
  | metric =>
      simp only [bind_eq_ok, failIf_eq_ok, pure_eq_ok, orInvalid_eq_ok, not_not]
      constructor
      · rintro ⟨⟨⟩, hsize, ⟨⟩, htype, count, hcount, rfl⟩
        refine ⟨.metric ⟨count, payload⟩, ?_, ⟨by simpa [Lane.within] using hsize,
          fun h => absurd h (by simp [Lane.primary?]), fun _ h => absurd h (by simp [Lane.attachment?])⟩,
          (ofList_snoc list (.metric ⟨count, payload⟩)).symm⟩
        rw [if_pos htype, hcount]
        rfl
      · rintro ⟨lane, hlane, ⟨hsize, -, -⟩, rfl⟩
        split_ifs at hlane with htype
        obtain ⟨count, hcount, rfl⟩ := Option.map_eq_some_iff.mp hlane
        exact ⟨(), by simpa [Lane.within] using hsize, (), htype, count, hcount,
          (ofList_snoc list (.metric ⟨count, payload⟩)).symm⟩
  | signal kind =>
      exact sized_eq_ok (by simp [Lane.within]) rfl rfl (ofList_snoc list (.signal ⟨kind, payload⟩)).symm
  | replayEvent =>
      exact sized_eq_ok (by simp [Lane.within]) rfl rfl (ofList_snoc list (.replayEvent payload)).symm
  | replayRecording =>
      exact sized_eq_ok (by simp [Lane.within]) rfl rfl (ofList_snoc list (.replayRecording payload)).symm
  | checkIn =>
      exact sized_eq_ok (by simp [Lane.within]) rfl rfl (ofList_snoc list (.checkIn ⟨payload⟩)).symm
  | disabled category => exact unsized_eq_ok rfl
  | unknown => exact unsized_eq_ok rfl

/-! ### The bounds of an item -/

variable {body : Bytes} {start stop cursor : Nat} {frame : Frame}

theorem lineAt_bounds {line : Bytes} (h : lineAt body start = .ok (line, stop)) :
    start < stop ∧ stop ≤ body.length := by
  simp only [lineAt, bind_eq_ok, failIf_eq_ok, orInvalid_eq_ok, pure_eq_ok] at h
  obtain ⟨⟨⟩, hstart, position, hposition, ⟨⟩, -, hline⟩ := h
  cases hline
  obtain ⟨hlength, -⟩ := List.findIdx?_eq_some_iff_findIdx_eq.mp hposition
  rw [List.length_drop] at hlength
  omega

theorem declaredPayload_bounds {length payloadEnd next : Nat}
    (h : declaredPayload body start length = .ok (payloadEnd, next)) :
    start ≤ payloadEnd ∧ payloadEnd ≤ next ∧ next ≤ body.length := by
  simp only [declaredPayload, bind_eq_ok, failIf_eq_ok] at h
  obtain ⟨⟨⟩, -, ⟨⟩, hstop, h⟩ := h
  cases hbyte : body[start + length]? with
  | none =>
      rw [hbyte] at h
      cases h
      omega
  | some byte =>
      rw [hbyte] at h
      simp only [bind_eq_ok, failIf_eq_ok, pure_eq_ok] at h
      obtain ⟨⟨⟩, -, hresult⟩ := h
      cases hresult
      obtain ⟨hlength, -⟩ := List.getElem?_eq_some_iff.mp hbyte
      omega

theorem lengthlessPayload_bounds {maxBytes payloadEnd next : Nat}
    (h : lengthlessPayload body start maxBytes = .ok (payloadEnd, next)) :
    start ≤ payloadEnd ∧ payloadEnd ≤ next ∧ next ≤ body.length := by
  simp only [lengthlessPayload, bind_eq_ok, failIf_eq_ok] at h
  obtain ⟨⟨⟩, hstart, h⟩ := h
  split at h
  case h_1 position hposition =>
    cases h
    obtain ⟨hlength, -⟩ := List.findIdx?_eq_some_iff_findIdx_eq.mp hposition
    rw [List.length_take, List.length_drop] at hlength
    omega
  case h_2 =>
    simp only [bind_eq_ok, failIf_eq_ok, pure_eq_ok] at h
    obtain ⟨⟨⟩, -, hresult⟩ := h
    cases hresult
    omega

theorem frameAt_bounds (h : frameAt decoders limits body cursor = .ok frame) :
    frame.start = cursor ∧ cursor < frame.payloadStart ∧ frame.payloadStart ≤ frame.payloadEnd
      ∧ frame.payloadEnd ≤ frame.next ∧ frame.next ≤ body.length := by
  simp only [frameAt, bind_eq_ok, orInvalid_eq_ok, pure_eq_ok] at h
  obtain ⟨⟨headerBytes, payloadStart⟩, hline, header, -, ⟨payloadEnd, next⟩, hpayload, rfl⟩ := h
  obtain ⟨hstart, -⟩ := lineAt_bounds hline
  have hbounds : payloadStart ≤ payloadEnd ∧ payloadEnd ≤ next ∧ next ≤ body.length := by
    cases hlength : header.length with
    | none =>
        rw [hlength] at hpayload
        exact lengthlessPayload_bounds hpayload
    | some length =>
        rw [hlength] at hpayload
        exact declaredPayload_bounds hpayload
  exact ⟨rfl, hstart, hbounds⟩

/-! ### The item loop -/

variable (decoders limits attachmentLimits body)

/-- The items that the loop finds from a position on. -/
inductive Framed : Nat → List Frame → Prop
  | done (cursor : Nat) (hcursor : body.length ≤ cursor) : Framed cursor []
  | item (cursor : Nat) (frame : Frame) (frames : List Frame) (hcursor : cursor < body.length)
      (hframe : frameAt decoders limits body cursor = .ok frame) (hrest : Framed frame.next frames) :
      Framed cursor (frame :: frames)

/-- Every item, at its position, and the lane it goes to. -/
def Laned (position : Nat) (frames : List Frame) (list : List Lane) : Prop :=
  List.Forall₂ (fun (entry : Frame × Nat) lane =>
    laneOf decoders attachmentLimits entry.2 entry.1.header (entry.1.payload body) = some lane)
    (frames.zipIdx position) list

variable {limits attachmentLimits}

theorem framed_end {result : Lanes} {done : List Lane} (hfits : Fits limits attachmentLimits done)
    (hcursor : body.length ≤ cursor) :
    (.ok (.ofList done) : Except ProtocolError Lanes) = .ok result
      ↔ ∃ frames list, Framed decoders limits body cursor frames
        ∧ Laned decoders attachmentLimits body (done.length + 1) frames list
        ∧ Fits limits attachmentLimits (done ++ list) ∧ result = .ofList (done ++ list) := by
  constructor
  · intro h
    cases h
    exact ⟨[], [], .done cursor hcursor, .nil, by simpa using hfits, by simp⟩
  · rintro ⟨frames, list, hframed, hlaned, -, rfl⟩
    cases hframed with
    | done =>
        cases hlaned
        simp
    | item _ frame frames hlt => omega

/-- The loop succeeds exactly when the body is framed, every item has its lane and the limits hold. -/
theorem parseItems_eq_ok {result : Lanes} (passes cursor : Nat) (done : List Lane)
    (hpasses : body.length - cursor ≤ passes) (hfits : Fits limits attachmentLimits done) :
    parseItems decoders limits attachmentLimits body passes cursor done.length (.ofList done) = .ok result
      ↔ ∃ frames list, Framed decoders limits body cursor frames
        ∧ Laned decoders attachmentLimits body (done.length + 1) frames list
        ∧ Fits limits attachmentLimits (done ++ list) ∧ result = .ofList (done ++ list) := by
  induction passes generalizing cursor done with
  | zero =>
      rw [parseItems]
      exact framed_end decoders body hfits (by omega)
  | succ passes ih =>
      rw [parseItems]
      by_cases hcursor : cursor < body.length
      · rw [if_pos hcursor]
        simp only [bind_eq_ok, failIf_eq_ok]
        constructor
        · rintro ⟨⟨⟩, hitems, frame, hframe, next, hconsume, hrest⟩
          have hbounds := frameAt_bounds hframe
          obtain ⟨lane, hlane, hlanes, rfl⟩ := (consume_eq_ok hfits (by omega)).mp hconsume
          have hlength : (done ++ [lane]).length = done.length + 1 := by simp
          rw [← hlength] at hrest
          obtain ⟨frames, list, hframed, hlaned, hall, rfl⟩ :=
            (ih frame.next (done ++ [lane]) (by omega) hlanes).mp hrest
          rw [List.append_assoc, List.singleton_append] at hall ⊢
          refine ⟨frame :: frames, lane :: list, .item cursor frame frames hcursor hframe hframed, ?_, hall, rfl⟩
          rw [Laned, List.zipIdx_cons]
          rw [hlength] at hlaned
          exact .cons hlane hlaned
        · rintro ⟨frames, list, hframed, hlaned, hall, rfl⟩
          cases hframed with
          | done => omega
          | item _ frame frames _ hframe hframed =>
              rw [Laned, List.zipIdx_cons] at hlaned
              cases hlaned with
              | @cons _ lane _ list hlane hlaned =>
                  have happend : done ++ lane :: list = (done ++ [lane]) ++ list := by simp
                  have hlength : (done ++ [lane]).length = done.length + 1 := by simp
                  have hbounds := frameAt_bounds hframe
                  rw [happend] at hall
                  have hlanes := hall.of_append
                  have hitems := hlanes.items
                  rw [hlength] at hitems
                  refine ⟨(), by omega, frame, hframe, _,
                    (consume_eq_ok hfits hitems).mpr ⟨lane, hlane, hlanes, rfl⟩, ?_⟩
                  rw [← hlength]
                  refine (ih frame.next (done ++ [lane]) (by omega) hlanes).mpr 
                    ⟨frames, list, hframed, ?_, hall, by rw [happend]⟩
                  rw [hlength]
                  exact hlaned
      · rw [if_neg hcursor]
        exact framed_end decoders body hfits (by omega)

/-! ### Whole envelopes -/

/-- The checks after the loop: something besides attachments was read, and replay events and recordings
come in equal numbers. -/
structure Complete (list : List Lane) : Prop where
  content : (Lanes.ofList list).isEmpty = false
  paired : (list.filterMap Lane.replayEvent?).length = (list.filterMap Lane.replayRecording?).length

/-- The envelope whose lanes hold the items in order. -/
def assemble (eventId : Option EventId) (dsn : Option DsnAuth) (list : List Lane) : ParsedEnvelope where
  eventId := eventId
  dsn := dsn
  primary := (list.filterMap Lane.primary?).head?
  signals := list.filterMap Lane.signal?
  metrics := list.filterMap Lane.metric?
  replays := (list.filterMap Lane.replayEvent?).zipWith RawReplay.mk (list.filterMap Lane.replayRecording?)
  checkIns := list.filterMap Lane.checkIn?
  attachments := list.filterMap Lane.attachment?
  discarded := list.filterMap Lane.discarded?
  clientReportQuantity := (list.filterMap Lane.clientReport?).foldl saturatingAdd 0

theorem finishEnvelope_eq_ok {eventId : Option EventId} {dsn : Option DsnAuth} {list : List Lane}
    {envelope : ParsedEnvelope} :
    finishEnvelope eventId dsn (.ofList list) = .ok envelope
      ↔ Complete list ∧ envelope = assemble eventId dsn list := by
  simp only [finishEnvelope, bind_eq_ok, failIf_eq_ok, pure_eq_ok, Bool.not_eq_true, not_not]
  constructor
  · rintro ⟨⟨⟩, hcontent, ⟨⟩, hpaired, rfl⟩
    exact ⟨⟨hcontent, hpaired⟩, rfl⟩
  · rintro ⟨⟨hcontent, hpaired⟩, rfl⟩
    exact ⟨(), hcontent, (), hpaired, rfl⟩

theorem parseEnvelope_eq_ok {envelope : ParsedEnvelope} :
    parseEnvelopeWithAttachments decoders limits attachmentLimits body = .ok envelope
      ↔ ∃ headerBytes start header eventId dsn frames list,
        lineAt body 0 = .ok (headerBytes, start)
        ∧ decoders.envelopeHeader headerBytes = some header
        ∧ parseOptionalEventId header.eventId = .ok eventId
        ∧ parseOptionalDsn decoders header.dsn = .ok dsn
        ∧ Framed decoders limits body start frames
        ∧ Laned decoders attachmentLimits body 1 frames list
        ∧ Fits limits attachmentLimits list ∧ Complete list
        ∧ envelope = assemble eventId dsn list := by
  have hloop : ∀ (start : Nat) (lanes : Lanes),
      parseItems decoders limits attachmentLimits body body.length start 0 .empty = .ok lanes
        ↔ ∃ frames list, Framed decoders limits body start frames
          ∧ Laned decoders attachmentLimits body 1 frames list
          ∧ Fits limits attachmentLimits list ∧ lanes = .ofList list :=
    fun start lanes => parseItems_eq_ok decoders body body.length start [] (by omega) fits_nil
  simp only [parseEnvelopeWithAttachments, bind_eq_ok, orInvalid_eq_ok, hloop]
  constructor
  · rintro ⟨⟨headerBytes, start⟩, hline, header, hheader, eventId, hevent, dsn, hdsn, lanes,
      ⟨frames, list, hframed, hlaned, hfits, rfl⟩, hfinish⟩
    obtain ⟨hcomplete, rfl⟩ := finishEnvelope_eq_ok.mp hfinish
    exact ⟨headerBytes, start, header, eventId, dsn, frames, list, hline, hheader, hevent, hdsn,
      hframed, hlaned, hfits, hcomplete, rfl⟩
  · rintro ⟨headerBytes, start, header, eventId, dsn, frames, list, hline, hheader, hevent, hdsn,
      hframed, hlaned, hfits, hcomplete, rfl⟩
    exact ⟨(headerBytes, start), hline, header, hheader, eventId, hevent, dsn, hdsn, .ofList list,
      ⟨frames, list, hframed, hlaned, hfits, rfl⟩, finishEnvelope_eq_ok.mpr ⟨hcomplete, rfl⟩⟩

/-- The items tile the body from a position to its end: header line, payload and separator in this
order, each item right after the one before. -/
def Tiles (body : Bytes) : Nat → List Frame → Prop
  | cursor, [] => cursor = body.length
  | cursor, frame :: frames =>
      frame.start = cursor ∧ frame.start < frame.payloadStart ∧ frame.payloadStart ≤ frame.payloadEnd
        ∧ frame.payloadEnd ≤ frame.next ∧ frame.next ≤ body.length ∧ Tiles body frame.next frames

variable {decoders body}

theorem Framed.tiles {frames : List Frame} (h : Framed decoders limits body cursor frames)
    (hcursor : cursor ≤ body.length) : Tiles body cursor frames := by
  induction h with
  | done cursor hend => exact Nat.le_antisymm hcursor hend
  | item cursor frame frames _ hframe _ ih =>
      obtain ⟨rfl, hstart, hpayload, hend, hnext⟩ := frameAt_bounds hframe
      exact ⟨rfl, hstart, hpayload, hend, hnext, ih hnext⟩

theorem Framed.unique {frames others : List Frame} (h : Framed decoders limits body cursor frames)
    (hothers : Framed decoders limits body cursor others) : others = frames := by
  induction h generalizing others with
  | done cursor hend =>
      cases hothers with
      | done => rfl
      | item _ frame rest hlt => omega
  | item cursor frame frames hlt hframe _ ih =>
      cases hothers with
      | done => omega
      | item _ other rest _ hother hrest =>
          rw [hframe] at hother
          cases hother
          rw [ih hrest]

/-! ### Rendering -/

/-- An item to render: its header line, what that line decodes to, and its payload. -/
structure Item where
  headerBytes : Bytes
  header : WireItemHeader
  payload : Bytes

/-- The header line decodes to the header, which declares the length of the payload. -/
structure Item.Renders (decoders : Decoders) (item : Item) : Prop where
  decodes : decoders.itemHeader item.headerBytes = some item.header
  declares : item.header.length.map BitVec.toNat = some item.payload.length
  line : newline ∉ item.headerBytes
  short : item.headerBytes.length ≤ maxHeaderBytes

/-- Header lines and payloads, with a newline between items and, if wanted, after the last. -/
def renderItems (closing : Bool) : List Item → Bytes
  | [] => []
  | [item] => item.headerBytes ++ newline :: (item.payload ++ if closing then [newline] else [])
  | item :: rest => item.headerBytes ++ newline :: (item.payload ++ newline :: renderItems closing rest)

def render (headerBytes : Bytes) (items : List Item) (closing : Bool) : Bytes :=
  headerBytes ++ newline :: renderItems closing items

theorem slice_append (before middle after : Bytes) :
    slice (before ++ (middle ++ after)) before.length (before.length + middle.length) = middle := by
  simp [slice]

theorem lineAt_append {before line after : Bytes} (hline : newline ∉ line)
    (hshort : line.length ≤ maxHeaderBytes) :
    lineAt (before ++ (line ++ newline :: after)) before.length
      = .ok (line, before.length + line.length + 1) := by
  have hposition : ((before ++ (line ++ newline :: after)).drop before.length).findIdx? (· = newline)
      = some line.length := by
    rw [List.drop_left]
    exact findIdx?_append_cons hline after
  have hstart : ¬ (before ++ (line ++ newline :: after)).length < before.length := by simp
  simp only [lineAt, bind_eq_ok, failIf_eq_ok, orInvalid_eq_ok, pure_eq_ok]
  exact ⟨(), hstart, line.length, hposition, (), Nat.not_lt.mpr hshort, by rw [slice_append]⟩

/-- What may stand after a payload of a rendered body. -/
inductive Separated : Bytes → Bytes → Prop
  | last : Separated [] []
  | followed (after : Bytes) : Separated (newline :: after) after

theorem declaredPayload_append {before payload after rest : Bytes} (hafter : Separated after rest)
    (hfits : (before ++ (payload ++ after)).length ≤ u64Max) :
    declaredPayload (before ++ (payload ++ after)) before.length payload.length
      = .ok (before.length + payload.length, (before ++ (payload ++ after)).length - rest.length) := by
  have hlength : (before ++ (payload ++ after)).length = before.length + payload.length + after.length := by
    simp only [List.length_append]
    omega
  have hbyte : (before ++ (payload ++ after))[before.length + payload.length]? = after[0]? := by
    rw [List.getElem?_append_right (by omega), List.getElem?_append_right (by omega)]
    congr 1
    omega
  simp only [declaredPayload, bind_eq_ok, failIf_eq_ok, hbyte]
  refine ⟨(), by omega, (), by omega, ?_⟩
  cases hafter with
  | last =>
      rw [hlength]
      rfl
  | followed rest =>
      simp only [List.length_cons] at hlength
      have hnext : (before ++ (payload ++ newline :: rest)).length - rest.length
          = before.length + payload.length + 1 := by omega
      rw [hnext]
      simp [failIf]

variable (limits) in
/-- The frame of a rendered item, and what is left of the body after it. -/
theorem frameAt_append {before after rest : Bytes} {item : Item} (hrenders : item.Renders decoders)
    (hafter : Separated after rest)
    (hbody : body = before ++ (item.headerBytes ++ newline :: (item.payload ++ after)))
    (hfits : body.length ≤ u64Max) :
    ∃ frame, frameAt decoders limits body before.length = .ok frame ∧ frame.header = item.header
      ∧ frame.payload body = item.payload
      ∧ ∃ consumed, body = consumed ++ rest ∧ consumed.length = frame.next := by
  obtain ⟨length, hheader, hlength⟩ := Option.map_eq_some_iff.mp hrenders.declares
  have hline : lineAt body before.length
      = .ok (item.headerBytes, before.length + item.headerBytes.length + 1) := by
    rw [hbody]
    exact lineAt_append hrenders.line hrenders.short
  have hregroup : body = (before ++ (item.headerBytes ++ [newline])) ++ (item.payload ++ after) := by
    simp [hbody]
  have hstart : (before ++ (item.headerBytes ++ [newline])).length
      = before.length + item.headerBytes.length + 1 := by
    simp only [List.length_append, List.length_singleton]
    omega
  have hdeclared : declaredPayload body (before.length + item.headerBytes.length + 1) item.payload.length
      = .ok (before.length + item.headerBytes.length + 1 + item.payload.length,
          body.length - rest.length) := by
    rw [← hstart, hregroup]
    rw [hregroup] at hfits
    exact declaredPayload_append hafter hfits
  have hframe : frameAt decoders limits body before.length
      = .ok ⟨before.length, item.header, before.length + item.headerBytes.length + 1,
          before.length + item.headerBytes.length + 1 + item.payload.length,
          body.length - rest.length⟩ := by
    simp only [frameAt, bind_eq_ok, orInvalid_eq_ok, pure_eq_ok]
    have hpayload : payloadAt limits body (before.length + item.headerBytes.length + 1) item.header.length
        = .ok (before.length + item.headerBytes.length + 1 + item.payload.length,
            body.length - rest.length) := by
      rw [hheader, payloadAt, hlength]
      exact hdeclared
    exact ⟨_, hline, _, hrenders.decodes, _, hpayload, rfl⟩
  refine ⟨_, hframe, rfl, ?_, ?_⟩
  · show slice body _ _ = item.payload
    rw [← hstart]
    nth_rewrite 1 [hregroup]
    exact slice_append _ _ _
  · cases hafter with
    | last =>
        refine ⟨body, by simp, ?_⟩
        simp
    | followed rest =>
        refine ⟨before ++ (item.headerBytes ++ newline :: (item.payload ++ [newline])), ?_, ?_⟩
        · simp [hbody]
        · simp only [hbody, List.length_append, List.length_cons, List.length_nil]
          omega

variable (limits) in
/-- A rendered list of items is framed as that list. -/
theorem framed_renderItems {closing : Bool} {items : List Item} {before : Bytes}
    (hitems : ∀ item ∈ items, item.Renders decoders)
    (hbody : body = before ++ renderItems closing items) (hfits : body.length ≤ u64Max) :
    ∃ frames, Framed decoders limits body before.length frames
      ∧ List.Forall₂ (fun frame item => frame.header = item.header ∧ frame.payload body = item.payload)
        frames items := by
  induction items generalizing before with
  | nil =>
      refine ⟨[], .done _ ?_, .nil⟩
      simp [hbody, renderItems]
  | cons item items ih =>
      rw [List.forall_mem_cons] at hitems
      have hsplit : ∃ after, Separated after (renderItems closing items)
          ∧ body = before ++ (item.headerBytes ++ newline :: (item.payload ++ after)) := by
        cases items with
        | nil =>
            cases closing with
            | false => exact ⟨[], .last, by simpa [renderItems] using hbody⟩
            | true => exact ⟨[newline], .followed [], by simpa [renderItems] using hbody⟩
        | cons next items => exact ⟨_, .followed _, by simpa [renderItems] using hbody⟩
      obtain ⟨after, hafter, hsplit⟩ := hsplit
      obtain ⟨frame, hframe, hheader, hpayload, consumed, hrest, hnext⟩ :=
        frameAt_append limits hitems.1 hafter hsplit hfits
      obtain ⟨frames, hframed, hframes⟩ := ih hitems.2 hrest
      rw [hnext] at hframed
      refine ⟨frame :: frames, .item _ frame frames ?_ hframe hframed, .cons ⟨hheader, hpayload⟩ hframes⟩
      rw [hsplit]
      simp only [List.length_append, List.length_cons]
      omega

/-- The lane that every item of a list goes to. -/
def ItemLanes (decoders : Decoders) (attachmentLimits : AttachmentLimits) (position : Nat)
    (items : List Item) (list : List Lane) : Prop :=
  List.Forall₂ (fun (entry : Item × Nat) lane =>
    laneOf decoders attachmentLimits entry.2 entry.1.header entry.1.payload = some lane)
    (items.zipIdx position) list

theorem laned_iff {position : Nat} {frames : List Frame} {items : List Item} {list : List Lane}
    (hframes : List.Forall₂
      (fun frame item => frame.header = item.header ∧ frame.payload body = item.payload) frames items) :
    Laned decoders attachmentLimits body position frames list
      ↔ ItemLanes decoders attachmentLimits position items list := by
  induction hframes generalizing position list with
  | nil =>
      constructor
      · intro h
        cases h
        exact .nil
      · intro h
        cases h
        exact .nil
  | @cons frame item frames items hframe _ ih =>
      rw [Laned, ItemLanes, List.zipIdx_cons, List.zipIdx_cons]
      constructor
      · intro h
        cases h with
        | cons hlane hlaned =>
            rw [hframe.1, hframe.2] at hlane
            exact .cons hlane (ih.mp hlaned)
      · intro h
        cases h with
        | cons hlane hlaned =>
            refine .cons ?_ (ih.mpr hlaned)
            rw [hframe.1, hframe.2]
            exact hlane

/-- Reading back a rendered envelope. -/
theorem parse_render_iff {headerBytes : Bytes} {header : WireEnvelopeHeader} {items : List Item}
    {closing : Bool} {envelope : ParsedEnvelope}
    (hheader : decoders.envelopeHeader headerBytes = some header) (hline : newline ∉ headerBytes)
    (hshort : headerBytes.length ≤ maxHeaderBytes) (hitems : ∀ item ∈ items, item.Renders decoders)
    (hfits : (render headerBytes items closing).length ≤ u64Max) :
    parseEnvelopeWithAttachments decoders limits attachmentLimits (render headerBytes items closing)
        = .ok envelope
      ↔ ∃ eventId dsn list, parseOptionalEventId header.eventId = .ok eventId
        ∧ parseOptionalDsn decoders header.dsn = .ok dsn
        ∧ ItemLanes decoders attachmentLimits 1 items list
        ∧ Fits limits attachmentLimits list ∧ Complete list
        ∧ envelope = assemble eventId dsn list := by
  have hfirst : lineAt (render headerBytes items closing) 0 = .ok (headerBytes, headerBytes.length + 1) := by
    have hline : lineAt ([] ++ (headerBytes ++ newline :: renderItems closing items)) ([] : Bytes).length
        = .ok (headerBytes, ([] : Bytes).length + headerBytes.length + 1) := lineAt_append hline hshort
    simpa [render] using hline
  have hregroup : render headerBytes items closing
      = (headerBytes ++ [newline]) ++ renderItems closing items := by
    simp [render]
  obtain ⟨frames, hframed, hframes⟩ := framed_renderItems limits hitems hregroup hfits
  rw [List.length_append, List.length_singleton] at hframed
  rw [parseEnvelope_eq_ok]
  constructor
  · rintro ⟨bytes, start, found, eventId, dsn, others, list, hfound, hdecoded, hevent, hdsn, hothers,
      hlaned, hlimits, hcomplete, rfl⟩
    rw [hfirst] at hfound
    cases hfound
    rw [hheader] at hdecoded
    cases hdecoded
    rw [hframed.unique hothers] at hlaned
    exact ⟨eventId, dsn, list, hevent, hdsn, (laned_iff hframes).mp hlaned, hlimits, hcomplete, rfl⟩
  · rintro ⟨eventId, dsn, list, hevent, hdsn, hlaned, hlimits, hcomplete, rfl⟩
    exact ⟨headerBytes, _, header, eventId, dsn, frames, list, hfirst, hheader, hevent, hdsn, hframed,
      (laned_iff hframes).mpr hlaned, hlimits, hcomplete, rfl⟩

/-! ### The parser on every list of items and on every body -/

theorem laneOf_payload {position : Nat} {lane : Lane} {bytes : Bytes}
    (h : laneOf decoders attachmentLimits position header payload = some lane)
    (hbytes : lane.payload? = some bytes) : bytes = payload := by
  unfold laneOf at h
  split at h
  case h_1 =>
    obtain ⟨id, -, rfl⟩ := Option.map_eq_some_iff.mp h
    exact (Option.some.inj hbytes).symm
  case h_2 =>
    obtain ⟨quantity, -, rfl⟩ := Option.map_eq_some_iff.mp h
    cases hbytes
  case h_3 =>
    split_ifs at h
    · cases h
      cases hbytes
    · obtain ⟨attachment, hattachment, rfl⟩ := Option.map_eq_some_iff.mp h
      rw [← Option.some.inj hbytes]
      exact rawAttachment_bytes (toOption_eq_some.mp hattachment)
  case h_5 =>
    split_ifs at h
    obtain ⟨count, -, rfl⟩ := Option.map_eq_some_iff.mp h
    exact (Option.some.inj hbytes).symm
  all_goals
    cases h
    cases hbytes
    try rfl

/-- A payload that a lane keeps is the slice of its item. -/
theorem Laned.payloads {position : Nat} {frames : List Frame} {list : List Lane}
    (h : Laned decoders attachmentLimits body position frames list) :
    List.Forall₂ (fun frame (lane : Lane) => ∀ bytes, lane.payload? = some bytes →
      bytes = slice body frame.payloadStart frame.payloadEnd) frames list := by
  induction frames generalizing position list with
  | nil =>
      cases h
      exact .nil
  | cons frame frames ih =>
      rw [Laned, List.zipIdx_cons] at h
      cases h with
      | cons hlane hlaned => exact .cons (fun bytes => laneOf_payload hlane) (ih hlaned)

/-- A rendered list of items is read back as that list exactly when its items have their lanes and the
rules of an envelope hold. A body that is read is tiled by its items, each of which goes to one lane with
the slice that is its payload. -/
theorem envelope_framing (decoders : Decoders) (limits : EnvelopeLimits)
    (attachmentLimits : AttachmentLimits) :
    (∀ (headerBytes : Bytes) (header : WireEnvelopeHeader) (items : List Item) (closing : Bool)
        (envelope : ParsedEnvelope), decoders.envelopeHeader headerBytes = some header →
        newline ∉ headerBytes → headerBytes.length ≤ maxHeaderBytes →
        (∀ item ∈ items, item.Renders decoders) → (render headerBytes items closing).length ≤ u64Max →
      (parseEnvelopeWithAttachments decoders limits attachmentLimits (render headerBytes items closing)
          = .ok envelope
        ↔ ∃ eventId dsn list, parseOptionalEventId header.eventId = .ok eventId
          ∧ parseOptionalDsn decoders header.dsn = .ok dsn
          ∧ ItemLanes decoders attachmentLimits 1 items list
          ∧ Fits limits attachmentLimits list ∧ Complete list
          ∧ envelope = assemble eventId dsn list))
    ∧ ∀ (body : Bytes) (envelope : ParsedEnvelope),
      parseEnvelopeWithAttachments decoders limits attachmentLimits body = .ok envelope →
      ∃ start eventId dsn frames list, start ≤ body.length ∧ Tiles body start frames
        ∧ Laned decoders attachmentLimits body 1 frames list
        ∧ List.Forall₂ (fun frame (lane : Lane) => ∀ bytes, lane.payload? = some bytes →
          bytes = slice body frame.payloadStart frame.payloadEnd) frames list
        ∧ Fits limits attachmentLimits list ∧ Complete list
        ∧ envelope = assemble eventId dsn list := by
  constructor
  · intro headerBytes header items closing envelope hheader hline hshort hitems hfits
    exact parse_render_iff hheader hline hshort hitems hfits
  · intro body envelope hparse
    obtain ⟨headerBytes, start, header, eventId, dsn, frames, list, hline, -, -, -, hframed, hlaned,
      hlimits, hcomplete, rfl⟩ := (parseEnvelope_eq_ok decoders body).mp hparse
    obtain ⟨-, hstart⟩ := lineAt_bounds hline
    exact ⟨start, eventId, dsn, frames, list, hstart, hframed.tiles hstart, hlaned, hlaned.payloads,
      hlimits, hcomplete, rfl⟩

/-- The header line of an item with a type and a length. -/
def itemLine (kind : String) (length : Nat) : Bytes :=
  utf8Bytes (jsonObject [("type".toList, jsonString kind.toList), ("length".toList, jsonNumber length)])

def itemHeader (kind : String) (length : Nat) : WireItemHeader where
  kind := some kind.toList
  length := some (BitVec.ofNat 64 length)
  eventId := none
  filename := none
  contentType := none
  attachmentType := none
  itemCount := none

/-- Decoders of the empty envelope header and of item headers with a type and a length. -/
def lineDecoders : Decoders where
  envelopeHeader bytes := if bytes = utf8Bytes (jsonObject []) then some ⟨none, none⟩ else none
  itemHeader bytes :=
    ["event", "replay_event", "replay_recording"].findSome? fun kind =>
      if itemLine kind 3 = bytes then some (itemHeader kind 3) else none
  clientReport _ := none
  url _ := none

def sampleItem (kind : String) (payload : Bytes) : Item where
  headerBytes := itemLine kind 3
  header := itemHeader kind 3
  payload := payload

def sampleLimits : EnvelopeLimits := ⟨10, 1024, 1024⟩

def sampleAttachmentLimits : AttachmentLimits := ⟨4, 1024, 4096⟩

/-- A recording that stands before its event, and payloads of newlines. -/
def replayItems : List Item :=
  [sampleItem "replay_recording" [10, 10, 10], sampleItem "event" [123, 10, 125],
    sampleItem "replay_event" [123, 125, 10]]

def replayLanes : List Lane :=
  [.replayRecording [10, 10, 10], .primary ⟨none, [123, 10, 125]⟩, .replayEvent [123, 125, 10]]

theorem replayItems_render : ∀ item ∈ replayItems, item.Renders lineDecoders := by
  intro item hitem
  simp only [replayItems, List.mem_cons, List.not_mem_nil, or_false] at hitem
  obtain rfl | rfl | rfl := hitem
  · exact ⟨by decide, by decide, by decide, by decide⟩
  · exact ⟨by decide, by decide, by decide, by decide⟩
  · exact ⟨by decide, by decide, by decide, by decide⟩

theorem envelope_framing_replay :
    parseEnvelopeWithAttachments lineDecoders sampleLimits sampleAttachmentLimits
        (render (utf8Bytes (jsonObject [])) replayItems false)
      = .ok (assemble none none replayLanes) := by
  refine ((envelope_framing lineDecoders sampleLimits sampleAttachmentLimits).1 _ ⟨none, none⟩ _ _ _
    (by decide) (by decide) (by decide) replayItems_render
    (by decide)).mpr ⟨none, none, replayLanes, rfl, rfl, ?_, ?_, ?_, rfl⟩
  · exact .cons (by decide) (.cons (by decide) (.cons (by decide) .nil))
  · exact ⟨by decide, by decide, by decide, by decide, by decide⟩
  · exact ⟨by decide, by decide⟩

/-- Two primary events, each within the limits. -/
def twoEvents : List Item := [sampleItem "event" [123, 32, 125], sampleItem "event" [123, 32, 125]]

theorem two_events_rejected :
    (∀ item ∈ twoEvents, item.Renders lineDecoders ∧ item.payload.length ≤ sampleLimits.maxEventBytes)
      ∧ twoEvents.length ≤ sampleLimits.maxItems
      ∧ parseEnvelopeWithAttachments lineDecoders sampleLimits sampleAttachmentLimits
          (render (utf8Bytes (jsonObject [])) twoEvents false)
        = .error (.ofInvalid "multiple_primary_events") := by
  refine ⟨fun item hitem => ?_, by decide, by decide⟩
  simp only [twoEvents, List.mem_cons, List.not_mem_nil, or_false, or_self] at hitem
  rw [hitem]
  exact ⟨⟨by decide, by decide, by decide, by decide⟩, by decide⟩

end SentryProtocol

end MetricBackend
