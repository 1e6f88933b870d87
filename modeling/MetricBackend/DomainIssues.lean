import Mathlib.Data.Prod.Lex
import MetricBackend.LibFallible
import MetricBackend.DomainNotifications
import MetricBackend.EventGrouping

/-! Issue state and mutation values of `domain/src/issue.rs`, the error of `ports/src/issue.rs`, and what
both stores do with a batch of occurrences before they write it. The grouping detail of a snapshot is left
out; the body that stores it is kept as bytes. -/

namespace MetricBackend

def maxIssueCulpritBytes : Nat := 256
def maxIssueReleaseBytes : Nat := 200

inductive IssueValueError where
  | empty
  | tooLong
deriving DecidableEq, Repr

/-- `bounded_issue_text!`. -/
@[ext] structure IssueText (maximum : Nat) where
  asStr : Text
  valid : asStr ≠ [] ∧ byteLength asStr ≤ maximum
deriving DecidableEq

namespace IssueText

def new {maximum : Nat} (value : Text) : Except IssueValueError (IssueText maximum) :=
  if hempty : value = [] then .error .empty
  else if hlong : maximum < byteLength value then .error .tooLong
  else .ok ⟨value, hempty, not_lt.mp hlong⟩

theorem new_asStr {maximum : Nat} (text : IssueText maximum) : new text.asStr = .ok text := by
  rw [new, dif_neg text.valid.1, dif_neg (not_lt.mpr text.valid.2)]

end IssueText

abbrev IssueCulprit : Type := IssueText maxIssueCulpritBytes
abbrev IssueRelease : Type := IssueText maxIssueReleaseBytes

namespace IssueTitle

def new (value : Text) : Except IssueValueError IssueTitle :=
  if hempty : value = [] then .error .empty
  else if hlong : maxIssueTitleBytes < byteLength value then .error .tooLong
  else .ok ⟨value, hempty, not_lt.mp hlong⟩

theorem new_asStr (title : IssueTitle) : new title.asStr = .ok title := by
  rw [new, dif_neg title.valid.1, dif_neg (not_lt.mpr title.valid.2)]

end IssueTitle

/-- `NonZeroU64`. -/
structure NonZeroU64 where
  get : Nat
  inRange : 0 < get ∧ get < 2 ^ 64
deriving DecidableEq

namespace NonZeroU64

theorem inRange_one : 0 < 1 ∧ 1 < 2 ^ 64 := by decide

def new (value : Nat) : Option NonZeroU64 :=
  if h : 0 < value ∧ value < 2 ^ 64 then some ⟨value, h⟩ else none

theorem new_get (value : NonZeroU64) : new value.get = some value := dif_pos value.inRange

theorem get_injective : Function.Injective get := by
  rintro ⟨left, hleft⟩ ⟨right, hright⟩ h
  cases h
  rfl

end NonZeroU64

/-! ### Actors -/

inductive ActorKind where
  | user
  | apiCredential
  | system
deriving DecidableEq, Repr

namespace ActorKind

def code : ActorKind → BitVec 8
  | user => 1
  | apiCredential => 2
  | system => 3

def fromCode (code : BitVec 8) : Option ActorKind :=
  if code = 1 then some user
  else if code = 2 then some apiCredential
  else if code = 3 then some system
  else none

theorem fromCode_code (kind : ActorKind) : fromCode kind.code = some kind := by
  cases kind <;> rfl

end ActorKind

structure ActorRef where
  kind : ActorKind
  id : BitVec 128
deriving DecidableEq

namespace ActorRef

/-- The byte of the kind and the sixteen bytes of the identity. -/
def toBytes (actor : ActorRef) : BitVec 136 := actor.kind.code ++ actor.id

def fromBytes (bytes : BitVec 136) : Option ActorRef :=
  (ActorKind.fromCode (bytes.extractLsb' 128 8)).map fun kind => ⟨kind, bytes.extractLsb' 0 128⟩

theorem fromBytes_toBytes (actor : ActorRef) : fromBytes actor.toBytes = some actor := by
  have hkind : (actor.kind.code ++ actor.id).extractLsb' 128 8 = actor.kind.code :=
    BitVec.extractLsb'_append_eq_left
  have hid : (actor.kind.code ++ actor.id).extractLsb' 0 128 = actor.id :=
    BitVec.extractLsb'_append_eq_right
  rw [fromBytes, toBytes, hkind, hid, ActorKind.fromCode_code]
  rfl

theorem toBytes_injective : Function.Injective toBytes := by
  intro left right h
  have hright := fromBytes_toBytes right
  rw [← h, fromBytes_toBytes] at hright
  exact Option.some.inj hright

end ActorRef

/-! ### Issues -/

inductive IssueStatus where
  | open
  | resolved
  | ignored
deriving DecidableEq, Repr

structure IssueWorkflow where
  atTime : Timestamp
  actor : ActorRef
deriving DecidableEq

structure RegressionSummary where
  atTime : Timestamp
  eventId : EventId
  count : NonZeroU64
  release : Option IssueRelease
deriving DecidableEq

structure IssueGroupingDetail where
  strategy : GroupingStrategy
  summary : Text
  components : List GroupingComponent
deriving DecidableEq

theorem keyed_sample : (GroupingKey.mk 1 9).revision ≠ 0 := by decide

/-- No constructor of a grouping key makes the revision zero. -/
structure IssueOccurrence where
  projectId : ProjectId
  issueId : IssueId
  groupingKey : GroupingKey
  keyed : groupingKey.revision ≠ 0
  eventId : EventId
  occurredAt : Timestamp
  receivedAt : Timestamp
  release : Option IssueRelease
  title : IssueTitle
  culprit : Option IssueCulprit
  grouping : IssueGroupingDetail
  increment : NonZeroU64
deriving DecidableEq

structure IssueSnapshot where
  projectId : ProjectId
  issueId : IssueId
  groupingKey : GroupingKey
  title : IssueTitle
  culprit : Option IssueCulprit
  firstSeen : Timestamp
  lastSeen : Timestamp
  firstEventId : EventId
  latestEventId : EventId
  representativeEventId : EventId
  occurrenceCount : NonZeroU64
  status : IssueStatus
  assignee : Option ActorRef
  workflow : Option IssueWorkflow
  regression : Option RegressionSummary
  firstRelease : Option IssueRelease
  lastRelease : Option IssueRelease
deriving DecidableEq

inductive IssueMutationKind where
  | created
  | updated
  | regressed
deriving DecidableEq, Repr

structure IssueMutationResult where
  kind : IssueMutationKind
  issue : IssueSnapshot
deriving DecidableEq

inductive IssueCommandAction where
  | resolve
  | ignore
  | reopen
  | assign (assignee : Option ActorRef)
deriving DecidableEq

structure IssueCommand where
  projectId : ProjectId
  issueId : IssueId
  idempotencyKey : BitVec 128
  actor : ActorRef
  atTime : Timestamp
  action : IssueCommandAction
deriving DecidableEq

structure IssueCommandResult where
  applied : Bool
  issue : IssueSnapshot
deriving DecidableEq

inductive IssueStoreError where
  | identityCollision
  | notFound
  | invalidData
  | unavailable
deriving DecidableEq, Repr

namespace Issues

section Digest

variable (blake3 : List (BitVec 8) → BitVec 256)

def verifyIssueId (projectId : ProjectId) (key : GroupingKey) (issueId : IssueId) : Bool :=
  EventGrouping.deriveIssueId blake3 projectId key = issueId

/-- The discriminant of `#[repr(u8)]`. -/
def notificationKindCode : IssueNotificationKind → Nat
  | .newIssue => 1
  | .regression => 2
  | .resolved => 3

def notificationTransitionId (projectId : ProjectId) (issueId : IssueId) (kind : IssueNotificationKind)
    (eventId : EventId) : IssueTransitionId :=
  let parts := [utf8Bytes "issue-notification/v1".toList, bigEndian 4 projectId.get, issueId.bytes,
    bigEndian 1 (notificationKindCode kind), eventId.bytes]
  ⟨(blake3 (parts.flatMap fun part => bigEndian 8 part.length ++ part)).extractLsb' 128 128⟩

/-! ### Batches -/

/-- `Iterator::min_by_key`: the first of the least elements. -/
def minByKey {α κ : Type} [LinearOrder κ] (key : α → κ) : List α → Option α
  | [] => none
  | value :: values => some (values.foldl (fun best next => if key next < key best then next else best) value)

/-- `Iterator::max_by_key`: the last of the greatest elements. -/
def maxByKey {α κ : Type} [LinearOrder κ] (key : α → κ) : List α → Option α
  | [] => none
  | value :: values => some (values.foldl (fun best next => if key best ≤ key next then next else best) value)

/-- A time and the bytes of an Event identity, in this order. -/
def moment (time : Timestamp) (eventId : EventId) : Timestamp ×ₗ EventId := toLex (time, eventId)

def occurredKey (occurrence : IssueOccurrence) : Timestamp ×ₗ EventId :=
  moment occurrence.occurredAt occurrence.eventId

def receivedKey (occurrence : IssueOccurrence) : Timestamp ×ₗ EventId :=
  moment occurrence.receivedAt occurrence.eventId

/-- The occurrence belongs to the Issue of the first one of its batch. -/
def sameIssue (summary occurrence : IssueOccurrence) : Bool :=
  occurrence.projectId = summary.projectId ∧ occurrence.issueId = summary.issueId
    ∧ occurrence.groupingKey = summary.groupingKey
    ∧ verifyIssueId blake3 occurrence.projectId occurrence.groupingKey occurrence.issueId

/-- The increments of a batch, each of them and their sum as an `i64`. -/
def totalIncrement (occurrences : List IssueOccurrence) : Except IssueStoreError Nat :=
  occurrences.foldlM (fun total occurrence => do
    failIf (i64Max < occurrence.increment.get) .invalidData
    failIf (i64Max < total + occurrence.increment.get) .invalidData
    return total + occurrence.increment.get) 0

/-- What both stores take out of a batch. -/
structure Batch where
  summary : IssueOccurrence
  first : IssueOccurrence
  latest : IssueOccurrence
  candidate : IssueOccurrence
  increment : Nat

def orInvalidData {α : Type} : Option α → Except IssueStoreError α
  | some value => .ok value
  | none => .error .invalidData

def selectBatch (occurrences : List IssueOccurrence) : Except IssueStoreError Batch := do
  let summary ← orInvalidData occurrences.head?
  failIf (occurrences.any (!sameIssue blake3 summary ·)) .invalidData
  let first ← orInvalidData (minByKey occurredKey occurrences)
  let latest ← orInvalidData (maxByKey occurredKey occurrences)
  let candidate ← orInvalidData (maxByKey receivedKey occurrences)
  let increment ← totalIncrement occurrences
  return ⟨summary, first, latest, candidate, increment⟩

end Digest

/-! ### What a batch holds -/

/-- A fold that keeps one of two elements, no worse than either, ends with a best one. -/
theorem foldl_choose {α : Type} (better : α → α → Prop) (hrefl : ∀ value, better value value)
    (htrans : ∀ {left middle right}, better left middle → better middle right → better left right)
    {choose : α → α → α} (hone : ∀ best next, choose best next = best ∨ choose best next = next)
    (hleft : ∀ best next, better (choose best next) best) (hright : ∀ best next, better (choose best next) next)
    (head : α) (tail : List α) :
    tail.foldl choose head ∈ head :: tail ∧ ∀ value ∈ head :: tail, better (tail.foldl choose head) value := by
  induction tail generalizing head with
  | nil =>
      refine ⟨List.mem_cons_self, fun value hvalue => ?_⟩
      rw [List.mem_singleton.mp hvalue]
      exact hrefl head
  | cons next tail ih =>
      rw [List.foldl_cons]
      obtain ⟨hmem, hbetter⟩ := ih (choose head next)
      have hbest := hbetter _ List.mem_cons_self
      refine ⟨?_, fun value hvalue => ?_⟩
      · rcases List.mem_cons.mp hmem with heq | hmem
        · rcases hone head next with hchosen | hchosen <;> rw [heq, hchosen] <;> simp
        · exact List.mem_cons_of_mem _ (List.mem_cons_of_mem _ hmem)
      · rcases List.mem_cons.mp hvalue with rfl | hvalue
        · exact htrans hbest (hleft value next)
        rcases List.mem_cons.mp hvalue with rfl | hvalue
        · exact htrans hbest (hright head value)
        · exact hbetter value (List.mem_cons_of_mem _ hvalue)

theorem minByKey_spec {α κ : Type} [LinearOrder κ] {key : α → κ} {values : List α} {best : α}
    (h : minByKey key values = some best) : best ∈ values ∧ ∀ value ∈ values, key best ≤ key value := by
  cases values with
  | nil => cases h
  | cons head tail =>
      cases h
      refine foldl_choose (fun left right => key left ≤ key right) (fun _ => le_rfl) le_trans ?_ ?_ ?_
        head tail <;> intro best next <;> split_ifs with hlt
      · exact .inr rfl
      · exact .inl rfl
      · exact hlt.le
      · exact le_rfl
      · exact le_rfl
      · exact not_lt.mp hlt

theorem maxByKey_spec {α κ : Type} [LinearOrder κ] {key : α → κ} {values : List α} {best : α}
    (h : maxByKey key values = some best) : best ∈ values ∧ ∀ value ∈ values, key value ≤ key best := by
  cases values with
  | nil => cases h
  | cons head tail =>
      cases h
      refine foldl_choose (fun left right => key right ≤ key left) (fun _ => le_rfl)
        (fun hleft hright => hright.trans hleft) ?_ ?_ ?_ head tail <;> intro best next <;> split_ifs with hle
      · exact .inr rfl
      · exact .inl rfl
      · exact hle
      · exact le_rfl
      · exact le_rfl
      · exact (not_le.mp hle).le

theorem minByKey_isSome {α κ : Type} [LinearOrder κ] (key : α → κ) {values : List α} (h : values ≠ []) :
    ∃ best, minByKey key values = some best := by
  cases values with
  | nil => exact absurd rfl h
  | cons head tail => exact ⟨_, rfl⟩

theorem maxByKey_isSome {α κ : Type} [LinearOrder κ] (key : α → κ) {values : List α} (h : values ≠ []) :
    ∃ best, maxByKey key values = some best := by
  cases values with
  | nil => exact absurd rfl h
  | cons head tail => exact ⟨_, rfl⟩

/-- The occurrences that a list of them stands for. -/
def incrementSum (occurrences : List IssueOccurrence) : Nat :=
  (occurrences.map (·.increment.get)).sum

theorem totalIncrement_eq_ok {occurrences : List IssueOccurrence} {total : Nat} :
    totalIncrement occurrences = .ok total ↔
      incrementSum occurrences = total ∧ (occurrences = [] ∨ total ≤ i64Max) := by
  have hgeneral : ∀ (occurrences : List IssueOccurrence) (start : Nat),
      occurrences.foldlM (fun total (occurrence : IssueOccurrence) => do
        failIf (i64Max < occurrence.increment.get) IssueStoreError.invalidData
        failIf (i64Max < total + occurrence.increment.get) IssueStoreError.invalidData
        return total + occurrence.increment.get) start = .ok total ↔
      start + incrementSum occurrences = total ∧ (occurrences = [] ∨ total ≤ i64Max) := by
    intro occurrences
    induction occurrences with
    | nil =>
        intro start
        rw [List.foldlM_nil, pure_eq_ok]
        simp [incrementSum]
    | cons occurrence occurrences ih =>
        intro start
        rw [List.foldlM_cons]
        simp only [bind_eq_ok, failIf_eq_ok, pure_eq_ok, incrementSum, List.map_cons, List.sum_cons] at ih ⊢
        constructor
        · rintro ⟨next, ⟨-, hvalue, -, hsum, rfl⟩, hrest⟩
          obtain ⟨rfl, hbound⟩ := (ih _).mp hrest
          refine ⟨by omega, .inr ?_⟩
          rcases hbound with rfl | hbound
          · simpa using hsum
          · omega
        · rintro ⟨rfl, hbound⟩
          replace hbound := hbound.resolve_left (List.cons_ne_nil _ _)
          refine ⟨_, ⟨(), by omega, (), by omega, rfl⟩, (ih _).mpr ⟨by omega, .inr ?_⟩⟩
          omega
  simpa [totalIncrement] using hgeneral occurrences 0

/-- What `selectBatch` checks and takes. -/
structure SelectedBatch (blake3 : List (BitVec 8) → BitVec 256) (occurrences : List IssueOccurrence)
    (batch : Batch) : Prop where
  summary : occurrences.head? = some batch.summary
  one : ∀ occurrence ∈ occurrences, sameIssue blake3 batch.summary occurrence
  first : minByKey occurredKey occurrences = some batch.first
  latest : maxByKey occurredKey occurrences = some batch.latest
  candidate : maxByKey receivedKey occurrences = some batch.candidate
  increment : incrementSum occurrences = batch.increment
  bound : batch.increment ≤ i64Max

theorem SelectedBatch.increment_pos {blake3 : List (BitVec 8) → BitVec 256} {occurrences : List IssueOccurrence}
    {batch : Batch} (h : SelectedBatch blake3 occurrences batch) : 0 < batch.increment := by
  have hsum := h.increment
  have hhead := h.summary
  cases occurrences with
  | nil => cases hhead
  | cons occurrence occurrences =>
      rw [incrementSum, List.map_cons, List.sum_cons] at hsum
      have hpos := occurrence.increment.inRange.1
      omega

theorem orInvalidData_eq_ok {α : Type} {value : Option α} {result : α} :
    orInvalidData value = .ok result ↔ value = some result := by
  cases value <;> simp [orInvalidData]

theorem selectBatch_eq_ok {blake3 : List (BitVec 8) → BitVec 256} {occurrences : List IssueOccurrence}
    {batch : Batch} : selectBatch blake3 occurrences = .ok batch ↔ SelectedBatch blake3 occurrences batch := by
  simp only [selectBatch, bind_eq_ok, failIf_eq_ok, pure_eq_ok, orInvalidData_eq_ok, totalIncrement_eq_ok]
  constructor
  · rintro ⟨summary, hsummary, -, hone, first, hfirst, latest, hlatest, candidate, hcandidate, increment,
      ⟨hsum, hbound⟩, rfl⟩
    have hne : occurrences ≠ [] := by
      rintro rfl
      cases hsummary
    refine ⟨hsummary, ?_, hfirst, hlatest, hcandidate, hsum, hbound.resolve_left hne⟩
    simpa using hone
  · intro h
    exact ⟨_, h.summary, (), by simpa using h.one, _, h.first, _, h.latest, _, h.candidate, _,
      ⟨h.increment, .inr h.bound⟩, rfl⟩

end Issues

end MetricBackend
