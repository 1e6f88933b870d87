import MetricBackend.DomainValues
import MetricBackend.LibFallible

/-! Application session lifecycle of `domain/src/sessions.rs`: one compact record per session,
built from the first update and merged with every later one. -/

namespace MetricBackend

inductive SessionState where
  | ok
  | exited
  | crashed
  | abnormal
deriving DecidableEq, Repr

namespace SessionState

def code : SessionState → Int
  | ok => 0
  | exited => 1
  | crashed => 2
  | abnormal => 3

def isTerminal : SessionState → Bool
  | ok => false
  | _ => true

def precedence : SessionState → Nat
  | ok => 0
  | exited => 1
  | abnormal => 2
  | crashed => 3

theorem precedence_injective : Function.Injective precedence := by
  intro left right h
  cases left <;> cases right <;> first | rfl | cases h

end SessionState

structure SessionUpdate where
  id : SessionId
  projectId : ProjectId
  releaseId : ReleaseId
  environmentId : EnvironmentId
  startedAt : Timestamp
  updatedAt : Timestamp
  state : SessionState
  sequence : Option Nat
  durationMs : Option Nat
  userDigest : Option (BitVec 128)
deriving DecidableEq

structure SessionRecord where
  id : SessionId
  projectId : ProjectId
  releaseId : ReleaseId
  environmentId : EnvironmentId
  startedAt : Timestamp
  lastUpdate : Timestamp
  state : SessionState
  sequence : Option Nat
  finishedAt : Option Timestamp
  durationMs : Option Nat
  userDigest : Option (BitVec 128)
deriving DecidableEq

inductive SessionValueError where
  | invalidIdentity
  | invalidTime
  | invalidState
  | conflict
deriving DecidableEq, Repr

namespace SessionUpdate

def validate (self : SessionUpdate) : Except SessionValueError Unit :=
  failIf (self.updatedAt < self.startedAt ∨ self.durationMs.any (i64Max < ·)) .invalidTime

/-- `state.is_terminal().then_some(updated_at)`. -/
def finishedAt (self : SessionUpdate) : Option Timestamp :=
  if self.state.isTerminal then some self.updatedAt else none

/-- `finished_at.and(duration_ms)`. -/
def finishedDuration (self : SessionUpdate) : Option Nat :=
  self.finishedAt.bind fun _ => self.durationMs

end SessionUpdate

/-- Two digests that are both known and differ. -/
def digestsClash : Option (BitVec 128) → Option (BitVec 128) → Bool
  | some left, some right => left ≠ right
  | _, _ => false

/-- The larger of two optional sequence numbers, an absent one being below every present one. -/
def laterSequence : Option Nat → Option Nat → Option Nat
  | some left, some right => some (max left right)
  | left, right => left.or right

namespace SessionRecord

/-- The record that `from_update` builds from a valid update. -/
def opened (update : SessionUpdate) : SessionRecord where
  id := update.id
  projectId := update.projectId
  releaseId := update.releaseId
  environmentId := update.environmentId
  startedAt := update.startedAt
  lastUpdate := update.updatedAt
  state := update.state
  sequence := update.sequence
  finishedAt := update.finishedAt
  durationMs := update.finishedDuration
  userDigest := update.userDigest

def fromUpdate (update : SessionUpdate) : Except SessionValueError SessionRecord := do
  update.validate
  return opened update

/-- The identity checks that make `merge` answer `Conflict`. -/
def conflicts (self : SessionRecord) (update : SessionUpdate) : Bool :=
  self.id ≠ update.id || self.projectId ≠ update.projectId || self.releaseId ≠ update.releaseId ||
    self.environmentId ≠ update.environmentId || digestsClash self.userDigest update.userDigest

/-- Whether `merge` lets the update replace the state, the finish time and the duration: its state
is stronger, or it is the same state with a later sequence number or, at the record's sequence
number, a later time. -/
def adopts (self : SessionRecord) (update : SessionUpdate) : Bool :=
  let existingSequence := self.sequence.getD 0
  let incomingSequence := update.sequence.getD 0
  let stronger := self.state.precedence < update.state.precedence
  let sameNewer := update.state = self.state ∧
    (existingSequence < incomingSequence ∨
      (incomingSequence = existingSequence ∧ self.finishedAt.getD self.lastUpdate < update.updatedAt))
  stronger ∨ sameNewer

/-- The record after `merge`, once the update has passed the checks. -/
def merged (self : SessionRecord) (update : SessionUpdate) : SessionRecord :=
  let joined := { self with
    startedAt := min self.startedAt update.startedAt
    lastUpdate := max self.lastUpdate update.updatedAt
    userDigest := self.userDigest.or update.userDigest
    sequence := laterSequence self.sequence update.sequence }
  if self.adopts update then
    { joined with
      state := update.state
      finishedAt := update.finishedAt
      durationMs := update.finishedDuration }
  else joined

/-- `SessionRecord::merge`: the record afterwards and whether it changed. A refused update leaves
the record as it was. -/
def merge (self : SessionRecord) (update : SessionUpdate) :
    Except SessionValueError (SessionRecord × Bool) := do
  update.validate
  failIf (self.conflicts update) .conflict
  return (self.merged update, self.merged update ≠ self)

/-- `from_update` on the first update, then `merge` of the others in order. -/
def deliver : List SessionUpdate → Option (Except SessionValueError SessionRecord)
  | [] => none
  | first :: rest => some do
      rest.foldlM (fun record update => Prod.fst <$> record.merge update) (← fromUpdate first)

section merged

variable (self : SessionRecord) (update : SessionUpdate)

@[simp] theorem merged_id : (self.merged update).id = self.id := by
  unfold merged; split <;> rfl

@[simp] theorem merged_projectId : (self.merged update).projectId = self.projectId := by
  unfold merged; split <;> rfl

@[simp] theorem merged_releaseId : (self.merged update).releaseId = self.releaseId := by
  unfold merged; split <;> rfl

@[simp] theorem merged_environmentId :
    (self.merged update).environmentId = self.environmentId := by
  unfold merged; split <;> rfl

@[simp] theorem merged_startedAt :
    (self.merged update).startedAt = min self.startedAt update.startedAt := by
  unfold merged; split <;> rfl

@[simp] theorem merged_lastUpdate :
    (self.merged update).lastUpdate = max self.lastUpdate update.updatedAt := by
  unfold merged; split <;> rfl

@[simp] theorem merged_userDigest :
    (self.merged update).userDigest = self.userDigest.or update.userDigest := by
  unfold merged; split <;> rfl

@[simp] theorem merged_sequence :
    (self.merged update).sequence = laterSequence self.sequence update.sequence := by
  unfold merged; split <;> rfl

variable {self update}

theorem merged_of_adopts (h : self.adopts update = true) :
    (self.merged update).state = update.state ∧
      (self.merged update).finishedAt = update.finishedAt ∧
      (self.merged update).durationMs = update.finishedDuration := by
  simp only [merged, h, if_true, and_self]

theorem merged_of_not_adopts (h : self.adopts update = false) :
    (self.merged update).state = self.state ∧
      (self.merged update).finishedAt = self.finishedAt ∧
      (self.merged update).durationMs = self.durationMs := by
  simp only [merged, h, Bool.false_eq_true, if_false, and_self]

theorem adopts_iff : self.adopts update = true ↔
    self.state.precedence < update.state.precedence ∨
      (update.state = self.state ∧ (self.sequence.getD 0 < update.sequence.getD 0 ∨
        (update.sequence.getD 0 = self.sequence.getD 0 ∧
          self.finishedAt.getD self.lastUpdate < update.updatedAt))) := by
  simp only [adopts, decide_eq_true_eq]

theorem merge_eq_ok (hvalid : update.validate = .ok ()) (hconflict : self.conflicts update = false) :
    self.merge update = .ok (self.merged update, self.merged update ≠ self) := by
  simp only [merge, hvalid, failIf, hconflict, Bool.false_eq_true, if_false]
  rfl

end merged
end SessionRecord
end MetricBackend
