import MetricBackend.DomainIssues

/-! The Issue store of `postgres/src/issues.rs`, for the row of one Issue. Every call is one transaction.
The activity table is left out, and so is reading a grouping body back. The compression function of the
`zstd` package is a parameter. -/

namespace MetricBackend

namespace PostgresIssues

open Issues

def rowMetadataBytes : Nat := 512
def maxOccurrenceBatch : Nat := 10000

structure IssueCodecConfig where
  compressionLevel : Int
  compressionMinSavings : Nat
  maxDecodedBodyBytes : Nat
  maxEncodedRowBytes : Nat
deriving DecidableEq

namespace IssueCodecConfig

/-- The values of `Default`. -/
def defaultValue : IssueCodecConfig where
  compressionLevel := 3
  compressionMinSavings := 64
  maxDecodedBodyBytes := 64 * 1024
  maxEncodedRowBytes := 128 * 1024

/-- The configurations that `PostgresIssueStore::new` takes. -/
def valid (codec : IssueCodecConfig) : Bool :=
  -7 ≤ codec.compressionLevel ∧ codec.compressionLevel ≤ 22 ∧ codec.maxDecodedBodyBytes ≠ 0
    ∧ rowMetadataBytes + 2 < codec.maxEncodedRowBytes ∧ codec.maxEncodedRowBytes ≤ 128 * 1024

end IssueCodecConfig

/-- A row of `metric.issues`. -/
structure IssueRow where
  issue : IssueSnapshot
  groupingBody : List (BitVec 8)
deriving DecidableEq

/-- A row of `metric.issue_transitions`. -/
structure IssueTransition where
  transitionId : IssueTransitionId
  kind : IssueNotificationKind
  eventId : EventId
  createdAt : Timestamp
deriving DecidableEq

/-- `zstd::bulk::compress`. -/
abbrev Compressor : Type := Int → List (BitVec 8) → Option (List (BitVec 8))

/-- `codec::encode_json` for the text of a value. -/
def encodeJson (compress : Compressor) (codec : IssueCodecConfig) (text : Text) :
    Except IssueStoreError (List (BitVec 8)) := do
  let canonical := utf8Bytes text
  failIf (codec.maxDecodedBodyBytes < canonical.length) .invalidData
  let compressed ← orInvalidData (compress codec.compressionLevel canonical)
  if compressed.length + codec.compressionMinSavings ≤ canonical.length then return 1 :: 1 :: compressed
  else return 1 :: 0 :: canonical

def groupingValue (grouping : IssueGroupingDetail) : Text :=
  jsonObject [
    ("components".toList, jsonArray (grouping.components.map fun component =>
      jsonObject [
        ("kind".toList, jsonNumber component.kind.byte.toNat),
        ("value".toList, jsonString component.value)])),
    ("strategy".toList, jsonString grouping.strategy.asStr),
    ("summary".toList, jsonString grouping.summary)]

def optionalLength {maximum : Nat} (value : Option (IssueText maximum)) : Nat :=
  (value.map fun text => byteLength text.asStr).getD 0

/-- The size that a row is charged with. -/
def rowBytes (body : List (BitVec 8)) (title : IssueTitle) (culprit : Option IssueCulprit)
    (firstRelease lastRelease : Option IssueRelease) : Nat :=
  body.length + rowMetadataBytes + byteLength title.asStr + optionalLength culprit
    + optionalLength firstRelease + optionalLength lastRelease

/-- An open Issue has no workflow columns, any other has them. -/
def workflowConsistent (issue : IssueSnapshot) : Bool :=
  if issue.status = .open then issue.workflow.isNone else issue.workflow.isSome

section Store

variable (blake3 : List (BitVec 8) → BitVec 256) (compress : Compressor) (codec : IssueCodecConfig)

def decode (row : IssueRow) : Except IssueStoreError IssueSnapshot := do
  let issue := row.issue
  failIf (issue.groupingKey.revision = 0) .invalidData
  failIf (!verifyIssueId blake3 issue.projectId issue.groupingKey issue.issueId) .invalidData
  failIf (!workflowConsistent issue) .invalidData
  failIf (codec.maxEncodedRowBytes < rowBytes row.groupingBody issue.title issue.culprit issue.firstRelease
    issue.lastRelease) .invalidData
  return issue

/-- The row that the `INSERT` writes. -/
def insertedRow (batch : Batch) (body : List (BitVec 8)) (count : NonZeroU64) : IssueRow where
  issue :=
    { projectId := batch.summary.projectId
      issueId := batch.summary.issueId
      groupingKey := batch.summary.groupingKey
      title := batch.summary.title
      culprit := batch.summary.culprit
      firstSeen := batch.first.occurredAt
      lastSeen := batch.latest.occurredAt
      firstEventId := batch.first.eventId
      latestEventId := batch.latest.eventId
      representativeEventId := batch.latest.eventId
      occurrenceCount := count
      status := .open
      assignee := none
      workflow := none
      regression := none
      firstRelease := batch.first.release
      lastRelease := batch.latest.release }
  groupingBody := body

/-- `positive`. -/
def positive (value : Nat) : Except IssueStoreError NonZeroU64 := orInvalidData (NonZeroU64.new value)

def withFirst (batch : Batch) (issue : IssueSnapshot) : IssueSnapshot :=
  if moment batch.first.occurredAt batch.first.eventId < moment issue.firstSeen issue.firstEventId then
    { issue with
      firstSeen := batch.first.occurredAt
      firstEventId := batch.first.eventId
      firstRelease := batch.first.release }
  else issue

def withLatest (batch : Batch) (issue : IssueSnapshot) : IssueSnapshot :=
  if moment issue.lastSeen issue.latestEventId < moment batch.latest.occurredAt batch.latest.eventId then
    { issue with
      lastSeen := batch.latest.occurredAt
      latestEventId := batch.latest.eventId
      representativeEventId := batch.latest.eventId
      lastRelease := batch.latest.release }
  else issue

/-- The batch reopens a resolved Issue. -/
def regresses (batch : Batch) (issue : IssueSnapshot) : Bool :=
  issue.status = .resolved ∧ issue.workflow.any fun workflow => workflow.atTime < batch.candidate.receivedAt

def withRegression (batch : Batch) (issue : IssueSnapshot) : Except IssueStoreError IssueSnapshot := do
  let count := (issue.regression.map (·.count.get)).getD 0 + 1
  failIf (i64Max < count) .invalidData
  let count ← positive count
  return { issue with
    status := .open
    workflow := none
    regression := some ⟨batch.candidate.receivedAt, batch.candidate.eventId, count, batch.candidate.release⟩ }

def updated (batch : Batch) (issue : IssueSnapshot) : Except IssueStoreError IssueSnapshot := do
  failIf (i64Max < issue.occurrenceCount.get) .invalidData
  failIf (i64Max < issue.occurrenceCount.get + batch.increment) .invalidData
  let count ← positive (issue.occurrenceCount.get + batch.increment)
  let issue := withLatest batch (withFirst batch { issue with occurrenceCount := count })
  if regresses batch issue then withRegression batch issue else return issue

/-- The kind of a batch that did not create its Issue. -/
def updateKind (batch : Batch) (issue : IssueSnapshot) : IssueMutationKind :=
  if issue.status = .open ∧ issue.regression.any fun stored =>
      stored.eventId = batch.candidate.eventId ∧ stored.atTime = batch.candidate.receivedAt then .regressed
  else .updated

/-- The transition that `insert_transition` records. -/
def transitionOf (issue : IssueSnapshot) (kind : IssueNotificationKind) (eventId : EventId)
    (time : Timestamp) : IssueTransition where
  transitionId := notificationTransitionId blake3 issue.projectId issue.issueId kind eventId
  kind := kind
  eventId := eventId
  createdAt := time

/-- What a call writes, and what it answers. -/
structure Written (α : Type) where
  answer : α
  row : IssueRow
  transition : Option IssueTransition
deriving DecidableEq

/-- The batch finds no row. -/
def createIssue (batch : Batch) (body : List (BitVec 8)) :
    Except IssueStoreError (Written IssueMutationResult) := do
  let count ← positive batch.increment
  let row := insertedRow batch body count
  let issue ← decode blake3 codec row
  return ⟨⟨.created, issue⟩, row,
    some (transitionOf blake3 issue .newIssue batch.first.eventId batch.first.receivedAt)⟩

def updateIssue (batch : Batch) (row : IssueRow) : Except IssueStoreError (Written IssueMutationResult) := do
  failIf (row.issue.groupingKey ≠ batch.summary.groupingKey) .identityCollision
  let stored ← decode blake3 codec row
  let issue ← updated batch stored
  return ⟨⟨updateKind batch issue, issue⟩, { row with issue := issue },
    if regresses batch stored then
      some (transitionOf blake3 issue .regression batch.candidate.eventId batch.candidate.receivedAt)
    else none⟩

/-- `apply_batch`. -/
def applyBatch (stored : Option IssueRow) (occurrences : List IssueOccurrence) :
    Except IssueStoreError (Written IssueMutationResult) := do
  failIf (maxOccurrenceBatch < occurrences.length) .invalidData
  let batch ← selectBatch blake3 occurrences
  let body ← encodeJson compress codec (groupingValue batch.summary.grouping)
  failIf (codec.maxEncodedRowBytes < rowBytes body batch.summary.title batch.summary.culprit
    batch.first.release batch.latest.release) .invalidData
  match stored with
  | none => createIssue blake3 codec batch body
  | some row => updateIssue blake3 codec batch row

/-! ### Commands -/

/-- What a command makes of the Issue, when it applies. -/
def commanded (command : IssueCommand) (issue : IssueSnapshot) : Option IssueSnapshot :=
  match command.action with
  | .resolve =>
      if issue.status = .open then
        some { issue with status := .resolved, workflow := some ⟨command.atTime, command.actor⟩ }
      else none
  | .ignore =>
      if issue.status ≠ .ignored then
        some { issue with status := .ignored, workflow := some ⟨command.atTime, command.actor⟩ }
      else none
  | .reopen =>
      if issue.status ≠ .open then some { issue with status := .open, workflow := none } else none
  | .assign assignee => if issue.assignee ≠ assignee then some { issue with assignee := assignee } else none

def applyCommand (stored : Option IssueRow) (command : IssueCommand) :
    Except IssueStoreError (Written IssueCommandResult) :=
  match stored with
  | none => .error .notFound
  | some row => do
      let stored ← decode blake3 codec row
      match commanded command stored with
      | some issue => return ⟨⟨true, issue⟩, { row with issue := issue },
          if command.action = .resolve then
            some (transitionOf blake3 issue .resolved ⟨command.idempotencyKey⟩ command.atTime)
          else none⟩
      | none => return ⟨⟨false, stored⟩, row, none⟩

end Store

/-! ### What the calls do -/

section Specs

variable {blake3 : List (BitVec 8) → BitVec 256} {compress : Compressor} {codec : IssueCodecConfig}
  {batch : Batch} {body : List (BitVec 8)} {occurrences : List IssueOccurrence} {row : IssueRow}
  {issue next : IssueSnapshot}

/-- The size of a row as the store reads it back. -/
def IssueRow.size (row : IssueRow) : Nat :=
  rowBytes row.groupingBody row.issue.title row.issue.culprit row.issue.firstRelease row.issue.lastRelease

theorem decode_eq_ok : decode blake3 codec row = .ok issue ↔
    row.issue = issue ∧ issue.groupingKey.revision ≠ 0
      ∧ verifyIssueId blake3 issue.projectId issue.groupingKey issue.issueId
      ∧ workflowConsistent issue ∧ row.size ≤ codec.maxEncodedRowBytes := by
  simp only [decode, bind_eq_ok, failIf_eq_ok, pure_eq_ok, IssueRow.size]
  constructor
  · rintro ⟨-, hrevision, -, hverified, -, hworkflow, -, hsize, rfl⟩
    exact ⟨rfl, hrevision, by simpa using hverified, by simpa using hworkflow, not_lt.mp hsize⟩
  · rintro ⟨rfl, hrevision, hverified, hworkflow, hsize⟩
    exact ⟨(), hrevision, (), by simpa using hverified, (), by simpa using hworkflow, (), not_lt.mpr hsize, rfl⟩

theorem positive_eq_ok {value : Nat} {count : NonZeroU64} : positive value = .ok count ↔ count.get = value := by
  rw [positive, orInvalidData_eq_ok, NonZeroU64.new]
  constructor
  · intro h
    split_ifs at h
    cases h
    rfl
  · rintro rfl
    exact dif_pos count.inRange

/-- The batch passes every check that does not look at the stored row. -/
structure Admitted (blake3 : List (BitVec 8) → BitVec 256) (compress : Compressor) (codec : IssueCodecConfig)
    (occurrences : List IssueOccurrence) (batch : Batch) (body : List (BitVec 8)) : Prop where
  short : occurrences.length ≤ maxOccurrenceBatch
  selected : SelectedBatch blake3 occurrences batch
  encoded : encodeJson compress codec (groupingValue batch.summary.grouping) = .ok body
  fits : rowBytes body batch.summary.title batch.summary.culprit batch.first.release batch.latest.release
    ≤ codec.maxEncodedRowBytes

theorem applyBatch_eq_ok {stored : Option IssueRow} {written : Written IssueMutationResult} :
    applyBatch blake3 compress codec stored occurrences = .ok written ↔
      ∃ batch body, Admitted blake3 compress codec occurrences batch body
        ∧ (match stored with
          | none => createIssue blake3 codec batch body
          | some row => updateIssue blake3 codec batch row) = .ok written := by
  simp only [applyBatch, bind_eq_ok, failIf_eq_ok, selectBatch_eq_ok]
  constructor
  · rintro ⟨-, hshort, batch, hselected, body, hencoded, -, hfits, hwritten⟩
    exact ⟨batch, body, ⟨not_lt.mp hshort, hselected, hencoded, not_lt.mp hfits⟩, hwritten⟩
  · rintro ⟨batch, body, h, hwritten⟩
    exact ⟨(), not_lt.mpr h.short, batch, h.selected, body, h.encoded, (), not_lt.mpr h.fits, hwritten⟩

theorem createIssue_eq_ok (h : Admitted blake3 compress codec occurrences batch body)
    {written : Written IssueMutationResult} :
    createIssue blake3 codec batch body = .ok written ↔ ∃ count : NonZeroU64, count.get = batch.increment
      ∧ written = ⟨⟨.created, (insertedRow batch body count).issue⟩, insertedRow batch body count,
        some (transitionOf blake3 (insertedRow batch body count).issue .newIssue batch.first.eventId
          batch.first.receivedAt)⟩ := by
  have hone := h.selected.one _ (List.mem_of_mem_head? h.selected.summary)
  simp only [sameIssue, true_and, decide_eq_true_eq] at hone
  have hdecode : ∀ count, decode blake3 codec (insertedRow batch body count) =
      .ok (insertedRow batch body count).issue :=
    fun count => decode_eq_ok.mpr ⟨rfl, batch.summary.keyed, hone, rfl, h.fits⟩
  simp only [createIssue, bind_eq_ok, pure_eq_ok, positive_eq_ok, hdecode, Except.ok.injEq, exists_eq_left']
  exact exists_congr fun count => and_congr_right fun _ => eq_comm

theorem updateIssue_eq_ok {written : Written IssueMutationResult} :
    updateIssue blake3 codec batch row = .ok written ↔
      row.issue.groupingKey = batch.summary.groupingKey ∧ decode blake3 codec row = .ok row.issue
        ∧ ∃ next, updated batch row.issue = .ok next
          ∧ written = ⟨⟨updateKind batch next, next⟩, { row with issue := next },
            if regresses batch row.issue then
              some (transitionOf blake3 next .regression batch.candidate.eventId batch.candidate.receivedAt)
            else none⟩ := by
  simp only [updateIssue, bind_eq_ok, failIf_eq_ok, pure_eq_ok, not_not]
  constructor
  · rintro ⟨-, hkey, stored, hstored, next, hnext, rfl⟩
    obtain rfl := (decode_eq_ok.mp hstored).1
    exact ⟨hkey, hstored, next, hnext, rfl⟩
  · rintro ⟨hkey, hstored, next, hnext, rfl⟩
    exact ⟨(), hkey, _, hstored, next, hnext, rfl⟩

/-- The Issue after the aggregates of the batch, before its lifecycle. -/
def merged (batch : Batch) (count : NonZeroU64) (issue : IssueSnapshot) : IssueSnapshot :=
  withLatest batch (withFirst batch { issue with occurrenceCount := count })

theorem merged_kept (batch : Batch) (count : NonZeroU64) (issue : IssueSnapshot) :
    (merged batch count issue).projectId = issue.projectId
      ∧ (merged batch count issue).issueId = issue.issueId
      ∧ (merged batch count issue).groupingKey = issue.groupingKey
      ∧ (merged batch count issue).title = issue.title
      ∧ (merged batch count issue).culprit = issue.culprit
      ∧ (merged batch count issue).status = issue.status
      ∧ (merged batch count issue).workflow = issue.workflow
      ∧ (merged batch count issue).regression = issue.regression := by
  rw [merged, withLatest, withFirst]
  split_ifs <;> exact ⟨rfl, rfl, rfl, rfl, rfl, rfl, rfl, rfl⟩

theorem regresses_merged {count : NonZeroU64} :
    regresses batch (merged batch count issue) = regresses batch issue := by
  obtain ⟨-, -, -, -, -, hstatus, hworkflow, -⟩ := merged_kept batch count issue
  rw [regresses, hstatus, hworkflow, regresses]

theorem withRegression_eq_ok : withRegression batch issue = .ok next ↔
    ∃ count : NonZeroU64, count.get = (issue.regression.map (·.count.get)).getD 0 + 1 ∧ count.get ≤ i64Max
      ∧ next = { issue with
          status := .open
          workflow := none
          regression := some ⟨batch.candidate.receivedAt, batch.candidate.eventId, count,
            batch.candidate.release⟩ } := by
  simp only [withRegression, bind_eq_ok, failIf_eq_ok, pure_eq_ok, positive_eq_ok]
  constructor
  · rintro ⟨-, hbound, count, hcount, rfl⟩
    exact ⟨count, hcount, by rw [hcount]; exact not_lt.mp hbound, rfl⟩
  · rintro ⟨count, hcount, hbound, rfl⟩
    exact ⟨(), by rw [← hcount]; exact not_lt.mpr hbound, count, hcount, rfl⟩

theorem updated_eq_ok : updated batch issue = .ok next ↔
    ∃ count : NonZeroU64, count.get = issue.occurrenceCount.get + batch.increment ∧ count.get ≤ i64Max
      ∧ if regresses batch issue then withRegression batch (merged batch count issue) = .ok next
        else next = merged batch count issue := by
  have hmerged : ∀ count, withLatest batch (withFirst batch { issue with occurrenceCount := count }) =
      merged batch count issue := fun _ => rfl
  simp only [updated, bind_eq_ok, failIf_eq_ok, positive_eq_ok, hmerged, regresses_merged]
  constructor
  · rintro ⟨-, -, -, hbound, count, hcount, hnext⟩
    refine ⟨count, hcount, by rw [hcount]; exact not_lt.mp hbound, ?_⟩
    split_ifs at hnext ⊢
    · exact hnext
    · exact (pure_eq_ok.mp hnext).symm
  · rintro ⟨count, hcount, hbound, hnext⟩
    refine ⟨(), by omega, (), by omega, count, hcount, ?_⟩
    split_ifs at hnext ⊢
    · exact hnext
    · exact pure_eq_ok.mpr hnext.symm

theorem applyCommand_eq_ok {stored : Option IssueRow} {command : IssueCommand}
    {written : Written IssueCommandResult} :
    applyCommand blake3 codec stored command = .ok written ↔
      ∃ row, stored = some row ∧ decode blake3 codec row = .ok row.issue
        ∧ written = match commanded command row.issue with
          | some issue => ⟨⟨true, issue⟩, { row with issue := issue },
              if command.action = .resolve then
                some (transitionOf blake3 issue .resolved ⟨command.idempotencyKey⟩ command.atTime)
              else none⟩
          | none => ⟨⟨false, row.issue⟩, row, none⟩ := by
  cases stored with
  | none => simp [applyCommand]
  | some row =>
      simp only [applyCommand, bind_eq_ok, Option.some.injEq, exists_eq_left']
      constructor
      · rintro ⟨issue, hdecode, hwritten⟩
        obtain rfl := (decode_eq_ok.mp hdecode).1
        refine ⟨hdecode, ?_⟩
        split at hwritten <;> exact (pure_eq_ok.mp hwritten).symm
      · rintro ⟨hdecode, rfl⟩
        refine ⟨_, hdecode, ?_⟩
        split <;> rfl

end Specs

end PostgresIssues

end MetricBackend
