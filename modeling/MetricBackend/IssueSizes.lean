import MetricBackend.LibRuns
import MetricBackend.IssueLifecycle

/-! The size of an Issue row. A batch is measured with its own title, culprit and releases, the row that
it updates is read back with the title and culprit of the batch that created it. -/

namespace MetricBackend

namespace PostgresIssues

open Issues

section Sizes

variable (blake3 : List (BitVec 8) → BitVec 256) (compress : Compressor) (codec : IssueCodecConfig)

/-- The store can read the row back. -/
def Decodable (tables : IssueTables) : Prop :=
  ∀ row ∈ tables.row, decode blake3 codec row = .ok row.issue

/-- The batch is one that the update of the row takes. -/
structure Taken (row : IssueRow) (occurrences : List IssueOccurrence) (batch : Batch) : Prop where
  admitted : ∃ body, Admitted blake3 compress codec occurrences batch body
  key : row.issue.groupingKey = batch.summary.groupingKey
  count : row.issue.occurrenceCount.get + batch.increment ≤ i64Max
  regression : regresses batch row.issue → regressionTotal row.issue + 1 ≤ i64Max

/-- The batch has an occurrence before the first one of the row. -/
def movesFirst (batch : Batch) (issue : IssueSnapshot) : Bool :=
  moment batch.first.occurredAt batch.first.eventId < moment issue.firstSeen issue.firstEventId

/-- The batch has an occurrence after the latest one of the row. -/
def movesLatest (batch : Batch) (issue : IssueSnapshot) : Bool :=
  moment issue.lastSeen issue.latestEventId < moment batch.latest.occurredAt batch.latest.eventId

/-- The releases that the batch moves into the row fit into what the row and the releases that they
replace leave free. -/
def leavesRoom (row : IssueRow) (batch : Batch) : Bool :=
  row.size + (if movesFirst batch row.issue then optionalLength batch.first.release else 0)
      + (if movesLatest batch row.issue then optionalLength batch.latest.release else 0) ≤
    codec.maxEncodedRowBytes + (if movesFirst batch row.issue then optionalLength row.issue.firstRelease else 0)
      + (if movesLatest batch row.issue then optionalLength row.issue.lastRelease else 0)

/-- Every batch that updates a row leaves room in it. -/
def LeavesRoom (tables : IssueTables) : IssueStep → Prop
  | .batch occurrences => ∀ row ∈ tables.row, ∀ batch, Taken blake3 compress codec row occurrences batch →
      leavesRoom codec row batch
  | .command _ => True

variable {blake3 compress codec} {row : IssueRow} {batch : Batch} {occurrences : List IssueOccurrence}
  {tables : IssueTables}

theorem firstRelease_merged (batch : Batch) (count : NonZeroU64) (issue : IssueSnapshot) :
    (merged batch count issue).firstRelease =
      if movesFirst batch issue then batch.first.release else issue.firstRelease := by
  have hkept : ∀ issue, (withLatest batch issue).firstRelease = issue.firstRelease := by
    intro issue
    rw [withLatest]
    split_ifs <;> rfl
  rw [merged, hkept, withFirst, apply_ite IssueSnapshot.firstRelease]
  simp only [movesFirst, decide_eq_true_eq]

theorem lastRelease_merged (batch : Batch) (count : NonZeroU64) (issue : IssueSnapshot) :
    (merged batch count issue).lastRelease =
      if movesLatest batch issue then batch.latest.release else issue.lastRelease := by
  rw [merged, withLatest, apply_ite IssueSnapshot.lastRelease]
  simp only [movesLatest, decide_eq_true_eq, withFirst, apply_ite IssueSnapshot.lastSeen,
    apply_ite IssueSnapshot.latestEventId, apply_ite IssueSnapshot.lastRelease, ite_self]

/-- The size of the row after the aggregates of a batch. -/
theorem size_merged (row : IssueRow) (batch : Batch) (count : NonZeroU64) :
    (IssueRow.mk (merged batch count row.issue) row.groupingBody).size
        + (if movesFirst batch row.issue then optionalLength row.issue.firstRelease else 0)
        + (if movesLatest batch row.issue then optionalLength row.issue.lastRelease else 0) =
      row.size + (if movesFirst batch row.issue then optionalLength batch.first.release else 0)
        + (if movesLatest batch row.issue then optionalLength batch.latest.release else 0) := by
  obtain ⟨-, -, -, htitle, hculprit, -⟩ := merged_kept batch count row.issue
  simp only [IssueRow.size, rowBytes, firstRelease_merged, lastRelease_merged, htitle, hculprit]
  split_ifs <;> omega

theorem size_merged_le_iff {count : NonZeroU64} :
    (IssueRow.mk (merged batch count row.issue) row.groupingBody).size ≤ codec.maxEncodedRowBytes ↔
      leavesRoom codec row batch := by
  have hsize := size_merged row batch count
  rw [leavesRoom, decide_eq_true_iff]
  omega

/-- A taken batch writes a row of the merged size that can be read back, its size apart. -/
theorem Taken.written (h : Taken blake3 compress codec row occurrences batch)
    (hrow : decode blake3 codec row = .ok row.issue) :
    ∃ written, applyBatch blake3 compress codec (some row) occurrences = .ok written
      ∧ (decode blake3 codec written.row = .ok written.row.issue ↔ leavesRoom codec row batch) := by
  obtain ⟨body, hadmitted⟩ := h.admitted
  have hpos := row.issue.occurrenceCount.inRange.1
  have hcount : 0 < row.issue.occurrenceCount.get + batch.increment
      ∧ row.issue.occurrenceCount.get + batch.increment < 2 ^ 64 :=
    ⟨by omega, h.count.trans_lt (by decide)⟩
  obtain ⟨hproject, hissue, hkey, -, -, hstatus, hworkflow, hregression⟩ :=
    merged_kept batch ⟨_, hcount⟩ row.issue
  obtain ⟨-, hrevision, hverified, hconsistent, -⟩ := decode_eq_ok.mp hrow
  have hread : ∀ next : IssueSnapshot, next.projectId = row.issue.projectId → next.issueId = row.issue.issueId →
      next.groupingKey = row.issue.groupingKey → workflowConsistent next →
      (IssueRow.mk next row.groupingBody).size =
        (IssueRow.mk (merged batch ⟨_, hcount⟩ row.issue) row.groupingBody).size →
      updated batch row.issue = .ok next →
      ∃ written, applyBatch blake3 compress codec (some row) occurrences = .ok written
        ∧ (decode blake3 codec written.row = .ok written.row.issue ↔ leavesRoom codec row batch) := by
    intro next hproject hissue hkey hworkflow hsize hnext
    refine ⟨_, applyBatch_eq_ok.mpr ⟨batch, body, hadmitted,
      updateIssue_eq_ok.mpr ⟨h.key, hrow, next, hnext, rfl⟩⟩, ?_⟩
    rw [decode_eq_ok, ← size_merged_le_iff, ← hsize, hproject, hissue, hkey]
    exact ⟨fun hdecoded => hdecoded.2.2.2.2, fun hfits => ⟨rfl, hrevision, hverified, hworkflow, hfits⟩⟩
  by_cases hregresses : regresses batch row.issue
  · have htotal : 0 < regressionTotal row.issue + 1 ∧ regressionTotal row.issue + 1 < 2 ^ 64 :=
      ⟨by omega, (h.regression hregresses).trans_lt (by decide)⟩
    refine hread { merged batch ⟨_, hcount⟩ row.issue with
        status := .open
        workflow := none
        regression := some ⟨batch.candidate.receivedAt, batch.candidate.eventId, ⟨_, htotal⟩,
          batch.candidate.release⟩ } hproject hissue hkey rfl rfl ?_
    refine updated_eq_ok.mpr ⟨⟨_, hcount⟩, rfl, h.count, ?_⟩
    rw [if_pos hregresses, withRegression_eq_ok, hregression]
    exact ⟨⟨_, htotal⟩, rfl, h.regression hregresses, rfl⟩
  · refine hread (merged batch ⟨_, hcount⟩ row.issue) hproject hissue hkey ?_ rfl ?_
    · rw [workflowConsistent, hstatus, hworkflow]
      exact hconsistent
    · refine updated_eq_ok.mpr ⟨⟨_, hcount⟩, rfl, h.count, ?_⟩
      rw [if_neg hregresses]

/-- Only a taken batch updates a row. -/
theorem taken_of_applyBatch {written : Written IssueMutationResult}
    (h : applyBatch blake3 compress codec (some row) occurrences = .ok written) :
    ∃ batch, Taken blake3 compress codec row occurrences batch := by
  obtain ⟨batch, body, hadmitted, hupdate⟩ := applyBatch_eq_ok.mp h
  obtain ⟨hkey, -, next, hnext, -⟩ := updateIssue_eq_ok.mp hupdate
  obtain ⟨count, hcount, hbound, hnext⟩ := updated_eq_ok.mp hnext
  refine ⟨batch, ⟨body, hadmitted⟩, hkey, hcount ▸ hbound, fun hregresses => ?_⟩
  rw [if_pos hregresses, withRegression_eq_ok, (merged_kept batch count row.issue).2.2.2.2.2.2.2] at hnext
  obtain ⟨total, htotal, hbound, -⟩ := hnext
  rw [regressionTotal, ← htotal]
  exact hbound

/-! ### Every run -/

theorem created_decodable (hrow : tables.row = none) (occurrences : List IssueOccurrence) :
    Decodable blake3 codec (executeStep blake3 compress codec tables (.batch occurrences)) := by
  rw [executeStep, hrow]
  split
  · rename_i written hwritten
    obtain ⟨batch, body, hadmitted, hcreate⟩ := applyBatch_eq_ok.mp hwritten
    obtain ⟨count, -, rfl⟩ := (createIssue_eq_ok hadmitted).mp hcreate
    have hone := hadmitted.selected.one _ (List.mem_of_mem_head? hadmitted.selected.summary)
    simp only [sameIssue, true_and, decide_eq_true_eq] at hone
    rintro row ⟨⟩
    exact decode_eq_ok.mpr ⟨rfl, batch.summary.keyed, hone, rfl, hadmitted.fits⟩
  · rintro row hmem
    rw [hrow] at hmem
    cases hmem

theorem command_decodable (h : Decodable blake3 codec tables) (command : IssueCommand) :
    Decodable blake3 codec (executeStep blake3 compress codec tables (.command command)) := by
  rw [executeStep]
  split
  · rename_i written hwritten
    obtain ⟨row, hrow, hdecode, rfl⟩ := applyCommand_eq_ok.mp hwritten
    obtain ⟨-, hrevision, hverified, hconsistent, hsize⟩ := decode_eq_ok.mp hdecode
    cases hnext : commanded command row.issue with
    | none =>
        rintro stored ⟨⟩
        exact hdecode
    | some next =>
        rintro stored ⟨⟩
        obtain ⟨-, -, rfl⟩ | ⟨-, rfl⟩ | ⟨-, rfl⟩ | ⟨assignee, -, rfl⟩ := commanded_cases hnext
        · exact decode_eq_ok.mpr ⟨rfl, hrevision, hverified, rfl, hsize⟩
        · exact decode_eq_ok.mpr ⟨rfl, hrevision, hverified, rfl, hsize⟩
        · exact decode_eq_ok.mpr ⟨rfl, hrevision, hverified, rfl, hsize⟩
        · exact decode_eq_ok.mpr ⟨rfl, hrevision, hverified, hconsistent, hsize⟩
  · exact h

theorem step_decodable (h : Decodable blake3 codec tables) {step : IssueStep}
    (hroom : LeavesRoom blake3 compress codec tables step) :
    Decodable blake3 codec (executeStep blake3 compress codec tables step) := by
  cases step with
  | command command => exact command_decodable h command
  | batch occurrences =>
      cases hrow : tables.row with
      | none => exact created_decodable hrow occurrences
      | some row =>
          rw [executeStep, hrow]
          split
          · rename_i written hwritten
            obtain ⟨batch, htaken⟩ := taken_of_applyBatch hwritten
            obtain ⟨written', hwritten', hdecode⟩ := htaken.written (h row hrow)
            obtain rfl := Except.ok.inj (hwritten.symm.trans hwritten')
            rintro stored ⟨⟩
            exact hdecode.mpr (hroom row hrow batch htaken)
          · exact h

theorem step_undecodable (h : Decodable blake3 codec tables) {step : IssueStep}
    (hroom : ¬ LeavesRoom blake3 compress codec tables step) :
    ¬ Decodable blake3 codec (executeStep blake3 compress codec tables step) := by
  cases step with
  | command command => exact absurd trivial hroom
  | batch occurrences =>
      simp only [LeavesRoom, not_forall] at hroom
      obtain ⟨row, hrow, batch, htaken, hfull⟩ := hroom
      obtain ⟨written, hwritten, hdecode⟩ := htaken.written (h row hrow)
      rw [executeStep, show tables.row = some row from hrow, hwritten]
      exact fun hnext => hfull (hdecode.mp (hnext written.row rfl))

/-- Every row of a run can be read back exactly when every batch that updates a row leaves room in it. -/
theorem rows_decodable_iff (blake3 : List (BitVec 8) → BitVec 256) (compress : Compressor)
    (codec : IssueCodecConfig) (steps : List IssueStep) :
    Always (executeStep blake3 compress codec) (Decodable blake3 codec) ⟨none, [], 0⟩ steps ↔
      Throughout (executeStep blake3 compress codec) (LeavesRoom blake3 compress codec) ⟨none, [], 0⟩ steps := by
  have hempty : Decodable blake3 codec ⟨none, [], 0⟩ := by
    rintro row ⟨⟩
  exact always_iff_throughout (fun _ h => h) (fun _ _ h hroom => step_decodable h hroom)
    (fun _ _ h hroom => step_undecodable h hroom) steps _ hempty

end Sizes

/-- A configuration with little more than the room that the first row of the run below takes. -/
def tightCodec : IssueCodecConfig := { IssueCodecConfig.defaultValue with maxEncodedRowBytes := 600 }

/-- An occurrence with a short title and a release of seventeen bytes. -/
def releasedOccurrence (eventId : BitVec 128) (time : Timestamp) : IssueOccurrence :=
  { quotaOccurrence eventId time with
    release := some ⟨"backend@1.20.3-rc".toList, by decide⟩
    title := ⟨"q".toList, by decide⟩ }

/-- Both batches are taken, and no later call can read the row. -/
theorem mixed_row_unreadable :
    tightCodec.valid ∧ ¬ Always (executeStep (fun _ => quotaDigest) storedFrame tightCodec)
      (Decodable (fun _ => quotaDigest) tightCodec) ⟨none, [], 0⟩
      [.batch [quotaOccurrence 3 ⟨1000, by decide⟩],
        .batch [releasedOccurrence 4 ⟨500, by decide⟩, releasedOccurrence 5 ⟨1500, by decide⟩]] := by
  refine ⟨by decide, fun h => ?_⟩
  have hrow : ∃ row, (executeStep (fun _ => quotaDigest) storedFrame tightCodec
      (executeStep (fun _ => quotaDigest) storedFrame tightCodec ⟨none, [], 0⟩
        (.batch [quotaOccurrence 3 ⟨1000, by decide⟩]))
      (.batch [releasedOccurrence 4 ⟨500, by decide⟩, releasedOccurrence 5 ⟨1500, by decide⟩])).row = some row
        ∧ decode (fun _ => quotaDigest) tightCodec row = .error .invalidData := by
    refine ⟨_, rfl, ?_⟩
    decide
  obtain ⟨row, hrow, herror⟩ := hrow
  have hread := h.2.2 row hrow
  rw [herror] at hread
  cases hread

end PostgresIssues

end MetricBackend
