import MetricBackend.IssueWrites

/-! Steps on one Issue in both stores. A batch, a command or an expansion keeps the document a picture of
the row, and both stores take it or neither does. The codecs are the default ones. -/

namespace MetricBackend

namespace MongoIssues

open Issues BsonValue
open PostgresIssues (IssueCodecConfig IssueRow IssueStep IssueTables Compressor applyBatch applyCommand
  executeStep regresses workflowConsistent)

/-! ### The calls of the document store -/

section Calls

variable {blake3 : List (BitVec 8) → BitVec 256} {compress : List (BitVec 8) → Option (List (BitVec 8))}
  {stored : Option BsonDocument} {occurrences : List IssueOccurrence} {batch : Batch} {root next : BsonDocument}
  {command : IssueCommand} {applied : Bool}

theorem writeBatch_eq_ok : writeBatch blake3 compress stored occurrences = .ok (batch, root) ↔
    SelectedBatch blake3 occurrences batch
      ∧ ∃ body, encodeGroupingBody compress batch.summary.grouping = .ok body
        ∧ (∀ document ∈ stored, matchesFilter batch document)
        ∧ root = runPipeline (occurrencePipeline blake3 batch body) (stored.getD (upsertSeed batch))
        ∧ issueValidator root := by
  have hfilter_iff : ∀ batch, ¬ stored.any (!matchesFilter batch ·) ↔
      ∀ document ∈ stored, matchesFilter batch document := by
    intro batch
    cases stored <;> simp
  simp only [writeBatch, bind_eq_ok, failIf_eq_ok, pure_eq_ok, selectBatch_eq_ok, Prod.mk.injEq, hfilter_iff,
    Bool.not_eq_true', Bool.not_eq_false]
  constructor
  · rintro ⟨selected, hselected, body, hbody, -, hfilter, -, hvalid, rfl, rfl⟩
    exact ⟨hselected, body, hbody, hfilter, rfl, hvalid⟩
  · rintro ⟨hselected, body, hbody, hfilter, hroot, hvalid⟩
    rw [hroot] at hvalid
    exact ⟨batch, hselected, body, hbody, (), hfilter, (), hvalid, rfl, hroot.symm⟩

theorem writeCommand_eq_ok : writeCommand blake3 (some root) command = .ok (applied, next) ↔
    applied = commandMatches command root
      ∧ next = (if commandMatches command root then commandUpdate blake3 command root else root)
      ∧ (commandMatches command root → issueValidator next) := by
  rw [writeCommand]
  split_ifs with hmatches
  · simp only [bind_eq_ok, failIf_eq_ok, pure_eq_ok, Prod.mk.injEq, hmatches, true_implies]
    constructor
    · rintro ⟨-, hvalid, rfl, rfl⟩
      exact ⟨rfl, rfl, by simpa using hvalid⟩
    · rintro ⟨rfl, rfl, hvalid⟩
      exact ⟨(), by simpa using hvalid, rfl, rfl⟩
  · simp only [pure_eq_ok, Prod.mk.injEq, hmatches]
    constructor
    · rintro ⟨rfl, rfl⟩
      exact ⟨rfl, rfl, fun h => by cases h⟩
    · rintro ⟨rfl, rfl, -⟩
      exact ⟨rfl, rfl⟩

end Calls

/-! ### Sizes of rows -/

theorem optionalLength_le {maximum : Nat} (text : Option (IssueText maximum)) :
    PostgresIssues.optionalLength text ≤ maximum := by
  cases text with
  | none => exact Nat.zero_le _
  | some text => exact text.valid.2

/-- Under the default codec a row with a body of the allowed size is read back. -/
theorem rowBytes_le {body : List (BitVec 8)}
    (hbody : body.length ≤ IssueCodecConfig.defaultValue.maxDecodedBodyBytes + 2) (title : IssueTitle)
    (culprit : Option IssueCulprit) (first last : Option IssueRelease) :
    PostgresIssues.rowBytes body title culprit first last ≤ IssueCodecConfig.defaultValue.maxEncodedRowBytes := by
  have htitle : byteLength title.asStr ≤ 512 := title.valid.2
  have hculprit : PostgresIssues.optionalLength culprit ≤ 256 := optionalLength_le culprit
  have hfirst : PostgresIssues.optionalLength first ≤ 200 := optionalLength_le first
  have hlast : PostgresIssues.optionalLength last ≤ 200 := optionalLength_le last
  simp only [IssueCodecConfig.defaultValue] at hbody ⊢
  simp only [PostgresIssues.rowBytes, PostgresIssues.rowMetadataBytes]
  omega

theorem encodeJson_length {compress : Compressor} {codec : IssueCodecConfig} {text : Text}
    {body : List (BitVec 8)} (h : PostgresIssues.encodeJson compress codec text = .ok body) :
    body.length ≤ codec.maxDecodedBodyBytes + 2 := by
  simp only [PostgresIssues.encodeJson, bind_eq_ok, failIf_eq_ok] at h
  obtain ⟨-, hlength, compressed, -, hbody⟩ := h
  split_ifs at hbody with hsaves
  · obtain rfl := pure_eq_ok.mp hbody
    simp only [List.length_cons]
    omega
  · obtain rfl := pure_eq_ok.mp hbody
    simp only [List.length_cons]
    omega

/-! ### The row and the document -/

/-- The document is the row, and no larger than its collection allows. -/
structure Stored (blake3 : List (BitVec 8) → BitVec 256) (projectId : ProjectId) (row : IssueRow)
    (root : BsonDocument) (pending : List BsonValue) : Prop where
  document : Represents root row.issue pending
  sound : Sound blake3 row.issue
  project : row.issue.projectId = projectId
  body : row.groupingBody.length ≤ IssueCodecConfig.defaultValue.maxDecodedBodyBytes + 2
  length : pending.length ≤ maxPendingTransitions
  items : ∀ item ∈ pending, transitionSchema item

namespace Stored

variable {blake3 : List (BitVec 8) → BitVec 256} {projectId : ProjectId} {row : IssueRow} {root : BsonDocument}
  {pending : List BsonValue} (h : Stored blake3 projectId row root pending)
include h

theorem decodeIssue_eq : decodeIssue blake3 root = .ok row.issue := decodeIssue_represents h.document h.sound

theorem decode_eq : PostgresIssues.decode blake3 .defaultValue row = .ok row.issue :=
  PostgresIssues.decode_eq_ok.mpr ⟨rfl, h.sound.key, h.sound.identity, h.sound.workflow, rowBytes_le h.body ..⟩

theorem valid : issueValidator root := issueValidator_represents h.document h.length h.items

end Stored

/-- Both stores hold the Issue, or neither does. -/
inductive Simulated (blake3 : List (BitVec 8) → BitVec 256) (projectId : ProjectId) :
    Option IssueRow → Option BsonDocument → Prop where
  | absent : Simulated blake3 projectId none none
  | stored {row : IssueRow} {root : BsonDocument} {pending : List BsonValue}
      (h : Stored blake3 projectId row root pending) : Simulated blake3 projectId (some row) (some root)

/-- The transitions that wait in the document. -/
def pendingCount (stored : Option BsonDocument) : Nat :=
  match stored.bind (·.lookup "n".toList) with
  | some (.array items) => items.length
  | _ => 0

theorem transition_schema (blake3 : List (BitVec 8) → BitVec 256) (projectId : ProjectId) (issueId : IssueId)
    (kind : IssueNotificationKind) (eventId : EventId) (time : Timestamp) :
    transitionSchema (transition blake3 projectId issueId kind eventId time) := by
  cases kind <;> rfl

theorem reopenedTransition_spec (blake3 : List (BitVec 8) → BitVec 256) (batch : Batch) (issue : IssueSnapshot) :
    (reopenedTransition blake3 batch issue).isSome = regresses batch issue
      ∧ ∀ item ∈ reopenedTransition blake3 batch issue, transitionSchema item := by
  rw [reopenedTransition]
  split_ifs with hregresses
  · exact ⟨hregresses.symm, by rintro _ ⟨⟩; exact transition_schema ..⟩
  · exact ⟨(Bool.eq_false_iff.mpr hregresses).symm, by rintro _ ⟨⟩⟩

theorem resolvedTransition_spec (blake3 : List (BitVec 8) → BitVec 256) (command : IssueCommand) :
    ((resolvedTransition blake3 command).isSome ↔ command.action = .resolve)
      ∧ ∀ item ∈ resolvedTransition blake3 command, transitionSchema item := by
  rw [resolvedTransition]
  split_ifs with hresolve
  · exact ⟨iff_of_true rfl hresolve, by rintro _ ⟨⟩; exact transition_schema ..⟩
  · exact ⟨iff_of_false (by simp) hresolve, by rintro _ ⟨⟩⟩

/-- One transition more, when there is room for it. -/
theorem queue_room {pending : List BsonValue} {made : Option BsonValue}
    (hlength : pending.length ≤ maxPendingTransitions) (hitems : ∀ item ∈ pending, transitionSchema item)
    (hroom : made.isSome → pending.length < maxPendingTransitions) (hmade : ∀ item ∈ made, transitionSchema item) :
    (pending ++ made.toList).length ≤ maxPendingTransitions
      ∧ ∀ item ∈ pending ++ made.toList, transitionSchema item := by
  cases made with
  | none =>
      rw [Option.toList_none, List.append_nil]
      exact ⟨hlength, hitems⟩
  | some made =>
      refine ⟨by rw [List.length_append]; exact hroom rfl, fun item hitem => ?_⟩
      rcases List.mem_append.mp hitem with hmem | hmem
      · exact hitems item hmem
      · exact hmade item (Option.mem_toList.mp hmem)

theorem Stored.pendingCount_eq {blake3 : List (BitVec 8) → BitVec 256} {projectId : ProjectId} {row : IssueRow}
    {root : BsonDocument} {pending : List BsonValue} (h : Stored blake3 projectId row root pending) :
    pendingCount (some root) = pending.length := by
  rw [pendingCount, Option.bind_some, h.document.pending, pendingField]
  split_ifs with hempty
  · rw [hempty]
    rfl
  · rfl

/-! ### Batches -/

/-- No text of the occurrence starts with a dollar sign. -/
structure PlainOccurrence (occurrence : IssueOccurrence) : Prop where
  title : ¬ dollared occurrence.title.asStr
  culprit : ∀ culprit ∈ occurrence.culprit, ¬ dollared culprit.asStr
  release : ∀ release ∈ occurrence.release, ¬ dollared release.asStr

/-- A batch that the stores judge alike: short enough for the row store, with a grouping body that both
encode or neither does, and with room in the document for the transition that it records. -/
structure FitsBatch (blake3 : List (BitVec 8) → BitVec 256) (compress : Compressor) (row : Option IssueRow)
    (stored : Option BsonDocument) (occurrences : List IssueOccurrence) : Prop where
  plain : ∀ occurrence ∈ occurrences, PlainOccurrence occurrence
  short : occurrences.length ≤ PostgresIssues.maxOccurrenceBatch
  encoded : ∀ occurrence ∈ occurrences.head?,
    (PostgresIssues.encodeJson compress .defaultValue (PostgresIssues.groupingValue occurrence.grouping)).isOk =
      (encodeGroupingBody (compress IssueCodecConfig.defaultValue.compressionLevel) occurrence.grouping).isOk
  room : ∀ batch, selectBatch blake3 occurrences = .ok batch → row.any (regresses batch ·.issue) →
    pendingCount stored < maxPendingTransitions

section Batches

variable {blake3 : List (BitVec 8) → BitVec 256} {compress : Compressor} {projectId : ProjectId}
  {issueId : IssueId} {occurrences : List IssueOccurrence} {batch : Batch} {row : Option IssueRow}
  {stored : Option BsonDocument}

theorem plainTexts_of_selected (hplain : ∀ occurrence ∈ occurrences, PlainOccurrence occurrence)
    (h : SelectedBatch blake3 occurrences batch) :
    PlainTexts batch ∧ ∀ release ∈ batch.candidate.release, ¬ dollared release.asStr := by
  have hsummary := hplain _ (List.mem_of_mem_head? h.summary)
  have hfirst := hplain _ (minByKey_spec h.first).1
  have hlatest := hplain _ (maxByKey_spec h.latest).1
  have hcandidate := hplain _ (maxByKey_spec h.candidate).1
  exact ⟨⟨hsummary.title, hsummary.culprit, hfirst.release, hlatest.release⟩, hcandidate.release⟩

theorem selected_project (hon : (IssueStep.batch occurrences).On projectId issueId)
    (h : SelectedBatch blake3 occurrences batch) : batch.summary.projectId = projectId :=
  (hon.1 _ (List.mem_of_mem_head? h.summary)).1

theorem selected_identity (h : SelectedBatch blake3 occurrences batch) :
    verifyIssueId blake3 batch.summary.projectId batch.summary.groupingKey batch.summary.issueId = true := by
  have hone := h.one _ (List.mem_of_mem_head? h.summary)
  simpa [sameIssue] using hone

/-- The Issue that a batch creates, in both stores. -/
theorem created_stored (hselected : SelectedBatch blake3 occurrences batch)
    (hon : (IssueStep.batch occurrences).On projectId issueId)
    (hplain : ∀ occurrence ∈ occurrences, PlainOccurrence occurrence) {rowBody : List (BitVec 8)}
    (hbody : rowBody.length ≤ IssueCodecConfig.defaultValue.maxDecodedBodyBytes + 2) {count : NonZeroU64}
    (hcount : count.get = batch.increment) (body : List (BitVec 8)) :
    Stored blake3 projectId (PostgresIssues.insertedRow batch rowBody count)
      (runPipeline (occurrencePipeline blake3 batch body) (upsertSeed batch)) [newTransition blake3 batch] where
  document := created_represents (plainTexts_of_selected hplain hselected).1 hcount hselected.bound rowBody
  sound :=
    { key := batch.summary.keyed
      identity := selected_identity hselected
      workflow := rfl
      representative := rfl
      count := by
        rw [show (PostgresIssues.insertedRow batch rowBody count).issue.occurrenceCount = count from rfl, hcount]
        exact hselected.bound
      regression := by
        rintro regression ⟨⟩ }
  project := selected_project hon hselected
  body := hbody
  length := Nat.succ_le_succ (Nat.zero_le 63)
  items := by
    intro item hitem
    rw [List.mem_singleton.mp hitem]
    rfl

theorem sound_of_updatedBy {issue next : IssueSnapshot} (h : Sound blake3 issue)
    (hnext : UpdatedBy batch issue next) : Sound blake3 next where
  key := by rw [hnext.key]; exact h.key
  identity := by rw [hnext.project, hnext.key, hnext.id]; exact h.identity
  workflow := by
    rw [workflowConsistent, hnext.status, hnext.workflow]
    by_cases hregresses : regresses batch issue
    · rw [if_pos hregresses, if_pos hregresses]
      rfl
    · rw [if_neg hregresses, if_neg hregresses]
      exact h.workflow
  representative := by rw [hnext.representative, hnext.latestEvent, h.representative]
  count := hnext.countFits
  regression := by
    have hregression := hnext.regression
    split_ifs at hregression
    · obtain ⟨count, -, hfits, hnew⟩ := hregression
      rw [hnew]
      rintro regression ⟨⟩
      exact hfits
    · rw [hregression]
      exact h.regression

/-- The Issue that a batch updates, in both stores. -/
theorem updated_stored {row : IssueRow} {root : BsonDocument} {pending : List BsonValue}
    (h : Stored blake3 projectId row root pending) (hselected : SelectedBatch blake3 occurrences batch)
    (hplain : ∀ occurrence ∈ occurrences, PlainOccurrence occurrence)
    (hroom : regresses batch row.issue → pending.length < maxPendingTransitions) {next : IssueSnapshot}
    (hnext : PostgresIssues.updated batch row.issue = .ok next) (body : List (BitVec 8)) :
    Stored blake3 projectId { row with issue := next } (runPipeline (occurrencePipeline blake3 batch body) root)
      (pending ++ (reopenedTransition blake3 batch row.issue).toList) := by
  obtain ⟨htexts, hcandidate⟩ := plainTexts_of_selected hplain hselected
  have hupdated := updatedBy_of_updated hnext
  obtain ⟨hmade, hschema⟩ := reopenedTransition_spec blake3 batch row.issue
  obtain ⟨hlength, hitems⟩ := queue_room h.length h.items (hmade ▸ hroom) hschema
  exact
    { document := updated_represents h.document hupdated h.sound.workflow htexts hcandidate
      sound := sound_of_updatedBy h.sound hupdated
      project := hupdated.project.trans h.project
      body := h.body
      length := hlength
      items := hitems }

theorem order_key {left right : GroupingKey} (hleft : left.revision ≠ 0) (hright : right.revision ≠ 0) :
    order (keyBinary left) (keyBinary right) = .eq ↔ left = right := by
  constructor
  · intro heq
    rw [keyBinary, keyBinary, binary, binary, order_binary, Nat.compare_eq_eq] at heq
    have hread := readKey_key hleft
    rw [keyBinary, binary, heq] at hread
    exact Option.some.inj (hread.symm.trans (readKey_key hright))
  · rintro rfl
    exact order_binary.trans (Nat.compare_eq_eq.mpr rfl)

theorem matchesFilter_iff {row : IssueRow} {root : BsonDocument} {pending : List BsonValue}
    (h : Stored blake3 projectId row root pending) (hselected : SelectedBatch blake3 occurrences batch)
    (hon : (IssueStep.batch occurrences).On projectId issueId) :
    matchesFilter batch root ↔ row.issue.groupingKey = batch.summary.groupingKey := by
  have hproject : order (.int32 row.issue.projectId.get) (.int32 batch.summary.projectId.get) = .eq := by
    rw [h.project, selected_project hon hselected]
    simp only [order, rank, number]
    rw [Nat.compare_eq_eq.mpr rfl, Ordering.eq_then, compare_eq_iff_eq]
  rw [matchesFilter, decide_eq_true_iff, h.document.project, h.document.key, orderResults, orderResults, hproject,
    order_key (h.sound.key) batch.summary.keyed]
  exact and_iff_right rfl

theorem mutationKind_updated {issue next : IssueSnapshot} (hnext : UpdatedBy batch issue next) :
    mutationKind batch next = PostgresIssues.updateKind batch next := by
  have hpositive := issue.occurrenceCount.inRange.1
  rw [mutationKind, if_neg, PostgresIssues.updateKind]
  rw [hnext.count]
  omega

/-- A batch that Postgres takes is taken by Mongo, with the same Issue and answer. -/
theorem writeBatch_of_applyBatch (hsim : Simulated blake3 projectId row stored)
    (hon : (IssueStep.batch occurrences).On projectId issueId)
    (hfits : FitsBatch blake3 compress row stored occurrences) {written : PostgresIssues.Written IssueMutationResult}
    (hwritten : applyBatch blake3 compress .defaultValue row occurrences = .ok written) :
    ∃ result, writeBatch blake3 (compress IssueCodecConfig.defaultValue.compressionLevel) stored occurrences
        = .ok result
      ∧ Simulated blake3 projectId (some written.row) (some result.2)
      ∧ written.answer = ⟨mutationKind result.1 written.row.issue, written.row.issue⟩ := by
  obtain ⟨batch, rowBody, hadmitted, hwritten⟩ := PostgresIssues.applyBatch_eq_ok.mp hwritten
  have hselected := hadmitted.selected
  have hbody := hfits.encoded _ hselected.summary
  rw [hadmitted.encoded] at hbody
  obtain ⟨body, hbody⟩ := exists_ok_of_isOk hbody.symm
  cases hsim with
  | absent =>
      obtain ⟨count, hcount, rfl⟩ := (PostgresIssues.createIssue_eq_ok hadmitted).mp hwritten
      have hstored := created_stored hselected hon hfits.plain (encodeJson_length hadmitted.encoded) hcount body
      have hkind : mutationKind batch (PostgresIssues.insertedRow batch rowBody count).issue = .created :=
        if_pos hcount
      have hwritten : writeBatch blake3 (compress IssueCodecConfig.defaultValue.compressionLevel) none
          occurrences = .ok (batch, runPipeline (occurrencePipeline blake3 batch body) (upsertSeed batch)) :=
        writeBatch_eq_ok.mpr ⟨hselected, body, hbody, (fun _ h => by cases h), rfl, hstored.valid⟩
      refine ⟨_, hwritten, ?_⟩
      dsimp only
      exact ⟨.stored hstored, by rw [hkind]⟩
  | @stored row root pending h =>
      obtain ⟨hkey, -, next, hnext, rfl⟩ := PostgresIssues.updateIssue_eq_ok.mp hwritten
      have hroom : regresses batch row.issue → pending.length < maxPendingTransitions := fun hregresses =>
        h.pendingCount_eq ▸ hfits.room batch (selectBatch_eq_ok.mpr hselected) hregresses
      have hstored := updated_stored h hselected hfits.plain hroom hnext body
      have hwritten : writeBatch blake3 (compress IssueCodecConfig.defaultValue.compressionLevel) (some root)
          occurrences = .ok (batch, runPipeline (occurrencePipeline blake3 batch body) root) := by
        refine writeBatch_eq_ok.mpr ⟨hselected, body, hbody, ?_, rfl, hstored.valid⟩
        rintro document ⟨⟩
        exact (matchesFilter_iff h hselected hon).mpr hkey
      refine ⟨_, hwritten, ?_⟩
      dsimp only
      exact ⟨.stored hstored, by rw [mutationKind_updated (updatedBy_of_updated hnext)]⟩

/-- A batch that Mongo takes is taken by Postgres. -/
theorem applyBatch_of_writeBatch (hsim : Simulated blake3 projectId row stored)
    (hon : (IssueStep.batch occurrences).On projectId issueId)
    (hfits : FitsBatch blake3 compress row stored occurrences) {result : Batch × BsonDocument}
    (hwritten : writeBatch blake3 (compress IssueCodecConfig.defaultValue.compressionLevel) stored occurrences
      = .ok result) :
    ∃ written, applyBatch blake3 compress .defaultValue row occurrences = .ok written := by
  obtain ⟨batch, root⟩ := result
  obtain ⟨hselected, body, hbody, hfilter, hroot, hvalid⟩ := writeBatch_eq_ok.mp hwritten
  rw [hroot] at hvalid
  have hrowBody := hfits.encoded _ hselected.summary
  rw [hbody] at hrowBody
  obtain ⟨rowBody, hrowBody⟩ := exists_ok_of_isOk hrowBody
  have hadmitted : PostgresIssues.Admitted blake3 compress .defaultValue occurrences batch rowBody :=
    ⟨hfits.short, hselected, hrowBody, rowBytes_le (encodeJson_length hrowBody) ..⟩
  cases hsim with
  | absent =>
      obtain ⟨count, hcount⟩ : ∃ count : NonZeroU64, count.get = batch.increment :=
        ⟨⟨_, positive_of_fits hselected.increment_pos hselected.bound⟩, rfl⟩
      exact ⟨_, PostgresIssues.applyBatch_eq_ok.mpr ⟨batch, rowBody, hadmitted,
        (PostgresIssues.createIssue_eq_ok hadmitted).mpr ⟨count, hcount, rfl⟩⟩⟩
  | stored h =>
      have hkey := (matchesFilter_iff h hselected hon).mp (hfilter _ rfl)
      have hcandidate := (plainTexts_of_selected hfits.plain hselected).2
      obtain ⟨next, hnext⟩ :=
        updated_of_valid h.document hselected.increment_pos h.sound.workflow hcandidate hvalid
      exact ⟨_, PostgresIssues.applyBatch_eq_ok.mpr ⟨batch, rowBody, hadmitted,
        PostgresIssues.updateIssue_eq_ok.mpr ⟨hkey, h.decode_eq, next, hnext, rfl⟩⟩⟩

/-- A batch is taken by both stores, which hold the Issue afterwards, or by neither. -/
theorem batch_alike (hsim : Simulated blake3 projectId row stored)
    (hon : (IssueStep.batch occurrences).On projectId issueId)
    (hfits : FitsBatch blake3 compress row stored occurrences) :
    Alike (fun written result => Simulated blake3 projectId (some written.row) (some result.2)
        ∧ written.answer = ⟨mutationKind result.1 written.row.issue, written.row.issue⟩)
      (applyBatch blake3 compress .defaultValue row occurrences)
      (writeBatch blake3 (compress IssueCodecConfig.defaultValue.compressionLevel) stored occurrences) :=
  alike_of (fun _ => writeBatch_of_applyBatch hsim hon hfits) fun _ => applyBatch_of_writeBatch hsim hon hfits

end Batches

/-! ### Commands and expansions -/

section Commands

variable {blake3 : List (BitVec 8) → BitVec 256} {projectId : ProjectId} {row : Option IssueRow}
  {stored : Option BsonDocument} {command : IssueCommand}

/-- There is room in the document for the transition of a command that resolves the Issue. -/
def FitsCommand (row : Option IssueRow) (stored : Option BsonDocument) (command : IssueCommand) : Prop :=
  command.action = .resolve → row.any (·.issue.status = .open) → pendingCount stored < maxPendingTransitions

theorem sound_of_commanded {issue next : IssueSnapshot} (h : Sound blake3 issue)
    (hnext : PostgresIssues.commanded command issue = some next) : Sound blake3 next := by
  obtain ⟨-, -, rfl⟩ | ⟨-, rfl⟩ | ⟨-, rfl⟩ | ⟨assignee, -, rfl⟩ := PostgresIssues.commanded_cases hnext
  · exact { h with workflow := rfl }
  · exact { h with workflow := rfl }
  · exact { h with workflow := rfl }
  · exact { h with workflow := h.workflow }

/-- The Issue that a command changes, in both stores. -/
theorem commanded_stored {row : IssueRow} {root : BsonDocument} {pending : List BsonValue}
    (h : Stored blake3 projectId row root pending) (hfits : FitsCommand (some row) (some root) command)
    {next : IssueSnapshot} (hnext : PostgresIssues.commanded command row.issue = some next) :
    Stored blake3 projectId { row with issue := next } (commandUpdate blake3 command root)
      (pending ++ (resolvedTransition blake3 command).toList) := by
  have hproject : next.projectId = row.issue.projectId := by
    obtain ⟨-, -, rfl⟩ | ⟨-, rfl⟩ | ⟨-, rfl⟩ | ⟨assignee, -, rfl⟩ := PostgresIssues.commanded_cases hnext <;> rfl
  obtain ⟨hmade, hschema⟩ := resolvedTransition_spec blake3 command
  have hroom : (resolvedTransition blake3 command).isSome → pending.length < maxPendingTransitions := by
    intro hsome
    have hresolve := hmade.mp hsome
    have hopen : row.issue.status = .open := by
      simp only [PostgresIssues.commanded, hresolve] at hnext
      split_ifs at hnext with hopen
      exact hopen
    rw [← h.pendingCount_eq]
    exact hfits hresolve (by simpa using hopen)
  obtain ⟨hlength, hitems⟩ := queue_room h.length h.items hroom hschema
  exact
    { document := commanded_represents h.document hnext
      sound := sound_of_commanded h.sound hnext
      project := hproject.trans h.project
      body := h.body
      length := hlength
      items := hitems }

/-- A command is answered alike by both stores, which hold the Issue afterwards. -/
theorem command_alike (hsim : Simulated blake3 projectId row stored) (hfits : FitsCommand row stored command) :
    Alike (fun written result => Simulated blake3 projectId (some written.row) (some result.2)
        ∧ written.answer = ⟨result.1, written.row.issue⟩)
      (applyCommand blake3 .defaultValue row command) (writeCommand blake3 stored command) := by
  cases hsim with
  | absent => trivial
  | @stored row root pending h =>
      refine alike_of ?_ ?_
      · intro written hwritten
        obtain ⟨_, ⟨⟩, -, rfl⟩ := PostgresIssues.applyCommand_eq_ok.mp hwritten
        have hmatches : commandMatches command root = (PostgresIssues.commanded command row.issue).isSome :=
          commandMatches_eq h.document
        cases hnext : PostgresIssues.commanded command row.issue with
        | none =>
            rw [hnext] at hmatches
            have hwritten : writeCommand blake3 (some root) command = .ok (false, root) :=
              writeCommand_eq_ok.mpr ⟨hmatches.symm, by rw [hmatches]; rfl, fun h => by rw [hmatches] at h; cases h⟩
            exact ⟨_, hwritten, .stored h, rfl⟩
        | some next =>
            rw [hnext] at hmatches
            have hstored := commanded_stored h hfits hnext
            have hwritten : writeCommand blake3 (some root) command =
                .ok (true, commandUpdate blake3 command root) :=
              writeCommand_eq_ok.mpr ⟨hmatches.symm, by rw [hmatches]; rfl, fun _ => hstored.valid⟩
            refine ⟨_, hwritten, ?_⟩
            dsimp only
            exact ⟨.stored hstored, rfl⟩
      · rintro ⟨applied, next⟩ -
        exact ⟨_, PostgresIssues.applyCommand_eq_ok.mpr ⟨row, rfl, h.decode_eq, rfl⟩⟩

/-- The expansion of a transition leaves the Issue in both stores. -/
theorem expanded_simulated (hsim : Simulated blake3 projectId row stored) (id : IssueTransitionId) :
    Simulated blake3 projectId row (stored.map (removePending id)) := by
  cases hsim with
  | absent => exact .absent
  | @stored row root pending h =>
      exact .stored
        { document := expanded_represents h.document id
          sound := h.sound
          project := h.project
          body := h.body
          length := (List.length_filter_le _ pending).trans h.length
          items := fun item hitem => h.items item (List.mem_of_mem_filter hitem) }

end Commands

end MongoIssues

end MetricBackend
