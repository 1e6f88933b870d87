import MetricBackend.LibRuns
import MetricBackend.IssueSimulation

/-! Runs of one Issue in both stores: the same batches and commands on the row and on the document, and
expansions of the transitions that wait in the document. -/

namespace MetricBackend

namespace MongoIssues

open Issues BsonValue
open PostgresIssues (IssueCodecConfig IssueRow IssueStep IssueTables Compressor applyBatch applyCommand
  executeStep)

/-! ### Runs on both stores -/

/-- The Issue in the row store and in the document store. -/
structure Stores where
  tables : IssueTables
  document : Option BsonDocument

inductive StoreStep where
  | issued (step : IssueStep)
  | expanded (id : IssueTransitionId)

/-- The step is about this Issue. -/
def StoreStep.On (projectId : ProjectId) (issueId : IssueId) : StoreStep → Prop
  | .issued step => step.On projectId issueId
  | .expanded _ => True

namespace Stores

def empty : Stores := ⟨⟨none, [], 0⟩, none⟩

section Steps

variable (blake3 : List (BitVec 8) → BitVec 256) (compress : Compressor)

/-- A write that fails leaves the document as it was. -/
def documentAfter (stores : Stores) : IssueStep → Option BsonDocument
  | .batch occurrences =>
      match writeBatch blake3 (compress IssueCodecConfig.defaultValue.compressionLevel) stores.document
        occurrences with
      | .ok (_, root) => some root
      | .error _ => stores.document
  | .command command =>
      match writeCommand blake3 stores.document command with
      | .ok (_, root) => some root
      | .error _ => stores.document

def execute (stores : Stores) : StoreStep → Stores
  | .issued step =>
      ⟨executeStep blake3 compress .defaultValue stores.tables step, documentAfter blake3 compress stores step⟩
  | .expanded id => { stores with document := stores.document.map (removePending id) }

/-- The stores judge the step alike. -/
def Fits (stores : Stores) : StoreStep → Prop
  | .issued (.batch occurrences) => FitsBatch blake3 compress stores.tables.row stores.document occurrences
  | .issued (.command command) => FitsCommand stores.tables.row stores.document command
  | .expanded _ => True

/-- The document says what the row says. -/
def SameIssue (stores : Stores) : Prop :=
  stores.document.map (decodeIssue blake3) = stores.tables.row.map fun row => .ok row.issue

/-- Both stores give the answer to the step, or both refuse it. -/
def SameAnswer (stores : Stores) : StoreStep → Prop
  | .issued (.batch occurrences) =>
      Alike (fun written answer => written.answer = answer)
        (applyBatch blake3 compress .defaultValue stores.tables.row occurrences)
        (answerBatch blake3 (compress IssueCodecConfig.defaultValue.compressionLevel) stores.document occurrences)
  | .issued (.command command) =>
      Alike (fun written answer => written.answer = answer)
        (applyCommand blake3 .defaultValue stores.tables.row command)
        (answerCommand blake3 stores.document command)
  | .expanded _ => True

end Steps

section Runs

variable {blake3 : List (BitVec 8) → BitVec 256} {compress : Compressor} {projectId : ProjectId}
  {issueId : IssueId} {stores : Stores}

theorem sameIssue_of_simulated (h : Simulated blake3 projectId stores.tables.row stores.document) :
    stores.SameIssue blake3 := by
  rw [SameIssue]
  generalize stores.tables.row = row at h
  generalize stores.document = stored at h
  cases h with
  | absent => rfl
  | stored h => rw [Option.map_some, Option.map_some, h.decodeIssue_eq]

theorem execute_simulated (h : Simulated blake3 projectId stores.tables.row stores.document) {step : StoreStep}
    (hon : step.On projectId issueId) (hfits : stores.Fits blake3 compress step) :
    Simulated blake3 projectId (stores.execute blake3 compress step).tables.row
      (stores.execute blake3 compress step).document := by
  cases step with
  | expanded id => exact expanded_simulated h id
  | issued step =>
      cases step with
      | batch occurrences =>
          obtain ⟨written, ⟨batch, root⟩, hrow, hdocument, hnext, -⟩ | ⟨_, _, hrow, hdocument⟩ :=
            (batch_alike h hon hfits).cases
          · simp only [execute, executeStep, documentAfter, hrow, hdocument]
            exact hnext
          · simp only [execute, executeStep, documentAfter, hrow, hdocument]
            exact h
      | command command =>
          obtain ⟨written, ⟨applied, root⟩, hrow, hdocument, hnext, -⟩ | ⟨_, _, hrow, hdocument⟩ :=
            (command_alike h hfits).cases
          · simp only [execute, executeStep, documentAfter, hrow, hdocument]
            exact hnext
          · simp only [execute, executeStep, documentAfter, hrow, hdocument]
            exact h

theorem decodeIssue_of_simulated {row : IssueRow} {root : BsonDocument}
    (h : Simulated blake3 projectId (some row) (some root)) : decodeIssue blake3 root = .ok row.issue := by
  cases h with
  | stored h => exact h.decodeIssue_eq

theorem sameAnswer_of_simulated (h : Simulated blake3 projectId stores.tables.row stores.document)
    {step : StoreStep} (hon : step.On projectId issueId) (hfits : stores.Fits blake3 compress step) :
    stores.SameAnswer blake3 compress step := by
  cases step with
  | expanded id => trivial
  | issued step =>
      cases step with
      | batch occurrences =>
          obtain ⟨written, ⟨batch, root⟩, hrow, hdocument, hnext, hanswer⟩ | ⟨_, _, hrow, hdocument⟩ :=
            (batch_alike h hon hfits).cases
          · have hdecoded : answerBatch blake3 (compress IssueCodecConfig.defaultValue.compressionLevel)
                stores.document occurrences = .ok ⟨mutationKind batch written.row.issue, written.row.issue⟩ := by
              simp only [answerBatch, bind_eq_ok, mapError_eq_ok, pure_eq_ok]
              exact ⟨_, hdocument, _, decodeIssue_of_simulated hnext, rfl⟩
            rw [SameAnswer, hrow, hdecoded]
            exact hanswer
          · have hrefused : answerBatch blake3 (compress IssueCodecConfig.defaultValue.compressionLevel)
                stores.document occurrences = .error _ := bind_eq_error.mpr (.inl hdocument)
            rw [SameAnswer, hrow, hrefused]
            trivial
      | command command =>
          obtain ⟨written, ⟨applied, root⟩, hrow, hdocument, hnext, hanswer⟩ | ⟨_, _, hrow, hdocument⟩ :=
            (command_alike h hfits).cases
          · have hdecoded : answerCommand blake3 stores.document command = .ok ⟨applied, written.row.issue⟩ := by
              simp only [answerCommand, bind_eq_ok, mapError_eq_ok, pure_eq_ok]
              exact ⟨_, hdocument, _, decodeIssue_of_simulated hnext, rfl⟩
            rw [SameAnswer, hrow, hdecoded]
            exact hanswer
          · have hrefused : answerCommand blake3 stores.document command = .error _ :=
              bind_eq_error.mpr (.inl hdocument)
            rw [SameAnswer, hrow, hrefused]
            trivial

end Runs

end Stores

/-- In both stores an Issue goes through the same batches and commands alike: after every step the document
says what the row says, and every step that the stores judge alike is answered alike. -/
theorem document_simulates_row (blake3 : List (BitVec 8) → BitVec 256) (compress : Compressor)
    (projectId : ProjectId) (issueId : IssueId) (steps : List StoreStep)
    (hon : ∀ step ∈ steps, step.On projectId issueId)
    (hfits : Throughout (Stores.execute blake3 compress) (Stores.Fits blake3 compress) .empty steps) :
    Always (Stores.execute blake3 compress) (fun stores =>
      stores.SameIssue blake3
        ∧ ∀ step : StoreStep, step.On projectId issueId → stores.Fits blake3 compress step →
          stores.SameAnswer blake3 compress step) .empty steps := by
  have himplies : ∀ stores : Stores, Simulated blake3 projectId stores.tables.row stores.document →
      stores.SameIssue blake3 ∧ ∀ step : StoreStep, step.On projectId issueId → stores.Fits blake3 compress step →
        stores.SameAnswer blake3 compress step := fun stores h =>
    ⟨Stores.sameIssue_of_simulated h, fun step hstep => Stores.sameAnswer_of_simulated h hstep⟩
  have hstep : ∀ (stores : Stores) (step : StoreStep), Simulated blake3 projectId stores.tables.row stores.document →
      step.On projectId issueId ∧ stores.Fits blake3 compress step →
        Simulated blake3 projectId (stores.execute blake3 compress step).tables.row
          (stores.execute blake3 compress step).document := fun stores step h hallowed =>
    Stores.execute_simulated h hallowed.1 hallowed.2
  exact always_of_throughout himplies hstep steps .empty .absent (hfits.and_forall hon)

/-! ### Steps that the stores judge differently -/

/-- A frame of `zstd` with one block that is stored as it is. -/
def rawFrame : Compressor := fun _ bytes =>
  some ([0x28, 0xb5, 0x2f, 0xfd, 0xa0] ++ (bigEndian 4 bytes.length).reverse
    ++ (bigEndian 3 (bytes.length * 8 + 1)).reverse ++ bytes)

def quotaProject : ProjectId := ⟨1, ProjectId.positive_one⟩

def quotaIssue : IssueId := ⟨0x7e59fc8f23a517c59cb62e13ec9813d0⟩

def quotaCommand (key : BitVec 128) (action : IssueCommandAction) : IssueCommand :=
  ⟨quotaProject, quotaIssue, key, ⟨.user, 1⟩, ⟨2000, inRange_nextSecond⟩, action⟩

/-- The texts of the step are plain. -/
def StoreStep.Plain : StoreStep → Prop
  | .issued (.batch occurrences) => ∀ occurrence ∈ occurrences, PlainOccurrence occurrence
  | _ => True

theorem quotaOccurrence_plain (eventId : BitVec 128) (time : Timestamp) :
    PlainOccurrence (PostgresIssues.quotaOccurrence eventId time) := by
  refine ⟨?_, ?_, ?_⟩
  · have hplain : ¬ dollared "quota exceeded".toList := by decide
    exact hplain
  · rintro culprit ⟨⟩
  · rintro release ⟨⟩

section Filling

variable {blake3 : List (BitVec 8) → BitVec 256} {compress : Compressor} {projectId : ProjectId}
  {issueId : IssueId} {stores : Stores} {command : IssueCommand}

/-- The stores hold this row and this document. -/
structure Holding (blake3 : List (BitVec 8) → BitVec 256) (projectId : ProjectId) (stores : Stores)
    (row : IssueRow) (root : BsonDocument) (pending : List BsonValue) : Prop where
  tables : stores.tables.row = some row
  document : stores.document = some root
  stored : Stored blake3 projectId row root pending

/-- The stores hold an open Issue, with so many transitions waiting in the document. -/
def Filled (blake3 : List (BitVec 8) → BitVec 256) (projectId : ProjectId) (count : Nat) (stores : Stores) : Prop :=
  ∃ row root pending, Holding blake3 projectId stores row root pending
    ∧ pending.length = count ∧ row.issue.status = .open

theorem resolvable {issue : IssueSnapshot} (hresolve : command.action = .resolve) (hopen : issue.status = .open) :
    ∃ next, PostgresIssues.commanded command issue = some next ∧ next.status = .resolved := by
  simp only [PostgresIssues.commanded, hresolve, hopen, if_true]
  exact ⟨_, rfl, rfl⟩

theorem reopenable {issue : IssueSnapshot} (hreopen : command.action = .reopen) (hresolved : issue.status = .resolved) :
    ∃ next, PostgresIssues.commanded command issue = some next ∧ next.status = .open := by
  simp only [PostgresIssues.commanded, hreopen, hresolved]
  exact ⟨_, rfl, rfl⟩

section Held

variable {row : IssueRow} {root : BsonDocument} {pending : List BsonValue} {next : IssueSnapshot}
  (h : Holding blake3 projectId stores row root pending)
  (hnext : PostgresIssues.commanded command row.issue = some next)
include h hnext

theorem Holding.commanded_row :
    (stores.execute blake3 compress (.issued (.command command))).tables.row = some { row with issue := next } := by
  obtain ⟨written, happlied, hnextRow⟩ : ∃ written,
      applyCommand blake3 .defaultValue (some row) command = .ok written
        ∧ written.row = { row with issue := next } :=
    ⟨_, PostgresIssues.applyCommand_eq_ok.mpr ⟨row, rfl, h.stored.decode_eq, rfl⟩, by rw [hnext]⟩
  simp only [Stores.execute, executeStep, h.tables, happlied, hnextRow]

theorem Holding.matches_root : commandMatches command root = true := by
  rw [commandMatches_eq h.stored.document, hnext, Option.isSome_some]

theorem Holding.commanded (hfits : FitsCommand (some row) (some root) command) :
    Holding blake3 projectId (stores.execute blake3 compress (.issued (.command command)))
      { row with issue := next } (commandUpdate blake3 command root)
      (pending ++ (resolvedTransition blake3 command).toList) := by
  have hstored := commanded_stored h.stored hfits hnext
  have hmatches := h.matches_root hnext
  have hwritten : writeCommand blake3 (some root) command = .ok (true, commandUpdate blake3 command root) :=
    writeCommand_eq_ok.mpr ⟨hmatches.symm, by rw [hmatches]; rfl, fun _ => hstored.valid⟩
  exact ⟨h.commanded_row hnext, by rw [Stores.execute, Stores.documentAfter, h.document, hwritten], hstored⟩

end Held

/-- An open Issue is resolved and opened again. -/
theorem filled_round {count : Nat} (h : Filled blake3 projectId count stores) (hroom : count < maxPendingTransitions)
    {resolve reopen : IssueCommand} (hresolve : resolve.action = .resolve) (hreopen : reopen.action = .reopen) :
    Filled blake3 projectId (count + 1) ((stores.execute blake3 compress (.issued (.command resolve))).execute
      blake3 compress (.issued (.command reopen))) := by
  obtain ⟨row, root, pending, hholding, rfl, hopen⟩ := h
  obtain ⟨next, hnext, hresolved⟩ := resolvable hresolve hopen
  obtain ⟨again, hagain, hreopened⟩ := reopenable hreopen hresolved
  have hfits : FitsCommand (some row) (some root) resolve := by
    intro _ _
    rw [hholding.stored.pendingCount_eq]
    exact hroom
  have hskips : FitsCommand (some { row with issue := next }) (some (commandUpdate blake3 resolve root)) reopen := by
    intro h
    rw [hreopen] at h
    cases h
  refine ⟨_, _, _, (hholding.commanded hnext hfits).commanded hagain hskips, ?_, hreopened⟩
  simp [resolvedTransition, hresolve, hreopen]

/-- The document has no room for the transition, so it keeps the open Issue that the row store resolves. -/
theorem filled_refuses (h : Filled blake3 projectId maxPendingTransitions stores)
    (hresolve : command.action = .resolve) :
    ¬ (stores.execute blake3 compress (.issued (.command command))).SameIssue blake3 := by
  obtain ⟨row, root, pending, hholding, hlength, hopen⟩ := h
  obtain ⟨next, hnext, hresolved⟩ := resolvable hresolve hopen
  have hinvalid : ¬ issueValidator (commandUpdate blake3 command root) := by
    intro hvalid
    obtain ⟨-, -, hpending⟩ := schemas_of_valid hvalid
    rw [(commanded_represents hholding.stored.document hnext).pending, pendingField, resolvedTransition,
      if_pos hresolve, if_neg (by simp), Option.all_some, arraySchema] at hpending
    simp [hlength] at hpending
  have hkept : (stores.execute blake3 compress (.issued (.command command))).document = some root := by
    rw [Stores.execute, Stores.documentAfter, hholding.document]
    cases hwritten : writeCommand blake3 (some root) command with
    | error error => rfl
    | ok result =>
        obtain ⟨-, hroot, hvalid⟩ := writeCommand_eq_ok.mp hwritten
        have hmatches := hholding.matches_root hnext
        rw [if_pos hmatches] at hroot
        exact absurd (hroot ▸ hvalid hmatches) hinvalid
  intro hsame
  rw [Stores.SameIssue, hkept, hholding.commanded_row hnext, Option.map_some, Option.map_some,
    hholding.stored.decodeIssue_eq] at hsame
  have hstatus := congrArg IssueSnapshot.status (Except.ok.inj (Option.some.inj hsame))
  rw [hopen, hresolved] at hstatus
  cases hstatus

theorem exists_selected {occurrences : List IssueOccurrence} {summary : IssueOccurrence}
    (hsummary : occurrences.head? = some summary)
    (hone : ∀ occurrence ∈ occurrences, sameIssue blake3 summary occurrence)
    (hbound : incrementSum occurrences ≤ i64Max) :
    ∃ batch, SelectedBatch blake3 occurrences batch ∧ batch.summary = summary := by
  have hne : occurrences ≠ [] := by
    rintro rfl
    cases hsummary
  obtain ⟨first, hfirst⟩ := minByKey_isSome occurredKey hne
  obtain ⟨latest, hlatest⟩ := maxByKey_isSome occurredKey hne
  obtain ⟨candidate, hcandidate⟩ := maxByKey_isSome receivedKey hne
  exact ⟨⟨summary, first, latest, candidate, incrementSum occurrences⟩,
    ⟨hsummary, hone, hfirst, hlatest, hcandidate, rfl, hbound⟩, rfl⟩

section Creation

variable {occurrences : List IssueOccurrence} {batch : Batch} {body : List (BitVec 8)}
  (hselected : SelectedBatch blake3 occurrences batch)
  (hon : (IssueStep.batch occurrences).On projectId issueId)
  (hplain : ∀ occurrence ∈ occurrences, PlainOccurrence occurrence)
  (hbody : encodeGroupingBody (compress IssueCodecConfig.defaultValue.compressionLevel)
    batch.summary.grouping = .ok body)
include hselected hon hplain hbody

theorem created_document : (Stores.empty.execute blake3 compress (.issued (.batch occurrences))).document =
    some (runPipeline (occurrencePipeline blake3 batch body) (upsertSeed batch)) := by
  obtain ⟨count, hcount⟩ : ∃ count : NonZeroU64, count.get = batch.increment :=
    ⟨⟨_, positive_of_fits hselected.increment_pos hselected.bound⟩, rfl⟩
  have hempty : ([] : List (BitVec 8)).length ≤ IssueCodecConfig.defaultValue.maxDecodedBodyBytes + 2 :=
    Nat.zero_le _
  have hstored := created_stored hselected hon hplain hempty hcount body
  have hwritten : writeBatch blake3 (compress IssueCodecConfig.defaultValue.compressionLevel) none
      occurrences = .ok (batch, runPipeline (occurrencePipeline blake3 batch body) (upsertSeed batch)) :=
    writeBatch_eq_ok.mpr ⟨hselected, body, hbody, (fun _ h => by cases h), rfl, hstored.valid⟩
  rw [Stores.execute, Stores.documentAfter, Stores.empty, hwritten]

/-- The document store creates an Issue that the row store refuses. -/
theorem created_alone
    (hrefused : ∀ written, applyBatch blake3 compress .defaultValue none occurrences ≠ .ok written) :
    ¬ (Stores.empty.execute blake3 compress (.issued (.batch occurrences))).SameIssue blake3 := by
  have hrow : (Stores.empty.execute blake3 compress (.issued (.batch occurrences))).tables.row = none := by
    rw [Stores.execute, executeStep, Stores.empty]
    cases hwritten : applyBatch blake3 compress .defaultValue none occurrences with
    | error error => rfl
    | ok written => exact absurd hwritten (hrefused written)
  rw [Stores.SameIssue, created_document hselected hon hplain hbody, hrow]
  intro hsame
  cases hsame

theorem created_filled (hshort : occurrences.length ≤ PostgresIssues.maxOccurrenceBatch) {rowBody : List (BitVec 8)}
    (hrowBody : PostgresIssues.encodeJson compress .defaultValue
      (PostgresIssues.groupingValue batch.summary.grouping) = .ok rowBody) :
    Filled blake3 projectId 1 (Stores.empty.execute blake3 compress (.issued (.batch occurrences))) := by
  obtain ⟨count, hcount⟩ : ∃ count : NonZeroU64, count.get = batch.increment :=
    ⟨⟨_, positive_of_fits hselected.increment_pos hselected.bound⟩, rfl⟩
  have hstored := created_stored hselected hon hplain (encodeJson_length hrowBody) hcount body
  have hadmitted : PostgresIssues.Admitted blake3 compress .defaultValue occurrences batch rowBody :=
    ⟨hshort, hselected, hrowBody, rowBytes_le (encodeJson_length hrowBody) ..⟩
  obtain ⟨written, happlied, hrow⟩ : ∃ written,
      applyBatch blake3 compress .defaultValue none occurrences = .ok written
        ∧ written.row = PostgresIssues.insertedRow batch rowBody count :=
    ⟨_, PostgresIssues.applyBatch_eq_ok.mpr ⟨batch, rowBody, hadmitted,
      (PostgresIssues.createIssue_eq_ok hadmitted).mpr ⟨count, hcount, rfl⟩⟩, rfl⟩
  refine ⟨_, _, _, ⟨?_, created_document hselected hon hplain hbody, hstored⟩, rfl, rfl⟩
  simp only [Stores.execute, executeStep, Stores.empty, happlied, hrow]

end Creation

end Filling

/-! ### Three such runs -/

def quotaBatch (occurrences : List IssueOccurrence) : StoreStep := .issued (.batch occurrences)

def quotaRounds (rounds : Nat) : List StoreStep :=
  (List.range rounds).flatMap fun key =>
    [.issued (.command (quotaCommand (BitVec.ofNat 128 key) .resolve)),
      .issued (.command (quotaCommand (BitVec.ofNat 128 key) .reopen))]

/-- The Issue is resolved and opened again until its document is full, and resolved once more. -/
def fillingSteps : List StoreStep :=
  quotaBatch [PostgresIssues.quotaOccurrence 3 ⟨1000, inRange_second⟩]
    :: quotaRounds 63 ++ [.issued (.command (quotaCommand 63 .resolve))]

def quotaOccurrences (count : Nat) : List IssueOccurrence :=
  (List.range count).map fun key => PostgresIssues.quotaOccurrence (BitVec.ofNat 128 key) ⟨1000, inRange_second⟩

/-- An occurrence whose grouping body only the document store finds short enough. -/
def bulkyOccurrence : IssueOccurrence :=
  { PostgresIssues.quotaOccurrence 3 ⟨1000, inRange_second⟩ with
    grouping := ⟨.message, List.replicate 65500 'a', []⟩ }

/-- Steps with plain texts on one Issue, after which the document does not say what the row says. -/
def Diverge (steps : List StoreStep) : Prop :=
  (∀ step ∈ steps, step.On quotaProject quotaIssue ∧ step.Plain)
    ∧ ¬ Always (Stores.execute (fun _ => PostgresIssues.quotaDigest) rawFrame)
      (Stores.SameIssue fun _ => PostgresIssues.quotaDigest) .empty steps

theorem quotaOccurrence_same (first second : BitVec 128) (time other : Timestamp) :
    sameIssue (fun _ => PostgresIssues.quotaDigest) (PostgresIssues.quotaOccurrence first time)
      (PostgresIssues.quotaOccurrence second other) := by
  have hidentity : verifyIssueId (fun _ => PostgresIssues.quotaDigest) ⟨1, ProjectId.positive_one⟩ ⟨1, 9⟩
      ⟨0x7e59fc8f23a517c59cb62e13ec9813d0⟩ = true := by decide
  simp only [sameIssue, PostgresIssues.quotaOccurrence, hidentity, decide_true, and_self]

theorem quotaCommand_on (key : BitVec 128) (action : IssueCommandAction) :
    (StoreStep.issued (.command (quotaCommand key action))).On quotaProject quotaIssue := by
  refine ⟨?_, ?_⟩
  · rintro occurrence ⟨⟩
  · intro command hcommand
    rw [List.mem_singleton.mp hcommand]
    exact ⟨rfl, rfl⟩

theorem quotaBatch_on {occurrences : List IssueOccurrence}
    (h : ∀ occurrence ∈ occurrences, occurrence.projectId = quotaProject ∧ occurrence.issueId = quotaIssue) :
    (quotaBatch occurrences).On quotaProject quotaIssue :=
  ⟨h, by rintro command ⟨⟩⟩

theorem filled_rounds {blake3 : List (BitVec 8) → BitVec 256} (compress : Compressor) {stores : Stores}
    (h : Filled blake3 quotaProject 1 stores) {rounds : Nat} (hrounds : rounds < maxPendingTransitions) :
    Filled blake3 quotaProject (rounds + 1) ((quotaRounds rounds).foldl (Stores.execute blake3 compress) stores) := by
  induction rounds with
  | zero => exact h
  | succ rounds ih =>
      have hfilled := ih (by omega)
      rw [quotaRounds, List.range_succ, List.flatMap_append, List.foldl_append]
      exact filled_round hfilled hrounds rfl rfl

theorem fillingSteps_diverge : Diverge fillingSteps := by
  have hplain : ∀ occurrence ∈ [PostgresIssues.quotaOccurrence 3 ⟨1000, inRange_second⟩],
      PlainOccurrence occurrence := List.forall_mem_singleton.mpr (quotaOccurrence_plain _ _)
  have hon : (quotaBatch [PostgresIssues.quotaOccurrence 3 ⟨1000, inRange_second⟩]).On quotaProject quotaIssue :=
    quotaBatch_on (List.forall_mem_singleton.mpr ⟨rfl, rfl⟩)
  refine ⟨?_, fun halways => ?_⟩
  · intro step hstep
    simp only [fillingSteps, quotaRounds, List.mem_cons, List.mem_append, List.mem_flatMap, List.not_mem_nil,
      or_false, List.cons_append] at hstep
    obtain rfl | ⟨key, -, rfl | rfl⟩ | rfl := hstep
    · exact ⟨hon, hplain⟩
    · exact ⟨quotaCommand_on _ _, trivial⟩
    · exact ⟨quotaCommand_on _ _, trivial⟩
    · exact ⟨quotaCommand_on _ _, trivial⟩
  · obtain ⟨batch, hselected, hsummary⟩ := exists_selected rfl
      (List.forall_mem_singleton.mpr (quotaOccurrence_same 3 3 ⟨1000, inRange_second⟩ ⟨1000, inRange_second⟩))
      (by decide)
    obtain ⟨body, hbody⟩ : ∃ body, encodeGroupingBody (rawFrame 3) batch.summary.grouping = .ok body := by
      rw [hsummary]
      exact exists_ok_of_isOk (by decide)
    obtain ⟨rowBody, hrowBody⟩ : ∃ rowBody, PostgresIssues.encodeJson rawFrame .defaultValue
        (PostgresIssues.groupingValue batch.summary.grouping) = .ok rowBody := by
      rw [hsummary]
      exact exists_ok_of_isOk (by decide)
    have hcreated := created_filled hselected hon hplain hbody (by decide) hrowBody
    have hfilled := filled_rounds rawFrame hcreated (show 63 < maxPendingTransitions by decide)
    have hlast := halways.last
    rw [fillingSteps, List.cons_append, List.foldl_cons, List.foldl_append] at hlast
    exact filled_refuses hfilled rfl hlast

theorem mem_quotaOccurrences {count : Nat} {occurrence : IssueOccurrence} (h : occurrence ∈ quotaOccurrences count) :
    ∃ key, occurrence = PostgresIssues.quotaOccurrence key ⟨1000, inRange_second⟩ := by
  obtain ⟨key, -, rfl⟩ := List.mem_map.mp h
  exact ⟨_, rfl⟩

theorem incrementSum_quotaOccurrences (count : Nat) : incrementSum (quotaOccurrences count) = count := by
  simp [incrementSum, quotaOccurrences, PostgresIssues.quotaOccurrence, Function.comp_def]

theorem quotaOccurrences_diverge {count : Nat} (hlong : PostgresIssues.maxOccurrenceBatch < count)
    (hbound : count ≤ i64Max) : Diverge [quotaBatch (quotaOccurrences count)] := by
  have hplain : ∀ occurrence ∈ quotaOccurrences count, PlainOccurrence occurrence := by
    intro occurrence hoccurrence
    obtain ⟨key, rfl⟩ := mem_quotaOccurrences hoccurrence
    exact quotaOccurrence_plain _ _
  have hon : (quotaBatch (quotaOccurrences count)).On quotaProject quotaIssue := by
    refine quotaBatch_on fun occurrence hoccurrence => ?_
    obtain ⟨key, rfl⟩ := mem_quotaOccurrences hoccurrence
    exact ⟨rfl, rfl⟩
  refine ⟨List.forall_mem_singleton.mpr ⟨hon, hplain⟩, fun halways => ?_⟩
  obtain ⟨batch, hselected, hsummary⟩ : ∃ batch,
      SelectedBatch (fun _ => PostgresIssues.quotaDigest) (quotaOccurrences count) batch
        ∧ batch.summary = PostgresIssues.quotaOccurrence 0 ⟨1000, inRange_second⟩ := by
    refine exists_selected ?_ (fun occurrence hoccurrence => ?_) ?_
    · rw [quotaOccurrences, List.head?_map, List.head?_range, if_neg (by omega)]
      rfl
    · obtain ⟨key, rfl⟩ := mem_quotaOccurrences hoccurrence
      exact quotaOccurrence_same _ _ _ _
    · rw [incrementSum_quotaOccurrences]
      exact hbound
  obtain ⟨body, hbody⟩ : ∃ body, encodeGroupingBody (rawFrame 3) batch.summary.grouping = .ok body := by
    rw [hsummary]
    exact exists_ok_of_isOk (by decide)
  refine created_alone hselected hon hplain hbody (fun written hwritten => ?_) halways.2
  obtain ⟨_, _, hadmitted, -⟩ := PostgresIssues.applyBatch_eq_ok.mp hwritten
  have hshort := hadmitted.short
  rw [quotaOccurrences, List.length_map, List.length_range] at hshort
  omega

theorem byteLength_jsonString_letters (count : Nat) :
    byteLength (jsonString (List.replicate count 'a')) = count + 2 := by
  have hletters : (List.replicate count 'a').flatMap jsonEscape = List.replicate count 'a' := by
    induction count with
    | zero => rfl
    | succ count ih =>
        rw [List.replicate_succ, List.flatMap_cons, ih]
        rfl
  have hlength : byteLength (List.replicate count 'a') = count := by
    rw [byteLength, List.map_replicate, List.sum_replicate]
    exact mul_one count
  have hquote : (Char.ofNat 34).utf8Size = 1 := by decide
  simp only [jsonString, hletters, byteLength_cons, byteLength_append, byteLength_nil, hlength, hquote]
  omega

theorem byteLength_jsonObject_three (first second third : Text × Text) :
    byteLength (jsonObject [first, second, third]) =
      byteLength (jsonMember first) + byteLength (jsonMember second) + byteLength (jsonMember third) + 4 := by
  have hopen : (Char.ofNat 123).utf8Size = 1 := by decide
  have hclose : (Char.ofNat 125).utf8Size = 1 := by decide
  have hcomma : ','.utf8Size = 1 := by decide
  simp only [jsonObject, List.map_cons, List.map_nil, List.intersperse, List.flatten_cons, List.flatten_nil,
    byteLength_cons, byteLength_append, byteLength_nil, hopen, hclose, hcomma]
  omega

theorem byteLength_jsonMember_letters (name : Text) (count : Nat) :
    byteLength (jsonMember (name, jsonString (List.replicate count 'a'))) =
      byteLength (jsonString name) + count + 3 := by
  have hcolon : ':'.utf8Size = 1 := by decide
  show byteLength (jsonString name ++ ':' :: jsonString (List.replicate count 'a')) = _
  rw [byteLength_append, byteLength_cons, byteLength_jsonString_letters, hcolon]
  omega

/-- The two stores name the members of a grouping body differently. -/
theorem groupingValue_letters (count : Nat) :
    (utf8Bytes (groupingValue ⟨.message, List.replicate count 'a', []⟩)).length = count + 21
      ∧ (utf8Bytes (PostgresIssues.groupingValue ⟨.message, List.replicate count 'a', []⟩)).length =
        count + 51 := by
  rw [length_utf8Bytes, length_utf8Bytes, groupingValue, PostgresIssues.groupingValue,
    byteLength_jsonObject_three, byteLength_jsonObject_three, byteLength_jsonMember_letters,
    byteLength_jsonMember_letters]
  constructor
  · have hnames : byteLength (jsonMember ("c".toList, jsonArray [])) = 6
        ∧ byteLength (jsonMember ("s".toList, jsonNumber (strategyCode .message))) = 5
        ∧ byteLength (jsonString "x".toList) = 3 := by decide
    obtain ⟨hcomponents, hstrategy, hsummary⟩ := hnames
    rw [List.map_nil, hcomponents, hstrategy, hsummary]
    omega
  · have hnames : byteLength (jsonMember ("components".toList, jsonArray [])) = 15
        ∧ byteLength (jsonMember ("strategy".toList, jsonString GroupingStrategy.message.asStr)) = 20
        ∧ byteLength (jsonString "summary".toList) = 9 := by decide
    obtain ⟨hcomponents, hstrategy, hsummary⟩ := hnames
    rw [List.map_nil, hcomponents, hstrategy, hsummary]
    omega

theorem exists_groupingBody {compress : List (BitVec 8) → Option (List (BitVec 8))} {grouping : IssueGroupingDetail}
    (hlength : (utf8Bytes (groupingValue grouping)).length ≤ maxDecodedBodyBytes)
    (hcompress : ∀ bytes, ∃ frame, compress bytes = some frame) :
    ∃ body, encodeGroupingBody compress grouping = .ok body := by
  obtain ⟨frame, hframe⟩ := hcompress (utf8Bytes (groupingValue grouping))
  simp only [encodeGroupingBody, bind_eq_ok, failIf_eq_ok, hframe]
  by_cases hsaves : frame.length + compressionMinSavings ≤ (utf8Bytes (groupingValue grouping)).length
  · exact ⟨_, (), not_lt.mpr hlength, frame, rfl, if_pos hsaves⟩
  · exact ⟨_, (), not_lt.mpr hlength, frame, rfl, if_neg hsaves⟩

theorem canonical_of_encodeJson {compress : Compressor} {codec : IssueCodecConfig} {text : Text}
    {body : List (BitVec 8)} (h : PostgresIssues.encodeJson compress codec text = .ok body) :
    (utf8Bytes text).length ≤ codec.maxDecodedBodyBytes := by
  simp only [PostgresIssues.encodeJson, bind_eq_ok, failIf_eq_ok] at h
  obtain ⟨-, hlength, -⟩ := h
  exact not_lt.mp hlength

theorem bulkyOccurrence_diverge : Diverge [quotaBatch [bulkyOccurrence]] := by
  have hplain : ∀ occurrence ∈ [bulkyOccurrence], PlainOccurrence occurrence := by
    have hquota := quotaOccurrence_plain 3 ⟨1000, inRange_second⟩
    exact List.forall_mem_singleton.mpr ⟨hquota.title, hquota.culprit, hquota.release⟩
  have hon : (quotaBatch [bulkyOccurrence]).On quotaProject quotaIssue :=
    quotaBatch_on (List.forall_mem_singleton.mpr ⟨rfl, rfl⟩)
  refine ⟨List.forall_mem_singleton.mpr ⟨hon, hplain⟩, fun halways => ?_⟩
  obtain ⟨batch, hselected, hsummary⟩ : ∃ batch,
      SelectedBatch (fun _ => PostgresIssues.quotaDigest) [bulkyOccurrence] batch
        ∧ batch.summary = bulkyOccurrence :=
    exists_selected rfl (List.forall_mem_singleton.mpr (quotaOccurrence_same 3 3 ⟨1000, inRange_second⟩
      ⟨1000, inRange_second⟩)) (by decide)
  obtain ⟨hshort, hlong⟩ := groupingValue_letters 65500
  obtain ⟨body, hbody⟩ : ∃ body, encodeGroupingBody (rawFrame 3) batch.summary.grouping = .ok body := by
    rw [hsummary]
    refine exists_groupingBody ?_ (fun bytes => ⟨_, rfl⟩)
    exact hshort.trans_le (by decide)
  refine created_alone hselected hon hplain hbody (fun written hwritten => ?_) halways.2
  obtain ⟨selected, _, hadmitted, -⟩ := PostgresIssues.applyBatch_eq_ok.mp hwritten
  have hbulky : selected.summary = bulkyOccurrence := (Option.some.inj hadmitted.selected.summary).symm
  have hencoded := hadmitted.encoded
  rw [hbulky] at hencoded
  have hfits := canonical_of_encodeJson hencoded
  rw [show bulkyOccurrence.grouping = ⟨.message, List.replicate 65500 'a', []⟩ from rfl, hlong] at hfits
  exact absurd hfits (by decide)

/-- A full document, a long batch and a long grouping body part the stores. -/
theorem document_parts_from_row :
    Diverge fillingSteps ∧ Diverge [quotaBatch (quotaOccurrences 10001)]
      ∧ Diverge [quotaBatch [bulkyOccurrence]] :=
  ⟨fillingSteps_diverge, quotaOccurrences_diverge (by decide) (by decide), bulkyOccurrence_diverge⟩

/-- An Issue is created, resolved and received again, and its first transition is expanded. -/
def regressedSteps : List StoreStep :=
  [quotaBatch [PostgresIssues.quotaOccurrence 3 ⟨1000, inRange_second⟩],
    .issued (.command (quotaCommand 5 .resolve)),
    quotaBatch [PostgresIssues.quotaOccurrence 4 ⟨3000, by decide⟩],
    .expanded ⟨0x902c3df12fa7a345354b39a70700c112⟩]

theorem fitsBatch_quota {stores : Stores} {eventId : BitVec 128} {time : Timestamp}
    (hroom : pendingCount stores.document < maxPendingTransitions) :
    FitsBatch (fun _ => PostgresIssues.quotaDigest) rawFrame stores.tables.row stores.document
      [PostgresIssues.quotaOccurrence eventId time] where
  plain := List.forall_mem_singleton.mpr (quotaOccurrence_plain _ _)
  short := (by decide : 1 ≤ PostgresIssues.maxOccurrenceBatch)
  encoded := by
    rintro occurrence ⟨⟩
    have hboth : (PostgresIssues.encodeJson rawFrame .defaultValue
        (PostgresIssues.groupingValue ⟨.message, [], []⟩)).isOk =
          (encodeGroupingBody (rawFrame IssueCodecConfig.defaultValue.compressionLevel) ⟨.message, [], []⟩).isOk := by
      decide
    exact hboth
  room := fun _ _ _ => hroom

theorem document_simulates_row_regression :
    (regressedSteps.foldl (Stores.execute (fun _ => PostgresIssues.quotaDigest) rawFrame) .empty).SameIssue
        (fun _ => PostgresIssues.quotaDigest)
      ∧ ((regressedSteps.foldl (Stores.execute (fun _ => PostgresIssues.quotaDigest) rawFrame) .empty).tables.row.any
        (·.issue.regression.isSome)) = true := by
  have hon : ∀ step ∈ regressedSteps, step.On quotaProject quotaIssue := by
    simp only [regressedSteps, List.forall_mem_cons, List.not_mem_nil, false_implies, implies_true, and_true]
    exact ⟨quotaBatch_on (List.forall_mem_singleton.mpr ⟨rfl, rfl⟩), quotaCommand_on _ _,
      quotaBatch_on (List.forall_mem_singleton.mpr ⟨rfl, rfl⟩), trivial⟩
  have hfits : Throughout (Stores.execute (fun _ => PostgresIssues.quotaDigest) rawFrame)
      (Stores.Fits (fun _ => PostgresIssues.quotaDigest) rawFrame) .empty regressedSteps :=
    ⟨fitsBatch_quota (by decide), fun _ _ => by decide, fitsBatch_quota (by decide), trivial, trivial⟩
  have halways := document_simulates_row (fun _ => PostgresIssues.quotaDigest) rawFrame quotaProject quotaIssue
    regressedSteps hon hfits
  exact ⟨halways.last.1, by decide⟩

end MongoIssues

end MetricBackend
