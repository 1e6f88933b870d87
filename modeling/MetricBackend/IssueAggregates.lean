import Mathlib.Data.Finset.Basic
import Mathlib.Algebra.BigOperators.Group.Finset.Basic
import MetricBackend.PostgresIssues

/-! The aggregates of an Issue row. Whatever the batches and their order, the row counts the occurrences
that were applied and carries the data of the first and of the latest of them. -/

namespace MetricBackend

namespace PostgresIssues

open Issues

/-- The columns of a row that summarize its occurrences. -/
structure IssueAggregates where
  occurrenceCount : Nat
  firstSeen : Timestamp
  firstEventId : EventId
  firstRelease : Option IssueRelease
  lastSeen : Timestamp
  latestEventId : EventId
  representativeEventId : EventId
  lastRelease : Option IssueRelease
deriving DecidableEq

def aggregates (issue : IssueSnapshot) : IssueAggregates where
  occurrenceCount := issue.occurrenceCount.get
  firstSeen := issue.firstSeen
  firstEventId := issue.firstEventId
  firstRelease := issue.firstRelease
  lastSeen := issue.lastSeen
  latestEventId := issue.latestEventId
  representativeEventId := issue.representativeEventId
  lastRelease := issue.lastRelease

/-- The aggregates of a count of occurrences of which these two are the first and the latest. -/
def aggregatesOf (count : Nat) (first latest : IssueOccurrence) : IssueAggregates where
  occurrenceCount := count
  firstSeen := first.occurredAt
  firstEventId := first.eventId
  firstRelease := first.release
  lastSeen := latest.occurredAt
  latestEventId := latest.eventId
  representativeEventId := latest.eventId
  lastRelease := latest.release

/-- The aggregates are those of the occurrences. -/
def Summarizes (occurrences : List IssueOccurrence) (value : IssueAggregates) : Prop :=
  ∃ first ∈ occurrences, ∃ latest ∈ occurrences,
    (∀ occurrence ∈ occurrences, occurredKey first ≤ occurredKey occurrence)
      ∧ (∀ occurrence ∈ occurrences, occurredKey occurrence ≤ occurredKey latest)
      ∧ value = aggregatesOf (incrementSum occurrences) first latest

theorem incrementSum_append (left right : List IssueOccurrence) :
    incrementSum (left ++ right) = incrementSum left + incrementSum right := by
  rw [incrementSum, List.map_append, List.sum_append, incrementSum, incrementSum]

/-- Two occurrences of one Event are the same when no two others share it. -/
theorem Summarizes.unique {occurrences : List IssueOccurrence} {left right : IssueAggregates}
    (hids : (occurrences.map (·.eventId)).Nodup) (hleft : Summarizes occurrences left)
    (hright : Summarizes occurrences right) : left = right := by
  have hkey : ∀ one ∈ occurrences, ∀ other ∈ occurrences, occurredKey one = occurredKey other → one = other := by
    intro one hone other hother h
    have hevent : one.eventId = other.eventId := congrArg (fun key => (ofLex key).2) h
    exact List.inj_on_of_nodup_map hids hone hother hevent
  obtain ⟨first, hfirst, latest, hlatest, hmin, hmax, rfl⟩ := hleft
  obtain ⟨first', hfirst', latest', hlatest', hmin', hmax', rfl⟩ := hright
  obtain rfl := hkey first hfirst first' hfirst' (le_antisymm (hmin _ hfirst') (hmin' _ hfirst))
  obtain rfl := hkey latest hlatest latest' hlatest' (le_antisymm (hmax' _ hlatest) (hmax _ hlatest'))
  rfl

theorem Summarizes.perm {occurrences others : List IssueOccurrence} {value : IssueAggregates}
    (h : Summarizes occurrences value) (hperm : occurrences.Perm others) : Summarizes others value := by
  obtain ⟨first, hfirst, latest, hlatest, hmin, hmax, rfl⟩ := h
  refine ⟨first, hperm.mem_iff.mp hfirst, latest, hperm.mem_iff.mp hlatest, ?_, ?_, ?_⟩
  · exact fun occurrence h => hmin occurrence (hperm.mem_iff.mpr h)
  · exact fun occurrence h => hmax occurrence (hperm.mem_iff.mpr h)
  · rw [incrementSum, incrementSum, (hperm.map _).sum_eq]

theorem summarizes_of_ne_nil {occurrences : List IssueOccurrence} (h : occurrences ≠ []) :
    ∃ value, Summarizes occurrences value := by
  obtain ⟨first, hfirst⟩ := minByKey_isSome occurredKey h
  obtain ⟨latest, hlatest⟩ := maxByKey_isSome occurredKey h
  obtain ⟨hfirst, hmin⟩ := minByKey_spec hfirst
  obtain ⟨hlatest, hmax⟩ := maxByKey_spec hlatest
  exact ⟨_, first, hfirst, latest, hlatest, hmin, hmax, rfl⟩

/-! ### One batch -/

section Batches

variable {blake3 : List (BitVec 8) → BitVec 256} {compress : Compressor} {codec : IssueCodecConfig}
  {batch : Batch} {occurrences seen : List IssueOccurrence} {issue : IssueSnapshot} {count : NonZeroU64}

/-- A batch that creates the row. -/
theorem summarizes_inserted {body : List (BitVec 8)} (h : SelectedBatch blake3 occurrences batch)
    (hcount : count.get = batch.increment) :
    Summarizes occurrences (aggregates (insertedRow batch body count).issue) := by
  obtain ⟨hfirst, hmin⟩ := minByKey_spec h.first
  obtain ⟨hlatest, hmax⟩ := maxByKey_spec h.latest
  refine ⟨batch.first, hfirst, batch.latest, hlatest, hmin, hmax, ?_⟩
  rw [h.increment, ← hcount]
  rfl

theorem aggregates_merged {first latest : IssueOccurrence} {total : Nat}
    (hissue : aggregates issue = aggregatesOf total first latest) :
    aggregates (merged batch count issue) = aggregatesOf count.get
      (if occurredKey batch.first < occurredKey first then batch.first else first)
      (if occurredKey latest < occurredKey batch.latest then batch.latest else latest) := by
  have hfirst : moment issue.firstSeen issue.firstEventId = occurredKey first :=
    congrArg (fun value : IssueAggregates => moment value.firstSeen value.firstEventId) hissue
  have hlatest : moment issue.lastSeen issue.latestEventId = occurredKey latest :=
    congrArg (fun value : IssueAggregates => moment value.lastSeen value.latestEventId) hissue
  simp only [aggregates, aggregatesOf, IssueAggregates.mk.injEq] at hissue
  obtain ⟨-, hfirstSeen, hfirstEvent, hfirstRelease, hlastSeen, hlatestEvent, hrepresentative, hlastRelease⟩ :=
    hissue
  rw [merged, withFirst, withLatest, apply_ite IssueSnapshot.lastSeen, apply_ite IssueSnapshot.latestEventId,
    ite_self, ite_self]
  simp only [hfirst, hlatest, ← occurredKey.eq_1]
  split_ifs <;>
    simp only [aggregates, aggregatesOf, hfirstSeen, hfirstEvent, hfirstRelease, hlastSeen, hlatestEvent,
      hrepresentative, hlastRelease]

/-- A batch that finds the row. -/
theorem summarizes_merged (h : SelectedBatch blake3 occurrences batch)
    (hseen : Summarizes seen (aggregates issue))
    (hcount : count.get = issue.occurrenceCount.get + batch.increment) :
    Summarizes (seen ++ occurrences) (aggregates (merged batch count issue)) := by
  obtain ⟨hbatchFirst, hbatchMin⟩ := minByKey_spec h.first
  obtain ⟨hbatchLatest, hbatchMax⟩ := maxByKey_spec h.latest
  obtain ⟨first, hfirst, latest, hlatest, hmin, hmax, hissue⟩ := hseen
  have htotal : issue.occurrenceCount.get = incrementSum seen :=
    congrArg IssueAggregates.occurrenceCount hissue
  refine ⟨if occurredKey batch.first < occurredKey first then batch.first else first, ?_,
    if occurredKey latest < occurredKey batch.latest then batch.latest else latest, ?_, ?_, ?_, ?_⟩
  · split_ifs
    · exact List.mem_append_right _ hbatchFirst
    · exact List.mem_append_left _ hfirst
  · split_ifs
    · exact List.mem_append_right _ hbatchLatest
    · exact List.mem_append_left _ hlatest
  · intro occurrence hoccurrence
    rcases List.mem_append.mp hoccurrence with hold | hnew
    · split_ifs with hlt
      · exact hlt.le.trans (hmin _ hold)
      · exact hmin _ hold
    · split_ifs with hlt
      · exact hbatchMin _ hnew
      · exact (not_lt.mp hlt).trans (hbatchMin _ hnew)
  · intro occurrence hoccurrence
    rcases List.mem_append.mp hoccurrence with hold | hnew
    · split_ifs with hlt
      · exact (hmax _ hold).trans hlt.le
      · exact hmax _ hold
    · split_ifs with hlt
      · exact hbatchMax _ hnew
      · exact (hbatchMax _ hnew).trans (not_lt.mp hlt)
  · rw [incrementSum_append, h.increment, ← htotal, ← hcount]
    exact aggregates_merged hissue

theorem aggregates_updated {next : IssueSnapshot} (h : updated batch issue = .ok next) :
    ∃ count : NonZeroU64, count.get = issue.occurrenceCount.get + batch.increment
      ∧ aggregates next = aggregates (merged batch count issue) := by
  obtain ⟨count, hcount, -, hnext⟩ := updated_eq_ok.mp h
  refine ⟨count, hcount, ?_⟩
  split_ifs at hnext
  · obtain ⟨-, -, -, rfl⟩ := withRegression_eq_ok.mp hnext
    rfl
  · rw [hnext]

/-- The row stands for the occurrences that were applied to it. -/
def Accounts (seen : List IssueOccurrence) (stored : Option IssueRow) : Prop :=
  match stored with
  | none => seen = []
  | some row => Summarizes seen (aggregates row.issue)

theorem accounts_applyBatch {stored : Option IssueRow} {written : Written IssueMutationResult}
    (hseen : Accounts seen stored) (h : applyBatch blake3 compress codec stored occurrences = .ok written) :
    Accounts (seen ++ occurrences) (some written.row) := by
  obtain ⟨batch, body, hadmitted, hwritten⟩ := applyBatch_eq_ok.mp h
  cases stored with
  | none =>
      obtain ⟨count, hcount, rfl⟩ := (createIssue_eq_ok hadmitted).mp hwritten
      obtain rfl : seen = [] := hseen
      exact summarizes_inserted hadmitted.selected hcount
  | some row =>
      obtain ⟨-, -, next, hnext, rfl⟩ := updateIssue_eq_ok.mp hwritten
      obtain ⟨count, hcount, hmerged⟩ := aggregates_updated hnext
      rw [Accounts, hmerged]
      exact summarizes_merged hadmitted.selected hseen hcount

end Batches

/-! ### Every partition into batches -/

section Partitions

variable (blake3 : List (BitVec 8) → BitVec 256) (compress : Compressor) (codec : IssueCodecConfig)

/-- The row after the batches, one after the other. -/
def applyBatches (stored : Option IssueRow) (batches : List (List IssueOccurrence)) :
    Except IssueStoreError (Option IssueRow) :=
  batches.foldlM (fun stored occurrences =>
    (applyBatch blake3 compress codec stored occurrences).map fun written => some written.row) stored

/-- The texts of an occurrence fit into any row with this body. -/
def roomFor (body : List (BitVec 8)) : Bool :=
  body.length + rowMetadataBytes + maxIssueTitleBytes + maxIssueCulpritBytes + 2 * maxIssueReleaseBytes
    ≤ codec.maxEncodedRowBytes

/-- Occurrences of one Issue that the store can take. -/
structure ValidOccurrences (occurrences : Finset IssueOccurrence) : Prop where
  one : ∀ reference ∈ occurrences, ∀ occurrence ∈ occurrences, sameIssue blake3 reference occurrence
  grouping : ∀ occurrence ∈ occurrences, ∃ body,
    encodeJson compress codec (groupingValue occurrence.grouping) = .ok body ∧ roomFor codec body
  count : ∑ occurrence ∈ occurrences, occurrence.increment.get ≤ i64Max

variable {blake3 compress codec}

theorem applyBatches_accounts {batches : List (List IssueOccurrence)} {seen : List IssueOccurrence}
    {stored result : Option IssueRow} (hseen : Accounts seen stored)
    (h : applyBatches blake3 compress codec stored batches = .ok result) :
    Accounts (seen ++ batches.flatten) result := by
  induction batches generalizing seen stored with
  | nil =>
      rw [applyBatches, List.foldlM_nil, pure_eq_ok] at h
      rwa [List.flatten_nil, List.append_nil, ← h]
  | cons occurrences batches ih =>
      rw [applyBatches, List.foldlM_cons, bind_eq_ok] at h
      obtain ⟨next, hnext, hrest⟩ := h
      obtain ⟨written, hwritten, rfl⟩ := map_eq_ok.mp hnext
      rw [List.flatten_cons, ← List.append_assoc]
      exact ih (accounts_applyBatch hseen hwritten) hrest

theorem rowBytes_le {body : List (BitVec 8)} (h : roomFor codec body) (title : IssueTitle)
    (culprit : Option IssueCulprit) (firstRelease lastRelease : Option IssueRelease) :
    rowBytes body title culprit firstRelease lastRelease ≤ codec.maxEncodedRowBytes := by
  have hlength : ∀ {maximum : Nat} (value : Option (IssueText maximum)), optionalLength value ≤ maximum := by
    rintro maximum (_ | text)
    · exact Nat.zero_le _
    · exact text.valid.2
  have htitle := title.valid.2
  have hculprit := hlength culprit
  have hfirst := hlength firstRelease
  have hlast := hlength lastRelease
  simp only [roomFor, decide_eq_true_eq] at h
  rw [rowBytes]
  omega

/-- A row that a batch of occurrences like this one can update. -/
structure Receptive (codec : IssueCodecConfig) (reference : IssueOccurrence) (row : IssueRow) : Prop where
  project : row.issue.projectId = reference.projectId
  issue : row.issue.issueId = reference.issueId
  key : row.issue.groupingKey = reference.groupingKey
  status : row.issue.status = .open
  workflow : row.issue.workflow = none
  room : roomFor codec row.groupingBody

theorem Receptive.decode {reference : IssueOccurrence} {row : IssueRow} (h : Receptive codec reference row)
    (hself : sameIssue blake3 reference reference) : decode blake3 codec row = .ok row.issue := by
  simp only [sameIssue, true_and, decide_eq_true_eq] at hself
  refine decode_eq_ok.mpr ⟨rfl, ?_, ?_, ?_, rowBytes_le h.room _ _ _ _⟩
  · rw [h.key]
    exact reference.keyed
  · rw [h.project, h.key, h.issue]
    exact hself
  · rw [workflowConsistent, h.status, h.workflow]
    rfl

variable {occurrences : Finset IssueOccurrence}

theorem ValidOccurrences.admitted (h : ValidOccurrences blake3 compress codec occurrences)
    {batch : List IssueOccurrence} (hne : batch ≠ []) (hsub : ∀ occurrence ∈ batch, occurrence ∈ occurrences)
    (hshort : batch.length ≤ maxOccurrenceBatch) (hsum : incrementSum batch ≤ i64Max) :
    ∃ selected body, Admitted blake3 compress codec batch selected body ∧ roomFor codec body := by
  obtain ⟨first, hfirst⟩ := minByKey_isSome occurredKey hne
  obtain ⟨latest, hlatest⟩ := maxByKey_isSome occurredKey hne
  obtain ⟨candidate, hcandidate⟩ := maxByKey_isSome receivedKey hne
  have hhead : batch.head hne ∈ occurrences := hsub _ (List.head_mem hne)
  obtain ⟨body, hbody, hroom⟩ := h.grouping _ hhead
  refine ⟨⟨batch.head hne, first, latest, candidate, incrementSum batch⟩, body, ⟨hshort, ?_, hbody, ?_⟩, hroom⟩
  · exact ⟨List.head?_eq_some_head hne, fun occurrence hmem => h.one _ hhead _ (hsub _ hmem), hfirst, hlatest,
      hcandidate, rfl, hsum⟩
  · exact rowBytes_le hroom _ _ _ _

/-- The store takes a batch of valid occurrences while the count has room. -/
theorem ValidOccurrences.applied (h : ValidOccurrences blake3 compress codec occurrences)
    {reference : IssueOccurrence} (hreference : reference ∈ occurrences) {batch : List IssueOccurrence}
    (hne : batch ≠ []) (hsub : ∀ occurrence ∈ batch, occurrence ∈ occurrences)
    (hshort : batch.length ≤ maxOccurrenceBatch) {stored : Option IssueRow}
    (hstored : ∀ row ∈ stored, Receptive codec reference row)
    (hsum : ((stored.map (·.issue.occurrenceCount.get)).getD 0) + incrementSum batch ≤ i64Max) :
    ∃ written, applyBatch blake3 compress codec stored batch = .ok written
      ∧ Receptive codec reference written.row := by
  obtain ⟨selected, body, hadmitted, hroom⟩ := h.admitted hne hsub hshort (by omega)
  have hsummary : selected.summary ∈ occurrences :=
    hsub _ (List.mem_of_mem_head? hadmitted.selected.summary)
  have hsame := h.one _ hreference _ hsummary
  simp only [sameIssue, decide_eq_true_eq] at hsame
  have hmax : i64Max < 2 ^ 64 := by decide
  have hpos := hadmitted.selected.increment_pos
  have hincrement := hadmitted.selected.increment
  cases stored with
  | none =>
      have hcount : 0 < selected.increment ∧ selected.increment < 2 ^ 64 :=
        ⟨hpos, hadmitted.selected.bound.trans_lt hmax⟩
      refine ⟨_, applyBatch_eq_ok.mpr ⟨selected, body, hadmitted,
        (createIssue_eq_ok hadmitted).mpr ⟨⟨selected.increment, hcount⟩, rfl, rfl⟩⟩, ?_⟩
      exact ⟨hsame.1, hsame.2.1, hsame.2.2.1, rfl, rfl, hroom⟩
  | some row =>
      have hrow := hstored row rfl
      have hbound : row.issue.occurrenceCount.get + selected.increment ≤ i64Max := by
        rw [← hincrement]
        exact hsum
      have hcount : 0 < row.issue.occurrenceCount.get + selected.increment
          ∧ row.issue.occurrenceCount.get + selected.increment < 2 ^ 64 := by omega
      have hregress : regresses selected row.issue = false := by
        rw [regresses, hrow.status]
        rfl
      have hnext : updated selected row.issue =
          .ok (merged selected ⟨row.issue.occurrenceCount.get + selected.increment, hcount⟩ row.issue) := by
        refine updated_eq_ok.mpr ⟨⟨_, hcount⟩, rfl, hbound, ?_⟩
        rw [hregress]
        rfl
      refine ⟨_, applyBatch_eq_ok.mpr ⟨selected, body, hadmitted, updateIssue_eq_ok.mpr
        ⟨hrow.key.trans hsame.2.2.1.symm, hrow.decode (h.one _ hreference _ hreference), _, hnext, rfl⟩⟩, ?_⟩
      obtain ⟨hproject, hissue, hkey, -, -, hstatus, hworkflow, -⟩ := merged_kept selected ⟨_, hcount⟩ row.issue
      exact ⟨hproject.trans hrow.project, hissue.trans hrow.issue, hkey.trans hrow.key,
        hstatus.trans hrow.status, hworkflow.trans hrow.workflow, hrow.room⟩

theorem ValidOccurrences.applyBatches (h : ValidOccurrences blake3 compress codec occurrences)
    {reference : IssueOccurrence} (hreference : reference ∈ occurrences) {batches : List (List IssueOccurrence)}
    (hne : ∀ batch ∈ batches, batch ≠ [])
    (hsub : ∀ occurrence ∈ batches.flatten, occurrence ∈ occurrences)
    (hshort : ∀ batch ∈ batches, batch.length ≤ maxOccurrenceBatch) {stored : Option IssueRow}
    {seen : List IssueOccurrence} (hseen : Accounts seen stored)
    (hstored : ∀ row ∈ stored, Receptive codec reference row)
    (hsum : incrementSum seen + incrementSum batches.flatten ≤ i64Max) :
    ∃ result, applyBatches blake3 compress codec stored batches = .ok result := by
  induction batches generalizing seen stored with
  | nil => exact ⟨stored, rfl⟩
  | cons batch batches ih =>
      rw [List.forall_mem_cons] at hne hshort
      rw [List.flatten_cons] at hsub hsum
      rw [incrementSum_append] at hsum
      have hcount : (stored.map (·.issue.occurrenceCount.get)).getD 0 = incrementSum seen := by
        cases stored with
        | none =>
            rw [show seen = [] from hseen]
            rfl
        | some row =>
            obtain ⟨first, -, latest, -, -, -, hissue⟩ := hseen
            exact congrArg IssueAggregates.occurrenceCount hissue
      obtain ⟨written, hwritten, hrow⟩ := h.applied hreference hne.1
        (fun occurrence hmem => hsub _ (List.mem_append_left _ hmem)) hshort.1 hstored (by omega)
      obtain ⟨result, hresult⟩ := ih hne.2 (fun occurrence hmem => hsub _ (List.mem_append_right _ hmem))
        hshort.2 (accounts_applyBatch hseen hwritten) (fun row hmem => by cases hmem; exact hrow)
        (by rw [incrementSum_append]; omega)
      refine ⟨result, ?_⟩
      rw [PostgresIssues.applyBatches, List.foldlM_cons, bind_eq_ok]
      exact ⟨some written.row, map_eq_ok.mpr ⟨written, hwritten, rfl⟩, hresult⟩

/-- The aggregates do not depend on how the occurrences are cut into batches, nor on the order of the
batches. -/
theorem aggregates_of_partition (blake3 : List (BitVec 8) → BitVec 256) (compress : Compressor)
    (codec : IssueCodecConfig) (occurrences : Finset IssueOccurrence) (hne : occurrences.Nonempty)
    (hids : ∀ one ∈ occurrences, ∀ other ∈ occurrences, one.eventId = other.eventId → one = other) :
    ∃ first ∈ occurrences, ∃ latest ∈ occurrences,
      (∀ occurrence ∈ occurrences, occurredKey first ≤ occurredKey occurrence)
      ∧ (∀ occurrence ∈ occurrences, occurredKey occurrence ≤ occurredKey latest)
      ∧ ∀ batches : List (List IssueOccurrence), (∀ batch ∈ batches, batch ≠ []) →
        (batches.flatten : Multiset IssueOccurrence) = occurrences.val →
          (∀ stored, applyBatches blake3 compress codec none batches = .ok stored →
            ∃ row, stored = some row ∧ aggregates row.issue =
              aggregatesOf (∑ occurrence ∈ occurrences, occurrence.increment.get) first latest)
          ∧ (ValidOccurrences blake3 compress codec occurrences →
            (∀ batch ∈ batches, batch.length ≤ maxOccurrenceBatch) →
            ∃ stored, applyBatches blake3 compress codec none batches = .ok stored) := by
  have hsum : incrementSum occurrences.toList = ∑ occurrence ∈ occurrences, occurrence.increment.get :=
    Finset.sum_map_toList _ _
  have hnodup : (occurrences.toList.map (·.eventId)).Nodup := by
    refine List.Nodup.map_on (fun one hone other hother => ?_) occurrences.nodup_toList
    exact hids one (Finset.mem_toList.mp hone) other (Finset.mem_toList.mp hother)
  have hlist : occurrences.toList ≠ [] := by simpa using hne.ne_empty
  obtain ⟨value, hvalue⟩ := summarizes_of_ne_nil hlist
  obtain ⟨first, hfirst, latest, hlatest, hmin, hmax, rfl⟩ := id hvalue
  rw [hsum] at hvalue
  simp only [Finset.mem_toList] at hfirst hlatest hmin hmax
  refine ⟨first, hfirst, latest, hlatest, hmin, hmax, fun batches hbatches hflatten => ?_⟩
  have hperm : batches.flatten.Perm occurrences.toList := by
    rw [← Multiset.coe_eq_coe, hflatten, Finset.coe_toList]
  have hempty : Accounts [] none := rfl
  refine ⟨fun stored hrun => ?_, fun hvalid hshort => ?_⟩
  · have hrow := applyBatches_accounts hempty hrun
    rw [List.nil_append] at hrow
    cases stored with
    | none => exact absurd (List.nil_perm.mp (hrow ▸ hperm)) hlist
    | some row => exact ⟨row, rfl, (Summarizes.perm hrow hperm).unique hnodup hvalue⟩
  · refine hvalid.applyBatches hfirst hbatches (fun occurrence hmem => ?_) hshort hempty ?_ ?_
    · exact Finset.mem_toList.mp (hperm.mem_iff.mp hmem)
    · simp
    · have htotal : incrementSum batches.flatten = incrementSum occurrences.toList := by
        rw [incrementSum, incrementSum, (hperm.map _).sum_eq]
      rw [htotal, hsum]
      simpa [incrementSum] using hvalid.count

end Partitions

/-- The digest of the identity of the Issue below. -/
def quotaDigest : BitVec 256 := 0x7e59fc8f23a517c59cb62e13ec9813d0902c3df12fa7a345354b39a70700c112

/-- A frame of `zstd` that stores its fifty-one bytes as they are. -/
def storedFrame : Compressor := fun _ bytes =>
  some ([0x28, 0xb5, 0x2f, 0xfd, 0x20, 0x33, 0x99, 0x01, 0x00] ++ bytes)

def quotaOccurrence (eventId : BitVec 128) (time : Timestamp) : IssueOccurrence where
  projectId := ⟨1, ProjectId.positive_one⟩
  issueId := ⟨0x7e59fc8f23a517c59cb62e13ec9813d0⟩
  groupingKey := ⟨1, 9⟩
  keyed := keyed_sample
  eventId := ⟨eventId⟩
  occurredAt := time
  receivedAt := time
  release := none
  title := ⟨"quota exceeded".toList, by decide⟩
  culprit := none
  grouping := ⟨.message, [], []⟩
  increment := ⟨1, NonZeroU64.inRange_one⟩

/-- Two occurrences at one time, the later one first. -/
theorem aggregates_of_partition_pair :
    ∃ row, applyBatches (fun _ => quotaDigest) storedFrame IssueCodecConfig.defaultValue none
        [[quotaOccurrence 4 ⟨1000, by decide⟩], [quotaOccurrence 3 ⟨1000, by decide⟩]] = .ok (some row)
      ∧ (aggregates row.issue).occurrenceCount = 2 := by
  obtain ⟨first, -, latest, -, -, -, hall⟩ := aggregates_of_partition (fun _ => quotaDigest) storedFrame
    IssueCodecConfig.defaultValue
    {quotaOccurrence 4 ⟨1000, by decide⟩, quotaOccurrence 3 ⟨1000, by decide⟩} ⟨_, Finset.mem_insert_self _ _⟩
    (by decide)
  obtain ⟨hrun, hok⟩ := hall [[quotaOccurrence 4 ⟨1000, by decide⟩], [quotaOccurrence 3 ⟨1000, by decide⟩]]
    (by simp) (by decide)
  obtain ⟨stored, hstored⟩ := hok ⟨by decide, by
    intro occurrence hmem
    refine ⟨1 :: 0 :: utf8Bytes (groupingValue ⟨.message, [], []⟩), ?_, by decide⟩
    simp only [Finset.mem_insert, Finset.mem_singleton] at hmem
    rcases hmem with rfl | rfl <;> decide, by decide⟩ (by decide)
  obtain ⟨row, rfl, hrow⟩ := hrun stored hstored
  refine ⟨row, hstored, ?_⟩
  rw [hrow]
  dsimp only [aggregatesOf]
  decide

end PostgresIssues

end MetricBackend
