import MetricBackend.IssueDocuments

/-! Client texts in the update pipelines of the document store. A text that starts with a dollar sign is
read as a path or a variable where the pipeline splices it in, and no pipeline can write such a text. -/

namespace MetricBackend

namespace MongoIssues

open Issues BsonValue MetricBackend.Expr

/-! ### The pipeline makes no text with a dollar sign -/

section Closed

variable {blake3 : List (BitVec 8) → BitVec 256} {batch : Batch} {body : List (BitVec 8)}

theorem closed_str (value : String) : (str value).Closed := closed_text value.toList

theorem closed_orRemove {maximum : Nat} (value : Option (IssueText maximum)) : (orRemove value).Closed := by
  cases value with
  | none => exact closed_str "$$REMOVE"
  | some text => exact closed_text text.asStr

theorem closed_pair {present : Bool} {value : Expr} (hvalue : value.Closed) :
    (object [("p".toList, literal (.bool present)), ("v".toList, value)]).Closed := by
  refine closed_object ?_
  simp only [List.forall_mem_cons, List.not_mem_nil, false_implies, implies_true, and_true]
  exact ⟨closed_literal (.bool present), hvalue⟩

theorem closed_releasePair (release : Option IssueRelease) : (releasePair release).Closed := by
  cases release with
  | none => exact closed_pair (closed_str "")
  | some release => exact closed_pair (closed_text release.asStr)

theorem closed_oldFirstRelease : oldFirstRelease.Closed :=
  closed_cond (closed_pair (closed_str "$fr")) (closed_pair (closed_str ""))

theorem closed_oldLatestRelease : oldLatestRelease.Closed :=
  closed_cond (closed_pair (closed_str ""))
    (closed_cond (closed_pair (closed_str "$lr")) closed_oldFirstRelease)

theorem closed_regressionCount : regressionCount.Closed :=
  closed_cond (closed_literal (.int64 1)) closed_add

theorem closed_regression : (regression batch).Closed := by
  have htime : (literal (date batch.candidate.receivedAt)).Closed := closed_literal (.date _)
  have hevent : (literal (eventBinary batch.candidate.eventId)).Closed := closed_literal (.binary _)
  have hrelease : (orRemove batch.candidate.release).Closed := closed_orRemove _
  refine closed_cond (closed_object ?_) (closed_object ?_)
  · simp only [List.forall_mem_cons, List.not_mem_nil, false_implies, implies_true, and_true]
    exact ⟨htime, hevent, closed_regressionCount, hrelease⟩
  · simp only [List.forall_mem_cons, List.not_mem_nil, false_implies, implies_true, and_true]
    exact ⟨htime, hevent, hrelease⟩

theorem undollared_transition (projectId : ProjectId) (issueId : IssueId) (kind : IssueNotificationKind)
    (eventId : EventId) (time : Timestamp) :
    Undollared (transition blake3 projectId issueId kind eventId time) := by
  refine .document ?_
  simp only [transitionFields, List.forall_mem_cons, List.not_mem_nil, false_implies, implies_true, and_true]
  exact ⟨.binary _, .int32 _, .binary _, .date _⟩

theorem closed_markStage : (Stage.set (markStage batch)).Closed := by
  simp only [Stage.Closed, markStage, List.forall_mem_cons, List.not_mem_nil, false_implies, implies_true,
    and_true]
  exact ⟨closed_of_bool fun _ => ⟨_, rfl⟩, closed_of_bool fun _ => ⟨_, rfl⟩, closed_of_bool fun _ => ⟨_, rfl⟩,
    closed_of_bool fun _ => ⟨_, rfl⟩, closed_ifNull (closed_str _) (closed_str _), closed_oldFirstRelease,
    closed_oldLatestRelease⟩

theorem closed_selectStage : (Stage.set (selectStage blake3 batch)).Closed := by
  simp only [Stage.Closed, selectStage, List.forall_mem_cons, List.not_mem_nil, false_implies, implies_true,
    and_true]
  refine ⟨closed_cond (closed_literal (.binary _)) (closed_str _),
    closed_cond (closed_literal (.binary _)) (closed_str _),
    closed_cond (closed_releasePair _) (closed_str _), closed_cond (closed_releasePair _) (closed_str _), ?_⟩
  exact closed_cond (closed_literal (undollared_transition _ _ _ _ _))
    (closed_cond (closed_literal (undollared_transition _ _ _ _ _)) (closed_str _))

theorem closed_writeStage : (Stage.set (writeStage batch body)).Closed := by
  have hempty : (Expr.array []).Closed := closed_array (by simp)
  have hpushed : (Expr.array [str "$_fk_transition"]).Closed :=
    closed_array (List.forall_mem_singleton.mpr (closed_str _))
  simp only [Stage.Closed, writeStage, List.forall_mem_cons, List.not_mem_nil, false_implies, implies_true,
    and_true]
  exact ⟨closed_ifNull (closed_str _) (closed_literal (.int32 _)),
    closed_ifNull (closed_str _) (closed_literal (.binary _)),
    closed_cond (closed_text _) (closed_str _), closed_cond (closed_orRemove _) (closed_str _),
    closed_cond (closed_literal (.date _)) (closed_str _), closed_cond (closed_literal (.date _)) (closed_str _),
    closed_str _, closed_cond (closed_str _) (closed_str _), closed_add,
    closed_cond (closed_str _) (closed_str _), closed_cond (closed_str _) (closed_str _),
    closed_cond closed_regression (closed_str _),
    closed_cond (closed_concatArrays (closed_ifNull (closed_str _) hempty) hpushed) (closed_str _),
    closed_cond (closed_literal (.bool _)) (closed_str _), closed_cond (closed_str _) (closed_str _),
    closed_cond (closed_str _) (closed_str _), closed_cond (closed_literal (.bool _)) (closed_str _),
    closed_cond (closed_literal (.binary _)) (closed_str _)⟩

theorem created_undollared :
    Undollared (.document (runPipeline (occurrencePipeline blake3 batch body) (upsertSeed batch))) := by
  refine Undollared.runPipeline (.document ?_) ?_
  · simp only [upsertSeed, List.forall_mem_cons, List.not_mem_nil, false_implies, implies_true, and_true]
    exact ⟨.binary _, .int32 _, .binary _⟩
  · simp only [occurrencePipeline, List.forall_mem_cons, List.not_mem_nil, false_implies, implies_true,
      and_true]
    exact ⟨closed_markStage, closed_selectStage, closed_writeStage, trivial⟩

end Closed

/-! ### Texts of a created Issue -/

/-- The texts of the document are those of the Issue. -/
structure KeepsTexts (root : BsonDocument) (issue : IssueSnapshot) : Prop where
  title : readField readTitle root "t" = .ok issue.title
  culprit : optionalField readText (root.lookup "q".toList) = .ok issue.culprit
  firstRelease : optionalField readText (root.lookup "fr".toList) = .ok issue.firstRelease
  lastRelease : decodeLastRelease root issue.firstRelease = .ok issue.lastRelease
  regression : optionalField decodeRegression (root.lookup "d".toList) = .ok issue.regression

theorem created_keepsTexts {blake3 : List (BitVec 8) → BitVec 256} {batch : Batch} {body : List (BitVec 8)}
    (hplain : PlainTexts batch) (rowBody : List (BitVec 8)) (count : NonZeroU64) :
    KeepsTexts (runPipeline (occurrencePipeline blake3 batch body) (upsertSeed batch))
      (PostgresIssues.insertedRow batch rowBody count).issue where
  title := by
    refine readField_ok "t" ?_ (readTitle_string _)
    rw [written_title hplain.title, seed_new, if_pos rfl]
    rfl
  culprit := by
    rw [written_culprit hplain.culprit, seed_new, if_pos rfl]
    exact optionalField_map readText_string batch.summary.culprit
  firstRelease := by
    rw [written_firstRelease (seed_firstRelease hplain), releaseText, Option.map_map]
    exact optionalField_map readText_string batch.first.release
  lastRelease :=
    decodeLastRelease_represents (written_lastRelease (seed_firstRelease hplain) (seed_latestRelease hplain))
      (written_releaseMissing (seed_firstRelease hplain) (seed_latestRelease hplain))
  regression := by
    rw [written_regression, seed_regress]
    rfl

/-- The filter of the release upsert puts the version into the document before the pipeline runs. -/
theorem releaseVersion_kept (projectId : ProjectId) (organizationId : Nat) (id : ReleaseId) (version : Text)
    (first latest : ReleaseEvent) :
    (runPipeline (releasePipeline projectId organizationId version first latest)
      (releaseSeed id organizationId version)).lookup "version".toList = some (.string version) := by
  have hmarks : ((releaseMarks first latest).map Prod.fst).Nodup := by
    simp only [releaseMarks, List.map]
    decide
  have hfields : ((releaseFields projectId organizationId version first latest).map Prod.fst).Nodup := by
    simp only [releaseFields, List.map]
    decide
  have hstored : ((Stage.set (releaseMarks first latest)).apply
      (releaseSeed id organizationId version)).lookup "version".toList = some (.string version) := by
    rw [lookup_set hmarks]
    rfl
  have hassigned : (releaseFields projectId organizationId version first latest).lookup "version".toList =
      some (.ifNull (str "$version") (.text version)) := rfl
  simp only [runPipeline, releasePipeline, List.foldl_cons, List.foldl_nil]
  rw [lookup_unset (by decide), if_neg (by decide), lookup_set hfields, hassigned, Option.map_some,
    Option.getD_some, Expr.ifNull, str_field "$version" "version" rfl, hstored]
  rfl

section Literal

variable {root : BsonDocument} (hroot : Undollared (.document root))
include hroot

/-- A text that is read out of a document without dollared texts is not one. -/
theorem undollared_optional {maximum : Nat} {name : Text} {text : IssueText maximum}
    (h : optionalField readText (root.lookup name) = .ok (some text)) : ¬ dollared text.asStr := by
  cases hlookup : root.lookup name with
  | none =>
      rw [hlookup] at h
      cases h
  | some value =>
      have hvalue := hroot.lookup name value hlookup
      rw [hlookup] at h
      cases value with
      | string content =>
          rw [optionalField, readText] at h
          unfold IssueText.new at h
          split_ifs at h
          · cases h
          · cases h
          · cases h
            exact hvalue.text
      | _ => cases h

theorem undollared_title {title : IssueTitle} (h : readField readTitle root "t" = .ok title) :
    ¬ dollared title.asStr := by
  cases hlookup : root.lookup "t".toList with
  | none =>
      rw [readField, hlookup] at h
      cases h
  | some value =>
      have hvalue := hroot.lookup "t".toList value hlookup
      rw [readField, hlookup, Option.bind_some] at h
      cases value with
      | string content =>
          rw [readTitle] at h
          unfold IssueTitle.new at h
          split_ifs at h
          · cases h
          · cases h
          · cases h
            exact hvalue.text
      | _ => cases h

theorem undollared_lastRelease {first : Option IssueRelease} {release : IssueRelease}
    (hfirst : ∀ release ∈ first, ¬ dollared release.asStr)
    (h : decodeLastRelease root first = .ok (some release)) : ¬ dollared release.asStr := by
  simp only [decodeLastRelease, bind_eq_ok] at h
  obtain ⟨releaseMissing, -, h⟩ := h
  cases releaseMissing with
  | true =>
      simp only [if_true, bind_eq_ok, pure_eq_ok] at h
      obtain ⟨_, _, h⟩ := h
      cases h
  | false =>
      simp only [Bool.false_eq_true, if_false, bind_eq_ok, pure_eq_ok] at h
      obtain ⟨stored, hstored, h⟩ := h
      cases stored with
      | none => exact hfirst release h
      | some text =>
          cases h
          exact undollared_optional hroot hstored

end Literal

/-- The texts of a created Issue are the client's when none of them starts with a dollar sign; a release
version is always the client's. -/
theorem created_texts_iff (blake3 : List (BitVec 8) → BitVec 256) (batch : Batch)
    (body rowBody : List (BitVec 8)) (count : NonZeroU64) :
    (KeepsTexts (runPipeline (occurrencePipeline blake3 batch body) (upsertSeed batch))
        (PostgresIssues.insertedRow batch rowBody count).issue ↔ PlainTexts batch)
    ∧ ∀ (projectId : ProjectId) (organizationId : Nat) (id : ReleaseId) (version : Text)
        (first latest : ReleaseEvent),
        (runPipeline (releasePipeline projectId organizationId version first latest)
          (releaseSeed id organizationId version)).lookup "version".toList = some (.string version) := by
  refine ⟨⟨fun h => ?_, fun hplain => ?_⟩, ?_⟩
  · have hroot : Undollared (.document
        (runPipeline (occurrencePipeline blake3 batch body) (upsertSeed batch))) := created_undollared
    have hfirst : ∀ release ∈ batch.first.release, ¬ dollared release.asStr := by
      intro release hrelease
      have hread := h.firstRelease
      rw [show (PostgresIssues.insertedRow batch rowBody count).issue.firstRelease = some release from hrelease]
        at hread
      exact undollared_optional hroot hread
    refine ⟨undollared_title hroot h.title, fun culprit hculprit => ?_, hfirst, fun release hrelease => ?_⟩
    · have hread := h.culprit
      rw [show (PostgresIssues.insertedRow batch rowBody count).issue.culprit = some culprit from hculprit]
        at hread
      exact undollared_optional hroot hread
    · have hread := h.lastRelease
      rw [show (PostgresIssues.insertedRow batch rowBody count).issue.lastRelease = some release from hrelease]
        at hread
      exact undollared_lastRelease hroot hfirst hread
  · exact created_keepsTexts hplain rowBody count
  · intro projectId organizationId id version first latest
    exact releaseVersion_kept projectId organizationId id version first latest

/-- An occurrence whose title starts with a price. -/
def pricedOccurrence : IssueOccurrence where
  projectId := ⟨1, ProjectId.positive_one⟩
  issueId := ⟨7⟩
  groupingKey := ⟨1, 9⟩
  keyed := keyed_sample
  eventId := ⟨3⟩
  occurredAt := ⟨1000, inRange_second⟩
  receivedAt := ⟨1000, inRange_second⟩
  release := none
  title := ⟨"$100 refund failed".toList, by decide⟩
  culprit := none
  grouping := ⟨.message, [], []⟩
  increment := ⟨1, NonZeroU64.inRange_one⟩

def pricedBatch : Batch := ⟨pricedOccurrence, pricedOccurrence, pricedOccurrence, pricedOccurrence, 1⟩

/-- The title is read as a path to a field that is not there. -/
theorem dollar_title_lost :
    ¬ KeepsTexts (runPipeline (occurrencePipeline (fun _ => 0) pricedBatch []) (upsertSeed pricedBatch))
        (PostgresIssues.insertedRow pricedBatch [] ⟨1, by decide⟩).issue := by
  intro h
  have hlost : readField readTitle
      (runPipeline (occurrencePipeline (fun _ => 0) pricedBatch []) (upsertSeed pricedBatch)) "t" =
        .error .invalidDocument := by
    decide
  have htitle := h.title
  rw [hlost] at htitle
  cases htitle

end MongoIssues

end MetricBackend
