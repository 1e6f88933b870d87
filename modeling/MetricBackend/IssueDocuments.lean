import MetricBackend.MongoIssues
import MetricBackend.PostgresIssues

/-! What the Issue document says. The fields that the occurrence pipeline leaves, the document that an
Issue is written as, and that reading such a document gives the Issue back. -/

namespace MetricBackend

namespace MongoIssues

open Issues BsonValue

/-! ### Stages of the pipeline -/

theorem str_field (path name : String) (h : str path = fun root => follow [name.toList] (.document root))
    (root : BsonDocument) : str path root = root.lookup name.toList := by
  rw [h]
  exact follow_field name.toList root

theorem str_inner (path name inner : String)
    (h : str path = fun root => follow [name.toList, inner.toList] (.document root))
    (root : BsonDocument) : str path root = (root.lookup name.toList).bind (follow [inner.toList]) := by
  rw [h]
  rfl

section Stages

variable (blake3 : List (BitVec 8) → BitVec 256) (batch : Batch) (body : List (BitVec 8))

theorem markStage_nodup : ((markStage batch).map Prod.fst).Nodup := by
  simp only [markStage, List.map]
  decide

theorem selectStage_nodup : ((selectStage blake3 batch).map Prod.fst).Nodup := by
  simp only [selectStage, List.map]
  decide

theorem writeStage_nodup : ((writeStage batch body).map Prod.fst).Nodup := by
  simp only [writeStage, List.map]
  decide

/-- The document after the first two stages. -/
def selected (root : BsonDocument) : BsonDocument :=
  (Stage.set (selectStage blake3 batch)).apply ((Stage.set (markStage batch)).apply root)

theorem temporaries_nodup : temporaries.Nodup := by decide

theorem temporaries_underscore : ∀ name ∈ temporaries, name.head? = some '_' := by decide

variable {blake3 batch body}

/-- A field that the first stage does not assign. -/
theorem lookup_marked (name : String) {root : BsonDocument}
    (hmark : (markStage batch).lookup name.toList = none) :
    ((Stage.set (markStage batch)).apply root).lookup name.toList = root.lookup name.toList := by
  rw [lookup_set (markStage_nodup batch), hmark]
  rfl

/-- A temporary of the first stage. -/
theorem lookup_marked_mark (name : String) {root : BsonDocument} {value : Expr}
    (hmark : (markStage batch).lookup name.toList = some value) :
    ((Stage.set (markStage batch)).apply root).lookup name.toList = value root := by
  rw [lookup_set (markStage_nodup batch), hmark]
  rfl

theorem lookup_selected (name : String) {root : BsonDocument}
    (hselect : (selectStage blake3 batch).lookup name.toList = none) :
    (selected blake3 batch root).lookup name.toList =
      ((Stage.set (markStage batch)).apply root).lookup name.toList := by
  rw [selected, lookup_set (selectStage_nodup blake3 batch), hselect]
  rfl

/-- A temporary of the second stage. -/
theorem lookup_selected_select (name : String) {root : BsonDocument} {value : Expr}
    (hselect : (selectStage blake3 batch).lookup name.toList = some value) :
    (selected blake3 batch root).lookup name.toList = value ((Stage.set (markStage batch)).apply root) := by
  rw [selected, lookup_set (selectStage_nodup blake3 batch), hselect]
  rfl

theorem runPipeline_occurrence (root : BsonDocument) :
    runPipeline (occurrencePipeline blake3 batch body) root =
      (Stage.unset temporaries).apply
        ((Stage.set (writeStage batch body)).apply (selected blake3 batch root)) := by
  simp only [runPipeline, occurrencePipeline, List.foldl_cons, List.foldl_nil, selected]

/-- A field that the third stage writes. -/
theorem lookup_written (name : String) {root : BsonDocument} {value : Expr}
    (hwrite : (writeStage batch body).lookup name.toList = some value)
    (hname : name.toList.head? ≠ some '_') :
    (runPipeline (occurrencePipeline blake3 batch body) root).lookup name.toList =
      value (selected blake3 batch root) := by
  have htemporary : name.toList ∉ temporaries := fun hmem => hname (temporaries_underscore _ hmem)
  rw [runPipeline_occurrence, lookup_unset temporaries_nodup, if_neg htemporary,
    lookup_set (writeStage_nodup batch body), hwrite]
  rfl

theorem lookup_temporary {name : Text} {root : BsonDocument} (htemporary : name ∈ temporaries) :
    (runPipeline (occurrencePipeline blake3 batch body) root).lookup name = none := by
  rw [runPipeline_occurrence, lookup_unset temporaries_nodup, if_pos htemporary]

/-- A field that the pipeline does not name. -/
theorem lookup_kept {name : Text} {root : BsonDocument}
    (hwrite : (writeStage batch body).lookup name = none) (htemporary : name ∉ temporaries)
    (hselect : (selectStage blake3 batch).lookup name = none) (hmark : (markStage batch).lookup name = none) :
    (runPipeline (occurrencePipeline blake3 batch body) root).lookup name = root.lookup name := by
  rw [runPipeline_occurrence, lookup_unset temporaries_nodup, if_neg htemporary,
    lookup_set (writeStage_nodup batch body), hwrite, Option.map_none, Option.getD_none, selected,
    lookup_set (selectStage_nodup blake3 batch), hselect, Option.map_none, Option.getD_none,
    lookup_set (markStage_nodup batch), hmark]
  rfl

/-! ### Temporaries -/

/-- A temporary of the first stage, read in the third. -/
theorem selected_mark (path name : String) {root : BsonDocument} {value : Expr}
    (hpath : str path = fun root => follow [name.toList] (.document root))
    (hselect : (selectStage blake3 batch).lookup name.toList = none)
    (hmark : (markStage batch).lookup name.toList = some value) :
    str path (selected blake3 batch root) = value root := by
  rw [str_field path name hpath, lookup_selected name hselect, lookup_marked_mark name hmark]

/-- A field of the document, read in the third stage. -/
theorem selected_field (path name : String) {root : BsonDocument}
    (hpath : str path = fun root => follow [name.toList] (.document root))
    (hselect : (selectStage blake3 batch).lookup name.toList = none)
    (hmark : (markStage batch).lookup name.toList = none) :
    str path (selected blake3 batch root) = root.lookup name.toList := by
  rw [str_field path name hpath, lookup_selected name hselect, lookup_marked name hmark]

theorem selected_new (root : BsonDocument) :
    str "$_fk_new" (selected blake3 batch root) = isMissing "$b" root :=
  selected_mark "$_fk_new" "_fk_new" rfl rfl rfl

theorem selected_first (root : BsonDocument) :
    str "$_fk_first" (selected blake3 batch root) = isFirst batch root :=
  selected_mark "$_fk_first" "_fk_first" rfl rfl rfl

theorem selected_latest (root : BsonDocument) :
    str "$_fk_latest" (selected blake3 batch root) = isLatest batch root :=
  selected_mark "$_fk_latest" "_fk_latest" rfl rfl rfl

theorem selected_regress (root : BsonDocument) :
    str "$_fk_regress" (selected blake3 batch root) = isRegression batch root :=
  selected_mark "$_fk_regress" "_fk_regress" rfl rfl rfl

theorem marked_mark (path name : String) {root : BsonDocument} {value : Expr}
    (hpath : str path = fun root => follow [name.toList] (.document root))
    (hmark : (markStage batch).lookup name.toList = some value) :
    str path ((Stage.set (markStage batch)).apply root) = value root := by
  rw [str_field path name hpath, lookup_marked_mark name hmark]

theorem selected_firstEvent (root : BsonDocument) :
    (selected blake3 batch root).lookup "_fk_first_event".toList =
      if truthy (isFirst batch root) then some (eventBinary batch.first.eventId)
      else root.lookup "e".toList := by
  rw [lookup_selected_select "_fk_first_event" rfl, Expr.cond, marked_mark "$_fk_first" "_fk_first" rfl rfl,
    str_field "$e" "e" rfl, lookup_marked "e" rfl]
  rfl

theorem selected_latestEvent (root : BsonDocument) :
    (selected blake3 batch root).lookup "_fk_latest_event".toList =
      if truthy (isLatest batch root) then some (eventBinary batch.latest.eventId) else oldLatestEvent root := by
  rw [lookup_selected_select "_fk_latest_event" rfl, Expr.cond,
    marked_mark "$_fk_latest" "_fk_latest" rfl rfl,
    marked_mark "$_fk_old_latest_event" "_fk_old_latest_event" rfl rfl]
  rfl

/-! ### Releases -/

/-- An optional release, as a pair of presence and text. -/
def pairValue : Option Text → BsonValue
  | none => .document [("p".toList, .bool false), ("v".toList, .string [])]
  | some text => .document [("p".toList, .bool true), ("v".toList, .string text)]

theorem pairValue_present (release : Option Text) :
    follow ["p".toList] (pairValue release) = some (.bool release.isSome) := by
  cases release <;> rfl

theorem pairValue_text (release : Option Text) :
    follow ["v".toList] (pairValue release) = some (.string (release.getD [])) := by
  cases release <;> rfl

/-- The texts that a batch splices into the pipeline are themselves. -/
structure PlainTexts (batch : Batch) : Prop where
  title : ¬ dollared batch.summary.title.asStr
  culprit : ∀ culprit ∈ batch.summary.culprit, ¬ dollared culprit.asStr
  first : ∀ release ∈ batch.first.release, ¬ dollared release.asStr
  latest : ∀ release ∈ batch.latest.release, ¬ dollared release.asStr

theorem releasePair_eval {release : Option IssueRelease} (h : ∀ text ∈ release, ¬ dollared text.asStr)
    (root : BsonDocument) : releasePair release root = some (pairValue (release.map (·.asStr))) := by
  cases release with
  | none => rfl
  | some text =>
      simp only [releasePair, Expr.object, List.filterMap_cons, List.filterMap_nil, Expr.literal,
        text_of_not_dollared (h text rfl), Option.map_some]
      rfl

theorem orRemove_eval {maximum : Nat} {value : Option (IssueText maximum)}
    (h : ∀ text ∈ value, ¬ dollared text.asStr) (root : BsonDocument) :
    orRemove value root = value.map fun text => .string text.asStr := by
  cases value with
  | none => rfl
  | some text => exact text_of_not_dollared (h text rfl) root

theorem selected_firstRelease (hplain : PlainTexts batch) (root : BsonDocument) :
    (selected blake3 batch root).lookup "_fk_first_release".toList =
      if truthy (isFirst batch root) then some (pairValue (batch.first.release.map (·.asStr)))
      else oldFirstRelease root := by
  rw [lookup_selected_select "_fk_first_release" rfl, Expr.cond,
    marked_mark "$_fk_first" "_fk_first" rfl rfl, releasePair_eval hplain.first,
    marked_mark "$_fk_old_first_release" "_fk_old_first_release" rfl rfl]

theorem selected_latestRelease (hplain : PlainTexts batch) (root : BsonDocument) :
    (selected blake3 batch root).lookup "_fk_latest_release".toList =
      if truthy (isLatest batch root) then some (pairValue (batch.latest.release.map (·.asStr)))
      else oldLatestRelease root := by
  rw [lookup_selected_select "_fk_latest_release" rfl, Expr.cond,
    marked_mark "$_fk_latest" "_fk_latest" rfl rfl, releasePair_eval hplain.latest,
    marked_mark "$_fk_old_latest_release" "_fk_old_latest_release" rfl rfl]

/-- The last release is stored when it is not the first one. -/
def lastReleaseField (first latest : Option Text) : Option BsonValue :=
  if latest = first then none else latest.map .string

/-- A missing last release is marked when there is a first one. -/
def releaseMissingField (first latest : Option Text) : Option BsonValue :=
  if first.isSome ∧ latest.isNone then some (.bool true) else none

section Releases

variable {root : BsonDocument} {first latest : Option Text}
  (hfirst : (selected blake3 batch root).lookup "_fk_first_release".toList = some (pairValue first))
  (hlatest : (selected blake3 batch root).lookup "_fk_latest_release".toList = some (pairValue latest))
include hfirst hlatest

omit hlatest in
theorem written_firstRelease :
    (runPipeline (occurrencePipeline blake3 batch body) root).lookup "fr".toList = first.map .string := by
  rw [lookup_written "fr" rfl (by decide), Expr.cond,
    str_inner "$_fk_first_release.p" "_fk_first_release" "p" rfl,
    str_inner "$_fk_first_release.v" "_fk_first_release" "v" rfl, hfirst]
  cases first <;> rfl

theorem written_lastRelease :
    (runPipeline (occurrencePipeline blake3 batch body) root).lookup "lr".toList =
      lastReleaseField first latest := by
  rw [lookup_written "lr" rfl (by decide)]
  simp only [Expr.cond, Expr.and, Expr.or, Expr.not, Expr.ne, Expr.compared, List.all_cons, List.all_nil,
    List.any_cons, List.any_nil, str_inner "$_fk_first_release.p" "_fk_first_release" "p" rfl,
    str_inner "$_fk_first_release.v" "_fk_first_release" "v" rfl,
    str_inner "$_fk_latest_release.p" "_fk_latest_release" "p" rfl,
    str_inner "$_fk_latest_release.v" "_fk_latest_release" "v" rfl, hfirst, hlatest, Option.bind_some,
    pairValue_present, pairValue_text, truthy, orderResults, lastReleaseField]
  cases latest with
  | none => cases first <;> rfl
  | some latestText =>
      cases first with
      | none => rfl
      | some firstText =>
          by_cases hsame : latestText = firstText
          · simp [hsame, order_string_eq_iff]
            rfl
          · simp [hsame, order_string_eq_iff]

theorem written_releaseMissing :
    (runPipeline (occurrencePipeline blake3 batch body) root).lookup "m".toList =
      releaseMissingField first latest := by
  rw [lookup_written "m" rfl (by decide)]
  simp only [Expr.cond, Expr.and, Expr.not, List.all_cons, List.all_nil,
    str_inner "$_fk_first_release.p" "_fk_first_release" "p" rfl,
    str_inner "$_fk_latest_release.p" "_fk_latest_release" "p" rfl, hfirst, hlatest]
  cases first <;> cases latest <;> rfl

end Releases

/-! ### Fields that the third stage writes -/

theorem written_title (htitle : ¬ dollared batch.summary.title.asStr) (root : BsonDocument) :
    (runPipeline (occurrencePipeline blake3 batch body) root).lookup "t".toList =
      if truthy (isMissing "$b" root) then some (.string batch.summary.title.asStr)
      else root.lookup "t".toList := by
  rw [lookup_written "t" rfl (by decide), Expr.cond, selected_new, text_of_not_dollared htitle,
    selected_field "$t" "t" rfl rfl rfl]

theorem written_culprit (hculprit : ∀ culprit ∈ batch.summary.culprit, ¬ dollared culprit.asStr)
    (root : BsonDocument) :
    (runPipeline (occurrencePipeline blake3 batch body) root).lookup "q".toList =
      if truthy (isMissing "$b" root) then batch.summary.culprit.map fun text => .string text.asStr
      else root.lookup "q".toList := by
  rw [lookup_written "q" rfl (by decide), Expr.cond, selected_new, orRemove_eval hculprit,
    selected_field "$q" "q" rfl rfl rfl]

theorem written_firstSeen (root : BsonDocument) :
    (runPipeline (occurrencePipeline blake3 batch body) root).lookup "f".toList =
      if truthy (isFirst batch root) then some (date batch.first.occurredAt) else root.lookup "f".toList := by
  rw [lookup_written "f" rfl (by decide), Expr.cond, selected_first, selected_field "$f" "f" rfl rfl rfl]
  rfl

theorem written_lastSeen (root : BsonDocument) :
    (runPipeline (occurrencePipeline blake3 batch body) root).lookup "l".toList =
      if truthy (isLatest batch root) then some (date batch.latest.occurredAt) else root.lookup "l".toList := by
  rw [lookup_written "l" rfl (by decide), Expr.cond, selected_latest, selected_field "$l" "l" rfl rfl rfl]
  rfl

theorem written_firstEvent (root : BsonDocument) :
    (runPipeline (occurrencePipeline blake3 batch body) root).lookup "e".toList =
      if truthy (isFirst batch root) then some (eventBinary batch.first.eventId)
      else root.lookup "e".toList := by
  rw [lookup_written "e" rfl (by decide), str_field "$_fk_first_event" "_fk_first_event" rfl,
    selected_firstEvent]

/-- The latest Event is stored when it is not the first one. -/
def latestEventField (first latest : EventId) : Option BsonValue :=
  if latest = first then none else some (eventBinary latest)

theorem order_eventBinary {left right : EventId} :
    order (eventBinary left) (eventBinary right) = compare left.asBytes.toNat right.asBytes.toNat :=
  order_binary

theorem written_latestEvent {root : BsonDocument} {first latest : EventId}
    (hfirst : (selected blake3 batch root).lookup "_fk_first_event".toList = some (eventBinary first))
    (hlatest : (selected blake3 batch root).lookup "_fk_latest_event".toList = some (eventBinary latest)) :
    (runPipeline (occurrencePipeline blake3 batch body) root).lookup "v".toList =
      latestEventField first latest := by
  rw [lookup_written "v" rfl (by decide)]
  simp only [Expr.cond, Expr.eq, Expr.compared, str_field "$_fk_first_event" "_fk_first_event" rfl,
    str_field "$_fk_latest_event" "_fk_latest_event" rfl, hfirst, hlatest, orderResults, order_eventBinary,
    truthy, latestEventField]
  by_cases hsame : latest = first
  · simp [hsame]
    rfl
  · have hne : latest.asBytes.toNat ≠ first.asBytes.toNat := fun h => hsame (Identity.toNat_injective h)
    simp [hsame, hne]

theorem written_count (root : BsonDocument) :
    (runPipeline (occurrencePipeline blake3 batch body) root).lookup "c".toList =
      plus (coalesce (root.lookup "c".toList) (some (.int64 0))) (some (.int64 batch.increment)) := by
  rw [lookup_written "c" rfl (by decide), Expr.add, Expr.ifNull,
    selected_field "$c" "c" rfl rfl rfl]
  rfl

theorem written_status (root : BsonDocument) :
    (runPipeline (occurrencePipeline blake3 batch body) root).lookup "s".toList =
      if truthy (isRegression batch root) then none else root.lookup "s".toList := by
  rw [lookup_written "s" rfl (by decide), Expr.cond, selected_regress, selected_field "$s" "s" rfl rfl rfl]
  rfl

theorem written_workflow (root : BsonDocument) :
    (runPipeline (occurrencePipeline blake3 batch body) root).lookup "w".toList =
      if truthy (isRegression batch root) then none else root.lookup "w".toList := by
  rw [lookup_written "w" rfl (by decide), Expr.cond, selected_regress, selected_field "$w" "w" rfl rfl rfl]
  rfl

theorem written_regression (root : BsonDocument) :
    (runPipeline (occurrencePipeline blake3 batch body) root).lookup "d".toList =
      if truthy (isRegression batch root) then regression batch (selected blake3 batch root)
      else root.lookup "d".toList := by
  rw [lookup_written "d" rfl (by decide), Expr.cond, selected_regress, selected_field "$d" "d" rfl rfl rfl]

theorem written_project (root : BsonDocument) :
    (runPipeline (occurrencePipeline blake3 batch body) root).lookup "p".toList =
      coalesce (root.lookup "p".toList) (some (.int32 batch.summary.projectId.get)) := by
  rw [lookup_written "p" rfl (by decide), Expr.ifNull, selected_field "$p" "p" rfl rfl rfl]
  rfl

theorem written_key (root : BsonDocument) :
    (runPipeline (occurrencePipeline blake3 batch body) root).lookup "g".toList =
      coalesce (root.lookup "g".toList) (some (keyBinary batch.summary.groupingKey)) := by
  rw [lookup_written "g" rfl (by decide), Expr.ifNull, selected_field "$g" "g" rfl rfl rfl]
  rfl

theorem written_body (root : BsonDocument) :
    (runPipeline (occurrencePipeline blake3 batch body) root).lookup "b".toList =
      if truthy (isMissing "$b" root) then some (bodyBinary body) else root.lookup "b".toList := by
  rw [lookup_written "b" rfl (by decide), Expr.cond, selected_new, selected_field "$b" "b" rfl rfl rfl]
  rfl

/-- The transition that a batch makes. -/
def madeTransition (blake3 : List (BitVec 8) → BitVec 256) (batch : Batch) (root : BsonDocument) :
    Option BsonValue :=
  if truthy (isMissing "$b" root) then some (newTransition blake3 batch)
  else if truthy (isRegression batch root) then some (regressionTransition blake3 batch)
  else none

theorem selected_transition (root : BsonDocument) :
    (selected blake3 batch root).lookup "_fk_transition".toList = madeTransition blake3 batch root := by
  rw [lookup_selected_select "_fk_transition" rfl, Expr.cond, marked_mark "$_fk_new" "_fk_new" rfl rfl,
    Expr.cond, marked_mark "$_fk_regress" "_fk_regress" rfl rfl]
  rfl

/-- Pending transitions, when there are some. -/
def pendingField (pending : List BsonValue) : Option BsonValue :=
  if pending = [] then none else some (.array pending)

def pendingMark (pending : List BsonValue) : Option BsonValue :=
  if pending = [] then none else some (.bool true)

theorem truthy_isMissing {path : String} {root : BsonDocument} :
    truthy (isMissing path root) = (str path root).isNone := by
  have hmissing : str "missing" root = some (.string "missing".toList) := rfl
  rw [Bool.eq_iff_iff, Option.isNone_iff_eq_none, ← typeName_eq_missing, ← order_string_eq_iff]
  simp only [isMissing, Expr.eq, Expr.compared, Expr.type, hmissing, orderResults, truthy, beq_iff_eq]

theorem truthy_isPresent {path : String} {root : BsonDocument} :
    truthy (isPresent path root) = (str path root).isSome := by
  have hmissing : str "missing" root = some (.string "missing".toList) := rfl
  rw [Bool.eq_iff_iff, Option.isSome_iff_ne_none, ne_eq, ← typeName_eq_missing, ← order_string_eq_iff]
  simp only [isPresent, Expr.ne, Expr.compared, Expr.type, hmissing, orderResults, truthy, bne_iff_ne, ne_eq]

theorem written_pending {root : BsonDocument} {pending : List BsonValue}
    (hpending : root.lookup "n".toList = pendingField pending) :
    (runPipeline (occurrencePipeline blake3 batch body) root).lookup "n".toList =
      pendingField (pending ++ (madeTransition blake3 batch root).toList) := by
  rw [lookup_written "n" rfl (by decide), Expr.cond, truthy_isPresent,
    str_field "$_fk_transition" "_fk_transition" rfl, selected_transition,
    selected_field "$n" "n" rfl rfl rfl, hpending]
  cases hmade : madeTransition blake3 batch root with
  | none => simp
  | some item =>
      rw [Option.isSome_some, if_pos rfl, Expr.concatArrays, Expr.ifNull,
        selected_field "$n" "n" rfl rfl rfl, hpending, Expr.array, Expr.array]
      simp only [List.map_nil, List.map_cons, str_field "$_fk_transition" "_fk_transition" rfl,
        selected_transition, hmade, Option.getD_some, Option.toList_some]
      by_cases hempty : pending = []
      · subst hempty
        rfl
      · rw [pendingField, pendingField, if_neg hempty, if_neg (by simp)]
        rfl

theorem written_mark {root : BsonDocument} {pending : List BsonValue}
    (hmark : root.lookup "j".toList = pendingMark pending) :
    (runPipeline (occurrencePipeline blake3 batch body) root).lookup "j".toList =
      pendingMark (pending ++ (madeTransition blake3 batch root).toList) := by
  rw [lookup_written "j" rfl (by decide), Expr.cond, truthy_isPresent,
    str_field "$_fk_transition" "_fk_transition" rfl, selected_transition,
    selected_field "$j" "j" rfl rfl rfl, hmark]
  cases madeTransition blake3 batch root with
  | none => simp
  | some item =>
      rw [Option.isSome_some, if_pos rfl, pendingMark, if_neg (by simp)]
      rfl

end Stages


/-! ### The document of an Issue -/

def statusField : IssueStatus → Option BsonValue
  | .open => none
  | .resolved => some (.int32 1)
  | .ignored => some (.int32 2)

def workflowValue (workflow : IssueWorkflow) : BsonValue :=
  .document [("t".toList, date workflow.atTime), ("a".toList, actorBinary workflow.actor)]

/-- A regression. The count is stored from the second one on. -/
def regressionFields (regression : RegressionSummary) : BsonDocument :=
  [("t".toList, date regression.atTime), ("e".toList, eventBinary regression.eventId)]
    ++ (if 1 < regression.count.get then [("c".toList, .int64 regression.count.get)] else [])
    ++ (regression.release.map fun release => ("r".toList, BsonValue.string release.asStr)).toList

def regressionValue (regression : RegressionSummary) : BsonValue := .document (regressionFields regression)

def releaseText (release : Option IssueRelease) : Option Text := release.map (·.asStr)

/-- The fields that a document may have. -/
def issueNames : List Text :=
  ["_id".toList, "p".toList, "g".toList, "t".toList, "q".toList, "f".toList, "l".toList, "e".toList,
    "v".toList, "r".toList, "c".toList, "s".toList, "a".toList, "w".toList, "d".toList, "fr".toList,
    "lr".toList, "m".toList, "j".toList, "n".toList, "b".toList]

/-- The document is the Issue, with its pending transitions. -/
structure Represents (root : BsonDocument) (issue : IssueSnapshot) (pending : List BsonValue) : Prop where
  id : root.lookup "_id".toList = some (issueBinary issue.issueId)
  project : root.lookup "p".toList = some (.int32 issue.projectId.get)
  key : root.lookup "g".toList = some (keyBinary issue.groupingKey)
  title : root.lookup "t".toList = some (.string issue.title.asStr)
  culprit : root.lookup "q".toList = issue.culprit.map fun text => .string text.asStr
  firstSeen : root.lookup "f".toList = some (date issue.firstSeen)
  lastSeen : root.lookup "l".toList = some (date issue.lastSeen)
  firstEvent : root.lookup "e".toList = some (eventBinary issue.firstEventId)
  latestEvent : root.lookup "v".toList = latestEventField issue.firstEventId issue.latestEventId
  representative : root.lookup "r".toList = none
  count : root.lookup "c".toList = some (.int64 issue.occurrenceCount.get)
  status : root.lookup "s".toList = statusField issue.status
  assignee : root.lookup "a".toList = issue.assignee.map actorBinary
  workflow : root.lookup "w".toList = issue.workflow.map workflowValue
  regression : root.lookup "d".toList = issue.regression.map regressionValue
  firstRelease : root.lookup "fr".toList = (releaseText issue.firstRelease).map .string
  lastRelease : root.lookup "lr".toList =
    lastReleaseField (releaseText issue.firstRelease) (releaseText issue.lastRelease)
  releaseMissing : root.lookup "m".toList =
    releaseMissingField (releaseText issue.firstRelease) (releaseText issue.lastRelease)
  mark : root.lookup "j".toList = pendingMark pending
  pending : root.lookup "n".toList = pendingField pending
  body : ∃ content, root.lookup "b".toList = some (.binary content)
  known : ∀ name, (root.lookup name).isSome → name ∈ issueNames

section Written

variable {blake3 : List (BitVec 8) → BitVec 256} {batch : Batch} {body : List (BitVec 8)}

theorem writeStage_known : ∀ assignment ∈ writeStage batch body, assignment.1 ∈ issueNames := by
  have hnames : ∀ name ∈ (writeStage batch body).map Prod.fst, name ∈ issueNames := by
    simp only [writeStage, List.map]
    decide
  exact fun assignment hassignment => hnames _ (List.mem_map_of_mem hassignment)

theorem markStage_temporary : ∀ assignment ∈ markStage batch, assignment.1 ∈ temporaries := by
  have hnames : ∀ name ∈ (markStage batch).map Prod.fst, name ∈ temporaries := by
    simp only [markStage, List.map]
    decide
  exact fun assignment hassignment => hnames _ (List.mem_map_of_mem hassignment)

theorem selectStage_temporary : ∀ assignment ∈ selectStage blake3 batch, assignment.1 ∈ temporaries := by
  have hnames : ∀ name ∈ (selectStage blake3 batch).map Prod.fst, name ∈ temporaries := by
    simp only [selectStage, List.map]
    decide
  exact fun assignment hassignment => hnames _ (List.mem_map_of_mem hassignment)

/-- A field outside the Issue's names stays as it was, or is removed with the temporaries. -/
theorem written_known {root : BsonDocument} (hroot : ∀ name, (root.lookup name).isSome → name ∈ issueNames)
    (name : Text) (hname : ((runPipeline (occurrencePipeline blake3 batch body) root).lookup name).isSome) :
    name ∈ issueNames := by
  by_contra hunknown
  by_cases htemporary : name ∈ temporaries
  · rw [lookup_temporary htemporary] at hname
    cases hname
  · have hwrite : (writeStage batch body).lookup name = none := lookup_absent fun assignment hassignment h =>
      hunknown (h ▸ writeStage_known assignment hassignment)
    have hselect : (selectStage blake3 batch).lookup name = none := lookup_absent fun assignment hassignment h =>
      htemporary (h ▸ selectStage_temporary assignment hassignment)
    have hmark : (markStage batch).lookup name = none := lookup_absent fun assignment hassignment h =>
      htemporary (h ▸ markStage_temporary assignment hassignment)
    rw [lookup_kept hwrite htemporary hselect hmark] at hname
    exact hunknown (hroot name hname)

/-- A name of the Issue that the pipeline does not assign. -/
theorem written_kept (name : String) {root : BsonDocument}
    (hwrite : (writeStage batch body).lookup name.toList = none) (htemporary : name.toList ∉ temporaries) :
    (runPipeline (occurrencePipeline blake3 batch body) root).lookup name.toList =
      root.lookup name.toList :=
  lookup_kept hwrite htemporary
    (lookup_absent fun assignment hassignment h => htemporary (h ▸ selectStage_temporary assignment hassignment))
    (lookup_absent fun assignment hassignment h => htemporary (h ▸ markStage_temporary assignment hassignment))

/-! ### A created Issue -/

theorem seed_known : ∀ name, ((upsertSeed batch).lookup name).isSome → name ∈ issueNames := by
  intro name hname
  simp only [upsertSeed, lookup_field, List.lookup_nil] at hname
  split_ifs at hname with hid hproject hkey
  · rw [hid]
    decide
  · rw [hproject]
    decide
  · rw [hkey]
    decide
  · cases hname

theorem seed_new : truthy (isMissing "$b" (upsertSeed batch)) = true := rfl

theorem seed_first : truthy (isFirst batch (upsertSeed batch)) = true := rfl

theorem seed_latest : truthy (isLatest batch (upsertSeed batch)) = true := rfl

theorem seed_regress : truthy (isRegression batch (upsertSeed batch)) = false := rfl

theorem seed_firstRelease (hplain : PlainTexts batch) :
    (selected blake3 batch (upsertSeed batch)).lookup "_fk_first_release".toList =
      some (pairValue (releaseText batch.first.release)) := by
  rw [selected_firstRelease hplain, seed_first, if_pos rfl]
  rfl

theorem seed_latestRelease (hplain : PlainTexts batch) :
    (selected blake3 batch (upsertSeed batch)).lookup "_fk_latest_release".toList =
      some (pairValue (releaseText batch.latest.release)) := by
  rw [selected_latestRelease hplain, seed_latest, if_pos rfl]
  rfl

/-- A batch that finds no document writes the Issue that the row store inserts. -/
theorem created_represents (hplain : PlainTexts batch) {count : NonZeroU64} (hcount : count.get = batch.increment)
    (hfits : batch.increment ≤ i64Max) (rowBody : List (BitVec 8)) :
    Represents (runPipeline (occurrencePipeline blake3 batch body) (upsertSeed batch))
      (PostgresIssues.insertedRow batch rowBody count).issue [newTransition blake3 batch] := by
  have hmade : madeTransition blake3 batch (upsertSeed batch) = some (newTransition blake3 batch) := by
    rw [madeTransition, seed_new, if_pos rfl]
  have hfirstEvent : (selected blake3 batch (upsertSeed batch)).lookup "_fk_first_event".toList =
      some (eventBinary batch.first.eventId) := by
    rw [selected_firstEvent, seed_first, if_pos rfl]
  have hlatestEvent : (selected blake3 batch (upsertSeed batch)).lookup "_fk_latest_event".toList =
      some (eventBinary batch.latest.eventId) := by
    rw [selected_latestEvent, seed_latest, if_pos rfl]
  have hpending : (upsertSeed batch).lookup "n".toList = pendingField [] := rfl
  have hmark : (upsertSeed batch).lookup "j".toList = pendingMark [] := rfl
  have hsum : sum64 (0 + batch.increment) = .int64 count.get := by
    rw [hcount, zero_add, sum64, if_pos]
    simp only [i64Max] at hfits
    omega
  constructor
  case id => exact written_kept "_id" rfl (by decide)
  case project => exact written_project _
  case key => exact written_key _
  case title => rw [written_title hplain.title, seed_new, if_pos rfl]; rfl
  case culprit => rw [written_culprit hplain.culprit, seed_new, if_pos rfl]; rfl
  case firstSeen => rw [written_firstSeen, seed_first, if_pos rfl]; rfl
  case lastSeen => rw [written_lastSeen, seed_latest, if_pos rfl]; rfl
  case firstEvent => rw [written_firstEvent, seed_first, if_pos rfl]; rfl
  case latestEvent => exact written_latestEvent hfirstEvent hlatestEvent
  case representative => exact written_kept "r" rfl (by decide)
  case count =>
    rw [written_count]
    exact congrArg some hsum
  case status => rw [written_status, seed_regress]; rfl
  case assignee => exact written_kept "a" rfl (by decide)
  case workflow => rw [written_workflow, seed_regress]; rfl
  case regression => rw [written_regression, seed_regress]; rfl
  case firstRelease => exact written_firstRelease (seed_firstRelease hplain)
  case lastRelease => exact written_lastRelease (seed_firstRelease hplain) (seed_latestRelease hplain)
  case releaseMissing => exact written_releaseMissing (seed_firstRelease hplain) (seed_latestRelease hplain)
  case mark => rw [written_mark hmark, hmade]; rfl
  case pending => rw [written_pending hpending, hmade]; rfl
  case body => exact ⟨_, by rw [written_body, seed_new, if_pos rfl]; rfl⟩
  case known => exact written_known seed_known

end Written

/-! ### Reading the document back -/

theorem readField_ok {α : Type} (name : String) {read : BsonValue → Option α} {root : BsonDocument}
    {value : BsonValue} {result : α} (hlookup : root.lookup name.toList = some value)
    (hread : read value = some result) : readField read root name = .ok result := by
  rw [readField, hlookup, Option.bind_some, hread]
  rfl

theorem optionalField_map {α : Type} {read : BsonValue → Option α} {write : α → BsonValue}
    (hread : ∀ value, read (write value) = some value) (value : Option α) :
    optionalField read (value.map write) = .ok value := by
  cases value with
  | none => rfl
  | some value =>
      rw [Option.map_some, optionalField, hread]
      rfl

theorem readText_string {maximum : Nat} (text : IssueText maximum) : readText (.string text.asStr) = some text := by
  rw [readText, IssueText.new_asStr]
  rfl

theorem readTitle_string (title : IssueTitle) : readTitle (.string title.asStr) = some title := by
  rw [readTitle, IssueTitle.new_asStr]
  rfl

theorem readDate_date (time : Timestamp) : readDate (date time) = some time := by
  rw [date, readDate, Timestamp.fromUnixMillis_eq_ok.mpr rfl]
  rfl

theorem readEvent_event (id : EventId) : readEvent (eventBinary id) = some id := by
  rw [eventBinary, binary, readEvent, fixedBinary, if_pos rfl, Option.map_some, eventOf, BitVec.ofNat_toNat,
    BitVec.setWidth_eq]

theorem readActor_actor (actor : ActorRef) : readActor (actorBinary actor) = some actor := by
  rw [actorBinary, binary, readActor, fixedBinary, if_pos rfl, Option.bind_some, BitVec.ofNat_toNat,
    BitVec.setWidth_eq, ActorRef.fromBytes_toBytes]

theorem readProject_project (projectId : ProjectId) : readProject (.int32 projectId.get) = some projectId :=
  dif_pos projectId.positive

theorem readKey_key {key : GroupingKey} (hkey : key.revision ≠ 0) : readKey (keyBinary key) = some key := by
  have hrevision : (key.revision ++ key.digest).extractLsb' 256 16 = key.revision :=
    BitVec.extractLsb'_append_eq_left
  have hdigest : (key.revision ++ key.digest).extractLsb' 0 256 = key.digest :=
    BitVec.extractLsb'_append_eq_right
  simp only [keyBinary, binary, readKey, fixedBinary, if_true, Option.bind_some, BitVec.ofNat_toNat,
    BitVec.setWidth_eq, hrevision, hdigest, if_neg hkey]

theorem readCount_int64 {minimum : Int} {count : NonZeroU64} (hminimum : minimum ≤ count.get) :
    readCount minimum (.int64 count.get) = some count := by
  rw [readCount, if_pos hminimum, Int.toNat_natCast, NonZeroU64.new_get]

theorem decodeWorkflow_workflow (workflow : IssueWorkflow) :
    decodeWorkflow (workflowValue workflow) = some workflow := by
  have htime : (List.lookup "t".toList
      [("t".toList, date workflow.atTime), ("a".toList, actorBinary workflow.actor)]) =
        some (date workflow.atTime) := rfl
  have hactor : (List.lookup "a".toList
      [("t".toList, date workflow.atTime), ("a".toList, actorBinary workflow.actor)]) =
        some (actorBinary workflow.actor) := rfl
  rw [workflowValue, decodeWorkflow, htime, hactor, Option.bind_some, readDate_date, Option.bind_some,
    readActor_actor]
  rfl

theorem regressionFields_lookup (regression : RegressionSummary) :
    (regressionFields regression).lookup "t".toList = some (date regression.atTime)
    ∧ (regressionFields regression).lookup "e".toList = some (eventBinary regression.eventId)
    ∧ (regressionFields regression).lookup "c".toList =
        (if 1 < regression.count.get then some (.int64 regression.count.get) else none)
    ∧ (regressionFields regression).lookup "r".toList =
        regression.release.map fun release => .string release.asStr := by
  unfold regressionFields
  split_ifs <;> cases regression.release <;> exact ⟨rfl, rfl, rfl, rfl⟩

theorem decodeRegression_regression (regression : RegressionSummary) :
    decodeRegression (regressionValue regression) = some regression := by
  obtain ⟨htime, hevent, hcount, hrelease⟩ := regressionFields_lookup regression
  have hread : decodeRegressionCount ((regressionFields regression).lookup "c".toList) =
      some regression.count := by
    rw [hcount]
    split_ifs with hmany
    · exact readCount_int64 (by omega)
    · have hone : regression.count.get = 1 := by
        have := regression.count.inRange
        omega
      exact congrArg some (NonZeroU64.get_injective hone.symm)
  rw [regressionValue, decodeRegression, hread, htime, hevent, hrelease,
    optionalField_map (fun text => readText_string text), Option.bind_some, readDate_date, Option.bind_some,
    readEvent_event]
  rfl

theorem decodeLastRelease_represents {root : BsonDocument} {first latest : Option IssueRelease}
    (hlast : root.lookup "lr".toList = lastReleaseField (releaseText first) (releaseText latest))
    (hmissing : root.lookup "m".toList = releaseMissingField (releaseText first) (releaseText latest)) :
    decodeLastRelease root first = .ok latest := by
  have hinjective : ∀ left right : IssueRelease, left.asStr = right.asStr → left = right := by
    rintro ⟨left, _⟩ ⟨right, _⟩ h
    cases h
    rfl
  cases latest with
  | none =>
      cases first with
      | none =>
          rw [decodeLastRelease, hmissing, hlast]
          rfl
      | some first =>
          rw [decodeLastRelease, hmissing, hlast]
          rfl
  | some latest =>
      have hnotMissing : root.lookup "m".toList = none := by
        rw [hmissing, releaseMissingField, if_neg (by simp [releaseText])]
      rw [decodeLastRelease, hnotMissing, hlast, lastReleaseField]
      split_ifs with hsame
      · cases first with
        | none => cases hsame
        | some first =>
            have heq : latest = first := hinjective latest first (Option.some.inj hsame)
            rw [heq]
            rfl
      · have hread := optionalField_map (fun text : IssueRelease => readText_string text) (some latest)
        have hstored : optionalField readText ((releaseText (some latest)).map BsonValue.string) =
            .ok (some latest) := hread
        simp only [decodeReleaseMissing, hstored, bind, Except.bind]
        rfl

/-- What a stored Issue is held to, apart from its document. -/
structure Sound (blake3 : List (BitVec 8) → BitVec 256) (issue : IssueSnapshot) : Prop where
  key : issue.groupingKey.revision ≠ 0
  identity : verifyIssueId blake3 issue.projectId issue.groupingKey issue.issueId = true
  workflow : PostgresIssues.workflowConsistent issue = true
  representative : issue.representativeEventId = issue.latestEventId
  count : issue.occurrenceCount.get ≤ i64Max
  regression : ∀ regression ∈ issue.regression, regression.count.get ≤ i64Max

theorem decodeStatus_status (status : IssueStatus) : decodeStatus (statusField status) = .ok status := by
  cases status <;> rfl

theorem decodeStatusWorkflow_represents {root : BsonDocument} {issue : IssueSnapshot}
    (hworkflow : root.lookup "w".toList = issue.workflow.map workflowValue)
    (hconsistent : PostgresIssues.workflowConsistent issue = true) :
    decodeStatusWorkflow root issue.status = .ok issue.workflow := by
  unfold PostgresIssues.workflowConsistent at hconsistent
  unfold decodeStatusWorkflow
  split_ifs at hconsistent ⊢ with hopen
  · have hnone : issue.workflow = none := Option.isNone_iff_eq_none.mp hconsistent
    rw [hworkflow, hnone]
    rfl
  · obtain ⟨workflow, hsome⟩ := Option.isSome_iff_exists.mp hconsistent
    rw [hsome, Option.map_some] at hworkflow
    rw [readField_ok "w" hworkflow (decodeWorkflow_workflow workflow), hsome]
    rfl

namespace Represents

variable {root : BsonDocument} {issue : IssueSnapshot} {pending : List BsonValue}

theorem readCulprit (h : Represents root issue pending) :
    optionalField readText (root.lookup "q".toList) = .ok issue.culprit := by
  rw [h.culprit]
  exact optionalField_map readText_string issue.culprit

theorem readFirstRelease (h : Represents root issue pending) :
    optionalField readText (root.lookup "fr".toList) = .ok issue.firstRelease := by
  rw [h.firstRelease, releaseText, Option.map_map]
  exact optionalField_map readText_string issue.firstRelease

theorem readRegression (h : Represents root issue pending) :
    optionalField decodeRegression (root.lookup "d".toList) = .ok issue.regression := by
  rw [h.regression]
  exact optionalField_map decodeRegression_regression issue.regression

end Represents

/-- Reading the document of an Issue gives the Issue. -/
theorem decodeIssue_represents {blake3 : List (BitVec 8) → BitVec 256} {root : BsonDocument}
    {issue : IssueSnapshot} {pending : List BsonValue} (h : Represents root issue pending)
    (hsound : Sound blake3 issue) : decodeIssue blake3 root = .ok issue := by
  have hid : readField (fun value => (fixedBinary 16 (some value)).map fun content =>
      (⟨BitVec.ofNat 128 content⟩ : IssueId)) root "_id" = .ok issue.issueId := by
    refine readField_ok "_id" h.id ?_
    rw [issueBinary, binary, fixedBinary, if_pos rfl, Option.map_some, BitVec.ofNat_toNat, BitVec.setWidth_eq]
  have hlatest : optionalField readEvent (root.lookup "v".toList) =
      .ok (if issue.latestEventId = issue.firstEventId then none else some issue.latestEventId) := by
    rw [h.latestEvent, latestEventField]
    split_ifs
    · rfl
    · exact optionalField_map readEvent_event (some issue.latestEventId)
  have hrepresentative : optionalField readEvent (root.lookup "r".toList) = .ok none := by
    rw [h.representative]
    rfl
  have hassignee : optionalField readActor (root.lookup "a".toList) = .ok issue.assignee := by
    rw [h.assignee]
    exact optionalField_map readActor_actor issue.assignee
  have hcount : readField (readCount 1) root "c" = .ok issue.occurrenceCount :=
    readField_ok "c" h.count (readCount_int64 (by have := issue.occurrenceCount.inRange; omega))
  have hstatus : decodeStatus (root.lookup "s".toList) = .ok issue.status := by
    rw [h.status]
    exact decodeStatus_status issue.status
  have hverify : ¬ (!verifyIssueId blake3 issue.projectId issue.groupingKey issue.issueId) = true := by
    simp [hsound.identity]
  have hlatestEvent : (if issue.latestEventId = issue.firstEventId then none
      else some issue.latestEventId).getD issue.firstEventId = issue.latestEventId := by
    split_ifs with hsame
    · exact hsame.symm
    · rfl
  simp only [decodeIssue, bind_eq_ok, failIf_eq_ok, pure_eq_ok]
  refine ⟨_, hid, _, readField_ok "p" h.project (readProject_project _), _,
    readField_ok "g" h.key (readKey_key hsound.key), (), hverify, _,
    readField_ok "e" h.firstEvent (readEvent_event _), _, hlatest, _, hrepresentative, _, h.readFirstRelease, _,
    decodeLastRelease_represents h.lastRelease h.releaseMissing, _, hstatus, _,
    decodeStatusWorkflow_represents h.workflow hsound.workflow, _, h.readRegression, _, hcount, _,
    readField_ok "t" h.title (readTitle_string _), _, h.readCulprit, _,
    readField_ok "f" h.firstSeen (readDate_date _), _, readField_ok "l" h.lastSeen (readDate_date _), _,
    hassignee, ?_⟩
  rw [hlatestEvent, Option.getD_none]
  have hsame := hsound.representative
  cases issue
  dsimp only at hsame
  rw [hsame]

end MongoIssues

end MetricBackend
