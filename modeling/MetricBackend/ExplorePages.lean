import Mathlib.Algebra.Order.BigOperators.Group.List
import MetricBackend.PostgresPages

/-! Following the cursors of raw Explore pages on PostgreSQL: a page is a start of what its cursor leaves, and
the pages together have every matching row once, in descending order. -/

namespace MetricBackend

namespace PostgresExplore

open ExplorePlanner ApiCursors

/-! ### The matching rows -/

/-- The rows that a plan is about, whatever its cursor is. -/
structure Matches (env : Environment) (plan : ExplorePlan) (row : StoredRow) : Prop where
  project : row.projectId = plan.projectId
  finalized : plan.query.dataset = .errors → row.finalized = true
  time : ∃ time, row.time plan.query.dataset = some time
    ∧ plan.query.start.unixMillis * scale plan.query.dataset ≤ time
    ∧ time < plan.query.until.unixMillis * scale plan.query.dataset
  filter : ∃ filter, filterSql env plan.query = .ok filter ∧ ∀ condition ∈ filter, condition.eval env row.columns = some true

section Selection

variable {env : Environment} {plan : ExplorePlan} {compiled : Compiled} {row : StoredRow} {dataset : ExploreDataset}

theorem eq_of_checkedMul {left right value : Int} (h : checkedMul left right = .ok value) : value = left * right := by
  rw [checkedMul] at h
  split_ifs at h
  exact (Except.ok.inj h).symm

theorem compile_eq_ok (h : compile env plan = .ok compiled) :
    ∃ filter, filterSql env plan.query = .ok filter ∧ compiled = {
      projectId := plan.projectId
      conditions :=
        .test (.compare (columnName plan.query.dataset .timestamp) .greaterOrEqual
          (.integer (plan.query.start.unixMillis * scale plan.query.dataset)))
        :: .test (.compare (columnName plan.query.dataset .timestamp) .less
          (.integer (plan.query.until.unixMillis * scale plan.query.dataset))) :: filter
      cursor := plan.query.cursor.map (cursorCondition plan.query.dataset plan.projectId)
      limit := plan.query.limit + 1 } := by
  simp only [compile, bind_eq_ok, pure_eq_ok] at h
  obtain ⟨start, hstart, stop, hstop, time, htime, filter, hfilter, rfl⟩ := h
  simp only [column, bind_eq_ok, failIf_eq_ok, pure_eq_ok] at htime
  obtain ⟨_, _, rfl⟩ := htime
  exact ⟨filter, hfilter, by rw [eq_of_checkedMul hstart, eq_of_checkedMul hstop]⟩

/-- A bound on the time of a stored row. -/
theorem eval_time (operator : SqlOperator) (bound : Int) (hstored : ∀ value : SqlValue,
      row.columns (columnName dataset .timestamp) = some value → Stores dataset .timestamp value) :
    SqlCondition.eval env row.columns (.test (.compare (columnName dataset .timestamp) operator (.integer bound)))
      = (row.time dataset).map (operator.holds · bound) := by
  rw [SqlCondition.eval, SqlTest.eval, StoredRow.time]
  cases hvalue : row.columns (columnName dataset .timestamp) with
  | none => rfl
  | some value =>
      have h := hstored value hvalue
      cases value with
      | integer value => rfl
      | _ => cases dataset <;> simp [Stores, valueType, nanos] at h

theorem holds_greaterOrEqual (left right : Int) : SqlOperator.holds .greaterOrEqual left right = true ↔ right ≤ left := by
  simp only [SqlOperator.holds, Bool.or_eq_true, decide_eq_true_iff]
  omega

theorem holds_less (left right : Int) : SqlOperator.holds .less left right = true ↔ left < right := by
  simp only [SqlOperator.holds, decide_eq_true_iff]

/-- What the compiled conditions select. -/
theorem selects_iff (h : compile env plan = .ok compiled) (hstored : ∀ value : SqlValue,
      row.columns (columnName plan.query.dataset .timestamp) = some value → Stores plan.query.dataset .timestamp value) :
    compiled.selects env plan.query.dataset row = true ↔ Matches env plan row ∧ ∀ cursor, plan.query.cursor = some cursor →
      ∃ time, row.time plan.query.dataset = some time
        ∧ (cursorCondition plan.query.dataset plan.projectId cursor).holds time row.id = true := by
  obtain ⟨filter, hfilter, rfl⟩ := compile_eq_ok h
  simp only [Compiled.selects, List.all_cons, eval_time _ _ hstored, Bool.and_eq_true, decide_eq_true_iff,
    Bool.or_eq_true, List.all_eq_true, Option.all_eq_true, Option.any_eq_true, Option.map_eq_some_iff]
  constructor
  · rintro ⟨⟨⟨hproject, hfinalized⟩, ⟨time, htime, hstart⟩, ⟨time', htime', hstop⟩, hfilter'⟩, hcursor⟩
    obtain rfl : time = time' := Option.some.inj (htime.symm.trans htime')
    refine ⟨⟨hproject, fun herrors => ?_, ⟨time, htime, ?_, ?_⟩, filter, hfilter, hfilter'⟩, fun cursor hsome => ?_⟩
    · exact hfinalized.resolve_left fun hne => hne herrors
    · exact (holds_greaterOrEqual _ _).mp hstart
    · exact (holds_less _ _).mp hstop
    · exact hcursor _ ⟨cursor, hsome, rfl⟩
  · rintro ⟨⟨hproject, hfinalized, ⟨time, htime, hstart, hstop⟩, other, hother, hfilter'⟩, hcursor⟩
    obtain rfl : other = filter := Except.ok.inj (hother.symm.trans hfilter)
    refine ⟨⟨⟨hproject, ?_⟩, ⟨time, htime, ?_⟩, ⟨time, htime, ?_⟩, hfilter'⟩, ?_⟩
    · by_cases herrors : plan.query.dataset = .errors
      · exact .inr (hfinalized herrors)
      · exact .inl herrors
    · exact (holds_greaterOrEqual _ _).mpr hstart
    · exact (holds_less _ _).mpr hstop
    · rintro _ ⟨cursor, hsome, rfl⟩
      exact hcursor cursor hsome

/-! ### Cursors -/

theorem length_pageId (hid : row.id.length = 16) : (row.pageId dataset).length = idLength dataset := by
  cases dataset <;> simp [StoredRow.pageId, idLength, hid, length_bigEndian]

/-- The condition of any cursor compares the full keys. -/
theorem cursorCondition_holds {cursor : ExploreCursor} {time : Int} (hcursor : cursor.id.length = 20)
    (hidLen : cursor.idLen = idLength dataset) :
    (cursorCondition dataset row.projectId cursor).holds time row.id = true
      ↔ toLex (time, row.pageId dataset) < toLex (cursor.time, cursor.id.take cursor.idLen) := by
  rw [Prod.Lex.toLex_lt_toLex]
  by_cases hdataset : dataset = .errors
  · subst hdataset
    have hstart : (bigEndian 4 row.projectId.get).length = (cursor.id.take 4).length := by
      rw [length_bigEndian, List.length_take, hcursor]
      rfl
    have htake : cursor.id.take cursor.idLen = cursor.id.take 4 ++ cursor.id.drop 4 := by
      rw [List.take_append_drop, hidLen, List.take_of_length_le (by rw [hcursor]; rfl)]
    have hdrop : (cursor.id.take cursor.idLen).drop 4 = cursor.id.drop 4 := by
      rw [hidLen, List.take_of_length_le (by rw [hcursor]; rfl)]
    have hkey : row.pageId .errors < cursor.id.take cursor.idLen ↔ bigEndian 4 row.projectId.get < cursor.id.take 4
        ∨ bigEndian 4 row.projectId.get = cursor.id.take 4 ∧ row.id < cursor.id.drop 4 := by
      rw [htake, StoredRow.pageId, if_pos rfl]
      exact append_lt_append_iff hstart
    dsimp only
    rw [hkey, cursorCondition, if_neg (not_not.mpr rfl), hdrop]
    rcases lt_trichotomy (bigEndian 4 row.projectId.get) (cursor.id.take 4) with hlt | heq | hgt
    · simp only [hlt, hlt.ne, if_true, if_false, CursorCondition.holds, decide_eq_true_iff, true_or, and_true]
      omega
    · simp only [heq, if_true, CursorCondition.holds, Bool.or_eq_true, Bool.and_eq_true, decide_eq_true_iff,
        lt_irrefl, false_or, true_and]
    · simp only [hgt.ne', hgt.asymm, if_false, CursorCondition.holds, decide_eq_true_iff, false_and, or_false,
        and_false]
  · simp only [cursorCondition, if_pos hdataset, CursorCondition.holds, StoredRow.pageId, if_neg hdataset,
      Bool.or_eq_true, Bool.and_eq_true, decide_eq_true_iff]

/-- In one project the full keys are in the order of the keys. -/
theorem fullKey_lt_fullKey {other : StoredRow} (h : row.projectId = other.projectId) :
    row.fullKey dataset < other.fullKey dataset ↔ row.key dataset < other.key dataset := by
  rw [StoredRow.fullKey, StoredRow.fullKey, StoredRow.key, StoredRow.key, Prod.Lex.toLex_lt_toLex,
    Prod.Lex.toLex_lt_toLex]
  by_cases hdataset : dataset = .errors
  · have hkey : row.pageId dataset < other.pageId dataset ↔ row.id < other.id := by
      rw [StoredRow.pageId, StoredRow.pageId, if_pos hdataset, if_pos hdataset, h, append_lt_append_iff rfl]
      simp
    rw [hkey]
  · rw [StoredRow.pageId, StoredRow.pageId, if_neg hdataset, if_neg hdataset]

end Selection

/-! ### Decoding -/

section Decoding

variable {dataset : ExploreDataset} {row : StoredRow} {field : ExploreField}

/-- The columns of a row are ones that the schema and the writers allow. -/
def StoredRow.Valid (dataset : ExploreDataset) (row : StoredRow) : Prop :=
  ∀ field, field.acceptedBy dataset → ∀ value : SqlValue, row.columns (columnName dataset field) = some value →
    Stores dataset field value

theorem exists_decodeValue {value : SqlValue} (h : Stores dataset field value) :
    ∃ shown, decodeValue dataset (valueType dataset field) (some (projected dataset field value)) = .ok shown := by
  unfold Stores at h
  split at h
  case h_1 value hkind => exact ⟨.integer value, by simp [projected, hkind, decodeValue]⟩
  case h_2 value hkind =>
      have hfield : field ∈ [.durationMs, .timestamp] := by
        simpa [or_comm] using h.1
      exact ⟨_, by rw [projected, if_pos ⟨hkind, hfield⟩, hkind, decodeValue]⟩
  case h_3 value hkind => exact ⟨.number value, by rw [projected, hkind, decodeValue]; simp⟩
  case h_4 value hkind =>
      obtain ⟨-, text, rfl⟩ := h
      exact ⟨.string text, by rw [projected, hkind, decodeValue, fromUtf8_utf8Bytes]; rfl; simp⟩
  case h_5 bytes hkind => exact ⟨.string (hexEncode bytes), by rw [projected, hkind, decodeValue]; simp⟩
  case h_6 value hkind => exact ⟨.bool value, by rw [projected, hkind, decodeValue]; simp⟩
  case h_7 labelled code hkind =>
      obtain ⟨hlow, hhigh⟩ := h
      have hprojected : projected dataset field (.integer code) = .integer code := by
        rw [projected, if_neg fun h => by simp [hkind] at h]
      have hindex : (code - codeBase dataset labelled).toNat < (labels dataset labelled).length := by omega
      refine ⟨.string ((labels dataset labelled)[(code - codeBase dataset labelled).toNat]), ?_⟩
      simp only [hkind, hprojected, decodeValue, bind_eq_ok, failIf_eq_ok, map_eq_ok]
      exact ⟨(), by omega, _, by rw [List.getElem?_eq_getElem hindex, orInvalid, Option.elim_some], rfl⟩
  case h_8 => exact h.elim

theorem exists_decodeRow (h : row.Valid dataset) : ∃ values, decodeRow dataset row = .ok values := by
  have houtputs : ∃ values, (outputs dataset).mapM (decodeOutput dataset row) = .ok values := by
    refine exists_mapM_eq_ok fun field hfield => ?_
    have haccepted : field.acceptedBy dataset := (List.mem_filter.mp hfield).2
    cases hvalue : row.columns (columnName dataset field) with
    | none => exact ⟨_, by rw [decodeOutput, hvalue]; rfl⟩
    | some value =>
        obtain ⟨shown, hshown⟩ := exists_decodeValue (h field haccepted value hvalue)
        exact ⟨(field.asStr, shown), by rw [decodeOutput, hvalue, Option.map_some, hshown]; rfl⟩
  obtain ⟨values, hvalues⟩ := houtputs
  exact ⟨_, by rw [decodeRow, hvalues]; rfl⟩

/-- A row never exceeds the budget of a response on its own. -/
theorem responseBytes_le (h : row.Valid dataset) : responseBytes dataset row ≤ responseBudget := by
  have hfields : ((outputs dataset).map (octetLength dataset row)).sum
      ≤ ((outputs dataset).map (columnLimit dataset)).sum := by
    refine List.sum_le_sum fun field hfield => ?_
    unfold octetLength
    split
    case h_1 bytes hkind hvalue =>
        have hstored := h field (List.mem_filter.mp hfield).2 _ hvalue
        simp only [Stores, hkind] at hstored
        exact hstored.1
    case h_2 => exact Nat.zero_le _
  have hbudget : 1024 + ((outputs dataset).map (columnLimit dataset)).sum ≤ responseBudget := by
    cases dataset <;> decide
  rw [responseBytes]
  omega

end Decoding

/-! ### One page -/

section OnePage

variable {dataset : ExploreDataset} {limit : Nat} {row : StoredRow}

/-- What a caller is shown of a row. -/
def shown (dataset : ExploreDataset) (row : StoredRow) : ExploreRow := (decodeRow dataset row).toOption.getD []

/-- The cursor of a key in a project. -/
def keyCursor (dataset : ExploreDataset) (projectId : ProjectId) (key : Int ×ₗ List (BitVec 8)) : ExploreCursor :=
  rowCursor (ofLex key).1
    (if dataset = .errors then bigEndian 4 projectId.get ++ (ofLex key).2 else (ofLex key).2)

def StoredRow.cursor (dataset : ExploreDataset) (row : StoredRow) : ExploreCursor :=
  keyCursor dataset row.projectId (row.key dataset)

/-- A row that a page can have. -/
structure StoredRow.Ready (dataset : ExploreDataset) (row : StoredRow) : Prop where
  idLength : row.id.length = 16
  valid : row.Valid dataset
  time : ∃ time, row.time dataset = some time

theorem decodeRow_eq (h : row.Valid dataset) : decodeRow dataset row = .ok (shown dataset row) := by
  obtain ⟨values, hvalues⟩ := exists_decodeRow h
  rw [shown, hvalues]
  rfl

theorem decodeRows_cons {rest : List StoredRow} {bytes : Nat} {result : ExploreResult} {last : Option ExploreCursor}
    (hrow : row.Ready dataset)
    (hfits : ¬ (responseBudget < bytes + responseBytes dataset row ∨ result.rows.length = limit)) :
    decodeRows dataset limit (row :: rest) bytes result last
      = decodeRows dataset limit rest (bytes + responseBytes dataset row)
          { result with rows := result.rows ++ [shown dataset row] } (some (row.cursor dataset)) := by
  obtain ⟨time, htime⟩ := hrow.time
  have hcursor : row.cursor dataset = rowCursor time (row.pageId dataset) := by
    rw [StoredRow.cursor, keyCursor, StoredRow.key, htime]
    rfl
  rw [decodeRows, if_neg hfits, failIf, if_neg (not_not.mpr (length_pageId hrow.idLength)), htime,
    decodeRow_eq hrow.valid, hcursor]
  rfl

/-- The loop after some rows: it takes a start of the others, and is at the last row it took when it stops. -/
theorem exists_decodeRows {rows : List StoredRow} (hrows : ∀ row ∈ rows, row.Ready dataset) (bytes : Nat)
    {taken : List StoredRow} (htaken : taken.length ≤ limit) :
    ∃ front back next, rows = front ++ back ∧ (taken ++ front).length ≤ limit
      ∧ decodeRows dataset limit rows bytes ⟨taken.map (shown dataset), none⟩
          (taken.getLast?.map (StoredRow.cursor dataset)) = .ok ⟨(taken ++ front).map (shown dataset), next⟩
      ∧ ((back = [] ∧ next = none) ∨ next = (taken ++ front).getLast?.map (StoredRow.cursor dataset)) := by
  induction rows generalizing taken bytes with
  | nil => exact ⟨[], [], none, rfl, by simpa using htaken, by rw [decodeRows, List.append_nil], .inl ⟨rfl, rfl⟩⟩
  | cons row rest ih =>
      by_cases hstop : responseBudget < bytes + responseBytes dataset row ∨ (taken.map (shown dataset)).length = limit
      · refine ⟨[], row :: rest, _, rfl, by simpa using htaken, ?_, .inr rfl⟩
        rw [decodeRows, if_pos hstop, List.append_nil]
      · have hroom : (taken ++ [row]).length ≤ limit := by
          rw [not_or, List.length_map] at hstop
          rw [List.length_append, List.length_singleton]
          omega
        obtain ⟨front, back, next, rfl, hcount, hdecode, hnext⟩ :=
          ih (fun other hother => hrows other (List.mem_cons_of_mem _ hother)) (bytes + responseBytes dataset row) hroom
        rw [List.map_append, List.map_singleton, List.getLast?_concat, Option.map_some] at hdecode
        rw [List.append_assoc, List.singleton_append] at hcount hdecode hnext
        refine ⟨row :: front, back, next, rfl, hcount, ?_, hnext⟩
        rw [decodeRows_cons (hrows row List.mem_cons_self) hstop]
        exact hdecode

/-- A page that is read for some rows is a start of them. -/
theorem isStart_decodeRows {projectId : ProjectId} {left : List StoredRow} (hlimit : 0 < limit)
    (hleft : ∀ row ∈ left, row.Ready dataset ∧ row.projectId = projectId) (digest : List (BitVec 8)) :
    ∃ result, decodeRows dataset limit (left.take (limit + 1)) 0 ⟨[], none⟩ none = .ok result
      ∧ Page.IsStart (StoredRow.key dataset) (fun _ => true) (shown dataset)
          (fun key => encodeExploreCursor (keyCursor dataset projectId key) digest) left
          ⟨result.rows, result.next.map (encodeExploreCursor · digest)⟩ := by
  cases left with
  | nil => exact ⟨⟨[], none⟩, rfl, [], [], rfl, rfl, .inl ⟨rfl, rfl⟩⟩
  | cons first rest =>
      have hfirst : first.Ready dataset := (hleft first List.mem_cons_self).1
      have hfits : ¬ (responseBudget < 0 + responseBytes dataset first
          ∨ (ExploreResult.mk [] none).rows.length = limit) := by
        have hbytes := responseBytes_le hfirst.valid
        rw [not_or, zero_add, List.length_nil]
        omega
      have hrest : ∀ row ∈ rest.take limit, row.Ready dataset := fun row hrow =>
        (hleft row (List.mem_cons_of_mem _ (List.mem_of_mem_take hrow))).1
      have hone : [first].length ≤ limit := hlimit
      obtain ⟨front, back, next, htake, hcount, hdecode, hnext⟩ :=
        exists_decodeRows hrest (0 + responseBytes dataset first) hone
      rw [List.singleton_append] at hcount hdecode hnext
      refine ⟨⟨(first :: front).map (shown dataset), next⟩, ?_, first :: front, back ++ rest.drop limit, ?_, ?_, ?_⟩
      · rw [List.take_succ_cons, decodeRows_cons hfirst hfits]
        exact hdecode
      · rw [List.cons_append, ← List.append_assoc, ← htake, List.take_append_drop]
      · rw [List.filter_true]
      · rcases hnext with ⟨rfl, rfl⟩ | rfl
        · -- Every row was taken, so there was none past the limit.
          rw [List.append_nil] at htake
          have hshort : rest.length ≤ limit := by
            have hlength := congrArg List.length htake
            rw [List.length_take] at hlength
            rw [List.length_cons] at hcount
            omega
          exact .inl ⟨by rw [List.nil_append, List.drop_eq_nil_iff.mpr hshort], rfl⟩
        · obtain ⟨last, hlast⟩ : ∃ last, (first :: front).getLast? = some last :=
            ⟨_, List.getLast?_eq_some_getLast (List.cons_ne_nil first front)⟩
          have hmem : last ∈ first :: rest := by
            rw [← List.take_append_drop limit rest, htake, List.append_assoc, ← List.cons_append]
            exact List.mem_append_left _ (List.mem_of_getLast? hlast)
          refine .inr ⟨last, hlast, ?_⟩
          rw [hlast, Option.map_some, Option.map_some, StoredRow.cursor, (hleft last hmem).2]

end OnePage

/-! ### Every page -/

section EveryPage

variable {env : Environment} {tables : ExploreTables} {plan : ExplorePlan} {compiled : Compiled}

theorem withCursor_eq (h : plan.query.cursor = none) : plan.withCursor none = plan := by
  obtain ⟨projectId, query, normalized, cost, maximumTime⟩ := plan
  obtain ⟨dataset, start, stop, predicates, expression, aggregates, groupBy, interval, cursor, limit⟩ := query
  dsimp only at h
  rw [h]
  rfl

theorem matches_withCursor {row : StoredRow} (cursor : Option ExploreCursor) :
    Matches env (plan.withCursor cursor) row ↔ Matches env plan row :=
  ⟨fun h => ⟨h.project, h.finalized, h.time, h.filter⟩, fun h => ⟨h.project, h.finalized, h.time, h.filter⟩⟩

/-- An accepted plan is accepted with every cursor that has a key of its dataset. -/
theorem prepare_withCursor {cursor : ExploreCursor} (h : prepare env plan = .ok compiled)
    (hidLen : cursor.idLen = idLength plan.query.dataset) :
    ∃ compiled', prepare env (plan.withCursor (some cursor)) = .ok compiled' := by
  simp only [prepare, validate, compile, bind_eq_ok, failIf_eq_ok, pure_eq_ok] at h ⊢
  obtain ⟨_, ⟨_, hshape, _, -, hconditions⟩, start, hstart, stop, hstop, time, htime, filter, hfilter, -⟩ := h
  refine ⟨_, (), ⟨(), hshape, (), ?_, hconditions⟩, start, hstart, stop, hstop, time, htime, filter, hfilter, rfl⟩
  rw [ExplorePlan.withCursor, Option.any_some, decide_eq_true_iff, not_not, hidLen]
  rfl

theorem prepare_eq_ok (h : prepare env plan = .ok compiled) :
    compile env plan = .ok compiled ∧ compiled.limit = plan.query.limit + 1 ∧ 0 < plan.query.limit := by
  simp only [prepare, validate, bind_eq_ok, failIf_eq_ok] at h
  obtain ⟨_, ⟨_, hshape, -⟩, hcompile⟩ := h
  obtain ⟨filter, -, hcompiled⟩ := compile_eq_ok hcompile
  exact ⟨hcompile, by rw [hcompiled], by omega⟩

theorem timestamp_acceptedBy (dataset : ExploreDataset) : ExploreField.acceptedBy .timestamp dataset = true := by
  cases dataset <;> rfl

theorem valid_of_mem {dataset : ExploreDataset} {table : ExploreTable dataset} {row : StoredRow} (hrow : row ∈ table.rows) :
    row.Valid dataset :=
  table.stores row hrow

theorem selects_of_prepare {row : StoredRow} (h : prepare env plan = .ok compiled)
    (hrow : row ∈ (tables plan.query.dataset).rows) :
    compiled.selects env plan.query.dataset row = true ↔ Matches env plan row ∧ ∀ cursor, plan.query.cursor = some cursor →
      ∃ time, row.time plan.query.dataset = some time
        ∧ (cursorCondition plan.query.dataset plan.projectId cursor).holds time row.id = true :=
  selects_iff (prepare_eq_ok h).1 fun value hvalue => valid_of_mem hrow .timestamp (timestamp_acceptedBy _) value hvalue

/-- A cursor, of whatever project, leaves the rows whose full key is smaller. -/
theorem selects_withCursor {cursor : ExploreCursor} {compiled' : Compiled} {row : StoredRow}
    (h : prepare env (plan.withCursor (some cursor)) = .ok compiled') (hid : cursor.id.length = 20)
    (hidLen : cursor.idLen = idLength plan.query.dataset) (hrow : row ∈ (tables plan.query.dataset).rows) :
    compiled'.selects env plan.query.dataset row = true ↔ Matches env plan row
      ∧ row.fullKey plan.query.dataset < toLex (cursor.time, cursor.id.take cursor.idLen) := by
  have hselects := @selects_of_prepare env tables (plan.withCursor (some cursor)) compiled' row h hrow
  rw [matches_withCursor] at hselects
  refine hselects.trans (and_congr_right fun hmatches => ?_)
  obtain ⟨time, htime, -⟩ := hmatches.time
  have hholds : (cursorCondition plan.query.dataset plan.projectId cursor).holds time row.id = true
      ↔ row.fullKey plan.query.dataset < toLex (cursor.time, cursor.id.take cursor.idLen) := by
    rw [← hmatches.project, cursorCondition_holds hid hidLen, StoredRow.fullKey, htime, Option.getD_some]
  constructor
  · intro hcursor
    obtain ⟨time', htime', hbelow⟩ := hcursor cursor rfl
    obtain rfl : time = time' := Option.some.inj (htime.symm.trans htime')
    exact hholds.mp hbelow
  · rintro hbelow _ ⟨⟩
    exact ⟨time, htime, hholds.mpr hbelow⟩

theorem ready_of_matches {row : StoredRow} (hmatches : Matches env plan row)
    (hrow : row ∈ (tables plan.query.dataset).rows) : row.Ready plan.query.dataset :=
  ⟨(tables plan.query.dataset).idLength row hrow, valid_of_mem hrow, hmatches.time.imp fun _ h => h.1⟩

/-- Rows of one project have different keys. -/
theorem nodup_key {dataset : ExploreDataset} (table : ExploreTable dataset) {projectId : ProjectId} {keep : StoredRow → Bool}
    (h : ∀ row, keep row = true → row.projectId = projectId) :
    ((table.rows.filter keep).map (StoredRow.key dataset)).Nodup := by
  have hkeys := (table.primaryKey.sublist ((List.filter_sublist (p := keep)).map _))
  rw [List.Nodup, List.pairwise_map] at hkeys ⊢
  refine hkeys.imp_of_mem fun {row other} hrow hother hne heq => hne ?_
  have hid : row.id = other.id := congrArg (fun key => (ofLex key).2) heq
  rw [h row (List.mem_filter.mp hrow).2, h other (List.mem_filter.mp hother).2, hid]

/-- The rows that a plan is about, in the order of its pages. -/
def matching (env : Environment) (tables : ExploreTables) (plan : ExplorePlan) (compiled : Compiled) : List StoredRow :=
  Page.descending (StoredRow.key plan.query.dataset)
    ((tables plan.query.dataset).rows.filter (compiled.selects env plan.query.dataset))

theorem mem_matching (h : prepare env plan = .ok compiled) (hcursor : plan.query.cursor = none) {row : StoredRow} :
    row ∈ matching env tables plan compiled ↔ row ∈ (tables plan.query.dataset).rows ∧ Matches env plan row := by
  rw [matching, Page.mem_descending, List.mem_filter]
  refine and_congr_right fun hrow => (selects_of_prepare h hrow).trans ?_
  simp [hcursor]

theorem nodup_matching (h : prepare env plan = .ok compiled) :
    (((tables plan.query.dataset).rows.filter (compiled.selects env plan.query.dataset)).map
      (StoredRow.key plan.query.dataset)).Nodup := by
  have hproject : ∀ row, compiled.selects env plan.query.dataset row = true → row.projectId = plan.projectId := by
    intro row hrow
    obtain ⟨filter, -, rfl⟩ := compile_eq_ok (prepare_eq_ok h).1
    simp only [Compiled.selects, Bool.and_eq_true, decide_eq_true_iff] at hrow
    exact hrow.1.1.1
  exact nodup_key _ hproject

theorem ordered_matching (h : prepare env plan = .ok compiled) :
    Page.Ordered (StoredRow.key plan.query.dataset) (matching env tables plan compiled) :=
  Page.ordered_descending (nodup_matching h)

/-- What a cursor leaves of the matching rows. -/
theorem matching_withCursor {cursor : ExploreCursor} {compiled' : Compiled} (h : prepare env plan = .ok compiled)
    (hcursor : plan.query.cursor = none) (h' : prepare env (plan.withCursor (some cursor)) = .ok compiled')
    (hid : cursor.id.length = 20) (hidLen : cursor.idLen = idLength plan.query.dataset) :
    matching env tables (plan.withCursor (some cursor)) compiled' = (matching env tables plan compiled).filter fun row =>
      row.fullKey plan.query.dataset < toLex (cursor.time, cursor.id.take cursor.idLen) := by
  rw [matching, matching, ← Page.descending_filter (nodup_matching h), List.filter_filter]
  refine congrArg _ (List.filter_congr fun row hrow => ?_)
  rw [Bool.eq_iff_iff, Bool.and_eq_true, decide_eq_true_iff]
  have hselects := selects_of_prepare h hrow
  have hselects' := selects_withCursor h' hid hidLen hrow
  rw [hcursor] at hselects
  exact hselects'.trans ⟨fun hrow => ⟨hrow.2, hselects.mpr ⟨hrow.1, fun _ hnone => nomatch hnone⟩⟩,
    fun hrow => ⟨(hselects.mp hrow.2).1, hrow.1⟩⟩

section RowCursors

variable {dataset : ExploreDataset} {row : StoredRow}

theorem toLex_cursor (row : StoredRow) :
    toLex ((row.cursor dataset).time, (row.cursor dataset).id.take (row.cursor dataset).idLen) = row.fullKey dataset := by
  have htake : (row.cursor dataset).id.take (row.cursor dataset).idLen = row.pageId dataset := List.take_left' rfl
  rw [htake]
  rfl

theorem idLen_cursor (hid : row.id.length = 16) : (row.cursor dataset).idLen = idLength dataset := length_pageId hid

theorem length_cursor (hid : row.id.length = 16) : (row.cursor dataset).id.length = 20 := by
  have hlength : (row.pageId dataset).length ≤ 20 := by
    rw [length_pageId hid, idLength]
    split_ifs <;> omega
  have hbytes : (row.cursor dataset).id
      = row.pageId dataset ++ List.replicate (20 - (row.pageId dataset).length) 0 := rfl
  rw [hbytes, List.length_append, List.length_replicate]
  omega

/-- The time of a row fits the cursor. -/
theorem time_inI64 (hvalid : row.Valid dataset) {time : Int} (h : row.time dataset = some time) :
    -2 ^ 63 ≤ time ∧ time < 2 ^ 63 := by
  rw [StoredRow.time] at h
  split at h
  case h_1 value hvalue =>
      obtain rfl := Option.some.inj h
      have hstored := hvalid .timestamp (timestamp_acceptedBy dataset) _ hvalue
      cases dataset <;> simp [Stores, valueType, nanos] at hstored <;> exact ⟨by omega, by omega⟩
  case h_2 => exact nomatch h

end RowCursors

/-- What the cursor of a matching row leaves. -/
theorem matching_cursor {row : StoredRow} {compiled' : Compiled} (h : prepare env plan = .ok compiled)
    (hcursor : plan.query.cursor = none) (hrow : row ∈ matching env tables plan compiled)
    (h' : prepare env (plan.withCursor (some (row.cursor plan.query.dataset))) = .ok compiled') :
    matching env tables (plan.withCursor (some (row.cursor plan.query.dataset))) compiled'
      = Page.below (StoredRow.key plan.query.dataset) (matching env tables plan compiled)
          (some (row.key plan.query.dataset)) := by
  obtain ⟨hmem, hmatches⟩ := (mem_matching h hcursor).mp hrow
  have hid := (tables plan.query.dataset).idLength row hmem
  rw [matching_withCursor h hcursor h' (length_cursor hid) (idLen_cursor hid), toLex_cursor, Page.below]
  refine List.filter_congr fun other hother => ?_
  have hproject : other.projectId = row.projectId :=
    ((mem_matching h hcursor).mp hother).2.project.trans hmatches.project.symm
  rw [decide_eq_decide]
  exact fullKey_lt_fullKey hproject

/-- An accepted plan returns a start of the rows that its own cursor leaves. -/
theorem exists_run (h : prepare env plan = .ok compiled) (digest : List (BitVec 8)) :
    ∃ result, run env tables plan = .ok result
      ∧ Page.IsStart (StoredRow.key plan.query.dataset) (fun _ => true) (shown plan.query.dataset)
          (fun key => encodeExploreCursor (keyCursor plan.query.dataset plan.projectId key) digest)
          (matching env tables plan compiled) ⟨result.rows, result.next.map (encodeExploreCursor · digest)⟩ := by
  obtain ⟨-, hlimit, hpositive⟩ := prepare_eq_ok h
  have hready : ∀ row ∈ matching env tables plan compiled,
      row.Ready plan.query.dataset ∧ row.projectId = plan.projectId := by
    intro row hrow
    rw [matching, Page.mem_descending, List.mem_filter] at hrow
    have hmatches := ((selects_of_prepare h hrow.1).mp hrow.2).1
    exact ⟨ready_of_matches hmatches hrow.1, hmatches.project⟩
  obtain ⟨result, hresult, hstart⟩ := isStart_decodeRows hpositive hready digest
  refine ⟨result, ?_, hstart⟩
  rw [← hresult, run, h, matching, ← hlimit]
  rfl

/-- A page starts what its cursor leaves. -/
theorem exists_fetch (h : prepare env plan = .ok compiled) (hcursor : plan.query.cursor = none)
    {digest : List (BitVec 8)} (hdigest : digest.length = 16) {place : Option (Int ×ₗ List (BitVec 8))}
    (hplace : Page.IsPlace (StoredRow.key plan.query.dataset) (matching env tables plan compiled) place) :
    ∃ page, fetch env tables digest plan
        (place.map fun key => encodeExploreCursor (keyCursor plan.query.dataset plan.projectId key) digest) = .ok page
      ∧ Page.IsStart (StoredRow.key plan.query.dataset) (fun _ => true) (shown plan.query.dataset)
          (fun key => encodeExploreCursor (keyCursor plan.query.dataset plan.projectId key) digest)
          (Page.below (StoredRow.key plan.query.dataset) (matching env tables plan compiled) place) page := by
  rcases hplace with rfl | ⟨row, hrow, rfl⟩
  · obtain ⟨result, hresult, hstart⟩ := @exists_run env tables plan compiled h digest
    refine ⟨_, ?_, hstart⟩
    rw [Option.map_none, fetch, Option.mapM_none, pure_bind, withCursor_eq hcursor, hresult]
    rfl
  · obtain ⟨hmem, hmatches⟩ := (mem_matching h hcursor).mp hrow
    have hid := (tables plan.query.dataset).idLength row hmem
    have hproject : keyCursor plan.query.dataset plan.projectId (row.key plan.query.dataset)
        = row.cursor plan.query.dataset := by
      rw [StoredRow.cursor, hmatches.project]
    have hidLen : (row.cursor plan.query.dataset).idLen = 16 ∨ (row.cursor plan.query.dataset).idLen = 20 := by
      rw [idLen_cursor hid, idLength]
      split_ifs <;> simp
    have htime : (row.cursor plan.query.dataset).time = (row.time plan.query.dataset).getD 0 := rfl
    obtain ⟨time, hsome, -⟩ := hmatches.time
    have hread := decodeExploreCursor_encodeExploreCursor
      (by rw [htime, hsome]; exact time_inI64 (valid_of_mem hmem) hsome) (length_cursor hid) hidLen hdigest
    obtain ⟨compiled', h'⟩ := prepare_withCursor h (idLen_cursor hid)
    obtain ⟨result, hresult, hstart⟩ :=
      @exists_run env tables (plan.withCursor (some (row.cursor plan.query.dataset))) compiled' h' digest
    rw [matching_cursor h hcursor hrow h'] at hstart
    refine ⟨_, ?_, hstart⟩
    rw [Option.map_some, fetch, hproject, Option.mapM_some, hread]
    change Except.bind (Except.mapError _ (run env tables _)) _ = _
    rw [hresult]
    rfl

/-- Following the cursors of an accepted raw plan returns every matching row once, in descending order of time
and identity, however the pages are cut; and for errors a cursor with any key, of any project, leaves exactly
the rows whose full key is smaller. -/
theorem explore_pages (blake3 : List (BitVec 8) → BitVec 256) (tables : ExploreTables)
    (h : prepare env plan = .ok compiled) (hcursor : plan.query.cursor = none) :
    ∃ found : List StoredRow, Page.Ordered (StoredRow.key plan.query.dataset) found
      ∧ (∀ row, row ∈ found ↔ row ∈ (tables plan.query.dataset).rows ∧ Matches env plan row)
      ∧ (∀ rounds, found.length < rounds → ∃ records,
          Page.readAll (fetch env tables (exploreCursorDigest blake3 plan.projectId plan.normalized
            plan.query.dataset.code) plan) rounds none = .ok (some records)
          ∧ List.Forall₂ (fun row record => decodeRow plan.query.dataset row = .ok record) found records)
      ∧ ∀ cursor : ExploreCursor, plan.query.dataset = .errors → cursor.id.length = 20 → cursor.idLen = 20 →
          ∃ compiled', prepare env (plan.withCursor (some cursor)) = .ok compiled'
            ∧ compiled'.select env plan.query.dataset (tables plan.query.dataset).rows
              = (found.filter fun row => row.fullKey plan.query.dataset < toLex (cursor.time, cursor.id)).take
                  (plan.query.limit + 1) := by
  have hdigest := length_digestPrefix blake3 (utf8Bytes "metric/explore-cursor/v1".toList ++ plan.query.dataset.code
    :: bigEndian 4 plan.projectId.get ++ utf8Bytes plan.normalized)
  refine ⟨matching env tables plan compiled, ordered_matching h, fun row => mem_matching h hcursor, ?_, ?_⟩
  · intro rounds hrounds
    refine ⟨_, Page.readAll_eq (ordered_matching h) (fun place hplace => exists_fetch h hcursor hdigest hplace) hrounds, ?_⟩
    rw [List.filter_true, List.forall₂_map_right_iff, List.forall₂_same]
    intro row hrow
    exact decodeRow_eq (valid_of_mem ((mem_matching h hcursor).mp hrow).1)
  · intro cursor herrors hid hidLen
    have hidLen' : cursor.idLen = idLength plan.query.dataset := by rw [hidLen, herrors]; rfl
    obtain ⟨compiled', h'⟩ := prepare_withCursor h hidLen'
    refine ⟨compiled', h', ?_⟩
    have hmatching := @matching_withCursor env tables plan compiled cursor compiled' h hcursor h' hid hidLen'
    have htake : cursor.id.take cursor.idLen = cursor.id := List.take_of_length_le (by rw [hid, hidLen])
    rw [htake] at hmatching
    have hlimit : compiled'.limit = plan.query.limit + 1 := (prepare_eq_ok h').2.1
    rw [← hmatching, ← hlimit]
    rfl

end EveryPage

/-! ### Two errors at one time -/

def sampleProject : ProjectId := ⟨1, ProjectId.positive_one⟩

def sampleRow (id : BitVec 8) : StoredRow where
  projectId := sampleProject
  id := List.replicate 15 0 ++ [id]
  finalized := true
  columns name := if name = columnName .errors .timestamp then some (.integer 1500) else none

theorem columnName_ne_timestamp : ∀ field ∈ ExploreField.accepted .errors, field ≠ .timestamp →
    columnName .errors field ≠ columnName .errors .timestamp := by
  decide

theorem stores_sampleRow (id : BitVec 8) (field : ExploreField) (value : SqlValue) (hfield : field.acceptedBy .errors)
    (h : (sampleRow id).columns (columnName .errors field) = some value) : Stores .errors field value := by
  by_cases htime : field = .timestamp
  · subst htime
    have hvalue : SqlValue.integer 1500 = value := Option.some.inj h
    rw [← hvalue]
    exact ⟨by decide, by decide⟩
  · have hne := columnName_ne_timestamp field (of_decide_eq_true hfield) htime
    have hnone : (sampleRow id).columns (columnName .errors field) = none := if_neg hne
    exact absurd (hnone.symm.trans h) (by simp)

def sampleTables : ExploreTables
  | .errors => {
      rows := [sampleRow 1, sampleRow 2]
      idLength row hrow := by
        simp only [List.mem_cons, List.not_mem_nil, or_false] at hrow
        rcases hrow with rfl | rfl <;> rfl
      stores row hrow field hfield value hvalue := by
        simp only [List.mem_cons, List.not_mem_nil, or_false] at hrow
        rcases hrow with rfl | rfl <;> exact stores_sampleRow _ _ _ hfield hvalue
      primaryKey := by
        have hne : ¬ (sampleRow 1).id = (sampleRow 2).id := by decide
        rw [List.map_cons, List.map_singleton, List.nodup_cons, List.mem_singleton, Prod.mk.injEq]
        exact ⟨fun h => hne h.2, List.nodup_singleton _⟩ }
  | dataset => ⟨[], by simp, by simp, by simp⟩

def sampleEnvironment : Environment := ⟨fun _ => 0, id⟩

def samplePlan : ExplorePlan where
  projectId := sampleProject
  query := ⟨.errors, ⟨1000, inRange_second⟩, ⟨2000, inRange_nextSecond⟩, [], none, [], [], none, none, 1⟩
  normalized := []
  cost := 1
  maximumTimeMillis := 1000

theorem explore_pages_errors : ∃ found : List StoredRow, Page.Ordered (StoredRow.key .errors) found
    ∧ (∀ row, row ∈ found ↔ row ∈ (sampleTables .errors).rows ∧ Matches sampleEnvironment samplePlan row)
    ∧ (∀ rounds, found.length < rounds → ∃ records,
        Page.readAll (fetch sampleEnvironment sampleTables (exploreCursorDigest (fun _ => 0) samplePlan.projectId
          samplePlan.normalized samplePlan.query.dataset.code) samplePlan) rounds none = .ok (some records)
        ∧ List.Forall₂ (fun row record => decodeRow .errors row = .ok record) found records)
    ∧ ∀ cursor : ExploreCursor, cursor.id.length = 20 → cursor.idLen = 20 →
        ∃ compiled, prepare sampleEnvironment (samplePlan.withCursor (some cursor)) = .ok compiled
          ∧ compiled.select sampleEnvironment .errors (sampleTables .errors).rows
            = (found.filter fun row => row.fullKey .errors < toLex (cursor.time, cursor.id)).take 2 := by
  have hplan : ∃ compiled, prepare sampleEnvironment samplePlan = .ok compiled := ⟨_, rfl⟩
  obtain ⟨compiled, hcompiled⟩ := hplan
  obtain ⟨found, hordered, hfound, hpages, hcut⟩ := explore_pages (fun _ => 0) sampleTables hcompiled rfl
  exact ⟨found, hordered, hfound, hpages, fun cursor => hcut cursor rfl⟩

end PostgresExplore

end MetricBackend
