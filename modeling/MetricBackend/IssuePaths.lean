import MetricBackend.IssueQueries
import MetricBackend.PlannableQueries

/-! The paths of an Issue query. The list returns every Issue of the range that satisfies the query, page
after page; the load returns one page; the title search returns some of them. -/

namespace MetricBackend

namespace NativeApi

open QueryLanguage ApiCursors

/-! ### Conjuncts -/

/-- A predicate that every Issue of the answer satisfies. -/
theorem positivePredicate_eq_some {field : QueryField} {expression : QueryExpression} {found : QueryPredicate}
    (h : positivePredicate field expression = some found) :
    found.field = field ∧ (found.operator = .equal ∨ field = .title ∧ found.operator = .contains)
      ∧ found ∈ expression.predicates
      ∧ ∀ holds : QueryPredicate → Bool, expression.eval holds = true → holds found = true := by
  induction expression using Formula.induction with
  | predicate value =>
      rw [positivePredicate, Formula.fold_predicate] at h
      split_ifs at h with hvalue
      obtain rfl := Option.some.inj h
      exact ⟨hvalue.1, hvalue.2, List.mem_singleton.mpr rfl, fun _ hholds => hholds⟩
  | not value ih => exact absurd h (by simp [positivePredicate, Formula.fold_not])
  | and values ih =>
      rw [positivePredicate, Formula.fold_and, List.findSome?_map] at h
      obtain ⟨value, hvalue, hfound⟩ := List.exists_of_findSome?_eq_some h
      obtain ⟨hfield, hoperator, hmem, hholds⟩ := ih value hvalue hfound
      refine ⟨hfield, hoperator, ?_, fun holds heval => ?_⟩
      · rw [Formula.predicates_and]
        exact List.mem_flatten_of_mem (List.mem_map_of_mem hvalue) hmem
      · rw [Formula.eval_and, List.all_eq_true] at heval
        exact hholds holds (heval value hvalue)
  | or values ih => exact absurd h (by simp [positivePredicate, Formula.fold_or])

section Parsed

variable {rfc3339 : Text → Option Int} {text : Text} {parsed : ParsedQuery}

theorem parsed_readable {source : QuerySource} {expression : QueryExpression}
    (hparse : ParsedQuery.parse rfc3339 source text = .ok parsed) (h : parsed.expression = some expression) :
    ∀ predicate ∈ expression.predicates, Readable rfc3339 source predicate :=
  (parse_limits hparse h).2.2.2.1

/-- A conjunct on a field that no bare word searches. -/
theorem positive_acceptable {field : QueryField} {found : QueryPredicate} (hfield : field ≠ .title)
    (hparse : ParsedQuery.parse rfc3339 .issues text = .ok parsed)
    (h : parsed.expression.bind (positivePredicate field) = some found) :
    found.field = field ∧ found.operator = .equal ∧ validValue rfc3339 .issues field found.value = true := by
  obtain ⟨expression, hexpression, hpositive⟩ := Option.bind_eq_some_iff.mp h
  obtain ⟨hsame, hoperator, hmem, -⟩ := positivePredicate_eq_some hpositive
  obtain hequal | ⟨htitle, -⟩ := hoperator
  · refine ⟨hsame, hequal, ?_⟩
    obtain hacceptable | ⟨value, -, hbare⟩ := parsed_readable hparse hexpression found hmem
    · exact hsame ▸ hacceptable.value
    · rw [bareTerms, List.mem_singleton] at hbare
      rw [hbare] at hsame
      exact absurd hsame.symm hfield
  · exact absurd htitle hfield

theorem positive_matches {field : QueryField} {found : QueryPredicate} {lowercase : Text → Text}
    {issue : IssueSnapshot} (h : parsed.expression.bind (positivePredicate field) = some found)
    (hmatches : issueMatches lowercase rfc3339 parsed.expression issue = true) :
    issuePredicateMatches lowercase rfc3339 issue found = true := by
  obtain ⟨expression, hexpression, hpositive⟩ := Option.bind_eq_some_iff.mp h
  rw [hexpression, issueMatches, Option.all_some] at hmatches
  exact (positivePredicate_eq_some hpositive).2.2.2 _ hmatches

end Parsed

/-! ### The store -/

section Store

variable {env : Environment} (store : IssueTable env) (projectId : ProjectId)

/-- The Issues of a project. -/
def IssueTable.issues : List IssueSnapshot := (store.ofProject projectId).map (·.issue)

variable {store projectId} {issue : IssueSnapshot} {row : PostgresIssues.IssueRow}

theorem mem_ofProject :
    row ∈ store.ofProject projectId ↔ store.rows[toLex (projectId, row.issue.issueId)]? = some row := by
  rw [IssueTable.ofProject, List.mem_map]
  constructor
  · rintro ⟨⟨ref, row⟩, hmem, rfl⟩
    obtain ⟨hrow, hproject⟩ := List.mem_filter.mp hmem
    have hrow := Table.mem_toList.mp hrow
    obtain rfl := store.keyed ref row hrow
    obtain rfl : row.issue.projectId = projectId := of_decide_eq_true hproject
    exact hrow
  · intro hrow
    exact ⟨(_, row), List.mem_filter.mpr ⟨Table.mem_toList.mpr hrow, decide_eq_true rfl⟩, rfl⟩

theorem decode_of_mem (h : row ∈ store.ofProject projectId) :
    PostgresIssues.decode env.blake3 env.codec row = .ok row.issue :=
  store.decodes _ _ (mem_ofProject.mp h)

theorem load_eq_ok {issueId : IssueId} :
    store.load projectId issueId = .ok issue ↔ issue ∈ store.issues projectId ∧ issue.issueId = issueId := by
  rw [IssueTable.load, IssueTable.issues, List.mem_map]
  cases hrow : store.rows[toLex (projectId, issueId)]? with
  | none =>
      refine iff_of_false nofun ?_
      rintro ⟨⟨row, hmem, rfl⟩, rfl⟩
      rw [mem_ofProject.mp hmem] at hrow
      cases hrow
  | some row =>
      have hkey := store.keyed _ _ hrow
      have hid : issueId = row.issue.issueId := congrArg (fun ref => (ofLex ref).2) hkey
      subst hid
      dsimp only
      rw [store.decodes _ _ hrow]
      constructor
      · intro h
        obtain rfl := Except.ok.inj h
        exact ⟨⟨row, mem_ofProject.mpr hrow, rfl⟩, rfl⟩
      · rintro ⟨⟨other, hother, rfl⟩, hsame⟩
        rw [← hsame, mem_ofProject.mp hother] at hrow
        rw [Option.some.inj hrow]

theorem load_eq_error {issueId : IssueId} (h : ∀ issue ∈ store.issues projectId, issue.issueId ≠ issueId) :
    store.load projectId issueId = .error .notFound := by
  rw [IssueTable.load]
  cases hrow : store.rows[toLex (projectId, issueId)]? with
  | none => rfl
  | some row =>
      have hload : store.load projectId issueId = .ok row.issue := by
        rw [IssueTable.load, hrow]
        exact store.decodes _ _ hrow
      obtain ⟨hmem, hid⟩ := load_eq_ok.mp hload
      exact absurd hid (h _ hmem)

variable (store projectId) in
theorem nodup_anchors : ((store.issues projectId).map IssueSnapshot.anchor).Nodup := by
  have hkeys : ((store.rows.toList.filter fun row => (ofLex row.1).1 = projectId).map Prod.fst).Nodup :=
    (store.rows.nodup_keys_toList).sublist (List.filter_sublist.map _)
  have hmap : (store.rows.toList.filter fun row => (ofLex row.1).1 = projectId).map Prod.fst
      = ((store.issues projectId).map IssueSnapshot.anchor).map fun anchor => toLex (projectId, (ofLex anchor).2) := by
    rw [IssueTable.issues, IssueTable.ofProject, List.map_map, List.map_map, List.map_map]
    refine List.map_congr_left fun entry hentry => ?_
    obtain ⟨hrow, hproject⟩ := List.mem_filter.mp hentry
    have hkey := store.keyed _ _ (Table.mem_toList.mp hrow)
    have hproject : (ofLex entry.1).1 = projectId := of_decide_eq_true hproject
    rw [hkey] at hproject ⊢
    obtain rfl : entry.2.issue.projectId = projectId := hproject
    rfl
  rw [hmap] at hkeys
  exact hkeys.of_map _

theorem listIssues_eq {query : IssueTable.IssueListQuery} (hlimit : 1 ≤ query.limit ∧ query.limit ≤ 100)
    (hrange : ∀ start ∈ query.start, ∀ «until» ∈ query.until, start < «until») :
    store.listIssues projectId query = .ok (Page.first IssueSnapshot.anchor query.limit
      (Page.below IssueSnapshot.anchor
        (Page.descending IssueSnapshot.anchor ((store.issues projectId).filter (IssueTable.listed query)))
        query.before)) := by
  have hrange : ¬ (query.start.any fun start => query.until.any (· ≤ start)) = true := by
    rw [Option.any_eq_true]
    rintro ⟨start, hstart, huntil⟩
    obtain ⟨«until», hsome, hle⟩ := Option.any_eq_true _ _ |>.mp huntil
    exact absurd (of_decide_eq_true hle) (not_le.mpr (hrange start hstart «until» hsome))
  have hitems : ((Page.below (fun row => row.issue.anchor) (Page.descending (fun row => row.issue.anchor)
        ((store.ofProject projectId).filter fun row => IssueTable.listed query row.issue)) query.before).map
          PostgresIssues.IssueRow.issue)
      = Page.below IssueSnapshot.anchor (Page.descending IssueSnapshot.anchor
        ((store.issues projectId).filter (IssueTable.listed query))) query.before := by
    rw [IssueTable.issues, List.filter_map, ← Page.map_descending, ← Page.map_below]
    rfl
  rw [← hitems, ← Page.first_take, ← List.map_take]
  simp only [IssueTable.listIssues, bind_eq_ok, failIf_eq_ok, pure_eq_ok]
  refine ⟨(), by omega, (), hrange, _, mapM_of_forall_mem fun row hrow => ?_, rfl⟩
  have hmem := Page.mem_descending.mp (Page.mem_of_mem_below (List.mem_of_mem_take hrow))
  rw [decode_of_mem (List.mem_filter.mp hmem).1]
  rfl

end Store

/-! ### The list -/

theorem decodeIssueAnchor_encodeIssueAnchor (anchor : IssueAnchor) {digest : List (BitVec 8)}
    (hdigest : digest.length = 16) : decodeIssueAnchor (encodeIssueAnchor anchor digest) digest = .ok anchor := by
  have hdecode := decodeCursor_encodeCursor .issue (ofLex anchor).1 (ofLex anchor).2.bytes
    (by rw [length_bytes]; decide) hdigest
  rw [length_bytes] at hdecode
  rw [decodeIssueAnchor, encodeIssueAnchor, hdecode]
  exact congrArg Except.ok (congrArg toLex (congrArg (Prod.mk _) (fromBytes_bytes _)))

theorem parseIssueStatus_eq_ok {value : Text} {status : IssueStatus} :
    parseIssueStatus value = .ok status ↔ value = statusName status := by
  unfold parseIssueStatus
  split_ifs with hopen hresolved hignored
  · subst hopen
    cases status <;> decide
  · subst hresolved
    cases status <;> decide
  · subst hignored
    cases status <;> decide
  · refine iff_of_false nofun ?_
    rintro rfl
    cases status
    · exact hopen rfl
    · exact hresolved rfl
    · exact hignored rfl

section List

variable {env : Environment} (store : IssueTable env) (projectId : ProjectId) {text : Text} {parsed : ParsedQuery}
  {start «until» : Option Timestamp} {limit : Nat}

/-- The time range of a list, which leaves its end out. -/
def inRange (start «until» : Option Timestamp) (issue : IssueSnapshot) : Bool :=
  start.all (· ≤ issue.lastSeen) && «until».all (issue.lastSeen < ·)

/-- The status that a list is filtered by: a matching Issue has it. -/
theorem positive_status (hparse : ParsedQuery.parse env.rfc3339 .issues text = .ok parsed) :
    ∃ status, ((parsed.expression.bind (positivePredicate .status)).mapM fun value => parseIssueStatus value.value)
        = .ok status
      ∧ ∀ issue, issueMatches env.lowercase env.rfc3339 parsed.expression issue = true →
        status.all (issue.status = ·) = true := by
  cases hpositive : parsed.expression.bind (positivePredicate .status) with
  | none => exact ⟨none, rfl, fun _ _ => rfl⟩
  | some found =>
      obtain ⟨hfield, hequal, hvalid⟩ := positive_acceptable (by decide) hparse hpositive
      obtain ⟨status, hstatus⟩ : ∃ status, found.value = statusName status := by
        have hmem : found.value ∈ ["open".toList, "resolved".toList, "ignored".toList] := by simpa [validValue] using hvalid
        simp only [List.mem_cons, List.not_mem_nil, or_false] at hmem
        obtain h | h | h := hmem
        · exact ⟨.open, h⟩
        · exact ⟨.resolved, h⟩
        · exact ⟨.ignored, h⟩
      have hread := parseIssueStatus_eq_ok.mpr hstatus
      refine ⟨some status, by simp [Option.mapM, hread, Functor.map, Except.map], fun issue hmatches => ?_⟩
      have hsame := positive_matches hpositive hmatches
      simp only [issuePredicateMatches, hfield, stringMatches, hequal, hstatus, decide_eq_true_eq] at hsame
      have hinjective : Function.Injective statusName := by
        intro left right heq
        exact Except.ok.inj ((parseIssueStatus_eq_ok.mpr heq).symm.trans (parseIssueStatus_eq_ok.mpr rfl)).symm
      simpa using hinjective hsame

theorem decode_cursors {place : Option IssueAnchor} {digest : List (BitVec 8)} (hdigest : digest.length = 16) :
    ((place.map fun anchor => encodeIssueAnchor anchor digest).mapM fun value => decodeIssueAnchor value digest)
      = .ok place := by
  cases place with
  | none => rfl
  | some anchor =>
      have hdecode := decodeIssueAnchor_encodeIssueAnchor anchor hdigest
      simp [Option.mapM, hdecode, Functor.map, Except.map]

/-- One page of the list: the matching ones of the first rows after its place. -/
theorem queryIssueList_eq {status : Option IssueStatus} {place : Option IssueAnchor} (hlimit : 0 < limit)
    (hrange : ∀ first ∈ start, ∀ last ∈ «until», first < last)
    (hstatus : ((parsed.expression.bind (positivePredicate .status)).mapM fun value => parseIssueStatus value.value)
      = .ok status) :
    let encode := fun anchor => encodeIssueAnchor anchor
      (cursorDigest env.blake3 projectId (listScope parsed start «until») .issue)
    let page := Page.first IssueSnapshot.anchor (min limit 100) (Page.below IssueSnapshot.anchor
      (Page.descending IssueSnapshot.anchor ((store.issues projectId).filter
        (IssueTable.listed ⟨status, start, «until», none, 0⟩))) place)
    queryIssueList store projectId parsed start «until» (place.map encode) limit
      = .ok ⟨page.items.filter (issueMatches env.lowercase env.rfc3339 parsed.expression), page.next.map encode⟩ := by
  intro encode page
  have hplace : ((place.map encode).mapM fun value => decodeIssueAnchor value
      (cursorDigest env.blake3 projectId (listScope parsed start «until») .issue)) = .ok place :=
    decode_cursors (length_digestPrefix ..)
  have hlist : store.listIssues projectId ⟨status, start, «until», place, min limit 100⟩ = .ok page :=
    listIssues_eq (by dsimp only; omega) hrange
  simp only [queryIssueList, bind_eq_ok, pure_eq_ok]
  refine ⟨place, hplace, status, hstatus, page, ?_, rfl⟩
  rw [hlist]
  rfl

/-- The pages of the list are the matching Issues of the range, each once. -/
theorem queryIssueList_readAll (hparse : ParsedQuery.parse env.rfc3339 .issues text = .ok parsed)
    (hrange : ∀ first ∈ start, ∀ last ∈ «until», first < last) (hlimit : 0 < limit) :
    ∃ found : List IssueSnapshot,
      (∀ rounds, (store.issues projectId).length < rounds →
        Page.readAll (fun cursor => queryIssueList store projectId parsed start «until» cursor limit) rounds none
          = .ok (some found))
      ∧ Page.Ordered IssueSnapshot.anchor found
      ∧ ∀ issue, issue ∈ found ↔ issue ∈ store.issues projectId ∧ inRange start «until» issue = true
        ∧ issueMatches env.lowercase env.rfc3339 parsed.expression issue = true := by
  obtain ⟨status, hstatus, hfiltered⟩ := positive_status hparse
  let rows := Page.descending IssueSnapshot.anchor ((store.issues projectId).filter
    (IssueTable.listed ⟨status, start, «until», none, 0⟩))
  have hordered : Page.Ordered IssueSnapshot.anchor rows :=
    Page.ordered_descending ((nodup_anchors store projectId).sublist (List.filter_sublist.map _))
  have hlength : rows.length ≤ (store.issues projectId).length := by
    rw [Page.perm_descending.length_eq]
    exact List.length_filter_le ..
  refine ⟨rows.filter (issueMatches env.lowercase env.rfc3339 parsed.expression), fun rounds hrounds => ?_,
    hordered.sublist List.filter_sublist, fun issue => ?_⟩
  · rw [← List.map_id (rows.filter _)]
    refine Page.readAll_eq hordered (fun place _ => ⟨_, queryIssueList_eq store projectId hlimit hrange hstatus, ?_⟩)
      (by omega)
    rw [← List.map_id (List.filter _ _)]
    exact Page.isStart_first (by omega) _
  · rw [List.mem_filter, Page.mem_descending, List.mem_filter, and_assoc]
    refine and_congr_right fun _ => ?_
    constructor
    · rintro ⟨hlisted, hmatches⟩
      simp only [IssueTable.listed, Bool.and_eq_true] at hlisted
      exact ⟨by simp [inRange, hlisted], hmatches⟩
    · rintro ⟨hin, hmatches⟩
      have hin : start.all (· ≤ issue.lastSeen) = true ∧ «until».all (issue.lastSeen < ·) = true := by
        simpa [inRange] using hin
      exact ⟨by simp [IssueTable.listed, hfiltered issue hmatches, hin], hmatches⟩

end List

/-! ### The load and the title search -/

section Shortcuts

variable {env : Environment} (store : IssueTable env) (projectId : ProjectId) {text : Text} {parsed : ParsedQuery}
  {start «until» : Option Timestamp} {limit : Nat} {issue : IssueSnapshot} {found : QueryPredicate}

/-- The time range of a shortcut has its end, which no other Issue tells from the one of the list. -/
theorem inTimeRange_eq (h : «until» ≠ some issue.lastSeen) :
    inTimeRange issue.lastSeen start «until» = inRange start «until» issue := by
  rw [inTimeRange, inRange]
  cases «until» with
  | none => rfl
  | some bound =>
      have hne : issue.lastSeen ≠ bound := fun heq => h (congrArg some heq.symm)
      simp [le_iff_lt_or_eq, hne]

variable (env) in
/-- The Issue that a conjunct names. -/
theorem exists_named (hvalid : validHex found.value 32 = true) (hequal : found.operator = .equal)
    (hfield : found.field = .issueId) :
    ∃ bytes, hex16Text found.value = .ok bytes
      ∧ ∀ issue, issuePredicateMatches env.lowercase env.rfc3339 issue found = true →
        issue.issueId = Identity.fromBytes bytes := by
  have hhex := of_decide_eq_true hvalid
  have hdigits : ∀ c ∈ found.value, (hexValue c).isSome := List.all_eq_true.mp hhex.2
  have hlength : found.value.length % 2 = 0 := by
    rw [← byteLength_of_hexValue hdigits, hhex.1]
  obtain ⟨bytes, hbytes⟩ := exists_hexDecode hdigits hlength
  refine ⟨bytes, ?_, fun issue hmatches => ?_⟩
  · simp [hex16Text, hvalid, hbytes, failIf, bind, Except.bind]
  · simp only [issuePredicateMatches, hfield, stringMatches, hequal, decide_eq_true_eq] at hmatches
    rw [← hmatches, hexDecode_hexEncode] at hbytes
    rw [← Option.some.inj hbytes, fromBytes_bytes]

variable (parsed start «until») in
theorem queryIssueById_eq {bytes : List (BitVec 8)} (hhex : hex16Text found.value = .ok bytes) :
    (∀ issue ∈ store.issues projectId, issue.issueId = Identity.fromBytes bytes →
      queryIssueById store projectId parsed start «until» found
        = .ok ⟨[issue].filter (@kept env parsed start «until»), none⟩)
    ∧ ((∀ issue ∈ store.issues projectId, issue.issueId ≠ Identity.fromBytes bytes) →
      queryIssueById store projectId parsed start «until» found = .error .notFound) := by
  constructor
  · intro issue hmem hid
    rw [queryIssueById, hhex]
    simp only [bind, Except.bind]
    rw [load_eq_ok.mpr ⟨hmem, hid⟩]
    rfl
  · intro habsent
    rw [queryIssueById, hhex]
    simp only [bind, Except.bind]
    rw [load_eq_error habsent]
    rfl

/-- The Issues that the index finds for a title, the best ranked first and by identity among equals. -/
structure Ranked (title : Text) (issues : List IssueSnapshot) : Prop where
  mem : ∀ issue, issue ∈ issues ↔ issue ∈ store.issues projectId ∧ env.titleMatches title issue.title = true
  nodup : issues.Nodup
  ordered : issues.Pairwise fun left right => env.titleRank title right.title < env.titleRank title left.title
    ∨ env.titleRank title right.title = env.titleRank title left.title ∧ left.issueId < right.issueId

/-- The order of the title search. -/
def rankedBefore (env : Environment) (title : Text) (left right : PostgresIssues.IssueRow) : Prop :=
  toLex (env.titleRank title right.issue.title, left.issue.issueId)
    ≤ toLex (env.titleRank title left.issue.title, right.issue.issueId)

instance decidableRankedBefore (env : Environment) (title : Text) : DecidableRel (rankedBefore env title) :=
  fun _ _ => inferInstanceAs (Decidable (_ ≤ _))

theorem rankedBefore_iff {title : Text} {left right : PostgresIssues.IssueRow} :
    rankedBefore env title left right ↔ env.titleRank title right.issue.title < env.titleRank title left.issue.title
      ∨ env.titleRank title right.issue.title = env.titleRank title left.issue.title
        ∧ left.issue.issueId ≤ right.issue.issueId := Prod.Lex.toLex_le_toLex

theorem rankedBefore_total (title : Text) (left right : PostgresIssues.IssueRow) :
    rankedBefore env title left right ∨ rankedBefore env title right left := by
  rw [rankedBefore_iff, rankedBefore_iff]
  rcases lt_trichotomy (env.titleRank title right.issue.title) (env.titleRank title left.issue.title) with h | h | h
  · exact .inl (.inl h)
  · exact (le_total left.issue.issueId right.issue.issueId).imp (fun hle => .inr ⟨h, hle⟩) fun hle => .inr ⟨h.symm, hle⟩
  · exact .inr (.inl h)

theorem rankedBefore_trans (title : Text) {first second third : PostgresIssues.IssueRow}
    (h : rankedBefore env title first second) (hnext : rankedBefore env title second third) :
    rankedBefore env title first third := by
  rw [rankedBefore_iff] at h hnext ⊢
  rcases h with h | ⟨hrank, hle⟩
  · rcases hnext with hnext | ⟨hrank', -⟩
    · exact .inl (hnext.trans h)
    · exact .inl (hrank' ▸ h)
  · rcases hnext with hnext | ⟨hrank', hle'⟩
    · exact .inl (hrank ▸ hnext)
    · exact .inr ⟨hrank'.trans hrank, hle.trans hle'⟩

instance totalRankedBefore (env : Environment) (title : Text) : Std.Total (rankedBefore env title) :=
  ⟨rankedBefore_total title⟩

instance transRankedBefore (env : Environment) (title : Text) : IsTrans _ (rankedBefore env title) :=
  ⟨fun _ _ _ => rankedBefore_trans title⟩

theorem searchTitles_eq (title : Text) : ∃ issues : List IssueSnapshot, Ranked store projectId title issues
    ∧ ∀ count, store.searchTitles projectId title count = (issues.take count).map (·.issueId) := by
  let found := (store.ofProject projectId).filter fun row => env.titleMatches title row.issue.title
  let rows := found.insertionSort (rankedBefore env title)
  have hperm : rows.Perm found := List.perm_insertionSort (rankedBefore env title) found
  have hnodup : (store.issues projectId).Nodup := (nodup_anchors store projectId).of_map _
  have hrows : (rows.map PostgresIssues.IssueRow.issue).Nodup :=
    (hperm.map _).nodup_iff.mpr (hnodup.sublist (List.filter_sublist.map _))
  refine ⟨rows.map PostgresIssues.IssueRow.issue, ⟨fun issue => ?_, hrows, ?_⟩, fun count => ?_⟩
  · rw [List.mem_map, IssueTable.issues, List.mem_map]
    constructor
    · rintro ⟨row, hrow, rfl⟩
      obtain ⟨hmem, hmatches⟩ := List.mem_filter.mp (hperm.mem_iff.mp hrow)
      exact ⟨⟨row, hmem, rfl⟩, hmatches⟩
    · rintro ⟨⟨row, hmem, rfl⟩, hmatches⟩
      exact ⟨row, hperm.mem_iff.mpr (List.mem_filter.mpr ⟨hmem, hmatches⟩), rfl⟩
  · have hsorted : rows.Pairwise (rankedBefore env title) := List.pairwise_insertionSort _ found
    have hpairs := hsorted.and (List.pairwise_map.mp hrows)
    refine List.pairwise_map.mpr (hpairs.imp_of_mem fun {left right} hleft hright h => ?_)
    refine (rankedBefore_iff.mp h.1).imp id fun htie => ⟨htie.1, lt_of_le_of_ne htie.2 fun hsame => h.2 ?_⟩
    have hstored : ∀ row ∈ rows, row.issue ∈ store.issues projectId := fun row hrow =>
      List.mem_map_of_mem (List.mem_filter.mp (hperm.mem_iff.mp hrow)).1
    have hload := load_eq_ok.mpr ⟨hstored left hleft, hsame⟩
    rw [load_eq_ok.mpr ⟨hstored right hright, rfl⟩] at hload
    exact (Except.ok.inj hload).symm
  · rw [← List.map_take, List.map_map]
    rfl

variable (parsed start «until») in
theorem queryIssuesByTitle_eq (hsearch : validateSearch found.value (min limit 100) = .ok ()) :
    ∃ issues : List IssueSnapshot, Ranked store projectId found.value issues
      ∧ queryIssuesByTitle store projectId parsed start «until» found none limit
        = .ok ⟨(issues.take (min limit 100)).filter (@kept env parsed start «until»), none⟩ := by
  obtain ⟨issues, hranked, hids⟩ := searchTitles_eq store projectId found.value
  refine ⟨issues, hranked, ?_⟩
  have hload : ∀ issue ∈ issues.take (min limit 100),
      ((fun issueId => (store.load projectId issueId).mapError mapIssueError) ∘ IssueSnapshot.issueId) issue
        = .ok (id issue) := by
    intro issue hissue
    have hstored := ((hranked.mem issue).mp (List.mem_of_mem_take hissue)).1
    rw [Function.comp_apply, load_eq_ok.mpr ⟨hstored, rfl⟩]
    rfl
  have hitems := mapM_of_forall_mem hload
  rw [← List.mapM_map, List.map_id] at hitems
  simp only [queryIssuesByTitle, bind_eq_ok, failIf_eq_ok, pure_eq_ok]
  exact ⟨(), by simp, (), hsearch, issues.take (min limit 100), by rw [hids]; exact hitems, rfl⟩

end Shortcuts

/-! ### All paths -/

section Paths

variable {env : Environment} (store : IssueTable env) (projectId : ProjectId) (parsed : ParsedQuery)
  (start «until» : Option Timestamp) (limit : Nat)

/-- The Issues that a query asks for. -/
def Matching (issue : IssueSnapshot) : Prop :=
  issue ∈ store.issues projectId ∧ inRange start «until» issue = true
    ∧ issueMatches env.lowercase env.rfc3339 parsed.expression issue = true

/-- Reading page after page returns the Issues that the query asks for, each once. -/
def ReadsMatching : Prop :=
  ∃ found : List IssueSnapshot,
    (∀ rounds, (store.issues projectId).length < rounds →
      Page.readAll (fun cursor => queryIssues store projectId parsed start «until» cursor limit) rounds none
        = .ok (some found))
    ∧ Page.Ordered IssueSnapshot.anchor found ∧ ∀ issue, issue ∈ found ↔ Matching store projectId parsed start «until» issue

/-- The query returns the Issue that the conjunct names, when the query asks for it, or reports that there is
no such Issue. -/
def LoadsNamed (found : QueryPredicate) : Prop :=
  ∃ bytes, hex16Text found.value = .ok bytes ∧ ∀ cursor,
    (∀ named ∈ store.issues projectId, named.issueId = Identity.fromBytes bytes →
      ∃ items : List IssueSnapshot, queryIssues store projectId parsed start «until» cursor limit = .ok ⟨items, none⟩
        ∧ items.length ≤ 1 ∧ ∀ issue, «until» ≠ some issue.lastSeen →
          (issue ∈ items ↔ Matching store projectId parsed start «until» issue))
    ∧ ((∀ issue ∈ store.issues projectId, issue.issueId ≠ Identity.fromBytes bytes) →
      queryIssues store projectId parsed start «until» cursor limit = .error .notFound)

/-- The query returns one page: of the first Issues that the index finds, in its order, those that it asks for. -/
def SearchesTitles (found : QueryPredicate) : Prop :=
  (∀ cursor, queryIssues store projectId parsed start «until» (some cursor) limit = .error (.query .invalidCursor))
  ∧ (maxIssueSearchBytes < byteLength found.value →
    queryIssues store projectId parsed start «until» none limit = .error (.query .limitExceeded))
  ∧ (byteLength found.value ≤ maxIssueSearchBytes →
    ∃ ranked items : List IssueSnapshot, Ranked store projectId found.value ranked
      ∧ queryIssues store projectId parsed start «until» none limit = .ok ⟨items, none⟩
      ∧ items.Sublist (ranked.take (min limit 100))
      ∧ ∀ issue, «until» ≠ some issue.lastSeen → (issue ∈ items ↔
        issue ∈ ranked.take (min limit 100) ∧ Matching store projectId parsed start «until» issue))

variable {parsed start «until» limit} {text : Text} {found : QueryPredicate}

variable (parsed limit) in
theorem queryIssues_of_range (hrange : ∀ first ∈ start, ∀ last ∈ «until», first < last) (cursor : Option Text) :
    queryIssues store projectId parsed start «until» cursor limit
      = match parsed.expression.bind (positivePredicate .issueId) with
        | some predicate => queryIssueById store projectId parsed start «until» predicate
        | none =>
            match parsed.expression.bind (positivePredicate .title) with
            | some predicate => queryIssuesByTitle store projectId parsed start «until» predicate cursor limit
            | none => queryIssueList store projectId parsed start «until» cursor limit := by
  have hvalid : validateOptionalTimeRange start «until» = .ok () := by
    cases start with
    | none => rfl
    | some first =>
        cases «until» with
        | none => rfl
        | some last => exact failIf_eq_ok.mpr (not_le.mpr (hrange first rfl last rfl))
  rw [queryIssues, hvalid]
  rfl

theorem readsMatching (hparse : ParsedQuery.parse env.rfc3339 .issues text = .ok parsed)
    (hrange : ∀ first ∈ start, ∀ last ∈ «until», first < last) (hlimit : 0 < limit)
    (hid : parsed.expression.bind (positivePredicate .issueId) = none)
    (htitle : parsed.expression.bind (positivePredicate .title) = none) :
    ReadsMatching store projectId parsed start «until» limit := by
  obtain ⟨found, hread, hordered, hfound⟩ := queryIssueList_readAll store projectId hparse hrange hlimit
  refine ⟨found, ?_, hordered, hfound⟩
  have hfetch : (fun cursor => queryIssues store projectId parsed start «until» cursor limit)
      = fun cursor => queryIssueList store projectId parsed start «until» cursor limit := by
    funext cursor
    rw [queryIssues_of_range store projectId parsed limit hrange, hid, htitle]
  rw [hfetch]
  exact hread

theorem loadsNamed (hparse : ParsedQuery.parse env.rfc3339 .issues text = .ok parsed)
    (hrange : ∀ first ∈ start, ∀ last ∈ «until», first < last)
    (hid : parsed.expression.bind (positivePredicate .issueId) = some found) :
    LoadsNamed store projectId parsed start «until» limit found := by
  obtain ⟨hfield, hequal, hvalid⟩ := positive_acceptable (by decide) hparse hid
  obtain ⟨bytes, hhex, hnames⟩ := exists_named env hvalid hequal hfield
  obtain ⟨hpresent, habsent⟩ :=
    queryIssueById_eq store projectId parsed start «until» hhex
  refine ⟨bytes, hhex, fun cursor => ?_⟩
  rw [queryIssues_of_range store projectId parsed limit hrange, hid]
  refine ⟨fun named hnamed hsame => ⟨_, hpresent named hnamed hsame, List.length_filter_le _ _, ?_⟩, habsent⟩
  intro issue hend
  rw [List.mem_filter, List.mem_singleton, kept, Bool.and_eq_true, inTimeRange_eq hend]
  constructor
  · rintro ⟨rfl, hkept⟩
    exact ⟨hnamed, hkept⟩
  · rintro ⟨hmem, hin, hmatches⟩
    have hsameIssue := load_eq_ok.mpr ⟨hmem, hnames issue (positive_matches hid hmatches)⟩
    rw [load_eq_ok.mpr ⟨hnamed, hsame⟩] at hsameIssue
    exact ⟨(Except.ok.inj hsameIssue).symm, hin, hmatches⟩

theorem positive_nonempty {field : QueryField} (hparse : ParsedQuery.parse env.rfc3339 .issues text = .ok parsed)
    (h : parsed.expression.bind (positivePredicate field) = some found) : found.value ≠ [] := by
  obtain ⟨expression, hexpression, hpositive⟩ := Option.bind_eq_some_iff.mp h
  obtain ⟨-, -, hmem, -⟩ := positivePredicate_eq_some hpositive
  obtain hacceptable | ⟨value, hvalue, hbare⟩ := parsed_readable hparse hexpression found hmem
  · exact hacceptable.nonempty
  · rw [bareTerms, List.mem_singleton] at hbare
    rwa [hbare]

theorem searchesTitles (hparse : ParsedQuery.parse env.rfc3339 .issues text = .ok parsed)
    (hrange : ∀ first ∈ start, ∀ last ∈ «until», first < last) (hlimit : 0 < limit)
    (hid : parsed.expression.bind (positivePredicate .issueId) = none)
    (htitle : parsed.expression.bind (positivePredicate .title) = some found) :
    SearchesTitles store projectId parsed start «until» limit found := by
  have hpath := fun cursor => queryIssues_of_range store projectId parsed limit hrange cursor
  simp only [hid, htitle] at hpath
  refine ⟨fun cursor => ?_, fun hlong => ?_, fun hbounded => ?_⟩
  · rw [hpath]
    rfl
  · have hrefused : validateSearch found.value (min limit 100) = .error (.query .limitExceeded) :=
      failIf_eq_error.mpr ⟨.inr (.inl hlong), rfl⟩
    rw [hpath, queryIssuesByTitle, hrefused]
    rfl
  · have haccepted : validateSearch found.value (min limit 100) = .ok () := by
      have hempty := positive_nonempty hparse htitle
      rw [validateSearch, failIf_eq_ok, List.isEmpty_iff, maxIssueSearchResults]
      rintro (h | h | h | h)
      · exact hempty h
      · omega
      · omega
      · omega
    obtain ⟨ranked, hranked, hitems⟩ := queryIssuesByTitle_eq store projectId parsed start «until» haccepted
    refine ⟨ranked, _, hranked, (hpath none).trans hitems, List.filter_sublist, fun issue hend => ?_⟩
    rw [List.mem_filter, kept, Bool.and_eq_true, inTimeRange_eq hend]
    refine and_congr_right fun hmem => ?_
    have hstored := ((hranked.mem issue).mp (List.mem_of_mem_take hmem)).1
    exact ⟨fun hkept => ⟨hstored, hkept⟩, fun hmatching => hmatching.2⟩

/-- The paths of an Issue query. A list that no conjunct shortens is exact. -/
theorem issue_query_paths (start «until» : Option Timestamp)
    (hparse : ParsedQuery.parse env.rfc3339 .issues text = .ok parsed)
    (hlimit : 1 ≤ limit ∧ limit ≤ maxQueryRows) :
    (∀ first last, start = some first → «until» = some last → last ≤ first → ∀ cursor,
      queryIssues store projectId parsed start «until» cursor limit = .error .invalidRequest)
    ∧ ((∀ first last, start = some first → «until» = some last → first < last) →
      match parsed.expression.bind (positivePredicate .issueId), parsed.expression.bind (positivePredicate .title) with
      | none, none => ReadsMatching store projectId parsed start «until» limit
      | some found, _ => LoadsNamed store projectId parsed start «until» limit found
      | none, some found => SearchesTitles store projectId parsed start «until» limit found) := by
  constructor
  · rintro first last rfl rfl hle cursor
    have hrefused : validateOptionalTimeRange (some first) (some last) = .error .invalidRequest :=
      failIf_eq_error.mpr ⟨hle, rfl⟩
    rw [queryIssues, hrefused]
    rfl
  · intro hrange
    have hrange : ∀ first ∈ start, ∀ last ∈ «until», first < last :=
      fun first hfirst last hlast => hrange first last hfirst hlast
    cases hid : parsed.expression.bind (positivePredicate .issueId) with
    | some found => exact loadsNamed store projectId hparse hrange hid
    | none =>
        cases htitle : parsed.expression.bind (positivePredicate .title) with
        | none => exact readsMatching store projectId hparse hrange hlimit.1 hid htitle
        | some found => exact searchesTitles store projectId hparse hrange hlimit.1 hid htitle

end Paths

/-! ### Runs -/

/-- A digest function, and an index that finds a title by itself only. -/
def sampleEnvironment : Environment where
  blake3 _ := 0
  codec := PostgresIssues.IssueCodecConfig.defaultValue
  rfc3339 _ := none
  lowercase text := text
  titleMatches text title := text = title.asStr
  titleRank _ _ := 1

def sampleProject : ProjectId := ⟨7, ProjectId.positive_seven⟩

def sampleIssue : IssueSnapshot where
  projectId := sampleProject
  issueId := ⟨0⟩
  groupingKey := ⟨1, 0⟩
  title := ⟨"panic".toList, by decide⟩
  culprit := none
  firstSeen := ⟨1700000000000, inRange_sampleStart⟩
  lastSeen := ⟨1700000000000, inRange_sampleStart⟩
  firstEventId := ⟨1⟩
  latestEventId := ⟨1⟩
  representativeEventId := ⟨1⟩
  occurrenceCount := ⟨1, NonZeroU64.inRange_one⟩
  status := .open
  assignee := none
  workflow := none
  regression := none
  firstRelease := none
  lastRelease := none

/-- The table of one Issue. -/
def sampleTable : IssueTable sampleEnvironment where
  rows := (∅ : Table IssueRef PostgresIssues.IssueRow).insert (toLex (sampleProject, ⟨0⟩)) ⟨sampleIssue, []⟩
  keyed ref row h := by
    rw [Table.get_insert, Table.get_empty] at h
    split_ifs at h with hkey
    obtain rfl := Option.some.inj h
    exact hkey.symm
  decodes ref row h := by
    rw [Table.get_insert, Table.get_empty] at h
    split_ifs at h
    obtain rfl := Option.some.inj h
    rfl

theorem sampleTable_issues : ∀ issue ∈ sampleTable.issues sampleProject, issue = sampleIssue := by
  intro issue hissue
  obtain ⟨row, hrow, rfl⟩ := List.mem_map.mp hissue
  have hget := mem_ofProject.mp hrow
  simp only [sampleTable, Table.get_insert, Table.get_empty] at hget
  split_ifs at hget
  rw [← Option.some.inj hget]

def openIssues : ParsedQuery :=
  ⟨.issues, some (.predicate ⟨.status, .equal, "open".toList⟩),
    normalizedQuery .issues (.predicate ⟨.status, .equal, "open".toList⟩)⟩

theorem issue_query_paths_open : ReadsMatching sampleTable sampleProject openIssues none none 50 := by
  have hparse : ParsedQuery.parse sampleEnvironment.rfc3339 .issues
      (predicateText ⟨.status, .equal, "open".toList⟩) = .ok openIssues :=
    parse_predicateText .issues ⟨.status, .equal, "open".toList⟩
      ⟨by decide, by decide, by decide, by decide, by decide, by decide⟩ (printable_of_all rfl) (by decide)
  exact (issue_query_paths sampleTable sampleProject none none hparse (by decide)).2 (fun _ _ h => nomatch h)

/-- A conjunct that names no Issue of the table. -/
def absentConjunct : QueryPredicate := ⟨.issueId, .equal, "00000000000000000000000000000007".toList⟩

def absentIssue : ParsedQuery :=
  ⟨.issues, some (.predicate absentConjunct), normalizedQuery .issues (.predicate absentConjunct)⟩

theorem absent_issue_not_found :
    ParsedQuery.parse sampleEnvironment.rfc3339 .issues (predicateText absentConjunct) = .ok absentIssue
      ∧ queryIssues sampleTable sampleProject absentIssue none none none 50 = .error .notFound
      ∧ ¬ ReadsMatching sampleTable sampleProject absentIssue none none 50 := by
  have hparse := parse_predicateText .issues absentConjunct
    ⟨by decide, by decide, by decide, by decide, by decide, by decide⟩ (printable_of_all rfl) (by decide)
  have hhex : hex16Text absentConjunct.value = .ok (List.replicate 15 0 ++ [7]) := by
    decide
  have habsent : queryIssues sampleTable sampleProject absentIssue none none none 50 = .error .notFound := by
    refine (queryIssueById_eq sampleTable sampleProject absentIssue none none hhex).2 fun issue hissue => ?_
    rw [sampleTable_issues issue hissue]
    decide
  refine ⟨hparse, habsent, ?_⟩
  rintro ⟨found, hread, -⟩
  have hrounds := hread ((sampleTable.issues sampleProject).length + 1) (Nat.lt_succ_self _)
  rw [Page.readAll, habsent] at hrounds
  cases hrounds

end NativeApi

end MetricBackend
