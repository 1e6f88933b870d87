import MetricBackend.MongoSessions

/-! A batch of duplicates on Mongo rebuilds the statistics of every hour between its first and its last
start from the sessions that are still stored. It leaves the statistics as they were exactly when they
say no more and no less than those sessions. -/

namespace MetricBackend.MongoSessions

/-- The stored sessions of an hour. -/
def sessionsOf (sessions : Table SessionId SessionDocument) (key : HealthKey) : List SessionRecord :=
  (sessions.toList.map (·.2.record)).filter (·.healthKey = key)

/-- The statistics of an hour that some sessions amount to. -/
structure Totals (retention : SessionRetention) (key : HealthKey) (records : List SessionRecord)
    (row : HealthRow) : Prop where
  sessions : row.sessions = records.length
  crashed : row.crashed = records.countP (·.state = .crashed)
  abnormal : row.abnormal = records.countP (·.state = .abnormal)
  exited : row.exited = records.countP (·.state = .exited)
  userSketch : row.userSketch = records.foldl sketchUser 0
  crashedUserSketch : row.crashedUserSketch = (records.filter (·.state = .crashed)).foldl sketchUser 0
  expireAt : row.expireAt.unixMillis = key.hour + retention.sessionStatsHourlyDays * dayMillis

/-- The document of an hour is what the stored sessions of the hour amount to: none without any. -/
def Reflects (store : SessionStore) (key : HealthKey) : Prop :=
  (sessionsOf store.sessions key = [] → store.stats[key]? = none) ∧
    (sessionsOf store.sessions key ≠ [] →
      ∃ row, store.stats[key]? = some row ∧
        Totals store.retention key (sessionsOf store.sessions key) row)

theorem Totals.unique {retention : SessionRetention} {key : HealthKey} {records : List SessionRecord}
    {left right : HealthRow} (hleft : Totals retention key records left)
    (hright : Totals retention key records right) : left = right := by
  obtain ⟨sessions, crashed, abnormal, exited, users, crashedUsers, expireAt⟩ := left
  obtain ⟨sessions', crashed', abnormal', exited', users', crashedUsers', expireAt'⟩ := right
  have hexpire : expireAt = expireAt' :=
    Timestamp.unixMillis_injective (hleft.expireAt.trans hright.expireAt.symm)
  have h1 := hleft.sessions.trans hright.sessions.symm
  have h2 := hleft.crashed.trans hright.crashed.symm
  have h3 := hleft.abnormal.trans hright.abnormal.symm
  have h4 := hleft.exited.trans hright.exited.symm
  have h5 := hleft.userSketch.trans hright.userSketch.symm
  have h6 := hleft.crashedUserSketch.trans hright.crashedUserSketch.symm
  simp only at h1 h2 h3 h4 h5 h6
  subst h1 h2 h3 h4 h5 h6 hexpire
  rfl

/-- The document of an hour is determined by the sessions of the hour. -/
theorem Reflects.unique {left right : SessionStore} {key : HealthKey}
    (hsessions : left.sessions = right.sessions) (hretention : left.retention = right.retention)
    (hleft : Reflects left key) (hright : Reflects right key) : left.stats[key]? = right.stats[key]? := by
  unfold Reflects at hleft hright
  rw [hsessions, hretention] at hleft
  by_cases hempty : sessionsOf right.sessions key = []
  · rw [hleft.1 hempty, hright.1 hempty]
  · obtain ⟨row, hrow, htotals⟩ := hleft.2 hempty
    obtain ⟨other, hother, htotals'⟩ := hright.2 hempty
    rw [hrow, hother, htotals.unique htotals']

/-! ### One rebuild -/

theorem foldl_add (records : List SessionRecord) (bucket : HealthBucket) :
    records.foldl HealthBucket.add bucket =
      { sessions := bucket.sessions + records.length
        crashed := bucket.crashed + records.countP (·.state = .crashed)
        abnormal := bucket.abnormal + records.countP (·.state = .abnormal)
        exited := bucket.exited + records.countP (·.state = .exited)
        userSketch := records.foldl sketchUser bucket.userSketch
        crashedUserSketch :=
          (records.filter (·.state = .crashed)).foldl sketchUser bucket.crashedUserSketch } := by
  induction records generalizing bucket with
  | nil => rfl
  | cons record records ih =>
      rw [List.foldl_cons, ih]
      simp only [HealthBucket.add, List.length_cons, List.countP_cons, List.foldl_cons,
        List.filter_cons, HealthBucket.mk.injEq]
      refine ⟨by omega, ?_, ?_, ?_, trivial, ?_⟩
      · cases decide (record.state = .crashed)
        · simp
        · simp
          omega
      · cases decide (record.state = .abnormal)
        · simp
        · simp
          omega
      · cases decide (record.state = .exited)
        · simp
        · simp
          omega
      · by_cases hcrashed : record.state = .crashed
        · simp [hcrashed]
        · simp [hcrashed]

theorem encodeHealth_totals {retention : SessionRetention} {key : HealthKey}
    {records : List SessionRecord} {row : HealthRow}
    (h : encodeHealth key.hour (records.foldl HealthBucket.add HealthBucket.empty)
      retention.sessionStatsHourlyDays = .ok row) : Totals retention key records row := by
  rw [foldl_add] at h
  simp only [encodeHealth, atMillis, timestampAddDays, bind_eq_ok, invalid_eq_ok, failIf_eq_ok,
    pure_eq_ok, Timestamp.fromUnixMillis_eq_ok] at h
  obtain ⟨hour, hhour, -, -, expireAt, hexpire, rfl⟩ := h
  rw [hhour] at hexpire
  refine ⟨?_, ?_, ?_, ?_, rfl, rfl, hexpire⟩
  · simp [HealthBucket.empty]
  · simp [HealthBucket.empty]
  · simp [HealthBucket.empty]
  · simp [HealthBucket.empty]

theorem hourOf_le_iff {timestamp : Timestamp} {hour : Int} (haligned : hour % hourMillis = 0) :
    hour ≤ timestamp.unixMillis ↔ hour ≤ hourOf timestamp := by
  unfold hourOf hourMillis at *
  omega

theorem lt_hour_iff {timestamp : Timestamp} {hour : Int} (haligned : hour % hourMillis = 0) :
    timestamp.unixMillis < hour ↔ hourOf timestamp < hour := by
  unfold hourOf hourMillis at *
  omega

theorem wholeHours_aligned (start stop : Timestamp) :
    (wholeHours start stop).1 % hourMillis = 0 ∧ (wholeHours start stop).2 % hourMillis = 0 := by
  unfold wholeHours hourOf hourMillis
  constructor
  · omega
  · split_ifs <;> omega

/-- The sessions a rebuild reads for an hour: all of the hour, or none outside its range. -/
theorem startedIn_filter (sessions : Table SessionId SessionDocument) (projectId : ProjectId)
    (start stop : Timestamp) (key : HealthKey) :
    (startedIn sessions projectId (wholeHours start stop).1 (wholeHours start stop).2).filter
        (·.healthKey = key) =
      if inRange projectId (wholeHours start stop) key then sessionsOf sessions key else [] := by
  obtain ⟨hstart, hstop⟩ := wholeHours_aligned start stop
  have hread : ∀ record : SessionRecord, record.healthKey = key →
      ((record.projectId = projectId ∧ (wholeHours start stop).1 ≤ record.startedAt.unixMillis
        ∧ record.startedAt.unixMillis < (wholeHours start stop).2) ↔
        inRange projectId (wholeHours start stop) key) := by
    rintro record rfl
    rw [hourOf_le_iff hstart, lt_hour_iff hstop]
    rfl
  rw [startedIn, sessionsOf, List.filter_filter]
  split_ifs with hin
  · refine List.filter_congr fun record _ => ?_
    by_cases hkey : record.healthKey = key
    · simp only [hkey, decide_true, Bool.true_and]
      exact decide_eq_true ((hread record hkey).mpr hin)
    · simp [hkey]
  · rw [List.filter_eq_nil_iff]
    intro record _ hboth
    rw [Bool.and_eq_true, decide_eq_true_eq, decide_eq_true_eq] at hboth
    exact hin ((hread record hboth.1).mp hboth.2)

/-- The documents of a rebuild: one for each bucket, under its key. -/
theorem encodeBuckets_eq_ok {groups : Table HealthKey HealthBucket} {days : Nat}
    {documents : List (HealthKey × HealthRow)} (h : encodeBuckets groups days = .ok documents) :
    documents.map Prod.fst = groups.toList.map Prod.fst ∧
      ∀ (key : HealthKey) (bucket : HealthBucket), groups[key]? = some bucket →
        ∃ row, (key, row) ∈ documents ∧ encodeHealth key.hour bucket days = .ok row := by
  have hforall := forall₂_of_mapM_eq_ok h
  clear h
  constructor
  · generalize groups.toList = rows at hforall
    induction hforall with
    | nil => rfl
    | cons hfirst _ ih =>
        simp only [bind_eq_ok, pure_eq_ok] at hfirst
        obtain ⟨row, -, rfl⟩ := hfirst
        rw [List.map_cons, List.map_cons, ih]
  · intro key bucket hbucket
    have hmem := Table.mem_toList.mpr hbucket
    generalize groups.toList = rows at hforall hmem
    induction hforall with
    | nil => cases hmem
    | cons hfirst _ ih =>
        rcases List.mem_cons.mp hmem with rfl | hrest
        · simp only [bind_eq_ok, pure_eq_ok] at hfirst
          obtain ⟨row, hrow, rfl⟩ := hfirst
          exact ⟨row, List.mem_cons_self .., hrow⟩
        · obtain ⟨row, hrow, hencode⟩ := ih hrest
          exact ⟨row, List.mem_cons_of_mem _ hrow, hencode⟩

theorem get_buckets (sessions : Table SessionId SessionDocument) (projectId : ProjectId)
    (start stop : Timestamp) (key : HealthKey) :
    (buckets sessions projectId (wholeHours start stop))[key]? =
      if inRange projectId (wholeHours start stop) key ∧ sessionsOf sessions key ≠ [] then
        some ((sessionsOf sessions key).foldl HealthBucket.add HealthBucket.empty)
      else none := by
  refine (Table.get_groupFold SessionRecord.healthKey HealthBucket.empty HealthBucket.add ∅ _ key
    (fun record => decide (record.healthKey = key)) fun _ => decide_eq_true_iff).trans ?_
  rw [startedIn_filter]
  by_cases hin : inRange projectId (wholeHours start stop) key
  · by_cases hempty : sessionsOf sessions key = []
    · simp [hin, hempty]
    · simp [hin, hempty]
  · simp [hin]

/-- The documents of a rebuild: those of its range reflect the sessions, the others stay. -/
theorem rebuild_eq_ok {store after : SessionStore} {projectId : ProjectId} {start stop : Timestamp}
    (h : rebuild store projectId start stop = (after, .ok ())) :
    after.sessions = store.sessions ∧ after.retention = store.retention ∧
      ∀ (key : HealthKey), (inRange projectId (wholeHours start stop) key → Reflects after key) ∧
        (¬ inRange projectId (wholeHours start stop) key → after.stats[key]? = store.stats[key]?) := by
  unfold rebuild at h
  by_cases hempty : stop ≤ start
  · rw [if_pos hempty] at h
    cases h
  rw [if_neg hempty] at h
  cases hencode : encodeBuckets (buckets store.sessions projectId (wholeHours start stop))
      store.retention.sessionStatsHourlyDays with
  | error error =>
      simp only [hencode] at h
      cases h
  | ok documents =>
      simp only [hencode] at h
      cases h
      refine ⟨rfl, rfl, fun key => ?_⟩
      obtain ⟨hkeys, hrows⟩ := encodeBuckets_eq_ok hencode
      have hnodup : (documents.map Prod.fst).Nodup := hkeys ▸ Table.nodup_keys_toList _
      have hinsert := Table.get_foldl_insert (fun row _ => row) documents
        (store.stats.filter fun key _ => ¬ inRange projectId (wholeHours start stop) key) hnodup key
      have hbucket := get_buckets store.sessions projectId start stop key
      have habsent : (buckets store.sessions projectId (wholeHours start stop))[key]? = none →
          key ∉ documents.map Prod.fst := by
        intro hnone hmem
        rw [hkeys] at hmem
        obtain ⟨entry, hentry, rfl⟩ := List.mem_map.mp hmem
        rw [Table.mem_toList.mp hentry] at hnone
        cases hnone
      refine ⟨fun hin => ⟨fun hnone => ?_, fun hsome => ?_⟩, fun hout => ?_⟩
      · have hgone := hinsert.1 (habsent (by rw [hbucket, if_neg fun hboth => hboth.2 hnone]))
        refine hgone.trans ?_
        rw [Std.ExtTreeMap.getElem?_filter']
        simp [hin]
      · rw [if_pos ⟨hin, hsome⟩] at hbucket
        obtain ⟨row, hrow, hencoded⟩ := hrows key _ hbucket
        exact ⟨row, hinsert.2 row hrow, encodeHealth_totals hencoded⟩
      · have hkept := hinsert.1 (habsent (by rw [hbucket, if_neg fun hboth => hout hboth.1]))
        refine hkept.trans ?_
        rw [Std.ExtTreeMap.getElem?_filter']
        cases store.stats[key]? <;> simp [hout]

/-! ### The ranges of a batch -/

/-- The hours of a project between the first and the last start of its updates. -/
def Spanned (updates : List SessionUpdate) (key : HealthKey) : Prop :=
  ∃ first ∈ updates, ∃ last ∈ updates, first.projectId = key.project ∧ last.projectId = key.project ∧
    hourOf first.startedAt ≤ key.hour ∧ key.hour < hourOf last.startedAt + hourMillis

/-- The range of a project starts at the first hour of its updates and stops after the last. -/
structure Covers (updates : List SessionUpdate) (projectId : ProjectId)
    (range : Timestamp × Timestamp) : Prop where
  first : ∃ update ∈ updates, update.projectId = projectId ∧
    range.1.unixMillis = hourOf update.startedAt
  last : ∃ update ∈ updates, update.projectId = projectId ∧
    range.2.unixMillis = hourOf update.startedAt + hourMillis
  bounds : ∀ update ∈ updates, update.projectId = projectId →
    range.1.unixMillis ≤ hourOf update.startedAt ∧
      hourOf update.startedAt + hourMillis ≤ range.2.unixMillis

/-- The ranges of the updates so far. -/
structure Ranged (updates : List SessionUpdate) (ranges : HealthRanges) : Prop where
  covers : ∀ (projectId : ProjectId) (range : Timestamp × Timestamp),
    ranges[projectId]? = some range → Covers updates projectId range
  missing : ∀ (projectId : ProjectId), ranges[projectId]? = none →
    ∀ update ∈ updates, update.projectId ≠ projectId

theorem Covers.other {updates : List SessionUpdate} {projectId : ProjectId}
    {range : Timestamp × Timestamp} (h : Covers updates projectId range) {update : SessionUpdate}
    (hne : update.projectId ≠ projectId) : Covers (updates ++ [update]) projectId range := by
  obtain ⟨⟨first, hfirst, hstart⟩, ⟨last, hlast, hstop⟩, hbounds⟩ := h
  refine ⟨⟨first, List.mem_append_left _ hfirst, hstart⟩, ⟨last, List.mem_append_left _ hlast, hstop⟩, ?_⟩
  intro other hother hproject
  rcases List.mem_append.mp hother with hold | hnew
  · exact hbounds other hold hproject
  · rw [List.mem_singleton.mp hnew] at hproject
    exact absurd hproject hne

theorem Covers.opened {updates : List SessionUpdate} {update : SessionUpdate} {start stop : Timestamp}
    (hmissing : ∀ other ∈ updates, other.projectId ≠ update.projectId)
    (hstart : start.unixMillis = hourOf update.startedAt)
    (hstop : stop.unixMillis = hourOf update.startedAt + hourMillis) :
    Covers (updates ++ [update]) update.projectId (start, stop) := by
  have hself : update ∈ updates ++ [update] := List.mem_append_right _ (List.mem_singleton_self _)
  refine ⟨⟨update, hself, rfl, hstart⟩, ⟨update, hself, rfl, hstop⟩, ?_⟩
  intro other hother hproject
  rcases List.mem_append.mp hother with hold | hnew
  · exact absurd hproject (hmissing other hold)
  · rw [List.mem_singleton.mp hnew]
    exact ⟨hstart.le, hstop.ge⟩

theorem unixMillis_min (left right : Timestamp) :
    (min left right).unixMillis = min left.unixMillis right.unixMillis := by
  rcases le_total left right with h | h
  · rw [min_eq_left h, min_eq_left (Timestamp.le_iff.mp h)]
  · rw [min_eq_right h, min_eq_right (Timestamp.le_iff.mp h)]

theorem unixMillis_max (left right : Timestamp) :
    (max left right).unixMillis = max left.unixMillis right.unixMillis := by
  rcases le_total left right with h | h
  · rw [max_eq_right h, max_eq_right (Timestamp.le_iff.mp h)]
  · rw [max_eq_left h, max_eq_left (Timestamp.le_iff.mp h)]

theorem Covers.widened {updates : List SessionUpdate} {update : SessionUpdate} {start stop : Timestamp}
    {range : Timestamp × Timestamp} (h : Covers updates update.projectId range)
    (hstart : start.unixMillis = hourOf update.startedAt)
    (hstop : stop.unixMillis = hourOf update.startedAt + hourMillis) :
    Covers (updates ++ [update]) update.projectId (min range.1 start, max range.2 stop) := by
  have hself : update ∈ updates ++ [update] := List.mem_append_right _ (List.mem_singleton_self _)
  obtain ⟨⟨first, hfirst, hproject, hfirstHour⟩, ⟨last, hlast, hproject', hlastHour⟩, hbounds⟩ := h
  refine ⟨?_, ?_, ?_⟩
  · rcases min_choice range.1 start with hmin | hmin
    · exact ⟨first, List.mem_append_left _ hfirst, hproject,
        (congrArg Timestamp.unixMillis hmin).trans hfirstHour⟩
    · exact ⟨update, hself, rfl, (congrArg Timestamp.unixMillis hmin).trans hstart⟩
  · rcases max_choice range.2 stop with hmax | hmax
    · exact ⟨last, List.mem_append_left _ hlast, hproject',
        (congrArg Timestamp.unixMillis hmax).trans hlastHour⟩
    · exact ⟨update, hself, rfl, (congrArg Timestamp.unixMillis hmax).trans hstop⟩
  · intro other hother hsame
    rw [unixMillis_min, unixMillis_max]
    rcases List.mem_append.mp hother with hold | hnew
    · obtain ⟨hlow, hhigh⟩ := hbounds other hold hsame
      exact ⟨min_le_of_left_le hlow, le_max_of_le_left hhigh⟩
    · rw [List.mem_singleton.mp hnew]
      exact ⟨min_le_of_right_le hstart.le, le_max_of_le_right hstop.ge⟩

theorem Ranged.widen {updates : List SessionUpdate} {ranges next : HealthRanges}
    (h : Ranged updates ranges) {update : SessionUpdate} (hwiden : widenRange ranges update = .ok next) :
    Ranged (updates ++ [update]) next := by
  simp only [widenRange, atMillis, bind_eq_ok, invalid_eq_ok, pure_eq_ok,
    Timestamp.fromUnixMillis_eq_ok] at hwiden
  obtain ⟨start, hstart, stop, hstop, rfl⟩ := hwiden
  constructor
  · intro projectId range hrange
    by_cases heq : update.projectId = projectId
    · subst heq
      rw [Table.get_insert_self] at hrange
      obtain rfl := Option.some.inj hrange
      cases hold : ranges[update.projectId]? with
      | none => exact .opened (h.missing _ hold) hstart hstop
      | some old => exact (h.covers _ old hold).widened hstart hstop
    · rw [Table.get_insert_of_ne _ _ heq] at hrange
      exact (h.covers projectId range hrange).other heq
  · intro projectId hnone other hother
    by_cases heq : update.projectId = projectId
    · rw [heq, Table.get_insert_self] at hnone
      cases hnone
    · rw [Table.get_insert_of_ne _ _ heq] at hnone
      rcases List.mem_append.mp hother with hold | hnew
      · exact h.missing projectId hnone other hold
      · rw [List.mem_singleton.mp hnew]
        exact heq

theorem Ranged.run {updates rest : List SessionUpdate} {ranges final : HealthRanges}
    (h : Ranged updates ranges) (hrun : rest.foldlM widenRange ranges = .ok final) :
    Ranged (updates ++ rest) final := by
  induction rest generalizing updates ranges with
  | nil =>
      cases hrun
      rwa [List.append_nil]
  | cons update rest ih =>
      simp only [List.foldlM_cons, bind_eq_ok] at hrun
      obtain ⟨next, hwiden, hrun⟩ := hrun
      have hnext := ih (h.widen hwiden) hrun
      rwa [List.append_assoc] at hnext

theorem hourOf_of_aligned {timestamp : Timestamp} (haligned : timestamp.unixMillis % hourMillis = 0) :
    hourOf timestamp = timestamp.unixMillis := by
  unfold hourOf hourMillis at *
  omega

/-- A range of a batch covers whole hours. -/
theorem Covers.wholeHours_eq {updates : List SessionUpdate} {projectId : ProjectId}
    {range : Timestamp × Timestamp} (h : Covers updates projectId range) :
    wholeHours range.1 range.2 = (range.1.unixMillis, range.2.unixMillis) := by
  obtain ⟨first, -, -, hfirst⟩ := h.first
  obtain ⟨last, -, -, hlast⟩ := h.last
  have hstart : range.1.unixMillis % hourMillis = 0 := by
    rw [hfirst]
    unfold hourOf hourMillis
    omega
  have hstop : range.2.unixMillis % hourMillis = 0 := by
    rw [hlast]
    unfold hourOf hourMillis
    omega
  rw [wholeHours, hourOf_of_aligned hstart, hourOf_of_aligned hstop, if_neg (not_not.mpr hstop), add_zero]

/-- The hours the ranges of a batch cover are those it spans. -/
theorem spanned_iff {updates : List SessionUpdate} {ranges : HealthRanges}
    (h : healthRanges updates = .ok ranges) (key : HealthKey) :
    Spanned updates key ↔
      ∃ range ∈ ranges.toList, inRange range.1 (wholeHours range.2.1 range.2.2) key := by
  have hempty : Ranged [] ∅ := ⟨by simp, by simp⟩
  have hranged : Ranged updates ranges := by simpa using hempty.run h
  constructor
  · rintro ⟨first, hfirst, last, hlast, hproject, hproject', hlow, hhigh⟩
    cases hrange : ranges[key.project]? with
    | none => exact absurd hproject (hranged.missing _ hrange first hfirst)
    | some range =>
        have hcovers := hranged.covers _ range hrange
        refine ⟨(key.project, range), Table.mem_toList.mpr hrange, rfl, ?_, ?_⟩
        · rw [hcovers.wholeHours_eq]
          exact (hcovers.bounds first hfirst hproject).1.trans hlow
        · rw [hcovers.wholeHours_eq]
          exact hhigh.trans_le (hcovers.bounds last hlast hproject').2
  · rintro ⟨⟨projectId, range⟩, hmem, hproject, hlow, hhigh⟩
    have hcovers := hranged.covers _ range (Table.mem_toList.mp hmem)
    obtain ⟨first, hfirst, hsame, hstart⟩ := hcovers.first
    obtain ⟨last, hlast, hsame', hstop⟩ := hcovers.last
    rw [hcovers.wholeHours_eq] at hlow hhigh
    exact ⟨first, hfirst, last, hlast, hsame.trans hproject.symm, hsame'.trans hproject.symm,
      hstart ▸ hlow, hstop ▸ hhigh⟩

/-! ### A batch of duplicates -/

theorem Reflects.congr {left right : SessionStore} {key : HealthKey} (h : Reflects left key)
    (hsessions : right.sessions = left.sessions) (hretention : right.retention = left.retention)
    (hstats : right.stats[key]? = left.stats[key]?) : Reflects right key := by
  unfold Reflects
  rw [hsessions, hretention, hstats]
  exact h

/-- The repair of several ranges: the hours of each of them reflect the sessions, the others stay. -/
theorem repair_eq_ok {store after : SessionStore} (ranges : List (ProjectId × Timestamp × Timestamp))
    (h : runUntilError (fun store range => rebuild store range.1 range.2.1 range.2.2) store ranges =
      (after, .ok ())) :
    after.sessions = store.sessions ∧ after.retention = store.retention ∧ ∀ (key : HealthKey),
      ((∃ range ∈ ranges, inRange range.1 (wholeHours range.2.1 range.2.2) key) → Reflects after key) ∧
        ((∀ range ∈ ranges, ¬ inRange range.1 (wholeHours range.2.1 range.2.2) key) →
          after.stats[key]? = store.stats[key]?) := by
  induction ranges generalizing store with
  | nil =>
      cases h
      exact ⟨rfl, rfl, fun key => ⟨by simp, fun _ => rfl⟩⟩
  | cons range ranges ih =>
      rcases hstep : rebuild store range.1 range.2.1 range.2.2 with ⟨next, error | _⟩
      · rw [runUntilError_cons_error hstep] at h
        cases h
      rw [runUntilError_cons_ok hstep] at h
      obtain ⟨hsessions, hretention, hrebuilt⟩ := rebuild_eq_ok hstep
      obtain ⟨hsessions', hretention', hrest⟩ := ih h
      refine ⟨hsessions'.trans hsessions, hretention'.trans hretention, fun key => ⟨?_, ?_⟩⟩
      · -- a later range that holds the hour rebuilds it, and the others leave it
        rintro ⟨range', hmem, hin⟩
        by_cases hlater : ∃ range ∈ ranges, inRange range.1 (wholeHours range.2.1 range.2.2) key
        · exact (hrest key).1 hlater
        · have hfirst : range' = range :=
            (List.mem_cons.mp hmem).resolve_right fun hmem => hlater ⟨range', hmem, hin⟩
          subst hfirst
          have hkept := (hrest key).2 fun other hother hinother => hlater ⟨other, hother, hinother⟩
          exact ((hrebuilt key).1 hin).congr hsessions' hretention' hkept
      · intro hout
        have hfirst := hout range (List.mem_cons_self ..)
        rw [(hrest key).2 fun other hother => hout other (List.mem_cons_of_mem _ hother)]
        exact (hrebuilt key).2 hfirst

/-- A session that changed was accepted. -/
theorem applyUpdate_changed {merge next : Merge} {update : SessionUpdate}
    (h : merge.changed ≠ ∅ → .accepted ∈ merge.outcomes)
    (happly : applyUpdate merge update = .ok next) : next.changed ≠ ∅ → .accepted ∈ next.outcomes := by
  simp only [applyUpdate, bind_eq_ok, pure_eq_ok] at happly
  obtain ⟨⟨record, changed⟩, -, rfl⟩ := happly
  intro hchanged
  cases changed with
  | true => simp
  | false => exact List.mem_append_left _ (h hchanged)

/-- A batch of duplicates changes no session, so it repairs its ranges. -/
theorem persist_duplicates {store after : SessionStore} {updates : List SessionUpdate}
    {outcomes : List DurableOutcome} (hpersist : persist store updates = (after, .ok outcomes))
    (hduplicates : ∀ outcome ∈ outcomes, outcome = .duplicate) :
    ∃ ranges, healthRanges updates = .ok ranges ∧
      repairHealthRanges store ranges = (after, .ok ()) := by
  unfold persist at hpersist
  cases hmerge : mergeBatch store updates with
  | error error =>
      rw [hmerge] at hpersist
      cases hpersist
  | ok batch =>
      obtain ⟨ranges, merge⟩ := batch
      simp only [hmerge, Prod.mk.injEq] at hpersist
      simp only [mergeBatch, bind_eq_ok, pure_eq_ok, Prod.mk.injEq] at hmerge
      obtain ⟨-, -, ranges', hranges, merge', hmerges, rfl, rfl⟩ := hmerge
      obtain ⟨hafter, hresult⟩ := hpersist
      obtain ⟨⟨⟩, hdone, rfl⟩ := map_eq_ok.mp hresult
      have hempty : merge'.changed.isEmpty = true := by
        rw [Std.ExtTreeSet.isEmpty_iff]
        by_contra hchanged
        have haccepted : .accepted ∈ merge'.outcomes :=
          foldlM_ok_induction (fun merge => merge.changed ≠ ∅ → .accepted ∈ merge.outcomes) _ _ _
            hmerges (fun hne => absurd rfl hne)
            (fun _ _ _ _ h happly => applyUpdate_changed h happly) hchanged
        cases hduplicates _ haccepted
      rw [if_pos hempty] at hafter hdone
      exact ⟨ranges', hranges, Prod.ext hafter hdone⟩

/-- A batch whose updates are all duplicates leaves the statistics of every hour as they were exactly
when, in every hour between the first and the last start of its updates in a project, they are what
the sessions stored now amount to. -/
theorem duplicates_keep_stats_iff (store after : SessionStore) (updates : List SessionUpdate)
    (outcomes : List DurableOutcome) (hpersist : persist store updates = (after, .ok outcomes))
    (hduplicates : ∀ outcome ∈ outcomes, outcome = .duplicate) :
    after.stats = store.stats ↔ ∀ key, Spanned updates key → Reflects store key := by
  obtain ⟨ranges, hranges, hrepair⟩ := persist_duplicates hpersist hduplicates
  obtain ⟨hsessions, hretention, hrepaired⟩ := repair_eq_ok ranges.toList hrepair
  constructor
  · intro hstats key hspanned
    have hreflects := (hrepaired key).1 ((spanned_iff hranges key).mp hspanned)
    exact hreflects.congr hsessions.symm hretention.symm (by rw [hstats])
  · intro hreflects
    apply Std.ExtTreeMap.ext_getElem?
    intro key
    by_cases hspanned : Spanned updates key
    · have hafter := (hrepaired key).1 ((spanned_iff hranges key).mp hspanned)
      exact hafter.unique hsessions hretention (hreflects key hspanned)
    · refine (hrepaired key).2 fun range hrange hin => hspanned ?_
      exact (spanned_iff hranges key).mpr ⟨range, hrange, hin⟩

/-! ### A session that expired -/

/-- What changes a store: batches and the TTL indexes. -/
inductive Operation where
  | persist (updates : List SessionUpdate)
  | expire (now : Timestamp)

def operate (store : SessionStore) : Operation → SessionStore
  | .persist updates => (persist store updates).1
  | .expire now => expire store now

def sampleUpdate (id : SessionId) (state : SessionState) (startedAt updatedAt : Timestamp) :
    SessionUpdate where
  id := id
  projectId := ⟨42, ProjectId.positive_fortyTwo⟩
  releaseId := ⟨0x11⟩
  environmentId := ⟨0x12⟩
  startedAt := startedAt
  updatedAt := updatedAt
  state := state
  sequence := none
  durationMs := none
  userDigest := none

/-- A session that ends within a minute. -/
def exitUpdate : SessionUpdate :=
  sampleUpdate ⟨1⟩ .exited ⟨1700000000000, inRange_sampleStart⟩ ⟨1700000060000, inRange_sampleMinute⟩

/-- A session of the same hour that stays active. -/
def beatUpdate : SessionUpdate :=
  sampleUpdate ⟨2⟩ .ok ⟨1700000100000, by decide⟩ ⟨1700000101000, by decide⟩

/-- The default retention, and no sessions. -/
def emptyStore : SessionStore where
  retention := ⟨7, 400, false⟩
  sessions := ∅
  stats := ∅

def countedStore : SessionStore :=
  [.persist [exitUpdate], .persist [beatUpdate]].foldl operate emptyStore

/-- Eight days later, the ended session is gone. -/
def agedStore : SessionStore := operate countedStore (.expire ⟨1700691200000, by decide⟩)

theorem duplicates_keep_stats_iff_counted :
    (persist countedStore [beatUpdate]).1.stats = countedStore.stats ↔
      ∀ key, Spanned [beatUpdate] key → Reflects countedStore key :=
  duplicates_keep_stats_iff countedStore _ [beatUpdate] [.duplicate]
    (Prod.ext rfl (by decide +kernel)) (by decide)

/-- The hour counted two sessions; the duplicate of the active one leaves it with one. -/
theorem duplicate_drops_expired :
    (persist agedStore [beatUpdate]).2 = .ok [.duplicate] ∧
      (persist agedStore [beatUpdate]).1.stats ≠ agedStore.stats := by
  refine ⟨by decide +kernel, fun hstats => ?_⟩
  have hcount := congrArg (fun stats : Table HealthKey HealthRow =>
    stats[SessionRecord.healthKey (SessionRecord.opened beatUpdate)]?.map (·.sessions)) hstats
  revert hcount
  decide +kernel

end MetricBackend.MongoSessions
