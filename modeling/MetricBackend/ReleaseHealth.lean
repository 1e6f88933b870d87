import MetricBackend.PostgresSessions

/-! Release health on Postgres: the counters of an hour are the numbers of the sessions stored for it.
A batch takes every changed session out of its old hour and puts it into its new one, so the books
balance after each write, and a decrement finds what it takes away. -/

namespace MetricBackend.PostgresSessions

/-! ### Counters -/

inductive Counter where
  | sessions
  | crashed
  | abnormal
  | exited
deriving DecidableEq

/-- Whether a session counts in a counter of its hour. -/
def Counter.counts (record : SessionRecord) : Counter → Bool
  | sessions => true
  | crashed => record.state = .crashed
  | abnormal => record.state = .abnormal
  | exited => record.state = .exited

def Counter.of (row : HealthRow) : Counter → Int
  | sessions => row.sessions
  | crashed => row.crashed
  | abnormal => row.abnormal
  | exited => row.exited

/-- The number of stored sessions of the hour that the counter counts. -/
def Counter.stored (sessions : Sessions) (key : HealthKey) (counter : Counter) : Nat :=
  Table.countRows (fun record => record.healthKey = key ∧ counter.counts record) sessions

/-- What a session adds to a counter of an hour. -/
def Counter.share (record : SessionRecord) (key : HealthKey) (counter : Counter) : Int :=
  if record.healthKey = key ∧ counter.counts record then 1 else 0

theorem addCount_eq_ok {value increment result : Int} :
    addCount value increment = .ok result ↔
      value + increment = result ∧ 0 ≤ result ∧ result ≤ i64Max := by
  simp only [addCount, bind_eq_ok, failIf_eq_ok, pure_eq_ok, not_or, not_lt]
  constructor
  · rintro ⟨-, ⟨hmax, hmin⟩, rfl⟩
    exact ⟨rfl, hmin, hmax⟩
  · rintro ⟨rfl, hmin, hmax⟩
    exact ⟨(), ⟨hmax, hmin⟩, rfl⟩

theorem addCount_ok {value increment : Int}
    (h : 0 ≤ value + increment ∧ value + increment ≤ i64Max) :
    addCount value increment = .ok (value + increment) :=
  addCount_eq_ok.mpr ⟨rfl, h⟩

/-- The increment of a counter for the session of a delta. -/
def Counter.increment (record : SessionRecord) (delta : Int) (counter : Counter) : Int :=
  if counter.counts record then delta else 0

theorem stateDelta_eq (record : SessionRecord) (delta : Int) :
    stateDelta record .crashed delta = Counter.increment record delta .crashed ∧
      stateDelta record .abnormal delta = Counter.increment record delta .abnormal ∧
      stateDelta record .exited delta = Counter.increment record delta .exited := by
  simp only [stateDelta, Counter.increment, Counter.counts, decide_eq_true_eq, and_self]

/-- A delta moves every counter of one row, within the bounds of the column and of the check of the table. -/
theorem adjustHealth_eq_ok {stats after : HealthStats} {record : SessionRecord} {delta : Int}
    (h : adjustHealth stats record delta = .ok after) :
    ∃ row next, stats[record.healthKey]? = some row ∧ after = stats.insert record.healthKey next ∧
      ∀ counter, Counter.of next counter =
          Counter.of row counter + Counter.increment record delta counter ∧
        0 ≤ Counter.of next counter ∧ Counter.of next counter ≤ i64Max := by
  unfold adjustHealth at h
  cases hrow : stats[record.healthKey]? with
  | none =>
      rw [hrow] at h
      cases h
  | some row =>
      rw [hrow] at h
      simp only [bind_eq_ok, pure_eq_ok, addCount_eq_ok] at h
      obtain ⟨sessions, ⟨hs, hs'⟩, crashed, ⟨hc, hc'⟩, abnormal, ⟨ha, ha'⟩, exited, ⟨he, he'⟩, -, -, rfl⟩ := h
      obtain ⟨hcrashed, habnormal, hexited⟩ := stateDelta_eq record delta
      refine ⟨row, _, rfl, rfl, fun counter => ?_⟩
      cases counter with
      | sessions => exact ⟨hs.symm, hs'⟩
      | crashed => exact ⟨hcrashed ▸ hc.symm, hc'⟩
      | abnormal => exact ⟨habnormal ▸ ha.symm, ha'⟩
      | exited => exact ⟨hexited ▸ he.symm, he'⟩

theorem adjustHealth_ok {stats : HealthStats} {record : SessionRecord} {delta : Int} {row : HealthRow}
    (hrow : stats[record.healthKey]? = some row)
    (hbounds : ∀ counter, 0 ≤ Counter.of row counter + Counter.increment record delta counter ∧
      Counter.of row counter + Counter.increment record delta counter ≤ i64Max)
    (hstates : row.crashed + Counter.increment record delta .crashed
        + (row.abnormal + Counter.increment record delta .abnormal)
        + (row.exited + Counter.increment record delta .exited) ≤ row.sessions + delta) :
    ∃ after, adjustHealth stats record delta = .ok after := by
  obtain ⟨hcrashed, habnormal, hexited⟩ := stateDelta_eq record delta
  have hs := addCount_ok (hbounds .sessions)
  have hc := addCount_ok (hbounds .crashed)
  have ha := addCount_ok (hbounds .abnormal)
  have he := addCount_ok (hbounds .exited)
  rw [← hcrashed] at hc hstates
  rw [← habnormal] at ha hstates
  rw [← hexited] at he hstates
  simp only [Counter.of] at hc ha he
  have hs' : addCount row.sessions delta = .ok (row.sessions + delta) := hs
  simp only [adjustHealth, hrow, bind_eq_ok, failIf_eq_ok, pure_eq_ok, not_lt]
  exact ⟨_, _, hs', _, hc, _, ha, _, he, (), hstates, rfl⟩

/-! ### Books -/

/-- Every row holds the expected counts, and an hour without a row expects none. -/
structure Books (stats : HealthStats) (expected : HealthKey → Counter → Int) : Prop where
  present : ∀ (key : HealthKey) (row : HealthRow), stats[key]? = some row → ∀ counter,
    Counter.of row counter = expected key counter ∧ Counter.of row counter ≤ i64Max
  absent : ∀ (key : HealthKey), stats[key]? = none → ∀ counter, expected key counter = 0

variable {stats after : HealthStats} {expected : HealthKey → Counter → Int} {record : SessionRecord}
  {delta : Int} {retention : SessionRetention}

theorem increment_eq (key : HealthKey) (hkey : record.healthKey = key) (counter : Counter) :
    Counter.increment record delta counter = delta * Counter.share record key counter := by
  simp only [Counter.increment, Counter.share, hkey, true_and]
  split_ifs
  · rw [mul_one]
  · rw [mul_zero]

theorem share_of_ne (key : HealthKey) (hkey : record.healthKey ≠ key) (counter : Counter) :
    Counter.share record key counter = 0 := by
  rw [Counter.share, if_neg fun h => hkey h.1]

theorem Books.adjust (h : Books stats expected) (hadjust : adjustHealth stats record delta = .ok after) :
    Books after fun key counter => expected key counter + delta * Counter.share record key counter := by
  obtain ⟨row, next, hrow, rfl, hnext⟩ := adjustHealth_eq_ok hadjust
  constructor
  · intro key stored hstored counter
    by_cases heq : record.healthKey = key
    · rw [← heq, Table.get_insert_self] at hstored
      obtain rfl := Option.some.inj hstored
      obtain ⟨hvalue, -, hmax⟩ := hnext counter
      rw [hvalue, increment_eq key heq, (h.present _ row (heq ▸ hrow) counter).1] at *
      exact ⟨rfl, hmax⟩
    · rw [Table.get_insert_of_ne _ _ heq] at hstored
      rw [share_of_ne key heq, mul_zero, add_zero]
      exact h.present key stored hstored counter
  · intro key hnone counter
    by_cases heq : record.healthKey = key
    · rw [← heq, Table.get_insert_self] at hnone
      cases hnone
    · rw [Table.get_insert_of_ne _ _ heq] at hnone
      rw [share_of_ne key heq, mul_zero, add_zero]
      exact h.absent key hnone counter

theorem of_emptyHealth (expireAt : Timestamp) (counter : Counter) :
    Counter.of (emptyHealth expireAt) counter = 0 := by
  cases counter <;> rfl

theorem Books.create (h : Books stats expected) (key : HealthKey) (expireAt : Timestamp) :
    Books (stats.insertIfNew key (emptyHealth expireAt)) expected := by
  constructor
  · intro other row hrow counter
    rw [Std.ExtTreeMap.getElem?_insertIfNew] at hrow
    split_ifs at hrow with hnew
    · obtain ⟨heq, habsent⟩ := hnew
      obtain rfl := compare_eq_iff_eq.mp heq
      obtain rfl := Option.some.inj hrow
      rw [of_emptyHealth, h.absent key (Std.ExtTreeMap.getElem?_eq_none habsent)]
      exact ⟨rfl, by decide⟩
    · exact h.present other row hrow counter
  · intro other hnone
    rw [Std.ExtTreeMap.getElem?_insertIfNew] at hnone
    split_ifs at hnone
    exact h.absent other hnone

theorem Books.health (h : Books stats expected) (hdelta : healthDelta retention stats record delta = .ok after) :
    Books after fun key counter => expected key counter + delta * Counter.share record key counter := by
  unfold healthDelta at hdelta
  split_ifs at hdelta
  · simp only [bind_eq_ok] at hdelta
    obtain ⟨expireAt, -, hadjust⟩ := hdelta
    exact (h.create record.healthKey expireAt).adjust hadjust
  · exact h.adjust hdelta

/-! ### The write loop -/

variable {sessions : Sessions} {tables next : Tables} {key : SessionKey}

theorem stored_insert (key : SessionKey) (record : SessionRecord) (hour : HealthKey)
    (counter : Counter) :
    (Counter.stored (sessions.insert key record) hour counter : Int) =
      Counter.stored sessions hour counter
        - sessions[key]?.elim 0 (fun old => Counter.share old hour counter)
        + Counter.share record hour counter := by
  have hcount := Table.countRows_insert sessions key record
    fun record => decide (record.healthKey = hour ∧ counter.counts record = true)
  have hshare : ∀ value : SessionRecord, Counter.share value hour counter =
      ((decide (value.healthKey = hour ∧ counter.counts value = true)).toNat : Int) := by
    intro value
    unfold Counter.share
    by_cases hvalue : value.healthKey = hour ∧ counter.counts value = true
    · simp [hvalue]
    · simp [hvalue]
  rw [hshare record]
  cases hold : sessions[key]? with
  | none =>
      rw [hold, Option.elim_none] at hcount
      rw [Option.elim_none]
      unfold Counter.stored
      omega
  | some old =>
      rw [hold, Option.elim_some] at hcount
      rw [Option.elim_some, hshare old]
      unfold Counter.stored
      omega

/-- A stored session is one of those its hour counts. -/
theorem share_le_stored {record : SessionRecord} (hstored : sessions[key]? = some record)
    (hour : HealthKey) (counter : Counter) :
    Counter.share record hour counter ≤ Counter.stored sessions hour counter := by
  unfold Counter.share
  split_ifs with hcounts
  · have hpos : 0 < Counter.stored sessions hour counter :=
      List.countP_pos_iff.mpr ⟨(key, record), Table.mem_toList.mpr hstored, by simpa using hcounts⟩
    exact_mod_cast hpos
  · exact Int.natCast_nonneg _

/-- Every session of an hour is active or counts in one of the other counters. -/
theorem stored_states (sessions : Sessions) (hour : HealthKey) :
    Counter.stored sessions hour .crashed + Counter.stored sessions hour .abnormal
        + Counter.stored sessions hour .exited
        + Table.countRows (fun record => record.healthKey = hour ∧ record.state = .ok) sessions
      = Counter.stored sessions hour .sessions := by
  unfold Counter.stored Table.countRows
  induction sessions.toList with
  | nil => rfl
  | cons entry entries ih =>
      simp only [List.countP_cons, ← ih]
      by_cases hkey : entry.2.healthKey = hour
      · cases hstate : entry.2.state <;> simp [hkey, hstate, Counter.counts] <;> omega
      · simp only [hkey, false_and, decide_false, Bool.false_eq_true, if_false]
        omega

/-- Without a session that is stored, the states of its hour are still at most its sessions. -/
theorem stored_states_without {record : SessionRecord} (hstored : sessions[key]? = some record) :
    (Counter.stored sessions record.healthKey .crashed : Int) + Counter.increment record (-1) .crashed
        + (Counter.stored sessions record.healthKey .abnormal + Counter.increment record (-1) .abnormal)
        + (Counter.stored sessions record.healthKey .exited + Counter.increment record (-1) .exited)
      ≤ Counter.stored sessions record.healthKey .sessions + -1 := by
  have hstates := stored_states sessions record.healthKey
  cases hstate : record.state with
  | ok =>
      have hactive : 0 < Table.countRows
          (fun other => other.healthKey = record.healthKey ∧ other.state = .ok) sessions :=
        List.countP_pos_iff.mpr ⟨(key, record), Table.mem_toList.mpr hstored, by simp [hstate]⟩
      simp only [Counter.increment, Counter.counts, hstate, reduceCtorEq, decide_false, Bool.false_eq_true, if_false]
      omega
  | exited | crashed | abnormal =>
      simp only [Counter.increment, Counter.counts, hstate, reduceCtorEq, decide_false, decide_true, Bool.false_eq_true,
        if_false, if_true]
      omega

/-- The counters of every hour are the numbers of the sessions stored for it, and every session is
stored under its own key. -/
structure Balanced (tables : Tables) : Prop where
  books : Books tables.stats fun hour counter => Counter.stored tables.sessions hour counter
  keyed : ∀ (key : SessionKey) (record : SessionRecord),
    tables.sessions[key]? = some record → recordKey record = key

/-- The decrement of a stored session finds its hour, takes no counter below zero and passes the check of the
table. -/
theorem Balanced.decrement (h : Balanced tables) {previous : SessionRecord}
    (hprevious : tables.sessions[key]? = some previous) :
    ∃ stats, healthDelta retention tables.stats previous (-1) = .ok stats := by
  have hshare := share_le_stored hprevious previous.healthKey
  cases hrow : tables.stats[previous.healthKey]? with
  | none =>
      have hzero := h.books.absent _ hrow .sessions
      have hone : Counter.share previous previous.healthKey .sessions = 1 := by
        rw [Counter.share, if_pos ⟨rfl, rfl⟩]
      have hle := hshare .sessions
      rw [hone, hzero] at hle
      exact absurd hle (by decide)
  | some row =>
      have hbooks := h.books.present _ row hrow
      refine adjustHealth_ok hrow (fun counter => ?_) ?_
      swap
      · have hstates := stored_states_without hprevious
        rw [← (hbooks .crashed).1, ← (hbooks .abnormal).1, ← (hbooks .exited).1, ← (hbooks .sessions).1] at hstates
        exact hstates
      obtain ⟨hcount, hmax⟩ := hbooks counter
      have hle := hshare counter
      have hnonneg : 0 ≤ Counter.share previous previous.healthKey counter := by
        unfold Counter.share
        split_ifs <;> decide
      rw [increment_eq _ rfl]
      constructor
      · rw [hcount]
        omega
      · exact le_trans (by omega) hmax

theorem elim_error_eq_ok {value : Option SessionRecord} {result : SessionRecord} :
    value.elim (.error .invalidData) .ok = (.ok result : Except SignalStoreError SessionRecord) ↔
      value = some result := by
  cases value <;> simp

/-- What the merge loop says about the record it leaves under a key. -/
def Continues (before : Sessions) (key : SessionKey) (record : SessionRecord) : Prop :=
  recordKey record = key ∧ ∀ previous, before[key]? = some previous →
    record.releaseId = previous.releaseId ∧ record.environmentId = previous.environmentId

theorem savedRow_eq {before : Sessions} (h : Continues before key record) :
    savedRow before[key]? record = record := by
  unfold savedRow
  cases hstored : before[key]? with
  | none => rfl
  | some previous =>
      obtain ⟨hrelease, henvironment⟩ := h.2 previous hstored
      show { record with releaseId := previous.releaseId, environmentId := previous.environmentId } = _
      rw [← hrelease, ← henvironment]

theorem save_eq_ok {saved : Sessions} (hsave : save retention sessions record = .ok saved)
    (hcontinues : Continues sessions key record) : saved = sessions.insert key record := by
  simp only [save, bind_eq_ok, pure_eq_ok] at hsave
  obtain ⟨-, -, -, -, -, -, rfl⟩ := hsave
  rw [hcontinues.1, savedRow_eq hcontinues]

theorem Balanced.write (h : Balanced tables) {before records : Sessions}
    (hbefore : before[key]? = tables.sessions[key]?)
    (hrecords : ∀ record, records[key]? = some record → Continues before key record)
    (hwrite : writeChanged retention before records tables key = .ok next) :
    Balanced next ∧ ∃ record, next.sessions = tables.sessions.insert key record := by
  simp only [writeChanged, bind_eq_ok, pure_eq_ok] at hwrite
  obtain ⟨record, hrecord, lowered, hlowered, saved, hsaved, raised, hraised, rfl⟩ := hwrite
  have hcontinues : Continues tables.sessions key record := by
    obtain ⟨hkey, hsame⟩ := hrecords record (elim_error_eq_ok.mp hrecord)
    exact ⟨hkey, fun previous hprevious => hsame previous (hbefore.trans hprevious)⟩
  obtain rfl := save_eq_ok hsaved hcontinues
  have hbooks : Books lowered fun hour counter => Counter.stored tables.sessions hour counter
      - tables.sessions[key]?.elim 0 (fun old => Counter.share old hour counter) := by
    rw [hbefore] at hlowered
    cases hold : tables.sessions[key]? with
    | none =>
        rw [hold, Option.elim_none] at hlowered
        cases hlowered
        simpa only [Option.elim_none, sub_zero] using h.books
    | some previous =>
        rw [hold, Option.elim_some] at hlowered
        simpa only [Option.elim_some, neg_mul, one_mul, ← sub_eq_add_neg] using h.books.health hlowered
  refine ⟨⟨?_, ?_⟩, record, rfl⟩
  · have hraised := hbooks.health hraised
    simp only [one_mul, ← stored_insert] at hraised
    exact hraised
  · intro other stored hstored
    by_cases heq : key = other
    · rw [← heq, Table.get_insert_self] at hstored
      obtain rfl := Option.some.inj hstored
      exact heq ▸ hcontinues.1
    · rw [Table.get_insert_of_ne _ _ heq] at hstored
      exact h.keyed other stored hstored

/-- The write loop over distinct keys: the books balance after each of them, and the sessions of the
keys to come are still as they were before the batch. -/
theorem Balanced.writes {before records : Sessions} (keys : List SessionKey) (hnodup : keys.Nodup)
    (h : Balanced tables) (hbefore : ∀ key ∈ keys, before[key]? = tables.sessions[key]?)
    (hrecords : ∀ key record, records[key]? = some record → Continues before key record)
    (hwrites : keys.foldlM (writeChanged retention before records) tables = .ok next) :
    Balanced next ∧ ∀ (key : SessionKey), key ∉ keys → next.sessions[key]? = tables.sessions[key]? := by
  induction keys generalizing tables with
  | nil =>
      cases hwrites
      exact ⟨h, fun _ _ => rfl⟩
  | cons key keys ih =>
      simp only [List.foldlM_cons, bind_eq_ok] at hwrites
      obtain ⟨written, hwrite, hwrites⟩ := hwrites
      rw [List.nodup_cons] at hnodup
      obtain ⟨hbalanced, record, hinsert⟩ :=
        h.write (hbefore key (List.mem_cons_self ..)) (hrecords key) hwrite
      have hkept : ∀ (other : SessionKey), key ≠ other →
          written.sessions[other]? = tables.sessions[other]? := by
        intro other hne
        rw [hinsert, Table.get_insert_of_ne _ _ hne]
      have hrest : ∀ other ∈ keys, before[other]? = written.sessions[other]? := by
        intro other hother
        rw [hkept other (fun heq => hnodup.1 (heq ▸ hother))]
        exact hbefore other (List.mem_cons_of_mem _ hother)
      obtain ⟨hnext, hsame⟩ := ih hnodup.2 hbalanced hrest hwrites
      refine ⟨hnext, fun other hother => ?_⟩
      rw [List.mem_cons, not_or] at hother
      rw [hsame other hother.2, hkept other (Ne.symm hother.1)]

/-! ### The merge loop -/

theorem Continues.merged {before : Sessions} (h : Continues before key record) (update : SessionUpdate) :
    Continues before key (record.merged update) := by
  obtain ⟨hkey, hsame⟩ := h
  refine ⟨?_, ?_⟩
  · simpa [recordKey] using hkey
  · simpa using hsame

theorem loaded_eq {store : SessionStore} (keys : List SessionKey) (init : Sessions) {before : Sessions}
    (hinit : ∀ (key : SessionKey), init[key]? = none ∨ init[key]? = store.sessions[key]?)
    (h : keys.foldlM (loadSession store) init = .ok before) (key : SessionKey) :
    (before[key]? = none ∨ before[key]? = store.sessions[key]?) ∧
      (key ∈ keys ∨ init[key]? = store.sessions[key]? → before[key]? = store.sessions[key]?) := by
  induction keys generalizing init with
  | nil =>
      cases h
      exact ⟨hinit key, by simp⟩
  | cons first keys ih =>
      simp only [List.foldlM_cons, bind_eq_ok] at h
      obtain ⟨loaded, hload, hrest⟩ := h
      have hloaded : ∀ (other : SessionKey), (loaded[other]? = init[other]? ∧
          (other = first → store.sessions[other]? = none)) ∨
          loaded[other]? = store.sessions[other]? := by
        intro other
        unfold loadSession at hload
        cases hrow : store.sessions[first]? with
        | none =>
            rw [hrow] at hload
            cases hload
            exact .inl ⟨rfl, fun heq => heq ▸ hrow⟩
        | some row =>
            simp only [hrow, decode, bind_eq_ok, failIf_eq_ok, pure_eq_ok] at hload
            obtain ⟨record, ⟨-, -, rfl⟩, rfl⟩ := hload
            by_cases heq : first = other
            · rw [← heq, Table.get_insert_self, hrow]
              exact .inr rfl
            · rw [Table.get_insert_of_ne _ _ heq]
              exact .inl ⟨rfl, fun hother => absurd hother.symm heq⟩
      have hnext : ∀ (other : SessionKey),
          loaded[other]? = none ∨ loaded[other]? = store.sessions[other]? := by
        intro other
        rcases hloaded other with ⟨hsame, -⟩ | hfound
        · rw [hsame]
          exact hinit other
        · exact .inr hfound
      obtain ⟨hkeep, hfound⟩ := ih loaded hnext hrest
      refine ⟨hkeep, fun hkey => hfound ?_⟩
      rcases hkey with hmem | hold
      · rcases List.mem_cons.mp hmem with rfl | hrest
        · rcases hloaded key with ⟨hsame, habsent⟩ | hstored
          · right
            rcases hinit key with hnone | hequal
            · rw [hsame, hnone, habsent rfl]
            · rw [hsame, hequal]
          · exact .inr hstored
        · exact .inl hrest
      · rcases hloaded key with ⟨hsame, -⟩ | hstored
        · exact .inr (hsame.trans hold)
        · exact .inr hstored

/-- What a batch holds after some of its updates. -/
structure Merging (before : Sessions) (keys : List SessionKey) (merge : Merge) : Prop where
  continues : ∀ (key : SessionKey) (record : SessionRecord),
    merge.records[key]? = some record → Continues before key record
  kept : ∀ (key : SessionKey), merge.records[key]? = none → before[key]? = none
  changed : ∀ key ∈ merge.changed, key ∈ keys

theorem refreshUpdate_eq_some {stale : Option Staleness} {stored : Option SessionRecord}
    {update refreshed : SessionUpdate} (h : refreshUpdate stale stored update = .ok (some refreshed)) :
    updateKey refreshed = updateKey update := by
  unfold refreshUpdate at h
  split at h
  · cases h
    rfl
  · cases h
  · split_ifs at h
    · cases h
    · obtain ⟨restaled, hrestale, hsome⟩ := map_eq_ok.mp h
      cases hsome
      simp only [restale, bind_eq_ok, failIf_eq_ok, pure_eq_ok] at hrestale
      obtain ⟨updatedAt, -, -, -, rfl⟩ := hrestale
      rfl

/-- The record an update leaves: the stored one merged, or one opened with the update. -/
theorem mergeUpdate_eq_ok {stored : Option SessionRecord} {update : SessionUpdate} {applied : Bool}
    (h : mergeUpdate stored update = .ok (record, applied)) :
    (∃ old, stored = some old ∧ record = old.merged update) ∨
      stored = none ∧ record = SessionRecord.opened update := by
  unfold mergeUpdate at h
  cases stored with
  | some old =>
      simp only [mapError_eq_ok, SessionRecord.merge, bind_eq_ok, pure_eq_ok, Prod.mk.injEq] at h
      obtain ⟨-, -, -, -, rfl, -⟩ := h
      exact .inl ⟨old, rfl, rfl⟩
  | none =>
      simp only [bind_eq_ok, invalid_eq_ok, SessionRecord.fromUpdate, pure_eq_ok, Prod.mk.injEq] at h
      obtain ⟨opened, ⟨-, -, rfl⟩, rfl, -⟩ := h
      exact .inr ⟨rfl, rfl⟩

theorem Merging.apply {before : Sessions} {keys : List SessionKey} {merge merged : Merge}
    {stale : Option Staleness} {update : SessionUpdate} (h : Merging before keys merge)
    (hkey : updateKey update ∈ keys) (happly : applyUpdate stale merge update = .ok merged) :
    Merging before keys merged := by
  simp only [applyUpdate, bind_eq_ok] at happly
  obtain ⟨refreshed, hrefresh, happly⟩ := happly
  cases refreshed with
  | none =>
      cases happly
      exact ⟨h.continues, h.kept, h.changed⟩
  | some refreshed =>
      simp only [bind_eq_ok] at happly
      obtain ⟨⟨record, applied⟩, hmerge, hmerged⟩ := happly
      cases hmerged
      have hcontinues : Continues before (updateKey update) record := by
        rcases mergeUpdate_eq_ok hmerge with ⟨old, hold, rfl⟩ | ⟨hnone, rfl⟩
        · exact (h.continues _ old hold).merged refreshed
        · refine ⟨refreshUpdate_eq_some hrefresh, fun previous hprevious => ?_⟩
          rw [h.kept _ hnone] at hprevious
          cases hprevious
      refine ⟨?_, ?_, ?_⟩
      · intro other stored hstored
        by_cases heq : updateKey update = other
        · subst heq
          rw [Table.get_insert_self] at hstored
          obtain rfl := Option.some.inj hstored
          exact hcontinues
        · rw [Table.get_insert_of_ne _ _ heq] at hstored
          exact h.continues other stored hstored
      · intro other hnone
        by_cases heq : updateKey update = other
        · rw [heq, Table.get_insert_self] at hnone
          cases hnone
        · rw [Table.get_insert_of_ne _ _ heq] at hnone
          exact h.kept other hnone
      · intro other hother
        cases applied with
        | false => exact h.changed other hother
        | true =>
            rw [if_pos rfl, Std.ExtTreeSet.mem_insert, compare_eq_iff_eq] at hother
            rcases hother with rfl | hold
            · exact hkey
            · exact h.changed other hold

/-- A merged batch: the sessions it changes are loaded as they are stored, and each continues the one
it was. -/
theorem mergeBatch_eq_ok {store : SessionStore} {updates : List SessionUpdate}
    {stale : Option Staleness} {before : Sessions} {merge : Merge}
    (hkeyed : ∀ (key : SessionKey) (record : SessionRecord),
      store.sessions[key]? = some record → recordKey record = key)
    (h : mergeBatch store updates stale = .ok (before, merge)) :
    (∀ key ∈ merge.changed, before[key]? = store.sessions[key]?) ∧
      ∀ (key : SessionKey) (record : SessionRecord),
        merge.records[key]? = some record → Continues before key record := by
  simp only [mergeBatch, bind_eq_ok, pure_eq_ok, Prod.mk.injEq] at h
  obtain ⟨-, -, -, -, -, -, loaded, hload, merged, hmerge, rfl, rfl⟩ := h
  have hloaded := loaded_eq (updates.map updateKey) ∅ (fun _ => .inl (by simp)) hload
  have hinit : Merging loaded (updates.map updateKey) ⟨loaded, ∅, []⟩ := by
    refine ⟨fun key record hrecord => ⟨?_, ?_⟩, fun key hnone => hnone, ?_⟩
    · rcases (hloaded key).1 with hnone | hsame
      · rw [hnone] at hrecord
        cases hrecord
      · exact hkeyed key record (hsame ▸ hrecord)
    · intro previous hprevious
      obtain rfl := Option.some.inj (hrecord.symm.trans hprevious)
      exact ⟨rfl, rfl⟩
    · intro key hkey
      exact absurd hkey Std.ExtTreeSet.not_mem_empty
  have hmerging : Merging loaded (updates.map updateKey) merged := by
    refine foldlM_ok_induction (Merging loaded (updates.map updateKey)) _ _ _ hmerge hinit ?_
    intro state update next hmem hstate hstep
    exact hstate.apply (List.mem_map.mpr ⟨update, hmem, rfl⟩) hstep
  exact ⟨fun key hkey => (hloaded key).2 (.inl (hmerging.changed key hkey)), hmerging.continues⟩

/-! ### Runs -/

theorem persist_balanced {store after : SessionStore} {updates : List SessionUpdate}
    {stale : Option Staleness} {outcomes : List DurableOutcome} (h : Balanced store.tables)
    (hpersist : persist store updates stale = .ok (after, outcomes)) : Balanced after.tables := by
  simp only [persist, bind_eq_ok, pure_eq_ok, Prod.mk.injEq] at hpersist
  obtain ⟨⟨before, merge⟩, hmerge, tables, hwrite, rfl, -⟩ := hpersist
  obtain ⟨hbefore, hcontinues⟩ := mergeBatch_eq_ok h.keyed hmerge
  exact (h.writes merge.changed.toList (nodup_toList_set _)
    (fun key hkey => hbefore key (Std.ExtTreeSet.mem_toList.mp hkey)) hcontinues hwrite).1

/-- The operations of the store that write sessions. -/
inductive Operation where
  | persist (updates : List SessionUpdate)
  | terminalizeStale (now : Timestamp) (age : Int)

/-- The store after a transaction: one that fails is rolled back. -/
def committed {α : Type} (store : SessionStore) :
    Except SignalStoreError (SessionStore × α) → SessionStore
  | .ok (after, _) => after
  | .error _ => store

def operate (store : SessionStore) : Operation → SessionStore
  | .persist updates => committed store (persist store updates none)
  | .terminalizeStale now age => committed store (terminalizeStaleSessions store now age)

theorem operate_balanced {store : SessionStore} (h : Balanced store.tables) (operation : Operation) :
    Balanced (operate store operation).tables := by
  cases operation with
  | persist updates =>
      rw [operate]
      cases hpersist : persist store updates none with
      | error error => exact h
      | ok result => exact persist_balanced h hpersist
  | terminalizeStale now age =>
      rw [operate]
      cases hterminalize : terminalizeStaleSessions store now age with
      | error error => exact h
      | ok result =>
          simp only [terminalizeStaleSessions, bind_eq_ok, pure_eq_ok] at hterminalize
          obtain ⟨-, -, -, -, records, -, ⟨after, outcomes⟩, hpersist, rfl⟩ := hterminalize
          exact persist_balanced h hpersist

/-- A store without sessions. -/
def SessionStore.empty (retention : SessionRetention)
    (projects : Table ProjectId ProjectAcceptanceState) : SessionStore where
  retention := retention
  projects := projects
  sessions := ∅
  stats := ∅

theorem empty_balanced (retention : SessionRetention)
    (projects : Table ProjectId ProjectAcceptanceState) :
    Balanced (SessionStore.empty retention projects).tables := by
  refine ⟨⟨?_, ?_⟩, ?_⟩
  · intro key row hrow
    simp [SessionStore.tables, SessionStore.empty] at hrow
  · intro key _ counter
    simp [SessionStore.tables, SessionStore.empty, Counter.stored]
  · intro key record hrecord
    simp [SessionStore.tables, SessionStore.empty] at hrecord

theorem run_balanced {store : SessionStore} (h : Balanced store.tables) (operations : List Operation) :
    Balanced (operations.foldl operate store).tables := by
  induction operations generalizing store with
  | nil => exact h
  | cons operation operations ih => exact ih (operate_balanced h operation)

/-- In every run of batches and terminalizations, the counters of an hour are the numbers of the
sessions stored for it, an hour without a row has no sessions, and no decrement of a further batch fails, wherever
in the batch it stands. -/
theorem release_health_equals_source (retention : SessionRetention)
    (projects : Table ProjectId ProjectAcceptanceState) (operations : List Operation) :
    let store := operations.foldl operate (SessionStore.empty retention projects)
    (∀ (key : HealthKey) (row : HealthRow), store.stats[key]? = some row →
      row.sessions = Table.countRows (fun record => record.healthKey = key) store.sessions ∧
      row.crashed = Table.countRows
        (fun record => record.healthKey = key ∧ record.state = .crashed) store.sessions ∧
      row.abnormal = Table.countRows
        (fun record => record.healthKey = key ∧ record.state = .abnormal) store.sessions ∧
      row.exited = Table.countRows
        (fun record => record.healthKey = key ∧ record.state = .exited) store.sessions) ∧
    (∀ key : HealthKey, store.stats[key]? = none →
      Table.countRows (fun record => record.healthKey = key) store.sessions = 0) ∧
    ∀ updates stale before merge, mergeBatch store updates stale = .ok (before, merge) →
      ∀ written key rest tables, merge.changed.toList = written ++ key :: rest →
        written.foldlM (writeChanged store.retention before merge.records) store.tables = .ok tables →
        ∀ previous, before[key]? = some previous →
          ∃ stats, healthDelta store.retention tables.stats previous (-1) = .ok stats := by
  intro store
  have hbalanced : Balanced store.tables := run_balanced (empty_balanced retention projects) operations
  refine ⟨fun key row hrow => ?_, fun key hnone => ?_, ?_⟩
  · have hcounts := hbalanced.books.present key row hrow
    refine ⟨?_, ?_, ?_, ?_⟩
    · simpa [SessionStore.tables, Counter.of, Counter.stored, Counter.counts] using (hcounts .sessions).1
    · simpa [SessionStore.tables, Counter.of, Counter.stored, Counter.counts] using (hcounts .crashed).1
    · simpa [SessionStore.tables, Counter.of, Counter.stored, Counter.counts] using (hcounts .abnormal).1
    · simpa [SessionStore.tables, Counter.of, Counter.stored, Counter.counts] using (hcounts .exited).1
  · have hnothing := hbalanced.books.absent key hnone .sessions
    simpa [SessionStore.tables, Counter.stored, Counter.counts] using hnothing
  · intro updates stale before merge hmerge written key rest tables hkeys hwritten previous hprevious
    obtain ⟨hbefore, hcontinues⟩ := mergeBatch_eq_ok hbalanced.keyed hmerge
    have hnodup : (written ++ key :: rest).Nodup := hkeys ▸ nodup_toList_set merge.changed
    have hloaded : ∀ other ∈ written ++ key :: rest, before[other]? = store.sessions[other]? :=
      fun other hother => hbefore other (Std.ExtTreeSet.mem_toList.mp (hkeys ▸ hother))
    obtain ⟨hnext, hkept⟩ := hbalanced.writes written (List.nodup_append.mp hnodup).1
      (fun other hother => hloaded other (List.mem_append_left _ hother)) hcontinues hwritten
    have hfresh : key ∉ written := fun hmem =>
      (List.nodup_append.mp hnodup).2.2 key hmem key (List.mem_cons_self ..) rfl
    have hstored : tables.sessions[key]? = some previous := by
      rw [hkept key hfresh]
      exact (hloaded key (by simp)).symm.trans hprevious
    exact hnext.decrement hstored

def movedUpdate (state : SessionState) (startedAt updatedAt : Timestamp) : SessionUpdate where
  id := ⟨1⟩
  projectId := ⟨42, ProjectId.positive_fortyTwo⟩
  releaseId := ⟨0x11⟩
  environmentId := ⟨0x12⟩
  startedAt := startedAt
  updatedAt := updatedAt
  state := state
  sequence := none
  durationMs := none
  userDigest := none

def activeUpdate : SessionUpdate :=
  movedUpdate .ok ⟨1700000000000, inRange_sampleStart⟩ ⟨1700000000000, inRange_sampleStart⟩

/-- The session ends with a start of an earlier hour. -/
def endedUpdate : SessionUpdate :=
  movedUpdate .exited ⟨1699990000000, by decide⟩ ⟨1700000060000, inRange_sampleMinute⟩

def activeStore : SessionStore :=
  [.persist [activeUpdate]].foldl operate (SessionStore.empty ⟨90, 400, false⟩
    ((∅ : Table ProjectId ProjectAcceptanceState).insert ⟨42, ProjectId.positive_fortyTwo⟩ .active))

theorem release_health_equals_source_moved :
    (∃ row, activeStore.stats[(SessionRecord.opened activeUpdate).healthKey]? = some row
      ∧ row.sessions = Table.countRows
        (fun record => record.healthKey = (SessionRecord.opened activeUpdate).healthKey) activeStore.sessions)
    ∧ Table.countRows (fun record => record.healthKey = (SessionRecord.opened endedUpdate).healthKey)
        activeStore.sessions = 0
    ∧ ∃ stats, healthDelta activeStore.retention activeStore.tables.stats (SessionRecord.opened activeUpdate) (-1)
        = .ok stats := by
  have h := release_health_equals_source ⟨90, 400, false⟩
    ((∅ : Table ProjectId ProjectAcceptanceState).insert ⟨42, ProjectId.positive_fortyTwo⟩ .active)
    [.persist [activeUpdate]]
  obtain ⟨hcounted, hempty, hdecrement⟩ := h
  have hrow : (activeStore.stats[(SessionRecord.opened activeUpdate).healthKey]?).isSome := by decide
  obtain ⟨row, hrow⟩ := Option.isSome_iff_exists.mp hrow
  have hmerged : ((mergeBatch activeStore [endedUpdate] none).toOption.map fun result =>
      (result.2.changed.toList, result.1[updateKey endedUpdate]?))
        = some ([updateKey endedUpdate], some (SessionRecord.opened activeUpdate)) := by
    decide
  obtain ⟨⟨before, merge⟩, hmerge, hshape⟩ := Option.map_eq_some_iff.mp hmerged
  obtain ⟨hchanged, hbefore⟩ := Prod.mk.inj hshape
  exact ⟨⟨row, hrow, (hcounted _ row hrow).1⟩, hempty _ (by decide),
    hdecrement _ _ _ _ (toOption_eq_some.mp hmerge) [] _ [] _ hchanged rfl _ hbefore⟩

end MetricBackend.PostgresSessions
