import MetricBackend.IssueAggregates
import MetricBackend.PostgresFinalization

/-! Finalization counts every Event once: in the row of its Issue, in the hour of the Issue, and in its own
row, whatever batches are offered and however often. -/

namespace MetricBackend

namespace PostgresFinalization

open Finalization

section Calls

variable {env : Environment} {policy : FinalizationPolicy} {tables : FinalizationTables}
  {batch : List FinalizeEvent} {prepared : Table EventKey Prepared} {scopes : Table ProjectId Scope}
  {pending : List Prepared}

/-! ### The Events that a call locks -/

theorem prepare_eq_ok {event : FinalizeEvent} {value : Prepared} (h : prepare env policy event = .ok value) :
    value.event = event ∧ consistent env event := by
  simp only [prepare, bind_eq_ok, failIf_eq_ok, pure_eq_ok] at h
  obtain ⟨-, hconsistent, payload, -, -, -, body, -, -, -, expire, -, -, -, rfl⟩ := h
  exact ⟨rfl, by simpa using hconsistent⟩

/-- The prepared Events are those of the batch, each under its key. -/
theorem prepareAll_spec (h : prepareAll env policy batch = .ok prepared) {key : EventKey} {value : Prepared}
    (hvalue : prepared[key]? = some value) :
    value.event.key = key ∧ value.event ∈ batch ∧ consistent env value.event := by
  refine foldlM_ok_induction (fun prepared : Table EventKey Prepared => ∀ key value, prepared[key]? = some value →
    value.event.key = key ∧ value.event ∈ batch ∧ consistent env value.event) batch ∅ prepared h (by simp) ?_ key
    value hvalue
  intro stored event next hevent hstored hnext key value hvalue
  simp only [bind_eq_ok, failIf_eq_ok, pure_eq_ok] at hnext
  obtain ⟨made, hmade, -, -, rfl⟩ := hnext
  obtain ⟨rfl, hconsistent⟩ := prepare_eq_ok hmade
  rw [Table.get_insert] at hvalue
  split_ifs at hvalue with hkey
  · cases hvalue
    exact ⟨hkey, hevent, hconsistent⟩
  · exact hstored key value hvalue

/-- A prepared Event whose row is pending. -/
structure Locked (env : Environment) (batch : List FinalizeEvent) (events : Table EventKey EventRow)
    (value : Prepared) : Prop where
  offered : value.event ∈ batch
  valid : consistent env value.event
  row : ∃ row, events[value.event.key]? = some row ∧ row.processingState = .pending
    ∧ row.projectId = value.event.projectId

theorem checkRow_eq_ok {entry : EventRow × Prepared} {value : Prepared} :
    checkRow entry = .ok value ↔ (entry.2.event.projectId = entry.1.projectId
      ∧ entry.2.event.eventId = entry.1.eventId ∧ entry.2.event.receivedAt = entry.1.receivedAt)
        ∧ value = entry.2 := by
  simp only [checkRow, bind_eq_ok, failIf_eq_ok, pure_eq_ok, not_or, not_not]
  constructor
  · rintro ⟨-, hchecked, rfl⟩
    exact ⟨hchecked, rfl⟩
  · rintro ⟨hchecked, rfl⟩
    exact ⟨(), hchecked, rfl⟩

theorem pendingRow_eq_some {entry : EventKey × Prepared} {found : EventRow × Prepared} :
    pendingRow tables scopes entry = some found ↔ ∃ row, tables.events[entry.1]? = some row
      ∧ (scopes.contains entry.2.event.projectId ∧ scopes.contains row.projectId
        ∧ row.processingState = .pending) ∧ found = (row, entry.2) := by
  simp only [pendingRow, Option.bind_eq_bind, Option.bind_eq_some_iff]
  refine exists_congr fun row => and_congr_right fun _ => ?_
  split_ifs with hcondition
  · simp [hcondition, eq_comm]
  · exact ⟨nofun, fun h => absurd h.1 hcondition⟩

theorem map_filterMap_sublist {α β κ : Type} {f : α → Option β} {g : β → κ} {k : α → κ}
    {items : List α} (hkey : ∀ item ∈ items, ∀ found, f item = some found → g found = k item) :
    ((items.filterMap f).map g).Sublist (items.map k) := by
  induction items with
  | nil => exact .slnil
  | cons item items ih =>
      rw [List.forall_mem_cons] at hkey
      replace ih := ih hkey.2
      cases hfound : f item with
      | none =>
          rw [List.filterMap_cons_none hfound, List.map_cons]
          exact ih.cons _
      | some found =>
          rw [List.filterMap_cons_some hfound, List.map_cons, List.map_cons, hkey.1 found hfound]
          exact ih.cons_cons _

theorem lockPending_spec (hprepared : prepareAll env policy batch = .ok prepared)
    (h : lockPending tables prepared scopes = .ok pending) :
    (pending.map fun value => value.event.key).Nodup ∧ ∀ value ∈ pending,
      Locked env batch tables.events value ∧ scopes.contains value.event.projectId := by
  obtain ⟨hchecked, rfl⟩ := (mapM_eq_ok_iff _ _ (fun _ _ => checkRow_eq_ok)).mp h
  have hkeys : ∀ entry ∈ prepared.toList, ∀ found, pendingRow tables scopes entry = some found →
      found.2.event.key = entry.1 := by
    intro entry hentry found hfound
    obtain ⟨row, -, -, rfl⟩ := pendingRow_eq_some.mp hfound
    exact (prepareAll_spec hprepared (Table.mem_toList.mp hentry)).1
  refine ⟨?_, ?_⟩
  · rw [List.map_map]
    exact prepared.nodup_keys_toList.sublist (map_filterMap_sublist hkeys)
  · intro value hvalue
    obtain ⟨found, hfound, rfl⟩ := List.mem_map.mp hvalue
    obtain ⟨hproject, hevent, hreceived⟩ := hchecked found hfound
    obtain ⟨entry, hentry, hpending⟩ := List.mem_filterMap.mp hfound
    have hkey := hkeys entry hentry found hpending
    obtain ⟨row, hrow, ⟨hscope, -, hstate⟩, rfl⟩ := pendingRow_eq_some.mp hpending
    obtain ⟨-, hoffered, hvalid⟩ := prepareAll_spec hprepared (Table.mem_toList.mp hentry)
    exact ⟨⟨hoffered, hvalid, row, by rw [hkey]; exact hrow, hstate, hproject.symm⟩, hscope⟩

/-! ### Issues and hours -/

theorem applyBatch_count {blake3 : List (BitVec 8) → BitVec 256} {compress : PostgresIssues.Compressor}
    {codec : PostgresIssues.IssueCodecConfig} {stored : Option PostgresIssues.IssueRow}
    {occurrences : List IssueOccurrence} {written : PostgresIssues.Written IssueMutationResult}
    (h : PostgresIssues.applyBatch blake3 compress codec stored occurrences = .ok written) :
    written.row.issue.occurrenceCount.get =
      (stored.map (·.issue.occurrenceCount.get)).getD 0 + Issues.incrementSum occurrences := by
  obtain ⟨batch, body, hadmitted, hwritten⟩ := PostgresIssues.applyBatch_eq_ok.mp h
  rw [hadmitted.selected.increment]
  cases stored with
  | none =>
      obtain ⟨count, hcount, rfl⟩ := (PostgresIssues.createIssue_eq_ok hadmitted).mp hwritten
      rw [Option.map_none, Option.getD_none, Nat.zero_add]
      exact hcount
  | some row =>
      obtain ⟨-, -, next, hnext, rfl⟩ := PostgresIssues.updateIssue_eq_ok.mp hwritten
      obtain ⟨count, hcount, hmerged⟩ := PostgresIssues.aggregates_updated hnext
      have htotal : (PostgresIssues.merged batch count row.issue).occurrenceCount = count := by
        rw [PostgresIssues.merged, PostgresIssues.withLatest, PostgresIssues.withFirst]
        split_ifs <;> rfl
      have hnextCount : next.occurrenceCount.get =
          (PostgresIssues.merged batch count row.issue).occurrenceCount.get :=
        congrArg PostgresIssues.IssueAggregates.occurrenceCount hmerged
      rw [htotal, hcount] at hnextCount
      exact hnextCount

/-- What the Issue rows count. -/
def issueCount (issues : Table IssueRef PostgresIssues.IssueRow) (ref : IssueRef) : Nat :=
  (issues[ref]?.map (·.issue.occurrenceCount.get)).getD 0

/-- What the hourly rows count. -/
def hourCount (hourly : Table HourRef HourlyRow) (ref : HourRef) : Nat :=
  (hourly[ref]?.map (·.occurrenceCount)).getD 0

theorem applyIssue_eq_ok {issues next : Table IssueRef PostgresIssues.IssueRow}
    {group : IssueRef × List IssueOccurrence} : applyIssue env issues group = .ok next ↔
      ∃ row, ((PostgresIssues.applyBatch env.blake3 env.compress env.issueCodec issues[group.1]? group.2).mapError
        issueError).map (·.row) = .ok row ∧ next = issues.insert group.1 row := by
  simp only [applyIssue, bind_eq_ok, pure_eq_ok]
  constructor
  · rintro ⟨written, hwritten, rfl⟩
    exact ⟨written.row, map_eq_ok.mpr ⟨written, hwritten, rfl⟩, rfl⟩
  · rintro ⟨row, hrow, rfl⟩
    obtain ⟨written, hwritten, rfl⟩ := map_eq_ok.mp hrow
    exact ⟨written, hwritten, rfl⟩

theorem incrementSum_ones {occurrences : List IssueOccurrence}
    (hone : ∀ occurrence ∈ occurrences, occurrence.increment.get = 1) :
    Issues.incrementSum occurrences = occurrences.length := by
  rw [Issues.incrementSum, List.map_congr_left hone, List.map_const', List.sum_replicate, smul_eq_mul, mul_one]

/-- Every pending Event counts once in the row of its Issue. -/
theorem applyIssues_count {issues next : Table IssueRef PostgresIssues.IssueRow}
    (h : applyIssues env issues pending = .ok next)
    (hone : ∀ value ∈ pending, value.event.issue.increment.get = 1) (ref : IssueRef) :
    issueCount next ref = issueCount issues ref + (pending.filter (issueRef · = ref)).length := by
  obtain ⟨hkept, hchanged⟩ := get_foldlM_groups (fun _ occurrences stored =>
    ((PostgresIssues.applyBatch env.blake3 env.compress env.issueCodec stored occurrences).mapError issueError).map
      (·.row)) (fun _ _ _ => applyIssue_eq_ok) h ref
  have hgroup := Table.get_groupFold_append issueRef (fun value => value.event.issue) pending ref
    (fun value => issueRef value = ref) (fun _ => decide_eq_true_iff)
  rw [← occurrenceGroups] at hgroup
  split_ifs at hgroup with hempty
  · rw [issueCount, hkept hgroup, hempty, issueCount]
    rfl
  · obtain ⟨row, hrow, hget⟩ := hchanged _ hgroup
    obtain ⟨written, hwritten, rfl⟩ := map_eq_ok.mp hrow
    have hcount := applyBatch_count (mapError_eq_ok.mp hwritten)
    rw [incrementSum_ones, List.length_map] at hcount
    · rw [issueCount, hget, issueCount]
      exact hcount
    · intro occurrence hoccurrence
      obtain ⟨value, hvalue, rfl⟩ := List.mem_map.mp hoccurrence
      exact hone value (List.mem_filter.mp hvalue).1

/-- What the statement of `update_hourly` makes of a row. -/
def hourChange (env : Environment) (policy : FinalizationPolicy) (ref : HourRef) (count : Nat)
    (stored : Option HourlyRow) : Except FinalizationStoreError HourlyRow := do
  let id := deriveHourBucketId env.blake3 (ofLex ref).1 (ofLex (ofLex ref).2).1 (ofLex (ofLex ref).2).2
  let expire ← addDuration (ofLex (ofLex ref).2).2 policy.hourlyRetention
  match stored with
  | none => return ⟨id, count, expire⟩
  | some row =>
      failIf (row.bucketId ≠ id) .identityCollision
      failIf (i64Max < row.occurrenceCount + count) .invalidData
      return { row with occurrenceCount := row.occurrenceCount + count }

theorem updateHour_eq_ok {hourly next : Table HourRef HourlyRow} {group : HourRef × Nat} :
    updateHour env policy hourly group = .ok next ↔ ∃ row,
      hourChange env policy group.1 group.2 hourly[group.1]? = .ok row ∧ next = hourly.insert group.1 row := by
  simp only [updateHour, hourChange, bind_eq_ok]
  cases hourly[group.1]? with
  | none =>
      simp only [pure_eq_ok]
      constructor
      · rintro ⟨expire, hexpire, rfl⟩
        exact ⟨_, ⟨expire, hexpire, rfl⟩, rfl⟩
      · rintro ⟨row, ⟨expire, hexpire, rfl⟩, rfl⟩
        exact ⟨expire, hexpire, rfl⟩
  | some row =>
      simp only [bind_eq_ok, failIf_eq_ok, pure_eq_ok]
      constructor
      · rintro ⟨expire, hexpire, -, hid, -, hbound, rfl⟩
        exact ⟨_, ⟨expire, hexpire, (), hid, (), hbound, rfl⟩, rfl⟩
      · rintro ⟨made, ⟨expire, hexpire, -, hid, -, hbound, rfl⟩, rfl⟩
        exact ⟨expire, hexpire, (), hid, (), hbound, rfl⟩

theorem hourChange_count {ref : HourRef} {count : Nat} {stored : Option HourlyRow} {row : HourlyRow}
    (h : hourChange env policy ref count stored = .ok row) :
    row.occurrenceCount = (stored.map (·.occurrenceCount)).getD 0 + count := by
  cases stored with
  | none =>
      simp only [hourChange, bind_eq_ok, pure_eq_ok] at h
      obtain ⟨expire, -, rfl⟩ := h
      exact (Nat.zero_add count).symm
  | some old =>
      simp only [hourChange, bind_eq_ok, failIf_eq_ok, pure_eq_ok] at h
      obtain ⟨expire, -, -, -, -, -, rfl⟩ := h
      rfl

/-- Every pending Event counts once in its hour. -/
theorem updateHourly_count {hourly next : Table HourRef HourlyRow}
    (h : updateHourly env policy hourly pending = .ok next) (ref : HourRef) :
    hourCount next ref = hourCount hourly ref + (pending.filter (hourRef · = ref)).length := by
  obtain ⟨hkept, hchanged⟩ := get_foldlM_groups (hourChange env policy) (fun _ _ _ => updateHour_eq_ok) h ref
  have hgroup := Table.get_groupFold_count hourRef pending ref (fun value => hourRef value = ref)
    (fun _ => decide_eq_true_iff)
  rw [← hourGroups] at hgroup
  split_ifs at hgroup with hempty
  · rw [hourCount, hkept hgroup, hempty, hourCount]
    rfl
  · obtain ⟨row, hrow, hget⟩ := hchanged _ hgroup
    rw [hourCount, hget, hourCount]
    exact hourChange_count hrow

/-! ### Rows -/

/-- The row is that of a finalized Event of the Issue. -/
def finalizedIn (ref : IssueRef) (row : EventRow) : Bool :=
  row.processingState = .finalized ∧ row.columns.any fun columns => toLex (row.projectId, columns.issueId) = ref

/-- The row is that of a finalized Event of the Issue in the hour. -/
def finalizedAt (ref : HourRef) (row : EventRow) : Bool :=
  row.processingState = .finalized
    ∧ row.columns.any fun columns =>
      toLex (row.projectId, toLex (columns.issueId, hourStart columns.occurredAt)) = ref

/-- The keys are distinct and stand for pending rows of their projects. -/
structure AllPending (events : Table EventKey EventRow) (pending : List Prepared) : Prop where
  nodup : (pending.map fun value => value.event.key).Nodup
  rows : ∀ value ∈ pending, ∃ row, events[value.event.key]? = some row ∧ row.processingState = .pending
    ∧ row.projectId = value.event.projectId

theorem AllPending.tail {events : Table EventKey EventRow} {value : Prepared} {row : EventRow}
    (h : AllPending events (value :: pending)) : AllPending (events.insert value.event.key row) pending := by
  have hnodup := h.nodup
  rw [List.map_cons, List.nodup_cons] at hnodup
  refine ⟨hnodup.2, fun other hother => ?_⟩
  obtain ⟨stored, hstored, hpending⟩ := h.rows other (List.mem_cons_of_mem _ hother)
  have hne : value.event.key ≠ other.event.key :=
    fun heq => hnodup.1 (List.mem_map.mpr ⟨other, hother, heq.symm⟩)
  refine ⟨stored, ?_, hpending⟩
  rw [Table.get_insert_of_ne _ _ hne]
  exact hstored

theorem finalizeRows_cons {events : Table EventKey EventRow} {value : Prepared} {row : EventRow}
    (hrow : events[value.event.key]? = some row) (hpending : row.processingState = .pending) :
    finalizeRows env scopes policy events (value :: pending) =
      finalizeRows env scopes policy (events.insert value.event.key
        (finalizedRow (finalizedColumns env scopes policy value) value.body row)) pending := by
  simp only [finalizeRows, List.foldl_cons, hrow, hpending, if_true]

/-- The rows that are not pending, or whose Event is not of the batch, stay. -/
theorem finalizeRows_kept {events : Table EventKey EventRow} (h : AllPending events pending) {key : EventKey}
    {row : EventRow} (hrow : events[key]? = some row) (hstate : row.processingState ≠ .pending) :
    (finalizeRows env scopes policy events pending)[key]? = some row := by
  induction pending generalizing events with
  | nil => exact hrow
  | cons value pending ih =>
      obtain ⟨stored, hstored, hpending, -⟩ := h.rows value List.mem_cons_self
      rw [finalizeRows_cons hstored hpending]
      refine ih h.tail ?_
      rw [Table.get_insert_of_ne]
      · exact hrow
      · rintro rfl
        rw [hrow] at hstored
        cases hstored
        exact hstate hpending

/-- Every row that is there after the call was there before, and it changed only from pending to finalized. -/
theorem finalizeRows_from {events : Table EventKey EventRow} (h : AllPending events pending) {key : EventKey}
    {row : EventRow} (hrow : (finalizeRows env scopes policy events pending)[key]? = some row) :
    ∃ old, events[key]? = some old ∧ row.key = old.key
      ∧ (row = old ∨ old.processingState = .pending ∧ row.processingState = .finalized) := by
  induction pending generalizing events with
  | nil => exact ⟨row, hrow, rfl, .inl rfl⟩
  | cons value pending ih =>
      obtain ⟨stored, hstored, hpending, -⟩ := h.rows value List.mem_cons_self
      rw [finalizeRows_cons hstored hpending] at hrow
      obtain ⟨old, hold, hkey, hchange⟩ := ih h.tail hrow
      rw [Table.get_insert] at hold
      split_ifs at hold with heq
      · cases hold
        refine ⟨stored, heq ▸ hstored, hkey, .inr ⟨hpending, ?_⟩⟩
        rcases hchange with rfl | ⟨hstate, -⟩
        · rfl
        · cases hstate
      · exact ⟨old, hold, hkey, hchange⟩

/-- Every pending Event counts once in the rows. -/
theorem finalizeRows_count {events : Table EventKey EventRow} (h : AllPending events pending)
    {property : EventRow → Bool} {counts : Prepared → Bool}
    (hfinal : ∀ row, property row → row.processingState = .finalized)
    (hcounts : ∀ value row, row.projectId = value.event.projectId →
      property (finalizedRow (finalizedColumns env scopes policy value) value.body row) = counts value) :
    (finalizeRows env scopes policy events pending).countRows property =
      events.countRows property + (pending.filter counts).length := by
  induction pending generalizing events with
  | nil => rfl
  | cons value pending ih =>
      obtain ⟨stored, hstored, hpending, hproject⟩ := h.rows value List.mem_cons_self
      have hold : property stored = false := by
        by_contra htrue
        have hstate := hfinal stored (by simpa using htrue)
        rw [hpending] at hstate
        cases hstate
      have hinsert := Table.countRows_insert events value.event.key
        (finalizedRow (finalizedColumns env scopes policy value) value.body stored) property
      rw [hstored, Option.elim_some, hold, hcounts value stored hproject] at hinsert
      rw [finalizeRows_cons hstored hpending, ih h.tail, List.filter_cons]
      cases hvalue : counts value <;> simp [hvalue] at hinsert ⊢ <;> omega

/-! ### One call -/

/-- A call that finds pending Events and commits the tables `next`. -/
structure Committed (env : Environment) (policy : FinalizationPolicy) (tables : FinalizationTables)
    (batch : List FinalizeEvent) (prepared : Table EventKey Prepared) (pending : List Prepared)
    (next : FinalizationTables) : Prop where
  validated : validatePolicy policy = .ok ()
  offers : prepareAll env policy batch = .ok prepared
  locked : lockPending tables prepared (loadScopes tables prepared) = .ok pending
  finalized : finalizePending env policy tables (loadScopes tables prepared) pending = .ok next

/-- What a call that returns has done. -/
theorem finalizeInner_eq_ok {result : FinalizeResult} {next : FinalizationTables}
    (h : finalizeInner env policy tables batch = .ok (result, next)) :
    ∃ prepared pending, prepareAll env policy batch = .ok prepared
      ∧ lockPending tables prepared (loadScopes tables prepared) = .ok pending
      ∧ result = ⟨batch.length, pending.length, pending.length, batch.length - pending.length⟩
      ∧ (pending = [] ∧ next = tables ∨ Committed env policy tables batch prepared pending next) := by
  simp only [finalizeInner, bind_eq_ok] at h
  obtain ⟨⟨⟩, hpolicy, -, -, prepared, hprepared, pending, hpending, h⟩ := h
  refine ⟨prepared, pending, hprepared, hpending, ?_⟩
  split_ifs at h with hempty
  · cases pure_eq_ok.mp h
    obtain rfl : pending = [] := by simpa using hempty
    exact ⟨rfl, .inl ⟨rfl, rfl⟩⟩
  · obtain ⟨made, hmade, h⟩ := bind_eq_ok.mp h
    cases pure_eq_ok.mp h
    exact ⟨rfl, .inr ⟨hpolicy, hprepared, hpending, hmade⟩⟩

theorem finalizePending_eq_ok {next : FinalizationTables}
    (h : finalizePending env policy tables scopes pending = .ok next) :
    applyIssues env tables.issues pending = .ok next.issues
      ∧ updateHourly env policy tables.hourly pending = .ok next.hourly
      ∧ next.events = finalizeRows env scopes policy tables.events pending := by
  simp only [finalizePending, bind_eq_ok, failIf_eq_ok, pure_eq_ok] at h
  obtain ⟨issues, hissues, hourly, hhourly, released, -, catalog, -, -, -, rfl⟩ := h
  exact ⟨hissues, hhourly, rfl⟩

section Committed

variable {next : FinalizationTables} (h : Committed env policy tables batch prepared pending next)
include h

theorem Committed.allPending : AllPending tables.events pending := by
  obtain ⟨hnodup, hlocked⟩ := lockPending_spec h.offers h.locked
  exact ⟨hnodup, fun value hvalue => (hlocked value hvalue).1.row⟩

theorem Committed.offered {value : Prepared} (hvalue : value ∈ pending) : value.event ∈ batch :=
  ((lockPending_spec h.offers h.locked).2 value hvalue).1.offered

end Committed

/-- The tables count what is finalized. -/
structure Counted (tables : FinalizationTables) : Prop where
  issues : ∀ ref, issueCount tables.issues ref = tables.events.countRows (finalizedIn ref)
  hours : ∀ ref, hourCount tables.hourly ref = tables.events.countRows (finalizedAt ref)

theorem Counted.finalizePending {next : FinalizationTables} (h : Counted tables)
    (hpending : AllPending tables.events pending)
    (hone : ∀ value ∈ pending, value.event.issue.increment.get = 1)
    (hnext : finalizePending env policy tables scopes pending = .ok next) : Counted next := by
  obtain ⟨hissues, hhourly, hevents⟩ := finalizePending_eq_ok hnext
  refine ⟨fun ref => ?_, fun ref => ?_⟩
  · rw [applyIssues_count hissues hone ref, h.issues ref, hevents]
    refine (finalizeRows_count hpending ?_ ?_).symm
    · intro row hrow
      simp only [finalizedIn, decide_eq_true_eq] at hrow
      exact hrow.1
    · intro value row hproject
      rw [Bool.eq_iff_iff, decide_eq_true_iff]
      simp [finalizedIn, finalizedRow, finalizedColumns, issueRef, hproject]
  · rw [updateHourly_count hhourly ref, h.hours ref, hevents]
    refine (finalizeRows_count hpending ?_ ?_).symm
    · intro row hrow
      simp only [finalizedAt, decide_eq_true_eq] at hrow
      exact hrow.1
    · intro value row hproject
      rw [Bool.eq_iff_iff, decide_eq_true_iff]
      simp [finalizedAt, finalizedRow, finalizedColumns, hourRef, hproject]

end Calls

/-! ### Every run -/

/-- How a call ends: after its commit, whether or not the caller learns of it, or before. -/
inductive CallEnding where
  | committed (acknowledged : Bool)
  | aborted
deriving DecidableEq, Repr

/-- A call of `finalize_inner`, or what others do to Events and projects: an Event is accepted, a failure is
recorded, a project changes. -/
inductive FinalizationStep where
  | finalize (policy : FinalizationPolicy) (batch : List FinalizeEvent) (ending : CallEnding)
  | accept (row : EventRow)
  | fail (failure : ProcessingFailure)
  | project (projectId : ProjectId) (row : ProjectRow)

def FinalizationStep.batch : FinalizationStep → List FinalizeEvent
  | .finalize _ batch _ => batch
  | _ => []

/-- The row of an accepted Event, unless there is one. -/
def acceptEvent (events : Table EventKey EventRow) (row : EventRow) : Table EventKey EventRow :=
  if events.contains row.key then events
  else events.insert row.key { row with processingState := .pending, columns := none }

def failEvent (events : Table EventKey EventRow) (failure : ProcessingFailure) : Table EventKey EventRow :=
  match events[failure.key]? with
  | none => events
  | some row =>
      match PostgresEvents.recordProcessingFailure row failure with
      | .ok (_, next) => events.insert failure.key next
      | .error _ => events

def executeStep (env : Environment) (tables : FinalizationTables) : FinalizationStep → FinalizationTables
  | .finalize policy batch ending =>
      match finalizeInner env policy tables batch, ending with
      | .ok (_, next), .committed _ => next
      | _, _ => tables
  | .accept row => { tables with events := acceptEvent tables.events row }
  | .fail failure => { tables with events := failEvent tables.events failure }
  | .project projectId row => { tables with projects := tables.projects.insert projectId row }

/-- The checks of `finalize_inner` before its transaction, and what they prepare. -/
def prepareBatch (env : Environment) (policy : FinalizationPolicy) (batch : List FinalizeEvent) :
    Except FinalizationStoreError (Table EventKey Prepared) := do
  validatePolicy policy
  failIf (batch.length < 1 ∨ maxBatch < batch.length) .invalidData
  prepareAll env policy batch

/-- What a caller of `finalize_inner` learns: a batch that is not prepared is refused before the store is reached. -/
def answer (env : Environment) (policy : FinalizationPolicy) (tables : FinalizationTables)
    (batch : List FinalizeEvent) : CallEnding → Except FinalizationStoreError FinalizeResult
  | .committed true => (finalizeInner env policy tables batch).map Prod.fst
  | .committed false => (finalizeInner env policy tables batch).bind fun _ => .error .unavailable
  | .aborted => (prepareBatch env policy batch).bind fun _ => .error .unavailable

section Runs

variable {env : Environment} {tables : FinalizationTables}

theorem acceptEvent_get {events : Table EventKey EventRow} {accepted row : EventRow} {key : EventKey}
    (hrow : (acceptEvent events accepted)[key]? = some row) :
    events[key]? = some row ∨ row.processingState = .pending := by
  rw [acceptEvent] at hrow
  split_ifs at hrow
  · exact .inl hrow
  · rw [Table.get_insert] at hrow
    split_ifs at hrow
    · cases hrow
      exact .inr rfl
    · exact .inl hrow

theorem acceptEvent_kept {events : Table EventKey EventRow} {accepted row : EventRow} {key : EventKey}
    (hrow : events[key]? = some row) : (acceptEvent events accepted)[key]? = some row := by
  rw [acceptEvent]
  split_ifs with hcontains
  · exact hrow
  · rw [Table.get_insert_of_ne]
    · exact hrow
    · rintro rfl
      rw [Std.ExtTreeMap.contains_eq_isSome_getElem?, hrow] at hcontains
      exact hcontains rfl

/-- A failure is written over a pending row, which stays pending or fails for good. -/
theorem failEvent_cases (events : Table EventKey EventRow) (failure : ProcessingFailure) :
    failEvent events failure = events
      ∨ ∃ row, events[failure.key]? = some row ∧ row.processingState = .pending
        ∧ failEvent events failure = events.insert failure.key (PostgresEvents.failed row failure)
        ∧ (PostgresEvents.failed row failure).processingState ≠ .finalized := by
  rw [failEvent]
  cases hrow : events[failure.key]? with
  | none => exact .inl rfl
  | some row =>
      dsimp only
      cases hrecord : PostgresEvents.recordProcessingFailure row failure with
      | error error => exact .inl rfl
      | ok result =>
          obtain ⟨-, -, rfl⟩ := PostgresEvents.recordProcessingFailure_eq_ok.mp hrecord
          split_ifs with hcondition
          · refine .inr ⟨row, rfl, hcondition.2.1, rfl, ?_⟩
            rw [PostgresEvents.failed]
            split
            · rw [hcondition.2.1]
              nofun
            · nofun
          · exact .inl (Table.insert_get_self hrow)

theorem failEvent_kept {events : Table EventKey EventRow} {failure : ProcessingFailure} {row : EventRow}
    {key : EventKey} (hrow : events[key]? = some row) (hstate : row.processingState = .finalized) :
    (failEvent events failure)[key]? = some row := by
  obtain heq | ⟨old, hold, hpending, heq, -⟩ := failEvent_cases events failure
  · rw [heq]
    exact hrow
  · rw [heq, Table.get_insert_of_ne]
    · exact hrow
    · rintro rfl
      rw [hrow] at hold
      cases hold
      rw [hstate] at hpending
      cases hpending

theorem failEvent_get {events : Table EventKey EventRow} {failure : ProcessingFailure} {row : EventRow}
    {key : EventKey} (hrow : (failEvent events failure)[key]? = some row)
    (hstate : row.processingState = .finalized) : events[key]? = some row := by
  obtain heq | ⟨old, hold, hpending, heq, hfailed⟩ := failEvent_cases events failure
  · rwa [heq] at hrow
  · rw [heq, Table.get_insert] at hrow
    split_ifs at hrow
    · cases hrow
      exact absurd hstate hfailed
    · exact hrow

/-- What only looks at finalized rows counts the same after an Event is accepted or fails. -/
theorem countRows_kept {property : EventRow → Bool} (hfinal : ∀ row, property row → row.processingState = .finalized)
    (events : Table EventKey EventRow) :
    (∀ row, (acceptEvent events row).countRows property = events.countRows property)
    ∧ ∀ failure, (failEvent events failure).countRows property = events.countRows property := by
  have hfalse : ∀ row : EventRow, row.processingState ≠ .finalized → property row = false := by
    intro row hrow
    by_contra htrue
    exact hrow (hfinal row (by simpa using htrue))
  refine ⟨fun row => ?_, fun failure => ?_⟩
  · rw [acceptEvent]
    split_ifs with hcontains
    · rfl
    · refine Table.countRows_insert_of_eq ?_
      rw [Std.ExtTreeMap.contains_eq_isSome_getElem?, Bool.not_eq_true, Option.isSome_eq_false_iff,
        Option.isNone_iff_eq_none] at hcontains
      rw [hcontains]
      exact hfalse _ (by simp)
  · obtain heq | ⟨old, hold, hpending, heq, hfailed⟩ := failEvent_cases events failure
    · rw [heq]
    · rw [heq]
      refine Table.countRows_insert_of_eq ?_
      rw [hold, hfalse _ hfailed]
      exact (hfalse old (by rw [hpending]; nofun)).symm

theorem finalizedIn_final (ref : IssueRef) (row : EventRow) (h : finalizedIn ref row) :
    row.processingState = .finalized := by
  simp only [finalizedIn, decide_eq_true_eq] at h
  exact h.1

theorem finalizedAt_final (ref : HourRef) (row : EventRow) (h : finalizedAt ref row) :
    row.processingState = .finalized := by
  simp only [finalizedAt, decide_eq_true_eq] at h
  exact h.1

theorem executeStep_failed {policy : FinalizationPolicy} {batch : List FinalizeEvent} {ending : CallEnding}
    (h : (∃ error, finalizeInner env policy tables batch = .error error) ∨ ending = .aborted) :
    executeStep env tables (.finalize policy batch ending) = tables := by
  obtain ⟨error, herror⟩ | rfl := h
  · simp only [executeStep, herror]
  · cases hcall : finalizeInner env policy tables batch <;> simp only [executeStep, hcall]

/-- The two ways a step can go: the call of `finalize_inner` commits, or its tables are as they were. -/
theorem executeStep_finalize (env : Environment) (tables : FinalizationTables) (policy : FinalizationPolicy)
    (batch : List FinalizeEvent) (ending : CallEnding) :
    executeStep env tables (.finalize policy batch ending) = tables
      ∨ ending ≠ .aborted ∧ ∃ prepared pending next, Committed env policy tables batch prepared pending next
        ∧ executeStep env tables (.finalize policy batch ending) = next := by
  cases ending with
  | aborted => exact .inl (executeStep_failed (.inr rfl))
  | committed acknowledged =>
      cases hcall : finalizeInner env policy tables batch with
      | error error => exact .inl (executeStep_failed (.inl ⟨error, hcall⟩))
      | ok value =>
          obtain ⟨result, next⟩ := value
          have hstep : executeStep env tables (.finalize policy batch (.committed acknowledged)) = next := by
            simp only [executeStep, hcall]
          obtain ⟨prepared, pending, -, -, -, ⟨-, rfl⟩ | hcommitted⟩ := finalizeInner_eq_ok hcall
          · exact .inl hstep
          · exact .inr ⟨nofun, prepared, pending, next, hcommitted, hstep⟩

theorem Counted.step (h : Counted tables) {step : FinalizationStep}
    (hone : ∀ event ∈ step.batch, event.issue.increment.get = 1) : Counted (executeStep env tables step) := by
  cases step with
  | finalize policy batch ending =>
      obtain heq | ⟨-, prepared, pending, next, hcommitted, heq⟩ := executeStep_finalize env tables policy batch
        ending
      · rw [heq]
        exact h
      · rw [heq]
        exact h.finalizePending hcommitted.allPending (fun value hvalue => hone _ (hcommitted.offered hvalue))
          hcommitted.finalized
  | accept row =>
      refine ⟨fun ref => ?_, fun ref => ?_⟩
      · rw [executeStep, (countRows_kept (finalizedIn_final ref) tables.events).1]
        exact h.issues ref
      · rw [executeStep, (countRows_kept (finalizedAt_final ref) tables.events).1]
        exact h.hours ref
  | fail failure =>
      refine ⟨fun ref => ?_, fun ref => ?_⟩
      · rw [executeStep, (countRows_kept (finalizedIn_final ref) tables.events).2]
        exact h.issues ref
      · rw [executeStep, (countRows_kept (finalizedAt_final ref) tables.events).2]
        exact h.hours ref
  | project projectId row => exact ⟨h.issues, h.hours⟩

theorem Counted.run (h : Counted tables) {steps : List FinalizationStep}
    (hone : ∀ step ∈ steps, ∀ event ∈ step.batch, event.issue.increment.get = 1) :
    Counted (steps.foldl (executeStep env) tables) := by
  induction steps generalizing tables with
  | nil => exact h
  | cons step steps ih =>
      rw [List.forall_mem_cons] at hone
      exact ih (h.step hone.1) hone.2

/-- A finalized row stays as it is. -/
theorem executeStep_kept {step : FinalizationStep} {key : EventKey} {row : EventRow}
    (hrow : tables.events[key]? = some row) (hstate : row.processingState = .finalized) :
    (executeStep env tables step).events[key]? = some row := by
  cases step with
  | finalize policy batch ending =>
      obtain heq | ⟨-, prepared, pending, next, hcommitted, heq⟩ := executeStep_finalize env tables policy batch
        ending
      · rw [heq]
        exact hrow
      · rw [heq, (finalizePending_eq_ok hcommitted.finalized).2.2]
        exact finalizeRows_kept hcommitted.allPending hrow (by rw [hstate]; nofun)
  | accept accepted => exact acceptEvent_kept hrow
  | fail failure => exact failEvent_kept hrow hstate
  | project projectId row => exact hrow

/-- A row that is finalized was so before, or was pending. -/
theorem executeStep_from {step : FinalizationStep} {key : EventKey} {row : EventRow}
    (hrow : (executeStep env tables step).events[key]? = some row) (hstate : row.processingState = .finalized) :
    ∃ old, tables.events[key]? = some old ∧ (old = row ∨ old.processingState = .pending) := by
  cases step with
  | finalize policy batch ending =>
      obtain heq | ⟨-, prepared, pending, next, hcommitted, heq⟩ := executeStep_finalize env tables policy batch
        ending
      · rw [heq] at hrow
        exact ⟨row, hrow, .inl rfl⟩
      · rw [heq, (finalizePending_eq_ok hcommitted.finalized).2.2] at hrow
        obtain ⟨old, hold, -, rfl | ⟨hpending, -⟩⟩ := finalizeRows_from hcommitted.allPending hrow
        · exact ⟨row, hold, .inl rfl⟩
        · exact ⟨old, hold, .inr hpending⟩
  | accept accepted =>
      obtain hold | hpending := acceptEvent_get hrow
      · exact ⟨row, hold, .inl rfl⟩
      · rw [hstate] at hpending
        cases hpending
  | fail failure => exact ⟨row, failEvent_get hrow hstate, .inl rfl⟩
  | project projectId changed => exact ⟨row, hrow, .inl rfl⟩

/-- The numbers of an answer add up. -/
theorem answer_total {policy : FinalizationPolicy} {batch : List FinalizeEvent} {ending : CallEnding}
    {result : FinalizeResult} (h : answer env policy tables batch ending = .ok result) :
    result.requested = result.finalized + result.skippedCompleted := by
  have hcall : ∃ next, finalizeInner env policy tables batch = .ok (result, next) := by
    match ending, h with
    | .committed true, h =>
        obtain ⟨⟨made, next⟩, hmade, rfl⟩ := map_eq_ok.mp h
        exact ⟨next, hmade⟩
    | .committed false, h =>
        obtain ⟨-, -, hnever⟩ := bind_eq_ok.mp h
        cases hnever
    | .aborted, h =>
        obtain ⟨-, -, hnever⟩ := bind_eq_ok.mp h
        cases hnever
  obtain ⟨next, hcall⟩ := hcall
  obtain ⟨prepared, pending, hprepared, hlocked, rfl, -⟩ := finalizeInner_eq_ok hcall
  obtain ⟨hnodup, hspec⟩ := lockPending_spec hprepared hlocked
  have hsubset : (pending.map fun value => value.event.key) ⊆ batch.map FinalizeEvent.key := by
    intro key hkey
    obtain ⟨value, hvalue, rfl⟩ := List.mem_map.mp hkey
    exact List.mem_map_of_mem (hspec value hvalue).1.offered
  have hlength := (hnodup.subperm hsubset).length_le
  rw [List.length_map, List.length_map] at hlength
  exact (Nat.add_sub_of_le hlength).symm

end Runs

/-- Finalization counts each Event exactly once, over every run that starts before the first one. -/
theorem events_counted_once (env : Environment) (tables : FinalizationTables)
    (hevents : ∀ (key : EventKey) (row : EventRow), tables.events[key]? = some row → row.processingState ≠ .finalized)
    (hissues : ∀ ref : IssueRef, tables.issues[ref]? = none) (hhourly : ∀ ref : HourRef, tables.hourly[ref]? = none)
    (steps : List FinalizationStep)
    (hone : ∀ step ∈ steps, ∀ event ∈ step.batch, event.issue.increment.get = 1) :
    let final := steps.foldl (executeStep env) tables
    (∀ ref, issueCount final.issues ref = final.events.countRows (finalizedIn ref))
    ∧ (∀ ref, hourCount final.hourly ref = final.events.countRows (finalizedAt ref))
    ∧ (∀ step (key : EventKey) (row : EventRow), final.events[key]? = some row → row.processingState = .finalized →
      (executeStep env final step).events[key]? = some row)
    ∧ (∀ step (key : EventKey) (row : EventRow), (executeStep env final step).events[key]? = some row →
      row.processingState = .finalized →
        ∃ old : EventRow, final.events[key]? = some old ∧ (old = row ∨ old.processingState = .pending))
    ∧ (∀ policy batch ending, (∃ error, finalizeInner env policy final batch = .error error) ∨ ending = .aborted →
      executeStep env final (.finalize policy batch ending) = final)
    ∧ ∀ policy batch ending result, answer env policy final batch ending = .ok result →
      result.requested = result.finalized + result.skippedCompleted := by
  have hzero : ∀ {property : EventRow → Bool}, (∀ row, property row → row.processingState = .finalized) →
      tables.events.countRows property = 0 := by
    intro property hfinal
    refine Table.countRows_eq_zero fun key row hrow => ?_
    by_contra htrue
    exact hevents key row hrow (hfinal row (by simpa using htrue))
  have hinit : Counted tables := by
    refine ⟨fun ref => ?_, fun ref => ?_⟩
    · rw [hzero (finalizedIn_final ref), issueCount, hissues ref]
      rfl
    · rw [hzero (finalizedAt_final ref), hourCount, hhourly ref]
      rfl
  have hcounted : Counted (steps.foldl (executeStep env) tables) := hinit.run hone
  refine ⟨hcounted.issues, hcounted.hours, fun step key row hrow hstate => executeStep_kept hrow hstate,
    fun step key row hrow hstate => executeStep_from hrow hstate, fun policy batch ending => executeStep_failed,
    fun policy batch ending result => answer_total⟩

/-! ### One Event, offered twice -/

/-- The digests of the identities of the Events below: their Issue and its transition, their releases and
environment, and the hours of two days. -/
def quotaDigests (input : List (BitVec 8)) : BitVec 256 :=
  if input[3]? = some 11 then PostgresIssues.quotaDigest
  else if input[7]? = some 21 then 0xe4e012aa920c637925f3bd01464971721c4395f4a62d0a2b5d7741c1b3a8d14f
  else if input[7]? = some 17 then 0xa6930d7d985efbe766a789300bcd4fd44ef22fcc29af34a5d12742aa9c9a6e64
  else if input[45]? = some 97 then 0xfe96cc366073f7be93efa64e1b3d77b490eb9274b1233b499ac1c9532e601bde
  else if input[45]? = some 98 then 0x16abbc2142c15325e10d3137e61573aa6584e17879b7cb08fcbb4f06069ba9e9
  else if input[45]? = some 99 then 0xfbe79f838550546f2c715d1cf9466b9adac15fd3b6e5942cadf683a33197d48c
  else if input[69]? = some 5 then 0xbc68c9d335705778966c48f994b5d1f6c9a6c1845742c42d96f1dfeabcc46b09
  else 0x503d1c63ab4ef9fc0e2c24c12ecf256b6d13d84fbff728e140abca7a5d253f37

/-- Frames of `zstd` that store what they are given as it is. -/
def quotaEnvironment : Environment where
  blake3 := quotaDigests
  compress := fun level bytes =>
    if bytes.length = 2 then some ([0x28, 0xb5, 0x2f, 0xfd, 0x20, 0x02, 0x11, 0x00, 0x00] ++ bytes)
    else PostgresIssues.storedFrame level bytes
  parse := fun bytes => if bytes = [0x7b, 0x7d] then some ⟨true, [0x7b, 0x7d], none⟩ else none
  eventCodec := .defaultValue
  issueCodec := .defaultValue

def quotaPolicy : FinalizationPolicy where
  eventRetention := ⟨30 * 24 * 60 * 60 * 1000000000, by decide⟩
  hourlyRetention := ⟨400 * 24 * 60 * 60 * 1000000000, by decide⟩
  archiveEvents := false
  maxImplicitReleasesPerProjectDay := 1000
  maxImplicitEnvironmentsPerProject := 100

def quotaEvent : FinalizeEvent where
  projectId := ⟨1, ProjectId.positive_one⟩
  eventId := ⟨3⟩
  receivedAt := ⟨1000, inRange_second⟩
  occurredAt := ⟨1000, inRange_second⟩
  level := .error
  platform := .python
  issue := PostgresIssues.quotaOccurrence 3 ⟨1000, inRange_second⟩
  environment := none
  searchTokens := []
  payload := [0x7b, 0x7d]

def quotaRow : EventRow where
  projectId := ⟨1, ProjectId.positive_one⟩
  eventId := ⟨3⟩
  receivedAt := ⟨1000, inRange_second⟩
  body := []
  processingState := .pending
  attempts := 0
  nextAttemptAt := none
  lastErrorCode := none
  columns := none

/-- No rows but that of one project. -/
def quotaTables : FinalizationTables where
  projects := (∅ : Table ProjectId ProjectRow).insert ⟨1, ProjectId.positive_one⟩ ⟨⟨1, OrganizationId.inRange_one⟩, .active⟩
  usages := ∅
  events := ∅
  issues := ∅
  hourly := ∅
  releases := ∅
  releaseProjects := ∅
  environments := ∅
  charges := []

/-- The acknowledgement of the first commit is lost, and the Event is offered again. -/
def quotaSteps : List FinalizationStep :=
  [.accept quotaRow, .finalize quotaPolicy [quotaEvent] (.committed false),
    .finalize quotaPolicy [quotaEvent] (.committed true)]

theorem events_counted_once_retried :
    issueCount (quotaSteps.foldl (executeStep quotaEnvironment) quotaTables).issues
        (toLex (⟨1, by decide⟩, ⟨0x7e59fc8f23a517c59cb62e13ec9813d0⟩)) = 1
      ∧ hourCount (quotaSteps.foldl (executeStep quotaEnvironment) quotaTables).hourly
        (toLex (⟨1, by decide⟩, toLex (⟨0x7e59fc8f23a517c59cb62e13ec9813d0⟩, ⟨0, by decide⟩))) = 1 := by
  obtain ⟨hissues, hhours, -⟩ := events_counted_once quotaEnvironment quotaTables
    (fun _ _ h => by simp [quotaTables] at h) (fun _ => by simp [quotaTables]) (fun _ => by simp [quotaTables])
    quotaSteps (by decide)
  refine ⟨(hissues _).trans ?_, (hhours _).trans ?_⟩
  · decide
  · decide

end PostgresFinalization

end MetricBackend
