import MetricBackend.MonitorInterleaving

/-! Missed runs against check-ins. `missed_inner` scans the due monitors, and for each of them inserts
the run of the slot it has read before it compares that slot with the stored one. A check-in that
moves the schedule on between the scan and the insertion leaves a missed run, and an alert, for a slot
that is no longer expected. -/

namespace MetricBackend.MongoMonitors

variable {blake3 : List (BitVec 8) → BitVec 256} {db : Database} {id : MonitorId} {world : World}

/-- Missed runs were inserted for the slot that was stored at that moment. -/
def MissedOnTime (world : World) : Prop :=
  ∀ effect ∈ world.history, match effect with
    | .missed _ slot stored => stored = some slot
    | .edited _ => True

/-- The monitors that a call has scanned and inserts missed runs for, with their slots. -/
def Call.awaited : Call → List (MonitorId × Timestamp)
  | .missedInsert _ rows => rows.map fun row => (row.1, row.2.definition.nextExpectedAt)
  | .missedAdvance _ _ _ _ rows => rows.map fun row => (row.1, row.2.definition.nextExpectedAt)
  | _ => []

/-- The next expected time that the next command of a call writes for a monitor. -/
def slotWritten (db : Database) (id : MonitorId) : Call → Option Timestamp
  | .persistWrite _ monitors => monitors[id]?.map (·.nextExpectedAt)
  | .missedAdvance now key monitor _ _ =>
      if key = id ∧ slot db id = some monitor.nextExpectedAt then
        (monitor.config.schedule.nextAfter now).toOption
      else none
  | call => do
      let (monitor, run) ← call.projection
      let document ← db.monitors[id]?
      if run.monitorId = id ∧ document.definition.lastCheckInAt.all (· ≤ run.receivedAt) then
        let times ← (projectedTimes monitor run).toOption
        times.map (·.1)
      else none

/-- The next expected time that an action writes for a monitor. -/
def Action.slotWritten (world : World) (id : MonitorId) : Action → Option Timestamp
  | .advance index => world.calls[index]?.bind (MongoMonitors.slotWritten world.db id)
  | .upsert monitor => if monitor.id = id then some monitor.nextExpectedAt else none
  | _ => none

/-- The action does not move the slot of a monitor that a call has scanned and still inserts for. -/
def SlotsHeld (world : World) (action : Action) : Prop :=
  ∀ call ∈ world.calls, ∀ entry ∈ call.awaited, ∀ next ∈ action.slotWritten world entry.1,
    slot world.db entry.1 = some next

instance (world : World) (action : Action) : Decidable (SlotsHeld world action) :=
  inferInstanceAs (Decidable (∀ call ∈ world.calls, ∀ entry ∈ call.awaited,
    ∀ next ∈ action.slotWritten world entry.1, slot world.db entry.1 = some next))

theorem slotWritten_of_projection {call : Call} {monitor : MonitorDefinition} {run : MonitorRun}
    {document : MonitorDocument} {times : Timestamp × Timestamp}
    (hcall : call.projection = some (monitor, run)) (hid : run.monitorId = id)
    (hstored : db.monitors[id]? = some document)
    (hcurrent : document.definition.lastCheckInAt.all (· ≤ run.receivedAt) = true)
    (htimes : projectedTimes monitor run = .ok (some times)) :
    slotWritten db id call = some times.1 := by
  have hwritten : slotWritten db id call = (do
      let (monitor, run) ← call.projection
      let document ← db.monitors[id]?
      if run.monitorId = id ∧ document.definition.lastCheckInAt.all (· ≤ run.receivedAt) then
        let times ← (projectedTimes monitor run).toOption
        times.map (·.1)
      else none) := by
    cases call with
    | persistWrite updates monitors => cases hcall
    | missedAdvance now key monitor run rows => cases hcall
    | _ => rfl
  rw [hwritten, hcall, hstored]
  change (if run.monitorId = id ∧ document.definition.lastCheckInAt.all (· ≤ run.receivedAt) = true then
    (projectedTimes monitor run).toOption.bind fun times => times.map (·.1) else none) = _
  rw [if_pos ⟨hid, hcurrent⟩, htimes]
  rfl

/-- A write leaves the slot of a monitor alone or sets it to what its command writes. -/
theorem slot_write {call : Call} {next : Option MonitorDocument}
    (hwrite : MonitorWrite id call db.monitors[id]? next)
    (h : ∀ time ∈ slotWritten db id call, slot db id = some time) :
    next.map (·.definition.nextExpectedAt) = slot db id := by
  generalize hstored : db.monitors[id]? = stored at hwrite
  have hslot : slot db id = stored.map (·.definition.nextExpectedAt) := by
    rw [slot, hstored]
  cases hwrite with
  | unchanged => exact hslot.symm
  | copied updates monitors copy dueAt hcall hcopy =>
      subst hcall
      rw [h copy.nextExpectedAt (by rw [slotWritten, hcopy]; rfl)]
      cases stored <;> rfl
  | projected document monitor run times hdocument hcall hid hcurrent htimes =>
      cases times with
      | none =>
          rw [hslot, hdocument]
          rfl
      | some times =>
          rw [h times.1 (slotWritten_of_projection hcall hid (hstored.trans hdocument) hcurrent htimes)]
          rfl
  | missed document now time dueAt monitor run rows hdocument hcall hexpected htime =>
      subst hcall
      have hmatch : slot db id = some monitor.nextExpectedAt := by
        rw [hslot, hdocument, Option.map_some, hexpected]
      have hwritten : slotWritten db id (.missedAdvance now id monitor run rows) = some time := by
        rw [slotWritten, if_pos ⟨rfl, hmatch⟩, htime]
        rfl
      rw [h time hwritten]
      rfl
  | leased document leaseUntil hdocument =>
      rw [hslot, hdocument]
      rfl

/-- An action that holds the slots keeps each awaited slot. -/
theorem slot_execute {action : Action}
    (h : ∀ next ∈ action.slotWritten world id, slot world.db id = some next) :
    slot (execute blake3 world action).db id = slot world.db id := by
  cases action with
  | start operation => rfl
  | crash index => rfl
  | advance index =>
      rw [execute]
      split
      · rfl
      · rename_i call hcall
        refine slot_write (advance_write call) fun time htime => h time ?_
        rw [Action.slotWritten, hcall]
        exact htime
  | upsert monitor =>
      rw [execute]
      split
      · rename_i next hnext
        obtain ⟨dueAt, rfl⟩ := upsertMonitor_eq_ok hnext
        by_cases hid : monitor.id = id
        · rw [h monitor.nextExpectedAt (by rw [Action.slotWritten, if_pos hid]; rfl)]
          subst hid
          simp only [slot, Table.get_insert_self, Option.map_some]
          cases world.db.monitors[monitor.id]? <;> rfl
        · simp only [slot, Table.get_insert_of_ne _ _ hid]
      · rfl

/-! ### Runs -/

/-- Each slot that a call has scanned and still inserts for is the stored one. -/
structure SlotsCurrent (world : World) : Prop where
  onTime : MissedOnTime world
  current : ∀ call ∈ world.calls, ∀ entry ∈ call.awaited, slot world.db entry.1 = some entry.2

variable (blake3) in
/-- The monitors that a call awaits after a command: those it awaited before, or those of a scan, which
writes nothing. -/
theorem follows_awaited {call next : Call} (h : Follows db call next)
    {entry : MonitorId × Timestamp} (hentry : entry ∈ next.awaited) :
    entry ∈ call.awaited
      ∨ (slot db entry.1 = some entry.2 ∧ (advance blake3 db call).1 = db) := by
  cases h with
  | missedFind now batchSize rows hrows =>
      obtain ⟨row, hrow, rfl⟩ := List.mem_map.mp hentry
      refine .inr ⟨?_, rfl⟩
      rw [slot, hrows row hrow]
      rfl
  | missedInsert now row rows monitor run => exact .inl (List.mem_cons_of_mem _ hentry)
  | missedAdvance now key monitor run rows => exact .inl hentry
  | _ => cases hentry

/-- A missed run is inserted for the first slot its call awaits. -/
theorem insertion_eq {call : Call} {effect : Effect} (h : effect ∈ insertion blake3 db call) :
    ∃ entry ∈ call.awaited, effect = .missed entry.1 entry.2 (slot db entry.1) := by
  unfold insertion at h
  split at h
  · rename_i now row rows
    split at h
    · rename_i monitor run encoded hinserted
      split_ifs at h
      · simp only [missedInsertion, bind_eq_ok, pure_eq_ok, Prod.mk.injEq] at hinserted
        obtain ⟨decoded, hdecoded, _, -, _, -, rfl, -, -⟩ := hinserted
        rw [decodeMonitor_eq_ok hdecoded] at h
        exact ⟨_, List.mem_cons_self, List.mem_singleton.mp h⟩
      · cases h
    · cases h
  · cases h

theorem slotsCurrent_execute (action : Action) (h : SlotsCurrent world)
    (hheld : SlotsHeld world action) : SlotsCurrent (execute blake3 world action) := by
  have hkept : ∀ call ∈ world.calls, ∀ entry ∈ call.awaited,
      slot (execute blake3 world action).db entry.1 = some entry.2 := by
    intro call hcall entry hentry
    rw [slot_execute fun next hnext => hheld call hcall entry hentry next hnext]
    exact h.current call hcall entry hentry
  cases action with
  | start operation =>
      refine ⟨h.onTime, fun call hcall entry hentry => ?_⟩
      rcases List.mem_append.mp hcall with hold | hnew
      · exact h.current call hold entry hentry
      · rcases call_first (Option.mem_toList.mp hnew) with
          ⟨_, -, rfl⟩ | ⟨_, _, rfl⟩ | ⟨_, _, rfl⟩ | ⟨_, _, _, rfl⟩ <;> cases hentry
  | advance index =>
      cases hcall : world.calls[index]? with
      | none =>
          simp only [execute, hcall]
          exact h
      | some call =>
          have hmem := List.mem_of_getElem? hcall
          simp only [execute, hcall] at hkept ⊢
          refine ⟨fun effect heffect => ?_, fun other hother entry hentry => ?_⟩
          · rcases List.mem_append.mp heffect with hnew | hold
            · obtain ⟨entry, hentry, rfl⟩ := insertion_eq hnew
              exact h.current call hmem entry hentry
            · exact h.onTime effect hold
          · rcases mem_replaceCall hother with hold | hnew
            · exact hkept other hold entry hentry
            · rcases follows_awaited blake3 (advance_follows hnew) hentry with hbefore | ⟨hscan, hsame⟩
              · exact hkept call hmem entry hbefore
              · rw [hsame]
                exact hscan
  | crash index =>
      exact ⟨h.onTime, fun call hcall => h.current call (List.mem_of_mem_eraseIdx hcall)⟩
  | upsert monitor =>
      cases hupsert : upsertMonitor world.db monitor with
      | error error =>
          simp only [execute, hupsert]
          exact h
      | ok next =>
          simp only [execute, hupsert] at hkept ⊢
          refine ⟨fun effect heffect => ?_, hkept⟩
          rcases List.mem_cons.mp heffect with rfl | hold
          · trivial
          · exact h.onTime effect hold

/-- In every interleaving, missed runs are inserted for the slot that is stored at that moment, as long
as no command moves the slot of a monitor between the scan that found it due and the insertion. -/
theorem missed_on_time (blake3 : List (BitVec 8) → BitVec 256) (db : Database)
    (actions : List Action) (h : Throughout (execute blake3) SlotsHeld ⟨db, [], []⟩ actions) :
    Always (execute blake3) MissedOnTime ⟨db, [], []⟩ actions :=
  always_of_throughout (fun _ hworld => hworld.onTime)
    (fun _ action hworld hheld => slotsCurrent_execute action hworld hheld) actions _
    ⟨by simp [MissedOnTime], by simp⟩ h

open IngestCheckIns

/-- A scan for missed slots ten seconds after the sample monitor is due. -/
def sampleScan : Action := .start (.missed ⟨1700000430000, by decide⟩ 100)

theorem missed_on_time_nightly :
    Always (execute sampleBlake3) MissedOnTime ⟨sampleDb, [], []⟩
      [sampleScan, .advance 0, .advance 0, sampleCheckIn, .advance 1, .advance 1, .advance 1,
        .advance 1, .advance 1, .advance 0] :=
  missed_on_time sampleBlake3 sampleDb _ (by decide)

/-- The scan finds the monitor due, a check-in moves it on, and the scan inserts the missed run. -/
def sampleRace : List Action :=
  [sampleScan, .advance 0, sampleCheckIn, .advance 1, .advance 1, .advance 1, .advance 1, .advance 1,
    .advance 0, .advance 0]

/-- The monitor expects its next check-in at 1700000731000 and its last one succeeded, yet a missed run
of the slot 1700000360000 is stored and waits for its alert. -/
theorem missed_inserted_after_check_in :
    ¬ Always (execute sampleBlake3) MissedOnTime ⟨sampleDb, [], []⟩ sampleRace
      ∧ ((sampleRace.foldl (execute sampleBlake3) ⟨sampleDb, [], []⟩).db.monitors[sampleMonitorId]?.map
        fun document => (document.definition.nextExpectedAt.unixMillis,
          document.definition.lastStatus)) = some (1700000731000, some .success)
      ∧ (pendingAlerts (sampleRace.foldl (execute sampleBlake3) ⟨sampleDb, [], []⟩).db).map
        (fun run => (run.status, run.scheduledFor.map (·.unixMillis)))
          = [(.missed, some 1700000360000)] := by
  refine ⟨fun halways => ?_, by decide, by decide⟩
  have hhistory : (sampleRace.foldl (execute sampleBlake3) ⟨sampleDb, [], []⟩).history
      = [.missed sampleMonitorId ⟨1700000360000, by decide⟩ (some ⟨1700000731000, by decide⟩)] := by
    decide
  have hlast := halways.last
  unfold MissedOnTime at hlast
  rw [hhistory] at hlast
  have := hlast _ (List.mem_singleton.mpr rfl)
  exact absurd this (by decide)

end MetricBackend.MongoMonitors
