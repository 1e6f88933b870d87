import MetricBackend.MonitorInterleaving

/-! Edits of the administrator against check-ins. `persist_inner` reads the monitors of its updates
and writes every one of them back, so an edit that falls between the two commands is overwritten by
the copy read before it. -/

namespace MetricBackend.MongoMonitors

variable {blake3 : List (BitVec 8) → BitVec 256} {db : Database} {id : MonitorId}

/-- The fields of a monitor that an administrator edits. -/
structure Configuration where
  enabled : Bool
  managedByWeb : Bool
  revision : Nat
  name : Text
  config : MonitorConfig
  uptime : Option UptimeMonitorConfig
deriving DecidableEq

def configuration (monitor : MonitorDefinition) : Configuration where
  enabled := monitor.enabled
  managedByWeb := monitor.managedByWeb
  revision := monitor.revision
  name := monitor.name
  config := monitor.config
  uptime := monitor.uptime

/-- The configuration stored for a monitor. -/
def storedConfiguration (db : Database) (id : MonitorId) : Option Configuration :=
  db.monitors[id]?.map fun document => configuration document.definition

/-- The configuration of the last edit of a monitor, or the one it had at first. -/
def lastConfiguration (initial : Database) (id : MonitorId) : List Effect → Option Configuration
  | [] => storedConfiguration initial id
  | .edited monitor :: history =>
      if monitor.id = id then some (configuration monitor) else lastConfiguration initial id history
  | .missed _ _ _ :: history => lastConfiguration initial id history

/-- The store holds the configuration of the last `upsert_monitor`. -/
def KeepsEdits (initial : Database) (id : MonitorId) (world : World) : Prop :=
  storedConfiguration world.db id = lastConfiguration initial id world.history

/-- The copy of a monitor that a call has read and is about to write back. -/
def Call.copy (id : MonitorId) : Call → Option MonitorDefinition
  | .persistWrite _ monitors => monitors[id]?
  | _ => none

/-- Check-ins carry no definitions, and no edit of the monitor differs from a copy of it that is about
to be written back. An edit without uptime settings does not meet a document that has them. -/
def EditAllowed (id : MonitorId) (world : World) : Action → Prop
  | .start (.persist updates) => ∀ update ∈ updates, update.definition = none
  | .upsert monitor => monitor.id = id →
      (∀ call ∈ world.calls, ∀ copy ∈ call.copy id, configuration copy = configuration monitor)
        ∧ (monitor.uptime = none →
          world.db.monitors[id]?.all (·.definition.uptime.isNone) = true)
  | _ => True

instance (id : MonitorId) (world : World) : ∀ action, Decidable (EditAllowed id world action)
  | .start (.persist updates) =>
      inferInstanceAs (Decidable (∀ update ∈ updates, update.definition = none))
  | .upsert monitor => inferInstanceAs (Decidable (monitor.id = id →
      (∀ call ∈ world.calls, ∀ copy ∈ call.copy id, configuration copy = configuration monitor)
        ∧ (monitor.uptime = none →
          world.db.monitors[id]?.all (·.definition.uptime.isNone) = true)))
  | .start (.missed _ _) => .isTrue trivial
  | .start (.timeout _ _) => .isTrue trivial
  | .start (.claimUptime _ _ _) => .isTrue trivial
  | .advance _ => .isTrue trivial
  | .crash _ => .isTrue trivial

/-- A call whose updates carry no definitions, as far as it still reads them. -/
def Call.Plain : Call → Prop
  | .persistFind updates => ∀ update ∈ updates, update.definition = none
  | _ => True

/-- The store and every copy about to be written back hold the configuration of the last edit. -/
structure Undisturbed (initial : Database) (id : MonitorId) (world : World) : Prop where
  stored : KeepsEdits initial id world
  copies : ∀ call ∈ world.calls, ∀ copy, call.copy id = some copy →
    some (configuration copy) = lastConfiguration initial id world.history
  plain : ∀ call ∈ world.calls, call.Plain

variable {initial : Database} {world : World}

theorem lastConfiguration_insertion (call : Call) (history : List Effect) :
    lastConfiguration initial id (insertion blake3 db call ++ history)
      = lastConfiguration initial id history := by
  unfold insertion
  repeat' split
  all_goals rfl

theorem resolveMonitors_plain {found monitors : Table MonitorId MonitorDefinition}
    {updates : List MonitorUpdate} (hplain : ∀ update ∈ updates, update.definition = none)
    (h : resolveMonitors found updates = .ok monitors) : monitors = found := by
  have hsame : updates.foldl resolveDefinition found = found := by
    clear h
    induction updates with
    | nil => rfl
    | cons update updates ih =>
        have hnone := hplain update (by simp)
        rw [List.foldl_cons]
        have hpass : resolveDefinition found update = found := by
          simp only [resolveDefinition, hnone]
        rw [hpass]
        exact ih fun other hother => hplain other (List.mem_cons_of_mem _ hother)
  simp only [resolveMonitors, hsame] at h
  split_ifs at h
  cases h
  rfl

/-- A read returns the definitions that are stored. -/
theorem findMonitors_sound {ids : List MonitorId} {found : Table MonitorId MonitorDefinition}
    (h : findMonitors db ids = .ok found) {key : MonitorId} {copy : MonitorDefinition}
    (hcopy : found[key]? = some copy) :
    db.monitors[key]?.map (·.definition) = some copy := by
  refine foldlM_ok_induction (fun values : Table MonitorId MonitorDefinition =>
    ∀ key copy, values[key]? = some copy → db.monitors[key]?.map (·.definition) = some copy)
    _ _ _ h (by simp) (fun values row next hrow hvalues hpass => ?_) key copy hcopy
  simp only [bind_eq_ok, pure_eq_ok] at hpass
  obtain ⟨monitor, hmonitor, rfl⟩ := hpass
  intro other value hvalue
  rw [Table.get_insert] at hvalue
  split_ifs at hvalue with hkey
  · subst hkey
    cases hvalue
    rw [(Table.of_mem_selectAny hrow).1, Option.map_some, decodeMonitor_eq_ok hmonitor]
  · exact hvalues other value hvalue

/-- A copy about to be written back was just read, and no call returns to its first command. -/
theorem follows_copy (id : MonitorId) {call next : Call} (hplain : call.Plain)
    (h : Follows db call next) :
    next.Plain ∧ ∀ copy, next.copy id = some copy →
      db.monitors[id]?.map (·.definition) = some copy := by
  cases h with
  | persistFind updates found monitors hfound hmonitors =>
      rw [resolveMonitors_plain hplain hmonitors]
      exact ⟨trivial, fun copy hcopy => findMonitors_sound hfound hcopy⟩
  | _ => exact ⟨trivial, by rintro copy ⟨⟩⟩

/-- A command keeps the configuration of a monitor when the copy it writes back has the same. -/
theorem configuration_write {call : Call} {stored next : Option MonitorDocument}
    (h : MonitorWrite id call stored next)
    (hcopy : ∀ copy, call.copy id = some copy →
      some (configuration copy) = stored.map fun document => configuration document.definition) :
    (next.map fun document => configuration document.definition)
      = stored.map fun document => configuration document.definition := by
  cases h with
  | unchanged => rfl
  | copied updates monitors copy dueAt hcall hread =>
      subst hcall
      have hsame := hcopy copy hread
      cases stored with
      | none => cases hsame
      | some document =>
          rw [Option.map_some, Option.some.injEq] at hsame
          have huptime : copy.uptime = document.definition.uptime :=
            congrArg Configuration.uptime hsame
          have hor : copy.uptime.or document.definition.uptime = copy.uptime := by
            rw [← huptime, Option.or_self]
          rw [Option.map_some, Option.map_some, ← hsame]
          simp only [setMonitor, configuration, hor]
  | projected document monitor run times hstored =>
      rw [hstored]
      rfl
  | missed document now next dueAt monitor run rows hstored =>
      rw [hstored]
      rfl
  | leased document leaseUntil hstored =>
      rw [hstored]
      rfl

theorem undisturbed_advance {index : Nat} (h : Undisturbed initial id world) :
    Undisturbed initial id (execute blake3 world (.advance index)) := by
  simp only [execute]
  split
  · exact h
  · rename_i call hcall
    have hmem := List.mem_of_getElem? hcall
    have hstored : storedConfiguration (advance blake3 world.db call).1 id
        = storedConfiguration world.db id := by
      refine configuration_write (advance_write call) fun copy hcopy => ?_
      rw [h.copies call hmem copy hcopy]
      exact h.stored.symm
    refine ⟨?_, fun other hother copy hcopy => ?_, fun other hother => ?_⟩
    · unfold KeepsEdits
      rw [hstored, lastConfiguration_insertion]
      exact h.stored
    · rw [lastConfiguration_insertion]
      rcases mem_replaceCall hother with hold | hnew
      · exact h.copies other hold copy hcopy
      · have hread := (follows_copy id (h.plain call hmem) (advance_follows hnew)).2 copy hcopy
        rw [← h.stored]
        unfold storedConfiguration
        rw [← Option.map_some, ← hread, Option.map_map]
        rfl
    · rcases mem_replaceCall hother with hold | hnew
      · exact h.plain other hold
      · exact (follows_copy id (h.plain call hmem) (advance_follows hnew)).1

/-- An edit stores its own configuration; only uptime settings would survive from the document before. -/
theorem configuration_setMonitor {monitor : MonitorDefinition} {dueAt : Timestamp}
    {stored : Option MonitorDocument}
    (huptime : monitor.uptime = none → stored.all (·.definition.uptime.isNone) = true) :
    configuration (setMonitor monitor dueAt stored).definition = configuration monitor := by
  cases stored with
  | none => rfl
  | some document =>
      have hor : monitor.uptime.or document.definition.uptime = monitor.uptime := by
        cases hmonitor : monitor.uptime with
        | some uptime => rfl
        | none =>
            have hnone := huptime hmonitor
            rw [Option.all_some, Option.isNone_iff_eq_none] at hnone
            rw [hnone]
            rfl
      simp only [setMonitor, configuration, hor]

theorem undisturbed_upsert {monitor : MonitorDefinition} (h : Undisturbed initial id world)
    (hallowed : EditAllowed id world (.upsert monitor)) :
    Undisturbed initial id (execute blake3 world (.upsert monitor)) := by
  simp only [execute]
  split
  · rename_i next hnext
    obtain ⟨dueAt, rfl⟩ := upsertMonitor_eq_ok hnext
    by_cases hid : monitor.id = id
    · obtain ⟨hcopies, huptime⟩ := hallowed hid
      subst hid
      have hlast : lastConfiguration initial monitor.id (.edited monitor :: world.history)
          = some (configuration monitor) := by
        rw [lastConfiguration, if_pos rfl]
      refine ⟨?_, fun call hcall copy hcopy => ?_, h.plain⟩
      · unfold KeepsEdits storedConfiguration
        rw [hlast, Table.get_insert_self, Option.map_some, configuration_setMonitor huptime]
      · rw [hlast, hcopies call hcall copy hcopy]
    · have hlast : lastConfiguration initial id (.edited monitor :: world.history)
          = lastConfiguration initial id world.history := by
        rw [lastConfiguration, if_neg hid]
      refine ⟨?_, fun call hcall copy hcopy => ?_, h.plain⟩
      · unfold KeepsEdits storedConfiguration
        rw [hlast, Table.get_insert_of_ne _ _ hid]
        exact h.stored
      · rw [hlast]
        exact h.copies call hcall copy hcopy
  · exact h

theorem undisturbed_start {operation : Operation} (h : Undisturbed initial id world)
    (hallowed : EditAllowed id world (.start operation)) :
    Undisturbed initial id (execute blake3 world (.start operation)) := by
  have hfirst : ∀ call, operation.call = some call → call.Plain ∧ call.copy id = none := by
    intro call hcall
    rcases call_first hcall with ⟨updates, rfl, rfl⟩ | ⟨_, _, rfl⟩ | ⟨_, _, rfl⟩ | ⟨_, _, _, rfl⟩
    · exact ⟨hallowed, rfl⟩
    · exact ⟨trivial, rfl⟩
    · exact ⟨trivial, rfl⟩
    · exact ⟨trivial, rfl⟩
  refine ⟨h.stored, fun call hcall copy hcopy => ?_, fun call hcall => ?_⟩
  · rcases List.mem_append.mp hcall with hold | hnew
    · exact h.copies call hold copy hcopy
    · rw [(hfirst call (Option.mem_toList.mp hnew)).2] at hcopy
      cases hcopy
  · rcases List.mem_append.mp hcall with hold | hnew
    · exact h.plain call hold
    · exact (hfirst call (Option.mem_toList.mp hnew)).1

theorem undisturbed_execute (action : Action) (h : Undisturbed initial id world)
    (hallowed : EditAllowed id world action) :
    Undisturbed initial id (execute blake3 world action) := by
  cases action with
  | start operation => exact undisturbed_start h hallowed
  | advance index => exact undisturbed_advance h
  | crash index =>
      exact ⟨h.stored, fun call hcall => h.copies call (List.mem_of_mem_eraseIdx hcall),
        fun call hcall => h.plain call (List.mem_of_mem_eraseIdx hcall)⟩
  | upsert monitor => exact undisturbed_upsert h hallowed

/-- In every interleaving of check-ins without definitions with edits and the workers, the store holds
the configuration of the last edit, as long as no edit falls between the read of a call and its bulk
write with another configuration than the one read. -/
theorem persist_keeps_edits (blake3 : List (BitVec 8) → BitVec 256) (db : Database) (id : MonitorId)
    (actions : List Action)
    (h : Throughout (execute blake3) (EditAllowed id) ⟨db, [], []⟩ actions) :
    Always (execute blake3) (KeepsEdits db id) ⟨db, [], []⟩ actions :=
  always_of_throughout (fun _ hworld => hworld.stored)
    (fun _ action hworld hallowed => undisturbed_execute action hworld hallowed) actions _
    ⟨rfl, by simp, by simp⟩ h

open IngestCheckIns

theorem inRange_sampleEdit : minTimestampMillis ≤ 1700000430000 ∧ 1700000430000 ≤ maxTimestampMillis := by decide

/-- The administrator takes the sample monitor over and disables it. -/
def sampleEdit : MonitorDefinition := { sampleMonitor with
  name := "nightly backup".toList
  enabled := false
  managedByWeb := true
  revision := 2
  updatedAt := ⟨1700000430000, inRange_sampleEdit⟩ }

theorem persist_keeps_edits_nightly :
    Always (execute sampleBlake3) (KeepsEdits sampleDb sampleMonitorId) ⟨sampleDb, [], []⟩
      [sampleCheckIn, .advance 0, .advance 0, .upsert sampleEdit, .advance 0, .advance 0,
        .advance 0] :=
  persist_keeps_edits sampleBlake3 sampleDb sampleMonitorId _ (by decide)

/-- The edit falls between the read and the bulk write of a check-in and is gone. -/
theorem edit_lost_during_persist :
    ¬ Always (execute sampleBlake3) (KeepsEdits sampleDb sampleMonitorId) ⟨sampleDb, [], []⟩
        [sampleCheckIn, .advance 0, .upsert sampleEdit, .advance 0]
      ∧ (([sampleCheckIn, .advance 0, .upsert sampleEdit, .advance 0].foldl (execute sampleBlake3)
        ⟨sampleDb, [], []⟩).db.monitors[sampleMonitorId]?.map fun document =>
          (document.definition.enabled, document.definition.revision)) = some (true, 1) := by
  refine ⟨fun halways => absurd halways.last ?_, by decide⟩
  unfold KeepsEdits
  decide

end MetricBackend.MongoMonitors
