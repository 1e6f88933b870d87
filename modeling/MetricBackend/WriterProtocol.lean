import MetricBackend.EventWriter
import MetricBackend.LibFairness
import Mathlib.Data.List.Nodup
import Mathlib.Data.Prod.Lex

/-! The protocol of the event writer: in whatever order callers, task, store and clock take their steps, each call is
answered once and with what the store reported for its own event, and each event is inserted once. -/

namespace MetricBackend

namespace EventWriter

/-! ### Batches -/

/-- A batch within the limits, whose responses stand in the order of its events. -/
structure Batch.WellFormed (config : EventWriterConfig) (batch : Batch) : Prop where
  nonempty : 0 < batch.events.length
  documents : batch.events.length ≤ config.maxDocuments
  aligned : batch.responses = batch.events.map (·.call)
  encoded : batch.encodedBytes < 2 ^ 64 - 1 → batch.encodedBytes = (batch.events.map (·.encodedLen)).sum
  bytes : 1 < batch.events.length → batch.encodedBytes ≤ config.maxBytes

/-- The command answers the call that prepared its event. -/
def Command.Owned (command : Command) : Prop := command.prepared.call = command.response

variable {config : EventWriterConfig}

theorem Batch.wellFormed_new (hconfig : 0 < config.maxDocuments) {command : Command} (h : command.Owned) :
    (Batch.new command).WellFormed config where
  nonempty := Nat.one_pos
  documents := hconfig
  aligned := congrArg (fun call => [call]) h.symm
  encoded := fun _ => (Nat.add_zero _).symm
  bytes := fun hlength => absurd hlength (lt_irrefl 1)

theorem Batch.WellFormed.push {batch : Batch} (h : batch.WellFormed config) {command : Command} (howned : command.Owned)
    (hpush : batch.canPush command config = true) : (batch.push command).WellFormed config := by
  rw [Batch.canPush, Bool.and_eq_true, decide_eq_true_iff, Bool.or_eq_true, decide_eq_true_iff] at hpush
  obtain ⟨hroom, hfits⟩ := hpush
  have hbytes : saturatingAdd batch.encodedBytes command.prepared.encodedLen ≤ config.maxBytes := by
    obtain hempty | hbytes := hfits
    · exact absurd (List.isEmpty_iff.mp hempty) (List.ne_nil_of_length_pos h.nonempty)
    · exact hbytes
  refine ⟨?_, ?_, ?_, ?_, fun _ => hbytes⟩
  · rw [Batch.push, List.length_append]
    exact Nat.lt_add_right _ h.nonempty
  · rw [Batch.push, List.length_append]
    exact hroom
  · rw [Batch.push, h.aligned, List.map_append, ← howned]
    rfl
  · intro hlt
    have hlt' : saturatingAdd batch.encodedBytes command.prepared.encodedLen < 2 ^ 64 - 1 := hlt
    have hsum : ((batch.push command).events.map (·.encodedLen)).sum
        = (batch.events.map (·.encodedLen)).sum + command.prepared.encodedLen := by
      rw [Batch.push, List.map_append, List.sum_append, List.map_singleton, List.sum_singleton]
    have hbefore := h.encoded (by rw [saturatingAdd] at hlt'; omega)
    have hpushed : (batch.push command).encodedBytes = saturatingAdd batch.encodedBytes command.prepared.encodedLen := rfl
    rw [hsum, ← hbefore, hpushed]
    rw [saturatingAdd] at hlt' ⊢
    omega

/-- What a call of `insert_batch` may carry. The largest `usize` is no bound on the bytes. -/
structure Bounded (config : EventWriterConfig) (events : List PreparedEvent) : Prop where
  nonempty : 1 ≤ events.length
  documents : events.length ≤ config.maxDocuments
  bytes : 1 < events.length → config.maxBytes < 2 ^ 64 - 1 → (events.map (·.encodedLen)).sum ≤ config.maxBytes

theorem Batch.WellFormed.bounded {batch : Batch} (h : batch.WellFormed config) : Bounded config batch.events where
  nonempty := h.nonempty
  documents := h.documents
  bytes := by
    intro hlength hlt
    have hle := h.bytes hlength
    rw [← h.encoded (by omega)]
    exact hle

/-! ### One flush -/

/-- What the store reports: a status for each event, or nothing that belongs to an event. -/
def reportedStatuses (events : List PreparedEvent) : StoreOutcome → List (PreparedEvent × EventWriteStatus)
  | .statuses statuses => if statuses.length = events.length then events.zip statuses else []
  | .failed _ => []
  | .timedOut => []

theorem rejectBatch_calls (batch : Batch) (error : EventSinkError) :
    (rejectBatch batch error).map Prod.fst = batch.responses := by
  rw [rejectBatch, List.map_map]
  exact List.map_id _

/-- The items that the statuses are matched to. -/
theorem zip_responses {batch : Batch} (h : batch.responses = batch.events.map (·.call))
    (statuses : List EventWriteStatus) :
    (batch.events.zip batch.responses).zip statuses
      = (batch.events.zip statuses).map fun item => ((item.1, item.1.call), item.2) := by
  have hzip : batch.events.zip batch.responses = batch.events.map fun event => (event, event.call) := by
    rw [h]
    exact List.map_prod_left_eq_zip.symm
  rw [hzip, List.zip_map_left]
  rfl

/-- A flush answers each call of the batch once. -/
theorem flushResponses_calls {batch : Batch} (h : batch.responses = batch.events.map (·.call)) (outcome : StoreOutcome) :
    (flushResponses batch outcome).map Prod.fst = batch.responses := by
  unfold flushResponses
  split
  · split_ifs with hlength
    · rw [zip_responses h, List.map_map, List.map_map, h]
      have hfst : (batch.events.zip _).map Prod.fst = batch.events := List.map_fst_zip hlength.ge
      calc _ = ((batch.events.zip _).map Prod.fst).map (·.call) := by rw [List.map_map]; rfl
        _ = batch.events.map (·.call) := by rw [hfst]
    · exact rejectBatch_calls _ _
  · exact rejectBatch_calls _ _
  · exact rejectBatch_calls _ _
  · exact rejectBatch_calls _ _

/-- A call is answered well only by a status that the store reported for its own event. -/
theorem flushResponses_ok {batch : Batch} (h : batch.responses = batch.events.map (·.call)) {outcome : StoreOutcome}
    {call : Call} {durable : DurableOutcome} (hmem : (call, .ok durable) ∈ flushResponses batch outcome) :
    ∃ event status, (event, status) ∈ reportedStatuses batch.events outcome ∧ event.call = call
      ∧ statusResult status = .ok durable := by
  have hreject : ∀ error, (call, .ok durable) ∉ rejectBatch batch error := by
    intro error hrejected
    obtain ⟨response, -, heq⟩ := List.mem_map.mp hrejected
    exact nomatch (Prod.ext_iff.mp heq).2
  unfold flushResponses at hmem
  split at hmem
  · split_ifs at hmem with hlength
    · rw [zip_responses h, List.map_map, List.mem_map] at hmem
      obtain ⟨⟨event, status⟩, hzip, heq⟩ := hmem
      obtain ⟨hcall, hresult⟩ := Prod.ext_iff.mp heq
      refine ⟨event, status, ?_, hcall, hresult⟩
      rw [reportedStatuses, if_pos hlength]
      exact hzip
    · exact absurd hmem (hreject _)
  · exact absurd hmem (hreject _)
  · exact absurd hmem (hreject _)
  · exact absurd hmem (hreject _)

/-- A flush offers the events that the store reported as inserted. -/
theorem flushOffers_eq {batch : Batch} (h : batch.responses = batch.events.map (·.call)) (outcome : StoreOutcome) :
    flushOffers batch outcome
      = ((reportedStatuses batch.events outcome).filter fun item => item.2 = .inserted).map Prod.fst := by
  cases outcome with
  | statuses statuses =>
      by_cases hlength : statuses.length = batch.events.length
      · rw [flushOffers, if_pos hlength, zip_responses h, List.filter_map, List.map_map, reportedStatuses, if_pos hlength]
        rfl
      · rw [flushOffers, if_neg hlength, reportedStatuses, if_neg hlength]
        rfl
  | failed error => rfl
  | timedOut => rfl

/-! ### What the task holds -/

/-- The command that the task has taken and not put in a batch. -/
def Phase.carry : Phase → Option Command
  | .choosing _ carry => carry
  | .collecting _ _ => none
  | .flushing _ _ carry _ => carry
  | .rejecting carry => carry
  | .closed => none

def Phase.batch : Phase → Option Batch
  | .collecting _ batch => some batch
  | .flushing _ batch _ _ => some batch
  | _ => none

/-- Commands answer the calls they came from, and batches keep to the limits. -/
structure World.Sound (config : EventWriterConfig) (world : World) : Prop where
  sending : ∀ command ∈ world.sending, command.Owned
  channel : ∀ command ∈ world.channel, command.Owned
  carry : ∀ command, world.phase.carry = some command → command.Owned
  batch : ∀ batch, world.phase.batch = some batch → batch.WellFormed config
  inserts : ∀ events ∈ world.inserts, Bounded config events

theorem World.Sound.close {world : World} (h : world.Sound config) : world.close.Sound config where
  sending := h.sending
  channel := fun _ hmem => nomatch hmem
  carry := fun _ hcarry => nomatch hcarry
  batch := fun _ hbatch => nomatch hbatch
  inserts := h.inserts

theorem World.Sound.beginFlush {world : World} (h : world.Sound config) {batch : Batch} (hbatch : batch.WellFormed config)
    {carry : Option Command} (hcarry : ∀ command, carry = some command → command.Owned) (loop : Loop)
    (shutdownRequested : Bool) : (world.beginFlush loop batch carry shutdownRequested).Sound config where
  sending := h.sending
  channel := h.channel
  carry := hcarry
  batch := fun other hother => Option.some.inj hother ▸ hbatch
  inserts := by
    intro events hevents
    obtain hevents | hevents := List.mem_append.mp hevents
    · exact h.inserts events hevents
    · rw [List.mem_singleton.mp hevents]
      exact hbatch.bounded

theorem CallerStep.sound {world next : World} (h : world.Sound config) (hstep : CallerStep config world next) :
    next.Sound config := by
  cases hstep with
  | refused call hcall hhandles => exact ⟨h.sending, h.channel, h.carry, h.batch, h.inserts⟩
  | prepared call event encodedLen hcall hhandles haccepting =>
      refine ⟨fun command hmem => ?_, h.channel, h.carry, h.batch, h.inserts⟩
      obtain hmem | hmem := List.mem_append.mp hmem
      · exact h.sending command hmem
      · rw [List.mem_singleton.mp hmem]
        rfl
  | sent before command after hsending hopen hroom =>
      have hmem : ∀ other ∈ before ++ command :: after, other.Owned := hsending ▸ h.sending
      rw [List.forall_mem_append, List.forall_mem_cons] at hmem
      obtain ⟨hbefore, hcommand, hafter⟩ := hmem
      refine ⟨List.forall_mem_append.mpr ⟨hbefore, hafter⟩, ?_, h.carry, h.batch, h.inserts⟩
      exact List.forall_mem_append.mpr ⟨h.channel, List.forall_mem_singleton.mpr hcommand⟩
  | unsent before command after hsending hclosed =>
      have hmem : ∀ other ∈ before ++ command :: after, other.Owned := hsending ▸ h.sending
      rw [List.forall_mem_append, List.forall_mem_cons] at hmem
      exact ⟨List.forall_mem_append.mpr ⟨hmem.1, hmem.2.2⟩, h.channel, h.carry, h.batch, h.inserts⟩
  | shutdown => exact ⟨h.sending, h.channel, h.carry, h.batch, h.inserts⟩
  | released hsending => exact ⟨h.sending, h.channel, h.carry, h.batch, h.inserts⟩
  | aborted => exact h.close

theorem WriterStep.sound (hconfig : 0 < config.maxDocuments) {world next : World} (h : world.Sound config)
    (hstep : WriterStep config world next) : next.Sound config := by
  have hnone : ∀ command : Command, none = some command → command.Owned := fun _ hcommand => nomatch hcommand
  have hnoBatch : ∀ batch : Batch, none = some batch → batch.WellFormed config := fun _ hbatch => nomatch hbatch
  cases hstep with
  | takeCarry loop command hphase =>
      have hcommand := h.carry command (by rw [hphase, Phase.carry])
      refine ⟨h.sending, h.channel, hnone, fun batch hbatch => ?_, h.inserts⟩
      exact Option.some.inj hbatch ▸ Batch.wellFormed_new hconfig hcommand
  | receive loop command rest hphase hchannel =>
      obtain ⟨hcommand, hrest⟩ := List.forall_mem_cons.mp (hchannel ▸ h.channel)
      refine ⟨h.sending, hrest, hnone, fun batch hbatch => ?_, h.inserts⟩
      exact Option.some.inj hbatch ▸ Batch.wellFormed_new hconfig hcommand
  | cancelled hphase hshutdown => exact ⟨h.sending, h.channel, hnone, hnoBatch, h.inserts⟩
  | disconnected hphase hchannel hhandles =>
      exact World.Sound.close ⟨h.sending, h.channel, h.carry, h.batch, h.inserts⟩
  | drained hphase hchannel => exact h.close
  | push loop batch command rest hphase hroom hchannel hpush =>
      obtain ⟨hcommand, hrest⟩ := List.forall_mem_cons.mp (hchannel ▸ h.channel)
      have hbatch := h.batch batch (by rw [hphase, Phase.batch])
      refine ⟨h.sending, hrest, hnone, fun other hother => ?_, h.inserts⟩
      exact Option.some.inj hother ▸ hbatch.push hcommand hpush
  | carry loop batch command rest hphase hroom hchannel hpush =>
      obtain ⟨hcommand, hrest⟩ := List.forall_mem_cons.mp (hchannel ▸ h.channel)
      have hbatch := h.batch batch (by rw [hphase, Phase.batch])
      have hrested : World.Sound config { world with channel := rest } := ⟨h.sending, hrest, h.carry, h.batch, h.inserts⟩
      exact hrested.beginFlush hbatch (fun other hother => Option.some.inj hother ▸ hcommand) loop false
  | full loop batch hphase hroom =>
      exact h.beginFlush (h.batch batch (by rw [hphase, Phase.batch])) hnone loop false
  | deadline batch hphase hroom =>
      exact h.beginFlush (h.batch batch (by rw [hphase, Phase.batch])) hnone .run false
  | stopped batch hphase hroom hshutdown =>
      have hstopped : World.Sound config { world with accepting := false } :=
        ⟨h.sending, h.channel, h.carry, h.batch, h.inserts⟩
      exact hstopped.beginFlush (h.batch batch (by rw [hphase, Phase.batch])) hnone .run true
  | exhausted loop batch hphase hroom hchannel hend =>
      exact h.beginFlush (h.batch batch (by rw [hphase, Phase.batch])) hnone loop false
  | flushed loop batch carry shutdownRequested outcome hphase =>
      have hcarry : ∀ command, carry = some command → command.Owned :=
        fun command hcommand => h.carry command (by rw [hphase, Phase.carry, hcommand])
      rw [World.afterFlush]
      split_ifs
      · exact ⟨h.sending, h.channel, hnone, hnoBatch, h.inserts⟩
      · exact ⟨h.sending, h.channel, hcarry, hnoBatch, h.inserts⟩
  | elapsed batch carry shutdownRequested hphase =>
      have hcarry : ∀ command, carry = some command → command.Owned :=
        fun command hcommand => h.carry command (by rw [hphase, Phase.carry, hcommand])
      exact ⟨h.sending, h.channel, hcarry, hnoBatch, h.inserts⟩
  | reject carry command rest hphase hchannel =>
      obtain ⟨hcommand, hrest⟩ := List.forall_mem_cons.mp (hchannel ▸ h.channel)
      exact ⟨h.sending, hrest, h.carry, h.batch, h.inserts⟩
  | rejected carry hphase hchannel => exact h.close

/-! ### Where a call stands -/

/-- The calls whose event the task holds and has not given to the store. -/
def Phase.uninserted : Phase → List Call
  | .choosing _ carry => carry.toList.map (·.response)
  | .collecting _ batch => batch.responses
  | .flushing _ _ carry _ => carry.toList.map (·.response)
  | .rejecting carry => carry.toList.map (·.response)
  | .closed => []

namespace World

/-- The results of a call. -/
def returned (world : World) (call : Call) : Nat := (world.results.map Prod.fst).count call

def responded (world : World) (call : Call) : Nat := (world.responses.map Prod.fst).count call

/-- The commands of a call that are not with the task. -/
def queued (world : World) (call : Call) : Nat :=
  (world.sending.map (·.response)).count call + (world.channel.map (·.response)).count call

/-- The calls of `insert_batch` with the event of a call. -/
def inserted (world : World) (call : Call) : Nat := (world.inserts.flatten.map (·.call)).count call

/-- Each call is in one place: it has returned, or its command is on the way or with the task. -/
structure Counted (world : World) : Prop where
  calls : ∀ call, world.calls.count call ≤ 1
  places : ∀ call, world.returned call + world.queued call + world.phase.held.count call = world.calls.count call
  responded : ∀ call, world.responded call ≤ world.returned call
  inserted : ∀ call, world.inserted call + world.queued call + world.phase.uninserted.count call
    ≤ world.calls.count call

variable {world : World}

theorem returned_dropResponses (calls : List Call) (call : Call) :
    (world.dropResponses calls).returned call = calls.count call + world.returned call := by
  have hcalls : (calls.map fun call => ((call, .error .unavailable) : Call × PersistResult)).map Prod.fst = calls := by
    rw [List.map_map]
    exact List.map_id _
  rw [returned, dropResponses, List.map_append, List.count_append, hcalls]
  rfl

theorem returned_respond (answers : List (Call × PersistResult)) (call : Call) :
    (world.respond answers).returned call = (answers.map Prod.fst).count call + world.returned call := by
  rw [returned, respond, List.map_append, List.count_append]
  rfl

theorem responded_respond (answers : List (Call × PersistResult)) (call : Call) :
    (world.respond answers).responded call = (answers.map Prod.fst).count call + world.responded call := by
  rw [responded, respond, List.map_append, List.count_append]
  rfl

theorem inserted_beginFlush (loop : Loop) (batch : Batch) (carry : Option Command) (shutdownRequested : Bool) (call : Call) :
    (world.beginFlush loop batch carry shutdownRequested).inserted call
      = world.inserted call + (batch.events.map (·.call)).count call := by
  rw [inserted, beginFlush, List.flatten_append, List.map_append, List.count_append, List.flatten_singleton]
  rfl

/-- The task ends, and each call that it or the channel held returns. -/
theorem Counted.close (h : world.Counted) : world.close.Counted := by
  have hreturned : ∀ call, world.close.returned call
      = world.phase.held.count call + (world.channel.map (·.response)).count call + world.returned call := by
    intro call
    rw [← List.count_append]
    exact returned_dropResponses _ call
  have hqueued : ∀ call, world.close.queued call = (world.sending.map (·.response)).count call := fun call => rfl
  refine ⟨h.calls, fun call => ?_, fun call => ?_, fun call => ?_⟩
  · have hplaces := h.places call
    have hheld : world.close.phase.held.count call = 0 := rfl
    have hcalls : world.close.calls = world.calls := rfl
    rw [queued] at hplaces
    rw [hreturned, hqueued, hheld, hcalls]
    omega
  · have hle := h.responded call
    have hsame : world.close.responded call = world.responded call := rfl
    rw [hreturned, hsame]
    omega
  · have hle := h.inserted call
    have hsame : world.close.inserted call = world.inserted call := rfl
    have hheld : world.close.phase.uninserted.count call = 0 := rfl
    have hcalls : world.close.calls = world.calls := rfl
    rw [queued] at hle
    rw [hqueued, hsame, hheld, hcalls]
    omega

end World

theorem CallerStep.counted {world next : World} (h : world.Counted) (hstep : CallerStep config world next) :
    next.Counted := by
  have hfresh : ∀ call, call ∉ world.calls → world.calls.count call = 0 := fun call => List.count_eq_zero.mpr
  cases hstep with
  | refused call hcall hhandles =>
      refine ⟨fun other => ?_, fun other => ?_, fun other => ?_, fun other => ?_⟩
      · have hle := h.calls other
        have hzero := hfresh call hcall
        simp only [World.refuse, List.count_cons, beq_iff_eq]
        split_ifs with heq
        · subst heq
          omega
        · omega
      · have hplaces := h.places other
        simp only [World.refuse, World.returned, World.queued, List.map_cons, List.count_cons] at hplaces ⊢
        omega
      · have hle := h.responded other
        simp only [World.refuse, World.returned, World.responded, List.map_cons, List.count_cons] at hle ⊢
        omega
      · have hle := h.inserted other
        simp only [World.refuse, World.inserted, World.queued, List.count_cons] at hle ⊢
        omega
  | prepared call event encodedLen hcall hhandles haccepting =>
      refine ⟨fun other => ?_, fun other => ?_, h.responded, fun other => ?_⟩
      · have hle := h.calls other
        have hzero := hfresh call hcall
        simp only [List.count_cons, beq_iff_eq]
        split_ifs with heq
        · subst heq
          omega
        · omega
      · have hplaces := h.places other
        simp only [World.returned, World.queued, List.map_append, List.map_singleton, List.count_append,
          List.count_nil, List.count_cons] at hplaces ⊢
        omega
      · have hle := h.inserted other
        simp only [World.inserted, World.queued, List.map_append, List.map_singleton, List.count_append,
          List.count_nil, List.count_cons] at hle ⊢
        omega
  | sent before command after hsending hopen hroom =>
      have hqueued : ∀ call, World.queued { world with
          sending := before ++ after
          channel := world.channel ++ [command] } call = world.queued call := by
        intro call
        simp only [World.queued, hsending, List.map_append, List.map_cons, List.map_nil, List.count_append,
          List.count_cons, List.count_nil]
        omega
      refine ⟨h.calls, fun call => ?_, h.responded, fun call => ?_⟩
      · rw [hqueued]
        exact h.places call
      · rw [hqueued]
        exact h.inserted call
  | unsent before command after hsending hclosed =>
      have hqueued : ∀ call, world.queued call = [command.response].count call
          + World.queued { world with sending := before ++ after } call := by
        intro call
        simp only [World.queued, hsending, List.map_append, List.map_cons, List.count_append, List.count_cons,
          List.count_nil]
        omega
      refine ⟨h.calls, fun call => ?_, fun call => ?_, fun call => ?_⟩
      · have hplaces := h.places call
        rw [hqueued] at hplaces
        rw [World.returned_dropResponses]
        simp only [World.returned, World.queued, World.dropResponses] at hplaces ⊢
        omega
      · rw [World.returned_dropResponses]
        exact (h.responded call).trans (Nat.le_add_left _ _)
      · have hle := h.inserted call
        rw [hqueued] at hle
        simp only [World.inserted, World.queued, World.dropResponses] at hle ⊢
        omega
  | shutdown => exact ⟨h.calls, h.places, h.responded, h.inserted⟩
  | released hsending => exact ⟨h.calls, h.places, h.responded, h.inserted⟩
  | aborted => exact h.close

/-- A step that moves calls from place to place and inserts no event twice. -/
theorem World.Counted.of_moves {world next : World} (h : world.Counted) (hcalls : next.calls = world.calls)
    (hplaces : ∀ call, next.returned call + next.queued call + next.phase.held.count call
      = world.returned call + world.queued call + world.phase.held.count call)
    (hresponded : ∀ call, next.responded call + world.returned call ≤ world.responded call + next.returned call)
    (hinserted : ∀ call, next.inserted call + next.queued call + next.phase.uninserted.count call
      ≤ world.inserted call + world.queued call + world.phase.uninserted.count call) : next.Counted := by
  refine ⟨fun call => ?_, fun call => ?_, fun call => ?_, fun call => ?_⟩
  · rw [hcalls]
    exact h.calls call
  · rw [hcalls, hplaces]
    exact h.places call
  · have hle := h.responded call
    have hmoved := hresponded call
    omega
  · rw [hcalls]
    exact (hinserted call).trans (h.inserted call)

/-- A command leaves the channel. -/
theorem World.queued_of_channel {world : World} {command : Command} {rest : List Command}
    (hchannel : world.channel = command :: rest) (call : Call) :
    world.queued call = (World.queued { world with channel := rest } call) + [command.response].count call := by
  simp only [World.queued, hchannel, List.map_cons, List.count_cons, List.count_nil]
  omega

/-- The batch and the carried command are what the task held; the batch goes to the store. -/
theorem World.Counted.beginFlush {world : World} (h : world.Counted) {loop : Loop} {batch : Batch}
    (hphase : world.phase = .collecting loop batch) (haligned : batch.responses = batch.events.map (·.call))
    (shutdownRequested : Bool) : (world.beginFlush loop batch none shutdownRequested).Counted := by
  refine h.of_moves rfl (fun call => ?_) (fun call => le_rfl) (fun call => ?_)
  · have hheld : (batch.responses ++ (none : Option Command).toList.map (·.response)).count call
        = batch.responses.count call := by rw [Option.toList_none, List.map_nil, List.append_nil]
    rw [hphase]
    exact congrArg (world.returned call + world.queued call + ·) hheld
  · rw [World.inserted_beginFlush, hphase, ← haligned]
    have hnone : (world.beginFlush loop batch none shutdownRequested).phase.uninserted.count call = 0 := rfl
    have hqueued : (world.beginFlush loop batch none shutdownRequested).queued call = world.queued call := rfl
    have hbatch : (Phase.collecting loop batch).uninserted = batch.responses := rfl
    rw [hnone, hqueued, hbatch]
    omega

theorem WriterStep.counted {world next : World} (hsound : world.Sound config) (h : world.Counted)
    (hstep : WriterStep config world next) : next.Counted := by
  cases hstep with
  | takeCarry loop command hphase =>
      refine h.of_moves rfl (fun call => ?_) (fun call => le_rfl) (fun call => ?_)
      · rw [hphase]
        rfl
      · rw [hphase]
        exact le_rfl
  | receive loop command rest hphase hchannel =>
      refine h.of_moves rfl (fun call => ?_) (fun call => le_rfl) (fun call => ?_)
      · have hheld : world.phase.held.count call = 0 := by
          rw [hphase]
          rfl
        change world.returned call + World.queued { world with channel := rest } call + [command.response].count call = _
        rw [World.queued_of_channel hchannel, hheld, Nat.add_zero, Nat.add_assoc]
      · have hheld : world.phase.uninserted.count call = 0 := by
          rw [hphase]
          rfl
        change world.inserted call + World.queued { world with channel := rest } call + [command.response].count call ≤ _
        rw [World.queued_of_channel hchannel, hheld, Nat.add_zero, Nat.add_assoc]
  | cancelled hphase hshutdown =>
      refine h.of_moves rfl (fun call => ?_) (fun call => le_rfl) (fun call => ?_)
      · rw [hphase]
        rfl
      · rw [hphase]
        exact le_rfl
  | disconnected hphase hchannel hhandles =>
      exact World.Counted.close ⟨h.calls, h.places, h.responded, h.inserted⟩
  | drained hphase hchannel => exact h.close
  | push loop batch command rest hphase hroom hchannel hpush =>
      refine h.of_moves rfl (fun call => ?_) (fun call => le_rfl) (fun call => ?_)
      · have hheld : world.phase.held.count call = batch.responses.count call := by
          rw [hphase]
          rfl
        change world.returned call + World.queued { world with channel := rest } call
          + (batch.responses ++ [command.response]).count call = _
        rw [World.queued_of_channel hchannel, hheld, List.count_append]
        omega
      · have hheld : world.phase.uninserted.count call = batch.responses.count call := by
          rw [hphase]
          rfl
        change world.inserted call + World.queued { world with channel := rest } call
          + (batch.responses ++ [command.response]).count call ≤ _
        rw [World.queued_of_channel hchannel, hheld, List.count_append]
        omega
  | carry loop batch command rest hphase hroom hchannel hpush =>
      have haligned := (hsound.batch batch (by rw [hphase, Phase.batch])).aligned
      refine h.of_moves rfl (fun call => ?_) (fun call => le_rfl) (fun call => ?_)
      · have hheld : world.phase.held.count call = batch.responses.count call := by
          rw [hphase]
          rfl
        change world.returned call + World.queued { world with channel := rest } call
          + (batch.responses ++ [command.response]).count call = _
        rw [World.queued_of_channel hchannel, hheld, List.count_append]
        omega
      · have hheld : world.phase.uninserted.count call = batch.responses.count call := by
          rw [hphase]
          rfl
        have hinserted := @World.inserted_beginFlush { world with channel := rest } loop batch (some command)
          false call
        rw [hinserted, ← haligned, World.queued_of_channel hchannel, hheld]
        change world.inserted call + batch.responses.count call + World.queued { world with channel := rest } call
          + [command.response].count call ≤ _
        omega
  | full loop batch hphase hroom =>
      exact h.beginFlush hphase (hsound.batch batch (by rw [hphase, Phase.batch])).aligned false
  | deadline batch hphase hroom =>
      exact h.beginFlush hphase (hsound.batch batch (by rw [hphase, Phase.batch])).aligned false
  | stopped batch hphase hroom hshutdown =>
      have hstopped : World.Counted { world with accepting := false } := ⟨h.calls, h.places, h.responded, h.inserted⟩
      exact hstopped.beginFlush hphase (hsound.batch batch (by rw [hphase, Phase.batch])).aligned true
  | exhausted loop batch hphase hroom hchannel hend =>
      exact h.beginFlush hphase (hsound.batch batch (by rw [hphase, Phase.batch])).aligned false
  | flushed loop batch carry shutdownRequested outcome hphase =>
      have haligned := (hsound.batch batch (by rw [hphase, Phase.batch])).aligned
      have hcalls := flushResponses_calls haligned outcome
      have hheld : ∀ call, world.phase.held.count call
          = batch.responses.count call + (carry.toList.map (·.response)).count call := by
        intro call
        rw [hphase]
        exact List.count_append
      have huninserted : ∀ call, world.phase.uninserted.count call = (carry.toList.map (·.response)).count call := by
        intro call
        rw [hphase]
        rfl
      have hreturned : ∀ call, (world.endFlush batch outcome).returned call
          = batch.responses.count call + world.returned call := by
        intro call
        rw [← hcalls]
        exact World.returned_respond _ call
      have hresponded : ∀ call, (world.endFlush batch outcome).responded call
          = batch.responses.count call + world.responded call := by
        intro call
        rw [← hcalls]
        exact World.responded_respond _ call
      rw [World.afterFlush]
      split_ifs
      · have hrejected : (carry.toList.map fun command : Command =>
            ((command.response, .error .unavailable) : Call × PersistResult)).map Prod.fst
              = carry.toList.map (·.response) := by
          rw [List.map_map]
          rfl
        refine h.of_moves rfl (fun call => ?_) (fun call => ?_) (fun call => ?_)
        · have hagain := (world.endFlush batch outcome).returned_respond
            (carry.toList.map fun command => (command.response, .error .unavailable)) call
          rw [hrejected, hreturned] at hagain
          rw [hheld]
          change ((world.endFlush batch outcome).respond _).returned call + world.queued call + 0 = _
          rw [hagain]
          omega
        · have hagain := (world.endFlush batch outcome).returned_respond
            (carry.toList.map fun command => (command.response, .error .unavailable)) call
          have hagain' := (world.endFlush batch outcome).responded_respond
            (carry.toList.map fun command => (command.response, .error .unavailable)) call
          rw [hrejected, hreturned] at hagain
          rw [hrejected, hresponded] at hagain'
          change ((world.endFlush batch outcome).respond _).responded call + world.returned call
            ≤ world.responded call + ((world.endFlush batch outcome).respond _).returned call
          rw [hagain, hagain']
          omega
        · rw [huninserted]
          exact Nat.add_le_add_left (Nat.zero_le _) _
      · refine h.of_moves rfl (fun call => ?_) (fun call => ?_) (fun call => ?_)
        · rw [hheld]
          change (world.endFlush batch outcome).returned call + world.queued call
            + (carry.toList.map (·.response)).count call = _
          rw [hreturned]
          omega
        · change (world.endFlush batch outcome).responded call + world.returned call
            ≤ world.responded call + (world.endFlush batch outcome).returned call
          rw [hreturned, hresponded]
          omega
        · rw [huninserted]
          exact le_rfl
  | elapsed batch carry shutdownRequested hphase =>
      refine h.of_moves rfl (fun call => ?_) (fun call => ?_) (fun call => ?_)
      · have hheld : world.phase.held.count call
            = batch.responses.count call + (carry.toList.map (·.response)).count call := by
          rw [hphase]
          exact List.count_append
        rw [hheld]
        change (world.dropResponses batch.responses).returned call + world.queued call
          + (carry.toList.map (·.response)).count call = _
        rw [World.returned_dropResponses]
        omega
      · change world.responded call + world.returned call
          ≤ world.responded call + (world.dropResponses batch.responses).returned call
        rw [World.returned_dropResponses]
        omega
      · rw [hphase]
        exact le_rfl
  | reject carry command rest hphase hchannel =>
      have hreturned : ∀ call, (World.respond { world with channel := rest }
          [(command.response, .error .unavailable)]).returned call = [command.response].count call + world.returned call :=
        fun call => World.returned_respond _ call
      have hresponded : ∀ call, (World.respond { world with channel := rest }
          [(command.response, .error .unavailable)]).responded call = [command.response].count call + world.responded call :=
        fun call => World.responded_respond _ call
      refine h.of_moves rfl (fun call => ?_) (fun call => ?_) (fun call => ?_)
      · rw [hreturned, World.queued_of_channel hchannel]
        change _ + World.queued { world with channel := rest } call + world.phase.held.count call = _
        omega
      · rw [hreturned, hresponded]
        omega
      · rw [World.queued_of_channel hchannel]
        change world.inserted call + World.queued { world with channel := rest } call + world.phase.uninserted.count call ≤ _
        omega
  | rejected carry hphase hchannel => exact h.close

/-! ### What the store reported -/

namespace World

/-- The statuses that the store reported, each with its event. -/
def reported (world : World) : List (PreparedEvent × EventWriteStatus) :=
  world.reports.flatMap fun report => reportedStatuses report.1 report.2

/-- Good results come from the store, and the handoff is offered what the store inserted. -/
structure Justified (world : World) : Prop where
  answered : ∀ (call : Call) (durable : DurableOutcome), (call, .ok durable) ∈ world.results →
    ∃ event status, (event, status) ∈ world.reported ∧ event.call = call ∧ statusResult status = .ok durable
  offered : world.offered = (world.reported.filter fun item => item.2 = .inserted).map Prod.fst

variable {world next : World}

/-- A step that reports and offers nothing, and adds no result that is good. -/
theorem Justified.of_errors (h : world.Justified) (hreports : next.reports = world.reports)
    (hoffered : next.offered = world.offered)
    (hresults : ∀ (call : Call) (durable : DurableOutcome), (call, .ok durable) ∈ next.results →
      (call, .ok durable) ∈ world.results) : next.Justified := by
  have hreported : next.reported = world.reported := by rw [reported, hreports, reported]
  refine ⟨fun call durable hmem => ?_, ?_⟩
  · rw [hreported]
    exact h.answered call durable (hresults call durable hmem)
  · rw [hoffered, hreported, h.offered]

/-- Responses that are errors are no good results. -/
theorem mem_of_errors {calls : List Call} {error : EventSinkError} {results : List (Call × PersistResult)} {call : Call}
    {durable : DurableOutcome}
    (hmem : (call, .ok durable) ∈ calls.map (fun call => ((call, .error error) : Call × PersistResult)) ++ results) :
    (call, .ok durable) ∈ results := by
  obtain hmem | hmem := List.mem_append.mp hmem
  · obtain ⟨other, -, heq⟩ := List.mem_map.mp hmem
    exact nomatch (Prod.ext_iff.mp heq).2
  · exact hmem

theorem Justified.close (h : world.Justified) : world.close.Justified :=
  h.of_errors rfl rfl fun _ _ => mem_of_errors

/-- A flush reports what it answers and offers. -/
theorem Justified.endFlush (h : world.Justified) {batch : Batch} (haligned : batch.responses = batch.events.map (·.call))
    (outcome : StoreOutcome) : (world.endFlush batch outcome).Justified := by
  have hreported : (world.endFlush batch outcome).reported
      = world.reported ++ reportedStatuses batch.events outcome := by
    rw [reported, World.endFlush, List.flatMap_append, List.flatMap_singleton]
    rfl
  refine ⟨fun call durable hmem => ?_, ?_⟩
  · rw [hreported]
    obtain hmem | hmem := List.mem_append.mp hmem
    · obtain ⟨event, status, hstatus, hrest⟩ := flushResponses_ok haligned hmem
      exact ⟨event, status, List.mem_append_right _ hstatus, hrest⟩
    · obtain ⟨event, status, hstatus, hrest⟩ := h.answered call durable hmem
      exact ⟨event, status, List.mem_append_left _ hstatus, hrest⟩
  · rw [hreported, List.filter_append, List.map_append, ← flushOffers_eq haligned, ← h.offered]
    rfl

end World

theorem CallerStep.justified {world next : World} (h : world.Justified) (hstep : CallerStep config world next) :
    next.Justified := by
  cases hstep with
  | refused call hcall hhandles =>
      exact h.of_errors rfl rfl fun other durable hmem => @World.mem_of_errors [call] _ _ _ _ hmem
  | prepared call event encodedLen hcall hhandles haccepting => exact h.of_errors rfl rfl fun _ _ hmem => hmem
  | sent before command after hsending hopen hroom => exact h.of_errors rfl rfl fun _ _ hmem => hmem
  | unsent before command after hsending hclosed => exact h.of_errors rfl rfl fun _ _ => World.mem_of_errors
  | shutdown => exact h.of_errors rfl rfl fun _ _ hmem => hmem
  | released hsending => exact h.of_errors rfl rfl fun _ _ hmem => hmem
  | aborted => exact h.close

theorem WriterStep.justified {world next : World} (hsound : world.Sound config) (h : world.Justified)
    (hstep : WriterStep config world next) : next.Justified := by
  cases hstep with
  | flushed loop batch carry shutdownRequested outcome hphase =>
      have hended := h.endFlush (hsound.batch batch (by rw [hphase, Phase.batch])).aligned outcome
      rw [World.afterFlush]
      split_ifs
      · refine hended.of_errors rfl rfl fun call durable hmem => ?_
        refine @World.mem_of_errors (carry.toList.map (·.response)) .unavailable _ _ _ ?_
        rw [List.map_map]
        exact hmem
      · exact hended.of_errors rfl rfl fun _ _ hmem => hmem
  | elapsed batch carry shutdownRequested hphase => exact h.of_errors rfl rfl fun _ _ => World.mem_of_errors
  | reject carry command rest hphase hchannel =>
      exact h.of_errors rfl rfl fun call durable hmem => @World.mem_of_errors [command.response] _ _ _ _ hmem
  | disconnected hphase hchannel hhandles =>
      exact World.Justified.close (h.of_errors rfl rfl fun _ _ hmem => hmem)
  | drained hphase hchannel => exact h.close
  | rejected carry hphase hchannel => exact h.close
  | _ => exact h.of_errors rfl rfl fun _ _ hmem => hmem

/-! ### Every world of the writer -/

/-- What holds in every world that the writer comes to. -/
structure World.Consistent (config : EventWriterConfig) (world : World) : Prop where
  sound : world.Sound config
  counted : world.Counted
  justified : world.Justified

theorem validateConfig_documents (h : validateConfig config = .ok ()) : 0 < config.maxDocuments := by
  rw [validateConfig] at h
  split_ifs at h with hvalid
  exact Nat.lt_of_lt_of_le (by decide) hvalid.2.1

theorem start_consistent {world : World} (h : start config = .ok world) : world.Consistent config := by
  simp only [start, bind_eq_ok, pure_eq_ok] at h
  obtain ⟨_, hvalid, rfl⟩ := h
  refine ⟨⟨?_, ?_, ?_, ?_, ?_⟩, ⟨?_, ?_, ?_, ?_⟩, ⟨?_, rfl⟩⟩
  · exact fun _ hmem => nomatch hmem
  · exact fun _ hmem => nomatch hmem
  · exact fun _ hcarry => nomatch hcarry
  · exact fun _ hbatch => nomatch hbatch
  · exact fun _ hmem => nomatch hmem
  · exact fun _ => Nat.zero_le _
  · exact fun _ => rfl
  · exact fun _ => le_rfl
  · exact fun _ => le_rfl
  · exact fun _ _ hmem => nomatch hmem

theorem CallerStep.consistent {world next : World} (h : world.Consistent config) (hstep : CallerStep config world next) :
    next.Consistent config :=
  ⟨hstep.sound h.sound, hstep.counted h.counted, hstep.justified h.justified⟩

theorem WriterStep.consistent (hconfig : 0 < config.maxDocuments) {world next : World} (h : world.Consistent config)
    (hstep : WriterStep config world next) : next.Consistent config :=
  ⟨hstep.sound hconfig h.sound, hstep.counted h.sound h.counted, hstep.justified h.sound h.justified⟩

/-- A writer was started, so its configuration is valid. -/
theorem Reachable.documents {world : World} (h : Reachable config world) : 0 < config.maxDocuments := by
  induction h with
  | start h =>
      simp only [EventWriter.start, bind_eq_ok, pure_eq_ok] at h
      obtain ⟨_, hvalid, _⟩ := h
      exact validateConfig_documents hvalid
  | caller _ _ ih => exact ih
  | writer _ _ ih => exact ih

theorem Reachable.consistent {world : World} (h : Reachable config world) : world.Consistent config := by
  induction h with
  | start h => exact start_consistent h
  | caller _ hstep ih => exact hstep.consistent ih
  | writer hreachable hstep ih => exact hstep.consistent hreachable.documents ih

/-! ### Waiting calls -/

/-- The shutdown has reached the task. -/
def Phase.draining : Phase → Bool
  | .choosing loop _ => loop = .drain
  | .collecting loop _ => loop = .drain
  | .flushing loop _ _ shutdownRequested => loop = .drain || shutdownRequested
  | .rejecting _ => true
  | .closed => false

/-- A task that is gone has dropped the channel, and one that drains has closed the admission. -/
structure World.Settled (world : World) : Prop where
  dropped : world.phase = .closed → world.channel = []
  admission : world.phase.draining = true → world.accepting = false

theorem World.Settled.close (world : World) : world.close.Settled := ⟨fun _ => rfl, nofun⟩

theorem CallerStep.settled {world next : World} (h : world.Settled) (hstep : CallerStep config world next) :
    next.Settled := by
  cases hstep with
  | sent before command after hsending hopen hroom => exact ⟨fun hclosed => absurd hclosed hopen, h.admission⟩
  | aborted => exact .close world
  | _ => exact ⟨h.dropped, h.admission⟩

theorem WriterStep.settled {world next : World} (h : world.Settled) (hstep : WriterStep config world next) :
    next.Settled := by
  cases hstep with
  | takeCarry loop command hphase =>
      refine ⟨nofun, fun hdrain => h.admission ?_⟩
      rw [hphase]
      exact hdrain
  | receive loop command rest hphase hchannel =>
      refine ⟨nofun, fun hdrain => h.admission ?_⟩
      rw [hphase]
      exact hdrain
  | cancelled hphase hshutdown => exact ⟨nofun, fun _ => rfl⟩
  | disconnected hphase hchannel hhandles => exact .close _
  | drained hphase hchannel => exact .close world
  | push loop batch command rest hphase hroom hchannel hpush =>
      refine ⟨nofun, fun hdrain => h.admission ?_⟩
      rw [hphase]
      exact hdrain
  | carry loop batch command rest hphase hroom hchannel hpush =>
      refine ⟨nofun, fun hdrain => h.admission ?_⟩
      rw [hphase]
      exact (Bool.or_false _).symm.trans hdrain
  | full loop batch hphase hroom =>
      refine ⟨nofun, fun hdrain => h.admission ?_⟩
      rw [hphase]
      exact (Bool.or_false _).symm.trans hdrain
  | deadline batch hphase hroom => exact ⟨nofun, nofun⟩
  | stopped batch hphase hroom hshutdown => exact ⟨nofun, fun _ => rfl⟩
  | exhausted loop batch hphase hroom hchannel hend =>
      refine ⟨nofun, fun hdrain => h.admission ?_⟩
      rw [hphase]
      exact (Bool.or_false _).symm.trans hdrain
  | flushed loop batch carry shutdownRequested outcome hphase =>
      have hdraining : world.phase.draining = (decide (loop = .drain) || shutdownRequested) := by rw [hphase, Phase.draining]
      rw [World.afterFlush]
      split_ifs with hrequested
      · refine ⟨nofun, fun _ => h.admission ?_⟩
        rw [hdraining, hrequested, Bool.or_true]
      · refine ⟨nofun, fun hdrain => h.admission ?_⟩
        have hloop : decide (loop = .drain) = true := hdrain
        rw [hdraining, hloop, Bool.true_or]
  | elapsed batch carry shutdownRequested hphase =>
      refine ⟨nofun, fun _ => h.admission ?_⟩
      rw [hphase]
      rfl
  | reject carry command rest hphase hchannel =>
      refine ⟨fun hclosed => ?_, h.admission⟩
      exact nomatch hphase.symm.trans hclosed
  | rejected carry hphase hchannel => exact .close world

/-- A call whose command was admitted and that has no response yet. -/
def World.Waiting (call : Call) (world : World) : Prop :=
  call ∈ world.channel.map (·.response) ∨ call ∈ world.phase.held

/-- The admitted calls that are not in a batch, in their order. -/
def World.line (world : World) : List Call := (world.phase.carry.toList ++ world.channel).map (·.response)

/-- How many calls of a line it takes to get to a call, which may be past the line. -/
def ahead (call : Call) (line : List Call) : Nat := if call ∈ line then line.idxOf call + 1 else 0

section ahead

variable {call first : Call} {line : List Call}

theorem ahead_of_not_mem (h : call ∉ line) : ahead call line = 0 := if_neg h

/-- The line moves on by one. -/
theorem ahead_tail_lt (hmem : call ∈ first :: line) (honce : (first :: line).count call ≤ 1) :
    ahead call line < ahead call (first :: line) := by
  rw [ahead, ahead, if_pos hmem]
  by_cases heq : first = call
  · subst heq
    rw [List.count_cons_self] at honce
    have hnot : first ∉ line := List.count_eq_zero.mp (by omega)
    rw [if_neg hnot]
    exact Nat.succ_pos _
  · have hrest : call ∈ line := (List.mem_cons.mp hmem).resolve_left fun h => heq h.symm
    rw [if_pos hrest, List.idxOf_cons_ne _ heq]
    exact Nat.lt_succ_self _

theorem ahead_tail_le (honce : (first :: line).count call ≤ 1) : ahead call line ≤ ahead call (first :: line) := by
  by_cases hmem : call ∈ first :: line
  · exact (ahead_tail_lt hmem honce).le
  · rw [ahead_of_not_mem fun h => hmem (List.mem_cons_of_mem _ h)]
    exact Nat.zero_le _

/-- Somebody behind the first in the line leaves it. -/
theorem ahead_second_le {second : Call} (honce : (first :: second :: line).count call ≤ 1) :
    ahead call (first :: line) ≤ ahead call (first :: second :: line) := by
  by_cases heq : first = call
  · subst heq
    rw [ahead, ahead, if_pos List.mem_cons_self, if_pos List.mem_cons_self, List.idxOf_cons_self, List.idxOf_cons_self]
  · have honce' : (second :: line).count call ≤ 1 := (List.count_le_count_cons).trans honce
    have hskip : ∀ rest, ahead call (first :: rest) = if call ∈ rest then ahead call rest + 1 else 0 := by
      intro rest
      by_cases hmem : call ∈ rest
      · rw [ahead, if_pos (List.mem_cons_of_mem _ hmem), if_pos hmem, List.idxOf_cons_ne _ heq, ahead, if_pos hmem]
      · rw [if_neg hmem, ahead_of_not_mem]
        exact fun h => (List.mem_cons.mp h).elim (fun h => heq h.symm) hmem
    rw [hskip, hskip]
    by_cases hmem : call ∈ line
    · rw [if_pos hmem, if_pos (List.mem_cons_of_mem _ hmem)]
      exact Nat.add_le_add_right (ahead_tail_le honce') 1
    · rw [if_neg hmem]
      exact Nat.zero_le _

theorem ahead_append_of_ne (hne : first ≠ call) : ahead call (line ++ [first]) = ahead call line := by
  by_cases hmem : call ∈ line
  · rw [ahead, ahead, if_pos hmem, if_pos (List.mem_append_left _ hmem), List.idxOf_append_of_mem hmem]
  · rw [ahead_of_not_mem hmem, ahead_of_not_mem]
    intro h
    obtain h | h := List.mem_append.mp h
    · exact hmem h
    · exact hne (List.mem_singleton.mp h).symm

end ahead

/-- How far the task is from the top of the next loop. -/
def Phase.stage : Phase → Nat
  | .choosing .run _ => 1
  | .collecting .run _ => 3
  | .flushing .run _ _ _ => 2
  | .choosing .drain _ => 0
  | .collecting .drain _ => 2
  | .flushing .drain _ _ _ => 1
  | .rejecting _ => 0
  | .closed => 0

/-- How many steps the task may take inside a phase: the room in the batch, or the commands there are to reject. -/
def World.spare (config : EventWriterConfig) (world : World) : Nat :=
  match world.phase with
  | .collecting _ batch => config.maxDocuments - batch.events.length
  | .rejecting _ => world.channel.length + world.sending.length
  | _ => 0

/-- What each step of the task lowers while a call waits. -/
def World.rank (config : EventWriterConfig) (call : Call) (world : World) : Nat ×ₗ Nat :=
  toLex (3 * ahead call world.line + world.phase.stage, world.spare config)

theorem Phase.carry_le (phase : Phase) (call : Call) :
    (phase.carry.toList.map (·.response)).count call ≤ phase.held.count call := by
  cases phase with
  | collecting loop batch => exact Nat.zero_le _
  | flushing loop batch carry shutdownRequested =>
      rw [Phase.carry, Phase.held, List.count_append]
      exact Nat.le_add_left _ _
  | _ => exact le_rfl

section rank

variable {world next : World} {call : Call}

theorem World.Counted.held_le (h : world.Counted) (call : Call) :
    (world.sending.map (·.response)).count call + (world.channel.map (·.response)).count call
      + world.phase.held.count call ≤ 1 := by
  have hplaces := h.places call
  have hcalls := h.calls call
  rw [World.queued] at hplaces
  omega

theorem World.Counted.line_le (h : world.Counted) (call : Call) : world.line.count call ≤ 1 := by
  have hheld := h.held_le call
  have hcarry := world.phase.carry_le call
  rw [World.line, List.map_append, List.count_append]
  omega

theorem rank_lt_of_lt {value value' spare spare' : Nat} (h : value < value') :
    toLex (value, spare) < toLex (value', spare') := Prod.Lex.toLex_lt_toLex.mpr (Or.inl h)

theorem rank_lt_of_le {value value' spare spare' : Nat} (h : value ≤ value') (hspare : spare < spare') :
    toLex (value, spare) < toLex (value', spare') := by
  obtain hlt | heq := h.lt_or_eq
  · exact rank_lt_of_lt hlt
  · exact Prod.Lex.toLex_lt_toLex.mpr (Or.inr ⟨heq, hspare⟩)

/-- Nobody waits for a task that is gone. -/
theorem not_waiting_close : ¬ world.close.Waiting call := by
  rintro (hmem | hmem)
  · exact nomatch hmem
  · exact nomatch hmem

/-- The task begins a flush without a carried command. -/
theorem rank_beginFlush {loop : Loop} {batch : Batch} (hphase : world.phase = .collecting loop batch)
    (shutdownRequested : Bool) :
    (world.beginFlush loop batch none shutdownRequested).rank config call < world.rank config call := by
  refine rank_lt_of_lt ?_
  have hline : (world.beginFlush loop batch none shutdownRequested).line = world.line := by
    rw [World.line, World.line, hphase]
    rfl
  have hstage : (world.beginFlush loop batch none shutdownRequested).phase.stage < world.phase.stage := by
    rw [hphase]
    cases loop <;> exact Nat.lt_succ_self _
  rw [hline]
  omega

theorem WriterStep.rank_lt (h : world.Counted) (hstep : WriterStep config world next) (hwaiting : world.Waiting call)
    (hnext : next.Waiting call) : next.rank config call < world.rank config call := by
  have honce := h.line_le call
  cases hstep with
  | takeCarry loop command hphase =>
      have hline : world.line = command.response :: world.channel.map (·.response) := by rw [World.line, hphase]; rfl
      have hmem : call ∈ world.line := by
        rw [hline]
        obtain hmem | hmem := hwaiting
        · exact List.mem_cons_of_mem _ hmem
        · rw [hphase] at hmem
          exact List.mem_cons.mpr (Or.inl (List.mem_singleton.mp hmem))
      rw [hline] at hmem honce
      have hlt := ahead_tail_lt hmem honce
      have hstage : (Phase.collecting loop (.new command)).stage ≤ world.phase.stage + 2 := by
        rw [hphase]
        cases loop <;> exact le_rfl
      refine rank_lt_of_lt ?_
      rw [hline]
      change 3 * ahead call (world.channel.map (·.response)) + (Phase.collecting loop (.new command)).stage < _
      omega
  | receive loop command rest hphase hchannel =>
      have hline : world.line = command.response :: rest.map (·.response) := by rw [World.line, hphase, hchannel]; rfl
      have hmem : call ∈ world.line := by
        obtain hmem | hmem := hwaiting
        · rw [hline]
          rw [hchannel] at hmem
          exact hmem
        · rw [hphase] at hmem
          exact nomatch hmem
      rw [hline] at hmem honce
      have hlt := ahead_tail_lt hmem honce
      have hstage : (Phase.collecting loop (.new command)).stage ≤ world.phase.stage + 2 := by
        rw [hphase]
        cases loop <;> exact le_rfl
      refine rank_lt_of_lt ?_
      rw [hline]
      change 3 * ahead call (rest.map (·.response)) + (Phase.collecting loop (.new command)).stage < _
      omega
  | cancelled hphase hshutdown =>
      refine rank_lt_of_lt ?_
      have hline : World.line { world with accepting := false, phase := .choosing .drain none } = world.line := by
        rw [World.line, World.line, hphase]
        rfl
      have hstage : world.phase.stage = 1 := by rw [hphase]; rfl
      rw [hline, hstage]
      exact Nat.lt_succ_self _
  | disconnected hphase hchannel hhandles => exact absurd hnext not_waiting_close
  | drained hphase hchannel => exact absurd hnext not_waiting_close
  | push loop batch command rest hphase hroom hchannel hpush =>
      have hline : world.line = command.response :: rest.map (·.response) := by rw [World.line, hphase, hchannel]; rfl
      rw [hline] at honce
      have hle := ahead_tail_le honce
      have hstage : (Phase.collecting loop (batch.push command)).stage = world.phase.stage := by
        rw [hphase]
        cases loop <;> rfl
      have hspare : world.spare config = config.maxDocuments - batch.events.length := by rw [World.spare, hphase]
      have hlength : (batch.push command).events.length = batch.events.length + 1 := List.length_append
      refine rank_lt_of_le ?_ ?_
      · rw [hline]
        change 3 * ahead call (rest.map (·.response)) + (Phase.collecting loop (batch.push command)).stage ≤ _
        omega
      · rw [hspare]
        change config.maxDocuments - (batch.push command).events.length < _
        omega
  | carry loop batch command rest hphase hroom hchannel hpush =>
      refine rank_lt_of_lt ?_
      have hline : (World.beginFlush { world with channel := rest } loop batch (some command) false).line = world.line := by
        rw [World.line, World.line, hphase, hchannel]
        rfl
      have hstage : (Phase.flushing loop batch (some command) false).stage < world.phase.stage := by
        rw [hphase]
        cases loop <;> exact Nat.lt_succ_self _
      rw [hline]
      exact Nat.add_lt_add_left hstage _
  | full loop batch hphase hroom => exact rank_beginFlush hphase false
  | deadline batch hphase hroom => exact rank_beginFlush hphase false
  | stopped batch hphase hroom hshutdown =>
      exact @rank_beginFlush config { world with accepting := false } call _ batch hphase true
  | exhausted loop batch hphase hroom hchannel hend => exact rank_beginFlush hphase false
  | flushed loop batch carry shutdownRequested outcome hphase =>
      have hline : world.line = carry.toList.map (·.response) ++ world.channel.map (·.response) := by
        rw [World.line, hphase, Phase.carry, List.map_append]
      have hstage : (Phase.choosing loop carry).stage < world.phase.stage := by
        rw [hphase]
        cases loop <;> exact Nat.lt_succ_self _
      refine rank_lt_of_lt ?_
      rw [World.afterFlush]
      split_ifs
      · have hle : ahead call (world.channel.map (·.response)) ≤ ahead call world.line := by
          rw [hline] at honce ⊢
          cases carry with
          | none => exact le_rfl
          | some command => exact ahead_tail_le honce
        change 3 * ahead call (world.channel.map (·.response)) + 0 < _
        omega
      · have hsame : World.line { world.endFlush batch outcome with phase := .choosing loop carry } = world.line := by
          rw [World.line, hline, List.map_append]
          rfl
        rw [hsame]
        exact Nat.add_lt_add_left hstage _
  | elapsed batch carry shutdownRequested hphase =>
      refine rank_lt_of_lt ?_
      have hline : World.line { world.dropResponses batch.responses with phase := .rejecting carry } = world.line := by
        rw [World.line, World.line, hphase]
        rfl
      have hstage : world.phase.stage = 1 := by rw [hphase]; rfl
      rw [hline, hstage]
      exact Nat.lt_succ_self _
  | reject carry command rest hphase hchannel =>
      have hline : world.line = carry.toList.map (·.response) ++ command.response :: rest.map (·.response) := by
        rw [World.line, hphase, hchannel, Phase.carry, List.map_append]
        rfl
      have hline' : (World.respond { world with channel := rest } [(command.response, .error .unavailable)]).line
          = carry.toList.map (·.response) ++ rest.map (·.response) := by
        change (world.phase.carry.toList ++ rest).map (·.response) = _
        rw [hphase, Phase.carry, List.map_append]
      have hle : ahead call (carry.toList.map (·.response) ++ rest.map (·.response)) ≤ ahead call world.line := by
        rw [hline] at honce ⊢
        cases carry with
        | none => exact ahead_tail_le honce
        | some first => exact ahead_second_le honce
      have hspare : world.spare config = rest.length + 1 + world.sending.length := by
        rw [World.spare, hphase, hchannel]
        rfl
      have hspare' : (World.respond { world with channel := rest } [(command.response, .error .unavailable)]).spare config
          = rest.length + world.sending.length := by
        change (match world.phase with | .collecting _ batch => _ | .rejecting _ => _ | _ => 0) = _
        rw [hphase]
        rfl
      refine rank_lt_of_le ?_ ?_
      · rw [hline']
        change _ + world.phase.stage ≤ _
        omega
      · rw [hspare, hspare']
        omega
  | rejected carry hphase hchannel => exact absurd hnext not_waiting_close

theorem CallerStep.rank_le (h : world.Counted) (hsettled : world.Settled) (hstep : CallerStep config world next)
    (hwaiting : world.Waiting call) (hnext : next.Waiting call) : next.rank config call ≤ world.rank config call := by
  cases hstep with
  | refused other hcall hhandles => exact le_rfl
  | prepared other event encodedLen hcall hhandles haccepting =>
      refine le_of_eq (congrArg (fun spare => toLex (3 * ahead call world.line + world.phase.stage, spare)) ?_)
      rw [World.spare, World.spare]
      cases hphase : world.phase with
      | rejecting carry =>
          have hclosed := hsettled.admission (by rw [hphase]; rfl)
          rw [World.isAccepting, hclosed, Bool.false_and] at haccepting
          exact nomatch haccepting
      | _ => rfl
  | sent before command after hsending hopen hroom =>
      have hne : command.response ≠ call := by
        rintro rfl
        have honce := h.held_le command.response
        have hcount : 0 < (world.sending.map (·.response)).count command.response := by
          rw [hsending, List.map_append, List.count_append, List.map_cons, List.count_cons_self]
          exact Nat.lt_add_left _ (Nat.succ_pos _)
        have hrest : 0 < (world.channel.map (·.response)).count command.response
            + world.phase.held.count command.response := by
          obtain hmem | hmem := hwaiting
          · exact Nat.lt_add_right _ (List.count_pos_iff.mpr hmem)
          · exact Nat.lt_add_left _ (List.count_pos_iff.mpr hmem)
        omega
      have hline : World.line { world with
          sending := before ++ after
          channel := world.channel ++ [command] } = world.line ++ [command.response] := by
        rw [World.line, World.line, ← List.append_assoc, List.map_append]
        rfl
      have hspare : World.spare config { world with
          sending := before ++ after
          channel := world.channel ++ [command] } = world.spare config := by
        rw [World.spare, World.spare]
        cases hphase : world.phase with
        | rejecting carry =>
            simp only [hsending, List.length_append, List.length_cons, List.length_nil]
            omega
        | _ => rfl
      rw [World.rank, World.rank, hline, hspare, ahead_append_of_ne hne]
  | unsent before command after hsending hclosed =>
      obtain hmem | hmem := hwaiting
      · rw [hsettled.dropped hclosed] at hmem
        exact nomatch hmem
      · rw [hclosed] at hmem
        exact nomatch hmem
  | shutdown => exact le_rfl
  | released hsending => exact le_rfl
  | aborted => exact absurd hnext not_waiting_close

/-- While a call waits, there is a step that the task can take. -/
theorem exists_writerStep (config : EventWriterConfig) (hsettled : world.Settled) (hwaiting : world.Waiting call) :
    ∃ next, WriterStep config world next := by
  cases hphase : world.phase with
  | choosing loop carry =>
      cases carry with
      | some command => exact ⟨_, .takeCarry loop command hphase⟩
      | none =>
          cases hchannel : world.channel with
          | cons command rest => exact ⟨_, .receive loop command rest hphase hchannel⟩
          | nil =>
              rw [World.Waiting, hchannel, hphase] at hwaiting
              exact hwaiting.elim nofun nofun
  | collecting loop batch =>
      by_cases hroom : batch.events.length < config.maxDocuments
      · cases hchannel : world.channel with
        | cons command rest =>
            cases hpush : batch.canPush command config with
            | true => exact ⟨_, .push loop batch command rest hphase hroom hchannel hpush⟩
            | false => exact ⟨_, .carry loop batch command rest hphase hroom hchannel hpush⟩
        | nil =>
            cases loop with
            | run => exact ⟨_, .deadline batch hphase hroom⟩
            | drain => exact ⟨_, .exhausted .drain batch hphase hroom hchannel (Or.inl rfl)⟩
      · exact ⟨_, .full loop batch hphase hroom⟩
  | flushing loop batch carry shutdownRequested =>
      exact ⟨_, .flushed loop batch carry shutdownRequested .timedOut hphase⟩
  | rejecting carry =>
      cases hchannel : world.channel with
      | cons command rest => exact ⟨_, .reject carry command rest hphase hchannel⟩
      | nil => exact ⟨_, .rejected carry hphase hchannel⟩
  | closed =>
      rw [World.Waiting, hsettled.dropped hphase, hphase] at hwaiting
      exact hwaiting.elim nofun nofun

end rank

theorem Reachable.settled {world : World} (h : Reachable config world) : world.Settled := by
  induction h with
  | start h =>
      simp only [EventWriter.start, bind_eq_ok, pure_eq_ok] at h
      obtain ⟨_, hvalid, rfl⟩ := h
      exact ⟨nofun, nofun⟩
  | caller _ hstep ih => exact hstep.settled ih
  | writer _ hstep ih => exact hstep.settled ih

/-- The call has been made and does not wait for a place in the channel. -/
def World.Past (call : Call) (world : World) : Prop := call ∈ world.calls ∧ call ∉ world.sending.map (·.response)

theorem CallerStep.past {world next : World} {call : Call} (h : world.Past call) (hstep : CallerStep config world next) :
    next.Past call := by
  cases hstep with
  | refused other hcall hhandles => exact ⟨List.mem_cons_of_mem _ h.1, h.2⟩
  | prepared other event encodedLen hcall hhandles haccepting =>
      refine ⟨List.mem_cons_of_mem _ h.1, fun hmem => ?_⟩
      rw [List.map_append, List.map_singleton, List.mem_append, List.mem_singleton] at hmem
      obtain hmem | rfl := hmem
      · exact h.2 hmem
      · exact hcall h.1
  | sent before command after hsending hopen hroom =>
      refine ⟨h.1, fun hmem => h.2 ?_⟩
      rw [List.map_append, List.mem_append] at hmem
      rw [hsending, List.map_append, List.mem_append]
      exact hmem.imp_right (List.mem_cons_of_mem _)
  | unsent before command after hsending hclosed =>
      refine ⟨h.1, fun hmem => h.2 ?_⟩
      change call ∈ (before ++ after).map (·.response) at hmem
      rw [List.map_append, List.mem_append] at hmem
      rw [hsending, List.map_append, List.mem_append]
      exact hmem.imp_right (List.mem_cons_of_mem _)
  | shutdown => exact h
  | released hsending => exact h
  | aborted => exact h

theorem WriterStep.past {world next : World} {call : Call} (h : world.Past call) (hstep : WriterStep config world next) :
    next.Past call := by
  cases hstep with
  | flushed loop batch carry shutdownRequested outcome hphase =>
      rw [World.afterFlush]
      split_ifs
      · exact h
      · exact h
  | _ => exact h

theorem World.Counted.past_of_waiting {world : World} (h : world.Counted) {call : Call} (hwaiting : world.Waiting call) :
    world.Past call := by
  have hrest : 0 < (world.channel.map (·.response)).count call + world.phase.held.count call := by
    obtain hmem | hmem := hwaiting
    · exact Nat.lt_add_right _ (List.count_pos_iff.mpr hmem)
    · exact Nat.lt_add_left _ (List.count_pos_iff.mpr hmem)
  have honce := h.held_le call
  have hplaces := h.places call
  rw [World.queued] at hplaces
  exact ⟨List.count_pos_iff.mp (by omega), List.count_eq_zero.mp (by omega)⟩

/-- A call that is past the channel and waits no more has returned. -/
theorem World.Counted.returned_of_past {world : World} (h : world.Counted) {call : Call} (hpast : world.Past call)
    (hwaiting : ¬ world.Waiting call) : world.returned call = 1 := by
  rw [World.Waiting, not_or] at hwaiting
  have hchannel := List.count_eq_zero.mpr hwaiting.1
  have hheld := List.count_eq_zero.mpr hwaiting.2
  have hsending := List.count_eq_zero.mpr hpast.2
  have hcalls := h.calls call
  have hmade := List.count_pos_iff.mpr hpast.1
  have hplaces := h.places call
  rw [World.queued, hchannel, hheld, hsending] at hplaces
  omega

/-- A call that waits at the start of a fair run returns in it. -/
theorem eventually_returned {run : Nat → World} {call : Call} (hreachable : Reachable config (run 0))
    (hwaiting : (run 0).Waiting call)
    (hfair : FairRun (WriterStep config) (CallerStep config) (World.Waiting call) run) :
    ∃ n, (run n).returned call = 1 := by
  have hreach := hfair.invariant_of_step (fun hreach hstep => Reachable.writer hreach hstep)
    (fun hreach hstep => Reachable.caller hreach hstep) hreachable
  have hpast := hfair.invariant_of_step (fun hpast hstep => WriterStep.past hpast hstep)
    (fun hpast hstep => CallerStep.past hpast hstep) (hreachable.consistent.counted.past_of_waiting hwaiting)
  obtain ⟨n, hn⟩ := @FairRun.eventually _ _ _ _ _ _ run _ (World.rank config call) _ hfair hreach
    (fun hreach hstep => hstep.rank_lt hreach.consistent.counted)
    (fun hreach hstep => hstep.rank_le hreach.consistent.counted hreach.settled)
  exact ⟨n, (hreach n).consistent.counted.returned_of_past (hpast n) hn⟩

/-- The protocol of the event writer, in every world that it comes to: a call gets at most one response and returns at
most once, no call is lost on its way, none is left when the task is gone, and one that was admitted returns as long as
the task goes on, which it can; an event is in at most one call of `insert_batch`, and these keep to the limits; a call
is told of an insert or a duplicate only where the store reported that of its own event; and the handoff is offered what
the store reported as inserted. -/
theorem event_writer_protocol {world : World} (h : Reachable config world) :
    (∀ call, world.responded call ≤ 1 ∧ world.returned call ≤ 1)
    ∧ (∀ call ∈ world.calls, world.returned call + world.queued call + world.phase.held.count call = 1)
    ∧ (world.phase = .closed → world.sending = [] → ∀ call ∈ world.calls, world.returned call = 1)
    ∧ (∀ call, world.Waiting call → ∃ next, WriterStep config world next)
    ∧ (∀ (run : Nat → World) (call : Call), run 0 = world → world.Waiting call →
        FairRun (WriterStep config) (CallerStep config) (World.Waiting call) run → ∃ n, (run n).returned call = 1)
    ∧ (world.inserts.flatten.map (·.call)).Nodup
    ∧ (∀ events ∈ world.inserts, Bounded config events)
    ∧ (∀ call, (call, .ok .accepted) ∈ world.results →
        ∃ event, (event, .inserted) ∈ world.reported ∧ event.call = call)
    ∧ (∀ call, (call, .ok .duplicate) ∈ world.results →
        ∃ event, (event, .duplicate) ∈ world.reported ∧ event.call = call)
    ∧ world.offered = (world.reported.filter fun item => item.2 = .inserted).map Prod.fst := by
  obtain ⟨hsound, hcounted, hjustified⟩ := h.consistent
  have hplaces : ∀ call ∈ world.calls, world.returned call + world.queued call + world.phase.held.count call = 1 := by
    intro call hcall
    have hmade := List.count_pos_iff.mpr hcall
    have hcalls := hcounted.calls call
    have hplaces := hcounted.places call
    omega
  refine ⟨fun call => ?_, hplaces, fun hclosed hsending call hcall => ?_, fun call hwaiting => ?_,
    fun run call hstart hwaiting hfair => ?_, ?_, hsound.inserts, fun call hmem => ?_, fun call hmem => ?_,
    hjustified.offered⟩
  · have hcalls := hcounted.calls call
    have hresponded := hcounted.responded call
    have hplaces := hcounted.places call
    omega
  · refine hcounted.returned_of_past ⟨hcall, ?_⟩ ?_
    · rw [hsending]
      exact nofun
    · rw [World.Waiting, h.settled.dropped hclosed, hclosed]
      exact fun hwaiting => hwaiting.elim nofun nofun
  · exact exists_writerStep config h.settled hwaiting
  · subst hstart
    exact eventually_returned h hwaiting hfair
  · refine List.nodup_iff_count_le_one.mpr fun call => ?_
    have hcalls := hcounted.calls call
    have hinserted := hcounted.inserted call
    rw [World.inserted] at hinserted
    omega
  · obtain ⟨event, status, hstatus, hcall, hresult⟩ := hjustified.answered call .accepted hmem
    cases status with
    | inserted => exact ⟨event, hstatus, hcall⟩
    | duplicate => exact nomatch hresult
    | rejected => exact nomatch hresult
  · obtain ⟨event, status, hstatus, hcall, hresult⟩ := hjustified.answered call .duplicate hmem
    cases status with
    | inserted => exact nomatch hresult
    | duplicate => exact ⟨event, hstatus, hcall⟩
    | rejected => exact nomatch hresult

def sampleEvent : AcceptedEvent := ⟨⟨42, ProjectId.positive_fortyTwo⟩, ⟨5⟩, ⟨1000, inRange_second⟩, 1, ⟨[]⟩⟩

def samplePrepared : PreparedEvent := ⟨0, sampleEvent, 20⟩

def sampleAdmitted : World where
  shutdown := false
  accepting := true
  handles := true
  calls := [0]
  sending := []
  channel := [⟨samplePrepared, 0⟩]
  phase := .choosing .run none
  responses := []
  results := []
  inserts := []
  reports := []
  offered := []

def sampleCollecting : World :=
  { sampleAdmitted with
    channel := []
    phase := .collecting .run (.new ⟨samplePrepared, 0⟩) }

def sampleAnswered : World :=
  ((sampleCollecting.beginFlush .run (.new ⟨samplePrepared, 0⟩) none false).endFlush (.new ⟨samplePrepared, 0⟩)
    (.statuses [.inserted])).afterFlush .run none false

/-- One call, from its admission to its answer. -/
def sampleRun : Nat → World
  | 0 => sampleAdmitted
  | 1 => sampleCollecting
  | 2 => sampleCollecting.beginFlush .run (.new ⟨samplePrepared, 0⟩) none false
  | _ => sampleAnswered

theorem sampleAdmitted_reachable : Reachable .defaultValue sampleAdmitted := by
  have hstart : Reachable .defaultValue { sampleAdmitted with calls := [], channel := [] } := .start rfl
  have hprepared := hstart.caller (.prepared 0 sampleEvent 20 (by decide) rfl rfl)
  exact hprepared.caller (.sent [] ⟨samplePrepared, 0⟩ [] rfl nofun (by decide))

theorem sampleRun_step (n : Nat) :
    WriterStep .defaultValue (sampleRun n) (sampleRun (n + 1)) ∨ n ≥ 3 ∧ sampleRun (n + 1) = sampleRun n := by
  match n with
  | 0 => exact Or.inl (.receive .run ⟨samplePrepared, 0⟩ [] rfl rfl)
  | 1 => exact Or.inl (.deadline (.new ⟨samplePrepared, 0⟩) rfl (by decide))
  | 2 => exact Or.inl (.flushed .run (.new ⟨samplePrepared, 0⟩) none false (.statuses [.inserted]) rfl)
  | n + 3 => exact Or.inr ⟨Nat.le_add_left 3 n, rfl⟩

theorem sampleRun_fair :
    FairRun (WriterStep .defaultValue) (CallerStep .defaultValue) (World.Waiting 0) sampleRun := by
  refine ⟨fun n => (sampleRun_step n).imp_right fun h => Or.inr h.2, fun n hwaiting => ?_⟩
  obtain hstep | ⟨hge, -⟩ := sampleRun_step n
  · exact ⟨n, le_rfl, hstep⟩
  · obtain ⟨m, rfl⟩ := Nat.exists_eq_add_of_le hge
    have hanswered : sampleRun (3 + m) = sampleAnswered := by rw [Nat.add_comm]; rfl
    rw [hanswered, World.Waiting] at hwaiting
    exact absurd hwaiting (by decide)

theorem event_writer_protocol_sample :
    (∃ n, (sampleRun n).returned 0 = 1) ∧ (0, .ok .accepted) ∈ sampleAnswered.results
      ∧ ∃ event, (event, .inserted) ∈ sampleAnswered.reported ∧ event.call = 0 := by
  have hanswered : Reachable .defaultValue (sampleRun 3) := by
    have hsteps : ∀ n ≤ 3, Reachable .defaultValue (sampleRun n) := by
      intro n hn
      induction n with
      | zero => exact sampleAdmitted_reachable
      | succ n ih =>
          obtain hstep | ⟨hge, -⟩ := sampleRun_step n
          · exact (ih (Nat.le_of_succ_le hn)).writer hstep
          · exact absurd hn (Nat.not_le.mpr (Nat.lt_succ_of_le hge))
    exact hsteps 3 le_rfl
  obtain ⟨-, -, -, -, hreturned, -⟩ := event_writer_protocol sampleAdmitted_reachable
  obtain ⟨-, -, -, -, -, -, -, haccepted, -⟩ := event_writer_protocol hanswered
  exact ⟨hreturned sampleRun 0 rfl (Or.inl (by decide)) sampleRun_fair, by decide, haccepted 0 (by decide)⟩

end EventWriter

end MetricBackend
