import MetricBackend.CatalogLinks
import MetricBackend.EventFinalizer

/-! When the requests of a batch stand for themselves. The batcher gives one result to all requests of a batch,
so a batch that is refused for good takes with it the requests that would have been taken alone. -/

namespace MetricBackend

namespace PostgresIssues

open Issues

/-! ### The store of Issues refuses for good -/

section Failures

variable {blake3 : List (BitVec 8) → BitVec 256} {compress : Compressor} {codec : IssueCodecConfig}

theorem failsWith_orInvalidData {α : Type} (stored : Option α) : FailsWith (· ≠ .unavailable) (orInvalidData stored) := by
  cases stored with
  | some value => exact failsWith_ok value
  | none =>
      rintro error ⟨⟩
      nofun

theorem decode_failures (row : IssueRow) : FailsWith (· ≠ .unavailable) (decode blake3 codec row) := by
  rw [decode]
  refine (failsWith_failIf (by simp)).bind fun _ _ => (failsWith_failIf (by simp)).bind fun _ _ => ?_
  exact (failsWith_failIf (by simp)).bind fun _ _ => (failsWith_failIf (by simp)).bind fun _ _ => failsWith_pure _

theorem updated_failures (batch : Batch) (issue : IssueSnapshot) :
    FailsWith (· ≠ .unavailable) (updated batch issue) := by
  rw [updated]
  refine (failsWith_failIf (by simp)).bind fun _ _ => (failsWith_failIf (by simp)).bind fun _ _ => ?_
  refine (failsWith_orInvalidData _).bind fun count _ => ?_
  dsimp only
  split_ifs
  · rw [withRegression]
    exact (failsWith_failIf (by simp)).bind fun _ _ => (failsWith_orInvalidData _).bind fun _ _ => failsWith_pure _
  · exact failsWith_pure _

theorem selectBatch_failures (occurrences : List IssueOccurrence) :
    FailsWith (· ≠ .unavailable) (selectBatch blake3 occurrences) := by
  rw [selectBatch]
  refine (failsWith_orInvalidData _).bind fun _ _ => (failsWith_failIf (by simp)).bind fun _ _ => ?_
  refine (failsWith_orInvalidData _).bind fun _ _ => (failsWith_orInvalidData _).bind fun _ _ => ?_
  refine (failsWith_orInvalidData _).bind fun _ _ => FailsWith.bind ?_ fun _ _ => failsWith_pure _
  refine FailsWith.foldlM (fun total occurrence => ?_) occurrences 0
  exact (failsWith_failIf (by simp)).bind fun _ _ => (failsWith_failIf (by simp)).bind fun _ _ => failsWith_pure _

theorem encodeJson_failures (value : Text) : FailsWith (· ≠ .unavailable) (encodeJson compress codec value) := by
  rw [encodeJson]
  refine (failsWith_failIf (by simp)).bind fun _ _ => (failsWith_orInvalidData _).bind fun _ _ => ?_
  split_ifs <;> exact failsWith_pure _

theorem applyBatch_failures (stored : Option IssueRow) (occurrences : List IssueOccurrence) :
    FailsWith (· ≠ .unavailable) (applyBatch blake3 compress codec stored occurrences) := by
  rw [applyBatch]
  refine (failsWith_failIf (by simp)).bind fun _ _ => (selectBatch_failures occurrences).bind fun batch _ => ?_
  refine (encodeJson_failures _).bind fun body _ => (failsWith_failIf (by simp)).bind fun _ _ => ?_
  cases stored with
  | none =>
      exact (failsWith_orInvalidData _).bind fun _ _ => (decode_failures _).bind fun _ _ => failsWith_pure _
  | some row =>
      refine (failsWith_failIf (by simp)).bind fun _ _ => (decode_failures row).bind fun _ _ => ?_
      exact (updated_failures batch _).bind fun _ _ => failsWith_pure _

end Failures

end PostgresIssues

namespace PostgresFinalization

open Finalization

section Failures

variable {env : Environment} {policy : FinalizationPolicy} {tables : FinalizationTables}

theorem failsWith_orInvalid {α : Type} (stored : Option α) : FailsWith (· ≠ .unavailable) (orInvalid stored) := by
  cases stored with
  | some value => exact failsWith_ok value
  | none =>
      rintro error ⟨⟩
      nofun

theorem addDuration_failures (timestamp : Timestamp) (duration : Duration) :
    FailsWith (· ≠ .unavailable) (addDuration timestamp duration) := by
  rw [addDuration]
  exact (failsWith_failIf (by simp)).bind fun _ _ => (failsWith_failIf (by simp)).bind fun _ _ => failsWith_pure _

theorem prepareAll_failures (batch : List FinalizeEvent) :
    FailsWith (· ≠ .unavailable) (prepareAll env policy batch) := by
  refine FailsWith.foldlM (fun prepared event => FailsWith.bind ?_ fun value _ => ?_) batch ∅
  · rw [prepare]
    refine (failsWith_failIf (by simp)).bind fun _ _ => (failsWith_orInvalid _).bind fun value _ => ?_
    refine (failsWith_failIf (by simp)).bind fun _ _ => FailsWith.bind ?_ fun body _ => ?_
    · rw [encodeCanonical]
      refine (failsWith_failIf (by simp)).bind fun _ _ => (failsWith_orInvalid _).bind fun _ _ => ?_
      split_ifs <;> exact failsWith_pure _
    · refine (failsWith_failIf (by simp)).bind fun _ _ => (addDuration_failures _ _).bind fun _ _ => ?_
      exact (addDuration_failures _ _).bind fun _ _ => failsWith_pure _
  · exact (failsWith_failIf (by simp)).bind fun _ _ => failsWith_pure _

theorem applyIssues_failures (issues : Table IssueRef PostgresIssues.IssueRow) (pending : List Prepared) :
    FailsWith (· ≠ .unavailable) (applyIssues env issues pending) := by
  refine FailsWith.foldlM (fun issues group => FailsWith.bind ?_ fun _ _ => failsWith_pure _) _ issues
  refine (PostgresIssues.applyBatch_failures _ _).mapError fun error herror => ?_
  cases error with
  | unavailable => exact absurd rfl herror
  | _ => nofun

theorem updateHourly_failures (hourly : Table HourRef HourlyRow) (pending : List Prepared) :
    FailsWith (· ≠ .unavailable) (updateHourly env policy hourly pending) := by
  refine FailsWith.foldlM (fun hourly group => ?_) _ hourly
  rw [updateHour]
  refine (addDuration_failures _ _).bind fun expire _ => ?_
  split
  · exact failsWith_pure _
  · exact (failsWith_failIf (by simp)).bind fun _ _ => (failsWith_failIf (by simp)).bind fun _ _ => failsWith_pure _

theorem materializeReleases_failures (limit : Nat) (catalog : Catalog) (pending : List Prepared) :
    FailsWith (· ≠ .unavailable) (materializeReleases env limit catalog pending) := by
  refine (failsWith_failIf (by simp)).bind fun _ _ => FailsWith.foldlM (fun catalog group => ?_) _ catalog
  rw [materializeRelease]
  refine (failsWith_orInvalid _).bind fun _ _ => (failsWith_orInvalid _).bind fun version _ => ?_
  refine (failsWith_failIf (by simp)).bind fun _ _ => ?_
  dsimp only
  split_ifs
  · exact failsWith_pure _
  · refine (failsWith_orInvalid _).bind fun first _ => (failsWith_orInvalid _).bind fun latest _ => ?_
    refine FailsWith.bind ?_ fun written _ => ?_
    · rw [writeRelease]
      split
      · exact (failsWith_failIf (by simp)).bind fun _ _ => failsWith_pure _
      · refine FailsWith.bind ?_ fun _ _ => failsWith_pure _
        rw [chargeRelease]
        refine (failsWith_orInvalid _).bind fun charge _ => (failsWith_orInvalid _).bind fun scope _ => ?_
        exact (failsWith_failIf (by simp)).bind fun _ _ => failsWith_pure _
    · exact (failsWith_failIf (by simp)).bind fun _ _ => failsWith_pure _

theorem materializeEnvironments_failures (limit : Nat) (catalog : Catalog) (pending : List Prepared) :
    FailsWith (· ≠ .unavailable) (materializeEnvironments env limit catalog pending) := by
  refine FailsWith.foldlM (fun catalog group => ?_) _ catalog
  rw [materializeEnvironment]
  refine (failsWith_orInvalid _).bind fun _ _ => (failsWith_orInvalid _).bind fun name _ => ?_
  refine (failsWith_failIf (by simp)).bind fun _ _ => (failsWith_failIf (by simp)).bind fun _ _ => ?_
  refine (failsWith_orInvalid _).bind fun scope _ => ?_
  dsimp only
  split_ifs
  · exact failsWith_pure _
  · refine (failsWith_orInvalid _).bind fun first _ => (failsWith_orInvalid _).bind fun last _ => ?_
    exact (failsWith_failIf (by simp)).bind fun _ _ => failsWith_pure _
  · exact (failsWith_orInvalid _).bind fun first _ => (failsWith_orInvalid _).bind fun last _ => failsWith_pure _

theorem lockPending_failures (prepared : Table EventKey Prepared) (scopes : Table ProjectId Scope) :
    FailsWith (· ≠ .unavailable) (lockPending tables prepared scopes) :=
  FailsWith.mapM (fun _ => (failsWith_failIf (by simp)).bind fun _ _ => failsWith_pure _) _

/-- A call that is refused is refused for good: the guard of its last statement finds all rows. -/
theorem finalizeInner_failures (batch : List FinalizeEvent) :
    FailsWith (· ≠ .unavailable) (finalizeInner env policy tables batch) := by
  rw [finalizeInner]
  refine (failsWith_failIf (by simp)).bind fun _ _ => (failsWith_failIf (by simp)).bind fun _ _ => ?_
  refine (prepareAll_failures batch).bind fun prepared hprepared => ?_
  refine (lockPending_failures prepared _).bind fun pending hlocked => ?_
  obtain ⟨hnodup, hspec⟩ := lockPending_spec hprepared hlocked
  have hrows : AllPending tables.events pending := ⟨hnodup, fun value hvalue => (hspec value hvalue).1.row⟩
  split_ifs
  · exact failsWith_pure _
  · refine FailsWith.bind ?_ fun _ _ => failsWith_pure _
    rw [finalizePending]
    refine (applyIssues_failures _ pending).bind fun issues _ => (updateHourly_failures _ pending).bind fun hourly _ => ?_
    refine (materializeReleases_failures _ _ pending).bind fun released _ => ?_
    refine (materializeEnvironments_failures _ released pending).bind fun catalog _ => ?_
    rw [hrows.filter_isPending]
    refine FailsWith.bind (fun error herror => ?_) fun _ _ => failsWith_pure _
    exact absurd rfl (failIf_eq_error.mp herror).1

end Failures

/-! ### When the store takes a batch -/

/-- The store takes the Events together: each is valid and no two have one key, and those that are pending fit the
stored Issues, hours and catalogs. -/
def Storable (env : Environment) (policy : FinalizationPolicy) (tables : FinalizationTables)
    (batch : List FinalizeEvent) : Prop :=
  ∃ prepared pending, prepareAll env policy batch = .ok prepared
    ∧ lockPending tables prepared (loadScopes tables prepared) = .ok pending
    ∧ Compatible env policy tables (loadScopes tables prepared) pending

section Storable

variable {env : Environment} {policy : FinalizationPolicy} {tables : FinalizationTables} {batch : List FinalizeEvent}

theorem compatible_nil (scopes : Table ProjectId Scope) : Compatible env policy tables scopes [] where
  issues := ⟨tables.issues, by simp [applyIssues, occurrenceGroups, Table.groupFold]; rfl⟩
  hours := ⟨tables.hourly, by simp [updateHourly, hourGroups, Table.groupFold]; rfl⟩
  versions := by simp [releaseGroups, Table.groupFold]
  links := rfl
  names := by simp [environmentGroups, Table.groupFold]

theorem prepareBatch_eq (hpolicy : validatePolicy policy = .ok ()) (hne : batch ≠ []) (hsize : batch.length ≤ maxBatch) :
    prepareBatch env policy batch = prepareAll env policy batch := by
  have hchecked : failIf (batch.length < 1 ∨ maxBatch < batch.length) FinalizationStoreError.invalidData = .ok () := by
    have hpositive := List.length_pos_of_ne_nil hne
    exact failIf_eq_ok.mpr (by omega)
  rw [prepareBatch, hpolicy, hchecked]
  rfl

theorem finalizeInner_ok_iff (hpolicy : validatePolicy policy = .ok ()) (hne : batch ≠ [])
    (hsize : batch.length ≤ maxBatch) :
    (∃ result, finalizeInner env policy tables batch = .ok result) ↔ Storable env policy tables batch := by
  have hlength : ¬ (batch.length < 1 ∨ maxBatch < batch.length) := by
    have hpositive := List.length_pos_of_ne_nil hne
    omega
  constructor
  · rintro ⟨⟨result, next⟩, hcall⟩
    obtain ⟨prepared, pending, hprepared, hlocked, -, ⟨rfl, -⟩ | hcommitted⟩ := finalizeInner_eq_ok hcall
    · exact ⟨prepared, [], hprepared, hlocked, compatible_nil _⟩
    · refine ⟨prepared, pending, hprepared, hlocked, ?_⟩
      refine (compatible_iff hcommitted.allPending fun value hvalue => ?_).mp ⟨next, hcommitted.finalized⟩
      exact ((lockPending_spec hprepared hlocked).2 value hvalue).2
  · rintro ⟨prepared, pending, hprepared, hlocked, hcompatible⟩
    obtain ⟨hnodup, hspec⟩ := lockPending_spec hprepared hlocked
    obtain ⟨next, hnext⟩ := (compatible_iff ⟨hnodup, fun value hvalue => (hspec value hvalue).1.row⟩
      fun value hvalue => (hspec value hvalue).2).mpr hcompatible
    simp only [finalizeInner, bind_eq_ok, hpolicy, hprepared, hlocked, failIf_eq_ok, Except.ok.injEq, exists_eq_left',
      hlength, not_false_eq_true, true_and]
    split_ifs
    · exact ⟨_, (), (), rfl⟩
    · exact ⟨_, (), (), bind_eq_ok.mpr ⟨next, hnext, rfl⟩⟩

end Storable

end PostgresFinalization

namespace EventFinalizer

open PostgresFinalization

/-! ### When a batch is refused for good -/

/-- The request is told that its Event has failed for good. -/
def permanent : FinalizerAnswer → Bool
  | .ok () => false
  | .error failure => failure.failureClass = .permanent

/-- The finalizer takes the Events in one batch, they are prepared, and the store takes them unless it cannot be
reached. -/
structure Acceptable (config : FinalizerConfig) (env : Environment) (tables : FinalizationTables) (ending : CallEnding)
    (events : List FinalizeEvent) : Prop where
  size : events.length ≤ config.maxBatchEvents
  keys : (events.map FinalizeEvent.key).Nodup
  valid : ∀ event ∈ events, validateEvent event config.maxProcessedBodyBytes = .ok ()
  prepared : ∃ prepared, prepareAll env config.policy events = .ok prepared
  stored : ending ≠ .aborted → Storable env config.policy tables events

section Answers

variable {config : FinalizerConfig} {env : Environment} {tables : FinalizationTables} {ending : CallEnding}
  {events : List FinalizeEvent}

theorem validateEvents_eq_ok {maxBodyBytes : Nat} {keys : List EventKey} :
    validateEvents maxBodyBytes keys events = .ok () ↔ (∀ event ∈ events, event.key ∉ keys)
      ∧ (events.map FinalizeEvent.key).Nodup ∧ ∀ event ∈ events, validateEvent event maxBodyBytes = .ok () := by
  induction events generalizing keys with
  | nil => simp [validateEvents]
  | cons event events ih =>
      rw [List.forall_mem_cons, List.forall_mem_cons]
      simp only [validateEvents, bind_eq_ok, failIf_eq_ok, ih, List.map_cons, List.nodup_cons, List.mem_cons, not_or]
      constructor
      · rintro ⟨-, hfresh, ⟨⟩, hvalid, hothers, hnodup, hevents⟩
        refine ⟨⟨hfresh, fun other hother => (hothers other hother).2⟩, ⟨?_, hnodup⟩, hvalid, hevents⟩
        intro hmem
        obtain ⟨other, hother, hkey⟩ := List.mem_map.mp hmem
        exact (hothers other hother).1 hkey
      · rintro ⟨⟨hfresh, hothers⟩, ⟨hnotmem, hnodup⟩, hvalid, hevents⟩
        refine ⟨(), hfresh, (), hvalid, fun other hother => ⟨fun hkey => ?_, hothers other hother⟩, hnodup, hevents⟩
        exact hnotmem (List.mem_map.mpr ⟨other, hother, hkey⟩)

theorem validateBatch_eq_ok (hne : events ≠ []) : validateBatch config events = .ok () ↔
    events.length ≤ config.maxBatchEvents ∧ (events.map FinalizeEvent.key).Nodup
      ∧ ∀ event ∈ events, validateEvent event config.maxProcessedBodyBytes = .ok () := by
  simp only [validateBatch, bind_eq_ok, failIf_eq_ok, validateEvents_eq_ok, List.isEmpty_iff, hne, false_or, not_lt]
  constructor
  · rintro ⟨-, hsize, -, hnodup, hevents⟩
    exact ⟨hsize, hnodup, hevents⟩
  · rintro ⟨hsize, hnodup, hevents⟩
    exact ⟨(), hsize, fun _ _ => List.not_mem_nil, hnodup, hevents⟩

theorem validateBatch_failures : FailsWith (· ≠ .unavailable) (validateBatch config events) := by
  have hloop : ∀ keys, FailsWith (· ≠ .unavailable) (validateEvents config.maxProcessedBodyBytes keys events) := by
    induction events with
    | nil => exact fun _ => failsWith_ok ()
    | cons event events ih =>
        intro keys
        refine (failsWith_failIf (by simp)).bind fun _ _ => FailsWith.bind ?_ fun _ _ => ih _
        exact (failsWith_failIf (by simp)).bind fun _ _ => (failsWith_failIf (by simp)).bind fun _ _ => failsWith_failIf (by simp)
  exact (failsWith_failIf (by simp)).bind fun _ _ => hloop []

/-- The policy of a configuration that is taken passes the check of the store. -/
theorem policy_valid (hconfig : config.valid) : validatePolicy config.policy = .ok () := by
  simp only [FinalizerConfig.valid, decide_eq_true_eq, Bool.not_eq_true'] at hconfig
  obtain ⟨-, -, -, -, hevents, heventMax, hhours, hhourMax, hreleases, henvironments⟩ := hconfig
  have hbound : FinalizerConfig.hardMaxRetention.asMillis ≤ i64Max := by decide
  refine failIf_eq_ok.mpr ?_
  simp only [FinalizerConfig.policy, hevents, hhours, Bool.false_eq_true, false_or, not_or, not_lt]
  refine ⟨?_, ?_, (Duration.asMillis_mono heventMax).trans hbound, (Duration.asMillis_mono hhourMax).trans hbound⟩
  · rintro hzero
    rw [hzero] at hreleases
    cases hreleases
  · rintro hzero
    rw [hzero] at henvironments
    cases henvironments

/-- The answer of the store is no refusal exactly when the Events are prepared, and stored unless the store is not
reached. -/
theorem answer_storable (hconfig : config.valid) (hne : events ≠ []) (hsize : events.length ≤ config.maxBatchEvents) :
    (∃ result, answer env config.policy tables events ending = .ok result)
        ∨ answer env config.policy tables events ending = .error .unavailable ↔
      (∃ prepared, prepareAll env config.policy events = .ok prepared)
        ∧ (ending ≠ .aborted → Storable env config.policy tables events) := by
  have hmax : events.length ≤ maxBatch := by
    simp only [FinalizerConfig.valid, decide_eq_true_eq] at hconfig
    exact hsize.trans hconfig.2.1
  have hpolicy := policy_valid hconfig
  have hprepared : Storable env config.policy tables events →
      ∃ prepared, prepareAll env config.policy events = .ok prepared := by
    rintro ⟨prepared, -, hprepared, -⟩
    exact ⟨prepared, hprepared⟩
  cases ending with
  | aborted =>
      rw [answer, prepareBatch_eq hpolicy hne hmax]
      cases hcall : prepareAll env config.policy events with
      | ok prepared => simp [Except.bind]
      | error error => simp [Except.bind, prepareAll_failures events error hcall]
  | committed acknowledged =>
      rw [and_iff_right_of_imp fun h => hprepared (h CallEnding.noConfusion), ← finalizeInner_ok_iff hpolicy hne hmax]
      cases hcall : finalizeInner env config.policy tables events with
      | ok value => cases acknowledged <;> simp [answer, hcall, Except.bind, Except.map]
      | error error =>
          have herror := finalizeInner_failures events error hcall
          cases acknowledged <;> simp [answer, hcall, Except.bind, Except.map, herror]

/-- A batch is refused for good exactly when it is not acceptable. -/
theorem permanent_respond (hconfig : config.valid) (hne : events ≠ []) :
    permanent (respond config env tables ending events) = false ↔ Acceptable config env tables ending events := by
  have hvalid := @validateBatch_eq_ok config events hne
  cases hbatch : validateBatch config events with
  | error error =>
      have herror := validateBatch_failures error hbatch
      have hnot : ¬ Acceptable config env tables ending events := by
        rintro ⟨hsize, hkeys, hevents, -, -⟩
        rw [hvalid.mpr ⟨hsize, hkeys, hevents⟩] at hbatch
        cases hbatch
      refine iff_of_false ?_ hnot
      rw [respond, finalize, hbatch]
      cases error <;> first | exact absurd rfl herror | exact nofun
  | ok value =>
      obtain ⟨hsize, hkeys, hevents⟩ := hvalid.mp hbatch
      have hstored := @answer_storable config env tables ending events hconfig hne hsize
      have hacceptable : Acceptable config env tables ending events ↔
          (∃ prepared, prepareAll env config.policy events = .ok prepared)
            ∧ (ending ≠ .aborted → Storable env config.policy tables events) :=
        ⟨fun h => ⟨h.prepared, h.stored⟩, fun h => ⟨hsize, hkeys, hevents, h.1, h.2⟩⟩
      rw [hacceptable, ← hstored, respond, finalize, hbatch]
      cases hanswer : answer env config.policy tables events ending with
      | ok result => exact iff_of_true rfl (.inl ⟨result, rfl⟩)
      | error error =>
          cases error with
          | unavailable => exact iff_of_true rfl (.inr rfl)
          | invalidData => exact iff_of_false nofun (by rintro (⟨_, h⟩ | h) <;> cases h)
          | identityCollision => exact iff_of_false nofun (by rintro (⟨_, h⟩ | h) <;> cases h)

end Answers

/-! ### Every run of the batcher -/

/-- The requests of a batch stand for themselves: they are acceptable together, or none of them is alone. -/
def Isolated (config : FinalizerConfig) (env : Environment) (tables : FinalizationTables) (ending : CallEnding)
    (requests : List FinalizeEvent) : Prop :=
  Acceptable config env tables ending requests
    ∨ ∀ event ∈ requests, ¬ Acceptable config env tables ending [event]

/-- The batch that a step takes is isolated. -/
def StepIsolated (config : FinalizerConfig) (batching : FinalizerBatchConfig) (env : Environment)
    (batcher : FinalizerBatcher) : BatcherStep → Prop
  | .batch count ending => Isolated config env batcher.tables ending (taken batching count batcher)
  | _ => True

/-- No request has failed for good that would not have alone. -/
def Spared (batcher : FinalizerBatcher) : Prop :=
  ∀ response ∈ batcher.responses, permanent response.alone = false → permanent response.answer = false

section Runs

variable {config : FinalizerConfig} {batching : FinalizerBatchConfig} {env : Environment}

theorem isolated_iff (hconfig : config.valid) {tables : FinalizationTables} {ending : CallEnding}
    {requests : List FinalizeEvent} :
    (∀ event ∈ requests, permanent (respond config env tables ending [event]) = false →
      permanent (respond config env tables ending requests) = false) ↔
      Isolated config env tables ending requests := by
  rcases eq_or_ne requests [] with rfl | hne
  · exact iff_of_true (fun _ h => absurd h List.not_mem_nil) (.inr fun _ h => absurd h List.not_mem_nil)
  · rw [permanent_respond hconfig hne]
    simp only [permanent_respond hconfig (List.cons_ne_nil _ []), Isolated]
    constructor
    · intro h
      by_cases hall : Acceptable config env tables ending requests
      · exact .inl hall
      · exact .inr fun event hevent halone => hall (h event hevent halone)
    · rintro (hall | hnone) event hevent halone
      · exact hall
      · exact absurd halone (hnone event hevent)

theorem spared_append {batcher next : FinalizerBatcher} {responses : List FinalizerResponse}
    (hnext : next.responses = batcher.responses ++ responses) (h : Spared batcher) :
    Spared next ↔ ∀ response ∈ responses, permanent response.alone = false → permanent response.answer = false := by
  rw [Spared, hnext, List.forall_mem_append]
  exact and_iff_right h

/-- One step keeps its requests from harm exactly when it is isolated. -/
theorem spared_step (hconfig : config.valid) {batcher : FinalizerBatcher} {step : BatcherStep} (h : Spared batcher) :
    Spared (stepBatcher config batching env batcher step) ↔ StepIsolated config batching env batcher step := by
  have hrefused : ∀ event, permanent (refused event).alone = false → permanent (refused event).answer = false :=
    fun _ _ => rfl
  cases step with
  | send event =>
      refine iff_of_true ?_ trivial
      rw [stepBatcher]
      split_ifs
      · exact h
      · refine (spared_append rfl h).mpr fun response hresponse => ?_
        rw [List.mem_singleton.mp hresponse]
        exact hrefused event
  | batch count ending =>
      rw [stepBatcher, spared_append rfl h, StepIsolated, ← isolated_iff hconfig, List.forall_mem_map]
  | close => exact iff_of_true h trivial
  | giveUp =>
      refine iff_of_true ?_ trivial
      rw [stepBatcher]
      split_ifs
      · exact h
      · refine (spared_append rfl h).mpr fun response hresponse => ?_
        obtain ⟨event, -, rfl⟩ := List.mem_map.mp hresponse
        exact hrefused event
  | other step => exact iff_of_true h trivial

end Runs

/-- Over every run of the batcher, no request fails for good that would not have failed so alone, exactly when the
requests of every batch stand for themselves. -/
theorem requests_spared_iff (config : FinalizerConfig) (hconfig : config.valid) (batching : FinalizerBatchConfig)
    (env : Environment) (batcher : FinalizerBatcher) (hstart : batcher.responses = []) (steps : List BatcherStep) :
    Always (stepBatcher config batching env) Spared batcher steps ↔
      Throughout (stepBatcher config batching env) (StepIsolated config batching env) batcher steps := by
  refine always_iff_throughout (fun _ h => h) (fun state step h hallowed => (spared_step hconfig h).mpr hallowed)
    (fun state step h hnot => mt (spared_step hconfig h).mp hnot) steps batcher ?_
  rw [Spared, hstart]
  exact fun _ h => absurd h List.not_mem_nil

/-- `FinalizerBatchConfig::default`. -/
def defaultBatching : FinalizerBatchConfig where
  channelCapacity := 4096
  maxWait := Duration.fromMillis 5
  maxEvents := 256
  shutdownDrain := Duration.fromSecs 10

/-- The batcher after one Event is accepted. -/
def startedBatcher : FinalizerBatcher := ⟨true, [], acceptedTables, []⟩

theorem requests_spared_iff_alone : Always (stepBatcher .defaultValue defaultBatching quotaEnvironment) Spared
    startedBatcher [.send quotaEvent, .batch 1 (.committed true)] := by
  have hconfig : FinalizerConfig.defaultValue.valid := by decide
  refine (requests_spared_iff .defaultValue hconfig defaultBatching quotaEnvironment startedBatcher rfl _).mpr
    ⟨trivial, .inl ?_, trivial⟩
  refine (permanent_respond hconfig (List.cons_ne_nil quotaEvent [])).mp ?_
  decide

/-- The attempt that timed out is still in the queue when the Event is tried again: alone either request is
finalized, together they fail for good. -/
theorem retried_request_fails :
    ∃ response ∈ (([.send quotaEvent, .send quotaEvent, .batch 2 (.committed true)] : List BatcherStep).foldl
      (stepBatcher .defaultValue defaultBatching quotaEnvironment) startedBatcher).responses,
        permanent response.alone = false ∧ permanent response.answer = true := by
  decide

end EventFinalizer

end MetricBackend
