import MetricBackend.NotificationDispatch

/-! What one call of `expand_once` consumes. A transition can be expanded exactly when no more than
`EXPANSION_RULE_LIMIT` rules match it and each of them is valid, a condition that expansion does not
change. The loop stops at the first transition that cannot be expanded and leaves it first in the
queue, so what stands behind it waits for as long as it does. -/

namespace MetricBackend.NotificationDispatch

open MongoNotifications

variable (blake3 : List (BitVec 8) → BitVec 256) {store : NotificationStore}
  {transition : IssueNotificationTransition}

/-- The stored rules that match a transition. -/
def matchingDocuments (store : NotificationStore) (transition : IssueNotificationTransition) :
    List (AlertRuleId × RuleDocument) :=
  store.alertRules.toList.filter (·.2.matchesKind transition.projectId transition.kind)

/-- At most 256 rules match the transition and all of them are valid. -/
def Expandable (store : NotificationStore) (transition : IssueNotificationTransition) : Prop :=
  (matchingDocuments store transition).length ≤ expansionRuleLimit
    ∧ ∀ row ∈ matchingDocuments store transition, row.2.rule.validate = .ok ()

instance : DecidablePred (Expandable store) := fun transition =>
  inferInstanceAs (Decidable ((matchingDocuments store transition).length ≤ expansionRuleLimit
    ∧ ∀ row ∈ matchingDocuments store transition, row.2.rule.validate = .ok ()))

/-- The transitions an issue still lists. -/
def pendingIds (issues : Table IssueId IssueDocument) (issueId : IssueId) : List IssueTransitionId :=
  ((issues[issueId]?.bind (·.transitions)).getD []).map (·.id)

/-- The project of an issue. -/
def owner (issues : Table IssueId IssueDocument) (issueId : IssueId) : Option ProjectId :=
  issues[issueId]?.map (·.projectId)

/-- The transitions before the first one that is not expandable. -/
def expandedPrefix (store : NotificationStore) (transitions : List IssueNotificationTransition) :
    List IssueNotificationTransition :=
  transitions.takeWhile fun transition => Expandable store transition

/-! ### Matching rules -/

theorem mapM_decodeRule_eq_ok {rows : List (AlertRuleId × RuleDocument)} {rules : List AlertRule} :
    rows.mapM decodeRule = .ok rules ↔
      (∀ row ∈ rows, row.2.rule.validate = .ok ()) ∧ rules = rows.map decoded :=
  mapM_eq_ok_iff (fun row : AlertRuleId × RuleDocument => row.2.rule.validate = .ok ()) decoded
    decodeRule_eq_ok

/-- The rules of a transition load exactly when the transition is expandable. -/
theorem matchingRules_eq_ok {rules : List AlertRule} :
    matchingRules store transition.projectId transition.kind expansionRuleLimit = .ok rules ↔
      Expandable store transition
        ∧ rules = (matchingDocuments store transition).map decoded := by
  simp only [matchingRules, bind_eq_ok, failIf_eq_ok, pure_eq_ok, mapM_decodeRule_eq_ok]
  change (∃ _, _ ∧ ∃ loaded, ((∀ row ∈ (matchingDocuments store transition).take _, _)
    ∧ loaded = ((matchingDocuments store transition).take _).map _) ∧ _) ↔ _
  constructor
  · rintro ⟨_, -, _, ⟨hvalid, rfl⟩, _, hlength, rfl⟩
    rw [List.length_map, List.length_take, not_lt] at hlength
    have hfew : (matchingDocuments store transition).length ≤ expansionRuleLimit := by omega
    rw [List.take_of_length_le (Nat.le_succ_of_le hfew)] at hvalid ⊢
    exact ⟨⟨hfew, hvalid⟩, rfl⟩
  · rintro ⟨⟨hfew, hvalid⟩, rfl⟩
    rw [List.take_of_length_le (Nat.le_succ_of_le hfew)]
    refine ⟨(), by decide, _, ⟨hvalid, rfl⟩, (), ?_, rfl⟩
    rw [List.length_map]
    omega

/-! ### Deliveries -/

theorem payloadOf_ok {json : Text} (hempty : json ≠ []) (h : byteLength json ≤ maxNotificationPayloadBytes) :
    ∃ payload, payloadOf json = .ok payload := by
  rw [← length_utf8Bytes] at h
  have hbytes : utf8Bytes json ≠ [] := by
    obtain ⟨c, rest, rfl⟩ := List.exists_cons_of_ne_nil hempty
    intro hnil
    have := c.utf8Size_pos
    have hlength := length_utf8Bytes (c :: rest)
    rw [hnil, byteLength_cons, List.length_nil] at hlength
    omega
  obtain ⟨payload, hpayload, -⟩ := notificationPayload_new_eq_ok hbytes h
  exact ⟨payload, mapError_eq_ok.mpr hpayload⟩

theorem byteLength_hexIdentity_le {kind : IdentityKind} (id : Identity kind) :
    byteLength (jsonString (hexEncode id.bytes)) ≤ 194 := by
  have h := byteLength_jsonString_le (hexEncode id.bytes)
  rw [byteLength_hexEncode, length_bytes] at h
  exact h

/-- A title is bounded, so the payload of a transition always fits. -/
theorem notificationPayload_ok (transition : IssueNotificationTransition) (ruleId : AlertRuleId)
    (destinationId : NotificationDestinationId) :
    ∃ payload, notificationPayload transition ruleId destinationId = .ok payload := by
  have hdestination := byteLength_hexIdentity_le destinationId
  have hevent := byteLength_hexIdentity_le transition.eventId
  have hissue := byteLength_hexIdentity_le transition.issueId
  have hrule := byteLength_hexIdentity_le ruleId
  have htransition := byteLength_hexIdentity_le transition.transitionId
  have htitle := (byteLength_jsonString_le transition.title.asStr).trans
    (Nat.add_le_add_right (Nat.mul_le_mul_left 6 transition.title.valid.2) 2)
  have hkind : byteLength (jsonString (kindName transition.kind)) ≤ 12 := by
    cases transition.kind <;> decide
  have hcreated : byteLength (jsonInteger transition.createdAt.unixMillis) ≤ 16 := by
    have := transition.createdAt.inRange
    unfold minTimestampMillis maxTimestampMillis at this
    exact byteLength_jsonInteger_le (by omega) (by decide)
  have hproject : byteLength (jsonInteger transition.projectId.get) ≤ 11 := by
    have := transition.projectId.positive
    exact byteLength_jsonInteger_le (by omega) (by decide)
  refine payloadOf_ok (by simp [notificationJson, jsonObject]) ?_
  refine (byteLength_jsonObject_le _).trans ?_
  have hnames : ["destination_id", "event_id", "issue_id", "occurred_at_ms", "project_id", "rule_id",
      "title", "transition_id", "type", "version"].map (fun name => byteLength name.toList)
      = [14, 8, 8, 14, 10, 7, 5, 13, 4, 7] := by decide
  simp only [List.map_cons, List.map_nil, List.cons.injEq] at hnames
  have hversion : byteLength (jsonNumber 1) = 1 := by decide
  simp only [List.map_cons, List.map_nil, List.sum_cons, List.sum_nil, hnames, hversion]
  unfold maxIssueTitleBytes at htitle
  unfold maxNotificationPayloadBytes
  omega

theorem addDelivery_ok (ruleId : AlertRuleId) (deliveries : List NotificationDelivery)
    (destinationId : NotificationDestinationId) :
    ∃ next, addDelivery blake3 transition ruleId deliveries destinationId = .ok next := by
  obtain ⟨payload, hpayload⟩ := notificationPayload_ok transition ruleId destinationId
  simp only [addDelivery]
  split_ifs
  · exact ⟨deliveries, rfl⟩
  · rw [hpayload]
    exact ⟨_, rfl⟩

theorem transitionDeliveries_ok {rules : List AlertRule}
    (hvalid : ∀ rule ∈ rules, rule.validate = .ok ()) :
    ∃ deliveries, transitionDeliveries blake3 transition rules = .ok deliveries := by
  refine foldlM_ok_of_forall rules [] fun deliveries rule hrule => ?_
  rw [hvalid rule hrule]
  exact foldlM_ok_of_forall _ _ fun deliveries destinationId _ =>
    addDelivery_ok blake3 rule.id deliveries destinationId

/-- The delivery is one of the transition, as the store checks again. -/
def Belongs (transition : IssueNotificationTransition) (delivery : NotificationDelivery) : Prop :=
  delivery.transitionId = transition.transitionId ∧ delivery.projectId = transition.projectId
    ∧ delivery.issueId = transition.issueId

theorem addDelivery_belongs {ruleId : AlertRuleId} {deliveries next : List NotificationDelivery}
    {destinationId : NotificationDestinationId} (hall : ∀ delivery ∈ deliveries, Belongs transition delivery)
    (h : addDelivery blake3 transition ruleId deliveries destinationId = .ok next) :
    ∀ delivery ∈ next, Belongs transition delivery := by
  simp only [addDelivery] at h
  split_ifs at h
  · cases h
    exact hall
  · simp only [bind_eq_ok, pure_eq_ok] at h
    obtain ⟨payload, -, rfl⟩ := h
    intro delivery hdelivery
    rcases List.mem_append.mp hdelivery with hold | hnew
    · exact hall delivery hold
    · rw [List.mem_singleton.mp hnew]
      exact ⟨rfl, rfl, rfl⟩

theorem transitionDeliveries_belong {rules : List AlertRule} {deliveries : List NotificationDelivery}
    (h : transitionDeliveries blake3 transition rules = .ok deliveries) :
    ∀ delivery ∈ deliveries, Belongs transition delivery := by
  refine foldlM_ok_induction (fun deliveries => ∀ delivery ∈ deliveries, Belongs transition delivery)
    rules [] deliveries h (by simp) fun before rule after _ hbefore hpass => ?_
  simp only [bind_eq_ok, mapError_eq_ok] at hpass
  obtain ⟨_, -, hdestinations⟩ := hpass
  exact foldlM_ok_induction _ rule.destinationIds before after hdestinations hbefore
    fun _ _ _ _ hall hadd => addDelivery_belongs blake3 hall hadd

theorem enqueueDelivery_eq (store : NotificationStore) (delivery : NotificationDelivery) :
    ∃ deliveries, enqueueDelivery store delivery = ({ store with deliveries := deliveries }, .ok ()) := by
  have hpayload : ¬ delivery.payload.asBytes.isEmpty = true := by
    simpa using delivery.payload.valid.1
  simp only [enqueueDelivery, encodeDelivery, failIf, if_neg hpayload]
  exact ⟨_, rfl⟩

/-- The deliveries of a transition are written to the last one, and nothing else is. -/
theorem expandTransition_eq {deliveries : List NotificationDelivery}
    (hall : ∀ delivery ∈ deliveries, Belongs transition delivery) (store : NotificationStore) :
    ∃ table, expandTransition store transition deliveries
      = (removeTransition { store with deliveries := table } transition, .ok ()) := by
  induction deliveries generalizing store with
  | nil => exact ⟨store.deliveries, rfl⟩
  | cons delivery deliveries ih =>
      obtain ⟨table, htable⟩ := enqueueDelivery_eq store delivery
      obtain ⟨rest, hrest⟩ := ih (fun other hother => hall other (List.mem_cons_of_mem _ hother))
        { store with deliveries := table }
      refine ⟨rest, Eq.trans ?_ hrest⟩
      have hbelongs := hall delivery (by simp)
      unfold expandTransition
      rw [runUntilError_cons_ok]
      rw [if_neg]
      · exact htable
      · rintro (h | h | h)
        · exact h hbelongs.1
        · exact h hbelongs.2.1
        · exact h hbelongs.2.2

/-! ### One transition -/

@[simp] theorem removeTransition_alertRules (store : NotificationStore)
    (transition : IssueNotificationTransition) :
    (removeTransition store transition).alertRules = store.alertRules := by
  unfold removeTransition
  repeat' split
  all_goals rfl

theorem plannedDeliveries_of_expandable (h : Expandable store transition) :
    ∃ deliveries, plannedDeliveries blake3 store transition = .ok deliveries
      ∧ ∀ delivery ∈ deliveries, Belongs transition delivery := by
  have hvalid : ∀ rule ∈ (matchingDocuments store transition).map decoded,
      rule.validate = .ok () := by
    intro rule hrule
    obtain ⟨row, hrow, rfl⟩ := List.mem_map.mp hrule
    exact h.2 row hrow
  obtain ⟨deliveries, hdeliveries⟩ := transitionDeliveries_ok blake3 hvalid
  refine ⟨deliveries, ?_, transitionDeliveries_belong blake3 hdeliveries⟩
  simp only [plannedDeliveries, bind_eq_ok, mapError_eq_ok]
  exact ⟨_, matchingRules_eq_ok.mpr ⟨h, rfl⟩, hdeliveries⟩

/-- An expandable transition is expanded: its rules are read, its deliveries written and the
transition removed. -/
theorem expand_of_expandable (h : Expandable store transition) :
    ∃ next, expand blake3 store transition = (next, .ok ()) ∧ next.alertRules = store.alertRules
      ∧ next.issues = (removeTransition store transition).issues := by
  obtain ⟨deliveries, hplanned, hbelong⟩ := plannedDeliveries_of_expandable blake3 h
  obtain ⟨table, htable⟩ := expandTransition_eq hbelong store
  refine ⟨removeTransition { store with deliveries := table } transition, ?_, ?_, ?_⟩
  · simp only [expand, hplanned, htable, Except.mapError]
  · exact removeTransition_alertRules _ _
  · simp only [removeTransition]
    repeat' split
    all_goals simp_all

/-- A transition that is not expandable fails before anything is written. -/
theorem expand_of_not_expandable (h : ¬ Expandable store transition) :
    ∃ error, expand blake3 store transition = (store, .error error) := by
  cases hplanned : plannedDeliveries blake3 store transition with
  | ok deliveries =>
      simp only [plannedDeliveries, bind_eq_ok, mapError_eq_ok] at hplanned
      obtain ⟨rules, hrules, -⟩ := hplanned
      exact absurd (matchingRules_eq_ok.mp hrules).1 h
  | error error =>
      refine ⟨error, ?_⟩
      simp only [expand, hplanned]

/-! ### Queues -/

/-- The issue a removal leaves. -/
theorem get_removeTransition (issueId : IssueId) :
    (removeTransition store transition).issues[issueId]? = store.issues[issueId]?
      ∨ ∃ issue transitions, transition.issueId = issueId ∧ store.issues[issueId]? = some issue
        ∧ issue.transitions = some transitions
        ∧ (removeTransition store transition).issues[issueId]?
          = some (issue.remove transitions transition.transitionId) := by
  unfold removeTransition
  split
  · exact .inl rfl
  · rename_i issue hissue
    split
    · exact .inl rfl
    · rename_i transitions htransitions
      split_ifs
      · by_cases hkey : transition.issueId = issueId
        · subst hkey
          exact .inr ⟨issue, transitions, rfl, hissue, htransitions, Table.get_insert_self ..⟩
        · exact .inl (Table.get_insert_of_ne _ _ hkey)
      · exact .inl rfl

theorem owner_removeTransition (issueId : IssueId) :
    owner (removeTransition store transition).issues issueId = owner store.issues issueId := by
  unfold owner
  rcases get_removeTransition issueId with h | ⟨issue, transitions, -, hissue, -, h⟩
  · rw [h]
  · rw [h, hissue]
    rfl

theorem ids_remove (issue : IssueDocument) (transitions : List PendingTransition)
    (id : IssueTransitionId) :
    ((issue.remove transitions id).transitions.getD []).map (·.id)
      = (transitions.map (·.id)).filter (· ≠ id) := by
  rw [List.filter_map]
  simp only [IssueDocument.remove]
  split_ifs with h
  · rw [List.isEmpty_iff] at h
    show [] = (transitions.filter fun transition => transition.id ≠ id).map (·.id)
    rw [h]
    rfl
  · rfl

/-- Removing a transition takes its identity off the list of its issue. -/
theorem mem_pendingIds_removeTransition
    (howner : owner store.issues transition.issueId = some transition.projectId) (issueId : IssueId)
    (id : IssueTransitionId) :
    id ∈ pendingIds (removeTransition store transition).issues issueId ↔
      id ∈ pendingIds store.issues issueId
        ∧ ¬ (transition.issueId = issueId ∧ transition.transitionId = id) := by
  by_cases hkey : transition.issueId = issueId
  · subst hkey
    obtain ⟨issue, hissue, howned⟩ := Option.map_eq_some_iff.mp howner
    have hpending : pendingIds store.issues transition.issueId
        = (issue.transitions.getD []).map (·.id) := by
      unfold pendingIds
      rw [hissue]
      rfl
    cases htransitions : issue.transitions with
    | none =>
        have hsame : removeTransition store transition = store := by
          simp only [removeTransition, hissue, htransitions]
        rw [hsame, hpending, htransitions]
        simp
    | some transitions =>
        by_cases hmem : transition.transitionId ∈ transitions.map (·.id)
        · have hissues : (removeTransition store transition).issues[transition.issueId]?
              = some (issue.remove transitions transition.transitionId) := by
            simp only [removeTransition, hissue, htransitions, if_pos (And.intro howned hmem)]
            exact Table.get_insert_self ..
          rw [hpending, htransitions, Option.getD_some]
          unfold pendingIds
          rw [hissues, Option.bind_some, ids_remove, List.mem_filter, decide_eq_true_eq]
          refine and_congr_right fun _ => ⟨fun hne hsame => hne hsame.2.symm, fun hnot hsame => ?_⟩
          exact hnot ⟨rfl, hsame.symm⟩
        · have hsame : removeTransition store transition = store := by
            simp only [removeTransition, hissue, htransitions]
            exact if_neg fun h => hmem h.2
          rw [hsame, hpending, htransitions, Option.getD_some]
          refine (and_iff_left_of_imp fun hid => ?_).symm
          rintro ⟨-, rfl⟩
          exact hmem hid
  · have hsame : (removeTransition store transition).issues[issueId]? = store.issues[issueId]? := by
      rcases get_removeTransition issueId with h | ⟨_, _, hkey', _⟩
      · exact h
      · exact absurd hkey' hkey
    unfold pendingIds
    rw [hsame]
    simp [hkey]

/-! ### One call -/

theorem expandable_congr {other : NotificationStore} (h : other.alertRules = store.alertRules)
    (transition : IssueNotificationTransition) :
    Expandable other transition ↔ Expandable store transition := by
  simp only [Expandable, matchingDocuments, h]

/-- A run over a batch takes its expanded prefix off the queues and nothing more. -/
theorem mem_pendingIds_runUntilError (transitions : List IssueNotificationTransition)
    (store : NotificationStore)
    (howner : ∀ transition ∈ transitions,
      owner store.issues transition.issueId = some transition.projectId)
    (issueId : IssueId) (id : IssueTransitionId) :
    id ∈ pendingIds (runUntilError (expand blake3) store transitions).1.issues issueId ↔
      id ∈ pendingIds store.issues issueId ∧ ∀ transition ∈ expandedPrefix store transitions,
        ¬ (transition.issueId = issueId ∧ transition.transitionId = id) := by
  induction transitions generalizing store with
  | nil => simp [runUntilError, expandedPrefix]
  | cons transition rest ih =>
      by_cases h : Expandable store transition
      · obtain ⟨next, hexpand, hrules, hissues⟩ := expand_of_expandable blake3 h
        have hbefore : expandedPrefix store (transition :: rest)
            = transition :: expandedPrefix next rest := by
          simp only [expandedPrefix, List.takeWhile_cons, h, expandable_congr hrules, decide_true,
            if_true]
        have hrest : ∀ other ∈ rest, owner next.issues other.issueId = some other.projectId := by
          intro other hother
          rw [hissues, owner_removeTransition]
          exact howner other (List.mem_cons_of_mem _ hother)
        rw [runUntilError_cons_ok hexpand, ih next hrest, hissues, hbefore, List.forall_mem_cons,
          mem_pendingIds_removeTransition (howner transition (by simp)), and_assoc]
      · obtain ⟨error, hexpand⟩ := expand_of_not_expandable blake3 h
        rw [runUntilError_cons_error hexpand]
        simp [expandedPrefix, h]

/-- The issue of a transition belongs to its project and lists it. -/
def Listed (store : NotificationStore) (transition : IssueNotificationTransition) : Prop :=
  owner store.issues transition.issueId = some transition.projectId
    ∧ transition.transitionId ∈ pendingIds store.issues transition.issueId

theorem decodeIssueTransitions_listed {issueId : IssueId} {issue : IssueDocument}
    {output result : List IssueNotificationTransition} {limit : Nat}
    (hissue : store.issues[issueId]? = some issue)
    (houtput : ∀ transition ∈ output, Listed store transition)
    (h : decodeIssueTransitions issueId issue output limit = .ok result) :
    ∀ transition ∈ result, Listed store transition := by
  simp only [decodeIssueTransitions, bind_eq_ok, failIf_eq_ok, pure_eq_ok] at h
  obtain ⟨transitions, htransitions, _, -, rfl⟩ := h
  intro transition hmem
  rcases List.mem_append.mp hmem with hold | hnew
  · exact houtput transition hold
  · obtain ⟨pending, hpending, rfl⟩ := List.mem_map.mp hnew
    have hsome : issue.transitions = some transitions := by
      cases hvalue : issue.transitions with
      | none =>
          rw [hvalue] at htransitions
          cases htransitions
      | some value =>
          rw [hvalue] at htransitions
          cases htransitions
          rfl
    constructor
    · simp [owner, IssueDocument.transition, hissue]
    · simp only [pendingIds, IssueDocument.transition, hissue, Option.bind_some, hsome,
        Option.getD_some]
      exact List.mem_map_of_mem (List.mem_of_mem_take hpending)

/-- A batch holds transitions that their issues list. -/
theorem pendingTransitions_listed {limit : Nat} {batch : List IssueNotificationTransition}
    (h : pendingTransitions store limit = .ok batch) :
    ∀ transition ∈ batch, Listed store transition := by
  simp only [pendingTransitions, bind_eq_ok, failIf_eq_ok] at h
  obtain ⟨_, -, hfold⟩ := h
  refine foldlM_ok_induction (fun output => ∀ transition ∈ output, Listed store transition) _ _ _
    hfold (by simp) fun output row next hrow houtput hpass => ?_
  have hissue : store.issues[row.1]? = some row.2 :=
    Table.mem_toList.mp (List.mem_filter.mp (List.mem_of_mem_take hrow)).1
  split_ifs at hpass
  · cases hpass
    exact houtput
  · exact decodeIssueTransitions_listed hissue houtput hpass

/-- What one call takes off the queue of an issue. -/
theorem mem_pendingIds_expandOnce {limit : Nat} {batch : List IssueNotificationTransition}
    (h : pendingTransitions store limit = .ok batch) (issueId : IssueId) (id : IssueTransitionId) :
    id ∈ pendingIds (expandOnce blake3 store limit).1.issues issueId ↔
      id ∈ pendingIds store.issues issueId ∧ ∀ transition ∈ expandedPrefix store batch,
        ¬ (transition.issueId = issueId ∧ transition.transitionId = id) := by
  simp only [expandOnce, h]
  exact mem_pendingIds_runUntilError blake3 batch store
    (fun transition hmem => (pendingTransitions_listed h transition hmem).1) issueId id

/-- A batch is expanded as far as its first transition that cannot be: every expandable transition is
consumed exactly when none of them stands behind that one alone. -/
theorem expand_once_isolated_iff {limit : Nat} {batch : List IssueNotificationTransition}
    (h : pendingTransitions store limit = .ok batch) :
    (∀ transition ∈ batch, Expandable store transition →
      transition.transitionId ∉
        pendingIds (expandOnce blake3 store limit).1.issues transition.issueId) ↔
    ∀ transition ∈ batch, Expandable store transition →
      ∃ expanded ∈ expandedPrefix store batch, expanded.issueId = transition.issueId
        ∧ expanded.transitionId = transition.transitionId := by
  refine forall₂_congr fun transition hmem => imp_congr_right fun _ => ?_
  rw [mem_pendingIds_expandOnce blake3 h]
  have hlisted := (pendingTransitions_listed h transition hmem).2
  constructor
  · intro hgone
    by_contra hnone
    refine hgone ⟨hlisted, fun expanded hexpanded hsame => hnone ⟨expanded, hexpanded, hsame⟩⟩
  · rintro ⟨expanded, hexpanded, hsame⟩ ⟨-, hall⟩
    exact hall expanded hexpanded hsame

/-! A queue of two issues: project 7 has 257 rules for new issues, project 8 has one. -/

def queueRule (projectId : ProjectId) (id : Nat) : AlertRule where
  id := ⟨id⟩
  projectId := projectId
  name := ⟨"new issues".toList, by decide⟩
  enabled := true
  triggers := [.newIssue]
  aggregate := none
  monitor := none
  destinationIds := [⟨5⟩]
  cooldownMinutes := 0
  stormLimitPerHour := 100
  nextEvaluationAt := none
  lastTriggeredAt := none
  stormWindowStartedAt := none
  stormCount := 0
  thresholdMet := false
  createdAt := ⟨1700000000000, inRange_sampleStart⟩
  updatedAt := ⟨1700000000000, inRange_sampleStart⟩

def queueIssue (projectId : ProjectId) (transitionId : Nat) : IssueDocument where
  projectId := projectId
  title := ⟨"TypeError".toList, by decide⟩
  pending := true
  transitions := some [⟨⟨transitionId⟩, .newIssue, ⟨1⟩, ⟨1700000000000, inRange_sampleStart⟩⟩]

def crowdedProject : ProjectId := ⟨7, ProjectId.positive_seven⟩
def quietProject : ProjectId := ⟨8, by decide⟩

def queueStore : NotificationStore where
  issues := ((∅ : Table IssueId IssueDocument).insert ⟨1⟩ (queueIssue crowdedProject 11)).insert ⟨2⟩
    (queueIssue quietProject 12)
  alertRules := ((List.range 257).foldl (fun table id =>
    table.insert ⟨id⟩ ⟨queueRule crowdedProject id, none⟩) (∅ : Table AlertRuleId RuleDocument)).insert
      ⟨1000⟩ ⟨queueRule quietProject 1000, none⟩
  deliveries := ∅

/-- The digest of the one delivery that the quiet project is owed. -/
def queueBlake3 (input : List (BitVec 8)) : BitVec 256 :=
  if input = hashInput [] [utf8Bytes "notification-delivery/v1".toList, bigEndian 16 12,
      bigEndian 16 1000, bigEndian 16 5] then
    0x524333bf7f879c6d1011fc953c8c62c71abc2df8fc745296d795d4cfaebd9598
  else 0

def crowdedTransition : IssueNotificationTransition :=
  (queueIssue crowdedProject 11).transition ⟨1⟩ ⟨⟨11⟩, .newIssue, ⟨1⟩, ⟨1700000000000, inRange_sampleStart⟩⟩

def quietTransition : IssueNotificationTransition :=
  (queueIssue quietProject 12).transition ⟨2⟩ ⟨⟨12⟩, .newIssue, ⟨1⟩, ⟨1700000000000, inRange_sampleStart⟩⟩

theorem pendingTransitions_queueStore :
    pendingTransitions queueStore 100 = .ok [crowdedTransition, quietTransition] := by
  decide

theorem expand_once_isolated_iff_queue :
    (∀ transition ∈ [crowdedTransition, quietTransition], Expandable queueStore transition →
      transition.transitionId ∉
        pendingIds (expandOnce queueBlake3 queueStore 100).1.issues transition.issueId) ↔
    ∀ transition ∈ [crowdedTransition, quietTransition], Expandable queueStore transition →
      ∃ expanded ∈ expandedPrefix queueStore [crowdedTransition, quietTransition],
        expanded.issueId = transition.issueId ∧ expanded.transitionId = transition.transitionId :=
  expand_once_isolated_iff queueBlake3 pendingTransitions_queueStore

/-- A transition that cannot be expanded and stands first in the queue stops every later call. -/
theorem expandOnce_stuck {limit : Nat} {rest : List IssueNotificationTransition}
    (h : pendingTransitions store limit = .ok (transition :: rest))
    (hfirst : ¬ Expandable store transition) (calls : Nat) :
    (fun store => (expandOnce blake3 store limit).1)^[calls] store = store := by
  refine Function.iterate_fixed ?_ calls
  obtain ⟨error, hexpand⟩ := expand_of_not_expandable blake3 hfirst
  simp only [expandOnce, h, runUntilError_cons_error hexpand]

/-- The crowded project stops the quiet one in the first call and in every later one. -/
theorem expand_once_blocked_by_crowded_project :
    pendingTransitions queueStore 100 = .ok [crowdedTransition, quietTransition]
      ∧ Expandable queueStore quietTransition
      ∧ ∀ calls, quietTransition.transitionId ∈ pendingIds
        ((fun store => (expandOnce queueBlake3 store 100).1)^[calls] queueStore).issues
        quietTransition.issueId := by
  refine ⟨pendingTransitions_queueStore, by decide +kernel, fun calls => ?_⟩
  have hcrowded : ¬ Expandable queueStore crowdedTransition := by decide +kernel
  rw [expandOnce_stuck queueBlake3 pendingTransitions_queueStore hcrowded]
  decide

end MetricBackend.NotificationDispatch
