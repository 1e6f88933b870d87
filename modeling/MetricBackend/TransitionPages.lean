import MetricBackend.PostgresExpansion

/-! What one call of `expand_once` consumes over the Postgres store. Whether a transition can be
delivered depends on its rules, on their destinations and on the deliveries stored under the identities
it plans, none of which the transitions before it in a page change while truncated BLAKE3 keeps them
apart. The call consumes what stands before the first transition that cannot be delivered. -/

namespace MetricBackend.PostgresExpansion

open NotificationDispatch (transitionDeliveries Belongs transitionDeliveries_belong queueRule queueIssue
  crowdedProject quietProject)
open PostgresNotifications (NotificationStore guardProjects validateBatch sameIdentity collectUnique
  insertDelivery insertedRow ownTargets writeDeliveries writeDeliveries_effect)

variable (blake3 : List (BitVec 8) → BitVec 256) {store next : ExpansionStore}
  {transition : IssueNotificationTransition}

/-! ### Planned deliveries -/

/-- The identity of a delivery is the digest of its transition, rule and action. -/
def Digested (delivery : NotificationDelivery) : Prop :=
  delivery.id = notificationDeliveryId blake3 delivery.transitionId delivery.ruleId delivery.actionId

/-- Deliveries of rules, each under its own digest. -/
structure Planned (rules : List AlertRule) (deliveries : List NotificationDelivery) : Prop where
  nodup : (deliveries.map (·.id)).Nodup
  digested : ∀ delivery ∈ deliveries, Digested blake3 delivery
  ruled : ∀ delivery ∈ deliveries, delivery.ruleId ∈ rules.map (·.id)

theorem Planned.addDelivery {rules : List AlertRule} {rule : AlertRule} (hrule : rule ∈ rules)
    {deliveries result : List NotificationDelivery} {destinationId : NotificationDestinationId}
    (h : Planned blake3 rules deliveries)
    (hadd : NotificationDispatch.addDelivery blake3 transition rule.id deliveries destinationId = .ok result) :
    Planned blake3 rules result := by
  simp only [NotificationDispatch.addDelivery] at hadd
  split_ifs at hadd with hseen
  · cases hadd
    exact h
  · simp only [bind_eq_ok, pure_eq_ok] at hadd
    obtain ⟨payload, -, rfl⟩ := hadd
    constructor
    · rw [List.map_append]
      exact List.nodup_append'.mpr ⟨h.nodup, List.nodup_singleton _, List.disjoint_singleton.mpr hseen⟩
    · intro delivery hdelivery
      rcases List.mem_append.mp hdelivery with hold | hnew
      · exact h.digested delivery hold
      · rw [List.mem_singleton.mp hnew]
        rfl
    · intro delivery hdelivery
      rcases List.mem_append.mp hdelivery with hold | hnew
      · exact h.ruled delivery hold
      · rw [List.mem_singleton.mp hnew]
        exact List.mem_map_of_mem hrule

theorem planned_transitionDeliveries {rules : List AlertRule} {deliveries : List NotificationDelivery}
    (h : transitionDeliveries blake3 transition rules = .ok deliveries) : Planned blake3 rules deliveries := by
  refine foldlM_ok_induction (Planned blake3 rules) rules [] deliveries h ⟨by simp, by simp, by simp⟩
    fun before rule after hrule hbefore hpass => ?_
  simp only [bind_eq_ok, mapError_eq_ok] at hpass
  obtain ⟨_, -, hdestinations⟩ := hpass
  exact foldlM_ok_induction (Planned blake3 rules) rule.destinationIds before after hdestinations hbefore
    fun _ _ _ _ hplanned hadd => hplanned.addDelivery blake3 hrule hadd

/-- The transition plans the delivery. -/
def Plans (store : ExpansionStore) (transition : IssueNotificationTransition)
    (delivery : NotificationDelivery) : Prop :=
  ∃ deliveries, plannedDeliveries blake3 store transition = .ok deliveries ∧ delivery ∈ deliveries

theorem planned_of_plannedDeliveries {deliveries : List NotificationDelivery}
    (h : plannedDeliveries blake3 store transition = .ok deliveries) :
    (deliveries.map (·.id)).Nodup ∧ ∀ delivery ∈ deliveries, Belongs transition delivery
      ∧ Digested blake3 delivery ∧ ∃ row, store.rules[delivery.ruleId]? = some row
        ∧ row.rule.projectId = transition.projectId := by
  simp only [plannedDeliveries, bind_eq_ok, mapError_eq_ok, matchingRules_eq_ok] at h
  obtain ⟨_, ⟨-, rfl⟩, hdeliveries⟩ := h
  have hplanned := planned_transitionDeliveries blake3 hdeliveries
  refine ⟨hplanned.nodup, fun delivery hdelivery => ⟨transitionDeliveries_belong blake3 hdeliveries delivery hdelivery,
    hplanned.digested delivery hdelivery, ?_⟩⟩
  obtain ⟨rule, hrule, hid⟩ := List.mem_map.mp (hplanned.ruled delivery hdelivery)
  obtain ⟨row, hrow, rfl⟩ := List.mem_map.mp hrule
  obtain ⟨hstored, hmatches⟩ := List.mem_filter.mp hrow
  rw [← hid]
  exact ⟨row.2, Table.mem_toList.mp hstored, (of_decide_eq_true hmatches).1⟩

theorem Plans.spec {delivery : NotificationDelivery} (h : Plans blake3 store transition delivery) :
    Belongs transition delivery ∧ Digested blake3 delivery
      ∧ ∃ row, store.rules[delivery.ruleId]? = some row ∧ row.rule.projectId = transition.projectId := by
  obtain ⟨deliveries, hplanned, hdelivery⟩ := h
  exact (planned_of_plannedDeliveries blake3 hplanned).2 delivery hdelivery

/-! ### Writing deliveries -/

section writing

variable {values : List NotificationDelivery}

theorem collectUnique_foldlM (values : List NotificationDelivery) (unique : Deliveries)
    (hnodup : (values.map (·.id)).Nodup) (hfresh : ∀ value ∈ values, unique[value.id]? = none) :
    values.foldlM collectUnique unique
      = .ok (values.foldl (fun unique value => unique.insert value.id value) unique) := by
  induction values generalizing unique with
  | nil => rfl
  | cons value values ih =>
      rw [List.map_cons, List.nodup_cons] at hnodup
      obtain ⟨hvalue, hvalues⟩ := List.forall_mem_cons.mp hfresh
      rw [List.foldlM_cons, collectUnique, hvalue]
      refine ih (unique.insert value.id value) hnodup.2 fun other hother => ?_
      have hne : value.id ≠ other.id := fun h => hnodup.1 (h ▸ List.mem_map_of_mem hother)
      rw [Table.get_insert_of_ne _ _ hne, hvalues other hother]

/-- A row of the table that the batch is collected in. -/
theorem mem_collected (hnodup : (values.map (·.id)).Nodup) {row : NotificationDeliveryId × NotificationDelivery} :
    row ∈ (values.foldl (fun unique value => unique.insert value.id value) (∅ : Deliveries)).toList
      ↔ row.2 ∈ values ∧ row.2.id = row.1 := by
  obtain ⟨id, value⟩ := row
  obtain ⟨hkept, hwritten⟩ := Table.get_foldl_insert_values (·.id) values (∅ : Deliveries) hnodup id
  rw [Table.mem_toList]
  constructor
  · intro hrow
    by_cases hid : id ∈ values.map (·.id)
    · obtain ⟨other, hother, rfl⟩ := List.mem_map.mp hid
      rw [hwritten other hother rfl] at hrow
      cases hrow
      exact ⟨hother, rfl⟩
    · rw [hkept hid, Table.get_empty] at hrow
      cases hrow
  · rintro ⟨hvalue, hid⟩
    exact hwritten value hvalue hid

theorem get_insertIfNew_of_ne {deliveries : Deliveries} {id other : NotificationDeliveryId}
    {value : NotificationDelivery} (h : id ≠ other) :
    (deliveries.insertIfNew id value)[other]? = deliveries[other]? := by
  rw [Std.ExtTreeMap.getElem?_insertIfNew, if_neg]
  intro hnew
  exact h (compare_eq_iff_eq.mp hnew.1)

/-- The rows stand in the table under identities of their own, and nothing else has changed. -/
structure Written (before after : Deliveries) (rows : List (NotificationDeliveryId × NotificationDelivery)) :
    Prop where
  stored : ∀ row ∈ rows, ∃ stored, after[row.1]? = some stored ∧ sameIdentity stored row.2
  kept : ∀ id, id ∉ rows.map Prod.fst → after[id]? = before[id]?

theorem Written.cons {before middle after : Deliveries}
    {row : NotificationDeliveryId × NotificationDelivery}
    {rows : List (NotificationDeliveryId × NotificationDelivery)} (hfresh : row.1 ∉ rows.map Prod.fst)
    (hfirst : Written before middle [row]) (hrest : Written middle after rows) :
    Written before after (row :: rows) := by
  constructor
  · rw [List.forall_mem_cons]
    refine ⟨?_, hrest.stored⟩
    rw [hrest.kept row.1 hfresh]
    exact hfirst.stored row (List.mem_singleton_self row)
  · intro id hid
    rw [List.map_cons, List.mem_cons, not_or] at hid
    rw [hrest.kept id hid.2, hfirst.kept id (by simpa using hid.1)]

theorem insertDelivery_eq_ok {before after : Deliveries} {row : NotificationDeliveryId × NotificationDelivery} :
    insertDelivery before row = .ok after ↔ (∀ old ∈ before[row.1]?, sameIdentity old row.2)
      ∧ before.insertIfNew row.1 (insertedRow row.2) = after := by
  have hany : ¬ (before[row.1]?.any fun old => ¬ sameIdentity old row.2) = true ↔
      ∀ old ∈ before[row.1]?, sameIdentity old row.2 := by
    cases before[row.1]? <;> simp
  simp only [insertDelivery, bind_eq_ok, failIf_eq_ok, pure_eq_ok, hany]
  exact ⟨fun ⟨_, hsame, heq⟩ => ⟨hsame, heq⟩, fun ⟨hsame, heq⟩ => ⟨(), hsame, heq⟩⟩

theorem written_insertDelivery {before after : Deliveries} {row : NotificationDeliveryId × NotificationDelivery}
    (h : insertDelivery before row = .ok after) : Written before after [row] := by
  obtain ⟨hsame, rfl⟩ := insertDelivery_eq_ok.mp h
  constructor
  · intro other hother
    rw [List.mem_singleton.mp hother, Std.ExtTreeMap.getElem?_insertIfNew]
    by_cases hmem : row.1 ∈ before
    · rw [if_neg (fun hnew => hnew.2 hmem)]
      obtain ⟨old, hold⟩ := Option.isSome_iff_exists.mp (Std.ExtTreeMap.mem_iff_isSome_getElem?.mp hmem)
      exact ⟨old, hold, hsame old hold⟩
    · rw [if_pos ⟨compare_eq_iff_eq.mpr rfl, hmem⟩]
      exact ⟨_, rfl, rfl, rfl, rfl, rfl, rfl, rfl⟩
  · intro id hid
    exact get_insertIfNew_of_ne (Ne.symm (by simpa using hid))

/-- Rows under distinct identities are written when none of them meets a foreign one. -/
theorem insertDelivery_foldlM (rows : List (NotificationDeliveryId × NotificationDelivery))
    (before : Deliveries) (hnodup : (rows.map Prod.fst).Nodup) :
    ((∃ after, rows.foldlM insertDelivery before = .ok after) ↔
      ∀ row ∈ rows, ∀ old ∈ before[row.1]?, sameIdentity old row.2)
    ∧ ∀ after, rows.foldlM insertDelivery before = .ok after → Written before after rows := by
  induction rows generalizing before with
  | nil =>
      refine ⟨⟨fun _ => by simp, fun _ => ⟨_, rfl⟩⟩, fun after h => ?_⟩
      cases h
      exact ⟨by simp, fun _ _ => rfl⟩
  | cons row rows ih =>
      rw [List.map_cons, List.nodup_cons] at hnodup
      obtain ⟨hiff, hwritten⟩ := ih (before.insertIfNew row.1 (insertedRow row.2)) hnodup.2
      have hother : ∀ other ∈ rows, (before.insertIfNew row.1 (insertedRow row.2))[other.1]?
          = before[other.1]? := fun other hother =>
        get_insertIfNew_of_ne fun h => hnodup.1 (h ▸ List.mem_map_of_mem hother)
      have hstep : ∀ after, (row :: rows).foldlM insertDelivery before = .ok after ↔
          (∀ old ∈ before[row.1]?, sameIdentity old row.2)
            ∧ rows.foldlM insertDelivery (before.insertIfNew row.1 (insertedRow row.2)) = .ok after := by
        intro after
        rw [List.foldlM_cons, bind_eq_ok]
        simp only [insertDelivery_eq_ok]
        constructor
        · rintro ⟨_, ⟨hsame, rfl⟩, hrest⟩
          exact ⟨hsame, hrest⟩
        · rintro ⟨hsame, hrest⟩
          exact ⟨_, ⟨hsame, rfl⟩, hrest⟩
      constructor
      · simp only [hstep, exists_and_left, hiff, List.forall_mem_cons]
        exact and_congr_right fun _ => forall₂_congr fun other hmem => by rw [hother other hmem]
      · intro after h
        obtain ⟨hsame, hrest⟩ := (hstep after).mp h
        exact .cons hnodup.1 (written_insertDelivery (insertDelivery_eq_ok.mpr ⟨hsame, rfl⟩)) (hwritten after hrest)

/-- The deliveries stand under no identity of another one, and their targets in their own project. -/
def Writable (tables : NotificationStore) (values : List NotificationDelivery) : Prop :=
  ∀ value ∈ values, ownTargets tables value = true
    ∧ ∀ old ∈ tables.deliveries[value.id]?, sameIdentity old value

/-- The rows a batch is written as. -/
def batchRows (values : List NotificationDelivery) : List (NotificationDeliveryId × NotificationDelivery) :=
  values.map fun value => (value.id, value)

theorem writeDeliveries_spec (tables : NotificationStore) (hnodup : (values.map (·.id)).Nodup) :
    ((∃ after, writeDeliveries tables values = .ok after) ↔ Writable tables values)
    ∧ ∀ after, writeDeliveries tables values = .ok after → Written tables.deliveries after (batchRows values) := by
  let unique := values.foldl (fun unique value => unique.insert value.id value) (∅ : Deliveries)
  have hcollect : values.foldlM collectUnique ∅ = .ok unique :=
    collectUnique_foldlM values ∅ hnodup fun _ _ => Table.get_empty _
  have hmem : ∀ row, row ∈ unique.toList ↔ row ∈ batchRows values := by
    rintro ⟨id, value⟩
    simp only [unique, mem_collected hnodup, batchRows, List.mem_map, Prod.mk.injEq]
    constructor
    · rintro ⟨hvalue, hid⟩
      exact ⟨value, hvalue, hid, rfl⟩
    · rintro ⟨_, hvalue, hid, rfl⟩
      exact ⟨hvalue, hid⟩
  obtain ⟨hiff, hwritten⟩ := insertDelivery_foldlM unique.toList tables.deliveries unique.nodup_keys_toList
  have hwrite : ∀ after, writeDeliveries tables values = .ok after ↔
      (∀ row ∈ unique.toList, ownTargets tables row.2 = true)
        ∧ unique.toList.foldlM insertDelivery tables.deliveries = .ok after := by
    intro after
    simp only [writeDeliveries, hcollect, bind_eq_ok, failIf_eq_ok, not_not, List.all_eq_true]
    constructor
    · rintro ⟨_, hunique, _, hown, hrows⟩
      cases hunique
      exact ⟨hown, hrows⟩
    · rintro ⟨hown, hrows⟩
      exact ⟨unique, rfl, (), hown, hrows⟩
  constructor
  · simp only [hwrite, exists_and_left, hiff, hmem, batchRows, List.forall_mem_map]
    exact forall₂_and.symm
  · intro after h
    obtain ⟨hstored, hkept⟩ := hwritten after ((hwrite after).mp h).2
    refine ⟨fun row hrow => hstored row ((hmem row).mpr hrow), fun id hid => hkept id fun hkey => hid ?_⟩
    obtain ⟨row, hrow, rfl⟩ := List.mem_map.mp hkey
    exact List.mem_map_of_mem ((hmem row).mp hrow)

end writing

/-! ### One transition -/

/-- The rules of the transition load, and its deliveries fit in one batch and can be written. -/
def Deliverable (store : ExpansionStore) (transition : IssueNotificationTransition) : Prop :=
  ∃ deliveries ∈ (plannedDeliveries blake3 store transition).toOption,
    validateBatch deliveries = .ok () ∧ Writable store.notifications deliveries

instance (tables : NotificationStore) (values : List NotificationDelivery) : Decidable (Writable tables values) :=
  inferInstanceAs (Decidable (∀ value ∈ values, ownTargets tables value = true
    ∧ ∀ old ∈ tables.deliveries[value.id]?, sameIdentity old value))

instance (store : ExpansionStore) : DecidablePred (Deliverable blake3 store) := fun transition =>
  inferInstanceAs (Decidable (∃ deliveries ∈ (plannedDeliveries blake3 store transition).toOption,
    validateBatch deliveries = .ok () ∧ Writable store.notifications deliveries))

theorem Deliverable.loads (h : Deliverable blake3 store transition) : Loads store transition := by
  obtain ⟨deliveries, hplanned, -⟩ := h
  exact (plannedDeliveries_ok blake3).mp ⟨deliveries, toOption_eq_some.mp hplanned⟩

/-- The transition is a row of a live project. -/
def Listed (store : ExpansionStore) (transition : IssueNotificationTransition) : Prop :=
  store.isLive transition.projectId = true
    ∧ ∃ row, store.transitions[keyOf transition]? = some row ∧ sameTransition row transition

/-- The transitions are consumed: they have left the queue, and their deliveries stand in the table. Every
other transition and every delivery that was stored stays. -/
structure Expanded (store after : ExpansionStore) (consumed : List IssueNotificationTransition) : Prop where
  transitions : ∀ key, after.transitions[key]?
    = if key ∈ consumed.map keyOf then none else store.transitions[key]?
  deliveries : ∀ transition ∈ consumed, ∀ delivery, Plans blake3 store transition delivery →
    ∃ row, after.deliveries[delivery.id]? = some row ∧ sameIdentity row delivery
  kept : ∀ (id : NotificationDeliveryId) row, store.deliveries[id]? = some row → after.deliveries[id]? = some row

theorem expanded_nil (store : ExpansionStore) : Expanded blake3 store store [] :=
  ⟨fun _ => by simp, by simp, fun _ _ h => h⟩

/-- What the transaction of a transition changes. -/
structure Delivered (store next : ExpansionStore) (transition : IssueNotificationTransition) : Prop where
  projects : next.projects = store.projects
  rules : next.rules = store.rules
  destinations : next.destinations = store.destinations
  expanded : Expanded blake3 store next [transition]
  untouched : ∀ id, (∀ delivery, Plans blake3 store transition delivery → delivery.id ≠ id) →
    next.deliveries[id]? = store.deliveries[id]?

/-- The transaction of a listed transition commits exactly when its batch fits and can be written. -/
theorem expanded_eq_ok (hlisted : Listed store transition) {deliveries : List NotificationDelivery}
    (hbelong : ∀ delivery ∈ deliveries, Belongs transition delivery) :
    expanded store transition deliveries = .ok next ↔ validateBatch deliveries = .ok ()
      ∧ ∃ written, writeDeliveries store.notifications deliveries = .ok written
        ∧ { store with deliveries := written, transitions := store.transitions.erase (keyOf transition) } = next := by
  obtain ⟨hlive, row, hrow, hsame⟩ := hlisted
  have hforeign : ¬ (deliveries.any fun delivery => delivery.projectId ≠ transition.projectId
      ∨ delivery.issueId ≠ transition.issueId ∨ delivery.transitionId ≠ transition.transitionId) = true := by
    intro hany
    obtain ⟨delivery, hdelivery, hne⟩ := List.any_eq_true.mp hany
    obtain ⟨htransition, hproject, hissue⟩ := hbelong delivery hdelivery
    simp [htransition, hproject, hissue] at hne
  have hguard : guardProjects store.notifications [transition.projectId] = .ok () := by
    rw [guardProjects, failIf_eq_ok, not_not, List.all_cons, List.all_nil, Bool.and_true]
    exact hlive
  have hstored : ¬ (store.transitions[keyOf transition]?.any fun row => ¬ sameTransition row transition) = true := by
    rw [hrow, Option.any_some]
    simpa using hsame
  simp only [expanded, bind_eq_ok, failIf_eq_ok, pure_eq_ok, hguard]
  constructor
  · rintro ⟨_, hbatch, _, -, _, -, _, -, written, hwritten, heq⟩
    exact ⟨hbatch, written, hwritten, heq⟩
  · rintro ⟨hbatch, written, hwritten, heq⟩
    exact ⟨(), hbatch, (), hforeign, (), trivial, (), hstored, written, hwritten, heq⟩

/-- A deliverable transition is delivered and dropped. -/
theorem expand_of_deliverable (hlisted : Listed store transition) (h : Deliverable blake3 store transition) :
    ∃ next, expand blake3 store transition = (next, .ok ()) ∧ Delivered blake3 store next transition := by
  obtain ⟨deliveries, hsome, hbatch, hwritable⟩ := h
  have hplanned := toOption_eq_some.mp hsome
  have hplans : ∀ delivery, Plans blake3 store transition delivery → delivery ∈ deliveries := by
    intro delivery hplan
    obtain ⟨others, hothers, hdelivery⟩ := hplan
    rw [hplanned] at hothers
    cases hothers
    exact hdelivery
  obtain ⟨hnodup, heach⟩ := planned_of_plannedDeliveries blake3 hplanned
  obtain ⟨hiff, hspec⟩ := writeDeliveries_spec store.notifications hnodup
  obtain ⟨after, hafter⟩ := hiff.mpr hwritable
  obtain ⟨hstored, hkept⟩ := hspec after hafter
  have hcommits := (expanded_eq_ok hlisted fun delivery hdelivery => (heach delivery hdelivery).1).mpr
    ⟨hbatch, after, hafter, rfl⟩
  refine ⟨{ store with deliveries := after, transitions := store.transitions.erase (keyOf transition) }, ?_,
    rfl, rfl, rfl, ⟨fun key => ?_, fun other hother delivery hdelivery => ?_, fun id row hrow => ?_⟩, fun id hid => ?_⟩
  · simp only [expand, hplanned, expandTransition, hcommits, Except.mapError]
  · simp only [Std.ExtTreeMap.getElem?_erase, compare_eq_iff_eq, List.map_cons, List.map_nil, List.mem_singleton]
    exact if_congr eq_comm rfl rfl
  · rw [List.mem_singleton.mp hother] at hdelivery
    exact hstored _ (List.mem_map_of_mem (hplans delivery hdelivery))
  · rcases writeDeliveries_effect hafter id with hsame | ⟨hnone, -⟩
    · exact hsame.trans hrow
    · exact absurd (hnone.symm.trans hrow) (by simp)
  · apply hkept id
    intro hmem
    obtain ⟨row, hrow, rfl⟩ := List.mem_map.mp hmem
    obtain ⟨delivery, hdelivery, rfl⟩ := List.mem_map.mp hrow
    exact hid delivery ⟨deliveries, hplanned, hdelivery⟩ rfl

/-- A listed transition that is not deliverable fails, and nothing is committed. -/
theorem expand_of_not_deliverable (hlisted : Listed store transition)
    (h : ¬ Deliverable blake3 store transition) :
    ∃ error, expand blake3 store transition = (store, .error error) := by
  cases hplanned : plannedDeliveries blake3 store transition with
  | error error => exact ⟨error, by simp only [expand, hplanned]⟩
  | ok deliveries =>
      obtain ⟨hnodup, heach⟩ := planned_of_plannedDeliveries blake3 hplanned
      cases hexpanded : expanded store transition deliveries with
      | error error =>
          exact ⟨.ofStore error, by simp only [expand, hplanned, expandTransition, hexpanded, Except.mapError]⟩
      | ok next =>
          obtain ⟨hbatch, written, hwritten, -⟩ :=
            (expanded_eq_ok hlisted fun delivery hdelivery => (heach delivery hdelivery).1).mp hexpanded
          have hwritable := (writeDeliveries_spec store.notifications hnodup).1.mp ⟨written, hwritten⟩
          exact absurd ⟨deliveries, toOption_eq_some.mpr hplanned, hbatch, hwritable⟩ h

/-! ### The transitions behind it -/

/-- The two transitions plan no delivery under one identity. -/
def Apart (store : ExpansionStore) (left right : IssueNotificationTransition) : Prop :=
  ∀ delivery other, Plans blake3 store left delivery → Plans blake3 store right other → delivery.id ≠ other.id

theorem plannedDeliveries_congr (h : next.rules = store.rules) (transition : IssueNotificationTransition) :
    plannedDeliveries blake3 next transition = plannedDeliveries blake3 store transition := by
  simp only [plannedDeliveries, matchingRules, h]

theorem apart_congr (h : next.rules = store.rules) {left right : IssueNotificationTransition} :
    Apart blake3 next left right ↔ Apart blake3 store left right := by
  simp only [Apart, Plans, plannedDeliveries_congr blake3 h]

theorem deliverable_congr {other : IssueNotificationTransition}
    (h : Delivered blake3 store next transition) (hapart : Apart blake3 store transition other) :
    Deliverable blake3 next other ↔ Deliverable blake3 store other := by
  simp only [Deliverable, plannedDeliveries_congr blake3 h.rules]
  refine exists_congr fun deliveries => and_congr_right fun hsome => and_congr_right fun _ => ?_
  refine forall₂_congr fun delivery hdelivery => and_congr ?_ ?_
  · simp only [ownTargets, ExpansionStore.notifications, h.destinations, h.rules]
  · have hsame : next.deliveries[delivery.id]? = store.deliveries[delivery.id]? :=
      h.untouched delivery.id fun planned hplanned =>
        hapart planned delivery hplanned ⟨deliveries, toOption_eq_some.mp hsome, hdelivery⟩
    simp only [ExpansionStore.notifications, hsame]

theorem listed_congr {other : IssueNotificationTransition} (h : Delivered blake3 store next transition)
    (hne : keyOf transition ≠ keyOf other) : Listed next other ↔ Listed store other := by
  have hrow : next.transitions[keyOf other]? = store.transitions[keyOf other]? := by
    rw [h.expanded.transitions, if_neg (by simpa using Ne.symm hne)]
  simp only [Listed, ExpansionStore.isLive, NotificationStore.isLive, ExpansionStore.notifications, h.projects, hrow]

/-! ### One call -/

theorem takeWhile_congr {α : Type} {left right : α → Bool} {items : List α}
    (h : ∀ item ∈ items, left item = right item) : items.takeWhile left = items.takeWhile right := by
  induction items with
  | nil => rfl
  | cons item items ih =>
      obtain ⟨hitem, hitems⟩ := List.forall_mem_cons.mp h
      rw [List.takeWhile_cons, List.takeWhile_cons, hitem, ih hitems]

/-- The transitions before the first one that is not deliverable. -/
def deliveredPrefix (store : ExpansionStore) (transitions : List IssueNotificationTransition) :
    List IssueNotificationTransition :=
  transitions.takeWhile fun transition => Deliverable blake3 store transition

theorem Delivered.cons {after : ExpansionStore} {rest : List IssueNotificationTransition}
    (hfirst : Delivered blake3 store next transition) (hrest : Expanded blake3 next after rest) :
    Expanded blake3 store after (transition :: rest) := by
  refine ⟨fun key => ?_, ?_, fun id row hrow => hrest.kept id row (hfirst.expanded.kept id row hrow)⟩
  · rw [hrest.transitions, hfirst.expanded.transitions, List.map_cons, List.map_cons, List.map_nil]
    by_cases hmem : key ∈ rest.map keyOf
    · simp [hmem]
    · simp [hmem]
  · rw [List.forall_mem_cons]
    constructor
    · intro delivery hdelivery
      obtain ⟨row, hrow, hsame⟩ := hfirst.expanded.deliveries transition (List.mem_singleton_self _) delivery hdelivery
      exact ⟨row, hrest.kept _ row hrow, hsame⟩
    · intro other hother delivery hdelivery
      apply hrest.deliveries other hother delivery
      rw [Plans, plannedDeliveries_congr blake3 hfirst.rules]
      exact hdelivery

/-- A run over listed transitions whose deliveries keep apart. -/
theorem runUntilError_expand (transitions : List IssueNotificationTransition) (store : ExpansionStore)
    (hlisted : ∀ transition ∈ transitions, Listed store transition)
    (hnodup : (transitions.map keyOf).Nodup) (hapart : transitions.Pairwise (Apart blake3 store)) :
    Expanded blake3 store (runUntilError (expand blake3) store transitions).1
        (deliveredPrefix blake3 store transitions)
    ∧ ((runUntilError (expand blake3) store transitions).2 = .ok ()
      ↔ ∀ transition ∈ transitions, Deliverable blake3 store transition) := by
  induction transitions generalizing store with
  | nil => exact ⟨expanded_nil blake3 store, iff_of_true rfl (by simp)⟩
  | cons transition rest ih =>
      rw [List.map_cons, List.nodup_cons] at hnodup
      obtain ⟨hfirst, hrest⟩ := List.forall_mem_cons.mp hlisted
      obtain ⟨hapart, hpairs⟩ := List.pairwise_cons.mp hapart
      by_cases h : Deliverable blake3 store transition
      · obtain ⟨next, hexpand, hdelivered⟩ := expand_of_deliverable blake3 hfirst h
        have hkey : ∀ other ∈ rest, keyOf transition ≠ keyOf other := fun other hother heq =>
          hnodup.1 (heq ▸ List.mem_map_of_mem hother)
        have hsame : ∀ other ∈ rest, Deliverable blake3 next other ↔ Deliverable blake3 store other :=
          fun other hother => deliverable_congr blake3 hdelivered (hapart other hother)
        obtain ⟨hexpanded, hresult⟩ := ih next
          (fun other hother => (listed_congr blake3 hdelivered (hkey other hother)).mpr (hrest other hother))
          hnodup.2 (hpairs.imp fun hpair => (apart_congr blake3 hdelivered.rules).mpr hpair)
        have hprefix : deliveredPrefix blake3 store (transition :: rest)
            = transition :: deliveredPrefix blake3 next rest := by
          unfold deliveredPrefix
          rw [List.takeWhile_cons, if_pos (by simpa using h)]
          congr 1
          exact (takeWhile_congr fun other hother => by simp only [hsame other hother]).symm
        rw [runUntilError_cons_ok hexpand, hprefix, hresult, List.forall_mem_cons, and_iff_right h]
        exact ⟨hdelivered.cons blake3 hexpanded, forall₂_congr hsame⟩
      · obtain ⟨error, hexpand⟩ := expand_of_not_deliverable blake3 hfirst h
        have hprefix : deliveredPrefix blake3 store (transition :: rest) = [] := by
          unfold deliveredPrefix
          rw [List.takeWhile_cons, if_neg (by simpa using h)]
        rw [runUntilError_cons_error hexpand, hprefix]
        refine ⟨expanded_nil blake3 store, iff_of_false (fun hok => by cases hok) fun hall => ?_⟩
        exact h (hall transition List.mem_cons_self)

/-! ### Pages -/

theorem keyOf_joined {row : (ProjectId ×ₗ IssueTransitionId) × TransitionRow}
    (h : store.joined row = some transition) : keyOf transition = row.1 ∧ sameTransition row.2 transition := by
  obtain ⟨title, -, rfl⟩ := Option.map_eq_some_iff.mp h
  exact ⟨rfl, rfl, rfl, rfl, rfl⟩

theorem nodup_keys_joined : ((store.transitions.toList.filterMap store.joined).map keyOf).Nodup := by
  apply List.Nodup.sublist _ store.transitions.nodup_keys_toList
  generalize store.transitions.toList = rows
  induction rows with
  | nil => exact .slnil
  | cons row rows ih =>
      cases hjoined : store.joined row with
      | none =>
          rw [List.filterMap_cons_none hjoined, List.map_cons]
          exact ih.cons _
      | some transition =>
          rw [List.filterMap_cons_some hjoined, List.map_cons, List.map_cons, (keyOf_joined hjoined).1]
          exact ih.cons_cons _

/-- A page holds rows of live projects, each once. -/
theorem pendingTransitions_listed {limit : Nat} {batch : List IssueNotificationTransition}
    (h : pendingTransitions store limit = .ok batch) :
    (∀ transition ∈ batch, Listed store transition) ∧ (batch.map keyOf).Nodup := by
  simp only [pendingTransitions, bind_eq_ok, pure_eq_ok] at h
  obtain ⟨_, -, rfl⟩ := h
  constructor
  · intro transition hmem
    have hsorted := (List.mem_insertionSort _).mp (List.mem_of_mem_take hmem)
    obtain ⟨hjoined, hlive⟩ := List.mem_filter.mp hsorted
    obtain ⟨row, hrow, heq⟩ := List.mem_filterMap.mp hjoined
    obtain ⟨hkey, hsame⟩ := keyOf_joined heq
    exact ⟨hlive, row.2, by rw [hkey]; exact Table.mem_toList.mp hrow, hsame⟩
  · apply List.Nodup.sublist ((List.take_sublist _ _).map _)
    apply ((List.perm_insertionSort _ _).map keyOf).nodup_iff.mpr
    exact nodup_keys_joined.sublist (List.filter_sublist.map _)

/-- What the identity of a delivery is the digest of. -/
def digestedParts (delivery : NotificationDelivery) :
    IssueTransitionId × AlertRuleId × NotificationDestinationId :=
  (delivery.transitionId, delivery.ruleId, delivery.actionId)

/-- The digested parts of the deliveries of a page. -/
def pageParts (store : ExpansionStore) (batch : List IssueNotificationTransition) :
    List (IssueTransitionId × AlertRuleId × NotificationDestinationId) :=
  batch.flatMap fun transition =>
    ((plannedDeliveries blake3 store transition).toOption.getD []).map digestedParts

/-- Truncated BLAKE3 does not collide on the deliveries of a page. -/
def CollisionFree (store : ExpansionStore) (batch : List IssueNotificationTransition) : Prop :=
  ∀ left ∈ pageParts blake3 store batch, ∀ right ∈ pageParts blake3 store batch,
    notificationDeliveryId blake3 left.1 left.2.1 left.2.2
      = notificationDeliveryId blake3 right.1 right.2.1 right.2.2 → left = right

instance (store : ExpansionStore) (batch : List IssueNotificationTransition) :
    Decidable (CollisionFree blake3 store batch) :=
  inferInstanceAs (Decidable (∀ left ∈ _, ∀ right ∈ _, _ → left = right))

theorem mem_pageParts {batch : List IssueNotificationTransition} (hmem : transition ∈ batch)
    {delivery : NotificationDelivery} (h : Plans blake3 store transition delivery) :
    digestedParts delivery ∈ pageParts blake3 store batch := by
  obtain ⟨deliveries, hplanned, hdelivery⟩ := h
  refine List.mem_flatMap.mpr ⟨transition, hmem, List.mem_map_of_mem ?_⟩
  rw [hplanned]
  exact hdelivery

/-- Rules belong to one project, so the digests keep the deliveries of two transitions apart. -/
theorem pairwise_apart {batch : List IssueNotificationTransition} (hnodup : (batch.map keyOf).Nodup)
    (hfree : CollisionFree blake3 store batch) : batch.Pairwise (Apart blake3 store) := by
  have hpairs : batch.Pairwise fun left right => keyOf left ≠ keyOf right := List.pairwise_map.mp hnodup
  refine hpairs.imp_of_mem fun {left right} hleft hright hne delivery other hdelivery hother hid => hne ?_
  have hmem := mem_pageParts blake3 hleft hdelivery
  have hmem' := mem_pageParts blake3 hright hother
  obtain ⟨hbelongs, hdigested, row, hrow, hproject⟩ := hdelivery.spec
  obtain ⟨hbelongs', hdigested', row', hrow', hproject'⟩ := hother.spec
  have hparts := hfree _ hmem _ hmem' (hdigested.symm.trans (hid.trans hdigested'))
  simp only [digestedParts, Prod.mk.injEq] at hparts
  rw [← hparts.2.1, hrow] at hrow'
  cases hrow'
  rw [keyOf, keyOf, ← hproject, hproject', ← hbelongs.1, hparts.1, hbelongs'.1]

/-- A transition that is not deliverable and stands first in the queue stops every later call. -/
theorem expandOnce_stuck {limit : Nat} {batch : List IssueNotificationTransition}
    (h : pendingTransitions store limit = .ok batch) (hfirst : transition ∈ batch.head?)
    (hstuck : ¬ Deliverable blake3 store transition) (calls : Nat) :
    (fun store => (expandOnce blake3 store limit).1)^[calls] store = store := by
  obtain ⟨rest, rfl⟩ := List.head?_eq_some_iff.mp hfirst
  obtain ⟨error, hexpand⟩ := expand_of_not_deliverable blake3
    ((pendingTransitions_listed h).1 transition List.mem_cons_self) hstuck
  apply Function.iterate_fixed
  simp only [expandOnce, h, runUntilError_cons_error hexpand]

/-- One call consumes exactly what stands in its page before the first transition that is not
deliverable, and succeeds when there is none. While truncated BLAKE3 does not collide on the deliveries of
the page, what is deliverable is decided by the tables before the call. A first transition that is not
deliverable stops every later call. -/
theorem expand_once_consumes_prefix {limit : Nat} {batch : List IssueNotificationTransition}
    (h : pendingTransitions store limit = .ok batch) (hfree : CollisionFree blake3 store batch) :
    Expanded blake3 store (expandOnce blake3 store limit).1 (deliveredPrefix blake3 store batch)
    ∧ (∀ transition ∈ deliveredPrefix blake3 store batch, Loads store transition)
    ∧ ((expandOnce blake3 store limit).2 = .ok batch.length
      ↔ ∀ transition ∈ batch, Deliverable blake3 store transition)
    ∧ ((∃ transition ∈ batch.head?, ¬ Deliverable blake3 store transition) →
      ∀ calls, (fun store => (expandOnce blake3 store limit).1)^[calls] store = store) := by
  have hstuck : (∃ transition ∈ batch.head?, ¬ Deliverable blake3 store transition) →
      ∀ calls, (fun store => (expandOnce blake3 store limit).1)^[calls] store = store := by
    rintro ⟨transition, hfirst, hnot⟩ calls
    exact expandOnce_stuck blake3 h hfirst hnot calls
  obtain ⟨hlisted, hnodup⟩ := pendingTransitions_listed h
  obtain ⟨hexpanded, hresult⟩ := runUntilError_expand blake3 batch store hlisted hnodup
    (pairwise_apart blake3 hnodup hfree)
  refine ⟨by simpa only [expandOnce, h] using hexpanded, fun transition hmem => ?_, ?_, hstuck⟩
  · exact Deliverable.loads blake3 (of_decide_eq_true
      (List.mem_takeWhile_imp (p := fun transition => decide (Deliverable blake3 store transition)) hmem))
  · simp only [expandOnce, h]
    rw [← hresult]
    cases (runUntilError (expand blake3) store batch).2 <;> simp [Except.map]

/-! A page of three transitions: the second one matches a rule whose destination belongs to another
project. -/

def pageRow (issueId : IssueId) (createdAt : Timestamp) : TransitionRow :=
  ⟨issueId, .newIssue, ⟨1⟩, createdAt⟩

def pageTransition (projectId : ProjectId) (transitionId : Nat) (row : TransitionRow) :
    IssueNotificationTransition where
  transitionId := ⟨transitionId⟩
  projectId := projectId
  issueId := row.issueId
  kind := row.kind
  eventId := row.eventId
  createdAt := row.createdAt
  title := (queueIssue projectId transitionId).title

def firstRow : TransitionRow := pageRow ⟨2⟩ ⟨1700000000000, inRange_sampleStart⟩
def foreignRow : TransitionRow := pageRow ⟨1⟩ ⟨1700000001000, by decide⟩
def laterRow : TransitionRow := pageRow ⟨2⟩ ⟨1700000002000, by decide⟩

def pageBatch : List IssueNotificationTransition :=
  [pageTransition quietProject 12 firstRow, pageTransition crowdedProject 11 foreignRow,
    pageTransition quietProject 13 laterRow]

def pageStore : ExpansionStore where
  projects := ((∅ : Table ProjectId ProjectAcceptanceState).insert crowdedProject .active).insert
    quietProject .disabled
  titles := ((∅ : Table (ProjectId ×ₗ IssueId) IssueTitle).insert (toLex (crowdedProject, ⟨1⟩))
    (queueIssue crowdedProject 11).title).insert (toLex (quietProject, ⟨2⟩)) (queueIssue quietProject 12).title
  transitions := (((∅ : Table (ProjectId ×ₗ IssueTransitionId) TransitionRow).insert
    (toLex (quietProject, ⟨13⟩)) laterRow).insert (toLex (crowdedProject, ⟨11⟩)) foreignRow).insert
      (toLex (quietProject, ⟨12⟩)) firstRow
  rules := ((∅ : Table AlertRuleId RuleRow).insert ⟨1000⟩ ⟨queueRule quietProject 1000, 51, 53⟩).insert ⟨1001⟩
    ⟨{ queueRule crowdedProject 1001 with destinationIds := [⟨6⟩] }, 51, 53⟩
  destinations := ((∅ : Table NotificationDestinationId NotificationDestination).insert ⟨5⟩
    ⟨⟨5⟩, quietProject, true⟩).insert ⟨6⟩ ⟨⟨6⟩, quietProject, true⟩
  deliveries := ∅

/-- The digests of the three deliveries of the page. -/
def pageBlake3 (input : List (BitVec 8)) : BitVec 256 :=
  let part (transitionId ruleId destinationId : Nat) : List (BitVec 8) :=
    hashInput [] [utf8Bytes "notification-delivery/v1".toList, bigEndian 16 transitionId, bigEndian 16 ruleId,
      bigEndian 16 destinationId]
  if input = part 12 1000 5 then 0x524333bf7f879c6d1011fc953c8c62c71abc2df8fc745296d795d4cfaebd9598
  else if input = part 11 1001 6 then 0xf0045c54b59db23637f9f7d9297e7204cebd76c681faad7ed6294956fcf93fcc
  else if input = part 13 1000 5 then 0xd9f56d8b1c53a280281ce646c45c4f736ae7dc61b4db06cf821217683374601a
  else 0

theorem pendingTransitions_pageStore : pendingTransitions pageStore 100 = .ok pageBatch := by
  decide

/-- The first transition is consumed, and the third one waits behind the second. -/
theorem expand_once_consumes_prefix_page :
    deliveredPrefix pageBlake3 pageStore pageBatch = [pageTransition quietProject 12 firstRow]
      ∧ Expanded pageBlake3 pageStore (expandOnce pageBlake3 pageStore 100).1
        (deliveredPrefix pageBlake3 pageStore pageBatch)
      ∧ (∀ transition ∈ deliveredPrefix pageBlake3 pageStore pageBatch, Loads pageStore transition)
      ∧ ((expandOnce pageBlake3 pageStore 100).2 = .ok pageBatch.length
        ↔ ∀ transition ∈ pageBatch, Deliverable pageBlake3 pageStore transition)
      ∧ ((∃ transition ∈ pageBatch.head?, ¬ Deliverable pageBlake3 pageStore transition) →
        ∀ calls, (fun store => (expandOnce pageBlake3 store 100).1)^[calls] pageStore = pageStore) :=
  ⟨by set_option maxRecDepth 100000 in decide,
    expand_once_consumes_prefix pageBlake3 pendingTransitions_pageStore (by set_option maxRecDepth 100000 in decide)⟩

end MetricBackend.PostgresExpansion
