import MetricBackend.MongoDeliveries
import MetricBackend.PostgresNotifications

/-! The choice of the next delivery: four searches in the Mongo store, a ranking in the Postgres store, with one
outcome, and a choice that leaves the project of the last claim while another one waits. -/

namespace MetricBackend

abbrev DueDelivery : Type := NotificationDeliveryId × NotificationDelivery

/-- The order of the due queries, with identities. -/
def DueDelivery.Before (left right : DueDelivery) : Prop :=
  left.2.nextAttemptAt < right.2.nextAttemptAt
    ∨ left.2.nextAttemptAt = right.2.nextAttemptAt ∧ left.1 < right.1

theorem DueDelivery.Before.ne {left right : DueDelivery} (h : left.Before right) : left ≠ right := by
  rintro rfl
  obtain hnext | ⟨-, hid⟩ := h
  · exact lt_irrefl _ hnext
  · exact lt_irrefl _ hid

/-- Two rows of the due order stand in it as they are ordered. -/
theorem DueDelivery.before_or_before {rows : List DueDelivery} {left right : DueDelivery}
    (hordered : rows.Pairwise DueDelivery.Before) (hleft : left ∈ rows) (hright : right ∈ rows) (hne : left ≠ right) :
    (left.Before right ∧ [left, right].Sublist rows) ∨ (right.Before left ∧ [right, left].Sublist rows) := by
  obtain ⟨before, after, rfl⟩ := List.append_of_mem hleft
  obtain ⟨-, hafter, hacross⟩ := List.pairwise_append.mp hordered
  obtain hright | hright := List.mem_append.mp hright
  · refine .inr ⟨hacross right hright left List.mem_cons_self, ?_⟩
    exact (List.singleton_sublist.mpr hright).append (List.singleton_sublist.mpr List.mem_cons_self)
  · have hlater := (List.mem_cons.mp hright).resolve_left (Ne.symm hne)
    refine .inl ⟨(List.pairwise_cons.mp hafter).1 right hlater, ?_⟩
    exact (List.Sublist.cons_cons left (List.singleton_sublist.mpr hlater)).trans (List.sublist_append_right _ _)

/-- Two elements of a list without repetitions stand in one order. -/
theorem not_both_sublists {α : Type} {items : List α} {left right : α} (hnodup : items.Nodup)
    (hleft : [left, right].Sublist items) (hright : [right, left].Sublist items) : False := by
  induction items with
  | nil => cases hleft
  | cons first items ih =>
      obtain ⟨hfirst, hnodup⟩ := List.nodup_cons.mp hnodup
      cases hleft with
      | cons _ hleft =>
          cases hright with
          | cons _ hright => exact ih hnodup hleft hright
          | cons_cons _ hright => exact hfirst (hleft.subset (List.mem_cons_of_mem _ List.mem_cons_self))
      | cons_cons _ hleft =>
          cases hright with
          | cons _ hright => exact hfirst (hright.subset (List.mem_cons_of_mem _ List.mem_cons_self))
          | cons_cons _ hright => exact hfirst (hright.subset List.mem_cons_self)

/-- Rows in the order of their identities, sorted by their due times. -/
theorem DueDelivery.ordered_insertionSort {rows : List DueDelivery}
    (hrows : rows.Pairwise fun left right => left.1 < right.1) :
    (rows.insertionSort NotificationDelivery.dueNoLater).Pairwise DueDelivery.Before := by
  have htotal : Std.Total NotificationDelivery.dueNoLater :=
    ⟨fun left right => le_total left.2.nextAttemptAt right.2.nextAttemptAt⟩
  have htrans : IsTrans DueDelivery NotificationDelivery.dueNoLater := ⟨fun _ _ _ => le_trans⟩
  have hsorted := List.pairwise_insertionSort NotificationDelivery.dueNoLater rows
  have hnodup : (rows.insertionSort NotificationDelivery.dueNoLater).Nodup := by
    refine (List.perm_insertionSort _ rows).nodup_iff.mpr (hrows.imp fun {left right} hlt heq => ?_)
    rw [heq] at hlt
    exact lt_irrefl _ hlt
  refine List.pairwise_iff_forall_sublist.mpr fun {left right} hpair => ?_
  obtain hnext | hnext := (List.pairwise_iff_forall_sublist.mp hsorted hpair).lt_or_eq
  · exact .inl hnext
  · refine .inr ⟨hnext, ?_⟩
    have hmem := fun row (hrow : row ∈ [left, right]) => (List.mem_insertionSort _).mp (hpair.subset hrow)
    have hne : left ≠ right := by
      have hdistinct := hnodup.sublist hpair
      rw [List.nodup_cons, List.mem_singleton] at hdistinct
      exact hdistinct.1
    by_contra hid
    have hback : [right, left].Sublist rows := by
      obtain ⟨before, after, hsplit⟩ := List.append_of_mem (hmem left List.mem_cons_self)
      have hright := hmem right (List.mem_cons_of_mem _ List.mem_cons_self)
      rw [hsplit] at hright hrows ⊢
      obtain ⟨-, hafter, -⟩ := List.pairwise_append.mp hrows
      obtain hright | hright := List.mem_append.mp hright
      · exact (List.singleton_sublist.mpr hright).append (List.singleton_sublist.mpr List.mem_cons_self)
      · have hlater := (List.mem_cons.mp hright).resolve_left (Ne.symm hne)
        exact absurd ((List.pairwise_cons.mp hafter).1 right hlater) hid
    exact not_both_sublists hnodup hpair (List.pair_sublist_insertionSort hnext.ge hback)

theorem pairwise_toList (deliveries : Deliveries) : deliveries.toList.Pairwise fun left right => left.1 < right.1 :=
  Std.ExtTreeMap.ordered_keys_toList.imp fun h => compare_lt_iff_lt.mp h

/-! ### One choice -/

namespace PostgresNotifications

/-- The three-part key of the ranking. -/
def claimedNoLater (store : NotificationStore) (left right : DueDelivery) : Prop :=
  fairnessRank store left.2 < fairnessRank store right.2
    ∨ fairnessRank store left.2 = fairnessRank store right.2
      ∧ (left.2.nextAttemptAt < right.2.nextAttemptAt
        ∨ left.2.nextAttemptAt = right.2.nextAttemptAt ∧ left.1 ≤ right.1)

instance (store : NotificationStore) : DecidableRel (claimedNoLater store) := fun left right => by
  unfold claimedNoLater
  infer_instance

theorem claimedNoLater_total (store : NotificationStore) (left right : DueDelivery) :
    claimedNoLater store left right ∨ claimedNoLater store right left := by
  rw [claimedNoLater, claimedNoLater]
  obtain hrank | hrank | hrank := lt_trichotomy (fairnessRank store left.2) (fairnessRank store right.2)
  · exact .inl (.inl hrank)
  · obtain hnext | hnext | hnext := lt_trichotomy left.2.nextAttemptAt right.2.nextAttemptAt
    · exact .inl (.inr ⟨hrank, .inl hnext⟩)
    · exact (le_total left.1 right.1).imp (fun hid => .inr ⟨hrank, .inr ⟨hnext, hid⟩⟩) fun hid =>
        .inr ⟨hrank.symm, .inr ⟨hnext.symm, hid⟩⟩
    · exact .inr (.inr ⟨hrank.symm, .inl hnext⟩)
  · exact .inr (.inl hrank)

theorem claimedNoLater_trans {store : NotificationStore} {first second third : DueDelivery}
    (hfirst : claimedNoLater store first second) (hsecond : claimedNoLater store second third) :
    claimedNoLater store first third := by
  rw [claimedNoLater] at *
  obtain hrank | ⟨hrank, hfirst⟩ := hfirst
  · obtain hother | ⟨hother, -⟩ := hsecond
    · exact .inl (hrank.trans hother)
    · exact .inl (hrank.trans_eq hother)
  · obtain hother | ⟨hother, hsecond⟩ := hsecond
    · exact .inl (hrank.trans_lt hother)
    · refine .inr ⟨hrank.trans hother, ?_⟩
      obtain hnext | ⟨hnext, hid⟩ := hfirst
      · obtain hlater | ⟨hlater, -⟩ := hsecond
        · exact .inl (hnext.trans hlater)
        · exact .inl (hnext.trans_eq hlater)
      · obtain hlater | ⟨hlater, hids⟩ := hsecond
        · exact .inl (hnext.trans_lt hlater)
        · exact .inr ⟨hnext.trans hlater, hid.trans hids⟩

/-- The head of the ranking is before all candidates. -/
theorem head_of_ranked {store : NotificationStore} {candidates : List DueDelivery} {pick : DueDelivery}
    (h : (candidates.insertionSort (claimedNoLater store)).head? = some pick) :
    pick ∈ candidates ∧ ∀ other ∈ candidates, claimedNoLater store pick other := by
  refine ⟨(List.mem_insertionSort _).mp (List.mem_of_head? h), fun other hother => ?_⟩
  have htotal : Std.Total (claimedNoLater store) := ⟨claimedNoLater_total store⟩
  have htrans : IsTrans DueDelivery (claimedNoLater store) := ⟨fun _ _ _ => claimedNoLater_trans⟩
  have hsorted := List.pairwise_insertionSort (claimedNoLater store) candidates
  have hmem := (List.mem_insertionSort (claimedNoLater store)).mpr hother
  cases hranked : candidates.insertionSort (claimedNoLater store) with
  | nil =>
      rw [hranked] at hmem
      cases hmem
  | cons first rest =>
      rw [hranked] at h hsorted hmem
      obtain rfl : first = pick := Option.some.inj h
      obtain rfl | hrest := List.mem_cons.mp hmem
      · exact (claimedNoLater_total store _ _).elim id id
      · exact (List.pairwise_cons.mp hsorted).1 other hrest

end PostgresNotifications

section Choice

open MongoNotifications PostgresNotifications

variable {candidates : List DueDelivery} {last : Option (ProjectId × NotificationDestinationId)} {pick : DueDelivery}
  {store : PostgresNotifications.NotificationStore}

/-- The store was last served for the pair. -/
def Served (store : PostgresNotifications.NotificationStore)
    (last : Option (ProjectId × NotificationDestinationId)) : Prop :=
  store.lastProject = last.map Prod.fst ∧ store.lastDestination = last.map Prod.snd

theorem Served.project (h : Served store last) (row : NotificationDelivery) :
    (last.all fun key => decide (row.projectId ≠ key.1)) = true ↔ store.lastProject ≠ some row.projectId := by
  rw [h.1]
  cases last with
  | none => exact iff_of_true rfl (nofun)
  | some key =>
      rw [Option.all_some, decide_eq_true_eq, Option.map_some, Ne, Ne, Option.some_inj]
      exact not_congr eq_comm

theorem Served.destination (h : Served store last) (row : NotificationDelivery) :
    (last.all fun key => decide (row.destinationId ≠ key.2)) = true
      ↔ store.lastDestination ≠ some row.destinationId := by
  rw [h.2]
  cases last with
  | none => exact iff_of_true rfl (nofun)
  | some key =>
      rw [Option.all_some, decide_eq_true_eq, Option.map_some, Ne, Ne, Option.some_inj]
      exact not_congr eq_comm

theorem Served.both (h : Served store last) (row : NotificationDelivery) :
    (last.all fun key => decide (row.projectId ≠ key.1 ∧ row.destinationId ≠ key.2)) = true
      ↔ store.lastProject ≠ some row.projectId ∧ store.lastDestination ≠ some row.destinationId := by
  rw [← h.project, ← h.destination]
  cases last with
  | none => simp
  | some key => simp

theorem fairnessRank_eq_zero {row : NotificationDelivery} : fairnessRank store row = 0
    ↔ store.lastProject ≠ some row.projectId ∧ store.lastDestination ≠ some row.destinationId := by
  rw [fairnessRank]
  split_ifs <;> simp_all

theorem fairnessRank_le_one {row : NotificationDelivery} :
    fairnessRank store row ≤ 1 ↔ store.lastProject ≠ some row.projectId := by
  rw [fairnessRank]
  split_ifs <;> simp_all

theorem fairnessRank_le_two {row : NotificationDelivery} : fairnessRank store row ≤ 2
    ↔ store.lastProject ≠ some row.projectId ∨ store.lastDestination ≠ some row.destinationId := by
  rw [fairnessRank]
  split_ifs <;> simp_all

theorem fairnessRank_le_three (row : NotificationDelivery) : fairnessRank store row ≤ 3 := by
  rw [fairnessRank]
  split_ifs <;> decide

/-- A search finds the first candidate of the lowest rank when all ranks are above its bound but those that it
looks for. -/
theorem split_of_find? {p : DueDelivery → Bool} {rank : Nat} (h : candidates.find? p = some pick)
    (hfound : fairnessRank store pick.2 ≤ rank)
    (hother : ∀ other ∈ candidates, p other = false → rank < fairnessRank store other.2)
    (hlow : ∀ other ∈ candidates, rank ≤ fairnessRank store other.2) :
    ∃ before after, candidates = before ++ pick :: after
      ∧ (∀ other ∈ before, fairnessRank store pick.2 < fairnessRank store other.2)
      ∧ ∀ other ∈ after, fairnessRank store pick.2 ≤ fairnessRank store other.2 := by
  obtain ⟨-, before, after, rfl, hbefore⟩ := List.find?_eq_some_iff_append.mp h
  refine ⟨before, after, rfl, fun other hmem => ?_, fun other hmem => ?_⟩
  · exact hfound.trans_lt (hother other (List.mem_append_left _ hmem) (Bool.not_eq_true' _ ▸ hbefore other hmem))
  · exact hfound.trans (hlow other (List.mem_append_right _ (List.mem_cons_of_mem _ hmem)))

/-- The four searches find the first candidate of the lowest rank. -/
theorem chooseFairCandidate_split (hserved : Served store last) (h : chooseFairCandidate candidates last = some pick) :
    ∃ before after, candidates = before ++ pick :: after
      ∧ (∀ other ∈ before, fairnessRank store pick.2 < fairnessRank store other.2)
      ∧ ∀ other ∈ after, fairnessRank store pick.2 ≤ fairnessRank store other.2 := by
  simp only [chooseFairCandidate, Option.or_eq_some_iff, Option.or_eq_none_iff] at h
  obtain ((hboth | ⟨hnoBoth, hproject⟩) | ⟨⟨hnoBoth, hnoProject⟩, hdestination⟩) |
    ⟨⟨⟨hnoBoth, hnoProject⟩, hnoDestination⟩, hfirst⟩ := h
  · have hlow : ∀ other ∈ candidates, 0 ≤ fairnessRank store other.2 := fun other _ => Nat.zero_le _
    refine split_of_find? hboth ?_ (fun other _ hother => ?_) hlow
    · have hfound := List.find?_some hboth
      exact (fairnessRank_eq_zero.mpr ((hserved.both _).mp hfound)).le
    · rw [Nat.pos_iff_ne_zero, Ne, fairnessRank_eq_zero, ← hserved.both]
      exact Bool.eq_false_iff.mp hother
  · have hlow : ∀ other ∈ candidates, 1 ≤ fairnessRank store other.2 := by
      intro other hother
      rw [Nat.one_le_iff_ne_zero, Ne, fairnessRank_eq_zero, ← hserved.both]
      exact List.find?_eq_none.mp hnoBoth other hother
    refine split_of_find? hproject ?_ (fun other _ hother => ?_) hlow
    · have hfound := List.find?_some hproject
      exact fairnessRank_le_one.mpr ((hserved.project _).mp hfound)
    · rw [← not_le, fairnessRank_le_one, ← hserved.project]
      exact Bool.eq_false_iff.mp hother
  · have hlow : ∀ other ∈ candidates, 2 ≤ fairnessRank store other.2 := by
      intro other hother
      rw [Nat.succ_le_iff, ← not_le, fairnessRank_le_one, ← hserved.project]
      exact List.find?_eq_none.mp hnoProject other hother
    refine split_of_find? hdestination ?_ (fun other hmem hother => ?_) hlow
    · have hfound := List.find?_some hdestination
      exact fairnessRank_le_two.mpr (.inr ((hserved.destination _).mp hfound))
    · rw [← not_le, fairnessRank_le_two, ← hserved.project, ← hserved.destination, not_or]
      exact ⟨List.find?_eq_none.mp hnoProject other hmem, Bool.eq_false_iff.mp hother⟩
  · obtain ⟨after, rfl⟩ := List.head?_eq_some_iff.mp hfirst
    refine ⟨[], after, rfl, fun other hother => absurd hother List.not_mem_nil, fun other hother => ?_⟩
    refine (fairnessRank_le_three _).trans (Nat.succ_le_iff.mpr (not_le.mp ?_))
    rw [fairnessRank_le_two, ← hserved.project, ← hserved.destination, not_or]
    have hmem := List.mem_cons_of_mem pick hother
    exact ⟨List.find?_eq_none.mp hnoProject other hmem, List.find?_eq_none.mp hnoDestination other hmem⟩

theorem chooseFairCandidate_eq_none (h : chooseFairCandidate candidates last = none) : candidates = [] := by
  simp only [chooseFairCandidate, Option.or_eq_none_iff] at h
  exact List.head?_eq_none_iff.mp h.2

/-- Both stores choose the same delivery. -/
theorem ranked_head_eq (hserved : Served store last) (hordered : candidates.Pairwise DueDelivery.Before) :
    (candidates.insertionSort (claimedNoLater store)).head? = chooseFairCandidate candidates last := by
  cases hchosen : chooseFairCandidate candidates last with
  | none =>
      rw [chooseFairCandidate_eq_none hchosen]
      rfl
  | some pick =>
      obtain ⟨before, after, hsplit, hbefore, hafter⟩ := chooseFairCandidate_split hserved hchosen
      have hmem : pick ∈ candidates := hsplit ▸ List.mem_append_right _ List.mem_cons_self
      have hfirst : ∀ other ∈ candidates, other ≠ pick → claimedNoLater store pick other ∧ ¬ claimedNoLater store other pick := by
        intro other hother hne
        rw [hsplit] at hother hordered
        obtain hother | hother := List.mem_append.mp hother
        · have hrank := hbefore other hother
          refine ⟨.inl hrank, ?_⟩
          rintro (hlower | ⟨hsame, -⟩)
          · exact absurd hlower (not_lt.mpr hrank.le)
          · exact absurd hsame hrank.ne'
        · have hlater := (List.mem_cons.mp hother).resolve_left hne
          have horder := (List.pairwise_cons.mp (List.pairwise_append.mp hordered).2.1).1 other hlater
          have hrank := hafter other hlater
          refine ⟨?_, ?_⟩
          · obtain hlower | hsame := hrank.lt_or_eq
            · exact .inl hlower
            · exact .inr ⟨hsame, horder.imp id fun hid => ⟨hid.1, hid.2.le⟩⟩
          · rintro (hlower | ⟨-, hback⟩)
            · exact absurd hlower (not_lt.mpr hrank)
            · obtain hnext | ⟨hnext, hid⟩ := horder
              · obtain hback | ⟨hback, -⟩ := hback
                · exact absurd hback hnext.not_gt
                · exact absurd hback hnext.ne'
              · obtain hback | ⟨-, hback⟩ := hback
                · exact absurd hback hnext.not_gt
                · exact absurd hback hid.not_ge
      cases hhead : (candidates.insertionSort (claimedNoLater store)).head? with
      | none =>
          have hsorted := (List.mem_insertionSort (claimedNoLater store)).mpr hmem
          rw [List.head?_eq_none_iff.mp hhead] at hsorted
          cases hsorted
      | some first =>
          obtain ⟨hfound, hleast⟩ := head_of_ranked hhead
          by_contra hne
          exact (hfirst first hfound fun heq => hne (by rw [heq])).2 (hleast pick hmem)

/-- The choice leaves the project of the last claim when it can. -/
theorem chooseFairCandidate_leaves {key : ProjectId × NotificationDestinationId}
    (h : chooseFairCandidate candidates (some key) = some pick)
    (hother : ∃ other ∈ candidates, other.2.projectId ≠ key.1) : pick.2.projectId ≠ key.1 := by
  obtain ⟨other, hmem, hne⟩ := hother
  simp only [chooseFairCandidate, Option.or_eq_some_iff, Option.or_eq_none_iff] at h
  obtain ((hboth | ⟨-, hproject⟩) | ⟨⟨-, hnoProject⟩, -⟩) | ⟨⟨⟨-, hnoProject⟩, -⟩, -⟩ := h
  · have hfound := List.find?_some hboth
    exact (of_decide_eq_true hfound).1
  · have hfound := List.find?_some hproject
    exact of_decide_eq_true hfound
  · exact absurd (decide_eq_true hne) (List.find?_eq_none.mp hnoProject other hmem)
  · exact absurd (decide_eq_true hne) (List.find?_eq_none.mp hnoProject other hmem)

/-- The ranking alone, stable over the due order, has the same head. -/
theorem stable_head_eq (hordered : candidates.Pairwise DueDelivery.Before) :
    (candidates.insertionSort (fairerOrEqual store)).head?
      = (candidates.insertionSort (claimedNoLater store)).head? := by
  cases hranked : (candidates.insertionSort (claimedNoLater store)).head? with
  | none =>
      have hempty : candidates = [] := by
        refine List.eq_nil_iff_forall_not_mem.mpr fun row hrow => ?_
        have hsorted := (List.mem_insertionSort (claimedNoLater store)).mpr hrow
        rw [List.head?_eq_none_iff.mp hranked] at hsorted
        cases hsorted
      rw [hempty]
      rfl
  | some pick =>
      obtain ⟨hmem, hleast⟩ := head_of_ranked hranked
      have htotal : Std.Total (fairerOrEqual store) := ⟨fun left right => le_total (fairnessRank store left.2) _⟩
      have htrans : IsTrans DueDelivery (fairerOrEqual store) := ⟨fun _ _ _ hfirst hsecond => Nat.le_trans hfirst hsecond⟩
      have hsorted := List.pairwise_insertionSort (fairerOrEqual store) candidates
      have hstable := (List.mem_insertionSort (fairerOrEqual store)).mpr hmem
      have hnodup : (candidates.insertionSort (fairerOrEqual store)).Nodup :=
        (List.perm_insertionSort (fairerOrEqual store) candidates).nodup_iff.mpr (hordered.imp DueDelivery.Before.ne)
      cases hfair : candidates.insertionSort (fairerOrEqual store) with
      | nil =>
          rw [hfair] at hstable
          cases hstable
      | cons first rest =>
          rw [List.head?_cons]
          by_contra hne
          rw [hfair] at hstable hsorted hnodup
          have hrest : pick ∈ rest := (List.mem_cons.mp hstable).resolve_left fun heq => hne (by rw [heq])
          have hfirst : first ∈ candidates :=
            (List.mem_insertionSort (fairerOrEqual store)).mp (hfair ▸ List.mem_cons_self)
          have hrank : fairnessRank store first.2 ≤ fairnessRank store pick.2 := (List.pairwise_cons.mp hsorted).1 pick hrest
          obtain hlower | ⟨hsame, hdue⟩ := hleast first hfirst
          · exact absurd hrank (not_le.mpr hlower)
          obtain ⟨-, hpair⟩ | ⟨hbefore, -⟩ := DueDelivery.before_or_before hordered hmem hfirst fun heq => hne (by rw [heq])
          · have hkept := List.pair_sublist_insertionSort (show fairerOrEqual store pick first from hsame.le) hpair
            rw [hfair] at hkept
            cases hkept with
            | cons _ hkept => exact (List.nodup_cons.mp hnodup).1 (hkept.subset (List.mem_cons_of_mem _ List.mem_cons_self))
            | cons_cons _ hkept => exact hne rfl
          · obtain hnext | ⟨hnext, hid⟩ := hbefore
            · exact hdue.elim (fun hback => absurd hback hnext.not_gt) fun hback => absurd hback.1 hnext.ne'
            · exact hdue.elim (fun hback => absurd hback hnext.not_gt) fun hback => absurd hback.2 hid.not_ge

end Choice

/-! ### Runs -/

/-- A store of deliveries with a cursor for the project of the last claim. A claim picks from a window of due
deliveries; it leaves the project of the last claim when it can, and moves the cursor. -/
structure FairStore where
  port : DeliveryStore
  lastProject : port.State → Option ProjectId
  pick : port.State → Timestamp → Timestamp → Nat → Option (List DueDelivery × DueDelivery)
  pick_mem : ∀ {state now leaseUntil scanLimit window row}, pick state now leaseUntil scanLimit = some (window, row) →
    row ∈ window
  pick_leaves : ∀ {state now leaseUntil scanLimit window row project},
    pick state now leaseUntil scanLimit = some (window, row) → lastProject state = some project →
    (∃ other ∈ window, other.2.projectId ≠ project) → row.2.projectId ≠ project
  pick_claimed : ∀ {state now leaseUntil scanLimit window row}, pick state now leaseUntil scanLimit = some (window, row) →
    lastProject (port.claimDue state now leaseUntil scanLimit).1 = some row.2.projectId
      ∧ (port.deliveries (port.claimDue state now leaseUntil scanLimit).1)[row.1]? = some (row.2.claimed leaseUntil)
  claim_idle : ∀ {state now leaseUntil scanLimit}, pick state now leaseUntil scanLimit = none →
    (port.claimDue state now leaseUntil scanLimit).1 = state
  complete_keeps : ∀ state id completion, lastProject (port.complete state id completion).1 = lastProject state
  other_keeps : ∀ state operation, lastProject (port.other state operation) = lastProject state

inductive StoreOperation (port : DeliveryStore) where
  | claim (now leaseUntil : Timestamp) (scanLimit : Nat)
  | complete (id : NotificationDeliveryId) (completion : Completion)
  | other (operation : port.Other)

namespace FairStore

variable (store : FairStore)

def apply (state : store.port.State) : StoreOperation store.port → store.port.State
  | .claim now leaseUntil scanLimit => (store.port.claimDue state now leaseUntil scanLimit).1
  | .complete id completion => (store.port.complete state id completion).1
  | .other operation => store.port.other state operation

def claimed (state : store.port.State) : StoreOperation store.port → Option (List DueDelivery × DueDelivery)
  | .claim now leaseUntil scanLimit => store.pick state now leaseUntil scanLimit
  | .complete _ _ => none
  | .other _ => none

/-- The claims of a run, each with the window that it picked from. -/
def claims (state : store.port.State) : List (StoreOperation store.port) → List (List DueDelivery × DueDelivery)
  | [] => []
  | operation :: operations =>
      (store.claimed state operation).toList ++ claims (store.apply state operation) operations

end FairStore

/-- The later claim is of another project when its window has one. -/
def Rotates (earlier later : List DueDelivery × DueDelivery) : Prop :=
  (∃ other ∈ later.1, other.2.projectId ≠ earlier.2.2.projectId) → later.2.2.projectId ≠ earlier.2.2.projectId

namespace FairStore

variable {store : FairStore}

theorem claimed_eq_some {state : store.port.State} {operation : StoreOperation store.port}
    {claim : List DueDelivery × DueDelivery} (h : store.claimed state operation = some claim) :
    store.lastProject (store.apply state operation) = some claim.2.2.projectId
      ∧ ∀ project, store.lastProject state = some project → (∃ other ∈ claim.1, other.2.projectId ≠ project) →
        claim.2.2.projectId ≠ project := by
  cases operation with
  | claim now leaseUntil scanLimit =>
      exact ⟨(store.pick_claimed h).1, fun _ hlast hother => store.pick_leaves h hlast hother⟩
  | complete id completion => cases h
  | other operation => cases h

theorem claimed_eq_none {state : store.port.State} {operation : StoreOperation store.port}
    (h : store.claimed state operation = none) :
    store.lastProject (store.apply state operation) = store.lastProject state := by
  cases operation with
  | claim now leaseUntil scanLimit => exact congrArg store.lastProject (store.claim_idle h)
  | complete id completion => exact store.complete_keeps state id completion
  | other operation => exact store.other_keeps state operation

/-- No project is served twice in a row while another one waits in the window. -/
theorem claims_rotate (state : store.port.State) (operations : List (StoreOperation store.port)) :
    (store.claims state operations).IsChain Rotates
      ∧ ∀ first ∈ (store.claims state operations).head?, ∀ project, store.lastProject state = some project →
        (∃ other ∈ first.1, other.2.projectId ≠ project) → first.2.2.projectId ≠ project := by
  induction operations generalizing state with
  | nil =>
      refine ⟨.nil, fun first hfirst => ?_⟩
      cases hfirst
  | cons operation operations ih =>
      obtain ⟨hchain, hfirst⟩ := ih (store.apply state operation)
      rw [claims]
      cases hclaimed : store.claimed state operation with
      | none =>
          rw [claimed_eq_none hclaimed] at hfirst
          exact ⟨hchain, hfirst⟩
      | some claim =>
          obtain ⟨hlast, hleaves⟩ := claimed_eq_some hclaimed
          refine ⟨?_, fun first hmem => ?_⟩
          · rw [Option.toList_some, List.singleton_append, List.isChain_cons]
            exact ⟨fun next hnext => hfirst next hnext _ hlast, hchain⟩
          · obtain rfl : claim = first := Option.some.inj hmem
            exact hleaves

end FairStore

/-! ### The two stores -/

namespace MongoNotifications

/-- What `claim_due_inner` picks, when its arguments are valid. -/
def fairPick (store : DeliveryCollections) (now leaseUntil : Timestamp) (scanLimit : Nat) :
    Option (List DueDelivery × DueDelivery) :=
  if ¬ (1 ≤ scanLimit ∧ scanLimit ≤ 1000) ∨ leaseUntil ≤ now then none
  else (chooseFairCandidate (dueDeliveries store now scanLimit) store.fairnessCursor).map fun row =>
    (dueDeliveries store now scanLimit, row)

theorem fairPick_eq_some {store : DeliveryCollections} {now leaseUntil : Timestamp} {scanLimit : Nat}
    {window : List DueDelivery} {row : DueDelivery} (h : fairPick store now leaseUntil scanLimit = some (window, row)) :
    ¬ (¬ (1 ≤ scanLimit ∧ scanLimit ≤ 1000) ∨ leaseUntil ≤ now)
      ∧ window = dueDeliveries store now scanLimit ∧ chooseFairCandidate window store.fairnessCursor = some row := by
  rw [fairPick] at h
  split_ifs at h with hinvalid
  obtain ⟨found, hfound, heq⟩ := Option.map_eq_some_iff.mp h
  cases heq
  exact ⟨hinvalid, rfl, hfound⟩

theorem updatePending_cursor (store : DeliveryCollections) (id : NotificationDeliveryId)
    (write : NotificationDelivery → NotificationDelivery) :
    (updatePending store id write).fairnessCursor = store.fairnessCursor := by
  rw [updatePending]
  split
  · rfl
  · split_ifs <;> rfl

theorem complete_cursor (store : DeliveryCollections) (id : NotificationDeliveryId) (completion : Completion) :
    (deliveryStore.complete store id completion).1.fairnessCursor = store.fairnessCursor := by
  cases completion with
  | delivered deliveredAt deleteAt => exact updatePending_cursor store id _
  | retry nextAttemptAt errorCode =>
      simp only [DeliveryStore.complete, deliveryStore, scheduleRetry]
      split
      · rfl
      · exact updatePending_cursor store id _
  | dead deadAt deleteAt errorCode =>
      simp only [DeliveryStore.complete, deliveryStore, markDead]
      split
      · rfl
      · exact updatePending_cursor store id _

theorem fairPick_claimed {store : DeliveryCollections} {now leaseUntil : Timestamp} {scanLimit : Nat}
    {window : List DueDelivery} {row : DueDelivery} (h : fairPick store now leaseUntil scanLimit = some (window, row)) :
    (claimDue store now leaseUntil scanLimit).1.fairnessCursor = some (row.2.projectId, row.2.destinationId)
      ∧ (claimDue store now leaseUntil scanLimit).1.deliveries[row.1]? = some (row.2.claimed leaseUntil) := by
  obtain ⟨hvalid, rfl, hchosen⟩ := fairPick_eq_some h
  rw [claimDue, if_neg hvalid, hchosen]
  exact ⟨rfl, Table.get_insert_self _ _ _⟩

theorem fairPick_idle {store : DeliveryCollections} {now leaseUntil : Timestamp} {scanLimit : Nat}
    (h : fairPick store now leaseUntil scanLimit = none) : (claimDue store now leaseUntil scanLimit).1 = store := by
  rw [fairPick] at h
  rw [claimDue]
  split_ifs at h with hinvalid
  · rw [if_pos hinvalid]
  · rw [if_neg hinvalid, Option.map_eq_none_iff.mp h]

def fairStore : FairStore where
  port := deliveryStore
  lastProject store := store.fairnessCursor.map Prod.fst
  pick := fairPick
  pick_mem h := mem_of_chooseFairCandidate (fairPick_eq_some h).2.2
  pick_leaves h hlast hother := by
    obtain ⟨-, -, hchosen⟩ := fairPick_eq_some h
    obtain ⟨key, hkey, rfl⟩ := Option.map_eq_some_iff.mp hlast
    rw [hkey] at hchosen
    exact chooseFairCandidate_leaves hchosen hother
  pick_claimed h := ⟨congrArg (Option.map Prod.fst) (fairPick_claimed h).1, (fairPick_claimed h).2⟩
  claim_idle := fairPick_idle
  complete_keeps store id completion := congrArg (Option.map Prod.fst) (complete_cursor store id completion)
  other_keeps _ operation := by
    cases operation <;> rfl

end MongoNotifications

namespace PostgresNotifications

theorem dueDeliveries_ordered (store : NotificationStore) (now : Timestamp) (limit : Nat) :
    (dueDeliveries store now limit).Pairwise DueDelivery.Before :=
  (DueDelivery.ordered_insertionSort ((pairwise_toList store.deliveries).sublist List.filter_sublist)).sublist
    (List.take_sublist _ _)

/-- What `claim_delivery` picks, when its arguments are valid. -/
def fairPick (store : NotificationStore) (now lease : Timestamp) (limit : Nat) :
    Option (List DueDelivery × DueDelivery) :=
  match bounded limit 1000 with
  | .error _ => none
  | .ok () =>
      if lease ≤ now then none
      else (((dueDeliveries store now limit).insertionSort (fairerOrEqual store)).head?.filter fun row =>
        row.2.attempts < 4294967295).map fun row => (dueDeliveries store now limit, row)

theorem fairPick_eq_some {store : NotificationStore} {now lease : Timestamp} {limit : Nat}
    {window : List DueDelivery} {row : DueDelivery} (h : fairPick store now lease limit = some (window, row)) :
    bounded limit 1000 = .ok () ∧ ¬ lease ≤ now ∧ window = dueDeliveries store now limit
      ∧ (window.insertionSort (fairerOrEqual store)).head? = some row ∧ row.2.attempts < 4294967295 := by
  rw [fairPick] at h
  split at h
  · cases h
  · next hbounded =>
    split_ifs at h with hlease
    obtain ⟨found, hfound, heq⟩ := Option.map_eq_some_iff.mp h
    cases heq
    obtain ⟨hhead, hattempts⟩ := Option.filter_eq_some_iff.mp hfound
    exact ⟨hbounded, hlease, rfl, hhead, of_decide_eq_true hattempts⟩

/-- The head of the ranking has the lowest rank. -/
theorem fairnessRank_head_le {store : NotificationStore} {window : List DueDelivery} {row other : DueDelivery}
    (h : (window.insertionSort (fairerOrEqual store)).head? = some row) (hother : other ∈ window) :
    fairnessRank store row.2 ≤ fairnessRank store other.2 := by
  have htotal : Std.Total (fairerOrEqual store) := ⟨fun left right => le_total (fairnessRank store left.2) _⟩
  have htrans : IsTrans DueDelivery (fairerOrEqual store) := ⟨fun _ _ _ hfirst hsecond => Nat.le_trans hfirst hsecond⟩
  have hsorted := List.pairwise_insertionSort (fairerOrEqual store) window
  have hmem := (List.mem_insertionSort (fairerOrEqual store)).mpr hother
  obtain ⟨rest, hrest⟩ := List.head?_eq_some_iff.mp h
  rw [hrest] at hsorted hmem
  obtain rfl | hmem := List.mem_cons.mp hmem
  · exact le_rfl
  · exact (List.pairwise_cons.mp hsorted).1 other hmem

theorem mutateDelivery_cursor (store : NotificationStore) (id : NotificationDeliveryId) (error : Option Text)
    (write : NotificationDelivery → NotificationDelivery) :
    (mutateDelivery store id error write).1.lastProject = store.lastProject := by
  rw [mutateDelivery]
  split
  · rfl
  · split
    · rfl
    · split
      · rfl
      · split_ifs <;> rfl

theorem operate_cursor (store : NotificationStore) (operation : Operation) :
    (operate store operation).lastProject = store.lastProject := by
  cases operation with
  | enqueue values =>
      simp only [operate, enqueue]
      split <;> rfl
  | upsertDestination value =>
      simp only [operate, upsertDestination]
      split
      · rfl
      · split_ifs <;> rfl
  | setProjectState project state => rfl

theorem fairPick_mem {store : NotificationStore} {now lease : Timestamp} {limit : Nat} {window : List DueDelivery}
    {row : DueDelivery} (h : fairPick store now lease limit = some (window, row)) : row ∈ window := by
  obtain ⟨-, -, -, hhead, -⟩ := fairPick_eq_some h
  exact (List.mem_insertionSort (fairerOrEqual store)).mp (List.mem_of_head? hhead)

theorem fairPick_leaves {store : NotificationStore} {now lease : Timestamp} {limit : Nat} {window : List DueDelivery}
    {row : DueDelivery} {project : ProjectId} (h : fairPick store now lease limit = some (window, row))
    (hlast : store.lastProject = some project) (hother : ∃ other ∈ window, other.2.projectId ≠ project) :
    row.2.projectId ≠ project := by
  obtain ⟨-, -, -, hhead, -⟩ := fairPick_eq_some h
  obtain ⟨other, hmem, hne⟩ := hother
  have hrank : fairnessRank store other.2 ≤ 1 := by
    rw [fairnessRank_le_one, hlast, Ne, Option.some_inj]
    exact Ne.symm hne
  have hleaves := fairnessRank_le_one.mp ((fairnessRank_head_le hhead hmem).trans hrank)
  rw [hlast, Ne, Option.some_inj] at hleaves
  exact Ne.symm hleaves

theorem fairPick_claimed {store : NotificationStore} {now lease : Timestamp} {limit : Nat} {window : List DueDelivery}
    {row : DueDelivery} (h : fairPick store now lease limit = some (window, row)) :
    (claimDelivery store now lease limit).1.lastProject = some row.2.projectId
      ∧ (claimDelivery store now lease limit).1.deliveries[row.1]? = some (row.2.claimed lease) := by
  obtain ⟨hbounded, hlease, rfl, hhead, hattempts⟩ := fairPick_eq_some h
  rw [claimDelivery, hbounded]
  dsimp only
  rw [if_neg hlease, hhead]
  dsimp only
  rw [if_pos hattempts]
  exact ⟨rfl, Table.get_insert_self _ _ _⟩

theorem fairPick_idle {store : NotificationStore} {now lease : Timestamp} {limit : Nat}
    (h : fairPick store now lease limit = none) : (claimDelivery store now lease limit).1 = store := by
  rw [fairPick] at h
  rw [claimDelivery]
  cases hbounded : bounded limit 1000 with
  | error error => rfl
  | ok _ =>
      rw [hbounded] at h
      dsimp only at h ⊢
      split_ifs at h with hlease
      · rw [if_pos hlease]
      · rw [if_neg hlease]
        have hfilter := Option.map_eq_none_iff.mp h
        cases hhead : ((dueDeliveries store now limit).insertionSort (fairerOrEqual store)).head? with
        | none => rfl
        | some row =>
            rw [hhead, Option.filter_some] at hfilter
            split_ifs at hfilter with hattempts
            dsimp only
            rw [if_neg (fun hlt => hattempts (decide_eq_true hlt))]

theorem complete_cursor (store : NotificationStore) (id : NotificationDeliveryId) (completion : Completion) :
    (deliveryStore.complete store id completion).1.lastProject = store.lastProject := by
  cases completion with
  | delivered deliveredAt deleteAt => exact mutateDelivery_cursor store id none _
  | retry nextAttemptAt errorCode => exact mutateDelivery_cursor store id (some errorCode) _
  | dead deadAt deleteAt errorCode => exact mutateDelivery_cursor store id (some errorCode) _

def fairStore : FairStore where
  port := deliveryStore
  lastProject := NotificationStore.lastProject
  pick := fairPick
  pick_mem := fairPick_mem
  pick_leaves := fairPick_leaves
  pick_claimed := fairPick_claimed
  claim_idle := fairPick_idle
  complete_keeps := complete_cursor
  other_keeps := operate_cursor

end PostgresNotifications

open MongoNotifications PostgresNotifications in
/-- The two stores choose the same delivery of a window, the choice leaves the project of the last claim when it can,
and along the runs of either store no project is served twice in a row while another one waits. -/
theorem fair_choice :
    (∀ (candidates : List DueDelivery) (last : Option (ProjectId × NotificationDestinationId))
        (store : PostgresNotifications.NotificationStore), candidates.Pairwise DueDelivery.Before → Served store last →
      (candidates.insertionSort (claimedNoLater store)).head? = chooseFairCandidate candidates last
        ∧ (candidates.insertionSort (fairerOrEqual store)).head? = chooseFairCandidate candidates last)
    ∧ (∀ (candidates : List DueDelivery) (last : Option (ProjectId × NotificationDestinationId)) (pick : DueDelivery),
      chooseFairCandidate candidates last = some pick → pick ∈ candidates
        ∧ ∀ key, last = some key → (∃ other ∈ candidates, other.2.projectId ≠ key.1) → pick.2.projectId ≠ key.1)
    ∧ (∀ (store : PostgresNotifications.NotificationStore) (last : Option (ProjectId × NotificationDestinationId))
        (now : Timestamp) (limit : Nat), Served store last →
      ((PostgresNotifications.dueDeliveries store now limit).insertionSort (fairerOrEqual store)).head?
        = chooseFairCandidate (PostgresNotifications.dueDeliveries store now limit) last)
    ∧ (∀ state operations, (MongoNotifications.fairStore.claims state operations).IsChain Rotates)
    ∧ ∀ state operations, (PostgresNotifications.fairStore.claims state operations).IsChain Rotates := by
  refine ⟨fun candidates last store hordered hserved => ?_, fun candidates last pick h => ⟨?_, ?_⟩, ?_, ?_, ?_⟩
  · exact ⟨ranked_head_eq hserved hordered, (stable_head_eq hordered).trans (ranked_head_eq hserved hordered)⟩
  · exact mem_of_chooseFairCandidate h
  · rintro key rfl hother
    exact chooseFairCandidate_leaves h hother
  · intro store last now limit hserved
    have hordered := dueDeliveries_ordered store now limit
    exact (stable_head_eq hordered).trans (ranked_head_eq hserved hordered)
  · exact fun state operations => (FairStore.claims_rotate state operations).1
  · exact fun state operations => (FairStore.claims_rotate state operations).1

/-- A delivery that has waited since the epoch. -/
def waitingDelivery (id : NotificationDeliveryId) (project : ProjectId) : NotificationDelivery where
  id := id
  projectId := project
  issueId := ⟨1⟩
  transitionId := ⟨2⟩
  ruleId := ⟨3⟩
  actionId := ⟨4⟩
  destinationId := ⟨4⟩
  payload := ⟨[0x7b, 0x7d], NotificationPayload.valid_empty⟩
  status := .pending
  attempts := 0
  nextAttemptAt := ⟨0, inRange_epoch⟩
  lastError := none
  createdAt := ⟨0, inRange_epoch⟩
  deliveredAt := none
  deleteAt := none

/-- The first project was served last. -/
def servedStore : PostgresNotifications.NotificationStore where
  projects := ∅
  rules := ∅
  destinations := ∅
  deliveries := ∅
  lastProject := some ⟨1, ProjectId.positive_one⟩
  lastDestination := some ⟨4⟩

def waitingWindow : List DueDelivery :=
  [(⟨1⟩, waitingDelivery ⟨1⟩ ⟨1, ProjectId.positive_one⟩), (⟨2⟩, waitingDelivery ⟨2⟩ ⟨2, ProjectId.positive_two⟩)]

open MongoNotifications PostgresNotifications in
theorem fair_choice_two : chooseFairCandidate waitingWindow (some (⟨1, by decide⟩, ⟨4⟩))
      = some (⟨2⟩, waitingDelivery ⟨2⟩ ⟨2, by decide⟩)
    ∧ (waitingWindow.insertionSort (claimedNoLater servedStore)).head?
      = some (⟨2⟩, waitingDelivery ⟨2⟩ ⟨2, by decide⟩) := by
  have hchosen : chooseFairCandidate waitingWindow (some (⟨1, by decide⟩, ⟨4⟩))
      = some (⟨2⟩, waitingDelivery ⟨2⟩ ⟨2, by decide⟩) := by decide
  refine ⟨hchosen, ?_⟩
  have hordered : waitingWindow.Pairwise DueDelivery.Before := by
    rw [waitingWindow, List.pairwise_pair]
    exact .inr ⟨rfl, by decide⟩
  rw [(fair_choice.1 waitingWindow (some (⟨1, by decide⟩, ⟨4⟩)) servedStore hordered ⟨rfl, rfl⟩).1, hchosen]

end MetricBackend
