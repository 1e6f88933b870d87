import Mathlib.Data.List.Perm.Basic
import Mathlib.Data.Multiset.AddSub
import MetricBackend.LibFallible
import MetricBackend.LibRuns
import MetricBackend.LibIndexed
import MetricBackend.EventDispatcher

/-! What the key set of the dispatcher stands for. Every key in it is answered for by exactly one
holder: a message in the channel, a task, an open offer or work given up at the drain deadline. -/

namespace MetricBackend

namespace EventDispatcher

namespace World

/-! ### The holders of keys -/

def queued (world : World) : List EventKey := world.queue.map PendingEvent.key

def runningKeys (world : World) : List EventKey := world.running.map Work.key

def offering (world : World) : List EventKey := world.offers.flatMap Offer.held

def holders (world : World) : List EventKey :=
  world.queued ++ world.runningKeys ++ world.offering ++ world.aborted

/-- The key set is the disjoint union of what is queued, running and being offered, and of the work
given up once the drain deadline has passed. -/
structure Accounted (config : DispatcherConfig) (world : World) : Prop where
  disjoint : world.holders.Nodup
  exact : world.keys = world.holders.toFinset
  bounded : world.running.length ≤ config.workerConcurrency
  deadline : world.aborted ≠ [] → world.phase.pastDeadline = true

theorem Accounted.perm {config : DispatcherConfig} {world : World} (h : Accounted config world) :
    world.keys.val = (world.holders : Multiset EventKey) := by
  rw [h.exact, List.toFinset_val, h.disjoint.dedup]

theorem holders_of_perm {world : World} (h : world.keys.val = (world.holders : Multiset EventKey)) :
    world.holders.Nodup ∧ world.keys = world.holders.toFinset := by
  have hnodup : world.holders.Nodup := by
    rw [← Multiset.coe_nodup, ← h]
    exact world.keys.nodup
  refine ⟨hnodup, ?_⟩
  apply Finset.val_injective
  rw [h, List.toFinset_val, hnodup.dedup]

/-- What a step does to the key set and its holders. -/
inductive Shift (world next : World) : Prop
  /-- Nothing, or a key passes from one holder to another. -/
  | kept (hkeys : next.keys = world.keys) (hholders : world.holders.Perm next.holders)
  | added (key : EventKey) (habsent : key ∉ world.keys) (hkeys : next.keys = insert key world.keys)
      (hholders : next.holders.Perm (key :: world.holders))
  | removed (key : EventKey) (hkeys : next.keys = world.keys.erase key)
      (hholders : world.holders.Perm (key :: next.holders))

/-! ### The steps of an offer -/

variable {config : DispatcherConfig} {world : World} {index : Nat}

theorem count_offering {offer : Offer} (hoffer : world.offers[index]? = some offer) (key : EventKey) :
    world.offering.count key
      = offer.held.count key + ((world.offers.eraseIdx index).flatMap Offer.held).count key := by
  have hperm := (perm_cons_eraseIdx hoffer).flatMap_right Offer.held
  rw [offering, hperm.count_eq, List.flatMap_cons, List.count_append]

theorem count_set_offering {offer : Offer} (hoffer : world.offers[index]? = some offer)
    (replacement : Offer) (key : EventKey) :
    ((world.offers.set index replacement).flatMap Offer.held).count key
      = replacement.held.count key + ((world.offers.eraseIdx index).flatMap Offer.held).count key := by
  have hperm := (set_perm_cons_eraseIdx hoffer replacement).flatMap_right Offer.held
  rw [hperm.count_eq, List.flatMap_cons, List.count_append]

theorem count_holders (world : World) (key : EventKey) :
    world.holders.count key = world.queued.count key + world.runningKeys.count key
      + world.offering.count key + world.aborted.count key := by
  rw [holders, List.count_append, List.count_append, List.count_append]

theorem admit_shift (world : World) (phase : Phase) (source : OfferSource) (event : PendingEvent) :
    Shift world ({ world with phase := phase }.admitEvent source event) := by
  unfold admitEvent
  split_ifs with haccepting
  · refine .kept rfl (List.perm_iff_count.mpr fun key => ?_)
    rw [count_holders, count_holders]
    simp [queued, runningKeys, offering, Offer.held]
  · exact .kept rfl (List.Perm.refl _)

theorem insertKey_shift (world : World) (index : Nat) : Shift world (world.insertKey index) := by
  unfold insertKey
  split
  case h_1 event source hoffer =>
    have hcount := count_offering hoffer
    simp only [Offer.held, List.count_nil, Nat.zero_add] at hcount
    split_ifs with hkey
    · refine .kept rfl (List.perm_iff_count.mpr fun key => ?_)
      rw [count_holders, count_holders, hcount key]
      rfl
    · refine .added event.key hkey rfl (List.perm_iff_count.mpr fun key => ?_)
      have hset := count_set_offering hoffer ⟨event, source, .inserted⟩ key
      rw [List.count_cons, count_holders, count_holders, hcount key]
      simp only [queued, runningKeys, offering, hset, Offer.held, List.count_singleton]
      omega
  case h_2 => exact .kept rfl (List.Perm.refl _)

theorem send_shift (config : DispatcherConfig) (world : World) (index : Nat) :
    Shift world (world.send config index) := by
  unfold send
  split
  case h_1 event source hoffer =>
    have hcount := count_offering hoffer
    simp only [Offer.held] at hcount
    cases hsend : world.trySend config event with
    | error error =>
        refine .kept rfl (List.perm_iff_count.mpr fun key => ?_)
        have hset := count_set_offering hoffer ⟨event, source, .refused⟩ key
        rw [count_holders, count_holders, hcount key]
        simp only [queued, runningKeys, offering, hset, Offer.held]
    | ok queue =>
        have hqueue : queue = world.queue ++ [event] := by
          unfold trySend at hsend
          split_ifs at hsend
          cases hsend
          rfl
        refine .kept rfl (List.perm_iff_count.mpr fun key => ?_)
        rw [count_holders, count_holders, hcount key]
        simp only [answer, queued, runningKeys, offering, hqueue, List.map_append, List.map_cons,
          List.map_nil, List.count_append]
        omega
  case h_2 => exact .kept rfl (List.Perm.refl _)

theorem removeKey_shift (world : World) (index : Nat) : Shift world (world.removeKey index) := by
  unfold removeKey
  split
  case h_1 event source hoffer =>
    have hcount := count_offering hoffer
    simp only [Offer.held] at hcount
    refine .removed event.key rfl (List.perm_iff_count.mpr fun key => ?_)
    rw [count_holders, List.count_cons, count_holders, hcount key]
    simp only [answer, queued, runningKeys, offering, List.count_singleton]
    omega
  case h_2 => exact .kept rfl (List.Perm.refl _)

/-! ### The steps of the dispatcher task -/

theorem receive_shift (config : DispatcherConfig) (world : World) :
    Shift world (world.receive config) := by
  unfold receive
  split_ifs with hready
  · split
    case h_1 => exact .kept rfl (List.Perm.refl _)
    case h_2 event queue hqueue =>
      refine .kept rfl (List.perm_iff_count.mpr fun key => ?_)
      rw [count_holders, count_holders]
      simp only [spawnWork, queued, runningKeys, offering, hqueue, List.map_append, List.map_cons,
        List.map_nil, List.count_append, List.count_cons, List.count_nil, Work.key]
      omega
  · exact .kept rfl (List.Perm.refl _)

theorem finish_shift (world : World) (index : Nat) (ending : WorkEnding) :
    Shift world (world.finish index ending) := by
  unfold finish
  split
  case h_1 event hwork =>
    refine .kept rfl ?_
    have hrunning : (world.running.set index ⟨event, some ending⟩).map Work.key
        = world.running.map Work.key := map_set_of_key_eq hwork rfl
    simp only [holders, queued, runningKeys, offering, hrunning]
    exact List.Perm.refl _
  case h_2 => exact .kept rfl (List.Perm.refl _)

theorem count_running {work : Work} (hwork : world.running[index]? = some work) (key : EventKey) :
    world.runningKeys.count key
      = [work.key].count key + ((world.running.eraseIdx index).map Work.key).count key := by
  have hperm := (perm_cons_eraseIdx hwork).map Work.key
  rw [runningKeys, hperm.count_eq, List.map_cons, ← List.singleton_append, List.count_append]

theorem join_perm {work : Work} (hwork : world.running[index]? = some work) (keys : Finset EventKey) :
    world.holders.Perm
      (work.key :: { world with keys := keys, running := world.running.eraseIdx index }.holders) := by
  refine List.perm_iff_count.mpr fun key => ?_
  rw [count_holders, List.count_cons, count_holders, count_running hwork key]
  simp only [queued, runningKeys, offering, List.count_singleton]
  omega

/-- No task ends in a `JoinError` before the drain deadline: the dispatcher does not join a task whose
handler panicked inside `handle` itself. -/
def contained (config : DispatcherConfig) (world : World) : Action → Bool
  | .join index => ¬ (world.joins config
      ∧ world.running[index]?.bind Work.ending = some .panickedInCall)
  | _ => true

theorem join_shift (hcontained : world.contained config (.join index) = true) :
    Shift world (world.join config index) := by
  unfold join
  split
  case h_1 event ending hjoins hwork =>
    simp only [contained, hjoins, hwork, Option.bind_some, true_and, decide_not, Option.some.injEq,
      Bool.not_eq_true', decide_eq_false_iff_not] at hcontained
    cases ending with
    | returned => exact .removed event.key rfl (join_perm hwork _)
    | panicked => exact .removed event.key rfl (join_perm hwork _)
    | panickedInCall => exact absurd rfl hcontained
  case h_2 => exact .kept rfl (List.Perm.refl _)

/-- The `JoinError` of a handler that panicked inside `handle` leaves its key behind. -/
theorem join_leaks (hleaks : ¬ world.contained config (.join index) = true) :
    ∃ key, (world.join config index).keys = world.keys
      ∧ world.holders.Perm (key :: (world.join config index).holders) := by
  simp only [contained, decide_not, Bool.not_eq_true', decide_eq_false_iff_not, not_not,
    Option.bind_eq_some_iff] at hleaks
  obtain ⟨hjoins, ⟨event, ending⟩, hwork, rfl⟩ := hleaks
  have hjoin : world.join config index = { world with running := world.running.eraseIdx index } := by
    simp only [join, hjoins, hwork]
    rfl
  rw [hjoin]
  exact ⟨event.key, rfl, join_perm hwork _⟩

theorem reap_shift (world : World) (index : Nat) : Shift world (world.reap index) := by
  unfold reap
  split
  case h_1 work hphase hwork =>
    refine .kept rfl (List.perm_iff_count.mpr fun key => ?_)
    rw [count_holders, count_holders, count_running hwork key]
    simp only [queued, runningKeys, offering, List.count_append]
    omega
  case h_2 => exact .kept rfl (List.Perm.refl _)

theorem leave_shift (world : World) : Shift world world.leave := by
  unfold leave
  split
  case h_1 =>
    split_ifs with hqueue
    · exact .kept rfl (List.Perm.refl _)
    · exact .kept rfl (List.Perm.refl _)
  case h_2 hphase hrunning =>
    refine .kept rfl (List.perm_iff_count.mpr fun key => ?_)
    rw [count_holders, count_holders]
    simp only [queued, runningKeys, offering, List.map_nil, List.count_nil, List.count_append]
    omega
  case h_3 => exact .kept rfl (List.Perm.refl _)

theorem execute_shift {action : Action} (hcontained : world.contained config action = true) :
    Shift world (world.execute config action) := by
  have hsame : Shift world world := .kept rfl (List.Perm.refl _)
  cases action with
  | offer event =>
      simp only [execute]
      split_ifs
      · exact admit_shift world world.phase .fresh event
      · exact hsame
  | insert index => exact insertKey_shift world index
  | send index => exact send_shift config world index
  | remove index => exact removeKey_shift world index
  | shutdown => exact .kept rfl (List.Perm.refl _)
  | refill =>
      simp only [execute, refillOnce]
      split_ifs
      · exact .kept rfl (List.Perm.refl _)
      · exact .kept rfl (List.Perm.refl _)
      · exact hsame
  | load loaded =>
      simp only [execute, load]
      split
      · split
        · exact .kept rfl (List.Perm.refl _)
        · exact .kept rfl (List.Perm.refl _)
      · exact hsame
  | next =>
      simp only [execute, next]
      split
      · split_ifs
        · exact hsame
        · split
          · exact .kept rfl (List.Perm.refl _)
          · exact admit_shift world _ .refill _
      · exact hsame
  | receive => exact receive_shift config world
  | finish index ending => exact finish_shift world index ending
  | join index => exact join_shift hcontained
  | stop =>
      simp only [execute, stop]
      split_ifs
      · exact .kept rfl (List.Perm.refl _)
      · exact hsame
  | close =>
      simp only [execute, close]
      split_ifs
      · exact .kept rfl (List.Perm.refl _)
      · exact hsame
  | deadline =>
      simp only [execute, deadline]
      split_ifs
      · exact .kept rfl (List.Perm.refl _)
      · exact hsame
  | reap index => exact reap_shift world index
  | leave => exact leave_shift world

/-! ### The limits of the dispatcher task -/

structure Limits (config : DispatcherConfig) (world : World) : Prop where
  bounded : world.running.length ≤ config.workerConcurrency
  deadline : world.aborted ≠ [] → world.phase.pastDeadline = true

theorem Limits.admitEvent (h : Limits config world) (source : OfferSource) (event : PendingEvent) :
    Limits config (world.admitEvent source event) := by
  unfold World.admitEvent
  split_ifs
  · exact ⟨h.bounded, h.deadline⟩
  · exact ⟨h.bounded, h.deadline⟩

theorem Limits.insertKey (h : Limits config world) (index : Nat) :
    Limits config (world.insertKey index) := by
  unfold World.insertKey
  split
  · split_ifs
    · exact ⟨h.bounded, h.deadline⟩
    · exact ⟨h.bounded, h.deadline⟩
  · exact h

theorem Limits.send (h : Limits config world) (index : Nat) :
    Limits config (world.send config index) := by
  unfold World.send
  split
  · split
    · exact ⟨h.bounded, h.deadline⟩
    · exact ⟨h.bounded, h.deadline⟩
  · exact h

theorem Limits.removeKey (h : Limits config world) (index : Nat) :
    Limits config (world.removeKey index) := by
  unfold World.removeKey
  split
  · exact ⟨h.bounded, h.deadline⟩
  · exact h

theorem Limits.receive (h : Limits config world) : Limits config (world.receive config) := by
  unfold World.receive
  split_ifs with hready
  · split
    · exact h
    · refine ⟨?_, h.deadline⟩
      simp only [spawnWork, List.length_append, List.length_singleton]
      exact hready.2
  · exact h

theorem Limits.finish (h : Limits config world) (index : Nat) (ending : WorkEnding) :
    Limits config (world.finish index ending) := by
  unfold World.finish
  split
  · exact ⟨by simpa using h.bounded, h.deadline⟩
  · exact h

theorem length_eraseIdx_le (h : Limits config world) (index : Nat) :
    (world.running.eraseIdx index).length ≤ config.workerConcurrency :=
  (List.eraseIdx_sublist _ _).length_le.trans h.bounded

theorem Limits.join (h : Limits config world) (index : Nat) :
    Limits config (world.join config index) := by
  unfold World.join
  split
  case h_1 event ending hjoins hwork =>
    cases ending with
    | returned => exact ⟨length_eraseIdx_le h index, h.deadline⟩
    | panicked => exact ⟨length_eraseIdx_le h index, h.deadline⟩
    | panickedInCall => exact ⟨length_eraseIdx_le h index, h.deadline⟩
  case h_2 => exact h

theorem Limits.reap (h : Limits config world) (index : Nat) : Limits config (world.reap index) := by
  unfold World.reap
  split
  case h_1 work hphase hwork =>
    refine ⟨length_eraseIdx_le h index, fun _ => ?_⟩
    rw [hphase]
    rfl
  case h_2 => exact h

theorem Limits.leave (h : Limits config world) : Limits config world.leave := by
  unfold World.leave
  split
  case h_1 hphase hrunning =>
    split_ifs
    · refine ⟨h.bounded, fun haborted => ?_⟩
      have hpast := h.deadline haborted
      rw [hphase] at hpast
      cases hpast
    · exact h
  case h_2 => exact ⟨h.bounded, fun _ => rfl⟩
  case h_3 => exact h

/-- Before the deadline nothing has been given up, so the phase may change freely. -/
theorem Limits.withPhase (h : Limits config world) (hpast : world.phase.pastDeadline = false)
    (phase : Phase) : Limits config { world with phase := phase } := by
  refine ⟨h.bounded, fun haborted => ?_⟩
  rw [h.deadline haborted] at hpast
  cases hpast

theorem Limits.load (h : Limits config world)
    (loaded : Except EventBacklogError (List PendingEvent)) : Limits config (world.load loaded) := by
  unfold World.load
  split
  case h_1 startup wanted excluded hphase =>
    have hpast : world.phase.pastDeadline = false := by rw [hphase]; rfl
    split
    · exact h.withPhase hpast _
    · exact h.withPhase hpast _
  case h_2 => exact h

theorem Limits.next (h : Limits config world) : Limits config world.next := by
  unfold World.next
  split
  case h_1 startup events hphase =>
    have hpast : world.phase.pastDeadline = false := by rw [hphase]; rfl
    split_ifs
    · exact h
    · split
      · exact h.withPhase hpast _
      · exact (h.withPhase hpast _).admitEvent _ _
  case h_2 => exact h

theorem Limits.execute (h : Limits config world) (action : Action) :
    Limits config (world.execute config action) := by
  cases action with
  | offer event =>
      simp only [World.execute]
      split_ifs
      · exact h.admitEvent .fresh event
      · exact h
  | insert index => exact h.insertKey index
  | send index => exact h.send index
  | remove index => exact h.removeKey index
  | shutdown => exact ⟨h.bounded, h.deadline⟩
  | refill =>
      simp only [World.execute, refillOnce]
      split_ifs with hready
      · exact h.withPhase (by rw [hready.1]; rfl) _
      · exact h.withPhase (by rw [hready.1]; rfl) _
      · exact h
  | load loaded => exact h.load loaded
  | next => exact h.next
  | receive => exact h.receive
  | finish index ending => exact h.finish index ending
  | join index => exact h.join index
  | stop =>
      simp only [World.execute, World.stop]
      split_ifs with hready
      · have hphase := h.withPhase (by rw [hready.1]; rfl) .stopping
        exact ⟨hphase.bounded, hphase.deadline⟩
      · exact h
  | close =>
      simp only [World.execute, World.close]
      split_ifs with hready
      · have hphase := h.withPhase (by rw [hready]; rfl) .draining
        exact ⟨hphase.bounded, hphase.deadline⟩
      · exact h
  | deadline =>
      simp only [World.execute, World.deadline]
      split_ifs with hready
      · exact h.withPhase (by rw [hready.1]; rfl) .aborting
      · exact h
  | reap index => exact h.reap index
  | leave => exact h.leave

/-! ### Every run -/

theorem Accounted.limits (h : Accounted config world) : Limits config world :=
  ⟨h.bounded, h.deadline⟩

theorem Accounted.shift {next : World} (h : Accounted config world) (hshift : Shift world next)
    (hlimits : Limits config next) : Accounted config next := by
  have hperm : next.keys.val = (next.holders : Multiset EventKey) := by
    cases hshift with
    | kept hkeys hholders =>
        rw [hkeys, h.perm]
        exact Multiset.coe_eq_coe.mpr hholders
    | added key habsent hkeys hholders =>
        rw [hkeys, Finset.insert_val_of_notMem habsent, h.perm, Multiset.cons_coe]
        exact Multiset.coe_eq_coe.mpr hholders.symm
    | removed key hkeys hholders =>
        rw [hkeys, Finset.erase_val, h.perm, Multiset.coe_eq_coe.mpr hholders, ← Multiset.cons_coe,
          Multiset.erase_cons_head]
  obtain ⟨hdisjoint, hexact⟩ := holders_of_perm hperm
  exact ⟨hdisjoint, hexact, hlimits.bounded, hlimits.deadline⟩

theorem Accounted.execute {action : Action} (h : Accounted config world)
    (hcontained : world.contained config action = true) :
    Accounted config (world.execute config action) :=
  h.shift (execute_shift hcontained) (h.limits.execute action)

theorem not_accounted_of_leak {action : Action} (h : Accounted config world)
    (hleaks : ¬ world.contained config action = true) :
    ¬ Accounted config (world.execute config action) := by
  cases action with
  | join index =>
      intro hnext
      obtain ⟨key, hkeys, hholders⟩ := join_leaks hleaks
      have hnodup := hholders.nodup_iff.mp h.disjoint
      have hkey : key ∈ (world.join config index).holders.toFinset := by
        have hexact : (world.join config index).keys = (world.join config index).holders.toFinset :=
          hnext.exact
        rw [← hexact, hkeys, h.exact, List.mem_toFinset, hholders.mem_iff]
        exact List.mem_cons_self
      exact (List.nodup_cons.mp hnodup).1 (List.mem_toFinset.mp hkey)
  | _ => exact absurd rfl hleaks

/-! ### Calls that return an error -/

/-- What the call that takes the step has added to the key set and not handed over. -/
def contributed (world : World) : Action → List EventKey
  | .insert index | .send index | .remove index => (world.offers[index]?.map Offer.held).getD []
  | _ => []

end World

/-- The action is a step of a call of `offer_pending_with_source`. -/
def Action.ofCall : Action → Bool
  | .offer _ | .next | .insert _ | .send _ | .remove _ => true
  | _ => false

namespace World

/-- A step of a call leaves the key set as it was, up to the call's own key. Once the call returns
`Err` that key is gone too. -/
def Restores (config : DispatcherConfig) (world : World) (action : Action) : Prop :=
  action.ofCall = true →
    ((world.execute config action).answers = world.answers →
      (world.execute config action).keys \ ((world.execute config action).contributed action).toFinset
        = world.keys \ (world.contributed action).toFinset)
    ∧ ∀ event, (world.execute config action).answers = .error event :: world.answers →
      (world.execute config action).keys = world.keys \ (world.contributed action).toFinset

theorem admit_keys (world : World) (source : OfferSource) (event : PendingEvent) :
    (world.admitEvent source event).keys = world.keys := by
  unfold admitEvent
  split_ifs
  · rfl
  · rfl

theorem next_keys (world : World) : world.next.keys = world.keys := by
  unfold next
  split
  · split_ifs
    · rfl
    · split
      · rfl
      · exact admit_keys _ _ _
  · rfl

theorem insertKey_restores (config : DispatcherConfig) (world : World) (index : Nat) :
    Restores config world (.insert index) := by
  intro _
  simp only [execute, insertKey]
  split
  case h_1 event source hoffer =>
    have hbefore : world.contributed (.insert index) = [] := by
      simp [contributed, hoffer, Offer.held]
    split_ifs with hkey
    · simp [answer]
    · have hlength : index < world.offers.length := (List.getElem?_eq_some_iff.mp hoffer).1
      refine ⟨fun _ => ?_, fun returned hanswers => absurd hanswers (by simp)⟩
      rw [hbefore]
      simp only [contributed, List.getElem?_set_self hlength, Option.map_some, Option.getD_some, Offer.held]
      simp [Finset.insert_sdiff_of_mem, hkey]
  case h_2 => exact ⟨fun _ => rfl, fun returned hanswers => absurd hanswers (by simp)⟩

theorem send_restores (config : DispatcherConfig) (world : World) (index : Nat) :
    Restores config world (.send index) := by
  intro _
  simp only [execute, send]
  split
  case h_1 event source hoffer =>
    have hlength : index < world.offers.length := (List.getElem?_eq_some_iff.mp hoffer).1
    split
    · simp [answer]
    · refine ⟨fun _ => ?_, fun returned hanswers => absurd hanswers (by simp)⟩
      simp [contributed, hoffer, List.getElem?_set_self hlength, Offer.held]
  case h_2 => exact ⟨fun _ => rfl, fun returned hanswers => absurd hanswers (by simp)⟩

theorem removeKey_restores (config : DispatcherConfig) (world : World) (index : Nat) :
    Restores config world (.remove index) := by
  intro _
  simp only [execute, removeKey]
  split
  case h_1 event source hoffer =>
    refine ⟨fun hanswers => absurd hanswers (by simp [answer]), fun _ _ => ?_⟩
    simp [answer, contributed, hoffer, Offer.held, Finset.sdiff_singleton_eq_erase]
  case h_2 => exact ⟨fun _ => rfl, fun returned hanswers => absurd hanswers (by simp)⟩

theorem execute_restores (config : DispatcherConfig) (world : World) (action : Action) :
    Restores config world action := by
  cases action with
  | offer event =>
      intro _
      have hkeys : (world.execute config (.offer event)).keys = world.keys := by
        simp only [execute]
        split_ifs
        · exact admit_keys _ _ _
        · rfl
      simp only [contributed, List.toFinset_nil, Finset.sdiff_empty]
      exact ⟨fun _ => hkeys, fun _ _ => hkeys⟩
  | next =>
      intro _
      have hkeys : (world.execute config .next).keys = world.keys := next_keys world
      simp only [contributed, List.toFinset_nil, Finset.sdiff_empty]
      exact ⟨fun _ => hkeys, fun _ _ => hkeys⟩
  | insert index => exact insertKey_restores config world index
  | send index => exact send_restores config world index
  | remove index => exact removeKey_restores config world index
  | _ => exact fun hcall => absurd hcall (by simp [Action.ofCall])

/-- The steps of a call taken in a row are the call. -/
theorem offer_steps (config : DispatcherConfig) (world : World) (event : PendingEvent)
    (hshared : world.phase.shared = true) :
    [.offer event, .insert world.offers.length, .send world.offers.length,
        .remove world.offers.length].foldl (execute config) world
      = (world.offerPendingWithSource config event).1.answer
          (world.offerPendingWithSource config event).2 := by
  simp only [List.foldl_cons, List.foldl_nil, execute, hshared, if_true, admitEvent, offerPendingWithSource]
  by_cases haccepting : world.isAccepting = true
  · by_cases hkey : event.key ∈ world.keys
    · simp [haccepting, hkey, insertKey, send, removeKey, answer, eraseIdx_append_singleton]
    · by_cases hclosed : world.closed = true
      · simp [haccepting, hkey, hclosed, insertKey, send, removeKey, answer, trySend,
          eraseIdx_append_singleton]
      · by_cases hfull : config.queueCapacity ≤ world.queue.length
        · simp [haccepting, hkey, hclosed, hfull, insertKey, send, removeKey, answer, trySend,
          eraseIdx_append_singleton]
        · simp [haccepting, hkey, hclosed, hfull, insertKey, send, removeKey, answer, trySend,
          eraseIdx_append_singleton]
  · simp [haccepting, insertKey, send, removeKey, answer]

/-! ### The key set along every run -/

theorem start_accounted {cancelled : Bool} (hstart : World.start config cancelled = .ok world) :
    Accounted config world := by
  simp only [start, bind_eq_ok, pure_eq_ok] at hstart
  obtain ⟨⟨⟩, -, rfl⟩ := hstart
  simp only [refillOnce]
  split_ifs
  · exact ⟨List.nodup_nil, rfl, Nat.zero_le _, fun h => absurd rfl h⟩
  · exact ⟨List.nodup_nil, rfl, Nat.zero_le _, fun h => absurd rfl h⟩

/-- For every interleaving of offers, refills, receives, completions, panics and the drain. -/
theorem scheduled_keys_iff {config : DispatcherConfig} {cancelled : Bool} {world : World}
    (hstart : World.start config cancelled = .ok world) (actions : List Action) :
    (Always (execute config) (Accounted config) world actions
        ∧ Throughout (execute config) (Restores config) world actions)
      ↔ Throughout (execute config) (fun world action => world.contained config action = true)
        world actions := by
  have hiff : Always (execute config) (Accounted config) world actions
      ↔ Throughout (execute config) (fun world action => world.contained config action = true)
        world actions :=
    always_iff_throughout (fun _ => id) (fun _ _ => Accounted.execute)
      (fun _ _ => not_accounted_of_leak) actions world (start_accounted hstart)
  have hrestores : Throughout (execute config) (Restores config) world actions :=
    throughout_of_forall (execute_restores config) world actions
  rw [hiff]
  exact ⟨fun h => h.1, fun h => ⟨h, hrestores⟩⟩

/-- The default dispatcher before its first load. -/
def started : World where
  keys := ∅
  accepting := true
  cancelled := false
  queue := []
  closed := false
  running := []
  offers := []
  phase := .loading true 512 ∅
  aborted := []
  answers := []

def pendingEvent (id : Nat) : PendingEvent :=
  PendingEvent.fresh
    { projectId := ⟨42, ProjectId.positive_fortyTwo⟩
      eventId := ⟨BitVec.ofNat 128 id⟩
      receivedAt := ⟨0, inRange_epoch⟩
      policyRevision := 1
      payload := ⟨[]⟩ }

/-- A refill that loads an event offered meanwhile, a handler whose future panics, and a drain that
reaches its deadline with one task left. -/
def drainedRun : List Action :=
  [.load (.ok []), .next, .refill, .offer (pendingEvent 1), .insert 0,
    .load (.ok [pendingEvent 1, pendingEvent 2]), .next, .insert 1, .send 0, .next, .insert 0, .send 0,
    .next, .receive, .receive, .finish 0 .panicked, .join 0, .offer (pendingEvent 3), .shutdown, .stop,
    .insert 0, .close, .send 0, .remove 0, .deadline, .reap 0, .leave]

theorem scheduled_keys_iff_drained :
    World.start .defaultValue false = .ok started
      ∧ Always (execute .defaultValue) (Accounted .defaultValue) started drainedRun
      ∧ Throughout (execute .defaultValue) (Restores .defaultValue) started drainedRun :=
  have hstart : World.start .defaultValue false = .ok started := by decide
  ⟨hstart, (scheduled_keys_iff hstart drainedRun).mpr (by decide)⟩

/-- A handler panics inside `handle`, before it returns its future. -/
def panickedInCallRun : List Action :=
  [.load (.ok []), .next, .offer (pendingEvent 1), .insert 0, .send 0, .receive,
    .finish 0 .panickedInCall, .join 0]

theorem panicked_call_leaks_key :
    World.start .defaultValue false = .ok started
      ∧ ¬ Always (execute .defaultValue) (Accounted .defaultValue) started panickedInCallRun := by
  refine ⟨by decide, fun h => ?_⟩
  have hkeys : (panickedInCallRun.foldl (execute .defaultValue) started).keys
      = (panickedInCallRun.foldl (execute .defaultValue) started).holders.toFinset := h.last.exact
  revert hkeys
  decide

end World

end EventDispatcher

end MetricBackend
