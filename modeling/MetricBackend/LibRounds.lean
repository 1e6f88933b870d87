import Mathlib

/-! Queues served in rounds: each round takes the front of every queue, in their order, and drops the queues this
empties. -/

namespace MetricBackend

namespace Rounds

variable {K V : Type}

def fronts (queues : List (K × List V)) : List V := queues.filterMap fun queue => queue.2.head?

def remaining (queues : List (K × List V)) : List (K × List V) :=
  (queues.map fun queue => (queue.1, queue.2.tail)).filter fun queue => !queue.2.isEmpty

/-- What every round is sure to lower. -/
def size (queues : List (K × List V)) : ℕ := (queues.map fun queue => queue.2.length + 1).sum

theorem size_cons (queue : K × List V) (queues : List (K × List V)) :
    size (queue :: queues) = queue.2.length + 1 + size queues := rfl

theorem remaining_cons (queue : K × List V) (queues : List (K × List V)) : remaining (queue :: queues)
    = if queue.2.tail = [] then remaining queues else (queue.1, queue.2.tail) :: remaining queues := by
  rw [remaining, List.map_cons, List.filter_cons, ← remaining]
  cases queue.2.tail <;> rfl

theorem size_remaining_le (queues : List (K × List V)) : size (remaining queues) ≤ size queues := by
  induction queues with
  | nil => exact Nat.le_refl _
  | cons queue queues ih =>
      rw [remaining_cons, size_cons]
      split_ifs with htail
      · omega
      · rw [size_cons, List.length_tail]
        omega

theorem size_remaining_lt {queues : List (K × List V)} (h : queues ≠ []) : size (remaining queues) < size queues := by
  obtain ⟨queue, rest, rfl⟩ := List.exists_cons_of_ne_nil h
  have hrest := size_remaining_le rest
  rw [remaining_cons, size_cons]
  split_ifs with htail
  · omega
  · have hlength : 0 < queue.2.tail.length := List.length_pos_iff.mpr htail
    rw [List.length_tail] at hlength
    rw [size_cons, List.length_tail]
    omega

/-- Rounds, until no queue is left. -/
def serve (queues : List (K × List V)) : List V :=
  if queues = [] then [] else fronts queues ++ serve (remaining queues)
termination_by size queues
decreasing_by exact size_remaining_lt ‹_›

theorem serve_nil : serve ([] : List (K × List V)) = [] := by
  rw [serve, if_pos rfl]

theorem serve_of_ne_nil {queues : List (K × List V)} (h : queues ≠ []) :
    serve queues = fronts queues ++ serve (remaining queues) := by
  rw [serve, if_neg h]

section keyed

variable {keyOf : V → Option K} {queues : List (K × List V)} {key : K}

/-- One queue for each key, of values with that key. -/
structure Keyed (keyOf : V → Option K) (queues : List (K × List V)) : Prop where
  nodup : (queues.map Prod.fst).Nodup
  keys : ∀ queue ∈ queues, ∀ value ∈ queue.2, keyOf value = some queue.1

theorem Keyed.remaining (h : Keyed keyOf queues) : Keyed keyOf (remaining queues) := by
  refine ⟨?_, fun queue hqueue value hvalue => ?_⟩
  · have hmap : (queues.map fun queue => (queue.1, queue.2.tail)).map Prod.fst = queues.map Prod.fst := by
      rw [List.map_map]
      rfl
    have hsublist : ((Rounds.remaining queues).map Prod.fst).Sublist (queues.map Prod.fst) := by
      rw [← hmap]
      exact List.filter_sublist.map Prod.fst
    exact h.nodup.sublist hsublist
  · obtain ⟨original, horiginal, rfl⟩ := List.mem_map.mp (List.mem_filter.mp hqueue).1
    exact h.keys original horiginal value (List.mem_of_mem_tail hvalue)

theorem exists_key_of_mem_serve {value : V} (h : Keyed keyOf queues) (hvalue : value ∈ serve queues) :
    ∃ key, keyOf value = some key := by
  induction queues using serve.induct with
  | case1 =>
      rw [serve_nil] at hvalue
      exact absurd hvalue List.not_mem_nil
  | case2 queues hne ih =>
      rw [serve_of_ne_nil hne] at hvalue
      rcases List.mem_append.mp hvalue with hfront | hlater
      · obtain ⟨queue, hqueue, hhead⟩ := List.mem_filterMap.mp hfront
        exact ⟨queue.1, h.keys queue hqueue value (List.mem_of_head? hhead)⟩
      · exact ih h.remaining hlater

variable [DecidableEq K]

/-- The queue of a key, where it has one. -/
def queueOf (queues : List (K × List V)) (key : K) : List V :=
  (queues.find? fun queue => queue.1 = key).elim [] Prod.snd

theorem queueOf_cons_self {queue : List V} : queueOf ((key, queue) :: queues) key = queue := by
  rw [queueOf, List.find?_cons_of_pos (by simp)]
  rfl

theorem queueOf_cons_of_ne {other : K} {queue : List V} (h : other ≠ key) :
    queueOf ((other, queue) :: queues) key = queueOf queues key := by
  rw [queueOf, List.find?_cons_of_neg (by simpa using h), ← queueOf]

theorem queueOf_of_notMem (h : key ∉ queues.map Prod.fst) : queueOf queues key = [] := by
  rw [queueOf, List.find?_eq_none.mpr]
  · rfl
  · intro queue hqueue heq
    exact h (List.mem_map.mpr ⟨queue, hqueue, of_decide_eq_true heq⟩)

theorem Keyed.of_cons {queue : K × List V} (h : Keyed keyOf (queue :: queues)) :
    Keyed keyOf queues ∧ queueOf queues queue.1 = [] := by
  obtain ⟨hnotMem, hnodup⟩ := List.nodup_cons.mp h.nodup
  exact ⟨⟨hnodup, fun other hother => h.keys other (List.mem_cons_of_mem _ hother)⟩, queueOf_of_notMem hnotMem⟩

theorem queueOf_remaining (h : Keyed keyOf queues) : queueOf (remaining queues) key = (queueOf queues key).tail := by
  induction queues with
  | nil => rfl
  | cons queue queues ih =>
      obtain ⟨other, values⟩ := queue
      obtain ⟨hrest, hnone⟩ := h.of_cons
      rw [remaining_cons]
      by_cases heq : other = key
      · rw [heq, queueOf_cons_self]
        split_ifs with htail
        · rw [ih hrest, ← heq, hnone, List.tail_nil]
          exact htail.symm
        · exact queueOf_cons_self
      · rw [queueOf_cons_of_ne heq, ← ih hrest]
        split_ifs
        · rfl
        · exact queueOf_cons_of_ne heq

theorem Keyed.queueOf_eq {queue : List V} (h : Keyed keyOf queues) (hmem : (key, queue) ∈ queues) :
    queueOf queues key = queue := by
  cases hfind : queues.find? fun queue => queue.1 = key with
  | none => exact absurd rfl (of_decide_eq_false (Bool.eq_false_iff.mpr (List.find?_eq_none.mp hfind _ hmem)))
  | some found =>
      have hfound := List.mem_of_find?_eq_some hfind
      have hkey := List.find?_some hfind
      have heq : found = (key, queue) := List.inj_on_of_nodup_map h.nodup hfound hmem (of_decide_eq_true hkey)
      rw [queueOf, hfind, heq]
      rfl

/-- A round takes one value of every key that has any. -/
theorem filter_fronts (h : Keyed keyOf queues) :
    (fronts queues).filter (fun value => keyOf value = some key) = (queueOf queues key).head?.toList := by
  induction queues with
  | nil => rfl
  | cons queue queues ih =>
      obtain ⟨other, values⟩ := queue
      obtain ⟨hrest, hnone⟩ := h.of_cons
      have hcons : fronts ((other, values) :: queues) = values.head?.toList ++ fronts queues := by
        cases values <;> rfl
      rw [hcons, List.filter_append, ih hrest]
      have hkey : ∀ value ∈ values.head?.toList, keyOf value = some other := fun value hvalue =>
        h.keys _ List.mem_cons_self value (List.mem_of_head? (Option.mem_toList.mp hvalue))
      by_cases heq : other = key
      · rw [List.filter_eq_self.mpr fun value hvalue => by rw [hkey value hvalue, heq, decide_eq_true rfl], ← heq, hnone,
          queueOf_cons_self]
        exact List.append_nil _
      · rw [List.filter_eq_nil_iff.mpr fun value hvalue => by simp [hkey value hvalue, heq], queueOf_cons_of_ne heq,
          List.nil_append]

/-- The values of a key are served in the order of its queue. -/
theorem filter_serve (h : Keyed keyOf queues) :
    (serve queues).filter (fun value => keyOf value = some key) = queueOf queues key := by
  induction queues using serve.induct with
  | case1 => rw [serve_nil]; rfl
  | case2 queues hne ih =>
      rw [serve_of_ne_nil hne, List.filter_append, ih h.remaining, filter_fronts h, queueOf_remaining h]
      cases queueOf queues key <;> rfl

/-- Before any point of the service, every key that is served again has been served in as many rounds, up to the one
under way. -/
theorem exists_rounds (h : Keyed keyOf queues) {before after : List V} (hserve : serve queues = before ++ after) :
    ∃ rounds, ∀ key, (∃ value ∈ after, keyOf value = some key) →
      rounds ≤ before.countP (fun value => keyOf value = some key)
        ∧ before.countP (fun value => keyOf value = some key) ≤ rounds + 1 := by
  have hround : ∀ {queues : List (K × List V)} (key : K), Keyed keyOf queues →
      (fronts queues).countP (fun value => keyOf value = some key) = (queueOf queues key).head?.toList.length := by
    intro queues key hkeyed
    rw [List.countP_eq_length_filter, filter_fronts hkeyed]
  have hone : ∀ (values : List V), values.head?.toList.length ≤ 1 := by
    intro values
    cases values <;> simp
  induction queues using serve.induct generalizing before with
  | case1 =>
      rw [serve_nil] at hserve
      obtain ⟨rfl, rfl⟩ := List.append_eq_nil_iff.mp hserve.symm
      exact ⟨0, fun _ ⟨_, hmem, _⟩ => absurd hmem List.not_mem_nil⟩
  | case2 queues hne ih =>
      rw [serve_of_ne_nil hne] at hserve
      rcases List.append_eq_append_iff.mp hserve with ⟨later, rfl, hlater⟩ | ⟨rest, hfronts, _⟩
      · -- The point lies in a later round.
        obtain ⟨rounds, hrounds⟩ := ih h.remaining hlater
        refine ⟨rounds + 1, fun key ⟨value, hvalue, hkey⟩ => ?_⟩
        obtain ⟨hle, hge⟩ := hrounds key ⟨value, hvalue, hkey⟩
        have hmem : value ∈ (serve (remaining queues)).filter fun value => keyOf value = some key := by
          rw [List.mem_filter, hlater]
          exact ⟨List.mem_append_right _ hvalue, decide_eq_true hkey⟩
        rw [filter_serve h.remaining, queueOf_remaining h] at hmem
        have htaken : (fronts queues).countP (fun value => keyOf value = some key) = 1 := by
          rw [hround key h]
          cases hqueue : queueOf queues key with
          | nil =>
              rw [hqueue] at hmem
              exact absurd hmem List.not_mem_nil
          | cons head tail => rfl
        rw [List.countP_append, htaken]
        omega
      · -- The point lies in this round.
        refine ⟨0, fun key _ => ⟨Nat.zero_le _, ?_⟩⟩
        have hle := hone (queueOf queues key)
        rw [← hround key h, hfronts, List.countP_append] at hle
        omega

end keyed

/-- Lists that agree on every key are permutations of each other, the values without a key apart. -/
theorem perm_filter_isSome [DecidableEq K] [DecidableEq V] {keyOf : V → Option K} {values others : List V}
    (hkeys : ∀ value ∈ values, ∃ key, keyOf value = some key)
    (hfilter : ∀ key, values.filter (fun value => keyOf value = some key)
      = others.filter fun value => keyOf value = some key) :
    values.Perm (others.filter fun value => (keyOf value).isSome) := by
  refine List.perm_iff_count.mpr fun value => ?_
  cases hkey : keyOf value with
  | none =>
      have hvalues : value ∉ values := fun hmem => by
        obtain ⟨key, hsome⟩ := hkeys value hmem
        rw [hkey] at hsome
        cases hsome
      have hothers : value ∉ others.filter fun value => (keyOf value).isSome := fun hmem => by
        have hsome := (List.mem_filter.mp hmem).2
        rw [hkey] at hsome
        cases hsome
      rw [List.count_eq_zero_of_not_mem hvalues, List.count_eq_zero_of_not_mem hothers]
  | some key =>
      calc values.count value
          = (values.filter fun value => keyOf value = some key).count value :=
            (List.count_filter (by simp [hkey])).symm
        _ = (others.filter fun value => keyOf value = some key).count value := by rw [hfilter key]
        _ = others.count value := List.count_filter (by simp [hkey])
        _ = _ := (List.count_filter (by simp [hkey])).symm

end Rounds

end MetricBackend
