import Mathlib.Data.List.Sort
import MetricBackend.LibFallible

/-! Pages of a list in descending order of a key: what a place in the order leaves to read, one page of it,
and reading page after page until there is no next one. -/

namespace MetricBackend

/-- What one read returns, and where the next one continues. -/
structure Page (α κ : Type) where
  items : List α
  next : Option κ

namespace Page

variable {α β γ κ τ ε : Type}

/-! ### One page -/

section First

variable (key : α → κ)

/-- The first rows, and the key of the last one of them when there are more. -/
def first (limit : Nat) (rows : List α) : Page α κ where
  items := rows.take limit
  next := if limit < rows.length then (rows.take limit).getLast?.map key else none

variable {key} {rows : List α} {limit : Nat} {place : κ}

/-- A page that is read with one row more than it returns. -/
theorem first_take (limit : Nat) (rows : List α) : first key limit (rows.take (limit + 1)) = first key limit rows := by
  have htake : (rows.take (limit + 1)).take limit = rows.take limit := by
    rw [List.take_take, min_eq_left (Nat.le_succ limit)]
  have hlength : limit < (rows.take (limit + 1)).length ↔ limit < rows.length := by
    rw [List.length_take]
    omega
  simp only [first, htake, hlength]

/-- A page of rows that start with more rows than it has. -/
theorem first_append {front : List α} (h : limit < front.length) (back : List α) :
    first key limit (front ++ back) = first key limit front := by
  have hlength : limit < (front ++ back).length := by
    rw [List.length_append]
    omega
  simp only [first, List.take_append_of_le_length h.le, if_pos h, if_pos hlength]

theorem first_next_eq_none (h : (first key limit rows).next = none) (hlimit : 0 < limit) : rows.length ≤ limit := by
  by_contra hlonger
  rw [not_le] at hlonger
  have hne : rows.take limit ≠ [] := by
    intro hnil
    have := congrArg List.length hnil
    rw [List.length_take, List.length_nil] at this
    omega
  simp [first, hlonger, List.getLast?_eq_some_getLast hne] at h

theorem first_next_eq_some (h : (first key limit rows).next = some place) :
    ∃ front last back, rows = front ++ last :: back ∧ place = key last ∧ rows.take limit = front ++ [last] := by
  unfold first at h
  dsimp only at h
  split_ifs at h
  obtain ⟨last, hlast, rfl⟩ := Option.map_eq_some_iff.mp h
  obtain ⟨front, hfront⟩ := List.getLast?_eq_some_iff.mp hlast
  refine ⟨front, last, rows.drop limit, ?_, rfl, hfront⟩
  rw [← List.singleton_append, ← List.append_assoc, ← hfront, List.take_append_drop]

end First

/-! ### Places in an order -/

section Order

variable [LinearOrder κ] (key : α → κ)

def descending (rows : List α) : List α := rows.insertionSort fun left right => key right ≤ key left

/-- The rows after a place, or all of them. -/
def below (rows : List α) : Option κ → List α
  | none => rows
  | some place => rows.filter fun row => key row < place

/-- No two rows have one key, and a row comes after those with a larger one. -/
def Ordered (rows : List α) : Prop := rows.Pairwise fun left right => key right < key left

variable {key} {rows : List α} {limit : Nat} {place : κ}

theorem perm_descending : (descending key rows).Perm rows := List.perm_insertionSort _ rows

theorem mem_descending {row : α} : row ∈ descending key rows ↔ row ∈ rows := perm_descending.mem_iff

theorem mem_below {row : α} {place : Option κ} :
    row ∈ below key rows place ↔ row ∈ rows ∧ ∀ other ∈ place, key row < other := by
  cases place with
  | none => simp [below]
  | some place => simp [below]

theorem mem_of_mem_below {row : α} {place : Option κ} (h : row ∈ below key rows place) : row ∈ rows :=
  (mem_below.mp h).1

theorem ordered_descending (h : (rows.map key).Nodup) : Ordered key (descending key rows) := by
  have hsorted : (descending key rows).Pairwise fun left right => key right ≤ key left :=
    List.pairwise_insertionSort (fun left right => key right ≤ key left) rows
  have hnodup : ((descending key rows).map key).Nodup := (perm_descending.map key).nodup_iff.mpr h
  have hne : (descending key rows).Pairwise fun left right => key left ≠ key right := List.pairwise_map.mp hnodup
  exact (hsorted.and hne).imp fun h => lt_of_le_of_ne h.1 h.2.symm

/-- Kept rows are in the order that they have among all rows. -/
theorem descending_filter (h : (rows.map key).Nodup) (keep : α → Bool) :
    descending key (rows.filter keep) = (descending key rows).filter keep := by
  have hperm : (descending key (rows.filter keep)).Perm ((descending key rows).filter keep) :=
    perm_descending.trans (perm_descending.symm.filter keep)
  have hleft : Ordered key (descending key (rows.filter keep)) :=
    ordered_descending (h.sublist (List.filter_sublist.map key))
  have hright : Ordered key ((descending key rows).filter keep) :=
    List.Pairwise.sublist List.filter_sublist (ordered_descending h)
  exact hperm.eq_of_pairwise (fun _ _ _ _ hleft hright => absurd hleft hright.asymm) hleft hright

theorem map_descending {β : Type} (f : β → α) (rows : List β) :
    (descending (key ∘ f) rows).map f = descending key (rows.map f) :=
  List.map_insertionSort _ _ f rows fun _ _ _ _ => Iff.rfl

theorem map_below {β : Type} (f : β → α) (rows : List β) (place : Option κ) :
    (below (key ∘ f) rows place).map f = below key (rows.map f) place := by
  cases place with
  | none => rfl
  | some place =>
      rw [below, below, List.filter_map]
      rfl

theorem Ordered.sublist {other : List α} (h : Ordered key rows) (hother : other.Sublist rows) : Ordered key other :=
  List.Pairwise.sublist hother h

/-- Two lists in the order that have the same rows. -/
theorem Ordered.eq_of_mem_iff {other : List α} (h : Ordered key rows) (hother : Ordered key other)
    (hmem : ∀ row, row ∈ rows ↔ row ∈ other) : rows = other := by
  have hnodup : ∀ {items : List α}, Ordered key items → items.Nodup := fun hitems =>
    List.Pairwise.imp (fun hlt heq => absurd (heq ▸ hlt) (lt_irrefl _)) hitems
  exact ((List.perm_ext_iff_of_nodup (hnodup h) (hnodup hother)).mpr hmem).eq_of_pairwise
    (fun _ _ _ _ hleft hright => absurd hleft hright.asymm) h hother

theorem Ordered.below (h : Ordered key rows) (place : Option κ) : Ordered key (below key rows place) := by
  cases place with
  | none => exact h
  | some place => exact h.sublist List.filter_sublist

theorem below_below {row : α} (hrow : row ∈ below key rows (some place)) :
    below key (below key rows (some place)) (some (key row)) = below key rows (some (key row)) := by
  have hlt : key row < place := of_decide_eq_true (List.mem_filter.mp hrow).2
  simp only [below, List.filter_filter]
  apply List.filter_congr
  intro other _
  by_cases hother : key other < key row
  · simp [hother, hother.trans hlt]
  · simp [hother]

/-- What comes after a row of an ordered list. -/
theorem below_last {front back : List α} {last : α} (h : Ordered key (front ++ last :: back)) :
    below key (front ++ last :: back) (some (key last)) = back := by
  obtain ⟨_, hrest, hfront⟩ := List.pairwise_append.mp h
  have hback := List.pairwise_cons.mp hrest
  have hfront : front.filter (fun row => key row < key last) = [] :=
    List.filter_eq_nil_iff.mpr fun row hrow => by
      have hlt := hfront row hrow last List.mem_cons_self
      simpa using hlt.le
  have hback : back.filter (fun row => key row < key last) = back :=
    List.filter_eq_self.mpr fun row hrow => decide_eq_true (hback.1 row hrow)
  rw [below, List.filter_append, hfront, List.nil_append, List.filter_cons_of_neg (by simp), hback]

end Order

/-! ### Reading every page -/

/-- Reads page after page, for as many rounds, until one has no next page. -/
def readAll (fetch : Option τ → Except ε (Page α τ)) : Nat → Option τ → Except ε (Option (List α))
  | 0, _ => .ok none
  | rounds + 1, cursor => do
      let page ← fetch cursor
      match page.next with
      | none => return some page.items
      | some next => return (← readAll fetch rounds (some next)).map (page.items ++ ·)

/-- Reads page after page, one with every call, until one has no next page. -/
def readCalls (fetch : γ → Option τ → Except ε (Page α τ)) : List γ → Option τ → Except ε (Option (List α))
  | [], _ => .ok none
  | call :: calls, cursor => do
      let page ← fetch call cursor
      match page.next with
      | none => return some page.items
      | some next => return (← readCalls fetch calls (some next)).map (page.items ++ ·)

theorem readAll_eq_readCalls (fetch : Option τ → Except ε (Page α τ)) (rounds : Nat) (cursor : Option τ) :
    readAll fetch rounds cursor = readCalls (fun _ : Unit => fetch) (List.replicate rounds ()) cursor := by
  induction rounds generalizing cursor with
  | zero => rfl
  | succ rounds ih => simp only [readAll, List.replicate_succ, readCalls, ih]

section ReadAll

variable (key : α → κ) (keep : α → Bool) (render : α → β) (encode : κ → τ)

/-- The page has the kept rows of a start of what is left, and continues after the last row of the start. -/
def IsStart (left : List α) (page : Page β τ) : Prop :=
  ∃ front back, left = front ++ back ∧ page.items = (front.filter keep).map render
    ∧ ((back = [] ∧ page.next = none) ∨ ∃ last, front.getLast? = some last ∧ page.next = some (encode (key last)))

/-- A place that a cursor can stand for: the start, or a row. -/
def IsPlace (rows : List α) (place : Option κ) : Prop := place = none ∨ ∃ row ∈ rows, place = some (key row)

variable {key keep render encode} {rows : List α}

theorem isStart_first {limit : Nat} (hlimit : 0 < limit) (left : List α) :
    IsStart key keep render encode left
      ⟨((first key limit left).items.filter keep).map render, (first key limit left).next.map encode⟩ := by
  cases hnext : (first key limit left).next with
  | none =>
      refine ⟨left, [], (List.append_nil _).symm, ?_, .inl ⟨rfl, rfl⟩⟩
      exact congrArg (fun items => (items.filter keep).map render)
        (List.take_of_length_le (first_next_eq_none hnext hlimit))
  | some place =>
      obtain ⟨front, last, back, rfl, rfl, htake⟩ := first_next_eq_some hnext
      exact ⟨front ++ [last], back, by simp, congrArg (fun items => (items.filter keep).map render) htake,
        .inr ⟨last, by simp, rfl⟩⟩

variable [LinearOrder κ]

theorem below_getLast {front back : List α} {last : α} {place : Option κ} (horder : Ordered key rows)
    (hleft : below key rows place = front ++ back) (hlast : front.getLast? = some last) :
    last ∈ rows ∧ below key rows (some (key last)) = back := by
  obtain ⟨front, rfl⟩ := List.getLast?_eq_some_iff.mp hlast
  rw [List.append_assoc, List.singleton_append] at hleft
  have hmem : last ∈ below key rows place := by
    rw [hleft]
    exact List.mem_append_right _ List.mem_cons_self
  have hbelow := below_last (hleft ▸ horder.below place)
  rw [← hleft] at hbelow
  cases place with
  | none => exact ⟨hmem, hbelow⟩
  | some place =>
      rw [below_below hmem] at hbelow
      exact ⟨(List.mem_filter.mp hmem).1, hbelow⟩

/-- When a call fails as it is allowed to, or returns the kept rows of a start of what its cursor leaves, reading with
many calls fails so, or returns the kept rows of all that is left. -/
theorem readCalls_below (allowed : ε → Prop) {fetch : γ → Option τ → Except ε (Page β τ)} (horder : Ordered key rows)
    {calls : List γ} (h : ∀ call ∈ calls, ∀ place, IsPlace key rows place →
      (∃ error, allowed error ∧ fetch call (place.map encode) = .error error) ∨
        ∃ page, fetch call (place.map encode) = .ok page ∧ IsStart key keep render encode (below key rows place) page)
    {place : Option κ} (hplace : IsPlace key rows place)
    (hcalls : (below key rows place).length < calls.length) :
    (∃ error, allowed error ∧ readCalls fetch calls (place.map encode) = .error error)
      ∨ readCalls fetch calls (place.map encode) = .ok (some (((below key rows place).filter keep).map render)) := by
  induction calls generalizing place with
  | nil => exact absurd hcalls (Nat.not_lt_zero _)
  | cons call calls ih =>
      obtain ⟨hcall, hrest⟩ := List.forall_mem_cons.mp h
      obtain ⟨error, hallowed, hfetch⟩ | ⟨page, hfetch, front, back, hleft, hitems, hnext⟩ := hcall place hplace
      · left
        exact ⟨error, hallowed, bind_eq_error.mpr (.inl hfetch)⟩
      · rw [readCalls, hfetch, hleft, List.filter_append, List.map_append, ← hitems]
        rcases hnext with ⟨rfl, hnext⟩ | ⟨last, hlast, hnext⟩
        · right
          simp [hnext, pure, Except.pure, bind, Except.bind]
        · obtain ⟨hmem, hback⟩ := below_getLast horder hleft hlast
          have hlength : back.length < calls.length := by
            obtain ⟨front, rfl⟩ := List.getLast?_eq_some_iff.mp hlast
            rw [hleft, List.length_append, List.length_append, List.length_singleton, List.length_cons] at hcalls
            omega
          have hread := ih hrest (.inr ⟨last, hmem, rfl⟩) (hback ▸ hlength)
          rw [hback, Option.map_some] at hread
          obtain ⟨error, hallowed, hread⟩ | hread := hread
          · left
            exact ⟨error, hallowed, by simp [hnext, hread, bind, Except.bind]⟩
          · right
            simp [hnext, hread, pure, Except.pure, bind, Except.bind]

theorem readAll_below {fetch : Option τ → Except ε (Page β τ)} (horder : Ordered key rows)
    (h : ∀ place, IsPlace key rows place →
      ∃ page, fetch (place.map encode) = .ok page ∧ IsStart key keep render encode (below key rows place) page)
    {rounds : Nat} {place : Option κ} (hplace : IsPlace key rows place)
    (hrounds : (below key rows place).length < rounds) :
    readAll fetch rounds (place.map encode) = .ok (some (((below key rows place).filter keep).map render)) := by
  have hcalls : (below key rows place).length < (List.replicate rounds ()).length := by
    rwa [List.length_replicate]
  obtain ⟨_, hallowed, _⟩ | hread := readCalls_below (fun _ => False) horder
    (fun _ _ place hplace => .inr (h place hplace)) hplace hcalls
  · exact hallowed.elim
  · rw [readAll_eq_readCalls, hread]

/-- When every page has the kept rows of a start of what its cursor leaves, reading all pages returns the
kept rows of the whole list. -/
theorem readAll_eq {fetch : Option τ → Except ε (Page β τ)} (horder : Ordered key rows)
    (h : ∀ place, IsPlace key rows place →
      ∃ page, fetch (place.map encode) = .ok page ∧ IsStart key keep render encode (below key rows place) page)
    {rounds : Nat} (hrounds : rows.length < rounds) :
    readAll fetch rounds none = .ok (some ((rows.filter keep).map render)) :=
  readAll_below horder h (.inl rfl) hrounds

end ReadAll

end Page

end MetricBackend
