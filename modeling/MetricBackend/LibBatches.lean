import MetricBackend.LibTable

/-! Batches: tables whose values combine under their keys. However a sequence of values is cut into batches, and in
whatever way neighbouring batches are merged, the table is the same. -/

namespace MetricBackend

/-- The ways to cut a sequence into pieces and to merge neighbours. -/
inductive Grouping (α : Type) where
  | batch (items : List α)
  | merged (older newer : Grouping α)

namespace Grouping

variable {α β : Type}

/-- The items in their order. -/
def items : Grouping α → List α
  | batch items => items
  | merged older newer => older.items ++ newer.items

/-- Builds each piece and merges as the grouping says. -/
def build (start : List α → β) (merge : β → β → β) : Grouping α → β
  | batch items => start items
  | merged older newer => merge (older.build start merge) (newer.build start merge)

/-- Where merging two pieces is building their items together, the grouping does not matter. -/
theorem build_eq {start : List α → β} {merge : β → β → β} {valid : List α → Prop}
    (hvalid : ∀ {xs ys}, valid (xs ++ ys) → valid xs ∧ valid ys)
    (hmerge : ∀ xs ys, valid (xs ++ ys) → merge (start xs) (start ys) = start (xs ++ ys)) (grouping : Grouping α)
    (h : valid grouping.items) : grouping.build start merge = start grouping.items := by
  induction grouping with
  | batch items => rfl
  | merged older newer iholder ihnewer =>
      obtain ⟨hold, hnew⟩ := hvalid h
      rw [build, iholder hold, ihnewer hnew]
      exact hmerge _ _ h

end Grouping

namespace Table

variable {K V : Type} [LinearOrder K] (keyOf : V → K) (combine : V → V → V)

/-- A value is combined with the one under its key. -/
def pushEntry (table : Table K V) (value : V) : Table K V :=
  table.insert (keyOf value) (table[keyOf value]?.elim value (combine · value))

def pushEntries (table : Table K V) (values : List V) : Table K V := values.foldl (pushEntry keyOf combine) table

/-- What the combination needs of a class of values: it stays in the class, keeps the key and is associative among
values of one key. -/
structure Combines (valid : V → Prop) : Prop where
  closed : ∀ {a b}, valid a → valid b → keyOf a = keyOf b → valid (combine a b)
  key : ∀ {a b}, valid a → valid b → keyOf a = keyOf b → keyOf (combine a b) = keyOf a
  assoc : ∀ {a b c}, valid a → valid b → valid c → keyOf a = keyOf b → keyOf b = keyOf c →
    combine (combine a b) c = combine a (combine b c)

section pushEntries

variable {keyOf combine} {valid : V → Prop} {table : Table K V} {values : List V} {key : K}

theorem get_pushEntry (value : V) : (pushEntry keyOf combine table value)[key]?
    = if keyOf value = key then some (table[key]?.elim value (combine · value)) else table[key]? := by
  rw [pushEntry, Table.get_insert]
  split_ifs with heq
  · rw [heq]
  · rfl

/-- What a value makes of the entry of its key. -/
def accumulate (combine : V → V → V) (entry : Option V) (value : V) : Option V :=
  some (entry.elim value (combine · value))

theorem get_pushEntries : (pushEntries keyOf combine table values)[key]?
    = (values.filter fun value => keyOf value = key).foldl (accumulate combine) table[key]? := by
  induction values generalizing table with
  | nil => rfl
  | cons value values ih =>
      rw [pushEntries, List.foldl_cons, ← pushEntries, ih, get_pushEntry]
      by_cases heq : keyOf value = key
      · rw [if_pos heq, List.filter_cons_of_pos (by rw [decide_eq_true_iff]; exact heq), List.foldl_cons]
        rfl
      · rw [if_neg heq, List.filter_cons_of_neg (by rw [decide_eq_true_iff]; exact heq)]

theorem foldl_accumulate (entry : V) : values.foldl (accumulate combine) (some entry) = some (values.foldl combine entry) := by
  induction values generalizing entry with
  | nil => rfl
  | cons value values ih => exact ih (combine entry value)

omit [LinearOrder K] in
theorem Combines.combine_foldl (h : Combines keyOf combine valid) {outer first : V} (houter : valid outer)
    (hfirst : valid first) (hkey : keyOf outer = keyOf first)
    (hvalues : ∀ value ∈ values, valid value ∧ keyOf value = keyOf first) :
    combine outer (values.foldl combine first) = values.foldl combine (combine outer first) := by
  induction values generalizing first with
  | nil => rfl
  | cons value values ih =>
      obtain ⟨⟨hvalue, hvalueKey⟩, hvalues⟩ := List.forall_mem_cons.mp hvalues
      have hsame := h.key hfirst hvalue hvalueKey.symm
      rw [List.foldl_cons, List.foldl_cons, h.assoc houter hfirst hvalue hkey hvalueKey.symm]
      exact ih (h.closed hfirst hvalue hvalueKey.symm) (hkey.trans hsame.symm)
        fun other hother => ⟨(hvalues other hother).1, (hvalues other hother).2.trans hsame.symm⟩

/-- Every entry is in the class and under its own key. -/
def Holds (keyOf : V → K) (valid : V → Prop) (table : Table K V) : Prop :=
  ∀ key value, table[key]? = some value → valid value ∧ keyOf value = key

theorem holds_empty : Holds keyOf valid (∅ : Table K V) := by
  intro key value hget
  rw [get_empty] at hget
  exact nomatch hget

theorem Holds.pushEntry (h : Combines keyOf combine valid) (htable : Holds keyOf valid table) {value : V}
    (hvalue : valid value) : Holds keyOf valid (Table.pushEntry keyOf combine table value) := by
  intro key stored hget
  rw [get_pushEntry] at hget
  split_ifs at hget with heq
  · subst heq
    obtain rfl := Option.some.inj hget
    cases hold : table[keyOf value]? with
    | none => exact ⟨hvalue, rfl⟩
    | some old =>
        obtain ⟨hvalid, hkey⟩ := htable _ _ hold
        exact ⟨h.closed hvalid hvalue hkey, (h.key hvalid hvalue hkey).trans hkey⟩
  · exact htable key stored hget

theorem Holds.pushEntries (h : Combines keyOf combine valid) (htable : Holds keyOf valid table)
    (hvalues : ∀ value ∈ values, valid value) : Holds keyOf valid (Table.pushEntries keyOf combine table values) := by
  induction values generalizing table with
  | nil => exact htable
  | cons value values ih =>
      obtain ⟨hvalue, hvalues⟩ := List.forall_mem_cons.mp hvalues
      exact ih (htable.pushEntry h hvalue) hvalues

/-- The values of a table that are under one key: at most one. -/
theorem filter_values (htable : Holds keyOf valid table) :
    (table.toList.map Prod.snd).filter (fun value => keyOf value = key) = table[key]?.toList := by
  have hrows : ∀ row ∈ table.toList, keyOf row.2 = row.1 :=
    fun row hrow => (htable row.1 row.2 (mem_toList.mp hrow)).2
  have hkeys : (table.toList.filter fun row => row.1 = key).map Prod.snd
      = (table.toList.map Prod.snd).filter fun value => keyOf value = key := by
    rw [List.filter_map, List.filter_congr fun row hrow => ?_]
    simp only [Function.comp_apply, hrows row hrow]
  rw [← hkeys]
  have hnodup : (table.toList.filter fun row => row.1 = key).Nodup :=
    (List.filter_sublist.nodup) (List.Nodup.of_map _ table.nodup_keys_toList)
  cases hget : table[key]? with
  | none =>
      rw [List.filter_eq_nil_iff.mpr fun row hrow hkey => ?_]
      · rfl
      · rw [← of_decide_eq_true hkey, mem_toList.mp hrow] at hget
        exact nomatch hget
  | some value =>
      have hperm : (table.toList.filter fun row => row.1 = key) = [(key, value)] := by
        refine List.perm_singleton.mp ((List.perm_ext_iff_of_nodup hnodup (List.nodup_singleton _)).mpr fun row => ?_)
        rw [List.mem_filter, mem_toList, decide_eq_true_iff, List.mem_singleton]
        constructor
        · rintro ⟨hrow, rfl⟩
          rw [hget] at hrow
          rw [Option.some.inj hrow]
        · rintro rfl
          exact ⟨hget, rfl⟩
      rw [hperm]
      rfl

/-- Pushing the entries of a batch is pushing what the batch was made of. -/
theorem pushEntries_entries (h : Combines keyOf combine valid) (htable : Holds keyOf valid table)
    (hvalues : ∀ value ∈ values, valid value) :
    pushEntries keyOf combine table ((pushEntries keyOf combine ∅ values).toList.map Prod.snd)
      = pushEntries keyOf combine table values := by
  refine Std.ExtTreeMap.ext_getElem? fun key => ?_
  have hkeyed : ∀ value ∈ values.filter (fun value => keyOf value = key), valid value ∧ keyOf value = key := by
    intro value hvalue
    obtain ⟨hmem, hkey⟩ := List.mem_filter.mp hvalue
    exact ⟨hvalues value hmem, of_decide_eq_true hkey⟩
  rw [get_pushEntries, get_pushEntries, filter_values (holds_empty.pushEntries h hvalues), get_pushEntries, get_empty]
  cases hfilter : values.filter (fun value => keyOf value = key) with
  | nil => rfl
  | cons first rest =>
      rw [hfilter] at hkeyed
      obtain ⟨⟨hfirst, hfirstKey⟩, hrest⟩ := List.forall_mem_cons.mp hkeyed
      have hsame : ∀ value ∈ rest, valid value ∧ keyOf value = keyOf first :=
        fun value hvalue => ⟨(hrest value hvalue).1, (hrest value hvalue).2.trans hfirstKey.symm⟩
      have hreduced : (first :: rest).foldl (accumulate combine) none = some (rest.foldl combine first) :=
        foldl_accumulate first
      rw [hreduced]
      cases hget : table[key]? with
      | none => exact hreduced.symm
      | some outer =>
          obtain ⟨houter, houterKey⟩ := htable key outer hget
          have hleft : (some (rest.foldl combine first)).toList.foldl (accumulate combine) (some outer)
              = some (combine outer (rest.foldl combine first)) := rfl
          rw [hleft, h.combine_foldl houter hfirst (houterKey.trans hfirstKey.symm) hsame]
          exact (foldl_accumulate (combine outer first)).symm

end pushEntries

/-! ### Sums over the rows -/

section sumRows

variable (weight : V → Nat)

def sumRows (table : Table K V) : Nat := (table.toList.map fun row => weight row.2).sum

theorem sumRows_empty : sumRows weight (∅ : Table K V) = 0 := rfl

/-- How a sum changes when a row is written. -/
theorem sumRows_insert (table : Table K V) (key : K) (value : V) :
    sumRows weight (table.insert key value) + table[key]?.elim 0 weight = sumRows weight table + weight value := by
  have hsum : ∀ stored, sumRows weight (table.insert key stored)
      = weight stored + ((table.toList.filter (·.1 ≠ key)).map fun row => weight row.2).sum := by
    intro stored
    rw [sumRows, ((table.toList_insert_perm key stored).map _).sum_eq, List.map_cons, List.sum_cons]
  rw [hsum]
  cases hold : table[key]? with
  | some old =>
      have hsame := hsum old
      rw [insert_get_self hold] at hsame
      rw [Option.elim_some, hsame]
      omega
  | none =>
      have hall : table.toList.filter (·.1 ≠ key) = table.toList := by
        rw [List.filter_eq_self]
        rintro ⟨other, stored⟩ hmem
        rw [decide_eq_true_eq]
        rintro rfl
        rw [mem_toList.mp hmem] at hold
        exact nomatch hold
      rw [Option.elim_none, hall, sumRows]
      omega

/-- How a sum changes when a row is dropped. -/
theorem sumRows_erase (table : Table K V) (key : K) :
    sumRows weight (table.erase key) + table[key]?.elim 0 weight = sumRows weight table := by
  have hgone : (table.erase key)[key]? = none := Std.ExtTreeMap.getElem?_erase_self
  have hget : ∀ other, key ≠ other → (table.erase key)[other]? = table[other]? := by
    intro other hne
    rw [Std.ExtTreeMap.getElem?_erase, if_neg (by simpa using hne)]
  cases hold : table[key]? with
  | none =>
      have hsame : table.erase key = table := by
        ext1 other
        by_cases heq : key = other
        · subst heq
          rw [hgone, hold]
        · exact hget other heq
      rw [hsame, Option.elim_none, Nat.add_zero]
  | some value =>
      have hback : (table.erase key).insert key value = table := by
        ext1 other
        by_cases heq : key = other
        · subst heq
          rw [get_insert_self, hold]
        · rw [get_insert_of_ne _ _ heq, hget other heq]
      have hsum := sumRows_insert weight (table.erase key) key value
      rw [hback, hgone, Option.elim_none, Nat.add_zero] at hsum
      rw [Option.elim_some, hsum]

end sumRows

end Table

end MetricBackend
