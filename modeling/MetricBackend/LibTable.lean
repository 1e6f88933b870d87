import Mathlib
import MetricBackend.LibFallible

/-! Finite maps with ordered keys, for modelling ordered maps and database tables: the extensional
tree map of the standard library at the comparison of a linear order, with queries by key. -/

namespace MetricBackend

instance instLawfulEqCmpCompare {K : Type} [LinearOrder K] :
    Std.LawfulEqCmp (compare : K → K → Ordering) where
  eq_of_compare h := compare_eq_iff_eq.mp h

instance instTransCmpCompare {K : Type} [LinearOrder K] :
    Std.TransCmp (compare : K → K → Ordering) := inferInstance

/-- A finite map whose rows are enumerated in key order. -/
abbrev Table (K V : Type) [LinearOrder K] : Type := Std.ExtTreeMap K V compare

namespace Table

variable {K V : Type} [LinearOrder K] (table : Table K V) (key other : K) (value : V)

theorem get_insert : (table.insert key value)[other]? =
    if key = other then some value else table[other]? := by
  rw [Std.ExtTreeMap.getElem?_insert]
  simp only [compare_eq_iff_eq]

@[simp] theorem get_insert_self : (table.insert key value)[key]? = some value := by
  rw [get_insert, if_pos rfl]

theorem get_insert_of_ne {key other : K} (h : key ≠ other) :
    (table.insert key value)[other]? = table[other]? := by
  rw [get_insert, if_neg h]

@[simp] theorem get_empty : (∅ : Table K V)[key]? = none := Std.ExtTreeMap.getElem?_empty

theorem not_contains {table : Table K V} {key : K} : (!table.contains key) = true ↔ table[key]? = none := by
  rw [Std.ExtTreeMap.contains_eq_isSome_getElem?, Bool.not_eq_true', Option.isSome_eq_false_iff,
    Option.isNone_iff_eq_none]

theorem mem_toList {table : Table K V} {key : K} {value : V} :
    (key, value) ∈ table.toList ↔ table[key]? = some value :=
  Std.ExtTreeMap.mem_toList_iff_getElem?_eq_some

/-- The rows of the given keys in key order, at most `limit` of them: a query by key. -/
def selectAny (keys : List K) (limit : Nat) : List (K × V) :=
  (table.toList.filter fun row => row.1 ∈ keys).take limit

theorem nodup_keys_toList : (table.toList.map Prod.fst).Nodup := by
  rw [Std.ExtTreeMap.map_fst_toList_eq_keys]
  exact Std.ExtTreeMap.nodup_keys

theorem nodup_keys_selectAny (keys : List K) (limit : Nat) :
    ((table.selectAny keys limit).map Prod.fst).Nodup :=
  table.nodup_keys_toList.sublist
    (((List.take_sublist _ _).trans List.filter_sublist).map Prod.fst)

variable {table key value}

theorem of_mem_selectAny {keys : List K} {limit : Nat} (h : (key, value) ∈ table.selectAny keys limit) :
    table[key]? = some value ∧ key ∈ keys := by
  have hmem := List.mem_filter.mp (List.mem_of_mem_take h)
  exact ⟨mem_toList.mp hmem.1, by simpa using hmem.2⟩

/-- A query by no more keys than its limit finds every row it asks for. -/
theorem mem_selectAny {keys : List K} {limit : Nat} (hlength : keys.length ≤ limit)
    (hkey : key ∈ keys) : (key, value) ∈ table.selectAny keys limit ↔ table[key]? = some value := by
  have hnodup : ((table.toList.filter fun row => row.1 ∈ keys).map Prod.fst).Nodup :=
    table.nodup_keys_toList.sublist (List.filter_sublist.map Prod.fst)
  have hsubset : (table.toList.filter fun row => row.1 ∈ keys).map Prod.fst ⊆ keys := by
    intro other hother
    obtain ⟨row, hrow, rfl⟩ := List.mem_map.mp hother
    simpa using (List.mem_filter.mp hrow).2
  have hle : (table.toList.filter fun row => row.1 ∈ keys).length ≤ limit := by
    have := (hnodup.subperm hsubset).length_le
    rw [List.length_map] at this
    exact this.trans hlength
  rw [selectAny, List.take_of_length_le hle, List.mem_filter, mem_toList]
  simp [hkey]

/-- Writing rows with distinct keys, each over what the table holds for it. -/
theorem get_foldl_insert {W : Type} (update : W → Option V → V) (rows : List (K × W))
    (table : Table K V) (hnodup : (rows.map Prod.fst).Nodup) (key : K) :
    (key ∉ rows.map Prod.fst →
      (rows.foldl (fun stored row => stored.insert row.1 (update row.2 stored[row.1]?)) table)[key]?
        = table[key]?)
    ∧ ∀ value, (key, value) ∈ rows →
      (rows.foldl (fun stored row => stored.insert row.1 (update row.2 stored[row.1]?)) table)[key]?
        = some (update value table[key]?) := by
  induction rows generalizing table with
  | nil => exact ⟨fun _ => rfl, by simp⟩
  | cons row rows ih =>
      obtain ⟨rowKey, rowValue⟩ := row
      rw [List.map_cons, List.nodup_cons] at hnodup
      obtain ⟨hfresh, hwritten⟩ := ih (table.insert rowKey (update rowValue table[rowKey]?)) hnodup.2
      simp only [List.foldl_cons, List.map_cons, List.mem_cons, not_or, Prod.mk.injEq]
      constructor
      · rintro ⟨hne, hnotmem⟩
        rw [hfresh hnotmem, get_insert_of_ne _ _ (Ne.symm hne)]
      · rintro value (⟨rfl, rfl⟩ | hmem)
        · rw [hfresh hnodup.1, get_insert_self]
        · have hne : rowKey ≠ key := by
            rintro rfl
            exact hnodup.1 (List.mem_map.mpr ⟨_, hmem, rfl⟩)
          rw [hwritten value hmem, get_insert_of_ne _ _ hne]

/-- Writing values with distinct keys: each is found under its key, every other row stays. -/
theorem get_foldl_insert_values (keyOf : V → K) (values : List V) (table : Table K V)
    (hnodup : (values.map keyOf).Nodup) (key : K) :
    (key ∉ values.map keyOf →
      (values.foldl (fun stored value => stored.insert (keyOf value) value) table)[key]? = table[key]?)
    ∧ ∀ value ∈ values, keyOf value = key →
      (values.foldl (fun stored value => stored.insert (keyOf value) value) table)[key]?
        = some value := by
  have hkeys : (values.map fun value => (keyOf value, value)).map Prod.fst = values.map keyOf := by
    rw [List.map_map]
    rfl
  obtain ⟨hkept, hwritten⟩ := get_foldl_insert (fun value _ => value)
    (values.map fun value => (keyOf value, value)) table (hkeys ▸ hnodup) key
  rw [List.foldl_map] at hkept hwritten
  refine ⟨fun hnotmem => hkept (hkeys ▸ hnotmem), ?_⟩
  rintro value hvalue rfl
  exact hwritten value (List.mem_map.mpr ⟨value, hvalue, rfl⟩)

theorem map_keyOf_toList {keyOf : V → K} {collected : Table K V}
    (hkeyed : ∀ key value, collected[key]? = some value → keyOf value = key) :
    (collected.toList.map Prod.snd).map keyOf = collected.toList.map Prod.fst := by
  rw [List.map_map]
  exact List.map_congr_left fun row hmem => hkeyed row.1 row.2 (mem_toList.mp hmem)

/-- Writing a table of values that are stored under their own keys over another table. -/
theorem get_foldl_insert_collected {keyOf : V → K} {collected : Table K V}
    (hkeyed : ∀ key value, collected[key]? = some value → keyOf value = key) (table : Table K V)
    (key : K) :
    ((collected.toList.map Prod.snd).foldl (fun stored value => stored.insert (keyOf value) value)
      table)[key]? = collected[key]?.or table[key]? := by
  have hids := map_keyOf_toList hkeyed
  obtain ⟨hkept, hwritten⟩ := get_foldl_insert_values keyOf (collected.toList.map Prod.snd) table
    (hids ▸ collected.nodup_keys_toList) key
  cases hget : collected[key]? with
  | none =>
      rw [Option.none_or]
      apply hkept
      rw [hids, List.mem_map]
      rintro ⟨row, hmem, rfl⟩
      rw [mem_toList.mp hmem] at hget
      cases hget
  | some value =>
      rw [Option.some_or]
      exact hwritten value (List.mem_map.mpr ⟨(key, value), mem_toList.mpr hget, rfl⟩)
        (hkeyed key value hget)

/-! ### Counting rows -/

section countRows

variable (table : Table K V) (key : K) (value : V)

/-- The number of rows whose value has a property. -/
def countRows (property : V → Bool) (table : Table K V) : Nat :=
  table.toList.countP fun row => property row.2

theorem toList_insert_perm :
    (table.insert key value).toList.Perm ((key, value) :: table.toList.filter (·.1 ≠ key)) := by
  rw [List.perm_ext_iff_of_nodup (List.Nodup.of_map _ (nodup_keys_toList (table.insert key value)))]
  · rintro ⟨other, stored⟩
    rw [mem_toList, List.mem_cons, List.mem_filter, mem_toList]
    by_cases heq : key = other
    · subst heq
      simp [eq_comm]
    · rw [get_insert_of_ne _ _ heq]
      simp [Ne.symm heq]
  · rw [List.nodup_cons]
    refine ⟨by simp, (List.Nodup.of_map _ table.nodup_keys_toList).filter _⟩

theorem insert_get_self {table : Table K V} {key : K} {value : V} (h : table[key]? = some value) :
    table.insert key value = table := by
  apply Std.ExtTreeMap.ext_getElem?
  intro other
  by_cases heq : key = other
  · subst heq
    rw [get_insert_self, h]
  · rw [get_insert_of_ne _ _ heq]

/-- How a count changes when a row is written. -/
theorem countP_toList_insert (property : K × V → Bool) :
    (table.insert key value).toList.countP property
        + table[key]?.elim 0 (fun old => (property (key, old)).toNat) =
      table.toList.countP property + (property (key, value)).toNat := by
  have hcount : ∀ stored, (table.insert key stored).toList.countP property =
      (table.toList.filter (·.1 ≠ key)).countP property + (property (key, stored)).toNat := by
    intro stored
    rw [(table.toList_insert_perm key stored).countP_eq, List.countP_cons]
    cases property (key, stored) <;> rfl
  rw [hcount]
  cases hold : table[key]? with
  | some old =>
      have hsame := hcount old
      rw [insert_get_self hold] at hsame
      rw [Option.elim_some, hsame]
      omega
  | none =>
      have hall : table.toList.filter (·.1 ≠ key) = table.toList := by
        rw [List.filter_eq_self]
        rintro ⟨other, stored⟩ hmem
        have hother := mem_toList.mp hmem
        rw [decide_eq_true_eq]
        rintro rfl
        rw [hold] at hother
        cases hother
      rw [Option.elim_none, hall]
      omega

theorem countRows_insert (property : V → Bool) :
    countRows property (table.insert key value)
        + table[key]?.elim 0 (fun old => (property old).toNat) =
      countRows property table + (property value).toNat :=
  countP_toList_insert table key value fun row => property row.2

/-- The number of rows whose key has a property. -/
def countKeys (property : K → Bool) (table : Table K V) : Nat :=
  table.toList.countP fun row => property row.1

theorem countKeys_insert (property : K → Bool) : countKeys property (table.insert key value) =
    countKeys property table + if table.contains key then 0 else (property key).toNat := by
  have hinsert := countP_toList_insert table key value fun row => property row.1
  rw [Std.ExtTreeMap.contains_eq_isSome_getElem?]
  cases hold : table[key]? with
  | some old =>
      rw [hold, Option.elim_some] at hinsert
      exact Nat.add_right_cancel hinsert
  | none =>
      rw [hold] at hinsert
      exact hinsert

theorem countKeys_of_none {property : K → Bool} {table : Table K V} (h : ∀ key : K, table[key]? = none) :
    countKeys property table = 0 := by
  rw [countKeys, List.countP_eq_zero]
  rintro ⟨key, value⟩ hmem
  rw [mem_toList, h key] at hmem
  cases hmem

@[simp] theorem countRows_empty (property : V → Bool) : countRows property (∅ : Table K V) = 0 := by
  simp [countRows]

theorem countRows_eq_zero {property : V → Bool} {table : Table K V}
    (h : ∀ (key : K) (value : V), table[key]? = some value → property value = false) :
    countRows property table = 0 := by
  rw [countRows, List.countP_eq_zero]
  rintro ⟨key, value⟩ hmem
  rw [h key value (mem_toList.mp hmem)]
  exact Bool.false_ne_true

/-- A row that is written over one with the same property, or over none without it, changes no count. -/
theorem countRows_insert_of_eq {property : V → Bool} {table : Table K V} {key : K} {value : V}
    (h : property value = (table[key]?.map property).getD false) :
    countRows property (table.insert key value) = countRows property table := by
  have hinsert := countRows_insert table key value property
  cases hold : table[key]? with
  | none =>
      rw [hold] at h hinsert
      rw [show property value = false from h] at hinsert
      exact hinsert
  | some old =>
      rw [hold] at h hinsert
      rw [show property value = property old from h, Option.elim_some] at hinsert
      omega

end countRows

/-! ### Grouping -/

section groupFold

variable {α S : Type} (keyOf : α → K) (init : S) (add : S → α → S)

/-- Folding each item into the entry of its key, which starts at `init`. -/
def groupFold (groups : Table K S) (items : List α) : Table K S :=
  items.foldl (fun groups item =>
    groups.insert (keyOf item) (add (groups[keyOf item]?.getD init) item)) groups

/-- The entry of a key is the fold of the items of that key. -/
theorem get_groupFold (groups : Table K S) (items : List α) (key : K) (same : α → Bool)
    (hsame : ∀ item, same item = true ↔ keyOf item = key) :
    (groupFold keyOf init add groups items)[key]? =
      if items.filter same = [] then groups[key]?
      else some ((items.filter same).foldl add (groups[key]?.getD init)) := by
  induction items generalizing groups with
  | nil => rfl
  | cons item items ih =>
      rw [groupFold, List.foldl_cons, ← groupFold, ih]
      by_cases heq : keyOf item = key
      · rw [List.filter_cons_of_pos ((hsame item).mpr heq), if_neg (List.cons_ne_nil _ _), heq,
          get_insert_self, Option.getD_some, List.foldl_cons]
        split_ifs with hempty
        · rw [hempty, List.foldl_nil]
        · rfl
      · rw [List.filter_cons_of_neg (mt (hsame item).mp heq), get_insert_of_ne _ _ heq]

theorem get_groupFold_append {β : Type} (value : α → β) (items : List α) (key : K) (same : α → Bool)
    (hsame : ∀ item, same item = true ↔ keyOf item = key) :
    (groupFold keyOf [] (fun group item => group ++ [value item]) ∅ items)[key]? =
      if items.filter same = [] then none else some ((items.filter same).map value) := by
  have hfold : ∀ (items : List α) (init : List β),
      items.foldl (fun group item => group ++ [value item]) init = init ++ items.map value := by
    intro items
    induction items with
    | nil => simp
    | cons item items ih => simp [ih]
  rw [get_groupFold keyOf [] _ ∅ items key same hsame, hfold, get_empty]
  rfl

/-- A group is not empty, and its values are those of items of its key. -/
theorem of_get_groupFold_append {β : Type} {value : α → β} {items : List α} {key : K} {group : List β}
    (h : (groupFold keyOf [] (fun group item => group ++ [value item]) ∅ items)[key]? = some group) :
    group ≠ [] ∧ ∀ member ∈ group, ∃ item ∈ items, keyOf item = key ∧ value item = member := by
  rw [get_groupFold_append keyOf value items key (fun item => keyOf item = key) fun _ => decide_eq_true_iff] at h
  split_ifs at h with hempty
  cases h
  refine ⟨mt List.map_eq_nil_iff.mp hempty, fun member hmember => ?_⟩
  obtain ⟨item, hitem, rfl⟩ := List.mem_map.mp hmember
  obtain ⟨hitem, hkey⟩ := List.mem_filter.mp hitem
  exact ⟨item, hitem, decide_eq_true_iff.mp hkey, rfl⟩

theorem get_groupFold_count (items : List α) (key : K) (same : α → Bool)
    (hsame : ∀ item, same item = true ↔ keyOf item = key) :
    (groupFold keyOf 0 (fun count _ => count + 1) ∅ items)[key]? =
      if items.filter same = [] then none else some (items.filter same).length := by
  have hfold : ∀ (items : List α) (init : Nat),
      items.foldl (fun count _ => count + 1) init = init + items.length := by
    intro items
    induction items with
    | nil => simp
    | cons item items ih =>
        intro init
        rw [List.foldl_cons, ih, List.length_cons]
        omega
  rw [get_groupFold keyOf 0 _ ∅ items key same hsame, hfold, get_empty]
  simp

end groupFold

end Table

theorem nodup_toList_set {K : Type} [LinearOrder K] (set : Std.ExtTreeSet K compare) :
    set.toList.Nodup :=
  set.distinct_toList.imp fun hne heq => hne (compare_eq_iff_eq.mpr heq)

/-! ### Loading rows -/

/-- Collecting checked rows with distinct keys into a table keeps exactly those rows. -/
theorem get_foldlM_insert {ε K V : Type} [LinearOrder K] {decode : V → Except ε V}
    (hdecode : ∀ row value, decode row = .ok value → value = row) {rows : List (K × V)}
    {init loaded : Table K V}
    (h : rows.foldlM (fun values row => do return values.insert row.1 (← decode row.2)) init
      = .ok loaded) (hnodup : (rows.map Prod.fst).Nodup) (key : K) (value : V) :
    loaded[key]? = some value ↔
      (key, value) ∈ rows ∨ (key ∉ rows.map Prod.fst ∧ init[key]? = some value) := by
  induction rows generalizing init with
  | nil =>
      cases h
      simp
  | cons row rows ih =>
      obtain ⟨rowKey, rowValue⟩ := row
      simp only [List.foldlM_cons, bind_eq_ok] at h
      obtain ⟨next, ⟨decoded, hdecoded, hnext⟩, hrest⟩ := h
      cases hnext
      rw [hdecode _ _ hdecoded] at hrest
      simp only [List.map_cons, List.nodup_cons] at hnodup
      rw [ih hrest hnodup.2, Table.get_insert]
      simp only [List.mem_cons, List.map_cons, Prod.mk.injEq, not_or]
      by_cases hkey : rowKey = key
      · subst hkey
        have hnotmem : (rowKey, value) ∉ rows := fun hmem =>
          hnodup.1 (List.mem_map.mpr ⟨_, hmem, rfl⟩)
        simp [hnodup.1, hnotmem, eq_comm]
      · simp [hkey, Ne.symm hkey]

/-- Updating rows with distinct keys one after the other, each from what the table holds for it. -/
theorem get_foldlM_update {ε K V W : Type} [LinearOrder K] {change : K → W → Option V → Except ε V}
    {f : Table K V → K × W → Except ε (Table K V)}
    (hf : ∀ table row next, f table row = .ok next ↔
      ∃ value, change row.1 row.2 table[row.1]? = .ok value ∧ next = table.insert row.1 value)
    {rows : List (K × W)} {init result : Table K V} (h : rows.foldlM f init = .ok result)
    (hnodup : (rows.map Prod.fst).Nodup) (key : K) :
    (key ∉ rows.map Prod.fst → result[key]? = init[key]?)
    ∧ ∀ item, (key, item) ∈ rows → ∃ value, change key item init[key]? = .ok value ∧ result[key]? = some value := by
  induction rows generalizing init with
  | nil =>
      cases h
      exact ⟨fun _ => rfl, by simp⟩
  | cons row rows ih =>
      obtain ⟨rowKey, rowItem⟩ := row
      rw [List.foldlM_cons, bind_eq_ok] at h
      obtain ⟨next, hnext, hrest⟩ := h
      obtain ⟨value, hvalue, rfl⟩ := (hf _ _ _).mp hnext
      rw [List.map_cons, List.nodup_cons] at hnodup
      obtain ⟨hkept, hchanged⟩ := ih hrest hnodup.2
      simp only [List.map_cons, List.mem_cons, not_or, Prod.mk.injEq]
      constructor
      · rintro ⟨hne, hnotmem⟩
        rw [hkept hnotmem, Table.get_insert_of_ne _ _ (Ne.symm hne)]
      · rintro item (⟨rfl, rfl⟩ | hmem)
        · refine ⟨value, hvalue, ?_⟩
          rw [hkept hnodup.1, Table.get_insert_self]
        · have hne : rowKey ≠ key := by
            rintro rfl
            exact hnodup.1 (List.mem_map.mpr ⟨_, hmem, rfl⟩)
          obtain ⟨changed, hchange, hget⟩ := hchanged item hmem
          rw [Table.get_insert_of_ne _ _ hne] at hchange
          exact ⟨changed, hchange, hget⟩

/-- The same for the rows of a table of groups. -/
theorem get_foldlM_groups {ε K V W : Type} [LinearOrder K] (change : K → W → Option V → Except ε V)
    {f : Table K V → K × W → Except ε (Table K V)}
    (hf : ∀ table row next, f table row = .ok next ↔
      ∃ value, change row.1 row.2 table[row.1]? = .ok value ∧ next = table.insert row.1 value)
    {groups : Table K W} {init result : Table K V} (h : groups.toList.foldlM f init = .ok result) (key : K) :
    (groups[key]? = none → result[key]? = init[key]?)
    ∧ ∀ item, groups[key]? = some item →
      ∃ value, change key item init[key]? = .ok value ∧ result[key]? = some value := by
  obtain ⟨hkept, hchanged⟩ := get_foldlM_update hf h groups.nodup_keys_toList key
  refine ⟨fun hnone => hkept fun hmem => ?_, fun item hitem => hchanged item (Table.mem_toList.mpr hitem)⟩
  obtain ⟨⟨other, item⟩, hrow, rfl⟩ := List.mem_map.mp hmem
  rw [Table.mem_toList.mp hrow] at hnone
  cases hnone

end MetricBackend
