import Mathlib.Data.List.Basic
import MetricBackend.LibText

/-! Documents of a document store and the update pipelines that are run on them: values and their order,
paths, expressions, stages. An expression is the function it denotes, from the document a stage starts
with to a value; no value stands for a missing field. -/

namespace MetricBackend

/-- A generic binary: its length in bytes and the number that its bytes spell in big-endian order. Binaries
of one length compare as these numbers. -/
structure BsonBinary where
  size : Nat
  content : Nat
deriving DecidableEq

inductive BsonValue where
  | null
  | bool (value : Bool)
  | int32 (value : Int)
  | int64 (value : Int)
  /-- A sum outside the 64-bit range. Its rounding is left out. -/
  | double (value : Int)
  | string (value : Text)
  | binary (value : BsonBinary)
  | date (millis : Int)
  | array (items : List BsonValue)
  | document (fields : List (Text × BsonValue))

abbrev BsonDocument : Type := List (Text × BsonValue)

namespace BsonValue

/-! ### Order -/

/-- The place of a type in the order of values. -/
def rank : BsonValue → Nat
  | null => 1
  | int32 _ | int64 _ | double _ => 2
  | string _ => 3
  | document _ => 4
  | array _ => 5
  | binary _ => 6
  | bool _ => 7
  | date _ => 8

/-- Numbers compare by value, whatever their types. -/
def number : BsonValue → Int
  | int32 value => value
  | int64 value => value
  | double value => value
  | _ => 0

/-- Texts compare by their bytes, which is by their characters. -/
def orderText : Text → Text → Ordering
  | [], [] => .eq
  | [], _ :: _ => .lt
  | _ :: _, [] => .gt
  | c :: rest, d :: other => (compare c.toNat d.toNat).then (orderText rest other)

mutual

def order : BsonValue → BsonValue → Ordering
  | string left, string right => orderText left right
  | binary left, binary right => (compare left.size right.size).then (compare left.content right.content)
  | bool left, bool right => compare left.toNat right.toNat
  | date left, date right => compare left right
  | array left, array right => orderItems left right
  | document left, document right => orderFields left right
  | left, right => (compare left.rank right.rank).then (compare left.number right.number)

def orderItems : List BsonValue → List BsonValue → Ordering
  | [], [] => .eq
  | [], _ :: _ => .lt
  | _ :: _, [] => .gt
  | left :: lefts, right :: rights => (order left right).then (orderItems lefts rights)

def orderFields : List (Text × BsonValue) → List (Text × BsonValue) → Ordering
  | [], [] => .eq
  | [], _ :: _ => .lt
  | _ :: _, [] => .gt
  | (name, left) :: lefts, (other, right) :: rights =>
      (compare left.rank right.rank).then
        ((orderText name other).then ((order left right).then (orderFields lefts rights)))

end

/-- The order of expression results; a missing one comes first. -/
def orderResults : Option BsonValue → Option BsonValue → Ordering
  | none, none => .eq
  | none, some _ => .lt
  | some _, none => .gt
  | some left, some right => order left right

/-! ### Conversions -/

def truthy : Option BsonValue → Bool
  | none | some null => false
  | some (bool value) => value
  | some (int32 value) | some (int64 value) | some (double value) => value ≠ 0
  | some _ => true

def kindName : BsonValue → String
  | null => "null"
  | bool _ => "bool"
  | int32 _ => "int"
  | int64 _ => "long"
  | double _ => "double"
  | string _ => "string"
  | binary _ => "binData"
  | date _ => "date"
  | array _ => "array"
  | document _ => "object"

def typeName : Option BsonValue → Text
  | none => "missing".toList
  | some value => value.kindName.toList

/-- A sum of two 64-bit integers. -/
def sum64 (value : Int) : BsonValue :=
  if -2 ^ 63 ≤ value ∧ value < 2 ^ 63 then int64 value else double value

def plus : Option BsonValue → Option BsonValue → Option BsonValue
  | some (int64 left), some (int64 right) => some (sum64 (left + right))
  | some (double left), some (int64 right) => some (double (left + right))
  | some (int64 left), some (double right) => some (double (left + right))
  | some (double left), some (double right) => some (double (left + right))
  | some (int32 left), some (int32 right) =>
      if -2 ^ 31 ≤ left + right ∧ left + right < 2 ^ 31 then some (int32 (left + right))
      else some (int64 (left + right))
  | some (int32 left), some (int64 right) => some (sum64 (left + right))
  | some (int64 left), some (int32 right) => some (sum64 (left + right))
  | some (int32 left), some (double right) => some (double (left + right))
  | some (double left), some (int32 right) => some (double (left + right))
  | _, _ => some null

def concatenated : Option BsonValue → Option BsonValue → Option BsonValue
  | some (array left), some (array right) => some (array (left ++ right))
  | _, _ => some null

/-- The elements of the first array and those of the second that it lacks. -/
def union : Option BsonValue → Option BsonValue → Option BsonValue
  | some (array left), some (array right) =>
      some (array (left ++ right.filter fun item => left.all fun other => order item other ≠ .eq))
  | _, _ => some null

/-- The larger of two results; a missing one does not count. -/
def larger : Option BsonValue → Option BsonValue → Option BsonValue
  | left, right => if orderResults left right = .lt then right else left

/-- The first result, unless it is missing or null. -/
def coalesce : Option BsonValue → Option BsonValue → Option BsonValue
  | none, default | some null, default => default
  | some value, _ => some value

/-! ### Paths -/

/-- The value at a path. A path into an array collects what the documents in it have there. -/
def follow : List Text → BsonValue → Option BsonValue
  | [], value => some value
  | name :: path, value =>
      match value with
      | document fields => (fields.lookup name).bind (follow path)
      | array items => some (array (items.filterMap fun
          | document fields => (fields.lookup name).bind (follow path)
          | _ => none))
      | _ => none

end BsonValue

open BsonValue

/-! ### Expressions -/

def Expr : Type := BsonDocument → Option BsonValue

namespace Expr

/-- The variables that depend on the document alone. -/
def systemVariable (root : BsonDocument) (name : Text) : Option BsonValue :=
  if name = "ROOT".toList ∨ name = "CURRENT".toList then some (.document root) else none

def variablePath (root : BsonDocument) : List Text → Option BsonValue
  | [] => none
  | name :: path => (systemVariable root name).bind (follow path)

/-- A string in the place of an expression: with a dollar sign it is a path, with two a variable. -/
def text (value : Text) : Expr := fun root =>
  match stripStart "$$".toList value, stripStart "$".toList value with
  | some rest, _ => variablePath root (rest.splitOnP (· == '.'))
  | none, some rest => follow (rest.splitOnP (· == '.')) (.document root)
  | none, none => some (.string value)

def literal (value : BsonValue) : Expr := fun _ => some value

/-- A document whose fields are expressions; a missing value leaves the field out. -/
def object (fields : List (Text × Expr)) : Expr := fun root =>
  some (.document (fields.filterMap fun field => (field.2 root).map (Prod.mk field.1)))

/-- An array of expressions; a missing value becomes null. -/
def array (items : List Expr) : Expr := fun root =>
  some (.array (items.map fun item => (item root).getD .null))

def cond (test yes no : Expr) : Expr := fun root => if truthy (test root) then yes root else no root

def ifNull (value default : Expr) : Expr := fun root => coalesce (value root) (default root)

def compared (accept : Ordering → Bool) (left right : Expr) : Expr := fun root =>
  some (.bool (accept (orderResults (left root) (right root))))

def eq : Expr → Expr → Expr := compared (· == .eq)

def ne : Expr → Expr → Expr := compared (· != .eq)

def lt : Expr → Expr → Expr := compared (· == .lt)

def gt : Expr → Expr → Expr := compared (· == .gt)

def and (arguments : List Expr) : Expr := fun root =>
  some (.bool (arguments.all fun argument => truthy (argument root)))

def or (arguments : List Expr) : Expr := fun root =>
  some (.bool (arguments.any fun argument => truthy (argument root)))

def not (argument : Expr) : Expr := fun root => some (.bool (!truthy (argument root)))

def type (argument : Expr) : Expr := fun root => some (.string (typeName (argument root)))

def add (left right : Expr) : Expr := fun root => plus (left root) (right root)

def concatArrays (left right : Expr) : Expr := fun root => concatenated (left root) (right root)

def setUnion (left right : Expr) : Expr := fun root => union (left root) (right root)

def max (left right : Expr) : Expr := fun root => larger (left root) (right root)

end Expr

/-! ### Stages -/

/-- Sets a field in its place, appends it, or removes it when there is no value. -/
def BsonDocument.put (name : Text) (value : Option BsonValue) (root : BsonDocument) : BsonDocument :=
  match value with
  | none => root.filter (·.1 ≠ name)
  | some value =>
      if root.any (·.1 = name) then root.map fun field => if field.1 = name then (name, value) else field
      else root ++ [(name, value)]

inductive Stage where
  | set (assignments : List (Text × Expr))
  | unset (names : List Text)

/-- Every assignment of a stage reads the document that the stage starts with. -/
def Stage.apply (root : BsonDocument) : Stage → BsonDocument
  | set assignments =>
      assignments.foldl (fun result assignment => result.put assignment.1 (assignment.2 root)) root
  | unset names => names.foldl (fun result name => result.put name none) root

def runPipeline (stages : List Stage) (root : BsonDocument) : BsonDocument := stages.foldl Stage.apply root

/-! ### Order of values -/

theorem orderText_eq_iff {left right : Text} : orderText left right = .eq ↔ left = right := by
  induction left generalizing right with
  | nil => cases right <;> simp [orderText]
  | cons c left ih =>
      cases right with
      | nil => simp [orderText]
      | cons d right =>
          rw [orderText, Ordering.then_eq_eq, ih, List.cons.injEq]
          refine and_congr_left fun _ => ?_
          rw [Nat.compare_eq_eq]
          exact ⟨Char.toNat_inj.mp, congrArg Char.toNat⟩

/-- Binaries of one length compare as their numbers. -/
theorem order_binary {size left right : Nat} :
    order (.binary ⟨size, left⟩) (.binary ⟨size, right⟩) = compare left right := by
  rw [order, Nat.compare_eq_eq.mpr rfl]
  rfl

theorem order_string_eq_iff {left right : Text} :
    order (.string left) (.string right) = .eq ↔ left = right := by
  rw [order]
  exact orderText_eq_iff

theorem typeName_eq_missing {value : Option BsonValue} : typeName value = "missing".toList ↔ value = none := by
  cases value with
  | none => exact iff_of_true rfl rfl
  | some value =>
      have hkind : value.kindName ≠ "missing" := by
        cases value <;> simp [kindName]
      exact iff_of_false (fun h => hkind (String.toList_inj.mp h)) (by simp)

/-! ### Fields after a stage -/

theorem lookup_field {α : Type} (name other : Text) (content : α) (rest : List (Text × α)) :
    ((name, content) :: rest).lookup other = if other = name then some content else rest.lookup other := by
  rw [List.lookup_cons]
  split_ifs with hother
  · rw [hother, beq_self_eq_true]
  · rw [beq_false_of_ne hother]

theorem lookup_removed (name other : Text) (root : BsonDocument) :
    (root.filter (·.1 ≠ name)).lookup other = if other = name then none else root.lookup other := by
  induction root with
  | nil => simp
  | cons field root ih =>
      obtain ⟨key, content⟩ := field
      by_cases hkey : key = name
      · subst hkey
        rw [List.filter_cons_of_neg (by simp), ih, lookup_field]
        split_ifs <;> rfl
      · rw [List.filter_cons_of_pos (by simpa using hkey), lookup_field, lookup_field, ih]
        split_ifs with hsame hname
        · exact absurd (hsame.symm.trans hname) hkey
        · rfl
        · rfl
        · rfl

theorem lookup_replaced (name other : Text) (value : BsonValue) (root : BsonDocument) :
    (root.map fun field => if field.1 = name then (name, value) else field).lookup other =
      if other = name ∧ root.any (·.1 = name) then some value else root.lookup other := by
  induction root with
  | nil => simp
  | cons field root ih =>
      obtain ⟨key, content⟩ := field
      rw [List.map_cons, List.any_cons, lookup_field]
      by_cases hkey : key = name
      · rw [if_pos hkey, lookup_field, ih, hkey]
        by_cases hother : other = name
        · simp [hother]
        · simp [hother]
      · rw [if_neg hkey, lookup_field, ih]
        by_cases hsame : other = key
        · simp [hsame, hkey]
        · simp only [hsame, hkey, if_false, decide_false, Bool.false_or]

theorem lookup_absent {α : Type} {name : Text} {fields : List (Text × α)}
    (h : ∀ field ∈ fields, field.1 ≠ name) : fields.lookup name = none := by
  induction fields with
  | nil => rfl
  | cons field fields ih =>
      rw [List.forall_mem_cons] at h
      rw [lookup_field, if_neg h.1.symm, ih h.2]

theorem lookup_put (name other : Text) (value : Option BsonValue) (root : BsonDocument) :
    (root.put name value).lookup other = if other = name then value else root.lookup other := by
  cases value with
  | none => exact lookup_removed name other root
  | some value =>
      simp only [BsonDocument.put]
      split_ifs with hpresent hother hother
      · rw [lookup_replaced, if_pos ⟨hother, hpresent⟩]
      · rw [lookup_replaced, if_neg (fun h => hother h.1)]
      · have habsent : root.lookup name = none := lookup_absent fun field hfield hname =>
          hpresent (List.any_eq_true.mpr ⟨field, hfield, by simp [hname]⟩)
        rw [List.lookup_append, hother, habsent, lookup_field, if_pos rfl]
        rfl
      · rw [List.lookup_append, lookup_field, if_neg hother]
        simp

/-- The assignments of a stage, with their values. -/
theorem apply_set (assignments : List (Text × Expr)) (root : BsonDocument) :
    (Stage.set assignments).apply root =
      (assignments.map fun assignment => (assignment.1, assignment.2 root)).foldl
        (fun result assignment => result.put assignment.1 assignment.2) root := by
  rw [List.foldl_map]
  rfl

theorem apply_unset (names : List Text) (root : BsonDocument) :
    (Stage.unset names).apply root =
      (names.map fun name => (name, (none : Option BsonValue))).foldl
        (fun result assignment => result.put assignment.1 assignment.2) root := by
  rw [List.foldl_map]
  rfl

theorem lookup_foldl_put {assignments : List (Text × Option BsonValue)}
    (hnames : (assignments.map Prod.fst).Nodup) (root : BsonDocument) (name : Text) :
    (assignments.foldl (fun result assignment => result.put assignment.1 assignment.2) root).lookup name =
      (assignments.lookup name).getD (root.lookup name) := by
  induction assignments generalizing root with
  | nil => simp
  | cons assignment assignments ih =>
      obtain ⟨key, value⟩ := assignment
      rw [List.map_cons, List.nodup_cons] at hnames
      rw [List.foldl_cons, ih hnames.2, lookup_put, lookup_field]
      split_ifs with hname
      · have habsent : assignments.lookup name = none := lookup_absent fun assignment hassignment h =>
          hnames.1 (List.mem_map.mpr ⟨assignment, hassignment, h.trans hname⟩)
        rw [habsent]
        rfl
      · rfl

/-- What a stage leaves in a field: the assigned value, read from the document before the stage, or what
was there. -/
theorem lookup_set {assignments : List (Text × Expr)} (hnames : (assignments.map Prod.fst).Nodup)
    (root : BsonDocument) (name : Text) :
    ((Stage.set assignments).apply root).lookup name =
      ((assignments.lookup name).map (· root)).getD (root.lookup name) := by
  have hlookup : (assignments.map fun assignment => (assignment.1, assignment.2 root)).lookup name =
      (assignments.lookup name).map (· root) := by
    clear hnames
    induction assignments with
    | nil => rfl
    | cons assignment assignments ih =>
        rw [List.map_cons, lookup_field, lookup_field, ih]
        split_ifs <;> rfl
  rw [apply_set, lookup_foldl_put (by simpa [Function.comp_def] using hnames), hlookup]

theorem lookup_unset {names : List Text} (hnames : names.Nodup) (root : BsonDocument) (name : Text) :
    ((Stage.unset names).apply root).lookup name = if name ∈ names then none else root.lookup name := by
  have hlookup : (names.map fun name => (name, (none : Option BsonValue))).lookup name =
      if name ∈ names then some none else none := by
    clear hnames
    induction names with
    | nil => rfl
    | cons other names ih =>
        rw [List.map_cons, lookup_field, ih]
        by_cases hother : name = other
        · simp [hother]
        · simp [hother]
  rw [apply_unset, lookup_foldl_put (by simpa [Function.comp_def] using hnames), hlookup]
  split_ifs <;> rfl

/-! ### Paths of fields -/

theorem follow_field (name : Text) (root : BsonDocument) :
    follow [name] (.document root) = root.lookup name := by
  simp only [follow]
  cases root.lookup name <;> rfl

/-! ### Texts that are read as expressions -/

def dollared (value : Text) : Bool := "$".toList.isPrefixOf value

theorem stripStart_eq_none {value : Text} (h : ¬ dollared value) :
    stripStart "$$".toList value = none ∧ stripStart "$".toList value = none := by
  have hone : ¬ "$".toList.isPrefixOf value := h
  have htwo : ¬ "$$".toList.isPrefixOf value := by
    intro hbefore
    have hstart : "$".toList <+: "$$".toList := ⟨"$".toList, rfl⟩
    exact hone (List.isPrefixOf_iff_prefix.mpr (hstart.trans (List.isPrefixOf_iff_prefix.mp hbefore)))
  exact ⟨if_neg htwo, if_neg hone⟩

theorem text_of_not_dollared {value : Text} (h : ¬ dollared value) (root : BsonDocument) :
    Expr.text value root = some (.string value) := by
  obtain ⟨htwo, hone⟩ := stripStart_eq_none h
  simp only [Expr.text, htwo, hone]

/-- No text inside the value starts with a dollar sign. -/
inductive Undollared : BsonValue → Prop where
  | null : Undollared .null
  | bool (value : Bool) : Undollared (.bool value)
  | int32 (value : Int) : Undollared (.int32 value)
  | int64 (value : Int) : Undollared (.int64 value)
  | double (value : Int) : Undollared (.double value)
  | string {value : Text} (h : ¬ dollared value) : Undollared (.string value)
  | binary (value : BsonBinary) : Undollared (.binary value)
  | date (millis : Int) : Undollared (.date millis)
  | array {items : List BsonValue} (h : ∀ item ∈ items, Undollared item) : Undollared (.array items)
  | document {fields : BsonDocument} (h : ∀ field ∈ fields, Undollared field.2) :
      Undollared (.document fields)

theorem Undollared.field {fields : BsonDocument} (h : Undollared (.document fields)) :
    ∀ field ∈ fields, Undollared field.2 := by
  cases h with
  | document h => exact h

theorem Undollared.item {items : List BsonValue} (h : Undollared (.array items)) :
    ∀ item ∈ items, Undollared item := by
  cases h with
  | array h => exact h

theorem Undollared.text {value : Text} (h : Undollared (.string value)) : ¬ dollared value := by
  cases h with
  | string h => exact h

theorem Undollared.lookup {root : BsonDocument} (h : Undollared (.document root)) (name : Text) :
    ∀ value ∈ root.lookup name, Undollared value := by
  intro value hvalue
  obtain ⟨before, after, rfl, -⟩ := List.lookup_eq_some_iff.mp hvalue
  exact h.field (name, value) (by simp)

theorem Undollared.follow {value : BsonValue} (h : Undollared value) (path : List Text) :
    ∀ result ∈ BsonValue.follow path value, Undollared result := by
  induction path generalizing value with
  | nil =>
      rintro result ⟨⟩
      exact h
  | cons name path ih =>
      have hdocument : ∀ fields : BsonDocument, Undollared (.document fields) →
          ∀ result ∈ (fields.lookup name).bind (BsonValue.follow path), Undollared result := by
        intro fields hfields result hresult
        obtain ⟨inner, hinner, hfollow⟩ := Option.bind_eq_some_iff.mp hresult
        exact ih (hfields.lookup name inner hinner) result hfollow
      intro result hresult
      unfold BsonValue.follow at hresult
      split at hresult
      · exact hdocument _ h result hresult
      · cases hresult
        refine .array fun item hitem => ?_
        obtain ⟨element, helement, hsome⟩ := List.mem_filterMap.mp hitem
        split at hsome
        · exact hdocument _ (h.item _ helement) item hsome
        · cases hsome
      · cases hresult

namespace Expr

/-- The expression makes no text with a leading dollar sign. -/
def Closed (expression : Expr) : Prop :=
  ∀ root, Undollared (.document root) → ∀ value ∈ expression root, Undollared value

theorem closed_text (value : Text) : (text value).Closed := by
  intro root hroot result hresult
  unfold text at hresult
  split at hresult
  · unfold variablePath at hresult
    split at hresult
    · cases hresult
    · obtain ⟨start, hstart, hfollow⟩ := Option.bind_eq_some_iff.mp hresult
      unfold systemVariable at hstart
      split_ifs at hstart
      cases hstart
      exact hroot.follow _ result hfollow
  · exact hroot.follow _ result hresult
  · rename_i hone
    cases hresult
    refine .string fun hdollared => ?_
    have hstart : "$".toList.isPrefixOf value := hdollared
    rw [stripStart, if_pos hstart] at hone
    cases hone

theorem closed_literal {value : BsonValue} (h : Undollared value) : (literal value).Closed := by
  rintro root - result ⟨⟩
  exact h

theorem closed_object {fields : List (Text × Expr)} (h : ∀ field ∈ fields, field.2.Closed) :
    (object fields).Closed := by
  rintro root hroot result ⟨⟩
  refine .document fun entry hentry => ?_
  obtain ⟨field, hfield, hsome⟩ := List.mem_filterMap.mp hentry
  obtain ⟨value, hvalue, rfl⟩ := Option.map_eq_some_iff.mp hsome
  exact h field hfield root hroot value hvalue

theorem closed_array {items : List Expr} (h : ∀ item ∈ items, item.Closed) : (array items).Closed := by
  rintro root hroot result ⟨⟩
  refine .array fun entry hentry => ?_
  obtain ⟨item, hitem, rfl⟩ := List.mem_map.mp hentry
  cases hvalue : item root with
  | none => exact .null
  | some value => exact h item hitem root hroot value hvalue

theorem closed_cond {test yes no : Expr} (hyes : yes.Closed) (hno : no.Closed) :
    (cond test yes no).Closed := by
  intro root hroot result hresult
  unfold cond at hresult
  split_ifs at hresult
  · exact hyes root hroot result hresult
  · exact hno root hroot result hresult

theorem closed_ifNull {value default : Expr} (hvalue : value.Closed) (hdefault : default.Closed) :
    (ifNull value default).Closed := by
  intro root hroot result hresult
  have hcases : ∀ left right : Option BsonValue, coalesce left right = left ∨ coalesce left right = right := by
    intro left right
    cases left with
    | none => exact Or.inr rfl
    | some content => cases content <;> first | exact Or.inr rfl | exact Or.inl rfl
  rcases hcases (value root) (default root) with heq | heq
  · exact hvalue root hroot result (heq.symm.trans hresult)
  · exact hdefault root hroot result (heq.symm.trans hresult)

/-- An expression whose result is a truth value, whatever the document. -/
theorem closed_of_bool {expression : Expr} (h : ∀ root, ∃ value, expression root = some (.bool value)) :
    expression.Closed := by
  intro root _ result hresult
  obtain ⟨value, hvalue⟩ := h root
  rw [hvalue] at hresult
  cases hresult
  exact .bool value

theorem closed_add {left right : Expr} : (add left right).Closed := by
  intro root _ result hresult
  have hsum : ∀ value, Undollared (sum64 value) := by
    intro value
    unfold sum64
    split_ifs
    · exact .int64 value
    · exact .double value
  simp only [add, plus] at hresult
  split at hresult
  all_goals first
    | (split_ifs at hresult <;> cases hresult <;> constructor)
    | (cases hresult; first | exact hsum _ | constructor)

theorem closed_concatArrays {left right : Expr} (hleft : left.Closed) (hright : right.Closed) :
    (concatArrays left right).Closed := by
  intro root hroot result hresult
  simp only [concatArrays, concatenated] at hresult
  split at hresult
  · rename_i hleftItems hrightItems
    cases hresult
    refine .array fun item hitem => ?_
    rcases List.mem_append.mp hitem with hmem | hmem
    · exact (hleft root hroot _ hleftItems).item item hmem
    · exact (hright root hroot _ hrightItems).item item hmem
  · cases hresult
    exact .null

end Expr

theorem Undollared.put {root : BsonDocument} (hroot : Undollared (.document root)) {name : Text}
    {value : Option BsonValue} (hvalue : ∀ content ∈ value, Undollared content) :
    Undollared (.document (root.put name value)) := by
  refine .document fun field hfield => ?_
  cases value with
  | none => exact hroot.field field (List.mem_of_mem_filter hfield)
  | some content =>
      have hcontent : Undollared content := hvalue content rfl
      simp only [BsonDocument.put] at hfield
      split_ifs at hfield
      · obtain ⟨original, horiginal, rfl⟩ := List.mem_map.mp hfield
        split_ifs
        · exact hcontent
        · exact hroot.field original horiginal
      · rcases List.mem_append.mp hfield with hmem | hmem
        · exact hroot.field field hmem
        · rw [List.mem_singleton.mp hmem]
          exact hcontent

/-- The stage makes no text with a leading dollar sign. -/
def Stage.Closed : Stage → Prop
  | .set assignments => ∀ assignment ∈ assignments, assignment.2.Closed
  | .unset _ => True

theorem Undollared.foldl_put {assignments : List (Text × Option BsonValue)} {root : BsonDocument}
    (hroot : Undollared (.document root))
    (hvalues : ∀ assignment ∈ assignments, ∀ content ∈ assignment.2, Undollared content) :
    Undollared (.document
      (assignments.foldl (fun result assignment => BsonDocument.put assignment.1 assignment.2 result) root)) := by
  induction assignments generalizing root with
  | nil => exact hroot
  | cons assignment assignments ih =>
      rw [List.forall_mem_cons] at hvalues
      exact ih (hroot.put hvalues.1) hvalues.2

theorem Undollared.apply {root : BsonDocument} (hroot : Undollared (.document root)) {stage : Stage}
    (hstage : stage.Closed) : Undollared (.document (stage.apply root)) := by
  cases stage with
  | set assignments =>
      rw [apply_set]
      refine hroot.foldl_put fun assignment hassignment content hcontent => ?_
      obtain ⟨source, hsource, rfl⟩ := List.mem_map.mp hassignment
      exact hstage source hsource root hroot content hcontent
  | unset names =>
      rw [apply_unset]
      refine hroot.foldl_put fun assignment hassignment content hcontent => ?_
      obtain ⟨name, -, rfl⟩ := List.mem_map.mp hassignment
      cases hcontent

/-- A pipeline of closed stages leaves no text with a leading dollar sign, where there was none. -/
theorem Undollared.runPipeline {stages : List Stage} {root : BsonDocument}
    (hroot : Undollared (.document root)) (hstages : ∀ stage ∈ stages, stage.Closed) :
    Undollared (.document (MetricBackend.runPipeline stages root)) := by
  induction stages generalizing root with
  | nil => exact hroot
  | cons stage stages ih =>
      rw [List.forall_mem_cons] at hstages
      exact ih (hroot.apply hstages.1) hstages.2

end MetricBackend
