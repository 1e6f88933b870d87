import Mathlib.Data.List.Forall2
import Mathlib.Order.Basic

/-! Rules for computations that stop at the first error: checks, sequencing and loops. -/

namespace MetricBackend

variable {ε α β σ : Type}

/-- Stops with the error when the condition holds. -/
def failIf (condition : Prop) [Decidable condition] (error : ε) : Except ε Unit :=
  if condition then .error error else .ok ()

@[simp] theorem failIf_eq_ok {condition : Prop} [Decidable condition] {error : ε} {result : Unit} :
    failIf condition error = .ok result ↔ ¬ condition := by
  unfold failIf
  split_ifs with h <;> simp [h]

theorem bind_eq_ok {x : Except ε α} {f : α → Except ε β} {result : β} :
    (x >>= f) = .ok result ↔ ∃ a, x = .ok a ∧ f a = .ok result := by
  cases x with
  | error e =>
      constructor
      · intro h
        cases h
      · rintro ⟨a, h, -⟩
        cases h
  | ok a =>
      constructor
      · intro h
        exact ⟨a, rfl, h⟩
      · rintro ⟨b, h, hb⟩
        cases h
        exact hb

theorem bind_congr_ok {x : Except ε α} {f g : α → Except ε β} (h : ∀ a, x = .ok a → f a = g a) :
    (x >>= f) = x >>= g := by
  cases x with
  | error e => rfl
  | ok a => exact h a rfl

theorem exists_ok_of_isOk {ε α : Type} {result : Except ε α} (h : result.isOk) : ∃ value, result = .ok value := by
  cases result with
  | error error => cases h
  | ok value => exact ⟨value, rfl⟩

theorem bind_eq_error {x : Except ε α} {f : α → Except ε β} {error : ε} :
    (x >>= f) = .error error ↔ x = .error error ∨ ∃ a, x = .ok a ∧ f a = .error error := by
  cases x with
  | error e => simp [bind, Except.bind]
  | ok a => simp [bind, Except.bind]

@[simp] theorem failIf_eq_error {condition : Prop} [Decidable condition] {error result : ε} :
    failIf condition error = .error result ↔ condition ∧ error = result := by
  rw [failIf]
  split_ifs with h <;> simp [h]

theorem pure_eq_ok {value result : α} : (pure value : Except ε α) = .ok result ↔ value = result := by
  constructor
  · intro h
    cases h
    rfl
  · intro h
    rw [h]
    rfl

theorem toOption_eq_some {ε α : Type} {outcome : Except ε α} {value : α} :
    outcome.toOption = some value ↔ outcome = .ok value := by
  cases outcome <;> simp [Except.toOption]

theorem map_eq_ok {f : α → β} {x : Except ε α} {result : β} :
    f <$> x = .ok result ↔ ∃ a, x = .ok a ∧ f a = result := by
  cases x with
  | error e => simp
  | ok a => simp

theorem mapError_eq_ok {δ : Type} {x : Except ε α} {f : ε → δ} {result : α} :
    x.mapError f = .ok result ↔ x = .ok result := by
  cases x with
  | error e => simp [Except.mapError]
  | ok value => simp [Except.mapError]

theorem exists_of_mem_forall₂ {relation : α → β → Prop} {items : List α} {results : List β}
    (h : List.Forall₂ relation items results) {result : β} (hresult : result ∈ results) :
    ∃ item, relation item result := by
  induction h with
  | nil => cases hresult
  | cons hhead _ ih =>
      obtain rfl | hresult := List.mem_cons.mp hresult
      · exact ⟨_, hhead⟩
      · exact ih hresult

/-- Mapping a checked function: all elements pass the check and have their values. -/
theorem forall₂_of_mapM_eq_ok {f : α → Except ε β} {items : List α} {results : List β}
    (h : items.mapM f = .ok results) :
    List.Forall₂ (fun item result => f item = .ok result) items results := by
  induction items generalizing results with
  | nil =>
      cases h
      exact .nil
  | cons item items ih =>
      simp only [List.mapM_cons, bind_eq_ok, pure_eq_ok] at h
      obtain ⟨result, hresult, rest, hrest, rfl⟩ := h
      exact .cons hresult (ih hrest)

theorem mapM_eq_ok_iff_of_mem {f : α → Except ε β} {check : α → Prop} {value : α → β} {items : List α}
    (hf : ∀ item ∈ items, ∀ result, f item = .ok result ↔ check item ∧ result = value item)
    {results : List β} :
    items.mapM f = .ok results ↔ (∀ item ∈ items, check item) ∧ results = items.map value := by
  induction items generalizing results with
  | nil =>
      rw [List.mapM_nil, pure_eq_ok, eq_comm]
      simp
  | cons item items ih =>
      obtain ⟨hitem, hitems⟩ := List.forall_mem_cons.mp hf
      simp only [List.mapM_cons, bind_eq_ok, pure_eq_ok, ih hitems, hitem, List.forall_mem_cons, List.map_cons]
      constructor
      · rintro ⟨_, ⟨hitem, rfl⟩, _, ⟨hitems, rfl⟩, rfl⟩
        exact ⟨⟨hitem, hitems⟩, rfl⟩
      · rintro ⟨⟨hitem, hitems⟩, rfl⟩
        exact ⟨_, ⟨hitem, rfl⟩, _, ⟨hitems, rfl⟩, rfl⟩

theorem mapM_of_forall_mem {f : α → Except ε β} {value : α → β} {items : List α}
    (h : ∀ item ∈ items, f item = .ok (value item)) : items.mapM f = .ok (items.map value) := by
  have hiff : items.mapM f = .ok (items.map value) ↔ (∀ item ∈ items, True) ∧ items.map value = items.map value :=
    mapM_eq_ok_iff_of_mem fun item hitem result => by rw [h item hitem, Except.ok.injEq, true_and, eq_comm]
  exact hiff.mpr ⟨fun _ _ => trivial, rfl⟩

theorem exists_mapM_eq_ok {f : α → Except ε β} {items : List α} (h : ∀ item ∈ items, ∃ result, f item = .ok result) :
    ∃ results, items.mapM f = .ok results := by
  induction items with
  | nil => exact ⟨[], rfl⟩
  | cons item items ih =>
      obtain ⟨result, hresult⟩ := h item List.mem_cons_self
      obtain ⟨results, hresults⟩ := ih fun other hother => h other (List.mem_cons_of_mem _ hother)
      refine ⟨result :: results, ?_⟩
      simp only [List.mapM_cons, bind_eq_ok, pure_eq_ok]
      exact ⟨result, hresult, results, hresults, rfl⟩

theorem mapM_eq_ok_iff {f : α → Except ε β} (check : α → Prop) (value : α → β)
    (hf : ∀ item result, f item = .ok result ↔ check item ∧ result = value item) {items : List α}
    {results : List β} :
    items.mapM f = .ok results ↔ (∀ item ∈ items, check item) ∧ results = items.map value :=
  mapM_eq_ok_iff_of_mem fun item _ => hf item

/-- A loop of checks passes when every check does. -/
theorem forM_eq_ok {f : α → Except ε Unit} {items : List α} :
    items.forM f = .ok () ↔ ∀ item ∈ items, f item = .ok () := by
  induction items with
  | nil => exact iff_of_true rfl (by simp)
  | cons item items ih =>
      have hstep : (item :: items).forM f = f item >>= fun _ => items.forM f := rfl
      rw [hstep, bind_eq_ok, List.forall_mem_cons, ← ih]
      exact ⟨fun ⟨_, hitem, hitems⟩ => ⟨hitem, hitems⟩, fun h => ⟨(), h⟩⟩

/-! ### Two computations -/

/-- Both computations succeed, with related results, or both fail. -/
def Alike {δ : Type} (related : α → β → Prop) : Except ε α → Except δ β → Prop
  | .ok left, .ok right => related left right
  | .error _, .error _ => True
  | _, _ => False

theorem alike_of {δ : Type} {related : α → β → Prop} {x : Except ε α} {y : Except δ β}
    (hleft : ∀ left, x = .ok left → ∃ right, y = .ok right ∧ related left right)
    (hright : ∀ right, y = .ok right → ∃ left, x = .ok left) : Alike related x y := by
  cases x with
  | ok left =>
      obtain ⟨right, rfl, hrelated⟩ := hleft left rfl
      exact hrelated
  | error error =>
      cases y with
      | error _ => exact trivial
      | ok right =>
          obtain ⟨left, h⟩ := hright right rfl
          cases h

theorem Alike.cases {δ : Type} {related : α → β → Prop} {x : Except ε α} {y : Except δ β}
    (h : Alike related x y) :
    (∃ left right, x = .ok left ∧ y = .ok right ∧ related left right)
      ∨ ∃ error other, x = .error error ∧ y = .error other := by
  cases x with
  | ok left =>
      cases y with
      | ok right => exact .inl ⟨left, right, rfl, rfl, h⟩
      | error other => exact False.elim h
  | error error =>
      cases y with
      | ok right => exact False.elim h
      | error other => exact .inr ⟨error, other, rfl, rfl⟩

/-! ### Errors -/

/-- Every error of the computation is allowed. -/
def FailsWith (allowed : ε → Prop) (x : Except ε α) : Prop := ∀ error, x = .error error → allowed error

section FailsWith

variable {allowed : ε → Prop}

theorem failsWith_ok (value : α) : FailsWith allowed (.ok value : Except ε α) := nofun

theorem failsWith_pure (value : α) : FailsWith allowed (pure value : Except ε α) := nofun

theorem failsWith_failIf {condition : Prop} [Decidable condition] {error : ε} (h : allowed error) :
    FailsWith allowed (failIf condition error) := by
  intro raised hraised
  rw [← (failIf_eq_error.mp hraised).2]
  exact h

theorem FailsWith.bind {x : Except ε α} {f : α → Except ε β} (hx : FailsWith allowed x)
    (hf : ∀ value, x = .ok value → FailsWith allowed (f value)) : FailsWith allowed (x >>= f) := by
  intro error h
  obtain h | ⟨value, hvalue, h⟩ := bind_eq_error.mp h
  · exact hx error h
  · exact hf value hvalue error h

theorem FailsWith.foldlM {f : σ → α → Except ε σ} (h : ∀ state item, FailsWith allowed (f state item))
    (items : List α) (init : σ) : FailsWith allowed (items.foldlM f init) := by
  induction items generalizing init with
  | nil => exact failsWith_pure init
  | cons item items ih =>
      rw [List.foldlM_cons]
      exact (h init item).bind fun state _ => ih state

theorem FailsWith.mapM {f : α → Except ε β} (h : ∀ item, FailsWith allowed (f item)) (items : List α) :
    FailsWith allowed (items.mapM f) := by
  induction items with
  | nil => exact failsWith_pure []
  | cons item items ih =>
      rw [List.mapM_cons]
      exact (h item).bind fun value _ => ih.bind fun values _ => failsWith_pure (value :: values)

theorem FailsWith.forM {f : α → Except ε Unit} (h : ∀ item, FailsWith allowed (f item)) (items : List α) :
    FailsWith allowed (items.forM f) := by
  induction items with
  | nil => exact failsWith_ok ()
  | cons item items ih => exact (h item).bind fun _ _ => ih

theorem FailsWith.mapError {δ : Type} {allowedAfter : δ → Prop} {f : ε → δ} {x : Except ε α}
    (hx : FailsWith allowed x) (hf : ∀ error, allowed error → allowedAfter (f error)) :
    FailsWith allowedAfter (x.mapError f) := by
  cases x with
  | ok value => exact failsWith_ok value
  | error raised =>
      intro error h
      cases h
      exact hf raised (hx raised rfl)

end FailsWith

/-- A loop in which every pass can succeed. -/
theorem foldlM_ok_of_forall {f : σ → α → Except ε σ} (items : List α) (init : σ)
    (h : ∀ state item, item ∈ items → ∃ next, f state item = .ok next) :
    ∃ result, items.foldlM f init = .ok result := by
  induction items generalizing init with
  | nil => exact ⟨init, rfl⟩
  | cons item items ih =>
      obtain ⟨next, hnext⟩ := h init item (by simp)
      obtain ⟨result, hresult⟩ :=
        ih next fun state other hother => h state other (List.mem_cons_of_mem _ hother)
      refine ⟨result, ?_⟩
      rw [List.foldlM_cons, bind_eq_ok]
      exact ⟨next, hnext, hresult⟩

/-- A loop invariant: what holds before the loop and is kept by each successful pass holds after
it. -/
theorem foldlM_ok_induction {f : σ → α → Except ε σ} (motive : σ → Prop) :
    ∀ (items : List α) (init result : σ), items.foldlM f init = .ok result → motive init →
      (∀ state item next, item ∈ items → motive state → f state item = .ok next → motive next) →
      motive result := by
  intro items
  induction items with
  | nil =>
      intro init result h hinit _
      cases h
      exact hinit
  | cons item items ih =>
      intro init result h hinit hstep
      rw [List.foldlM_cons, bind_eq_ok] at h
      obtain ⟨next, hnext, hrest⟩ := h
      exact ih next result hrest (hstep init item next (by simp) hinit hnext)
        fun state x after hx => hstep state x after (List.mem_cons_of_mem _ hx)

/-! ### Loops that keep what they wrote -/

/-- A loop over effects that are not undone: it stops at the first error and keeps the state reached
there. -/
def runUntilError (step : σ → α → σ × Except ε Unit) : σ → List α → σ × Except ε Unit
  | state, [] => (state, .ok ())
  | state, item :: items =>
      match step state item with
      | (next, .ok ()) => runUntilError step next items
      | (next, .error error) => (next, .error error)

variable {step : σ → α → σ × Except ε Unit}

theorem runUntilError_cons_ok {state next : σ} {item : α} {items : List α}
    (h : step state item = (next, .ok ())) :
    runUntilError step state (item :: items) = runUntilError step next items := by
  rw [runUntilError, h]

theorem runUntilError_cons_error {state next : σ} {item : α} {items : List α} {error : ε}
    (h : step state item = (next, .error error)) :
    runUntilError step state (item :: items) = (next, .error error) := by
  rw [runUntilError, h]

/-! ### Computations with a state -/

/-- Whatever value the computation returns, from any state, has the property. -/
def Yields (x : StateT σ (Except ε) α) (post : α → Prop) : Prop :=
  ∀ state value final, x.run state = .ok (value, final) → post value

theorem yields_true (x : StateT σ (Except ε) α) : Yields x fun _ => True :=
  fun _ _ _ _ => trivial

theorem yields_pure {value : α} {post : α → Prop} (h : post value) :
    Yields (pure value : StateT σ (Except ε) α) post := by
  rintro state _ _ ⟨⟩
  exact h

theorem Yields.bind {x : StateT σ (Except ε) α} {f : α → StateT σ (Except ε) β} {pre : α → Prop}
    {post : β → Prop} (hx : Yields x pre) (hf : ∀ value, pre value → Yields (f value) post) :
    Yields (x >>= f) post := by
  intro state value final h
  rw [StateT.run_bind, bind_eq_ok] at h
  obtain ⟨⟨middle, between⟩, hmiddle, hvalue⟩ := h
  exact hf middle (hx state middle between hmiddle) between value final hvalue

theorem yields_andThen {x : StateT σ (Except ε) α} {f : α → StateT σ (Except ε) β} {post : β → Prop}
    (hf : ∀ value, Yields (f value) post) : Yields (x >>= f) post :=
  (yields_true x).bind fun value _ => hf value

theorem yields_mapM {f : α → StateT σ (Except ε) β} {post : β → Prop} (items : List α)
    (hf : ∀ item, Yields (f item) post) :
    Yields (items.mapM f) fun results => results.length = items.length ∧ ∀ result ∈ results, post result := by
  induction items with
  | nil => exact yields_pure (by simp)
  | cons item items ih =>
      rw [List.mapM_cons]
      refine (hf item).bind fun result hresult => ih.bind fun results hresults => yields_pure ⟨?_, ?_⟩
      · rw [List.length_cons, List.length_cons, hresults.1]
      · rw [List.forall_mem_cons]
        exact ⟨hresult, hresults.2⟩

end MetricBackend
