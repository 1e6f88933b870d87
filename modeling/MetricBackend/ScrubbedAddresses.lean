import MetricBackend.EventScrubber

/-! What the scrubber leaves below the names of addresses. An object or array there is kept as it came or removed
whole, so a result is free of secrets exactly when the addresses of the original are. -/

namespace MetricBackend

namespace EventScrubber

/-! ### Places -/

/-- A value and the key that it stands under. -/
abbrev JsonEntry : Type := Option Text × JsonValue

def children : JsonValue → List JsonEntry
  | .object fields => fields.map fun entry => (some entry.1, entry.2)
  | .array items => items.map fun item => (none, item)
  | _ => []

/-- What stands at a place of an entry, below every key. -/
def locate : List Nat → JsonEntry → Option JsonEntry
  | [], entry => some entry
  | position :: path, entry => (children entry.2)[position]?.bind (locate path)

section Places

variable {entry child : JsonEntry} {field : Option Text} {value : JsonValue}

theorem locate_append (path below : List Nat) (entry : JsonEntry) :
    locate (path ++ below) entry = (locate path entry).bind (locate below) := by
  induction path generalizing entry with
  | nil => rfl
  | cons position path ih =>
      rw [List.cons_append, locate, locate]
      cases (children entry.2)[position]? with
      | none => rfl
      | some child => exact ih child

theorem locate_leaf (h : children value = []) {path : List Nat} (hentry : locate path (field, value) = some entry) :
    path = [] ∧ entry = (field, value) := by
  cases path with
  | nil => exact ⟨rfl, (Option.some.inj hentry).symm⟩
  | cons position path =>
      rw [locate, h] at hentry
      cases hentry

theorem children_plain (h : Plain value) : children value = [] := by
  cases h <;> rfl

/-- The text stands somewhere in the value. -/
def ContainsText (value : JsonValue) (text : Text) : Prop :=
  ∃ path field, locate path (none, value) = some (field, .string text)

theorem containsText_string {ip text : Text} : ContainsText (.string ip) text ↔ text = ip := by
  constructor
  · rintro ⟨path, field, hlocate⟩
    obtain ⟨-, hentry⟩ := locate_leaf rfl hlocate
    cases hentry
    rfl
  · rintro rfl
    exact ⟨[], none, rfl⟩

end Places

/-! ### The claim at a place -/

/-- What a result has to be at a place: nothing sensitive, and no address that is removed. -/
structure PlaceScrubbed (policy : ScrubPolicy) (entry : JsonEntry) : Prop where
  sensitive : entry.1.any isSensitiveField = true → entry.2 = .string filtered
  clean : ∀ text, entry.2 = .string text → Clean text
  removed : entry.1.any isIpField = true → policy.ipPolicy = .remove → entry.2 = .null

/-- No text of an address stands in its result. -/
def AddressHidden (policy : ScrubPolicy) (original entry : JsonEntry) : Prop :=
  entry.1.any isIpField = true → policy.ipPolicy ≠ .keep →
    ∀ text, ContainsText original.2 text → ¬ ContainsText entry.2 text

/-- What a result has to be at every place, with the original beside it. -/
structure HiddenThroughout (policy : ScrubPolicy) (original result : JsonEntry) : Prop where
  places : ∀ path entry, locate path result = some entry → PlaceScrubbed policy entry
  addresses : ∀ path before entry, locate path original = some before → locate path result = some entry →
    AddressHidden policy before entry

/-- A result without secrets, that is otherwise the original and stays as it is in another pass. -/
structure ScrubbedEverywhere (hmacSha256 : List (BitVec 8) → List (BitVec 8) → Option (List (BitVec 8)))
    (parseUrl : Text → Option Url) (policy : ScrubPolicy) (value result : JsonValue) : Prop where
  hidden : HiddenThroughout policy (none, value) (none, result)
  unchanged : Scrubbed hmacSha256 parseUrl policy none value result
  again : ∀ key, scrubValue hmacSha256 parseUrl ⟨.keep, key⟩ none 0 result = .ok result

/-! ### The condition on the original -/

/-- The values under the name of an address that the scrubber comes to: no other such name and no sensitive one
stands above it. -/
inductive Reached : JsonEntry → JsonValue → Prop
  | here {field : Option Text} {value : JsonValue} (h : field.any isIpField = true) : Reached (field, value) value
  | inside {entry child : JsonEntry} {value : JsonValue} (hsensitive : entry.1.any isSensitiveField = false)
      (hip : entry.1.any isIpField = false) (hchild : child ∈ children entry.2) (h : Reached child value) :
      Reached entry value

/-- Neither a text nor a sensitive field stands in the value. -/
def Harmless (value : JsonValue) : Prop :=
  ∀ path entry, locate path (none, value) = some entry →
    entry.1.any isSensitiveField = false ∧ ∀ text, entry.2 ≠ .string text

/-- An address that the policy can hide: a text with another form, or a value in which there is nothing to hide. One
that is kept has to be scrubbed already. -/
def Hideable (hmacSha256 : List (BitVec 8) → List (BitVec 8) → Option (List (BitVec 8))) (policy : ScrubPolicy)
    (value : JsonValue) : Prop :=
  match policy.ipPolicy, value with
  | .remove, _ => True
  | .keep, value => ∀ path entry, locate path (none, value) = some entry →
      (entry.1.any isSensitiveField = true → entry.2 = .string filtered) ∧ ∀ text, entry.2 = .string text → Clean text
  | .truncate, .string ip => truncateIp ip ≠ ip
  | .hmac, .string ip => ∀ digest, hmacSha256 policy.hmacKey (utf8Bytes ip) = some digest → keyedForm digest ≠ ip
  | _, value => Harmless value

/-! ### One entry -/

section Entries

variable {hmacSha256 : List (BitVec 8) → List (BitVec 8) → Option (List (BitVec 8))}
  {parseUrl : Text → Option Url} {policy : ScrubPolicy} {field : Option Text} {value result : JsonValue}

theorem hiddenThroughout_leaf (h : children result = []) :
    HiddenThroughout policy (field, value) (field, result)
      ↔ PlaceScrubbed policy (field, result) ∧ AddressHidden policy (field, value) (field, result) := by
  constructor
  · exact fun hidden => ⟨hidden.places [] _ rfl, hidden.addresses [] _ _ rfl rfl⟩
  · rintro ⟨hplace, haddress⟩
    refine ⟨fun path entry hentry => ?_, fun path before entry hbefore hentry => ?_⟩
    · obtain ⟨-, rfl⟩ := locate_leaf h hentry
      exact hplace
    · obtain ⟨rfl, rfl⟩ := locate_leaf h hentry
      cases hbefore
      exact haddress

/-- Below a name that decides nothing, the children decide. -/
theorem hiddenThroughout_children {original entry : JsonEntry} (hplace : PlaceScrubbed policy entry)
    (hip : entry.1.any isIpField = false) {condition : JsonEntry → Prop}
    (h : List.Forall₂ (fun before after => HiddenThroughout policy before after ↔ condition before)
      (children original.2) (children entry.2)) :
    HiddenThroughout policy original entry ↔ ∀ before ∈ children original.2, condition before := by
  obtain ⟨hlength, hpairs⟩ := List.forall₂_iff_get.mp h
  constructor
  · intro hidden before hbefore
    obtain ⟨position, hposition, rfl⟩ := List.mem_iff_getElem.mp hbefore
    have hafter : position < (children entry.2).length := hlength ▸ hposition
    have hstep : ∀ path, locate (position :: path) original = locate path (children original.2)[position]
        ∧ locate (position :: path) entry = locate path (children entry.2)[position] := by
      intro path
      rw [locate, locate, List.getElem?_eq_getElem hposition, List.getElem?_eq_getElem hafter]
      exact ⟨rfl, rfl⟩
    refine (hpairs position hposition hafter).mp ⟨fun path inner hinner => ?_, fun path other inner hother hinner => ?_⟩
    · exact hidden.places (position :: path) inner ((hstep path).2.trans hinner)
    · exact hidden.addresses (position :: path) other inner ((hstep path).1.trans hother) ((hstep path).2.trans hinner)
  · intro hcondition
    have hchild : ∀ (position : Nat) (before after : JsonEntry), (children original.2)[position]? = some before →
        (children entry.2)[position]? = some after → HiddenThroughout policy before after := by
      intro position before after hbefore hafter
      obtain ⟨hposition, rfl⟩ := List.getElem?_eq_some_iff.mp hbefore
      obtain ⟨hposition', rfl⟩ := List.getElem?_eq_some_iff.mp hafter
      exact (hpairs position hposition hposition').mpr (hcondition _ (List.getElem_mem hposition))
    refine ⟨fun path inner hinner => ?_, fun path other inner hother hinner => ?_⟩
    · cases path with
      | nil =>
          cases hinner
          exact hplace
      | cons position path =>
          obtain ⟨after, hafter, hinner⟩ := Option.bind_eq_some_iff.mp hinner
          obtain ⟨hposition, -⟩ := List.getElem?_eq_some_iff.mp hafter
          have hbefore := List.getElem?_eq_getElem (hlength ▸ hposition : position < (children original.2).length)
          exact (hchild position _ _ hbefore hafter).places path inner hinner
    · cases path with
      | nil =>
          cases hinner
          exact fun hname => absurd hname (Bool.eq_false_iff.mp hip)
      | cons position path =>
          obtain ⟨before, hbefore, hother⟩ := Option.bind_eq_some_iff.mp hother
          obtain ⟨after, hafter, hinner⟩ := Option.bind_eq_some_iff.mp hinner
          exact (hchild position before after hbefore hafter).addresses path other inner hother hinner

/-- A value that stays as it came under a policy that hides addresses. -/
theorem hiddenThroughout_untouched (hip : field.any isIpField = true)
    (hpolicy : policy.ipPolicy = .truncate ∨ policy.ipPolicy = .hmac) :
    HiddenThroughout policy (field, value) (field, value) ↔ Harmless value := by
  have hkeep : policy.ipPolicy ≠ .keep := by
    rintro heq
    rw [heq] at hpolicy
    rcases hpolicy with h | h <;> cases h
  have hremove : policy.ipPolicy ≠ .remove := by
    rintro heq
    rw [heq] at hpolicy
    rcases hpolicy with h | h <;> cases h
  constructor
  · intro hidden path entry hentry
    have htext : ∀ text, entry.2 ≠ .string text := by
      intro text htext
      have hcontains : ContainsText value text := ⟨path, entry.1, hentry.trans (congrArg some (Prod.ext rfl htext))⟩
      exact hidden.addresses [] _ _ rfl rfl hip hkeep text hcontains hcontains
    refine ⟨Bool.eq_false_iff.mpr fun hsensitive => ?_, htext⟩
    cases path with
    | nil =>
        cases hentry
        cases hsensitive
    | cons position path => exact htext filtered ((hidden.places (position :: path) entry hentry).sensitive hsensitive)
  · intro hharmless
    have hplace : ∀ path entry, locate path (field, value) = some entry →
        entry.1.any isSensitiveField = false ∧ ∀ text, entry.2 ≠ .string text := by
      intro path entry hentry
      cases path with
      | nil =>
          cases hentry
          refine ⟨Bool.eq_false_iff.mpr fun hsensitive => ?_, (hharmless [] _ rfl).2⟩
          exact absurd hip (Bool.eq_false_iff.mp (isIpField_of_sensitive hsensitive))
      | cons position path => exact hharmless (position :: path) entry hentry
    refine ⟨fun path entry hentry => ?_, fun path before entry hbefore _ _ _ text htext _ => ?_⟩
    · obtain ⟨hsensitive, htext⟩ := hplace path entry hentry
      exact ⟨fun h => absurd h (Bool.eq_false_iff.mp hsensitive), fun text h => absurd h (htext text),
        fun _ h => absurd h hremove⟩
    · obtain ⟨below, name, hbelow⟩ := htext
      cases below with
      | nil =>
          exact (hplace path before hbefore).2 text (congrArg Prod.snd (Option.some.inj hbelow))
      | cons position below =>
          have hinner : locate (path ++ position :: below) (field, value) = some (name, .string text) := by
            rw [locate_append, hbefore]
            exact hbelow
          exact (hplace _ _ hinner).2 text rfl

/-- A text in place of an address. -/
theorem hiddenThroughout_form {ip form : Text} (hip : field.any isIpField = true) (hkeep : policy.ipPolicy ≠ .keep)
    (hremove : policy.ipPolicy ≠ .remove) (hclean : Clean form) :
    HiddenThroughout policy (field, .string ip) (field, .string form) ↔ form ≠ ip := by
  rw [hiddenThroughout_leaf rfl]
  constructor
  · rintro ⟨-, haddress⟩ rfl
    exact haddress hip hkeep form (containsText_string.mpr rfl) (containsText_string.mpr rfl)
  · intro hne
    refine ⟨⟨fun hsensitive => ?_, fun text htext => JsonValue.string.inj htext ▸ hclean, fun _ h => absurd h hremove⟩,
      fun _ _ text hbefore hafter => ?_⟩
    · exact absurd hip (Bool.eq_false_iff.mp (isIpField_of_sensitive hsensitive))
    · rw [containsText_string] at hbefore hafter
      exact hne (hafter.symm.trans hbefore)

/-- An address that is kept is free of secrets when it was before. -/
theorem hiddenThroughout_kept (hname : ¬ field.any isSensitiveField = true) (hpolicy : policy.ipPolicy = .keep) :
    HiddenThroughout policy (field, value) (field, value) ↔ Hideable hmacSha256 policy value := by
  have hremove : policy.ipPolicy ≠ .remove := by simp [hpolicy]
  unfold Hideable
  rw [hpolicy]
  constructor
  · intro hidden path entry hentry
    cases path with
    | nil =>
        cases hentry
        exact ⟨fun h => (Bool.false_ne_true h).elim, (hidden.places [] _ rfl).clean⟩
    | cons position path =>
        have hplace := hidden.places (position :: path) entry hentry
        exact ⟨hplace.sensitive, hplace.clean⟩
  · intro hclean
    refine ⟨fun path entry hentry => ?_, fun _ _ _ _ _ _ hkeep => absurd hpolicy hkeep⟩
    cases path with
    | nil =>
        cases hentry
        exact ⟨fun h => absurd h hname, (hclean [] _ rfl).2, fun _ h => absurd h hremove⟩
    | cons position path =>
        obtain ⟨hsensitive, htext⟩ := hclean (position :: path) entry hentry
        exact ⟨hsensitive, htext, fun _ h => absurd h hremove⟩

/-- What a policy leaves of an address has no secret where the address is one that it can hide. -/
theorem hiddenThroughout_address (hip : field.any isIpField = true)
    (h : scrubIp hmacSha256 policy value = .ok result) :
    HiddenThroughout policy (field, value) (field, result) ↔ Hideable hmacSha256 policy value := by
  have hname : ¬ field.any isSensitiveField = true :=
    fun hsensitive => absurd hip (Bool.eq_false_iff.mp (isIpField_of_sensitive hsensitive))
  unfold scrubIp at h
  cases hpolicy : policy.ipPolicy with
  | keep =>
      rw [hpolicy] at h
      obtain rfl := Except.ok.inj h
      exact hiddenThroughout_kept hname hpolicy
  | remove =>
      rw [hpolicy] at h
      obtain rfl := Except.ok.inj h
      have hideable : Hideable hmacSha256 policy value := by
        unfold Hideable
        rw [hpolicy]
        trivial
      rw [hiddenThroughout_leaf rfl]
      refine iff_of_true ⟨⟨fun h => absurd h hname, fun _ h => (by cases h), fun _ _ => rfl⟩, ?_⟩ hideable
      rintro - - text - ⟨path, name, hlocate⟩
      obtain ⟨-, hentry⟩ := locate_leaf rfl hlocate
      cases hentry
  | truncate =>
      rw [hpolicy] at h
      have hkeep : policy.ipPolicy ≠ .keep := by simp [hpolicy]
      have hremove : policy.ipPolicy ≠ .remove := by simp [hpolicy]
      unfold Hideable
      rw [hpolicy]
      cases value with
      | string ip =>
          obtain rfl := Except.ok.inj h
          exact hiddenThroughout_form hip hkeep hremove (clean_truncateIp ip)
      | _ =>
          obtain rfl := Except.ok.inj h
          exact hiddenThroughout_untouched hip (.inl hpolicy)
  | hmac =>
      rw [hpolicy] at h
      have hkeep : policy.ipPolicy ≠ .keep := by simp [hpolicy]
      have hremove : policy.ipPolicy ≠ .remove := by simp [hpolicy]
      unfold Hideable
      rw [hpolicy]
      cases value with
      | string ip =>
          dsimp only at h ⊢
          cases hdigest : hmacSha256 policy.hmacKey (utf8Bytes ip) with
          | none =>
              rw [hdigest] at h
              cases h
          | some digest =>
              rw [hdigest] at h
              obtain rfl := Except.ok.inj h
              have hform : ∀ form : List (BitVec 8), some digest = some form → digest = form :=
                fun _ heq => Option.some.inj heq
              show HiddenThroughout policy _ (field, .string (keyedForm digest)) ↔ _
              rw [hiddenThroughout_form hip hkeep hremove (clean_keyedForm digest)]
              exact ⟨fun hne form heq => hform form heq ▸ hne, fun hall => hall digest rfl⟩
      | _ =>
          obtain rfl := Except.ok.inj h
          exact hiddenThroughout_untouched hip (.inr hpolicy)

theorem reached_iff {entry : JsonEntry} (hsensitive : entry.1.any isSensitiveField = false)
    (hip : entry.1.any isIpField = false) {address : JsonValue} :
    Reached entry address ↔ ∃ child ∈ children entry.2, Reached child address := by
  constructor
  · intro h
    cases h with
    | here h => exact absurd h (Bool.eq_false_iff.mp hip)
    | inside _ _ hchild h => exact ⟨_, hchild, h⟩
  · rintro ⟨child, hchild, h⟩
    exact .inside hsensitive hip hchild h

/-- A leaf that no name decides about has no secret and reaches no address. -/
theorem hiddenThroughout_scalar (hsensitive : field.any isSensitiveField = false)
    (hip : field.any isIpField = false) (hvalue : children value = []) (hresult : children result = [])
    (hclean : ∀ text, result = .string text → Clean text) :
    HiddenThroughout policy (field, value) (field, result)
      ↔ ∀ address, Reached (field, value) address → Hideable hmacSha256 policy address := by
  rw [hiddenThroughout_leaf hresult]
  refine iff_of_true ⟨⟨fun h => absurd h (Bool.eq_false_iff.mp hsensitive), hclean,
    fun h => absurd h (Bool.eq_false_iff.mp hip)⟩, fun h => absurd h (Bool.eq_false_iff.mp hip)⟩ ?_
  intro address haddress
  rw [reached_iff hsensitive hip, hvalue] at haddress
  obtain ⟨child, hchild, -⟩ := haddress
  exact absurd hchild List.not_mem_nil

/-- A container under a name that decides nothing. -/
theorem hiddenThroughout_inside (hsensitive : field.any isSensitiveField = false)
    (hip : field.any isIpField = false) (htext : ∀ text, result ≠ .string text)
    (hpairs : List.Forall₂ (fun before after => HiddenThroughout policy before after
      ↔ ∀ address, Reached before address → Hideable hmacSha256 policy address) (children value) (children result)) :
    HiddenThroughout policy (field, value) (field, result)
      ↔ ∀ address, Reached (field, value) address → Hideable hmacSha256 policy address := by
  have hplace : PlaceScrubbed policy (field, result) :=
    ⟨fun h => absurd h (Bool.eq_false_iff.mp hsensitive), fun text h => absurd h (htext text),
      fun h => absurd h (Bool.eq_false_iff.mp hip)⟩
  rw [hiddenThroughout_children hplace hip hpairs]
  constructor
  · intro hall address haddress
    obtain ⟨child, hchild, haddress⟩ := (reached_iff hsensitive hip).mp haddress
    exact hall child hchild address haddress
  · intro hall child hchild address haddress
    exact hall address ((reached_iff hsensitive hip).mpr ⟨child, hchild, haddress⟩)

/-- The result of an entry has no secret at any place, where every address below the entry can be hidden, and only
there. -/
theorem hiddenThroughout_iff {depth : Nat}
    (h : scrubValue hmacSha256 parseUrl policy field depth value = .ok result) :
    HiddenThroughout policy (field, value) (field, result)
      ↔ ∀ address, Reached (field, value) address → Hideable hmacSha256 policy address := by
  let Exact : Nat → Option Text → JsonValue → JsonValue → Prop := fun _ field value result =>
    HiddenThroughout policy (field, value) (field, result)
      ↔ ∀ address, Reached (field, value) address → Hideable hmacSha256 policy address
  have hexact : Exact depth field value result := by
    refine scrubValue_induction ?_ ?_ ?_ ?_ ?_ ?_ h
    · intro _ field value _ hsensitive
      have hip := isIpField_of_sensitive hsensitive
      show HiddenThroughout policy (field, value) (field, .string filtered) ↔ _
      rw [hiddenThroughout_leaf rfl]
      refine iff_of_true ⟨⟨fun _ => rfl, fun text htext => JsonValue.string.inj htext ▸ clean_filtered,
        fun h => absurd h (Bool.eq_false_iff.mp hip)⟩, fun h => absurd h (Bool.eq_false_iff.mp hip)⟩ ?_
      intro address haddress
      cases haddress with
      | here h => exact absurd h (Bool.eq_false_iff.mp hip)
      | inside hname => exact absurd hsensitive (Bool.eq_false_iff.mp hname)
    · intro _ field value result _ _ hip hresult
      show HiddenThroughout policy (field, value) (field, result) ↔ _
      rw [hiddenThroughout_address hip hresult]
      constructor
      · intro hideable address haddress
        cases haddress with
        | here => exact hideable
        | inside _ hname => exact absurd hip (Bool.eq_false_iff.mp hname)
      · exact fun hall => hall value (.here hip)
    · intro _ field value _ hsensitive hip hplain
      exact hiddenThroughout_scalar hsensitive hip (children_plain hplain) (children_plain hplain)
        (by cases hplain <;> exact fun _ heq => by cases heq)
    · intro _ field text _ hsensitive hip
      exact hiddenThroughout_scalar hsensitive hip rfl rfl
        fun other heq => JsonValue.string.inj heq ▸ clean_scrubString parseUrl text
    · intro _ field items results _ hsensitive hip hitems
      refine hiddenThroughout_inside hsensitive hip (fun _ heq => by cases heq) ?_
      rw [children, children, List.forall₂_map_left_iff, List.forall₂_map_right_iff]
      exact hitems
    · intro _ field fields results _ hsensitive hip hfields
      refine hiddenThroughout_inside hsensitive hip (fun _ heq => by cases heq) ?_
      rw [children, children, List.forall₂_map_left_iff, List.forall₂_map_right_iff]
      refine hfields.imp fun entry result hentry => ?_
      rw [hentry.1]
      exact hentry.2
  exact hexact

end Entries

/-- The result of the scrubber. Outside the values of addresses no secret is left, whatever the policy; nowhere is one
left exactly when the policy can hide every address that the scrubber comes to. -/
theorem scrub_complete_iff (hmacSha256 : List (BitVec 8) → List (BitVec 8) → Option (List (BitVec 8)))
    (parseUrl : Text → Option Url) (hurl : ∀ text, parseUrl ('[' :: text) = none) (policy : ScrubPolicy)
    {value result : JsonValue} (h : scrubValue hmacSha256 parseUrl policy none 0 value = .ok result) :
    (∀ entry ∈ entries none result, EntryScrubbed policy entry)
      ∧ (ScrubbedEverywhere hmacSha256 parseUrl policy value result
        ↔ ∀ address, Reached (none, value) address → Hideable hmacSha256 policy address) := by
  obtain ⟨hentries, hunchanged, hagain⟩ := scrub_complete hmacSha256 parseUrl hurl policy h
  refine ⟨hentries, fun everywhere => (hiddenThroughout_iff h).mp everywhere.hidden, fun hideable => ?_⟩
  exact ⟨(hiddenThroughout_iff h).mpr hideable, hunchanged, hagain⟩

/-- Credentials in the places where clients put them, and an address. -/
def sampleEvent : JsonValue :=
  .object [("request".toList, .object [("Set-Cookie".toList, .array [.string "id=1".toList]),
      ("auth".toList, .string "Bearer abc".toList)]), ("ip".toList, .string "10.1.2.3".toList)]

/-- What the scrubber makes of it where addresses are removed. -/
def scrubbedSample : JsonValue :=
  .object [("request".toList, .object [("Set-Cookie".toList, .string filtered), ("auth".toList, .string filtered)]),
    ("ip".toList, .null)]

theorem scrub_complete_iff_sample :
    scrubValue (fun _ _ => none) (fun _ => none) ⟨.remove, []⟩ none 0 sampleEvent = .ok scrubbedSample
      ∧ (∀ entry ∈ entries none scrubbedSample, EntryScrubbed ⟨.remove, []⟩ entry)
      ∧ ScrubbedEverywhere (fun _ _ => none) (fun _ => none) ⟨.remove, []⟩ sampleEvent scrubbedSample := by
  have hscrub : scrubValue (fun _ _ => none) (fun _ => none) ⟨.remove, []⟩ none 0 sampleEvent = .ok scrubbedSample := by
    rfl
  obtain ⟨hentries, heverywhere⟩ := scrub_complete_iff _ _ (fun _ => rfl) _ hscrub
  exact ⟨hscrub, hentries, heverywhere.mpr fun _ _ => trivial⟩

/-- An object with a password under the name of an address. -/
def addressWithPassword : JsonValue :=
  .object [("ip".toList, .object [("password".toList, .string "hunter2".toList)])]

/-- The password is stored as it came. -/
theorem scrub_keeps_under_address :
    scrubValue (fun _ _ => none) (fun _ => none) ⟨.hmac, []⟩ none 0 addressWithPassword = .ok addressWithPassword
      ∧ locate [0, 0] (none, addressWithPassword) = some (some "password".toList, .string "hunter2".toList)
      ∧ isSensitiveField "password".toList = true
      ∧ ¬ ScrubbedEverywhere (fun _ _ => none) (fun _ => none) ⟨.hmac, []⟩ addressWithPassword addressWithPassword := by
  have hsensitive : isSensitiveField "password".toList = true := by decide
  refine ⟨rfl, rfl, hsensitive, fun everywhere => ?_⟩
  have hfiltered := (everywhere.hidden.places [0, 0] (some "password".toList, .string "hunter2".toList) rfl).sensitive
    hsensitive
  exact absurd (JsonValue.string.inj hfiltered) (by decide)

end EventScrubber

end MetricBackend
