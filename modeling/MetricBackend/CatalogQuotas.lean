import Mathlib.Data.List.Induction
import MetricBackend.LibRuns
import MetricBackend.FinalizationCounts

/-! The quotas of the implicit catalogs: how many releases are created on account of a project and a receipt
day, and how many environments for a project. The usage row of a project holds one day and its count, and
starts again whenever a release of another day is admitted. -/

namespace MetricBackend

namespace PostgresFinalization

open Finalization

/-! ### What a group does to the catalogs -/

/-- The catalogs after the group of a release: the release is new and no project admits it, the release is
there, or it is created on account of a project and a day. -/
inductive ReleaseChange (limit : Nat) (catalog : Catalog) (group : ReleaseRef × List FinalizeEvent) :
    Catalog → Prop
  | suppressed (hnew : catalog.releases[group.1]? = none) (hfull : admitted catalog.scopes limit group.2 = none) :
      ReleaseChange limit catalog group catalog
  | seen (row next : ReleaseRow) (links : Finset ProjectId) (hrow : catalog.releases[group.1]? = some row) :
      ReleaseChange limit catalog group
        { catalog with
          releases := catalog.releases.insert group.1 next
          releaseProjects := catalog.releaseProjects.insert group.1 links }
  | created (project : ProjectId) (day : Int) (scope : Scope) (next : ReleaseRow)
      (links : Finset ProjectId) (hnew : catalog.releases[group.1]? = none)
      (hadmitted : admitted catalog.scopes limit group.2 = some (project, day))
      (hscope : catalog.scopes[project]? = some scope) :
      ReleaseChange limit catalog group
        { catalog.putUsage project scope (chargedUsage scope.usage day) with
          charges := catalog.charges ++ [(project, day)]
          releases := catalog.releases.insert group.1 next
          releaseProjects := catalog.releaseProjects.insert group.1 links }

theorem orInvalid_eq_ok {α : Type} {stored : Option α} {value : α} :
    orInvalid stored = .ok value ↔ stored = some value := by
  cases stored <;> simp [orInvalid]

section Groups

variable {limit : Nat} {catalog next : Catalog}

theorem linkProjects_eq_ok {ref : ReleaseRef} {projects : Finset ProjectId} :
    linkProjects catalog ref projects = .ok next ↔
      (linkedProjects catalog ref ∪ projects).card ≤ maxReleaseProjects
        ∧ next = { catalog with
          releaseProjects := catalog.releaseProjects.insert ref ((catalog.releaseProjects[ref]?.getD ∅) ∪ projects) } := by
  simp only [linkProjects, bind_eq_ok, failIf_eq_ok, pure_eq_ok, not_lt]
  constructor
  · rintro ⟨-, hcard, rfl⟩
    exact ⟨hcard, rfl⟩
  · rintro ⟨hcard, rfl⟩
    exact ⟨(), hcard, rfl⟩

theorem chargeRelease_eq_ok {charge : Option (ProjectId × Int)} :
    chargeRelease catalog charge = .ok next ↔ ∃ project day scope, charge = some (project, day)
      ∧ catalog.scopes[project]? = some scope ∧ (chargedUsage scope.usage day).releaseCount ≤ i64Max
      ∧ next = { catalog.putUsage project scope (chargedUsage scope.usage day) with
        charges := catalog.charges ++ [(project, day)] } := by
  simp only [chargeRelease, bind_eq_ok, failIf_eq_ok, pure_eq_ok, orInvalid_eq_ok, not_lt]
  constructor
  · rintro ⟨⟨project, day⟩, hcharge, scope, hscope, -, hbound, rfl⟩
    exact ⟨project, day, scope, hcharge, hscope, hbound, rfl⟩
  · rintro ⟨project, day, scope, hcharge, hscope, hbound, rfl⟩
    exact ⟨(project, day), hcharge, scope, hscope, (), hbound, rfl⟩

theorem releaseChange_of_ok {group : ReleaseRef × List FinalizeEvent}
    (h : materializeRelease limit catalog group = .ok next) : ReleaseChange limit catalog group next := by
  simp only [materializeRelease, bind_eq_ok] at h
  obtain ⟨head, -, version, -, -, -, h⟩ := h
  split_ifs at h with hfull
  · cases pure_eq_ok.mp h
    exact .suppressed (Table.not_contains.mp hfull.1) (Option.isNone_iff_eq_none.mp hfull.2)
  · simp only [bind_eq_ok] at h
    obtain ⟨first, -, latest, -, written, hwritten, h⟩ := h
    obtain ⟨-, rfl⟩ := linkProjects_eq_ok.mp h
    rw [writeRelease] at hwritten
    cases hrow : catalog.releases[group.1]? with
    | some row =>
        simp only [hrow, bind_eq_ok, pure_eq_ok] at hwritten
        obtain ⟨-, -, rfl⟩ := hwritten
        exact .seen row _ _ hrow
    | none =>
        simp only [hrow, bind_eq_ok, pure_eq_ok] at hwritten
        obtain ⟨charged, hcharged, rfl⟩ := hwritten
        obtain ⟨project, day, scope, hadmitted, hscope, -, rfl⟩ := chargeRelease_eq_ok.mp hcharged
        exact .created project day scope _ _ hrow hadmitted hscope

/-- The catalogs after the group of an environment: it is new and the project has no room for it, it is there,
or it is created. -/
inductive EnvironmentChange (limit : Nat) (catalog : Catalog) (ref : EnvironmentRef) : Catalog → Prop
  | suppressed : EnvironmentChange limit catalog ref catalog
  | seen (row next : EnvironmentRow) (hrow : catalog.environments[ref]? = some row) :
      EnvironmentChange limit catalog ref { catalog with environments := catalog.environments.insert ref next }
  | created (scope : Scope) (next : EnvironmentRow) (hnew : catalog.environments[ref]? = none)
      (hscope : catalog.scopes[(ofLex ref).1]? = some scope) (hroom : scope.usage.environmentCount < limit) :
      EnvironmentChange limit catalog ref
        ({ catalog with environments := catalog.environments.insert ref next }.putUsage (ofLex ref).1 scope
          { scope.usage with environmentCount := scope.usage.environmentCount + 1 })

theorem environmentChange_of_ok {group : EnvironmentRef × List FinalizeEvent}
    (h : materializeEnvironment limit catalog group = .ok next) : EnvironmentChange limit catalog group.1 next := by
  simp only [materializeEnvironment, bind_eq_ok, orInvalid_eq_ok] at h
  obtain ⟨head, -, name, -, -, -, -, -, scope, hscope, h⟩ := h
  cases hrow : catalog.environments[group.1]? with
  | some row =>
      simp only [hrow, Option.isNone_some, Bool.false_eq_true, false_and, if_false, bind_eq_ok, pure_eq_ok] at h
      obtain ⟨first, -, last, -, rfl⟩ := h
      exact .seen row _ hrow
  | none =>
      simp only [hrow, Option.isNone_none, true_and, if_true] at h
      split_ifs at h with hfull
      · cases pure_eq_ok.mp h
        exact .suppressed
      · simp only [chargeEnvironment, bind_eq_ok, pure_eq_ok] at h
        obtain ⟨first, -, last, -, -, -, rfl⟩ := h
        exact .created scope _ hrow hscope (not_le.mp hfull)

end Groups

/-! ### Usages and scopes -/

/-- A scope in memory shows the usage row of its project. -/
def Agrees (usages : Table ProjectId CatalogUsage) (scopes : Table ProjectId Scope) : Prop :=
  ∀ (project : ProjectId) (scope : Scope), scopes[project]? = some scope → usages[project]? = some scope.usage

theorem Agrees.putUsage {usages : Table ProjectId CatalogUsage} {scopes : Table ProjectId Scope}
    (h : Agrees usages scopes) (project : ProjectId) (scope : Scope) (usage : CatalogUsage) :
    Agrees (usages.insert project usage) (scopes.insert project { scope with usage := usage }) := by
  intro other found hfound
  rw [Table.get_insert] at hfound ⊢
  split_ifs at hfound ⊢ with heq
  · cases hfound
    rfl
  · exact h other found hfound

theorem loadScopes_spec {tables : FinalizationTables} {prepared : Table EventKey Prepared} {project : ProjectId}
    {scope : Scope} (h : (loadScopes tables prepared)[project]? = some scope) :
    ∃ row, tables.projects[project]? = some row
      ∧ scope = ⟨row.organizationId, tables.usages[project]?.getD .defaultValue⟩ := by
  rw [loadScopes] at h
  generalize prepared.toList = entries at h
  induction entries using List.reverseRecOn with
  | nil =>
      rw [List.foldl_nil, Table.get_empty] at h
      cases h
  | append_singleton entries entry ih =>
      rw [List.foldl_append, List.foldl_cons, List.foldl_nil] at h
      split at h
      · rename_i row hrow
        split_ifs at h
        · rw [Table.get_insert] at h
          split_ifs at h with heq
          · cases h
            rw [← heq]
            exact ⟨row, hrow, rfl⟩
          · exact ih h
        · exact ih h
      · exact ih h

theorem ensureUsages_get (usages : Table ProjectId CatalogUsage) (scopes : Table ProjectId Scope)
    (project : ProjectId) : (ensureUsages usages scopes)[project]? =
      if project ∈ scopes.toList.map Prod.fst then some (usages[project]?.getD .defaultValue)
      else usages[project]? := by
  rw [ensureUsages]
  induction scopes.toList generalizing usages with
  | nil => simp
  | cons entry entries ih =>
      have hentry : (if usages.contains entry.1 then usages else usages.insert entry.1 .defaultValue)[project]? =
          if entry.1 = project then some (usages[project]?.getD .defaultValue) else usages[project]? := by
        rw [Std.ExtTreeMap.contains_eq_isSome_getElem?]
        by_cases heq : entry.1 = project
        · subst heq
          cases hget : usages[entry.1]? <;> simp [hget]
        · rw [if_neg heq]
          split_ifs
          · rfl
          · exact Table.get_insert_of_ne _ _ heq
      rw [List.foldl_cons, ih, hentry, List.map_cons]
      by_cases heq : entry.1 = project
      · simp [heq]
      · have hne : ¬ project = entry.1 := Ne.symm heq
        simp only [List.mem_cons, heq, hne, false_or, if_false]

/-- The scopes that a call loads show the usage rows that it makes sure of. -/
theorem agrees_loadScopes (tables : FinalizationTables) (prepared : Table EventKey Prepared) :
    Agrees (ensureUsages tables.usages (loadScopes tables prepared)) (loadScopes tables prepared) := by
  intro project scope hscope
  obtain ⟨row, -, rfl⟩ := loadScopes_spec hscope
  rw [ensureUsages_get, if_pos (List.mem_map.mpr ⟨_, Table.mem_toList.mpr hscope, rfl⟩)]

/-! ### Environments -/

/-- The environments that the usage row of a project counts. -/
def storedEnvironments (usages : Table ProjectId CatalogUsage) (project : ProjectId) : Nat :=
  (usages[project]?.map (·.environmentCount)).getD 0

def ofProject (project : ProjectId) (ref : EnvironmentRef) : Bool := (ofLex ref).1 = project

theorem storedEnvironments_ensureUsages (usages : Table ProjectId CatalogUsage) (scopes : Table ProjectId Scope)
    (project : ProjectId) :
    storedEnvironments (ensureUsages usages scopes) project = storedEnvironments usages project := by
  rw [storedEnvironments, ensureUsages_get, storedEnvironments]
  split_ifs
  · cases usages[project]? <;> rfl
  · rfl

theorem storedEnvironments_insert (usages : Table ProjectId CatalogUsage) (project other : ProjectId)
    (usage : CatalogUsage) : storedEnvironments (usages.insert project usage) other =
      if project = other then usage.environmentCount else storedEnvironments usages other := by
  rw [storedEnvironments, Table.get_insert]
  split_ifs <;> rfl

/-- Every release row is charged once, and a project has as many environments as its usage row says, no more
than the limit. -/
structure Metered (limit : Nat) (usages : Table ProjectId CatalogUsage) (releases : Table ReleaseRef ReleaseRow)
    (environments : Table EnvironmentRef EnvironmentRow) (charges : List (ProjectId × Int)) : Prop where
  rows : releases.countKeys (fun _ => true) = charges.length
  stored : ∀ project, environments.countKeys (ofProject project) = storedEnvironments usages project
  room : ∀ project, storedEnvironments usages project ≤ limit

def Catalog.Metered (limit : Nat) (catalog : Catalog) : Prop :=
  PostgresFinalization.Metered limit catalog.usages catalog.releases catalog.environments catalog.charges
    ∧ Agrees catalog.usages catalog.scopes

theorem ReleaseChange.metered {limit releaseLimit : Nat} {catalog next : Catalog}
    {group : ReleaseRef × List FinalizeEvent} (h : ReleaseChange releaseLimit catalog group next)
    (hmetered : catalog.Metered limit) : next.Metered limit := by
  obtain ⟨⟨hrows, hstored, hroom⟩, hagrees⟩ := hmetered
  cases h with
  | suppressed => exact ⟨⟨hrows, hstored, hroom⟩, hagrees⟩
  | seen row next links hrow =>
      refine ⟨⟨?_, hstored, hroom⟩, hagrees⟩
      rw [Table.countKeys_insert, Std.ExtTreeMap.contains_eq_isSome_getElem?, hrow]
      exact hrows
  | created project day scope next links hnew hadmitted hscope =>
      have hkept : ∀ other, storedEnvironments
          (catalog.usages.insert project (chargedUsage scope.usage day)) other =
            storedEnvironments catalog.usages other := by
        intro other
        rw [storedEnvironments_insert]
        split_ifs with heq
        · rw [storedEnvironments, ← heq, hagrees project scope hscope]
          rfl
        · rfl
      refine ⟨⟨?_, fun other => (hstored other).trans (hkept other).symm,
        fun other => (hkept other).trans_le (hroom other)⟩, hagrees.putUsage project scope _⟩
      rw [Table.countKeys_insert, Std.ExtTreeMap.contains_eq_isSome_getElem?, hnew]
      exact (congrArg (· + 1) hrows).trans (by simp)

theorem EnvironmentChange.metered {limit : Nat} {catalog next : Catalog} {ref : EnvironmentRef}
    (h : EnvironmentChange limit catalog ref next) (hmetered : catalog.Metered limit) : next.Metered limit := by
  obtain ⟨⟨hrows, hstored, hroom⟩, hagrees⟩ := hmetered
  cases h with
  | suppressed => exact ⟨⟨hrows, hstored, hroom⟩, hagrees⟩
  | seen row next hrow =>
      refine ⟨⟨hrows, fun project => ?_, hroom⟩, hagrees⟩
      rw [Table.countKeys_insert, Std.ExtTreeMap.contains_eq_isSome_getElem?, hrow]
      exact hstored project
  | created scope next hnew hscope hless =>
      have hcount : storedEnvironments catalog.usages (ofLex ref).1 = scope.usage.environmentCount := by
        rw [storedEnvironments, hagrees _ scope hscope]
        rfl
      refine ⟨⟨hrows, fun project => ?_, fun project => ?_⟩, hagrees.putUsage _ scope _⟩
      · have hinsert := Table.countKeys_insert catalog.environments ref next (ofProject project)
        rw [Std.ExtTreeMap.contains_eq_isSome_getElem?, hnew, hstored project] at hinsert
        refine hinsert.trans ?_
        rw [Catalog.putUsage, storedEnvironments_insert]
        by_cases heq : (ofLex ref).1 = project
        · simp [heq, ofProject, ← hcount]
        · simp [heq, ofProject]
      · rw [Catalog.putUsage, storedEnvironments_insert]
        split_ifs
        · exact hless
        · exact hroom project

/-! ### Releases -/

/-- A new release is admitted for a day that is not the one of the usage row, and for which the project has
been charged before. -/
def reopens (limit : Nat) (catalog : Catalog) (group : ReleaseRef × List FinalizeEvent) : Bool :=
  !catalog.releases.contains group.1 ∧ (admitted catalog.scopes limit group.2).any fun charge =>
    charge ∈ catalog.charges
      ∧ catalog.scopes[charge.1]?.any fun scope => scope.usage.releaseDay ≠ some charge.2

/-- The usage row of a project counts the charges of its day, and no day has more than the limit. -/
structure Daily (limit : Nat) (usages : Table ProjectId CatalogUsage) (charges : List (ProjectId × Int)) : Prop where
  slot : ∀ (project : ProjectId) (usage : CatalogUsage) (day : Int), usages[project]? = some usage →
    usage.releaseDay = some day → charges.count (project, day) = usage.releaseCount
  bounded : ∀ charge, charges.count charge ≤ limit

theorem Daily.charge {limit : Nat} {usages : Table ProjectId CatalogUsage} {charges : List (ProjectId × Int)}
    (h : Daily limit usages charges) (hlimit : 0 < limit) {project : ProjectId} {day : Int} {usage : CatalogUsage}
    (husage : usages[project]? = some usage) (hadmits : usage.releaseDay ≠ some day ∨ usage.releaseCount < limit)
    (hforward : usage.releaseDay ≠ some day → (project, day) ∉ charges) :
    Daily limit (usages.insert project (chargedUsage usage day)) (charges ++ [(project, day)]) := by
  have hcount : charges.count (project, day) + 1 = (chargedUsage usage day).releaseCount ∧
      charges.count (project, day) < limit := by
    by_cases hday : usage.releaseDay = some day
    · rw [chargedUsage, if_pos hday, h.slot project usage day husage hday]
      exact ⟨rfl, hadmits.resolve_left (not_not.mpr hday)⟩
    · rw [chargedUsage, if_neg hday, List.count_eq_zero.mpr (hforward hday)]
      exact ⟨rfl, hlimit⟩
  refine ⟨fun other stored otherDay hstored hday => ?_, fun charge => ?_⟩
  · rw [Table.get_insert] at hstored
    rw [List.count_append]
    split_ifs at hstored with heq
    · cases hstored
      obtain rfl : day = otherDay := Option.some.inj hday
      rw [← heq, List.count_singleton_self]
      exact hcount.1
    · rw [List.count_singleton, if_neg (by simp [heq]), Nat.add_zero]
      exact h.slot other stored otherDay hstored hday
  · rw [List.count_append]
    by_cases heq : (project, day) = charge
    · rw [← heq, List.count_singleton_self]
      exact hcount.2
    · rw [List.count_singleton, if_neg (by simpa using heq), Nat.add_zero]
      exact h.bounded charge

theorem admitted_spec {scopes : Table ProjectId Scope} {limit : Nat} {events : List FinalizeEvent}
    {charge : ProjectId × Int} {scope : Scope} (h : admitted scopes limit events = some charge)
    (hscope : scopes[charge.1]? = some scope) :
    scope.usage.releaseDay ≠ some charge.2 ∨ scope.usage.releaseCount < limit := by
  have hadmits := List.find?_some h
  rw [admits, hscope] at hadmits
  simpa using hadmits

theorem ReleaseChange.daily {limit : Nat} {catalog next : Catalog} {group : ReleaseRef × List FinalizeEvent}
    (h : ReleaseChange limit catalog group next) (hlimit : 0 < limit)
    (hforward : reopens limit catalog group = false) (hagrees : Agrees catalog.usages catalog.scopes)
    (hdaily : Daily limit catalog.usages catalog.charges) : Daily limit next.usages next.charges := by
  cases h with
  | suppressed => exact hdaily
  | seen => exact hdaily
  | created project day scope next links hnew hadmitted hscope =>
      refine hdaily.charge hlimit (hagrees project scope hscope) (admitted_spec hadmitted hscope) ?_
      intro hday hmem
      have hnot : reopens limit catalog group = true := by
        simp only [reopens, hadmitted, Option.any_some, hscope, decide_eq_true_eq]
        exact ⟨Table.not_contains.mpr hnew, hmem, hday⟩
      rw [hforward] at hnot
      cases hnot

/-! ### Calls -/

/-- The catalogs that a call starts from. -/
def startCatalog (tables : FinalizationTables) (scopes : Table ProjectId Scope) : Catalog where
  usages := ensureUsages tables.usages scopes
  scopes := scopes
  releases := tables.releases
  releaseProjects := tables.releaseProjects
  environments := tables.environments
  charges := tables.charges

/-- The groups of a call do not go back to a day. -/
def staysForward (limit : Nat) : Catalog → List (ReleaseRef × List FinalizeEvent) → Bool
  | _, [] => true
  | catalog, group :: groups =>
      !reopens limit catalog group && match materializeRelease limit catalog group with
        | .ok next => staysForward limit next groups
        | .error _ => true

def forwardCall (env : Environment) (policy : FinalizationPolicy) (tables : FinalizationTables)
    (batch : List FinalizeEvent) : Bool :=
  match prepareAll env policy batch with
  | .error _ => true
  | .ok prepared =>
      let scopes := loadScopes tables prepared
      match lockPending tables prepared scopes with
      | .error _ => true
      | .ok pending =>
          staysForward policy.maxImplicitReleasesPerProjectDay.toNat (startCatalog tables scopes)
            (releaseGroups env scopes pending).toList

/-- A call that commits does not go back to a day. -/
def forwardStep (env : Environment) (tables : FinalizationTables) : FinalizationStep → Bool
  | .finalize policy batch (.committed _) => forwardCall env policy tables batch
  | _ => true

section Calls

variable {limit environmentLimit : Nat} {catalog next : Catalog} {groups : List (ReleaseRef × List FinalizeEvent)}

theorem Catalog.Metered.releases (h : catalog.Metered environmentLimit)
    (hnext : groups.foldlM (materializeRelease limit) catalog = .ok next) : next.Metered environmentLimit :=
  foldlM_ok_induction (Catalog.Metered environmentLimit) groups catalog next hnext h
    fun _ _ _ _ hstate hstep => (releaseChange_of_ok hstep).metered hstate

theorem Catalog.Metered.environments (h : catalog.Metered environmentLimit)
    {groups : List (EnvironmentRef × List FinalizeEvent)}
    (hnext : groups.foldlM (materializeEnvironment environmentLimit) catalog = .ok next) :
    next.Metered environmentLimit :=
  foldlM_ok_induction (Catalog.Metered environmentLimit) groups catalog next hnext h
    fun _ _ _ _ hstate hstep => (environmentChange_of_ok hstep).metered hstate

theorem daily_releases (hlimit : 0 < limit) (hmetered : catalog.Metered environmentLimit)
    (hdaily : Daily limit catalog.usages catalog.charges) (hforward : staysForward limit catalog groups)
    (hnext : groups.foldlM (materializeRelease limit) catalog = .ok next) : Daily limit next.usages next.charges := by
  induction groups generalizing catalog with
  | nil =>
      cases hnext
      exact hdaily
  | cons group groups ih =>
      rw [List.foldlM_cons, bind_eq_ok] at hnext
      obtain ⟨middle, hmiddle, hnext⟩ := hnext
      rw [staysForward, hmiddle, Bool.and_eq_true, Bool.not_eq_true'] at hforward
      have hchange := releaseChange_of_ok hmiddle
      exact ih (hchange.metered hmetered) (hchange.daily hlimit hforward.1 hmetered.2 hdaily) hforward.2 hnext

/-- The charges of releases are not those of environments. -/
theorem Daily.environments {groups : List (EnvironmentRef × List FinalizeEvent)}
    (h : Daily limit catalog.usages catalog.charges) (hmetered : catalog.Metered environmentLimit)
    (hnext : groups.foldlM (materializeEnvironment environmentLimit) catalog = .ok next) :
    Daily limit next.usages next.charges := by
  refine (foldlM_ok_induction (fun catalog => catalog.Metered environmentLimit
    ∧ Daily limit catalog.usages catalog.charges) groups catalog next hnext ⟨hmetered, h⟩ ?_).2
  rintro state group changed - ⟨hstate, hdaily⟩ hstep
  have hchange := environmentChange_of_ok hstep
  refine ⟨hchange.metered hstate, ?_⟩
  cases hchange with
  | suppressed => exact hdaily
  | seen => exact hdaily
  | created scope next hnew hscope hroom =>
      refine ⟨fun project usage day husage hday => ?_, hdaily.bounded⟩
      rw [Catalog.putUsage, Table.get_insert] at husage
      split_ifs at husage with heq
      · cases husage
        exact hdaily.slot project scope.usage day (heq ▸ hstate.2 _ scope hscope) hday
      · exact hdaily.slot project usage day husage hday

theorem finalizePending_catalog {env : Environment} {policy : FinalizationPolicy} {tables result : FinalizationTables}
    {scopes : Table ProjectId Scope} {pending : List Prepared}
    (h : finalizePending env policy tables scopes pending = .ok result) :
    ∃ released catalog, (releaseGroups env scopes pending).toList.foldlM
        (materializeRelease policy.maxImplicitReleasesPerProjectDay.toNat) (startCatalog tables scopes) = .ok released
      ∧ (environmentGroups env pending).toList.foldlM
        (materializeEnvironment policy.maxImplicitEnvironmentsPerProject.toNat) released = .ok catalog
      ∧ result.usages = catalog.usages ∧ result.releases = catalog.releases
      ∧ result.environments = catalog.environments ∧ result.charges = catalog.charges := by
  simp only [finalizePending, materializeReleases, materializeEnvironments, bind_eq_ok, pure_eq_ok] at h
  obtain ⟨issues, -, hourly, -, released, ⟨-, -, hreleased⟩, catalog, hcatalog, -, -, rfl⟩ := h
  exact ⟨released, catalog, hreleased, hcatalog, rfl, rfl, rfl, rfl⟩

end Calls

/-! ### Every run -/

def FinalizationTables.Metered (limit : Nat) (tables : FinalizationTables) : Prop :=
  PostgresFinalization.Metered limit tables.usages tables.releases tables.environments tables.charges

section Runs

variable {env : Environment} {policy : FinalizationPolicy} {tables : FinalizationTables}

theorem metered_start {limit : Nat} (h : FinalizationTables.Metered limit tables)
    (prepared : Table EventKey Prepared) : (startCatalog tables (loadScopes tables prepared)).Metered limit := by
  refine ⟨⟨h.rows, fun project => ?_, fun project => ?_⟩, agrees_loadScopes tables prepared⟩
  · rw [startCatalog, storedEnvironments_ensureUsages]
    exact h.stored project
  · rw [startCatalog, storedEnvironments_ensureUsages]
    exact h.room project

theorem daily_start {limit : Nat} (h : Daily limit tables.usages tables.charges) (scopes : Table ProjectId Scope) :
    Daily limit (startCatalog tables scopes).usages tables.charges := by
  refine ⟨fun project usage day husage hday => ?_, h.bounded⟩
  rw [startCatalog, ensureUsages_get] at husage
  cases hstored : tables.usages[project]? with
  | some stored =>
      rw [hstored] at husage
      obtain rfl : stored = usage := by
        split_ifs at husage <;> exact Option.some.inj husage
      exact h.slot project stored day hstored hday
  | none =>
      rw [hstored] at husage
      split_ifs at husage
      cases husage
      cases hday

/-- The limits of the policy are those of every call. -/
def FinalizationStep.follows (policy : FinalizationPolicy) : FinalizationStep → Prop
  | .finalize used _ _ => used = policy
  | _ => True

theorem metered_step {step : FinalizationStep} (hpolicy : step.follows policy)
    (h : FinalizationTables.Metered policy.maxImplicitEnvironmentsPerProject.toNat tables) :
    FinalizationTables.Metered policy.maxImplicitEnvironmentsPerProject.toNat (executeStep env tables step) := by
  cases step with
  | finalize used batch ending =>
      obtain rfl : used = policy := hpolicy
      obtain heq | ⟨-, prepared, pending, next, hcommitted, heq⟩ := executeStep_finalize env tables used batch ending
      · rw [heq]
        exact h
      · obtain ⟨released, catalog, hreleased, hcatalog, husages, hreleases, henvironments, hcharges⟩ :=
          finalizePending_catalog hcommitted.finalized
        have hmetered := (((metered_start h prepared).releases hreleased).environments hcatalog).1
        rw [heq, FinalizationTables.Metered, husages, hreleases, henvironments, hcharges]
        exact hmetered
  | accept row => exact h
  | fail failure => exact h
  | project projectId row => exact h

theorem daily_step {step : FinalizationStep} (hpolicy : step.follows policy) (hforward : forwardStep env tables step)
    (hmetered : FinalizationTables.Metered policy.maxImplicitEnvironmentsPerProject.toNat tables)
    (h : Daily policy.maxImplicitReleasesPerProjectDay.toNat tables.usages tables.charges) :
    Daily policy.maxImplicitReleasesPerProjectDay.toNat (executeStep env tables step).usages
      (executeStep env tables step).charges := by
  cases step with
  | finalize used batch ending =>
      obtain rfl : used = policy := hpolicy
      obtain heq | ⟨hending, prepared, pending, next, hcommitted, heq⟩ :=
        executeStep_finalize env tables used batch ending
      · rw [heq]
        exact h
      · obtain ⟨released, catalog, hreleased, hcatalog, husages, -, -, hcharges⟩ :=
          finalizePending_catalog hcommitted.finalized
        have hlimit : 0 < used.maxImplicitReleasesPerProjectDay.toNat := by
          have hvalid := failIf_eq_ok.mp hcommitted.validated
          simp only [not_or] at hvalid
          exact Nat.pos_of_ne_zero fun hzero => hvalid.2.2.1 (BitVec.eq_of_toNat_eq hzero)
        have hstays : staysForward used.maxImplicitReleasesPerProjectDay.toNat
            (startCatalog tables (loadScopes tables prepared))
            (releaseGroups env (loadScopes tables prepared) pending).toList := by
          cases ending with
          | aborted => exact absurd rfl hending
          | committed acknowledged =>
              rw [forwardStep, forwardCall, hcommitted.offers] at hforward
              dsimp only at hforward
              rw [hcommitted.locked] at hforward
              exact hforward
        have hstart := metered_start hmetered prepared
        have hdaily := daily_releases hlimit hstart (daily_start h _) hstays hreleased
        rw [heq, husages, hcharges]
        exact hdaily.environments (hstart.releases hreleased) hcatalog
  | accept row => exact h
  | fail failure => exact h
  | project projectId row => exact h

end Runs

/-- From empty catalogs, a project has as many environments as its usage row says, within the limit, and every
release row is charged to one project and day; while no call goes back to a day that a project has been charged
for, the charges of a day are within the limit. -/
theorem catalog_quotas (env : Environment) (policy : FinalizationPolicy) (tables : FinalizationTables)
    (husages : ∀ project : ProjectId, tables.usages[project]? = none)
    (hreleases : ∀ ref : ReleaseRef, tables.releases[ref]? = none)
    (henvironments : ∀ ref : EnvironmentRef, tables.environments[ref]? = none) (hcharges : tables.charges = [])
    (steps : List FinalizationStep) (hpolicy : ∀ step ∈ steps, step.follows policy) :
    Always (executeStep env) (fun state => state.releases.countKeys (fun _ => true) = state.charges.length
      ∧ ∀ project, state.environments.countKeys (ofProject project) = storedEnvironments state.usages project
        ∧ storedEnvironments state.usages project ≤ policy.maxImplicitEnvironmentsPerProject.toNat) tables steps
    ∧ (Throughout (executeStep env) (fun state step => forwardStep env state step) tables steps →
      Always (executeStep env) (fun state => ∀ project day,
        state.charges.count (project, day) ≤ policy.maxImplicitReleasesPerProjectDay.toNat) tables steps) := by
  have hmetered : FinalizationTables.Metered policy.maxImplicitEnvironmentsPerProject.toNat tables := by
    have hzero : ∀ project, storedEnvironments tables.usages project = 0 := by
      intro project
      rw [storedEnvironments, husages project]
      rfl
    refine ⟨?_, fun project => ?_, fun project => ?_⟩
    · rw [Table.countKeys_of_none hreleases, hcharges]
      rfl
    · rw [Table.countKeys_of_none henvironments, hzero project]
    · rw [hzero project]
      exact Nat.zero_le _
  have hdaily : Daily policy.maxImplicitReleasesPerProjectDay.toNat tables.usages tables.charges := by
    refine ⟨fun project usage day husage => ?_, fun charge => ?_⟩
    · rw [husages project] at husage
      cases husage
    · rw [hcharges]
      exact Nat.zero_le _
  have htrue : Throughout (executeStep env) (fun _ _ => True) tables steps :=
    throughout_of_forall (fun _ _ => trivial) tables steps
  refine ⟨?_, fun hforward => ?_⟩
  · refine always_of_throughout (fun state hstate => ⟨hstate.rows, fun project => ⟨hstate.stored project,
      hstate.room project⟩⟩) ?_ steps tables hmetered (htrue.and_forall hpolicy)
    exact fun state step hstate hstep => metered_step hstep.1 hstate
  · have hkept : ∀ state step, (FinalizationTables.Metered policy.maxImplicitEnvironmentsPerProject.toNat state
        ∧ Daily policy.maxImplicitReleasesPerProjectDay.toNat state.usages state.charges) →
        (step.follows policy ∧ forwardStep env state step) →
          FinalizationTables.Metered policy.maxImplicitEnvironmentsPerProject.toNat (executeStep env state step)
            ∧ Daily policy.maxImplicitReleasesPerProjectDay.toNat (executeStep env state step).usages
              (executeStep env state step).charges :=
      fun state step hstate hstep =>
        ⟨metered_step hstep.1 hstate.1, daily_step hstep.1 hstep.2 hstate.1 hstate.2⟩
    exact always_of_throughout (fun state hstate project day => hstate.2.bounded (project, day)) hkept steps tables
      ⟨hmetered, hdaily⟩ (hforward.and_forall hpolicy)

def dailyPolicy : FinalizationPolicy := { quotaPolicy with maxImplicitReleasesPerProjectDay := 1 }

/-- An Event of a release, received when it occurred. -/
def releasedEvent (eventId : BitVec 128) (time : Timestamp) (release : IssueRelease) : FinalizeEvent :=
  { quotaEvent with
    eventId := ⟨eventId⟩
    receivedAt := time
    occurredAt := time
    issue := { PostgresIssues.quotaOccurrence eventId time with release := some release }
    environment := some "qa".toList }

/-- The Event is accepted and finalized. -/
def finalizeOne (event : FinalizeEvent) : List FinalizationStep :=
  [.accept { quotaRow with eventId := event.eventId, receivedAt := event.receivedAt },
    .finalize dailyPolicy [event] (.committed true)]

/-- A release of the first day and one of the next. -/
theorem valid_firstRelease : "a".toList ≠ [] ∧ byteLength "a".toList ≤ maxIssueReleaseBytes := by decide

def forwardSteps : List FinalizationStep :=
  finalizeOne (releasedEvent 3 ⟨1000, inRange_second⟩ ⟨"a".toList, valid_firstRelease⟩)
    ++ finalizeOne (releasedEvent 4 ⟨86401000, by decide⟩ ⟨"b".toList, by decide⟩)

/-- An Event of the first day that is finalized late. -/
def lateSteps : List FinalizationStep :=
  forwardSteps ++ finalizeOne (releasedEvent 5 ⟨2000, inRange_nextSecond⟩ ⟨"c".toList, by decide⟩)

theorem catalog_quotas_two_days :
    (forwardSteps.foldl (executeStep quotaEnvironment) quotaTables).charges.count (⟨1, by decide⟩, 0) ≤ 1
      ∧ (forwardSteps.foldl (executeStep quotaEnvironment) quotaTables).charges.length = 2
      ∧ (forwardSteps.foldl (executeStep quotaEnvironment) quotaTables).environments.countKeys
        (ofProject ⟨1, by decide⟩) = 1 := by
  obtain ⟨hstored, hdays⟩ := catalog_quotas quotaEnvironment dailyPolicy quotaTables
    (fun _ => by simp [quotaTables]) (fun _ => by simp [quotaTables]) (fun _ => by simp [quotaTables]) rfl
    forwardSteps (by simp [forwardSteps, finalizeOne, FinalizationStep.follows])
  have hdays := (hdays (by decide +kernel)).last ⟨1, by decide⟩ 0
  obtain ⟨hrows, hcounts⟩ := hstored.last
  refine ⟨hdays, by decide +kernel, (hcounts _).1.trans ?_⟩
  decide +kernel

/-- Two releases are created on account of one project and one day, where the limit is one. -/
theorem late_release_uncounted :
    (∀ step ∈ lateSteps, step.follows dailyPolicy) ∧ dailyPolicy.maxImplicitReleasesPerProjectDay.toNat = 1
      ∧ (lateSteps.foldl (executeStep quotaEnvironment) quotaTables).charges.count (⟨1, by decide⟩, 0) = 2
      ∧ (lateSteps.foldl (executeStep quotaEnvironment) quotaTables).releases.countKeys (fun _ => true) = 3 := by
  refine ⟨by simp [lateSteps, forwardSteps, finalizeOne, FinalizationStep.follows], rfl, ?_, ?_⟩
  · decide +kernel
  · decide +kernel

end PostgresFinalization

end MetricBackend
