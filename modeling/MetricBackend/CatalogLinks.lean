import MetricBackend.CatalogQuotas

/-! When the catalogs let a batch be finalized. The quotas of releases and environments leave an entry out, but
a release that would be linked to too many projects ends the whole call. -/

namespace MetricBackend

namespace PostgresFinalization

open Finalization

/-! ### The condition -/

/-- The release of the group is written: it is there, or one of the projects admits it. -/
def takes (limit : Nat) (releases : Table ReleaseRef ReleaseRow) (scopes : Table ProjectId Scope)
    (group : ReleaseRef × List FinalizeEvent) : Bool :=
  releases.contains group.1 ∨ (admitted scopes limit group.2).isSome

/-- What the group uses up of the quotas. -/
def spend (limit : Nat) (releases : Table ReleaseRef ReleaseRow) (scopes : Table ProjectId Scope)
    (group : ReleaseRef × List FinalizeEvent) : Table ProjectId Scope :=
  if releases.contains group.1 then scopes
  else
    match admitted scopes limit group.2 with
    | none => scopes
    | some (project, day) =>
        match scopes[project]? with
        | none => scopes
        | some scope => scopes.insert project { scope with usage := chargedUsage scope.usage day }

/-- The projects of a release with those of the group. -/
def linkedWith (links : Table ReleaseRef (Finset ProjectId)) (group : ReleaseRef × List FinalizeEvent) :
    Finset ProjectId :=
  (links[group.1]?.getD ∅) ∪ (group.2.map (·.projectId)).toFinset

/-- A release that is written would have too many projects. -/
def overlinked (limit : Nat) (releases : Table ReleaseRef ReleaseRow) (links : Table ReleaseRef (Finset ProjectId)) :
    Table ProjectId Scope → List (ReleaseRef × List FinalizeEvent) → Bool
  | _, [] => false
  | scopes, group :: groups =>
      (takes limit releases scopes group && decide (maxReleaseProjects < (linkedWith links group).card))
        || overlinked limit releases links (spend limit releases scopes group) groups

section Condition

variable {limit : Nat}

theorem not_takes {releases : Table ReleaseRef ReleaseRow} {scopes : Table ProjectId Scope}
    {group : ReleaseRef × List FinalizeEvent} : ¬ takes limit releases scopes group = true ↔
      (!releases.contains group.1) = true ∧ (admitted scopes limit group.2).isNone = true := by
  simp only [takes, decide_eq_true_eq, not_or, Bool.not_eq_true, Bool.not_eq_true', Option.isSome_eq_false_iff]

theorem takes_congr {releases others : Table ReleaseRef ReleaseRow} {scopes : Table ProjectId Scope}
    {group : ReleaseRef × List FinalizeEvent} (h : releases[group.1]? = others[group.1]?) :
    takes limit releases scopes group = takes limit others scopes group := by
  rw [takes, takes, Std.ExtTreeMap.contains_eq_isSome_getElem?, Std.ExtTreeMap.contains_eq_isSome_getElem?, h]

theorem spend_congr {releases others : Table ReleaseRef ReleaseRow} {scopes : Table ProjectId Scope}
    {group : ReleaseRef × List FinalizeEvent} (h : releases[group.1]? = others[group.1]?) :
    spend limit releases scopes group = spend limit others scopes group := by
  rw [spend, spend, Std.ExtTreeMap.contains_eq_isSome_getElem?, Std.ExtTreeMap.contains_eq_isSome_getElem?, h]

/-- Only the releases of the groups matter. -/
theorem overlinked_congr {releases others : Table ReleaseRef ReleaseRow}
    {links otherLinks : Table ReleaseRef (Finset ProjectId)} {groups : List (ReleaseRef × List FinalizeEvent)}
    (h : ∀ group ∈ groups, releases[group.1]? = others[group.1]? ∧ links[group.1]? = otherLinks[group.1]?)
    (scopes : Table ProjectId Scope) :
    overlinked limit releases links scopes groups = overlinked limit others otherLinks scopes groups := by
  induction groups generalizing scopes with
  | nil => rfl
  | cons group groups ih =>
      rw [List.forall_mem_cons] at h
      rw [overlinked, overlinked, takes_congr h.1.1, spend_congr h.1.1, ih h.2, linkedWith, linkedWith, h.1.2]

end Condition

/-! ### Releases -/

/-- The query that stops after 257 links sees enough of them. -/
theorem linkedProjects_card (catalog : Catalog) (group : ReleaseRef × List FinalizeEvent) :
    (linkedProjects catalog group.1 ∪ (group.2.map (·.projectId)).toFinset).card ≤ maxReleaseProjects ↔
      ¬ maxReleaseProjects < (linkedWith catalog.releaseProjects group).card := by
  rw [not_lt, linkedProjects, linkedWith]
  generalize catalog.releaseProjects[group.1]?.getD ∅ = stored
  by_cases hfew : stored.card ≤ 257
  · rw [List.take_of_length_le (by rwa [Finset.length_sort]), Finset.sort_toFinset]
  · have htaken : ((stored.sort).take 257).toFinset.card = 257 := by
      rw [List.toFinset_card_of_nodup ((stored.sort_nodup _).sublist (List.take_sublist _ _)), List.length_take,
        Finset.length_sort]
      omega
    have hleft : 257 ≤ (((stored.sort).take 257).toFinset ∪ (group.2.map (·.projectId)).toFinset).card :=
      htaken.symm.trans_le (Finset.card_le_card Finset.subset_union_left)
    have hright : 257 < (stored ∪ (group.2.map (·.projectId)).toFinset).card :=
      (not_le.mp hfew).trans_le (Finset.card_le_card Finset.subset_union_left)
    rw [maxReleaseProjects]
    omega

/-- The Events of the group name one release, and so does the row, if there is one. -/
def OneVersion (releases : Table ReleaseRef ReleaseRow) (group : ReleaseRef × List FinalizeEvent) : Prop :=
  ∃ version : IssueRelease, group.2 ≠ []
    ∧ (∀ event ∈ group.2, event.issue.release = some version)
    ∧ ∀ row, releases[group.1]? = some row → row.version = version.asStr

section Releases

variable {limit : Nat} {catalog next : Catalog} {group : ReleaseRef × List FinalizeEvent}

/-- The count of an admitted release stays within the column. -/
theorem chargedUsage_bound (hlimit : limit ≤ i64Max) {charge : ProjectId × Int} {scope : Scope}
    (h : admitted catalog.scopes limit group.2 = some charge) (hscope : catalog.scopes[charge.1]? = some scope) :
    (chargedUsage scope.usage charge.2).releaseCount ≤ i64Max := by
  have hadmits := admitted_spec h hscope
  rw [chargedUsage]
  split_ifs with hday
  · exact (Nat.succ_le_of_lt (hadmits.resolve_left (not_not.mpr hday))).trans hlimit
  · exact (by decide : 1 ≤ i64Max)

theorem admitted_scope {scopes : Table ProjectId Scope} {events : List FinalizeEvent} {charge : ProjectId × Int}
    (h : admitted scopes limit events = some charge) : ∃ scope, scopes[charge.1]? = some scope := by
  have hadmits := List.find?_some h
  rw [admits, Option.any_eq_true] at hadmits
  obtain ⟨scope, hscope, -⟩ := hadmits
  exact ⟨scope, hscope⟩

/-- The row of a release that is taken can be written. -/
theorem writeRelease_ok (hlimit : limit ≤ i64Max) {version : Text} (first latest : FinalizeEvent)
    (htakes : takes limit catalog.releases catalog.scopes group)
    (hstored : ∀ row, catalog.releases[group.1]? = some row → row.version = version) :
    ∃ next, writeRelease catalog group.1 version first latest (admitted catalog.scopes limit group.2) = .ok next
      ∧ next.releaseProjects = catalog.releaseProjects := by
  rw [writeRelease]
  cases hrow : catalog.releases[group.1]? with
  | some row =>
      refine ⟨_, bind_eq_ok.mpr ⟨(), failIf_eq_ok.mpr (not_not.mpr (hstored row hrow)), rfl⟩, rfl⟩
  | none =>
      rw [takes, Std.ExtTreeMap.contains_eq_isSome_getElem?, hrow] at htakes
      obtain ⟨⟨project, day⟩, hadmitted⟩ := Option.isSome_iff_exists.mp (by simpa using htakes)
      obtain ⟨scope, hscope⟩ := admitted_scope hadmitted
      have hbound := chargedUsage_bound hlimit hadmitted hscope
      exact ⟨_, bind_eq_ok.mpr ⟨_, chargeRelease_eq_ok.mpr ⟨project, day, scope, hadmitted, hscope, hbound, rfl⟩, rfl⟩,
        rfl⟩

/-- A group goes through exactly when its release is left out or has room for the projects. -/
theorem materializeRelease_ok_iff (hlimit : limit ≤ i64Max) (hgroup : OneVersion catalog.releases group) :
    (∃ next, materializeRelease limit catalog group = .ok next) ↔
      ¬ (takes limit catalog.releases catalog.scopes group
        ∧ maxReleaseProjects < (linkedWith catalog.releaseProjects group).card) := by
  obtain ⟨version, hne, hversion, hstored⟩ := hgroup
  obtain ⟨head, tail, htail⟩ := List.exists_cons_of_ne_nil hne
  have hhead : group.2.head? = some head := by rw [htail]; rfl
  have hrelease : head.issue.release = some version := hversion head (htail ▸ List.mem_cons_self)
  have hsame : (group.2.any fun event => event.issue.release.map (·.asStr) ≠ some version.asStr) = false := by
    rw [List.any_eq_false]
    intro event hevent
    rw [hversion event hevent]
    simp
  obtain ⟨first, hfirst⟩ := Issues.minByKey_isSome seenKey hne
  obtain ⟨latest, hlatest⟩ := Issues.maxByKey_isSome seenKey hne
  simp only [materializeRelease, bind_eq_ok, failIf_eq_ok, orInvalid_eq_ok, hhead, hrelease, Option.some.injEq,
    exists_eq_left', hsame, Bool.false_eq_true, not_false_eq_true, true_and]
  by_cases htakes : takes limit catalog.releases catalog.scopes group = true
  · have hkept : ¬ ((!catalog.releases.contains group.1) = true
        ∧ (admitted catalog.scopes limit group.2).isNone = true) :=
      fun hleft => not_takes.mpr hleft htakes
    obtain ⟨written, hwritten, hlinks⟩ := writeRelease_ok hlimit first latest htakes hstored
    have hcard := linkedProjects_card written group
    rw [hlinks] at hcard
    rw [if_neg hkept]
    simp only [bind_eq_ok, orInvalid_eq_ok, hfirst, hlatest, Option.some.injEq, exists_eq_left', hwritten,
      Except.ok.injEq, linkProjects_eq_ok, htakes, true_and]
    rw [← hcard]
    constructor
    · rintro ⟨next, -, hfits, -⟩
      exact hfits
    · exact fun hfits => ⟨_, (), hfits, rfl⟩
  · rw [if_pos (not_takes.mp htakes)]
    exact ⟨fun _ h => htakes h.1, fun _ => ⟨catalog, (), rfl⟩⟩

/-- A group that goes through is of one release. -/
theorem oneVersion_of_ok (h : materializeRelease limit catalog group = .ok next) :
    OneVersion catalog.releases group := by
  simp only [materializeRelease, bind_eq_ok, failIf_eq_ok, orInvalid_eq_ok, Bool.not_eq_true, List.any_eq_false] at h
  obtain ⟨head, hhead, version, -, -, hsame, h⟩ := h
  refine ⟨version, fun hnil => ?_, fun event hevent => ?_, fun row hrow => ?_⟩
  · rw [hnil] at hhead
    cases hhead
  · have hevent := hsame event hevent
    cases hrelease : event.issue.release with
    | none =>
        rw [hrelease] at hevent
        exact absurd hevent (by simp)
    | some release =>
        rw [hrelease] at hevent
        exact congrArg some (IssueText.ext (by simpa using hevent))
  · have htaken : ¬ ((!catalog.releases.contains group.1) = true
        ∧ (admitted catalog.scopes limit group.2).isNone = true) := by
      rintro ⟨hnew, -⟩
      rw [Table.not_contains, hrow] at hnew
      cases hnew
    rw [if_neg htaken] at h
    simp only [bind_eq_ok, writeRelease, hrow, failIf_eq_ok, not_not] at h
    obtain ⟨first, -, latest, -, written, ⟨-, hversion, -⟩, -⟩ := h
    exact hversion

/-- What a group leaves to the next ones. -/
theorem ReleaseChange.kept (h : ReleaseChange limit catalog group next) :
    next.scopes = spend limit catalog.releases catalog.scopes group ∧ ∀ ref, group.1 ≠ ref →
      next.releases[ref]? = catalog.releases[ref]? ∧ next.releaseProjects[ref]? = catalog.releaseProjects[ref]? := by
  rw [spend, Std.ExtTreeMap.contains_eq_isSome_getElem?]
  cases h with
  | suppressed hnew hfull =>
      rw [hnew, hfull]
      exact ⟨rfl, fun ref _ => ⟨rfl, rfl⟩⟩
  | seen row next links hrow =>
      rw [hrow]
      exact ⟨rfl, fun ref hne => ⟨Table.get_insert_of_ne _ _ hne, Table.get_insert_of_ne _ _ hne⟩⟩
  | created project day scope next links hnew hadmitted hscope =>
      rw [hnew, hadmitted]
      dsimp only [Option.isSome_none]
      rw [hscope]
      exact ⟨rfl, fun ref hne => ⟨Table.get_insert_of_ne _ _ hne, Table.get_insert_of_ne _ _ hne⟩⟩

/-- The releases of a batch go through exactly when each of its groups is of one release and none of them is
linked to too many projects. -/
theorem materializeAll_ok_iff (hlimit : limit ≤ i64Max) {groups : List (ReleaseRef × List FinalizeEvent)}
    (hnodup : (groups.map Prod.fst).Nodup) :
    (∃ next, groups.foldlM (materializeRelease limit) catalog = .ok next) ↔
      (∀ group ∈ groups, OneVersion catalog.releases group)
        ∧ overlinked limit catalog.releases catalog.releaseProjects catalog.scopes groups = false := by
  induction groups generalizing catalog with
  | nil => exact ⟨fun _ => ⟨fun _ h => absurd h List.not_mem_nil, rfl⟩, fun _ => ⟨catalog, rfl⟩⟩
  | cons group groups ih =>
      rw [List.map_cons, List.nodup_cons] at hnodup
      have hrest : ∀ middle, materializeRelease limit catalog group = .ok middle →
          ((∃ next, groups.foldlM (materializeRelease limit) middle = .ok next) ↔
            (∀ other ∈ groups, OneVersion catalog.releases other)
              ∧ overlinked limit catalog.releases catalog.releaseProjects
                (spend limit catalog.releases catalog.scopes group) groups = false) := by
        intro middle hmiddle
        obtain ⟨hscopes, hkept⟩ := (releaseChange_of_ok hmiddle).kept
        have hother : ∀ other ∈ groups, middle.releases[other.1]? = catalog.releases[other.1]?
            ∧ middle.releaseProjects[other.1]? = catalog.releaseProjects[other.1]? := by
          intro other hother
          refine hkept other.1 fun heq => hnodup.1 ?_
          rw [heq]
          exact List.mem_map_of_mem hother
        rw [ih hnodup.2, hscopes, overlinked_congr hother]
        refine and_congr_left fun _ => forall₂_congr fun other hmem => ?_
        rw [OneVersion, OneVersion, (hother other hmem).1]
      rw [overlinked, Bool.or_eq_false_iff, Bool.and_eq_false_iff, decide_eq_false_iff_not, List.forall_mem_cons]
      constructor
      · rintro ⟨next, hnext⟩
        rw [List.foldlM_cons, bind_eq_ok] at hnext
        obtain ⟨middle, hmiddle, hnext⟩ := hnext
        have hone := oneVersion_of_ok hmiddle
        obtain ⟨hversions, hforward⟩ := (hrest middle hmiddle).mp ⟨next, hnext⟩
        have hfits := not_and_or.mp ((materializeRelease_ok_iff hlimit hone).mp ⟨middle, hmiddle⟩)
        rw [Bool.not_eq_true] at hfits
        exact ⟨⟨hone, hversions⟩, hfits, hforward⟩
      · rintro ⟨⟨hone, hversions⟩, hfits, hforward⟩
        obtain ⟨middle, hmiddle⟩ :=
          (materializeRelease_ok_iff hlimit hone).mpr (not_and_or.mpr (by rwa [Bool.not_eq_true]))
        obtain ⟨next, hnext⟩ := (hrest middle hmiddle).mpr ⟨hversions, hforward⟩
        refine ⟨next, ?_⟩
        rw [List.foldlM_cons]
        exact bind_eq_ok.mpr ⟨middle, hmiddle, hnext⟩

end Releases

/-! ### Environments -/

/-- The Events of the group name one environment, and so does the row, if there is one. -/
def OneName (environments : Table EnvironmentRef EnvironmentRow) (group : EnvironmentRef × List FinalizeEvent) : Prop :=
  ∃ name : Text, group.2 ≠ [] ∧ (∀ event ∈ group.2, event.environment = some name)
    ∧ ∀ row, environments[group.1]? = some row → row.name = name

section Environments

variable {limit : Nat} {catalog next : Catalog} {group : EnvironmentRef × List FinalizeEvent}

theorem materializeEnvironment_ok (hlimit : limit ≤ i64Max) (hgroup : OneName catalog.environments group)
    (hscope : (catalog.scopes[(ofLex group.1).1]?).isSome) :
    ∃ next, materializeEnvironment limit catalog group = .ok next := by
  obtain ⟨name, hne, hname, hstored⟩ := hgroup
  obtain ⟨scope, hscope⟩ := Option.isSome_iff_exists.mp hscope
  obtain ⟨head, tail, htail⟩ := List.exists_cons_of_ne_nil hne
  have hhead : group.2.head? = some head := by rw [htail]; rfl
  have hfirstName : head.environment = some name := hname head (htail ▸ List.mem_cons_self)
  have hsame : (group.2.any fun event => event.environment ≠ some name) = false := by
    rw [List.any_eq_false]
    intro event hevent
    rw [hname event hevent]
    simp
  have hrow : (catalog.environments[group.1]?.any fun row => row.name ≠ name) = false := by
    rw [Option.any_eq_false]
    intro row hrow
    simpa using hstored row hrow
  have htimes : (group.2.map (·.occurredAt)) ≠ [] := mt List.map_eq_nil_iff.mp hne
  obtain ⟨first, hfirst⟩ := Option.isSome_iff_exists.mp (List.isSome_min?_of_ne_nil htimes)
  obtain ⟨last, hlast⟩ := Option.isSome_iff_exists.mp (List.isSome_max?_of_ne_nil htimes)
  simp only [materializeEnvironment, bind_eq_ok, failIf_eq_ok, orInvalid_eq_ok, hhead, hfirstName, hsame, hrow, hscope,
    Option.some.injEq, exists_eq_left', Bool.false_eq_true, not_false_eq_true, true_and]
  split_ifs with hfull hnew
  · exact ⟨catalog, (), (), rfl⟩
  · have hroom : scope.usage.environmentCount < limit := by
      by_contra hnone
      exact hfull ⟨hnew, not_lt.mp hnone⟩
    simp only [bind_eq_ok, orInvalid_eq_ok, hfirst, hlast, Option.some.injEq, exists_eq_left', chargeEnvironment,
      failIf_eq_ok, pure_eq_ok, not_lt]
    exact ⟨_, (), (), (), hroom.trans_le hlimit, rfl⟩
  · simp only [bind_eq_ok, orInvalid_eq_ok, hfirst, hlast, Option.some.injEq, exists_eq_left', pure_eq_ok]
    exact ⟨_, (), (), rfl⟩

theorem isSome_putUsage {project other : ProjectId} {scope : Scope} {usage : CatalogUsage}
    (h : (catalog.scopes[other]?).isSome) : ((catalog.putUsage project scope usage).scopes[other]?).isSome := by
  rw [Catalog.putUsage, Table.get_insert]
  split_ifs
  · rfl
  · exact h

theorem EnvironmentChange.kept {ref : EnvironmentRef} (h : EnvironmentChange limit catalog ref next) :
    (∀ project : ProjectId, (catalog.scopes[project]?).isSome → (next.scopes[project]?).isSome)
      ∧ ∀ other, ref ≠ other → next.environments[other]? = catalog.environments[other]? := by
  cases h with
  | suppressed => exact ⟨fun _ h => h, fun _ _ => rfl⟩
  | seen row next hrow => exact ⟨fun _ h => h, fun _ hne => Table.get_insert_of_ne _ _ hne⟩
  | created scope next hnew hscope hroom =>
      exact ⟨fun project h => isSome_putUsage h, fun _ hne => Table.get_insert_of_ne _ _ hne⟩

theorem oneName_of_ok (h : materializeEnvironment limit catalog group = .ok next) :
    OneName catalog.environments group := by
  simp only [materializeEnvironment, bind_eq_ok, failIf_eq_ok, orInvalid_eq_ok, Bool.not_eq_true,
    List.any_eq_false] at h
  obtain ⟨head, hhead, name, -, -, hsame, -, hstored, -⟩ := h
  refine ⟨name, fun hnil => ?_, fun event hevent => by simpa using hsame event hevent, fun row hrow => ?_⟩
  · rw [hnil] at hhead
    cases hhead
  · rw [hrow] at hstored
    simpa using hstored

/-- The environments of a batch go through exactly when each of its groups is of one environment. -/
theorem materializeEnvironments_ok_iff (hlimit : limit ≤ i64Max)
    {groups : List (EnvironmentRef × List FinalizeEvent)} (hnodup : (groups.map Prod.fst).Nodup)
    (hscopes : ∀ group ∈ groups, (catalog.scopes[(ofLex group.1).1]?).isSome) :
    (∃ next, groups.foldlM (materializeEnvironment limit) catalog = .ok next) ↔
      ∀ group ∈ groups, OneName catalog.environments group := by
  induction groups generalizing catalog with
  | nil => exact ⟨fun _ _ h => absurd h List.not_mem_nil, fun _ => ⟨catalog, rfl⟩⟩
  | cons group groups ih =>
      rw [List.map_cons, List.nodup_cons] at hnodup
      rw [List.forall_mem_cons] at hscopes ⊢
      have hrest : ∀ middle, materializeEnvironment limit catalog group = .ok middle →
          ((∃ next, groups.foldlM (materializeEnvironment limit) middle = .ok next) ↔
            ∀ other ∈ groups, OneName catalog.environments other) := by
        intro middle hmiddle
        obtain ⟨hkept, hother⟩ := (environmentChange_of_ok hmiddle).kept
        rw [ih hnodup.2 fun other hmem => hkept _ (hscopes.2 other hmem)]
        refine forall₂_congr fun other hmem => ?_
        rw [OneName, OneName, hother other.1]
        intro heq
        rw [heq] at hnodup
        exact hnodup.1 (List.mem_map_of_mem hmem)
      constructor
      · rintro ⟨next, hnext⟩
        rw [List.foldlM_cons, bind_eq_ok] at hnext
        obtain ⟨middle, hmiddle, hnext⟩ := hnext
        exact ⟨oneName_of_ok hmiddle, (hrest middle hmiddle).mp ⟨next, hnext⟩⟩
      · rintro ⟨hone, hnames⟩
        obtain ⟨middle, hmiddle⟩ := materializeEnvironment_ok hlimit hone hscopes.1
        obtain ⟨next, hnext⟩ := (hrest middle hmiddle).mpr hnames
        refine ⟨next, ?_⟩
        rw [List.foldlM_cons]
        exact bind_eq_ok.mpr ⟨middle, hmiddle, hnext⟩

end Environments

/-! ### Batches -/

/-- The release of an Event. -/
def releaseOf (env : Environment) (tables : FinalizationTables) (event : FinalizeEvent) : Option ReleaseRef := do
  let version ← event.issue.release
  let row ← tables.projects[event.projectId]?
  return releaseRef env row.organizationId version

/-- The environment of an Event. -/
def environmentOf (env : Environment) (event : FinalizeEvent) : Option EnvironmentRef :=
  event.environment.map (environmentRef env event.projectId)

/-- No two releases or environments of the batch and the catalogs share a digest. -/
structure Unambiguous (env : Environment) (tables : FinalizationTables) (batch : List FinalizeEvent) : Prop where
  versions : ∀ event ∈ batch, ∀ other ∈ batch, ∀ ref, releaseOf env tables event = some ref →
    releaseOf env tables other = some ref → event.issue.release = other.issue.release
  storedVersions : ∀ event ∈ batch, ∀ ref row, releaseOf env tables event = some ref →
    tables.releases[ref]? = some row → event.issue.release.map (·.asStr) = some row.version
  names : ∀ event ∈ batch, ∀ other ∈ batch, ∀ ref, environmentOf env event = some ref →
    environmentOf env other = some ref → event.environment = other.environment
  storedNames : ∀ event ∈ batch, ∀ ref row, environmentOf env event = some ref →
    tables.environments[ref]? = some row → event.environment = some row.name

/-- A batch of valid pending Events: what the call does before it comes to the catalogs succeeds. -/
structure ValidPending (env : Environment) (policy : FinalizationPolicy) (tables : FinalizationTables)
    (batch : List FinalizeEvent) (prepared : Table EventKey Prepared) (pending : List Prepared) : Prop where
  validated : validatePolicy policy = .ok ()
  size : 1 ≤ batch.length ∧ batch.length ≤ maxBatch
  offers : prepareAll env policy batch = .ok prepared
  locked : lockPending tables prepared (loadScopes tables prepared) = .ok pending
  all : pending.length = batch.length
  issues : ∃ issues, applyIssues env tables.issues pending = .ok issues
  hours : ∃ hourly, updateHourly env policy tables.hourly pending = .ok hourly

section Batches

variable {env : Environment} {policy : FinalizationPolicy} {tables : FinalizationTables}
  {batch : List FinalizeEvent} {prepared : Table EventKey Prepared} {pending : List Prepared}

theorem releasedIn_eq_some {value : Prepared} {ref : ReleaseRef} {event : FinalizeEvent}
    (h : releasedIn env (loadScopes tables prepared) value = some (ref, event)) :
    event = value.event ∧ releaseOf env tables event = some ref := by
  simp only [releasedIn, Option.bind_eq_bind, Option.bind_eq_some_iff] at h
  obtain ⟨version, hversion, scope, hscope, h⟩ := h
  obtain ⟨rfl, rfl⟩ := Prod.mk.inj (Option.some.inj h)
  obtain ⟨row, hrow, rfl⟩ := loadScopes_spec hscope
  refine ⟨rfl, ?_⟩
  simp only [releaseOf, hversion, hrow, Option.bind_eq_bind, Option.bind_some]
  rfl

theorem releaseOf_isSome {event : FinalizeEvent} {ref : ReleaseRef} (h : releaseOf env tables event = some ref) :
    ∃ version, event.issue.release = some version := by
  simp only [releaseOf, Option.bind_eq_bind, Option.bind_eq_some_iff] at h
  obtain ⟨version, hversion, -⟩ := h
  exact ⟨version, hversion⟩

/-- The Events of a group of releases are of the batch and of one release. -/
theorem oneVersion_of_group (hids : Unambiguous env tables batch)
    (hoffered : ∀ value ∈ pending, value.event ∈ batch) {group : ReleaseRef × List FinalizeEvent}
    (hgroup : group ∈ (releaseGroups env (loadScopes tables prepared) pending).toList) :
    OneVersion tables.releases group := by
  obtain ⟨ref, events⟩ := group
  obtain ⟨hne, hevents⟩ := Table.of_get_groupFold_append _ (Table.mem_toList.mp hgroup)
  have hof : ∀ event ∈ events, event ∈ batch ∧ releaseOf env tables event = some ref := by
    intro event hevent
    obtain ⟨⟨found, released⟩, hitem, rfl, rfl⟩ := hevents event hevent
    obtain ⟨value, hvalue, hreleased⟩ := List.mem_filterMap.mp hitem
    obtain ⟨rfl, href⟩ := releasedIn_eq_some hreleased
    exact ⟨hoffered value hvalue, href⟩
  obtain ⟨head, tail, rfl⟩ := List.exists_cons_of_ne_nil hne
  obtain ⟨hhead, hheadRef⟩ := hof head List.mem_cons_self
  obtain ⟨version, hversion⟩ := releaseOf_isSome hheadRef
  refine ⟨version, hne, fun event hevent => ?_, fun row hrow => ?_⟩
  · obtain ⟨hmem, href⟩ := hof event hevent
    rw [hids.versions event hmem head hhead ref href hheadRef]
    exact hversion
  · have hstored := hids.storedVersions head hhead ref row hheadRef hrow
    rw [hversion] at hstored
    exact (Option.some.inj hstored).symm

theorem environmentGroups_project {group : EnvironmentRef × List FinalizeEvent}
    (hgroup : group ∈ (environmentGroups env pending).toList) :
    ∃ value ∈ pending, (ofLex group.1).1 = value.event.projectId := by
  obtain ⟨ref, events⟩ := group
  obtain ⟨hne, hevents⟩ := Table.of_get_groupFold_append _ (Table.mem_toList.mp hgroup)
  obtain ⟨head, tail, rfl⟩ := List.exists_cons_of_ne_nil hne
  obtain ⟨⟨found, named⟩, hitem, rfl, rfl⟩ := hevents head List.mem_cons_self
  obtain ⟨value, hvalue, hnamed⟩ := List.mem_filterMap.mp hitem
  obtain ⟨name, hname, hpair⟩ := Option.map_eq_some_iff.mp hnamed
  obtain ⟨rfl, rfl⟩ := Prod.mk.inj hpair
  exact ⟨value, hvalue, rfl⟩

theorem oneName_of_group (hids : Unambiguous env tables batch) (hoffered : ∀ value ∈ pending, value.event ∈ batch)
    {group : EnvironmentRef × List FinalizeEvent} (hgroup : group ∈ (environmentGroups env pending).toList) :
    OneName tables.environments group := by
  obtain ⟨ref, events⟩ := group
  obtain ⟨hne, hevents⟩ := Table.of_get_groupFold_append _ (Table.mem_toList.mp hgroup)
  have hof : ∀ event ∈ events, event ∈ batch ∧ environmentOf env event = some ref := by
    intro event hevent
    obtain ⟨⟨found, named⟩, hitem, rfl, rfl⟩ := hevents event hevent
    obtain ⟨value, hvalue, hnamed⟩ := List.mem_filterMap.mp hitem
    obtain ⟨name, hname, hpair⟩ := Option.map_eq_some_iff.mp hnamed
    obtain ⟨rfl, rfl⟩ := Prod.mk.inj hpair
    refine ⟨hoffered value hvalue, ?_⟩
    rw [environmentOf, hname]
    rfl
  obtain ⟨head, tail, rfl⟩ := List.exists_cons_of_ne_nil hne
  obtain ⟨hhead, hheadRef⟩ := hof head List.mem_cons_self
  obtain ⟨name, hname, -⟩ := Option.map_eq_some_iff.mp hheadRef
  refine ⟨name, hne, fun event hevent => ?_, fun row hrow => ?_⟩
  · obtain ⟨hmem, href⟩ := hof event hevent
    rw [hids.names event hmem head hhead ref href hheadRef]
    exact hname
  · have hstored := hids.storedNames head hhead ref row hheadRef hrow
    rw [hname] at hstored
    exact (Option.some.inj hstored).symm

/-- What releases leave to environments. -/
theorem ReleaseChange.environments_kept {limit : Nat} {catalog next : Catalog}
    {group : ReleaseRef × List FinalizeEvent} (h : ReleaseChange limit catalog group next) :
    next.environments = catalog.environments
      ∧ ∀ project : ProjectId, (catalog.scopes[project]?).isSome → (next.scopes[project]?).isSome := by
  cases h with
  | suppressed => exact ⟨rfl, fun _ h => h⟩
  | seen => exact ⟨rfl, fun _ h => h⟩
  | created => exact ⟨rfl, fun project h => isSome_putUsage h⟩

theorem limit_le_i64Max (limit : BitVec 32) : limit.toNat ≤ i64Max :=
  limit.isLt.le.trans (by decide)

/-- The pending rows of a batch are finalized. -/
theorem finalizeRows_finalized {scopes : Table ProjectId Scope} {events : Table EventKey EventRow}
    (h : AllPending events pending) {value : Prepared} (hvalue : value ∈ pending) :
    ∃ row, (finalizeRows env scopes policy events pending)[value.event.key]? = some row
      ∧ row.processingState = .finalized := by
  induction pending generalizing events with
  | nil => cases hvalue
  | cons head pending ih =>
      obtain ⟨stored, hstored, hpending, -⟩ := h.rows head List.mem_cons_self
      rw [finalizeRows_cons hstored hpending]
      rcases List.mem_cons.mp hvalue with rfl | hvalue
      · refine ⟨_, finalizeRows_kept h.tail (Table.get_insert_self _ _ _) ?_, rfl⟩
        nofun
      · exact ih h.tail hvalue

/-- The stored Issues, hours and catalogs take the pending Events of a call together. -/
structure Compatible (env : Environment) (policy : FinalizationPolicy) (tables : FinalizationTables)
    (scopes : Table ProjectId Scope) (pending : List Prepared) : Prop where
  issues : ∃ issues, applyIssues env tables.issues pending = .ok issues
  hours : ∃ hourly, updateHourly env policy tables.hourly pending = .ok hourly
  versions : ∀ group ∈ (releaseGroups env scopes pending).toList, OneVersion tables.releases group
  links : overlinked policy.maxImplicitReleasesPerProjectDay.toNat tables.releases tables.releaseProjects scopes
    (releaseGroups env scopes pending).toList = false
  names : ∀ group ∈ (environmentGroups env pending).toList, OneName tables.environments group

/-- The catalogs after the releases are as they were for the environments. -/
theorem environments_ok_iff {scopes : Table ProjectId Scope} {limit environmentLimit : Nat} {released : Catalog}
    (hlimit : environmentLimit ≤ i64Max) (hscoped : ∀ value ∈ pending, scopes.contains value.event.projectId)
    (hreleased : (releaseGroups env scopes pending).toList.foldlM (materializeRelease limit)
      (startCatalog tables scopes) = .ok released) :
    (∃ catalog, (environmentGroups env pending).toList.foldlM (materializeEnvironment environmentLimit) released =
      .ok catalog) ↔ ∀ group ∈ (environmentGroups env pending).toList, OneName tables.environments group := by
  have hkept := foldlM_ok_induction (fun catalog : Catalog => catalog.environments = tables.environments
    ∧ ∀ project : ProjectId, (scopes[project]?).isSome → (catalog.scopes[project]?).isSome)
    _ (startCatalog tables scopes) released hreleased ⟨rfl, fun _ h => h⟩
    fun state group next _ hstate hstep => by
      obtain ⟨henvironments, hscopes⟩ := (releaseChange_of_ok hstep).environments_kept
      exact ⟨henvironments.trans hstate.1, fun project h => hscopes project (hstate.2 project h)⟩
  rw [materializeEnvironments_ok_iff hlimit (Table.nodup_keys_toList _), hkept.1]
  intro group hgroup
  obtain ⟨value, hvalue, hproject⟩ := environmentGroups_project hgroup
  rw [hproject]
  refine hkept.2 _ ?_
  rw [← Std.ExtTreeMap.contains_eq_isSome_getElem?]
  exact hscoped value hvalue

theorem AllPending.filter_isPending {events : Table EventKey EventRow} (h : AllPending events pending) :
    pending.filter (isPending events) = pending := by
  rw [List.filter_eq_self]
  intro value hvalue
  obtain ⟨row, hrow, hstate, -⟩ := h.rows value hvalue
  rw [isPending, hrow]
  simpa using hstate

/-- Pending Events of live projects are finalized exactly when they are taken together. -/
theorem compatible_iff {scopes : Table ProjectId Scope} (hrows : AllPending tables.events pending)
    (hscoped : ∀ value ∈ pending, scopes.contains value.event.projectId) :
    (∃ next, finalizePending env policy tables scopes pending = .ok next) ↔
      Compatible env policy tables scopes pending := by
  have hreleases := @materializeAll_ok_iff _ (startCatalog tables scopes)
    (limit_le_i64Max policy.maxImplicitReleasesPerProjectDay) _
    (Table.nodup_keys_toList (releaseGroups env scopes pending))
  constructor
  · rintro ⟨next, hnext⟩
    obtain ⟨hissues, hhourly, -⟩ := finalizePending_eq_ok hnext
    obtain ⟨released, catalog, hreleased, hcatalog, -⟩ := finalizePending_catalog hnext
    obtain ⟨hversions, hlinks⟩ := hreleases.mp ⟨released, hreleased⟩
    exact ⟨⟨_, hissues⟩, ⟨_, hhourly⟩, hversions, hlinks,
      (environments_ok_iff (limit_le_i64Max _) hscoped hreleased).mp ⟨catalog, hcatalog⟩⟩
  · rintro ⟨⟨issues, hissues⟩, ⟨hourly, hhourly⟩, hversions, hlinks, hnames⟩
    obtain ⟨released, hreleased⟩ := hreleases.mpr ⟨hversions, hlinks⟩
    obtain ⟨catalog, hcatalog⟩ := (environments_ok_iff (limit_le_i64Max _) hscoped hreleased).mpr hnames
    have hrelease : (pending.any fun value => value.event.issue.release.isSome
        ∧ !scopes.contains value.event.projectId) = false := by
      rw [List.any_eq_false]
      intro value hvalue
      simp [hscoped value hvalue]
    simp only [finalizePending, materializeReleases, materializeEnvironments, bind_eq_ok, failIf_eq_ok, pure_eq_ok,
      hrows.filter_isPending, not_true_eq_false, ne_eq, not_false_eq_true]
    refine ⟨_, issues, hissues, hourly, hhourly, released, ⟨(), ?_, hreleased⟩, catalog, hcatalog, (), trivial, rfl⟩
    exact ne_of_eq_of_ne hrelease Bool.false_ne_true

section ValidPending

variable (hvalid : ValidPending env policy tables batch prepared pending) (hids : Unambiguous env tables batch)
include hvalid

theorem ValidPending.offered {value : Prepared} (hvalue : value ∈ pending) : value.event ∈ batch :=
  ((lockPending_spec hvalid.offers hvalid.locked).2 value hvalue).1.offered

theorem ValidPending.scoped {value : Prepared} (hvalue : value ∈ pending) :
    (loadScopes tables prepared).contains value.event.projectId :=
  ((lockPending_spec hvalid.offers hvalid.locked).2 value hvalue).2

theorem ValidPending.allPending : AllPending tables.events pending := by
  obtain ⟨hnodup, hspec⟩ := lockPending_spec hvalid.offers hvalid.locked
  exact ⟨hnodup, fun value hvalue => (hspec value hvalue).1.row⟩

/-- Every Event of the batch is among the pending ones. -/
theorem ValidPending.found {event : FinalizeEvent} (hevent : event ∈ batch) :
    ∃ value ∈ pending, value.event.key = event.key := by
  have hsubset : (pending.map fun value => value.event.key) ⊆ batch.map FinalizeEvent.key := by
    intro key hkey
    obtain ⟨value, hvalue, rfl⟩ := List.mem_map.mp hkey
    exact List.mem_map_of_mem (hvalid.offered hvalue)
  have hperm := (hvalid.allPending.nodup.subperm hsubset).perm_of_length_le (by simp [hvalid.all])
  have hkey : event.key ∈ pending.map fun value => value.event.key :=
    hperm.mem_iff.mpr (List.mem_map_of_mem hevent)
  exact List.mem_map.mp hkey

include hids

/-- Without collisions, only the links can be in the way. -/
theorem ValidPending.finalizePending_ok_iff :
    (∃ next, finalizePending env policy tables (loadScopes tables prepared) pending = .ok next) ↔
      overlinked policy.maxImplicitReleasesPerProjectDay.toNat tables.releases tables.releaseProjects
        (loadScopes tables prepared) (releaseGroups env (loadScopes tables prepared) pending).toList = false := by
  rw [compatible_iff hvalid.allPending fun _ => hvalid.scoped]
  refine ⟨fun h => h.links, fun hlinks => ⟨hvalid.issues, hvalid.hours, fun group hgroup => ?_, hlinks,
    fun group hgroup => ?_⟩⟩
  · exact oneVersion_of_group hids (fun _ => hvalid.offered) hgroup
  · exact oneName_of_group hids (fun _ => hvalid.offered) hgroup

omit hids in
theorem ValidPending.finalizeInner_eq_ok_of {next : FinalizationTables}
    (hnext : finalizePending env policy tables (loadScopes tables prepared) pending = .ok next) :
    ∃ result, finalizeInner env policy tables batch = .ok (result, next) := by
  have hne : ¬ pending.isEmpty = true := by
    intro hempty
    have hsize := hvalid.size.1
    rw [← hvalid.all, List.isEmpty_iff.mp hempty] at hsize
    cases hsize
  have hsize : ¬ (batch.length < 1 ∨ maxBatch < batch.length) := by
    have hsize := hvalid.size
    omega
  refine ⟨⟨batch.length, pending.length, pending.length, batch.length - pending.length⟩,
    bind_eq_ok.mpr ⟨(), hvalid.validated, bind_eq_ok.mpr ⟨(), failIf_eq_ok.mpr hsize, bind_eq_ok.mpr
    ⟨prepared, hvalid.offers, bind_eq_ok.mpr ⟨pending, hvalid.locked, ?_⟩⟩⟩⟩⟩
  rw [if_neg hne]
  exact bind_eq_ok.mpr ⟨next, hnext, rfl⟩

omit hids in
theorem ValidPending.finalizePending_of {result : FinalizeResult} {next : FinalizationTables}
    (h : finalizeInner env policy tables batch = .ok (result, next)) :
    finalizePending env policy tables (loadScopes tables prepared) pending = .ok next := by
  obtain ⟨made, found, hmade, hfound, -, hnext⟩ := finalizeInner_eq_ok h
  cases hmade.symm.trans hvalid.offers
  cases hfound.symm.trans hvalid.locked
  rcases hnext with ⟨rfl, -⟩ | hnext
  · have hsize := hvalid.size.1
    rw [← hvalid.all] at hsize
    cases hsize
  · exact hnext.finalized

end ValidPending

end Batches

/-- A batch of valid pending Events is finalized exactly when no release that it writes would be linked to more
than `maxReleaseProjects` projects. -/
theorem finalized_iff_linkable (env : Environment) (policy : FinalizationPolicy) (tables : FinalizationTables)
    (batch : List FinalizeEvent) (prepared : Table EventKey Prepared) (pending : List Prepared)
    (hvalid : ValidPending env policy tables batch prepared pending) (hids : Unambiguous env tables batch) :
    (∃ result next, finalizeInner env policy tables batch = .ok (result, next)
      ∧ ∀ event ∈ batch, ∃ row, next.events[event.key]? = some row ∧ row.processingState = .finalized) ↔
      overlinked policy.maxImplicitReleasesPerProjectDay.toNat tables.releases tables.releaseProjects
        (loadScopes tables prepared) (releaseGroups env (loadScopes tables prepared) pending).toList = false := by
  rw [← hvalid.finalizePending_ok_iff hids]
  constructor
  · rintro ⟨result, next, hcall, -⟩
    exact ⟨next, hvalid.finalizePending_of hcall⟩
  · rintro ⟨next, hnext⟩
    obtain ⟨result, hcall⟩ := hvalid.finalizeInner_eq_ok_of hnext
    refine ⟨result, next, hcall, fun event hevent => ?_⟩
    obtain ⟨value, hvalue, hkey⟩ := hvalid.found hevent
    rw [(finalizePending_eq_ok hnext).2.2, ← hkey]
    exact finalizeRows_finalized hvalid.allPending hvalue

/-! ### One Event of a release -/

theorem prepareAll_singleton {env : Environment} {policy : FinalizationPolicy} {event : FinalizeEvent}
    {value : Prepared} (h : prepare env policy event = .ok value) :
    prepareAll env policy [event] = .ok ((∅ : Table EventKey Prepared).insert value.event.key value) := by
  refine bind_eq_ok.mpr ⟨_, bind_eq_ok.mpr ⟨value, h, bind_eq_ok.mpr ⟨(), failIf_eq_ok.mpr ?_, rfl⟩⟩, rfl⟩
  simp

def linkedEvent : FinalizeEvent := releasedEvent 3 ⟨1000, inRange_second⟩ ⟨"a".toList, valid_firstRelease⟩

def linkedPrepared : Prepared where
  event := linkedEvent
  body := [1, 0, 0x7b, 0x7d]
  expire := 2592001000
  trace := none

/-- The tables after the Event is accepted. -/
def acceptedTables : FinalizationTables :=
  { quotaTables with events := quotaTables.events.insert quotaRow.key quotaRow }

/-- The release of the Event is there, with the given projects. -/
def linkedTables (projects : Finset ProjectId) : FinalizationTables :=
  { acceptedTables with
    releases := (∅ : Table ReleaseRef ReleaseRow).insert
      (releaseRef quotaEnvironment ⟨1, OrganizationId.inRange_one⟩ ⟨"a".toList, valid_firstRelease⟩)
      ⟨"a".toList, ⟨0, inRange_epoch⟩, ⟨0, inRange_epoch⟩, none, none, none, none⟩
    releaseProjects := (∅ : Table ReleaseRef (Finset ProjectId)).insert
      (releaseRef quotaEnvironment ⟨1, OrganizationId.inRange_one⟩ ⟨"a".toList, valid_firstRelease⟩) projects }

/-- The prepared batch. -/
def linkedBatch : Table EventKey Prepared := (∅ : Table EventKey Prepared).insert linkedEvent.key linkedPrepared

theorem linkedTables_loadScopes (projects : Finset ProjectId) :
    loadScopes (linkedTables projects) linkedBatch = loadScopes acceptedTables linkedBatch := rfl

theorem acceptedTables_locked : lockPending acceptedTables linkedBatch (loadScopes acceptedTables linkedBatch) =
    .ok [linkedPrepared] := by
  decide

theorem linkedTables_locked (projects : Finset ProjectId) :
    lockPending (linkedTables projects) linkedBatch (loadScopes (linkedTables projects) linkedBatch) =
      .ok [linkedPrepared] :=
  acceptedTables_locked

theorem acceptedTables_issues : (applyIssues quotaEnvironment acceptedTables.issues [linkedPrepared]).isOk := by
  decide

theorem acceptedTables_hours :
    (updateHourly quotaEnvironment quotaPolicy acceptedTables.hourly [linkedPrepared]).isOk := by
  decide

theorem linkedEvent_prepare : prepare quotaEnvironment quotaPolicy linkedEvent = .ok linkedPrepared := by
  decide

theorem linkedBatch_offers : prepareAll quotaEnvironment quotaPolicy [linkedEvent] = .ok linkedBatch := by
  rw [prepareAll_singleton linkedEvent_prepare, linkedBatch, linkedPrepared]

theorem quotaPolicy_valid : validatePolicy quotaPolicy = .ok () := by
  decide

theorem linkedTables_issues (projects : Finset ProjectId) :
    ∃ issues, applyIssues quotaEnvironment (linkedTables projects).issues [linkedPrepared] = .ok issues := by
  rw [linkedTables]
  exact exists_ok_of_isOk acceptedTables_issues

theorem linkedTables_hours (projects : Finset ProjectId) :
    ∃ hourly, updateHourly quotaEnvironment quotaPolicy (linkedTables projects).hourly [linkedPrepared] = .ok hourly := by
  rw [linkedTables]
  exact exists_ok_of_isOk acceptedTables_hours

theorem linkedTables_valid (projects : Finset ProjectId) :
    ValidPending quotaEnvironment quotaPolicy (linkedTables projects) [linkedEvent] linkedBatch [linkedPrepared] where
  validated := quotaPolicy_valid
  size := by decide
  offers := linkedBatch_offers
  locked := linkedTables_locked projects
  all := rfl
  issues := linkedTables_issues projects
  hours := linkedTables_hours projects

theorem linkedTables_unambiguous (projects : Finset ProjectId) :
    Unambiguous quotaEnvironment (linkedTables projects) [linkedEvent] where
  versions := by
    intro event hevent other hother ref _ _
    rw [List.mem_singleton.mp hevent, List.mem_singleton.mp hother]
  storedVersions := by
    intro event hevent ref row _ hrow
    rw [List.mem_singleton.mp hevent]
    simp only [linkedTables, Table.get_insert, Table.get_empty] at hrow
    split_ifs at hrow
    cases hrow
    rfl
  names := by
    intro event hevent other hother ref _ _
    rw [List.mem_singleton.mp hevent, List.mem_singleton.mp hother]
  storedNames := by
    intro event _ ref row _ hrow
    simp [linkedTables, acceptedTables, quotaTables] at hrow

theorem linkedGroups : (releaseGroups quotaEnvironment (loadScopes acceptedTables linkedBatch) [linkedPrepared]).toList =
    [(releaseRef quotaEnvironment ⟨1, by decide⟩ ⟨"a".toList, by decide⟩, [linkedEvent])] := by
  decide

/-- The release of the Event is overlinked exactly when its projects and that of the Event are too many. -/
theorem linkedTables_overlinked (projects : Finset ProjectId) :
    overlinked quotaPolicy.maxImplicitReleasesPerProjectDay.toNat (linkedTables projects).releases
        (linkedTables projects).releaseProjects (loadScopes (linkedTables projects) linkedBatch)
        (releaseGroups quotaEnvironment (loadScopes (linkedTables projects) linkedBatch) [linkedPrepared]).toList =
      decide (maxReleaseProjects < (projects ∪ {linkedEvent.projectId}).card) := by
  rw [linkedTables_loadScopes, linkedGroups, overlinked, overlinked, Bool.or_false, takes, linkedWith, linkedTables]
  simp

theorem finalized_iff_linkable_first :
    ∃ result next, finalizeInner quotaEnvironment quotaPolicy (linkedTables ∅) [linkedEvent] = .ok (result, next)
      ∧ ∀ event ∈ [linkedEvent], ∃ row, next.events[event.key]? = some row ∧ row.processingState = .finalized := by
  refine (finalized_iff_linkable quotaEnvironment quotaPolicy (linkedTables ∅) [linkedEvent] linkedBatch
    [linkedPrepared] (linkedTables_valid ∅) (linkedTables_unambiguous ∅)).mpr ?_
  rw [linkedTables_overlinked]
  decide

/-- The projects after the first. -/
def otherProjects : Finset ProjectId :=
  Finset.univ.image fun index : Fin 256 => ⟨(index.val : Int) + 2, by omega⟩

theorem otherProjects_card : otherProjects.card = 256 := by
  rw [otherProjects, Finset.card_image_of_injective, Finset.card_univ, Fintype.card_fin]
  intro left right h
  have hget := congrArg ProjectId.get h
  dsimp only at hget
  exact Fin.ext (by omega)

/-- The first project is not among the others. -/
theorem not_mem_otherProjects : linkedEvent.projectId ∉ otherProjects := by
  intro hmem
  obtain ⟨index, -, hindex⟩ := Finset.mem_image.mp hmem
  have hget : (index.val : Int) + 2 = 1 := congrArg ProjectId.get hindex
  omega

/-- The one Event of a valid batch is not finalized: its release has 256 projects already, and that of the Event
is not one of them. -/
theorem full_release_blocks :
    ValidPending quotaEnvironment quotaPolicy (linkedTables otherProjects) [linkedEvent] linkedBatch [linkedPrepared]
      ∧ Unambiguous quotaEnvironment (linkedTables otherProjects) [linkedEvent]
      ∧ ¬ ∃ result next,
        finalizeInner quotaEnvironment quotaPolicy (linkedTables otherProjects) [linkedEvent] = .ok (result, next) := by
  have hvalid := linkedTables_valid otherProjects
  have hids := linkedTables_unambiguous otherProjects
  refine ⟨hvalid, hids, ?_⟩
  rintro ⟨result, next, hcall⟩
  have hfits := (hvalid.finalizePending_ok_iff hids).mp ⟨next, hvalid.finalizePending_of hcall⟩
  rw [linkedTables_overlinked, decide_eq_false_iff_not, Finset.union_comm, ← Finset.insert_eq,
    Finset.card_insert_of_notMem not_mem_otherProjects, otherProjects_card] at hfits
  exact hfits (by decide)

end PostgresFinalization

end MetricBackend
