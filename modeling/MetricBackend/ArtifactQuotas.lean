import MetricBackend.ArtifactCollection
import MetricBackend.LibBatches

/-! What organizations are charged for their bundles. Publications raise the counters of an organization and
collections lower them; the counters are always the number and the size of the bundles it keeps, within its quota. -/

namespace MetricBackend

namespace PostgresArtifacts

/-! ### The usage of the stored bundles -/

/-- What a row adds to a counter of an organization. -/
def StoredBundle.charge (organizationId : OrganizationId) (measure : StoredBundle → Nat) (row : StoredBundle) : Nat :=
  if row.organizationId = organizationId ∧ row.isCounted = true then measure row else 0

def chargedTo (organizationId : OrganizationId) (measure : StoredBundle → Nat)
    (bundles : Table ArtifactBundleId StoredBundle) : Nat :=
  Table.sumRows (StoredBundle.charge organizationId measure) bundles

/-- The usage that the bundles of an organization come to. -/
def storedUsage (bundles : Table ArtifactBundleId StoredBundle) (organizationId : OrganizationId) : ArtifactUsage where
  artifactBytes := chargedTo organizationId (·.size) bundles
  artifactCount := chargedTo organizationId (fun _ => 1) bundles

section Charge

variable {organizationId : OrganizationId} {measure : StoredBundle → Nat} {row next : StoredBundle}
  {bundles : Table ArtifactBundleId StoredBundle} {id : ArtifactBundleId}

theorem StoredBundle.isCounted_of_live (h : row.phase = .live) : row.isCounted = true := by
  unfold isCounted
  rw [h]
  rfl

theorem StoredBundle.isCounted_of_claimed (h : row.phase = .claimed) : row.isCounted = true := by
  unfold isCounted
  rw [h]
  rfl

theorem StoredBundle.isCounted_of_gone (h : row.phase = .gone) : row.isCounted = false := by
  unfold isCounted
  rw [h]
  rfl

theorem StoredBundle.charge_of_counted (horganization : row.organizationId = organizationId)
    (h : row.isCounted = true) : row.charge organizationId measure = measure row := if_pos ⟨horganization, h⟩

theorem StoredBundle.charge_of_ne (h : row.organizationId ≠ organizationId) : row.charge organizationId measure = 0 :=
  if_neg fun hcounted => h hcounted.1

theorem StoredBundle.charge_of_not_counted (h : row.isCounted = false) : row.charge organizationId measure = 0 := by
  apply if_neg
  rw [h]
  exact fun hcounted => Bool.false_ne_true hcounted.2

theorem chargedTo_insert (organizationId : OrganizationId) (measure : StoredBundle → Nat)
    (bundles : Table ArtifactBundleId StoredBundle) (id : ArtifactBundleId) (next : StoredBundle) :
    chargedTo organizationId measure (bundles.insert id next)
        + bundles[id]?.elim 0 (StoredBundle.charge organizationId measure)
      = chargedTo organizationId measure bundles + next.charge organizationId measure :=
  Table.sumRows_insert _ bundles id next

/-- A write that leaves a bundle counted as it was changes no usage. -/
theorem storedUsage_insert_of_same (hrow : bundles[id]? = some row)
    (horganization : next.organizationId = row.organizationId) (hcounted : next.isCounted = row.isCounted)
    (hsize : next.size = row.size) : storedUsage (bundles.insert id next) = storedUsage bundles := by
  funext organizationId
  have hsame : ∀ measure : StoredBundle → Nat, measure next = measure row →
      chargedTo organizationId measure (bundles.insert id next) = chargedTo organizationId measure bundles := by
    intro measure hmeasure
    have hsum := chargedTo_insert organizationId measure bundles id next
    have hcharge : next.charge organizationId measure = row.charge organizationId measure := by
      unfold StoredBundle.charge
      rw [horganization, hcounted, hmeasure]
    rw [hrow, Option.elim_some, hcharge] at hsum
    exact Nat.add_right_cancel hsum
  unfold storedUsage
  rw [hsame _ hsize, hsame _ rfl]

theorem storedUsage_erase (hrow : bundles[id]? = some row) (hgone : row.isCounted = false) :
    storedUsage (bundles.erase id) = storedUsage bundles := by
  funext organizationId
  have hsame : ∀ measure : StoredBundle → Nat,
      chargedTo organizationId measure (bundles.erase id) = chargedTo organizationId measure bundles := by
    intro measure
    have hsum := Table.sumRows_erase (StoredBundle.charge organizationId measure) bundles id
    rw [hrow, Option.elim_some, StoredBundle.charge_of_not_counted hgone, Nat.add_zero] at hsum
    exact hsum
  unfold storedUsage
  rw [hsame, hsame]

/-- A bundle that begins to count adds its size to its own organization. -/
theorem storedUsage_insert_of_fresh
    (hbefore : ∀ row, bundles[id]? = some row → row.isCounted = false) (hcounted : next.isCounted = true)
    (organizationId : OrganizationId) :
    storedUsage (bundles.insert id next) organizationId = if next.organizationId = organizationId then
      ⟨(storedUsage bundles organizationId).artifactBytes + next.size,
        (storedUsage bundles organizationId).artifactCount + 1⟩
    else storedUsage bundles organizationId := by
  have hold : ∀ measure : StoredBundle → Nat,
      bundles[id]?.elim 0 (StoredBundle.charge organizationId measure) = 0 := by
    intro measure
    cases hrow : bundles[id]? with
    | none => rfl
    | some row => exact StoredBundle.charge_of_not_counted (hbefore row hrow)
  have hsum : ∀ measure : StoredBundle → Nat, chargedTo organizationId measure (bundles.insert id next)
      = chargedTo organizationId measure bundles + next.charge organizationId measure := by
    intro measure
    have hsum := chargedTo_insert organizationId measure bundles id next
    rw [hold, Nat.add_zero] at hsum
    exact hsum
  unfold storedUsage
  rw [hsum, hsum]
  split_ifs with horganization
  · rw [StoredBundle.charge_of_counted horganization hcounted, StoredBundle.charge_of_counted horganization hcounted]
  · rw [StoredBundle.charge_of_ne horganization, StoredBundle.charge_of_ne horganization, Nat.add_zero, Nat.add_zero]

/-- A bundle that no longer counts takes its size off its own organization. -/
theorem storedUsage_insert_of_collected (hrow : bundles[id]? = some row) (hcounted : row.isCounted = true)
    (hgone : next.isCounted = false) (organizationId : OrganizationId) :
    storedUsage bundles organizationId = if row.organizationId = organizationId then
      ⟨(storedUsage (bundles.insert id next) organizationId).artifactBytes + row.size,
        (storedUsage (bundles.insert id next) organizationId).artifactCount + 1⟩
    else storedUsage (bundles.insert id next) organizationId := by
  have hsum : ∀ measure : StoredBundle → Nat, chargedTo organizationId measure bundles
      = chargedTo organizationId measure (bundles.insert id next) + row.charge organizationId measure := by
    intro measure
    have hsum := chargedTo_insert organizationId measure bundles id next
    rw [hrow, Option.elim_some, StoredBundle.charge_of_not_counted hgone, Nat.add_zero] at hsum
    exact hsum.symm
  unfold storedUsage
  rw [hsum, hsum]
  split_ifs with horganization
  · rw [StoredBundle.charge_of_counted horganization hcounted, StoredBundle.charge_of_counted horganization hcounted]
  · rw [StoredBundle.charge_of_ne horganization, StoredBundle.charge_of_ne horganization, Nat.add_zero, Nat.add_zero]

end Charge

/-! ### The counters -/

/-- The counters of an organization are the usage of its bundles, within the quota. An organization without a row has
no bundles. -/
structure Accounted (quota : ArtifactQuota) (tables : ArtifactTables) : Prop where
  usage : ∀ organizationId : OrganizationId,
    tables.organizations[organizationId]?.getD ⟨0, 0⟩ = storedUsage tables.bundles organizationId
  bytes : ∀ organizationId : OrganizationId,
    (storedUsage tables.bundles organizationId).artifactBytes ≤ limitOr quota.maximumBytesPerOrganization
  count : ∀ organizationId : OrganizationId,
    (storedUsage tables.bundles organizationId).artifactCount ≤ limitOr quota.maximumBundlesPerOrganization

variable {quota : ArtifactQuota} {tables next : ArtifactTables}

theorem Accounted.of_same (h : Accounted quota tables)
    (hbundles : storedUsage next.bundles = storedUsage tables.bundles)
    (horganizations : ∀ organizationId : OrganizationId, next.organizations[organizationId]?.getD ⟨0, 0⟩
      = tables.organizations[organizationId]?.getD ⟨0, 0⟩) : Accounted quota next where
  usage organizationId := by
    rw [horganizations, hbundles]
    exact h.usage organizationId
  bytes := by
    rw [hbundles]
    exact h.bytes
  count := by
    rw [hbundles]
    exact h.count

theorem Accounted.step (h : Accounted quota tables) (hstep : TablesStep tables next) : Accounted quota next := by
  cases hstep with
  | idle hbundles horganizations =>
      apply h.of_same
      · rw [hbundles]
      · rw [horganizations]
        exact fun _ => rfl
  | join organizationId habsent hbundles horganizations =>
      apply h.of_same
      · rw [hbundles]
      · intro other
        rw [horganizations, Table.get_insert]
        split_ifs with heq
        · subst heq
          rw [habsent]
          rfl
        · rfl
  | write id row written hrow hchange hcounted hbundles horganizations =>
      apply h.of_same
      · rw [hbundles]
        exact storedUsage_insert_of_same hrow hchange.organizationId hcounted hchange.size
      · rw [horganizations]
        exact fun _ => rfl
  | collect id row written usage hrow hchange hclaimed hgone husage hbundles horganizations =>
      have hcounted := StoredBundle.isCounted_of_claimed hclaimed
      have hnot := StoredBundle.isCounted_of_gone hgone
      have hbefore := storedUsage_insert_of_collected hrow hcounted hnot
      rw [← hbundles] at hbefore
      refine ⟨fun organizationId => ?_, fun organizationId => ?_, fun organizationId => ?_⟩
      · have hold := h.usage organizationId
        rw [hbefore organizationId] at hold
        rw [horganizations, Table.get_insert]
        split_ifs with heq
        · subst heq
          rw [if_pos rfl, husage, Option.getD_some] at hold
          rw [hold, Option.getD_some, Nat.add_sub_cancel, Nat.add_sub_cancel]
        · rw [if_neg heq] at hold
          exact hold
      · have hbytes := h.bytes organizationId
        rw [hbefore organizationId] at hbytes
        split_ifs at hbytes with heq
        · exact (Nat.le_add_right _ _).trans hbytes
        · exact hbytes
      · have hcount := h.count organizationId
        rw [hbefore organizationId] at hcount
        split_ifs at hcount with heq
        · exact (Nat.le_add_right _ _).trans hcount
        · exact hcount

/-- A reservation is refused where it would go over a limit. -/
theorem reserveUsage_eq_ok {held usage : ArtifactUsage} {size : Nat} :
    reserveUsage quota held size = .ok usage ↔
      (held.artifactBytes + size ≤ limitOr quota.maximumBytesPerOrganization
        ∧ held.artifactCount < limitOr quota.maximumBundlesPerOrganization)
      ∧ ⟨held.artifactBytes + size, held.artifactCount + 1⟩ = usage := by
  simp only [reserveUsage, bind_eq_ok, failIf_eq_ok, pure_eq_ok, not_or, not_lt, not_le]
  constructor
  · rintro ⟨-, hlimits, heq⟩
    exact ⟨hlimits, heq⟩
  · rintro ⟨hlimits, heq⟩
    exact ⟨(), hlimits, heq⟩

theorem Accounted.publish (h : Accounted quota tables) {bundle : ArtifactBundle}
    (heffect : PublishEffect quota bundle tables next) : Accounted quota next := by
  cases heffect with
  | reserves written held usage hwritten hsize hbefore hheld husage hbundles horganizations =>
      have hfresh : ∀ row, tables.bundles[bundle.id]? = some row → row.isCounted = false := by
        intro row hrow
        rcases hbefore with ⟨hnone, -⟩ | ⟨other, hother, hphase, -⟩
        · rw [hnone] at hrow
          cases hrow
        · rw [hother] at hrow
          cases hrow
          unfold StoredBundle.isCounted
          rw [hphase]
          rfl
      have hafter := storedUsage_insert_of_fresh hfresh (StoredBundle.isCounted_of_live hwritten.live)
      rw [← hbundles, hwritten.organizationId, hsize] at hafter
      have hcurrent := h.usage bundle.organizationId
      rw [hheld, Option.getD_some] at hcurrent
      obtain ⟨⟨hbytes, hcount⟩, rfl⟩ := reserveUsage_eq_ok.mp husage
      rw [hcurrent] at hbytes hcount
      refine ⟨fun organizationId => ?_, fun organizationId => ?_, fun organizationId => ?_⟩
      · rw [hafter, horganizations, Table.get_insert]
        split_ifs with heq
        · subst heq
          rw [Option.getD_some, hcurrent]
        · exact h.usage organizationId
      · rw [hafter]
        split_ifs with heq
        · subst heq
          exact hbytes
        · exact h.bytes organizationId
      · rw [hafter]
        split_ifs with heq
        · subst heq
          exact hcount
        · exact h.count organizationId
  | refreshes row written hwritten hsize hrow hlive hbundles horganizations =>
      apply h.of_same
      · rw [hbundles]
        apply storedUsage_insert_of_same hrow
        · rw [hwritten.organizationId, hlive.organizationId]
        · rw [StoredBundle.isCounted_of_live hwritten.live, StoredBundle.isCounted_of_live hlive.live]
        · exact hsize
      · rw [horganizations]
        exact fun _ => rfl

/-- A collection finds the bundle it takes off. -/
theorem Accounted.finish_ne (h : Accounted quota tables) (id : ArtifactBundleId) (generation : BitVec 32)
    (claim : BitVec 128) («until» : Timestamp) :
    finish id generation claim «until» tables ≠ .error .invalidData := by
  intro hfinish
  unfold finish at hfinish
  cases hrow : tables.bundles[id]? with
  | none =>
      rw [hrow] at hfinish
      cases hfinish
  | some row =>
      rw [hrow] at hfinish
      simp only [bind_eq_error] at hfinish
      rcases hfinish with hmissing | ⟨usage, husage, hfinish⟩
      · cases husage : tables.organizations[row.organizationId]? with
        | none =>
            rw [husage] at hmissing
            cases hmissing
        | some usage =>
            rw [husage] at hmissing
            cases hmissing
      · rw [orError_eq_ok] at husage
        by_cases hclaimed : isClaimed generation claim row = true
        · have hcounted : row.isCounted = true := by
            simp only [isClaimed, Bool.and_eq_true] at hclaimed
            apply StoredBundle.isCounted_of_claimed
            unfold StoredBundle.phase
            cases hstate : row.state with
            | claimed held dueAt => rfl
            | _ =>
                rw [hstate] at hclaimed
                cases hclaimed.2
          have hgone : ({ row with state := .tombstone «until» } : StoredBundle).isCounted = false := rfl
          have hwithout := storedUsage_insert_of_collected hrow hcounted hgone row.organizationId
          have hcurrent := h.usage row.organizationId
          rw [husage, Option.getD_some, hwithout, if_pos rfl] at hcurrent
          have hnot : ¬ (usage.artifactCount = 0 ∨ usage.artifactBytes < row.size) := by
            rw [hcurrent]
            dsimp only
            omega
          rw [if_pos hclaimed] at hfinish
          simp only [bind_eq_error, failIf_eq_error] at hfinish
          rcases hfinish with ⟨hlow, -⟩ | ⟨-, -, hdone⟩
          · exact hnot hlow
          · cases hdone
        · rw [if_neg hclaimed] at hfinish
          cases hfinish

end PostgresArtifacts

namespace ArtifactService

open PostgresArtifacts

/-! ### Runs -/

/-- What an action does to the tables. -/
inductive TablesEffect (quota : ArtifactQuota) (before after : ArtifactTables) : Prop where
  | steps (hsteps : Relation.ReflTransGen TablesStep before after)
  | publishes (bundle : ArtifactBundle) (heffect : PublishEffect quota bundle before after)
  | expires (id : ArtifactBundleId) (row : StoredBundle) (hrow : before.bundles[id]? = some row)
      (hgone : row.phase = .gone) (hafter : after = { before with bundles := before.bundles.erase id })

section Effect

variable {format : BundleFormat} {config : ArtifactConfig} {quota : ArtifactQuota}

theorem TablesEffect.same (tables : ArtifactTables) : TablesEffect quota tables tables := .steps .refl

theorem TablesEffect.step {tables next : ArtifactTables} (hstep : TablesStep tables next) :
    TablesEffect quota tables next := .steps (.single hstep)

theorem TablesEffect.accounted {tables next : ArtifactTables} (heffect : TablesEffect quota tables next)
    (h : Accounted quota tables) : Accounted quota next := by
  cases heffect with
  | steps hsteps =>
      induction hsteps with
      | refl => exact h
      | tail _ hstep ih => exact ih.step hstep
  | publishes bundle heffect => exact h.publish heffect
  | expires id row hrow hgone hafter =>
      subst hafter
      exact h.of_same (storedUsage_erase hrow (StoredBundle.isCounted_of_gone hgone)) fun _ => rfl

@[simp] theorem tables_setPublication (system : ArtifactSystem) (index : Nat) (next : Option Publication) :
    (system.setPublication index next).tables = system.tables := by cases next <;> rfl

@[simp] theorem tables_setCollection (system : ArtifactSystem) (index : Nat) (next : Option Collection) :
    (system.setCollection index next).tables = system.tables := by cases next <;> rfl

theorem startAssembly_effect (upload : ArtifactUpload) (now : Timestamp) (tables : ArtifactTables) :
    TablesEffect quota tables (startAssembly upload now tables).1 := by
  unfold startAssembly
  split
  · exact .same _
  · rename_i after hupdate
    exact .step (updateUpload_step hupdate)

theorem start_effect (record : ArtifactUploadRecord) (now : Timestamp) (tables : ArtifactTables) :
    TablesEffect quota tables (start record now tables).1 := by
  unfold ArtifactService.start
  split_ifs
  · split
    · exact .same _
    · exact startAssembly_effect _ _ _
    · split
      · exact .same _
      · exact .same _
  · exact startAssembly_effect _ _ _

theorem number_effect (upload : ArtifactUpload) (bytes : List (BitVec 8)) (now : Timestamp)
    (tables : ArtifactTables) : TablesEffect quota tables (number format config upload bytes now tables).1 := by
  unfold ArtifactService.number
  simp only
  split
  · exact .same _
  · rename_i after publication hstep
    simp only [bind_eq_ok, mapError_eq_ok] at hstep
    obtain ⟨validated, -, «until», -, ⟨numbered, generation⟩, hgeneration, hstep⟩ := hstep
    cases hstep
    exact .step (generation_step hgeneration)

theorem publish_effect (uploadId : BitVec 128) (bundle : ArtifactBundle) (attempts : Nat) (assembled : Bool)
    (bound : List ArtifactBinding) (tables : ArtifactTables) :
    TablesEffect quota tables (publish quota uploadId bundle attempts assembled bound tables).1 := by
  unfold ArtifactService.publish
  split
  · exact .same _
  · rename_i after hattempt
    exact .publishes bundle (publishAttempt_effect hattempt)
  · split_ifs
    · exact .same _
    · exact .same _

theorem settle_effect (uploadId : BitVec 128) (error : ArtifactError) (now : Timestamp) (tables : ArtifactTables) :
    TablesEffect quota tables (settle uploadId error now tables) := by
  unfold ArtifactService.settle
  simp only
  split
  · exact .same _
  · rename_i after hupdate
    exact .step (updateUpload_step hupdate)

theorem claimDue_effect (now : Timestamp) (held : BitVec 128) (candidates : List ArtifactBundleId)
    (tables : ArtifactTables) : TablesEffect quota tables (claimDue config now held candidates tables).1 := by
  unfold ArtifactService.claimDue
  split
  · exact .same _
  · split
    · exact .same _
    · rename_i claimed hclaim
      simp only [claim, bind_eq_ok] at hclaim
      obtain ⟨-, -, hclaim⟩ := hclaim
      exact .steps (claimCandidates_steps hclaim)

theorem finishClaim_effect (claim : ArtifactGcClaim) (now : Timestamp) (tables : ArtifactTables) :
    TablesEffect quota tables (finishClaim config claim now tables) := by
  unfold ArtifactService.finishClaim
  split
  · exact .same _
  · split
    · exact .same _
    · rename_i after done hfinish
      exact .step (finish_step hfinish)

theorem stepPublication_effect (system : ArtifactSystem) (index : Nat) (action : ArtifactAction)
    (publication : Publication) :
    TablesEffect quota system.tables (stepPublication format config quota system index action publication).tables := by
  unfold ArtifactService.stepPublication
  split
  · rw [tables_setPublication]
    exact start_effect _ _ _
  · rw [tables_setPublication]
    exact number_effect _ _ _ _
  · rw [tables_setPublication]
    exact .same _
  · rw [tables_setPublication]
    exact publish_effect _ _ _ _ _ _
  · rw [tables_setPublication]
    exact publish_effect _ _ _ _ _ _
  · rw [tables_setPublication]
    exact .same _
  · rw [tables_setPublication]
    exact settle_effect _ _ _ _
  · rw [tables_setPublication]
    exact .same _
  · exact .same _

theorem stepCollection_effect (system : ArtifactSystem) (index : Nat) (action : ArtifactAction)
    (collection : Collection) :
    TablesEffect quota system.tables (stepCollection config system index action collection).tables := by
  unfold ArtifactService.stepCollection
  split
  · rw [tables_setCollection]
    exact .same _
  · rw [tables_setCollection]
    exact .same _
  · rw [tables_setCollection]
    exact finishClaim_effect _ _ _
  · rw [tables_setCollection]
    exact .same _
  · exact .same _

theorem onPublication_effect (system : ArtifactSystem) (index : Nat) (action : ArtifactAction) :
    TablesEffect quota system.tables (onPublication format config quota system index action).tables := by
  unfold ArtifactService.onPublication
  cases system.publications[index]? with
  | none => exact .same _
  | some publication => exact stepPublication_effect system index action publication

theorem onCollection_effect (system : ArtifactSystem) (index : Nat) (action : ArtifactAction) :
    TablesEffect quota system.tables (onCollection config system index action).tables := by
  unfold ArtifactService.onCollection
  cases system.collections[index]? with
  | none => exact .same _
  | some collection => exact stepCollection_effect system index action collection

theorem request_effect (upload : ArtifactUpload) (system : ArtifactSystem) :
    TablesEffect quota system.tables (request upload system).tables := by
  unfold ArtifactService.request
  split
  · exact .same _
  · rename_i after record hmerge
    exact .step (mergeUpload_step hmerge)

theorem recover_effect (id : BitVec 128) (system : ArtifactSystem) :
    TablesEffect quota system.tables (recover id system).tables := by
  unfold ArtifactService.recover
  split
  · exact .same _
  · split
    · exact .same _
    · exact .same _

theorem execute_effect (system : ArtifactSystem) (action : ArtifactAction) :
    TablesEffect quota system.tables (execute format config quota system action).tables := by
  cases action with
  | insertProject project row =>
      simp only [ArtifactService.execute]
      split
      · exact .same _
      · exact .step (.idle rfl rfl)
  | insertOrganization organizationId =>
      simp only [ArtifactService.execute]
      split
      · exact .same _
      · rename_i habsent
        exact .step (.join organizationId (Std.ExtTreeMap.getElem?_eq_none habsent) rfl rfl)
  | setProjectState project state =>
      simp only [ArtifactService.execute]
      split
      · exact .same _
      · exact .step (.idle rfl rfl)
  | request upload => exact request_effect upload system
  | recover id => exact recover_effect id system
  | start index now => exact onPublication_effect system index _
  | number index bytes now => exact onPublication_effect system index _
  | write index now => exact onPublication_effect system index _
  | publish index bound => exact onPublication_effect system index _
  | publishUnanswered index bound => exact onPublication_effect system index _
  | failPublication index error => exact onPublication_effect system index _
  | settle index now => exact onPublication_effect system index _
  | dropPublication index => exact onPublication_effect system index _
  | removeBinding organizationId id binding orphan uploadedAt =>
      simp only [ArtifactService.execute]
      split
      · rename_i after hremove
        exact .step (remove_step hremove)
      · exact .same _
  | claim now held candidates => exact claimDue_effect now held candidates system.tables
  | validate index now => exact onCollection_effect system index _
  | delete index => exact onCollection_effect system index _
  | finish index now => exact onCollection_effect system index _
  | dropCollection index => exact onCollection_effect system index _
  | expireBundle now id =>
      show TablesEffect quota system.tables (PostgresArtifacts.expireBundle now id system.tables)
      rcases expireBundle_cases now id system.tables with heq | ⟨row, hrow, hgone, heq⟩
      · rw [heq]
        exact .same _
      · exact .expires id row hrow hgone heq
  | expireUpload now id => exact .step (expireUpload_step now id system.tables)
  | unbindBundle organizationId project now operation id =>
      exact .step (unbindBundle_step organizationId project now operation id system.tables)
  | unbindUpload organizationId project id =>
      exact .step (unbindUpload_step organizationId project id system.tables)

theorem Initial.accounted {system : ArtifactSystem} (h : Initial system) : Accounted quota system.tables := by
  have hempty : system.tables.bundles = ∅ := by
    apply Std.ExtTreeMap.ext_getElem?
    intro id
    rw [h.bundles, Table.get_empty]
  have hnone : ∀ organizationId : OrganizationId, storedUsage system.tables.bundles organizationId = ⟨0, 0⟩ := by
    intro organizationId
    rw [hempty]
    rfl
  refine ⟨fun organizationId => ?_, fun organizationId => ?_, fun organizationId => ?_⟩
  · rw [hnone]
    cases husage : system.tables.organizations[organizationId]? with
    | none => rfl
    | some usage => exact h.organizations organizationId usage husage
  · rw [hnone]
    exact Nat.zero_le _
  · rw [hnone]
    exact Nat.zero_le _

end Effect

/-- The counters of every organization are the usage of its bundles and within the quota, in every run, and no
collection is refused for what it would take off them. -/
theorem usage_accounted (format : BundleFormat) (config : ArtifactConfig) (quota : ArtifactQuota)
    (system : ArtifactSystem) (actions : List ArtifactAction) (hinitial : Initial system) :
    Always (execute format config quota) (fun system =>
      (∀ (organizationId : OrganizationId) (usage : ArtifactUsage),
        system.tables.organizations[organizationId]? = some usage →
          usage = storedUsage system.tables.bundles organizationId
          ∧ usage.artifactBytes ≤ limitOr quota.maximumBytesPerOrganization
          ∧ usage.artifactCount ≤ limitOr quota.maximumBundlesPerOrganization)
      ∧ ∀ (id : ArtifactBundleId) (generation : BitVec 32) (claim : BitVec 128) («until» : Timestamp),
        finish id generation claim «until» system.tables ≠ .error .invalidData) system actions := by
  have hstep : ∀ system action, Accounted quota system.tables → True →
      Accounted quota (execute format config quota system action).tables :=
    fun system action haccounted _ => (execute_effect system action).accounted haccounted
  refine always_of_throughout ?_ hstep actions system hinitial.accounted
    (throughout_of_forall (fun _ _ => trivial) system actions)
  intro system haccounted
  refine ⟨fun organizationId usage husage => ?_, haccounted.finish_ne⟩
  have hcurrent := haccounted.usage organizationId
  rw [husage, Option.getD_some] at hcurrent
  subst hcurrent
  exact ⟨rfl, haccounted.bytes organizationId, haccounted.count organizationId⟩

theorem usage_accounted_sample :
    Always (execute sampleFormat sampleConfig ⟨300, 1⟩) (fun system =>
      (∀ (organizationId : OrganizationId) (usage : ArtifactUsage),
        system.tables.organizations[organizationId]? = some usage →
          usage = storedUsage system.tables.bundles organizationId
          ∧ usage.artifactBytes ≤ limitOr 300 ∧ usage.artifactCount ≤ limitOr 1)
      ∧ ∀ (id : ArtifactBundleId) (generation : BitVec 32) (claim : BitVec 128) («until» : Timestamp),
        finish id generation claim «until» system.tables ≠ .error .invalidData) emptySystem collectingRun :=
  usage_accounted sampleFormat sampleConfig ⟨300, 1⟩ emptySystem collectingRun
    ⟨fun _ => rfl, fun _ _ h => (by cases h), rfl, rfl⟩

end ArtifactService

end MetricBackend
