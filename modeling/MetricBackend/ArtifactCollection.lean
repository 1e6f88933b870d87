import Mathlib.Logic.Relation
import MetricBackend.ArtifactAssembly
import MetricBackend.LibFences
import MetricBackend.LibIndexed
import MetricBackend.LibRuns

/-! Published bundles keep their objects. Collection deletes the object of a generation only, and a deleted bundle comes
back under the next one: whoever still holds an old generation, to delete or to publish, meets no live content. -/

namespace MetricBackend

namespace PostgresArtifacts

/-! ### The fence of a row -/

namespace StoredBundle

def phase (row : StoredBundle) : SlotPhase :=
  match row.state with
  | .published _ => .live
  | .claimed _ _ => .claimed
  | .tombstone _ => .gone
  | .reserved _ => .reserved

def slot (row : StoredBundle) : Slot := ⟨row.generation.toNat, row.phase⟩

/-- A bundle counts for its organization until it is collected. -/
def isCounted (row : StoredBundle) : Bool := row.phase = .live ∨ row.phase = .claimed

end StoredBundle

def slotOf (tables : ArtifactTables) (id : ArtifactBundleId) : Option Slot := tables.bundles[id]?.map StoredBundle.slot

/-- A write that publishes nothing. -/
structure RowChange (row next : StoredBundle) : Prop where
  organizationId : next.organizationId = row.organizationId
  checksum : next.checksum = row.checksum
  size : next.size = row.size
  step : Slot.Step (some row.slot) (some next.slot)
  live : next.phase = .live → row.phase = .live
  bindings : next.bindings ⊆ row.bindings
  unbound : next.phase ≠ .live → row.phase = .live → next.bindings = []

theorem RowChange.generation {row next : StoredBundle} (h : RowChange row next) (hlive : next.phase = .live) :
    next.generation = row.generation := by
  have hstep := h.step
  have hrow := h.live hlive
  unfold StoredBundle.slot at hstep
  rw [hlive, hrow] at hstep
  cases hgeneration : next.generation.toNat == row.generation.toNat with
  | true => exact BitVec.eq_of_toNat_eq (beq_iff_eq.mp hgeneration)
  | false =>
      have hne := beq_eq_false_iff_ne.mp hgeneration
      generalize next.generation.toNat = after at hstep hne
      generalize row.generation.toNat = before at hstep hne
      cases hstep
      exact absurd rfl hne

/-- What a transaction other than a publication and the expiry of a tombstone does to the bundles and to the usage of
the organizations. -/
inductive TablesStep (before after : ArtifactTables) : Prop where
  | idle (hbundles : after.bundles = before.bundles) (horganizations : after.organizations = before.organizations)
  | join (organizationId : OrganizationId) (habsent : before.organizations[organizationId]? = none)
      (hbundles : after.bundles = before.bundles)
      (horganizations : after.organizations = before.organizations.insert organizationId ⟨0, 0⟩)
  | write (id : ArtifactBundleId) (row next : StoredBundle) (hrow : before.bundles[id]? = some row)
      (hchange : RowChange row next) (hcounted : next.isCounted = row.isCounted)
      (hbundles : after.bundles = before.bundles.insert id next)
      (horganizations : after.organizations = before.organizations)
  | collect (id : ArtifactBundleId) (row next : StoredBundle) (usage : ArtifactUsage)
      (hrow : before.bundles[id]? = some row) (hchange : RowChange row next) (hclaimed : row.phase = .claimed)
      (hgone : next.phase = .gone) (husage : before.organizations[row.organizationId]? = some usage)
      (hbundles : after.bundles = before.bundles.insert id next)
      (horganizations : after.organizations = before.organizations.insert row.organizationId
        ⟨usage.artifactBytes - row.size, usage.artifactCount - 1⟩)

/-! ### The steps of the store -/

theorem orError_eq_ok {α : Type} {error : ArtifactStoreError} {option : Option α} {value : α} :
    orError error option = .ok value ↔ option = some value := by
  cases option with
  | none => simp [orError]
  | some other => simp [orError]

theorem bundleBySha_eq_some {tables : ArtifactTables} {organizationId : OrganizationId} {sha1 : BitVec 160}
    {id : ArtifactBundleId} {row : StoredBundle} (h : bundleBySha tables organizationId sha1 = some (id, row)) :
    tables.bundles[id]? = some row ∧ row.organizationId = organizationId ∧ row.sha1 = sha1 := by
  have hfound := List.find?_some h
  rw [decide_eq_true_eq] at hfound
  exact ⟨Table.mem_toList.mp (List.mem_of_find?_eq_some h), hfound⟩

variable {tables next : ArtifactTables} {id : ArtifactBundleId}

theorem generation_step {organizationId : OrganizationId} {sha1 : BitVec 160} {«until» : Timestamp}
    {number : BitVec 32} (h : generation organizationId sha1 «until» tables = .ok (next, number)) :
    TablesStep tables next := by
  simp only [generation, bind_eq_ok] at h
  obtain ⟨-, -, h⟩ := h
  cases hfound : bundleBySha tables organizationId sha1 with
  | none =>
      rw [hfound] at h
      cases h
      exact .idle rfl rfl
  | some found =>
      obtain ⟨id, row⟩ := found
      have hrow := (bundleBySha_eq_some hfound).1
      rw [hfound] at h
      simp only at h
      cases hstate : row.state with
      | published dueAt =>
          rw [hstate] at h
          cases h
          exact .idle rfl rfl
      | reserved dueAt =>
          rw [hstate] at h
          cases h
          exact .idle rfl rfl
      | claimed claim dueAt =>
          rw [hstate] at h
          cases h
      | tombstone dueAt =>
          rw [hstate] at h
          simp only [bind_eq_ok, failIf_eq_ok, not_le] at h
          obtain ⟨-, hlt, h⟩ := h
          cases h
          have hnumber : (row.generation + 1).toNat = row.generation.toNat + 1 := by
            rw [BitVec.toNat_add]
            exact Nat.mod_eq_of_lt hlt
          refine .write id row _ hrow ?_ ?_ rfl rfl
          · refine ⟨rfl, rfl, rfl, ?_, fun hlive => (by cases hlive), List.Subset.refl _, fun _ hlive => ?_⟩
            · show Slot.Step (some row.slot) (some ⟨(row.generation + 1).toNat, .reserved⟩)
              rw [hnumber, StoredBundle.slot, StoredBundle.phase, hstate]
              exact .reserve _
            · rw [StoredBundle.phase, hstate] at hlive
              cases hlive
          · simp [StoredBundle.isCounted, StoredBundle.phase, hstate]

theorem remove_step {organizationId : OrganizationId} {binding : ArtifactBinding} {orphan : Timestamp}
    {uploadedAt : Option Timestamp}
    (h : remove organizationId id binding orphan uploadedAt tables = .ok (some next)) : TablesStep tables next := by
  simp only [remove, bind_eq_ok] at h
  obtain ⟨-, -, project, -, -, -, h⟩ := h
  cases hrow : tables.bundles[id]?.filter fun row => row.organizationId = organizationId with
  | none =>
      rw [hrow] at h
      cases h
  | some row =>
      rw [hrow] at h
      have hstored := (Option.filter_eq_some_iff.mp hrow).1
      cases hstate : row.state with
      | published dueAt =>
          simp only [hstate] at h
          by_cases hkept : uploadedAt.any (· ≠ row.uploadedAt) ∨ binding ∉ row.bindings
          · rw [if_pos hkept] at h
            cases h
          · rw [if_neg hkept] at h
            cases h
            refine .write id row _ hstored ?_ ?_ rfl rfl
            · refine ⟨rfl, rfl, rfl, ?_, fun _ => ?_, List.filter_subset_self _, ?_⟩
              · rw [StoredBundle.slot, StoredBundle.slot, StoredBundle.phase, StoredBundle.phase, hstate]
                exact .same _
              · rw [StoredBundle.phase, hstate]
              · exact fun hphase => absurd rfl hphase
            · simp [StoredBundle.isCounted, StoredBundle.phase, hstate]
      | _ =>
          simp only [hstate] at h
          cases h

/-- A due row has no bindings, and is published or claimed. -/
theorem isDue_iff {now : Timestamp} {row : StoredBundle} (h : isDue now row = true) :
    row.bindings = [] ∧ (row.phase = .live ∨ row.phase = .claimed) := by
  rw [isDue, Bool.and_eq_true] at h
  refine ⟨List.isEmpty_iff.mp h.1, ?_⟩
  unfold StoredBundle.phase
  cases hstate : row.state with
  | published dueAt => exact .inl rfl
  | claimed claim dueAt => exact .inr rfl
  | tombstone dueAt =>
      rw [hstate] at h
      cases h.2
  | reserved dueAt =>
      rw [hstate] at h
      cases h.2

theorem claim_step {now «until» : Timestamp} {claim : BitVec 128} {row : StoredBundle}
    (hrow : tables.bundles[id]? = some row) (hdue : isDue now row = true) :
    TablesStep tables { tables with
      bundles := tables.bundles.insert id { row with state := .claimed claim «until» } } := by
  obtain ⟨hbindings, hphase⟩ := isDue_iff hdue
  refine .write id row _ hrow ?_ ?_ rfl rfl
  · refine ⟨rfl, rfl, rfl, ?_, nofun, List.Subset.refl _, fun _ _ => hbindings⟩
    show Slot.Step (some row.slot) (some ⟨row.generation.toNat, .claimed⟩)
    unfold StoredBundle.slot
    rcases hphase with hphase | hphase
    · rw [hphase]
      exact .claim _
    · rw [hphase]
      exact .same _
  · unfold StoredBundle.isCounted
    rcases hphase with hphase | hphase
    · rw [hphase]
      rfl
    · rw [hphase]
      rfl

/-- The rows of a claim are written one after the other, and each claim holds the generation of its row. -/
theorem claimCandidates_steps {now «until» : Timestamp} {claim : BitVec 128} {candidates : List ArtifactBundleId}
    {bytes : Nat} {result claims : List ArtifactGcClaim}
    (h : claimCandidates now «until» claim candidates bytes result tables = .ok (next, claims)) :
    Relation.ReflTransGen TablesStep tables next := by
  induction candidates generalizing bytes result tables with
  | nil =>
      cases h
      exact .refl
  | cons candidate candidates ih =>
      rw [claimCandidates] at h
      cases hdue : tables.bundles[candidate]?.filter (isDue now) with
      | none =>
          rw [hdue] at h
          exact ih h
      | some row =>
          obtain ⟨hrow, hdue'⟩ := Option.filter_eq_some_iff.mp hdue
          rw [hdue] at h
          simp only [bind_eq_ok] at h
          obtain ⟨bundle, -, h⟩ := h
          by_cases hfull : gcResponseBytes < bytes + bundle.debugIdTokens.length * 8 + 256 ∧ result ≠ []
          · rw [if_pos hfull] at h
            cases h
            exact .refl
          · rw [if_neg hfull] at h
            exact .head (claim_step hrow hdue') (ih h)

theorem finish_step {number : BitVec 32} {claim : BitVec 128} {«until» : Timestamp} {done : Bool}
    (h : finish id number claim «until» tables = .ok (next, done)) : TablesStep tables next := by
  unfold finish at h
  cases hrow : tables.bundles[id]? with
  | none =>
      rw [hrow] at h
      cases h
      exact .idle rfl rfl
  | some row =>
      rw [hrow] at h
      simp only [bind_eq_ok, orError_eq_ok] at h
      obtain ⟨usage, husage, h⟩ := h
      by_cases hclaimed : isClaimed number claim row = true
      · simp only [hclaimed, if_true, bind_eq_ok] at h
        obtain ⟨-, -, h⟩ := h
        cases h
        simp only [isClaimed, Bool.and_eq_true, decide_eq_true_eq] at hclaimed
        obtain ⟨⟨hbindings, -⟩, hstate⟩ := hclaimed
        have hphase : row.phase = .claimed := by
          unfold StoredBundle.phase
          cases hcase : row.state with
          | claimed held dueAt => rfl
          | _ =>
              rw [hcase] at hstate
              cases hstate
        refine .collect id row _ usage hrow ?_ hphase rfl husage rfl rfl
        refine ⟨rfl, rfl, rfl, ?_, nofun, List.Subset.refl _, fun _ hlive => absurd (hphase.symm.trans hlive) nofun⟩
        show Slot.Step (some row.slot) (some ⟨row.generation.toNat, .gone⟩)
        rw [StoredBundle.slot, hphase]
        exact .collect _
      · simp only [hclaimed] at h
        cases h
        exact .idle rfl rfl

theorem expireBundle_cases (now : Timestamp) (id : ArtifactBundleId) (tables : ArtifactTables) :
    expireBundle now id tables = tables ∨ ∃ row, tables.bundles[id]? = some row ∧ row.phase = .gone
      ∧ expireBundle now id tables = { tables with bundles := tables.bundles.erase id } := by
  unfold expireBundle
  split_ifs with hexpired
  · obtain ⟨row, hrow, hpast⟩ := (Option.any_eq_true _ _).mp hexpired
    refine .inr ⟨row, hrow, ?_, rfl⟩
    unfold isExpired at hpast
    unfold StoredBundle.phase
    cases hcase : row.state with
    | tombstone dueAt => rfl
    | _ =>
        rw [hcase] at hpast
        cases hpast
  · exact .inl rfl

theorem unbindBundle_step (organizationId : OrganizationId) (project : ProjectId) (now : Timestamp)
    (operation : BitVec 128) (id : ArtifactBundleId) (tables : ArtifactTables) :
    TablesStep tables (unbindBundle organizationId project now operation id tables) := by
  unfold unbindBundle
  cases hrow : tables.bundles[id]?.filter fun row => row.organizationId = organizationId with
  | none => exact .idle rfl rfl
  | some row =>
      have hstored := (Option.filter_eq_some_iff.mp hrow).1
      have hkept : ∀ next : StoredBundle, next.organizationId = row.organizationId → next.checksum = row.checksum →
          next.size = row.size → next.generation = row.generation → next.phase = row.phase →
          next.bindings = row.bindings.filter (·.projectId ≠ project) →
          TablesStep tables { tables with bundles := tables.bundles.insert id next } := by
        intro next horganization hchecksum hsize hgeneration hphase hbindings
        refine .write id row next hstored ?_ ?_ rfl rfl
        · refine ⟨horganization, hchecksum, hsize, ?_, fun hlive => hphase ▸ hlive, ?_, ?_⟩
          · rw [StoredBundle.slot, StoredBundle.slot, hgeneration, hphase]
            exact .same _
          · rw [hbindings]
            exact List.filter_subset_self _
          · exact fun hnot hlive => absurd (hphase.trans hlive) hnot
        · unfold StoredBundle.isCounted
          rw [hphase]
      apply hkept
      all_goals
        cases hstate : row.state with
        | published dueAt =>
            simp only
            split_ifs
            · first | rfl | simp [StoredBundle.phase, hstate]
            · first | rfl | simp [StoredBundle.phase, hstate]
        | _ => first | rfl | simp [StoredBundle.phase, hstate]

theorem mergeUpload_step {upload : ArtifactUpload} {record : ArtifactUploadRecord}
    (h : mergeUpload upload tables = .ok (next, record)) : TablesStep tables next := by
  simp only [mergeUpload, bind_eq_ok] at h
  obtain ⟨_, -, _, -, _, -, _, -, _, -, _, -, _, -, h⟩ := h
  cases h
  exact .idle rfl rfl

theorem updateUpload_step {uploadId : BitVec 128} {state : ArtifactUploadState} {now : Timestamp}
    {finalId : Option ArtifactBundleId} {code : Option Nat}
    (h : updateUpload uploadId state now finalId code tables = .ok next) : TablesStep tables next := by
  simp only [updateUpload, bind_eq_ok] at h
  obtain ⟨_, -, _, -, _, -, _, -, h⟩ := h
  cases h
  exact .idle rfl rfl

theorem expireUpload_step (now : Timestamp) (uploadId : BitVec 128) (tables : ArtifactTables) :
    TablesStep tables (expireUpload now uploadId tables) := by
  unfold expireUpload
  split_ifs
  · exact .idle rfl rfl
  · exact .idle rfl rfl

theorem unbindUpload_step (organizationId : OrganizationId) (project : ProjectId) (uploadId : BitVec 128)
    (tables : ArtifactTables) : TablesStep tables (unbindUpload organizationId project uploadId tables) := by
  unfold unbindUpload
  split
  · exact .idle rfl rfl
  · exact .idle rfl rfl

/-! ### Publication -/

/-- The row of a bundle that has just been published. -/
structure PublishedAs (bundle : ArtifactBundle) (next : StoredBundle) : Prop where
  live : next.phase = .live
  organizationId : next.organizationId = bundle.organizationId
  checksum : next.checksum = bundle.checksum
  generation : next.generation = bundle.generation

/-- What a publication does: its bundle is new or comes back from a reservation, or it was published before. -/
inductive PublishEffect (quota : ArtifactQuota) (bundle : ArtifactBundle) (before after : ArtifactTables) : Prop where
  | reserves (next : StoredBundle) (held usage : ArtifactUsage) (hnext : PublishedAs bundle next)
      (hsize : next.size = bundle.size)
      (hbefore : before.bundles[bundle.id]? = none ∧ bundle.generation = 0
        ∨ ∃ row, before.bundles[bundle.id]? = some row ∧ row.phase = .reserved ∧ PublishedAs bundle { row with
          state := .published none })
      (hheld : before.organizations[bundle.organizationId]? = some held)
      (husage : reserveUsage quota held bundle.size = .ok usage)
      (hbundles : after.bundles = before.bundles.insert bundle.id next)
      (horganizations : after.organizations = before.organizations.insert bundle.organizationId usage)
  | refreshes (row next : StoredBundle) (hnext : PublishedAs bundle next) (hsize : next.size = row.size)
      (hrow : before.bundles[bundle.id]? = some row) (hlive : PublishedAs bundle row)
      (hbundles : after.bundles = before.bundles.insert bundle.id next)
      (horganizations : after.organizations = before.organizations)

theorem findExisting_eq_ok {bundle : ArtifactBundle} {existing : Existing}
    (h : findExisting bundle tables = .ok existing) :
    match existing with
    | .absent => bundle.generation = 0
    | .reserved row => tables.bundles[bundle.id]? = some row ∧ row.phase = .reserved
        ∧ PublishedAs bundle { row with state := .published none }
    | .published row _ => tables.bundles[bundle.id]? = some row ∧ PublishedAs bundle row := by
  unfold findExisting at h
  cases hfound : bundleBySha tables bundle.organizationId bundle.sha1 with
  | none =>
      rw [hfound] at h
      simp only [bind_eq_ok, failIf_eq_ok, ne_eq, not_not] at h
      obtain ⟨-, hgeneration, h⟩ := h
      cases h
      exact hgeneration
  | some found =>
      obtain ⟨id, row⟩ := found
      obtain ⟨hrow, horganization, -⟩ := bundleBySha_eq_some hfound
      rw [hfound] at h
      simp only [bind_eq_ok, failIf_eq_ok, ne_eq, not_or, not_not] at h
      obtain ⟨-, ⟨rfl, hchecksum, hgeneration⟩, h⟩ := h
      cases hstate : row.state with
      | published dueAt =>
          simp only [hstate, bind_eq_ok] at h
          obtain ⟨before, -, h⟩ := h
          cases h
          refine ⟨hrow, ?_, horganization, hchecksum, hgeneration⟩
          rw [StoredBundle.phase, hstate]
      | reserved dueAt =>
          simp only [hstate] at h
          cases h
          refine ⟨hrow, ?_, rfl, horganization, hchecksum, hgeneration⟩
          rw [StoredBundle.phase, hstate]
      | _ =>
          simp only [hstate] at h
          cases h

theorem bumpRevisions_frame {projects : List ProjectId} (h : projects.foldlM bumpRevision tables = .ok next) :
    next.bundles = tables.bundles ∧ next.organizations = tables.organizations ∧ next.uploads = tables.uploads := by
  refine foldlM_ok_induction (fun current : ArtifactTables => current.bundles = tables.bundles
    ∧ current.organizations = tables.organizations ∧ current.uploads = tables.uploads) projects tables next h
    ⟨rfl, rfl, rfl⟩ ?_
  intro current project after _ hcurrent hafter
  simp only [bumpRevision, bind_eq_ok] at hafter
  obtain ⟨row, -, hafter⟩ := hafter
  cases hafter
  exact hcurrent

theorem publishedRow_as {bundle : ArtifactBundle} {existing : Existing}
    (h : findExisting bundle tables = .ok existing) (added : List ArtifactBinding) :
    PublishedAs bundle (publishedRow bundle added existing) := by
  have hfound := findExisting_eq_ok h
  cases existing with
  | absent => exact ⟨rfl, rfl, rfl, rfl⟩
  | reserved row => exact ⟨rfl, hfound.2.2.organizationId, rfl, hfound.2.2.generation⟩
  | published row before =>
      exact ⟨rfl, hfound.2.organizationId, hfound.2.checksum, hfound.2.generation⟩

theorem publishAttempt_effect {quota : ArtifactQuota} {uploadId : BitVec 128} {bundle : ArtifactBundle}
    {bound : List ArtifactBinding} (h : publishAttempt quota uploadId bundle bound tables = .ok (some next)) :
    PublishEffect quota bundle tables next := by
  simp only [publishAttempt, bind_eq_ok, failIf_eq_ok, orError_eq_ok] at h
  obtain ⟨-, -, locked, -, held, hheld, upload, -, -, -, existing, hexisting, h⟩ := h
  have hfound := findExisting_eq_ok hexisting
  generalize (if existing.refreshed bundle.uploadedAt = true then
    existing.before.map (·.projectId) else []) = refreshed at h
  by_cases hlocked : refreshed ⊆ locked
  · rw [if_neg (not_not.mpr hlocked)] at h
    simp only [bind_eq_ok, failIf_eq_ok] at h
    obtain ⟨merged, -, usage, husage, -, hfresh, bumped, hbumped, expires, -, h⟩ := h
    cases h
    obtain ⟨hbundles, horganizations, -⟩ := bumpRevisions_frame hbumped
    have hnext := publishedRow_as hexisting (merged.filter fun binding => binding ∉ existing.before)
    cases existing with
    | absent =>
        have hnone : tables.bundles[bundle.id]? = none := by
          by_contra hsome
          exact hfresh ⟨rfl, hsome⟩
        refine .reserves _ held usage hnext rfl (.inl ⟨hnone, hfound⟩) hheld husage ?_ ?_
        · rw [hbundles]
        · rw [horganizations]
    | reserved row =>
        refine .reserves _ held usage hnext rfl (.inr ⟨row, hfound⟩) hheld husage ?_ ?_
        · rw [hbundles]
        · rw [horganizations]
    | published row before =>
        obtain rfl : held = usage := pure_eq_ok.mp husage
        refine .refreshes row _ hnext rfl hfound.1 hfound.2 ?_ ?_
        · rw [hbundles]
        · rw [horganizations]
          exact Table.insert_get_self hheld
  · rw [if_pos hlocked] at h
    cases h

/-! ### What the steps keep -/

theorem TablesStep.get {before after : ArtifactTables} (h : TablesStep before after) (id : ArtifactBundleId) :
    after.bundles[id]? = before.bundles[id]?
      ∨ ∃ row next, before.bundles[id]? = some row ∧ after.bundles[id]? = some next ∧ RowChange row next := by
  have hwritten : ∀ (other : ArtifactBundleId) (row next : StoredBundle), before.bundles[other]? = some row →
      RowChange row next → after.bundles = before.bundles.insert other next →
      after.bundles[id]? = before.bundles[id]?
        ∨ ∃ row next, before.bundles[id]? = some row ∧ after.bundles[id]? = some next ∧ RowChange row next := by
    intro other row next hrow hchange hbundles
    rw [hbundles]
    by_cases heq : other = id
    · subst heq
      exact .inr ⟨row, next, hrow, Table.get_insert_self .., hchange⟩
    · exact .inl (Table.get_insert_of_ne _ _ heq)
  cases h with
  | idle hbundles => exact .inl (by rw [hbundles])
  | join organizationId habsent hbundles => exact .inl (by rw [hbundles])
  | write other row next hrow hchange hcounted hbundles => exact hwritten other row next hrow hchange hbundles
  | collect other row next usage hrow hchange hclaimed hgone husage hbundles =>
      exact hwritten other row next hrow hchange hbundles

theorem TablesStep.past {before after : ArtifactTables} (h : TablesStep before after) {generation : Nat}
    {id : ArtifactBundleId} (hpast : Slot.Past generation (slotOf before id)) :
    Slot.Past generation (slotOf after id) := by
  unfold slotOf at hpast ⊢
  rcases h.get id with hsame | ⟨row, next, hrow, hnext, hchange⟩
  · rw [hsame]
    exact hpast
  · rw [hrow] at hpast
    rw [hnext]
    exact hpast.step hchange.step nofun

theorem TablesStep.live {before after : ArtifactTables} (h : TablesStep before after) {id : ArtifactBundleId}
    {next : StoredBundle} (hnext : after.bundles[id]? = some next) (hlive : next.phase = .live) :
    ∃ row, before.bundles[id]? = some row ∧ row.phase = .live ∧ row.organizationId = next.organizationId
      ∧ row.generation = next.generation ∧ row.checksum = next.checksum ∧ row.size = next.size := by
  rcases h.get id with hsame | ⟨row, other, hrow, hother, hchange⟩
  · exact ⟨next, hsame ▸ hnext, hlive, rfl, rfl, rfl, rfl⟩
  · obtain rfl := Option.some.inj (hother.symm.trans hnext)
    exact ⟨row, hrow, hchange.live hlive, hchange.organizationId.symm, (hchange.generation hlive).symm,
      hchange.checksum.symm, hchange.size.symm⟩

theorem TablesStep.unbound {before after : ArtifactTables} (h : TablesStep before after)
    (hunbound : ∀ (id : ArtifactBundleId) (row : StoredBundle), before.bundles[id]? = some row → row.phase ≠ .live →
      row.bindings = [])
    {id : ArtifactBundleId} {next : StoredBundle} (hnext : after.bundles[id]? = some next)
    (hphase : next.phase ≠ .live) : next.bindings = [] := by
  rcases h.get id with hsame | ⟨row, other, hrow, hother, hchange⟩
  · exact hunbound id next (hsame ▸ hnext) hphase
  · obtain rfl := Option.some.inj (hother.symm.trans hnext)
    by_cases hlive : row.phase = .live
    · exact hchange.unbound hphase hlive
    · have hempty := hunbound id row hrow hlive
      exact List.subset_nil.mp (hempty ▸ hchange.bindings)

theorem PublishEffect.bundles {quota : ArtifactQuota} {bundle : ArtifactBundle} {before after : ArtifactTables}
    (h : PublishEffect quota bundle before after) :
    ∃ next, after.bundles = before.bundles.insert bundle.id next ∧ PublishedAs bundle next := by
  cases h with
  | reserves next held usage hnext hsize hbefore hheld husage hbundles => exact ⟨next, hbundles, hnext⟩
  | refreshes row next hnext hsize hrow hlive hbundles => exact ⟨next, hbundles, hnext⟩

/-- A publication takes nothing out of the past: the generation it publishes is not in it. -/
theorem PublishEffect.past {quota : ArtifactQuota} {bundle : ArtifactBundle} {before after : ArtifactTables}
    (h : PublishEffect quota bundle before after) {generation : Nat} {id : ArtifactBundleId}
    (hpast : Slot.Past generation (slotOf before id)) : Slot.Past generation (slotOf after id) := by
  obtain ⟨next, hbundles, hnext⟩ := h.bundles
  unfold slotOf at hpast ⊢
  rw [hbundles, Table.get_insert]
  split_ifs with heq
  · subst heq
    show Slot.Past generation (some next.slot)
    have hslot : next.slot = ⟨bundle.generation.toNat, .live⟩ := by
      rw [StoredBundle.slot, hnext.generation, hnext.live]
    rw [hslot]
    cases h with
    | reserves other held usage hother hsize hbefore =>
        rcases hbefore with ⟨hnone, -⟩ | ⟨row, hrow, hphase, hrestored⟩
        · rw [hnone] at hpast
          exact absurd hpast Slot.not_past_none
        · have hbefore : row.slot = ⟨bundle.generation.toNat, .reserved⟩ := by
            rw [StoredBundle.slot, show row.generation = bundle.generation from hrestored.generation, hphase]
          rw [hrow, Option.map_some, hbefore] at hpast
          exact hpast.step (.restore _) nofun
    | refreshes row other hother hsize hrow hlive =>
        have hbefore : row.slot = ⟨bundle.generation.toNat, .live⟩ := by
          rw [StoredBundle.slot, hlive.generation, hlive.live]
        rw [hrow, Option.map_some, hbefore] at hpast
        exact hpast
  · exact hpast

/-- The generation that a publication publishes is not in the past. -/
theorem PublishEffect.not_past {quota : ArtifactQuota} {bundle : ArtifactBundle} {before after : ArtifactTables}
    (h : PublishEffect quota bundle before after) :
    ¬ Slot.Past bundle.generation.toNat (slotOf before bundle.id) := by
  intro hpast
  obtain ⟨next, hbundles, hnext⟩ := h.bundles
  have hafter := h.past hpast
  unfold slotOf at hafter
  rw [hbundles, Table.get_insert_self, Option.map_some, StoredBundle.slot, hnext.generation, hnext.live] at hafter
  exact Slot.not_past_live hafter

end PostgresArtifacts

namespace ArtifactService

open PostgresArtifacts

section Fence

variable {format : BundleFormat} {config : ArtifactConfig} {quota : ArtifactQuota} {system : ArtifactSystem}

/-- Under the key there are bytes with this checksum and size. -/
def IsStored (format : BundleFormat) (objects : Objects) (key : BlobKey) (checksum : BitVec 256) (size : Nat) : Prop :=
  ∃ bytes, objects key = some bytes ∧ format.blake3 bytes = checksum ∧ bytes.length = size

def rowKey (id : ArtifactBundleId) (row : StoredBundle) : BlobKey :=
  BlobKey.artifactBundle row.organizationId id row.generation

/-- Published bundles have their objects, and only they have bindings. A publication under way has its object too, or
came too late; a deletion under way is for a generation of the past. -/
structure Fenced (format : BundleFormat) (system : ArtifactSystem) : Prop where
  live : ∀ (id : ArtifactBundleId) (row : StoredBundle), system.tables.bundles[id]? = some row → row.phase = .live →
    IsStored format system.objects (rowKey id row) row.checksum row.size
  unbound : ∀ (id : ArtifactBundleId) (row : StoredBundle), system.tables.bundles[id]? = some row →
    row.phase ≠ .live → row.bindings = []
  publishing : ∀ uploadId bundle attempts assembled,
    Publication.publishing uploadId bundle attempts assembled ∈ system.publications →
      IsStored format system.objects (bundleKey bundle) bundle.checksum bundle.size
        ∨ Slot.Past bundle.generation.toNat (slotOf system.tables bundle.id)
  deleting : ∀ claim, Collection.validated claim ∈ system.collections →
    Slot.Past claim.bundle.generation.toNat (slotOf system.tables claim.bundle.id)

theorem bundleKey_inj {bundle other : ArtifactBundle} (h : bundleKey bundle = bundleKey other) :
    bundle.organizationId = other.organizationId ∧ bundle.id = other.id ∧ bundle.generation = other.generation := by
  have hinj := BlobOwner.key_injective
    (show (BlobOwner.bundle bundle.organizationId bundle.id bundle.generation).key
      = (BlobOwner.bundle other.organizationId other.id other.generation).key from h)
  rw [BlobOwner.bundle.injEq] at hinj
  exact hinj

theorem Fenced.tables (h : Fenced format system) {after : ArtifactTables} (hstep : TablesStep system.tables after) :
    Fenced format { system with tables := after } where
  live id next hnext hlive := by
    obtain ⟨row, hrow, hrowLive, horganization, hgeneration, hchecksum, hsize⟩ := hstep.live hnext hlive
    have hstored := h.live id row hrow hrowLive
    rw [rowKey, horganization, hgeneration, hchecksum, hsize] at hstored
    exact hstored
  unbound id next hnext hphase := hstep.unbound h.unbound hnext hphase
  publishing uploadId bundle attempts assembled hmem :=
    (h.publishing uploadId bundle attempts assembled hmem).imp_right hstep.past
  deleting claim hmem := hstep.past (h.deleting claim hmem)

theorem Fenced.steps (h : Fenced format system) {after : ArtifactTables}
    (hsteps : Relation.ReflTransGen TablesStep system.tables after) :
    Fenced format { system with tables := after } := by
  induction hsteps with
  | refl => exact h
  | tail _ hstep ih => exact ih.tables hstep

theorem Fenced.setPublication (h : Fenced format system) (index : Nat) {next : Option Publication}
    (hnext : ∀ uploadId bundle attempts assembled, next = some (.publishing uploadId bundle attempts assembled) →
      IsStored format system.objects (bundleKey bundle) bundle.checksum bundle.size
        ∨ Slot.Past bundle.generation.toNat (slotOf system.tables bundle.id)) :
    Fenced format (system.setPublication index next) := by
  cases next with
  | none =>
      refine ⟨h.live, h.unbound, ?_, h.deleting⟩
      intro uploadId bundle attempts assembled hmem
      exact h.publishing uploadId bundle attempts assembled (List.mem_of_mem_eraseIdx hmem)
  | some publication =>
      refine ⟨h.live, h.unbound, ?_, h.deleting⟩
      intro uploadId bundle attempts assembled hmem
      rcases List.mem_or_eq_of_mem_set hmem with hold | heq
      · exact h.publishing uploadId bundle attempts assembled hold
      · exact hnext uploadId bundle attempts assembled (congrArg some heq.symm)

theorem Fenced.setCollection (h : Fenced format system) (index : Nat) {next : Option Collection}
    (hnext : ∀ claim, next = some (.validated claim) →
      Slot.Past claim.bundle.generation.toNat (slotOf system.tables claim.bundle.id)) :
    Fenced format (system.setCollection index next) := by
  cases next with
  | none => exact ⟨h.live, h.unbound, h.publishing, fun claim hmem => h.deleting claim (List.mem_of_mem_eraseIdx hmem)⟩
  | some collection =>
      refine ⟨h.live, h.unbound, h.publishing, fun claim hmem => ?_⟩
      rcases List.mem_or_eq_of_mem_set hmem with hold | heq
      · exact h.deleting claim hold
      · exact hnext claim (congrArg some heq.symm)

theorem Initial.fenced (h : Initial system) : Fenced format system where
  live id row hrow := by
    rw [h.bundles] at hrow
    cases hrow
  unbound id row hrow := by
    rw [h.bundles] at hrow
    cases hrow
  publishing uploadId bundle attempts assembled hmem := by
    rw [h.publications] at hmem
    cases hmem
  deleting claim hmem := by
    rw [h.collections] at hmem
    cases hmem

/-! ### Publications -/

theorem preparePublication_eq_ok {bundle prepared : ArtifactBundle} (h : preparePublication bundle = .ok prepared) :
    ∃ bindings, prepared = { bundle with bindings := bindings } := by
  simp only [preparePublication, bind_eq_ok] at h
  obtain ⟨bindings, -, -, -, h⟩ := h
  cases h
  exact ⟨bindings, rfl⟩

theorem bySha_eq_ok {tables : ArtifactTables} {organizationId : OrganizationId} {sha1 : BitVec 160}
    {bundle : ArtifactBundle} (h : bySha organizationId sha1 tables = .ok (some bundle)) :
    ∃ row, tables.bundles[bundle.id]? = some row ∧ PublishedAs bundle row ∧ row.size = bundle.size := by
  unfold bySha at h
  cases hfound : bundleBySha tables organizationId sha1 with
  | none =>
      rw [hfound] at h
      cases h
  | some found =>
      obtain ⟨id, row⟩ := found
      have hrow := (bundleBySha_eq_some hfound).1
      rw [hfound] at h
      cases hstate : row.state with
      | published dueAt =>
          simp only [hstate, bind_eq_ok, decodeBundle] at h
          obtain ⟨bindings, -, bundle, ⟨-, -, hdecoded⟩, h⟩ := h
          cases hdecoded
          cases h
          refine ⟨row, hrow, ⟨?_, rfl, rfl, rfl⟩, rfl⟩
          rw [StoredBundle.phase, hstate]
      | _ =>
          simp only [hstate] at h
          cases h

theorem Fenced.startAssembly (h : Fenced format system) (index : Nat) (upload : ArtifactUpload) (now : Timestamp) :
    Fenced format ({ system with tables := (startAssembly upload now system.tables).1 }.setPublication index
      (startAssembly upload now system.tables).2) := by
  unfold ArtifactService.startAssembly
  cases hupdate : updateUpload upload.id .assembling now none none system.tables with
  | error error => exact h.setPublication index fun _ _ _ _ heq => by cases heq
  | ok tables => exact (h.tables (updateUpload_step hupdate)).setPublication index fun _ _ _ _ heq => by cases heq

/-- A bundle that is published again was published when it was read. -/
theorem Fenced.start (h : Fenced format system) (index : Nat) (record : ArtifactUploadRecord) (now : Timestamp) :
    Fenced format ({ system with tables := (start record now system.tables).1 }.setPublication index
      (start record now system.tables).2) := by
  unfold ArtifactService.start
  split_ifs with hcomplete
  · cases hread : bySha record.upload.organizationId record.upload.sha1 system.tables with
    | error error => exact h.setPublication index fun _ _ _ _ heq => by cases heq
    | ok found =>
        cases found with
        | none => exact h.startAssembly index record.upload now
        | some bundle =>
            simp only
            cases hprepared : preparePublication
                { bundle with bindings := record.upload.bindings, uploadedAt := now } with
            | error error => exact h.setPublication index fun _ _ _ _ heq => by cases heq
            | ok prepared =>
                obtain ⟨bindings, rfl⟩ := preparePublication_eq_ok hprepared
                obtain ⟨row, hrow, hpublished, hsize⟩ := bySha_eq_ok hread
                apply h.setPublication index
                intro uploadId other attempts assembled heq
                cases heq
                have hstored := h.live bundle.id row hrow hpublished.live
                rw [rowKey, hpublished.organizationId, hpublished.generation, hpublished.checksum, hsize] at hstored
                exact .inl hstored
  · exact h.startAssembly index record.upload now

theorem Fenced.number (h : Fenced format system) (index : Nat) (upload : ArtifactUpload) (bytes : List (BitVec 8))
    (now : Timestamp) :
    Fenced format ({ system with tables := (number format config upload bytes now system.tables).1 }.setPublication
      index (number format config upload bytes now system.tables).2) := by
  unfold ArtifactService.number
  simp only
  split
  · exact h.setPublication index fun _ _ _ _ heq => by cases heq
  · rename_i tables publication hstep
    simp only [bind_eq_ok, mapError_eq_ok] at hstep
    obtain ⟨validated, -, «until», -, ⟨tables', generation⟩, hgeneration, hstep⟩ := hstep
    cases hstep
    exact (h.tables (generation_step hgeneration)).setPublication index fun _ _ _ _ heq => by cases heq

/-- A commit adds the object of its key and replaces none. -/
theorem commitObject_eq_ok {objects after : Objects} {key : BlobKey} {bytes : List (BitVec 8)}
    (h : commitObject objects key bytes = .ok after) :
    after key = some bytes ∧ ∀ (other : BlobKey) (stored : List (BitVec 8)),
      objects other = some stored → after other = some stored := by
  unfold commitObject at h
  cases hobject : objects key with
  | none =>
      rw [hobject] at h
      cases h
      refine ⟨Function.update_self .., fun other stored hother => ?_⟩
      have hne : other ≠ key := by
        rintro rfl
        rw [hobject] at hother
        cases hother
      rw [Function.update_of_ne hne]
      exact hother
  | some stored =>
      rw [hobject] at h
      simp only at h
      split_ifs at h with hsame
      cases h
      exact ⟨hsame ▸ hobject, fun _ _ hother => hother⟩

theorem IsStored.mono {objects after : Objects} {key : BlobKey} {checksum : BitVec 256} {size : Nat}
    (h : IsStored format objects key checksum size)
    (hkept : ∀ (other : BlobKey) (stored : List (BitVec 8)), objects other = some stored → after other = some stored) :
    IsStored format after key checksum size := by
  obtain ⟨bytes, hbytes, hchecksum, hsize⟩ := h
  exact ⟨bytes, hkept key bytes hbytes, hchecksum, hsize⟩

theorem Fenced.objects (h : Fenced format system) {after : Objects}
    (hkept : ∀ (other : BlobKey) (stored : List (BitVec 8)), system.objects other = some stored →
      after other = some stored) : Fenced format { system with objects := after } where
  live id row hrow hlive := (h.live id row hrow hlive).mono hkept
  unbound := h.unbound
  publishing uploadId bundle attempts assembled hmem :=
    (h.publishing uploadId bundle attempts assembled hmem).imp_left fun hstored => hstored.mono hkept
  deleting := h.deleting

theorem Fenced.write (h : Fenced format system) (index : Nat) (upload : ArtifactUpload) (validated : ValidatedBundle)
    (generation : BitVec 32) (now : Timestamp) :
    Fenced format ({ system with
      objects := (write format upload validated generation now system.objects).1 }.setPublication index
        (write format upload validated generation now system.objects).2) := by
  unfold ArtifactService.write
  simp only
  split
  · exact h.setPublication index fun _ _ _ _ heq => by cases heq
  · rename_i after hcommit
    obtain ⟨hobject, hkept⟩ := commitObject_eq_ok hcommit
    split
    · exact (h.objects hkept).setPublication index fun _ _ _ _ heq => by cases heq
    · rename_i prepared hprepared
      obtain ⟨bindings, rfl⟩ := preparePublication_eq_ok hprepared
      apply (h.objects hkept).setPublication index
      intro uploadId bundle attempts assembled heq
      cases heq
      exact .inl ⟨validated.bytes, hobject, rfl, rfl⟩

/-- The publication of a bundle whose object was written, or that came too late. -/
theorem Fenced.published (h : Fenced format system) {bundle : ArtifactBundle} {after : ArtifactTables}
    (heffect : PublishEffect quota bundle system.tables after)
    (hbundle : IsStored format system.objects (bundleKey bundle) bundle.checksum bundle.size
      ∨ Slot.Past bundle.generation.toNat (slotOf system.tables bundle.id)) :
    Fenced format { system with tables := after } := by
  have hstored := hbundle.resolve_right heffect.not_past
  refine ⟨?_, ?_, fun uploadId other attempts assembled hmem =>
    (h.publishing uploadId other attempts assembled hmem).imp_right heffect.past,
    fun claim hmem => heffect.past (h.deleting claim hmem)⟩
  · intro id next hnext hlive
    cases heffect with
    | reserves row held usage hpublished hsize hbefore hheld husage hbundles =>
        simp only [hbundles, Table.get_insert] at hnext
        split_ifs at hnext with heq
        · cases hnext
          rw [rowKey, ← heq, hpublished.organizationId, hpublished.generation, hpublished.checksum, hsize]
          exact hstored
        · exact h.live id next hnext hlive
    | refreshes row other hpublished hsize hrow hbefore hbundles =>
        simp only [hbundles, Table.get_insert] at hnext
        split_ifs at hnext with heq
        · cases hnext
          have hkept := h.live bundle.id row hrow hbefore.live
          rw [rowKey, hbefore.organizationId, hbefore.generation, hbefore.checksum] at hkept
          rw [rowKey, ← heq, hpublished.organizationId, hpublished.generation, hpublished.checksum, hsize]
          exact hkept
        · exact h.live id next hnext hlive
  · intro id next hnext hphase
    obtain ⟨row, hbundles, hpublished⟩ := heffect.bundles
    simp only [hbundles, Table.get_insert] at hnext
    split_ifs at hnext with heq
    · cases hnext
      exact absurd hpublished.live hphase
    · exact h.unbound id next hnext hphase

/-- A failed publication publishes nothing any more. -/
theorem Fenced.setFailure (h : Fenced format system) (index : Nat) (uploadId : BitVec 128) (assembled : Bool)
    (error : ArtifactError) : Fenced format (system.setPublication index (failure uploadId assembled error)) := by
  apply h.setPublication index
  intro _ _ _ _ heq
  unfold failure at heq
  split_ifs at heq
  cases heq

theorem Fenced.fail (h : Fenced format system) (index : Nat) (error : ArtifactError) (publication : Publication) :
    Fenced format (system.setPublication index (publication.failing error)) := by
  cases publication with
  | assembling upload => exact h.setFailure index upload.id true error
  | numbered upload validated generation => exact h.setFailure index upload.id true error
  | publishing uploadId bundle attempts assembled => exact h.setFailure index uploadId assembled error
  | recorded record => exact h.setPublication index fun _ _ _ _ heq => by cases heq
  | failed uploadId earlier => exact h.setPublication index fun _ _ _ _ heq => by cases heq

section Publish

variable {uploadId : BitVec 128} {bundle : ArtifactBundle} {attempts : Nat} {assembled : Bool}
    (hbundle : IsStored format system.objects (bundleKey bundle) bundle.checksum bundle.size
      ∨ Slot.Past bundle.generation.toNat (slotOf system.tables bundle.id))
include hbundle

theorem Fenced.publish (h : Fenced format system) (index : Nat) (bound : List ArtifactBinding) :
    Fenced format ({ system with
      tables := (publish quota uploadId bundle attempts assembled bound system.tables).1 }.setPublication index
        (publish quota uploadId bundle attempts assembled bound system.tables).2) := by
  unfold ArtifactService.publish
  split
  · exact h.setFailure index _ _ _
  · rename_i after hattempt
    exact (h.published (publishAttempt_effect hattempt) hbundle).setPublication index fun _ _ _ _ heq => by cases heq
  · split_ifs
    · exact h.setFailure index _ _ _
    · apply h.setPublication index
      intro _ _ _ _ heq
      cases heq
      exact hbundle

theorem Fenced.publishUnanswered (h : Fenced format system) (index : Nat) (bound : List ArtifactBinding) :
    Fenced format ({ system with
      tables := (ArtifactService.publish quota uploadId bundle attempts assembled bound system.tables).1
      }.setPublication index (failure uploadId assembled .unavailable)) := by
  unfold ArtifactService.publish
  split
  · exact h.setFailure index _ _ _
  · rename_i after hattempt
    exact (h.published (publishAttempt_effect hattempt) hbundle).setFailure index _ _ _
  · split_ifs
    · exact h.setFailure index _ _ _
    · exact h.setFailure index _ _ _

end Publish

theorem Fenced.settle (h : Fenced format system) (uploadId : BitVec 128) (error : ArtifactError) (now : Timestamp) :
    Fenced format { system with tables := settle uploadId error now system.tables } := by
  unfold ArtifactService.settle
  simp only
  split
  · exact h
  · rename_i after hupdate
    exact h.tables (updateUpload_step hupdate)

/-! ### Collections -/

theorem validate_eq_some {claim : ArtifactGcClaim} {now : Timestamp} {tables : ArtifactTables} {next : Collection}
    (h : validate config claim now tables = some next) :
    next = .validated claim ∧ Slot.Past claim.bundle.generation.toNat (slotOf tables claim.bundle.id) := by
  unfold validate at h
  split at h
  · cases h
  · split_ifs at h with hvalid
    cases h
    refine ⟨rfl, ?_⟩
    obtain ⟨row, hrow, hclaimed⟩ := (Option.any_eq_true _ _).mp hvalid
    simp only [isClaimed, Bool.and_eq_true, decide_eq_true_eq] at hclaimed
    obtain ⟨⟨⟨-, hgeneration⟩, hheld⟩, -⟩ := hclaimed
    have hphase : row.phase = .claimed := by
      unfold StoredBundle.phase
      cases hcase : row.state with
      | claimed held dueAt => rfl
      | _ =>
          rw [hcase] at hheld
          cases hheld
    rw [slotOf, hrow, Option.map_some, StoredBundle.slot, hphase, hgeneration]
    exact Slot.past_claimed

theorem Fenced.validate (h : Fenced format system) (index : Nat) (claim : ArtifactGcClaim) (now : Timestamp) :
    Fenced format (system.setCollection index (validate config claim now system.tables)) := by
  apply h.setCollection index
  intro other hvalid
  obtain ⟨heq, hpast⟩ := validate_eq_some hvalid
  cases heq
  exact hpast

/-- Nothing that is published or about to be has the key of a deletion. -/
theorem Fenced.delete (h : Fenced format system) {claim : ArtifactGcClaim}
    (hpast : Slot.Past claim.bundle.generation.toNat (slotOf system.tables claim.bundle.id)) :
    Fenced format { system with objects := deleteObject system.objects (bundleKey claim.bundle) } where
  live id row hrow hlive := by
    obtain ⟨bytes, hbytes, hdescribed⟩ := h.live id row hrow hlive
    refine ⟨bytes, ?_, hdescribed⟩
    have hne : rowKey id row ≠ bundleKey claim.bundle := by
      intro heq
      obtain ⟨-, rfl, hgeneration⟩ := bundleKey_inj
        (show bundleKey { claim.bundle with
          organizationId := row.organizationId, id := id, generation := row.generation } = bundleKey claim.bundle
          from heq)
      rw [slotOf, hrow, Option.map_some, StoredBundle.slot, hlive, ← hgeneration] at hpast
      exact Slot.not_past_live hpast
    exact (Function.update_of_ne hne _ _).trans hbytes
  unbound := h.unbound
  publishing uploadId bundle attempts assembled hmem := by
    rcases h.publishing uploadId bundle attempts assembled hmem with ⟨bytes, hbytes, hdescribed⟩ | hlate
    · by_cases heq : bundleKey bundle = bundleKey claim.bundle
      · obtain ⟨-, hid, hgeneration⟩ := bundleKey_inj heq
        right
        rw [hid, hgeneration]
        exact hpast
      · left
        refine ⟨bytes, ?_, hdescribed⟩
        exact (Function.update_of_ne heq _ _).trans hbytes
    · exact .inr hlate
  deleting := h.deleting

theorem Fenced.finishClaim (h : Fenced format system) (claim : ArtifactGcClaim) (now : Timestamp) :
    Fenced format { system with tables := finishClaim config claim now system.tables } := by
  unfold ArtifactService.finishClaim
  split
  · exact h
  · split
    · exact h
    · rename_i after done hfinish
      exact h.tables (finish_step hfinish)

theorem Fenced.claimDue (h : Fenced format system) (now : Timestamp) (held : BitVec 128)
    (candidates : List ArtifactBundleId) :
    Fenced format { system with
      tables := (claimDue config now held candidates system.tables).1
      collections := system.collections ++ (claimDue config now held candidates system.tables).2.map .claimed } := by
  have hcollections : ∀ (after : ArtifactTables) (claims : List ArtifactGcClaim),
      Fenced format { system with tables := after } →
      Fenced format { system with tables := after, collections := system.collections ++ claims.map .claimed } := by
    intro after claims hafter
    refine ⟨hafter.live, hafter.unbound, hafter.publishing, fun claim hmem => ?_⟩
    rcases List.mem_append.mp hmem with hold | hnew
    · exact hafter.deleting claim hold
    · obtain ⟨other, -, heq⟩ := List.mem_map.mp hnew
      cases heq
  unfold ArtifactService.claimDue
  split
  · exact hcollections _ _ h
  · rename_i «until» hlease
    split
    · exact hcollections _ _ h
    · rename_i claimed hclaim
      simp only [claim, bind_eq_ok] at hclaim
      obtain ⟨-, -, hclaim⟩ := hclaim
      exact hcollections _ _ (h.steps (claimCandidates_steps hclaim))

/-! ### The expiry of a tombstone -/

/-- A row can go when nothing under way still publishes its bundle or deletes its object. -/
theorem Fenced.erase (h : Fenced format system) {id : ArtifactBundleId}
    (hpublications : ∀ publication ∈ system.publications, publication.publishes ≠ some id)
    (hcollections : ∀ collection ∈ system.collections, collection.deletes ≠ some id) :
    Fenced format { system with tables := { system.tables with bundles := system.tables.bundles.erase id } } := by
  have hget : ∀ other : ArtifactBundleId, id ≠ other →
      (system.tables.bundles.erase id)[other]? = system.tables.bundles[other]? := by
    intro other hne
    rw [Std.ExtTreeMap.getElem?_erase, if_neg (by simpa using hne)]
  have hkept : ∀ (other : ArtifactBundleId) (row : StoredBundle), (system.tables.bundles.erase id)[other]? = some row →
      system.tables.bundles[other]? = some row := by
    intro other row hrow
    by_cases heq : id = other
    · subst heq
      rw [Std.ExtTreeMap.getElem?_erase_self] at hrow
      cases hrow
    · exact hget other heq ▸ hrow
  refine ⟨fun other row hrow => h.live other row (hkept other row hrow),
    fun other row hrow => h.unbound other row (hkept other row hrow), ?_, ?_⟩
  · intro uploadId bundle attempts assembled hmem
    have hne : id ≠ bundle.id := fun heq => hpublications _ hmem (congrArg some heq.symm)
    rw [slotOf, hget _ hne]
    exact h.publishing uploadId bundle attempts assembled hmem
  · intro claim hmem
    have hne : id ≠ claim.bundle.id := fun heq => hcollections _ hmem (congrArg some heq.symm)
    rw [slotOf, hget _ hne]
    exact h.deleting claim hmem

/-! ### Runs -/

theorem Fenced.stepPublication (h : Fenced format system) (index : Nat) (action : ArtifactAction)
    {publication : Publication} (hmem : publication ∈ system.publications) :
    Fenced format (stepPublication format config quota system index action publication) := by
  unfold ArtifactService.stepPublication
  split
  · exact h.start index _ _
  · exact h.number index _ _ _
  · exact h.write index _ _ _ _
  · exact Fenced.publish (h.publishing _ _ _ _ hmem) h index _
  · exact Fenced.publishUnanswered (h.publishing _ _ _ _ hmem) h index _
  · exact h.fail index _ _
  · exact (h.settle _ _ _).setPublication index fun _ _ _ _ heq => by cases heq
  · exact h.setPublication index fun _ _ _ _ heq => by cases heq
  · exact h

theorem Fenced.stepCollection (h : Fenced format system) (index : Nat) (action : ArtifactAction)
    {collection : Collection} (hmem : collection ∈ system.collections) :
    Fenced format (stepCollection config system index action collection) := by
  unfold ArtifactService.stepCollection
  split
  · exact h.validate index _ _
  · exact (h.delete (h.deleting _ hmem)).setCollection index fun _ heq => by cases heq
  · exact (h.finishClaim _ _).setCollection index fun _ heq => by cases heq
  · exact h.setCollection index fun _ heq => by cases heq
  · exact h

theorem Fenced.onPublication (h : Fenced format system) (index : Nat) (action : ArtifactAction) :
    Fenced format (onPublication format config quota system index action) := by
  unfold ArtifactService.onPublication
  cases hpublication : system.publications[index]? with
  | none => exact h
  | some publication => exact h.stepPublication index action (List.mem_of_getElem? hpublication)

theorem Fenced.onCollection (h : Fenced format system) (index : Nat) (action : ArtifactAction) :
    Fenced format (onCollection config system index action) := by
  unfold ArtifactService.onCollection
  cases hcollection : system.collections[index]? with
  | none => exact h
  | some collection => exact h.stepCollection index action (List.mem_of_getElem? hcollection)

theorem Fenced.addRecorded (h : Fenced format system) (record : ArtifactUploadRecord) :
    Fenced format { system with publications := system.publications ++ [.recorded record] } := by
  refine ⟨h.live, h.unbound, fun uploadId bundle attempts assembled hmem => ?_, h.deleting⟩
  rcases List.mem_append.mp hmem with hold | hnew
  · exact h.publishing uploadId bundle attempts assembled hold
  · cases List.mem_singleton.mp hnew

theorem Fenced.request (h : Fenced format system) (upload : ArtifactUpload) :
    Fenced format (request upload system) := by
  unfold ArtifactService.request
  split
  · exact h
  · rename_i after record hmerge
    exact (h.tables (mergeUpload_step hmerge)).addRecorded record

theorem Fenced.recover (h : Fenced format system) (id : BitVec 128) : Fenced format (recover id system) := by
  unfold ArtifactService.recover
  split
  · exact h
  · split
    · exact h
    · exact h.addRecorded _

/-- The step of an administrator keeps the bundles and the usage, or adds an organization. -/
theorem Fenced.execute (h : Fenced format system) {action : ArtifactAction} (hallowed : Allowed system action) :
    Fenced format (execute format config quota system action) := by
  cases action with
  | insertProject project row =>
      simp only [ArtifactService.execute]
      split
      · exact h
      · exact h.tables (.idle rfl rfl)
  | insertOrganization organizationId =>
      simp only [ArtifactService.execute]
      split
      · exact h
      · rename_i habsent
        exact h.tables (.join organizationId (Std.ExtTreeMap.getElem?_eq_none habsent) rfl rfl)
  | setProjectState project state =>
      simp only [ArtifactService.execute]
      split
      · exact h
      · exact h.tables (.idle rfl rfl)
  | request upload => exact h.request upload
  | recover id => exact h.recover id
  | start index now => exact h.onPublication index _
  | number index bytes now => exact h.onPublication index _
  | write index now => exact h.onPublication index _
  | publish index bound => exact h.onPublication index _
  | publishUnanswered index bound => exact h.onPublication index _
  | failPublication index error => exact h.onPublication index _
  | settle index now => exact h.onPublication index _
  | dropPublication index => exact h.onPublication index _
  | removeBinding organizationId id binding orphan uploadedAt =>
      simp only [ArtifactService.execute]
      split
      · rename_i after hremove
        exact h.tables (remove_step hremove)
      · exact h
  | claim now held candidates => exact h.claimDue now held candidates
  | validate index now => exact h.onCollection index _
  | delete index => exact h.onCollection index _
  | finish index now => exact h.onCollection index _
  | dropCollection index => exact h.onCollection index _
  | expireBundle now id =>
      show Fenced format { system with tables := PostgresArtifacts.expireBundle now id system.tables }
      rcases expireBundle_cases now id system.tables with heq | ⟨row, -, -, heq⟩
      · rw [heq]
        exact h
      · rw [heq]
        exact h.erase hallowed.1 hallowed.2
  | expireUpload now id => exact h.tables (expireUpload_step now id system.tables)
  | unbindBundle organizationId project now operation id =>
      exact h.tables (unbindBundle_step organizationId project now operation id system.tables)
  | unbindUpload organizationId project id =>
      exact h.tables (unbindUpload_step organizationId project id system.tables)

end Fence

/-- A bundle that is published, or that anything is bound to, is published with its object under its key, in every run
from an initial system in which tombstones outlast what began before them. -/
theorem published_bundles_stored (format : BundleFormat) (config : ArtifactConfig) (quota : ArtifactQuota)
    (system : ArtifactSystem) (actions : List ArtifactAction) (hinitial : Initial system)
    (hallowed : Throughout (execute format config quota) Allowed system actions) :
    Always (execute format config quota) (fun system => ∀ (id : ArtifactBundleId) (row : StoredBundle),
      system.tables.bundles[id]? = some row → row.phase = .live ∨ row.bindings ≠ [] →
        row.phase = .live ∧ IsStored format system.objects (rowKey id row) row.checksum row.size) system actions := by
  have hstep : ∀ system action, Fenced format system → Allowed system action →
      Fenced format (execute format config quota system action) := fun _ _ hfenced hstep => hfenced.execute hstep
  refine always_of_throughout ?_ hstep actions system hinitial.fenced hallowed
  intro system hfenced id row hrow hbound
  have hlive : row.phase = .live := by
    by_contra hphase
    exact hbound.elim hphase fun hbindings => hbindings (hfenced.unbound id row hrow hphase)
  exact ⟨hlive, hfenced.live id row hrow hlive⟩

/-- A source bundle of one file. -/
def sampleContent : List (BitVec 8) := [
  0x53, 0x59, 0x53, 0x42, 0x02, 0x00, 0x00, 0x00, 0x50, 0x4b, 0x03, 0x04, 0x14, 0x00, 0x00, 0x00,
  0x00, 0x00, 0x00, 0x00, 0x21, 0x00, 0xdf, 0x91, 0x05, 0xa1, 0x12, 0x00, 0x00, 0x00, 0x12, 0x00,
  0x00, 0x00, 0x0d, 0x00, 0x00, 0x00, 0x6d, 0x61, 0x6e, 0x69, 0x66, 0x65, 0x73, 0x74, 0x2e, 0x6a,
  0x73, 0x6f, 0x6e, 0x7b, 0x22, 0x66, 0x69, 0x6c, 0x65, 0x73, 0x22, 0x3a, 0x7b, 0x22, 0x61, 0x22,
  0x3a, 0x7b, 0x7d, 0x7d, 0x7d, 0x50, 0x4b, 0x03, 0x04, 0x14, 0x00, 0x00, 0x00, 0x00, 0x00, 0x00,
  0x00, 0x21, 0x00, 0xb7, 0xef, 0xdc, 0x83, 0x01, 0x00, 0x00, 0x00, 0x01, 0x00, 0x00, 0x00, 0x01,
  0x00, 0x00, 0x00, 0x61, 0x31, 0x50, 0x4b, 0x01, 0x02, 0x14, 0x03, 0x14, 0x00, 0x00, 0x00, 0x00,
  0x00, 0x00, 0x00, 0x21, 0x00, 0xdf, 0x91, 0x05, 0xa1, 0x12, 0x00, 0x00, 0x00, 0x12, 0x00, 0x00,
  0x00, 0x0d, 0x00, 0x00, 0x00, 0x00, 0x00, 0x00, 0x00, 0x00, 0x00, 0x00, 0x00, 0x80, 0x01, 0x08,
  0x00, 0x00, 0x00, 0x6d, 0x61, 0x6e, 0x69, 0x66, 0x65, 0x73, 0x74, 0x2e, 0x6a, 0x73, 0x6f, 0x6e,
  0x50, 0x4b, 0x01, 0x02, 0x14, 0x03, 0x14, 0x00, 0x00, 0x00, 0x00, 0x00, 0x00, 0x00, 0x21, 0x00,
  0xb7, 0xef, 0xdc, 0x83, 0x01, 0x00, 0x00, 0x00, 0x01, 0x00, 0x00, 0x00, 0x01, 0x00, 0x00, 0x00,
  0x00, 0x00, 0x00, 0x00, 0x00, 0x00, 0x00, 0x00, 0x80, 0x01, 0x45, 0x00, 0x00, 0x00, 0x61, 0x50,
  0x4b, 0x05, 0x06, 0x00, 0x00, 0x00, 0x00, 0x02, 0x00, 0x02, 0x00, 0x6a, 0x00, 0x00, 0x00, 0x65,
  0x00, 0x00, 0x00, 0x00, 0x00]

def sampleOrganization : OrganizationId := ⟨1, OrganizationId.inRange_one⟩
def sampleProject : ProjectId := ⟨42, ProjectId.positive_fortyTwo⟩
def sampleBinding : ArtifactBinding := ⟨sampleProject, some ⟨1⟩, none⟩
def sampleChecksum : BitVec 256 := 0x14e80702ae804b6eb2dfb17abcfedca9ad5605bb61cfb64a1bfbfe9cf79e3b44
def sampleSha1 : BitVec 160 := 0xef180ff79e4435c933606d78e07df51224bc9008

/-- The digests and the reading of the sample bundle. -/
def sampleFormat : BundleFormat where
  blake3 input :=
    if input = sampleContent then sampleChecksum
    else if input = utf8Bytes "artifact-bundle-id-v1".toList ++ bigEndian 8 1 ++ bigEndian 32 sampleChecksum.toNat then
      0xf29907f2d03e746c7405a5d33ee0cc69ef804a3c9bd3b3816043f39945a4f1fc
    else 0
  sha1 input := if input = sampleContent then sampleSha1 else 0
  validateSourceBundle input := if input = sampleContent then .ok (none, []) else .error .malformedBundle

def sampleBundleId : ArtifactBundleId := ⟨0xf29907f2d03e746c7405a5d33ee0cc69⟩

def sampleUpload : ArtifactUpload where
  id := 0x12362e70278ae85acb61b2797cae2c7c
  organizationId := sampleOrganization
  sha1 := sampleSha1
  chunks := [sampleSha1]
  bindings := [sampleBinding]
  createdAt := ⟨1000, inRange_second⟩
  updatedAt := ⟨1000, inRange_second⟩

def sampleConfig : ArtifactConfig :=
  ⟨67108864, ⟨300000000000, by decide⟩, ⟨30000000000, by decide⟩, ⟨86400000000000, by decide⟩, 100⟩

def emptySystem : ArtifactSystem := ⟨⟨∅, ∅, ∅, ∅⟩, fun _ => none, [], []⟩

/-- The first assembly of a bundle fails before it is written. The second publishes the bundle, which loses its
binding, is collected, and is forgotten after its tombstone. -/
def collectingRun : List ArtifactAction := [
  .insertOrganization sampleOrganization,
  .insertProject sampleProject ⟨sampleOrganization, .active, 0⟩,
  .request sampleUpload,
  .start 0 ⟨1000, inRange_second⟩,
  .number 0 sampleContent ⟨1000, inRange_second⟩,
  .failPublication 0 .unavailable,
  .settle 0 ⟨1000, inRange_second⟩,
  .recover sampleUpload.id,
  .start 0 ⟨1000, inRange_second⟩,
  .number 0 sampleContent ⟨1000, inRange_second⟩,
  .write 0 ⟨1000, inRange_second⟩,
  .publish 0 [],
  .removeBinding sampleOrganization sampleBundleId sampleBinding ⟨1000, inRange_second⟩ none,
  .claim ⟨2000, inRange_nextSecond⟩ 7 [sampleBundleId],
  .validate 0 ⟨2000, inRange_nextSecond⟩,
  .delete 0,
  .finish 0 ⟨2000, inRange_nextSecond⟩,
  .expireBundle ⟨1700000000000, inRange_sampleStart⟩ sampleBundleId]

theorem published_bundles_stored_sample :
    Always (execute sampleFormat sampleConfig ⟨0, 0⟩) (fun system => ∀ (id : ArtifactBundleId) (row : StoredBundle),
      system.tables.bundles[id]? = some row → row.phase = .live ∨ row.bindings ≠ [] →
        row.phase = .live ∧ IsStored sampleFormat system.objects (rowKey id row) row.checksum row.size)
      emptySystem collectingRun :=
  published_bundles_stored sampleFormat sampleConfig ⟨0, 0⟩ emptySystem collectingRun
    ⟨fun _ => rfl, fun _ _ h => (by cases h), rfl, rfl⟩ (by decide +kernel)

end ArtifactService

end MetricBackend
