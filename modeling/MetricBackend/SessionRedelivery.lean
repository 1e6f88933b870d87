import MetricBackend.SessionConvergence

/-! Redelivery of session updates: what holds of every record that `SessionRecord::from_update` and `merge` build,
and that an update which was merged once never changes the record again. -/

namespace MetricBackend

namespace Sessions

open SessionRecord

/-! ### Runs of merges -/

/-- `merge` on the record that it changes in place. -/
def mergeInto (record : SessionRecord) (update : SessionUpdate) : Except SessionValueError Bool × SessionRecord :=
  match record.merge update with
  | .ok (next, changed) => (.ok changed, next)
  | .error error => (.error error, record)

/-- A record, with the updates that were merged into it. -/
inductive Built : List SessionUpdate → SessionRecord → Prop where
  | opened {first : SessionUpdate} {record : SessionRecord} (h : fromUpdate first = .ok record) : Built [first] record
  | merged {updates : List SessionUpdate} {record next : SessionRecord} {update : SessionUpdate} {changed : Bool}
      (hbuilt : Built updates record) (h : mergeInto record update = (.ok changed, next)) : Built (update :: updates) next
  | refused {updates : List SessionUpdate} {record next : SessionRecord} {update : SessionUpdate}
      {error : SessionValueError} (hbuilt : Built updates record) (h : mergeInto record update = (.error error, next)) :
      Built updates next

/-- What holds of every record. -/
structure Consistent (record : SessionRecord) : Prop where
  finished : record.finishedAt.isSome = record.state.isTerminal
  ordered : record.startedAt ≤ record.lastUpdate
  inside : ∀ finished, record.finishedAt = some finished → record.startedAt ≤ finished ∧ finished ≤ record.lastUpdate

/-- The record has all that a merge of the update could give it. -/
structure Absorbs (record : SessionRecord) (update : SessionUpdate) : Prop where
  valid : update.validate = .ok ()
  identity : record.id = update.id ∧ record.projectId = update.projectId ∧ record.releaseId = update.releaseId
    ∧ record.environmentId = update.environmentId
  startedAt : record.startedAt ≤ update.startedAt
  lastUpdate : update.updatedAt ≤ record.lastUpdate
  digest : ∀ digest, update.userDigest = some digest → record.userDigest = some digest
  sequence : sequenceRank update.sequence ≤ sequenceRank record.sequence
  precedence : update.state.precedence ≤ record.state.precedence
  outcome : update.state = record.state → update.sequence.getD 0 = record.sequence.getD 0 →
    update.updatedAt ≤ record.finishedAt.getD record.lastUpdate

section Merges

variable {record next : SessionRecord} {update other : SessionUpdate}

theorem updatedAt_of_validate (h : update.validate = .ok ()) : update.startedAt ≤ update.updatedAt := by
  rw [SessionUpdate.validate, failIf_eq_ok, not_or] at h
  exact not_lt.mp h.1

theorem merge_eq_ok_iff {changed : Bool} :
    record.merge update = .ok (next, changed) ↔ update.validate = .ok () ∧ record.conflicts update = false
      ∧ next = record.merged update ∧ changed = decide (record.merged update ≠ record) := by
  simp only [SessionRecord.merge, bind_eq_ok, failIf_eq_ok, pure_eq_ok, Prod.mk.injEq, Bool.not_eq_true]
  constructor
  · rintro ⟨_, hvalid, _, hconflicts, rfl, rfl⟩
    exact ⟨hvalid, hconflicts, rfl, rfl⟩
  · rintro ⟨hvalid, hconflicts, rfl, rfl⟩
    exact ⟨(), hvalid, (), hconflicts, rfl, rfl⟩

theorem finishedAt_eq_some {finished : Timestamp} : update.finishedAt = some finished ↔
    update.state.isTerminal = true ∧ finished = update.updatedAt := by
  rw [SessionUpdate.finishedAt]
  split_ifs with h <;> simp [h, eq_comm]

theorem isSome_finishedAt : update.finishedAt.isSome = update.state.isTerminal := by
  rw [SessionUpdate.finishedAt]
  split_ifs with h <;> simp [h]

/-! ### Consistency -/

theorem consistent_opened (h : update.validate = .ok ()) : Consistent (opened update) := by
  have hordered := updatedAt_of_validate h
  refine ⟨isSome_finishedAt, hordered, fun finished hfinished => ?_⟩
  obtain ⟨-, rfl⟩ := finishedAt_eq_some.mp hfinished
  exact ⟨hordered, le_refl _⟩

theorem Consistent.merged (hrecord : Consistent record) (h : update.validate = .ok ()) :
    Consistent (record.merged update) := by
  have hordered := updatedAt_of_validate h
  by_cases hadopts : record.adopts update = true
  · obtain ⟨hstate, hfinished, -⟩ := merged_of_adopts hadopts
    refine ⟨by rw [hstate, hfinished, isSome_finishedAt], ?_, fun finished hsome => ?_⟩
    · rw [merged_startedAt, merged_lastUpdate]
      exact (min_le_left _ _).trans (hrecord.ordered.trans (le_max_left _ _))
    · rw [hfinished] at hsome
      obtain ⟨-, rfl⟩ := finishedAt_eq_some.mp hsome
      rw [merged_startedAt, merged_lastUpdate]
      exact ⟨(min_le_right _ _).trans hordered, le_max_right _ _⟩
  · obtain ⟨hstate, hfinished, -⟩ := merged_of_not_adopts (Bool.eq_false_iff.mpr hadopts)
    refine ⟨by rw [hstate, hfinished, hrecord.finished], ?_, fun finished hsome => ?_⟩
    · rw [merged_startedAt, merged_lastUpdate]
      exact (min_le_left _ _).trans (hrecord.ordered.trans (le_max_left _ _))
    · rw [hfinished] at hsome
      obtain ⟨hstarted, hlast⟩ := hrecord.inside finished hsome
      rw [merged_startedAt, merged_lastUpdate]
      exact ⟨(min_le_left _ _).trans hstarted, hlast.trans (le_max_left _ _)⟩

/-! ### What never decreases -/

theorem sequenceRank_merged :
    sequenceRank (record.merged update).sequence = max (sequenceRank update.sequence) (sequenceRank record.sequence) := by
  rw [merged_sequence, sequenceRank_laterSequence]

theorem precedence_merged : (record.merged update).state.precedence
    = max record.state.precedence update.state.precedence := by
  by_cases hadopts : record.adopts update = true
  · rw [(merged_of_adopts hadopts).1]
    rcases adopts_iff.mp hadopts with hstronger | ⟨hsame, -⟩
    · exact (max_eq_right hstronger.le).symm
    · rw [hsame, max_self]
  · rw [(merged_of_not_adopts (Bool.eq_false_iff.mpr hadopts)).1]
    have hweaker : ¬ record.state.precedence < update.state.precedence := fun h => hadopts (adopts_iff.mpr (.inl h))
    exact (max_eq_left (not_lt.mp hweaker)).symm

theorem sequence_eq_of_rank_le {left right : Option Nat} (h : sequenceRank left ≤ sequenceRank right) :
    left.getD 0 ≤ right.getD 0 := by
  rw [getD_eq_sequenceRank, getD_eq_sequenceRank]
  omega

/-! ### Absorbed updates -/

/-- The time of an update, or a later one, as the record would compare it. -/
theorem le_getD_finishedAt : update.updatedAt ≤ update.finishedAt.getD update.updatedAt := by
  rw [SessionUpdate.finishedAt]
  split_ifs <;> exact le_refl _

theorem absorbs_opened (h : update.validate = .ok ()) : Absorbs (opened update) update where
  valid := h
  identity := ⟨rfl, rfl, rfl, rfl⟩
  startedAt := le_refl _
  lastUpdate := le_refl _
  digest _ hdigest := hdigest
  sequence := le_refl _
  precedence := le_refl _
  outcome _ _ := le_getD_finishedAt

theorem conflicts_eq_false : record.conflicts update = false ↔ (record.id = update.id ∧ record.projectId = update.projectId
    ∧ record.releaseId = update.releaseId ∧ record.environmentId = update.environmentId)
    ∧ digestsClash record.userDigest update.userDigest = false := by
  simp only [conflicts, Bool.or_eq_false_iff, decide_eq_false_iff_not, not_not, ne_eq, and_assoc]

/-- The outcome of the record is at least as late as every absorbed update of its rank. -/
theorem outcome_adopted (hadopts : record.adopts update = true) :
    update.updatedAt ≤ (record.merged update).finishedAt.getD (record.merged update).lastUpdate := by
  rw [(merged_of_adopts hadopts).2.1, merged_lastUpdate, SessionUpdate.finishedAt]
  split_ifs
  · exact le_refl _
  · exact le_max_right _ _

theorem getD_le_getD {finished : Option Timestamp} {left right : Timestamp} (h : left ≤ right) :
    finished.getD left ≤ finished.getD right := by
  cases finished with
  | none => exact h
  | some finished => exact le_refl _

theorem absorbs_merged (h : update.validate = .ok ()) (hconflicts : record.conflicts update = false) :
    Absorbs (record.merged update) update := by
  obtain ⟨⟨hid, hproject, hrelease, henvironment⟩, hclash⟩ := conflicts_eq_false.mp hconflicts
  refine ⟨h, ⟨by rwa [merged_id], by rwa [merged_projectId], by rwa [merged_releaseId], by rwa [merged_environmentId]⟩,
    ?_, ?_, fun digest hdigest => ?_, ?_, ?_, fun hstate hsequence => ?_⟩
  · rw [merged_startedAt]
    exact min_le_right _ _
  · rw [merged_lastUpdate]
    exact le_max_right _ _
  · rw [merged_userDigest, hdigest]
    cases hrecord : record.userDigest with
    | none => rfl
    | some known =>
        rw [hrecord, hdigest] at hclash
        simp only [digestsClash, ne_eq, decide_not, Bool.not_eq_false', decide_eq_true_iff] at hclash
        rw [hclash, Option.some_or]
  · rw [sequenceRank_merged]
    exact le_max_left _ _
  · rw [precedence_merged]
    exact le_max_right _ _
  · by_cases hadopts : record.adopts update = true
    · exact outcome_adopted hadopts
    · obtain ⟨hkept, hfinished, -⟩ := merged_of_not_adopts (Bool.eq_false_iff.mpr hadopts)
      rw [merged_sequence, getD_laterSequence] at hsequence
      rw [hkept] at hstate
      have hnot : ¬ record.finishedAt.getD record.lastUpdate < update.updatedAt := by
        intro hlater
        refine hadopts (adopts_iff.mpr (.inr ⟨hstate, ?_⟩))
        rcases (le_max_left (record.sequence.getD 0) (update.sequence.getD 0)).lt_or_eq with hlt | heq
        · exact .inl (by omega)
        · exact .inr ⟨by omega, hlater⟩
      rw [hfinished, merged_lastUpdate]
      exact (not_lt.mp hnot).trans (getD_le_getD (le_max_left _ _))

/-- A later merge keeps what the record absorbed. -/
theorem Absorbs.merged (habsorbs : Absorbs record other) : Absorbs (record.merged update) other := by
  obtain ⟨hid, hproject, hrelease, henvironment⟩ := habsorbs.identity
  refine ⟨habsorbs.valid,
    ⟨by rwa [merged_id], by rwa [merged_projectId], by rwa [merged_releaseId], by rwa [merged_environmentId]⟩,
    ?_, ?_, fun digest hdigest => ?_, ?_, ?_, fun hstate hsequence => ?_⟩
  · rw [merged_startedAt]
    exact (min_le_left _ _).trans habsorbs.startedAt
  · rw [merged_lastUpdate]
    exact habsorbs.lastUpdate.trans (le_max_left _ _)
  · rw [merged_userDigest, habsorbs.digest digest hdigest, Option.some_or]
  · rw [sequenceRank_merged]
    exact habsorbs.sequence.trans (le_max_right _ _)
  · rw [precedence_merged]
    exact habsorbs.precedence.trans (le_max_left _ _)
  · have hrank := sequence_eq_of_rank_le habsorbs.sequence
    rw [merged_sequence, getD_laterSequence] at hsequence
    have hmax := le_max_right (record.sequence.getD 0) (update.sequence.getD 0)
    have hsame : other.sequence.getD 0 = record.sequence.getD 0 :=
      le_antisymm hrank (hsequence ▸ le_max_left _ _)
    by_cases hadopts : record.adopts update = true
    · -- The update replaced the outcome, so it has the state and the sequence of the old one and is later.
      obtain ⟨hnew, hfinished, -⟩ := merged_of_adopts hadopts
      rw [hnew] at hstate
      rcases adopts_iff.mp hadopts with hstronger | ⟨hkept, hlater | ⟨-, hlater⟩⟩
      · have hle := habsorbs.precedence
        rw [hstate] at hle
        exact absurd hstronger (not_lt.mpr hle)
      · rw [hsame] at hsequence
        omega
      · exact ((habsorbs.outcome (hstate.trans hkept) hsame).trans hlater.le).trans (outcome_adopted hadopts)
    · obtain ⟨hkept, hfinished, -⟩ := merged_of_not_adopts (Bool.eq_false_iff.mpr hadopts)
      rw [hkept] at hstate
      rw [hfinished, merged_lastUpdate]
      exact (habsorbs.outcome hstate hsame).trans (getD_le_getD (le_max_left _ _))

theorem Absorbs.not_adopts (habsorbs : Absorbs record update) : record.adopts update = false := by
  rw [Bool.eq_false_iff]
  intro hadopts
  have hrank := sequence_eq_of_rank_le habsorbs.sequence
  rcases adopts_iff.mp hadopts with hstronger | ⟨hsame, hlater | ⟨hequal, hlater⟩⟩
  · exact absurd hstronger (not_lt.mpr habsorbs.precedence)
  · omega
  · exact absurd hlater (not_lt.mpr (habsorbs.outcome hsame hequal))

theorem Absorbs.merged_eq (habsorbs : Absorbs record update) : record.merged update = record := by
  have hstarted : min record.startedAt update.startedAt = record.startedAt := min_eq_left habsorbs.startedAt
  have hlast : max record.lastUpdate update.updatedAt = record.lastUpdate := max_eq_left habsorbs.lastUpdate
  have hdigest : record.userDigest.or update.userDigest = record.userDigest := by
    cases hknown : update.userDigest with
    | none => exact Option.or_none
    | some digest => rw [habsorbs.digest digest hknown, Option.some_or]
  have hsequence : laterSequence record.sequence update.sequence = record.sequence := by
    apply sequenceRank_injective
    rw [sequenceRank_laterSequence, max_eq_right habsorbs.sequence]
  rw [SessionRecord.merged, habsorbs.not_adopts, hstarted, hlast, hdigest, hsequence]
  rfl

/-- An absorbed update is accepted and changes nothing. -/
theorem Absorbs.mergeInto_eq (habsorbs : Absorbs record update) : mergeInto record update = (.ok false, record) := by
  have hclash : digestsClash record.userDigest update.userDigest = false := by
    cases hknown : update.userDigest with
    | none => cases record.userDigest <;> rfl
    | some digest => simp [habsorbs.digest digest hknown, digestsClash]
  have hmerge : record.merge update = .ok (record, false) :=
    merge_eq_ok_iff.mpr ⟨habsorbs.valid, conflicts_eq_false.mpr ⟨habsorbs.identity, hclash⟩, habsorbs.merged_eq.symm,
      by simp [habsorbs.merged_eq]⟩
  rw [mergeInto, hmerge]

/-! ### Runs -/

/-- What a call of `merge` did. -/
theorem mergeInto_cases {result : Except SessionValueError Bool} (h : mergeInto record update = (result, next)) :
    (∃ error, result = .error error ∧ next = record)
      ∨ ∃ changed, result = .ok changed ∧ next = record.merged update ∧ update.validate = .ok ()
        ∧ record.conflicts update = false := by
  rw [mergeInto] at h
  split at h
  case h_1 merged changed hmerge =>
      obtain ⟨hvalid, hconflicts, rfl, -⟩ := merge_eq_ok_iff.mp hmerge
      obtain ⟨rfl, rfl⟩ := Prod.mk.inj h
      exact .inr ⟨changed, rfl, rfl, hvalid, hconflicts⟩
  case h_2 error hmerge =>
      obtain ⟨rfl, rfl⟩ := Prod.mk.inj h
      exact .inl ⟨error, rfl, rfl⟩

theorem fromUpdate_eq_ok (h : fromUpdate update = .ok record) : update.validate = .ok () ∧ record = opened update := by
  simp only [fromUpdate, bind_eq_ok, pure_eq_ok] at h
  obtain ⟨_, hvalid, rfl⟩ := h
  exact ⟨hvalid, rfl⟩

theorem built_invariant {updates : List SessionUpdate} (h : Built updates record) :
    Consistent record ∧ ∀ update ∈ updates, Absorbs record update := by
  induction h with
  | opened h =>
      obtain ⟨hvalid, rfl⟩ := fromUpdate_eq_ok h
      refine ⟨consistent_opened hvalid, fun update hupdate => ?_⟩
      obtain rfl := List.mem_singleton.mp hupdate
      exact absorbs_opened hvalid
  | merged hbuilt h ih =>
      obtain ⟨hconsistent, habsorbs⟩ := ih
      rcases mergeInto_cases h with ⟨error, herror, -⟩ | ⟨changed, -, rfl, hvalid, hconflicts⟩
      · exact nomatch herror
      · refine ⟨hconsistent.merged hvalid, fun other hother => ?_⟩
        rcases List.mem_cons.mp hother with rfl | hother
        · exact absorbs_merged hvalid hconflicts
        · exact (habsorbs other hother).merged
  | refused hbuilt h ih =>
      rcases mergeInto_cases h with ⟨error, -, rfl⟩ | ⟨changed, hchanged, -⟩
      · exact ih
      · exact nomatch hchanged

/-- Every record that is built has a finish time exactly in a terminal state and its times in order; a further
call of `merge` lowers neither the sequence nor the precedence of the state, leaves the record as it was when it
returns an error, and changes nothing for an update that was merged before. -/
theorem built_record {updates : List SessionUpdate} (h : Built updates record) :
    (record.finishedAt.isSome = true ↔ record.state.isTerminal = true)
      ∧ record.startedAt ≤ record.lastUpdate
      ∧ (∀ finished, record.finishedAt = some finished → record.startedAt ≤ finished ∧ finished ≤ record.lastUpdate)
      ∧ (∀ update result next, mergeInto record update = (result, next) →
          sequenceRank record.sequence ≤ sequenceRank next.sequence
          ∧ record.state.precedence ≤ next.state.precedence
          ∧ (∀ error, result = .error error → next = record))
      ∧ ∀ update ∈ updates, mergeInto record update = (.ok false, record) := by
  obtain ⟨hconsistent, habsorbs⟩ := built_invariant h
  refine ⟨by rw [hconsistent.finished], hconsistent.ordered, hconsistent.inside, fun update result next hcall => ?_,
    fun update hupdate => (habsorbs update hupdate).mergeInto_eq⟩
  rcases mergeInto_cases hcall with ⟨error, rfl, rfl⟩ | ⟨changed, rfl, rfl, -, -⟩
  · exact ⟨le_refl _, le_refl _, fun _ _ => rfl⟩
  · refine ⟨?_, ?_, fun error herror => nomatch herror⟩
    · rw [sequenceRank_merged]
      exact le_max_right _ _
    · rw [precedence_merged]
      exact le_max_left _ _

/-- A session that exited, of which a heartbeat with a later sequence arrives afterwards. -/
theorem built_record_exited :
    let exited := sampleUpdate .exited 1 ⟨1200, by decide⟩
    let beat := sampleUpdate .ok 2 ⟨1100, by decide⟩
    ∃ record, Built [beat, exited] record ∧ mergeInto record exited = (.ok false, record) := by
  intro exited beat
  have hopened : Built [exited] (opened exited) := .opened rfl
  have hbeat : Built [beat, exited] ((opened exited).merged beat) := .merged hopened rfl
  exact ⟨_, hbeat, (built_record hbeat).2.2.2.2 exited (by simp)⟩

end Merges

end Sessions

end MetricBackend
