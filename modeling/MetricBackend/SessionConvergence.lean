import MetricBackend.DomainSessions
import Mathlib.Order.Bounds.Basic
import Mathlib.Data.Finset.Max

/-! # Delivery order of session updates

Every field of a session record but the finish time and the duration is a join of the delivered
updates. The outcome of the strongest state is decided by a comparison with the running maximum of
*all* sequence numbers, so it can depend on the order; the condition `Decided` says exactly when it
does not. -/

namespace MetricBackend.Sessions

open SessionRecord

/-- The sequence number that `merge` compares, an absent one counting as zero. -/
def order (update : SessionUpdate) : Nat := update.sequence.getD 0

/-- Valid updates of one session: they share every identity and no two known digests differ. -/
structure Compatible (updates : List SessionUpdate) : Prop where
  valid : ∀ u ∈ updates, u.validate = .ok ()
  identity : ∀ u ∈ updates, ∀ v ∈ updates, u.id = v.id ∧ u.projectId = v.projectId ∧
    u.releaseId = v.releaseId ∧ u.environmentId = v.environmentId
  digest : ∀ u ∈ updates, ∀ v ∈ updates, digestsClash u.userDigest v.userDigest = false

/-- No update of the list has a stronger state. -/
def Strongest (updates : List SessionUpdate) (u : SessionUpdate) : Prop :=
  ∀ v ∈ updates, v.state.precedence ≤ u.state.precedence

/-- No update of the list has a larger sequence number. -/
def Newest (updates : List SessionUpdate) (u : SessionUpdate) : Prop :=
  ∀ v ∈ updates, order v ≤ order u

/-- Both updates would leave the same finish time and duration. -/
def Agree (u v : SessionUpdate) : Prop := u.updatedAt = v.updatedAt ∧ u.durationMs = v.durationMs

/-- `t` finishes later than `u`, or both leave the same outcome. -/
def Outranks (t u : SessionUpdate) : Prop := u.updatedAt < t.updatedAt ∨ Agree u t

/-- The outcome of the strongest state does not depend on the order: there is no outcome at all,
all strongest updates agree on it, or one of them with the largest sequence number outranks its
rivals. The rivals are the strongest updates with that sequence number and, when some weaker update
carries the largest sequence number too, every strongest update. -/
def Decided (updates : List SessionUpdate) : Prop :=
  (∀ u ∈ updates, u.state = .ok) ∨
  (∀ u ∈ updates, ∀ v ∈ updates, Strongest updates u → Strongest updates v → Agree u v) ∨
  ∃ t ∈ updates, Strongest updates t ∧ Newest updates t ∧
    (∀ u ∈ updates, Strongest updates u → Newest updates u → Outranks t u) ∧
    ((∃ v ∈ updates, Newest updates v ∧ ¬ Strongest updates v) →
      ∀ u ∈ updates, Strongest updates u → Outranks t u)

instance (updates : List SessionUpdate) : DecidablePred (Strongest updates) := fun u =>
  inferInstanceAs (Decidable (∀ v ∈ updates, v.state.precedence ≤ u.state.precedence))

instance (updates : List SessionUpdate) : DecidablePred (Newest updates) := fun u =>
  inferInstanceAs (Decidable (∀ v ∈ updates, order v ≤ order u))

instance (u v : SessionUpdate) : Decidable (Agree u v) :=
  inferInstanceAs (Decidable (u.updatedAt = v.updatedAt ∧ u.durationMs = v.durationMs))

instance (t u : SessionUpdate) : Decidable (Outranks t u) :=
  inferInstanceAs (Decidable (u.updatedAt < t.updatedAt ∨ Agree u t))

/-! ### What a record keeps of the delivered updates -/

/-- Optional sequence numbers as a linear order, an absent one at the bottom. -/
def sequenceRank : Option Nat → Nat
  | none => 0
  | some number => number + 1

/-- The record is the join of the updates. -/
structure Summarises (updates : List SessionUpdate) (record : SessionRecord) : Prop where
  identity : ∀ u ∈ updates, u.id = record.id ∧ u.projectId = record.projectId ∧
    u.releaseId = record.releaseId ∧ u.environmentId = record.environmentId
  startedAt : IsLeast (SessionUpdate.startedAt '' {u | u ∈ updates}) record.startedAt
  lastUpdate : IsGreatest (SessionUpdate.updatedAt '' {u | u ∈ updates}) record.lastUpdate
  precedence : IsGreatest ((fun u => u.state.precedence) '' {u | u ∈ updates})
    record.state.precedence
  sequence : IsGreatest ((fun u => sequenceRank u.sequence) '' {u | u ∈ updates})
    (sequenceRank record.sequence)
  digest : ∀ d, record.userDigest = some d ↔ ∃ u ∈ updates, u.userDigest = some d

theorem image_mem_append {α β : Type} (f : α → β) (xs : List α) (x : α) :
    f '' {y | y ∈ xs ++ [x]} = insert (f x) (f '' {y | y ∈ xs}) := by
  ext b
  simp only [List.mem_append, List.mem_singleton, Set.mem_image, Set.mem_ofPred_eq,
    Set.mem_insert_iff]
  constructor
  · rintro ⟨y, hy | rfl, rfl⟩
    · exact Or.inr ⟨y, hy, rfl⟩
    · exact Or.inl rfl
  · rintro (rfl | ⟨y, hy, rfl⟩)
    · exact ⟨x, Or.inr rfl, rfl⟩
    · exact ⟨y, Or.inl hy, rfl⟩

theorem sequenceRank_injective : Function.Injective sequenceRank := by
  intro left right h
  cases left <;> cases right <;> simp_all [sequenceRank]

theorem sequenceRank_laterSequence (left right : Option Nat) :
    sequenceRank (laterSequence left right) = max (sequenceRank right) (sequenceRank left) := by
  cases left <;> cases right <;> simp [laterSequence, sequenceRank, max_comm]

theorem getD_laterSequence (left right : Option Nat) :
    (laterSequence left right).getD 0 = max (left.getD 0) (right.getD 0) := by
  cases left <;> cases right <;> simp [laterSequence]

theorem getD_eq_sequenceRank (sequence : Option Nat) : sequence.getD 0 = sequenceRank sequence - 1 := by
  cases sequence <;> simp [sequenceRank]

/-- The running maximum that `merge` compares with is the largest sequence number delivered. -/
theorem Summarises.order {updates : List SessionUpdate} {record : SessionRecord}
    (h : Summarises updates record) :
    IsGreatest (order '' {u | u ∈ updates}) (record.sequence.getD 0) := by
  obtain ⟨⟨u, hu, heq⟩, hmax⟩ := h.sequence
  refine ⟨⟨u, hu, ?_⟩, ?_⟩
  · rw [Sessions.order, sequenceRank_injective heq]
  · rintro _ ⟨v, hv, rfl⟩
    have hle := hmax ⟨v, hv, rfl⟩
    simp only [Sessions.order, getD_eq_sequenceRank]
    simp only at hle
    omega

theorem summarises_opened (u : SessionUpdate) : Summarises [u] (opened u) := by
  constructor <;> simp [opened, isLeast_singleton, isGreatest_singleton]

/-- No compatible update is refused by the record of the updates before it. -/
theorem Summarises.not_conflicts {updates : List SessionUpdate} {record : SessionRecord}
    {u : SessionUpdate} (h : Summarises updates record) (hne : updates ≠ [])
    (hcompat : Compatible (updates ++ [u])) : record.conflicts u = false := by
  obtain ⟨v, hv⟩ := List.exists_mem_of_ne_nil updates hne
  obtain ⟨hid, hproject, hrelease, henvironment⟩ := h.identity v hv
  obtain ⟨hid', hproject', hrelease', henvironment'⟩ :=
    hcompat.identity v (List.mem_append_left _ hv) u (by simp)
  have hdigest : digestsClash record.userDigest u.userDigest = false := by
    cases hrecord : record.userDigest with
    | none => rfl
    | some d =>
        obtain ⟨w, hw, hwd⟩ := (h.digest d).mp hrecord
        rw [← hwd]
        exact hcompat.digest w (List.mem_append_left _ hw) u (by simp)
  simp [conflicts, ← hid, ← hproject, ← hrelease, ← henvironment, hid', hproject', hrelease',
    henvironment', hdigest]

theorem Summarises.merged {updates : List SessionUpdate} {record : SessionRecord}
    {u : SessionUpdate} (h : Summarises updates record) (hne : updates ≠ [])
    (hcompat : Compatible (updates ++ [u])) : Summarises (updates ++ [u]) (record.merged u) := by
  have hconflict := h.not_conflicts hne hcompat
  simp only [conflicts, Bool.or_eq_false_iff, decide_eq_false_iff_not, ne_eq, not_not] at hconflict
  obtain ⟨⟨⟨⟨hid, hproject⟩, hrelease⟩, henvironment⟩, hdigest⟩ := hconflict
  constructor
  · intro v hv
    rw [merged_id, merged_projectId, merged_releaseId, merged_environmentId]
    rcases List.mem_append.mp hv with hv | hv
    · exact h.identity v hv
    · rw [List.mem_singleton.mp hv]
      exact ⟨hid.symm, hproject.symm, hrelease.symm, henvironment.symm⟩
  · rw [image_mem_append, merged_startedAt, min_comm]
    exact h.startedAt.insert u.startedAt
  · rw [image_mem_append, merged_lastUpdate, max_comm]
    exact h.lastUpdate.insert u.updatedAt
  · rw [image_mem_append]
    have hstate : (record.merged u).state.precedence
        = max u.state.precedence record.state.precedence := by
      cases hadopt : record.adopts u with
      | false =>
          rw [(merged_of_not_adopts hadopt).1, max_eq_right]
          by_contra hlt
          have := adopts_iff.mpr (Or.inl (not_le.mp hlt))
          simp [hadopt] at this
      | true =>
          rw [(merged_of_adopts hadopt).1, max_eq_left]
          rcases adopts_iff.mp hadopt with hlt | ⟨heq, -⟩
          · exact hlt.le
          · rw [heq]
    rw [hstate]
    exact h.precedence.insert u.state.precedence
  · rw [image_mem_append, merged_sequence, sequenceRank_laterSequence]
    exact h.sequence.insert (sequenceRank u.sequence)
  · intro d
    simp only [merged_userDigest, List.mem_append, List.mem_singleton, or_and_right, exists_or,
      exists_eq_left, ← h.digest d]
    cases hrecord : record.userDigest with
    | none => simp
    | some e =>
        rw [hrecord] at hdigest
        constructor
        · exact Or.inl
        · rintro (heq | hu)
          · exact heq
          · rw [hu] at hdigest
            simpa [digestsClash] using hdigest

/-- Two joins of the same updates differ in their outcome at most. -/
theorem Summarises.ext {updates : List SessionUpdate} {left right : SessionRecord}
    (hne : updates ≠ []) (hleft : Summarises updates left) (hright : Summarises updates right)
    (hfinished : left.finishedAt = right.finishedAt) (hduration : left.durationMs = right.durationMs) :
    left = right := by
  obtain ⟨v, hv⟩ := List.exists_mem_of_ne_nil updates hne
  obtain ⟨hid, hproject, hrelease, henvironment⟩ := hleft.identity v hv
  obtain ⟨hid', hproject', hrelease', henvironment'⟩ := hright.identity v hv
  have hstarted := hleft.startedAt.unique hright.startedAt
  have hlast := hleft.lastUpdate.unique hright.lastUpdate
  have hstate := SessionState.precedence_injective (hleft.precedence.unique hright.precedence)
  have hsequence := sequenceRank_injective (hleft.sequence.unique hright.sequence)
  have hdigest : left.userDigest = right.userDigest :=
    Option.ext fun d => (hleft.digest d).trans (hright.digest d).symm
  cases left
  cases right
  simp_all

theorem Summarises.perm {updates reordered : List SessionUpdate} {record : SessionRecord}
    (hperm : reordered.Perm updates) (h : Summarises reordered record) : Summarises updates record := by
  have hset : {u | u ∈ reordered} = {u | u ∈ updates} := Set.ext fun u => hperm.mem_iff
  obtain ⟨hidentity, hstarted, hlast, hprecedence, hsequence, hdigest⟩ := h
  rw [hset] at hstarted hlast hprecedence hsequence
  exact ⟨fun u hu => hidentity u (hperm.mem_iff.mpr hu), hstarted, hlast, hprecedence, hsequence,
    fun d => (hdigest d).trans (exists_congr fun u => and_congr_left' hperm.mem_iff)⟩

theorem Compatible.perm {updates reordered : List SessionUpdate} (hperm : reordered.Perm updates)
    (h : Compatible updates) : Compatible reordered where
  valid u hu := h.valid u (hperm.mem_iff.mp hu)
  identity u hu v hv := h.identity u (hperm.mem_iff.mp hu) v (hperm.mem_iff.mp hv)
  digest u hu v hv := h.digest u (hperm.mem_iff.mp hu) v (hperm.mem_iff.mp hv)

theorem Compatible.left {updates rest : List SessionUpdate} (h : Compatible (updates ++ rest)) :
    Compatible updates where
  valid u hu := h.valid u (List.mem_append_left _ hu)
  identity u hu v hv := h.identity u (List.mem_append_left _ hu) v (List.mem_append_left _ hv)
  digest u hu v hv := h.digest u (List.mem_append_left _ hu) v (List.mem_append_left _ hv)

/-- The rule for whole deliveries: a property of the record and the updates behind it that holds of
the first record and is kept by each `merge` holds at the end, and no `merge` is refused. -/
theorem deliver_induction (motive : List SessionUpdate → SessionRecord → Prop)
    (hopened : ∀ u, motive [u] (opened u))
    (hmerged : ∀ updates record u, Compatible (updates ++ [u]) → Summarises updates record →
      motive updates record → motive (updates ++ [u]) (record.merged u))
    {first : SessionUpdate} {rest : List SessionUpdate} (hcompat : Compatible (first :: rest)) :
    deliver (first :: rest) = some (.ok (rest.foldl merged (opened first))) ∧
      Summarises (first :: rest) (rest.foldl merged (opened first)) ∧
      motive (first :: rest) (rest.foldl merged (opened first)) := by
  have hrun : ∀ (rest done : List SessionUpdate) (record : SessionRecord), done ≠ [] →
      Compatible (done ++ rest) → Summarises done record → motive done record →
      rest.foldlM (fun record update => Prod.fst <$> merge record update) record
          = .ok (rest.foldl merged record) ∧
        Summarises (done ++ rest) (rest.foldl merged record) ∧
        motive (done ++ rest) (rest.foldl merged record) := by
    intro rest
    induction rest with
    | nil =>
        intro done record hne hcompat hsum hmotive
        rw [List.append_nil]
        exact ⟨rfl, hsum, hmotive⟩
    | cons u rest ih =>
        intro done record hne hcompat hsum hmotive
        rw [List.append_cons] at hcompat ⊢
        have hstep := hcompat.left
        have hmerge := merge_eq_ok (hstep.valid u (by simp)) (hsum.not_conflicts hne hstep)
        rw [List.foldlM_cons, hmerge]
        exact ih (done ++ [u]) (record.merged u) (by simp) hcompat (hsum.merged hne hstep)
          (hmerged done record u hstep hsum hmotive)
  have hopen : fromUpdate first = .ok (opened first) := by
    simp only [fromUpdate, hcompat.valid first (by simp)]
    rfl
  obtain ⟨hfold, hsum, hmotive⟩ := hrun rest [first] (opened first) (by simp) hcompat
    (summarises_opened first) (hopened first)
  refine ⟨?_, hsum, hmotive⟩
  rw [deliver, hopen]
  exact congrArg some hfold

/-! ### Which outcome survives -/

/-- `w` is the delivered update whose outcome the record carries. With respect to all updates of the
session, no strongest, terminal update of the largest sequence number delivered so far finishes
after it, and once there is one, `w` is of that kind unless a weaker update reached the number too. -/
structure Leads (updates done : List SessionUpdate) (record : SessionRecord) (w : SessionUpdate) :
    Prop where
  mem : w ∈ done
  state : w.state = record.state
  finishedAt : record.finishedAt = w.finishedAt
  durationMs : record.durationMs = w.finishedDuration
  bound : ∀ q ∈ done, Strongest updates q → Newest updates q → q.state.isTerminal = true →
    q.updatedAt ≤ w.updatedAt ∧ (Strongest updates w ∧ Newest updates w ∨
      ∃ v ∈ done, Newest updates v ∧ ¬ Strongest updates v)

theorem leads_opened (updates : List SessionUpdate) (u : SessionUpdate) :
    Leads updates [u] (opened u) u where
  mem := List.mem_singleton_self u
  state := rfl
  finishedAt := rfl
  durationMs := rfl
  bound q hq hstrong hnew _ := by
    rw [List.mem_singleton.mp hq] at hstrong hnew ⊢
    exact ⟨le_rfl, Or.inl ⟨hstrong, hnew⟩⟩

section Outcome

variable {updates done : List SessionUpdate} {record : SessionRecord} {u w : SessionUpdate}

/-- Once a strongest update is delivered, the record is in its state. -/
theorem Summarises.state_eq (hsum : Summarises done record) (hsub : ∀ v ∈ done, v ∈ updates)
    {q : SessionUpdate} (hq : q ∈ done) (hstrong : Strongest updates q) :
    record.state = q.state := by
  obtain ⟨⟨x, hx, hxeq⟩, hmax⟩ := hsum.precedence
  apply SessionState.precedence_injective
  refine le_antisymm ?_ (hmax ⟨q, hq, rfl⟩)
  rw [← hxeq]
  exact hstrong x (hsub x hx)

/-- Once an update of the largest sequence number is delivered, the record carries that number. -/
theorem Summarises.order_eq (hsum : Summarises done record) (hsub : ∀ v ∈ done, v ∈ updates)
    {q : SessionUpdate} (hq : q ∈ done) (hnew : Newest updates q) :
    record.sequence.getD 0 = Sessions.order q := by
  obtain ⟨⟨x, hx, hxeq⟩, hmax⟩ := hsum.order
  refine le_antisymm ?_ (hmax ⟨q, hq, rfl⟩)
  rw [← hxeq]
  exact hnew x (hsub x hx)

theorem Strongest.of_state_eq {q : SessionUpdate} (hstrong : Strongest updates q)
    (heq : u.state = q.state) : Strongest updates u :=
  fun v hv => heq ▸ hstrong v hv

theorem finishedAt_of_terminal (hterminal : u.state.isTerminal = true) :
    u.finishedAt = some u.updatedAt := by
  rw [SessionUpdate.finishedAt, if_pos hterminal]

theorem leads_merged (hsum : Summarises done record) (hsub : ∀ v ∈ done ++ [u], v ∈ updates)
    (hlead : Leads updates done record w) :
    ∃ w', Leads updates (done ++ [u]) (record.merged u) w' := by
  have hdone : ∀ v ∈ done, v ∈ updates := fun v hv => hsub v (List.mem_append_left _ hv)
  have hu : u ∈ updates := hsub u (by simp)
  have htime : record.state.isTerminal = true →
      record.finishedAt.getD record.lastUpdate = w.updatedAt := by
    intro hterminal
    rw [hlead.finishedAt, finishedAt_of_terminal (hlead.state ▸ hterminal)]
    rfl
  cases hadopt : record.adopts u with
  | true =>
      obtain ⟨hstate, hfinished, hduration⟩ := merged_of_adopts hadopt
      refine ⟨u, by simp, hstate.symm, hfinished, hduration, ?_⟩
      intro q hq hstrong hnew hterminal
      rcases List.mem_append.mp hq with hq | hq
      · have hqstate := hsum.state_eq hdone hq hstrong
        have horder := hsum.order_eq hdone hq hnew
        rcases adopts_iff.mp hadopt with hlt | ⟨heq, hlt | ⟨hsame, hlater⟩⟩
        · exact absurd (hstrong u hu) (by rw [← hqstate]; omega)
        · have hle : order u ≤ order q := hnew u hu
          exact absurd hle (not_le.mpr (horder ▸ hlt))
        · have hnewU : Newest updates u := by
            intro v hv
            have heqOrder : order u = order q := hsame.trans horder
            exact heqOrder ▸ hnew v hv
          rw [htime (hqstate ▸ hterminal)] at hlater
          exact ⟨((hlead.bound q hq hstrong hnew hterminal).1.trans_lt hlater).le,
            Or.inl ⟨hstrong.of_state_eq (heq.trans hqstate), hnewU⟩⟩
      · rw [List.mem_singleton.mp hq] at hstrong hnew ⊢
        exact ⟨le_rfl, Or.inl ⟨hstrong, hnew⟩⟩
  | false =>
      obtain ⟨hstate, hfinished, hduration⟩ := merged_of_not_adopts hadopt
      refine ⟨w, List.mem_append_left _ hlead.mem, hlead.state.trans hstate.symm,
        hfinished.trans hlead.finishedAt, hduration.trans hlead.durationMs, ?_⟩
      have hkeep : ∀ q ∈ done, Strongest updates q → Newest updates q → q.state.isTerminal = true →
          q.updatedAt ≤ w.updatedAt ∧ (Strongest updates w ∧ Newest updates w ∨
            ∃ v ∈ done ++ [u], Newest updates v ∧ ¬ Strongest updates v) := by
        intro q hq hstrong hnew hterminal
        obtain ⟨hle, hcase⟩ := hlead.bound q hq hstrong hnew hterminal
        exact ⟨hle, hcase.imp id fun ⟨v, hv, hvs⟩ => ⟨v, List.mem_append_left _ hv, hvs⟩⟩
      intro q hq hstrong hnew hterminal
      rcases List.mem_append.mp hq with hq | hq
      · exact hkeep q hq hstrong hnew hterminal
      · rw [List.mem_singleton.mp hq] at hstrong hnew hterminal ⊢
        have hrefused := adopts_iff.not.mp (Bool.eq_false_iff.mp hadopt)
        rw [not_or, not_lt, not_and, not_or, not_and, not_lt, not_lt] at hrefused
        obtain ⟨hweaker, hsame⟩ := hrefused
        obtain ⟨⟨x, hx, hxeq⟩, -⟩ := hsum.precedence
        obtain ⟨⟨y, hy, hyeq⟩, -⟩ := hsum.order
        have hustate : u.state = record.state := SessionState.precedence_injective
          (le_antisymm hweaker (hxeq ▸ hstrong x (hdone x hx)))
        obtain ⟨horder, hlater⟩ := hsame hustate
        have hyorder : order y = order u := le_antisymm (hnew y (hdone y hy)) (hyeq ▸ horder)
        have hnewY : Newest updates y := fun v hv => hyorder ▸ hnew v hv
        have hle := hlater (hyorder.symm.trans hyeq)
        rw [htime (hustate ▸ hterminal)] at hle
        refine ⟨hle, ?_⟩
        by_cases hstrongY : Strongest updates y
        · have hystate := hsum.state_eq hdone hy hstrongY
          exact (hkeep y hy hstrongY hnewY (hystate ▸ hustate ▸ hterminal)).2
        · exact Or.inr ⟨y, List.mem_append_left _ hy, hnewY, hstrongY⟩

/-- A record in the strongest state with the largest sequence number keeps its outcome as long as no
later rival of that number arrives. -/
theorem foldl_merged_frozen {finished : Timestamp} (rest : List SessionUpdate)
    (record : SessionRecord) (hfinished : record.finishedAt = some finished)
    (hprecedence : ∀ v ∈ rest, v.state.precedence ≤ record.state.precedence)
    (horder : ∀ v ∈ rest, order v ≤ record.sequence.getD 0)
    (hrival : ∀ v ∈ rest, v.state = record.state → order v = record.sequence.getD 0 →
      v.updatedAt ≤ finished) :
    (rest.foldl merged record).finishedAt = some finished ∧
      (rest.foldl merged record).durationMs = record.durationMs := by
  induction rest generalizing record with
  | nil => exact ⟨hfinished, rfl⟩
  | cons v rest ih =>
      have hrefused : record.adopts v = false := by
        rw [Bool.eq_false_iff, ne_eq, adopts_iff]
        rintro (hlt | ⟨hstate, hlt | ⟨hsame, hlater⟩⟩)
        · exact absurd (hprecedence v (by simp)) (not_le.mpr hlt)
        · exact absurd (horder v (by simp)) (not_le.mpr hlt)
        · rw [hfinished] at hlater
          exact absurd (hrival v (by simp) hstate hsame) (not_le.mpr hlater)
      obtain ⟨hstate, hfinish, hduration⟩ := merged_of_not_adopts hrefused
      have hsequence : (record.merged v).sequence.getD 0 = record.sequence.getD 0 := by
        rw [merged_sequence, getD_laterSequence, max_eq_left]
        exact horder v (by simp)
      rw [List.foldl_cons, ← hduration]
      apply ih
      · exact hfinish.trans hfinished
      · rw [hstate]
        exact fun x hx => hprecedence x (List.mem_cons_of_mem _ hx)
      · rw [hsequence]
        exact fun x hx => horder x (List.mem_cons_of_mem _ hx)
      · rw [hstate, hsequence]
        exact fun x hx => hrival x (List.mem_cons_of_mem _ hx)

end Outcome

/-- Every delivery of compatible updates succeeds and its record carries the outcome of a leader. -/
theorem deliver_leads {updates reordered : List SessionUpdate} (hne : updates ≠ [])
    (hcompat : Compatible updates) (hperm : reordered.Perm updates) :
    ∃ record w, deliver reordered = some (.ok record) ∧ Summarises updates record ∧
      Leads updates reordered record w := by
  cases reordered with
  | nil => exact absurd hperm.symm.eq_nil hne
  | cons first rest =>
      obtain ⟨hdeliver, hsum, hlead⟩ := deliver_induction
        (fun done record => (∀ v ∈ done, v ∈ updates) → ∃ w, Leads updates done record w)
        (fun u _ => ⟨u, leads_opened updates u⟩)
        (fun done record u _ hsum ih hsub =>
          let ⟨_, hw⟩ := ih fun v hv => hsub v (List.mem_append_left _ hv)
          leads_merged hsum hsub hw)
        (hcompat.perm hperm)
      obtain ⟨w, hw⟩ := hlead fun v hv => hperm.mem_iff.mp hv
      exact ⟨_, w, hdeliver, hsum.perm hperm, hw⟩

theorem finishedDuration_of_terminal {u : SessionUpdate} (hterminal : u.state.isTerminal = true) :
    u.finishedDuration = u.durationMs := by
  rw [SessionUpdate.finishedDuration, finishedAt_of_terminal hterminal]
  rfl

section Necessity

variable {updates rest : List SessionUpdate} {u : SessionUpdate}

/-- The record shows the finish time and the duration of the update. -/
def Carries (record : SessionRecord) (u : SessionUpdate) : Prop :=
  record.finishedAt = some u.updatedAt ∧ record.durationMs = u.durationMs

theorem Carries.agree {record : SessionRecord} {u v : SessionUpdate} (hu : Carries record u)
    (hv : Carries record v) : Agree u v :=
  ⟨Option.some.inj (hu.1.symm.trans hv.1), hu.2.symm.trans hv.2⟩

/-- A record that carries the outcome of a strongest update and the largest sequence number ends
with that outcome. -/
theorem foldl_merged_outcome (rest : List SessionUpdate) (record : SessionRecord)
    (hrest : ∀ v ∈ rest, v ∈ updates) (hstrong : Strongest updates u)
    (hstate : record.state = u.state) (hfinished : record.finishedAt = some u.updatedAt)
    (horder : ∀ v ∈ updates, order v ≤ record.sequence.getD 0)
    (hrival : ∀ v ∈ updates, Strongest updates v → Newest updates v → v.updatedAt ≤ u.updatedAt) :
    (rest.foldl merged record).finishedAt = some u.updatedAt ∧
      (rest.foldl merged record).durationMs = record.durationMs := by
  apply foldl_merged_frozen rest record hfinished
  · rw [hstate]
    exact fun v hv => hstrong v (hrest v hv)
  · exact fun v hv => horder v (hrest v hv)
  · intro v hv heq hnumber
    refine hrival v (hrest v hv) (hstrong.of_state_eq (heq.trans hstate)) ?_
    intro x hx
    exact hnumber ▸ horder x hx

/-- Delivered first, a strongest update of the largest sequence number that finishes no earlier than
its rivals decides the outcome. -/
theorem outcome_of_first (hcompat : Compatible updates)
    (hperm : (u :: rest).Perm updates) (hstrong : Strongest updates u) (hnew : Newest updates u)
    (hterminal : u.state.isTerminal = true)
    (hrival : ∀ v ∈ updates, Strongest updates v → Newest updates v → v.updatedAt ≤ u.updatedAt) :
    ∃ record, deliver (u :: rest) = some (.ok record) ∧ Carries record u := by
  obtain ⟨hdeliver, -, -⟩ := deliver_induction (fun _ _ => True) (fun _ => trivial)
    (fun _ _ _ _ _ _ => trivial) (hcompat.perm hperm)
  obtain ⟨hfinished, hduration⟩ := foldl_merged_outcome rest (opened u)
    (fun v hv => hperm.mem_iff.mp (List.mem_cons_of_mem _ hv)) hstrong rfl
    (finishedAt_of_terminal hterminal) hnew hrival
  exact ⟨_, hdeliver, hfinished, hduration.trans (finishedDuration_of_terminal hterminal)⟩

/-- Delivered right after a weaker update of the largest sequence number, a strongest update decides
the outcome unless a rival of that number finishes later. -/
theorem outcome_of_second {v : SessionUpdate} (hcompat : Compatible updates)
    (hperm : (v :: u :: rest).Perm updates) (hstrong : Strongest updates u)
    (hnew : Newest updates v) (hweak : ¬ Strongest updates v) (hterminal : u.state.isTerminal = true)
    (hrival : ∀ v ∈ updates, Strongest updates v → Newest updates v → v.updatedAt ≤ u.updatedAt) :
    ∃ record, deliver (v :: u :: rest) = some (.ok record) ∧ Carries record u := by
  obtain ⟨hdeliver, -, -⟩ := deliver_induction (fun _ _ => True) (fun _ => trivial)
    (fun _ _ _ _ _ _ => trivial) (hcompat.perm hperm)
  have hadopt : (opened v).adopts u = true := by
    simp only [Strongest, not_forall, not_le] at hweak
    obtain ⟨x, hx, hlt⟩ := hweak
    exact adopts_iff.mpr (Or.inl (hlt.trans_le (hstrong x hx)))
  obtain ⟨hstate, hfinish, hkept⟩ := merged_of_adopts hadopt
  have horder : ∀ x ∈ updates, order x ≤ ((opened v).merged u).sequence.getD 0 := by
    intro x hx
    rw [merged_sequence, getD_laterSequence]
    exact (hnew x hx).trans (le_max_left _ _)
  obtain ⟨hfinished, hduration⟩ := foldl_merged_outcome rest ((opened v).merged u)
    (fun x hx => hperm.mem_iff.mp (by simp [hx])) hstrong hstate
    (hfinish.trans (finishedAt_of_terminal hterminal)) horder hrival
  exact ⟨_, hdeliver, hfinished,
    hduration.trans (hkept.trans (finishedDuration_of_terminal hterminal))⟩

theorem exists_cons_perm {x : SessionUpdate} (hx : x ∈ updates) : ∃ rest, (x :: rest).Perm updates :=
  ⟨updates.erase x, (List.perm_cons_erase hx).symm⟩

theorem exists_cons_cons_perm {x y : SessionUpdate} (hx : x ∈ updates) (hy : y ∈ updates)
    (hne : y ≠ x) : ∃ rest, (x :: y :: rest).Perm updates := by
  have hy' : y ∈ updates.erase x := (List.mem_erase_of_ne hne).mpr hy
  exact ⟨(updates.erase x).erase y,
    ((List.perm_cons_erase hy').symm.cons x).trans (List.perm_cons_erase hx).symm⟩

/-- Among strongest updates of the largest sequence number one finishes last. -/
theorem exists_last_contender {x : SessionUpdate} (hx : x ∈ updates) (hstrong : Strongest updates x)
    (hnew : Newest updates x) :
    ∃ t ∈ updates, Strongest updates t ∧ Newest updates t ∧
      ∀ v ∈ updates, Strongest updates v → Newest updates v → v.updatedAt ≤ t.updatedAt := by
  classical
  have hfinite : (updates.toFinset.filter fun v => Strongest updates v ∧ Newest updates v).Nonempty :=
    ⟨x, by simp [hx, hstrong, hnew]⟩
  obtain ⟨t, ht, hmax⟩ := Finset.exists_max_image _ SessionUpdate.updatedAt hfinite
  simp only [Finset.mem_filter, List.mem_toFinset] at ht hmax
  exact ⟨t, ht.1, ht.2.1, ht.2.2, fun v hv hs hn => hmax v ⟨hv, hs, hn⟩⟩

theorem exists_newest (hne : updates ≠ []) : ∃ x ∈ updates, Newest updates x := by
  classical
  obtain ⟨x, hx⟩ := List.exists_mem_of_ne_nil updates hne
  obtain ⟨t, ht, hmax⟩ := Finset.exists_max_image updates.toFinset order ⟨x, by simp [hx]⟩
  exact ⟨t, by simpa using ht, fun v hv => hmax v (by simpa using hv)⟩

theorem terminal_of_strongest (hok : ¬ ∀ u ∈ updates, u.state = .ok)
    (hstrong : Strongest updates u) : u.state.isTerminal = true := by
  simp only [not_forall] at hok
  obtain ⟨x, hx, hstate⟩ := hok
  have hle := hstrong x hx
  cases hxstate : x.state <;> cases hustate : u.state <;>
    simp_all [SessionState.precedence, SessionState.isTerminal]

section Converges

variable {record : SessionRecord} (hcompat : Compatible updates)
  (hsame : ∀ reordered, reordered.Perm updates → deliver reordered = some (.ok record))
  (hok : ¬ ∀ u ∈ updates, u.state = .ok)

include hcompat hsame hok

theorem carries_contender (hu : u ∈ updates) (hstrong : Strongest updates u)
    (hnew : Newest updates u)
    (hrival : ∀ x ∈ updates, Strongest updates x → Newest updates x → x.updatedAt ≤ u.updatedAt) :
    Carries record u := by
  obtain ⟨rest, hperm⟩ := exists_cons_perm hu
  obtain ⟨result, hdeliver, hcarries⟩ := outcome_of_first hcompat hperm hstrong hnew
    (terminal_of_strongest hok hstrong) hrival
  cases (hsame _ hperm).symm.trans hdeliver
  exact hcarries

theorem carries_of_weaker {v : SessionUpdate} (hv : v ∈ updates) (hnew : Newest updates v)
    (hweak : ¬ Strongest updates v) (hu : u ∈ updates) (hstrong : Strongest updates u)
    (hrival : ∀ x ∈ updates, Strongest updates x → Newest updates x → x.updatedAt ≤ u.updatedAt) :
    Carries record u := by
  obtain ⟨rest, hperm⟩ := exists_cons_cons_perm hv hu (fun h => hweak (h ▸ hstrong))
  obtain ⟨result, hdeliver, hcarries⟩ := outcome_of_second hcompat hperm hstrong hnew hweak
    (terminal_of_strongest hok hstrong) hrival
  cases (hsame _ hperm).symm.trans hdeliver
  exact hcarries

end Converges

/-- When every order leaves the same record, the outcome is decided. -/
theorem decided_of_converges {record : SessionRecord} (hne : updates ≠ [])
    (hcompat : Compatible updates)
    (hsame : ∀ reordered, reordered.Perm updates → deliver reordered = some (.ok record)) :
    Decided updates := by
  by_cases hok : ∀ u ∈ updates, u.state = .ok
  · exact Or.inl hok
  by_cases hcontender : ∃ x ∈ updates, Strongest updates x ∧ Newest updates x
  · obtain ⟨x, hx, hxstrong, hxnew⟩ := hcontender
    obtain ⟨t, ht, hstrong, hnew, hlast⟩ := exists_last_contender hx hxstrong hxnew
    have hcarriesT := carries_contender hcompat hsame hok ht hstrong hnew hlast
    refine Or.inr (Or.inr ⟨t, ht, hstrong, hnew, ?_, ?_⟩)
    · intro u hu hustrong hunew
      rcases (hlast u hu hustrong hunew).lt_or_eq with hlt | heq
      · exact Or.inl hlt
      · have hcarriesU := carries_contender hcompat hsame hok hu hustrong hunew
          fun v hv hs hn => heq ▸ hlast v hv hs hn
        exact Or.inr (hcarriesU.agree hcarriesT)
    · rintro ⟨v, hv, hvnew, hvweak⟩ u hu hustrong
      rcases lt_or_ge u.updatedAt t.updatedAt with hlt | hge
      · exact Or.inl hlt
      · have hcarriesU := carries_of_weaker hcompat hsame hok hv hvnew hvweak hu hustrong
          fun x hx hs hn => (hlast x hx hs hn).trans hge
        exact Or.inr (hcarriesU.agree hcarriesT)
  · obtain ⟨v, hv, hvnew⟩ := exists_newest hne
    have hvweak : ¬ Strongest updates v := fun h => hcontender ⟨v, hv, h, hvnew⟩
    have hall : ∀ u ∈ updates, Strongest updates u → Carries record u := fun u hu hustrong =>
      carries_of_weaker hcompat hsame hok hv hvnew hvweak hu hustrong
        fun x hx hs hn => absurd ⟨x, hx, hs, hn⟩ hcontender
    exact Or.inr (Or.inl fun u hu w hw hus hws => (hall u hu hus).agree (hall w hw hws))

end Necessity

/-! ### When every order converges -/

theorem Agree.outcome {u v : SessionUpdate} (hstate : u.state = v.state) (h : Agree u v) :
    u.finishedAt = v.finishedAt ∧ u.finishedDuration = v.finishedDuration := by
  simp only [SessionUpdate.finishedDuration, SessionUpdate.finishedAt, hstate, h.1, h.2, and_self]

/-- With a decided outcome the leaders of any two deliveries leave the same outcome. -/
theorem Decided.outcome_eq {updates left right : List SessionUpdate}
    {leftRecord rightRecord : SessionRecord} {u v : SessionUpdate} (hdecided : Decided updates)
    (hleft : left.Perm updates) (hright : right.Perm updates)
    (hsumLeft : Summarises updates leftRecord) (hsumRight : Summarises updates rightRecord)
    (hu : Leads updates left leftRecord u) (hv : Leads updates right rightRecord v) :
    u.finishedAt = v.finishedAt ∧ u.finishedDuration = v.finishedDuration := by
  have hstate : u.state = v.state := hu.state.trans ((SessionState.precedence_injective
    (hsumLeft.precedence.unique hsumRight.precedence)).trans hv.state.symm)
  have humem := hleft.mem_iff.mp hu.mem
  have hvmem := hright.mem_iff.mp hv.mem
  have hustrong : Strongest updates u := fun x hx => hu.state ▸ hsumLeft.precedence.2 ⟨x, hx, rfl⟩
  have hvstrong : Strongest updates v := fun x hx => hstate ▸ hustrong x hx
  rcases hdecided with hok | hall | ⟨t, ht, htstrong, htnew, hrivals, hweaker⟩
  · simp [SessionUpdate.finishedDuration, SessionUpdate.finishedAt, hok u humem, hok v hvmem,
      SessionState.isTerminal]
  · exact (hall u humem v hvmem hustrong hvstrong).outcome hstate
  · -- a leader finishes no earlier than `t`, which outranks it: they leave the same outcome
    have hagree : ∀ {delivered record w}, delivered.Perm updates → Summarises updates record →
        Leads updates delivered record w → Strongest updates w → w.state = t.state →
        t.state.isTerminal = true → Agree w t := by
      intro delivered record w hperm hsum hw hwstrong hwstate hterminal
      obtain ⟨hle, hcase⟩ := hw.bound t (hperm.mem_iff.mpr ht) htstrong htnew hterminal
      have hwmem := hperm.mem_iff.mp hw.mem
      have houtranks : Outranks t w := by
        rcases hcase with ⟨-, hwnew⟩ | ⟨x, hx, hxnew, hxweak⟩
        · exact hrivals w hwmem hwstrong hwnew
        · exact hweaker ⟨x, hperm.mem_iff.mp hx, hxnew, hxweak⟩ w hwmem hwstrong
      exact houtranks.resolve_left (not_lt.mpr hle)
    have hut : u.state = t.state := SessionState.precedence_injective
      (le_antisymm (htstrong u humem) (hustrong t ht))
    have hvt : v.state = t.state := hstate.symm.trans hut
    cases hterminal : t.state.isTerminal with
    | true =>
        have hu' := (hagree hleft hsumLeft hu hustrong hut hterminal).outcome hut
        have hv' := (hagree hright hsumRight hv hvstrong hvt hterminal).outcome hvt
        exact ⟨hu'.1.trans hv'.1.symm, hu'.2.trans hv'.2.symm⟩
    | false =>
        simp [SessionUpdate.finishedDuration, SessionUpdate.finishedAt, hut, hvt, hterminal]

/-- Every order of delivery of compatible updates leaves one and the same record exactly when the
outcome of their strongest state is decided. -/
theorem deliver_converges_iff (updates : List SessionUpdate) (hne : updates ≠ [])
    (hcompat : Compatible updates) :
    (∃ record, ∀ reordered, reordered.Perm updates → deliver reordered = some (.ok record)) ↔
      Decided updates := by
  constructor
  · rintro ⟨record, hsame⟩
    exact decided_of_converges hne hcompat hsame
  · intro hdecided
    obtain ⟨record, w, -, hsum, hlead⟩ := deliver_leads hne hcompat (List.Perm.refl updates)
    refine ⟨record, ?_⟩
    intro reordered hperm
    obtain ⟨other, v, hdeliver, hsumOther, hleadOther⟩ := deliver_leads hne hcompat hperm
    obtain ⟨hfinished, hduration⟩ :=
      hdecided.outcome_eq hperm (List.Perm.refl updates) hsumOther hsum hleadOther hlead
    rw [hdeliver, hsumOther.ext hne hsum]
    · rw [hleadOther.finishedAt, hfinished, hlead.finishedAt]
    · rw [hleadOther.durationMs, hduration, hlead.durationMs]

/-- An update of one fixed session that started at one second past the epoch. -/
def sampleUpdate (state : SessionState) (sequence : Nat) (updatedAt : Timestamp) : SessionUpdate where
  id := ⟨7⟩
  projectId := ⟨42, ProjectId.positive_fortyTwo⟩
  releaseId := ⟨3⟩
  environmentId := ⟨4⟩
  startedAt := ⟨1000, inRange_second⟩
  updatedAt := updatedAt
  state := state
  sequence := some sequence
  durationMs := some 500
  userDigest := some 9

/-- An exit reported twice and a crash with an earlier sequence number: every order converges. -/
theorem deliver_converges_exit_and_crash :
    let updates := [sampleUpdate .ok 1 ⟨1100, by decide⟩, sampleUpdate .exited 3 ⟨1300, by decide⟩,
      sampleUpdate .crashed 2 ⟨1200, by decide⟩, sampleUpdate .exited 3 ⟨1300, by decide⟩]
    ∃ record, ∀ reordered, reordered.Perm updates → deliver reordered = some (.ok record) :=
  (deliver_converges_iff _ (by decide) ⟨by decide, by decide, by decide⟩).mpr
    (Or.inr (Or.inl (by decide)))

/-- Two crash reports, and an update that raises the sequence number past both: the crash delivered
after it is dropped, so that the finish time depends on the order. -/
theorem deliver_diverges_on_late_crash :
    let updates := [sampleUpdate .crashed 1 ⟨1010, by decide⟩, sampleUpdate .ok 5 ⟨1020, by decide⟩,
      sampleUpdate .crashed 2 ⟨1005, by decide⟩]
    ¬ ∀ reordered, updates ≠ [] → Compatible updates → reordered.Perm updates →
      deliver reordered = deliver updates := by
  intro updates hsame
  have hperm : [sampleUpdate .crashed 1 ⟨1010, by decide⟩, sampleUpdate .crashed 2 ⟨1005, by decide⟩,
      sampleUpdate .ok 5 ⟨1020, by decide⟩].Perm updates := by decide
  have heq := hsame _ (by decide) ⟨by decide, by decide, by decide⟩ hperm
  revert heq
  decide

end MetricBackend.Sessions
