import MetricBackend.DomainMetrics
import MetricBackend.LibBatches
import MetricBackend.LibCodes
import Mathlib.Tactic.Ring

/-! Batching of metrics conserves the measurements: whatever pieces a sequence of measurements is cut into, and however
neighbouring pieces are merged, the batch is that of the whole sequence, and it counts each measurement once. -/

namespace MetricBackend

/-! ### The id of a series -/

/-- The texts of a series have no NUL, which separates them where the series is hashed. -/
structure MetricSeries.Separated (series : MetricSeries) : Prop where
  name : '\x00' ∉ series.name
  unit : '\x00' ∉ series.unit
  tags : ∀ tag ∈ series.tags.toList, '\x00' ∉ tag.1 ∧ '\x00' ∉ tag.2

namespace MetricSeries

/-- The texts that are hashed after the name, in their order. -/
def parts (series : MetricSeries) : List Text :=
  series.kind.asStr :: series.unit :: series.tags.toList.flatMap fun tag => [tag.1, tag.2]

theorem asStr_separated (kind : MetricKind) : '\x00' ∉ kind.asStr := by
  cases kind <;> decide

theorem asStr_injective : Function.Injective MetricKind.asStr := by
  intro left right h
  cases left <;> cases right <;> first | rfl | exact absurd h (by decide)

theorem Separated.parts {series : MetricSeries} (h : series.Separated) : ∀ part ∈ series.parts, '\x00' ∉ part := by
  intro part hpart
  rw [MetricSeries.parts, List.mem_cons, List.mem_cons, List.mem_flatMap] at hpart
  obtain rfl | rfl | ⟨tag, htag, hpart⟩ := hpart
  · exact asStr_separated _
  · exact h.unit
  · obtain ⟨hkey, hvalue⟩ := h.tags tag htag
    rw [List.mem_cons, List.mem_singleton] at hpart
    obtain rfl | rfl := hpart
    · exact hkey
    · exact hvalue

/-- Two lists up to the first separator. -/
theorem append_cons_inj {α : Type} {c : α} {first first' rest rest' : List α} (hfirst : c ∉ first) (hfirst' : c ∉ first')
    (h : first ++ c :: rest = first' ++ c :: rest') : first = first' ∧ rest = rest' := by
  induction first generalizing first' with
  | nil =>
      cases first' with
      | nil => exact ⟨rfl, (List.cons.inj h).2⟩
      | cons head tail => exact absurd (List.cons.inj h).1 fun heq => hfirst' (heq ▸ List.mem_cons_self)
  | cons head tail ih =>
      cases first' with
      | nil => exact absurd (List.cons.inj h).1 fun heq => hfirst (heq ▸ List.mem_cons_self)
      | cons head' tail' =>
          obtain ⟨rfl, htail⟩ := List.cons.inj h
          obtain ⟨rfl, hrest⟩ :=
            ih (fun hmem => hfirst (List.mem_cons_of_mem _ hmem)) (fun hmem => hfirst' (List.mem_cons_of_mem _ hmem)) htail
          exact ⟨rfl, hrest⟩

/-- Parts without the separator are determined by what they make together. -/
theorem parts_injective {α : Type} {c : α} {first first' : List α} {rest rest' : List (List α)} (hfirst : c ∉ first)
    (hfirst' : c ∉ first') (hrest : ∀ part ∈ rest, c ∉ part) (hrest' : ∀ part ∈ rest', c ∉ part)
    (h : first ++ rest.flatMap (c :: ·) = first' ++ rest'.flatMap (c :: ·)) : first = first' ∧ rest = rest' := by
  induction rest generalizing first first' rest' with
  | nil =>
      cases rest' with
      | nil => simpa using h
      | cons part parts =>
          rw [List.flatMap_nil, List.append_nil, List.flatMap_cons] at h
          exact absurd (h ▸ List.mem_append_right _ List.mem_cons_self) hfirst
  | cons part parts ih =>
      obtain ⟨hpart, hparts⟩ := List.forall_mem_cons.mp hrest
      cases rest' with
      | nil =>
          rw [List.flatMap_nil, List.append_nil, List.flatMap_cons] at h
          exact absurd (h ▸ List.mem_append_right _ List.mem_cons_self) hfirst'
      | cons part' parts' =>
          obtain ⟨hpart', hparts'⟩ := List.forall_mem_cons.mp hrest'
          rw [List.flatMap_cons, List.flatMap_cons, List.cons_append, List.cons_append] at h
          obtain ⟨rfl, htail⟩ := append_cons_inj hfirst hfirst' h
          obtain ⟨rfl, rfl⟩ := ih hpart hpart' hparts hparts' htail
          exact ⟨rfl, rfl⟩

/-- The input of the hash after the project is the bytes of the texts with NULs in between. -/
theorem idInput_eq (series : MetricSeries) : series.idInput = utf8Bytes "application-metric-series/v1".toList
    ++ (bigEndian 4 series.projectId.get ++ utf8Bytes (series.name ++ series.parts.flatMap ('\x00' :: ·))) := by
  have hcons : ∀ text, utf8Bytes ('\x00' :: text) = 0 :: utf8Bytes text := fun text => utf8Bytes_cons _ _
  have htags : ∀ tags : List (Text × Text),
      utf8Bytes ((tags.flatMap fun tag => [tag.1, tag.2]).flatMap ('\x00' :: ·))
        = tags.flatMap fun tag => [0] ++ utf8Bytes tag.1 ++ [0] ++ utf8Bytes tag.2 := by
    intro tags
    induction tags with
    | nil => rfl
    | cons tag tags ih => simp [utf8Bytes_append, hcons, ih]
  simp [idInput, parts, utf8Bytes_append, hcons, htags]

theorem tags_injective {left right : List (Text × Text)}
    (h : (left.flatMap fun tag => [tag.1, tag.2]) = right.flatMap fun tag => [tag.1, tag.2]) : left = right := by
  induction left generalizing right with
  | nil =>
      cases right with
      | nil => rfl
      | cons tag tags => exact nomatch h
  | cons tag tags ih =>
      cases right with
      | nil => exact nomatch h
      | cons tag' tags' =>
          simp only [List.flatMap_cons, List.cons_append, List.nil_append, List.cons.injEq] at h
          obtain ⟨hkey, hvalue, htail⟩ := h
          rw [ih htail, Prod.ext hkey hvalue]

theorem projectBytes_injective {left right : ProjectId} (h : bigEndian 4 left.get = bigEndian 4 right.get) :
    left = right := by
  obtain ⟨hleft, hleftLt⟩ := left.positive
  obtain ⟨hright, hrightLt⟩ := right.positive
  rw [← Int.toNat_of_nonneg hleft.le, ← Int.toNat_of_nonneg hright.le] at h
  have hnat : left.get.toNat = right.get.toNat := bigEndian_injective (by omega) (by omega) h
  exact ProjectId.get_injective (by omega)

theorem idInput_injective {left right : MetricSeries} (hleft : left.Separated) (hright : right.Separated)
    (h : left.idInput = right.idInput) : left = right := by
  rw [idInput_eq, idInput_eq] at h
  obtain ⟨hproject, htexts⟩ := List.append_inj (List.append_cancel_left h) (by rw [length_bigEndian, length_bigEndian])
  obtain ⟨hname, hparts⟩ := parts_injective hleft.name hright.name hleft.parts hright.parts (utf8Bytes_injective htexts)
  obtain ⟨hkind, hunit, htags⟩ : left.kind.asStr = right.kind.asStr ∧ left.unit = right.unit
      ∧ (left.tags.toList.flatMap fun tag => [tag.1, tag.2]) = right.tags.toList.flatMap fun tag => [tag.1, tag.2] := by
    simpa [parts] using hparts
  have hprojects := projectBytes_injective hproject
  have htables : left.tags = right.tags := Std.ExtTreeMap.ext_toList (tags_injective htags ▸ List.Perm.refl _)
  cases left
  cases right
  simp only [MetricSeries.mk.injEq]
  exact ⟨hprojects, hname, asStr_injective hkind, hunit, htables⟩

end MetricSeries

/-! ### Merging aggregates -/

theorem saturatingCount_assoc (a b c : Nat) :
    saturatingCount (saturatingCount a b) c = saturatingCount a (saturatingCount b c) := by
  simp only [saturatingCount]
  omega

theorem saturatingBin_assoc (a b c : Nat) : saturatingBin (saturatingBin a b) c = saturatingBin a (saturatingBin b c) := by
  simp only [saturatingBin]
  omega

namespace MetricAggregate

def kind : MetricAggregate → MetricKind
  | counter .. => .counter
  | gauge .. => .gauge
  | distribution .. => .distribution

def count : MetricAggregate → Nat
  | counter _ count => count
  | gauge _ _ _ _ count => count
  | distribution _ _ _ count _ => count

/-- The bins of a distribution. -/
def bins : MetricAggregate → Fin metricSketchBins → Nat
  | distribution _ _ _ _ bins => bins
  | _ => fun _ => 0

@[simp] theorem kind_fromMeasurement (kind : MetricKind) (value : ℚ) : (fromMeasurement kind value).kind = kind := by
  cases kind <;> rfl

@[simp] theorem count_fromMeasurement (kind : MetricKind) (value : ℚ) : (fromMeasurement kind value).count = 1 := by
  cases kind <;> rfl

theorem sum_bins_fromMeasurement (value : ℚ) : ∑ bin, (fromMeasurement .distribution value).bins bin = 1 := by
  rw [fromMeasurement, bins, Finset.sum_pi_single', if_pos (Finset.mem_univ _)]

/-- Aggregates of one kind merge, bin by bin. -/
theorem merge_of_kind {left right : MetricAggregate} (h : left.kind = right.kind) :
    ∃ merged, left.merge right = some merged ∧ merged.kind = left.kind
      ∧ merged.count = saturatingCount left.count right.count
      ∧ ∀ bin, merged.bins bin = saturatingBin (left.bins bin) (right.bins bin) := by
  cases left <;> cases right <;> simp only [kind, reduceCtorEq] at h <;> exact ⟨_, rfl, rfl, rfl, fun bin => rfl⟩

/-- Merging is associative, whatever the kinds. -/
theorem merge_assoc (a b c : MetricAggregate) : (a.merge b).bind (·.merge c) = (b.merge c).bind a.merge := by
  cases a <;> cases b <;> cases c <;>
    simp [merge, add_assoc, saturatingCount_assoc, saturatingBin_assoc, min_assoc, max_assoc]

end MetricAggregate

/-! ### Batches -/

namespace MetricDelta

/-- What a delta makes of the entry of its key; one of another kind is dropped. -/
def absorb (current newer : MetricDelta) : MetricDelta :=
  match current.aggregate.merge newer.aggregate with
  | none => current
  | some aggregate =>
      { current with
        aggregate := aggregate
        receivedAt := newer.receivedAt
        traceId := newer.traceId.or current.traceId }

variable {current newer : MetricDelta}

@[simp] theorem absorb_series : (absorb current newer).series = current.series := by
  rw [absorb]
  split <;> rfl

@[simp] theorem absorb_bucketStart : (absorb current newer).bucketStart = current.bucketStart := by
  rw [absorb]
  split <;> rfl

/-- A delta of the same kind is absorbed. -/
theorem absorb_of_kind (h : current.aggregate.kind = newer.aggregate.kind) :
    (absorb current newer).aggregate.kind = current.aggregate.kind
      ∧ (absorb current newer).aggregate.count = saturatingCount current.aggregate.count newer.aggregate.count
      ∧ ∀ bin, (absorb current newer).aggregate.bins bin
          = saturatingBin (current.aggregate.bins bin) (newer.aggregate.bins bin) := by
  obtain ⟨merged, hmerged, hrest⟩ := MetricAggregate.merge_of_kind h
  rw [absorb, hmerged]
  exact hrest

/-- Absorbing is associative among deltas of one kind. -/
theorem absorb_assoc {a b c : MetricDelta} (hab : a.aggregate.kind = b.aggregate.kind)
    (hbc : b.aggregate.kind = c.aggregate.kind) : absorb (absorb a b) c = absorb a (absorb b c) := by
  obtain ⟨left, hleft, hleftKind, -⟩ := MetricAggregate.merge_of_kind hab
  obtain ⟨right, hright, hrightKind, -⟩ := MetricAggregate.merge_of_kind hbc
  obtain ⟨whole, hwhole, -⟩ := MetricAggregate.merge_of_kind (hleftKind.trans (hab.trans hbc))
  have hother : a.aggregate.merge right = some whole := by
    have hassoc := MetricAggregate.merge_assoc a.aggregate b.aggregate c.aggregate
    rw [hleft, hright, Option.bind_some, Option.bind_some, hwhole] at hassoc
    exact hassoc.symm
  have hinner : absorb a b = { a with
      aggregate := left, receivedAt := b.receivedAt, traceId := b.traceId.or a.traceId } := by
    rw [absorb, hleft]
  have houter : absorb b c = { b with
      aggregate := right, receivedAt := c.receivedAt, traceId := c.traceId.or b.traceId } := by
    rw [absorb, hright]
  rw [hinner, houter]
  simp only [absorb, hwhole, hother, Option.or_assoc]

end MetricDelta

namespace MetricDeltaBatch

variable (blake3 : List (BitVec 8) → BitVec 256)

/-- Pushes the deltas in their order. -/
def pushAll (batch : MetricDeltaBatch) (deltas : List MetricDelta) : MetricDeltaBatch := deltas.foldl (push blake3) batch

theorem push_eq (batch : MetricDeltaBatch) (delta : MetricDelta) :
    push blake3 batch delta
      = { batch with deltas := Table.pushEntry (keyOf blake3) MetricDelta.absorb batch.deltas delta } := by
  rw [push, Table.pushEntry]
  cases hold : batch.deltas[keyOf blake3 delta]? with
  | none => rfl
  | some current =>
      rw [Option.elim_some, MetricDelta.absorb]
      cases hmerge : current.aggregate.merge delta.aggregate with
      | none => simp only [hmerge, Table.insert_get_self hold]
      | some aggregate => simp only [hmerge]

theorem pushAll_eq (batch : MetricDeltaBatch) (deltas : List MetricDelta) :
    pushAll blake3 batch deltas
      = { batch with deltas := Table.pushEntries (keyOf blake3) MetricDelta.absorb batch.deltas deltas } := by
  induction deltas generalizing batch with
  | nil => rfl
  | cons delta deltas ih =>
      rw [pushAll, List.foldl_cons, ← pushAll, ih, push_eq]
      rfl

/-- An entry comes from the deltas under its key. -/
theorem get_pushAll (deltas : List MetricDelta) (key : MetricKey) :
    (pushAll blake3 empty deltas).deltas[key]?
      = (deltas.filter fun delta => keyOf blake3 delta = key).foldl (Table.accumulate MetricDelta.absorb) none := by
  rw [pushAll_eq]
  refine Table.get_pushEntries.trans ?_
  rw [List.filter_congr fun delta _ => decide_eq_decide.mpr Iff.rfl]
  rfl

/-- No two of the series are hashed to one id. -/
def Distinct (series : MetricSeries → Prop) : Prop :=
  ∀ left right, series left → series right → left.id blake3 = right.id blake3 → left = right

/-- A delta of one of the series, of the kind of its series. -/
def Typed (series : MetricSeries → Prop) (delta : MetricDelta) : Prop :=
  series delta.series ∧ delta.aggregate.kind = delta.series.kind

variable {blake3} {series : MetricSeries → Prop}

theorem series_eq_of_keyOf (hseries : Distinct blake3 series) {left right : MetricDelta} (hleft : Typed series left)
    (hright : Typed series right) (h : keyOf blake3 left = keyOf blake3 right) :
    left.series = right.series ∧ left.bucketStart = right.bucketStart := by
  obtain ⟨hid, hbucket⟩ := Prod.ext_iff.mp (toLex_inj.mp h)
  exact ⟨hseries _ _ hleft.1 hright.1 hid, Timestamp.unixMillis_injective hbucket⟩

/-- Deltas of distinct series combine under the keys of a batch. -/
theorem combines_absorb (hseries : Distinct blake3 series) :
    Table.Combines (keyOf blake3) MetricDelta.absorb (Typed series) := by
  have hkind : ∀ {a b}, Typed series a → Typed series b → keyOf blake3 a = keyOf blake3 b →
      a.aggregate.kind = b.aggregate.kind := by
    intro a b ha hb hkey
    rw [ha.2, hb.2, (series_eq_of_keyOf hseries ha hb hkey).1]
  constructor
  · intro a b ha hb hkey
    refine ⟨?_, ?_⟩
    · rw [MetricDelta.absorb_series]
      exact ha.1
    · rw [(MetricDelta.absorb_of_kind (hkind ha hb hkey)).1, MetricDelta.absorb_series]
      exact ha.2
  · intro a b ha hb hkey
    rw [keyOf, MetricDelta.absorb_series, MetricDelta.absorb_bucketStart, keyOf]
  · intro a b c ha hb hc hab hbc
    exact MetricDelta.absorb_assoc (hkind ha hb hab) (hkind hb hc hbc)

/-- Merging the batches of two pieces is pushing the pieces one after the other. -/
theorem merge_pushAll (hseries : Distinct blake3 series) (older newer : List MetricDelta)
    (htyped : ∀ delta ∈ older ++ newer, Typed series delta) :
    merge blake3 (pushAll blake3 empty older) (pushAll blake3 empty newer) = pushAll blake3 empty (older ++ newer) := by
  have hcombines := combines_absorb hseries
  have hold : Table.Holds (keyOf blake3) (Typed series)
      (Table.pushEntries (keyOf blake3) MetricDelta.absorb ∅ older) :=
    Table.holds_empty.pushEntries hcombines fun delta hdelta => htyped delta (List.mem_append_left _ hdelta)
  have hentries := Table.pushEntries_entries hcombines hold
    fun delta hdelta => htyped delta (List.mem_append_right older hdelta)
  rw [merge, ← pushAll, pushAll_eq, pushAll_eq, pushAll_eq, pushAll_eq]
  have happend : Table.pushEntries (keyOf blake3) MetricDelta.absorb ∅ (older ++ newer)
      = Table.pushEntries (keyOf blake3) MetricDelta.absorb
          (Table.pushEntries (keyOf blake3) MetricDelta.absorb ∅ older) newer := List.foldl_append
  simp only [empty, happend, hentries, saturatingBin, Nat.add_zero, Nat.zero_min]

/-- However a sequence of deltas is cut and the pieces are merged, the batch is that of the whole sequence. -/
theorem build_eq (hseries : Distinct blake3 series) (grouping : Grouping MetricDelta)
    (htyped : ∀ delta ∈ grouping.items, Typed series delta) :
    grouping.build (pushAll blake3 empty) (merge blake3) = pushAll blake3 empty grouping.items := by
  have hsplit : ∀ {xs ys : List MetricDelta}, (∀ delta ∈ xs ++ ys, Typed series delta) →
      (∀ delta ∈ xs, Typed series delta) ∧ ∀ delta ∈ ys, Typed series delta :=
    fun h => List.forall_mem_append.mp h
  exact @Grouping.build_eq _ _ _ _ (fun deltas => ∀ delta ∈ deltas, Typed series delta) hsplit
    (fun xs ys h => merge_pushAll hseries xs ys h) grouping htyped

/-! ### Counts -/

/-- A delta of one measurement. -/
def Single (delta : MetricDelta) : Prop := ∃ value, delta.aggregate = .fromMeasurement delta.series.kind value

theorem Single.kind {delta : MetricDelta} (h : Single delta) : delta.aggregate.kind = delta.series.kind := by
  obtain ⟨value, hvalue⟩ := h
  rw [hvalue, MetricAggregate.kind_fromMeasurement]

theorem Single.count {delta : MetricDelta} (h : Single delta) : delta.aggregate.count = 1 := by
  obtain ⟨value, hvalue⟩ := h
  rw [hvalue, MetricAggregate.count_fromMeasurement]

theorem Single.sum_bins {delta : MetricDelta} (h : Single delta) (hkind : delta.series.kind = .distribution) :
    ∑ bin, delta.aggregate.bins bin = 1 := by
  obtain ⟨value, hvalue⟩ := h
  rw [hvalue, hkind, MetricAggregate.sum_bins_fromMeasurement]

/-- The deltas of a series and a bucket. -/
def measurementsOf (deltas : List MetricDelta) (series : MetricSeries) (bucketStart : Timestamp) : List MetricDelta :=
  deltas.filter fun delta => delta.series = series ∧ delta.bucketStart = bucketStart

/-- How many of the deltas lie in a bin. -/
def inBin (deltas : List MetricDelta) (bin : Fin metricSketchBins) : Nat :=
  (deltas.map fun delta => delta.aggregate.bins bin).sum

/-- The sum of the bins counts each measurement of a distribution once. -/
theorem sum_inBin {deltas : List MetricDelta}
    (h : ∀ delta ∈ deltas, Single delta ∧ delta.series.kind = .distribution) : ∑ bin, inBin deltas bin = deltas.length := by
  induction deltas with
  | nil => simp [inBin]
  | cons delta deltas ih =>
      obtain ⟨⟨hsingle, hkind⟩, hdeltas⟩ := List.forall_mem_cons.mp h
      have hcons : ∀ bin, inBin (delta :: deltas) bin = delta.aggregate.bins bin + inBin deltas bin := fun bin => rfl
      rw [Finset.sum_congr rfl fun bin _ => hcons bin, Finset.sum_add_distrib, ih hdeltas, hsingle.sum_bins hkind,
        List.length_cons, Nat.add_comm]

/-- A run of saturating additions. -/
theorem foldl_saturating {α : Type} (limit : Nat) (weight : α → Nat) (start : Nat) (values : List α) :
    values.foldl (fun total value => min (total + weight value) limit) (min start limit)
      = min (start + (values.map weight).sum) limit := by
  induction values generalizing start with
  | nil => rfl
  | cons value values ih =>
      have hstep : min (min start limit + weight value) limit = min (start + weight value) limit := by omega
      rw [List.foldl_cons, hstep, ih, List.map_cons, List.sum_cons, Nat.add_assoc]

/-- What a run of deltas of one kind makes of an entry. -/
theorem foldl_absorb {first : MetricDelta} {deltas : List MetricDelta}
    (hkind : ∀ delta ∈ deltas, delta.aggregate.kind = first.aggregate.kind) :
    (deltas.foldl MetricDelta.absorb first).series = first.series
      ∧ (deltas.foldl MetricDelta.absorb first).bucketStart = first.bucketStart
      ∧ (deltas.foldl MetricDelta.absorb first).aggregate.kind = first.aggregate.kind
      ∧ (deltas.foldl MetricDelta.absorb first).aggregate.count
          = deltas.foldl (fun total delta => min (total + delta.aggregate.count) (2 ^ 64 - 1)) first.aggregate.count
      ∧ ∀ bin, (deltas.foldl MetricDelta.absorb first).aggregate.bins bin
          = deltas.foldl (fun total delta => min (total + delta.aggregate.bins bin) (2 ^ 32 - 1))
              (first.aggregate.bins bin) := by
  induction deltas generalizing first with
  | nil => exact ⟨rfl, rfl, rfl, rfl, fun bin => rfl⟩
  | cons delta deltas ih =>
      obtain ⟨hdelta, hdeltas⟩ := List.forall_mem_cons.mp hkind
      obtain ⟨hkindStep, hcount, hbins⟩ := MetricDelta.absorb_of_kind hdelta.symm
      have hrest : ∀ other ∈ deltas, other.aggregate.kind = (MetricDelta.absorb first delta).aggregate.kind :=
        fun other hother => (hdeltas other hother).trans hkindStep.symm
      obtain ⟨hseries, hbucket, hrestKind, hrestCount, hrestBins⟩ := ih hrest
      refine ⟨hseries.trans MetricDelta.absorb_series, hbucket.trans MetricDelta.absorb_bucketStart,
        hrestKind.trans hkindStep, ?_, fun bin => ?_⟩
      · rw [List.foldl_cons, hrestCount, hcount]
        rfl
      · rw [List.foldl_cons, hrestBins, hbins]
        rfl

/-- An entry counts the measurements of its series and bucket, and a distribution bins each of them, as far as the
counters do not saturate. -/
structure Counted (blake3 : List (BitVec 8) → BitVec 256) (deltas : List MetricDelta) (key : MetricKey)
    (entry : MetricDelta) : Prop where
  key : keyOf blake3 entry = key
  kind : entry.aggregate.kind = entry.series.kind
  measured : measurementsOf deltas entry.series entry.bucketStart ≠ []
  count : (measurementsOf deltas entry.series entry.bucketStart).length < 2 ^ 64 →
    entry.aggregate.count = (measurementsOf deltas entry.series entry.bucketStart).length
  bins : entry.series.kind = .distribution → (measurementsOf deltas entry.series entry.bucketStart).length < 2 ^ 64 →
    (∀ bin, inBin (measurementsOf deltas entry.series entry.bucketStart) bin < 2 ^ 32) →
    ∑ bin, entry.aggregate.bins bin = entry.aggregate.count

/-- The measurements under a key are those of one series and bucket. -/
theorem filter_keyOf (hseries : Distinct blake3 series) {deltas : List MetricDelta}
    (htyped : ∀ delta ∈ deltas, Typed series delta) {first : MetricDelta} (hfirst : Typed series first) :
    deltas.filter (fun delta => keyOf blake3 delta = keyOf blake3 first)
      = measurementsOf deltas first.series first.bucketStart := by
  refine List.filter_congr fun delta hdelta => decide_eq_decide.mpr ⟨fun h => ?_, fun h => ?_⟩
  · exact series_eq_of_keyOf hseries (htyped delta hdelta) hfirst h
  · rw [keyOf, keyOf, h.1, h.2]

theorem counted_of_get (hseries : Distinct blake3 series) {deltas : List MetricDelta}
    (htyped : ∀ delta ∈ deltas, Single delta ∧ series delta.series) {key : MetricKey} {entry : MetricDelta}
    (hget : (pushAll blake3 empty deltas).deltas[key]? = some entry) : Counted blake3 deltas key entry := by
  have hkinds : ∀ delta ∈ deltas, Typed series delta := fun delta hdelta =>
    ⟨(htyped delta hdelta).2, (htyped delta hdelta).1.kind⟩
  rw [get_pushAll] at hget
  cases hfilter : deltas.filter (fun delta => keyOf blake3 delta = key) with
  | nil =>
      rw [hfilter] at hget
      exact nomatch hget
  | cons first rest =>
      have hmem : ∀ delta ∈ first :: rest, delta ∈ deltas ∧ keyOf blake3 delta = key := by
        intro delta hdelta
        rw [← hfilter, List.mem_filter, decide_eq_true_iff] at hdelta
        exact hdelta
      obtain ⟨⟨hfirstMem, rfl⟩, hrest⟩ := List.forall_mem_cons.mp hmem
      have hsame : measurementsOf deltas first.series first.bucketStart = first :: rest := by
        rw [← filter_keyOf hseries hkinds (hkinds first hfirstMem)]
        exact hfilter
      have hseriesOf : ∀ delta ∈ rest, delta.series = first.series := fun delta hdelta =>
        (series_eq_of_keyOf hseries (hkinds delta (hrest delta hdelta).1) (hkinds first hfirstMem) (hrest delta hdelta).2).1
      have hkindOf : ∀ delta ∈ rest, delta.aggregate.kind = first.aggregate.kind := by
        intro delta hdelta
        rw [(hkinds delta (hrest delta hdelta).1).2, (hkinds first hfirstMem).2, hseriesOf delta hdelta]
      have hsingles : ∀ delta ∈ first :: rest, Single delta := fun delta hdelta => (htyped delta (hmem delta hdelta).1).1
      obtain ⟨hfinalSeries, hfinalBucket, hfinalKind, hfinalCount, hfinalBins⟩ := foldl_absorb hkindOf
      have hentry : rest.foldl MetricDelta.absorb first = entry := by
        rw [hfilter] at hget
        exact Option.some.inj ((Table.foldl_accumulate first).symm.trans hget)
      rw [hentry] at hfinalSeries hfinalBucket hfinalKind hfinalCount hfinalBins
      have hlist : measurementsOf deltas entry.series entry.bucketStart = first :: rest := by
        rw [hfinalSeries, hfinalBucket, hsame]
      have hcount : entry.aggregate.count = min (first :: rest).length (2 ^ 64 - 1) := by
        have hones : (rest.map fun delta => delta.aggregate.count).sum = rest.length := by
          rw [List.map_congr_left fun delta hdelta => (hsingles delta (List.mem_cons_of_mem _ hdelta)).count]
          simp
        have hstart : first.aggregate.count = min 1 (2 ^ 64 - 1) := (hsingles first List.mem_cons_self).count
        rw [hfinalCount, hstart, foldl_saturating, hones, List.length_cons, Nat.add_comm]
      have hbins : ∀ bin, inBin (first :: rest) bin < 2 ^ 32 → entry.aggregate.bins bin = inBin (first :: rest) bin := by
        intro bin hlt
        have hcons : inBin (first :: rest) bin = first.aggregate.bins bin + (rest.map fun d => d.aggregate.bins bin).sum := rfl
        have hstart : first.aggregate.bins bin = min (first.aggregate.bins bin) (2 ^ 32 - 1) := by omega
        rw [hfinalBins, hstart, foldl_saturating, ← hcons]
        omega
      refine ⟨?_, ?_, ?_, ?_, ?_⟩
      · rw [keyOf, keyOf, hfinalSeries, hfinalBucket]
      · rw [hfinalKind, hfinalSeries, (hkinds first hfirstMem).2]
      · rw [hlist]
        exact List.cons_ne_nil _ _
      · rw [hlist, hcount]
        omega
      · rw [hlist, hcount]
        intro hkind hlength hlt
        rw [Finset.sum_congr rfl fun bin _ => hbins bin (hlt bin), sum_inBin fun delta hdelta => ⟨hsingles delta hdelta, ?_⟩]
        · omega
        · rw [hfinalSeries] at hkind
          obtain rfl | hdelta := List.mem_cons.mp hdelta
          · exact hkind
          · rw [hseriesOf delta hdelta, hkind]

/-- Each measurement has an entry of its series and bucket. -/
theorem get_of_mem (hseries : Distinct blake3 series) {deltas : List MetricDelta}
    (htyped : ∀ delta ∈ deltas, Typed series delta) {delta : MetricDelta} (hdelta : delta ∈ deltas) :
    ∃ entry, (pushAll blake3 empty deltas).deltas[keyOf blake3 delta]? = some entry
      ∧ entry.series = delta.series ∧ entry.bucketStart = delta.bucketStart := by
  have hholds : Table.Holds (keyOf blake3) (Typed series) (pushAll blake3 empty deltas).deltas := by
    rw [pushAll_eq]
    exact Table.holds_empty.pushEntries (combines_absorb hseries) htyped
  cases hget : (pushAll blake3 empty deltas).deltas[keyOf blake3 delta]? with
  | none =>
      rw [get_pushAll] at hget
      cases hfilter : deltas.filter (fun other => keyOf blake3 other = keyOf blake3 delta) with
      | nil => exact absurd (List.filter_eq_nil_iff.mp hfilter delta hdelta) (by simp)
      | cons first rest =>
          rw [hfilter] at hget
          exact nomatch (Table.foldl_accumulate first).symm.trans hget
  | some entry =>
      obtain ⟨hentry, hkey⟩ := hholds _ _ hget
      exact ⟨entry, rfl, series_eq_of_keyOf hseries hentry (htyped delta hdelta) hkey⟩

end MetricDeltaBatch

namespace MetricDeltaBatch

variable {blake3 : List (BitVec 8) → BitVec 256} {series : MetricSeries → Prop}

/-- A single measurement adds one to the counts of a batch. -/
theorem sumRows_pushEntry (hseries : Distinct blake3 series) {table : Table MetricKey MetricDelta}
    (htable : Table.Holds (keyOf blake3) (Typed series) table) {delta : MetricDelta} (hsingle : Single delta)
    (hdelta : series delta.series) (hlt : Table.sumRows (·.aggregate.count) table < 2 ^ 64 - 1) :
    Table.sumRows (·.aggregate.count) (Table.pushEntry (keyOf blake3) MetricDelta.absorb table delta)
      = Table.sumRows (·.aggregate.count) table + 1 := by
  have hinsert := Table.sumRows_insert (fun delta : MetricDelta => delta.aggregate.count) table (keyOf blake3 delta)
    (table[keyOf blake3 delta]?.elim delta (MetricDelta.absorb · delta))
  rw [Table.pushEntry]
  cases hold : table[keyOf blake3 delta]? with
  | none =>
      rw [hold] at hinsert
      rw [Option.elim_none] at hinsert ⊢
      rw [Option.elim_none, hsingle.count] at hinsert
      exact hinsert
  | some current =>
      obtain ⟨htyped, hkey⟩ := htable _ _ hold
      have hsame := (series_eq_of_keyOf hseries htyped ⟨hdelta, hsingle.kind⟩ hkey).1
      have hkind : current.aggregate.kind = delta.aggregate.kind := by
        rw [htyped.2, hsingle.kind, hsame]
      have hle : current.aggregate.count ≤ Table.sumRows (·.aggregate.count) table :=
        List.le_sum_of_mem (List.mem_map.mpr ⟨(keyOf blake3 delta, current), Table.mem_toList.mpr hold, rfl⟩)
      have hcount : (MetricDelta.absorb current delta).aggregate.count = current.aggregate.count + 1 := by
        rw [(MetricDelta.absorb_of_kind hkind).2.1, hsingle.count, saturatingCount]
        omega
      rw [hold] at hinsert
      rw [Option.elim_some] at hinsert ⊢
      rw [Option.elim_some, hcount] at hinsert
      omega

/-- The counts of a batch of single measurements add up to their number. -/
theorem sumRows_pushEntries (hseries : Distinct blake3 series) {table : Table MetricKey MetricDelta}
    (htable : Table.Holds (keyOf blake3) (Typed series) table) {deltas : List MetricDelta}
    (hdeltas : ∀ delta ∈ deltas, Single delta ∧ series delta.series)
    (hlt : Table.sumRows (·.aggregate.count) table + deltas.length < 2 ^ 64) :
    Table.sumRows (·.aggregate.count) (Table.pushEntries (keyOf blake3) MetricDelta.absorb table deltas)
      = Table.sumRows (·.aggregate.count) table + deltas.length := by
  induction deltas generalizing table with
  | nil => rfl
  | cons delta deltas ih =>
      obtain ⟨⟨hsingle, hdelta⟩, hdeltas⟩ := List.forall_mem_cons.mp hdeltas
      rw [List.length_cons] at hlt ⊢
      have hstep := sumRows_pushEntry hseries htable hsingle hdelta (by omega)
      have hnext := htable.pushEntry (combines_absorb hseries) ⟨hdelta, hsingle.kind⟩
      have hrest := ih hnext hdeltas (by omega)
      rw [Table.pushEntries, List.foldl_cons, ← Table.pushEntries, hrest, hstep]
      omega

end MetricDeltaBatch

/-! ### The visitor of ingest -/

theorem boundedMetricText_separated {value text : Text} {maximum : Nat} {allowEmpty : Bool}
    (h : boundedMetricText value maximum allowEmpty = some text) : '\x00' ∉ text := by
  rw [boundedMetricText] at h
  split_ifs at h with hbad
  obtain rfl := Option.some.inj h
  intro hmem
  refine hbad ?_
  rw [Bool.or_eq_true, Bool.or_eq_true, Bool.or_eq_true]
  exact Or.inl (Or.inr (List.contains_iff_mem.mpr hmem))

theorem metricTagKey_separated {key : Text} (h : '\x00' ∉ key) : '\x00' ∉ metricTagKey key := by
  rw [metricTagKey, List.mem_map]
  rintro ⟨c, hc, heq⟩
  split_ifs at heq
  · exact absurd heq (by decide)
  · exact h (heq ▸ hc)

/-- No tag has a NUL. -/
def SeparatedTags (tags : Table Text Text) : Prop :=
  ∀ key value : Text, tags[key]? = some value → '\x00' ∉ key ∧ '\x00' ∉ value

theorem SeparatedTags.insert {tags : Table Text Text} (h : SeparatedTags tags) {key value : Text} (hkey : '\x00' ∉ key)
    (hvalue : '\x00' ∉ value) : SeparatedTags (tags.insert key value) := by
  intro other stored hget
  rw [Table.get_insert] at hget
  split_ifs at hget with heq
  · subst heq
    obtain rfl := Option.some.inj hget
    exact ⟨hkey, hvalue⟩
  · exact h other stored hget

theorem addMetricTag_separated {config : MetricIngestConfig} {tags next : Table Text Text} {entry : Text × JsonValue}
    (h : SeparatedTags tags) (hadd : addMetricTag config tags entry = some next) : SeparatedTags next := by
  rw [addMetricTag] at hadd
  split_ifs at hadd with hignored
  · obtain rfl := Option.some.inj hadd
    exact h
  · simp only [Option.bind_eq_bind, Option.bind_eq_some_iff] at hadd
    obtain ⟨key, hkey, typed, htyped, value, hvalue, hadd⟩ := hadd
    have hinsert : ∀ tag : Text, '\x00' ∉ tag →
        (if tags.contains (metricTagKey key) || config.maxTags < (tags.insert (metricTagKey key) tag).size then none
          else some (tags.insert (metricTagKey key) tag)) = some next → SeparatedTags next := by
      intro tag htag hinsert
      split_ifs at hinsert with hfull
      obtain rfl := Option.some.inj hinsert
      exact h.insert (metricTagKey_separated (boundedMetricText_separated hkey)) htag
    split at hadd
    · obtain ⟨tag, htag, hadd⟩ := Option.bind_eq_some_iff.mp hadd
      exact hinsert tag (boundedMetricText_separated htag) hadd
    · refine hinsert _ ?_ hadd
      split_ifs <;> decide
    · obtain ⟨tag, htag, hadd⟩ := Option.bind_eq_some_iff.mp hadd
      exact hinsert tag (boundedMetricText_separated htag) hadd
    · exact nomatch hadd

theorem metricTags_separated {config : MetricIngestConfig} {object : JsonFields} {tags : Table Text Text}
    (h : metricTags config object = some tags) : SeparatedTags tags := by
  have hempty : SeparatedTags ∅ := by
    intro key value hget
    rw [Table.get_empty] at hget
    exact nomatch hget
  have hfold : ∀ (entries : List (Text × JsonValue)) (start : Table Text Text), SeparatedTags start →
      entries.foldlM (addMetricTag config) start = some tags → SeparatedTags tags := by
    intro entries
    induction entries with
    | nil =>
        intro start hstart hdone
        exact Option.some.inj hdone ▸ hstart
    | cons entry entries ih =>
        intro start hstart hdone
        rw [List.foldlM_cons, Option.bind_eq_bind, Option.bind_eq_some_iff] at hdone
        obtain ⟨next, hnext, hrest⟩ := hdone
        exact ih next (addMetricTag_separated hstart hnext) hrest
  rw [metricTags] at h
  split at h
  · exact Option.some.inj h ▸ hempty
  · simp only [Option.bind_eq_bind, Option.bind_eq_some_iff] at h
    obtain ⟨attributes, hattributes, h⟩ := h
    split_ifs at h
    exact hfold attributes ∅ hempty h

section Visitor

variable {readF64 : JsonNumber → Option ℚ} {projectId : ProjectId} {receivedAt : Timestamp} {config : MetricIngestConfig}

/-- What ingest makes of an item is one measurement, and no text of its series has a NUL. -/
theorem normalizeMetricMeasurement_single {value : JsonValue} {delta : MetricDelta}
    (h : normalizeMetricMeasurement readF64 projectId receivedAt config value = some delta) :
    MetricDeltaBatch.Single delta ∧ delta.series.Separated := by
  simp only [normalizeMetricMeasurement, Option.bind_eq_bind, Option.bind_eq_some_iff, Option.pure_def,
    Option.some.injEq] at h
  obtain ⟨object, hobject, time, htime, seconds, hseconds, bucketStart, hbucket, nameValue, hnameValue, nameText,
    hnameText, name, hname, kindValue, hkindValue, kindText, hkindText, kind, hkind, unit, hunit, valueOf, hvalueOf,
    measurement, hmeasurement, traceId, htrace, tags, htags, rfl⟩ := h
  refine ⟨⟨measurement, rfl⟩, boundedMetricText_separated hname, boundedMetricText_separated hunit, ?_⟩
  intro tag htag
  exact metricTags_separated htags tag.1 tag.2 (Table.mem_toList.mp htag)

variable {blake3 : List (BitVec 8) → BitVec 256}

/-- The visitor pushes what is measured, and counts every item, and those that it discards. -/
theorem foldl_visitMetricItem (items : List JsonValue) (batch : MetricDeltaBatch)
    (hlt : batch.sourceMeasurements + items.length < 2 ^ 32)
    (hle : batch.discardedMeasurements ≤ batch.sourceMeasurements) :
    (items.foldl (visitMetricItem blake3 readF64 projectId receivedAt config) batch).deltas
        = Table.pushEntries (MetricDeltaBatch.keyOf blake3) MetricDelta.absorb batch.deltas
            (items.filterMap (normalizeMetricMeasurement readF64 projectId receivedAt config))
      ∧ (items.foldl (visitMetricItem blake3 readF64 projectId receivedAt config) batch).sourceMeasurements
        = batch.sourceMeasurements + items.length
      ∧ (items.foldl (visitMetricItem blake3 readF64 projectId receivedAt config) batch).discardedMeasurements
          + (items.filterMap (normalizeMetricMeasurement readF64 projectId receivedAt config)).length
        = batch.discardedMeasurements + items.length := by
  induction items generalizing batch with
  | nil => exact ⟨rfl, rfl, rfl⟩
  | cons item items ih =>
      rw [List.length_cons] at hlt ⊢
      have hsource : saturatingBin batch.sourceMeasurements 1 = batch.sourceMeasurements + 1 := by
        rw [saturatingBin]
        omega
      have hdiscarded : saturatingBin batch.discardedMeasurements 1 = batch.discardedMeasurements + 1 := by
        rw [saturatingBin]
        omega
      rw [List.foldl_cons]
      cases hitem : normalizeMetricMeasurement readF64 projectId receivedAt config item with
      | none =>
          have hvisit : visitMetricItem blake3 readF64 projectId receivedAt config batch item
              = ⟨batch.deltas, batch.sourceMeasurements + 1, batch.discardedMeasurements + 1⟩ := by
            simp only [visitMetricItem, hitem, hsource, hdiscarded]
          obtain ⟨hdeltas, hcount, hrest⟩ := ih ⟨batch.deltas, batch.sourceMeasurements + 1,
            batch.discardedMeasurements + 1⟩ (by dsimp only; omega) (by dsimp only; omega)
          rw [hvisit, List.filterMap_cons_none hitem, hdeltas, hcount]
          dsimp only at hrest ⊢
          exact ⟨rfl, by omega, by omega⟩
      | some delta =>
          have hvisit : visitMetricItem blake3 readF64 projectId receivedAt config batch item
              = ⟨Table.pushEntry (MetricDeltaBatch.keyOf blake3) MetricDelta.absorb batch.deltas delta,
                batch.sourceMeasurements + 1, batch.discardedMeasurements⟩ := by
            simp only [visitMetricItem, hitem, MetricDeltaBatch.push_eq, hsource]
          obtain ⟨hdeltas, hcount, hrest⟩ := ih ⟨Table.pushEntry (MetricDeltaBatch.keyOf blake3) MetricDelta.absorb
            batch.deltas delta, batch.sourceMeasurements + 1, batch.discardedMeasurements⟩ (by dsimp only; omega)
            (by dsimp only; omega)
          rw [hvisit, List.filterMap_cons_some hitem, hdeltas, hcount, List.length_cons]
          dsimp only at hrest ⊢
          exact ⟨rfl, by omega, by omega⟩

end Visitor

/-! ### Conservation -/

/-- The digests of the series tell apart what was hashed. -/
def CollisionFree (blake3 : List (BitVec 8) → BitVec 256) (deltas : List MetricDelta) : Prop :=
  ∀ left ∈ deltas, ∀ right ∈ deltas,
    left.series.id blake3 = right.series.id blake3 → left.series.idInput = right.series.idInput

theorem CollisionFree.distinct {blake3 : List (BitVec 8) → BitVec 256} {deltas : List MetricDelta}
    (h : CollisionFree blake3 deltas) (hseparated : ∀ delta ∈ deltas, delta.series.Separated) :
    MetricDeltaBatch.Distinct blake3 fun series => ∃ delta ∈ deltas, delta.series = series := by
  rintro _ _ ⟨left, hleft, rfl⟩ ⟨right, hright, rfl⟩ hid
  exact MetricSeries.idInput_injective (hseparated left hleft) (hseparated right hright) (h left hleft right hright hid)

open MetricDeltaBatch in
/-- Batching conserves the measurements that the visitor of ingest makes: the batch does not depend on how they are cut
into batches and the batches merged, each entry counts those of its series and bucket, each has an entry, and a batch
of the visitor counts its items as discarded or under an entry. -/
theorem batching_conserves (blake3 : List (BitVec 8) → BitVec 256) (readF64 : JsonNumber → Option ℚ) :
    (∀ grouping : Grouping MetricDelta, (∀ delta ∈ grouping.items, Single delta ∧ delta.series.Separated) →
      CollisionFree blake3 grouping.items →
      grouping.build (pushAll blake3 empty) (merge blake3) = pushAll blake3 empty grouping.items
        ∧ (∀ (key : MetricKey) (entry : MetricDelta),
            (grouping.build (pushAll blake3 empty) (merge blake3)).deltas[key]? = some entry →
            Counted blake3 grouping.items key entry)
        ∧ ∀ delta ∈ grouping.items, ∃ entry,
            (grouping.build (pushAll blake3 empty) (merge blake3)).deltas[keyOf blake3 delta]? = some entry
              ∧ entry.series = delta.series ∧ entry.bucketStart = delta.bucketStart)
    ∧ ∀ (projectId : ProjectId) (receivedAt : Timestamp) (config : MetricIngestConfig) (items : List JsonValue)
        (batch : MetricDeltaBatch), foldMetricContainer blake3 readF64 projectId receivedAt config items = .ok batch →
      (∀ delta ∈ items.filterMap (normalizeMetricMeasurement readF64 projectId receivedAt config),
        Single delta ∧ delta.series.Separated)
      ∧ (CollisionFree blake3 (items.filterMap (normalizeMetricMeasurement readF64 projectId receivedAt config)) →
          items.length < 2 ^ 32 →
          batch.sourceMeasurements = batch.discardedMeasurements + Table.sumRows (·.aggregate.count) batch.deltas) := by
  constructor
  · intro grouping hsingle hdigests
    have hseries := hdigests.distinct fun delta hdelta => (hsingle delta hdelta).2
    have htyped : ∀ delta ∈ grouping.items, Single delta ∧ ∃ other ∈ grouping.items, other.series = delta.series :=
      fun delta hdelta => ⟨(hsingle delta hdelta).1, delta, hdelta, rfl⟩
    have hkinds : ∀ delta ∈ grouping.items, Typed (fun series => ∃ other ∈ grouping.items, other.series = series) delta :=
      fun delta hdelta => ⟨(htyped delta hdelta).2, (hsingle delta hdelta).1.kind⟩
    rw [build_eq hseries grouping hkinds]
    exact ⟨rfl, fun key entry hget => counted_of_get hseries htyped hget,
      fun delta hdelta => get_of_mem hseries hkinds hdelta⟩
  · intro projectId receivedAt config items batch hfold
    have hsingle : ∀ delta ∈ items.filterMap (normalizeMetricMeasurement readF64 projectId receivedAt config),
        Single delta ∧ delta.series.Separated := by
      intro delta hdelta
      obtain ⟨item, -, hitem⟩ := List.mem_filterMap.mp hdelta
      exact normalizeMetricMeasurement_single hitem
    refine ⟨hsingle, fun hdigests hlength => ?_⟩
    rw [foldMetricContainer] at hfold
    split_ifs at hfold
    obtain rfl := Except.ok.inj hfold
    have hseries := hdigests.distinct fun delta hdelta => (hsingle delta hdelta).2
    have hle := List.length_filterMap_le (normalizeMetricMeasurement readF64 projectId receivedAt config) items
    have hstart : empty.sourceMeasurements = 0 := rfl
    have hnone : empty.discardedMeasurements = 0 := rfl
    obtain ⟨hdeltas, hsource, hdiscarded⟩ := @foldl_visitMetricItem readF64 projectId receivedAt config blake3 items
      .empty (by omega) le_rfl
    have hsum := sumRows_pushEntries hseries Table.holds_empty
      (fun delta hdelta => ⟨(hsingle delta hdelta).1, delta, hdelta, rfl⟩)
      (by rw [Table.sumRows_empty]; omega)
    rw [Table.sumRows_empty] at hsum
    have hempty : empty.deltas = ∅ := rfl
    rw [hsource, hdeltas, hempty, hsum]
    omega

/-- Three measurements and an item that is none. -/
def sampleItems : List JsonValue :=
  let number (spelling : Text) (value : BitVec 64) : JsonValue := .number ⟨spelling, some value⟩
  let login (timestamp value : JsonValue) : JsonValue :=
    .object [("timestamp".toList, timestamp), ("name".toList, .string "logins".toList),
      ("type".toList, .string "counter".toList), ("value".toList, value)]
  [login (number "1000".toList 1000) (number "2".toList 2),
    .object [("timestamp".toList, number "1001".toList 1001), ("name".toList, .string "latency".toList),
      ("type".toList, .string "distribution".toList), ("unit".toList, .string "ms".toList),
      ("value".toList, number "3".toList 3),
      ("attributes".toList, .object [("route".toList, .object [("value".toList, .string "/".toList)])])],
    .object [],
    login (number "1010".toList 1010) (number "5".toList 5)]

def sampleProject : ProjectId := ⟨42, ProjectId.positive_fortyTwo⟩

def loginsSeries : MetricSeries := ⟨sampleProject, "logins".toList, .counter, "none".toList, ∅⟩

def latencySeries : MetricSeries :=
  ⟨sampleProject, "latency".toList, .distribution, "ms".toList, (∅ : Table Text Text).insert "route".toList "/".toList⟩

/-- The digests of the two series. -/
def sampleDigest (input : List (BitVec 8)) : BitVec 256 :=
  if input = loginsSeries.idInput then 0xea0ba00dc9d90722f8e73b831b705d3e563dc3e32611b48225889bc1663db9d8
  else if input = latencySeries.idInput then 0x3714a36e578e0f9e21f3ba55272386b39c2ad206bd2b68c797207e21fd37946f
  else 0

def sampleF64 (number : JsonNumber) : Option ℚ := number.asU64.map fun value => (value.toNat : ℚ)

def sampleTime : Timestamp := ⟨1020000, by decide⟩

def sampleMeasurements : List MetricDelta :=
  sampleItems.filterMap (normalizeMetricMeasurement sampleF64 sampleProject sampleTime .defaultValue)

theorem sampleMeasurements_collisionFree : CollisionFree sampleDigest sampleMeasurements := by
  have hseries : sampleMeasurements.map (·.series) = [loginsSeries, latencySeries, loginsSeries] := by decide +kernel
  have hids : loginsSeries.id sampleDigest ≠ latencySeries.id sampleDigest := by decide
  have hcases : ∀ delta ∈ sampleMeasurements, delta.series = loginsSeries ∨ delta.series = latencySeries := by
    intro delta hdelta
    have hmem : delta.series ∈ sampleMeasurements.map (·.series) := List.mem_map.mpr ⟨delta, hdelta, rfl⟩
    rw [hseries] at hmem
    simp only [List.mem_cons, List.not_mem_nil, or_false] at hmem
    tauto
  intro left hleft right hright hid
  obtain hleft | hleft := hcases left hleft <;> obtain hright | hright := hcases right hright <;>
    rw [hleft, hright] at hid ⊢
  · exact absurd hid hids
  · exact absurd hid.symm hids

open MetricDeltaBatch in
theorem batching_conserves_sample :
    sampleMeasurements.length = 3
      ∧ (merge sampleDigest (pushAll sampleDigest empty (sampleMeasurements.take 1))
          (pushAll sampleDigest empty (sampleMeasurements.drop 1))
        = pushAll sampleDigest empty (sampleMeasurements.take 1 ++ sampleMeasurements.drop 1))
      ∧ ∃ batch, foldMetricContainer sampleDigest sampleF64 sampleProject sampleTime .defaultValue sampleItems = .ok batch
          ∧ batch.sourceMeasurements = batch.discardedMeasurements + Table.sumRows (·.aggregate.count) batch.deltas := by
  obtain ⟨hgrouping, hvisitor⟩ := batching_conserves sampleDigest sampleF64
  have hfold : ∃ batch,
      foldMetricContainer sampleDigest sampleF64 sampleProject sampleTime .defaultValue sampleItems = .ok batch := by
    rw [foldMetricContainer, if_neg (by decide)]
    exact ⟨_, rfl⟩
  obtain ⟨batch, hbatch⟩ := hfold
  obtain ⟨hsingle, hsum⟩ := hvisitor _ _ _ _ _ hbatch
  have hitems : (Grouping.merged (.batch (sampleMeasurements.take 1)) (.batch (sampleMeasurements.drop 1))).items
      = sampleMeasurements := List.take_append_drop 1 sampleMeasurements
  refine ⟨by decide +kernel, ?_, batch, hbatch, hsum sampleMeasurements_collisionFree (by decide)⟩
  refine (hgrouping (.merged (.batch (sampleMeasurements.take 1)) (.batch (sampleMeasurements.drop 1))) ?_ ?_).1
  · rw [hitems]
    exact hsingle
  · rw [hitems]
    exact sampleMeasurements_collisionFree

end MetricBackend
