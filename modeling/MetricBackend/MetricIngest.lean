import MetricBackend.MetricBatching

/-! What ingest makes of metric measurements: the start of their bucket in `i64` arithmetic, and the kinds that meet in
an aggregate. -/

namespace MetricBackend

/-! ### Bucket starts -/

section Buckets

variable {readF64 : JsonNumber → Option ℚ} {config : MetricIngestConfig} {seconds : ℚ} {millis widthMillis : ℤ}

/-- The `timestamp` of a measurement. -/
def measurementSeconds (readF64 : JsonNumber → Option ℚ) (value : JsonValue) : Option ℚ := do
  (← (← value.asObject).lookup "timestamp".toList).asF64 readF64

theorem metricTimestampMillis_inI64 (h : metricTimestampMillis seconds = some millis) : InI64 millis := by
  rw [metricTimestampMillis] at h
  split_ifs at h with hrange
  rw [Bool.or_eq_true, decide_eq_true_iff, decide_eq_true_iff, not_or, not_lt, not_lt] at hrange
  have hmillis := Option.some.inj h
  unfold InI64
  omega

/-- The start of a bucket is a multiple of the width at most a width before the instant. -/
theorem bucket_bounds (hwidth : 0 < widthMillis) :
    widthMillis ∣ millis / widthMillis * widthMillis ∧ millis / widthMillis * widthMillis ≤ millis
      ∧ millis < millis / widthMillis * widthMillis + widthMillis :=
  ⟨Int.dvd_mul_left _ _, Int.ediv_mul_le _ hwidth.ne', Int.lt_ediv_add_one_mul_self _ hwidth |>.trans_eq (by ring)⟩

/-- The product leaves `i64` only below the least multiple of the width in it. -/
theorem inI64_product (hwidth : 0 < widthMillis) (hmillis : InI64 millis) :
    InI64 (millis / widthMillis * widthMillis) ↔ -(2 ^ 63 / widthMillis * widthMillis) ≤ millis := by
  obtain ⟨-, hle, -⟩ := @bucket_bounds millis widthMillis hwidth
  have hupper : millis / widthMillis * widthMillis < 2 ^ 63 := hle.trans_lt hmillis.2
  have hquotient : -2 ^ 63 ≤ millis / widthMillis * widthMillis ↔ -(2 ^ 63 / widthMillis) ≤ millis / widthMillis := by
    rw [neg_le, ← neg_mul, ← Int.le_ediv_iff_mul_le hwidth, neg_le]
  have hmultiple : -(2 ^ 63 / widthMillis) ≤ millis / widthMillis ↔ -(2 ^ 63 / widthMillis * widthMillis) ≤ millis := by
    rw [Int.le_ediv_iff_mul_le hwidth, neg_mul]
  unfold InI64
  exact (and_iff_left hupper).trans (hquotient.trans hmultiple)

/-- Within `i64` the product is what it should be; what wraps around is no timestamp. -/
theorem bucketStartMillis_eq {bucketWidthSeconds : ℕ} {start : Timestamp} (hwidth : 0 < bucketWidthSeconds)
    (hbound : bucketWidthSeconds < 2 ^ 32) (hmillis : InI64 millis)
    (h : Timestamp.fromUnixMillis (bucketStartMillis bucketWidthSeconds millis) = .ok start) :
    start.unixMillis = millis / (bucketWidthSeconds * 1000) * (bucketWidthSeconds * 1000) := by
  have hpos : (0 : ℤ) < bucketWidthSeconds * 1000 := by omega
  obtain ⟨-, hle, hlt⟩ := @bucket_bounds millis _ hpos
  obtain ⟨hlower, hupper⟩ := hmillis
  rw [Timestamp.fromUnixMillis] at h
  split_ifs at h with hrange
  have hstart : start.unixMillis = bucketStartMillis bucketWidthSeconds millis := by
    rw [← Except.ok.inj h]
  rw [hstart]
  clear h hstart
  unfold bucketStartMillis at hrange ⊢
  dsimp only at hrange ⊢
  generalize millis / (bucketWidthSeconds * 1000) * (bucketWidthSeconds * 1000 : ℤ) = product at hrange hle hlt ⊢
  rcases lt_or_ge product (-2 ^ 63) with hwrap | hfits
  · have hbmod : product.bmod (2 ^ 64) = product + 2 ^ 64 := by
      rw [← Int.add_bmod_right, Int.bmod_eq_of_le]
      all_goals push_cast; omega
    rw [hbmod] at hrange
    unfold maxTimestampMillis at hrange
    omega
  · exact Int.bmod_eq_of_le (by push_cast; omega) (by push_cast; omega)

theorem exists_bucketStart {projectId : ProjectId} {receivedAt : Timestamp} {value : JsonValue} {delta : MetricDelta}
    (h : normalizeMetricMeasurement readF64 projectId receivedAt config value = some delta) :
    ∃ seconds, measurementSeconds readF64 value = some seconds
      ∧ metricBucketStart config seconds = some delta.bucketStart := by
  simp only [normalizeMetricMeasurement, Option.bind_eq_bind, Option.bind_eq_some_iff, Option.pure_def,
    Option.some.injEq] at h
  obtain ⟨object, hobject, time, htime, seconds, hseconds, bucketStart, hbucket, nameValue, hnameValue, nameText,
    hnameText, name, hname, kindValue, hkindValue, kindText, hkindText, kind, hkind, unit, hunit, valueOf, hvalueOf,
    measurement, hmeasurement, traceId, htrace, tags, htags, rfl⟩ := h
  refine ⟨seconds, ?_, hbucket⟩
  simp only [measurementSeconds, hobject, htime, hseconds, Option.bind_eq_bind, Option.bind_some]

/-- The start of the bucket is computed without an overflow, and what it is for is the start of the bucket of the
instant. -/
structure ExactBucket (readF64 : JsonNumber → Option ℚ) (config : MetricIngestConfig) (seconds : ℚ) (millis : ℤ) :
    Prop where
  inRange : InI64 (millis / (config.bucketWidthSeconds * 1000) * (config.bucketWidthSeconds * 1000))
  start : ∀ projectId receivedAt value delta, measurementSeconds readF64 value = some seconds →
    normalizeMetricMeasurement readF64 projectId receivedAt config value = some delta →
    (config.bucketWidthSeconds * 1000 : ℤ) ∣ delta.bucketStart.unixMillis ∧ delta.bucketStart.unixMillis ≤ millis
      ∧ millis < delta.bucketStart.unixMillis + config.bucketWidthSeconds * 1000

/-- Bucketing is exact but for the instants below the least multiple of the width in `i64`. -/
theorem exactBucket_iff (readF64 : JsonNumber → Option ℚ) (hwidth : 0 < config.bucketWidthSeconds)
    (hbound : config.bucketWidthSeconds < 2 ^ 32) (hmillis : metricTimestampMillis seconds = some millis) :
    ExactBucket readF64 config seconds millis
      ↔ -(2 ^ 63 / (config.bucketWidthSeconds * 1000) * (config.bucketWidthSeconds * 1000)) ≤ millis := by
  have hpos : (0 : ℤ) < config.bucketWidthSeconds * 1000 := by omega
  have hrange := metricTimestampMillis_inI64 hmillis
  have hstart : ∀ projectId receivedAt value delta, measurementSeconds readF64 value = some seconds →
      normalizeMetricMeasurement readF64 projectId receivedAt config value = some delta →
      (config.bucketWidthSeconds * 1000 : ℤ) ∣ delta.bucketStart.unixMillis ∧ delta.bucketStart.unixMillis ≤ millis
        ∧ millis < delta.bucketStart.unixMillis + config.bucketWidthSeconds * 1000 := by
    intro projectId receivedAt value delta hseconds hdelta
    obtain ⟨found, hfound, hbucket⟩ := exists_bucketStart hdelta
    obtain rfl := Option.some.inj (hseconds.symm.trans hfound)
    rw [metricBucketStart, hmillis, Option.bind_eq_bind, Option.bind_some, toOption_eq_some] at hbucket
    rw [bucketStartMillis_eq hwidth hbound hrange hbucket]
    exact bucket_bounds hpos
  exact ⟨fun h => (inI64_product hpos hrange).mp h.inRange, fun h => ⟨(inI64_product hpos hrange).mpr h, hstart⟩⟩

theorem exactBucket_minute :
    metricTimestampMillis 1000 = some 1000000 ∧ ExactBucket sampleF64 .defaultValue 1000 1000000 :=
  ⟨by decide +kernel, (exactBucket_iff sampleF64 (by decide) (by decide) (by decide +kernel)).mpr (by decide)⟩

/-- The client timestamp `-9223372036854776` is accepted as the least `i64`, and the start of its minute is below it. -/
theorem bucketStart_overflow :
    metricTimestampMillis (-9223372036854776) = some (-2 ^ 63)
      ∧ ¬ ExactBucket sampleF64 .defaultValue (-9223372036854776) (-2 ^ 63) :=
  ⟨by decide +kernel, fun h => absurd h.inRange (by decide)⟩

end Buckets

/-! ### Kinds that meet -/

open MetricDeltaBatch

variable {blake3 : List (BitVec 8) → BitVec 256} {series : MetricSeries → Prop}

/-- The aggregates that `push` hands to `merge`, with the deltas pushed in their order. -/
def mergeCalls (blake3 : List (BitVec 8) → BitVec 256) :
    MetricDeltaBatch → List MetricDelta → List (MetricAggregate × MetricAggregate)
  | _, [] => []
  | batch, delta :: deltas =>
      (batch.deltas[keyOf blake3 delta]?.map fun current => (current.aggregate, delta.aggregate)).toList
        ++ mergeCalls blake3 (push blake3 batch delta) deltas

/-- The calls of `merge` while pieces are pushed and their batches merged: of `push` by `MetricDeltaBatch::merge` too. -/
def groupingCalls (blake3 : List (BitVec 8) → BitVec 256) :
    Grouping MetricDelta → List (MetricAggregate × MetricAggregate)
  | .batch deltas => mergeCalls blake3 empty deltas
  | .merged older newer =>
      groupingCalls blake3 older ++ groupingCalls blake3 newer
        ++ mergeCalls blake3 (older.build (pushAll blake3 empty) (merge blake3))
          ((newer.build (pushAll blake3 empty) (merge blake3)).deltas.toList.map Prod.snd)

/-- A delta of one of the series meets an entry of its own series. -/
theorem mergeCalls_kind (hseries : Distinct blake3 series) {batch : MetricDeltaBatch} {deltas : List MetricDelta}
    (hbatch : Table.Holds (keyOf blake3) (Typed series) batch.deltas) (hdeltas : ∀ delta ∈ deltas, Typed series delta) :
    ∀ call ∈ mergeCalls blake3 batch deltas, call.1.kind = call.2.kind := by
  induction deltas generalizing batch with
  | nil => exact fun _ hcall => absurd hcall List.not_mem_nil
  | cons delta deltas ih =>
      obtain ⟨hdelta, hrest⟩ := List.forall_mem_cons.mp hdeltas
      intro call hcall
      rcases List.mem_append.mp hcall with hnow | hlater
      · obtain ⟨current, hcurrent, rfl⟩ := Option.map_eq_some_iff.mp (Option.mem_toList.mp hnow)
        obtain ⟨htyped, hkey⟩ := hbatch _ _ hcurrent
        show current.aggregate.kind = delta.aggregate.kind
        rw [htyped.2, hdelta.2, (series_eq_of_keyOf hseries htyped hdelta hkey).1]
      · refine ih ?_ hrest call hlater
        rw [push_eq]
        exact hbatch.pushEntry (combines_absorb hseries) hdelta

theorem holds_build (hseries : Distinct blake3 series) (grouping : Grouping MetricDelta)
    (htyped : ∀ delta ∈ grouping.items, Typed series delta) :
    Table.Holds (keyOf blake3) (Typed series) (grouping.build (pushAll blake3 empty) (merge blake3)).deltas := by
  rw [build_eq hseries grouping htyped, pushAll_eq]
  exact Table.holds_empty.pushEntries (combines_absorb hseries) htyped

theorem groupingCalls_kind (hseries : Distinct blake3 series) (grouping : Grouping MetricDelta)
    (htyped : ∀ delta ∈ grouping.items, Typed series delta) :
    ∀ call ∈ groupingCalls blake3 grouping, call.1.kind = call.2.kind := by
  induction grouping with
  | batch deltas => exact mergeCalls_kind hseries Table.holds_empty htyped
  | merged older newer iholder ihnewer =>
      obtain ⟨hold, hnew⟩ := List.forall_mem_append.mp htyped
      intro call hcall
      rw [groupingCalls, List.mem_append, List.mem_append] at hcall
      rcases hcall with (hcall | hcall) | hcall
      · exact iholder hold call hcall
      · exact ihnewer hnew call hcall
      · refine mergeCalls_kind hseries (holds_build hseries older hold) (fun delta hdelta => ?_) call hcall
        obtain ⟨row, hrow, rfl⟩ := List.mem_map.mp hdelta
        exact (holds_build hseries newer hnew row.1 row.2 (Table.mem_toList.mp hrow)).1

/-- What ingest makes of an item, of whatever project and under whatever limits. -/
def Ingested (readF64 : JsonNumber → Option ℚ) (delta : MetricDelta) : Prop :=
  ∃ projectId receivedAt config value,
    normalizeMetricMeasurement readF64 projectId receivedAt config value = some delta

/-- The visitor of a container pushes what is measured. -/
theorem deltas_foldl_visitMetricItem {readF64 : JsonNumber → Option ℚ} {projectId : ProjectId} {receivedAt : Timestamp}
    {config : MetricIngestConfig} (items : List JsonValue) (batch : MetricDeltaBatch) :
    (items.foldl (visitMetricItem blake3 readF64 projectId receivedAt config) batch).deltas
      = (pushAll blake3 batch (items.filterMap (normalizeMetricMeasurement readF64 projectId receivedAt config))).deltas := by
  have hdeltas : ∀ (left right : MetricDeltaBatch) (deltas : List MetricDelta), left.deltas = right.deltas →
      (pushAll blake3 left deltas).deltas = (pushAll blake3 right deltas).deltas := by
    intro left right deltas h
    rw [pushAll_eq, pushAll_eq, h]
  induction items generalizing batch with
  | nil => rfl
  | cons item items ih =>
      rw [List.foldl_cons, ih]
      cases hitem : normalizeMetricMeasurement readF64 projectId receivedAt config item with
      | none =>
          rw [List.filterMap_cons_none hitem]
          refine hdeltas _ _ _ ?_
          rw [visitMetricItem, hitem]
      | some delta =>
          rw [List.filterMap_cons_some hitem]
          refine hdeltas _ (push blake3 batch delta) _ ?_
          rw [visitMetricItem, hitem]
          dsimp only
          rw [push_eq, push_eq]

/-- The bytes hashed of the series of two measurements tell them apart. Where the digests of the measurements at hand
tell apart what was hashed, aggregates of one kind meet, whatever pieces are pushed and merged, and none is dropped. -/
theorem series_ids_tell_apart (blake3 : List (BitVec 8) → BitVec 256) (readF64 : JsonNumber → Option ℚ) :
    (∀ left right, Ingested readF64 left → Ingested readF64 right → left.series.idInput = right.series.idInput →
      left.series = right.series)
    ∧ (∀ grouping : Grouping MetricDelta, (∀ delta ∈ grouping.items, Ingested readF64 delta) →
        CollisionFree blake3 grouping.items →
        ∀ call ∈ groupingCalls blake3 grouping, call.1.kind = call.2.kind ∧ (call.1.merge call.2).isSome)
    ∧ ∀ projectId receivedAt config items batch,
        foldMetricContainer blake3 readF64 projectId receivedAt config items = .ok batch →
        ∃ deltas, batch.deltas = ((Grouping.batch deltas).build (pushAll blake3 empty) (merge blake3)).deltas
          ∧ ∀ delta ∈ deltas, Ingested readF64 delta := by
  have hsingle : ∀ delta, Ingested readF64 delta → Single delta ∧ delta.series.Separated := by
    intro delta ⟨projectId, receivedAt, config, value, h⟩
    exact normalizeMetricMeasurement_single h
  refine ⟨fun left right hleft hright h =>
    MetricSeries.idInput_injective (hsingle left hleft).2 (hsingle right hright).2 h, ?_, ?_⟩
  · intro grouping hingested hdigests call hcall
    have hseries := hdigests.distinct fun delta hdelta => (hsingle delta (hingested delta hdelta)).2
    have hkind := groupingCalls_kind hseries grouping
      (fun delta hdelta => ⟨⟨delta, hdelta, rfl⟩, (hsingle delta (hingested delta hdelta)).1.kind⟩) call hcall
    obtain ⟨merged, hmerged, -⟩ := MetricAggregate.merge_of_kind hkind
    exact ⟨hkind, by rw [hmerged, Option.isSome_some]⟩
  · intro projectId receivedAt config items batch hbatch
    rw [foldMetricContainer] at hbatch
    split_ifs at hbatch
    refine ⟨items.filterMap (normalizeMetricMeasurement readF64 projectId receivedAt config), ?_, fun delta hdelta => ?_⟩
    · rw [← Except.ok.inj hbatch, deltas_foldl_visitMetricItem]
      rfl
    · obtain ⟨value, -, hvalue⟩ := List.mem_filterMap.mp hdelta
      exact ⟨projectId, receivedAt, config, value, hvalue⟩

theorem series_ids_tell_apart_sample :
    (groupingCalls sampleDigest (.batch sampleMeasurements)).all (fun call => call.1.kind = call.2.kind) = true := by
  obtain ⟨-, hcalls, -⟩ := series_ids_tell_apart sampleDigest sampleF64
  refine List.all_eq_true.mpr fun call hcall => decide_eq_true (hcalls (.batch sampleMeasurements) ?_
    sampleMeasurements_collisionFree call hcall).1
  intro delta hdelta
  obtain ⟨value, -, hvalue⟩ := List.mem_filterMap.mp hdelta
  exact ⟨sampleProject, sampleTime, .defaultValue, value, hvalue⟩

end MetricBackend
