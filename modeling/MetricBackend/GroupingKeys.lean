import Mathlib.Data.Set.Function
import MetricBackend.EventGrouping

/-! What a grouping key stands for. The bytes that are hashed for a key can be read back in one way, and
are never the bytes that are hashed for an issue identifier. -/

namespace MetricBackend

namespace EventGrouping

/-! ### The component stream -/

/-- The values that `Encoder::bytes` takes. -/
def ShortValues (components : List GroupingComponent) : Prop :=
  ∀ component ∈ components, byteLength component.value < 2 ^ 32

theorem byte_injective : Function.Injective GroupingComponentKind.byte := by
  intro left right h
  cases left <;> cases right <;> first | rfl | exact absurd h (by decide)

theorem encodeComponent_selfDelimiting :
    SelfDelimiting encodeComponent fun component => byteLength component.value < 2 ^ 32 := by
  rintro ⟨kind, value⟩ ⟨otherKind, otherValue⟩ rest other hvalue hother heq
  simp only [encodeComponent, List.cons_append, List.cons.injEq] at heq
  obtain ⟨hkind, htail⟩ := heq
  rw [← length_utf8Bytes] at hvalue hother
  obtain ⟨hbytes, hrest⟩ := lengthPrefixed_selfDelimiting 4 hvalue hother htail
  have hvalues : value = otherValue := utf8Bytes_injective hbytes
  rw [byte_injective hkind, hvalues]
  exact ⟨rfl, hrest⟩

theorem domain_injective : Function.Injective GroupingStrategy.domain := by
  intro left right h
  cases left <;> cases right <;> first | rfl | exact absurd h (by decide)

theorem domain_short (strategy : GroupingStrategy) : (utf8Bytes strategy.domain).length < 256 ^ 4 := by
  cases strategy <;> decide

theorem revision_selfDelimiting :
    SelfDelimiting (fun revision : BitVec 16 => encodeBytes (bigEndian 2 revision.toNat))
      fun _ => True := by
  intro left right rest other _ _ heq
  have hlength : ∀ revision : BitVec 16, (bigEndian 2 revision.toNat).length < 256 ^ 4 := by
    intro revision
    rw [length_bigEndian]
    decide
  obtain ⟨hbytes, hrest⟩ := lengthPrefixed_selfDelimiting 4 (hlength left) (hlength right) heq
  exact ⟨BitVec.eq_of_toNat_eq (bigEndian_injective left.isLt right.isLt hbytes), hrest⟩

theorem keyInput_injective {revision revision' : BitVec 16} {strategy strategy' : GroupingStrategy}
    {components components' : List GroupingComponent} (hshort : ShortValues components)
    (hshort' : ShortValues components')
    (heq : keyInput revision strategy components = keyInput revision' strategy' components') :
    strategy = strategy' ∧ revision = revision' ∧ components = components' := by
  simp only [keyInput, List.append_assoc] at heq
  obtain ⟨hdomain, htail⟩ :=
    lengthPrefixed_selfDelimiting 4 (domain_short strategy) (domain_short strategy') heq
  obtain ⟨hrevision, hcomponents⟩ := revision_selfDelimiting trivial trivial htail
  refine ⟨domain_injective (utf8Bytes_injective hdomain), hrevision, ?_⟩
  exact encodeComponent_selfDelimiting.flatMap_injective (by simp [encodeComponent]) hshort hshort'
    hcomponents

/-- The two uses of the digest have different domains. -/
theorem keyInput_ne_issueInput (revision : BitVec 16) (strategy : GroupingStrategy)
    (components : List GroupingComponent) (projectId : ProjectId) (key : GroupingKey) :
    keyInput revision strategy components ≠ issueInput projectId key := by
  intro heq
  simp only [keyInput, issueInput, List.append_assoc] at heq
  obtain ⟨hdomain, -⟩ := lengthPrefixed_selfDelimiting 4 (domain_short strategy)
    (show (utf8Bytes "issue-id/v1".toList).length < 256 ^ 4 by decide) heq
  have htext := utf8Bytes_injective hdomain
  revert htext
  cases strategy <;> decide

/-! ### The issue identifier -/

theorem keyBytes_injective : Function.Injective keyBytes := by
  rintro ⟨revision, digest⟩ ⟨revision', digest'⟩ heq
  have hlength : (bigEndian 2 revision.toNat).length = (bigEndian 2 revision'.toNat).length := by
    rw [length_bigEndian, length_bigEndian]
  obtain ⟨hrevision, hdigest⟩ := List.append_inj heq hlength
  have hdigit : (256 : Nat) ^ 32 = 2 ^ 256 := by decide
  have hlt : ∀ value : BitVec 256, value.toNat < 256 ^ 32 := by
    intro value
    rw [hdigit]
    exact value.isLt
  have hrevisions : revision = revision' :=
    BitVec.eq_of_toNat_eq (bigEndian_injective revision.isLt revision'.isLt hrevision)
  have hdigests : digest = digest' :=
    BitVec.eq_of_toNat_eq (bigEndian_injective (hlt digest) (hlt digest') hdigest)
  rw [hrevisions, hdigests]

theorem projectBytes_injective :
    Function.Injective fun projectId : ProjectId => bigEndian 4 projectId.get := by
  rintro ⟨left, hleft⟩ ⟨right, hright⟩ heq
  obtain ⟨leftNat, rfl⟩ := Int.eq_ofNat_of_zero_le hleft.1.le
  obtain ⟨rightNat, rfl⟩ := Int.eq_ofNat_of_zero_le hright.1.le
  have hnat : leftNat = rightNat := bigEndian_injective (by omega) (by omega) heq
  subst hnat
  rfl

theorem issueInput_injective {projectId projectId' : ProjectId} {key key' : GroupingKey}
    (heq : issueInput projectId key = issueInput projectId' key') : projectId = projectId' ∧ key = key' := by
  simp only [issueInput, List.append_assoc] at heq
  have hproject : ∀ projectId : ProjectId, (bigEndian 4 projectId.get).length < 256 ^ 4 := by
    intro projectId
    rw [length_bigEndian]
    decide
  have hkey : ∀ key : GroupingKey, (keyBytes key).length < 256 ^ 4 := by
    intro key
    rw [keyBytes, List.length_append, length_bigEndian, length_bigEndian]
    decide
  obtain ⟨-, htail⟩ := List.append_inj heq rfl
  obtain ⟨hprojects, hkeys⟩ :=
    lengthPrefixed_selfDelimiting 4 (hproject projectId) (hproject projectId') htail
  exact ⟨projectBytes_injective hprojects,
    keyBytes_injective ((lengthPrefixed_selfDelimiting 4).injective (hkey key) (hkey key') hkeys)⟩

/-! ### Keys of events -/

theorem group_eq_ok {blake3 : List (BitVec 8) → BitVec 256} {projectId : ProjectId}
    {pinnedRevision : BitVec 64} {body : NormalizedEventBody} {symbolication : Option SymbolicationResult}
    {result : GroupingResult} (h : group blake3 projectId pinnedRevision body symbolication = .ok result) :
    ShortValues result.components ∧ result.key = keyFor blake3 1 result.strategy result.components := by
  simp only [group, groupRevision1, validateComponents, bind_eq_ok, failIf_eq_ok, pure_eq_ok, not_or,
    not_exists, not_and] at h
  obtain ⟨⟨⟩, -, ⟨⟩, ⟨-, -, hvalues⟩, rfl⟩ := h
  refine ⟨fun component hcomponent => ?_, rfl⟩
  have hvalue := hvalues component hcomponent
  simp only [maxComponentBytes] at hvalue
  omega

/-- Grouping keys separate their inputs. The digest is assumed to be injective on the byte strings that
are hashed. -/
theorem grouping_keys_separate (blake3 : List (BitVec 8) → BitVec 256) :
    (∀ (revision revision' : BitVec 16) (strategy strategy' : GroupingStrategy)
        (components components' : List GroupingComponent), ShortValues components →
        ShortValues components' →
        keyInput revision strategy components = keyInput revision' strategy' components' →
        strategy = strategy' ∧ revision = revision' ∧ components = components')
    ∧ (∀ (revision : BitVec 16) (strategy : GroupingStrategy) (components : List GroupingComponent)
        (projectId : ProjectId) (key : GroupingKey),
        keyInput revision strategy components ≠ issueInput projectId key)
    ∧ ∀ hashed : Set (List (BitVec 8)), Set.InjOn blake3 hashed →
      (∀ (projectId projectId' : ProjectId) (pinnedRevision pinnedRevision' : BitVec 64)
          (body body' : NormalizedEventBody) (symbolication symbolication' : Option SymbolicationResult)
          (result result' : GroupingResult),
          group blake3 projectId pinnedRevision body symbolication = .ok result →
          group blake3 projectId' pinnedRevision' body' symbolication' = .ok result' →
          keyInput 1 result.strategy result.components ∈ hashed →
          keyInput 1 result'.strategy result'.components ∈ hashed →
          (result.key = result'.key
            ↔ result.strategy = result'.strategy ∧ result.components = result'.components))
      ∧ ∀ (projectId projectId' : ProjectId) (key key' : GroupingKey),
          issueInput projectId key ∈ hashed → issueInput projectId' key' ∈ hashed →
          issueDigest blake3 projectId key = issueDigest blake3 projectId' key' →
          projectId = projectId' ∧ key = key' := by
  refine ⟨fun _ _ _ _ _ _ => keyInput_injective, keyInput_ne_issueInput, fun hashed hinjective => ⟨?_, ?_⟩⟩
  · intro projectId projectId' pinnedRevision pinnedRevision' body body' symbolication symbolication'
      result result' hresult hresult' hmem hmem'
    obtain ⟨hshort, hkey⟩ := group_eq_ok hresult
    obtain ⟨hshort', hkey'⟩ := group_eq_ok hresult'
    constructor
    · intro heq
      rw [hkey, hkey', keyFor, keyFor, GroupingKey.mk.injEq] at heq
      obtain ⟨hstrategy, -, hcomponents⟩ := keyInput_injective hshort hshort' (hinjective hmem hmem' heq.2)
      exact ⟨hstrategy, hcomponents⟩
    · rintro ⟨hstrategy, hcomponents⟩
      rw [hkey, hkey', hstrategy, hcomponents]
  · intro projectId projectId' key key' hmem hmem' heq
    exact issueInput_injective (hinjective hmem hmem' heq)

end EventGrouping

end MetricBackend
