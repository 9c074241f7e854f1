import Reframe.Lib.WireMerge
import Reframe.Protocol.ShapeAcceptance

/-! The scan counts the elements of a repeated field in each occurrence of a message on the wire,
while decoding merges occurrences of a singular field into one instance. The decoded value stays
within the limits exactly when the merged occurrences do so together. -/
namespace Protocol
open WireFormat

section

variable {μ : Type*} {schema : Schema μ}

/-- An instance counts the elements of all its parts. -/
theorem tallyOf_mergeParts {descriptor : μ} {parts : List (List Record)}
    (htyped : ∀ part ∈ parts, ∀ record ∈ part, record.Typed schema descriptor)
    (limit : RepeatedFieldLimit) :
    tallyOf schema descriptor (mergeParts schema descriptor parts) limit =
      (parts.map fun part => tallyOf schema descriptor part limit).sum := by
  unfold tallyOf
  by_cases happlies : limit.applies schema descriptor = true
  · simp only [if_pos happlies]
    rw [RepeatedFieldLimit.applies, Bool.and_eq_true, Option.any_eq_true] at happlies
    obtain ⟨-, field, hfield, hlist⟩ := happlies
    exact countOf_mergeParts hfield (of_decide_eq_true hlist) htyped
  · simp [happlies]

variable (schema) in
/-- Where several occurrences are merged into one instance, they are together within the limits. -/
def MergesWithin (limits : List RepeatedFieldLimit) (descriptor : μ) (wire : List Record) : Prop :=
  ∀ other parts, Joins schema descriptor [wire] other parts → 2 ≤ parts.length →
    ∀ limit ∈ limits,
      (parts.map fun part => tallyOf schema other part limit).sum ≤ limit.maximumValues

/-- The decoded value is within the limits exactly when its instances are. -/
theorem withinLimits_merge_iff {limits : List RepeatedFieldLimit} {descriptor : μ}
    {wire : List Record} {bytes : List UInt8} (h : Encodes schema (some descriptor) wire bytes)
    (hwithin : WithinLimits schema limits descriptor wire) :
    WithinLimits schema limits descriptor (mergeRecords schema descriptor [] wire) ↔
      MergesWithin schema limits descriptor wire := by
  have hroot : mergeRecords schema descriptor [] wire = mergeParts schema descriptor [wire] := by
    simp [mergeParts]
  have hparts : ∀ {other : μ} {parts : List (List Record)},
      Joins schema descriptor [wire] other parts →
        parts ≠ [] ∧ ∀ part ∈ parts, Occurs schema descriptor wire other part := by
    intro other parts hjoins
    refine hjoins.occurs (by simp) ?_
    intro part hmem
    rw [List.mem_singleton.mp hmem]
    exact .here
  have htally : ∀ {other : μ} {parts : List (List Record)},
      Joins schema descriptor [wire] other parts → ∀ limit,
        tallyOf schema other (mergeParts schema other parts) limit =
          (parts.map fun part => tallyOf schema other part limit).sum := by
    intro other parts hjoins limit
    exact tallyOf_mergeParts (fun part hmem => h.occurs_typed ((hparts hjoins).2 part hmem)) limit
  rw [hroot]
  constructor
  · intro hvalue other parts hjoins _ limit hlimit
    rw [← htally hjoins]
    exact hvalue other _ (occurs_mergeParts_iff.mpr ⟨parts, hjoins, rfl⟩) limit hlimit
  · intro hmerges other occurrence hoccurs limit hlimit
    obtain ⟨parts, hjoins, rfl⟩ := occurs_mergeParts_iff.mp hoccurs
    rw [htally hjoins]
    obtain ⟨hne, hoccurs'⟩ := hparts hjoins
    -- an instance with one part is an occurrence on the wire, which the scan has counted
    cases parts with
    | nil => exact absurd rfl hne
    | cons part rest =>
      cases rest with
      | nil => simpa using hwithin other part (hoccurs' part (by simp)) limit hlimit
      | cons => exact hmerges other _ hjoins (by simp) limit hlimit

end

/-- Accepted bytes encode one message, and the value decoded from it is within the limits of the
repeated fields exactly when every group of merged occurrences is. -/
theorem decoded_within_iff {μ : Type*} (schema : Schema μ) (descriptor : μ) (bytes : List UInt8)
    (limits : ProtobufShapeBudget) (unknownFields : UnknownFieldPolicy)
    (accepts : List Record → Bool)
    (haccept : validateMessageShape schema descriptor bytes limits unknownFields = .ok ()) :
    (∃! wire, Encodes schema (some descriptor) wire bytes) ∧
      ∀ wire value, Encodes schema (some descriptor) wire bytes →
        decode accepts schema descriptor wire = some value →
          (WithinLimits schema limits.repeatedFieldLimits descriptor value ↔
            MergesWithin schema limits.repeatedFieldLimits descriptor wire) := by
  obtain ⟨records, hencodes, -, hwithin⟩ := validateMessageShape_sound haccept
  refine ⟨⟨records, hencodes, fun other hother => hother.unique hencodes⟩, ?_⟩
  intro wire value hwire hdecode
  obtain rfl := hwire.unique hencodes
  unfold decode at hdecode
  split_ifs at hdecode
  cases hdecode
  exact withinLimits_merge_iff hwire hwithin

namespace TestVectors

/-- A catalog entry whose guidance occurs twice, with so many empty examples each. -/
def splitGuidance (first second : ℕ) : List Record :=
  [.message 7 [.message 7 (List.replicate first (.message 4 [])),
    .message 7 (List.replicate second (.message 4 []))]]

/-- The encoding of 16 examples and one more. -/
def seventeenExamples : List UInt8 :=
  [0x3a, 38] ++ ([0x3a, 32] ++ (List.replicate 16 [0x22, 0]).flatten ++
    ([0x3a, 2] ++ (List.replicate 1 [0x22, 0]).flatten))

theorem guidance_encodes (count : ℕ) : Encodes catalogSchema (some .guidance)
    (List.replicate count (.message 4 [])) (List.replicate count [0x22, 0]).flatten := by
  have hkey : Key [0x22] 4 .lengthDelimited := ⟨.last (by decide) (by decide), by decide, by decide⟩
  have hempty : Delimited [] [0] := ⟨[0], .last (by decide) (by decide), rfl⟩
  induction count with
  | zero => exact .nil
  | succ count ih =>
    rw [List.replicate_succ, List.replicate_succ, List.flatten_cons]
    exact .message rfl rfl rfl hkey .nil hempty ih

theorem seventeenExamples_encodes :
    Encodes catalogSchema (some .catalog) (splitGuidance 16 1) seventeenExamples := by
  have hkey : Key [0x3a] 7 .lengthDelimited := ⟨.last (by decide) (by decide), by decide, by decide⟩
  have hlength : ∀ b : UInt8, b.toNat < 128 → Varint 0 [b] b.toNat := fun b hb =>
    .last hb (by simp)
  have hsecond : Encodes catalogSchema (some .catalogEntry)
      [.message 7 (List.replicate 1 (.message 4 []))]
      ([0x3a] ++ ([2] ++ (List.replicate 1 [0x22, 0]).flatten) ++ []) :=
    .message rfl rfl rfl hkey (guidance_encodes 1) ⟨[2], hlength 2 (by decide), rfl⟩ .nil
  have hfirst : Encodes catalogSchema (some .catalogEntry)
      [.message 7 (List.replicate 16 (.message 4 [])),
        .message 7 (List.replicate 1 (.message 4 []))]
      ([0x3a] ++ ([32] ++ (List.replicate 16 [0x22, 0]).flatten) ++ _) :=
    .message rfl rfl rfl hkey (guidance_encodes 16) ⟨[32], hlength 32 (by decide), rfl⟩ hsecond
  have hcatalog : Encodes catalogSchema (some .catalog) (splitGuidance 16 1)
      ([0x3a] ++ ([38] ++ _) ++ []) :=
    .message rfl rfl rfl hkey hfirst ⟨[38], hlength 38 (by decide), rfl⟩ .nil
  exact hcatalog

/-- The scan accepts 16 examples and one more in two occurrences of an entry's guidance, and the
decoded guidance has 17 of at most 16. -/
theorem merged_guidance_exceeds :
    ¬ ∀ bytes wire value, validateCatalog bytes = .ok () →
      Encodes catalogSchema (some .catalog) wire bytes →
        decode (fun _ => true) catalogSchema .catalog wire = some value →
          WithinLimits catalogSchema catalogFieldLimits .catalog value := by
  intro h
  have hguidance := h seventeenExamples (splitGuidance 16 1)
    [.message 7 [.message 7 (List.replicate 17 (.message 4 []))]] (by decide +kernel)
    seventeenExamples_encodes rfl .guidance (List.replicate 17 (.message 4 []))
    (.inside (List.mem_singleton.mpr rfl) rfl rfl
      (.inside (List.mem_singleton.mpr rfl) rfl rfl .here))
    ⟨CatalogMessage.guidance.fullName, 4, 16⟩ (by decide)
  exact absurd hguidance (by decide)

/-- One example in each of two occurrences is within the limits, decoded or not. -/
theorem merged_guidance_within :
    validateCatalog [0x3a, 8, 0x3a, 2, 0x22, 0, 0x3a, 2, 0x22, 0] = .ok () ∧
      (∃! wire, Encodes catalogSchema (some .catalog) wire
        [0x3a, 8, 0x3a, 2, 0x22, 0, 0x3a, 2, 0x22, 0]) ∧
      ∀ wire value, Encodes catalogSchema (some .catalog) wire
          [0x3a, 8, 0x3a, 2, 0x22, 0, 0x3a, 2, 0x22, 0] →
        decode (fun _ => true) catalogSchema .catalog wire = some value →
          (WithinLimits catalogSchema catalogFieldLimits .catalog value ↔
            MergesWithin catalogSchema catalogFieldLimits .catalog wire) :=
  ⟨by decide +kernel, decoded_within_iff catalogSchema .catalog _ catalogBudget .skip _
    (by decide +kernel)⟩

end TestVectors

end Protocol
