import Mathlib
import Reframe.Lib.Revision
import Reframe.Package.Compatibility

/-! The comparison of two revisions finds nothing exactly when the candidate revises the previous
interface, message by message, enum by enum, service by service and entry by entry; on well-formed
interfaces that is a preorder. -/
namespace Package
open SortedSet FieldDescriptorProto

@[simp] theorem demand_eq_nil {check : Prop} [Decidable check]
    {violation : CompatibilityViolation} : demand check violation = [] ↔ check := by
  unfold demand
  split_ifs with h <;> simp [h]

/-! Coverage by ranges. -/

def Covered (ranges : List (ℤ × ℤ)) (x : ℤ) : Prop := ∃ range ∈ ranges, range.1 ≤ x ∧ x < range.2

theorem covered_cons {range : ℤ × ℤ} {ranges : List (ℤ × ℤ)} {x : ℤ} :
    Covered (range :: ranges) x ↔ (range.1 ≤ x ∧ x < range.2) ∨ Covered ranges x := by
  simp [Covered]

/-- The sweep has covered everything before `coveredUntil`; the ranges to come are sorted by their
start. -/
theorem sweep_iff {requiredEnd : ℤ} {ranges : List (ℤ × ℤ)}
    (hsorted : ranges.Pairwise fun left right => left.1 ≤ right.1) {coveredUntil : ℤ}
    (hlt : coveredUntil < requiredEnd) :
    sweep requiredEnd coveredUntil ranges = true ↔
      ∀ x, coveredUntil ≤ x → x < requiredEnd → Covered ranges x := by
  induction ranges generalizing coveredUntil with
  | nil =>
    simp only [sweep, Bool.false_eq_true, false_iff, not_forall]
    exact ⟨coveredUntil, le_rfl, hlt, fun ⟨_, hmem, _⟩ => List.not_mem_nil hmem⟩
  | cons range ranges ih =>
    obtain ⟨start, stop⟩ := range
    obtain ⟨hfirst, hsorted⟩ := List.pairwise_cons.mp hsorted
    unfold sweep
    split_ifs with hbehind hgap hdone
    · rw [ih hsorted hlt]
      refine forall₃_congr fun x hx _ => ?_
      rw [covered_cons]
      exact ⟨.inr, fun h => h.resolve_left fun hin => by omega⟩
    · simp only [false_iff, not_forall]
      refine ⟨coveredUntil, le_rfl, hlt, fun hcovered => ?_⟩
      rcases covered_cons.mp hcovered with hin | ⟨range, hmem, hin⟩
      · omega
      · have hstart := hfirst range hmem
        omega
    · simp only [true_iff]
      intro x hx hend
      exact covered_cons.mpr (.inl (by omega))
    · rw [ih hsorted (by omega)]
      constructor
      · intro h x hx hend
        by_cases hin : x < stop
        · exact covered_cons.mpr (.inl (by omega))
        · exact covered_cons.mpr (.inr (h x (by omega) hend))
      · intro h x hx hend
        exact (covered_cons.mp (h x (by omega) hend)).resolve_left fun hin => by omega

theorem covers_iff {ranges : List (ℤ × ℤ)} {requiredStart requiredEnd : ℤ} :
    covers ranges requiredStart requiredEnd = true ↔
      ∀ x, requiredStart ≤ x → x < requiredEnd → Covered ranges x := by
  unfold covers
  split_ifs with hempty
  · simp only [true_iff]
    intro x hstart hend
    omega
  · have hsorted : (sortByKey toLex ranges).Pairwise fun left right => left.1 ≤ right.1 :=
      (sortByKey_sorted toLex ranges).imp fun h => Prod.Lex.monotone_fst _ _ h
    rw [sweep_iff hsorted (by omega)]
    simp only [Covered, mem_sortByKey]

/-- An interval is covered exactly when it lies in the union of the ranges. -/
theorem covers_iff_subset_union (ranges : List (ℤ × ℤ)) (requiredStart requiredEnd : ℤ) :
    covers ranges requiredStart requiredEnd = true ↔
      Set.Ico requiredStart requiredEnd ⊆ ⋃ range ∈ ranges, Set.Ico range.1 range.2 := by
  rw [covers_iff]
  constructor
  · intro h x hx
    obtain ⟨range, hmem, hrange⟩ := h x hx.1 hx.2
    exact Set.mem_iUnion₂.mpr ⟨range, hmem, hrange⟩
  · intro h x hstart hend
    obtain ⟨range, hmem, hrange⟩ := Set.mem_iUnion₂.mp (h ⟨hstart, hend⟩)
    exact ⟨range, hmem, hrange⟩

theorem unreservedNames_eq_nil {previous candidate : List String} :
    unreservedNames previous candidate = [] ↔ previous ⊆ candidate := by
  simp only [unreservedNames, List.eq_nil_iff_forall_not_mem, mem_toSorted, Finset.mem_sdiff,
    List.mem_toFinset, not_and, not_not]
  rfl

/-- What the ranges of one revision reserve, the ranges of the next one reserve too. -/
theorem reservations_eq_nil {α : Type*} {bounds : α → ℤ × ℤ} {key : α → Lex (ℤ × ℤ)}
    {previous candidate : List α} {violation : α → CompatibilityViolation} :
    ((sortByKey key previous).flatMap fun range =>
      demand (covers (candidate.map bounds) (bounds range).1 (bounds range).2 = true)
        (violation range)) = [] ↔
      {x | Covered (previous.map bounds) x} ⊆ {x | Covered (candidate.map bounds) x} := by
  simp only [List.flatMap_eq_nil_iff, mem_sortByKey, demand_eq_nil, covers_iff]
  constructor
  · rintro h x ⟨_, hmem, hstart, hend⟩
    obtain ⟨range, hrange, rfl⟩ := List.mem_map.mp hmem
    exact h range hrange x hstart hend
  · intro h range hmem x hstart hend
    exact h ⟨_, List.mem_map_of_mem hmem, hstart, hend⟩

/-! Messages. -/

/-- What the comparison of two fields looks at. -/
structure FieldShape where
  name : Option String
  number : Option ℤ
  type : String
  cardinality : String
  oneof : Option String
  presence : Bool
  defaultValue : Option String
  deriving DecidableEq, Repr

namespace FieldShape

def nameText (shape : FieldShape) : String := shape.name.getD ""

def numberValue (shape : FieldShape) : ℤ := shape.number.getD 0

def Required (shape : FieldShape) : Prop := shape.cardinality = "required"

end FieldShape

def FieldDescriptorProto.shape (message : DescriptorProto) (field : FieldDescriptorProto) :
    FieldShape :=
  ⟨field.name, field.number, field.fieldType, field.cardinality, field.oneofName message,
    field.proto3Optional.getD false, field.defaultValue⟩

/-- Every field has a name, names and numbers are distinct, and none of them is reserved. -/
structure DescriptorProto.WellFormed (message : DescriptorProto) : Prop where
  named : ∀ field ∈ message.field, field.name.isSome = true
  names : (message.field.map fieldName).Nodup
  numbers : (message.field.map fieldNumber).Nodup
  unreserved : ∀ field ∈ message.field, field.fieldName ∉ message.reservedName ∧
    ∀ range ∈ message.reservedRange, range.contains field.fieldNumber = false

theorem ReservedRange.covered_iff {ranges : List ReservedRange} {number : ℤ} :
    Covered (ranges.map bounds) number ↔ ranges.any (·.contains number) = true := by
  simp [Covered, bounds, ReservedRange.contains]

namespace DescriptorProto

/-- The fields of a message as an interface of numbered declarations. -/
def fieldInterface (message : DescriptorProto) (h : message.WellFormed) :
    NumberedInterface FieldShape.nameText FieldShape.numberValue where
  declared := {shape | ∃ field ∈ message.field, field.shape message = shape}
  reservedNames := {name | name ∈ message.reservedName}
  reservedNumbers := {number | Covered (message.reservedRange.map ReservedRange.bounds) number}
  unique := by
    rintro _ ⟨f, hf, rfl⟩ _ ⟨g, hg, rfl⟩ (hname | hnumber)
    · rw [List.inj_on_of_nodup_map h.names hf hg hname]
    · rw [List.inj_on_of_nodup_map h.numbers hf hg hnumber]
  unreserved := by
    rintro _ ⟨f, hf, rfl⟩
    refine ⟨(h.unreserved f hf).1, fun hcovered => ?_⟩
    obtain ⟨range, hmem, hin⟩ := List.any_eq_true.mp (ReservedRange.covered_iff.mp hcovered)
    exact Bool.false_ne_true (((h.unreserved f hf).2 range hmem).symm.trans hin)

end DescriptorProto

section

variable {message : String} {previous candidate : DescriptorProto}

theorem compareShape_eq_nil {f g : FieldDescriptorProto} :
    compareShape message previous candidate f g = [] ↔
      f.fieldType = g.fieldType ∧ f.cardinality = g.cardinality ∧
        f.oneofName previous = g.oneofName candidate ∧
        f.proto3Optional.getD false = g.proto3Optional.getD false ∧
        f.defaultValue = g.defaultValue := by
  simp only [compareShape, List.append_eq_nil_iff, demand_eq_nil, and_assoc]

theorem shape_eq_iff {f g : FieldDescriptorProto} :
    f.shape previous = g.shape candidate ↔ g.name = f.name ∧ g.number = f.number ∧
      compareShape message previous candidate f g = [] := by
  rw [compareShape_eq_nil]
  simp only [FieldDescriptorProto.shape, FieldShape.mk.injEq]
  constructor
  · rintro ⟨hname, hnumber, hrest⟩
    exact ⟨hname.symm, hnumber.symm, hrest⟩
  · rintro ⟨hname, hnumber, hrest⟩
    exact ⟨hname.symm, hnumber.symm, hrest⟩

theorem byName_get? (h : candidate.WellFormed) {name : String} {g : FieldDescriptorProto} :
    (CandidateFields.new candidate).byName.get? name = some g ↔
      g ∈ candidate.field ∧ g.name = some name :=
  FiniteMap.get?_ofList_keyed fun _ hf _ hg hname =>
    List.inj_on_of_nodup_map h.names hf hg (congrArg (Option.getD · "") hname)

theorem byNumber_get? (h : candidate.WellFormed) {number : ℤ} {g : FieldDescriptorProto} :
    (CandidateFields.new candidate).byNumber.get? number = some g ↔
      g ∈ candidate.field ∧ g.fieldNumber = number := by
  simp only [CandidateFields.new]
  rw [FiniteMap.get?_ofList (by simpa [Function.comp_def] using h.numbers), List.mem_map]
  constructor
  · rintro ⟨f, hf, heq⟩
    cases heq
    exact ⟨hf, rfl⟩
  · rintro ⟨hg, rfl⟩
    exact ⟨g, hg, rfl⟩

theorem checkRemovedField_eq_nil {field : String} {number : ℤ} :
    checkRemovedField message field number candidate = [] ↔
      field ∈ candidate.reservedName ∧
        Covered (candidate.reservedRange.map ReservedRange.bounds) number := by
  simp only [checkRemovedField, demand_eq_nil, decide_eq_true_eq, ReservedRange.covered_iff]
  exact and_comm

/-- A field passes when the candidate has it in the same shape or has retired it. -/
theorem compareField_eq_nil (hcandidate : candidate.WellFormed) {f : FieldDescriptorProto}
    (hnamed : f.name.isSome = true) :
    compareField message previous f (CandidateFields.new candidate) = [] ↔
      f.shape previous ∈ (candidate.fieldInterface hcandidate).declared ∨
        (candidate.fieldInterface hcandidate).Retires (f.shape previous) := by
  obtain ⟨name, hname⟩ := Option.isSome_iff_exists.mp hnamed
  have hfieldName : f.fieldName = name := by simp [fieldName, hname]
  have hretires : (candidate.fieldInterface hcandidate).Retires (f.shape previous) ↔
      checkRemovedField message f.fieldName f.fieldNumber candidate = [] := by
    rw [checkRemovedField_eq_nil]
    rfl
  have hdeclared : f.shape previous ∈ (candidate.fieldInterface hcandidate).declared ↔
      ∃ g ∈ candidate.field, g.name = f.name ∧ g.number = f.number ∧
        compareShape message previous candidate f g = [] := by
    refine exists_congr fun g => and_congr_right fun _ => ?_
    rw [← shape_eq_iff, eq_comm]
  have hnameOf : ∀ g ∈ candidate.field, g.name = f.name →
      (CandidateFields.new candidate).byName.get? f.fieldName = some g := by
    intro g hg hsame
    exact (byName_get? hcandidate).mpr ⟨hg, by rw [hsame, hname, hfieldName]⟩
  have hapart : ∀ g ∈ candidate.field,
      f.fieldName = g.fieldName ∨ f.fieldNumber = g.fieldNumber →
        checkRemovedField message f.fieldName f.fieldNumber candidate ≠ [] := by
    intro g hg hshared hremoved
    exact (hretires.mpr hremoved).apart ⟨g, hg, rfl⟩ hshared
  rw [hretires, hdeclared]
  unfold compareField
  cases hbyName : (CandidateFields.new candidate).byName.get? f.fieldName with
  | some g =>
    obtain ⟨hg, hsame⟩ := (byName_get? hcandidate).mp hbyName
    have hgname : g.name = f.name := by rw [hsame, hname, hfieldName]
    have hshared : f.fieldName = g.fieldName := by rw [fieldName, fieldName, hgname]
    simp only [Option.some_or, List.append_eq_nil_iff, compareIdentity, demand_eq_nil]
    constructor
    · rintro ⟨⟨hnumber, -⟩, hshape⟩
      exact .inl ⟨g, hg, hgname, hnumber, hshape⟩
    · rintro (⟨g', hg', hname', hnumber, hshape⟩ | hremoved)
      · obtain rfl : g = g' := Option.some.inj (hbyName.symm.trans (hnameOf g' hg' hname'))
        have hbyNumber : (CandidateFields.new candidate).byNumber.get? f.fieldNumber = some g :=
          (byNumber_get? hcandidate).mpr ⟨hg, by rw [fieldNumber, fieldNumber, hnumber]⟩
        refine ⟨⟨hnumber, ?_⟩, hshape⟩
        rw [hbyNumber]
        simpa using hgname
      · exact absurd hremoved (hapart g hg (.inl hshared))
  | none =>
    have hnone : ¬∃ g ∈ candidate.field, g.name = f.name ∧ g.number = f.number ∧
        compareShape message previous candidate f g = [] := by
      rintro ⟨g, hg, hsame, -⟩
      rw [hnameOf g hg hsame] at hbyName
      cases hbyName
    rw [or_iff_right hnone]
    cases hbyNumber : (CandidateFields.new candidate).byNumber.get? f.fieldNumber with
    | some g =>
      obtain ⟨hg, hsame⟩ := (byNumber_get? hcandidate).mp hbyNumber
      simp only [Option.none_or, List.append_eq_nil_iff, compareIdentity, demand_eq_nil]
      constructor
      · rintro ⟨⟨-, hgname⟩, -⟩
        rw [hnameOf g hg hgname] at hbyName
        cases hbyName
      · intro hremoved
        exact absurd hremoved (hapart g hg (.inr hsame.symm))
    | none => exact Iff.rfl

theorem length_le_append (s t : String) : s.length ≤ (s ++ t).length := by
  rw [String.length_append]
  exact Nat.le_add_right _ _

theorem unknownEnumValue_ne_required (value : ℤ) : unknownEnumValue value ≠ "required" := by
  have hassoc : unknownEnumValue value =
      "unknown(unknown enumeration value " ++ (toString value ++ ")") := String.append_assoc
  have hlong := length_le_append "unknown(unknown enumeration value " (toString value ++ ")")
  intro h
  rw [← hassoc, h] at hlong
  exact absurd hlong (by decide)

theorem required_iff {f : FieldDescriptorProto} :
    (f.shape previous).Required ↔ f.label = some labelRequired := by
  have hcardinality : (f.shape previous).cardinality = f.cardinality := rfl
  rw [FieldShape.Required, hcardinality, cardinality]
  cases hlabel : f.label with
  | none => decide
  | some label =>
    by_cases h1 : label = 1
    · subst h1
      decide
    · by_cases h2 : label = 2
      · subst h2
        decide
      · by_cases h3 : label = 3
        · subst h3
          decide
        · have hlookup : labelNames.lookup label = none := by
            simp [labelNames, List.lookup, beq_eq_false_iff_ne.mpr h1, beq_eq_false_iff_ne.mpr h2,
              beq_eq_false_iff_ne.mpr h3]
          simp only [Option.getD_some, hlookup, Option.getD_none, labelRequired,
            Option.some.injEq, h2, iff_false]
          exact unknownEnumValue_ne_required label

theorem compareReservations_eq_nil :
    compareReservations message previous candidate = [] ↔
      {name | name ∈ previous.reservedName} ⊆ {name | name ∈ candidate.reservedName} ∧
        {x | Covered (previous.reservedRange.map ReservedRange.bounds) x} ⊆
          {x | Covered (candidate.reservedRange.map ReservedRange.bounds) x} := by
  simp only [compareReservations, List.append_eq_nil_iff, List.map_eq_nil_iff,
    unreservedNames_eq_nil, reservations_eq_nil]
  exact and_comm

/-- The comparison of two messages is clean when one revises the other. -/
theorem compareFields_eq_nil (hprevious : previous.WellFormed) (hcandidate : candidate.WellFormed) :
    compareFields message previous candidate = [] ↔
      NumberedInterface.Revises FieldShape.Required (previous.fieldInterface hprevious)
        (candidate.fieldInterface hcandidate) := by
  have hkept : ((sortFields previous.field).flatMap fun field =>
        compareField message previous field (CandidateFields.new candidate)) = [] ↔
      ∀ shape ∈ (previous.fieldInterface hprevious).declared,
        shape ∈ (candidate.fieldInterface hcandidate).declared ∨
          (candidate.fieldInterface hcandidate).Retires shape := by
    simp only [List.flatMap_eq_nil_iff, sortFields, mem_sortByKey]
    constructor
    · rintro h _ ⟨f, hf, rfl⟩
      exact (compareField_eq_nil hcandidate (hprevious.named f hf)).mp (h f hf)
    · intro h f hf
      exact (compareField_eq_nil hcandidate (hprevious.named f hf)).mpr (h _ ⟨f, hf, rfl⟩)
  have hadded : ((sortFields candidate.field).flatMap fun field =>
        demand (field.fieldNumber ∈ previous.field.map fieldNumber ∨
            field.fieldName ∈ previous.field.filterMap FieldDescriptorProto.name ∨
            field.label ≠ some labelRequired)
          (.requiredFieldAdded message field.fieldName field.fieldNumber)) = [] ↔
      ∀ shape ∈ (candidate.fieldInterface hcandidate).declared, shape.Required →
        ∃ other ∈ (previous.fieldInterface hprevious).declared,
          other.nameText = shape.nameText ∨ other.numberValue = shape.numberValue := by
    simp only [List.flatMap_eq_nil_iff, sortFields, mem_sortByKey, demand_eq_nil]
    constructor
    · rintro h _ ⟨g, hg, rfl⟩ hrequired
      rcases h g hg with hnumber | hname | hlabel
      · obtain ⟨f, hf, hsame⟩ := List.mem_map.mp hnumber
        exact ⟨_, ⟨f, hf, rfl⟩, .inr hsame⟩
      · obtain ⟨f, hf, hsame⟩ := List.mem_filterMap.mp hname
        refine ⟨_, ⟨f, hf, rfl⟩, .inl ?_⟩
        change f.name.getD "" = g.name.getD ""
        rw [hsame]
        rfl
      · exact absurd (required_iff.mp hrequired) hlabel
    · intro h g hg
      by_cases hlabel : g.label = some labelRequired
      · obtain ⟨_, ⟨f, hf, rfl⟩, hname | hnumber⟩ := h _ ⟨g, hg, rfl⟩ (required_iff.mpr hlabel)
        · refine .inr (.inl (List.mem_filterMap.mpr ⟨f, hf, ?_⟩))
          obtain ⟨name, hfname⟩ := Option.isSome_iff_exists.mp (hprevious.named f hf)
          have hsame : f.name.getD "" = g.name.getD "" := hname
          rw [fieldName, ← hsame, hfname]
          rfl
        · exact .inl (List.mem_map.mpr ⟨f, hf, hnumber⟩)
      · exact .inr (.inr hlabel)
  rw [compareFields, List.append_eq_nil_iff, List.append_eq_nil_iff, hkept, hadded,
    compareReservations_eq_nil]
  constructor
  · rintro ⟨⟨hkept, hadded⟩, hnames, hnumbers⟩
    exact ⟨hkept, hnames, hnumbers, hadded⟩
  · rintro ⟨hkept, hnames, hnumbers, hadded⟩
    exact ⟨⟨hkept, hadded⟩, hnames, hnumbers⟩

end

def MessageRevises (previous candidate : DescriptorProto) : Prop :=
  previous.mapEntry = candidate.mapEntry ∧
    ∃ (hprevious : previous.WellFormed) (hcandidate : candidate.WellFormed),
      NumberedInterface.Revises FieldShape.Required (previous.fieldInterface hprevious)
        (candidate.fieldInterface hcandidate)

/-! Enums. -/

/-- Every value has a name, names and numbers are distinct, and none of them is reserved. -/
structure EnumDescriptorProto.WellFormed (enumeration : EnumDescriptorProto) : Prop where
  named : ∀ value ∈ enumeration.value, value.name.isSome = true
  names : (enumeration.value.map (·.valueName)).Nodup
  numbers : (enumeration.value.map (·.valueNumber)).Nodup
  unreserved : ∀ value ∈ enumeration.value, value.valueName ∉ enumeration.reservedName ∧
    ∀ range ∈ enumeration.reservedRange, range.contains value.valueNumber = false

theorem EnumReservedRange.covered_iff {ranges : List EnumReservedRange} {number : ℤ} :
    Covered (ranges.map bounds) number ↔ ranges.any (·.contains number) = true := by
  simp [Covered, bounds, EnumReservedRange.contains]

def EnumValueDescriptorProto.shape (value : EnumValueDescriptorProto) : String × ℤ :=
  (value.valueName, value.valueNumber)

def EnumDescriptorProto.valueInterface (enumeration : EnumDescriptorProto)
    (h : enumeration.WellFormed) :
    NumberedInterface (Prod.fst : String × ℤ → String) (Prod.snd : String × ℤ → ℤ) where
  declared := {shape | ∃ value ∈ enumeration.value, value.shape = shape}
  reservedNames := {name | name ∈ enumeration.reservedName}
  reservedNumbers := {number | Covered (enumeration.reservedRange.map EnumReservedRange.bounds) number}
  unique := by
    rintro _ ⟨v, hv, rfl⟩ _ ⟨w, hw, rfl⟩ (hname | hnumber)
    · rw [List.inj_on_of_nodup_map h.names hv hw hname]
    · rw [List.inj_on_of_nodup_map h.numbers hv hw hnumber]
  unreserved := by
    rintro _ ⟨v, hv, rfl⟩
    refine ⟨(h.unreserved v hv).1, fun hcovered => ?_⟩
    obtain ⟨range, hmem, hin⟩ := List.any_eq_true.mp (EnumReservedRange.covered_iff.mp hcovered)
    exact Bool.false_ne_true (((h.unreserved v hv).2 range hmem).symm.trans hin)

def EnumRevises (previous candidate : EnumDescriptorProto) : Prop :=
  ∃ (hprevious : previous.WellFormed) (hcandidate : candidate.WellFormed),
    NumberedInterface.Revises (fun _ => False) (previous.valueInterface hprevious)
      (candidate.valueInterface hcandidate)

section

variable {enumeration : String} {previous candidate : EnumDescriptorProto}

theorem values_get? (h : candidate.WellFormed) {name : String} {w : EnumValueDescriptorProto} :
    (FiniteMap.ofList (candidate.value.filterMap fun value =>
        value.name.map fun name => (name, value))).get? name = some w ↔
      w ∈ candidate.value ∧ w.name = some name :=
  FiniteMap.get?_ofList_keyed fun _ hv _ hw hname =>
    List.inj_on_of_nodup_map h.names hv hw (congrArg (Option.getD · "") hname)

theorem checkRemovedValue_eq_nil {value : String} {number : ℤ} :
    checkRemovedValue enumeration value number candidate = [] ↔
      value ∈ candidate.reservedName ∧
        Covered (candidate.reservedRange.map EnumReservedRange.bounds) number := by
  simp only [checkRemovedValue, demand_eq_nil, decide_eq_true_eq, EnumReservedRange.covered_iff]
  exact and_comm

theorem compareEnumReservations_eq_nil :
    compareEnumReservations enumeration previous candidate = [] ↔
      {name | name ∈ previous.reservedName} ⊆ {name | name ∈ candidate.reservedName} ∧
        {x | Covered (previous.reservedRange.map EnumReservedRange.bounds) x} ⊆
          {x | Covered (candidate.reservedRange.map EnumReservedRange.bounds) x} := by
  simp only [compareEnumReservations, List.append_eq_nil_iff, List.map_eq_nil_iff,
    unreservedNames_eq_nil, reservations_eq_nil]
  exact and_comm

/-- The comparison of two enums is clean when one revises the other. -/
theorem compareEnum_eq_nil (hprevious : previous.WellFormed) (hcandidate : candidate.WellFormed) :
    compareEnum enumeration previous candidate = [] ↔ EnumRevises previous candidate := by
  rw [compareEnum, List.append_eq_nil_iff, compareEnumReservations_eq_nil]
  simp only [List.flatMap_eq_nil_iff, mem_sortByKey]
  refine (and_congr_left' (forall₂_congr
    (q := fun v _ => v.shape ∈ (candidate.valueInterface hcandidate).declared ∨
      (candidate.valueInterface hcandidate).Retires v.shape) fun v hv => ?_)).trans ?_
  · have hretires : (candidate.valueInterface hcandidate).Retires v.shape ↔
        checkRemovedValue enumeration v.valueName v.valueNumber candidate = [] := by
      rw [checkRemovedValue_eq_nil]
      rfl
    split
    next hget =>
      rw [hretires, or_iff_right]
      rintro ⟨w, hw, hshape⟩
      have hname : w.valueName = v.valueName := congrArg Prod.fst hshape
      obtain ⟨name', hwname⟩ := Option.isSome_iff_exists.mp (hcandidate.named w hw)
      have hfound : w.name = some v.valueName := by
        rw [← hname, EnumValueDescriptorProto.valueName, hwname]
        rfl
      rw [(values_get? hcandidate).mpr ⟨hw, hfound⟩] at hget
      cases hget
    next w hget =>
      obtain ⟨hw, hwname⟩ := (values_get? hcandidate).mp hget
      have hname : w.valueName = v.valueName := by
        rw [EnumValueDescriptorProto.valueName, hwname]
        rfl
      rw [demand_eq_nil]
      constructor
      · intro hnumber
        exact .inl ⟨w, hw, Prod.ext hname hnumber.symm⟩
      · rintro (⟨w', hw', hshape⟩ | hretired)
        · have hsame : w'.valueName = v.valueName := congrArg Prod.fst hshape
          obtain rfl := List.inj_on_of_nodup_map hcandidate.names hw hw' (hname.trans hsame.symm)
          exact (congrArg Prod.snd hshape).symm
        · exact absurd (.inl hname.symm) (hretired.apart ⟨w, hw, rfl⟩)
  · constructor
    · rintro ⟨hkept, hnames, hnumbers⟩
      refine ⟨hprevious, hcandidate, ?_, hnames, hnumbers, fun _ _ hneeded => hneeded.elim⟩
      rintro _ ⟨v, hv, rfl⟩
      exact hkept v hv
    · rintro ⟨_, _, hrevises⟩
      exact ⟨fun v hv => hrevises.kept _ ⟨v, hv, rfl⟩, hrevises.names, hrevises.numbers⟩

end

/-! Services. -/

/-- Every method has a name, and names are distinct. -/
structure ServiceDescriptorProto.WellFormed (service : ServiceDescriptorProto) : Prop where
  named : ∀ method ∈ service.method, method.name.isSome = true
  names : (service.method.map (·.name)).Nodup

/-- What the comparison of two methods looks at. -/
structure MethodShape where
  name : Option String
  inputType : Option String
  outputType : Option String
  clientStreaming : Bool
  serverStreaming : Bool
  deriving DecidableEq, Repr

def MethodDescriptorProto.shape (method : MethodDescriptorProto) : MethodShape :=
  ⟨method.name, method.inputType, method.outputType, method.clientStreaming.getD false,
    method.serverStreaming.getD false⟩

def ServiceRevises (previous candidate : ServiceDescriptorProto) : Prop :=
  previous.method.map MethodDescriptorProto.shape ⊆ candidate.method.map MethodDescriptorProto.shape

section

variable {service : String} {previous candidate : ServiceDescriptorProto}

theorem methods_get? (h : candidate.WellFormed) {name : String} {n : MethodDescriptorProto} :
    (FiniteMap.ofList (candidate.method.filterMap fun method =>
        method.name.map fun name => (name, method))).get? name = some n ↔
      n ∈ candidate.method ∧ n.name = some name :=
  FiniteMap.get?_ofList_keyed fun _ hm _ hn hname => List.inj_on_of_nodup_map h.names hm hn hname

theorem compareMethod_eq_nil {method : String} {m n : MethodDescriptorProto}
    (hname : n.name = m.name) :
    compareMethod service method m n = [] ↔ n.shape = m.shape := by
  simp only [compareMethod, List.append_eq_nil_iff, demand_eq_nil, MethodDescriptorProto.shape,
    MethodShape.mk.injEq, hname, true_and]
  constructor
  · rintro ⟨⟨⟨hinput, houtput⟩, hclient⟩, hserver⟩
    exact ⟨hinput.symm, houtput.symm, hclient.symm, hserver.symm⟩
  · rintro ⟨hinput, houtput, hclient, hserver⟩
    exact ⟨⟨⟨hinput.symm, houtput.symm⟩, hclient.symm⟩, hserver.symm⟩

theorem compareService_eq_nil (hprevious : previous.WellFormed) (hcandidate : candidate.WellFormed) :
    compareService service previous candidate = [] ↔ ServiceRevises previous candidate := by
  simp only [compareService, List.flatMap_eq_nil_iff, mem_sortByKey]
  refine (forall₂_congr (q := fun m _ => m.shape ∈ candidate.method.map MethodDescriptorProto.shape)
    fun m hm => ?_).trans ?_
  · obtain ⟨name, hname⟩ := Option.isSome_iff_exists.mp (hprevious.named m hm)
    have hfound : ∀ n ∈ candidate.method, n.shape = m.shape →
        (FiniteMap.ofList (candidate.method.filterMap fun method =>
          method.name.map fun name => (name, method))).get? (m.name.getD "") = some n := by
      intro n hn hshape
      have hsame : n.name = m.name := congrArg MethodShape.name hshape
      exact (methods_get? hcandidate).mpr ⟨hn, by rw [hsame, hname]; rfl⟩
    rw [List.mem_map]
    split
    next hget =>
      simp only [List.cons_ne_self, false_iff]
      rintro ⟨n, hn, hshape⟩
      rw [hfound n hn hshape] at hget
      cases hget
    next n hget =>
      obtain ⟨hn, hsame⟩ := (methods_get? hcandidate).mp hget
      have hnames : n.name = m.name := by rw [hsame, hname]; rfl
      rw [compareMethod_eq_nil hnames]
      constructor
      · intro hshape
        exact ⟨n, hn, hshape⟩
      · rintro ⟨n', hn', hshape⟩
        have hsame' := (hfound n' hn' hshape).symm.trans hget
        cases hsame'
        exact hshape
  · constructor
    · intro h shape hshape
      obtain ⟨m, hm, rfl⟩ := List.mem_map.mp hshape
      exact h m hm
    · intro h m hm
      exact h (List.mem_map_of_mem hm)

end

/-! Descriptor sets. -/

structure SchemaIndex.WellFormed (index : SchemaIndex) : Prop where
  messages : ∀ name message, index.messages.get? name = some message → message.WellFormed
  enums : ∀ name enumeration, index.enums.get? name = some enumeration → enumeration.WellFormed
  services : ∀ name service, index.services.get? name = some service → service.WellFormed

/-- Everything that the files of a descriptor set declare is well formed. -/
structure WellFormedSet where
  set : FileDescriptorSet
  wellFormed : (SchemaIndex.new set).WellFormed

namespace SchemaIndex

structure Revises (previous candidate : SchemaIndex) : Prop where
  messages : previous.messages.Extends MessageRevises candidate.messages
  enums : previous.enums.Extends EnumRevises candidate.enums
  services : previous.services.Extends ServiceRevises candidate.services

variable {previous candidate : SchemaIndex}

theorem Revises.refl (h : previous.WellFormed) : previous.Revises previous where
  messages := .refl fun name message hget =>
    have hmessage := h.messages name message hget
    ⟨rfl, hmessage, hmessage, .refl _⟩
  enums := .refl fun name enumeration hget =>
    have henum := h.enums name enumeration hget
    ⟨henum, henum, .refl _⟩
  services := .refl fun _ _ _ => List.Subset.refl _

theorem Revises.trans {s t u : SchemaIndex} (hst : s.Revises t) (htu : t.Revises u) :
    s.Revises u where
  messages := by
    refine .trans ?_ hst.messages htu.messages
    rintro _ _ _ ⟨hmap, hold, hmiddle, hrevises⟩ ⟨hmap', _, hnew, hrevises'⟩
    exact ⟨hmap.trans hmap', hold, hnew, hrevises.trans hrevises'⟩
  enums := by
    refine .trans ?_ hst.enums htu.enums
    rintro _ _ _ ⟨hold, hmiddle, hrevises⟩ ⟨_, hnew, hrevises'⟩
    exact ⟨hold, hnew, hrevises.trans hrevises'⟩
  services := by
    refine .trans ?_ hst.services htu.services
    intro _ _ _ hkept hkept'
    exact List.Subset.trans hkept hkept'

end SchemaIndex

theorem compareMessages_eq_nil {previous candidate : SchemaIndex} (hprevious : previous.WellFormed)
    (hcandidate : candidate.WellFormed) :
    compareMessages previous candidate = [] ↔
      previous.messages.Extends MessageRevises candidate.messages := by
  refine FiniteMap.flatMap_inOrder_eq_nil (fun name old hnone => ?_)
    fun name old new hold hnew => ?_
  · simp [hnone]
  · have holdWell := hprevious.messages name old hold
    have hnewWell := hcandidate.messages name new hnew
    simp only [hnew, List.append_eq_nil_iff, demand_eq_nil, compareFields_eq_nil holdWell hnewWell]
    refine and_congr_right fun _ => ⟨fun h => ⟨holdWell, hnewWell, h⟩, ?_⟩
    rintro ⟨_, _, h⟩
    exact h

theorem compareEnums_eq_nil {previous candidate : SchemaIndex} (hprevious : previous.WellFormed)
    (hcandidate : candidate.WellFormed) :
    compareEnums previous candidate = [] ↔ previous.enums.Extends EnumRevises candidate.enums := by
  refine FiniteMap.flatMap_inOrder_eq_nil (fun name old hnone => ?_)
    fun name old new hold hnew => ?_
  · simp [hnone]
  · simp only [hnew]
    exact compareEnum_eq_nil (hprevious.enums name old hold) (hcandidate.enums name new hnew)

theorem compareServices_eq_nil {previous candidate : SchemaIndex} (hprevious : previous.WellFormed)
    (hcandidate : candidate.WellFormed) :
    compareServices previous candidate = [] ↔
      previous.services.Extends ServiceRevises candidate.services := by
  refine FiniteMap.flatMap_inOrder_eq_nil (fun name old hnone => ?_)
    fun name old new hold hnew => ?_
  · simp [hnone]
  · simp only [hnew]
    exact compareService_eq_nil (hprevious.services name old hold)
      (hcandidate.services name new hnew)

/-- The comparison of two descriptor sets is clean when the candidate revises the previous one. -/
theorem compareDescriptorSets_eq_nil (previous candidate : WellFormedSet) :
    compareDescriptorSets previous.set candidate.set = [] ↔
      (SchemaIndex.new previous.set).Revises (SchemaIndex.new candidate.set) := by
  have hprevious := previous.wellFormed
  have hcandidate := candidate.wellFormed
  rw [compareDescriptorSets, List.append_eq_nil_iff, List.append_eq_nil_iff,
    compareMessages_eq_nil hprevious hcandidate, compareEnums_eq_nil hprevious hcandidate,
    compareServices_eq_nil hprevious hcandidate]
  constructor
  · rintro ⟨⟨hm, he⟩, hs⟩
    exact ⟨hm, he, hs⟩
  · rintro ⟨hm, he, hs⟩
    exact ⟨⟨hm, he⟩, hs⟩

/-! Catalogs. -/

/-- A catalog whose entries have distinct ids. -/
structure IndexedCatalog where
  catalog : Catalog
  unique : (catalog.entries.map CatalogEntry.id).Nodup

/-- The same kind with the same contract; subscriptions may be added. -/
inductive CatalogEntry.Kind.Revises : Option CatalogEntry.Kind → Option CatalogEntry.Kind → Prop where
  | unspecified : Revises none none
  | topic : Revises (some .topic) (some .topic)
  | resource {old new : Resource} (hselector : old.selectorType = new.selectorType)
      (hvalue : old.valueType = new.valueType) (hmethod : old.method = new.method)
      (hsubscriptions : old.supportsSubscriptions = true → new.supportsSubscriptions = true) :
    Revises (some (.resource old)) (some (.resource new))
  | function {contract : Function} : Revises (some (.function contract)) (some (.function contract))
  | workflow {old new : Workflow} : Revises (some (.workflow old)) (some (.workflow new))

open CatalogEntry (Kind)

theorem kind_revises_refl (kind : Option Kind) : Kind.Revises kind kind := by
  rcases kind with _ | (_ | _ | _ | _)
  · exact .unspecified
  · exact .topic
  · exact .resource rfl rfl rfl id
  · exact .function
  · exact .workflow

theorem kind_revises_trans {a b c : Option Kind} (hab : Kind.Revises a b)
    (hbc : Kind.Revises b c) : Kind.Revises a c := by
  cases hab with
  | unspecified => exact hbc
  | topic => exact hbc
  | function => exact hbc
  | workflow =>
    cases hbc
    exact .workflow
  | resource hselector hvalue hmethod hsubscriptions =>
    cases hbc with
    | resource hselector' hvalue' hmethod' hsubscriptions' =>
      exact .resource (hselector.trans hselector') (hvalue.trans hvalue') (hmethod.trans hmethod')
        fun h => hsubscriptions' (hsubscriptions h)

theorem compareResource_eq_nil {id : String} {old new : Resource} :
    compareResource id old new = [] ↔ Kind.Revises (some (.resource old)) (some (.resource new)) := by
  simp only [compareResource, compareType, compareBinding, List.append_eq_nil_iff, demand_eq_nil]
  constructor
  · rintro ⟨⟨⟨hselector, hvalue⟩, hmethod⟩, hsubscriptions⟩
    exact .resource hselector hvalue hmethod hsubscriptions
  · rintro ⟨⟩
    exact ⟨⟨⟨‹_›, ‹_›⟩, ‹_›⟩, ‹_›⟩

theorem compareFunction_eq_nil {id : String} {old new : Function} :
    compareFunction id old new = [] ↔ Kind.Revises (some (.function old)) (some (.function new)) := by
  simp only [compareFunction, compareType, compareBinding, List.append_eq_nil_iff, demand_eq_nil]
  constructor
  · rintro ⟨⟨⟨⟨hinput, houtput⟩, hmethod⟩, heffect⟩, hidempotency⟩
    obtain rfl : old = new := by
      cases old
      cases new
      simp_all
    exact .function
  · rintro ⟨⟩
    exact ⟨⟨⟨⟨rfl, rfl⟩, rfl⟩, rfl⟩, rfl⟩

theorem kindName_eq_of_revises {previous candidate : CatalogEntry}
    (h : Kind.Revises previous.kind candidate.kind) : previous.kindName = candidate.kindName := by
  unfold CatalogEntry.kindName
  generalize previous.kind = old at h ⊢
  generalize candidate.kind = new at h ⊢
  cases h <;> rfl

theorem compareEntry_eq_nil {previous candidate : CatalogEntry} :
    compareEntry previous candidate = [] ↔ Kind.Revises previous.kind candidate.kind := by
  unfold compareEntry
  split_ifs with hname
  · exact iff_of_false not_false fun h => hname (kindName_eq_of_revises h)
  · rw [not_not] at hname
    unfold CatalogEntry.kindName at hname
    generalize previous.kind = old at hname ⊢
    generalize candidate.kind = new at hname ⊢
    rcases old with _ | (_ | _ | _ | _) <;> rcases new with _ | (_ | _ | _ | _) <;>
      simp at hname
    · exact iff_of_true rfl .unspecified
    · exact iff_of_true rfl .topic
    · exact compareResource_eq_nil
    · exact compareFunction_eq_nil
    · exact iff_of_true rfl .workflow

def CatalogRevises (previous candidate : Catalog) : Prop :=
  ∀ old ∈ previous.entries, ∃ new ∈ candidate.entries, new.id = old.id ∧ Kind.Revises old.kind new.kind

theorem compareCatalog_eq_nil {previous : Catalog} (candidate : IndexedCatalog) :
    compareCatalog previous candidate.catalog = [] ↔ CatalogRevises previous candidate.catalog := by
  have hget : ∀ {id : String} {new : CatalogEntry},
      (FiniteMap.ofList (candidate.catalog.entries.map fun entry => (entry.id, entry))).get? id =
        some new ↔ new ∈ candidate.catalog.entries ∧ new.id = id := by
    intro id new
    rw [FiniteMap.get?_ofList (by simpa [Function.comp_def] using candidate.unique), List.mem_map]
    constructor
    · rintro ⟨entry, hentry, heq⟩
      cases heq
      exact ⟨hentry, rfl⟩
    · rintro ⟨hnew, rfl⟩
      exact ⟨new, hnew, rfl⟩
  simp only [compareCatalog, List.flatMap_eq_nil_iff, mem_sortByKey]
  refine forall₂_congr fun old _ => ?_
  split
  next hnone =>
    simp only [List.cons_ne_self, false_iff]
    rintro ⟨new, hnew, hid, -⟩
    rw [hget.mpr ⟨hnew, hid⟩] at hnone
    cases hnone
  next new hsome =>
    obtain ⟨hnew, hid⟩ := hget.mp hsome
    rw [compareEntry_eq_nil]
    constructor
    · intro hrevises
      exact ⟨new, hnew, hid, hrevises⟩
    · rintro ⟨new', hnew', hid', hrevises⟩
      rw [hget.mpr ⟨hnew', hid'⟩] at hsome
      cases hsome
      exact hrevises

theorem CatalogRevises.refl (catalog : Catalog) : CatalogRevises catalog catalog :=
  fun entry hentry => ⟨entry, hentry, rfl, kind_revises_refl entry.kind⟩

theorem CatalogRevises.trans {a b c : Catalog} (hab : CatalogRevises a b)
    (hbc : CatalogRevises b c) : CatalogRevises a c := by
  intro old hold
  obtain ⟨middle, hmiddle, hid, hkind⟩ := hab old hold
  obtain ⟨new, hnew, hid', hkind'⟩ := hbc middle hmiddle
  exact ⟨new, hnew, hid'.trans hid, kind_revises_trans hkind hkind'⟩

/-- Being an additive revision is reflexive and transitive, for descriptor sets and for catalogs. -/
theorem comparison_preorder :
    (∀ set : WellFormedSet, compareDescriptorSets set.set set.set = []) ∧
    (∀ a b c : WellFormedSet, compareDescriptorSets a.set b.set = [] →
      compareDescriptorSets b.set c.set = [] → compareDescriptorSets a.set c.set = []) ∧
    (∀ catalog : IndexedCatalog, compareCatalog catalog.catalog catalog.catalog = []) ∧
    ∀ a b c : IndexedCatalog, compareCatalog a.catalog b.catalog = [] →
      compareCatalog b.catalog c.catalog = [] → compareCatalog a.catalog c.catalog = [] := by
  refine ⟨fun set => ?_, fun a b c => ?_, fun catalog => ?_, fun a b c => ?_⟩
  · exact (compareDescriptorSets_eq_nil set set).mpr (.refl set.wellFormed)
  · simp only [compareDescriptorSets_eq_nil]
    exact SchemaIndex.Revises.trans
  · exact (compareCatalog_eq_nil catalog).mpr (.refl catalog.catalog)
  · simp only [compareCatalog_eq_nil]
    exact CatalogRevises.trans

/-! Packages. -/

structure WellFormedPackage where
  package : VerifiedPackage
  entries : (package.catalog.entries.map CatalogEntry.id).Nodup
  schema : (SchemaIndex.new package.descriptorSet).WellFormed

/-- One Store and one major of each version; the interface grows and asks for no newer protocol. -/
structure ScopeKept (previous candidate : VerifiedPackage) : Prop where
  storeId : previous.storeId = candidate.storeId
  interfaceMajor : previous.interfaceVersion.major = candidate.interfaceVersion.major
  interfaceMinor : previous.interfaceVersion.minor ≤ candidate.interfaceVersion.minor
  protocolMajor : previous.minimumProtocolVersion.major = candidate.minimumProtocolVersion.major
  protocolMinor : candidate.minimumProtocolVersion.minor ≤ previous.minimumProtocolVersion.minor

theorem checkScope_eq_ok {previous candidate : VerifiedPackage} :
    checkScope previous candidate = .ok () ↔ ScopeKept previous candidate := by
  simp only [checkScope]
  constructor
  · intro h
    split_ifs at h with h₁ h₂ h₃ h₄ h₅
    exact ⟨not_not.mp h₁, not_not.mp h₂, not_lt.mp h₃, not_not.mp h₄, not_lt.mp h₅⟩
  · intro h
    rw [if_neg (not_not.mpr h.storeId), if_neg (not_not.mpr h.interfaceMajor),
      if_neg (not_lt.mpr h.interfaceMinor), if_neg (not_not.mpr h.protocolMajor),
      if_neg (not_lt.mpr h.protocolMinor)]

theorem ScopeKept.refl (package : VerifiedPackage) : ScopeKept package package :=
  ⟨rfl, rfl, le_rfl, rfl, le_rfl⟩

theorem ScopeKept.trans {a b c : VerifiedPackage} (hab : ScopeKept a b) (hbc : ScopeKept b c) :
    ScopeKept a c :=
  ⟨hab.storeId.trans hbc.storeId, hab.interfaceMajor.trans hbc.interfaceMajor,
    hab.interfaceMinor.trans hbc.interfaceMinor, hab.protocolMajor.trans hbc.protocolMajor,
    hbc.protocolMinor.trans hab.protocolMinor⟩

namespace WellFormedPackage

def schemaSet (p : WellFormedPackage) : WellFormedSet := ⟨p.package.descriptorSet, p.schema⟩

def indexed (p : WellFormedPackage) : IndexedCatalog := ⟨p.package.catalog, p.entries⟩

/-- A package is compatible when its scope is kept and neither catalog nor schema breaks. -/
theorem checkPackageCompatibility_eq_ok (p q : WellFormedPackage) :
    checkPackageCompatibility p.package q.package = .ok () ↔
      ScopeKept p.package q.package ∧ CatalogRevises p.package.catalog q.package.catalog ∧
        (SchemaIndex.new p.package.descriptorSet).Revises
          (SchemaIndex.new q.package.descriptorSet) := by
  have hcatalog : compareCatalog p.package.catalog q.package.catalog = [] ↔
      CatalogRevises p.package.catalog q.package.catalog := compareCatalog_eq_nil q.indexed
  have hschema : compareDescriptorSets p.package.descriptorSet q.package.descriptorSet = [] ↔
      (SchemaIndex.new p.package.descriptorSet).Revises
        (SchemaIndex.new q.package.descriptorSet) :=
    compareDescriptorSets_eq_nil p.schemaSet q.schemaSet
  rw [← checkScope_eq_ok, ← hcatalog, ← hschema]
  unfold checkPackageCompatibility
  cases hscope : checkScope p.package q.package with
  | error error => simp [bind, Except.bind]
  | ok scope =>
    simp only [bind, Except.bind, List.append_eq_nil_iff, true_and]
    split_ifs with hclean
    · exact iff_of_true rfl hclean
    · exact iff_of_false nofun hclean

/-- Published revisions that pass one after the other pass from the first to the last. -/
theorem compatibility_preorder :
    (∀ p : WellFormedPackage, checkPackageCompatibility p.package p.package = .ok ()) ∧
    ∀ p q r : WellFormedPackage, checkPackageCompatibility p.package q.package = .ok () →
      checkPackageCompatibility q.package r.package = .ok () →
        checkPackageCompatibility p.package r.package = .ok () := by
  simp only [checkPackageCompatibility_eq_ok]
  refine ⟨fun p => ⟨.refl _, .refl _, .refl p.schema⟩, fun p q r hpq hqr => ?_⟩
  exact ⟨hpq.1.trans hqr.1, hpq.2.1.trans hqr.2.1, hpq.2.2.trans hqr.2.2⟩

end WellFormedPackage

namespace TestVectors

def int32Field (name : String) (number : ℤ) : FieldDescriptorProto :=
  ⟨some name, some number, some 1, some 5, none, none, none, none⟩

def record (field : List FieldDescriptorProto) (reservedRange : List ReservedRange)
    (reservedName : List String) : DescriptorProto :=
  ⟨some "Record", field, [], [], [], none, reservedRange, reservedName⟩

theorem record_index (message : DescriptorProto) (hname : message.name = some "Record")
    (hnested : message.nestedType = []) (henum : message.enumType = []) :
    SchemaIndex.new ⟨[⟨none, [message], [], []⟩]⟩ =
      ⟨(∅ : FiniteMap _ _).insert "Record" message, ∅, ∅⟩ := by
  obtain ⟨_, _, _, _, _, _, _, _⟩ := message
  cases hname
  cases hnested
  cases henum
  rfl

def recordSet (field : List FieldDescriptorProto) (reservedRange : List ReservedRange)
    (reservedName : List String) (h : (record field reservedRange reservedName).WellFormed) :
    WellFormedSet where
  set := ⟨[⟨none, [record field reservedRange reservedName], [], []⟩]⟩
  wellFormed := by
    rw [record_index _ rfl rfl rfl]
    refine ⟨fun name message hget => ?_, nofun, nofun⟩
    rw [FiniteMap.get?_insert] at hget
    split_ifs at hget
    · cases hget
      exact h
    · cases hget

def firstRecord : WellFormedSet :=
  recordSet [int32Field "keep" 1, int32Field "retired" 2] [] []
    ⟨by decide, by decide, by decide, by decide⟩

def secondRecord : WellFormedSet :=
  recordSet [int32Field "keep" 1, int32Field "added" 3] [⟨some 2, some 3⟩] ["retired"]
    ⟨by decide, by decide, by decide, by decide⟩

def thirdRecord : WellFormedSet :=
  recordSet [int32Field "keep" 1] [⟨some 3, some 4⟩, ⟨some 2, some 3⟩] ["added", "retired"]
    ⟨by decide, by decide, by decide, by decide⟩

/-- A field retired in the second revision is still retired in the third one. -/
theorem comparison_preorder_records :
    compareDescriptorSets firstRecord.set thirdRecord.set = [] :=
  comparison_preorder.2.1 firstRecord secondRecord thirdRecord (by decide +kernel)
    (by decide +kernel)

end TestVectors
end Package
