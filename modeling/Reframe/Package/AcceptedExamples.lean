import Reframe.Package.AcceptedCatalog

/-! What is known of the examples of an accepted catalog. -/
namespace Package
open Run (Stop bind_ok forM_eq_ok foldlM_ok_mem)
open Runtime (AnyValue isWhiteSpace)
open WireFormat (Encodes Record)

/-- What lookups and decoding of a pool do: messages are found by their full names, which are
dotted identifiers, those of methods included; and what decodes is a well-formed encoding whose
unknown fields are kept. -/
structure DescriptorPool.Lawful {μ : Type} (pool : DescriptorPool μ) : Prop where
  message : ∀ name descriptor, pool.getMessageByName name = some descriptor →
    pool.schema.fullName descriptor = name
  identifier : ∀ name descriptor, pool.getMessageByName name = some descriptor →
    name ≠ "" ∧ name.toList.head? ≠ some '.' ∧ ∀ c ∈ name.toList, isWhiteSpace c = false
  method : ∀ service methods, pool.getServiceByName service = some methods → ∀ method ∈ methods,
    pool.getMessageByName (pool.schema.fullName method.input) = some method.input ∧
      pool.getMessageByName (pool.schema.fullName method.output) = some method.output
  decodes : ∀ descriptor bytes value, pool.decode descriptor bytes = .ok value →
    ∃ wire, Encodes pool.schema (some descriptor) wire bytes ∧
      value.filter Record.isUnknown = wire.filter Record.isUnknown

/-- The declared input and output types of a resource or a function. -/
def CatalogEntry.types (entry : CatalogEntry) : Option (String × String) :=
  match entry.kind with
  | some (.resource resource) => some (resource.selectorType, resource.valueType)
  | some (.function function) => some (function.inputType, function.outputType)
  | _ => none

section

variable {μ : Type} {pool : DescriptorPool μ}

/-- The value was checked against the declared type: it names the type and decodes. -/
structure Checked (pool : DescriptorPool μ) (declared : String) (value : AnyValue)
    (descriptor : μ) : Prop where
  found : pool.getMessageByName (trimStartDots declared) = some descriptor
  named : lastSegment value.typeUrl = trimStartDots declared
  decodes : ∃ message, pool.decode descriptor value.value = .ok message

theorem validateMethod_ok {entry : CatalogEntry} {binding : Option MethodBinding}
    {bindings bindings' : Bindings} {method : MethodDescriptor μ}
    (h : validateMethod pool entry binding bindings = .ok (method, bindings')) :
    ∃ service methods, pool.getServiceByName service = some methods ∧ method ∈ methods := by
  cases binding with
  | none => cases h
  | some binding =>
    obtain ⟨_, -, h⟩ := bind_ok.mp h
    cases hservice : pool.getServiceByName (trimStartDots binding.service) with
    | none =>
      rw [hservice] at h
      cases h
    | some methods =>
      rw [hservice] at h
      simp only at h
      cases hfind : methods.find? (·.name = binding.method) with
      | none =>
        rw [hfind] at h
        cases h
      | some found =>
        rw [hfind] at h
        obtain ⟨_, -, h⟩ := bind_ok.mp h
        obtain ⟨_, -, h⟩ := bind_ok.mp h
        cases h
        exact ⟨_, methods, hservice, List.mem_of_find?_eq_some hfind⟩

theorem validateDeclaredType_ok {entry : CatalogEntry} {direction declared : String} {actual : μ}
    (h : validateDeclaredType pool entry direction declared actual = .ok ()) :
    trimStartDots declared = pool.schema.fullName actual := by
  obtain ⟨_, -, h⟩ := bind_ok.mp h
  exact ensure_eq_ok.mp h

theorem validateExampleValue_ok {entry : CatalogEntry} {index : ℕ} {direction : String}
    {value : Option AnyValue} {expected : μ}
    (h : validateExampleValue pool entry index direction value (some expected) = .ok ()) :
    ∃ value', value = some value' ∧ lastSegment value'.typeUrl = pool.schema.fullName expected ∧
      ∃ message, pool.decode expected value'.value = .ok message := by
  cases value with
  | none => exact absurd h (refuse_ne_ok _)
  | some value =>
    obtain ⟨descriptor, hdescriptor, h⟩ := bind_ok.mp h
    rw [exampleDescriptor] at hdescriptor
    split_ifs at hdescriptor with hname
    · cases hdescriptor
      refine ⟨value, rfl, hname, ?_⟩
      have hok := ensure_eq_ok.mp h
      cases hdecode : pool.decode expected value.value with
      | ok message => exact ⟨message, rfl⟩
      | error reason =>
        rw [hdecode] at hok
        cases hok

theorem validateExamples_ok {entry : CatalogEntry} {guidance : Guidance} {input output : Option μ}
    (hguidance : entry.guidance = some guidance)
    (h : validateExamples pool entry input output = .ok ()) :
    ∀ sample ∈ guidance.examples, ∃ index,
      validateExampleValue pool entry index "input" sample.input input = .ok () ∧
        validateExampleValue pool entry index "output" sample.output output = .ok () := by
  rw [validateExamples, hguidance] at h
  intro sample hsample
  obtain ⟨index, hindex⟩ := List.mem_iff_getElem?.mp hsample
  have hboth := forM_eq_ok.mp h (sample, index) (List.mem_zipIdx_iff_getElem?.mpr hindex)
  obtain ⟨_, hinput, houtput⟩ := bind_ok.mp hboth
  exact ⟨index, hinput, houtput⟩

theorem validateCapability_ok (hlaws : pool.Lawful) {entry : CatalogEntry}
    {binding : Option MethodBinding} {inputType outputType : String}
    {bindings bindings' : Bindings} {guidance : Guidance}
    (hguidance : entry.guidance = some guidance)
    (h : validateCapability pool entry binding inputType outputType bindings = .ok bindings') :
    ∀ sample ∈ guidance.examples, ∃ input output inputDescriptor outputDescriptor,
      sample.input = some input ∧ sample.output = some output ∧
        Checked pool inputType input inputDescriptor ∧
        Checked pool outputType output outputDescriptor := by
  obtain ⟨⟨method, bindings₁⟩, hmethod, h⟩ := bind_ok.mp h
  obtain ⟨_, hin, h⟩ := bind_ok.mp h
  obtain ⟨_, hout, h⟩ := bind_ok.mp h
  obtain ⟨_, hexamples, -⟩ := bind_ok.mp h
  obtain ⟨service, methods, hservice, hmem⟩ := validateMethod_ok hmethod
  obtain ⟨hfoundIn, hfoundOut⟩ := hlaws.method service methods hservice method hmem
  have hnameIn := validateDeclaredType_ok hin
  have hnameOut := validateDeclaredType_ok hout
  intro sample hsample
  obtain ⟨index, hinput, houtput⟩ := validateExamples_ok hguidance hexamples sample hsample
  obtain ⟨input, hinput, hsegment, hdecode⟩ := validateExampleValue_ok hinput
  obtain ⟨output, houtput, hsegment', hdecode'⟩ := validateExampleValue_ok houtput
  refine ⟨input, output, method.input, method.output, hinput, houtput, ?_, ?_⟩
  · exact ⟨hnameIn ▸ hfoundIn, hsegment.trans hnameIn.symm, hdecode⟩
  · exact ⟨hnameOut ▸ hfoundOut, hsegment'.trans hnameOut.symm, hdecode'⟩

/-- The examples of the resources and functions of an accepted catalog name the declared types, and
their payloads decode. -/
theorem examples_checked (hlaws : pool.Lawful) {catalog : Catalog} {manifestStoreId : String}
    {manifestInterface : InterfaceVersion}
    (h : validateCatalog pool catalog manifestStoreId manifestInterface = .ok ())
    {entry : CatalogEntry} (hentry : entry ∈ catalog.entries) {inputType outputType : String}
    (htypes : entry.types = some (inputType, outputType)) {guidance : Guidance}
    (hguidance : entry.guidance = some guidance) :
    ∀ sample ∈ guidance.examples, ∃ input output inputDescriptor outputDescriptor,
      sample.input = some input ∧ sample.output = some output ∧
        Checked pool inputType input inputDescriptor ∧
        Checked pool outputType output outputDescriptor := by
  obtain ⟨_, -, h⟩ := bind_ok.mp h
  obtain ⟨_, hvalidate, -⟩ := bind_ok.mp h
  obtain ⟨entries, hentries, hvalidate⟩ := bind_ok.mp hvalidate
  obtain ⟨_, -, hdescriptors⟩ := bind_ok.mp hvalidate
  obtain ⟨_, hfold, -⟩ := bind_ok.mp hdescriptors
  obtain ⟨-, -, hget⟩ := entryMap_ok hentries
  have hvalue : entry ∈ entries.values := mem_values.mpr ⟨entry.id, (hget _ _).mpr ⟨hentry, rfl⟩⟩
  obtain ⟨bindings, bindings', hstep⟩ := foldlM_ok_mem hfold entry hvalue
  rw [validateDescriptor] at hstep
  rw [CatalogEntry.types] at htypes
  cases hkind : entry.kind with
  | none =>
    rw [hkind] at htypes
    cases htypes
  | some kind =>
    rw [hkind] at hstep htypes
    cases kind with
    | topic => cases htypes
    | workflow workflow => cases htypes
    | resource resource =>
      cases htypes
      exact validateCapability_ok hlaws hguidance hstep
    | function function =>
      cases htypes
      obtain ⟨_, -, hstep⟩ := bind_ok.mp hstep
      exact validateCapability_ok hlaws hguidance hstep

end

end Package
