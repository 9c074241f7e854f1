import Mathlib.Data.List.TakeWhile
import Reframe.Catalog.Invocation
import Reframe.Catalog.Pagination
import Reframe.Package.AcceptedExamples
import Reframe.Protocol.ShapeAcceptance

/-! Which examples of an accepted catalog can be invoked as they stand. -/
namespace StoreCatalog
open Package (Catalog CatalogEntry Checked DescriptorPool Example Guidance InterfaceVersion lastSegment
  trimStartDots)
open Protocol (FitsBudget validateMessageShape)
open Run (Stop bind_ok)
open Runtime (AnyValue isWhiteSpace)
open WireFormat (Encodes Record)

/-- Something before the last slash, and no white space anywhere. -/
def usableTypeUrl (typeUrl : String) : Bool :=
  '/' ∈ typeUrl.toList.tail && typeUrl.toList.all fun c => !isWhiteSpace c

/-- A value with a usable type URL whose payload is within the value and depth limits and has no
field that its type does not know, at any level. -/
def Fits {μ : Type} (pool : DescriptorPool μ) (value : AnyValue) : Prop :=
  usableTypeUrl value.typeUrl = true ∧ ∀ descriptor records,
    pool.getMessageByName (lastSegment value.typeUrl) = some descriptor →
    Encodes pool.schema (some descriptor) records value.value →
    FitsBudget valueShapeBudget .reject records

/-! Texts. -/

theorem dropWhile_eq_self {p : Char → Bool} {text : List Char} (h : ∀ c ∈ text, p c = false) :
    text.dropWhile p = text := by
  cases text with
  | nil => rfl
  | cons c text => rw [List.dropWhile_cons_of_neg (by rw [h c List.mem_cons_self]; decide)]

theorem trim_eq_self {text : String} (h : ∀ c ∈ text.toList, isWhiteSpace c = false) :
    trim text = text := by
  have hreverse : ∀ c ∈ text.toList.reverse, isWhiteSpace c = false :=
    fun c hc => h c (List.mem_reverse.mp hc)
  rw [trim, dropWhile_eq_self h, dropWhile_eq_self hreverse, List.reverse_reverse,
    String.ofList_toList]

/-- Dots in front of an identifier are all that is taken from a declared type. -/
theorem canonicalTypeName_eq {declared name : String} (h : trimStartDots declared = name)
    (hspace : ∀ c ∈ name.toList, isWhiteSpace c = false) : canonicalTypeName declared = name := by
  rw [canonicalTypeName, trim_eq_self, h]
  intro c hc
  rw [← List.takeWhile_append_dropWhile (p := (· = '.')) (l := declared.toList)] at hc
  rcases List.mem_append.mp hc with hdot | hname
  · have hc : c = '.' := by simpa using List.mem_takeWhile_imp hdot
    rw [hc]
    decide
  · refine hspace c ?_
    rw [← h, trimStartDots, String.toList_ofList]
    exact hname

theorem canonicalTypeName_self {name : String} (hdot : name.toList.head? ≠ some '.')
    (hspace : ∀ c ∈ name.toList, isWhiteSpace c = false) : canonicalTypeName name = name := by
  refine canonicalTypeName_eq ?_ hspace
  rw [trimStartDots]
  cases hname : name.toList with
  | nil =>
    rw [← hname, ← String.ofList_toList (s := name), hname]
    rfl
  | cons c text =>
    have hc : c ≠ '.' := fun heq => hdot (by rw [hname, heq]; rfl)
    rw [List.dropWhile_cons_of_neg (by simpa using hc), ← hname, String.ofList_toList]

/-- A text with a slash is split at the last one. -/
theorem split_lastSlash {typeUrl : String} (h : '/' ∈ typeUrl.toList) :
    typeUrl.toList = (beforeLastSlash typeUrl).toList ++ '/' :: (lastSegment typeUrl).toList ∧
      '/' ∉ (lastSegment typeUrl).toList := by
  obtain ⟨after, before, heq, hnotMem⟩ := List.eq_append_cons_of_mem (List.mem_reverse.mpr h)
  have hafter : ∀ c ∈ after, decide (c ≠ '/') = true :=
    fun c hc => decide_eq_true fun hslash => hnotMem (hslash ▸ hc)
  have htake : typeUrl.toList.reverse.takeWhile (· ≠ '/') = after := by
    rw [heq, List.takeWhile_append_of_pos hafter, List.takeWhile_cons_of_neg (by simp),
      List.append_nil]
  have hdrop : typeUrl.toList.reverse.dropWhile (· ≠ '/') = '/' :: before := by
    rw [heq, List.dropWhile_append_of_pos hafter, List.dropWhile_cons_of_neg (by simp)]
  rw [beforeLastSlash, lastSegment, htake, hdrop, String.toList_ofList, String.toList_ofList]
  constructor
  · rw [List.tail_cons, ← List.reverse_reverse typeUrl.toList, heq]
    simp
  · rwa [List.mem_reverse]

theorem beforeLastSlash_ne_empty_iff {typeUrl : String} (h : '/' ∈ typeUrl.toList) :
    beforeLastSlash typeUrl ≠ "" ↔ '/' ∈ typeUrl.toList.tail := by
  obtain ⟨heq, hnotMem⟩ := split_lastSlash h
  rw [heq]
  cases hbefore : (beforeLastSlash typeUrl).toList with
  | nil =>
    rw [List.nil_append, List.tail_cons]
    refine iff_of_false (not_not.mpr ?_) hnotMem
    rw [← String.ofList_toList (s := beforeLastSlash typeUrl), hbefore]
  | cons c before =>
    refine iff_of_true (fun hempty => ?_) (by simp)
    rw [hempty] at hbefore
    cases hbefore

/-- A type URL that ends in a type name is accepted exactly when it is usable. -/
theorem anyTypeName_ok_iff {typeUrl name : String} (hname : lastSegment typeUrl = name)
    (hne : name ≠ "") (hdot : name.toList.head? ≠ some '.') :
    (∃ actual, anyTypeName typeUrl = .ok actual) ↔ usableTypeUrl typeUrl = true := by
  rw [anyTypeName, usableTypeUrl, Bool.and_eq_true, decide_eq_true_eq]
  by_cases hslash : '/' ∈ typeUrl.toList
  · rw [if_pos hslash, ← beforeLastSlash_ne_empty_iff hslash]
    simp only [hname]
    have hall : (typeUrl.toList.all fun c => !isWhiteSpace c) = true ↔
        ¬ typeUrl.toList.any isWhiteSpace = true := by
      rw [List.all_eq_not_any_not]
      simp
    rw [hall]
    split_ifs with hrefused
    · refine iff_of_false (fun ⟨_, h⟩ => nomatch h) fun ⟨hbefore, hspace⟩ => ?_
      exact hrefused.elim hbefore fun h => h.elim hne fun h => h.elim hdot hspace
    · push Not at hrefused
      exact iff_of_true ⟨name, rfl⟩ ⟨hrefused.1, by simpa using hrefused.2.2.2⟩
  · rw [if_neg hslash]
    exact iff_of_false (fun ⟨_, h⟩ => nomatch h)
      fun h => hslash (List.mem_of_mem_tail h.1)

theorem anyTypeName_eq {typeUrl actual : String} (h : anyTypeName typeUrl = .ok actual) :
    actual = lastSegment typeUrl := by
  rw [anyTypeName] at h
  by_cases hslash : '/' ∈ typeUrl.toList
  · rw [if_pos hslash] at h
    simp only at h
    split_ifs at h
    · cases h
    · cases h
      rfl
  · rw [if_neg hslash] at h
    cases h

/-! Values. -/

section

variable {μ : Type} {pool : DescriptorPool μ} {service : CatalogService μ}

/-- A payload that decodes is accepted exactly when its records are within the limits. -/
theorem validatePayload_iff (hlaws : pool.Lawful) (hpool : service.descriptorPool = pool)
    {descriptor : μ} {payload : List UInt8} {message : List Record} (expectedType : String)
    (hdecode : pool.decode descriptor payload = .ok message) :
    service.validatePayload descriptor expectedType payload = .ok () ↔
      ∀ records, Encodes pool.schema (some descriptor) records payload →
        FitsBudget valueShapeBudget .reject records := by
  obtain ⟨wire, hencodes, hunknown⟩ := hlaws.decodes descriptor payload message hdecode
  subst hpool
  rw [CatalogService.validatePayload]
  constructor
  · intro h records hrecords
    cases hshape : validateMessageShape service.descriptorPool.schema descriptor payload
        valueShapeBudget .reject with
    | ok accepted =>
      obtain ⟨accepted, haccepted, hfits, -⟩ := Protocol.validateMessageShape_sound hshape
      rwa [hrecords.unique haccepted]
    | error stop =>
      rw [hshape] at h
      cases stop <;> cases h
  · intro hfits
    have hwire := hfits wire hencodes
    have hshape := Protocol.validateMessageShape_complete hencodes hwire
      (fun _ _ _ _ hlimit => absurd hlimit List.not_mem_nil)
    have hknown : message.any Record.isUnknown = false := by
      rw [← Bool.not_eq_true, List.any_eq_true]
      rintro ⟨record, hrecord, hrecordUnknown⟩
      have hmem := List.mem_filter.mpr ⟨hrecord, hrecordUnknown⟩
      rw [hunknown, WireFormat.filter_isUnknown_eq_nil (hwire.known rfl)] at hmem
      cases hmem
    rw [hshape, hdecode]
    simp only [hknown]
    rfl

/-- A value checked against a declared type is accepted for it exactly when it fits. -/
theorem validateAny_iff (hlaws : pool.Lawful) (hpool : service.descriptorPool = pool)
    {declared expected : String} {value : AnyValue} {descriptor : μ}
    (hchecked : Checked pool declared value descriptor)
    (hexpected : canonicalTypeName expected = trimStartDots declared) :
    service.validateAny value expected = .ok () ↔ Fits pool value := by
  obtain ⟨hfound, hnamed, message, hdecode⟩ := hchecked
  obtain ⟨hne, hdot, -⟩ := hlaws.identifier _ _ hfound
  have hurl := anyTypeName_ok_iff hnamed hne hdot
  have hpayload := validatePayload_iff hlaws hpool (trimStartDots declared) hdecode
  have hfits : (∀ records, Encodes pool.schema (some descriptor) records value.value →
      FitsBudget valueShapeBudget .reject records) ↔ ∀ descriptor records,
      pool.getMessageByName (lastSegment value.typeUrl) = some descriptor →
      Encodes pool.schema (some descriptor) records value.value →
      FitsBudget valueShapeBudget .reject records := by
    rw [hnamed, hfound]
    constructor
    · intro h other records hother
      cases hother
      exact h records
    · exact fun h records => h descriptor records rfl
  rw [Fits, ← hurl, ← hfits, ← hpayload]
  subst hpool
  rw [CatalogService.validateAny, hexpected]
  constructor
  · intro h
    obtain ⟨actual, hactual, h⟩ := bind_ok.mp h
    have hsame : actual = trimStartDots declared := (anyTypeName_eq hactual).trans hnamed
    rw [if_neg (not_not.mpr hsame), hfound] at h
    exact ⟨⟨actual, hactual⟩, h⟩
  · rintro ⟨⟨actual, hactual⟩, h⟩
    refine bind_ok.mpr ⟨actual, hactual, ?_⟩
    have hsame : actual = trimStartDots declared := (anyTypeName_eq hactual).trans hnamed
    rw [if_neg (not_not.mpr hsame), hfound]
    exact h

/-- The input of a resource is a selector, read with or without a subscription. -/
def validateInput (service : CatalogService μ) (entry : CatalogEntry) (input : AnyValue)
    (subscribe : Bool) : Outcome InvocationContract :=
  match entry.kind with
  | some (.resource _) => service.validateRead entry.id input subscribe
  | _ => service.validateCall entry.id input

/-- The input of the example is accepted, and its output for the contract that this gives. -/
def Callable (service : CatalogService μ) (entry : CatalogEntry) (subscribe : Bool)
    (sample : Example) : Prop :=
  ∃ input output contract, sample.input = some input ∧ sample.output = some output ∧
    validateInput service entry input subscribe = .ok contract ∧
    service.validateOutput contract output = .ok ()

/-- A subscription is asked of resources that support it. -/
def Subscribable (entry : CatalogEntry) (subscribe : Bool) : Prop :=
  ∀ resource, entry.kind = some (.resource resource) → subscribe = true →
    resource.supportsSubscriptions = true

/-- Once the capability is found, the contract depends on the input's type alone. -/
theorem validateInput_eq {entry : CatalogEntry} (hentry : service.entry entry.id = .ok entry)
    {inputType outputType : String} (htypes : entry.types = some (inputType, outputType))
    {subscribe : Bool} (hsubscribe : Subscribable entry subscribe) (input : AnyValue) :
    ∃ kind mode, validateInput service entry input subscribe =
      (service.validateAny input inputType).bind fun _ =>
        .ok ⟨entry.id, kind, canonicalTypeName outputType, mode, service.revision⟩ := by
  have hbind : ∀ f : CatalogEntry → Outcome InvocationContract,
      (Except.ok entry >>= f) = f entry := fun _ => rfl
  rw [CatalogEntry.types] at htypes
  cases hkind : entry.kind with
  | none =>
    rw [hkind] at htypes
    cases htypes
  | some kind =>
    rw [hkind] at htypes
    cases kind with
    | topic => cases htypes
    | workflow workflow => cases htypes
    | resource resource =>
      cases htypes
      refine ⟨.resource, if subscribe then .subscription else .unary, ?_⟩
      have hallowed : (subscribe && !resource.supportsSubscriptions) = false := by
        cases subscribe with
        | false => rfl
        | true => rw [hsubscribe resource hkind rfl]; rfl
      rw [validateInput, hkind]
      simp only [CatalogService.validateRead, hentry, hbind, hkind, hallowed]
      rfl
    | function function =>
      cases htypes
      refine ⟨.function, .unary, ?_⟩
      rw [validateInput, hkind]
      simp only [CatalogService.validateCall, hentry, hbind, hkind]
      rfl

end

theorem fields_of_ok {μ : Type} {unicode : Unicode} {sha256 : List UInt8 → Hash}
    {catalog : Catalog} {descriptorPool : DescriptorPool μ} {schemaBundle : List UInt8}
    {catalogRevision : Hash} {cursorAuthority : CursorAuthority} {service : CatalogService μ}
    (h : CatalogService.withCursorAuthority unicode sha256 catalog descriptorPool schemaBundle
      catalogRevision cursorAuthority = .ok service) :
    service.catalog = catalog ∧ service.descriptorPool = descriptorPool := by
  obtain ⟨entries, -, h⟩ := bind_ok.mp h
  obtain ⟨children, -, h⟩ := bind_ok.mp h
  obtain ⟨_, -, h⟩ := bind_ok.mp h
  obtain ⟨hierarchy, -, h⟩ := bind_ok.mp h
  cases h
  exact ⟨rfl, rfl⟩

/-- An example of an accepted catalog can be called as it stands exactly when both its values have
a usable type URL and a payload within the limits. -/
theorem example_callable_iff {μ : Type} {pool : DescriptorPool μ} (hlaws : pool.Lawful)
    {catalog : Catalog} {manifestStoreId : String} {manifestInterface : InterfaceVersion}
    (haccepted : Package.validateCatalog pool catalog manifestStoreId manifestInterface = .ok ())
    {unicode : Unicode} {sha256 : List UInt8 → Hash} {schemaBundle : List UInt8}
    {catalogRevision : Hash} {cursorAuthority : CursorAuthority} {service : CatalogService μ}
    (hopen : CatalogService.withCursorAuthority unicode sha256 catalog pool schemaBundle
      catalogRevision cursorAuthority = .ok service)
    {entry : CatalogEntry} (hentry : entry ∈ catalog.entries)
    (hcapability : entry.types.isSome = true) {subscribe : Bool}
    (hsubscribe : Subscribable entry subscribe) {guidance : Guidance}
    (hguidance : entry.guidance = some guidance) {sample : Example}
    (hsample : sample ∈ guidance.examples) :
    Callable service entry subscribe sample ↔ ∃ input output,
      sample.input = some input ∧ sample.output = some output ∧ Fits pool input ∧
        Fits pool output := by
  obtain ⟨⟨inputType, outputType⟩, htypes⟩ := Option.isSome_iff_exists.mp hcapability
  obtain ⟨hcatalog, hpool⟩ := fields_of_ok hopen
  have hfound : service.entry entry.id = .ok entry :=
    (opened_of_ok hopen).entry_ok (hcatalog ▸ hentry)
  obtain ⟨input, output, inputDescriptor, outputDescriptor, hinput, houtput, hcheckedIn,
    hcheckedOut⟩ := Package.examples_checked hlaws haccepted hentry htypes hguidance sample hsample
  obtain ⟨hneIn, hdotIn, hspaceIn⟩ := hlaws.identifier _ _ hcheckedIn.found
  obtain ⟨hneOut, hdotOut, hspaceOut⟩ := hlaws.identifier _ _ hcheckedOut.found
  have hcanonicalIn := canonicalTypeName_eq (rfl : trimStartDots inputType = _) hspaceIn
  have hcanonicalOut := canonicalTypeName_eq (rfl : trimStartDots outputType = _) hspaceOut
  have hacceptIn := validateAny_iff hlaws hpool hcheckedIn hcanonicalIn
  -- The contract keeps the canonical name, which is put into canonical form once more.
  have hagain : canonicalTypeName (canonicalTypeName outputType) = trimStartDots outputType := by
    rw [hcanonicalOut, canonicalTypeName_self hdotOut hspaceOut]
  have hacceptOut := validateAny_iff hlaws hpool hcheckedOut hagain
  obtain ⟨kind, mode, hvalidate⟩ := validateInput_eq hfound htypes hsubscribe input
  constructor
  · rintro ⟨input', output', contract, hinput', houtput', hcontract, hvalidOutput⟩
    cases hinput.symm.trans hinput'
    cases houtput.symm.trans houtput'
    rw [hvalidate] at hcontract
    obtain ⟨_, hany, hcontract⟩ := Run.bind_eq_ok.mp hcontract
    cases hcontract
    rw [CatalogService.validateOutput, if_neg (not_not.mpr rfl)] at hvalidOutput
    exact ⟨input, output, hinput, houtput, hacceptIn.mp hany, hacceptOut.mp hvalidOutput⟩
  · rintro ⟨input', output', hinput', houtput', hfitsIn, hfitsOut⟩
    cases hinput.symm.trans hinput'
    cases houtput.symm.trans houtput'
    refine ⟨input, output, ⟨entry.id, kind, canonicalTypeName outputType, mode, service.revision⟩,
      hinput, houtput, ?_, ?_⟩
    · rw [hvalidate, hacceptIn.mpr hfitsIn]
      rfl
    · rw [CatalogService.validateOutput, if_neg (not_not.mpr rfl)]
      exact hacceptOut.mpr hfitsOut

namespace TestVectors

theorem calendarPool_lawful : calendarPool.Lawful := by
  have hname : ∀ name descriptor, calendarPool.getMessageByName name = some descriptor →
      name = "calendar.Range" := by
    intro name descriptor h
    by_contra hne
    exact nomatch (if_neg hne).symm.trans h
  constructor
  · exact fun name descriptor h => (hname name descriptor h).symm
  · intro name descriptor h
    rw [hname name descriptor h]
    have hspace : "calendar.Range".toList.all (fun c => !isWhiteSpace c) = true := by decide +kernel
    refine ⟨by decide, by decide, fun c hc => ?_⟩
    simpa using List.all_eq_true.mp hspace c hc
  · exact fun _ _ _ _ _ => ⟨rfl, rfl⟩
  · intro descriptor bytes value h
    have hempty : bytes = [] := by
      by_contra hne
      exact nomatch (if_neg hne).symm.trans h
    subst hempty
    cases h
    exact ⟨[], .nil, rfl⟩

/-- The example of the calendar, called without a subscription. -/
def CalendarCallable (typeUrl : String) : Prop :=
  Package.validateCatalog calendarPool (calendarCatalogWith typeUrl) "test.calendar" ⟨1, 0⟩ =
      .ok () ∧
    ∃ service, CatalogService.withCursorAuthority asciiTables foldHash (calendarCatalogWith typeUrl)
        calendarPool [] (.replicate 32 1) ⟨.replicate 32 2⟩ = .ok service ∧
      ∀ sample ∈ (listGuidance typeUrl).examples, Callable service (listFunction typeUrl) false sample

theorem example_callable_calendar : CalendarCallable "type.googleapis.com/calendar.Range" := by
  have haccepted : Package.validateCatalog calendarPool
      (calendarCatalogWith "type.googleapis.com/calendar.Range") "test.calendar" ⟨1, 0⟩ = .ok () := by
    decide +kernel
  obtain ⟨service, hopen⟩ := withCursorAuthority_ok asciiTables foldHash
    (Package.wellLinked_of_ok haccepted) calendarPool [] (.replicate 32 1) ⟨.replicate 32 2⟩
  have hfits : Fits calendarPool ⟨"type.googleapis.com/calendar.Range", []⟩ := by
    refine ⟨by decide +kernel, fun descriptor records _ hrecords => ?_⟩
    cases hrecords.unique .nil
    exact ⟨by decide, by decide, by decide, fun _ => rfl⟩
  have hentry : listFunction "type.googleapis.com/calendar.Range" ∈
      (calendarCatalogWith "type.googleapis.com/calendar.Range").entries :=
    .tail _ (.tail _ (.head _))
  have hsubscribe : Subscribable (listFunction "type.googleapis.com/calendar.Range") false :=
    fun _ _ h => nomatch h
  refine ⟨haccepted, service, hopen, fun sample hsample => ?_⟩
  refine (example_callable_iff calendarPool_lawful haccepted hopen hentry rfl hsubscribe rfl
    hsample).mpr ?_
  rw [listGuidance, List.mem_singleton] at hsample
  exact ⟨_, _, by rw [hsample], by rw [hsample], hfits, hfits⟩

/-- A type URL without a slash is enough for the package, and refused by the call. -/
theorem example_without_slash_refused :
    Package.validateCatalog calendarPool (calendarCatalogWith "calendar.Range") "test.calendar"
        ⟨1, 0⟩ = .ok () ∧
      ∃ service, CatalogService.withCursorAuthority asciiTables foldHash
          (calendarCatalogWith "calendar.Range") calendarPool [] (.replicate 32 1)
          ⟨.replicate 32 2⟩ = .ok service ∧
        service.validateCall "events.list" ⟨"calendar.Range", []⟩ =
          fail (.invalidTypeUrl "calendar.Range") := by
  refine ⟨by decide +kernel, ?_⟩
  have hrun : ((CatalogService.withCursorAuthority asciiTables foldHash
      (calendarCatalogWith "calendar.Range") calendarPool [] (.replicate 32 1)
      ⟨.replicate 32 2⟩).bind fun service =>
      match service.validateCall "events.list" ⟨"calendar.Range", []⟩ with
      | .error (.error (.invalidTypeUrl typeUrl)) => .ok typeUrl
      | _ => .error .panic) = .ok "calendar.Range" := by decide +kernel
  obtain ⟨service, hopen, hcall⟩ := Run.bind_eq_ok.mp hrun
  refine ⟨service, hopen, ?_⟩
  split at hcall
  · rename_i hresult
    cases hcall
    exact hresult
  · cases hcall

end TestVectors

end StoreCatalog
