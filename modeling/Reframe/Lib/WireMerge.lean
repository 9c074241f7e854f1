import Reframe.Lib.WireMessage

/-! What decoding makes of the records of a message. A decoded message is kept as records again:
one for each singular field that is set, one for each element of a list and one for each entry of
a map. A singular field that occurs again replaces its value, or is merged into it if it is a
message; setting a member of a oneof clears the others; a map keeps the last entry of a key. -/
namespace WireFormat

variable {μ : Type*}

/-- The type of the nested messages of a field, and how they are collected. -/
def Schema.nested (schema : Schema μ) (descriptor : μ) (number : ℕ) : Option (Cardinality × μ) :=
  match schema.field descriptor number with
  | some ⟨.message nested, cardinality, _⟩ => some (cardinality, nested)
  | _ => none

/-- The nested messages of a field, in order. -/
def messagesAt (number : ℕ) (records : List Record) : List (List Record) :=
  records.filterMap fun record =>
    match record with
    | .message other inner => if other = number then some inner else none
    | _ => none

/-- Setting a field of this oneof clears a field: the same one, or another member. -/
def Schema.clears (schema : Schema μ) (descriptor : μ) (oneof : Option ℕ) (number other : ℕ) :
    Bool :=
  other = number ||
    (oneof.isSome && (schema.field descriptor other).any fun field =>
      field.cardinality = .singular oneof)

/-- The value of a map key, as the decoder compares it. -/
def Kind.keyValue : Kind μ → Payload → Payload
  | .bool, .varint value => .varint (if value = 0 then 0 else 1)
  | .int32, .varint value | .uint32, .varint value | .sint32, .varint value =>
    .varint (value % 2 ^ 32)
  | _, payload => payload

def Kind.defaultPayload : Kind μ → Payload
  | .double | .fixed64 | .sfixed64 => .sixtyFourBit (List.replicate 8 0)
  | .float | .fixed32 | .sfixed32 => .thirtyTwoBit (List.replicate 4 0)
  | .string | .bytes | .message _ => .lengthDelimited []
  | _ => .varint 0

/-- The key of a decoded map entry: its field 1, or the default. -/
def Schema.entryKey (schema : Schema μ) (entry : μ) (records : List Record) : Payload :=
  let kind := ((schema.field entry 1).map FieldShape.kind).getD .int32
  let payload := records.findSome? fun record =>
    match record with
    | .scalar 1 payload => some payload
    | _ => none
  kind.keyValue (payload.getD kind.defaultPayload)

mutual

/-- Decode one record into a message. -/
def mergeRecord (schema : Schema μ) (descriptor : μ) (value : List Record) : Record → List Record
  | .scalar number payload =>
    match schema.field descriptor number with
    | some field =>
      match field.cardinality with
      | .singular oneof =>
        value.filter (fun other => !schema.clears descriptor oneof number other.number) ++
          [.scalar number payload]
      | .list => value ++ [.scalar number payload]
      | .map => value
    | none => value
  | .packed number elements => value ++ elements.map (.scalar number)
  | .message number inner =>
    match schema.nested descriptor number with
    | some (.singular oneof, nested) =>
      value.filter (fun other => !schema.clears descriptor oneof number other.number) ++
        [.message number (mergeRecords schema nested ((messagesAt number value).headD []) inner)]
    | some (.list, nested) => value ++ [.message number (mergeRecords schema nested [] inner)]
    | some (.map, nested) =>
      value.filter (fun other =>
        match other with
        | .message number' entry => !(number' = number &&
            schema.entryKey nested entry =
              schema.entryKey nested (mergeRecords schema nested [] inner))
        | _ => true) ++ [.message number (mergeRecords schema nested [] inner)]
    | none => value
  | .unknown _ _ | .unknownGroup _ _ => value

def mergeRecords (schema : Schema μ) (descriptor : μ) (value : List Record) :
    List Record → List Record
  | [] => value
  | record :: records =>
    mergeRecords schema descriptor (mergeRecord schema descriptor value record) records

end

theorem mergeRecords_eq_foldl (schema : Schema μ) (descriptor : μ) (records : List Record) :
    ∀ value, mergeRecords schema descriptor value records =
      records.foldl (mergeRecord schema descriptor) value := by
  induction records with
  | nil => intro value; rfl
  | cons record records ih => intro value; rw [mergeRecords, ih, List.foldl_cons]

/-- Decoding the second half goes on from what the first half gave. -/
theorem mergeRecords_append (schema : Schema μ) (descriptor : μ)
    (value records others : List Record) :
    mergeRecords schema descriptor value (records ++ others) =
      mergeRecords schema descriptor (mergeRecords schema descriptor value records) others := by
  simp only [mergeRecords_eq_foldl, List.foldl_append]

/-! Which occurrences of nested messages are merged into one. An instance is given by its parts:
the occurrences that are decoded into it, in order. -/

/-- The decoded message of some parts. -/
def mergeParts (schema : Schema μ) (descriptor : μ) (parts : List (List Record)) : List Record :=
  mergeRecords schema descriptor [] parts.flatten

theorem mergeParts_concat (schema : Schema μ) (descriptor : μ) (parts : List (List Record))
    (part : List Record) :
    mergeParts schema descriptor (parts ++ [part]) =
      mergeRecords schema descriptor (mergeParts schema descriptor parts) part := by
  simp [mergeParts, mergeRecords_append]

/-- Setting a singular field may clear the instances of another one. -/
def keepInstances (schema : Schema μ) (descriptor : μ) (number setter : ℕ)
    (instances : List (List (List Record))) : List (List (List Record)) :=
  match schema.field descriptor setter with
  | some field =>
    match field.cardinality with
    | .singular oneof =>
      if schema.clears descriptor oneof setter number then [] else instances
    | _ => instances
  | none => instances

/-- The instances of a field after one more occurrence of it: it joins the one there is, stands
alone, or takes the place of the entry with its key. -/
def gatherMessage (schema : Schema μ) (descriptor : μ) (number : ℕ)
    (instances : List (List (List Record))) (inner : List Record) : List (List (List Record)) :=
  match schema.nested descriptor number with
  | some (.singular _, _) => [instances.headD [] ++ [inner]]
  | some (.list, _) => instances ++ [[inner]]
  | some (.map, nested) =>
    instances.filter (fun parts =>
      schema.entryKey nested (mergeParts schema nested parts) ≠
        schema.entryKey nested (mergeParts schema nested [inner])) ++ [[inner]]
  | none => instances

/-- The instances of a field's nested messages after one more record. -/
def gather (schema : Schema μ) (descriptor : μ) (number : ℕ)
    (instances : List (List (List Record))) : Record → List (List (List Record))
  | .scalar setter _ => keepInstances schema descriptor number setter instances
  | .message setter inner =>
    if setter = number then gatherMessage schema descriptor number instances inner
    else if (schema.nested descriptor setter).isSome then
      keepInstances schema descriptor number setter instances
    else instances
  | .packed _ _ | .unknown _ _ | .unknownGroup _ _ => instances

/-- The instances of a field's nested messages in a decoded message. -/
def instancesAt (schema : Schema μ) (descriptor : μ) (number : ℕ) (records : List Record) :
    List (List (List Record)) :=
  records.foldl (gather schema descriptor number) []

theorem messagesAt_append (number : ℕ) (records others : List Record) :
    messagesAt number (records ++ others) = messagesAt number records ++ messagesAt number others :=
  List.filterMap_append

/-- Filtering the records filters the nested messages. -/
theorem messagesAt_filter_inner {number : ℕ} {q : Record → Bool} {records : List Record} :
    messagesAt number (records.filter q) =
      (messagesAt number records).filter fun inner => q (.message number inner) := by
  rw [messagesAt, messagesAt, List.filterMap_filter, List.filter_filterMap]
  congr 1
  funext record
  cases record with
  | message other inner =>
    by_cases hother : other = number
    · subst hother
      simp [Option.filter]
    · simp [hother]
  | _ => simp

theorem messagesAt_filter (number : ℕ) (q : ℕ → Bool) (records : List Record) :
    messagesAt number (records.filter fun record => !q record.number) =
      if q number then [] else messagesAt number records := by
  rw [messagesAt_filter_inner]
  cases hq : q number <;> simp [Record.number, hq]

theorem mem_messagesAt {number : ℕ} {inner : List Record} {records : List Record} :
    inner ∈ messagesAt number records ↔ .message number inner ∈ records := by
  rw [messagesAt, List.mem_filterMap]
  constructor
  · rintro ⟨record, hmem, heq⟩
    cases record with
    | message other inner' =>
      simp only [Option.ite_none_right_eq_some, Option.some.injEq] at heq
      obtain ⟨rfl, rfl⟩ := heq
      exact hmem
    | _ => cases heq
  · intro hmem
    exact ⟨_, hmem, by simp⟩

/-- A singular field that is set: other fields keep their instances unless they are cleared. -/
theorem messagesAt_set {schema : Schema μ} {descriptor : μ} {number setter : ℕ}
    {field : FieldShape μ} {oneof : Option ℕ} {value : List Record}
    {instances : List (List (List Record))} {decode : List (List Record) → List Record}
    (hfield : schema.field descriptor setter = some field)
    (hcardinality : field.cardinality = .singular oneof)
    (h : messagesAt number value = instances.map decode) :
    messagesAt number
        (value.filter fun other => !schema.clears descriptor oneof setter other.number) =
      (keepInstances schema descriptor number setter instances).map decode := by
  rw [messagesAt_filter number (schema.clears descriptor oneof setter), keepInstances, hfield]
  simp only [hcardinality]
  split
  · rfl
  · exact h

theorem nested_eq_some {schema : Schema μ} {descriptor nested : μ} {number : ℕ}
    {cardinality : Cardinality} :
    schema.nested descriptor number = some (cardinality, nested) ↔
      ∃ field, schema.field descriptor number = some field ∧ field.kind = .message nested ∧
        field.cardinality = cardinality := by
  unfold Schema.nested
  cases hfield : schema.field descriptor number with
  | none => simp
  | some field =>
    obtain ⟨kind, cardinality', group⟩ := field
    cases kind <;> simp [and_comm]

/-- The decoded nested messages follow the instances when the field itself occurs. -/
theorem messagesAt_mergeMessage {schema : Schema μ} {descriptor nested : μ} {number : ℕ}
    {cardinality : Cardinality}
    (hnested : schema.nested descriptor number = some (cardinality, nested))
    {value : List Record} {instances : List (List (List Record))}
    (h : messagesAt number value = instances.map (mergeParts schema nested))
    (inner : List Record) :
    messagesAt number (mergeRecord schema descriptor value (.message number inner)) =
      (gatherMessage schema descriptor number instances inner).map (mergeParts schema nested) := by
  have hlast : ∀ inner', messagesAt number [.message number inner'] = [inner'] := by
    simp [messagesAt]
  have hone : mergeParts schema nested [inner] = mergeRecords schema nested [] inner := by
    simp [mergeParts]
  unfold mergeRecord gatherMessage
  rw [hnested]
  cases cardinality with
  | singular oneof =>
    dsimp only
    have hhead : (messagesAt number value).headD [] =
        mergeParts schema nested (instances.headD []) := by
      rw [h]
      cases instances with
      | nil => simp [mergeParts, mergeRecords]
      | cons parts rest => rfl
    rw [messagesAt_append, messagesAt_filter number (schema.clears descriptor oneof number),
      if_pos (by simp [Schema.clears]), hlast, List.nil_append, hhead, List.map_singleton,
      mergeParts_concat]
  | list =>
    dsimp only
    rw [messagesAt_append, hlast, h, List.map_append, List.map_singleton, hone]
  | map =>
    dsimp only
    rw [messagesAt_append, hlast, messagesAt_filter_inner, h, List.map_append,
      List.map_singleton, hone, List.filter_map]
    simp [Function.comp_def]

/-- The decoded nested messages follow the instances, one record at a time. -/
theorem messagesAt_mergeRecord {schema : Schema μ} {descriptor nested : μ} {number : ℕ}
    {cardinality : Cardinality}
    (hnested : schema.nested descriptor number = some (cardinality, nested))
    {value : List Record} {instances : List (List (List Record))}
    (h : messagesAt number value = instances.map (mergeParts schema nested)) (record : Record) :
    messagesAt number (mergeRecord schema descriptor value record) =
      (gather schema descriptor number instances record).map (mergeParts schema nested) := by
  cases record with
  | scalar setter payload =>
    rw [gather, mergeRecord]
    cases hsetter : schema.field descriptor setter with
    | none => simpa [keepInstances, hsetter] using h
    | some field' =>
      dsimp only
      cases hcard : field'.cardinality with
      | singular oneof =>
        rw [messagesAt_append, messagesAt_set hsetter hcard h]
        exact List.append_nil _
      | list =>
        rw [messagesAt_append, keepInstances, hsetter]
        simpa [hcard, messagesAt] using h
      | map => simpa [keepInstances, hsetter, hcard] using h
  | packed setter elements =>
    have hnone : messagesAt number (elements.map (.scalar setter)) = [] := by
      simp [messagesAt, List.filterMap_map]
    rw [gather, mergeRecord, messagesAt_append, h, hnone, List.append_nil]
  | message setter inner =>
    by_cases hsame : setter = number
    · subst hsame
      simp only [gather, if_true]
      exact messagesAt_mergeMessage hnested h inner
    · simp only [gather, if_neg hsame]
      rw [mergeRecord]
      cases hother : schema.nested descriptor setter with
      | none => simpa using h
      | some other =>
        obtain ⟨cardinality', nested'⟩ := other
        obtain ⟨field', hfield', -, hcard⟩ := nested_eq_some.mp hother
        have hlast : ∀ inner', messagesAt number [.message setter inner'] = [] := by
          simp [messagesAt, hsame]
        simp only [Option.isSome_some, if_true]
        cases cardinality' with
        | singular oneof =>
          dsimp only
          rw [messagesAt_append, messagesAt_set hfield' hcard h, hlast, List.append_nil]
        | list =>
          dsimp only
          rw [messagesAt_append, hlast, List.append_nil, keepInstances, hfield']
          simpa [hcard] using h
        | map =>
          dsimp only
          rw [messagesAt_append, hlast, List.append_nil, messagesAt_filter_inner, h,
            keepInstances, hfield']
          simp [hcard, Ne.symm hsame]
  | unknown setter payload => simpa [gather, mergeRecord] using h
  | unknownGroup setter inner => simpa [gather, mergeRecord] using h

/-- The nested messages of a decoded message are its instances. -/
theorem messagesAt_mergeRecords {schema : Schema μ} {descriptor nested : μ} {number : ℕ}
    {cardinality : Cardinality}
    (hnested : schema.nested descriptor number = some (cardinality, nested))
    (records : List Record) :
    messagesAt number (mergeRecords schema descriptor [] records) =
      (instancesAt schema descriptor number records).map (mergeParts schema nested) := by
  have hfold : ∀ (value : List Record) (instances : List (List (List Record))),
      messagesAt number value = instances.map (mergeParts schema nested) →
        messagesAt number (records.foldl (mergeRecord schema descriptor) value) =
          (records.foldl (gather schema descriptor number) instances).map
            (mergeParts schema nested) := by
    induction records with
    | nil => intro value instances h; exact h
    | cons record records ih =>
      intro value instances h
      exact ih _ _ (messagesAt_mergeRecord hnested h record)
  rw [mergeRecords_eq_foldl]
  exact hfold [] [] rfl

/-- Every instance has parts, and these satisfy the property. -/
def AllParts (P : List Record → Prop) (instances : List (List (List Record))) : Prop :=
  ∀ parts ∈ instances, parts ≠ [] ∧ ∀ part ∈ parts, P part

theorem AllParts.append {P : List Record → Prop} {instances : List (List (List Record))}
    {parts : List (List Record)} (h : AllParts P instances) (hne : parts ≠ [])
    (hparts : ∀ part ∈ parts, P part) : AllParts P (instances ++ [parts]) := by
  intro parts' hmem
  rcases List.mem_append.mp hmem with hold | hnew
  · exact h parts' hold
  · rw [List.mem_singleton.mp hnew]
    exact ⟨hne, hparts⟩

theorem AllParts.keep {P : List Record → Prop} {instances : List (List (List Record))}
    (h : AllParts P instances) (schema : Schema μ) (descriptor : μ) (number setter : ℕ) :
    AllParts P (keepInstances schema descriptor number setter instances) := by
  unfold keepInstances
  split
  · split
    · split
      · intro parts hmem
        cases hmem
      · exact h
    · exact h
  · exact h

theorem AllParts.gatherMessage {P : List Record → Prop} {instances : List (List (List Record))}
    (h : AllParts P instances) (schema : Schema μ) (descriptor : μ) (number : ℕ)
    {inner : List Record} (hinner : P inner) :
    AllParts P (gatherMessage schema descriptor number instances inner) := by
  have hone : ∀ part ∈ [inner], P part := by simpa using hinner
  unfold WireFormat.gatherMessage
  split
  · intro parts hmem
    rw [List.mem_singleton.mp hmem]
    refine ⟨by simp, ?_⟩
    intro part hpart
    rcases List.mem_append.mp hpart with hold | hnew
    · cases instances with
      | nil => cases hold
      | cons parts rest => exact (h parts List.mem_cons_self).2 part hold
    · exact hone part hnew
  · exact h.append (by simp) hone
  · exact AllParts.append (fun parts hmem => h parts (List.mem_of_mem_filter hmem)) (by simp) hone
  · exact h

/-- The parts of an instance are occurrences of the field on the wire. -/
theorem allParts_instancesAt (schema : Schema μ) (descriptor : μ) (number : ℕ)
    (records : List Record) :
    AllParts (fun part => .message number part ∈ records)
      (instancesAt schema descriptor number records) := by
  have hfold : ∀ (rest : List Record) (instances : List (List (List Record))),
      (∀ record ∈ rest, record ∈ records) →
        AllParts (fun part => .message number part ∈ records) instances →
          AllParts (fun part => .message number part ∈ records)
            (rest.foldl (gather schema descriptor number) instances) := by
    intro rest
    induction rest with
    | nil => intro instances _ h; exact h
    | cons record rest ih =>
      intro instances hrest h
      have hrecord := hrest record List.mem_cons_self
      apply ih _ fun other hmem => hrest other (List.mem_cons_of_mem _ hmem)
      cases record with
      | scalar setter payload => exact h.keep schema descriptor number setter
      | message setter inner =>
        simp only [gather]
        split <;> rename_i hsetter
        · subst hsetter
          exact h.gatherMessage schema descriptor setter hrecord
        · split
          · exact h.keep schema descriptor number setter
          · exact h
      | packed setter elements => exact h
      | unknown setter payload => exact h
      | unknownGroup setter inner => exact h
  exact hfold records [] (fun _ hmem => hmem) fun _ hmem => (by cases hmem)

/-- The instances of a decoded message, itself included: its parts and the parts of each. -/
inductive Joins (schema : Schema μ) :
    μ → List (List Record) → μ → List (List Record) → Prop where
  | here {descriptor : μ} {parts : List (List Record)} : Joins schema descriptor parts descriptor parts
  | inside {descriptor nested other : μ} {number : ℕ} {cardinality : Cardinality}
      {parts inner joined : List (List Record)}
      (hnested : schema.nested descriptor number = some (cardinality, nested))
      (hmem : inner ∈ instancesAt schema descriptor number parts.flatten)
      (hinner : Joins schema nested inner other joined) :
    Joins schema descriptor parts other joined

/-- The message occurrences of a decoded message are the decoded instances. -/
theorem occurs_mergeParts_iff {schema : Schema μ} {descriptor other : μ}
    {parts : List (List Record)} {occurrence : List Record} :
    Occurs schema descriptor (mergeParts schema descriptor parts) other occurrence ↔
      ∃ joined, Joins schema descriptor parts other joined ∧
        occurrence = mergeParts schema other joined := by
  constructor
  · intro h
    generalize hvalue : mergeParts schema descriptor parts = value at h
    induction h generalizing parts with
    | here => exact ⟨parts, .here, hvalue.symm⟩
    | inside hmem hfield hkind _ ih =>
      subst hvalue
      have hnested := nested_eq_some.mpr ⟨_, hfield, hkind, rfl⟩
      rw [← mem_messagesAt, mergeParts, messagesAt_mergeRecords hnested] at hmem
      obtain ⟨inner, hinner, heq⟩ := List.mem_map.mp hmem
      obtain ⟨joined, hjoined, hoccurrence⟩ := ih heq
      exact ⟨joined, .inside hnested hinner hjoined, hoccurrence⟩
  · rintro ⟨joined, hjoined, rfl⟩
    induction hjoined with
    | here => exact .here
    | @inside descriptor nested other number cardinality parts inner joined hnested hmem _ ih =>
      obtain ⟨field, hfield, hkind, -⟩ := nested_eq_some.mp hnested
      refine .inside ?_ hfield hkind ih
      rw [← mem_messagesAt, mergeParts, messagesAt_mergeRecords hnested]
      exact List.mem_map_of_mem hmem

theorem Occurs.snoc {schema : Schema μ} {descriptor middle other : μ} {number : ℕ}
    {cardinality : Cardinality} {records occurrence inner : List Record}
    (h : Occurs schema descriptor records middle occurrence)
    (hmem : .message number inner ∈ occurrence)
    (hnested : schema.nested middle number = some (cardinality, other)) :
    Occurs schema descriptor records other inner := by
  obtain ⟨field, hfield, hkind, -⟩ := nested_eq_some.mp hnested
  induction h with
  | here => exact .inside hmem hfield hkind .here
  | inside hmem' hfield' hkind' _ ih => exact .inside hmem' hfield' hkind' (ih hmem hnested hfield)

/-- The parts of an instance are message occurrences on the wire. -/
theorem Joins.occurs {schema : Schema μ} {root descriptor other : μ} {wire : List Record}
    {parts joined : List (List Record)} (h : Joins schema descriptor parts other joined)
    (hne : parts ≠ []) (hparts : ∀ part ∈ parts, Occurs schema root wire descriptor part) :
    joined ≠ [] ∧ ∀ part ∈ joined, Occurs schema root wire other part := by
  induction h with
  | here => exact ⟨hne, hparts⟩
  | @inside descriptor nested other number cardinality parts inner joined hnested hmem _ ih =>
    obtain ⟨hne', hinner⟩ := allParts_instancesAt schema descriptor number parts.flatten inner hmem
    refine ih hne' fun part hpart => ?_
    obtain ⟨outer, houter, hrecord⟩ := List.mem_flatten.mp (hinner part hpart)
    exact (hparts outer houter).snoc hrecord hnested

/-! Decoding drops no element of a list. -/

theorem countOf_append (number : ℕ) (records others : List Record) :
    countOf number (records ++ others) = countOf number records + countOf number others := by
  simp [countOf]

theorem countOf_flatten (number : ℕ) (parts : List (List Record)) :
    countOf number parts.flatten = (parts.map (countOf number)).sum := by
  induction parts with
  | nil => rfl
  | cons part parts ih => rw [List.flatten_cons, countOf_append, ih, List.map_cons, List.sum_cons]

theorem countOf_filter {number : ℕ} {q : Record → Bool} {records : List Record}
    (hkeep : ∀ record : Record, record.number = number → q record = true) :
    countOf number (records.filter q) = countOf number records := by
  induction records with
  | nil => rfl
  | cons record records ih =>
    rw [List.filter_cons, countOf_cons]
    split <;> rename_i hq
    · rw [countOf_cons, ih]
    · have hother : record.number ≠ number := fun heq => hq (hkeep record heq)
      rw [if_neg hother, ih, Nat.zero_add]

theorem countOf_elements (number : ℕ) (elements : List Payload) (setter : ℕ) :
    countOf number (elements.map (.scalar setter)) = countOf number [.packed setter elements] := by
  induction elements with
  | nil => simp [countOf, Record.elements]
  | cons element elements ih =>
    rw [List.map_cons, countOf_cons, ih]
    by_cases hsetter : setter = number
    · simp [countOf, Record.number, Record.elements, hsetter, Nat.add_comm]
    · simp [countOf, Record.number, hsetter]

/-- The record has the form that the schema asks for in a message of this type. -/
def Record.Typed (schema : Schema μ) (descriptor : μ) : Record → Prop
  | .scalar number _ => (schema.field descriptor number).isSome
  | .packed _ _ => True
  | .message number _ => (schema.nested descriptor number).isSome
  | .unknown number _ | .unknownGroup number _ => schema.field descriptor number = none

theorem Encodes.typed {schema : Schema μ} {context : Option μ} {records : List Record}
    {bytes : List UInt8} (h : Encodes schema context records bytes) :
    ∀ descriptor, context = some descriptor →
      ∀ record ∈ records, record.Typed schema descriptor := by
  induction h with
  | nil =>
    intro descriptor _ record hmem
    cases hmem
  | scalar hfield htype hkey hbytes hrest ih =>
    rintro _ ⟨⟩
    refine List.forall_mem_cons.mpr ⟨?_, ih _ rfl⟩
    simp [Record.Typed, hfield]
  | packed hfield hlist hpackable htypes hkey hbody hbytes hrest ih =>
    rintro _ ⟨⟩
    exact List.forall_mem_cons.mpr ⟨trivial, ih _ rfl⟩
  | message hfield hkind hgroup hkey hbody hbytes hrest _ ih =>
    rintro _ ⟨⟩
    refine List.forall_mem_cons.mpr ⟨?_, ih _ rfl⟩
    rw [Record.Typed, nested_eq_some.mpr ⟨_, hfield, hkind, rfl⟩]
    rfl
  | group hfield hkind hgroup hkey hbody hclose hrest _ ih =>
    rintro _ ⟨⟩
    refine List.forall_mem_cons.mpr ⟨?_, ih _ rfl⟩
    rw [Record.Typed, nested_eq_some.mpr ⟨_, hfield, hkind, rfl⟩]
    rfl
  | unknown hfield hkey hbytes hrest ih =>
    intro descriptor hcontext
    exact List.forall_mem_cons.mpr ⟨hfield descriptor hcontext, ih descriptor hcontext⟩
  | unknownGroup hfield hkey hbody hclose hrest _ ih =>
    intro descriptor hcontext
    exact List.forall_mem_cons.mpr ⟨hfield descriptor hcontext, ih descriptor hcontext⟩

/-- The nested messages of an encoding are encodings themselves. -/
theorem Encodes.nested {schema : Schema μ} {context : Option μ} {records inner : List Record}
    {bytes : List UInt8} {number : ℕ} {field : FieldShape μ} {descriptor nested : μ}
    (h : Encodes schema context records bytes) (hcontext : context = some descriptor)
    (hmem : .message number inner ∈ records)
    (hfield : schema.field descriptor number = some field) (hkind : field.kind = .message nested) :
    ∃ body, Encodes schema (some nested) inner body := by
  induction h with
  | nil => cases hmem
  | scalar _ _ _ _ _ ih => exact ih hcontext ((List.mem_cons.mp hmem).resolve_left (by simp))
  | packed _ _ _ _ _ _ _ _ ih =>
    exact ih hcontext ((List.mem_cons.mp hmem).resolve_left (by simp))
  | unknown _ _ _ _ ih => exact ih hcontext ((List.mem_cons.mp hmem).resolve_left (by simp))
  | unknownGroup _ _ _ _ _ _ ih =>
    exact ih hcontext ((List.mem_cons.mp hmem).resolve_left (by simp))
  | message hfield' hkind' _ _ hbody _ _ _ ih =>
    rcases List.mem_cons.mp hmem with heq | htail
    · cases heq
      cases hcontext
      rw [hfield'] at hfield
      cases hfield
      rw [hkind'] at hkind
      cases hkind
      exact ⟨_, hbody⟩
    · exact ih hcontext htail
  | group hfield' hkind' _ _ hbody _ _ _ ih =>
    rcases List.mem_cons.mp hmem with heq | htail
    · cases heq
      cases hcontext
      rw [hfield'] at hfield
      cases hfield
      rw [hkind'] at hkind
      cases hkind
      exact ⟨_, hbody⟩
    · exact ih hcontext htail

/-- Every message occurrence of an encoding has records of the right form. -/
theorem Encodes.occurs_typed {schema : Schema μ} {descriptor other : μ}
    {records occurrence : List Record} {bytes : List UInt8}
    (h : Encodes schema (some descriptor) records bytes)
    (hoccurs : Occurs schema descriptor records other occurrence) :
    ∀ record ∈ occurrence, record.Typed schema other := by
  induction hoccurs generalizing bytes with
  | here => exact h.typed _ rfl
  | inside hmem hfield hkind _ ih =>
    obtain ⟨body, hbody⟩ := h.nested rfl hmem hfield hkind
    exact ih hbody

theorem ne_of_cardinality_ne {schema : Schema μ} {descriptor : μ} {number setter : ℕ}
    {field field' : FieldShape μ} (hfield : schema.field descriptor number = some field)
    (hset : schema.field descriptor setter = some field')
    (hne : field'.cardinality ≠ field.cardinality) : setter ≠ number := by
  rintro rfl
  rw [hfield] at hset
  cases hset
  exact hne rfl

/-- Setting a singular field clears no element of a list. -/
theorem countOf_clears {schema : Schema μ} {descriptor : μ} {number setter : ℕ}
    {field field' : FieldShape μ} {oneof : Option ℕ} (value : List Record)
    (hlist : schema.field descriptor number = some field) (hcard : field.cardinality = .list)
    (hset : schema.field descriptor setter = some field')
    (hcard' : field'.cardinality = .singular oneof) :
    setter ≠ number ∧
      countOf number
          (value.filter fun other => !schema.clears descriptor oneof setter other.number) =
        countOf number value := by
  have hne := ne_of_cardinality_ne hlist hset (by simp [hcard, hcard'])
  refine ⟨hne, countOf_filter ?_⟩
  rintro record rfl
  simp [Schema.clears, Ne.symm hne, hlist, hcard]

theorem countOf_mergeRecord {schema : Schema μ} {descriptor : μ} {number : ℕ}
    {field : FieldShape μ} (hlist : schema.field descriptor number = some field)
    (hcard : field.cardinality = .list) (value : List Record) {record : Record}
    (htyped : record.Typed schema descriptor) :
    countOf number (mergeRecord schema descriptor value record) =
      countOf number value + countOf number [record] := by
  cases record with
  | scalar setter payload =>
    obtain ⟨field', hset⟩ := Option.isSome_iff_exists.mp htyped
    rw [mergeRecord, hset]
    dsimp only
    cases hcard' : field'.cardinality with
    | singular oneof =>
      rw [countOf_append, (countOf_clears value hlist hcard hset hcard').2]
    | list => exact countOf_append number value _
    | map =>
      have hne := ne_of_cardinality_ne hlist hset (by simp [hcard, hcard'])
      simp [countOf, Record.number, hne]
  | packed setter elements => rw [mergeRecord, countOf_append, countOf_elements]
  | message setter inner =>
    obtain ⟨⟨cardinality, nested⟩, hnested⟩ := Option.isSome_iff_exists.mp htyped
    obtain ⟨field', hset, -, hcard'⟩ := nested_eq_some.mp hnested
    have hsame : ∀ inner', countOf number [.message setter inner'] =
        countOf number [.message setter inner] := fun _ => rfl
    rw [mergeRecord, hnested]
    cases cardinality with
    | singular oneof =>
      dsimp only
      rw [countOf_append, (countOf_clears value hlist hcard hset hcard').2, hsame]
    | list => exact countOf_append number value _
    | map =>
      have hne := ne_of_cardinality_ne hlist hset (by simp [hcard, hcard'])
      dsimp only
      rw [countOf_append, countOf_filter, hsame]
      rintro other rfl
      cases other with
      | message number' entry =>
        have hother : number' ≠ setter := Ne.symm hne
        simp [hother]
      | _ => rfl
  | unknown setter payload =>
    have hne : setter ≠ number := by
      rintro rfl
      rw [Record.Typed, hlist] at htyped
      cases htyped
    simp [mergeRecord, countOf, Record.number, hne]
  | unknownGroup setter inner =>
    have hne : setter ≠ number := by
      rintro rfl
      rw [Record.Typed, hlist] at htyped
      cases htyped
    simp [mergeRecord, countOf, Record.number, hne]

/-- An instance has the elements of all its parts. -/
theorem countOf_mergeParts {schema : Schema μ} {descriptor : μ} {number : ℕ}
    {field : FieldShape μ} (hlist : schema.field descriptor number = some field)
    (hcard : field.cardinality = .list) {parts : List (List Record)}
    (htyped : ∀ part ∈ parts, ∀ record ∈ part, record.Typed schema descriptor) :
    countOf number (mergeParts schema descriptor parts) = (parts.map (countOf number)).sum := by
  have hfold : ∀ (records value : List Record),
      (∀ record ∈ records, record.Typed schema descriptor) →
        countOf number (records.foldl (mergeRecord schema descriptor) value) =
          countOf number value + countOf number records := by
    intro records
    induction records with
    | nil => intro value _; rfl
    | cons record records ih =>
      intro value h
      rw [List.forall_mem_cons] at h
      rw [List.foldl_cons, ih _ h.2, countOf_mergeRecord hlist hcard value h.1, Nat.add_assoc,
        ← countOf_append, List.singleton_append]
  rw [mergeParts, mergeRecords_eq_foldl, hfold, ← countOf_flatten]
  · exact Nat.zero_add _
  · intro record hmem
    obtain ⟨part, hpart, hrecord⟩ := List.mem_flatten.mp hmem
    exact htyped part hpart record hrecord

/-- The value of a message, unless the decoder refuses it for reasons of its own: text that is
not UTF-8, too many levels. -/
def decode (accepts : List Record → Bool) (schema : Schema μ) (descriptor : μ)
    (wire : List Record) : Option (List Record) :=
  if accepts wire then some (mergeRecords schema descriptor [] wire) else none

end WireFormat
