import Reframe.Lib.WireFormat

/-! Messages on the wire: which records a byte string holds when it is read with a schema. A
message is a list of records; nested messages and groups are records that hold records again. -/
namespace WireFormat

/-- The type of a field's values, for message types named by `μ`. -/
inductive Kind (μ : Type*) where
  | double
  | float
  | int32
  | int64
  | uint32
  | uint64
  | sint32
  | sint64
  | fixed32
  | fixed64
  | sfixed32
  | sfixed64
  | bool
  | string
  | bytes
  | message (descriptor : μ)
  | enum
  deriving DecidableEq, Repr

/-- A singular field may be the member of a oneof; lists and maps never are. -/
inductive Cardinality where
  | singular (oneof : Option ℕ)
  | list
  | map
  deriving DecidableEq, Repr

structure FieldShape (μ : Type*) where
  kind : Kind μ
  cardinality : Cardinality
  isGroup : Bool
  deriving DecidableEq, Repr

def FieldShape.isList {μ : Type*} (field : FieldShape μ) : Bool := field.cardinality = .list

structure Schema (μ : Type*) where
  fullName : μ → String
  getField : μ → ℕ → Option (FieldShape μ)
  getExtension : μ → ℕ → Option (FieldShape μ)

def Schema.field {μ : Type*} (schema : Schema μ) (descriptor : μ) (number : ℕ) :
    Option (FieldShape μ) :=
  (schema.getField descriptor number).or (schema.getExtension descriptor number)

/-- The wire type of a value that is not a message. -/
def Kind.scalarType {μ : Type*} : Kind μ → Option WireType
  | .double | .fixed64 | .sfixed64 => some .sixtyFourBit
  | .float | .fixed32 | .sfixed32 => some .thirtyTwoBit
  | .int32 | .int64 | .uint32 | .uint64 | .sint32 | .sint64 | .bool | .enum => some .varint
  | .string | .bytes => some .lengthDelimited
  | .message _ => none

def Kind.isPackable {μ : Type*} : Kind μ → Bool
  | .string | .bytes | .message _ => false
  | _ => true

/-- One record of a message. `message` is a nested message, length-delimited or a group;
`unknown` and `unknownGroup` have a number that the schema does not know. -/
inductive Record where
  | scalar (number : ℕ) (payload : Payload)
  | packed (number : ℕ) (elements : List Payload)
  | message (number : ℕ) (records : List Record)
  | unknown (number : ℕ) (payload : Payload)
  | unknownGroup (number : ℕ) (records : List Record)

/-- The encodings of packed elements, one after the other. -/
inductive Packed : List Payload → List UInt8 → Prop where
  | nil : Packed [] []
  | cons {element : Payload} {elements : List Payload} {bytes rest : List UInt8}
      (hhead : element.Encodes bytes) (hrest : Packed elements rest) :
    Packed (element :: elements) (bytes ++ rest)

/-- The bytes are a well-formed encoding of the records: of a message of the given type, or of an
unknown group (`none`), whose records have no types. -/
inductive Encodes {μ : Type*} (schema : Schema μ) :
    Option μ → List Record → List UInt8 → Prop where
  | nil {context : Option μ} : Encodes schema context [] []
  | scalar {descriptor : μ} {number : ℕ} {field : FieldShape μ} {payload : Payload}
      {records : List Record} {key bytes rest : List UInt8}
      (hfield : schema.field descriptor number = some field)
      (htype : field.kind.scalarType = some payload.wireType)
      (hkey : Key key number payload.wireType) (hbytes : payload.Encodes bytes)
      (hrest : Encodes schema (some descriptor) records rest) :
    Encodes schema (some descriptor) (.scalar number payload :: records) (key ++ bytes ++ rest)
  | packed {descriptor : μ} {number : ℕ} {field : FieldShape μ} {elements : List Payload}
      {records : List Record} {key body bytes rest : List UInt8}
      (hfield : schema.field descriptor number = some field) (hlist : field.isList = true)
      (hpackable : field.kind.isPackable = true)
      (htypes : ∀ element ∈ elements, field.kind.scalarType = some element.wireType)
      (hkey : Key key number .lengthDelimited) (hbody : Packed elements body)
      (hbytes : Delimited body bytes) (hrest : Encodes schema (some descriptor) records rest) :
    Encodes schema (some descriptor) (.packed number elements :: records) (key ++ bytes ++ rest)
  | message {descriptor nested : μ} {number : ℕ} {field : FieldShape μ} {inner records : List Record}
      {key body bytes rest : List UInt8}
      (hfield : schema.field descriptor number = some field)
      (hkind : field.kind = .message nested) (hgroup : field.isGroup = false)
      (hkey : Key key number .lengthDelimited) (hbody : Encodes schema (some nested) inner body)
      (hbytes : Delimited body bytes) (hrest : Encodes schema (some descriptor) records rest) :
    Encodes schema (some descriptor) (.message number inner :: records) (key ++ bytes ++ rest)
  | group {descriptor nested : μ} {number : ℕ} {field : FieldShape μ} {inner records : List Record}
      {key body close rest : List UInt8}
      (hfield : schema.field descriptor number = some field)
      (hkind : field.kind = .message nested) (hgroup : field.isGroup = true)
      (hkey : Key key number .startGroup) (hbody : Encodes schema (some nested) inner body)
      (hclose : Key close number .endGroup)
      (hrest : Encodes schema (some descriptor) records rest) :
    Encodes schema (some descriptor) (.message number inner :: records)
      (key ++ (body ++ close) ++ rest)
  | unknown {context : Option μ} {number : ℕ} {payload : Payload} {records : List Record}
      {key bytes rest : List UInt8}
      (hfield : ∀ descriptor ∈ context, schema.field descriptor number = none)
      (hkey : Key key number payload.wireType) (hbytes : payload.Encodes bytes)
      (hrest : Encodes schema context records rest) :
    Encodes schema context (.unknown number payload :: records) (key ++ bytes ++ rest)
  | unknownGroup {context : Option μ} {number : ℕ} {inner records : List Record}
      {key body close rest : List UInt8}
      (hfield : ∀ descriptor ∈ context, schema.field descriptor number = none)
      (hkey : Key key number .startGroup) (hbody : Encodes schema none inner body)
      (hclose : Key close number .endGroup) (hrest : Encodes schema context records rest) :
    Encodes schema context (.unknownGroup number inner :: records)
      (key ++ (body ++ close) ++ rest)

/-! What a message holds, counted over all its records and those inside them. -/

mutual

/-- Field occurrences and packed elements. -/
def Record.values : Record → ℕ
  | .scalar _ _ | .unknown _ _ => 1
  | .packed _ elements => 1 + elements.length
  | .message _ records | .unknownGroup _ records => 1 + valuesOf records

def valuesOf : List Record → ℕ
  | [] => 0
  | record :: records => record.values + valuesOf records

end

mutual

/-- Nested messages of known fields. -/
def Record.messages : Record → ℕ
  | .scalar _ _ | .unknown _ _ | .packed _ _ => 0
  | .message _ records => 1 + messagesOf records
  | .unknownGroup _ records => messagesOf records

def messagesOf : List Record → ℕ
  | [] => 0
  | record :: records => record.messages + messagesOf records

end

mutual

/-- Levels of nested messages and groups. -/
def Record.depth : Record → ℕ
  | .scalar _ _ | .unknown _ _ | .packed _ _ => 0
  | .message _ records | .unknownGroup _ records => 1 + depthOf records

def depthOf : List Record → ℕ
  | [] => 0
  | record :: records => max record.depth (depthOf records)

end

mutual

/-- Every field is known to the schema. -/
def Record.allKnown : Record → Bool
  | .scalar _ _ | .packed _ _ => true
  | .unknown _ _ | .unknownGroup _ _ => false
  | .message _ records => allKnownOf records

def allKnownOf : List Record → Bool
  | [] => true
  | record :: records => record.allKnown && allKnownOf records

end

/-- A field that the schema of the message does not know. -/
def Record.isUnknown : Record → Bool
  | .unknown _ _ | .unknownGroup _ _ => true
  | _ => false

theorem filter_isUnknown_eq_nil : ∀ {records : List Record}, allKnownOf records = true →
    records.filter Record.isUnknown = []
  | [], _ => rfl
  | record :: records, h => by
    rw [allKnownOf, Bool.and_eq_true] at h
    rw [List.filter_cons_of_neg, filter_isUnknown_eq_nil h.2]
    cases record with
    | scalar | packed | message => exact Bool.false_ne_true
    | unknown | unknownGroup => exact absurd h.1 Bool.false_ne_true

/-- The elements that a record adds to a repeated field. -/
def Record.elements : Record → ℕ
  | .packed _ elements => elements.length
  | _ => 1

def Record.number : Record → ℕ
  | .scalar number _ | .packed number _ | .message number _ | .unknown number _
  | .unknownGroup number _ => number

/-- The elements of one field in a message, over all its records there. -/
def countOf (number : ℕ) (records : List Record) : ℕ :=
  (records.map fun record => if record.number = number then record.elements else 0).sum

/-- The message occurrences inside a message, itself included, with their types. -/
inductive Occurs {μ : Type*} (schema : Schema μ) : μ → List Record → μ → List Record → Prop where
  | here {descriptor : μ} {records : List Record} : Occurs schema descriptor records descriptor records
  | inside {descriptor nested other : μ} {number : ℕ} {field : FieldShape μ}
      {records inner occurrence : List Record}
      (hmem : .message number inner ∈ records)
      (hfield : schema.field descriptor number = some field)
      (hkind : field.kind = .message nested) (hinner : Occurs schema nested inner other occurrence) :
    Occurs schema descriptor records other occurrence

theorem countOf_cons (number : ℕ) (record : Record) (records : List Record) :
    countOf number (record :: records) =
      (if record.number = number then record.elements else 0) + countOf number records := by
  simp [countOf]

/-- The bytes behind a record's key: with the key in front and an encoding behind, they make an
encoding with one more record. -/
def Body {μ : Type*} (schema : Schema μ) (context : Option μ) (number : ℕ) (wireType : WireType)
    (record : Record) (bytes : List UInt8) : Prop :=
  ∀ {key rest : List UInt8} {records : List Record}, Key key number wireType →
    Encodes schema context records rest →
      Encodes schema context (record :: records) (key ++ bytes ++ rest)

/-! An encoding can be read in one way only. -/

theorem Packed.unique {elements elements' : List Payload} {body : List UInt8}
    {wireType : WireType} (h : Packed elements body) (h' : Packed elements' body)
    (htypes : ∀ element ∈ elements, element.wireType = wireType)
    (htypes' : ∀ element ∈ elements', element.wireType = wireType) : elements = elements' := by
  induction h generalizing elements' with
  | nil =>
    generalize hbody : ([] : List UInt8) = body at h'
    cases h' with
    | nil => rfl
    | cons hhead hrest => exact absurd (List.append_eq_nil_iff.mp hbody.symm).1 hhead.ne_nil
  | @cons element elements bytes rest hhead hrest ih =>
    generalize hbody : bytes ++ rest = body at h'
    cases h' with
    | nil => exact absurd (List.append_eq_nil_iff.mp hbody).1 hhead.ne_nil
    | cons hhead' hrest' =>
      rw [List.forall_mem_cons] at htypes htypes'
      obtain ⟨rfl, rfl⟩ :=
        Payload.unique (htypes.1.trans htypes'.1.symm) hhead hhead' hbody
      rw [ih hrest' htypes.2 htypes'.2]

section

variable {μ : Type*} {schema : Schema μ}

/-- What a record with this number and wire type can be. -/
inductive Form (μ : Type*) where
  | scalar
  | packed (kind : Kind μ)
  | message (nested : μ)
  | group (nested : μ)
  | unknown
  | unknownGroup

variable (schema) in
def formOf (context : Option μ) (number : ℕ) (wireType : WireType) : Form μ :=
  match context.bind fun descriptor => schema.field descriptor number with
  | some field =>
    match field.kind with
    | .message nested => if field.isGroup then .group nested else .message nested
    | kind => if wireType = .lengthDelimited ∧ kind.isPackable then .packed kind else .scalar
  | none => if wireType = .startGroup then .unknownGroup else .unknown

variable (schema) in
/-- The bytes behind the key of a record of this form. -/
inductive RecordBody (number : ℕ) (wireType : WireType) :
    Form μ → Record → List UInt8 → Prop where
  | scalar {payload : Payload} {bytes : List UInt8} (htype : payload.wireType = wireType)
      (hbytes : payload.Encodes bytes) :
    RecordBody number wireType .scalar (.scalar number payload) bytes
  | packed {kind : Kind μ} {elements : List Payload} {body bytes : List UInt8}
      (htypes : ∀ element ∈ elements, kind.scalarType = some element.wireType)
      (hbody : Packed elements body) (hbytes : Delimited body bytes) :
    RecordBody number wireType (.packed kind) (.packed number elements) bytes
  | message {nested : μ} {inner : List Record} {body bytes : List UInt8}
      (hbody : Encodes schema (some nested) inner body) (hbytes : Delimited body bytes) :
    RecordBody number wireType (.message nested) (.message number inner) bytes
  | group {nested : μ} {inner : List Record} {body close : List UInt8}
      (hbody : Encodes schema (some nested) inner body) (hclose : Key close number .endGroup) :
    RecordBody number wireType (.group nested) (.message number inner) (body ++ close)
  | unknown {payload : Payload} {bytes : List UInt8} (htype : payload.wireType = wireType)
      (hbytes : payload.Encodes bytes) :
    RecordBody number wireType .unknown (.unknown number payload) bytes
  | unknownGroup {inner : List Record} {body close : List UInt8}
      (hbody : Encodes schema none inner body) (hclose : Key close number .endGroup) :
    RecordBody number wireType .unknownGroup (.unknownGroup number inner) (body ++ close)

theorem formOf_scalar {descriptor : μ} {number : ℕ} {field : FieldShape μ} {wireType : WireType}
    (hfield : schema.field descriptor number = some field)
    (htype : field.kind.scalarType = some wireType) :
    formOf schema (some descriptor) number wireType = .scalar := by
  simp only [formOf, Option.bind_some, hfield]
  cases hkind : field.kind with
  | message nested => simp [hkind, Kind.scalarType] at htype
  | _ =>
    rw [hkind] at htype
    cases htype
    rfl

theorem formOf_packed {descriptor : μ} {number : ℕ} {field : FieldShape μ}
    (hfield : schema.field descriptor number = some field)
    (hpackable : field.kind.isPackable = true) :
    formOf schema (some descriptor) number .lengthDelimited = .packed field.kind := by
  simp only [formOf, Option.bind_some, hfield]
  cases hkind : field.kind with
  | message nested => simp [hkind, Kind.isPackable] at hpackable
  | _ =>
    rw [hkind] at hpackable
    simp [hpackable]

theorem formOf_message {descriptor nested : μ} {number : ℕ} {field : FieldShape μ}
    (hfield : schema.field descriptor number = some field) (hkind : field.kind = .message nested)
    (wireType : WireType) :
    formOf schema (some descriptor) number wireType =
      if field.isGroup then .group nested else .message nested := by
  simp [formOf, hfield, hkind]

theorem formOf_unknown {context : Option μ} {number : ℕ}
    (hfield : ∀ descriptor ∈ context, schema.field descriptor number = none)
    (wireType : WireType) :
    formOf schema context number wireType =
      if wireType = .startGroup then .unknownGroup else .unknown := by
  have hnone : (context.bind fun descriptor => schema.field descriptor number) = none := by
    cases context with
    | none => rfl
    | some descriptor => exact hfield descriptor rfl
  simp [formOf, hnone]

/-- An encoding with a record starts with its key and its body. -/
theorem Encodes.inversion {context : Option μ} {records : List Record} {bytes : List UInt8}
    (h : Encodes schema context records bytes) :
    (records = [] ∧ bytes = []) ∨
      ∃ number wireType record records' key body rest, records = record :: records' ∧
        bytes = key ++ body ++ rest ∧ Key key number wireType ∧ wireType ≠ .endGroup ∧
        RecordBody schema number wireType (formOf schema context number wireType) record body ∧
        Encodes schema context records' rest := by
  cases h with
  | nil => exact .inl ⟨rfl, rfl⟩
  | @scalar descriptor number field payload records key bytes rest hfield htype hkey hbytes hrest =>
    refine .inr ⟨number, payload.wireType, _, _, key, bytes, rest, rfl, rfl, hkey,
      payload.wireType_ne.2, ?_, hrest⟩
    rw [formOf_scalar hfield htype]
    exact .scalar rfl hbytes
  | @packed descriptor number field elements records key body bytes rest hfield hlist hpackable
      htypes hkey hbody hbytes hrest =>
    refine .inr ⟨number, .lengthDelimited, _, _, key, bytes, rest, rfl, rfl, hkey, nofun, ?_,
      hrest⟩
    rw [formOf_packed hfield hpackable]
    exact .packed htypes hbody hbytes
  | @message descriptor nested number field inner records key body bytes rest hfield hkind hgroup
      hkey hbody hbytes hrest =>
    refine .inr ⟨number, .lengthDelimited, _, _, key, bytes, rest, rfl, rfl, hkey, nofun, ?_,
      hrest⟩
    rw [formOf_message hfield hkind, hgroup]
    exact .message hbody hbytes
  | @group descriptor nested number field inner records key body close rest hfield hkind hgroup
      hkey hbody hclose hrest =>
    refine .inr ⟨number, .startGroup, _, _, key, body ++ close, rest, rfl, rfl, hkey, nofun, ?_,
      hrest⟩
    rw [formOf_message hfield hkind, hgroup]
    exact .group hbody hclose
  | @unknown _ number payload records key bytes rest hfield hkey hbytes hrest =>
    refine .inr ⟨number, payload.wireType, _, _, key, bytes, rest, rfl, rfl, hkey,
      payload.wireType_ne.2, ?_, hrest⟩
    rw [formOf_unknown hfield, if_neg payload.wireType_ne.1]
    exact .unknown rfl hbytes
  | @unknownGroup _ number inner records key body close rest hfield hkey hbody hclose hrest =>
    refine .inr ⟨number, .startGroup, _, _, key, body ++ close, rest, rfl, rfl, hkey, nofun, ?_,
      hrest⟩
    rw [formOf_unknown hfield, if_pos rfl]
    exact .unknownGroup hbody hclose

/-- Nothing behind an encoding goes on with it: the end of the input, or the end of a group. -/
def Ends (t : List UInt8) : Prop :=
  t = [] ∨ ∃ close number rest, t = close ++ rest ∧ Key close number .endGroup

theorem Ends.not_key {t key body : List UInt8} {number : ℕ} {wireType : WireType} (h : Ends t)
    (hkey : Key key number wireType) (hwire : wireType ≠ .endGroup) : t ≠ key ++ body := by
  rcases h with rfl | ⟨close, number', rest, rfl, hclose⟩
  · exact fun heq => hkey.ne_nil (List.append_eq_nil_iff.mp heq.symm).1
  · exact fun heq => hwire (hclose.unique hkey heq).2.1.symm

/-- The first encoding is the only one that can start the bytes of another. -/
def ReadOnce (schema : Schema μ) (context : Option μ) (records : List Record)
    (bytes : List UInt8) : Prop :=
  ∀ {records' : List Record} {bytes' t t' : List UInt8}, Encodes schema context records' bytes' →
    Ends t → Ends t' → bytes ++ t = bytes' ++ t' → records = records' ∧ t = t'

/-- One more record in front. -/
theorem ReadOnce.cons {context : Option μ} {record : Record} {records : List Record}
    {number : ℕ} {wireType : WireType} {key body rest : List UInt8}
    (h : ReadOnce schema context records rest) (hkey : Key key number wireType)
    (hwire : wireType ≠ .endGroup)
    (hrecord : ∀ {record' : Record} {body' t t' : List UInt8},
      RecordBody schema number wireType (formOf schema context number wireType) record' body' →
        body ++ t = body' ++ t' → record = record' ∧ t = t') :
    ReadOnce schema context (record :: records) (key ++ body ++ rest) := by
  intro records' bytes' t t' hencodes hends hends' heq
  rcases hencodes.inversion with ⟨rfl, rfl⟩ | ⟨number', wireType', record', records'', key', body',
    rest', rfl, rfl, hkey', hwire', hbody', hrest'⟩
  · rw [List.nil_append, List.append_assoc, List.append_assoc] at heq
    exact absurd heq.symm (hends'.not_key hkey hwire)
  · simp only [List.append_assoc] at heq
    obtain ⟨rfl, rfl, htail⟩ := hkey.unique hkey' heq
    obtain ⟨rfl, htail'⟩ := hrecord hbody' htail
    obtain ⟨rfl, rfl⟩ := h hrest' hends hends' htail'
    exact ⟨rfl, rfl⟩

theorem Encodes.readOnce {context : Option μ} {records : List Record} {bytes : List UInt8}
    (h : Encodes schema context records bytes) : ReadOnce schema context records bytes := by
  induction h with
  | nil =>
    intro records' bytes' t t' hencodes hends hends' heq
    rcases hencodes.inversion with ⟨rfl, rfl⟩ | ⟨number, wireType, record, records'', key, body,
      rest, rfl, rfl, hkey, hwire, -, -⟩
    · exact ⟨rfl, heq⟩
    · rw [List.nil_append, List.append_assoc, List.append_assoc] at heq
      exact absurd heq (hends.not_key hkey hwire)
  | scalar hfield htype hkey hbytes hrest ih =>
    apply ih.cons hkey (Payload.wireType_ne _).2
    rw [formOf_scalar hfield htype]
    intro record' body' t t' hbody' heq
    cases hbody' with
    | scalar htype' hbytes' =>
      obtain ⟨rfl, rfl⟩ := Payload.unique htype'.symm hbytes hbytes' heq
      exact ⟨rfl, rfl⟩
  | @packed _ _ field _ _ _ _ _ _ hfield hlist hpackable htypes hkey hbody hbytes hrest ih =>
    apply ih.cons hkey nofun
    rw [formOf_packed hfield hpackable]
    intro record' body' t t' hbody' heq
    cases hbody' with
    | packed htypes' hpacked' hbytes' =>
      obtain ⟨rfl, rfl⟩ := hbytes.unique hbytes' heq
      obtain ⟨wireType, htype⟩ : ∃ wireType, field.kind.scalarType = some wireType := by
        cases hkind : field.kind <;> simp [hkind, Kind.scalarType, Kind.isPackable] at hpackable ⊢
      have hsame := Packed.unique hbody hpacked'
        (fun element hmem => Option.some.inj ((htypes element hmem).symm.trans htype))
        (fun element hmem => Option.some.inj ((htypes' element hmem).symm.trans htype))
      rw [hsame]
      exact ⟨rfl, rfl⟩
  | message hfield hkind hgroup hkey hbody hbytes hrest ihbody ih =>
    apply ih.cons hkey nofun
    rw [formOf_message hfield hkind, hgroup]
    intro record' body' t t' hbody' heq
    cases hbody' with
    | message hinner hbytes' =>
      obtain ⟨rfl, rfl⟩ := hbytes.unique hbytes' heq
      obtain ⟨rfl, -⟩ := ihbody hinner (.inl rfl) (.inl rfl) rfl
      exact ⟨rfl, rfl⟩
  | group hfield hkind hgroup hkey hbody hclose hrest ihbody ih =>
    apply ih.cons hkey nofun
    rw [formOf_message hfield hkind, hgroup]
    intro record' body' t t' hbody' heq
    cases hbody' with
    | group hinner hclose' =>
      rw [List.append_assoc, List.append_assoc] at heq
      obtain ⟨rfl, htail⟩ := ihbody hinner (.inr ⟨_, _, _, rfl, hclose⟩)
        (.inr ⟨_, _, _, rfl, hclose'⟩) heq
      exact ⟨rfl, (hclose.unique hclose' htail).2.2⟩
  | unknown hfield hkey hbytes hrest ih =>
    apply ih.cons hkey (Payload.wireType_ne _).2
    rw [formOf_unknown hfield, if_neg (Payload.wireType_ne _).1]
    intro record' body' t t' hbody' heq
    cases hbody' with
    | unknown htype' hbytes' =>
      obtain ⟨rfl, rfl⟩ := Payload.unique htype'.symm hbytes hbytes' heq
      exact ⟨rfl, rfl⟩
  | unknownGroup hfield hkey hbody hclose hrest ihbody ih =>
    apply ih.cons hkey nofun
    rw [formOf_unknown hfield, if_pos rfl]
    intro record' body' t t' hbody' heq
    cases hbody' with
    | unknownGroup hinner hclose' =>
      rw [List.append_assoc, List.append_assoc] at heq
      obtain ⟨rfl, htail⟩ := ihbody hinner (.inr ⟨_, _, _, rfl, hclose⟩)
        (.inr ⟨_, _, _, rfl, hclose'⟩) heq
      exact ⟨rfl, (hclose.unique hclose' htail).2.2⟩

/-- Bytes are the encoding of one list of records only. -/
theorem Encodes.unique {context : Option μ} {records records' : List Record} {bytes : List UInt8}
    (h : Encodes schema context records bytes) (h' : Encodes schema context records' bytes) :
    records = records' :=
  (h.readOnce h' (.inl rfl) (.inl rfl) rfl).1

end

end WireFormat
