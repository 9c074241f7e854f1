import Reframe.Lib.WireFormat

/-! Messages as lists of numbered payloads: an encoder that writes the fields one after the other,
and a decoder that merges them into a value. What the encoder wrote is decoded field by field. -/
namespace WireFormat

/-- At most `room` bytes, with seven bits of the number in each. -/
def writeVarint : ℕ → ℕ → List UInt8
  | 0, _ => []
  | room + 1, value =>
    if value < 128 then [UInt8.ofNat value]
    else UInt8.ofNat (value % 128 + 128) :: writeVarint room (value / 128)

def encodeVarint (value : ℕ) : List UInt8 := writeVarint 10 value

theorem writeVarint_varint {room count value : ℕ} (hroom : count + room = 10) (hpos : room ≠ 0)
    (hvalue : value < 2 ^ (7 * room - 6)) : Varint count (writeVarint room value) value := by
  induction room generalizing count value with
  | zero => exact absurd rfl hpos
  | succ room ih =>
    rw [writeVarint]
    split_ifs with hbyte
    · have hnat : (UInt8.ofNat value).toNat = value := by
        rw [UInt8.toNat_ofNat']
        omega
      have hlast : Varint count [UInt8.ofNat value] (UInt8.ofNat value).toNat := by
        refine .last (by omega) fun hcount => ?_
        have hzero : room = 0 := by omega
        subst hzero
        rw [hnat]
        simpa using hvalue
      rwa [hnat] at hlast
    · have hnonzero : room ≠ 0 := by
        rintro rfl
        have : value < 2 := by simpa using hvalue
        omega
      have hnat : (UInt8.ofNat (value % 128 + 128)).toNat = value % 128 + 128 := by
        rw [UInt8.toNat_ofNat']
        omega
      have hsplit : 2 ^ (7 * (room + 1) - 6) = 2 ^ (7 * room - 6) * 128 := by
        have hexponent : 7 * (room + 1) - 6 = 7 * room - 6 + 7 := by omega
        rw [hexponent, pow_add]
        norm_num
      have hrest : Varint (count + 1) (writeVarint room (value / 128)) (value / 128) :=
        ih (by omega) hnonzero (by omega)
      have hmore := Varint.more (b := UInt8.ofNat (value % 128 + 128)) (by omega) (by omega) hrest
      rw [hnat] at hmore
      have heq : value % 128 + 128 - 128 + 128 * (value / 128) = value := by omega
      rwa [heq] at hmore

theorem encodeVarint_varint {value : ℕ} (h : value < 2 ^ 64) :
    Varint 0 (encodeVarint value) value :=
  writeVarint_varint rfl (by decide) h

theorem length_writeVarint_le (room value : ℕ) : (writeVarint room value).length ≤ room := by
  induction room generalizing value with
  | zero => exact le_rfl
  | succ room ih =>
    rw [writeVarint]
    split_ifs
    · simp
    · simpa using ih (value / 128)

theorem length_encodeVarint_le (value : ℕ) : (encodeVarint value).length ≤ 10 :=
  length_writeVarint_le 10 value

def encodePayload : Payload → List UInt8
  | .varint value => encodeVarint value
  | .sixtyFourBit bytes | .thirtyTwoBit bytes => bytes
  | .lengthDelimited bytes => encodeVarint bytes.length ++ bytes

/-- A payload that the wire format has room for. -/
def Payload.Fits : Payload → Prop
  | .varint value => value < 2 ^ 64
  | .sixtyFourBit bytes => bytes.length = 8
  | .lengthDelimited bytes => bytes.length < 2 ^ 64
  | .thirtyTwoBit bytes => bytes.length = 4

theorem encodePayload_encodes {payload : Payload} (h : payload.Fits) :
    payload.Encodes (encodePayload payload) := by
  cases payload with
  | varint value => exact encodeVarint_varint h
  | sixtyFourBit bytes => exact ⟨rfl, h⟩
  | lengthDelimited bytes => exact ⟨_, encodeVarint_varint h, rfl⟩
  | thirtyTwoBit bytes => exact ⟨rfl, h⟩

/-- A field number and the value behind it. -/
abbrev Field := ℕ × Payload

def encodeField (field : Field) : List UInt8 :=
  encodeVarint (field.1 * 8 + field.2.wireType.code) ++ encodePayload field.2

def encodeFields (fields : List Field) : List UInt8 := fields.flatMap encodeField

structure FieldFits (field : Field) : Prop where
  pos : 0 < field.1
  number : field.1 < 2 ^ 29
  payload : field.2.Fits

theorem encodeField_key {field : Field} (h : FieldFits field) :
    Key (encodeVarint (field.1 * 8 + field.2.wireType.code)) field.1 field.2.wireType := by
  have hcode := field.2.wireType.code_lt
  have hnumber := h.number
  exact ⟨encodeVarint_varint (by omega), by omega, h.pos⟩

def takeBytes (count : ℕ) (input : List UInt8) : Option (List UInt8 × List UInt8) :=
  if input.length < count then none else some (input.take count, input.drop count)

theorem takeBytes_append (bytes rest : List UInt8) :
    takeBytes bytes.length (bytes ++ rest) = some (bytes, rest) := by
  rw [takeBytes, if_neg (by simp), List.take_left, List.drop_left]

def readPayload (wireType : WireType) (input : List UInt8) : Option (Payload × List UInt8) :=
  match wireType with
  | .varint => (decodeVarint input).map fun read => (.varint read.1, read.2)
  | .sixtyFourBit => (takeBytes 8 input).map fun read => (.sixtyFourBit read.1, read.2)
  | .lengthDelimited => do
    let (length, rest) ← decodeVarint input
    (takeBytes length rest).map fun read => (.lengthDelimited read.1, read.2)
  | .thirtyTwoBit => (takeBytes 4 input).map fun read => (.thirtyTwoBit read.1, read.2)
  | .startGroup | .endGroup => none

theorem readPayload_complete {payload : Payload} {bytes : List UInt8} (h : payload.Encodes bytes)
    (rest : List UInt8) :
    readPayload payload.wireType (bytes ++ rest) = some (payload, rest) := by
  cases payload with
  | varint value =>
    have hread : decodeVarint (bytes ++ rest) = some (value, rest) := readVarint_complete h rest
    simp only [Payload.wireType, readPayload, hread, Option.map_some]
  | sixtyFourBit value =>
    obtain ⟨rfl, hlength⟩ := h
    simp only [Payload.wireType, readPayload, ← hlength, takeBytes_append, Option.map_some]
  | lengthDelimited value =>
    obtain ⟨length, hlength, rfl⟩ := h
    have hread : decodeVarint (length ++ (value ++ rest)) = some (value.length, value ++ rest) :=
      readVarint_complete hlength _
    rw [List.append_assoc]
    simp only [Payload.wireType, readPayload, hread, Option.bind_eq_bind, Option.bind_some,
      takeBytes_append, Option.map_some]
  | thirtyTwoBit value =>
    obtain ⟨rfl, hlength⟩ := h
    simp only [Payload.wireType, readPayload, ← hlength, takeBytes_append, Option.map_some]

/-- The fields up to the end of the input, or of the group. The fields of a group are dropped: no
message of today has them. -/
def readFields : ℕ → Option ℕ → List UInt8 → Option (List Field × List UInt8)
  | 0, _, _ => none
  | _ + 1, none, [] => some ([], [])
  | fuel + 1, group, input => do
    let (number, wireType, rest) ← decodeKey input
    match wireType with
    | .endGroup => if group = some number then some ([], rest) else none
    | .startGroup =>
      let (_, rest) ← readFields fuel (some number) rest
      readFields fuel group rest
    | wireType =>
      let (payload, rest) ← readPayload wireType rest
      let (fields, rest) ← readFields fuel group rest
      some ((number, payload) :: fields, rest)

def decodeFields (input : List UInt8) : Option (List Field) :=
  (readFields (input.length + 1) none input).map Prod.fst

/-- One field in front of more. -/
theorem readFields_field {field : Field} (h : FieldFits field) (fuel : ℕ) (rest : List UInt8) :
    readFields (fuel + 1) none (encodeField field ++ rest) =
      (readFields fuel none rest).map fun read => (field :: read.1, read.2) := by
  obtain ⟨number, payload⟩ := field
  have hkey := decodeKey_complete (encodeField_key h) (encodePayload payload ++ rest)
  have hpayload := readPayload_complete (encodePayload_encodes h.payload) rest
  have hne : encodeField (number, payload) ++ rest ≠ [] := by
    intro hnil
    have hfield := (List.append_eq_nil_iff.mp hnil).1
    exact (encodeField_key h).ne_nil (List.append_eq_nil_iff.mp hfield).1
  have hinput : encodeField (number, payload) ++ rest =
      encodeVarint (number * 8 + payload.wireType.code) ++ (encodePayload payload ++ rest) :=
    List.append_assoc ..
  obtain ⟨b, input, hcons⟩ := List.exists_cons_of_ne_nil hne
  rw [hcons, readFields, ← hcons, hinput]
  · simp only [hkey, Option.bind_eq_bind, Option.bind_some]
    -- A payload never has the wire type of a group.
    cases payload <;> simp only [Payload.wireType] at hpayload ⊢ <;>
      rw [hpayload, Option.bind_some] <;> cases readFields fuel none rest <;> rfl
  · exact fun _ => nofun

theorem length_encodeField_pos {field : Field} (h : FieldFits field) :
    0 < (encodeField field).length :=
  List.length_pos_of_ne_nil fun hnil =>
    (encodeField_key h).ne_nil (List.append_eq_nil_iff.mp hnil).1

theorem readFields_encodeFields {fields : List Field} (h : ∀ field ∈ fields, FieldFits field)
    {fuel : ℕ} (hfuel : (encodeFields fields).length < fuel) :
    readFields fuel none (encodeFields fields) = some (fields, []) := by
  induction fields generalizing fuel with
  | nil =>
    cases fuel with
    | zero => omega
    | succ fuel => rfl
  | cons field fields ih =>
    have hfield := h field List.mem_cons_self
    have hpos := length_encodeField_pos hfield
    rw [encodeFields, List.flatMap_cons, List.length_append] at hfuel
    obtain ⟨fuel, rfl⟩ := Nat.exists_eq_succ_of_ne_zero (show fuel ≠ 0 by omega)
    rw [encodeFields, List.flatMap_cons, readFields_field hfield]
    have hrest : readFields fuel none (fields.flatMap encodeField) = some (fields, []) :=
      ih (fun other hmem => h other (List.mem_cons_of_mem _ hmem)) (by rw [encodeFields]; omega)
    rw [hrest, Option.map_some]

/-- The decoder reads back what the encoder wrote. -/
theorem decodeFields_encodeFields {fields : List Field}
    (h : ∀ field ∈ fields, FieldFits field) :
    decodeFields (encodeFields fields) = some fields := by
  rw [decodeFields, readFields_encodeFields h (Nat.lt_succ_self _), Option.map_some]

/-- A value is no longer than the message around it. -/
theorem length_le_encodeFields {fields : List Field} {number : ℕ} {bytes : List UInt8}
    (h : (number, .lengthDelimited bytes) ∈ fields) :
    bytes.length ≤ (encodeFields fields).length := by
  induction fields with
  | nil => cases h
  | cons field fields ih =>
    rw [encodeFields, List.flatMap_cons, List.length_append]
    rcases List.mem_cons.mp h with rfl | h
    · simp only [encodeField, encodePayload, List.length_append]
      omega
    · have := ih h
      rw [encodeFields] at this
      omega

/-- Fields that fit if their bytes do. -/
def Written (fields : List Field) : Prop :=
  ∀ field ∈ fields, 0 < field.1 ∧ field.1 < 2 ^ 29 ∧
    match field.2 with
    | .varint value => value < 2 ^ 64
    | .lengthDelimited _ => True
    | payload => payload.Fits

/-- Every field of a message fits when the whole message does. -/
theorem Written.fieldFits {fields : List Field} (h : Written fields)
    (hlength : (encodeFields fields).length < 2 ^ 64) {field : Field} (hfield : field ∈ fields) :
    FieldFits field := by
  obtain ⟨number, payload⟩ := field
  obtain ⟨hpos, hnumber, hpayload⟩ := h _ hfield
  refine ⟨hpos, hnumber, ?_⟩
  cases payload with
  | lengthDelimited bytes => exact (length_le_encodeFields hfield).trans_lt hlength
  | _ => exact hpayload

theorem written_nil : Written [] := fun _ h => by cases h

theorem Written.append {fields others : List Field} (h : Written fields) (h' : Written others) :
    Written (fields ++ others) := by
  intro field hfield
  rcases List.mem_append.mp hfield with hfield | hfield
  · exact h field hfield
  · exact h' field hfield

theorem written_bytes {number : ℕ} (hpos : 0 < number) (hnumber : number < 2 ^ 29)
    (bytes : List UInt8) : Written [(number, .lengthDelimited bytes)] := by
  intro field hfield
  rw [List.mem_singleton.mp hfield]
  exact ⟨hpos, hnumber, trivial⟩

theorem written_varint {number value : ℕ} (hpos : 0 < number) (hnumber : number < 2 ^ 29)
    (hvalue : value < 2 ^ 64) : Written [(number, .varint value)] := by
  intro field hfield
  rw [List.mem_singleton.mp hfield]
  exact ⟨hpos, hnumber, hvalue⟩

/-! Values behind the fields of a message. -/

/-- Merge the fields of an encoded message into a value. -/
def mergeMessage {α : Type} (merge : α → Field → Option α) (value : α) (bytes : List UInt8) :
    Option α := do
  let fields ← decodeFields bytes
  fields.foldlM merge value

theorem mergeMessage_encodeFields {α : Type} {merge : α → Field → Option α} {value : α}
    {fields : List Field} (h : Written fields)
    (hlength : (encodeFields fields).length < 2 ^ 64) :
    mergeMessage merge value (encodeFields fields) = fields.foldlM merge value := by
  rw [mergeMessage, decodeFields_encodeFields fun _ => h.fieldFits hlength]
  rfl

def encodeText (text : String) : List UInt8 := text.toByteArray.data.toList

def decodeText (bytes : List UInt8) : Option String := String.fromUTF8? ⟨bytes.toArray⟩

@[simp] theorem decodeText_encodeText (text : String) :
    decodeText (encodeText text) = some text := by
  have hbytes : (⟨(encodeText text).toArray⟩ : ByteArray) = text.toByteArray := by
    simp [encodeText]
  rw [decodeText, hbytes, String.fromUTF8?, dif_pos text.isValidUTF8]
  rfl

/-! Fields of proto3 messages: a field without presence is left out when it has its default. Each
comes back through a merge that sets it. -/

section

variable {α : Type} {merge : α → Field → Option α} {value : α} {number : ℕ}

theorem foldlM_singleton {field : Field} {result : α} (h : merge value field = some result) :
    List.foldlM merge value [field] = some result := by
  rw [List.foldlM_cons, h]
  rfl

theorem foldlM_append {fields others : List Field} {middle result : α}
    (h : fields.foldlM merge value = some middle) (h' : others.foldlM merge middle = some result) :
    (fields ++ others).foldlM merge value = some result := by
  rw [List.foldlM_append, h]
  exact h'

def textField (number : ℕ) (text : String) : List Field :=
  if text = "" then [] else [(number, .lengthDelimited (encodeText text))]

theorem textField_written (hpos : 0 < number) (hnumber : number < 2 ^ 29) (text : String) :
    Written (textField number text) := by
  unfold textField
  split_ifs
  · exact written_nil
  · exact written_bytes hpos hnumber _

theorem foldlM_textField (set : String → α) (text : String)
    (hmerge : ∀ bytes, merge value (number, .lengthDelimited bytes) = (decodeText bytes).map set)
    (hdefault : set "" = value) :
    (textField number text).foldlM merge value = some (set text) := by
  unfold textField
  split_ifs with hempty
  · rw [hempty, hdefault]
    rfl
  · apply foldlM_singleton
    rw [hmerge, decodeText_encodeText, Option.map_some]

def bytesField (number : ℕ) (bytes : List UInt8) : List Field :=
  if bytes = [] then [] else [(number, .lengthDelimited bytes)]

theorem bytesField_written (hpos : 0 < number) (hnumber : number < 2 ^ 29) (bytes : List UInt8) :
    Written (bytesField number bytes) := by
  unfold bytesField
  split_ifs
  · exact written_nil
  · exact written_bytes hpos hnumber _

theorem foldlM_bytesField (set : List UInt8 → α) (bytes : List UInt8)
    (hmerge : ∀ bytes, merge value (number, .lengthDelimited bytes) = some (set bytes))
    (hdefault : set [] = value) :
    (bytesField number bytes).foldlM merge value = some (set bytes) := by
  unfold bytesField
  split_ifs with hempty
  · rw [hempty, hdefault]
    rfl
  · exact foldlM_singleton (hmerge bytes)

def uintField (number value : ℕ) : List Field :=
  if value = 0 then [] else [(number, .varint value)]

theorem uintField_written (hpos : 0 < number) (hnumber : number < 2 ^ 29) {count : ℕ}
    (hcount : count < 2 ^ 64) : Written (uintField number count) := by
  unfold uintField
  split_ifs
  · exact written_nil
  · exact written_varint hpos hnumber hcount

theorem foldlM_uintField (set : ℕ → α) (count : ℕ)
    (hmerge : ∀ count, merge value (number, .varint count) = some (set count))
    (hdefault : set 0 = value) :
    (uintField number count).foldlM merge value = some (set count) := by
  unfold uintField
  split_ifs with hzero
  · rw [hzero, hdefault]
    rfl
  · exact foldlM_singleton (hmerge count)

def optionalUintField (number : ℕ) : Option ℕ → List Field
  | none => []
  | some value => [(number, .varint value)]

theorem optionalUintField_written (hpos : 0 < number) (hnumber : number < 2 ^ 29)
    {count : Option ℕ} (hcount : ∀ set, count = some set → set < 2 ^ 64) :
    Written (optionalUintField number count) := by
  cases count with
  | none => exact written_nil
  | some count => exact written_varint hpos hnumber (hcount count rfl)

theorem foldlM_optionalUintField (set : Option ℕ → α) (count : Option ℕ)
    (hmerge : ∀ count, merge value (number, .varint count) = some (set (some count)))
    (hdefault : set none = value) :
    (optionalUintField number count).foldlM merge value = some (set count) := by
  cases count with
  | none => exact congrArg some hdefault.symm
  | some count => exact foldlM_singleton (hmerge count)

def boolField (number : ℕ) (flag : Bool) : List Field :=
  if flag then [(number, .varint 1)] else []

theorem boolField_written (hpos : 0 < number) (hnumber : number < 2 ^ 29) (flag : Bool) :
    Written (boolField number flag) := by
  cases flag
  · exact written_nil
  · exact written_varint hpos hnumber (by norm_num)

theorem foldlM_boolField (set : Bool → α) (flag : Bool)
    (hmerge : ∀ count : ℕ, merge value (number, .varint count) = some (set (count ≠ 0)))
    (hdefault : set false = value) :
    (boolField number flag).foldlM merge value = some (set flag) := by
  cases flag
  · exact congrArg some hdefault.symm
  · exact foldlM_singleton (hmerge 1)

/-- A 32-bit number, sign-extended to 64 bits. -/
def intField (number : ℕ) (int : ℤ) : List Field :=
  if int = 0 then [] else [(number, .varint (int % 2 ^ 64).toNat)]

/-- The low 32 bits, with their sign. -/
def toInt32 (bits : ℕ) : ℤ := (bits : ℤ).bmod (2 ^ 32)

theorem toInt32_extended {int : ℤ} (hlow : -2 ^ 31 ≤ int) (hhigh : int < 2 ^ 31) :
    toInt32 (int % 2 ^ 64).toNat = int := by
  unfold toInt32
  rw [Int.bmod_def]
  split_ifs <;> omega

theorem intField_written (hpos : 0 < number) (hnumber : number < 2 ^ 29) (int : ℤ) :
    Written (intField number int) := by
  unfold intField
  split_ifs
  · exact written_nil
  · exact written_varint hpos hnumber (by omega)

theorem foldlM_intField (set : ℤ → α) {int : ℤ} (hlow : -2 ^ 31 ≤ int) (hhigh : int < 2 ^ 31)
    (hmerge : ∀ count : ℕ, merge value (number, .varint count) = some (set (toInt32 count)))
    (hdefault : set 0 = value) :
    (intField number int).foldlM merge value = some (set int) := by
  unfold intField
  split_ifs with hzero
  · rw [hzero, hdefault]
    rfl
  · apply foldlM_singleton
    rw [hmerge, toInt32_extended hlow hhigh]

end

def messageField (number : ℕ) (fields : List Field) : List Field :=
  [(number, .lengthDelimited (encodeFields fields))]

end WireFormat
