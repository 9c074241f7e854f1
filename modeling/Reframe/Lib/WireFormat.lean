import Mathlib.Tactic

/-! The protobuf wire format: varints, keys and payloads. Each reader is paired with the relation
it reads, so that a parser built from readers can be compared with a grammar built from relations:
a reader returns what the relation allows, and reads every encoding with any bytes behind it. -/
namespace WireFormat

/-- A base-128 number, least significant group first, from its `count`-th byte on. The tenth byte
ends it and has room for one bit. -/
inductive Varint : ℕ → List UInt8 → ℕ → Prop where
  | last {count : ℕ} {b : UInt8} (hbyte : b.toNat < 128) (hlast : count = 9 → b.toNat < 2) :
    Varint count [b] b.toNat
  | more {count value : ℕ} {b : UInt8} {bytes : List UInt8} (hbyte : 128 ≤ b.toNat)
      (hcount : count ≠ 9) (hrest : Varint (count + 1) bytes value) :
    Varint count (b :: bytes) (b.toNat - 128 + 128 * value)

def readVarint (count : ℕ) : List UInt8 → Option (ℕ × List UInt8)
  | [] => none
  | b :: rest =>
    if count = 9 ∧ 2 ≤ b.toNat then none
    else if b.toNat < 128 then some (b.toNat, rest)
    else (readVarint (count + 1) rest).map fun read => (b.toNat - 128 + 128 * read.1, read.2)

theorem readVarint_sound {input rest : List UInt8} {count value : ℕ}
    (h : readVarint count input = some (value, rest)) :
    ∃ bytes, input = bytes ++ rest ∧ Varint count bytes value := by
  induction input generalizing count value with
  | nil => cases h
  | cons b input ih =>
    unfold readVarint at h
    split_ifs at h with hten hbyte
    · cases h
      exact ⟨[b], rfl, .last hbyte fun hcount => by omega⟩
    · obtain ⟨⟨value', rest'⟩, hread, heq⟩ := Option.map_eq_some_iff.mp h
      cases heq
      obtain ⟨bytes, rfl, hvarint⟩ := ih hread
      exact ⟨b :: bytes, rfl, .more (by omega) (by omega) hvarint⟩

theorem readVarint_complete {bytes : List UInt8} {count value : ℕ}
    (h : Varint count bytes value) (rest : List UInt8) :
    readVarint count (bytes ++ rest) = some (value, rest) := by
  induction h with
  | last hbyte hlast =>
    rw [List.singleton_append, readVarint, if_neg (by omega), if_pos hbyte]
  | more hbyte hcount _ ih =>
    rw [List.cons_append, readVarint, if_neg (by omega), if_neg (by omega), ih]
    rfl

theorem Varint.ne_nil {bytes : List UInt8} {count value : ℕ} (h : Varint count bytes value) :
    bytes ≠ [] := by
  cases h <;> simp

def decodeVarint (input : List UInt8) : Option (ℕ × List UInt8) := readVarint 0 input

inductive WireType where
  | varint
  | sixtyFourBit
  | lengthDelimited
  | startGroup
  | endGroup
  | thirtyTwoBit
  deriving DecidableEq, Repr

def WireType.code : WireType → ℕ
  | .varint => 0
  | .sixtyFourBit => 1
  | .lengthDelimited => 2
  | .startGroup => 3
  | .endGroup => 4
  | .thirtyTwoBit => 5

def WireType.ofCode : ℕ → Option WireType
  | 0 => some .varint
  | 1 => some .sixtyFourBit
  | 2 => some .lengthDelimited
  | 3 => some .startGroup
  | 4 => some .endGroup
  | 5 => some .thirtyTwoBit
  | _ => none

theorem WireType.ofCode_eq_some {code : ℕ} {wireType : WireType} :
    ofCode code = some wireType ↔ wireType.code = code := by
  constructor
  · intro h
    unfold ofCode at h
    split at h <;> cases h <;> rfl
  · rintro rfl
    cases wireType <;> rfl

theorem WireType.code_lt (wireType : WireType) : wireType.code < 8 := by
  cases wireType <;> decide

/-- The key of a record: a field number from 1 on and a wire type, in a 32-bit varint. -/
structure Key (bytes : List UInt8) (number : ℕ) (wireType : WireType) : Prop where
  varint : Varint 0 bytes (number * 8 + wireType.code)
  fits : number * 8 + wireType.code < 2 ^ 32
  pos : 0 < number

def decodeKey (input : List UInt8) : Option (ℕ × WireType × List UInt8) :=
  match decodeVarint input with
  | none => none
  | some (key, rest) =>
    if 2 ^ 32 ≤ key then none
    else
      match WireType.ofCode (key % 8) with
      | none => none
      | some wireType => if key / 8 < 1 then none else some (key / 8, wireType, rest)

theorem decodeKey_sound {input rest : List UInt8} {number : ℕ} {wireType : WireType}
    (h : decodeKey input = some (number, wireType, rest)) :
    ∃ bytes, input = bytes ++ rest ∧ Key bytes number wireType := by
  unfold decodeKey at h
  cases hread : decodeVarint input with
  | none => simp [hread] at h
  | some read =>
    obtain ⟨key, rest'⟩ := read
    simp only [hread] at h
    cases htype : WireType.ofCode (key % 8) with
    | none => simp [htype] at h
    | some wireType' =>
      simp only [htype] at h
      split_ifs at h with hfits hpos
      cases h
      obtain ⟨bytes, rfl, hvarint⟩ := readVarint_sound hread
      have hkey : key / 8 * 8 + wireType.code = key := by
        rw [WireType.ofCode_eq_some.mp htype]
        omega
      exact ⟨bytes, rfl, by rwa [hkey], by omega, by omega⟩

theorem decodeKey_complete {bytes : List UInt8} {number : ℕ} {wireType : WireType}
    (h : Key bytes number wireType) (rest : List UInt8) :
    decodeKey (bytes ++ rest) = some (number, wireType, rest) := by
  have hcode := wireType.code_lt
  have hfits := h.fits
  have hpos := h.pos
  have htype : WireType.ofCode ((number * 8 + wireType.code) % 8) = some wireType :=
    WireType.ofCode_eq_some.mpr (by omega)
  have hnumber : (number * 8 + wireType.code) / 8 = number := by omega
  simp only [decodeKey, decodeVarint, readVarint_complete h.varint, htype, hnumber]
  rw [if_neg (by omega), if_neg (by omega)]

theorem Key.ne_nil {bytes : List UInt8} {number : ℕ} {wireType : WireType}
    (h : Key bytes number wireType) : bytes ≠ [] := h.varint.ne_nil

/-- The bytes behind a key, up to the end of the value. -/
inductive Payload where
  | varint (value : ℕ)
  | sixtyFourBit (bytes : List UInt8)
  | lengthDelimited (bytes : List UInt8)
  | thirtyTwoBit (bytes : List UInt8)
  deriving DecidableEq, Repr

def Payload.wireType : Payload → WireType
  | .varint _ => .varint
  | .sixtyFourBit _ => .sixtyFourBit
  | .lengthDelimited _ => .lengthDelimited
  | .thirtyTwoBit _ => .thirtyTwoBit

/-- A length in front of that many bytes. -/
def Delimited (value bytes : List UInt8) : Prop :=
  ∃ length, Varint 0 length value.length ∧ bytes = length ++ value

def Payload.Encodes : Payload → List UInt8 → Prop
  | .varint value, bytes => Varint 0 bytes value
  | .sixtyFourBit value, bytes => bytes = value ∧ value.length = 8
  | .lengthDelimited value, bytes => Delimited value bytes
  | .thirtyTwoBit value, bytes => bytes = value ∧ value.length = 4

/-! Encodings can be told apart with any bytes behind them. -/

theorem Varint.unique {bytes bytes' t t' : List UInt8} {count value value' : ℕ}
    (h : Varint count bytes value) (h' : Varint count bytes' value')
    (heq : bytes ++ t = bytes' ++ t') : value = value' ∧ t = t' := by
  have hread := readVarint_complete h t
  rw [heq, readVarint_complete h' t'] at hread
  cases hread
  exact ⟨rfl, rfl⟩

theorem Key.unique {bytes bytes' t t' : List UInt8} {number number' : ℕ}
    {wireType wireType' : WireType} (h : Key bytes number wireType)
    (h' : Key bytes' number' wireType') (heq : bytes ++ t = bytes' ++ t') :
    number = number' ∧ wireType = wireType' ∧ t = t' := by
  have hread := decodeKey_complete h t
  rw [heq, decodeKey_complete h' t'] at hread
  cases hread
  exact ⟨rfl, rfl, rfl⟩

theorem Delimited.unique {value value' bytes bytes' t t' : List UInt8}
    (h : Delimited value bytes) (h' : Delimited value' bytes') (heq : bytes ++ t = bytes' ++ t') :
    value = value' ∧ t = t' := by
  obtain ⟨length, hlength, rfl⟩ := h
  obtain ⟨length', hlength', rfl⟩ := h'
  rw [List.append_assoc, List.append_assoc] at heq
  obtain ⟨hsame, hrest⟩ := hlength.unique hlength' heq
  exact List.append_inj hrest hsame

theorem Payload.unique {payload payload' : Payload} {bytes bytes' t t' : List UInt8}
    (htype : payload.wireType = payload'.wireType) (h : payload.Encodes bytes)
    (h' : payload'.Encodes bytes') (heq : bytes ++ t = bytes' ++ t') :
    payload = payload' ∧ t = t' := by
  cases payload with
  | varint value =>
    cases payload' with
    | varint value' =>
      obtain ⟨rfl, rfl⟩ := Varint.unique h h' heq
      exact ⟨rfl, rfl⟩
    | _ => cases htype
  | sixtyFourBit value =>
    cases payload' with
    | sixtyFourBit value' =>
      obtain ⟨⟨rfl, hlength⟩, ⟨rfl, hlength'⟩⟩ := h, h'
      obtain ⟨rfl, rfl⟩ := List.append_inj heq (hlength.trans hlength'.symm)
      exact ⟨rfl, rfl⟩
    | _ => cases htype
  | lengthDelimited value =>
    cases payload' with
    | lengthDelimited value' =>
      obtain ⟨rfl, rfl⟩ := Delimited.unique h h' heq
      exact ⟨rfl, rfl⟩
    | _ => cases htype
  | thirtyTwoBit value =>
    cases payload' with
    | thirtyTwoBit value' =>
      obtain ⟨⟨rfl, hlength⟩, ⟨rfl, hlength'⟩⟩ := h, h'
      obtain ⟨rfl, rfl⟩ := List.append_inj heq (hlength.trans hlength'.symm)
      exact ⟨rfl, rfl⟩
    | _ => cases htype

theorem Payload.Encodes.ne_nil {payload : Payload} {bytes : List UInt8}
    (h : payload.Encodes bytes) : bytes ≠ [] := by
  cases payload with
  | varint value => exact Varint.ne_nil h
  | lengthDelimited value =>
    obtain ⟨length, hlength, rfl⟩ := h
    exact fun hnil => hlength.ne_nil (List.append_eq_nil_iff.mp hnil).1
  | _ =>
    rintro rfl
    obtain ⟨rfl, hlength⟩ := h
    cases hlength

theorem Payload.wireType_ne (payload : Payload) :
    payload.wireType ≠ .startGroup ∧ payload.wireType ≠ .endGroup := by
  cases payload <;> exact ⟨nofun, nofun⟩

end WireFormat
