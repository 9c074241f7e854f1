import Reframe.Lib.Base64
import Reframe.Transport.FrameReader

/-! Authenticated cursors: where the next page of a catalog listing starts, bound to the operation,
the revision and the request it belongs to. -/
namespace StoreCatalog
open Base64 (base64urlEncode base64urlDecode)
open Transport (fromBeBytes)

inductive CatalogError where
  | invalidCatalog (reason : String)
  | capabilityNotFound (capabilityId : String)
  | topicNotFound (topicId : String)
  | typeNotFound (typeName : String)
  | invalidCapabilityKind (value : ℤ)
  | invalidInspectionSection (value : ℤ)
  | invalidFieldPath (typeName fieldPath : String)
  | invalidCursor
  | staleCursor
  | invalidBudget (budget : ℕ)
  | budgetExceeded (budget required : ℕ)
  | capabilityKindMismatch (capabilityId expected : String)
  | subscriptionsUnsupported (capabilityId : String)
  | invalidTypeUrl (typeUrl : String)
  | typeMismatch (expected actual : String)
  | invalidPayload (typeName reason : String)
  | contractMismatch
  deriving DecidableEq, Repr

/-- A SHA-256 digest, or a revision. -/
abbrev Hash := Vector UInt8 32

def cursorMagic : List UInt8 := [0x52, 0x53, 0x43, 0x31]
def payloadLen : ℕ := 4 + 1 + 8 + 32 + 32
def tokenLen : ℕ := payloadLen + 32

inductive Operation where
  | search
  | browse
  deriving DecidableEq, Repr

def Operation.toByte : Operation → UInt8
  | .search => 1
  | .browse => 2

def Operation.fromByte (value : UInt8) : Option Operation :=
  if value = 1 then some .search else if value = 2 then some .browse else none

structure CursorAuthority where
  key : Hash
  deriving DecidableEq

def putU64 (value : ℕ) : List UInt8 :=
  [.ofNat (value / 2 ^ 56), .ofNat (value / 2 ^ 48), .ofNat (value / 2 ^ 40),
    .ofNat (value / 2 ^ 32), .ofNat (value / 2 ^ 24), .ofNat (value / 2 ^ 16),
    .ofNat (value / 2 ^ 8), .ofNat value]

section

variable (sha256 : List UInt8 → Hash)

def hmacSha256 (key : Hash) (message : List UInt8) : Hash :=
  let pad (byte : UInt8) : List UInt8 := key.toList.map (byte ^^^ ·) ++ List.replicate 32 byte
  sha256 (pad 0x5c ++ (sha256 (pad 0x36 ++ message)).toList)

/-- The binding of a request: its parts, each after its length. -/
def bindingHash (parts : List (List UInt8)) : Hash :=
  sha256 ("reframe.semantic-store.catalog.binding.v1".toUTF8.toList ++
    parts.flatMap fun part => putU64 (min part.length (2 ^ 64 - 1)) ++ part)

namespace CursorAuthority

def payload (operation : Operation) (offset : ℕ) (revision binding : Hash) : List UInt8 :=
  cursorMagic ++ [operation.toByte] ++ putU64 (min offset (2 ^ 64 - 1)) ++ revision.toList ++
    binding.toList

def encode (authority : CursorAuthority) (operation : Operation) (offset : ℕ)
    (revision binding : Hash) : String :=
  let bytes := payload operation offset revision binding
  .ofList (base64urlEncode (bytes ++ (hmacSha256 sha256 authority.key bytes).toList))

def decode (authority : CursorAuthority) (token : String) (operation : Operation)
    (revision binding : Hash) : Except CatalogError ℕ :=
  match base64urlDecode token.toList with
  | none => .error .invalidCursor
  | some bytes =>
    if bytes.length ≠ tokenLen ∨ bytes.take 4 ≠ cursorMagic then .error .invalidCursor
    else
      let payload := bytes.take payloadLen
      if bytes.drop payloadLen ≠ (hmacSha256 sha256 authority.key payload).toList then
        .error .invalidCursor
      else if payload[4]?.bind Operation.fromByte ≠ some operation then .error .invalidCursor
      else if (payload.drop 13).take 32 ≠ revision.toList then .error .staleCursor
      else if (payload.drop 45).take 32 ≠ binding.toList then .error .invalidCursor
      else .ok (fromBeBytes ((payload.drop 5).take 8))

end CursorAuthority

end

theorem fromByte_toByte (operation : Operation) :
    Operation.fromByte operation.toByte = some operation := by
  cases operation <;> rfl

theorem fromBeBytes_putU64 {value : ℕ} (h : value < 2 ^ 64) :
    fromBeBytes (putU64 value) = value := by
  simp only [fromBeBytes, putU64, List.foldl_cons, List.foldl_nil, UInt8.toNat_ofNat']
  omega

theorem toByte_of_fromByte {value : UInt8} {operation : Operation}
    (h : Operation.fromByte value = some operation) : value = operation.toByte := by
  rw [Operation.fromByte] at h
  split_ifs at h with hsearch hbrowse
  · cases h
    exact hsearch
  · cases h
    exact hbrowse

theorem four_of_length {bytes : List UInt8} {n : ℕ} (h : bytes.length = n + 4) :
    ∃ a b c d rest, bytes = a :: b :: c :: d :: rest ∧ rest.length = n := by
  obtain ⟨a, rest, rfl⟩ := List.exists_cons_of_length_eq_add_one h
  obtain ⟨b, rest, rfl⟩ := List.exists_cons_of_length_eq_add_one (Nat.succ_injective h)
  obtain ⟨c, rest, rfl⟩ := List.exists_cons_of_length_eq_add_one
    (Nat.succ_injective (Nat.succ_injective h))
  obtain ⟨d, rest, rfl⟩ := List.exists_cons_of_length_eq_add_one
    (Nat.succ_injective (Nat.succ_injective (Nat.succ_injective h)))
  refine ⟨a, b, c, d, rest, rfl, ?_⟩
  simpa using h

theorem putU64_fromBeBytes {bytes : List UInt8} (h : bytes.length = 8) :
    fromBeBytes bytes < 2 ^ 64 ∧ putU64 (fromBeBytes bytes) = bytes := by
  obtain ⟨a, b, c, d, rest, rfl, hrest⟩ := four_of_length h
  obtain ⟨e, f, g, i, rest, rfl, hrest'⟩ := four_of_length (n := 0) hrest
  obtain rfl := List.eq_nil_of_length_eq_zero hrest'
  have ha := a.toNat_lt
  have hb := b.toNat_lt
  have hc := c.toNat_lt
  have hd := d.toNat_lt
  have he := e.toNat_lt
  have hf := f.toNat_lt
  have hg := g.toNat_lt
  have hi := i.toNat_lt
  simp only [fromBeBytes, putU64, List.foldl_cons, List.foldl_nil, List.cons.injEq, and_true]
  refine ⟨by omega, ?_, ?_, ?_, ?_, ?_, ?_, ?_, ?_⟩ <;> exact Base64.ofNat_eq (by omega)

namespace CursorAuthority

variable (operation : Operation) (revision binding : Hash)

theorem length_payload (offset : ℕ) :
    (payload operation offset revision binding).length = payloadLen := by
  simp [payload, cursorMagic, putU64, payloadLen]

theorem encode_ne_empty (sha256 : List UInt8 → Hash) (authority : CursorAuthority) (offset : ℕ) :
    authority.encode sha256 operation offset revision binding ≠ "" := by
  intro hempty
  have hnil := congrArg String.toList hempty
  rw [encode, String.toList_ofList] at hnil
  have hbytes := (Base64.length_base64urlEncode _).2 hnil
  have hlength := congrArg List.length hbytes
  rw [List.length_append, length_payload] at hlength
  exact absurd hlength (by simp [payloadLen])

/-- What a request makes of an authenticated token. -/
theorem decode_encode_eq (sha256 : List UInt8 → Hash) (authority : CursorAuthority) {offset : ℕ}
    (h : offset < 2 ^ 64) (operation' : Operation) (revision' binding' : Hash) :
    authority.decode sha256 (authority.encode sha256 operation offset revision binding) operation'
      revision' binding' =
        if operation ≠ operation' then .error .invalidCursor
        else if revision ≠ revision' then .error .staleCursor
        else if binding ≠ binding' then .error .invalidCursor
        else .ok offset := by
  have hmin : min offset (2 ^ 64 - 1) = offset := by omega
  generalize htag : hmacSha256 sha256 authority.key (payload operation offset revision binding) = tag
  have hlength := length_payload operation revision binding offset
  have hdecode : base64urlDecode (authority.encode sha256 operation offset revision binding).toList =
      some (payload operation offset revision binding ++ tag.toList) := by
    rw [encode, String.toList_ofList, Base64.base64urlDecode_eq_some, htag]
    refine ⟨fun hnil => ?_, rfl⟩
    have := congrArg List.length hnil
    rw [List.length_append, hlength] at this
    exact absurd this (by simp [payloadLen])
  have htake : (payload operation offset revision binding ++ tag.toList).take payloadLen =
      payload operation offset revision binding := by rw [← hlength, List.take_left']; rfl
  have hdrop : (payload operation offset revision binding ++ tag.toList).drop payloadLen =
      tag.toList := by rw [← hlength, List.drop_left']; rfl
  have hmagic : (payload operation offset revision binding ++ tag.toList).take 4 = cursorMagic := by
    simp [payload, cursorMagic]
  have hoperation : (payload operation offset revision binding)[4]? = some operation.toByte := by
    simp [payload, cursorMagic]
  have hrevision : ((payload operation offset revision binding).drop 13).take 32 =
      revision.toList := by
    simp [payload, cursorMagic, putU64]
  have hbinding : ((payload operation offset revision binding).drop 45).take 32 =
      binding.toList := by
    simp [payload, cursorMagic, putU64]
  have hoffset : ((payload operation offset revision binding).drop 5).take 8 = putU64 offset := by
    rw [payload, hmin]
    simp [cursorMagic, putU64]
  simp only [decode, hdecode]
  rw [if_neg, htake, hdrop, htag, if_neg (not_not.mpr rfl), hoperation, hrevision, hbinding, hoffset,
    fromBeBytes_putU64 h, Option.bind_some, fromByte_toByte]
  · simp only [ne_eq, Option.some.injEq, Vector.toList_inj]
  · rw [hmagic, List.length_append, hlength]
    simp [tokenLen]

/-- A token that is decoded for the request it was made for gives its offset back. -/
theorem decode_encode (sha256 : List UInt8 → Hash) (authority : CursorAuthority) {offset : ℕ}
    (h : offset < 2 ^ 64) :
    authority.decode sha256 (authority.encode sha256 operation offset revision binding) operation
      revision binding = .ok offset := by
  rw [decode_encode_eq _ _ _ _ _ h, if_neg (not_not.mpr rfl), if_neg (not_not.mpr rfl),
    if_neg (not_not.mpr rfl)]

/-- The fields of a payload, read back from its bytes. -/
theorem eq_payload {bytes : List UInt8} (hlength : bytes.length = payloadLen)
    (hmagic : bytes.take 4 = cursorMagic)
    (hoperation : bytes[4]?.bind Operation.fromByte = some operation) :
    ∃ offset < 2 ^ 64, ∃ revision binding : Hash,
      bytes = payload operation offset revision binding := by
  have hparts : bytes = bytes.take 4 ++ ((bytes.drop 4).take 1 ++ ((bytes.drop 5).take 8 ++
      ((bytes.drop 13).take 32 ++ (bytes.drop 45).take 32))) := by
    have hend : (bytes.drop 45).take 32 = bytes.drop 45 := by
      rw [List.take_of_length_le]
      rw [List.length_drop, hlength, payloadLen]
    have hdrop : ∀ i j, (bytes.drop i).take j ++ bytes.drop (i + j) = bytes.drop i := by
      intro i j
      rw [← List.drop_drop, List.take_append_drop]
    rw [hend, hdrop 13 32, hdrop 5 8, hdrop 4 1, List.take_append_drop]
  have hfield : ∀ i j, i + j ≤ payloadLen → ((bytes.drop i).take j).length = j := by
    intro i j hij
    rw [List.length_take, List.length_drop, hlength]
    omega
  have hbyte : (bytes.drop 4).take 1 = [operation.toByte] := by
    cases hget : bytes[4]? with
    | none =>
      rw [hget] at hoperation
      cases hoperation
    | some byte =>
      rw [hget, Option.bind_some] at hoperation
      rw [List.take_one, List.head?_drop, hget, toByte_of_fromByte hoperation]
      rfl
  obtain ⟨hoffset, hput⟩ := putU64_fromBeBytes (hfield 5 8 (by decide))
  refine ⟨fromBeBytes ((bytes.drop 5).take 8), hoffset,
    ⟨((bytes.drop 13).take 32).toArray, hfield 13 32 (by decide)⟩,
    ⟨((bytes.drop 45).take 32).toArray, hfield 45 32 (by decide)⟩, ?_⟩
  rw [payload, Nat.min_eq_left (by omega), hput]
  simpa [hmagic, hbyte] using hparts

/-- A token that is not invalid was made by this authority for the operation. -/
theorem eq_encode (sha256 : List UInt8 → Hash) (authority : CursorAuthority) {token : String}
    (h : authority.decode sha256 token operation revision binding ≠ .error .invalidCursor) :
    ∃ offset < 2 ^ 64, ∃ revision' binding' : Hash,
      token = authority.encode sha256 operation offset revision' binding' := by
  rw [decode] at h
  cases hdecode : base64urlDecode token.toList with
  | none =>
    rw [hdecode] at h
    exact absurd rfl h
  | some bytes =>
    rw [hdecode] at h
    dsimp only at h
    split_ifs at h with hshape htag hoperation
    · exact absurd rfl h
    · exact absurd rfl h
    · exact absurd rfl h
    all_goals
      rw [not_or, not_not, not_not] at hshape
      rw [not_not] at htag hoperation
      have hlength : (bytes.take payloadLen).length = payloadLen := by
        rw [List.length_take, hshape.1]
        decide
      have hmagic : (bytes.take payloadLen).take 4 = cursorMagic := by
        rw [List.take_take]
        exact hshape.2
      obtain ⟨offset, hoffset, revision', binding', hpayload⟩ :=
        eq_payload operation hlength hmagic hoperation
      refine ⟨offset, hoffset, revision', binding', String.ext ?_⟩
      have hinput := (Base64.base64urlDecode_eq_some.mp hdecode).2
      rw [encode, String.toList_ofList, hinput, ← hpayload, ← htag, List.take_append_drop]

/-- A token is decoded exactly when it is the one made for the request, its text is the one spelling
of its bytes, and it is stale exactly when it was made for the operation in another revision. -/
theorem decode_exact (sha256 : List UInt8 → Hash) (authority : CursorAuthority) (token : String) :
    (∀ offset, authority.decode sha256 token operation revision binding = .ok offset ↔
      offset < 2 ^ 64 ∧ token = authority.encode sha256 operation offset revision binding) ∧
    (∀ bytes, base64urlDecode token.toList = some bytes ↔
      bytes ≠ [] ∧ token.toList = base64urlEncode bytes) ∧
    (authority.decode sha256 token operation revision binding = .error .staleCursor ↔
      ∃ offset < 2 ^ 64, ∃ revision' binding' : Hash, revision' ≠ revision ∧
        token = authority.encode sha256 operation offset revision' binding') := by
  refine ⟨fun offset => ⟨fun hok => ?_, ?_⟩, fun bytes => Base64.base64urlDecode_eq_some,
    fun hstale => ?_, ?_⟩
  · have hvalid : authority.decode sha256 token operation revision binding ≠
        .error .invalidCursor := by
      rw [hok]
      intro h
      cases h
    obtain ⟨offset', hoffset, revision', binding', rfl⟩ := eq_encode _ _ _ sha256 authority hvalid
    rw [decode_encode_eq _ _ _ _ _ hoffset, if_neg (not_not.mpr rfl)] at hok
    split_ifs at hok with hrevision hbinding
    cases hok
    obtain rfl := not_not.mp hrevision
    obtain rfl := not_not.mp hbinding
    exact ⟨hoffset, rfl⟩
  · rintro ⟨hoffset, rfl⟩
    exact decode_encode operation revision binding sha256 authority hoffset
  · have hvalid : authority.decode sha256 token operation revision binding ≠
        .error .invalidCursor := by
      rw [hstale]
      intro h
      cases h
    obtain ⟨offset, hoffset, revision', binding', rfl⟩ := eq_encode _ _ _ sha256 authority hvalid
    refine ⟨offset, hoffset, revision', binding', fun hsame => ?_, rfl⟩
    rw [decode_encode_eq _ _ _ _ _ hoffset, if_neg (not_not.mpr rfl),
      if_neg (not_not.mpr hsame)] at hstale
    split_ifs at hstale
    cases hstale
  · rintro ⟨offset, hoffset, revision', binding', hne, rfl⟩
    rw [decode_encode_eq _ _ _ _ _ hoffset, if_neg (not_not.mpr rfl), if_pos hne]

/-- A token of the other operation is invalid, whatever its revision. -/
theorem other_operation_not_stale : ¬∃ (sha256 : List UInt8 → Hash) (authority : CursorAuthority),
    authority.decode sha256
      (authority.encode sha256 .search 0 (.replicate 32 1) (.replicate 32 3)) .browse
        (.replicate 32 2) (.replicate 32 3) = .error .staleCursor := by
  rintro ⟨sha256, authority, hstale⟩
  rw [decode_encode_eq _ _ _ _ _ (by decide), if_pos (by decide)] at hstale
  cases hstale

end CursorAuthority

end StoreCatalog
