import Mathlib.Logic.Basic

/-! Verified blobs. BLAKE3 itself is outside the repository: a `Blake3` instance carries its
one-shot and incremental interfaces together with their documented agreement. -/
namespace Workspace

class Blake3 where
  Digest : Type
  Hasher : Type
  [decEq : DecidableEq Digest]
  hash : List UInt8 → Digest
  new : Hasher
  update : Hasher → List UInt8 → Hasher
  finalize : Hasher → Digest
  toHex : Digest → String
  fromHex : String → Option Digest
  fromHex_toHex : ∀ d, fromHex (toHex d) = some d
  length_toHex : ∀ d, (toHex d).length = 64
  /-- Hashing in pieces is hashing the concatenation. -/
  finalize_update : ∀ chunks : List (List UInt8),
    finalize (chunks.foldl update new) = hash chunks.flatten

section

variable [Blake3]

instance : DecidableEq Blake3.Digest := Blake3.decEq

/-- The hexadecimal name of a byte string, the text every record stores. -/
def hexHash (bytes : List UInt8) : String := Blake3.toHex (Blake3.hash bytes)

theorem hexHash_ne_empty (bytes : List UInt8) : hexHash bytes ≠ "" := by
  intro h
  have hlen := Blake3.length_toHex (Blake3.hash bytes)
  rw [show Blake3.toHex (Blake3.hash bytes) = "" from h] at hlen
  cases hlen

/-- Equal names are equal digests. -/
theorem hash_eq_of_hexHash_eq {a b : List UInt8} (h : hexHash a = hexHash b) :
    Blake3.hash a = Blake3.hash b := by
  have hdigest := congrArg Blake3.fromHex h
  simpa [hexHash, Blake3.fromHex_toHex] using hdigest

/-- Immutable bytes coupled to a digest. Nothing in the type ties the two:
`fromPrehashed` trusts its caller. -/
structure VerifiedBlob where
  bytes : List UInt8
  digest : Blake3.Digest

namespace VerifiedBlob

def new (bytes : List UInt8) : VerifiedBlob := ⟨bytes, Blake3.hash bytes⟩

def fromPrehashed (bytes : List UInt8) (digest : Blake3.Digest) : VerifiedBlob := ⟨bytes, digest⟩

inductive VerifyError where
  | invalidDigest (expected : String)
  | digestMismatch (expected found : String)
  deriving DecidableEq

def verify (bytes : List UInt8) (expected : String) : Except VerifyError VerifiedBlob :=
  match Blake3.fromHex expected with
  | none => .error (.invalidDigest expected)
  | some digest =>
    if (new bytes).digest = digest then .ok (new bytes)
    else .error (.digestMismatch (Blake3.toHex digest) (Blake3.toHex (new bytes).digest))

def hashHex (blob : VerifiedBlob) : String := Blake3.toHex blob.digest

/-- The digest is the one of the bytes. -/
def Sound (blob : VerifiedBlob) : Prop := blob.digest = Blake3.hash blob.bytes

theorem new_sound (bytes : List UInt8) : (new bytes).Sound := rfl

theorem verify_eq_ok {bytes : List UInt8} {expected : String} {blob : VerifiedBlob}
    (h : verify bytes expected = .ok blob) :
    blob = new bytes ∧ Blake3.fromHex expected = some (Blake3.hash bytes) := by
  unfold verify at h
  split at h
  · cases h
  next digest hd =>
    split at h
    next he =>
      cases h
      exact ⟨rfl, by rw [hd, ← he]; rfl⟩
    next => cases h

theorem verify_hexHash (bytes : List UInt8) : verify bytes (hexHash bytes) = .ok (new bytes) := by
  simp [verify, hexHash, Blake3.fromHex_toHex, new]

end VerifiedBlob

end

namespace TestVectors

def isHexDigest (text : String) : Bool :=
  text.length == 64 && text.toList.all fun c => ('0' ≤ c && c ≤ '9') || ('a' ≤ c && c ≤ 'f')

def empty : String := "af1349b9f5f9a1a6a0404dea36dcc9499bcb25c9adc112b7cc9a93cae41f3262"

def zeroByte : String := "2d3adedff11b61f14c886e35afa036736dcd87a74d27b5c1510225d0f592e213"

/-- The digest of the bytes 1, 0, 9, 0. -/
def editedBytes : String := "544ec278a0a365457f72eabf485a3b97aec1b110111e876cbf85755206c0e0fc"

/-- The payload of a request to close the session `id`. -/
def closePayload (id : String) : List UInt8 :=
  ("\x7b\"operation\":\"close_workspace\",\"session_id\":\"" ++ id ++ "\"\x7d").toList.map
    fun c => UInt8.ofNat c.toNat

/-- The BLAKE3 digests of no byte, of one zero byte, of three bytes before and after an edit, and of
two request payloads; other inputs have no vector here. -/
def digestText (bytes : List UInt8) : {text : String // isHexDigest text} :=
  if bytes = [] then ⟨empty, by decide⟩
  else if bytes = [0] then ⟨zeroByte, by decide⟩
  else if bytes = [1, 2, 3] then
    ⟨"b177ec1bf26dfb3b7010d473e6d44713b29b765b99c6e60ecbfae742de496543", by decide⟩
  else if bytes = [1, 0, 9, 0] then ⟨editedBytes, by decide⟩
  else if bytes = closePayload "s" then
    ⟨"3066da338089686916ebc8eb5baed33d90543edecde8c7c75d3bb807501b02a0", by decide⟩
  else if bytes = closePayload "t" then
    ⟨"0db8e0606299ae0c3476a307510ce0501d2b365d923f585750cbebc96f14e456", by decide⟩
  else ⟨"0000000000000000000000000000000000000000000000000000000000000000", by decide⟩

/-- A concrete `Blake3` for evaluating the model on inputs that the vectors cover. -/
scoped instance blake3 : Blake3 where
  Digest := {text : String // isHexDigest text}
  Hasher := List UInt8
  hash := digestText
  new := []
  update hasher chunk := hasher ++ chunk
  finalize := digestText
  toHex := Subtype.val
  fromHex text := if h : isHexDigest text then some ⟨text, h⟩ else none
  fromHex_toHex d := by simp [d.2]
  length_toHex d := by
    have h := d.2
    simp only [isHexDigest, Bool.and_eq_true, beq_iff_eq] at h
    exact h.1
  finalize_update chunks := by
    have h : ∀ (chunks : List (List UInt8)) (acc : List UInt8),
        chunks.foldl (fun hasher chunk => hasher ++ chunk) acc = acc ++ chunks.flatten := by
      intro chunks
      induction chunks with
      | nil => simp
      | cons chunk chunks ih => intro acc; simp [ih]
    rw [h, List.nil_append]

end TestVectors
end Workspace
