import Reframe.Workspace.PagedContent

/-! The three representations of a resident file and the file handle over them. Every file
refines a plain byte vector: the representation is not observable. -/
namespace Workspace
open ByteVector

variable [Blake3]

inductive FileContent where
  | shared (blob : VerifiedBlob)
  | overlay (content : PagedContent)
  | owned (bytes : List UInt8) (digest : Option Blake3.Digest)

/-- The number of bytes copied, with the whole output buffer after the copy. -/
def copySlice (bytes : List UInt8) (offset : ℕ) (output : List UInt8) :
    Option (ℕ × List UInt8) :=
  if bytes.length ≤ offset then some (0, output)
  else do
    let count := min output.length (bytes.length - offset)
    let chunk ← slice? bytes offset (offset + count)
    let output ← copyAt? output 0 chunk
    some (count, output)

/-- `OwnedContent::write`: two growing resizes, then an in-place copy. -/
def ownedWrite (bytes : List UInt8) (offset last : ℕ) (data : List UInt8) :
    Option (List UInt8) :=
  let bytes := if bytes.length < offset then resize 0 bytes offset else bytes
  let bytes := if bytes.length < last then resize 0 bytes last else bytes
  if last - offset = data.length then copyAt? bytes offset data else none

namespace FileContent

def len : FileContent → ℕ
  | shared blob => blob.bytes.length
  | overlay content => content.len
  | owned bytes _ => bytes.length

def copyInto (offset : ℕ) (output : List UInt8) : FileContent → Option (ℕ × List UInt8)
  | shared blob => copySlice blob.bytes offset output
  | overlay content => content.copyInto offset output
  | owned bytes _ => copySlice bytes offset output

def digest : FileContent → Option (Blake3.Digest × FileContent)
  | shared blob => some (blob.digest, shared blob)
  | overlay content => do
    let (digest, content) ← content.computeDigest
    some (digest, overlay content)
  | owned bytes cached =>
    let digest := cached.getD (Blake3.hash bytes)
    some (digest, owned bytes (some digest))

/-- The sealed blob; the content itself becomes that blob, shared. -/
def sealBlob (c : FileContent) : Option VerifiedBlob :=
  match c with
  | shared blob => some blob
  | c => do
    let (digest, c) ← c.digest
    match c with
    | overlay content => do
      let bytes ← content.materialize
      some (.fromPrehashed bytes digest)
    | owned bytes _ => some (.fromPrehashed bytes digest)
    | shared _ => none

def write (offset last : ℕ) (data : List UInt8) : FileContent → Option FileContent
  | owned bytes _ => do
    let bytes ← ownedWrite bytes offset last data
    some (owned bytes none)
  | overlay content => do
    let content ← content.write offset data
    some (overlay content)
  | shared blob =>
    if offset = 0 ∧ last = blob.bytes.length then some (owned data none)
    else do
      let content ← (PagedContent.new blob).write offset data
      some (overlay content)

def resize (c : FileContent) (size : ℕ) : FileContent :=
  if size = c.len then c
  else match c with
    | owned bytes _ => owned (ByteVector.resize 0 bytes size) none
    | overlay content => if size = 0 then owned [] none else overlay (content.resize size)
    | shared blob =>
      if size = 0 then owned [] none else overlay ((PagedContent.new blob).resize size)

/-- The plain byte vector a content stands for. -/
def toBytes : FileContent → List UInt8
  | shared blob => blob.bytes
  | overlay content => content.toBytes
  | owned bytes _ => bytes

/-- Every stored digest is the digest of the bytes, and an overlay is well-formed. -/
def WF : FileContent → Prop
  | shared blob => blob.Sound
  | overlay content => content.WF
  | owned bytes cached => ∀ d, cached = some d → d = Blake3.hash bytes

theorem owned_wf (bytes : List UInt8) : (owned bytes none).WF := fun _ h => by cases h

theorem len_eq (c : FileContent) : c.len = c.toBytes.length := by
  cases c with
  | shared blob => rfl
  | overlay content => exact (PagedContent.length_toBytes content).symm
  | owned bytes cached => rfl

omit [Blake3] in
theorem copySlice_spec (bytes : List UInt8) {offset : ℕ} {output : List UInt8}
    (ho : offset < bytes.length) (hfit : output.length ≤ bytes.length - offset) :
    copySlice bytes offset output =
      some (output.length, (bytes.drop offset).take output.length) := by
  have hcount : min output.length (bytes.length - offset) = output.length := by omega
  have hlen := length_slice offset (show offset + output.length ≤ bytes.length by omega)
  have hcopy : copyAt? output 0 ((bytes.take (offset + output.length)).drop offset) =
      some ((bytes.drop offset).take output.length) := by
    rw [copyAt?_eq_some (by omega), splice, hlen, List.drop_take]
    simp
  rw [copySlice, if_neg (by omega)]
  simp only [hcount, slice?_eq_some (show offset ≤ offset + output.length by omega)
    (show offset + output.length ≤ bytes.length by omega), hcopy, Option.bind_eq_bind,
    Option.bind_some]

/-- A buffer no longer than the rest of the file is filled from the file. -/
theorem WF.copyInto {c : FileContent} (h : c.WF) (offset : ℕ) (output : List UInt8)
    (ho : offset < c.len) (hfit : output.length ≤ c.len - offset) :
    ∃ count, c.copyInto offset output =
      some (count, (c.toBytes.drop offset).take output.length) := by
  cases c with
  | shared blob => exact ⟨_, copySlice_spec blob.bytes ho hfit⟩
  | owned bytes cached => exact ⟨_, copySlice_spec bytes ho hfit⟩
  | overlay content =>
    change offset < content.len at ho
    change output.length ≤ content.len - offset at hfit
    by_cases hne : output = []
    · exact ⟨0, by simp [FileContent.copyInto, PagedContent.copyInto, hne]⟩
    · refine ⟨output.length, ?_⟩
      have hcount : min output.length (content.len - offset) = output.length := by omega
      have hread : (List.range output.length).map (fun k => content.byteAt (offset + k)) =
          (content.toBytes.drop offset).take output.length := by
        symm
        apply eq_map_range 0
        · rw [List.length_take, List.length_drop, PagedContent.length_toBytes, hcount]
        · intro k hk
          rw [← h.getD_toBytes, List.getD_eq_getElem?_getD, List.getElem?_take_of_lt hk,
            List.getElem?_drop, List.getD_eq_getElem?_getD]
      rw [FileContent.copyInto, PagedContent.copyInto_spec h.visible_base ho hne, hcount, hread]
      simp [toBytes]

theorem WF.digest {c : FileContent} (h : c.WF) :
    ∃ c', c.digest = some (Blake3.hash c.toBytes, c') ∧ c'.WF ∧ c'.toBytes = c.toBytes := by
  cases c with
  | shared blob =>
    have hb : blob.digest = Blake3.hash blob.bytes := h
    exact ⟨shared blob, by rw [FileContent.digest, hb, toBytes], h, rfl⟩
  | overlay content =>
    obtain ⟨content', hd, hw, hb⟩ := PagedContent.WF.computeDigest h
    exact ⟨overlay content', by simp [FileContent.digest, hd, toBytes], hw, hb⟩
  | owned bytes cached =>
    have hcached : cached.getD (Blake3.hash bytes) = Blake3.hash bytes := by
      cases cached with
      | none => rfl
      | some d => exact h d rfl
    refine ⟨owned bytes (some (Blake3.hash bytes)), by simp [FileContent.digest, hcached, toBytes],
      fun d hd => (Option.some.inj hd).symm, rfl⟩

theorem WF.sealBlob {c : FileContent} (h : c.WF) : c.sealBlob = some (VerifiedBlob.new c.toBytes) := by
  cases c with
  | shared blob =>
    have hb : blob.digest = Blake3.hash blob.bytes := h
    cases blob
    simp_all [FileContent.sealBlob, VerifiedBlob.new, toBytes]
  | overlay content =>
    obtain ⟨content', hd, hw, hb⟩ := PagedContent.WF.computeDigest h
    simp [FileContent.sealBlob, FileContent.digest, hd, hw.materialize, hb, toBytes, VerifiedBlob.new,
      VerifiedBlob.fromPrehashed]
  | owned bytes cached =>
    obtain ⟨c', hd, -, -⟩ := WF.digest (c := owned bytes cached) h
    simp only [FileContent.digest, Option.some.injEq, Prod.mk.injEq] at hd
    simp [FileContent.sealBlob, FileContent.digest, hd.1, toBytes, VerifiedBlob.new,
      VerifiedBlob.fromPrehashed]

omit [Blake3] in
theorem ownedWrite_eq (bytes : List UInt8) (offset : ℕ) {data : List UInt8} (hd : data ≠ []) :
    ownedWrite bytes offset (offset + data.length) data =
      some (ByteVector.write 0 bytes offset data) := by
  have hpos : 0 < data.length := List.length_pos_of_ne_nil hd
  rw [ownedWrite, if_pos (by omega)]
  rw [grow_eq_resize, grow_eq_resize, resize_resize 0 (Nat.le_max_left _ _), length_resize,
    ByteVector.write, if_neg hd,
    show max (max bytes.length offset) (offset + data.length) =
      max bytes.length (offset + data.length) by omega,
    copyAt?_eq_some (by rw [length_resize]; omega)]

/-- A write through any representation is the write of the plain vector. -/
theorem WF.write {c : FileContent} (h : c.WF) (offset : ℕ) {data : List UInt8} (hd : data ≠ []) :
    ∃ c', c.write offset (offset + data.length) data = some c' ∧ c'.WF ∧
      c'.toBytes = ByteVector.write 0 c.toBytes offset data := by
  cases c with
  | owned bytes cached =>
    exact ⟨owned (ByteVector.write 0 bytes offset data) none,
      by simp [FileContent.write, ownedWrite_eq bytes offset hd], owned_wf _, rfl⟩
  | overlay content =>
    obtain ⟨content', hc, hw, hb⟩ := PagedContent.WF.write h offset hd
    exact ⟨overlay content', by simp [FileContent.write, hc], hw, hb⟩
  | shared blob =>
    by_cases hall : offset = 0 ∧ offset + data.length = blob.bytes.length
    · refine ⟨owned data none, by simp only [FileContent.write, if_pos hall], owned_wf _, ?_⟩
      obtain ⟨rfl, hlen⟩ := hall
      apply ext_getD 0
      · rw [length_write 0 _ _ hd, toBytes, toBytes]
        omega
      · intro i hi
        rw [getD_write, if_pos (by simpa [toBytes] using hi), Nat.sub_zero, toBytes]
    · obtain ⟨content', hc, hw, hb⟩ := (PagedContent.new_wf (show blob.Sound from h)).write offset hd
      refine ⟨overlay content', by simp [FileContent.write, if_neg hall, hc], hw, ?_⟩
      exact hb.trans (by rw [PagedContent.new_toBytes, toBytes])

/-- A resize through any representation is the resize of the plain vector. -/
theorem WF.resize {c : FileContent} (h : c.WF) (size : ℕ) :
    (c.resize size).WF ∧ (c.resize size).toBytes = ByteVector.resize 0 c.toBytes size := by
  have hsame : size = c.len → c.toBytes = ByteVector.resize 0 c.toBytes size := by
    rintro rfl
    simp [ByteVector.resize, len_eq]
  unfold FileContent.resize
  by_cases hlen : size = c.len
  · rw [if_pos hlen]
    exact ⟨h, hsame hlen⟩
  · rw [if_neg hlen]
    cases c with
    | owned bytes cached => exact ⟨owned_wf _, rfl⟩
    | overlay content =>
      by_cases hz : size = 0
      · simp only [if_pos hz]
        exact ⟨owned_wf _, by simp [toBytes, ByteVector.resize, hz]⟩
      · simp only [if_neg hz]
        exact PagedContent.WF.resize h size
    | shared blob =>
      by_cases hz : size = 0
      · simp only [if_pos hz]
        exact ⟨owned_wf _, by simp [toBytes, ByteVector.resize, hz]⟩
      · simp only [if_neg hz]
        obtain ⟨hw, hb⟩ := (PagedContent.new_wf (show blob.Sound from h)).resize size
        exact ⟨hw, hb.trans (by rw [PagedContent.new_toBytes, toBytes])⟩

end FileContent

inductive FileError where
  | writeLengthOverflow
  | panic
  deriving DecidableEq

/-- An open file: its content, which is always well-formed, and its dirty flag. -/
structure ResidentFile where
  content : FileContent
  dirty : Bool
  wf : content.WF

namespace ResidentFile

def shared (blob : VerifiedBlob) (h : blob.Sound) : ResidentFile := ⟨.shared blob, false, h⟩

def owned (bytes : List UInt8) : ResidentFile :=
  ⟨.owned bytes none, true, FileContent.owned_wf _⟩

/-- The plain byte vector a file stands for. -/
def bytes (f : ResidentFile) : List UInt8 := f.content.toBytes

def len (f : ResidentFile) : ℕ := f.content.len

def readRange (f : ResidentFile) (offset size : ℕ) : Except FileError (List UInt8) :=
  if f.content.len ≤ offset then .ok []
  else match f.content.copyInto offset (List.replicate (min size (f.content.len - offset)) 0) with
    | some (_, output) => .ok output
    | none => .error .panic

def hashHex (f : ResidentFile) : Except FileError (String × ResidentFile) :=
  match h : f.content.digest with
  | some (digest, content) => .ok (Blake3.toHex digest, { f with
      content
      wf := by obtain ⟨c, hc, hw, -⟩ := f.wf.digest; grind })
  | none => .error .panic

def verifiedBlob (f : ResidentFile) : Except FileError (VerifiedBlob × ResidentFile) :=
  match h : f.content.sealBlob with
  | some blob => .ok (blob, { f with
      content := .shared blob
      wf := by
        rw [f.wf.sealBlob] at h
        exact Option.some.inj h ▸ VerifiedBlob.new_sound _ })
  | none => .error .panic

/-- The flag after, and whether this call set it. -/
def markDirty (f : ResidentFile) : Bool × ResidentFile := (!f.dirty, { f with dirty := true })

def markClean (f : ResidentFile) : ResidentFile := { f with dirty := false }

def replace (f : ResidentFile) (bytes : List UInt8) : ResidentFile × ℕ × ℕ :=
  ({ f with content := .owned bytes none, wf := FileContent.owned_wf _ },
    f.content.len, bytes.length)

/-- Offsets are 64-bit: the end of the write is a checked addition. -/
def write (f : ResidentFile) (offset : ℕ) (data : List UInt8) :
    Except FileError (ResidentFile × ℕ × ℕ) :=
  if offset + data.length < 2 ^ 64 then
    if hd : data = [] then .ok (f, f.content.len, f.content.len)
    else match h : f.content.write offset (offset + data.length) data with
      | some content => .ok ({ f with
          content
          wf := by obtain ⟨c, hc, hw, -⟩ := f.wf.write offset hd; grind },
          f.content.len, content.len)
      | none => .error .panic
  else .error .writeLengthOverflow

def resize (f : ResidentFile) (size : ℕ) : ResidentFile × ℕ × ℕ :=
  ({ f with content := f.content.resize size, wf := (f.wf.resize size).1 }, f.content.len, size)

@[simp] theorem bytes_shared (blob : VerifiedBlob) (h : blob.Sound) :
    (shared blob h).bytes = blob.bytes := rfl

@[simp] theorem bytes_owned (bytes : List UInt8) : (owned bytes).bytes = bytes := rfl

@[simp] theorem bytes_markClean (f : ResidentFile) : f.markClean.bytes = f.bytes := rfl

@[simp] theorem bytes_markDirty (f : ResidentFile) : f.markDirty.2.bytes = f.bytes := rfl

@[simp] theorem bytes_replace (f : ResidentFile) (bytes : List UInt8) :
    (f.replace bytes).1.bytes = bytes := rfl

@[simp] theorem bytes_resize (f : ResidentFile) (size : ℕ) :
    (f.resize size).1.bytes = ByteVector.resize 0 f.bytes size := (f.wf.resize size).2

theorem len_eq (f : ResidentFile) : f.len = f.bytes.length := f.content.len_eq

theorem readRange_eq (f : ResidentFile) (offset size : ℕ) :
    f.readRange offset size = .ok ((f.bytes.drop offset).take size) := by
  have hlen := f.content.len_eq
  unfold readRange
  by_cases ho : f.content.len ≤ offset
  · rw [if_pos ho, List.drop_eq_nil_of_le (by rw [bytes]; omega), List.take_nil]
  · obtain ⟨count, hc⟩ := f.wf.copyInto offset
      (List.replicate (min size (f.content.len - offset)) 0) (by omega)
      (by rw [List.length_replicate]; omega)
    rw [if_neg ho, hc, List.length_replicate, bytes]
    rw [hlen, ← List.length_drop, ← List.take_eq_take_min]

theorem hashHex_spec (f : ResidentFile) : ∃ f', f.hashHex = .ok (hexHash f.bytes, f') ∧
    f'.bytes = f.bytes ∧ f'.dirty = f.dirty := by
  obtain ⟨c, hc, hw, hb⟩ := f.wf.digest
  refine ⟨{ f with content := c, wf := hw }, ?_, hb, rfl⟩
  unfold hashHex
  grind [hexHash, bytes]

theorem verifiedBlob_spec (f : ResidentFile) : ∃ f',
    f.verifiedBlob = .ok (.new f.bytes, f') ∧ f'.bytes = f.bytes ∧ f'.dirty = f.dirty := by
  refine ⟨{ f with content := .shared (.new f.bytes), wf := VerifiedBlob.new_sound _ }, ?_, rfl, rfl⟩
  have h := f.wf.sealBlob
  unfold verifiedBlob
  grind [bytes]

theorem write_spec (f : ResidentFile) (offset : ℕ) (data : List UInt8)
    (h : offset + data.length < 2 ^ 64) : ∃ f' lens, f.write offset data = .ok (f', lens) ∧
      f'.bytes = ByteVector.write 0 f.bytes offset data ∧ f'.dirty = f.dirty := by
  unfold write
  rw [if_pos h]
  by_cases hd : data = []
  · rw [dif_pos hd, hd]
    exact ⟨f, _, rfl, by simp, rfl⟩
  · rw [dif_neg hd]
    obtain ⟨c, hc, hw, hb⟩ := f.wf.write offset hd
    refine ⟨{ f with content := c, wf := hw }, (f.content.len, c.len), ?_, hb, rfl⟩
    grind

end ResidentFile
end Workspace
