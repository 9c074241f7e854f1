import Reframe.Lib.Run
import Reframe.Workspace.ResidentFile

/-! A run of file operations against the same run on a plain byte vector. -/
namespace Workspace

inductive FileOp where
  | write (offset : ℕ) (data : List UInt8)
  | resize (size : ℕ)
  | replace (bytes : List UInt8)
  | hashHex
  | verifiedBlob
  deriving DecidableEq

namespace FileOp

/-- Offsets, sizes and buffer lengths as a 64-bit host can pass them. -/
def InRange : FileOp → Prop
  | write offset data => offset < 2 ^ 63 ∧ data.length < 2 ^ 63
  | resize size => size < 2 ^ 63
  | _ => True

/-- The effect on a plain byte vector. -/
def onVector (v : List UInt8) : FileOp → List UInt8
  | write offset data => ByteVector.write 0 v offset data
  | resize size => ByteVector.resize 0 v size
  | replace bytes => bytes
  | hashHex => v
  | verifiedBlob => v

variable [Blake3]

def apply (f : ResidentFile) : FileOp → Except FileError ResidentFile
  | write offset data => (f.write offset data).map (·.1)
  | resize size => .ok (f.resize size).1
  | replace bytes => .ok (f.replace bytes).1
  | hashHex => f.hashHex.map (·.2)
  | verifiedBlob => f.verifiedBlob.map (·.2)

/-- One operation on any representation is that operation on the vector. -/
theorem apply_spec (f : ResidentFile) (op : FileOp) (h : op.InRange) :
    ∃ f', op.apply f = .ok f' ∧ f'.bytes = op.onVector f.bytes := by
  cases op with
  | write offset data =>
    obtain ⟨f', lens, hw, hb, -⟩ := f.write_spec offset data
      (by have := h.1; have := h.2; omega)
    exact ⟨f', by simp [apply, hw, Except.map], hb⟩
  | resize size => exact ⟨_, rfl, f.bytes_resize size⟩
  | replace bytes => exact ⟨_, rfl, f.bytes_replace bytes⟩
  | hashHex =>
    obtain ⟨f', hf, hb, -⟩ := f.hashHex_spec
    exact ⟨f', by simp [apply, hf, Except.map], hb⟩
  | verifiedBlob =>
    obtain ⟨f', hf, hb, -⟩ := f.verifiedBlob_spec
    exact ⟨f', by simp [apply, hf, Except.map], hb⟩

end FileOp

/-- Whatever the operations, the file is observed as the plain vector they produce: no
operation fails, and length, ranged reads and the digest are the vector's. -/
theorem residentFile_run_refines_vector [Blake3] (blob : VerifiedBlob) (hblob : blob.Sound)
    (ops : List FileOp) (h : ∀ op ∈ ops, op.InRange) :
    ∃ f, Run.exec FileOp.apply (ResidentFile.shared blob hblob) ops = .ok f ∧
      f.len = (ops.foldl FileOp.onVector blob.bytes).length ∧
      (∀ offset size, f.readRange offset size =
        .ok (((ops.foldl FileOp.onVector blob.bytes).drop offset).take size)) ∧
      ∃ f', f.hashHex = .ok (hexHash (ops.foldl FileOp.onVector blob.bytes), f') := by
  obtain ⟨f, hf, hb⟩ := Run.exec_simulates (R := fun f v => f.bytes = v)
    (fun f v op hop hv => hv ▸ op.apply_spec f hop) ops (ResidentFile.shared blob hblob)
    blob.bytes h rfl
  refine ⟨f, hf, by rw [f.len_eq, hb], fun offset size => by rw [f.readRange_eq, hb], ?_⟩
  obtain ⟨f', hf', -, -⟩ := f.hashHex_spec
  exact ⟨f', by rw [hf', hb]⟩

/-- A blob of three bytes is cut to one, extended past its old end and written over. -/
def shortenAndExtend : List FileOp :=
  [.hashHex, .resize 1, .resize 4, .verifiedBlob, .write 2 [9]]

open TestVectors in
theorem residentFile_run_shorten_extend :
    ∃ f, Run.exec FileOp.apply
        (ResidentFile.shared (.new [1, 2, 3]) (VerifiedBlob.new_sound [1, 2, 3])) shortenAndExtend =
          .ok f ∧ f.len = 4 ∧
      (∀ offset size, f.readRange offset size =
        .ok ((([1, 0, 9, 0] : List UInt8).drop offset).take size)) ∧
      ∃ f', f.hashHex = .ok (editedBytes, f') :=
  residentFile_run_refines_vector (.new [1, 2, 3]) (VerifiedBlob.new_sound [1, 2, 3])
    shortenAndExtend (by simp [shortenAndExtend, FileOp.InRange])

end Workspace
