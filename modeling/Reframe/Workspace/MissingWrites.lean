import Reframe.Workspace.Counters

/-! Writes to a path without a file. The daemon builds the content of the new file on its own; here
it is compared with a file that is created empty and then written or resized. -/
namespace Workspace
open NormalizedPath

namespace ResidentWorkspace

variable [Blake3]

/-- The workspace after a call: a failed call leaves it alone. -/
def settled (ws : ResidentWorkspace)
    (result : Except WorkspaceError (ResidentWorkspace × ChangeKind)) : ResidentWorkspace :=
  match result with
  | .ok (ws', _) => ws'
  | .error _ => ws

/-- An empty file is created at the path, and the operation runs on what that leaves. -/
def createThen (ws : ResidentWorkspace) (path : String)
    (operation : ResidentWorkspace → Except WorkspaceError (ResidentWorkspace × ChangeKind)) :
    ResidentWorkspace :=
  match ws.replace path [] with
  | .ok (created, _) => created.settled (operation created)
  | .error _ => ws

/-- Two workspaces hold the same files with the same bytes, the same directories, counters and
journal. -/
structure SameContents (ws ws' : ResidentWorkspace) : Prop where
  bytes : ∀ p, (ws.state.fileAt p).map ResidentFile.bytes =
    (ws'.state.fileAt p).map ResidentFile.bytes
  directories : ws.state.directories = ws'.state.directories
  fileCount : ws.fileCount = ws'.fileCount
  byteCount : ws.byteCount = ws'.byteCount
  dirty : ws.state.dirty = ws'.state.dirty
  changes : ws.changes.2 = ws'.changes.2

theorem SameContents.refl (ws : ResidentWorkspace) : ws.SameContents ws :=
  ⟨fun _ => rfl, rfl, rfl, rfl, rfl, rfl⟩

/-- No file is resident at the path. -/
def Missing (ws : ResidentWorkspace) (path : String) : Prop :=
  ∀ p, parseStr path = .ok p → ws.state.files.get? p = none

/-- Every call on the path is refused before it looks for a file. -/
def Refused (ws : ResidentWorkspace) (path : String) : Prop :=
  ws.scratch path = true ∨ ∀ p, parseStr path ≠ .ok p

/-- The text that the path is normalized to is not scratch either. -/
def Admitted (ws : ResidentWorkspace) (path : String) : Prop :=
  ∀ p, parseStr path = .ok p → ws.scratch p.asStr = false

variable {ws : ResidentWorkspace} {path : String} {p : NormalizedPath}

theorem replace_admitted (hscratch : ws.scratch path = false) (hparse : parseStr path = .ok p)
    (bytes : List UInt8) :
    ws.replace path bytes = .ok (ws.replaced p bytes, ws.state.kindOfWrite p) := by
  rw [replace, rejectScratch, hscratch, parse, hparse]
  rfl

/-- A file object that is made for a path that had none. -/
theorem fileAt_replaced (hmissing : ws.state.files.get? p = none) (bytes : List UInt8) :
    (ws.replaced p bytes).state.files.get? p = some ws.state.nextFile ∧
      (ws.replaced p bytes).state.heap ws.state.nextFile = .owned bytes := by
  simp only [replaced, ResidentState.replaceFile, hmissing, ResidentState.linkNew,
    ResidentState.ensureParentDirectories, updateByteCount, FiniteMap.get?_insert, if_true,
    Function.update_self, and_self]

/-- The new content takes the place of the empty one, and leaves what the creation had set. -/
theorem storeContent_replaced (hmissing : ws.state.files.get? p = none) (bytes : List UInt8)
    {change : ResidentFile × ℕ × ℕ} (hchange : change = (.owned bytes, 0, bytes.length)) :
    (ws.replaced p []).storeContent p ws.state.nextFile change = ws.replaced p bytes := by
  rw [hchange]
  simp only [storeContent, replaced, ResidentState.replaceFile, hmissing, ResidentState.linkNew,
    ResidentState.ensureParentDirectories, updateByteCount, ResidentState.setFile,
    ResidentFile.markDirty, ResidentFile.owned, Bool.not_true, Bool.false_eq_true, if_false,
    Function.update_idem, Nat.zero_le, if_true, List.length_nil, Nat.sub_zero, Nat.add_zero,
    Nat.mod_add_mod]

omit [Blake3] in
theorem write_nil_vector (offset : ℕ) {data : List UInt8} (hdata : data ≠ []) :
    ByteVector.write 0 [] offset data = List.replicate offset 0 ++ data := by
  have hlen : max 0 (offset + data.length) = offset + data.length := Nat.zero_max _
  simp only [ByteVector.write, if_neg hdata, List.length_nil, hlen, ByteVector.resize,
    ByteVector.splice, List.take_nil, List.nil_append, Nat.sub_zero, List.take_replicate,
    List.drop_replicate, Nat.min_eq_left (Nat.le_add_right offset data.length), Nat.sub_self,
    List.replicate_zero, List.append_nil]

/-- A write into an empty file pads it up to the offset. -/
theorem owned_nil_write {offset : ℕ} {data : List UInt8} (hfit : offset + data.length < 2 ^ 64)
    (hdata : data ≠ [] ∨ offset = 0) : (ResidentFile.owned []).write offset data =
      .ok (.owned (List.replicate offset 0 ++ data), 0, (List.replicate offset 0 ++ data).length) := by
  have hlen : (ResidentFile.owned []).content.len = 0 := rfl
  by_cases hnil : data = []
  · obtain rfl := hdata.resolve_left (not_not_intro hnil)
    subst hnil
    rfl
  · have hwrite : (ResidentFile.owned []).content.write offset (offset + data.length) data =
        some (.owned (List.replicate offset 0 ++ data) none) := by
      rw [ResidentFile.owned, FileContent.write, FileContent.ownedWrite_eq [] offset hnil,
        write_nil_vector offset hnil]
      rfl
    unfold ResidentFile.write
    rw [if_pos hfit, dif_neg hnil]
    split
    next content hcontent =>
      rw [hwrite] at hcontent
      cases hcontent
      rfl
    next hcontent =>
      rw [hwrite] at hcontent
      cases hcontent

theorem owned_nil_resize (size : ℕ) : (ResidentFile.owned []).resize size =
    (.owned (List.replicate size 0), 0, (List.replicate size (0 : UInt8)).length) := by
  have hcontent : (ResidentFile.owned []).content.resize size =
      .owned (List.replicate size 0) none := by
    rw [ResidentFile.owned, FileContent.resize]
    by_cases hsize : size = 0
    · rw [hsize]
      rfl
    · rw [if_neg (show size ≠ (FileContent.owned [] none).len from hsize)]
      simp only [ByteVector.resize, List.take_nil, List.nil_append, List.length_nil, Nat.sub_zero]
  rw [List.length_replicate]
  unfold ResidentFile.resize ResidentFile.owned at *
  simp only [Prod.mk.injEq, ResidentFile.mk.injEq, and_true]
  exact ⟨hcontent, rfl⟩

theorem bytes_replaced (hmissing : ws.state.files.get? p = none) (bytes : List UInt8) :
    ((ws.replaced p bytes).state.fileAt p).map ResidentFile.bytes = some bytes := by
  obtain ⟨hget, hheap⟩ := fileAt_replaced hmissing bytes
  rw [ResidentState.fileAt, hget, Option.map_some, hheap]
  rfl

/-- What a workspace without the file has in common with none that holds it. -/
theorem not_sameContents_replaced (hmissing : ws.state.files.get? p = none) (bytes : List UInt8) :
    ¬ ws.SameContents (ws.replaced p bytes) := by
  intro h
  have hbytes := h.bytes p
  rw [bytes_replaced hmissing, ResidentState.fileAt, hmissing] at hbytes
  cases hbytes

/-- The new file is made under the normalized text, which may be scratch though the given text was
not. -/
theorem settled_replace_asStr (bytes : List UInt8) : ws.settled (ws.replace p.asStr bytes) =
    if ws.scratch p.asStr then ws else ws.replaced p bytes := by
  split_ifs with hscratch
  · rw [replace, rejectScratch, if_pos hscratch]
    rfl
  · rw [replace_admitted (Bool.eq_false_iff.mpr hscratch) (parseStr_asStr p)]
    rfl

theorem settled_write_missing (hscratch : ws.scratch path = false) (hparse : parseStr path = .ok p)
    (hmissing : ws.state.files.get? p = none) (offset : ℕ) (data : List UInt8) :
    ws.settled (ws.write path offset data) =
      if offset + data.length < 2 ^ 64 ∧ ws.scratch p.asStr = false then
        ws.replaced p (List.replicate offset 0 ++ data) else ws := by
  have hwrite : ws.write path offset data = if offset + data.length < 2 ^ 64 then
      ws.replace p.asStr (List.replicate offset 0 ++ data)
      else .error (.file .writeLengthOverflow) := by
    rw [write, rejectScratch, hscratch, parse, hparse]
    simp only [Bool.false_eq_true, if_false, Except.mapError, bind, Except.bind, hmissing]
  rw [hwrite]
  by_cases hfit : offset + data.length < 2 ^ 64
  · rw [if_pos hfit, settled_replace_asStr]
    cases hnormalized : ws.scratch p.asStr with
    | false => rw [if_neg Bool.false_ne_true, if_pos ⟨hfit, rfl⟩]
    | true => rw [if_pos rfl, if_neg fun h => Bool.noConfusion h.2]
  · rw [if_neg hfit, if_neg fun h => hfit h.1]
    rfl

theorem settled_resize_missing (hscratch : ws.scratch path = false)
    (hparse : parseStr path = .ok p) (hmissing : ws.state.files.get? p = none) (size : ℕ) :
    ws.settled (ws.resize path size) =
      if ws.scratch p.asStr = false then ws.replaced p (List.replicate size 0) else ws := by
  have hresize : ws.resize path size = ws.replace p.asStr (List.replicate size 0) := by
    rw [resize, rejectScratch, hscratch, parse, hparse]
    simp only [Bool.false_eq_true, if_false, Except.mapError, bind, Except.bind, hmissing]
  rw [hresize, settled_replace_asStr]
  cases ws.scratch p.asStr <;> simp

/-- The file that was created empty is found again by the operation on it. -/
theorem createThen_write (hscratch : ws.scratch path = false) (hparse : parseStr path = .ok p)
    (hmissing : ws.state.files.get? p = none) (offset : ℕ) (data : List UInt8) :
    ws.createThen path (·.write path offset data) =
      if offset + data.length < 2 ^ 64 ∧ (data ≠ [] ∨ offset = 0) then
        ws.replaced p (List.replicate offset 0 ++ data) else ws.replaced p [] := by
  obtain ⟨hget, hheap⟩ := fileAt_replaced hmissing []
  have hkept : (ws.replaced p []).scratch = ws.scratch := rfl
  rw [createThen, replace_admitted hscratch hparse]
  dsimp only
  rw [write, rejectScratch, hkept, hscratch, parse, hparse]
  simp only [Bool.false_eq_true, if_false, Except.mapError, bind, Except.bind, hget, hheap]
  by_cases hfit : offset + data.length < 2 ^ 64
  · by_cases hdata : data ≠ [] ∨ offset = 0
    · rw [if_pos ⟨hfit, hdata⟩, owned_nil_write hfit hdata]
      exact storeContent_replaced hmissing _ rfl
    · rw [if_neg fun h => hdata h.2]
      obtain ⟨hnil, -⟩ := not_or.mp hdata
      rw [not_not] at hnil
      rw [ResidentFile.write, if_pos hfit, dif_pos hnil]
      exact storeContent_replaced hmissing [] rfl
  · rw [if_neg fun h => hfit h.1, ResidentFile.write, if_neg hfit]
    rfl

theorem createThen_resize (hscratch : ws.scratch path = false) (hparse : parseStr path = .ok p)
    (hmissing : ws.state.files.get? p = none) (size : ℕ) :
    ws.createThen path (·.resize path size) = ws.replaced p (List.replicate size 0) := by
  obtain ⟨hget, hheap⟩ := fileAt_replaced hmissing []
  have hkept : (ws.replaced p []).scratch = ws.scratch := rfl
  rw [createThen, replace_admitted hscratch hparse]
  dsimp only
  rw [resize, rejectScratch, hkept, hscratch, parse, hparse]
  simp only [Bool.false_eq_true, if_false, Except.mapError, bind, Except.bind, hget, hheap,
    owned_nil_resize, settled]
  exact storeContent_replaced hmissing _ rfl

/-- A call on a refused path changes nothing, and neither does the creation before it. -/
theorem settled_refused (h : ws.Refused path) (offset size : ℕ) (data : List UInt8) :
    ws.settled (ws.write path offset data) = ws ∧ ws.settled (ws.resize path size) = ws ∧
      ∀ operation, ws.createThen path operation = ws := by
  have hrefused : ∀ {α : Type} (rest : NormalizedPath → Except WorkspaceError α),
      ∃ e, (ws.rejectScratch path >>= fun _ => parse path >>= rest) = .error e := by
    intro α rest
    rw [rejectScratch]
    rcases h with hscratch | hparse
    · exact ⟨_, by rw [if_pos hscratch]; rfl⟩
    · split_ifs
      · exact ⟨_, rfl⟩
      · cases hp : parseStr path with
        | ok p => exact (hparse p hp).elim
        | error e => exact ⟨.path e, by rw [parse, hp]; rfl⟩
  refine ⟨?_, ?_, fun operation => ?_⟩
  · obtain ⟨e, he⟩ := hrefused _
    rw [write, he]
    rfl
  · obtain ⟨e, he⟩ := hrefused _
    rw [resize, he]
    rfl
  · obtain ⟨e, he⟩ := hrefused _
    rw [createThen, replace, he]

theorem not_refused (h : ¬ ws.Refused path) : ws.scratch path = false ∧
    ∃ p, parseStr path = .ok p := by
  simp only [Refused, not_or, Bool.not_eq_true, not_forall, not_not] at h
  exact h

/-- A write or a resize of a missing file leaves what creating it empty and then writing or resizing
it leaves, exactly when the normalized path is admitted too, the end of the write fits an address,
and the write is not an empty one past the start. -/
theorem missing_write_as_created_iff (ws : ResidentWorkspace) (path : String)
    (hmissing : ws.Missing path) (offset size : ℕ) (data : List UInt8) :
    ((ws.settled (ws.write path offset data)).SameContents
        (ws.createThen path (·.write path offset data)) ↔
      ws.Refused path ∨ ws.Admitted path ∧ offset + data.length < 2 ^ 64 ∧
        (data ≠ [] ∨ offset = 0)) ∧
    ((ws.settled (ws.resize path size)).SameContents (ws.createThen path (·.resize path size)) ↔
      ws.Refused path ∨ ws.Admitted path) := by
  by_cases hrefused : ws.Refused path
  · obtain ⟨hwrite, hresize, hcreate⟩ := settled_refused hrefused offset size data
    rw [hwrite, hresize, hcreate, hcreate]
    exact ⟨iff_of_true (.refl ws) (.inl hrefused), iff_of_true (.refl ws) (.inl hrefused)⟩
  obtain ⟨hscratch, p, hparse⟩ := not_refused hrefused
  have hnone := hmissing p hparse
  have hadmitted : ws.Admitted path ↔ ws.scratch p.asStr = false := by
    refine ⟨fun h => h p hparse, fun h q hq => ?_⟩
    rw [hparse] at hq
    cases hq
    exact h
  rw [or_iff_right hrefused, or_iff_right hrefused, hadmitted,
    settled_write_missing hscratch hparse hnone, settled_resize_missing hscratch hparse hnone,
    createThen_write hscratch hparse hnone, createThen_resize hscratch hparse hnone]
  constructor
  · by_cases hdirect : offset + data.length < 2 ^ 64 ∧ ws.scratch p.asStr = false
    · rw [if_pos hdirect]
      by_cases hdata : data ≠ [] ∨ offset = 0
      · rw [if_pos ⟨hdirect.1, hdata⟩]
        exact iff_of_true (.refl _) ⟨hdirect.2, hdirect.1, hdata⟩
      · rw [if_neg fun h => hdata h.2]
        refine iff_of_false (fun h => ?_) fun h => hdata h.2.2
        have hbytes := h.bytes p
        rw [bytes_replaced hnone, bytes_replaced hnone] at hbytes
        have hlength := congrArg List.length (Option.some.inj hbytes)
        simp only [List.length_append, List.length_replicate, List.length_nil] at hlength
        omega
    · rw [if_neg hdirect]
      refine iff_of_false (fun h => ?_) fun h => hdirect ⟨h.2.1, h.1⟩
      split_ifs at h
      · exact not_sameContents_replaced hnone _ h
      · exact not_sameContents_replaced hnone _ h
  · cases hnormalized : ws.scratch p.asStr with
    | false => exact iff_of_true (by rw [if_pos rfl]; exact .refl _) rfl
    | true =>
      rw [if_neg (by simp)]
      exact iff_of_false (not_sameContents_replaced hnone _) (by simp)

end ResidentWorkspace

namespace TestVectors

/-- A workspace without files, where nothing is scratch. -/
def bareWorkspace : ResidentWorkspace := ⟨emptyState ∅ ∅, fun _ => false, 0, 0⟩

theorem bareWorkspace_missing (path : String) : bareWorkspace.Missing path := fun _ _ => rfl

theorem missing_write_as_created_padded :
    (bareWorkspace.settled (bareWorkspace.write "a" 2 [7])).SameContents
      (bareWorkspace.createThen "a" (·.write "a" 2 [7])) :=
  (ResidentWorkspace.missing_write_as_created_iff bareWorkspace "a" (bareWorkspace_missing "a") 2 0
    [7]).1.mpr (.inr ⟨fun _ _ => rfl, by decide, .inl (by decide)⟩)

/-- An empty write at offset five makes a file of five zero bytes where none was; into a file that
was created empty it writes nothing. -/
theorem empty_write_pads_missing_file :
    bareWorkspace.Missing "a" ∧
      ((bareWorkspace.settled (bareWorkspace.write "a" 5 [])).state.files.toList.map fun e =>
        ((bareWorkspace.settled (bareWorkspace.write "a" 5 [])).state.heap e.2).bytes) =
        [[0, 0, 0, 0, 0]] ∧
      ((bareWorkspace.createThen "a" (·.write "a" 5 [])).state.files.toList.map fun e =>
        ((bareWorkspace.createThen "a" (·.write "a" 5 [])).state.heap e.2).bytes) = [[]] ∧
      ¬ (bareWorkspace.settled (bareWorkspace.write "a" 5 [])).SameContents
        (bareWorkspace.createThen "a" (·.write "a" 5 [])) := by
  refine ⟨bareWorkspace_missing "a", by decide +kernel, by decide +kernel, fun h => ?_⟩
  have hcount := h.byteCount
  revert hcount
  decide +kernel

end TestVectors
end Workspace
