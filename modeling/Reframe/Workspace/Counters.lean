import Mathlib.Data.Nat.ModEq
import Reframe.Workspace.OperationEffect

/-! The file and byte counters of a workspace are kept by differences. Both count the linked files
with a weight, so one account of how a mutation changes a weight serves both. -/
namespace Workspace
open NormalizedPath

variable [Blake3]

namespace ResidentState

@[simp] theorem heap_setFile_self (s : ResidentState) (id : FileId) (file : ResidentFile) :
    (s.setFile id file).heap id = file := Function.update_self ..

theorem heap_setFile_ne (s : ResidentState) {id id' : FileId} (h : id' ≠ id) (file : ResidentFile) :
    (s.setFile id file).heap id' = s.heap id' := Function.update_of_ne h ..

@[simp] theorem heap_linkNew_self (s : ResidentState) (path : NormalizedPath)
    (file : ResidentFile) : (s.linkNew path file).heap s.nextFile = file := Function.update_self ..

theorem heap_linkNew_lt (s : ResidentState) (path : NormalizedPath) {id : FileId}
    (h : id < s.nextFile) (file : ResidentFile) : (s.linkNew path file).heap id = s.heap id :=
  Function.update_of_ne (Nat.ne_of_lt h) ..

/-- Linked objects are allocated, linked at one path each, and have a 64-bit length. -/
structure Linked (s : ResidentState) : Prop where
  fresh : ∀ p id, s.files.get? p = some id → id < s.nextFile
  once : ∀ p q id, s.files.get? p = some id → s.files.get? q = some id → p = q
  sized : ∀ p id, s.files.get? p = some id → (s.heap id).len < 2 ^ 64

/-- Links that only moved, each path to one other. -/
theorem Linked.moved {s s' : ResidentState} (h : s.Linked)
    (moves : NormalizedPath → NormalizedPath → Prop)
    (hmoves : ∀ q p p', moves q p → moves q p' → p = p') (hnext : s'.nextFile = s.nextFile)
    (hlen : ∀ id, (s'.heap id).len = (s.heap id).len)
    (hback : ∀ p id, s'.files.get? p = some id → ∃ q, s.files.get? q = some id ∧ moves q p) :
    s'.Linked := by
  refine ⟨fun p id hp => ?_, fun p q id hp hq => ?_, fun p id hp => ?_⟩
  · obtain ⟨origin, horigin, -⟩ := hback p id hp
    rw [hnext]
    exact h.fresh origin id horigin
  · obtain ⟨origin, horigin, hmove⟩ := hback p id hp
    obtain ⟨origin', horigin', hmove'⟩ := hback q id hq
    rw [h.once origin' origin id horigin' horigin] at hmove'
    exact hmoves origin p q hmove hmove'
  · obtain ⟨origin, horigin, -⟩ := hback p id hp
    rw [hlen]
    exact h.sized origin id horigin

theorem Linked.shrink {s s' : ResidentState} (h : s.Linked) (hnext : s'.nextFile = s.nextFile)
    (hlen : ∀ id, (s'.heap id).len = (s.heap id).len)
    (hfiles : ∀ p id, s'.files.get? p = some id → s.files.get? p = some id) : s'.Linked :=
  h.moved (fun q p => p = q) (fun _ _ _ hp hp' => hp.trans hp'.symm) hnext hlen
    fun p id hp => ⟨p, hfiles p id hp, rfl⟩

/-- One object gets another content. -/
theorem Linked.setFile {s : ResidentState} (h : s.Linked) (id : FileId) (file : ResidentFile)
    (hlen : file.len < 2 ^ 64) : (s.setFile id file).Linked := by
  refine ⟨h.fresh, h.once, fun p id' hp => ?_⟩
  by_cases hid : id' = id
  · rw [hid, heap_setFile_self]
    exact hlen
  · rw [heap_setFile_ne s hid]
    exact h.sized p id' hp

/-- A new object, whatever was linked at the path. -/
theorem Linked.linkNew {s : ResidentState} (h : s.Linked) (path : NormalizedPath)
    (file : ResidentFile) (hlen : file.len < 2 ^ 64) : (s.linkNew path file).Linked := by
  have hcases : ∀ p id, (s.linkNew path file).files.get? p = some id →
      p = path ∧ id = s.nextFile ∨ p ≠ path ∧ s.files.get? p = some id ∧ id < s.nextFile := by
    intro p id hp
    rw [ResidentState.linkNew, FiniteMap.get?_insert] at hp
    split at hp
    · rename_i heq
      exact .inl ⟨heq, (Option.some.inj hp).symm⟩
    · rename_i hne
      exact .inr ⟨hne, hp, h.fresh p id hp⟩
  refine ⟨fun p id hp => ?_, fun p q id hp hq => ?_, fun p id hp => ?_⟩
  · rcases hcases p id hp with ⟨-, rfl⟩ | ⟨-, -, hlt⟩
    · exact Nat.lt_succ_self _
    · exact Nat.lt_succ_of_lt hlt
  · rcases hcases p id hp with ⟨rfl, rfl⟩ | ⟨-, hp', hlt⟩ <;>
      rcases hcases q _ hq with ⟨hq', hid⟩ | ⟨-, hq', hlt'⟩
    · exact hq'.symm
    · exact absurd hlt' (lt_irrefl _)
    · exact absurd (hid ▸ hlt) (lt_irrefl _)
    · exact h.once p q id hp' hq'
  · rcases hcases p id hp with ⟨-, rfl⟩ | ⟨-, hp', hlt⟩
    · rw [heap_linkNew_self]
      exact hlen
    · rw [heap_linkNew_lt s path hlt]
      exact h.sized p id hp'

/-- The weight of the file linked at a path. -/
def weightAt (weigh : ResidentFile → ℕ) (s : ResidentState) (p : NormalizedPath) : ℕ :=
  ((s.fileAt p).map weigh).getD 0

/-- The weight of all linked files. -/
def weight (weigh : ResidentFile → ℕ) (s : ResidentState) : ℕ :=
  ∑ p ∈ s.files.keys, s.weightAt weigh p

variable {weigh : ResidentFile → ℕ} {s s' : ResidentState}

theorem sum_files (weigh : ResidentFile → ℕ) (s : ResidentState) :
    (s.files.toList.map fun e => weigh (s.heap e.2)).sum = s.weight weigh := by
  rw [FiniteMap.sum_toList s.files fun id => weigh (s.heap id), weight]
  refine Finset.sum_congr rfl fun p _ => ?_
  rw [weightAt, fileAt, Option.map_map]
  rfl

theorem weight_one (s : ResidentState) : s.weight (fun _ => 1) = s.files.size := by
  rw [← sum_files, List.map_const', List.sum_replicate, FiniteMap.toList, List.length_map,
    FiniteMap.size]
  simp

theorem weight_eq_sum {paths : Finset NormalizedPath} (h : s.files.keys ⊆ paths) :
    s.weight weigh = ∑ p ∈ paths, s.weightAt weigh p := by
  refine Finset.sum_subset h fun p _ hp => ?_
  have hnone : s.files.get? p = none := by
    rw [FiniteMap.mem_keys] at hp
    simpa using hp
  simp [weightAt, fileAt, hnone]

/-- Only the changed paths count for a difference of weights. -/
theorem weight_add (changed : Finset NormalizedPath)
    (h : ∀ p ∉ changed, s'.weightAt weigh p = s.weightAt weigh p) :
    s'.weight weigh + ∑ p ∈ changed, s.weightAt weigh p =
      s.weight weigh + ∑ p ∈ changed, s'.weightAt weigh p := by
  have hall : changed ⊆ s.files.keys ∪ s'.files.keys ∪ changed := Finset.subset_union_right
  have hleft : s.files.keys ⊆ s.files.keys ∪ s'.files.keys ∪ changed :=
    Finset.subset_union_left.trans Finset.subset_union_left
  have hright : s'.files.keys ⊆ s.files.keys ∪ s'.files.keys ∪ changed :=
    Finset.subset_union_right.trans Finset.subset_union_left
  rw [weight_eq_sum hleft, weight_eq_sum hright, ← Finset.sum_sdiff hall, ← Finset.sum_sdiff hall]
  have hsame : ∑ p ∈ (s.files.keys ∪ s'.files.keys ∪ changed) \ changed, s'.weightAt weigh p =
      ∑ p ∈ (s.files.keys ∪ s'.files.keys ∪ changed) \ changed, s.weightAt weigh p :=
    Finset.sum_congr rfl fun p hp => h p (Finset.mem_sdiff.mp hp).2
  rw [hsame]
  omega

theorem weight_congr (h : ∀ p, s'.weightAt weigh p = s.weightAt weigh p) :
    s'.weight weigh = s.weight weigh := by
  have hadd := weight_add ∅ fun p _ => h p
  simpa using hadd

/-- A weight that does not look at the dirty flag. -/
def Steady (weigh : ResidentFile → ℕ) : Prop := ∀ f : ResidentFile, weigh f.markDirty.2 = weigh f

theorem weightAt_of_get {p : NormalizedPath} {id : FileId} (h : s.files.get? p = some id) :
    s.weightAt weigh p = weigh (s.heap id) := by
  simp [weightAt, fileAt, h]

theorem weightAt_of_none {p : NormalizedPath} (h : s.files.get? p = none) :
    s.weightAt weigh p = 0 := by
  simp [weightAt, fileAt, h]

theorem weightAt_congr {p : NormalizedPath} (hfiles : s'.files.get? p = s.files.get? p)
    (hheap : ∀ id, s.files.get? p = some id → weigh (s'.heap id) = weigh (s.heap id)) :
    s'.weightAt weigh p = s.weightAt weigh p := by
  cases hp : s.files.get? p with
  | none => rw [weightAt_of_none hp, weightAt_of_none (hfiles.trans hp)]
  | some id => rw [weightAt_of_get hp, weightAt_of_get (hfiles.trans hp), hheap id hp]

theorem weight_setFile (weigh : ResidentFile → ℕ) (h : s.Linked) {path : NormalizedPath} {id : FileId}
    (hf : s.files.get? path = some id) (file : ResidentFile) :
    (s.setFile id file).weight weigh + weigh (s.heap id) = s.weight weigh + weigh file := by
  have hother : ∀ p ∉ ({path} : Finset NormalizedPath),
      (s.setFile id file).weightAt weigh p = s.weightAt weigh p := by
    intro p hp
    refine weightAt_congr rfl fun id' hid' => ?_
    have hne : id' ≠ id := by
      rintro rfl
      exact hp (Finset.mem_singleton.mpr (h.once p path id' hid' hf))
    rw [heap_setFile_ne s hne]
  have hadd := weight_add {path} hother
  rw [Finset.sum_singleton, Finset.sum_singleton, weightAt_of_get hf,
    weightAt_of_get (s := s.setFile id file) hf] at hadd
  simpa using hadd

theorem weight_setFile_unlinked {id : FileId} (hf : ∀ p, s.files.get? p ≠ some id)
    (file : ResidentFile) : (s.setFile id file).weight weigh = s.weight weigh := by
  refine weight_congr fun p => weightAt_congr rfl fun id' hid' => ?_
  have hne : id' ≠ id := by
    rintro rfl
    exact hf p hid'
  rw [heap_setFile_ne s hne]

theorem weight_linkNew (h : s.Linked) {path : NormalizedPath} (hf : s.files.get? path = none)
    (file : ResidentFile) :
    (s.linkNew path file).weight weigh = s.weight weigh + weigh file := by
  have hother : ∀ p ∉ ({path} : Finset NormalizedPath),
      (s.linkNew path file).weightAt weigh p = s.weightAt weigh p := by
    intro p hp
    refine weightAt_congr (FiniteMap.get?_insert_ne _ (by simpa using hp) _) fun id hid => ?_
    rw [heap_linkNew_lt s path (h.fresh p id hid)]
  have hadd := weight_add {path} hother
  have hself : (s.linkNew path file).files.get? path = some s.nextFile :=
    FiniteMap.get?_insert_self _ _ _
  rw [Finset.sum_singleton, Finset.sum_singleton, weightAt_of_none hf, weightAt_of_get hself,
    Nat.add_zero] at hadd
  simpa using hadd

theorem weight_erase {path : NormalizedPath} (hfiles : s'.files = s.files.erase path)
    (hheap : s'.heap = s.heap) :
    s'.weight weigh + s.weightAt weigh path = s.weight weigh := by
  have hother : ∀ p ∉ ({path} : Finset NormalizedPath),
      s'.weightAt weigh p = s.weightAt weigh p := by
    intro p hp
    refine weightAt_congr ?_ fun id _ => by rw [hheap]
    rw [hfiles, FiniteMap.get?_erase, if_neg (by simpa using hp)]
  have hadd := weight_add {path} hother
  have hself : s'.files.get? path = none := by
    rw [hfiles, FiniteMap.get?_erase, if_pos rfl]
  rwa [Finset.sum_singleton, Finset.sum_singleton, weightAt_of_none hself, Nat.add_zero] at hadd

/-- Linked files and their objects, as far as weights see them, are the same. -/
structure SameFiles (s s' : ResidentState) : Prop where
  files : s'.files = s.files
  heap : ∀ id, (s'.heap id).len = (s.heap id).len
  next : s'.nextFile = s.nextFile

theorem Linked.sameFiles (h : s.Linked) (hs : SameFiles s s') : s'.Linked :=
  h.shrink hs.next hs.heap fun _ _ hp => hs.files ▸ hp

theorem weight_sameFiles (hs : SameFiles s s') (hweigh : ∀ id, weigh (s'.heap id) =
    weigh (s.heap id)) : s'.weight weigh = s.weight weigh :=
  weight_congr fun p => weightAt_congr (by rw [hs.files]) fun id _ => hweigh id

/-- Replacing a content is a new content of the linked object or a new object; the rest of the
mutation is about directories and the journal. -/
theorem replaceFile_cases (s : ResidentState) (path : NormalizedPath) (bytes : List UInt8) :
    (∃ id file, s.files.get? path = some id ∧ file.len = bytes.length ∧
      SameFiles (s.setFile id file) (s.replaceFile path bytes).1 ∧
      (s.replaceFile path bytes).2.2 = ((s.heap id).len, bytes.length, false)) ∨
    s.files.get? path = none ∧
      SameFiles (s.linkNew path (.owned bytes)) (s.replaceFile path bytes).1 ∧
      (s.replaceFile path bytes).2.2 = (0, bytes.length, true) := by
  cases hf : s.files.get? path with
  | some id =>
    refine .inl ⟨id, ((s.heap id).replace bytes).1.markDirty.2, rfl, rfl, ?_⟩
    simp only [ResidentState.replaceFile, hf]
    exact ⟨⟨rfl, fun _ => rfl, rfl⟩, rfl⟩
  | none =>
    refine .inr ⟨rfl, ?_⟩
    simp only [ResidentState.replaceFile, hf]
    exact ⟨⟨rfl, fun _ => rfl, rfl⟩, trivial⟩

theorem Linked.replaceFile (h : s.Linked) (path : NormalizedPath) {bytes : List UInt8}
    (hlen : bytes.length < 2 ^ 64) : (s.replaceFile path bytes).1.Linked := by
  rcases replaceFile_cases s path bytes with ⟨id, file, -, hfile, hsame, -⟩ | ⟨-, hsame, -⟩
  · exact (h.setFile id file (hfile ▸ hlen)).sameFiles hsame
  · exact (h.linkNew path (.owned bytes) hlen).sameFiles hsame

/-- The lengths a replacement reports, and whether it made a file, account for the weights. -/
theorem Linked.replaceFile_account (h : s.Linked) (path : NormalizedPath) (bytes : List UInt8) :
    (s.replaceFile path bytes).1.weight ResidentFile.len + (s.replaceFile path bytes).2.2.1 =
        s.weight ResidentFile.len + (s.replaceFile path bytes).2.2.2.1 ∧
      (s.replaceFile path bytes).2.2.1 < 2 ^ 64 ∧
      (s.replaceFile path bytes).1.weight (fun _ => 1) =
        s.weight (fun _ => 1) + (if (s.replaceFile path bytes).2.2.2.2 then 1 else 0) := by
  rcases replaceFile_cases s path bytes with
    ⟨id, file, hf, hfile, hsame, hreport⟩ | ⟨hf, hsame, hreport⟩
  · rw [hreport, weight_sameFiles hsame hsame.heap, weight_sameFiles hsame fun _ => rfl]
    have hlen := weight_setFile ResidentFile.len h hf file
    have hone := weight_setFile (fun _ => 1) h hf file
    refine ⟨by rw [hlen, hfile], h.sized path id hf, ?_⟩
    simpa using hone
  · rw [hreport, weight_sameFiles hsame hsame.heap, weight_sameFiles hsame fun _ => rfl,
      weight_linkNew h hf, weight_linkNew h hf]
    exact ⟨rfl, Nat.two_pow_pos 64, rfl⟩

/-- The statistics of a removal or of a rename are what the weights lost. -/
def Accounts (s s' : ResidentState) : Option (ℕ × ℕ) → Prop
  | none => True
  | some (files, bytes) => s'.weight (fun _ => 1) + files = s.weight (fun _ => 1) ∧
      s'.weight ResidentFile.len + bytes = s.weight ResidentFile.len ∧
      files ≤ 1 ∧ bytes < 2 ^ 64

theorem Linked.weightAt_lt (h : s.Linked) (p : NormalizedPath) :
    s.weightAt ResidentFile.len p < 2 ^ 64 := by
  cases hp : s.files.get? p with
  | none =>
    rw [weightAt_of_none hp]
    exact Nat.two_pow_pos 64
  | some id =>
    rw [weightAt_of_get hp]
    exact h.sized p id hp

theorem accounts_refl (s : ResidentState) : Accounts s s (some (0, 0)) :=
  ⟨rfl, rfl, Nat.zero_le 1, Nat.two_pow_pos 64⟩

theorem Linked.removePath (h : s.Linked) (path : NormalizedPath) :
    (s.removePath path).1.Linked ∧ Accounts s (s.removePath path).1 (s.removePath path).2 := by
  cases hf : s.files.get? path with
  | some id =>
    have hfiles : (s.removePath path).1.files = s.files.erase path := by
      simp only [ResidentState.removePath, hf, journalRemoval]
    have hheap : (s.removePath path).1.heap = s.heap := by
      simp only [ResidentState.removePath, hf, journalRemoval]
    have hnext : (s.removePath path).1.nextFile = s.nextFile := by
      simp only [ResidentState.removePath, hf, journalRemoval]
    have hstats : (s.removePath path).2 = some (1, (s.heap id).len) := by
      simp only [ResidentState.removePath, hf, journalRemoval]
    refine ⟨h.shrink hnext (fun _ => by rw [hheap]) fun p id' hp => ?_, ?_⟩
    · rw [hfiles] at hp
      exact (FiniteMap.get?_erase_some hp).2
    · have hweight : ∀ weigh : ResidentFile → ℕ,
          (s.removePath path).1.weight weigh + weigh (s.heap id) = s.weight weigh := by
        intro weigh
        rw [← weight_erase hfiles hheap, weightAt_of_get hf]
      rw [hstats]
      exact ⟨hweight _, hweight _, le_rfl, h.sized path id hf⟩
  | none =>
    simp only [ResidentState.removePath, hf]
    split
    · exact ⟨h.shrink rfl (fun _ => rfl) fun _ _ hp => hp, accounts_refl s⟩
    · refine ⟨h.shrink rfl (fun _ => rfl) fun p id hp => ?_, trivial⟩
      simp only [markSubtreeDirty, FiniteMap.get?_retain] at hp
      exact (Option.filter_eq_some_iff.mp hp).1

theorem Linked.renameFile (h : s.Linked) {source destination : NormalizedPath} {id : FileId}
    (hf : s.files.get? source = some id) (hne : source ≠ destination) :
    (s.renameFile source destination id).1.Linked ∧
      Accounts s (s.renameFile source destination id).1
        (some (s.renameFile source destination id).2) := by
  set s' := (s.renameFile source destination id).1
  have hget := get?_renameFile s source destination id
  have hheap : ∀ weigh : ResidentFile → ℕ, Steady weigh → ∀ id', weigh (s'.heap id') =
      weigh (s.heap id') := by
    intro weigh hsteady id'
    change weigh (Function.update s.heap id (s.heap id).markDirty.2 id') = _
    by_cases hid : id' = id
    · rw [hid, Function.update_self, hsteady]
    · rw [Function.update_of_ne hid]
  have hweight : ∀ weigh : ResidentFile → ℕ, Steady weigh →
      s'.weight weigh + s.weightAt weigh destination = s.weight weigh := by
    intro weigh hsteady
    have hother : ∀ p ∉ ({source, destination} : Finset NormalizedPath),
        s'.weightAt weigh p = s.weightAt weigh p := by
      intro p hp
      simp only [Finset.mem_insert, Finset.mem_singleton, not_or] at hp
      refine weightAt_congr ?_ fun id' _ => hheap weigh hsteady id'
      rw [hget, if_neg hp.2, if_neg hp.1]
    have hadd := weight_add {source, destination} hother
    have hgone : s'.files.get? source = none := by
      rw [hget, if_neg hne, if_pos rfl]
    have hthere : s'.files.get? destination = some id := by
      rw [hget, if_pos rfl]
    rw [Finset.sum_pair hne, Finset.sum_pair hne, weightAt_of_get hf, weightAt_of_none hgone,
      weightAt_of_get hthere, hheap weigh hsteady] at hadd
    omega
  refine ⟨h.moved (fun q p => q = source ∧ p = destination ∨ q ≠ source ∧ p = q) ?_ rfl
    (hheap ResidentFile.len fun _ => rfl) fun p id' hp => ?_, ?_⟩
  · rintro q p p' (⟨rfl, rfl⟩ | ⟨hq, rfl⟩) (⟨hq', rfl⟩ | ⟨hq', rfl⟩)
    · rfl
    · exact absurd rfl hq'
    · exact absurd hq' hq
    · rfl
  · rw [hget] at hp
    split at hp
    · rename_i heq
      exact ⟨source, hf.trans hp, .inl ⟨rfl, heq⟩⟩
    · split at hp
      · cases hp
      · rename_i hsource
        exact ⟨p, hp, .inr ⟨hsource, rfl⟩⟩
  · have hstats : (s.renameFile source destination id).2 =
        (s.weightAt (fun _ => 1) destination, s.weightAt ResidentFile.len destination) := by
      have hover : (s.files.erase source).get? destination = s.files.get? destination := by
        rw [FiniteMap.get?_erase, if_neg hne.symm]
      simp only [ResidentState.renameFile, hover]
      cases hd : s.files.get? destination with
      | none => rw [weightAt_of_none hd, weightAt_of_none hd]
      | some old =>
        rw [weightAt_of_get hd, weightAt_of_get hd]
        exact congrArg (Prod.mk 1) (hheap ResidentFile.len (fun _ => rfl) old)
    rw [hstats]
    have hone : s.weightAt (fun _ => 1) destination ≤ 1 := by
      cases hd : s.files.get? destination with
      | none => rw [weightAt_of_none hd]; exact Nat.zero_le 1
      | some old => rw [weightAt_of_get hd]
    exact ⟨hweight _ fun _ => rfl, hweight _ fun _ => rfl, hone, h.weightAt_lt destination⟩

theorem Linked.renameSubtree (h : s.Linked) (source destination : NormalizedPath) :
    (s.renameSubtree source destination).Linked := by
  refine h.moved (fun q p => q.rewritten source destination = some p ∨ ¬q.IsWithin source ∧ p = q)
    ?_ rfl (fun _ => rfl) fun p id hp => ?_
  · rintro q p p' (hp | ⟨hq, rfl⟩) (hp' | ⟨hq', rfl⟩)
    · exact Option.some.inj (hp.symm.trans hp')
    · exact absurd (rewritten_isSome.mp (by rw [hp]; rfl)) hq'
    · exact absurd (rewritten_isSome.mp (by rw [hp']; rfl)) hq
    · rfl
  · rcases get?_renameSubtree.mp hp with ⟨q, hq, hmoved⟩ | ⟨hq, -, hsource⟩
    · exact ⟨q, hq, .inl hmoved⟩
    · exact ⟨p, hq, .inr ⟨hsource, rfl⟩⟩

theorem Linked.renamePath (h : s.Linked) {source destination : NormalizedPath}
    {stats : Option (ℕ × ℕ)} (hr : s.renamePath source destination = .ok (s', stats)) :
    s'.Linked ∧ Accounts s s' stats := by
  rcases renamePath_cases hr with ⟨-, rfl, rfl⟩ | ⟨hne, -, ⟨id, hf, -, rfl, rfl⟩ | ⟨-, rfl, rfl⟩⟩
  · exact ⟨h, accounts_refl s'⟩
  · exact h.renameFile hf hne
  · exact ⟨h.renameSubtree source destination, trivial⟩

/-- An object that no path has can change freely. -/
theorem Linked.setFile_unlinked (h : s.Linked) {id : FileId}
    (hf : ∀ p, s.files.get? p ≠ some id) (file : ResidentFile) : (s.setFile id file).Linked := by
  refine ⟨h.fresh, h.once, fun p id' hp => ?_⟩
  have hne : id' ≠ id := by
    rintro rfl
    exact hf p hp
  rw [heap_setFile_ne s hne]
  exact h.sized p id' hp

theorem sameFiles_settle (s : ResidentState) (path : NormalizedPath) :
    SameFiles s (s.settle path) := by
  refine ⟨rfl, fun id => ?_, rfl⟩
  rw [ResidentFile.len_eq, ResidentFile.len_eq]
  exact congrArg List.length (bytes_cleanHeap s path id)

theorem SameFiles.trans {s₁ s₂ s₃ : ResidentState} (h : SameFiles s₁ s₂) (h' : SameFiles s₂ s₃) :
    SameFiles s₁ s₃ :=
  ⟨h'.files.trans h.files, fun id => (h'.heap id).trans (h.heap id), h'.next.trans h.next⟩

theorem sameFiles_collectEvaluated (evaluated : List (NormalizedPath × Option Change)) :
    ∀ s : ResidentState, SameFiles s (s.collectEvaluated evaluated).1 := by
  induction evaluated with
  | nil =>
    intro s
    exact ⟨rfl, fun _ => rfl, rfl⟩
  | cons e rest ih =>
    intro s
    obtain ⟨path, _ | change⟩ := e
    · exact (sameFiles_settle s path).trans (ih _)
    · exact ih s

theorem sameFiles_checkpointPaths (paths : List String) :
    ∀ s : ResidentState, SameFiles s (s.checkpointPaths paths).1 := by
  induction paths with
  | nil =>
    intro s
    exact ⟨rfl, fun _ => rfl, rfl⟩
  | cons path rest ih =>
    intro s
    unfold checkpointPaths
    split
    next p _ =>
      have hstep : SameFiles s (s.checkpointPath p) :=
        ⟨rfl, (sameFiles_settle s p).heap, rfl⟩
      exact hstep.trans (ih _)
    next => exact ⟨rfl, fun _ => rfl, rfl⟩

end ResidentState

namespace ResidentWorkspace
open ResidentState

omit [Blake3] in
/-- A wrapping subtraction of what a total lost. -/
theorem wrapping_sub {count total lost size : ℕ} (h : count % size = (total + lost) % size)
    (hlost : lost ≤ size) : (count + size - lost) % size = total % size := by
  have hmod : count + size - lost + lost ≡ total + lost [MOD size] := by
    rw [Nat.sub_add_cancel (Nat.le_add_left_of_le hlost)]
    exact (Nat.add_mod_right count size).trans h
  exact hmod.add_right_cancel' lost

/-- The counters of a workspace, as 64-bit numbers. -/
structure Counted (ws : ResidentWorkspace) : Prop where
  linked : ws.state.Linked
  files : ws.fileCount % 2 ^ 64 = ws.state.weight (fun _ => 1) % 2 ^ 64
  narrow : ws.fileCount = ws.state.weight (fun _ => 1) ∨ ws.fileCount < 2 ^ 64
  bytes : ws.byteCount = ws.state.weight ResidentFile.len % 2 ^ 64

theorem Counted.fileCount_eq {ws : ResidentWorkspace} (h : ws.Counted)
    (hsize : ws.state.files.size < 2 ^ 64) : ws.fileCount = ws.state.files.size := by
  have hfiles := h.files
  rw [weight_one] at hfiles
  rcases h.narrow with heq | hlt
  · rw [heq, weight_one]
  · rwa [Nat.mod_eq_of_lt hlt, Nat.mod_eq_of_lt hsize] at hfiles

theorem updateByteCount_eq {ws : ResidentWorkspace} {previous current total total' : ℕ}
    (h : ws.byteCount = total % 2 ^ 64) (hsum : total' + previous = total + current)
    (hprevious : previous < 2 ^ 64) :
    (ws.updateByteCount previous current).byteCount = total' % 2 ^ 64 := by
  unfold updateByteCount
  simp only
  split
  · rename_i hle
    have htotal : total' = total + (current - previous) := by omega
    rw [h, htotal, Nat.mod_add_mod]
  · rename_i hlt
    have htotal : total = total' + (previous - current) := by omega
    refine wrapping_sub ?_ (by omega)
    rw [h, Nat.mod_mod, htotal]

theorem Counted.recount {ws : ResidentWorkspace} (h : ws.state.Linked) : ws.recount.Counted where
  linked := h
  files := by rw [weight_one]; rfl
  narrow := .inl (by rw [weight_one]; rfl)
  bytes := by rw [← sum_files]; rfl

theorem Counted.sameFiles {ws ws' : ResidentWorkspace} (h : ws.Counted)
    (hstate : SameFiles ws.state ws'.state) (hfiles : ws'.fileCount = ws.fileCount)
    (hbytes : ws'.byteCount = ws.byteCount) : ws'.Counted := by
  have hone : ws'.state.weight (fun _ => 1) = ws.state.weight (fun _ => 1) :=
    weight_sameFiles hstate fun _ => rfl
  refine ⟨h.linked.sameFiles hstate, ?_, ?_, ?_⟩
  · rw [hfiles, hone]
    exact h.files
  · rw [hfiles, hone]
    exact h.narrow
  · rw [hbytes, weight_sameFiles hstate hstate.heap]
    exact h.bytes

theorem Counted.withStats {ws : ResidentWorkspace} (h : ws.Counted) {state : ResidentState}
    {stats : Option (ℕ × ℕ)} (hlinked : state.Linked)
    (haccounts : Accounts ws.state state stats) : (ws.withStats state stats).Counted := by
  cases stats with
  | none => exact .recount hlinked
  | some lost =>
    obtain ⟨files, bytes⟩ := lost
    obtain ⟨hfiles, hbytes, hone, hlt⟩ := haccounts
    refine ⟨hlinked, ?_, .inr (Nat.mod_lt _ (Nat.two_pow_pos 64)), ?_⟩
    · change (ws.fileCount + 2 ^ 64 - files) % 2 ^ 64 % 2 ^ 64 = state.weight _ % 2 ^ 64
      rw [Nat.mod_mod]
      exact wrapping_sub (by rw [h.files, hfiles]) (by omega)
    · change (ws.byteCount + 2 ^ 64 - bytes) % 2 ^ 64 = state.weight _ % 2 ^ 64
      exact wrapping_sub (by rw [h.bytes, Nat.mod_mod, hbytes]) hlt.le

theorem Counted.replaced {ws : ResidentWorkspace} (h : ws.Counted) (p : NormalizedPath)
    {bytes : List UInt8} (hlen : bytes.length < 2 ^ 64) : (ws.replaced p bytes).Counted := by
  obtain ⟨hbytes, hprevious, hone⟩ := h.linked.replaceFile_account p bytes
  refine ⟨h.linked.replaceFile p hlen, ?_, ?_, updateByteCount_eq h.bytes hbytes hprevious⟩
  · change (if (ws.state.replaceFile p bytes).2.2.2.2 then (ws.fileCount + 1) % 2 ^ 64
      else ws.fileCount) % 2 ^ 64 = (ws.state.replaceFile p bytes).1.weight _ % 2 ^ 64
    rw [hone]
    split
    · rw [Nat.mod_mod, Nat.add_mod, h.files, ← Nat.add_mod]
    · exact h.files
  · change (if (ws.state.replaceFile p bytes).2.2.2.2 then (ws.fileCount + 1) % 2 ^ 64
      else ws.fileCount) = (ws.state.replaceFile p bytes).1.weight _ ∨ (if
        (ws.state.replaceFile p bytes).2.2.2.2 then (ws.fileCount + 1) % 2 ^ 64
      else ws.fileCount) < 2 ^ 64
    rw [hone]
    split
    · exact .inr (Nat.mod_lt _ (Nat.two_pow_pos 64))
    · exact h.narrow

theorem Counted.storeContent {ws : ResidentWorkspace} (h : ws.Counted) {p : NormalizedPath}
    {id : FileId} {change : ResidentFile × ℕ × ℕ} (hf : ws.state.files.get? p = some id)
    (hreports : (ws.state.heap id).Reports change) (hlen : change.1.len < 2 ^ 64) :
    (ws.storeContent p id change).Counted := by
  obtain ⟨file, previous, current⟩ := change
  have hprevious : previous = (ws.state.heap id).len := hreports.previous
  have hcurrent : current = file.len := hreports.current
  have hsame : SameFiles (ws.state.setFile id file.markDirty.2)
      (ws.storeContent p id (file, previous, current)).state := by
    simp only [ResidentWorkspace.storeContent, updateByteCount]
    split <;> exact ⟨rfl, fun _ => rfl, rfl⟩
  have hone : (ws.storeContent p id (file, previous, current)).state.weight (fun _ => 1) =
      ws.state.weight (fun _ => 1) := by
    rw [weight_sameFiles hsame fun _ => rfl]
    simpa using weight_setFile (fun _ => 1) h.linked hf file.markDirty.2
  refine ⟨(h.linked.setFile id file.markDirty.2 hlen).sameFiles hsame, ?_, ?_, ?_⟩
  · rw [hone]
    exact h.files
  · rw [hone]
    exact h.narrow
  · rw [weight_sameFiles hsame hsame.heap]
    refine updateByteCount_eq h.bytes ?_ ?_
    · rw [hprevious, hcurrent]
      exact weight_setFile ResidentFile.len h.linked hf file.markDirty.2
    · rw [hprevious]
      exact h.linked.sized p id hf

theorem Counted.step {ws ws' : ResidentWorkspace} {op : ResidentOp} (h : ws.Counted)
    (hop : op.Sized) (heffect : ws.Effect op ws') : ws'.Counted := by
  cases heffect with
  | refused => exact h
  | directory hscratch hparse hfile =>
    refine h.sameFiles ?_ rfl rfl
    unfold withDirectory
    simp only
    split <;> exact ⟨rfl, fun _ => rfl, rfl⟩
  | replaced hwritten hscratch hparse hsize => exact h.replaced _ (hsize hop)
  | stored hf hreports hsize => exact h.storeContent hf hreports (hsize hop (h.linked.sized _ _ hf))
  | unlinked file hunlinked =>
    refine ⟨h.linked.setFile_unlinked hunlinked file, ?_, ?_, ?_⟩
    · rw [weight_setFile_unlinked hunlinked]
      exact h.files
    · rw [weight_setFile_unlinked hunlinked]
      exact h.narrow
    · rw [weight_setFile_unlinked hunlinked]
      exact h.bytes
  | removed hdropped => exact h.withStats (h.linked.removePath _).1 (h.linked.removePath _).2
  | renamed hmoves hrename =>
    exact h.withStats (h.linked.renamePath hrename).1 (h.linked.renamePath hrename).2
  | observed => exact h.sameFiles (sameFiles_collectEvaluated _ _) rfl rfl
  | checkpointed paths =>
    have hsame := sameFiles_checkpointPaths paths ws.state
    unfold markCheckpointed
    split
    next state hpaths =>
      rw [hpaths] at hsame
      exact h.sameFiles ⟨hsame.files, hsame.heap, hsame.next⟩ rfl rfl
    next state e hpaths =>
      rw [hpaths] at hsame
      exact h.sameFiles hsame rfl rfl

end ResidentWorkspace
end Workspace
