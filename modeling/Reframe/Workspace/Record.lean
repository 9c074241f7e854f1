import Reframe.Lib.FiniteMap
import Reframe.Workspace.Path

/-! Baseline and manifest records, journal changes, and the directories a baseline implies. -/
namespace Workspace

structure MemoryLocator where
  memoryId : String
  relativePath : NormalizedPath
  deriving DecidableEq

structure BackingBlobLocator where
  storeRoot : String
  hash : String
  deriving DecidableEq

inductive RecordSource where
  | directory
  | overlay
  | blob
  | resident
  | tombstone
  | memory (locator : MemoryLocator)
  | backingBlob (locator : BackingBlobLocator)
  deriving DecidableEq

structure FileRecord where
  path : NormalizedPath
  hash : String
  size : ℕ
  source : RecordSource
  deriving DecidableEq

inductive ChangeKind where
  | create
  | write
  | delete
  deriving DecidableEq

structure Change where
  path : String
  kind : ChangeKind
  size : Option ℕ
  deriving DecidableEq

abbrev Baseline := FiniteMap NormalizedPath FileRecord

/-- Every ancestor of a record, and the record's own path when it is a directory. -/
def baselineDirectories (baseline : Baseline) : Finset NormalizedPath :=
  (baseline.toList.flatMap fun (path, record) =>
    path.leading (if record.source = .directory then path.parts.length
      else path.parts.length - 1)).toFinset

theorem mem_baselineDirectories {baseline : Baseline} {d : NormalizedPath} :
    d ∈ baselineDirectories baseline ↔ ∃ path record, baseline.get? path = some record ∧
      (path.IsBelow d ∨ path = d ∧ record.source = .directory) := by
  simp only [baselineDirectories, List.mem_toFinset, List.mem_flatMap, Prod.exists,
    FiniteMap.mem_toList]
  refine exists_congr fun path => exists_congr fun record => and_congr_right fun _ => ?_
  by_cases hd : record.source = .directory
  · simp only [hd, if_true, NormalizedPath.mem_leading, and_true]
    rw [← or_comm, ← NormalizedPath.isWithin_iff]
    exact ⟨fun h => h.1, fun h => ⟨h, h.length_le⟩⟩
  · simp only [hd, if_false, and_false, or_false]
    exact NormalizedPath.mem_parents

/-- The durable baseline as the resident one holds it. -/
def withoutTombstones (baseline : Baseline) : Baseline :=
  baseline.retain fun _ record => record.source ≠ .tombstone

theorem get?_withoutTombstones {baseline : Baseline} {p : NormalizedPath} {r : FileRecord} :
    (withoutTombstones baseline).get? p = some r ↔
      baseline.get? p = some r ∧ r.source ≠ .tombstone := by
  simp [withoutTombstones, FiniteMap.get?_retain, Option.filter_eq_some_iff]

/-! What a record says about the tree it describes. -/

/-- The hash of a live record and whether it is a directory; a tombstone says nothing. -/
def recordView (record : Option FileRecord) : Option (String × Bool) :=
  (record.filter fun r => r.source ≠ .tombstone).map fun r =>
    (r.hash, decide (r.source = .directory))

/-- A manifest over a base layer. -/
def layered (base manifest : Baseline) (p : NormalizedPath) : Option FileRecord :=
  (manifest.get? p).or (base.get? p)

theorem recordView_some {record : Option FileRecord} {hash : String} {isDirectory : Bool}
    (h : recordView record = some (hash, isDirectory)) :
    ∃ r, record = some r ∧ r.source ≠ .tombstone ∧ r.hash = hash ∧
      decide (r.source = .directory) = isDirectory := by
  obtain ⟨r, hr, he⟩ := Option.map_eq_some_iff.mp h
  obtain ⟨rfl, ht⟩ := Option.filter_eq_some_iff.mp hr
  simp only [Prod.mk.injEq] at he
  exact ⟨r, rfl, by simpa using ht, he.1, he.2⟩

theorem recordView_eq_some {r : FileRecord} (h : r.source ≠ .tombstone) :
    recordView (some r) = some (r.hash, decide (r.source = .directory)) := by
  simp [recordView, h]

theorem recordView_withoutTombstones (baseline : Baseline) (p : NormalizedPath) :
    recordView ((withoutTombstones baseline).get? p) = recordView (baseline.get? p) := by
  unfold recordView withoutTombstones
  rw [FiniteMap.get?_retain]
  cases baseline.get? p <;> simp [Option.filter_some]
  split <;> simp_all

/-- The directories of a baseline depend only on what its records say. -/
theorem baselineDirectories_congr {a b : Baseline}
    (ha : ∀ p r, a.get? p = some r → r.source ≠ .tombstone)
    (hb : ∀ p r, b.get? p = some r → r.source ≠ .tombstone)
    (h : ∀ p, recordView (a.get? p) = recordView (b.get? p)) :
    baselineDirectories a = baselineDirectories b := by
  have key : ∀ {a b : Baseline}, (∀ p r, a.get? p = some r → r.source ≠ .tombstone) →
      (∀ p, recordView (a.get? p) = recordView (b.get? p)) →
      ∀ d ∈ baselineDirectories a, d ∈ baselineDirectories b := by
    intro a b ha h d hd
    obtain ⟨p, r, hp, hr⟩ := mem_baselineDirectories.mp hd
    have hview := h p
    rw [hp, recordView_eq_some (ha p r hp)] at hview
    obtain ⟨r', hp', -, -, hdir⟩ := recordView_some hview.symm
    refine mem_baselineDirectories.mpr ⟨p, r', hp', hr.imp_right fun hr => ⟨hr.1, ?_⟩⟩
    simpa [hr.2] using hdir
  ext d
  exact ⟨key ha h d, key hb (fun p => (h p).symm) d⟩

end Workspace
