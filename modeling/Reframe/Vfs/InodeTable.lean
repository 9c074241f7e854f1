import Reframe.Lib.InverseIndex
import Reframe.Lib.Run
import Reframe.Vfs.SubtreePaths

/-! The inode table of the Unix file system: numbers for paths, which follow a rename and outlive an
unlink for as long as the kernel remembers a lookup. -/
namespace UnixVfs
open Workspace.NormalizedPath (stripPrefix stripPrefix_append)
open InverseIndex (Move Indexes)

def rootInode : ℕ := 1

def u64Max : ℕ := 2 ^ 64 - 1

structure InodeEntry where
  path : String
  generation : ℕ
  lookupCount : ℕ
  linked : Bool
  deriving DecidableEq, Repr

structure InodeTable where
  next : ℕ
  byPath : FiniteMap String ℕ
  byInode : FiniteMap ℕ InodeEntry

namespace InodeTable

def insert (t : InodeTable) (path : String) (inode : ℕ) : InodeTable :=
  { t with
    byPath := t.byPath.insert path inode
    byInode := t.byInode.insert inode ⟨path, inode, 0, true⟩ }

def new : InodeTable := insert ⟨2, ∅, ∅⟩ "" rootInode

def ensure (t : InodeTable) (path : String) : InodeTable × ℕ :=
  match t.byPath.get? path with
  | some inode => (t, inode)
  | none => (insert { t with next := min (t.next + 1) u64Max } path t.next, t.next)

/-- The inode and its generation; no entry for the inode is a panic. -/
def recordLookup (t : InodeTable) (path : String) : InodeTable × Option (ℕ × ℕ) :=
  let (t, inode) := t.ensure path
  match t.byInode.get? inode with
  | none => (t, none)
  | some entry =>
    let entry := { entry with lookupCount := min (entry.lookupCount + 1) u64Max }
    ({ t with byInode := t.byInode.insert inode entry }, some (inode, entry.generation))

def forget (t : InodeTable) (inode count : ℕ) : InodeTable :=
  if inode = rootInode then t
  else match t.byInode.get? inode with
    | none => t
    | some entry =>
      let entry := { entry with lookupCount := entry.lookupCount - count }
      if !entry.linked && entry.lookupCount = 0 then { t with byInode := t.byInode.erase inode }
      else { t with byInode := t.byInode.insert inode entry }

/-- The loop body of `remove_path`. -/
def unlink (t : InodeTable) (inode : ℕ) : InodeTable :=
  match t.byInode.get? inode with
  | none => t
  | some entry =>
    { t with
      byPath := t.byPath.erase entry.path
      byInode :=
        if entry.lookupCount = 0 then t.byInode.erase inode
        else t.byInode.insert inode { entry with linked := false } }

def isRemoved (path candidate : String) : Bool :=
  candidate == path || (stripPrefix candidate (path ++ "/")).isSome

def removePath (t : InodeTable) (path : String) : InodeTable :=
  if path = "" then t
  else
    ((t.byPath.toList.filter fun e => isRemoved path e.1).map Prod.snd).foldl unlink t

def movedTo (path source destination : String) : Option String :=
  if path = source then some destination
  else (stripPrefix path (source ++ "/")).map fun relative => destination ++ "/" ++ relative

def movesOf (t : InodeTable) (source destination : String) : List (Move String ℕ) :=
  t.byPath.toList.filterMap fun e =>
    (movedTo e.1 source destination).map fun target => ⟨e.2, e.1, target⟩

/-- The loop body of `move_path`. -/
def move (t : InodeTable) (m : Move String ℕ) : InodeTable :=
  { t with
    byPath := InverseIndex.apply t.byPath m
    byInode := match t.byInode.get? m.thing with
      | some entry => t.byInode.insert m.thing { entry with path := m.target }
      | none => t.byInode }

def movePath (t : InodeTable) (source destination : String) : InodeTable :=
  let t := t.removePath destination
  (t.movesOf source destination).foldl move t

end InodeTable

inductive InodeOp where
  | lookup (path : String)
  | ensure (path : String)
  | forget (inode count : ℕ)
  | unlink (path : String)
  | rename (source destination : String)
  deriving DecidableEq

/-- The table, and for each inode the lookups that the kernel has not forgotten. -/
structure Tracked where
  table : InodeTable
  outstanding : ℕ → ℕ

namespace Tracked

def new : Tracked := ⟨.new, fun _ => 0⟩

def step (s : Tracked) : InodeOp → Tracked
  | .lookup path =>
    match s.table.recordLookup path with
    | (table, some (inode, _)) =>
      ⟨table, Function.update s.outstanding inode (s.outstanding inode + 1)⟩
    | (table, none) => ⟨table, s.outstanding⟩
  | .ensure path => { s with table := (s.table.ensure path).1 }
  | .forget inode count =>
    ⟨s.table.forget inode count,
      Function.update s.outstanding inode (s.outstanding inode - count)⟩
  | .unlink path => { s with table := s.table.removePath path }
  | .rename source destination => { s with table := s.table.movePath source destination }

end Tracked

/-- The names of a rename come from `child`, which makes none that is empty. -/
def InodeOp.Named : InodeOp → Prop
  | .rename source destination => source ≠ "" ∧ destination ≠ ""
  | _ => True

instance : DecidablePred InodeOp.Named
  | .rename source destination => inferInstanceAs (Decidable (source ≠ "" ∧ destination ≠ ""))
  | .lookup _ => isTrue trivial
  | .ensure _ => isTrue trivial
  | .forget _ _ => isTrue trivial
  | .unlink _ => isTrue trivial

namespace InodeTable

theorem isRemoved_eq (path candidate : String) :
    isRemoved path candidate = sameOrDescendant candidate path := by
  rw [Bool.eq_iff_iff, isRemoved, sameOrDescendant_iff, Bool.or_eq_true, beq_iff_eq,
    Option.isSome_iff_exists]
  constructor
  · rintro (rfl | ⟨relative, h⟩)
    · exact ⟨"", String.append_empty.symm, .inl rfl⟩
    · rw [stripPrefix_iff, String.append_assoc] at h
      exact ⟨"/" ++ relative, h, .inr ⟨relative, rfl⟩⟩
  · rintro ⟨suffix, rfl, rfl | ⟨relative, rfl⟩⟩
    · exact .inl String.append_empty
    · exact .inr ⟨relative, stripPrefix_iff.mpr String.append_assoc.symm⟩

theorem movedTo_eq (path source destination : String) :
    movedTo path source destination = renamedPath path source destination := by
  apply Option.ext
  intro target
  rw [renamedPath_eq_some, movedTo]
  constructor
  · intro h
    split_ifs at h with hsame
    · cases h
      exact ⟨"", ⟨hsame.trans String.append_empty.symm, .inl rfl⟩, String.append_empty.symm⟩
    · obtain ⟨relative, hrelative, rfl⟩ := Option.map_eq_some_iff.mp h
      rw [stripPrefix_iff, String.append_assoc] at hrelative
      exact ⟨"/" ++ relative, ⟨hrelative, .inr ⟨relative, rfl⟩⟩, String.append_assoc⟩
  · rintro ⟨suffix, ⟨rfl, rfl | ⟨relative, rfl⟩⟩, rfl⟩
    · rw [if_pos String.append_empty, String.append_empty]
    · rw [if_neg append_ne_self, ← String.append_assoc, stripPrefix_append, Option.map_some,
        String.append_assoc]

/-- Where an inode is linked. -/
def place (t : InodeTable) (inode : ℕ) : Option String :=
  (t.byInode.get? inode).bind fun entry => if entry.linked then some entry.path else none

theorem place_eq_some {t : InodeTable} {inode : ℕ} {path : String} :
    t.place inode = some path ↔
      ∃ entry, t.byInode.get? inode = some entry ∧ entry.linked = true ∧ entry.path = path := by
  rw [place, Option.bind_eq_some_iff]
  constructor
  · rintro ⟨entry, hget, hplace⟩
    split_ifs at hplace with hlinked
    exact ⟨entry, hget, hlinked, Option.some.inj hplace⟩
  · rintro ⟨entry, hget, hlinked, rfl⟩
    exact ⟨entry, hget, if_pos hlinked⟩

theorem place_eq_none {t : InodeTable} {inode : ℕ} (h : t.byInode.get? inode = none) :
    t.place inode = none := by
  rw [place, h]
  rfl

/-- What `unlink` leaves of an entry. -/
def dropLink (entry : InodeEntry) : Option InodeEntry :=
  if entry.lookupCount = 0 then none else some { entry with linked := false }

variable {t : InodeTable}

theorem get?_unlink (t : InodeTable) (inode i : ℕ) :
    (t.unlink inode).byInode.get? i =
      if i = inode then (t.byInode.get? i).bind dropLink else t.byInode.get? i := by
  rw [unlink]
  cases hget : t.byInode.get? inode with
  | none =>
    dsimp only
    split_ifs with hsame
    · rw [hsame, hget]
      rfl
    · rfl
  | some entry =>
    dsimp only
    by_cases hcount : entry.lookupCount = 0
    · rw [if_pos hcount, FiniteMap.get?_erase]
      split_ifs with hsame
      · rw [hsame, hget, Option.bind_some, dropLink, if_pos hcount]
      · rfl
    · rw [if_neg hcount, FiniteMap.get?_insert]
      split_ifs with hsame
      · rw [hsame, hget, Option.bind_some, dropLink, if_neg hcount]
      · rfl

theorem place_unlink (t : InodeTable) (inode i : ℕ) :
    (t.unlink inode).place i = if i = inode then none else t.place i := by
  rw [place, get?_unlink]
  split_ifs with hsame
  · cases t.byInode.get? i with
    | none => rfl
    | some entry =>
      rw [Option.bind_some, dropLink]
      split_ifs <;> rfl
  · rfl

theorem indexes_unlink (h : Indexes t.byPath t.place) (inode : ℕ) (hplace : t.place inode ≠ none) :
    Indexes (t.unlink inode).byPath (t.unlink inode).place := by
  obtain ⟨path, hpath⟩ := Option.ne_none_iff_exists'.mp hplace
  obtain ⟨entry, hget, -, rfl⟩ := place_eq_some.mp hpath
  have hbyPath : (t.unlink inode).byPath = t.byPath.erase entry.path := by rw [unlink, hget]
  rw [hbyPath]
  refine (h.erase entry.path).congr fun i => ?_
  rw [place_unlink]
  split_ifs with hsame
  · rw [hsame, hpath, Option.filter_some, if_neg (by simp)]
  · cases hi : t.place i with
    | none => rfl
    | some path =>
      have hne : path ≠ entry.path := fun heq => hsame (h.injective (heq ▸ hi) hpath)
      rw [Option.filter_some, if_pos (by simpa using hne)]

/-- What unlinking several inodes does. -/
theorem foldl_unlink (inodes : List ℕ) :
    ∀ {t : InodeTable}, Indexes t.byPath t.place → inodes.Nodup →
      (∀ i ∈ inodes, t.place i ≠ none) →
      (inodes.foldl unlink t).next = t.next ∧
      Indexes (inodes.foldl unlink t).byPath (inodes.foldl unlink t).place ∧
      ∀ i, (inodes.foldl unlink t).byInode.get? i =
        if i ∈ inodes then (t.byInode.get? i).bind dropLink else t.byInode.get? i := by
  induction inodes with
  | nil =>
    intro t h _ _
    exact ⟨rfl, h, fun _ => rfl⟩
  | cons inode inodes ih =>
    intro t h hnodup hplaced
    rw [List.nodup_cons] at hnodup
    have hnext : (t.unlink inode).next = t.next := by
      rw [unlink]
      split <;> rfl
    have hothers : ∀ i ∈ inodes, (t.unlink inode).place i ≠ none := by
      intro i hi
      have hne : i ≠ inode := fun heq => hnodup.1 (heq ▸ hi)
      rw [place_unlink, if_neg hne]
      exact hplaced i (List.mem_cons_of_mem _ hi)
    obtain ⟨hnext', hindexes, hget⟩ :=
      ih (indexes_unlink h inode (hplaced inode List.mem_cons_self)) hnodup.2 hothers
    refine ⟨hnext'.trans hnext, hindexes, fun i => ?_⟩
    rw [List.foldl_cons, hget, get?_unlink]
    by_cases hsame : i = inode
    · subst hsame
      rw [if_neg hnodup.1, if_pos rfl, if_pos List.mem_cons_self]
    · rw [if_neg hsame]
      simp [hsame]

/-- The entries of the index name each inode once. -/
theorem nodup_toList (h : Indexes t.byPath t.place) : (t.byPath.toList.map Prod.snd).Nodup := by
  have hkeys : t.byPath.toList.Pairwise fun a b => a.1 ≠ b.1 :=
    List.pairwise_map.mp (FiniteMap.toList_nodup_keys t.byPath)
  refine List.pairwise_map.mpr (hkeys.imp_of_mem fun {a b} ha hb hne heq => hne ?_)
  have hplace := (h a.1 a.2).mp (FiniteMap.mem_toList.mp ha)
  rw [heq, (h b.1 b.2).mp (FiniteMap.mem_toList.mp hb)] at hplace
  exact (Option.some.inj hplace).symm

/-- Whether an inode is linked at a path or below it. -/
def linkedBelow (t : InodeTable) (path : String) (inode : ℕ) : Bool :=
  (t.place inode).any fun candidate => sameOrDescendant candidate path

theorem mem_removed (h : Indexes t.byPath t.place) (path : String) (inode : ℕ) :
    inode ∈ (t.byPath.toList.filter fun e => isRemoved path e.1).map Prod.snd ↔
      t.linkedBelow path inode = true := by
  rw [linkedBelow, Option.any_eq_true, List.mem_map]
  constructor
  · rintro ⟨⟨candidate, inode⟩, hmem, rfl⟩
    obtain ⟨hentry, hbelow⟩ := List.mem_filter.mp hmem
    rw [isRemoved_eq] at hbelow
    exact ⟨candidate, (h candidate inode).mp (FiniteMap.mem_toList.mp hentry), hbelow⟩
  · rintro ⟨candidate, hplace, hbelow⟩
    refine ⟨(candidate, inode), List.mem_filter.mpr ⟨?_, ?_⟩, rfl⟩
    · exact FiniteMap.mem_toList.mpr ((h candidate inode).mpr hplace)
    · rw [isRemoved_eq]
      exact hbelow

theorem removePath_spec (h : Indexes t.byPath t.place) {path : String} (hpath : path ≠ "") :
    (t.removePath path).next = t.next ∧
    Indexes (t.removePath path).byPath (t.removePath path).place ∧
    ∀ i, (t.removePath path).byInode.get? i =
      if t.linkedBelow path i then (t.byInode.get? i).bind dropLink else t.byInode.get? i := by
  rw [removePath, if_neg hpath]
  have hnodup : ((t.byPath.toList.filter fun e => isRemoved path e.1).map Prod.snd).Nodup :=
    (List.filter_sublist.map Prod.snd).nodup (nodup_toList h)
  obtain ⟨hnext, hindexes, hget⟩ := foldl_unlink _ h hnodup fun i hi hnone => by
    have hbelow := (mem_removed h path i).mp hi
    rw [linkedBelow, hnone] at hbelow
    cases hbelow
  refine ⟨hnext, hindexes, fun i => ?_⟩
  rw [hget]
  simp only [mem_removed h]

/-- Nothing is left at the path or below it. -/
theorem place_removePath (h : Indexes t.byPath t.place) {path : String} (hpath : path ≠ "")
    {i : ℕ} {candidate : String} (hplace : (t.removePath path).place i = some candidate) :
    t.place i = some candidate ∧ sameOrDescendant candidate path = false := by
  obtain ⟨entry, hentry, hlinked, rfl⟩ := place_eq_some.mp hplace
  rw [(removePath_spec h hpath).2.2 i] at hentry
  by_cases hbelow : t.linkedBelow path i = true
  · rw [if_pos hbelow] at hentry
    obtain ⟨old, -, hold⟩ := Option.bind_eq_some_iff.mp hentry
    rw [dropLink] at hold
    split_ifs at hold
    cases hold
    cases hlinked
  · rw [if_neg hbelow] at hentry
    have hold := place_eq_some.mpr ⟨entry, hentry, hlinked, rfl⟩
    refine ⟨hold, ?_⟩
    rw [linkedBelow, hold, Option.any_some] at hbelow
    exact Bool.not_eq_true _ ▸ hbelow

theorem mem_movesOf (h : Indexes t.byPath t.place) {source destination : String}
    {m : Move String ℕ} :
    m ∈ t.movesOf source destination ↔
      t.place m.thing = some m.origin ∧ renamedPath m.origin source destination = some m.target := by
  rw [movesOf, List.mem_filterMap]
  constructor
  · rintro ⟨⟨path, inode⟩, hmem, hmove⟩
    obtain ⟨target, htarget, rfl⟩ := Option.map_eq_some_iff.mp hmove
    exact ⟨(h path inode).mp (FiniteMap.mem_toList.mp hmem), movedTo_eq _ _ _ ▸ htarget⟩
  · rintro ⟨hplace, htarget⟩
    refine ⟨(m.origin, m.thing), FiniteMap.mem_toList.mpr ((h _ _).mpr hplace), ?_⟩
    rw [movedTo_eq, htarget]
    rfl

theorem renames_movesOf (h : Indexes t.byPath t.place) (source destination : String) :
    InverseIndex.Renames t.place (renamedPath · source destination)
      (t.movesOf source destination) := by
  refine ⟨List.pairwise_map.mpr (List.pairwise_filterMap.mpr ?_), fun _ => mem_movesOf h⟩
  refine (List.pairwise_map.mp (nodup_toList h)).imp fun hne m hm m' hm' heq => hne ?_
  obtain ⟨target, -, rfl⟩ := Option.map_eq_some_iff.mp hm
  obtain ⟨target', -, rfl⟩ := Option.map_eq_some_iff.mp hm'
  exact heq

theorem get?_move (t : InodeTable) (m : Move String ℕ) (i : ℕ) :
    (t.move m).byInode.get? i =
      if i = m.thing then (t.byInode.get? i).map fun entry => { entry with path := m.target }
      else t.byInode.get? i := by
  rw [move]
  cases hget : t.byInode.get? m.thing with
  | none =>
    dsimp only
    split_ifs with hsame
    · rw [hsame, hget]
      rfl
    · rfl
  | some entry =>
    dsimp only
    rw [FiniteMap.get?_insert]
    split_ifs with hsame
    · rw [hsame, hget]
      rfl
    · rfl

theorem byPath_foldl_move (moves : List (Move String ℕ)) :
    ∀ t : InodeTable, (moves.foldl move t).byPath = moves.foldl InverseIndex.apply t.byPath ∧
      (moves.foldl move t).next = t.next := by
  induction moves with
  | nil =>
    intro t
    exact ⟨rfl, rfl⟩
  | cons m moves ih =>
    intro t
    exact ih (t.move m)

theorem get?_foldl_move_of_notMem {moves : List (Move String ℕ)} {i : ℕ} :
    ∀ {t : InodeTable}, (∀ m ∈ moves, m.thing ≠ i) →
      (moves.foldl move t).byInode.get? i = t.byInode.get? i := by
  induction moves with
  | nil =>
    intro t _
    rfl
  | cons m moves ih =>
    intro t hne
    rw [List.foldl_cons, ih fun other hother => hne other (List.mem_cons_of_mem _ hother), get?_move,
      if_neg (hne m List.mem_cons_self).symm]

theorem get?_foldl_move_of_mem {moves : List (Move String ℕ)} {m : Move String ℕ} :
    ∀ {t : InodeTable}, (moves.map Move.thing).Nodup → m ∈ moves →
      (moves.foldl move t).byInode.get? m.thing =
        (t.byInode.get? m.thing).map fun entry => { entry with path := m.target } := by
  induction moves with
  | nil =>
    intro t _ hmem
    cases hmem
  | cons first moves ih =>
    intro t hnodup hmem
    rw [List.map_cons, List.nodup_cons] at hnodup
    rw [List.foldl_cons]
    rcases List.mem_cons.mp hmem with rfl | hmem
    · have hother : ∀ other ∈ moves, other.thing ≠ m.thing := fun other hmem heq =>
        hnodup.1 (heq ▸ List.mem_map_of_mem hmem)
      rw [get?_foldl_move_of_notMem hother, get?_move, if_pos rfl]
    · have hne : m.thing ≠ first.thing := fun heq =>
        hnodup.1 (heq ▸ List.mem_map_of_mem hmem)
      rw [ih hnodup.2 hmem, get?_move, if_neg hne]

/-- The entry of an inode that is linked at a path below the source follows it. -/
def renamedEntry (source destination : String) (entry : InodeEntry) : InodeEntry :=
  if entry.linked then
    { entry with path := (renamedPath entry.path source destination).getD entry.path }
  else entry

theorem get?_foldl_movesOf (h : Indexes t.byPath t.place) (source destination : String) (i : ℕ) :
    ((t.movesOf source destination).foldl move t).byInode.get? i =
      (t.byInode.get? i).map (renamedEntry source destination) := by
  by_cases hmoved : ∃ m ∈ t.movesOf source destination, m.thing = i
  · obtain ⟨m, hmem, rfl⟩ := hmoved
    obtain ⟨hplace, htarget⟩ := (mem_movesOf h).mp hmem
    obtain ⟨entry, hentry, hlinked, hpath⟩ := place_eq_some.mp hplace
    rw [get?_foldl_move_of_mem (renames_movesOf h source destination).nodup hmem, hentry, Option.map_some,
      Option.map_some, renamedEntry, if_pos hlinked, hpath, htarget, Option.getD_some]
  · have hne : ∀ m ∈ t.movesOf source destination, m.thing ≠ i :=
      fun m hm heq => hmoved ⟨m, hm, heq⟩
    rw [get?_foldl_move_of_notMem hne]
    cases hentry : t.byInode.get? i with
    | none => rfl
    | some entry =>
      rw [Option.map_some, renamedEntry]
      split_ifs with hlinked
      · cases htarget : renamedPath entry.path source destination with
        | none => rfl
        | some target =>
          have hmem := (mem_movesOf h (m := ⟨i, entry.path, target⟩)).mpr
            ⟨place_eq_some.mpr ⟨entry, hentry, hlinked, rfl⟩, htarget⟩
          exact absurd rfl (hne _ hmem)
      · rfl

/-- An entry after a rename has followed the source, once the destination was removed. -/
theorem movePath_spec (source : String) (h : Indexes t.byPath t.place) {destination : String}
    (hdestination : destination ≠ "") :
    (t.movePath source destination).next = t.next ∧
    Indexes (t.movePath source destination).byPath (t.movePath source destination).place ∧
    ∀ i, (t.movePath source destination).byInode.get? i =
      ((t.removePath destination).byInode.get? i).map (renamedEntry source destination) := by
  obtain ⟨hnext, hindexes, -⟩ := removePath_spec h hdestination
  obtain ⟨hbyPath, hnext'⟩ := byPath_foldl_move ((t.removePath destination).movesOf source destination)
    (t.removePath destination)
  have hget := get?_foldl_movesOf hindexes source destination
  have hfree : ∀ path target, renamedPath path source destination = some target → ∀ j,
      (t.removePath destination).place j ≠ some target := by
    intro path target htarget j hplace
    have hbelow := renamedPath_below htarget
    rw [(place_removePath h hdestination hplace).2] at hbelow
    cases hbelow
  have hmoved := hindexes.rename (renames_movesOf hindexes source destination)
    (fun _ _ _ => renamedPath_injective) hfree
  rw [← hbyPath] at hmoved
  refine ⟨hnext'.trans hnext, hmoved.congr fun i => ?_, hget⟩
  rw [place, movePath, hget]
  cases hentry : (t.removePath destination).byInode.get? i with
  | none => rw [place, hentry]; rfl
  | some entry =>
    rw [place, hentry, Option.map_some, Option.bind_some, Option.bind_some, renamedEntry]
    by_cases hlinked : entry.linked = true
    · rw [if_pos hlinked, if_pos hlinked, if_pos hlinked]
      rfl
    · rw [if_neg hlinked, if_neg hlinked]
      rfl

end InodeTable

/-- An entry of the same object: it keeps its generation, moves only with a rename, and once it is
unlinked it stays so. -/
structure SameObject (op : InodeOp) (entry entry' : InodeEntry) : Prop where
  generation : entry'.generation = entry.generation
  path : entry'.path = entry.path ∨ ∃ source destination, op = .rename source destination ∧
    entry.linked = true ∧ renamedPath entry.path source destination = some entry'.path
  linked : entry'.linked = true → entry.linked = true

theorem SameObject.refl (op : InodeOp) (entry : InodeEntry) : SameObject op entry entry :=
  ⟨rfl, .inl rfl, id⟩

/-- An inode goes only with its last lookup, and stands for its object until then. A new one has
the next number. -/
structure Keeps (op : InodeOp) (s s' : Tracked) : Prop where
  object : ∀ i entry, s.table.byInode.get? i = some entry →
    (s'.table.byInode.get? i = none ∧ s'.outstanding i = 0) ∨
      ∃ entry', s'.table.byInode.get? i = some entry' ∧ SameObject op entry entry'
  fresh : ∀ i, s.table.byInode.get? i = none → s'.table.byInode.get? i ≠ none → i = s.table.next

theorem Keeps.refl (op : InodeOp) {s s' : Tracked} (h : s'.table = s.table) : Keeps op s s' where
  object _ entry hentry := .inr ⟨entry, h ▸ hentry, SameObject.refl op entry⟩
  fresh _ hnone hsome := absurd (h ▸ hnone) hsome

/-- What the calls keep, when so many lookups were made and so many numbers were given out. -/
structure Kept (lookups allocated : ℕ) (s : Tracked) : Prop where
  indexes : Indexes s.table.byPath s.table.place
  next : s.table.next = min (allocated + 2) u64Max
  given : ∀ i entry, s.table.byInode.get? i = some entry → i < allocated + 2
  root : s.table.place rootInode = some ""
  small : ∀ i entry, s.table.byInode.get? i = some entry → entry.lookupCount ≤ lookups
  counted : ∀ i entry, i ≠ rootInode → s.table.byInode.get? i = some entry →
    entry.lookupCount = s.outstanding i
  gone : ∀ i, i ≠ rootInode → s.table.byInode.get? i = none → s.outstanding i = 0
  unlinked : ∀ i entry, s.table.byInode.get? i = some entry → entry.linked = false →
    0 < entry.lookupCount

namespace Kept

variable {lookups allocated : ℕ} {s : Tracked}

theorem mono (h : Kept lookups allocated s) : Kept (lookups + 1) allocated s :=
  { h with small := fun i entry hget => (h.small i entry hget).trans (Nat.le_succ _) }

/-- A call that rewrites entries, and leaves their counts, or drops them when no lookup is left. -/
theorem rewrite (h : Kept lookups allocated s) {t : InodeTable} {op : InodeOp}
    {f : ℕ → InodeEntry → Option InodeEntry} (hindexes : Indexes t.byPath t.place)
    (hnext : t.next = s.table.next) (hroot : t.place rootInode = some "")
    (hget : ∀ i, t.byInode.get? i = (s.table.byInode.get? i).bind (f i))
    (hsome : ∀ i entry entry', f i entry = some entry' →
      entry'.lookupCount = entry.lookupCount ∧ SameObject op entry entry' ∧
        (entry'.linked = false → entry.linked = false ∨ 0 < entry.lookupCount))
    (hnone : ∀ i entry, f i entry = none → entry.lookupCount = 0) :
    Kept lookups allocated ⟨t, s.outstanding⟩ ∧ Keeps op s ⟨t, s.outstanding⟩ := by
  have hold : ∀ i entry', t.byInode.get? i = some entry' →
      ∃ entry, s.table.byInode.get? i = some entry ∧ f i entry = some entry' := by
    intro i entry' hentry
    rw [hget] at hentry
    exact Option.bind_eq_some_iff.mp hentry
  have hroot' : t.byInode.get? rootInode ≠ none := fun hnone => by
    rw [InodeTable.place_eq_none hnone] at hroot
    cases hroot
  have hgone : ∀ i entry, s.table.byInode.get? i = some entry → t.byInode.get? i = none →
      s.outstanding i = 0 := by
    intro i entry hentry hdropped
    have hne : i ≠ rootInode := fun heq => hroot' (heq ▸ hdropped)
    rw [hget, hentry, Option.bind_some] at hdropped
    rw [← h.counted i entry hne hentry]
    exact hnone i entry hdropped
  refine ⟨⟨hindexes, hnext.trans h.next, fun i entry' hentry => ?_, hroot, fun i entry' hentry => ?_,
    fun i entry' hne hentry => ?_, fun i hne hdropped => ?_, fun i entry' hentry hunlinked => ?_⟩,
    fun i entry hentry => ?_, fun i hnone hsome => absurd (by rw [hget, hnone]; rfl) hsome⟩
  · obtain ⟨entry, hentry, -⟩ := hold i entry' hentry
    exact h.given i entry hentry
  · obtain ⟨entry, hentry, hf⟩ := hold i entry' hentry
    rw [(hsome i entry entry' hf).1]
    exact h.small i entry hentry
  · obtain ⟨entry, hentry, hf⟩ := hold i entry' hentry
    rw [(hsome i entry entry' hf).1]
    exact h.counted i entry hne hentry
  · cases hentry : s.table.byInode.get? i with
    | none => exact h.gone i hne hentry
    | some entry => exact hgone i entry hentry hdropped
  · obtain ⟨entry, hentry, hf⟩ := hold i entry' hentry
    obtain ⟨hcount, -, hlinked⟩ := hsome i entry entry' hf
    rw [hcount]
    rcases hlinked hunlinked with hunlinked | hpos
    · exact h.unlinked i entry hentry hunlinked
    · exact hpos
  · have hentry' : t.byInode.get? i = f i entry := by rw [hget, hentry, Option.bind_some]
    dsimp only
    cases hf : f i entry with
    | none => exact .inl ⟨hentry'.trans hf, hgone i entry hentry (hentry'.trans hf)⟩
    | some entry' => exact .inr ⟨entry', hentry'.trans hf, (hsome i entry entry' hf).2.1⟩

theorem dropLink_some {entry entry' : InodeEntry} (op : InodeOp)
    (h : InodeTable.dropLink entry = some entry') :
    entry'.lookupCount = entry.lookupCount ∧ SameObject op entry entry' ∧
      (entry'.linked = false → entry.linked = false ∨ 0 < entry.lookupCount) := by
  rw [InodeTable.dropLink] at h
  split_ifs at h with hcount
  cases h
  exact ⟨rfl, ⟨rfl, .inl rfl, fun hlinked => by cases hlinked⟩,
    fun _ => .inr (Nat.pos_of_ne_zero hcount)⟩

theorem dropLink_none {entry : InodeEntry} (h : InodeTable.dropLink entry = none) :
    entry.lookupCount = 0 := by
  rw [InodeTable.dropLink] at h
  split_ifs at h with hcount
  exact hcount

theorem sameObject_renamed {source destination : String} {entry entry' : InodeEntry}
    (h : SameObject (.rename source destination) entry entry') (hpath : entry'.path = entry.path) :
    SameObject (.rename source destination) entry
      (InodeTable.renamedEntry source destination entry') := by
  rw [InodeTable.renamedEntry]
  split_ifs with hlinked
  · refine ⟨h.generation, ?_, h.linked⟩
    cases htarget : renamedPath entry'.path source destination with
    | none => exact .inl hpath
    | some target =>
      exact .inr ⟨source, destination, rfl, h.linked hlinked, hpath ▸ htarget⟩
  · exact h

theorem sameOrDescendant_empty {path : String} (h : sameOrDescendant "" path = true) :
    path = "" := by
  obtain ⟨suffix, hsuffix, -⟩ := sameOrDescendant_iff.mp h
  exact (String.append_eq_empty_iff.mp hsuffix.symm).1

/-- The root is below no named path. -/
theorem root_removePath (h : Kept lookups allocated s) {path : String} (hpath : path ≠ "") :
    (s.table.removePath path).place rootInode = some "" := by
  obtain ⟨entry, hentry, hlinked, hroot⟩ := InodeTable.place_eq_some.mp h.root
  have hbelow : s.table.linkedBelow path rootInode = false := by
    rw [InodeTable.linkedBelow, h.root, Option.any_some, Bool.eq_false_iff]
    exact fun hbelow => hpath (sameOrDescendant_empty hbelow)
  refine InodeTable.place_eq_some.mpr ⟨entry, ?_, hlinked, hroot⟩
  rw [(InodeTable.removePath_spec h.indexes hpath).2.2, hbelow, if_neg Bool.false_ne_true]
  exact hentry

theorem unlink (h : Kept lookups allocated s) (path : String) :
    Kept lookups allocated (s.step (.unlink path)) ∧
      Keeps (.unlink path) s (s.step (.unlink path)) := by
  by_cases hpath : path = ""
  · have hsame : s.step (.unlink path) = s := by rw [Tracked.step, InodeTable.removePath, if_pos hpath]
    rw [hsame]
    exact ⟨h, Keeps.refl _ rfl⟩
  · obtain ⟨hnext, hindexes, hget⟩ := InodeTable.removePath_spec h.indexes hpath
    refine h.rewrite (f := fun i entry => if s.table.linkedBelow path i then
      InodeTable.dropLink entry else some entry) hindexes hnext (h.root_removePath hpath)
      (fun i => ?_) (fun i entry entry' hf => ?_) fun i entry hf => ?_
    · rw [hget]
      split_ifs
      · rfl
      · cases s.table.byInode.get? i <;> rfl
    · beta_reduce at hf
      split_ifs at hf
      · exact dropLink_some _ hf
      · cases hf
        exact ⟨rfl, SameObject.refl _ entry, .inl⟩
    · beta_reduce at hf
      split_ifs at hf
      exact dropLink_none hf

theorem rename (h : Kept lookups allocated s) {source destination : String}
    (hsource : source ≠ "") (hdestination : destination ≠ "") :
    Kept lookups allocated (s.step (.rename source destination)) ∧
      Keeps (.rename source destination) s (s.step (.rename source destination)) := by
  obtain ⟨hnext, hindexes, hget⟩ :=
    InodeTable.movePath_spec source h.indexes hdestination
  obtain ⟨-, -, hget'⟩ := InodeTable.removePath_spec h.indexes hdestination
  have hroot : (s.table.movePath source destination).place rootInode = some "" := by
    obtain ⟨entry, hentry, hlinked, hpath⟩ :=
      InodeTable.place_eq_some.mp (h.root_removePath hdestination)
    refine InodeTable.place_eq_some.mpr ⟨entry, ?_, hlinked, hpath⟩
    have hstays : renamedPath "" source destination = none := by
      rw [← Option.not_isSome_iff_eq_none, renamedPath_isSome]
      exact fun hbelow => hsource (sameOrDescendant_empty hbelow)
    rw [hget, hentry, Option.map_some, InodeTable.renamedEntry, if_pos hlinked, hpath, hstays,
      Option.getD_none, ← hpath]
  refine h.rewrite (f := fun i entry => (if s.table.linkedBelow destination i then
    InodeTable.dropLink entry else some entry).map (InodeTable.renamedEntry source destination))
    hindexes hnext hroot (fun i => ?_) (fun i entry entry' hf => ?_)
    fun i entry hf => ?_
  · rw [hget, hget']
    cases s.table.byInode.get? i with
    | none => simp
    | some entry => split_ifs <;> rfl
  · obtain ⟨middle, hmiddle, rfl⟩ := Option.map_eq_some_iff.mp hf
    have hcount : (InodeTable.renamedEntry source destination middle).lookupCount =
        middle.lookupCount ∧ (InodeTable.renamedEntry source destination middle).linked =
          middle.linked := by
      rw [InodeTable.renamedEntry]
      split_ifs <;> exact ⟨rfl, rfl⟩
    rw [hcount.1, hcount.2]
    split_ifs at hmiddle
    · obtain ⟨hsame, hobject, hlinked⟩ := dropLink_some (.rename source destination) hmiddle
      refine ⟨hsame, sameObject_renamed hobject ?_, hlinked⟩
      rw [InodeTable.dropLink] at hmiddle
      split_ifs at hmiddle
      cases hmiddle
      rfl
    · cases hmiddle
      exact ⟨rfl, sameObject_renamed (SameObject.refl _ entry) rfl, .inl⟩
  · rw [Option.map_eq_none_iff] at hf
    split_ifs at hf
    exact dropLink_none hf

/-- A count that changes along with what is outstanding. An entry stays while it is linked or has a
lookup left. -/
theorem recount (h : Kept lookups allocated s) (op : InodeOp) {inode : ℕ} {entry : InodeEntry}
    (hentry : s.table.byInode.get? inode = some entry) (lookupCount left : ℕ)
    (hcount : inode ≠ rootInode → lookupCount = left) (hsmall : lookupCount ≤ lookups + 1)
    (hlinked : entry.linked = false → 0 < lookupCount) :
    Kept (lookups + 1) allocated
        ⟨{ s.table with byInode := s.table.byInode.insert inode { entry with lookupCount } },
          Function.update s.outstanding inode left⟩ ∧
      Keeps op s
        ⟨{ s.table with byInode := s.table.byInode.insert inode { entry with lookupCount } },
          Function.update s.outstanding inode left⟩ := by
  have hget : ∀ i, (s.table.byInode.insert inode { entry with lookupCount }).get? i =
      if i = inode then some { entry with lookupCount } else s.table.byInode.get? i :=
    fun i => FiniteMap.get?_insert _ _ _ _
  have hplace : ∀ i, InodeTable.place { s.table with
      byInode := s.table.byInode.insert inode { entry with lookupCount } } i = s.table.place i := by
    intro i
    rw [InodeTable.place, hget, InodeTable.place]
    split_ifs with hi
    · rw [hi, hentry]
      rfl
    · rfl
  refine ⟨⟨h.indexes.congr hplace, h.next, fun i entry' hentry' => ?_, ?_, fun i entry' hentry' => ?_,
    fun i entry' hne hentry' => ?_, fun i hne hnone => ?_, fun i entry' hentry' hunlinked => ?_⟩,
    fun i entry' hentry' => ?_, fun i hnone hsome => ?_⟩
  · rw [hget] at hentry'
    split_ifs at hentry' with hi
    · exact hi ▸ h.given inode entry hentry
    · exact h.given i entry' hentry'
  · dsimp only
    rw [hplace]
    exact h.root
  · rw [hget] at hentry'
    split_ifs at hentry' with hi
    · cases hentry'
      exact hsmall
    · exact (h.small i entry' hentry').trans (Nat.le_succ _)
  · rw [hget] at hentry'
    dsimp only
    split_ifs at hentry' with hi
    · cases hentry'
      rw [hi, Function.update_self]
      exact hcount (hi ▸ hne)
    · rw [Function.update_of_ne hi]
      exact h.counted i entry' hne hentry'
  · rw [hget] at hnone
    dsimp only
    split_ifs at hnone with hi
    rw [Function.update_of_ne hi]
    exact h.gone i hne hnone
  · rw [hget] at hentry'
    split_ifs at hentry' with hi
    · cases hentry'
      exact hlinked hunlinked
    · exact h.unlinked i entry' hentry' hunlinked
  · right
    dsimp only
    rw [hget]
    split_ifs with hi
    · rw [hi, hentry] at hentry'
      cases hentry'
      exact ⟨_, rfl, rfl, .inl rfl, id⟩
    · exact ⟨entry', hentry', SameObject.refl _ entry'⟩
  · dsimp only at hsome
    rw [hget] at hsome
    split_ifs at hsome with hi
    · rw [hi, hentry] at hnone
      cases hnone
    · exact absurd hnone hsome

/-- An unlinked entry goes when nothing is outstanding. -/
theorem discard (h : Kept lookups allocated s) (op : InodeOp) {inode : ℕ} {entry : InodeEntry}
    (hentry : s.table.byInode.get? inode = some entry)
    (hunlinked : entry.linked = false) {left : ℕ} (hleft : left = 0) :
    Kept (lookups + 1) allocated
        ⟨{ s.table with byInode := s.table.byInode.erase inode },
          Function.update s.outstanding inode left⟩ ∧
      Keeps op s
        ⟨{ s.table with byInode := s.table.byInode.erase inode },
          Function.update s.outstanding inode left⟩ := by
  have hget : ∀ i, (s.table.byInode.erase inode).get? i =
      if i = inode then none else s.table.byInode.get? i := fun i => FiniteMap.get?_erase _ _ _
  have hplace : ∀ i, InodeTable.place { s.table with byInode := s.table.byInode.erase inode } i =
      s.table.place i := by
    intro i
    rw [InodeTable.place, hget, InodeTable.place]
    split_ifs with hi
    · rw [hi, hentry, Option.bind_some, hunlinked]
      rfl
    · rfl
  have hold : ∀ i entry', (s.table.byInode.erase inode).get? i = some entry' →
      s.table.byInode.get? i = some entry' ∧ i ≠ inode := by
    intro i entry' hentry'
    rw [hget] at hentry'
    split_ifs at hentry' with hi
    exact ⟨hentry', hi⟩
  refine ⟨⟨h.indexes.congr hplace, h.next, fun i entry' hentry' => ?_, ?_, fun i entry' hentry' => ?_,
    fun i entry' hne hentry' => ?_, fun i hne hnone => ?_, fun i entry' hentry' => ?_⟩,
    fun i entry' hentry' => ?_, fun i hnone hsome => ?_⟩
  · exact h.given i entry' (hold i entry' hentry').1
  · dsimp only
    rw [hplace]
    exact h.root
  · exact (h.small i entry' (hold i entry' hentry').1).trans (Nat.le_succ _)
  · obtain ⟨hentry', hi⟩ := hold i entry' hentry'
    dsimp only
    rw [Function.update_of_ne hi]
    exact h.counted i entry' hne hentry'
  · dsimp only
    by_cases hi : i = inode
    · rw [hi, Function.update_self, hleft]
    · rw [hget, if_neg hi] at hnone
      rw [Function.update_of_ne hi]
      exact h.gone i hne hnone
  · exact h.unlinked i entry' (hold i entry' hentry').1
  · dsimp only
    by_cases hi : i = inode
    · left
      rw [hget, if_pos hi, hi, Function.update_self]
      exact ⟨rfl, hleft⟩
    · right
      rw [hget, if_neg hi]
      exact ⟨entry', hentry', SameObject.refl _ entry'⟩
  · dsimp only at hsome
    rw [hget] at hsome
    split_ifs at hsome
    · exact absurd rfl hsome
    · exact absurd hnone hsome

theorem forget (h : Kept lookups allocated s) (inode count : ℕ) :
    Kept (lookups + 1) allocated (s.step (.forget inode count)) ∧
      Keeps (.forget inode count) s (s.step (.forget inode count)) := by
  rw [Tracked.step, InodeTable.forget]
  by_cases hroot : inode = rootInode
  · rw [if_pos hroot]
    refine ⟨{ h.mono with counted := fun i entry hne hentry => ?_, gone := fun i hne hnone => ?_ },
      Keeps.refl _ rfl⟩
    · dsimp only
      rw [hroot, Function.update_of_ne hne]
      exact h.counted i entry hne hentry
    · dsimp only
      rw [hroot, Function.update_of_ne hne]
      exact h.gone i hne hnone
  · rw [if_neg hroot]
    cases hget : s.table.byInode.get? inode with
    | none =>
      have hzero := h.gone inode hroot hget
      have hsame : Function.update s.outstanding inode (s.outstanding inode - count) =
          s.outstanding := by
        rw [hzero, Nat.zero_sub, ← hzero, Function.update_eq_self]
      dsimp only
      rw [hsame]
      exact ⟨h.mono, Keeps.refl _ rfl⟩
    | some entry =>
      dsimp only
      have hcounted := h.counted inode entry hroot hget
      have hsmall := h.small inode entry hget
      by_cases hlast : (!entry.linked && decide (entry.lookupCount - count = 0)) = true
      · rw [if_pos hlast]
        rw [Bool.and_eq_true, Bool.not_eq_true', decide_eq_true_eq] at hlast
        have hleft : s.outstanding inode - count = 0 := by
          rw [← hcounted]
          exact hlast.2
        exact h.discard _ hget hlast.1 hleft
      · rw [if_neg hlast]
        refine h.recount _ hget _ _ (fun _ => by rw [hcounted]) (by omega) fun hunlinked => ?_
        rw [hunlinked, Bool.not_false, Bool.true_and, decide_eq_true_eq] at hlast
        exact Nat.pos_of_ne_zero hlast

/-- A path that is known keeps its number, and any other gets the next one. -/
theorem ensure (h : Kept lookups allocated s) (hroom : allocated + 2 ≤ u64Max) (path : String) :
    ∃ allocated', allocated ≤ allocated' ∧ allocated' ≤ allocated + 1 ∧
      Kept lookups allocated' ⟨(s.table.ensure path).1, s.outstanding⟩ ∧
      (s.table.ensure path).1.place (s.table.ensure path).2 = some path ∧
      (∀ i entry, s.table.byInode.get? i = some entry →
        (s.table.ensure path).1.byInode.get? i = some entry) ∧
      ∀ i, s.table.byInode.get? i = none → (s.table.ensure path).1.byInode.get? i ≠ none →
        i = s.table.next := by
  rw [InodeTable.ensure]
  cases hpath : s.table.byPath.get? path with
  | some inode =>
    refine ⟨allocated, le_refl _, Nat.le_succ _, h, (h.indexes path inode).mp hpath,
      fun i entry hentry => hentry, fun i hnone hsome => absurd hnone hsome⟩
  | none =>
    have hnext : s.table.next = allocated + 2 := by rw [h.next, Nat.min_eq_left hroom]
    have hfresh : s.table.byInode.get? s.table.next = none := by
      rw [hnext]
      by_contra hsome
      obtain ⟨entry, hentry⟩ := Option.ne_none_iff_exists'.mp hsome
      exact absurd (h.given _ entry hentry) (lt_irrefl _)
    have hfree : ∀ j, s.table.place j ≠ some path := fun j hplace => by
      rw [(h.indexes path j).mpr hplace] at hpath
      cases hpath
    dsimp only [InodeTable.insert]
    have hget : ∀ i, (s.table.byInode.insert s.table.next ⟨path, s.table.next, 0, true⟩).get? i =
        if i = s.table.next then some ⟨path, s.table.next, 0, true⟩ else s.table.byInode.get? i :=
      fun i => FiniteMap.get?_insert _ _ _ _
    have hplace : ∀ i, InodeTable.place ⟨min (s.table.next + 1) u64Max,
        s.table.byPath.insert path s.table.next,
        s.table.byInode.insert s.table.next ⟨path, s.table.next, 0, true⟩⟩ i =
          Function.update s.table.place s.table.next (some path) i := by
      intro i
      rw [InodeTable.place, hget]
      by_cases hi : i = s.table.next
      · rw [if_pos hi, hi, Function.update_self]
        rfl
      · rw [if_neg hi, Function.update_of_ne hi]
        rfl
    have hold : ∀ i entry, s.table.byInode.get? i = some entry → i ≠ s.table.next := by
      rintro i entry hentry rfl
      rw [hfresh] at hentry
      cases hentry
    have hroot : rootInode ≠ s.table.next := by
      rw [hnext, rootInode]
      omega
    refine ⟨allocated + 1, Nat.le_succ _, le_refl _, ⟨?_, ?_, fun i entry hentry => ?_, ?_,
      fun i entry hentry => ?_, fun i entry hne hentry => ?_, fun i hne hnone => ?_,
      fun i entry hentry hunlinked => ?_⟩, ?_, fun i entry hentry => ?_, fun i hnone hsome => ?_⟩
    · exact (h.indexes.insert (InodeTable.place_eq_none hfresh) hfree).congr hplace
    · dsimp only
      rw [hnext]
    · rw [hget] at hentry
      split_ifs at hentry with hi
      · rw [hi, hnext]
        omega
      · have := h.given i entry hentry
        omega
    · dsimp only
      rw [hplace, Function.update_of_ne hroot, h.root]
    · rw [hget] at hentry
      split_ifs at hentry with hi
      · cases hentry
        exact Nat.zero_le _
      · exact h.small i entry hentry
    · rw [hget] at hentry
      split_ifs at hentry with hi
      · cases hentry
        rw [hi]
        exact (h.gone _ hroot.symm hfresh).symm
      · exact h.counted i entry hne hentry
    · rw [hget] at hnone
      split_ifs at hnone with hi
      exact h.gone i hne hnone
    · rw [hget] at hentry
      split_ifs at hentry with hi
      · cases hentry
        cases hunlinked
      · exact h.unlinked i entry hentry hunlinked
    · rw [hplace, Function.update_self]
    · rw [hget, if_neg (hold i entry hentry)]
      exact hentry
    · rw [hget] at hsome
      split_ifs at hsome with hi
      · exact hi
      · exact absurd hnone hsome

theorem lookup (h : Kept lookups allocated s) (hroom : allocated + 2 ≤ u64Max)
    (hcount : lookups < u64Max) (path : String) :
    ∃ allocated', allocated ≤ allocated' ∧ allocated' ≤ allocated + 1 ∧
      Kept (lookups + 1) allocated' (s.step (.lookup path)) ∧
      Keeps (.lookup path) s (s.step (.lookup path)) ∧
      ((s.table.recordLookup path).2.map Prod.fst).bind (s.step (.lookup path)).table.place =
        some path := by
  obtain ⟨allocated', hle, hle', hkept, hplace, hsame, hfresh⟩ := h.ensure hroom path
  obtain ⟨entry, hentry, hlinked, hpath⟩ := InodeTable.place_eq_some.mp hplace
  have hsmall := hkept.small _ entry hentry
  have hmin : min (entry.lookupCount + 1) u64Max = entry.lookupCount + 1 := by omega
  have hrecord : s.table.recordLookup path =
      ({ (s.table.ensure path).1 with
        byInode := (s.table.ensure path).1.byInode.insert (s.table.ensure path).2
          { entry with lookupCount := entry.lookupCount + 1 } },
        some ((s.table.ensure path).2, entry.generation)) := by
    rw [InodeTable.recordLookup]
    dsimp only
    rw [hentry]
    dsimp only
    rw [hmin]
  have hstep : s.step (.lookup path) =
      ⟨{ (s.table.ensure path).1 with
        byInode := (s.table.ensure path).1.byInode.insert (s.table.ensure path).2
          { entry with lookupCount := entry.lookupCount + 1 } },
        Function.update s.outstanding (s.table.ensure path).2
          (s.outstanding (s.table.ensure path).2 + 1)⟩ := by
    rw [Tracked.step, hrecord]
  obtain ⟨hkept', hkeeps⟩ := hkept.recount (.lookup path) hentry (entry.lookupCount + 1)
    (s.outstanding (s.table.ensure path).2 + 1) (fun hne => by rw [hkept.counted _ entry hne hentry]) (Nat.succ_le_succ hsmall)
    fun _ => Nat.succ_pos _
  rw [hrecord, hstep]
  refine ⟨allocated', hle, hle', hkept',
    ⟨fun i entry' hentry' => hkeeps.object i entry' (hsame i entry' hentry'), fun i hnone hsome => ?_⟩,
    InodeTable.place_eq_some.mpr ⟨_, FiniteMap.get?_insert_self _ _ _, hlinked, hpath⟩⟩
  · refine hfresh i hnone fun hnone' => hsome ?_
    dsimp only
    rw [FiniteMap.get?_insert, hnone']
    refine if_neg ?_
    rintro rfl
    rw [hentry] at hnone'
    cases hnone'

theorem step (h : Kept lookups allocated s) (hroom : allocated + 2 ≤ u64Max)
    (hcount : lookups < u64Max) {op : InodeOp} (hnamed : op.Named) :
    ∃ allocated', allocated ≤ allocated' ∧ allocated' ≤ allocated + 1 ∧
      Kept (lookups + 1) allocated' (s.step op) ∧ Keeps op s (s.step op) := by
  cases op with
  | lookup path =>
    obtain ⟨allocated', hle, hle', hkept, hkeeps, -⟩ := h.lookup hroom hcount path
    exact ⟨allocated', hle, hle', hkept, hkeeps⟩
  | ensure path =>
    obtain ⟨allocated', hle, hle', hkept, -, hsame, hfresh⟩ := h.ensure hroom path
    exact ⟨allocated', hle, hle', hkept.mono,
      fun i entry hentry => .inr ⟨entry, hsame i entry hentry, SameObject.refl _ entry⟩, hfresh⟩
  | forget inode count =>
    obtain ⟨hkept, hkeeps⟩ := h.forget inode count
    exact ⟨allocated, le_refl _, Nat.le_succ _, hkept, hkeeps⟩
  | unlink path =>
    obtain ⟨hkept, hkeeps⟩ := h.unlink path
    exact ⟨allocated, le_refl _, Nat.le_succ _, hkept.mono, hkeeps⟩
  | rename source destination =>
    obtain ⟨hkept, hkeeps⟩ := h.rename hnamed.1 hnamed.2
    exact ⟨allocated, le_refl _, Nat.le_succ _, hkept.mono, hkeeps⟩

theorem run (ops : List InodeOp) :
    ∀ {lookups allocated : ℕ} {s : Tracked}, Kept lookups allocated s →
      lookups + ops.length < u64Max → allocated + ops.length < u64Max →
      (∀ op ∈ ops, op.Named) →
      ∃ allocated', allocated ≤ allocated' ∧ allocated' ≤ allocated + ops.length ∧
        Kept (lookups + ops.length) allocated' (ops.foldl Tracked.step s) := by
  induction ops with
  | nil =>
    intro lookups allocated s h _ _ _
    exact ⟨allocated, le_refl _, le_refl _, h⟩
  | cons op ops ih =>
    intro lookups allocated s h hlookups hallocated hnamed
    rw [List.length_cons] at hlookups hallocated ⊢
    obtain ⟨allocated₁, hle, hle₁, hkept, -⟩ :=
      h.step (by omega) (by omega) (hnamed op List.mem_cons_self)
    obtain ⟨allocated₂, hle₂, hle₃, hkept₂⟩ := ih hkept (by omega) (by omega)
      fun op' hop' => hnamed op' (List.mem_cons_of_mem _ hop')
    refine ⟨allocated₂, by omega, by omega, ?_⟩
    rw [Nat.add_comm ops.length, ← Nat.add_assoc]
    exact hkept₂

theorem new : Kept 0 0 .new := by
  have hget : ∀ i, Tracked.new.table.byInode.get? i =
      if i = rootInode then some ⟨"", rootInode, 0, true⟩ else none := fun i =>
    FiniteMap.get?_insert _ _ _ _
  have hplace : ∀ i, Tracked.new.table.place i = if i = rootInode then some "" else none := by
    intro i
    rw [InodeTable.place, hget]
    split_ifs <;> rfl
  refine ⟨fun path i => ?_, rfl, fun i entry hentry => ?_, hplace rootInode, fun i entry hentry => ?_,
    fun i entry hne hentry => ?_, fun _ _ _ => rfl, fun i entry hentry hunlinked => ?_⟩
  · rw [hplace]
    have hpath : Tracked.new.table.byPath.get? path = if path = "" then some rootInode else none :=
      FiniteMap.get?_insert _ _ _ _
    rw [hpath]
    by_cases hp : path = ""
    · simp [hp, eq_comm]
    · simp [hp, Ne.symm hp]
  all_goals
    rw [hget] at hentry
    split_ifs at hentry with hi
    cases hentry
  · rw [hi, rootInode]
    omega
  · exact le_refl _
  · exact absurd hi hne
  · cases hunlinked

end Kept

/-- Over any run of fewer than `2 ^ 64 - 1` calls the index and the linked entries are inverse to
each other, an inode is there while a lookup of it is outstanding and, once unlinked, no longer, and
each call keeps what the inodes stand for. A number that a call gives out was never given out
before. -/
theorem inode_table_consistent (ops : List InodeOp) (hcalls : ops.length < 2 ^ 64 - 1)
    (hnamed : ∀ op ∈ ops, op.Named) :
    let s := ops.foldl Tracked.step .new
    (∀ path i, s.table.byPath.get? path = some i ↔ ∃ entry,
      s.table.byInode.get? i = some entry ∧ entry.linked = true ∧ entry.path = path) ∧
    (∀ i, 0 < s.outstanding i → (s.table.byInode.get? i).isSome = true) ∧
    (∀ i entry, s.table.byInode.get? i = some entry → entry.linked = false →
      0 < s.outstanding i) ∧
    ∀ before op after, ops = before ++ op :: after →
      Keeps op (before.foldl Tracked.step .new) ((before.foldl Tracked.step .new).step op) ∧
      ∀ i, (before.foldl Tracked.step .new).table.byInode.get? i = none →
        ((before.foldl Tracked.step .new).step op).table.byInode.get? i ≠ none →
        ∀ earlier, earlier <+: before →
          (earlier.foldl Tracked.step .new).table.byInode.get? i = none := by
  have hmax : u64Max = 2 ^ 64 - 1 := rfl
  obtain ⟨allocated, -, -, hkept⟩ := Kept.new.run ops (by omega) (by omega) hnamed
  refine ⟨fun path i => (hkept.indexes path i).trans InodeTable.place_eq_some, fun i hpos => ?_,
    fun i entry hentry hunlinked => ?_, fun before op after hops => ?_⟩
  · rw [Option.isSome_iff_ne_none]
    intro hnone
    by_cases hroot : i = rootInode
    · have hplace := hkept.root
      rw [← hroot, InodeTable.place_eq_none hnone] at hplace
      cases hplace
    · exact absurd (hkept.gone i hroot hnone) hpos.ne'
  · have hpos := hkept.unlinked i entry hentry hunlinked
    rw [hkept.counted i entry ?_ hentry] at hpos
    · exact hpos
    · rintro rfl
      obtain ⟨root, hget, hlinked, -⟩ := InodeTable.place_eq_some.mp hkept.root
      rw [hentry] at hget
      cases hget
      rw [hunlinked] at hlinked
      cases hlinked
  · rw [hops, List.length_append, List.length_cons] at hcalls
    have hbefore : ∀ op ∈ before, op.Named := fun op hop =>
      hnamed op (hops ▸ List.mem_append_left _ hop)
    have hop : op.Named := hnamed op (hops ▸ List.mem_append_right _ List.mem_cons_self)
    obtain ⟨given, -, hle, hkept⟩ := Kept.new.run before (by omega) (by omega) hbefore
    obtain ⟨-, -, -, -, hkeeps⟩ := hkept.step (by omega) (by omega) hop
    refine ⟨hkeeps, fun i hnone hsome earlier hearlier => ?_⟩
    obtain ⟨rest, rfl⟩ := hearlier
    rw [List.length_append] at hcalls hle
    obtain ⟨given', -, hle', hkept'⟩ := Kept.new.run earlier (by omega) (by omega)
      fun op hop => hbefore op (List.mem_append_left _ hop)
    obtain ⟨given'', hle'', hle₃, hkept''⟩ := hkept'.run rest (by omega) (by omega)
      fun op hop => hbefore op (List.mem_append_right _ hop)
    rw [hkeeps.fresh i hnone hsome, List.foldl_append, hkept''.next, Nat.min_eq_left (by omega)]
    by_contra hthere
    obtain ⟨entry, hentry⟩ := Option.ne_none_iff_exists'.mp hthere
    have := hkept'.given _ entry hentry
    omega

namespace TestVectors

def numberedPath (k : ℕ) : String := .ofList (.replicate (k + 1) 'a')

def flood (count : ℕ) : List InodeOp := (List.range count).map fun k => .lookup (numberedPath k)

theorem numberedPath_ne {k l : ℕ} (h : k ≠ l) : numberedPath k ≠ numberedPath l := by
  intro heq
  have hlength := congrArg (fun s : String => s.toList.length) heq
  simp only [numberedPath, String.toList_ofList, List.length_replicate] at hlength
  omega

/-- A lookup of a new path takes the next number. -/
theorem recordLookup_new {t : InodeTable} {path : String} (h : t.byPath.get? path = none) :
    t.recordLookup path =
      (⟨min (t.next + 1) u64Max, t.byPath.insert path t.next,
        (t.byInode.insert t.next ⟨path, t.next, 0, true⟩).insert t.next
          ⟨path, t.next, min 1 u64Max, true⟩⟩, some (t.next, t.next)) := by
  rw [InodeTable.recordLookup, InodeTable.ensure, h]
  dsimp only [InodeTable.insert]
  rw [FiniteMap.get?_insert_self]

/-- The table after that many new paths. -/
theorem flood_spec (count : ℕ) :
    ((flood count).foldl Tracked.step .new).table.next = min (count + 2) u64Max ∧
      ∀ k, count ≤ k →
        ((flood count).foldl Tracked.step .new).table.byPath.get? (numberedPath k) = none := by
  induction count with
  | zero =>
    refine ⟨rfl, fun k _ => ?_⟩
    have hne : numberedPath k ≠ "" := fun heq => by
      have hlength := congrArg (fun s : String => s.toList.length) heq
      simp only [numberedPath, String.toList_ofList, List.length_replicate] at hlength
      cases hlength
    exact (FiniteMap.get?_insert_ne _ hne _)
  | succ count ih =>
    obtain ⟨hnext, hnew⟩ := ih
    rw [flood, List.range_succ, List.map_append, List.foldl_append, ← flood]
    generalize (flood count).foldl Tracked.step .new = s at hnext hnew ⊢
    rw [List.map_singleton, List.foldl_cons, List.foldl_nil, Tracked.step,
      recordLookup_new (hnew count (le_refl _))]
    refine ⟨?_, fun k hk => ?_⟩
    · dsimp only
      rw [hnext]
      omega
    · dsimp only
      rw [FiniteMap.get?_insert_ne _ (numberedPath_ne (by omega))]
      exact hnew k (by omega)

/-- The last number is given to two paths, and the first is still looked up. -/
theorem last_inode_reused :
    (∀ op ∈ flood u64Max, op.Named) ∧
      let s := (flood u64Max).foldl Tracked.step .new
      let s' := s.step (.lookup (numberedPath u64Max))
      (s.table.recordLookup (numberedPath u64Max)).2 = some (u64Max, u64Max) ∧
      (s'.table.recordLookup (numberedPath (u64Max + 1))).2 = some (u64Max, u64Max) ∧
      0 < s'.outstanding u64Max := by
  have hreused : ∀ count, u64Max ≤ count →
      let s := (flood count).foldl Tracked.step .new
      let s' := s.step (.lookup (numberedPath count))
      (s.table.recordLookup (numberedPath count)).2 = some (u64Max, u64Max) ∧
        (s'.table.recordLookup (numberedPath (count + 1))).2 = some (u64Max, u64Max) ∧
        0 < s'.outstanding u64Max := by
    intro count hcount
    obtain ⟨hnext, hnew⟩ := flood_spec count
    rw [Nat.min_eq_right (hcount.trans (Nat.le_add_right _ _))] at hnext
    generalize (flood count).foldl Tracked.step .new = s at hnext hnew ⊢
    dsimp only
    rw [recordLookup_new (hnew _ (le_refl _)), Tracked.step, recordLookup_new (hnew _ (le_refl _))]
    dsimp only
    have hother : (s.table.byPath.insert (numberedPath count) s.table.next).get?
        (numberedPath (count + 1)) = none := by
      rw [FiniteMap.get?_insert_ne _ (numberedPath_ne (by omega))]
      exact hnew _ (Nat.le_succ _)
    rw [recordLookup_new hother, hnext, Function.update_self]
    exact ⟨rfl, by rw [Nat.min_eq_right (Nat.le_succ _)], Nat.succ_pos _⟩
  refine ⟨fun op hop => ?_, hreused u64Max (le_refl _)⟩
  obtain ⟨k, -, rfl⟩ := List.mem_map.mp hop
  trivial

/-- A renamed file keeps its inode, and the one it replaced stays for its lookup. -/
def overwritten : List InodeOp :=
  [.lookup "a", .lookup "b", .rename "a" "b", .forget 2 1]

theorem inode_table_consistent_overwritten :
    (overwritten.foldl Tracked.step .new).table.byPath.get? "b" = some 2 ↔ ∃ entry,
      (overwritten.foldl Tracked.step .new).table.byInode.get? 2 = some entry ∧
        entry.linked = true ∧ entry.path = "b" :=
  (inode_table_consistent overwritten (by decide) (by decide)).1 "b" 2

example : (overwritten.foldl Tracked.step .new).table.byPath.get? "b" = some 2 ∧
    ((overwritten.foldl Tracked.step .new).table.byInode.get? 3).map InodeEntry.linked =
      some false := by decide +kernel

end TestVectors
end UnixVfs
