import Mathlib.Data.String.Basic
import Reframe.Lib.MarkerPaging
import Reframe.Lib.SortedMap
import Reframe.Vfs.ScratchIsolation
import Reframe.Workspace.TreeIndex

/-! Directory enumeration of the WinFsp runtime: the dot entries, which the root does not have, and
then the children by name, in as many pages as the caller's buffer makes of them. -/
namespace Workspace
open MarkerPaging

/-- A loop that a visitor stops by returning `false`; whether it came to the end. -/
def visitWhile {σ ε : Type*} (visitor : σ → ε → σ × Bool) : σ → List ε → σ × Bool
  | s, [] => (s, true)
  | s, e :: rest =>
    if (visitor s e).2 then visitWhile visitor (visitor s e).1 rest else ((visitor s e).1, false)

namespace ChildEntry

def isDirectory : ChildEntry → Bool
  | directory => true
  | file _ => false

end ChildEntry

namespace ResidentWorkspace

variable [Blake3] {σ : Type}

def entrySize (ws : ResidentWorkspace) : ChildEntry → ℕ
  | .directory => 0
  | .file id => (ws.state.heap id).len

/-- `visit_entries_after`: the children strictly after the marker, in the order of their names. -/
def visitEntriesAfter (ws : ResidentWorkspace) (directory : String) (marker : Option String)
    (visitor : σ → String × Bool × ℕ → σ × Bool) (s : σ) : σ × Bool :=
  match ws.state.children.get? directory with
  | none => (s, true)
  | some entries =>
    visitWhile (fun s entry => visitor s (entry.1, entry.2.isDirectory, ws.entrySize entry.2)) s
      (entries.inOrder.filter fun entry => afterMarker marker entry.1)

end ResidentWorkspace

namespace WinFsp

/-- What `info::file` is given. -/
structure FileInfo where
  path : String
  isDirectory : Bool
  size : ℕ
  deriving DecidableEq

namespace Runtime

variable [Blake3] {σ : Type}

/-- `lookup`, without the file it finds. -/
def lookupInfo (r : Runtime) (path : VfsPath) : Except Status (Bool × ℕ) :=
  if r.resident.isDirectory path then .ok (true, 0)
  else match r.resident.fileOf path with
    | some file => .ok (false, (r.resident.state.heap file).len)
    | none => .error .objectNameNotFound

def handleInfo (r : Runtime) (handle : Handle) : FileInfo where
  path := handle.path.text
  isDirectory := decide (handle.kind = .residentDirectory)
  size := match handle.kind with
    | .residentFile file => (r.resident.state.heap file).len
    | .residentDirectory => 0

/-- The dot entries that come after the marker. -/
def visitDots (r : Runtime) (handle : Handle) (marker : Option String)
    (visitor : σ → String × FileInfo → σ × Bool) (s : σ) : Except Status (σ × Bool) :=
  if handle.path = none then .ok (s, true)
  else
    let (s, more) :=
      if afterMarker marker "." then visitor s (".", r.handleInfo handle) else (s, true)
    if !more then .ok (s, false)
    else if afterMarker marker ".." then do
      let (isDirectory, size) ← r.lookupInfo handle.path.parent
      return visitor s ("..", ⟨handle.path.parent.text, isDirectory, size⟩)
    else .ok (s, true)

def childPath (path : VfsPath) (name : String) : String :=
  if path = none then name else path.text ++ "/" ++ name

/-- The visitor that `visit_entries_after` calls. -/
def visitChild (path : VfsPath) (visitor : σ → String × FileInfo → σ × Bool) (s : σ)
    (child : String × Bool × ℕ) : σ × Bool :=
  visitor s (child.1, ⟨childPath path child.1, child.2.1, child.2.2⟩)

def visitDirectoryEntries (r : Runtime) (handle : Handle) (marker : Option String)
    (visitor : σ → String × FileInfo → σ × Bool) (s : σ) : Except Status (σ × Bool) :=
  if handle.kind ≠ .residentDirectory then .error .notADirectory
  else do
    let (s, more) ← r.visitDots handle marker visitor s
    if !more then return (s, false)
    else if !handle.linked then return (s, true)
    else
      return r.resident.visitEntriesAfter handle.path.text marker (visitChild handle.path visitor) s

/-- A buffer with room for some entries. -/
def fill (capacity : ℕ) (page : List String) (entry : String × FileInfo) : List String × Bool :=
  if page.length = capacity then (page, false) else (page ++ [entry.1], true)

/-- One callback: the names in the buffer, and whether the enumeration came to the end. -/
def readPage (r : Runtime) (handle : Handle) (capacity : ℕ) (marker : Option String) :
    Except Status (List String × Bool) :=
  r.visitDirectoryEntries handle marker (fill capacity) []

/-- Callbacks one after another, each from the last name of the page before it. -/
def readDirectory (r : Runtime) (handle : Handle) : (capacity : ℕ → ℕ) → (count : ℕ) →
    (marker : Option String) → Except Status (List String × Bool)
  | _, 0, _ => .ok ([], false)
  | capacity, count + 1, marker => do
    let (page, complete) ← r.readPage handle (capacity 0) marker
    if complete then return (page, true)
    else
      let (more, ended) ←
        r.readDirectory handle (fun i => capacity (i + 1)) count (page.getLast?.or marker)
      return (page ++ more, ended)

/-- The dot entries, with what `lookup` finds for the parent. -/
def dotEntries (r : Runtime) (handle : Handle) (parent : Bool × ℕ) : List (String × FileInfo) :=
  if handle.path = none then []
  else [(".", r.handleInfo handle), ("..", ⟨handle.path.parent.text, parent.1, parent.2⟩)]

/-- The children of a directory that still has its path. -/
def childEntries (r : Runtime) (handle : Handle) : List (String × FileInfo) :=
  if handle.linked then
    match r.resident.state.children.get? handle.path.text with
    | some entries => entries.inOrder.map fun entry =>
      (entry.1, ⟨childPath handle.path entry.1, entry.2.isDirectory, r.resident.entrySize entry.2⟩)
    | none => []
  else []

def dotNames (handle : Handle) : List String := if handle.path = none then [] else [".", ".."]

def childNames (r : Runtime) (handle : Handle) : List String :=
  (r.childEntries handle).map Prod.fst

end Runtime
end WinFsp

section

variable {σ ε δ : Type*}

theorem ite_snd (s : σ × Bool) : (if s.2 then (s.1, true) else (s.1, false)) = s := by
  obtain ⟨s, more⟩ := s
  cases more <;> rfl

theorem visitWhile_append (visitor : σ → ε → σ × Bool) (first second : List ε) :
    ∀ s : σ, visitWhile visitor s (first ++ second) =
      if (visitWhile visitor s first).2 then
        visitWhile visitor (visitWhile visitor s first).1 second
      else ((visitWhile visitor s first).1, false) := by
  induction first with
  | nil =>
    intro s
    rfl
  | cons e rest ih =>
    intro s
    rw [List.cons_append, visitWhile, visitWhile]
    by_cases hmore : (visitor s e).2 = true
    · rw [if_pos hmore, if_pos hmore, ih]
    · rw [if_neg hmore, if_neg hmore, if_neg Bool.false_ne_true]

theorem visitWhile_map (visitor : σ → ε → σ × Bool) (entry : δ → ε) (entries : List δ) :
    ∀ s : σ, visitWhile visitor s (entries.map entry) =
      visitWhile (fun s e => visitor s (entry e)) s entries := by
  induction entries with
  | nil =>
    intro s
    rfl
  | cons e rest ih =>
    intro s
    rw [List.map_cons, visitWhile, visitWhile, ih]

end

namespace WinFsp.Runtime

variable [Blake3] {r : Runtime} {handle : Handle}

omit [Blake3] in
theorem visitWhile_fill (capacity : ℕ) (entries : List (String × FileInfo)) :
    ∀ page : List String, page.length ≤ capacity →
      visitWhile (fill capacity) page entries =
        if page.length + (entries.map Prod.fst).length ≤ capacity then
          (page ++ entries.map Prod.fst, true)
        else (page ++ (entries.map Prod.fst).take (capacity - page.length), false) := by
  induction entries with
  | nil =>
    intro page hpage
    simp [visitWhile, hpage]
  | cons entry rest ih =>
    intro page hpage
    rw [visitWhile]
    by_cases hfull : page.length = capacity
    · simp [fill, hfull]
    · have hfill : fill capacity page entry = (page ++ [entry.1], true) := by
        rw [fill, if_neg hfull]
      have hroom : (page ++ [entry.1]).length ≤ capacity := by
        rw [List.length_append, List.length_singleton]
        omega
      have hleft : capacity - page.length = capacity - (page ++ [entry.1]).length + 1 := by
        rw [List.length_append, List.length_singleton] at hroom ⊢
        omega
      rw [hfill, if_pos rfl, ih _ hroom, List.map_cons, hleft, List.take_succ_cons]
      simp only [List.length_append, List.length_cons, List.length_nil, List.append_assoc,
        List.cons_append, List.nil_append, Nat.add_assoc, Nat.add_comm 1, Nat.zero_add]

section

variable {σ : Type} (visitor : σ → String × FileInfo → σ × Bool)

theorem visitDots_eq {parent : Bool × ℕ}
    (hparent : handle.path = none ∨ r.lookupInfo handle.path.parent = .ok parent)
    (marker : Option String) (s : σ) :
    r.visitDots handle marker visitor s =
      .ok (visitWhile visitor s
        ((r.dotEntries handle parent).filter fun entry => afterMarker marker entry.1)) := by
  rw [visitDots, dotEntries]
  by_cases hroot : handle.path = none
  · simp only [if_pos hroot]
    rfl
  · have hlookup := hparent.resolve_left hroot
    simp only [if_neg hroot, hlookup]
    by_cases hdot : afterMarker marker "." = true
    · by_cases hdots : afterMarker marker ".." = true
      · cases hmore : (visitor s (".", r.handleInfo handle)).2 <;>
          simp [hdot, hdots, visitWhile, hmore, ite_snd, bind, Except.bind, pure, Except.pure]
      · cases hmore : (visitor s (".", r.handleInfo handle)).2 <;>
          simp [hdot, hdots, visitWhile, hmore]
    · by_cases hdots : afterMarker marker ".." = true
      · simp [hdot, hdots, visitWhile, ite_snd, bind, Except.bind, pure, Except.pure]
      · simp [hdot, hdots, visitWhile]

theorem visitEntriesAfter_eq (marker : Option String) (hlinked : handle.linked = true) (s : σ) :
    r.resident.visitEntriesAfter handle.path.text marker (visitChild handle.path visitor) s =
      visitWhile visitor s
        ((r.childEntries handle).filter fun entry => afterMarker marker entry.1) := by
  rw [ResidentWorkspace.visitEntriesAfter, childEntries, if_pos hlinked]
  cases r.resident.state.children.get? handle.path.text with
  | none => rfl
  | some entries =>
    dsimp only
    rw [List.filter_map, visitWhile_map]
    rfl

/-- The visitor sees the entries after the marker, in one order. -/
theorem visitDirectoryEntries_eq (hkind : handle.kind = .residentDirectory) {parent : Bool × ℕ}
    (hparent : handle.path = none ∨ r.lookupInfo handle.path.parent = .ok parent)
    (marker : Option String) (s : σ) :
    r.visitDirectoryEntries handle marker visitor s =
      .ok (visitWhile visitor s ((r.dotEntries handle parent ++ r.childEntries handle).filter
        fun entry => afterMarker marker entry.1)) := by
  rw [visitDirectoryEntries, if_neg (not_not.mpr hkind), visitDots_eq visitor hparent,
    List.filter_append, visitWhile_append]
  simp only [bind, Except.bind, pure, Except.pure]
  generalize visitWhile visitor s _ = dots
  obtain ⟨s', more⟩ := dots
  cases more with
  | false => rfl
  | true =>
    by_cases hlinked : handle.linked = true
    · simp [hlinked, visitEntriesAfter_eq visitor marker hlinked]
    · have hnone : r.childEntries handle = [] := by rw [childEntries, if_neg hlinked]
      simp [hlinked, hnone, visitWhile]

end

theorem map_dotEntries (r : Runtime) (handle : Handle) (parent : Bool × ℕ) :
    (r.dotEntries handle parent).map Prod.fst = dotNames handle := by
  rw [dotEntries, dotNames]
  split_ifs <;> rfl

/-- One callback puts the next names of the listing into the buffer. -/
theorem readPage_eq (hkind : handle.kind = .residentDirectory) {parent : Bool × ℕ}
    (hparent : handle.path = none ∨ r.lookupInfo handle.path.parent = .ok parent)
    (capacity : ℕ) (marker : Option String) :
    r.readPage handle capacity marker =
      .ok (if ((dotNames handle ++ r.childNames handle).filter (afterMarker marker)).length ≤ capacity
        then ((dotNames handle ++ r.childNames handle).filter (afterMarker marker), true)
        else (((dotNames handle ++ r.childNames handle).filter (afterMarker marker)).take capacity,
          false)) := by
  have hnames : ((r.dotEntries handle parent ++ r.childEntries handle).filter
      fun entry => afterMarker marker entry.1).map Prod.fst =
        (dotNames handle ++ r.childNames handle).filter (afterMarker marker) := by
    rw [← map_dotEntries r handle parent, childNames, ← List.map_append, List.filter_map]
    rfl
  rw [readPage, visitDirectoryEntries_eq _ hkind hparent, visitWhile_fill _ _ _ (Nat.zero_le _),
    hnames, List.length_nil, Nat.zero_add, Nat.sub_zero, List.nil_append, List.nil_append]

/-- The callbacks read the pages of the listing. -/
theorem readDirectory_eq (hkind : handle.kind = .residentDirectory) (parent : Bool × ℕ)
    (hparent : handle.path = none ∨ r.lookupInfo handle.path.parent = .ok parent) (count : ℕ) :
    ∀ (capacity : ℕ → ℕ) (marker : Option String),
      r.readDirectory handle capacity count marker =
        .ok (pages (dotNames handle ++ r.childNames handle) capacity count marker) := by
  induction count with
  | zero =>
    intro capacity marker
    rfl
  | succ count ih =>
    intro capacity marker
    rw [readDirectory, readPage_eq hkind hparent, pages]
    dsimp only [bind, Except.bind]
    by_cases hlength : ((dotNames handle ++ r.childNames handle).filter
        (afterMarker marker)).length ≤ capacity 0
    · rw [if_pos hlength, if_pos hlength]
      rfl
    · rw [if_neg hlength, if_neg hlength]
      simp only [Bool.false_eq_true, if_false, ih]
      rfl

/-- Without a parent to look up, no page is read. -/
theorem readDirectory_error (hkind : handle.kind = .residentDirectory) {status : Status}
    (hpath : handle.path ≠ none) (hparent : r.lookupInfo handle.path.parent = .error status)
    {capacity : ℕ → ℕ} (hpos : 0 < capacity 0) (count : ℕ) :
    r.readDirectory handle capacity (count + 1) none = .error status := by
  have hdot : fill (capacity 0) [] (".", r.handleInfo handle) = (["."], true) := by
    rw [fill, if_neg (by simpa using hpos.ne)]
    rfl
  have hdots : r.visitDots handle none (fill (capacity 0)) [] = .error status := by
    rw [visitDots, if_neg hpath]
    simp [afterMarker, hdot, hparent, bind, Except.bind]
  rw [readDirectory, readPage, visitDirectoryEntries, if_neg (not_not.mpr hkind), hdots]
  rfl

/-- A page may end where what was listed sorts before what is not: after a dot entry, when every
child does. -/
def EndsInOrder (children : List String) : (offset : ℕ) → Prop
  | 0 => True
  | 1 => ∀ name ∈ children, "." < name
  | 2 => ∀ name ∈ children, ".." < name
  | n + 3 => ∀ name ∈ children[n]?, ".." < name

theorem childNames_sorted (r : Runtime) (handle : Handle) :
    (r.childNames handle).Pairwise (· < ·) := by
  rw [childNames, childEntries]
  by_cases hlinked : handle.linked = true
  · rw [if_pos hlinked]
    cases r.resident.state.children.get? handle.path.text with
    | none => exact List.Pairwise.nil
    | some entries =>
      dsimp only
      rw [List.map_map]
      exact FiniteMap.inOrder_sorted entries
  · rw [if_neg hlinked]
    exact List.Pairwise.nil

omit [Blake3] in
theorem dotNames_eq {handle : Handle} (h : handle.path ≠ none) : dotNames handle = [".", ".."] :=
  if_neg h

omit [Blake3] in
theorem dots_sorted : [".", ".."].Pairwise (· < ·) := by decide

omit [Blake3] in
theorem splits_iff_endsInOrder {children : List String} (hsorted : children.Pairwise (· < ·))
    (hcomponents : ∀ name ∈ children, isComponent name = true) {offset : ℕ}
    (hoffset : offset < 2 + children.length) :
    Splits ([".", ".."] ++ children) offset ↔ EndsInOrder children offset := by
  match offset with
  | 0 => exact iff_of_true (splits_zero _) trivial
  | 1 => exact splits_lead_iff dots_sorted rfl (by decide)
  | 2 => exact splits_lead_iff dots_sorted rfl (by decide)
  | n + 3 =>
    have hn : n < children.length := by omega
    have hne : ".." ≠ children[n] := by
      intro h
      have hcomponent := hcomponents _ (List.getElem_mem hn)
      rw [← h] at hcomponent
      cases hcomponent
    have hlength : n + 3 = [".", ".."].length + (n + 1) := by
      rw [List.length_cons, List.length_singleton]
      omega
    rw [EndsInOrder, hlength, splits_rest_iff hsorted hn, List.getElem?_eq_getElem hn]
    constructor
    · rintro h _ ⟨⟩
      exact lt_of_le_of_ne (h ".." (by decide)) hne
    · intro h x hx
      have hx' : x ≤ ".." := (splits_of_sorted dots_sorted 2 ".." rfl).1 x hx
      exact hx'.trans (h _ rfl).le

/-- The names of an index that agrees with the tree are components of its paths. -/
theorem isComponent_childNames (hindexed : r.resident.state.Indexed) :
    ∀ name ∈ r.childNames handle, isComponent name = true := by
  intro name hname
  rw [childNames, childEntries] at hname
  split_ifs at hname
  · cases hget : r.resident.state.children.get? handle.path.text with
    | none =>
      rw [hget] at hname
      cases hname
    | some entries =>
      rw [hget] at hname
      dsimp only at hname
      rw [List.map_map] at hname
      obtain ⟨⟨name, entry⟩, hentry, rfl⟩ := List.mem_map.mp hname
      have hlook : ChildIndex.look r.resident.state.children handle.path.text name = some entry := by
        rw [ChildIndex.look, hget]
        exact FiniteMap.mem_inOrder.mp hentry
      obtain ⟨p, hp⟩ := hindexed.lists.named _ name (by rw [hlook]; rfl)
      have hlast : (p.parts.getLast p.nonempty).1 = name := congrArg Prod.snd hp
      exact hlast ▸ (p.parts.getLast p.nonempty).2
  · cases hname

theorem names_nodup (hcomponents : ∀ name ∈ r.childNames handle, isComponent name = true) :
    (dotNames handle ++ r.childNames handle).Nodup := by
  have hchildren := (childNames_sorted r handle).imp ne_of_lt
  rw [dotNames]
  split_ifs with hroot
  · exact hchildren
  · refine List.nodup_append.mpr ⟨by decide, hchildren, ?_⟩
    rintro name hdot _ hname rfl
    have hcomponent := hcomponents _ hname
    rcases List.mem_cons.mp hdot with rfl | hdot
    · cases hcomponent
    · rw [List.mem_singleton.mp hdot] at hcomponent
      cases hcomponent

/-- The pages hold these names, each once, and come to an end. -/
def ListsOnce (r : Runtime) (handle : Handle) (capacity : ℕ → ℕ) (names : List String) : Prop :=
  ∃ count read, r.readDirectory handle capacity count none = .ok (read, true) ∧ read.Perm names

/-- The pages of a directory hold the dot entries, which the root does not have, and every child
once, and come to an end, exactly when there is a parent to list and each page ends where what was
listed sorts before what was not. -/
theorem listing_complete_iff (hkind : handle.kind = .residentDirectory)
    (hcomponents : ∀ name ∈ r.childNames handle, isComponent name = true) {capacity : ℕ → ℕ}
    (hpos : ∀ i, 0 < capacity i) :
    r.ListsOnce handle capacity (dotNames handle ++ r.childNames handle) ↔
    handle.path = none ∨ ((r.lookupInfo handle.path.parent).isOk = true ∧
      ∀ i, boundary capacity i < 2 + (r.childNames handle).length →
        EndsInOrder (r.childNames handle) (boundary capacity i)) := by
  have hpages := pages_perm_iff (names_nodup hcomponents) hpos
  by_cases hroot : handle.path = none
  · refine iff_of_true ?_ (.inl hroot)
    unfold ListsOnce
    simp only [readDirectory_eq hkind (true, 0) (.inl hroot), Except.ok.injEq]
    refine hpages.mpr fun i _ => splits_of_sorted ?_ _
    rw [dotNames, if_pos hroot, List.nil_append]
    exact childNames_sorted r handle
  · rw [or_iff_right hroot]
    unfold ListsOnce
    cases hparent : r.lookupInfo handle.path.parent with
    | error status =>
      refine iff_of_false ?_ (fun h => Bool.false_ne_true h.1)
      rintro ⟨count, read, hread, -⟩
      cases count with
      | zero => cases hread
      | succ count =>
        rw [readDirectory_error hkind hroot hparent (hpos 0)] at hread
        cases hread
    | ok parent =>
      simp only [readDirectory_eq hkind _ (.inr hparent), Except.ok.injEq]
      have hlength : (dotNames handle ++ r.childNames handle).length =
          2 + (r.childNames handle).length := by
        rw [dotNames_eq hroot, List.length_append]
        rfl
      have hends : ∀ i, boundary capacity i < 2 + (r.childNames handle).length →
          (Splits (dotNames handle ++ r.childNames handle) (boundary capacity i) ↔
            EndsInOrder (r.childNames handle) (boundary capacity i)) := by
        intro i hi
        rw [dotNames_eq hroot]
        exact splits_iff_endsInOrder (childNames_sorted r handle) hcomponents hi
      rw [hpages, hlength]
      constructor
      · intro h
        exact ⟨rfl, fun i hi => (hends i hi).mp (h i hi)⟩
      · rintro ⟨-, h⟩ i hi
        exact (hends i hi).mpr (h i hi)

end WinFsp.Runtime

namespace TestVectors
open WinFsp

theorem isComponent_a : isComponent "a" = true := by decide

def bangInA : NormalizedPath := ⟨[⟨"a", isComponent_a⟩, ⟨"!b", by decide⟩], List.cons_ne_nil _ _⟩

/-- A directory with one child, and handles on both in the order they were created. -/
def withChild (child : NormalizedPath) : Runtime :=
  [Op.create (some directoryA) true, .create (some child) false].foldl Runtime.step
    ⟨⟨emptyState ∅ ∅, fun _ => false, 0, 0⟩, []⟩

def onDirectoryA : Handle := ⟨some directoryA, .residentDirectory, true⟩
def onRoot : Handle := ⟨none, .residentDirectory, true⟩

/-- After `..` no name is listed that sorts before it; and the root has no dot entries. -/
theorem listing_incomplete :
    (withChild fileInA).handles.head? = some onDirectoryA ∧
    (∀ capacity, ¬(withChild fileInA).ListsOnce onRoot capacity
      ([".", ".."] ++ (withChild fileInA).childNames onRoot)) ∧
    (withChild bangInA).handles.head? = some onDirectoryA ∧
    ¬(withChild bangInA).ListsOnce onDirectoryA (fun _ => 2)
      ([".", ".."] ++ (withChild bangInA).childNames onDirectoryA) := by
  refine ⟨by decide +kernel, ?_, by decide +kernel, ?_⟩
  · rintro capacity ⟨count, read, hread, hperm⟩
    rw [Runtime.readDirectory_eq rfl (true, 0) (.inl rfl), Except.ok.injEq] at hread
    have hdot : "." ∈ read := hperm.mem_iff.mpr List.mem_cons_self
    have hmem := mem_of_mem_pages count (show "." ∈ (pages _ capacity count none).1 by rwa [hread])
    have hnames : Runtime.dotNames onRoot ++ (withChild fileInA).childNames onRoot = ["a"] := by
      decide +kernel
    rw [hnames] at hmem
    exact absurd hmem (by decide)
  · rintro ⟨count, read, hread, hperm⟩
    have hparent : (withChild bangInA).lookupInfo onDirectoryA.path.parent = .ok (true, 0) := by
      decide +kernel
    have hnames : (withChild bangInA).childNames onDirectoryA = ["!b"] := by decide +kernel
    rw [Runtime.readDirectory_eq rfl _ (.inr hparent), Except.ok.injEq, hnames] at hread
    rw [hnames] at hperm
    have hsplits := (pages_perm_iff (by decide) fun _ => two_pos).mp ⟨count, read, hread, hperm⟩ 1
      (by decide)
    have hlt := (splits_lead_iff Runtime.dots_sorted rfl (by decide)).mp hsplits "!b"
      List.mem_cons_self
    exact absurd hlt (by decide)

/-- The child `x` sorts after the dot entries, also when each page holds one name. -/
theorem listing_complete_iff_one :
    (withChild fileInA).ListsOnce onDirectoryA (fun _ => 1) [".", "..", "x"] := by
  have hnames : (withChild fileInA).childNames onDirectoryA = ["x"] := by decide +kernel
  have hlists : (withChild fileInA).ListsOnce onDirectoryA (fun _ => 1)
      ([".", ".."] ++ (withChild fileInA).childNames onDirectoryA) :=
    (Runtime.listing_complete_iff rfl (by decide +kernel) fun _ => one_pos).mpr
      (.inr ⟨by decide +kernel, fun i hi => ?_⟩)
  · rwa [hnames] at hlists
  · have hboundary : ∀ i, boundary (fun _ => 1) i = i := by
      intro i
      induction i with
      | zero => rfl
      | succ i ih => rw [boundary, ih, Nat.add_comm]
    rw [hnames] at hi ⊢
    rw [hboundary] at hi ⊢
    simp only [List.length_singleton] at hi
    interval_cases i
    · trivial
    · intro name hname
      rw [List.mem_singleton.mp hname]
      decide
    · intro name hname
      rw [List.mem_singleton.mp hname]
      decide

end TestVectors
end Workspace
