import Reframe.Vfs.OpenFiles

/-! What the calls of the open-file table keep: its states follow the places of the inodes, and a call
that fails leaves them as they were. -/
namespace UnixVfs
open InverseIndex (Move Indexes)

namespace OpenFileTable

variable {t : OpenFileTable} {places : ℕ → Option String}

/-- Where the file of an inode is linked. -/
def place (t : OpenFileTable) (inode : ℕ) : Option String :=
  (t.residentFiles.get? inode).bind fun file => (t.states file).linkedPath

/-- Every file has one state, which is linked where the inode is, and the index finds it there. -/
structure Tracks (t : OpenFileTable) (places : ℕ → Option String) : Prop where
  once : ∀ i j file, t.residentFiles.get? i = some file → t.residentFiles.get? j = some file → i = j
  fresh : ∀ i file, t.residentFiles.get? i = some file → file < t.nextState
  indexed : Indexes t.residentPaths t.place
  synced : ∀ i file, t.residentFiles.get? i = some file →
    (t.states file).linkedPath = places i
  handles : ∀ handle entry file, t.handles.get? handle = some entry →
    entry.backend = .resident file → t.residentFiles.get? entry.inode = some file
  taken : ∀ request entry file, t.taken.get? request = some entry →
    entry.backend = .resident file → t.residentFiles.get? entry.inode = some file
  next : 0 < t.next ∧ t.next < 2 ^ 64

theorem place_of_get {inode : ℕ} {file : StateId} (h : t.residentFiles.get? inode = some file) :
    t.place inode = (t.states file).linkedPath := by
  rw [place, h]
  rfl

theorem place_eq_some {inode : ℕ} {path : String} : t.place inode = some path ↔
    ∃ file, t.residentFiles.get? inode = some file ∧ t.states file = .linked path := by
  rw [place, Option.bind_eq_some_iff]
  refine exists_congr fun file => and_congr_right fun _ => ?_
  cases t.states file with
  | linked other => exact ⟨fun h => congrArg _ (Option.some.inj h), fun h => by cases h; rfl⟩
  | detached bytes => exact ⟨fun h => (by cases h), fun h => (by cases h)⟩

theorem linkedPath_eq_some {location : ResidentLocation} {path : String} :
    location.linkedPath = some path ↔ location = .linked path := by
  cases location with
  | linked other => exact ⟨fun h => congrArg _ (Option.some.inj h), fun h => by cases h; rfl⟩
  | detached bytes => exact ⟨fun h => (by cases h), fun h => (by cases h)⟩

theorem Tracks.place_eq (h : t.Tracks places) {inode : ℕ} {path : String}
    (hplace : t.place inode = some path) : places inode = some path := by
  obtain ⟨file, hfile, hstate⟩ := place_eq_some.mp hplace
  rw [← h.synced inode file hfile, hstate]
  rfl

/-- Only the inodes in the table matter. -/
theorem Tracks.congr (h : t.Tracks places) {places' : ℕ → Option String}
    (hsame : ∀ i, (t.residentFiles.get? i).isSome → places' i = places i) : t.Tracks places' := by
  refine { h with synced := fun i file hfile => (h.synced i file hfile).trans ?_ }
  exact (hsame i (by rw [hfile]; rfl)).symm

theorem new_tracks (places : ℕ → Option String) : new.Tracks places :=
  ⟨fun _ _ _ h => (by cases h), fun _ _ h => (by cases h),
    fun _ _ => ⟨fun h => (by cases h), fun h => (by cases h)⟩, fun _ _ h => (by cases h),
    fun _ _ _ h => (by cases h), fun _ _ _ h => (by cases h), by decide⟩

/-! The removal of what is closed. -/

theorem held_of_handle {handle : ℕ} {entry : OpenHandle} {file : StateId}
    (h : t.handles.get? handle = some entry) (hfile : entry.backend = .resident file) :
    t.held file = true :=
  Bool.or_eq_true_iff.mpr (.inl (List.any_eq_true.mpr
    ⟨_, FiniteMap.mem_toList.mpr h, decide_eq_true hfile⟩))

theorem held_of_taken {request : ℕ} {entry : OpenHandle} {file : StateId}
    (h : t.taken.get? request = some entry) (hfile : entry.backend = .resident file) :
    t.held file = true :=
  Bool.or_eq_true_iff.mpr (.inr (List.any_eq_true.mpr
    ⟨_, FiniteMap.mem_toList.mpr h, decide_eq_true hfile⟩))

theorem isClosed_of_held {inode : ℕ} {file : StateId} (h : t.residentFiles.get? inode = some file)
    (hheld : t.held file = true) : t.isClosed inode = false := by
  rw [isClosed, h, Option.any_some, hheld]
  rfl

theorem get?_removeClosed (t : OpenFileTable) (inode : ℕ) :
    t.removeClosedResidentFiles.residentFiles.get? inode =
      if t.isClosed inode then none else t.residentFiles.get? inode := by
  rw [removeClosedResidentFiles, FiniteMap.get?_retain]
  cases t.residentFiles.get? inode with
  | none => rw [ite_self]; rfl
  | some file =>
    cases t.isClosed inode with
    | true => rw [Option.filter_some]; rfl
    | false => rw [Option.filter_some]; rfl

theorem removeClosed_get {inode : ℕ} {file : StateId}
    (h : t.removeClosedResidentFiles.residentFiles.get? inode = some file) :
    t.residentFiles.get? inode = some file := by
  rw [get?_removeClosed] at h
  split_ifs at h
  exact h

theorem Tracks.removeClosed (h : t.Tracks places) : t.removeClosedResidentFiles.Tracks places := by
  have hplace : ∀ i, t.removeClosedResidentFiles.place i =
      if t.isClosed i then none else t.place i := by
    intro i
    rw [place, get?_removeClosed]
    split_ifs <;> rfl
  refine ⟨fun i j file hi hj => h.once i j file (removeClosed_get hi) (removeClosed_get hj),
    fun i file hi => h.fresh i file (removeClosed_get hi), fun path i => ?_,
    fun i file hi => h.synced i file (removeClosed_get hi), fun handle entry file hentry hfile => ?_,
    fun request entry file hentry hfile => ?_, h.next⟩
  · rw [hplace, removeClosedResidentFiles, FiniteMap.get?_retain, Option.filter_eq_some_iff,
      h.indexed path i]
    cases t.isClosed i with
    | true => exact ⟨fun hand => (by cases hand.2), fun hno => (by cases hno)⟩
    | false => exact ⟨fun hand => hand.1, fun hplaced => ⟨hplaced, rfl⟩⟩
  · have hget := h.handles handle entry file hentry hfile
    rw [get?_removeClosed, isClosed_of_held hget (held_of_handle hentry hfile)]
    exact hget
  · have hget := h.taken request entry file hentry hfile
    rw [get?_removeClosed, isClosed_of_held hget (held_of_taken hentry hfile)]
    exact hget

/-! New handles. -/

theorem following_pos (number : ℕ) : 0 < following number ∧ following number < 2 ^ 64 := by
  unfold following
  have := Nat.mod_lt (number + 1) (Nat.two_pow_pos 64)
  omega

/-- The numbers that the loop tries, from the first on. -/
def candidate (first : ℕ) (round : ℕ) : ℕ := (first - 1 + round) % (2 ^ 64 - 1) + 1

theorem candidate_zero {first : ℕ} (h : 0 < first ∧ first < 2 ^ 64) : candidate first 0 = first := by
  unfold candidate
  have : first - 1 < 2 ^ 64 - 1 := by omega
  have hmod : (first - 1 + 0) % (2 ^ 64 - 1) = first - 1 := Nat.mod_eq_of_lt this
  omega

theorem candidate_following {first : ℕ} (h : 0 < first ∧ first < 2 ^ 64) (round : ℕ) :
    candidate (following first) round = candidate first (round + 1) := by
  unfold candidate following
  by_cases hlast : first + 1 = 2 ^ 64
  · have hmod : max ((first + 1) % 2 ^ 64) 1 - 1 = 0 := by rw [hlast, Nat.mod_self]; rfl
    have hfirst : first - 1 + (round + 1) = round + (2 ^ 64 - 1) := by omega
    rw [hmod, hfirst, Nat.zero_add, Nat.add_mod_right]
  · have hmod : (first + 1) % 2 ^ 64 = first + 1 := Nat.mod_eq_of_lt (by omega)
    have hmax : max (first + 1) 1 - 1 + round = first - 1 + (round + 1) := by omega
    rw [hmod, hmax]

theorem candidate_injective (first : ℕ) {i j : ℕ} (hi : i < 2 ^ 64 - 1) (hj : j < 2 ^ 64 - 1)
    (h : candidate first i = candidate first j) : i = j := by
  have hmod : (first - 1 + i) ≡ (first - 1 + j) [MOD 2 ^ 64 - 1] := Nat.succ.inj h
  have hij := Nat.ModEq.add_left_cancel' (first - 1) hmod
  rwa [Nat.ModEq, Nat.mod_eq_of_lt hi, Nat.mod_eq_of_lt hj] at hij

theorem vacant_spec (handles : FiniteMap ℕ OpenHandle) (rounds : ℕ) : ∀ {first : ℕ},
    0 < first ∧ first < 2 ^ 64 →
    (0 < (vacant handles rounds first).2 ∧ (vacant handles rounds first).2 < 2 ^ 64) ∧
      (handles.get? (vacant handles rounds first).1 = none ∨
        ∀ round < rounds, (handles.get? (candidate first round)).isSome) := by
  induction rounds with
  | zero =>
    intro first hfirst
    exact ⟨following_pos first, .inr fun _ hround => absurd hround (Nat.not_lt_zero _)⟩
  | succ rounds ih =>
    intro first hfirst
    rw [vacant]
    split_ifs with hused
    · obtain ⟨hnext, hvacant⟩ := ih (following_pos first)
      refine ⟨hnext, hvacant.imp_right fun hall round hround => ?_⟩
      cases round with
      | zero => rwa [candidate_zero hfirst]
      | succ round =>
        rw [← candidate_following hfirst]
        exact hall round (Nat.lt_of_succ_lt_succ hround)
    · refine ⟨following_pos first, .inl ?_⟩
      rwa [Bool.not_eq_true, FiniteMap.contains_eq_false] at hused

/-- A number that is not in use is found among the first ones. -/
theorem vacant_get {handles : FiniteMap ℕ OpenHandle} {first : ℕ} (hfirst : 0 < first ∧ first < 2 ^ 64)
    (hroom : handles.size + 1 < 2 ^ 64) :
    handles.get? (vacant handles (handles.size + 1) first).1 = none := by
  refine (vacant_spec handles (handles.size + 1) hfirst).2.resolve_right fun hall => ?_
  have hsubset : (Finset.range (handles.size + 1)).image (candidate first) ⊆ handles.keys := by
    intro number hnumber
    obtain ⟨round, hround, rfl⟩ := Finset.mem_image.mp hnumber
    exact FiniteMap.mem_keys.mpr (hall round (Finset.mem_range.mp hround))
  have hcard := Finset.card_le_card hsubset
  rw [Finset.card_image_of_injOn, Finset.card_range, FiniteMap.card_keys] at hcard
  · omega
  · intro i hi j hj heq
    have hi := Finset.mem_range.mp (Finset.mem_coe.mp hi)
    have hj := Finset.mem_range.mp (Finset.mem_coe.mp hj)
    exact candidate_injective first (by omega) (by omega) heq

/-- Numbers of handles are given out once at a time. -/
theorem insert_spec (t : OpenFileTable) (hnext : 0 < t.next ∧ t.next < 2 ^ 64)
    (hroom : t.handles.size + 1 < 2 ^ 64) (entry : OpenHandle) :
    ∃ next, (0 < next ∧ next < 2 ^ 64) ∧ t.handles.get? (t.insert entry).2 = none ∧
      (t.insert entry).1 =
        { t with next, handles := t.handles.insert (t.insert entry).2 entry } :=
  ⟨_, (vacant_spec t.handles (t.handles.size + 1) hnext).1, vacant_get hnext hroom, rfl⟩

theorem card_insert (t : OpenFileTable) (entry : OpenHandle) :
    (t.insert entry).1.handles.keys.card ≤ t.handles.keys.card + 1 := by
  have hhandles : (t.insert entry).1.handles = t.handles.insert (t.insert entry).2 entry := rfl
  rw [hhandles, FiniteMap.keys_insert]
  exact Finset.card_insert_le _ _

theorem Tracks.insert (h : t.Tracks places) (hroom : t.handles.size + 1 < 2 ^ 64)
    {entry : OpenHandle}
    (hentry : ∀ file, entry.backend = .resident file →
      t.residentFiles.get? entry.inode = some file) :
    (t.insert entry).1.Tracks places := by
  obtain ⟨next, hnext, -, heq⟩ := t.insert_spec h.next hroom entry
  rw [heq]
  refine { h with
    handles := fun handle other file hother hfile => ?_
    next := hnext
    indexed := h.indexed }
  dsimp only at hother
  rw [FiniteMap.get?_insert] at hother
  split_ifs at hother
  · cases hother
    exact hentry file hfile
  · exact h.handles handle other file hother hfile

/-- The file that `open_resident` gives a handle on, with the table that has it. -/
def withFile (t : OpenFileTable) (inode : ℕ) (path : String) : OpenFileTable × StateId :=
  match t.residentFiles.get? inode with
  | some file => ({ t with residentPaths := t.residentPaths.insert path inode }, file)
  | none =>
    ({ t with
        states := Function.update t.states t.nextState (.linked path)
        nextState := t.nextState + 1
        residentFiles := t.residentFiles.insert inode t.nextState
        residentPaths := t.residentPaths.insert path inode }, t.nextState)

theorem Tracks.withFile (h : t.Tracks places)
    (hinj : ∀ i j path, places i = some path → places j = some path → i = j) {inode : ℕ}
    {path : String} (hplace : places inode = some path) :
    (t.withFile inode path).1.Tracks places ∧
      (t.withFile inode path).1.residentFiles.get? inode = some (t.withFile inode path).2 ∧
      (t.withFile inode path).1.states (t.withFile inode path).2 = .linked path := by
  rw [OpenFileTable.withFile]
  cases hfile : t.residentFiles.get? inode with
  | some file =>
    have hstate : t.states file = .linked path :=
      linkedPath_eq_some.mp ((h.synced inode file hfile).trans hplace)
    have hindex := (h.indexed path inode).mpr (place_eq_some.mpr ⟨file, hfile, hstate⟩)
    refine ⟨{ h with indexed := fun other i => ?_ }, hfile, hstate⟩
    change (t.residentPaths.insert path inode).get? other = some i ↔ t.place i = some other
    rw [FiniteMap.get?_insert, ← h.indexed other i]
    split_ifs with hsame
    · rw [hsame, hindex]
    · rfl
  | none =>
    have hold : ∀ {i file}, t.residentFiles.get? i = some file → i ≠ inode ∧ file ≠ t.nextState := by
      intro i file hi
      exact ⟨fun heq => (by rw [heq, hfile] at hi; cases hi), (h.fresh i file hi).ne⟩
    have hplace' : ∀ i, OpenFileTable.place { t with
        states := Function.update t.states t.nextState (.linked path)
        nextState := t.nextState + 1
        residentFiles := t.residentFiles.insert inode t.nextState
        residentPaths := t.residentPaths.insert path inode } i =
          Function.update t.place inode (some path) i := by
      intro i
      rw [place, FiniteMap.get?_insert]
      by_cases hi : i = inode
      · rw [if_pos hi, hi, Function.update_self, Option.bind_some]
        exact congrArg _ (Function.update_self _ _ _)
      · rw [if_neg hi, Function.update_of_ne hi, place]
        cases hget : t.residentFiles.get? i with
        | none => rfl
        | some file =>
          rw [Option.bind_some, Option.bind_some]
          exact congrArg _ (Function.update_of_ne (hold hget).2 _ _)
    have hfree : ∀ j, t.place j ≠ some path := by
      intro j hj
      have hsame := hinj j inode path (h.place_eq hj) hplace
      rw [hsame, place, hfile] at hj
      cases hj
    have hnone : t.place inode = none := by rw [place, hfile]; rfl
    refine ⟨⟨fun i j file hi hj => ?_, fun i file hi => ?_,
      (h.indexed.insert hnone hfree).congr hplace', fun i file hi => ?_,
      fun handle entry other hentry hother => ?_, fun request entry other hentry hother => ?_,
      h.next⟩, ?_, ?_⟩
    · dsimp only at hi hj
      rw [FiniteMap.get?_insert] at hi hj
      split_ifs at hi hj with hi' hj' hj'
      · rw [hi', hj']
      · cases hi
        exact absurd rfl (hold hj).2
      · cases hj
        exact absurd rfl (hold hi).2
      · exact h.once i j file hi hj
    · dsimp only at hi ⊢
      rw [FiniteMap.get?_insert] at hi
      split_ifs at hi with hi'
      · cases hi
        exact Nat.lt_succ_self _
      · exact (h.fresh i file hi).trans (Nat.lt_succ_self _)
    · dsimp only at hi ⊢
      rw [FiniteMap.get?_insert] at hi
      split_ifs at hi with hi'
      · cases hi
        rw [Function.update_self, hi', hplace]
        rfl
      · rw [Function.update_of_ne (hold hi).2]
        exact h.synced i file hi
    · have hget := h.handles handle entry other hentry hother
      exact (FiniteMap.get?_insert_ne _ (hold hget).1 _).trans hget
    · have hget := h.taken request entry other hentry hother
      exact (FiniteMap.get?_insert_ne _ (hold hget).1 _).trans hget
    · exact FiniteMap.get?_insert_self _ _ _
    · exact Function.update_self _ _ _

/-- A known inode opens at its place. -/
theorem openResident_eq (h : t.Tracks places) {inode : ℕ} {path : String}
    (hplace : places inode = some path) (flags : OpenFlags) :
    t.openResident inode path flags =
      (((t.removeClosedResidentFiles.withFile inode path).1.insert ⟨inode, .fromFlags flags,
          .resident (t.removeClosedResidentFiles.withFile inode path).2⟩).1,
        .ok ((t.removeClosedResidentFiles.withFile inode path).1.insert ⟨inode, .fromFlags flags,
          .resident (t.removeClosedResidentFiles.withFile inode path).2⟩).2) := by
  rw [openResident, OpenFileTable.withFile]
  dsimp only
  cases hfile : t.removeClosedResidentFiles.residentFiles.get? inode with
  | none => rfl
  | some file =>
    have hstate := (h.removeClosed.synced inode file hfile).trans hplace
    dsimp only
    rw [if_neg fun hne => hne hstate]

theorem Tracks.release (h : t.Tracks places) (handle : ℕ) :
    ({ t with handles := t.handles.erase handle } : OpenFileTable).removeClosedResidentFiles.Tracks
      places := by
  have herased : ({ t with handles := t.handles.erase handle } : OpenFileTable).Tracks places :=
    { h with
      handles := fun other entry file hentry hfile =>
        h.handles other entry file (FiniteMap.get?_erase_some hentry).2 hfile
      indexed := h.indexed }
  exact herased.removeClosed

/-! Unlinking and renaming. -/

theorem isInSubtree_eq {root : String} (hroot : root ≠ "") (path : String) :
    isInSubtree root path = sameOrDescendant path root := by
  rw [← InodeTable.isRemoved_eq, isInSubtree, InodeTable.isRemoved, if_neg hroot,
    Bool.beq_eq_decide_eq]

/-- The files of the subtrees are the linked ones with a path there. -/
theorem Tracks.mem_filesInSubtrees (h : t.Tracks places) {roots : List String} {i : ℕ}
    {file : StateId} : (i, file) ∈ t.residentFilesInSubtrees roots ↔
      t.residentFiles.get? i = some file ∧
        ∃ path, t.states file = .linked path ∧ roots.any (isInSubtree · path) = true := by
  rw [residentFilesInSubtrees]
  simp only [List.mem_filterMap, SortedSet.mem_toSorted, List.mem_toFinset, List.mem_map,
    List.mem_filter, Option.map_eq_some_iff, Prod.mk.injEq]
  constructor
  · rintro ⟨i', ⟨⟨path, i'⟩, ⟨hmem, hroots⟩, rfl⟩, file', hfile, rfl, rfl⟩
    obtain ⟨file'', hfile', hstate⟩ :=
      place_eq_some.mp ((h.indexed path i').mp (FiniteMap.mem_toList.mp hmem))
    cases hfile.symm.trans hfile'
    exact ⟨hfile, path, hstate, hroots⟩
  · rintro ⟨hfile, path, hstate, hroots⟩
    have hindex := (h.indexed path i).mpr (place_eq_some.mpr ⟨file, hfile, hstate⟩)
    exact ⟨i, ⟨(path, i), ⟨FiniteMap.mem_toList.mpr hindex, hroots⟩, rfl⟩, file, hfile, rfl, rfl⟩

theorem inodes_filesInSubtrees (t : OpenFileTable) (roots : List String) :
    (t.residentFilesInSubtrees roots).Pairwise fun a b => a.1 ≠ b.1 := by
  rw [residentFilesInSubtrees, List.pairwise_filterMap]
  refine (SortedSet.toSorted_sorted _).imp fun hlt a ha b hb => ?_
  obtain ⟨_, -, rfl⟩ := Option.map_eq_some_iff.mp ha
  obtain ⟨_, -, rfl⟩ := Option.map_eq_some_iff.mp hb
  exact hlt.ne

theorem Tracks.nodup_filesInSubtrees (h : t.Tracks places) (roots : List String) :
    ((t.residentFilesInSubtrees roots).map Prod.snd).Nodup := by
  refine List.pairwise_map.mpr
    ((t.inodes_filesInSubtrees roots).imp_of_mem fun {a b} ha hb hne heq => hne ?_)
  have hb' := (h.mem_filesInSubtrees.mp hb).1
  rw [← heq] at hb'
  exact h.once a.1 b.1 a.2 (h.mem_filesInSubtrees.mp ha).1 hb'

theorem forall₂_of_mapM {α β ε : Type} {f : α → Except ε β} (xs : List α) : ∀ {ys : List β},
    xs.mapM f = .ok ys → List.Forall₂ (fun x y => f x = .ok y) xs ys := by
  induction xs with
  | nil =>
    intro ys h
    cases h
    exact .nil
  | cons x xs ih =>
    intro ys h
    rw [List.mapM_cons] at h
    obtain ⟨y, hy, h⟩ := Run.bind_ok.mp h
    obtain ⟨ys', hys, h⟩ := Run.bind_ok.mp h
    cases h
    exact .cons hy (ih hys)

/-- What the snapshots of a table are: the linked files that pass the test, with their contents. -/
structure Snapshots (t : OpenFileTable) (test : String → Bool)
    (load : String → Except Errno (List UInt8)) (snapshots : List Snapshot) : Prop where
  nodup : (snapshots.map Snapshot.file).Nodup
  taken : ∀ s ∈ snapshots, t.states s.file = .linked s.linkedPath ∧ test s.linkedPath = true ∧
    load s.linkedPath = .ok s.bytes ∧ ∃ i, t.residentFiles.get? i = some s.file
  all : ∀ i file path, t.residentFiles.get? i = some file → t.states file = .linked path →
    test path = true → ∃ s ∈ snapshots, s.file = file

theorem Tracks.snapshots (h : t.Tracks places) {roots : List String} {test : String → Bool}
    (htest : ∀ path, test path = true → roots.any (isInSubtree · path) = true)
    {load : String → Except Errno (List UInt8)} {snapshots : List Snapshot}
    (hsnapshots : t.snapshots (t.residentFilesInSubtrees roots) test load = .ok snapshots) :
    Snapshots t test load snapshots := by
  have hall := forall₂_of_mapM _ hsnapshots
  have hlinked : ∀ {e : StateId × String}, e ∈ (t.residentFilesInSubtrees roots).filterMap
      (fun e => ((t.states e.2).linkedPath.filter test).map fun path => (e.2, path)) ↔
      t.states e.1 = .linked e.2 ∧ test e.2 = true ∧ ∃ i, t.residentFiles.get? i = some e.1 := by
    intro e
    rw [List.mem_filterMap]
    constructor
    · rintro ⟨⟨i, file⟩, hmem, he⟩
      obtain ⟨path, hpath, rfl⟩ := Option.map_eq_some_iff.mp he
      obtain ⟨hpath, hpassed⟩ := Option.filter_eq_some_iff.mp hpath
      exact ⟨linkedPath_eq_some.mp hpath, hpassed, i, (h.mem_filesInSubtrees.mp hmem).1⟩
    · rintro ⟨hstate, hpassed, i, hfile⟩
      refine ⟨(i, e.1), h.mem_filesInSubtrees.mpr ⟨hfile, e.2, hstate, htest _ hpassed⟩, ?_⟩
      rw [hstate]
      exact Option.map_eq_some_iff.mpr ⟨e.2, Option.filter_eq_some_iff.mpr ⟨rfl, hpassed⟩, rfl⟩
  have hsame : ∀ {e : StateId × String} {s : Snapshot},
      ((load e.2).map fun bytes => (⟨e.1, e.2, bytes⟩ : Snapshot)) = .ok s →
        s.file = e.1 ∧ s.linkedPath = e.2 ∧ load e.2 = .ok s.bytes := by
    intro e s hs
    obtain ⟨bytes, hload, rfl⟩ := Run.map_eq_ok.mp hs
    exact ⟨rfl, rfl, hload⟩
  refine ⟨?_, fun s hs => ?_, fun i file path hfile hstate hpassed => ?_⟩
  · have hfiles : snapshots.map Snapshot.file = ((t.residentFilesInSubtrees roots).filterMap
        fun e => ((t.states e.2).linkedPath.filter test).map fun path => (e.2, path)).map Prod.fst := by
      refine List.ext_get (by rw [List.length_map, List.length_map, hall.length_eq]) ?_
      intro k hk hk'
      rw [List.get_eq_getElem, List.get_eq_getElem, List.getElem_map, List.getElem_map]
      rw [List.length_map] at hk hk'
      exact (hsame (hall.get hk' hk)).1
    rw [hfiles]
    refine List.pairwise_map.mpr (List.pairwise_filterMap.mpr ?_)
    refine (List.pairwise_map.mp (h.nodup_filesInSubtrees roots)).imp fun hne a ha b hb heq => hne ?_
    obtain ⟨_, -, rfl⟩ := Option.map_eq_some_iff.mp ha
    obtain ⟨_, -, rfl⟩ := Option.map_eq_some_iff.mp hb
    exact heq
  · obtain ⟨k, hk, rfl⟩ := List.getElem_of_mem hs
    have hk' := hall.length_eq ▸ hk
    obtain ⟨hstate, hpassed, hfile⟩ := hlinked.mp (List.getElem_mem hk')
    obtain ⟨hsfile, hspath, hload⟩ := hsame (hall.get hk' hk)
    rw [List.get_eq_getElem, List.get_eq_getElem] at hsfile hspath hload
    rw [hsfile, hspath]
    exact ⟨hstate, hpassed, hload, hfile⟩
  · have hmem := hlinked.mpr (show t.states (file, path).1 = _ ∧ _ from ⟨hstate, hpassed, i, hfile⟩)
    obtain ⟨k, hk, hget⟩ := List.getElem_of_mem hmem
    have hk' := hall.length_eq ▸ hk
    refine ⟨snapshots[k], List.getElem_mem hk', (hsame (hall.get hk hk')).1.trans ?_⟩
    rw [List.get_eq_getElem, hget]

/-- The states after the files of some snapshots are set. -/
theorem foldl_setState (f : Snapshot → ResidentLocation) (snapshots : List Snapshot) :
    ∀ t : OpenFileTable, ∃ states,
      snapshots.foldl (fun t s => t.setState s.file (f s)) t = { t with states } ∧
      (∀ file, (∀ s ∈ snapshots, s.file ≠ file) → states file = t.states file) ∧
      ((snapshots.map Snapshot.file).Nodup → ∀ s ∈ snapshots, states s.file = f s) := by
  induction snapshots with
  | nil => exact fun t => ⟨t.states, rfl, fun _ _ => rfl, fun _ s hs => absurd hs List.not_mem_nil⟩
  | cons first snapshots ih =>
    intro t
    obtain ⟨states, heq, hothers, hset⟩ := ih (t.setState first.file (f first))
    refine ⟨states, heq, fun file hne => ?_, fun hnodup s hs => ?_⟩
    · rw [List.forall_mem_cons] at hne
      rw [hothers file hne.2]
      exact Function.update_of_ne hne.1.symm _ _
    · rw [List.map_cons, List.nodup_cons] at hnodup
      rcases List.mem_cons.mp hs with rfl | hs
      · rw [hothers s.file fun other hother heq => hnodup.1 (heq ▸ List.mem_map_of_mem hother)]
        exact Function.update_self _ _ _
      · exact hset hnodup.2 s hs

/-- A linked file that passes the test has its content from then on. -/
def detachedBy (test : String → Bool) (load : String → Except Errno (List UInt8)) :
    ResidentLocation → ResidentLocation
  | .linked path =>
    match test path, load path with
    | true, .ok bytes => .detached bytes
    | _, _ => .linked path
  | .detached bytes => .detached bytes

section

variable {test : String → Bool} {load : String → Except Errno (List UInt8)}
  {snapshots : List Snapshot}

theorem detachedBy_eq_linked {location : ResidentLocation} {path : String}
    (h : detachedBy test load location = .linked path) : location = .linked path := by
  cases location with
  | detached bytes => cases h
  | linked other =>
    rw [detachedBy] at h
    split at h
    · cases h
    · exact h

theorem Snapshots.detach (h : Snapshots t test load snapshots) :
    ∃ states, t.detach snapshots = { t with states } ∧
      (∀ i file, t.residentFiles.get? i = some file →
        states file = detachedBy test load (t.states file)) ∧
      ∀ s ∈ snapshots, states s.file = .detached s.bytes := by
  obtain ⟨states, heq, hothers, hset⟩ := foldl_setState (fun s => .detached s.bytes) snapshots t
  refine ⟨states, heq, fun i file hfile => ?_, hset h.nodup⟩
  by_cases hmem : ∃ s ∈ snapshots, s.file = file
  · obtain ⟨s, hs, rfl⟩ := hmem
    obtain ⟨hstate, hpassed, hload, -⟩ := h.taken s hs
    rw [hset h.nodup s hs, hstate, detachedBy, hpassed, hload]
  · rw [hothers file fun s hs heq => hmem ⟨s, hs, heq⟩]
    cases hstate : t.states file with
    | detached bytes => rfl
    | linked path =>
      have hpassed : test path = false := by
        rw [← Bool.not_eq_true]
        exact fun hpassed => hmem (h.all i file path hfile hstate hpassed)
      rw [detachedBy, hpassed]

/-- A failed operation leaves the table as it was. -/
theorem Snapshots.relink (h : Snapshots t test load snapshots) :
    (t.detach snapshots).relink snapshots = t := by
  obtain ⟨states, heq, hothers, -⟩ := foldl_setState (fun s => .detached s.bytes) snapshots t
  obtain ⟨states', heq', hothers', hset'⟩ :=
    foldl_setState (fun s => .linked s.linkedPath) snapshots (t.detach snapshots)
  rw [OpenFileTable.relink, heq', OpenFileTable.detach, heq]
  have hstates : states' = t.states := by
    funext file
    by_cases hmem : ∃ s ∈ snapshots, s.file = file
    · obtain ⟨s, hs, rfl⟩ := hmem
      rw [hset' h.nodup s hs, (h.taken s hs).1]
    · have hne : ∀ s ∈ snapshots, s.file ≠ file := fun s hs heq => hmem ⟨s, hs, heq⟩
      rw [hothers' file hne, OpenFileTable.detach, heq]
      exact hothers file hne
  rw [hstates]

theorem get?_foldl_erase (snapshots : List Snapshot) (path : String) :
    ∀ paths : FiniteMap String ℕ,
      (snapshots.foldl (fun paths s => paths.erase s.linkedPath) paths).get? path =
        if ∃ s ∈ snapshots, s.linkedPath = path then none else paths.get? path := by
  induction snapshots with
  | nil =>
    intro paths
    rw [if_neg]
    · rfl
    · rintro ⟨s, hs, -⟩
      exact List.not_mem_nil hs
  | cons first snapshots ih =>
    intro paths
    rw [List.foldl_cons, ih, FiniteMap.get?_erase]
    by_cases hlater : ∃ s ∈ snapshots, s.linkedPath = path
    · obtain ⟨s, hs, heq⟩ := hlater
      rw [if_pos ⟨s, hs, heq⟩, if_pos ⟨s, List.mem_cons_of_mem _ hs, heq⟩]
    · rw [if_neg hlater]
      by_cases hfirst : path = first.linkedPath
      · rw [if_pos hfirst, if_pos ⟨first, List.mem_cons_self, hfirst.symm⟩]
      · rw [if_neg hfirst, if_neg]
        rintro ⟨s, hs, heq⟩
        rcases List.mem_cons.mp hs with rfl | hs
        · exact hfirst heq.symm
        · exact hlater ⟨s, hs, heq⟩

/-- After the operation the files that passed the test are linked nowhere. -/
theorem Tracks.detach (h : t.Tracks places) (hsnapshots : Snapshots t test load snapshots) :
    ∃ states paths, (t.detach snapshots).forgetPaths snapshots =
        { t with states, residentPaths := paths } ∧
      (∀ i file, t.residentFiles.get? i = some file →
        states file = detachedBy test load (t.states file)) ∧
      ({ t with states, residentPaths := paths } : OpenFileTable).Tracks
        fun i => (places i).filter fun path => !test path := by
  obtain ⟨states, heq, hstates, hdetached⟩ := hsnapshots.detach
  refine ⟨states, _, by rw [forgetPaths, heq], hstates, ?_⟩
  have hfilter : ∀ i file, t.residentFiles.get? i = some file →
      (states file).linkedPath = (t.place i).filter fun path => !test path := by
    intro i file hfile
    rw [place_of_get hfile]
    cases hstate : t.states file with
    | detached bytes => rw [hstates i file hfile, hstate]; rfl
    | linked path =>
      rw [ResidentLocation.linkedPath, Option.filter_some]
      cases hpassed : test path with
      | false =>
        rw [hstates i file hfile, hstate, detachedBy, hpassed]
        rfl
      | true =>
        obtain ⟨s, hs, rfl⟩ := hsnapshots.all i file path hfile hstate hpassed
        rw [hdetached s hs]
        rfl
  have hplace : ∀ i, OpenFileTable.place { t with
      states
      residentPaths := snapshots.foldl (fun paths s => paths.erase s.linkedPath) t.residentPaths } i =
        (t.place i).filter fun path => !test path := by
    intro i
    change (t.residentFiles.get? i).bind _ = _
    cases hfile : t.residentFiles.get? i with
    | none =>
      rw [place, hfile]
      rfl
    | some file => exact hfilter i file hfile
  refine { h with indexed := fun path i => ?_, synced := fun i file hfile => ?_ }
  · rw [hplace, Option.filter_eq_some_iff, ← h.indexed path i, get?_foldl_erase]
    by_cases hgone : ∃ s ∈ snapshots, s.linkedPath = path
    · obtain ⟨s, hs, rfl⟩ := hgone
      rw [if_pos ⟨s, hs, rfl⟩, (hsnapshots.taken s hs).2.1]
      exact ⟨fun hno => (by cases hno), fun hand => (by cases hand.2)⟩
    · rw [if_neg hgone]
      refine ⟨fun hget => ⟨hget, ?_⟩, fun hand => hand.1⟩
      obtain ⟨file, hfile, hstate⟩ := place_eq_some.mp ((h.indexed path i).mp hget)
      rw [Bool.not_eq_true', ← Bool.not_eq_true]
      intro hpassed
      obtain ⟨s, hs, rfl⟩ := hsnapshots.all i file path hfile hstate hpassed
      rw [(hsnapshots.taken s hs).1] at hstate
      exact hgone ⟨s, hs, ResidentLocation.linked.inj hstate⟩
  · have hfile : t.residentFiles.get? i = some file := hfile
    refine (hfilter i file hfile).trans ?_
    rw [place_of_get hfile, h.synced i file hfile]

/-- `unlink_resident` fails and leaves the states, or the files at the path or below it are detached. -/
theorem Tracks.unlink (h : t.Tracks places) {path : String} (hpath : path ≠ "")
    (load : String → Except Errno (List UInt8)) (operation : Except Errno Unit) :
    (∃ e, t.unlinkResident path load operation = (t.removeClosedResidentFiles, .error e)) ∨
      operation = .ok () ∧ ∃ states paths, t.unlinkResident path load operation =
          ({ t.removeClosedResidentFiles with states, residentPaths := paths }, .ok ()) ∧
        (∀ i file, t.removeClosedResidentFiles.residentFiles.get? i = some file →
          states file = detachedBy (sameOrDescendant · path) load (t.states file)) ∧
        ({ t.removeClosedResidentFiles with states, residentPaths := paths } : OpenFileTable).Tracks
          fun i => (places i).filter fun other => !sameOrDescendant other path := by
  have htest : ∀ other, sameOrDescendant other path = true →
      [path].any (isInSubtree · other) = true := by
    intro other hother
    rw [List.any_cons, isInSubtree_eq hpath, hother, Bool.true_or]
  rw [unlinkResident]
  dsimp only
  cases hsnapshots : t.removeClosedResidentFiles.snapshots
      (t.removeClosedResidentFiles.residentFilesInSubtrees [path]) (sameOrDescendant · path) load with
  | error e => exact .inl ⟨e, rfl⟩
  | ok snapshots =>
    have hspec := h.removeClosed.snapshots htest hsnapshots
    cases operation with
    | error e =>
      refine .inl ⟨e, ?_⟩
      dsimp only
      rw [hspec.relink]
    | ok =>
      obtain ⟨states, paths, heq, hstates, htracks⟩ := h.removeClosed.detach hspec
      exact .inr ⟨rfl, states, paths, by dsimp only; rw [heq], hstates, htracks⟩

theorem below_of_renamed {path source destination target : String}
    (h : renamedPath path source destination = some target) :
    sameOrDescendant path source = true := by
  rw [← @renamedPath_isSome path source destination, h]
  rfl

/-- A linked file goes where its path goes. -/
def movedBy (source destination : String) : ResidentLocation → ResidentLocation
  | .linked path => .linked ((renamedPath path source destination).getD path)
  | .detached bytes => .detached bytes

/-- The moves of files that are linked, each once. -/
theorem foldl_moveResident (origin : (ℕ × StateId) × String → String)
    (moves : List ((ℕ × StateId) × String)) : ∀ t : OpenFileTable,
    (moves.map fun m => m.1.2).Nodup → (∀ m ∈ moves, t.states m.1.2 = .linked (origin m)) →
    ∃ states, moves.foldl moveResident t = { t with
        states
        residentPaths :=
          (moves.map fun m => (⟨m.1.1, origin m, m.2⟩ : Move String ℕ)).foldl InverseIndex.apply
            t.residentPaths } ∧
      (∀ file, (∀ m ∈ moves, m.1.2 ≠ file) → states file = t.states file) ∧
      ∀ m ∈ moves, states m.1.2 = .linked m.2 := by
  induction moves with
  | nil => exact fun t _ _ => ⟨t.states, rfl, fun _ _ => rfl, fun m hm => absurd hm List.not_mem_nil⟩
  | cons first moves ih =>
    intro t hnodup horigin
    rw [List.map_cons, List.nodup_cons] at hnodup
    rw [List.forall_mem_cons] at horigin
    have hother : ∀ m ∈ moves, m.1.2 ≠ first.1.2 := fun m hm heq =>
      hnodup.1 (heq ▸ List.mem_map_of_mem hm)
    obtain ⟨states, heq, hothers, hset⟩ := ih (moveResident t first) hnodup.2 fun m hm =>
      (Function.update_of_ne (hother m hm) _ _).trans (horigin.2 m hm)
    refine ⟨states, ?_, fun file hne => ?_, fun m hm => ?_⟩
    · rw [List.foldl_cons, heq, moveResident, horigin.1]
      rfl
    · rw [List.forall_mem_cons] at hne
      rw [hothers file hne.2]
      exact Function.update_of_ne hne.1.symm _ _
    · rcases List.mem_cons.mp hm with rfl | hm
      · rw [hothers m.1.2 hother]
        exact Function.update_self _ _ _
      · exact hset m hm

/-- The files that `rename_resident` moves. -/
def movesOf (t : OpenFileTable) (files : List (ℕ × StateId)) (source destination : String) :
    List ((ℕ × StateId) × String) :=
  files.filterMap fun e =>
    ((t.states e.2).linkedPath.bind (renamedPath · source destination)).map fun path => (e, path)

theorem mem_movesOf {files : List (ℕ × StateId)} {source destination : String}
    {m : (ℕ × StateId) × String} : m ∈ t.movesOf files source destination ↔
      m.1 ∈ files ∧ ∃ path, t.states m.1.2 = .linked path ∧
        renamedPath path source destination = some m.2 := by
  rw [movesOf, List.mem_filterMap]
  constructor
  · rintro ⟨e, he, hm⟩
    obtain ⟨target, htarget, rfl⟩ := Option.map_eq_some_iff.mp hm
    obtain ⟨path, hpath, htarget⟩ := Option.bind_eq_some_iff.mp htarget
    exact ⟨he, path, linkedPath_eq_some.mp hpath, htarget⟩
  · rintro ⟨he, path, hpath, htarget⟩
    refine ⟨m.1, he, Option.map_eq_some_iff.mpr ⟨m.2, ?_, rfl⟩⟩
    exact Option.bind_eq_some_iff.mpr ⟨path, linkedPath_eq_some.mpr hpath, htarget⟩

/-- The moves of all linked files below the source, onto free paths. -/
theorem Tracks.moves (h : t.Tracks places) {files : List (ℕ × StateId)} {source destination : String}
    (hinodes : files.Pairwise fun a b => a.1 ≠ b.1)
    (hfiles : ∀ e ∈ files, t.residentFiles.get? e.1 = some e.2)
    (hall : ∀ i file path, t.residentFiles.get? i = some file → t.states file = .linked path →
      sameOrDescendant path source = true → (i, file) ∈ files)
    (hfree : ∀ i path, places i = some path → sameOrDescendant path destination = false) :
    ∃ states paths,
      (t.movesOf files source destination).foldl moveResident t =
        { t with states, residentPaths := paths } ∧
      (∀ i file, t.residentFiles.get? i = some file →
        states file = movedBy source destination (t.states file)) ∧
      ({ t with states, residentPaths := paths } : OpenFileTable).Tracks
        fun i => (places i).map fun path => (renamedPath path source destination).getD path := by
  have hthings : (t.movesOf files source destination).Pairwise fun a b => a.1.1 ≠ b.1.1 := by
    rw [movesOf, List.pairwise_filterMap]
    refine hinodes.imp fun hne a ha b hb => ?_
    obtain ⟨_, -, rfl⟩ := Option.map_eq_some_iff.mp ha
    obtain ⟨_, -, rfl⟩ := Option.map_eq_some_iff.mp hb
    exact hne
  have hstates : ((t.movesOf files source destination).map fun m => m.1.2).Nodup := by
    refine List.pairwise_map.mpr (hthings.imp_of_mem fun {a b} ha hb hne heq => hne ?_)
    have ha := hfiles _ (mem_movesOf.mp ha).1
    have hb := hfiles _ (mem_movesOf.mp hb).1
    rw [← heq] at hb
    exact h.once _ _ _ ha hb
  let origin (m : (ℕ × StateId) × String) : String := (t.states m.1.2).linkedPath.getD ""
  have horigin : ∀ m ∈ t.movesOf files source destination, t.states m.1.2 = .linked (origin m) := by
    intro m hm
    obtain ⟨-, path, hpath, -⟩ := mem_movesOf.mp hm
    rw [show origin m = path from congrArg (fun location => location.linkedPath.getD "") hpath]
    exact hpath
  obtain ⟨states, heq, hothers, hset⟩ := foldl_moveResident origin _ t hstates horigin
  have hrenames : InverseIndex.Renames t.place (renamedPath · source destination)
      ((t.movesOf files source destination).map fun m => ⟨m.1.1, origin m, m.2⟩) := by
    refine ⟨?_, fun move => ?_⟩
    · rw [List.map_map]
      exact List.pairwise_map.mpr hthings
    · rw [List.mem_map]
      constructor
      · rintro ⟨m, hm, rfl⟩
        obtain ⟨hfile, path, hpath, htarget⟩ := mem_movesOf.mp hm
        have hsame := ResidentLocation.linked.inj (hpath.symm.trans (horigin m hm))
        exact ⟨place_eq_some.mpr ⟨m.1.2, hfiles _ hfile, horigin m hm⟩, hsame ▸ htarget⟩
      · rintro ⟨hplace, htarget⟩
        obtain ⟨file, hfile, hstate⟩ := place_eq_some.mp hplace
        have hbelow := below_of_renamed htarget
        have hm : ((move.thing, file), move.target) ∈ t.movesOf files source destination :=
          mem_movesOf.mpr ⟨hall _ _ _ hfile hstate hbelow, _, hstate, htarget⟩
        refine ⟨_, hm, ?_⟩
        have hsame := ResidentLocation.linked.inj (hstate.symm.trans (horigin _ hm))
        rw [← hsame]
  have hmoved : ∀ i file, t.residentFiles.get? i = some file →
      states file = movedBy source destination (t.states file) := by
    intro i file hfile
    by_cases hmem : ∃ m ∈ t.movesOf files source destination, m.1.2 = file
    · obtain ⟨m, hm, rfl⟩ := hmem
      obtain ⟨-, path, hpath, htarget⟩ := mem_movesOf.mp hm
      rw [hset m hm, hpath, movedBy, htarget]
      rfl
    · rw [hothers file fun m hm heq => hmem ⟨m, hm, heq⟩]
      cases hstate : t.states file with
      | detached bytes => rfl
      | linked path =>
        cases htarget : renamedPath path source destination with
        | none => rw [movedBy, htarget]; rfl
        | some target =>
          have hbelow := below_of_renamed htarget
          exact absurd ⟨((i, file), target), mem_movesOf.mpr
            ⟨hall i file path hfile hstate hbelow, path, hstate, htarget⟩, rfl⟩ hmem
  have hplace : ∀ i file, t.residentFiles.get? i = some file → (states file).linkedPath =
      (t.place i).map fun path => (renamedPath path source destination).getD path := by
    intro i file hfile
    rw [hmoved i file hfile, place_of_get hfile]
    cases t.states file <;> rfl
  refine ⟨states, _, heq, hmoved, { h with indexed := ?_, synced := fun i file hfile => ?_ }⟩
  · refine (h.indexed.rename hrenames (fun _ _ _ => renamedPath_injective)
      fun path target htarget j hj => ?_).congr fun i => ?_
    · have hbelow := renamedPath_below htarget
      rw [hfree j target (h.place_eq hj)] at hbelow
      cases hbelow
    · change (t.residentFiles.get? i).bind _ = _
      cases hfile : t.residentFiles.get? i with
      | none =>
        rw [place, hfile]
        rfl
      | some file => exact hplace i file hfile
  · have hfile : t.residentFiles.get? i = some file := hfile
    refine (hplace i file hfile).trans ?_
    rw [place_of_get hfile, h.synced i file hfile]

/-- `rename_resident` fails and leaves the states, or the files at the destination or below it are
detached and those of the source have moved. -/
theorem Tracks.rename (h : t.Tracks places) {source destination : String} (hsource : source ≠ "")
    (hdestination : destination ≠ "") (hout : sameOrDescendant destination source = false)
    (hin : sameOrDescendant source destination = false)
    (load : String → Except Errno (List UInt8)) (operation : Except Errno Unit) :
    (∃ e, t.renameResident source destination load operation =
      (t.removeClosedResidentFiles, .error e)) ∨
      operation = .ok () ∧ ∃ states paths, t.renameResident source destination load operation =
          ({ t.removeClosedResidentFiles with states, residentPaths := paths }, .ok ()) ∧
        (∀ i file, t.removeClosedResidentFiles.residentFiles.get? i = some file →
          states file = movedBy source destination
            (detachedBy (sameOrDescendant · destination) load (t.states file))) ∧
        ({ t.removeClosedResidentFiles with states, residentPaths := paths } : OpenFileTable).Tracks
          fun i => ((places i).filter fun other => !sameOrDescendant other destination).map
            fun path => (renamedPath path source destination).getD path := by
  have hne : source ≠ destination := fun heq => by
    rw [heq, sameOrDescendant_self] at hin
    cases hin
  -- Nothing is below both.
  have hreplaced : (fun path => sameOrDescendant path destination && !sameOrDescendant path source) =
      (sameOrDescendant · destination) := by
    funext path
    cases hto : sameOrDescendant path destination with
    | false => rfl
    | true =>
      cases hfrom : sameOrDescendant path source with
      | false => rfl
      | true =>
        rcases sameOrDescendant_total hto hfrom with hboth | hboth
        · rw [hout] at hboth
          cases hboth
        · rw [hin] at hboth
          cases hboth
  have htest : ∀ other, sameOrDescendant other destination = true →
      [source, destination].any (isInSubtree · other) = true := by
    intro other hother
    rw [List.any_cons, List.any_cons, isInSubtree_eq hdestination, hother, Bool.true_or,
      Bool.or_true]
  rw [renameResident, if_neg hne]
  dsimp only
  rw [hreplaced]
  cases hsnapshots : t.removeClosedResidentFiles.snapshots
      (t.removeClosedResidentFiles.residentFilesInSubtrees [source, destination])
      (sameOrDescendant · destination) load with
  | error e => exact .inl ⟨e, rfl⟩
  | ok snapshots =>
    have hspec := h.removeClosed.snapshots htest hsnapshots
    cases operation with
    | error e =>
      refine .inl ⟨e, ?_⟩
      dsimp only
      rw [hspec.relink]
    | ok =>
      obtain ⟨states, paths, heq, hstates, htracks⟩ := h.removeClosed.detach hspec
      dsimp only
      rw [heq]
      have hfiles : ∀ e ∈ t.removeClosedResidentFiles.residentFilesInSubtrees [source, destination],
          t.removeClosedResidentFiles.residentFiles.get? e.1 = some e.2 := fun e he =>
        (h.removeClosed.mem_filesInSubtrees.mp he).1
      have hall : ∀ i file path, t.removeClosedResidentFiles.residentFiles.get? i = some file →
          states file = .linked path → sameOrDescendant path source = true →
          (i, file) ∈ t.removeClosedResidentFiles.residentFilesInSubtrees [source, destination] := by
        intro i file path hfile hstate hbelow
        refine h.removeClosed.mem_filesInSubtrees.mpr ⟨hfile, path, ?_, ?_⟩
        · rw [hstates i file hfile] at hstate
          exact detachedBy_eq_linked hstate
        · rw [List.any_cons, isInSubtree_eq hsource, hbelow, Bool.true_or]
      obtain ⟨states', paths', heq', hstates', htracks'⟩ := htracks.moves
        (t.removeClosedResidentFiles.inodes_filesInSubtrees [source, destination]) hfiles hall
        fun i path hplace => by
          obtain ⟨-, hpassed⟩ := Option.filter_eq_some_iff.mp hplace
          rwa [Bool.not_eq_true'] at hpassed
      refine .inr ⟨rfl, states', paths', ?_, fun i file hfile => ?_, htracks'⟩
      · exact congrArg (fun t : OpenFileTable => (t, Except.ok ())) heq'
      · exact (hstates' i file hfile).trans (congrArg _ (hstates i file hfile))

end

end OpenFileTable

end UnixVfs
