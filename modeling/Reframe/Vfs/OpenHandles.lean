import Reframe.Vfs.InodeNumbers
import Reframe.Vfs.OpenFileTable
import Reframe.Workspace.RenameExact
import Reframe.Workspace.ScratchRules

/-! A mount under any callbacks: an open handle stays on the file of its inode, is linked where the
inode is, and a callback that fails leaves every handle as it was. -/
namespace UnixVfs
open Workspace

namespace OpenHandle

variable {handle : OpenHandle} {states : StateId → ResidentLocation}

theorem linkedPath_update {file : StateId} {location : ResidentLocation}
    (h : location.linkedPath = (states file).linkedPath) (other : StateId) :
    (Function.update states file location other).linkedPath = (states other).linkedPath := by
  by_cases hother : other = file
  · rw [hother, Function.update_self, h]
  · rw [Function.update_of_ne hother]

theorem write_linkedPath (offset : ℕ) (data : List UInt8)
    (writeLinked : String → Except Errno Unit) (writeScratch : Except Errno Unit)
    (other : StateId) :
    ((handle.write states offset data writeLinked writeScratch).1 other).linkedPath =
      (states other).linkedPath := by
  unfold write
  split_ifs
  · rfl
  · cases handle.backend with
    | scratch => rfl
    | resident file =>
      dsimp only
      cases hstate : states file with
      | linked path => rfl
      | detached bytes =>
        dsimp only
        cases writeBytes bytes offset data with
        | error e => rfl
        | ok written => exact linkedPath_update (by rw [hstate]; rfl) other

theorem write_failed {offset : ℕ} {data : List UInt8} {writeLinked : String → Except Errno Unit}
    {writeScratch : Except Errno Unit} {e : Errno}
    (h : (handle.write states offset data writeLinked writeScratch).2 = .error e) :
    (handle.write states offset data writeLinked writeScratch).1 = states := by
  unfold write at h ⊢
  split_ifs at h ⊢
  · rfl
  · cases hbackend : handle.backend with
    | scratch => rfl
    | resident file =>
      rw [hbackend] at h
      dsimp only at h ⊢
      cases hstate : states file with
      | linked path => rfl
      | detached bytes =>
        rw [hstate] at h
        dsimp only at h ⊢
        cases hwritten : writeBytes bytes offset data with
        | ok other => rw [hwritten] at h; cases h
        | error other => rfl

theorem resize_linkedPath (size : ℕ) (resizeLinked : String → Except Errno Unit)
    (resizeScratch : Except Errno Unit) (other : StateId) :
    ((handle.resize states size resizeLinked resizeScratch).1 other).linkedPath =
      (states other).linkedPath := by
  unfold resize
  split_ifs
  · rfl
  · cases handle.backend with
    | scratch => rfl
    | resident file =>
      dsimp only
      cases hstate : states file with
      | linked path => rfl
      | detached bytes => exact linkedPath_update (by rw [hstate]; rfl) other

theorem resize_failed {size : ℕ} {resizeLinked : String → Except Errno Unit}
    {resizeScratch : Except Errno Unit} {e : Errno}
    (h : (handle.resize states size resizeLinked resizeScratch).2 = .error e) :
    (handle.resize states size resizeLinked resizeScratch).1 = states := by
  unfold resize at h ⊢
  split_ifs at h ⊢
  · rfl
  · cases hbackend : handle.backend with
    | scratch => rfl
    | resident file =>
      rw [hbackend] at h
      dsimp only at h ⊢
      cases hstate : states file with
      | linked path => rfl
      | detached bytes =>
        rw [hstate] at h
        cases h

end OpenHandle

namespace OpenFileTable

variable {t : OpenFileTable} {places : ℕ → Option String}

theorem get_eq_ok {handle inode : ℕ} {entry : OpenHandle} (h : t.get handle inode = .ok entry) :
    t.handles.get? handle = some entry := by
  rw [get] at h
  cases hentry : t.handles.get? handle with
  | none => rw [hentry] at h; cases h
  | some other =>
    rw [hentry] at h
    dsimp only at h
    split_ifs at h
    cases h
    rfl

theorem Tracks.withStates (h : t.Tracks places) {states : StateId → ResidentLocation}
    (hlinked : ∀ file, (states file).linkedPath = (t.states file).linkedPath) :
    ({ t with states } : OpenFileTable).Tracks places := by
  have hplace : ∀ i, ({ t with states } : OpenFileTable).place i = t.place i := fun i =>
    congrArg _ (funext hlinked)
  exact { h with
    indexed := h.indexed.congr hplace
    synced := fun i file hfile => (hlinked file).trans (h.synced i file hfile) }

theorem Tracks.take (h : t.Tracks places) (request : ℕ) {handle : ℕ} {entry : OpenHandle}
    (hentry : t.handles.get? handle = some entry) :
    ({ t with taken := t.taken.insert request entry } : OpenFileTable).Tracks places := by
  refine { h with indexed := h.indexed, taken := fun other otherEntry file hother hfile => ?_ }
  dsimp only at hother
  rw [FiniteMap.get?_insert] at hother
  split_ifs at hother
  · cases hother
    exact h.handles handle entry file hentry hfile
  · exact h.taken other otherEntry file hother hfile

theorem Tracks.drop (h : t.Tracks places) (request : ℕ) :
    ({ t with taken := t.taken.erase request } : OpenFileTable).Tracks places :=
  { h with
    indexed := h.indexed
    taken := fun other entry file hother hfile =>
      h.taken other entry file (FiniteMap.get?_erase_some hother).2 hfile }

/-- An open file of the system is no one's state. -/
theorem Tracks.openScratch (h : t.Tracks places) (hroom : t.handles.size + 1 < 2 ^ 64) (inode : ℕ)
    (flags : OpenFlags) : (t.openScratch inode flags).1.Tracks places :=
  h.insert hroom fun _ hfile => (by cases hfile)

/-- No open file is linked at a path or below it. -/
def NoneIn (t : OpenFileTable) (root : String) : Prop :=
  ∀ path inode, t.residentPaths.get? path = some inode → sameOrDescendant path root = false

instance (t : OpenFileTable) (root : String) : Decidable (t.NoneIn root) :=
  decidable_of_iff (∀ e ∈ t.residentPaths.toList, sameOrDescendant e.1 root = false)
    ⟨fun h path inode hget => h (path, inode) (FiniteMap.mem_toList.mpr hget),
      fun h e he => h e.1 e.2 (FiniteMap.mem_toList.mp he)⟩

theorem Tracks.outside (h : t.Tracks places) {root : String} (hnone : t.NoneIn root) {i : ℕ}
    (hi : (t.residentFiles.get? i).isSome) {path : String} (hplace : places i = some path) :
    sameOrDescendant path root = false := by
  obtain ⟨file, hfile⟩ := Option.isSome_iff_exists.mp hi
  refine hnone path i ((h.indexed path i).mpr ?_)
  rw [place_of_get hfile, h.synced i file hfile, hplace]

/-- The inodes below a path that no open file is linked in lose their places. -/
theorem Tracks.removePath (h : t.Tracks places) {path : String} (hnone : t.NoneIn path) :
    t.Tracks fun i => (places i).filter fun other => !sameOrDescendant other path := by
  refine h.congr fun i hi => ?_
  cases hplace : places i with
  | none => rfl
  | some other => rw [Option.filter_some, h.outside hnone hi hplace]; rfl

/-- The inodes below two such paths are moved from one to the other. -/
theorem Tracks.movePath (h : t.Tracks places) {source destination : String}
    (hsource : t.NoneIn source) (hdestination : t.NoneIn destination) :
    t.Tracks fun i => ((places i).filter fun other => !sameOrDescendant other destination).map
      fun path => (renamedPath path source destination).getD path := by
  refine h.congr fun i hi => ?_
  cases hplace : places i with
  | none => rfl
  | some path =>
    have hstays : renamedPath path source destination = none := by
      rw [← Option.not_isSome_iff_eq_none, renamedPath_isSome, h.outside hsource hi hplace]
      exact Bool.false_ne_true
    rw [Option.filter_some, h.outside hdestination hi hplace]
    exact congrArg some (congrArg (Option.getD · path) hstays)

theorem handles_withFile (t : OpenFileTable) (inode : ℕ) (path : String) :
    (t.withFile inode path).1.handles = t.handles := by
  rw [withFile]
  cases t.residentFiles.get? inode <;> rfl

/-- A state that is in use keeps what it has. -/
theorem states_withFile (t : OpenFileTable) (inode : ℕ) (path : String) {file : StateId}
    (hold : file < t.nextState) : (t.withFile inode path).1.states file = t.states file := by
  rw [withFile]
  cases t.residentFiles.get? inode with
  | some other => rfl
  | none => exact Function.update_of_ne hold.ne _ _

theorem known_of_withFile {inode i : ℕ} {path : String} {file : StateId}
    (h : (t.withFile inode path).1.residentFiles.get? i = some file) :
    i = inode ∨ t.residentFiles.get? i = some file := by
  rw [withFile] at h
  cases hfile : t.residentFiles.get? inode with
  | some other =>
    rw [hfile] at h
    exact .inr h
  | none =>
    rw [hfile] at h
    dsimp only at h
    rw [FiniteMap.get?_insert] at h
    split_ifs at h with hi
    · exact .inl hi
    · exact .inr h

end OpenFileTable

namespace MountTables
open OpenFileTable

/-- The numbers of inodes and handles that a callback can use up. -/
def cost (a : Answers) : Callback → ℕ
  | .create .. => 3
  | .readdir _ => a.names.length + 1
  | _ => 1

def totalCost (callbacks : List (Answers × Callback)) : ℕ :=
  (callbacks.map fun c => cost c.1 c.2).sum

/-- A rename of a resident path that passes its checks replaces no directory above the source: that
one is not empty. A scratch path is removed or renamed where no open file is linked. -/
def Allowed (t : MountTables) (a : Answers) : Callback → Prop
  | .unlink parent name => ∀ path, t.childPath a parent name = .ok path →
      a.isScratch path = true → a.checked = .ok () → t.handles.NoneIn path
  | .rename parent name newParent newName => ∀ source destination,
      t.childPath a parent name = .ok source → t.childPath a newParent newName = .ok destination →
        source ≠ destination → a.isScratch source = a.isScratch destination →
          a.present source = .ok () → a.checked = .ok () →
            if a.isScratch source then t.handles.NoneIn source ∧ t.handles.NoneIn destination
            else sameOrDescendant source destination = false
  | _ => True

def AllAllowed (t : MountTables) : List (Answers × Callback) → Prop
  | [] => True
  | (a, callback) :: callbacks =>
    t.Allowed a callback ∧ (t.step a callback).1.AllAllowed callbacks

/-- Rules that match whatever is below what they match leave no open file there, as long as the files
that are open are off the rules. -/
theorem noneIn_of_rules {t : OpenFileTable} {isScratch : String → Bool}
    (hrules : ∀ path below, isScratch path = true → sameOrDescendant below path = true →
      isScratch below = true)
    (hoff : ∀ path inode, t.residentPaths.get? path = some inode → isScratch path = false)
    {root : String} (hroot : isScratch root = true) : t.NoneIn root := by
  intro path inode hpath
  rw [Bool.eq_false_iff]
  intro hbelow
  have hmatched := hrules root path hroot hbelow
  rw [hoff path inode hpath] at hmatched
  cases hmatched

/-- Such rules and the resident workspace answer so: it lists something in a directory above a path
it has. -/
theorem allowed_of_workspace [Blake3] {t : MountTables} {a : Answers} {ws : ResidentWorkspace}
    (h : ws.state.Indexed) {parent newParent : ℕ} {name newName : String}
    (hrules : ∀ path below, a.isScratch path = true → sameOrDescendant below path = true →
      a.isScratch below = true)
    (hoff : ∀ path inode, t.handles.residentPaths.get? path = some inode → a.isScratch path = false)
    (hpresent : ∀ path, t.childPath a parent name = .ok path → a.present path = .ok () →
      a.isScratch path = false → ∃ p : NormalizedPath, p.asStr = path ∧ ws.state.Resident p)
    (hempty : ∀ path, t.childPath a newParent newName = .ok path → a.checked = .ok () →
      a.isScratch path = false →
        ∀ entries, ws.state.children.get? path = some entries → entries.size = 0) :
    t.Allowed a (.unlink parent name) ∧ t.Allowed a (.rename parent name newParent newName) := by
  refine ⟨fun path _ hscratch _ => noneIn_of_rules hrules hoff hscratch, ?_⟩
  intro path destination hpath hdestination hne hsame hfound hchecked
  split_ifs with hscratch
  · exact ⟨noneIn_of_rules hrules hoff hscratch, noneIn_of_rules hrules hoff (hsame ▸ hscratch)⟩
  · rw [Bool.not_eq_true] at hscratch
    obtain ⟨source, rfl, hresident⟩ := hpresent path hpath hfound hscratch
    rw [Bool.eq_false_iff]
    intro habove
    obtain ⟨suffix, hsource, hsuffix⟩ := sameOrDescendant_iff.mp habove
    rcases hsuffix with rfl | ⟨relative, rfl⟩
    · exact hne (hsource.trans String.append_empty)
    · have hprefix : hasPrefix source.asStr destination = true := by
        rw [hasPrefix, List.isPrefixOf_iff_prefix, hsource, String.toList_append,
          String.toList_append]
        exact ⟨relative.toList, List.append_assoc _ _ _⟩
      obtain ⟨d, rfl, hwithin⟩ := exists_of_hasPrefix hprefix
      exact h.nothingBelow (hempty _ hdestination hchecked (hsame ▸ hscratch)) source
        ⟨hwithin, fun heq => hne (congrArg _ heq.symm)⟩ hresident

/-- The open states follow the inodes, with a bound on the numbers in use. -/
structure Sound (t : MountTables) (used : ℕ) : Prop where
  numbered : t.inodes.Numbered
  tracks : t.handles.Tracks t.inodes.place
  known : ∀ i file, t.handles.residentFiles.get? i = some file → i < t.inodes.next
  numbers : t.inodes.next ≤ used + 2
  count : t.handles.handles.keys.card ≤ used

/-- The open handles on files that are no longer linked keep their bytes. -/
def KeepsBuffers (t t' : MountTables) : Prop :=
  ∀ number handle file bytes, t.handles.handles.get? number = some handle →
    handle.backend = .resident file → t.handles.states file = .detached bytes →
      t'.handles.states file = .detached bytes

def writes : Callback → Bool
  | .write .. | .resize .. => true
  | _ => false

/-- What a callback makes of sound tables. -/
structure Follows (t : MountTables) (result : MountTables × Reply) (used : ℕ) (writing : Bool) :
    Prop where
  sound : result.1.Sound used
  failed : ∀ e, result.2 = .error e → result.1.handles.states = t.handles.states
  answered : result.2 ≠ .panicked
  buffers : writing = false → t.KeepsBuffers result.1

theorem new_sound : new.Sound 0 :=
  ⟨InodeTable.new_numbered, new_tracks _, fun _ _ h => (by cases h), by decide, by decide⟩

variable {t : MountTables} {used used' : ℕ} {a : Answers} {writing : Bool}

theorem Sound.mono (h : t.Sound used) (hle : used ≤ used') : t.Sound used' :=
  { h with
    numbers := h.numbers.trans (Nat.add_le_add_right hle 2)
    count := h.count.trans hle }

theorem Sound.injective (h : t.Sound used) (i j : ℕ) (path : String)
    (hi : t.inodes.place i = some path) (hj : t.inodes.place j = some path) : i = j := by
  have hgiven := (h.numbered.indexes path i).mpr hi
  rw [(h.numbered.indexes path j).mpr hj] at hgiven
  exact (Option.some.inj hgiven).symm

/-- A callback that leaves the states alone. -/
theorem Follows.of_states {result : MountTables × Reply} (hsound : result.1.Sound used)
    (hstates : result.1.handles.states = t.handles.states) (hreply : result.2 ≠ .panicked) :
    t.Follows result used writing := by
  refine ⟨hsound, fun _ _ => hstates, hreply, fun _ number handle file bytes _ _ hbytes => ?_⟩
  rw [hstates]
  exact hbytes

/-- A refused callback. -/
theorem Sound.refused (h : t.Sound used) (hle : used ≤ used') (e : Errno) :
    t.Follows (t, .error e) used' writing :=
  .of_states (h.mono hle) rfl fun hpanic => (by cases hpanic)

/-- A path gets a number. -/
theorem Sound.give (h : t.Sound used) {inodes : InodeTable} {path : String} {i : ℕ}
    (hgives : t.inodes.Gives path inodes i) : (⟨inodes, t.handles⟩ : MountTables).Sound (used + 1) := by
  refine ⟨hgives.numbered, h.tracks.congr fun j hj => ?_, fun j file hfile => ?_, ?_, ?_⟩
  · obtain ⟨file, hfile⟩ := Option.isSome_iff_exists.mp hj
    rw [hgives.place]
    by_cases hi : j = i
    · subst hi
      rw [Function.update_self]
      rcases hgives.before with hsame | ⟨hfresh, -⟩
      · exact hsame.symm
      · exact absurd (h.known j file hfile) (not_lt_of_ge hfresh)
    · exact Function.update_of_ne hi _ _
  · exact (h.known j file hfile).trans_le hgives.next.1
  · have hnumbers := h.numbers
    have hlimit := hgives.next.2.1
    dsimp only
    omega
  · exact h.count.trans (Nat.le_succ _)

theorem Sound.room (h : t.Sound used) (hroom : used + 3 < 2 ^ 64) : t.inodes.next < u64Max := by
  have hnumbers := h.numbers
  rw [u64Max]
  omega

theorem Sound.recordLookup (h : t.Sound used) (hroom : used + 3 < 2 ^ 64) (path : String)
    (reply : ℕ → ℕ → Reply) : ∃ inodes i,
      t.recordLookup path reply = (⟨inodes, t.handles⟩, reply i i) ∧
        (⟨inodes, t.handles⟩ : MountTables).Sound (used + 1) := by
  obtain ⟨inodes, i, heq, hgives, -⟩ := h.numbered.recordLookup (h.room hroom) path
  refine ⟨inodes, i, ?_, h.give hgives⟩
  rw [MountTables.recordLookup, heq]

theorem Sound.onHandles (h : t.Sound used) {handles : OpenFileTable}
    (htracks : handles.Tracks t.inodes.place)
    (hknown : ∀ i file, handles.residentFiles.get? i = some file → i < t.inodes.next)
    (hcount : handles.handles.keys.card ≤ used') (hle : used ≤ used') :
    (⟨t.inodes, handles⟩ : MountTables).Sound used' :=
  ⟨h.numbered, htracks, hknown, (h.mono hle).numbers, hcount⟩

/-- Both tables change, and neither gives out a number. -/
theorem Sound.onTables (h : t.Sound used) {inodes : InodeTable} {handles : OpenFileTable}
    (hnumbered : inodes.Numbered) (hnext : inodes.next = t.inodes.next)
    (htracks : handles.Tracks inodes.place)
    (hold : ∀ i file, handles.residentFiles.get? i = some file →
      t.handles.residentFiles.get? i = some file)
    (hhandles : handles.handles = t.handles.handles) :
    (⟨inodes, handles⟩ : MountTables).Sound (used + 1) := by
  refine ⟨hnumbered, htracks, fun i file hfile => ?_, ?_, ?_⟩
  · dsimp only
    rw [hnext]
    exact h.known i file (hold i file hfile)
  · dsimp only
    rw [hnext]
    exact h.numbers.trans (Nat.le_succ _)
  · dsimp only
    rw [hhandles]
    exact h.count.trans (Nat.le_succ _)

theorem Sound.removeClosed (h : t.Sound used) :
    (⟨t.inodes, t.handles.removeClosedResidentFiles⟩ : MountTables).Sound used :=
  h.onHandles h.tracks.removeClosed (fun i file hfile => h.known i file (removeClosed_get hfile))
    h.count (le_refl _)

theorem Sound.spare (h : t.Sound used) (hroom : used + 1 < 2 ^ 64) :
    t.handles.handles.size + 1 < 2 ^ 64 := by
  have hcount := h.count
  rw [FiniteMap.card_keys] at hcount
  omega

/-- The inode of a path can be opened. -/
theorem Sound.openResident (h : t.Sound used) (hroom : used + 1 < 2 ^ 64) {inode : ℕ} {path : String}
    (hplace : t.inodes.place inode = some path) (flags : OpenFlags) : ∃ handles handle,
      t.handles.openResident inode path flags = (handles, .ok handle) ∧
        (⟨t.inodes, handles⟩ : MountTables).Sound (used + 1) ∧
        t.KeepsBuffers ⟨t.inodes, handles⟩ := by
  obtain ⟨htracks, hfile, -⟩ := h.tracks.removeClosed.withFile h.injective hplace
  have hhandles := handles_withFile t.handles.removeClosedResidentFiles inode path
  have hspare : (t.handles.removeClosedResidentFiles.withFile inode path).1.handles.size + 1 <
      2 ^ 64 := by
    rw [hhandles]
    exact h.spare hroom
  refine ⟨_, _, openResident_eq h.tracks hplace flags,
    h.onHandles (htracks.insert hspare fun other hother => ?_) (fun i file hget => ?_) ?_
      (Nat.le_succ _), fun number handle file bytes hget hbackend hbytes => ?_⟩
  · cases hother
    exact hfile
  · rcases known_of_withFile hget with rfl | hold
    · exact h.numbered.place_lt hplace
    · exact h.known i file (removeClosed_get hold)
  · refine (card_insert _ _).trans ?_
    rw [hhandles]
    exact Nat.add_le_add_right h.count 1
  · rw [← hbytes]
    exact states_withFile _ inode path
      (h.tracks.fresh _ file (h.tracks.handles number handle file hget hbackend))

/-- A handle on a scratch file changes no state. -/
theorem Sound.openScratch (h : t.Sound used) (hroom : used + 1 < 2 ^ 64) (inode : ℕ)
    (flags : OpenFlags) :
    (⟨t.inodes, (t.handles.openScratch inode flags).1⟩ : MountTables).Sound (used + 1) ∧
      (t.handles.openScratch inode flags).1.states = t.handles.states := by
  have hcount := card_insert t.handles ⟨inode, .fromFlags flags, .scratch⟩
  exact ⟨h.onHandles (h.tracks.openScratch (h.spare hroom) inode flags) h.known
    (hcount.trans (Nat.add_le_add_right h.count 1)) (Nat.le_succ _), rfl⟩

/-! The callbacks. -/

theorem child_ne_empty {parent name path : String} (h : child parent name = some path) :
    path ≠ "" := by
  rw [child] at h
  split_ifs at h with hname hparent
  · cases h
    exact fun hempty => hname (.inl hempty)
  · cases h
    intro hempty
    exact hname (.inl (String.append_eq_empty_iff.mp hempty).2)

theorem childPath_ne_empty {parentInode : ℕ} {name path : String}
    (h : t.childPath a parentInode name = .ok path) : path ≠ "" := by
  rw [childPath] at h
  split at h
  · cases h
  · split at h
    · cases h
    · split at h
      · cases h
      · next hchild =>
        cases h
        exact child_ne_empty hchild

theorem Sound.follows_lookup (h : t.Sound used) (hroom : used + 3 < 2 ^ 64) (path : String) :
    t.Follows (t.recordLookup path .entry) (used + 1) writing := by
  obtain ⟨inodes, i, heq, hsound⟩ := h.recordLookup hroom path .entry
  rw [heq]
  exact .of_states hsound rfl fun hpanic => (by cases hpanic)

theorem Sound.lookupChild (h : t.Sound used) (hroom : used + 3 < 2 ^ 64) (parentInode : ℕ)
    (name : String) : t.Follows (t.lookupChild a parentInode name) (used + 1) writing := by
  rw [MountTables.lookupChild]
  cases t.childPath a parentInode name with
  | error e => exact h.refused (Nat.le_succ _) e
  | ok path =>
    dsimp only
    cases a.present path with
    | error e => exact h.refused (Nat.le_succ _) e
    | ok => exact h.follows_lookup hroom path

theorem Sound.createDirectoryChild (h : t.Sound used) (hroom : used + 3 < 2 ^ 64)
    (parentInode : ℕ) (name : String) :
    t.Follows (t.createDirectoryChild a parentInode name) (used + 1) writing := by
  rw [MountTables.createDirectoryChild]
  cases t.childPath a parentInode name with
  | error e => exact h.refused (Nat.le_succ _) e
  | ok path =>
    dsimp only
    cases a.checked with
    | error e => exact h.refused (Nat.le_succ _) e
    | ok =>
      cases a.operation with
      | error e => exact h.refused (Nat.le_succ _) e
      | ok => exact h.follows_lookup hroom path

theorem Sound.registerScratchCreate (h : t.Sound used) (hroom : used + 5 < 2 ^ 64) (path : String)
    (flags : OpenFlags) :
    t.Follows (t.registerScratchCreate a path flags) (used + 3) writing := by
  rw [MountTables.registerScratchCreate]
  cases a.operation with
  | error e => exact h.refused (Nat.le_add_right _ _) e
  | ok =>
    have hgives := h.numbered.ensure (h.room (by omega)) path
    obtain ⟨hsound, hstates⟩ :=
      (h.give hgives).openScratch (by omega) (t.inodes.ensure path).2 flags
    obtain ⟨inodes, i, hlookup, hdone⟩ := hsound.recordLookup (by omega) path fun _ generation =>
      .created (t.inodes.ensure path).2 generation
        (t.handles.openScratch (t.inodes.ensure path).2 flags).2
    dsimp only at hlookup hdone hstates ⊢
    rw [hlookup]
    exact .of_states hdone hstates fun hpanic => (by cases hpanic)

theorem Sound.registerResidentCreate (h : t.Sound used) (hroom : used + 5 < 2 ^ 64) (path : String)
    (flags : OpenFlags) :
    t.Follows (t.registerResidentCreate a path flags) (used + 3) writing := by
  rw [MountTables.registerResidentCreate]
  cases a.operation with
  | error e => exact h.refused (Nat.le_add_right _ _) e
  | ok =>
    have hgives := h.numbered.ensure (h.room (by omega)) path
    have hplace : (t.inodes.ensure path).1.place (t.inodes.ensure path).2 = some path := by
      rw [hgives.place, Function.update_self]
    obtain ⟨handles, handle, hopened, hsound, hbuffers⟩ :=
      (h.give hgives).openResident (by omega) hplace flags
    obtain ⟨inodes, i, hlookup, hdone⟩ := hsound.recordLookup (by omega) path
      fun _ generation => .created (t.inodes.ensure path).2 generation handle
    dsimp only
    rw [hopened]
    dsimp only
    rw [hlookup]
    exact ⟨hdone, fun _ hfailed => (by cases hfailed), fun hpanic => (by cases hpanic),
      fun _ => hbuffers⟩

theorem Sound.createFileChild (h : t.Sound used) (hroom : used + 5 < 2 ^ 64) (parentInode : ℕ)
    (name : String) (flags : OpenFlags) :
    t.Follows (t.createFileChild a parentInode name flags) (used + 3) writing := by
  have hle : used ≤ used + 3 := Nat.le_add_right _ _
  rw [MountTables.createFileChild]
  split_ifs
  · exact h.refused hle _
  · cases t.childPath a parentInode name with
    | error e => exact h.refused hle e
    | ok path =>
      dsimp only
      cases a.checked with
      | error e => exact h.refused hle e
      | ok =>
        dsimp only
        split_ifs
        · exact h.registerScratchCreate hroom path flags
        · exact h.registerResidentCreate hroom path flags

theorem Sound.ensureChildren (path : String) (names : List String) : ∀ {t : MountTables} {used : ℕ},
    t.Sound used → used + names.length + 3 < 2 ^ 64 →
      (⟨(ensureChildren path t.inodes names).1, t.handles⟩ : MountTables).Sound
        (used + names.length) := by
  induction names with
  | nil => exact fun h _ => h
  | cons name names ih =>
    intro t used h hroom
    rw [List.length_cons] at hroom ⊢
    rw [MountTables.ensureChildren]
    cases child path name with
    | none => exact (ih h (by omega)).mono (by omega)
    | some childPath =>
      have hgiven := h.give (h.numbered.ensure (h.room (by omega)) childPath)
      exact (ih hgiven (by omega)).mono (by omega)

theorem Sound.directoryEntries (h : t.Sound used) (hroom : used + a.names.length + 4 < 2 ^ 64)
    (inode : ℕ) : t.Follows (t.directoryEntries a inode) (used + (a.names.length + 1)) writing := by
  have hle : used ≤ used + (a.names.length + 1) := Nat.le_add_right _ _
  rw [MountTables.directoryEntries]
  cases t.inodes.place inode with
  | none => exact h.refused hle _
  | some path =>
    dsimp only
    cases a.directory path with
    | error e => exact h.refused hle e
    | ok =>
      have hgiven := h.give (h.numbered.ensure (h.room (by omega)) (parent path))
      have hlisted := hgiven.ensureChildren path a.names (by omega)
      exact .of_states (hlisted.mono (by omega)) rfl fun hpanic => (by cases hpanic)

theorem Sound.openInode (h : t.Sound used) (hroom : used + 1 < 2 ^ 64) (inode : ℕ)
    (flags : OpenFlags) : t.Follows (t.openInode a inode flags) (used + 1) writing := by
  have hle := Nat.le_succ used
  rw [MountTables.openInode]
  by_cases hrefused : flags.refused = true
  · rw [if_pos hrefused]
    exact h.refused hle _
  · rw [if_neg hrefused]
    cases hplace : t.inodes.place inode with
    | none => exact h.refused hle _
    | some path =>
      dsimp only
      cases a.checked with
      | error e => exact h.refused hle e
      | ok =>
        dsimp only
        by_cases hscratch : a.isScratch path = true
        · rw [if_pos hscratch]
          cases a.operation with
          | error e => exact h.refused hle e
          | ok =>
            obtain ⟨hsound, hstates⟩ := h.openScratch hroom inode flags
            exact .of_states hsound hstates fun hpanic => (by cases hpanic)
        · rw [if_neg hscratch]
          generalize (if flags.truncate then a.operation else .ok () : Except Errno Unit) = truncated
          cases truncated with
          | error e => exact h.refused hle e
          | ok =>
            obtain ⟨handles, handle, hopened, hsound, hbuffers⟩ := h.openResident hroom hplace flags
            dsimp only
            rw [hopened]
            exact ⟨hsound, fun _ hfailed => (by cases hfailed), fun hpanic => (by cases hpanic),
              fun _ => hbuffers⟩

/-- Paths are removed or moved in both tables, and the bytes that are kept stay. -/
theorem Sound.moved (h : t.Sound used) {inodes : InodeTable} {handles : OpenFileTable}
    (change : ResidentLocation → ResidentLocation)
    (hdetached : ∀ bytes, change (.detached bytes) = .detached bytes)
    (hnumbered : inodes.Numbered) (hnext : inodes.next = t.inodes.next)
    (htracks : handles.Tracks inodes.place)
    (hfiles : handles.residentFiles = t.handles.removeClosedResidentFiles.residentFiles)
    (hhandles : handles.handles = t.handles.handles)
    (hstates : ∀ i file, handles.residentFiles.get? i = some file →
      handles.states file = change (t.handles.states file)) :
    t.Follows (⟨inodes, handles⟩, .done) (used + 1) writing := by
  have hold : ∀ i file, handles.residentFiles.get? i = some file →
      t.handles.residentFiles.get? i = some file := by
    intro i file hfile
    rw [hfiles] at hfile
    exact removeClosed_get hfile
  refine ⟨h.onTables hnumbered hnext htracks hold hhandles, fun _ hfailed => (by cases hfailed),
    fun hpanic => (by cases hpanic), fun _ number handle file bytes hget hbackend hbytes => ?_⟩
  rw [← hhandles] at hget
  have hfile := htracks.handles number handle file hget hbackend
  dsimp only
  rw [hstates _ file hfile, hbytes, hdetached]

/-- The workspace refuses, or its content cannot be read. -/
theorem Sound.left (h : t.Sound used) (e : Errno) :
    t.Follows (⟨t.inodes, t.handles.removeClosedResidentFiles⟩, .error e) (used + 1) writing :=
  .of_states (h.removeClosed.mono (Nat.le_succ _)) rfl fun hpanic => (by cases hpanic)

theorem Sound.removeChild (h : t.Sound used) {parentInode : ℕ} {name : String}
    (hallowed : t.Allowed a (.unlink parentInode name)) :
    t.Follows (t.removeChild a parentInode name) (used + 1) writing := by
  have hle := Nat.le_succ used
  rw [MountTables.removeChild]
  cases hpath : t.childPath a parentInode name with
  | error e => exact h.refused hle e
  | ok path =>
    dsimp only
    cases hchecked : a.checked with
    | error e => exact h.refused hle e
    | ok =>
      have hne := childPath_ne_empty hpath
      obtain ⟨hnumbered, hnext, hplace⟩ := h.numbered.removePath hne
      dsimp only
      by_cases hscratch : a.isScratch path = true
      · rw [if_pos hscratch]
        cases a.operation with
        | error e => exact h.refused hle e
        | ok =>
          have htracks := h.tracks.removePath (hallowed path hpath hscratch hchecked)
          rw [← hplace] at htracks
          exact .of_states (h.onTables hnumbered hnext htracks (fun _ _ hfile => hfile) rfl) rfl
            fun hpanic => (by cases hpanic)
      · rw [if_neg hscratch]
        rcases h.tracks.unlink hne a.load a.operation with
          ⟨e, heq⟩ | ⟨-, states, paths, heq, hstates, htracks⟩
        · rw [heq]
          exact h.left e
        · rw [heq]
          rw [← hplace] at htracks
          exact h.moved (detachedBy (sameOrDescendant · path) a.load) (fun _ => rfl) hnumbered hnext
            htracks rfl rfl hstates

/-- The rename itself, where the disk or the resident workspace has both paths. -/
theorem Sound.renamePaths (h : t.Sound used) {source destination : String} (hsource : source ≠ "")
    (hdestination : destination ≠ "") (hbelow : sameOrDescendant destination source = false)
    (hallowed : if a.isScratch source then t.handles.NoneIn source ∧ t.handles.NoneIn destination
      else sameOrDescendant source destination = false) :
    t.Follows (t.renamePaths a source destination) (used + 1) writing := by
  obtain ⟨hnumbered, hnext, hplace⟩ := h.numbered.movePath source hdestination
  rw [MountTables.renamePaths]
  by_cases hscratch : a.isScratch source = true
  · rw [if_pos hscratch] at hallowed ⊢
    cases a.operation with
    | error e => exact h.refused (Nat.le_succ used) e
    | ok =>
      have htracks := h.tracks.movePath hallowed.1 hallowed.2
      rw [← hplace] at htracks
      exact .of_states (h.onTables hnumbered hnext htracks (fun _ _ hfile => hfile) rfl) rfl
        fun hpanic => (by cases hpanic)
  · rw [if_neg hscratch] at hallowed ⊢
    rcases h.tracks.rename hsource hdestination hbelow hallowed a.load a.operation with
      ⟨e, heq⟩ | ⟨-, states, paths, heq, hstates, htracks⟩
    · rw [heq]
      exact h.left e
    · rw [heq]
      rw [← hplace] at htracks
      exact h.moved
        (fun location =>
          movedBy source destination (detachedBy (sameOrDescendant · destination) a.load location))
        (fun _ => rfl) hnumbered hnext htracks rfl rfl hstates

theorem Sound.renameChild (h : t.Sound used) {parentInode newParentInode : ℕ}
    {oldName newName : String}
    (hallowed : t.Allowed a (.rename parentInode oldName newParentInode newName)) :
    t.Follows (t.renameChild a parentInode oldName newParentInode newName) (used + 1) writing := by
  have hle := Nat.le_succ used
  rw [MountTables.renameChild]
  cases hsource : t.childPath a parentInode oldName with
  | error e => exact h.refused hle e
  | ok source =>
    cases hdestination : t.childPath a newParentInode newName with
    | error e => exact h.refused hle e
    | ok destination =>
      dsimp only
      by_cases hsame : source = destination
      · rw [if_pos hsame]
        exact .of_states (h.mono hle) rfl fun hpanic => (by cases hpanic)
      · rw [if_neg hsame]
        by_cases hstorage : a.isScratch source = a.isScratch destination
        · rw [if_neg (not_not.mpr hstorage)]
          cases hpresent : a.present source with
          | error e => exact h.refused hle e
          | ok =>
            dsimp only
            by_cases hbelow : sameOrDescendant destination source = true
            · rw [if_pos hbelow]
              exact h.refused hle _
            · rw [if_neg hbelow]
              cases hchecked : a.checked with
              | error e => exact h.refused hle e
              | ok =>
                exact h.renamePaths (childPath_ne_empty hsource) (childPath_ne_empty hdestination)
                  (Bool.eq_false_iff.mpr hbelow)
                  (hallowed source destination hsource hdestination hsame hstorage hpresent hchecked)
        · rw [if_pos hstorage]
          exact h.refused hle _

theorem Sound.takeHandle (h : t.Sound used) (request inode handle : ℕ) :
    t.Follows (t.takeHandle request inode handle) (used + 1) writing := by
  rw [MountTables.takeHandle]
  cases t.handles.taken.get? request with
  | some other => exact h.refused (Nat.le_succ _) _
  | none =>
    cases hentry : t.handles.get handle inode with
    | error e => exact h.refused (Nat.le_succ _) e
    | ok entry =>
      have hsound := h.onHandles (h.tracks.take request (get_eq_ok hentry)) h.known
        (h.count.trans (Nat.le_succ _)) (Nat.le_succ _)
      exact .of_states hsound rfl fun hpanic => (by cases hpanic)

theorem Sound.dropTaken (h : t.Sound used) (request : ℕ) : (t.dropTaken request).Sound used :=
  h.onHandles (h.tracks.drop request) h.known h.count (le_refl _)

theorem Sound.setStates (h : t.Sound used) {states : StateId → ResidentLocation}
    (hlinked : ∀ file, (states file).linkedPath = (t.handles.states file).linkedPath) :
    (t.setStates states).Sound used :=
  h.onHandles (h.tracks.withStates hlinked) h.known h.count (le_refl _)

theorem reply_ne_panicked (result : Except Errno Unit) : reply result ≠ .panicked := by
  cases result <;> exact fun hpanic => (by cases hpanic)

theorem reply_eq_error {result : Except Errno Unit} {e : Errno} (h : reply result = .error e) :
    result = .error e := by
  cases result with
  | ok => cases h
  | error other => exact congrArg _ (Reply.error.inj h)

theorem Sound.readTaken (h : t.Sound used) (request offset size : ℕ) :
    t.Follows (t.readTaken a request offset size) (used + 1) writing := by
  rw [MountTables.readTaken]
  cases t.handles.taken.get? request with
  | none => exact h.refused (Nat.le_succ _) _
  | some handle =>
    refine .of_states ((h.dropTaken request).mono (Nat.le_succ _)) rfl ?_
    dsimp only
    cases handle.read t.handles.states offset size a.load a.readScratch <;>
      exact fun hpanic => (by cases hpanic)

theorem Sound.writeTaken (h : t.Sound used) (request offset : ℕ) (data : List UInt8) :
    t.Follows (t.writeTaken a request offset data) (used + 1) true := by
  rw [MountTables.writeTaken]
  cases t.handles.taken.get? request with
  | none => exact h.refused (Nat.le_succ _) _
  | some handle =>
    have hsound := h.setStates (handle.write_linkedPath offset data a.changeLinked a.changeScratch)
    exact ⟨(hsound.dropTaken request).mono (Nat.le_succ _),
      fun e hfailed => handle.write_failed (reply_eq_error hfailed), reply_ne_panicked _,
      fun hno => (by cases hno)⟩

theorem Sound.resizeOpen (h : t.Sound used) (inode handle size : ℕ) :
    t.Follows (t.resizeOpen a inode handle size) (used + 1) true := by
  rw [MountTables.resizeOpen]
  cases t.handles.get handle inode with
  | error e => exact h.refused (Nat.le_succ _) e
  | ok entry =>
    have hsound := h.setStates (entry.resize_linkedPath size a.changeLinked a.changeScratch)
    exact ⟨hsound.mono (Nat.le_succ _),
      fun e hfailed => entry.resize_failed (reply_eq_error hfailed), reply_ne_panicked _,
      fun hno => (by cases hno)⟩

theorem Sound.release (h : t.Sound used) (inode handle : ℕ) :
    t.Follows (t.release inode handle) (used + 1) writing := by
  rw [MountTables.release, OpenFileTable.release]
  cases t.handles.get handle inode with
  | error e => exact h.refused (Nat.le_succ _) e
  | ok entry =>
    have herased := h.tracks.release handle
    have hknown : ∀ i file, ({ t.handles with handles := t.handles.handles.erase handle } :
        OpenFileTable).removeClosedResidentFiles.residentFiles.get? i = some file →
          t.handles.residentFiles.get? i = some file := by
      intro i file hfile
      have hopen := removeClosed_get hfile
      exact hopen
    have hcount : (t.handles.handles.erase handle).keys.card ≤ used + 1 := by
      rw [FiniteMap.keys_erase]
      exact Finset.card_erase_le.trans (h.count.trans (Nat.le_succ _))
    have hsound := h.onHandles herased (fun i file hfile => h.known i file (hknown i file hfile))
      hcount (Nat.le_succ _)
    exact .of_states hsound rfl fun hpanic => (by cases hpanic)

theorem Sound.forget (h : t.Sound used) (inode count : ℕ) :
    t.Follows (⟨t.inodes.forget inode count, t.handles⟩, .done) (used + 1) writing := by
  obtain ⟨hnumbered, hplace, hnext⟩ := h.numbered.forget inode count
  have htracks : t.handles.Tracks (t.inodes.forget inode count).place := by
    rw [hplace]
    exact h.tracks
  have hsound := h.onTables hnumbered hnext htracks (fun _ _ hfile => hfile) rfl
  exact .of_states hsound rfl fun hpanic => (by cases hpanic)

theorem Sound.step (h : t.Sound used) {callback : Callback}
    (hroom : used + cost a callback + 3 < 2 ^ 64) (hallowed : t.Allowed a callback) :
    t.Follows (t.step a callback) (used + cost a callback) (writes callback) := by
  cases callback with
  | lookup parent name => exact h.lookupChild (Nat.lt_of_succ_lt hroom) parent name
  | forget inode count => exact h.forget inode count
  | mkdir parent name => exact h.createDirectoryChild (Nat.lt_of_succ_lt hroom) parent name
  | create parent name flags =>
    exact h.createFileChild (by simp only [cost] at hroom; omega) parent name flags
  | readdir inode => exact h.directoryEntries (by simp only [cost] at hroom; omega) inode
  | openFile inode flags =>
    exact h.openInode (by simp only [cost] at hroom; omega) inode flags
  | unlink parent name => exact h.removeChild hallowed
  | rename parent name newParent newName => exact h.renameChild hallowed
  | take request inode handle => exact h.takeHandle request inode handle
  | read request offset size => exact h.readTaken request offset size
  | write request offset data => exact h.writeTaken request offset data
  | resize inode handle size => exact h.resizeOpen inode handle size
  | release inode handle => exact h.release inode handle

theorem Sound.run {callbacks : List (Answers × Callback)} : ∀ {t : MountTables} {used : ℕ},
    t.Sound used → used + totalCost callbacks + 3 < 2 ^ 64 → t.AllAllowed callbacks →
      (t.run callbacks).Sound (used + totalCost callbacks) := by
  induction callbacks with
  | nil => exact fun h _ _ => h
  | cons c callbacks ih =>
    intro t used h hroom hallowed
    have hcost : totalCost (c :: callbacks) = cost c.1 c.2 + totalCost callbacks := rfl
    have hstep := h.step (by omega) hallowed.1
    have hrun := ih hstep.sound (by omega) hallowed.2
    rw [hcost, ← Nat.add_assoc]
    exact hrun

theorem allAllowed_append {callback : Callback} (callbacks : List (Answers × Callback)) :
    ∀ {t : MountTables}, t.AllAllowed (callbacks ++ [(a, callback)]) →
      t.AllAllowed callbacks ∧ (t.run callbacks).Allowed a callback := by
  induction callbacks with
  | nil => exact fun h => ⟨trivial, h.1⟩
  | cons c callbacks ih =>
    intro t h
    obtain ⟨hallowed, hlast⟩ := ih h.2
    exact ⟨⟨h.1, hallowed⟩, hlast⟩

theorem totalCost_append (callbacks : List (Answers × Callback)) (callback : Callback) :
    totalCost (callbacks ++ [(a, callback)]) = totalCost callbacks + cost a callback := by
  rw [totalCost, List.map_append, List.sum_append, List.map_singleton, List.sum_singleton]
  rfl

/-- After any callbacks, the index of paths finds exactly the open states that are linked, the state
of a resident handle is linked where its inode is, and two of them share a state exactly when they are
on one inode. A callback that fails next leaves every state as it was, none panics, and an open handle
on a file that is no longer linked keeps its bytes until a write or a resize. -/
theorem open_handles_follow (callbacks : List (Answers × Callback)) (a : Answers)
    (callback : Callback) (hroom : totalCost (callbacks ++ [(a, callback)]) + 3 < 2 ^ 64)
    (hallowed : new.AllAllowed (callbacks ++ [(a, callback)])) :
    let t := new.run callbacks
    (∀ path inode, t.handles.residentPaths.get? path = some inode ↔
      ∃ file, t.handles.residentFiles.get? inode = some file ∧
        t.handles.states file = .linked path) ∧
    (∀ number handle file, t.handles.handles.get? number = some handle →
      handle.backend = .resident file →
        (t.handles.states file).linkedPath = t.inodes.place handle.inode) ∧
    (∀ number handle file number' handle' file', t.handles.handles.get? number = some handle →
      handle.backend = .resident file → t.handles.handles.get? number' = some handle' →
        handle'.backend = .resident file' → (file = file' ↔ handle.inode = handle'.inode)) ∧
    (∀ e, (t.step a callback).2 = .error e →
      (t.step a callback).1.handles.states = t.handles.states) ∧
    (t.step a callback).2 ≠ .panicked ∧
    (writes callback = false → ∀ number handle file bytes,
      t.handles.handles.get? number = some handle → handle.backend = .resident file →
        t.handles.states file = .detached bytes →
          (t.step a callback).1.handles.states file = .detached bytes) := by
  intro t
  rw [totalCost_append] at hroom
  obtain ⟨hallowed, hlast⟩ := allAllowed_append callbacks hallowed
  have hsound : t.Sound (0 + totalCost callbacks) := new_sound.run (by omega) hallowed
  have hstep := hsound.step (by omega) hlast
  have htracks := hsound.tracks
  refine ⟨fun path inode => (htracks.indexed path inode).trans place_eq_some,
    fun number handle file hget hbackend =>
      htracks.synced _ _ (htracks.handles number handle file hget hbackend),
    fun number handle file number' handle' file' hget hbackend hget' hbackend' => ?_,
    hstep.failed, hstep.answered, hstep.buffers⟩
  have hfile := htracks.handles number handle file hget hbackend
  have hfile' := htracks.handles number' handle' file' hget' hbackend'
  constructor
  · rintro rfl
    exact htracks.once _ _ _ hfile hfile'
  · intro hsame
    rw [← hsame, hfile] at hfile'
    exact Option.some.inj hfile'

namespace TestVectors

/-- Only `t` is on the disk. -/
def granted : Answers :=
  ⟨fun path => path == "t", fun _ => .ok (), fun _ => .ok (), .ok (), fun _ => .ok [7], .ok (), .ok (),
    [], fun _ => .ok (), .ok [], .ok ()⟩

/-- A file replaces another one, and all are open. -/
def replacing : List (Answers × Callback) :=
  [(granted, .create 1 "a" ⟨.readWrite, false⟩), (granted, .create 1 "b" ⟨.readWrite, false⟩),
    (granted, .create 1 "t" ⟨.readWrite, false⟩), (granted, .openFile 4 ⟨.readOnly, false⟩),
    (granted, .rename 1 "a" 1 "b")]

theorem open_handles_follow_replacing :
    ((new.run replacing).step granted (.unlink 1 "t")).1.handles.states 1 = .detached [7] := by
  have hallowed : new.AllAllowed (replacing ++ [(granted, .unlink 1 "t")]) := by
    refine ⟨trivial, trivial, trivial, trivial, ?_, ?_, trivial⟩
    · intro source destination hsource hdestination _ _ _ _
      have ha : (new.run (replacing.take 4)).childPath granted 1 "a" = .ok "a" := by decide
      have hb : (new.run (replacing.take 4)).childPath granted 1 "b" = .ok "b" := by decide
      cases ha.symm.trans hsource
      cases hb.symm.trans hdestination
      exact (by decide : sameOrDescendant "a" "b" = false)
    · intro path hpath _ _
      have ht : (new.run replacing).childPath granted 1 "t" = .ok "t" := by decide
      cases ht.symm.trans hpath
      exact (by decide : (new.run replacing).handles.NoneIn "t")
  obtain ⟨-, -, -, -, -, hbuffers⟩ :=
    open_handles_follow replacing granted (.unlink 1 "t") (by decide) hallowed
  exact hbuffers rfl 2 ⟨3, ⟨true, true⟩, .resident 1⟩ 1 [7] (by decide) rfl (by decide)

end TestVectors

end MountTables

end UnixVfs
