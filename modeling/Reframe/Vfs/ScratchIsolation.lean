import Reframe.Vfs.WinFsp

/-! Runs of WinFsp callbacks keep scratch paths out of the resident tree and of the journal, as long
as no rename of a directory carries a path from below it onto a scratch rule; and they keep the shape
of the tree. -/
namespace Workspace
open NormalizedPath

namespace VfsPath

/-- Everything above a path is its parent or above that. -/
theorem parent_covers {p q : NormalizedPath} (h : p.IsBelow q) :
    ∃ d, parent (some p) = some d ∧ d.IsWithin q := by
  have hlt := h.length_lt
  have hpos := List.length_pos_of_ne_nil q.nonempty
  have hne : p.parts.take (p.parts.length - 1) ≠ [] := by
    rw [← List.length_pos_iff, List.length_take]
    omega
  refine ⟨⟨p.parts.take (p.parts.length - 1), hne⟩, dif_neg hne, ?_⟩
  exact List.prefix_take_iff.mpr ⟨h.1, by omega⟩

end VfsPath

section

variable [Blake3]

namespace WinFsp
namespace Runtime
open ResidentState ResidentWorkspace

variable {r : Runtime} {op : Op} {call : ResidentOp}

theorem above_mem (hclosed : r.resident.state.Closed) {p : NormalizedPath}
    (hparent : r.resident.isDirectory (VfsPath.parent (some p)) = true) {q : NormalizedPath}
    (h : p.IsBelow q) : q ∈ r.resident.state.directories := by
  obtain ⟨d, hd, hwithin⟩ := VfsPath.parent_covers h
  rw [hd] at hparent
  have hmem : d ∈ r.resident.state.directories := of_decide_eq_true hparent
  rcases isWithin_iff.mp hwithin with rfl | hbelow
  · exact hmem
  · exact hclosed d q (.inr hmem) hbelow

/-- A call makes a path only below a resident directory. -/
theorem Calls.parent (h : Calls r op call) (hclosed : r.resident.state.Closed) :
    ∀ path ∈ call.created, ∃ p : NormalizedPath, path = p.asStr ∧
      ∀ q, p.IsBelow q → q ∈ r.resident.state.directories := by
  intro path hcreated
  cases h with
  | createDirectory hnew hparent =>
    cases hcreated
    exact ⟨_, rfl, fun q hq => above_mem hclosed hparent hq⟩
  | createFile hnew hparent =>
    cases hcreated
    exact ⟨_, rfl, fun q hq => above_mem hclosed hparent hq⟩
  | rename hparent =>
    cases hcreated
    exact ⟨_, rfl, fun q hq => above_mem hclosed hparent hq⟩
  | inPlace hnone =>
    rw [hnone] at hcreated
    cases hcreated

/-- Only a new file is written by its path. -/
theorem Calls.writesFiles (h : Calls r op call) : r.resident.WritesFiles call := by
  intro path hwritten p hparse
  cases h with
  | createDirectory hnew hparent => cases hwritten
  | createFile hnew hparent =>
    cases hwritten
    rw [parseStr_asStr] at hparse
    cases hparse
    simp only [containsPath, Bool.or_eq_false_iff, decide_eq_false_iff_not] at hnew
    exact hnew.1
  | rename hparent => cases hwritten
  | inPlace hnone =>
    rw [created_of_written hwritten] at hnone
    cases hnone

theorem closed_step (h : r.resident.state.Closed) : (r.step op).resident.state.Closed := by
  rcases follows_step r op with heq | ⟨call, hcalls, heffect⟩
  · rwa [heq]
  · exact ResidentWorkspace.closed_step h hcalls.writesFiles heffect

/-- The tree keeps its shape under every callback. -/
theorem shaped_step (h : Shaped r.resident.state) : Shaped (r.step op).resident.state := by
  rcases follows_step r op with heq | ⟨call, hcalls, heffect⟩
  · rwa [heq]
  · obtain ⟨hseparate, hclosed⟩ := shaped_iff_separate.mp h
    refine ResidentWorkspace.shaped_step h ⟨fun path hpath p hparse q hq => ?_, hcalls.writesFiles⟩
      heffect
    obtain ⟨p', rfl, habove⟩ := hcalls.parent hclosed path hpath
    rw [parseStr_asStr] at hparse
    cases hparse
    exact hseparate q (habove q (mem_parents.mp hq))

/-- A rename that goes through carries nothing from below the renamed directory onto a scratch
path. -/
def MovesFree (r : Runtime) : Op → Prop
  | .rename (some source) (some destination) replace =>
    r.resident.isDirectory (VfsPath.parent (some destination)) = true →
      r.resident.Moves source.asStr destination.asStr replace source destination →
        r.resident.CarriesFree source destination
  | _ => True

instance (r : Runtime) : DecidablePred r.MovesFree
  | .rename (some _) (some _) _ => inferInstanceAs (Decidable (_ = true → _ → _))
  | .rename none _ _ | .rename (some _) none _ | .create _ _ | .openPath _ _ _ | .overwrite _
  | .write _ _ _ _ _ | .resize _ _ _ | .delete _ | .changes | .markCheckpointed _ => isTrue trivial

theorem Calls.movesFree (h : Calls r op call) (hmoves : r.MovesFree op) :
    r.resident.MovesFree call := by
  cases h with
  | createDirectory hnew hparent => trivial
  | createFile hnew hparent => trivial
  | @rename source p replace hparent =>
    intro origin target hmoved
    obtain ⟨horigin, htarget⟩ := hmoved.allowed.parsed
    rw [parseStr_asStr] at htarget
    cases htarget
    cases source with
    | none => cases horigin
    | some source =>
      rw [show VfsPath.text (some source) = source.asStr from rfl, parseStr_asStr] at horigin
      cases horigin
      exact hmoves hparent hmoved
  | inPlace hnone =>
    cases call with
    | rename source destination replace => cases hnone
    | _ => trivial

theorem scratchFree_step (hclosed : r.resident.state.Closed) (h : r.resident.ScratchFree)
    (hmoves : r.MovesFree op) : (r.step op).resident.ScratchFree := by
  rcases follows_step r op with heq | ⟨call, hcalls, heffect⟩
  · rwa [heq]
  · refine ResidentWorkspace.scratchFree_step h (fun path hpath => ?_) (hcalls.movesFree hmoves)
      heffect
    obtain ⟨p, hp, habove⟩ := hcalls.parent hclosed path hpath
    exact ⟨p, hp, fun q hq => h.resident q (.inr (habove q hq))⟩

end Runtime
end WinFsp

open WinFsp ResidentWorkspace in
/-- Along every run of callbacks in which no rename carries a path from below the renamed directory
onto a scratch path, no path of the tree and no path the journal reports is scratch. -/
theorem WinFsp.scratch_isolated {content : ContentSource}
    {cached : (hash : String) → Option {blob : SoundBlob // blob.1.hashHex = hash}}
    {baseline : Baseline} {scratch : String → Bool} (hcanon : CanonicalRecords baseline)
    {ws : ResidentWorkspace} (hload : loadCached content cached baseline scratch = .ok ws)
    (hfree : ∀ p, ws.state.Resident p ∨ (ws.state.baseline.get? p).isSome = true →
      scratch p.asStr = false) (ops : List Op)
    (hops : Run.Along Runtime.MovesFree Runtime.step ⟨ws, []⟩ ops) :
    (∀ p, (ops.foldl Runtime.step ⟨ws, []⟩).resident.state.Resident p →
        (ops.foldl Runtime.step ⟨ws, []⟩).resident.scratch p.asStr = false) ∧
      ∀ change ∈ (ops.foldl Runtime.step ⟨ws, []⟩).resident.changes.2,
        (ops.foldl Runtime.step ⟨ws, []⟩).resident.scratch change.path = false := by
  obtain ⟨hloaded, rfl⟩ := loadCached_spec hcanon hload
  have hstart : ws.ScratchFree := by
    refine ⟨fun p hp => hfree p (.inl hp), fun p hp => hfree p (.inr hp), fun p hp => ?_⟩
    rw [hloaded.dirty] at hp
    cases hp
  have hrun := Run.foldl_invariant
    (I := fun r : Runtime => r.resident.state.Closed ∧ r.resident.ScratchFree)
    (fun r op hop h => ⟨Runtime.closed_step h.1, Runtime.scratchFree_step h.1 h.2 hop⟩) ops
    ⟨ws, []⟩ hops ⟨hloaded.closed, hstart⟩
  exact ⟨hrun.2.resident, fun change hc => hrun.2.reported hc⟩

end

namespace TestVectors
open WinFsp

/-- The rule `b/?`: one character below `b`. -/
def belowB (path : String) : Bool :=
  match path.toList with
  | ['b', '/', c] => c ≠ '/'
  | _ => false

def directoryA : NormalizedPath := ⟨[⟨"a", by decide⟩], List.cons_ne_nil _ _⟩
def fileInA : NormalizedPath := ⟨[⟨"a", by decide⟩, ⟨"x", by decide⟩], List.cons_ne_nil _ _⟩
def directoryB : NormalizedPath := ⟨[⟨"b", by decide⟩], List.cons_ne_nil _ _⟩
def fileInB : NormalizedPath := ⟨[⟨"b", by decide⟩, ⟨"x", by decide⟩], List.cons_ne_nil _ _⟩
def directoryC : NormalizedPath := ⟨[⟨"c", by decide⟩], List.cons_ne_nil _ _⟩
def fileInC : NormalizedPath := ⟨[⟨"c", by decide⟩, ⟨"x", by decide⟩], List.cons_ne_nil _ _⟩

def unlayered : ResidentWorkspace :=
  match loadCached nestedContent (fun _ => none) ∅ belowB with
  | .ok ws => ws
  | .error _ => ⟨emptyState ∅ ∅, belowB, 0, 0⟩

theorem unlayered_eq : loadCached nestedContent (fun _ => none) ∅ belowB = .ok unlayered := by
  have hok : (loadCached nestedContent (fun _ => none) ∅ belowB).isOk = true := by decide +kernel
  unfold unlayered
  cases h : loadCached nestedContent (fun _ => none) ∅ belowB with
  | ok ws => rfl
  | error e =>
    rw [h] at hok
    cases hok

/-- Neither `a` nor `b` matches the rule, but what is below `a` does so below `b`. -/
def renamedOntoRule : List Op :=
  [.create (some directoryA) true, .create (some fileInA) false,
    .rename (some directoryA) (some directoryB) false]

theorem rename_carries_scratch :
    loadCached nestedContent (fun _ => none) ∅ belowB = .ok unlayered ∧
      (renamedOntoRule.foldl Runtime.step ⟨unlayered, []⟩).resident.state.Resident fileInB ∧
      belowB fileInB.asStr = true ∧
      fileInB.asStr ∈
        (renamedOntoRule.foldl Runtime.step ⟨unlayered, []⟩).resident.changes.2.map (·.path) := by
  refine ⟨unlayered_eq, .inl ?_, by decide +kernel, ?_⟩ <;> decide +kernel

/-- The directory goes elsewhere, and its file is then refused under the rule. -/
def renamedOffRule : List Op :=
  [.create (some directoryA) true, .create (some fileInA) false,
    .rename (some directoryA) (some directoryC) false, .create (some directoryB) true,
    .rename (some fileInC) (some fileInB) false]

theorem scratch_isolated_renamed :
    (renamedOffRule.foldl Runtime.step ⟨unlayered, []⟩).resident.state.Resident fileInC ∧
    ∀ change ∈ (renamedOffRule.foldl Runtime.step ⟨unlayered, []⟩).resident.changes.2,
      (renamedOffRule.foldl Runtime.step ⟨unlayered, []⟩).resident.scratch change.path = false := by
  have hempty : CanonicalRecords ∅ := fun p r h => by cases h
  refine ⟨.inl (by decide +kernel), ?_⟩
  refine (scratch_isolated hempty unlayered_eq (fun p hp => ?_) _ (by decide +kernel)).2
  have hfiles : unlayered.state.files.keys ∪ unlayered.state.directories = ∅ := by decide +kernel
  have hbaseline : unlayered.state.baseline.keys = ∅ := by decide +kernel
  rcases hp with (hfile | hdirectory) | hbaselined
  · have hmem := Finset.mem_union_left unlayered.state.directories (FiniteMap.mem_keys.mpr hfile)
    rw [hfiles] at hmem
    cases hmem
  · have hmem := Finset.mem_union_right unlayered.state.files.keys hdirectory
    rw [hfiles] at hmem
    cases hmem
  · have hmem := FiniteMap.mem_keys.mpr hbaselined
    rw [hbaseline] at hmem
    cases hmem

end TestVectors
end Workspace
