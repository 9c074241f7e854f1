import Reframe.Voice.ModeChanges

/-! What is left of the turns when the voice loop gathers them, after its capture session has ended
normally. -/
namespace ReframeVoice

variable {Audio : Type}

def confirmedCount (es : List (CaptureStreamEvent Audio)) : ℕ :=
  es.countP fun e => e.kind = .confirmed

/-- The last event confirms a turn. -/
def EndsConfirmed (es : List (CaptureStreamEvent Audio)) : Prop :=
  ∃ k c, es.getLast? = some ⟨.confirmed, k, c⟩

theorem confirmedCount_concat (es : List (CaptureStreamEvent Audio)) (e : CaptureStreamEvent Audio) :
    confirmedCount (es ++ [e]) = confirmedCount es + if e.kind = .confirmed then 1 else 0 := by
  unfold confirmedCount
  rw [List.countP_append, List.countP_singleton]
  simp

namespace Session

/-- A turn is confirmed and not yet counted. -/
def uncounted (s : Session Audio) : ℕ :=
  match s.phase with
  | .finishing .. | .rereading _ => 1
  | _ => 0

/-- The session returns when enough turns are confirmed, and confirms the last one before it. -/
structure Counts (config : VoiceConfig) (s : Session Audio)
    (es : List (CaptureStreamEvent Audio)) : Prop where
  count : ¬s.Ended → confirmedCount es = s.completedTurns + s.uncounted
  last : s.uncounted = 1 → EndsConfirmed es
  returned : s.phase = .returned → Complete config (confirmedCount es) ∧ EndsConfirmed es

variable {config : VoiceConfig} {s s' : Session Audio}
  {controller controller' : ConversationModeController}
  {event : Option (CaptureStreamEvent Audio)} {looks : Bool} {es : List (CaptureStreamEvent Audio)}

theorem counts_init (config : VoiceConfig) (controller : ConversationModeController) :
    (Session.init controller : Session Audio).Counts config [] where
  count _ := rfl
  last h := absurd h Nat.zero_ne_one
  returned := nofun

theorem Quiet.uncounted (h : Quiet s.phase) : s.uncounted = 0 ∧ s.phase ≠ .returned := by
  unfold Session.uncounted
  generalize s.phase = phase at h
  cases h <;> exact ⟨rfl, nofun⟩

theorem Onward.uncounted {t : Session Audio} (h : Onward t s.phase) :
    s.uncounted = 0 ∧ s.phase ≠ .returned := by
  unfold Session.uncounted
  generalize s.phase = phase at h
  cases h <;> exact ⟨rfl, nofun⟩

/-- No turn is confirmed by the step, and none is left to count. -/
theorem Counts.silent (h : s.Counts config es) (hended : ¬s.Ended) (hnone : s.uncounted = 0)
    (hsame : s'.completedTurns = s.completedTurns) (hafter : s'.uncounted = 0)
    (hreturned : s'.phase ≠ .returned) : s'.Counts config es where
  count _ := by rw [h.count hended, hsame, hnone, hafter]
  last hlast := absurd (hafter.symm.trans hlast) (by decide)
  returned hphase := absurd hphase hreturned

theorem Counts.append (h : s.Counts config es) (hended : ¬s.Ended) (hnone : s.uncounted = 0)
    {e : CaptureStreamEvent Audio} (he : e.kind ≠ .confirmed)
    (hsame : s'.completedTurns = s.completedTurns) (hafter : s'.uncounted = 0)
    (hreturned : s'.phase ≠ .returned) : s'.Counts config (es ++ [e]) where
  count _ := by rw [confirmedCount_concat, if_neg he, h.count hended, hsame, hnone, hafter]
  last hlast := absurd (hafter.symm.trans hlast) (by decide)
  returned hphase := absurd hphase hreturned

theorem Moved.counts (h : Moved config s controller s' controller' event looks)
    (hs : s.Counts config es) (hended : ¬s.Ended) : s'.Counts config (es ++ event.toList) := by
  have hnone : ∀ {phase}, s.phase = phase →
      (match phase with | .finishing .. | .rereading _ => 1 | _ => 0) = 0 → s.uncounted = 0 := by
    rintro phase rfl h
    exact h
  cases h with
  | fails error =>
    rw [Option.toList_none, List.append_nil]
    exact ⟨fun h => absurd (.inr ⟨error, rfl⟩) h, fun h => absurd h Nat.zero_ne_one, nofun⟩
  | starts rest deadline phase hphase hq =>
    rw [Option.toList_none, List.append_nil]
    refine hs.silent hended (hnone hphase rfl) ?_ hq.uncounted.1 hq.uncounted.2
    rfl
  | hears frame now hphase =>
    rw [Option.toList_none, List.append_nil]
    refine hs.silent hended (hnone hphase rfl) ?_ ?_ nofun
    · rfl
    · rfl
  | restarts frame now hphase =>
    rw [Option.toList_none, List.append_nil]
    refine hs.silent hended (hnone hphase rfl) ?_ ?_ nofun
    · rfl
    · rfl
  | accepts frame now state phase hphase hmode hstate hswitch ho =>
    rw [Option.toList_none, List.append_nil]
    refine hs.silent hended (hnone hphase rfl) ?_ ho.uncounted.1 ho.uncounted.2
    rfl
  | opens c rest phase hphase hq =>
    refine hs.append hended (hnone hphase rfl) nofun ?_ hq.uncounted.1 hq.uncounted.2
    rfl
  | opensFinal c rest hphase =>
    refine hs.append hended (hnone hphase rfl) nofun ?_ ?_ nofun
    · rfl
    · rfl
  | resumes k now phase hphase hq =>
    refine hs.append hended (hnone hphase rfl) nofun ?_ hq.uncounted.1 hq.uncounted.2
    rfl
  | confirms k c rest hphase =>
    refine ⟨fun _ => ?_, fun _ => ⟨k, some c, List.getLast?_concat⟩, nofun⟩
    rw [Option.toList_some, confirmedCount_concat, hs.count hended, hnone hphase rfl]
    rfl
  | sets c rest hphase =>
    rw [Option.toList_none, List.append_nil]
    have hone : s.uncounted = 1 := by
      unfold Session.uncounted
      rw [hphase]
    refine ⟨fun _ => ?_, fun _ => hs.last hone, nofun⟩
    rw [hs.count hended, hone]
    rfl
  | rereads rest phase hphase hnext =>
    rw [Option.toList_none, List.append_nil]
    have hone : s.uncounted = 1 := by
      unfold Session.uncounted
      rw [hphase]
    have hcount := hs.count hended
    rw [hone] at hcount
    rcases hnext with ⟨rfl, -⟩ | ⟨rfl, hcomplete⟩
    · exact ⟨fun _ => hcount, fun h => absurd h Nat.zero_ne_one, nofun⟩
    · exact ⟨fun h => absurd (.inl rfl) h, fun h => absurd h Nat.zero_ne_one,
        fun _ => ⟨hcount ▸ hcomplete, hs.last hone⟩⟩

end Session
namespace Turn

theorem discarded_cancel {t : Turn Audio} (h : t.control.isSome = true) :
    t.cancelControl.cancelTask.Discarded := by
  obtain ⟨control, hcontrol⟩ := Option.isSome_iff_exists.mp h
  refine .inr ?_
  unfold cancelTask
  split <;> simp [cancelControl, isCancelled, hcontrol]

theorem discarded_commit {t : Turn Audio} : t.commit.Discarded ↔ t.Discarded := by
  unfold Discarded isCancelled commit
  rw [Option.any_map]

end Turn

namespace System

variable {config : VoiceConfig} {services : Services Audio} {s s' : System Audio}

/-- The callback that ends the worker comes after its events. -/
inductive Pipeline (session : Session Audio) :
    List (Callback Audio) → Option WorkerOutcome → Prop
  | running (es : List (CaptureStreamEvent Audio)) (h : completion? session = none) :
    Pipeline session (es.map .put) none
  | ending (es : List (CaptureStreamEvent Audio)) (outcome : WorkerOutcome)
    (h : completion? session = some outcome) :
    Pipeline session (es.map .put ++ [.complete outcome]) none
  | ended (outcome : WorkerOutcome) (h : completion? session = some outcome) :
    Pipeline session [] (some outcome)

/-- The session counts its turns, and its outcome is the last thing that the loop hears of it. -/
structure Reports (config : VoiceConfig) (s : System Audio) : Prop where
  counts : s.session.Counts config (emittedEvents s.log)
  pipeline : Pipeline s.session s.posted s.worker

theorem reports_start (config : VoiceConfig) (mode : ConversationMode) :
    (start mode : System Audio).Reports config where
  counts := Session.counts_init config _
  pipeline := .running [] rfl

theorem Reports.of_same (h : s.Reports config) (hsession : s'.session = s.session)
    (hposted : s'.posted = s.posted) (hworker : s'.worker = s.worker)
    (hemitted : emittedEvents s'.log = emittedEvents s.log) : s'.Reports config where
  counts := by
    rw [hsession, hemitted]
    exact h.counts
  pipeline := by
    rw [hsession, hposted, hworker]
    exact h.pipeline

theorem Reports.capture (h : s.Reports config) (hplain : s.session.Plain) (input : Input Audio) :
    (s.capture config input).Reports config := by
  rcases capture_cases config s input hplain with
    ⟨-, heq⟩ | ⟨hended, session, controller, event, hmoved, heq⟩
  · rwa [heq]
  · rw [heq]
    constructor
    · have hemitted : emittedEvents (s.log ++
          (event.map fun e => .emitted e s.session.segmenter).toList) =
          emittedEvents s.log ++ event.toList := by
        rw [emittedEvents, emissions_append, List.map_append]
        cases event <;> rfl
      exact hemitted ▸ hmoved.counts h.counts hended
    · have hpipeline := h.pipeline
      have hnone := completion?_eq_none.mpr hended
      change Pipeline session (s.posted ++ _ ++ _) s.worker
      generalize s.posted = posted at *
      generalize s.worker = worker at *
      cases hpipeline with
      | running es =>
        have hmap : es.map Callback.put ++ (event.map Callback.put).toList =
            (es ++ event.toList).map Callback.put := by
          rw [List.map_append]
          cases event <;> rfl
        rw [hmap]
        cases hafter : completion? session with
        | none =>
          rw [Option.map_none, Option.toList_none, List.append_nil]
          exact .running _ hafter
        | some outcome => exact .ending _ outcome hafter
      | ending es outcome h =>
        rw [hnone] at h
        cases h
      | ended outcome h =>
        rw [hnone] at h
        cases h

theorem Reports.deliver (h : s.Reports config) : s.deliver.Reports config := by
  have hpipeline := h.pipeline
  unfold System.deliver
  split
  · exact h
  · rename_i e posted hposted
    refine ⟨h.counts, ?_⟩
    change Pipeline s.session posted s.worker
    rw [hposted] at hpipeline
    generalize hp : Callback.put e :: posted = all at hpipeline
    generalize s.worker = worker at *
    cases hpipeline with
    | running es hnone =>
      cases es with
      | nil => cases hp
      | cons e' es =>
        cases hp
        exact .running es hnone
    | ending es outcome hsome =>
      cases es with
      | nil => cases hp
      | cons e' es =>
        cases hp
        exact .ending es outcome hsome
    | ended => cases hp
  · rename_i outcome posted hposted
    refine ⟨h.counts, ?_⟩
    change Pipeline s.session posted (some outcome)
    rw [hposted] at hpipeline
    generalize hp : Callback.complete outcome :: posted = all at hpipeline
    generalize s.worker = worker at *
    cases hpipeline with
    | running es hnone =>
      cases es with
      | nil => cases hp
      | cons e' es => cases hp
    | ending es outcome' hsome =>
      cases es with
      | nil =>
        cases hp
        exact .ended outcome hsome
      | cons e' es => cases hp
    | ended => cases hp

/-- When the worker has returned and its events are handled, the last one has confirmed the last
turn. -/
theorem Reports.handled_of_returned (h : s.Reports config) (hf : s.Flows) (hqueue : s.queue = [])
    (hworker : s.worker = some .returned) :
    EndsConfirmed (handledEvents s.log) ∧
      Session.Complete config (confirmedCount (handledEvents s.log)) := by
  have hpipeline := h.pipeline
  have hflow := h.counts.returned
  rw [hf.flow, hqueue] at hflow
  rw [hworker] at hpipeline
  generalize s.posted = posted at *
  cases hpipeline with
  | ended _ hcompletion =>
    have hphase : s.session.phase = .returned := by
      unfold completion? at hcompletion
      split at hcompletion
      · assumption
      · cases hcompletion
      · cases hcompletion
    obtain ⟨hcomplete, hends⟩ := hflow hphase
    rw [List.append_nil] at hcomplete hends
    exact ⟨by simpa [puts] using hends, by simpa [puts] using hcomplete⟩

/-! The turns while the loop runs. -/

/-- Every turn but the active one is confirmed, or cancelled and not both. -/
structure Tidy (s : System Audio) (o : Option (ℕ × CaptureResult Audio)) : Prop where
  active : match o with
    | none => s.active = none
    | some (k, _) => ∃ i t, s.active = some i ∧ s.activeTurnId = some k ∧
        s.turns[i]? = some t ∧ t.isCommitted = false ∧ ¬t.Discarded
  settled : ∀ i t, s.turns[i]? = some t → s.active ≠ some i → t.isCommitted = true ∨ t.Discarded
  kept : ∀ {i : ℕ} {t : Turn Audio}, s.turns[i]? = some t → t.isCommitted = true → ¬t.Discarded
  cancelling : ∀ {i : ℕ} {t : Turn Audio}, s.turns[i]? = some t → Turn.Cancelling t.phase →
    t.Discarded
  tasks : ∀ i ∈ s.tasks, i < s.turns.length

/-- The turns that the loop has cancelled are gone. -/
def Gone (s : System Audio) : Prop :=
  ∀ i t, s.turns[i]? = some t → t.Discarded → t.isFinished = true ∧ i ∉ s.tasks

/-- The confirmation that ends the session is behind. -/
def Last (config : VoiceConfig) (s : System Audio) : Prop :=
  EndsConfirmed (handledEvents s.log) ∧
    Session.Complete config (confirmedCount (handledEvents s.log))

/-- What holds while the loop runs and gathers. -/
structure Orderly (config : VoiceConfig) (s : System Audio) : Prop where
  tidy : ∃ o n, Stream (handledEvents s.log) o n ∧ s.Tidy o
  gone : s.Last config → s.Gone
  gathering : s.loop = .gathering → s.Last config

theorem orderly_start (config : VoiceConfig) (mode : ConversationMode) :
    (start mode : System Audio).Orderly config where
  tidy := ⟨none, 0, .nil, rfl, by simp [start], by simp [start], by simp [start], by simp [start]⟩
  gone := by simp [Gone, start]
  gathering := by simp [start]

/-- A step of a task leaves its cancellation alone. -/
structure Progress (t t' : Turn Audio) : Prop where
  control : t'.control = t.control
  cancelRequested : t'.cancelRequested = t.cancelRequested
  finished : t.isFinished = true → t' = t
  cancelling : Turn.Cancelling t'.phase → t.Discarded ∨ Turn.Cancelling t.phase

theorem progress_of_moved {t t' : Turn Audio} {controller controller' : ConversationModeController}
    {effects : List Effect} (h : t.Moved controller t' controller' effects) : Progress t t' := by
  cases h with
  | stays => exact ⟨rfl, rfl, fun _ => rfl, .inr⟩
  | goes phase hfinished hcancelled => exact ⟨rfl, rfl, by simp [hfinished], hcancelled⟩
  | turnsOn hfinished => exact ⟨rfl, rfl, by simp [hfinished], by simp [Turn.Cancelling]⟩
  | replies text hfinished => exact ⟨rfl, rfl, by simp [hfinished], by simp [Turn.Cancelling]⟩

theorem Progress.discarded {t t' : Turn Audio} (h : Progress t t') :
    t'.Discarded ↔ t.Discarded := by
  unfold Turn.Discarded Turn.isCancelled
  rw [h.control, h.cancelRequested]

theorem Progress.committed {t t' : Turn Audio} (h : Progress t t') :
    t'.isCommitted = t.isCommitted := by
  unfold Turn.isCommitted
  rw [h.control]

/-- A turn task goes on. -/
theorem Orderly.set (h : s.Orderly config) {i : ℕ} {t t' : Turn Audio}
    (ht : s.turns[i]? = some t) (hp : Progress t t') (hturns : s'.turns = s.turns.set i t')
    (hhandled : handledEvents s'.log = handledEvents s.log) (hactive : s'.active = s.active)
    (hactiveId : s'.activeTurnId = s.activeTurnId) (htasks : s'.tasks = s.tasks)
    (hloop : s'.loop = s.loop) : s'.Orderly config := by
  have hat : ∀ {j : ℕ} {u : Turn Audio}, s'.turns[j]? = some u → ∃ u₀, s.turns[j]? = some u₀ ∧ Progress u₀ u := by
    intro j u hu
    rcases getElem?_set_some (hturns ▸ hu) with ⟨rfl, rfl⟩ | hu
    · exact ⟨t, ht, hp⟩
    · exact ⟨u, hu, rfl, rfl, fun _ => rfl, .inr⟩
  have hlast : s'.Last config ↔ s.Last config := by
    unfold Last
    rw [hhandled]
  obtain ⟨o, n, hs, htidy⟩ := h.tidy
  refine ⟨⟨o, n, hhandled ▸ hs, ?_, ?_, ?_, ?_, ?_⟩, ?_, ?_⟩
  · cases o with
    | none => exact hactive.trans htidy.active
    | some p =>
      obtain ⟨j, u, hj, hid, hu, hcommitted, hkept⟩ := htidy.active
      refine ⟨j, if i = j then t' else u, hactive.trans hj, hactiveId.trans hid, ?_⟩
      by_cases hij : i = j
      · subst j
        rw [ht] at hu
        cases hu
        rw [if_pos rfl, hturns, hp.committed, hp.discarded]
        exact ⟨List.getElem?_set_self (List.getElem?_eq_some_iff.mp ht).1, hcommitted, hkept⟩
      · rw [if_neg hij, hturns, List.getElem?_set_ne hij]
        exact ⟨hu, hcommitted, hkept⟩
  · intro j u hu hne
    obtain ⟨u₀, hu₀, hprogress⟩ := hat hu
    rw [hprogress.committed, hprogress.discarded]
    exact htidy.settled j u₀ hu₀ (hactive ▸ hne)
  · intro j u hu hcommitted
    obtain ⟨u₀, hu₀, hprogress⟩ := hat hu
    rw [hprogress.discarded]
    exact htidy.kept hu₀ (hprogress.committed ▸ hcommitted)
  · intro j u hu hcancelling
    obtain ⟨u₀, hu₀, hprogress⟩ := hat hu
    rw [hprogress.discarded]
    rcases hprogress.cancelling hcancelling with hdiscarded | hcancelling
    · exact hdiscarded
    · exact htidy.cancelling hu₀ hcancelling
  · rw [htasks, hturns, List.length_set]
    exact htidy.tasks
  · intro hl j u hu hdiscarded
    obtain ⟨u₀, hu₀, hprogress⟩ := hat hu
    obtain ⟨hfinished, hnot⟩ := h.gone (hlast.mp hl) j u₀ hu₀ (hprogress.discarded.mp hdiscarded)
    rw [hprogress.finished hfinished, htasks]
    exact ⟨hfinished, hnot⟩
  · rw [hloop, hlast]
    exact h.gathering

theorem Orderly.of_same (h : s.Orderly config) (hturns : s'.turns = s.turns)
    (hhandled : handledEvents s'.log = handledEvents s.log) (hactive : s'.active = s.active)
    (hactiveId : s'.activeTurnId = s.activeTurnId) (htasks : s'.tasks = s.tasks)
    (hloop : s'.loop = s.loop) : s'.Orderly config := by
  obtain ⟨o, n, hs, htidy⟩ := h.tidy
  refine ⟨⟨o, n, hhandled ▸ hs, ?_, ?_, ?_, ?_, ?_⟩, ?_, ?_⟩
  · rw [hactive, hactiveId, hturns]
    exact htidy.active
  · rw [hactive, hturns]
    exact htidy.settled
  · rw [hturns]
    exact htidy.kept
  · rw [hturns]
    exact htidy.cancelling
  · rw [hturns, htasks]
    exact htidy.tasks
  · unfold Last Gone
    rw [hhandled, hturns, htasks]
    exact h.gone
  · unfold Last
    rw [hloop, hhandled]
    exact h.gathering

theorem getElem?_modify_some {α : Type} {xs : List α} {i j : ℕ} {f : α → α} {a : α}
    (h : (xs.modify i f)[j]? = some a) :
    ∃ b, xs[j]? = some b ∧ (i = j ∧ a = f b ∨ i ≠ j ∧ a = b) := by
  rw [List.getElem?_modify] at h
  obtain ⟨b, hb, rfl⟩ := Option.map_eq_some_iff.mp h
  refine ⟨b, hb, ?_⟩
  by_cases hij : i = j
  · exact .inl ⟨hij, if_pos hij⟩
  · exact .inr ⟨hij, if_neg hij⟩

/-- Once the active turn is cancelled, every turn is confirmed or cancelled. -/
theorem Tidy.cancelActive {o : Option (ℕ × CaptureResult Audio)} (h : s.Tidy o)
    (hcontrol : ∀ {i : ℕ} {t : Turn Audio}, s.turns[i]? = some t → t.control.isSome = true) :
    ∀ (i : ℕ) (t : Turn Audio), s.cancelActive.turns[i]? = some t →
      (t.isCommitted = true ∨ t.Discarded) ∧ (t.isCommitted = true → ¬t.Discarded) ∧
        (Turn.Cancelling t.phase → t.Discarded) := by
  intro i t ht
  rw [cancelActive_turns] at ht
  cases hactive : s.active with
  | none =>
    simp only [hactive] at ht
    exact ⟨h.settled i t ht (by rw [hactive]; nofun), h.kept ht, h.cancelling ht⟩
  | some a =>
    simp only [hactive] at ht
    obtain ⟨u, hu, ⟨rfl, rfl⟩ | ⟨hne, rfl⟩⟩ := getElem?_modify_some ht
    · have hdiscarded := Turn.discarded_cancel (hcontrol hu)
      have hfalse : u.isCommitted = false := by
        have hopen := h.active
        cases o with
        | none => cases hactive.symm.trans hopen
        | some p =>
          obtain ⟨b, u', hb, -, hu', hcommitted, -⟩ := hopen
          cases hactive.symm.trans hb
          cases hu.symm.trans hu'
          exact hcommitted
      rw [(Turn.same_cancel u).committed, hfalse]
      exact ⟨.inr hdiscarded, nofun, fun _ => hdiscarded⟩
    · exact ⟨h.settled i t hu (by rw [hactive]; simpa using hne), h.kept hu, h.cancelling hu⟩

@[simp] theorem cancelActive_tasks (s : System Audio) : s.cancelActive.tasks = s.tasks := by
  unfold System.cancelActive
  split <;> rfl

/-- The turn of an endpoint is the active one, and the one before it is cancelled. -/
theorem Tidy.endpoint {o : Option (ℕ × CaptureResult Audio)} (h : s.Tidy o)
    (hcontrol : ∀ {i : ℕ} {t : Turn Audio}, s.turns[i]? = some t → t.control.isSome = true) (k : ℕ)
    (c : CaptureResult Audio) : (s.handleEvent ⟨.endpoint, k, some c⟩).Tidy (some (k, c)) := by
  have hcancelled := h.cancelActive hcontrol
  have hlength : s.cancelActive.turns.length = s.turns.length := (SameTurns.cancelActive s).length
  let new : Turn Audio := Turn.new k c (some ⟨false, false⟩)
  have hturns : (s.handleEvent ⟨.endpoint, k, some c⟩).turns = s.cancelActive.turns ++ [new] := rfl
  have hcases : ∀ {i : ℕ} {t : Turn Audio},
      (s.handleEvent ⟨.endpoint, k, some c⟩).turns[i]? = some t →
        s.cancelActive.turns[i]? = some t ∨ i = s.cancelActive.turns.length ∧ t = new := by
    intro i t hi
    rw [hturns, List.getElem?_append] at hi
    split at hi
    · exact .inl hi
    · rename_i hle
      obtain ⟨hlt, heq⟩ := List.getElem?_eq_some_iff.mp hi
      rw [List.length_singleton, Nat.lt_one_iff] at hlt
      refine .inr ⟨by omega, ?_⟩
      rw [← heq]
      exact List.mem_singleton.mp (List.getElem_mem _)
  have hnew : ¬new.Discarded := by
    rintro (h | h)
    · cases h
    · cases h
  constructor
  · refine ⟨s.cancelActive.turns.length, new, rfl, rfl, ?_, rfl, hnew⟩
    rw [hturns, List.getElem?_append_right le_rfl, Nat.sub_self]
    rfl
  · intro i t hi hne
    rcases hcases hi with hi | ⟨rfl, rfl⟩
    · exact (hcancelled i t hi).1
    · exact absurd rfl hne
  · intro i t hi hcommitted
    rcases hcases hi with hi | ⟨rfl, rfl⟩
    · exact (hcancelled i t hi).2.1 hcommitted
    · cases hcommitted
  · intro i t hi hcancelling
    rcases hcases hi with hi | ⟨rfl, rfl⟩
    · exact (hcancelled i t hi).2.2 hcancelling
    · simp [Turn.Cancelling, new, Turn.new] at hcancelling
  · intro i hi
    change i ∈ s.cancelActive.tasks ++ [s.cancelActive.turns.length] at hi
    rw [hturns, List.length_append, List.length_singleton, hlength]
    rw [cancelActive_tasks, hlength] at hi
    rcases List.mem_append.mp hi with hi | hi
    · exact (h.tasks i hi).trans (Nat.lt_succ_self _)
    · rw [List.mem_singleton.mp hi]
      exact Nat.lt_succ_self _

theorem Tidy.resumed {k : ℕ} {c : CaptureResult Audio} (h : s.Tidy (some (k, c)))
    (hcontrol : ∀ {i : ℕ} {t : Turn Audio}, s.turns[i]? = some t → t.control.isSome = true) :
    (s.handleEvent ⟨.resumed, k, none⟩).Tidy none := by
  have hcancelled := h.cancelActive hcontrol
  obtain ⟨i, t, hactive, hid, -⟩ := h.active
  have heq : s.handleEvent ⟨.resumed, k, none⟩ = s.cancelActive.clearActive := by
    unfold handleEvent
    exact if_pos hid
  rw [heq]
  refine ⟨rfl, fun i t hi _ => (hcancelled i t hi).1, fun hi => (hcancelled _ _ hi).2.1,
    fun hi => (hcancelled _ _ hi).2.2, ?_⟩
  change ∀ i ∈ s.cancelActive.tasks, i < s.cancelActive.turns.length
  rw [cancelActive_tasks, (SameTurns.cancelActive s).length]
  exact h.tasks

/-- The active turn is committed. -/
theorem Tidy.confirmed {k : ℕ} {c : CaptureResult Audio} (h : s.Tidy (some (k, c)))
    (hcontrol : ∀ {i : ℕ} {t : Turn Audio}, s.turns[i]? = some t → t.control.isSome = true) :
    (s.handleEvent ⟨.confirmed, k, some c⟩).Tidy none ∧
      (s.handleEvent ⟨.confirmed, k, some c⟩).tasks = s.tasks ∧
      ∀ t ∈ (s.handleEvent ⟨.confirmed, k, some c⟩).turns, t.Discarded →
        ∃ u ∈ s.turns, u.Discarded ∧ u.phase = t.phase := by
  obtain ⟨a, u, hactive, hid, hu, hcommitted, hkept⟩ := h.active
  have happly : (s.applyCaptureMode c).turns = s.turns ∧ (s.applyCaptureMode c).tasks = s.tasks ∧
      (s.applyCaptureMode c).active = s.active ∧
      (s.applyCaptureMode c).activeTurnId = s.activeTurnId := by
    unfold applyCaptureMode
    dsimp only
    split <;> exact ⟨rfl, rfl, rfl, rfl⟩
  obtain ⟨hturns, htasks, hact, hactId⟩ := happly
  have heq : s.handleEvent ⟨.confirmed, k, some c⟩ =
      ((s.applyCaptureMode c).modifyTurn a Turn.commit).clearActive := by
    change ((s.applyCaptureMode c).commitActive k).clearActive = _
    unfold commitActive
    rw [hact, hactive]
    dsimp only
    rw [hactId, if_pos hid]
  have hafter : (s.handleEvent ⟨.confirmed, k, some c⟩).turns = s.turns.modify a Turn.commit := by
    rw [heq, ← hturns]
    rfl
  have hcases : ∀ {i : ℕ} {t : Turn Audio}, (s.handleEvent ⟨.confirmed, k, some c⟩).turns[i]? = some t →
      ∃ v, s.turns[i]? = some v ∧ (a = i ∧ t = v.commit ∨ a ≠ i ∧ t = v) := by
    intro i t hi
    exact getElem?_modify_some (hafter ▸ hi)
  refine ⟨⟨by rw [heq]; rfl, ?_, ?_, ?_, ?_⟩, by rw [heq, ← htasks]; rfl, ?_⟩
  · intro i t hi _
    obtain ⟨v, hv, ⟨rfl, rfl⟩ | ⟨hne, rfl⟩⟩ := hcases hi
    · obtain ⟨control, hsome⟩ := Option.isSome_iff_exists.mp (hcontrol hv)
      exact .inl (by simp [Turn.commit, Turn.isCommitted, hsome])
    · exact h.settled i t hv (by rw [hactive]; simpa using hne)
  · intro i t hi hc
    obtain ⟨v, hv, ⟨rfl, rfl⟩ | ⟨hne, rfl⟩⟩ := hcases hi
    · rw [hu] at hv
      cases hv
      rw [Turn.discarded_commit]
      exact hkept
    · exact h.kept hv hc
  · intro i t hi hc
    obtain ⟨v, hv, ⟨rfl, rfl⟩ | ⟨hne, rfl⟩⟩ := hcases hi
    · rw [Turn.discarded_commit]
      exact h.cancelling hv hc
    · exact h.cancelling hv hc
  · rw [hafter, List.length_modify, heq]
    intro i hi
    exact h.tasks i (htasks ▸ hi)
  · intro t ht hdiscarded
    obtain ⟨i, hi⟩ := List.mem_iff_getElem?.mp ht
    obtain ⟨v, hv, ⟨rfl, rfl⟩ | ⟨hne, rfl⟩⟩ := hcases hi
    · exact ⟨v, List.mem_of_getElem? hv, Turn.discarded_commit.mp hdiscarded, rfl⟩
    · exact ⟨t, List.mem_of_getElem? hv, hdiscarded, rfl⟩

/-- Neither the phase of the loop nor what it has heard of the worker changes. -/
structure SameLoop (s s' : System Audio) : Prop where
  loop : s'.loop = s.loop
  worker : s'.worker = s.worker

theorem SameLoop.trans {s₁ s₂ s₃ : System Audio} (h : s₁.SameLoop s₂) (h' : s₂.SameLoop s₃) :
    s₁.SameLoop s₃ where
  loop := h'.loop.trans h.loop
  worker := h'.worker.trans h.worker

theorem SameLoop.cancelActive (s : System Audio) : s.SameLoop s.cancelActive := by
  unfold System.cancelActive
  split <;> exact ⟨rfl, rfl⟩

theorem SameLoop.applyCaptureMode (s : System Audio) (c : CaptureResult Audio) :
    s.SameLoop (s.applyCaptureMode c) := by
  unfold System.applyCaptureMode
  dsimp only
  split <;> exact ⟨rfl, rfl⟩

theorem SameLoop.commitActive (s : System Audio) (k : ℕ) : s.SameLoop (s.commitActive k) := by
  unfold System.commitActive
  split
  · split <;> exact ⟨rfl, rfl⟩
  · exact ⟨rfl, rfl⟩

theorem SameLoop.handleEvent (s : System Audio) (e : CaptureStreamEvent Audio) :
    s.SameLoop (s.handleEvent e) := by
  unfold System.handleEvent
  split
  · split
    · exact ⟨rfl, rfl⟩
    · exact (SameLoop.cancelActive s).trans ⟨rfl, rfl⟩
  · split
    · exact (SameLoop.cancelActive s).trans ⟨rfl, rfl⟩
    · exact ⟨rfl, rfl⟩
  · dsimp only
    split
    · exact ((SameLoop.applyCaptureMode s _).trans (.commitActive _ _)).trans ⟨rfl, rfl⟩
    · exact (SameLoop.commitActive s _).trans ⟨rfl, rfl⟩
  · split
    · exact ⟨rfl, rfl⟩
    · exact (SameLoop.applyCaptureMode s _).trans ⟨rfl, rfl⟩

theorem raiseCompletedTurnErrors_worker (s : System Audio) :
    s.raiseCompletedTurnErrors.worker = s.worker := by
  unfold raiseCompletedTurnErrors
  split
  · exact (SameLoop.cancelActive s).worker
  · rfl

theorem raiseCompletedTurnErrors_loop (s : System Audio) :
    s.raiseCompletedTurnErrors.loop = s.loop ∨ s.raiseCompletedTurnErrors.loop = .stopping := by
  unfold raiseCompletedTurnErrors
  split
  · exact .inr rfl
  · exact .inl rfl

/-- The loop takes the confirmation that ends the session only when every turn that it has
cancelled has finished. -/
def Clear (config : VoiceConfig) (s : System Audio) : Action Audio → Prop
  | .handle => s.loop = .running → ∀ e ∈ s.queue.head?, e.kind = .confirmed →
      Session.Complete config (confirmedCount (handledEvents s.log) + 1) →
        ∀ t ∈ s.turns, t.Discarded → t.isFinished = true
  | _ => True

instance (config : VoiceConfig) (s : System Audio) (action : Action Audio) :
    Decidable (s.Clear config action) :=
  match action with
  | .handle => inferInstanceAs (Decidable (s.loop = .running → ∀ e ∈ s.queue.head?,
      e.kind = .confirmed → 0 < config.maxTurns ∧
        config.maxTurns ≤ confirmedCount (handledEvents s.log) + 1 →
          ∀ t ∈ s.turns, t.cancelRequested = true ∨ t.isCancelled = true → t.isFinished = true))
  | .capture _ | .deliver | .turn .. | .dispatchConversationModeOff _ | .interrupt
  | .cancelBackgroundTurns => isTrue trivial

/-- The loop takes an event and looks at its tasks again. -/
theorem Orderly.event (h : s.Orderly config) (ha : s.Acts) (hf : s.Flows)
    {e : CaptureStreamEvent Audio} {queue : List (CaptureStreamEvent Audio)}
    (hloop : s.loop = .running) (hqueue : s.queue = e :: queue) (hclear : s.Clear config .handle)
    (hafter : ((({ s with queue } : System Audio).record
      [.handled e]).handleEvent e).raiseCompletedTurnErrors.loop ≠ .stopping) :
    ((({ s with queue } : System Audio).record
      [.handled e]).handleEvent e).raiseCompletedTurnErrors.Orderly config := by
  obtain ⟨o, n, hs, htidy⟩ := h.tidy
  obtain ⟨o', n', hs'⟩ := (hf.take hqueue).handled_stream
  change Stream (handledEvents (s.log ++ [.handled e])) o' n' at hs'
  rw [handledEvents_append] at hs'
  have hlog := (SameFlow.handleEvent (({ s with queue } : System Audio).record [.handled e]) e).log
  change _ = s.log ++ [.handled e] at hlog
  have hrecord : (({ s with queue } : System Audio).record [.handled e]).Tidy o :=
    ⟨htidy.active, htidy.settled, htidy.kept, htidy.cancelling, htidy.tasks⟩
  have hevent : ((({ s with queue } : System Audio).record [.handled e]).handleEvent e).Tidy o' ∧
      (((({ s with queue } : System Audio).record [.handled e]).handleEvent e).Last config →
        ∀ t ∈ ((({ s with queue } : System Audio).record [.handled e]).handleEvent e).turns,
          t.Discarded → t.isFinished = true) := by
    unfold Last
    rw [hlog, handledEvents_append]
    have hends : EndsConfirmed (handledEvents s.log ++ handledEvents [Moment.handled e]) →
        e.kind = .confirmed := by
      rintro ⟨k, c, hlast⟩
      change (handledEvents s.log ++ [e]).getLast? = _ at hlast
      rw [List.getLast?_concat] at hlast
      cases hlast
      rfl
    cases hs'.last with
    | endpoint hes => exact ⟨hrecord.endpoint ha.control _ _, fun hl => nomatch hends hl.1⟩
    | resumed hes =>
      obtain ⟨rfl, -⟩ := hs.unique hes
      exact ⟨hrecord.resumed ha.control, fun hl => nomatch hends hl.1⟩
    | @confirmed k n'' c hes =>
      obtain ⟨rfl, -⟩ := hs.unique hes
      obtain ⟨hnext, -, hdiscarded⟩ := hrecord.confirmed ha.control
      refine ⟨hnext, fun hl t ht hd => ?_⟩
      obtain ⟨u, hu, hud, hphase⟩ := hdiscarded t ht hd
      have hcomplete := hl.2
      change Session.Complete config (confirmedCount (handledEvents s.log ++ [_])) at hcomplete
      rw [confirmedCount_concat, if_pos rfl] at hcomplete
      have hfinished := hclear hloop _ (by rw [hqueue]; rfl) rfl hcomplete u hu hud
      unfold Turn.isFinished at hfinished ⊢
      rw [← hphase]
      exact hfinished
  obtain ⟨hnext, hfinished⟩ := hevent
  have hstream : Stream (handledEvents ((({ s with queue } : System Audio).record
      [.handled e]).handleEvent e).log) o' n' := by
    rw [hlog, handledEvents_append]
    exact hs'
  have hloop' : ((({ s with queue } : System Audio).record [.handled e]).handleEvent e).loop =
      .running :=
    (SameLoop.handleEvent _ e).loop.trans hloop
  generalize (({ s with queue } : System Audio).record [.handled e]).handleEvent e = r at *
  unfold raiseCompletedTurnErrors at hafter ⊢
  split at hafter
  · exact absurd rfl hafter
  · rename_i hraised
    rw [if_neg hraised]
    refine ⟨⟨o', n', hstream, hnext.active, hnext.settled, hnext.kept, hnext.cancelling, ?_⟩, ?_, ?_⟩
    · exact fun i hi => hnext.tasks i (List.mem_of_mem_filter hi)
    · intro hl i t ht hd
      have hdone := hfinished hl t (List.mem_of_getElem? ht) hd
      refine ⟨hdone, fun hi => ?_⟩
      have hnot := (List.mem_filter.mp hi).2
      unfold isFinished at hnot
      change r.turns[i]? = some t at ht
      simp [ht, hdone] at hnot
    · intro hgathering
      change r.loop = .gathering at hgathering
      rw [hloop'] at hgathering
      cases hgathering

/-- The tasks that are gathered belong to confirmed turns or mode switches, the turns that the loop
has cancelled have finished and are not among them, and no confirmed turn is cancelled. -/
structure EndsCleanly (s : System Audio) : Prop where
  tasks : ∀ i ∈ s.tasks, ∃ t, s.turns[i]? = some t ∧
    (t.control = none ∨ t.isCommitted = true) ∧ ¬t.Discarded
  discarded : ∀ (i : ℕ) (t : Turn Audio), s.turns[i]? = some t → t.Discarded →
    t.isFinished = true ∧ i ∉ s.tasks
  confirmed : ∀ (i : ℕ) (t : Turn Audio), s.turns[i]? = some t → t.isCommitted = true →
    ¬t.Discarded

theorem Orderly.endsCleanly (h : s.Orderly config) (hloop : s.loop = .gathering) :
    s.EndsCleanly := by
  have hlast := h.gathering hloop
  have hgone := h.gone hlast
  obtain ⟨o, n, hs, htidy⟩ := h.tidy
  have hnone : s.active = none := by
    obtain ⟨k, c, hconfirmed⟩ := hlast.1
    obtain ⟨front, heq⟩ := List.getLast?_eq_some_iff.mp hconfirmed
    rw [heq] at hs
    cases hs.last with
    | confirmed => exact htidy.active
  refine ⟨fun i hi => ?_, hgone, fun i t => htidy.kept⟩
  obtain ⟨t, ht⟩ : ∃ t, s.turns[i]? = some t := ⟨_, List.getElem?_eq_getElem (htidy.tasks i hi)⟩
  have hkept : ¬t.Discarded := fun hd => (hgone i t ht hd).2 hi
  exact ⟨t, ht, .inr ((htidy.settled i t ht (by rw [hnone]; nofun)).resolve_right hkept), hkept⟩

/-- No cancellation is raised out of the final `gather`. -/
theorem Orderly.gather (h : s.Orderly config) (hloop : s.loop = .gathering) :
    (s.gather = s ∨ s.gather.loop = .returned ∨ s.gather.loop = .raised) := by
  have hclean := h.endsCleanly hloop
  obtain ⟨o, n, -, htidy⟩ := h.tidy
  have hnot : ¬(s.tasks.any (s.endedWith .cancelled) = true) := by
    intro hany
    obtain ⟨i, hi, hended⟩ := List.any_eq_true.mp hany
    obtain ⟨t, ht, -, hkept⟩ := hclean.tasks i hi
    unfold endedWith at hended
    rw [ht] at hended
    exact hkept (htidy.cancelling ht (.inr (by simpa using hended)))
  unfold System.gather
  rw [if_neg hnot]
  split
  · exact .inr (.inr rfl)
  · split
    · exact .inr (.inl rfl)
    · exact .inl rfl

/-- What holds along a run that takes its last confirmation with nothing left to cancel. -/
structure Ordered (config : VoiceConfig) (s : System Audio) : Prop where
  orderly : s.loop = .running ∨ s.loop = .gathering → s.Orderly config
  reports : s.Reports config
  flows : s.Flows
  acts : s.Acts
  loop : s.loop ≠ .cancelled

theorem Reports.handle (h : s.Reports config) : s.handle.Reports config := by
  have hhandled := s.handled
  generalize s.handle = s' at hhandled
  cases hhandled with
  | waits => exact h
  | event e queue =>
    have htaken : (({ s with queue } : System Audio).record [.handled e]).Reports config := by
      refine h.of_same rfl rfl rfl ?_
      change emittedEvents (s.log ++ [.handled e]) = _
      rw [emittedEvents, emissions_append, List.map_append]
      exact List.append_nil _
    have hflow := (SameFlow.handleEvent (({ s with queue } : System Audio).record [.handled e]) e).trans
      (.raiseCompletedTurnErrors _)
    refine htaken.of_same hflow.session hflow.posted ?_ (by rw [hflow.log])
    exact (raiseCompletedTurnErrors_worker _).trans (SameLoop.handleEvent _ e).worker
  | gathers => exact h.of_same rfl rfl rfl rfl
  | aborts =>
    exact h.of_same (SameFlow.abort s).session (SameFlow.abort s).posted
      (SameLoop.cancelActive s).worker (by rw [(SameFlow.abort s).log])
  | gathering =>
    obtain ⟨loop, heq⟩ := s.gather_eq
    rw [heq]
    exact h.of_same rfl rfl rfl rfl

theorem emittedEvents_effects (log : List (Moment Audio)) (i : ℕ) (es : List Effect) :
    emittedEvents (log ++ es.map (Moment.effect i)) = emittedEvents log := by
  simp [emittedEvents, emissions]

theorem handledEvents_effects (log : List (Moment Audio)) (i : ℕ) (es : List Effect) :
    handledEvents (log ++ es.map (Moment.effect i)) = handledEvents log := by
  simp [handledEvents]

theorem Reports.step (h : s.Reports config) (hf : s.Flows) (action : Action Audio) :
    (s.step config services action).Reports config := by
  cases action with
  | capture input => exact h.capture hf.plain input
  | deliver => exact h.deliver
  | handle => exact h.handle
  | turn i input =>
    change (s.turn services i input).Reports config
    rcases s.turn_cases services i input with heq | ⟨t, t', controller, effects, -, -, heq⟩
    · rwa [heq]
    · rw [heq]
      exact h.of_same rfl rfl rfl (emittedEvents_effects s.log i effects)
  | dispatchConversationModeOff i =>
    change (s.dispatchConversationModeOff i).Reports config
    unfold dispatchConversationModeOff
    split
    · exact h.of_same rfl rfl rfl (emittedEvents_effects s.log i [.modeChange .wakeCommand])
    · exact h
  | interrupt =>
    change s.interrupt.Reports config
    unfold interrupt
    split
    · exact h.of_same (SameFlow.abort s).session (SameFlow.abort s).posted
        (SameLoop.cancelActive s).worker (by rw [(SameFlow.abort s).log])
    · exact h
  | cancelBackgroundTurns =>
    change s.cancelBackgroundTurns.Reports config
    unfold cancelBackgroundTurns
    split
    · exact h.of_same rfl rfl rfl rfl
    · exact h

variable (services) in
/-- The steps that leave the loop where it is. -/
theorem Ordered.elsewhere (h : s.Ordered config) (action : Action Audio)
    (hloop : (s.step config services action).loop = s.loop)
    (horderly : s.Orderly config → (s.step config services action).Orderly config) :
    (s.step config services action).Ordered config where
  orderly hafter := horderly (h.orderly (hloop ▸ hafter))
  reports := h.reports.step h.flows action
  flows := h.flows.step config services action
  acts := h.acts.step h.flows config services action
  loop := hloop ▸ h.loop

variable (services) in
/-- The steps after which the loop neither runs nor gathers. -/
theorem Ordered.over (h : s.Ordered config) (action : Action Audio)
    (hloop : (s.step config services action).loop ∈ [LoopPhase.stopping, .returned, .raised]) :
    (s.step config services action).Ordered config where
  orderly hafter := by
    rcases hafter with hafter | hafter <;> simp [hafter] at hloop
  reports := h.reports.step h.flows action
  flows := h.flows.step config services action
  acts := h.acts.step h.flows config services action
  loop hcancelled := by simp [hcancelled] at hloop

theorem Ordered.handle (h : s.Ordered config) (hclear : s.Clear config .handle) :
    (s.step config services .handle).Ordered config := by
  have hhandled : Handled s (s.step config services .handle) := s.handled
  have helsewhere := h.elsewhere services .handle
  have hover := h.over services .handle
  generalize s.step config services .handle = s' at *
  cases hhandled with
  | waits => exact h
  | event e queue hloop hqueue =>
    have hrunning := (SameLoop.handleEvent (({ s with queue } : System Audio).record
      [.handled e]) e).loop.trans hloop
    by_cases hstopping : ((({ s with queue } : System Audio).record
        [.handled e]).handleEvent e).raiseCompletedTurnErrors.loop = .stopping
    · exact hover (by simp [hstopping])
    · refine helsewhere ?_ fun horderly => horderly.event h.acts h.flows hloop hqueue hclear hstopping
      exact ((raiseCompletedTurnErrors_loop _).resolve_right hstopping).trans (hrunning.trans hloop.symm)
  | gathers hloop hqueue hworker =>
    have horderly := h.orderly (.inl hloop)
    have hlast := h.reports.handled_of_returned h.flows hqueue hworker
    obtain ⟨o, n, hs, htidy⟩ := horderly.tidy
    exact ⟨fun _ => ⟨⟨o, n, hs, htidy.active, htidy.settled, htidy.kept, htidy.cancelling,
        htidy.tasks⟩, horderly.gone, fun _ => hlast⟩,
      h.reports.of_same rfl rfl rfl rfl, h.flows.of_same ⟨rfl, rfl, rfl, rfl⟩,
      h.acts.of_same (.of_eq rfl) rfl fun _ hi => ⟨hi, rfl⟩, nofun⟩
  | aborts => exact hover (by simp [abort])
  | gathering hloop =>
    rcases (h.orderly (.inr hloop)).gather hloop with heq | hloop' | hloop'
    · rwa [heq]
    · exact hover (by simp [hloop'])
    · exact hover (by simp [hloop'])

theorem Ordered.step (h : s.Ordered config) {action : Action Audio} (hclear : s.Clear config action) :
    (s.step config services action).Ordered config := by
  cases action with
  | capture input =>
    have hcases := capture_cases config s input h.flows.plain
    have helsewhere := h.elsewhere services (.capture input)
    change (s.capture config input).Ordered config
    rcases hcases with ⟨-, heq⟩ | ⟨-, session, controller, event, -, heq⟩
    · rwa [heq]
    · have hhandled : handledEvents (s.log ++
          (event.map fun e => Moment.emitted e s.session.segmenter).toList) = handledEvents s.log := by
        rw [handledEvents_append]
        cases event <;> exact List.append_nil _
      refine helsewhere (by rw [System.step, heq]) fun horderly => ?_
      rw [System.step, heq]
      exact horderly.of_same rfl hhandled rfl rfl rfl rfl
  | deliver =>
    have hsame : s.deliver.turns = s.turns ∧ s.deliver.log = s.log ∧ s.deliver.active = s.active ∧
        s.deliver.activeTurnId = s.activeTurnId ∧ s.deliver.tasks = s.tasks ∧
        s.deliver.loop = s.loop := by
      unfold deliver
      split <;> exact ⟨rfl, rfl, rfl, rfl, rfl, rfl⟩
    obtain ⟨hturns, hlog, hactive, hid, htasks, hloop⟩ := hsame
    exact h.elsewhere services .deliver hloop fun horderly =>
      horderly.of_same hturns (congrArg handledEvents hlog) hactive hid htasks hloop
  | handle => exact h.handle hclear
  | turn i input =>
    have helsewhere := h.elsewhere services (.turn i input)
    change (s.turn services i input).Ordered config
    rcases s.turn_cases services i input with heq | ⟨t, t', controller, effects, ht, hmoved, heq⟩
    · rwa [heq]
    · refine helsewhere (by rw [System.step, heq]) fun horderly => ?_
      rw [System.step, heq]
      exact horderly.set ht (progress_of_moved hmoved) rfl (handledEvents_effects s.log i effects)
        rfl rfl rfl rfl
  | dispatchConversationModeOff i =>
    have helsewhere := h.elsewhere services (.dispatchConversationModeOff i)
    rw [System.step, dispatchConversationModeOff] at helsewhere ⊢
    revert helsewhere
    split
    · intro helsewhere
      exact helsewhere rfl fun horderly => horderly.of_same rfl
        (handledEvents_effects s.log i [.modeChange .wakeCommand]) rfl rfl rfl rfl
    · exact fun _ => h
  | interrupt =>
    have hover := h.over services .interrupt
    rw [System.step, System.interrupt] at hover ⊢
    revert hover
    split
    · intro hover
      exact hover (by simp [abort])
    · exact fun _ => h
  | cancelBackgroundTurns =>
    have hover := h.over services .cancelBackgroundTurns
    rw [System.step, System.cancelBackgroundTurns] at hover ⊢
    revert hover
    split
    · intro hover
      exact hover (by simp)
    · exact fun _ => h

/-- The loop ends cleanly in every run in which all that it has cancelled is finished when it takes
the confirmation that ends the session. -/
theorem loop_ends_cleanly (config : VoiceConfig) (services : Services Audio)
    (mode : ConversationMode) (actions : List (Action Audio))
    (h : Run.Along (Clear config) (step config services) (start mode) actions) :
    ((run config services mode actions).loop = .gathering →
      (run config services mode actions).EndsCleanly) ∧
    (run config services mode actions).loop ≠ .cancelled := by
  have hordered : (run config services mode actions).Ordered config :=
    Run.foldl_invariant (fun s action hclear hs => hs.step hclear) actions (start mode) h
      ⟨fun _ => orderly_start config mode, reports_start config mode, flows_start mode,
        acts_start mode, nofun⟩
  exact ⟨fun hloop => (hordered.orderly (.inr hloop)).endsCleanly hloop, hordered.loop⟩

end System

/-! One turn, which the user resumes before it is confirmed. -/

namespace TestVectors

def oneTurn : VoiceConfig where
  minSilenceMs := 500
  finalSilenceMs := 1000
  listenTimeout := 0
  maxTurns := 1

def hears (kind : UtteranceEventKind) : Action Unit :=
  .capture ⟨some ⟨none, some ⟨kind, some ⟨(), false⟩⟩, true⟩, 0, false⟩

def pauses : List (Action Unit) := [hears .endpoint, goesOn, goesOn]

/-- The user goes on, pauses again and is confirmed, which is the last turn. -/
def resumesAndEnds : List (Action Unit) :=
  [hears .resumed, goesOn, goesOn] ++ pauses ++ [hears .confirmed] ++ List.replicate 4 goesOn ++
    List.replicate 4 .deliver

/-- The loop handles the events one by one, and the task of the first turn runs in between. -/
def oneByOne : List (Action Unit) :=
  goesOn :: pauses ++ [.deliver, .handle] ++ resumesAndEnds ++
    [.handle, .turn 0 ⟨"", false⟩, .handle, .handle, .handle]

/-- The loop handles the rest of the events at once. -/
def burst : List (Action Unit) :=
  goesOn :: pauses ++ [.deliver, .handle] ++ resumesAndEnds ++
    [.handle, .handle, .handle, .handle, .turn 0 ⟨"", false⟩, .handle]

theorem oneByOne_ends_cleanly :
    (System.run oneTurn plainServices .continuousConversation oneByOne).loop = .gathering ∧
      (System.run oneTurn plainServices .continuousConversation oneByOne).EndsCleanly := by
  have hloop : (System.run oneTurn plainServices .continuousConversation oneByOne).loop =
      .gathering := by
    decide +kernel
  exact ⟨hloop, (System.loop_ends_cleanly oneTurn plainServices .continuousConversation oneByOne
    (by decide +kernel)).1 hloop⟩

/-- The cancellation of the first turn is raised out of the loop. -/
theorem burst_is_cancelled :
    (System.run oneTurn plainServices .continuousConversation burst).worker = some .returned ∧
      (System.run oneTurn plainServices .continuousConversation burst).loop = .cancelled := by
  decide +kernel

end TestVectors
end ReframeVoice
