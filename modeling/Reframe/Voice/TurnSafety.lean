import Reframe.Voice.CaptureStream
import Reframe.Voice.TurnLoop

/-! A turn acts only when its own capture is confirmed, over every run of the capture thread, the
event loop and its turn tasks. -/
namespace ReframeVoice

variable {Audio : Type}

/-! The audio of a confirmed turn comes from a segmenter that no later event is about. -/

/-- The thread goes on only with a new segmenter. -/
def Phase.Sealing : Phase Audio → Prop
  | .starting _ | .finishing .. | .rereading _ | .returned | .raised _ => True
  | _ => False

/-- An event and the segmenter it is about, before a later one. -/
def Before (x y : CaptureStreamEvent Audio × ℕ) : Prop :=
  x.2 ≤ y.2 ∧ (x.1.kind = .confirmed → x.2 < y.2)

namespace Session

structure Separates (s : Session Audio) (es : List (CaptureStreamEvent Audio × ℕ)) : Prop where
  ordered : es.Pairwise Before
  le : ∀ x ∈ es, x.2 ≤ s.segmenter
  confirmed : ∀ x ∈ es, x.1.kind = .confirmed → x.2 < s.segmenter ∨ s.phase.Sealing

variable {s s' : Session Audio} {es : List (CaptureStreamEvent Audio × ℕ)}

theorem separates_init (controller : ConversationModeController) :
    (Session.init controller : Session Audio).Separates [] where
  ordered := .nil
  le := nofun
  confirmed := nofun

theorem Separates.lt (h : s.Separates es) (hphase : ¬s.phase.Sealing) :
    ∀ x ∈ es, x.1.kind = .confirmed → x.2 < s.segmenter := fun x hx hkind =>
  (h.confirmed x hx hkind).resolve_right hphase

theorem Separates.of_lt (h : s.Separates es) (hseg : s'.segmenter = s.segmenter)
    (hlt : ∀ x ∈ es, x.1.kind = .confirmed → x.2 < s.segmenter) : s'.Separates es where
  ordered := h.ordered
  le := hseg ▸ h.le
  confirmed x hx hkind := .inl (hseg ▸ hlt x hx hkind)

theorem Separates.of_sealing (h : s.Separates es) (hseg : s'.segmenter = s.segmenter)
    (hphase : s'.phase.Sealing) : s'.Separates es where
  ordered := h.ordered
  le := hseg ▸ h.le
  confirmed _ _ _ := .inr hphase

/-- Another event is about the segmenter in use. -/
theorem Separates.emit (h : s.Separates es) (hphase : ¬s.phase.Sealing)
    (hseg : s'.segmenter = s.segmenter) (event : CaptureStreamEvent Audio)
    (hconfirmed : event.kind = .confirmed → s'.phase.Sealing) :
    s'.Separates (es ++ [(event, s.segmenter)]) where
  ordered := by
    rw [List.pairwise_append]
    refine ⟨h.ordered, List.pairwise_singleton _ _, fun x hx y hy => ?_⟩
    rw [List.mem_singleton.mp hy]
    exact ⟨h.le x hx, h.lt hphase x hx⟩
  le x hx := by
    rcases List.mem_append.mp hx with hx | hx
    · exact hseg ▸ h.le x hx
    · rw [List.mem_singleton.mp hx, hseg]
  confirmed x hx hkind := by
    rcases List.mem_append.mp hx with hx | hx
    · exact .inl (hseg ▸ h.lt hphase x hx hkind)
    · rw [List.mem_singleton.mp hx] at hkind
      exact .inr (hconfirmed hkind)

theorem Moved.separates {config : VoiceConfig} {controller controller' : ConversationModeController}
    {event : Option (CaptureStreamEvent Audio)} {looks : Bool}
    (h : Moved config s controller s' controller' event looks) (hs : s.Separates es) :
    s'.Separates (es ++ (event.map fun event => (event, s.segmenter)).toList) := by
  have hnot : ∀ {phase}, s.phase = phase → ¬phase.Sealing → ¬s.phase.Sealing := by
    rintro phase rfl h
    exact h
  cases h with
  | fails error => exact (List.append_nil es).symm ▸ hs.of_sealing rfl trivial
  | starts rest deadline phase hphase hq =>
    refine (List.append_nil es).symm ▸ ⟨hs.ordered, fun x hx => ?_, fun x hx _ => .inl ?_⟩
    · exact (hs.le x hx).trans (Nat.le_succ _)
    · exact Nat.lt_succ_of_le (hs.le x hx)
  | hears frame now hphase =>
    exact (List.append_nil es).symm ▸ hs.of_lt rfl (hs.lt (hnot hphase id))
  | restarts frame now hphase =>
    exact (List.append_nil es).symm ▸ hs.of_sealing rfl trivial
  | accepts frame now state phase hphase =>
    exact (List.append_nil es).symm ▸ hs.of_lt rfl (hs.lt (hnot hphase id))
  | opens c rest phase hphase hq =>
    refine hs.emit (hnot hphase id) ?_ _ ?_
    · rfl
    · exact nofun
  | opensFinal c rest hphase =>
    refine hs.emit (hnot hphase id) ?_ _ ?_
    · rfl
    · exact nofun
  | confirms k c rest hphase =>
    refine hs.emit (hnot hphase id) ?_ _ ?_
    · rfl
    · exact fun _ => trivial
  | resumes k now phase hphase hq =>
    refine hs.emit (hnot hphase id) ?_ _ ?_
    · rfl
    · exact nofun
  | sets c rest hphase => exact (List.append_nil es).symm ▸ hs.of_sealing rfl trivial
  | rereads rest phase hphase hnext =>
    rcases hnext with ⟨rfl, -⟩ | ⟨rfl, -⟩
    · exact (List.append_nil es).symm ▸ hs.of_sealing rfl trivial
    · exact (List.append_nil es).symm ▸ hs.of_sealing rfl trivial

end Session

/-! What the log says of the events. -/

def emissions (log : List (Moment Audio)) : List (CaptureStreamEvent Audio × ℕ) :=
  log.filterMap fun
    | .emitted event segmenter => some (event, segmenter)
    | _ => none

def emittedEvents (log : List (Moment Audio)) : List (CaptureStreamEvent Audio) :=
  (emissions log).map Prod.fst

def handledEvents (log : List (Moment Audio)) : List (CaptureStreamEvent Audio) :=
  log.filterMap fun
    | .handled event => some event
    | _ => none

def puts (posted : List (Callback Audio)) : List (CaptureStreamEvent Audio) :=
  posted.filterMap fun
    | .put event => some event
    | _ => none

namespace System

variable {config : VoiceConfig} {services : Services Audio} {s s' : System Audio}

theorem completion?_eq_none {session : Session Audio} :
    completion? session = none ↔ ¬session.Ended := by
  unfold completion? Session.Ended
  cases session.phase <;> simp

/-- The history after a step of the capture thread. -/
def historyAfter (h : History) (looks : Bool) (event : Option (CaptureStreamEvent Audio)) :
    History where
  explicit := h.explicit
  seen := if looks then h.explicit.length else h.seen
  seenBy := match event with
    | some event => if event.kind = .confirmed then Function.update h.seenBy event.turnId h.seen
      else h.seenBy
    | none => h.seenBy

/-- A step of the capture thread, in the system. -/
theorem capture_cases (config : VoiceConfig) (s : System Audio) (input : Input Audio)
    (hplain : s.session.Plain) :
    s.session.Ended ∧ s.capture config input = s ∨
      ¬s.session.Ended ∧ ∃ session controller event,
        Session.Moved config s.session s.controller session controller event
          (s.session.phase.looksAtController && !input.raises) ∧
        s.capture config input = { s with
          session
          controller
          posted := s.posted ++ (event.map Callback.put).toList ++
            ((completion? session).map Callback.complete).toList
          log := s.log ++ (event.map fun e => .emitted e s.session.segmenter).toList
          history := historyAfter s.history
            (s.session.phase.looksAtController && !input.raises) event } := by
  unfold capture
  cases hended : completion? s.session with
  | some outcome =>
    refine .inl ⟨?_, rfl⟩
    by_contra h
    rw [completion?_eq_none.mpr h] at hended
    cases hended
  | none =>
    refine .inr ⟨completion?_eq_none.mp hended, ?_⟩
    generalize hstep : captureStep config s.session s.controller s.stop input = next
    obtain ⟨session, controller, event⟩ := next
    have hmoved := Session.moved config s.session s.controller s.stop input hplain
      (completion?_eq_none.mp hended) hstep
    have hswitch : ownSwitch? s.session.phase = none := by
      cases hphase : s.session.phase with
      | finishing c rest =>
        have := hplain.capture c (by rw [hphase]; rfl)
        simp [ownSwitch?, this]
      | _ => rfl
    refine ⟨session, controller, event, hmoved, ?_⟩
    simp only [hswitch]
    cases hlooks : s.session.phase.looksAtController && !input.raises with
    | false => cases event <;> simp [historyAfter, emit, record]
    | true => cases event <;> simp [historyAfter, emit, record]

end System

/-! What one step of a turn task can do. -/

namespace Turn

/-- The loop has cancelled the turn. -/
def Discarded (t : Turn Audio) : Prop := t.cancelRequested = true ∨ t.isCancelled = true

/-- Where a task that is being cancelled ends up. -/
def Cancelling (phase : TurnPhase) : Prop :=
  phase = .closing .cancelled ∨ phase = .finished .cancelled

inductive Moved (t : Turn Audio) (controller : ConversationModeController) :
    Turn Audio → ConversationModeController → List Effect → Prop
  | stays : Moved t controller t controller []
  | goes (phase : TurnPhase) (hfinished : t.isFinished = false)
    (hcancelled : Cancelling phase → t.Discarded ∨ Cancelling t.phase) :
    Moved t controller { t with phase } controller []
  | turnsOn (hfinished : t.isFinished = false) (hcommitted : t.control.isSome → t.isCommitted)
    (hkept : ¬t.Discarded) :
    Moved t controller { t with phase := .closing .returned }
      (controller.set .continuousConversation).2 [.modeChange .continuousConversation]
  | replies (text : String) (hfinished : t.isFinished = false)
    (hcommitted : t.control.isSome → t.isCommitted) (hkept : ¬t.Discarded) :
    Moved t controller { t with phase := .agent, agentStarted := true } controller
      ((if text = "" then [] else [.humanReply text]) ++ [.agentTurn])

theorem beginTurn_not_cancelling (services : Services Audio) (capture : CaptureResult Audio) :
    ¬Cancelling (beginTurn services capture) := by
  unfold beginTurn Cancelling
  cases capture.utterance with
  | none => cases capture.modeSwitched <;> simp
  | some utterance =>
    dsimp only
    split <;> simp

theorem moved (services : Services Audio) (t : Turn Audio) (controller : ConversationModeController)
    (input : TurnInput) :
    Moved t controller (turnStep services t controller input).1
      (turnStep services t controller input).2.1 (turnStep services t controller input).2.2 := by
  unfold turnStep
  cases hphase : t.phase with
  | finished outcome => exact .stays
  | created =>
    have hfinished : t.isFinished = false := by simp [isFinished, hphase]
    dsimp only
    split
    · exact .goes _ hfinished fun _ => .inl (.inl ‹_›)
    · exact .goes _ hfinished fun h => absurd h (beginTurn_not_cancelling services t.capture)
  | closing outcome =>
    have hfinished : t.isFinished = false := by simp [isFinished, hphase]
    dsimp only
    split
    · exact .goes _ hfinished fun _ => .inl (.inl ‹_›)
    · refine .goes _ hfinished fun h => ?_
      cases outcome with
      | returned => cases hraises : input.raises <;> simp [taskOutcome, Cancelling, hraises] at h
      | cancelled => exact .inr (.inl hphase)
      | failed => simp [taskOutcome, Cancelling] at h
  | grace confirmation =>
    have hfinished : t.isFinished = false := by simp [isFinished, hphase]
    dsimp only
    split
    · rename_i h
      exact .goes _ hfinished fun _ => .inl ((Bool.or_eq_true _ _).mp h)
    · exact .goes _ hfinished fun h => by simp [Cancelling] at h
  | transcribing confirmation =>
    have hfinished : t.isFinished = false := by simp [isFinished, hphase]
    dsimp only
    split
    · exact .goes _ hfinished fun _ => .inl (.inl ‹_›)
    · split
      · exact .goes _ hfinished fun h => by simp [Cancelling] at h
      · split
        · exact .goes _ hfinished fun _ => .inl (.inr ‹_›)
        · exact .goes _ hfinished fun h => by simp [Cancelling] at h
  | waiting after =>
    have hfinished : t.isFinished = false := by simp [isFinished, hphase]
    dsimp only
    split
    · rename_i h
      exact .goes _ hfinished fun _ => .inl ((Bool.or_eq_true _ _).mp h)
    · rename_i hkept
      have hkept : ¬t.Discarded := fun h => hkept ((Bool.or_eq_true _ _).mpr h)
      split
      · exact .stays
      · rename_i h
        have hcommitted : t.control.isSome → t.isCommitted := by
          intro hsome
          simpa [hsome] using h
        cases after with
        | ignore => exact .goes _ hfinished fun h => by simp [Cancelling] at h
        | turnOn => exact .turnsOn hfinished hcommitted hkept
        | reply text => exact .replies text hfinished hcommitted hkept
  | agent =>
    have hfinished : t.isFinished = false := by simp [isFinished, hphase]
    dsimp only
    split
    · rename_i h
      exact .goes _ hfinished fun _ => .inl ((Bool.or_eq_true _ _).mp h)
    · split
      · exact .goes _ hfinished fun h => by simp [Cancelling] at h
      · exact .goes _ hfinished fun h => by simp [Cancelling] at h

/-- What the loop's cancellations and most steps of the task leave alone. -/
structure Same (t t' : Turn Audio) : Prop where
  id : t'.id = t.id
  capture : t'.capture = t.capture
  control : t'.control.isSome = t.control.isSome
  committed : t'.isCommitted = t.isCommitted
  agentStarted : t'.agentStarted = t.agentStarted

theorem Same.refl (t : Turn Audio) : Same t t := ⟨rfl, rfl, rfl, rfl, rfl⟩

theorem Same.trans {t₁ t₂ t₃ : Turn Audio} (h : Same t₁ t₂) (h' : Same t₂ t₃) : Same t₁ t₃ where
  id := h'.id.trans h.id
  capture := h'.capture.trans h.capture
  control := h'.control.trans h.control
  committed := h'.committed.trans h.committed
  agentStarted := h'.agentStarted.trans h.agentStarted

theorem same_cancelTask (t : Turn Audio) : Same t t.cancelTask := by
  unfold cancelTask
  split <;> exact ⟨rfl, rfl, rfl, rfl, rfl⟩

theorem same_cancelControl (t : Turn Audio) : Same t t.cancelControl where
  id := rfl
  capture := rfl
  control := by simp [cancelControl]
  committed := by simp only [cancelControl, isCommitted, Option.any_map]
  agentStarted := rfl

theorem same_cancel (t : Turn Audio) : Same t t.cancelControl.cancelTask :=
  (same_cancelControl t).trans (same_cancelTask _)

end Turn
namespace System

variable {s s' : System Audio}

/-- The turns are those they were, but for their cancellation and their progress. -/
structure SameTurns (s s' : System Audio) : Prop where
  length : s'.turns.length = s.turns.length
  same : ∀ {i : ℕ} {t' : Turn Audio}, s'.turns[i]? = some t' →
    ∃ t, s.turns[i]? = some t ∧ t.Same t'

theorem SameTurns.trans {s₁ s₂ s₃ : System Audio} (h : s₁.SameTurns s₂) (h' : s₂.SameTurns s₃) :
    s₁.SameTurns s₃ where
  length := h'.length.trans h.length
  same hi := by
    obtain ⟨t₂, h₂, hsame₂⟩ := h'.same hi
    obtain ⟨t₁, h₁, hsame₁⟩ := h.same h₂
    exact ⟨t₁, h₁, hsame₁.trans hsame₂⟩

theorem SameTurns.of_eq (h : s'.turns = s.turns) : s.SameTurns s' where
  length := by rw [h]
  same hi := ⟨_, h ▸ hi, .refl _⟩

theorem SameTurns.modify (s : System Audio) (index : ℕ) {f : Turn Audio → Turn Audio}
    (hf : ∀ t, Turn.Same t (f t)) : s.SameTurns (s.modifyTurn index f) where
  length := List.length_modify ..
  same {i t'} hi := by
    rw [modifyTurn, List.getElem?_modify] at hi
    obtain ⟨t, ht, rfl⟩ := Option.map_eq_some_iff.mp hi
    refine ⟨t, ht, ?_⟩
    split
    · exact hf t
    · exact .refl t

theorem SameTurns.cancelActive (s : System Audio) : s.SameTurns s.cancelActive := by
  unfold System.cancelActive
  cases s.active with
  | none => exact .of_eq rfl
  | some index => exact .modify s index Turn.same_cancel

theorem SameTurns.abort (s : System Audio) : s.SameTurns s.abort :=
  (cancelActive s).trans (.of_eq rfl)

theorem SameTurns.raiseCompletedTurnErrors (s : System Audio) :
    s.SameTurns s.raiseCompletedTurnErrors := by
  unfold System.raiseCompletedTurnErrors
  split
  · exact .abort s
  · exact .of_eq rfl

theorem SameTurns.cancelBackgroundTurns (s : System Audio) :
    s.SameTurns s.cancelBackgroundTurns := by
  unfold System.cancelBackgroundTurns
  split
  · refine ⟨List.length_mapIdx, fun {i t'} hi => ?_⟩
    rw [List.getElem?_mapIdx] at hi
    obtain ⟨t, ht, rfl⟩ := Option.map_eq_some_iff.mp hi
    refine ⟨t, ht, ?_⟩
    split
    · exact Turn.same_cancelTask t
    · exact .refl t
  · exact .of_eq rfl

/-- The turns that the events of the loop open. -/
def opened (es : List (CaptureStreamEvent Audio)) : List (ℕ × CaptureResult Audio) :=
  es.filterMap fun e => if e.kind = .endpoint then e.capture.map (e.turnId, ·) else none

/-- Every turn has its own endpoint, and acts only when that is confirmed. -/
structure Acts (s : System Audio) : Prop where
  turns : s.turns.map (fun t => (t.id, t.capture)) = opened (handledEvents s.log)
  control : ∀ {i : ℕ} {t : Turn Audio}, s.turns[i]? = some t → t.control.isSome = true
  committed : ∀ {i : ℕ} {t : Turn Audio}, s.turns[i]? = some t → t.isCommitted = true →
    ⟨.confirmed, t.id, some t.capture⟩ ∈ handledEvents s.log
  started : ∀ {i : ℕ} {t : Turn Audio}, s.turns[i]? = some t → t.agentStarted = true →
    t.isCommitted = true
  active : ∀ {i : ℕ}, s.active = some i → ∃ t, s.turns[i]? = some t ∧ s.activeTurnId = some t.id
  effects : ∀ {a b : List (Moment Audio)} {i : ℕ} {e : Effect}, s.log = a ++ .effect i e :: b →
    ∃ t, s.turns[i]? = some t ∧ ⟨.confirmed, t.id, some t.capture⟩ ∈ handledEvents a

theorem acts_start (mode : ConversationMode) : (start mode : System Audio).Acts where
  turns := rfl
  control := nofun
  committed := nofun
  started := nofun
  active := nofun
  effects h := by simp [start] at h

theorem SameTurns.map_eq (h : s.SameTurns s') :
    s'.turns.map (fun t => (t.id, t.capture)) = s.turns.map fun t => (t.id, t.capture) := by
  refine List.ext_getElem? fun i => ?_
  rw [List.getElem?_map, List.getElem?_map]
  cases hi : s'.turns[i]? with
  | none =>
    rw [List.getElem?_eq_none_iff, h.length, ← List.getElem?_eq_none_iff] at hi
    rw [hi]
  | some t' =>
    obtain ⟨t, ht, hsame⟩ := h.same hi
    rw [ht]
    simp only [Option.map_some, hsame.id, hsame.capture]

/-- A turn is where it was. -/
theorem SameTurns.exists_same (h : s.SameTurns s') {i : ℕ} {t : Turn Audio}
    (ht : s.turns[i]? = some t) : ∃ t', s'.turns[i]? = some t' ∧ t.Same t' := by
  have hi : i < s'.turns.length := by
    rw [h.length]
    exact (List.getElem?_eq_some_iff.mp ht).1
  obtain ⟨t₁, ht₁, hsame⟩ := h.same (List.getElem?_eq_getElem hi)
  rw [ht] at ht₁
  cases ht₁
  exact ⟨_, List.getElem?_eq_getElem hi, hsame⟩

theorem Acts.of_same (h : s.Acts) (hs : s.SameTurns s') (hlog : s'.log = s.log)
    (hactive : ∀ i, s'.active = some i → s.active = some i ∧ s'.activeTurnId = s.activeTurnId) :
    s'.Acts where
  turns := by rw [hs.map_eq, hlog, h.turns]
  control hi := by
    obtain ⟨t, ht, hsame⟩ := hs.same hi
    rw [hsame.control]
    exact h.control ht
  committed hi hcommitted := by
    obtain ⟨t, ht, hsame⟩ := hs.same hi
    rw [hsame.committed] at hcommitted
    rw [hlog, hsame.id, hsame.capture]
    exact h.committed ht hcommitted
  started hi hstarted := by
    obtain ⟨t, ht, hsame⟩ := hs.same hi
    rw [hsame.agentStarted] at hstarted
    rw [hsame.committed]
    exact h.started ht hstarted
  active {i} hi := by
    obtain ⟨hold, hid⟩ := hactive i hi
    obtain ⟨t, ht, heq⟩ := h.active hold
    obtain ⟨t', ht', hsame⟩ := hs.exists_same ht
    exact ⟨t', ht', by rw [hid, heq, hsame.id]⟩
  effects hsplit := by
    obtain ⟨t, ht, hconfirmed⟩ := h.effects (hlog ▸ hsplit)
    obtain ⟨t', ht', hsame⟩ := hs.exists_same ht
    exact ⟨t', ht', by rwa [hsame.id, hsame.capture]⟩

@[simp] theorem handledEvents_append (log log' : List (Moment Audio)) :
    handledEvents (log ++ log') = handledEvents log ++ handledEvents log' :=
  List.filterMap_append

@[simp] theorem opened_append (es es' : List (CaptureStreamEvent Audio)) :
    opened (es ++ es') = opened es ++ opened es' :=
  List.filterMap_append

@[simp] theorem emissions_append (log log' : List (Moment Audio)) :
    emissions (log ++ log') = emissions log ++ emissions log' :=
  List.filterMap_append

@[simp] theorem puts_append (posted posted' : List (Callback Audio)) :
    puts (posted ++ posted') = puts posted ++ puts posted' :=
  List.filterMap_append

/-- The turns and the active one are as they were. -/
structure Kept (s s' : System Audio) : Prop where
  turns : s'.turns = s.turns
  active : s'.active = s.active
  activeTurnId : s'.activeTurnId = s.activeTurnId

/-- Another moment that no turn has a part in. -/
theorem Acts.moment (h : s.Acts) (hs : s.Kept s') {m : Moment Audio} (hlog : s'.log = s.log ++ [m])
    (hm : ∀ i e, m ≠ .effect i e)
    (hopened : opened (handledEvents [m]) = []) : s'.Acts where
  turns := by
    rw [hs.turns, hlog, handledEvents_append, opened_append, hopened, List.append_nil, h.turns]
  control hi := h.control (hs.turns ▸ hi)
  committed hi hc := by
    rw [hlog, handledEvents_append]
    exact List.mem_append_left _ (h.committed (hs.turns ▸ hi) hc)
  started hi := h.started (hs.turns ▸ hi)
  active hi := by
    rw [hs.turns, hs.activeTurnId]
    exact h.active (hs.active ▸ hi)
  effects hsplit := by
    rw [hs.turns]
    rcases Run.split_concat (hlog.symm.trans hsplit) with ⟨-, heq, -⟩ | ⟨rest, -, hold⟩
    · exact absurd heq (hm _ _)
    · exact h.effects hold

/-- An effect of a committed turn. -/
theorem Acts.effect (h : s.Acts) (hs : s.Kept s') {i : ℕ} {t : Turn Audio} {e : Effect}
    (ht : s.turns[i]? = some t) (hcommitted : t.isCommitted = true)
    (hlog : s'.log = s.log ++ [.effect i e]) : s'.Acts where
  turns := by
    rw [hs.turns, hlog, handledEvents_append, h.turns]
    exact congrArg _ (List.append_nil _).symm
  control hi := h.control (hs.turns ▸ hi)
  committed hi hc := by
    rw [hlog, handledEvents_append]
    exact List.mem_append_left _ (h.committed (hs.turns ▸ hi) hc)
  started hi := h.started (hs.turns ▸ hi)
  active hi := by
    rw [hs.turns, hs.activeTurnId]
    exact h.active (hs.active ▸ hi)
  effects hsplit := by
    rw [hs.turns]
    rcases Run.split_concat (hlog.symm.trans hsplit) with ⟨-, heq, rfl⟩ | ⟨rest, -, hold⟩
    · cases heq
      exact ⟨t, ht, h.committed ht hcommitted⟩
    · exact h.effects hold

theorem Acts.effects_append (h : s.Acts) {i : ℕ} {t : Turn Audio} (ht : s.turns[i]? = some t)
    (hcommitted : t.isCommitted = true) (es : List Effect) :
    ({ s with log := s.log ++ es.map (Moment.effect i) } : System Audio).Acts := by
  induction es generalizing s with
  | nil => exact h.of_same (.of_eq rfl) (List.append_nil _) fun _ hi => ⟨hi, rfl⟩
  | cons e es ih =>
    have hnext := ih (s := { s with log := s.log ++ [.effect i e] })
      (h.effect ⟨rfl, rfl, rfl⟩ ht hcommitted rfl) ht
    rwa [List.append_assoc] at hnext

theorem modify_eq_set {α : Type} {xs : List α} {i : ℕ} {x : α} (f : α → α) (hi : xs[i]? = some x) :
    xs.modify i f = xs.set i (f x) := by
  refine List.ext_getElem? fun j => ?_
  rw [List.getElem?_modify, List.getElem?_set]
  by_cases hij : i = j
  · subst j
    rw [if_pos rfl, hi, if_pos (List.getElem?_eq_some_iff.mp hi).1]
    simp
  · rw [if_neg hij]
    simp [hij]

theorem getElem?_set_some {α : Type} {xs : List α} {i j : ℕ} {y a : α}
    (h : (xs.set i y)[j]? = some a) : i = j ∧ a = y ∨ xs[j]? = some a := by
  rw [List.getElem?_set] at h
  split at h
  · subst j
    split at h
    · cases h
      exact .inl ⟨rfl, rfl⟩
    · cases h
  · exact .inr h

/-- A turn goes on: it is committed when it is confirmed, and calls the agent when it is
committed. -/
theorem Acts.set (h : s.Acts) {i : ℕ} {t t' : Turn Audio} (ht : s.turns[i]? = some t)
    (hturns : s'.turns = s.turns.set i t') (hlog : s'.log = s.log)
    (hactive : ∀ j, s'.active = some j → s.active = some j ∧ s'.activeTurnId = s.activeTurnId)
    (hid : t'.id = t.id) (hcapture : t'.capture = t.capture)
    (hcontrol : t'.control.isSome = t.control.isSome)
    (hcommitted : t'.isCommitted = true → ⟨.confirmed, t.id, some t.capture⟩ ∈ handledEvents s.log)
    (hstarted : t'.agentStarted = true → t'.isCommitted = true) : s'.Acts := by
  have hat : ∀ {j : ℕ} {u : Turn Audio}, s.turns[j]? = some u →
      ∃ u', s'.turns[j]? = some u' ∧ u'.id = u.id ∧ u'.capture = u.capture := by
    intro j u hu
    rw [hturns]
    by_cases hij : i = j
    · subst j
      rw [ht] at hu
      cases hu
      exact ⟨t', List.getElem?_set_self (List.getElem?_eq_some_iff.mp ht).1, hid, hcapture⟩
    · exact ⟨u, by rw [List.getElem?_set_ne hij, hu], rfl, rfl⟩
  constructor
  · have hmap : s'.turns.map (fun t => (t.id, t.capture)) =
        s.turns.map fun t => (t.id, t.capture) := by
      obtain ⟨hlt, rfl⟩ := List.getElem?_eq_some_iff.mp ht
      have hlt' : i < (s.turns.map fun t => (t.id, t.capture)).length := by simpa using hlt
      have hself := List.set_getElem_self hlt'
      rw [List.getElem_map] at hself
      rw [hturns, List.map_set, hid, hcapture, hself]
    rw [hmap, hlog, h.turns]
  · intro j u hu
    rcases getElem?_set_some (hturns ▸ hu) with ⟨rfl, rfl⟩ | hu
    · rw [hcontrol]
      exact h.control ht
    · exact h.control hu
  · intro j u hu hc
    rw [hlog]
    rcases getElem?_set_some (hturns ▸ hu) with ⟨rfl, rfl⟩ | hu
    · rw [hid, hcapture]
      exact hcommitted hc
    · exact h.committed hu hc
  · intro j u hu hs
    rcases getElem?_set_some (hturns ▸ hu) with ⟨rfl, rfl⟩ | hu
    · exact hstarted hs
    · exact h.started hu hs
  · intro j hj
    obtain ⟨hold, hactiveId⟩ := hactive j hj
    obtain ⟨u, hu, huid⟩ := h.active hold
    obtain ⟨u', hu', hid', -⟩ := hat hu
    exact ⟨u', hu', by rw [hactiveId, huid, hid']⟩
  · intro a b j e hsplit
    obtain ⟨u, hu, hc⟩ := h.effects (hlog ▸ hsplit)
    obtain ⟨u', hu', hid', hcapture'⟩ := hat hu
    exact ⟨u', hu', by rwa [hid', hcapture']⟩

/-- The endpoint of a new turn. -/
theorem Acts.open (h : s.Acts) {k : ℕ} {c : CaptureResult Audio}
    (hturns : s'.turns = s.turns ++ [Turn.new k c (some ⟨false, false⟩)])
    (hactive : s'.active = some s.turns.length) (hactiveId : s'.activeTurnId = some k)
    (hlog : s'.log = s.log ++ [.handled ⟨.endpoint, k, some c⟩]) : s'.Acts := by
  have hcases : ∀ {i : ℕ} {t : Turn Audio}, s'.turns[i]? = some t →
      s.turns[i]? = some t ∨ t = Turn.new k c (some ⟨false, false⟩) := by
    intro i t hi
    rw [hturns, List.getElem?_append] at hi
    split at hi
    · exact .inl hi
    · exact .inr (List.mem_singleton.mp (List.mem_of_getElem? hi))
  constructor
  · rw [hturns, hlog, handledEvents_append, opened_append, List.map_append, h.turns]
    rfl
  · intro i t hi
    rcases hcases hi with hi | rfl
    · exact h.control hi
    · rfl
  · intro i t hi hc
    rw [hlog, handledEvents_append]
    rcases hcases hi with hi | rfl
    · exact List.mem_append_left _ (h.committed hi hc)
    · cases hc
  · intro i t hi hs
    rcases hcases hi with hi | rfl
    · exact h.started hi hs
    · cases hs
  · intro i hi
    rw [hactive] at hi
    cases hi
    refine ⟨Turn.new k c (some ⟨false, false⟩), ?_, hactiveId⟩
    rw [hturns, List.getElem?_append_right le_rfl, Nat.sub_self]
    rfl
  · intro a b i e hsplit
    rcases Run.split_concat (hlog.symm.trans hsplit) with ⟨-, heq, -⟩ | ⟨rest, -, hold⟩
    · cases heq
    · obtain ⟨t, ht, hc⟩ := h.effects hold
      refine ⟨t, ?_, hc⟩
      rw [hturns, List.getElem?_append_left (List.getElem?_eq_some_iff.mp ht).1, ht]

/-- The events are where they were. -/
structure SameFlow (s s' : System Audio) : Prop where
  session : s'.session = s.session
  posted : s'.posted = s.posted
  queue : s'.queue = s.queue
  log : s'.log = s.log

theorem SameFlow.trans {s₁ s₂ s₃ : System Audio} (h : s₁.SameFlow s₂) (h' : s₂.SameFlow s₃) :
    s₁.SameFlow s₃ where
  session := h'.session.trans h.session
  posted := h'.posted.trans h.posted
  queue := h'.queue.trans h.queue
  log := h'.log.trans h.log

theorem SameFlow.cancelActive (s : System Audio) : s.SameFlow s.cancelActive := by
  unfold System.cancelActive
  cases s.active <;> exact ⟨rfl, rfl, rfl, rfl⟩

theorem SameFlow.abort (s : System Audio) : s.SameFlow s.abort :=
  (cancelActive s).trans ⟨rfl, rfl, rfl, rfl⟩

theorem SameFlow.raiseCompletedTurnErrors (s : System Audio) :
    s.SameFlow s.raiseCompletedTurnErrors := by
  unfold System.raiseCompletedTurnErrors
  split
  · exact .abort s
  · exact ⟨rfl, rfl, rfl, rfl⟩

theorem SameFlow.applyCaptureMode (s : System Audio) (c : CaptureResult Audio) :
    s.SameFlow (s.applyCaptureMode c) := by
  unfold System.applyCaptureMode
  dsimp only
  split <;> exact ⟨rfl, rfl, rfl, rfl⟩

theorem SameFlow.commitActive (s : System Audio) (k : ℕ) : s.SameFlow (s.commitActive k) := by
  unfold System.commitActive
  split
  · split <;> exact ⟨rfl, rfl, rfl, rfl⟩
  · exact ⟨rfl, rfl, rfl, rfl⟩

theorem SameFlow.handleEvent (s : System Audio) (e : CaptureStreamEvent Audio) :
    s.SameFlow (s.handleEvent e) := by
  unfold System.handleEvent
  cases e.kind with
  | endpoint =>
    cases e.capture with
    | none => exact ⟨rfl, rfl, rfl, rfl⟩
    | some c => exact (cancelActive s).trans ⟨rfl, rfl, rfl, rfl⟩
  | resumed =>
    dsimp only
    split
    · exact (cancelActive s).trans ⟨rfl, rfl, rfl, rfl⟩
    · exact ⟨rfl, rfl, rfl, rfl⟩
  | confirmed =>
    dsimp only
    cases e.capture.or s.activeCapture with
    | none => exact (commitActive s _).trans ⟨rfl, rfl, rfl, rfl⟩
    | some c => exact ((applyCaptureMode s c).trans (commitActive _ _)).trans ⟨rfl, rfl, rfl, rfl⟩
  | modeSwitch =>
    cases e.capture with
    | none => exact ⟨rfl, rfl, rfl, rfl⟩
    | some c => exact (applyCaptureMode s c).trans ⟨rfl, rfl, rfl, rfl⟩

/-- What one step of the loop can do. -/
inductive Handled (s : System Audio) : System Audio → Prop
  | waits : Handled s s
  | event (e : CaptureStreamEvent Audio) (queue : List (CaptureStreamEvent Audio))
    (hloop : s.loop = .running) (hqueue : s.queue = e :: queue) :
    Handled s ((({ s with queue }).record [.handled e]).handleEvent e).raiseCompletedTurnErrors
  | gathers (hloop : s.loop = .running) (hqueue : s.queue = [])
    (hworker : s.worker = some .returned) : Handled s { s with loop := .gathering }
  | aborts (hloop : s.loop = .running) : Handled s s.abort
  | gathering (hloop : s.loop = .gathering) : Handled s s.gather

theorem handled (s : System Audio) : Handled s s.handle := by
  unfold handle
  split
  · rename_i hloop
    split
    · rename_i e queue hqueue
      exact .event e queue hloop hqueue
    · rename_i hqueue
      split
      · exact .waits
      · rename_i hworker
        exact .gathers hloop hqueue hworker
      · exact .aborts hloop
  · rename_i hloop
    exact .gathering hloop
  · exact .waits

theorem gather_eq (s : System Audio) : ∃ loop, s.gather = { s with loop } := by
  unfold gather
  split
  · exact ⟨_, rfl⟩
  · split
    · exact ⟨_, rfl⟩
    · split
      · exact ⟨_, rfl⟩
      · exact ⟨s.loop, rfl⟩

/-- What the capture thread has handed over is handled in order, and is a stream of turns. -/
structure Flows (s : System Audio) : Prop where
  plain : s.session.Plain
  stream : ∃ o, Stream (emittedEvents s.log) o s.session.turnId ∧ s.session.Follows o
  separates : s.session.Separates (emissions s.log)
  flow : emittedEvents s.log = handledEvents s.log ++ s.queue ++ puts s.posted

theorem flows_start (mode : ConversationMode) : (start mode : System Audio).Flows where
  plain := Session.plain_init _
  stream := ⟨none, .nil, Session.follows_init _⟩
  separates := Session.separates_init _
  flow := rfl

theorem Flows.of_same (h : s.Flows) (hs : s.SameFlow s') : s'.Flows where
  plain := hs.session ▸ h.plain
  stream := by
    rw [hs.session, hs.log]
    exact h.stream
  separates := by
    rw [hs.session, hs.log]
    exact h.separates
  flow := by
    rw [hs.log, hs.queue, hs.posted]
    exact h.flow

/-- Effects are not events. -/
theorem Flows.effects (h : s.Flows) (hsession : s'.session = s.session)
    (hposted : s'.posted = s.posted) (hqueue : s'.queue = s.queue) {i : ℕ} {es : List Effect}
    (hlog : s'.log = s.log ++ es.map (Moment.effect i)) : s'.Flows := by
  have hem : emissions s'.log = emissions s.log := by
    have hnil : emissions (es.map (Moment.effect i) : List (Moment Audio)) = [] := by
      simp [emissions]
    rw [hlog, emissions_append, hnil, List.append_nil]
  have hhandled : handledEvents s'.log = handledEvents s.log := by
    have hnil : handledEvents (es.map (Moment.effect i) : List (Moment Audio)) = [] := by
      simp [handledEvents]
    rw [hlog, handledEvents_append, hnil, List.append_nil]
  constructor
  · exact hsession ▸ h.plain
  · rw [emittedEvents, hem, hsession]
    exact h.stream
  · rw [hem, hsession]
    exact h.separates
  · rw [emittedEvents, hem, hhandled, hposted, hqueue]
    exact h.flow

theorem Flows.capture (h : s.Flows) (config : VoiceConfig) (input : Input Audio) :
    (s.capture config input).Flows := by
  rcases capture_cases config s input h.plain with ⟨-, heq⟩ | ⟨-, session, controller, event, hmoved, heq⟩
  · rwa [heq]
  · rw [heq]
    have hem : emissions (s.log ++ (event.map fun e => .emitted e s.session.segmenter).toList) =
        emissions s.log ++ (event.map fun e => (e, s.session.segmenter)).toList := by
      rw [emissions_append]
      cases event <;> rfl
    have hemitted : emittedEvents (s.log ++
        (event.map fun e => .emitted e s.session.segmenter).toList) =
        emittedEvents s.log ++ event.toList := by
      rw [emittedEvents, hem, List.map_append]
      cases event <;> rfl
    constructor
    · exact hmoved.plain h.plain
    · obtain ⟨o, hs, hf⟩ := h.stream
      obtain ⟨o', hs', hf'⟩ := hmoved.stream hs hf
      exact ⟨o', hemitted ▸ hs', hf'⟩
    · exact hem ▸ hmoved.separates h.separates
    · have hhandled : handledEvents ((event.map fun e =>
          Moment.emitted e s.session.segmenter).toList : List (Moment Audio)) = [] := by
        cases event <;> rfl
      have hputs : puts ((event.map Callback.put).toList ++
          ((completion? session).map Callback.complete).toList) = event.toList := by
        rw [puts_append]
        cases event <;> cases completion? session <;> rfl
      change emittedEvents _ = handledEvents _ ++ s.queue ++ puts (s.posted ++ _ ++ _)
      rw [hemitted, h.flow, handledEvents_append, hhandled, List.append_nil,
        List.append_assoc s.posted, puts_append, hputs, List.append_assoc _ (puts s.posted)]

/-- The callbacks run in order. -/
theorem Flows.deliver (h : s.Flows) : s.deliver.Flows := by
  unfold System.deliver
  split
  · exact h
  · rename_i e posted hposted
    refine ⟨h.plain, h.stream, h.separates, ?_⟩
    change emittedEvents s.log = handledEvents s.log ++ (s.queue ++ [e]) ++ puts posted
    rw [h.flow, hposted, List.append_assoc, List.append_assoc, List.append_assoc]
    rfl
  · rename_i outcome posted hposted
    refine ⟨h.plain, h.stream, h.separates, ?_⟩
    change emittedEvents s.log = handledEvents s.log ++ s.queue ++ puts posted
    rw [h.flow, hposted]
    rfl

/-- The event that the loop takes. -/
theorem Flows.take (h : s.Flows) {e : CaptureStreamEvent Audio}
    {queue : List (CaptureStreamEvent Audio)} (hqueue : s.queue = e :: queue) :
    (({ s with queue } : System Audio).record [.handled e]).Flows := by
  have hem : emissions (s.log ++ [.handled e]) = emissions s.log := by
    rw [emissions_append]
    exact List.append_nil _
  refine ⟨h.plain, ?_, ?_, ?_⟩
  · change ∃ o, Stream (emittedEvents (s.log ++ [.handled e])) o s.session.turnId ∧ _
    rw [emittedEvents, hem]
    exact h.stream
  · change s.session.Separates (emissions (s.log ++ [.handled e]))
    rw [hem]
    exact h.separates
  · change emittedEvents (s.log ++ [.handled e]) =
      handledEvents (s.log ++ [.handled e]) ++ queue ++ puts s.posted
    have hflow := h.flow
    rw [hqueue] at hflow
    rw [emittedEvents, hem, handledEvents_append, List.append_assoc (handledEvents s.log)]
    exact hflow

theorem Flows.handle (h : s.Flows) : s.handle.Flows := by
  have hhandled := s.handled
  generalize s.handle = s' at hhandled
  cases hhandled with
  | waits => exact h
  | event e queue hloop hqueue =>
    exact (h.take hqueue).of_same ((SameFlow.handleEvent _ e).trans (.raiseCompletedTurnErrors _))
  | gathers => exact h.of_same ⟨rfl, rfl, rfl, rfl⟩
  | aborts => exact h.of_same (.abort s)
  | gathering =>
    obtain ⟨loop, heq⟩ := s.gather_eq
    rw [heq]
    exact h.of_same ⟨rfl, rfl, rfl, rfl⟩

/-- A step of a turn task, in the system. -/
theorem turn_cases (services : Services Audio) (s : System Audio) (i : ℕ) (input : TurnInput) :
    s.turn services i input = s ∨ ∃ t t' controller effects,
      s.turns[i]? = some t ∧ t.Moved s.controller t' controller effects ∧
      s.turn services i input = { s with
        turns := s.turns.set i t'
        controller
        log := s.log ++ effects.map (Moment.effect i)
        history := if Effect.modeChange .continuousConversation ∈ effects then
          { s.history with explicit := s.history.explicit ++ [.continuousConversation] }
          else s.history } := by
  unfold turn
  split
  · exact .inl rfl
  · rename_i t ht
    refine .inr ⟨t, _, _, _, ht, t.moved services s.controller input, ?_⟩
    dsimp only
    split
    · rfl
    · rfl

theorem Flows.turn (h : s.Flows) (services : Services Audio) (i : ℕ) (input : TurnInput) :
    (s.turn services i input).Flows := by
  rcases s.turn_cases services i input with heq | ⟨t, t', controller, effects, -, -, heq⟩
  · rwa [heq]
  · rw [heq]
    exact h.effects rfl rfl rfl rfl

theorem Flows.step (h : s.Flows) (config : VoiceConfig) (services : Services Audio)
    (action : Action Audio) : (s.step config services action).Flows := by
  cases action with
  | capture input => exact h.capture config input
  | deliver => exact h.deliver
  | handle => exact h.handle
  | turn i input => exact h.turn services i input
  | dispatchConversationModeOff i =>
    change (s.dispatchConversationModeOff i).Flows
    unfold System.dispatchConversationModeOff
    split
    · have hlog : s.log ++ [.effect i (.modeChange .wakeCommand)] =
          s.log ++ [Effect.modeChange .wakeCommand].map (Moment.effect i) := rfl
      exact h.effects rfl rfl rfl hlog
    · exact h
  | interrupt =>
    change s.interrupt.Flows
    unfold System.interrupt
    split
    · exact h.of_same (.abort s)
    · exact h
  | cancelBackgroundTurns =>
    change s.cancelBackgroundTurns.Flows
    unfold System.cancelBackgroundTurns
    split
    · exact h.of_same ⟨rfl, rfl, rfl, rfl⟩
    · exact h

theorem Acts.capture (h : s.Acts) (hplain : s.session.Plain) (config : VoiceConfig)
    (input : Input Audio) : (s.capture config input).Acts := by
  rcases capture_cases config s input hplain with ⟨-, heq⟩ | ⟨-, session, controller, event, -, heq⟩
  · rwa [heq]
  · rw [heq]
    cases event with
    | none => exact h.of_same (.of_eq rfl) (List.append_nil _) fun _ hi => ⟨hi, rfl⟩
    | some e => exact h.moment ⟨rfl, rfl, rfl⟩ rfl nofun rfl

theorem Acts.turn (h : s.Acts) (services : Services Audio) (i : ℕ) (input : TurnInput) :
    (s.turn services i input).Acts := by
  rcases s.turn_cases services i input with heq | ⟨t, t', controller, effects, ht, hmoved, heq⟩
  · rwa [heq]
  · rw [heq]
    have hstarted := h.started ht
    have heffects := fun hc : t.isCommitted = true => h.effects_append ht hc effects
    cases hmoved with
    | stays | goes =>
      exact h.set ht rfl (List.append_nil _) (fun _ hi => ⟨hi, rfl⟩) rfl rfl rfl
        (fun hc => h.committed ht hc) hstarted
    | turnsOn hfinished hcommitted | replies text hfinished hcommitted =>
      have hc := hcommitted (h.control ht)
      exact (heffects hc).set ht rfl rfl (fun _ hi => ⟨hi, rfl⟩) rfl rfl rfl
        (fun _ => (heffects hc).committed ht hc) fun _ => hc

theorem Acts.dispatchConversationModeOff (h : s.Acts) (i : ℕ) :
    (s.dispatchConversationModeOff i).Acts := by
  unfold System.dispatchConversationModeOff
  split
  · rename_i hstarted
    obtain ⟨t, ht, hstarted⟩ := (Option.any_eq_true _ _).mp hstarted
    exact h.effect ⟨rfl, rfl, rfl⟩ ht (h.started ht hstarted) rfl
  · exact h

/-- The events that the loop has handled are a stream of turns. -/
theorem Flows.handled_stream (h : s.Flows) : ∃ o n, Stream (handledEvents s.log) o n := by
  obtain ⟨o, hs, -⟩ := h.stream
  rw [h.flow, List.append_assoc] at hs
  exact hs.of_append

theorem cancelActive_turns (s : System Audio) :
    s.cancelActive.turns = match s.active with
      | none => s.turns
      | some i => s.turns.modify i fun t => t.cancelControl.cancelTask := by
  unfold cancelActive
  cases s.active <;> rfl

@[simp] theorem cancelActive_active (s : System Audio) : s.cancelActive.active = s.active := by
  unfold cancelActive
  split <;> rfl

@[simp] theorem cancelActive_activeTurnId (s : System Audio) :
    s.cancelActive.activeTurnId = s.activeTurnId := by
  unfold cancelActive
  split <;> rfl

@[simp] theorem cancelActive_log (s : System Audio) : s.cancelActive.log = s.log :=
  (SameFlow.cancelActive s).log

theorem Acts.cancelActive (h : s.Acts) : s.cancelActive.Acts :=
  h.of_same (.cancelActive s) (cancelActive_log s) fun i hi => ⟨cancelActive_active s ▸ hi, by simp⟩

theorem Acts.raiseCompletedTurnErrors (h : s.Acts) : s.raiseCompletedTurnErrors.Acts := by
  refine h.of_same (.raiseCompletedTurnErrors s) (SameFlow.raiseCompletedTurnErrors s).log ?_
  intro i hi
  unfold System.raiseCompletedTurnErrors at hi ⊢
  split at hi
  · rename_i hany
    rw [if_pos hany]
    exact ⟨cancelActive_active s ▸ hi, cancelActive_activeTurnId s⟩
  · rename_i hany
    rw [if_neg hany]
    exact ⟨hi, rfl⟩

/-- The turn of an endpoint replaces the active one. -/
theorem Acts.endpoint (h : s.Acts) (queue : List (CaptureStreamEvent Audio)) (k : ℕ)
    (c : CaptureResult Audio) :
    ((({ s with queue } : System Audio).record [.handled ⟨.endpoint, k, some c⟩]).handleEvent
      ⟨.endpoint, k, some c⟩).Acts := by
  refine h.cancelActive.open (k := k) (c := c) ?_ ?_ rfl ?_
  · simp only [handleEvent, createTurn, cancelActive_turns, record]
  · simp only [handleEvent, createTurn, cancelActive_turns, record]
  · rw [cancelActive_log]
    exact (SameFlow.handleEvent _ _).log

theorem Acts.resumed (h : s.Acts) (queue : List (CaptureStreamEvent Audio)) (k : ℕ) :
    ((({ s with queue } : System Audio).record [.handled ⟨.resumed, k, none⟩]).handleEvent
      ⟨.resumed, k, none⟩).Acts := by
  have hrecord : (({ s with queue } : System Audio).record [.handled ⟨.resumed, k, none⟩]).Acts :=
    h.moment ⟨rfl, rfl, rfl⟩ rfl nofun rfl
  unfold handleEvent
  dsimp only
  split
  · exact hrecord.cancelActive.of_same (.of_eq rfl) rfl nofun
  · exact hrecord

theorem mem_opened {es : List (CaptureStreamEvent Audio)} {k : ℕ} {c : CaptureResult Audio} :
    (k, c) ∈ opened es ↔ ⟨.endpoint, k, some c⟩ ∈ es := by
  unfold opened
  rw [List.mem_filterMap]
  constructor
  · rintro ⟨⟨kind, k', capture⟩, he, heq⟩
    cases kind <;> cases capture <;> simp at heq
    obtain ⟨rfl, rfl⟩ := heq
    exact he
  · exact fun he => ⟨_, he, rfl⟩

/-- A turn has the capture of its endpoint. -/
theorem Acts.endpoint_mem (h : s.Acts) {i : ℕ} {t : Turn Audio} (ht : s.turns[i]? = some t) :
    ⟨.endpoint, t.id, some t.capture⟩ ∈ handledEvents s.log := by
  rw [← mem_opened, ← h.turns]
  exact List.mem_map_of_mem (List.mem_of_getElem? ht)

theorem Acts.commitActive (h : s.Acts) {k : ℕ} {c : CaptureResult Audio}
    (hmem : ⟨.confirmed, k, some c⟩ ∈ handledEvents s.log)
    (hcapture : ∀ t ∈ s.turns, t.id = k → t.capture = c) : (s.commitActive k).clearActive.Acts := by
  unfold System.commitActive
  cases hactive : s.active with
  | none => exact h.of_same (.of_eq rfl) rfl nofun
  | some i =>
    dsimp only
    split
    · rename_i hid
      obtain ⟨t, ht, htid⟩ := h.active hactive
      obtain rfl : t.id = k := Option.some.inj (htid.symm.trans hid)
      refine h.set ht (modify_eq_set Turn.commit ht) rfl nofun rfl rfl ?_ (fun _ => ?_) fun _ => ?_
      · simp [Turn.commit]
      · rwa [hcapture t (List.mem_of_getElem? ht) rfl]
      · obtain ⟨control, hcontrol⟩ := Option.isSome_iff_exists.mp (h.control ht)
        simp [Turn.commit, Turn.isCommitted, hcontrol]
    · exact h.of_same (.of_eq rfl) rfl nofun

/-- The active turn is committed when its own capture is confirmed. -/
theorem Acts.confirmed (h : s.Acts) (queue : List (CaptureStreamEvent Audio)) {k n : ℕ}
    {c : CaptureResult Audio} (hs : Stream (handledEvents s.log) (some (k, c)) n) :
    ((({ s with queue } : System Audio).record [.handled ⟨.confirmed, k, some c⟩]).handleEvent
      ⟨.confirmed, k, some c⟩).Acts := by
  have hrecord : (({ s with queue } : System Audio).record
      [.handled ⟨.confirmed, k, some c⟩]).Acts := h.moment ⟨rfl, rfl, rfl⟩ rfl nofun rfl
  have happly : ((({ s with queue } : System Audio).record
      [.handled ⟨.confirmed, k, some c⟩]).applyCaptureMode c).Acts := by
    unfold applyCaptureMode
    dsimp only
    split
    · exact hrecord.of_same (.of_eq rfl) rfl fun _ hi => ⟨hi, rfl⟩
    · exact hrecord.of_same (.of_eq rfl) rfl fun _ hi => ⟨hi, rfl⟩
  refine happly.commitActive (c := c) ?_ ?_
  · rw [(SameFlow.applyCaptureMode _ c).log]
    change _ ∈ handledEvents (s.log ++ [.handled ⟨.confirmed, k, some c⟩])
    rw [handledEvents_append]
    exact List.mem_append_right _ (List.mem_singleton_self _)
  · intro t ht hid
    have hturns : ((({ s with queue } : System Audio).record
        [.handled ⟨.confirmed, k, some c⟩]).applyCaptureMode c).turns = s.turns := by
      unfold applyCaptureMode
      dsimp only
      split <;> rfl
    rw [hturns] at ht
    obtain ⟨i, hi⟩ := List.mem_iff_getElem?.mp ht
    have hendpoint := h.endpoint_mem hi
    rw [hid] at hendpoint
    exact Option.some.inj (hs.endpoint_unique hendpoint hs.of_open.2.1)

theorem Acts.handle (h : s.Acts) (hf : s.Flows) : s.handle.Acts := by
  have hhandled := s.handled
  generalize s.handle = s' at hhandled
  cases hhandled with
  | waits => exact h
  | event e queue hloop hqueue =>
    refine Acts.raiseCompletedTurnErrors ?_
    obtain ⟨o, n, hs⟩ := (hf.take hqueue).handled_stream
    change Stream (handledEvents (s.log ++ [.handled e])) o n at hs
    rw [handledEvents_append] at hs
    cases hs.last with
    | endpoint => exact h.endpoint queue _ _
    | resumed => exact h.resumed queue _
    | confirmed hs => exact h.confirmed queue hs
  | gathers => exact h.of_same (.of_eq rfl) rfl fun _ hi => ⟨hi, rfl⟩
  | aborts => exact h.cancelActive.of_same (.of_eq rfl) rfl fun _ hi => ⟨hi, rfl⟩
  | gathering =>
    obtain ⟨loop, heq⟩ := s.gather_eq
    rw [heq]
    exact h.of_same (.of_eq rfl) rfl fun _ hi => ⟨hi, rfl⟩

/-- What every step keeps. -/
theorem Acts.step (h : s.Acts) (hf : s.Flows) (config : VoiceConfig) (services : Services Audio)
    (action : Action Audio) : (s.step config services action).Acts := by
  cases action with
  | capture input => exact h.capture hf.plain config input
  | deliver =>
    change s.deliver.Acts
    unfold deliver
    split
    · exact h
    · exact h.of_same (.of_eq rfl) rfl fun _ hi => ⟨hi, rfl⟩
    · exact h.of_same (.of_eq rfl) rfl fun _ hi => ⟨hi, rfl⟩
  | handle => exact h.handle hf
  | turn i input => exact h.turn services i input
  | dispatchConversationModeOff i => exact h.dispatchConversationModeOff i
  | interrupt =>
    change s.interrupt.Acts
    unfold interrupt
    split
    · exact h.cancelActive.of_same (.of_eq rfl) rfl fun _ hi => ⟨hi, rfl⟩
    · exact h
  | cancelBackgroundTurns =>
    refine h.of_same (.cancelBackgroundTurns s) ?_ ?_
    · change s.cancelBackgroundTurns.log = s.log
      unfold cancelBackgroundTurns
      split <;> rfl
    · intro i hi
      change s.cancelBackgroundTurns.active = some i at hi
      change s.active = some i ∧ s.cancelBackgroundTurns.activeTurnId = s.activeTurnId
      unfold cancelBackgroundTurns at hi ⊢
      split at hi
      · exact ⟨hi, rfl⟩
      · exact ⟨hi, rfl⟩

theorem run_safe (config : VoiceConfig) (services : Services Audio) (mode : ConversationMode)
    (actions : List (Action Audio)) :
    (run config services mode actions).Flows ∧ (run config services mode actions).Acts := by
  have hstep : ∀ (s : System Audio) (action : Action Audio), s.Flows ∧ s.Acts →
      (s.step config services action).Flows ∧ (s.step config services action).Acts :=
    fun s action h => ⟨h.1.step config services action, h.2.step h.1 config services action⟩
  exact Run.foldl_keeps hstep actions _ ⟨flows_start mode, acts_start mode⟩

/-- What has been handled was handed over before. -/
theorem Flows.emitted_of_handled (h : s.Flows) {e : CaptureStreamEvent Audio}
    (he : e ∈ handledEvents s.log) : e ∈ emittedEvents s.log := by
  rw [h.flow, List.append_assoc]
  exact List.mem_append_left _ he

/-- A turn that acts is confirmed. -/
theorem Acts.confirmed_of_effect (h : s.Acts) {i : ℕ} {e : Effect} (he : .effect i e ∈ s.log)
    {t : Turn Audio} (ht : s.turns[i]? = some t) :
    ⟨.confirmed, t.id, some t.capture⟩ ∈ handledEvents s.log := by
  obtain ⟨a, b, hsplit⟩ := List.append_of_mem he
  obtain ⟨u, hu, hc⟩ := h.effects hsplit
  rw [ht] at hu
  cases hu
  rw [hsplit, handledEvents_append]
  exact List.mem_append_left _ hc

/-- A turn that another one is opened over is not confirmed any more. -/
theorem not_confirmed_of_superseded {es : List (CaptureStreamEvent Audio)}
    {o : Option (ℕ × CaptureResult Audio)} {n k : ℕ} (h : Stream es o n)
    {a b : List (CaptureStreamEvent Audio)} {e : CaptureStreamEvent Audio} (hes : es = a ++ e :: b)
    (hk : k < e.turnId) {c : Option (CaptureResult Audio)} (ha : ⟨.confirmed, k, c⟩ ∉ a) :
    ⟨.confirmed, k, c⟩ ∉ es := by
  intro hmem
  obtain ⟨before, rest, hsplit⟩ := List.append_of_mem hmem
  have hle := (hsplit ▸ h).le_of_confirmed
  rcases List.append_eq_append_iff.mp (hes.symm.trans hsplit) with ⟨m, hbefore, hrest⟩ | ⟨m, ha', hrest⟩
  · cases m with
    | nil =>
      obtain rfl := (List.cons.inj hrest).1
      exact absurd hk (lt_irrefl k)
    | cons x m =>
      obtain rfl := (List.cons.inj hrest).1
      have hmem : e ∈ before := by
        rw [hbefore]
        exact List.mem_append_right _ List.mem_cons_self
      exact absurd (hle e hmem) hk.not_ge
  · cases m with
    | nil =>
      obtain rfl := (List.cons.inj hrest).1
      exact absurd hk (lt_irrefl k)
    | cons x m =>
      obtain rfl := (List.cons.inj hrest).1
      rw [ha'] at ha
      exact ha (List.mem_append_right _ List.mem_cons_self)

theorem opened_ids {es : List (CaptureStreamEvent Audio)} {o : Option (ℕ × CaptureResult Audio)}
    {n : ℕ} (h : Stream es o n) : ((opened es).map Prod.fst).Nodup := by
  have hids : (opened es).map Prod.fst =
      (es.filter fun e => Stream.Opens e).map CaptureStreamEvent.turnId := by
    induction h with
    | nil => rfl
    | endpoint h hk ih =>
      rw [opened_append, List.map_append, ih, List.filter_append, List.map_append]
      rfl
    | resumed h ih | confirmed h ih =>
      rw [opened_append, List.map_append, ih, List.filter_append, List.map_append]
      rfl
  rw [hids]
  exact h.ids_increase.imp ne_of_lt

/-- A turn has its id for itself. -/
theorem Acts.index_eq (h : s.Acts) (hf : s.Flows) {i j : ℕ} {t u : Turn Audio}
    (ht : s.turns[i]? = some t) (hu : s.turns[j]? = some u) (hid : t.id = u.id) : i = j := by
  obtain ⟨o, n, hs⟩ := hf.handled_stream
  have hnodup := opened_ids hs
  rw [← h.turns, List.map_map] at hnodup
  have hlt : i < (s.turns.map (Prod.fst ∘ fun t => (t.id, t.capture))).length := by
    rw [List.length_map]
    exact (List.getElem?_eq_some_iff.mp ht).1
  refine (List.getElem?_inj hlt hnodup).mp ?_
  rw [List.getElem?_map, List.getElem?_map, ht, hu]
  exact congrArg some hid

/-- The audio of a confirmed turn is not the audio of a later one. -/
theorem Flows.segmenter_lt (h : s.Flows) {k l g g' : ℕ} {a b c : Option (CaptureResult Audio)}
    (hconfirmed : ⟨.confirmed, k, a⟩ ∈ emittedEvents s.log)
    (hk : (⟨.endpoint, k, b⟩, g) ∈ emissions s.log) (hl : (⟨.endpoint, l, c⟩, g') ∈ emissions s.log)
    (hkl : k < l) : g < g' := by
  obtain ⟨⟨e, g₁⟩, hmem, rfl⟩ := List.mem_map.mp hconfirmed
  obtain ⟨before, rest, hsplit⟩ := List.append_of_mem hmem
  obtain ⟨o, hs, -⟩ := h.stream
  rw [emittedEvents, hsplit, List.map_append, List.map_cons] at hs
  have hordered := h.separates.ordered
  rw [hsplit, List.pairwise_append, List.pairwise_cons] at hordered
  have hafter : g₁ < g' := by
    rw [hsplit] at hl
    rcases List.mem_append.mp hl with hl | hl
    · exact absurd (hs.le_of_confirmed _ (List.mem_map_of_mem hl)) hkl.not_ge
    · rcases List.mem_cons.mp hl with heq | hl
      · cases heq
      · exact (hordered.2.1.1 _ hl).2 rfl
  have hbefore : g ≤ g₁ := by
    rw [hsplit] at hk
    rcases List.mem_append.mp hk with hk | hk
    · exact (hordered.2.2 _ hk _ List.mem_cons_self).1
    · rcases List.mem_cons.mp hk with heq | hk
      · cases heq
      · exact absurd (List.mem_map_of_mem hk) hs.not_endpoint_after_confirmed
  exact hbefore.trans_lt hafter

/-- Two turns that act have their audio from two segmenters. -/
theorem eq_of_segmenter (h : s.Acts) (hf : s.Flows) {i j g : ℕ} {t u : Turn Audio} {d e : Effect}
    (hd : .effect i d ∈ s.log) (he : .effect j e ∈ s.log) (ht : s.turns[i]? = some t)
    (hu : s.turns[j]? = some u)
    (hti : (⟨.endpoint, t.id, some t.capture⟩, g) ∈ emissions s.log)
    (huj : (⟨.endpoint, u.id, some u.capture⟩, g) ∈ emissions s.log) : i = j := by
  have hconfirmed := hf.emitted_of_handled (h.confirmed_of_effect hd ht)
  have hconfirmed' := hf.emitted_of_handled (h.confirmed_of_effect he hu)
  rcases lt_trichotomy t.id u.id with hlt | heq | hlt
  · exact absurd (hf.segmenter_lt hconfirmed hti huj hlt) (lt_irrefl g)
  · exact h.index_eq hf ht hu heq
  · exact absurd (hf.segmenter_lt hconfirmed' huj hti hlt) (lt_irrefl g)

/-- A turn that is resumed is not confirmed. -/
theorem not_confirmed_of_resumed {es : List (CaptureStreamEvent Audio)}
    {o : Option (ℕ × CaptureResult Audio)} {n k : ℕ} (h : Stream es o n)
    {a b : Option (CaptureResult Audio)} (hr : ⟨.resumed, k, a⟩ ∈ es) :
    ⟨.confirmed, k, b⟩ ∉ es := by
  intro hc
  have hone := h.settled_once k
  have hr' : ⟨.resumed, k, a⟩ ∈ es.filter fun e => Stream.Settles k e :=
    List.mem_filter.mpr ⟨hr, by simp [Stream.Settles]⟩
  have hc' : ⟨.confirmed, k, b⟩ ∈ es.filter fun e => Stream.Settles k e :=
    List.mem_filter.mpr ⟨hc, by simp [Stream.Settles]⟩
  obtain ⟨e, he⟩ := List.length_eq_one_iff.mp
    (le_antisymm hone (List.length_pos_of_mem hr'))
  rw [he, List.mem_singleton] at hr' hc'
  cases hr'.trans hc'.symm

/-- Speculative turns are safe: the events of the session are in order, and a turn acts only on its
own confirmed capture. -/
theorem speculative_turns_safe (config : VoiceConfig) (services : Services Audio)
    (mode : ConversationMode) (actions : List (Action Audio)) :
    let s := run config services mode actions
    ((emittedEvents s.log).filter fun e => Stream.Opens e).Pairwise (·.turnId < ·.turnId) ∧
    (∀ k, ((emittedEvents s.log).filter fun e => Stream.Settles k e).length ≤ 1) ∧
    (∀ k c, ⟨.confirmed, k, c⟩ ∈ emittedEvents s.log →
      c ≠ none ∧ ⟨.endpoint, k, c⟩ ∈ emittedEvents s.log) ∧
    (∀ i t e a b, s.turns[i]? = some t → s.log = a ++ .effect i e :: b →
      ⟨.confirmed, t.id, some t.capture⟩ ∈ handledEvents a) ∧
    (∀ i t e, s.turns[i]? = some t →
      (∃ c, ⟨.resumed, t.id, c⟩ ∈ emittedEvents s.log) ∨
        (∃ a b e, emittedEvents s.log = a ++ e :: b ∧ t.id < e.turnId ∧
          ∀ c, ⟨.confirmed, t.id, c⟩ ∉ a) →
      .effect i e ∉ s.log) ∧
    ∀ i j t u d e g, .effect i d ∈ s.log → .effect j e ∈ s.log → s.turns[i]? = some t →
      s.turns[j]? = some u → (⟨.endpoint, t.id, some t.capture⟩, g) ∈ emissions s.log →
      (⟨.endpoint, u.id, some u.capture⟩, g) ∈ emissions s.log → i = j := by
  intro s
  obtain ⟨hf, ha⟩ := run_safe config services mode actions
  obtain ⟨o, hs, -⟩ := hf.stream
  refine ⟨List.pairwise_map.mp hs.ids_increase, hs.settled_once, ?_, ?_, ?_, ?_⟩
  · intro k c hc
    obtain ⟨c, rfl, hendpoint⟩ := hs.mem_of_confirmed hc
    exact ⟨nofun, hendpoint⟩
  · intro i t e a b ht hsplit
    obtain ⟨u, hu, hc⟩ := ha.effects hsplit
    rw [ht] at hu
    cases hu
    exact hc
  · intro i t e ht hdiscarded he
    have hconfirmed := hf.emitted_of_handled (ha.confirmed_of_effect he ht)
    rcases hdiscarded with ⟨c, hr⟩ | ⟨a, b, e', hsplit, hk, hnot⟩
    · exact not_confirmed_of_resumed hs hr hconfirmed
    · exact not_confirmed_of_superseded hs hsplit hk (hnot _) hconfirmed
  · intro i j t u d e g hd he ht hu hti huj
    exact eq_of_segmenter ha hf hd he ht hu hti huj

end System
end ReframeVoice
