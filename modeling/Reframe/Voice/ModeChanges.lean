import Reframe.Voice.TurnSafety

/-! When the conversation mode that was asked for last stays in force, against the captures that
write the mode they started with back. -/
namespace ReframeVoice

variable {Audio : Type}

/-! The mode of the session and of its captures. -/

/-- The thread has left its turn and not started the next one. -/
def Phase.Between : Phase Audio → Prop
  | .starting _ | .finishing .. | .rereading _ => True
  | _ => False

/-- The state of the turn is the one that frames are heard in. -/
def Phase.InTurn : Phase Audio → Prop
  | .listening | .synchronizing .. | .ending .. | .confirming .. | .resuming .. | .finishing .. => True
  | _ => False

namespace Session

variable {config : VoiceConfig} {s s' : Session Audio}
  {controller controller' : ConversationModeController}
  {event : Option (CaptureStreamEvent Audio)} {looks : Bool}

/-- The captures of a turn have its mode. -/
structure Modes (s : Session Audio) : Prop where
  pending : ∀ k c, s.pending = some (k, c) → c.conversationMode = s.state.conversationMode
  capture : ∀ c, s.phase.capture? = some c → c.conversationMode = s.state.conversationMode
  between : s.phase.Between → s.pending = none

theorem modes_init (controller : ConversationModeController) :
    (Session.init controller : Session Audio).Modes where
  pending := nofun
  capture := nofun
  between _ := rfl

theorem Quiet.not_between {phase : Phase Audio} (h : Quiet phase) : ¬phase.Between := by
  cases h <;> exact id

theorem Onward.not_between {phase : Phase Audio} (h : Onward s phase) : ¬phase.Between := by
  cases h <;> exact id

theorem Onward.conversationMode {phase : Phase Audio} (h : Onward s phase)
    (hp : ∀ k c, s.pending = some (k, c) → c.conversationMode = s.state.conversationMode) :
    ∀ c, phase.capture? = some c → c.conversationMode = s.state.conversationMode := by
  intro c hc
  cases h with
  | listening | raised | resuming => cases hc
  | ending c' rest hmode =>
    cases hc
    exact hmode
  | confirming k c' rest h =>
    cases hc
    exact hp k c h

theorem Moved.modes (h : Moved config s controller s' controller' event looks) (hs : s.Modes) :
    s'.Modes := by
  have hcapture : ∀ {c}, s.phase.capture? = some c → c.conversationMode = s.state.conversationMode :=
    hs.capture _
  cases h with
  | fails error => exact ⟨hs.pending, nofun, nofun⟩
  | starts rest deadline phase hphase hq =>
    have hnone := hs.between (by rw [hphase]; trivial)
    refine ⟨fun k c hp => ?_, by simp [hq.capture?], fun h => absurd h hq.not_between⟩
    change s.pending = some (k, c) at hp
    rw [hnone] at hp
    cases hp
  | hears => exact ⟨hs.pending, nofun, nofun⟩
  | restarts => exact ⟨nofun, nofun, fun _ => rfl⟩
  | accepts frame now state phase hphase hmode hstate hswitch ho =>
    refine ⟨fun k c hp => (hs.pending k c hp).trans hstate.symm, fun c hc => ?_,
      fun h => absurd h ho.not_between⟩
    exact (ho.conversationMode hs.pending c hc).trans hstate.symm
  | opens c rest phase hphase hq =>
    refine ⟨?_, by simp [hq.capture?], fun h => absurd h hq.not_between⟩
    rintro k c' ⟨⟩
    exact hcapture (by rw [hphase]; rfl)
  | opensFinal c rest hphase =>
    refine ⟨hs.pending, ?_, nofun⟩
    rintro c' ⟨⟩
    exact hcapture (by rw [hphase]; rfl)
  | confirms k c rest hphase =>
    refine ⟨nofun, ?_, fun _ => rfl⟩
    rintro c' ⟨⟩
    exact hcapture (by rw [hphase]; rfl)
  | resumes k now phase hphase hq =>
    exact ⟨nofun, by simp [hq.capture?], fun h => absurd h hq.not_between⟩
  | sets c rest hphase =>
    exact ⟨hs.pending, nofun, fun _ => hs.between (by rw [hphase]; trivial)⟩
  | rereads rest phase hphase hnext =>
    have hnone := hs.between (by rw [hphase]; trivial)
    rcases hnext with ⟨rfl, -⟩ | ⟨rfl, -⟩
    · exact ⟨hs.pending, nofun, fun _ => hnone⟩
    · exact ⟨hs.pending, nofun, nofun⟩

/-- A turn has the mode that the controller had at the version the session has seen. -/
structure Watches (s : Session Audio) (controller : ConversationModeController) : Prop where
  le : s.modeVersion ≤ controller.version
  agree : s.phase.InTurn → s.modeVersion = controller.version →
    s.state.conversationMode = controller.mode
  own : s.phase.InTurn → s.conversationMode = s.state.conversationMode

theorem watches_init (controller : ConversationModeController) :
    (Session.init controller : Session Audio).Watches controller where
  le := le_rfl
  agree := nofun
  own := nofun

/-- A change of the mode by others is seen by its version. -/
theorem Watches.set (h : s.Watches controller) (mode : ConversationMode) :
    s.Watches (controller.set mode).2 where
  le := h.le.trans (controller.version_le_set mode)
  agree hphase hversion := by
    have hle : (controller.set mode).2.version ≤ controller.version := hversion ▸ h.le
    have heq : s.modeVersion = controller.version :=
      h.le.antisymm ((controller.version_le_set mode).trans hversion.ge)
    rw [controller.mode_set_of_version hle]
    exact h.agree hphase heq
  own := h.own

theorem Moved.watches (h : Moved config s controller s' controller' event looks)
    (hs : s.Watches controller) : s'.Watches controller' := by
  have hturn : ∀ {phase}, s.phase = phase → phase.InTurn →
      (s.modeVersion = controller.version → s.state.conversationMode = controller.mode) ∧
        s.conversationMode = s.state.conversationMode := by
    rintro phase rfl h
    exact ⟨hs.agree h, hs.own h⟩
  cases h with
  | fails error => exact ⟨hs.le, nofun, nofun⟩
  | starts => exact ⟨le_rfl, fun _ _ => rfl, fun _ => rfl⟩
  | hears frame now hphase =>
    have h := hturn hphase trivial
    exact ⟨hs.le, fun _ => h.1, fun _ => h.2⟩
  | restarts => exact ⟨le_rfl, nofun, nofun⟩
  | accepts frame now state phase hphase hmode hstate hswitch ho =>
    have h := hturn hphase trivial
    refine ⟨le_rfl, fun _ _ => ?_, fun _ => h.2.trans hstate.symm⟩
    rcases hmode with hversion | hmode
    · exact hstate.trans (h.1 hversion.symm)
    · exact hstate.trans hmode.symm
  | opens c rest phase hphase hq =>
    have h := hturn hphase trivial
    exact ⟨hs.le, fun _ => h.1, fun _ => h.2⟩
  | opensFinal c rest hphase =>
    have h := hturn hphase trivial
    exact ⟨hs.le, fun _ => h.1, fun _ => h.2⟩
  | confirms k c rest hphase =>
    have h := hturn hphase trivial
    exact ⟨hs.le, fun _ => h.1, fun _ => h.2⟩
  | resumes k now phase hphase hq =>
    have h := hturn hphase trivial
    exact ⟨hs.le, fun _ => h.1, fun _ => h.2⟩
  | sets c rest hphase => exact ⟨hs.le.trans (controller.version_le_set _), nofun, nofun⟩
  | rereads rest phase hphase hnext =>
    rcases hnext with ⟨rfl, -⟩ | ⟨rfl, -⟩
    · exact ⟨le_rfl, nofun, nofun⟩
    · exact ⟨le_rfl, nofun, nofun⟩

/-- An event carries a capture of the turn. -/
theorem Moved.event_capture (h : Moved config s controller s' controller' event looks)
    {e : CaptureStreamEvent Audio} (he : event = some e) {c : CaptureResult Audio}
    (hc : e.capture = some c) : s.phase.capture? = some c ∧ s.phase.InTurn := by
  cases h with
  | fails | starts | hears | restarts | accepts | sets | rereads => cases he
  | opens c' rest phase hphase =>
    cases he
    cases hc
    rw [hphase]
    exact ⟨rfl, trivial⟩
  | opensFinal c' rest hphase =>
    cases he
    cases hc
    rw [hphase]
    exact ⟨rfl, trivial⟩
  | confirms k c' rest hphase =>
    cases he
    cases hc
    rw [hphase]
    exact ⟨rfl, trivial⟩
  | resumes =>
    cases he
    cases hc

/-- Only a capture that finishes changes the controller. -/
theorem Moved.controller_eq (h : Moved config s controller s' controller' event looks) :
    controller' = controller ∨ ∃ c rest, s.phase = .finishing c rest ∧
      controller' = (controller.set c.conversationMode).2 ∧ s'.phase = .rereading rest := by
  cases h with
  | sets c rest hphase => exact .inr ⟨c, rest, hphase, rfl, rfl⟩
  | fails | starts | hears | restarts | accepts | opens | opensFinal | confirms | resumes |
    rereads => exact .inl rfl

/-- A step that does not look at the controller keeps the state of the turn. -/
theorem Moved.state_eq (h : Moved config s controller s' controller' event false)
    (hphase' : s'.phase.InTurn) : s.phase.InTurn ∧ s'.state = s.state := by
  cases h with
  | fails | sets => exact hphase'.elim
  | hears frame now hphase => exact ⟨by rw [hphase]; trivial, rfl⟩
  | opens c rest phase hphase => exact ⟨by rw [hphase]; trivial, rfl⟩
  | opensFinal c rest hphase => exact ⟨by rw [hphase]; trivial, rfl⟩
  | confirms k c rest hphase => exact ⟨by rw [hphase]; trivial, rfl⟩
  | resumes k now phase hphase => exact ⟨by rw [hphase]; trivial, rfl⟩
  | rereads rest phase hphase hnext =>
    rcases hnext with ⟨rfl, -⟩ | ⟨rfl, -⟩
    · exact hphase'.elim
    · exact hphase'.elim

/-- A step that looks at the controller leaves it, and takes its mode and version over. -/
theorem Moved.looked (h : Moved config s controller s' controller' event true)
    (hs : s.Watches controller) :
    controller' = controller ∧ s'.modeVersion = controller.version ∧
      s'.conversationMode = controller.mode := by
  cases h with
  | starts => exact ⟨rfl, rfl, rfl⟩
  | restarts => exact ⟨rfl, rfl, rfl⟩
  | accepts frame now state phase hphase hmode =>
    have hturn : s.phase.InTurn := by rw [hphase]; trivial
    refine ⟨rfl, rfl, (hs.own hturn).trans ?_⟩
    rcases hmode with hversion | hmode
    · exact hs.agree hturn hversion.symm
    · exact hmode.symm

end Session

/-! The mode of the controller. -/

namespace System

variable {config : VoiceConfig} {services : Services Audio} {mode : ConversationMode}
  {s s' : System Audio}

/-- The mode is the one that was asked for last. -/
def ModeKept (mode : ConversationMode) (s : System Audio) : Prop :=
  s.controller.mode = s.latestMode mode

instance (mode : ConversationMode) (s : System Audio) : Decidable (s.ModeKept mode) :=
  inferInstanceAs (Decidable (_ = _))

/-- The capture that an event makes the loop write back. -/
def appliedCapture? (s : System Audio) (e : CaptureStreamEvent Audio) :
    Option (CaptureResult Audio) :=
  match e.kind with
  | .confirmed => e.capture.or s.activeCapture
  | .modeSwitch => e.capture
  | .endpoint | .resumed => none

/-- The capture whose mode a step writes back, and how many explicit changes its session had looked
at. -/
def writeBack? (s : System Audio) : Action Audio → Option (CaptureResult Audio × ℕ)
  | .capture input =>
    match s.session.phase with
    | .finishing c _ => if input.raises then none else some (c, s.history.seen)
    | _ => none
  | .handle =>
    match s.loop, s.queue with
    | .running, e :: _ => (s.appliedCapture? e).map fun c => (c, s.history.seenBy e.turnId)
    | _, _ => none
  | _ => none

/-- A capture is written back only if it switched the mode itself, or nobody asked for a mode since
its session looked at the controller, or for the mode of the capture. -/
def WritesCurrent (mode : ConversationMode) (s : System Audio) (action : Action Audio) : Prop :=
  ∀ c seen, s.writeBack? action = some (c, seen) →
    c.modeSwitched = true ∨ seen = s.history.explicit.length ∨
      c.conversationMode = s.latestMode mode

/-- The captures that wait for the loop have not switched the mode themselves. -/
structure Modal (s : System Audio) : Prop where
  modes : s.session.Modes
  watches : s.session.Watches s.controller
  seen_le : s.history.seen ≤ s.history.explicit.length
  seenBy_le : ∀ k, s.history.seenBy k ≤ s.history.explicit.length
  plain : ∀ e ∈ s.queue ++ puts s.posted, ∀ c, e.capture = some c → c.modeSwitched = false

/-- The captures that wait for the loop have the mode asked for last, if nobody asked since. -/
structure Current (mode : ConversationMode) (s : System Audio) : Prop where
  kept : s.ModeKept mode
  session : s.session.phase.InTurn → s.history.seen = s.history.explicit.length →
    s.session.state.conversationMode = s.latestMode mode
  events : ∀ e ∈ s.queue ++ puts s.posted, e.kind = .confirmed → ∀ c, e.capture = some c →
    s.history.seenBy e.turnId = s.history.explicit.length → c.conversationMode = s.latestMode mode

theorem modal_start (mode : ConversationMode) : (start mode : System Audio).Modal where
  modes := Session.modes_init _
  watches := Session.watches_init _
  seen_le := le_rfl
  seenBy_le _ := le_rfl
  plain := nofun

theorem current_start (mode : ConversationMode) : (start mode : System Audio).Current mode where
  kept := rfl
  session := nofun
  events := nofun

/-- The controller after a step that writes a capture back, or writes nothing. -/
def writtenTo (controller : ConversationModeController) :
    Option (CaptureResult Audio × ℕ) → ConversationModeController
  | none => controller
  | some (c, _) => (controller.set c.conversationMode).2

/-- What the steps of the event loop and the turns do to the mode: they write a capture back, or
make a change that was asked for. -/
structure Elsewhere (s : System Audio) (action : Action Audio) (s' : System Audio) : Prop where
  session : s'.session = s.session
  waiting : ∀ e ∈ s'.queue ++ puts s'.posted, e ∈ s.queue ++ puts s.posted
  written : ∀ c seen, s.writeBack? action = some (c, seen) → ∃ e ∈ s.queue,
    e.kind = .confirmed ∧ e.capture = some c ∧ s.history.seenBy e.turnId = seen
  history : s'.history = s.history ∧ s'.controller = writtenTo s.controller (s.writeBack? action) ∨
    s.writeBack? action = none ∧ ∃ asked,
      s'.history = { s.history with explicit := s.history.explicit ++ [asked] } ∧
      s'.controller = (s.controller.set asked).2

theorem Elsewhere.of_eq {action : Action Audio} (hwrite : s.writeBack? action = none)
    (hsession : s'.session = s.session) (hqueue : s'.queue = s.queue)
    (hposted : s'.posted = s.posted) (hhistory : s'.history = s.history)
    (hcontroller : s'.controller = s.controller) : s.Elsewhere action s' where
  session := hsession
  waiting e he := by rwa [hqueue, hposted] at he
  written c seen h := by
    rw [hwrite] at h
    cases h
  history := .inl ⟨hhistory, by rw [hwrite, hcontroller]; rfl⟩

theorem cancelActive_history (s : System Audio) :
    s.cancelActive.history = s.history ∧ s.cancelActive.controller = s.controller := by
  unfold cancelActive
  split <;> exact ⟨rfl, rfl⟩

theorem raiseCompletedTurnErrors_history (s : System Audio) :
    s.raiseCompletedTurnErrors.history = s.history ∧
      s.raiseCompletedTurnErrors.controller = s.controller := by
  unfold raiseCompletedTurnErrors
  split
  · exact s.cancelActive_history
  · exact ⟨rfl, rfl⟩

theorem commitActive_history (s : System Audio) (k : ℕ) :
    (s.commitActive k).history = s.history ∧ (s.commitActive k).controller = s.controller := by
  unfold commitActive
  split
  · split <;> exact ⟨rfl, rfl⟩
  · exact ⟨rfl, rfl⟩

theorem applyCaptureMode_history (s : System Audio) (c : CaptureResult Audio) :
    (s.applyCaptureMode c).controller = (s.controller.set c.conversationMode).2 ∧
      (c.modeSwitched = false → (s.applyCaptureMode c).history = s.history) := by
  unfold applyCaptureMode
  cases hswitched : c.modeSwitched with
  | true => exact ⟨rfl, nofun⟩
  | false => exact ⟨rfl, fun _ => rfl⟩

/-- What an event does to the mode. -/
theorem handleEvent_history (s : System Audio) (e : CaptureStreamEvent Audio)
    (hplain : ∀ c, s.appliedCapture? e = some c → c.modeSwitched = false) :
    (s.handleEvent e).history = s.history ∧ (s.handleEvent e).controller =
      match s.appliedCapture? e with
      | none => s.controller
      | some c => (s.controller.set c.conversationMode).2 := by
  unfold handleEvent appliedCapture? at *
  cases hkind : e.kind with
  | endpoint =>
    cases e.capture with
    | none => exact ⟨rfl, rfl⟩
    | some c => exact s.cancelActive_history
  | resumed =>
    dsimp only
    split
    · exact s.cancelActive_history
    · exact ⟨rfl, rfl⟩
  | confirmed =>
    rw [hkind] at hplain
    dsimp only at *
    cases hcapture : e.capture.or s.activeCapture with
    | none => exact s.commitActive_history _
    | some c =>
      obtain ⟨hcontroller, hhistory⟩ := s.applyCaptureMode_history c
      obtain ⟨hh, hc⟩ := (s.applyCaptureMode c).commitActive_history e.turnId
      exact ⟨hh.trans (hhistory (hplain c hcapture)), hc.trans hcontroller⟩
  | modeSwitch =>
    rw [hkind] at hplain
    dsimp only at *
    cases hcapture : e.capture with
    | none => exact ⟨rfl, rfl⟩
    | some c =>
      obtain ⟨hcontroller, hhistory⟩ := s.applyCaptureMode_history c
      exact ⟨hhistory (hplain c hcapture), hcontroller⟩

/-- A confirmed event carries its capture, and no event switches the mode. -/
theorem appliedCapture?_eq (s : System Audio) {es : List (CaptureStreamEvent Audio)}
    {o : Option (ℕ × CaptureResult Audio)} {n : ℕ} {e : CaptureStreamEvent Audio}
    (h : Stream (es ++ [e]) o n) :
    s.appliedCapture? e = if e.kind = .confirmed then e.capture else none := by
  cases h.last with
  | endpoint | resumed | confirmed => rfl

theorem handle_elsewhere (hf : s.Flows) (hm : s.Modal) : s.Elsewhere .handle s.handle := by
  have hwrite : ∀ {e queue}, s.loop = .running → s.queue = e :: queue →
      s.writeBack? .handle = (s.appliedCapture? e).map fun c => (c, s.history.seenBy e.turnId) := by
    intro e queue hloop hqueue
    simp only [writeBack?, hloop, hqueue]
  have hnone : s.loop ≠ .running ∨ s.queue = [] → s.writeBack? .handle = none := by
    intro h
    simp only [writeBack?]
    split
    · rename_i hloop hqueue
      rcases h with h | h
      · exact absurd hloop h
      · cases hqueue.symm.trans h
    · rfl
  unfold handle
  split
  · rename_i hloop
    split
    · rename_i e queue hqueue
      obtain ⟨o, n, hs⟩ := (hf.take hqueue).handled_stream
      change Stream (handledEvents (s.log ++ [.handled e])) o n at hs
      rw [handledEvents_append] at hs
      have happlied := s.appliedCapture?_eq hs
      have hmem : e ∈ s.queue := hqueue ▸ List.mem_cons_self
      have hplain : ∀ c, s.appliedCapture? e = some c → c.modeSwitched = false := by
        intro c hc
        rw [happlied] at hc
        split at hc
        · exact hm.plain e (List.mem_append_left _ hmem) c hc
        · cases hc
      have hevent := (({ s with queue } : System Audio).record [.handled e]).handleEvent_history e hplain
      have hsweep := ((({ s with queue } : System Audio).record
        [.handled e]).handleEvent e).raiseCompletedTurnErrors_history
      have hflow := (SameFlow.handleEvent (({ s with queue } : System Audio).record [.handled e])
        e).trans (.raiseCompletedTurnErrors _)
      constructor
      · exact hflow.session
      · intro e' he'
        rw [hflow.queue, hflow.posted] at he'
        rw [hqueue]
        exact List.mem_cons_of_mem _ he'
      · intro c seen hw
        rw [hwrite hloop hqueue, happlied] at hw
        obtain ⟨c', hc', heq⟩ := Option.map_eq_some_iff.mp hw
        cases heq
        split at hc'
        · rename_i hkind
          exact ⟨e, hmem, hkind, hc', rfl⟩
        · cases hc'
      · refine .inl ⟨hsweep.1.trans hevent.1, ?_⟩
        rw [hsweep.2, hevent.2, hwrite hloop hqueue]
        change (match s.appliedCapture? e with | none => s.controller | some c => _) = _
        cases s.appliedCapture? e <;> rfl
    · rename_i hqueue
      split
      · exact .of_eq (hnone (.inr hqueue)) rfl rfl rfl rfl rfl
      · exact .of_eq (hnone (.inr hqueue)) rfl rfl rfl rfl rfl
      · have habort := SameFlow.abort s
        exact .of_eq (hnone (.inr hqueue)) habort.session habort.queue habort.posted
          s.cancelActive_history.1 s.cancelActive_history.2
  · rename_i hloop
    obtain ⟨loop, heq⟩ := s.gather_eq
    rw [heq]
    exact .of_eq (hnone (.inl (by rw [hloop]; decide))) rfl rfl rfl rfl rfl
  · rename_i hrunning hgathering
    exact .of_eq (hnone (.inl hrunning)) rfl rfl rfl rfl rfl

/-- A turn writes the mode only where it was asked for. -/
theorem turn_elsewhere (services : Services Audio) (s : System Audio) (i : ℕ) (input : TurnInput) :
    s.Elsewhere (.turn i input) (s.turn services i input) := by
  rcases s.turn_cases services i input with heq | ⟨t, t', controller, effects, ht, hmoved, heq⟩
  · rw [heq]
    exact .of_eq rfl rfl rfl rfl rfl rfl
  · rw [heq]
    cases hmoved with
    | stays | goes => exact .of_eq rfl rfl rfl rfl rfl rfl
    | turnsOn =>
      refine ⟨rfl, fun _ => id, nofun, .inr ⟨rfl, .continuousConversation, ?_, rfl⟩⟩
      dsimp only
      rw [if_pos (List.mem_singleton_self _)]
    | replies text =>
      refine .of_eq rfl rfl rfl rfl (if_neg ?_) rfl
      by_cases htext : text = "" <;> simp [htext]

variable (config services) in
theorem step_elsewhere (hf : s.Flows) (hm : s.Modal) {action : Action Audio}
    (hcapture : ∀ input, action ≠ .capture input) :
    s.Elsewhere action (s.step config services action) := by
  cases action with
  | capture input => exact absurd rfl (hcapture input)
  | handle => exact handle_elsewhere hf hm
  | turn i input => exact turn_elsewhere services s i input
  | deliver =>
    change s.Elsewhere .deliver s.deliver
    unfold deliver
    split
    · exact .of_eq rfl rfl rfl rfl rfl rfl
    · rename_i e posted hposted
      refine ⟨rfl, fun e' he' => ?_, nofun, .inl ⟨rfl, rfl⟩⟩
      change e' ∈ s.queue ++ [e] ++ puts posted at he'
      rw [hposted]
      rwa [List.append_assoc] at he'
    · rename_i outcome posted hposted
      refine ⟨rfl, fun e' he' => ?_, nofun, .inl ⟨rfl, rfl⟩⟩
      rw [hposted]
      exact he'
  | dispatchConversationModeOff i =>
    change s.Elsewhere (.dispatchConversationModeOff i) (s.dispatchConversationModeOff i)
    unfold dispatchConversationModeOff
    split
    · exact ⟨rfl, fun _ => id, nofun, .inr ⟨rfl, .wakeCommand, rfl, rfl⟩⟩
    · exact .of_eq rfl rfl rfl rfl rfl rfl
  | interrupt =>
    change s.Elsewhere .interrupt s.interrupt
    unfold interrupt
    split
    · have habort := SameFlow.abort s
      exact .of_eq rfl habort.session habort.queue habort.posted s.cancelActive_history.1
        s.cancelActive_history.2
    · exact .of_eq rfl rfl rfl rfl rfl rfl
  | cancelBackgroundTurns =>
    change s.Elsewhere .cancelBackgroundTurns s.cancelBackgroundTurns
    unfold cancelBackgroundTurns
    split
    · exact .of_eq rfl rfl rfl rfl rfl rfl
    · exact .of_eq rfl rfl rfl rfl rfl rfl

theorem latestMode_of_explicit (h : s'.history.explicit = s.history.explicit) :
    s'.latestMode mode = s.latestMode mode := by
  unfold latestMode
  rw [h]

/-- A mode that is asked for is the latest one. -/
theorem latestMode_asked {asked : ConversationMode}
    (h : s'.history.explicit = s.history.explicit ++ [asked]) : s'.latestMode mode = asked := by
  unfold latestMode
  rw [h, List.getLast?_concat]
  rfl

theorem watches_writtenTo {session : Session Audio} {controller : ConversationModeController}
    (h : session.Watches controller) (write : Option (CaptureResult Audio × ℕ)) :
    session.Watches (writtenTo controller write) := by
  cases write with
  | none => exact h
  | some write => exact h.set _

theorem Elsewhere.modal {action : Action Audio} (h : s.Elsewhere action s') (hm : s.Modal) :
    s'.Modal := by
  constructor
  · exact h.session ▸ hm.modes
  · rw [h.session]
    rcases h.history with ⟨-, hcontroller⟩ | ⟨-, asked, -, hcontroller⟩
    · exact hcontroller ▸ watches_writtenTo hm.watches _
    · exact hcontroller ▸ hm.watches.set asked
  · rcases h.history with ⟨hhistory, -⟩ | ⟨-, asked, hhistory, -⟩
    · exact hhistory ▸ hm.seen_le
    · rw [hhistory, List.length_append]
      exact hm.seen_le.trans (Nat.le_add_right _ _)
  · intro k
    rcases h.history with ⟨hhistory, -⟩ | ⟨-, asked, hhistory, -⟩
    · exact hhistory ▸ hm.seenBy_le k
    · rw [hhistory, List.length_append]
      exact (hm.seenBy_le k).trans (Nat.le_add_right _ _)
  · exact fun e he => hm.plain e (h.waiting e he)

/-- What was seen before another change was asked for is not current any more. -/
theorem not_current {n : ℕ} {explicit : List ConversationMode} {asked : ConversationMode}
    (hle : n ≤ explicit.length) : n ≠ (explicit ++ [asked]).length := by
  rw [List.length_append, List.length_singleton]
  omega

theorem Elsewhere.current {action : Action Audio} (h : s.Elsewhere action s') (hm : s.Modal)
    (hc : s.Current mode) (hw : s.WritesCurrent mode action) : s'.Current mode := by
  rcases h.history with ⟨hhistory, hcontroller⟩ | ⟨-, asked, hhistory, hcontroller⟩
  · have hlatest : s'.latestMode mode = s.latestMode mode :=
      latestMode_of_explicit (by rw [hhistory])
    constructor
    · unfold ModeKept
      rw [hlatest, hcontroller]
      cases hwrite : s.writeBack? action with
      | none => exact hc.kept
      | some write =>
        obtain ⟨c, seen⟩ := write
        obtain ⟨e, he, hkind, hcapture, hseen⟩ := h.written c seen hwrite
        change (s.controller.set c.conversationMode).2.mode = _
        rw [ConversationModeController.set_mode]
        rcases hw c seen hwrite with hswitched | hcurrent | hmode
        · rw [hm.plain e (List.mem_append_left _ he) c hcapture] at hswitched
          cases hswitched
        · exact hc.events e (List.mem_append_left _ he) hkind c hcapture (hseen.trans hcurrent)
        · exact hmode
    · rw [h.session, hhistory, hlatest]
      exact hc.session
    · rw [hhistory, hlatest]
      exact fun e he => hc.events e (h.waiting e he)
  · have hasked : s'.latestMode mode = asked :=
      latestMode_asked (congrArg History.explicit hhistory)
    constructor
    · unfold ModeKept
      rw [hasked, hcontroller, ConversationModeController.set_mode]
    · intro _ hseen
      rw [hhistory] at hseen
      exact absurd hseen (not_current hm.seen_le)
    · intro e _ _ c _ hseen
      rw [hhistory] at hseen
      exact absurd hseen (not_current (hm.seenBy_le _))

variable (config) in
/-- An exception ends the thread where it is. -/
theorem capture_raises {input : Input Audio} (h : input.raises = true) (hended : ¬s.session.Ended) :
    (s.capture config input).session.phase = .raised .failed := by
  have hstep : captureStep config s.session s.controller s.stop input =
      ({ s.session with phase := .raised .failed }, s.controller, none) := by
    unfold captureStep
    rw [if_pos h]
    split
    · exact absurd (.inl ‹_›) hended
    · exact absurd (.inr ⟨_, ‹_›⟩) hended
    · rfl
  unfold capture
  rw [completion?_eq_none.mpr hended]
  simp only [hstep]
  split
  · rw [if_pos h]
  · rfl

theorem Modal.capture (h : s.Modal) (hf : s.Flows) (config : VoiceConfig) (input : Input Audio) :
    (s.capture config input).Modal := by
  rcases capture_cases config s input hf.plain with
    ⟨-, heq⟩ | ⟨-, session, controller, event, hmoved, heq⟩
  · rwa [heq]
  · rw [heq]
    constructor
    · exact hmoved.modes h.modes
    · exact hmoved.watches h.watches
    · unfold historyAfter
      dsimp only
      split
      · exact le_rfl
      · exact h.seen_le
    · intro k
      cases event with
      | none => exact h.seenBy_le k
      | some e =>
        simp only [historyAfter]
        split
        · rw [Function.update_apply]
          split
          · exact h.seen_le
          · exact h.seenBy_le k
        · exact h.seenBy_le k
    · intro e he c hc
      have hputs : puts (s.posted ++ (event.map Callback.put).toList ++
          ((completion? session).map Callback.complete).toList) = puts s.posted ++ event.toList := by
        rw [puts_append, puts_append]
        cases event <;> cases completion? session <;> simp [puts]
      change e ∈ s.queue ++ puts (s.posted ++ _ ++ _) at he
      rw [hputs, ← List.append_assoc] at he
      rcases List.mem_append.mp he with he | he
      · exact h.plain e he c hc
      · obtain ⟨hcapture, -⟩ := hmoved.event_capture (Option.mem_toList.mp he) hc
        exact hf.plain.capture c hcapture

/-- A confirmed turn has one capture. -/
theorem Flows.confirmed_unique (h : s.Flows) {k : ℕ} {c d : CaptureResult Audio}
    (hc : ⟨.confirmed, k, some c⟩ ∈ emittedEvents s.log)
    (hd : ⟨.confirmed, k, some d⟩ ∈ emittedEvents s.log) : c = d := by
  obtain ⟨o, hs, -⟩ := h.stream
  obtain ⟨c', hc', hcmem⟩ := hs.mem_of_confirmed hc
  obtain ⟨d', hd', hdmem⟩ := hs.mem_of_confirmed hd
  cases hc'
  cases hd'
  exact Option.some.inj (hs.endpoint_unique hcmem hdmem)

theorem Flows.mem_of_waiting (h : s.Flows) {e : CaptureStreamEvent Audio}
    (he : e ∈ s.queue ++ puts s.posted) : e ∈ emittedEvents s.log := by
  rw [h.flow, List.append_assoc]
  exact List.mem_append_right _ he

theorem seenBy_historyAfter {history : History} {looks : Bool}
    {event : Option (CaptureStreamEvent Audio)} {k : ℕ}
    (h : ∀ e, event = some e → e.kind = .confirmed → e.turnId ≠ k) :
    (historyAfter history looks event).seenBy k = history.seenBy k := by
  cases event with
  | none => rfl
  | some e =>
    simp only [historyAfter]
    split
    · rename_i hkind
      exact Function.update_of_ne (h e rfl hkind).symm _ _
    · rfl

theorem Current.capture (hc : s.Current mode) (hm : s.Modal) (hf : s.Flows) {input : Input Audio}
    (hw : s.WritesCurrent mode (.capture input)) : (s.capture config input).Current mode := by
  have hf' := hf.capture config input
  have hm' := hm.capture hf config input
  rcases capture_cases config s input hf.plain with
    ⟨-, heq⟩ | ⟨hended, session, controller, event, hmoved, heq⟩
  · rwa [heq]
  · have hraised := fun h : input.raises = true => capture_raises config h hended
    rw [heq] at hf' hm' hraised ⊢
    generalize (s.session.phase.looksAtController && !input.raises) = looks at *
    have hinTurn : s.session.phase.InTurn → s.history.seen = s.history.explicit.length →
        ∀ c, s.session.phase.capture? = some c → c.conversationMode = s.latestMode mode :=
      fun hphase hseen c hcapture =>
        (hm.modes.capture c hcapture).trans (hc.session hphase hseen)
    have hkept : controller.mode = s.latestMode mode := by
      rcases hmoved.controller_eq with rfl | ⟨c, rest, hphase, rfl, hphase'⟩
      · exact hc.kept
      · rw [ConversationModeController.set_mode]
        have hraises : input.raises = false := by
          by_contra h
          rw [hphase'] at hraised
          cases hraised (by simpa using h)
        have hwrite : s.writeBack? (.capture input) = some (c, s.history.seen) := by
          simp only [writeBack?, hphase, hraises]
          rfl
        rcases hw c _ hwrite with hswitched | hcurrent | hmode
        · rw [hf.plain.capture c (by rw [hphase]; rfl)] at hswitched
          cases hswitched
        · exact hinTurn (by rw [hphase]; trivial) hcurrent c (by rw [hphase]; rfl)
        · exact hmode
    constructor
    · exact hkept
    · intro hphase hseen
      change session.state.conversationMode = s.latestMode mode
      cases looks with
      | false =>
        obtain ⟨hphase₀, hstate⟩ := hmoved.state_eq hphase
        rw [hstate]
        exact hc.session hphase₀ hseen
      | true =>
        obtain ⟨rfl, hversion, -⟩ := hmoved.looked hm.watches
        rw [hm'.watches.agree hphase hversion]
        exact hkept
    · intro e he hkind d hd hseen
      have hmem := hf'.mem_of_waiting he
      change e ∈ s.queue ++ puts (s.posted ++ _ ++ _) at he
      have hputs : puts (s.posted ++ (event.map Callback.put).toList ++
          ((completion? session).map Callback.complete).toList) = puts s.posted ++ event.toList := by
        rw [puts_append, puts_append]
        cases event <;> cases completion? session <;> simp [puts]
      by_cases hnew : ∀ e', event = some e' → e'.kind = .confirmed → e'.turnId ≠ e.turnId
      · have hold : e ∈ s.queue ++ puts s.posted := by
          rw [hputs, ← List.append_assoc] at he
          rcases List.mem_append.mp he with he | he
          · exact he
          · exact absurd rfl (hnew e (Option.mem_toList.mp he) hkind)
        rw [seenBy_historyAfter hnew] at hseen
        exact hc.events e hold hkind d hd hseen
      · push Not at hnew
        obtain ⟨e', rfl, hkind', hid⟩ := hnew
        have hmem' := hf'.mem_of_waiting (e := e') (by
          change e' ∈ s.queue ++ puts (s.posted ++ _ ++ _)
          rw [hputs]
          exact List.mem_append_right _ (List.mem_append_right _ (List.mem_singleton_self _)))
        obtain ⟨kind, k, capture⟩ := e
        obtain ⟨kind', k', capture'⟩ := e'
        dsimp only at hkind hkind' hid hd
        subst hkind hkind' hid hd
        obtain ⟨o, hs, -⟩ := hf'.stream
        obtain ⟨c', rfl, -⟩ := hs.mem_of_confirmed hmem'
        obtain rfl := hf'.confirmed_unique hmem hmem'
        obtain ⟨hcapture, hturn⟩ := hmoved.event_capture rfl rfl
        simp only [historyAfter, if_true, Function.update_self] at hseen
        exact hinTurn hturn hseen _ hcapture

theorem Modal.step (h : s.Modal) (hf : s.Flows) (action : Action Audio) :
    (s.step config services action).Modal := by
  by_cases hcapture : ∃ input, action = .capture input
  · obtain ⟨input, rfl⟩ := hcapture
    exact h.capture hf config input
  · exact (step_elsewhere config services hf h fun input heq => hcapture ⟨input, heq⟩).modal h

theorem Current.step (hc : s.Current mode) (hm : s.Modal) (hf : s.Flows) {action : Action Audio}
    (hw : s.WritesCurrent mode action) : (s.step config services action).Current mode := by
  by_cases hcapture : ∃ input, action = .capture input
  · obtain ⟨input, rfl⟩ := hcapture
    exact hc.capture hm hf hw
  · exact (step_elsewhere config services hf hm fun input heq => hcapture ⟨input, heq⟩).current hm hc hw

variable (config services) in
/-- A capture that is written back sets its mode. -/
theorem controller_of_writeBack (hm : s.Modal) (hf : s.Flows) {action : Action Audio}
    {c : CaptureResult Audio} {seen : ℕ} (hw : s.writeBack? action = some (c, seen)) :
    (s.step config services action).controller.mode = c.conversationMode ∧
      (s.step config services action).history.explicit = s.history.explicit := by
  by_cases hcapture : ∃ input, action = .capture input
  · obtain ⟨input, rfl⟩ := hcapture
    change (s.capture config input).controller.mode = _ ∧
      (s.capture config input).history.explicit = _
    simp only [writeBack?] at hw
    split at hw
    · rename_i c' rest hphase
      split at hw
      · cases hw
      · rename_i hraises
        cases hw
        have hplain := hf.plain.capture c (by rw [hphase]; rfl)
        have hstep : captureStep config s.session s.controller s.stop input =
            ({ s.session with conversationMode := c.conversationMode, phase := .rereading rest },
              (s.controller.set c.conversationMode).2, none) := by
          unfold captureStep advance
          rw [if_neg hraises]
          simp only [hphase]
        simp only [System.capture, completion?, ownSwitch?, hphase, hstep, hplain]
        exact ⟨ConversationModeController.set_mode _ _, rfl⟩
    · cases hw
  · have h := step_elsewhere config services hf hm
      fun input heq => hcapture ⟨input, heq⟩
    rcases h.history with ⟨hhistory, hcontroller⟩ | ⟨hnone, -⟩
    · rw [hhistory, hcontroller, hw]
      exact ⟨ConversationModeController.set_mode _ _, rfl⟩
    · rw [hw] at hnone
      cases hnone

/-- The mode asked for last stays in force exactly in the runs that write no older mode back; and
the mode of the session is the one of the controller after its next frame. -/
theorem mode_changes_kept_iff (config : VoiceConfig) (services : Services Audio)
    (mode : ConversationMode) (actions : List (Action Audio)) :
    ((∀ pre, pre <+: actions → (run config services mode pre).ModeKept mode) ↔
      Run.Along (WritesCurrent mode) (step config services) (start mode) actions) ∧
    ∀ input frame now, (run config services mode actions).session.phase = .synchronizing frame now →
      input.raises = false →
      ((run config services mode actions).capture config input).session.conversationMode =
        ((run config services mode actions).capture config input).controller.mode := by
  have hkeeps : ∀ (s : System Audio) (action : Action Audio), s.Flows ∧ s.Modal →
      (s.step config services action).Flows ∧ (s.step config services action).Modal :=
    fun s action h => ⟨h.1.step config services action, h.2.step h.1 action⟩
  refine ⟨⟨fun hkept => ?_, fun hwrites pre hpre => ?_⟩, ?_⟩
  · refine Run.along_of_prefixes hkeeps ?_ actions _ ⟨flows_start mode, modal_start mode⟩ hkept
    intro s action h hs hs' c seen hw
    obtain ⟨hmode, hexplicit⟩ := controller_of_writeBack config services h.2 h.1
      hw
    unfold ModeKept at hs'
    rw [hmode, latestMode_of_explicit hexplicit] at hs'
    exact .inr (.inr hs')
  · obtain ⟨rest, rfl⟩ := hpre
    have hcurrent := Run.foldl_invariant (I := fun s => s.Flows ∧ s.Modal ∧ s.Current mode)
      (fun s action hw h => ⟨h.1.step config services action, h.2.1.step h.1 action,
        h.2.2.step h.2.1 h.1 hw⟩) pre (start mode) ((Run.along_append _ _ _).mp hwrites).1
      ⟨flows_start mode, modal_start mode, current_start mode⟩
    exact hcurrent.2.2.kept
  · intro input frame now hphase hraises
    obtain ⟨hf, hm⟩ := Run.foldl_keeps hkeeps actions _ ⟨flows_start mode, modal_start mode⟩
    change (run config services mode actions).Flows at hf
    change (run config services mode actions).Modal at hm
    generalize run config services mode actions = s at *
    rcases capture_cases config s input hf.plain with
      ⟨hended, -⟩ | ⟨-, session, controller, event, hmoved, heq⟩
    · unfold Session.Ended at hended
      simp [hphase] at hended
    · rw [heq]
      simp only [hphase, hraises, Phase.looksAtController, Bool.not_false, Bool.and_true] at hmoved
      obtain ⟨rfl, -, hmode⟩ := hmoved.looked hm.watches
      exact hmode

end System

/-! A turn that ends the conversation while the next one is confirmed. -/

namespace TestVectors

def atOnce : VoiceConfig where
  minSilenceMs := 500
  finalSilenceMs := 500
  listenTimeout := 0
  maxTurns := 0

def plainServices : Services Unit where
  shouldIgnoreContinuousUtterance _ := false
  matchTrigger _ := none
  matchConfirmed _ _ _ := none

/-- A step of the capture thread that hears no frame. -/
def goesOn : Action Unit := .capture ⟨none, 0, false⟩

/-- The segmenter finds the end of an utterance. -/
def hearsEndpoint : Action Unit :=
  .capture ⟨some ⟨none, some ⟨.endpoint, some ⟨(), false⟩⟩, true⟩, 0, false⟩

/-- An utterance from its last frame to the start of the next turn. -/
def utterance : List (Action Unit) :=
  [hearsEndpoint, goesOn, goesOn, goesOn, goesOn, goesOn, goesOn]

def speaks : Action Unit := .turn 0 ⟨"that is all for now", false⟩

/-- The second utterance is confirmed before the agent of the first one ends the conversation, and
the loop handles it afterwards. -/
def endsConversation : List (Action Unit) :=
  [goesOn] ++ utterance ++ [.deliver, .deliver, .handle, .handle, speaks, speaks, speaks, speaks] ++
    utterance ++ [.dispatchConversationModeOff 0, .deliver, .deliver, .handle, .handle]

theorem conversation_comes_back :
    ¬(System.run atOnce plainServices .continuousConversation endsConversation).ModeKept
      .continuousConversation := by
  decide +kernel

end TestVectors
end ReframeVoice
