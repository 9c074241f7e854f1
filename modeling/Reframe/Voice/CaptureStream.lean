import Reframe.Voice.CaptureSession
import Mathlib.Tactic

/-! The events of a capture session: turns are opened in the order of their ids, and an open turn
is resumed or confirmed once, or left behind for a later one. -/
namespace ReframeVoice

variable {Audio : Type}

/-- The events so far, the turn that is open after them, and the last turn id. -/
inductive Stream : List (CaptureStreamEvent Audio) → Option (ℕ × CaptureResult Audio) → ℕ → Prop
  | nil : Stream [] none 0
  | endpoint {es o n k c} (h : Stream es o n) (hk : n < k) :
    Stream (es ++ [⟨.endpoint, k, some c⟩]) (some (k, c)) k
  | resumed {es k c n} (h : Stream es (some (k, c)) n) : Stream (es ++ [⟨.resumed, k, none⟩]) none n
  | confirmed {es k c n} (h : Stream es (some (k, c)) n) :
    Stream (es ++ [⟨.confirmed, k, some c⟩]) none n

namespace Stream

variable {es fs : List (CaptureStreamEvent Audio)} {o : Option (ℕ × CaptureResult Audio)}
  {e : CaptureStreamEvent Audio} {n k : ℕ} {c : CaptureResult Audio}

/-- What the last event of a stream can be. -/
inductive Last (es : List (CaptureStreamEvent Audio)) :
    CaptureStreamEvent Audio → Option (ℕ × CaptureResult Audio) → ℕ → Prop
  | endpoint {o : Option (ℕ × CaptureResult Audio)} {n k : ℕ} {c : CaptureResult Audio}
    (h : Stream es o n) (hk : n < k) : Last es ⟨.endpoint, k, some c⟩ (some (k, c)) k
  | resumed {k n : ℕ} {c : CaptureResult Audio} (h : Stream es (some (k, c)) n) :
    Last es ⟨.resumed, k, none⟩ none n
  | confirmed {k n : ℕ} {c : CaptureResult Audio} (h : Stream es (some (k, c)) n) :
    Last es ⟨.confirmed, k, some c⟩ none n

theorem last (h : Stream (es ++ [e]) o n) : Last es e o n := by
  generalize hes : es ++ [e] = es' at h
  cases h with
  | nil => simp at hes
  | endpoint h hk =>
    obtain ⟨rfl, he⟩ := List.append_inj' hes rfl
    rw [List.singleton_inj.mp he]
    exact .endpoint h hk
  | resumed h =>
    obtain ⟨rfl, he⟩ := List.append_inj' hes rfl
    rw [List.singleton_inj.mp he]
    exact .resumed h
  | confirmed h =>
    obtain ⟨rfl, he⟩ := List.append_inj' hes rfl
    rw [List.singleton_inj.mp he]
    exact .confirmed h

theorem init (h : Stream (es ++ [e]) o n) : ∃ o' n', Stream es o' n' := by
  cases h.last with
  | endpoint hes => exact ⟨_, _, hes⟩
  | resumed hes => exact ⟨_, _, hes⟩
  | confirmed hes => exact ⟨_, _, hes⟩

/-- The events up to some point are a stream. -/
theorem of_append (h : Stream (es ++ fs) o n) : ∃ o' n', Stream es o' n' := by
  induction fs using List.reverseRecOn generalizing o n with
  | nil => exact ⟨o, n, List.append_nil es ▸ h⟩
  | append_singleton fs e ih =>
    rw [← List.append_assoc] at h
    obtain ⟨o', n', h⟩ := h.init
    exact ih h

theorem unique {o' : Option (ℕ × CaptureResult Audio)} {n' : ℕ} (h : Stream es o n)
    (h' : Stream es o' n') : o = o' ∧ n = n' := by
  induction h generalizing o' n' with
  | nil =>
    generalize hes : ([] : List (CaptureStreamEvent Audio)) = es at h'
    cases h' with
    | nil => exact ⟨rfl, rfl⟩
    | endpoint | resumed | confirmed => simp at hes
  | endpoint h hk ih =>
    cases h'.last with
    | endpoint => exact ⟨rfl, rfl⟩
  | resumed h ih =>
    cases h'.last with
    | resumed h' => exact ⟨rfl, (ih h').2⟩
  | confirmed h ih =>
    cases h'.last with
    | confirmed h' => exact ⟨rfl, (ih h').2⟩

theorem open_eq (h : Stream es (some (k, c)) n) : k = n := by
  cases h with
  | endpoint => rfl

theorem turnId_le (h : Stream es o n) : ∀ e ∈ es, e.turnId ≤ n := by
  induction h with
  | nil => exact fun e he => nomatch he
  | endpoint h hk ih =>
    intro e he
    rcases List.mem_append.mp he with he | he
    · exact (ih e he).trans hk.le
    · exact (List.mem_singleton.mp he) ▸ le_rfl
  | resumed h ih | confirmed h ih =>
    intro e he
    rcases List.mem_append.mp he with he | he
    · exact ih e he
    · rw [List.mem_singleton.mp he]
      exact h.open_eq.le

/-- The open turn is the last one, and nothing but its endpoint has been said of it. -/
theorem of_open (h : Stream es (some (k, c)) n) :
    k = n ∧ ⟨.endpoint, k, some c⟩ ∈ es ∧ ∀ e ∈ es, e.turnId = k → e.kind = .endpoint := by
  cases h with
  | endpoint h hk =>
    refine ⟨rfl, List.mem_append_right _ (List.mem_singleton_self _), ?_⟩
    intro e he hid
    rcases List.mem_append.mp he with he | he
    · exact absurd (hid ▸ h.turnId_le e he) hk.not_ge
    · exact (List.mem_singleton.mp he) ▸ rfl

/-- A turn opens with its endpoint. -/
def Opens (e : CaptureStreamEvent Audio) : Prop := e.kind = .endpoint ∨ e.kind = .modeSwitch

instance (e : CaptureStreamEvent Audio) : Decidable (Opens e) :=
  inferInstanceAs (Decidable (_ ∨ _))

/-- A turn is settled when it is resumed or confirmed. -/
def Settles (k : ℕ) (e : CaptureStreamEvent Audio) : Prop :=
  e.turnId = k ∧ (e.kind = .resumed ∨ e.kind = .confirmed)

instance (k : ℕ) (e : CaptureStreamEvent Audio) : Decidable (Settles k e) :=
  inferInstanceAs (Decidable (_ ∧ _))

/-- Turn ids strictly increase. -/
theorem ids_increase (h : Stream es o n) :
    ((es.filter fun e => Opens e).map CaptureStreamEvent.turnId).Pairwise (· < ·) := by
  induction h with
  | nil => exact List.Pairwise.nil
  | endpoint h hk ih =>
    rw [List.filter_append, List.map_append, List.pairwise_append]
    refine ⟨ih, by simp [Opens], ?_⟩
    intro i hi j hj
    obtain ⟨e, he, rfl⟩ := List.mem_map.mp hi
    obtain rfl : j = _ := by simpa [Opens] using hj
    exact (h.turnId_le e (List.mem_filter.mp he).1).trans_lt hk
  | resumed h ih | confirmed h ih => simpa [List.filter_append, Opens] using ih

/-- A turn is resumed or confirmed at most once. -/
theorem settled_once (h : Stream es o n) (k : ℕ) :
    (es.filter fun e => Settles k e).length ≤ 1 := by
  have hopen : ∀ {es : List (CaptureStreamEvent Audio)} {j c n}, Stream es (some (j, c)) n →
      (es.filter fun e => Settles j e) = [] := by
    intro es j c n h
    refine List.filter_eq_nil_iff.mpr fun e he => ?_
    rw [decide_eq_true_eq]
    rintro ⟨hid, hkind⟩
    rw [h.of_open.2.2 e he hid] at hkind
    simp at hkind
  induction h with
  | nil => exact Nat.zero_le _
  | endpoint h hk ih => simpa [List.filter_append, Settles] using ih
  | @resumed es j c n h ih | @confirmed es j c n h ih =>
    rw [List.filter_append, List.length_append]
    by_cases hj : j = k
    · subst hj
      rw [hopen h, List.length_nil, Nat.zero_add]
      exact List.length_filter_le _ _
    · have hnil : ∀ e : CaptureStreamEvent Audio, e.turnId = j →
          ([e].filter fun e => Settles k e) = [] := by
        intro e he
        simp [Settles, he, hj]
      rw [hnil _ rfl]
      exact ih

/-- An event has its turn opened before, with the same capture if it carries one. -/
theorem endpoint_of_mem (h : Stream es o n) (he : e ∈ es) :
    ∃ c, ⟨.endpoint, e.turnId, some c⟩ ∈ es ∧ (e.kind ≠ .resumed → e.capture = some c) := by
  induction h with
  | nil => exact nomatch he
  | endpoint h hk ih =>
    rcases List.mem_append.mp he with he | he
    · obtain ⟨c, hc, hcapture⟩ := ih he
      exact ⟨c, List.mem_append_left _ hc, hcapture⟩
    · obtain rfl := List.mem_singleton.mp he
      exact ⟨_, List.mem_append_right _ (List.mem_singleton_self _), fun _ => rfl⟩
  | resumed h ih | confirmed h ih =>
    rcases List.mem_append.mp he with he | he
    · obtain ⟨c, hc, hcapture⟩ := ih he
      exact ⟨c, List.mem_append_left _ hc, hcapture⟩
    · obtain rfl := List.mem_singleton.mp he
      exact ⟨_, List.mem_append_left _ h.of_open.2.1, by simp⟩

/-- There is one endpoint for each id. -/
theorem endpoint_unique (h : Stream es o n) {a b : Option (CaptureResult Audio)}
    (ha : ⟨.endpoint, k, a⟩ ∈ es) (hb : ⟨.endpoint, k, b⟩ ∈ es) : a = b := by
  induction h with
  | nil => exact nomatch ha
  | endpoint h hk ih =>
    rcases List.mem_append.mp ha with ha' | ha' <;> rcases List.mem_append.mp hb with hb' | hb'
    · exact ih ha' hb'
    · obtain ⟨-, rfl, -⟩ := CaptureStreamEvent.mk.inj (List.mem_singleton.mp hb')
      have hle := h.turnId_le _ ha'
      exact absurd hle hk.not_ge
    · obtain ⟨-, rfl, -⟩ := CaptureStreamEvent.mk.inj (List.mem_singleton.mp ha')
      have hle := h.turnId_le _ hb'
      exact absurd hle hk.not_ge
    · have heq := (List.mem_singleton.mp ha').trans (List.mem_singleton.mp hb').symm
      exact (CaptureStreamEvent.mk.inj heq).2.2
  | resumed h ih | confirmed h ih => exact ih (by simpa using ha) (by simpa using hb)

theorem mem_of_confirmed (h : Stream es o n) {a : Option (CaptureResult Audio)}
    (hc : ⟨.confirmed, k, a⟩ ∈ es) : ∃ c, a = some c ∧ ⟨.endpoint, k, some c⟩ ∈ es := by
  obtain ⟨c, hmem, hcapture⟩ := h.endpoint_of_mem hc
  exact ⟨c, hcapture (by simp), hmem⟩

/-- A turn is confirmed before a later one is opened. -/
theorem le_of_confirmed {a : Option (CaptureResult Audio)}
    (h : Stream (es ++ ⟨.confirmed, k, a⟩ :: fs) o n) : ∀ e ∈ es, e.turnId ≤ k := by
  rw [List.append_cons] at h
  obtain ⟨o', n', h⟩ := h.of_append
  cases h.last with
  | confirmed h =>
    obtain ⟨rfl, -, -⟩ := h.of_open
    exact h.turnId_le

/-- A turn is not opened again after it is confirmed. -/
theorem not_endpoint_after_confirmed {a b : Option (CaptureResult Audio)}
    (h : Stream (es ++ ⟨.confirmed, k, a⟩ :: fs) o n) : ⟨.endpoint, k, b⟩ ∉ fs := by
  intro hb
  have hids := h.ids_increase
  rw [List.filter_append, List.map_append, List.pairwise_append] at hids
  rw [List.append_cons] at h
  obtain ⟨o', n', h⟩ := h.of_append
  cases h.last with
  | confirmed h =>
    have hfirst : k ∈ (es.filter fun e => Opens e).map CaptureStreamEvent.turnId :=
      List.mem_map.mpr ⟨_, List.mem_filter.mpr ⟨h.of_open.2.1, by simp [Opens]⟩, rfl⟩
    refine absurd (hids.2.2 k hfirst k ?_) (lt_irrefl k)
    exact List.mem_map.mpr ⟨_, List.mem_filter.mpr ⟨List.mem_cons_of_mem _ hb, by simp [Opens]⟩, rfl⟩

end Stream

/-! What one step of the capture thread can do. -/

/-- The capture that the thread is about to end, confirm or finish. -/
def Phase.capture? : Phase Audio → Option (CaptureResult Audio)
  | .ending c _ | .confirming _ c _ | .finishing c _ => some c
  | _ => none

namespace Session

/-- No capture of the session has switched the mode by itself. -/
structure Plain (s : Session Audio) : Prop where
  state : s.state.modeSwitched = false
  switching : ∀ now, s.phase ≠ .switching now
  pending : ∀ k c, s.pending = some (k, c) → c.modeSwitched = false
  capture : ∀ c, s.phase.capture? = some c → c.modeSwitched = false

/-- Where a turn can be after a frame: its captures have its mode. -/
inductive Onward (s : Session Audio) : Phase Audio → Prop
  | listening : Onward s .listening
  | raised (error : CaptureError) : Onward s (.raised error)
  | ending (c : CaptureResult Audio) (rest : Rest)
    (hmode : c.conversationMode = s.state.conversationMode) (hswitch : c.modeSwitched = false) :
    Onward s (.ending c rest)
  | confirming (k : ℕ) (c : CaptureResult Audio) (rest : Rest) (h : s.pending = some (k, c)) :
    Onward s (.confirming k c rest)
  | resuming (k : ℕ) (c : CaptureResult Audio) (now : ℕ) (h : s.pending = some (k, c)) :
    Onward s (.resuming k now)

theorem Onward.congr {s s' : Session Audio} {phase : Phase Audio} (h : Onward s phase)
    (hmode : s.state.conversationMode = s'.state.conversationMode) (hp : s.pending = s'.pending) :
    Onward s' phase := by
  cases h with
  | listening => exact .listening
  | raised error => exact .raised error
  | ending c rest hc hswitch => exact .ending c rest (hc.trans hmode) hswitch
  | confirming k c rest h => exact .confirming k c rest (hp ▸ h)
  | resuming k c now h => exact .resuming k c now (hp ▸ h)

/-- The two ways on that no event follows. -/
inductive Quiet : Phase Audio → Prop
  | listening : Quiet .listening
  | raised (error : CaptureError) : Quiet (.raised error)

theorem Quiet.onward {s : Session Audio} {phase : Phase Audio} (h : Quiet phase) :
    Onward s phase := by
  cases h with
  | listening => exact .listening
  | raised error => exact .raised error

/-- The thread has returned or raised. -/
def Ended (s : Session Audio) : Prop := s.phase = .returned ∨ ∃ error, s.phase = .raised error

/-- The last of the turns that were asked for is finished. -/
def Complete (config : VoiceConfig) (completedTurns : ℕ) : Prop :=
  0 < config.maxTurns ∧ config.maxTurns ≤ completedTurns

/-- What a step does to the session and the controller, the event it hands over,
and whether it looks at the controller. -/
inductive Moved (config : VoiceConfig) (s : Session Audio) (controller : ConversationModeController) :
    Session Audio → ConversationModeController → Option (CaptureStreamEvent Audio) → Bool → Prop
  | fails (error : CaptureError) :
    Moved config s controller { s with phase := .raised error } controller none false
  | starts (rest : Rest) (deadline : Option ℕ) (phase : Phase Audio)
    (hphase : s.phase = .starting rest) (hq : Quiet phase) :
    Moved config s controller
      { s with
        conversationMode := controller.mode
        modeVersion := controller.version
        segmenter := s.segmenter + 1
        state := createCaptureState controller.mode
        deadline
        phase } controller none true
  | hears (frame : Frame Audio) (now : ℕ) (hphase : s.phase = .listening) :
    Moved config s controller { s with phase := .synchronizing frame now } controller none false
  | restarts (frame : Frame Audio) (now : ℕ) (hphase : s.phase = .synchronizing frame now)
    (hversion : controller.version ≠ s.modeVersion)
    (hmode : controller.mode ≠ s.state.conversationMode) :
    Moved config s controller
      { s with
        modeVersion := controller.version
        conversationMode := controller.mode
        pending := none
        phase := .starting .nextFrame } controller none true
  | accepts (frame : Frame Audio) (now : ℕ) (state : CaptureState) (phase : Phase Audio)
    (hphase : s.phase = .synchronizing frame now)
    (hmode : controller.version = s.modeVersion ∨ controller.mode = s.state.conversationMode)
    (hstate : state.conversationMode = s.state.conversationMode)
    (hswitch : state.modeSwitched = false) (ho : Onward s phase) :
    Moved config s controller
      { s with modeVersion := controller.version, state, phase } controller none true
  | opens (c : CaptureResult Audio) (rest : Rest) (phase : Phase Audio)
    (hphase : s.phase = .ending c rest) (hq : Quiet phase) :
    Moved config s controller
      { s with turnId := s.turnId + 1, pending := some (s.turnId + 1, c), phase } controller
      (some ⟨.endpoint, s.turnId + 1, some c⟩) false
  | opensFinal (c : CaptureResult Audio) (rest : Rest) (hphase : s.phase = .ending c rest) :
    Moved config s controller
      { s with turnId := s.turnId + 1, phase := .confirming (s.turnId + 1) c rest } controller
      (some ⟨.endpoint, s.turnId + 1, some c⟩) false
  | confirms (k : ℕ) (c : CaptureResult Audio) (rest : Rest) (hphase : s.phase = .confirming k c rest) :
    Moved config s controller { s with pending := none, phase := .finishing c rest } controller
      (some ⟨.confirmed, k, some c⟩) false
  | resumes (k now : ℕ) (phase : Phase Audio) (hphase : s.phase = .resuming k now)
    (hq : Quiet phase) :
    Moved config s controller { s with pending := none, phase } controller
      (some ⟨.resumed, k, none⟩) false
  | sets (c : CaptureResult Audio) (rest : Rest) (hphase : s.phase = .finishing c rest) :
    Moved config s controller
      { s with conversationMode := c.conversationMode, phase := .rereading rest }
      (controller.set c.conversationMode).2 none false
  | rereads (rest : Rest) (phase : Phase Audio) (hphase : s.phase = .rereading rest)
    (hnext : phase = .starting rest ∧ ¬Complete config (s.completedTurns + 1) ∨
      phase = .returned ∧ Complete config (s.completedTurns + 1)) :
    Moved config s controller
      { s with
        modeVersion := controller.version
        completedTurns := s.completedTurns + 1
        phase } controller none false

theorem checkTimeout_eq (s : Session Audio) (now : ℕ) :
    ∃ phase, Quiet phase ∧ checkTimeout s now = { s with phase } := by
  unfold checkTimeout
  split
  · exact ⟨_, .raised _, rfl⟩
  · exact ⟨_, .listening, rfl⟩

theorem checkActivation_eq (s : Session Audio) (now : ℕ) (h : s.state.modeSwitched = false) :
    ∃ phase, Quiet phase ∧ checkActivation s now = { s with phase } := by
  unfold checkActivation activationWindowExpired
  rw [h, Bool.false_and, if_neg Bool.false_ne_true]
  exact checkTimeout_eq s now

theorem afterwards_eq (s : Session Audio) (rest : Rest) (h : s.state.modeSwitched = false) :
    ∃ phase, Quiet phase ∧ afterwards s rest = { s with phase } := by
  cases rest with
  | nextFrame => exact ⟨_, .listening, rfl⟩
  | activation now => exact checkActivation_eq s now h
  | timeout now => exact checkTimeout_eq s now

@[simp] theorem acceptSpeech_conversationMode (state : CaptureState) (recording : Bool) :
    (acceptSpeech state recording).conversationMode = state.conversationMode := by
  unfold acceptSpeech
  split <;> rfl

@[simp] theorem acceptSpeech_modeSwitched (state : CaptureState) (recording : Bool) :
    (acceptSpeech state recording).modeSwitched = state.modeSwitched := by
  unfold acceptSpeech
  split <;> rfl

theorem acceptKeyphraseHit_spec (state : CaptureState) (frame : Frame Audio)
    (hit : KeyphraseHit Audio) :
    (acceptKeyphraseHit state frame hit).1.conversationMode = state.conversationMode ∧
      (acceptKeyphraseHit state frame hit).1.modeSwitched = state.modeSwitched ∧
      ∀ c ∈ (acceptKeyphraseHit state frame hit).2,
        c.conversationMode = state.conversationMode ∧
          (state.modeSwitched = false → c.modeSwitched = false) := by
  unfold acceptKeyphraseHit
  split
  · refine ⟨rfl, rfl, fun c hc => ?_⟩
    obtain ⟨samples, -, rfl⟩ := Option.map_eq_some_iff.mp hc
    exact ⟨rfl, fun _ => rfl⟩
  · refine ⟨acceptSpeech_conversationMode _ _, acceptSpeech_modeSwitched _ _, fun c hc => ?_⟩
    obtain ⟨utterance, -, rfl⟩ := Option.map_eq_some_iff.mp hc
    exact ⟨acceptSpeech_conversationMode _ _, fun h => (acceptSpeech_modeSwitched _ _).trans h⟩

/-- A frame leaves everything but the state of the turn as it is. -/
theorem acceptFrame_eq (s : Session Audio) (frame : Frame Audio) (now : ℕ)
    (h : s.state.modeSwitched = false) :
    ∃ state phase, acceptFrame s frame now = { s with state, phase } ∧
      state.conversationMode = s.state.conversationMode ∧ state.modeSwitched = false ∧
      Onward s phase := by
  unfold acceptFrame
  split
  · cases frame.keyphrase with
    | none => exact ⟨s.state, .listening, rfl, rfl, h, .listening⟩
    | some hit =>
      obtain ⟨hmode, hswitch, hresult⟩ := acceptKeyphraseHit_spec s.state frame hit
      dsimp only
      generalize acceptKeyphraseHit s.state frame hit = accepted at *
      obtain ⟨state, result⟩ := accepted
      cases result with
      | none => exact ⟨state, .listening, rfl, hmode, hswitch.trans h, .listening⟩
      | some c =>
        obtain ⟨hc, hplain⟩ := hresult c rfl
        exact ⟨state, .ending c .nextFrame, rfl, hmode, hswitch.trans h, .ending c _ hc (hplain h)⟩
  · have hmode := acceptSpeech_conversationMode s.state frame.recording
    have hswitch := (acceptSpeech_modeSwitched s.state frame.recording).trans h
    have hquiet := checkActivation_eq { s with state := acceptSpeech s.state frame.recording }
      now hswitch
    obtain ⟨quiet, hq, heq⟩ := hquiet
    dsimp only
    generalize acceptSpeech s.state frame.recording = state at *
    have hgoon : ∃ state' phase, checkActivation { s with state } now =
        { s with state := state', phase } ∧ state'.conversationMode = s.state.conversationMode ∧
        state'.modeSwitched = false ∧ Onward s phase :=
      ⟨state, quiet, heq, hmode, hswitch, hq.onward⟩
    cases frame.speech with
    | none => exact hgoon
    | some event =>
      obtain ⟨kind, utterance⟩ := event
      cases kind with
      | endpoint =>
        cases utterance with
        | none => exact ⟨state, .raised .failed, rfl, hmode, hswitch, .raised _⟩
        | some utterance => exact ⟨state, _, rfl, hmode, hswitch, .ending _ _ hmode hswitch⟩
      | resumed =>
        cases hp : s.pending with
        | none => simpa only [hp] using hgoon
        | some p =>
          obtain ⟨k, c⟩ := p
          exact ⟨state, .resuming k now, rfl, hmode, hswitch, .resuming k c now hp⟩
      | confirmed =>
        cases hp : s.pending with
        | none => simpa only [hp] using hgoon
        | some p =>
          obtain ⟨k, c⟩ := p
          exact ⟨state, .confirming k c (.activation now), rfl, hmode, hswitch,
            .confirming k c _ hp⟩

theorem syncExternalModeChange_eq (s : Session Audio) (controller : ConversationModeController) :
    syncExternalModeChange s controller =
      if controller.version ≠ s.modeVersion ∧ controller.mode ≠ s.state.conversationMode then
        (true, { s with modeVersion := controller.version, conversationMode := controller.mode })
      else (false, { s with modeVersion := controller.version }) := by
  unfold syncExternalModeChange ConversationModeController.snapshot
  by_cases hv : controller.version = s.modeVersion
  · simp [hv]
  · by_cases hm : controller.mode = s.state.conversationMode
    · simp [hv, hm]
    · simp [hv, hm]

/-- The whole of what a step of the thread can do. -/
theorem moved (config : VoiceConfig) (s : Session Audio)
    (controller : ConversationModeController) (stop : Bool) (input : Input Audio)
    (hplain : s.Plain) (hended : ¬s.Ended) {s' : Session Audio}
    {controller' : ConversationModeController} {event : Option (CaptureStreamEvent Audio)}
    (hstep : captureStep config s controller stop input = (s', controller', event)) :
    Moved config s controller s' controller' event (s.phase.looksAtController && !input.raises) := by
  unfold captureStep at hstep
  cases hraises : input.raises with
  | true =>
    rw [hraises, if_pos rfl] at hstep
    split at hstep
    · exact absurd (.inl ‹_›) hended
    · exact absurd (.inr ⟨_, ‹_›⟩) hended
    · cases hstep
      rw [Bool.not_true, Bool.and_false]
      exact .fails _
  | false =>
    rw [hraises, if_neg Bool.false_ne_true] at hstep
    rw [Bool.not_false, Bool.and_true]
    unfold advance at hstep
    cases hphase : s.phase with
    | returned => exact absurd (.inl hphase) hended
    | raised error => exact absurd (.inr ⟨error, hphase⟩) hended
    | starting rest =>
      obtain ⟨phase, hq, heq⟩ := afterwards_eq (startTurn config s controller input.now) rest rfl
      simp only [hphase, heq] at hstep
      cases hstep
      exact .starts rest _ phase hphase hq
    | listening =>
      simp only [hphase] at hstep
      split at hstep
      · cases hstep
        exact .fails _
      · split at hstep
        · cases hstep
          exact .fails _
        · cases hstep
          exact .hears _ _ hphase
    | synchronizing frame now =>
      have hsync := syncExternalModeChange_eq s controller
      by_cases hchanged : controller.version ≠ s.modeVersion ∧
          controller.mode ≠ s.state.conversationMode
      · rw [if_pos hchanged] at hsync
        simp only [hphase, hsync] at hstep
        cases hstep
        exact .restarts frame now hphase hchanged.1 hchanged.2
      · rw [if_neg hchanged] at hsync
        obtain ⟨state, phase, heq, hstate, hswitch, ho⟩ := acceptFrame_eq
          { s with modeVersion := controller.version, phase := .synchronizing frame now }
          frame now hplain.state
        simp only [hphase, hsync] at hstep
        rw [heq] at hstep
        cases hstep
        exact .accepts frame now state phase hphase (by grind) hstate hswitch (ho.congr rfl rfl)
    | ending c rest =>
      simp only [hphase] at hstep
      split at hstep
      · cases hstep
        exact .opensFinal c rest hphase
      · obtain ⟨phase, hq, heq⟩ := afterwards_eq
          { s with
            turnId := s.turnId + 1, pending := some (s.turnId + 1, c), phase := .ending c rest }
          rest hplain.state
        rw [heq] at hstep
        cases hstep
        exact .opens c rest phase hphase hq
    | confirming k c rest =>
      simp only [hphase] at hstep
      cases hstep
      exact .confirms k c rest hphase
    | resuming k now =>
      obtain ⟨phase, hq, heq⟩ := checkActivation_eq
        { s with pending := none, phase := .resuming k now } now hplain.state
      simp only [hphase] at hstep
      rw [heq] at hstep
      cases hstep
      exact .resumes k now phase hphase hq
    | switching now => exact absurd hphase (hplain.switching now)
    | finishing c rest =>
      simp only [hphase] at hstep
      cases hstep
      exact .sets c rest hphase
    | rereading rest =>
      simp only [hphase] at hstep
      split at hstep
      · cases hstep
        exact .rereads rest _ hphase (.inr ⟨rfl, ‹_›⟩)
      · cases hstep
        exact .rereads rest _ hphase (.inl ⟨rfl, ‹_›⟩)

section Moves

variable {config : VoiceConfig} {s s' : Session Audio}
  {controller controller' : ConversationModeController}
  {event : Option (CaptureStreamEvent Audio)} {looks : Bool}

theorem Quiet.capture? {phase : Phase Audio} (h : Quiet phase) : phase.capture? = none := by
  cases h <;> rfl

theorem Quiet.ne_switching {phase : Phase Audio} (h : Quiet phase) (now : ℕ) :
    phase ≠ .switching now := by
  cases h <;> exact nofun

theorem Onward.ne_switching {phase : Phase Audio} (h : Onward s phase) (now : ℕ) :
    phase ≠ .switching now := by
  cases h <;> exact nofun

theorem Onward.modeSwitched {phase : Phase Audio} (h : Onward s phase)
    (hp : ∀ k c, s.pending = some (k, c) → c.modeSwitched = false) :
    ∀ c, phase.capture? = some c → c.modeSwitched = false := by
  intro c hc
  cases h with
  | listening | raised | resuming => cases hc
  | ending c' rest hmode hswitch =>
    cases hc
    exact hswitch
  | confirming k c' rest h =>
    cases hc
    exact hp k c h

theorem plain_init (controller : ConversationModeController) :
    (Session.init controller : Session Audio).Plain where
  state := rfl
  switching := nofun
  pending := nofun
  capture := nofun

/-- No capture ever switches the mode by itself. -/
theorem Moved.plain (h : Moved config s controller s' controller' event looks) (hs : s.Plain) :
    s'.Plain := by
  have hcapture : ∀ {c}, s.phase.capture? = some c → c.modeSwitched = false := hs.capture _
  cases h with
  | fails error => exact ⟨hs.state, nofun, hs.pending, nofun⟩
  | starts rest deadline phase hphase hq =>
    exact ⟨rfl, hq.ne_switching, hs.pending, by simp [hq.capture?]⟩
  | hears => exact ⟨hs.state, nofun, hs.pending, nofun⟩
  | restarts => exact ⟨hs.state, nofun, nofun, nofun⟩
  | accepts frame now state phase hphase hmode hstate hswitch ho =>
    exact ⟨hswitch, ho.ne_switching, hs.pending, ho.modeSwitched hs.pending⟩
  | opens c rest phase hphase hq =>
    refine ⟨hs.state, hq.ne_switching, ?_, by simp [hq.capture?]⟩
    rintro k c' ⟨⟩
    exact hcapture (by rw [hphase]; rfl)
  | opensFinal c rest hphase =>
    refine ⟨hs.state, nofun, hs.pending, ?_⟩
    rintro c' ⟨⟩
    exact hcapture (by rw [hphase]; rfl)
  | confirms k c rest hphase =>
    refine ⟨hs.state, nofun, nofun, ?_⟩
    rintro c' ⟨⟩
    exact hcapture (by rw [hphase]; rfl)
  | resumes k now phase hphase hq =>
    exact ⟨hs.state, hq.ne_switching, nofun, by simp [hq.capture?]⟩
  | sets => exact ⟨hs.state, nofun, hs.pending, nofun⟩
  | rereads rest phase hphase hnext =>
    rcases hnext with ⟨rfl, -⟩ | ⟨rfl, -⟩
    · exact ⟨hs.state, nofun, hs.pending, nofun⟩
    · exact ⟨hs.state, nofun, hs.pending, nofun⟩

/-- The turn that the session can still resume or confirm. -/
def due? (s : Session Audio) : Option (ℕ × CaptureResult Audio) :=
  match s.phase with
  | .confirming k c _ => some (k, c)
  | .returned | .raised _ => none
  | _ => s.pending

/-- The session is at a place where its events say that a turn is open. -/
structure Follows (s : Session Audio) (o : Option (ℕ × CaptureResult Audio)) : Prop where
  due : ∀ p, s.due? = some p → o = some p
  resuming : ∀ k now, s.phase = .resuming k now → ∃ c, s.pending = some (k, c)

theorem follows_init (controller : ConversationModeController) :
    (Session.init controller : Session Audio).Follows none where
  due := nofun
  resuming := nofun

theorem pending_of_due {p : ℕ × CaptureResult Audio} (hs : s.due? = some p) (h : Quiet s.phase) :
    s.pending = some p := by
  unfold due? at hs
  generalize s.phase = phase at h hs
  cases h with
  | listening => exact hs
  | raised => cases hs

theorem Quiet.ne_resuming {phase : Phase Audio} (h : Quiet phase) {k now : ℕ} :
    phase ≠ .resuming k now := by
  cases h <;> exact nofun

/-- The events of the session are a stream of turns. -/
theorem Moved.stream (h : Moved config s controller s' controller' event looks)
    {es : List (CaptureStreamEvent Audio)} {o : Option (ℕ × CaptureResult Audio)}
    (hs : Stream es o s.turnId) (hf : s.Follows o) :
    ∃ o', Stream (es ++ event.toList) o' s'.turnId ∧ s'.Follows o' := by
  have hdue : ∀ {p}, s.due? = some p → o = some p := hf.due _
  cases h with
  | fails error => exact ⟨o, by simpa using hs, nofun, nofun⟩
  | starts rest deadline phase hphase hq =>
    refine ⟨o, by simpa using hs, fun p hp => hdue ?_, fun _ _ h => absurd h hq.ne_resuming⟩
    have hpending := pending_of_due hp hq
    unfold due?
    rw [hphase]
    exact hpending
  | hears frame now hphase =>
    refine ⟨o, by simpa using hs, fun p hp => hdue ?_, nofun⟩
    unfold due?
    rw [hphase]
    exact hp
  | restarts frame now hphase => exact ⟨o, by simpa using hs, nofun, nofun⟩
  | accepts frame now state phase hphase hmode hstate hswitch ho =>
    have hpending : ∀ {p}, s.pending = some p → o = some p := by
      intro p hp
      refine hdue ?_
      unfold due?
      rw [hphase]
      exact hp
    refine ⟨o, by simpa using hs, ?_, ?_⟩
    · intro p hp
      cases ho with
      | raised error => cases hp
      | listening | ending | resuming => exact hpending hp
      | confirming k c rest h =>
        cases hp
        exact hpending h
    · rintro k now rfl
      cases ho with
      | resuming k c now h => exact ⟨c, h⟩
  | opens c rest phase hphase hq =>
    refine ⟨_, hs.endpoint (Nat.lt_succ_self _), fun p hp => ?_, fun _ _ h => absurd h hq.ne_resuming⟩
    exact pending_of_due hp hq
  | opensFinal c rest hphase =>
    exact ⟨_, hs.endpoint (Nat.lt_succ_self _), fun p hp => hp, nofun⟩
  | confirms k c rest hphase =>
    obtain rfl : o = some (k, c) := hdue (by unfold due?; rw [hphase])
    exact ⟨none, hs.confirmed, nofun, nofun⟩
  | resumes k now phase hphase hq =>
    obtain ⟨c, hc⟩ := hf.resuming k now hphase
    obtain rfl : o = some (k, c) := hdue (by unfold due?; rw [hphase]; exact hc)
    refine ⟨none, hs.resumed, fun p hp => ?_, fun _ _ h => absurd h hq.ne_resuming⟩
    cases pending_of_due hp hq
  | sets c rest hphase =>
    refine ⟨o, by simpa using hs, fun p hp => hdue ?_, nofun⟩
    unfold due?
    rw [hphase]
    exact hp
  | rereads rest phase hphase hnext =>
    rcases hnext with ⟨rfl, -⟩ | ⟨rfl, -⟩
    · refine ⟨o, by simpa using hs, fun p hp => hdue ?_, nofun⟩
      unfold due?
      rw [hphase]
      exact hp
    · exact ⟨o, by simpa using hs, nofun, nofun⟩

end Moves

end Session
end ReframeVoice
