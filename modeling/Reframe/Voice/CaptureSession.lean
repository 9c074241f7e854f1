import Reframe.Lib.Run
import Mathlib.Data.Nat.Notation

/-! The capture thread of the voice loop: `SpeculativeCaptureSession.run`, cut at the places where
another thread can act, and the conversation mode it shares with the turns. -/
namespace ReframeVoice

inductive ConversationMode where
  | wakeCommand
  | continuousConversation
  deriving DecidableEq, Repr

structure ConversationModeController where
  mode : ConversationMode
  version : ℕ
  deriving DecidableEq

namespace ConversationModeController

def snapshot (c : ConversationModeController) : ConversationMode × ℕ := (c.mode, c.version)

/-- Whether the mode changes, and the controller after it. -/
def set (c : ConversationModeController) (mode : ConversationMode) :
    Bool × ConversationModeController :=
  if c.mode = mode then (false, c) else (true, ⟨mode, c.version + 1⟩)

def turnOffConversation (c : ConversationModeController) : Bool × ConversationModeController :=
  c.set .wakeCommand

@[simp] theorem set_mode (c : ConversationModeController) (mode : ConversationMode) :
    (c.set mode).2.mode = mode := by
  unfold set
  split
  · assumption
  · rfl

theorem version_le_set (c : ConversationModeController) (mode : ConversationMode) :
    c.version ≤ (c.set mode).2.version := by
  unfold set
  split
  · exact Nat.le_refl _
  · exact Nat.le_succ _

/-- The version tells two modes apart. -/
theorem mode_set_of_version {c : ConversationModeController} {mode : ConversationMode}
    (h : (c.set mode).2.version ≤ c.version) : (c.set mode).2.mode = c.mode := by
  unfold set at h ⊢
  split at h
  · rw [if_pos ‹_›]
  · exact absurd h (Nat.not_succ_le_self _)

end ConversationModeController

inductive TriggerKind where
  | wakeCommand
  | conversationOn
  deriving DecidableEq, Repr

structure KeyphraseDetection where
  kind : TriggerKind
  phrase : String
  deriving DecidableEq

structure DetectedUtterance (Audio : Type) where
  samples : Audio
  forcedEnd : Bool
  deriving DecidableEq

structure CaptureResult (Audio : Type) where
  conversationMode : ConversationMode
  keyphraseDetection : Option KeyphraseDetection
  utterance : Option (DetectedUtterance Audio)
  modeSwitched : Bool
  deriving DecidableEq

inductive CaptureStreamEventKind where
  | endpoint
  | resumed
  | confirmed
  | modeSwitch
  deriving DecidableEq, Repr

structure CaptureStreamEvent (Audio : Type) where
  kind : CaptureStreamEventKind
  turnId : ℕ
  capture : Option (CaptureResult Audio)
  deriving DecidableEq

inductive UtteranceEventKind where
  | endpoint
  | resumed
  | confirmed
  deriving DecidableEq, Repr

structure UtteranceEvent (Audio : Type) where
  kind : UtteranceEventKind
  utterance : Option (DetectedUtterance Audio)
  deriving DecidableEq

structure VoiceConfig where
  minSilenceMs : ℕ
  finalSilenceMs : ℕ
  /-- `0` where there is no timeout. -/
  listenTimeout : ℕ
  maxTurns : ℕ
  deriving DecidableEq

/-- What is kept for the turn that is listened to. -/
structure CaptureState where
  conversationMode : ConversationMode
  keyphraseRequired : Bool
  keyphraseDetection : Option KeyphraseDetection
  modeSwitched : Bool
  postActivationDeadline : Option ℕ
  speechStarted : Bool
  wasRecording : Bool
  deriving DecidableEq

def createCaptureState (mode : ConversationMode) : CaptureState where
  conversationMode := mode
  keyphraseRequired := mode = .wakeCommand
  keyphraseDetection := none
  modeSwitched := false
  postActivationDeadline := none
  speechStarted := false
  wasRecording := false

/-- A hit of the keyphrase gate: the audio of a conversation-on confirmation, if there is any, and
the utterance that the segmenter finds in the audio replayed around a wake word. -/
structure KeyphraseHit (Audio : Type) where
  detection : KeyphraseDetection
  confirmation : Option Audio
  replayed : Option (DetectedUtterance Audio)
  deriving DecidableEq

/-- What the keyphrase gate and the segmenter make of an audio frame. -/
structure Frame (Audio : Type) where
  keyphrase : Option (KeyphraseHit Audio)
  speech : Option (UtteranceEvent Audio)
  recording : Bool
  deriving DecidableEq

inductive CaptureError where
  | interrupted
  | timedOut
  | microphoneClosed
  /-- An assertion, or an exception of the microphone, a detector or an event handler. -/
  | failed
  deriving DecidableEq, Repr

/-- What remains of the work on a frame. -/
inductive Rest where
  | nextFrame
  | activation (now : ℕ)
  | timeout (now : ℕ)
  deriving DecidableEq

/-- Where the thread is, before its next step that another thread can see or disturb. -/
inductive Phase (Audio : Type) where
  /-- In `_start_turn`, before the snapshot. -/
  | starting (rest : Rest)
  | listening
  /-- In `_sync_external_mode_change`, before the snapshot. -/
  | synchronizing (frame : Frame Audio) (now : ℕ)
  /-- In `emit_endpoint`. -/
  | ending (result : CaptureResult Audio) (rest : Rest)
  /-- Before a confirmed event. -/
  | confirming (turnId : ℕ) (result : CaptureResult Audio) (rest : Rest)
  /-- Before a resumed event. -/
  | resuming (turnId now : ℕ)
  /-- Before a mode switch event. -/
  | switching (now : ℕ)
  /-- In `turn_finished`, before the mode is set. -/
  | finishing (result : CaptureResult Audio) (rest : Rest)
  /-- In `turn_finished`, before the version is read again. -/
  | rereading (rest : Rest)
  | returned
  | raised (error : CaptureError)
  deriving DecidableEq

/-- The next step looks at the controller. -/
def Phase.looksAtController {Audio : Type} : Phase Audio → Bool
  | .starting _ | .synchronizing .. => true
  | _ => false

structure Session (Audio : Type) where
  conversationMode : ConversationMode
  modeVersion : ℕ
  turnId : ℕ
  /-- `pending_turn_id` and `pending_capture`, which are set and cleared together. -/
  pending : Option (ℕ × CaptureResult Audio)
  completedTurns : ℕ
  /-- How many segmenters there have been: the number of the one in use. -/
  segmenter : ℕ
  state : CaptureState
  deadline : Option ℕ
  phase : Phase Audio
  deriving DecidableEq

/-- What the thread finds at its next step: the next frame, or the end of the microphone stream. -/
structure Input (Audio : Type) where
  frame : Option (Frame Audio)
  now : ℕ
  raises : Bool
  deriving DecidableEq

section Steps

variable {Audio : Type}

def Session.init (controller : ConversationModeController) : Session Audio where
  conversationMode := controller.mode
  modeVersion := controller.version
  turnId := 0
  pending := none
  completedTurns := 0
  segmenter := 0
  state := createCaptureState controller.mode
  deadline := none
  phase := .starting .nextFrame

def listenTimedOut (deadline : Option ℕ) (state : CaptureState) (now : ℕ) : Bool :=
  match deadline with
  | none => false
  | some deadline =>
    if state.keyphraseDetection.isSome || state.speechStarted then false else deadline ≤ now

def activationWindowExpired (state : CaptureState) (now : ℕ) : Bool :=
  state.modeSwitched && state.postActivationDeadline.any (· ≤ now)

def checkTimeout (s : Session Audio) (now : ℕ) : Session Audio :=
  if listenTimedOut s.deadline s.state now then { s with phase := .raised .timedOut }
  else { s with phase := .listening }

def checkActivation (s : Session Audio) (now : ℕ) : Session Audio :=
  if activationWindowExpired s.state now then { s with phase := .switching now }
  else checkTimeout s now

/-- The rest of the work on a frame. -/
def afterwards (s : Session Audio) : Rest → Session Audio
  | .nextFrame => { s with phase := .listening }
  | .activation now => checkActivation s now
  | .timeout now => checkTimeout s now

def endpointIsFinal (config : VoiceConfig) (result : CaptureResult Audio) : Bool :=
  match result.utterance with
  | none => false
  | some utterance => utterance.forcedEnd || config.finalSilenceMs ≤ config.minSilenceMs

def finishWithUtterance (state : CaptureState) (utterance : DetectedUtterance Audio) :
    CaptureResult Audio where
  conversationMode := state.conversationMode
  keyphraseDetection := state.keyphraseDetection
  utterance := some utterance
  modeSwitched := state.modeSwitched

def finishConversationModeConfirmation (state : CaptureState) (samples : Audio) :
    CaptureResult Audio where
  conversationMode := state.conversationMode
  keyphraseDetection := state.keyphraseDetection
  utterance := some ⟨samples, true⟩
  modeSwitched := false

def finishModeSwitch (state : CaptureState) : CaptureResult Audio where
  conversationMode := state.conversationMode
  keyphraseDetection := state.keyphraseDetection
  utterance := none
  modeSwitched := state.modeSwitched

/-- What `accept_speech_frame` and `accept_speech_event` keep of the segmenter. -/
def acceptSpeech (state : CaptureState) (recording : Bool) : CaptureState :=
  if recording && !state.wasRecording then
    { state with speechStarted := true, postActivationDeadline := none, wasRecording := recording }
  else { state with wasRecording := recording }

/-- `_accept_keyphrase_frame` on a hit of the gate. -/
def acceptKeyphraseHit (state : CaptureState) (frame : Frame Audio) (hit : KeyphraseHit Audio) :
    CaptureState × Option (CaptureResult Audio) :=
  let state := { state with keyphraseDetection := some hit.detection }
  if hit.detection.kind = .conversationOn then
    (state, hit.confirmation.map (finishConversationModeConfirmation state))
  else
    let state := acceptSpeech state frame.recording
    (state, hit.replayed.map (finishWithUtterance state))

def startTurn (config : VoiceConfig) (s : Session Audio) (controller : ConversationModeController)
    (now : ℕ) : Session Audio :=
  let (mode, version) := controller.snapshot
  { s with
    conversationMode := mode
    modeVersion := version
    segmenter := s.segmenter + 1
    state := createCaptureState mode
    deadline := if config.listenTimeout = 0 then none else some (now + config.listenTimeout) }

/-- Whether the turn is to be restarted, and the session after the look at the controller. -/
def syncExternalModeChange (s : Session Audio) (controller : ConversationModeController) :
    Bool × Session Audio :=
  let (mode, version) := controller.snapshot
  if version = s.modeVersion then (false, s)
  else if mode = s.state.conversationMode then (false, { s with modeVersion := version })
  else (true, { s with modeVersion := version, conversationMode := mode })

/-- The work on a frame that does not restart the turn, up to its first event. -/
def acceptFrame (s : Session Audio) (frame : Frame Audio) (now : ℕ) : Session Audio :=
  if s.state.keyphraseRequired && s.state.keyphraseDetection.isNone then
    match frame.keyphrase with
    | none => { s with phase := .listening }
    | some hit =>
      match acceptKeyphraseHit s.state frame hit with
      | (state, none) => { s with state, phase := .listening }
      | (state, some result) => { s with state, phase := .ending result .nextFrame }
  else
    let s := { s with state := acceptSpeech s.state frame.recording }
    match frame.speech with
    | none => checkActivation s now
    | some ⟨.endpoint, none⟩ => { s with phase := .raised .failed }
    | some ⟨.endpoint, some utterance⟩ =>
      { s with phase := .ending (finishWithUtterance s.state utterance) (.activation now) }
    | some ⟨.resumed, _⟩ =>
      match s.pending with
      | none => checkActivation s now
      | some (turnId, _) => { s with phase := .resuming turnId now }
    | some ⟨.confirmed, _⟩ =>
      match s.pending with
      | none => checkActivation s now
      | some (turnId, capture) => { s with phase := .confirming turnId capture (.activation now) }

/-- A step of the capture thread: the session and the controller after it, and the event it hands
to the event loop. -/
def advance (config : VoiceConfig) (s : Session Audio) (controller : ConversationModeController)
    (stop : Bool) (input : Input Audio) :
    Session Audio × ConversationModeController × Option (CaptureStreamEvent Audio) :=
  match s.phase with
  | .returned | .raised _ => (s, controller, none)
  | .starting rest => (afterwards (startTurn config s controller input.now) rest, controller, none)
  | .listening =>
    if stop then ({ s with phase := .raised .interrupted }, controller, none)
    else match input.frame with
      | none => ({ s with phase := .raised .microphoneClosed }, controller, none)
      | some frame => ({ s with phase := .synchronizing frame input.now }, controller, none)
  | .synchronizing frame now =>
    match syncExternalModeChange s controller with
    | (true, s) => ({ s with pending := none, phase := .starting .nextFrame }, controller, none)
    | (false, s) => (acceptFrame s frame now, controller, none)
  | .ending result rest =>
    let turnId := s.turnId + 1
    let event := ⟨.endpoint, turnId, some result⟩
    if endpointIsFinal config result then
      ({ s with turnId, phase := .confirming turnId result rest }, controller, some event)
    else (afterwards { s with turnId, pending := some (turnId, result) } rest, controller, some event)
  | .confirming turnId result rest =>
    ({ s with pending := none, phase := .finishing result rest }, controller,
      some ⟨.confirmed, turnId, some result⟩)
  | .resuming turnId now =>
    (checkActivation { s with pending := none } now, controller, some ⟨.resumed, turnId, none⟩)
  | .switching now =>
    let result := finishModeSwitch s.state
    ({ s with turnId := s.turnId + 1, phase := .finishing result (.timeout now) }, controller,
      some ⟨.modeSwitch, s.turnId + 1, some result⟩)
  | .finishing result rest =>
    ({ s with conversationMode := result.conversationMode, phase := .rereading rest },
      (controller.set result.conversationMode).2, none)
  | .rereading rest =>
    let s := { s with
      modeVersion := controller.snapshot.2, completedTurns := s.completedTurns + 1 }
    if 0 < config.maxTurns ∧ config.maxTurns ≤ s.completedTurns then
      ({ s with phase := .returned }, controller, none)
    else ({ s with phase := .starting rest }, controller, none)

/-- A step of the capture thread, or an exception in its place. -/
def captureStep (config : VoiceConfig) (s : Session Audio)
    (controller : ConversationModeController) (stop : Bool) (input : Input Audio) :
    Session Audio × ConversationModeController × Option (CaptureStreamEvent Audio) :=
  if input.raises then
    match s.phase with
    | .returned | .raised _ => (s, controller, none)
    | _ => ({ s with phase := .raised .failed }, controller, none)
  else advance config s controller stop input

end Steps
end ReframeVoice
