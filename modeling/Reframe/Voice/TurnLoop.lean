import Reframe.Voice.CaptureSession
import Mathlib.Data.List.Basic
import Mathlib.Logic.Function.Basic

/-! The event loop of the voice command: `run_voice_turn_loop` over the events of a capture session,
the turn tasks it starts with `VoiceTurnProcessor.process`, and the whole system of the capture
thread, the loop and its tasks. -/
namespace ReframeVoice

structure VoiceTurnControl where
  cancelled : Bool
  committed : Bool
  deriving DecidableEq

structure TriggerPhraseDetection where
  kind : TriggerKind
  phrase : String
  routedTranscript : String
  deriving DecidableEq

/-- What the turns use of the trigger matcher and the noise gate. -/
structure Services (Audio : Type) where
  shouldIgnoreContinuousUtterance : Audio → Bool
  matchTrigger : String → Option TriggerPhraseDetection
  matchConfirmed : String → TriggerKind → String → Option TriggerPhraseDetection

/-- What a turn does once it is committed. -/
inductive AfterCommit where
  | ignore
  | turnOn
  | reply (routedTranscript : String)
  deriving DecidableEq

inductive ProcessOutcome where
  | returned
  | cancelled
  /-- An exception. -/
  | failed
  deriving DecidableEq, Repr

inductive TaskOutcome where
  | returned
  | cancelled
  | raised
  deriving DecidableEq, Repr

/-- Where a turn task is in `_process_captured_voice_turn`. -/
inductive TurnPhase where
  | created
  /-- Before the transcription, of a conversation-on confirmation or of another utterance. -/
  | grace (confirmation : Bool)
  | transcribing (confirmation : Bool)
  /-- In `_wait_until_committed`. -/
  | waiting (after : AfterCommit)
  /-- In `process_agent_turn`. -/
  | agent
  /-- In `processor.close`. -/
  | closing (outcome : ProcessOutcome)
  | finished (outcome : TaskOutcome)
  deriving DecidableEq

structure Turn (Audio : Type) where
  id : ℕ
  capture : CaptureResult Audio
  control : Option VoiceTurnControl
  /-- The task has been asked to cancel. -/
  cancelRequested : Bool
  phase : TurnPhase
  /-- `process_agent_turn` has been called; what it dispatches may outlive the task. -/
  agentStarted : Bool
  deriving DecidableEq

namespace Turn

variable {Audio : Type}

def new (id : ℕ) (capture : CaptureResult Audio) (control : Option VoiceTurnControl) :
    Turn Audio where
  id
  capture
  control
  cancelRequested := false
  phase := .created
  agentStarted := false

/-- `control.cancel()`. -/
def cancelControl (t : Turn Audio) : Turn Audio :=
  { t with control := t.control.map fun c => { c with cancelled := true } }

/-- `control.commit()`. -/
def commit (t : Turn Audio) : Turn Audio :=
  { t with control := t.control.map fun c => { c with committed := true } }

def isFinished (t : Turn Audio) : Bool :=
  match t.phase with
  | .finished _ => true
  | _ => false

/-- `task.cancel()`, which a finished task ignores. -/
def cancelTask (t : Turn Audio) : Turn Audio :=
  if t.isFinished then t else { t with cancelRequested := true }

def isCancelled (t : Turn Audio) : Bool := t.control.any (·.cancelled)

def isCommitted (t : Turn Audio) : Bool := t.control.any (·.committed)

end Turn

/-- What others can see of a turn. -/
inductive Effect where
  | modeChange (mode : ConversationMode)
  | humanReply (text : String)
  | agentTurn
  deriving DecidableEq

/-- What a turn task finds at its next step. -/
structure TurnInput where
  transcript : String
  raises : Bool
  deriving DecidableEq

section Turns

variable {Audio : Type} (services : Services Audio)

def isContinuousUnprompted (capture : CaptureResult Audio) : Bool :=
  capture.conversationMode = .continuousConversation && capture.keyphraseDetection.isNone

def isConversationOnConfirmation (capture : CaptureResult Audio) : Bool :=
  capture.keyphraseDetection.any (·.kind = .conversationOn) && !capture.modeSwitched

def isConversationOnTriggerOnly (trigger : Option TriggerPhraseDetection) : Bool :=
  trigger.any fun t => t.kind = .conversationOn && t.routedTranscript = ""

/-- The start of `process`, up to its first wait. -/
def beginTurn (capture : CaptureResult Audio) : TurnPhase :=
  match capture.utterance with
  | none => if capture.modeSwitched then .closing .returned else .closing .failed
  | some utterance =>
    if isContinuousUnprompted capture &&
        services.shouldIgnoreContinuousUtterance utterance.samples then .waiting .ignore
    else .grace (isConversationOnConfirmation capture)

/-- What the transcript of a turn asks for. -/
def routeTranscript (capture : CaptureResult Audio) (transcript : String) : Bool → AfterCommit
  | true =>
    let trigger := capture.keyphraseDetection.bind fun d =>
      services.matchConfirmed transcript .conversationOn d.phrase
    if isConversationOnTriggerOnly trigger then .turnOn else .ignore
  | false =>
    let trigger := match capture.keyphraseDetection with
      | none => services.matchTrigger transcript
      | some d => services.matchConfirmed transcript d.kind d.phrase
    if isConversationOnTriggerOnly trigger then .turnOn
    else .reply ((trigger.map (·.routedTranscript)).getD transcript)

/-- What a committed turn does before it waits again. -/
def afterCommit (t : Turn Audio) (controller : ConversationModeController) :
    AfterCommit → Turn Audio × ConversationModeController × List Effect
  | .ignore => ({ t with phase := .closing .returned }, controller, [])
  | .turnOn => ({ t with phase := .closing .returned },
      (controller.set .continuousConversation).2, [.modeChange .continuousConversation])
  | .reply text => ({ t with phase := .agent, agentStarted := true }, controller,
      (if text = "" then [] else [.humanReply text]) ++ [.agentTurn])

/-- The outcome of the task, when `process` has ended and its processor is closed. -/
def taskOutcome (input : TurnInput) : ProcessOutcome → TaskOutcome
  | .returned => if input.raises then .raised else .returned
  | .cancelled => .cancelled
  | .failed => .returned

/-- A step of a turn task. A task that has to wait stays where it is. -/
def turnStep (t : Turn Audio) (controller : ConversationModeController) (input : TurnInput) :
    Turn Audio × ConversationModeController × List Effect :=
  match t.phase with
  | .finished _ => (t, controller, [])
  | .created =>
    if t.cancelRequested then ({ t with phase := .finished .cancelled }, controller, [])
    else ({ t with phase := beginTurn services t.capture }, controller, [])
  | .closing outcome =>
    if t.cancelRequested then ({ t with phase := .finished .cancelled }, controller, [])
    else ({ t with phase := .finished (taskOutcome input outcome) }, controller, [])
  | .grace confirmation =>
    if t.cancelRequested || t.isCancelled then
      ({ t with phase := .closing .cancelled }, controller, [])
    else ({ t with phase := .transcribing confirmation }, controller, [])
  | .transcribing confirmation =>
    if t.cancelRequested then ({ t with phase := .closing .cancelled }, controller, [])
    else if input.raises then ({ t with phase := .closing .failed }, controller, [])
    else if t.isCancelled then ({ t with phase := .closing .cancelled }, controller, [])
    else ({ t with
      phase := .waiting (routeTranscript services t.capture input.transcript confirmation) },
      controller, [])
  | .waiting after =>
    if t.cancelRequested || t.isCancelled then
      ({ t with phase := .closing .cancelled }, controller, [])
    else if t.control.isSome && !t.isCommitted then (t, controller, [])
    else afterCommit t controller after
  | .agent =>
    if t.cancelRequested || t.isCancelled then
      ({ t with phase := .closing .cancelled }, controller, [])
    else if input.raises then ({ t with phase := .closing .failed }, controller, [])
    else ({ t with phase := .closing .returned }, controller, [])

end Turns

/-- How the capture session ended. -/
inductive WorkerOutcome where
  | returned
  | raised
  deriving DecidableEq, Repr

/-- A callback of the capture thread that the event loop has not run yet. -/
inductive Callback (Audio : Type) where
  | put (event : CaptureStreamEvent Audio)
  | complete (outcome : WorkerOutcome)
  deriving DecidableEq

inductive LoopPhase where
  /-- In `_next_capture_event`. -/
  | running
  /-- An exception is on its way out of the loop; the worker is given time to stop. -/
  | stopping
  /-- In the final `gather`. -/
  | gathering
  | returned
  /-- A cancellation is raised out of the final `gather`. -/
  | cancelled
  | raised
  deriving DecidableEq, Repr

inductive Moment (Audio : Type) where
  /-- The capture thread hands an event over, about the audio of its segmenter. -/
  | emitted (event : CaptureStreamEvent Audio) (segmenter : ℕ)
  | handled (event : CaptureStreamEvent Audio)
  | effect (turn : ℕ) (effect : Effect)
  deriving DecidableEq

/-- The modes that were asked for, and how many of them the capture session has looked at. -/
structure History where
  /-- The explicit changes of the mode, in order. -/
  explicit : List ConversationMode
  /-- How many there were at the last look of the capture session at the controller. -/
  seen : ℕ
  /-- How many the session had looked at when it confirmed a turn. -/
  seenBy : ℕ → ℕ

structure System (Audio : Type) where
  controller : ConversationModeController
  session : Session Audio
  stop : Bool
  posted : List (Callback Audio)
  queue : List (CaptureStreamEvent Audio)
  worker : Option WorkerOutcome
  /-- All turns there have been; a turn is known by its place here. -/
  turns : List (Turn Audio)
  /-- The set `tasks` of the loop. -/
  tasks : List ℕ
  activeTurnId : Option ℕ
  activeCapture : Option (CaptureResult Audio)
  /-- `active_control` and `active_task`, which are set and cleared together. -/
  active : Option ℕ
  loop : LoopPhase
  log : List (Moment Audio)
  history : History

inductive Action (Audio : Type) where
  | capture (input : Input Audio)
  /-- The event loop runs the next callback of the capture thread. -/
  | deliver
  /-- A step of `run_voice_turn_loop`. -/
  | handle
  | turn (index : ℕ) (input : TurnInput)
  /-- A task of the agent turn ends the continuous conversation. -/
  | dispatchConversationModeOff (index : ℕ)
  /-- `run_voice_turn_loop` is cancelled from outside while it waits for an event. -/
  | interrupt
  | cancelBackgroundTurns
  deriving DecidableEq

namespace System

variable {Audio : Type}

def start (mode : ConversationMode) : System Audio where
  controller := ⟨mode, 0⟩
  session := Session.init ⟨mode, 0⟩
  stop := false
  posted := []
  queue := []
  worker := none
  turns := []
  tasks := []
  activeTurnId := none
  activeCapture := none
  active := none
  loop := .running
  log := []
  history := ⟨[], 0, fun _ => 0⟩

/-- The mode of the latest explicit change, or the one of the start. -/
def latestMode (mode : ConversationMode) (s : System Audio) : ConversationMode :=
  s.history.explicit.getLast?.getD mode

def record (s : System Audio) (moments : List (Moment Audio)) : System Audio :=
  { s with log := s.log ++ moments }

/-- An explicit change of the mode. -/
def askFor (s : System Audio) (mode : ConversationMode) : System Audio :=
  { s with history := { s.history with explicit := s.history.explicit ++ [mode] } }

/-- The capture thread hands an event over. -/
def emit (s : System Audio) (event : CaptureStreamEvent Audio) : System Audio :=
  let s := s.record [.emitted event s.session.segmenter]
  { s with
    posted := s.posted ++ [.put event]
    history := { s.history with
      seenBy := if event.kind = .confirmed then
        Function.update s.history.seenBy event.turnId s.history.seen
      else s.history.seenBy } }

/-- The outcome with which the thread ends. -/
def completion? (session : Session Audio) : Option WorkerOutcome :=
  match session.phase with
  | .returned => some .returned
  | .raised _ => some .raised
  | _ => none

/-- A mode switch of the capture itself is an explicit change; other captures write their mode
back. -/
def ownSwitch? : Phase Audio → Option ConversationMode
  | .finishing result _ => if result.modeSwitched then some result.conversationMode else none
  | _ => none

def capture (config : VoiceConfig) (s : System Audio) (input : Input Audio) : System Audio :=
  match completion? s.session with
  | some _ => s
  | none =>
    let phase := s.session.phase
    let (session, controller, event) := captureStep config s.session s.controller s.stop input
    let s := match event with
      | some event => s.emit event
      | none => s
    let s := { s with
      session
      controller
      posted := s.posted ++ ((completion? session).map Callback.complete).toList
      history := if phase.looksAtController && !input.raises then
        { s.history with seen := s.history.explicit.length } else s.history }
    match ownSwitch? phase with
    | some mode => if input.raises then s else s.askFor mode
    | none => s

def deliver (s : System Audio) : System Audio :=
  match s.posted with
  | [] => s
  | .put event :: posted => { s with posted, queue := s.queue ++ [event] }
  | .complete outcome :: posted => { s with posted, worker := some outcome }

def modifyTurn (s : System Audio) (index : ℕ) (f : Turn Audio → Turn Audio) : System Audio :=
  { s with turns := s.turns.modify index f }

/-- `active_control.cancel()` and `active_task.cancel()`. -/
def cancelActive (s : System Audio) : System Audio :=
  match s.active with
  | none => s
  | some index => s.modifyTurn index fun t => t.cancelControl.cancelTask

def createTurn (s : System Audio) (t : Turn Audio) : System Audio :=
  { s with turns := s.turns ++ [t], tasks := s.tasks ++ [s.turns.length] }

def clearActive (s : System Audio) : System Audio :=
  { s with activeTurnId := none, activeCapture := none, active := none }

/-- `active_control.commit()`, if the active turn is the one given. -/
def commitActive (s : System Audio) (turnId : ℕ) : System Audio :=
  match s.active with
  | some index => if s.activeTurnId = some turnId then s.modifyTurn index Turn.commit else s
  | none => s

/-- `pipeline.apply_capture_mode`. -/
def applyCaptureMode (s : System Audio) (capture : CaptureResult Audio) : System Audio :=
  let s := if capture.modeSwitched then s.askFor capture.conversationMode else s
  { s with controller := (s.controller.set capture.conversationMode).2 }

def handleEvent (s : System Audio) (event : CaptureStreamEvent Audio) : System Audio :=
  match event.kind with
  | .endpoint =>
    match event.capture with
    | none => s
    | some capture =>
      let s := s.cancelActive
      { s.createTurn (Turn.new event.turnId capture (some ⟨false, false⟩)) with
        activeTurnId := some event.turnId
        activeCapture := some capture
        active := some s.turns.length }
  | .resumed =>
    if s.activeTurnId = some event.turnId then s.cancelActive.clearActive else s
  | .confirmed =>
    let s := match event.capture.or s.activeCapture with
      | some capture => s.applyCaptureMode capture
      | none => s
    (s.commitActive event.turnId).clearActive
  | .modeSwitch =>
    match event.capture with
    | none => s
    | some capture => (s.applyCaptureMode capture).createTurn (Turn.new event.turnId capture none)

/-- The turn at an index, if it is one, has ended as given. -/
def endedWith (s : System Audio) (outcome : TaskOutcome) (index : ℕ) : Bool :=
  (s.turns[index]?).any (·.phase = .finished outcome)

def isFinished (s : System Audio) (index : ℕ) : Bool := (s.turns[index]?).any (·.isFinished)

/-- `except BaseException`: the loop stops with the exception. -/
def abort (s : System Audio) : System Audio := { s.cancelActive with stop := true, loop := .stopping }

/-- `_raise_completed_turn_errors`. -/
def raiseCompletedTurnErrors (s : System Audio) : System Audio :=
  if s.tasks.any (s.endedWith .raised) then s.abort
  else { s with tasks := s.tasks.filter fun index => !s.isFinished index }

def gather (s : System Audio) : System Audio :=
  if s.tasks.any (s.endedWith .cancelled) then { s with loop := .cancelled }
  else if s.tasks.any (s.endedWith .raised) then { s with loop := .raised }
  else if s.tasks.all s.isFinished then { s with loop := .returned }
  else s

def handle (s : System Audio) : System Audio :=
  match s.loop with
  | .running =>
    match s.queue with
    | event :: queue =>
      ((({ s with queue }).record [.handled event]).handleEvent event).raiseCompletedTurnErrors
    | [] =>
      match s.worker with
      | none => s
      | some .returned => { s with loop := .gathering }
      | some .raised => s.abort
  | .gathering => s.gather
  | _ => s

def turn (services : Services Audio) (s : System Audio) (index : ℕ) (input : TurnInput) :
    System Audio :=
  match s.turns[index]? with
  | none => s
  | some t =>
    let (t, controller, effects) := turnStep services t s.controller input
    let s := { s with turns := s.turns.set index t, controller }
    let s := s.record (effects.map (Moment.effect index))
    if .modeChange .continuousConversation ∈ effects then s.askFor .continuousConversation else s

def dispatchConversationModeOff (s : System Audio) (index : ℕ) : System Audio :=
  if (s.turns[index]?).any (·.agentStarted) then
    let s := { s with controller := s.controller.turnOffConversation.2 }
    (s.record [.effect index (.modeChange .wakeCommand)]).askFor .wakeCommand
  else s

def interrupt (s : System Audio) : System Audio :=
  match s.loop with
  | .running => s.abort
  | _ => s

/-- `_cancel_background_turns`. -/
def cancelBackgroundTurns (s : System Audio) : System Audio :=
  match s.loop with
  | .stopping => { s with
      turns := s.turns.mapIdx fun index t => if index ∈ s.tasks then t.cancelTask else t
      tasks := []
      loop := .raised }
  | _ => s

def step (config : VoiceConfig) (services : Services Audio) (s : System Audio) :
    Action Audio → System Audio
  | .capture input => s.capture config input
  | .deliver => s.deliver
  | .handle => s.handle
  | .turn index input => s.turn services index input
  | .dispatchConversationModeOff index => s.dispatchConversationModeOff index
  | .interrupt => s.interrupt
  | .cancelBackgroundTurns => s.cancelBackgroundTurns

def run (config : VoiceConfig) (services : Services Audio) (mode : ConversationMode)
    (actions : List (Action Audio)) : System Audio :=
  actions.foldl (step config services) (start mode)

end System
end ReframeVoice
