import Reframe.Lib.PyText
import Reframe.Lib.Run

/-! The queue of spoken replies, its worker thread and the Kokoro speaker: what one step of each
thread does to the state they share. -/
namespace ReframeSpeech
open PyText (joinWords splitWords)

/-- `" ".join(text.split())`. -/
def clean (text : String) : String := String.ofList (joinWords (splitWords text.toList))

/-- A submitted reply, numbered in the order of submission. -/
structure Job where
  id : ℕ
  text : String
  deriving DecidableEq

/-- Nothing is left to speak. -/
def Job.Blank (job : Job) : Prop := clean job.text = ""

instance (job : Job) : Decidable job.Blank := inferInstanceAs (Decidable (_ = _))

/-- How a reply ended; an interruption ends it through one of the interrupting calls. -/
inductive Outcome (ι : Type) where
  | enqueued
  | interrupted (call : ι)
  | discarded (call : ι)
  /-- An exception of the synthesis or of the audio device. -/
  | failed
  deriving DecidableEq

/-- Where the worker is in `_run` and in `KokoroOnnxSpeaker.speak`. -/
inductive Worker (ι : Type) where
  /-- Before `self._jobs.get()`. -/
  | waiting
  | taken (job : Job)
  /-- The playback is current; the output is not set up yet. -/
  | begun (job : Job)
  /-- Before the first check of a turn of the loop, or behind the loop. -/
  | checking (job : Job) (rest : List String)
  | starting (job : Job) (chunk : String) (rest : List String)
  /-- The synthesis is running; the second check follows. -/
  | synthesizing (job : Job) (chunk : String) (rest : List String)
  | producing (job : Job) (chunk : String) (rest : List String)
  | draining (job : Job)
  /-- Before `_finish_playback`. -/
  | finishing (job : Job) (outcome : Outcome ι)
  deriving DecidableEq

namespace Worker

variable {ι : Type}

def job? : Worker ι → Option Job
  | .waiting => none
  | .taken job | .begun job | .checking job _ | .starting job _ _ | .synthesizing job _ _ |
    .producing job _ _ | .draining job | .finishing job _ => some job

/-- The job, inside the `try` of `speak`. -/
def speaking? : Worker ι → Option Job
  | .begun job | .checking job _ | .starting job _ _ | .synthesizing job _ _ |
    .producing job _ _ | .draining job => some job
  | _ => none

/-- The job, between `self._jobs.get()` and `_begin_playback`. -/
def taken? : Worker ι → Option Job
  | .taken job => some job
  | _ => none

/-- The check has passed, and what it allows has not happened yet. -/
def Committed : Worker ι → Prop
  | .starting .. | .producing .. => True
  | _ => False

instance : (worker : Worker ι) → Decidable worker.Committed
  | .starting .. | .producing .. => .isTrue trivial
  | .waiting | .taken _ | .begun _ | .checking .. | .synthesizing .. | .draining _ |
    .finishing .. => .isFalse id

end Worker

/-- Where a call of `interrupt` is; `since` is how many replies had been submitted when it began. -/
inductive Call where
  | ready
  /-- The playback is marked; the output is not cleared yet. -/
  | clearing (since : ℕ)
  /-- In the loop of `_clear_pending`. -/
  | emptying (since : ℕ)
  | returned (since : ℕ)
  deriving DecidableEq

namespace Call

def since? : Call → Option ℕ
  | .ready => none
  | .clearing since | .emptying since | .returned since => some since

/-- The call has begun and has not returned. -/
def underWay? : Call → Option ℕ
  | .clearing since | .emptying since => some since
  | _ => none

end Call

inductive Event (ι : Type) where
  | submitted (job : Job)
  | began (call : ι)
  | returned (call : ι)
  /-- `create` is called for a chunk. -/
  | synthesis (job : Job) (chunk : String)
  /-- The samples of a chunk are enqueued, or played where there is no output queue. -/
  | audio (job : Job) (chunk : String)
  | ended (job : Job) (outcome : Outcome ι)
  deriving DecidableEq

structure State (ι : Type) where
  jobs : List Job
  worker : Worker ι
  /-- The interrupting call of the current playback, if there is one. Only the worker makes a
  playback current, so it is the playback whose flag the worker checks. -/
  playback : Option (Option ι)
  output : Option (List String)
  outputFailed : Bool
  calls : ι → Call
  submissions : ℕ
  /-- What has happened so far. -/
  log : List (Event ι)

namespace State

def start (ι : Type) : State ι where
  jobs := []
  worker := .waiting
  playback := none
  output := none
  outputFailed := false
  calls := fun _ => .ready
  submissions := 0
  log := []

variable {ι : Type}

/-- The call that has interrupted the current playback. -/
def interruptedBy? (s : State ι) : Option ι := s.playback.bind id

def record (s : State ι) (e : Event ι) : State ι := { s with log := s.log ++ [e] }

end State

/-- What the speech engine and the audio device do in a step of the worker. -/
structure Environment where
  /-- The step raises an exception, inside the `try` of `speak`. -/
  raises : Bool
  /-- The output stream can be started. -/
  starts : Bool
  /-- The samples have the rate of the output queue. -/
  queued : Bool
  deriving DecidableEq

inductive Action (ι : Type) where
  /-- `speak`: the job is put into the queue. -/
  | submit (text : String)
  | interrupt (call : ι)
  | work (environment : Environment)
  /-- The audio callback has played the first chunk of the output. -/
  | play
  deriving DecidableEq

section Steps

variable {ι : Type} [DecidableEq ι] (speechChunks : String → List String)

/-- `_audio_output` and what `speak` does with it. -/
def setUpOutput (s : State ι) (environment : Environment) : State ι :=
  if s.outputFailed then s
  else if environment.starts then { s with output := some [] }
  else { s with output := none, outputFailed := true }

/-- A step of the worker without an exception. A worker that has to wait stays where it is. -/
def advance (s : State ι) (environment : Environment) : State ι :=
  match s.worker with
  | .waiting => match s.jobs with
    | [] => s
    | job :: jobs => { s with jobs, worker := .taken job }
  | .taken job =>
    if clean job.text = "" then { s.record (.ended job .enqueued) with worker := .waiting }
    else { s with worker := .begun job, playback := some none }
  | .begun job => { setUpOutput s environment with
      worker := .checking job (speechChunks (clean job.text)) }
  | .checking job [] => { s with worker := .draining job }
  | .checking job (chunk :: rest) => match s.interruptedBy? with
    | some call => { s with worker := .finishing job (.interrupted call) }
    | none => { s with worker := .starting job chunk rest }
  | .starting job chunk rest =>
    { s.record (.synthesis job chunk) with worker := .synthesizing job chunk rest }
  | .synthesizing job chunk rest => match s.interruptedBy? with
    | some call => { s with worker := .finishing job (.interrupted call) }
    | none => { s with worker := .producing job chunk rest }
  | .producing job chunk rest => { s.record (.audio job chunk) with
      worker := .checking job rest
      output := if environment.queued then s.output.map (· ++ [chunk]) else s.output }
  | .draining job =>
    if s.output.getD [] ≠ [] then s
    else match s.interruptedBy? with
      | some call => { s with worker := .finishing job (.interrupted call) }
      | none => { s with worker := .finishing job .enqueued }
  | .finishing job outcome =>
    { s.record (.ended job outcome) with worker := .waiting, playback := none }

/-- A step of the worker. -/
def work (s : State ι) (environment : Environment) : State ι :=
  match environment.raises, s.worker.speaking? with
  | true, some job => { s with worker := .finishing job .failed }
  | _, _ => advance speechChunks s environment

/-- A step of a call of `interrupt`. -/
def interrupt (s : State ι) (call : ι) : State ι :=
  match s.calls call with
  | .ready => match s.playback with
    | some none => { s.record (.began call) with
        playback := some (some call)
        calls := Function.update s.calls call (.clearing s.submissions) }
    | _ => { s.record (.began call) with
        calls := Function.update s.calls call (.emptying s.submissions) }
  | .clearing since => { s with
      output := s.output.map fun _ => []
      calls := Function.update s.calls call (.emptying since) }
  | .emptying since => match s.jobs with
    | [] => { s.record (.returned call) with
        calls := Function.update s.calls call (.returned since) }
    | job :: jobs => { s.record (.ended job (.discarded call)) with jobs }
  | .returned _ => s

def submit (s : State ι) (text : String) : State ι :=
  { s.record (.submitted ⟨s.submissions, text⟩) with
    jobs := s.jobs ++ [⟨s.submissions, text⟩]
    submissions := s.submissions + 1 }

def step (s : State ι) : Action ι → State ι
  | .submit text => submit s text
  | .interrupt call => interrupt s call
  | .work environment => work speechChunks s environment
  | .play => { s with output := s.output.map List.tail }

def run (s : State ι) (actions : List (Action ι)) : State ι := actions.foldl (step speechChunks) s

end Steps
end ReframeSpeech
