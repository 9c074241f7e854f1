import Mathlib.Data.List.DropRight
import Reframe.Lib.Rechunk

/-! The segmenter of the voice capture: chunks go to a detector, a pre-roll is kept until speech
starts, and utterances end with an endpoint that is resumed or confirmed. Frames of any size are
compared with the same stream chunk by chunk. -/
namespace VoiceActivity
open Rechunk

structure VoiceActivityDecision where
  started : Bool := false
  ended : Bool := false
  isSpeech : Bool := false
  deriving DecidableEq

/-- A detector decides on a chunk by what it has been given before. -/
structure VoiceActivityDetector (α δ : Type) where
  accept : δ → List α → VoiceActivityDecision × δ

/-- What the segmenter computes from its configuration. The comparisons of durations are made in
floating point; they are functions of a duration, and a duration is one of a number of samples. -/
structure SegmenterConfig (ρ : Type) where
  sampleRate : ℕ
  chunkSamples : ℕ
  chunkSamples_pos : 0 < chunkSamples
  preRollChunks : ℕ
  preRollChunks_pos : 0 < preRollChunks
  finalSilenceSamples : ℕ
  seconds : ℕ → ρ
  reachesMaximum : ρ → Bool
  belowMinimum : ρ → Bool

structure DetectedUtterance (α ρ : Type) where
  samples : List α
  sampleRate : ℕ
  durationSeconds : ρ
  forcedEnd : Bool
  deriving DecidableEq

inductive UtteranceEvent (α ρ : Type) where
  | endpoint (utterance : DetectedUtterance α ρ)
  | resumed
  | confirmed (utterance : Option (DetectedUtterance α ρ))
  deriving DecidableEq

structure UtteranceSegmenter (α δ ρ : Type) where
  detector : δ
  preRoll : List (List α) := []
  pending : List α := []
  frames : List (List α) := []
  pendingEndSamples : Option ℕ := none
  pendingEndpoint : Option (DetectedUtterance α ρ) := none
  recordingSamples : ℕ := 0
  recording : Bool := false

namespace UtteranceSegmenter

variable {α δ ρ : Type} (config : SegmenterConfig ρ) (detector : VoiceActivityDetector α δ)

def reset (s : UtteranceSegmenter α δ ρ) : UtteranceSegmenter α δ ρ :=
  { s with
    pending := []
    frames := []
    pendingEndSamples := none
    pendingEndpoint := none
    recordingSamples := 0
    recording := false
    preRoll := [] }

def buildUtterance (s : UtteranceSegmenter α δ ρ) (forcedEnd : Bool) :
    Option (DetectedUtterance α ρ) :=
  let samples := s.frames.flatten
  let durationSeconds := config.seconds samples.length
  if config.belowMinimum durationSeconds then none
  else some ⟨samples, config.sampleRate, durationSeconds, forcedEnd⟩

def endpointEvent (s : UtteranceSegmenter α δ ρ) (forcedEnd reset : Bool) :
    Option (UtteranceEvent α ρ) × UtteranceSegmenter α δ ρ :=
  match s.buildUtterance config forcedEnd with
  | none => (none, s.reset)
  | some utterance => (some (.endpoint utterance),
      if reset then s.reset else { s with pendingEndpoint := some utterance })

def acceptBeforeStart (s : UtteranceSegmenter α δ ρ) (frame : List α) : UtteranceSegmenter α δ ρ :=
  let preRoll := (s.preRoll ++ [frame]).rtake config.preRollChunks
  let decision := detector.accept s.detector frame
  let s := { s with preRoll, detector := decision.2 }
  if decision.1.started then
    { s with
      recording := true
      frames := preRoll
      recordingSamples := (preRoll.map List.length).sum }
  else s

/-- The chunk is recorded and given to the detector. -/
def record (s : UtteranceSegmenter α δ ρ) (frame : List α) : UtteranceSegmenter α δ ρ :=
  { s with
    frames := s.frames ++ [frame]
    recordingSamples := s.recordingSamples + frame.length
    detector := (detector.accept s.detector frame).2 }

def acceptAfterStart (s : UtteranceSegmenter α δ ρ) (frame : List α) :
    Option (UtteranceEvent α ρ) × UtteranceSegmenter α δ ρ :=
  let decision := (detector.accept s.detector frame).1
  let s := s.record detector frame
  let forcedEnd := config.reachesMaximum (config.seconds s.recordingSamples)
  if forcedEnd then s.endpointEvent config forcedEnd true
  else if decision.started || decision.isSpeech then
    (if s.pendingEndSamples.isSome then some .resumed else none,
      { s with pendingEndSamples := none, pendingEndpoint := none })
  else if decision.ended then
    { s with pendingEndSamples := some 0 }.endpointEvent config forcedEnd
      (decide (config.finalSilenceSamples ≤ 0))
  else match s.pendingEndSamples with
    | none => (none, s)
    | some samples =>
      let s := { s with pendingEndSamples := some (samples + frame.length) }
      if samples + frame.length < config.finalSilenceSamples then (none, s)
      else (some (.confirmed s.pendingEndpoint), s.reset)

def acceptChunk (s : UtteranceSegmenter α δ ρ) (frame : List α) :
    Option (UtteranceEvent α ρ) × UtteranceSegmenter α δ ρ :=
  if !s.recording then (none, s.acceptBeforeStart config detector frame)
  else s.acceptAfterStart config detector frame

def withPending (s : UtteranceSegmenter α δ ρ) (pending : List α) : UtteranceSegmenter α δ ρ :=
  { s with pending }

/-- The loop of `accept_event`, which takes a chunk from the buffer in each round. -/
def acceptLoop : ℕ → UtteranceSegmenter α δ ρ →
    Option (UtteranceEvent α ρ) × UtteranceSegmenter α δ ρ
  | 0, s => (none, s)
  | rounds + 1, s =>
    if config.chunkSamples ≤ s.pending.length then
      let chunk := s.pending.take config.chunkSamples
      let s := s.withPending (s.pending.drop config.chunkSamples)
      match s.acceptChunk config detector chunk with
      | (some event, s) => (some event, s)
      | (none, s) => acceptLoop rounds s
    else (none, s)

def acceptEvent (s : UtteranceSegmenter α δ ρ) (frame : List α) :
    Option (UtteranceEvent α ρ) × UtteranceSegmenter α δ ρ :=
  if frame.length = 0 then (none, s)
  else
    let pending := s.pending ++ frame
    acceptLoop config detector pending.length (s.withPending pending)

/-- The events of a list of frames, and the segmenter behind them. -/
def run (s : UtteranceSegmenter α δ ρ) (frames : List (List α)) :
    List (UtteranceEvent α ρ) × UtteranceSegmenter α δ ρ :=
  feed (acceptEvent config detector) s frames

/-- Whether a chunk resets the segmenter: a forced end, an end that is too short or has no silence
to wait for, or enough silence behind an end. -/
def resets (s : UtteranceSegmenter α δ ρ) (frame : List α) : Bool :=
  let decision := (detector.accept s.detector frame).1
  s.recording &&
    if config.reachesMaximum (config.seconds (s.recordingSamples + frame.length)) then true
    else if decision.started || decision.isSpeech then false
    else if decision.ended then config.finalSilenceSamples ≤ 0 ||
      config.belowMinimum (config.seconds (s.frames ++ [frame]).flatten.length)
    else match s.pendingEndSamples with
      | none => false
      | some samples => config.finalSilenceSamples ≤ samples + frame.length

@[simp] theorem pending_withPending (s : UtteranceSegmenter α δ ρ) (pending : List α) :
    (s.withPending pending).pending = pending := rfl

theorem recording_withPending (s : UtteranceSegmenter α δ ρ) (pending : List α) :
    (s.withPending pending).recording = s.recording := rfl

@[simp] theorem withPending_withPending (s : UtteranceSegmenter α δ ρ) (pending pending' : List α) :
    (s.withPending pending).withPending pending' = s.withPending pending' := rfl

@[simp] theorem withPending_self (s : UtteranceSegmenter α δ ρ) : s.withPending s.pending = s := rfl

/-- The segmenter as a machine that takes chunks from a buffer. -/
def machine : Machine α (UtteranceSegmenter α δ ρ) (UtteranceEvent α ρ) where
  size := config.chunkSamples
  size_pos := config.chunkSamples_pos
  step s chunk := s.acceptChunk config detector chunk
  drops s chunk := s.resets config detector chunk

variable {config} {detector}

theorem endpointEvent_withPending (s : UtteranceSegmenter α δ ρ) (forcedEnd reset : Bool)
    (pending : List α) :
    (s.withPending pending).endpointEvent config forcedEnd reset =
      ((s.endpointEvent config forcedEnd reset).1,
        (s.endpointEvent config forcedEnd reset).2.withPending
          (if reset || config.belowMinimum (config.seconds s.frames.flatten.length) then []
            else pending)) := by
  have hbuild : (s.withPending pending).buildUtterance config forcedEnd =
      s.buildUtterance config forcedEnd := rfl
  rw [endpointEvent, endpointEvent, hbuild, buildUtterance]
  cases config.belowMinimum (config.seconds s.frames.flatten.length) <;> cases reset <;> rfl

theorem acceptBeforeStart_withPending (s : UtteranceSegmenter α δ ρ) (frame pending : List α) :
    (s.withPending pending).acceptBeforeStart config detector frame =
      (s.acceptBeforeStart config detector frame).withPending pending := by
  unfold acceptBeforeStart withPending
  dsimp only
  cases (detector.accept s.detector frame).1.started <;> rfl

/-! What a chunk of a recording does. -/

section Recording

variable {s : UtteranceSegmenter α δ ρ} {frame : List α}

theorem acceptAfterStart_forced
    (hforced : config.reachesMaximum (config.seconds (s.recordingSamples + frame.length)) = true) :
    s.acceptAfterStart config detector frame =
      (s.record detector frame).endpointEvent config true true := by
  have hforced' : config.reachesMaximum
      (config.seconds (s.record detector frame).recordingSamples) = true := hforced
  simp only [acceptAfterStart, hforced', if_true]

variable
  (hforced : config.reachesMaximum (config.seconds (s.recordingSamples + frame.length)) = false)

include hforced

theorem acceptAfterStart_speech (hspeech : ((detector.accept s.detector frame).1.started ||
      (detector.accept s.detector frame).1.isSpeech) = true) :
    s.acceptAfterStart config detector frame =
      (if s.pendingEndSamples.isSome then some .resumed else none, { s.record detector frame with
        pendingEndSamples := none
        pendingEndpoint := none }) := by
  have hforced' : config.reachesMaximum
      (config.seconds (s.record detector frame).recordingSamples) = false := hforced
  simp only [acceptAfterStart, hforced', hspeech, if_true, Bool.false_eq_true, if_false]
  rfl

variable (hsilent : ((detector.accept s.detector frame).1.started ||
  (detector.accept s.detector frame).1.isSpeech) = false)

include hsilent

theorem acceptAfterStart_ended (hended : (detector.accept s.detector frame).1.ended = true) :
    s.acceptAfterStart config detector frame =
      { s.record detector frame with pendingEndSamples := some 0 }.endpointEvent config false
        (decide (config.finalSilenceSamples ≤ 0)) := by
  have hforced' : config.reachesMaximum
      (config.seconds (s.record detector frame).recordingSamples) = false := hforced
  simp only [acceptAfterStart, hforced', hsilent, hended, if_true, Bool.false_eq_true, if_false]

variable (hlasting : (detector.accept s.detector frame).1.ended = false)

include hlasting

theorem acceptAfterStart_lasting (hsilence : s.pendingEndSamples = none) :
    s.acceptAfterStart config detector frame = (none, s.record detector frame) := by
  have hforced' : config.reachesMaximum
      (config.seconds (s.record detector frame).recordingSamples) = false := hforced
  have hsilence' : (s.record detector frame).pendingEndSamples = none := hsilence
  simp only [acceptAfterStart, hforced', hsilent, hlasting, hsilence', Bool.false_eq_true, if_false]

theorem acceptAfterStart_waiting {samples : ℕ} (hsilence : s.pendingEndSamples = some samples)
    (hwaits : samples + frame.length < config.finalSilenceSamples) :
    s.acceptAfterStart config detector frame =
      (none, { s.record detector frame with
        pendingEndSamples := some (samples + frame.length) }) := by
  have hforced' : config.reachesMaximum
      (config.seconds (s.record detector frame).recordingSamples) = false := hforced
  have hsilence' : (s.record detector frame).pendingEndSamples = some samples := hsilence
  simp only [acceptAfterStart, hforced', hsilent, hlasting, hsilence', hwaits, Bool.false_eq_true,
    if_false, if_true]

theorem acceptAfterStart_confirmed {samples : ℕ} (hsilence : s.pendingEndSamples = some samples)
    (hends : ¬ samples + frame.length < config.finalSilenceSamples) :
    s.acceptAfterStart config detector frame =
      (some (.confirmed s.pendingEndpoint), (s.record detector frame).reset) := by
  have hforced' : config.reachesMaximum
      (config.seconds (s.record detector frame).recordingSamples) = false := hforced
  have hsilence' : (s.record detector frame).pendingEndSamples = some samples := hsilence
  simp only [acceptAfterStart, hforced', hsilent, hlasting, hsilence', hends, Bool.false_eq_true,
    if_false]
  rfl

end Recording

variable (config detector) in
/-- A chunk does the same whatever is buffered, which it keeps unless it resets the segmenter. -/
theorem acceptChunk_withPending (s : UtteranceSegmenter α δ ρ) (frame pending : List α) :
    (s.withPending pending).acceptChunk config detector frame =
      ((s.acceptChunk config detector frame).1,
        (s.acceptChunk config detector frame).2.withPending
          (if s.resets config detector frame then [] else pending)) := by
  cases hrecording : s.recording with
  | false =>
    simp [acceptChunk, resets, acceptBeforeStart_withPending, recording_withPending, hrecording]
  | true =>
    have hwith : (s.withPending pending).acceptChunk config detector frame =
        (s.withPending pending).acceptAfterStart config detector frame := by
      simp [acceptChunk, recording_withPending, hrecording]
    rw [hwith, acceptChunk, resets]
    simp only [hrecording, Bool.not_true, Bool.false_eq_true, if_false,
      Bool.true_and]
    cases hforced : config.reachesMaximum (config.seconds (s.recordingSamples + frame.length)) with
    | true =>
      rw [show (s.withPending pending).acceptAfterStart config detector frame = _ from
          acceptAfterStart_forced hforced, acceptAfterStart_forced hforced]
      exact endpointEvent_withPending (s.record detector frame) true true pending
    | false =>
      cases hspeech : (detector.accept s.detector frame).1.started ||
          (detector.accept s.detector frame).1.isSpeech with
      | true =>
        rw [show (s.withPending pending).acceptAfterStart config detector frame = _ from
            acceptAfterStart_speech hforced hspeech, acceptAfterStart_speech hforced hspeech]
        rfl
      | false =>
        cases hended : (detector.accept s.detector frame).1.ended with
        | true =>
          rw [show (s.withPending pending).acceptAfterStart config detector frame = _ from
              acceptAfterStart_ended hforced hspeech hended,
            acceptAfterStart_ended hforced hspeech hended]
          exact endpointEvent_withPending
            { s.record detector frame with pendingEndSamples := some 0 } false
            (decide (config.finalSilenceSamples ≤ 0)) pending
        | false =>
          cases hsilence : s.pendingEndSamples with
          | none =>
            rw [show (s.withPending pending).acceptAfterStart config detector frame = _ from
                acceptAfterStart_lasting hforced hspeech hended hsilence,
              acceptAfterStart_lasting hforced hspeech hended hsilence]
            rfl
          | some samples =>
            by_cases hwaits : samples + frame.length < config.finalSilenceSamples
            · have hle : ¬ config.finalSilenceSamples ≤ samples + frame.length := not_le.mpr hwaits
              rw [acceptAfterStart_waiting (s := s.withPending pending) hforced hspeech hended
                  hsilence hwaits,
                acceptAfterStart_waiting hforced hspeech hended hsilence hwaits]
              simp only [hle, decide_false, Bool.false_eq_true, if_false]
              rfl
            · have hle : config.finalSilenceSamples ≤ samples + frame.length := not_lt.mp hwaits
              rw [acceptAfterStart_confirmed (s := s.withPending pending) hforced hspeech hended
                  hsilence hwaits,
                acceptAfterStart_confirmed hforced hspeech hended hsilence hwaits]
              simp only [hle, decide_true, Bool.false_eq_true, if_false, if_true]
              rfl

theorem acceptLoop_eq (rounds : ℕ) (s : UtteranceSegmenter α δ ρ) (pending : List α) :
    acceptLoop config detector rounds (s.withPending pending) =
      (((machine config detector).loop rounds (s, pending)).1,
        ((machine config detector).loop rounds (s, pending)).2.1.withPending
          ((machine config detector).loop rounds (s, pending)).2.2) := by
  induction rounds generalizing s pending with
  | zero => rfl
  | succ rounds ih =>
    have hsize : (machine config detector).size = config.chunkSamples := rfl
    by_cases hle : config.chunkSamples ≤ pending.length
    · have hstep : ∀ chunk, (machine config detector).step s chunk =
          s.acceptChunk config detector chunk := fun _ => rfl
      have hrest : (machine config detector).rest s pending =
          if s.resets config detector (pending.take config.chunkSamples) then []
            else pending.drop config.chunkSamples := rfl
      rw [acceptLoop, Machine.loop, hsize, if_pos hle, pending_withPending, if_pos hle]
      dsimp only
      rw [withPending_withPending, acceptChunk_withPending, hstep, ← hrest]
      rcases s.acceptChunk config detector (pending.take config.chunkSamples) with ⟨_ | event, s'⟩
      · exact ih s' _
      · rfl
    · rw [acceptLoop, Machine.loop, pending_withPending, hsize, if_neg hle, if_neg hle]

variable (config detector) in
theorem acceptEvent_eq (s : UtteranceSegmenter α δ ρ × List α) (frame : List α) :
    (s.1.withPending s.2).acceptEvent config detector frame =
      (((machine config detector).accept s frame).1,
        ((machine config detector).accept s frame).2.1.withPending
          ((machine config detector).accept s frame).2.2) := by
  rw [acceptEvent, Machine.accept]
  by_cases hframe : frame = []
  · simp [hframe]
  · rw [if_neg (by simpa using hframe), if_neg hframe]
    exact acceptLoop_eq _ s.1 _

/-- The rounds suffice: without an event, less than a chunk is left. -/
theorem acceptEvent_done (s : UtteranceSegmenter α δ ρ) {frame : List α} (hframe : frame ≠ [])
    (hnone : (s.acceptEvent config detector frame).1 = none) :
    (s.acceptEvent config detector frame).2.pending.length < config.chunkSamples := by
  rw [← withPending_self s, acceptEvent_eq config detector (s, s.pending), Machine.accept,
    if_neg hframe] at hnone ⊢
  exact Machine.loop_done _ _ le_rfl hnone

variable (config detector) in
theorem run_eq (s : UtteranceSegmenter α δ ρ) (pending : List α) (frames : List (List α)) :
    (s.withPending pending).run config detector frames =
      ((feed (machine config detector).accept (s, pending) frames).1,
        (feed (machine config detector).accept (s, pending) frames).2.1.withPending
          (feed (machine config detector).accept (s, pending) frames).2.2) :=
  feed_simulates (f := fun s : UtteranceSegmenter α δ ρ × List α => s.1.withPending s.2)
    (acceptEvent_eq config detector) (s, pending) frames

/-- A call never resets the segmenter while samples are buffered behind the chunk that does. -/
def KeepsBuffer (config : SegmenterConfig ρ) (detector : VoiceActivityDetector α δ)
    (s : UtteranceSegmenter α δ ρ) (frames : List (List α)) : Prop :=
  (machine config detector).Keeps (s, s.pending) frames

/-- The events of frames of any size are those of the chunks of the stream, but for those of the
chunks that are still buffered. -/
theorem run_reframed (s : UtteranceSegmenter α δ ρ) (hpending : s.pending = [])
    {frames : List (List α)} (h : s.KeepsBuffer config detector frames) :
    (s.run config detector (chunks config.chunkSamples frames.flatten)).1 =
      (s.run config detector frames).1 ++
        (((s.run config detector frames).2.withPending []).run config detector
          (chunks config.chunkSamples (s.run config detector frames).2.pending)).1 := by
  have hself : s.withPending [] = s := by rw [← hpending, withPending_self]
  have hrun := run_eq config detector s []
  rw [KeepsBuffer, hpending] at h
  rw [hself] at hrun
  rw [hrun, hrun, withPending_withPending, run_eq, pending_withPending]
  exact Machine.feed_reframed s frames h

/-! Utterances of a stream that comes chunk by chunk. -/

/-- The segmenter behind some chunks. -/
def after (config : SegmenterConfig ρ) (detector : VoiceActivityDetector α δ)
    (s : UtteranceSegmenter α δ ρ) (cs : List (List α)) : UtteranceSegmenter α δ ρ :=
  (s.run config detector cs).2

/-- Recording starts with the last chunk of a pre-roll, which is as long as configured or holds all
chunks since the segmenter was made or reset. -/
structure Opens (config : SegmenterConfig ρ) (detector : VoiceActivityDetector α δ)
    (s : UtteranceSegmenter α δ ρ) (before preRoll : List (List α)) : Prop where
  quiet : (s.after config detector (before ++ preRoll.dropLast)).recording = false
  started : (s.after config detector (before ++ preRoll)).recording = true
  length_le : preRoll.length ≤ config.preRollChunks
  full : preRoll.length = config.preRollChunks ∨ (s.after config detector before).preRoll = []

/-- An utterance is what comes from a pre-roll on, without a gap. -/
def SlicedFrom (config : SegmenterConfig ρ) (detector : VoiceActivityDetector α δ)
    (s : UtteranceSegmenter α δ ρ) (cs : List (List α)) (utterance : DetectedUtterance α ρ) :
    Prop :=
  ∃ before preRoll later, before ++ preRoll ++ later <+: cs ∧
    utterance.samples = (preRoll ++ later).flatten ∧ s.Opens config detector before preRoll

/-- A confirmation follows its endpoint. -/
def ConfirmsLatest (events : List (UtteranceEvent α ρ)) : Prop :=
  ∀ first utterance last, events = first ++ .confirmed utterance :: last →
    ∃ earlier latest, first = earlier ++ [.endpoint latest] ∧ utterance = some latest

/-- What the segmenter holds behind chunks `cs` that gave `events`. -/
structure Tracks (config : SegmenterConfig ρ) (detector : VoiceActivityDetector α δ)
    (s₀ : UtteranceSegmenter α δ ρ) (cs : List (List α)) (events : List (UtteranceEvent α ρ))
    (s : UtteranceSegmenter α δ ρ) : Prop where
  quiet : s.recording = false → s.pendingEndSamples = none ∧ ∃ before, cs = before ++ s.preRoll ∧
    s.preRoll.length ≤ config.preRollChunks ∧
      (s.preRoll.length = config.preRollChunks ∨ (s₀.after config detector before).preRoll = [])
  recorded : s.recording = true → ∃ before later, cs = before ++ s.preRoll ++ later ∧
    s.frames = s.preRoll ++ later ∧ s₀.Opens config detector before s.preRoll
  ended : s.pendingEndSamples ≠ none →
    ∃ earlier latest, events = earlier ++ [.endpoint latest] ∧ s.pendingEndpoint = some latest
  sliced : ∀ utterance, .endpoint utterance ∈ events → s₀.SlicedFrom config detector cs utterance
  confirms : ConfirmsLatest events

theorem SlicedFrom.mono {s : UtteranceSegmenter α δ ρ} {cs cs' : List (List α)}
    {utterance : DetectedUtterance α ρ} (h : s.SlicedFrom config detector cs utterance)
    (hcs : cs <+: cs') : s.SlicedFrom config detector cs' utterance := by
  obtain ⟨before, preRoll, later, hstarts, hsamples, hopens⟩ := h
  exact ⟨before, preRoll, later, hstarts.trans hcs, hsamples, hopens⟩

theorem ConfirmsLatest.concat {events : List (UtteranceEvent α ρ)} (h : ConfirmsLatest events)
    {event : UtteranceEvent α ρ} (hevent : ∀ utterance, event = .confirmed utterance →
      ∃ earlier latest, events = earlier ++ [.endpoint latest] ∧ utterance = some latest) :
    ConfirmsLatest (events ++ [event]) := by
  intro first utterance last heq
  rcases List.eq_nil_or_concat last with rfl | ⟨last, final, rfl⟩
  · obtain ⟨rfl, hlast⟩ := List.append_inj' heq rfl
    exact hevent utterance (by simpa using hlast)
  · rw [List.concat_eq_append, ← List.cons_append, ← List.append_assoc] at heq
    exact h first utterance last (List.append_inj' heq rfl).1

section Chunk

variable {s₀ s : UtteranceSegmenter α δ ρ} {cs : List (List α)} {chunk : List α}
  {events : List (UtteranceEvent α ρ)}

/-- What holds behind one more chunk that resets the segmenter. -/
theorem Tracks.reset {event : Option (UtteranceEvent α ρ)} {s' : UtteranceSegmenter α δ ρ}
    (h : Tracks config detector s₀ cs events s)
    (hafter : s₀.after config detector (cs ++ [chunk]) = s'.reset)
    (hsliced : ∀ utterance, event = some (.endpoint utterance) →
      s₀.SlicedFrom config detector (cs ++ [chunk]) utterance)
    (hconfirmed : ∀ utterance, event = some (.confirmed utterance) →
      ∃ earlier latest, events = earlier ++ [.endpoint latest] ∧ utterance = some latest) :
    Tracks config detector s₀ (cs ++ [chunk]) (events ++ event.toList) s'.reset where
  quiet _ := ⟨rfl, cs ++ [chunk], (List.append_nil _).symm, Nat.zero_le _,
    .inr (by rw [hafter]; rfl)⟩
  recorded hrecording := nomatch hrecording
  ended hended := (hended rfl).elim
  sliced utterance hmem := by
    rw [List.mem_append, Option.mem_toList] at hmem
    rcases hmem with hmem | hmem
    · exact (h.sliced utterance hmem).mono (List.prefix_append _ _)
    · exact hsliced utterance hmem
  confirms := by
    cases event with
    | none => simpa using h.confirms
    | some event => exact h.confirms.concat fun utterance heq => hconfirmed utterance (by rw [heq])

/-- What holds behind one more chunk that is recorded. -/
theorem Tracks.lasts {event : Option (UtteranceEvent α ρ)} {s' : UtteranceSegmenter α δ ρ}
    (h : Tracks config detector s₀ cs events s) (hrecording : s.recording = true)
    (hrecording' : s'.recording = true) (hpreRoll : s'.preRoll = s.preRoll)
    (hframes : s'.frames = s.frames ++ [chunk])
    (hended : s'.pendingEndSamples ≠ none → ∃ earlier latest,
      events ++ event.toList = earlier ++ [.endpoint latest] ∧ s'.pendingEndpoint = some latest)
    (hsliced : ∀ utterance, event = some (.endpoint utterance) →
      s₀.SlicedFrom config detector (cs ++ [chunk]) utterance)
    (hconfirmed : ∀ utterance, event ≠ some (.confirmed utterance)) :
    Tracks config detector s₀ (cs ++ [chunk]) (events ++ event.toList) s' where
  quiet hquiet := by simp [hrecording'] at hquiet
  recorded _ := by
    obtain ⟨before, later, hcs, hbefore, hopens⟩ := h.recorded hrecording
    refine ⟨before, later ++ [chunk], ?_, ?_, hpreRoll ▸ hopens⟩
    · simp [hpreRoll, hcs]
    · simp [hframes, hpreRoll, hbefore]
  ended := hended
  sliced utterance hmem := by
    rw [List.mem_append, Option.mem_toList] at hmem
    rcases hmem with hmem | hmem
    · exact (h.sliced utterance hmem).mono (List.prefix_append _ _)
    · exact hsliced utterance hmem
  confirms := by
    cases event with
    | none => simpa using h.confirms
    | some event =>
      exact h.confirms.concat fun utterance heq => (hconfirmed utterance (by rw [heq])).elim

/-- What is recorded comes from the pre-roll on. -/
theorem Tracks.slicedFrom (h : Tracks config detector s₀ cs events s)
    (hrecording : s.recording = true) {utterance : DetectedUtterance α ρ}
    (hsamples : utterance.samples = (s.frames ++ [chunk]).flatten) :
    s₀.SlicedFrom config detector (cs ++ [chunk]) utterance := by
  obtain ⟨before, later, hcs, hframes, hopens⟩ := h.recorded hrecording
  refine ⟨before, s.preRoll, later ++ [chunk], ?_, ?_, hopens⟩
  · simp [hcs]
  · rw [hsamples, hframes, List.append_assoc]

/-- The pre-roll grows until it is full; then its first chunk goes. -/
theorem rtake_concat {β : Type} (xs : List β) (x : β) {n : ℕ} (hle : xs.length ≤ n) :
    (xs.length < n ∧ (xs ++ [x]).rtake n = xs ++ [x]) ∨
      (xs.length = n ∧ (xs ++ [x]).rtake n = (xs ++ [x]).tail) := by
  rcases hle.lt_or_eq with hlt | heq
  · refine .inl ⟨hlt, ?_⟩
    rw [List.rtake, List.length_append, List.length_singleton, Nat.sub_eq_zero_of_le hlt,
      List.drop_zero]
  · refine .inr ⟨heq, ?_⟩
    rw [List.rtake, List.length_append, List.length_singleton, heq, Nat.add_sub_cancel_left,
      List.drop_one]

/-- The pre-roll behind one more chunk, as a part of the chunks. -/
theorem Tracks.preRoll (h : Tracks config detector s₀ cs events s)
    (hrecording : s.recording = false) (chunk : List α) :
    ∃ before, cs ++ [chunk] = before ++ (s.preRoll ++ [chunk]).rtake config.preRollChunks ∧
      before ++ ((s.preRoll ++ [chunk]).rtake config.preRollChunks).dropLast = cs ∧
        ((s.preRoll ++ [chunk]).rtake config.preRollChunks).length ≤ config.preRollChunks ∧
          (((s.preRoll ++ [chunk]).rtake config.preRollChunks).length = config.preRollChunks ∨
            (s₀.after config detector before).preRoll = []) := by
  obtain ⟨-, before, hcs, hle, hfull⟩ := h.quiet hrecording
  have hpos := config.preRollChunks_pos
  rcases rtake_concat s.preRoll chunk hle with ⟨hlt, heq⟩ | ⟨hlength, heq⟩
  · rw [heq]
    refine ⟨before, ?_, ?_, ?_, .inr (hfull.resolve_left hlt.ne)⟩
    · simp [hcs]
    · simp [hcs]
    · simpa using hlt
  · rw [heq]
    obtain ⟨first, rest, hpreRoll⟩ := List.exists_cons_of_length_pos (hlength ▸ hpos)
    rw [hpreRoll] at hlength hcs ⊢
    refine ⟨before ++ [first], ?_, ?_, ?_, .inl ?_⟩
    · simp [hcs]
    · simp [hcs]
    · simpa using hlength.le
    · simpa using hlength

/-- What holds behind one more chunk before speech starts. -/
theorem Tracks.beforeStart (h : Tracks config detector s₀ cs events s)
    (hs : s₀.after config detector cs = s) (hrecording : s.recording = false)
    (hafter : s₀.after config detector (cs ++ [chunk]) =
      s.acceptBeforeStart config detector chunk) :
    Tracks config detector s₀ (cs ++ [chunk]) events
      (s.acceptBeforeStart config detector chunk) := by
  obtain ⟨before, hcs, hdropLast, hle, hfull⟩ := h.preRoll hrecording chunk
  have hended : s.pendingEndSamples = none := (h.quiet hrecording).1
  have hsliced : ∀ utterance, .endpoint utterance ∈ events →
      s₀.SlicedFrom config detector (cs ++ [chunk]) utterance :=
    fun utterance hmem => (h.sliced utterance hmem).mono (List.prefix_append _ _)
  have hpreRoll : (s.acceptBeforeStart config detector chunk).preRoll =
      (s.preRoll ++ [chunk]).rtake config.preRollChunks := by
    simp only [acceptBeforeStart]
    split_ifs <;> rfl
  have hsilence : (s.acceptBeforeStart config detector chunk).pendingEndSamples = none := by
    simp only [acceptBeforeStart]
    split_ifs <;> exact hended
  refine ⟨fun _ => ⟨hsilence, before, ?_⟩, fun hstarted => ⟨before, [], ?_, ?_, ?_⟩,
    fun hne => (hne hsilence).elim, hsliced, h.confirms⟩
  · rw [hpreRoll]
    exact ⟨hcs, hle, hfull⟩
  · rw [hpreRoll, List.append_nil, hcs]
  · rw [hpreRoll, List.append_nil]
    revert hstarted
    simp only [acceptBeforeStart]
    split_ifs
    · exact fun _ => rfl
    · exact fun hstarted => absurd (hrecording.symm.trans hstarted) Bool.false_ne_true
  · rw [hpreRoll]
    exact ⟨by rw [hdropLast, hs, hrecording], by rw [← hcs, hafter, hstarted], hle, hfull⟩

variable (config) in
theorem endpointEvent_cases (s : UtteranceSegmenter α δ ρ) (forcedEnd reset : Bool) :
    s.endpointEvent config forcedEnd reset = (none, s.reset) ∨
      ∃ utterance, utterance.samples = s.frames.flatten ∧
        s.endpointEvent config forcedEnd reset = (some (.endpoint utterance),
          if reset then s.reset else { s with pendingEndpoint := some utterance }) := by
  rw [endpointEvent, buildUtterance]
  cases config.belowMinimum (config.seconds s.frames.flatten.length) with
  | true => exact .inl rfl
  | false => exact .inr ⟨_, rfl, rfl⟩

/-- An end of the recording, whether it resets the segmenter or not. -/
theorem Tracks.endpoint {s' : UtteranceSegmenter α δ ρ} {forcedEnd reset : Bool}
    (h : Tracks config detector s₀ cs events s) (hrecording : s.recording = true)
    (hrecording' : s'.recording = true) (hpreRoll : s'.preRoll = s.preRoll)
    (hframes : s'.frames = s.frames ++ [chunk])
    (hafter : s₀.after config detector (cs ++ [chunk]) =
      (s'.endpointEvent config forcedEnd reset).2) :
    Tracks config detector s₀ (cs ++ [chunk])
      (events ++ (s'.endpointEvent config forcedEnd reset).1.toList)
        (s'.endpointEvent config forcedEnd reset).2 := by
  rcases s'.endpointEvent_cases config forcedEnd reset with heq | ⟨utterance, hsamples, heq⟩
  · rw [heq] at hafter ⊢
    exact h.reset hafter (fun _ => nofun) fun _ => nofun
  · have hsliced : ∀ other, some (UtteranceEvent.endpoint utterance) = some (.endpoint other) →
        s₀.SlicedFrom config detector (cs ++ [chunk]) other := by
      intro other hother
      cases hother
      exact h.slicedFrom hrecording (hsamples.trans (by rw [hframes]))
    rw [heq] at hafter ⊢
    cases reset with
    | true => exact h.reset hafter hsliced fun _ => nofun
    | false =>
      exact h.lasts hrecording hrecording' hpreRoll hframes
        (fun _ => ⟨events, utterance, rfl, rfl⟩) hsliced fun _ => nofun

/-- One more chunk. -/
theorem Tracks.step (h : Tracks config detector s₀ cs events s)
    (hs : s₀.after config detector cs = s)
    (hafter : s₀.after config detector (cs ++ [chunk]) = (s.acceptChunk config detector chunk).2) :
    Tracks config detector s₀ (cs ++ [chunk])
      (events ++ (s.acceptChunk config detector chunk).1.toList)
        (s.acceptChunk config detector chunk).2 := by
  cases hrecording : s.recording with
  | false =>
    have heq : s.acceptChunk config detector chunk =
        (none, s.acceptBeforeStart config detector chunk) := by
      rw [acceptChunk, hrecording]
      rfl
    rw [heq] at hafter ⊢
    simpa using h.beforeStart hs hrecording hafter
  | true =>
    have heq : s.acceptChunk config detector chunk = s.acceptAfterStart config detector chunk := by
      rw [acceptChunk, hrecording]
      rfl
    rw [heq] at hafter ⊢
    cases hforced : config.reachesMaximum (config.seconds (s.recordingSamples + chunk.length)) with
    | true =>
      rw [acceptAfterStart_forced hforced] at hafter ⊢
      exact h.endpoint hrecording hrecording rfl rfl hafter
    | false =>
      cases hspeech : (detector.accept s.detector chunk).1.started ||
          (detector.accept s.detector chunk).1.isSpeech with
      | true =>
        rw [acceptAfterStart_speech hforced hspeech] at hafter ⊢
        refine h.lasts hrecording hrecording rfl rfl (fun hne => (hne rfl).elim) ?_ ?_
        · intro utterance
          split_ifs <;> exact nofun
        · intro utterance
          split_ifs <;> exact nofun
      | false =>
        cases hended : (detector.accept s.detector chunk).1.ended with
        | true =>
          rw [acceptAfterStart_ended hforced hspeech hended] at hafter ⊢
          exact h.endpoint hrecording hrecording rfl rfl hafter
        | false =>
          cases hsilence : s.pendingEndSamples with
          | none =>
            rw [acceptAfterStart_lasting hforced hspeech hended hsilence] at hafter ⊢
            exact h.lasts hrecording hrecording rfl rfl (fun hne => (hne hsilence).elim)
              (fun _ => nofun) fun _ => nofun
          | some samples =>
            have hlatest := h.ended (by rw [hsilence]; exact Option.some_ne_none samples)
            by_cases hwaits : samples + chunk.length < config.finalSilenceSamples
            · rw [acceptAfterStart_waiting hforced hspeech hended hsilence hwaits] at hafter ⊢
              exact h.lasts hrecording hrecording rfl rfl (fun _ => by
                  rw [Option.toList_none, List.append_nil]
                  exact hlatest) (fun _ => nofun) fun _ => nofun
            · rw [acceptAfterStart_confirmed hforced hspeech hended hsilence hwaits] at hafter ⊢
              refine h.reset hafter (fun _ => nofun) fun utterance heq => ?_
              cases heq
              exact hlatest

end Chunk

variable (detector) in
/-- A whole chunk goes through the segmenter at once. -/
theorem acceptEvent_chunk (s : UtteranceSegmenter α δ ρ) (hpending : s.pending = [])
    {chunk : List α} (hchunk : chunk.length = config.chunkSamples) :
    s.acceptEvent config detector chunk = s.acceptChunk config detector chunk ∧
      (s.acceptChunk config detector chunk).2.pending = [] := by
  have hself : s.withPending [] = s := by rw [← hpending, withPending_self]
  have hsame : s.acceptChunk config detector chunk = ((s.acceptChunk config detector chunk).1,
      (s.acceptChunk config detector chunk).2.withPending []) := by
    simpa [hself] using acceptChunk_withPending config detector s chunk []
  have haccept := acceptEvent_eq config detector (s, []) chunk
  rw [hself, Machine.accept_chunk s hchunk] at haccept
  refine ⟨haccept.trans hsame.symm, ?_⟩
  rw [hsame]
  rfl

/-- A segmenter that has been given nothing. -/
def start (state : δ) : UtteranceSegmenter α δ ρ := { detector := state }

theorem tracks_run (config : SegmenterConfig ρ) (detector : VoiceActivityDetector α δ) (state : δ)
    (cs : List (List α))
    (hcs : ∀ chunk ∈ cs, chunk.length = config.chunkSamples) :
    Tracks config detector (start state) cs ((start state).run config detector cs).1
        ((start state).after config detector cs) ∧
      ((start state).after config detector cs).pending = [] := by
  induction cs using List.reverseRecOn with
  | nil =>
    refine ⟨⟨fun _ => ⟨rfl, [], rfl, Nat.zero_le _, .inr rfl⟩, nofun, fun hne => (hne rfl).elim,
      nofun, fun first utterance last heq => ?_⟩, rfl⟩
    simp [run] at heq
  | append_singleton cs chunk ih =>
    have hchunk : chunk.length = config.chunkSamples := hcs chunk (by simp)
    obtain ⟨htracks, hpending⟩ := ih fun c hc => hcs c (List.mem_append_left _ hc)
    obtain ⟨haccept, hpending'⟩ := acceptEvent_chunk detector _ hpending hchunk
    have hrun : (start state).run config detector (cs ++ [chunk]) =
        (((start state).run config detector cs).1 ++
          (((start state).after config detector cs).acceptChunk config detector chunk).1.toList,
          (((start state).after config detector cs).acceptChunk config detector chunk).2) := by
      rw [← haccept]
      exact feed_concat _ cs chunk
    have hafter : (start state).after config detector (cs ++ [chunk]) =
        (((start state).after config detector cs).acceptChunk config detector chunk).2 := by
      rw [after, hrun]
    rw [hafter, hrun]
    exact ⟨htracks.step rfl hafter, hpending'⟩

/-- What is asked of the events of a stream that comes in frames. -/
structure Reframed (config : SegmenterConfig ρ) (detector : VoiceActivityDetector α δ)
    (s : UtteranceSegmenter α δ ρ) (frames : List (List α)) : Prop where
  sameEvents : (s.run config detector (chunks config.chunkSamples frames.flatten)).1 =
    (s.run config detector frames).1 ++
      (((s.run config detector frames).2.withPending []).run config detector
        (chunks config.chunkSamples (s.run config detector frames).2.pending)).1
  slices : ∀ utterance, .endpoint utterance ∈ (s.run config detector frames).1 →
    utterance.samples <:+: frames.flatten ∧
      s.SlicedFrom config detector (chunks config.chunkSamples frames.flatten) utterance
  confirms : ConfirmsLatest (s.run config detector frames).1

/-- Where a call resets the segmenter only with nothing buffered, frames of any size give the events
of the chunks of the stream: utterances without a gap from their pre-roll on, and confirmations of
the latest endpoint. -/
theorem utterances_reframed (config : SegmenterConfig ρ) (detector : VoiceActivityDetector α δ)
    (state : δ) (frames : List (List α)) (h : (start state).KeepsBuffer config detector frames) :
    Reframed config detector (start state : UtteranceSegmenter α δ ρ) frames := by
  have hevents := run_reframed (start state) rfl h
  obtain ⟨htracks, -⟩ := tracks_run config detector state
    (chunks config.chunkSamples frames.flatten) fun _ => length_of_mem_chunks
  rw [hevents] at htracks
  refine ⟨hevents, fun utterance hmem => ?_, fun first utterance last heq => ?_⟩
  · have hsliced := htracks.sliced utterance (List.mem_append_left _ hmem)
    refine ⟨?_, hsliced⟩
    obtain ⟨before, preRoll, later, ⟨rest, hchunks⟩, hsamples, -⟩ := hsliced
    obtain ⟨short, -, hstream⟩ := flatten_chunks config.chunkSamples_pos frames.flatten
    rw [hsamples, hstream, ← hchunks]
    exact ⟨before.flatten, rest.flatten ++ short, by simp⟩
  · exact htracks.confirms first utterance _ (by rw [heq, List.append_assoc, List.cons_append])

namespace TestVectors

/-- Chunks of one sample, where sound is speech; an end is confirmed after `silence` samples. -/
def sampleConfig (silence : ℕ) : SegmenterConfig ℕ where
  sampleRate := 1
  chunkSamples := 1
  chunkSamples_pos := Nat.one_pos
  preRollChunks := 1
  preRollChunks_pos := Nat.one_pos
  finalSilenceSamples := silence
  seconds samples := samples
  reachesMaximum seconds := 20 ≤ seconds
  belowMinimum seconds := seconds < 1

def soundDetector : VoiceActivityDetector ℕ Bool where
  accept speaking chunk :=
    let sound := chunk.any (· ≠ 0)
    (⟨sound && !speaking, !sound && speaking, sound⟩, sound)

/-- Speech that is resumed once. -/
theorem utterances_reframed_resumed : Reframed (sampleConfig 2) soundDetector
    (start false : UtteranceSegmenter ℕ Bool ℕ) [[1, 0, 1], [0], [0], [0]] :=
  utterances_reframed _ _ false _ (by
    rw [KeepsBuffer]
    decide)

/-- The end of one utterance loses the start of the next where both are in one frame: what is heard
is not even the first part of what is heard chunk by chunk. -/
theorem utterance_behind_end_lost :
    ¬ ((start false : UtteranceSegmenter ℕ Bool ℕ).run (sampleConfig 0) soundDetector
        [[1, 0, 1], [1, 0]]).1 <+:
      ((start false : UtteranceSegmenter ℕ Bool ℕ).run (sampleConfig 0) soundDetector
        [[1], [0], [1], [1], [0]]).1 := by
  decide

end TestVectors

end UtteranceSegmenter
end VoiceActivity
