import Mathlib.Data.List.Basic
import Mathlib.Tactic

/-! The audio that the phrase spotter keeps: the end of the stream, in the frames it came in, and
the parts of it that a detection denotes. -/
namespace Keyphrases

variable {α δ : Type}

structure KeyphraseDetection where
  phraseStartSample : Option ℤ
  phraseEndSample : Option ℤ
  deriving DecidableEq

/-- The state of the spotter; its decoder takes one frame after the other. -/
structure PocketSphinxPhraseSpotter (α δ : Type) where
  maxBufferSamples : ℤ
  frames : List (List α) := []
  bufferSamples : ℤ := 0
  bufferStartSample : ℤ := 0
  processedSamples : ℤ := 0
  framesSinceCheck : ℕ := 0
  decoder : δ

/-- `int(16_000 * ms / 1000)`, where the quotient is exact. -/
def samplesOfMs (ms : ℤ) : ℤ := (16000 * ms).tdiv 1000

namespace PocketSphinxPhraseSpotter

/-- A spotter that has heard nothing. -/
def new (maxBufferMs : ℤ) (decoder : δ) : PocketSphinxPhraseSpotter α δ where
  maxBufferSamples := max 1 (samplesOfMs maxBufferMs)
  decoder := decoder

/-- The loop of `_trim_buffer`: the frames left, with the two counters. -/
def trimLoop : ℤ → List (List α) → ℤ → ℤ → List (List α) × ℤ × ℤ
  | _, [], bufferSamples, bufferStartSample => ([], bufferSamples, bufferStartSample)
  | extraSamples, firstFrame :: rest, bufferSamples, bufferStartSample =>
    if extraSamples ≤ 0 then (firstFrame :: rest, bufferSamples, bufferStartSample)
    else if firstFrame.length ≤ extraSamples then
      trimLoop (extraSamples - firstFrame.length) rest (bufferSamples - firstFrame.length)
        (bufferStartSample + firstFrame.length)
    else (firstFrame.drop extraSamples.toNat :: rest, bufferSamples - extraSamples,
      bufferStartSample + extraSamples)

def trimBuffer (s : PocketSphinxPhraseSpotter α δ) : PocketSphinxPhraseSpotter α δ :=
  let trimmed := trimLoop (s.bufferSamples - s.maxBufferSamples) s.frames s.bufferSamples
    s.bufferStartSample
  { s with
    frames := trimmed.1, bufferSamples := trimmed.2.1, bufferStartSample := trimmed.2.2 }

/-- `processRaw` is the decoder on the samples of a frame. -/
def append (processRaw : δ → List α → δ) (s : PocketSphinxPhraseSpotter α δ) (frame : List α) :
    PocketSphinxPhraseSpotter α δ :=
  let s := trimBuffer { s with
    frames := s.frames ++ [frame]
    bufferSamples := s.bufferSamples + frame.length
    processedSamples := s.processedSamples + frame.length }
  { s with
    framesSinceCheck := s.framesSinceCheck + 1, decoder := processRaw s.decoder frame }

end PocketSphinxPhraseSpotter

/-- The loop of `trim_frames_from_sample`. -/
def skipFrames : ℤ → List (List α) → List (List α)
  | _, [] => []
  | remainingSkip, frame :: rest =>
    if frame.length ≤ remainingSkip then skipFrames (remainingSkip - frame.length) rest
    else if 0 < remainingSkip then frame.drop remainingSkip.toNat :: skipFrames 0 rest
    else frame :: skipFrames remainingSkip rest

def trimFramesFromSample (frames : List (List α)) (startSample : ℤ) : List (List α) :=
  skipFrames (max 0 startSample) frames

/-- The part of a frame that is still wanted. -/
def takeFrame (remainingTake : ℤ) (frame : List α) : List α :=
  if remainingTake < frame.length then frame.take remainingTake.toNat else frame

/-- The loop of `trim_frames_between_samples`. -/
def cutFrames : ℤ → ℤ → List (List α) → List (List α)
  | _, _, [] => []
  | remainingSkip, remainingTake, frame :: rest =>
    if remainingTake ≤ 0 then []
    else if frame.length ≤ remainingSkip then
      cutFrames (remainingSkip - frame.length) remainingTake rest
    else if 0 < remainingSkip then
      let taken := takeFrame remainingTake (frame.drop remainingSkip.toNat)
      taken :: cutFrames 0 (remainingTake - taken.length) rest
    else
      let taken := takeFrame remainingTake frame
      taken :: cutFrames remainingSkip (remainingTake - taken.length) rest

def trimFramesBetweenSamples (frames : List (List α)) (startSample endSample : ℤ) :
    List (List α) :=
  if endSample ≤ startSample then []
  else cutFrames (max 0 startSample) (endSample - max 0 startSample) frames

namespace PocketSphinxPhraseSpotter

variable (s : PocketSphinxPhraseSpotter α δ)

def replayFramesForDetection (detection : KeyphraseDetection) (preRollMs : ℤ) : List (List α) :=
  match detection.phraseEndSample.or detection.phraseStartSample with
  | none => s.frames
  | some boundarySample =>
    trimFramesFromSample s.frames (max 0 (boundarySample - max 0 (samplesOfMs preRollMs)))

def confirmationFramesForDetection (detection : KeyphraseDetection) (windowMs : ℤ) :
    List (List α) :=
  match detection.phraseStartSample, detection.phraseEndSample with
  | some startSample, some endSample =>
    let windowSamples := max 1 (samplesOfMs windowMs)
    let phraseStart := max 0 startSample
    let phraseEnd := max phraseStart endSample
    trimFramesBetweenSamples s.frames (max (max 0 (phraseEnd - windowSamples)) phraseStart)
      phraseEnd
  | _, _ => s.frames

/-- How a span was found: by the decoder of the stream, in samples of the stream, or by one that
was run on the buffer, in samples of the buffer. -/
inductive PhraseSpan where
  | segmented (start stop : ℤ)
  | spotted (start stop : ℤ)

/-- The detection made of a span; `_phrase_sample_span` rebases those of the stream. -/
def detectionOf : PhraseSpan → KeyphraseDetection
  | .segmented start stop =>
    ⟨some (max 0 (start - s.bufferStartSample)), some (max 0 (stop - s.bufferStartSample))⟩
  | .spotted start stop => ⟨some start, some stop⟩

/-- Where a span lies in the stream. -/
def inStream : PhraseSpan → ℤ × ℤ
  | .segmented start stop => (start, stop)
  | .spotted start stop => (s.bufferStartSample + start, s.bufferStartSample + stop)

end PocketSphinxPhraseSpotter

/-! Frames and the samples in them. -/

/-- The samples from one position up to another. -/
def slice (stream : List α) (start stop : ℤ) : List α := (stream.take stop.toNat).drop start.toNat

theorem flatten_skipFrames (frames : List (List α)) : ∀ skip : ℕ,
    (skipFrames skip frames).flatten = frames.flatten.drop skip := by
  induction frames with
  | nil => simp [skipFrames]
  | cons frame rest ih =>
    intro skip
    unfold skipFrames
    rw [List.flatten_cons, List.drop_append]
    split_ifs with hwhole hpart
    · have hskip : (skip : ℤ) - frame.length = (skip - frame.length : ℕ) := by omega
      have hgone : frame.drop skip = [] := List.drop_of_length_le (by omega)
      rw [hskip, ih, hgone, List.nil_append]
    · have hrest : skip - frame.length = 0 := by omega
      have hzero := ih 0
      simp only [Nat.cast_zero, List.drop_zero] at hzero
      simp [hrest, hzero]
    · obtain rfl : skip = 0 := by omega
      have hzero := ih 0
      simp only [Nat.cast_zero, List.drop_zero] at hzero
      simp [hzero]

theorem takeFrame_eq (take : ℕ) (frame : List α) : takeFrame take frame = frame.take take := by
  unfold takeFrame
  split_ifs with h
  · simp
  · rw [List.take_of_length_le (by omega)]

theorem flatten_cutFrames (frames : List (List α)) : ∀ skip take : ℕ,
    (cutFrames skip take frames).flatten = (frames.flatten.drop skip).take take := by
  induction frames with
  | nil => simp [cutFrames]
  | cons frame rest ih =>
    intro skip take
    -- what is left to take after the samples of this frame
    have hleft : ∀ samples : List α, (take : ℤ) - (samples.take take).length =
        (take - samples.length : ℕ) := fun samples => by
      rw [List.length_take]
      omega
    unfold cutFrames
    rw [List.flatten_cons, List.drop_append]
    split_ifs with hnone hwhole hpart
    · obtain rfl : take = 0 := by omega
      simp
    · have hskip : (skip : ℤ) - frame.length = (skip - frame.length : ℕ) := by omega
      have hgone : frame.drop skip = [] := List.drop_of_length_le (by omega)
      rw [hskip, ih, hgone, List.nil_append]
    · have hrest : skip - frame.length = 0 := by omega
      have hzero := ih 0 (take - (frame.drop skip).length)
      simp only [Nat.cast_zero, List.drop_zero] at hzero
      simp only [Int.toNat_natCast, takeFrame_eq, hleft, List.flatten_cons, hzero, hrest,
        List.drop_zero, List.take_append]
    · obtain rfl : skip = 0 := by omega
      have hzero := ih 0 (take - frame.length)
      simp only [Nat.cast_zero, List.drop_zero] at hzero
      simp only [Nat.cast_zero, takeFrame_eq, hleft, List.flatten_cons, hzero, List.drop_zero,
        List.take_append, Nat.zero_sub]

/-- Trimming takes samples from the front, and the counters follow it. -/
theorem trimLoop_eq (frames : List (List α)) : ∀ (extra : ℕ) (size start : ℤ),
    extra ≤ frames.flatten.length →
      (PocketSphinxPhraseSpotter.trimLoop extra frames size start).1.flatten =
          frames.flatten.drop extra ∧
        (PocketSphinxPhraseSpotter.trimLoop extra frames size start).2 =
          (size - extra, start + extra) := by
  induction frames with
  | nil =>
    intro extra size start hextra
    obtain rfl : extra = 0 := by simpa using hextra
    simp [PocketSphinxPhraseSpotter.trimLoop]
  | cons frame rest ih =>
    intro extra size start hextra
    unfold PocketSphinxPhraseSpotter.trimLoop
    rw [List.flatten_cons, List.length_append] at hextra
    rw [List.flatten_cons, List.drop_append]
    split_ifs with hnone hwhole
    · obtain rfl : extra = 0 := by omega
      simp
    · have hskip : (extra : ℤ) - frame.length = (extra - frame.length : ℕ) := by omega
      obtain ⟨hflat, hcounters⟩ := ih (extra - frame.length) (size - frame.length)
        (start + frame.length) (by omega)
      have hgone : frame.drop extra = [] := List.drop_of_length_le (by omega)
      rw [hskip, hflat, hcounters, hgone, List.nil_append]
      refine ⟨rfl, Prod.ext ?_ ?_⟩ <;> simp only <;> omega
    · have hrest : extra - frame.length = 0 := by omega
      simp [hrest]

/-! The buffer is the end of the stream. -/

namespace PocketSphinxPhraseSpotter

/-- The frames make up the end of the stream from `bufferStartSample` on, as much of it as fits. -/
structure Buffers (s : PocketSphinxPhraseSpotter α δ) (stream : List α) : Prop where
  positive : 1 ≤ s.maxBufferSamples
  start : s.bufferStartSample = max 0 (stream.length - s.maxBufferSamples)
  size : s.bufferSamples = stream.length - s.bufferStartSample
  processed : s.processedSamples = stream.length
  frames : s.frames.flatten = stream.drop s.bufferStartSample.toNat

theorem buffers_new (maxBufferMs : ℤ) (decoder : δ) :
    (new maxBufferMs decoder : PocketSphinxPhraseSpotter α δ).Buffers [] where
  positive := le_max_left ..
  start := by simp [new]
  size := by simp [new]
  processed := rfl
  frames := rfl

theorem trimLoop_of_nonpos {extra : ℤ} (h : extra ≤ 0) (frames : List (List α)) (size start : ℤ) :
    trimLoop extra frames size start = (frames, size, start) := by
  cases frames <;> simp [trimLoop, h]

/-- One more frame: what does not fit leaves at the front. -/
theorem Buffers.append {s : PocketSphinxPhraseSpotter α δ} {stream : List α} (h : s.Buffers stream)
    (processRaw : δ → List α → δ) (frame : List α) :
    (s.append processRaw frame).Buffers (stream ++ frame) := by
  have hpositive := h.positive
  have hstart := h.start
  have hsize := h.size
  have hlength : ((stream ++ frame).length : ℤ) = stream.length + frame.length := by simp
  have hflat : (s.frames ++ [frame]).flatten =
      (stream ++ frame).drop s.bufferStartSample.toNat := by
    have hle : s.bufferStartSample.toNat ≤ stream.length := by omega
    simp [h.frames, List.drop_append_of_le_length hle]
  by_cases hextra : 0 ≤ s.bufferSamples + frame.length - s.maxBufferSamples
  · obtain ⟨extra, hn⟩ := Int.eq_ofNat_of_zero_le hextra
    have hfits : extra ≤ (s.frames ++ [frame]).flatten.length := by
      rw [hflat, List.length_drop, List.length_append]
      omega
    obtain ⟨hframes, hcounters⟩ := trimLoop_eq (s.frames ++ [frame]) extra
      (s.bufferSamples + frame.length) s.bufferStartSample hfits
    refine ⟨hpositive, ?_, ?_, ?_, ?_⟩
    · simp only [PocketSphinxPhraseSpotter.append, trimBuffer, hn, hcounters]
      omega
    · simp only [PocketSphinxPhraseSpotter.append, trimBuffer, hn, hcounters]
      omega
    · simp [PocketSphinxPhraseSpotter.append, trimBuffer, h.processed]
    · have hdrop : (s.bufferStartSample + extra).toNat = s.bufferStartSample.toNat + extra := by
        omega
      simp only [PocketSphinxPhraseSpotter.append, trimBuffer, hn, hcounters, hframes, hflat,
        List.drop_drop, hdrop]
  · have hsame := trimLoop_of_nonpos (by omega : s.bufferSamples + frame.length -
      s.maxBufferSamples ≤ 0) (s.frames ++ [frame]) (s.bufferSamples + frame.length)
      s.bufferStartSample
    refine ⟨hpositive, ?_, ?_, ?_, ?_⟩
    · simp only [PocketSphinxPhraseSpotter.append, trimBuffer, hsame]
      omega
    · simp only [PocketSphinxPhraseSpotter.append, trimBuffer, hsame]
      omega
    · simp [PocketSphinxPhraseSpotter.append, trimBuffer, h.processed]
    · simp only [PocketSphinxPhraseSpotter.append, trimBuffer, hsame, hflat]

/-- The spotter after some frames. -/
def hear (processRaw : δ → List α → δ) (maxBufferMs : ℤ) (decoder : δ) (frames : List (List α)) :
    PocketSphinxPhraseSpotter α δ :=
  frames.foldl (append processRaw) (new maxBufferMs decoder)

theorem buffers_foldl (processRaw : δ → List α → δ) (frames : List (List α)) :
    ∀ {s : PocketSphinxPhraseSpotter α δ} {stream : List α}, s.Buffers stream →
      (frames.foldl (append processRaw) s).Buffers (stream ++ frames.flatten) := by
  induction frames with
  | nil =>
    intro s stream h
    simpa using h
  | cons frame frames ih =>
    intro s stream h
    simpa using ih (h.append processRaw frame)

theorem buffers_hear (processRaw : δ → List α → δ) (maxBufferMs : ℤ) (decoder : δ)
    (frames : List (List α)) : (hear processRaw maxBufferMs decoder frames).Buffers frames.flatten :=
  buffers_foldl processRaw frames (buffers_new maxBufferMs decoder)

theorem maxBufferSamples_foldl (processRaw : δ → List α → δ) (frames : List (List α)) :
    ∀ s : PocketSphinxPhraseSpotter α δ,
      (frames.foldl (append processRaw) s).maxBufferSamples = s.maxBufferSamples := by
  induction frames with
  | nil => exact fun s => rfl
  | cons frame frames ih =>
    intro s
    rw [List.foldl_cons, ih]
    rfl

/-! What a detection denotes. -/

variable {s : PocketSphinxPhraseSpotter α δ} {stream : List α}

theorem Buffers.flatten_skip (h : s.Buffers stream) {start : ℤ} (hstart : 0 ≤ start) :
    (trimFramesFromSample s.frames start).flatten =
      slice stream (s.bufferStartSample + start) stream.length := by
  have hbuffer := h.start
  obtain ⟨skip, rfl⟩ := Int.eq_ofNat_of_zero_le hstart
  have hsum : (s.bufferStartSample + skip).toNat = s.bufferStartSample.toNat + skip := by omega
  rw [trimFramesFromSample, max_eq_right hstart, flatten_skipFrames, h.frames, List.drop_drop,
    slice, hsum]
  simp

theorem Buffers.flatten_cut (h : s.Buffers stream) {start stop : ℤ} (hstart : 0 ≤ start) :
    (trimFramesBetweenSamples s.frames start stop).flatten =
      slice stream (s.bufferStartSample + start) (s.bufferStartSample + stop) := by
  have hbuffer := h.start
  obtain ⟨skip, rfl⟩ := Int.eq_ofNat_of_zero_le hstart
  unfold trimFramesBetweenSamples
  split_ifs with hempty
  · rw [slice, List.drop_of_length_le]
    · rfl
    · rw [List.length_take]
      omega
  · obtain ⟨take, htake⟩ := Int.eq_ofNat_of_zero_le (by omega : 0 ≤ stop - skip)
    have hsum : (s.bufferStartSample + skip).toNat = s.bufferStartSample.toNat + skip := by omega
    have hstop : (s.bufferStartSample + stop).toNat =
        s.bufferStartSample.toNat + skip + take := by omega
    rw [max_eq_right hstart, htake, flatten_cutFrames, h.frames, List.drop_drop, slice, hsum, hstop,
      List.drop_take]
    congr 1
    omega

theorem slice_eq_nil (stream : List α) {start stop : ℤ} (h : stop ≤ start) :
    slice stream start stop = [] := by
  rw [slice, List.drop_eq_nil_iff, List.length_take]
  omega

theorem Buffers.replay (h : s.Buffers stream) (span : PhraseSpan) (preRollMs : ℤ) :
    (s.replayFramesForDetection (s.detectionOf span) preRollMs).flatten =
      slice stream (max s.bufferStartSample ((s.inStream span).2 - max 0 (samplesOfMs preRollMs)))
        stream.length := by
  have hbuffer := h.start
  cases span with
  | segmented start stop =>
    simp only [replayFramesForDetection, detectionOf, inStream, Option.some_or]
    rw [h.flatten_skip (by omega)]
    congr 1
    omega
  | spotted start stop =>
    simp only [replayFramesForDetection, detectionOf, inStream, Option.some_or]
    rw [h.flatten_skip (by omega)]
    congr 1
    omega

/-- A span that ends before it starts, or before the buffer, denotes nothing. -/
theorem Buffers.confirmation (h : s.Buffers stream) (span : PhraseSpan) (windowMs : ℤ) :
    (s.confirmationFramesForDetection (s.detectionOf span) windowMs).flatten =
      slice stream (max s.bufferStartSample (max ((s.inStream span).2 -
        max 1 (samplesOfMs windowMs)) (s.inStream span).1)) (s.inStream span).2 := by
  have hbuffer := h.start
  have hsame : ∀ {start stop start' stop' : ℤ}, (start = start' ∧ stop = stop') ∨
      (stop ≤ start ∧ stop' ≤ start') → slice stream start stop = slice stream start' stop' := by
    rintro start stop start' stop' (⟨rfl, rfl⟩ | ⟨hempty, hempty'⟩)
    · rfl
    · rw [slice_eq_nil stream hempty, slice_eq_nil stream hempty']
  cases span with
  | segmented start stop =>
    simp only [confirmationFramesForDetection, detectionOf, inStream]
    rw [h.flatten_cut (by omega)]
    apply hsame
    omega
  | spotted start stop =>
    simp only [confirmationFramesForDetection, detectionOf, inStream]
    rw [h.flatten_cut (by omega)]
    apply hsame
    omega

/-- The buffer is the end of the stream, as long as the limit lets it be, and detections denote the
slices of the stream that lie in it. -/
structure ExactFor (s : PocketSphinxPhraseSpotter α δ) (stream : List α) (maxBufferMs : ℤ) :
    Prop where
  frames : s.frames.flatten = stream.drop (stream.length -
    min stream.length (max 1 (samplesOfMs maxBufferMs)).toNat)
  ends : s.bufferStartSample + s.bufferSamples = s.processedSamples
  processed : s.processedSamples = stream.length
  replay : ∀ (span : PhraseSpan) (preRollMs : ℤ),
    (s.replayFramesForDetection (s.detectionOf span) preRollMs).flatten =
      slice stream (max s.bufferStartSample
        ((s.inStream span).2 - max 0 (samplesOfMs preRollMs))) stream.length
  confirmation : ∀ (span : PhraseSpan) (windowMs : ℤ),
    (s.confirmationFramesForDetection (s.detectionOf span) windowMs).flatten =
      slice stream (max s.bufferStartSample (max ((s.inStream span).2 -
        max 1 (samplesOfMs windowMs)) (s.inStream span).1)) (s.inStream span).2

/-- However the stream is cut into frames. -/
theorem spotter_buffer_exact (processRaw : δ → List α → δ) (maxBufferMs : ℤ) (decoder : δ)
    (frames : List (List α)) :
    (hear processRaw maxBufferMs decoder frames).ExactFor frames.flatten maxBufferMs := by
  have h : (hear processRaw maxBufferMs decoder frames).Buffers frames.flatten :=
    buffers_hear processRaw maxBufferMs decoder frames
  have hmax : (hear processRaw maxBufferMs decoder frames).maxBufferSamples =
      max 1 (samplesOfMs maxBufferMs) := maxBufferSamples_foldl processRaw frames _
  have hstart := h.start
  have hsize := h.size
  have hprocessed := h.processed
  refine ⟨?_, by omega, hprocessed, fun span preRollMs => h.replay span preRollMs,
    fun span windowMs => h.confirmation span windowMs⟩
  rw [h.frames]
  congr 1
  omega

end PocketSphinxPhraseSpotter
end Keyphrases
