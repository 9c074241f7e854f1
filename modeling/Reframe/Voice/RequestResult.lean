import Reframe.Voice.RequestLoop

/-! How a voice request ends. The run is read as a history of cycles with their attempts; the
variables of the loop keep up with it, and the result follows from them. -/
namespace VoiceTurn
open Dialogue Dialogue.Program

structure Attempt where
  attemptId : String
  /-- The answer of the completion check, once it has been asked. -/
  completion : Option CompletionResult
  deriving DecidableEq

def Attempt.Passed (attempt : Attempt) : Prop := attempt.completion = some .pass

instance : DecidablePred Attempt.Passed := fun attempt =>
  inferInstanceAs (Decidable (attempt.completion = some .pass))

structure Cycle where
  cycleId : String
  task : SelectedTaskContext
  /-- The latest attempt stands first. -/
  attempts : List Attempt
  requestCompletion : Option CompletionResult
  deriving DecidableEq

namespace Cycle

def DidNothing (cycle : Cycle) : Prop := cycle.task.modelId = doNothingModel

instance : DecidablePred DidNothing := fun cycle =>
  inferInstanceAs (Decidable (cycle.task.modelId = doNothingModel))

/-- The cycle and the attempt that passed in it. -/
def passed (cycle : Cycle) : Option (String × String) :=
  (cycle.attempts.find? fun attempt => attempt.Passed).map fun attempt =>
    (cycle.cycleId, attempt.attemptId)

end Cycle

/-- The latest cycle stands first. -/
abbrev History := List Cycle

def History.amend (h : History) (f : Cycle → Cycle) : History :=
  match h with
  | [] => []
  | cycle :: earlier => f cycle :: earlier

/-- A cycle starts when its task is reported. -/
def record (h : History) : Event Operation.Answer → History
  | ⟨.reportTaskChoice cycleId _ task _, _⟩ => ⟨cycleId, task, [], none⟩ :: h
  | ⟨.executeTask .., execution⟩ => h.amend fun cycle =>
    { cycle with attempts := ⟨execution.attemptId, none⟩ :: cycle.attempts }
  | ⟨.checkTaskCompletion .., completion⟩ => h.amend fun cycle =>
    { cycle with attempts := match cycle.attempts with
      | [] => []
      | attempt :: earlier => { attempt with completion := some completion } :: earlier }
  | ⟨.checkRequestCompletion .., completion⟩ => h.amend fun cycle =>
    { cycle with requestCompletion := some completion }
  | _ => h

/-- The attempts in the order of their execution. -/
def executed (h : History) : List Attempt := (h.flatMap Cycle.attempts).reverse

/-- The cycles that passed, the latest first. -/
def passedCycles (h : History) : List (String × String) := h.filterMap Cycle.passed

/-- How many cycles in a row did nothing, up to the latest. -/
def noActionRun (h : History) : ℕ := (h.takeWhile fun cycle => cycle.DidNothing).length

theorem noActionRun_cons (cycle : Cycle) (h : History) : noActionRun (cycle :: h) =
    if cycle.task.modelId = doNothingModel then noActionRun h + 1 else 0 := by
  rw [noActionRun, List.takeWhile_cons]
  by_cases hnothing : cycle.task.modelId = doNothingModel
  · rw [if_pos (decide_eq_true (p := cycle.DidNothing) hnothing), if_pos hnothing]
    rfl
  · have hcycle : ¬ decide cycle.DidNothing = true := fun h => hnothing (of_decide_eq_true h)
    rw [if_neg hcycle, if_neg hnothing]
    rfl

def VoiceTaskCompletionReview.attempt (review : VoiceTaskCompletionReview) : Attempt :=
  ⟨review.attemptId, some review.completion⟩

/-- The variables of the loop agree with the run. -/
structure Tracks (s : RequestState) (h : History) : Prop where
  reviewed : s.completionReviews.map (·.attempt) = executed h
  failures : s.failureReviews.map (·.attemptId) =
    ((executed h).filter fun attempt => ¬ attempt.Passed).map (·.attemptId)
  elapsed : s.taskCompletionMs =
    (s.completionReviews.map (·.elapsedMs)).sum + (s.failureReviews.map (·.elapsedMs)).sum
  completed : s.completedTasks.map (fun completed => (completed.cycleId, completed.attemptId)) =
    (passedCycles h).reverse
  noActions : s.consecutiveNoActionCount = noActionRun h
  loaded : h ≠ [] → s.completionContext.isSome

theorem tracks_initial : Tracks .initial [] := ⟨rfl, rfl, rfl, rfl, rfl, fun h => (h rfl).elim⟩

section Steps

variable {s : RequestState} {h : History} {cycle : Cycle}

/-- Attempts are added at the front of the first cycle. -/
theorem executed_cons (cycle : Cycle) (attempt : Attempt) (h : History) :
    executed ({ cycle with attempts := attempt :: cycle.attempts } :: h) =
      executed (cycle :: h) ++ [attempt] := by
  rw [executed, List.flatMap_cons, List.cons_append, List.reverse_cons]
  rfl

theorem passed_cons_pass (cycle : Cycle) {attempt : Attempt} (h : attempt.Passed) :
    Cycle.passed { cycle with attempts := attempt :: cycle.attempts } =
      some (cycle.cycleId, attempt.attemptId) := by
  rw [Cycle.passed, List.find?_cons_of_pos (by simpa using h)]
  rfl

theorem passed_cons_fail (cycle : Cycle) {attempt : Attempt} (h : ¬ attempt.Passed) :
    Cycle.passed { cycle with attempts := attempt :: cycle.attempts } = cycle.passed := by
  rw [Cycle.passed, List.find?_cons_of_neg (by simpa using h)]
  rfl

theorem passedCycles_cons (cycle : Cycle) (h : History) :
    passedCycles (cycle :: h) = cycle.passed.toList ++ passedCycles h := by
  rw [passedCycles, List.filterMap_cons]
  cases cycle.passed <;> rfl

/-- A task is chosen and reported. -/
theorem Tracks.report (hs : Tracks s h) (hloaded : s.completionContext.isSome) (cycleId : String)
    (task : SelectedTaskContext) (groups : CandidateMemoryGroups) :
    Tracks { s with
        candidateMemories := groups
        consecutiveNoActionCount := nextConsecutiveNoActionCount task s.consecutiveNoActionCount }
      (⟨cycleId, task, [], none⟩ :: h) := by
  refine ⟨hs.reviewed, hs.failures, hs.elapsed, hs.completed, ?_, fun _ => hloaded⟩
  rw [noActionRun_cons, ← hs.noActions]
  rfl

/-- The completion of an attempt is reviewed. -/
theorem Tracks.pass (hs : Tracks s (cycle :: h)) (hnone : cycle.passed = none)
    (review : VoiceTaskCompletionReview) (hpass : review.completion = .pass)
    (completed : CompletedVoiceTaskCycle) (hcycle : completed.cycleId = cycle.cycleId)
    (hattempt : completed.attemptId = review.attemptId)
    (successfulTasks : List SuccessfulVoiceTaskResult) :
    Tracks { s with
        taskCompletionMs := s.taskCompletionMs + review.elapsedMs
        completionReviews := s.completionReviews ++ [review]
        completedTasks := s.completedTasks ++ [completed]
        successfulTasks }
      ({ cycle with attempts := review.attempt :: cycle.attempts } :: h) := by
  have hpassed : review.attempt.Passed := congrArg some hpass
  refine ⟨?_, ?_, ?_, ?_, ?_, fun _ => hs.loaded (List.cons_ne_nil _ _)⟩
  · rw [executed_cons, List.map_append, hs.reviewed]
    rfl
  · rw [executed_cons, List.filter_append, List.filter_singleton, decide_eq_false (not_not.mpr hpassed),
      cond_false, List.append_nil]
    exact hs.failures
  · change s.taskCompletionMs + review.elapsedMs = _
    rw [hs.elapsed, List.map_append, List.sum_append, List.map_singleton, List.sum_singleton]
    ring
  · rw [List.map_append, hs.completed, passedCycles_cons, passedCycles_cons, hnone,
      passed_cons_pass cycle hpassed, List.map_singleton, hcycle, hattempt]
    simp [VoiceTaskCompletionReview.attempt]
  · exact hs.noActions.trans (by rw [noActionRun_cons, noActionRun_cons])

theorem Tracks.fail (hs : Tracks s (cycle :: h)) (review : VoiceTaskCompletionReview)
    (hfail : review.completion ≠ .pass) (failure : VoiceTaskFailureReview)
    (hattempt : failure.attemptId = review.attemptId) :
    Tracks { s with
        taskCompletionMs := s.taskCompletionMs + review.elapsedMs + failure.elapsedMs
        completionReviews := s.completionReviews ++ [review]
        failureReviews := s.failureReviews ++ [failure] }
      ({ cycle with attempts := review.attempt :: cycle.attempts } :: h) := by
  have hpassed : ¬ review.attempt.Passed := fun h => hfail (Option.some.inj h)
  refine ⟨?_, ?_, ?_, ?_, ?_, fun _ => hs.loaded (List.cons_ne_nil _ _)⟩
  · rw [executed_cons, List.map_append, hs.reviewed]
    rfl
  · rw [executed_cons, List.filter_append, List.filter_singleton, decide_eq_true hpassed,
      cond_true, List.map_append, List.map_append, ← hs.failures, List.map_singleton, hattempt]
    rfl
  · change s.taskCompletionMs + review.elapsedMs + failure.elapsedMs = _
    rw [hs.elapsed, List.map_append, List.map_append, List.sum_append, List.sum_append,
      List.map_singleton, List.map_singleton, List.sum_singleton, List.sum_singleton]
    ring
  · rw [passedCycles_cons, passed_cons_fail cycle hpassed, ← passedCycles_cons]
    exact hs.completed
  · exact hs.noActions.trans (by rw [noActionRun_cons, noActionRun_cons])

end Steps

/-- The result is the one for the tasks that have been completed. -/
def Names (s : RequestState) : VoiceTaskRunResult → Prop
  | .noAction _ => s.completedTasks = []
  | .flow result => ∃ completed, s.completedTasks.getLast? = some completed ∧
    result = completedVoiceTaskResult completed s.taskCompletionMs s.completionReviews
      s.failureReviews

theorem names_afterNoAction (s : RequestState) (noAction : VoiceTaskNoActionResult) :
    Names s (voiceRequestResultAfterNoAction s.completedTasks noAction s.taskCompletionMs
      s.completionReviews s.failureReviews) := by
  unfold voiceRequestResultAfterNoAction
  split
  · exact ⟨_, ‹_›, rfl⟩
  · exact List.getLast?_eq_none_iff.mp ‹_›

/-- What is known when a cycle is over, before the request is checked. -/
structure Outcome (outcome : CycleOutcome) (cycle : Cycle) (earlier : History) : Prop where
  tracks : Tracks outcome.request (cycle :: earlier)
  unchecked : cycle.requestCompletion = none
  finished : outcome.cycleFinished = true → (cycle.DidNothing ∨ cycle.passed.isSome) ∧
    ∃ result, outcome.cycleResult = .result result ∧ Names outcome.request result

theorem ensures_prepareTask (currentUserRequest : String) (context : VoiceTaskFlowContext)
    (taskChoice : TaskChoiceDecision) (task : SelectedTaskContext) (taskChoiceMs : ℤ)
    (groups : CandidateMemoryGroups) (h : History) :
    Ensures record (fun _ h' => h' = h)
      (prepareTask currentUserRequest context taskChoice task taskChoiceMs groups) h := by
  simp only [prepareTask, ensures_bind, ensures_ask, ensures_pure]
  intros
  rfl

/-- What holds between two attempts at one task. -/
structure Attempting (context : VoiceTaskFlowContext) (task : SelectedTaskContext)
    (s : AttemptState) (cycle : Cycle) (earlier : History) : Prop where
  tracks : Tracks s.request (cycle :: earlier)
  cycleId : cycle.cycleId = context.cycleId
  unchecked : cycle.requestCompletion = none
  pending : cycle.passed = none

theorem ensures_attemptTask (currentUserRequest : String) (context : VoiceTaskFlowContext)
    (taskChoice : TaskChoiceDecision) (task : SelectedTaskContext) (prepared : PreparedTask)
    {s : AttemptState} {h : History}
    (hs : ∃ cycle earlier, h = cycle :: earlier ∧ Attempting context task s cycle earlier) :
    Ensures record (fun r h => r.elim
        (fun s => ∃ cycle earlier, h = cycle :: earlier ∧ Attempting context task s cycle earlier)
        fun outcome => ∃ cycle earlier, h = cycle :: earlier ∧ Outcome outcome cycle earlier)
      (attemptTask currentUserRequest context taskChoice task prepared s) h := by
  obtain ⟨cycle, earlier, rfl, hs⟩ := hs
  simp only [attemptTask, ensures_bind, ensures_ask]
  intro execution _ summary conversation completion completionMs
  split_ifs with hpass
  · have htracks := hs.tracks.pass hs.pending
      ⟨execution.attemptId, task.output, summary.getD "No task output was produced.", completion,
        completionMs⟩ hpass
      ⟨context.cycleId, prepared.understanding, prepared.retrieved,
        prepared.continuation, execution.attemptId, completion⟩ hs.cycleId.symm rfl
      (s.request.successfulTasks ++ [⟨task.name, task.output,
        summary.getD "No task output was produced."⟩])
    have hpassed : Attempt.Passed ⟨execution.attemptId, some completion⟩ := congrArg some hpass
    exact ⟨_, earlier, rfl, htracks, hs.unchecked, fun _ =>
      ⟨.inr (Option.isSome_of_eq_some (passed_cons_pass cycle hpassed)), _, rfl, _,
        List.getLast?_concat, rfl⟩⟩
  · simp only [ensures_bind, ensures_ask]
    intro decision failureMs _
    have htracks := hs.tracks.fail ⟨execution.attemptId, task.output,
        summary.getD "No task output was produced.", completion, completionMs⟩ hpass
      ⟨execution.attemptId, prepared.continuation.taskPrompt.fullTaskPrompt,
        task.output, summary.getD "No task output was produced.",
        earlierRefusalReplies s.retryContext.refusalReplies, ⟨trim decision.validationReply,
          decision.canRefine⟩, failureMs⟩ rfl
    have hfailed : ¬ Attempt.Passed ⟨execution.attemptId, some completion⟩ :=
      fun h => hpass (Option.some.inj h)
    have hpending := (passed_cons_fail cycle hfailed).trans hs.pending
    split_ifs
    · exact ⟨_, earlier, rfl, htracks, hs.cycleId, hs.unchecked, hpending⟩
    · exact ⟨_, earlier, rfl, htracks, hs.unchecked, fun h => (by cases h)⟩

theorem ensures_selectedTask (availableTasks : List AvailableTask) (selectedTaskId : String)
    (h : History) :
    Ensures record (fun _ h' => h' = h) (selectedTask availableTasks selectedTaskId) h := by
  unfold selectedTask
  split
  · rfl
  · exact fun h => nomatch h

theorem ensures_runSelectedTask (fuel : ℕ) (currentUserRequest : String)
    (context : VoiceTaskFlowContext) {s : RequestState} {h : History} (hs : Tracks s h)
    (hloaded : s.completionContext.isSome) :
    Ensures record (fun outcome h => ∃ cycle earlier, h = cycle :: earlier ∧
        Outcome outcome cycle earlier)
      (runSelectedTask fuel currentUserRequest context s) h := by
  simp only [runSelectedTask, ensures_bind, ensures_ask]
  intro taskChoice taskChoiceMs
  refine (ensures_selectedTask _ _ _).mono fun task h' hh => ?_
  rw [show h' = h from hh]
  intro reported
  have hreport := hs.report hloaded context.cycleId task
    (addCandidateMemory s.candidateMemories .taskChoice taskChoice.candidateMemory)
  split_ifs with hnothing
  · have hcycle : Cycle.DidNothing ⟨context.cycleId, task, [], none⟩ := hnothing
    exact ⟨_, h, rfl, hreport, rfl, fun _ => ⟨.inl hcycle, _, rfl, names_afterNoAction _ _⟩⟩
  · rw [ensures_bind]
    refine (ensures_prepareTask _ _ _ _ _ _ _).mono fun prepared h' hh => ?_
    rw [hh]
    refine ensures_loop (fun _ _ hs => ensures_attemptTask _ _ _ _ _ hs) fuel
      ⟨_, h, rfl, ?_, rfl, rfl, rfl⟩
    exact ⟨hreport.reviewed, hreport.failures, hreport.elapsed, hreport.completed,
      hreport.noActions, hreport.loaded⟩

/-- How the loop ends: the latest cycle is finished, and the request check passed or three cycles in
a row did nothing. -/
structure Ended (s : RequestState) (h : History) : Prop where
  tracks : Tracks s h
  finished : ∃ cycle earlier, h = cycle :: earlier ∧ (cycle.DidNothing ∨ cycle.passed.isSome) ∧
    (cycle.requestCompletion = some .pass ∨ 3 ≤ noActionRun h)
  result : ∃ result, s.requestResult = .result result ∧ Names s result

theorem Tracks.amendRequest {s : RequestState} {cycle : Cycle} {earlier : History}
    (hs : Tracks s (cycle :: earlier)) (completion : Option CompletionResult) :
    Tracks s ({ cycle with requestCompletion := completion } :: earlier) :=
  ⟨hs.reviewed, hs.failures, hs.elapsed, hs.completed,
    hs.noActions.trans (by rw [noActionRun_cons, noActionRun_cons]),
    fun _ => hs.loaded (List.cons_ne_nil _ _)⟩

theorem ensures_runCycle (fuel : ℕ) (currentUserRequest : String) {s : RequestState} {h : History}
    (hs : Tracks s h) :
    Ensures record (fun r h => r.elim (Tracks · h) (Ended · h))
      (runCycle fuel currentUserRequest s) h := by
  simp only [runCycle, ensures_bind, ensures_ask]
  intro context
  refine (ensures_runSelectedTask fuel currentUserRequest context
    (s := { s with completionContext := some context }) ⟨hs.reviewed, hs.failures, hs.elapsed, hs.completed,
      hs.noActions, fun _ => rfl⟩ rfl).mono ?_
  rintro outcome _ ⟨cycle, earlier, rfl, hout⟩
  -- The answer of the request check ends up in the cycle.
  have hend : ∀ completion, Tracks outcome.request (⟨cycle.cycleId, cycle.task, cycle.attempts,
      completion⟩ :: earlier) ∧ (outcome.cycleFinished = true →
        requestIsComplete outcome.request.consecutiveNoActionCount completion = true →
        Ended { outcome.request with requestResult := outcome.cycleResult }
          (⟨cycle.cycleId, cycle.task, cycle.attempts, completion⟩ :: earlier)) := by
    intro completion
    have htracks := hout.tracks.amendRequest completion
    refine ⟨htracks, fun hfinished hcomplete => ?_⟩
    obtain ⟨hdone, result, hresult, hnames⟩ := hout.finished hfinished
    refine ⟨⟨htracks.reviewed, htracks.failures, htracks.elapsed, htracks.completed,
      htracks.noActions, htracks.loaded⟩, ⟨_, earlier, rfl, hdone, ?_⟩, result, hresult, ?_⟩
    · rw [← htracks.noActions]
      unfold requestIsComplete at hcomplete
      split_ifs at hcomplete with hcount
      · exact .inr hcount
      · cases completion with
        | none => cases hcomplete
        | some answer => exact .inl (congrArg some (of_decide_eq_true hcomplete))
    · cases result <;> exact hnames
  split_ifs with hcheck
  · simp only [ensures_bind, ensures_ask, ensures_pure]
    intro conversation scope completion
    split_ifs with hcomplete
    · rw [Bool.and_eq_true] at hcomplete
      exact (hend (some completion)).2 hcomplete.1 hcomplete.2
    · exact (hend (some completion)).1
  · rw [ensures_bind, ensures_pure]
    have hnone := hend none
    rw [← hout.unchecked] at hnone
    split_ifs with hcomplete
    · rw [Bool.and_eq_true] at hcomplete
      exact hnone.2 hcomplete.1 (hout.unchecked ▸ hcomplete.2)
    · exact hnone.1

theorem ensures_runVoiceTurnLoop (fuel : ℕ) (currentUserRequest : String) :
    Ensures record Ended (runVoiceTurnLoop fuel currentUserRequest) [] :=
  ensures_loop (fun _ _ hs => ensures_runCycle fuel currentUserRequest hs) fuel tracks_initial

theorem ensures_reviewMemories (groups : CandidateMemoryGroups)
    (context : CandidateMemoryReviewContext) (h : History) :
    Ensures record (fun _ h' => h' = h) (reviewMemories groups context) h := by
  unfold reviewMemories
  generalize (List.filter _ _ : List CandidateMemoryLayer) = layers
  generalize emptyCandidateMemoryGroups = batch
  induction layers generalizing batch with
  | nil => rfl
  | cons layer layers ih =>
    simp only [List.foldlM_cons, ensures_bind, ensures_ask, ensures_pure]
    exact fun kept => ih _

/-- After the loop the result of the last cycle is returned. -/
theorem ensures_finishVoiceTurn {s : RequestState} {h : History} (hs : Ended s h) :
    Ensures record (fun result h' => s.requestResult = .result result ∧ h' = h)
      (finishVoiceTurn s) h := by
  obtain ⟨cycle, earlier, hhistory, -⟩ := hs.finished
  have hloaded : h ≠ [] := by rw [hhistory]; exact List.cons_ne_nil _ _
  obtain ⟨context, hcontext⟩ := Option.isSome_iff_exists.mp (hs.tracks.loaded hloaded)
  obtain ⟨result, hresult, -⟩ := hs.result
  unfold finishVoiceTurn
  rw [hcontext, hresult]
  simp only [ensures_bind, ensures_pure]
  refine (ensures_reviewMemories _ _ h).mono fun batch h' hh => ?_
  rw [hh]
  have hfinish : ∀ h', h' = h → Ensures record
      (fun r h' => VoiceRequestResultState.result result = .result r ∧ h' = h)
      (finishedVoiceRequestResult (.result result)) h' := fun h' hh => ⟨rfl, hh⟩
  split_ifs
  · simp only [ensures_bind, ensures_ask]
    exact fun _ => hfinish h rfl
  · exact hfinish h rfl

/-- What a request comes to, read off the run of its loop: `s` holds the variables of the loop at
its end. -/
structure Settled (s : RequestState) (h : History) (result : VoiceTaskRunResult) : Prop where
  /-- One completion review for each executed attempt, in order. -/
  reviewed : s.completionReviews.map (·.attempt) = executed h
  /-- One failure review for each attempt that did not pass, in order. -/
  failures : s.failureReviews.map (·.attemptId) =
    ((executed h).filter fun attempt => ¬ attempt.Passed).map (·.attemptId)
  elapsed : s.taskCompletionMs =
    (s.completionReviews.map (·.elapsedMs)).sum + (s.failureReviews.map (·.elapsedMs)).sum
  noAction : (∃ noAction, result = .noAction noAction) ↔ passedCycles h = []
  /-- Another result names the last cycle that passed, and carries the reviews. -/
  flow : ∀ flow, result = .flow flow →
    (passedCycles h).head? = some (flow.cycleId, flow.attemptId) ∧
      flow.taskCompletionMs = s.taskCompletionMs ∧
      flow.completionReviews = s.completionReviews ∧ flow.failureReviews = s.failureReviews
  ended : ∃ cycle earlier, h = cycle :: earlier ∧ (cycle.DidNothing ∨ cycle.passed.isSome) ∧
    (cycle.requestCompletion = some .pass ∨ 3 ≤ noActionRun h)

theorem Ended.settled {s : RequestState} {h : History} (hs : Ended s h)
    {result : VoiceTaskRunResult} (hresult : s.requestResult = .result result) :
    Settled s h result := by
  obtain ⟨result', hresult', hnames⟩ := hs.result
  obtain rfl : result = result' := by
    rw [hresult] at hresult'
    exact VoiceRequestResultState.result.inj hresult'
  have hcompleted := hs.tracks.completed
  refine ⟨hs.tracks.reviewed, hs.tracks.failures, hs.tracks.elapsed, ?_, ?_, hs.finished⟩
  · cases result with
    | noAction noAction =>
      refine iff_of_true ⟨noAction, rfl⟩ ?_
      rw [show s.completedTasks = [] from hnames] at hcompleted
      exact List.reverse_eq_nil_iff.mp hcompleted.symm
    | flow flow =>
      refine iff_of_false (fun h => nomatch h) fun hnil => ?_
      obtain ⟨completed, hlast, -⟩ := hnames
      rw [hnil, List.reverse_nil, List.map_eq_nil_iff] at hcompleted
      rw [hcompleted] at hlast
      cases hlast
  · rintro flow rfl
    obtain ⟨completed, hlast, rfl⟩ := hnames
    refine ⟨?_, rfl, rfl, rfl⟩
    rw [← List.getLast?_reverse, ← hcompleted, List.getLast?_map, hlast]
    rfl

/-- However the models and the callbacks answer, the request does not end without a result, and a
result that is returned is the one for the run of the loop before it. -/
theorem voice_request_settled (fuel : ℕ) (currentUserRequest : String)
    (trace : List (Event Operation.Answer)) :
    ¬ (runVoiceTurn fuel currentUserRequest).Panics trace ∧
      ∀ result, (runVoiceTurn fuel currentUserRequest).Returns trace result →
        ∃ inLoop afterLoop s, trace = inLoop ++ afterLoop ∧
          (runVoiceTurnLoop fuel currentUserRequest).Returns inLoop s ∧
          (finishVoiceTurn s).Returns afterLoop result ∧
          afterLoop.foldl record (inLoop.foldl record []) = inLoop.foldl record [] ∧
          Settled s (trace.foldl record []) result := by
  have hloop := ensures_runVoiceTurnLoop fuel currentUserRequest
  constructor
  · intro hpanics
    have hturn : Ensures record (fun _ _ => True) (runVoiceTurn fuel currentUserRequest) [] := by
      rw [runVoiceTurn, ensures_bind]
      exact hloop.mono fun s h hs => (ensures_finishVoiceTurn hs).mono fun _ _ _ => trivial
    exact Ensures.not_panics hpanics hturn
  · intro result hreturns
    obtain ⟨inLoop, s, afterLoop, rfl, hinLoop, hafter⟩ := returns_bind hreturns
    have hended := hloop.returns hinLoop
    obtain ⟨hresult, hhistory⟩ := (ensures_finishVoiceTurn hended).returns hafter
    refine ⟨inLoop, afterLoop, s, rfl, hinLoop, hafter, hhistory, ?_⟩
    rw [List.foldl_append, hhistory]
    exact hended.settled hresult

namespace TestVectors

def replyTask : SelectedTaskContext :=
  ⟨"task", "Reply to user", "", "", "The user received a reply.", "", "", "glm-5.1", "", "", ""⟩

def waitTask : SelectedTaskContext :=
  ⟨"wait", "Wait", "", "", "Nothing is done.", "", "", doNothingModel, "", "", ""⟩

/-- The task is chosen in turn with waiting. Its second attempt is given up, and its fourth is the
first to pass; waiting then ends the request. -/
def retrying (h : History) : (op : Operation) → op.Answer
  | .loadContext => ⟨"cycle " ++ toString (h.length + 1), "", none, [], [],
      [replyTask, waitTask], [], [], [], none, [], []⟩
  | .loadRequestConversation => none
  | .loadTaskConversationScope => ⟨none, []⟩
  | .elapsed => 5
  | .chooseTask .. => ⟨if h.length % 2 = 0 then "task" else "wait", none⟩
  | .reportTaskChoice .. => true
  | .chooseMemorySearch .. => ⟨⟨[], [], []⟩, ⟨[], []⟩, none⟩
  | .chooseMemorySearchDepths .. => ⟨[], none⟩
  | .retrieveMemories .. => ⟨[], [], []⟩
  | .selectRelevantMemories .. => ⟨⟨[]⟩, none⟩
  | .composeTaskInput .. => ⟨"Hello", none⟩
  | .executeTask .. => ⟨"attempt " ++ toString ((executed h).length + 1), none⟩
  | .dispatchTaskOutputs _ => true
  | .summarizeTaskActions .. => none
  | .checkTaskCompletion .. => if (executed h).length = 4 then .pass else .fail
  | .writeValidationReply .. => ⟨"No reply was sent.", (executed h).length ≠ 2⟩
  | .recordValidationReply .. => true
  | .checkRequestCompletion .. => if h.length = 4 then .pass else .fail
  | .selectCandidateMemories .. => []
  | .writeCandidateMemories _ => true

def retried : History := [
  ⟨"cycle 4", waitTask, [], some .pass⟩,
  ⟨"cycle 3", replyTask, [⟨"attempt 4", some .pass⟩, ⟨"attempt 3", some .fail⟩], some .fail⟩,
  ⟨"cycle 2", waitTask, [], some .fail⟩,
  ⟨"cycle 1", replyTask, [⟨"attempt 2", some .fail⟩, ⟨"attempt 1", some .fail⟩], none⟩]

theorem voice_request_settled_retried : ∃ trace result s,
    (runVoiceTurn 4 "Hello").Returns trace result ∧ trace.foldl record [] = retried ∧
      Settled s retried result := by
  have hhistory : ((runVoiceTurn 4 "Hello").follow record retrying []).toOption.map
      (fun r => r.1.foldl record []) = some retried := by decide +kernel
  cases hfollow : (runVoiceTurn 4 "Hello").follow record retrying [] with
  | error why => rw [hfollow] at hhistory; cases hhistory
  | ok r =>
    rw [hfollow] at hhistory
    have hretried : r.1.foldl record [] = retried := Option.some.inj hhistory
    have hreturns := returns_of_follow hfollow
    obtain ⟨_, _, s, -, -, -, -, hs⟩ := (voice_request_settled 4 "Hello" r.1).2 r.2 hreturns
    exact ⟨r.1, r.2, s, hreturns, hretried, hretried ▸ hs⟩

end TestVectors

end VoiceTurn
