import Mathlib.Data.Fintype.Basic
import Reframe.Speech.Replies

/-! What an interruption silences, whatever the steps of the queue, the worker and the speaker it
falls between. -/
namespace ReframeSpeech

/-! When the calls began and returned. -/

section Calls

variable {ι : Type} {s : State ι}

/-- The log holds when each call began and returned. -/
structure Traced (s : State ι) : Prop where
  since_le : ∀ call since, (s.calls call).since? = some since → since ≤ s.submissions
  began : ∀ call before rest, s.log = before ++ .began call :: rest →
    ∃ since, (s.calls call).since? = some since ∧ ∀ job, .submitted job ∈ before → job.id < since
  returned : ∀ call, .returned call ∈ s.log → ∃ since, s.calls call = .returned since
  behind : ∀ call before rest since, s.log = before ++ .returned call :: rest →
    s.calls call = .returned since → ∀ job, .submitted job ∈ rest → since ≤ job.id

/-- What an event says about the step that records it. -/
def Event.Fits (s s' : State ι) : Event ι → Prop
  | .submitted job => job.id = s.submissions
  | .began call => (s'.calls call).since? = some s.submissions
  | .returned call => ∃ since, s.calls call = .emptying since ∧ s'.calls call = .returned since
  | .ended job outcome => s.worker = .finishing job outcome ∨ outcome = .enqueued ∨
      ∃ call since, outcome = .discarded call ∧ s.calls call = .emptying since
  | .synthesis job _ | .audio job _ => s.worker.job? = some job ∧ s.worker.Committed

/-- What a step does to the calls and to the log. -/
structure Logged (s s' : State ι) : Prop where
  submissions : s.submissions ≤ s'.submissions
  kept : ∀ call since, (s.calls call).since? = some since → (s'.calls call).since? = some since
  new : ∀ call since, (s'.calls call).since? = some since →
    (s.calls call).since? = some since ∨ since = s.submissions
  returned : ∀ call since, s.calls call = .returned since → s'.calls call = .returned since
  log : s'.log = s.log ∨ ∃ e, s'.log = s.log ++ [e] ∧ e.Fits s s'

theorem Logged.of_calls {s' : State ι} (hcalls : s'.calls = s.calls)
    (hsubmissions : s.submissions ≤ s'.submissions)
    (hlog : s'.log = s.log ∨ ∃ e, s'.log = s.log ++ [e] ∧ e.Fits s s') : Logged s s' := by
  refine ⟨hsubmissions, fun call since h => ?_, fun call since h => .inl ?_, fun call since h => ?_,
    hlog⟩
  · rwa [hcalls]
  · rwa [hcalls] at h
  · rwa [hcalls]

theorem Traced.step {s' : State ι} (h : Traced s) (hcounted : Counted s) (hlogged : Logged s s') :
    Traced s' := by
  refine ⟨fun call since hsince => ?_, fun call before rest hlog => ?_, fun call hmem => ?_,
    fun call before rest since hlog hcall job hjob => ?_⟩
  · have hle := hlogged.submissions
    rcases hlogged.new call since hsince with hold | rfl
    · exact (h.since_le call since hold).trans hle
    · exact hle
  · have hold : ∀ rest', s.log = before ++ .began call :: rest' →
        ∃ since, (s'.calls call).since? = some since ∧
          ∀ job, .submitted job ∈ before → job.id < since := by
      intro rest' hlog'
      obtain ⟨since, hsince, hjobs⟩ := h.began call before rest' hlog'
      exact ⟨since, hlogged.kept call since hsince, hjobs⟩
    rcases hlogged.log with hsame | ⟨e, hnew, hfits⟩
    · exact hold rest (hsame.symm.trans hlog)
    · rcases Run.split_concat (hnew.symm.trans hlog) with ⟨-, rfl, hbefore⟩ | ⟨rest', -, hlog'⟩
      · refine ⟨s.submissions, hfits, fun job hjob => ?_⟩
        rw [← hbefore] at hjob
        exact hcounted.id_lt hjob
      · exact hold rest' hlog'
  · have hold : .returned call ∈ s.log → ∃ since, s'.calls call = .returned since := by
      intro hmem'
      obtain ⟨since, hsince⟩ := h.returned call hmem'
      exact ⟨since, hlogged.returned call since hsince⟩
    rcases hlogged.log with hsame | ⟨e, hnew, hfits⟩
    · exact hold (hsame ▸ hmem)
    · rw [hnew] at hmem
      rcases List.mem_append.mp hmem with hmem | hmem
      · exact hold hmem
      · rw [← List.mem_singleton.mp hmem] at hfits
        obtain ⟨since, -, hreturned⟩ := hfits
        exact ⟨since, hreturned⟩
  · have hold : ∀ rest', s.log = before ++ .returned call :: rest' → .submitted job ∈ rest' →
        since ≤ job.id := by
      intro rest' hlog' hjob'
      obtain ⟨since', hsince'⟩ := h.returned call (by rw [hlog']; simp)
      obtain rfl : since' = since :=
        Call.returned.inj ((hlogged.returned call since' hsince').symm.trans hcall)
      exact h.behind call before rest' since' hlog' hsince' job hjob'
    rcases hlogged.log with hsame | ⟨e, hnew, hfits⟩
    · exact hold rest (hsame.symm.trans hlog) hjob
    · rcases Run.split_concat (hnew.symm.trans hlog) with ⟨rfl, -, -⟩ | ⟨rest', rfl, hlog'⟩
      · cases hjob
      · rcases List.mem_append.mp hjob with hjob | hjob
        · exact hold rest' hlog' hjob
        · rw [← List.mem_singleton.mp hjob] at hfits
          have hid : job.id = s.submissions := hfits
          obtain ⟨since', hsince'⟩ := h.returned call (by rw [hlog']; simp)
          have hsame := (hlogged.returned call since' hsince').symm.trans hcall
          rw [hid, ← Call.returned.inj hsame]
          exact h.since_le call since' (by rw [hsince']; rfl)

variable [DecidableEq ι] {speechChunks : String → List String}

theorem Logged.of_update {s' : State ι} {call : ι} {phase : Call}
    (hcalls : s'.calls = Function.update s.calls call phase)
    (hphase : s.calls call = .ready ∧ phase.since? = some s.submissions ∨
      (∀ since, s.calls call ≠ .returned since) ∧ phase.since? = (s.calls call).since?)
    (hsubmissions : s'.submissions = s.submissions)
    (hlog : s'.log = s.log ∨ ∃ e, s'.log = s.log ++ [e] ∧ e.Fits s s') : Logged s s' := by
  refine ⟨hsubmissions.ge, fun other since h => ?_, fun other since h => ?_, fun other since h => ?_,
    hlog⟩
  · rw [hcalls]
    by_cases hother : other = call
    · rw [hother] at h
      rw [hother, Function.update_self]
      rcases hphase with ⟨hready, -⟩ | ⟨-, hsame⟩
      · rw [hready] at h
        cases h
      · rwa [hsame]
    · rwa [Function.update_of_ne hother]
  · rw [hcalls] at h
    by_cases hother : other = call
    · rw [hother, Function.update_self] at h
      rw [hother]
      rcases hphase with ⟨-, hnew⟩ | ⟨-, hsame⟩
      · exact .inr (Option.some.inj (h.symm.trans hnew))
      · exact .inl (hsame ▸ h)
    · rw [Function.update_of_ne hother] at h
      exact .inl h
  · rw [hcalls]
    by_cases hother : other = call
    · rw [hother] at h
      rcases hphase with ⟨hready, -⟩ | ⟨hnot, -⟩
      · rw [hready] at h
        cases h
      · exact absurd h (hnot since)
    · rwa [Function.update_of_ne hother]

theorem Moved.logged {s' : State ι} {action : Action ι} (hmoved : Moved speechChunks s action s') :
    Logged s s' := by
  cases hmoved with
  | rested => exact .of_calls rfl le_rfl (.inl rfl)
  | submitted text => exact .of_calls rfl (Nat.le_succ _) (.inr ⟨_, rfl, rfl⟩)
  | taken => exact .of_calls rfl le_rfl (.inl rfl)
  | blank => exact .of_calls rfl le_rfl (.inr ⟨_, rfl, .inr (.inl rfl)⟩)
  | begun => exact .of_calls rfl le_rfl (.inl rfl)
  | went => exact .of_calls rfl le_rfl (.inl rfl)
  | synthesized _ job chunk rest hworker =>
    exact .of_calls rfl le_rfl (.inr ⟨_, rfl, by rw [hworker]; rfl, by rw [hworker]; trivial⟩)
  | sounded _ job chunk rest output hworker =>
    exact .of_calls rfl le_rfl (.inr ⟨_, rfl, by rw [hworker]; rfl, by rw [hworker]; trivial⟩)
  | finished => exact .of_calls rfl le_rfl (.inl rfl)
  | ended _ job outcome hworker => exact .of_calls rfl le_rfl (.inr ⟨_, rfl, .inl hworker⟩)
  | marked call hcall =>
    refine .of_update rfl (.inl ⟨hcall, rfl⟩) rfl (.inr ⟨_, rfl, ?_⟩)
    change (Function.update s.calls call _ call).since? = _
    rw [Function.update_self]
    rfl
  | ignored call hcall =>
    refine .of_update rfl (.inl ⟨hcall, rfl⟩) rfl (.inr ⟨_, rfl, ?_⟩)
    change (Function.update s.calls call _ call).since? = _
    rw [Function.update_self]
    rfl
  | cleared call since output hcall =>
    exact .of_update rfl (.inr ⟨by simp [hcall], by rw [hcall]; rfl⟩) rfl (.inl rfl)
  | discarded call since job jobs hcall hjobs =>
    exact .of_calls rfl le_rfl (.inr ⟨_, rfl, .inr (.inr ⟨call, since, rfl, hcall⟩)⟩)
  | returned call since hcall =>
    exact .of_update rfl (.inr ⟨by simp [hcall], by rw [hcall]; rfl⟩) rfl
      (.inr ⟨_, rfl, since, hcall, Function.update_self ..⟩)

end Calls

/-! The steps between which an interruption is safe. -/

section Quiet

variable {ι : Type} {s : State ι}

/-- No exception ends a reply; no call begins while a reply is taken and its playback is not current
yet; no reply older than a call is taken while the call is under way; and no call returns while a
check has let through what a reply older than the call does next. -/
def Allowed (s : State ι) : Action ι → Prop
  | .submit _ => True
  | .play => True
  | .work environment =>
    (environment.raises = true → s.worker.speaking? = none) ∧
      (s.worker = .waiting → ∀ job ∈ s.jobs.head?, job.Blank ∨
        ∀ call, ∀ since ∈ (s.calls call).underWay?, since ≤ job.id)
  | .interrupt call => match s.calls call with
    | .ready => ∀ job ∈ s.worker.taken?, job.Blank
    | .emptying since => s.jobs = [] → s.worker.Committed →
        ∀ job ∈ s.worker.job?, since ≤ job.id
    | _ => True

/-- The playback of the worker is current from `_begin_playback` to `_finish_playback`. -/
def Worker.playing : Worker ι → Bool
  | .waiting | .taken _ => false
  | _ => true

/-- What a call silences. -/
structure Quieted (s : State ι) : Prop where
  playback : s.playback.isSome = s.worker.playing
  marked : ∀ call since job, (s.calls call).since? = some since → s.worker.job? = some job →
    job.id < since → job.Blank ∨ s.interruptedBy?.isSome = true
  stopped : ∀ call since job, s.calls call = .returned since → s.worker.job? = some job →
    s.worker.Committed → since ≤ job.id
  emptied : ∀ call since, s.calls call = .returned since → ∀ job ∈ s.jobs, since ≤ job.id

theorem Worker.playing_of_speaking? {worker : Worker ι} {job : Job}
    (h : worker.speaking? = some job) : worker.playing = true := by
  cases worker <;> first | rfl | cases h

theorem not_interrupted_of_idle (h : Quieted s) (hidle : s.worker.playing = false) :
    s.interruptedBy? = none := by
  have hnone := h.playback
  rw [hidle] at hnone
  unfold State.interruptedBy?
  cases hplayback : s.playback with
  | none => rfl
  | some flag =>
    rw [hplayback] at hnone
    cases hnone

/-- A step that is no step of a call keeps what the calls silence. -/
theorem Quieted.of_worker {s' : State ι} (h : Quieted s) (hcalls : s'.calls = s.calls)
    (hplayback : s'.playback.isSome = s'.worker.playing)
    (hmarked : ∀ call since job, (s.calls call).since? = some since →
      s'.worker.job? = some job → job.id < since → job.Blank ∨ s'.interruptedBy?.isSome = true)
    (hcommitted : s'.worker.Committed → ∀ job, s'.worker.job? = some job →
      s.worker.job? = some job ∧
        (s.worker.Committed ∨ s.interruptedBy? = none ∧ ¬job.Blank))
    (hjobs : ∀ job ∈ s'.jobs, job ∈ s.jobs ∨ s.submissions ≤ job.id) (htraced : Traced s) :
    Quieted s' := by
  refine ⟨hplayback, fun call since job hsince => ?_, fun call since job hreturned hjob hworker => ?_,
    fun call since hreturned job hjob => ?_⟩
  · rw [hcalls] at hsince
    exact hmarked call since job hsince
  · rw [hcalls] at hreturned
    obtain ⟨hold, hcommitted | ⟨hnone, hblank⟩⟩ := hcommitted hworker job hjob
    · exact h.stopped call since job hreturned hold hcommitted
    by_contra hlt
    rcases h.marked call since job (by rw [hreturned]; rfl) hold (not_le.mp hlt) with hb | hsome
    · exact hblank hb
    · rw [hnone] at hsome
      cases hsome
  · rw [hcalls] at hreturned
    rcases hjobs job hjob with hold | hnew
    · exact h.emptied call since hreturned job hold
    · exact (htraced.since_le call since (by rw [hreturned]; rfl)).trans hnew

theorem since_cases {call : Call} {since : ℕ} (h : call.since? = some since) :
    call.underWay? = some since ∨ call = .returned since := by
  cases call with
  | ready => cases h
  | clearing n => exact .inl h
  | emptying n => exact .inl h
  | returned n => exact .inr (congrArg Call.returned (Option.some.inj h))

variable [DecidableEq ι] {speechChunks : String → List String}

/-- A step of a call keeps what the calls silence, if it has silenced its own part. -/
theorem Quieted.of_call {s' : State ι} (h : Quieted s) {call : ι} {phase : Call}
    (hcalls : s'.calls = Function.update s.calls call phase) (hworker : s'.worker = s.worker)
    (hplayback : s'.playback.isSome = s.playback.isSome)
    (hinterrupted : s.interruptedBy?.isSome = true → s'.interruptedBy?.isSome = true)
    (hjobs : s'.jobs = s.jobs)
    (hmarked : ∀ since job, phase.since? = some since → s.worker.job? = some job →
      job.id < since → job.Blank ∨ s'.interruptedBy?.isSome = true)
    (hreturned : ∀ since, phase = .returned since → s.jobs = [] ∧
      (s.worker.Committed → ∀ job ∈ s.worker.job?, since ≤ job.id)) : Quieted s' := by
  have hcases : ∀ other, s'.calls other = s.calls other ∨ other = call ∧ s'.calls other = phase := by
    intro other
    rw [hcalls]
    by_cases hother : other = call
    · exact .inr ⟨hother, by rw [hother, Function.update_self]⟩
    · exact .inl (Function.update_of_ne hother ..)
  refine ⟨by rw [hplayback, hworker]; exact h.playback, fun other since job hsince hjob hlt => ?_,
    fun other since job hother hjob hcommitted => ?_, fun other since hother job hjob => ?_⟩
  · rw [hworker] at hjob
    rcases hcases other with hsame | ⟨-, hphase⟩
    · rw [hsame] at hsince
      exact (h.marked other since job hsince hjob hlt).imp_right hinterrupted
    · rw [hphase] at hsince
      exact hmarked since job hsince hjob hlt
  · rw [hworker] at hjob hcommitted
    rcases hcases other with hsame | ⟨-, hphase⟩
    · rw [hsame] at hother
      exact h.stopped other since job hother hjob hcommitted
    · exact (hreturned since (hphase.symm.trans hother)).2 hcommitted job hjob
  · rw [hjobs] at hjob
    rcases hcases other with hsame | ⟨-, hphase⟩
    · rw [hsame] at hother
      exact h.emptied other since hother job hjob
    · rw [(hreturned since (hphase.symm.trans hother)).1] at hjob
      cases hjob

theorem Quieted.step {s' : State ι} {action : Action ι} (h : Quieted s) (htraced : Traced s)
    (hspoken : Spoken speechChunks s) (hallowed : Allowed s action)
    (hmoved : Moved speechChunks s action s') : Quieted s' := by
  cases hmoved with
  | rested => exact ⟨h.playback, h.marked, h.stopped, h.emptied⟩
  | submitted text =>
    refine h.of_worker rfl h.playback h.marked (fun hc job hjob => ⟨hjob, .inl hc⟩) (fun job hjob => ?_)
      htraced
    rcases List.mem_append.mp hjob with hjob | hjob
    · exact .inl hjob
    · rw [List.mem_singleton.mp hjob]
      exact .inr le_rfl
  | taken _ job jobs hworker hjobs =>
    have hidle : s.worker.playing = false := by rw [hworker]; rfl
    refine h.of_worker rfl (h.playback.trans hidle) (fun call since job' hsince hjob hlt => .inl ?_)
      (fun hc => hc.elim) (fun job' hjob => .inl ?_) htraced
    · obtain rfl : job = job' := Option.some.inj hjob
      have hhead := hallowed.2 hworker job (by rw [hjobs]; rfl)
      rcases since_cases hsince with hunder | hreturned
      · exact hhead.resolve_right fun hle => absurd (hle call since hunder) (not_le.mpr hlt)
      · refine absurd (h.emptied call since hreturned job ?_) (not_le.mpr hlt)
        rw [hjobs]
        exact List.mem_cons_self
    · rw [hjobs]
      exact List.mem_cons_of_mem _ hjob
  | blank _ job hworker =>
    have hidle : s.worker.playing = false := by rw [hworker]; rfl
    exact h.of_worker rfl (h.playback.trans hidle) (fun _ _ _ _ hjob => nomatch hjob)
      (fun hc => hc.elim) (fun _ => .inl) htraced
  | begun _ job hworker hblank =>
    have hidle : s.worker.playing = false := by rw [hworker]; rfl
    refine h.of_worker rfl rfl (fun call since job' hsince hjob hlt => .inl ?_) (fun hc => hc.elim)
      (fun _ => .inl) htraced
    obtain rfl : job = job' := Option.some.inj hjob
    rcases h.marked call since job hsince (by rw [hworker]; rfl) hlt with hb | hsome
    · exact hb
    · rw [not_interrupted_of_idle h hidle] at hsome
      cases hsome
  | went _ job worker output outputFailed hold hnew hleft hcommitted =>
    have hjob := Worker.job?_of_speaking? hold
    have hjob' := Worker.job?_of_speaking? hnew
    refine h.of_worker rfl ?_ (fun call since other hsince hother => ?_) (fun hc other hother => ?_)
      (fun _ => .inl) htraced
    · exact h.playback.trans
        ((Worker.playing_of_speaking? hold).trans (Worker.playing_of_speaking? hnew).symm)
    · exact h.marked call since other hsince (hjob.trans (hjob'.symm.trans hother))
    · obtain rfl : job = other := Option.some.inj (hjob'.symm.trans hother)
      exact ⟨hjob, .inr ⟨hcommitted hc, hspoken.nonblank job hold⟩⟩
  | synthesized _ job chunk rest hworker =>
    refine h.of_worker rfl ?_ (fun call since other hsince hother => ?_) (fun hc => hc.elim)
      (fun _ => .inl) htraced
    · exact h.playback.trans (by rw [hworker]; rfl)
    · exact h.marked call since other hsince (by rw [hworker]; exact hother)
  | sounded _ job chunk rest output hworker =>
    refine h.of_worker rfl ?_ (fun call since other hsince hother => ?_) (fun hc => hc.elim)
      (fun _ => .inl) htraced
    · exact h.playback.trans (by rw [hworker]; rfl)
    · exact h.marked call since other hsince (by rw [hworker]; exact hother)
  | finished _ job outcome hworker =>
    refine h.of_worker rfl ?_ (fun call since other hsince hother => ?_) (fun hc => hc.elim)
      (fun _ => .inl) htraced
    · exact h.playback.trans (Worker.playing_of_speaking? hworker)
    · exact h.marked call since other hsince ((Worker.job?_of_speaking? hworker).trans hother)
  | ended _ job outcome hworker =>
    exact h.of_worker rfl rfl (fun _ _ _ _ hjob => nomatch hjob) (fun hc => hc.elim) (fun _ => .inl)
      htraced
  | marked call hcall hplayback =>
    exact h.of_call rfl rfl (by rw [hplayback]; rfl) (fun _ => rfl) rfl
      (fun _ _ _ _ _ => .inr rfl) fun _ hphase => nomatch hphase
  | ignored call hcall hplayback =>
    refine h.of_call rfl rfl rfl id rfl (fun since job hsince hjob hlt => ?_)
      fun _ hphase => nomatch hphase
    cases hflag : s.playback with
    | none =>
      have hidle := h.playback
      rw [hflag] at hidle
      refine .inl ?_
      simp only [Allowed, hcall] at hallowed
      refine hallowed job ?_
      cases hworker : s.worker with
      | taken other =>
        rw [hworker] at hjob
        exact hjob
      | waiting =>
        rw [hworker] at hjob
        cases hjob
      | _ =>
        rw [hworker] at hidle
        cases hidle
    | some flag =>
      cases flag with
      | none => exact absurd hflag hplayback
      | some other =>
        refine .inr ?_
        change (s.playback.bind id).isSome = true
        rw [hflag]
        rfl
  | cleared call since output hcall =>
    exact h.of_call rfl rfl rfl id rfl
      (fun since' job hsince => h.marked call since' job (by rw [hcall]; exact hsince))
      fun _ hphase => nomatch hphase
  | discarded call since job jobs hcall hjobs =>
    refine h.of_worker rfl h.playback h.marked (fun hc job hjob => ⟨hjob, .inl hc⟩)
      (fun other hother => .inl ?_) htraced
    rw [hjobs]
    exact List.mem_cons_of_mem _ hother
  | returned call since hcall hjobs =>
    refine h.of_call rfl rfl rfl id rfl
      (fun since' job hsince => h.marked call since' job (by rw [hcall]; exact hsince))
      fun since' hphase => ?_
    obtain rfl : since = since' := Call.returned.inj hphase
    simp only [Allowed, hcall] at hallowed
    exact ⟨hjobs, hallowed hjobs⟩

end Quiet

/-! What the log says of the calls. -/

section Logs

variable {ι : Type} {s : State ι}

/-- After a call has returned, no reply submitted before it begins a synthesis or enqueues audio. -/
def Silent (log : List (Event ι)) : Prop :=
  ∀ call job before between after,
    log = before ++ .began call :: (between ++ .returned call :: after) →
      .submitted job ∈ before → ∀ chunk, .synthesis job chunk ∉ after ∧ .audio job chunk ∉ after

theorem Silent.step {s' : State ι} (h : Silent s.log) (htraced : Traced s) (hquieted : Quieted s)
    (hlogged : Logged s s') : Silent s'.log := by
  rcases hlogged.log with hsame | ⟨e, hnew, hfits⟩
  · rwa [hsame]
  intro call job before between after hlog hjob chunk
  rw [hnew] at hlog
  rcases Run.split_concat hlog with ⟨hnil, -⟩ | ⟨rest, hrest, hlog'⟩
  · simp at hnil
  rcases Run.split_concat hrest.symm with ⟨rfl, -, -⟩ | ⟨after', rfl, hrest'⟩
  · exact ⟨List.not_mem_nil, List.not_mem_nil⟩
  rw [hrest'] at hlog'
  obtain ⟨since, hsince, hbefore⟩ := htraced.began call before _ hlog'
  obtain ⟨since', hreturned⟩ := htraced.returned call (by rw [hlog']; simp)
  obtain rfl : since' = since := by
    rw [hreturned] at hsince
    exact Option.some.inj hsince
  -- the check that lets the reply of the worker go on is not older than the call
  have hlate : ∀ other, s.worker.job? = some other → s.worker.Committed → other ≠ job := by
    rintro other hother hcommitted rfl
    have hle := hquieted.stopped call since' other hreturned hother hcommitted
    exact absurd (hbefore other hjob) (not_lt.mpr hle)
  have hold := h call job before between after' hlog' hjob chunk
  constructor <;> intro hmem <;> rcases List.mem_append.mp hmem with hmem | hmem
  · exact hold.1 hmem
  · rw [← List.mem_singleton.mp hmem] at hfits
    exact hlate job hfits.1 hfits.2 rfl
  · exact hold.2 hmem
  · rw [← List.mem_singleton.mp hmem] at hfits
    exact hlate job hfits.1 hfits.2 rfl

/-- The call through which a reply ended. -/
def Outcome.through? : Outcome ι → Option ι
  | .interrupted call | .discarded call => some call
  | _ => none

/-- A call ends only replies that were submitted before it returned. -/
structure Kept (s : State ι) : Prop where
  playing : ∀ call job, s.interruptedBy? = some call → s.worker.job? = some job →
    ∃ since, (s.calls call).since? = some since ∧ job.id < since
  finishing : ∀ call job outcome, s.worker = .finishing job outcome →
    outcome.through? = some call → ∃ since, (s.calls call).since? = some since ∧ job.id < since
  log : ∀ call job outcome before after, s.log = before ++ .returned call :: after →
    .ended job outcome ∈ s.log → outcome.through? = some call → .submitted job ∈ before

theorem Kept.log_step {s' : State ι} (h : Kept s) (hcounted : Counted s) (htraced : Traced s)
    (hlogged : Logged s s') (hcounted' : Counted s')
    (call : ι) (job : Job) (outcome : Outcome ι) (before after : List (Event ι))
    (hlog : s'.log = before ++ .returned call :: after) (hmem : .ended job outcome ∈ s'.log)
    (hthrough : outcome.through? = some call) : .submitted job ∈ before := by
  rcases hlogged.log with hsame | ⟨e, hnew, hfits⟩
  · rw [hsame] at hlog hmem
    exact h.log call job outcome before after hlog hmem hthrough
  rw [hnew] at hlog hmem
  rcases List.mem_append.mp hmem with hmem | hmem
  · rcases Run.split_concat hlog with ⟨-, -, hbefore⟩ | ⟨after', -, hlog'⟩
    · exact hbefore ▸ hcounted.submitted_of_ended hmem
    · exact h.log call job outcome before after' hlog' hmem hthrough
  · rw [List.mem_singleton] at hmem
    rw [← hmem] at hfits hlog hnew
    rcases Run.split_concat hlog with ⟨-, heq, -⟩ | ⟨after', -, hlog'⟩
    · cases heq
    obtain ⟨since, hreturned⟩ := htraced.returned call (by rw [hlog']; simp)
    rcases hfits with hworker | rfl | ⟨other, since', rfl, hemptying⟩
    · obtain ⟨since', hsince, hlt⟩ := h.finishing call job outcome hworker hthrough
      rw [hreturned] at hsince
      obtain rfl : since = since' := Option.some.inj hsince
      have hended : .ended job outcome ∈ s'.log := by
        rw [hnew]
        exact List.mem_append_right _ (List.mem_singleton_self _)
      have hsubmitted := hcounted'.submitted_of_ended hended
      rw [hnew, hlog', List.append_assoc] at hsubmitted
      rcases List.mem_append.mp hsubmitted with hsubmitted | hsubmitted
      · exact hsubmitted
      · have hsubmitted : .submitted job ∈ after' := by simpa using hsubmitted
        · have hle := htraced.behind call before after' since hlog' hreturned job hsubmitted
          exact absurd hlt (not_lt.mpr hle)
    · cases hthrough
    · obtain rfl : other = call := Option.some.inj hthrough
      rw [hreturned] at hemptying
      cases hemptying

/-- What has to be seen of the replies that calls interrupt in a step. -/
theorem Kept.of_step {s' : State ι} (h : Kept s) (hlogged : Logged s s')
    (hplaying : ∀ call job, s'.interruptedBy? = some call → s'.worker.job? = some job →
      (s.interruptedBy? = some call ∧ s.worker.job? = some job) ∨
        ∃ since, (s'.calls call).since? = some since ∧ job.id < since)
    (hfinishing : ∀ call job outcome, s'.worker = .finishing job outcome →
      outcome.through? = some call → s.worker = .finishing job outcome ∨
        (s.interruptedBy? = some call ∧ s.worker.job? = some job))
    (hlog : ∀ call job outcome before after, s'.log = before ++ .returned call :: after →
      .ended job outcome ∈ s'.log → outcome.through? = some call → .submitted job ∈ before) :
    Kept s' := by
  have hkept : ∀ (call : ι) (job : Job),
      (∃ since, (s.calls call).since? = some since ∧ job.id < since) →
        ∃ since, (s'.calls call).since? = some since ∧ job.id < since :=
    fun call job ⟨since, hsince, hlt⟩ => ⟨since, hlogged.kept call since hsince, hlt⟩
  refine ⟨fun call job hflag hjob => ?_, fun call job outcome hworker hthrough => ?_, hlog⟩
  · rcases hplaying call job hflag hjob with ⟨hold, hjob'⟩ | hnew
    · exact hkept call job (h.playing call job hold hjob')
    · exact hnew
  · rcases hfinishing call job outcome hworker hthrough with hold | ⟨hold, hjob⟩
    · exact hkept call job (h.finishing call job outcome hold hthrough)
    · exact hkept call job (h.playing call job hold hjob)

/-- No reply has failed. -/
structure Unfailed (s : State ι) : Prop where
  worker : ∀ job, s.worker ≠ .finishing job .failed
  log : ∀ job, .ended job .failed ∉ s.log

variable [DecidableEq ι] {speechChunks : String → List String}

theorem Kept.step {s' : State ι} {action : Action ι} (h : Kept s) (hcounted : Counted s)
    (htraced : Traced s) (hquieted : Quieted s) (hmoved : Moved speechChunks s action s') :
    Kept s' := by
  have hlogged := hmoved.logged
  have hlog := h.log_step hcounted htraced hlogged (hcounted.step hmoved)
  cases hmoved with
  | rested =>
    exact h.of_step hlogged (fun _ _ hflag hjob => .inl ⟨hflag, hjob⟩) (fun _ _ _ hw _ => .inl hw) hlog
  | submitted text =>
    exact h.of_step hlogged (fun _ _ hflag hjob => .inl ⟨hflag, hjob⟩) (fun _ _ _ hw _ => .inl hw) hlog
  | taken _ job jobs hworker hjobs =>
    refine h.of_step hlogged (fun call job' hflag _ => ?_) (fun _ _ _ hw _ => nomatch hw) hlog
    have hnone := not_interrupted_of_idle hquieted (by rw [hworker]; rfl)
    exact nomatch hnone.symm.trans hflag
  | blank => exact h.of_step hlogged (fun _ _ _ hjob => nomatch hjob) (fun _ _ _ hw _ => nomatch hw) hlog
  | begun => exact h.of_step hlogged (fun _ _ hflag _ => nomatch hflag) (fun _ _ _ hw _ => nomatch hw) hlog
  | went _ job worker output outputFailed hold hnew =>
    refine h.of_step hlogged (fun call job' hflag hjob => .inl ⟨hflag, ?_⟩)
      (fun call job' outcome hw _ => ?_) hlog
    · rw [Worker.job?_of_speaking? hold, ← Worker.job?_of_speaking? hnew]
      exact hjob
    · have hw' : worker = .finishing job' outcome := hw
      rw [hw'] at hnew
      cases hnew
  | synthesized _ job chunk rest hworker =>
    refine h.of_step hlogged (fun call job' hflag hjob => .inl ⟨hflag, ?_⟩)
      (fun _ _ _ hw _ => nomatch hw) hlog
    rw [hworker]
    exact hjob
  | sounded _ job chunk rest output hworker =>
    refine h.of_step hlogged (fun call job' hflag hjob => .inl ⟨hflag, ?_⟩)
      (fun _ _ _ hw _ => nomatch hw) hlog
    rw [hworker]
    exact hjob
  | finished _ job outcome hworker houtcome =>
    refine h.of_step hlogged (fun call job' hflag hjob => .inl ⟨hflag, ?_⟩)
      (fun call job' outcome' hw hthrough => .inr ?_) hlog
    · rw [Worker.job?_of_speaking? hworker]
      exact hjob
    · cases hw
      rcases houtcome with ⟨rfl, -⟩ | ⟨other, rfl, hflag⟩ | ⟨rfl, -⟩
      · cases hthrough
      · obtain rfl : other = call := Option.some.inj hthrough
        exact ⟨hflag, Worker.job?_of_speaking? hworker⟩
      · cases hthrough
  | ended => exact h.of_step hlogged (fun _ _ _ hjob => nomatch hjob) (fun _ _ _ hw _ => nomatch hw) hlog
  | marked call hcall hplayback =>
    refine h.of_step hlogged (fun other job hflag hjob => .inr ?_) (fun _ _ _ hw _ => .inl hw) hlog
    obtain rfl : call = other := Option.some.inj hflag
    refine ⟨s.submissions, ?_, hcounted.id_lt (hcounted.submitted_of_job? hjob)⟩
    change (Function.update s.calls call _ call).since? = _
    rw [Function.update_self]
    rfl
  | ignored =>
    exact h.of_step hlogged (fun _ _ hflag hjob => .inl ⟨hflag, hjob⟩) (fun _ _ _ hw _ => .inl hw) hlog
  | cleared =>
    exact h.of_step hlogged (fun _ _ hflag hjob => .inl ⟨hflag, hjob⟩) (fun _ _ _ hw _ => .inl hw) hlog
  | discarded =>
    exact h.of_step hlogged (fun _ _ hflag hjob => .inl ⟨hflag, hjob⟩) (fun _ _ _ hw _ => .inl hw) hlog
  | returned =>
    exact h.of_step hlogged (fun _ _ hflag hjob => .inl ⟨hflag, hjob⟩) (fun _ _ _ hw _ => .inl hw) hlog

theorem Unfailed.step {s' : State ι} {action : Action ι} (h : Unfailed s)
    (hallowed : Allowed s action) (hmoved : Moved speechChunks s action s') : Unfailed s' := by
  have hlog : ∀ job, .ended job .failed ∉ s'.log := by
    intro job hmem
    rcases hmoved.logged.log with hsame | ⟨e, hnew, hfits⟩
    · exact h.log job (hsame ▸ hmem)
    · rw [hnew] at hmem
      rcases List.mem_append.mp hmem with hmem | hmem
      · exact h.log job hmem
      · rw [← List.mem_singleton.mp hmem] at hfits
        rcases hfits with hworker | heq | ⟨call, since, heq, -⟩
        · exact h.worker job hworker
        · cases heq
        · cases heq
  refine ⟨fun job hworker => ?_, hlog⟩
  cases hmoved with
  | taken => cases hworker
  | blank => cases hworker
  | begun => cases hworker
  | went _ _ worker _ _ _ hnew =>
    have hw : worker = .finishing job .failed := hworker
    rw [hw] at hnew
    cases hnew
  | synthesized => cases hworker
  | sounded => cases hworker
  | finished _ other outcome hspeaking houtcome =>
    cases hworker
    rcases houtcome with ⟨-, hraises⟩ | ⟨call, heq, -⟩ | ⟨heq, -⟩
    · rw [hallowed.1 hraises] at hspeaking
      cases hspeaking
    · cases heq
    · cases heq
  | ended => cases hworker
  | _ => exact h.worker job hworker

end Logs

/-! Whole runs. -/

section Runs

variable {ι : Type} {speechChunks : String → List String} {s : State ι}

/-- What holds of every state of a run whose steps are allowed. -/
structure Safe (speechChunks : String → List String) (s : State ι) : Prop where
  counted : Counted s
  spoken : Spoken speechChunks s
  traced : Traced s
  quieted : Quieted s
  silent : Silent s.log
  kept : Kept s
  unfailed : Unfailed s

theorem safe_start : Safe speechChunks (State.start ι) where
  counted := ⟨rfl, .refl _⟩
  spoken := ⟨nofun, nofun, nofun, nofun, nofun⟩
  traced := ⟨nofun, fun _ _ _ h => by simp [State.start] at h, nofun,
    fun _ _ _ _ h => by simp [State.start] at h⟩
  quieted := ⟨rfl, nofun, nofun, nofun⟩
  silent _ _ _ _ _ h := by simp [State.start] at h
  kept := ⟨nofun, nofun, fun _ _ _ _ _ h => by simp [State.start] at h⟩
  unfailed := ⟨nofun, nofun⟩

variable [DecidableEq ι]

theorem Safe.step (action : Action ι) (hallowed : Allowed s action) (h : Safe speechChunks s) :
    Safe speechChunks (step speechChunks s action) := by
  have hmoved := step_moved speechChunks s action
  have hlogged := hmoved.logged
  exact ⟨h.counted.step hmoved, h.spoken.step h.counted hmoved, h.traced.step h.counted hlogged,
    h.quieted.step h.traced h.spoken hallowed hmoved, h.silent.step h.traced h.quieted hlogged,
    h.kept.step h.counted h.traced h.quieted hmoved, h.unfailed.step hallowed hmoved⟩

/-- An event stays in the log. -/
theorem mem_log_run {e : Event ι} (actions : List (Action ι)) :
    ∀ {s : State ι}, e ∈ s.log → e ∈ (run speechChunks s actions).log := by
  induction actions with
  | nil => exact id
  | cons action actions ih =>
    intro s he
    refine ih ?_
    rcases (step_moved speechChunks s action).logged.log with hsame | ⟨_, hnew, -⟩
    · rwa [hsame]
    · rw [hnew]
      exact List.mem_append_left _ he

variable (speechChunks) in
theorem counted_run (actions : List (Action ι)) :
    ∀ {s : State ι}, Counted s → Counted (run speechChunks s actions) := by
  induction actions with
  | nil => exact id
  | cons action actions ih => exact fun h => ih (h.step (step_moved speechChunks _ action))

/-- An interruption silences the replies from before it and no others, and every reply ends once. -/
structure Silences (speechChunks : String → List String) (s : State ι) : Prop where
  /-- Once a call has returned, no reply submitted before it is synthesized or heard any more. -/
  silent : Silent s.log
  /-- A call ends no reply that was submitted after it returned. -/
  kept : ∀ call job outcome before after, s.log = before ++ .returned call :: after →
    .submitted job ∈ after → .ended job outcome ∈ s.log → outcome.through? ≠ some call
  /-- Every submitted reply has ended, is with the worker or is in the queue, and only once. -/
  once : (s.log.filterMap Event.submitted?).Nodup ∧
    (s.log.filterMap Event.ended? ++ (s.worker.job?.toList ++ s.jobs)).Perm
      (s.log.filterMap Event.submitted?)
  /-- A reply ends enqueued in full, or through a call. -/
  outcome : ∀ job outcome, .ended job outcome ∈ s.log →
    outcome = .enqueued ∧ s.log.filterMap (Event.audioOf? job) = chunksOf speechChunks job ∨
      ∃ call, outcome = .interrupted call ∨ outcome = .discarded call
  /-- The worker, left to itself, ends every submitted reply. -/
  ends : ∃ more, (∀ action ∈ more, Action.OfWorker action) ∧ ∀ job, .submitted job ∈ s.log →
    ((run speechChunks s more).log.filterMap Event.ended?).count job = 1

theorem Safe.ends (h : Safe speechChunks s) :
    ∃ more, (∀ action ∈ more, Action.OfWorker action) ∧ ∀ job, .submitted job ∈ s.log →
      ((run speechChunks s more).log.filterMap Event.ended?).count job = 1 := by
  obtain ⟨more, hmore, hworker, hjobs⟩ := empties speechChunks s.jobs s rfl
  refine ⟨more, hmore, fun job hjob => ?_⟩
  have hcounted := counted_run speechChunks more h.counted
  have honce := hcounted.once
  rw [hworker, hjobs] at honce
  have hall : ((run speechChunks s more).log.filterMap Event.ended?).Perm
      ((run speechChunks s more).log.filterMap Event.submitted?) := by
    simpa [Worker.job?] using honce
  rw [hall.count_eq]
  exact List.count_eq_one_of_mem hcounted.nodup_submitted
    (Counted.mem_submitted.mpr (mem_log_run more hjob))

theorem Safe.silences (h : Safe speechChunks s) : Silences speechChunks s := by
  refine ⟨h.silent, fun call job outcome before after hlog hjob hended hthrough => ?_,
    ⟨h.counted.nodup_submitted, h.counted.once⟩, fun job outcome hended => ?_, h.ends⟩
  · have hbefore := h.kept.log call job outcome before after hlog hended hthrough
    have hnodup := h.counted.nodup_submitted
    rw [hlog, List.filterMap_append] at hnodup
    refine (List.nodup_append.mp hnodup).2.2 job (Counted.mem_submitted.mpr hbefore) job ?_ rfl
    exact Counted.mem_submitted.mpr (List.mem_cons_of_mem _ hjob)
  · cases outcome with
    | enqueued => exact .inl ⟨rfl, h.spoken.ended job hended⟩
    | interrupted call => exact .inr ⟨call, .inl rfl⟩
    | discarded call => exact .inr ⟨call, .inr rfl⟩
    | failed => exact absurd hended (h.unfailed.log job)

/-- After every run whose steps are allowed, interruptions silence. -/
theorem interrupt_silences (speechChunks : String → List String) (actions : List (Action ι))
    (h : Run.Along Allowed (step speechChunks) (State.start ι) actions) :
    Silences speechChunks (run speechChunks (State.start ι) actions) :=
  (Run.foldl_invariant (fun _ action => Safe.step action) actions _ h safe_start).silences

instance [Fintype ι] (s : State ι) : (action : Action ι) → Decidable (Allowed s action)
  | .submit _ => .isTrue trivial
  | .play => .isTrue trivial
  | .work environment => inferInstanceAs (Decidable ((environment.raises = true →
      s.worker.speaking? = none) ∧ (s.worker = .waiting → ∀ job ∈ s.jobs.head?, job.Blank ∨
        ∀ call, ∀ since ∈ (s.calls call).underWay?, since ≤ job.id)))
  | .interrupt call =>
    match h : s.calls call with
    | .ready => decidable_of_iff (∀ job ∈ s.worker.taken?, job.Blank) (by simp only [Allowed, h])
    | .emptying since => decidable_of_iff (s.jobs = [] → s.worker.Committed →
        ∀ job ∈ s.worker.job?, since ≤ job.id) (by simp only [Allowed, h])
    | .clearing _ => .isTrue (by simp only [Allowed, h])
    | .returned _ => .isTrue (by simp only [Allowed, h])

end Runs

namespace TestVectors

def oneChunk (text : String) : List String := [text]

/-- A reply is interrupted in its synthesis, the next one is still in the queue, and a third is
submitted afterwards. -/
def interruptedReply : List (Action Unit) :=
  [.submit "First reply.", .submit "Second reply.", .work undisturbed, .work undisturbed,
    .work undisturbed, .work undisturbed, .work undisturbed, .interrupt (), .work undisturbed,
    .interrupt (), .interrupt (), .work undisturbed, .interrupt (), .submit "Third reply.",
    .work undisturbed]

theorem interrupt_silences_reply :
    Silences oneChunk (run oneChunk (State.start Unit) interruptedReply) :=
  interrupt_silences oneChunk interruptedReply (by decide +kernel)

/-- The whole call falls between taking the reply from the queue and making its playback current. -/
def escapedReply : List (Action Unit) :=
  [.submit "Hello.", .work undisturbed, .interrupt (), .interrupt (), .work undisturbed,
    .work undisturbed, .work undisturbed, .work undisturbed]

theorem interrupt_misses_reply :
    ¬Silences oneChunk (run oneChunk (State.start Unit) escapedReply) := by
  intro h
  have hlog : (run oneChunk (State.start Unit) escapedReply).log =
      [.submitted ⟨0, "Hello."⟩] ++ .began () :: ([] ++ .returned () ::
        [.synthesis ⟨0, "Hello."⟩ "Hello."]) := by decide +kernel
  exact (h.silent () ⟨0, "Hello."⟩ _ _ _ hlog List.mem_cons_self "Hello.").1 List.mem_cons_self

end TestVectors
end ReframeSpeech
